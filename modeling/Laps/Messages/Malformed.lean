import Laps.Lib.Clearing
import Laps.Messages.Control
import Laps.Messages.Decoders

/-! Malformed messages on the control stream: what the relay loses with a message whose body it
cannot read. -/

namespace Laps.Messages

open Wire

/-! ### Bodies that raise -/

/-- The constructor that the `switch` of `ProcessControlMessage` hands the body to. -/
def decoderOf (type : UInt16) : Option Decoder :=
  match type.toNat with
  | 1 => some .connect
  | 2 => some .connectResponse
  | 4 => some .nodeInfo
  | 5 => some .nodeInfo
  | 6 => some .subscribeInfo
  | 7 => some .subscribeInfo
  | 8 => some .announceInfo
  | 9 => some .announceInfo
  | 10 => some (.subscribeNodeSet false)
  | 11 => some (.subscribeNodeSet true)
  | _ => none

section Throws

variable {body : List UInt8} {beyond : ℕ → UInt8}

theorem SubscribeInfo.agrees_walkData {pos : ℕ} (hpos : pos ≤ body.length) (subSize : UInt32) :
    Walker.Agrees (walkData body.length subSize) (readData subSize) body beyond pos := by
  unfold walkData readData
  by_cases hzero : subSize = 0
  · rw [if_pos hzero, if_pos hzero]
    exact (Walker.Like.pure [] pos hpos).agrees
  · rw [if_neg hzero, if_neg hzero]
    intro hinside
    rw [Walker.run_here] at hinside ⊢
    by_cases hshort : body.length - pos < subSize.toNat
    · have hlength : (body.drop pos).length < subSize.toNat := by
        rw [List.length_drop]
        exact hshort
      rw [if_pos hshort]
      show none = (take subSize.toNat (body.drop pos)).map Prod.fst
      rw [take, if_neg (by omega)]
      rfl
    · rw [if_neg hshort] at hinside ⊢
      exact (Walker.like_fetch _ pos hpos).agrees hinside

theorem SubscribeInfo.agrees_walk :
    Walker.Agrees (SubscribeInfo.walk body.length) SubscribeInfo.read body beyond 0 := by
  refine Walker.like_u16.bind_agrees (Nat.zero_le _) fun _ _ h₁ => ?_
  refine Walker.like_u64.bind_agrees h₁ fun _ _ h₂ => ?_
  refine Walker.like_u64.bind_agrees h₂ fun _ _ h₃ => ?_
  refine Walker.like_u64.bind_agrees h₃ fun _ _ h₄ => ?_
  refine Walker.like_u64.bind_agrees h₄ fun _ _ h₅ => ?_
  refine Walker.like_u32.bind_agrees h₅ fun subSize _ h₆ => ?_
  exact (agrees_walkData h₆ subSize).bind_pure _

theorem result_map_eq_none {α : Type} {p : Walker α} {r : Reader α}
    (h : Walker.Agrees p r body beyond 0) {f : α → Received}
    (hinside : (Walker.map f p (memory body beyond) 0).Inside body.length) :
    (Walker.map f p (memory body beyond) 0).result = none ↔ r.run body = none := by
  have hboth := h (Walker.inside_bind.mp hinside).1
  rw [List.drop_zero] at hboth
  rw [Walker.run_map, Option.map_eq_none_iff, ← Option.map_eq_none_iff (f := Prod.fst), hboth,
    Option.map_eq_none_iff]

theorem decode_eq_none_iff {type : UInt16} {d : Decoder} (hd : decoderOf type = some d)
    (hinside : (d.walk body.length (memory body beyond) 0).Inside body.length) :
    decode type body = none ↔ (d.walk body.length (memory body beyond) 0).result = none := by
  unfold decoderOf at hd
  split at hd <;> rename_i htype <;> cases hd <;>
    simp only [decode, htype, Option.map_eq_none_iff]
  · exact (result_map_eq_none (Connect.like_walk 0 (Nat.zero_le _)).agrees hinside).symm
  · exact (result_map_eq_none (ConnectResponse.like_walk 0 (Nat.zero_le _)).agrees hinside).symm
  · exact (result_map_eq_none (NodeInfo.like_walk 0 (Nat.zero_le _)).agrees hinside).symm
  · exact (result_map_eq_none (NodeInfo.like_walk 0 (Nat.zero_le _)).agrees hinside).symm
  · exact (result_map_eq_none SubscribeInfo.agrees_walk hinside).symm
  · exact (result_map_eq_none SubscribeInfo.agrees_walk hinside).symm
  · exact (result_map_eq_none (AnnounceInfo.like_walk 0 (Nat.zero_le _)).agrees hinside).symm
  · exact (result_map_eq_none (AnnounceInfo.like_walk 0 (Nat.zero_le _)).agrees hinside).symm
  · exact (result_map_eq_none (SubscribeNodeSet.like_walk _ 0 (Nat.zero_le _)).agrees hinside).symm
  · exact (result_map_eq_none (SubscribeNodeSet.like_walk _ 0 (Nat.zero_le _)).agrees hinside).symm

end Throws

namespace Frame

/-- The constructor throws, unless it leaves the body. -/
theorem raises_iff {f : Frame} {d : Decoder} {beyond : ℕ → UInt8} (hd : decoderOf f.type = some d)
    (hinside : (d.walk f.body.length (memory f.body beyond) 0).Inside f.body.length) :
    f.Raises ↔ (d.walk f.body.length (memory f.body beyond) 0).result = none :=
  decode_eq_none_iff hd hinside

/-- What the relay does with framed messages. -/
theorem clears (frames : List Frame) :
    Framing.Clears processControlMessage bytes dispatched Raises Overrun 7 frames where
  positive := by decide
  short := fun buffer hlt => if_pos hlt
  header := fun f _ => by
    rw [length_bytes]
    exact Nat.le_add_right _ _
  whole := fun f _ hraises rest => by
    rw [processControlMessage_bytes, if_neg hraises]
  raised := fun f _ hraises => by
    refine ⟨?_, fun rest => ?_⟩
    · rw [dispatched, hraises]
    · rw [processControlMessage_bytes, if_pos hraises]
  part := fun f _ buffer hpart hlt hfit => by
    rw [f.processControlMessage_part hpart hlt, if_neg hfit]
  fault := fun f _ buffer hpart hlt hbad => by
    rw [f.processControlMessage_part hpart hlt, if_pos hbad]

end Frame

/-! ### Streams -/

/-- All messages that can be read are handed to their handlers, with their types and bodies, and
nothing is read as a header that is not one. -/
structure CostsOnlyItself (frames : List Frame) (chunks : List (List UInt8)) : Prop where
  dispatches : ∃ buffer, recvControl chunks = some (buffer, frames.flatMap Frame.dispatched)
  headers : ∀ front c back, chunks = front ++ c :: back →
    Framing.HeaderAt processControlMessage Frame.bytes 7 frames front c

/-- The chunks take the messages one by one, and a message that cannot be read is taken with nothing
behind it in the buffer that a handler would get, nor with a part of a message. -/
def NothingLost (frames : List Frame) (chunks : List (List UInt8)) : Prop :=
  Framing.Spared Frame.bytes Frame.dispatched Frame.Raises Frame.Overrun 7 frames 0 chunks

instance (frames : List Frame) (chunks : List (List UInt8)) :
    Decidable (NothingLost frames chunks) :=
  Framing.Spared.decidable Frame.bytes Frame.dispatched Frame.Raises Frame.Overrun 7 frames 0 chunks

/-- A message that cannot be read costs only itself exactly when it is alone in the buffer, or with
messages and parts that nobody gets. -/
theorem costsOnlyItself_iff (frames : List Frame) (chunks : List (List UInt8))
    (hstream : chunks.flatten = frames.flatMap Frame.bytes) :
    CostsOnlyItself frames chunks ↔ NothingLost frames chunks := by
  have hruns := (Frame.clears frames).feeds_iff hstream
  constructor
  · rintro ⟨hdispatches, hheaders⟩
    exact hruns.mp ⟨hdispatches, hheaders⟩
  · intro hnothing
    obtain ⟨hdispatches, hheaders⟩ := hruns.mpr hnothing
    exact ⟨hdispatches, hheaders⟩

/-- A subscription with one byte of data that is not there. -/
def oversized : Frame := ⟨1, 6, List.replicate 37 0 ++ [1], by decide⟩

/-- The constructor throws, and reads nothing past the body. -/
theorem throws_oversized (beyond : ℕ → UInt8) :
    (Decoder.subscribeInfo.walk 38 (memory oversized.body beyond) 0).Inside 38 ∧
      (Decoder.subscribeInfo.walk 38 (memory oversized.body beyond) 0).result = none := by
  have hfills : Decoder.subscribeInfo.Fills oversized.body := by
    show 38 ≤ oversized.body.length
    decide
  have hinside := (Decoder.inside_iff_fills .subscribeInfo oversized.body beyond).mpr hfills
  refine ⟨hinside, (Frame.raises_iff rfl hinside).mp ?_⟩
  decide

def withdrawal : Frame := ⟨1, 11, [0, 0, 0, 5], by decide⟩

/-- The message after it comes in a chunk of its own. -/
theorem costsOnlyItself_apart :
    CostsOnlyItself [oversized, withdrawal] [oversized.bytes, withdrawal.bytes] := by
  refine (costsOnlyItself_iff _ _ ?_).mpr ?_
  · simp
  · decide +kernel

/-- The constructor throws inside the body, and the first byte of the message after it has come with
it. -/
theorem not_costsOnlyItself :
    (∀ beyond, (Decoder.subscribeInfo.walk 38 (memory oversized.body beyond) 0).Inside 38 ∧
      (Decoder.subscribeInfo.walk 38 (memory oversized.body beyond) 0).result = none) ∧
    ¬∀ (frames : List Frame) (chunks : List (List UInt8)),
      chunks.flatten = frames.flatMap Frame.bytes → CostsOnlyItself frames chunks := by
  refine ⟨throws_oversized, fun h => ?_⟩
  obtain ⟨⟨buffer, hrun⟩, -⟩ := h [oversized, withdrawal]
    [oversized.bytes ++ withdrawal.bytes.take 1, withdrawal.bytes.drop 1] rfl
  have hnone : (recvControl [oversized.bytes ++ withdrawal.bytes.take 1,
      withdrawal.bytes.drop 1]).map Prod.snd = some [] := by
    decide +kernel
  rw [hrun] at hnone
  have hout : [oversized, withdrawal].flatMap Frame.dispatched = [] := Option.some.inj hnone
  revert hout
  decide +kernel

end Laps.Messages
