import Laps.Lib.Walk
import Laps.Messages.DataHeader
import Laps.Relay.ReceivedData

/-! The places of the received data that are read and written on its way through the relay.  The
length that the sender gives is compared with the size of the data; what is read goes by the type.
-/

namespace Laps

open Std Wire Peering

/-! ### The header -/

namespace Peering.DataHeader

def walkFields (header : DataHeader) : Walker DataHeader :=
  match header.type with
  | .datagram => do
    let snsId ← Walker.u32
    let trackFullNameHash ← Walker.u64
    pure { header with snsId, trackFullNameHash }
  | .newStream => do
    let snsId ← Walker.u32
    let trackFullNameHash ← Walker.u64
    let priority ← Walker.byte
    let ttl ← Walker.u32
    pure { header with snsId, trackFullNameHash, priority, ttl }
  | _ => pure header

/-- `Deserialize` over data of `size` bytes. -/
def walk (header : DataHeader) (size : ℕ) : Walker (Bool × DataHeader) :=
  if size = 0 then pure (false, header)
  else do
    let headerLen ← Walker.byte
    if size < headerLen.toNat then Walker.throw
    else
      let type ← Walker.byte
      let header ← walkFields { header with headerLen, type := .ofUInt8 type }
      pure (true, header)

end Peering.DataHeader

/-! ### The way through the relay -/

/-- What is done with the data, or with a copy of it. -/
inductive Touch where
  | read (pos count : ℕ)
  | write (pos count : ℕ)
  /-- The data from a place up to its end. -/
  | copyFrom (pos : ℕ)
  deriving DecidableEq, Repr

def Touch.Inside (size : ℕ) : Touch → Prop
  | read pos count | write pos count => ∀ i, pos ≤ i → i < pos + count → i < size
  | copyFrom pos => pos ≤ size

def touches {α : Type} (w : Walk α) : List Touch := w.reads.map fun range => .read range.1 range.2

namespace Relay

/-- What `ForwardPeerData` does with the data for one entry of the row, and whether the loop goes on
after it: it does not where the source calls through a null pointer. -/
def touchEntry (r : Relay) (ingress : PeerSessionId) (chunk : PeerChunk) (egress : PeerSessionId)
    (entry : FibEntry) : List Touch × Bool :=
  if egress = ingress then ([], true)
  else if egress = 0 then
    match r.infoBase.subscribes.get₂? chunk.header.trackFullNameHash r.nodeId with
    | none => ([], true)
    | some _ => (if chunk.dataOffset ≠ 0 then [.copyFrom chunk.dataOffset] else [], true)
  else
    let written : List Touch := if chunk.isNewStream || !chunk.useReliable then [.write 2 4] else []
    let unknown := chunk.useReliable && !entry.streams.contains chunk.streamId
    if unknown && !chunk.isNewStream then (written, true)
    else
      match r.lockSession entry.peerSession with
      | none => (if unknown then written else written ++ [.copyFrom 0], false)
      | some _ => (written ++ [.copyFrom 0], true)

def touchLoop (r : Relay) (ingress : PeerSessionId) (chunk : PeerChunk) :
    List (PeerSessionId × FibEntry) → List Touch
  | [] => []
  | (egress, entry) :: entries =>
    match r.touchEntry ingress chunk egress entry with
    | (touched, true) => touched ++ r.touchLoop ingress chunk entries
    | (touched, false) => touched

def touchForward (r : Relay) (ingress : PeerSessionId) (chunk : PeerChunk) : List Touch :=
  match r.infoBase.peerFib[(ingress, chunk.header.snsId)]? with
  | none => []
  | some row => .copyFrom 0 :: r.touchLoop ingress chunk row.toList

/-- The data that a session gets: the first chunk of a stream, or a datagram. -/
inductive Arrival where
  | stream (streamId : UInt64)
  | datagram
  deriving DecidableEq, Repr

/-- `ProcessReceivedData` on the first chunk, and `OnRecvDgram`. -/
def touchArrival (r : Relay) (ingress : PeerSessionId) (data : List UInt8) (beyond : ℕ → UInt8) :
    Arrival → List Touch
  | .stream streamId =>
    let hdrLen := memory data beyond 0
    .read 0 1 ::
      -- Too few bytes for the header: more are waited for.
      if data.length < hdrLen.toNat then []
      else
        let walk := DataHeader.walk {} data.length (memory data beyond) 0
        touches walk ++
          match walk.result with
          | none => []
          | some ((_, header), _) =>
            r.touchForward ingress
              { isNewStream := true, streamId, header, data, dataOffset := hdrLen.toNat
                useReliable := true }
  | .datagram =>
    let walk := DataHeader.walk {} data.length (memory data beyond) 0
    touches walk ++
      match walk.result with
      | none => []
      | some ((_, header), _) =>
        r.touchForward ingress
          { isNewStream := false, streamId := 0, header, data, dataOffset := header.headerLen.toNat
            useReliable := false }

/-- Data with this id of a node set goes on to another session. -/
def ForwardsOn (r : Relay) (ingress : PeerSessionId) (snsId : SubscribeNodeSetId) : Prop :=
  ∃ row, r.infoBase.peerFib[(ingress, snsId)]? = some row ∧
    ∃ egress ∈ row, egress ≠ ingress ∧ egress ≠ 0

/-- The data has room for the fields of its type, and for the id of a node set where it goes on; or
it is shorter than it says. -/
def HasRoom (r : Relay) (ingress : PeerSessionId) (arrival : Arrival) : List UInt8 → Prop
  | [] => arrival = .datagram ∧ ¬r.ForwardsOn ingress 0
  | [headerLen] => 1 < headerLen.toNat
  | headerLen :: type :: rest =>
    2 + rest.length < headerLen.toNat ∨
      match DataType.ofUInt8 type with
      | .datagram => 4 + 8 ≤ rest.length
      | .newStream => 4 + 8 + 1 + 4 ≤ rest.length
      | _ => r.ForwardsOn ingress 0 → 4 ≤ rest.length

/-! ### The places that are touched -/

theorem inside_read {pos count size : ℕ} (h : 0 < count) :
    (Touch.read pos count).Inside size ↔ pos + count ≤ size := by
  constructor
  · intro hinside
    have hlast := hinside (pos + count - 1) (by omega) (by omega)
    omega
  · intro hle i _ hi
    omega

theorem inside_write {pos count size : ℕ} (h : 0 < count) :
    (Touch.write pos count).Inside size ↔ pos + count ≤ size :=
  inside_read h

section Loop

variable {r : Relay} {ingress : PeerSessionId} {chunk : PeerChunk} {size : ℕ}
variable {entries : List (PeerSessionId × FibEntry)}

/-- An entry of another session is written to, and what is copied is there. -/
theorem inside_touchEntry {egress : PeerSessionId} {entry : FibEntry}
    (hoffset : chunk.dataOffset ≤ size) (hroom : egress ≠ ingress → egress ≠ 0 → 6 ≤ size) :
    ∀ t ∈ (r.touchEntry ingress chunk egress entry).1, t.Inside size := by
  have hwritten : egress ≠ ingress → egress ≠ 0 →
      ∀ t ∈ [Touch.write 2 4], t.Inside size := by
    intro hne hzero t ht
    obtain rfl := List.mem_singleton.mp ht
    exact (inside_write (by decide)).mpr (hroom hne hzero)
  have hcopy : (Touch.copyFrom 0).Inside size := Nat.zero_le size
  have hpayload : (Touch.copyFrom chunk.dataOffset).Inside size := hoffset
  unfold touchEntry
  grind

theorem write_mem_touchEntry {egress : PeerSessionId} {entry : FibEntry}
    (hflag : (chunk.isNewStream || !chunk.useReliable) = true) (hne : egress ≠ ingress)
    (hzero : egress ≠ 0) : .write 2 4 ∈ (r.touchEntry ingress chunk egress entry).1 := by
  unfold touchEntry
  grind

theorem touchEntry_goes_on {egress : PeerSessionId} {entry : FibEntry}
    (h : egress = ingress ∨ egress = 0) : (r.touchEntry ingress chunk egress entry).2 = true := by
  unfold touchEntry
  grind

theorem touchLoop_cons {egress : PeerSessionId} {entry : FibEntry} :
    r.touchLoop ingress chunk ((egress, entry) :: entries) =
      (r.touchEntry ingress chunk egress entry).1 ++
        if (r.touchEntry ingress chunk egress entry).2 then r.touchLoop ingress chunk entries
        else [] := by
  rw [touchLoop]
  split
  · rename_i touched heq
    rw [heq, if_pos rfl]
  · rename_i touched heq
    rw [heq, if_neg Bool.false_ne_true, List.append_nil]

theorem inside_touchLoop (hflag : (chunk.isNewStream || !chunk.useReliable) = true)
    (hoffset : chunk.dataOffset ≤ size) :
    (∀ t ∈ r.touchLoop ingress chunk entries, t.Inside size) ↔
      ∀ e ∈ entries, e.1 ≠ ingress → e.1 ≠ 0 → 6 ≤ size := by
  induction entries with
  | nil => exact iff_of_true (fun _ h => absurd h List.not_mem_nil) fun _ h => absurd h List.not_mem_nil
  | cons e entries ih =>
    obtain ⟨egress, entry⟩ := e
    rw [touchLoop_cons, List.forall_mem_append, List.forall_mem_cons]
    by_cases hother : egress ≠ ingress ∧ egress ≠ 0
    · constructor
      · rintro ⟨hhead, -⟩
        have hsize := hhead _ (write_mem_touchEntry hflag hother.1 hother.2)
        have hsize : 6 ≤ size := (inside_write (by decide)).mp hsize
        exact ⟨fun _ _ => hsize, fun _ _ _ _ => hsize⟩
      · rintro ⟨hhead, htail⟩
        refine ⟨inside_touchEntry hoffset hhead, ?_⟩
        split
        · exact ih.mpr htail
        · exact fun _ h => absurd h List.not_mem_nil
    · have hgoes : (r.touchEntry ingress chunk egress entry).2 = true :=
        touchEntry_goes_on (by tauto)
      rw [hgoes, if_pos rfl, ih]
      refine and_congr_left' (iff_of_true (inside_touchEntry hoffset ?_) ?_)
      · exact fun hne hzero => absurd ⟨hne, hzero⟩ hother
      · exact fun hne hzero => absurd ⟨hne, hzero⟩ hother

theorem inside_touchForward (hflag : (chunk.isNewStream || !chunk.useReliable) = true)
    (hoffset : chunk.dataOffset ≤ size) :
    (∀ t ∈ r.touchForward ingress chunk, t.Inside size) ↔
      (r.ForwardsOn ingress chunk.header.snsId → 6 ≤ size) := by
  unfold touchForward ForwardsOn
  cases hrow : r.infoBase.peerFib[(ingress, chunk.header.snsId)]? with
  | none =>
    refine iff_of_true (fun _ h => absurd h List.not_mem_nil) ?_
    rintro ⟨row, h, -⟩
    cases h
  | some row =>
    rw [List.forall_mem_cons, inside_touchLoop hflag hoffset]
    constructor
    · rintro ⟨-, hroom⟩ ⟨_, ⟨⟩, egress, hmem, hne, hzero⟩
      obtain ⟨entry, hentry⟩ := Option.isSome_iff_exists.mp (ExtTreeMap.isSome_getElem?_iff_mem.mpr hmem)
      exact hroom (egress, entry) (ExtTreeMap.mem_toList_iff_getElem?_eq_some.mpr hentry) hne hzero
    · refine fun hroom => ⟨Nat.zero_le size, ?_⟩
      rintro ⟨egress, entry⟩ hentry hne hzero
      have hget := ExtTreeMap.mem_toList_iff_getElem?_eq_some.mp hentry
      exact hroom ⟨row, rfl, egress, ExtTreeMap.mem_iff_isSome_getElem?.mpr (by simp [hget]), hne, hzero⟩

end Loop

/-! ### The header of the data that arrives -/

section Header

variable {r : Relay} {ingress : PeerSessionId} {size : ℕ}

/-- The header when the length and the type are read. -/
def started (headerLen type : UInt8) : DataHeader := { headerLen, type := .ofUInt8 type }

theorem walk_cons (headerLen : UInt8) (tail : List UInt8) (beyond : ℕ → UInt8) :
    DataHeader.walk {} (headerLen :: tail).length (memory (headerLen :: tail) beyond) 0 =
      if (headerLen :: tail).length < headerLen.toNat then ⟨[(0, 1)], none⟩
      else
        let type := memory (headerLen :: tail) beyond 1
        let fields := (started headerLen type).walkFields (memory (headerLen :: tail) beyond) 2
        ⟨(0, 1) :: (1, 1) :: fields.reads, fields.result.map fun out => ((true, out.1), out.2)⟩ := by
  have hne : (headerLen :: tail).length ≠ 0 := Nat.succ_ne_zero _
  have hfirst : memory (headerLen :: tail) beyond 0 = headerLen := rfl
  rw [DataHeader.walk, if_neg hne, Walker.run_byte, hfirst]
  split
  · rfl
  · rw [Walker.run_byte]
    have hmap := Walker.run_map (fun header => (true, header))
      (started headerLen (memory (headerLen :: tail) beyond 1)).walkFields
      (memory (headerLen :: tail) beyond) 2
    exact congrArg₂ _ (congrArg _ (congrArg _ (congrArg Walk.reads hmap))) (congrArg Walk.result hmap)

theorem like_walkFields (header : DataHeader) (data : List UInt8) (beyond : ℕ → UInt8) :
    Walker.Like header.walkFields header.readFields data beyond := by
  obtain ⟨headerLen, type, snsId, hash, priority, ttl⟩ := header
  cases type with
  | datagram => exact Walker.like_u32.bind fun _ => Walker.like_u64.bind fun _ => .pure _
  | newStream =>
    exact Walker.like_u32.bind fun _ => Walker.like_u64.bind fun _ => Walker.like_byte.bind fun _ =>
      Walker.like_u32.bind fun _ => .pure _
  | existingStream | controlSignaling | fetchNewStream | fetchExistingStream | unknown _ =>
    exact .pure _

/-- Inside the data the walk comes to the header that is read from it. -/
theorem result_walk {data : List UInt8} {beyond : ℕ → UInt8}
    (h : (DataHeader.walk {} data.length (memory data beyond) 0).Inside data.length) :
    (DataHeader.walk {} data.length (memory data beyond) 0).result.map Prod.fst =
      DataHeader.deserialize {} data := by
  cases data with
  | nil => rfl
  | cons headerLen tail =>
    rw [walk_cons] at h ⊢
    rw [DataHeader.deserialize]
    by_cases hshort : (headerLen :: tail).length < headerLen.toNat
    · rw [if_pos hshort, if_pos hshort]
      rfl
    · rw [if_neg hshort] at h ⊢
      rw [if_neg hshort]
      dsimp only at h ⊢
      cases tail with
      | nil =>
        have hread := h (1, 1) (List.mem_cons_of_mem _ List.mem_cons_self) 1 (Nat.le_refl 1)
          (Nat.lt_succ_self 1)
        exact absurd hread (Nat.lt_irrefl 1)
      | cons type rest =>
        have hfields : ((started headerLen type).walkFields
            (memory (headerLen :: type :: rest) beyond) 2).Inside
            (headerLen :: type :: rest).length := fun range hrange =>
          h range (List.mem_cons_of_mem _ (List.mem_cons_of_mem _ hrange))
        have hlike := like_walkFields (started headerLen type) (headerLen :: type :: rest) beyond 2
          (Nat.succ_le_succ (Nat.succ_le_succ (Nat.zero_le _)))
        unfold Walker.Follows at hlike
        show _ = ((started headerLen type).readFields.run rest).bind fun out => some (true, out.1)
        have hdrop : (headerLen :: type :: rest).drop 2 = rest := rfl
        rw [hdrop] at hlike
        cases hread : (started headerLen type).readFields.run rest with
        | none =>
          rw [hread] at hlike
          exact absurd hfields hlike
        | some out =>
          rw [hread] at hlike
          obtain ⟨-, pos, -, -, hresult⟩ := hlike
          have htype : memory (headerLen :: type :: rest) beyond 1 = type := rfl
          rw [htype, hresult]
          rfl

/-- The size of the data that has the fields of the type. -/
def Spans (type : DataType) (size : ℕ) : Prop :=
  match type with
  | .datagram => 2 + 4 + 8 ≤ size
  | .newStream => 2 + 4 + 8 + 1 + 4 ≤ size
  | _ => True

theorem inside_walkFields (header : DataHeader) (mem : ℕ → UInt8) :
    (∀ t ∈ touches (header.walkFields mem 2), t.Inside size) ↔ Spans header.type size := by
  obtain ⟨headerLen, type, snsId, hash, priority, ttl⟩ := header
  cases type with
  | datagram =>
    show (∀ t ∈ [Touch.read 2 4, .read 6 8], t.Inside size) ↔ 2 + 4 + 8 ≤ size
    simp only [List.forall_mem_cons, inside_read (show 0 < 4 by decide),
      inside_read (show 0 < 8 by decide)]
    constructor
    · exact fun h => h.2.1
    · exact fun h => ⟨by omega, h, fun _ h => absurd h List.not_mem_nil⟩
  | newStream =>
    show (∀ t ∈ [Touch.read 2 4, .read 6 8, .read 14 1, .read 15 4], t.Inside size) ↔
      2 + 4 + 8 + 1 + 4 ≤ size
    simp only [List.forall_mem_cons, inside_read (show 0 < 4 by decide),
      inside_read (show 0 < 8 by decide), inside_read (show 0 < 1 by decide)]
    constructor
    · exact fun h => h.2.2.2.1
    · exact fun h => ⟨by omega, by omega, by omega, h, fun _ h => absurd h List.not_mem_nil⟩
  | existingStream | controlSignaling | fetchNewStream | fetchExistingStream | unknown _ =>
    exact iff_of_true (fun _ h => absurd h List.not_mem_nil) trivial

/-- The fields come to a header; where the type has none it is the one before them. -/
theorem result_walkFields (header : DataHeader) (mem : ℕ → UInt8) :
    ∃ header' pos, (header.walkFields mem 2).result = some (header', pos) ∧
      header'.headerLen = header.headerLen ∧
      (header.type = .datagram ∨ header.type = .newStream ∨ header'.snsId = header.snsId) := by
  obtain ⟨headerLen, type, snsId, hash, priority, ttl⟩ := header
  cases type with
  | datagram => exact ⟨_, _, rfl, rfl, .inl rfl⟩
  | newStream => exact ⟨_, _, rfl, rfl, .inr (.inl rfl)⟩
  | existingStream | controlSignaling | fetchNewStream | fetchExistingStream | unknown _ =>
    exact ⟨_, _, rfl, rfl, .inr (.inr rfl)⟩

section Arrives

variable {headerLen : UInt8} {tail : List UInt8} {beyond : ℕ → UInt8}

/-- Data that goes on has room for the id of the node set, if its type has one. -/
theorem forwardsOn_iff {type : DataType} {snsId : SubscribeNodeSetId} (hspans : Spans type size)
    (hsns : type = .datagram ∨ type = .newStream ∨ snsId = 0) :
    (r.ForwardsOn ingress snsId → 6 ≤ size) ↔
      (type ≠ .datagram → type ≠ .newStream → r.ForwardsOn ingress 0 → 6 ≤ size) := by
  have hdatagram : type = .datagram → 6 ≤ size := by
    rintro rfl
    exact Nat.le_trans (by decide) hspans
  have hnew : type = .newStream → 6 ≤ size := by
    rintro rfl
    exact Nat.le_trans (by decide) hspans
  by_cases htype : type = .datagram ∨ type = .newStream
  · have hroom : 6 ≤ size := htype.elim hdatagram hnew
    exact iff_of_true (fun _ => hroom) fun _ _ _ => hroom
  · obtain ⟨hdatagram, hnew⟩ := not_or.mp htype
    obtain h | h | rfl := hsns
    · exact absurd h hdatagram
    · exact absurd h hnew
    · exact ⟨fun h _ _ => h, fun h => h hdatagram hnew⟩

/-- The header is read, and the data goes on unless it is shorter than it says. -/
theorem inside_walk_forward {chunk : DataHeader → PeerChunk}
    (hflag : ∀ header, ((chunk header).isNewStream || !(chunk header).useReliable) = true)
    (hheader : ∀ header, (chunk header).header = header)
    (hoffset : ∀ header, header.headerLen = headerLen →
      (chunk header).dataOffset = headerLen.toNat) :
    (∀ t ∈ (touches (DataHeader.walk {} (headerLen :: tail).length
          (memory (headerLen :: tail) beyond) 0) ++
        match (DataHeader.walk {} (headerLen :: tail).length
            (memory (headerLen :: tail) beyond) 0).result with
        | none => []
        | some ((_, header), _) => r.touchForward ingress (chunk header)),
        t.Inside (headerLen :: tail).length) ↔
      (headerLen :: tail).length < headerLen.toNat ∨
        2 ≤ (headerLen :: tail).length ∧
        Spans (.ofUInt8 (memory (headerLen :: tail) beyond 1)) (headerLen :: tail).length ∧
        (DataType.ofUInt8 (memory (headerLen :: tail) beyond 1) ≠ .datagram →
          DataType.ofUInt8 (memory (headerLen :: tail) beyond 1) ≠ .newStream →
          r.ForwardsOn ingress 0 → 6 ≤ (headerLen :: tail).length) := by
  have hfirst : (Touch.read 0 1).Inside (headerLen :: tail).length :=
    (inside_read (by decide)).mpr (Nat.succ_le_succ (Nat.zero_le _))
  rw [walk_cons]
  by_cases hshort : (headerLen :: tail).length < headerLen.toNat
  · rw [if_pos hshort]
    refine iff_of_true ?_ (.inl hshort)
    exact List.forall_mem_cons.mpr ⟨hfirst, fun _ h => absurd h List.not_mem_nil⟩
  · rw [if_neg hshort, or_iff_right hshort]
    generalize memory (headerLen :: tail) beyond 1 = type
    obtain ⟨header, pos, hresult, hlen, hsns⟩ :=
      result_walkFields (started headerLen type) (memory (headerLen :: tail) beyond)
    dsimp only
    rw [hresult]
    show (∀ t ∈ .read 0 1 :: .read 1 1 :: touches ((started headerLen type).walkFields
      (memory (headerLen :: tail) beyond) 2) ++ r.touchForward ingress (chunk header), _) ↔ _
    rw [List.forall_mem_append, List.forall_mem_cons, List.forall_mem_cons,
      inside_read (by decide), inside_read (by decide), inside_walkFields,
      inside_touchForward (hflag header) (by rw [hoffset header hlen]; omega), hheader]
    constructor
    · rintro ⟨⟨-, hsize, hspans⟩, hforward⟩
      exact ⟨hsize, hspans, (forwardsOn_iff hspans hsns).mp hforward⟩
    · rintro ⟨hsize, hspans, hforward⟩
      exact ⟨⟨Nat.le_of_succ_le hsize, hsize, hspans⟩, (forwardsOn_iff hspans hsns).mpr hforward⟩

theorem inside_touchArrival_cons (arrival : Arrival) :
    (∀ t ∈ r.touchArrival ingress (headerLen :: tail) beyond arrival,
        t.Inside (headerLen :: tail).length) ↔
      (headerLen :: tail).length < headerLen.toNat ∨
        2 ≤ (headerLen :: tail).length ∧
        Spans (.ofUInt8 (memory (headerLen :: tail) beyond 1)) (headerLen :: tail).length ∧
        (DataType.ofUInt8 (memory (headerLen :: tail) beyond 1) ≠ .datagram →
          DataType.ofUInt8 (memory (headerLen :: tail) beyond 1) ≠ .newStream →
          r.ForwardsOn ingress 0 → 6 ≤ (headerLen :: tail).length) := by
  cases arrival with
  | datagram =>
    refine inside_walk_forward (fun _ => rfl) (fun _ => rfl) fun header hlen => ?_
    exact congrArg UInt8.toNat hlen
  | stream streamId =>
    have hfirst : (Touch.read 0 1).Inside (headerLen :: tail).length :=
      (inside_read (by decide)).mpr (Nat.succ_le_succ (Nat.zero_le _))
    have hzero : memory (headerLen :: tail) beyond 0 = headerLen := rfl
    rw [touchArrival, List.forall_mem_cons, and_iff_right hfirst, hzero]
    by_cases hshort : (headerLen :: tail).length < headerLen.toNat
    · rw [if_pos hshort]
      exact iff_of_true (fun _ h => absurd h List.not_mem_nil) (.inl hshort)
    · rw [if_neg hshort]
      exact inside_walk_forward (fun _ => rfl) (fun _ => rfl) fun _ _ => rfl

/-- Data that arrives is touched inside exactly when it has room. -/
theorem inside_touchArrival_iff (r : Relay) (ingress : PeerSessionId) (arrival : Arrival)
    (data : List UInt8) (beyond : ℕ → UInt8) :
    (∀ t ∈ r.touchArrival ingress data beyond arrival, t.Inside data.length) ↔
      r.HasRoom ingress arrival data := by
  match data, arrival with
  | [], .stream streamId =>
    refine iff_of_false (fun h => ?_) fun h => nomatch h.1
    have hread := (inside_read (by decide)).mp (h (.read 0 1) List.mem_cons_self)
    exact absurd hread (by decide)
  | [], .datagram =>
    have hforward : (∀ t ∈ r.touchForward ingress (PeerChunk.mk false 0 {} [] 0 false),
        t.Inside 0) ↔ (r.ForwardsOn ingress 0 → 6 ≤ 0) :=
      inside_touchForward rfl (Nat.le_refl 0)
    refine hforward.trans ?_
    constructor
    · exact fun h => ⟨rfl, fun hon => absurd (h hon) (by decide)⟩
    · exact fun h hon => absurd hon h.2
  | [headerLen], arrival =>
    rw [inside_touchArrival_cons]
    refine or_iff_left fun h => ?_
    exact absurd h.1 (Nat.lt_irrefl 1)
  | headerLen :: type :: rest, arrival =>
    have htype : memory (headerLen :: type :: rest) beyond 1 = type := rfl
    rw [inside_touchArrival_cons, htype]
    have hlength : (headerLen :: type :: rest).length = 2 + rest.length := by
      simp only [List.length_cons]
      omega
    rw [hlength]
    show _ ↔ 2 + rest.length < headerLen.toNat ∨ _
    refine or_congr_right (Iff.trans (and_iff_right (Nat.le_add_right ..)) ?_)
    cases DataType.ofUInt8 type with
    | datagram =>
      show 2 + 4 + 8 ≤ 2 + rest.length ∧ _ ↔ 4 + 8 ≤ rest.length
      constructor
      · rintro ⟨h, -⟩
        omega
      · exact fun h => ⟨by omega, fun hne => absurd rfl hne⟩
    | newStream =>
      show 2 + 4 + 8 + 1 + 4 ≤ 2 + rest.length ∧ _ ↔ 4 + 8 + 1 + 4 ≤ rest.length
      constructor
      · rintro ⟨h, -⟩
        omega
      · exact fun h => ⟨by omega, fun _ hne => absurd rfl hne⟩
    | existingStream | controlSignaling | fetchNewStream | fetchExistingStream | unknown _ =>
      show True ∧ _ ↔ (r.ForwardsOn ingress 0 → 4 ≤ rest.length)
      constructor
      · rintro ⟨-, h⟩ hon
        have hroom := h (by simp) (by simp) hon
        omega
      · refine fun h => ⟨trivial, fun _ _ hon => ?_⟩
        have hroom := h hon
        omega

/-- A datagram that says it is two bytes long and has them, with the type of a new stream. -/
theorem not_inside_touchArrival :
    ¬∀ t ∈ ({ nodeId := 7 } : Relay).touchArrival 1 [2, 2] (fun _ => 0) .datagram, t.Inside 2 := by
  intro h
  have hread : Touch.read 2 4 ∈ ({ nodeId := 7 } : Relay).touchArrival 1 [2, 2] (fun _ => 0) .datagram := by
    decide +kernel
  exact absurd ((inside_read (by decide)).mp (h _ hread)) (by decide)

end Arrives

end Header

end Relay

end Laps
