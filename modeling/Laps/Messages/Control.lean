import Laps.Lib.Framing
import Laps.Messages.RoundTrip

/-! The control stream: messages come out of a buffer that the chunks of the stream are put in. -/

namespace Laps.Messages

open Wire

/-- A message that is handed to its handler. -/
structure Dispatched where
  type : UInt16
  body : List UInt8
  msg : Received
  deriving DecidableEq

/-- `ProcessControlMessage`: the buffer after it, and what is dispatched.  `none` where the source
takes a body past the end of the buffer.  A body whose decoder reads past its end counts as one that
cannot be read, although the source raises nothing there and goes on with whatever is behind it. -/
def processControlMessage (buffer : List UInt8) : Option (List UInt8 × List Dispatched) :=
  if buffer.length < 7 then some (buffer, [])
  else do
    let (header, rest) ← CommonHeader.read.run buffer
    -- The sum has 32 bits.
    if buffer.length < (7 + header.dataLength).toNat then pure (buffer, [])
    else if rest.length < header.dataLength.toNat then none
    else
      let body := rest.take header.dataLength.toNat
      match decode header.type body with
      -- The buffer is cleared when a message cannot be read.
      | none => pure ([], [])
      | some (.invalid _) => pure (rest.drop header.dataLength.toNat, [])
      | some msg => pure (rest.drop header.dataLength.toNat, [⟨header.type, body, msg⟩])

/-- `OnRecvStream` of the control stream, chunk by chunk: the buffer, and what was dispatched. -/
def recvControl (chunks : List (List UInt8)) : Option (List UInt8 × List Dispatched) :=
  Framing.feeds processControlMessage chunks

/-! ### Any bytes in the buffer -/

/-- The type and the length in the first seven bytes. -/
def typeOf (buffer : List UInt8) : UInt16 := UInt16.ofNat (netValue ((buffer.drop 1).take 2))

def dataLengthOf (buffer : List UInt8) : ℕ := netValue ((buffer.drop 3).take 4)

/-- The buffer holds the header and all of the body. -/
def Complete (buffer : List UInt8) : Prop :=
  7 ≤ buffer.length ∧ 7 + dataLengthOf buffer ≤ buffer.length

theorem dataLengthOf_lt (buffer : List UInt8) : dataLengthOf buffer < 2 ^ 32 := by
  have hlength : ((buffer.drop 3).take 4).length ≤ 4 := List.length_take_le _ _
  calc dataLengthOf buffer < 256 ^ ((buffer.drop 3).take 4).length := netValue_lt _
    _ ≤ 256 ^ 4 := Nat.pow_le_pow_right (by decide) hlength

theorem run_commonHeader {buffer : List UInt8} (h : 7 ≤ buffer.length) :
    ∃ version, CommonHeader.read.run buffer =
      some (⟨version, typeOf buffer, UInt32.ofNat (dataLengthOf buffer)⟩, buffer.drop 7) := by
  match buffer, h with
  | version :: b₁ :: b₂ :: b₃ :: b₄ :: b₅ :: b₆ :: rest, _ => exact ⟨version, rfl⟩

theorem processControlMessage_of_length {buffer : List UInt8} (h : 7 ≤ buffer.length) :
    processControlMessage buffer =
      if buffer.length < (7 + dataLengthOf buffer) % 2 ^ 32 then some (buffer, [])
      else if buffer.length < 7 + dataLengthOf buffer then none
      else
        match decode (typeOf buffer) ((buffer.drop 7).take (dataLengthOf buffer)) with
        | none => some ([], [])
        | some (.invalid _) => some (buffer.drop (7 + dataLengthOf buffer), [])
        | some msg => some (buffer.drop (7 + dataLengthOf buffer),
            [⟨typeOf buffer, (buffer.drop 7).take (dataLengthOf buffer), msg⟩]) := by
  obtain ⟨version, hheader⟩ := run_commonHeader h
  have hlt := dataLengthOf_lt buffer
  have hsize : (UInt32.ofNat (dataLengthOf buffer)).toNat = dataLengthOf buffer := by
    rw [UInt32.toNat_ofNat']
    exact Nat.mod_eq_of_lt hlt
  have hsum : (7 + UInt32.ofNat (dataLengthOf buffer)).toNat =
      (7 + dataLengthOf buffer) % 2 ^ 32 := by
    rw [UInt32.toNat_add, hsize]
    rfl
  have hrest : (buffer.drop 7).length < dataLengthOf buffer ↔
      buffer.length < 7 + dataLengthOf buffer := by
    rw [List.length_drop]
    omega
  rw [processControlMessage, if_neg (by omega), hheader]
  simp only [Option.bind_eq_bind, Option.bind_some, Option.pure_def, hsum, hsize, hrest,
    List.drop_drop]

/-- The length stands in the first seven bytes. -/
theorem dataLengthOf_append {buffer : List UInt8} (h : 7 ≤ buffer.length) (tail : List UInt8) :
    dataLengthOf (buffer ++ tail) = dataLengthOf buffer := by
  have hdrop : (buffer.drop 3).length = buffer.length - 3 := List.length_drop
  rw [dataLengthOf, dataLengthOf, List.drop_append_of_le_length (by omega),
    List.take_append_of_le_length (by omega)]

/-! ### Frames -/

/-- A message as it is framed on the control stream, by whichever peer. -/
structure Frame where
  version : UInt8
  type : UInt16
  body : List UInt8
  framed : body.length < 2 ^ 32

namespace Frame

def bytes (f : Frame) : List UInt8 :=
  [f.version] ++ netBytes 2 f.type.toNat ++ netBytes 4 f.body.length ++ f.body

/-- The body cannot be read. -/
def Raises (f : Frame) : Prop := decode f.type f.body = none

instance : DecidablePred Raises := fun f =>
  inferInstanceAs (Decidable (decode f.type f.body = none))

/-- What is handed to a handler: no message that cannot be read, and none of an unknown type. -/
def dispatched (f : Frame) : List Dispatched :=
  match decode f.type f.body with
  | none => []
  | some (.invalid _) => []
  | some msg => [⟨f.type, f.body, msg⟩]

/-- A part of `n` bytes of a message whose size with the header has more than 32 bits. -/
def Overrun (f : Frame) (n : ℕ) : Prop := 7 ≤ n ∧ 2 ^ 32 - 7 ≤ f.body.length

instance (f : Frame) (n : ℕ) : Decidable (f.Overrun n) := inferInstanceAs (Decidable (_ ∧ _))

theorem bytes_append (f : Frame) (rest : List UInt8) :
    f.bytes ++ rest = f.version :: (netBytes 2 f.type.toNat ++
      (netBytes 4 f.body.length ++ (f.body ++ rest))) := by
  simp [bytes]

theorem length_bytes (f : Frame) : f.bytes.length = 7 + f.body.length := by
  simp only [bytes, List.length_append, List.length_singleton, length_netBytes]

section Header

variable (f : Frame) (rest : List UInt8)

theorem drop_one : (f.bytes ++ rest).drop 1 =
    netBytes 2 f.type.toNat ++ (netBytes 4 f.body.length ++ (f.body ++ rest)) := by
  rw [bytes_append]
  rfl

theorem drop_three : (f.bytes ++ rest).drop 3 =
    netBytes 4 f.body.length ++ (f.body ++ rest) := by
  have hdrop : (f.bytes ++ rest).drop 3 = ((f.bytes ++ rest).drop 1).drop 2 := by
    rw [List.drop_drop]
  rw [hdrop, drop_one, List.drop_left' (length_netBytes ..)]

theorem drop_seven : (f.bytes ++ rest).drop 7 = f.body ++ rest := by
  have hdrop : (f.bytes ++ rest).drop 7 = ((f.bytes ++ rest).drop 3).drop 4 := by
    rw [List.drop_drop]
  rw [hdrop, drop_three, List.drop_left' (length_netBytes ..)]

theorem typeOf_bytes : typeOf (f.bytes ++ rest) = f.type := by
  have hlt : f.type.toNat < 256 ^ 2 := f.type.toNat_lt
  rw [typeOf, drop_one, List.take_left' (length_netBytes ..), netValue_netBytes hlt,
    UInt16.ofNat_toNat]

theorem dataLengthOf_bytes : dataLengthOf (f.bytes ++ rest) = f.body.length := by
  have hlt : f.body.length < 256 ^ 4 := f.framed
  rw [dataLengthOf, drop_three, List.take_left' (length_netBytes ..), netValue_netBytes hlt]

end Header

/-- A whole message at the front of the buffer. -/
theorem processControlMessage_bytes (f : Frame) (rest : List UInt8) :
    processControlMessage (f.bytes ++ rest) =
      if f.Raises then some ([], []) else some (rest, f.dispatched) := by
  have hlength : (f.bytes ++ rest).length = 7 + f.body.length + rest.length := by
    rw [List.length_append, length_bytes]
  have hmod : (7 + f.body.length) % 2 ^ 32 ≤ 7 + f.body.length := Nat.mod_le _ _
  have hbody : (f.body ++ rest).take f.body.length = f.body := List.take_left
  have hrest : (f.bytes ++ rest).drop (7 + f.body.length) = rest :=
    List.drop_left' f.length_bytes
  rw [processControlMessage_of_length (by omega), f.dataLengthOf_bytes, f.typeOf_bytes,
    f.drop_seven, hbody, hrest, hlength, if_neg (by omega), if_neg (by omega)]
  cases hdecode : decode f.type f.body with
  | none => simp only [Raises, hdecode, if_true]
  | some msg => cases msg <;> simp only [Raises, dispatched, hdecode, reduceCtorEq, if_false]

/-- A part of a message, by its header. -/
theorem processControlMessage_part (f : Frame) {buffer : List UInt8} (hpart : buffer <+: f.bytes)
    (hlt : buffer.length < f.bytes.length) :
    processControlMessage buffer =
      if f.Overrun buffer.length then none else some (buffer, []) := by
  by_cases hshort : buffer.length < 7
  · have hfit : ¬f.Overrun buffer.length := fun h => by
      have := h.1
      omega
    rw [processControlMessage, if_pos hshort, if_neg hfit]
  · obtain ⟨tail, htail⟩ := hpart
    have hsize : dataLengthOf buffer = f.body.length := by
      have hwhole := f.dataLengthOf_bytes []
      rwa [List.append_nil, ← htail, dataLengthOf_append (by omega)] at hwhole
    have hframed := f.framed
    rw [length_bytes] at hlt
    rw [processControlMessage_of_length (by omega), hsize]
    by_cases hlong : 2 ^ 32 - 7 ≤ f.body.length
    · rw [if_neg (by omega), if_pos hlt, if_pos ⟨by omega, hlong⟩]
    · rw [if_pos (by omega), if_neg fun h => hlong h.2]

end Frame

/-! ### The messages of the relays -/

namespace Message

/-- The bytes on the control stream. -/
def bytes (m : Message) : List UInt8 := m.serialize.getD []

def dispatched (m : Message) : Dispatched := ⟨m.type.toUInt16, m.body, m.received⟩

/-- A part of a message with a body so long that the size with the header has more than 32 bits. -/
def Overrun (m : Message) (buffer : List UInt8) : Prop :=
  7 ≤ buffer.length ∧ 2 ^ 32 - 7 ≤ m.body.length

def frame (m : Message) (h : m.Fits) : Frame :=
  ⟨protocolVersion, m.type.toUInt16, m.body, h.body⟩

variable {m : Message}

theorem bytes_frame (h : m.Fits) : (m.frame h).bytes = m.bytes := by
  obtain ⟨size, hsize, hlength⟩ := sizeBytes_eq h
  rw [bytes, serialize_eq h hsize, Frame.bytes, Option.getD_some, commonHeader, hlength]
  rfl

theorem received_ne_invalid (m : Message) (type : UInt16) : m.received ≠ .invalid type := by
  cases m <;> simp [received]

theorem not_raises_frame (h : m.Fits) : ¬(m.frame h).Raises := by
  intro hraises
  cases (decode_body h).symm.trans hraises

theorem dispatched_frame (h : m.Fits) : (m.frame h).dispatched = [m.dispatched] := by
  have hdecode : decode (m.frame h).type (m.frame h).body = some m.received := decode_body h
  rw [Frame.dispatched, hdecode]
  split
  · rename_i hnone
    cases hnone
  · rename_i type hinvalid
    exact absurd (Option.some.inj hinvalid) (m.received_ne_invalid type)
  · rename_i msg _ hmsg
    cases hmsg
    rfl

end Message

theorem pulls_messages {msgs : List Message} (h : ∀ m ∈ msgs, m.Fits) :
    Framing.Pulls processControlMessage Message.bytes Message.dispatched Message.Overrun msgs where
  nil := rfl
  nonempty := by
    intro m hm hnil
    have hlength := congrArg List.length (Message.bytes_frame (h m hm))
    rw [hnil, Frame.length_bytes, List.length_nil] at hlength
    omega
  whole := by
    intro m hm rest
    rw [← Message.bytes_frame (h m hm), Frame.processControlMessage_bytes,
      if_neg (Message.not_raises_frame (h m hm)), Message.dispatched_frame]
  part := by
    intro m hm buffer hpart hlt hnot
    rw [← Message.bytes_frame (h m hm)] at hpart hlt
    rw [Frame.processControlMessage_part _ hpart hlt]
    exact if_neg hnot
  fault := by
    intro m hm buffer hpart hlt hbad
    rw [← Message.bytes_frame (h m hm)] at hpart hlt
    rw [Frame.processControlMessage_part _ hpart hlt]
    exact if_pos hbad

/-- All messages are dispatched when no chunks at the end of the stream end more messages than they
are, and no long message is cut where it is the next one. -/
theorem recvControl_eq_iff (msgs : List Message) (hfits : ∀ m ∈ msgs, m.Fits)
    (chunks : List (List UInt8)) (hsplit : chunks.flatten = msgs.flatMap Message.bytes) :
    recvControl chunks = some ([], msgs.map Message.dispatched) ↔
      Framing.NoFault Message.bytes Message.Overrun msgs chunks ∧
        Framing.Paced (Framing.lengths Message.bytes msgs) chunks :=
  (pulls_messages hfits).feeds_eq_iff hsplit

def twoWithdraws : List Message :=
  [.subscribeNodeSet { id := 5 } true, .subscribeNodeSet { id := 6 } true]

theorem fits_twoWithdraws : ∀ m ∈ twoWithdraws, m.Fits := by
  intro m hm
  have hid : ∃ id, m = .subscribeNodeSet { id } true := by
    simp only [twoWithdraws, List.mem_cons, List.not_mem_nil, or_false] at hm
    obtain rfl | rfl := hm
    · exact ⟨5, rfl⟩
    · exact ⟨6, rfl⟩
  obtain ⟨id, rfl⟩ := hid
  refine ⟨by simp [Message.body], nofun, nofun, ?_⟩
  rintro sns withdraw ⟨⟩
  simp

/-- The second chunk has the end of the second message. -/
theorem recvControl_twoChunks : ∃ chunks : List (List UInt8),
    chunks.flatten = twoWithdraws.flatMap Message.bytes ∧ chunks.length = 2 ∧
      recvControl chunks = some ([], twoWithdraws.map Message.dispatched) := by
  refine ⟨[(twoWithdraws.flatMap Message.bytes).take 14,
    (twoWithdraws.flatMap Message.bytes).drop 14], by simp, rfl, ?_⟩
  refine (recvControl_eq_iff twoWithdraws fits_twoWithdraws _ (by simp)).mpr ⟨?_, ?_⟩
  · rintro front c back - ⟨m, hm, -, -, hlong⟩
    have hbody : ∀ m ∈ twoWithdraws, m.body.length < 2 ^ 32 - 7 := by decide
    have hshort := hbody m (List.mem_of_getElem? hm)
    omega
  · exact (Framing.pulled_eq_length_iff (by decide) _).mp (by decide)

/-- Both messages in one chunk: the second one stays in the buffer. -/
theorem recvControl_oneChunk : (∀ m ∈ twoWithdraws, m.Fits) ∧
    recvControl [twoWithdraws.flatMap Message.bytes] =
      some ((twoWithdraws.map Message.bytes).getLast!, (twoWithdraws.map Message.dispatched).take 1) ∧
    recvControl [twoWithdraws.flatMap Message.bytes] ≠
      some ([], twoWithdraws.map Message.dispatched) := by
  have hrun : recvControl [twoWithdraws.flatMap Message.bytes] =
      some ((twoWithdraws.map Message.bytes).getLast!,
        (twoWithdraws.map Message.dispatched).take 1) := by
    decide +kernel
  refine ⟨fits_twoWithdraws, hrun, ?_⟩
  rw [hrun]
  decide +kernel

/-! ### Safe framing -/

/-- What the control stream rests on: nothing past the end is read, a message that is dispatched is
all there and its body is what its length says, as much is removed as the message takes, and a part
of a message stays where it is. -/
structure SafelyFramed (buffer : List UInt8) : Prop where
  inside : processControlMessage buffer ≠ none
  dispatches : ∀ buffer' out, processControlMessage buffer = some (buffer', out) → out ≠ [] →
    Complete buffer ∧ ∃ msg, out = [⟨typeOf buffer, (buffer.drop 7).take (dataLengthOf buffer), msg⟩]
      ∧ ((buffer.drop 7).take (dataLengthOf buffer)).length = dataLengthOf buffer
      ∧ decode (typeOf buffer) ((buffer.drop 7).take (dataLengthOf buffer)) = some msg
  removes : Complete buffer →
    decode (typeOf buffer) ((buffer.drop 7).take (dataLengthOf buffer)) ≠ none →
    (processControlMessage buffer).map Prod.fst = some (buffer.drop (7 + dataLengthOf buffer))
  incomplete : ¬Complete buffer → processControlMessage buffer = some (buffer, [])

/-- A whole message in the buffer, or a part of one whose size with the header has 32 bits. -/
theorem safelyFramed_iff (buffer : List UInt8) :
    SafelyFramed buffer ↔
      ¬(7 ≤ buffer.length ∧ buffer.length < 7 + dataLengthOf buffer ∧
        2 ^ 32 ≤ 7 + dataLengthOf buffer) := by
  constructor
  · rintro ⟨hinside, -, -, -⟩ ⟨hheader, hpart, hlong⟩
    have hlt := dataLengthOf_lt buffer
    rw [processControlMessage_of_length hheader, if_neg (by omega), if_pos hpart] at hinside
    exact hinside rfl
  · intro hfit
    by_cases hheader : 7 ≤ buffer.length
    · by_cases hpart : buffer.length < 7 + dataLengthOf buffer
      · have hrun : processControlMessage buffer = some (buffer, []) := by
          rw [processControlMessage_of_length hheader, Nat.mod_eq_of_lt (by omega), if_pos hpart]
        have hnot : ¬Complete buffer := fun h => by
          have := h.2
          omega
        refine ⟨by simp [hrun], ?_, fun h => absurd h hnot, fun _ => hrun⟩
        intro buffer' out hout hne
        rw [hrun] at hout
        cases hout
        exact absurd rfl hne
      · have hmod : (7 + dataLengthOf buffer) % 2 ^ 32 ≤ 7 + dataLengthOf buffer := Nat.mod_le _ _
        have hcomplete : Complete buffer := ⟨hheader, by omega⟩
        have hrun := processControlMessage_of_length hheader
        rw [if_neg (by omega), if_neg hpart] at hrun
        have hbody : ((buffer.drop 7).take (dataLengthOf buffer)).length = dataLengthOf buffer := by
          rw [List.length_take, List.length_drop]
          omega
        cases hdecode : decode (typeOf buffer) ((buffer.drop 7).take (dataLengthOf buffer)) with
        | none =>
          rw [hdecode] at hrun
          refine ⟨by simp [hrun], ?_, fun _ h => absurd hdecode h, fun h => absurd hcomplete h⟩
          intro buffer' out hout hne
          rw [hrun] at hout
          cases hout
          exact absurd rfl hne
        | some msg =>
          rw [hdecode] at hrun
          refine ⟨?_, ?_, ?_, fun h => absurd hcomplete h⟩
          · cases msg <;> simp [hrun]
          · intro buffer' out hout hne
            refine ⟨hcomplete, msg, ?_, hbody, hdecode⟩
            cases msg <;> simp_all
          · intro _ _
            cases msg <;> simp [hrun]
    · have hrun : processControlMessage buffer = some (buffer, []) := by
        rw [processControlMessage, if_pos (by omega)]
      refine ⟨by simp [hrun], ?_, fun h => absurd h.1 hheader, fun _ => hrun⟩
      intro buffer' out hout hne
      rw [hrun] at hout
      cases hout
      exact absurd rfl hne

/-- A header whose length has all bits set: the sum with the size of the header is small. -/
theorem not_safelyFramed : ¬SafelyFramed [1, 0, 4, 255, 255, 255, 255] := by
  intro h
  exact h.inside (by decide +kernel)

end Laps.Messages
