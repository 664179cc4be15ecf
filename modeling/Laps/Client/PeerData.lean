import Laps.Client.Streams

/-! The data of the other relays at the handler of a track: what a stream is taken apart into
depends on the calls for this stream alone. -/

namespace Laps.Client

open Std

/-- A call of the peer manager that reaches the handler of the track. -/
inductive HandlerCall where
  /-- `PeerDataReceived`. -/
  | data (isNewStream : Bool) (streamId : UInt64) (data : List UInt8)
  /-- `PeerStreamClosed`. -/
  | closed (streamId : UInt64) (reset : Bool)
  deriving DecidableEq

def HandlerCall.streamId : HandlerCall → UInt64
  | data _ streamId _ => streamId
  | closed streamId _ => streamId

namespace StreamHandler

def call (m : Moqt) (h : StreamHandler) : HandlerCall → Option StreamHandler × List HandlerOut
  | .data isNewStream streamId data => h.streamDataRecv m isNewStream streamId data
  | .closed streamId reset =>
    let (h, out) := h.streamClosed streamId reset
    (some h, out)

/-- A throw ends the calls. -/
def calls (m : Moqt) : StreamHandler → List HandlerCall → Option StreamHandler × List HandlerOut
  | h, [] => (some h, [])
  | h, c :: cs =>
    match h.call m c with
    | (none, out) => (none, out)
    | (some h, out) =>
      let (h, rest) := calls m h cs
      (h, out ++ rest)

end StreamHandler

/-- Two handlers of the track, with the same subscribers. -/
structure SameTrack (h h₁ : StreamHandler) : Prop where
  trackAlias : h₁.trackAlias = h.trackAlias
  received : h₁.receivedTrackAlias = h.receivedTrackAlias
  subscribers : h₁.subscribers = h.subscribers
  subNamespaces : h₁.subNamespaces = h.subNamespaces

theorem SameTrack.refl (h : StreamHandler) : SameTrack h h := ⟨rfl, rfl, rfl, rfl⟩

theorem SameTrack.symm {h h₁ : StreamHandler} (hsame : SameTrack h h₁) : SameTrack h₁ h :=
  ⟨hsame.trackAlias.symm, hsame.received.symm, hsame.subscribers.symm, hsame.subNamespaces.symm⟩

theorem SameTrack.trans {h h₁ h₂ : StreamHandler} (hab : SameTrack h h₁) (hbc : SameTrack h₁ h₂) :
    SameTrack h h₂ :=
  ⟨hbc.trackAlias.trans hab.trackAlias, hbc.received.trans hab.received,
    hbc.subscribers.trans hab.subscribers, hbc.subNamespaces.trans hab.subNamespaces⟩

/-- The two handlers have the same of a stream. -/
structure Agrees (streamId : UInt64) (h h₁ : StreamHandler) : Prop extends SameTrack h h₁ where
  stream : h₁.streams[streamId]? = h.streams[streamId]?

variable {m : Moqt} {streamId : UInt64} {h h₁ : StreamHandler}

theorem Agrees.refl (streamId : UInt64) (h : StreamHandler) : Agrees streamId h h :=
  ⟨.refl h, rfl⟩

theorem Agrees.trans {h₂ : StreamHandler} (hab : Agrees streamId h h₁)
    (hbc : Agrees streamId h₁ h₂) : Agrees streamId h h₂ :=
  ⟨hab.toSameTrack.trans hbc.toSameTrack, hbc.stream.trans hab.stream⟩

theorem Agrees.symm (hagree : Agrees streamId h h₁) : Agrees streamId h₁ h :=
  ⟨hagree.toSameTrack.symm, hagree.stream.symm⟩

/-! ### Calls for the stream -/

theorem Agrees.forwardReceivedData (hagree : Agrees streamId h h₁) (isNewStream : Bool)
    (groupId subgroupId : UInt64) (data : List UInt8) :
    h₁.forwardReceivedData isNewStream groupId subgroupId data =
      h.forwardReceivedData isNewStream groupId subgroupId data := by
  rw [StreamHandler.forwardReceivedData, StreamHandler.forwardReceivedData, hagree.trackAlias,
    hagree.subscribers]

theorem Agrees.startStream (hagree : Agrees streamId h h₁) (stream : StreamContext)
    (data : List UInt8) : h₁.startStream m stream data = h.startStream m stream data := by
  simp only [StreamHandler.startStream, hagree.trackAlias, hagree.received,
    hagree.forwardReceivedData]

theorem Agrees.takeObject (hagree : Agrees streamId h h₁) (isStart : Bool)
    (stream : StreamContext) :
    (h.takeObject m isStart stream = none ∧ h₁.takeObject m isStart stream = none) ∨
      ∃ stream' pending pending₁ out,
        h.takeObject m isStart stream = some (stream', pending, out) ∧
        h₁.takeObject m isStart stream = some (stream', pending₁, out) := by
  simp only [StreamHandler.takeObject, hagree.forwardReceivedData]
  cases stream.header with
  | none => exact .inl ⟨rfl, rfl⟩
  | some header =>
    simp only [Option.bind_eq_bind, Option.bind_some]
    cases header.properties with
    | none => exact .inl ⟨rfl, rfl⟩
    | some properties =>
      simp only [Option.bind_some]
      cases m.readObject properties stream.buffer with
      | none => exact .inr ⟨_, _, _, _, rfl, rfl⟩
      | some read =>
        cases header.subgroupId with
        | none => exact .inl ⟨rfl, rfl⟩
        | some subgroupId => exact .inr ⟨_, _, _, _, rfl, rfl⟩

/-- The two handlers throw together, or go on together. -/
def Together (streamId : UInt64) (a a₁ : Option StreamHandler × List HandlerOut) : Prop :=
  a₁.2 = a.2 ∧ ((a.1 = none ∧ a₁.1 = none) ∨
    ∃ h h₁, a.1 = some h ∧ a₁.1 = some h₁ ∧ Agrees streamId h h₁)

theorem Agrees.parseStream (hagree : Agrees streamId h h₁) (isStart : Bool)
    (stream : StreamContext) (forwarded : List HandlerOut) :
    Together streamId (h.parseStream m isStart streamId stream forwarded)
      (h₁.parseStream m isStart streamId stream forwarded) := by
  unfold StreamHandler.parseStream
  obtain ⟨hnone, hnone₁⟩ | ⟨stream', pending, pending₁, out, hsome, hsome₁⟩ :=
    hagree.takeObject (m := m) isStart stream
  · rw [hnone, hnone₁]
    exact ⟨rfl, .inl ⟨rfl, rfl⟩⟩
  · rw [hsome, hsome₁]
    refine ⟨rfl, .inr ⟨_, _, rfl, rfl, ⟨hagree.trackAlias, hagree.received, hagree.subscribers,
      hagree.subNamespaces⟩, ?_⟩⟩
    simp

theorem Agrees.streamDataRecv (hagree : Agrees streamId h h₁) (isStart : Bool)
    (data : List UInt8) :
    Together streamId (h.streamDataRecv m isStart streamId data)
      (h₁.streamDataRecv m isStart streamId data) := by
  have hget : h₁.streams.getD streamId {} = h.streams.getD streamId {} := by
    rw [ExtTreeMap.getD_eq_getD_getElem?, ExtTreeMap.getD_eq_getD_getElem?, hagree.stream]
  unfold StreamHandler.streamDataRecv
  simp only [hget, hagree.startStream, StreamHandler.continueStream, hagree.forwardReceivedData]
  cases isStart with
  | false => exact hagree.parseStream ..
  | true =>
    simp only [if_true]
    cases h.startStream m (h.streams.getD streamId {}) data with
    | none => exact ⟨rfl, .inl ⟨rfl, rfl⟩⟩
    | some started =>
      obtain ⟨stream, forwarded, hasHeader⟩ := started
      cases hasHeader with
      | true => exact hagree.parseStream ..
      | false =>
        refine ⟨rfl, .inr ⟨_, _, rfl, rfl, ⟨hagree.trackAlias, hagree.received,
          hagree.subscribers, hagree.subNamespaces⟩, ?_⟩⟩
        simp

theorem Agrees.streamClosed (hagree : Agrees streamId h h₁) (reset : Bool) :
    (h₁.streamClosed streamId reset).2 = (h.streamClosed streamId reset).2 ∧
      Agrees streamId (h.streamClosed streamId reset).1 (h₁.streamClosed streamId reset).1 := by
  unfold StreamHandler.streamClosed
  rw [hagree.stream]
  cases h.streams[streamId]? with
  | none => exact ⟨rfl, hagree⟩
  | some stream =>
    refine ⟨?_, ⟨hagree.trackAlias, hagree.received, hagree.subscribers, hagree.subNamespaces⟩, ?_⟩
    · simp only [hagree.subscribers, hagree.trackAlias, hagree.subNamespaces]
    · simp

/-- A call for the stream does the same to both. -/
theorem Agrees.call (hagree : Agrees streamId h h₁) {c : HandlerCall} (hc : c.streamId = streamId) :
    Together streamId (h.call m c) (h₁.call m c) := by
  cases c with
  | data isNewStream streamId' data =>
    obtain rfl : streamId' = streamId := hc
    exact hagree.streamDataRecv isNewStream data
  | closed streamId' reset =>
    obtain rfl : streamId' = streamId := hc
    obtain ⟨hout, hagree'⟩ := hagree.streamClosed reset
    exact ⟨hout, .inr ⟨_, _, rfl, rfl, hagree'⟩⟩

/-! ### Calls for other streams -/

/-- The context of one stream, and the request that is pending, are all that changes. -/
def SetsStream (streamId : UInt64) (h h' : StreamHandler) : Prop :=
  ∃ stream pendingNewGroupRequestId,
    h' = { h with streams := h.streams.insert streamId stream, pendingNewGroupRequestId }

theorem SetsStream.agrees {streamId' : UInt64} {h' : StreamHandler}
    (hsets : SetsStream streamId' h h') (hne : streamId' ≠ streamId) : Agrees streamId h h' := by
  obtain ⟨stream, pending, rfl⟩ := hsets
  refine ⟨⟨rfl, rfl, rfl, rfl⟩, ?_⟩
  exact (ExtTreeMap.getElem?_insert_ite _ _ _ _).trans (if_neg hne.symm)

theorem parseStream_setsStream {isStart : Bool} {stream : StreamContext}
    {forwarded : List HandlerOut} {h' : StreamHandler}
    (hparse : (h.parseStream m isStart streamId stream forwarded).1 = some h') :
    SetsStream streamId h h' := by
  unfold StreamHandler.parseStream at hparse
  split at hparse
  · cases hparse
  · cases hparse
    exact ⟨_, _, rfl⟩

theorem streamDataRecv_setsStream {isStart : Bool} {data : List UInt8} {h' : StreamHandler}
    (hrecv : (h.streamDataRecv m isStart streamId data).1 = some h') :
    SetsStream streamId h h' := by
  unfold StreamHandler.streamDataRecv at hrecv
  dsimp only at hrecv
  split at hrecv
  · split at hrecv
    · cases hrecv
    · cases hrecv
      exact ⟨_, _, rfl⟩
    · exact parseStream_setsStream hrecv
  · exact parseStream_setsStream hrecv

theorem streamClosed_agrees {streamId' : UInt64} (hne : streamId' ≠ streamId) (reset : Bool) :
    Agrees streamId h (h.streamClosed streamId' reset).1 := by
  unfold StreamHandler.streamClosed
  split
  · exact .refl streamId h
  · refine ⟨⟨rfl, rfl, rfl, rfl⟩, ?_⟩
    exact (ExtTreeMap.getElem?_erase_ite _ _ _).trans (if_neg hne.symm)

/-- A call for another stream leaves the stream as it is. -/
theorem agrees_call {c : HandlerCall} (hc : c.streamId ≠ streamId) {h' : StreamHandler}
    (hcall : (h.call m c).1 = some h') : Agrees streamId h h' := by
  cases c with
  | data isNewStream streamId' data => exact (streamDataRecv_setsStream hcall).agrees hc
  | closed streamId' reset =>
    cases hcall
    exact streamClosed_agrees hc reset

theorem sameTrack_call {c : HandlerCall} {h' : StreamHandler} (hcall : (h.call m c).1 = some h') :
    SameTrack h h' := by
  cases c with
  | data isNewStream streamId' data =>
    obtain ⟨stream, pending, rfl⟩ := streamDataRecv_setsStream hcall
    exact ⟨rfl, rfl, rfl, rfl⟩
  | closed streamId' reset =>
    cases hcall
    split
    · exact .refl h
    · exact ⟨rfl, rfl, rfl, rfl⟩

/-! ### Calls that do not throw -/

/-- The header of the stream is there, with all that an object needs. -/
def Parsable (header : StreamHeaderSubGroup) : Prop :=
  header.subgroupId.isSome = true ∧ header.properties.isSome = true

/-- The handler has the header of the stream. -/
def Ready (h : StreamHandler) (streamId : UInt64) : Prop :=
  ∃ stream header, h.streams[streamId]? = some stream ∧ stream.header = some header ∧
    Parsable header

theorem takeObject_of_parsable (m : Moqt) (h : StreamHandler) (isStart : Bool)
    {stream : StreamContext}
    {header : StreamHeaderSubGroup} (hheader : stream.header = some header)
    (hparsable : Parsable header) :
    ∃ stream' pending out, h.takeObject m isStart stream = some (stream', pending, out) ∧
      stream'.header = some header := by
  obtain ⟨hid, hprops⟩ := hparsable
  obtain ⟨subgroupId, hid⟩ := Option.isSome_iff_exists.mp hid
  obtain ⟨properties, hprops⟩ := Option.isSome_iff_exists.mp hprops
  simp only [StreamHandler.takeObject, hheader, hprops, hid, Option.bind_eq_bind,
    Option.bind_some]
  cases m.readObject properties stream.buffer with
  | none => exact ⟨_, _, _, rfl, hheader⟩
  | some read => exact ⟨_, _, _, rfl, rfl⟩

theorem parseStream_of_parsable {isStart : Bool} {stream : StreamContext}
    {header : StreamHeaderSubGroup} (hheader : stream.header = some header)
    (hparsable : Parsable header) (forwarded : List HandlerOut) :
    ∃ h' out, h.parseStream m isStart streamId stream forwarded = (some h', out) ∧
      Ready h' streamId := by
  obtain ⟨stream', pending, out, htake, hheader'⟩ :=
    takeObject_of_parsable m h isStart hheader hparsable
  unfold StreamHandler.parseStream
  rw [htake]
  exact ⟨_, _, rfl, stream', header, by simp, hheader', hparsable⟩

theorem Ready.streamDataRecv (hready : Ready h streamId) (data : List UInt8) :
    ∃ h' out, h.streamDataRecv m false streamId data = (some h', out) ∧ Ready h' streamId := by
  obtain ⟨stream, header, hstream, hheader, hparsable⟩ := hready
  have hget : h.streams.getD streamId {} = stream := by
    rw [ExtTreeMap.getD_eq_getD_getElem?, hstream]
    rfl
  unfold StreamHandler.streamDataRecv
  rw [hget, if_neg Bool.false_ne_true]
  have hheader' : (h.continueStream stream data).1.header = some header := hheader
  exact parseStream_of_parsable hheader' hparsable _

theorem streamDataRecv_start (streamId : UInt64) {data rest : List UInt8}
    {header : StreamHeaderSubGroup}
    (htrack : h.trackAlias.isSome = true) (hread : m.readHeader data = some (header, rest))
    (hparsable : Parsable header) :
    ∃ h' out, h.streamDataRecv m true streamId data = (some h', out) ∧ Ready h' streamId := by
  obtain ⟨trackAlias, htrack⟩ := Option.isSome_iff_exists.mp htrack
  have hstart : ∃ stream forwarded header',
      h.startStream m (h.streams.getD streamId {}) data = some (stream, forwarded, true) ∧
        stream.header = some header' ∧ Parsable header' := by
    rw [StreamHandler.startStream, hread, htrack]
    refine ⟨_, _, _, rfl, rfl, ?_⟩
    split
    · exact hparsable
    · exact hparsable
  obtain ⟨stream, forwarded, header', hstart, hheader, hparsable⟩ := hstart
  unfold StreamHandler.streamDataRecv
  rw [if_pos rfl, hstart]
  exact parseStream_of_parsable hheader hparsable forwarded

/-! ### A stream that is closed more than once -/

theorem calls_singleton (c : HandlerCall) : h.calls m [c] = h.call m c := by
  rw [StreamHandler.calls]
  split
  · rename_i hcall
    rw [hcall]
  · rename_i hcall
    rw [hcall]
    simp [StreamHandler.calls]

theorem streams_streamClosed (reset : Bool) :
    (h.streamClosed streamId reset).1.streams[streamId]? = none := by
  unfold StreamHandler.streamClosed
  split
  · assumption
  · simp

theorem calls_closed_of_none (hnone : h.streams[streamId]? = none) (reset : Bool) (n : ℕ) :
    h.calls m (List.replicate n (.closed streamId reset)) = (some h, []) := by
  induction n with
  | zero => rfl
  | succ n ih =>
    have hcall : h.call m (.closed streamId reset) = (some h, []) := by
      rw [StreamHandler.call, StreamHandler.streamClosed, hnone]
    rw [List.replicate_succ, StreamHandler.calls, hcall]
    simp only [ih, List.nil_append]

/-- Only the first close has an effect. -/
theorem calls_closed (reset : Bool) (n : ℕ) :
    h.calls m (.closed streamId reset :: List.replicate n (.closed streamId reset)) =
      (some (h.streamClosed streamId reset).1, (h.streamClosed streamId reset).2) := by
  rw [StreamHandler.calls, StreamHandler.call]
  simp only [calls_closed_of_none (streams_streamClosed reset), List.append_nil]

end Laps.Client
