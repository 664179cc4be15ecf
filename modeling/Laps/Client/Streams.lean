import Laps.Client.State
import Laps.Relay.Data

/-! The streams of a track: their data is forwarded as it comes, and taken apart into objects. -/

namespace Laps.Client

open Std Peering

/-! ### What libquicr reads and writes -/

structure StreamHeaderSubGroup where
  trackAlias : UInt64 := 0
  groupId : UInt64 := 0
  /-- `none` when it is the id of the first object. -/
  subgroupId : Option UInt64 := none
  priority : UInt8 := 0
  /-- The type of the stream, once it is read. -/
  properties : Option UInt64 := none
  deriving DecidableEq, Repr

structure StreamSubGroupObject where
  objectDelta : UInt64
  payload : List UInt8
  objectStatus : UInt64 := 0
  extensions : List UInt8 := []
  immutableExtensions : List UInt8 := []
  deriving DecidableEq, Repr

/-- The format of the streams.  A reader gives what is left, or `none` when more bytes are
needed. -/
structure Moqt where
  readHeader : List UInt8 → Option (StreamHeaderSubGroup × List UInt8)
  writeHeader : StreamHeaderSubGroup → List UInt8
  /-- By the type of the stream. -/
  readObject : UInt64 → List UInt8 → Option (StreamSubGroupObject × List UInt8)

/-! ### The handler -/

/-- What is kept of a stream. -/
structure StreamContext where
  /-- The bytes that are not taken apart yet. -/
  buffer : List UInt8 := []
  header : Option StreamHeaderSubGroup := none
  currentGroupId : UInt64 := 0
  currentSubgroupId : UInt64 := 0
  nextObjectId : Option UInt64 := none
  deriving DecidableEq, Repr

/-- The handler of a track, as far as it receives data. -/
structure StreamHandler where
  trackAlias : Option UInt64 := none
  /-- The alias that the publisher uses. -/
  receivedTrackAlias : Option UInt64 := none
  /-- The subscriber under handle 0 is the peer manager. -/
  subscribers : ExtTreeSet ConnectionHandle := ∅
  /-- The connections of the namespace handlers. -/
  subNamespaces : List ConnectionHandle := []
  streams : ExtTreeMap UInt64 StreamContext := ∅
  pendingNewGroupRequestId : Option UInt64 := none
  deriving DecidableEq

structure ObjectHeaders where
  groupId : UInt64
  objectId : UInt64
  subgroupId : UInt64
  payloadLength : ℕ
  status : UInt64
  priority : UInt8
  extensions : List UInt8
  immutableExtensions : List UInt8
  deriving DecidableEq, Repr

inductive HandlerOut where
  /-- `ClientDataRecv` of the peer manager. -/
  | clientData (trackAlias : UInt64) (type : DataType) (groupId subgroupId : UInt64)
      (data : List UInt8)
  /-- `ObjectReceived`. -/
  | object (headers : ObjectHeaders) (payload : List UInt8)
  /-- `EndSubgroup` of the peer manager, or of the handler of a connection. -/
  | endSubgroup (conn : ConnectionHandle) (groupId subgroupId : UInt64) (flag : Bool)
  deriving DecidableEq, Repr

namespace StreamHandler

/-- The part of `ForwardReceivedData` for the other relays. -/
def forwardReceivedData (h : StreamHandler) (isNewStream : Bool) (groupId subgroupId : UInt64)
    (data : List UInt8) : List HandlerOut :=
  match h.trackAlias with
  | none => []
  | some trackAlias =>
    if h.subscribers.contains 0 then
      [.clientData trackAlias (if isNewStream then .newStream else .existingStream) groupId
        subgroupId data]
    else []

/-- The start of a stream: its context, what is forwarded, and whether the header was there.
`none` where the source throws. -/
def startStream (m : Moqt) (h : StreamHandler) (stream : StreamContext) (data : List UInt8) :
    Option (StreamContext × List HandlerOut × Bool) :=
  match m.readHeader data with
  | none => some ({ stream with buffer := data, header := some {} }, [], false)
  | some (header, rest) => do
    let trackAlias ← h.trackAlias
    -- The alias of the publisher becomes the one that subscribers use.
    let normalize := h.receivedTrackAlias.getD 0 ≠ trackAlias
    let header := if normalize then { header with trackAlias } else header
    let forwarded :=
      if normalize then m.writeHeader header ++ data.drop (data.length - rest.length) else data
    let subgroupId := header.subgroupId.getD 0
    pure ({ stream with
        buffer := rest, header := some header, currentGroupId := header.groupId
        currentSubgroupId := subgroupId },
      h.forwardReceivedData true header.groupId subgroupId forwarded, true)

def continueStream (h : StreamHandler) (stream : StreamContext) (data : List UInt8) :
    StreamContext × List HandlerOut :=
  ({ stream with buffer := stream.buffer ++ data },
    h.forwardReceivedData false stream.currentGroupId stream.currentSubgroupId data)

/-- The id of the object before the one after it is counted. -/
def objectId (stream : StreamContext) (header : StreamHeaderSubGroup) (objectDelta : UInt64) :
    UInt64 :=
  match stream.nextObjectId with
  | some next =>
    if stream.currentGroupId ≠ header.groupId ∨ some stream.currentSubgroupId ≠ header.subgroupId
    then objectDelta else next + objectDelta
  | none => objectDelta

def pendingAfter (h : StreamHandler) (groupId : UInt64) : Option UInt64 :=
  h.pendingNewGroupRequestId.filter fun id => !(groupId = 0 || id < groupId)

/-- The object at the front of the buffer, when it is whole: the loop of the source leaves after
one. -/
def takeObject (m : Moqt) (h : StreamHandler) (isStart : Bool) (stream : StreamContext) :
    Option (StreamContext × Option UInt64 × List HandlerOut) := do
  let header ← stream.header
  let properties ← header.properties
  match m.readObject properties stream.buffer with
  | none => pure (stream, h.pendingNewGroupRequestId, [])
  | some (object, rest) =>
    let objectId := objectId stream header object.objectDelta
    -- The source throws here when the header has no subgroup id, before it sets one.
    let subgroupId ← header.subgroupId
    let headers : ObjectHeaders :=
      { groupId := header.groupId, objectId, subgroupId, payloadLength := object.payload.length
        status := object.objectStatus, priority := header.priority
        extensions := object.extensions, immutableExtensions := object.immutableExtensions }
    let remaining :=
      if rest = [] then [] else h.forwardReceivedData isStart header.groupId subgroupId rest
    pure ({ stream with
        buffer := rest, currentGroupId := header.groupId, currentSubgroupId := subgroupId
        nextObjectId := some (objectId + 1) },
      h.pendingAfter header.groupId, .object headers object.payload :: remaining)

/-- What is forwarded comes first, then the object.  No handler where the source throws: what was
forwarded before stays. -/
def parseStream (m : Moqt) (h : StreamHandler) (isStart : Bool) (streamId : UInt64)
    (stream : StreamContext) (forwarded : List HandlerOut) :
    Option StreamHandler × List HandlerOut :=
  match h.takeObject m isStart stream with
  | none => (none, forwarded)
  | some (stream, pendingNewGroupRequestId, out) =>
    (some { h with streams := h.streams.insert streamId stream, pendingNewGroupRequestId },
      forwarded ++ out)

def streamDataRecv (m : Moqt) (h : StreamHandler) (isStart : Bool) (streamId : UInt64)
    (data : List UInt8) : Option StreamHandler × List HandlerOut :=
  let stream := h.streams.getD streamId {}
  if isStart then
    match h.startStream m stream data with
    | none => (none, [])
    | some (stream, forwarded, false) =>
      (some { h with streams := h.streams.insert streamId stream }, forwarded)
    | some (stream, forwarded, true) => h.parseStream m isStart streamId stream forwarded
  else
    let (stream, forwarded) := h.continueStream stream data
    h.parseStream m isStart streamId stream forwarded

def streamClosed (h : StreamHandler) (streamId : UInt64) (useReset : Bool) :
    StreamHandler × List HandlerOut :=
  match h.streams[streamId]? with
  | none => (h, [])
  | some stream =>
    let endSubgroup := fun (conn : ConnectionHandle) (flag : Bool) =>
      HandlerOut.endSubgroup conn stream.currentGroupId stream.currentSubgroupId flag
    let subscribers := h.subscribers.toList.flatMap fun conn =>
      if conn = 0 then if h.trackAlias.isSome then [endSubgroup 0 useReset] else []
      else [endSubgroup conn !useReset]
    ({ h with streams := h.streams.erase streamId },
      subscribers ++ h.subNamespaces.map (endSubgroup · !useReset))

end StreamHandler

/-- Chunks of a stream, the first of them by `isStart`.  A throw ends the run. -/
def recvChunks (m : Moqt) (streamId : UInt64) :
    Bool → StreamHandler → List (List UInt8) → Option StreamHandler × List HandlerOut
  | _, h, [] => (some h, [])
  | isStart, h, data :: chunks =>
    match h.streamDataRecv m isStart streamId data with
    | (none, out) => (none, out)
    | (some h, out) =>
      let (h, rest) := recvChunks m streamId false h chunks
      (h, out ++ rest)

/-- The chunks of a stream from its start. -/
def recvStream (m : Moqt) (streamId : UInt64) (h : StreamHandler) (chunks : List (List UInt8)) :
    Option StreamHandler × List HandlerOut :=
  recvChunks m streamId true h chunks

end Laps.Client
