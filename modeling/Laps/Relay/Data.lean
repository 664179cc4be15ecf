import Laps.Relay.Peers

/-! The peer manager: the data of this relay's publishers, and the data of the other relays, on its
way to the sessions of the forwarding tables. -/

namespace Laps

open Std Client Peering

namespace Peering

inductive DataType where
  | datagram
  | existingStream
  | newStream
  | controlSignaling
  | fetchNewStream
  | fetchExistingStream
  /-- A byte that names no type. -/
  | unknown (value : UInt8)
  deriving DecidableEq, Repr

def DataType.toUInt8 : DataType → UInt8
  | datagram => 0
  | existingStream => 1
  | newStream => 2
  | controlSignaling => 3
  | fetchNewStream => 4
  | fetchExistingStream => 5
  | unknown value => value

def DataType.ofUInt8 (value : UInt8) : DataType :=
  match value.toNat with
  | 0 => datagram
  | 1 => existingStream
  | 2 => newStream
  | 3 => controlSignaling
  | 4 => fetchNewStream
  | 5 => fetchExistingStream
  | _ => unknown value

/-- The bytes of an integer, the most significant first. -/
def bytesOf32 (value : UInt32) : List UInt8 :=
  [(value >>> 24).toUInt8, (value >>> 16).toUInt8, (value >>> 8).toUInt8, value.toUInt8]

def bytesOf64 (value : UInt64) : List UInt8 :=
  bytesOf32 (value >>> 32).toUInt32 ++ bytesOf32 value.toUInt32

structure DataHeader where
  /-- The length that was read, 0 before. -/
  headerLen : UInt8 := 0
  type : DataType := .newStream
  snsId : SubscribeNodeSetId := 0
  trackFullNameHash : UInt64 := 0
  priority : UInt8 := 1
  ttl : UInt32 := 2000
  deriving DecidableEq, Repr

/-- The fields of the header after its length and its type. -/
def DataHeader.fields (header : DataHeader) : List UInt8 :=
  match header.type with
  | .datagram => bytesOf32 header.snsId ++ bytesOf64 header.trackFullNameHash
  | .newStream =>
    bytesOf32 header.snsId ++ bytesOf64 header.trackFullNameHash ++ [header.priority] ++
      bytesOf32 header.ttl
  | _ => []

/-- Data of an existing stream has no header. -/
def DataHeader.serialize (header : DataHeader) : List UInt8 :=
  if header.type = .existingStream then []
  else UInt8.ofNat (2 + header.fields.length) :: header.type.toUInt8 :: header.fields

/-- The id of the node set, written over the one in the header. -/
def writeSnsId (snsId : SubscribeNodeSetId) (data : List UInt8) : List UInt8 :=
  data.take 2 ++ bytesOf32 snsId ++ data.drop 6

/-- What `PeerSession::SendData` puts on the transport of a session. -/
structure DataSent where
  session : PeerSessionId
  priority : UInt8
  ttl : UInt32
  snsId : SubscribeNodeSetId
  streamId : UInt64
  useReliable : Bool
  data : List UInt8
  deriving DecidableEq, Repr

def PeerSession.sendData (session : PeerSession) (sent : DataSent) : List DataSent :=
  if session.status ≠ .connected then [] else [sent]

/-- The id of the stream that a session makes for a node set. -/
abbrev CreateStream := PeerSessionId → SubscribeNodeSetId → UInt64

end Peering

namespace Relay

/-! ### Data of this relay's publishers -/

/-- The arguments of `ClientDataRecv`. -/
structure Chunk where
  trackFullNameHash : UInt64
  priority : UInt8
  ttl : UInt32
  type : DataType
  groupId : UInt64
  subgroupId : UInt64
  data : List UInt8

def inStreamId (groupId subgroupId : UInt64) : UInt64 :=
  groupId <<< 16 ||| subgroupId.toUInt16.toUInt64

def Chunk.inStreamId (chunk : Chunk) : UInt64 :=
  Relay.inStreamId chunk.groupId chunk.subgroupId

def Chunk.useReliable (chunk : Chunk) : Bool :=
  chunk.type = .existingStream || chunk.type = .newStream

/-- The header and the data, with the id of the node set where the header has one. -/
def Chunk.sendData (chunk : Chunk) (snsId : SubscribeNodeSetId) : List UInt8 :=
  let header : DataHeader :=
    { type := chunk.type, trackFullNameHash := chunk.trackFullNameHash
      priority := chunk.priority, ttl := chunk.ttl }
  let netData := header.serialize ++ chunk.data
  if chunk.type = .datagram || chunk.type = .newStream then writeSnsId snsId netData else netData

def Chunk.sent (chunk : Chunk) (session : PeerSessionId) (entry : FibEntry) (streamId : UInt64) :
    DataSent where
  session := session
  priority := chunk.priority
  ttl := chunk.ttl
  snsId := entry.outSnsId
  streamId := streamId
  useReliable := chunk.useReliable
  data := chunk.sendData entry.outSnsId

/-- One entry of the client table: the entry with its streams, and what is sent.  `none` where the
source leaves the loop, at an entry without the stream that the data continues. -/
def clientDataEntry (r : Relay) (createStream : CreateStream) (chunk : Chunk) (entry : FibEntry) :
    Option (FibEntry × List DataSent) :=
  match r.lockSession entry.peerSession with
  | none => some (entry, [])
  | some (id, session) =>
    if !chunk.useReliable then some (entry, session.sendData (chunk.sent id entry 0))
    else
      match entry.streams[chunk.inStreamId]? with
      | some streamId => some (entry, session.sendData (chunk.sent id entry streamId))
      | none =>
        if chunk.type ≠ .newStream then none
        else
          let streamId := createStream id entry.outSnsId
          some ({ entry with streams := entry.streams.insert chunk.inStreamId streamId },
            session.sendData (chunk.sent id entry streamId))

def clientDataLoop (r : Relay) (createStream : CreateStream) (chunk : Chunk) :
    List ((UInt64 × PeerSessionId) × FibEntry) → ExtTreeMap (UInt64 × PeerSessionId) FibEntry →
      ExtTreeMap (UInt64 × PeerSessionId) FibEntry × List DataSent
  | [], fib => (fib, [])
  | (key, entry) :: entries, fib =>
    match r.clientDataEntry createStream chunk entry with
    | none => (fib, [])
    | some (entry, sent) =>
      let (fib, rest) := r.clientDataLoop createStream chunk entries (fib.insert key entry)
      (fib, sent ++ rest)

def clientDataRecv (r : Relay) (createStream : CreateStream) (chunk : Chunk) :
    Relay × List DataSent :=
  let (clientFib, sent) := r.clientDataLoop createStream chunk
    (r.infoBase.clientFib.withFst chunk.trackFullNameHash) r.infoBase.clientFib
  (r.setInfoBase { r.infoBase with clientFib }, sent)

/-- The stream of a subgroup is closed on all sessions that have it. -/
def endSubgroup (r : Relay) (trackFullNameHash groupId subgroupId : UInt64) : Relay :=
  let endStream := fun (key : UInt64 × PeerSessionId) (entry : FibEntry) =>
    if key.1 = trackFullNameHash ∧ (r.lockSession entry.peerSession).isSome then
      { entry with streams := entry.streams.erase (inStreamId groupId subgroupId) }
    else entry
  r.setInfoBase { r.infoBase with clientFib := r.infoBase.clientFib.map endStream }

/-! ### Data of the other relays -/

/-- The arguments of `ForwardPeerData`. -/
structure PeerChunk where
  isNewStream : Bool
  streamId : UInt64
  header : DataHeader
  data : List UInt8
  dataOffset : Nat
  useReliable : Bool

/-- What becomes of data of another relay: it goes to a session, or to the clients of this relay. -/
inductive Forwarded where
  | session (sent : DataSent)
  | clients (trackFullNameHash : UInt64) (isNewStream : Bool) (streamId : Option UInt64)
      (data : List UInt8)
  deriving DecidableEq, Repr

/-- The call for the clients, when this relay has subscribed to the track for them.  What the handler
of the track makes of it on the spot is left to `ClientRelay`. -/
def forwardToClients (r : Relay) (chunk : PeerChunk) : List Forwarded :=
  match r.infoBase.subscribes.get₂? chunk.header.trackFullNameHash r.nodeId with
  | none => []
  | some si =>
    [.clients si.trackHash.trackFullnameHash (chunk.useReliable && chunk.isNewStream)
      (if chunk.useReliable then some chunk.streamId else none)
      (chunk.data.drop chunk.dataOffset)]

/-- The data on its way to the session of an entry.  `none` where the source calls through a null
pointer. -/
def forwardToSession (r : Relay) (chunk : PeerChunk) (entry : FibEntry) (streamId : UInt64)
    (data : List UInt8) : Option (List Forwarded) := do
  let (id, session) ← r.lockSession entry.peerSession
  let sent : DataSent :=
    { session := id, priority := chunk.header.priority, ttl := chunk.header.ttl
      snsId := entry.outSnsId, streamId, useReliable := chunk.useReliable, data }
  pure ((session.sendData sent).map .session)

/-- One entry of the row: the entry with its streams, the bytes for the next one, and what becomes
of the data. -/
def forwardEntry (r : Relay) (createStream : CreateStream) (ingress : PeerSessionId)
    (chunk : PeerChunk) (data : List UInt8) (egress : PeerSessionId) (entry : FibEntry) :
    Option (FibEntry × List UInt8 × List Forwarded) :=
  if egress = ingress then some (entry, data, [])
  else if egress = 0 then some (entry, data, r.forwardToClients chunk)
  else
    let data :=
      if chunk.isNewStream || !chunk.useReliable then writeSnsId entry.outSnsId data else data
    if !chunk.useReliable then do
      pure (entry, data, ← r.forwardToSession chunk entry 0 data)
    else
      match entry.streams[chunk.streamId]? with
      | some streamId => do
        pure (entry, data, ← r.forwardToSession chunk entry streamId data)
      | none =>
        -- Data of a stream whose start was missed waits for the next stream.
        if !chunk.isNewStream then some (entry, data, [])
        else do
          let (id, _) ← r.lockSession entry.peerSession
          let streamId := createStream id entry.outSnsId
          pure ({ entry with streams := entry.streams.insert chunk.streamId streamId }, data,
            ← r.forwardToSession chunk entry streamId data)

def forwardLoop (r : Relay) (createStream : CreateStream) (ingress : PeerSessionId)
    (chunk : PeerChunk) : List (PeerSessionId × FibEntry) → ExtTreeMap PeerSessionId FibEntry →
      List UInt8 → Option (ExtTreeMap PeerSessionId FibEntry × List Forwarded)
  | [], row, _ => some (row, [])
  | (egress, entry) :: entries, row, data => do
    let (entry, data, out) ← r.forwardEntry createStream ingress chunk data egress entry
    let (row, rest) ← r.forwardLoop createStream ingress chunk entries (row.insert egress entry) data
    pure (row, out ++ rest)

def forwardPeerData (r : Relay) (createStream : CreateStream) (ingress : PeerSessionId)
    (chunk : PeerChunk) : Option (Relay × List Forwarded) :=
  match r.infoBase.peerFib[(ingress, chunk.header.snsId)]? with
  | none => some (r, [])
  | some row => do
    let (row, out) ← r.forwardLoop createStream ingress chunk row.toList row chunk.data
    pure (r.setPeerFib fun fib => fib.insert (ingress, chunk.header.snsId) row, out)

/-- What is told of the close of a stream of another relay. -/
inductive StreamClose where
  | session (session : PeerSessionId) (snsId : SubscribeNodeSetId) (streamId : UInt64)
      (reset : Bool)
  | clients (trackFullNameHash : UInt64) (streamId : UInt64) (reset : Bool)
  deriving DecidableEq, Repr

/-- One entry of the row: the entry with its streams, and who is told. -/
def closeEntry (r : Relay) (streamId trackFullNameHash : UInt64) (reset : Bool)
    (egress : PeerSessionId) (entry : FibEntry) : FibEntry × List StreamClose :=
  if egress = 0 then (entry, [.clients trackFullNameHash streamId reset])
  else
    match entry.streams[streamId]?, r.lockSession entry.peerSession with
    | some outStreamId, some (id, _) =>
      ({ entry with streams := entry.streams.erase streamId },
        [.session id entry.outSnsId outStreamId reset])
    | _, _ => (entry, [])

/-- One entry of the client table, of streams that go to the session: the source erases the stream
whose own id is that of the closed one. -/
def closeClientEntry (r : Relay) (ingress : PeerSessionId) (streamId : UInt64) (reset : Bool)
    (key : UInt64 × PeerSessionId) (entry : FibEntry) : FibEntry × List StreamClose :=
  if key.2 = ingress ∧ (r.lockSession entry.peerSession).isSome ∧
      entry.streams.anyEntry (fun _ outStreamId => outStreamId = streamId) then
    ({ entry with streams := entry.streams.erase streamId }, [.clients key.1 streamId reset])
  else (entry, [])

/-- The tables after a close, and who is told.  What the handlers of the clients do on being told is
left to `ClientRelay`. -/
def closeStream (r : Relay) (ingress : PeerSessionId) (snsId : SubscribeNodeSetId)
    (streamId trackFullNameHash : UInt64) (reset : Bool) : Relay × List StreamClose :=
  let closeEntry := r.closeEntry streamId trackFullNameHash reset
  let closeClientEntry := r.closeClientEntry ingress streamId reset
  let row := r.infoBase.peerFib[(ingress, snsId)]?.getD ∅
  (r.setInfoBase
    { r.infoBase with
      peerFib := r.infoBase.peerFib.modify (ingress, snsId) fun row =>
        row.map fun egress entry => (closeEntry egress entry).1
      clientFib := r.infoBase.clientFib.map fun key entry => (closeClientEntry key entry).1 },
    (row.toList.flatMap fun entry => (closeEntry entry.1 entry.2).2) ++
      r.infoBase.clientFib.toList.flatMap fun entry => (closeClientEntry entry.1 entry.2).2)

end Relay

end Laps
