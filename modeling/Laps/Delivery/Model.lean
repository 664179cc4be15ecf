import Laps.Client.Streams

/-! The data of a publisher on its way to the subscribers of this relay: whole objects, or the bytes
of a stream as they come. -/

namespace Laps.Delivery

open Std Client Peering

/-- `StreamInfo` of libquicr, as far as the relay reads it. -/
structure StreamInfo where
  lastObjectId : Option UInt64 := none
  deriving DecidableEq, Repr

/-- `stream_info_by_group_`: by group and subgroup. -/
abbrev StreamInfoByGroup := ExtTreeMap UInt64 (ExtTreeMap UInt64 StreamInfo)

/-- What the base class in libquicr does to the streams of a publish handler. -/
structure QuicrPublish where
  publishObject : StreamInfoByGroup → ObjectHeaders → List UInt8 → StreamInfoByGroup
  forwardPublishedData :
    StreamInfoByGroup → Bool → UInt64 → UInt64 → List UInt8 → StreamInfoByGroup
  endSubgroup : StreamInfoByGroup → UInt64 → UInt64 → Bool → StreamInfoByGroup

/-- A base class that keeps the id of the last object that it is given. -/
def lastObjects : QuicrPublish where
  publishObject streams headers _ :=
    streams.insert₂ headers.groupId headers.subgroupId { lastObjectId := some headers.objectId }
  forwardPublishedData streams _ _ _ _ := streams
  endSubgroup streams groupId subgroupId _ := streams.erase₂ groupId subgroupId

/-- A call of `EndSubgroup` of the peer manager. -/
structure PeerEnd where
  trackFullNameHash : UInt64
  groupId : UInt64
  subgroupId : UInt64
  reset : Bool
  deriving DecidableEq, Repr

/-- The handler that sends a track to one subscriber. -/
structure PublishTrackHandler where
  trackAlias : Option UInt64 := none
  startLocation : Location := {}
  streamInfoByGroup : StreamInfoByGroup := ∅
  deriving DecidableEq

/-- The handler of one subscriber of a namespace, with the tracks that are published to it. -/
structure PublishNamespaceHandler where
  /-- `handlers_` of the base class, by the full name hash. -/
  handlers : ExtTreeMap UInt64 PublishTrackHandler := ∅
  /-- `published_tracks_`: weak pointers to the handlers, which are alive while `handlers_` has
  them. -/
  publishedTracks : ExtTreeSet UInt64 := ∅
  deriving DecidableEq

/-- The handler of a track of a publisher, as far as it hands data on. -/
structure SubscribeTrackHandler where
  trackAlias : Option UInt64 := none
  isDatagram : Bool := false
  /-- The subscriber under handle 0 is the peer manager, where the source has a null pointer. -/
  subscribers : ExtTreeMap ConnectionHandle PublishTrackHandler := ∅
  subNamespaces : ExtTreeMap UInt64 (ExtTreeMap ConnectionHandle PublishNamespaceHandler) := ∅
  streams : ExtTreeMap UInt64 StreamContext := ∅
  deriving DecidableEq

/-- Who is handed data. -/
inductive Recipient where
  | connection (conn : ConnectionHandle)
  | subNamespace (nsHash : UInt64) (conn : ConnectionHandle)
  deriving DecidableEq, Repr

inductive Handed where
  /-- `PublishObject` of the base class. -/
  | object (recipient : Recipient) (headers : ObjectHeaders) (payload : List UInt8)
  /-- `ForwardPublishedData` of the base class. -/
  | data (recipient : Recipient) (isNewStream : Bool) (groupId subgroupId : UInt64)
      (data : List UInt8)
  /-- `ClientDataRecv` of the peer manager. -/
  | peers (type : DataType) (groupId subgroupId : UInt64) (data : List UInt8)
  deriving DecidableEq

namespace PublishTrackHandler

/-- The ids are of 32 bits. -/
def sentFirstObject (h : PublishTrackHandler) (groupId subgroupId : UInt32) : Bool :=
  match h.streamInfoByGroup[groupId.toUInt64]? with
  | none => false
  | some group =>
    match group[subgroupId.toUInt64]? with
    | none => false
    | some info => info.lastObjectId.isSome

/-- The call with ids of 64 bits, which are cut. -/
def sentFirst (h : PublishTrackHandler) (groupId subgroupId : UInt64) : Bool :=
  h.sentFirstObject groupId.toUInt32 subgroupId.toUInt32

def publishObject (q : QuicrPublish) (h : PublishTrackHandler) (headers : ObjectHeaders)
    (payload : List UInt8) : PublishTrackHandler :=
  { h with streamInfoByGroup := q.publishObject h.streamInfoByGroup headers payload }

def forwardPublishedData (q : QuicrPublish) (h : PublishTrackHandler) (isNewStream : Bool)
    (groupId subgroupId : UInt64) (data : List UInt8) : PublishTrackHandler :=
  { h with
    streamInfoByGroup :=
      q.forwardPublishedData h.streamInfoByGroup isNewStream groupId subgroupId data }

/-- The object is not before the start location, by group and by object. -/
def starts (h : PublishTrackHandler) (headers : ObjectHeaders) : Bool :=
  headers.groupId ≥ h.startLocation.group && headers.objectId ≥ h.startLocation.object

/-- The override of the base class, which tells the peer manager. -/
def endSubgroup (q : QuicrPublish) (h : PublishTrackHandler) (groupId subgroupId : UInt64)
    (completed : Bool) : PublishTrackHandler × List PeerEnd :=
  ({ h with
      streamInfoByGroup := q.endSubgroup h.streamInfoByGroup groupId subgroupId completed },
    match h.trackAlias with
    | none => []
    | some trackAlias => [⟨trackAlias, groupId, subgroupId, !completed⟩])

/-- The subgroups are collected first. -/
def abruptCloseAllSubgroups (q : QuicrPublish) (h : PublishTrackHandler) :
    PublishTrackHandler × List PeerEnd :=
  h.streamInfoByGroup.entries₂.foldl
    (fun closed e =>
      let (h, ends) := closed.1.endSubgroup q e.1.1 e.1.2 false
      (h, closed.2 ++ ends)) (h, [])

end PublishTrackHandler

namespace PublishNamespaceHandler

/-- Whether the object is handed on, and the handler afterwards. -/
def publishObject (q : QuicrPublish) (ns : PublishNamespaceHandler) (trackFullNameHash : UInt64)
    (headers : ObjectHeaders) (payload : List UInt8) : PublishNamespaceHandler × Bool :=
  match ns.handlers[trackFullNameHash]? with
  | none => (ns, false)
  | some h =>
    if h.sentFirst headers.groupId headers.subgroupId then (ns, false)
    else
      ({ ns with
          handlers := ns.handlers.insert trackFullNameHash (h.publishObject q headers payload) },
        true)

def forwardPublishedData (q : QuicrPublish) (ns : PublishNamespaceHandler)
    (trackFullNameHash : UInt64) (isNewStream : Bool) (groupId subgroupId : UInt64)
    (data : List UInt8) : PublishNamespaceHandler × Bool :=
  match ns.handlers[trackFullNameHash]? with
  | none => (ns, false)
  | some h =>
    if h.sentFirst groupId subgroupId then
      ({ ns with
        handlers := ns.handlers.insert trackFullNameHash
          (h.forwardPublishedData q isNewStream groupId subgroupId data) }, true)
    else (ns, false)

/-- Every published track whose handler is alive is told. -/
def endSubgroup (q : QuicrPublish) (ns : PublishNamespaceHandler) (groupId subgroupId : UInt64)
    (completed : Bool) : PublishNamespaceHandler × List PeerEnd :=
  ({ ns with
      handlers := ns.handlers.map fun track h =>
        if ns.publishedTracks.contains track then
          (h.endSubgroup q groupId subgroupId completed).1
        else h },
    ns.publishedTracks.toList.flatMap fun track =>
      match ns.handlers[track]? with
      | none => []
      | some h => (h.endSubgroup q groupId subgroupId completed).2)

end PublishNamespaceHandler

namespace SubscribeTrackHandler

/-- An object and one subscriber. -/
def objectTo (q : QuicrPublish) (s : SubscribeTrackHandler) (headers : ObjectHeaders)
    (payload : List UInt8) (conn : ConnectionHandle) (h : PublishTrackHandler) :
    PublishTrackHandler × Bool :=
  if conn = 0 ∨ (!s.isDatagram && h.sentFirst headers.groupId headers.subgroupId) = true then
    (h, false)
  else if h.starts headers then (h.publishObject q headers payload, true)
  else (h, false)

/-- `none` where the source throws, without a track alias. -/
def objectReceived (q : QuicrPublish) (s : SubscribeTrackHandler) (headers : ObjectHeaders)
    (payload : List UInt8) : Option (SubscribeTrackHandler × List Handed) := do
  let trackAlias ← s.trackAlias
  let toNamespace := fun (ns : PublishNamespaceHandler) =>
    ns.publishObject q trackAlias headers payload
  let toSubscriber := s.objectTo q headers payload
  pure ({ s with
      subNamespaces := s.subNamespaces.map fun _ conns => conns.map fun _ ns => (toNamespace ns).1
      subscribers := s.subscribers.map fun conn h => (toSubscriber conn h).1 },
    (s.subNamespaces.entries₂.flatMap fun e =>
      if (toNamespace e.2).2 then [.object (.subNamespace e.1.1 e.1.2) headers payload] else []) ++
    s.subscribers.toList.flatMap fun e =>
      if (toSubscriber e.1 e.2).2 then [.object (.connection e.1) headers payload] else [])

/-- The bytes of a stream and one subscriber. -/
def dataTo (q : QuicrPublish) (s : SubscribeTrackHandler) (isNewStream : Bool)
    (groupId subgroupId : UInt64) (data : List UInt8) (conn : ConnectionHandle)
    (h : PublishTrackHandler) : PublishTrackHandler × List Handed :=
  if conn = 0 then
    (h, [.peers
      (if s.isDatagram then .datagram else if isNewStream then .newStream else .existingStream)
      groupId subgroupId data])
  else if h.sentFirst groupId subgroupId then
    (h.forwardPublishedData q isNewStream groupId subgroupId data,
      [.data (.connection conn) isNewStream groupId subgroupId data])
  else (h, [])

def forwardReceivedData (q : QuicrPublish) (s : SubscribeTrackHandler) (isNewStream : Bool)
    (groupId subgroupId : UInt64) (data : List UInt8) : SubscribeTrackHandler × List Handed :=
  match s.trackAlias with
  | none => (s, [])
  | some trackAlias =>
    let toNamespace := fun (ns : PublishNamespaceHandler) =>
      ns.forwardPublishedData q trackAlias isNewStream groupId subgroupId data
    let toSubscriber := s.dataTo q isNewStream groupId subgroupId data
    ({ s with
        subNamespaces := s.subNamespaces.map fun _ conns => conns.map fun _ ns =>
          (toNamespace ns).1
        subscribers := s.subscribers.map fun conn h => (toSubscriber conn h).1 },
      (s.subNamespaces.entries₂.flatMap fun e =>
        if (toNamespace e.2).2 then
          [.data (.subNamespace e.1.1 e.1.2) isNewStream groupId subgroupId data]
        else []) ++
      s.subscribers.toList.flatMap fun e => (toSubscriber e.1 e.2).2)

/-- The end of a subgroup and one subscriber. -/
def endTo (q : QuicrPublish) (s : SubscribeTrackHandler) (groupId subgroupId : UInt64)
    (useReset : Bool) (conn : ConnectionHandle) (h : PublishTrackHandler) :
    PublishTrackHandler × List PeerEnd :=
  if conn = 0 then
    (h, match s.trackAlias with
      | none => []
      | some trackAlias => [⟨trackAlias, groupId, subgroupId, useReset⟩])
  else h.endSubgroup q groupId subgroupId !useReset

def streamClosed (q : QuicrPublish) (s : SubscribeTrackHandler) (streamId : UInt64)
    (useReset : Bool) : SubscribeTrackHandler × List PeerEnd :=
  match s.streams[streamId]? with
  | none => (s, [])
  | some stream =>
    let toSubscriber := s.endTo q stream.currentGroupId stream.currentSubgroupId useReset
    let toNamespace := fun (ns : PublishNamespaceHandler) =>
      ns.endSubgroup q stream.currentGroupId stream.currentSubgroupId !useReset
    ({ s with
        subscribers := s.subscribers.map fun conn h => (toSubscriber conn h).1
        subNamespaces := s.subNamespaces.map fun _ conns => conns.map fun _ ns =>
          (toNamespace ns).1
        streams := s.streams.erase streamId },
      (s.subscribers.toList.flatMap fun e => (toSubscriber e.1 e.2).2) ++
      s.subNamespaces.entries₂.flatMap fun e => (toNamespace e.2).2)

end SubscribeTrackHandler

end Laps.Delivery
