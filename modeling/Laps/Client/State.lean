import Laps.Peering.InfoBase

/-! `State`: what a relay knows of its own clients, and the handlers of the tracks it receives from
publishers. -/

namespace Laps.Client

open Std

structure Location where
  group : UInt64 := 0
  object : UInt64 := 0
  deriving DecidableEq, Repr

structure SubscribeAttributes where
  priority : UInt8 := 0
  groupOrder : Option UInt8 := none
  /-- In milliseconds. -/
  deliveryTimeout : Nat := 0
  startLocation : Location := {}
  newGroupRequestId : Option UInt64 := none
  deriving DecidableEq, Repr

/-- What `AddSubscriber` is given for a subscriber. -/
structure Subscriber where
  requestId : RequestId
  priority : UInt8
  deliveryTimeout : Nat
  startLocation : Location
  deriving DecidableEq, Repr

/-- The handler that a subscribe namespace makes; publishers' tracks are sent through it. -/
structure PublishNamespaceHandler where
  prefixNamespace : TrackNamespace
  connectionId : ConnectionHandle
  deriving DecidableEq, Repr

/-- The handler of a track of one publisher. -/
structure SubscribeTrackHandler where
  /-- Tells the objects apart that the tables share. -/
  id : Nat
  fullTrackName : FullTrackName
  isPublisherInitiated : Bool := false
  isFromPeer : Bool := false
  paused : Bool := false
  /-- The subscriber under handle 0 is the peer manager. -/
  subscribers : ExtTreeMap ConnectionHandle Subscriber := ∅
  subNamespaces : ExtTreeMap UInt64 (ExtTreeMap ConnectionHandle PublishNamespaceHandler) := ∅
  deriving DecidableEq

namespace SubscribeTrackHandler

def pause (h : SubscribeTrackHandler) : SubscribeTrackHandler := { h with paused := true }

def resume (h : SubscribeTrackHandler) : SubscribeTrackHandler := { h with paused := false }

def addSubscriber (h : SubscribeTrackHandler) (conn : ConnectionHandle) (s : Subscriber) :
    SubscribeTrackHandler :=
  if h.subscribers.contains conn then h
  else { h with subscribers := h.subscribers.insert conn s }.resume

def removeSubscriber (h : SubscribeTrackHandler) (conn : ConnectionHandle) :
    SubscribeTrackHandler :=
  let h := { h with subscribers := h.subscribers.erase conn }
  if h.subscribers.isEmpty && h.subNamespaces.isEmpty then h.pause else h

def addSubscribeNamespace (q : Quicr) (h : SubscribeTrackHandler)
    (handler : PublishNamespaceHandler) : SubscribeTrackHandler :=
  let hash := (q.trackHash ⟨handler.prefixNamespace, []⟩).trackFullnameHash
  match h.subNamespaces.get₂? hash handler.connectionId with
  | some _ => h
  | none =>
    { h with
      subNamespaces := h.subNamespaces.insertIfNew₂ hash handler.connectionId handler }.resume

def removeSubscribeNamespace (q : Quicr) (h : SubscribeTrackHandler)
    (handler : PublishNamespaceHandler) : SubscribeTrackHandler :=
  { h with
    subNamespaces := h.subNamespaces.erase₂
      (q.trackHash ⟨handler.prefixNamespace, []⟩).trackFullnameHash handler.connectionId }

def hasSubscribers (h : SubscribeTrackHandler) : Bool :=
  !h.subscribers.isEmpty || !h.subNamespaces.isEmpty

end SubscribeTrackHandler

/-- `SubscribePublishHandlerInfo`: a subscription of a client. -/
structure SubscribePublishHandlerInfo where
  trackFullName : FullTrackName
  trackAlias : UInt64 := 0
  requestId : RequestId := 0
  priority : UInt8 := 0
  objectTtl : UInt32 := 0
  groupOrder : Option UInt8 := none
  startLocation : Location := {}
  deriving DecidableEq, Repr

/-- An element of a set of active subscribes, without the connection and the request that order the
set. -/
structure State.SubscribeInfo where
  trackAlias : UInt64
  priority : UInt8
  deliveryTimeout : Nat
  startLocation : Location
  deriving DecidableEq, Repr

structure State where
  /-- The namespace that a publish namespace request was for. -/
  requests : ExtTreeMap (ConnectionHandle × RequestId) TrackNamespace := ∅
  pubNamespaceActive : ExtTreeMap (TrackNamespace × ConnectionHandle) (ExtTreeSet UInt64) := ∅
  pubSubscribes : ExtTreeMap (UInt64 × ConnectionHandle) SubscribeTrackHandler := ∅
  /-- The handler's id and its track: nothing else is read of a handler found by its request. -/
  pubSubscribesByReqId : ExtTreeMap (RequestId × ConnectionHandle) (Nat × FullTrackName) := ∅
  subscribesNamespaces :
    ExtTreeMap TrackNamespace (ExtTreeMap ConnectionHandle PublishNamespaceHandler) := ∅
  subscribes : ExtTreeMap (UInt64 × ConnectionHandle) SubscribePublishHandlerInfo := ∅
  subscribeAliasReqId : ExtTreeMap (ConnectionHandle × RequestId) UInt64 := ∅
  subscribeActive :
    ExtTreeMap (TrackNamespace × UInt64)
      (ExtTreeMap (ConnectionHandle × RequestId) State.SubscribeInfo)
      := ∅
  /-- The number of handlers made so far. -/
  handlers : Nat := 0
  deriving DecidableEq

end Laps.Client
