import Laps.Peering.InfoBase

/-! `PeerSession`: one session with another relay, the node sets it has for the tracks of this
relay's publishers and for the node sets of other sessions, and the control messages it has put on
the transport. -/

namespace Laps.Peering

open Std

/-- The nodes that data with the id is for. -/
structure SubscribeNodeSet where
  id : SubscribeNodeSetId := 0
  nodes : ExtTreeSet NodeIdValueType := ∅
  deriving DecidableEq

inductive ControlMessage where
  | connect (info : NodeInfo)
  | connectResponse (info : NodeInfo)
  | nodeInfo (info : NodeInfo) (withdraw : Bool)
  | subscribeNodeSet (sns : SubscribeNodeSet) (withdraw : Bool)
  | announceInfo (info : AnnounceInfo) (withdraw : Bool)
  | subscribeInfo (info : SubscribeInfo) (withdraw : Bool)
  deriving DecidableEq

def ControlMessage.announceInfo? : ControlMessage → Option (AnnounceInfo × Bool)
  | announceInfo info withdraw => some (info, withdraw)
  | _ => none

def ControlMessage.subscribeInfo? : ControlMessage → Option (SubscribeInfo × Bool)
  | subscribeInfo info withdraw => some (info, withdraw)
  | _ => none

def ControlMessage.nodeInfo? : ControlMessage → Option (NodeInfo × Bool)
  | nodeInfo info withdraw => some (info, withdraw)
  | _ => none

inductive StatusValue where
  | connecting
  | connected
  | disconnected
  deriving DecidableEq, Repr

/-- `Serialize` numbers the messages of the relay that the subscription is at, in the object that it
serializes. -/
def SubscribeInfo.serialize (s : SubscribeInfo) (isOrigin : Bool) : SubscribeInfo :=
  if isOrigin then { s with seq := if s.seq < 0xFFFF then s.seq + 1 else 0 } else s

structure PeerSession where
  status : StatusValue := .connecting
  /-- The id of this relay, `node_info_.id`. -/
  nodeId : NodeIdValueType
  /-- Whether the other relay has opened the session. -/
  isInbound : Bool := false
  remoteNodeInfo : NodeInfo := {}
  /-- The round trip time last sampled, and before that what was in memory. -/
  srttUs : UInt64 := 0
  subSns : ExtTreeMap UInt64 SubscribeNodeSet := ∅
  /-- By the ingress session and its node set. -/
  peerSns : ExtTreeMap (PeerSessionId × SubscribeNodeSetId) SubscribeNodeSet := ∅
  /-- The data contexts of the connection. -/
  dataContexts : ExtTreeSet SubscribeNodeSetId := ∅
  /-- The control messages handed to the transport, the oldest first. -/
  enqueued : List ControlMessage := []
  deriving DecidableEq

namespace PeerSession

def enqueue (session : PeerSession) (msg : ControlMessage) : PeerSession :=
  { session with enqueued := session.enqueued ++ [msg] }

def sendSns (session : PeerSession) (sns : SubscribeNodeSet) (withdraw : Bool) : PeerSession :=
  if session.status ≠ .connected then session else session.enqueue (.subscribeNodeSet sns withdraw)

def sendAnnounceInfo (session : PeerSession) (info : AnnounceInfo) (withdraw : Bool) :
    PeerSession :=
  if session.status ≠ .connected then session else session.enqueue (.announceInfo info withdraw)

/-- The message is passed by reference: the caller's copy keeps the new number. -/
def sendSubscribeInfo (session : PeerSession) (info : SubscribeInfo) (withdraw : Bool) :
    PeerSession × SubscribeInfo :=
  if session.status ≠ .connected then (session, info)
  else
    let info := info.serialize (session.nodeId = info.sourceNodeId)
    (session.enqueue (.subscribeInfo info withdraw), info)

/-- The id of the node set, and whether the node is new in it. -/
def addSubscribeSourceNode (q : Quicr) (session : PeerSession) (fullNameHash : UInt64)
    (subNodeId : NodeIdValueType) : PeerSession × SubscribeNodeSetId × Bool :=
  let sns := session.subSns.getD fullNameHash {}
  let context := q.createDataContext session.dataContexts
  let id := if sns.id = 0 then context else sns.id
  let dataContexts :=
    if sns.id = 0 then session.dataContexts.insert context else session.dataContexts
  let isNew := !sns.nodes.contains subNodeId
  let sns : SubscribeNodeSet := { id, nodes := sns.nodes.insert subNodeId }
  let session := { session with
    subSns := session.subSns.insert fullNameHash sns
    dataContexts }
  (if isNew then session.sendSns sns false else session, id, isNew)

/-- Whether the node was removed, and whether its node set went with it. -/
def removeSubscribeSourceNode (session : PeerSession) (fullNameHash : UInt64)
    (subNodeId : NodeIdValueType) : PeerSession × Bool × Bool :=
  match session.subSns[fullNameHash]? with
  | none => (session, false, false)
  | some sns =>
    let nodeRemoved := sns.nodes.contains subNodeId
    let sns := { sns with nodes := sns.nodes.erase subNodeId }
    if sns.nodes.isEmpty then
      let session := { session with
        dataContexts := session.dataContexts.erase sns.id }.sendSns sns true
      ({ session with subSns := session.subSns.erase fullNameHash }, nodeRemoved, true)
    else ({ session with subSns := session.subSns.insert fullNameHash sns }, nodeRemoved, false)

/-- As `addSubscribeSourceNode`, for a node set that another session has sent. -/
def addPeerSnsSourceNode (q : Quicr) (session : PeerSession) (inPeerSessionId : PeerSessionId)
    (inSnsId : SubscribeNodeSetId) (subNodeId : NodeIdValueType) :
    PeerSession × SubscribeNodeSetId × Bool :=
  let sns := session.peerSns.getD (inPeerSessionId, inSnsId) {}
  let context := q.createDataContext session.dataContexts
  let id := if sns.id = 0 then context else sns.id
  let dataContexts :=
    if sns.id = 0 then session.dataContexts.insert context else session.dataContexts
  let isNew := !sns.nodes.contains subNodeId
  let sns : SubscribeNodeSet := { id, nodes := sns.nodes.insert subNodeId }
  let session := { session with
    peerSns := session.peerSns.insert (inPeerSessionId, inSnsId) sns
    dataContexts }
  (if isNew then session.sendSns sns false else session, id, isNew)

/-- Node 0 stands for all nodes of the set; its data context is then kept. -/
def removePeerSnsSourceNode (session : PeerSession) (inPeerSessionId : PeerSessionId)
    (inSnsId : SubscribeNodeSetId) (subNodeId : NodeIdValueType) : PeerSession × Bool × Bool :=
  let key := (inPeerSessionId, inSnsId)
  match session.peerSns[key]? with
  | none => (session, false, false)
  | some sns =>
    if subNodeId = 0 then
      let session := session.sendSns sns true
      ({ session with peerSns := session.peerSns.erase key }, false, false)
    else
      let nodeRemoved := sns.nodes.contains subNodeId
      let sns := { sns with nodes := sns.nodes.erase subNodeId }
      if sns.nodes.isEmpty then
        let session := { session with
          dataContexts := session.dataContexts.erase sns.id }.sendSns sns true
        ({ session with peerSns := session.peerSns.erase key }, nodeRemoved, true)
      else ({ session with peerSns := session.peerSns.insert key sns }, nodeRemoved, false)

def sendNodeInfo (session : PeerSession) (info : NodeInfo) (withdraw : Bool) : PeerSession :=
  if session.status ≠ .connected then session else session.enqueue (.nodeInfo info withdraw)

/-- An outbound session gets a new transport, with one data context for the control messages. -/
def connect (q : Quicr) (session : PeerSession) : PeerSession :=
  if session.isInbound then { session with status := .connected, remoteNodeInfo := {} }
  else
    { session with
      status := .connecting
      remoteNodeInfo := {}
      peerSns := ∅
      dataContexts := (∅ : ExtTreeSet SubscribeNodeSetId).insert (q.createDataContext ∅)
      enqueued := [] }

/-- The transport is ready. -/
def sendConnect (session : PeerSession) (info : NodeInfo) : PeerSession :=
  { session with peerSns := ∅ }.enqueue (.connect info)

def sendConnectOk (session : PeerSession) (info : NodeInfo) : PeerSession :=
  session.enqueue (.connectResponse info)

/-! ### What a session has sent -/

/-- The announce messages, with whether they withdraw. -/
def announcesSent (session : PeerSession) : List (AnnounceInfo × Bool) :=
  session.enqueued.filterMap ControlMessage.announceInfo?

/-- The subscribe messages, with whether they withdraw. -/
def subscribesSent (session : PeerSession) : List (SubscribeInfo × Bool) :=
  session.enqueued.filterMap ControlMessage.subscribeInfo?

end PeerSession

end Laps.Peering
