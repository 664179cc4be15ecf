import Laps.Peering.Nodes
import Laps.Relay.Model

/-! The peer manager: what it does with the other relays' node information and node sets, when a
session comes up and when it is lost. -/

namespace Laps

open Std Client Peering

namespace Peering

def NodeInfo.pushBack (info : NodeInfo) (id : NodeIdValueType) (srttUs : UInt64) : NodeInfo :=
  { info with path := info.path ++ [⟨id, srttUs⟩] }

end Peering

namespace Relay

/-- The session object is there. -/
def live (r : Relay) (id : PeerSessionId) : Bool := (r.getPeerSession id).isSome

/-- `weak_ptr::lock`, with the id that the session has. -/
def lockSession (r : Relay) (id? : Option PeerSessionId) : Option (PeerSessionId × PeerSession) :=
  id?.bind fun id => (r.getPeerSession id).map (id, ·)

/-- The session that leads to a node, when it is there. -/
def bestSession (r : Relay) (node : NodeIdValueType) : Option PeerSessionId :=
  r.infoBase.nodesBest[node]?.filter r.live

/-! ### Node information -/

/-- Information about `a` does not go to `b`. -/
def skipNode (a b : NodeInfo) : Bool :=
  a.id = b.id || b.id = 0 || a.id = 0 || a.path.any fun item => item.id = b.id

def propagateNodeInfo (r : Relay) (info : NodeInfo) (withdraw : Bool) : Relay :=
  let send := fun _ (session : PeerSession) =>
    if skipNode info session.remoteNodeInfo then session else session.sendNodeInfo info withdraw
  { r with
    clientPeerSessions := r.clientPeerSessions.map send
    serverPeerSessions := r.serverPeerSessions.map send }

/-- `none` where the node tables refer to a session that is gone. -/
def nodeReceived (r : Relay) (peerSessionId : PeerSessionId) (info : NodeInfo) (withdraw : Bool) :
    Option Relay :=
  match r.getPeerSession peerSessionId with
  | none => some r
  | some session =>
    if withdraw then do
      let infoBase ← r.infoBase.removeNode r.live peerSessionId info.id
      pure ((r.setInfoBase infoBase).propagateNodeInfo
        (info.pushBack session.nodeId session.srttUs) true)
    else do
      let (infoBase, isUpdated) ← r.infoBase.addNode r.live peerSessionId info
      let r := r.setInfoBase infoBase
      -- The path gets the id of the node itself.
      pure (if isUpdated then r.propagateNodeInfo (info.pushBack info.id session.srttUs) false
        else r)

/-! ### Sessions that come up -/

/-- The entry is about this relay or the other one, comes from it, or has gone through it. -/
def skipSync (peerSessionId : PeerSessionId) (session : PeerSession)
    (entry : (NodeIdValueType × PeerSessionId) × NodeItem) : Bool :=
  entry.1.1 = session.nodeId || entry.1.2 = peerSessionId ||
    entry.1.1 = session.remoteNodeInfo.id ||
    entry.2.nodeInfo.path.any fun item => item.id = session.remoteNodeInfo.id

def syncNode (peerSessionId : PeerSessionId) (session : PeerSession)
    (entry : (NodeIdValueType × PeerSessionId) × NodeItem) : PeerSession :=
  if skipSync peerSessionId session entry then session
  else session.sendNodeInfo (entry.2.nodeInfo.pushBack session.nodeId session.srttUs) false

def syncAnnounce (session : PeerSession) (info : AnnounceInfo) : PeerSession :=
  if session.remoteNodeInfo.id = info.sourceNodeId then session
  else session.sendAnnounceInfo info false

/-- The stored subscription is serialized, so that it keeps the number it is sent with. -/
def syncSubscribe
    (acc : PeerSession × ExtTreeMap UInt64 (ExtTreeMap NodeIdValueType SubscribeInfo))
    (entry : (UInt64 × NodeIdValueType) × SubscribeInfo) :
    PeerSession × ExtTreeMap UInt64 (ExtTreeMap NodeIdValueType SubscribeInfo) :=
  if acc.1.remoteNodeInfo.id = entry.2.sourceNodeId then acc
  else
    let (session, info) := acc.1.sendSubscribeInfo entry.2 false
    (session, acc.2.insert₂ entry.1.1 entry.1.2 info)

def infoBaseSyncPeer (r : Relay) (peerSessionId : PeerSessionId) : Relay :=
  match r.getPeerSession peerSessionId with
  | none => r
  | some session =>
    let session := r.infoBase.nodes.toList.foldl (syncNode peerSessionId) session
    let session := (r.infoBase.announces.entries₂.map Prod.snd).foldl syncAnnounce session
    let (session, subscribes) := r.infoBase.subscribes.entries₂.foldl syncSubscribe
      (session, r.infoBase.subscribes)
    (r.setPeerSession peerSessionId session).setInfoBase { r.infoBase with subscribes }

/-- A session is changed in place. -/
def modifyPeerSession (r : Relay) (peerSessionId : PeerSessionId)
    (f : PeerSession → PeerSession) : Relay :=
  match r.getPeerSession peerSessionId with
  | none => r
  | some session => r.setPeerSession peerSessionId (f session)

/-- What this relay tells of itself. -/
def nodeInfo (r : Relay) : NodeInfo :=
  { id := r.nodeId, type := r.config.nodeType, contact := r.config.relayId }

theorem own_nodeInfo (r : Relay) : r.nodeInfo.Own r.nodeId := ⟨rfl, rfl⟩

/-- The transport of a session that this relay opens is ready. -/
def transportReady (r : Relay) (peerSessionId : PeerSessionId) : Relay :=
  r.modifyPeerSession peerSessionId fun session => session.sendConnect r.nodeInfo

def connectReceived (r : Relay) (peerSessionId : PeerSessionId) (info : NodeInfo) :
    Option Relay := do
  let r := r.modifyPeerSession peerSessionId fun session =>
    { session with remoteNodeInfo := info, status := .connected }
  let r ← r.nodeReceived peerSessionId info false
  let r := r.modifyPeerSession peerSessionId fun session => session.sendConnectOk r.nodeInfo
  pure (r.infoBaseSyncPeer peerSessionId)

def connectResponseReceived (r : Relay) (peerSessionId : PeerSessionId) (info : NodeInfo) :
    Option Relay := do
  let r := r.modifyPeerSession peerSessionId fun session => { session with remoteNodeInfo := info }
  let r ← r.nodeReceived peerSessionId info false
  let r := r.infoBaseSyncPeer peerSessionId
  let r := r.modifyPeerSession peerSessionId fun session => { session with status := .connected }
  pure (r.infoBaseSyncPeer peerSessionId)

/-! ### Sessions that are lost -/

/-- The loop of `SessionChanged` over the subscriptions. -/
structure LostSubscribes where
  clientFib : ExtTreeMap (UInt64 × PeerSessionId) FibEntry
  removeSub : List SubscribeInfo := []
  updateSub : List (PeerSessionId × SubscribeInfo) := []

/-- `InfoBase::GetBestPeerSession` locks the mutex of the info base: `none` when the caller holds
it. -/
def getBestPeerSession (r : Relay) (held : Bool) (nodeId : NodeIdValueType) :
    Option (Option PeerSessionId) :=
  if held then none else some r.infoBase.nodesBest[nodeId]?

/-- A subscription of a track that the lost remote node does not subscribe to.  The loop holds the
mutex, and for a subscription without a best session it reads the end of the row. -/
def rerouteSubscribe (r : Relay) (peerSessionId : PeerSessionId) (acc : LostSubscribes)
    (si : SubscribeInfo) : Option LostSubscribes :=
  let key := (si.trackHash.trackFullnameHash, peerSessionId)
  if acc.clientFib.contains key then do
    let acc := { acc with clientFib := acc.clientFib.erase key }
    match r.lockSession (← r.getBestPeerSession true si.sourceNodeId) with
    | some (best, _) => some { acc with updateSub := acc.updateSub ++ [(best, si)] }
    | none => none
  else some acc

def lostSubscribe (r : Relay) (peerSessionId : PeerSessionId) (remote : NodeIdValueType)
    (acc : LostSubscribes) (row : ExtTreeMap NodeIdValueType SubscribeInfo) :
    Option LostSubscribes :=
  match row[remote]? with
  | some si => some { acc with removeSub := acc.removeSub ++ [si] }
  | none => (row.toList.map Prod.snd).foldlM (r.rerouteSubscribe peerSessionId) acc

def isPeered (r : Relay) : Bool :=
  (r.clientPeerSessions.anyEntry fun _ session => session.status = .connected) ||
    r.serverPeerSessions.anyEntry fun _ session => session.status = .connected

/-- `none` where the behaviour of the source is undefined. -/
def sessionChanged (q : Quicr) (r : Relay) (peerSessionId : PeerSessionId) (status : StatusValue)
    (remote : NodeInfo) : Option Relay :=
  match status with
  | .connected | .connecting => some r
  | .disconnected => do
    let r := r.propagateNodeInfo remote true
    let infoBase ← r.infoBase.purgePeerSessionInfo r.live peerSessionId
    let r := r.setInfoBase infoBase
    let lost ← (r.infoBase.subscribes.toList.map Prod.snd).foldlM
      (r.lostSubscribe peerSessionId remote.id) { clientFib := r.infoBase.clientFib }
    let r := r.setInfoBase { r.infoBase with clientFib := lost.clientFib }
    let r := lost.removeSub.foldl (fun r si => r.subscribeInfoReceived q peerSessionId si true) r
    let r := lost.updateSub.foldl (fun r sub => r.subscribeInfoReceived q sub.1 sub.2 false) r
    pure (if r.isPeered then r else r.setInfoBase { r.infoBase with announces := ∅ })

/-- The transport of a session is lost.  A session that the relay has opened is kept, one that it
has accepted is dropped. -/
def sessionLost (q : Quicr) (r : Relay) (peerSessionId : PeerSessionId) : Option Relay :=
  match r.serverPeerSessions[peerSessionId]? with
  | some session => do
    let r ← r.sessionChanged q peerSessionId .disconnected session.remoteNodeInfo
    pure { r with serverPeerSessions := r.serverPeerSessions.erase peerSessionId }
  | none =>
    match r.clientPeerSessions[peerSessionId]? with
    | none => some r
    | some session =>
      (r.setPeerSession peerSessionId { session with status := .disconnected }).sessionChanged q
        peerSessionId .disconnected session.remoteNodeInfo

/-! ### Node sets of other relays -/

/-- One node of an advertised node set: the row of the ingress node set gets the egress session of
the node, 0 for this relay. -/
def snsNode (q : Quicr) (ingress : PeerSessionId) (snsId : SubscribeNodeSetId) (updateRef : UInt64)
    (acc : Relay × ExtTreeMap PeerSessionId FibEntry) (node : NodeIdValueType) :
    Relay × ExtTreeMap PeerSessionId FibEntry :=
  let (r, row) := acc
  if node = r.nodeId then (r, row.insert 0 { updateRef })
  else
    match r.lockSession r.infoBase.nodesBest[node]? with
    | none => acc
    | some (best, session) =>
      let (session, outSnsId, _) := session.addPeerSnsSourceNode q ingress snsId node
      (r.setPeerSession best session,
        row.insert best { updateRef, outSnsId, peerSession := some best })

/-- The entry was not updated: the egress session is told, under its own id. -/
def dropEgress (snsId : SubscribeNodeSetId) (updateRef : UInt64) (r : Relay) (entry : FibEntry) :
    Relay :=
  if entry.updateRef = updateRef then r
  else
    match r.lockSession entry.peerSession with
    | none => r
    | some (egress, session) =>
      r.setPeerSession egress (session.removePeerSnsSourceNode egress snsId 0).1

/-- The egress sessions of a withdrawn node set.  `none` where the source calls through a null
pointer. -/
def withdrawEgress (ingress : PeerSessionId) (snsId : SubscribeNodeSetId) (r : Relay)
    (entry : PeerSessionId × FibEntry) : Option Relay :=
  if entry.1 = 0 then some r
  else
    match r.lockSession entry.2.peerSession with
    | none => none
    | some (egress, session) =>
      some (r.setPeerSession egress (session.removePeerSnsSourceNode ingress snsId 0).1)

def setPeerFib (r : Relay)
    (f : ExtTreeMap (PeerSessionId × SubscribeNodeSetId) (ExtTreeMap PeerSessionId FibEntry) →
      ExtTreeMap (PeerSessionId × SubscribeNodeSetId) (ExtTreeMap PeerSessionId FibEntry)) :
    Relay :=
  r.setInfoBase { r.infoBase with peerFib := f r.infoBase.peerFib }

/-- `updateRef` is what `rand` returns. -/
def snsReceived (q : Quicr) (r : Relay) (ingress : PeerSessionId) (sns : SubscribeNodeSet)
    (withdraw : Bool) (updateRef : UInt64) : Option Relay :=
  let key := (ingress, sns.id)
  if withdraw then
    match r.infoBase.peerFib[key]? with
    | none => some r
    | some row => do
      let r ← row.toList.foldlM (withdrawEgress ingress sns.id) r
      pure (r.setPeerFib fun fib => fib.erase key)
  else
    match r.infoBase.peerFib[key]? with
    | none =>
      let (r, row) := sns.nodes.toList.foldl (snsNode q ingress sns.id updateRef) (r, ∅)
      some (r.setPeerFib fun fib => fib.insert key row)
    | some row =>
      let (r, row) := sns.nodes.toList.foldl (snsNode q ingress sns.id updateRef) (r, row)
      let r := (row.toList.map Prod.snd).foldl (dropEgress sns.id updateRef) r
      some (r.setPeerFib fun fib =>
        fib.insert key (row.filter fun _ entry => entry.updateRef = updateRef))

end Relay

end Laps
