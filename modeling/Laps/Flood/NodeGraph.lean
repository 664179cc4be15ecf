import Laps.Flood.Graph
import Laps.Relay.NodeMessages

/-! The relays of a peering graph with the messages about nodes between them. -/

namespace Laps

open Network Peering Std

namespace Relay

/-- What `SessionChanged` does before it locks the info base: the remote node is withdrawn. -/
def withdrawRemote (r : Relay) (peerSessionId : PeerSessionId) : Relay :=
  match r.serverPeerSessions[peerSessionId]? with
  | some session => r.propagateNodeInfo session.remoteNodeInfo true
  | none =>
    match r.clientPeerSessions[peerSessionId]? with
    | none => r
    | some session =>
      (r.setPeerSession peerSessionId { session with status := .disconnected }).propagateNodeInfo
        session.remoteNodeInfo true

/-- The round trip time of a session is sampled. -/
def srttSampled (r : Relay) (peerSessionId : PeerSessionId) (srttUs : UInt64) : Relay :=
  r.modifyPeerSession peerSessionId fun session => { session with srttUs }

/-- The part of `ProcessControlMessage` that is about nodes. -/
def nodeMessageReceived (r : Relay) (peerSessionId : PeerSessionId) : ControlMessage → Option Relay
  | .connect info => r.connectReceived peerSessionId info
  | .connectResponse info => r.connectResponseReceived peerSessionId info
  | .nodeInfo info withdraw => r.nodeReceived peerSessionId info withdraw
  | _ => some r

end Relay

namespace Flood

variable {ν δ : Type*}

/-- The relays on the path of a message. -/
def pathIds (info : NodeInfo) : List NodeIdValueType := info.path.map NodePathItem.id

theorem pathIds_pushBack (info : NodeInfo) (id : NodeIdValueType) (srttUs : UInt64) :
    pathIds (info.pushBack id srttUs) = pathIds info ++ [id] := by
  simp [pathIds, NodeInfo.pushBack]

/-- What happens at a relay from outside. -/
inductive NodeInput where
  /-- The transport of a session that the relay opens is ready. -/
  | ready (id : PeerSessionId)
  | lost (id : PeerSessionId)
  | sampled (id : PeerSessionId) (srttUs : UInt64)
  deriving DecidableEq, Repr

/-- A relay, with what is on the wire of the sessions that it has dropped.  A relay that has stopped
is one whose behaviour is undefined, or that waits for a mutex that it holds. -/
structure NodeState where
  relay : Relay
  stopped : Bool := false
  wire : PeerSessionId → List ControlMessage := fun _ => []

namespace NodeState

/-- The relay runs, and has its sessions. -/
def up (r : Relay) : NodeState := { relay := r }

/-- The messages about nodes that were sent over a session, whether the session is still there or
not. -/
def sentTo (s : NodeState) (id : PeerSessionId) : List ControlMessage :=
  s.wire id ++ s.relay.nodeMessagesTo id

/-- A call of the relay, of which all messages are sent when it is in the state `reached`.  Where the
call has no result the relay stops there.  The messages of a session that the call drops stay on the
wire. -/
def call (s : NodeState) (reached : Relay) (result : Option Relay) : NodeState :=
  match result with
  | none => { s with relay := reached, stopped := true }
  | some r =>
    { s with
      relay := r
      wire := fun id => s.wire id ++ if r.live id then [] else reached.nodeMessagesTo id }

/-- A relay that has stopped waits for the info base from then on.  The withdrawal of a session that
is lost still goes out before that. -/
def input (q : Quicr) (s : NodeState) : NodeInput → NodeState
  | .ready id => if s.stopped then s else { s with relay := s.relay.transportReady id }
  | .lost id =>
    if s.stopped then { s with relay := s.relay.withdrawRemote id }
    else s.call (s.relay.withdrawRemote id) (s.relay.sessionLost q id)
  | .sampled id srttUs => { s with relay := s.relay.srttSampled id srttUs }

/-- Nothing is sent before the part of a handler that may be undefined. -/
def receive (s : NodeState) (id : PeerSessionId) (msg : ControlMessage) : NodeState :=
  if s.stopped then s else s.call s.relay (s.relay.nodeMessageReceived id msg)

end NodeState

def nodeProtocol (q : Quicr) (g : PeeringGraph ν δ) :
    Protocol ν δ NodeState NodeInput ControlMessage where
  input _ i s := s.input q i
  receive d msg s := s.receive (g.sessionId d) msg
  sent d s := s.sentTo (g.sessionId d)

/-- The relay at a node: its sessions are those of the graph, and it knows their other ends, or does
not know them yet. -/
structure PeeringGraph.Peered (g : PeeringGraph ν δ) (n : ν) (r : Relay) : Prop where
  nodeId : r.nodeId = g.nodeId n
  separate : r.Separate
  session : ∀ id session, r.getPeerSession id = some session →
    ∃ d, g.node d = n ∧ g.sessionId d = id ∧ session.nodeId = r.nodeId ∧
      (session.remoteNodeInfo = {} ∨
        session.remoteNodeInfo.Own (g.nodeId (g.node (g.opposite d))))

namespace PeeringGraph

variable {g : PeeringGraph ν δ} {n : ν} {r r' : Relay}

theorem Peered.tells {P : PeerSession → List ControlMessage → Prop} (h : g.Peered n r)
    (htells : Relay.Tells P r r') : g.Peered n r' where
  nodeId := htells.nodeId.trans h.nodeId
  separate := htells.separate h.separate
  session := by
    intro id session' hget'
    obtain ⟨session, new, hget, hown, hremote, -, -⟩ := htells.session id session' hget'
    obtain ⟨d, hd, hid, hnode, hknown⟩ := h.session id session hget
    refine ⟨d, hd, hid, ?_, ?_⟩
    · rw [hown, hnode, htells.nodeId]
    · rw [hremote]
      exact hknown

/-- The other end of a session that a message goes out on. -/
theorem Peered.remote (h : g.Peered n r) {d : δ} (hd : g.node d = n) {session : PeerSession}
    (hget : r.getPeerSession (g.sessionId d) = some session)
    (hid : session.remoteNodeInfo.id ≠ 0) :
    session.remoteNodeInfo.Own (g.nodeId (g.node (g.opposite d))) := by
  obtain ⟨e, he, hsession, -, hknown⟩ := h.session _ session hget
  obtain rfl := g.sessionId_inj e d (he.trans hd.symm) hsession
  rcases hknown with hknown | hknown
  · rw [hknown] at hid
    exact absurd rfl hid
  · exact hknown

end PeeringGraph

/-- What is on an end after a change, with the session it is on. -/
theorem extends_of_tells {P : PeerSession → List ControlMessage → Prop} {r r' : Relay}
    (h : Relay.Tells P r r') {id : PeerSessionId} (hlive : r'.live id = true) :
    ∃ session new, r.getPeerSession id = some session ∧
      r'.nodeMessagesTo id = r.nodeMessagesTo id ++ new ∧ P session new := by
  obtain ⟨session', hget'⟩ := Option.isSome_iff_exists.mp hlive
  obtain ⟨session, new, hget, -, -, hsent, hP⟩ := h.session id session' hget'
  exact ⟨session, new, hget, by simp [Relay.nodeMessagesTo, hget, hget', hsent], hP⟩

theorem nodeMessagesTo_of_not_live {r : Relay} {id : PeerSessionId} (h : r.live id = false) :
    r.nodeMessagesTo id = [] := by
  rw [Relay.live, Option.isSome_eq_false_iff, Option.isNone_iff_eq_none] at h
  rw [Relay.nodeMessagesTo, h]
  rfl

/-! ### A triangle of relays that know each other -/

/-- The relay of the triangle with a session to the next one, that it has opened, and one to the
relay before. -/
def triangleNode (n : Fin 3) : Relay where
  nodeId := triangle.nodeId n
  clientPeerSessions :=
    (∅ : ExtTreeMap PeerSessionId PeerSession).insert 1
      { status := .connected, nodeId := triangle.nodeId n
        remoteNodeInfo := { id := triangle.nodeId (n + 1) } }
  serverPeerSessions :=
    (∅ : ExtTreeMap PeerSessionId PeerSession).insert 2
      { status := .connected, nodeId := triangle.nodeId n
        remoteNodeInfo := { id := triangle.nodeId (n + 2) } }

theorem getPeerSession_triangleNode (n : Fin 3) (id : PeerSessionId) :
    (triangleNode n).getPeerSession id =
      if id = 2 then some { status := .connected, nodeId := triangle.nodeId n
                            remoteNodeInfo := { id := triangle.nodeId (n + 2) } }
      else if id = 1 then some { status := .connected, nodeId := triangle.nodeId n
                                 remoteNodeInfo := { id := triangle.nodeId (n + 1) } }
      else none := by
  unfold Relay.getPeerSession triangleNode
  dsimp only
  rw [ExtTreeMap.getElem?_insert_ite, ExtTreeMap.getElem?_insert_ite]
  by_cases h2 : id = 2
  · simp [h2]
  · simp [h2]

theorem peered_triangleNode (n : Fin 3) : triangle.Peered n (triangleNode n) where
  nodeId := rfl
  separate := by
    intro id hid
    have h2 : 2 = id := by simpa [triangleNode] using hid
    subst h2
    simp [triangleNode]
  session := by
    intro id session hget
    rw [getPeerSession_triangleNode] at hget
    split at hget
    · rename_i hid
      cases hget
      exact ⟨(n, false), rfl, hid.symm, rfl, .inr ⟨rfl, rfl⟩⟩
    · split at hget
      · rename_i hid
        cases hget
        exact ⟨(n, true), rfl, hid.symm, rfl, .inr ⟨rfl, rfl⟩⟩
      · cases hget

end Flood

end Laps
