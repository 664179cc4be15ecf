import Laps.Flood.NodeGraph
import Laps.Relay.Growth
import Laps.Relay.Handshake

/-! Relays that join a peering graph: sessions are opened and accepted at any time, and then carry
all the control messages of the relays.  What a relay has of the others is a set of facts: which
relays there are, and what is announced and subscribed to where. -/

namespace Laps

open Network Peering Std

namespace Peering

/-- What a relay can learn. -/
inductive Fact where
  | node (id : NodeIdValueType)
  | announce (fullnameHash : UInt64) (sourceNodeId : NodeIdValueType)
  | subscribe (fullnameHash : UInt64) (sourceNodeId : NodeIdValueType)
  deriving DecidableEq, Repr

/-- The relay that a fact is about. -/
def Fact.source : Fact → NodeIdValueType
  | node id => id
  | announce _ sourceNodeId => sourceNodeId
  | subscribe _ sourceNodeId => sourceNodeId

/-- What a message tells.  Withdrawals and node sets tell nothing. -/
def ControlMessage.fact? : ControlMessage → Option Fact
  | connect info => some (.node info.id)
  | connectResponse info => some (.node info.id)
  | nodeInfo info false => some (.node info.id)
  | announceInfo info false => some (.announce info.fullnameHash info.sourceNodeId)
  | subscribeInfo info false =>
    some (.subscribe info.trackHash.trackFullnameHash info.sourceNodeId)
  | _ => none

/-- The message is part of the handshake of a session. -/
def ControlMessage.isHandshake : ControlMessage → Bool
  | connect _ => true
  | connectResponse _ => true
  | _ => false

end Peering

namespace Relay

/-- The switch of `ProcessControlMessage`.  `updateRef` is what `rand` returns. -/
def controlMessageReceived (q : Quicr) (r : Relay) (id : PeerSessionId) (updateRef : UInt64) :
    ControlMessage → Option Relay
  | .connect info => r.connectReceived id info
  | .connectResponse info => r.connectResponseReceived id info
  | .subscribeNodeSet sns withdraw => r.snsReceived q id sns withdraw updateRef
  | .nodeInfo info withdraw => r.nodeReceived id info withdraw
  | .subscribeInfo info withdraw => some (r.subscribeInfoReceived q id info withdraw)
  | .announceInfo info withdraw => some (r.announceInfoReceived q id info withdraw)

/-- The control messages that get to the other end of a session.  What is enqueued before the
connect message or the answer to it is lost: the session has no control context yet. -/
def controlTo (r : Relay) (id : PeerSessionId) : List ControlMessage :=
  ((r.getPeerSession id).map fun session =>
    session.enqueued.dropWhile fun msg => !msg.isHandshake).getD []

/-- The relay has the fact in its tables; it is a relay itself. -/
def HasFact (r : Relay) : Fact → Prop
  | .node id => id = r.nodeId ∨ ∃ s, r.infoBase.nodes.contains (id, s) = true
  | .announce hash source => (r.infoBase.announces.get₂? hash source).isSome
  | .subscribe hash source => (r.infoBase.subscribes.get₂? hash source).isSome

end Relay

namespace Flood

variable {ν δ : Type*}

/-- A peering graph whose sessions are opened by one of their ends. -/
structure JoinGraph (ν δ : Type*) extends PeeringGraph ν δ where
  opens : δ → Bool
  opens_opposite : ∀ d, opens (opposite d) = !opens d
  /-- No relay peers with itself, and none has the id that stands for an unknown one. -/
  node_opposite : ∀ d, node (opposite d) ≠ node d
  nodeId_ne_zero : ∀ n, nodeId n ≠ 0

/-- A relay with the values that its calls of `rand` return, and what is in memory where the round
trip times of the sessions that it accepts will be. -/
structure Peer where
  relay : Relay
  rands : ℕ → UInt64
  memory : PeerSessionId → UInt64

/-- What happens at a relay from outside. -/
inductive JoinInput where
  /-- The transport accepts a session. -/
  | accepted (id : PeerSessionId)
  /-- The transport of a session that the relay opens is ready. -/
  | ready (id : PeerSessionId)
  | sampled (id : PeerSessionId) (srttUs : UInt64)
  | announce (call : ClientAnnounceCall)
  | subscribe (call : ClientSubscribeCall)
  deriving DecidableEq, Repr

def JoinInput.apply (q : Quicr) (memory : PeerSessionId → UInt64) (r : Relay) : JoinInput → Relay
  | .accepted id => r.newConnection q id (memory id)
  | .ready id => r.transportReady id
  | .sampled id srttUs => r.srttSampled id srttUs
  | .announce call => r.clientAnnounce q call.full call.withdraw call.publishNamespace
  | .subscribe call => r.clientSubscribe q call.full call.subscribeData

/-- The relays of a graph with all control messages between them.  The transport accepts a session
before data of it comes in.  A relay whose behaviour is undefined is gone. -/
def joinProtocol (q : Quicr) (g : JoinGraph ν δ) :
    Protocol ν δ (Option Peer) JoinInput ControlMessage where
  input _ i s := s.map fun peer => { peer with relay := i.apply q peer.memory peer.relay }
  receive d msg s := s.bind fun peer =>
    let r := if g.opens d then peer.relay
      else peer.relay.newConnection q (g.sessionId d) (peer.memory (g.sessionId d))
    (r.controlMessageReceived q (g.sessionId d) (peer.rands 0) msg).map fun relay =>
      { peer with relay, rands := fun k => peer.rands (k + 1) }
  sent d s := (s.map fun peer => peer.relay.controlTo (g.sessionId d)).getD []

/-- What can happen at a relay while nothing is lost and nothing withdrawn: the sessions are those
of the graph, opened and accepted by the ends that do. -/
def JoinGraph.Admits (g : JoinGraph ν δ) (n : ν) : JoinInput → Prop
  | .accepted id => ∃ d, g.node d = n ∧ g.sessionId d = id ∧ g.opens d = false
  | .ready id => ∃ d, g.node d = n ∧ g.sessionId d = id ∧ g.opens d = true
  | .announce call => call.withdraw = false
  | .sampled _ _ => True
  | .subscribe _ => True

/-- The session of the end is connected, and its other end is known. -/
def Up (g : PeeringGraph ν δ) (d : δ) (r : Relay) : Prop :=
  ∃ session, r.getPeerSession (g.sessionId d) = some session ∧ session.status = .connected ∧
    session.remoteNodeInfo.id ≠ 0

/-! ### What a relay of the graph is like -/

/-- What the other relays have and have done. -/
structure Others (δ : Type*) where
  /-- The relay at the other end of `d` has the fact. -/
  knows (d : δ) (k : Fact) : Prop
  /-- The relay `p` has the node `m`. -/
  aware (p m : NodeIdValueType) : Prop
  /-- The relay at the other end of `d` has sent a connect message. -/
  asked (d : δ) : Prop

/-- A message that the relay of the end may send over it. -/
def Passable (g : JoinGraph ν δ) (d : δ) (o : Others δ) :
    ControlMessage → Prop
  | .connect info => g.opens d = true ∧ info.Own (g.nodeId (g.node d))
  | .connectResponse info => o.asked d ∧ info.Own (g.nodeId (g.node d))
  | .nodeInfo info withdraw => withdraw = false ∧ ∀ p ∈ pathIds info, o.aware p info.id
  | .announceInfo _ withdraw => withdraw = false
  | .subscribeInfo _ withdraw => withdraw = false
  | .subscribeNodeSet _ _ => True

/-- What is announced and subscribed to is stored under its own hash and relay. -/
structure OwnKeyed (ib : InfoBase) : Prop where
  announces : ∀ hash source info, ib.announces.get₂? hash source = some info →
    info.fullnameHash = hash ∧ info.sourceNodeId = source
  subscribes : ∀ hash source info, ib.subscribes.get₂? hash source = some info →
    info.trackHash.trackFullnameHash = hash ∧ info.sourceNodeId = source

/-- A relay of the graph. -/
structure Joined (g : JoinGraph ν δ) (n : ν) (o : Others δ) (r : Relay) : Prop where
  nodeId : r.nodeId = g.nodeId n
  session : ∀ id session, r.getPeerSession id = some session →
    ∃ d, g.node d = n ∧ g.sessionId d = id ∧ session.nodeId = g.nodeId n ∧
      (session.remoteNodeInfo = {} ∨
        session.remoteNodeInfo.Own (g.nodeId (g.node (g.opposite d))))
  opened : ∀ d, g.node d = n → g.opens d = true → (r.getPeerSession (g.sessionId d)).isSome
  accepted : ∀ d, g.node d = n → g.opens d = false →
    r.clientPeerSessions.contains (g.sessionId d) = false
  tables : r.infoBase.NodeTables
  keyed : OwnKeyed r.infoBase
  alive : r.infoBase.Alive r.live
  egress : r.EgressAlive
  /-- Where an entry comes from, the node is known. -/
  told : ∀ d m, g.node d = n → r.infoBase.nodes.contains (m, g.sessionId d) = true →
    o.knows d (.node m)
  paths : ∀ (m : NodeIdValueType) (s : PeerSessionId) (item : NodeItem),
    r.infoBase.nodes[(m, s)]? = some item → ∀ p ∈ pathIds item.nodeInfo, o.aware p m
  passable : ∀ d, g.node d = n → ∀ session, r.getPeerSession (g.sessionId d) = some session →
    ∀ msg ∈ session.enqueued, Passable g d o msg
  sound : ∀ id session, r.getPeerSession id = some session → ∀ msg ∈ session.enqueued, ∀ k,
    msg.fact? = some k → r.HasFact k

/-- Over the sessions that are up, those of `covered`, the relay has begun with the handshake, and
what it knows it has told or is known there. -/
structure Tells (g : JoinGraph ν δ) (n : ν) (o : Others δ) (covered : δ → Prop)
    (r : Relay) : Prop where
  first : ∀ d, g.node d = n → covered d → Up g.toPeeringGraph d r →
    ∃ msg ∈ r.controlTo (g.sessionId d), msg.isHandshake = true
  told : ∀ d, g.node d = n → covered d → Up g.toPeeringGraph d r → ∀ k, r.HasFact k →
    o.knows d k ∨ ∃ msg ∈ r.controlTo (g.sessionId d), msg.fact? = some k

end Flood

end Laps
