import Laps.Flood.Graph
import Laps.Lib.Pipes
import Laps.Relay.Flows

/-! The relays of a graph with the streams of data between them.  The tables say where the data go;
each session carries its streams independently of each other. -/

namespace Laps.Multicast

open Client Flood Peering Pipes Relay

/-- What a publisher has handed over of a subgroup, and whether it has ended it, by a reset or
not. -/
structure Published where
  header : DataHeader
  payload : List UInt8
  reset : Option Bool := none
  deriving DecidableEq

/-- A relay with the contexts of the streams that come in, and a record of the data that have gone
in and out of it. -/
structure DataPeer extends ClientRelay where
  /-- `caller_any` of the streams of the sessions. -/
  rxCtx : PeerSessionId → UInt64 → Option DataHeader := fun _ _ => none
  /-- The subgroups of a track, by the key that the client table has for them. -/
  published : UInt64 → UInt64 → Option Published := fun _ _ => none
  /-- What has been put on the streams of the sessions, and how they have been closed. -/
  sent : PeerSessionId → UInt64 → List UInt8 := fun _ _ => []
  closes : PeerSessionId → UInt64 → List Bool := fun _ _ => []
  /-- What the clients have been handed of the streams that come in, and the closes. -/
  handed : PeerSessionId → UInt64 → List UInt8 := fun _ _ => []
  handedCloses : PeerSessionId → UInt64 → List Bool := fun _ _ => []

namespace DataPeer

/-- What a call makes goes to the sessions. -/
def put (p : DataPeer) (n : ClientRelay) (out : List StreamOut) : DataPeer :=
  { p with
    toClientRelay := n
    sent := fun egress streamId =>
      p.sent egress streamId ++ (out.filterMap (StreamOut.dataOn egress streamId)).flatten
    closes := fun egress streamId =>
      p.closes egress streamId ++ out.filterMap (StreamOut.closeOn egress streamId) }

/-- `ClientDataRecv`. -/
def clientDataRecv (createStream : CreateStream) (chunk : Chunk) (p : DataPeer) : DataPeer :=
  let (relay, sent) := p.relay.clientDataRecv createStream chunk
  let published :=
    match p.published chunk.trackFullNameHash chunk.inStreamId with
    | none => ⟨chunk.header, chunk.data, none⟩
    | some subgroup => { subgroup with payload := subgroup.payload ++ chunk.data }
  { p.put { p.toClientRelay with relay } (sent.map fun sent => .forwarded (.session sent)) with
    published := update₂ p.published chunk.trackFullNameHash chunk.inStreamId (some published) }

/-- `EndSubgroup`. -/
def endSubgroup (trackFullNameHash groupId subgroupId : UInt64) (reset : Bool) (p : DataPeer) :
    DataPeer :=
  let key := inStreamId groupId subgroupId
  let relay := p.relay.endSubgroup trackFullNameHash groupId subgroupId
  { p.put { p.toClientRelay with relay }
      ((p.relay.endSubgroupCloses trackFullNameHash groupId subgroupId reset).map .closed) with
    published := update₂ p.published trackFullNameHash key
      ((p.published trackFullNameHash key).map fun subgroup => { subgroup with reset := reset }) }

/-- `OnRecvStream` with one piece of data.  `none` where the source throws or reads past the end. -/
def onRecvStream (m : Moqt) (env : HandlerEnv) (ingress : PeerSessionId) (streamId : UInt64)
    (data : List UInt8) (p : DataPeer) : Option DataPeer :=
  let (result, out) := p.processReceivedData m env env.createStream ingress streamId
    (p.rxCtx ingress streamId) data
  result.map fun (_, n, ctx) =>
    { p.put n (out.map PeerOut.streamOut) with
      rxCtx := update₂ p.rxCtx ingress streamId ctx
      handed := update₂ p.handed ingress streamId
        (p.handed ingress streamId ++ clientBytes (forwardedOf out)) }

/-- `OnStreamClosed`.  `none` where the context is not there and its cast throws. -/
def onStreamClosed (ingress : PeerSessionId) (streamId : UInt64) (reset : Bool) (p : DataPeer) :
    Option DataPeer := do
  let header ← p.rxCtx ingress streamId
  let (n, out) := p.closeStream ingress header.snsId streamId header.trackFullNameHash reset
  pure
    { p.put n (out.map .closed) with
      handedCloses := update₂ p.handedCloses ingress streamId
        (p.handedCloses ingress streamId ++ clientCloses out) }

/-- The handlers of the clients take the next piece of a stream, as they are. -/
def Takes (m : Moqt) (env : HandlerEnv) (p : DataPeer) (ingress : PeerSessionId)
    (streamId : UInt64) (data : List UInt8) : Prop :=
  match p.rxCtx ingress streamId with
  | none => ∀ header, DataHeader.deserialize {} data = some (true, header) →
      p.Absorbs m env ingress streamId header true (data.drop 19)
  | some header => p.Absorbs m env ingress streamId header false data

/-- What the handlers of the clients end with a stream has no streams to other relays. -/
def Releases (p : DataPeer) (ingress : PeerSessionId) (streamId : UInt64) : Prop :=
  ∀ header, p.rxCtx ingress streamId = some header →
    p.relay.ForClients ingress header.snsId → p.Idle header.trackFullNameHash streamId

end DataPeer

inductive PublisherInput where
  | clientDataRecv (createStream : CreateStream) (chunk : Chunk)
  | endSubgroup (trackFullNameHash groupId subgroupId : UInt64) (reset : Bool)

def PublisherInput.apply (p : DataPeer) : PublisherInput → DataPeer
  | clientDataRecv createStream chunk => p.clientDataRecv createStream chunk
  | endSubgroup trackFullNameHash groupId subgroupId reset =>
    p.endSubgroup trackFullNameHash groupId subgroupId reset

section Network

variable {ν δ : Type*}

/-- The relays of a graph with the streams between them, each with the ids that the transport gives
to the streams that are made.  A relay is `none` once its behaviour is undefined. -/
def dataProtocol (g : PeeringGraph ν δ) (m : Moqt) :
    Protocol ν δ UInt64 (Option DataPeer) PublisherInput HandlerEnv UInt8 where
  input _ i p := p.map fun p => i.apply p
  receive d streamId env data p :=
    p.bind (DataPeer.onRecvStream m env (g.sessionId d) streamId data)
  closed d streamId reset p := p.bind (DataPeer.onStreamClosed (g.sessionId d) streamId reset)
  written d streamId p := p.elim [] fun p => p.sent (g.sessionId d) streamId
  close d streamId p := p.bind fun p => (p.closes (g.sessionId d) streamId).head?

abbrev DataNet (ν δ : Type*) := Net ν δ UInt64 (Option DataPeer)

abbrev DataLabel (ν δ : Type*) := Label ν δ UInt64 PublisherInput HandlerEnv

/-- What publishers have handed over at the node of a subgroup. -/
def subgroupAt (net : DataNet ν δ) (n : ν) (track key : UInt64) : Option Published :=
  (net.nodes n).bind fun p => p.published track key

/-- The ids of new streams have not been used on their sessions, from either end. -/
structure Fresh (g : PeeringGraph ν δ) (m : Moqt) (net : DataNet ν δ) (n : ν)
    (createStream : CreateStream) : Prop where
  own : ∀ p, net.nodes n = some p → ∀ egress snsId, p.sent egress (createStream egress snsId) = []
  opposite : ∀ d, g.node d = n → ∀ snsId,
    net.written g.toTopology (dataProtocol g m) (g.opposite d)
      (createStream (g.sessionId d) snsId) = []

/-- Publishers start each subgroup once, with a stream, and end it last.  The first piece of a stream
has its header, and its close comes after that.  The handlers of the clients take what is for them,
and the sessions do not notice. -/
def Admits (g : PeeringGraph ν δ) (m : Moqt) (net : DataNet ν δ) : DataLabel ν δ → Prop
  | .input n (.clientDataRecv createStream chunk) =>
    match subgroupAt net n chunk.trackFullNameHash chunk.inStreamId with
    | none => chunk.type = .newStream ∧ Fresh g m net n createStream
    | some subgroup => chunk.type = .existingStream ∧ subgroup.reset = none
  | .input n (.endSubgroup track groupId subgroupId _) =>
    ∃ subgroup, subgroupAt net n track (inStreamId groupId subgroupId) = some subgroup ∧
      subgroup.reset = none
  | .receive d streamId count env =>
    (net.read d streamId = 0 → 19 ≤ count ∧ Fresh g m net (g.node d) env.createStream) ∧
      ∀ p, net.nodes (g.node d) = some p → p.Takes m env (g.sessionId d) streamId
        ((net.unread g.toTopology (dataProtocol g m) d streamId).take count)
  | .closed d streamId =>
    0 < net.read d streamId ∧
      ∀ p, net.nodes (g.node d) = some p → p.Releases (g.sessionId d) streamId

/-- A relay whose tables are there, with its sessions, before any data. -/
structure Settled (r : Relay) : Prop where
  wires : r.Wires
  unused : ∀ k egress, r.flowStream k egress = none

/-- The relays before any data. -/
def startNet (relays : ν → ClientRelay) : DataNet ν δ where
  nodes n := some { toClientRelay := relays n }
  read _ _ := 0
  ended _ _ := false

variable [DecidableEq ν] [DecidableEq δ]

/-- The tables of the relays are settled, none peers with itself, and the data have come so far. -/
structure DataRun (g : PeeringGraph ν δ) (m : Moqt) (relays : ν → ClientRelay)
    (net : DataNet ν δ) : Prop where
  settled : ∀ n, Settled (relays n).relay
  apart : ∀ d, g.node (g.opposite d) ≠ g.node d
  reachable : Reachable g.toTopology (dataProtocol g m) (Admits g m) (startNet relays) net

end Network

end Laps.Multicast
