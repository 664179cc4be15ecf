import Laps.Lib.Network
import Laps.Relay.Frame

/-! Relays that peer with each other: each session is a link, and its two ends are the sessions that
the two relays have for it. -/

namespace Laps.Flood

open Network Peering

/-- A peering graph with fixed sessions. -/
structure PeeringGraph (ν δ : Type*) extends Topology ν δ where
  nodeId : ν → NodeIdValueType
  nodeId_injective : Function.Injective nodeId
  sessionId : δ → PeerSessionId
  sessionId_inj : ∀ d e, node d = node e → sessionId d = sessionId e → d = e

namespace PeeringGraph

variable {ν δ : Type*} (g : PeeringGraph ν δ)

/-- The relay is the one at the node, and its sessions in the graph are connected. -/
structure Fits (n : ν) (r : Relay) : Prop where
  nodeId : r.nodeId = g.nodeId n
  connected : ∀ d, g.node d = n → r.Connected (g.sessionId d)

theorem sessionId_beq [DecidableEq δ] {d e : δ} (h : g.node e = g.node d) :
    (g.sessionId e == g.sessionId d) = decide (e = d) := by
  by_cases hde : e = d
  · simp [hde]
  · simpa [hde] using fun hid => hde (g.sessionId_inj e d h hid)

end PeeringGraph

/-- A call of `ClientAnnounce`. -/
structure ClientAnnounceCall where
  full : FullTrackName
  withdraw : Bool := false
  publishNamespace : Bool := false
  deriving DecidableEq, Repr

/-- The relays of a graph with the announce messages between them. -/
def announceProtocol {ν δ : Type*} (q : Quicr) (g : PeeringGraph ν δ) :
    Protocol ν δ Relay ClientAnnounceCall (AnnounceInfo × Bool) where
  input _ call r := r.clientAnnounce q call.full call.withdraw call.publishNamespace
  receive d msg r := r.announceInfoReceived q (g.sessionId d) msg.1 msg.2
  sent d r := r.announcesTo (g.sessionId d)

/-- A call of `ClientSubscribe`. -/
structure ClientSubscribeCall where
  full : FullTrackName
  subscribeData : List UInt8
  deriving DecidableEq, Repr

/-- The relays of a graph with the subscribe messages between them. -/
def subscribeProtocol {ν δ : Type*} (q : Quicr) (g : PeeringGraph ν δ) :
    Protocol ν δ Relay ClientSubscribeCall (SubscribeInfo × Bool) where
  input _ call r := r.clientSubscribe q call.full call.subscribeData
  receive d msg r := r.subscribeInfoReceived q (g.sessionId d) msg.1 msg.2
  sent d r := r.subscribesTo (g.sessionId d)

/-! ### A triangle of relays -/

instance three_neZero : NeZero 3 := inferInstance

/-- Three relays, each with a session to the next one. -/
def triangle : PeeringGraph (Fin 3) (Fin 3 × Bool) where
  node d := d.1
  opposite d := if d.2 then (d.1 + 1, false) else (d.1 + 2, true)
  opposite_opposite := by decide
  nodeId n := UInt64.ofNat (n.val + 1)
  nodeId_injective := by decide
  sessionId d := if d.2 then 1 else 2
  sessionId_inj := by decide

/-- A relay of the triangle: it has opened the session to the next one. -/
def triangleRelay (n : Fin 3) : Relay where
  nodeId := triangle.nodeId n
  clientPeerSessions :=
    (∅ : Std.ExtTreeMap PeerSessionId PeerSession).insert 1
      { status := .connected, nodeId := triangle.nodeId n }
  serverPeerSessions :=
    (∅ : Std.ExtTreeMap PeerSessionId PeerSession).insert 2
      { status := .connected, nodeId := triangle.nodeId n }

theorem fits_triangleRelay (n : Fin 3) : triangle.Fits n (triangleRelay n) := by
  refine ⟨rfl, ?_⟩
  rintro ⟨m, b⟩ hm
  cases b with
  | true => exact ⟨{ status := .connected, nodeId := triangle.nodeId n }, rfl, rfl, rfl⟩
  | false => exact ⟨{ status := .connected, nodeId := triangle.nodeId n }, rfl, rfl, rfl⟩

end Laps.Flood
