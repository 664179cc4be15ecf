import Laps.Multicast.Model

/-! What a relay makes of its streams, without its tables: each stream that comes in, and each
subgroup of a publisher, is a flow that goes on unchanged over one stream for each of its routes. -/

namespace Laps.Multicast

open Peering Pipes Relay

structure Flow where
  header : DataHeader
  payload : List UInt8
  /-- The streams of the sessions that continue it. -/
  streams : PeerSessionId → Option UInt64
  closed : Option Bool := none

abbrev Flows := FlowKey → Option Flow

namespace Flow

/-- The bytes of the flow on a session that has this id for the node set. -/
def bytes (f : Flow) (snsId : SubscribeNodeSetId) : List UInt8 :=
  ({ f.header with snsId } : DataHeader).serialize ++ f.payload

/-- A flow is continued, and nothing comes after its close. -/
structure Grows (f f' : Flow) : Prop where
  header : f'.header = f.header
  streams : f'.streams = f.streams
  payload : f.payload <+: f'.payload
  closed : f.closed ≠ none → f' = f

theorem Grows.refl (f : Flow) : Grows f f := ⟨rfl, rfl, List.prefix_rfl, fun _ => rfl⟩

end Flow

/-- The flow of a call after it. -/
def flowAfter (r : Relay) (k : FlowKey) (f : Option Flow) : FlowCall → Option Flow
  | .start createStream header payload =>
    some
      { header, payload, streams := fun egress => (r.flowRoute k egress).map (createStream egress) }
  | .more data => f.map fun f => { f with payload := f.payload ++ data }
  | .close reset => f.map fun f => { f with closed := some reset }

/-- A flow starts once, and is continued and closed while it is open. -/
def Fits (f : Option Flow) : FlowCall → Prop
  | .start _ header _ => f = none ∧ header.type = .newStream
  | .more _ => ∃ f', f = some f' ∧ f'.closed = none
  | .close _ => ∃ f', f = some f' ∧ f'.closed = none

/-- The ids of the streams that a call makes have not been used. -/
def Unused (sent : PeerSessionId → UInt64 → List UInt8) : FlowCall → Prop
  | .start createStream _ _ => ∀ egress snsId, sent egress (createStream egress snsId) = []
  | _ => True

/-- A call starts a flow, or lets one go on. -/
inductive FlowChange (r : Relay) (k : FlowKey) (c : FlowCall) : Option Flow → Flow → Prop
  | starts {createStream : CreateStream} {header : DataHeader} {payload : List UInt8} :
      c = .start createStream header payload → header.type = .newStream →
      FlowChange r k c none
        { header, payload
          streams := fun egress => (r.flowRoute k egress).map (createStream egress) }
  | goesOn {f f' : Flow} : f.closed = none → f'.header = f.header → f'.streams = f.streams →
      (∀ snsId, f'.payload = f.payload ++ (c.bytes snsId).flatten) →
      (∀ egress, c.target r k egress = r.flowStream k egress) → FlowChange r k c (some f) f'

theorem exists_flowAfter {f : Option Flow} {c : FlowCall} (hfits : Fits f c) (r : Relay)
    (k : FlowKey) : ∃ f', flowAfter r k f c = some f' ∧ f'.closed = c.resets.head? ∧
      FlowChange r k c f f' := by
  cases c with
  | start createStream header payload =>
    obtain ⟨rfl, htype⟩ := hfits
    exact ⟨_, rfl, rfl, .starts rfl htype⟩
  | more data =>
    obtain ⟨f₀, rfl, hopen⟩ := hfits
    refine ⟨_, rfl, hopen, .goesOn hopen rfl rfl (fun _ => ?_) fun _ => rfl⟩
    simp [FlowCall.bytes]
  | close reset =>
    obtain ⟨f₀, rfl, hopen⟩ := hfits
    refine ⟨_, rfl, rfl, .goesOn hopen rfl rfl (fun _ => ?_) fun _ => rfl⟩
    simp [FlowCall.bytes]

/-- The streams of a relay that started with `r₀` carry the flows. -/
structure Continues (r₀ r : Relay) (sent : PeerSessionId → UInt64 → List UInt8)
    (closes : PeerSessionId → UInt64 → List Bool) (flows : Flows) : Prop where
  kept : TablesKept r₀ r
  current : ∀ k egress, r.flowStream k egress =
    (flows k).bind fun f => if f.closed = none then f.streams egress else none
  routed : ∀ k f, flows k = some f → ∀ egress,
    (f.streams egress).isSome = (r₀.flowRoute k egress).isSome
  newStream : ∀ k f, flows k = some f → f.header.type = .newStream
  onStream : ∀ k f egress streamId, flows k = some f → f.streams egress = some streamId →
    sent egress streamId = f.bytes ((r₀.flowRoute k egress).getD 0) ∧
      closes egress streamId = f.closed.toList
  noStream : ∀ egress streamId, (∀ k f, flows k = some f → f.streams egress ≠ some streamId) →
    sent egress streamId = [] ∧ closes egress streamId = []
  one : ∀ k k' f f' egress streamId, flows k = some f → flows k' = some f' →
    f.streams egress = some streamId → f'.streams egress = some streamId → k = k'

theorem length_bytes {f : Flow} (htype : f.header.type = .newStream) (snsId : SubscribeNodeSetId) :
    (f.bytes snsId).length = 19 + f.payload.length := by
  have hheader : ({ f.header with snsId } : DataHeader).serialize.length = 19 :=
    length_newStream htype
  rw [Flow.bytes, List.length_append, hheader]

namespace Continues

variable {r₀ r r' : Relay} {sent : PeerSessionId → UInt64 → List UInt8}
  {closes : PeerSessionId → UInt64 → List Bool} {flows : Flows} {k : FlowKey} {c : FlowCall}
  {out : List StreamOut}

theorem start (h : Settled r₀) :
    Continues r₀ r₀ (fun _ _ => []) (fun _ _ => []) fun _ => none := by
  refine ⟨.refl r₀, h.unused, ?_, ?_, ?_, fun _ _ _ => ⟨rfl, rfl⟩, ?_⟩
  all_goals intros; contradiction

theorem wires (h : Continues r₀ r sent closes flows) (hwires : r₀.Wires) : r.Wires :=
  h.kept.wires hwires

theorem streaming (h : Continues r₀ r sent closes flows) (hwires : r₀.Wires) : r.Streaming := by
  refine (h.wires hwires).streaming fun k egress hstream hroute => hstream ?_
  rw [h.current]
  cases hf : flows k with
  | none => rfl
  | some f =>
    rw [Option.bind_some]
    split
    · have hnone := h.routed k f hf egress
      rw [← h.kept.flowRoute, hroute] at hnone
      exact Option.not_isSome_iff_eq_none.mp (by simp [hnone])
    · rfl

/-- The stream of a session belongs to one flow, and what is on it is not nothing. -/
theorem sent_ne_nil (h : Continues r₀ r sent closes flows) {f : Flow} {egress : PeerSessionId}
    {streamId : UInt64} (hf : flows k = some f) (hstream : f.streams egress = some streamId) :
    sent egress streamId ≠ [] := by
  rw [(h.onStream k f egress streamId hf hstream).1]
  intro hnil
  have hlength := length_bytes (h.newStream k f hf) ((r₀.flowRoute k egress).getD 0)
  rw [hnil, List.length_nil] at hlength
  omega

/-- What is on a stream comes from a flow. -/
theorem exists_of_sent (h : Continues r₀ r sent closes flows) {egress : PeerSessionId}
    {streamId : UInt64} (hsent : sent egress streamId ≠ []) :
    ∃ k f, flows k = some f ∧ f.streams egress = some streamId := by
  by_contra hnone
  push Not at hnone
  exact hsent (h.noStream egress streamId fun k f hf => hnone k f hf).1

/-- The stream that a call is about. -/
theorem target (h : Continues r₀ r sent closes flows) {f : Flow}
    (hchange : FlowChange r k c (flows k) f) (egress : PeerSessionId) :
    c.target r k egress = f.streams egress := by
  generalize hflow : flows k = f? at hchange
  cases hchange with
  | starts hc _ =>
    rw [hc]
    rfl
  | goesOn hopen _ hstreams _ htarget =>
    rw [htarget, h.current, hflow, Option.bind_some, if_pos hopen, hstreams]

theorem routed_of_change (h : Continues r₀ r sent closes flows) {f : Flow}
    (hchange : FlowChange r k c (flows k) f) (egress : PeerSessionId) :
    (f.streams egress).isSome = (r₀.flowRoute k egress).isSome := by
  generalize hflow : flows k = f? at hchange
  cases hchange with
  | starts _ _ => rw [Option.isSome_map, h.kept.flowRoute]
  | goesOn _ _ hstreams _ _ =>
    rw [hstreams]
    exact h.routed k _ hflow egress

theorem newStream_of_change (h : Continues r₀ r sent closes flows) {f : Flow}
    (hchange : FlowChange r k c (flows k) f) : f.header.type = .newStream := by
  generalize hflow : flows k = f? at hchange
  cases hchange with
  | starts _ htype => exact htype
  | goesOn _ hheader _ _ _ =>
    rw [hheader]
    exact h.newStream k _ hflow

/-- What is on the streams of a flow before a call about it. -/
theorem before (h : Continues r₀ r sent closes flows) (hunused : Unused sent c) {f : Flow}
    (hchange : FlowChange r k c (flows k) f) {egress : PeerSessionId} {streamId : UInt64}
    (hstream : f.streams egress = some streamId) :
    sent egress streamId ++ (c.bytes ((r₀.flowRoute k egress).getD 0)).flatten =
        f.bytes ((r₀.flowRoute k egress).getD 0) ∧
      closes egress streamId = [] ∧
      ∀ k' f', flows k' = some f' → f'.streams egress = some streamId → k' = k := by
  generalize hflow : flows k = f? at hchange
  cases hchange with
  | starts hc _ =>
    subst hc
    obtain ⟨snsId, -, rfl⟩ := Option.map_eq_some_iff.mp hstream
    have hnil := hunused egress snsId
    -- No flow has the stream, since nothing has been sent on it.
    have hnone : ∀ k' f', flows k' = some f' → f'.streams egress ≠ some _ :=
      fun k' f' hf' hstream' => h.sent_ne_nil hf' hstream' hnil
    refine ⟨?_, (h.noStream _ _ hnone).2, fun k' f' hf' hstream' => ?_⟩
    · rw [hnil]
      simp [FlowCall.bytes, Flow.bytes]
    · exact absurd hstream' (hnone k' f' hf')
  | goesOn hopen hheader hstreams hpayload _ =>
    rw [hstreams] at hstream
    obtain ⟨hsent, hcloses⟩ := h.onStream k _ egress streamId hflow hstream
    refine ⟨?_, by rw [hcloses, hopen]; rfl, fun k' f' hf' hstream' =>
      h.one k' k f' _ egress streamId hf' hflow hstream' hstream⟩
    rw [hsent, Flow.bytes, Flow.bytes, hheader, hpayload ((r₀.flowRoute k egress).getD 0),
      List.append_assoc]

/-- A stream that a flow had, it has after a call about it. -/
theorem streams_of_change {f f' : Flow} (hchange : FlowChange r k c (flows k) f)
    (hf' : flows k = some f') : f.streams = f'.streams := by
  rw [hf'] at hchange
  cases hchange with
  | goesOn _ _ hstreams _ _ => exact hstreams

/-- A call about a flow, and the streams after it. -/
theorem call (h : Continues r₀ r sent closes flows) (hstep : FlowStep r k c r' out)
    (hfits : Fits (flows k) c) (hunused : Unused sent c) :
    Continues r₀ r'
      (fun egress streamId =>
        sent egress streamId ++ (out.filterMap (StreamOut.dataOn egress streamId)).flatten)
      (fun egress streamId =>
        closes egress streamId ++ out.filterMap (StreamOut.closeOn egress streamId))
      (Function.update flows k (flowAfter r k (flows k) c)) := by
  obtain ⟨f, hf, hclosed, hchange⟩ := exists_flowAfter hfits r k
  have htarget := h.target hchange
  have hbefore : ∀ egress streamId, f.streams egress = some streamId → _ :=
    fun egress streamId hs => h.before hunused hchange hs
  have hroute := h.kept.flowRoute k
  have hsent := hstep.sent
  have hcloses := hstep.closed
  simp only [htarget, hroute] at hsent hcloses
  rw [hf]
  have hold : ∀ {k' f'}, k' ≠ k → Function.update flows k (some f) k' = some f' →
      flows k' = some f' := fun hne hf' => by rwa [Function.update_of_ne hne] at hf'
  have hself : ∀ {f'}, Function.update flows k (some f) k = some f' → f' = f := fun hf' => by
    rw [Function.update_self] at hf'
    exact (Option.some.inj hf').symm
  refine ⟨h.kept.trans hstep.kept, fun k' egress => ?_, fun k' f' hf' egress => ?_,
    fun k' f' hf' => ?_, fun k' f' egress streamId hf' hstream => ?_, fun egress streamId hnone => ?_,
    fun k₁ k₂ f₁ f₂ egress streamId hf₁ hf₂ hs₁ hs₂ => ?_⟩
  · rw [hstep.streams]
    by_cases hk : k' = k
    · subst hk
      rw [if_pos rfl, Function.update_self, Option.bind_some, hclosed]
      cases c with
      | start createStream header payload => exact htarget egress
      | more data => exact htarget egress
      | close reset => rfl
    · rw [if_neg hk, Function.update_of_ne hk, h.current]
  · by_cases hk : k' = k
    · subst hk
      rw [hself hf']
      exact h.routed_of_change hchange egress
    · exact h.routed k' f' (hold hk hf') egress
  · by_cases hk : k' = k
    · subst hk
      rw [hself hf']
      exact h.newStream_of_change hchange
    · exact h.newStream k' f' (hold hk hf')
  · rw [hsent, hcloses]
    by_cases hk : k' = k
    · subst hk
      obtain rfl := hself hf'
      obtain ⟨hbytes, hnil, -⟩ := hbefore egress streamId hstream
      rw [if_pos hstream, if_pos hstream, hbytes, hnil, hclosed]
      refine ⟨rfl, ?_⟩
      cases c <;> rfl
    · have hf₀ := hold hk hf'
      have hne : f.streams egress ≠ some streamId := fun hs =>
        hk ((hbefore egress streamId hs).2.2 k' f' hf₀ hstream)
      rw [if_neg hne, if_neg hne, List.flatten_nil, List.append_nil, List.append_nil]
      exact h.onStream k' f' egress streamId hf₀ hstream
  · have hne : f.streams egress ≠ some streamId := hnone k f (Function.update_self ..)
    have hnone₀ : ∀ k' f', flows k' = some f' → f'.streams egress ≠ some streamId := by
      intro k' f' hf'
      by_cases hk : k' = k
      · subst hk
        rw [← streams_of_change hchange hf']
        exact hne
      · exact hnone k' f' (by rwa [Function.update_of_ne hk])
    rw [hsent, hcloses, if_neg hne, if_neg hne, List.flatten_nil, List.append_nil, List.append_nil]
    exact h.noStream egress streamId hnone₀
  · by_cases hk₁ : k₁ = k
    · subst hk₁
      by_cases hk₂ : k₂ = k₁
      · exact hk₂.symm
      · rw [hself hf₁] at hs₁
        exact ((hbefore egress streamId hs₁).2.2 k₂ f₂ (hold hk₂ hf₂) hs₂).symm
    · by_cases hk₂ : k₂ = k
      · subst hk₂
        rw [hself hf₂] at hs₂
        exact (hbefore egress streamId hs₂).2.2 k₁ f₁ (hold hk₁ hf₁) hs₁
      · exact h.one k₁ k₂ f₁ f₂ egress streamId (hold hk₁ hf₁) (hold hk₂ hf₂) hs₁ hs₂

end Continues

end Laps.Multicast
