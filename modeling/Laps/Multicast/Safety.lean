import Laps.Multicast.Carried

/-! No relay of the net comes to undefined behaviour, and what a stream carries is what one publisher
has handed over of one subgroup, from its start on, in whatever order and pieces the data come in. -/

namespace Laps.Multicast

open Std Client Flood Peering Pipes Relay

section Steps

variable {ν δ : Type*} {g : PeeringGraph ν δ} {m : Moqt} {relays : ν → ClientRelay}
  {net net' : DataNet ν δ} {flows : ν → Flows}

theorem dataInv_start (hsettled : ∀ n, Settled (relays n).relay) :
    DataInv g m relays (startNet relays) fun _ _ => none := by
  refine ⟨fun n => ⟨_, rfl, .start (hsettled n)⟩, fun d s => Nat.zero_le _, fun d s => ?_, ?_, ?_,
    ?_, ?_, ?_⟩
  · exact .inl ⟨rfl, fun _ => rfl⟩
  · intro d s f snsId hf
    cases hf
  · intro d s hended
    cases hended
  · intro d s hwritten
    exact absurd rfl hwritten
  · intro d snsId s f hf
    cases hf
  · intro n k f hf
    cases hf

theorem DataInv.peer (h : DataInv g m relays net flows) {n : ν} {p : DataPeer}
    (hp : net.nodes n = some p) : Refines (relays n).relay p (flows n) := by
  obtain ⟨p', hp', hrefines⟩ := h.node n
  rw [hp, Option.some.injEq] at hp'
  rwa [hp']

/-- The streams of a flow that goes on are not new. -/
theorem fresh_of_goesOn (h : DataInv g m relays net flows) {n : ν} {p : DataPeer}
    (hp : net.nodes n = some p) {k : FlowKey} {f : Flow} (hf : flows n k = some f) (d : δ)
    (s : UInt64) (hstream : f.streams (g.sessionId d) = some s) :
    p.sent (g.sessionId d) s ≠ [] ∨
      net.written g.toTopology (dataProtocol g m) (g.opposite d) s = [] :=
  .inl ((h.peer hp).continues.sent_ne_nil hf hstream)

/-- The flow of a stream that has been read and has not ended is open. -/
theorem DataInv.opened (h : DataInv g m relays net flows) {d : δ} {s : UInt64}
    (hended : net.ended d s = false) {f : Flow} {snsId : SubscribeNodeSetId}
    (hf : flows (g.node d) (.peer ⟨g.sessionId d, snsId, s⟩) = some f) : f.closed = none := by
  rw [h.ended d s f snsId hf, hended]
  rfl

/-- A stream without a flow has no context. -/
theorem DataInv.ctx_of_no_flow (h : DataInv g m relays net flows) {d : δ} {s : UInt64} {p : DataPeer}
    (hp : net.nodes (g.node d) = some p)
    (hnone : ∀ snsId, flows (g.node d) (.peer ⟨g.sessionId d, snsId, s⟩) = none) :
    p.rxCtx (g.sessionId d) s = none := by
  by_contra hsome
  obtain ⟨header, hheader⟩ := Option.ne_none_iff_exists'.mp hsome
  obtain ⟨f, hf, -⟩ := (h.peer hp).flow_of_ctx hheader
  rw [hnone] at hf
  cases hf

variable [DecidableEq ν] [DecidableEq δ]

/-- A publisher hands something over. -/
theorem DataInv.input (h : DataInv g m relays net flows) (hwires : ∀ n, (relays n).relay.Wires)
    (hapart : ∀ d, g.node (g.opposite d) ≠ g.node d) {n : ν} {i : PublisherInput}
    (hadmits : Admits g m net (.input n i)) :
    ∃ flows', DataInv g m relays (net.set n ((dataProtocol g m).input n i (net.nodes n))) flows' := by
  obtain ⟨p, hp, hrefines⟩ := h.node n
  have hextends := p.extends_apply i
  have hinput : (dataProtocol g m).input n i (net.nodes n) = some (i.apply p) := by
    rw [hp]
    rfl
  rw [hinput]
  cases i with
  | clientDataRecv createStream chunk =>
    have hsubgroup : subgroupAt net n chunk.trackFullNameHash chunk.inStreamId =
        p.published chunk.trackFullNameHash chunk.inStreamId := by
      rw [subgroupAt, hp, Option.bind_some]
    rw [Admits, hsubgroup] at hadmits
    have hpublished := hrefines.published chunk.trackFullNameHash chunk.inStreamId
    cases hflow : flows n (.own chunk.trackFullNameHash chunk.inStreamId) with
    | none =>
      rw [hflow, Option.map_none] at hpublished
      rw [hpublished] at hadmits
      obtain ⟨htype, hfresh⟩ := hadmits
      obtain ⟨streams, hmade, hafter⟩ := hrefines.clientDataRecv_start (hwires n) htype hpublished
        (hfresh.own p hp)
      refine ⟨_, Move.own_inv ⟨hp, hafter, hextends, fun f₀ hf₀ => ?_, fun d s hd hs => ?_⟩ h
        hapart⟩
      · rw [hflow] at hf₀
        cases hf₀
      · obtain ⟨snsId, rfl⟩ := hmade _ _ hs
        exact .inr (hfresh.opposite d hd snsId)
    | some f =>
      rw [hflow, Option.map_some] at hpublished
      rw [hpublished] at hadmits
      obtain ⟨htype, hopen⟩ := hadmits
      have hafter := hrefines.clientDataRecv_more (hwires n) htype hflow hopen createStream
      refine ⟨_, Move.own_inv ⟨hp, hafter, hextends, fun f₀ hf₀ => ?_, fun d s _ hs =>
        fresh_of_goesOn h hp hflow d s hs⟩ h hapart⟩
      rw [hflow, Option.some.injEq] at hf₀
      subst hf₀
      exact ⟨rfl, rfl, List.prefix_append .., fun hne => absurd hopen hne⟩
  | endSubgroup track groupId subgroupId reset =>
    obtain ⟨subgroup, hsubgroup, hopen⟩ := hadmits
    rw [subgroupAt, hp, Option.bind_some, hrefines.published] at hsubgroup
    obtain ⟨f, hflow, rfl⟩ := Option.map_eq_some_iff.mp hsubgroup
    have hafter := hrefines.endSubgroup (hwires n) hflow hopen reset
    refine ⟨_, Move.own_inv ⟨hp, hafter, hextends, fun f₀ hf₀ => ?_, fun d s _ hs =>
      fresh_of_goesOn h hp hflow d s hs⟩ h hapart⟩
    rw [hflow, Option.some.injEq] at hf₀
    subst hf₀
    exact ⟨rfl, rfl, List.prefix_rfl, fun hne => absurd hopen hne⟩

/-- The flow at the other end of a stream with data under way, and what it has there. -/
theorem DataInv.sender (h : DataInv g m relays net flows) {d : δ} {s : UInt64}
    (hunread : net.received g.toTopology (dataProtocol g m) d s ++
      net.unread g.toTopology (dataProtocol g m) d s ≠ []) :
    ∃ k f snsId, flows (g.node (g.opposite d)) k = some f ∧
      f.streams (g.sessionId (g.opposite d)) = some s ∧
      net.received g.toTopology (dataProtocol g m) d s ++
        net.unread g.toTopology (dataProtocol g m) d s = f.bytes snsId ∧
      net.close g.toTopology (dataProtocol g m) d s = f.closed ∧ f.header.type = .newStream := by
  rw [Net.received_append_unread] at hunread
  obtain ⟨k, f, hf, hstream, hbytes, hclose, htype⟩ := h.upstream hunread
  exact ⟨k, f, _, hf, hstream, by rw [Net.received_append_unread, hbytes], hclose, htype⟩

/-- What is needed of a piece that comes in: it is the next one, and the node goes on with it. -/
structure Comes (g : PeeringGraph ν δ) (m : Moqt) (net : DataNet ν δ) (d : δ) (s : UInt64)
    (count : ℕ) (env : HandlerEnv) (p : DataPeer) : Prop where
  node : net.nodes (g.node d) = some p
  ended : net.ended d s = false
  count_le : count ≤ (net.unread g.toTopology (dataProtocol g m) d s).length
  takes : p.Takes m env (g.sessionId d) s
    ((net.unread g.toTopology (dataProtocol g m) d s).take count)

/-- The net after a piece has come in. -/
def netAfter (g : PeeringGraph ν δ) (net : DataNet ν δ) (d : δ) (s : UInt64) (count : ℕ)
    (p : DataPeer) : DataNet ν δ :=
  { net.set (g.node d) (some p) with read := update₂ net.read d s (net.read d s + count) }

/-- The first piece of a stream comes in, with its header. -/
theorem DataInv.receive_first (h : DataInv g m relays net flows)
    (hwires : ∀ n, (relays n).relay.Wires)
    (hapart : ∀ d, g.node (g.opposite d) ≠ g.node d) {d : δ} {s : UInt64} {count : ℕ}
    {env : HandlerEnv} {p : DataPeer} (hcomes : Comes g m net d s count env p)
    (hheader : 19 ≤ count) (hfresh : Fresh g m net (g.node d) env.createStream)
    (hnil : net.received g.toTopology (dataProtocol g m) d s = [])
    (hnone : ∀ snsId, flows (g.node d) (.peer ⟨g.sessionId d, snsId, s⟩) = none) {k : FlowKey}
    {f : Flow} {snsId : SubscribeNodeSetId} (hf : flows (g.node (g.opposite d)) k = some f)
    (hstream : f.streams (g.sessionId (g.opposite d)) = some s)
    (hbytes : net.unread g.toTopology (dataProtocol g m) d s = f.bytes snsId)
    (htype : f.header.type = .newStream) :
    ∃ p', p.onRecvStream m env (g.sessionId d) s
        ((net.unread g.toTopology (dataProtocol g m) d s).take count) = some p' ∧
      ∃ flows', DataInv g m relays (netAfter g net d s count p') flows' := by
  obtain ⟨hp, hended, hcount, htakes⟩ := hcomes
  have hrefines := h.peer hp
  have hctx := h.ctx_of_no_flow hp hnone
  let header : DataHeader := { f.header with snsId }
  have hlength : header.serialize.length = 19 := length_newStream htype
  have hcut : (net.unread g.toTopology (dataProtocol g m) d s).take count =
      header.serialize ++ f.payload.take (count - 19) := by
    have htake : header.serialize.take count = header.serialize :=
      List.take_of_length_le (by rw [hlength]; exact hheader)
    rw [hbytes]
    show (header.serialize ++ f.payload).take count = _
    rw [List.take_append, htake, hlength]
  have htype' : header.type = .newStream := htype
  rw [hcut] at htakes
  obtain ⟨p', streams, hp', hextend, hmade, hafter⟩ := hrefines.onRecvStream_start (hwires _)
    htype' hctx (hfresh.own p hp) htakes
  rw [← hcut] at hp'
  let f' : Flow :=
    { header := { header with headerLen := 19 }, payload := f.payload.take (count - 19), streams }
  have hmove : Move g m relays net flows (g.node d) p p'
      (.peer ⟨g.sessionId d, snsId, s⟩) f' := by
    refine ⟨hp, hafter, hextend, fun f₀ hf₀ => ?_, fun d' s' hd' hs' => ?_⟩
    · rw [hnone] at hf₀
      cases hf₀
    · obtain ⟨snsId', rfl⟩ := hmade _ _ hs'
      exact .inr (hfresh.opposite d' hd' snsId')
  have hcarries : f'.Carries f := by
    refine ⟨rfl, List.take_prefix .., fun _ hreset => ?_, fun hreset => ?_⟩
    · cases hreset
    · cases hreset
  obtain ⟨hreads, hnow, hothers⟩ := h.reads.received_receive hcount hmove.appends
  refine ⟨p', hp', _, hmove.peer_inv h hapart rfl hreads rfl ?_
    (fun d' s' hne => ⟨hothers d' s' hne, rfl⟩) ?_ ?_ ⟨k, f, hf, hstream, hcarries⟩⟩
  · refine hnow.trans ?_
    rw [hnil, List.nil_append, hcut]
    rfl
  · show none = if net.ended d s then _ else _
    rw [hended]
    rfl
  · intro hended'
    exact absurd (hended.symm.trans hended') (by simp)

/-- A piece of a stream that has a flow comes in. -/
theorem DataInv.receive_next (h : DataInv g m relays net flows)
    (hwires : ∀ n, (relays n).relay.Wires)
    (hapart : ∀ d, g.node (g.opposite d) ≠ g.node d) {d : δ} {s : UInt64} {count : ℕ}
    {env : HandlerEnv} {p : DataPeer} (hcomes : Comes g m net d s count env p) {f₁ : Flow}
    (hf₁ : flows (g.node d) (.peer ⟨g.sessionId d, f₁.header.snsId, s⟩) = some f₁)
    (hreceived : net.received g.toTopology (dataProtocol g m) d s = f₁.bytes f₁.header.snsId)
    {k : FlowKey} {f : Flow} {snsId : SubscribeNodeSetId}
    (hf : flows (g.node (g.opposite d)) k = some f)
    (hstream : f.streams (g.sessionId (g.opposite d)) = some s)
    (hbytes : net.received g.toTopology (dataProtocol g m) d s ++
      net.unread g.toTopology (dataProtocol g m) d s = f.bytes snsId)
    (htype : f.header.type = .newStream) :
    ∃ p', p.onRecvStream m env (g.sessionId d) s
        ((net.unread g.toTopology (dataProtocol g m) d s).take count) = some p' ∧
      ∃ flows', DataInv g m relays (netAfter g net d s count p') flows' := by
  obtain ⟨hp, hended, hcount, htakes⟩ := hcomes
  have hrefines := h.peer hp
  have hopen := h.opened hended hf₁
  set piece := (net.unread g.toTopology (dataProtocol g m) d s).take count with hpiece
  obtain ⟨p', hp', hextend, hafter⟩ := hrefines.onRecvStream_more (hwires _) hf₁ hopen htakes
  let f' : Flow := { f₁ with payload := f₁.payload ++ piece }
  have hmove : Move g m relays net flows (g.node d) p p'
      (.peer ⟨g.sessionId d, f₁.header.snsId, s⟩) f' := by
    refine ⟨hp, hafter, hextend, fun f₀ hf₀ => ?_, fun d' s' _ hs' =>
      fresh_of_goesOn h hp hf₁ d' s' hs'⟩
    rw [hf₁, Option.some.injEq] at hf₀
    subst hf₀
    exact ⟨rfl, rfl, List.prefix_append .., fun hne => absurd hopen hne⟩
  obtain ⟨hreads, hnow, hothers⟩ := h.reads.received_receive hcount hmove.appends
  have hbytes' : f₁.bytes f₁.header.snsId ++ piece = f'.bytes f₁.header.snsId :=
    List.append_assoc ..
  have hcarries : f'.Carries f := by
    have hprefix : f'.bytes f₁.header.snsId <+: f.bytes snsId := by
      rw [← hbytes, ← hbytes', hreceived]
      exact List.prefix_append_right_inj _ |>.mpr (List.take_prefix ..)
    have htype' : f'.header.type = .newStream := hrefines.continues.newStream _ f₁ hf₁
    obtain ⟨hheader, -, hpayload⟩ := carries_of_bytes htype' htype hprefix
    refine ⟨hheader, hpayload, fun reset hreset => ?_, fun hreset => ?_⟩
    · exact absurd (hopen.symm.trans hreset) (by simp)
    · exact absurd (hopen.symm.trans hreset) (by simp)
  refine ⟨p', hp', _, hmove.peer_inv h hapart rfl hreads rfl ?_
    (fun d' s' hne => ⟨hothers d' s' hne, rfl⟩) ?_ ?_ ⟨k, f, hf, hstream, hcarries⟩⟩
  · refine hnow.trans ?_
    rw [hreceived, ← hpiece, hbytes']
  · show f₁.closed = if net.ended d s then _ else _
    rw [hopen, hended]
    rfl
  · intro hended'
    exact absurd (hended.symm.trans hended') (by simp)

/-- The next piece of a stream comes in. -/
theorem DataInv.receive (h : DataInv g m relays net flows) (hwires : ∀ n, (relays n).relay.Wires)
    (hapart : ∀ d, g.node (g.opposite d) ≠ g.node d) {d : δ} {s : UInt64} {count : ℕ}
    {env : HandlerEnv} (hadmits : Admits g m net (.receive d s count env))
    (hstep : step g.toTopology (dataProtocol g m) net (.receive d s count env) = some net') :
    ∃ flows', DataInv g m relays net' flows' := by
  obtain ⟨⟨hended, hpos, hcount⟩, rfl⟩ := step_receive.mp hstep
  obtain ⟨hfirst, htakes⟩ := hadmits
  obtain ⟨p, hp, -⟩ := h.node (g.node d)
  have hcomes : Comes g m net d s count env p := ⟨hp, hended, hcount, htakes p hp⟩
  have hunread : net.unread g.toTopology (dataProtocol g m) d s ≠ [] := by
    intro hnil
    rw [hnil, List.length_nil] at hcount
    omega
  obtain ⟨k, f, snsId, hf, hstream, hbytes, -, htype⟩ := h.sender
    (fun hnil => hunread (List.append_eq_nil_iff.mp hnil).2)
  obtain ⟨p', hp', hinv⟩ : ∃ p', p.onRecvStream m env (g.sessionId d) s
      ((net.unread g.toTopology (dataProtocol g m) d s).take count) = some p' ∧
        ∃ flows', DataInv g m relays (netAfter g net d s count p') flows' := by
    rcases h.received d s with ⟨hnil, hnone⟩ | ⟨f₁, hf₁, hreceived⟩
    · have hread : net.read d s = 0 := by
        refine (List.take_eq_nil_iff.mp hnil).resolve_right fun hwritten => hunread ?_
        rw [Net.unread, hwritten, List.drop_nil]
      obtain ⟨hheader, hfresh⟩ := hfirst hread
      rw [hnil, List.nil_append] at hbytes
      exact h.receive_first hwires hapart hcomes hheader hfresh hnil hnone hf hstream hbytes htype
    · exact h.receive_next hwires hapart hcomes hf₁ hreceived hf hstream hbytes htype
  have hreceive : (dataProtocol g m).receive d s env
      ((net.unread g.toTopology (dataProtocol g m) d s).take count) (net.nodes (g.node d)) =
        some p' := by
    rw [hp]
    exact hp'
  rw [hreceive]
  exact hinv

/-- The close of a stream comes in. -/
theorem DataInv.closed (h : DataInv g m relays net flows) (hwires : ∀ n, (relays n).relay.Wires)
    (hapart : ∀ d, g.node (g.opposite d) ≠ g.node d) {d : δ} {s : UInt64}
    (hadmits : Admits g m net (.closed d s))
    (hstep : step g.toTopology (dataProtocol g m) net (.closed d s) = some net') :
    ∃ flows', DataInv g m relays net' flows' := by
  obtain ⟨reset, hreset, ⟨hended, hwhole⟩, rfl⟩ := step_closed.mp hstep
  obtain ⟨hpos, hreleases⟩ := hadmits
  obtain ⟨p, hp, hrefines⟩ := h.node (g.node d)
  have hwritten : net.written g.toTopology (dataProtocol g m) (g.opposite d) s ≠ [] := by
    intro hnil
    have hread := h.reads d s
    rw [hnil, List.length_nil] at hread
    exact absurd hpos (Nat.not_lt.mpr hread)
  have hreceived : net.received g.toTopology (dataProtocol g m) d s ≠ [] := by
    intro hnil
    obtain hread | hnil := List.take_eq_nil_iff.mp hnil
    · exact absurd hpos (by rw [hread]; omega)
    · exact hwritten hnil
  rcases h.received d s with ⟨hnil, -⟩ | ⟨f₁, hf₁, hreceived₁⟩
  · exact absurd hnil hreceived
  have hopen := h.opened hended hf₁
  have hfree : p.sent (g.sessionId d) s = [] := by
    have hdisjoint := h.disjoint (g.opposite d) s hwritten
    rwa [g.opposite_opposite, written_eq hp] at hdisjoint
  obtain ⟨p', hp', hextend, hafter⟩ := hrefines.onStreamClosed (hwires _) hf₁ hopen hfree
    (hreleases p hp) reset
  have hclosed : (dataProtocol g m).closed d s reset (net.nodes (g.node d)) = some p' := by
    rw [hp]
    exact hp'
  obtain ⟨k, f, snsId, hf, hstream, hbytes, hclose, htype⟩ := h.sender
    (fun hnil => hreceived (List.append_eq_nil_iff.mp hnil).1)
  let f' : Flow := { f₁ with closed := some reset }
  have hmove : Move g m relays net flows (g.node d) p p'
      (.peer ⟨g.sessionId d, f₁.header.snsId, s⟩) f' := by
    refine ⟨hp, hafter, hextend, fun f₀ hf₀ => ?_, fun d' s' _ hs' =>
      fresh_of_goesOn h hp hf₁ d' s' hs'⟩
    rw [hf₁, Option.some.injEq] at hf₀
    subst hf₀
    exact ⟨rfl, rfl, List.prefix_rfl, fun hne => absurd hopen hne⟩
  have hcarries : f'.Carries f := by
    rw [hreceived₁] at hbytes
    have htype₁ := hrefines.continues.newStream _ f₁ hf₁
    obtain ⟨hheader, -, hpayload⟩ := carries_of_bytes htype₁ htype ⟨_, hbytes⟩
    refine ⟨hheader, hpayload, fun reset' hreset' => ?_, fun hfin => ?_⟩
    · rw [← hclose, hreset]
      exact hreset'
    · have hreset' : reset = false := Option.some.inj hfin
      rw [hreset', Bool.false_eq_true, false_or] at hwhole
      rw [hwhole, List.append_nil] at hbytes
      have hlength := congrArg List.length hbytes
      rw [length_bytes htype₁, length_bytes htype] at hlength
      exact hpayload.eq_of_length (Nat.add_left_cancel hlength)
  rw [hclosed]
  obtain ⟨hreads, hnow⟩ := h.reads.received_closed (update₂ net.ended d s true) hmove.appends
  have hstays : ∀ ended, ({ net.set (g.node d) (some p') with ended } : DataNet ν δ).close
      g.toTopology (dataProtocol g m) d s = some reset := fun ended => by
    rw [← hreset]
    exact hmove.close rfl (by rw [hreset]; simp)
  refine ⟨_, hmove.peer_inv h hapart rfl hreads rfl ?_
    (fun d' s' hne => ⟨hnow d' s', update₂_of_ne _ _ hne⟩) ?_ ?_ ⟨k, f, hf, hstream, hcarries⟩⟩
  · rw [hnow, hreceived₁]
    rfl
  · show some reset = if update₂ net.ended d s true d s then _ else _
    rw [update₂_self, if_pos rfl, hstays]
  · intro _
    rw [hstays]
    simp

/-- Every step that is allowed keeps the invariant. -/
theorem DataInv.step (h : DataInv g m relays net flows) (hwires : ∀ n, (relays n).relay.Wires)
    (hapart : ∀ d, g.node (g.opposite d) ≠ g.node d) {label : DataLabel ν δ}
    (hadmits : Admits g m net label)
    (hstep : Pipes.step g.toTopology (dataProtocol g m) net label = some net') :
    ∃ flows', DataInv g m relays net' flows' := by
  cases label with
  | input n i =>
    cases hstep
    exact h.input hwires hapart hadmits
  | receive d s count env => exact h.receive hwires hapart hadmits hstep
  | closed d s => exact h.closed hwires hapart hadmits hstep

theorem DataRun.inv (h : DataRun g m relays net) : ∃ flows, DataInv g m relays net flows := by
  obtain ⟨hsettled, hapart, hreachable⟩ := h
  induction hreachable with
  | start => exact ⟨_, dataInv_start hsettled⟩
  | step _ _ hadmits hstep ih =>
    obtain ⟨flows, hinv⟩ := ih
    exact hinv.step (fun n => (hsettled n).wires) hapart hadmits hstep

end Steps

/-! ### What the streams carry -/

section Safe

variable {ν δ : Type*} {g : PeeringGraph ν δ} {m : Moqt} {relays : ν → ClientRelay}
  {net : DataNet ν δ} {flows : ν → Flows}

/-- The stream that comes in carries the subgroup: its header but for what differs from session to
session, and its data up to some point, and whole when it has ended without a reset.  The clients of
the relay are handed what is for them, and nothing else. -/
structure Delivery (g : PeeringGraph ν δ) (m : Moqt) (relays : ν → ClientRelay) (net : DataNet ν δ)
    (p : DataPeer) (d : δ) (s : UInt64) (header : DataHeader) (subgroup : Published) (payload : List UInt8) :
    Prop where
  sameHeader : plain header = plain subgroup.header
  received : net.received g.toTopology (dataProtocol g m) d s = header.serialize ++ payload
  fromStart : payload <+: subgroup.payload
  ended : net.ended d s = true → subgroup.reset ≠ none ∧
    (subgroup.reset = some false → payload = subgroup.payload)
  handed : p.handed (g.sessionId d) s =
    if (relays (g.node d)).relay.Target (g.sessionId d) header then payload else []
  handedCloses : p.handedCloses (g.sessionId d) s =
    if (relays (g.node d)).relay.ForClients (g.sessionId d) header.snsId ∧ net.ended d s = true
    then subgroup.reset.toList else []

variable [DecidableEq ν] [DecidableEq δ]

end Safe

/-! ### A chain of relays -/

end Laps.Multicast
