import Laps.Multicast.Flows

/-! Each relay of the net does to its streams what the flows say, whatever it is given. -/

namespace Laps.Multicast

open Std Client Peering Pipes Relay

/-- What a publisher has handed over, of a flow of its own. -/
def Flow.subgroup (f : Flow) : Published := ⟨f.header, f.payload, f.closed⟩

/-- A relay that started with `r₀` has the flows. -/
structure Refines (r₀ : Relay) (p : DataPeer) (flows : Flows) : Prop where
  continues : Continues r₀ p.relay p.sent p.closes flows
  ctx : ∀ ingress streamId snsId, (flows (.peer ⟨ingress, snsId, streamId⟩)).map Flow.header =
    (p.rxCtx ingress streamId).filter fun header => header.snsId = snsId
  published : ∀ track key, p.published track key = (flows (.own track key)).map Flow.subgroup
  owns : ∀ track key f, flows (.own track key) = some f → f.header.trackFullNameHash = track
  handed : ∀ k f, flows (.peer k) = some f →
    p.handed k.ingress k.streamId =
        (if r₀.Target k.ingress f.header then f.payload else []) ∧
      p.handedCloses k.ingress k.streamId =
        if r₀.ForClients k.ingress k.snsId then f.closed.toList else []
  unhanded : ∀ ingress streamId, p.rxCtx ingress streamId = none →
    p.handed ingress streamId = [] ∧ p.handedCloses ingress streamId = []

/-- What has gone to the sessions stays. -/
structure DataPeer.Extends (p p' : DataPeer) : Prop where
  sent : ∀ egress streamId, p.sent egress streamId <+: p'.sent egress streamId
  closes : ∀ egress streamId, p.closes egress streamId <+: p'.closes egress streamId

theorem DataPeer.extends_apply (p : DataPeer) (i : PublisherInput) : p.Extends (i.apply p) := by
  cases i with
  | clientDataRecv createStream chunk =>
    exact ⟨fun _ _ => List.prefix_append .., fun _ _ => List.prefix_append ..⟩
  | endSubgroup track groupId subgroupId reset =>
    exact ⟨fun _ _ => List.prefix_append .., fun _ _ => List.prefix_append ..⟩

/-- New streams have the ids that the transport gives. -/
def MadeBy (createStream : CreateStream) (streams : PeerSessionId → Option UInt64) : Prop :=
  ∀ egress streamId, streams egress = some streamId → ∃ snsId, streamId = createStream egress snsId

theorem madeBy_map (createStream : CreateStream) (route : PeerSessionId → Option SubscribeNodeSetId) :
    MadeBy createStream fun egress => (route egress).map (createStream egress) := by
  intro egress streamId hstream
  obtain ⟨snsId, -, rfl⟩ := Option.map_eq_some_iff.mp hstream
  exact ⟨snsId, rfl⟩

namespace Refines

variable {r₀ r' : Relay} {n' : ClientRelay} {p : DataPeer} {flows : Flows} {c : FlowCall}
  {out : List StreamOut} {m : Moqt} {env : HandlerEnv}

theorem start {n : ClientRelay} (h : Settled n.relay) :
    Refines n.relay { toClientRelay := n } fun _ => none := by
  refine ⟨.start h, fun _ _ _ => rfl, fun _ _ => rfl, ?_, ?_, fun _ _ _ => ⟨rfl, rfl⟩⟩
  all_goals intros; contradiction

/-- The context of a stream has the header of its flow. -/
theorem ctx_of_flow (h : Refines r₀ p flows) {k : StreamKey} {f : Flow}
    (hf : flows (.peer k) = some f) :
    p.rxCtx k.ingress k.streamId = some f.header ∧ f.header.snsId = k.snsId := by
  have hctx := h.ctx k.ingress k.streamId k.snsId
  rw [hf, Option.map_some] at hctx
  obtain ⟨hsome, hsns⟩ := Option.filter_eq_some_iff.mp hctx.symm
  exact ⟨hsome, by simpa using hsns⟩

/-- A stream with a context has a flow. -/
theorem flow_of_ctx (h : Refines r₀ p flows) {ingress : PeerSessionId} {streamId : UInt64}
    {header : DataHeader} (hctx : p.rxCtx ingress streamId = some header) :
    ∃ f, flows (.peer ⟨ingress, header.snsId, streamId⟩) = some f ∧ f.header = header := by
  have hflow := h.ctx ingress streamId header.snsId
  rw [hctx, Option.filter_some_pos (by simp)] at hflow
  exact Option.map_eq_some_iff.mp hflow

/-- A stream without a context has no flow. -/
theorem no_flow (h : Refines r₀ p flows) {ingress : PeerSessionId} {streamId : UInt64}
    (hctx : p.rxCtx ingress streamId = none) (snsId : SubscribeNodeSetId) :
    flows (.peer ⟨ingress, snsId, streamId⟩) = none := by
  have hflow := h.ctx ingress streamId snsId
  rw [hctx, Option.filter_none, Option.map_eq_none_iff] at hflow
  exact hflow

/-- A call about a subgroup of a publisher. -/
theorem own_call (h : Refines r₀ p flows) {track key : UInt64}
    (hstep : FlowStep p.relay (.own track key) c r' out) (hfits : Fits (flows (.own track key)) c)
    (hunused : Unused p.sent c) {f : Flow}
    (hf : flowAfter p.relay (.own track key) (flows (.own track key)) c = some f)
    (htrack : f.header.trackFullNameHash = track) :
    Refines r₀
      { p.put { p.toClientRelay with relay := r' } out with
        published := update₂ p.published track key (some f.subgroup) }
      (Function.update flows (.own track key) (some f)) := by
  have hpeer : ∀ k, Function.update flows (.own track key) (some f) (.peer k) = flows (.peer k) :=
    fun k => Function.update_of_ne (by simp) ..
  refine ⟨?_, ?_, fun track' key' => ?_, fun track' key' f' hf' => ?_, ?_, h.unhanded⟩
  · have hcall := h.continues.call hstep hfits hunused
    rw [hf] at hcall
    exact hcall
  · simp only [hpeer]
    exact h.ctx
  · show update₂ p.published track key _ track' key' = _
    by_cases hk : track' = track ∧ key' = key
    · obtain ⟨rfl, rfl⟩ := hk
      rw [update₂_self, Function.update_self]
      rfl
    · rw [update₂_of_ne _ _ hk, Function.update_of_ne (by simpa using hk)]
      exact h.published track' key'
  · by_cases hk : track' = track ∧ key' = key
    · obtain ⟨rfl, rfl⟩ := hk
      rw [Function.update_self, Option.some.injEq] at hf'
      rw [← hf', htrack]
    · rw [Function.update_of_ne (by simpa using hk)] at hf'
      exact h.owns track' key' f' hf'
  · simp only [hpeer]
    exact h.handed

/-- A call about a stream of another relay. -/
theorem peer_call (h : Refines r₀ p flows) {k : StreamKey}
    (hstep : FlowStep p.relay (.peer k) c n'.relay out) (hfits : Fits (flows (.peer k)) c)
    (hunused : Unused p.sent c) {f : Flow}
    (hf : flowAfter p.relay (.peer k) (flows (.peer k)) c = some f)
    (hsns : f.header.snsId = k.snsId)
    (hctx : ∀ header, p.rxCtx k.ingress k.streamId = some header → header = f.header)
    {handed : List UInt8} {handedCloses : List Bool}
    (hhanded : handed = if r₀.Target k.ingress f.header then f.payload else [])
    (hcloses : handedCloses =
      if r₀.ForClients k.ingress k.snsId then f.closed.toList else []) :
    Refines r₀
      { p.put n' out with
        rxCtx := update₂ p.rxCtx k.ingress k.streamId (some f.header)
        handed := update₂ p.handed k.ingress k.streamId handed
        handedCloses := update₂ p.handedCloses k.ingress k.streamId handedCloses }
      (Function.update flows (.peer k) (some f)) := by
  have hown : ∀ track key, Function.update flows (.peer k) (some f) (.own track key) =
      flows (.own track key) := fun _ _ => Function.update_of_ne (by simp) ..
  -- The other ids of the node set have no flow on this stream.
  have hother : ∀ snsId, snsId ≠ k.snsId →
      flows (.peer ⟨k.ingress, snsId, k.streamId⟩) = none := by
    intro snsId hne
    have hflow := h.ctx k.ingress k.streamId snsId
    cases hold : p.rxCtx k.ingress k.streamId with
    | none => exact h.no_flow hold snsId
    | some header =>
      rw [hold, Option.filter_some_neg, Option.map_eq_none_iff] at hflow
      · exact hflow
      · rw [hctx header hold, hsns]
        simpa using hne.symm
  refine ⟨?_, fun ingress streamId snsId => ?_, fun track key => ?_, fun track key f' hf' => ?_,
    fun k' f' hf' => ?_, fun ingress streamId hnone => ?_⟩
  · have hcall := h.continues.call hstep hfits hunused
    rw [hf] at hcall
    exact hcall
  · show _ = (update₂ p.rxCtx k.ingress k.streamId _ ingress streamId).filter _
    by_cases hid : ingress = k.ingress ∧ streamId = k.streamId
    · obtain ⟨rfl, rfl⟩ := hid
      rw [update₂_self]
      by_cases heq : snsId = k.snsId
      · subst heq
        rw [Function.update_self, Option.map_some, Option.filter_some_pos (by simpa using hsns)]
      · rw [Function.update_of_ne fun hk => heq (congrArg StreamKey.snsId (FlowKey.peer.inj hk)),
          hother snsId heq, Option.filter_some_neg (by simpa [hsns] using Ne.symm heq)]
        rfl
    · rw [update₂_of_ne _ _ hid, Function.update_of_ne fun hk =>
        hid ⟨congrArg StreamKey.ingress (FlowKey.peer.inj hk),
          congrArg StreamKey.streamId (FlowKey.peer.inj hk)⟩]
      exact h.ctx ingress streamId snsId
  · rw [hown]
    exact h.published track key
  · rw [hown] at hf'
    exact h.owns track key f' hf'
  · show update₂ p.handed k.ingress k.streamId handed k'.ingress k'.streamId = _ ∧
      update₂ p.handedCloses k.ingress k.streamId handedCloses k'.ingress k'.streamId = _
    by_cases hk : k' = k
    · subst hk
      rw [Function.update_self, Option.some.injEq] at hf'
      subst hf'
      rw [update₂_self, update₂_self]
      exact ⟨hhanded, hcloses⟩
    · rw [Function.update_of_ne (by simpa using hk)] at hf'
      have hid : ¬(k'.ingress = k.ingress ∧ k'.streamId = k.streamId) := by
        rintro ⟨hingress, hstream⟩
        obtain ⟨ingress, snsId, streamId⟩ := k'
        obtain rfl : ingress = k.ingress := hingress
        obtain rfl : streamId = k.streamId := hstream
        rw [hother snsId fun heq => hk (by rw [heq])] at hf'
        cases hf'
      rw [update₂_of_ne _ _ hid, update₂_of_ne _ _ hid]
      exact h.handed k' f' hf'
  · have hid : ¬(ingress = k.ingress ∧ streamId = k.streamId) := by
      rintro ⟨rfl, rfl⟩
      have hsome : update₂ p.rxCtx k.ingress k.streamId (some f.header) k.ingress k.streamId =
        none := hnone
      rw [update₂_self] at hsome
      cases hsome
    have hold : update₂ p.rxCtx k.ingress k.streamId (some f.header) ingress streamId = none :=
      hnone
    rw [update₂_of_ne _ _ hid] at hold
    show update₂ p.handed k.ingress k.streamId handed ingress streamId = _ ∧
      update₂ p.handedCloses k.ingress k.streamId handedCloses ingress streamId = _
    rw [update₂_of_ne _ _ hid, update₂_of_ne _ _ hid]
    exact h.unhanded ingress streamId hold

theorem wires (h : Refines r₀ p flows) (hwires : r₀.Wires) : p.relay.Wires :=
  h.continues.wires hwires

theorem flowStream_eq_none (h : Refines r₀ p flows) {k : FlowKey} (hf : flows k = none)
    (egress : PeerSessionId) : p.relay.flowStream k egress = none := by
  rw [h.continues.current, hf, Option.bind_none]

theorem flowStream_eq_streams (h : Refines r₀ p flows) {k : FlowKey} {f : Flow}
    (hf : flows k = some f) (hopen : f.closed = none) (egress : PeerSessionId) :
    p.relay.flowStream k egress = f.streams egress := by
  rw [h.continues.current, hf, Option.bind_some, if_pos hopen]

/-- The first data of a subgroup start its flow. -/
theorem clientDataRecv_start (h : Refines r₀ p flows) (hwires : r₀.Wires) {chunk : Chunk}
    (htype : chunk.type = .newStream)
    (hnone : p.published chunk.trackFullNameHash chunk.inStreamId = none)
    {createStream : CreateStream}
    (hunused : ∀ egress snsId, p.sent egress (createStream egress snsId) = []) :
    ∃ streams, MadeBy createStream streams ∧ Refines r₀ (p.clientDataRecv createStream chunk)
      (Function.update flows (.own chunk.trackFullNameHash chunk.inStreamId)
        (some { header := chunk.header, payload := chunk.data, streams })) := by
  have hflow : flows (.own chunk.trackFullNameHash chunk.inStreamId) = none := by
    rw [h.published, Option.map_eq_none_iff] at hnone
    exact hnone
  have hstep : FlowStep p.relay _ (.start createStream chunk.header chunk.data) _ _ :=
    flowStep_clientDataRecv_start (h.wires hwires) htype (h.flowStream_eq_none hflow)
  have hrefines := h.own_call hstep ⟨hflow, htype⟩ hunused rfl rfl
  refine ⟨fun egress => (p.relay.flowRoute
    (.own chunk.trackFullNameHash chunk.inStreamId) egress).map (createStream egress),
    madeBy_map _ _, ?_⟩
  unfold DataPeer.clientDataRecv
  rw [hnone]
  exact hrefines

/-- More data of a subgroup go on with its flow. -/
theorem clientDataRecv_more (h : Refines r₀ p flows) (hwires : r₀.Wires) {chunk : Chunk}
    (htype : chunk.type = .existingStream) {f : Flow}
    (hf : flows (.own chunk.trackFullNameHash chunk.inStreamId) = some f) (hopen : f.closed = none)
    (createStream : CreateStream) :
    Refines r₀ (p.clientDataRecv createStream chunk)
      (Function.update flows (.own chunk.trackFullNameHash chunk.inStreamId)
        (some { f with payload := f.payload ++ chunk.data })) := by
  have hpublished := h.published chunk.trackFullNameHash chunk.inStreamId
  rw [hf, Option.map_some] at hpublished
  have hafter : flowAfter p.relay (.own chunk.trackFullNameHash chunk.inStreamId)
      (flows (.own chunk.trackFullNameHash chunk.inStreamId)) (.more chunk.data) =
        some { f with payload := f.payload ++ chunk.data } := by
    rw [hf]
    rfl
  have hstep : FlowStep p.relay _ (.more chunk.data) (p.relay.clientDataRecv createStream chunk).1 _ :=
    flowStep_clientDataRecv_more (h.wires hwires) htype fun egress hroute => by
      rw [h.flowStream_eq_streams hf hopen, h.continues.routed _ f hf,
        ← h.continues.kept.flowRoute]
      exact hroute
  have hrefines := h.own_call hstep ⟨f, hf, hopen⟩ trivial hafter (h.owns _ _ f hf)
  unfold DataPeer.clientDataRecv
  rw [hpublished]
  exact hrefines

/-- The end of a subgroup closes its flow. -/
theorem endSubgroup (h : Refines r₀ p flows) (hwires : r₀.Wires) {track groupId subgroupId : UInt64}
    {f : Flow} (hf : flows (.own track (inStreamId groupId subgroupId)) = some f)
    (hopen : f.closed = none) (reset : Bool) :
    Refines r₀ (p.endSubgroup track groupId subgroupId reset)
      (Function.update flows (.own track (inStreamId groupId subgroupId))
        (some { f with closed := some reset })) := by
  have hpublished := h.published track (inStreamId groupId subgroupId)
  rw [hf, Option.map_some] at hpublished
  have hafter : flowAfter p.relay (.own track (inStreamId groupId subgroupId))
      (flows (.own track (inStreamId groupId subgroupId))) (.close reset) =
        some { f with closed := some reset } := by
    rw [hf]
    rfl
  have hrefines := h.own_call (flowStep_endSubgroup (h.wires hwires) track groupId subgroupId reset)
    ⟨f, hf, hopen⟩ trivial hafter (h.owns _ _ f hf)
  unfold DataPeer.endSubgroup
  dsimp only
  rw [hpublished]
  exact hrefines

/-- The first piece of a stream starts its flow. -/
theorem onRecvStream_start (h : Refines r₀ p flows) (hwires : r₀.Wires) {header : DataHeader}
    (htype : header.type = .newStream) {ingress : PeerSessionId} {streamId : UInt64}
    (hctx : p.rxCtx ingress streamId = none)
    (hunused : ∀ egress snsId, p.sent egress (env.createStream egress snsId) = [])
    {payload : List UInt8}
    (htakes : p.Takes m env ingress streamId (header.serialize ++ payload)) :
    ∃ p' streams,
      p.onRecvStream m env ingress streamId (header.serialize ++ payload) = some p' ∧
      p.Extends p' ∧ MadeBy env.createStream streams ∧
      Refines r₀ p' (Function.update flows (.peer ⟨ingress, header.snsId, streamId⟩)
        (some { header := { header with headerLen := 19 }, payload, streams })) := by
  have hflow := h.no_flow hctx header.snsId
  have habsorbs : p.Absorbs m env ingress streamId { header with headerLen := 19 } true payload := by
    rw [DataPeer.Takes, hctx] at htakes
    have hdrop : (header.serialize ++ payload).drop 19 = payload := by
      rw [← length_newStream htype, List.drop_left]
    rw [← hdrop]
    exact htakes _ (deserialize_newStream htype payload)
  obtain ⟨n', out, hprocess, hstep, hclients⟩ := flowStep_start
    (h.continues.streaming hwires) htype (h.flowStream_eq_none hflow) env.createStream habsorbs
  obtain ⟨hhanded, hcloses⟩ := h.unhanded ingress streamId hctx
  have hhanded' : p.handed ingress streamId ++ clientBytes (forwardedOf out) =
      if r₀.Target ingress { header with headerLen := 19 } then payload else [] := by
    rw [hhanded, hclients, List.nil_append]
    exact if_congr (h.continues.kept.target ingress header) rfl rfl
  have hcloses' : p.handedCloses ingress streamId =
      if r₀.ForClients ingress header.snsId then (none : Option Bool).toList else [] := by
    rw [hcloses]
    split <;> rfl
  have hrefines := h.peer_call (k := ⟨ingress, header.snsId, streamId⟩) hstep ⟨hflow, htype⟩
    hunused rfl rfl (fun header' hsome => by rw [hctx] at hsome; cases hsome) hhanded' hcloses'
  rw [update₂_eq_self] at hrefines
  refine ⟨_, _, ?_, ⟨fun _ _ => List.prefix_append .., fun _ _ => List.prefix_append ..⟩,
    madeBy_map _ _, hrefines⟩
  rw [DataPeer.onRecvStream, hctx, hprocess]
  rfl

/-- The next piece of a stream goes on with its flow. -/
theorem onRecvStream_more (h : Refines r₀ p flows) (hwires : r₀.Wires) {k : StreamKey} {f : Flow}
    (hf : flows (.peer k) = some f) (hopen : f.closed = none) {data : List UInt8}
    (htakes : p.Takes m env k.ingress k.streamId data) :
    ∃ p', p.onRecvStream m env k.ingress k.streamId data = some p' ∧
      p.Extends p' ∧
      Refines r₀ p' (Function.update flows (.peer k)
        (some { f with payload := f.payload ++ data })) := by
  obtain ⟨hctx, hsns⟩ := h.ctx_of_flow hf
  rw [DataPeer.Takes, hctx] at htakes
  obtain ⟨n', out, hprocess, hstep, hclients⟩ := flowStep_more (h.continues.streaming hwires)
    env.createStream htakes
  rw [hsns] at hstep
  obtain ⟨hhanded, hcloses⟩ := h.handed k f hf
  have hhanded' : p.handed k.ingress k.streamId ++ clientBytes (forwardedOf out) =
      if r₀.Target k.ingress f.header then f.payload ++ data else [] := by
    have htarget := h.continues.kept.target k.ingress f.header
    rw [hhanded, hclients]
    by_cases hself : r₀.Target k.ingress f.header
    · rw [if_pos hself, if_pos hself, if_pos (htarget.mpr hself)]
    · rw [if_neg hself, if_neg hself, if_neg fun hr => hself (htarget.mp hr)]
      rfl
  have hafter : flowAfter p.relay (.peer k) (flows (.peer k)) (.more data) =
      some { f with payload := f.payload ++ data } := by
    rw [hf]
    rfl
  have hrefines := h.peer_call hstep ⟨f, hf, hopen⟩ trivial hafter hsns
    (fun header' hsome => by rw [hctx] at hsome; exact (Option.some.inj hsome).symm) hhanded'
    hcloses
  rw [update₂_eq_self] at hrefines
  refine ⟨_, ?_, ⟨fun _ _ => List.prefix_append .., fun _ _ => List.prefix_append ..⟩, hrefines⟩
  rw [DataPeer.onRecvStream, hctx, hprocess]
  rfl

/-- The close of a stream closes its flow, when the relay has not used its id itself. -/
theorem onStreamClosed (h : Refines r₀ p flows) (hwires : r₀.Wires) {k : StreamKey} {f : Flow}
    (hf : flows (.peer k) = some f) (hopen : f.closed = none)
    (hfree : p.sent k.ingress k.streamId = []) (hreleases : p.Releases k.ingress k.streamId)
    (reset : Bool) :
    ∃ p', p.onStreamClosed k.ingress k.streamId reset = some p' ∧
      p.Extends p' ∧
      Refines r₀ p' (Function.update flows (.peer k) (some { f with closed := some reset })) := by
  obtain ⟨hctx, hsns⟩ := h.ctx_of_flow hf
  have hunused : ∀ track key, p.relay.outStreamAt track k.ingress key ≠ some k.streamId := by
    intro track key hstream
    have hcurrent := h.continues.current (.own track key) k.ingress
    rw [flowStream_own, hstream] at hcurrent
    obtain ⟨f', hf', hstreams⟩ := Option.bind_eq_some_iff.mp hcurrent.symm
    split at hstreams
    · exact h.continues.sent_ne_nil hf' hstreams hfree
    · cases hstreams
  obtain ⟨n', out, hclose, hstep, htold⟩ := flowStep_close (h.continues.streaming hwires) hunused
    (hreleases f.header hctx) reset
  rw [hsns] at hstep
  obtain ⟨hhanded, hcloses⟩ := h.handed k f hf
  have hcloses' : p.handedCloses k.ingress k.streamId ++ clientCloses out =
      if r₀.ForClients k.ingress k.snsId then (some reset).toList else [] := by
    have hself : p.relay.ForClients k.ingress k.snsId ↔ r₀.ForClients k.ingress k.snsId := by
      have hsome := congrArg Option.isSome (h.continues.kept.entries (k.ingress, k.snsId) 0)
      rw [Option.isSome_map, Option.isSome_map] at hsome
      unfold ForClients
      rw [hsome]
    rw [hcloses, htold, hsns, hopen]
    by_cases hclients : r₀.ForClients k.ingress k.snsId
    · rw [if_pos hclients, if_pos hclients, if_pos (hself.mpr hclients)]
      rfl
    · rw [if_neg hclients, if_neg hclients, if_neg fun hr => hclients (hself.mp hr)]
      rfl
  have hafter : flowAfter p.relay (.peer k) (flows (.peer k)) (.close reset) =
      some { f with closed := some reset } := by
    rw [hf]
    rfl
  have hrefines := h.peer_call hstep ⟨f, hf, hopen⟩ trivial hafter hsns
    (fun header' hsome => by rw [hctx] at hsome; exact (Option.some.inj hsome).symm) hhanded
    hcloses'
  rw [update₂_eq_self, ← hctx, update₂_eq_self] at hrefines
  refine ⟨_, ?_, ⟨fun _ _ => List.prefix_append .., fun _ _ => List.prefix_append ..⟩, hrefines⟩
  rw [DataPeer.onStreamClosed, hctx]
  simp only [Option.bind_eq_bind, Option.bind_some, hclose]
  rfl

end Refines

end Laps.Multicast
