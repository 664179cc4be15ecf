import Laps.Flood.JoinSteps

/-! What the relays of a graph do with node information, and what a session is told when it is
synchronised. -/

namespace Laps.Flood

open Network Peering Std

variable {ν δ : Type*} {q : Quicr} {g : JoinGraph ν δ} {n : ν} {o : Others δ} {covered : δ → Prop}
  {known : Fact → Prop}
  {r r' : Relay} {P : ControlMessage → Prop}

/-- What is so of the other relays, and of the facts that some relay has. -/
structure Around (g : JoinGraph ν δ) (n : ν) (o : Others δ) (known : Fact → Prop) : Prop where
  /-- A relay has the facts that are about itself. -/
  origin : ∀ d, g.node d = n → ∀ k, known k →
    k.source = g.nodeId (g.node (g.opposite d)) → o.knows d k
  opposite : ∀ d, g.node d = n → ∀ m, o.aware (g.nodeId (g.node (g.opposite d))) m →
    o.knows d (.node m)
  self : ∀ m, known (.node m) → o.aware m m
  nonzero : ∀ m, known (.node m) → m ≠ 0

theorem Joined.remote (h : Joined g n o r) {d : δ} (hd : g.node d = n)
    {session : PeerSession} (hget : r.getPeerSession (g.sessionId d) = some session)
    (hid : session.remoteNodeInfo.id ≠ 0) :
    session.remoteNodeInfo.Own (g.nodeId (g.node (g.opposite d))) := by
  obtain ⟨e, he, hsession, -, hknown⟩ := h.session _ session hget
  obtain rfl := g.sessionId_inj e d (he.trans hd.symm) hsession
  rcases hknown with hknown | hknown
  · rw [hknown] at hid
    exact absurd rfl hid
  · exact hknown

/-! ### Node information -/

/-- The entry of a node that a session tells of is stored, and its best session may change. -/
structure Stored (ib ib' : InfoBase) (id : PeerSessionId) (info : NodeInfo) : Prop where
  nodes : ib'.nodes = (ib.insertNode id info).nodes
  tables : ib'.NodeTables
  announces : ib'.announces = ib.announces
  subscribes : ib'.subscribes = ib.subscribes
  peerFib : ib'.peerFib = ib.peerFib

theorem stored_of_reselected {ib ib' : InfoBase} {id : PeerSessionId} {info : NodeInfo}
    (h : (ib.insertNode id info).Reselected ib' info.id) (htables : ib'.NodeTables) :
    Stored ib ib' id info where
  nodes := (congrArg InfoBase.nodes h.same :)
  tables := htables
  announces := (congrArg InfoBase.announces h.same :)
  subscribes := (congrArg InfoBase.subscribes h.same :)
  peerFib := (congrArg InfoBase.peerFib h.same :)

theorem Stored.contains {ib ib' : InfoBase} {id : PeerSessionId} {info : NodeInfo}
    (h : Stored ib ib' id info) (m : NodeIdValueType) (s : PeerSessionId) :
    ib'.nodes.contains (m, s) = true ↔
      (m = info.id ∧ s = id) ∨ ib.nodes.contains (m, s) = true := by
  rw [h.nodes]
  exact InfoBase.contains_nodes_insertNode ib id info m s

theorem Stored.hasFact {ib' : InfoBase} {id : PeerSessionId} {info : NodeInfo}
    (h : Stored r.infoBase ib' id info) (k : Fact) :
    (r.setInfoBase ib').HasFact k ↔ r.HasFact k ∨ k = .node info.id := by
  cases k with
  | node m =>
    simp only [Relay.HasFact, Relay.setInfoBase, h.contains, Fact.node.injEq]
    constructor
    · rintro (hself | ⟨s, ⟨hnew, -⟩ | hold⟩)
      · exact .inl (.inl hself)
      · exact .inr hnew
      · exact .inl (.inr ⟨s, hold⟩)
    · rintro ((hself | ⟨s, hold⟩) | hnew)
      · exact .inl hself
      · exact .inr ⟨s, .inr hold⟩
      · exact .inr ⟨id, .inl ⟨hnew, rfl⟩⟩
  | announce hash source =>
    simp only [Relay.HasFact, Relay.setInfoBase, h.announces, reduceCtorEq, or_false]
  | subscribe hash source =>
    simp only [Relay.HasFact, Relay.setInfoBase, h.subscribes, reduceCtorEq, or_false]

theorem Joined.stored (h : Joined g n o r) {d : δ} (hd : g.node d = n)
    (hlive : r.live (g.sessionId d) = true) {info : NodeInfo} (hfrom : o.knows d (.node info.id))
    (hpath : ∀ p ∈ pathIds info, o.aware p info.id) {ib : InfoBase}
    (hstored : Stored r.infoBase ib (g.sessionId d) info) :
    Joined g n o (r.setInfoBase ib) where
  nodeId := h.nodeId
  session := h.session
  opened := h.opened
  accepted := h.accepted
  tables := hstored.tables
  keyed := h.keyed.congr hstored.announces hstored.subscribes
  alive := by
    intro m s hs
    rcases (hstored.contains m s).mp hs with ⟨-, rfl⟩ | hs
    · exact hlive
    · exact h.alive m s hs
  egress := h.egress.congr hstored.peerFib rfl
  told := by
    intro e m he hm
    rcases (hstored.contains m _).mp hm with ⟨rfl, hid⟩ | hm
    · obtain rfl := g.sessionId_inj e d (he.trans hd.symm) hid
      exact hfrom
    · exact h.told e m he hm
  paths := by
    intro m s item hitem
    change ib.nodes[(m, s)]? = some item at hitem
    rw [hstored.nodes, InfoBase.getElem?_nodes_insertNode] at hitem
    split at hitem
    · rename_i hkey
      cases hitem
      rw [hkey.1]
      exact hpath
    · exact h.paths m s item hitem
  passable := h.passable
  sound := by
    intro id session hget msg hmsg k hk
    exact (hstored.hasFact k).mpr (.inl (h.sound id session hget msg hmsg k hk))

/-- The sessions that information on a node is kept from lead to relays that have it. -/
theorem Around.skipped (h : Around g n o known) (hjoined : Joined g n o r)
    {d : δ} (hd : g.node d = n) {session : PeerSession}
    (hget : r.getPeerSession (g.sessionId d) = some session)
    (hremote : session.remoteNodeInfo.id ≠ 0) {info : NodeInfo} (hknown : known (.node info.id))
    (hpath : ∀ p ∈ pathIds info, o.aware p info.id)
    (hskip : Relay.skipNode info session.remoteNodeInfo = true) : o.knows d (.node info.id) := by
  have hother : session.remoteNodeInfo.id = g.nodeId (g.node (g.opposite d)) :=
    (hjoined.remote hd hget hremote).id
  simp only [Relay.skipNode, Bool.or_eq_true, decide_eq_true_eq, List.any_eq_true] at hskip
  rcases hskip with ((hself | hzero) | hzero) | ⟨hop, hhop, hid⟩
  · exact h.origin d hd _ hknown (hself.trans hother)
  · exact absurd hzero hremote
  · exact absurd hzero (h.nonzero _ hknown)
  · apply h.opposite d hd
    rw [← hother, ← hid]
    exact hpath hop.id (List.mem_map.mpr ⟨hop, hhop, rfl⟩)

/-- Information on a node comes in over `d`. -/
theorem steps_nodeReceived (h : Joined g n o r)
    (htells : Tells g n o covered r) (haround : Around g n o known) {d : δ}
    (hd : g.node d = n) (hlive : (r.getPeerSession (g.sessionId d)).isSome) {info : NodeInfo}
    (hfrom : o.knows d (.node info.id)) (hknown : known (.node info.id))
    (hpath : ∀ p ∈ pathIds info, o.aware p info.id) :
    ∃ r', r.nodeReceived (g.sessionId d) info false = some r' ∧
      Steps g n o covered (· = .node info.id) r r' ∧
      Relay.Grows (fun msg => ∃ info', msg = .nodeInfo info' false) r r' ∧
      ∀ m s, s ≠ g.sessionId d →
        r'.infoBase.nodes.contains (m, s) = r.infoBase.nodes.contains (m, s) := by
  obtain ⟨session, hget⟩ := Option.isSome_iff_exists.mp hlive
  obtain ⟨ib, isUpdated, hadd, hsame, htables, hupdated⟩ := h.tables.addNode h.alive info hlive
  have hstored := stored_of_reselected hsame htables
  have hjoined := h.stored hd hlive hfrom hpath hstored
  have hfacts := hstored.hasFact (r := r)
  have hnodes : ∀ m s, s ≠ g.sessionId d →
      ib.nodes.contains (m, s) = r.infoBase.nodes.contains (m, s) := by
    intro m s hs
    rw [Bool.eq_iff_iff, hstored.contains]
    exact ⟨fun hm => hm.resolve_left fun hnew => hs hnew.2, .inr⟩
  have hgrows : ∀ P, Relay.Grows P r (r.setInfoBase ib) := fun P => Relay.grows_setInfoBase r ib
  cases isUpdated with
  | false =>
    refine ⟨r.setInfoBase ib, by simp [Relay.nodeReceived, hget, hadd], ?_, hgrows _, hnodes⟩
    refine ⟨hjoined, htells.grows (hgrows fun _ => False) fun k hk => .inl ?_,
      controlTo_keeps (hgrows fun _ => False),
      fun _ => (up_of_grows (hgrows fun _ => False)).mpr, hfacts⟩
    rcases (hfacts k).mp hk with hold | rfl
    · exact hold
    · -- There was a best session for the node before.
      cases hbest : r.infoBase.nodesBest[info.id]? with
      | none => exact absurd (hupdated hbest) Bool.false_ne_true
      | some s => exact .inr ⟨s, (h.tables.chosen info.id).mem hbest⟩
  | true =>
    set info' := info.pushBack info.id session.srttUs with hinfo'
    have hpath' : ∀ p ∈ pathIds info', o.aware p info'.id := by
      intro p hp
      rw [hinfo', pathIds_pushBack, List.mem_append, List.mem_singleton] at hp
      rcases hp with hp | rfl
      · exact hpath p hp
      · exact haround.self _ hknown
    have hsent := Relay.grows_propagateNodeInfo (r.setInfoBase ib) info' false
    have hboth := (hgrows _).trans hsent
    have hfacts' : ∀ k, ((r.setInfoBase ib).propagateNodeInfo info' false).HasFact k ↔
        r.HasFact k ∨ k = .node info.id := hfacts
    refine ⟨(r.setInfoBase ib).propagateNodeInfo info' false,
      by simp [Relay.nodeReceived, hget, hadd, hinfo'], ?_, hboth.mono fun _ hmsg => ⟨_, hmsg⟩,
      hnodes⟩
    refine ⟨?_, ?_, controlTo_keeps hboth, fun _ => (up_of_grows hboth).mpr, hfacts'⟩
    · refine hjoined.grows hsent (fun msg hmsg => ?_) ⟨rfl, rfl, rfl⟩ hjoined.keyed
        (hjoined.egress.congr rfl hsent.live) fun k hk => hk
      rw [hmsg]
      refine ⟨fun _ _ => ⟨rfl, hpath'⟩, fun k hk => (hfacts' k).mpr (.inr ?_)⟩
      exact (Option.some.inj hk).symm
    · refine htells.grows hboth fun k hk => ((hfacts' k).mp hk).imp_right
        fun hnew e he hcovered hup => ?_
      subst hnew
      obtain ⟨session', hget', hstatus, hremote, hshake⟩ := htells.handshake he hcovered hup
      cases hskip : Relay.skipNode info' session'.remoteNodeInfo with
      | true =>
        have hknown' : known (.node info'.id) := hknown
        have hother : o.knows e (.node info'.id) :=
          haround.skipped h he hget' hremote hknown' hpath' hskip
        exact .inl hother
      | false =>
        have hafter : ((r.setInfoBase ib).propagateNodeInfo info' false).getPeerSession
            (g.sessionId e) = some (session'.enqueue (.nodeInfo info' false)) := by
          have hold : (r.setInfoBase ib).getPeerSession (g.sessionId e) = some session' := hget'
          rw [Relay.getPeerSession_propagateNodeInfo, hold, Option.map_some, hskip]
          simp [PeerSession.sendNodeInfo, hstatus]
        exact .inr ⟨_, mem_controlTo_of_new hafter rfl hshake (List.mem_singleton.mpr rfl), rfl⟩

/-! ### Sessions that are synchronised -/

theorem skipSync_eq_false {id : PeerSessionId} {session : PeerSession} {m : NodeIdValueType}
    {s : PeerSessionId} {item : NodeItem}
    (h : Relay.skipSync id session ((m, s), item) = false) :
    m ≠ session.nodeId ∧ s ≠ id ∧ m ≠ session.remoteNodeInfo.id ∧
      session.remoteNodeInfo.id ∉ pathIds item.nodeInfo := by
  simp only [Relay.skipSync, Bool.or_eq_false_iff, decide_eq_false_iff_not, List.any_eq_false,
    decide_eq_true_eq] at h
  obtain ⟨⟨⟨hself, hfrom⟩, hremote⟩, hpath⟩ := h
  refine ⟨hself, hfrom, hremote, fun hmem => ?_⟩
  obtain ⟨hop, hhop, hid⟩ := List.mem_map.mp hmem
  exact hpath hop hhop hid

theorem sameSubscribes_isSome {subscribes subscribes' :
    ExtTreeMap UInt64 (ExtTreeMap NodeIdValueType SubscribeInfo)}
    (h : Relay.SameSubscribes subscribes subscribes') (hash : UInt64) (source : NodeIdValueType) :
    (subscribes'.get₂? hash source).isSome = (subscribes.get₂? hash source).isSome := by
  have hrel := h hash source
  generalize subscribes.get₂? hash source = before, subscribes'.get₂? hash source = after at hrel ⊢
  cases hrel with
  | some hsame => rfl
  | none => rfl

theorem OwnKeyed.sync {ib : InfoBase} (h : OwnKeyed ib)
    {subscribes : ExtTreeMap UInt64 (ExtTreeMap NodeIdValueType SubscribeInfo)}
    (hsame : Relay.SameSubscribes ib.subscribes subscribes) : OwnKeyed { ib with subscribes } := by
  refine ⟨h.announces, fun hash source info hget => ?_⟩
  have hrel := hsame hash source
  change subscribes.get₂? hash source = some info at hget
  rw [hget] at hrel
  cases hold : ib.subscribes.get₂? hash source with
  | none =>
    rw [hold] at hrel
    cases hrel
  | some old =>
    rw [hold] at hrel
    cases hrel with
    | some hkey =>
      obtain ⟨hhash, hsource⟩ := h.subscribes hash source old hold
      exact ⟨hkey.1.trans hhash, hkey.2.trans hsource⟩

section Sync

variable {d : δ} {session : PeerSession}

/-- What a session is told when it is synchronised is so, and leads to no loop. -/
theorem Joined.syncMessages (h : Joined g n o r)
    (hget : r.getPeerSession (g.sessionId d) = some session)
    (hown : ∀ m s, s ≠ g.sessionId d → r.infoBase.nodes.contains (m, s) = true →
      o.aware (g.nodeId n) m) {msg : ControlMessage}
    (hmsg : msg ∈ r.syncMessages (g.sessionId d) session) :
    (∀ e, g.node e = n → Passable g e o msg) ∧ ∀ k, msg.fact? = some k → r.HasFact k := by
  unfold Relay.syncMessages at hmsg
  rw [List.mem_append, List.mem_append, List.mem_flatMap, List.mem_flatMap, List.mem_flatMap] at hmsg
  rcases hmsg with (⟨⟨⟨m, s⟩, item⟩, hentry, hmsg⟩ | ⟨info, hentry, hmsg⟩) |
    ⟨⟨⟨hash, source⟩, si⟩, hentry, hmsg⟩
  · unfold Relay.nodeSync at hmsg
    split at hmsg
    · cases hmsg
    · rename_i hsends
      obtain rfl := List.mem_singleton.mp hmsg
      have hitem := ExtTreeMap.mem_toList_iff_getElem?_eq_some.mp hentry
      have hcontains := ExtTreeMap.contains_iff_getElem?.mpr ⟨item, hitem⟩
      have hskip : Relay.skipSync (g.sessionId d) session ((m, s), item) = false := by
        simp only [ne_eq, Bool.or_eq_true, not_or, Bool.not_eq_true] at hsends
        exact hsends.1
      obtain ⟨-, hfrom, -, -⟩ := skipSync_eq_false hskip
      have hid := (h.tables.item m s item hitem).2
      obtain ⟨-, -, -, hnode, -⟩ := h.session _ session hget
      refine ⟨fun e he => ⟨rfl, fun p hp => ?_⟩, fun k hk => ?_⟩
      · show o.aware p item.nodeInfo.id
        rw [pathIds_pushBack, List.mem_append, List.mem_singleton] at hp
        rw [hid]
        rcases hp with hp | rfl
        · exact h.paths m s item hitem p hp
        · rw [hnode]
          exact hown m s hfrom hcontains
      · obtain rfl := Option.some.inj hk
        refine .inr ⟨s, ?_⟩
        show r.infoBase.nodes.contains (item.nodeInfo.id, s) = true
        rw [hid]
        exact hcontains
  · unfold Relay.announceSync at hmsg
    split at hmsg
    · cases hmsg
    · obtain rfl := List.mem_singleton.mp hmsg
      obtain ⟨⟨⟨hash, source⟩, info⟩, hstored, rfl⟩ := List.mem_map.mp hentry
      rw [ExtTreeMap.mem_entries₂] at hstored
      obtain ⟨hhash, hsource⟩ := h.keyed.announces hash source info hstored
      refine ⟨fun _ _ => rfl, fun k hk => ?_⟩
      obtain rfl := Option.some.inj hk
      show (r.infoBase.announces.get₂? info.fullnameHash info.sourceNodeId).isSome
      rw [hhash, hsource, hstored]
      rfl
  · unfold Relay.subscribeSync at hmsg
    split at hmsg
    · cases hmsg
    · obtain rfl := List.mem_singleton.mp hmsg
      have hstored := ExtTreeMap.mem_entries₂.mp hentry
      obtain ⟨hhash, hsource⟩ := h.keyed.subscribes hash source si hstored
      refine ⟨fun _ _ => rfl, fun k hk => ?_⟩
      obtain rfl := Option.some.inj hk
      obtain ⟨hhash', hsource'⟩ := Relay.sameKey_serialize si (session.nodeId = si.sourceNodeId)
      show (r.infoBase.subscribes.get₂? _ _).isSome
      rw [hhash', hsource', hhash, hsource, hstored]
      rfl

/-- A session is told all that the relay has. -/
theorem steps_infoBaseSyncPeer (h : Joined g n o r)
    (htells : Tells g n o covered r)
    (hget : r.getPeerSession (g.sessionId d) = some session)
    (hown : ∀ m s, s ≠ g.sessionId d → r.infoBase.nodes.contains (m, s) = true →
      o.aware (g.nodeId n) m) :
    Steps g n o covered (fun _ => False) r (r.infoBaseSyncPeer (g.sessionId d)) ∧
      ∃ P, Relay.Grows P r (r.infoBaseSyncPeer (g.sessionId d)) := by
  obtain ⟨session', subscribes, henqueues, hsame, hsync⟩ := Relay.infoBaseSyncPeer_eq hget
  rw [hsync]
  have hgrows := (Relay.grows_setPeerSession hget (henqueues.grows fun _ hmsg => hmsg)).trans
    (Relay.grows_setInfoBase (r.setPeerSession (g.sessionId d) session')
      { r.infoBase with subscribes })
  have hfacts : ∀ k, ((r.setPeerSession (g.sessionId d) session').setInfoBase
      { r.infoBase with subscribes }).HasFact k ↔ r.HasFact k := by
    intro k
    cases k with
    | node m =>
      have hnode := hgrows.nodeId
      unfold Relay.HasFact
      rw [hnode]
      rfl
    | announce hash source => rfl
    | subscribe hash source =>
      simp only [Relay.HasFact, Relay.setInfoBase, sameSubscribes_isSome hsame]
  refine ⟨⟨?_, ?_, controlTo_keeps hgrows, fun _ => (up_of_grows hgrows).mpr,
    fun k => by simpa using hfacts k⟩, _, hgrows⟩
  · refine h.grows hgrows (fun msg hmsg => ?_) ⟨rfl, rfl, rfl⟩ (h.keyed.sync hsame)
      (h.egress.congr rfl hgrows.live) fun k hk => (hfacts k).mpr hk
    obtain ⟨hpassable, hsound⟩ := h.syncMessages hget hown hmsg
    exact ⟨hpassable, fun k hk => (hfacts k).mpr (hsound k hk)⟩
  · exact htells.grows hgrows fun k hk => .inl ((hfacts k).mp hk)

/-- A message of the handshake gets through. -/
theorem mem_controlTo_of_handshake {id : PeerSessionId}
    (hget : r.getPeerSession id = some session) {msg : ControlMessage}
    (hmsg : msg ∈ session.enqueued) (hshake : msg.isHandshake = true) : msg ∈ r.controlTo id := by
  rw [controlTo_of_get hget]
  rw [← List.takeWhile_append_dropWhile (p := fun msg => !msg.isHandshake) (l := session.enqueued),
    List.mem_append] at hmsg
  rcases hmsg with hbefore | hafter
  · have hnot := List.mem_takeWhile_imp hbefore
    rw [hshake] at hnot
    cases hnot
  · exact hafter

/-- The handshake tells of the relay itself. -/
theorem Joined.fact_handshake (h : Joined g n o r) (hd : g.node d = n)
    (hget : r.getPeerSession (g.sessionId d) = some session) {msg : ControlMessage}
    (hmsg : msg ∈ session.enqueued) (hshake : msg.isHandshake = true) :
    msg.fact? = some (.node r.nodeId) := by
  have hpassable := h.passable d hd session hget msg hmsg
  rw [h.nodeId, ← hd]
  cases msg with
  | connect info => rw [ControlMessage.fact?, hpassable.2.id]
  | connectResponse info => rw [ControlMessage.fact?, hpassable.2.id]
  | nodeInfo info withdraw => cases hshake
  | subscribeNodeSet sns withdraw => cases hshake
  | announceInfo info withdraw => cases hshake
  | subscribeInfo info withdraw => cases hshake

/-- What a session that is up is not told when it is synchronised, the other relay has. -/
theorem Joined.synced (h : Joined g n o r) (haround : Around g n o known)
    (hd : g.node d = n) (hget : r.getPeerSession (g.sessionId d) = some session)
    (hstatus : session.status = .connected) (hremote : session.remoteNodeInfo.id ≠ 0)
    {k : Fact} (hk : r.HasFact k) (hknown : known k) :
    o.knows d k ∨ k = .node r.nodeId ∨
      ∃ msg ∈ r.syncMessages (g.sessionId d) session, msg.fact? = some k := by
  have hother : session.remoteNodeInfo.id = g.nodeId (g.node (g.opposite d)) :=
    (h.remote hd hget hremote).id
  unfold Relay.syncMessages
  cases k with
  | node m =>
    rcases hk with rfl | ⟨s, hs⟩
    · exact .inr (.inl rfl)
    obtain ⟨item, hitem⟩ := ExtTreeMap.contains_iff_getElem?.mp hs
    have hid := (h.tables.item m s item hitem).2
    cases hskip : Relay.skipSync (g.sessionId d) session ((m, s), item) with
    | false =>
      refine .inr (.inr ⟨.nodeInfo (item.nodeInfo.pushBack session.nodeId session.srttUs) false,
        ?_, ?_⟩)
      · refine List.mem_append_left _ (List.mem_append_left _ (List.mem_flatMap.mpr ⟨((m, s), item),
          ExtTreeMap.mem_toList_iff_getElem?_eq_some.mpr hitem, ?_⟩))
        simp [Relay.nodeSync, hskip, hstatus]
      · rw [← hid]
        rfl
    | true =>
      simp only [Relay.skipSync, Bool.or_eq_true, decide_eq_true_eq, List.any_eq_true] at hskip
      obtain ⟨-, -, -, hnode, -⟩ := h.session _ session hget
      rcases hskip with ((hself | hfrom) | hremote') | ⟨hop, hhop, hpath⟩
      · refine .inr (.inl ?_)
        rw [hself, hnode, h.nodeId]
      · rw [hfrom] at hs
        exact .inl (h.told d m hd hs)
      · exact .inl (haround.origin d hd _ hknown (hremote'.trans hother))
      · refine .inl (haround.opposite d hd m ?_)
        rw [← hother, ← hpath]
        exact h.paths m s item hitem hop.id (List.mem_map.mpr ⟨hop, hhop, rfl⟩)
  | announce hash source =>
    obtain ⟨info, hinfo⟩ := Option.isSome_iff_exists.mp hk
    obtain ⟨hhash, hsource⟩ := h.keyed.announces hash source info hinfo
    by_cases hself : session.remoteNodeInfo.id = info.sourceNodeId
    · exact .inl (haround.origin d hd _ hknown (hsource.symm.trans (hself.symm.trans hother)))
    · refine .inr (.inr ⟨.announceInfo info false, ?_, ?_⟩)
      · refine List.mem_append_left _ (List.mem_append_right _ (List.mem_flatMap.mpr ⟨info,
          List.mem_map.mpr ⟨((hash, source), info), ExtTreeMap.mem_entries₂.mpr hinfo, rfl⟩, ?_⟩))
        simp [Relay.announceSync, hself, hstatus]
      · rw [← hhash, ← hsource]
        rfl
  | subscribe hash source =>
    obtain ⟨info, hinfo⟩ := Option.isSome_iff_exists.mp hk
    obtain ⟨hhash, hsource⟩ := h.keyed.subscribes hash source info hinfo
    by_cases hself : session.remoteNodeInfo.id = info.sourceNodeId
    · exact .inl (haround.origin d hd _ hknown (hsource.symm.trans (hself.symm.trans hother)))
    · refine .inr (.inr ⟨.subscribeInfo (info.serialize (session.nodeId = info.sourceNodeId)) false,
        ?_, ?_⟩)
      · refine List.mem_append_right _ (List.mem_flatMap.mpr ⟨((hash, source), info),
          ExtTreeMap.mem_entries₂.mpr hinfo, ?_⟩)
        simp [Relay.subscribeSync, hself, hstatus]
      · obtain ⟨hhash', hsource'⟩ :=
          Relay.sameKey_serialize info (session.nodeId = info.sourceNodeId)
        show some (Fact.subscribe _ _) = _
        rw [hhash', hsource', hhash, hsource]

/-- After a session is synchronised, the relay has told all over it as over the others. -/
theorem Tells.sync (htells : Tells g n o covered r) (h : Joined g n o r)
    (haround : Around g n o known) (hd : g.node d = n)
    (hcovered : ∀ e, e ≠ d → covered e)
    (hget : r.getPeerSession (g.sessionId d) = some session)
    (hstatus : session.status = .connected) (hremote : session.remoteNodeInfo.id ≠ 0)
    (hshake : ∃ msg ∈ session.enqueued, msg.isHandshake = true)
    (hknown : ∀ k, r.HasFact k → known k)
    (hown : ∀ m s, s ≠ g.sessionId d → r.infoBase.nodes.contains (m, s) = true →
      o.aware (g.nodeId n) m) :
    Tells g n o (fun _ => True) (r.infoBaseSyncPeer (g.sessionId d)) := by
  obtain ⟨hsteps, P, hgrows⟩ := steps_infoBaseSyncPeer h htells hget hown
  obtain ⟨session', subscribes, henqueues, -, hsync⟩ := Relay.infoBaseSyncPeer_eq hget
  have hget' : (r.infoBaseSyncPeer (g.sessionId d)).getPeerSession (g.sessionId d) =
      some session' := by
    rw [hsync]
    have hset := Relay.getPeerSession_setPeerSession hget session' (g.sessionId d)
    rw [if_pos rfl] at hset
    exact hset
  obtain ⟨first, hfirst, hfirstShake⟩ := hshake
  have hsent := (hsteps.sent (g.sessionId d)).subset
    (mem_controlTo_of_handshake hget hfirst hfirstShake)
  refine ⟨fun e he _ hup => ?_, fun e he _ hup k hk => ?_⟩
  · by_cases hed : e = d
    · rw [hed]
      exact ⟨first, hsent, hfirstShake⟩
    · exact hsteps.tells.first e he (hcovered e hed) hup
  · by_cases hed : e = d
    · rw [hed]
      have hold : r.HasFact k := ((hsteps.facts k).mp hk).resolve_right id
      rcases h.synced haround hd hget hstatus hremote hold (hknown k hold) with
        hother | rfl | ⟨msg, hmsg, hfact⟩
      · exact .inl hother
      · exact .inr ⟨first, hsent, h.fact_handshake hd hget hfirst hfirstShake⟩
      · exact .inr ⟨msg, mem_controlTo_of_new hget' henqueues.enqueued
          ⟨first, hfirst, hfirstShake⟩ hmsg, hfact⟩
    · exact hsteps.tells.told e he (hcovered e hed) hup k hk

end Sync

end Laps.Flood
