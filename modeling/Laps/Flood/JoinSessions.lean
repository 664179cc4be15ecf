import Laps.Flood.JoinNodes

/-! What the relays of a graph do with sessions that come up: at the end of a handshake the other
relay has been told all that this one has. -/

namespace Laps.Flood

open Network Peering Std

variable {ν δ : Type*} {q : Quicr} {g : JoinGraph ν δ} {n : ν} {o : Others δ}
  {covered : δ → Prop} {known : Fact → Prop} {r r' : Relay}

/-! ### Steps one after the other -/

section Steps

variable {covered' : δ → Prop} {learned learned' : Fact → Prop} {r'' : Relay}

theorem Steps.refl (h : Joined g n o r) (htells : Tells g n o covered r) :
    Steps g n o covered (fun _ => False) r r :=
  ⟨h, htells, fun _ => List.prefix_rfl, fun _ hup => hup, fun k => by simp⟩

theorem Steps.trans (h : Steps g n o covered learned r r')
    (h' : Steps g n o covered' learned' r' r'') :
    Steps g n o covered' (fun k => learned k ∨ learned' k) r r'' where
  joined := h'.joined
  tells := h'.tells
  sent id := (h.sent id).trans (h'.sent id)
  up d hup := h'.up d (h.up d hup)
  facts k := by rw [h'.facts, h.facts, or_assoc]

theorem Steps.congr (h : Steps g n o covered learned r r')
    (hlearned : ∀ k, learned k ↔ learned' k) :
    Steps g n o covered learned' r r' :=
  ⟨h.joined, h.tells, h.sent, h.up, fun k => (h.facts k).trans (or_congr_right (hlearned k))⟩

end Steps

/-! ### Sessions that are accepted -/

theorem getPeerSession_newConnection (q : Quicr) (r : Relay) (id id' : PeerSessionId)
    (srttUs : UInt64) : (r.newConnection q id srttUs).getPeerSession id' =
      if id' = id ∧ r.serverPeerSessions.contains id = false then
        some { status := .connected, nodeId := r.nodeId, isInbound := true, srttUs }
      else r.getPeerSession id' := by
  unfold Relay.newConnection
  cases hcontains : r.serverPeerSessions.contains id with
  | true => simp
  | false =>
    rw [if_neg Bool.false_ne_true]
    unfold Relay.getPeerSession
    dsimp only
    rw [ExtTreeMap.getElem?_insert_ite]
    by_cases hid : id' = id
    · simp [hid, PeerSession.connect]
    · simp [hid]

/-- The sessions of a relay change, and nothing else.  They are those of the graph afterwards, with
messages that are right. -/
theorem Joined.of_sessions (h : Joined g n o r) (hnode : r'.nodeId = r.nodeId)
    (hinfo : r'.infoBase = r.infoBase)
    (hclient : ∀ id, r'.clientPeerSessions.contains id = r.clientPeerSessions.contains id)
    (hlive : ∀ id, r.live id = true → r'.live id = true)
    (hsession : ∀ id session, r'.getPeerSession id = some session →
      ∃ d, g.node d = n ∧ g.sessionId d = id ∧ session.nodeId = g.nodeId n ∧
        (session.remoteNodeInfo = {} ∨
          session.remoteNodeInfo.Own (g.nodeId (g.node (g.opposite d)))) ∧
        ∀ msg ∈ session.enqueued, Passable g d o msg ∧ ∀ k, msg.fact? = some k → r.HasFact k) :
    Joined g n o r' where
  nodeId := hnode.trans h.nodeId
  session := by
    intro id session hget
    obtain ⟨d, hd, hid, hown, hremote, -⟩ := hsession id session hget
    exact ⟨d, hd, hid, hown, hremote⟩
  opened := fun d hd hopens => hlive _ (h.opened d hd hopens)
  accepted := by
    intro d hd hopens
    rw [hclient]
    exact h.accepted d hd hopens
  tables := hinfo ▸ h.tables
  keyed := hinfo ▸ h.keyed
  alive := by
    rw [hinfo]
    exact fun m s hs => hlive s (h.alive m s hs)
  egress := by
    intro key row hrow egress entry hentry hne
    rw [hinfo] at hrow
    obtain ⟨hpeer, hegress⟩ := h.egress key row hrow egress entry hentry hne
    exact ⟨hpeer, hlive egress hegress⟩
  told := hinfo ▸ h.told
  paths := hinfo ▸ h.paths
  passable := by
    intro d hd session hget msg hmsg
    obtain ⟨e, he, hid, -, -, hmsgs⟩ := hsession (g.sessionId d) session hget
    obtain rfl := g.sessionId_inj e d (he.trans hd.symm) hid
    exact (hmsgs msg hmsg).1
  sound := by
    intro id session hget msg hmsg k hk
    obtain ⟨_, -, -, -, -, hmsgs⟩ := hsession id session hget
    exact (hasFact_congr hnode (by rw [hinfo]) (by rw [hinfo]) (by rw [hinfo]) k).mpr
      ((hmsgs msg hmsg).2 k hk)

/-- What is known of a session of the relay. -/
theorem Joined.session_spec (h : Joined g n o r) {id : PeerSessionId} {session : PeerSession}
    (hget : r.getPeerSession id = some session) :
    ∃ d, g.node d = n ∧ g.sessionId d = id ∧ session.nodeId = g.nodeId n ∧
      (session.remoteNodeInfo = {} ∨
        session.remoteNodeInfo.Own (g.nodeId (g.node (g.opposite d)))) ∧
      ∀ msg ∈ session.enqueued, Passable g d o msg ∧ ∀ k, msg.fact? = some k → r.HasFact k := by
  obtain ⟨d, hd, rfl, hown, hremote⟩ := h.session id session hget
  exact ⟨d, hd, rfl, hown, hremote, fun msg hmsg =>
    ⟨h.passable d hd session hget msg hmsg, h.sound _ session hget msg hmsg⟩⟩

theorem steps_newConnection (h : Joined g n o r)
    (htells : Tells g n o covered r) {d : δ} (hd : g.node d = n)
    (hopens : g.opens d = false) (srttUs : UInt64) :
    Steps g n o covered (fun _ => False) r (r.newConnection q (g.sessionId d) srttUs) ∧
      ((r.newConnection q (g.sessionId d) srttUs).getPeerSession (g.sessionId d)).isSome := by
  have hget := fun id => getPeerSession_newConnection q r (g.sessionId d) id srttUs
  have hclient := h.accepted d hd hopens
  cases hserver : r.serverPeerSessions.contains (g.sessionId d) with
  | true =>
    have hsame : r.newConnection q (g.sessionId d) srttUs = r := by
      simp [Relay.newConnection, hserver]
    rw [hsame]
    refine ⟨.refl h htells, ?_⟩
    obtain ⟨session, hsession⟩ := ExtTreeMap.contains_iff_getElem?.mp hserver
    simp [Relay.getPeerSession, hsession]
  | false =>
    have hnone : r.getPeerSession (g.sessionId d) = none := by
      rw [ExtTreeMap.contains_eq_false_iff] at hclient hserver
      simp [Relay.getPeerSession, hclient, hserver]
    set r' := r.newConnection q (g.sessionId d) srttUs with hr'
    obtain ⟨hnode, hinfo, hclients⟩ : r'.nodeId = r.nodeId ∧ r'.infoBase = r.infoBase ∧
        r'.clientPeerSessions = r.clientPeerSessions := by
      simp [hr', Relay.newConnection, hserver]
    have hcases : ∀ id session, r'.getPeerSession id = some session →
        (id = g.sessionId d ∧ session = { status := .connected, nodeId := r.nodeId
                                          isInbound := true, srttUs }) ∨
          r.getPeerSession id = some session := by
      intro id session hsession
      rw [hget, hserver] at hsession
      split at hsession
      · rename_i hid
        exact .inl ⟨hid.1, (Option.some.inj hsession).symm⟩
      · exact .inr hsession
    have hkept : ∀ id session, r.getPeerSession id = some session →
        r'.getPeerSession id = some session := by
      intro id session hsession
      rw [hget, if_neg, hsession]
      rintro ⟨rfl, -⟩
      rw [hnone] at hsession
      cases hsession
    have hto : ∀ id, r'.controlTo id = r.controlTo id := by
      intro id
      unfold Relay.controlTo
      rw [hget]
      split
      · rename_i hid
        rw [hid.1, hnone]
        rfl
      · rfl
    have hup : ∀ e, Up g.toPeeringGraph e r' → Up g.toPeeringGraph e r := by
      rintro e ⟨session, hsession, hstatus, hremote⟩
      rcases hcases _ session hsession with ⟨-, rfl⟩ | hold
      · exact absurd rfl hremote
      · exact ⟨session, hold, hstatus, hremote⟩
    have hfacts : ∀ k, r'.HasFact k ↔ r.HasFact k :=
      hasFact_congr hnode (by rw [hinfo]) (by rw [hinfo]) (by rw [hinfo])
    refine ⟨⟨?_, ?_, fun id => ?_, ?_, fun k => by simpa using hfacts k⟩, ?_⟩
    · refine h.of_sessions hnode hinfo (fun _ => by rw [hclients]) (fun id hid => ?_)
        fun id session hsession => ?_
      · obtain ⟨session, hsession⟩ := Option.isSome_iff_exists.mp hid
        rw [Relay.live, hkept id session hsession]
        rfl
      · rcases hcases id session hsession with ⟨rfl, rfl⟩ | hold
        · exact ⟨d, hd, rfl, h.nodeId, .inl rfl, fun _ hmsg => absurd hmsg List.not_mem_nil⟩
        · exact h.session_spec hold
    · refine ⟨fun e he hc hupe => ?_, fun e he hc hupe k hk => ?_⟩
      · rw [hto]
        exact htells.first e he hc (hup e hupe)
      · rw [hto]
        exact htells.told e he hc (hup e hupe) k ((hfacts k).mp hk)
    · rw [hto]
    · rintro e ⟨session, hsession, hstatus⟩
      exact ⟨session, hkept _ session hsession, hstatus⟩
    · rw [hget, hserver, if_pos ⟨rfl, rfl⟩]
      rfl

/-! ### Sessions that rise -/

/-- The session gets connected, or knows its other end, or is put messages on that are so. -/
structure Rises (g : JoinGraph ν δ) (o : Others δ) (r : Relay)
    (d : δ) (session session' : PeerSession) : Prop where
  nodeId : session'.nodeId = session.nodeId
  status : session'.status = session.status ∨ session'.status = .connected
  remote : session'.remoteNodeInfo = session.remoteNodeInfo ∨
    session'.remoteNodeInfo.Own (g.nodeId (g.node (g.opposite d)))
  enqueued : ∃ new, session'.enqueued = session.enqueued ++ new ∧ ∀ msg ∈ new,
    Passable g d o msg ∧ ∀ k, msg.fact? = some k → r.HasFact k

/-- Nothing is put on it. -/
theorem rises_of_same {d : δ} {session session' : PeerSession}
    (hnode : session'.nodeId = session.nodeId)
    (hstatus : session'.status = session.status ∨ session'.status = .connected)
    (hremote : session'.remoteNodeInfo = session.remoteNodeInfo ∨
      session'.remoteNodeInfo.Own (g.nodeId (g.node (g.opposite d))))
    (hsent : session'.enqueued = session.enqueued) : Rises g o r d session session' :=
  ⟨hnode, hstatus, hremote, [], by rw [hsent, List.append_nil],
    fun _ hmsg => absurd hmsg List.not_mem_nil⟩

/-- A session that rises is one of the graph as before. -/
theorem Joined.rises (h : Joined g n o r) {d : δ} (hd : g.node d = n) {session session' : PeerSession}
    (hget : r.getPeerSession (g.sessionId d) = some session) (hrises : Rises g o r d session session') :
    ∃ e, g.node e = n ∧ g.sessionId e = g.sessionId d ∧ session'.nodeId = g.nodeId n ∧
      (session'.remoteNodeInfo = {} ∨
        session'.remoteNodeInfo.Own (g.nodeId (g.node (g.opposite e)))) ∧
      ∀ msg ∈ session'.enqueued, Passable g e o msg ∧ ∀ k, msg.fact? = some k → r.HasFact k := by
  obtain ⟨e, he, hid, hown, hknown, hmsgs⟩ := h.session_spec hget
  obtain rfl := g.sessionId_inj e d (he.trans hd.symm) hid
  refine ⟨e, hd, rfl, hrises.nodeId.trans hown, ?_, fun msg hmsg => ?_⟩
  · rcases hrises.remote with hremote | hremote
    · rw [hremote]
      exact hknown
    · exact .inr hremote
  · obtain ⟨new, hnew, hvalid⟩ := hrises.enqueued
    rw [hnew, List.mem_append] at hmsg
    rcases hmsg with hmsg | hmsg
    · exact hmsgs msg hmsg
    · exact hvalid msg hmsg

/-- What changes of a session leave as it is. -/
theorem modifyPeerSession_rest (r : Relay) (id : PeerSessionId) (f : PeerSession → PeerSession) :
    (r.modifyPeerSession id f).nodeId = r.nodeId ∧ (r.modifyPeerSession id f).infoBase = r.infoBase ∧
      (∀ id', (r.modifyPeerSession id f).clientPeerSessions.contains id' =
        r.clientPeerSessions.contains id') ∧ (r.modifyPeerSession id f).live = r.live := by
  unfold Relay.modifyPeerSession
  cases hget : r.getPeerSession id with
  | none => exact ⟨rfl, rfl, fun _ => rfl, rfl⟩
  | some session =>
    have hkeeps : Relay.Keeps (fun ib => ib) (fun _ => ()) r (r.setPeerSession id (f session)) :=
      Relay.keeps_setPeerSession hget rfl
    exact ⟨hkeeps.nodeId, hkeeps.info, fun id' => Relay.contains_of_map_eq (hkeeps.client id'),
      Relay.live_setPeerSession hget _⟩

theorem controlTo_rises (r : Relay) {d : δ} {f : PeerSession → PeerSession}
    (hf : ∀ session, Rises g o r d session (f session)) (id : PeerSessionId) :
    r.controlTo id <+: (r.modifyPeerSession (g.sessionId d) f).controlTo id := by
  have hget := Relay.getPeerSession_modifyPeerSession r (g.sessionId d) f id
  cases hsession : r.getPeerSession id with
  | none => simp [Relay.controlTo, hsession]
  | some session =>
    obtain ⟨new, hnew, -⟩ := (hf session).enqueued
    rw [hsession] at hget
    split at hget
    · exact controlTo_keeps_of_get hsession hget hnew
    · exact controlTo_keeps_of_get hsession hget (List.append_nil _).symm

theorem up_rises {d e : δ} {f : PeerSession → PeerSession}
    (hf : ∀ session, Rises g o r d session (f session)) (h : Up g.toPeeringGraph e r) :
    Up g.toPeeringGraph e (r.modifyPeerSession (g.sessionId d) f) := by
  obtain ⟨session, hsession, hstatus, hremote⟩ := h
  have hget := Relay.getPeerSession_modifyPeerSession r (g.sessionId d) f (g.sessionId e)
  rw [hsession] at hget
  split at hget
  · refine ⟨f session, hget, ?_, ?_⟩
    · rcases (hf session).status with hs | hs
      · rw [hs]
        exact hstatus
      · exact hs
    · rcases (hf session).remote with hr | hr
      · rw [hr]
        exact hremote
      · rw [hr.id]
        exact g.nodeId_ne_zero _
  · exact ⟨session, hget, hstatus, hremote⟩

theorem steps_modifyPeerSession (h : Joined g n o r)
    (htells : Tells g n o covered r) {d : δ} (hd : g.node d = n)
    {f : PeerSession → PeerSession} (hf : ∀ session, Rises g o r d session (f session)) :
    Steps g n o (fun e => covered e ∧ e ≠ d) (fun _ => False) r
      (r.modifyPeerSession (g.sessionId d) f) := by
  have hto := controlTo_rises r hf
  obtain ⟨hnode, hinfo, hclients, hlive⟩ := modifyPeerSession_rest r (g.sessionId d) f
  have hget : ∀ id, (r.modifyPeerSession (g.sessionId d) f).getPeerSession id =
      if id = g.sessionId d then (r.getPeerSession id).map f else r.getPeerSession id :=
    Relay.getPeerSession_modifyPeerSession r (g.sessionId d) f
  have hfacts : ∀ k, (r.modifyPeerSession (g.sessionId d) f).HasFact k ↔ r.HasFact k :=
    hasFact_congr hnode (by rw [hinfo]) (by rw [hinfo]) (by rw [hinfo])
  have hother : ∀ e, g.node e = n → e ≠ d →
      Up g.toPeeringGraph e (r.modifyPeerSession (g.sessionId d) f) →
      Up g.toPeeringGraph e r := by
    rintro e he hne ⟨session, hsession, hstatus⟩
    rw [hget, if_neg fun hid => hne (g.sessionId_inj e d (he.trans hd.symm) hid)] at hsession
    exact ⟨session, hsession, hstatus⟩
  refine ⟨?_, ?_, hto, fun e => up_rises hf, fun k => by simpa using hfacts k⟩
  · refine h.of_sessions hnode hinfo hclients (fun id hid => by rwa [hlive]) fun id session' hs => ?_
    rw [hget] at hs
    split at hs
    · rename_i hid
      subst hid
      obtain ⟨session, hsession, rfl⟩ := Option.map_eq_some_iff.mp hs
      exact h.rises hd hsession (hf session)
    · exact h.session_spec hs
  · refine ⟨fun e he hc hup => ?_, fun e he hc hup k hk => ?_⟩
    · obtain ⟨msg, hmsg, hshake⟩ := htells.first e he hc.1 (hother e he hc.2 hup)
      exact ⟨msg, (hto _).subset hmsg, hshake⟩
    · rcases htells.told e he hc.1 (hother e he hc.2 hup) k ((hfacts k).mp hk) with
        helse | ⟨msg, hmsg, hfact⟩
      · exact .inl helse
      · exact .inr ⟨msg, (hto _).subset hmsg, hfact⟩

/-! ### Handshakes -/

section Handshake

variable {d : δ} {info : NodeInfo}

/-- The relay at the other end of `d` is known here now, in a session that `f` has changed. -/
theorem steps_otherInfo (h : Joined g n o r) (htells : Tells g n o covered r)
    (haround : Around g n o known) (hd : g.node d = n)
    (hlive : (r.getPeerSession (g.sessionId d)).isSome)
    (hinfo : info.Own (g.nodeId (g.node (g.opposite d)))) (hknown : known (.node info.id))
    {f : PeerSession → PeerSession}
    (hf : ∀ session, Rises g o r d session (f session) ∧
      (f session).remoteNodeInfo = info)
    (hown : ∀ m, r.HasFact (.node m) → o.aware (g.nodeId n) m) :
    ∃ r', (r.modifyPeerSession (g.sessionId d) f).nodeReceived (g.sessionId d) info
        false = some r' ∧
      Steps g n o (fun e => covered e ∧ e ≠ d) (· = .node info.id) r r' ∧
      (∃ session session', r.getPeerSession (g.sessionId d) = some session ∧
        r'.getPeerSession (g.sessionId d) = some session' ∧
        session'.status = (f session).status ∧ session'.remoteNodeInfo = info) ∧
      ∀ m s, s ≠ g.sessionId d → r'.infoBase.nodes.contains (m, s) = true →
        o.aware (g.nodeId n) m := by
  have hmodify := steps_modifyPeerSession h htells hd fun session => (hf session).1
  obtain ⟨session, hget⟩ := Option.isSome_iff_exists.mp hlive
  have hget' : (r.modifyPeerSession (g.sessionId d) f).getPeerSession (g.sessionId d) =
      some (f session) := by
    rw [Relay.getPeerSession_modifyPeerSession, if_pos rfl, hget]
    rfl
  have hfrom : o.knows d (.node info.id) := haround.origin d hd _ hknown hinfo.id
  obtain ⟨r', hreceived, hsteps, hgrows, hnodes⟩ := steps_nodeReceived hmodify.joined hmodify.tells
    haround hd (by rw [hget']; rfl) hfrom hknown fun p hp => by simp [pathIds, hinfo.path] at hp
  obtain ⟨session', hsession', hsame⟩ := hgrows.of_some hget'
  refine ⟨r', hreceived, (hmodify.trans hsteps).congr fun k => by simp,
    ⟨session, session', hget, hsession', hsame.status, hsame.remote.trans (hf session).2⟩, ?_⟩
  intro m s hs hm
  rw [hnodes m s hs] at hm
  have hold : (r.modifyPeerSession (g.sessionId d) f).HasFact (.node m) := .inr ⟨s, hm⟩
  exact hown m (((hmodify.facts _).mp hold).resolve_right id)

/-- The session that all is sent over at the end of a handshake. -/
theorem steps_synced (h : Joined g n o r) (htells : Tells g n o covered r)
    (haround : Around g n o known) (hd : g.node d = n)
    (hcovered : ∀ e, e ≠ d → covered e) {session : PeerSession}
    (hget : r.getPeerSession (g.sessionId d) = some session)
    (hstatus : session.status = .connected) (hremote : session.remoteNodeInfo = info)
    (hinfo : info.Own (g.nodeId (g.node (g.opposite d))))
    (hshake : ∃ msg ∈ r.controlTo (g.sessionId d), msg.isHandshake = true)
    (hknown : ∀ k, r.HasFact k → known k)
    (hown : ∀ m s, s ≠ g.sessionId d → r.infoBase.nodes.contains (m, s) = true →
      o.aware (g.nodeId n) m) :
    Steps g n o (fun _ => True) (fun _ => False) r
        (r.infoBaseSyncPeer (g.sessionId d)) ∧
      Up g.toPeeringGraph d (r.infoBaseSyncPeer (g.sessionId d)) := by
  have hsteps := (steps_infoBaseSyncPeer h htells hget hown).1
  have hzero : session.remoteNodeInfo.id ≠ 0 := by
    rw [hremote, hinfo.id]
    exact g.nodeId_ne_zero _
  obtain ⟨msg, hmsg, hmsgShake⟩ := hshake
  obtain ⟨session', hget', hmem⟩ := mem_enqueued_of_controlTo hmsg
  cases hget.symm.trans hget'
  have htells' := htells.sync h haround hd hcovered hget hstatus hzero ⟨msg, hmem, hmsgShake⟩ hknown
    hown
  exact ⟨⟨hsteps.joined, htells', hsteps.sent, hsteps.up, hsteps.facts⟩,
    hsteps.up d ⟨session, hget, hstatus, hzero⟩⟩

/-- A connect message comes in over `d`. -/
theorem steps_connectReceived (h : Joined g n o r)
    (htells : Tells g n o (fun _ => True) r) (haround : Around g n o known)
    (hd : g.node d = n) (hasked : o.asked d)
    (hlive : (r.getPeerSession (g.sessionId d)).isSome) (hknown : ∀ k, r.HasFact k → known k)
    (hinfo : info.Own (g.nodeId (g.node (g.opposite d)))) (hother : known (.node info.id))
    (hown : ∀ m, r.HasFact (.node m) → o.aware (g.nodeId n) m) :
    ∃ r', r.connectReceived (g.sessionId d) info = some r' ∧
      Steps g n o (fun _ => True) (· = .node info.id) r r' ∧
      Up g.toPeeringGraph d r' ∧
      ∃ info, .connectResponse info ∈ r'.controlTo (g.sessionId d) := by
  obtain ⟨r₁, hreceived, hsteps, ⟨_, session, -, hget, hstatus, hremote⟩, haware⟩ :=
    steps_otherInfo h htells haround hd hlive hinfo hother (f := fun session =>
      { session with remoteNodeInfo := info, status := .connected })
      (fun _ => ⟨rises_of_same rfl (.inr rfl) (.inr hinfo) rfl, rfl⟩) hown
  have hnode : r₁.nodeInfo.Own (g.nodeId (g.node d)) := by
    rw [hd, ← hsteps.joined.nodeId]
    exact r₁.own_nodeInfo
  set r₂ := r₁.modifyPeerSession (g.sessionId d) fun session => session.sendConnectOk r₁.nodeInfo
    with hr₂
  have hanswers : Steps g n o (fun e => (True ∧ e ≠ d) ∧ e ≠ d) (fun _ => False) r₁
      r₂ := by
    refine steps_modifyPeerSession hsteps.joined hsteps.tells hd fun session => ?_
    refine ⟨rfl, .inl rfl, .inl rfl, [.connectResponse r₁.nodeInfo], rfl, fun msg hmsg => ?_⟩
    obtain rfl := List.mem_singleton.mp hmsg
    refine ⟨⟨hasked, hnode⟩, fun k hk => ?_⟩
    rw [← Option.some.inj hk]
    exact .inl rfl
  have hget₂ : r₂.getPeerSession (g.sessionId d) = some (session.sendConnectOk r₁.nodeInfo) := by
    rw [hr₂, Relay.getPeerSession_modifyPeerSession, if_pos rfl, hget]
    rfl
  have hanswer : .connectResponse r₁.nodeInfo ∈ r₂.controlTo (g.sessionId d) :=
    mem_controlTo_of_handshake hget₂ (List.mem_append_right _ (List.mem_singleton.mpr rfl)) rfl
  have hinfo₂ : r₂.infoBase = r₁.infoBase := (modifyPeerSession_rest r₁ _ _).2.1
  have hknown₂ : ∀ k, r₂.HasFact k → known k := by
    intro k hk
    rcases (((hsteps.trans hanswers).facts k).mp hk) with hold | rfl | hfalse
    · exact hknown k hold
    · exact hother
    · exact hfalse.elim
  obtain ⟨hsync, hup⟩ := steps_synced hanswers.joined hanswers.tells haround hd
    (fun e he => ⟨⟨trivial, he⟩, he⟩) hget₂ hstatus hremote hinfo ⟨_, hanswer, rfl⟩ hknown₂ (by
      rw [hinfo₂]
      exact haware)
  refine ⟨_, ?_, ((hsteps.trans hanswers).trans hsync).congr fun k => by simp, hup,
    r₁.nodeInfo, (hsync.sent _).subset hanswer⟩
  simp [Relay.connectReceived, hreceived, hr₂]

/-- The answer to a connect message comes in over `d`. -/
theorem steps_connectResponseReceived (h : Joined g n o r)
    (htells : Tells g n o (fun _ => True) r) (haround : Around g n o known)
    (hd : g.node d = n) (hlive : (r.getPeerSession (g.sessionId d)).isSome)
    (hshake : ∃ msg ∈ r.controlTo (g.sessionId d), msg.isHandshake = true)
    (hknown : ∀ k, r.HasFact k → known k)
    (hinfo : info.Own (g.nodeId (g.node (g.opposite d)))) (hother : known (.node info.id))
    (hown : ∀ m, r.HasFact (.node m) → o.aware (g.nodeId n) m) :
    ∃ r', r.connectResponseReceived (g.sessionId d) info = some r' ∧
      Steps g n o (fun _ => True) (· = .node info.id) r r' ∧
      Up g.toPeeringGraph d r' := by
  obtain ⟨r₁, hreceived, hsteps, ⟨_, session, -, hget, -, hremote⟩, haware⟩ :=
    steps_otherInfo h htells haround hd hlive hinfo hother (f := fun session =>
      { session with remoteNodeInfo := info })
      (fun _ => ⟨rises_of_same rfl (.inl rfl) (.inr hinfo) rfl, rfl⟩) hown
  -- Nothing is told over a session that was not connected before.
  obtain ⟨hfirst, P, hgrows⟩ := steps_infoBaseSyncPeer hsteps.joined hsteps.tells hget haware
  obtain ⟨session₂, subscribes, henqueues, -, hsync⟩ := Relay.infoBaseSyncPeer_eq hget
  set r₂ := r₁.infoBaseSyncPeer (g.sessionId d) with hr₂
  have hconnected := steps_modifyPeerSession hfirst.joined hfirst.tells hd
    (f := fun session => { session with status := .connected })
    fun _ => rises_of_same rfl (.inr rfl) (.inl rfl) rfl
  set r₃ := r₂.modifyPeerSession (g.sessionId d) fun session => { session with status := .connected }
    with hr₃
  have hget₂ : r₂.getPeerSession (g.sessionId d) = some session₂ := by
    rw [hsync]
    have hset := Relay.getPeerSession_setPeerSession hget session₂ (g.sessionId d)
    rw [if_pos rfl] at hset
    exact hset
  have hget₃ : r₃.getPeerSession (g.sessionId d) = some { session₂ with status := .connected } := by
    rw [hr₃, Relay.getPeerSession_modifyPeerSession, if_pos rfl, hget₂]
    rfl
  have hbefore := (hsteps.trans hfirst).trans hconnected
  have hknown₃ : ∀ k, r₃.HasFact k → known k := by
    intro k hk
    rcases (hbefore.facts k).mp hk with hold | (rfl | hfalse) | hfalse
    · exact hknown k hold
    · exact hother
    · exact hfalse.elim
    · exact hfalse.elim
  have hinfo₃ : r₃.infoBase.nodes = r₁.infoBase.nodes := by
    rw [hr₃, (modifyPeerSession_rest r₂ _ _).2.1, hsync]
    rfl
  obtain ⟨msg, hmsg, hmsgShake⟩ := hshake
  obtain ⟨hlast, hup⟩ := steps_synced hconnected.joined hconnected.tells haround hd
    (fun e he => ⟨⟨trivial, he⟩, he⟩) hget₃ rfl (henqueues.remote.trans hremote) hinfo
    ⟨msg, (hbefore.sent _).subset hmsg, hmsgShake⟩ hknown₃ (by
      rw [hinfo₃]
      exact haware)
  refine ⟨_, ?_, (hbefore.trans hlast).congr fun k => by simp, hup⟩
  simp [Relay.connectResponseReceived, hreceived, hr₂, hr₃]

/-- The transport of a session that the relay opens is ready. -/
theorem steps_transportReady (h : Joined g n o r)
    (htells : Tells g n o covered r) (hd : g.node d = n) (hopens : g.opens d = true) :
    Steps g n o covered (fun _ => False) r (r.transportReady (g.sessionId d)) ∧
      ∃ info, .connect info ∈ (r.transportReady (g.sessionId d)).controlTo (g.sessionId d) := by
  have hnode : r.nodeInfo.Own (g.nodeId (g.node d)) := by
    rw [hd, ← h.nodeId]
    exact r.own_nodeInfo
  have hsteps := steps_modifyPeerSession h htells hd
    (f := fun session => session.sendConnect r.nodeInfo)
    fun session => by
      refine ⟨rfl, .inl rfl, .inl rfl, [.connect r.nodeInfo], rfl, fun msg hmsg => ?_⟩
      obtain rfl := List.mem_singleton.mp hmsg
      refine ⟨⟨hopens, hnode⟩, fun k hk => ?_⟩
      rw [← Option.some.inj hk]
      exact .inl rfl
  have htells' := htells.grows (Relay.grows_transportReady r (g.sessionId d))
    fun k hk => .inl (((hsteps.facts k).mp hk).resolve_right id)
  refine ⟨⟨hsteps.joined, htells', hsteps.sent, hsteps.up, hsteps.facts⟩, r.nodeInfo, ?_⟩
  obtain ⟨session, hget⟩ := Option.isSome_iff_exists.mp (h.opened d hd hopens)
  have hget' : (r.transportReady (g.sessionId d)).getPeerSession (g.sessionId d) =
      some (session.sendConnect r.nodeInfo) := by
    rw [Relay.transportReady, Relay.getPeerSession_modifyPeerSession, if_pos rfl, hget]
    rfl
  exact mem_controlTo_of_handshake hget' (List.mem_append_right _ (List.mem_singleton.mpr rfl)) rfl

theorem steps_srttSampled (h : Joined g n o r)
    (htells : Tells g n o covered r) (id : PeerSessionId) (srttUs : UInt64) :
    Steps g n o covered (fun _ => False) r (r.srttSampled id srttUs) := by
  cases hget : r.getPeerSession id with
  | none =>
    have hsame : r.srttSampled id srttUs = r := by
      simp [Relay.srttSampled, Relay.modifyPeerSession, hget]
    rw [hsame]
    exact .refl h htells
  | some session =>
    obtain ⟨d, hd, rfl, -⟩ := h.session id session hget
    have hsteps := steps_modifyPeerSession h htells hd (f := fun session => { session with srttUs })
      fun _ => rises_of_same rfl (.inl rfl) (.inl rfl) rfl
    have hgrows : Relay.Grows (fun _ => False) r (r.srttSampled (g.sessionId d) srttUs) :=
      Relay.grows_modifyPeerSession r _ fun _ => Relay.sessionGrows_of_same rfl rfl rfl rfl
    exact ⟨hsteps.joined, htells.grows hgrows fun k hk =>
      .inl (((hsteps.facts k).mp hk).resolve_right id), hsteps.sent, hsteps.up, hsteps.facts⟩

/-- Node sets, which no fact rests on. -/
theorem steps_snsReceived (h : Joined g n o r)
    (htells : Tells g n o covered r) (id : PeerSessionId) (sns : SubscribeNodeSet)
    (withdraw : Bool) (updateRef : UInt64) :
    ∃ r', r.snsReceived q id sns withdraw updateRef = some r' ∧
      Steps g n o covered (fun _ => False) r r' := by
  obtain ⟨r', hreceived, hegress⟩ := h.egress.snsReceived (q := q) id sns withdraw updateRef
  have hgrows := Relay.grows_snsReceived hreceived
  obtain ⟨-, peerFib, hinfo⟩ := Relay.onlyPeerFib_snsReceived hreceived
  have hfacts : ∀ k, r'.HasFact k ↔ r.HasFact k :=
    hasFact_congr hgrows.nodeId (by rw [hinfo]) (by rw [hinfo]) (by rw [hinfo])
  refine ⟨r', hreceived, ?_, htells.grows hgrows fun k hk => .inl ((hfacts k).mp hk),
    controlTo_keeps hgrows, fun _ => (up_of_grows hgrows).mpr, fun k => by simpa using hfacts k⟩
  refine h.grows hgrows (fun msg hmsg => ?_) ?_ ?_ hegress fun k hk => (hfacts k).mpr hk
  · cases msg with
    | subscribeNodeSet sns withdraw => exact ⟨fun _ _ => trivial, fun _ hk => nomatch hk⟩
    | _ => exact hmsg.elim
  · rw [hinfo]
    exact ⟨rfl, rfl, rfl⟩
  · rw [hinfo]
    exact ⟨h.keyed.announces, h.keyed.subscribes⟩

end Handshake
end Laps.Flood
