import Laps.Flood.Announce
import Laps.Flood.Joining
import Mathlib.Data.List.TakeWhile

/-! What the relays of a graph do while sessions come up: every function of the peer manager keeps
what it has told, and tells what it learns. -/

namespace Laps.Flood

open Network Peering Std

variable {ν δ : Type*} {q : Quicr} {g : JoinGraph ν δ} {n : ν} {o : Others δ} {covered : δ → Prop}
  {r r' : Relay}
  {P : ControlMessage → Prop}

/-! ### The messages that get through -/

theorem controlTo_of_get {id : PeerSessionId} {session : PeerSession}
    (hget : r.getPeerSession id = some session) :
    r.controlTo id = session.enqueued.dropWhile fun msg => !msg.isHandshake := by
  simp [Relay.controlTo, hget]

theorem mem_enqueued_of_controlTo {id : PeerSessionId} {msg : ControlMessage}
    (hmsg : msg ∈ r.controlTo id) :
    ∃ session, r.getPeerSession id = some session ∧ msg ∈ session.enqueued := by
  cases hget : r.getPeerSession id with
  | none => simp [Relay.controlTo, hget] at hmsg
  | some session =>
    rw [controlTo_of_get hget] at hmsg
    exact ⟨session, rfl, (List.dropWhile_sublist _).subset hmsg⟩

/-- Nothing is lost after the handshake has begun. -/
theorem dropWhile_append_of_handshake {l : List ControlMessage}
    (h : ∃ msg ∈ l, msg.isHandshake = true) (new : List ControlMessage) :
    ((l ++ new).dropWhile fun msg => !msg.isHandshake) =
      (l.dropWhile fun msg => !msg.isHandshake) ++ new := by
  rw [List.dropWhile_append]
  split
  · rename_i hempty
    obtain ⟨msg, hmsg, hshake⟩ := h
    rw [List.isEmpty_iff, List.dropWhile_eq_nil_iff] at hempty
    have hnot := hempty msg hmsg
    rw [hshake] at hnot
    cases hnot
  · rfl

theorem dropWhile_prefix_append (l new : List ControlMessage) :
    (l.dropWhile fun msg => !msg.isHandshake) <+:
      ((l ++ new).dropWhile fun msg => !msg.isHandshake) := by
  rw [List.dropWhile_append]
  split
  · rename_i hempty
    rw [List.isEmpty_iff.mp hempty]
    exact List.nil_prefix
  · exact List.prefix_append _ _

theorem controlTo_keeps_of_get {id : PeerSessionId} {session session' : PeerSession}
    (hget : r.getPeerSession id = some session) (hget' : r'.getPeerSession id = some session')
    {new : List ControlMessage} (hnew : session'.enqueued = session.enqueued ++ new) :
    r.controlTo id <+: r'.controlTo id := by
  rw [controlTo_of_get hget, controlTo_of_get hget', hnew]
  exact dropWhile_prefix_append _ _

theorem controlTo_keeps (h : Relay.Grows P r r') (id : PeerSessionId) :
    r.controlTo id <+: r'.controlTo id := by
  cases hget : r.getPeerSession id with
  | none => simp [Relay.controlTo, hget]
  | some session =>
    obtain ⟨session', hget', hgrows⟩ := h.of_some hget
    obtain ⟨new, hnew, -⟩ := hgrows.enqueued
    exact controlTo_keeps_of_get hget hget' hnew

/-- What is sent on a session after its handshake has begun. -/
theorem mem_controlTo_of_new {id : PeerSessionId} {session' : PeerSession}
    (hget' : r'.getPeerSession id = some session') {old new : List ControlMessage}
    (hnew : session'.enqueued = old ++ new) (hshake : ∃ msg ∈ old, msg.isHandshake = true)
    {msg : ControlMessage} (hmsg : msg ∈ new) : msg ∈ r'.controlTo id := by
  rw [controlTo_of_get hget', hnew, dropWhile_append_of_handshake hshake]
  exact List.mem_append_right _ hmsg

/-! ### Sessions that grow -/

theorem up_of_grows (h : Relay.Grows P r r') {d : δ} :
    Up g.toPeeringGraph d r' ↔ Up g.toPeeringGraph d r := by
  constructor
  · rintro ⟨session', hget', hstatus, hremote⟩
    obtain ⟨session, hget, hgrows⟩ := h.to_some hget'
    exact ⟨session, hget, hgrows.status ▸ hstatus, hgrows.remote ▸ hremote⟩
  · rintro ⟨session, hget, hstatus, hremote⟩
    obtain ⟨session', hget', hgrows⟩ := h.of_some hget
    exact ⟨session', hget', hgrows.status.trans hstatus, hgrows.remote ▸ hremote⟩

/-- The tables on nodes are kept. -/
structure SameNodes (ib ib' : InfoBase) : Prop where
  nodes : ib'.nodes = ib.nodes
  nodesBest : ib'.nodesBest = ib.nodesBest
  nodesByPeerSession : ib'.nodesByPeerSession = ib.nodesByPeerSession

theorem SameNodes.tables {ib ib' : InfoBase} (h : SameNodes ib ib') (htables : ib.NodeTables) :
    ib'.NodeTables := by
  refine ⟨?_, fun m => ?_, ?_, ?_⟩
  · rw [h.nodes]
    exact htables.item
  · have hchosen := htables.chosen m
    unfold InfoBase.Chosen InfoBase.told at hchosen ⊢
    rw [h.nodes, h.nodesBest]
    exact hchosen
  · rw [h.nodes, h.nodesByPeerSession]
    exact htables.byPeerSession
  · rw [h.nodesByPeerSession]
    exact htables.nonempty

/-- The sessions get messages that may be sent and tell what the relay has. -/
theorem Joined.grows (h : Joined g n o r) (hgrows : Relay.Grows P r r')
    (hP : ∀ msg, P msg → (∀ d, g.node d = n → Passable g d o msg) ∧
      ∀ k, msg.fact? = some k → r'.HasFact k)
    (hnodes : SameNodes r.infoBase r'.infoBase) (hkeyed : OwnKeyed r'.infoBase)
    (hegress : r'.EgressAlive)
    (hfacts : ∀ k, r.HasFact k → r'.HasFact k) : Joined g n o r' where
  nodeId := hgrows.nodeId.trans h.nodeId
  session := by
    intro id session' hget'
    obtain ⟨session, hget, hsession⟩ := hgrows.to_some hget'
    obtain ⟨d, hd, hid, hnode, hremote⟩ := h.session id session hget
    refine ⟨d, hd, hid, hsession.nodeId.trans hnode, ?_⟩
    rw [hsession.remote]
    exact hremote
  opened := by
    intro d hd hopens
    have hlive := congrFun hgrows.live (g.sessionId d)
    unfold Relay.live at hlive
    rw [hlive]
    exact h.opened d hd hopens
  accepted := by
    intro d hd hopens
    rw [hgrows.client]
    exact h.accepted d hd hopens
  tables := hnodes.tables h.tables
  keyed := hkeyed
  alive := by
    intro m s hs
    rw [hnodes.nodes] at hs
    rw [hgrows.live]
    exact h.alive m s hs
  egress := hegress
  told := by
    intro d m hd hm
    rw [hnodes.nodes] at hm
    exact h.told d m hd hm
  paths := by
    rw [hnodes.nodes]
    exact h.paths
  passable := by
    intro d hd session' hget' msg hmsg
    obtain ⟨session, hget, hsession⟩ := hgrows.to_some hget'
    rcases hsession.new hmsg with hold | hnew
    · exact h.passable d hd session hget msg hold
    · exact (hP msg hnew).1 d hd
  sound := by
    intro id session' hget' msg hmsg k hk
    obtain ⟨session, hget, hsession⟩ := hgrows.to_some hget'
    rcases hsession.new hmsg with hold | hnew
    · exact hfacts k (h.sound id session hget msg hold k hk)
    · exact (hP msg hnew).2 k hk

/-- The sessions are told of the facts that are new. -/
theorem Tells.grows (h : Tells g n o covered r) (hgrows : Relay.Grows P r r')
    (hnew : ∀ k, r'.HasFact k → r.HasFact k ∨ ∀ d, g.node d = n → covered d →
      Up g.toPeeringGraph d r →
        o.knows d k ∨ ∃ msg ∈ r'.controlTo (g.sessionId d), msg.fact? = some k) :
    Tells g n o covered r' where
  first := by
    intro d hd hcovered hup
    obtain ⟨msg, hmsg, hshake⟩ := h.first d hd hcovered ((up_of_grows hgrows).mp hup)
    exact ⟨msg, (controlTo_keeps hgrows _).subset hmsg, hshake⟩
  told := by
    intro d hd hcovered hup k hk
    have hup' := (up_of_grows hgrows).mp hup
    rcases hnew k hk with hold | htold
    · rcases h.told d hd hcovered hup' k hold with hother | ⟨msg, hmsg, hfact⟩
      · exact .inl hother
      · exact .inr ⟨msg, (controlTo_keeps hgrows _).subset hmsg, hfact⟩
    · exact htold d hd hcovered hup'

/-- The session of an end that is up. -/
theorem Tells.handshake (h : Tells g n o covered r) {d : δ} (hd : g.node d = n)
    (hcovered : covered d) (hup : Up g.toPeeringGraph d r) :
    ∃ session, r.getPeerSession (g.sessionId d) = some session ∧ session.status = .connected ∧
      session.remoteNodeInfo.id ≠ 0 ∧ ∃ msg ∈ session.enqueued, msg.isHandshake = true := by
  obtain ⟨msg, hmsg, hshake⟩ := h.first d hd hcovered hup
  obtain ⟨session, hget, hstatus, hremote⟩ := hup
  obtain ⟨session', hget', hmem⟩ := mem_enqueued_of_controlTo hmsg
  cases hget.symm.trans hget'
  exact ⟨session, hget, hstatus, hremote, msg, hmem, hshake⟩

/-! ### The facts of a relay -/

/-- All of the info base but the client table, which no fact rests on. -/
def withoutClientFib (ib : InfoBase) : InfoBase := { ib with clientFib := ∅ }

section WithoutClientFib

variable {ib ib' : InfoBase} (h : withoutClientFib ib' = withoutClientFib ib)
include h

theorem sameNodes_of_withoutClientFib : SameNodes ib ib' where
  nodes := (congrArg InfoBase.nodes h :)
  nodesBest := (congrArg InfoBase.nodesBest h :)
  nodesByPeerSession := (congrArg InfoBase.nodesByPeerSession h :)

theorem announces_of_withoutClientFib : ib'.announces = ib.announces :=
  (congrArg InfoBase.announces h :)

theorem subscribes_of_withoutClientFib : ib'.subscribes = ib.subscribes :=
  (congrArg InfoBase.subscribes h :)

theorem peerFib_of_withoutClientFib : ib'.peerFib = ib.peerFib :=
  (congrArg InfoBase.peerFib h :)

end WithoutClientFib

/-- The facts are read off three tables. -/
theorem hasFact_congr (hnode : r'.nodeId = r.nodeId)
    (hnodes : r'.infoBase.nodes = r.infoBase.nodes)
    (hannounces : r'.infoBase.announces = r.infoBase.announces)
    (hsubscribes : r'.infoBase.subscribes = r.infoBase.subscribes) (k : Fact) :
    r'.HasFact k ↔ r.HasFact k := by
  cases k with
  | node id => simp only [Relay.HasFact, hnode, hnodes]
  | announce hash source => simp only [Relay.HasFact, hannounces]
  | subscribe hash source => simp only [Relay.HasFact, hsubscribes]

/-- Only the client table changes. -/
theorem hasFact_of_withoutClientFib (hnode : r'.nodeId = r.nodeId)
    (h : withoutClientFib r'.infoBase = withoutClientFib r.infoBase) (k : Fact) :
    r'.HasFact k ↔ r.HasFact k :=
  hasFact_congr hnode (sameNodes_of_withoutClientFib h).nodes (announces_of_withoutClientFib h)
    (subscribes_of_withoutClientFib h) k

theorem OwnKeyed.congr {ib ib' : InfoBase} (h : OwnKeyed ib)
    (hannounces : ib'.announces = ib.announces) (hsubscribes : ib'.subscribes = ib.subscribes) :
    OwnKeyed ib' := by
  refine ⟨?_, ?_⟩
  · rw [hannounces]
    exact h.announces
  · rw [hsubscribes]
    exact h.subscribes

theorem OwnKeyed.addAnnounce {ib : InfoBase} (h : OwnKeyed ib) (info : AnnounceInfo) :
    OwnKeyed (ib.addAnnounce q info).1 := by
  refine ⟨fun hash source stored hget => ?_, h.subscribes⟩
  change (ib.announces.insertIfNew₂ info.fullnameHash info.sourceNodeId info).get₂? hash source =
    some stored at hget
  rw [ExtTreeMap.get₂?_insertIfNew₂] at hget
  split at hget
  · rename_i hkey
    obtain ⟨rfl, rfl⟩ := hkey
    cases hold : ib.announces.get₂? info.fullnameHash info.sourceNodeId with
    | some old =>
      rw [hold] at hget
      cases hget
      exact h.announces _ _ old hold
    | none =>
      rw [hold] at hget
      cases hget
      exact ⟨rfl, rfl⟩
  · exact h.announces hash source stored hget

theorem OwnKeyed.addSubscribe {ib : InfoBase} (h : OwnKeyed ib) (si : SubscribeInfo) :
    OwnKeyed (ib.addSubscribe si).1 := by
  have hinsert : OwnKeyed { ib with
      subscribes := ib.subscribes.insert₂ si.trackHash.trackFullnameHash si.sourceNodeId si } := by
    refine ⟨h.announces, fun hash source stored hget => ?_⟩
    rw [ExtTreeMap.get₂?_insert₂] at hget
    split at hget
    · rename_i hkey
      cases hget
      exact ⟨hkey.1.symm, hkey.2.symm⟩
    · exact h.subscribes hash source stored hget
  unfold InfoBase.addSubscribe
  split
  · split
    · exact h
    · exact hinsert
  · exact hinsert

/-- Node sets on the sessions, and changes of the client table. -/
theorem Joined.sns (h : Joined g n o r) (hgrows : Relay.Grows Relay.IsSns r r')
    (hinfo : withoutClientFib r'.infoBase = withoutClientFib r.infoBase) :
    Joined g n o r' := by
  refine h.grows hgrows (fun msg hmsg => ?_) (sameNodes_of_withoutClientFib hinfo)
    (h.keyed.congr (announces_of_withoutClientFib hinfo) (subscribes_of_withoutClientFib hinfo))
    (h.egress.congr (peerFib_of_withoutClientFib hinfo) hgrows.live)
    fun k hk => (hasFact_of_withoutClientFib hgrows.nodeId hinfo k).mpr hk
  cases msg with
  | subscribeNodeSet sns withdraw => exact ⟨fun _ _ => trivial, fun _ hk => nomatch hk⟩
  | _ => exact hmsg.elim

theorem Tells.sns (h : Tells g n o covered r) (hgrows : Relay.Grows Relay.IsSns r r')
    (hinfo : withoutClientFib r'.infoBase = withoutClientFib r.infoBase) :
    Tells g n o covered r' :=
  h.grows hgrows fun k hk => .inl ((hasFact_of_withoutClientFib hgrows.nodeId hinfo k).mp hk)

/-- What a step does: it keeps the relay as it is in the graph and what was told, and the relay has
the facts `learned` besides. -/
structure Steps (g : JoinGraph ν δ) (n : ν) (o : Others δ) (covered : δ → Prop)
    (learned : Fact → Prop) (r r' : Relay) : Prop where
  joined : Joined g n o r'
  tells : Tells g n o covered r'
  sent : ∀ id, r.controlTo id <+: r'.controlTo id
  up : ∀ d, Up g.toPeeringGraph d r → Up g.toPeeringGraph d r'
  facts : ∀ k, r'.HasFact k ↔ r.HasFact k ∨ learned k

/-- The step that only shows on node sets and the client table. -/
theorem Steps.sns {learned : Fact → Prop} {r'' : Relay}
    (h : Steps g n o covered learned r r') (hgrows : Relay.Grows Relay.IsSns r' r'')
    (hinfo : withoutClientFib r''.infoBase = withoutClientFib r'.infoBase) :
    Steps g n o covered learned r r'' where
  joined := h.joined.sns hgrows hinfo
  tells := h.tells.sns hgrows hinfo
  sent id := (h.sent id).trans (controlTo_keeps hgrows id)
  up d hup := (up_of_grows hgrows).mpr (h.up d hup)
  facts k := (hasFact_of_withoutClientFib hgrows.nodeId hinfo k).trans (h.facts k)

/-! ### Announcements -/

def announceFact (info : AnnounceInfo) : Fact := .announce info.fullnameHash info.sourceNodeId

theorem hasFact_updateAnnounces (info : AnnounceInfo) (k : Fact) :
    (r.updateAnnounces q info false).1.HasFact k ↔ r.HasFact k ∨ k = announceFact info := by
  cases k with
  | node id => simp [Relay.HasFact, Relay.updateAnnounces, Relay.setInfoBase, InfoBase.addAnnounce,
      announceFact]
  | subscribe hash source => simp [Relay.HasFact, Relay.updateAnnounces, Relay.setInfoBase,
      InfoBase.addAnnounce, announceFact]
  | announce hash source =>
    have hholds := holds_advertised (q := q) (r := r) info (hash, source)
    simp only [Holds, announceKey, Prod.mk.injEq] at hholds
    simp only [Relay.HasFact, announceFact, Option.isSome_iff_exists, Fact.announce.injEq]
    exact hholds

/-- An announcement is stored, and goes to the sessions that are not skipped. -/
theorem Joined.announce (h : Joined g n o r) (htells : Tells g n o covered r)
    (skip : PeerSessionId → Bool) (info : AnnounceInfo)
    (hskip : ∀ d, g.node d = n → skip (g.sessionId d) = true → o.knows d (announceFact info)) :
    Steps g n o covered (· = announceFact info) r
      ((r.updateAnnounces q info false).1.sendAnnounceInfos skip info false) := by
  set r' := (r.updateAnnounces q info false).1.sendAnnounceInfos skip info false with hr'
  have hgrows : Relay.Grows (· = .announceInfo info false) r r' :=
    (Relay.grows_setInfoBase r _).trans (Relay.grows_sendAnnounceInfos _ skip info false)
  have hfacts : ∀ k, r'.HasFact k ↔ r.HasFact k ∨ k = announceFact info := by
    intro k
    rw [← hasFact_updateAnnounces (q := q)]
    exact hasFact_congr rfl rfl rfl rfl k
  refine ⟨?_, ?_, controlTo_keeps hgrows, fun _ => (up_of_grows hgrows).mpr, hfacts⟩
  · refine h.grows hgrows (fun msg hmsg => ?_) ⟨rfl, rfl, rfl⟩ (h.keyed.addAnnounce info)
      (h.egress.congr rfl hgrows.live) fun k hk => (hfacts k).mpr (.inl hk)
    rw [hmsg]
    exact ⟨fun _ _ => rfl, fun k hk => (hfacts k).mpr (.inr (Option.some.inj hk).symm)⟩
  · refine htells.grows hgrows fun k hk => ((hfacts k).mp hk).imp_right fun hnew d hd hcovered hup => ?_
    subst hnew
    cases hskipped : skip (g.sessionId d) with
    | true => exact .inl (hskip d hd hskipped)
    | false =>
      obtain ⟨session, hget, hstatus, -, hshake⟩ := htells.handshake hd hcovered hup
      have hget' : r'.getPeerSession (g.sessionId d) =
          some (session.enqueue (.announceInfo info false)) := by
        rw [hr', Relay.getPeerSession_sendAnnounceInfos]
        have hold : (r.updateAnnounces q info false).1.getPeerSession (g.sessionId d) =
            some session := hget
        simp [hold, hskipped, PeerSession.sendAnnounceInfo, hstatus]
      exact .inr ⟨_, mem_controlTo_of_new hget' rfl hshake (List.mem_singleton.mpr rfl), rfl⟩

/-- `ClientAnnounce` -/
theorem steps_clientAnnounce (h : Joined g n o r) (htells : Tells g n o covered r)
    (full : FullTrackName) (publishNamespace : Bool) :
    Steps g n o covered
      (· = .announce (q.trackHash full).trackFullnameHash (g.nodeId n)) r
      (r.clientAnnounce q full false publishNamespace) := by
  have hsent := h.announce (q := q) htells (fun _ => false)
    (r.announceInfo q full publishNamespace) fun _ _ hskip => nomatch hskip
  have hfact : announceFact (r.announceInfo q full publishNamespace) =
      .announce (q.trackHash full).trackFullnameHash (g.nodeId n) := by
    rw [← h.nodeId]
    rfl
  rw [hfact] at hsent
  unfold Relay.clientAnnounce
  dsimp only
  rw [if_neg Bool.false_ne_true]
  refine hsent.sns ?_ ?_
  · refine Relay.foldl_related Relay.Grows.refl Relay.Grows.trans (fun r' entry => ?_) _ _
    split
    · exact .refl _
    · exact Relay.grows_matchSubscribe q full _ _
  · refine (Relay.foldl_related (R := Relay.Keeps withoutClientFib fun _ => ()) Relay.Keeps.refl
      Relay.Keeps.trans (fun r' entry => ?_) _ _).info
    split
    · exact .refl _
    · exact Relay.keeps_matchSubscribe (fun _ _ => rfl) (fun _ _ _ _ => rfl) q full _ _

/-- An announcement comes in over `d`. -/
theorem steps_announceInfoReceived (h : Joined g n o r)
    (htells : Tells g n o covered r) {d : δ} (hd : g.node d = n)
    (hlive : (r.getPeerSession (g.sessionId d)).isSome) (info : AnnounceInfo)
    (hfrom : o.knows d (announceFact info)) :
    Steps g n o covered (· = announceFact info) r
      (r.announceInfoReceived q (g.sessionId d) info false) := by
  obtain ⟨session, hget⟩ := Option.isSome_iff_exists.mp hlive
  unfold Relay.announceInfoReceived
  rw [hget]
  dsimp only
  by_cases hheld : Holds r (announceKey (info, false))
  · have hupdated : (r.updateAnnounces q info false).2 = false := by
      rw [← Bool.not_eq_true, isUpdated_advertised]
      exact not_not.mpr hheld
    rw [hupdated, Bool.not_false, if_pos rfl]
    have hgrows : Relay.Grows (fun _ => False) r (r.updateAnnounces q info false).1 :=
      Relay.grows_setInfoBase r _
    have hhas : r.HasFact (announceFact info) := Option.isSome_iff_exists.mpr hheld
    have hfacts := hasFact_updateAnnounces (q := q) (r := r) info
    refine ⟨?_, ?_, controlTo_keeps hgrows, fun _ => (up_of_grows hgrows).mpr, hfacts⟩
    · exact h.grows hgrows (fun _ hmsg => hmsg.elim) ⟨rfl, rfl, rfl⟩ (h.keyed.addAnnounce info)
        (h.egress.congr rfl hgrows.live) fun k hk => (hfacts k).mpr (.inl hk)
    · refine htells.grows hgrows fun k hk => .inl ?_
      rcases (hfacts k).mp hk with hold | hnew
      · exact hold
      · exact hnew ▸ hhas
  · have hupdated : (r.updateAnnounces q info false).2 = true := (isUpdated_advertised info).mpr hheld
    rw [hupdated]
    simp only [Bool.not_true, Bool.false_eq_true, if_false]
    have hsent := h.announce (q := q) htells (· == g.sessionId d) info fun e he hskip => by
      have hed := g.sessionId_inj e d (he.trans hd.symm) (beq_iff_eq.mp hskip)
      exact hed ▸ hfrom
    have honly : ∀ {r'' : Relay}, Relay.OnlyState ((r.updateAnnounces q info
        false).1.sendAnnounceInfos (· == g.sessionId d) info false) r'' →
        Steps g n o covered (· = announceFact info) r r'' := by
      intro r'' honly
      exact hsent.sns honly.grows (by rw [honly.infoBase])
    split
    · exact honly (Relay.onlyState_publishNamespaceReceived q _ _ _)
    · exact honly (Relay.onlyState_publishReceived q _ _)

/-! ### Subscriptions -/

def subscribeFact (si : SubscribeInfo) : Fact :=
  .subscribe si.trackHash.trackFullnameHash si.sourceNodeId

/-- Nothing but the subscriptions changes. -/
theorem sameNodes_addSubscribe (ib : InfoBase) (si : SubscribeInfo) :
    SameNodes ib (ib.addSubscribe si).1 := by
  rw [InfoBase.addSubscribe_rest]
  exact ⟨rfl, rfl, rfl⟩

theorem isSome_addSubscribe (ib : InfoBase) (si : SubscribeInfo) (hash : UInt64)
    (source : NodeIdValueType) :
    ((ib.addSubscribe si).1.subscribes.get₂? hash source).isSome ↔
      (ib.subscribes.get₂? hash source).isSome ∨
        (hash = si.trackHash.trackFullnameHash ∧ source = si.sourceNodeId) := by
  have hinsert : ((ib.subscribes.insert₂ si.trackHash.trackFullnameHash si.sourceNodeId si).get₂?
      hash source).isSome ↔ (ib.subscribes.get₂? hash source).isSome ∨
        (hash = si.trackHash.trackFullnameHash ∧ source = si.sourceNodeId) := by
    rw [ExtTreeMap.get₂?_insert₂]
    split
    · rename_i hkey
      simp [hkey]
    · rename_i hkey
      simp [hkey]
  unfold InfoBase.addSubscribe
  split
  · rename_i old hold
    split
    · constructor
      · exact .inl
      · rintro (h | ⟨rfl, rfl⟩)
        · exact h
        · rw [hold]
          rfl
    · exact hinsert
  · exact hinsert

theorem hasFact_updateSubscribes (si : SubscribeInfo) (k : Fact) :
    (r.updateSubscribes si false).1.HasFact k ↔ r.HasFact k ∨ k = subscribeFact si := by
  have hrest := InfoBase.addSubscribe_rest r.infoBase si
  cases k with
  | node id =>
    have hnodes : (r.updateSubscribes si false).1.infoBase.nodes = r.infoBase.nodes :=
      (congrArg InfoBase.nodes hrest :)
    simp only [Relay.HasFact, hnodes, subscribeFact, reduceCtorEq, or_false]
    rfl
  | announce hash source =>
    have hannounces : (r.updateSubscribes si false).1.infoBase.announces = r.infoBase.announces :=
      (congrArg InfoBase.announces hrest :)
    simp only [Relay.HasFact, hannounces, subscribeFact, reduceCtorEq, or_false]
  | subscribe hash source =>
    simp only [Relay.HasFact, subscribeFact, Fact.subscribe.injEq]
    exact isSome_addSubscribe r.infoBase si hash source

/-- A subscription that is not news is stored under its number already. -/
theorem hasFact_of_not_updated {si : SubscribeInfo}
    (h : (r.updateSubscribes si false).2 = false) : r.HasFact (subscribeFact si) := by
  change (r.infoBase.addSubscribe si).2 = false at h
  unfold InfoBase.addSubscribe at h
  split at h
  · rename_i old hold
    exact Option.isSome_iff_exists.mpr ⟨old, hold⟩
  · cases h

theorem Joined.updateSubscribes (h : Joined g n o r) (si : SubscribeInfo) :
    Joined g n o (r.updateSubscribes si false).1 := by
  have hgrows : Relay.Grows (fun _ => False) r (r.updateSubscribes si false).1 :=
    Relay.grows_setInfoBase r _
  refine h.grows hgrows (fun _ hmsg => hmsg.elim) (sameNodes_addSubscribe r.infoBase si)
    (h.keyed.addSubscribe si) (h.egress.congr ?_ hgrows.live) fun k hk =>
      (hasFact_updateSubscribes si k).mpr (.inl hk)
  show (r.infoBase.addSubscribe si).1.peerFib = _
  rw [InfoBase.addSubscribe_rest]

/-- A subscription is stored, and goes to the sessions that are not skipped. -/
theorem Joined.subscribe (h : Joined g n o r) (htells : Tells g n o covered r)
    (skip : PeerSessionId → Bool) (si : SubscribeInfo)
    (hskip : ∀ d, g.node d = n → skip (g.sessionId d) = true → o.knows d (subscribeFact si)) :
    Steps g n o covered (· = subscribeFact si) r
      ((r.updateSubscribes si false).1.sendSubscribeInfos skip si false) := by
  set mid := (r.updateSubscribes si false).1 with hmid
  set r' := mid.sendSubscribeInfos skip si false with hr'
  have hsent := Relay.grows_sendSubscribeInfos mid skip si
  have hgrows := (Relay.grows_setInfoBase r (r.infoBase.addSubscribe si).1).trans hsent
  have hfacts : ∀ k, r'.HasFact k ↔ r.HasFact k ∨ k = subscribeFact si := by
    intro k
    rw [← hasFact_updateSubscribes]
    exact hasFact_congr rfl rfl rfl rfl k
  refine ⟨?_, ?_, controlTo_keeps hgrows, fun _ => (up_of_grows hgrows).mpr, hfacts⟩
  · have hmidJoined := h.updateSubscribes si
    refine hmidJoined.grows hsent (fun msg hmsg => ?_) ⟨rfl, rfl, rfl⟩ hmidJoined.keyed
      (hmidJoined.egress.congr rfl hsent.live) fun k hk => (hasFact_congr rfl rfl rfl rfl k).mpr hk
    cases msg with
    | subscribeInfo info withdraw =>
      obtain ⟨hhash, hsource, hwithdraw⟩ := hmsg
      subst hwithdraw
      refine ⟨fun _ _ => rfl, fun k hk => (hfacts k).mpr (.inr ?_)⟩
      rw [← Option.some.inj hk, hhash, hsource]
      rfl
    | _ => exact hmsg.elim
  · refine htells.grows hgrows fun k hk => ((hfacts k).mp hk).imp_right fun hnew d hd hcovered hup => ?_
    subst hnew
    cases hskipped : skip (g.sessionId d) with
    | true => exact .inl (hskip d hd hskipped)
    | false =>
      obtain ⟨session, hget, hstatus, -, hshake⟩ := htells.handshake hd hcovered hup
      obtain ⟨info, ⟨hhash, hsource⟩, hsends⟩ :=
        Relay.getPeerSession_sendSubscribe mid skip si (g.sessionId d)
      have hold : mid.getPeerSession (g.sessionId d) = some session := hget
      rw [hold, Option.map_some, if_neg (by simp [hskipped])] at hsends
      have hnew : (session.sendSubscribeInfo info false).1.enqueued = session.enqueued ++
          [.subscribeInfo (info.serialize (session.nodeId = info.sourceNodeId)) false] := by
        simp [PeerSession.sendSubscribeInfo, hstatus, PeerSession.enqueue]
      refine .inr ⟨.subscribeInfo (info.serialize (session.nodeId = info.sourceNodeId)) false,
        mem_controlTo_of_new hsends hnew hshake (List.mem_singleton.mpr rfl), ?_⟩
      · obtain ⟨hhash', hsource'⟩ := Relay.sameKey_serialize info (session.nodeId = info.sourceNodeId)
        show some (Fact.subscribe _ _) = _
        rw [hhash', hsource', hhash, hsource]
        rfl

/-- `ClientSubscribe` -/
theorem steps_clientSubscribe (h : Joined g n o r) (htells : Tells g n o covered r)
    (full : FullTrackName) (subscribeData : List UInt8) :
    Steps g n o covered
      (fun k => subscribeData ≠ [] ∧
        k = .subscribe (q.trackHash full).trackFullnameHash (g.nodeId n)) r
      (r.clientSubscribe q full subscribeData) := by
  unfold Relay.clientSubscribe
  cases subscribeData with
  | nil => exact ⟨h, htells, fun _ => List.prefix_rfl, fun _ hup => hup, fun k => by simp⟩
  | cons byte bytes =>
    rw [if_neg (by simp)]
    dsimp only
    have hsent := h.subscribe htells (fun _ => false)
      { sourceNodeId := r.nodeId, trackHash := q.trackHash full, subscribeData := byte :: bytes }
      fun _ _ hskip => nomatch hskip
    refine ⟨hsent.joined, hsent.tells, hsent.sent, hsent.up, fun k => (hsent.facts k).trans ?_⟩
    simp [subscribeFact, h.nodeId]

/-- A subscription comes in over `d`. -/
theorem steps_subscribeInfoReceived (h : Joined g n o r)
    (htells : Tells g n o covered r) {d : δ} (hd : g.node d = n)
    (hlive : (r.getPeerSession (g.sessionId d)).isSome) (si : SubscribeInfo)
    (hfrom : o.knows d (subscribeFact si)) :
    Steps g n o covered (· = subscribeFact si) r
      (r.subscribeInfoReceived q (g.sessionId d) si false) := by
  obtain ⟨session, hget⟩ := Option.isSome_iff_exists.mp hlive
  unfold Relay.subscribeInfoReceived
  rw [hget]
  dsimp only
  rw [if_neg Bool.false_ne_true]
  have hadvertised : ∀ {r' : Relay}, Steps g n o covered (· = subscribeFact si) r r' →
      Steps g n o covered (· = subscribeFact si) r
        (r'.subscribeAdvertised q (g.sessionId d) si) := by
    intro r' hsteps
    refine hsteps.sns (Relay.grows_subscribeAdvertised q r' _ si) ?_
    have hkeeps : Relay.Keeps withoutClientFib (fun _ => ()) r'
        (r'.subscribeAdvertised q (g.sessionId d) si) :=
      Relay.keeps_subscribeAdvertised (fun _ _ => rfl) (fun _ _ _ _ => rfl) q r' _ si
    exact hkeeps.info
  apply hadvertised
  cases hupdated : (r.updateSubscribes si false).2 with
  | false =>
    rw [if_neg Bool.false_ne_true]
    have hgrows : Relay.Grows (fun _ => False) r (r.updateSubscribes si false).1 :=
      Relay.grows_setInfoBase r _
    refine ⟨h.updateSubscribes si, htells.grows hgrows fun k hk => .inl ?_,
      controlTo_keeps hgrows, fun _ => (up_of_grows hgrows).mpr, hasFact_updateSubscribes si⟩
    rcases (hasFact_updateSubscribes si k).mp hk with hold | hnew
    · exact hold
    · exact hnew ▸ hasFact_of_not_updated hupdated
  | true =>
    rw [if_pos rfl]
    refine h.subscribe htells (· == g.sessionId d) si fun e he hskip => ?_
    have hed := g.sessionId_inj e d (he.trans hd.symm) (beq_iff_eq.mp hskip)
    exact hed ▸ hfrom

end Laps.Flood
