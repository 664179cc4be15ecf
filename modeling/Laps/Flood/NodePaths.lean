import Laps.Flood.NodeGraph

/-! The paths of node advertisements in a peering graph whose sessions are established one after the
other.  `InfoBaseSyncPeer` puts the relay on the path of what it sends; `NodeReceived` puts the node
itself there. -/

namespace Laps.Flood

open Network Peering Std

variable {ν δ : Type*} {q : Quicr} {g : PeeringGraph ν δ} {n : ν} {r r' r'' : Relay}

/-! ### What a relay is like -/

/-- A message that the relay at the end may send while no session is lost. -/
def Plain (g : PeeringGraph ν δ) (d : δ) : ControlMessage → Prop
  | .connect info | .connectResponse info => info.Own (g.nodeId (g.node d))
  | .nodeInfo _ withdraw => withdraw = false
  | _ => True

structure Sane (g : PeeringGraph ν δ) (n : ν) (r : Relay) : Prop where
  peered : g.Peered n r
  tables : r.infoBase.NodeTables
  alive : r.infoBase.Alive r.live
  plain : ∀ d, g.node d = n → ∀ msg ∈ r.nodeMessagesTo (g.sessionId d), Plain g d msg

/-- The session has told this of a node. -/
def Knows (r : Relay) (id : PeerSessionId) (info : NodeInfo) : Prop :=
  ∃ item, r.infoBase.nodes[(info.id, id)]? = some item ∧ item.nodeInfo = info

def IsConnect : ControlMessage → Prop
  | .connect _ | .connectResponse _ => True
  | _ => False

/-- What a relay does with the information it has and with what it learns: it sends it on with
itself at the end of the path.  With `passesOn` it may send other advertisements. -/
structure Spreads (g : PeeringGraph ν δ) (n : ν) (learned : PeerSessionId → NodeInfo → Prop)
    (passesOn : Prop) (r r' : Relay) : Prop where
  sane : Sane g n r'
  grows : ∀ id, r.nodeMessagesTo id <+: r'.nodeMessagesTo id
  knows : ∀ id info, Knows r' id info → Knows r id info ∨ learned id info
  sends : ∀ d, g.node d = n → ∀ msg ∈ r'.nodeMessagesTo (g.sessionId d),
    msg ∈ r.nodeMessagesTo (g.sessionId d) ∨ IsConnect msg ∨ passesOn ∨
    ∃ id info srttUs, (Knows r id info ∨ learned id info) ∧ info.id ≠ g.nodeId n ∧
      g.nodeId (g.node (g.opposite d)) ∉ pathIds info ∧
      msg = .nodeInfo (info.pushBack (g.nodeId n) srttUs) false

section Spreads

variable {learned : PeerSessionId → NodeInfo → Prop} {passesOn : Prop}

theorem Spreads.refl (h : Sane g n r) : Spreads g n learned passesOn r r where
  sane := h
  grows := fun _ => List.prefix_rfl
  knows := fun _ _ hknows => .inl hknows
  sends := fun _ _ _ hmsg => .inl hmsg

theorem Spreads.trans (h : Spreads g n learned passesOn r r')
    (h' : Spreads g n learned passesOn r' r'') : Spreads g n learned passesOn r r'' where
  sane := h'.sane
  grows := fun id => (h.grows id).trans (h'.grows id)
  knows := by
    intro id info hknows
    rcases h'.knows id info hknows with hknows | hlearned
    · exact h.knows id info hknows
    · exact .inr hlearned
  sends := by
    intro d hd msg hmsg
    rcases h'.sends d hd msg hmsg with hmsg | hconnect | hpasses | hspread
    · exact h.sends d hd msg hmsg
    · exact .inr (.inl hconnect)
    · exact .inr (.inr (.inl hpasses))
    · obtain ⟨id, info, srttUs, hknown, hrest⟩ := hspread
      refine .inr (.inr (.inr ⟨id, info, srttUs, ?_, hrest⟩))
      rcases hknown with hknown | hlearned
      · exact h.knows id info hknown
      · exact .inr hlearned

end Spreads

theorem nodeMessagesTo_of_get {id : PeerSessionId} {session : PeerSession}
    (h : r.getPeerSession id = some session) : r.nodeMessagesTo id = session.nodeMessages := by
  simp [Relay.nodeMessagesTo, h]

theorem separate_setPeerSession (h : r.Separate) (id : PeerSessionId) (session : PeerSession) :
    (r.setPeerSession id session).Separate := by
  intro id' hid
  unfold Relay.setPeerSession at hid ⊢
  split at hid
  · rename_i hserver
    rw [if_pos hserver]
    apply h
    by_cases heq : id' = id
    · rw [heq]
      exact hserver
    · simpa [ExtTreeMap.contains_insert, Ne.symm heq] using hid
  · rename_i hserver
    rw [if_neg hserver]
    have hne : id ≠ id' := fun heq => hserver (heq ▸ hid)
    simpa [ExtTreeMap.contains_insert, hne] using h id' hid

/-- A session that keeps its ends, or learns of the other one. -/
theorem peered_setPeerSession (h : g.Peered n r) {d : δ} (hd : g.node d = n)
    {session session' : PeerSession} (hget : r.getPeerSession (g.sessionId d) = some session)
    (hnode : session'.nodeId = session.nodeId)
    (hremote : session'.remoteNodeInfo = session.remoteNodeInfo ∨
      session'.remoteNodeInfo.Own (g.nodeId (g.node (g.opposite d)))) :
    g.Peered n (r.setPeerSession (g.sessionId d) session') := by
  have hnodeId : (r.setPeerSession (g.sessionId d) session').nodeId = r.nodeId := by
    unfold Relay.setPeerSession
    split <;> rfl
  refine ⟨hnodeId.trans h.nodeId, separate_setPeerSession h.separate _ _, ?_⟩
  intro id s hs
  rw [hnodeId]
  rw [Relay.getPeerSession_setPeerSession hget] at hs
  split at hs
  · rename_i hid
    cases hs
    obtain ⟨e, he, hsession, hown, hknown⟩ := h.session _ session hget
    obtain rfl := g.sessionId_inj e d (he.trans hd.symm) hsession
    refine ⟨e, he, hid.symm, hnode.trans hown, ?_⟩
    rcases hremote with hremote | hremote
    · rw [hremote]
      exact hknown
    · exact .inr hremote
  · exact h.session id s hs

/-- A session changes, and the subscriptions with it. -/
theorem spreads_setPeerSession {learned : PeerSessionId → NodeInfo → Prop} {passesOn : Prop}
    (h : Sane g n r) {d : δ} (hd : g.node d = n) {session session' : PeerSession}
    (hget : r.getPeerSession (g.sessionId d) = some session)
    (hnode : session'.nodeId = session.nodeId)
    (hremote : session'.remoteNodeInfo = session.remoteNodeInfo ∨
      session'.remoteNodeInfo.Own (g.nodeId (g.node (g.opposite d))))
    {new : List ControlMessage} (hsent : session'.nodeMessages = session.nodeMessages ++ new)
    (hnew : ∀ msg ∈ new, Plain g d msg ∧ (IsConnect msg ∨
      ∃ id info srttUs, Knows r id info ∧ info.id ≠ g.nodeId n ∧
        g.nodeId (g.node (g.opposite d)) ∉ pathIds info ∧
        msg = .nodeInfo (info.pushBack (g.nodeId n) srttUs) false))
    (subscribes : ExtTreeMap UInt64 (ExtTreeMap NodeIdValueType SubscribeInfo)) :
    Spreads g n learned passesOn r ((r.setPeerSession (g.sessionId d) session').setInfoBase
      { r.infoBase with subscribes }) := by
  set r' := (r.setPeerSession (g.sessionId d) session').setInfoBase
    { r.infoBase with subscribes }
  have hget' : ∀ id, r'.getPeerSession id =
      if id = g.sessionId d then some session' else r.getPeerSession id :=
    Relay.getPeerSession_setPeerSession hget session'
  have hlive : r'.live = r.live := Relay.live_setPeerSession hget session'
  have hto : ∀ id, r'.nodeMessagesTo id =
      if id = g.sessionId d then r.nodeMessagesTo id ++ new else r.nodeMessagesTo id := by
    intro id
    by_cases hid : id = g.sessionId d
    · subst hid
      rw [if_pos rfl, nodeMessagesTo_of_get (by rw [hget', if_pos rfl]), nodeMessagesTo_of_get hget,
        hsent]
    · rw [if_neg hid, Relay.nodeMessagesTo, hget', if_neg hid]
      rfl
  have hpeered := peered_setPeerSession h.peered hd hget hnode hremote
  refine ⟨⟨⟨hpeered.nodeId, hpeered.separate, hpeered.session⟩, ?_, ?_, ?_⟩, ?_, ?_, ?_⟩
  · exact ⟨h.tables.item, h.tables.chosen, h.tables.byPeerSession, h.tables.nonempty⟩
  · rw [hlive]
    exact h.alive
  · intro e he msg hmsg
    rw [hto] at hmsg
    split at hmsg
    · rename_i hid
      obtain rfl := g.sessionId_inj e d (he.trans hd.symm) hid
      rcases List.mem_append.mp hmsg with hmsg | hmsg
      · exact h.plain e he msg hmsg
      · exact (hnew msg hmsg).1
    · exact h.plain e he msg hmsg
  · intro id
    rw [hto]
    split
    · exact List.prefix_append _ _
    · exact List.prefix_rfl
  · exact fun _ _ hknows => .inl hknows
  · intro e he msg hmsg
    rw [hto] at hmsg
    split at hmsg
    · rename_i hid
      obtain rfl := g.sessionId_inj e d (he.trans hd.symm) hid
      rcases List.mem_append.mp hmsg with hmsg | hmsg
      · exact .inl hmsg
      · rcases (hnew msg hmsg).2 with hconnect | ⟨id, info, srttUs, hknows, hrest⟩
        · exact .inr (.inl hconnect)
        · exact .inr (.inr (.inr ⟨id, info, srttUs, .inl hknows, hrest⟩))
    · exact .inl hmsg

/-- A session changes and nothing else. -/
theorem spreads_modifyPeerSession (learned : PeerSessionId → NodeInfo → Prop) (passesOn : Prop)
    (h : Sane g n r) {d : δ} (hd : g.node d = n) {f : PeerSession → PeerSession}
    (hf : ∀ session, (f session).nodeId = session.nodeId ∧
      ((f session).remoteNodeInfo = session.remoteNodeInfo ∨
        (f session).remoteNodeInfo.Own (g.nodeId (g.node (g.opposite d)))) ∧
      ∃ new, (f session).nodeMessages = session.nodeMessages ++ new ∧
        ∀ msg ∈ new, Plain g d msg ∧ IsConnect msg) :
    Spreads g n learned passesOn r (r.modifyPeerSession (g.sessionId d) f) := by
  unfold Relay.modifyPeerSession
  split
  · exact .refl h
  · rename_i session hget
    obtain ⟨hnode, hremote, new, hsent, hnew⟩ := hf session
    have hspreads : Spreads g n learned passesOn r
        ((r.setPeerSession (g.sessionId d) (f session)).setInfoBase
          { r.infoBase with subscribes := r.infoBase.subscribes }) :=
      spreads_setPeerSession h hd hget hnode hremote hsent
        (fun msg hmsg => ⟨(hnew msg hmsg).1, .inl (hnew msg hmsg).2⟩) r.infoBase.subscribes
    have hsame : (r.setPeerSession (g.sessionId d) (f session)).setInfoBase
        { r.infoBase with subscribes := r.infoBase.subscribes } =
        r.setPeerSession (g.sessionId d) (f session) := by
      unfold Relay.setPeerSession
      split <;> rfl
    rwa [hsame] at hspreads

/-! ### Advertisements that are passed on -/

/-- `NodeReceived` changes the best session of the node, and there is a session that the
advertisement is not kept from. -/
def PassesOn (g : PeeringGraph ν δ) (n : ν) (r : Relay) (id : PeerSessionId) (info : NodeInfo) :
    Prop :=
  ∃ session ib, r.getPeerSession id = some session ∧
    r.infoBase.addNode r.live id info = some (ib, true) ∧
    ∃ d, g.node d = n ∧ ∃ session', r.getPeerSession (g.sessionId d) = some session' ∧
      Relay.skipNode (info.pushBack info.id session.srttUs) session'.remoteNodeInfo = false ∧
      session'.status = .connected

theorem knows_insertNode {ib : InfoBase} {id s : PeerSessionId} {info info' : NodeInfo}
    {item : NodeItem}
    (h : (ib.insertNode id info).nodes[(info'.id, s)]? = some item) (hitem : item.nodeInfo = info') :
    ib.nodes[(info'.id, s)]? = some item ∨ (s = id ∧ info' = info) := by
  rw [InfoBase.getElem?_nodes_insertNode] at h
  split at h
  · rename_i hkey
    cases h
    exact .inr ⟨hkey.2, hitem.symm⟩
  · exact .inl h

/-- An advertisement goes to the connected sessions that it is not kept from. -/
theorem nodeMessagesTo_propagateNodeInfo (r : Relay) (ib : InfoBase) (info : NodeInfo)
    (id : PeerSessionId) :
    ((r.setInfoBase ib).propagateNodeInfo info false).nodeMessagesTo id =
      r.nodeMessagesTo id ++ (r.getPeerSession id).elim [] fun session =>
        if Relay.skipNode info session.remoteNodeInfo = false ∧ session.status = .connected
        then [.nodeInfo info false] else [] := by
  have hafter : ((r.setInfoBase ib).propagateNodeInfo info false).getPeerSession id =
      (r.getPeerSession id).map fun session =>
        if Relay.skipNode info session.remoteNodeInfo then session
        else session.sendNodeInfo info false :=
    Relay.getPeerSession_propagateNodeInfo ..
  cases hget : r.getPeerSession id with
  | none =>
    rw [hget, Option.map_none] at hafter
    simp [Relay.nodeMessagesTo, hget, hafter]
  | some session =>
    rw [hget, Option.map_some] at hafter
    rw [nodeMessagesTo_of_get hafter, nodeMessagesTo_of_get hget, Option.elim_some]
    cases hskip : Relay.skipNode info session.remoteNodeInfo with
    | true => simp
    | false => simpa using session.nodeMessages_sendNodeInfo info false

/-- A relay that has learned a route passes it on. -/
theorem spreads_propagate (h : Sane g n r) {id : PeerSessionId} {info : NodeInfo}
    {session : PeerSession} (hget : r.getPeerSession id = some session) {ib : InfoBase}
    (hadd : r.infoBase.addNode r.live id info = some (ib, true)) (htables : ib.NodeTables)
    (halive : ib.Alive r.live)
    (hknows : ∀ s i, (∃ item, ib.nodes[(i.id, s)]? = some item ∧ item.nodeInfo = i) →
      Knows r s i ∨ (s = id ∧ i = info)) :
    let r' := (r.setInfoBase ib).propagateNodeInfo (info.pushBack info.id session.srttUs) false
    Spreads g n (fun s i => s = id ∧ i = info) (PassesOn g n r id info) r r' ∧
      (∃ P, Relay.Tells P r r') ∧
      (PassesOn g n r id info → ∃ d srttUs, g.node d = n ∧
        .nodeInfo (info.pushBack info.id srttUs) false ∈ r'.nodeMessagesTo (g.sessionId d)) := by
  intro r'
  set info' := info.pushBack info.id session.srttUs with hinfo'
  have htells : Relay.Tells (Relay.Propagated info' false) r r' :=
    (Relay.tells_propagateNodeInfo (r.setInfoBase ib) info' false).of_setInfoBase
  have hto := nodeMessagesTo_propagateNodeInfo r ib info'
  have hcases : ∀ d, g.node d = n → ∀ msg ∈ r'.nodeMessagesTo (g.sessionId d),
      msg ∈ r.nodeMessagesTo (g.sessionId d) ∨
        (PassesOn g n r id info ∧ msg = .nodeInfo info' false) := by
    intro d hd msg hmsg
    rw [hto, List.mem_append] at hmsg
    refine hmsg.imp_right fun hmsg => ?_
    cases hs : r.getPeerSession (g.sessionId d) with
    | none =>
      rw [hs] at hmsg
      cases hmsg
    | some s =>
      rw [hs, Option.elim_some] at hmsg
      split at hmsg
      · rename_i hsends
        exact ⟨⟨session, ib, hget, hadd, d, hd, s, hs, hsends.1, hsends.2⟩,
          List.mem_singleton.mp hmsg⟩
      · cases hmsg
  refine ⟨⟨⟨h.peered.tells htells, htables, ?_, ?_⟩, ?_, hknows, ?_⟩, ⟨_, htells⟩, ?_⟩
  · have hlives : r'.live = r.live := Relay.live_propagateNodeInfo (r.setInfoBase ib) info' false
    rw [hlives]
    exact halive
  · intro d hd msg hmsg
    rcases hcases d hd msg hmsg with hmsg | ⟨-, rfl⟩
    · exact h.plain d hd msg hmsg
    · rfl
  · intro id'
    rw [hto]
    exact List.prefix_append _ _
  · intro d hd msg hmsg
    rcases hcases d hd msg hmsg with hmsg | ⟨hpasses, -⟩
    · exact .inl hmsg
    · exact .inr (.inr (.inl hpasses))
  · rintro ⟨session₁, ib₁, hget₁, -, d, hd, s, hs, hskip, hstatus⟩
    cases hget.symm.trans hget₁
    refine ⟨d, session.srttUs, hd, ?_⟩
    rw [hto, hs, Option.elim_some, if_pos ⟨hskip, hstatus⟩]
    exact List.mem_append_right _ (List.mem_singleton.mpr rfl)

/-- A relay gets an advertisement. -/
theorem spreads_nodeReceived (h : Sane g n r) (id : PeerSessionId) (info : NodeInfo) :
    ∃ r', r.nodeReceived id info false = some r' ∧
      Spreads g n (fun s i => s = id ∧ i = info) (PassesOn g n r id info) r r' ∧
      (∃ P, Relay.Tells P r r') ∧
      (PassesOn g n r id info → ∃ d srttUs, g.node d = n ∧
        .nodeInfo (info.pushBack info.id srttUs) false ∈ r'.nodeMessagesTo (g.sessionId d)) := by
  cases hget : r.getPeerSession id with
  | none =>
    refine ⟨r, by simp [Relay.nodeReceived, hget], .refl h, ⟨_, .refl r⟩, ?_⟩
    rintro ⟨session, ib, hsession, -⟩
    rw [hget] at hsession
    cases hsession
  | some session =>
    have hlive : r.live id = true := by simp [Relay.live, hget]
    obtain ⟨ib, isUpdated, hadd, hsame, htables, -⟩ := h.tables.addNode h.alive info hlive
    have hnodes : ib.nodes = (r.infoBase.insertNode id info).nodes := by rw [hsame.same]
    have halive : ib.Alive r.live := by
      intro m s hs
      rw [hnodes] at hs
      rcases (InfoBase.contains_nodes_insertNode r.infoBase id info m s).mp hs with ⟨-, rfl⟩ | hs
      · exact hlive
      · exact h.alive m s hs
    have hknows : ∀ s i, (∃ item, ib.nodes[(i.id, s)]? = some item ∧ item.nodeInfo = i) →
        Knows r s i ∨ (s = id ∧ i = info) := by
      rintro s i ⟨item, hitem, hi⟩
      rw [hnodes] at hitem
      rcases knows_insertNode hitem hi with hold | hnew
      · exact .inl ⟨item, hold, hi⟩
      · exact .inr hnew
    cases isUpdated with
    | false =>
      have htells : Relay.Tells Relay.Silent r (r.setInfoBase ib) :=
        (Relay.Tells.refl _).of_setInfoBase
      refine ⟨r.setInfoBase ib, by simp [Relay.nodeReceived, hget, hadd], ?_, ⟨_, htells⟩, ?_⟩
      · exact ⟨⟨h.peered.tells htells, htables, halive, h.plain⟩, fun _ => List.prefix_rfl,
          hknows, fun _ _ _ hmsg => .inl hmsg⟩
      · rintro ⟨_, _, -, hadd', -⟩
        rw [hadd] at hadd'
        cases hadd'
    | true =>
      exact ⟨_, by simp [Relay.nodeReceived, hget, hadd],
        spreads_propagate h hget hadd htables halive hknows⟩

/-! ### Sessions that come up -/

/-- The session knows its other end. -/
def RemoteKnown (g : PeeringGraph ν δ) (d : δ) (r : Relay) : Prop :=
  ∀ session, r.getPeerSession (g.sessionId d) = some session →
    session.remoteNodeInfo.Own (g.nodeId (g.node (g.opposite d)))

theorem RemoteKnown.tells {P : PeerSession → List ControlMessage → Prop} {d : δ}
    (h : RemoteKnown g d r) (htells : Relay.Tells P r r') : RemoteKnown g d r' := by
  intro session' hget'
  obtain ⟨session, new, hget, -, hremote, -, -⟩ := htells.session _ session' hget'
  rw [hremote]
  exact h session hget

theorem RemoteKnown.modify {d : δ} (h : RemoteKnown g d r) {f : PeerSession → PeerSession}
    (hf : ∀ session, (f session).remoteNodeInfo = session.remoteNodeInfo) :
    RemoteKnown g d (r.modifyPeerSession (g.sessionId d) f) := by
  intro session' hget'
  rw [Relay.getPeerSession_modifyPeerSession, if_pos rfl] at hget'
  obtain ⟨session, hget, rfl⟩ := Option.map_eq_some_iff.mp hget'
  rw [hf]
  exact h session hget

/-- A session gets all that the relay knows. -/
theorem spreads_infoBaseSyncPeer (learned : PeerSessionId → NodeInfo → Prop) (passesOn : Prop)
    (h : Sane g n r) {d : δ} (hd : g.node d = n) (hremote : RemoteKnown g d r) :
    Spreads g n learned passesOn r (r.infoBaseSyncPeer (g.sessionId d)) ∧
      RemoteKnown g d (r.infoBaseSyncPeer (g.sessionId d)) := by
  cases hget : r.getPeerSession (g.sessionId d) with
  | none =>
    have hsame : r.infoBaseSyncPeer (g.sessionId d) = r := by simp [Relay.infoBaseSyncPeer, hget]
    rw [hsame]
    exact ⟨.refl h, hremote⟩
  | some session =>
    obtain ⟨session', subscribes, hsends, hsync⟩ := Relay.infoBaseSyncPeer_spec hget
    obtain ⟨-, -, -, hown, -⟩ := h.peered.session _ session hget
    have hother := hremote session hget
    rw [hsync]
    refine ⟨spreads_setPeerSession h hd hget hsends.nodeId (.inl hsends.remote) hsends.messages ?_
      subscribes, ?_⟩
    · intro msg hmsg
      unfold Relay.synced at hmsg
      split at hmsg
      · obtain ⟨⟨⟨m, s⟩, item⟩, hentry, rfl⟩ := List.mem_map.mp hmsg
        obtain ⟨hentry, hskip⟩ := List.mem_filter.mp hentry
        have hitem := ExtTreeMap.mem_toList_iff_getElem?_eq_some.mp hentry
        obtain ⟨-, hid⟩ := h.tables.item m s item hitem
        simp only [Relay.skipSync, Bool.not_eq_true', Bool.or_eq_false_iff, decide_eq_false_iff_not,
          List.any_eq_false, decide_eq_true_eq] at hskip
        obtain ⟨⟨⟨hself, -⟩, -⟩, hpath⟩ := hskip
        have hnode : session.nodeId = g.nodeId n := hown.trans h.peered.nodeId
        refine ⟨rfl, .inr ⟨s, item.nodeInfo, session.srttUs, ⟨item, ?_, rfl⟩, ?_, ?_, ?_⟩⟩
        · rw [hid]
          exact hitem
        · rw [hid, ← hnode]
          exact hself
        · intro hmem
          obtain ⟨hop, hhop, heq⟩ := List.mem_map.mp hmem
          apply hpath hop hhop
          rw [hother.id]
          exact heq
        · rw [hnode]
      · cases hmsg
    · intro session₁ hget₁
      have hset : ((r.setPeerSession (g.sessionId d) session').setInfoBase
          { r.infoBase with subscribes }).getPeerSession (g.sessionId d) = some session' := by
        have hany := Relay.getPeerSession_setPeerSession hget session' (g.sessionId d)
        rw [if_pos rfl] at hany
        exact hany
      rw [hset] at hget₁
      cases hget₁
      rw [hsends.remote]
      exact hother

/-- The relay when `NodeReceived` is called for a message, and what it is called with. -/
def beforeNodeReceived (r : Relay) (id : PeerSessionId) : ControlMessage → Option (Relay × NodeInfo)
  | .connect info => some (r.modifyPeerSession id fun session =>
      { session with remoteNodeInfo := info, status := .connected }, info)
  | .connectResponse info => some (r.modifyPeerSession id fun session =>
      { session with remoteNodeInfo := info }, info)
  | .nodeInfo info false => some (r, info)
  | _ => none

/-- The message makes the relay pass an advertisement on. -/
def Forwards (g : PeeringGraph ν δ) (n : ν) (r : Relay) (id : PeerSessionId) (msg : ControlMessage) :
    Prop :=
  ∃ before info, beforeNodeReceived r id msg = some (before, info) ∧ PassesOn g n before id info

/-- What the other end of a session tells, with a message that comes in over `d`. -/
def learnedFrom (g : PeeringGraph ν δ) (d : δ) (msg : ControlMessage) (id : PeerSessionId)
    (info : NodeInfo) : Prop :=
  id = g.sessionId d ∧ (msg = .connect info ∨ msg = .connectResponse info ∨
    msg = .nodeInfo info false)

theorem Spreads.mono {learned learned' : PeerSessionId → NodeInfo → Prop} {p p' : Prop}
    (h : Spreads g n learned p r r') (hlearned : ∀ id info, learned id info → learned' id info)
    (hp : p → p') : Spreads g n learned' p' r r' where
  sane := h.sane
  grows := h.grows
  knows := fun id info hknows => (h.knows id info hknows).imp_right (hlearned id info)
  sends := by
    intro d hd msg hmsg
    rcases h.sends d hd msg hmsg with hmsg | hconnect | hpasses | hspread
    · exact .inl hmsg
    · exact .inr (.inl hconnect)
    · exact .inr (.inr (.inl (hp hpasses)))
    · obtain ⟨id, info, srttUs, hknown, hrest⟩ := hspread
      exact .inr (.inr (.inr ⟨id, info, srttUs, hknown.imp_right (hlearned id info), hrest⟩))

/-- Every advertisement that is passed on has the node itself on its path. -/
def SendsNode (g : PeeringGraph ν δ) (n : ν) (r : Relay) : Prop :=
  ∃ (d : δ) (info : NodeInfo) (srttUs : UInt64), g.node d = n ∧
    .nodeInfo (info.pushBack info.id srttUs) false ∈ r.nodeMessagesTo (g.sessionId d)

theorem SendsNode.grows {learned : PeerSessionId → NodeInfo → Prop} {p : Prop}
    (h : SendsNode g n r) (hspreads : Spreads g n learned p r r') : SendsNode g n r' := by
  obtain ⟨d, info, srttUs, hd, hmsg⟩ := h
  exact ⟨d, info, srttUs, hd, (hspreads.grows _).subset hmsg⟩

/-- The call of `NodeReceived` for a message, after the session was changed by `f`. -/
theorem spreads_beforeNodeReceived (h : Sane g n r) {d : δ} (hd : g.node d = n)
    (msg : ControlMessage) {info : NodeInfo}
    (hinfo : info.Own (g.nodeId (g.node (g.opposite d))))
    (f : PeerSession → PeerSession)
    (hf : ∀ session, (f session).nodeId = session.nodeId ∧ (f session).remoteNodeInfo = info ∧
      (f session).nodeMessages = session.nodeMessages)
    (hbefore : beforeNodeReceived r (g.sessionId d) msg =
      some (r.modifyPeerSession (g.sessionId d) f, info))
    (hmsg : msg = .connect info ∨ msg = .connectResponse info) :
    ∃ r', (r.modifyPeerSession (g.sessionId d) f).nodeReceived (g.sessionId d) info false =
        some r' ∧
      Spreads g n (learnedFrom g d msg) (Forwards g n r (g.sessionId d) msg) r r' ∧
      RemoteKnown g d r' ∧ r'.nodeId = g.nodeId n ∧
      (Forwards g n r (g.sessionId d) msg → SendsNode g n r') := by
  have hmodify : Spreads g n (learnedFrom g d msg) (Forwards g n r (g.sessionId d) msg) r
      (r.modifyPeerSession (g.sessionId d) f) := by
    apply spreads_modifyPeerSession _ _ h hd
    intro session
    obtain ⟨hnode, hremote, hsent⟩ := hf session
    refine ⟨hnode, .inr (hremote ▸ hinfo), [], ?_, fun _ hnil => by cases hnil⟩
    rw [hsent, List.append_nil]
  have hknown : RemoteKnown g d (r.modifyPeerSession (g.sessionId d) f) := by
    intro session' hget'
    rw [Relay.getPeerSession_modifyPeerSession, if_pos rfl] at hget'
    obtain ⟨session, -, rfl⟩ := Option.map_eq_some_iff.mp hget'
    exact (hf session).2.1 ▸ hinfo
  obtain ⟨r', hreceived, hspreads, ⟨P, htells⟩, hsends⟩ :=
    spreads_nodeReceived hmodify.sane (g.sessionId d) info
  refine ⟨r', hreceived, hmodify.trans (hspreads.mono ?_ ?_), hknown.tells htells,
    hspreads.sane.peered.nodeId, ?_⟩
  · rintro id info' ⟨rfl, rfl⟩
    exact ⟨rfl, hmsg.imp_right .inl⟩
  · exact fun hpasses => ⟨_, _, hbefore, hpasses⟩
  · rintro ⟨before, info', hbefore', hpasses⟩
    cases hbefore.symm.trans hbefore'
    obtain ⟨e, srttUs, he, hmem⟩ := hsends hpasses
    exact ⟨e, info, srttUs, he, hmem⟩

/-- A relay gets a message about a node. -/
theorem spreads_nodeMessageReceived (h : Sane g n r) {d : δ} (hd : g.node d = n)
    {msg : ControlMessage} (hplain : Plain g (g.opposite d) msg) :
    ∃ r', r.nodeMessageReceived (g.sessionId d) msg = some r' ∧
      Spreads g n (learnedFrom g d msg) (Forwards g n r (g.sessionId d) msg) r r' ∧
      (Forwards g n r (g.sessionId d) msg → SendsNode g n r') := by
  cases msg with
  | connect info =>
    obtain ⟨r₁, hreceived, hspreads, hknown, hnode, hsends⟩ :=
      spreads_beforeNodeReceived h hd (.connect info) hplain
        (fun session => { session with remoteNodeInfo := info, status := .connected })
        (fun _ => ⟨rfl, rfl, rfl⟩) rfl (.inl rfl)
    set learned := learnedFrom g d (.connect info)
    set passesOn := Forwards g n r (g.sessionId d) (.connect info)
    have hok : Spreads g n learned passesOn r₁ (r₁.modifyPeerSession (g.sessionId d)
        fun session => session.sendConnectOk r₁.nodeInfo) := by
      apply spreads_modifyPeerSession _ _ hspreads.sane hd
      intro session
      refine ⟨rfl, .inl rfl, [.connectResponse r₁.nodeInfo], session.nodeMessages_enqueue _, ?_⟩
      intro msg hmsg
      cases List.mem_singleton.mp hmsg
      have hown := r₁.own_nodeInfo
      rw [hnode, ← hd] at hown
      exact ⟨hown, trivial⟩
    have hsync := (spreads_infoBaseSyncPeer learned passesOn hok.sane hd
      (hknown.modify fun _ => rfl)).1
    have hall := (hspreads.trans hok).trans hsync
    refine ⟨_, ?_, hall, fun hforwards => (hsends hforwards).grows (hok.trans hsync)⟩
    simp [Relay.nodeMessageReceived, Relay.connectReceived, hreceived]
  | connectResponse info =>
    obtain ⟨r₁, hreceived, hspreads, hknown, hnode, hsends⟩ :=
      spreads_beforeNodeReceived h hd (.connectResponse info) hplain
        (fun session => { session with remoteNodeInfo := info })
        (fun _ => ⟨rfl, rfl, rfl⟩) rfl (.inr rfl)
    set learned := learnedFrom g d (.connectResponse info)
    set passesOn := Forwards g n r (g.sessionId d) (.connectResponse info)
    obtain ⟨hsync, hknown'⟩ := spreads_infoBaseSyncPeer learned passesOn hspreads.sane hd hknown
    have hstatus := spreads_modifyPeerSession learned passesOn hsync.sane hd
      (f := fun session => { session with status := .connected })
      fun session => ⟨rfl, .inl rfl, [], (List.append_nil _).symm, fun _ hnil => by cases hnil⟩
    have hsync' := (spreads_infoBaseSyncPeer learned passesOn hstatus.sane hd
      (hknown'.modify fun _ => rfl)).1
    have hrest := (hsync.trans hstatus).trans hsync'
    refine ⟨_, ?_, hspreads.trans hrest, fun hforwards => (hsends hforwards).grows hrest⟩
    simp [Relay.nodeMessageReceived, Relay.connectResponseReceived, hreceived]
  | nodeInfo info withdraw =>
    cases hplain
    obtain ⟨r', hreceived, hspreads, -, hsends⟩ := spreads_nodeReceived h (g.sessionId d) info
    refine ⟨r', hreceived, hspreads.mono ?_ ?_, ?_⟩
    · rintro id info' ⟨rfl, rfl⟩
      exact ⟨rfl, .inr (.inr rfl)⟩
    · exact fun hpasses => ⟨r, info, rfl, hpasses⟩
    · rintro ⟨before, info', hbefore, hpasses⟩
      cases hbefore
      obtain ⟨e, srttUs, he, hmem⟩ := hsends hpasses
      exact ⟨e, info, srttUs, he, hmem⟩
  | subscribeNodeSet sns withdraw =>
    exact ⟨r, rfl, .refl h, by rintro ⟨_, _, hbefore, -⟩; cases hbefore⟩
  | announceInfo info withdraw =>
    exact ⟨r, rfl, .refl h, by rintro ⟨_, _, hbefore, -⟩; cases hbefore⟩
  | subscribeInfo info withdraw =>
    exact ⟨r, rfl, .refl h, by rintro ⟨_, _, hbefore, -⟩; cases hbefore⟩

/-! ### Networks -/

section Net

variable (q g)

/-- The path of a message on an end tells where the information has come through: the relay of the
end is last, the path is empty when it tells of itself, and each relay on it has sent the
information with the path up to itself. -/
structure Recorded (net : Net ν δ NodeState) (d : δ) (info : NodeInfo) : Prop where
  last : (info.path = [] ∧ info.id = g.nodeId (g.node d)) ∨
    ∃ item, info.path.getLast? = some item ∧ item.id = g.nodeId (g.node d)
  distinct : (pathIds info).Nodup
  node : info.id ∉ pathIds info
  addressee : g.nodeId (g.node (g.opposite d)) ∉ pathIds info
  forwarded : ∀ (k : ℕ) (item : NodePathItem), info.path[k]? = some item →
    ∃ e info', g.nodeId (g.node e) = item.id ∧
      .nodeInfo info' false ∈ net.sent g.toTopology (nodeProtocol q g) e ∧ info'.id = info.id ∧
      info'.path = info.path.take (k + 1)

def PathsRecorded (net : Net ν δ NodeState) : Prop :=
  ∀ d info withdraw, .nodeInfo info withdraw ∈ net.sent g.toTopology (nodeProtocol q g) d →
    Recorded q g net d info

/-- The end has sent the information, or its relay has told it of itself. -/
def Hears (net : Net ν δ NodeState) (d : δ) (info : NodeInfo) : Prop :=
  info.Own (g.nodeId (g.node d)) ∨
    .nodeInfo info false ∈ net.sent g.toTopology (nodeProtocol q g) d

/-- What a relay knows was sent to it. -/
def NetHears (net : Net ν δ NodeState) : Prop :=
  ∀ n r id info, net.nodes n = .up r → Knows r id info →
    ∃ d, g.node d = n ∧ g.sessionId d = id ∧ Hears q g net (g.opposite d) info

def NetSane (net : Net ν δ NodeState) : Prop :=
  ∀ n, ∃ r, net.nodes n = .up r ∧ Sane g n r

variable {q g}

theorem sent_of_some {net : Net ν δ NodeState} {d : δ} {r : Relay}
    (hr : net.nodes (g.node d) = .up r) :
    net.sent g.toTopology (nodeProtocol q g) d = r.nodeMessagesTo (g.sessionId d) := by
  rw [Net.sent, hr]
  rfl

/-- A relay that keeps what it has sent over its sessions stays up. -/
theorem receive_up {id : PeerSessionId} {msg : ControlMessage}
    (h : r.nodeMessageReceived id msg = some r')
    (hgrows : ∀ id, r.nodeMessagesTo id <+: r'.nodeMessagesTo id) :
    (NodeState.up r).receive id msg = .up r' := by
  have hwire : ∀ id, (if r'.live id then [] else r.nodeMessagesTo id) = [] := by
    intro id
    split
    · rfl
    · rename_i hgone
      have hnone := hgrows id
      rw [nodeMessagesTo_of_not_live (Bool.eq_false_iff.mpr hgone)] at hnone
      exact List.prefix_nil.mp hnone
  change (NodeState.up r).call r (r.nodeMessageReceived id msg) = .up r'
  rw [h]
  simp [NodeState.call, NodeState.up, hwire]

section Grows

variable {net net' : Net ν δ NodeState}
  (hgrows : ∀ d, ∀ msg ∈ net.sent g.toTopology (nodeProtocol q g) d,
    msg ∈ net'.sent g.toTopology (nodeProtocol q g) d)

include hgrows

theorem Recorded.grows {d : δ} {info : NodeInfo} (h : Recorded q g net d info) :
    Recorded q g net' d info where
  last := h.last
  distinct := h.distinct
  node := h.node
  addressee := h.addressee
  forwarded := by
    intro k item hitem
    obtain ⟨e, info', he, hmsg, hrest⟩ := h.forwarded k item hitem
    exact ⟨e, info', he, hgrows e _ hmsg, hrest⟩

theorem Hears.grows {d : δ} {info : NodeInfo} (h : Hears q g net d info) :
    Hears q g net' d info :=
  h.imp_right (hgrows d _)

/-- Information that was heard goes on with the relay at the end of its path. -/
theorem Hears.recorded (hirrefl : ∀ d, g.node (g.opposite d) ≠ g.node d)
    (hrecorded : PathsRecorded q g net) {d e : δ} (hde : g.node d = g.node e) {info : NodeInfo}
    (h : Hears q g net (g.opposite d) info) (hself : info.id ≠ g.nodeId (g.node e))
    (haddressee : g.nodeId (g.node (g.opposite e)) ∉ pathIds info) {srttUs : UInt64}
    (hmsg : .nodeInfo (info.pushBack (g.nodeId (g.node e)) srttUs) false ∈
      net'.sent g.toTopology (nodeProtocol q g) e) :
    Recorded q g net' e (info.pushBack (g.nodeId (g.node e)) srttUs) := by
  have hheard : (pathIds info).Nodup ∧ info.id ∉ pathIds info ∧
      g.nodeId (g.node e) ∉ pathIds info ∧
      ∀ (k : ℕ) (item : NodePathItem), info.path[k]? = some item →
        ∃ e' info', g.nodeId (g.node e') = item.id ∧
          .nodeInfo info' false ∈ net'.sent g.toTopology (nodeProtocol q g) e' ∧
          info'.id = info.id ∧ info'.path = info.path.take (k + 1) := by
    rcases h with hown | hsent
    · simp [pathIds, hown.path]
    · have hold := (hrecorded _ info false hsent).grows hgrows
      refine ⟨hold.distinct, hold.node, ?_, hold.forwarded⟩
      have hto := hold.addressee
      rwa [g.opposite_opposite, hde] at hto
  obtain ⟨hdistinct, hnode, hrelay, hforwarded⟩ := hheard
  refine ⟨.inr ⟨⟨g.nodeId (g.node e), srttUs⟩, by simp [NodeInfo.pushBack], rfl⟩, ?_, ?_, ?_, ?_⟩
  · rw [pathIds_pushBack]
    refine List.nodup_append.mpr ⟨hdistinct, by simp, ?_⟩
    intro a ha b hb heq
    rw [heq, List.mem_singleton.mp hb] at ha
    exact hrelay ha
  · rw [pathIds_pushBack, List.mem_append, List.mem_singleton]
    rintro (hmem | heq)
    · exact hnode hmem
    · exact hself heq
  · rw [pathIds_pushBack, List.mem_append, List.mem_singleton]
    rintro (hmem | heq)
    · exact haddressee hmem
    · exact hirrefl e (g.nodeId_injective heq)
  · intro k item hitem
    have hpath : (info.pushBack (g.nodeId (g.node e)) srttUs).path =
        info.path ++ [⟨g.nodeId (g.node e), srttUs⟩] := rfl
    rw [hpath] at hitem ⊢
    rcases Nat.lt_or_ge k info.path.length with hlt | hge
    · rw [List.getElem?_append_left hlt] at hitem
      obtain ⟨e', info', he', hmsg', hid, htake⟩ := hforwarded k item hitem
      refine ⟨e', info', he', hmsg', hid, ?_⟩
      rw [htake, List.take_append_of_le_length (by omega)]
    · have hk : k = info.path.length := by
        have hlt := (List.getElem?_eq_some_iff.mp hitem).1
        rw [List.length_append, List.length_singleton] at hlt
        omega
      subst hk
      rw [List.getElem?_append_right (Nat.le_refl _), Nat.sub_self] at hitem
      cases hitem
      refine ⟨e, _, rfl, hmsg, rfl, ?_⟩
      rw [List.take_of_length_le (by simp)]
      rfl

end Grows

/-- The inputs of a relay send nothing but connect messages. -/
theorem spreads_modify_any (h : Sane g n r) (id : PeerSessionId) {f : PeerSession → PeerSession}
    (hf : ∀ session, (f session).nodeId = session.nodeId ∧
      (f session).remoteNodeInfo = session.remoteNodeInfo ∧
      ∃ new, (f session).nodeMessages = session.nodeMessages ++ new ∧
        ∀ msg ∈ new, msg = .connect r.nodeInfo) :
    Spreads g n (fun _ _ => False) False r (r.modifyPeerSession id f) := by
  cases hget : r.getPeerSession id with
  | none =>
    have hsame : r.modifyPeerSession id f = r := by simp [Relay.modifyPeerSession, hget]
    rw [hsame]
    exact .refl h
  | some session =>
    obtain ⟨d, hd, rfl, -⟩ := h.peered.session id session hget
    apply spreads_modifyPeerSession _ _ h hd
    intro session
    obtain ⟨hnode, hremote, new, hsent, hnew⟩ := hf session
    refine ⟨hnode, .inl hremote, new, hsent, fun msg hmsg => ?_⟩
    rw [hnew msg hmsg]
    have hown := r.own_nodeInfo
    rw [h.peered.nodeId, ← hd] at hown
    exact ⟨hown, trivial⟩

/-- No session is lost. -/
def Establishing : Label ν δ NodeInput → Prop
  | .input _ (.lost _) => False
  | _ => True

theorem spreads_input (h : Sane g n r) {i : NodeInput}
    (hi : Establishing (.input n i : Label ν δ NodeInput)) :
    ∃ r', (NodeState.up r).input q i = .up r' ∧ Spreads g n (fun _ _ => False) False r r' := by
  cases i with
  | ready id =>
    refine ⟨_, rfl, spreads_modify_any h id fun session => ?_⟩
    refine ⟨rfl, rfl, [.connect r.nodeInfo], ?_, fun msg hmsg => List.mem_singleton.mp hmsg⟩
    exact PeerSession.nodeMessages_enqueue { session with peerSns := ∅ } (.connect r.nodeInfo)
  | lost id => cases hi
  | sampled id srttUs =>
    refine ⟨_, rfl, spreads_modify_any h id fun session => ?_⟩
    exact ⟨rfl, rfl, [], (List.append_nil _).symm, fun _ hnil => by cases hnil⟩

/-- A relay of the graph that knows no other one, and has sent nothing. -/
structure Fresh (g : PeeringGraph ν δ) (n : ν) (r : Relay) : Prop where
  peered : g.Peered n r
  nodes : r.infoBase.nodes = ∅
  nodesBest : r.infoBase.nodesBest = ∅
  nodesByPeerSession : r.infoBase.nodesByPeerSession = ∅
  quiet : ∀ d, g.node d = n → r.nodeMessagesTo (g.sessionId d) = []

theorem Fresh.sane (h : Fresh g n r) : Sane g n r where
  peered := h.peered
  tables := by
    have hempty := InfoBase.nodeTables_empty
    refine ⟨?_, fun m => ?_, ?_, ?_⟩
    · rw [h.nodes]
      exact hempty.item
    · left
      refine ⟨?_, by simp [h.nodesBest]⟩
      unfold InfoBase.told
      rw [h.nodes]
      rfl
    · rw [h.nodes, h.nodesByPeerSession]
      exact hempty.byPeerSession
    · rw [h.nodesByPeerSession]
      exact hempty.nonempty
  alive := by
    intro m s hs
    rw [h.nodes] at hs
    simp at hs
  plain := by
    intro d hd msg hmsg
    rw [h.quiet d hd] at hmsg
    cases hmsg

/-- Some advertisement was passed on. -/
def NetSendsNode (g : PeeringGraph ν δ) (net : Net ν δ NodeState) : Prop :=
  ∃ n r, net.nodes n = .up r ∧ SendsNode g n r

/-- What a step does when no session is lost. -/
structure StepSpreads (q : Quicr) (g : PeeringGraph ν δ) (net net' : Net ν δ NodeState)
    (forwarding : Prop) : Prop where
  sane : NetSane g net'
  grows : ∀ d, ∀ msg ∈ net.sent g.toTopology (nodeProtocol q g) d,
    msg ∈ net'.sent g.toTopology (nodeProtocol q g) d
  sends : forwarding → NetSendsNode g net'
  paths : (∀ d, g.node (g.opposite d) ≠ g.node d) → ¬ forwarding → NetHears q g net →
    PathsRecorded q g net → NetHears q g net' ∧ PathsRecorded q g net'

theorem NetSendsNode.grows {net net' : Net ν δ NodeState} {forwarding : Prop}
    (h : NetSendsNode g net) (hspreads : StepSpreads q g net net' forwarding) :
    NetSendsNode g net' := by
  obtain ⟨n, r, hr, d, info, srttUs, rfl, hmsg⟩ := h
  obtain ⟨r', hr', -⟩ := hspreads.sane (g.node d)
  rw [← sent_of_some (q := q) hr] at hmsg
  have hmsg' := hspreads.grows d _ hmsg
  rw [sent_of_some hr'] at hmsg'
  exact ⟨g.node d, r', hr', d, info, srttUs, rfl, hmsg'⟩

/-- An advertisement that is passed on has the node on its path. -/
theorem NetSendsNode.not_recorded {net : Net ν δ NodeState} (h : NetSendsNode g net) :
    ¬ PathsRecorded q g net := by
  obtain ⟨n, r, hr, d, info, srttUs, rfl, hmsg⟩ := h
  intro hrecorded
  rw [← sent_of_some (q := q) hr] at hmsg
  have hnode := (hrecorded d _ false hmsg).node
  rw [pathIds_pushBack] at hnode
  exact hnode (List.mem_append_right _ (List.mem_singleton.mpr rfl))

variable [DecidableEq ν] [DecidableEq δ]

section Update

variable {net : Net ν δ NodeState} {f : NodeState → NodeState}
  {learned : PeerSessionId → NodeInfo → Prop} {passesOn : Prop}
  (hr : net.nodes n = .up r) (hf : f (net.nodes n) = .up r')
  (hspreads : Spreads g n learned passesOn r r')

include hf

theorem nodes_update_self : (net.update n f).nodes n = .up r' := by
  rw [Net.update_nodes_self, hf]

include hspreads

theorem netSane_update (h : NetSane g net) : NetSane g (net.update n f) := by
  intro m
  by_cases hm : m = n
  · rw [hm]
    exact ⟨r', nodes_update_self hf, hspreads.sane⟩
  · rw [Net.update_nodes_of_ne _ _ hm]
    exact h m

include hr

theorem sent_update_grows (d : δ) :
    ∀ msg ∈ net.sent g.toTopology (nodeProtocol q g) d,
      msg ∈ (net.update n f).sent g.toTopology (nodeProtocol q g) d := by
  intro msg hmsg
  by_cases hd : g.node d = n
  · subst hd
    rw [sent_of_some hr] at hmsg
    rw [sent_of_some (nodes_update_self hf)]
    exact (hspreads.grows _).subset hmsg
  · rw [Net.sent, Net.update_nodes_of_ne _ _ hd]
    exact hmsg

theorem paths_update (hirrefl : ∀ d, g.node (g.opposite d) ≠ g.node d) (hp : ¬ passesOn)
    (hlearned : ∀ id info, learned id info →
      ∃ d, g.node d = n ∧ g.sessionId d = id ∧ Hears q g net (g.opposite d) info)
    (hhears : NetHears q g net) (hrecorded : PathsRecorded q g net) :
    NetHears q g (net.update n f) ∧ PathsRecorded q g (net.update n f) := by
  have hgrows := fun d => sent_update_grows (q := q) hr hf hspreads d
  have hknown : ∀ id info, Knows r id info ∨ learned id info →
      ∃ d, g.node d = n ∧ g.sessionId d = id ∧ Hears q g net (g.opposite d) info := by
    intro id info hcase
    rcases hcase with hknows | hcase
    · exact hhears n r id info hr hknows
    · exact hlearned id info hcase
  constructor
  · intro m s id info hs hknows
    by_cases hm : m = n
    · subst hm
      rw [nodes_update_self hf] at hs
      cases hs
      obtain ⟨d, hd, hid, hheard⟩ := hknown id info (hspreads.knows id info hknows)
      exact ⟨d, hd, hid, hheard.grows hgrows⟩
    · rw [Net.update_nodes_of_ne _ _ hm] at hs
      obtain ⟨d, hd, hid, hheard⟩ := hhears m s id info hs hknows
      exact ⟨d, hd, hid, hheard.grows hgrows⟩
  · intro e info withdraw hmsg
    by_cases he : g.node e = n
    · subst he
      have hsent := hmsg
      rw [sent_of_some (nodes_update_self hf)] at hmsg
      rcases hspreads.sends e rfl _ hmsg with hold | hconnect | hpasses | hspread
      · rw [← sent_of_some (q := q) hr] at hold
        exact (hrecorded e info withdraw hold).grows hgrows
      · cases hconnect
      · exact absurd hpasses hp
      · obtain ⟨id, info', srttUs, hcase, hself, haddressee, heq⟩ := hspread
        cases heq
        obtain ⟨d, hd, -, hheard⟩ := hknown id info' hcase
        exact hheard.recorded hgrows hirrefl hrecorded hd hself haddressee hsent
    · rw [Net.sent, Net.update_nodes_of_ne _ _ he] at hmsg
      exact (hrecorded e info withdraw hmsg).grows hgrows

end Update

/-! ### Runs -/

/-- The step makes a relay pass an advertisement on. -/
def Forwarding (q : Quicr) (g : PeeringGraph ν δ) (net : Net ν δ NodeState) :
    Label ν δ NodeInput → Prop
  | .input _ _ => False
  | .deliver d k => ∃ msg r, net.InFlight g.toTopology (nodeProtocol q g) d k msg ∧
      net.nodes (g.node (g.opposite d)) = .up r ∧
      Forwards g (g.node (g.opposite d)) r (g.sessionId (g.opposite d)) msg

/-- No step of the run does. -/
def NoneForwarded (q : Quicr) (g : PeeringGraph ν δ) (net : Net ν δ NodeState) :
    List (Label ν δ NodeInput) → Prop
  | [] => True
  | label :: labels => ¬ Forwarding q g net label ∧
      ∀ net', step g.toTopology (nodeProtocol q g) net label = some net' →
        NoneForwarded q g net' labels

theorem stepSpreads {net net' : Net ν δ NodeState} (h : NetSane g net)
    {label : Label ν δ NodeInput} (hlabel : Establishing label)
    (hstep : step g.toTopology (nodeProtocol q g) net label = some net') :
    StepSpreads q g net net' (Forwarding q g net label) := by
  cases label with
  | input n i =>
    cases hstep
    obtain ⟨r, hr, hsane⟩ := h n
    obtain ⟨r', hr', hspreads⟩ := spreads_input (q := q) hsane hlabel
    have hf : (nodeProtocol q g).input n i (net.nodes n) = .up r' := by
      rw [hr]
      exact hr'
    refine ⟨netSane_update hf hspreads h, fun d => sent_update_grows hr hf hspreads d, ?_, ?_⟩
    · intro hforwarding
      cases hforwarding
    · intro hirrefl _ hhears hrecorded
      exact paths_update hr hf hspreads hirrefl (fun hfalse => hfalse)
        (fun _ _ hfalse => hfalse.elim) hhears hrecorded
  | deliver d k =>
    obtain ⟨msg, hflight, rfl⟩ := step_deliver.mp hstep
    obtain ⟨s, hs, hsender⟩ := h (g.node d)
    have hmsg : msg ∈ net.sent g.toTopology (nodeProtocol q g) d :=
      List.mem_of_getElem? hflight.1
    have hplain : Plain g (g.opposite (g.opposite d)) msg := by
      rw [sent_of_some hs] at hmsg
      rw [g.opposite_opposite]
      exact hsender.plain d rfl msg hmsg
    obtain ⟨r, hr, hsane⟩ := h (g.node (g.opposite d))
    obtain ⟨r', hr', hspreads, hsends⟩ := spreads_nodeMessageReceived hsane rfl hplain
    have hr : (net.arrived d k).nodes (g.node (g.opposite d)) = .up r := hr
    have hf : (nodeProtocol q g).receive (g.opposite d) msg
        ((net.arrived d k).nodes (g.node (g.opposite d))) = .up r' := by
      rw [hr]
      exact receive_up hr' hspreads.grows
    refine ⟨netSane_update hf hspreads h, fun e => sent_update_grows hr hf hspreads e, ?_, ?_⟩
    · rintro ⟨msg', r₁, hflight', hr₁, hforwards⟩
      cases hflight.1.symm.trans hflight'.1
      cases hr.symm.trans hr₁
      exact ⟨_, r', nodes_update_self hf, hsends hforwards⟩
    · intro hirrefl hnone hhears hrecorded
      have hsame : ∀ e, ∀ msg ∈ net.sent g.toTopology (nodeProtocol q g) e,
          msg ∈ (net.arrived d k).sent g.toTopology (nodeProtocol q g) e := fun _ _ hmem => hmem
      have hrecorded' : PathsRecorded q g (net.arrived d k) := fun e info withdraw hmem =>
        (hrecorded e info withdraw hmem).grows hsame
      refine paths_update hr hf hspreads hirrefl
        (fun hforwards => hnone ⟨msg, r, hflight, hr, hforwards⟩) ?_ hhears hrecorded'
      rintro id info ⟨rfl, hcase⟩
      refine ⟨g.opposite d, rfl, rfl, ?_⟩
      rcases hcase with rfl | rfl | rfl
      · exact .inl hplain
      · exact .inl hplain
      · right
        rw [g.opposite_opposite]
        exact hmsg

theorem netSendsNode_run {start net : Net ν δ NodeState} (h : NetSane g start)
    {labels : List (Label ν δ NodeInput)} (hlabels : ∀ label ∈ labels, Establishing label)
    (hrun : run g.toTopology (nodeProtocol q g) start labels = some net)
    (hsends : NetSendsNode g start ∨ ¬ NoneForwarded q g start labels) : NetSendsNode g net := by
  induction labels generalizing start with
  | nil =>
    cases hrun
    rcases hsends with hsends | hnone
    · exact hsends
    · exact absurd trivial hnone
  | cons label labels ih =>
    rw [run, List.foldlM_cons, Option.bind_eq_bind, Option.bind_eq_some_iff] at hrun
    obtain ⟨mid, hmid, hrun⟩ := hrun
    have hspreads := stepSpreads h (hlabels label List.mem_cons_self) hmid
    apply ih hspreads.sane (fun l hl => hlabels l (List.mem_cons_of_mem _ hl)) hrun
    rcases hsends with hsends | hnone
    · exact .inl (hsends.grows hspreads)
    · by_cases hforwarding : Forwarding q g start label
      · exact .inl (hspreads.sends hforwarding)
      · right
        intro hrest
        apply hnone
        refine ⟨hforwarding, fun net' hnet' => ?_⟩
        cases hmid.symm.trans hnet'
        exact hrest

theorem paths_run (hirrefl : ∀ d, g.node (g.opposite d) ≠ g.node d)
    {start net : Net ν δ NodeState} (h : NetSane g start)
    {labels : List (Label ν δ NodeInput)} (hlabels : ∀ label ∈ labels, Establishing label)
    (hrun : run g.toTopology (nodeProtocol q g) start labels = some net)
    (hnone : NoneForwarded q g start labels) (hhears : NetHears q g start)
    (hrecorded : PathsRecorded q g start) : PathsRecorded q g net := by
  induction labels generalizing start with
  | nil =>
    cases hrun
    exact hrecorded
  | cons label labels ih =>
    rw [run, List.foldlM_cons, Option.bind_eq_bind, Option.bind_eq_some_iff] at hrun
    obtain ⟨mid, hmid, hrun⟩ := hrun
    have hspreads := stepSpreads h (hlabels label List.mem_cons_self) hmid
    obtain ⟨hhears', hrecorded'⟩ := hspreads.paths hirrefl hnone.1 hhears hrecorded
    exact ih hspreads.sane (fun l hl => hlabels l (List.mem_cons_of_mem _ hl)) hrun
      (hnone.2 mid hmid) hhears' hrecorded'

/-- In a peering graph whose sessions are established one after the other, the advertisements record
the relays that they have come through exactly when no relay passes on what it is told of a node.
Then there is no advertisement at all: a relay that has two neighbours has told one of the other. -/
theorem pathsRecorded_iff (q : Quicr) (g : PeeringGraph ν δ)
    (hirrefl : ∀ d, g.node (g.opposite d) ≠ g.node d) (start : ν → Relay)
    (hstart : ∀ n, Fresh g n (start n)) (labels : List (Label ν δ NodeInput))
    (hlabels : ∀ label ∈ labels, Establishing label) (net : Net ν δ NodeState)
    (hrun : run g.toTopology (nodeProtocol q g) ⟨fun n => .up (start n), fun _ => []⟩ labels =
      some net) :
    PathsRecorded q g net ↔
      NoneForwarded q g ⟨fun n => .up (start n), fun _ => []⟩ labels := by
  have hsane : NetSane g (⟨fun n => .up (start n), fun _ => []⟩ : Net ν δ NodeState) :=
    fun n => ⟨start n, rfl, (hstart n).sane⟩
  constructor
  · intro hrecorded
    by_contra hforwarded
    exact (netSendsNode_run hsane hlabels hrun (.inr hforwarded)).not_recorded hrecorded
  · intro hnone
    refine paths_run hirrefl hsane hlabels hrun hnone ?_ ?_
    · intro n r id info hr hknows
      cases hr
      obtain ⟨item, hitem, -⟩ := hknows
      rw [(hstart n).nodes] at hitem
      simp at hitem
    · intro d info withdraw hmsg
      rw [sent_of_some rfl, (hstart _).quiet d rfl] at hmsg
      cases hmsg

end Net

/-! ### Sessions of the triangle -/

/-- A relay of the triangle before any session is established. -/
def freshNode (n : Fin 3) : Relay where
  nodeId := triangle.nodeId n
  clientPeerSessions := (∅ : ExtTreeMap PeerSessionId PeerSession).insert 1
    { status := .connecting, nodeId := triangle.nodeId n }
  serverPeerSessions := (∅ : ExtTreeMap PeerSessionId PeerSession).insert 2
    { status := .connected, nodeId := triangle.nodeId n, isInbound := true }

theorem fresh_freshNode (n : Fin 3) : Fresh triangle n (freshNode n) where
  peered := by
    refine ⟨rfl, fun id hid => ?_, fun id session hget => ?_⟩
    · have h2 : 2 = id := by simpa [freshNode] using hid
      subst h2
      simp [freshNode]
    · unfold Relay.getPeerSession freshNode at hget
      dsimp only at hget
      rw [ExtTreeMap.getElem?_insert_ite, ExtTreeMap.getElem?_insert_ite] at hget
      by_cases h2 : id = 2
      · rw [if_pos h2] at hget
        cases hget
        exact ⟨(n, false), rfl, h2.symm, rfl, .inl rfl⟩
      · by_cases h1 : id = 1
        · rw [if_neg h2, if_pos h1] at hget
          simp only [ExtTreeMap.getElem?_empty] at hget
          cases hget
          exact ⟨(n, true), rfl, h1.symm, rfl, .inl rfl⟩
        · rw [if_neg h2, if_neg h1] at hget
          simp at hget
  nodes := rfl
  nodesBest := rfl
  nodesByPeerSession := rfl
  quiet := by
    have hquiet : ∀ d, (freshNode (triangle.node d)).nodeMessagesTo (triangle.sessionId d) = [] := by
      decide +kernel
    intro d hd
    rw [← hd]
    exact hquiet d

/-- The first relay opens its session to the second one. -/
def firstSession : List (Label (Fin 3) (Fin 3 × Bool) NodeInput) :=
  [.input 0 (.ready 1), .deliver (0, true) 0, .deliver (1, false) 0]

/-- Then the second one opens its session to the third. -/
def secondSession : List (Label (Fin 3) (Fin 3 × Bool) NodeInput) :=
  [.input 1 (.ready 1), .deliver (1, true) 0, .deliver (2, false) 0]

theorem establishing_sessions : ∀ label ∈ firstSession ++ secondSession, Establishing label := by
  intro label hlabel
  simp only [firstSession, secondSession, List.cons_append, List.nil_append, List.mem_cons,
    List.not_mem_nil, or_false] at hlabel
  rcases hlabel with rfl | rfl | rfl | rfl | rfl | rfl <;> trivial

/-- With one session nothing is passed on. -/
theorem pathsRecorded_iff_firstSession :
    (run triangle.toTopology (nodeProtocol .polynomial triangle)
      ⟨fun n => .up (freshNode n), fun _ => []⟩ firstSession).isSome = true ∧
    NoneForwarded .polynomial triangle ⟨fun n => .up (freshNode n), fun _ => []⟩
      firstSession := by
  have hconnects : (run triangle.toTopology (nodeProtocol .polynomial triangle)
      ⟨fun n => .up (freshNode n), fun _ => []⟩ firstSession).map (fun net => decide (∀ d,
        ((net.sent triangle.toTopology (nodeProtocol .polynomial triangle) d).filterMap
          ControlMessage.nodeInfo?) = [])) = some true := by decide +kernel
  obtain ⟨net, hrun, hnone⟩ := Option.map_eq_some_iff.mp hconnects
  refine ⟨by rw [hrun]; rfl, (pathsRecorded_iff .polynomial triangle (by decide) freshNode
    fresh_freshNode firstSession
    (fun label hlabel => establishing_sessions label (List.mem_append_left _ hlabel)) net
    hrun).mp ?_⟩
  intro d info withdraw hmsg
  have hmem : (info, withdraw) ∈
      (net.sent triangle.toTopology (nodeProtocol .polynomial triangle) d).filterMap
        ControlMessage.nodeInfo? := List.mem_filterMap.mpr ⟨_, hmsg, rfl⟩
  rw [of_decide_eq_true hnone d] at hmem
  cases hmem

/-- The second relay tells the first one of the third, with the third on the path. -/
theorem not_pathsRecorded :
    ¬ ∀ (q : Quicr) (g : PeeringGraph (Fin 3) (Fin 3 × Bool)) (start : Fin 3 → Relay)
      (labels : List (Label (Fin 3) (Fin 3 × Bool) NodeInput)) (net : Net _ _ NodeState),
      (∀ d, g.node (g.opposite d) ≠ g.node d) → (∀ n, Fresh g n (start n)) →
      (∀ label ∈ labels, Establishing label) →
      run g.toTopology (nodeProtocol q g) ⟨fun n => .up (start n), fun _ => []⟩ labels =
        some net → PathsRecorded q g net := by
  intro hall
  have hsent : (run triangle.toTopology (nodeProtocol .polynomial triangle)
      ⟨fun n => .up (freshNode n), fun _ => []⟩ (firstSession ++ secondSession)).map (fun net =>
        decide (.nodeInfo { id := 3, type := .edge, path := [⟨3, 0⟩] } false ∈
          net.sent triangle.toTopology (nodeProtocol .polynomial triangle) (1, false))) =
      some true := by decide +kernel
  obtain ⟨net, hrun, hmem⟩ := Option.map_eq_some_iff.mp hsent
  have hrecorded := hall .polynomial triangle freshNode (firstSession ++ secondSession) net
    (by decide) fresh_freshNode establishing_sessions hrun
  have hnode := (hrecorded _ _ _ (of_decide_eq_true hmem)).node
  simp [pathIds] at hnode

end Laps.Flood
