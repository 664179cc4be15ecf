import Laps.Peering.BestPath
import Laps.Relay.NodeMessages

/-! The node information that a session gets when the tables are synchronised: the routes that are
stored against the routes that are selected. -/

namespace Laps

open Std Peering

namespace Peering.InfoBase

/-- Every entry is under the id of its node. -/
def Filed (ib : InfoBase) : Prop :=
  ∀ (n : NodeIdValueType) (s : PeerSessionId) (item : NodeItem),
    ib.nodes[(n, s)]? = some item → item.nodeInfo.id = n

/-- The node tables are those that calls of the info base lead to. -/
def NodesReachable (ib : InfoBase) : Prop :=
  ∃ calls ib', nodeCalls calls = some ib' ∧ ib'.nodes = ib.nodes ∧ ib'.nodesBest = ib.nodesBest

/-- The route that is selected for a node, and the session that has told it. -/
def selectedRoute (ib : InfoBase) (nodeId : NodeIdValueType) : Option (PeerSessionId × NodeInfo) :=
  ib.nodesBest[nodeId]?.bind fun session =>
    ib.nodes[(nodeId, session)]?.map fun item => (session, item.nodeInfo)

section Filed

variable {live : PeerSessionId → Bool} {ib ib' : InfoBase} {session : PeerSessionId}

theorem nodes_addNode {info : NodeInfo} {isUpdated : Bool}
    (h : ib.addNode live session info = some (ib', isUpdated)) :
    ib'.nodes = ib.nodes.insert (info.id, session) ⟨session, info⟩ := by
  rw [selectBestNode_rest h]
  rfl

theorem nodes_dropNode {nodeId : NodeIdValueType}
    (h : ib.dropNode live session nodeId = some ib') :
    ib'.nodes = ib.nodes.erase (nodeId, session) := by
  unfold dropNode at h
  dsimp only at h
  split at h
  · obtain ⟨⟨ib₁, isUpdated⟩, hselect, rfl⟩ := Option.map_eq_some_iff.mp h
    rw [selectBestNode_rest hselect]
  · cases h
    rfl

theorem Filed.dropNode (h : ib.Filed) {nodeId : NodeIdValueType}
    (hdrop : ib.dropNode live session nodeId = some ib') : ib'.Filed := by
  intro n s item hitem
  rw [nodes_dropNode hdrop, ExtTreeMap.getElem?_erase_ite] at hitem
  split at hitem
  · cases hitem
  · exact h n s item hitem

theorem Filed.foldlM_dropNode (h : ib.Filed) {l : List NodeIdValueType}
    (hfold : l.foldlM (InfoBase.dropNode live session) ib = some ib') : ib'.Filed := by
  induction l generalizing ib with
  | nil =>
    cases hfold
    exact h
  | cons nodeId l ih =>
    rw [List.foldlM_cons, Option.bind_eq_bind, Option.bind_eq_some_iff] at hfold
    obtain ⟨mid, hdrop, hfold⟩ := hfold
    exact ih (h.dropNode hdrop) hfold

theorem Filed.nodeCall (h : ib.Filed) {call : NodeCall} (hcall : ib.nodeCall live call = some ib') :
    ib'.Filed := by
  cases call with
  | addNode session info =>
    obtain ⟨⟨ib₁, isUpdated⟩, hadd, rfl⟩ := Option.map_eq_some_iff.mp hcall
    intro n s item hitem
    rw [nodes_addNode hadd, ExtTreeMap.getElem?_insert_ite] at hitem
    split at hitem
    · rename_i hkey
      cases hitem
      exact (Prod.mk.inj hkey).1.symm
    · exact h n s item hitem
  | removeNode session nodeId =>
    have hstart : ∀ rows, Filed { ib with nodesByPeerSession := rows } := fun rows => h
    exact (hstart _).dropNode hcall
  | purgePeerSessionInfo session =>
    rw [InfoBase.nodeCall, purgePeerSessionInfo_eq] at hcall
    obtain ⟨mid, hfold, rfl⟩ := Option.map_eq_some_iff.mp hcall
    have hmid : mid.Filed := h.foldlM_dropNode hfold
    exact hmid

theorem NodesReachable.filed (h : ib.NodesReachable) : ib.Filed := by
  obtain ⟨calls, ib', hcalls, hnodes, -⟩ := h
  have hfiled : ib'.Filed := by
    clear hnodes
    induction calls using List.reverseRecOn generalizing ib' with
    | nil =>
      cases hcalls
      intro n s item hitem
      simp at hitem
    | append_singleton calls call ih =>
      rw [nodeCalls_concat] at hcalls
      obtain ⟨mid, hbefore, hcall⟩ := Option.bind_eq_some_iff.mp hcalls
      exact (ih mid hbefore).nodeCall hcall
  intro n s item hitem
  rw [← hnodes] at hitem
  exact hfiled n s item hitem

/-- The node information that a session tells, one after the other. -/
def addNodes (live : PeerSessionId → Bool) (ib : InfoBase) (session : PeerSessionId)
    (infos : List NodeInfo) : Option InfoBase :=
  infos.foldlM (fun ib info => (ib.addNode live session info).map Prod.fst) ib

theorem addNodes_cons {info : NodeInfo} {infos : List NodeInfo}
    (h : ib.addNodes live session (info :: infos) = some ib') :
    ∃ mid isUpdated, ib.addNode live session info = some (mid, isUpdated) ∧
      mid.addNodes live session infos = some ib' := by
  rw [addNodes, List.foldlM_cons, Option.bind_eq_bind, Option.bind_eq_some_iff] at h
  obtain ⟨mid, hfirst, hrest⟩ := h
  obtain ⟨⟨mid', isUpdated⟩, hadd, rfl⟩ := Option.map_eq_some_iff.mp hfirst
  exact ⟨mid', isUpdated, hadd, hrest⟩

theorem nodes_addNodes_of_notMem {infos : List NodeInfo} {n : NodeIdValueType}
    (h : ib.addNodes live session infos = some ib') (hn : n ∉ infos.map NodeInfo.id) :
    ib'.nodes[(n, session)]? = ib.nodes[(n, session)]? := by
  induction infos generalizing ib with
  | nil =>
    cases h
    rfl
  | cons info infos ih =>
    obtain ⟨mid, isUpdated, hadd, hrest⟩ := addNodes_cons h
    rw [List.map_cons, List.mem_cons, not_or] at hn
    rw [ih hrest hn.2, nodes_addNode hadd, ExtTreeMap.getElem?_insert_ite,
      if_neg fun hkey => hn.1 (Prod.mk.inj hkey).1]

/-- What is told of different nodes is all stored under the session. -/
theorem nodes_addNodes {infos : List NodeInfo} (h : ib.addNodes live session infos = some ib')
    (hnodup : (infos.map NodeInfo.id).Nodup) {info : NodeInfo} (hinfo : info ∈ infos) :
    ib'.nodes[(info.id, session)]? = some ⟨session, info⟩ := by
  induction infos generalizing ib with
  | nil => cases hinfo
  | cons first infos ih =>
    obtain ⟨mid, isUpdated, hadd, hrest⟩ := addNodes_cons h
    rw [List.map_cons, List.nodup_cons] at hnodup
    obtain rfl | hinfo := List.mem_cons.mp hinfo
    · rw [nodes_addNodes_of_notMem hrest hnodup.1, nodes_addNode hadd,
        ExtTreeMap.getElem?_insert_ite, if_pos rfl]
    · exact ih hrest hnodup.2 hinfo

end Filed

end Peering.InfoBase

namespace Relay

/-- The message advertises information about a node. -/
def nodeAdvertised? : ControlMessage → Option NodeInfo
  | .nodeInfo info false => some info
  | _ => none

/-- The node information that `InfoBaseSyncPeer` advertises to a session. -/
def syncNodeInfos (r : Relay) (id : PeerSessionId) : List NodeInfo :=
  (((r.infoBaseSyncPeer id).nodeMessagesTo id).drop (r.nodeMessagesTo id).length).filterMap
    nodeAdvertised?

/-- The route goes back to the other relay of the session. -/
def LeadsBack (id : PeerSessionId) (session : PeerSession) (s : PeerSessionId)
    (route : NodeInfo) : Prop :=
  s = id ∨ route.id = session.remoteNodeInfo.id ∨
    ∃ item ∈ route.path, item.id = session.remoteNodeInfo.id

/-- The session is told of each node once at most and of its selected route, and not of a node whose
selected route leads back. -/
structure SyncsSelected (r : Relay) (id : PeerSessionId) (session : PeerSession) : Prop where
  once : ((r.syncNodeInfos id).map NodeInfo.id).Nodup
  selected : ∀ info ∈ r.syncNodeInfos id, ∃ s route,
    r.infoBase.selectedRoute info.id = some (s, route) ∧
      info = route.pushBack session.nodeId session.srttUs
  withheld : ∀ n s route, r.infoBase.selectedRoute n = some (s, route) →
    LeadsBack id session s route → ∀ info ∈ r.syncNodeInfos id, info.id ≠ n
  /-- The tables of the other relay, under its own session. -/
  stored : ∀ live peer ib ib', InfoBase.addNodes live ib peer (r.syncNodeInfos id) = some ib' →
    ∀ info ∈ r.syncNodeInfos id, ∃ s route, r.infoBase.selectedRoute info.id = some (s, route) ∧
      ib'.nodes[(info.id, peer)]? =
        some ⟨peer, route.pushBack session.nodeId session.srttUs⟩

/-- Nothing is sent, or every stored route that is not the selected one of its node is about this
relay or leads back to the other one. -/
def OnlySelectedPass (r : Relay) (id : PeerSessionId) (session : PeerSession) : Prop :=
  session.status = .connected →
    ∀ (n : NodeIdValueType) (s : PeerSessionId) (item : NodeItem),
      r.infoBase.nodes[(n, s)]? = some item → r.infoBase.nodesBest[n]? ≠ some s →
        n = session.nodeId ∨ LeadsBack id session s item.nodeInfo

section Sync

variable {r : Relay} {id : PeerSessionId} {session : PeerSession}

theorem syncNodeInfos_eq (hget : r.getPeerSession id = some session) :
    r.syncNodeInfos id = if session.status = .connected then
      (r.infoBase.nodes.toList.filter fun entry => !skipSync id session entry).map fun entry =>
        entry.2.nodeInfo.pushBack session.nodeId session.srttUs
    else [] := by
  obtain ⟨session', subscribes, hsends, hsync⟩ := infoBaseSyncPeer_spec hget
  have hbefore : r.nodeMessagesTo id = session.nodeMessages := by
    rw [nodeMessagesTo, hget]
    rfl
  have hafter : (r.infoBaseSyncPeer id).nodeMessagesTo id =
      session.nodeMessages ++ r.synced id session := by
    have hset := getPeerSession_setPeerSession hget session' id
    rw [if_pos rfl] at hset
    have hget' : ((r.setPeerSession id session').setInfoBase
        { r.infoBase with subscribes }).getPeerSession id = some session' := hset
    rw [hsync, nodeMessagesTo, hget', ← hsends.messages]
    rfl
  rw [syncNodeInfos, hbefore, hafter, List.drop_left, synced]
  split
  · rw [List.filterMap_map]
    exact congrFun List.filterMap_eq_map' _
  · rfl

/-- The entries that are not passed over. -/
theorem mem_passed {entry : (NodeIdValueType × PeerSessionId) × NodeItem} :
    entry ∈ r.infoBase.nodes.toList.filter (fun entry => !skipSync id session entry) ↔
      r.infoBase.nodes[entry.1]? = some entry.2 ∧ skipSync id session entry = false := by
  obtain ⟨key, item⟩ := entry
  rw [List.mem_filter, ExtTreeMap.mem_toList_iff_getElem?_eq_some, Bool.not_eq_true']

theorem nodup_passed (r : Relay) (id : PeerSessionId) (session : PeerSession) :
    (r.infoBase.nodes.toList.filter fun entry => !skipSync id session entry).Nodup :=
  (ExtTreeMap.pairwise_toList_ne.imp fun hne heq => hne (congrArg Prod.fst heq)).filter _

/-- What is told comes from the entries that are not passed over. -/
theorem mem_syncNodeInfos (hget : r.getPeerSession id = some session) {info : NodeInfo} :
    info ∈ r.syncNodeInfos id ↔ session.status = .connected ∧ ∃ n s item,
      r.infoBase.nodes[((n : NodeIdValueType), (s : PeerSessionId))]? = some item ∧
        skipSync id session ((n, s), item) = false ∧
        item.nodeInfo.pushBack session.nodeId session.srttUs = info := by
  rw [syncNodeInfos_eq hget]
  split
  · rename_i hstatus
    simp only [List.mem_map, List.mem_filter, ExtTreeMap.mem_toList_iff_getElem?_eq_some,
      Bool.not_eq_true', hstatus, true_and, Prod.exists]
    constructor
    · rintro ⟨n, s, item, ⟨hitem, hskip⟩, rfl⟩
      exact ⟨n, s, item, hitem, hskip, rfl⟩
    · rintro ⟨n, s, item, hitem, hskip, rfl⟩
      exact ⟨n, s, item, ⟨hitem, hskip⟩, rfl⟩
  · rename_i hstatus
    simp [hstatus]

/-- An entry is passed over when it is about this relay or leads back. -/
theorem skipSync_iff (hfiled : r.infoBase.Filed) {n : NodeIdValueType} {s : PeerSessionId}
    {item : NodeItem} (hitem : r.infoBase.nodes[(n, s)]? = some item) :
    skipSync id session ((n, s), item) = true ↔
      n = session.nodeId ∨ LeadsBack id session s item.nodeInfo := by
  rw [LeadsBack, hfiled n s item hitem]
  simp only [skipSync, Bool.or_eq_true, decide_eq_true_eq, List.any_eq_true]
  tauto

/-- The routes that pass are the selected ones: one for each node. -/
theorem OnlySelectedPass.selected (h : r.OnlySelectedPass id session)
    (hfiled : r.infoBase.Filed) (hstatus : session.status = .connected) {n : NodeIdValueType}
    {s : PeerSessionId} {item : NodeItem} (hitem : r.infoBase.nodes[(n, s)]? = some item)
    (hskip : skipSync id session ((n, s), item) = false) : r.infoBase.nodesBest[n]? = some s := by
  by_contra hbest
  have hpassed := (skipSync_iff hfiled hitem).mpr (h hstatus n s item hitem hbest)
  rw [hskip] at hpassed
  cases hpassed

theorem selectedRoute_eq {n : NodeIdValueType} {s : PeerSessionId} {item : NodeItem}
    (hbest : r.infoBase.nodesBest[n]? = some s) (hitem : r.infoBase.nodes[(n, s)]? = some item) :
    r.infoBase.selectedRoute n = some (s, item.nodeInfo) := by
  rw [InfoBase.selectedRoute, hbest, Option.bind_some, hitem, Option.map_some]

theorem OnlySelectedPass.syncsSelected (h : r.OnlySelectedPass id session)
    (hfiled : r.infoBase.Filed) (hget : r.getPeerSession id = some session) :
    r.SyncsSelected id session := by
  have hselected : ∀ info ∈ r.syncNodeInfos id, ∃ s route,
      r.infoBase.selectedRoute info.id = some (s, route) ∧ ¬LeadsBack id session s route ∧
        info = route.pushBack session.nodeId session.srttUs := by
    intro info hinfo
    obtain ⟨hstatus, n, s, item, hitem, hskip, rfl⟩ := (mem_syncNodeInfos hget).mp hinfo
    have hbest := h.selected hfiled hstatus hitem hskip
    have hid : item.nodeInfo.id = n := hfiled n s item hitem
    refine ⟨s, item.nodeInfo, ?_, fun hback => ?_, rfl⟩
    · rw [NodeInfo.pushBack, hid]
      exact selectedRoute_eq hbest hitem
    · rw [(skipSync_iff hfiled hitem).mpr (.inr hback)] at hskip
      cases hskip
  have honce : ((r.syncNodeInfos id).map NodeInfo.id).Nodup := by
    rw [syncNodeInfos_eq hget]
    split
    · rename_i hstatus
      rw [List.map_map]
      refine List.Nodup.map_on ?_ (nodup_passed r id session)
      rintro ⟨⟨n, s⟩, item⟩ hentry ⟨⟨n', s'⟩, item'⟩ hentry' hid
      obtain ⟨hitem, hskip⟩ := mem_passed.mp hentry
      obtain ⟨hitem', hskip'⟩ := mem_passed.mp hentry'
      have hnode : n = n' := by
        rw [← hfiled n s item hitem, ← hfiled n' s' item' hitem']
        exact hid
      subst hnode
      have hbest := h.selected hfiled hstatus hitem hskip
      rw [h.selected hfiled hstatus hitem' hskip'] at hbest
      cases hbest
      rw [hitem] at hitem'
      cases hitem'
      rfl
    · exact List.nodup_nil
  refine ⟨honce, fun info hinfo => ?_, ?_, ?_⟩
  · obtain ⟨s, route, hroute, -, heq⟩ := hselected info hinfo
    exact ⟨s, route, hroute, heq⟩
  · rintro n s route hroute hback info hinfo rfl
    obtain ⟨s', route', hroute', hnot, -⟩ := hselected info hinfo
    rw [hroute] at hroute'
    cases hroute'
    exact hnot hback
  · intro live peer ib ib' hadds info hinfo
    obtain ⟨s, route, hroute, -, heq⟩ := hselected info hinfo
    refine ⟨s, route, hroute, ?_⟩
    rw [InfoBase.nodes_addNodes hadds honce hinfo, ← heq]

/-- Only selected routes are advertised when only they are not passed over. -/
theorem syncsSelected_iff (hreach : r.infoBase.NodesReachable)
    (hget : r.getPeerSession id = some session) :
    r.SyncsSelected id session ↔ r.OnlySelectedPass id session := by
  have hfiled := hreach.filed
  refine ⟨fun h hstatus n s item hitem hbest => ?_, fun h => h.syncsSelected hfiled hget⟩
  rw [← skipSync_iff hfiled hitem]
  by_contra hpass
  rw [Bool.not_eq_true] at hpass
  have hid : item.nodeInfo.id = n := hfiled n s item hitem
  have hinfo := (mem_syncNodeInfos hget).mpr ⟨hstatus, n, s, item, hitem, hpass, rfl⟩
  obtain ⟨s', route, hroute, -⟩ := h.selected _ hinfo
  rw [NodeInfo.pushBack, hid] at hroute
  obtain ⟨best, hbest', hroute⟩ := Option.bind_eq_some_iff.mp hroute
  obtain ⟨item', hitem', hroute⟩ := Option.map_eq_some_iff.mp hroute
  cases hroute
  have hother : LeadsBack id session s' item'.nodeInfo → False := fun hback =>
    h.withheld n s' item'.nodeInfo (selectedRoute_eq hbest' hitem') hback _ hinfo hid
  -- The selected route of the node is another one: it leads back, or it is told as well.
  cases hpass' : skipSync id session ((n, s'), item') with
  | true =>
    obtain hself | hback := (skipSync_iff hfiled hitem').mp hpass'
    · rw [(skipSync_iff hfiled hitem).mpr (.inl hself)] at hpass
      cases hpass
    · exact hother hback
  | false =>
    have honce := h.once
    rw [syncNodeInfos_eq hget, if_pos hstatus, List.map_map] at honce
    have hsame := List.inj_on_of_nodup_map honce (mem_passed.mpr ⟨hitem, hpass⟩)
      (mem_passed.mpr ⟨hitem', hpass'⟩)
      (show item.nodeInfo.id = item'.nodeInfo.id by rw [hid, hfiled n s' item' hitem'])
    cases hsame
    exact hbest hbest'

end Sync

/-- A relay with the node tables, and a session with node 2 that has come up. -/
def withNewSession (ib : InfoBase) : Relay where
  nodeId := 1
  infoBase := ib
  serverPeerSessions :=
    (∅ : ExtTreeMap PeerSessionId PeerSession).insert 5
      { nodeId := 1, status := .connected, remoteNodeInfo := { id := 2 } }

/-- Session 6 has told of node 3. -/
def toldOnce : List ((PeerSessionId → Bool) × InfoBase.NodeCall) :=
  [(fun _ => true, .addNode 6 { id := 3 })]

/-- Session 7 has told of it as well, with a longer path. -/
def toldTwice : List ((PeerSessionId → Bool) × InfoBase.NodeCall) :=
  toldOnce ++ [(fun _ => true, .addNode 7 { id := 3, path := [⟨8, 1⟩] })]

/-- Session 7 has told of a path that leads over node 2. -/
def toldBack : List ((PeerSessionId → Bool) × InfoBase.NodeCall) :=
  toldOnce ++ [(fun _ => true, .addNode 7 { id := 3, path := [⟨2, 1⟩] })]

/-- The path over node 2 is not told to it. -/
theorem syncsSelected_toldBack : ∃ ib session, InfoBase.nodeCalls toldBack = some ib ∧
    (withNewSession ib).getPeerSession 5 = some session ∧
      (withNewSession ib).syncNodeInfos 5 = [{ id := 3, path := [⟨1, 0⟩] }] ∧
      (withNewSession ib).SyncsSelected 5 session := by
  have hrun : (InfoBase.nodeCalls toldBack).map (fun ib =>
      (ib.nodes.toList, ib.nodesBest[(3 : NodeIdValueType)]?,
        (withNewSession ib).syncNodeInfos 5)) =
      some ([((3, 6), ⟨6, { id := 3 }⟩), ((3, 7), ⟨7, { id := 3, path := [⟨2, 1⟩] }⟩)], some 6,
        [{ id := 3, path := [⟨1, 0⟩] }]) := by
    decide +kernel
  obtain ⟨ib, hib, htables⟩ := Option.map_eq_some_iff.mp hrun
  simp only [Prod.mk.injEq] at htables
  obtain ⟨hnodes, hbest, hinfos⟩ := htables
  refine ⟨ib, _, hib, rfl, hinfos, (syncsSelected_iff ⟨_, ib, hib, rfl, rfl⟩ rfl).mpr ?_⟩
  intro _ n s item hitem hne
  have hmem : ((n, s), item) ∈ ib.nodes.toList :=
    ExtTreeMap.mem_toList_iff_getElem?_eq_some.mpr hitem
  rw [hnodes, List.mem_cons, List.mem_singleton] at hmem
  obtain hmem | hmem := hmem
  · cases hmem
    exact absurd hbest hne
  · cases hmem
    exact .inr (.inr (.inr ⟨⟨2, 1⟩, List.mem_singleton_self _, rfl⟩))

/-- The other relay is told of node 3 twice, and keeps the longer path. -/
theorem not_syncsSelected : ∃ ib session, InfoBase.nodeCalls toldTwice = some ib ∧
    (withNewSession ib).getPeerSession 5 = some session ∧
      ib.selectedRoute 3 = some (6, { id := 3 }) ∧
      (withNewSession ib).syncNodeInfos 5 =
        [{ id := 3, path := [⟨1, 0⟩] }, { id := 3, path := [⟨8, 1⟩, ⟨1, 0⟩] }] ∧
      ¬(withNewSession ib).SyncsSelected 5 session := by
  have hrun : (InfoBase.nodeCalls toldTwice).map (fun ib =>
      (ib.selectedRoute 3, (withNewSession ib).syncNodeInfos 5)) =
      some (some (6, { id := 3 }),
        [{ id := 3, path := [⟨1, 0⟩] }, { id := 3, path := [⟨8, 1⟩, ⟨1, 0⟩] }]) := by
    decide +kernel
  obtain ⟨ib, hib, htables⟩ := Option.map_eq_some_iff.mp hrun
  obtain ⟨hselected, hinfos⟩ := Prod.mk.inj htables
  refine ⟨ib, _, hib, rfl, hselected, hinfos, fun h => ?_⟩
  have honce := h.once
  rw [hinfos] at honce
  exact absurd honce (by decide)

end Relay

end Laps
