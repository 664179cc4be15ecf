import Laps.Peering.BestPath

/-! A purge of a session against the removals of its nodes one by one.  Both drop the same entries,
and what a node is left with depends on the entries that are left and not on the order. -/

namespace Laps.Peering.InfoBase

open Std

/-- The removals of the nodes, one after the other. -/
def removeNodes (live : PeerSessionId → Bool) (session : PeerSessionId) (ib : InfoBase)
    (order : List NodeIdValueType) : Option InfoBase :=
  order.foldlM (fun ib nodeId => ib.removeNode live session nodeId) ib

/-- The node tables are the same, whatever the other tables are. -/
structure SameNodeTables (ib ib' : InfoBase) : Prop where
  nodes : ib'.nodes = ib.nodes
  nodesBest : ib'.nodesBest = ib.nodesBest
  nodesByPeerSession : ib'.nodesByPeerSession = ib.nodesByPeerSession

section Order

variable {live : PeerSessionId → Bool} {ib ib' : InfoBase} {session : PeerSessionId}

theorem SameNodeTables.nodeTables (h : ib.SameNodeTables ib') (htables : ib.NodeTables) :
    ib'.NodeTables := by
  refine ⟨?_, fun n => ?_, ?_, ?_⟩
  · rw [h.nodes]
    exact htables.item
  · exact (htables.chosen n).congr (fun s => by rw [h.nodes]) (by rw [h.nodesBest])
  · rw [h.nodes, h.nodesByPeerSession]
    exact htables.byPeerSession
  · rw [h.nodesByPeerSession]
    exact htables.nonempty

theorem NodeTables.removeNodes (order : List NodeIdValueType) (h : ib.NodeTables)
    (halive : ib.Alive live) (session : PeerSessionId) :
    ∃ ib', ib.removeNodes live session order = some ib' ∧
      ib.Dropped ib' session order ∧ ib'.NodeTables := by
  induction order generalizing ib with
  | nil => exact ⟨ib, rfl, ⟨fun n s => by simp, fun n => by simp⟩, h⟩
  | cons first rest ih =>
    obtain ⟨mid, hremove, -, hfirst, htables⟩ := h.removeNode halive first session
    obtain ⟨ib', hrun, hrest, htables'⟩ := ih htables (hfirst.alive halive)
    refine ⟨ib', ?_, hfirst.cons hrest, htables'⟩
    rw [InfoBase.removeNodes, List.foldlM_cons, hremove]
    exact hrun

/-- Which nodes are dropped decides about the entries and the best sessions. -/
theorem Dropped.unique {ib₁ ib₂ : InfoBase} {order order' : List NodeIdValueType}
    (h₁ : ib.Dropped ib₁ session order) (h₂ : ib.Dropped ib₂ session order')
    (hsame : ∀ n, n ∈ order ↔ n ∈ order') :
    ib₁.nodes = ib₂.nodes ∧ ib₁.nodesBest = ib₂.nodesBest := by
  have hentry : ∀ (n : NodeIdValueType) (s : PeerSessionId),
      ib₁.nodes[(n, s)]? = ib₂.nodes[(n, s)]? := by
    intro n s
    rw [h₁.entry, h₂.entry]
    simp only [hsame]
  refine ⟨ExtTreeMap.ext_getElem? fun key => hentry key.1 key.2, ?_⟩
  refine ExtTreeMap.ext_getElem? fun n => ?_
  have hanew : ib₁.anew n = ib₂.anew n := by
    unfold anew
    rw [told_congr fun s => hentry n s]
  rw [h₁.best, h₂.best]
  simp only [hsame, hanew]

/-- The rows of the sessions follow from the entries. -/
theorem NodeTables.rows_unique {ib₁ ib₂ : InfoBase} (h₁ : ib₁.NodeTables) (h₂ : ib₂.NodeTables)
    (hnodes : ib₁.nodes = ib₂.nodes) : ib₁.nodesByPeerSession = ib₂.nodesByPeerSession := by
  have hrow : ∀ {ib ib' : InfoBase}, ib.NodeTables → ib'.NodeTables → ib.nodes = ib'.nodes →
      ∀ (s : PeerSessionId) ids, ib.nodesByPeerSession[s]? = some ids →
        ib'.nodesByPeerSession[s]? = some ids := by
    intro ib ib' h h' hnodes s ids hids
    have hmem : ∀ n, ids.contains n = true ↔
        ∃ ids', ib'.nodesByPeerSession[s]? = some ids' ∧ ids'.contains n = true := by
      intro n
      rw [h'.byPeerSession, ← hnodes, ← h.byPeerSession, hids]
      simp
    obtain ⟨n, hn⟩ := ExtTreeSet.isEmpty_eq_false_iff_contains.mp (h.nonempty s ids hids)
    obtain ⟨ids', hids', -⟩ := (hmem n).mp hn
    rw [hids', Option.some.injEq]
    refine ExtTreeSet.ext_contains fun n => ?_
    rw [Bool.eq_iff_iff, hmem, hids']
    simp
  refine ExtTreeMap.ext_getElem? fun s => ?_
  cases hids : ib₁.nodesByPeerSession[s]? with
  | some ids => exact (hrow h₁ h₂ hnodes s ids hids).symm
  | none =>
    cases hids' : ib₂.nodesByPeerSession[s]? with
    | none => rfl
    | some ids =>
      rw [hrow h₂ h₁ hnodes.symm s ids hids'] at hids
      cases hids

end Order

/-- In every state of the node tables that `AddNode`, `RemoveNode` and `PurgePeerSessionInfo` lead
to, whatever the other tables hold, a purge of a session leaves the node tables as the removals of
its nodes in any order leave them.  It removes from the forwarding table of the peers the keys of
the session, and keeps all that is of other sessions but the best sessions of the removed nodes. -/
theorem purge_eq_removals (calls : List ((PeerSessionId → Bool) × NodeCall))
    (h : SessionsAlive calls) (ib₀ : InfoBase) (hrun : nodeCalls calls = some ib₀) (ib : InfoBase)
    (hsame : ib₀.SameNodeTables ib) (live : PeerSessionId → Bool) (session : PeerSessionId)
    (halive : ib.Alive live) (order : List NodeIdValueType)
    (horder : order.Perm (ib.nodesOf session)) :
    ∃ purged removed, ib.purgePeerSessionInfo live session = some purged ∧
      ib.removeNodes live session order = some removed ∧ removed.SameNodeTables purged ∧
      (∀ key : PeerSessionId × SubscribeNodeSetId, purged.peerFib[key]? =
        if key.1 = session then none else ib.peerFib[key]?) ∧
      (∀ (n : NodeIdValueType) (s : PeerSessionId), s ≠ session →
        purged.nodes[(n, s)]? = ib.nodes[(n, s)]?) ∧
      (∀ s : PeerSessionId, s ≠ session →
        purged.nodesByPeerSession[s]? = ib.nodesByPeerSession[s]?) ∧
      ∀ n, n ∉ order → purged.nodesBest[n]? = ib.nodesBest[n]? := by
  obtain ⟨_, hrun', htables₀⟩ := nodeTables_nodeCalls calls h
  cases hrun.symm.trans hrun'
  have htables := hsame.nodeTables htables₀
  obtain ⟨purged, hpurge, hpurged, hdropped, htables₁⟩ :=
    htables.purgePeerSessionInfo halive session
  obtain ⟨removed, hremove, hdropped', htables₂⟩ := htables.removeNodes order halive session
  have hmem : ∀ n, n ∈ ib.nodesOf session ↔ n ∈ order := fun n => horder.symm.mem_iff
  obtain ⟨hnodes, hbest⟩ := hdropped.unique hdropped' hmem
  refine ⟨purged, removed, hpurge, hremove,
    ⟨hnodes, hbest, htables₁.rows_unique htables₂ hnodes⟩, ?_, ?_, ?_, ?_⟩
  · intro key
    rw [hpurged, ExtTreeMap.getElem?_filter']
    by_cases hkey : key.1 = session
    · cases ib.peerFib[key]? <;> simp [hkey]
    · cases ib.peerFib[key]? <;> simp [hkey]
  · intro n s hs
    rw [hdropped.entry, if_neg fun hgone => hs hgone.2]
  · intro s hs
    rw [hpurged]
    exact (ExtTreeMap.getElem?_erase_ite _ _ _).trans (if_neg hs)
  · intro n hn
    rw [hdropped.best, if_neg fun hgone => hn ((hmem n).mp hgone)]

/-- The first session of `twoSessions` has told of two nodes, and the second of one of them. -/
theorem purge_eq_removals_twoSessions : ∃ ib purged removed,
    nodeCalls (twoSessions.take 3) = some ib ∧
    ib.purgePeerSessionInfo (fun _ => true) 1 = some purged ∧
    ib.removeNodes (fun _ => true) 1 [8, 7] = some removed ∧ removed.SameNodeTables purged := by
  have halive : SessionsAlive (twoSessions.take 3) :=
    sessionsAlive_of_all (by simp [twoSessions])
  obtain ⟨ib, hrun, -⟩ := nodeTables_nodeCalls _ halive
  have hnodes : (nodeCalls (twoSessions.take 3)).map (fun ib => ib.nodesOf 1) = some [7, 8] := by
    decide +kernel
  rw [hrun, Option.map_some, Option.some.injEq] at hnodes
  have horder : [8, 7].Perm (ib.nodesOf 1) := by
    rw [hnodes]
    exact List.Perm.swap 7 8 []
  obtain ⟨purged, removed, hpurge, hremove, hsame, -⟩ := purge_eq_removals _ halive ib hrun ib
    ⟨rfl, rfl, rfl⟩ (fun _ => true) 1 (fun _ _ _ => rfl) [8, 7] horder
  exact ⟨ib, purged, removed, hrun, hpurge, hremove, hsame⟩

end Laps.Peering.InfoBase
