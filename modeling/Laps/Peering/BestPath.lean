import Laps.Peering.Nodes
import Mathlib.Data.List.Induction

/-! Runs of the node tables: they stay consistent, and the best session of a relay is the one that
the documented order prefers except where a longer path with a lower round trip time comes later. -/

namespace Laps.Peering.InfoBase

open Std Champion

inductive NodeCall where
  | addNode (peerSession : PeerSessionId) (info : NodeInfo)
  | removeNode (peerSession : PeerSessionId) (nodeId : NodeIdValueType)
  | purgePeerSessionInfo (peerSession : PeerSessionId)
  deriving DecidableEq, Repr

def nodeCall (live : PeerSessionId → Bool) (ib : InfoBase) : NodeCall → Option InfoBase
  | .addNode peerSession info => (ib.addNode live peerSession info).map Prod.fst
  | .removeNode peerSession nodeId => ib.removeNode live peerSession nodeId
  | .purgePeerSessionInfo peerSession => ib.purgePeerSessionInfo live peerSession

/-- The calls of a run, each with the sessions that are there when it is made. -/
def nodeCalls (calls : List ((PeerSessionId → Bool) × NodeCall)) : Option InfoBase :=
  calls.foldlM (fun ib call => ib.nodeCall call.1 call.2) {}

/-- A session is there while it has entries, and when it is handed to `AddNode`. -/
def CallAlive (live : PeerSessionId → Bool) (ib : InfoBase) (call : NodeCall) : Prop :=
  ib.Alive live ∧ ∀ session info, call = .addNode session info → live session = true

def SessionsAlive (calls : List ((PeerSessionId → Bool) × NodeCall)) : Prop :=
  ∀ before live call after, calls = before ++ (live, call) :: after →
    ∀ ib, nodeCalls before = some ib → ib.CallAlive live call

/-! ### Consistency -/

theorem NodeTables.nodeCall {live : PeerSessionId → Bool} {ib : InfoBase} (h : ib.NodeTables)
    {call : NodeCall} (halive : ib.CallAlive live call) :
    ∃ ib', ib.nodeCall live call = some ib' ∧ ib'.NodeTables := by
  obtain ⟨halive, hadded⟩ := halive
  cases call with
  | addNode session info =>
    obtain ⟨ib', isUpdated, hadd, -, htables, -⟩ := h.addNode halive info (hadded session info rfl)
    exact ⟨ib', by rw [InfoBase.nodeCall, hadd]; rfl, htables⟩
  | removeNode session nodeId =>
    obtain ⟨ib', hremove, -, -, htables⟩ := h.removeNode halive nodeId session
    exact ⟨ib', hremove, htables⟩
  | purgePeerSessionInfo session =>
    obtain ⟨ib', hpurge, -, -, htables⟩ := h.purgePeerSessionInfo halive session
    exact ⟨ib', hpurge, htables⟩

theorem nodeCalls_concat (calls : List ((PeerSessionId → Bool) × NodeCall))
    (call : (PeerSessionId → Bool) × NodeCall) :
    nodeCalls (calls ++ [call]) = (nodeCalls calls).bind fun ib => ib.nodeCall call.1 call.2 := by
  simp [nodeCalls, List.foldlM_append]

theorem nodeTables_nodeCalls (calls : List ((PeerSessionId → Bool) × NodeCall))
    (h : SessionsAlive calls) : ∃ ib, nodeCalls calls = some ib ∧ ib.NodeTables := by
  induction calls using List.reverseRecOn with
  | nil => exact ⟨{}, rfl, nodeTables_empty⟩
  | append_singleton calls call ih =>
    have hbefore : SessionsAlive calls := by
      intro before live call' after hcalls
      apply h before live call' (after ++ [call])
      rw [hcalls]
      simp
    obtain ⟨ib, hrun, htables⟩ := ih hbefore
    obtain ⟨ib', hcall, htables'⟩ :=
      htables.nodeCall (h calls call.1 call.2 [] (by simp) ib hrun)
    refine ⟨ib', ?_, htables'⟩
    rw [nodeCalls_concat, hrun]
    exact hcall

/-- The tables refer to each other only. -/
structure Referential (ib : InfoBase) : Prop where
  byPeerSession : ∀ (s : PeerSessionId) (ids : ExtTreeSet NodeIdValueType),
    ib.nodesByPeerSession[s]? = some ids →
      ids.isEmpty = false ∧ ∀ n, ids.contains n = true ↔ ib.nodes.contains (n, s) = true
  row : ∀ n s, ib.nodes.contains (n, s) = true → ib.nodesByPeerSession.contains s = true
  best : ∀ n, ib.nodesBest.contains n = true ↔ ∃ s, ib.nodes.contains (n, s) = true
  bestEntry : ∀ (n : NodeIdValueType) (s : PeerSessionId), ib.nodesBest[n]? = some s →
    ib.nodes.contains (n, s) = true

theorem NodeTables.referential {ib : InfoBase} (h : ib.NodeTables) : ib.Referential where
  byPeerSession s ids hids := by
    refine ⟨h.nonempty s ids hids, fun n => ?_⟩
    rw [← h.byPeerSession n s, hids]
    simp
  row n s hs := by
    obtain ⟨ids, hids, -⟩ := (h.byPeerSession n s).mpr hs
    exact ExtTreeMap.contains_iff_getElem?.mpr ⟨ids, hids⟩
  best n := (h.chosen n).isSome_iff
  bestEntry n _ hbest := (h.chosen n).mem hbest

/-- In every run of `AddNode`, `RemoveNode` and `PurgePeerSessionInfo` no lookup fails, those of the
dump in the middle of a purge included, and the tables refer to each other only. -/
theorem nodeCalls_referential (calls : List ((PeerSessionId → Bool) × NodeCall))
    (h : SessionsAlive calls) : ∃ ib, nodeCalls calls = some ib ∧ ib.Referential := by
  obtain ⟨ib, hrun, htables⟩ := nodeTables_nodeCalls calls h
  exact ⟨ib, hrun, htables.referential⟩

theorem sessionsAlive_of_all {calls : List ((PeerSessionId → Bool) × NodeCall)}
    (h : ∀ call ∈ calls, ∀ s, call.1 s = true) : SessionsAlive calls := by
  intro before live call after hcalls ib _
  have hlive : ∀ s, live s = true := h (live, call) (by simp [hcalls])
  exact ⟨fun _ s _ => hlive s, fun s _ _ => hlive s⟩

/-- Two sessions tell of two nodes, and one of them is purged. -/
def twoSessions : List ((PeerSessionId → Bool) × NodeCall) :=
  [(fun _ => true, .addNode 1 { id := 7 }), (fun _ => true, .addNode 1 { id := 8 }),
    (fun _ => true, .addNode 2 { id := 8, path := [⟨7, 30⟩] }),
    (fun _ => true, .purgePeerSessionInfo 1)]

theorem nodeCalls_referential_twoSessions :
    ∃ ib, nodeCalls twoSessions = some ib ∧ ib.nodesBest.toList = [(8, 2)] ∧ ib.Referential := by
  obtain ⟨ib, hrun, href⟩ := nodeCalls_referential twoSessions
    (sessionsAlive_of_all (by simp [twoSessions]))
  have hbest : (nodeCalls twoSessions).map (fun ib => ib.nodesBest.toList) = some [(8, 2)] := by
    decide +kernel
  rw [hrun] at hbest
  exact ⟨ib, hrun, Option.some.inj hbest, href⟩

/-! ### The best path -/

/-- The entry of the session is least among those of the node by the number of hops and then by the
total round trip time. -/
def IsBest (ib : InfoBase) (n : NodeIdValueType) (s : PeerSessionId) : Prop :=
  ∃ item, ib.nodes[(n, s)]? = some item ∧
    ∀ (s' : PeerSessionId) (item' : NodeItem), ib.nodes[(n, s')]? = some item' →
      item.nodeInfo.path.length < item'.nodeInfo.path.length ∨
      (item.nodeInfo.path.length = item'.nodeInfo.path.length ∧
        item.nodeInfo.sumSrtt ≤ item'.nodeInfo.sumSrtt)

/-- Some best session has no session after it with a lower total round trip time. -/
def NoneLowerAfter (ib : InfoBase) (n : NodeIdValueType) : Prop :=
  ∃ (s : PeerSessionId) (item : NodeItem), ib.nodes[(n, s)]? = some item ∧ ib.IsBest n s ∧
    ∀ (s' : PeerSessionId) (item' : NodeItem), s < s' → ib.nodes[(n, s')]? = some item' →
      item.nodeInfo.sumSrtt ≤ item'.nodeInfo.sumSrtt

theorem isBest_iff {ib : InfoBase} {n : NodeIdValueType} {s : PeerSessionId} {info : NodeInfo}
    (h : (s, info) ∈ ib.told n) :
    ib.IsBest n s ↔ LexMin hops totalSrtt (ib.told n) (s, info) := by
  obtain ⟨item, hitem, rfl⟩ := mem_told.mp h
  constructor
  · rintro ⟨item', hitem', hbest⟩
    cases hitem.symm.trans hitem'
    rintro ⟨s', info'⟩ hmem
    obtain ⟨other, hother, rfl⟩ := mem_told.mp hmem
    have hle := hbest s' other hother
    rwa [UInt64.le_iff_toNat_le] at hle
  · intro hlex
    refine ⟨item, hitem, fun s' item' hitem' => ?_⟩
    have hle := hlex (s', item'.nodeInfo) (mem_told.mpr ⟨item', hitem', rfl⟩)
    rw [UInt64.le_iff_toNat_le]
    exact hle

/-- The entries of a node stand in the order of their sessions. -/
theorem pairwise_told (ib : InfoBase) (n : NodeIdValueType) :
    (ib.told n).Pairwise fun x y => x.1 < y.1 := by
  rw [told, List.pairwise_map]
  refine ExtTreeMap.pairwise_withFst.imp fun hlt => ?_
  exact compareOfLessAndEq_eq_lt.mp hlt

theorem nodup_told (ib : InfoBase) (n : NodeIdValueType) : (ib.told n).Nodup :=
  (ib.pairwise_told n).imp fun hlt heq => by
    rw [heq] at hlt
    exact UInt64.lt_irrefl _ hlt

/-- Before an entry stand those of lower sessions, and after it those of higher ones. -/
theorem told_split {ib : InfoBase} {n : NodeIdValueType} {pre post : List (PeerSessionId × NodeInfo)}
    {m : PeerSessionId × NodeInfo} (h : ib.told n = pre ++ m :: post)
    (x : PeerSessionId × NodeInfo) :
    (x ∈ pre ↔ x ∈ ib.told n ∧ x.1 < m.1) ∧ (x ∈ post ↔ x ∈ ib.told n ∧ m.1 < x.1) := by
  have hsorted := ib.pairwise_told n
  rw [h, List.pairwise_append, List.pairwise_cons] at hsorted
  obtain ⟨-, ⟨hpost, -⟩, hpre⟩ := hsorted
  have hlower : ∀ y ∈ pre, y.1 < m.1 := fun y hy => hpre y hy m List.mem_cons_self
  have hasymm : ∀ {s s' : PeerSessionId}, s < s' → ¬ s' < s := fun hlt hlt' =>
    UInt64.lt_irrefl _ (UInt64.lt_trans hlt hlt')
  rw [h, List.mem_append, List.mem_cons]
  refine ⟨⟨fun hx => ⟨Or.inl hx, hlower x hx⟩, ?_⟩,
    ⟨fun hx => ⟨Or.inr (Or.inr hx), hpost x hx⟩, ?_⟩⟩
  · rintro ⟨hx | rfl | hx, hlt⟩
    · exact hx
    · exact absurd hlt (UInt64.lt_irrefl _)
    · exact absurd hlt (hasymm (hpost x hx))
  · rintro ⟨hx | rfl | hx, hlt⟩
    · exact absurd hlt (hasymm (hlower x hx))
    · exact absurd hlt (UInt64.lt_irrefl _)
    · exact hx

theorem noneLowerAfter_iff (ib : InfoBase) (n : NodeIdValueType) :
    ib.NoneLowerAfter n ↔ ∃ pre m post, ib.told n = pre ++ m :: post ∧
      LexMin hops totalSrtt (ib.told n) m ∧ ∀ e ∈ post, totalSrtt m ≤ totalSrtt e := by
  constructor
  · rintro ⟨s, item, hitem, hbest, hafter⟩
    have hmem : (s, item.nodeInfo) ∈ ib.told n := mem_told.mpr ⟨item, hitem, rfl⟩
    obtain ⟨pre, post, heq⟩ := List.append_of_mem hmem
    refine ⟨pre, _, post, heq, (isBest_iff hmem).mp hbest, fun e he => ?_⟩
    obtain ⟨htold, hlt⟩ := (told_split heq e).2.mp he
    obtain ⟨item', hitem', hinfo⟩ := mem_told.mp htold
    have hle := hafter e.1 item' hlt hitem'
    rw [hinfo, UInt64.le_iff_toNat_le] at hle
    exact hle
  · rintro ⟨pre, m, post, heq, hlex, hafter⟩
    have hmem : (m.1, m.2) ∈ ib.told n := by simp [heq]
    obtain ⟨item, hitem, hinfo⟩ := mem_told.mp hmem
    refine ⟨m.1, item, hitem, (isBest_iff hmem).mpr hlex, fun s' item' hs' hitem' => ?_⟩
    have hmem' : (s', item'.nodeInfo) ∈ ib.told n := mem_told.mpr ⟨item', hitem', rfl⟩
    rw [hinfo, UInt64.le_iff_toNat_le]
    exact hafter _ ((told_split heq _).2.mpr ⟨hmem', hs'⟩)

/-- The session that is taken for the node is a best one. -/
def FollowsOrder (ib : InfoBase) (n : NodeIdValueType) : Prop :=
  ∃ s, ib.nodesBest[n]? = some s ∧ ib.IsBest n s

theorem NodeTables.followsOrder_iff {ib : InfoBase} (h : ib.NodeTables) {n : NodeIdValueType}
    (hn : ∃ s, ib.nodes.contains (n, s) = true) : ib.FollowsOrder n ↔ ib.NoneLowerAfter n := by
  rcases h.chosen n with ⟨-, hnone⟩ | ⟨start, hstart, hbest⟩
  · have hsome := (h.chosen n).isSome_iff.mpr hn
    rw [ExtTreeMap.contains_eq_false_iff.mpr hnone] at hsome
    cases hsome
  · have hchampion : ib.IsBest n (champion hops totalSrtt start (ib.told n)).1 ↔
        LexMin hops totalSrtt (ib.told n) (champion hops totalSrtt start (ib.told n)) :=
      isBest_iff (champion_mem_of_mem hstart)
    rw [noneLowerAfter_iff, ← lexMin_champion_iff hstart, FollowsOrder, hbest, ← hchampion]
    simp

/-- In every state that `AddNode`, `RemoveNode` and `PurgePeerSessionInfo` lead to, the session
taken for a node with entries is one with the fewest hops and, among these, the lowest total round
trip time exactly when some such session has none after it with a lower total round trip time. -/
theorem followsOrder_iff_noneLowerAfter (calls : List ((PeerSessionId → Bool) × NodeCall))
    (h : SessionsAlive calls) (ib : InfoBase) (hrun : nodeCalls calls = some ib)
    (n : NodeIdValueType) (hn : ∃ s, ib.nodes.contains (n, s) = true) :
    ib.FollowsOrder n ↔ ib.NoneLowerAfter n := by
  obtain ⟨ib', hrun', htables⟩ := nodeTables_nodeCalls calls h
  cases hrun.symm.trans hrun'
  exact htables.followsOrder_iff hn

theorem followsOrder_twoSessions : ∃ ib, nodeCalls (twoSessions.take 3) = some ib ∧
    ib.NoneLowerAfter 8 ∧ ib.FollowsOrder 8 := by
  have halive : SessionsAlive (twoSessions.take 3) :=
    sessionsAlive_of_all (by simp [twoSessions])
  obtain ⟨ib, hrun, -⟩ := nodeTables_nodeCalls _ halive
  have hfirst : (nodeCalls (twoSessions.take 3)).bind (fun ib =>
      ib.nodes[((8, 1) : UInt64 × UInt64)]?) = some ⟨1, { id := 8 }⟩ := by decide +kernel
  rw [hrun] at hfirst
  have hbest : ib.IsBest 8 1 := by
    refine ⟨_, hfirst, fun s' item' _ => ?_⟩
    rcases Nat.eq_zero_or_pos item'.nodeInfo.path.length with hzero | hpos
    · exact Or.inr ⟨hzero.symm, UInt64.le_iff_toNat_le.mpr (Nat.zero_le _)⟩
    · exact Or.inl hpos
  have hafter : ib.NoneLowerAfter 8 :=
    ⟨1, _, hfirst, hbest, fun _ _ _ _ => UInt64.le_iff_toNat_le.mpr (Nat.zero_le _)⟩
  refine ⟨ib, hrun, hafter, ?_⟩
  exact (followsOrder_iff_noneLowerAfter _ halive ib hrun 8
    ⟨1, ExtTreeMap.contains_iff_getElem?.mpr ⟨_, hfirst⟩⟩).mpr hafter

/-- The second session has the longer path and the lower round trip time. -/
def longerPath : List ((PeerSessionId → Bool) × NodeCall) :=
  [(fun _ => true, .addNode 1 { id := 7, path := [⟨7, 100⟩] }),
    (fun _ => true, .addNode 2 { id := 7, path := [⟨7, 10⟩, ⟨8, 10⟩] })]

theorem not_followsOrder : ¬ ∀ calls, SessionsAlive calls → ∀ ib, nodeCalls calls = some ib →
    ∀ n, (∃ s, ib.nodes.contains (n, s) = true) → ib.FollowsOrder n := by
  intro hall
  have halive : SessionsAlive longerPath := sessionsAlive_of_all (by simp [longerPath])
  obtain ⟨ib, hrun, -⟩ := nodeTables_nodeCalls _ halive
  have hnodes : (nodeCalls longerPath).map (fun ib => (ib.nodesBest[(7 : UInt64)]?,
      ib.nodes[((7, 1) : UInt64 × UInt64)]?, ib.nodes[((7, 2) : UInt64 × UInt64)]?)) =
      some (some 2, some ⟨1, { id := 7, path := [⟨7, 100⟩] }⟩,
        some ⟨2, { id := 7, path := [⟨7, 10⟩, ⟨8, 10⟩] }⟩) := by
    decide +kernel
  rw [hrun, Option.map_some, Option.some.injEq, Prod.mk.injEq, Prod.mk.injEq] at hnodes
  obtain ⟨hbest, hone, htwo⟩ := hnodes
  obtain ⟨s, hs, item, hitem, hleast⟩ := hall longerPath halive ib hrun 7
    ⟨1, ExtTreeMap.contains_iff_getElem?.mpr ⟨_, hone⟩⟩
  cases hbest.symm.trans hs
  cases htwo.symm.trans hitem
  have hlt := hleast 1 _ hone
  simp at hlt

end Laps.Peering.InfoBase
