import Laps.Peering.BestPath

/-! Whether `AddNode` tells of a change.  It tells that some entry of the node was better than the
one of the best session, and not whether the search ends elsewhere than where it started. -/

namespace Laps.Peering.InfoBase

open Std Champion

/-- What the session has told of the node. -/
def heard (ib : InfoBase) (nodeId : NodeIdValueType) (session : PeerSessionId) : Option NodeInfo :=
  ib.nodes[(nodeId, session)]?.map NodeItem.nodeInfo

/-- The session that is best for the node, with what it has told. -/
def route (ib : InfoBase) (nodeId : NodeIdValueType) : Option (PeerSessionId × Option NodeInfo) :=
  ib.nodesBest[nodeId]?.map fun session => (session, ib.heard nodeId session)

/-- The call tells of a change exactly when the best session of the node, or what that session has
told, is another one afterwards. -/
def TellsChange (live : PeerSessionId → Bool) (ib : InfoBase) (session : PeerSessionId)
    (info : NodeInfo) : Prop :=
  ∃ ib' isUpdated, ib.addNode live session info = some (ib', isUpdated) ∧
    (isUpdated = true ↔ ib'.route info.id ≠ ib.route info.id)

/-- The same call made once more tells of no change. -/
def RepeatsQuietly (live : PeerSessionId → Bool) (ib : InfoBase) (session : PeerSessionId)
    (info : NodeInfo) : Prop :=
  ∀ ib' isUpdated, ib.addNode live session info = some (ib', isUpdated) →
    (ib'.addNode live session info).map Prod.snd = some false

/-- What the sessions tell of the node, the call included. -/
def offered (ib : InfoBase) (session : PeerSessionId) (info : NodeInfo) (s : PeerSessionId) :
    Option NodeInfo :=
  if s = session then some info else ib.heard info.id s

/-- The best session tells something new, and no session tells something better than that. -/
structure Unnoticed (ib : InfoBase) (session : PeerSessionId) (info : NodeInfo) : Prop where
  best : ib.nodesBest[info.id]? = some session
  news : ib.heard info.id session ≠ some info
  noneBetter : ∀ s offer, ib.offered session info s = some offer → isBetter info offer = false

/-- The best session tells what it has told.  Some session tells something better, but none of a
higher session id, and to each session of a lower one there is a better session of a higher id. -/
def Restored (ib : InfoBase) (session : PeerSessionId) (info : NodeInfo) : Prop :=
  ∃ best kept, ib.nodesBest[info.id]? = some best ∧ ib.heard info.id best = some kept ∧
    ib.offered session info best = some kept ∧
    (∃ s offer, ib.offered session info s = some offer ∧ isBetter kept offer = true) ∧
    (∀ s offer, best < s → ib.offered session info s = some offer → isBetter kept offer = false) ∧
    ∀ s offer, s < best → ib.offered session info s = some offer →
      ∃ s' offer', s < s' ∧ ib.offered session info s' = some offer' ∧
        isBetter offer offer' = true

section Change

variable {live : PeerSessionId → Bool} {ib : InfoBase} {session : PeerSessionId} {info : NodeInfo}

theorem mem_told_iff_heard {nodeId : NodeIdValueType} {entry : PeerSessionId × NodeInfo} :
    entry ∈ ib.told nodeId ↔ ib.heard nodeId entry.1 = some entry.2 := by
  unfold heard
  rw [Option.map_eq_some_iff]
  exact mem_told

theorem heard_insertNode (s : PeerSessionId) :
    (ib.insertNode session info).heard info.id s = ib.offered session info s := by
  unfold heard offered
  rw [getElem?_nodes_insertNode]
  by_cases hs : s = session
  · simp [hs]
  · simp [hs, heard]

/-- The session of an entry of the node has that entry only. -/
theorem told_fst_inj {nodeId : NodeIdValueType} {x y : PeerSessionId × NodeInfo}
    (hx : x ∈ ib.told nodeId) (hy : y ∈ ib.told nodeId) (h : x.1 = y.1) : x = y := by
  have hx' := mem_told_iff_heard.mp hx
  rw [h, mem_told_iff_heard.mp hy] at hx'
  exact Prod.ext h (Option.some.inj hx').symm

/-- When some entry is better than the one that the search starts with, the search comes back to it
exactly when no later entry is better and each earlier one has a better one after it. -/
theorem champion_told_iff {nodeId : NodeIdValueType} {start : PeerSessionId × NodeInfo}
    (hstart : start ∈ ib.told nodeId)
    (hbeaten : ∃ x ∈ ib.told nodeId, Beats hops totalSrtt start x) :
    champion hops totalSrtt start (ib.told nodeId) = start ↔
      (∀ x ∈ ib.told nodeId, start.1 < x.1 → ¬ Beats hops totalSrtt start x) ∧
      ∀ y ∈ ib.told nodeId, y.1 < start.1 →
        ∃ x ∈ ib.told nodeId, y.1 < x.1 ∧ Beats hops totalSrtt y x := by
  obtain ⟨pre, post, heq⟩ := List.append_of_mem hstart
  have hnodup := ib.nodup_told nodeId
  have hsplit := told_split heq
  -- What stands after an entry of `pre` are the entries of higher sessions.
  have hlater : ∀ p y q, pre = p ++ y :: q → ∀ x,
      x ∈ q ++ start :: post ↔ x ∈ ib.told nodeId ∧ y.1 < x.1 := by
    rintro p y q rfl x
    exact (told_split (by rw [heq, List.append_assoc, List.cons_append]) x).2
  rw [heq] at hnodup hbeaten
  have hiff := champion_eq_iff hnodup hbeaten
  rw [← heq] at hiff
  rw [hiff]
  constructor
  · rintro ⟨hpost, hpre⟩
    refine ⟨fun x hx hlt => hpost x ((hsplit x).2.mpr ⟨hx, hlt⟩), fun y hy hlt => ?_⟩
    obtain ⟨p, q, hp⟩ := List.append_of_mem ((hsplit y).1.mpr ⟨hy, hlt⟩)
    obtain ⟨x, hx, hbeats⟩ := hpre p y q hp
    obtain ⟨hx, hlt⟩ := (hlater p y q hp x).mp hx
    exact ⟨x, hx, hlt, hbeats⟩
  · rintro ⟨hpost, hpre⟩
    refine ⟨fun x hx => ?_, fun p y q hp => ?_⟩
    · obtain ⟨hx, hlt⟩ := (hsplit x).2.mp hx
      exact hpost x hx hlt
    · obtain ⟨hy, hlt⟩ := (hsplit y).1.mp (by simp [hp])
      obtain ⟨x, hx, hlt, hbeats⟩ := hpre y hy hlt
      exact ⟨x, (hlater p y q hp x).mpr ⟨hx, hlt⟩, hbeats⟩

/-- What the call ends with when the node has a best session. -/
theorem NodeTables.addNode_of_best (h : ib.NodeTables) (halive : ib.Alive live)
    (hlive : live session = true) {start : PeerSessionId × NodeInfo}
    (hbest : ib.nodesBest[info.id]? = some start.1)
    (hstart : ib.offered session info start.1 = some start.2) :
    ∃ ib' isUpdated, ib.addNode live session info = some (ib', isUpdated) ∧
      (isUpdated = true ↔ ∃ x ∈ (ib.insertNode session info).told info.id,
        Beats hops totalSrtt start x) ∧
      (ib.insertNode session info).Reselected ib' info.id ∧
      ib'.nodesBest[info.id]? =
        some (champion hops totalSrtt start ((ib.insertNode session info).told info.id)).1 := by
  have hmem : start ∈ (ib.insertNode session info).told info.id := by
    rw [mem_told_iff_heard, heard_insertNode]
    exact hstart
  obtain ⟨ib', hselect, hsame, hchampion⟩ :=
    (h.sound_insertNode halive info hlive).selectBestNode_of_best (h.best_insertNode info)
      hbest hmem
  refine ⟨ib', _, hselect, ?_, hsame, hchampion⟩
  rw [List.any_eq_true]
  simp only [isBetter_iff]

theorem NodeTables.offered_best (h : ib.NodeTables) (session : PeerSessionId)
    {best : PeerSessionId} (hbest : ib.nodesBest[info.id]? = some best) :
    ∃ start : PeerSessionId × NodeInfo, start.1 = best ∧
      ib.offered session info start.1 = some start.2 := by
  have hcontains : (ib.insertNode session info).nodes.contains (info.id, best) = true :=
    h.best_insertNode info info.id best hbest
  obtain ⟨kept, hmem⟩ := exists_mem_told.mpr hcontains
  rw [mem_told_iff_heard, heard_insertNode] at hmem
  exact ⟨(best, kept), rfl, hmem⟩

theorem Reselected.heard {ib' : InfoBase} {nodeId : NodeIdValueType}
    (h : ib.Reselected ib' nodeId) (n : NodeIdValueType) (s : PeerSessionId) :
    ib'.heard n s = ib.heard n s := by
  rw [h.same]
  rfl

/-- The route is the old one when the search ends where it started and the start tells what it has
told. -/
theorem route_eq_iff {ib' : InfoBase} {start : PeerSessionId × NodeInfo}
    (hbest : ib.nodesBest[info.id]? = some start.1)
    (hstart : ib.offered session info start.1 = some start.2)
    (hsame : (ib.insertNode session info).Reselected ib' info.id)
    (hchampion : ib'.nodesBest[info.id]? =
      some (champion hops totalSrtt start ((ib.insertNode session info).told info.id)).1) :
    ib'.route info.id = ib.route info.id ↔
      champion hops totalSrtt start ((ib.insertNode session info).told info.id) = start ∧
        ib.heard info.id start.1 = some start.2 := by
  have hmem : start ∈ (ib.insertNode session info).told info.id := by
    rw [mem_told_iff_heard, heard_insertNode]
    exact hstart
  have hroute : ib'.route info.id =
      some ((champion hops totalSrtt start ((ib.insertNode session info).told info.id)).1,
        some (champion hops totalSrtt start ((ib.insertNode session info).told info.id)).2) := by
    unfold route
    rw [hchampion, Option.map_some, hsame.heard,
      mem_told_iff_heard.mp (champion_mem_of_mem (f := hops) (g := totalSrtt) hmem)]
  rw [hroute]
  unfold route
  rw [hbest, Option.map_some, Option.some.injEq, Prod.mk.injEq]
  constructor
  · rintro ⟨hfst, hheard⟩
    have heq := told_fst_inj (champion_mem_of_mem (f := hops) (g := totalSrtt) hmem) hmem hfst
    rw [heq] at hheard
    exact ⟨heq, hheard.symm⟩
  · rintro ⟨heq, hheard⟩
    rw [heq]
    exact ⟨rfl, hheard.symm⟩

/-- The best session gets the place back that it has lost on the way. -/
theorem restored_iff {start : PeerSessionId × NodeInfo}
    (hbest : ib.nodesBest[info.id]? = some start.1)
    (hstart : ib.offered session info start.1 = some start.2) :
    ib.Restored session info ↔ ib.heard info.id start.1 = some start.2 ∧
      (∃ x ∈ (ib.insertNode session info).told info.id, Beats hops totalSrtt start x) ∧
      champion hops totalSrtt start ((ib.insertNode session info).told info.id) = start := by
  have hmem : ∀ entry : PeerSessionId × NodeInfo,
      entry ∈ (ib.insertNode session info).told info.id ↔
        ib.offered session info entry.1 = some entry.2 := by
    intro entry
    rw [mem_told_iff_heard, heard_insertNode]
  constructor
  · rintro ⟨best, kept, hbest', hheard, hoffered, ⟨s, offer, hs, hbetter⟩, hnone, hsome⟩
    cases hbest.symm.trans hbest'
    cases hstart.symm.trans hoffered
    have hbeaten : ∃ x ∈ (ib.insertNode session info).told info.id,
        Beats hops totalSrtt start x :=
      ⟨(s, offer), (hmem _).mpr hs, isBetter_iff.mp hbetter⟩
    refine ⟨hheard, hbeaten, (champion_told_iff ((hmem start).mpr hstart) hbeaten).mpr ⟨?_, ?_⟩⟩
    · intro x hx hlt hbeats
      have hfalse := hnone x.1 x.2 hlt ((hmem x).mp hx)
      rw [isBetter_iff.mpr hbeats] at hfalse
      cases hfalse
    · intro y hy hlt
      obtain ⟨s', offer', hlt', hs', hbetter'⟩ := hsome y.1 y.2 hlt ((hmem y).mp hy)
      exact ⟨(s', offer'), (hmem _).mpr hs', hlt', isBetter_iff.mp hbetter'⟩
  · rintro ⟨hheard, hbeaten, hchampion⟩
    obtain ⟨hnone, hsome⟩ := (champion_told_iff ((hmem start).mpr hstart) hbeaten).mp hchampion
    obtain ⟨x, hx, hbeats⟩ := hbeaten
    refine ⟨start.1, start.2, hbest, hheard, hstart,
      ⟨x.1, x.2, (hmem x).mp hx, isBetter_iff.mpr hbeats⟩, ?_, ?_⟩
    · intro s offer hlt hs
      rw [Bool.eq_false_iff]
      intro hbetter
      exact hnone (s, offer) ((hmem _).mpr hs) hlt (isBetter_iff.mp hbetter)
    · intro s offer hlt hs
      obtain ⟨x, hx, hlt', hbeats'⟩ := hsome (s, offer) ((hmem _).mpr hs) hlt
      exact ⟨x.1, x.2, hlt', (hmem x).mp hx, isBetter_iff.mpr hbeats'⟩

/-- Only the session of the call tells something new. -/
theorem unnoticed_iff {start : PeerSessionId × NodeInfo}
    (hbest : ib.nodesBest[info.id]? = some start.1)
    (hstart : ib.offered session info start.1 = some start.2) :
    ib.Unnoticed session info ↔ ib.heard info.id start.1 ≠ some start.2 ∧
      ¬ ∃ x ∈ (ib.insertNode session info).told info.id, Beats hops totalSrtt start x := by
  constructor
  · rintro ⟨hbest', hnews, hnone⟩
    have hfst : start.1 = session := Option.some.inj (hbest.symm.trans hbest')
    have hinfo : start.2 = info := by
      rw [offered, if_pos hfst] at hstart
      exact (Option.some.inj hstart).symm
    rw [hfst, hinfo]
    refine ⟨hnews, ?_⟩
    rintro ⟨x, hx, hbeats⟩
    rw [mem_told_iff_heard, heard_insertNode] at hx
    have hfalse := hnone x.1 x.2 hx
    rw [← hinfo, isBetter_iff.mpr hbeats] at hfalse
    cases hfalse
  · rintro ⟨hnews, hnone⟩
    have hfst : start.1 = session := by
      by_contra hne
      rw [offered, if_neg hne] at hstart
      exact hnews hstart
    have hinfo : start.2 = info := by
      rw [offered, if_pos hfst] at hstart
      exact (Option.some.inj hstart).symm
    rw [hfst, hinfo] at hnews
    refine ⟨hfst ▸ hbest, hnews, fun s offer hs => ?_⟩
    rw [Bool.eq_false_iff]
    intro hbetter
    refine hnone ⟨(s, offer), ?_, isBetter_iff.mp (hinfo ▸ hbetter)⟩
    rw [mem_told_iff_heard, heard_insertNode]
    exact hs

/-- The call is wrong about the change in two cases only. -/
theorem NodeTables.tellsChange_iff (h : ib.NodeTables) (halive : ib.Alive live)
    (hlive : live session = true) :
    ib.TellsChange live session info ↔
      ¬ ib.Unnoticed session info ∧ ¬ ib.Restored session info := by
  cases hbest : ib.nodesBest[info.id]? with
  | none =>
    obtain ⟨ib', isUpdated, hadd, hsame, htables, hupdated⟩ := h.addNode halive info hlive
    have hcontains : ib'.nodesBest.contains info.id = true := by
      refine (htables.chosen info.id).isSome_iff.mpr ⟨session, ?_⟩
      rw [hsame.same]
      exact (contains_nodes_insertNode ib session info info.id session).mpr (Or.inl ⟨rfl, rfl⟩)
    obtain ⟨best, hbest'⟩ := ExtTreeMap.contains_iff_getElem?.mp hcontains
    have hroute : ib'.route info.id ≠ ib.route info.id := by simp [route, hbest, hbest']
    refine iff_of_true ⟨ib', isUpdated, hadd, iff_of_true (hupdated hbest) hroute⟩ ⟨?_, ?_⟩
    · intro hunnoticed
      exact absurd (hbest.symm.trans hunnoticed.best) (by simp)
    · rintro ⟨best, -, hsome, -⟩
      exact absurd (hbest.symm.trans hsome) (by simp)
  | some best =>
    obtain ⟨start, rfl, hstart⟩ := h.offered_best session hbest
    obtain ⟨ib', isUpdated, hadd, hupdated, hsame, hchampion⟩ :=
      h.addNode_of_best halive hlive hbest hstart
    have hend : ¬ (∃ x ∈ (ib.insertNode session info).told info.id,
          Beats hops totalSrtt start x) →
        champion hops totalSrtt start ((ib.insertNode session info).told info.id) = start :=
      fun hnone => champion_eq_start fun x hx hbeats => hnone ⟨x, hx, hbeats⟩
    rw [unnoticed_iff hbest hstart, restored_iff hbest hstart]
    have htells : ib.TellsChange live session info ↔
        (isUpdated = true ↔ ib'.route info.id ≠ ib.route info.id) := by
      constructor
      · rintro ⟨_, _, hadd', hiff⟩
        cases hadd.symm.trans hadd'
        exact hiff
      · exact fun hiff => ⟨ib', isUpdated, hadd, hiff⟩
    rw [htells, hupdated, ne_eq, route_eq_iff hbest hstart hsame hchampion]
    have hlogic : ∀ {P Q R : Prop}, (¬ P → Q) →
        ((P ↔ ¬ (Q ∧ R)) ↔ ¬ (¬ R ∧ ¬ P) ∧ ¬ (R ∧ P ∧ Q)) := by
      intro P Q R himp
      by_cases hP : P
      · simp [hP, and_comm]
      · simp [hP, himp hP]
    exact hlogic hend

/-- A session that tells the same again is not heard as a change unless some entry is better than
the best one, which the search comes back to. -/
theorem NodeTables.quiet_iff (h : ib.NodeTables) (halive : ib.Alive live)
    (hheard : ib.heard info.id session = some info) :
    (ib.addNode live session info).map Prod.snd = some false ↔ ¬ ib.Restored session info := by
  have hself : (session, info) ∈ ib.told info.id := mem_told_iff_heard.mpr hheard
  have hoffered : ∀ s, ib.offered session info s = ib.heard info.id s := by
    intro s
    unfold offered
    split
    · rename_i hs
      rw [hs, hheard]
    · rfl
  have htold : (ib.insertNode session info).told info.id = ib.told info.id := by
    refine told_congr fun s => ?_
    rw [getElem?_nodes_insertNode]
    split
    · rename_i heq
      obtain ⟨item, hitem, hinfo⟩ := Option.map_eq_some_iff.mp hheard
      have hsession := (h.item _ _ item hitem).1
      rw [heq.2, hitem, ← hsession, ← hinfo]
    · rfl
  rcases h.chosen info.id with ⟨hempty, -⟩ | ⟨start, hstart, hbest⟩
  · rw [hempty] at hself
    cases hself
  · generalize hkept : champion hops totalSrtt start (ib.told info.id) = kept at hbest
    have hmem : kept ∈ ib.told info.id := hkept ▸ champion_mem_of_mem hstart
    have hback : champion hops totalSrtt kept (ib.told info.id) = kept := by
      rw [← hkept]
      exact champion_champion (ib.nodup_told info.id) hstart
    have hkept' : ib.offered session info kept.1 = some kept.2 :=
      (hoffered kept.1).trans (mem_told_iff_heard.mp hmem)
    obtain ⟨ib', isUpdated, hadd, hupdated, -⟩ :=
      h.addNode_of_best halive (halive _ _ (exists_mem_told.mp ⟨info, hself⟩)) hbest hkept'
    rw [restored_iff hbest hkept', htold, hadd, Option.map_some, Option.some.injEq,
      ← Bool.not_eq_true, hupdated, htold]
    simp only [hback, mem_told_iff_heard.mp hmem, and_true, true_and]

end Change

/-! ### Runs -/

/-- In every state that `AddNode`, `RemoveNode` and `PurgePeerSessionInfo` lead to, `AddNode` tells
of a change exactly when the best session of the node or what it has told is another one afterwards,
unless the best session tells something new that stays unnoticed, or gets back its place that it has
lost on the way.  The same call made once more tells of no change unless this happens then. -/
theorem tellsChange_nodeCalls (calls : List ((PeerSessionId → Bool) × NodeCall))
    (h : SessionsAlive calls) (ib : InfoBase) (hrun : nodeCalls calls = some ib)
    (live : PeerSessionId → Bool) (session : PeerSessionId) (info : NodeInfo)
    (halive : ib.CallAlive live (.addNode session info)) :
    (ib.TellsChange live session info ↔
      ¬ ib.Unnoticed session info ∧ ¬ ib.Restored session info) ∧
    ∀ ib' isUpdated, ib.addNode live session info = some (ib', isUpdated) →
      ((ib'.addNode live session info).map Prod.snd = some false ↔
        ¬ ib'.Restored session info) := by
  obtain ⟨ib₀, hrun₀, htables⟩ := nodeTables_nodeCalls calls h
  cases hrun.symm.trans hrun₀
  obtain ⟨halive, hlive⟩ := halive
  have hlive := hlive session info rfl
  refine ⟨htables.tellsChange_iff halive hlive, fun ib' isUpdated hadd => ?_⟩
  obtain ⟨ib₁, isUpdated₁, hadd₁, hsame, htables', -⟩ := htables.addNode halive info hlive
  cases hadd.symm.trans hadd₁
  have halive' : ib'.Alive live := by
    intro n s hs
    rw [hsame.same] at hs
    exact (htables.sound_insertNode halive info hlive).live n s hs
  refine htables'.quiet_iff halive' ?_
  rw [hsame.heard, heard_insertNode, offered, if_pos rfl]

theorem tellsChange_twoSessions : ∃ ib, nodeCalls (twoSessions.take 3) = some ib ∧
    ib.TellsChange (fun _ => true) 2 { id := 8, path := [⟨7, 10⟩] } := by
  have halive : SessionsAlive (twoSessions.take 3) :=
    sessionsAlive_of_all (by simp [twoSessions])
  obtain ⟨ib, hrun, -⟩ := nodeTables_nodeCalls _ halive
  have hroute : (nodeCalls (twoSessions.take 3)).map (fun ib => ib.route 8) =
      some (some (1, some { id := 8 })) := by decide +kernel
  rw [hrun, Option.map_some, Option.some.injEq] at hroute
  obtain ⟨best, hbest, heq⟩ := Option.map_eq_some_iff.mp hroute
  obtain ⟨rfl, hheard⟩ := Prod.mk.inj heq
  refine ⟨ib, hrun, (tellsChange_nodeCalls _ halive ib hrun (fun _ => true) 2
    { id := 8, path := [⟨7, 10⟩] } ⟨fun _ _ _ => rfl, fun _ _ _ => rfl⟩).1.mpr ⟨?_, ?_⟩⟩
  · intro hunnoticed
    exact absurd (hbest.symm.trans hunnoticed.best) (by decide)
  · rintro ⟨best', kept, hbest', hheard', -, ⟨s, offer, -, hbetter⟩, -⟩
    cases hbest.symm.trans hbest'
    cases hheard.symm.trans hheard'
    -- Nothing is better than a path without hops.
    simp [isBetter, NodeInfo.sumSrtt] at hbetter

/-- The second call goes unnoticed; in `longerPath`, the second one made again is told as a change.
-/
theorem not_tellsChange :
    (¬ ∀ calls, SessionsAlive calls → ∀ ib, nodeCalls calls = some ib → ∀ live session info,
      ib.CallAlive live (.addNode session info) → ib.TellsChange live session info) ∧
    ¬ ∀ calls, SessionsAlive calls → ∀ ib, nodeCalls calls = some ib → ∀ live session info,
      ib.CallAlive live (.addNode session info) → ib.RepeatsQuietly live session info := by
  constructor
  · intro hall
    have halive : SessionsAlive (longerPath.take 1) :=
      sessionsAlive_of_all (by simp [longerPath])
    obtain ⟨ib, hrun, -⟩ := nodeTables_nodeCalls _ halive
    obtain ⟨ib', isUpdated, hadd, hiff⟩ := hall _ halive ib hrun (fun _ => true) 1
      { id := 7, path := [⟨7, 200⟩] } ⟨fun _ _ _ => rfl, fun _ _ _ => rfl⟩
    have hresult : ((nodeCalls (longerPath.take 1)).bind fun ib =>
        (ib.addNode (fun _ => true) 1 { id := 7, path := [⟨7, 200⟩] }).map fun result =>
          (result.2, result.1.route 7, ib.route 7)) =
        some (false, some (1, some { id := 7, path := [⟨7, 200⟩] }),
          some (1, some { id := 7, path := [⟨7, 100⟩] })) := by decide +kernel
    rw [hrun, Option.bind_some, hadd, Option.map_some, Option.some.injEq, Prod.mk.injEq,
      Prod.mk.injEq] at hresult
    obtain ⟨hfalse, hafter, hbefore⟩ := hresult
    have hne : ib'.route 7 ≠ ib.route 7 := by
      rw [hafter, hbefore]
      decide
    exact absurd (hfalse.symm.trans (hiff.mpr hne)) (by decide)
  · intro hall
    have halive : SessionsAlive (longerPath.take 1) :=
      sessionsAlive_of_all (by simp [longerPath])
    obtain ⟨ib, hrun, htables⟩ := nodeTables_nodeCalls _ halive
    have hlive : ib.Alive fun _ => true := fun _ _ _ => rfl
    obtain ⟨ib', isUpdated, hadd, -⟩ := htables.addNode hlive
      { id := 7, path := [⟨7, 10⟩, ⟨8, 10⟩] } (rfl : (fun _ => true) (2 : PeerSessionId) = true)
    have hquiet := hall _ halive ib hrun (fun _ => true) 2
      { id := 7, path := [⟨7, 10⟩, ⟨8, 10⟩] } ⟨fun _ _ _ => rfl, fun _ _ _ => rfl⟩
      ib' isUpdated hadd
    have hresult : ((nodeCalls (longerPath.take 1)).bind fun ib =>
        (ib.addNode (fun _ => true) 2 { id := 7, path := [⟨7, 10⟩, ⟨8, 10⟩] }).bind fun result =>
          (result.1.addNode (fun _ => true) 2
            { id := 7, path := [⟨7, 10⟩, ⟨8, 10⟩] }).map Prod.snd) = some true := by
      decide +kernel
    rw [hrun, Option.bind_some, hadd, Option.bind_some, hquiet] at hresult
    exact absurd hresult (by decide)

end Laps.Peering.InfoBase
