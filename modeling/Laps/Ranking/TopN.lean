import Laps.Ranking.Handler

/-! The tracks that `UpdateTrackRanking` selects: the first of the list that may be selected, at
most as many as the handler's maximum.  In the lists that `UpdateValue` hands to the handlers no
row is stale, also when the list was made for another property. -/

namespace Laps.Ranking

open Std

namespace PublishNamespaceHandler

/-! ### One call -/

/-- The published tracks of a status. -/
def countOf (h : PublishNamespaceHandler) (status : PublishStatus) : ℕ :=
  (h.publishedTracks.filter fun _ track => track.status == status).size

theorem countOf_le_size (h : PublishNamespaceHandler) (status : PublishStatus) :
    h.countOf status ≤ h.publishedTracks.size :=
  ExtTreeMap.size_filter_le_size

/-- No more tracks have a status than are in a list that names them all. -/
theorem countOf_le_length {h : PublishNamespaceHandler} {status : PublishStatus}
    {aliases : List TrackAlias} (hall : ∀ ta, h.statusOf ta = some status → ta ∈ aliases) :
    h.countOf status ≤ aliases.length := by
  rw [countOf, ← ExtTreeMap.length_keys]
  refine (List.subperm_of_subset ExtTreeMap.nodup_keys fun ta hta => hall ta ?_).length_le
  rw [ExtTreeMap.mem_keys, ExtTreeMap.mem_iff_isSome_getElem?, ExtTreeMap.getElem?_filter',
    Option.isSome_filter] at hta
  obtain ⟨track, htrack, hstatus⟩ := (Option.any_eq_true _ _).mp hta
  rw [statusOf, htrack, Option.map_some, eq_of_beq hstatus]

/-- What a call selects, and what it leaves of the statuses. -/
structure SelectsTopN (base : BasePublish) (h : PublishNamespaceHandler) (rows : List FlatTrack) :
    Prop where
  exact : ∀ ta, (h.activeTracks base rows).contains ta = true ↔ ta ∈ h.active rows
  selected : ∀ ta ∈ h.active rows, (h.updateTrackRanking base rows).Selected ta
  demoted : h.Demotes → ∀ ta, ta ∉ h.active rows →
    (h.updateTrackRanking base rows).statusOf ta ≠ some .ok
  capped : (h.updateTrackRanking base rows).countOf .ok ≤ h.maxTracksSelected.toNat
  again : ∀ ta, ((h.updateTrackRanking base rows).updateTrackRanking base rows).statusOf ta =
    (h.updateTrackRanking base rows).statusOf ta

theorem statusOf_isSome_of_mem_active {h : PublishNamespaceHandler} {rows : List FlatTrack}
    {ta : TrackAlias} (hta : ta ∈ h.active rows) : (h.statusOf ta).isSome = true := by
  obtain ⟨row, hrow, rfl⟩ := List.mem_map.mp (List.mem_of_mem_take hta)
  have hkept := List.of_mem_filter hrow
  simp only [decide_eq_true_eq] at hkept
  exact hkept.2

theorem length_active_le (h : PublishNamespaceHandler) (rows : List FlatTrack) :
    (h.active rows).length ≤ h.maxTracksSelected.toNat := by
  rw [active, picked, List.length_take]
  exact Nat.min_le_left _ _

theorem resumeStatus_ne_paused {base : BasePublish} (hbase : ∀ ta, base ta .ok ≠ .paused)
    (h : PublishNamespaceHandler) (ta : TrackAlias) (status : PublishStatus) :
    h.resumeStatus base ta status ≠ .paused := by
  unfold resumeStatus
  split
  · split
    · decide
    · exact hbase ta
  · assumption

theorem statusOf_selected (base : BasePublish) (h : PublishNamespaceHandler)
    (hprop : h.propertyType.isSome) {rows : List FlatTrack}
    (hnodup : (rows.map FlatTrack.trackAlias).Nodup) {ta : TrackAlias} (hta : ta ∈ h.active rows) :
    (h.updateTrackRanking base rows).statusOf ta =
      (h.statusOf ta).map (h.resumeStatus base ta) := by
  rw [statusOf_updateTrackRanking_resume base h hprop hnodup]
  simp [hta]

theorem statusOf_notSelected (base : BasePublish) (h : PublishNamespaceHandler)
    (hprop : h.propertyType.isSome) {rows : List FlatTrack}
    (hnodup : (rows.map FlatTrack.trackAlias).Nodup) {ta : TrackAlias} (hta : ta ∉ h.active rows) :
    (h.updateTrackRanking base rows).statusOf ta = (h.statusOf ta).map fun status =>
      if h.Demotes ∧ status = .ok then .paused else status := by
  rw [statusOf_updateTrackRanking_resume base h hprop hnodup]
  simp [hta]

theorem demoted_ne_ok {h : PublishNamespaceHandler} (hdemotes : h.Demotes)
    (status : PublishStatus) :
    (if h.Demotes ∧ status = .ok then PublishStatus.paused else status) ≠ .ok := by
  by_cases hok : status = .ok
  · rw [if_pos ⟨hdemotes, hok⟩]
    decide
  · rw [if_neg fun h => hok h.2]
    exact hok

theorem demoted_twice (h : PublishNamespaceHandler) (status : PublishStatus) :
    (if h.Demotes ∧ (if h.Demotes ∧ status = .ok then PublishStatus.paused else status) = .ok
      then PublishStatus.paused else if h.Demotes ∧ status = .ok then .paused else status) =
      if h.Demotes ∧ status = .ok then .paused else status := by
  by_cases hdemotes : h.Demotes
  · rw [if_neg fun h' => demoted_ne_ok hdemotes status h'.2]
  · rw [if_neg fun h' => hdemotes h'.1]

/-- `UpdateTrackRanking` selects the first tracks of the list that may be selected, up to the
maximum, pauses the others when there are more, and changes nothing when it is called again. -/
theorem updateTrackRanking_selectsTopN (base : BasePublish) (hbase : ∀ ta, base ta .ok ≠ .paused)
    (h : PublishNamespaceHandler) (hprop : h.propertyType.isSome) (rows : List FlatTrack)
    (hnodup : (rows.map FlatTrack.trackAlias).Nodup) : SelectsTopN base h rows := by
  have hsetup := sameSetup_updateTrackRanking base h rows
  have hactive : (h.updateTrackRanking base rows).active rows = h.active rows := by
    rw [active, hsetup.picked, hsetup.maxTracksSelected, active]
  have hdemoted : h.Demotes → ∀ ta, ta ∉ h.active rows →
      (h.updateTrackRanking base rows).statusOf ta ≠ some .ok := by
    intro hdemotes ta hta hok
    rw [statusOf_notSelected base h hprop hnodup hta] at hok
    obtain ⟨status, -, hstatus⟩ := Option.map_eq_some_iff.mp hok
    exact demoted_ne_ok hdemotes status hstatus
  refine ⟨contains_activeTracks base h hnodup, ?_, hdemoted, ?_, ?_⟩
  · intro ta hta
    obtain ⟨status, hstatus⟩ := Option.isSome_iff_exists.mp (statusOf_isSome_of_mem_active hta)
    have hafter := statusOf_selected base h hprop hnodup hta
    rw [hstatus, Option.map_some] at hafter
    obtain ⟨track, htrack, hresumed⟩ := Option.map_eq_some_iff.mp hafter
    exact ⟨track, htrack, hresumed ▸ resumeStatus_ne_paused hbase h ta status⟩
  · by_cases hdemotes : h.Demotes
    · refine (countOf_le_length fun ta hok => ?_).trans (length_active_le h rows)
      by_contra hta
      exact hdemoted hdemotes ta hta hok
    · have hsize : h.publishedTracks.size ≤ h.maxTracksSelected.toNat := Nat.not_lt.mp hdemotes
      calc (h.updateTrackRanking base rows).countOf .ok
          ≤ (h.updateTrackRanking base rows).publishedTracks.size := countOf_le_size _ _
        _ = h.publishedTracks.size := hsetup.size
        _ ≤ h.maxTracksSelected.toNat := hsize
  · intro ta
    have hprop' : (h.updateTrackRanking base rows).propertyType.isSome = true := by
      rw [hsetup.propertyType, hprop]
    by_cases hta : ta ∈ h.active rows
    · -- a selected track is not paused, and only paused tracks are resumed
      rw [statusOf_selected base _ hprop' hnodup (hactive ▸ hta), statusOf_selected base h hprop hnodup hta,
        Option.map_map]
      congr 1
      funext status
      rw [Function.comp_apply, resumeStatus, if_neg (resumeStatus_ne_paused hbase h ta status)]
    · rw [statusOf_notSelected base _ hprop' hnodup (hactive ▸ hta),
        statusOf_notSelected base h hprop hnodup hta, Option.map_map]
      congr 1
      funext status
      simp only [Function.comp_apply, hsetup.demotes]
      exact demoted_twice h status

/-- Two published tracks, of which one may be selected. -/
def oneSelected : PublishNamespaceHandler where
  nsHash := 9
  connectionId := 7
  propertyType := some 100
  publishedTracks := (∅ : ExtTreeMap TrackAlias ActiveTrack).insertMany
    [(1, ⟨0, .ok⟩), (2, ⟨0, .paused⟩)]

theorem updateTrackRanking_selectsTopN_oneSelected :
    let rows : List FlatTrack := [⟨3, 1, 1000, 8⟩, ⟨2, 2, 1000, 8⟩, ⟨1, 3, 1000, 8⟩]
    oneSelected.active rows = [2] ∧ SelectsTopN (fun _ status => status) oneSelected rows :=
  ⟨by decide +kernel, updateTrackRanking_selectsTopN _ (fun _ => by decide) oneSelected rfl _
    (by decide)⟩

end PublishNamespaceHandler

/-! ### The handlers that a run notifies -/

/-- The events of a ranking: an operation, or anything that creates, registers, changes or destroys
handlers. -/
inductive SystemEvent where
  | op (op : Op)
  | handlers (nsHandlers : ExtTreeMap UInt64 (ExtTreeMap UInt64 HandlerId))
      (live : ExtTreeMap HandlerId PublishNamespaceHandler)

namespace RankingSystem

def event (base : BasePublish) (sys : RankingSystem) : SystemEvent → RankingSystem
  | .op op => sys.step base op
  | .handlers nsHandlers live => { sys with nsHandlers := nsHandlers, live := live }

/-- The system after the events, from the empty ranking without handlers. -/
def after (base : BasePublish) (events : List SystemEvent) : RankingSystem :=
  events.foldl (event base) {}

/-- The loop over `ns_handlers_` in a call of `UpdateValue` calls the handler, as it is then. -/
def CallsBack (base : BasePublish) (sys : RankingSystem) (c : UpdateValue)
    (h : PublishNamespaceHandler) : Prop :=
  ∃ before id after, sys.registered = before ++ id :: after ∧
    (before.foldl (fun live id => live.modify id fun h =>
      h.updateTrackRanking base (sys.ranking.updateValue c).flatTrackList) sys.live)[id]? = some h

end RankingSystem

/-- The operations among the events. -/
def opsOf (events : List SystemEvent) : List Op :=
  events.filterMap fun
    | .op op => some op
    | .handlers _ _ => none

theorem opsOf_append (events events' : List SystemEvent) :
    opsOf (events ++ events') = opsOf events ++ opsOf events' :=
  List.filterMap_append

theorem opsOf_op (op : Op) : opsOf [.op op] = [op] := rfl

theorem opsOf_handlers (nsHandlers : ExtTreeMap UInt64 (ExtTreeMap UInt64 HandlerId))
    (live : ExtTreeMap HandlerId PublishNamespaceHandler) :
    opsOf [.handlers nsHandlers live] = [] := rfl

theorem ranking_step (base : BasePublish) (sys : RankingSystem) (op : Op) :
    (sys.step base op).ranking = sys.ranking.step op := by
  cases op with
  | updateValue c => rfl
  | setInactiveAge ageMs => rfl

/-- The handlers do not act on the tables of the ranking. -/
theorem ranking_after (base : BasePublish) (events : List SystemEvent) :
    (RankingSystem.after base events).ranking = TrackRanking.run (opsOf events) := by
  induction events using List.reverseRecOn with
  | nil => rfl
  | append_singleton events event ih =>
    rw [RankingSystem.after, List.foldl_append, List.foldl_cons, List.foldl_nil, opsOf_append]
    cases event with
    | op op =>
      rw [opsOf_op, TrackRanking.run_concat]
      exact (ranking_step base _ op).trans (congrArg (TrackRanking.step · op) ih)
    | handlers nsHandlers live =>
      rw [opsOf_handlers, List.append_nil]
      exact ih

/-! ### No stale row -/

/-- The track is stored under some property. -/
def Stored (tracks : OrderedTracks) (ta : TrackAlias) : Prop :=
  ∃ p v info, trackAt tracks p v ta = some info

/-- The list names tracks that are stored, each once and with its last connection. -/
structure Fresh (ops : List Op) (rows : List FlatTrack) : Prop where
  nodup : (rows.map FlatTrack.trackAlias).Nodup
  stored : ∀ row ∈ rows, Stored (TrackRanking.run ops).orderedTracks row.trackAlias
  connection : ∀ row ∈ rows, lastConnection ops row.trackAlias = some row.connId

theorem IsRankedList.fresh {ops : List Op} {p : PropertyType} {rows : List FlatTrack}
    (h : IsRankedList (TrackRanking.run ops).orderedTracks (lastConnection ops) p rows) :
    Fresh ops rows := by
  refine ⟨h.nodup, fun row hrow => ?_, fun row hrow => ?_⟩
  · obtain ⟨v, hstored, -⟩ := (h.mem_iff row).mp hrow
    exact ⟨p, v, _, hstored⟩
  · obtain ⟨v, -, hconn⟩ := (h.mem_iff row).mp hrow
    exact hconn

/-- A call that finds nothing inactive keeps every stored track, maybe under another value. -/
theorem Stored.updateValue {r : TrackRanking} {c : UpdateValue} {ta : TrackAlias}
    (h : Stored r.orderedTracks ta)
    (hactive : hasInactive r.inactiveAgeMs c.tick (r.placed c) = false) :
    Stored (r.updateValue c).orderedTracks ta := by
  obtain ⟨p, v, info, hinfo⟩ := h
  have hkept : ∀ v' info', trackAt (r.placed c) p v' ta = some info' →
      Stored (r.updateValue c).orderedTracks ta := by
    intro v' info' hplaced
    refine ⟨p, v', info', ?_⟩
    rw [trackAt_updateValue, Option.filter_eq_some_iff]
    refine ⟨hplaced, ?_⟩
    rw [Bool.not_eq_true', ← Bool.not_eq_true]
    intro hold
    have hin := hasInactive_iff.mpr ⟨p, v', ta, info', hplaced, hold⟩
    rw [hactive] at hin
    cases hin
  by_cases hown : p = c.prop ∧ ta = c.trackAlias
  · exact hkept c.value _ (by rw [trackAt_placed, if_pos hown, if_pos rfl])
  · exact hkept v info (by rw [trackAt_placed, if_neg hown, hinfo])

/-- The list in place: its rows are the old ones, that of the called track with its connection. -/
theorem Fresh.patch {ops : List Op} {c : UpdateValue} {rows : List FlatTrack} (h : Fresh ops rows)
    (hactive : hasInactive (TrackRanking.run ops).inactiveAgeMs c.tick
      ((TrackRanking.run ops).placed c) = false) :
    Fresh (ops ++ [.updateValue c]) (patchFlatList c rows) := by
  rw [patchFlatList_eq_map c h.nodup]
  refine ⟨?_, ?_, ?_⟩
  · rw [List.map_map]
    simpa only [Function.comp_def, c.patch_trackAlias] using h.nodup
  · intro row hrow
    obtain ⟨old, hold, rfl⟩ := List.mem_map.mp hrow
    rw [TrackRanking.run_concat, c.patch_trackAlias]
    exact (h.stored old hold).updateValue hactive
  · intro row hrow
    obtain ⟨old, hold, rfl⟩ := List.mem_map.mp hrow
    rw [c.patch_trackAlias, lastConnection_updateValue, UpdateValue.patch]
    split
    · rfl
    · exact h.connection old hold

theorem Fresh.updateValue {ops : List Op} (c : UpdateValue)
    (h : Fresh ops (TrackRanking.run ops).flatTrackList) :
    Fresh (ops ++ [.updateValue c]) (TrackRanking.run (ops ++ [.updateValue c])).flatTrackList := by
  have hrebuilt := (isRankedList_rebuild_run (ops ++ [.updateValue c]) c.prop).fresh
  rw [TrackRanking.run_concat, TrackRanking.step] at hrebuilt ⊢
  cases hneeds : (TrackRanking.run ops).needsRebuild c with
  | true =>
    rw [TrackRanking.updateValue, hneeds]
    exact hrebuilt
  | false =>
    rw [TrackRanking.updateValue, hneeds]
    refine h.patch ?_
    rw [TrackRanking.needsRebuild, Bool.or_eq_false_iff] at hneeds
    exact hneeds.2

theorem fresh_run (ops : List Op) : Fresh ops (TrackRanking.run ops).flatTrackList := by
  induction ops using List.reverseRecOn with
  | nil => exact ⟨List.nodup_nil, fun _ h => absurd h List.not_mem_nil,
      fun _ h => absurd h List.not_mem_nil⟩
  | append_singleton ops op ih =>
    cases op with
    | updateValue c => exact ih.updateValue c
    | setInactiveAge ageMs =>
      rw [TrackRanking.run_concat]
      refine ⟨ih.nodup, fun row hrow => ?_, fun row hrow => ?_⟩
      · rw [TrackRanking.run_concat]
        exact ih.stored row hrow
      · rw [lastConnection_setInactiveAge]
        exact ih.connection row hrow

/-- What a handler may count as active in a call of `UpdateValue` after the operations: the track
is in the list once, stored and not inactive, and of another connection. -/
structure ActiveTrackIsCurrent (ops : List Op) (c : UpdateValue) (h : PublishNamespaceHandler)
    (ta : TrackAlias) : Prop where
  once : (((TrackRanking.run ops).updateValue c).flatTrackList.map FlatTrack.trackAlias).count ta = 1
  stored : ∃ p v info,
    trackAt ((TrackRanking.run ops).updateValue c).orderedTracks p v ta = some info ∧
      (c.tick < info.latestTick ∨
        c.tick - info.latestTick ≤ (TrackRanking.run ops).inactiveAgeMs)
  others : ∃ conn, lastConnection (ops ++ [.updateValue c]) ta = some conn ∧
    conn ≠ h.connectionId

theorem activeTrackIsCurrent (base : BasePublish) (ops : List Op) (c : UpdateValue)
    (h : PublishNamespaceHandler) {ta : TrackAlias}
    (hta : (h.activeTracks base ((TrackRanking.run ops).updateValue c).flatTrackList).contains ta =
      true) : ActiveTrackIsCurrent ops c h ta := by
  have hfresh := fresh_run (ops ++ [.updateValue c])
  rw [TrackRanking.run_concat, TrackRanking.step] at hfresh
  have hactive := (PublishNamespaceHandler.contains_activeTracks base h hfresh.nodup ta).mp hta
  obtain ⟨row, hrow, rfl⟩ := List.mem_map.mp (List.mem_of_mem_take hactive)
  have hkept := List.of_mem_filter hrow
  have hmem := List.mem_of_mem_filter hrow
  simp only [decide_eq_true_eq] at hkept
  refine ⟨?_, ?_, _, hfresh.connection row hmem, hkept.1⟩
  · exact List.count_eq_one_of_mem hfresh.nodup (List.mem_map_of_mem hmem)
  · obtain ⟨p, v, info, hinfo⟩ := hfresh.stored row hmem
    rw [TrackRanking.run_concat, TrackRanking.step] at hinfo
    refine ⟨p, v, info, hinfo, ?_⟩
    rw [trackAt_updateValue, Option.filter_eq_some_iff] at hinfo
    have hlive := hinfo.2
    rw [Bool.not_eq_true', ← Bool.not_eq_true, isInactive, Bool.and_eq_true, decide_eq_true_eq,
      decide_eq_true_eq] at hlive
    by_cases hlater : c.tick < info.latestTick
    · exact .inl hlater
    · exact .inr (UInt64.not_lt.mp fun hold => hlive ⟨UInt64.not_lt.mp hlater, hold⟩)

/-- In every run, and in every call that `UpdateValue` makes to a handler, what the handler counts
as active is neither stale nor its own. -/
theorem callsBack_activeTracks_current (base : BasePublish) (events : List SystemEvent)
    (c : UpdateValue) (h : PublishNamespaceHandler)
    (_hcall : (RankingSystem.after base events).CallsBack base c h) (ta : TrackAlias)
    (hta : (h.activeTracks base
      ((RankingSystem.after base events).ranking.updateValue c).flatTrackList).contains ta = true) :
    ActiveTrackIsCurrent (opsOf events) c h ta := by
  rw [ranking_after] at hta
  exact activeTrackIsCurrent base _ c h hta

/-- The list of property 100 is handed out by a call for property 200. -/
theorem callsBack_activeTracks_current_otherProperty :
    let events : List SystemEvent := [.op (.updateValue ⟨3, 200, 5, 1000, 8⟩),
      .op (.updateValue ⟨2, 100, 5, 1000, 8⟩),
      .handlers ((∅ : ExtTreeMap UInt64 (ExtTreeMap UInt64 HandlerId)).insert 9
        ((∅ : ExtTreeMap UInt64 HandlerId).insert 7 0))
        ((∅ : ExtTreeMap HandlerId PublishNamespaceHandler).insert 0
          PublishNamespaceHandler.oneSelected)]
    ActiveTrackIsCurrent (opsOf events) ⟨3, 200, 5, 1001, 8⟩ PublishNamespaceHandler.oneSelected 2 :=
  callsBack_activeTracks_current (fun _ status => status) _ _ PublishNamespaceHandler.oneSelected
    ⟨[], 0, [], by decide +kernel, by decide +kernel⟩ 2 (by decide +kernel)

end Laps.Ranking
