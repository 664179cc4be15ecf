import Mathlib.Data.Finset.Card
import Laps.Ranking.Handler

/-! The tracks that a call of `UpdateTrackRanking` pauses, whatever list it is given. -/

namespace Laps.Ranking.PublishNamespaceHandler

open Std

/-- The tracks of whose subgroups the last loop of `UpdateTrackRanking` disposes, in its order. -/
def demotedTracks (base : BasePublish) (h : PublishNamespaceHandler) (rows : List FlatTrack) :
    List TrackAlias :=
  if h.propertyType.isNone then []
  else
    let (h, active) := selectTracks base rows (h.touchTracks rows) ∅
    if h.publishedTracks.size > h.maxTracksSelected.toNat then
      (h.publishedTracks.toList.filter fun e =>
        !active.contains e.1 && e.2.status = .ok).map Prod.fst
    else []

/-- The listed tracks of other connections that are published here. -/
def eligible (h : PublishNamespaceHandler) (rows : List FlatTrack) : List TrackAlias :=
  (rows.filter fun row =>
    row.connId ≠ h.connectionId ∧ (h.statusOf row.trackAlias).isSome).map FlatTrack.trackAlias

/-- The track is eligible, and fewer others than may be selected stand before it. -/
def Picks (h : PublishNamespaceHandler) (rows : List FlatTrack) (ta : TrackAlias) : Prop :=
  ∃ before after, h.eligible rows = before ++ ta :: after ∧
    before.toFinset.card < h.maxTracksSelected.toNat

section Eligible

variable {h h' : PublishNamespaceHandler} {row : FlatTrack} {rows : List FlatTrack}

theorem SameSetup.eligible (a : SameSetup h h') (rows : List FlatTrack) :
    h'.eligible rows = h.eligible rows := by
  simp only [PublishNamespaceHandler.eligible, a.connectionId, a.published]

theorem eligible_skip (hskip : row.connId = h.connectionId ∨ h.statusOf row.trackAlias = none) :
    h.eligible (row :: rows) = h.eligible rows := by
  unfold eligible
  rw [List.filter_cons_of_neg]
  rcases hskip with hself | hnone
  · simp [hself]
  · simp [hnone]

theorem eligible_take (hconn : row.connId ≠ h.connectionId)
    (hpub : (h.statusOf row.trackAlias).isSome) :
    h.eligible (row :: rows) = row.trackAlias :: h.eligible rows := by
  unfold eligible
  rw [List.filter_cons_of_pos (by simp [hconn, hpub])]
  rfl

/-- The split of a list at an element is at its head or in its tail. -/
theorem exists_split_cons {α : Type*} {a b : α} {l : List α} {P : List α → Prop} :
    (∃ before after, a :: l = before ++ b :: after ∧ P before) ↔
      (b = a ∧ P []) ∨ ∃ before after, l = before ++ b :: after ∧ P (a :: before) := by
  constructor
  · rintro ⟨before, after, heq, hP⟩
    cases before with
    | nil =>
      obtain ⟨rfl, -⟩ := List.cons.inj heq
      exact Or.inl ⟨rfl, hP⟩
    | cons c before =>
      obtain ⟨rfl, rfl⟩ := List.cons.inj heq
      exact Or.inr ⟨before, after, rfl, hP⟩
  · rintro (⟨rfl, hP⟩ | ⟨before, after, rfl, hP⟩)
    · exact ⟨[], l, rfl, hP⟩
    · exact ⟨a :: before, after, rfl, hP⟩

end Eligible

/-! ### The selection loop with any list -/

section Selection

variable {ta : TrackAlias}

/-- The loop takes the first different eligible tracks, beside those that are active already. -/
theorem contains_selectTracks (base : BasePublish) (rows : List FlatTrack)
    (h : PublishNamespaceHandler) (active : ExtTreeMap TrackAlias UInt64)
    (seen : Finset TrackAlias) (hseen : ∀ ta, active.contains ta = true ↔ ta ∈ seen)
    (hsize : active.size = seen.card) :
    (selectTracks base rows h active).2.contains ta = true ↔ ta ∈ seen ∨
      ∃ before after, h.eligible rows = before ++ ta :: after ∧
        (seen ∪ before.toFinset).card < h.maxTracksSelected.toNat := by
  induction rows generalizing h active seen with
  | nil => simp [selectTracks, eligible, hseen]
  | cons row rows ih =>
    rw [selectTracks]
    by_cases hfull : active.size ≥ h.maxTracksSelected.toNat
    · rw [if_pos hfull, hseen]
      refine (or_iff_left ?_).symm
      rintro ⟨before, after, -, hcard⟩
      have hle : seen.card ≤ (seen ∪ before.toFinset).card :=
        Finset.card_le_card Finset.subset_union_left
      omega
    rw [if_neg hfull]
    by_cases hself : row.connId = h.connectionId
    · rw [if_pos hself, eligible_skip (Or.inl hself)]
      exact ih h active seen hseen hsize
    rw [if_neg hself]
    cases hpub : h.publishedTracks[row.trackAlias]? with
    | none =>
      rw [eligible_skip (Or.inr (by simp [statusOf, hpub]))]
      exact ih h active seen hseen hsize
    | some track =>
      have hsetup := sameSetup_resumed base h row track.status
      dsimp only
      rw [ih _ _ (insert row.trackAlias seen) ?_ ?_, hsetup.eligible, hsetup.maxTracksSelected,
        eligible_take hself (by simp [statusOf, hpub]), exists_split_cons]
      · have hroom : seen.card < h.maxTracksSelected.toNat := by omega
        simp only [List.toFinset_cons, List.toFinset_nil, Finset.union_insert,
          Finset.insert_union, Finset.union_empty, Finset.mem_insert, hroom, and_true]
        rw [← or_assoc, or_comm (a := ta ∈ seen)]
      · intro ta
        rw [ExtTreeMap.contains_insertIfNew, Finset.mem_insert, ← hseen]
        simp only [Bool.or_eq_true, beq_iff_eq, LawfulEqCmp.compare_eq_iff_eq]
        exact or_congr_left eq_comm
      · rw [ExtTreeMap.size_insertIfNew, hsize]
        by_cases hin : row.trackAlias ∈ seen
        · rw [Finset.insert_eq_of_mem hin, if_pos]
          exact ExtTreeMap.contains_iff_mem.mp ((hseen _).mpr hin)
        · rw [Finset.card_insert_of_notMem hin, if_neg]
          intro hmem
          exact hin ((hseen _).mp (ExtTreeMap.contains_iff_mem.mpr hmem))

/-- What is active stays active. -/
theorem selectTracks_contains (base : BasePublish) (rows : List FlatTrack)
    (h : PublishNamespaceHandler) {active : ExtTreeMap TrackAlias UInt64}
    (hin : active.contains ta = true) :
    (selectTracks base rows h active).2.contains ta = true := by
  induction rows generalizing h active with
  | nil => exact hin
  | cons row rows ih =>
    rw [selectTracks]
    split
    · exact hin
    split
    · exact ih h hin
    split
    · exact ih h hin
    · exact ih _ (by rw [ExtTreeMap.contains_insertIfNew, hin, Bool.or_true])

/-- The loop changes the status of tracks that become active only, and of those only when they are
paused. -/
theorem statusOf_selectTracks (base : BasePublish) (rows : List FlatTrack)
    (h : PublishNamespaceHandler) (active : ExtTreeMap TrackAlias UInt64)
    (hkeeps : (selectTracks base rows h active).2.contains ta = false ∨ h.statusOf ta = some .ok) :
    (selectTracks base rows h active).1.statusOf ta = h.statusOf ta := by
  induction rows generalizing h active with
  | nil => rfl
  | cons row rows ih =>
    rw [selectTracks] at hkeeps ⊢
    by_cases hfull : active.size ≥ h.maxTracksSelected.toNat
    · rw [if_pos hfull]
    rw [if_neg hfull] at hkeeps ⊢
    by_cases hself : row.connId = h.connectionId
    · rw [if_pos hself] at hkeeps ⊢
      exact ih h active hkeeps
    rw [if_neg hself] at hkeeps ⊢
    cases hpub : h.publishedTracks[row.trackAlias]? with
    | none =>
      rw [hpub] at hkeeps
      exact ih h active hkeeps
    | some track =>
      rw [hpub] at hkeeps
      dsimp only at hkeeps ⊢
      have hstatus : h.statusOf row.trackAlias = some track.status := by
        rw [statusOf, hpub]
        rfl
      have hresumed : (if track.status = .paused then h.resumeTrack base row else h).statusOf ta =
          h.statusOf ta := by
        rw [statusOf_resumed base hstatus]
        split
        · rename_i hta
          rcases hkeeps with hout | hok
          · -- The track of the row is active from here on.
            rw [selectTracks_contains base rows _ (by
              rw [ExtTreeMap.contains_insertIfNew, hta]
              simp)] at hout
            cases hout
          · rw [hta, hstatus] at hok ⊢
            rw [resumeStatus, if_neg]
            intro hpaused
            rw [hpaused] at hok
            cases hok
        · rfl
      rw [ih _ _ (hkeeps.imp_right fun hok => hresumed.trans hok), hresumed]

end Selection

/-- The selection loop of a call. -/
theorem selected_spec (base : BasePublish) (h : PublishNamespaceHandler) (rows : List FlatTrack)
    (ta : TrackAlias) :
    SameSetup h (selectTracks base rows (h.touchTracks rows) ∅).1 ∧
    ((selectTracks base rows (h.touchTracks rows) ∅).2.contains ta = true ↔ h.Picks rows ta) ∧
    (¬ h.Picks rows ta ∨ h.statusOf ta = some .ok →
      (selectTracks base rows (h.touchTracks rows) ∅).1.statusOf ta = h.statusOf ta) := by
  obtain ⟨htouch, htouchStatus⟩ := h.touchTracks_spec rows
  have hactive : (selectTracks base rows (h.touchTracks rows) ∅).2.contains ta = true ↔
      h.Picks rows ta := by
    rw [contains_selectTracks base rows (h.touchTracks rows) ∅ ∅ (by simp) (by simp),
      htouch.eligible, htouch.maxTracksSelected, Picks]
    simp
  refine ⟨htouch.trans (sameSetup_selectTracks base rows _ ∅), hactive, fun hkeeps => ?_⟩
  rw [statusOf_selectTracks, htouchStatus]
  rw [htouchStatus, ← Bool.not_eq_true, hactive]
  exact hkeeps

/-- The demoted tracks are those of status ok that the selection does not pick, when more tracks are
published than may be selected. -/
theorem mem_demotedTracks {base : BasePublish} {h : PublishNamespaceHandler} {rows : List FlatTrack}
    {ta : TrackAlias} : ta ∈ h.demotedTracks base rows ↔
      h.propertyType.isSome = true ∧ h.Demotes ∧ h.statusOf ta = some .ok ∧ ¬ h.Picks rows ta := by
  obtain ⟨hsetup, hactive, hstatus⟩ := selected_spec base h rows ta
  unfold demotedTracks
  cases h.propertyType with
  | none => simp
  | some prop =>
    dsimp only [Option.isNone_some, Option.isSome_some]
    rw [if_neg Bool.false_ne_true]
    have hpaused : (∃ track : ActiveTrack,
        (selectTracks base rows (h.touchTracks rows) ∅).1.publishedTracks[ta]? = some track ∧
        (selectTracks base rows (h.touchTracks rows) ∅).2.contains ta = false ∧
        track.status = .ok) ↔ h.statusOf ta = some .ok ∧ ¬ h.Picks rows ta := by
      rw [← hactive, Bool.not_eq_true]
      constructor
      · rintro ⟨track, hget, hout, hok⟩
        refine ⟨?_, hout⟩
        rw [← hstatus (Or.inl (by rw [← hactive, hout]; decide)), statusOf, hget, ← hok]
        rfl
      · rintro ⟨hok, hout⟩
        rw [← hstatus (Or.inr hok)] at hok
        obtain ⟨track, hget, hok⟩ := Option.map_eq_some_iff.mp hok
        exact ⟨track, hget, hout, hok⟩
    rw [← hpaused]
    by_cases hdemotes : h.Demotes
    · rw [if_pos (show _ > _ from hsetup.demotes.mpr hdemotes)]
      simp [hdemotes, ExtTreeMap.mem_toList_iff_getElem?_eq_some]
    · rw [if_neg (show ¬ _ > _ from fun h => hdemotes (hsetup.demotes.mp h))]
      simp [hdemotes]

/-- The demoted tracks are those that the call pauses. -/
theorem mem_demotedTracks_iff_paused {base : BasePublish} {h : PublishNamespaceHandler}
    {rows : List FlatTrack} {ta : TrackAlias} : ta ∈ h.demotedTracks base rows ↔
      h.statusOf ta = some .ok ∧ (h.updateTrackRanking base rows).statusOf ta = some .paused := by
  obtain ⟨hsetup, hactive, hstatus⟩ := selected_spec base h rows ta
  rw [mem_demotedTracks]
  unfold updateTrackRanking
  cases h.propertyType with
  | none =>
    rw [if_pos Option.isNone_none]
    refine iff_of_false (fun h => ?_) fun h => ?_
    · cases h.1
    · rw [h.1] at h
      cases h.2
  | some prop =>
    dsimp only [Option.isNone_some, Option.isSome_some]
    rw [if_neg Bool.false_ne_true, (pauseTracks_spec _ _).2, ← hsetup.demotes, ← hactive]
    constructor
    · rintro ⟨-, hdemotes, hok, hout⟩
      refine ⟨hok, ?_⟩
      rw [hstatus (Or.inr hok), hok, Option.map_some, if_pos]
      exact ⟨hdemotes, Bool.not_eq_true _ ▸ hout, rfl⟩
    · rintro ⟨hok, hpaused⟩
      rw [hstatus (Or.inr hok), hok, Option.map_some] at hpaused
      split at hpaused
      · rename_i hcond
        refine ⟨rfl, hcond.1, hok, ?_⟩
        rw [hcond.2.1]
        decide
      · cases hpaused

end Laps.Ranking.PublishNamespaceHandler
