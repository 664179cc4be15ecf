import Laps.Ranking.Model
import Mathlib.Data.List.Induction

/-! The buckets of a ranking as a plain map: every track of a property is in at most one bucket, and
the map from property and alias to value, sequence number and tick changes with each operation as
`PlainRanking` states. -/

namespace Laps.Ranking

open Std

/-! ### Looking up a track -/

/-- The track in the bucket of a property and value. -/
def trackAt (tracks : OrderedTracks) (p : PropertyType) (v : PropertyValue) (ta : TrackAlias) :
    Option TrackTickInfo :=
  tracks[(p, v)]?.bind fun entry => entry[ta]?

theorem trackAt_eq_some {tracks : OrderedTracks} {p v ta info} :
    trackAt tracks p v ta = some info ↔
      ∃ entry, tracks[(p, v)]? = some entry ∧ entry[ta]? = some info := by
  simp [trackAt, Option.bind_eq_some_iff]

theorem trackAt_empty (p : PropertyType) (v : PropertyValue) (ta : TrackAlias) :
    trackAt ∅ p v ta = none := by
  simp [trackAt]

theorem isOldBucket_iff {c : UpdateValue} {key : PropertyType × PropertyValue}
    {entry : TrackEntry} : isOldBucket c key entry = true ↔
      key.1 = c.prop ∧ key.2 ≠ c.value ∧ ∃ info, entry[c.trackAlias]? = some info := by
  simp only [isOldBucket, Bool.and_eq_true, beq_iff_eq, bne_iff_ne, ne_eq,
    ExtTreeMap.contains_iff_getElem?, and_assoc]

/-- The first loop removes the track from every bucket of its property but that of its value. -/
theorem trackAt_leaveOldBuckets (c : UpdateValue) (tracks : OrderedTracks) (p v ta) :
    trackAt (leaveOldBuckets c tracks) p v ta =
      if p = c.prop ∧ v ≠ c.value ∧ ta = c.trackAlias then none else trackAt tracks p v ta := by
  simp only [trackAt, leaveOldBuckets, ExtTreeMap.getElem?_filterMap']
  cases hb : tracks[(p, v)]? with
  | none => simp
  | some entry =>
    simp only [Option.bind_some, leaveBucket]
    by_cases hold : isOldBucket c (p, v) entry = true
    · obtain ⟨hp, hv, -⟩ := isOldBucket_iff.mp hold
      simp only at hp hv
      rw [if_pos hold]
      split
      · rename_i hempty
        rw [ExtTreeMap.isEmpty_iff_getElem?] at hempty
        have := hempty ta
        rw [ExtTreeMap.getElem?_erase] at this
        grind
      · simp only [Option.bind_some, ExtTreeMap.getElem?_erase, LawfulEqCmp.compare_eq_iff_eq]
        grind
    · rw [if_neg hold, Option.bind_some]
      split
      · rename_i h
        obtain ⟨hp, hv, rfl⟩ := h
        by_contra hne
        obtain ⟨info, hinfo⟩ := Option.ne_none_iff_exists'.mp hne
        exact hold (isOldBucket_iff.mpr ⟨hp, hv, info, hinfo⟩)
      · rfl

theorem getElem?_enterBucket (c : UpdateValue) (seqNum : UInt64) (entry : TrackEntry)
    (ta : TrackAlias) : (enterBucket c seqNum entry)[ta]? =
      if ta = c.trackAlias then
        some { (entry[c.trackAlias]?.getD ⟨seqNum, c.tick⟩) with latestTick := c.tick }
      else entry[ta]? := by
  unfold enterBucket
  cases h : entry[c.trackAlias]? <;>
    simp only [ExtTreeMap.getElem?_insert, LawfulEqCmp.compare_eq_iff_eq, eq_comm (a := ta)] <;>
    split <;> simp

theorem trackAt_placeTrack (c : UpdateValue) (seqNum : UInt64) (tracks : OrderedTracks) (p v ta) :
    trackAt (placeTrack c seqNum tracks) p v ta =
      if p = c.prop ∧ v = c.value ∧ ta = c.trackAlias then
        some { ((trackAt tracks c.prop c.value c.trackAlias).getD ⟨seqNum, c.tick⟩) with
          latestTick := c.tick }
      else trackAt tracks p v ta := by
  simp only [trackAt, placeTrack, ExtTreeMap.getElem?_insert, LawfulEqCmp.compare_eq_iff_eq,
    ExtTreeMap.getD_eq_getD_getElem?, Prod.mk.injEq]
  by_cases hkey : c.prop = p ∧ c.value = v
  · obtain ⟨rfl, rfl⟩ := hkey
    rw [if_pos ⟨rfl, rfl⟩, Option.bind_some, getElem?_enterBucket]
    cases tracks[(c.prop, c.value)]? <;> simp
  · rw [if_neg hkey, if_neg (by grind)]

theorem trackAt_removeInactive (age tick : UInt64) (tracks : OrderedTracks) (p v ta) :
    trackAt (removeInactive age tick tracks) p v ta =
      (trackAt tracks p v ta).filter fun info => !isInactive age tick info := by
  simp only [trackAt, removeInactive, ExtTreeMap.getElem?_filterMap']
  cases hb : tracks[(p, v)]? with
  | none => simp
  | some entry =>
    have hlive := ExtTreeMap.getElem?_filter' (t := entry) (k := ta)
      (f := fun _ info => !isInactive age tick info)
    simp only [Option.bind_some, expireBucket]
    split
    · rename_i hempty
      rw [ExtTreeMap.isEmpty_iff_getElem?] at hempty
      rw [← hlive, hempty ta]
      rfl
    · exact hlive

/-- The track of a call in the buckets before it. -/
def UpdateValue.trackIn (c : UpdateValue) (tracks : OrderedTracks) (v : PropertyValue) :
    Option TrackTickInfo :=
  trackAt tracks c.prop v c.trackAlias

/-- One call of `UpdateValue` on the tracks, before inactive tracks are removed. -/
theorem trackAt_placed (r : TrackRanking) (c : UpdateValue) (p v ta) :
    trackAt (r.placed c) p v ta =
      if p = c.prop ∧ ta = c.trackAlias then
        if v = c.value then
          some { ((c.trackIn r.orderedTracks c.value).getD
            ⟨insertSeq (valueDecreased c r.orderedTracks) (r.updateValueSeqNum + 1), c.tick⟩) with
              latestTick := c.tick }
        else none
      else trackAt r.orderedTracks p v ta := by
  simp only [TrackRanking.placed, trackAt_placeTrack, trackAt_leaveOldBuckets, UpdateValue.trackIn]
  grind

theorem trackAt_updateValue (r : TrackRanking) (c : UpdateValue) (p v ta) :
    trackAt (r.updateValue c).orderedTracks p v ta =
      (trackAt (r.placed c) p v ta).filter fun info => !isInactive r.inactiveAgeMs c.tick info :=
  trackAt_removeInactive _ _ _ _ _ _

theorem valueDecreased_iff {c : UpdateValue} {tracks : OrderedTracks} :
    valueDecreased c tracks = true ↔ ∃ v info, c.trackIn tracks v = some info ∧ c.value < v := by
  simp only [valueDecreased, ExtTreeMap.anyEntry_iff, Bool.and_eq_true, isOldBucket_iff,
    decide_eq_true_eq, UpdateValue.trackIn, trackAt_eq_some]
  constructor
  · rintro ⟨⟨p, v⟩, entry, hentry, ⟨rfl, -, info, hinfo⟩, hv⟩
    exact ⟨v, info, ⟨entry, hentry, hinfo⟩, hv⟩
  · rintro ⟨v, info, ⟨entry, hentry, hinfo⟩, hv⟩
    exact ⟨(c.prop, v), entry, hentry, ⟨rfl, (UInt64.ne_of_lt hv).symm, info, hinfo⟩, hv⟩

/-! ### Well-formed buckets -/

/-- No bucket is empty, and a track of a property is in at most one bucket. -/
structure WellFormed (tracks : OrderedTracks) : Prop where
  nonempty : ∀ (key : PropertyType × PropertyValue) (entry : TrackEntry),
    tracks[key]? = some entry → entry.isEmpty = false
  unique : ∀ p ta v v' info info', trackAt tracks p v ta = some info →
    trackAt tracks p v' ta = some info' → v = v'

theorem wellFormed_empty : WellFormed ∅ :=
  ⟨by simp, by simp [trackAt_empty]⟩

theorem nonempty_removeInactive (age tick : UInt64) (tracks : OrderedTracks)
    {key : PropertyType × PropertyValue} {entry : TrackEntry}
    (h : (removeInactive age tick tracks)[key]? = some entry) : entry.isEmpty = false := by
  simp only [removeInactive, ExtTreeMap.getElem?_filterMap', Option.bind_eq_some_iff,
    expireBucket] at h
  obtain ⟨old, -, h⟩ := h
  split at h
  · cases h
  · rename_i hlive
    cases h
    simpa using hlive

theorem WellFormed.updateValue {r : TrackRanking} (h : WellFormed r.orderedTracks)
    (c : UpdateValue) : WellFormed (r.updateValue c).orderedTracks where
  nonempty _ _ hentry := nonempty_removeInactive _ _ _ hentry
  unique p ta v v' info info' h1 h2 := by
    rw [trackAt_updateValue, Option.filter_eq_some_iff, trackAt_placed] at h1 h2
    by_cases hta : p = c.prop ∧ ta = c.trackAlias
    · rw [if_pos hta] at h1 h2
      have hv : v = c.value := by
        by_contra hne
        simp [hne] at h1
      have hv' : v' = c.value := by
        by_contra hne
        simp [hne] at h2
      rw [hv, hv']
    · rw [if_neg hta] at h1 h2
      exact h.unique p ta v v' info info' h1.1 h2.1

theorem wellFormed_run (ops : List Op) : WellFormed (TrackRanking.run ops).orderedTracks := by
  induction ops using List.reverseRecOn with
  | nil => exact wellFormed_empty
  | append_singleton ops op ih =>
    rw [TrackRanking.run_concat]
    cases op with
    | updateValue c => exact ih.updateValue c
    | setInactiveAge ageMs => exact ih

/-! ### The plain map -/

/-- What the ranking holds of a track under one property. -/
structure Rank where
  value : ℕ
  insertSeqNum : ℕ
  latestTick : ℕ
  deriving DecidableEq, Repr

/-- A ranking without buckets: a map from property and alias to the track's rank. -/
structure PlainRanking where
  ranks : PropertyType → TrackAlias → Option Rank := fun _ _ => none
  updates : ℕ := 0
  inactiveAgeMs : ℕ := 10000

/-- The rank of the updated track; `n` is the incremented update counter. -/
def Rank.updated (n : ℕ) (c : UpdateValue) : Option Rank → Rank
  | none => ⟨c.value.toNat, 2 ^ 63 + n, c.tick.toNat⟩
  | some old =>
    if old.value = c.value.toNat then { old with latestTick := c.tick.toNat }
    else if c.value.toNat < old.value then ⟨c.value.toNat, 2 ^ 63 - 1 - n, c.tick.toNat⟩
    else ⟨c.value.toNat, 2 ^ 63 + n, c.tick.toNat⟩

/-- The track of this rank is too old at `tick`. -/
def Rank.Expired (ageMs tick : ℕ) (rank : Rank) : Prop :=
  rank.latestTick ≤ tick ∧ ageMs < tick - rank.latestTick

instance (ageMs tick : ℕ) (rank : Rank) : Decidable (rank.Expired ageMs tick) :=
  inferInstanceAs (Decidable (_ ∧ _))

/-- The map after the update of one track and before the old tracks are dropped. -/
def PlainRanking.assigned (m : PlainRanking) (c : UpdateValue) (p : PropertyType)
    (ta : TrackAlias) : Option Rank :=
  if p = c.prop ∧ ta = c.trackAlias then
    some (Rank.updated (m.updates + 1) c (m.ranks c.prop c.trackAlias))
  else m.ranks p ta

def PlainRanking.updateValue (m : PlainRanking) (c : UpdateValue) : PlainRanking :=
  { m with
    updates := m.updates + 1
    ranks := fun p ta =>
      (m.assigned c p ta).filter fun rank => ¬ rank.Expired m.inactiveAgeMs c.tick.toNat }

def PlainRanking.step (m : PlainRanking) : Op → PlainRanking
  | .updateValue c => m.updateValue c
  | .setInactiveAge ageMs => { m with inactiveAgeMs := ageMs.toNat }

def PlainRanking.run (ops : List Op) : PlainRanking := ops.foldl PlainRanking.step {}

theorem PlainRanking.run_concat (ops : List Op) (op : Op) :
    PlainRanking.run (ops ++ [op]) = (PlainRanking.run ops).step op := by
  simp [PlainRanking.run]

/-! ### Refinement -/

def TrackTickInfo.rank (info : TrackTickInfo) (v : PropertyValue) : Rank :=
  ⟨v.toNat, info.insertSeqNum.toNat, info.latestTick.toNat⟩

/-- The map holds exactly the tracks of the buckets. -/
def Represents (tracks : OrderedTracks) (ranks : PropertyType → TrackAlias → Option Rank) : Prop :=
  ∀ p ta rank, ranks p ta = some rank ↔
    ∃ v info, trackAt tracks p v ta = some info ∧ info.rank v = rank

theorem toNat_insertSeq_true {n : UInt64} (h : n.toNat < 2 ^ 63) :
    (insertSeq true n).toNat = 2 ^ 63 - 1 - n.toNat := by
  have hle : n ≤ ((0xFFFFFFFFFFFFFFFF : UInt64) >>> 1) := by
    rw [UInt64.le_iff_toNat_le]
    have : ((0xFFFFFFFFFFFFFFFF : UInt64) >>> 1).toNat = 2 ^ 63 - 1 := by decide
    omega
  simp only [insertSeq, if_true, UInt64.toNat_sub_of_le _ _ hle]
  rfl

theorem toNat_insertSeq_false {n : UInt64} (h : n.toNat < 2 ^ 63) :
    (insertSeq false n).toNat = 2 ^ 63 + n.toNat := by
  have hshift : ((1 : UInt64) <<< 63).toNat = 2 ^ 63 * 1 := by decide
  simp only [insertSeq, Bool.false_eq_true, if_false, UInt64.toNat_or, hshift]
  rw [← Nat.two_pow_add_eq_or_of_lt h 1, Nat.mul_one]

theorem isInactive_iff {age tick : UInt64} {info : TrackTickInfo} {v : PropertyValue} :
    isInactive age tick info = true ↔ (info.rank v).Expired age.toNat tick.toNat := by
  simp only [isInactive, Bool.and_eq_true, decide_eq_true_eq, ge_iff_le, gt_iff_lt, Rank.Expired,
    TrackTickInfo.rank, UInt64.le_iff_toNat_le, UInt64.lt_iff_toNat_lt]
  constructor <;> rintro ⟨h, h'⟩ <;>
    rw [UInt64.toNat_sub_of_le _ _ (UInt64.le_iff_toNat_le.mpr h)] at * <;>
    exact ⟨h, h'⟩

/-- The rank of the updated track in the buckets is the one the plain map gives it. -/
theorem rank_updated {r : TrackRanking} {m : PlainRanking} (hwf : WellFormed r.orderedTracks)
    (hrep : Represents r.orderedTracks m.ranks) (c : UpdateValue)
    (hcount : (r.updateValueSeqNum + 1).toNat = m.updates + 1) (hlt : m.updates + 1 < 2 ^ 63) :
    TrackTickInfo.rank { ((c.trackIn r.orderedTracks c.value).getD
        ⟨insertSeq (valueDecreased c r.orderedTracks) (r.updateValueSeqNum + 1), c.tick⟩) with
          latestTick := c.tick } c.value =
      Rank.updated (m.updates + 1) c (m.ranks c.prop c.trackAlias) := by
  have hseq : (r.updateValueSeqNum + 1).toNat < 2 ^ 63 := by omega
  cases hin : m.ranks c.prop c.trackAlias with
  | none =>
    have hout : ∀ v, c.trackIn r.orderedTracks v = none := by
      intro v
      by_contra hne
      obtain ⟨info, hinfo⟩ := Option.ne_none_iff_exists'.mp hne
      have := (hrep c.prop c.trackAlias _).mpr ⟨v, info, hinfo, rfl⟩
      rw [hin] at this
      cases this
    have hdec : valueDecreased c r.orderedTracks = false := by
      rw [← Bool.not_eq_true, valueDecreased_iff]
      rintro ⟨v, info, hv, -⟩
      rw [hout v] at hv
      cases hv
    simp only [hout, Option.getD_none, hdec, TrackTickInfo.rank, toNat_insertSeq_false hseq,
      hcount, Rank.updated]
  | some old =>
    obtain ⟨v, info, hinfo, rfl⟩ := (hrep _ _ _).mp hin
    have huniq : ∀ v' info', c.trackIn r.orderedTracks v' = some info' → v' = v :=
      fun v' info' h' => hwf.unique _ _ _ _ _ _ h' hinfo
    by_cases hv : v = c.value
    · subst hv
      have hinfo' : c.trackIn r.orderedTracks c.value = some info := hinfo
      simp [hinfo', TrackTickInfo.rank, Rank.updated]
    · have hnone : c.trackIn r.orderedTracks c.value = none := by
        by_contra hne
        obtain ⟨info', hinfo'⟩ := Option.ne_none_iff_exists'.mp hne
        exact hv (huniq _ _ hinfo').symm
      have hne : (info.rank v).value ≠ c.value.toNat := fun h => hv (UInt64.toNat_inj.mp h)
      have hdec : valueDecreased c r.orderedTracks = true ↔ c.value.toNat < (info.rank v).value := by
        rw [valueDecreased_iff]
        constructor
        · rintro ⟨v', info', hv', hlt'⟩
          rw [huniq _ _ hv'] at hlt'
          exact UInt64.lt_iff_toNat_lt.mp hlt'
        · exact fun h => ⟨v, info, hinfo, UInt64.lt_iff_toNat_lt.mpr h⟩
      rw [Rank.updated, if_neg hne, hnone, Option.getD_none]
      by_cases hlt' : c.value.toNat < (info.rank v).value
      · rw [if_pos hlt', hdec.mpr hlt', ← hcount, ← toNat_insertSeq_true hseq]
        rfl
      · rw [if_neg hlt', Bool.eq_false_iff.mpr (mt hdec.mp hlt'), ← hcount,
          ← toNat_insertSeq_false hseq]
        rfl

theorem Represents.placed {r : TrackRanking} {m : PlainRanking} (hwf : WellFormed r.orderedTracks)
    (hrep : Represents r.orderedTracks m.ranks) (c : UpdateValue)
    (hcount : (r.updateValueSeqNum + 1).toNat = m.updates + 1) (hlt : m.updates + 1 < 2 ^ 63) :
    Represents (r.placed c) (m.assigned c) := by
  intro p ta rank
  have hrank := rank_updated hwf hrep c hcount hlt
  simp only [PlainRanking.assigned, trackAt_placed]
  by_cases hta : p = c.prop ∧ ta = c.trackAlias
  · simp only [if_pos hta, Option.some.injEq]
    constructor
    · rintro rfl
      exact ⟨c.value, _, if_pos rfl, hrank⟩
    · rintro ⟨v, info, hinfo, rfl⟩
      split at hinfo
      · rename_i hv
        cases hinfo
        rw [hv, hrank]
      · cases hinfo
  · simp only [if_neg hta]
    exact hrep p ta rank

theorem Represents.removeInactive {tracks : OrderedTracks}
    {ranks : PropertyType → TrackAlias → Option Rank} (hrep : Represents tracks ranks)
    (age tick : UInt64) : Represents (removeInactive age tick tracks) fun p ta =>
      (ranks p ta).filter fun rank => ¬ rank.Expired age.toNat tick.toNat := by
  intro p ta rank
  simp only [trackAt_removeInactive, Option.filter_eq_some_iff, hrep p ta rank,
    decide_eq_true_eq]
  constructor
  · rintro ⟨⟨v, info, hinfo, rfl⟩, hlive⟩
    exact ⟨v, info, ⟨hinfo, by simpa [← isInactive_iff] using hlive⟩, rfl⟩
  · rintro ⟨v, info, ⟨hinfo, hlive⟩, rfl⟩
    exact ⟨⟨v, info, hinfo, rfl⟩, by simpa [← isInactive_iff] using hlive⟩

/-- The number of calls of `UpdateValue` among the operations. -/
def updateCount (ops : List Op) : ℕ := ops.countP fun | .updateValue _ => true | _ => false

/-- The ranking and the plain map after the same operations. -/
structure Refines (r : TrackRanking) (m : PlainRanking) : Prop where
  wellFormed : WellFormed r.orderedTracks
  represents : Represents r.orderedTracks m.ranks
  updates : r.updateValueSeqNum.toNat = m.updates
  inactiveAge : r.inactiveAgeMs.toNat = m.inactiveAgeMs

theorem Refines.toNat_seqNum_succ {r : TrackRanking} {m : PlainRanking} (h : Refines r m)
    (hlt : m.updates + 1 < 2 ^ 63) : (r.updateValueSeqNum + 1).toNat = m.updates + 1 := by
  rw [UInt64.toNat_add, h.updates]
  exact Nat.mod_eq_of_lt (by simp; omega)

theorem Refines.updateValue {r : TrackRanking} {m : PlainRanking} (h : Refines r m)
    (c : UpdateValue) (hlt : m.updates + 1 < 2 ^ 63) :
    Refines (r.updateValue c) (m.updateValue c) := by
  have hcount := h.toNat_seqNum_succ hlt
  refine ⟨h.wellFormed.updateValue c, ?_, hcount, h.inactiveAge⟩
  have hplaced := h.represents.placed h.wellFormed c hcount hlt
  have := hplaced.removeInactive r.inactiveAgeMs c.tick
  rw [h.inactiveAge] at this
  exact this

theorem refines_run (ops : List Op) (hlt : updateCount ops < 2 ^ 63) :
    Refines (TrackRanking.run ops) (PlainRanking.run ops) ∧
      (PlainRanking.run ops).updates = updateCount ops := by
  induction ops using List.reverseRecOn with
  | nil =>
    refine ⟨⟨wellFormed_empty, ?_, rfl, rfl⟩, rfl⟩
    intro p ta rank
    simp [TrackRanking.run, PlainRanking.run, trackAt_empty]
  | append_singleton ops op ih =>
    rw [TrackRanking.run_concat, PlainRanking.run_concat]
    cases op with
    | updateValue c =>
      have hcount : updateCount (ops ++ [.updateValue c]) = updateCount ops + 1 := by
        simp [updateCount]
      rw [hcount] at hlt ⊢
      obtain ⟨hrun, hupd⟩ := ih (by omega)
      exact ⟨hrun.updateValue c (by omega),
        by simp [PlainRanking.step, PlainRanking.updateValue, hupd]⟩
    | setInactiveAge ageMs =>
      have hcount : updateCount (ops ++ [.setInactiveAge ageMs]) = updateCount ops := by
        simp [updateCount]
      rw [hcount] at hlt ⊢
      obtain ⟨hrun, hupd⟩ := ih hlt
      exact ⟨⟨hrun.wellFormed, hrun.represents, hrun.updates, rfl⟩, hupd⟩

/-- The buckets are well formed after every run, and hold the tracks of the plain map. -/
theorem orderedTracks_refines_plain (ops : List Op) (hlt : updateCount ops < 2 ^ 63) :
    WellFormed (TrackRanking.run ops).orderedTracks ∧
      Represents (TrackRanking.run ops).orderedTracks (PlainRanking.run ops).ranks :=
  have h := (refines_run ops hlt).1
  ⟨h.wellFormed, h.represents⟩

/-- Track 2 decreases, and track 1 expires under the shorter age. -/
theorem orderedTracks_refines_plain_expiry :
    let ops : List Op := [.updateValue ⟨1, 100, 500, 1000, 7⟩, .updateValue ⟨2, 100, 600, 1100, 8⟩,
      .setInactiveAge 50, .updateValue ⟨2, 100, 400, 1090, 8⟩]
    (PlainRanking.run ops).ranks 100 1 = none ∧
      (PlainRanking.run ops).ranks 100 2 = some ⟨400, 2 ^ 63 - 1 - 3, 1090⟩ ∧
      WellFormed (TrackRanking.run ops).orderedTracks ∧
      Represents (TrackRanking.run ops).orderedTracks (PlainRanking.run ops).ranks :=
  ⟨by decide +kernel, by decide +kernel, orderedTracks_refines_plain _ (by decide)⟩

end Laps.Ranking
