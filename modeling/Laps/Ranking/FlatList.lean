import Laps.Ranking.Store
import Mathlib.Data.UInt

/-! The list that `UpdateValue` hands to the namespace handlers.  A rebuilt list holds every track
of its property once, in rank order.  The list that is updated in place is the rebuilt one as long
as the call changes only the tick and connection of a track of the list. -/

namespace Laps.Ranking

open Std

/-! ### Ranked lists -/

/-- The row of a track of property `p` in the bucket of value `v`. -/
def IsRow (tracks : OrderedTracks) (connOf : TrackAlias → Option UInt64) (p : PropertyType)
    (v : PropertyValue) (row : FlatTrack) : Prop :=
  trackAt tracks p v row.trackAlias = some ⟨row.insertSeqNum, row.latestTick⟩ ∧
    connOf row.trackAlias = some row.connId

/-- Greater value first, then smaller sequence number, then greater alias. -/
def RankedBefore (tracks : OrderedTracks) (p : PropertyType) (a b : FlatTrack) : Prop :=
  ∃ va vb, (trackAt tracks p va a.trackAlias).isSome ∧ (trackAt tracks p vb b.trackAlias).isSome ∧
    (vb < va ∨ va = vb ∧ (a.insertSeqNum < b.insertSeqNum ∨
      a.insertSeqNum = b.insertSeqNum ∧ b.trackAlias < a.trackAlias))

/-- The list of property `p`: every track of `p` once, in rank order. -/
structure IsRankedList (tracks : OrderedTracks) (connOf : TrackAlias → Option UInt64)
    (p : PropertyType) (rows : List FlatTrack) : Prop where
  mem_iff : ∀ row, row ∈ rows ↔ ∃ v, IsRow tracks connOf p v row
  nodup : (rows.map FlatTrack.trackAlias).Nodup
  sorted : rows.Pairwise (RankedBefore tracks p)

theorem FlatTrack.before_iff {a b : FlatTrack} : a.before b = true ↔
    a.insertSeqNum < b.insertSeqNum ∨
      a.insertSeqNum = b.insertSeqNum ∧ b.trackAlias < a.trackAlias := by
  unfold FlatTrack.before
  split
  · rename_i h
    simp [h]
  · rename_i h
    rw [ne_eq, not_not] at h
    simp [h, UInt64.lt_irrefl]

theorem RankedBefore.antisymm {tracks : OrderedTracks} (hwf : WellFormed tracks) {p : PropertyType}
    {a b : FlatTrack} (hab : RankedBefore tracks p a b) (hba : RankedBefore tracks p b a) :
    a = b := by
  obtain ⟨va, vb, hva, hvb, hab⟩ := hab
  obtain ⟨vb', va', hvb', hva', hba⟩ := hba
  obtain ⟨_, hva⟩ := Option.isSome_iff_exists.mp hva
  obtain ⟨_, hvb⟩ := Option.isSome_iff_exists.mp hvb
  obtain ⟨_, hva'⟩ := Option.isSome_iff_exists.mp hva'
  obtain ⟨_, hvb'⟩ := Option.isSome_iff_exists.mp hvb'
  obtain rfl := hwf.unique _ _ _ _ _ _ hva hva'
  obtain rfl := hwf.unique _ _ _ _ _ _ hvb hvb'
  simp only [UInt64.lt_iff_toNat_lt, ← UInt64.toNat_inj] at hab hba
  omega

/-- A property has one ranked list. -/
theorem IsRankedList.unique {tracks : OrderedTracks} (hwf : WellFormed tracks)
    {connOf : TrackAlias → Option UInt64} {p : PropertyType} {rows rows' : List FlatTrack}
    (h : IsRankedList tracks connOf p rows) (h' : IsRankedList tracks connOf p rows') :
    rows = rows' := by
  have hperm : rows.Perm rows' := by
    rw [List.perm_ext_iff_of_nodup h.nodup.of_map h'.nodup.of_map]
    intro row
    rw [h.mem_iff, h'.mem_iff]
  exact hperm.eq_of_pairwise (fun a b _ _ => RankedBefore.antisymm hwf) h.sorted h'.sorted

/-! ### The rebuilt list -/

instance : Std.Total fun a b : FlatTrack => (!b.before a) = true where
  total a b := by
    simp only [Bool.not_eq_eq_eq_not, Bool.not_true, ← Bool.not_eq_true, FlatTrack.before_iff,
      UInt64.lt_iff_toNat_lt, ← UInt64.toNat_inj]
    omega

instance : IsTrans FlatTrack fun a b : FlatTrack => (!b.before a) = true where
  trans a b c := by
    simp only [Bool.not_eq_eq_eq_not, Bool.not_true, ← Bool.not_eq_true, FlatTrack.before_iff,
      UInt64.lt_iff_toNat_lt, ← UInt64.toNat_inj]
    omega

theorem mem_bucketRows {connections : ExtTreeMap TrackAlias UInt64} {entry : TrackEntry}
    {row : FlatTrack} : row ∈ bucketRows connections entry ↔
      entry[row.trackAlias]? = some ⟨row.insertSeqNum, row.latestTick⟩ ∧
        connections.getD row.trackAlias 0 = row.connId := by
  obtain ⟨ta, seq, tick, conn⟩ := row
  simp only [bucketRows, List.mem_insertionSort, List.mem_map, Prod.exists,
    ExtTreeMap.mem_toList_iff_getElem?_eq_some, FlatTrack.mk.injEq]
  constructor
  · rintro ⟨_, info, hinfo, rfl, rfl, rfl, rfl⟩
    exact ⟨hinfo, rfl⟩
  · rintro ⟨hinfo, rfl⟩
    exact ⟨ta, _, hinfo, rfl, rfl, rfl, rfl⟩

theorem nodup_bucketRows (connections : ExtTreeMap TrackAlias UInt64) (entry : TrackEntry) :
    ((bucketRows connections entry).map FlatTrack.trackAlias).Nodup := by
  have hperm := (List.perm_insertionSort (fun a b : FlatTrack => (!b.before a) = true)
    (entry.toList.map fun track => (⟨track.1, track.2.insertSeqNum, track.2.latestTick,
      connections.getD track.1 0⟩ : FlatTrack))).map FlatTrack.trackAlias
  refine hperm.nodup_iff.mpr ?_
  rw [List.map_map]
  exact List.pairwise_map.mpr (ExtTreeMap.pairwise_toList_ne (m := entry))

theorem pairwise_bucketRows (connections : ExtTreeMap TrackAlias UInt64) (entry : TrackEntry) :
    (bucketRows connections entry).Pairwise fun a b => a.before b = true := by
  have hsorted : (bucketRows connections entry).Pairwise fun a b => (!b.before a) = true :=
    List.pairwise_insertionSort _ _
  have hne := List.pairwise_map.mp (nodup_bucketRows connections entry)
  refine (hsorted.and hne).imp ?_
  rintro a b ⟨hle, halias⟩
  simp only [Bool.not_eq_eq_eq_not, Bool.not_true, ← Bool.not_eq_true, FlatTrack.before_iff,
    UInt64.lt_iff_toNat_lt, ← UInt64.toNat_inj, ne_eq] at hle halias ⊢
  omega

theorem mem_rebuildFlatList {tracks : OrderedTracks} {connections : ExtTreeMap TrackAlias UInt64}
    {p : PropertyType} {row : FlatTrack} : row ∈ rebuildFlatList tracks connections p ↔
      (∃ v, trackAt tracks p v row.trackAlias = some ⟨row.insertSeqNum, row.latestTick⟩) ∧
        connections.getD row.trackAlias 0 = row.connId := by
  simp only [rebuildFlatList, List.mem_flatMap, List.mem_reverse, ExtTreeMap.mem_withFst,
    mem_bucketRows, trackAt_eq_some]
  constructor
  · rintro ⟨⟨⟨p', v⟩, entry⟩, ⟨hentry, rfl⟩, hrow, hconn⟩
    exact ⟨⟨v, entry, hentry, hrow⟩, hconn⟩
  · rintro ⟨⟨v, entry, hentry, hrow⟩, hconn⟩
    exact ⟨((p, v), entry), ⟨hentry, rfl⟩, hrow, hconn⟩

theorem pairwise_rebuildFlatList (tracks : OrderedTracks)
    (connections : ExtTreeMap TrackAlias UInt64) (p : PropertyType) :
    (rebuildFlatList tracks connections p).Pairwise (RankedBefore tracks p) := by
  have hrow : ∀ bucket ∈ tracks.withFst p, ∀ row ∈ bucketRows connections bucket.2,
      (trackAt tracks p bucket.1.2 row.trackAlias).isSome := by
    rintro ⟨⟨p', v⟩, entry⟩ hbucket row hmem
    obtain ⟨hentry, rfl⟩ := ExtTreeMap.mem_withFst.mp hbucket
    rw [trackAt_eq_some.mpr ⟨entry, hentry, (mem_bucketRows.mp hmem).1⟩]
    rfl
  rw [rebuildFlatList, List.pairwise_flatMap]
  constructor
  · intro bucket hbucket
    rw [List.mem_reverse] at hbucket
    refine List.Pairwise.imp_of_mem ?_ (pairwise_bucketRows connections bucket.2)
    intro a b ha hb hab
    exact ⟨bucket.1.2, bucket.1.2, hrow _ hbucket _ ha, hrow _ hbucket _ hb,
      .inr ⟨rfl, FlatTrack.before_iff.mp hab⟩⟩
  · rw [List.pairwise_reverse]
    refine List.Pairwise.imp_of_mem ?_ (ExtTreeMap.pairwise_withFst (m := tracks) (a := p))
    intro low high hlow hhigh hlt a ha b hb
    exact ⟨high.1.2, low.1.2, hrow _ hhigh _ ha, hrow _ hlow _ hb,
      .inl (Std.compare_eq_lt.mp hlt)⟩

theorem nodup_of_pairwise_rankedBefore {tracks : OrderedTracks} (hwf : WellFormed tracks)
    {p : PropertyType} {rows : List FlatTrack} (hsorted : rows.Pairwise (RankedBefore tracks p))
    (hrow : ∀ row ∈ rows, ∃ v, trackAt tracks p v row.trackAlias =
      some ⟨row.insertSeqNum, row.latestTick⟩) :
    (rows.map FlatTrack.trackAlias).Nodup := by
  refine List.pairwise_map.mpr (List.Pairwise.imp_of_mem ?_ hsorted)
  intro a b ha hb hab halias
  obtain ⟨va, ha⟩ := hrow a ha
  obtain ⟨vb, hb⟩ := hrow b hb
  rw [← halias] at hb
  obtain rfl := hwf.unique _ _ _ _ _ _ ha hb
  obtain ⟨hseq, -⟩ : a.insertSeqNum = b.insertSeqNum ∧ _ := by
    simpa using ha.symm.trans hb
  obtain ⟨v, v', hv, hv', hlt⟩ := hab
  obtain ⟨_, hv⟩ := Option.isSome_iff_exists.mp hv
  obtain ⟨_, hv'⟩ := Option.isSome_iff_exists.mp hv'
  rw [← halias] at hv'
  obtain rfl := hwf.unique _ _ _ _ _ _ hv hv'
  simp only [UInt64.lt_iff_toNat_lt, ← UInt64.toNat_inj] at hlt hseq halias
  omega

theorem isRankedList_rebuild {tracks : OrderedTracks} (hwf : WellFormed tracks)
    {connections : ExtTreeMap TrackAlias UInt64} {p : PropertyType}
    (hconn : ∀ v ta info, trackAt tracks p v ta = some info → connections.contains ta = true) :
    IsRankedList tracks (fun ta => connections[ta]?) p (rebuildFlatList tracks connections p) where
  mem_iff row := by
    rw [mem_rebuildFlatList]
    constructor
    · rintro ⟨⟨v, hv⟩, hrow⟩
      obtain ⟨conn, hsome⟩ := ExtTreeMap.contains_iff_getElem?.mp (hconn v _ _ hv)
      rw [ExtTreeMap.getD_eq_getD_getElem?, hsome] at hrow
      exact ⟨v, hv, by simpa [hsome] using hrow⟩
    · rintro ⟨v, hv, hrow⟩
      exact ⟨⟨v, hv⟩, by simp only [ExtTreeMap.getD_eq_getD_getElem?, hrow, Option.getD_some]⟩
  nodup := nodup_of_pairwise_rankedBefore hwf (pairwise_rebuildFlatList _ _ _)
    fun _ hrow => (mem_rebuildFlatList.mp hrow).1
  sorted := pairwise_rebuildFlatList _ _ _

/-! ### The list updated in place -/

/-- The row of the updated track after the update in place. -/
def UpdateValue.patch (c : UpdateValue) (row : FlatTrack) : FlatTrack :=
  if row.trackAlias = c.trackAlias then
    { row with latestTick := c.tick, connId := c.connectionId }
  else row

theorem UpdateValue.patch_trackAlias (c : UpdateValue) (row : FlatTrack) :
    (c.patch row).trackAlias = row.trackAlias := by
  unfold UpdateValue.patch
  split <;> rfl

theorem UpdateValue.patch_insertSeqNum (c : UpdateValue) (row : FlatTrack) :
    (c.patch row).insertSeqNum = row.insertSeqNum := by
  unfold UpdateValue.patch
  split <;> rfl

theorem patchFlatList_eq_map (c : UpdateValue) {rows : List FlatTrack}
    (h : (rows.map FlatTrack.trackAlias).Nodup) : patchFlatList c rows = rows.map c.patch := by
  induction rows with
  | nil => rfl
  | cons row rows ih =>
    simp only [List.map_cons, List.nodup_cons, List.mem_map, not_exists, not_and] at h
    rw [patchFlatList, List.map_cons]
    by_cases halias : row.trackAlias = c.trackAlias
    · have hrest : rows.map c.patch = rows.map id := by
        refine List.map_congr_left fun other hother => ?_
        rw [UpdateValue.patch, if_neg fun heq => h.1 other hother (heq.trans halias.symm), id]
      rw [if_pos (by simpa using halias), hrest, List.map_id, UpdateValue.patch, if_pos halias]
    · rw [if_neg (by simpa using halias), ih h.2, UpdateValue.patch, if_neg halias]

/-- The update in place keeps the list ranked when the call finds its track in the bucket. -/
theorem IsRankedList.patch {tracks tracks' : OrderedTracks} (hwf : WellFormed tracks)
    {connOf connOf' : TrackAlias → Option UInt64} {c : UpdateValue} {rows : List FlatTrack}
    (h : IsRankedList tracks connOf c.prop rows) {info : TrackTickInfo} {conn : UInt64}
    (hin : c.trackIn tracks c.value = some info) (hhad : connOf c.trackAlias = some conn)
    (htracks : ∀ v ta, trackAt tracks' c.prop v ta =
      if v = c.value ∧ ta = c.trackAlias then some { info with latestTick := c.tick }
      else trackAt tracks c.prop v ta)
    (hconn : ∀ ta, connOf' ta = if ta = c.trackAlias then some c.connectionId else connOf ta) :
    IsRankedList tracks' connOf' c.prop (patchFlatList c rows) := by
  have huniq : ∀ v info', trackAt tracks c.prop v c.trackAlias = some info' → v = c.value :=
    fun v info' h' => hwf.unique _ _ _ _ _ _ h' hin
  have hstored : ∀ v ta, (trackAt tracks c.prop v ta).isSome →
      (trackAt tracks' c.prop v ta).isSome := by
    intro v ta hv
    rw [htracks]
    split <;> simp_all
  rw [patchFlatList_eq_map c h.nodup]
  refine ⟨fun row => ?_, ?_, ?_⟩
  · rw [List.mem_map]
    constructor
    · rintro ⟨old, hold, rfl⟩
      obtain ⟨v, hv, hrow⟩ := (h.mem_iff old).mp hold
      refine ⟨v, ?_, ?_⟩
      · rw [htracks, UpdateValue.patch_trackAlias, UpdateValue.patch_insertSeqNum]
        by_cases halias : old.trackAlias = c.trackAlias
        · rw [halias] at hv
          obtain rfl := huniq v _ hv
          have hinfo := Option.some.inj (hin.symm.trans hv)
          simp [UpdateValue.patch, halias, hinfo]
        · simp [UpdateValue.patch, halias, hv]
      · rw [hconn, UpdateValue.patch_trackAlias]
        by_cases halias : old.trackAlias = c.trackAlias
        · simp [UpdateValue.patch, halias]
        · simp [UpdateValue.patch, halias, hrow]
    · rintro ⟨v, hv, hrow⟩
      rw [htracks] at hv
      rw [hconn] at hrow
      by_cases halias : row.trackAlias = c.trackAlias
      · rw [halias] at hv
        have hval : v = c.value := by
          by_contra hne
          rw [if_neg (by simp [hne])] at hv
          exact hne (huniq v _ hv)
        obtain ⟨hseq, htick⟩ : info.insertSeqNum = row.insertSeqNum ∧ c.tick = row.latestTick := by
          simpa [hval] using hv
        have hconn' : c.connectionId = row.connId := by simpa [halias] using hrow
        refine ⟨⟨c.trackAlias, info.insertSeqNum, info.latestTick, conn⟩, ?_, ?_⟩
        · exact (h.mem_iff _).mpr ⟨c.value, hin, hhad⟩
        · rw [UpdateValue.patch, if_pos rfl]
          simp [← halias, hseq, htick, hconn']
      · refine ⟨row, (h.mem_iff _).mpr ⟨v, ?_, ?_⟩, ?_⟩
        · rwa [if_neg (by simp [halias])] at hv
        · rwa [if_neg halias] at hrow
        · rw [UpdateValue.patch, if_neg halias]
  · rw [List.map_map]
    have : FlatTrack.trackAlias ∘ c.patch = FlatTrack.trackAlias :=
      funext c.patch_trackAlias
    rw [this]
    exact h.nodup
  · refine List.pairwise_map.mpr (h.sorted.imp ?_)
    rintro a b ⟨va, vb, hva, hvb, hlt⟩
    refine ⟨va, vb, ?_, ?_, ?_⟩
    · rw [UpdateValue.patch_trackAlias]
      exact hstored _ _ hva
    · rw [UpdateValue.patch_trackAlias]
      exact hstored _ _ hvb
    · simpa only [UpdateValue.patch_trackAlias, UpdateValue.patch_insertSeqNum] using hlt

/-! ### Connections -/

/-- The connection of the last call that names the track. -/
def lastConnection (ops : List Op) (ta : TrackAlias) : Option UInt64 :=
  ops.reverse.findSome? fun
    | .updateValue c => if c.trackAlias = ta then some c.connectionId else none
    | .setInactiveAge _ => none

/-- The property of the last call. -/
def lastProp (ops : List Op) : Option PropertyType :=
  ops.reverse.findSome? fun
    | .updateValue c => some c.prop
    | .setInactiveAge _ => none

theorem lastConnection_updateValue (ops : List Op) (c : UpdateValue) (ta : TrackAlias) :
    lastConnection (ops ++ [.updateValue c]) ta =
      if ta = c.trackAlias then some c.connectionId else lastConnection ops ta := by
  by_cases hta : ta = c.trackAlias
  · simp [lastConnection, hta]
  · simp [lastConnection, hta, Ne.symm hta]

@[simp] theorem lastConnection_setInactiveAge (ops : List Op) (ageMs : UInt64) :
    lastConnection (ops ++ [.setInactiveAge ageMs]) = lastConnection ops := by
  funext ta
  simp [lastConnection]

@[simp] theorem lastProp_updateValue (ops : List Op) (c : UpdateValue) :
    lastProp (ops ++ [.updateValue c]) = some c.prop := by
  simp [lastProp]

@[simp] theorem lastProp_setInactiveAge (ops : List Op) (ageMs : UInt64) :
    lastProp (ops ++ [.setInactiveAge ageMs]) = lastProp ops := by
  simp [lastProp]

theorem getElem?_trackConnections_updateValue (r : TrackRanking) (c : UpdateValue)
    (ta : TrackAlias) : (r.updateValue c).trackConnections[ta]? =
      if ta = c.trackAlias then some c.connectionId else r.trackConnections[ta]? := by
  simp only [TrackRanking.updateValue, ExtTreeMap.getElem?_insert, LawfulEqCmp.compare_eq_iff_eq,
    eq_comm (a := ta)]

theorem trackConnections_run (ops : List Op) (ta : TrackAlias) :
    (TrackRanking.run ops).trackConnections[ta]? = lastConnection ops ta := by
  induction ops using List.reverseRecOn with
  | nil => simp [TrackRanking.run, lastConnection]
  | append_singleton ops op ih =>
    rw [TrackRanking.run_concat]
    cases op with
    | updateValue c =>
      rw [TrackRanking.step, getElem?_trackConnections_updateValue, ih, lastConnection_updateValue]
    | setInactiveAge ageMs =>
      rw [TrackRanking.step, TrackRanking.setInactiveAge, ih, lastConnection_setInactiveAge]

/-- Every stored track has a connection. -/
theorem contains_trackConnections_run (ops : List Op) {p v ta info}
    (h : trackAt (TrackRanking.run ops).orderedTracks p v ta = some info) :
    (TrackRanking.run ops).trackConnections.contains ta = true := by
  induction ops using List.reverseRecOn generalizing info with
  | nil => simp [TrackRanking.run, trackAt_empty] at h
  | append_singleton ops op ih =>
    rw [TrackRanking.run_concat] at h ⊢
    cases op with
    | updateValue c =>
      rw [TrackRanking.step, trackAt_updateValue, Option.filter_eq_some_iff, trackAt_placed] at h
      rw [ExtTreeMap.contains_iff_getElem?, TrackRanking.step,
        getElem?_trackConnections_updateValue]
      by_cases hta : ta = c.trackAlias
      · exact ⟨_, if_pos hta⟩
      · rw [if_neg (by simp [hta])] at h
        rw [if_neg hta]
        exact ExtTreeMap.contains_iff_getElem?.mp (ih h.1)
    | setInactiveAge ageMs => exact ih h

/-! ### When the list is the rebuilt one -/

/-- The track leaves a bucket that it shares with another track. -/
def UpdateValue.LeavesShared (c : UpdateValue) (tracks : OrderedTracks) : Prop :=
  ∃ v ta, v ≠ c.value ∧ ta ≠ c.trackAlias ∧ (c.trackIn tracks v).isSome ∧
    (trackAt tracks c.prop v ta).isSome

/-- Some stored track other than that of the call is inactive at the tick of the call. -/
def UpdateValue.FindsInactive (c : UpdateValue) (r : TrackRanking) : Prop :=
  ∃ p v ta info, ¬ (p = c.prop ∧ ta = c.trackAlias) ∧
    trackAt r.orderedTracks p v ta = some info ∧ isInactive r.inactiveAgeMs c.tick info = true

/-- The call leaves the right list: the bucket of the new value does not exist, the track leaves a
bucket it shares, another track is inactive, or the track is in the bucket already and the list is
that of the same property. -/
def KeepsList (before : List Op) (c : UpdateValue) : Prop :=
  let r := TrackRanking.run before
  r.orderedTracks[(c.prop, c.value)]? = none ∨ c.LeavesShared r.orderedTracks ∨
    c.FindsInactive r ∨
    ((c.trackIn r.orderedTracks c.value).isSome ∧ lastProp before = some c.prop)

/-- Every call of the run satisfies `P`, given the operations before it. -/
def EveryCall (P : List Op → UpdateValue → Prop) (ops : List Op) : Prop :=
  ∀ before c after, ops = before ++ .updateValue c :: after → P before c

theorem EveryCall.of_append {P : List Op → UpdateValue → Prop} {ops r : List Op}
    (h : EveryCall P (ops ++ r)) : EveryCall P ops :=
  fun before c after hops => h before c (after ++ r) (by simp [hops])

theorem everyCall_concat {P : List Op → UpdateValue → Prop} {ops : List Op} {op : Op} :
    EveryCall P (ops ++ [op]) ↔ EveryCall P ops ∧ ∀ c, op = .updateValue c → P ops c := by
  constructor
  · intro h
    refine ⟨h.of_append, ?_⟩
    rintro c rfl
    exact h ops c [] rfl
  · rintro ⟨hops, hop⟩ before c after h
    rcases List.eq_nil_or_concat after with rfl | ⟨after, last, rfl⟩
    · obtain ⟨rfl, hlast⟩ := List.append_inj' h rfl
      exact hop c (by simpa using hlast)
    · rw [List.concat_eq_append, ← List.cons_append, ← List.append_assoc] at h
      exact hops before c after (List.append_inj' h rfl).1

theorem EveryCall.mono {P Q : List Op → UpdateValue → Prop} {ops : List Op} (h : EveryCall P ops)
    (hPQ : ∀ before c, P before c → Q before c) : EveryCall Q ops :=
  fun before c after hops => hPQ before c (h before c after hops)

theorem everyCall_iff_take {P : List Op → UpdateValue → Prop} {ops : List Op} :
    EveryCall P ops ↔ ∀ i : Fin ops.length, ∀ c ∈ (match ops.get i with
      | .updateValue c => some c
      | .setInactiveAge _ => none), P (ops.take i) c := by
  constructor
  · intro h i c hc
    refine h (ops.take i) c (ops.drop (i + 1)) ?_
    have hget : ops.get i = .updateValue c := by
      cases hi : ops.get i with
      | updateValue c' => simp_all
      | setInactiveAge ageMs => simp_all
    rw [← hget, List.get_eq_getElem, List.getElem_cons_drop, List.take_append_drop]
  · rintro h before c after rfl
    have := h ⟨before.length, by simp⟩ c (by simp)
    simpa using this

instance {P : List Op → UpdateValue → Prop} [∀ before c, Decidable (P before c)] (ops : List Op) :
    Decidable (EveryCall P ops) :=
  decidable_of_iff _ everyCall_iff_take.symm

theorem needsRebuild_of_absent {r : TrackRanking} {c : UpdateValue}
    (h : r.orderedTracks[(c.prop, c.value)]? = none) : r.needsRebuild c = true := by
  have : (leaveOldBuckets c r.orderedTracks).contains (c.prop, c.value) = false := by
    rw [ExtTreeMap.contains_eq_false_iff, leaveOldBuckets, ExtTreeMap.getElem?_filterMap', h]
    rfl
  simp [TrackRanking.needsRebuild, this]

theorem needsRebuild_of_leavesShared {r : TrackRanking} {c : UpdateValue}
    (h : c.LeavesShared r.orderedTracks) : r.needsRebuild c = true := by
  obtain ⟨v, ta, hv, hta, hin, hother⟩ := h
  obtain ⟨info, hin⟩ := Option.isSome_iff_exists.mp hin
  obtain ⟨other, hother⟩ := Option.isSome_iff_exists.mp hother
  obtain ⟨entry, hentry, hinfo⟩ := trackAt_eq_some.mp hin
  obtain ⟨entry', hentry', hta'⟩ := trackAt_eq_some.mp hother
  obtain rfl : entry = entry' := Option.some.inj (hentry.symm.trans hentry')
  have hshared : leavesShared c r.orderedTracks = true := by
    rw [leavesShared, ExtTreeMap.anyEntry_iff]
    refine ⟨(c.prop, v), entry, hentry, ?_⟩
    rw [Bool.and_eq_true, isOldBucket_iff, Bool.not_eq_true',
      ExtTreeMap.isEmpty_eq_false_iff_getElem?]
    refine ⟨⟨rfl, hv, info, hinfo⟩, ta, other, ?_⟩
    rw [ExtTreeMap.getElem?_erase, if_neg (by simpa using Ne.symm hta), hta']
  simp [TrackRanking.needsRebuild, hshared]

theorem hasInactive_iff {age tick : UInt64} {tracks : OrderedTracks} :
    hasInactive age tick tracks = true ↔
      ∃ p v ta info, trackAt tracks p v ta = some info ∧ isInactive age tick info = true := by
  simp only [hasInactive, ExtTreeMap.anyEntry_iff, trackAt_eq_some]
  constructor
  · rintro ⟨⟨p, v⟩, entry, hentry, ta, info, hinfo, hold⟩
    exact ⟨p, v, ta, info, ⟨entry, hentry, hinfo⟩, hold⟩
  · rintro ⟨p, v, ta, info, ⟨entry, hentry, hinfo⟩, hold⟩
    exact ⟨(p, v), entry, hentry, ta, info, hinfo, hold⟩

theorem needsRebuild_of_findsInactive {r : TrackRanking} {c : UpdateValue}
    (h : c.FindsInactive r) : r.needsRebuild c = true := by
  obtain ⟨p, v, ta, info, hne, hinfo, hold⟩ := h
  have : hasInactive r.inactiveAgeMs c.tick (r.placed c) = true :=
    hasInactive_iff.mpr ⟨p, v, ta, info, by rw [trackAt_placed, if_neg hne, hinfo], hold⟩
  simp [TrackRanking.needsRebuild, this]

/-- A call that does not rebuild the list and finds its track in the bucket changes only the
track's tick. -/
theorem trackAt_updateValue_inPlace {r : TrackRanking} (hwf : WellFormed r.orderedTracks)
    {c : UpdateValue} (hno : r.needsRebuild c = false) {info : TrackTickInfo}
    (hin : c.trackIn r.orderedTracks c.value = some info) (p v ta) :
    trackAt (r.updateValue c).orderedTracks p v ta =
      if p = c.prop ∧ v = c.value ∧ ta = c.trackAlias then some { info with latestTick := c.tick }
      else trackAt r.orderedTracks p v ta := by
  have hactive : hasInactive r.inactiveAgeMs c.tick (r.placed c) = false := by
    simp only [TrackRanking.needsRebuild, Bool.or_eq_false_iff] at hno
    exact hno.2
  have hplaced : trackAt (r.updateValue c).orderedTracks p v ta = trackAt (r.placed c) p v ta := by
    rw [trackAt_updateValue]
    cases hother : trackAt (r.placed c) p v ta with
    | none => rfl
    | some other =>
      have hlive : isInactive r.inactiveAgeMs c.tick other = false := by
        by_contra hold
        rw [Bool.not_eq_false] at hold
        rw [hasInactive_iff.mpr ⟨p, v, ta, other, hother, hold⟩] at hactive
        cases hactive
      simp [Option.filter_some, hlive]
  rw [hplaced, trackAt_placed, hin, Option.getD_some]
  by_cases hta : p = c.prop ∧ ta = c.trackAlias
  · obtain ⟨rfl, rfl⟩ := hta
    by_cases hv : v = c.value
    · simp [hv]
    · have hout : trackAt r.orderedTracks c.prop v c.trackAlias = none := by
        by_contra hne
        obtain ⟨other, hother⟩ := Option.ne_none_iff_exists'.mp hne
        exact hv (hwf.unique _ _ _ _ _ _ hother hin)
      simp [hv, hout]
  · rw [if_neg hta, if_neg (by tauto)]

/-- The state of a ranking whose list is the rebuilt list of the last call's property. -/
def ListCurrent (ops : List Op) : Prop :=
  ∀ p, lastProp ops = some p → IsRankedList (TrackRanking.run ops).orderedTracks
    (lastConnection ops) p (TrackRanking.run ops).flatTrackList

theorem isRankedList_rebuild_run (ops : List Op) (p : PropertyType) :
    IsRankedList (TrackRanking.run ops).orderedTracks (lastConnection ops) p
      (rebuildFlatList (TrackRanking.run ops).orderedTracks (TrackRanking.run ops).trackConnections
        p) := by
  have h := isRankedList_rebuild (p := p) (wellFormed_run ops)
    (fun v ta info => contains_trackConnections_run ops)
  rwa [funext (trackConnections_run ops)] at h

theorem ListCurrent.updateValue {before : List Op} (h : ListCurrent before) {c : UpdateValue}
    (hkeeps : KeepsList before c) : ListCurrent (before ++ [.updateValue c]) := by
  intro p hp
  obtain rfl : c.prop = p := by simpa using hp
  have hrebuilt := isRankedList_rebuild_run (before ++ [.updateValue c]) c.prop
  rw [TrackRanking.run_concat, TrackRanking.step] at hrebuilt ⊢
  cases hneeds : (TrackRanking.run before).needsRebuild c with
  | true =>
    simpa [TrackRanking.updateValue, hneeds] using hrebuilt
  | false =>
    rcases hkeeps with habsent | hshared | hinactive | ⟨hin, hlast⟩
    · simp [needsRebuild_of_absent habsent] at hneeds
    · simp [needsRebuild_of_leavesShared hshared] at hneeds
    · simp [needsRebuild_of_findsInactive hinactive] at hneeds
    · obtain ⟨info, hin⟩ := Option.isSome_iff_exists.mp hin
      obtain ⟨conn, hconn⟩ := ExtTreeMap.contains_iff_getElem?.mp
        (contains_trackConnections_run before hin)
      rw [trackConnections_run] at hconn
      have hwf := wellFormed_run before
      have htracks : ∀ v ta,
          trackAt ((TrackRanking.run before).updateValue c).orderedTracks c.prop v ta =
            if v = c.value ∧ ta = c.trackAlias then some { info with latestTick := c.tick }
            else trackAt (TrackRanking.run before).orderedTracks c.prop v ta := by
        intro v ta
        simpa using trackAt_updateValue_inPlace hwf hneeds hin c.prop v ta
      have hpatched := (h c.prop hlast).patch hwf hin hconn htracks
        (lastConnection_updateValue before c)
      simpa [TrackRanking.updateValue, hneeds] using hpatched

theorem listCurrent_run (ops : List Op) (h : EveryCall KeepsList ops) : ListCurrent ops := by
  induction ops using List.reverseRecOn with
  | nil => simp [ListCurrent, lastProp]
  | append_singleton ops op ih =>
    obtain ⟨hops, hop⟩ := everyCall_concat.mp h
    cases op with
    | updateValue c => exact (ih hops).updateValue (hop c rfl)
    | setInactiveAge ageMs =>
      intro p hp
      rw [lastProp_setInactiveAge] at hp
      rw [TrackRanking.run_concat, lastConnection_setInactiveAge]
      exact ih hops p hp

/-- After every call of a run whose calls keep the list, the list is the rebuilt one. -/
theorem flatTrackList_eq_rebuild (ops : List Op) (h : EveryCall KeepsList ops) :
    EveryCall (fun before c =>
      let r := (TrackRanking.run before).updateValue c
      r.flatTrackList = rebuildFlatList r.orderedTracks r.trackConnections c.prop ∧
        IsRankedList r.orderedTracks (lastConnection (before ++ [.updateValue c])) c.prop
          r.flatTrackList) ops := by
  intro before c after hops
  have hbefore : EveryCall KeepsList (before ++ [.updateValue c]) :=
    EveryCall.of_append (r := after) (by rwa [← List.append_cons, ← hops])
  have hlist := listCurrent_run _ hbefore c.prop (lastProp_updateValue before c)
  have hrebuilt := isRankedList_rebuild_run (before ++ [.updateValue c]) c.prop
  have hwf := wellFormed_run (before ++ [.updateValue c])
  rw [TrackRanking.run_concat, TrackRanking.step] at hlist hrebuilt hwf
  exact ⟨hlist.unique hwf hrebuilt, hlist⟩

/-- A second call for a track in its bucket. -/
theorem flatTrackList_eq_rebuild_same_value :
    let ops : List Op := [.updateValue ⟨1, 100, 500, 1000, 7⟩, .updateValue ⟨1, 100, 500, 1100, 8⟩]
    (TrackRanking.run ops).flatTrackList = [⟨1, 2 ^ 63 + 1, 1100, 8⟩] ∧
      EveryCall (fun before c =>
        let r := (TrackRanking.run before).updateValue c
        r.flatTrackList = rebuildFlatList r.orderedTracks r.trackConnections c.prop ∧
          IsRankedList r.orderedTracks (lastConnection (before ++ [.updateValue c])) c.prop
            r.flatTrackList) ops := by
  have hcalls : EveryCall (fun before c =>
      (TrackRanking.run before).orderedTracks[(c.prop, c.value)]? = none ∨
        (c.trackIn (TrackRanking.run before).orderedTracks c.value).isSome ∧
          lastProp before = some c.prop)
      [.updateValue ⟨1, 100, 500, 1000, 7⟩, .updateValue ⟨1, 100, 500, 1100, 8⟩] := by
    decide +kernel
  exact ⟨by decide +kernel, flatTrackList_eq_rebuild _
    (hcalls.mono fun before c h => h.imp_right fun h => .inr (.inr h))⟩

/-- A track that enters a bucket with another track in it is missing from the list. -/
theorem flatTrackList_ne_rebuild :
    ¬ ∀ ops : List Op, EveryCall (fun before c =>
      let r := (TrackRanking.run before).updateValue c
      r.flatTrackList = rebuildFlatList r.orderedTracks r.trackConnections c.prop ∧
        IsRankedList r.orderedTracks (lastConnection (before ++ [.updateValue c])) c.prop
          r.flatTrackList) ops := by
  intro h
  have := (h [.updateValue ⟨1, 100, 500, 1000, 1⟩, .updateValue ⟨2, 100, 500, 1100, 2⟩]
    [.updateValue ⟨1, 100, 500, 1000, 1⟩] ⟨2, 100, 500, 1100, 2⟩ [] rfl).1
  revert this
  decide +kernel

end Laps.Ranking
