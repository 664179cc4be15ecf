import Laps.Ranking.Isolation

/-! The order of a ranking is strict and stable.  The sequence numbers of all stored tracks are
distinct, so that the alias never decides.  An update moves its own track only: to the end of the
tracks of its value, to their front, or nowhere. -/

namespace Laps.Ranking

open Std

/-- Track `a` is before track `b` in the ranking of the property. -/
def Precedes (tracks : OrderedTracks) (p : PropertyType) (a b : TrackAlias) : Prop :=
  ∃ va ia vb ib, trackAt tracks p va a = some ia ∧ trackAt tracks p vb b = some ib ∧
    (vb < va ∨ va = vb ∧ ia.insertSeqNum < ib.insertSeqNum)

/-- The order of the plain map. -/
def RankPrecedes (f : TrackAlias → Option Rank) (a b : TrackAlias) : Prop :=
  ∃ ra rb, f a = some ra ∧ f b = some rb ∧
    (rb.value < ra.value ∨ ra.value = rb.value ∧ ra.insertSeqNum < rb.insertSeqNum)

theorem rankPrecedes_iff {f : TrackAlias → Option Rank} {a b : TrackAlias} {ra rb : Rank}
    (ha : f a = some ra) (hb : f b = some rb) : RankPrecedes f a b ↔
      rb.value < ra.value ∨ ra.value = rb.value ∧ ra.insertSeqNum < rb.insertSeqNum := by
  constructor
  · rintro ⟨ra', rb', ha', hb', hab⟩
    cases ha.symm.trans ha'
    cases hb.symm.trans hb'
    exact hab
  · exact fun hab => ⟨ra, rb, ha, hb, hab⟩

theorem precedes_iff {tracks : OrderedTracks} {ranks : PropertyType → TrackAlias → Option Rank}
    (hrep : Represents tracks ranks) (p : PropertyType) (a b : TrackAlias) :
    Precedes tracks p a b ↔ RankPrecedes (ranks p) a b := by
  constructor
  · rintro ⟨va, ia, vb, ib, ha, hb, hab⟩
    refine ⟨ia.rank va, ib.rank vb, (hrep p a _).mpr ⟨va, ia, ha, rfl⟩,
      (hrep p b _).mpr ⟨vb, ib, hb, rfl⟩, ?_⟩
    simp only [UInt64.lt_iff_toNat_lt, ← UInt64.toNat_inj] at hab
    exact hab
  · rintro ⟨ra, rb, hra, hrb, hab⟩
    obtain ⟨va, ia, ha, rfl⟩ := (hrep p a ra).mp hra
    obtain ⟨vb, ib, hb, rfl⟩ := (hrep p b rb).mp hrb
    refine ⟨va, ia, vb, ib, ha, hb, ?_⟩
    simp only [UInt64.lt_iff_toNat_lt, ← UInt64.toNat_inj]
    exact hab

/-! ### Sequence numbers -/

/-- Every sequence number is that of one update, and no two tracks share one. -/
structure Numbered (m : PlainRanking) : Prop where
  range : ∀ p ta rank, m.ranks p ta = some rank → ∃ n, 1 ≤ n ∧ n ≤ m.updates ∧
    (rank.insertSeqNum = 2 ^ 63 + n ∨ rank.insertSeqNum = 2 ^ 63 - 1 - n)
  distinct : ∀ p ta rank p' ta' rank', m.ranks p ta = some rank → m.ranks p' ta' = some rank' →
    rank.insertSeqNum = rank'.insertSeqNum → p = p' ∧ ta = ta'

theorem Numbered.seqBound {m : PlainRanking} (h : Numbered m) (p : PropertyType) :
    SeqBound m.updates (m.ranks p) := by
  intro ta rank hrank
  obtain ⟨n, -, hle, hseq | hseq⟩ := h.range p ta rank hrank <;> omega

/-- An update keeps the sequence number of its track or gives it the next one. -/
theorem insertSeqNum_updated (n : ℕ) (c : UpdateValue) (old : Option Rank) :
    (∃ rank, old = some rank ∧ (Rank.updated n c old).insertSeqNum = rank.insertSeqNum) ∨
      (Rank.updated n c old).insertSeqNum = 2 ^ 63 + n ∨
      (Rank.updated n c old).insertSeqNum = 2 ^ 63 - 1 - n := by
  cases old with
  | none => exact .inr (.inl rfl)
  | some old =>
    simp only [Rank.updated]
    split
    · exact .inl ⟨old, rfl, rfl⟩
    · split
      · exact .inr (.inr rfl)
      · exact .inr (.inl rfl)

theorem Numbered.place {m : PlainRanking} (h : Numbered m) (c : UpdateValue)
    (hlt : m.updates + 1 < 2 ^ 63) : Numbered (m.place c) := by
  set new := Rank.updated (m.updates + 1) c (m.ranks c.prop c.trackAlias) with hnew
  have hseq := insertSeqNum_updated (m.updates + 1) c (m.ranks c.prop c.trackAlias)
  rw [← hnew] at hseq
  have hranks : ∀ p ta rank, (m.place c).ranks p ta = some rank →
      (p = c.prop ∧ ta = c.trackAlias ∧ rank = new) ∨
        (¬(p = c.prop ∧ ta = c.trackAlias) ∧ m.ranks p ta = some rank) := by
    intro p ta rank hrank
    simp only [PlainRanking.place, PlainRanking.assigned] at hrank
    split at hrank
    · rename_i hown
      exact .inl ⟨hown.1, hown.2, (Option.some.inj hrank).symm⟩
    · rename_i hother
      exact .inr ⟨hother, hrank⟩
  -- the new number is that of no other track: it is kept, or outside the numbers given before
  have hfresh : ∀ p ta rank, ¬(p = c.prop ∧ ta = c.trackAlias) → m.ranks p ta = some rank →
      rank.insertSeqNum ≠ new.insertSeqNum := by
    intro p ta rank hother hrank heq
    have hbound := h.seqBound p ta rank hrank
    rcases hseq with ⟨old, hold, hkept⟩ | hlast | hfirst
    · exact hother (h.distinct p ta rank _ _ old hrank hold (heq.trans hkept))
    · omega
    · omega
  refine ⟨fun p ta rank hrank => ?_, fun p ta rank p' ta' rank' hrank hrank' heq => ?_⟩
  · show ∃ n, 1 ≤ n ∧ n ≤ m.updates + 1 ∧ _
    rcases hranks p ta rank hrank with ⟨-, -, rfl⟩ | ⟨-, hold⟩
    · rcases hseq with ⟨old, hold, hkept⟩ | hlast | hfirst
      · obtain ⟨n, hpos, hle, hn⟩ := h.range _ _ old hold
        exact ⟨n, hpos, by omega, by rw [hkept]; exact hn⟩
      · exact ⟨m.updates + 1, by omega, Nat.le_refl _, .inl hlast⟩
      · exact ⟨m.updates + 1, by omega, Nat.le_refl _, .inr hfirst⟩
    · obtain ⟨n, hpos, hle, hn⟩ := h.range p ta rank hold
      exact ⟨n, hpos, by omega, hn⟩
  · rcases hranks p ta rank hrank with ⟨rfl, rfl, rfl⟩ | ⟨hother, hold⟩ <;>
      rcases hranks p' ta' rank' hrank' with ⟨rfl, rfl, rfl⟩ | ⟨hother', hold'⟩
    · exact ⟨rfl, rfl⟩
    · exact absurd heq.symm (hfresh p' ta' rank' hother' hold')
    · exact absurd heq (hfresh p ta rank hother hold)
    · exact h.distinct p ta rank p' ta' rank' hold hold' heq

/-- The tracks that are left after an update were there after its placement. -/
theorem ranks_place_of_updateValue {m : PlainRanking} {c : UpdateValue} {p : PropertyType}
    {ta : TrackAlias} {rank : Rank} (h : (m.updateValue c).ranks p ta = some rank) :
    (m.place c).ranks p ta = some rank :=
  (Option.filter_eq_some_iff.mp h).1

theorem Numbered.updateValue {m : PlainRanking} (h : Numbered m) (c : UpdateValue)
    (hlt : m.updates + 1 < 2 ^ 63) : Numbered (m.updateValue c) := by
  have hplaced := h.place c hlt
  exact ⟨fun p ta rank hrank => hplaced.range p ta rank (ranks_place_of_updateValue hrank),
    fun p ta rank p' ta' rank' hrank hrank' => hplaced.distinct p ta rank p' ta' rank'
      (ranks_place_of_updateValue hrank) (ranks_place_of_updateValue hrank')⟩

theorem updateCount_updateValue (ops : List Op) (c : UpdateValue) :
    updateCount (ops ++ [.updateValue c]) = updateCount ops + 1 := by
  simp [updateCount]

theorem numbered_run (ops : List Op) (hlt : updateCount ops < 2 ^ 63) :
    Numbered (PlainRanking.run ops) := by
  induction ops using List.reverseRecOn with
  | nil =>
    refine ⟨fun p ta rank h => ?_, fun p ta rank p' ta' rank' h => ?_⟩
    · cases h
    · cases h
  | append_singleton ops op ih =>
    rw [PlainRanking.run_concat]
    cases op with
    | updateValue c =>
      rw [updateCount_updateValue] at hlt
      refine (ih (by omega)).updateValue c ?_
      rw [(refines_run ops (by omega)).2]
      exact hlt
    | setInactiveAge ageMs =>
      have hcount : updateCount (ops ++ [.setInactiveAge ageMs]) = updateCount ops := by
        simp [updateCount]
      exact ⟨(ih (hcount ▸ hlt)).range, (ih (hcount ▸ hlt)).distinct⟩

/-! ### The order after a run -/

/-- The ranking of every property is ordered by value and sequence number alone. -/
structure StrictlyOrdered (ops : List Op) : Prop where
  range : ∀ p v ta info, trackAt (TrackRanking.run ops).orderedTracks p v ta = some info →
    ∃ n, 1 ≤ n ∧ n ≤ updateCount ops ∧
      (info.insertSeqNum.toNat = 2 ^ 63 + n ∨ info.insertSeqNum.toNat = 2 ^ 63 - 1 - n)
  distinct : ∀ p v ta info p' v' ta' info',
    trackAt (TrackRanking.run ops).orderedTracks p v ta = some info →
    trackAt (TrackRanking.run ops).orderedTracks p' v' ta' = some info' →
    info.insertSeqNum = info'.insertSeqNum → p = p' ∧ v = v' ∧ ta = ta'
  ranked : ∀ p connections,
    (rebuildFlatList (TrackRanking.run ops).orderedTracks connections p).Pairwise fun a b =>
      Precedes (TrackRanking.run ops).orderedTracks p a.trackAlias b.trackAlias

theorem strictlyOrdered_run (ops : List Op) (hlt : updateCount ops < 2 ^ 63) :
    StrictlyOrdered ops := by
  obtain ⟨href, hupd⟩ := refines_run ops hlt
  have hnum := numbered_run ops hlt
  have hrank : ∀ p v ta info, trackAt (TrackRanking.run ops).orderedTracks p v ta = some info →
      (PlainRanking.run ops).ranks p ta = some (info.rank v) :=
    fun p v ta info hinfo => (href.represents p ta _).mpr ⟨v, info, hinfo, rfl⟩
  have hdistinct : ∀ p v ta info p' v' ta' info',
      trackAt (TrackRanking.run ops).orderedTracks p v ta = some info →
      trackAt (TrackRanking.run ops).orderedTracks p' v' ta' = some info' →
      info.insertSeqNum = info'.insertSeqNum → p = p' ∧ v = v' ∧ ta = ta' := by
    intro p v ta info p' v' ta' info' hinfo hinfo' heq
    obtain ⟨rfl, rfl⟩ := hnum.distinct p ta _ p' ta' _ (hrank p v ta info hinfo)
      (hrank p' v' ta' info' hinfo') (congrArg UInt64.toNat heq)
    exact ⟨rfl, href.wellFormed.unique p ta v v' info info' hinfo hinfo', rfl⟩
  refine ⟨fun p v ta info hinfo => ?_, hdistinct, fun p connections => ?_⟩
  · obtain ⟨n, hpos, hle, hn⟩ := hnum.range p ta _ (hrank p v ta info hinfo)
    exact ⟨n, hpos, hupd ▸ hle, hn⟩
  · have hrow : ∀ row ∈ rebuildFlatList (TrackRanking.run ops).orderedTracks connections p,
        ∃ v, trackAt (TrackRanking.run ops).orderedTracks p v row.trackAlias =
          some ⟨row.insertSeqNum, row.latestTick⟩ :=
      fun row hmem => (mem_rebuildFlatList.mp hmem).1
    have hsorted := pairwise_rebuildFlatList (TrackRanking.run ops).orderedTracks connections p
    have hnodup := List.pairwise_map.mp
      (nodup_of_pairwise_rankedBefore href.wellFormed hsorted hrow)
    refine (hsorted.and hnodup).imp_of_mem ?_
    rintro a b ha hb ⟨⟨va, vb, hva, hvb, hab⟩, halias⟩
    obtain ⟨va', ha'⟩ := hrow a ha
    obtain ⟨vb', hb'⟩ := hrow b hb
    obtain ⟨ia, hia⟩ := Option.isSome_iff_exists.mp hva
    obtain ⟨ib, hib⟩ := Option.isSome_iff_exists.mp hvb
    obtain rfl := href.wellFormed.unique _ _ _ _ _ _ ha' hia
    obtain rfl := href.wellFormed.unique _ _ _ _ _ _ hb' hib
    refine ⟨va', _, vb', _, ha', hb', ?_⟩
    rcases hab with hless | ⟨rfl, hless | ⟨heq, -⟩⟩
    · exact .inl hless
    · exact .inr ⟨rfl, hless⟩
    · exact absurd (hdistinct _ _ _ _ _ _ _ _ ha' hb' heq).2.2 halias

/-! ### The order after an update -/

/-- The track is stored under the property with some value. -/
def Ranked (tracks : OrderedTracks) (p : PropertyType) (ta : TrackAlias) : Prop :=
  ∃ v, (trackAt tracks p v ta).isSome

/-- What an update does to the rankings: others keep their order, and its track gets its place
among the tracks of the same value. -/
structure KeepsOrder (r : TrackRanking) (c : UpdateValue) : Prop where
  others : ∀ p a b, ¬(p = c.prop ∧ (a = c.trackAlias ∨ b = c.trackAlias)) →
    Ranked (r.updateValue c).orderedTracks p a → Ranked (r.updateValue c).orderedTracks p b →
    (Precedes (r.updateValue c).orderedTracks p a b ↔ Precedes r.orderedTracks p a b)
  placed : (c.trackIn (r.updateValue c).orderedTracks c.value).isSome
  last : (∀ v, (c.trackIn r.orderedTracks v).isSome → v < c.value) → ∀ b, b ≠ c.trackAlias →
    (trackAt (r.updateValue c).orderedTracks c.prop c.value b).isSome →
    Precedes (r.updateValue c).orderedTracks c.prop b c.trackAlias
  first : (∃ v, (c.trackIn r.orderedTracks v).isSome ∧ c.value < v) → ∀ b, b ≠ c.trackAlias →
    (trackAt (r.updateValue c).orderedTracks c.prop c.value b).isSome →
    Precedes (r.updateValue c).orderedTracks c.prop c.trackAlias b
  kept : (c.trackIn r.orderedTracks c.value).isSome → ∀ b, b ≠ c.trackAlias →
    (trackAt (r.updateValue c).orderedTracks c.prop c.value b).isSome →
    (Precedes (r.updateValue c).orderedTracks c.prop b c.trackAlias ↔
      Precedes r.orderedTracks c.prop b c.trackAlias) ∧
    (Precedes (r.updateValue c).orderedTracks c.prop c.trackAlias b ↔
      Precedes r.orderedTracks c.prop c.trackAlias b)

theorem latestTick_updated (n : ℕ) (c : UpdateValue) (old : Option Rank) :
    (Rank.updated n c old).latestTick = c.tick.toNat := by
  cases old with
  | none => rfl
  | some old =>
    simp only [Rank.updated]
    split
    · rfl
    · split <;> rfl

section Step

variable {r : TrackRanking} {m : PlainRanking} {c : UpdateValue}

/-- The track of an update is never dropped by it. -/
theorem ranks_updateValue_own (m : PlainRanking) (c : UpdateValue) :
    (m.updateValue c).ranks c.prop c.trackAlias =
      some (Rank.updated (m.updates + 1) c (m.ranks c.prop c.trackAlias)) := by
  have htick := latestTick_updated (m.updates + 1) c (m.ranks c.prop c.trackAlias)
  simp only [PlainRanking.updateValue, PlainRanking.assigned, and_self, if_true]
  rw [Option.filter_some, if_pos]
  simp [Rank.Expired, htick]

theorem ranks_updateValue_other {p : PropertyType} {ta : TrackAlias} {rank : Rank}
    (hother : ¬(p = c.prop ∧ ta = c.trackAlias))
    (h : (m.updateValue c).ranks p ta = some rank) : m.ranks p ta = some rank := by
  have hplaced : m.assigned c p ta = some rank := ranks_place_of_updateValue h
  rwa [PlainRanking.assigned, if_neg hother] at hplaced

theorem Represents.ranked {tracks : OrderedTracks}
    {ranks : PropertyType → TrackAlias → Option Rank} (hrep : Represents tracks ranks)
    {p : PropertyType} {v : PropertyValue} {ta : TrackAlias}
    (h : (trackAt tracks p v ta).isSome = true) :
    ∃ rank, ranks p ta = some rank ∧ rank.value = v.toNat := by
  obtain ⟨info, hinfo⟩ := Option.isSome_iff_exists.mp h
  exact ⟨_, (hrep p ta _).mpr ⟨v, info, hinfo, rfl⟩, rfl⟩

theorem Represents.trackAt_of_value {tracks : OrderedTracks}
    {ranks : PropertyType → TrackAlias → Option Rank} (hrep : Represents tracks ranks)
    {p : PropertyType} {v : PropertyValue} {ta : TrackAlias} {rank : Rank}
    (h : ranks p ta = some rank) (hv : rank.value = v.toNat) :
    (trackAt tracks p v ta).isSome = true := by
  obtain ⟨v', info, hinfo, rfl⟩ := (hrep p ta rank).mp h
  obtain rfl : v' = v := UInt64.toNat_inj.mp hv
  rw [hinfo]
  rfl

theorem rankPrecedes_updateValue_other {p : PropertyType} {a b : TrackAlias}
    (hother : ¬(p = c.prop ∧ (a = c.trackAlias ∨ b = c.trackAlias)))
    (ha : ((m.updateValue c).ranks p a).isSome) (hb : ((m.updateValue c).ranks p b).isSome) :
    RankPrecedes ((m.updateValue c).ranks p) a b ↔ RankPrecedes (m.ranks p) a b := by
  obtain ⟨ra, hra⟩ := Option.isSome_iff_exists.mp ha
  obtain ⟨rb, hrb⟩ := Option.isSome_iff_exists.mp hb
  have hra' := ranks_updateValue_other (fun h => hother ⟨h.1, .inl h.2⟩) hra
  have hrb' := ranks_updateValue_other (fun h => hother ⟨h.1, .inr h.2⟩) hrb
  rw [rankPrecedes_iff hra hrb, rankPrecedes_iff hra' hrb']

/-- The place that the update gives its track, for the tracks that are left. -/
theorem holds_updateValue (hnum : Numbered m) (hlt : m.updates + 1 < 2 ^ 63) :
    (c.place ((m.ranks c.prop c.trackAlias).map Rank.value)).Holds (m.ranks c.prop) c
      (Rank.updated (m.updates + 1) c (m.ranks c.prop c.trackAlias)).insertSeqNum :=
  place_holds_updated (hnum.seqBound c.prop) hlt

theorem place_eq_last (hrep : Represents r.orderedTracks m.ranks)
    (h : ∀ v, (c.trackIn r.orderedTracks v).isSome → v < c.value) :
    c.place ((m.ranks c.prop c.trackAlias).map Rank.value) = .last := by
  cases hold : m.ranks c.prop c.trackAlias with
  | none => rfl
  | some old =>
    obtain ⟨v, info, hinfo, rfl⟩ := (hrep _ _ _).mp hold
    have hless := h v (by rw [UpdateValue.trackIn, hinfo]; rfl)
    rw [UInt64.lt_iff_toNat_lt] at hless
    simp only [Option.map_some, UpdateValue.place, TrackTickInfo.rank]
    rw [if_neg (by omega), if_neg (by omega)]

theorem place_eq_first (hrep : Represents r.orderedTracks m.ranks) {v : PropertyValue}
    (hin : (c.trackIn r.orderedTracks v).isSome) (hless : c.value < v) :
    c.place ((m.ranks c.prop c.trackAlias).map Rank.value) = .first := by
  obtain ⟨rank, hrank, hv⟩ := hrep.ranked hin
  rw [UInt64.lt_iff_toNat_lt] at hless
  simp only [hrank, Option.map_some, UpdateValue.place]
  rw [if_neg (by omega), if_pos (by omega)]

theorem rank_updated_kept (hrep : Represents r.orderedTracks m.ranks)
    (hin : (c.trackIn r.orderedTracks c.value).isSome) :
    ∃ old, m.ranks c.prop c.trackAlias = some old ∧ (m.updateValue c).ranks c.prop c.trackAlias =
      some { old with latestTick := c.tick.toNat } := by
  obtain ⟨old, hold, hv⟩ := hrep.ranked hin
  refine ⟨old, hold, ?_⟩
  rw [ranks_updateValue_own, hold, Rank.updated, if_pos hv]

theorem keepsOrder_updateValue (href : Refines r m) (hnum : Numbered m)
    (hlt : m.updates + 1 < 2 ^ 63) : KeepsOrder r c := by
  have hrep := href.represents
  have hrep' := (href.updateValue c hlt).represents
  have hown := ranks_updateValue_own m c
  have hvalue := value_updated (m.updates + 1) c (m.ranks c.prop c.trackAlias)
  have hholds := holds_updateValue (c := c) hnum hlt
  -- another track of the same value has the rank it had
  have hother : ∀ b, b ≠ c.trackAlias →
      (trackAt (r.updateValue c).orderedTracks c.prop c.value b).isSome = true →
      ∃ rank, (m.updateValue c).ranks c.prop b = some rank ∧ m.ranks c.prop b = some rank ∧
        rank.value = c.value.toNat := by
    intro b hb hin
    obtain ⟨rank, hrank, hv⟩ := hrep'.ranked hin
    exact ⟨rank, hrank, ranks_updateValue_other (fun h => hb h.2) hrank, hv⟩
  constructor
  · rintro p a b hne ⟨va, ha⟩ ⟨vb, hb⟩
    obtain ⟨ra, hra, -⟩ := hrep'.ranked ha
    obtain ⟨rb, hrb, -⟩ := hrep'.ranked hb
    rw [precedes_iff hrep', precedes_iff hrep]
    exact rankPrecedes_updateValue_other hne (by rw [hra]; rfl) (by rw [hrb]; rfl)
  · exact hrep'.trackAt_of_value hown hvalue
  · intro hrose b hb hin
    obtain ⟨rank, hrank, hbefore, hv⟩ := hother b hb hin
    rw [place_eq_last hrep hrose] at hholds
    exact (precedes_iff hrep' _ _ _).mpr
      ⟨rank, _, hrank, hown, .inr ⟨hv.trans hvalue.symm, hholds b rank hbefore⟩⟩
  · rintro ⟨v, hwas, hfell⟩ b hb hin
    obtain ⟨rank, hrank, hbefore, hv⟩ := hother b hb hin
    rw [place_eq_first hrep hwas hfell] at hholds
    exact (precedes_iff hrep' _ _ _).mpr
      ⟨_, rank, hown, hrank, .inr ⟨hvalue.trans hv.symm, hholds b rank hbefore⟩⟩
  · intro hwas b hb hin
    obtain ⟨rank, hrank, hbefore, -⟩ := hother b hb hin
    obtain ⟨old, hold, hnew⟩ := rank_updated_kept hrep hwas
    simp only [precedes_iff hrep', precedes_iff hrep, rankPrecedes_iff hrank hnew,
      rankPrecedes_iff hnew hrank, rankPrecedes_iff hbefore hold, rankPrecedes_iff hold hbefore,
      and_self]

end Step

/-- In every run of fewer than `2 ^ 63` updates the order is strict, and every update keeps it but
for its own track. -/
theorem ranking_strict_stable (ops : List Op) (hlt : updateCount ops < 2 ^ 63) :
    StrictlyOrdered ops ∧ EveryCall (fun before c => StrictlyOrdered before ∧
      KeepsOrder (TrackRanking.run before) c) ops := by
  refine ⟨strictlyOrdered_run ops hlt, ?_⟩
  rintro before c after rfl
  have hcount : updateCount before + 1 ≤ updateCount (before ++ .updateValue c :: after) := by
    rw [updateCount, updateCount, List.countP_append, List.countP_cons_of_pos rfl]
    omega
  obtain ⟨href, hupd⟩ := refines_run before (by omega)
  exact ⟨strictlyOrdered_run before (by omega),
    keepsOrder_updateValue href (numbered_run before (by omega)) (by omega)⟩

/-- Track 2 rises to the value of track 1, and track 3 falls to it. -/
theorem ranking_strict_stable_threeTracks :
    let ops : List Op := [.updateValue ⟨1, 100, 500, 1000, 7⟩, .updateValue ⟨2, 100, 400, 1001, 8⟩,
      .updateValue ⟨3, 100, 600, 1002, 9⟩, .updateValue ⟨2, 100, 500, 1003, 8⟩,
      .updateValue ⟨3, 100, 500, 1004, 9⟩]
    (TrackRanking.run ops).flatTrackList.map FlatTrack.trackAlias = [3, 1, 2] ∧
      StrictlyOrdered ops ∧ EveryCall (fun before c => StrictlyOrdered before ∧
        KeepsOrder (TrackRanking.run before) c) ops :=
  ⟨by decide +kernel, ranking_strict_stable _ (by decide)⟩

end Laps.Ranking
