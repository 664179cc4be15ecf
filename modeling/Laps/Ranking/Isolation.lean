import Laps.Ranking.Handler

/-! A namespace handler and the calls for other properties.  The order of a property's list depends
on the calls for this property only; what the handler selects does not, because it is given the
lists of every property. -/

namespace Laps.Ranking

open Std

/-- The calls for property `p`, in order. -/
def callsFor (p : PropertyType) (ops : List Op) : List UpdateValue :=
  ops.filterMap fun
    | .updateValue c => if c.prop = p then some c else none
    | .setInactiveAge _ => none

/-- No call of the run finds an inactive track. -/
def NoExpiry (ops : List Op) : Prop :=
  EveryCall (fun before c =>
    hasInactive (TrackRanking.run before).inactiveAgeMs c.tick
      ((TrackRanking.run before).placed c) = false) ops

instance (ops : List Op) : Decidable (NoExpiry ops) := inferInstanceAs (Decidable (EveryCall _ ops))

@[simp] theorem callsFor_nil (p : PropertyType) : callsFor p [] = [] := rfl

theorem callsFor_append (p : PropertyType) (ops ops' : List Op) :
    callsFor p (ops ++ ops') = callsFor p ops ++ callsFor p ops' := by
  simp [callsFor]

theorem callsFor_updateValue {p : PropertyType} {c : UpdateValue} (h : c.prop = p) :
    callsFor p [.updateValue c] = [c] := by
  simp [callsFor, h]

theorem callsFor_other {p : PropertyType} {c : UpdateValue} (h : c.prop ≠ p) :
    callsFor p [.updateValue c] = [] := by
  simp [callsFor, h]

@[simp] theorem callsFor_setInactiveAge (p : PropertyType) (ageMs : UInt64) :
    callsFor p [.setInactiveAge ageMs] = [] := rfl

/-- The last call for `p` splits a run. -/
theorem exists_last_callFor {p : PropertyType} {ops : List Op} {cs : List UpdateValue}
    {c : UpdateValue} (h : callsFor p ops = cs ++ [c]) :
    ∃ before after, ops = before ++ .updateValue c :: after ∧ c.prop = p ∧
      callsFor p before = cs ∧ callsFor p after = [] := by
  induction ops using List.reverseRecOn generalizing cs with
  | nil => simp at h
  | append_singleton ops op ih =>
    have hskip : callsFor p [op] = [] → ∃ before after,
        ops ++ [op] = before ++ .updateValue c :: after ∧ c.prop = p ∧
          callsFor p before = cs ∧ callsFor p after = [] := by
      intro hnone
      rw [callsFor_append, hnone, List.append_nil] at h
      obtain ⟨before, after, rfl, hc, hbefore, hafter⟩ := ih h
      exact ⟨before, after ++ [op], by simp, hc, hbefore, by rw [callsFor_append, hafter, hnone]; rfl⟩
    cases op with
    | updateValue c' =>
      by_cases hc' : c'.prop = p
      · rw [callsFor_append, callsFor_updateValue hc'] at h
        obtain ⟨hcs, hcc⟩ := List.append_inj' h rfl
        obtain rfl : c' = c := by simpa using hcc
        exact ⟨ops, [], rfl, hc', hcs, rfl⟩
      · exact hskip (callsFor_other hc')
    | setInactiveAge ageMs => exact hskip rfl

/-! ### The order of a property -/

/-- The plain ranking after the calls when nothing expires. -/
def PlainRanking.place (m : PlainRanking) (c : UpdateValue) : PlainRanking :=
  { m with updates := m.updates + 1, ranks := m.assigned c }

def PlainRanking.placeAll (calls : List UpdateValue) : PlainRanking :=
  calls.foldl PlainRanking.place {}

theorem PlainRanking.placeAll_concat (calls : List UpdateValue) (c : UpdateValue) :
    PlainRanking.placeAll (calls ++ [c]) = (PlainRanking.placeAll calls).place c := by
  simp [PlainRanking.placeAll]

def callsOf (ops : List Op) : List UpdateValue :=
  ops.filterMap fun
    | .updateValue c => some c
    | .setInactiveAge _ => none

theorem callsFor_eq_filter (p : PropertyType) (ops : List Op) :
    callsFor p ops = (callsOf ops).filter fun c => c.prop = p := by
  rw [callsFor, callsOf, List.filter_filterMap]
  congr 1
  funext op
  cases op with
  | updateValue c => by_cases h : c.prop = p <;> simp [h, Option.filter_some]
  | setInactiveAge ageMs => rfl

theorem length_callsOf (ops : List Op) : (callsOf ops).length = updateCount ops := by
  induction ops with
  | nil => rfl
  | cons op ops ih => cases op <;> simp_all [callsOf, updateCount]

/-- When nothing expires the plain ranking is the one that only places tracks. -/
theorem plain_run_eq_placeAll (ops : List Op) (hlt : updateCount ops < 2 ^ 63)
    (hexp : NoExpiry ops) :
    (PlainRanking.run ops).ranks = (PlainRanking.placeAll (callsOf ops)).ranks ∧
      (PlainRanking.run ops).updates = (PlainRanking.placeAll (callsOf ops)).updates := by
  induction ops using List.reverseRecOn with
  | nil => exact ⟨rfl, rfl⟩
  | append_singleton ops op ih =>
    obtain ⟨hops, hop⟩ := everyCall_concat.mp hexp
    cases op with
    | setInactiveAge ageMs =>
      have hcount : updateCount (ops ++ [.setInactiveAge ageMs]) = updateCount ops := by
        simp [updateCount]
      have hcalls : callsOf (ops ++ [.setInactiveAge ageMs]) = callsOf ops := by simp [callsOf]
      rw [hcount] at hlt
      rw [PlainRanking.run_concat, hcalls]
      exact ih hlt hops
    | updateValue c =>
      have hcount : updateCount (ops ++ [.updateValue c]) = updateCount ops + 1 := by
        simp [updateCount]
      have hcalls : callsOf (ops ++ [.updateValue c]) = callsOf ops ++ [c] := by simp [callsOf]
      rw [hcount] at hlt
      obtain ⟨hranks, hupdates⟩ := ih (by omega) hops
      obtain ⟨href, hn⟩ := refines_run ops (by omega)
      have hplaced := href.represents.placed href.wellFormed c
        (href.toNat_seqNum_succ (by omega)) (by omega)
      have hkeep : ((PlainRanking.run ops).updateValue c).ranks =
          (PlainRanking.run ops).assigned c := by
        funext p ta
        cases hrank : (PlainRanking.run ops).assigned c p ta with
        | none => simp [PlainRanking.updateValue, hrank]
        | some rank =>
          obtain ⟨v, info, hinfo, rfl⟩ := (hplaced p ta rank).mp hrank
          have hlive : ¬ (info.rank v).Expired (PlainRanking.run ops).inactiveAgeMs
              c.tick.toNat := by
            rw [← href.inactiveAge, ← isInactive_iff]
            intro hold
            have := hop c rfl
            rw [hasInactive_iff.mpr ⟨p, v, ta, info, hinfo, hold⟩] at this
            cases this
          simp [PlainRanking.updateValue, hrank, Option.filter_some, hlive]
      rw [PlainRanking.run_concat, hcalls, PlainRanking.placeAll_concat]
      refine ⟨?_, ?_⟩
      · rw [PlainRanking.step, hkeep]
        funext p ta
        simp only [PlainRanking.place, PlainRanking.assigned, hranks, hupdates]
      · simp [PlainRanking.step, PlainRanking.updateValue, PlainRanking.place, hupdates]

theorem updates_placeAll (calls : List UpdateValue) :
    (PlainRanking.placeAll calls).updates = calls.length := by
  induction calls using List.reverseRecOn with
  | nil => rfl
  | append_singleton calls c ih =>
    rw [PlainRanking.placeAll_concat]
    simp [PlainRanking.place, ih]

/-- Two rankings of one property with the same values and the same order of sequence numbers. -/
structure SameOrder (f g : TrackAlias → Option Rank) : Prop where
  value : ∀ ta, (f ta).map Rank.value = (g ta).map Rank.value
  seq : ∀ ta tb ra rb ra' rb', f ta = some ra → f tb = some rb → g ta = some ra' →
    g tb = some rb' → (ra.insertSeqNum < rb.insertSeqNum ↔ ra'.insertSeqNum < rb'.insertSeqNum)

/-- The sequence numbers of the first `n` updates. -/
def SeqBound (n : ℕ) (f : TrackAlias → Option Rank) : Prop :=
  ∀ ta rank, f ta = some rank →
    2 ^ 63 - 1 - n ≤ rank.insertSeqNum ∧ rank.insertSeqNum ≤ 2 ^ 63 + n

theorem SeqBound.place {m : PlainRanking} {p : PropertyType} (h : SeqBound m.updates (m.ranks p))
    (c : UpdateValue) : SeqBound (m.place c).updates ((m.place c).ranks p) := by
  intro ta rank hrank
  simp only [PlainRanking.place, PlainRanking.assigned] at hrank ⊢
  split at hrank
  · rename_i hta
    obtain ⟨rfl, rfl⟩ := hta
    cases hrank
    cases hold : m.ranks c.prop c.trackAlias with
    | none => simp only [Rank.updated]; omega
    | some old =>
      have := h _ _ hold
      simp only [Rank.updated]
      split
      · simp only; omega
      · split <;> simp only <;> omega
  · have := h ta rank hrank
    omega

theorem seqBound_placeAll (p : PropertyType) (calls : List UpdateValue) :
    SeqBound calls.length ((PlainRanking.placeAll calls).ranks p) := by
  rw [← updates_placeAll]
  induction calls using List.reverseRecOn with
  | nil => intro ta rank hrank; simp [PlainRanking.placeAll] at hrank
  | append_singleton calls c ih =>
    rw [PlainRanking.placeAll_concat]
    exact ih.place c

/-- The place that a call gives its track among the tracks of the property. -/
inductive Place where
  | last
  | first
  | kept

/-- The place follows from the value that the track had. -/
def UpdateValue.place (c : UpdateValue) : Option ℕ → Place
  | none => .last
  | some v => if v = c.value.toNat then .kept else if c.value.toNat < v then .first else .last

/-- The sequence number puts the track in its place. -/
def Place.Holds (f : TrackAlias → Option Rank) (c : UpdateValue) (seq : ℕ) : Place → Prop
  | .last => ∀ ta rank, f ta = some rank → rank.insertSeqNum < seq
  | .first => ∀ ta rank, f ta = some rank → seq < rank.insertSeqNum
  | .kept => ∃ rank, f c.trackAlias = some rank ∧ rank.insertSeqNum = seq

theorem value_updated (n : ℕ) (c : UpdateValue) (old : Option Rank) :
    (Rank.updated n c old).value = c.value.toNat := by
  cases old with
  | none => rfl
  | some old =>
    simp only [Rank.updated]
    split
    · assumption
    · split <;> rfl

section Placed

variable {m m' : PlainRanking} {c : UpdateValue}

theorem ranks_place (m : PlainRanking) (c : UpdateValue) (ta : TrackAlias) :
    (m.place c).ranks c.prop ta =
      if ta = c.trackAlias then
        some (Rank.updated (m.updates + 1) c (m.ranks c.prop c.trackAlias))
      else m.ranks c.prop ta := by
  simp [PlainRanking.place, PlainRanking.assigned]

theorem place_holds_updated (hb : SeqBound m.updates (m.ranks c.prop))
    (hlt : m.updates + 1 < 2 ^ 63) :
    (c.place ((m.ranks c.prop c.trackAlias).map Rank.value)).Holds (m.ranks c.prop) c
      (Rank.updated (m.updates + 1) c (m.ranks c.prop c.trackAlias)).insertSeqNum := by
  cases hold : m.ranks c.prop c.trackAlias with
  | none =>
    intro ta rank hrank
    have := hb ta rank hrank
    simp only [Rank.updated]
    omega
  | some old =>
    simp only [Option.map_some, UpdateValue.place, Rank.updated]
    by_cases hsame : old.value = c.value.toNat
    · rw [if_pos hsame, if_pos hsame]
      exact ⟨old, hold, rfl⟩
    rw [if_neg hsame, if_neg hsame]
    by_cases hless : c.value.toNat < old.value
    · rw [if_pos hless, if_pos hless]
      intro ta rank hrank
      have := hb ta rank hrank
      simp only
      omega
    · rw [if_neg hless, if_neg hless]
      intro ta rank hrank
      have := hb ta rank hrank
      simp only
      omega

/-- A call for the property keeps two rankings of it in the same order. -/
theorem SameOrder.place (h : SameOrder (m.ranks c.prop) (m'.ranks c.prop))
    (hb : SeqBound m.updates (m.ranks c.prop)) (hb' : SeqBound m'.updates (m'.ranks c.prop))
    (hlt : m.updates + 1 < 2 ^ 63) (hlt' : m'.updates + 1 < 2 ^ 63) :
    SameOrder ((m.place c).ranks c.prop) ((m'.place c).ranks c.prop) := by
  have hplace := place_holds_updated hb hlt
  have hplace' := place_holds_updated hb' hlt'
  rw [← h.value c.trackAlias] at hplace'
  generalize c.place ((m.ranks c.prop c.trackAlias).map Rank.value) = place at hplace hplace'
  constructor
  · intro ta
    rw [ranks_place, ranks_place]
    split
    · simp [value_updated]
    · exact h.value ta
  · intro ta tb ra rb ra' rb' hra hrb hra' hrb'
    rw [ranks_place] at hra hrb hra' hrb'
    by_cases hta : ta = c.trackAlias <;> by_cases htb : tb = c.trackAlias
    · rw [if_pos hta] at hra hra'
      rw [if_pos htb] at hrb hrb'
      cases hra; cases hrb; cases hra'; cases hrb'
      simp
    · rw [if_pos hta] at hra hra'
      rw [if_neg htb] at hrb hrb'
      cases hra; cases hra'
      cases place with
      | last =>
        have := hplace tb rb hrb
        have := hplace' tb rb' hrb'
        omega
      | first =>
        have := hplace tb rb hrb
        have := hplace' tb rb' hrb'
        omega
      | kept =>
        obtain ⟨old, hold, hseq⟩ := hplace
        obtain ⟨old', hold', hseq'⟩ := hplace'
        have := h.seq _ _ _ _ _ _ hold hrb hold' hrb'
        omega
    · rw [if_neg hta] at hra hra'
      rw [if_pos htb] at hrb hrb'
      cases hrb; cases hrb'
      cases place with
      | last =>
        have := hplace ta ra hra
        have := hplace' ta ra' hra'
        omega
      | first =>
        have := hplace ta ra hra
        have := hplace' ta ra' hra'
        omega
      | kept =>
        obtain ⟨old, hold, hseq⟩ := hplace
        obtain ⟨old', hold', hseq'⟩ := hplace'
        have := h.seq _ _ _ _ _ _ hra hold hra' hold'
        omega
    · rw [if_neg hta] at hra hra'
      rw [if_neg htb] at hrb hrb'
      exact h.seq _ _ _ _ _ _ hra hrb hra' hrb'

end Placed

/-- Calls for other properties do not change the order of `p`. -/
theorem sameOrder_placeAll (p : PropertyType) (calls : List UpdateValue)
    (hlt : calls.length < 2 ^ 63) :
    SameOrder ((PlainRanking.placeAll calls).ranks p)
      ((PlainRanking.placeAll (calls.filter fun c => c.prop = p)).ranks p) := by
  induction calls using List.reverseRecOn with
  | nil => exact ⟨fun _ => rfl, fun _ _ _ _ _ _ h => by cases h⟩
  | append_singleton calls c ih =>
    rw [List.length_append, List.length_singleton] at hlt
    have hfilter : (calls.filter fun c => c.prop = p).length ≤ calls.length :=
      List.length_filter_le _ _
    have ih := ih (by omega)
    rw [PlainRanking.placeAll_concat, List.filter_append]
    by_cases hc : c.prop = p
    · subst hc
      rw [List.filter_cons_of_pos (by simp), List.filter_nil, PlainRanking.placeAll_concat]
      refine ih.place ?_ ?_ ?_ ?_
      · rw [updates_placeAll]
        exact seqBound_placeAll _ _
      · rw [updates_placeAll]
        exact seqBound_placeAll _ _
      · rw [updates_placeAll]
        omega
      · rw [updates_placeAll]
        omega
    · rw [List.filter_cons_of_neg (by simpa using hc), List.filter_nil, List.append_nil]
      have hranks : ((PlainRanking.placeAll calls).place c).ranks p =
          (PlainRanking.placeAll calls).ranks p := by
        funext ta
        simp [PlainRanking.place, PlainRanking.assigned, Ne.symm hc]
      rw [hranks]
      exact ih

/-! ### The aliases of a list -/

/-- Track `a` is ranked above track `b`. -/
def RankAbove (f : TrackAlias → Option Rank) (a b : TrackAlias) : Prop :=
  ∃ ra rb, f a = some ra ∧ f b = some rb ∧ (rb.value < ra.value ∨ ra.value = rb.value ∧
    (ra.insertSeqNum < rb.insertSeqNum ∨ ra.insertSeqNum = rb.insertSeqNum ∧ b < a))

/-- The aliases of a property in rank order. -/
structure RankedAliases (f : TrackAlias → Option Rank) (aliases : List TrackAlias) : Prop where
  mem_iff : ∀ ta, ta ∈ aliases ↔ (f ta).isSome
  nodup : aliases.Nodup
  sorted : aliases.Pairwise (RankAbove f)

theorem SameOrder.rankAbove {f g : TrackAlias → Option Rank} (h : SameOrder f g)
    {a b : TrackAlias} (hab : RankAbove f a b) : RankAbove g a b := by
  obtain ⟨ra, rb, hra, hrb, hab⟩ := hab
  have hva := h.value a
  have hvb := h.value b
  rw [hra, Option.map_some] at hva
  rw [hrb, Option.map_some] at hvb
  obtain ⟨ra', hra', hva'⟩ := Option.map_eq_some_iff.mp hva.symm
  obtain ⟨rb', hrb', hvb'⟩ := Option.map_eq_some_iff.mp hvb.symm
  have hlt := h.seq _ _ _ _ _ _ hra hrb hra' hrb'
  have hgt := h.seq _ _ _ _ _ _ hrb hra hrb' hra'
  refine ⟨ra', rb', hra', hrb', ?_⟩
  rcases hab with hab | ⟨hv, hab | ⟨hseq, halias⟩⟩
  · exact .inl (by omega)
  · exact .inr ⟨by omega, .inl (by omega)⟩
  · exact .inr ⟨by omega, .inr ⟨by omega, halias⟩⟩

theorem SameOrder.rankedAliases {f g : TrackAlias → Option Rank} (h : SameOrder f g)
    {aliases : List TrackAlias} (ha : RankedAliases f aliases) : RankedAliases g aliases := by
  refine ⟨fun ta => ?_, ha.nodup, ha.sorted.imp h.rankAbove⟩
  have hsome := congrArg Option.isSome (h.value ta)
  rw [Option.isSome_map, Option.isSome_map] at hsome
  rw [ha.mem_iff, hsome]

theorem RankedAliases.unique {f : TrackAlias → Option Rank} {aliases aliases' : List TrackAlias}
    (h : RankedAliases f aliases) (h' : RankedAliases f aliases') : aliases = aliases' := by
  have hperm : aliases.Perm aliases' := by
    rw [List.perm_ext_iff_of_nodup h.nodup h'.nodup]
    intro ta
    rw [h.mem_iff, h'.mem_iff]
  refine hperm.eq_of_pairwise ?_ h.sorted h'.sorted
  rintro a b - - ⟨ra, rb, hra, hrb, hab⟩ ⟨rb', ra', hrb', hra', hba⟩
  cases hra.symm.trans hra'
  cases hrb.symm.trans hrb'
  simp only [UInt64.lt_iff_toNat_lt, ← UInt64.toNat_inj] at hab hba ⊢
  omega

theorem IsRankedList.rankedAliases {tracks : OrderedTracks} {connOf : TrackAlias → Option UInt64}
    {p : PropertyType} {rows : List FlatTrack} (h : IsRankedList tracks connOf p rows)
    (hwf : WellFormed tracks) {ranks : PropertyType → TrackAlias → Option Rank}
    (hrep : Represents tracks ranks)
    (hconn : ∀ v ta info, trackAt tracks p v ta = some info → ∃ conn, connOf ta = some conn) :
    RankedAliases (ranks p) (rows.map FlatTrack.trackAlias) := by
  have hrank : ∀ row ∈ rows, ∃ v, ranks p row.trackAlias =
      some ⟨v.toNat, row.insertSeqNum.toNat, row.latestTick.toNat⟩ ∧
      trackAt tracks p v row.trackAlias = some ⟨row.insertSeqNum, row.latestTick⟩ := by
    intro row hrow
    obtain ⟨v, hv, -⟩ := (h.mem_iff row).mp hrow
    exact ⟨v, (hrep p row.trackAlias _).mpr ⟨v, _, hv, rfl⟩, hv⟩
  refine ⟨fun ta => ?_, h.nodup, ?_⟩
  · rw [List.mem_map]
    constructor
    · rintro ⟨row, hrow, rfl⟩
      obtain ⟨v, hv, -⟩ := hrank row hrow
      rw [hv]
      rfl
    · intro hsome
      obtain ⟨rank, hta⟩ := Option.isSome_iff_exists.mp hsome
      obtain ⟨v, info, hinfo, -⟩ := (hrep p ta rank).mp hta
      obtain ⟨conn, hconn⟩ := hconn v ta info hinfo
      exact ⟨⟨ta, info.insertSeqNum, info.latestTick, conn⟩,
        (h.mem_iff _).mpr ⟨v, hinfo, hconn⟩, rfl⟩
  · refine List.pairwise_map.mpr (List.Pairwise.imp_of_mem ?_ h.sorted)
    rintro a b ha hb ⟨va, vb, hva, hvb, hab⟩
    obtain ⟨va', hra, hva'⟩ := hrank a ha
    obtain ⟨vb', hrb, hvb'⟩ := hrank b hb
    obtain ⟨_, hva⟩ := Option.isSome_iff_exists.mp hva
    obtain ⟨_, hvb⟩ := Option.isSome_iff_exists.mp hvb
    obtain rfl := hwf.unique _ _ _ _ _ _ hva hva'
    obtain rfl := hwf.unique _ _ _ _ _ _ hvb hvb'
    refine ⟨_, _, hra, hrb, ?_⟩
    simp only [UInt64.lt_iff_toNat_lt, ← UInt64.toNat_inj] at hab ⊢
    exact hab

/-- A run in which nothing expires, the counter does not wrap and every call keeps the list. -/
structure Kept (ops : List Op) : Prop where
  keeps : EveryCall KeepsList ops
  count : updateCount ops < 2 ^ 63
  noExpiry : NoExpiry ops

theorem Kept.of_append {ops r : List Op} (h : Kept (ops ++ r)) : Kept ops where
  keeps := h.keeps.of_append
  count := by
    have := h.count
    rw [updateCount, List.countP_append] at this
    exact Nat.lt_of_le_of_lt (Nat.le_add_right _ _) this
  noExpiry := h.noExpiry.of_append

/-- The aliases of the list after a call for `p` follow from the calls for `p`. -/
theorem Kept.rankedAliases {p : PropertyType} {ops : List Op} (h : Kept ops)
    (hlast : lastProp ops = some p) :
    RankedAliases ((PlainRanking.placeAll (callsFor p ops)).ranks p)
      ((TrackRanking.run ops).flatTrackList.map FlatTrack.trackAlias) := by
  have hlist := listCurrent_run ops h.keeps p hlast
  have hrep := (refines_run ops h.count).1.represents
  rw [(plain_run_eq_placeAll ops h.count h.noExpiry).1] at hrep
  have haliases := hlist.rankedAliases (wellFormed_run ops) hrep fun v ta info hinfo => by
    rw [← trackConnections_run]
    exact ExtTreeMap.contains_iff_getElem?.mp (contains_trackConnections_run ops hinfo)
  rw [callsFor_eq_filter]
  exact (sameOrder_placeAll p _ (by rw [length_callsOf]; exact h.count)).rankedAliases haliases

/-! ### What the handler selects -/

/-- The connection of the last call for `p` that names the track. -/
def lastConnectionFor (p : PropertyType) (ops : List Op) (ta : TrackAlias) : Option UInt64 :=
  lastConnection ((callsFor p ops).map .updateValue) ta

/-- No call for another property names a track that is published to the handler. -/
def NamesOwn (p : PropertyType) (h : PublishNamespaceHandler) (ops : List Op) : Prop :=
  ∀ c, .updateValue c ∈ ops → c.prop ≠ p → h.statusOf c.trackAlias = none

/-- Whether a published track counts as the handler's own is decided by the calls for `p`. -/
def SelfAgrees (p : PropertyType) (h : PublishNamespaceHandler) (ops : List Op) : Prop :=
  ∀ ta, (h.statusOf ta).isSome → (∃ c ∈ callsFor p ops, c.trackAlias = ta) →
    (lastConnection ops ta = some h.connectionId ↔
      lastConnectionFor p ops ta = some h.connectionId)

/-- A run whose calls for other properties stay apart from what the handler selects. -/
structure Isolated (p : PropertyType) (h : PublishNamespaceHandler) (ops : List Op) : Prop where
  keeps : EveryCall KeepsList ops
  count : updateCount ops < 2 ^ 63
  apart : h.Demotes ∧ SelfAgrees p h ops ∨ NamesOwn p h ops

theorem NamesOwn.of_append {p : PropertyType} {h : PublishNamespaceHandler} {ops r : List Op}
    (hown : NamesOwn p h (ops ++ r)) : NamesOwn p h ops :=
  fun c hc => hown c (List.mem_append_left _ hc)

theorem NamesOwn.lastConnection_eq {p : PropertyType} {h : PublishNamespaceHandler} {ops : List Op}
    (hown : NamesOwn p h ops) {ta : TrackAlias} (hta : (h.statusOf ta).isSome) :
    lastConnection ops ta = lastConnectionFor p ops ta := by
  induction ops using List.reverseRecOn with
  | nil => rfl
  | append_singleton ops op ih =>
    have ih := ih hown.of_append
    rw [lastConnectionFor] at ih ⊢
    rw [callsFor_append]
    cases op with
    | updateValue c =>
      by_cases hc : c.prop = p
      · rw [callsFor_updateValue hc, List.map_append, List.map_singleton,
          lastConnection_updateValue, lastConnection_updateValue, ih]
      · have hne : ta ≠ c.trackAlias := by
          rintro rfl
          rw [hown c (by simp) hc] at hta
          cases hta
        rw [callsFor_other hc, List.append_nil, lastConnection_updateValue, if_neg hne, ih]
    | setInactiveAge ageMs =>
      rw [callsFor_setInactiveAge, List.append_nil, lastConnection_setInactiveAge, ih]

theorem NamesOwn.selfAgrees {p : PropertyType} {h : PublishNamespaceHandler} {ops : List Op}
    (hown : NamesOwn p h ops) : SelfAgrees p h ops := by
  intro ta hta _
  rw [hown.lastConnection_eq hta]

/-- A stored track was named by a call for its property. -/
theorem exists_call_of_trackAt {ops : List Op} {p v ta info}
    (h : trackAt (TrackRanking.run ops).orderedTracks p v ta = some info) :
    ∃ c ∈ callsFor p ops, c.trackAlias = ta := by
  induction ops using List.reverseRecOn generalizing info with
  | nil => simp [TrackRanking.run, trackAt_empty] at h
  | append_singleton ops op ih =>
    rw [TrackRanking.run_concat] at h
    rw [callsFor_append]
    cases op with
    | updateValue c =>
      rw [TrackRanking.step, trackAt_updateValue, Option.filter_eq_some_iff, trackAt_placed] at h
      by_cases hta : p = c.prop ∧ ta = c.trackAlias
      · rw [callsFor_updateValue hta.1.symm]
        exact ⟨c, by simp, hta.2.symm⟩
      · rw [if_neg hta] at h
        obtain ⟨c', hc', hta'⟩ := ih h.1
        exact ⟨c', List.mem_append_left _ hc', hta'⟩
    | setInactiveAge ageMs =>
      obtain ⟨c', hc', hta'⟩ := ih h
      exact ⟨c', List.mem_append_left _ hc', hta'⟩

namespace PublishNamespaceHandler

theorem active_eq {tracks : OrderedTracks} {connOf : TrackAlias → Option UInt64} {p : PropertyType}
    {rows : List FlatTrack} (hlist : IsRankedList tracks connOf p rows)
    (h : PublishNamespaceHandler) : h.active rows =
      ((rows.map FlatTrack.trackAlias).filter fun ta =>
        connOf ta ≠ some h.connectionId ∧ (h.statusOf ta).isSome).take
          h.maxTracksSelected.toNat := by
  rw [active, picked, List.filter_map]
  congr 2
  refine List.filter_congr fun row hrow => ?_
  obtain ⟨v, -, hconn⟩ := (hlist.mem_iff row).mp hrow
  simp [hconn]

/-- Two runs with the same calls for `p` leave the same tracks active. -/
theorem active_eq_of_callsFor {p : PropertyType} {h : PublishNamespaceHandler}
    {ops ops' : List Op} (hkept : Kept ops) (hkept' : Kept ops')
    (hlast : lastProp ops = some p) (hlast' : lastProp ops' = some p)
    (hself : SelfAgrees p h ops) (hself' : SelfAgrees p h ops')
    (hcalls : callsFor p ops = callsFor p ops') :
    h.active (TrackRanking.run ops).flatTrackList =
      h.active (TrackRanking.run ops').flatTrackList := by
  have hlist := listCurrent_run ops hkept.keeps p hlast
  have hranked := hkept.rankedAliases hlast
  have hranked' := hkept'.rankedAliases hlast'
  rw [← hcalls] at hranked'
  rw [active_eq hlist, active_eq (listCurrent_run ops' hkept'.keeps p hlast'),
    ← hranked.unique hranked']
  congr 1
  refine List.filter_congr fun ta hta => ?_
  obtain ⟨row, hrow, rfl⟩ := List.mem_map.mp hta
  obtain ⟨v, hv, -⟩ := (hlist.mem_iff row).mp hrow
  have hcall := exists_call_of_trackAt hv
  by_cases hpub : (h.statusOf row.trackAlias).isSome
  · have hsame : lastConnection ops row.trackAlias = some h.connectionId ↔
        lastConnection ops' row.trackAlias = some h.connectionId := by
      rw [hself _ hpub hcall, hself' _ hpub (hcalls ▸ hcall), lastConnectionFor, hcalls,
        lastConnectionFor]
    simp [hpub, hsame]
  · simp [hpub]

theorem sameSetup_follow (base : BasePublish) (h : PublishNamespaceHandler)
    (lists : List (List FlatTrack)) : SameSetup h (h.follow base lists) := by
  induction lists generalizing h with
  | nil => exact .refl h
  | cons rows lists ih => exact (h.sameSetup_updateTrackRanking base rows).trans (ih _)

/-- The handler after a run from the empty ranking. -/
def after (base : BasePublish) (h : PublishNamespaceHandler) (ops : List Op) :
    PublishNamespaceHandler :=
  h.follow base (({} : TrackRanking).lists ops)

theorem lists_concat (r : TrackRanking) (ops : List Op) (op : Op) :
    r.lists (ops ++ [op]) = r.lists ops ++ (ops.foldl TrackRanking.step r).lists [op] := by
  induction ops generalizing r with
  | nil => rfl
  | cons op' ops ih =>
    cases op' with
    | updateValue c =>
      simp only [List.cons_append, TrackRanking.lists, ih, List.foldl_cons, TrackRanking.step]
    | setInactiveAge ageMs =>
      simp only [List.cons_append, TrackRanking.lists, ih, List.foldl_cons, TrackRanking.step]

theorem after_setInactiveAge (base : BasePublish) (h : PublishNamespaceHandler) (ops : List Op)
    (ageMs : UInt64) : h.after base (ops ++ [.setInactiveAge ageMs]) = h.after base ops := by
  simp [after, lists_concat, TrackRanking.lists]

theorem after_updateValue (base : BasePublish) (h : PublishNamespaceHandler) (ops : List Op)
    (c : UpdateValue) : h.after base (ops ++ [.updateValue c]) =
      (h.after base ops).updateTrackRanking base
        (TrackRanking.run (ops ++ [.updateValue c])).flatTrackList := by
  simp [after, lists_concat, TrackRanking.lists, follow, TrackRanking.run, TrackRanking.step]

section Run

variable (base : BasePublish) {h : PublishNamespaceHandler} (hreg : h.Registered)
  (hprop : h.propertyType.isSome)
include hreg hprop

theorem statusOf_after {ops : List Op} {c : UpdateValue}
    (hkeeps : EveryCall KeepsList (ops ++ [.updateValue c])) (ta : TrackAlias) :
    (h.after base (ops ++ [.updateValue c])).statusOf ta =
      ((h.after base ops).statusOf ta).map (rankedStatus
        (decide (ta ∈ h.active (TrackRanking.run (ops ++ [.updateValue c])).flatTrackList))
        (decide h.Demotes)) := by
  have hsetup : SameSetup h (h.after base ops) := sameSetup_follow base h _
  have hnodup := (listCurrent_run _ hkeeps c.prop (lastProp_updateValue ops c)).nodup
  rw [after_updateValue, statusOf_updateTrackRanking base (hsetup.registered hreg)
    (by rw [hsetup.propertyType]; exact hprop) hnodup]
  have hactive : ∀ rows, (h.after base ops).active rows = h.active rows := by
    intro rows
    rw [active, active, hsetup.picked, hsetup.maxTracksSelected]
  rw [hactive, decide_eq_decide.mpr hsetup.demotes]

/-- A status that the ranking does not touch. -/
def steady (status : PublishStatus) : Bool := status ≠ .ok ∧ status ≠ .paused

omit hreg hprop in
theorem steady_rankedStatus (selected demotes : Bool) (status : PublishStatus) :
    steady (rankedStatus selected demotes status) = steady status := by
  cases selected <;> cases demotes <;> cases status <;> rfl

omit hreg hprop in
theorem rankedStatus_ne_paused (selected : Bool) (status : PublishStatus) :
    rankedStatus selected true status ≠ .paused ↔ (selected || steady status) = true := by
  cases selected <;> cases status <;> decide

theorem steady_after {ops : List Op} (hkeeps : EveryCall KeepsList ops) (ta : TrackAlias) :
    ((h.after base ops).statusOf ta).map steady = (h.statusOf ta).map steady := by
  induction ops using List.reverseRecOn with
  | nil => rfl
  | append_singleton ops op ih =>
    have ih := ih hkeeps.of_append
    cases op with
    | updateValue c =>
      rw [statusOf_after base hreg hprop hkeeps, Option.map_map, ← ih]
      congr 1
      funext status
      exact steady_rankedStatus _ _ status
    | setInactiveAge ageMs => rw [after_setInactiveAge, ih]

omit hreg hprop in
theorem selected_iff (ta : TrackAlias) :
    h.Selected ta ↔ ∃ status, h.statusOf ta = some status ∧ status ≠ .paused := by
  simp only [Selected, statusOf, Option.map_eq_some_iff]
  constructor
  · rintro ⟨track, htrack, hne⟩
    exact ⟨track.status, ⟨track, htrack, rfl⟩, hne⟩
  · rintro ⟨_, ⟨track, htrack, rfl⟩, hne⟩
    exact ⟨track, htrack, hne⟩

/-- A handler that demotes has selected what the last list makes active. -/
theorem selected_after_demotes (hdemotes : h.Demotes) {ops : List Op} {c : UpdateValue}
    (hkeeps : EveryCall KeepsList (ops ++ [.updateValue c])) (ta : TrackAlias) :
    (h.after base (ops ++ [.updateValue c])).Selected ta ↔
      ∃ status, h.statusOf ta = some status ∧
        (ta ∈ h.active (TrackRanking.run (ops ++ [.updateValue c])).flatTrackList ∨
          steady status = true) := by
  have hsteady := steady_after base hreg hprop hkeeps.of_append ta
  rw [selected_iff, statusOf_after base hreg hprop hkeeps]
  simp only [Option.map_eq_some_iff, hdemotes, decide_true]
  constructor
  · rintro ⟨_, ⟨status, hstatus, rfl⟩, hne⟩
    rw [hstatus, Option.map_some] at hsteady
    obtain ⟨first, hfirst, heq⟩ := Option.map_eq_some_iff.mp hsteady.symm
    rw [rankedStatus_ne_paused, ← heq] at hne
    exact ⟨first, hfirst, by simpa using hne⟩
  · rintro ⟨first, hfirst, hsel⟩
    rw [hfirst, Option.map_some] at hsteady
    obtain ⟨status, hstatus, heq⟩ := Option.map_eq_some_iff.mp hsteady
    refine ⟨_, ⟨status, hstatus, rfl⟩, ?_⟩
    rw [rankedStatus_ne_paused, heq]
    simpa using hsel

/-- Without demotion a call for another property does nothing when it names no published track. -/
theorem statusOf_after_other {p : PropertyType} (hdemotes : ¬ h.Demotes) {ops : List Op}
    {op : Op} (hkeeps : EveryCall KeepsList (ops ++ [op])) (hown : NamesOwn p h (ops ++ [op]))
    (hother : callsFor p [op] = []) (ta : TrackAlias) :
    (h.after base (ops ++ [op])).statusOf ta = (h.after base ops).statusOf ta := by
  cases op with
  | setInactiveAge ageMs => rw [after_setInactiveAge]
  | updateValue c =>
    have hc : c.prop ≠ p := fun hc => by simp [callsFor_updateValue hc] at hother
    have hlist := listCurrent_run _ hkeeps c.prop (lastProp_updateValue ops c)
    have hnone : h.active (TrackRanking.run (ops ++ [.updateValue c])).flatTrackList = [] := by
      rw [active_eq hlist, List.filter_eq_nil_iff.mpr, List.take_nil]
      intro ta hta
      obtain ⟨row, hrow, rfl⟩ := List.mem_map.mp hta
      obtain ⟨v, hv, -⟩ := (hlist.mem_iff row).mp hrow
      obtain ⟨c', hc', hta'⟩ := exists_call_of_trackAt hv
      have hmem : .updateValue c' ∈ ops ++ [.updateValue c] ∧ c'.prop = c.prop := by
        rw [callsFor, List.mem_filterMap] at hc'
        obtain ⟨op, hop, heq⟩ := hc'
        cases op with
        | updateValue d =>
          simp only [Option.ite_none_right_eq_some, Option.some.injEq] at heq
          exact heq.2 ▸ ⟨hop, heq.1⟩
        | setInactiveAge ageMs => cases heq
      have := hown c' hmem.1 (hmem.2 ▸ hc)
      simp [← hta', this]
    rw [statusOf_after base hreg hprop hkeeps, hnone]
    simp only [List.not_mem_nil, decide_false, hdemotes]
    cases (h.after base ops).statusOf ta with
    | none => rfl
    | some status => simp [rankedStatus]

theorem statusOf_after_others {p : PropertyType} (hdemotes : ¬ h.Demotes) {ops r : List Op}
    (hkeeps : EveryCall KeepsList (ops ++ r)) (hown : NamesOwn p h (ops ++ r))
    (hother : callsFor p r = []) (ta : TrackAlias) :
    (h.after base (ops ++ r)).statusOf ta = (h.after base ops).statusOf ta := by
  induction r using List.reverseRecOn with
  | nil => rw [List.append_nil]
  | append_singleton r op ih =>
    rw [callsFor_append, List.append_eq_nil_iff] at hother
    rw [← List.append_assoc] at hkeeps hown ⊢
    rw [statusOf_after_other base hreg hprop hdemotes hkeeps hown hother.2]
    exact ih hkeeps.of_append hown.of_append hother.1

/-- Without demotion the statuses follow from the calls for `p`. -/
theorem statusOf_after_eq {p : PropertyType} (hdemotes : ¬ h.Demotes) {ops ops' : List Op}
    (hkept : Kept ops) (hkept' : Kept ops') (hown : NamesOwn p h ops) (hown' : NamesOwn p h ops')
    (hcalls : callsFor p ops = callsFor p ops') (ta : TrackAlias) :
    (h.after base ops).statusOf ta = (h.after base ops').statusOf ta := by
  -- Induction on the calls for `p`: both runs end with the last of them and calls for others.
  generalize hcs : callsFor p ops = cs at hcalls
  induction cs using List.reverseRecOn generalizing ops ops' with
  | nil =>
    have hnil := @statusOf_after_others base _ hreg hprop p hdemotes [] ops hkept.keeps hown hcs ta
    have hnil' := @statusOf_after_others base _ hreg hprop p hdemotes [] ops' hkept'.keeps hown'
      hcalls.symm ta
    exact hnil.trans hnil'.symm
  | append_singleton cs c ih =>
    obtain ⟨before, rest, rfl, hc, hbefore, hrest⟩ := exists_last_callFor hcs
    obtain ⟨before', rest', rfl, -, hbefore', hrest'⟩ := exists_last_callFor hcalls.symm
    rw [List.append_cons] at hkept hkept' hown hown' ⊢
    rw [List.append_cons before']
    have hlast := hkept.of_append
    have hlast' := hkept'.of_append
    have hown := hown.of_append
    have hown' := hown'.of_append
    have hcalls' : callsFor p (before ++ [.updateValue c]) =
        callsFor p (before' ++ [.updateValue c]) := by
      rw [callsFor_append, callsFor_append, hbefore, hbefore']
    have hactive := active_eq_of_callsFor (h := h) hlast hlast' (by simp [hc]) (by simp [hc])
      hown.selfAgrees hown'.selfAgrees hcalls'
    rw [statusOf_after_others base hreg hprop hdemotes hkept.keeps ‹_› hrest,
      statusOf_after_others base hreg hprop hdemotes hkept'.keeps ‹_› hrest',
      statusOf_after base hreg hprop hlast.keeps, statusOf_after base hreg hprop hlast'.keeps,
      hactive, ih hlast.of_append hlast'.of_append hown.of_append hown'.of_append hbefore
        hbefore'.symm]

end Run

/-- Two isolated runs with the same calls for `p`, the last of them included, end with the same
tracks selected. -/
theorem selected_after_eq (base : BasePublish) {h : PublishNamespaceHandler} (hreg : h.Registered)
    {p : PropertyType} (hprop : h.propertyType = some p) {ops ops' : List Op} {c : UpdateValue}
    (hc : c.prop = p) (hcalls : callsFor p ops = callsFor p ops')
    (hexp : NoExpiry (ops ++ [.updateValue c])) (hexp' : NoExpiry (ops' ++ [.updateValue c]))
    (hiso : Isolated p h (ops ++ [.updateValue c]))
    (hiso' : Isolated p h (ops' ++ [.updateValue c])) (ta : TrackAlias) :
    (h.after base (ops ++ [.updateValue c])).Selected ta ↔
      (h.after base (ops' ++ [.updateValue c])).Selected ta := by
  have hsome : h.propertyType.isSome := by rw [hprop]; rfl
  have hkept : Kept (ops ++ [.updateValue c]) := ⟨hiso.keeps, hiso.count, hexp⟩
  have hkept' : Kept (ops' ++ [.updateValue c]) := ⟨hiso'.keeps, hiso'.count, hexp'⟩
  have hcalls' : callsFor p (ops ++ [.updateValue c]) = callsFor p (ops' ++ [.updateValue c]) := by
    rw [callsFor_append, callsFor_append, hcalls]
  by_cases hdemotes : h.Demotes
  · have hself := hiso.apart.elim And.right NamesOwn.selfAgrees
    have hself' := hiso'.apart.elim And.right NamesOwn.selfAgrees
    have hactive := active_eq_of_callsFor (h := h) hkept hkept' (by simp [hc]) (by simp [hc])
      hself hself' hcalls'
    rw [selected_after_demotes base hreg hsome hdemotes hkept.keeps,
      selected_after_demotes base hreg hsome hdemotes hkept'.keeps, hactive]
  · have hown := hiso.apart.resolve_left fun hd => hdemotes hd.1
    have hown' := hiso'.apart.resolve_left fun hd => hdemotes hd.1
    rw [selected_iff, selected_iff,
      statusOf_after_eq base hreg hsome hdemotes hkept hkept' hown hown' hcalls']

end PublishNamespaceHandler

/-! ### Two runs of a ranking with a registered handler -/

/-- The handler has the same tracks selected in both systems. -/
def SameSelection (sys sys' : RankingSystem) (id : HandlerId) : Prop :=
  ∃ h h', sys.live[id]? = some h ∧ sys'.live[id]? = some h' ∧ ∀ ta, h.Selected ta ↔ h'.Selected ta

/-- The run has calls for `p` and nothing else. -/
def OnlyFor (p : PropertyType) (ops : List Op) : Prop :=
  ∀ op ∈ ops, ∃ c : UpdateValue, op = .updateValue c ∧ c.prop = p

theorem OnlyFor.eq_callsFor {p : PropertyType} {ops : List Op} (h : OnlyFor p ops) :
    ops = (callsFor p ops).map .updateValue := by
  induction ops using List.reverseRecOn with
  | nil => rfl
  | append_singleton ops op ih =>
    obtain ⟨c, rfl, hc⟩ := h op (by simp)
    have ih := ih fun op hop => h op (List.mem_append_left _ hop)
    rw [callsFor_append, callsFor_updateValue hc, List.map_append, ← ih]
    rfl

/-- A handler of property `p` that is registered with an empty ranking ends with the same selection
in every two runs that have the same calls for `p`, when these are their only calls or both are
isolated. -/
theorem sameSelection_of_isolated (base : BasePublish) (sys : RankingSystem) (id : HandlerId)
    (h : PublishNamespaceHandler) (hlive : sys.Registers id h) (hempty : sys.ranking = {})
    (hreg : h.Registered) (p : PropertyType) (hprop : h.propertyType = some p)
    (ops ops' : List Op) (c : UpdateValue) (hc : c.prop = p)
    (hcalls : callsFor p ops = callsFor p ops')
    (hexp : NoExpiry (ops ++ [.updateValue c])) (hexp' : NoExpiry (ops' ++ [.updateValue c]))
    (hiso : OnlyFor p ops ∧ OnlyFor p ops' ∨
      Isolated p h (ops ++ [.updateValue c]) ∧ Isolated p h (ops' ++ [.updateValue c])) :
    SameSelection (sys.run base (ops ++ [.updateValue c]))
      (sys.run base (ops' ++ [.updateValue c])) id := by
  have hrun := (hlive.run base (ops ++ [.updateValue c])).live
  have hrun' := (hlive.run base (ops' ++ [.updateValue c])).live
  rw [hempty] at hrun hrun'
  refine ⟨_, _, hrun, hrun', ?_⟩
  obtain ⟨honly, honly'⟩ | ⟨hiso, hiso'⟩ := hiso
  · have hsame : ops = ops' := by
      rw [honly.eq_callsFor, honly'.eq_callsFor, hcalls]
    rw [hsame]
    exact fun _ => Iff.rfl
  · exact PublishNamespaceHandler.selected_after_eq base hreg hprop hc hcalls hexp hexp' hiso hiso'

/-- A handler of connection 5 that may select one of the tracks 1 and 2 by property 100. -/
def oneOfTwo : PublishNamespaceHandler :=
  { nsHash := 1, connectionId := 5, propertyType := some 100,
    publishedTracks := (∅ : ExtTreeMap TrackAlias ActiveTrack).insert 1 ⟨0, .paused⟩ |>.insert 2
      ⟨0, .paused⟩,
    handlers := (∅ : ExtTreeSet TrackAlias).insert 1 |>.insert 2 }

def oneOfTwoSystem : RankingSystem :=
  { nsHandlers := (∅ : ExtTreeMap UInt64 (ExtTreeMap UInt64 HandlerId)).insert 1
      ((∅ : ExtTreeMap UInt64 HandlerId).insert 5 0),
    live := (∅ : ExtTreeMap HandlerId PublishNamespaceHandler).insert 0 oneOfTwo }

theorem registers_oneOfTwo : oneOfTwoSystem.Registers 0 oneOfTwo := by
  refine ⟨by decide +kernel, by decide +kernel, fun nsHash conn hat => ?_⟩
  have hmem := ExtTreeMap.mem_entries₂.mpr hat
  have hentries : oneOfTwoSystem.nsHandlers.entries₂ = [((1, 5), 0)] := by decide +kernel
  rw [hentries] at hmem
  simpa [oneOfTwo] using hmem

theorem registered_oneOfTwo : oneOfTwo.Registered := by
  intro ta hta
  simp only [PublishNamespaceHandler.statusOf, oneOfTwo, ExtTreeMap.getElem?_insert,
    LawfulEqCmp.compare_eq_iff_eq] at hta
  simp only [oneOfTwo, ExtTreeSet.contains_insert, Bool.or_eq_true, beq_iff_eq,
    LawfulEqCmp.compare_eq_iff_eq]
  grind

/-- A call for property 200 names the unpublished track 7. -/
theorem sameSelection_of_isolated_unpublished :
    let a : Op := .updateValue ⟨1, 100, 500, 1000, 9⟩
    let b : Op := .updateValue ⟨7, 200, 900, 1010, 9⟩
    let c : Op := .updateValue ⟨2, 100, 600, 1020, 9⟩
    ((oneOfTwoSystem.run (fun _ s => s) [a, b, c]).live[0]?.bind fun h => h.statusOf 2) =
        some .ok ∧
      SameSelection (oneOfTwoSystem.run (fun _ s => s) [a, c])
        (oneOfTwoSystem.run (fun _ s => s) [a, b, c]) 0 := by
  refine ⟨by decide +kernel, ?_⟩
  refine sameSelection_of_isolated _ _ 0 oneOfTwo registers_oneOfTwo rfl registered_oneOfTwo 100 rfl
    [.updateValue ⟨1, 100, 500, 1000, 9⟩]
    [.updateValue ⟨1, 100, 500, 1000, 9⟩, .updateValue ⟨7, 200, 900, 1010, 9⟩]
    ⟨2, 100, 600, 1020, 9⟩ rfl (by decide) (by decide +kernel) (by decide +kernel)
    (.inr ⟨⟨?_, by decide, ?_⟩, ⟨?_, by decide, ?_⟩⟩)
  · have : EveryCall (fun before c =>
        (TrackRanking.run before).orderedTracks[(c.prop, c.value)]? = none)
        [.updateValue ⟨1, 100, 500, 1000, 9⟩, .updateValue ⟨2, 100, 600, 1020, 9⟩] := by
      decide +kernel
    exact this.mono fun _ _ => .inl
  · exact .inr (by unfold NamesOwn; simp)
  · have : EveryCall (fun before c =>
        (TrackRanking.run before).orderedTracks[(c.prop, c.value)]? = none)
        [.updateValue ⟨1, 100, 500, 1000, 9⟩, .updateValue ⟨7, 200, 900, 1010, 9⟩,
          .updateValue ⟨2, 100, 600, 1020, 9⟩] := by
      decide +kernel
    exact this.mono fun _ _ => .inl
  · refine .inr ?_
    intro c hc hother
    simp only [List.cons_append, List.nil_append, List.mem_cons, Op.updateValue.injEq,
      List.not_mem_nil, or_false] at hc
    rcases hc with rfl | rfl | rfl
    · exact absurd rfl hother
    · decide +kernel
    · exact absurd rfl hother

/-- A call for property 200 makes track 2 the selected one. -/
theorem not_sameSelection :
    ¬ ∀ (base : BasePublish) (sys : RankingSystem) (id : HandlerId) (h : PublishNamespaceHandler),
      sys.Registers id h → sys.ranking = {} → h.Registered → ∀ p, h.propertyType = some p →
      ∀ (ops ops' : List Op) (c : UpdateValue), c.prop = p → callsFor p ops = callsFor p ops' →
        callsFor p ops ≠ [] → NoExpiry (ops ++ [.updateValue c]) →
        NoExpiry (ops' ++ [.updateValue c]) →
        SameSelection (sys.run base (ops ++ [.updateValue c]))
          (sys.run base (ops' ++ [.updateValue c])) id := by
  intro hall
  obtain ⟨h, h', hlive, hlive', hsel⟩ := hall (fun _ s => s) oneOfTwoSystem 0 oneOfTwo
    registers_oneOfTwo rfl registered_oneOfTwo 100 rfl
    [.updateValue ⟨1, 100, 500, 1000, 9⟩]
    [.updateValue ⟨1, 100, 500, 1000, 9⟩, .updateValue ⟨2, 200, 900, 1010, 9⟩]
    ⟨1, 100, 500, 1020, 9⟩ rfl (by decide) (by decide) (by decide +kernel) (by decide +kernel)
  have hok : h.statusOf 1 = some .ok := by
    have : ((oneOfTwoSystem.run (fun _ s => s) ([.updateValue ⟨1, 100, 500, 1000, 9⟩] ++
      [.updateValue ⟨1, 100, 500, 1020, 9⟩])).live[0]?.bind fun h => h.statusOf 1) = some .ok := by
      decide +kernel
    rwa [hlive] at this
  have hpaused : h'.statusOf 1 = some .paused := by
    have : ((oneOfTwoSystem.run (fun _ s => s) ([.updateValue ⟨1, 100, 500, 1000, 9⟩,
      .updateValue ⟨2, 200, 900, 1010, 9⟩] ++
      [.updateValue ⟨1, 100, 500, 1020, 9⟩])).live[0]?.bind fun h => h.statusOf 1) =
        some .paused := by
      decide +kernel
    rwa [hlive'] at this
  have hone := hsel 1
  rw [PublishNamespaceHandler.selected_iff, PublishNamespaceHandler.selected_iff, hok,
    hpaused] at hone
  simp at hone

end Laps.Ranking
