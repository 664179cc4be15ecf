import Laps.Ranking.Feed

/-! The ranking that the handlers feed, compared with one that every received value is sent to.  A
value is never older than the refresh interval, and while no track expires the tracks are in the
same order. -/

namespace Laps.Ranking

open Std

/-! ### The last call for a property of a track -/

def lastUpdate (ops : List Op) (p : PropertyType) (ta : TrackAlias) : Option UpdateValue :=
  ops.reverse.findSome? fun
    | .updateValue c => if c.prop = p ∧ c.trackAlias = ta then some c else none
    | .setInactiveAge _ => none

theorem lastUpdate_updateValue (ops : List Op) (c : UpdateValue) (p : PropertyType)
    (ta : TrackAlias) : lastUpdate (ops ++ [.updateValue c]) p ta =
      if p = c.prop ∧ ta = c.trackAlias then some c else lastUpdate ops p ta := by
  by_cases h : p = c.prop ∧ ta = c.trackAlias
  · simp [lastUpdate, h]
  · have h' : ¬(c.prop = p ∧ c.trackAlias = ta) := fun h' => h ⟨h'.1.symm, h'.2.symm⟩
    simp [lastUpdate, h, h']

@[simp] theorem lastUpdate_setInactiveAge (ops : List Op) (ageMs : UInt64) :
    lastUpdate (ops ++ [.setInactiveAge ageMs]) = lastUpdate ops := by
  funext p ta
  simp [lastUpdate]

/-- The last call is the last one of its key. -/
theorem last_eq_lastUpdate (ops : List Op) (p : PropertyType) (ta : TrackAlias) :
    refreshThrottle.last ops (some (p, ta)) = (lastUpdate ops p ta).map .updateValue := by
  induction ops using List.reverseRecOn with
  | nil => rfl
  | append_singleton ops op ih =>
    rw [Throttle.last_concat, ih]
    cases op with
    | updateValue c =>
      rw [lastUpdate_updateValue]
      by_cases h : p = c.prop ∧ ta = c.trackAlias
      · rw [if_pos h, h.1, h.2]
        exact if_pos rfl
      · rw [if_neg h, if_neg]
        rintro hkey
        cases hkey
        exact h ⟨rfl, rfl⟩
    | setInactiveAge ageMs =>
      rw [lastUpdate_setInactiveAge]
      exact if_neg fun hkey => by cases hkey

/-- What the plain ranking has of a track is from its last call. -/
theorem lastUpdate_of_ranks {ops : List Op} {p : PropertyType} {ta : TrackAlias} {rank : Rank}
    (h : (PlainRanking.run ops).ranks p ta = some rank) :
    ∃ c, lastUpdate ops p ta = some c ∧ rank.value = c.value.toNat ∧
      rank.latestTick = c.tick.toNat := by
  induction ops using List.reverseRecOn with
  | nil => cases h
  | append_singleton ops op ih =>
    rw [PlainRanking.run_concat] at h
    cases op with
    | setInactiveAge ageMs =>
      rw [lastUpdate_setInactiveAge]
      exact ih h
    | updateValue c =>
      rw [lastUpdate_updateValue]
      split
      · rename_i hown
        obtain ⟨rfl, rfl⟩ := hown
        rw [PlainRanking.step, ranks_updateValue_own, Option.some.injEq] at h
        refine ⟨c, rfl, ?_, ?_⟩
        · rw [← h]
          exact value_updated _ _ _
        · rw [← h]
          exact latestTick_updated _ _ _
      · rename_i hother
        exact ih (ranks_updateValue_other hother h)

/-! ### The throttled calls -/

section Throttled

variable {xs : List Op} {p : PropertyType} {ta : TrackAlias}

/-- After every received value, one that was sent is the same and not much older. -/
theorem exists_lastUpdate_pass (h : refreshThrottle.Ordered xs) {c : UpdateValue}
    (hc : lastUpdate xs p ta = some c) : ∃ l, lastUpdate (refreshThrottle.pass xs) p ta = some l ∧
      l.value = c.value ∧ l.tick.toNat ≤ c.tick.toNat ∧ c.tick.toNat ≤ l.tick.toNat + 120 := by
  have hlast : refreshThrottle.last xs (some (p, ta)) = some (.updateValue c) := by
    rw [last_eq_lastUpdate, hc]
    rfl
  obtain ⟨op, hop, hle, hsoon, hsame⟩ := Throttle.exists_last_pass h hlast
  rw [last_eq_lastUpdate, Option.map_eq_some_iff] at hop
  obtain ⟨l, hl, rfl⟩ := hop
  refine ⟨l, hl, ?_, hle, hsoon⟩
  rcases hsame with hsame | hsame
  · cases hsame
    rfl
  · exact bne_eq_false_iff_eq.mp hsame

theorem exists_lastUpdate_of_pass (h : refreshThrottle.Ordered xs) {l : UpdateValue}
    (hl : lastUpdate (refreshThrottle.pass xs) p ta = some l) :
    ∃ c, lastUpdate xs p ta = some c ∧
      l.value = c.value ∧ l.tick.toNat ≤ c.tick.toNat ∧ c.tick.toNat ≤ l.tick.toNat + 120 := by
  have hlast : refreshThrottle.last (refreshThrottle.pass xs) (some (p, ta)) =
      some (.updateValue l) := by
    rw [last_eq_lastUpdate, hl]
    rfl
  have hsome := Throttle.last_isSome_of_pass hlast
  rw [last_eq_lastUpdate, Option.isSome_map] at hsome
  obtain ⟨c, hc⟩ := Option.isSome_iff_exists.mp hsome
  obtain ⟨l', hl', hsame⟩ := exists_lastUpdate_pass h hc
  rw [hl, Option.some.injEq] at hl'
  exact ⟨c, hc, hl' ▸ hsame⟩

theorem updateCount_pass_le (xs : List Op) : updateCount (refreshThrottle.pass xs) ≤ updateCount xs :=
  (Throttle.pass_sublist xs).countP_le

@[simp] theorem inactiveAgeMs_updateValue (r : TrackRanking) (c : UpdateValue) :
    (r.updateValue c).inactiveAgeMs = r.inactiveAgeMs := rfl

/-- Both rankings have the same inactive age. -/
theorem inactiveAgeMs_pass (xs : List Op) :
    (TrackRanking.run (refreshThrottle.pass xs)).inactiveAgeMs =
      (TrackRanking.run xs).inactiveAgeMs := by
  induction xs using List.reverseRecOn with
  | nil => rfl
  | append_singleton xs op ih =>
    rw [Throttle.pass_concat, TrackRanking.run_concat]
    cases op with
    | setInactiveAge ageMs =>
      rw [if_pos (passes_setInactiveAge _ _), TrackRanking.run_concat]
      rfl
    | updateValue c =>
      split
      · rw [TrackRanking.run_concat]
        exact ih
      · exact ih

end Throttled

/-! ### A recent value is ranked -/

theorem le_inactiveAgeMs {ops : List Op} {a : ℕ} (ha : a ≤ 10000)
    (hages : ∀ ageMs, .setInactiveAge ageMs ∈ ops → a ≤ ageMs.toNat) :
    a ≤ (PlainRanking.run ops).inactiveAgeMs := by
  induction ops using List.reverseRecOn with
  | nil => exact ha
  | append_singleton ops op ih =>
    rw [PlainRanking.run_concat]
    cases op with
    | setInactiveAge ageMs => exact hages ageMs (by simp)
    | updateValue c => exact ih fun ageMs hmem => hages ageMs (by simp [hmem])

/-- A track stays ranked while no call comes long after its last one. -/
theorem ranked_of_recent {ops : List Op} {a : ℕ} (ha : a ≤ 10000)
    (hages : ∀ ageMs, .setInactiveAge ageMs ∈ ops → a ≤ ageMs.toNat) {p : PropertyType}
    {ta : TrackAlias} {l : UpdateValue} (hl : lastUpdate ops p ta = some l)
    (hrecent : ∀ c, .updateValue c ∈ ops → c.tick.toNat ≤ l.tick.toNat + a) :
    ((PlainRanking.run ops).ranks p ta).isSome := by
  induction ops using List.reverseRecOn with
  | nil => cases hl
  | append_singleton ops op ih =>
    have hages' : ∀ ageMs, .setInactiveAge ageMs ∈ ops → a ≤ ageMs.toNat :=
      fun ageMs hmem => hages ageMs (by simp [hmem])
    have hrecent' : ∀ c, .updateValue c ∈ ops → c.tick.toNat ≤ l.tick.toNat + a :=
      fun c hmem => hrecent c (by simp [hmem])
    rw [PlainRanking.run_concat]
    cases op with
    | setInactiveAge ageMs =>
      rw [lastUpdate_setInactiveAge] at hl
      exact ih hages' hl hrecent'
    | updateValue c =>
      rw [lastUpdate_updateValue] at hl
      split at hl
      · rename_i hown
        rw [hown.1, hown.2, PlainRanking.step, ranks_updateValue_own]
        rfl
      · rename_i hother
        obtain ⟨rank, hrank⟩ := Option.isSome_iff_exists.mp (ih hages' hl hrecent')
        obtain ⟨l', hl', -, htick⟩ := lastUpdate_of_ranks hrank
        rw [hl, Option.some.injEq] at hl'
        subst hl'
        have hage := le_inactiveAgeMs ha hages'
        have hc := hrecent c (by simp)
        have hlive : ¬rank.Expired (PlainRanking.run ops).inactiveAgeMs c.tick.toNat := by
          rintro ⟨-, hold⟩
          omega
        simp [PlainRanking.step, PlainRanking.updateValue, PlainRanking.assigned, hother, hrank,
          hlive]

/-! ### The calls of a property of a track -/

/-- The calls for the property that name the track. -/
def callsWith (ops : List Op) (p : PropertyType) (ta : TrackAlias) : List UpdateValue :=
  (callsFor p ops).filter fun c => c.trackAlias = ta

theorem callsWith_updateValue (c : UpdateValue) (p : PropertyType) (ta : TrackAlias) :
    callsWith [.updateValue c] p ta = if c.prop = p ∧ c.trackAlias = ta then [c] else [] := by
  unfold callsWith
  by_cases hp : c.prop = p
  · rw [callsFor_updateValue hp]
    by_cases hta : c.trackAlias = ta <;> simp [hp, hta]
  · rw [callsFor_other hp]
    simp [hp]

theorem filter_key_eq (ops : List Op) (p : PropertyType) (ta : TrackAlias) :
    ops.filter (fun op => refreshThrottle.key op = some (p, ta)) =
      (callsWith ops p ta).map .updateValue := by
  induction ops with
  | nil => rfl
  | cons op ops ih =>
    have hcons : callsWith (op :: ops) p ta = callsWith [op] p ta ++ callsWith ops p ta := by
      rw [callsWith, callsWith, callsWith, ← List.filter_append, ← callsFor_append]
      rfl
    rw [List.filter_cons, ih, hcons, List.map_append]
    cases op with
    | setInactiveAge ageMs => rfl
    | updateValue c =>
      rw [callsWith_updateValue]
      by_cases h : c.prop = p ∧ c.trackAlias = ta
      · rw [if_pos h, if_pos (by simp [refreshThrottle, h])]
        rfl
      · rw [if_neg h, if_neg (by simpa [refreshThrottle] using h)]
        rfl

/-- A value that has not changed is sent again after the interval. -/
theorem isChain_callsWith_pass (xs : List Op) (p : PropertyType) (ta : TrackAlias) :
    (callsWith (refreshThrottle.pass xs) p ta).IsChain fun c c' =>
      c.value ≠ c'.value ∨ c.tick.toNat + 120 < c'.tick.toNat := by
  have hchain := Throttle.isChain_pass (t := refreshThrottle) xs (some (p, ta))
  rw [filter_key_eq, List.isChain_map] at hchain
  exact hchain.imp fun c c' hfollows => hfollows.imp_left bne_iff_ne.mp

/-! ### Fresh values -/

section Fresh

variable {ι : Type*} [DecidableEq ι] {q : Quicr} {handlers : ι → SubscribeTrackHandler}
  {events : List (FeedEvent ι)} (uintVar : List UInt8 → Option UInt64) (connectionId : ι → UInt64)

/-- What the ranking has of a track is the value that was received last, at most the refresh
interval before that; a value that was received recently is ranked.  A value is sent when it has
changed, or when the last one is older than the interval. -/
theorem feed_fresh (h : FeedRun q handlers events)
    (hcount : updateCount (plainFeed q uintVar connectionId handlers events) < 2 ^ 63)
    (p : PropertyType) (ta : TrackAlias) :
    (∀ v info, trackAt (TrackRanking.run (feed q uintVar connectionId handlers events)).orderedTracks
        p v ta = some info →
      ∃ c, lastUpdate (plainFeed q uintVar connectionId handlers events) p ta = some c ∧
        v = c.value ∧ info.latestTick ≤ c.tick ∧ c.tick.toNat ≤ info.latestTick.toNat + 120) ∧
    (∀ a ≤ 10000, (∀ ageMs,
        .setInactiveAge ageMs ∈ plainFeed q uintVar connectionId handlers events → a ≤ ageMs.toNat) →
      ∀ c, lastUpdate (plainFeed q uintVar connectionId handlers events) p ta = some c →
        (∀ c', .updateValue c' ∈ plainFeed q uintVar connectionId handlers events →
          c'.tick.toNat + 120 ≤ c.tick.toNat + a) →
        ∃ info, trackAt
          (TrackRanking.run (feed q uintVar connectionId handlers events)).orderedTracks p c.value ta =
            some info) ∧
    (callsWith (feed q uintVar connectionId handlers events) p ta).IsChain fun c c' =>
      c.value ≠ c'.value ∨ c.tick.toNat + 120 < c'.tick.toNat := by
  obtain ⟨hpass, hordered, -⟩ := feed_eq_pass uintVar connectionId h
  rw [hpass]
  set xs := plainFeed q uintVar connectionId handlers events with hxs
  have hlt : updateCount (refreshThrottle.pass xs) < 2 ^ 63 :=
    Nat.lt_of_le_of_lt (updateCount_pass_le xs) hcount
  have hrep := (refines_run (refreshThrottle.pass xs) hlt).1.represents
  refine ⟨fun v info hinfo => ?_, fun a ha hages c hc hrecent => ?_, isChain_callsWith_pass xs p ta⟩
  · obtain ⟨l, hl, hvalue, htick⟩ := lastUpdate_of_ranks ((hrep p ta _).mpr ⟨v, info, hinfo, rfl⟩)
    obtain ⟨c, hc, hsame, hle, hsoon⟩ := exists_lastUpdate_of_pass hordered hl
    have hv : v = l.value := UInt64.toNat_inj.mp hvalue
    have ht : info.latestTick.toNat = l.tick.toNat := htick
    refine ⟨c, hc, hv.trans hsame, UInt64.le_iff_toNat_le.mpr ?_, ?_⟩
    · rw [ht]
      exact hle
    · rw [ht]
      exact hsoon
  · obtain ⟨l, hl, hsame, hle, hsoon⟩ := exists_lastUpdate_pass hordered hc
    have hranked := ranked_of_recent ha
      (fun ageMs hmem => hages ageMs (Throttle.mem_of_mem_pass hmem)) hl fun c' hmem => by
        have := hrecent c' (Throttle.mem_of_mem_pass hmem)
        omega
    obtain ⟨rank, hrank⟩ := Option.isSome_iff_exists.mp hranked
    obtain ⟨l', hl', hvalue, -⟩ := lastUpdate_of_ranks hrank
    rw [hl, Option.some.injEq] at hl'
    subst hl'
    have hstored := hrep.trackAt_of_value hrank (hvalue.trans (congrArg UInt64.toNat hsame))
    exact Option.isSome_iff_exists.mp hstored

/-- Two tracks, each with its first value twice: the first one has it again too soon. -/
def twoTracksFeed : List (FeedEvent Bool) :=
  let value : Option Extensions := some ((∅ : Extensions).insert 12 [[5]])
  [.objectReceived false 200 value none, .objectReceived false 250 value none,
    .objectReceived true 260 value none, .objectReceived true 400 value none]

/-- The handlers of the tracks. -/
def twoTracksHandlers (i : Bool) : SubscribeTrackHandler :=
  { fullTrackName := ⟨[[1]], [if i then 1 else 2]⟩, trackRanking := some ⟨0, 0⟩ }

theorem feedRun_twoTracks : FeedRun Quicr.polynomial twoTracksHandlers twoTracksFeed := by
  have hticks : objectTicks twoTracksFeed = [200, 250, 260, 400] := rfl
  refine ⟨fun i prop value hvalue => ?_, by decide, ?_, ?_⟩
  · simp only [twoTracksHandlers, ExtTreeMap.getElem?_insert_ite] at hvalue
    split at hvalue
    · exact (Option.some.inj hvalue).symm
    · simp at hvalue
  · rw [hticks]
    simp [kRefreshRankingIntervalMs]
  · rw [hticks]
    simp

/-- Values of a single byte. -/
def byteValue (bytes : List UInt8) : Option UInt64 := bytes.head?.map UInt8.toUInt64

/-- Of four values three are sent. -/
theorem feed_fresh_twoTracks :
    let calls := feed Quicr.polynomial byteValue (fun i => if i then 7 else 8) twoTracksHandlers
      twoTracksFeed
    calls.length = 3 ∧ ∃ info, trackAt (TrackRanking.run calls).orderedTracks 12 5
      ((twoTracksHandlers false).trackAlias Quicr.polynomial) = some info := by
  set xs := plainFeed Quicr.polynomial byteValue (fun i => if i then 7 else 8) twoTracksHandlers
    twoTracksFeed with hxs
  have hcalls : ∀ op ∈ xs, op ∈ (callsOf xs).map .updateValue := by decide +kernel
  have hticks : ∀ c ∈ callsOf xs, c.tick ≤ 400 := by decide +kernel
  have hfresh := feed_fresh byteValue (fun i => if i then 7 else 8) feedRun_twoTracks
    (by decide +kernel) 12 ((twoTracksHandlers false).trackAlias Quicr.polynomial)
  refine ⟨by decide +kernel, hfresh.2.1 9000 (by decide) (fun ageMs hmem => ?_)
    ⟨(twoTracksHandlers false).trackAlias Quicr.polynomial, 12, 5, 250, 8⟩ (by decide +kernel)
    fun c hmem => ?_⟩
  · obtain ⟨c, -, hc⟩ := List.mem_map.mp (hcalls _ hmem)
    cases hc
  · obtain ⟨c', hc', heq⟩ := List.mem_map.mp (hcalls _ hmem)
    cases heq
    have hle : c.tick.toNat ≤ 400 := UInt64.le_iff_toNat_le.mp (hticks c hc')
    show c.tick.toNat + 120 ≤ 250 + 9000
    omega

end Fresh

/-! ### The same order -/

theorem value_placeAll (ops : List Op) (p : PropertyType) (ta : TrackAlias) :
    ((PlainRanking.placeAll (callsOf ops)).ranks p ta).map Rank.value =
      (lastUpdate ops p ta).map fun c => c.value.toNat := by
  induction ops using List.reverseRecOn with
  | nil => rfl
  | append_singleton ops op ih =>
    cases op with
    | setInactiveAge ageMs =>
      have hcalls : callsOf (ops ++ [.setInactiveAge ageMs]) = callsOf ops := by simp [callsOf]
      rw [lastUpdate_setInactiveAge, hcalls, ih]
    | updateValue c =>
      have hcalls : callsOf (ops ++ [.updateValue c]) = callsOf ops ++ [c] := by simp [callsOf]
      rw [lastUpdate_updateValue, hcalls, PlainRanking.placeAll_concat, PlainRanking.place]
      dsimp only
      rw [PlainRanking.assigned]
      split
      · rw [Option.map_some, Option.map_some, value_updated]
      · exact ih

/-- A call with the value that the track has does not change the order. -/
theorem SameOrder.refresh {f : TrackAlias → Option Rank} {m : PlainRanking} {c : UpdateValue}
    (h : SameOrder f (m.ranks c.prop))
    (hvalue : (m.ranks c.prop c.trackAlias).map Rank.value = some c.value.toNat) :
    SameOrder f ((m.place c).ranks c.prop) := by
  obtain ⟨old, hold, hv⟩ := Option.map_eq_some_iff.mp hvalue
  have hnew : ∀ ta, (m.place c).ranks c.prop ta =
      if ta = c.trackAlias then some { old with latestTick := c.tick.toNat }
      else m.ranks c.prop ta := by
    intro ta
    rw [ranks_place, hold, Rank.updated, if_pos hv]
  have hseq : ∀ ta rank, (m.place c).ranks c.prop ta = some rank →
      ∃ before, m.ranks c.prop ta = some before ∧ before.insertSeqNum = rank.insertSeqNum := by
    intro ta rank hrank
    rw [hnew] at hrank
    split at hrank
    · rename_i hta
      cases hrank
      exact ⟨old, hta ▸ hold, rfl⟩
    · exact ⟨rank, hrank, rfl⟩
  refine ⟨fun ta => ?_, fun ta tb ra rb ra' rb' hra hrb hra' hrb' => ?_⟩
  · rw [h.value ta, hnew]
    split
    · rename_i hta
      rw [hta, hold]
      rfl
    · rfl
  · obtain ⟨a, ha, hra'⟩ := hseq ta ra' hra'
    obtain ⟨b, hb, hrb'⟩ := hseq tb rb' hrb'
    rw [← hra', ← hrb']
    exact h.seq ta tb ra rb a b hra hrb ha hb

theorem ranks_place_other {m : PlainRanking} {c : UpdateValue} {p : PropertyType}
    (h : c.prop ≠ p) : (m.place c).ranks p = m.ranks p := by
  funext ta
  simp [PlainRanking.place, PlainRanking.assigned, Ne.symm h]

/-- What the throttle holds back has no influence on the order. -/
theorem sameOrder_pass {xs : List Op} (h : refreshThrottle.Ordered xs)
    (hcount : updateCount xs < 2 ^ 63) (p : PropertyType) :
    SameOrder ((PlainRanking.placeAll (callsOf (refreshThrottle.pass xs))).ranks p)
      ((PlainRanking.placeAll (callsOf xs)).ranks p) := by
  induction xs using List.reverseRecOn with
  | nil => exact ⟨fun _ => rfl, fun _ _ _ _ _ _ hra => by cases hra⟩
  | append_singleton xs op ih =>
    cases op with
    | setInactiveAge ageMs =>
      have hcalls : ∀ ops, callsOf (ops ++ [.setInactiveAge ageMs]) = callsOf ops := by
        simp [callsOf]
      have hsame : updateCount (xs ++ [.setInactiveAge ageMs]) = updateCount xs := by
        simp [updateCount]
      rw [hsame] at hcount
      rw [Throttle.pass_concat, if_pos (passes_setInactiveAge _ _), hcalls, hcalls]
      exact ih h.of_concat hcount
    | updateValue c =>
      have hcalls : ∀ ops, callsOf (ops ++ [.updateValue c]) = callsOf ops ++ [c] := by
        simp [callsOf]
      rw [updateCount_updateValue] at hcount
      have ih := ih h.of_concat (by omega)
      rw [hcalls, PlainRanking.placeAll_concat, Throttle.pass_concat]
      by_cases hp : c.prop = p
      · subst hp
        cases hpasses : refreshThrottle.passes (refreshThrottle.pass xs) (.updateValue c) with
        | true =>
          have hle := updateCount_pass_le xs
          rw [if_pos rfl, hcalls, PlainRanking.placeAll_concat]
          refine ih.place ?_ ?_ ?_ ?_
          · rw [updates_placeAll]
            exact seqBound_placeAll _ _
          · rw [updates_placeAll]
            exact seqBound_placeAll _ _
          · rw [updates_placeAll, length_callsOf]
            omega
          · rw [updates_placeAll, length_callsOf]
            omega
        | false =>
          rw [if_neg Bool.false_ne_true]
          refine ih.refresh ?_
          -- the value that was sent last is that of the call, and the one received last
          obtain ⟨op, hlast, hcalm, -⟩ := Throttle.exists_last_of_not_passes hpasses
          have hkey : refreshThrottle.key (.updateValue c) = some (c.prop, c.trackAlias) := rfl
          rw [hkey, last_eq_lastUpdate, Option.map_eq_some_iff] at hlast
          obtain ⟨l, hl, rfl⟩ := hlast
          obtain ⟨c', hc', hsame, -⟩ := exists_lastUpdate_of_pass h.of_concat hl
          have hvalue : l.value = c.value := bne_eq_false_iff_eq.mp hcalm
          rw [value_placeAll, hc', Option.map_some, ← hsame, hvalue]
      · rw [ranks_place_other hp]
        split
        · rw [hcalls, PlainRanking.placeAll_concat, ranks_place_other hp]
          exact ih
        · exact ih

/-- No call comes so late that a track is inactive, with `slack` to spare. -/
def Steady (slack : ℕ) (ops : List Op) : Prop :=
  EveryCall (fun before c => ∀ p ta c', lastUpdate before p ta = some c' →
    c.tick.toNat + slack ≤ c'.tick.toNat + (TrackRanking.run before).inactiveAgeMs.toNat) ops

theorem Steady.noExpiry {ops : List Op} {slack : ℕ} (h : Steady slack ops)
    (hcount : updateCount ops < 2 ^ 63) : NoExpiry ops := by
  rintro before c after rfl
  have hbefore : updateCount before + 1 ≤ updateCount (before ++ .updateValue c :: after) := by
    rw [updateCount, updateCount, List.countP_append, List.countP_cons_of_pos rfl]
    omega
  obtain ⟨href, hupdates⟩ := refines_run before (by omega)
  have hplaced := href.represents.placed href.wellFormed c (href.toNat_seqNum_succ (by omega))
    (by omega)
  rw [← Bool.not_eq_true, hasInactive_iff]
  rintro ⟨p, v, ta, info, hinfo, hinactive⟩
  rw [isInactive_iff (v := v)] at hinactive
  have hrank := (hplaced p ta _).mpr ⟨v, info, hinfo, rfl⟩
  rw [PlainRanking.assigned] at hrank
  split at hrank
  · have htick : (info.rank v).latestTick = c.tick.toNat := by
      rw [← Option.some.inj hrank, latestTick_updated]
    have hold := hinactive.2
    omega
  · obtain ⟨c', hc', -, htick⟩ := lastUpdate_of_ranks hrank
    have hsoon := h before c after rfl p ta c' hc'
    have hold := hinactive.2
    omega

theorem Steady.pass {xs : List Op} (h : Steady 120 xs) (hordered : refreshThrottle.Ordered xs) :
    Steady 0 (refreshThrottle.pass xs) := by
  induction xs using List.reverseRecOn with
  | nil =>
    intro before c after hnil
    simp at hnil
  | append_singleton xs op ih =>
    obtain ⟨hxs, hop⟩ := everyCall_concat.mp h
    have ih := ih hxs hordered.of_concat
    rw [Throttle.pass_concat]
    split
    · refine everyCall_concat.mpr ⟨ih, ?_⟩
      rintro c rfl p ta l hl
      obtain ⟨c', hc', -, -, hsoon⟩ := exists_lastUpdate_of_pass hordered.of_concat hl
      have hage := hop c rfl p ta c' hc'
      rw [inactiveAgeMs_pass]
      omega
    · exact ih

/-- The aliases of a property in rank order, when nothing expires. -/
theorem rankedAliases_rebuild {ops : List Op} (hcount : updateCount ops < 2 ^ 63)
    (hexpiry : NoExpiry ops) (p : PropertyType) :
    RankedAliases ((PlainRanking.placeAll (callsOf ops)).ranks p)
      ((rebuildFlatList (TrackRanking.run ops).orderedTracks (TrackRanking.run ops).trackConnections
        p).map FlatTrack.trackAlias) := by
  have hrep := (refines_run ops hcount).1.represents
  rw [(plain_run_eq_placeAll ops hcount hexpiry).1] at hrep
  refine (isRankedList_rebuild_run ops p).rankedAliases (wellFormed_run ops) hrep
    fun v ta info hinfo => ?_
  rw [← trackConnections_run]
  exact ExtTreeMap.contains_iff_getElem?.mp (contains_trackConnections_run ops hinfo)

theorem exists_of_lastConnection {ops : List Op} {ta : TrackAlias} {conn : UInt64}
    (h : lastConnection ops ta = some conn) :
    ∃ c, .updateValue c ∈ ops ∧ c.trackAlias = ta ∧ c.connectionId = conn := by
  obtain ⟨op, hop, hc⟩ := List.exists_of_findSome?_eq_some h
  rw [List.mem_reverse] at hop
  cases op with
  | setInactiveAge ageMs => cases hc
  | updateValue c =>
    dsimp only at hc
    split at hc
    · rename_i hta
      exact ⟨c, hop, hta, Option.some.inj hc⟩
    · cases hc

/-- A row has the connection of the handler whose track it is. -/
theorem connId_of_mem_rebuild {ι : Type*} {ops : List Op} {aliasOf : ι → TrackAlias}
    {connectionId : ι → UInt64} (hsources : ∀ c, .updateValue c ∈ ops →
      ∃ i, c.trackAlias = aliasOf i ∧ c.connectionId = connectionId i) {p : PropertyType}
    {row : FlatTrack} (hrow : row ∈ rebuildFlatList (TrackRanking.run ops).orderedTracks
      (TrackRanking.run ops).trackConnections p) :
    ∃ i, row.trackAlias = aliasOf i ∧ row.connId = connectionId i := by
  obtain ⟨⟨v, hv⟩, hconn⟩ := mem_rebuildFlatList.mp hrow
  obtain ⟨conn, hget⟩ :=
    ExtTreeMap.contains_iff_getElem?.mp (contains_trackConnections_run ops hv)
  obtain ⟨c, hc, hta, rfl⟩ := exists_of_lastConnection ((trackConnections_run ops _).symm.trans hget)
  obtain ⟨i, halias, hid⟩ := hsources c hc
  refine ⟨i, hta.symm.trans halias, ?_⟩
  rw [← hconn, ExtTreeMap.getD_eq_getD_getElem?, hget, Option.getD_some, hid]

theorem map_eq_map_of_map_eq {α β γ : Type*} {f : α → β} {g : α → γ} {l l' : List α}
    (h : l.map f = l'.map f) (hfg : ∀ a ∈ l, ∀ b ∈ l', f a = f b → g a = g b) :
    l.map g = l'.map g := by
  induction l generalizing l' with
  | nil =>
    rw [List.map_nil, eq_comm, List.map_eq_nil_iff] at h
    rw [h]
  | cons a l ih =>
    cases l' with
    | nil => cases h
    | cons b l' =>
      rw [List.map_cons, List.map_cons, List.cons.injEq] at h
      rw [List.map_cons, List.map_cons, hfg a (by simp) b (by simp) h.1,
        ih h.2 fun a ha b hb => hfg a (by simp [ha]) b (by simp [hb])]

section Order

variable {ι : Type*} [DecidableEq ι] {q : Quicr} {handlers : ι → SubscribeTrackHandler}
  {events : List (FeedEvent ι)} (uintVar : List UInt8 → Option UInt64) (connectionId : ι → UInt64)

/-- While no track comes close to being inactive, the ranking has the tracks in the order that it
would have them in if every value were sent, with ticks that are at most the interval behind. -/
theorem feed_order (h : FeedRun q handlers events)
    (hcount : updateCount (plainFeed q uintVar connectionId handlers events) < 2 ^ 63)
    (hsteady : Steady 120 (plainFeed q uintVar connectionId handlers events)) (p : PropertyType) :
    let r := TrackRanking.run (feed q uintVar connectionId handlers events)
    let r' := TrackRanking.run (plainFeed q uintVar connectionId handlers events)
    let rows := rebuildFlatList r.orderedTracks r.trackConnections p
    let rows' := rebuildFlatList r'.orderedTracks r'.trackConnections p
    (rows.map fun row => (row.trackAlias, row.connId)) =
        (rows'.map fun row => (row.trackAlias, row.connId)) ∧
      ∀ row ∈ rows, ∀ row' ∈ rows', row.trackAlias = row'.trackAlias →
        row.latestTick ≤ row'.latestTick ∧
          row'.latestTick.toNat ≤ row.latestTick.toNat + 120 := by
  obtain ⟨hpass, hordered, hsources⟩ := feed_eq_pass uintVar connectionId h
  rw [hpass]
  set xs := plainFeed q uintVar connectionId handlers events with hxs
  have hlt : updateCount (refreshThrottle.pass xs) < 2 ^ 63 :=
    Nat.lt_of_le_of_lt (updateCount_pass_le xs) hcount
  have haliases := rankedAliases_rebuild hlt ((hsteady.pass hordered).noExpiry hlt) p
  have haliases' := rankedAliases_rebuild hcount (hsteady.noExpiry hcount) p
  have hsame := ((sameOrder_pass hordered hcount p).rankedAliases haliases).unique haliases'
  intro r r' rows rows'
  refine ⟨map_eq_map_of_map_eq hsame fun row hrow row' hrow' heq => ?_,
    fun row hrow row' hrow' heq => ?_⟩
  · obtain ⟨i, hi, hconn⟩ := connId_of_mem_rebuild
      (fun c hc => hsources c (Throttle.mem_of_mem_pass hc)) hrow
    obtain ⟨i', hi', hconn'⟩ := connId_of_mem_rebuild hsources hrow'
    obtain rfl := h.aliases (hi.symm.trans (heq.trans hi'))
    rw [heq, hconn, hconn']
  · obtain ⟨⟨v, hv⟩, -⟩ := mem_rebuildFlatList.mp hrow
    obtain ⟨⟨v', hv'⟩, -⟩ := mem_rebuildFlatList.mp hrow'
    have hrep := (refines_run (refreshThrottle.pass xs) hlt).1.represents
    have hrep' := (refines_run xs hcount).1.represents
    obtain ⟨l, hl, -, htick⟩ := lastUpdate_of_ranks ((hrep p _ _).mpr ⟨v, _, hv, rfl⟩)
    obtain ⟨c, hc, -, htick'⟩ := lastUpdate_of_ranks ((hrep' p _ _).mpr ⟨v', _, hv', rfl⟩)
    obtain ⟨c', hc', -, hle, hsoon⟩ := exists_lastUpdate_of_pass hordered hl
    rw [heq, hc, Option.some.injEq] at hc'
    subst hc'
    rw [UInt64.le_iff_toNat_le, show row.latestTick.toNat = l.tick.toNat from htick,
      show row'.latestTick.toNat = c.tick.toNat from htick']
    exact ⟨hle, hsoon⟩

/-- Both tracks have the same value, and the one that had it first is before the other. -/
theorem feed_order_twoTracks :
    let r := TrackRanking.run (feed Quicr.polynomial byteValue (fun i => if i then 7 else 8)
      twoTracksHandlers twoTracksFeed)
    let r' := TrackRanking.run (plainFeed Quicr.polynomial byteValue (fun i => if i then 7 else 8)
      twoTracksHandlers twoTracksFeed)
    let rows := rebuildFlatList r.orderedTracks r.trackConnections 12
    let rows' := rebuildFlatList r'.orderedTracks r'.trackConnections 12
    rows.length = 2 ∧ (rows.map fun row => (row.trackAlias, row.connId)) =
      (rows'.map fun row => (row.trackAlias, row.connId)) := by
  have hcalls : EveryCall (fun before c => c.tick ≤ 400 ∧
      (TrackRanking.run before).inactiveAgeMs = 10000) (plainFeed Quicr.polynomial byteValue
        (fun i => if i then 7 else 8) twoTracksHandlers twoTracksFeed) := by decide +kernel
  refine ⟨by decide +kernel, (feed_order byteValue _ feedRun_twoTracks (by decide +kernel)
    (hcalls.mono fun before c hcall p ta c' _ => ?_) 12).1⟩
  have hle : c.tick.toNat ≤ 400 := UInt64.le_iff_toNat_le.mp hcall.1
  have hage : (10000 : UInt64).toNat = 10000 := rfl
  rw [hcall.2, hage]
  omega

end Order

end Laps.Ranking
