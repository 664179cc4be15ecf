import Laps.Lib.Throttle
import Laps.Ranking.Order
import Laps.Ranking.Wiring

/-! What a ranking is fed with.  The handler of a track takes the values of its tracked properties
from the objects that it receives, and sends a value on when it has changed, or when the last one
was sent more than `kRefreshRankingIntervalMs` ago. -/

namespace Laps.Ranking

open Std

/-- The extensions of an object: the values of each property. -/
abbrev Extensions := ExtTreeMap PropertyType (List (List UInt8))

def kRefreshRankingIntervalMs : UInt64 := 120

/-! ### The handler of a track -/

/-- The condition of the closure in `UpdateTrackedProperties`. -/
def TrackPropertyValue.refreshes (value : TrackPropertyValue) (recvValue curTick : UInt64) : Bool :=
  value.latestValue != recvValue || curTick - value.latestTickMs > kRefreshRankingIntervalMs

/-- The values that the object has of the properties.  Odd properties have no number; immutable
extensions come second.  `uintVar` reads a number, and nothing comes after one that it throws at. -/
def receivedValues (uintVar : List UInt8 → Option UInt64) (extensions : Extensions)
    (immutableExtensions : Option Extensions) :
    List PropertyType → List (PropertyType × PropertyValue)
  | [] => []
  | prop :: props =>
    if prop % 2 ≠ 0 then receivedValues uintVar extensions immutableExtensions props
    else
      match extensions[prop]?.or (immutableExtensions.bind fun immutable => immutable[prop]?) with
      | none => receivedValues uintVar extensions immutableExtensions props
      | some values =>
        match values.head?.bind uintVar with
        | none => []
        | some value =>
          (prop, value) :: receivedValues uintVar extensions immutableExtensions props

namespace SubscribeTrackHandler

/-- `GetTrackAlias`. -/
def trackAlias (q : Quicr) (h : SubscribeTrackHandler) : TrackAlias :=
  (q.trackHash h.fullTrackName).trackFullnameHash

/-- The closure `update`, with the condition as an argument: what becomes of the handler, and the
calls of `UpdateValue`. -/
def updateTrackedProperty (q : Quicr)
    (condition : TrackPropertyValue → UInt64 → UInt64 → Bool) (connectionId curTick : UInt64)
    (acc : SubscribeTrackHandler × List UpdateValue) (received : PropertyType × PropertyValue) :
    SubscribeTrackHandler × List UpdateValue :=
  match acc.1.trackedPropertiesValue[received.1]? with
  | none => acc
  | some value =>
    if condition value received.2 curTick then
      ({ acc.1 with
          trackedPropertiesValue :=
            acc.1.trackedPropertiesValue.insert received.1 ⟨received.2, curTick⟩ },
        acc.2 ++ acc.1.trackRanking.toList.map fun _ =>
          ⟨acc.1.trackAlias q, received.1, received.2, curTick, connectionId⟩)
    else acc

/-- `UpdateTrackedProperties`. -/
def updateTrackedProperties (q : Quicr) (uintVar : List UInt8 → Option UInt64)
    (condition : TrackPropertyValue → UInt64 → UInt64 → Bool) (connectionId curTick : UInt64)
    (extensions immutableExtensions : Option Extensions) (h : SubscribeTrackHandler) :
    SubscribeTrackHandler × List UpdateValue :=
  match extensions with
  | none => (h, [])
  | some extensions =>
    (receivedValues uintVar extensions immutableExtensions h.trackedPropertiesValue.keys).foldl
      (updateTrackedProperty q condition connectionId curTick) (h, [])

end SubscribeTrackHandler

/-! ### The handlers of a ranking -/

/-- The handlers of the tracks of a ranking, and what the ranking has been called with. -/
structure Feed (ι : Type*) where
  handlers : ι → SubscribeTrackHandler
  calls : List Op := []

inductive FeedEvent (ι : Type*) where
  /-- An object of a track comes in at the tick. -/
  | objectReceived (i : ι) (curTick : UInt64) (extensions immutableExtensions : Option Extensions)
  /-- A namespace is subscribed to that the track is in. -/
  | addSubscribeNamespace (i : ι) (handler : HandlerRef) (prop : PropertyType)
  /-- The filter of a namespace subscription changes the age at which tracks are inactive. -/
  | setInactiveAge (ageMs : UInt64)

section Feed

variable {ι : Type*} [DecidableEq ι]

def Feed.step (q : Quicr) (uintVar : List UInt8 → Option UInt64)
    (condition : TrackPropertyValue → UInt64 → UInt64 → Bool) (connectionId : ι → UInt64)
    (f : Feed ι) : FeedEvent ι → Feed ι
  | .objectReceived i curTick extensions immutableExtensions =>
    let updated := (f.handlers i).updateTrackedProperties q uintVar condition (connectionId i) curTick
      extensions immutableExtensions
    ⟨Function.update f.handlers i updated.1, f.calls ++ updated.2.map .updateValue⟩
  | .addSubscribeNamespace i handler prop =>
    { f with
      handlers :=
        Function.update f.handlers i ((f.handlers i).addSubscribeNamespace q handler prop) }
  | .setInactiveAge ageMs => { f with calls := f.calls ++ [.setInactiveAge ageMs] }

/-- The calls of the ranking in a run. -/
def feed (q : Quicr) (uintVar : List UInt8 → Option UInt64) (connectionId : ι → UInt64)
    (handlers : ι → SubscribeTrackHandler) (events : List (FeedEvent ι)) : List Op :=
  (events.foldl (Feed.step q uintVar TrackPropertyValue.refreshes connectionId) ⟨handlers, []⟩).calls

/-- The calls of the ranking if every value were sent on. -/
def plainFeed (q : Quicr) (uintVar : List UInt8 → Option UInt64) (connectionId : ι → UInt64)
    (handlers : ι → SubscribeTrackHandler) (events : List (FeedEvent ι)) : List Op :=
  (events.foldl (Feed.step q uintVar (fun _ _ _ => true) connectionId) ⟨handlers, []⟩).calls

end Feed

/-! ### The handlers are a throttle -/

/-- The calls of one property and track are held back for the interval while the value stays. -/
def refreshThrottle : Throttle Op (Option (PropertyType × TrackAlias)) where
  key
    | .updateValue c => some (c.prop, c.trackAlias)
    | .setInactiveAge _ => none
  time
    | .updateValue c => c.tick.toNat
    | .setInactiveAge _ => 0
  interval := kRefreshRankingIntervalMs.toNat
  urgent
    | .updateValue c, .updateValue c' => c.value != c'.value
    | _, _ => true

theorem passes_setInactiveAge (passed : List Op) (ageMs : UInt64) :
    refreshThrottle.passes passed (.setInactiveAge ageMs) = true := by
  unfold Throttle.passes
  cases refreshThrottle.last passed (refreshThrottle.key (.setInactiveAge ageMs)) with
  | none => rfl
  | some op => cases op <;> rfl

/-- What the handler has of a property is what it has sent of it last. -/
def LastSent (passed : List Op) (ta : TrackAlias) (conn : UInt64) (prop : PropertyType)
    (value : TrackPropertyValue) : Prop :=
  match refreshThrottle.last passed (some (prop, ta)) with
  | none => value = {}
  | some op => op = .updateValue ⟨ta, prop, value.latestValue, value.latestTickMs, conn⟩

theorem LastSent.of_last_eq {passed passed' : List Op} {ta : TrackAlias} {conn : UInt64}
    {prop : PropertyType} {value : TrackPropertyValue} (h : LastSent passed ta conn prop value)
    (heq : refreshThrottle.last passed' (some (prop, ta)) =
      refreshThrottle.last passed (some (prop, ta))) : LastSent passed' ta conn prop value := by
  unfold LastSent
  rw [heq]
  exact h

/-- The handler sends a value exactly when the throttle passes it on. -/
theorem LastSent.refreshes_iff {passed : List Op} {ta : TrackAlias} {conn : UInt64}
    {prop : PropertyType} {value : TrackPropertyValue} (h : LastSent passed ta conn prop value)
    {recvValue curTick : UInt64} (hlate : kRefreshRankingIntervalMs < curTick)
    (hticks : ∀ op ∈ passed, refreshThrottle.time op ≤ curTick.toNat) :
    value.refreshes recvValue curTick =
      refreshThrottle.passes passed (.updateValue ⟨ta, prop, recvValue, curTick, conn⟩) := by
  have hkey : refreshThrottle.key (.updateValue ⟨ta, prop, recvValue, curTick, conn⟩) =
    some (prop, ta) := rfl
  unfold Throttle.passes TrackPropertyValue.refreshes
  rw [hkey]
  unfold LastSent at h
  cases hlast : refreshThrottle.last passed (some (prop, ta)) with
  | none =>
    rw [hlast] at h
    subst h
    have hzero : curTick - 0 = curTick := by simp
    simp [hzero, hlate]
  | some op =>
    rw [hlast] at h
    subst h
    have hle : value.latestTickMs ≤ curTick :=
      UInt64.le_iff_toNat_le.mpr (hticks _ (Throttle.mem_of_last hlast).1)
    have hsub : (curTick - value.latestTickMs > kRefreshRankingIntervalMs) ↔
        kRefreshRankingIntervalMs.toNat < curTick.toNat - value.latestTickMs.toNat := by
      rw [gt_iff_lt, UInt64.lt_iff_toNat_lt, UInt64.toNat_sub_of_le _ _ hle]
    simp only [hsub, Option.all_some]
    rfl

/-- The handler of a track in the code and without the condition, after the plain calls. -/
structure SameFeed (ta : TrackAlias) (conn : UInt64) (calls : List Op)
    (h h' : SubscribeTrackHandler) : Prop where
  fullTrackName : h'.fullTrackName = h.fullTrackName
  trackRanking : h'.trackRanking = h.trackRanking
  subNamespaces : h'.subNamespaces = h.subNamespaces
  keys : ∀ prop, h'.trackedPropertiesValue.contains prop = h.trackedPropertiesValue.contains prop
  sent : h.trackRanking.isSome → ∀ prop value, h.trackedPropertiesValue[prop]? = some value →
    LastSent (refreshThrottle.pass calls) ta conn prop value
  untracked : ∀ prop, h.trackedPropertiesValue.contains prop = false →
    refreshThrottle.last (refreshThrottle.pass calls) (some (prop, ta)) = none

theorem SameFeed.of_last_eq {ta : TrackAlias} {conn : UInt64} {calls calls' : List Op}
    {h h' : SubscribeTrackHandler} (hsame : SameFeed ta conn calls h h')
    (heq : ∀ prop, refreshThrottle.last (refreshThrottle.pass calls') (some (prop, ta)) =
      refreshThrottle.last (refreshThrottle.pass calls) (some (prop, ta))) :
    SameFeed ta conn calls' h h' :=
  ⟨hsame.fullTrackName, hsame.trackRanking, hsame.subNamespaces, hsame.keys,
    fun hranking prop value hvalue => (hsame.sent hranking prop value hvalue).of_last_eq (heq prop),
    fun prop hprop => (heq prop).trans (hsame.untracked prop hprop)⟩

theorem contains_insert_of_contains {tracked : ExtTreeMap PropertyType TrackPropertyValue}
    {prop : PropertyType} (h : tracked.contains prop = true) (value : TrackPropertyValue)
    (prop' : PropertyType) : (tracked.insert prop value).contains prop' = tracked.contains prop' := by
  rw [Bool.eq_iff_iff, ExtTreeMap.contains_insert_iff, or_iff_right_iff_imp]
  rintro rfl
  exact h

/-- Without the condition the handler has another value of the property. -/
theorem SameFeed.insert_plain {calls : List Op} {h h' : SubscribeTrackHandler} {ta : TrackAlias}
    {conn : UInt64} (hsame : SameFeed ta conn calls h h') {prop : PropertyType}
    (hcontains : h'.trackedPropertiesValue.contains prop = true) (value' : TrackPropertyValue) :
    SameFeed ta conn calls h
      { h' with trackedPropertiesValue := h'.trackedPropertiesValue.insert prop value' } :=
  ⟨hsame.fullTrackName, hsame.trackRanking, hsame.subNamespaces, fun prop' =>
    (contains_insert_of_contains hcontains value' prop').trans (hsame.keys prop'), hsame.sent,
    hsame.untracked⟩

/-- The handler has a new value of the property, which it has sent if it has a ranking. -/
theorem SameFeed.insert {calls calls' : List Op} {h h' : SubscribeTrackHandler} {ta : TrackAlias}
    {conn : UInt64} (hsame : SameFeed ta conn calls h h') {prop : PropertyType}
    (hcontains : h.trackedPropertiesValue.contains prop = true) {value : TrackPropertyValue}
    (value' : TrackPropertyValue)
    (hother : ∀ prop', prop' ≠ prop →
      refreshThrottle.last (refreshThrottle.pass calls') (some (prop', ta)) =
        refreshThrottle.last (refreshThrottle.pass calls) (some (prop', ta)))
    (hsent : h.trackRanking.isSome → LastSent (refreshThrottle.pass calls') ta conn prop value) :
    SameFeed ta conn calls'
      { h with trackedPropertiesValue := h.trackedPropertiesValue.insert prop value }
      { h' with trackedPropertiesValue := h'.trackedPropertiesValue.insert prop value' } := by
  refine ⟨hsame.fullTrackName, hsame.trackRanking, hsame.subNamespaces, fun prop' => ?_,
    fun hranking prop' old hold => ?_, fun prop' hprop' => ?_⟩
  · have hcontains' : h'.trackedPropertiesValue.contains prop = true := by
      rw [hsame.keys prop]
      exact hcontains
    exact (contains_insert_of_contains hcontains' value' prop').trans
      ((hsame.keys prop').trans (contains_insert_of_contains hcontains value prop').symm)
  · dsimp only at hold
    rw [ExtTreeMap.getElem?_insert_ite] at hold
    split at hold
    · rename_i hprop
      cases hold
      rw [hprop]
      exact hsent hranking
    · rename_i hprop
      exact (hsame.sent hranking prop' old hold).of_last_eq (hother prop' hprop)
  · have hold : h.trackedPropertiesValue.contains prop' = false :=
      (contains_insert_of_contains hcontains value prop').symm.trans hprop'
    have hne : prop' ≠ prop := by
      rintro rfl
      rw [hcontains] at hold
      cases hold
    exact (hother prop' hne).trans (hsame.untracked prop' hold)

theorem SameFeed.addSubscribeNamespace {q : Quicr} {calls : List Op} {h h' : SubscribeTrackHandler}
    {ta : TrackAlias} {conn : UInt64} (hsame : SameFeed ta conn calls h h') (handler : HandlerRef)
    (prop : PropertyType) :
    SameFeed ta conn calls (h.addSubscribeNamespace q handler prop)
      (h'.addSubscribeNamespace q handler prop) := by
  unfold SubscribeTrackHandler.addSubscribeNamespace
  rw [hsame.subNamespaces]
  dsimp only
  split
  · exact hsame
  · refine ⟨hsame.fullTrackName, hsame.trackRanking, rfl, fun prop' => ?_,
      fun hranking prop' value hvalue => ?_, fun prop' hprop' => ?_⟩
    · simp only [SubscribeTrackHandler.resume, ExtTreeMap.contains_insertIfNew, hsame.keys prop']
    · simp only [SubscribeTrackHandler.resume] at hvalue
      rw [ExtTreeMap.getElem?_insertIfNew] at hvalue
      split at hvalue
      · rename_i hnew
        rw [LawfulEqCmp.compare_eq_iff_eq] at hnew
        cases hvalue
        have hnone := hsame.untracked prop' (by
          rw [← hnew.1, ← Bool.not_eq_true, ExtTreeMap.contains_iff_mem]
          exact hnew.2)
        unfold LastSent
        rw [hnone]
      · exact hsame.sent hranking prop' value hvalue
    · simp only [SubscribeTrackHandler.resume, ExtTreeMap.contains_insertIfNew,
        Bool.or_eq_false_iff] at hprop'
      exact hsame.untracked prop' hprop'.2

/-! ### An object -/

/-- The handler of a track at one object, in the code and without the condition: `base` and `base'`
have been called before. -/
structure Feeding (q : Quicr) (ta : TrackAlias) (conn curTick : UInt64) (base base' : List Op)
    (acc acc' : SubscribeTrackHandler × List UpdateValue) : Prop where
  trackAlias : acc.1.trackAlias q = ta
  passed : base ++ acc.2.map .updateValue =
    refreshThrottle.pass (base' ++ acc'.2.map .updateValue)
  same : SameFeed ta conn (base' ++ acc'.2.map .updateValue) acc.1 acc'.1
  calls : ∀ c ∈ acc'.2, c.trackAlias = ta ∧ c.connectionId = conn ∧ c.tick = curTick

variable {q : Quicr} {ta : TrackAlias} {conn curTick : UInt64} {base base' : List Op}

theorem Feeding.ticks {acc acc' : SubscribeTrackHandler × List UpdateValue}
    (h : Feeding q ta conn curTick base base' acc acc')
    (hbase : ∀ op ∈ base', refreshThrottle.time op ≤ curTick.toNat) :
    ∀ op ∈ base' ++ acc'.2.map .updateValue, refreshThrottle.time op ≤ curTick.toNat := by
  intro op hop
  rcases List.mem_append.mp hop with hop | hop
  · exact hbase op hop
  · obtain ⟨c, hc, rfl⟩ := List.mem_map.mp hop
    obtain ⟨-, -, htick⟩ := h.calls c hc
    exact Nat.le_of_eq (congrArg UInt64.toNat htick)

theorem Feeding.property {acc acc' : SubscribeTrackHandler × List UpdateValue}
    (h : Feeding q ta conn curTick base base' acc acc')
    (hbase : ∀ op ∈ base', refreshThrottle.time op ≤ curTick.toNat)
    (hlate : kRefreshRankingIntervalMs < curTick) (received : PropertyType × PropertyValue) :
    Feeding q ta conn curTick base base'
      (SubscribeTrackHandler.updateTrackedProperty q TrackPropertyValue.refreshes conn curTick acc
        received)
      (SubscribeTrackHandler.updateTrackedProperty q (fun _ _ _ => true) conn curTick acc'
        received) := by
  obtain ⟨handler, cs⟩ := acc
  obtain ⟨handler', cs'⟩ := acc'
  obtain ⟨prop, recvValue⟩ := received
  have hkeys := h.same.keys prop
  unfold SubscribeTrackHandler.updateTrackedProperty
  dsimp only at hkeys ⊢
  cases hvalue : handler.trackedPropertiesValue[prop]? with
  | none =>
    rw [ExtTreeMap.contains_eq_false_iff.mpr hvalue, ExtTreeMap.contains_eq_false_iff] at hkeys
    rw [hkeys]
    exact h
  | some value =>
    have hcontains : handler.trackedPropertiesValue.contains prop = true :=
      ExtTreeMap.contains_iff_getElem?.mpr ⟨value, hvalue⟩
    rw [hcontains] at hkeys
    obtain ⟨value', hvalue'⟩ := ExtTreeMap.contains_iff_getElem?.mp hkeys
    have halias : handler.trackAlias q = ta := h.trackAlias
    have halias' : handler'.trackAlias q = ta := by
      rw [← halias, SubscribeTrackHandler.trackAlias, h.same.fullTrackName]
      rfl
    have hranking' : handler'.trackRanking = handler.trackRanking := h.same.trackRanking
    have hpassed := h.passed
    rw [hvalue']
    dsimp only at hpassed ⊢
    rw [if_pos rfl, halias, halias']
    set c : UpdateValue := ⟨ta, prop, recvValue, curTick, conn⟩ with hc
    rcases Option.eq_none_or_eq_some handler.trackRanking with hranking | ⟨ref, hranking⟩
    · have hnone : ¬handler.trackRanking.isSome := by simp [hranking]
      have hcs : handler.trackRanking.toList.map (fun _ => c) = [] := by simp [hranking]
      have hcs' : handler'.trackRanking.toList.map (fun _ => c) = [] := by simp [hranking', hranking]
      rw [hcs, hcs', List.append_nil, List.append_nil]
      split
      · exact ⟨h.trackAlias, h.passed, h.same.insert hcontains _ (fun _ _ => rfl)
          fun hsome => absurd hsome hnone, h.calls⟩
      · exact ⟨h.trackAlias, h.passed, h.same.insert_plain hkeys _, h.calls⟩
    · have hsome : handler.trackRanking.isSome := by simp [hranking]
      have hcs : handler.trackRanking.toList.map (fun _ => c) = [c] := by simp [hranking]
      have hcs' : handler'.trackRanking.toList.map (fun _ => c) = [c] := by
        simp [hranking', hranking]
      rw [hcs, hcs']
      have hlast : value.refreshes recvValue curTick = refreshThrottle.passes _ (.updateValue c) :=
        (h.same.sent hsome prop value hvalue).refreshes_iff hlate fun op hop =>
          h.ticks hbase op (Throttle.mem_of_mem_pass hop)
      have hcalls : ∀ c' ∈ cs' ++ [c], c'.trackAlias = ta ∧ c'.connectionId = conn ∧
          c'.tick = curTick := by
        intro c' hc'
        rcases List.mem_append.mp hc' with hold | hnew
        · exact h.calls c' hold
        · rw [List.mem_singleton.mp hnew]
          exact ⟨rfl, rfl, rfl⟩
      cases hrefreshes : value.refreshes recvValue curTick with
      | true =>
        rw [hrefreshes] at hlast
        refine ⟨h.trackAlias, ?_, h.same.insert hcontains _ (fun prop' hprop => ?_) (fun _ => ?_),
          hcalls⟩
        · rw [if_pos rfl, List.map_append, List.map_append, ← List.append_assoc, hpassed,
            ← List.append_assoc, List.map_singleton, Throttle.pass_concat, if_pos hlast.symm]
        · rw [List.map_append, ← List.append_assoc]
          exact Throttle.last_pass_concat_of_ne fun hkey => hprop (congrArg (·.1)
            (Option.some.inj hkey)).symm
        · unfold LastSent
          rw [List.map_append, ← List.append_assoc, List.map_singleton, Throttle.last_pass_concat,
            if_pos ⟨hlast.symm, rfl⟩]
      | false =>
        rw [hrefreshes] at hlast
        have hheld : refreshThrottle.pass (base' ++ (cs' ++ [c]).map .updateValue) =
            refreshThrottle.pass (base' ++ cs'.map .updateValue) := by
          rw [List.map_append, ← List.append_assoc, List.map_singleton, Throttle.pass_concat,
            if_neg (by rw [← hlast]; exact Bool.false_ne_true)]
        refine ⟨h.trackAlias, ?_, (h.same.of_last_eq fun prop' => ?_).insert_plain hkeys _, hcalls⟩
        · rw [if_neg Bool.false_ne_true, hheld]
          exact hpassed
        · rw [hheld]

theorem Feeding.properties {acc acc' : SubscribeTrackHandler × List UpdateValue}
    (h : Feeding q ta conn curTick base base' acc acc')
    (hbase : ∀ op ∈ base', refreshThrottle.time op ≤ curTick.toNat)
    (hlate : kRefreshRankingIntervalMs < curTick) (received : List (PropertyType × PropertyValue)) :
    Feeding q ta conn curTick base base'
      (received.foldl (SubscribeTrackHandler.updateTrackedProperty q TrackPropertyValue.refreshes
        conn curTick) acc)
      (received.foldl (SubscribeTrackHandler.updateTrackedProperty q (fun _ _ _ => true) conn
        curTick) acc') := by
  induction received generalizing acc acc' with
  | nil => exact h
  | cons value received ih => exact ih (h.property hbase hlate value)

/-- Maps with the same keys list them in the same order. -/
theorem keys_eq_of_contains {tracked tracked' : ExtTreeMap PropertyType TrackPropertyValue}
    (h : ∀ prop, tracked'.contains prop = tracked.contains prop) : tracked'.keys = tracked.keys := by
  have hnodup : ∀ m : ExtTreeMap PropertyType TrackPropertyValue, m.keys.Nodup := fun m =>
    (ExtTreeMap.ordered_keys (t := m)).imp fun hlt heq => by
      rw [heq, compare_self] at hlt
      cases hlt
  have hperm : tracked'.keys.Perm tracked.keys := by
    rw [List.perm_ext_iff_of_nodup (hnodup _) (hnodup _)]
    intro prop
    rw [ExtTreeMap.mem_keys, ExtTreeMap.mem_keys, ← ExtTreeMap.contains_iff_mem,
      ← ExtTreeMap.contains_iff_mem, h prop]
  refine hperm.eq_of_pairwise (fun a b _ _ hab hba => ?_) ExtTreeMap.ordered_keys
    ExtTreeMap.ordered_keys
  have hswap : compare a b = (compare b a).swap := OrientedCmp.eq_swap
  rw [hswap, hba] at hab
  cases hab

theorem Feeding.object {h h' : SubscribeTrackHandler} (uintVar : List UInt8 → Option UInt64)
    (halias : h.trackAlias q = ta) (hcalls : base = refreshThrottle.pass base')
    (hsame : SameFeed ta conn base' h h')
    (hbase : ∀ op ∈ base', refreshThrottle.time op ≤ curTick.toNat)
    (hlate : kRefreshRankingIntervalMs < curTick)
    (extensions immutableExtensions : Option Extensions) :
    Feeding q ta conn curTick base base'
      (h.updateTrackedProperties q uintVar TrackPropertyValue.refreshes conn curTick extensions
        immutableExtensions)
      (h'.updateTrackedProperties q uintVar (fun _ _ _ => true) conn curTick extensions
        immutableExtensions) := by
  have hstart : Feeding q ta conn curTick base base' (h, []) (h', []) := by
    refine ⟨halias, ?_, ?_, fun c hc => by cases hc⟩
    · rw [List.map_nil, List.append_nil, List.append_nil, hcalls]
    · rw [List.map_nil, List.append_nil]
      exact hsame
  unfold SubscribeTrackHandler.updateTrackedProperties
  cases extensions with
  | none => exact hstart
  | some extensions =>
    dsimp only
    rw [keys_eq_of_contains hsame.keys]
    exact hstart.properties hbase hlate _

/-! ### Runs -/

section Runs

variable {ι : Type*} {handlers : ι → SubscribeTrackHandler} {connectionId : ι → UInt64}

/-- The ticks at which objects come in. -/
def objectTicks (events : List (FeedEvent ι)) : List UInt64 :=
  events.filterMap fun
    | .objectReceived _ curTick _ _ => some curTick
    | _ => none

/-- New handlers of distinct tracks, with objects in the order of their ticks, the first one later
than the interval. -/
structure FeedRun (q : Quicr) (handlers : ι → SubscribeTrackHandler)
    (events : List (FeedEvent ι)) : Prop where
  fresh : ∀ i (prop : PropertyType) (value : TrackPropertyValue),
    (handlers i).trackedPropertiesValue[prop]? = some value → value = {}
  aliases : Function.Injective fun i => (handlers i).trackAlias q
  late : ∀ tick ∈ objectTicks events, kRefreshRankingIntervalMs < tick
  sorted : (objectTicks events).Pairwise (· ≤ ·)

/-- The handlers in the code and without the condition, up to the tick. -/
structure FeedInv (q : Quicr) (handlers : ι → SubscribeTrackHandler) (connectionId : ι → UInt64)
    (now : UInt64) (f g : Feed ι) : Prop where
  trackAlias : ∀ i, (f.handlers i).trackAlias q = (handlers i).trackAlias q
  calls : f.calls = refreshThrottle.pass g.calls
  same : ∀ i, SameFeed ((handlers i).trackAlias q) (connectionId i) g.calls (f.handlers i)
    (g.handlers i)
  ticks : ∀ op ∈ g.calls, refreshThrottle.time op ≤ now.toNat
  ordered : refreshThrottle.Ordered g.calls
  sources : ∀ c, .updateValue c ∈ g.calls →
    ∃ i, c.trackAlias = (handlers i).trackAlias q ∧ c.connectionId = connectionId i

variable [DecidableEq ι] {now : UInt64} {f g : Feed ι} (uintVar : List UInt8 → Option UInt64)

theorem FeedInv.objectReceived (h : FeedInv q handlers connectionId now f g)
    (haliases : Function.Injective fun i => (handlers i).trackAlias q) {i : ι} {curTick : UInt64}
    (hnow : now ≤ curTick) (hlate : kRefreshRankingIntervalMs < curTick)
    (extensions immutableExtensions : Option Extensions) :
    FeedInv q handlers connectionId curTick
      (f.step q uintVar TrackPropertyValue.refreshes connectionId
        (.objectReceived i curTick extensions immutableExtensions))
      (g.step q uintVar (fun _ _ _ => true) connectionId
        (.objectReceived i curTick extensions immutableExtensions)) := by
  have hbase : ∀ op ∈ g.calls, refreshThrottle.time op ≤ curTick.toNat := fun op hop =>
    (h.ticks op hop).trans (UInt64.le_iff_toNat_le.mp hnow)
  have hfeeding := Feeding.object uintVar (h.trackAlias i) h.calls (h.same i) hbase hlate
    extensions immutableExtensions
  set updated := (f.handlers i).updateTrackedProperties q uintVar TrackPropertyValue.refreshes
    (connectionId i) curTick extensions immutableExtensions with hupdated
  set updated' := (g.handlers i).updateTrackedProperties q uintVar (fun _ _ _ => true)
    (connectionId i) curTick extensions immutableExtensions with hupdated'
  have hnew : ∀ op ∈ updated'.2.map Op.updateValue, ∃ c, op = .updateValue c ∧
      c.trackAlias = (handlers i).trackAlias q ∧ c.connectionId = connectionId i ∧
      c.tick = curTick := by
    intro op hop
    obtain ⟨c, hc, rfl⟩ := List.mem_map.mp hop
    exact ⟨c, rfl, hfeeding.calls c hc⟩
  have htime : ∀ op ∈ updated'.2.map Op.updateValue, refreshThrottle.time op = curTick.toNat := by
    intro op hop
    obtain ⟨c, rfl, -, -, htick⟩ := hnew op hop
    exact congrArg UInt64.toNat htick
  refine ⟨fun j => ?_, hfeeding.passed, fun j => ?_, hfeeding.ticks hbase, ?_, fun c hc => ?_⟩
  · by_cases hj : j = i
    · subst hj
      simpa [Feed.step] using hfeeding.trackAlias
    · simpa [Feed.step, hj] using h.trackAlias j
  · by_cases hj : j = i
    · subst hj
      simpa [Feed.step] using hfeeding.same
    · simp only [Feed.step, Function.update_of_ne hj]
      refine (h.same j).of_last_eq fun prop => Throttle.last_pass_append_of_ne fun op hop hkey => ?_
      obtain ⟨c, rfl, halias, -⟩ := hnew op hop
      have hsame : (handlers i).trackAlias q = (handlers j).trackAlias q :=
        halias.symm.trans (congrArg (·.2) (Option.some.inj hkey))
      exact hj (haliases hsame.symm)
  · refine List.pairwise_append.mpr ⟨h.ordered, ?_, fun a ha b hb _ => ?_⟩
    · exact List.pairwise_of_forall_mem_list fun a ha b hb _ =>
        Nat.le_of_eq ((htime a ha).trans (htime b hb).symm)
    · exact (hbase a ha).trans (Nat.le_of_eq (htime b hb).symm)
  · rcases List.mem_append.mp hc with hold | hc
    · exact h.sources c hold
    · obtain ⟨c', heq, halias, hconn, -⟩ := hnew _ hc
      cases heq
      exact ⟨i, halias, hconn⟩

theorem FeedInv.addSubscribeNamespace (h : FeedInv q handlers connectionId now f g) (i : ι)
    (handler : HandlerRef) (prop : PropertyType) :
    FeedInv q handlers connectionId now
      (f.step q uintVar TrackPropertyValue.refreshes connectionId
        (.addSubscribeNamespace i handler prop))
      (g.step q uintVar (fun _ _ _ => true) connectionId
        (.addSubscribeNamespace i handler prop)) := by
  refine ⟨fun j => ?_, h.calls, fun j => ?_, h.ticks, h.ordered, h.sources⟩
  · by_cases hj : j = i
    · subst hj
      have hsame := (f.handlers j).sameTrack_addSubscribeNamespace q handler prop
      simp only [Feed.step, Function.update_self]
      rw [SubscribeTrackHandler.trackAlias, hsame.fullTrackName]
      exact h.trackAlias j
    · simpa [Feed.step, hj] using h.trackAlias j
  · by_cases hj : j = i
    · subst hj
      simp only [Feed.step, Function.update_self]
      exact (h.same j).addSubscribeNamespace handler prop
    · simpa [Feed.step, hj] using h.same j

theorem FeedInv.setInactiveAge (h : FeedInv q handlers connectionId now f g) (ageMs : UInt64) :
    FeedInv q handlers connectionId now
      (f.step q uintVar TrackPropertyValue.refreshes connectionId (.setInactiveAge ageMs))
      (g.step q uintVar (fun _ _ _ => true) connectionId (.setInactiveAge ageMs)) := by
  have hpass : refreshThrottle.pass (g.calls ++ [.setInactiveAge ageMs]) =
      refreshThrottle.pass g.calls ++ [.setInactiveAge ageMs] := by
    rw [Throttle.pass_concat, if_pos (passes_setInactiveAge _ _)]
  refine ⟨h.trackAlias, ?_, fun j => (h.same j).of_last_eq fun prop => ?_, fun op hop => ?_, ?_,
    fun c hc => ?_⟩
  · simp only [Feed.step]
    rw [hpass, h.calls]
  · exact Throttle.last_pass_concat_of_ne fun hkey => by cases hkey
  · rcases List.mem_append.mp hop with hold | hnew
    · exact h.ticks op hold
    · rw [List.mem_singleton.mp hnew]
      exact Nat.zero_le _
  · refine List.pairwise_append.mpr ⟨h.ordered, List.pairwise_singleton _ _, fun a ha b hb hkey => ?_⟩
    rw [List.mem_singleton.mp hb] at hkey ⊢
    cases a with
    | updateValue c => cases hkey
    | setInactiveAge age => exact Nat.le_refl _
  · rcases List.mem_append.mp hc with hold | hnew
    · exact h.sources c hold
    · cases List.mem_singleton.mp hnew

omit [DecidableEq ι] in
theorem feedInv_start (hfresh : ∀ i (prop : PropertyType) (value : TrackPropertyValue),
    (handlers i).trackedPropertiesValue[prop]? = some value → value = {}) :
    FeedInv q handlers connectionId now ⟨handlers, []⟩ ⟨handlers, []⟩ where
  trackAlias _ := rfl
  calls := rfl
  same i := ⟨rfl, rfl, rfl, fun _ => rfl, fun _ prop value hvalue => hfresh i prop value hvalue,
    fun _ _ => rfl⟩
  ticks := fun op hop => by cases hop
  ordered := .nil
  sources := fun c hc => by cases hc

theorem FeedInv.run (haliases : Function.Injective fun i => (handlers i).trackAlias q)
    {events : List (FeedEvent ι)} (h : FeedInv q handlers connectionId now f g)
    (hlate : ∀ tick ∈ objectTicks events, kRefreshRankingIntervalMs < tick)
    (hsorted : (objectTicks events).Pairwise (· ≤ ·))
    (hnow : ∀ tick ∈ objectTicks events, now ≤ tick) : ∃ now',
    FeedInv q handlers connectionId now'
      (events.foldl (Feed.step q uintVar TrackPropertyValue.refreshes connectionId) f)
      (events.foldl (Feed.step q uintVar (fun _ _ _ => true) connectionId) g) := by
  induction events generalizing f g now with
  | nil => exact ⟨now, h⟩
  | cons event events ih =>
    cases event with
    | objectReceived i curTick extensions immutableExtensions =>
      have hticks : objectTicks (FeedEvent.objectReceived i curTick extensions immutableExtensions ::
        events) = curTick :: objectTicks events := rfl
      rw [hticks] at hlate hsorted hnow
      rw [List.pairwise_cons] at hsorted
      exact ih (h.objectReceived uintVar haliases (hnow curTick List.mem_cons_self)
        (hlate curTick List.mem_cons_self) extensions immutableExtensions)
        (fun tick htick => hlate tick (List.mem_cons_of_mem _ htick)) hsorted.2 hsorted.1
    | addSubscribeNamespace i handler prop =>
      exact ih (h.addSubscribeNamespace uintVar i handler prop) hlate hsorted hnow
    | setInactiveAge ageMs => exact ih (h.setInactiveAge uintVar ageMs) hlate hsorted hnow

/-- What the handlers send is what the throttle passes on of the plain calls. -/
theorem feed_eq_pass (connectionId : ι → UInt64) {events : List (FeedEvent ι)}
    (h : FeedRun q handlers events) :
    feed q uintVar connectionId handlers events =
        refreshThrottle.pass (plainFeed q uintVar connectionId handlers events) ∧
      refreshThrottle.Ordered (plainFeed q uintVar connectionId handlers events) ∧
      ∀ c, .updateValue c ∈ plainFeed q uintVar connectionId handlers events →
        ∃ i, c.trackAlias = (handlers i).trackAlias q ∧ c.connectionId = connectionId i := by
  have hstart : FeedInv q handlers connectionId 0 ⟨handlers, []⟩ ⟨handlers, []⟩ :=
    feedInv_start h.fresh
  obtain ⟨now', hinv⟩ := hstart.run uintVar h.aliases h.late h.sorted fun _ _ => UInt64.zero_le
  exact ⟨hinv.calls, hinv.ordered, hinv.sources⟩

end Runs

end Laps.Ranking
