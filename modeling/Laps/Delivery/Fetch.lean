import Laps.Delivery.Cache
import Laps.Lib.OrdMap

/-! A fetch that is served from the cache sends the objects of the range that is asked for, each
once and in their order. -/

namespace Laps.Delivery

open Std Client Scan

inductive CacheCall where
  | objectReceived (trackAlias : UInt64) (object : CacheObject)
  | advance (trackAlias : UInt64)

namespace FetchServer

variable {c : QuicrCache}

def cacheCall (m : FetchServer c) : CacheCall → FetchServer c
  | .objectReceived trackAlias object => m.cacheObject trackAlias object
  | .advance trackAlias => { m with caches := m.caches.modify trackAlias c.advance }

def cacheCalls (m : FetchServer c) (calls : List CacheCall) : FetchServer c :=
  calls.foldl cacheCall m

/-- The groups of a track that are cached. -/
def content (groups : c.State → ExtTreeMap UInt64 CacheGroup) (m : FetchServer c)
    (trackAlias : UInt64) : ExtTreeMap UInt64 CacheGroup :=
  (m.caches[trackAlias]?.map groups).getD ∅

end FetchServer

/-! ### What is cached -/

/-- The object is in some group. -/
def Cached (content : ExtTreeMap UInt64 CacheGroup) (object : CacheObject) : Prop :=
  ∃ g id, content.get₂? g id = some object

/-- Objects are under their own ids, and there is no group without objects. -/
structure Keyed (content : ExtTreeMap UInt64 CacheGroup) : Prop where
  keyed : ∀ g id object, content.get₂? g id = some object →
    object.headers.groupId = g ∧ object.headers.objectId = id
  noEmptyRow : content.NoEmptyRow

/-- The group is cached, and none after it is. -/
def LargestGroup (content : ExtTreeMap UInt64 CacheGroup) (g : UInt64) : Prop :=
  (∃ object, Cached content object ∧ object.headers.groupId = g) ∧
    ∀ object, Cached content object → object.headers.groupId ≤ g

/-- The content after an object is cached. -/
def stored (content : ExtTreeMap UInt64 CacheGroup) (object : CacheObject) :
    ExtTreeMap UInt64 CacheGroup :=
  content.insertIfNew₂ object.headers.groupId object.headers.objectId object

section Content

variable {content content' : ExtTreeMap UInt64 CacheGroup} {object object' : CacheObject}

theorem keyed_empty : Keyed ∅ :=
  ⟨fun g id object h => by simp at h, ExtTreeMap.noEmptyRow_empty⟩

/-- Groups may go. -/
theorem Keyed.of_sub (h : Keyed content) (hsub : ∀ (g : UInt64) (group : CacheGroup),
    content'[g]? = some group → content[g]? = some group) : Keyed content' := by
  refine ⟨fun g id object hget => ?_, fun g group hget => h.noEmptyRow g group (hsub g group hget)⟩
  obtain ⟨group, hgroup, hobject⟩ := ExtTreeMap.get₂?_eq_some.mp hget
  exact h.keyed g id object (ExtTreeMap.get₂?_eq_some.mpr ⟨group, hsub g group hgroup, hobject⟩)

theorem Keyed.stored (h : Keyed content) (object : CacheObject) :
    Keyed (stored content object) := by
  refine ⟨fun g id o hget => ?_, h.noEmptyRow.insertIfNew₂ _ _ _⟩
  rw [Delivery.stored, ExtTreeMap.get₂?_insertIfNew₂] at hget
  split at hget
  · rename_i hkey
    obtain ⟨rfl, rfl⟩ := hkey
    cases hold : content.get₂? object.headers.groupId object.headers.objectId with
    | none =>
      rw [hold] at hget
      cases hget
      exact ⟨rfl, rfl⟩
    | some old =>
      rw [hold] at hget
      cases hget
      exact h.keyed _ _ _ hold
  · exact h.keyed g id o hget

/-- A cached object is found at its own place. -/
theorem Keyed.cached_iff (h : Keyed content) : Cached content object ↔
    content.get₂? object.headers.groupId object.headers.objectId = some object := by
  constructor
  · rintro ⟨g, id, hget⟩
    obtain ⟨rfl, rfl⟩ := h.keyed g id object hget
    exact hget
  · intro hget
    exact ⟨_, _, hget⟩

/-- Something is cached at the place. -/
def Holding (content : ExtTreeMap UInt64 CacheGroup) (a : Location) : Prop :=
  ∃ object, Cached content object ∧ object.location = a

theorem Keyed.holding_iff (h : Keyed content) (a : Location) :
    Holding content a ↔ (content.get₂? a.group a.object).isSome = true := by
  rw [Option.isSome_iff_exists]
  constructor
  · rintro ⟨object, hcached, rfl⟩
    exact ⟨object, h.cached_iff.mp hcached⟩
  · rintro ⟨object, hget⟩
    obtain ⟨hgroup, hid⟩ := h.keyed _ _ object hget
    refine ⟨object, ⟨_, _, hget⟩, ?_⟩
    rw [CacheObject.location, ObjectHeaders.location, hgroup, hid]

/-- The place of an object that is received is taken from then on. -/
theorem Keyed.holding_stored (h : Keyed content) (object : CacheObject) (a : Location) :
    Holding (Delivery.stored content object) a ↔ a = object.location ∨ Holding content a := by
  rw [(h.stored object).holding_iff, h.holding_iff, Delivery.stored,
    ExtTreeMap.get₂?_insertIfNew₂]
  have hplace : a = object.location ↔
      a.group = object.headers.groupId ∧ a.object = object.headers.objectId := by
    constructor
    · rintro rfl
      exact ⟨rfl, rfl⟩
    · rintro ⟨hgroup, hid⟩
      rw [CacheObject.location, ObjectHeaders.location, ← hgroup, ← hid]
  rw [hplace]
  split
  · rename_i hkey
    simp [hkey]
  · rename_i hkey
    simp [hkey]

end Content

/-! ### What the calls leave in the cache -/

namespace FetchServer

variable {c : QuicrCache} {groups : c.State → ExtTreeMap UInt64 CacheGroup} {m : FetchServer c}

theorem groups_getD (hc : c.Holds groups) (m : FetchServer c) (track : UInt64) :
    groups (m.caches.getD track c.empty) = m.content groups track := by
  rw [content, ExtTreeMap.getD_eq_getD_getElem?]
  cases m.caches[track]? with
  | none => exact hc.empty
  | some cache => rfl

theorem groups_store (hc : c.Holds groups) (cache : c.State) (object : CacheObject) :
    groups (c.store cache object) = stored (groups cache) object := by
  rw [QuicrCache.store, stored, ExtTreeMap.insertIfNew₂, ExtTreeMap.getD_eq_getD_getElem?,
    ← hc.get]
  split
  · rename_i group hgroup
    rw [hc.change _ _ _ (by rw [hgroup]; rfl), hgroup]
    rfl
  · rename_i hgroup
    rw [hc.insert _ _ _ hgroup, hgroup]
    rfl

theorem content_cacheObject (hc : c.Holds groups) (m : FetchServer c) (trackAlias : UInt64)
    (object : CacheObject) (track : UInt64) :
    (m.cacheObject trackAlias object).content groups track =
      if m.disableCache = false ∧ track = trackAlias then
        stored (m.content groups track) object
      else m.content groups track := by
  cases hdisable : m.disableCache with
  | true => simp [cacheObject, hdisable]
  | false =>
    have hcached : m.cacheObject trackAlias object =
        { m with
          caches := m.caches.insert trackAlias
            (c.store (m.caches.getD trackAlias c.empty) object) } := by
      simp [cacheObject, hdisable]
    rw [hcached, content]
    dsimp only
    rw [ExtTreeMap.getElem?_insert_ite]
    by_cases htrack : track = trackAlias
    · subst htrack
      rw [if_pos rfl, if_pos ⟨rfl, rfl⟩, ← m.groups_getD hc, ← groups_store hc]
      rfl
    · rw [if_neg htrack, if_neg fun h => htrack h.2]
      rfl

theorem content_advance (hc : c.Holds groups) (m : FetchServer c) (trackAlias track g : UInt64)
    (group : CacheGroup)
    (h : ((m.cacheCall (.advance trackAlias)).content groups track)[g]? = some group) :
    (m.content groups track)[g]? = some group := by
  unfold content cacheCall at h
  dsimp only at h
  rw [ExtTreeMap.getElem?_modify] at h
  split at h
  · rename_i htrack
    rw [LawfulEqOrd.compare_eq_iff_eq] at htrack
    subst htrack
    unfold content
    cases hcache : m.caches[trackAlias]? with
    | none => simp [hcache] at h
    | some cache =>
      rw [hcache] at h
      exact hc.advance cache g group h
  · exact h

theorem keyed_cacheCall (hc : c.Holds groups) (h : ∀ track, Keyed (m.content groups track))
    (call : CacheCall) (track : UInt64) : Keyed ((m.cacheCall call).content groups track) := by
  cases call with
  | objectReceived trackAlias object =>
    rw [cacheCall, content_cacheObject hc]
    split
    · exact (h track).stored object
    · exact h track
  | advance trackAlias =>
    exact (h track).of_sub (content_advance hc m trackAlias track)

/-- The cache is empty at first. -/
def start (c : QuicrCache) (disableCache : Bool) : FetchServer c := { disableCache }

theorem keyed_cacheCalls (hc : c.Holds groups) (disableCache : Bool) (calls : List CacheCall)
    (track : UInt64) : Keyed (((start c disableCache).cacheCalls calls).content groups track) := by
  have hrun : ∀ m : FetchServer c, (∀ track, Keyed (m.content groups track)) →
      ∀ track, Keyed ((m.cacheCalls calls).content groups track) := by
    induction calls with
    | nil => exact fun m h => h
    | cons call calls ih => exact fun m h => ih (m.cacheCall call) (keyed_cacheCall hc h call)
  refine hrun _ (fun track => ?_) track
  have hempty : (start c disableCache).content groups track = ∅ := by simp [content, start]
  rw [hempty]
  exact keyed_empty

end FetchServer

/-! ### What is served -/

/-- The cached objects of the range in their order, each once. -/
def IsRange (content : ExtTreeMap UInt64 CacheGroup) (start : Location) (stop : FetchEndLocation)
    (objects : List CacheObject) : Prop :=
  Ascending objects ∧
    ∀ object, object ∈ objects ↔ Cached content object ∧ InRange start stop object.location

/-- A thread is started that publishes the range when it is not cancelled. -/
def Serves (content : ExtTreeMap UInt64 CacheGroup) (conn : ConnectionHandle)
    (requestId : RequestId) (start : Location) (stop : FetchEndLocation)
    (before after : List FetchWorker) : Prop :=
  ∃ w, after = before ++ [w] ∧ w.connectionHandle = conn ∧ w.requestId = requestId ∧
    IsRange content start stop w.finish.published

section Range

variable {content : ExtTreeMap UInt64 CacheGroup}

/-- The objects of the groups from one to another, in the order of the two loops. -/
def objectsBetween (content : ExtTreeMap UInt64 CacheGroup) (a b : UInt64) : List CacheObject :=
  ((content.toList.filter fun e => a ≤ e.1 && e.1 ≤ b).map Prod.snd).flatMap fun group =>
    group.toList.map Prod.snd

theorem mem_objectsBetween {a b : UInt64} {object : CacheObject} :
    object ∈ objectsBetween content a b ↔
      ∃ g id, content.get₂? g id = some object ∧ a ≤ g ∧ g ≤ b := by
  simp only [objectsBetween, List.mem_flatMap, List.mem_map, List.mem_filter, Prod.exists,
    ExtTreeMap.mem_toList_iff_getElem?_eq_some, ExtTreeMap.get₂?_eq_some, Bool.and_eq_true,
    decide_eq_true_eq]
  constructor
  · rintro ⟨group, ⟨g, _, ⟨hgroup, hbounds⟩, rfl⟩, id, _, hobject, rfl⟩
    exact ⟨g, id, ⟨_, hgroup, hobject⟩, hbounds⟩
  · rintro ⟨g, id, ⟨group, hgroup, hobject⟩, hbounds⟩
    exact ⟨group, ⟨g, group, ⟨hgroup, hbounds⟩, rfl⟩, id, object, hobject, rfl⟩

theorem Keyed.ascending (h : Keyed content) (a b : UInt64) :
    Ascending (objectsBetween content a b) := by
  have hkeyed : ∀ e ∈ content.toList.filter (fun e => a ≤ e.1 && e.1 ≤ b), ∀ o ∈ e.2.toList,
      o.2.headers.groupId = e.1 ∧ o.2.headers.objectId = o.1 := by
    intro e he o ho
    have hgroup := ExtTreeMap.mem_toList_iff_getElem?_eq_some.mp (List.mem_filter.mp he).1
    have hobject := ExtTreeMap.mem_toList_iff_getElem?_eq_some.mp ho
    exact h.keyed _ _ _ (ExtTreeMap.get₂?_eq_some.mpr ⟨e.2, hgroup, hobject⟩)
  have hgroups : content.toList.Pairwise fun e e' => compare e.1 e'.1 = .lt :=
    ExtTreeMap.ordered_keys_toList
  rw [Ascending, objectsBetween, List.flatMap_map, List.pairwise_flatMap]
  refine ⟨fun e he => ?_, ?_⟩
  · have hobjects : e.2.toList.Pairwise fun o o' => compare o.1 o'.1 = .lt :=
      ExtTreeMap.ordered_keys_toList
    refine List.pairwise_map.mpr (hobjects.imp_of_mem fun {o o'} ho ho' hlt => .inr ?_)
    obtain ⟨hgroup, hid⟩ := hkeyed e he o ho
    obtain ⟨hgroup', hid'⟩ := hkeyed e he o' ho'
    refine ⟨hgroup.trans hgroup'.symm, ?_⟩
    show o.2.headers.objectId < o'.2.headers.objectId
    rw [hid, hid']
    exact compare_eq_lt.mp hlt
  · refine (hgroups.filter _).imp_of_mem fun {e e'} he he' hlt x hx y hy => .inl ?_
    obtain ⟨o, ho, rfl⟩ := List.mem_map.mp hx
    obtain ⟨o', ho', rfl⟩ := List.mem_map.mp hy
    show o.2.headers.groupId < o'.2.headers.groupId
    rw [(hkeyed e he o ho).1, (hkeyed e' he' o' ho').1]
    exact compare_eq_lt.mp hlt

/-- The groups of the range have all objects of the range. -/
theorem InRange.groups {start a : Location} {stop : FetchEndLocation} (h : InRange start stop a) :
    start.group ≤ a.group ∧ a.group ≤ stop.group := by
  obtain ⟨hstart, hstop⟩ := h
  rw [before_iff] at hstart
  rw [UInt64.le_iff_toNat_le, UInt64.le_iff_toNat_le]
  refine ⟨by omega, ?_⟩
  unfold UpTo at hstop
  split at hstop
  · exact UInt64.le_iff_toNat_le.mp hstop
  · rw [before_iff] at hstop
    dsimp only at hstop
    omega

/-- The loop over the groups of the range publishes the range. -/
theorem Keyed.published (h : Keyed content) (conn : ConnectionHandle) (requestId : RequestId)
    (start : Location) (stop : FetchEndLocation) :
    let w : FetchWorker :=
      ⟨conn, requestId, start, stop, objectsBetween content start.group stop.group, []⟩
    IsRange content start stop w.finish.published := by
  intro w
  have hgroups : ∀ o ∈ w.objects,
      start.group ≤ o.headers.groupId ∧ o.headers.groupId ≤ stop.group := by
    intro o ho
    obtain ⟨g, id, hget, hbounds⟩ := mem_objectsBetween.mp ho
    rw [(h.keyed g id o hget).1]
    exact hbounds
  have hpublished : w.finish.published =
      w.objects.filter fun o => InRange start stop o.location := by
    rw [FetchWorker.published_finish, FetchWorker.remaining,
      scan_judge (h.ascending _ _) hgroups]
    rfl
  rw [hpublished]
  refine ⟨(h.ascending _ _).filter _, fun object => ?_⟩
  rw [List.mem_filter, decide_eq_true_eq]
  refine and_congr_left fun hrange => ?_
  show object ∈ objectsBetween content start.group stop.group ↔ _
  rw [mem_objectsBetween]
  constructor
  · rintro ⟨g, id, hget, -⟩
    exact ⟨g, id, hget⟩
  · rintro ⟨g, id, hget⟩
    refine ⟨g, id, hget, ?_⟩
    rw [← (h.keyed g id object hget).1]
    exact hrange.groups

end Range

namespace FetchServer

variable {c : QuicrCache} {groups : c.State → ExtTreeMap UInt64 CacheGroup} {m : FetchServer c}
variable {q : Quicr} {full : FullTrackName} {conn : ConnectionHandle} {requestId : RequestId}

theorem reasonCode_eq_ok_iff {hash : UInt64} {start : Location} {stop : FetchEndLocation} :
    m.reasonCode hash start stop = .ok ↔ start.group ≤ stop.group ∧
      (∃ largest, m.largestAvailable hash = some largest ∧ start.group ≤ largest.group) ∧
      (m.cacheEntries hash start stop).isEmpty = false := by
  unfold reasonCode
  cases m.largestAvailable hash with
  | none => simp
  | some largest =>
    have hbad : (start.group > stop.group || largest.group < start.group) = true ↔
        ¬(start.group ≤ stop.group ∧ start.group ≤ largest.group) := by
      rw [Bool.or_eq_true, decide_eq_true_eq, decide_eq_true_eq, not_and_or, UInt64.not_le,
        UInt64.not_le]
    simp only [hbad, ite_not, Option.some.injEq, exists_eq_left']
    by_cases hrange : start.group ≤ stop.group ∧ start.group ≤ largest.group
    · cases hempty : (m.cacheEntries hash start stop).isEmpty <;> simp [hrange]
    · simp only [← and_assoc, hrange, false_and, iff_false]
      nofun

theorem largestAvailable_eq (hc : c.Holds groups) (m : FetchServer c) (hash : UInt64) :
    m.largestAvailable hash = (m.content groups hash).toList.getLast?.bind fun row =>
      row.2.toList.getLast?.map fun entry => entry.2.location := by
  unfold largestAvailable content
  cases m.caches[hash]? with
  | none => rfl
  | some cache =>
    simp only [Option.bind_eq_bind, Option.bind_some, hc.last, Option.map_some, Option.getD_some,
      Option.pure_def]
    cases (groups cache).toList.getLast? with
    | none => rfl
    | some row =>
      simp only [Option.map_some, Option.bind_some]
      cases row.2.toList.getLast? <;> rfl

theorem cacheEntries_eq (hc : c.Holds groups) (m : FetchServer c) (hash : UInt64) {start : Location}
    {stop : FetchEndLocation} (hle : start.group ≤ stop.group) :
    m.cacheEntries hash start stop = ((m.content groups hash).toList.filter fun e =>
      start.group ≤ e.1 && e.1 ≤ stop.group).map Prod.snd := by
  unfold cacheEntries content
  cases m.caches[hash]? with
  | none => rfl
  | some cache => exact hc.getRange cache _ _ hle

/-- A fetch that is accepted is served from the cache. -/
theorem serves_fetchReceived (hc : c.Holds groups)
    (h : Keyed (m.content groups (q.trackHash full).trackFullnameHash)) {start : Location}
    {stop : FetchEndLocation}
    (hok : (m.fetchReceived q conn requestId full start stop).2 = .ok) :
    Serves (m.content groups (q.trackHash full).trackFullnameHash) conn requestId start stop
      m.workers (m.fetchReceived q conn requestId full start stop).1.workers := by
  have hreason : m.reasonCode (q.trackHash full).trackFullnameHash start stop = .ok := by
    unfold fetchReceived at hok
    dsimp only at hok
    split at hok <;> exact hok
  have hle := (reasonCode_eq_ok_iff.mp hreason).1
  refine ⟨⟨conn, requestId, start, stop, objectsBetween
    (m.content groups (q.trackHash full).trackFullnameHash) start.group stop.group, []⟩, ?_, rfl,
      rfl, h.published conn requestId start stop⟩
  unfold fetchReceived
  dsimp only
  rw [if_pos hreason, m.cacheEntries_eq hc _ hle]
  rfl

/-- The last object of the last group is the largest one. -/
theorem largestAvailable_spec (hc : c.Holds groups) {hash : UInt64} {largest : Location}
    (h : Keyed (m.content groups hash)) (hlargest : m.largestAvailable hash = some largest) :
    Holding (m.content groups hash) largest ∧
      ∀ object, Cached (m.content groups hash) object → ¬Before largest object.location := by
  rw [m.largestAvailable_eq hc] at hlargest
  generalize m.content groups hash = content at h hlargest
  obtain ⟨row, hrow, hlargest⟩ := Option.bind_eq_some_iff.mp hlargest
  obtain ⟨entry, hentry, rfl⟩ := Option.map_eq_some_iff.mp hlargest
  have hgroup : content[row.1]? = some row.2 :=
    ExtTreeMap.mem_toList_iff_getElem?_eq_some.mp (List.mem_of_getLast? hrow)
  have hobject : row.2[entry.1]? = some entry.2 :=
    ExtTreeMap.mem_toList_iff_getElem?_eq_some.mp (List.mem_of_getLast? hentry)
  have hget := ExtTreeMap.get₂?_eq_some.mpr ⟨row.2, hgroup, hobject⟩
  obtain ⟨hgid, hoid⟩ := h.keyed _ _ _ hget
  refine ⟨⟨entry.2, ⟨_, _, hget⟩, rfl⟩, fun object ⟨g, id, hget'⟩ hbefore => ?_⟩
  obtain ⟨rfl, rfl⟩ := h.keyed g id object hget'
  obtain ⟨group', hgroup', hobject'⟩ := ExtTreeMap.get₂?_eq_some.mp hget'
  obtain hlt | ⟨heq, hlt⟩ := hbefore
  · refine ExtTreeMap.not_lt_of_getLast? hrow hgroup' (compare_eq_lt.mpr ?_)
    rw [← hgid]
    exact hlt
  · have hsame : object.headers.groupId = row.1 := heq.symm.trans hgid
    rw [hsame, hgroup] at hgroup'
    cases hgroup'
    refine ExtTreeMap.not_lt_of_getLast? hentry hobject' (compare_eq_lt.mpr ?_)
    rw [← hoid]
    exact hlt

theorem exists_largestAvailable (hc : c.Holds groups) {hash : UInt64} {object : CacheObject}
    (h : Keyed (m.content groups hash)) (hcached : Cached (m.content groups hash) object) :
    ∃ largest, m.largestAvailable hash = some largest := by
  rw [m.largestAvailable_eq hc]
  generalize m.content groups hash = content at h hcached
  obtain ⟨g, id, hget⟩ := hcached
  obtain ⟨group, hgroup, -⟩ := ExtTreeMap.get₂?_eq_some.mp hget
  obtain ⟨row, hrow⟩ := ExtTreeMap.exists_getLast? hgroup
  have hrow' : content[row.1]? = some row.2 :=
    ExtTreeMap.mem_toList_iff_getElem?_eq_some.mp (List.mem_of_getLast? hrow)
  obtain ⟨id', object', hobject⟩ :=
    ExtTreeMap.isEmpty_eq_false_iff_getElem?.mp (h.noEmptyRow _ _ hrow')
  obtain ⟨entry, hentry⟩ := ExtTreeMap.exists_getLast? hobject
  exact ⟨entry.2.location, by simp [hrow, hentry]⟩

/-- A fetch is accepted when something is cached in the groups of its range. -/
theorem reasonCode_ok_of_cached (hc : c.Holds groups) {hash : UInt64} {object : CacheObject}
    (h : Keyed (m.content groups hash)) (hcached : Cached (m.content groups hash) object)
    {start : Location} {stop : FetchEndLocation} (hstart : start.group ≤ object.headers.groupId)
    (hstop : object.headers.groupId ≤ stop.group) : m.reasonCode hash start stop = .ok := by
  have hle := UInt64.le_trans hstart hstop
  obtain ⟨largest, hlargest⟩ := m.exists_largestAvailable hc h hcached
  have hupper := (m.largestAvailable_spec hc h hlargest).2 object hcached
  refine reasonCode_eq_ok_iff.mpr ⟨hle, ⟨largest, hlargest, ?_⟩, ?_⟩
  · refine UInt64.le_trans hstart (UInt64.not_lt.mp fun hlt => hupper (.inl ?_))
    exact hlt
  · obtain ⟨g, id, hget⟩ := hcached
    obtain ⟨rfl, -⟩ := h.keyed g id object hget
    obtain ⟨group, hrow, -⟩ := ExtTreeMap.get₂?_eq_some.mp hget
    rw [m.cacheEntries_eq hc _ hle, List.isEmpty_eq_false_iff_exists_mem]
    refine ⟨group, List.mem_map.mpr ⟨(object.headers.groupId, group), ?_, rfl⟩⟩
    rw [List.mem_filter, Bool.and_eq_true, decide_eq_true_eq, decide_eq_true_eq]
    exact ⟨ExtTreeMap.mem_toList_iff_getElem?_eq_some.mpr hrow, hstart, hstop⟩

/-- The group of the largest object is the largest group. -/
theorem largest_group (hc : c.Holds groups) {hash g : UInt64}
    (h : Keyed (m.content groups hash)) (hg : LargestGroup (m.content groups hash) g) :
    ∃ largest, m.largestAvailable hash = some largest ∧ largest.group = g := by
  obtain ⟨⟨object, hcached, rfl⟩, hmost⟩ := hg
  obtain ⟨largest, hlargest⟩ := m.exists_largestAvailable hc h hcached
  obtain ⟨⟨last, hlast, rfl⟩, hupper⟩ := m.largestAvailable_spec hc h hlargest
  refine ⟨_, hlargest, UInt64.le_antisymm (hmost last hlast) ?_⟩
  exact UInt64.not_lt.mp fun hlt => hupper object hcached (.inl hlt)

/-- A joining fetch is a fetch of the last groups. -/
theorem joiningFetchReceived_eq (hc : c.Holds groups) {g : UInt64}
    (h : Keyed (m.content groups (q.trackHash full).trackFullnameHash))
    (hg : LargestGroup (m.content groups (q.trackHash full).trackFullnameHash) g) (k : UInt64) :
    m.joiningFetchReceived q conn requestId full true k =
      m.fetchReceived q conn requestId full ⟨UInt64.ofNat (g.toNat - k.toNat), 0⟩ ⟨g, none⟩ := by
  obtain ⟨largest, hlargest, rfl⟩ := m.largest_group hc h hg
  have hstart : (if largest.group > k then largest.group - k else 0) =
      UInt64.ofNat (largest.group.toNat - k.toNat) := by
    have hlt := largest.group.toNat_lt
    rw [← UInt64.toNat_inj, UInt64.toNat_ofNat', Nat.mod_eq_of_lt (by omega)]
    split
    · rename_i hk
      exact UInt64.toNat_sub_of_le _ _ (UInt64.le_of_lt hk)
    · rename_i hk
      rw [gt_iff_lt, UInt64.lt_iff_toNat_lt] at hk
      rw [UInt64.toNat_zero]
      omega
  unfold joiningFetchReceived
  rw [hlargest]
  dsimp only
  rw [if_pos rfl, hstart]

/-- It is accepted. -/
theorem joiningFetchReceived_ok (hc : c.Holds groups) {g : UInt64}
    (h : Keyed (m.content groups (q.trackHash full).trackFullnameHash))
    (hg : LargestGroup (m.content groups (q.trackHash full).trackFullnameHash) g) (k : UInt64) :
    (m.joiningFetchReceived q conn requestId full true k).2 = .ok := by
  have hle : UInt64.ofNat (g.toNat - k.toNat) ≤ g := by
    have hlt := g.toNat_lt
    rw [UInt64.le_iff_toNat_le, UInt64.toNat_ofNat', Nat.mod_eq_of_lt (by omega)]
    omega
  obtain ⟨object, hcached, hgroup⟩ := hg.1
  have hreason : m.reasonCode (q.trackHash full).trackFullnameHash
      ⟨UInt64.ofNat (g.toNat - k.toNat), 0⟩ ⟨g, none⟩ = .ok :=
    m.reasonCode_ok_of_cached hc h hcached (by rw [hgroup]; exact hle)
      (by rw [hgroup]; exact UInt64.le_refl _)
  rw [m.joiningFetchReceived_eq hc h hg]
  unfold fetchReceived
  dsimp only
  rw [if_pos hreason]
  exact hreason

end FetchServer

/-- Every fetch that is accepted is served with its range, whatever was received before, and a
joining fetch of some groups with the last of them. -/
theorem fetches_serve {c : QuicrCache} {groups : c.State → ExtTreeMap UInt64 CacheGroup}
    (hc : c.Holds groups) (disableCache : Bool) (calls : List CacheCall)
    (stopFetch : ExtTreeMap (ConnectionHandle × RequestId) Bool) (workers : List FetchWorker)
    (q : Quicr) (full : FullTrackName) (conn : ConnectionHandle) (requestId : RequestId) :
    let m := { (FetchServer.start c disableCache).cacheCalls calls with stopFetch, workers }
    let content := m.content groups (q.trackHash full).trackFullnameHash
    (∀ start stop, (m.fetchReceived q conn requestId full start stop).2 = .ok →
      Serves content conn requestId start stop workers
        (m.fetchReceived q conn requestId full start stop).1.workers) ∧
    ∀ k g, LargestGroup content g →
      (m.joiningFetchReceived q conn requestId full true k).2 = .ok ∧
        Serves content conn requestId ⟨UInt64.ofNat (g.toNat - k.toNat), 0⟩ ⟨g, none⟩ workers
          (m.joiningFetchReceived q conn requestId full true k).1.workers := by
  intro m content
  have h : Keyed content := FetchServer.keyed_cacheCalls hc disableCache calls _
  refine ⟨fun start stop hok => m.serves_fetchReceived hc h hok, fun k g hg => ?_⟩
  have hok : (m.joiningFetchReceived q conn requestId full true k).2 = .ok :=
    m.joiningFetchReceived_ok hc h hg k
  refine ⟨hok, ?_⟩
  rw [m.joiningFetchReceived_eq hc h hg] at hok ⊢
  exact m.serves_fetchReceived hc h hok

/-- An object without a payload. -/
def objectAt (groupId objectId : UInt64) : CacheObject :=
  ⟨⟨groupId, objectId, 0, 0, 0, 0, [], []⟩, []⟩

def someTrack : FullTrackName := ⟨[[1]], [2]⟩

/-- Four objects of the track, not in their order. -/
def fourObjects : List CacheCall :=
  [objectAt 2 0, objectAt 1 3, objectAt 1 1, objectAt 2 4].map
    (.objectReceived (Quicr.polynomial.trackHash someTrack).trackFullnameHash)

/-- A fetch from the second object on. -/
theorem fetches_serve_fourObjects :
    let m := (FetchServer.start .table false).cacheCalls fourObjects
    let fetched := m.fetchReceived .polynomial 5 7 someTrack ⟨1, 2⟩ ⟨2, some 3⟩
    fetched.2 = .ok ∧
      fetched.1.workers.map (fun w => w.finish.published) = [[objectAt 1 3, objectAt 2 0]] ∧
      Serves (m.content id (Quicr.polynomial.trackHash someTrack).trackFullnameHash) 5 7 ⟨1, 2⟩
        ⟨2, some 3⟩ [] fetched.1.workers := by
  intro m fetched
  have hok : fetched.2 = .ok := by decide +kernel
  exact ⟨hok, by decide +kernel, (fetches_serve QuicrCache.holds_table false fourObjects ∅ []
    .polynomial someTrack 5 7).1 ⟨1, 2⟩ ⟨2, some 3⟩ hok⟩

end Laps.Delivery
