import Laps.Delivery.Fetch

/-! A subscriber with a start location is handed the objects from it on as they are received, and
can fetch the same objects later.  The two paths compare locations in their own ways. -/

namespace Laps.Delivery

open Std Client

variable {c : QuicrCache}

/-! ### Objects that are received -/

/-- `ObjectReceived`: the object is cached and handed on. -/
def receiveObject (p : QuicrPublish) (m : FetchServer c) (s : SubscribeTrackHandler)
    (object : CacheObject) : Option (FetchServer c × SubscribeTrackHandler × List Handed) := do
  let trackAlias ← s.trackAlias
  let (s, handed) ← s.objectReceived p object.headers object.data
  pure (m.cacheObject trackAlias object, s, handed)

def receiveObjects (p : QuicrPublish) (m : FetchServer c) (s : SubscribeTrackHandler) :
    List CacheObject → Option (FetchServer c × SubscribeTrackHandler × List Handed)
  | [] => some (m, s, [])
  | object :: objects => do
    let (m, s, handed) ← receiveObject p m s object
    let (m, s, rest) ← receiveObjects p m s objects
    pure (m, s, handed ++ rest)

/-- The object, when it is handed to the subscriber. -/
def Handed.objectTo (conn : ConnectionHandle) : Handed → Option CacheObject
  | .object (.connection conn') headers payload =>
    if conn' = conn then some ⟨headers, payload⟩ else none
  | _ => none

/-- The objects that the subscriber is handed. -/
def delivered (conn : ConnectionHandle) (handed : List Handed) : List CacheObject :=
  handed.filterMap (Handed.objectTo conn)

/-- What a fetch from the start to the largest object publishes. -/
def FetchServer.fetched (q : Quicr) (m : FetchServer c) (conn : ConnectionHandle)
    (requestId : RequestId) (full : FullTrackName) (start : Location) : List CacheObject :=
  match m.largestAvailable (q.trackHash full).trackFullnameHash with
  | none => []
  | some largest =>
    let served := m.fetchReceived q conn requestId full start ⟨largest.group, some largest.object⟩
    (served.1.workers.drop m.workers.length).flatMap fun w => w.finish.published

/-- The track comes in datagrams, and the connection is subscribed from the start location. -/
structure Subscribed (s : SubscribeTrackHandler) (trackAlias : UInt64) (conn : ConnectionHandle)
    (start : Location) : Prop where
  trackAlias : s.trackAlias = some trackAlias
  isDatagram : s.isDatagram = true
  notPeers : conn ≠ 0
  subscriber : ∃ h, s.subscribers[conn]? = some h ∧ h.startLocation = start

/-- The objects from the start on are delivered, from the same places as they are fetched. -/
def DeliversFrom (start : Location) (objects delivered fetched : List CacheObject) : Prop :=
  delivered = objects.filter (fun o => ¬Before o.location start) ∧
    ∀ a, a ∈ delivered.map CacheObject.location ↔ a ∈ fetched.map CacheObject.location

/-- No object of a later group has an id below the one of the start. -/
def NoEarlyObject (start : Location) (objects : List CacheObject) : Prop :=
  ∀ o ∈ objects, start.group < o.headers.groupId → start.object ≤ o.headers.objectId

/-! ### What is handed on -/

section Handed

variable {p : QuicrPublish} {s : SubscribeTrackHandler} {trackAlias : UInt64}
variable {conn : ConnectionHandle} {start : Location}

theorem delivered_append (a b : List Handed) :
    delivered conn (a ++ b) = delivered conn a ++ delivered conn b :=
  List.filterMap_append

/-- The object is not before the start by either component. -/
def Reached (start : Location) (object : CacheObject) : Prop :=
  start.group ≤ object.headers.groupId ∧ start.object ≤ object.headers.objectId

instance (start : Location) (object : CacheObject) : Decidable (Reached start object) :=
  inferInstanceAs (Decidable (_ ∧ _))

theorem starts_iff {h : PublishTrackHandler} {object : CacheObject} :
    h.starts object.headers = true ↔ Reached h.startLocation object := by
  simp [PublishTrackHandler.starts, Reached]

theorem objectTo_startLocation (h : PublishTrackHandler) (headers : ObjectHeaders)
    (payload : List UInt8) (conn : ConnectionHandle) :
    (s.objectTo p headers payload conn h).1.startLocation = h.startLocation := by
  unfold SubscribeTrackHandler.objectTo
  split
  · rfl
  · split <;> rfl

/-- One object: the subscriber stays, and is handed the object when it is reached. -/
theorem Subscribed.objectReceived (hs : Subscribed s trackAlias conn start)
    (p : QuicrPublish) (object : CacheObject) :
    ∃ s' handed, s.objectReceived p object.headers object.data = some (s', handed) ∧
      Subscribed s' trackAlias conn start ∧
        delivered conn handed = if Reached start object then [object] else [] := by
  obtain ⟨halias, hdatagram, hconn, h, hsub, rfl⟩ := hs
  rw [SubscribeTrackHandler.objectReceived, halias]
  refine ⟨_, _, rfl, ⟨rfl, hdatagram, hconn, ?_⟩, ?_⟩
  · refine ⟨(s.objectTo p object.headers object.data conn h).1, ?_, objectTo_startLocation ..⟩
    dsimp only
    rw [ExtTreeMap.getElem?_map, hsub]
    rfl
  · have hnamespaces : ∀ es : List ((UInt64 × ConnectionHandle) × PublishNamespaceHandler),
        delivered conn (es.flatMap fun e =>
          if (e.2.publishObject p trackAlias object.headers object.data).2 then
            [.object (.subNamespace e.1.1 e.1.2) object.headers object.data] else []) = [] := by
      intro es
      rw [delivered, List.filterMap_flatMap, List.flatMap_eq_nil_iff]
      intro e _
      split <;> rfl
    rw [delivered_append, hnamespaces, List.nil_append, delivered, List.filterMap_flatMap,
      ExtTreeMap.flatMap_toList_eq _ conn, hsub]
    · have hto : (s.objectTo p object.headers object.data conn h).2 = true ↔
          Reached h.startLocation object := by
        rw [← starts_iff]
        unfold SubscribeTrackHandler.objectTo
        rw [if_neg (by simp [hconn, hdatagram])]
        split <;> simp_all
      simp only [Option.toList_some, List.flatMap_singleton, hto]
      split
      · simp [Handed.objectTo]
      · rfl
    · intro e he
      split
      · simp [Handed.objectTo, he]
      · rfl

theorem receiveObjects_cons {m : FetchServer c} {object : CacheObject} {objects : List CacheObject} :
    receiveObjects p m s (object :: objects) = (receiveObject p m s object).bind fun r =>
      (receiveObjects p r.1 r.2.1 objects).map fun r' => (r'.1, r'.2.1, r.2.2 ++ r'.2.2) := by
  rw [receiveObjects]
  cases receiveObject p m s object with
  | none => rfl
  | some r =>
    obtain ⟨m', s', handed⟩ := r
    cases hrest : receiveObjects p m' s' objects <;> simp [hrest]

/-- Any number of objects: all are cached, and the subscriber is handed those that are reached. -/
theorem Subscribed.receiveObjects (hs : Subscribed s trackAlias conn start) (p : QuicrPublish)
    (m : FetchServer c) (objects : List CacheObject) :
    ∃ s' handed, Delivery.receiveObjects p m s objects =
        some (m.cacheCalls (objects.map (.objectReceived trackAlias)), s', handed) ∧
      delivered conn handed = objects.filter (Reached start ·) := by
  induction objects generalizing m s with
  | nil => exact ⟨s, [], rfl, rfl⟩
  | cons object objects ih =>
    obtain ⟨s', handed, hreceived, hs', hdelivered⟩ := hs.objectReceived p object
    obtain ⟨s'', rest, hrest, hdeliveredRest⟩ := ih hs' (m.cacheObject trackAlias object)
    have hfirst : receiveObject p m s object =
        some (m.cacheObject trackAlias object, s', handed) := by
      rw [receiveObject, hs.trackAlias]
      simp [hreceived]
    refine ⟨s'', handed ++ rest, ?_, ?_⟩
    · rw [receiveObjects_cons, hfirst, Option.bind_some, hrest]
      rfl
    · rw [delivered_append, hdelivered, hdeliveredRest, List.filter_cons]
      by_cases hreached : Reached start object <;> simp [hreached]

end Handed

/-! ### What is cached and fetched -/

section Fetched

variable {groups : c.State → ExtTreeMap UInt64 CacheGroup} {m : FetchServer c}

/-- The places of the received objects are those that are cached. -/
theorem holding_cacheCalls (hc : c.Holds groups) {trackAlias : UInt64} {objects : List CacheObject}
    (henabled : m.disableCache = false) (h : ∀ track, Keyed (m.content groups track))
    (a : Location) :
    Holding ((m.cacheCalls (objects.map (.objectReceived trackAlias))).content groups trackAlias)
      a ↔ a ∈ objects.map CacheObject.location ∨ Holding (m.content groups trackAlias) a := by
  induction objects generalizing m with
  | nil =>
    rw [List.map_nil, List.map_nil]
    simp [FetchServer.cacheCalls]
  | cons object objects ih =>
    have hkeyed := FetchServer.keyed_cacheCall hc h (.objectReceived trackAlias object)
    have hstays : (m.cacheObject trackAlias object).disableCache = false := by
      simp [FetchServer.cacheObject, henabled]
    rw [List.map_cons, List.map_cons, List.mem_cons, or_assoc]
    refine (ih hstays hkeyed).trans ?_
    rw [FetchServer.content_cacheObject hc, if_pos ⟨henabled, rfl⟩, (h trackAlias).holding_stored]
    exact or_left_comm

/-- A fetch up to the largest object publishes the places from its start on that are cached. -/
theorem FetchServer.mem_fetched (hc : c.Holds groups) {q : Quicr} {full : FullTrackName}
    (h : Keyed (m.content groups (q.trackHash full).trackFullnameHash)) (conn : ConnectionHandle)
    (requestId : RequestId) (start a : Location) :
    a ∈ (m.fetched q conn requestId full start).map CacheObject.location ↔
      Holding (m.content groups (q.trackHash full).trackFullnameHash) a ∧ ¬Before a start := by
  unfold FetchServer.fetched
  cases hlargest : m.largestAvailable (q.trackHash full).trackFullnameHash with
  | none =>
    refine ⟨nofun, fun ⟨⟨object, hcached, _⟩, _⟩ => ?_⟩
    obtain ⟨largest, hsome⟩ := m.exists_largestAvailable hc h hcached
    rw [hlargest] at hsome
    cases hsome
  | some largest =>
    have hupper := (m.largestAvailable_spec hc h hlargest).2
    dsimp only
    generalize hstop : (⟨largest.group, some largest.object⟩ : FetchEndLocation) = stop
    have hgroup : stop.group = largest.group := by rw [← hstop]
    have hupto : ∀ object, Cached (m.content groups (q.trackHash full).trackFullnameHash) object →
        UpTo stop object.location := by
      intro object hcached
      rw [← hstop]
      exact hupper object hcached
    by_cases hok : (m.fetchReceived q conn requestId full start stop).2 = .ok
    · obtain ⟨w, hworkers, -, -, -, hpublished⟩ := m.serves_fetchReceived hc h hok
      rw [hworkers, List.drop_left, List.flatMap_singleton, List.mem_map]
      constructor
      · rintro ⟨object, hobject, rfl⟩
        obtain ⟨hcached, hrange⟩ := (hpublished object).mp hobject
        exact ⟨⟨object, hcached, rfl⟩, hrange.1⟩
      · rintro ⟨⟨object, hcached, rfl⟩, hstart⟩
        exact ⟨object, (hpublished object).mpr ⟨hcached, hstart, hupto object hcached⟩, rfl⟩
    · have hreason : m.reasonCode (q.trackHash full).trackFullnameHash start stop ≠ .ok := by
        intro hreason
        refine hok ?_
        unfold fetchReceived
        dsimp only
        rw [if_pos hreason]
        exact hreason
      have hnone : (m.fetchReceived q conn requestId full start stop).1.workers = m.workers := by
        unfold fetchReceived
        dsimp only
        rw [if_neg hreason]
      rw [hnone, List.drop_length]
      refine ⟨nofun, fun ⟨⟨object, hcached, hplace⟩, hstart⟩ => absurd ?_ hreason⟩
      subst hplace
      refine m.reasonCode_ok_of_cached hc h hcached ?_ ?_
      · exact UInt64.not_lt.mp fun hlt => hstart (.inl hlt)
      · rw [hgroup]
        exact UInt64.not_lt.mp fun hlt => hupper object hcached (.inl hlt)

end Fetched

/-! ### The two paths -/

/-- The two ways to compare differ at early objects of later groups. -/
theorem reached_iff_not_before {start : Location} {object : CacheObject} :
    (Reached start object ↔ ¬Before object.location start) ↔
      (start.group < object.headers.groupId → start.object ≤ object.headers.objectId) := by
  rw [before_iff]
  simp only [Reached, UInt64.le_iff_toNat_le, UInt64.lt_iff_toNat_lt, CacheObject.location,
    ObjectHeaders.location]
  omega

/-- Live delivery and a fetch agree when no object of a later group than that of the start location
has an id below it. -/
theorem deliversFrom_iff {groups : c.State → ExtTreeMap UInt64 CacheGroup} (hc : c.Holds groups)
    (p : QuicrPublish) (q : Quicr) (full : FullTrackName) {s : SubscribeTrackHandler}
    {conn : ConnectionHandle} {start : Location}
    (hs : Subscribed s (q.trackHash full).trackFullnameHash conn start) (fetcher : ConnectionHandle)
    (requestId : RequestId) (objects : List CacheObject) :
    ∃ m s' handed, receiveObjects p (FetchServer.start c false) s objects = some (m, s', handed) ∧
      (DeliversFrom start objects (delivered conn handed)
          (m.fetched q fetcher requestId full start) ↔ NoEarlyObject start objects) := by
  obtain ⟨s', handed, hreceived, hdelivered⟩ :=
    hs.receiveObjects p (FetchServer.start c false) objects
  refine ⟨_, s', handed, hreceived, ?_⟩
  generalize hm : (FetchServer.start c false).cacheCalls
    (objects.map (.objectReceived (q.trackHash full).trackFullnameHash)) = m
  have hsame : delivered conn handed = objects.filter (fun o => ¬Before o.location start) ↔
      NoEarlyObject start objects := by
    rw [hdelivered]
    constructor
    · intro hfilter o ho
      refine reached_iff_not_before.mp ?_
      have hmem : o ∈ objects.filter (Reached start ·) ↔
          o ∈ objects.filter fun o => ¬Before o.location start := by rw [hfilter]
      simpa [List.mem_filter, ho] using hmem
    · intro h
      refine List.filter_congr fun o ho => ?_
      rw [decide_eq_decide]
      exact reached_iff_not_before.mpr (h o ho)
  refine ⟨fun h => hsame.mp h.1, fun h => ⟨hsame.mpr h, fun a => ?_⟩⟩
  have hfirst : ∀ track, Keyed ((FetchServer.start c false).content groups track) :=
    FetchServer.keyed_cacheCalls hc false []
  have hkeyed : Keyed (m.content groups (q.trackHash full).trackFullnameHash) := by
    rw [← hm]
    exact FetchServer.keyed_cacheCalls hc false _ _
  have hholding : Holding (m.content groups (q.trackHash full).trackFullnameHash) a ↔
      a ∈ objects.map CacheObject.location := by
    rw [← hm, holding_cacheCalls hc rfl hfirst, or_iff_left]
    rintro ⟨object, ⟨g, id, hget⟩, _⟩
    simp [FetchServer.content, FetchServer.start] at hget
  rw [m.mem_fetched hc hkeyed, hholding, hsame.mpr h, List.mem_map, List.mem_map]
  simp only [List.mem_filter, decide_eq_true_eq]
  constructor
  · rintro ⟨object, ⟨hobject, hstart⟩, rfl⟩
    exact ⟨⟨object, hobject, rfl⟩, hstart⟩
  · rintro ⟨⟨object, hobject, rfl⟩, hstart⟩
    exact ⟨object, ⟨hobject, hstart⟩, rfl⟩

/-- A subscriber to the track from the object on. -/
def subscribedFrom (groupId objectId : UInt64) : SubscribeTrackHandler where
  trackAlias := some (Quicr.polynomial.trackHash someTrack).trackFullnameHash
  isDatagram := true
  subscribers := (∅ : ExtTreeMap ConnectionHandle PublishTrackHandler).insert 5
    { startLocation := ⟨groupId, objectId⟩ }

theorem subscribed_subscribedFrom (groupId objectId : UInt64) :
    Subscribed (subscribedFrom groupId objectId)
      (Quicr.polynomial.trackHash someTrack).trackFullnameHash 5 ⟨groupId, objectId⟩ :=
  ⟨rfl, rfl, by decide, { startLocation := ⟨groupId, objectId⟩ },
    ExtTreeMap.getElem?_insert_self, rfl⟩

/-- Objects of two groups, from the same id on. -/
theorem deliversFrom_twoGroups :
    ∃ m s' handed, receiveObjects lastObjects (FetchServer.start .table false) (subscribedFrom 1 2)
        [objectAt 1 1, objectAt 1 2, objectAt 2 2] = some (m, s', handed) ∧
      DeliversFrom ⟨1, 2⟩ [objectAt 1 1, objectAt 1 2, objectAt 2 2] (delivered 5 handed)
        (m.fetched .polynomial 6 7 someTrack ⟨1, 2⟩) := by
  obtain ⟨m, s', handed, hreceived, hiff⟩ :=
    deliversFrom_iff QuicrCache.holds_table lastObjects .polynomial someTrack
      (subscribed_subscribedFrom 1 2) 6 7 [objectAt 1 1, objectAt 1 2, objectAt 2 2]
  refine ⟨m, s', handed, hreceived, hiff.mpr ?_⟩
  unfold NoEarlyObject
  decide

/-- The first objects of the second group are not delivered, and are fetched. -/
theorem not_deliversFrom :
    ∃ m s' handed, receiveObjects lastObjects (FetchServer.start .table false) (subscribedFrom 1 2)
        [objectAt 1 2, objectAt 2 0, objectAt 2 1, objectAt 2 2] = some (m, s', handed) ∧
      delivered 5 handed = [objectAt 1 2, objectAt 2 2] ∧
      m.fetched .polynomial 6 7 someTrack ⟨1, 2⟩ =
        [objectAt 1 2, objectAt 2 0, objectAt 2 1, objectAt 2 2] ∧
      ¬DeliversFrom ⟨1, 2⟩ [objectAt 1 2, objectAt 2 0, objectAt 2 1, objectAt 2 2]
        (delivered 5 handed) (m.fetched .polynomial 6 7 someTrack ⟨1, 2⟩) := by
  refine ⟨_, _, _, rfl, by decide +kernel, by decide +kernel, fun h => ?_⟩
  have hsame := h.1
  revert hsame
  decide +kernel

end Laps.Delivery
