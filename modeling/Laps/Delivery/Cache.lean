import Laps.Delivery.Model
import Laps.Lib.Scan

/-! The cache of the objects of the tracks, and the fetches that are served from it. -/

namespace Laps.Delivery

open Std Client Scan

/-! ### The cache -/

structure CacheObject where
  headers : ObjectHeaders
  data : List UInt8
  deriving DecidableEq

/-- `std::set<CacheObject>`: in the order of the object ids, which are all different. -/
abbrev CacheGroup := ExtTreeMap UInt64 CacheObject

def insertObject (group : CacheGroup) (object : CacheObject) : CacheGroup :=
  group.insertIfNew object.headers.objectId object

/-- `quicr::Cache`, by group.  Its code is not part of the repository. -/
structure QuicrCache where
  State : Type
  empty : State
  get : State → UInt64 → Option CacheGroup
  getRange : State → UInt64 → UInt64 → List CacheGroup
  last : State → Option CacheGroup
  insert : State → UInt64 → CacheGroup → State
  /-- The group that `get` gives is changed in place. -/
  change : State → UInt64 → CacheGroup → State
  /-- Time passes, and groups go. -/
  advance : State → State

/-- The cache is a table of groups, in their order. -/
structure QuicrCache.Holds (c : QuicrCache) (groups : c.State → ExtTreeMap UInt64 CacheGroup) :
    Prop where
  empty : groups c.empty = ∅
  get : ∀ s g, c.get s g = (groups s)[g]?
  getRange : ∀ s a b, a ≤ b → c.getRange s a b =
    ((groups s).toList.filter fun e => a ≤ e.1 && e.1 ≤ b).map Prod.snd
  last : ∀ s, c.last s = (groups s).toList.getLast?.map Prod.snd
  insert : ∀ s g group, c.get s g = none →
    groups (c.insert s g group) = (groups s).insert g group
  change : ∀ s g group, (c.get s g).isSome = true →
    groups (c.change s g group) = (groups s).insert g group
  advance : ∀ (s : c.State) (g : UInt64) (group : CacheGroup),
    (groups (c.advance s))[g]? = some group → (groups s)[g]? = some group

/-- A cache that is the table itself, and keeps its groups. -/
def QuicrCache.table : QuicrCache where
  State := ExtTreeMap UInt64 CacheGroup
  empty := ∅
  get s g := s[g]?
  getRange s a b := (s.toList.filter fun e => a ≤ e.1 && e.1 ≤ b).map Prod.snd
  last s := s.toList.getLast?.map Prod.snd
  insert s g group := s.insert g group
  change s g group := s.insert g group
  advance s := s

theorem QuicrCache.holds_table : QuicrCache.table.Holds id :=
  ⟨rfl, fun _ _ => rfl, fun _ _ _ _ => rfl, fun _ => rfl, fun _ _ _ _ => rfl,
    fun _ _ _ _ => rfl, fun _ _ _ => id⟩

/-- An object goes into its group, which is made when it is missing. -/
def QuicrCache.store (c : QuicrCache) (cache : c.State) (object : CacheObject) : c.State :=
  match c.get cache object.headers.groupId with
  | some group => c.change cache object.headers.groupId (insertObject group object)
  | none => c.insert cache object.headers.groupId (insertObject ∅ object)

/-! ### The fetches -/

/-- Without an object the whole group is meant. -/
structure FetchEndLocation where
  group : UInt64
  object : Option UInt64 := none
  deriving DecidableEq, Repr

inductive ReasonCode where
  | ok
  | invalidRange
  | noObjects
  deriving DecidableEq, Repr

/-- The thread that serves a fetch from the cache. -/
structure FetchWorker where
  connectionHandle : ConnectionHandle
  requestId : RequestId
  start : Location
  stop : FetchEndLocation
  /-- The objects that the loop has not come to yet. -/
  objects : List CacheObject
  published : List CacheObject := []
  deriving DecidableEq

namespace FetchWorker

/-- The conditions in the loop. -/
def judge (start : Location) (stop : FetchEndLocation) (object : CacheObject) : Verdict :=
  if start.group = object.headers.groupId && start.object > object.headers.objectId then .skip
  else
    match stop.object with
    | none => .take
    | some last =>
      if object.headers.groupId = stop.group && object.headers.objectId > last then .stop
      else .take

/-- The loop comes to its next object, or ends. -/
def next (w : FetchWorker) (stopped : Bool) : FetchWorker :=
  match w.objects with
  | [] => w
  | object :: objects =>
    if stopped then { w with objects := [] }
    else
      match judge w.start w.stop object with
      | .skip => { w with objects }
      | .take => { w with objects, published := w.published ++ [object] }
      | .stop => { w with objects := [] }

/-- The loop runs to its end and is not stopped. -/
def finish (w : FetchWorker) : FetchWorker :=
  w.objects.foldl (fun w _ => w.next false) w

end FetchWorker

/-- What the client manager keeps for the fetches. -/
structure FetchServer (c : QuicrCache) where
  disableCache : Bool := false
  caches : ExtTreeMap UInt64 c.State := ∅
  stopFetch : ExtTreeMap (ConnectionHandle × RequestId) Bool := ∅
  workers : List FetchWorker := []

namespace FetchServer

variable {c : QuicrCache}

/-- The part of `ObjectReceived` that caches the object. -/
def cacheObject (m : FetchServer c) (trackAlias : UInt64) (object : CacheObject) : FetchServer c :=
  if m.disableCache then m
  else
    { m with caches :=
        m.caches.insert trackAlias (c.store (m.caches.getD trackAlias c.empty) object) }

/-- `GetLargestAvailable`, by the full name hash. -/
def largestAvailable (m : FetchServer c) (trackFullnameHash : UInt64) : Option Location := do
  let cache ← m.caches[trackFullnameHash]?
  let group ← c.last cache
  let (_, object) ← group.toList.getLast?
  pure ⟨object.headers.groupId, object.headers.objectId⟩

/-- What is served from the cache. -/
def cacheEntries (m : FetchServer c) (trackFullnameHash : UInt64) (start : Location)
    (stop : FetchEndLocation) : List CacheGroup :=
  match m.caches[trackFullnameHash]? with
  | none => []
  | some cache => c.getRange cache start.group stop.group

def reasonCode (m : FetchServer c) (trackFullnameHash : UInt64) (start : Location)
    (stop : FetchEndLocation) : ReasonCode :=
  match m.largestAvailable trackFullnameHash with
  | none => .noObjects
  | some largest =>
    if start.group > stop.group || largest.group < start.group then .invalidRange
    else if (m.cacheEntries trackFullnameHash start stop).isEmpty then .noObjects
    else .ok

/-- A fetch that cannot be served is handed to a publisher, which is left out here.  The worker has
the objects as they are now: the source walks over the groups that the cache shares with it, where
objects that arrive later turn up as well. -/
def fetchReceived (q : Quicr) (m : FetchServer c) (conn : ConnectionHandle) (requestId : RequestId)
    (full : FullTrackName) (start : Location) (stop : FetchEndLocation) :
    FetchServer c × ReasonCode :=
  let hash := (q.trackHash full).trackFullnameHash
  let reason := m.reasonCode hash start stop
  let objects := (m.cacheEntries hash start stop).flatMap fun group => group.toList.map Prod.snd
  let m := { m with stopFetch := m.stopFetch.insertIfNew (conn, requestId) false }
  if reason = .ok then
    ({ m with workers := m.workers ++ [⟨conn, requestId, start, stop, objects, []⟩] }, reason)
  else (m, reason)

def joiningFetchReceived (q : Quicr) (m : FetchServer c) (conn : ConnectionHandle)
    (requestId : RequestId) (full : FullTrackName) (relative : Bool) (joiningStart : UInt64) :
    FetchServer c × ReasonCode :=
  match m.largestAvailable (q.trackHash full).trackFullnameHash with
  | none => (m, .invalidRange)
  | some largest =>
    let start :=
      if relative then
        if largest.group > joiningStart then largest.group - joiningStart else 0
      else joiningStart
    m.fetchReceived q conn requestId full ⟨start, 0⟩ ⟨largest.group, none⟩

def fetchCancelReceived (m : FetchServer c) (conn : ConnectionHandle) (requestId : RequestId) :
    FetchServer c :=
  if m.stopFetch.contains (conn, requestId) then m
  else { m with stopFetch := m.stopFetch.insert (conn, requestId) true }

/-- A thread goes on with its loop.  Reading the flag makes an entry for it. -/
def workerStep (m : FetchServer c) (i : ℕ) : FetchServer c :=
  match m.workers[i]? with
  | none => m
  | some w =>
    if w.objects.isEmpty then m
    else
      let key := (w.connectionHandle, w.requestId)
      let stopped := m.stopFetch.getD key false
      { m with
        stopFetch := if stopped then m.stopFetch.erase key else m.stopFetch.insert key false
        workers := m.workers.set i (w.next stopped) }

end FetchServer

/-! ### Places in a track -/

/-- The object is at an earlier place: by group, and by object in the same group. -/
def Before (a b : Location) : Prop :=
  a.group < b.group ∨ a.group = b.group ∧ a.object < b.object

instance (a b : Location) : Decidable (Before a b) := inferInstanceAs (Decidable (_ ∨ _))

def ObjectHeaders.location (headers : ObjectHeaders) : Location :=
  ⟨headers.groupId, headers.objectId⟩

def CacheObject.location (object : CacheObject) : Location := ObjectHeaders.location object.headers

/-- The place is not after the end. -/
def UpTo (stop : FetchEndLocation) (a : Location) : Prop :=
  match stop.object with
  | none => a.group ≤ stop.group
  | some last => ¬Before ⟨stop.group, last⟩ a

instance (stop : FetchEndLocation) (a : Location) : Decidable (UpTo stop a) := by
  unfold UpTo
  split <;> infer_instance

def InRange (start : Location) (stop : FetchEndLocation) (a : Location) : Prop :=
  ¬Before a start ∧ UpTo stop a

instance (start : Location) (stop : FetchEndLocation) (a : Location) :
    Decidable (InRange start stop a) := inferInstanceAs (Decidable (_ ∧ _))

/-- Objects one after the other. -/
def Ascending (l : List CacheObject) : Prop := l.Pairwise fun a b => Before a.location b.location

theorem before_iff {a b : Location} : Before a b ↔ a.group.toNat < b.group.toNat ∨
    a.group.toNat = b.group.toNat ∧ a.object.toNat < b.object.toNat := by
  rw [Before, UInt64.lt_iff_toNat_lt, UInt64.lt_iff_toNat_lt, UInt64.toNat_inj]

section Judge

open FetchWorker

variable {start : Location} {stop : FetchEndLocation} {object : CacheObject}

/-- In the groups of the range, what is passed over is before the start, and the loop ends after
the end. -/
theorem judge_eq (hstart : start.group ≤ object.headers.groupId)
    (hstop : object.headers.groupId ≤ stop.group) :
    judge start stop object =
      if Before object.location start then .skip
      else if UpTo stop object.location then .take else .stop := by
  rw [UInt64.le_iff_toNat_le] at hstart hstop
  have hskip : (start.group = object.headers.groupId && start.object > object.headers.objectId) =
      true ↔ Before object.location start := by
    rw [before_iff, Bool.and_eq_true, decide_eq_true_eq, decide_eq_true_eq, gt_iff_lt,
      UInt64.lt_iff_toNat_lt, ← UInt64.toNat_inj]
    show _ ↔ object.headers.groupId.toNat < _ ∨ object.headers.groupId.toNat = _ ∧
      object.headers.objectId.toNat < _
    omega
  obtain ⟨group, last⟩ := stop
  unfold judge
  simp only [hskip]
  split
  · rfl
  · cases last with
    | none =>
      have hle : UpTo ⟨group, none⟩ object.location := UInt64.le_iff_toNat_le.mpr hstop
      rw [if_pos hle]
    | some last =>
      have hafter : (object.headers.groupId = group && object.headers.objectId > last) =
          true ↔ ¬UpTo ⟨group, some last⟩ object.location := by
        show _ ↔ ¬¬Before ⟨group, last⟩ object.location
        rw [not_not, before_iff, Bool.and_eq_true, decide_eq_true_eq, decide_eq_true_eq, gt_iff_lt,
          UInt64.lt_iff_toNat_lt, ← UInt64.toNat_inj]
        show _ ↔ group.toNat < object.headers.groupId.toNat ∨
          group.toNat = object.headers.groupId.toNat ∧
            last.toNat < object.headers.objectId.toNat
        dsimp only at hstop
        omega
      simp only [hafter, ite_not]

/-- What comes after the end stays after it. -/
theorem UpTo.of_before {a b : Location} (hab : Before a b) (hb : UpTo stop b) : UpTo stop a := by
  unfold UpTo at hb ⊢
  rw [before_iff] at hab
  split at hb
  · rw [UInt64.le_iff_toNat_le] at hb ⊢
    omega
  · rw [before_iff] at hb ⊢
    dsimp only at hb ⊢
    omega

theorem not_before_of_before {a b : Location} (hab : Before a b) (ha : ¬Before a start) :
    ¬Before b start := by
  rw [before_iff] at hab ha ⊢
  omega

/-- The loop over objects in ascending order takes those of the range. -/
theorem scan_judge {objects : List CacheObject} (hascending : Ascending objects)
    (hgroups : ∀ o ∈ objects, start.group ≤ o.headers.groupId ∧ o.headers.groupId ≤ stop.group) :
    scan (judge start stop) objects =
      objects.filter fun o => InRange start stop o.location := by
  have hjudge : ∀ o ∈ objects, judge start stop o =
      if Before o.location start then .skip else if UpTo stop o.location then .take else .stop :=
    fun o ho => judge_eq (hgroups o ho).1 (hgroups o ho).2
  have hstays : Stays (judge start stop) objects := by
    refine List.Pairwise.imp_of_mem ?_ hascending
    intro a b ha hb hab hstop
    rw [hjudge a ha] at hstop
    rw [hjudge b hb]
    by_cases hstart : Before a.location start
    · rw [if_pos hstart] at hstop
      cases hstop
    · rw [if_neg hstart] at hstop
      rw [if_neg (not_before_of_before hab hstart)]
      by_cases hto : UpTo stop b.location
      · rw [if_pos (hto.of_before hab)] at hstop
        cases hstop
      · rw [if_neg hto]
  rw [scan_eq_filter hstays]
  refine List.filter_congr fun o ho => ?_
  rw [hjudge o ho, decide_eq_decide, InRange]
  by_cases hstart : Before o.location start
  · simp [hstart]
  · by_cases hto : UpTo stop o.location <;> simp [hstart, hto]

end Judge

namespace FetchWorker

/-- What the loop would publish from where it is. -/
def remaining (w : FetchWorker) : List CacheObject := scan (judge w.start w.stop) w.objects

/-- A step that is not stopped publishes no more and no less. -/
theorem published_next (w : FetchWorker) :
    (w.next false).published ++ (w.next false).remaining = w.published ++ w.remaining := by
  obtain ⟨conn, req, start, stop, objects, published⟩ := w
  cases objects with
  | nil => rfl
  | cons o objects =>
    unfold remaining
    dsimp only
    cases hjudge : judge start stop o with
    | skip =>
      rw [scan_of_skip hjudge]
      simp [next, hjudge]
    | take =>
      rw [scan_of_take hjudge]
      simp [next, hjudge]
    | stop =>
      rw [scan_of_stop hjudge]
      simp [next, hjudge, scan]

theorem length_next (w : FetchWorker) (stopped : Bool) :
    (w.next stopped).objects.length ≤ w.objects.length - 1 := by
  unfold next
  split
  · rename_i hobjects
    simp [hobjects]
  · rename_i o objects hobjects
    rw [hobjects]
    split
    · simp
    · split <;> simp

/-- A loop that is not stopped publishes what the scan takes. -/
theorem published_foldl_next {l : List CacheObject} (w : FetchWorker)
    (hl : w.objects.length ≤ l.length) :
    (l.foldl (fun w _ => w.next false) w).published = w.published ++ w.remaining := by
  induction l generalizing w with
  | nil =>
    have hnil : w.objects = [] := List.eq_nil_of_length_eq_zero (Nat.le_zero.mp hl)
    simp [remaining, hnil, scan]
  | cons a l ih =>
    have hlength := w.length_next false
    rw [List.length_cons] at hl
    rw [List.foldl_cons, ih (w.next false) (by omega), w.published_next]

theorem published_finish (w : FetchWorker) : w.finish.published = w.published ++ w.remaining :=
  published_foldl_next w (Nat.le_refl _)

end FetchWorker

end Laps.Delivery
