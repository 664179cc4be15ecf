import Laps.Delivery.Fetch
import Laps.Lib.Runs

/-! Fetches are cancelled while their objects are published.  One flag for each connection and
request is set by a cancel, and only when there is none yet. -/

namespace Laps.Delivery

open Std Client Scan Runs

variable {c : QuicrCache}

inductive FetchEvent where
  | fetchReceived (conn : ConnectionHandle) (requestId : RequestId) (full : FullTrackName)
      (start : Location) (stop : FetchEndLocation)
  | fetchCancelReceived (conn : ConnectionHandle) (requestId : RequestId)
  /-- A thread comes to its next object. -/
  | workerStep (i : ℕ)

namespace FetchServer

def handle (q : Quicr) (m : FetchServer c) : FetchEvent → FetchServer c
  | .fetchReceived conn requestId full start stop =>
    (m.fetchReceived q conn requestId full start stop).1
  | .fetchCancelReceived conn requestId => m.fetchCancelReceived conn requestId
  | .workerStep i => m.workerStep i

def run (q : Quicr) (m : FetchServer c) (events : List FetchEvent) : FetchServer c :=
  events.foldl (handle q) m

end FetchServer

/-- Whose fetch the thread serves. -/
def FetchWorker.key (w : FetchWorker) : ConnectionHandle × RequestId :=
  (w.connectionHandle, w.requestId)

/-- A cancel stops the fetch that it is for, and no other fetch is stopped. -/
structure CancelsOnlyIts (q : Quicr) (groups : c.State → ExtTreeMap UInt64 CacheGroup)
    (m : FetchServer c) (events : List FetchEvent) : Prop where
  /-- After the cancel its thread publishes nothing more. -/
  stops : ∀ before after conn requestId,
    events = before ++ .fetchCancelReceived conn requestId :: after →
    ∀ (i : ℕ) (w : FetchWorker), (m.run q before).workers[i]? = some w →
      w.key = (conn, requestId) → ∃ w' : FetchWorker,
        (m.run q events).workers[i]? = some w' ∧ w'.published = w.published
  /-- The thread of a fetch without a cancel after it publishes the range. -/
  serves : ∀ before after conn requestId full start stop,
    events = before ++ .fetchReceived conn requestId full start stop :: after →
    ((m.run q before).fetchReceived q conn requestId full start stop).2 = .ok →
    .fetchCancelReceived conn requestId ∉ after →
    ∃ w : FetchWorker, (m.run q events).workers[(m.run q before).workers.length]? = some w ∧
      w.key = (conn, requestId) ∧
        IsRange (m.content groups (q.trackHash full).trackFullnameHash) start stop
          w.finish.published

/-- A cancel comes when its fetch has nothing left to publish, and a fetch when the flag is not
set, or with an empty range. -/
def Timely (q : Quicr) (groups : c.State → ExtTreeMap UInt64 CacheGroup) (m : FetchServer c) :
    FetchEvent → Prop
  | .fetchReceived conn requestId full start stop =>
    m.stopFetch[(conn, requestId)]? ≠ some true ∨
      ∀ object, Cached (m.content groups (q.trackHash full).trackFullnameHash) object →
        ¬InRange start stop object.location
  | .fetchCancelReceived conn requestId =>
    ∀ w ∈ m.workers, w.key = (conn, requestId) → w.remaining = []
  | .workerStep _ => True

/-! ### One step of a thread -/

namespace FetchWorker

variable {w : FetchWorker}

theorem key_next (w : FetchWorker) (stopped : Bool) : (w.next stopped).key = w.key := by
  unfold next
  split
  · rfl
  · split
    · rfl
    · split <;> rfl

theorem next_of_isEmpty (h : w.objects.isEmpty = true) (stopped : Bool) : w.next stopped = w := by
  rw [List.isEmpty_iff] at h
  unfold next
  rw [h]

/-- A thread that has nothing to publish publishes nothing. -/
theorem next_of_remaining (h : w.remaining = []) (stopped : Bool) :
    (w.next stopped).published = w.published ∧ (w.next stopped).remaining = [] := by
  cases stopped with
  | false =>
    have heq := w.published_next
    rw [h, List.append_nil] at heq
    have hle : w.published <+: (w.next false).published := by
      unfold next
      split
      · exact List.prefix_rfl
      · rw [if_neg (by decide)]
        split
        · exact List.prefix_rfl
        · exact List.prefix_append _ _
        · exact List.prefix_rfl
    obtain ⟨more, hmore⟩ := hle
    rw [← hmore, List.append_assoc, List.append_right_eq_self, List.append_eq_nil_iff] at heq
    exact ⟨by rw [← hmore, heq.1, List.append_nil], heq.2⟩
  | true =>
    unfold next
    split
    · exact ⟨rfl, h⟩
    · exact ⟨rfl, rfl⟩

end FetchWorker

/-! ### One event -/

namespace FetchServer

variable {q : Quicr} {groups : c.State → ExtTreeMap UInt64 CacheGroup} {m : FetchServer c}

theorem caches_handle (e : FetchEvent) : (m.handle q e).caches = m.caches := by
  cases e with
  | fetchReceived =>
    unfold handle fetchReceived
    dsimp only
    split <;> rfl
  | fetchCancelReceived =>
    unfold handle fetchCancelReceived
    dsimp only
    split <;> rfl
  | workerStep =>
    unfold handle workerStep
    dsimp only
    split
    · rfl
    · split <;> rfl

theorem content_handle (e : FetchEvent) (track : UInt64) :
    (m.handle q e).content groups track = m.content groups track := by
  rw [content, content, caches_handle]

/-- A thread goes on by itself. -/
theorem workers_workerStep (i j : ℕ) : (m.workerStep i).workers[j]? =
    if i = j then m.workers[j]?.map fun w => w.next (m.stopFetch.getD w.key false)
    else m.workers[j]? := by
  unfold workerStep
  split
  · rename_i hnone
    split
    · rename_i hij
      rw [← hij, hnone]
      rfl
    · rfl
  · rename_i w hw
    split
    · rename_i hempty
      split
      · rename_i hij
        rw [← hij, hw, Option.map_some, FetchWorker.next_of_isEmpty hempty]
      · rfl
    · have hlt := (List.getElem?_eq_some_iff.mp hw).1
      dsimp only
      rw [List.getElem?_set, if_pos hlt]
      split
      · rename_i hij
        rw [← hij, hw]
        rfl
      · rfl

/-- A flag that is not set stays so while the threads go on. -/
theorem stopFetch_workerStep {key : ConnectionHandle × RequestId}
    (h : m.stopFetch[key]? = some false) (i : ℕ) :
    (m.workerStep i).stopFetch[key]? = some false := by
  unfold workerStep
  split
  · exact h
  · rename_i w _
    split
    · exact h
    · dsimp only
      by_cases hkey : key = (w.connectionHandle, w.requestId)
      · have hflag : m.stopFetch.getD (w.connectionHandle, w.requestId) false = false := by
          rw [ExtTreeMap.getD_eq_getD_getElem?, ← hkey, h]
          rfl
        rw [hflag, if_neg (by decide), ExtTreeMap.getElem?_insert_ite, if_pos hkey]
      · split
        · rw [ExtTreeMap.getElem?_erase_ite, if_neg hkey]
          exact h
        · rw [ExtTreeMap.getElem?_insert_ite, if_neg hkey]
          exact h

/-- The thread of a fetch that is accepted. -/
theorem fetchReceived_of_ok {conn : ConnectionHandle} {requestId : RequestId}
    {full : FullTrackName} {start : Location} {stop : FetchEndLocation}
    (h : (m.fetchReceived q conn requestId full start stop).2 = .ok) :
    ∃ w, (m.fetchReceived q conn requestId full start stop).1.workers = m.workers ++ [w] ∧
      w.key = (conn, requestId) := by
  have hreason : m.reasonCode (q.trackHash full).trackFullnameHash start stop = .ok := by
    unfold fetchReceived at h
    dsimp only at h
    split at h <;> exact h
  unfold fetchReceived
  dsimp only
  rw [if_pos hreason]
  exact ⟨_, rfl, rfl⟩

theorem fetchReceived_of_not_ok {conn : ConnectionHandle} {requestId : RequestId}
    {full : FullTrackName} {start : Location} {stop : FetchEndLocation}
    (h : (m.fetchReceived q conn requestId full start stop).2 ≠ .ok) :
    (m.fetchReceived q conn requestId full start stop).1.workers = m.workers := by
  have hreason : m.reasonCode (q.trackHash full).trackFullnameHash start stop ≠ .ok := by
    intro hreason
    unfold fetchReceived at h
    dsimp only at h
    rw [if_pos hreason] at h
    exact h hreason
  unfold fetchReceived
  dsimp only
  rw [if_neg hreason]

theorem stopFetch_fetchReceived {conn : ConnectionHandle} {requestId : RequestId}
    {full : FullTrackName} {start : Location} {stop : FetchEndLocation} :
    (m.fetchReceived q conn requestId full start stop).1.stopFetch =
      m.stopFetch.insertIfNew (conn, requestId) false := by
  unfold fetchReceived
  dsimp only
  split <;> rfl

end FetchServer

/-! ### Runs -/

/-- No flag stands in the way of what the threads have left to publish. -/
structure Unflagged (groups : c.State → ExtTreeMap UInt64 CacheGroup) (m : FetchServer c) :
    Prop where
  keyed : ∀ track, Keyed (m.content groups track)
  unset : ∀ w ∈ m.workers, w.remaining ≠ [] → m.stopFetch[w.key]? = some false

section Run

variable {q : Quicr} {groups : c.State → ExtTreeMap UInt64 CacheGroup} {m : FetchServer c}

/-- A fetch leaves the flags of others alone, and its own when there is one. -/
theorem Unflagged.fetchReceived (hc : c.Holds groups) (h : Unflagged groups m)
    {conn : ConnectionHandle} {requestId : RequestId} {full : FullTrackName} {start : Location}
    {stop : FetchEndLocation}
    (htimely : Timely q groups m (.fetchReceived conn requestId full start stop)) :
    ∀ w ∈ (m.fetchReceived q conn requestId full start stop).1.workers, w.remaining ≠ [] →
      (m.fetchReceived q conn requestId full start stop).1.stopFetch[w.key]? = some false := by
  intro w hw hremaining
  rw [FetchServer.stopFetch_fetchReceived, ExtTreeMap.getElem?_insertIfNew_getD]
  have hold : w ∈ m.workers → (if w.key = (conn, requestId) then
      some (m.stopFetch[(conn, requestId)]?.getD false) else m.stopFetch[w.key]?) =
        some false := by
    intro hmem
    have hflag := h.unset w hmem hremaining
    split
    · rename_i hkey
      rw [← hkey, hflag]
      rfl
    · exact hflag
  by_cases hok : (m.fetchReceived q conn requestId full start stop).2 = .ok
  · obtain ⟨new, hworkers, hkey⟩ := FetchServer.fetchReceived_of_ok hok
    rw [hworkers, List.mem_append, List.mem_singleton] at hw
    obtain hmem | rfl := hw
    · exact hold hmem
    · rw [if_pos hkey]
      obtain hunset | hempty := htimely
      · cases hflag : m.stopFetch[(conn, requestId)]? with
        | none => rfl
        | some flag =>
          cases flag with
          | false => rfl
          | true => exact absurd hflag hunset
      · obtain ⟨served, hserved, -, -, hrange⟩ := m.serves_fetchReceived hc (h.keyed _) hok
        rw [hworkers, List.append_cancel_left_eq, List.singleton_inj] at hserved
        subst hserved
        refine absurd (List.eq_nil_iff_forall_not_mem.mpr fun object hobject => ?_) hremaining
        have hpublished : object ∈ w.finish.published := by
          rw [w.published_finish]
          exact List.mem_append_right _ hobject
        obtain ⟨hcached, hin⟩ := (hrange.2 object).mp hpublished
        exact hempty object hcached hin
  · rw [FetchServer.fetchReceived_of_not_ok hok] at hw
    exact hold hw

theorem Unflagged.workerStep (h : Unflagged groups m) (i : ℕ) :
    ∀ w ∈ (m.workerStep i).workers, w.remaining ≠ [] →
      (m.workerStep i).stopFetch[w.key]? = some false := by
  intro w hw hremaining
  refine FetchServer.stopFetch_workerStep ?_ i
  obtain ⟨j, hj⟩ := List.mem_iff_getElem?.mp hw
  rw [FetchServer.workers_workerStep] at hj
  split at hj
  · obtain ⟨old, hold, rfl⟩ := Option.map_eq_some_iff.mp hj
    rw [FetchWorker.key_next]
    refine h.unset old (List.mem_of_getElem? hold) fun hnone => hremaining ?_
    exact (FetchWorker.next_of_remaining hnone _).2
  · exact h.unset w (List.mem_of_getElem? hj) hremaining

theorem Unflagged.handle (hc : c.Holds groups) (h : Unflagged groups m) {e : FetchEvent}
    (htimely : Timely q groups m e) : Unflagged groups (m.handle q e) := by
  refine ⟨fun track => ?_, ?_⟩
  · rw [FetchServer.content_handle]
    exact h.keyed track
  · cases e with
    | fetchReceived conn requestId full start stop => exact h.fetchReceived hc htimely
    | fetchCancelReceived conn requestId =>
      intro w hw hremaining
      unfold FetchServer.handle FetchServer.fetchCancelReceived at hw ⊢
      dsimp only at hw ⊢
      split at hw
      · rename_i hflag
        rw [if_pos hflag]
        exact h.unset w hw hremaining
      · rename_i hflag
        rw [if_neg hflag, ExtTreeMap.getElem?_insert_ite,
          if_neg fun hkey => hremaining (htimely w hw hkey)]
        exact h.unset w hw hremaining
    | workerStep i => exact h.workerStep i

/-- What has happened to a thread: it goes on to publish the same objects, and does not start
again. -/
def GoesOn (w w' : FetchWorker) : Prop :=
  w'.key = w.key ∧ w'.finish.published = w.finish.published ∧
    (w.remaining = [] → w'.remaining = [])

theorem GoesOn.refl (w : FetchWorker) : GoesOn w w := ⟨rfl, rfl, id⟩

theorem GoesOn.trans {w w' w'' : FetchWorker} (h : GoesOn w w') (h' : GoesOn w' w'') :
    GoesOn w w'' :=
  ⟨h'.1.trans h.1, h'.2.1.trans h.2.1, fun hnone => h'.2.2 (h.2.2 hnone)⟩

theorem Unflagged.goesOn_next (h : Unflagged groups m) {w : FetchWorker} (hw : w ∈ m.workers) :
    GoesOn w (w.next (m.stopFetch.getD w.key false)) := by
  by_cases hremaining : w.remaining = []
  · obtain ⟨hpublished, hnone⟩ :=
      FetchWorker.next_of_remaining hremaining (m.stopFetch.getD w.key false)
    refine ⟨w.key_next _, ?_, fun _ => hnone⟩
    rw [FetchWorker.published_finish, FetchWorker.published_finish, hpublished, hnone, hremaining]
  · have hflag : m.stopFetch.getD w.key false = false := by
      rw [ExtTreeMap.getD_eq_getD_getElem?, h.unset w hw hremaining]
      rfl
    rw [hflag]
    refine ⟨w.key_next _, ?_, fun hnone => absurd hnone hremaining⟩
    rw [FetchWorker.published_finish, FetchWorker.published_finish, w.published_next]

theorem Unflagged.goesOn (h : Unflagged groups m) (e : FetchEvent) {i : ℕ} {w : FetchWorker}
    (hw : m.workers[i]? = some w) : ∃ w', (m.handle q e).workers[i]? = some w' ∧ GoesOn w w' := by
  cases e with
  | fetchReceived conn requestId full start stop =>
    refine ⟨w, ?_, GoesOn.refl w⟩
    unfold FetchServer.handle
    by_cases hok : (m.fetchReceived q conn requestId full start stop).2 = .ok
    · obtain ⟨new, hworkers, -⟩ := FetchServer.fetchReceived_of_ok hok
      rw [hworkers, List.getElem?_append_left (List.getElem?_eq_some_iff.mp hw).1]
      exact hw
    · rw [FetchServer.fetchReceived_of_not_ok hok]
      exact hw
  | fetchCancelReceived conn requestId =>
    refine ⟨w, ?_, GoesOn.refl w⟩
    unfold FetchServer.handle FetchServer.fetchCancelReceived
    dsimp only
    split <;> exact hw
  | workerStep j =>
    rw [FetchServer.handle, FetchServer.workers_workerStep]
    split
    · exact ⟨_, by rw [hw]; rfl, h.goesOn_next (List.mem_of_getElem? hw)⟩
    · exact ⟨w, hw, GoesOn.refl w⟩

/-- Any number of events in time. -/
theorem Unflagged.run (hc : c.Holds groups) (h : Unflagged groups m) {events : List FetchEvent}
    (htimely : Each (FetchServer.handle q) (Timely q groups) m events) :
    Unflagged groups (m.run q events) :=
  htimely.inv (fun _ _ h htimely => h.handle hc htimely) h

theorem Unflagged.goesOn_run (hc : c.Holds groups) (h : Unflagged groups m)
    {events : List FetchEvent}
    (htimely : Each (FetchServer.handle q) (Timely q groups) m events) {i : ℕ} {w : FetchWorker}
    (hw : m.workers[i]? = some w) : ∃ w', (m.run q events).workers[i]? = some w' ∧ GoesOn w w' := by
  have hinv : Unflagged groups (m.run q events) ∧
      ∃ w', (m.run q events).workers[i]? = some w' ∧ GoesOn w w' := by
    refine Each.inv (I := fun m => Unflagged groups m ∧
      ∃ w', m.workers[i]? = some w' ∧ GoesOn w w') ?_ ⟨h, w, hw, GoesOn.refl w⟩ htimely
    rintro m e ⟨h, w', hw', hgoes⟩ htimely
    obtain ⟨w'', hw'', hgoes'⟩ := h.goesOn e hw'
    exact ⟨h.handle hc htimely, w'', hw'', hgoes.trans hgoes'⟩
  exact hinv.2

theorem content_run (m : FetchServer c) (events : List FetchEvent) (track : UInt64) :
    (m.run q events).content groups track = m.content groups track := by
  induction events generalizing m with
  | nil => rfl
  | cons e events ih => exact (ih (m.handle q e)).trans (FetchServer.content_handle e track)

theorem workers_cacheCalls (m : FetchServer c) (calls : List CacheCall) :
    (m.cacheCalls calls).workers = m.workers := by
  induction calls generalizing m with
  | nil => rfl
  | cons call calls ih =>
    refine (ih (m.cacheCall call)).trans ?_
    cases call with
    | objectReceived trackAlias object =>
      unfold FetchServer.cacheCall FetchServer.cacheObject
      dsimp only
      split <;> rfl
    | advance trackAlias => rfl

end Run

/-- In a run whose cancels and fetches come in time, a cancel stops its fetch and no other. -/
theorem cancelsOnlyIts_of_timely {groups : c.State → ExtTreeMap UInt64 CacheGroup}
    (hc : c.Holds groups) (q : Quicr) (disableCache : Bool) (calls : List CacheCall)
    (events : List FetchEvent)
    (htimely : Each (FetchServer.handle q) (Timely q groups)
      ((FetchServer.start c disableCache).cacheCalls calls) events) :
    CancelsOnlyIts q groups ((FetchServer.start c disableCache).cacheCalls calls) events := by
  have hstart : Unflagged groups ((FetchServer.start c disableCache).cacheCalls calls) := by
    refine ⟨FetchServer.keyed_cacheCalls hc disableCache calls, fun w hw => ?_⟩
    rw [workers_cacheCalls] at hw
    exact absurd hw List.not_mem_nil
  generalize (FetchServer.start c disableCache).cacheCalls calls = m at hstart htimely
  refine ⟨?_, ?_⟩
  · rintro before after conn requestId rfl i w hw hkey
    obtain ⟨hbefore, hrest⟩ := each_append.mp htimely
    have hinv : Unflagged groups (m.run q before) := hstart.run hc hbefore
    have hnone : w.remaining = [] := hrest.1 w (List.mem_of_getElem? hw) hkey
    obtain ⟨w', hw', -, hsame, hnone'⟩ := hinv.goesOn_run hc hrest hw
    refine ⟨w', ?_, ?_⟩
    · rw [FetchServer.run, List.foldl_append]
      exact hw'
    · rw [FetchWorker.published_finish, FetchWorker.published_finish, hnone, hnone' hnone,
        List.append_nil, List.append_nil] at hsame
      exact hsame
  · rintro before after conn requestId full start stop rfl hok -
    obtain ⟨hbefore, hfetch, hafter⟩ := each_append.mp htimely
    have hinv : Unflagged groups (m.run q before) := hstart.run hc hbefore
    obtain ⟨w, hworkers, hconn, hrequest, hrange⟩ :=
      (m.run q before).serves_fetchReceived hc (hinv.keyed _) hok
    have hw : ((m.run q before).handle q (.fetchReceived conn requestId full start stop)).workers[
        (m.run q before).workers.length]? = some w := by
      rw [FetchServer.handle, hworkers, List.getElem?_concat_length]
    obtain ⟨w', hw', hkey, hsame, -⟩ := (hinv.handle hc hfetch).goesOn_run hc hafter hw
    refine ⟨w', ?_, ?_, ?_⟩
    · rw [FetchServer.run, List.foldl_append]
      exact hw'
    · rw [hkey, FetchWorker.key, hconn, hrequest]
    · rw [hsame, ← content_run m before]
      exact hrange

/-- A fetch of the objects of the track, its thread at work, and a cancel. -/
def fetchedThenCancelled : List FetchEvent :=
  [.fetchReceived 5 7 someTrack ⟨1, 0⟩ ⟨2, none⟩, .workerStep 0, .fetchCancelReceived 5 7,
    .workerStep 0]

/-- The cancel comes first, and the fetch after it. -/
def cancelledThenFetched : List FetchEvent :=
  [.fetchCancelReceived 5 7, .fetchReceived 5 7 someTrack ⟨1, 0⟩ ⟨2, none⟩, .workerStep 0]

/-- A cancel after the last object. -/
theorem cancelsOnlyIts_afterwards :
    CancelsOnlyIts .polynomial id ((FetchServer.start .table false).cacheCalls fourObjects)
      [.fetchReceived 5 7 someTrack ⟨2, 4⟩ ⟨2, none⟩, .workerStep 0, .workerStep 0,
        .fetchCancelReceived 5 7] := by
  refine cancelsOnlyIts_of_timely QuicrCache.holds_table .polynomial false fourObjects _ ?_
  refine ⟨.inl (by decide +kernel), trivial, trivial, ?_, trivial⟩
  unfold Timely
  decide +kernel

/-- The thread publishes one more object after the cancel, and the fetch after a cancel none. -/
theorem not_cancelsOnlyIts :
    ¬CancelsOnlyIts .polynomial id ((FetchServer.start .table false).cacheCalls fourObjects)
        fetchedThenCancelled ∧
      ¬CancelsOnlyIts .polynomial id ((FetchServer.start .table false).cacheCalls fourObjects)
        cancelledThenFetched := by
  refine ⟨fun h => ?_, fun h => ?_⟩
  · obtain ⟨w', hw', hpublished⟩ := h.stops
      [.fetchReceived 5 7 someTrack ⟨1, 0⟩ ⟨2, none⟩, .workerStep 0] [.workerStep 0] 5 7 rfl 0 _ rfl
      rfl
    revert w'
    decide +kernel
  · obtain ⟨w, hw, -, hrange⟩ := h.serves [.fetchCancelReceived 5 7] [.workerStep 0] 5 7 someTrack
      ⟨1, 0⟩ ⟨2, none⟩ rfl (by decide +kernel) (by simp)
    have hcached := (hrange.2 (objectAt 1 1)).mpr ⟨⟨1, 1, by decide +kernel⟩, by decide⟩
    revert hcached
    obtain rfl := Option.some.inj (hw.symm.trans rfl)
    decide +kernel

end Laps.Delivery
