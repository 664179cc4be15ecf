import Laps.Relay.Local

/-! Whether a handler has all subscribers of its track.  A call that takes away takes a client off
the handlers with its subscription; a handler that is made in the place of one that went is given
some of the subscribers only. -/

namespace Laps

open Std Client Peering

namespace Client.State

/-- Every handler of a track has all clients that are subscribed to the track. -/
def ReachesSubscribers (st : State) : Prop :=
  ∀ (key : UInt64 × ConnectionHandle) h c, st.pubSubscribes[key]? = some h →
    st.Subscribed key.1 c → h.subscribers.contains c = true

/-- A subscription is under the hash of its track. -/
def Hashed (q : Quicr) (st : State) : Prop :=
  ∀ (key : UInt64 × ConnectionHandle) info, st.subscribes[key]? = some info →
    (q.trackHash info.trackFullName).trackFullnameHash = key.1

variable {q : Quicr} {st st' : State} {records : Records} {creates peers : Prop}

theorem Hashed.change (hchange : Change q records creates peers st st') (h : Hashed q st) :
    Hashed q st' :=
  fun key _ hget => subscribes_change
    (A := fun key info => (q.trackHash info.trackFullName).trackFullnameHash = key.1)
    (fun _ _ _ _ _ _ => rfl) hchange h key hget

/-- Where nothing is recorded and no handler is made, no subscriber is left out. -/
theorem ReachesSubscribers.change (hhashed : Hashed q st)
    (hchange : Change q (fun _ _ _ _ => False) False False st st') (h : st.ReachesSubscribers) :
    st'.ReachesSubscribers := by
  intro key handler c hget hsub
  cases hchange with
  | record hrecords _ => exact hrecords.elim
  | unsubscribe halias hinfo =>
    rename_i conn req trackAlias sub
    obtain ⟨hne, hsub⟩ := exists_unsubscribe.mp (subscribed_iff.mp hsub)
    have hget : (st.pubSubscribes.map fun key h =>
        if key.1 = (q.trackHash sub.trackFullName).trackFullnameHash then h.removeSubscriber conn
        else h)[key]? = some handler := hget
    rw [ExtTreeMap.getElem?_map, Option.map_eq_some_iff] at hget
    obtain ⟨old, hold, rfl⟩ := hget
    have hc := h key old c hold (subscribed_iff.mpr hsub)
    split
    · rename_i heq
      rw [hhashed _ _ hinfo] at heq
      -- The client that goes is another one.
      refine (Relay.contains_removeSubscriber ..).mpr ⟨fun hconn => hne ?_, hc⟩
      rw [hconn]
      exact Prod.ext heq rfl
    · exact hc
  | handlers hsubscribes _ _ hhandlers =>
    have hsub : st.Subscribed key.1 c := by
      unfold Subscribed at hsub ⊢
      rwa [hsubscribes] at hsub
    obtain ⟨old, hold, hkept, -⟩ | ⟨hcreates, -⟩ := hhandlers key handler hget
    · exact (hkept c (h key old c hold hsub)).resolve_right fun hpeer => hpeer.2
    · exact hcreates.elim

end Client.State

namespace Relay

open State

variable {q : Quicr} {r r' : Relay}

/-- After a call that makes no handler. -/
theorem reachesSubscribers_changes {st st' : State} (hhashed : Hashed q st)
    (hchanges : Changes q (fun _ _ _ _ => False) False False st st') (h : st.ReachesSubscribers) :
    st'.ReachesSubscribers :=
  (hchanges.keeps (P := fun st => Hashed q st ∧ st.ReachesSubscribers)
    (fun _ _ hchange hst => ⟨hst.1.change hchange, hst.2.change hst.1 hchange⟩) ⟨hhashed, h⟩).2

/-! ### Subscriptions -/

section Subscribe

variable {hash : UInt64} {full : FullTrackName} {conn : ConnectionHandle} {s : Subscriber}

/-- The publisher has announced a namespace of the track, and there is no handler of the track for
it. -/
def AwaitsHandler (q : Quicr) (r : Relay) (hash : UInt64) (full : FullTrackName)
    (key : TrackNamespace × ConnectionHandle) : Prop :=
  q.hasSamePrefix key.1 full.nameSpace = true ∧ key.2 ≠ 0 ∧
    r.state.pubSubscribes.contains (hash, key.2) = false

/-- What one announcer does: it gets a handler with the one subscriber, if it has none. -/
theorem subscribeToAnnouncer_cases (q : Quicr) (hash : UInt64) (full : FullTrackName)
    (conn : ConnectionHandle) (s : Subscriber) (r : Relay)
    (entry : (TrackNamespace × ConnectionHandle) × ExtTreeSet UInt64) :
    subscribeToAnnouncer q hash full conn s r entry = r ∨
    AwaitsHandler q r hash full entry.1 ∧ ∃ handler : SubscribeTrackHandler,
      handler.id = r.state.handlers ∧ (∀ c, handler.subscribers.contains c = true ↔ c = conn) ∧
      (subscribeToAnnouncer q hash full conn s r entry).state = { r.state with
        handlers := r.state.handlers + 1
        pubNamespaceActive := r.state.pubNamespaceActive.insert entry.1 (entry.2.insert hash)
        pubSubscribesByReqId := r.state.pubSubscribesByReqId.insert
          (q.subscribeTrack entry.1.2 r.state.handlers, entry.1.2) (r.state.handlers, full)
        pubSubscribes := r.state.pubSubscribes.insert (hash, entry.1.2) handler } := by
  unfold subscribeToAnnouncer
  dsimp only
  split
  · exact .inl rfl
  · rename_i hmatches
    split
    · exact .inl rfl
    · rename_i hmissing
      rw [Bool.or_eq_true, Bool.not_eq_true', decide_eq_true_eq, not_or] at hmatches
      rw [Bool.not_eq_true] at hmissing
      have hsame := sameHandler_addSubscriber (r.newHandler full false).1 conn s
      refine .inr ⟨⟨Bool.not_eq_false _ ▸ hmatches.1, hmatches.2, hmissing⟩, _, hsame.id,
        fun c => ?_, rfl⟩
      rw [contains_addSubscriber]
      have hnone : ¬(r.newHandler full false).1.subscribers.contains c = true := by
        intro hc
        cases hc
      exact or_iff_left hnone

/-- An announcer that has no handler later had none before. -/
theorem AwaitsHandler.of_insert {r₀ : Relay} {key : UInt64 × ConnectionHandle}
    {handler : SubscribeTrackHandler} {announcer : TrackNamespace × ConnectionHandle}
    (hhandlers : r.state.pubSubscribes = r₀.state.pubSubscribes.insert key handler)
    (h : AwaitsHandler q r hash full announcer) : AwaitsHandler q r₀ hash full announcer := by
  refine ⟨h.1, h.2.1, ?_⟩
  have hnone := ExtTreeMap.contains_eq_false_iff.mp h.2.2
  rw [hhandlers, ExtTreeMap.getElem?_insert_ite] at hnone
  split at hnone
  · cases hnone
  · exact ExtTreeMap.contains_eq_false_iff.mpr hnone

/-- The handlers that are made have the one subscriber, so that there must not be another. -/
theorem reachesSubscribers_subscribeToAnnouncers
    (l : List ((TrackNamespace × ConnectionHandle) × ExtTreeSet UInt64))
    (hone : ∀ entry ∈ l, AwaitsHandler q r hash full entry.1 →
      ∀ c, r.state.Subscribed hash c → c = conn)
    (h : r.state.ReachesSubscribers) :
    (l.foldl (subscribeToAnnouncer q hash full conn s) r).state.ReachesSubscribers := by
  induction l generalizing r with
  | nil => exact h
  | cons entry l ih =>
    rw [List.foldl_cons]
    have hrest := fun entry hentry => hone entry (List.mem_cons_of_mem _ hentry)
    obtain hsame | ⟨hawaits, handler, -, hsubscribers, hstate⟩ :=
      subscribeToAnnouncer_cases q hash full conn s r entry
    · rw [hsame]
      exact ih hrest h
    · refine ih (fun entry' hentry' hawaits' c hsubscribed => ?_) fun key h' c hget hsubscribed => ?_
      · rw [hstate] at hsubscribed
        exact hrest entry' hentry' (hawaits'.of_insert (congrArg State.pubSubscribes hstate)) c
          hsubscribed
      · rw [hstate] at hget hsubscribed
        change (r.state.pubSubscribes.insert (hash, entry.1.2) handler)[key]? = some h' at hget
        rw [ExtTreeMap.getElem?_insert_ite] at hget
        split at hget
        · rename_i heq
          subst heq
          cases hget
          exact (hsubscribers c).mpr (hone entry List.mem_cons_self hawaits c hsubscribed)
        · exact h key h' c hget hsubscribed

/-- Where a client has subscribed to the track, it is put on all handlers of the track. -/
theorem reachesSubscribers_addToHandlers
    (h : ∀ (key : UInt64 × ConnectionHandle) h c, r.state.pubSubscribes[key]? = some h →
      r.state.Subscribed key.1 c → h.subscribers.contains c = true ∨ (key.1 = hash ∧ c = conn)) :
    (r.addToHandlers hash conn s).state.ReachesSubscribers := by
  intro key h' c hget hsub
  have hget : (r.state.pubSubscribes.map fun key h =>
      if key.1 = hash then (if h.isPublisherInitiated then h.resume else h).addSubscriber conn s
      else h)[key]? = some h' := hget
  rw [ExtTreeMap.getElem?_map, Option.map_eq_some_iff] at hget
  obtain ⟨old, hold, rfl⟩ := hget
  have hc := h key old c hold hsub
  split
  · rw [contains_addSubscriber]
    have hresume : (if old.isPublisherInitiated then old.resume else old).subscribers =
        old.subscribers := by
      split <;> rfl
    rw [hresume]
    exact hc.symm.imp_left And.right
  · rename_i hne
    exact hc.resolve_right fun heq => hne heq.1

theorem contains_addToHandlers (key : UInt64 × ConnectionHandle) :
    (r.addToHandlers hash conn s).state.pubSubscribes.contains key =
      r.state.pubSubscribes.contains key := by
  show (r.state.pubSubscribes.map _).contains key = _
  rw [ExtTreeMap.contains_map]

/-- No client is subscribed to the track while an announcer of it has no handler. -/
def NoneWaits (q : Quicr) (r : Relay) (hash : UInt64) (full : FullTrackName) : Prop :=
  ∀ key tracks, r.state.pubNamespaceActive[key]? = some tracks → AwaitsHandler q r hash full key →
    ∀ c, ¬r.state.Subscribed hash c

theorem reachesSubscribers_processPeerSubscribe {th : TrackHash} {attrs : SubscribeAttributes}
    (hnone : NoneWaits q r th.trackFullnameHash full) (h : r.state.ReachesSubscribers) :
    (r.processSubscribe q 0 0 th full attrs).state.ReachesSubscribers := by
  refine reachesSubscribers_subscribeToAnnouncers _ ?_
    (reachesSubscribers_addToHandlers fun key h' c hget hsub => .inl (h key h' c hget hsub))
  rintro ⟨key, tracks⟩ hentry hawaits c hsub
  have hawaits : AwaitsHandler q r th.trackFullnameHash full key :=
    ⟨hawaits.1, hawaits.2.1, (contains_addToHandlers _).symm.trans hawaits.2.2⟩
  exact absurd hsub
    (hnone key tracks (ExtTreeMap.mem_toList_iff_getElem?_eq_some.mp hentry) hawaits c)

theorem reachesSubscribers_subscribeReceived {req : RequestId} {attrs : SubscribeAttributes}
    (hnone : ¬r.state.Subscribed (q.trackHash full).trackFullnameHash conn →
      NoneWaits q r (q.trackHash full).trackFullnameHash full)
    (h : r.state.ReachesSubscribers) :
    (r.subscribeReceived q conn req full attrs).state.ReachesSubscribers := by
  unfold subscribeReceived
  dsimp only
  split
  · exact h
  · rename_i hnew
    by_cases hzero : conn = 0 ∧ req = 0
    · obtain ⟨rfl, rfl⟩ := hzero
      exact reachesSubscribers_processPeerSubscribe (hnone hnew) h
    · unfold processSubscribe
      dsimp only
      rw [if_neg hzero]
      set r₁ := r.recordSubscribe q conn req (q.trackHash full) full attrs with hr₁
      have hstate : r₁.state = r.state.record q conn req full attrs := by
        rw [hr₁]
        unfold recordSubscribe
        rw [state_clientSubscribe]
        rfl
      have hsub : ∀ hash c, r₁.state.Subscribed hash c →
          (hash = (q.trackHash full).trackFullnameHash ∧ c = conn) ∨ r.state.Subscribed hash c := by
        intro hash c hsub
        rw [hstate] at hsub
        obtain ⟨heq, -⟩ | hold := (exists_record hnew).mp (subscribed_iff.mp hsub)
        · exact .inl (Prod.mk.inj heq)
        · exact .inr (subscribed_iff.mpr hold)
      have hhandlers : r₁.state.pubSubscribes = r.state.pubSubscribes := by
        rw [hstate]
        rfl
      refine reachesSubscribers_subscribeToAnnouncers _ ?_
        (reachesSubscribers_addToHandlers fun key h' c hget hsubscribed => ?_)
      · rintro ⟨key, tracks⟩ hentry hawaits c hsubscribed
        have hawaits : AwaitsHandler q r (q.trackHash full).trackFullnameHash full key := by
          refine ⟨hawaits.1, hawaits.2.1, ?_⟩
          rw [← hhandlers]
          exact (contains_addToHandlers _).symm.trans hawaits.2.2
        have hactive : r.state.pubNamespaceActive[key]? = some tracks := by
          have hentry := ExtTreeMap.mem_toList_iff_getElem?_eq_some.mp hentry
          change r₁.state.pubNamespaceActive[key]? = some tracks at hentry
          rwa [hstate] at hentry
        obtain ⟨-, hc⟩ | hold := hsub _ c hsubscribed
        · exact hc
        · exact absurd hold (hnone hnew key tracks hactive hawaits c)
      · obtain hself | hold := hsub _ c hsubscribed
        · exact .inr hself
        · rw [hhandlers] at hget
          exact .inl (h key h' c hget hold)

end Subscribe

/-! ### Publications -/

section Publish

theorem reachesSubscribers_publishReceived (hown : r.OwnOnly) (h : r.state.ReachesSubscribers)
    (conn : ConnectionHandle) (req : RequestId) (full : FullTrackName) :
    (r.publishReceived q conn req full).state.ReachesSubscribers := by
  obtain ⟨handler, -, -, -, hsubscribers, hstate⟩ :=
    hown.state_publishReceived (q := q) conn req full
  intro key h' c hget hsub
  rw [hstate] at hget hsub
  change r.state.Subscribed key.1 c at hsub
  change (r.state.pubSubscribes.insert ((q.trackHash full).trackFullnameHash, conn)
    handler)[key]? = some h' at hget
  rw [ExtTreeMap.getElem?_insert_ite] at hget
  split at hget
  · rename_i heq
    subst heq
    cases hget
    exact (hsubscribers c).mpr hsub
  · exact h key h' c hget hsub

/-- An entry of the active subscriptions that a publisher of the namespace gets a handler for: the
alias of the first subscription, which is not among the tracks that the publisher is asked for. -/
def GetsHandler (q : Quicr) (r : Relay) (nameSpace : TrackNamespace) (conn : ConnectionHandle)
    (entry : (TrackNamespace × UInt64) ×
      ExtTreeMap (ConnectionHandle × RequestId) State.SubscribeInfo compare) (hash : UInt64) : Prop :=
  q.hasSamePrefix entry.1.1 nameSpace = true ∧
    ∃ first, entry.2.toList.head? = some first ∧ first.2.trackAlias = hash ∧
      (r.state.pubNamespaceActive.getD (nameSpace, conn) ∅).contains hash = false ∧
      r.state.Subscribed hash first.1.1

/-- All subscribers of the tracks that a publisher of the namespace gets handlers for are in the
sets that the handlers are made from. -/
def AllInEntry (q : Quicr) (r : Relay) (nameSpace : TrackNamespace) (conn : ConnectionHandle) :
    Prop :=
  ∀ entry ∈ r.state.subscribeActive.toList, ∀ hash, GetsHandler q r nameSpace conn entry hash →
    ∀ c, r.state.Subscribed hash c → ∃ req : RequestId, entry.2.contains (c, req) = true

variable {nameSpace : TrackNamespace} {conn : ConnectionHandle}

/-- What one entry does. -/
theorem subscribeToPublisher_cases (q : Quicr) (nameSpace : TrackNamespace)
    (conn : ConnectionHandle) (r : Relay)
    (entry : (TrackNamespace × UInt64) ×
      ExtTreeMap (ConnectionHandle × RequestId) State.SubscribeInfo compare) :
    subscribeToPublisher q nameSpace conn r entry = r ∨
    ∃ hash, (r.state.pubNamespaceActive.getD (nameSpace, conn) ∅).contains hash = false ∧
      (subscribeToPublisher q nameSpace conn r entry).state.pubNamespaceActive =
        r.state.pubNamespaceActive.insert (nameSpace, conn)
          ((r.state.pubNamespaceActive.getD (nameSpace, conn) ∅).insert hash) ∧
      ((subscribeToPublisher q nameSpace conn r entry).state.pubSubscribes =
          r.state.pubSubscribes ∨
        GetsHandler q r nameSpace conn entry hash ∧ ∃ handler : SubscribeTrackHandler,
          handler.id = r.state.handlers ∧ handler.isPublisherInitiated = false ∧
          (∀ c, handler.subscribers.contains c = true ↔
            ∃ req : RequestId, entry.2.contains (c, req) = true) ∧
          (subscribeToPublisher q nameSpace conn r entry).state.pubSubscribes =
            r.state.pubSubscribes.insert (hash, conn) handler) := by
  unfold subscribeToPublisher
  split
  · exact .inl rfl
  · rename_i hmatches
    split
    · exact .inl rfl
    · rename_i subConn req active rest hrow
      dsimp only
      split
      · exact .inl rfl
      · rename_i hnew
        refine .inr ⟨active.trackAlias, Bool.not_eq_true _ ▸ hnew, ?_⟩
        split
        · exact ⟨rfl, .inl rfl⟩
        · rename_i sub hsub
          set handler := entry.2.toList.foldl
            (fun h (sub : (ConnectionHandle × RequestId) × State.SubscribeInfo) =>
              h.addSubscriber sub.1.1 ⟨sub.1.2, sub.2.priority, sub.2.deliveryTimeout,
                sub.2.startLocation⟩) (r.newHandler sub.trackFullName false).1 with hhandler
          have hsame : SameHandler (r.newHandler sub.trackFullName false).1 handler :=
            foldl_related .refl .trans (fun h _ => sameHandler_addSubscriber h _ _) _ _
          refine ⟨rfl, .inr ⟨⟨by simpa using hmatches, _, by rw [hrow]; rfl, rfl,
            Bool.not_eq_true _ ▸ hnew, ?_⟩, handler, hsame.id, hsame.isPublisherInitiated,
            fun c => ?_, rfl⟩⟩
          · exact ExtTreeMap.contains_iff_getElem?.mpr ⟨sub, hsub⟩
          · rw [hhandler, contains_foldl_addSubscriber
              (fun x : (ConnectionHandle × RequestId) × State.SubscribeInfo => x.1.1)]
            have hnone : ¬(r.newHandler sub.trackFullName false).1.subscribers.contains c = true := by
              intro hc
              cases hc
            rw [or_iff_left hnone]
            constructor
            · rintro ⟨⟨⟨c', req'⟩, info⟩, hmem, rfl⟩
              exact ⟨req', ExtTreeMap.contains_iff_getElem?.mpr
                ⟨info, ExtTreeMap.mem_toList_iff_getElem?_eq_some.mp hmem⟩⟩
            · rintro ⟨req', hc⟩
              obtain ⟨info, hinfo⟩ := ExtTreeMap.contains_iff_getElem?.mp hc
              exact ⟨((c, req'), info), ExtTreeMap.mem_toList_iff_getElem?_eq_some.mpr hinfo, rfl⟩

/-- The more tracks the publisher is asked for, the fewer handlers it gets. -/
theorem GetsHandler.of_later {r₀ : Relay} {hash : UInt64}
    {entry : (TrackNamespace × UInt64) ×
      ExtTreeMap (ConnectionHandle × RequestId) State.SubscribeInfo compare}
    (hsubscribes : r.state.subscribes = r₀.state.subscribes)
    (htracks : ∀ hash, (r₀.state.pubNamespaceActive.getD (nameSpace, conn) ∅).contains hash = true →
      (r.state.pubNamespaceActive.getD (nameSpace, conn) ∅).contains hash = true)
    (h : GetsHandler q r nameSpace conn entry hash) : GetsHandler q r₀ nameSpace conn entry hash := by
  obtain ⟨hmatches, first, hfirst, halias, hnew, hsub⟩ := h
  refine ⟨hmatches, first, hfirst, halias, ?_, ?_⟩
  · rw [← Bool.not_eq_true]
    intro hold
    rw [htracks hash hold] at hnew
    cases hnew
  · unfold Subscribed at hsub ⊢
    rwa [hsubscribes] at hsub

theorem reachesSubscribers_subscribeToPublisher
    {entry : (TrackNamespace × UInt64) ×
      ExtTreeMap (ConnectionHandle × RequestId) State.SubscribeInfo compare}
    (hall : ∀ hash, GetsHandler q r nameSpace conn entry hash → ∀ c, r.state.Subscribed hash c →
      ∃ req : RequestId, entry.2.contains (c, req) = true)
    (h : r.state.ReachesSubscribers) :
    (subscribeToPublisher q nameSpace conn r entry).state.ReachesSubscribers := by
  obtain heq | ⟨hash, -, -, hhandlers⟩ := subscribeToPublisher_cases q nameSpace conn r entry
  · rwa [heq]
  · have hsubscribes := (sameInterest_subscribeToPublisher q nameSpace conn r entry).subscribes
    intro key h' c hget hsub
    have hsub : r.state.Subscribed key.1 c := by
      unfold Subscribed at hsub ⊢
      rwa [hsubscribes] at hsub
    obtain hhandlers | ⟨hgets, handler, -, -, hsubscribers, hhandlers⟩ := hhandlers
    · rw [hhandlers] at hget
      exact h key h' c hget hsub
    · rw [hhandlers, ExtTreeMap.getElem?_insert_ite] at hget
      split at hget
      · rename_i heq
        subst heq
        cases hget
        exact (hsubscribers c).mpr (hall hash hgets c hsub)
      · exact h key h' c hget hsub

/-- The tracks that the publisher is asked for only become more. -/
theorem tracks_subscribeToPublisher
    {entry : (TrackNamespace × UInt64) ×
      ExtTreeMap (ConnectionHandle × RequestId) State.SubscribeInfo compare} {hash : UInt64}
    (hold : (r.state.pubNamespaceActive.getD (nameSpace, conn) ∅).contains hash = true) :
    ((subscribeToPublisher q nameSpace conn r entry).state.pubNamespaceActive.getD
      (nameSpace, conn) ∅).contains hash = true := by
  obtain heq | ⟨hash', -, htracks, -⟩ := subscribeToPublisher_cases q nameSpace conn r entry
  · rwa [heq]
  · rw [htracks, ExtTreeMap.getD_insert_self, ExtTreeSet.contains_insert, hold, Bool.or_true]

theorem reachesSubscribers_subscribeToPublishers
    (l : List ((TrackNamespace × UInt64) ×
      ExtTreeMap (ConnectionHandle × RequestId) State.SubscribeInfo compare))
    (hall : ∀ entry ∈ l, ∀ hash, GetsHandler q r nameSpace conn entry hash →
      ∀ c, r.state.Subscribed hash c → ∃ req : RequestId, entry.2.contains (c, req) = true)
    (h : r.state.ReachesSubscribers) :
    (l.foldl (subscribeToPublisher q nameSpace conn) r).state.ReachesSubscribers := by
  induction l generalizing r with
  | nil => exact h
  | cons entry l ih =>
    have hsubscribes := (sameInterest_subscribeToPublisher q nameSpace conn r entry).subscribes
    refine ih (fun entry' hentry' hash hgets c hsub => ?_)
      (reachesSubscribers_subscribeToPublisher (hall entry List.mem_cons_self) h)
    refine hall entry' (List.mem_cons_of_mem _ hentry') hash
      (hgets.of_later hsubscribes fun _ hold => tracks_subscribeToPublisher hold) c ?_
    unfold Subscribed at hsub ⊢
    rwa [hsubscribes] at hsub

/-- A publisher of a namespace gets the handlers after it is recorded, when it is a client. -/
theorem OwnOnly.state_publishNamespaceReceived (hown : r.OwnOnly) (conn : ConnectionHandle)
    (nameSpace : TrackNamespace) (req : RequestId) :
    ∃ r₂ : Relay, ∃ requests pubNamespaceActive,
      r₂.state = { r.state with requests, pubNamespaceActive } ∧
      (∀ entry hash, GetsHandler q r₂ nameSpace conn entry hash →
        GetsHandler q r nameSpace conn entry hash) ∧
      ((r.publishNamespaceReceived q conn nameSpace req).state = r₂.state ∨
        conn ≠ 0 ∧ (r.publishNamespaceReceived q conn nameSpace req).state =
          (r.state.subscribeActive.toList.foldl (subscribeToPublisher q nameSpace conn) r₂).state) := by
  unfold publishNamespaceReceived
  dsimp only
  set r₁ := r.mapState fun st => { st with requests := st.requests.insert (conn, req) nameSpace }
  split
  · refine ⟨r₁, r₁.state.requests, r₁.state.pubNamespaceActive, rfl, ?_, ?_⟩
    · intro entry hash hgets
      exact hgets.of_later rfl fun _ hold => hold
    · split
      · exact .inl rfl
      · rename_i hconn
        exact .inr ⟨hconn, rfl⟩
  · rename_i hnew
    set r₂ := r₁.mapState fun st => { st with
      pubNamespaceActive := st.pubNamespaceActive.insertIfNew (nameSpace, conn) ∅ }
    refine ⟨r₂, r₂.state.requests, r₂.state.pubNamespaceActive, rfl, ?_, ?_⟩
    · intro entry hash hgets
      refine GetsHandler.of_later (r := r₂) rfl (fun hash hold => ?_) hgets
      have hempty : r.state.pubNamespaceActive.getD (nameSpace, conn) ∅ = ∅ :=
        ExtTreeMap.getD_eq_fallback_of_contains_eq_false (Bool.eq_false_iff.mpr hnew)
      rw [hempty, ExtTreeSet.contains_empty] at hold
      cases hold
    · split
      · exact .inl rfl
      · rename_i hconn
        refine .inr ⟨hconn, ?_⟩
        have hsame : SameInterest r₂ (r₂.state.subscribeActive.toList.foldl
            (subscribeToPublisher q nameSpace conn) r₂) :=
          foldl_related .refl .trans (sameInterest_subscribeToPublisher q nameSpace conn) _ _
        have hown₂ : r₂.OwnOnly := hown
        exact (hown₂.of_sameInterest hsame).state_clientAnnounce _ false true

theorem reachesSubscribers_publishNamespaceReceived {req : RequestId} (hown : r.OwnOnly)
    (hall : conn ≠ 0 → AllInEntry q r nameSpace conn) (h : r.state.ReachesSubscribers) :
    (r.publishNamespaceReceived q conn nameSpace req).state.ReachesSubscribers := by
  obtain ⟨r₂, requests, active, hr₂, hgets₂, hstate⟩ :=
    hown.state_publishNamespaceReceived (q := q) conn nameSpace req
  have h₂ : r₂.state.ReachesSubscribers := by
    rw [hr₂]
    exact h
  obtain hstate | ⟨hconn, hstate⟩ := hstate
  · rwa [hstate]
  · rw [hstate]
    refine reachesSubscribers_subscribeToPublishers _ (fun entry hentry hash hgets c hsub => ?_) h₂
    rw [hr₂] at hsub
    exact hall hconn entry hentry hash (hgets₂ entry hash hgets) c hsub

end Publish

/-! ### Runs -/

/-- Before a call that makes handlers: all subscribers of their tracks are given to them. -/
def JoinsAll (q : Quicr) (r : Relay) : LocalCall → Prop
  | .client (.subscribeReceived conn _ full _) =>
    ¬r.state.Subscribed (q.trackHash full).trackFullnameHash conn →
      NoneWaits q r (q.trackHash full).trackFullnameHash full
  | .client (.publishNamespaceReceived conn nameSpace _) =>
    conn ≠ 0 → AllInEntry q r nameSpace conn
  | .peerSubscribe th full _ => NoneWaits q r th.trackFullnameHash full
  | _ => True

theorem changes_localCall {call : LocalCall} (hcall : r.localCall q call = some r') :
    Changes q (fun _ _ _ _ => True) True True r.state r'.state := by
  cases call with
  | client call =>
    cases hcall
    exact changes_call fun _ _ _ _ => trivial
  | peerSubscribe th full attrs =>
    cases hcall
    exact changes_processPeerSubscribe trivial th full attrs
  | statusError conn full =>
    cases hcall
    exact changes_statusError r conn full

theorem reachesSubscribers_localCall {call : LocalCall} (hown : r.OwnOnly)
    (hhashed : Hashed q r.state) (hjoins : JoinsAll q r call) (h : r.state.ReachesSubscribers)
    (hcall : r.localCall q call = some r') : r'.state.ReachesSubscribers := by
  cases call with
  | client call =>
    cases hcall
    cases call with
    | subscribeReceived conn req full attrs => exact reachesSubscribers_subscribeReceived hjoins h
    | unsubscribeReceived conn req =>
      exact reachesSubscribers_changes hhashed (changes_unsubscribeReceived r conn req) h
    | connectionStatusChanged conn status =>
      exact reachesSubscribers_changes hhashed (changes_connectionStatusChanged r conn status) h
    | publishReceived conn req full => exact reachesSubscribers_publishReceived hown h conn req full
    | publishDoneReceived conn req =>
      exact reachesSubscribers_changes hhashed (changes_publishDoneReceived r conn req) h
    | publishNamespaceReceived conn nameSpace req =>
      exact reachesSubscribers_publishNamespaceReceived hown hjoins h
    | publishNamespaceDoneReceived conn req =>
      exact reachesSubscribers_changes hhashed (changes_publishNamespaceDoneReceived r conn req) h
    | subscribeNamespaceReceived conn prefixNamespace =>
      exact reachesSubscribers_changes hhashed
        (changes_subscribeNamespaceReceived r conn prefixNamespace) h
    | unsubscribeNamespaceReceived conn prefixNamespace =>
      exact reachesSubscribers_changes hhashed
        (changes_unsubscribeNamespaceReceived r conn prefixNamespace) h
  | peerSubscribe th full attrs =>
    cases hcall
    exact reachesSubscribers_processPeerSubscribe hjoins h
  | statusError conn full =>
    cases hcall
    exact reachesSubscribers_changes hhashed (changes_statusError r conn full) h

theorem exists_localCall (q : Quicr) (r : Relay) (call : LocalCall) :
    ∃ r', r.localCall q call = some r' := by
  cases call with
  | client call => exact ⟨_, rfl⟩
  | peerSubscribe th full attrs => exact ⟨_, rfl⟩
  | statusError conn full => exact ⟨_, rfl⟩

/-- In every run of a relay that starts without clients, such that all subscribers are given to each
handler that is made: the handlers have all subscribers of their tracks. -/
theorem reachesSubscribers_localCalls (q : Quicr) (r : Relay) (hnew : r.state = {})
    (hsubscribes : r.infoBase.subscribes = ∅) (calls : List LocalCall)
    (hjoins : Runs.All (localCall q) (JoinsAll q) r calls) :
    ∃ r', r.localCalls q calls = some r' ∧ r'.state.ReachesSubscribers := by
  have hstart : r.OwnOnly ∧ Hashed q r.state ∧ r.state.ReachesSubscribers := by
    refine ⟨ownOnly_new hsubscribes, ?_, ?_⟩
    · rw [hnew]
      intro key info hget
      simp at hget
    · rw [hnew]
      intro key h c hget
      simp at hget
  obtain ⟨r', hrun, -, -, hreaches⟩ := hjoins.inv
    (I := fun r => r.OwnOnly ∧ Hashed q r.state ∧ r.state.ReachesSubscribers)
    (fun r call ⟨hown, hhashed, h⟩ hclean => by
      obtain ⟨r', hcall⟩ := exists_localCall q r call
      exact ⟨r', hcall, hown.localCall hcall,
        (changes_localCall hcall).keeps (fun _ _ hchange hst => Hashed.change hchange hst) hhashed,
        reachesSubscribers_localCall hown hhashed hclean h hcall⟩) hstart
  exact ⟨r', hrun, hreaches⟩

/-- A client announces a namespace, and two subscribe to a track of it. -/
def announceSubscribeTwice : List LocalCall :=
  [.client (.publishNamespaceReceived 8 [[1]] 4), .client (.subscribeReceived 7 1 ⟨[[1]], [2]⟩ {}),
   .client (.subscribeReceived 9 2 ⟨[[1]], [2]⟩ {})]

theorem joinsAll_announceSubscribeTwice :
    Runs.All (localCall .polynomial) (JoinsAll .polynomial) ({ nodeId := 1 } : Relay)
      announceSubscribeTwice := by
  refine Runs.all_of_take fun k call hk r' hr' => ?_
  match k, hk with
  | 0, hk =>
    cases hk
    cases hr'
    intro _ entry hentry
    have hnil : ({ nodeId := 1 } : Relay).state.subscribeActive.toList = [] := by decide +kernel
    rw [hnil] at hentry
    cases hentry
  | 1, hk =>
    cases hk
    cases hr'
    intro _ key tracks _ _ c hsub
    cases hsub
  | 2, hk =>
    cases hk
    intro _ key tracks hactive hawaits
    -- There is a handler of the track for the one announcer.
    have hannouncers : (({ nodeId := 1 } : Relay).localCalls .polynomial
        (announceSubscribeTwice.take 2)).map (fun r => (r.state.pubNamespaceActive.keys,
          r.state.pubSubscribes.contains
            ((Quicr.polynomial.trackHash ⟨[[1]], [2]⟩).trackFullnameHash, 8))) =
        some ([([[1]], 8)], true) := by decide +kernel
    change ({ nodeId := 1 } : Relay).localCalls .polynomial _ = some r' at hr'
    rw [hr', Option.map_some, Option.some_inj, Prod.mk.injEq] at hannouncers
    have hkey : key ∈ r'.state.pubNamespaceActive.keys := by
      rw [ExtTreeMap.mem_keys]
      exact ExtTreeMap.contains_iff_getElem?.mpr ⟨tracks, hactive⟩
    rw [hannouncers.1, List.mem_singleton] at hkey
    subst hkey
    rw [hawaits.2.2] at hannouncers
    cases hannouncers.2

theorem reachesSubscribers_announceSubscribeTwice :
    Runs.All (localCall .polynomial) (JoinsAll .polynomial) ({ nodeId := 1 } : Relay)
      announceSubscribeTwice ∧
    ∃ r', ({ nodeId := 1 } : Relay).localCalls .polynomial announceSubscribeTwice = some r' ∧
      r'.state.ReachesSubscribers :=
  ⟨joinsAll_announceSubscribeTwice, reachesSubscribers_localCalls .polynomial { nodeId := 1 } rfl rfl
    announceSubscribeTwice joinsAll_announceSubscribeTwice⟩

/-- The publisher's error drops the handler that the first client is on, and the next client's
subscription makes one for that client alone. -/
theorem not_reachesSubscribers :
    ¬∀ (calls : List LocalCall) (r' : Relay),
      ({ nodeId := 1 } : Relay).localCalls .polynomial calls = some r' →
        r'.state.ReachesSubscribers := by
  intro hclaim
  have hleft : (({ nodeId := 1 } : Relay).localCalls .polynomial
      [.client (.publishNamespaceReceived 8 [[1]] 4),
       .client (.subscribeReceived 7 1 ⟨[[1]], [2]⟩ {}), .statusError 8 ⟨[[1]], [2]⟩,
       .client (.subscribeReceived 9 2 ⟨[[1]], [2]⟩ {})]).any (fun r =>
        r.state.subscribes.contains ((Quicr.polynomial.trackHash ⟨[[1]], [2]⟩).trackFullnameHash, 7) &&
        (r.state.pubSubscribes[(((Quicr.polynomial.trackHash ⟨[[1]], [2]⟩).trackFullnameHash, 8) :
          UInt64 × ConnectionHandle)]?).any fun h => !h.subscribers.contains 7) = true := by
    decide +kernel
  obtain ⟨r', hrun, hleft⟩ := (Option.any_eq_true _ _).mp hleft
  obtain ⟨hsub, hhandler⟩ := Bool.and_eq_true_iff.mp hleft
  obtain ⟨h, hget, hnone⟩ := (Option.any_eq_true _ _).mp hhandler
  have hc := hclaim _ r' hrun _ h 7 hget hsub
  rw [hc] at hnone
  cases hnone

end Relay

end Laps
