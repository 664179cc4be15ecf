import Mathlib.Logic.Relation
import Laps.Relay.Interest
import Laps.Relay.Peers

/-! The changes that the functions of a relay make in the state of its clients.  Each is a sequence
of a few kinds of change, so that what these keep is kept by all functions. -/

namespace Laps

open Std Client Peering

namespace Client.State

/-- A new subscription of a client in the three tables. -/
def record (q : Quicr) (st : State) (conn : ConnectionHandle) (req : RequestId)
    (full : FullTrackName) (attrs : SubscribeAttributes) : State :=
  let th := q.trackHash full
  let key := (full.nameSpace, th.trackNameHash)
  { st with
    subscribeActive := st.subscribeActive.insert key
      ((st.subscribeActive.getD key ∅).insertIfNew (conn, req)
        ⟨th.trackFullnameHash, attrs.priority, attrs.deliveryTimeout, attrs.startLocation⟩)
    subscribeAliasReqId := st.subscribeAliasReqId.insert (conn, req) th.trackFullnameHash
    subscribes := st.subscribes.insertIfNew (th.trackFullnameHash, conn)
      { trackFullName := full, trackAlias := th.trackFullnameHash, requestId := req
        priority := attrs.priority, objectTtl := attrs.deliveryTimeout.toUInt32
        groupOrder := attrs.groupOrder } }

/-- The subscription `sub` under the alias is taken out of the three tables and off the handlers. -/
def unsubscribe (q : Quicr) (st : State) (conn : ConnectionHandle) (req : RequestId)
    (trackAlias : UInt64) (sub : SubscribePublishHandlerInfo) : State :=
  let th := q.trackHash sub.trackFullName
  let key := (sub.trackFullName.nameSpace, th.trackNameHash)
  let active := (st.subscribeActive.getD key ∅).erase (conn, req)
  { st with
    subscribeAliasReqId := st.subscribeAliasReqId.erase (conn, req)
    pubSubscribes := st.pubSubscribes.map fun key h =>
      if key.1 = th.trackFullnameHash then h.removeSubscriber conn else h
    subscribeActive :=
      if active.isEmpty then st.subscribeActive.erase key else st.subscribeActive.insert key active
    subscribes := st.subscribes.erase (trackAlias, conn) }

/-- The client has subscribed to the track. -/
def Subscribed (st : State) (hash : UInt64) (conn : ConnectionHandle) : Prop :=
  st.subscribes.contains (hash, conn) = true

/-- The client is in a set of active subscriptions whose first one is to the track. -/
def InActive (st : State) (hash : UInt64) (conn : ConnectionHandle) : Prop :=
  ∃ entry ∈ st.subscribeActive.toList, ∃ first, entry.2.toList.head? = some first ∧
    first.2.trackAlias = hash ∧ ∃ req : RequestId, entry.2.contains (conn, req) = true

/-- No subscriber is taken off the handler, but for the peer manager if `peers`, and a client that
is added has subscribed to the track. -/
def Tended (st : State) (peers : Prop) (hash : UInt64) (h h' : SubscribeTrackHandler) : Prop :=
  (∀ c, h.subscribers.contains c = true → h'.subscribers.contains c = true ∨ (c = 0 ∧ peers)) ∧
  ∀ c, c ≠ 0 → h'.subscribers.contains c = true →
    h.subscribers.contains c = true ∨ st.Subscribed hash c

/-- Which subscriptions may be recorded, in which states. -/
abbrev Records := State → ConnectionHandle → RequestId → FullTrackName → Prop

/-- A change of the state.  `records` are the subscriptions that may be recorded, and handlers are
made only if `creates`. -/
inductive Change (q : Quicr) (records : Records) (creates peers : Prop) : State → State → Prop
  | record {st : State} {conn : ConnectionHandle} {req : RequestId} {full : FullTrackName}
      {attrs : SubscribeAttributes} (hreq : records st conn req full)
      (hnew : ¬st.Subscribed (q.trackHash full).trackFullnameHash conn) :
      Change q records creates peers st (st.record q conn req full attrs)
  | unsubscribe {st : State} {conn : ConnectionHandle} {req : RequestId} {trackAlias : UInt64}
      {sub : SubscribePublishHandlerInfo}
      (halias : st.subscribeAliasReqId[(conn, req)]? = some trackAlias)
      (hsub : st.subscribes[(trackAlias, conn)]? = some sub) :
      Change q records creates peers st (st.unsubscribe q conn req trackAlias sub)
  | handlers {st st' : State} (hsubscribes : st'.subscribes = st.subscribes)
      (haliases : st'.subscribeAliasReqId = st.subscribeAliasReqId)
      (hactive : st'.subscribeActive = st.subscribeActive)
      (hhandlers : ∀ (key : UInt64 × ConnectionHandle) h', st'.pubSubscribes[key]? = some h' →
        (∃ h, st.pubSubscribes[key]? = some h ∧ st.Tended peers key.1 h h') ∨
        creates ∧ ∀ c, c ≠ 0 → h'.subscribers.contains c = true →
          st.Subscribed key.1 c ∨ st.InActive key.1 c) :
      Change q records creates peers st st'

/-- A sequence of changes. -/
def Changes (q : Quicr) (records : Records) (creates peers : Prop) : State → State → Prop :=
  Relation.ReflTransGen (Change q records creates peers)

variable {q : Quicr} {records : Records} {creates peers : Prop}
variable {st st' st'' : State}

theorem Changes.refl : Changes q records creates peers st st := Relation.ReflTransGen.refl

theorem Changes.trans (h : Changes q records creates peers st st')
    (h' : Changes q records creates peers st' st'') : Changes q records creates peers st st'' :=
  Relation.ReflTransGen.trans h h'

theorem Changes.single (h : Change q records creates peers st st') :
    Changes q records creates peers st st' :=
  Relation.ReflTransGen.single h

/-- What every change keeps holds after all of them. -/
theorem Changes.keeps {P : State → Prop}
    (hstep : ∀ st st', Change q records creates peers st st' → P st → P st')
    (h : Changes q records creates peers st st') (hst : P st) : P st' := by
  induction h with
  | refl => exact hst
  | tail _ hlast ih => exact hstep _ _ hlast ih

theorem Tended.refl (st : State) (hash : UInt64) (h : SubscribeTrackHandler) :
    st.Tended peers hash h h :=
  ⟨fun _ hc => .inl hc, fun _ _ hc => .inl hc⟩

theorem Tended.of_eq {hash : UInt64} {h h' : SubscribeTrackHandler}
    (heq : h'.subscribers = h.subscribers) : st.Tended peers hash h h' := by
  unfold Tended
  rw [heq]
  exact Tended.refl st hash h

/-- The handlers stay as they are, or are changed one by one. -/
theorem Changes.of_handlers (hsubscribes : st'.subscribes = st.subscribes)
    (haliases : st'.subscribeAliasReqId = st.subscribeAliasReqId)
    (hactive : st'.subscribeActive = st.subscribeActive)
    (hhandlers : ∀ (key : UInt64 × ConnectionHandle) h', st'.pubSubscribes[key]? = some h' →
      ∃ h, st.pubSubscribes[key]? = some h ∧ st.Tended peers key.1 h h') :
    Changes q records creates peers st st' :=
  .single (.handlers hsubscribes haliases hactive fun key h' hget => .inl (hhandlers key h' hget))

theorem Changes.of_same (hsubscribes : st'.subscribes = st.subscribes)
    (haliases : st'.subscribeAliasReqId = st.subscribeAliasReqId)
    (hactive : st'.subscribeActive = st.subscribeActive)
    (hhandlers : st'.pubSubscribes = st.pubSubscribes) : Changes q records creates peers st st' :=
  .of_handlers hsubscribes haliases hactive fun _ h' hget =>
    ⟨h', hhandlers ▸ hget, .refl st _ h'⟩

theorem Changes.of_eq (h : st' = st) : Changes q records creates peers st st' := h ▸ .refl

/-- Some handlers are dropped. -/
theorem Changes.of_subset (hsubscribes : st'.subscribes = st.subscribes)
    (haliases : st'.subscribeAliasReqId = st.subscribeAliasReqId)
    (hactive : st'.subscribeActive = st.subscribeActive)
    (hhandlers : ∀ (key : UInt64 × ConnectionHandle) h, st'.pubSubscribes[key]? = some h →
      st.pubSubscribes[key]? = some h) :
    Changes q records creates peers st st' :=
  .of_handlers hsubscribes haliases hactive fun key h' hget =>
    ⟨h', hhandlers key h' hget, .refl st _ h'⟩

/-- A handler is made, or put in the place of another. -/
theorem Changes.of_insert {key : UInt64 × ConnectionHandle} {handler : SubscribeTrackHandler}
    (hcreates : creates) (hsubscribes : st'.subscribes = st.subscribes)
    (haliases : st'.subscribeAliasReqId = st.subscribeAliasReqId)
    (hactive : st'.subscribeActive = st.subscribeActive)
    (hhandlers : st'.pubSubscribes = st.pubSubscribes.insert key handler)
    (hnew : ∀ c, c ≠ 0 → handler.subscribers.contains c = true →
      st.Subscribed key.1 c ∨ st.InActive key.1 c) : Changes q records creates peers st st' := by
  refine .single (.handlers hsubscribes haliases hactive fun key' h' hget => ?_)
  rw [hhandlers, ExtTreeMap.getElem?_insert_ite] at hget
  split at hget
  · rename_i heq
    cases hget
    subst heq
    exact .inr ⟨hcreates, hnew⟩
  · exact .inl ⟨h', hget, .refl st _ h'⟩

end Client.State

namespace Relay

open State

variable {q : Quicr} {records : Records} {creates peers : Prop}

/-! ### Functions that leave the state alone -/

theorem state_setPeerSession (r : Relay) (id : PeerSessionId) (session : PeerSession) :
    (r.setPeerSession id session).state = r.state := by
  unfold setPeerSession
  split <;> rfl

theorem state_forwardToNode (q : Quicr) (r : Relay) (hash : UInt64) (node : NodeIdValueType)
    (keySession : PeerSessionId → PeerSessionId) :
    (r.forwardToNode q hash node keySession).state = r.state := by
  unfold forwardToNode
  split
  · rfl
  · split
    · rfl
    · dsimp only
      split
      · exact state_setPeerSession ..
      · exact state_setPeerSession ..

theorem state_clientSubscribe (q : Quicr) (r : Relay) (full : FullTrackName)
    (subscribeData : List UInt8) : (r.clientSubscribe q full subscribeData).state = r.state := by
  unfold clientSubscribe
  split <;> rfl

theorem state_clientUnsubscribe (r : Relay) (hash : UInt64) :
    (r.clientUnsubscribe hash).state = r.state :=
  (clientUnsubscribe_rest r hash).2.2.1

/-! ### Loops -/

/-- A loop whose steps change the state while something holds. -/
theorem changes_foldl {β : Type*} {P : Relay → Prop} {f : Relay → β → Relay} {l : List β}
    (hf : ∀ r x, x ∈ l → P r → Changes q records creates peers r.state (f r x).state ∧ P (f r x))
    {r : Relay} (hr : P r) : Changes q records creates peers r.state (l.foldl f r).state := by
  induction l generalizing r with
  | nil => exact .refl
  | cons x l ih =>
    obtain ⟨hfirst, hnext⟩ := hf r x List.mem_cons_self hr
    exact hfirst.trans (ih (fun r y hy => hf r y (List.mem_cons_of_mem _ hy)) hnext)

theorem changes_foldl_all {β : Type*} {f : Relay → β → Relay} {l : List β}
    (hf : ∀ r x, Changes q records creates peers r.state (f r x).state) (r : Relay) :
    Changes q records creates peers r.state (l.foldl f r).state :=
  changes_foldl (P := fun _ => True) (fun r x _ _ => ⟨hf r x, trivial⟩) trivial

/-! ### Subscriptions -/

section Subscribe

variable {hash : UInt64} {conn : ConnectionHandle} {s : Subscriber} {r : Relay}

theorem contains_addSubscriber (h : SubscribeTrackHandler) (conn c : ConnectionHandle)
    (s : Subscriber) :
    (h.addSubscriber conn s).subscribers.contains c = true ↔
      c = conn ∨ h.subscribers.contains c = true := by
  unfold SubscribeTrackHandler.addSubscriber
  split
  · rename_i hconn
    refine ⟨.inr, ?_⟩
    rintro (rfl | hc)
    · exact hconn
    · exact hc
  · show (h.subscribers.insert conn s).contains c = true ↔ _
    rw [ExtTreeMap.contains_insert_iff]

theorem tended_addSubscriber {st : State} (h : SubscribeTrackHandler)
    (hconn : conn = 0 ∨ st.Subscribed hash conn) :
    st.Tended peers hash h (h.addSubscriber conn s) := by
  refine ⟨fun c hc => .inl ((contains_addSubscriber ..).mpr (.inr hc)), fun c hzero hc => ?_⟩
  obtain rfl | hc := (contains_addSubscriber ..).mp hc
  · exact .inr (hconn.resolve_left hzero)
  · exact .inl hc

theorem changes_addToHandlers (s : Subscriber) (hconn : conn = 0 ∨ r.state.Subscribed hash conn) :
    Changes q records creates peers r.state (r.addToHandlers hash conn s).state := by
  refine .of_handlers rfl rfl rfl fun key h' hget => ?_
  have hget : (r.state.pubSubscribes.map fun key h =>
      if key.1 = hash then (if h.isPublisherInitiated then h.resume else h).addSubscriber conn s
      else h)[key]? = some h' := hget
  rw [ExtTreeMap.getElem?_map, Option.map_eq_some_iff] at hget
  obtain ⟨h, hold, rfl⟩ := hget
  refine ⟨h, hold, ?_⟩
  split
  · rename_i heq
    rw [heq]
    split
    · exact tended_addSubscriber h.resume hconn
    · exact tended_addSubscriber h hconn
  · exact .refl ..

theorem changes_subscribeToAnnouncer (hcreates : creates) (full : FullTrackName)
    (hconn : conn = 0 ∨ r.state.Subscribed hash conn)
    (entry : (TrackNamespace × ConnectionHandle) × ExtTreeSet UInt64) :
    Changes q records creates peers r.state
      (subscribeToAnnouncer q hash full conn s r entry).state := by
  unfold subscribeToAnnouncer
  dsimp only
  split
  · exact .refl
  · split
    · exact .refl
    · refine .of_insert hcreates rfl rfl rfl rfl fun c hzero hc => .inl ?_
      obtain rfl | hc := (contains_addSubscriber ..).mp hc
      · exact hconn.resolve_left hzero
      · cases hc

/-- The subscriber is put on the handlers of the track, and announcers are subscribed to for it. -/
theorem changes_addToPublishers (hcreates : creates) (th : TrackHash) (full : FullTrackName)
    (hconn : conn = 0 ∨ r.state.Subscribed th.trackFullnameHash conn) :
    Changes q records creates peers r.state
      ((r.addToHandlers th.trackFullnameHash conn s).state.pubNamespaceActive.toList.foldl
        (subscribeToAnnouncer q th.trackFullnameHash full conn s)
        (r.addToHandlers th.trackFullnameHash conn s)).state := by
  refine (changes_addToHandlers s hconn).trans ?_
  refine changes_foldl (P := fun r => conn = 0 ∨ r.state.Subscribed th.trackFullnameHash conn)
    (fun r entry _ hr => ⟨changes_subscribeToAnnouncer hcreates full hr entry, ?_⟩) hconn
  have hsame := (sameInterest_subscribeToAnnouncer q th.trackFullnameHash full conn s r
    entry).subscribes
  unfold Subscribed
  rwa [hsame]

theorem changes_processPeerSubscribe (hcreates : creates) (th : TrackHash) (full : FullTrackName)
    (attrs : SubscribeAttributes) :
    Changes q records creates peers r.state (r.processSubscribe q 0 0 th full attrs).state :=
  changes_addToPublishers hcreates th full (.inl rfl)

theorem changes_recordSubscribe {req : RequestId} {full : FullTrackName}
    {attrs : SubscribeAttributes} (hreq : records r.state conn req full)
    (hnew : ¬r.state.Subscribed (q.trackHash full).trackFullnameHash conn) :
    Changes q records creates peers r.state
      (r.recordSubscribe q conn req (q.trackHash full) full attrs).state := by
  refine .single ?_
  unfold recordSubscribe
  rw [state_clientSubscribe]
  exact .record hreq hnew

theorem subscribed_record (q : Quicr) (st : State) (conn : ConnectionHandle) (req : RequestId)
    (full : FullTrackName) (attrs : SubscribeAttributes) :
    (st.record q conn req full attrs).Subscribed (q.trackHash full).trackFullnameHash conn :=
  ExtTreeMap.contains_insertIfNew_self

theorem changes_subscribeReceived (hcreates : creates) {req : RequestId} {full : FullTrackName}
    {attrs : SubscribeAttributes} (hreq : records r.state conn req full) :
    Changes q records creates peers r.state (r.subscribeReceived q conn req full attrs).state := by
  unfold subscribeReceived
  dsimp only
  split
  · exact .refl
  · rename_i hnew
    unfold processSubscribe
    dsimp only
    split
    · rename_i hzero
      exact changes_addToPublishers hcreates _ full (.inl hzero.1)
    · refine (changes_recordSubscribe hreq hnew).trans
        (changes_addToPublishers hcreates _ full (.inr ?_))
      unfold recordSubscribe
      rw [state_clientSubscribe]
      exact subscribed_record ..

end Subscribe

/-! ### Subscriptions that end -/

section Unsubscribe

variable {r : Relay}

theorem changes_removeOrPause (r : Relay) (hash : UInt64) :
    Changes q records creates peers r.state (r.removeOrPausePublisherSubscribe hash).state := by
  unfold removeOrPausePublisherSubscribe
  split
  · exact .refl
  · set handlers := r.state.pubSubscribes.filterMap fun key h =>
      if key.1 = hash ∧ h.hasSubscribers = false then
        if h.isPublisherInitiated then some h.pause else none
      else some h with hhandlers
    have hdrop : Changes q records creates peers r.state
        { r.state with pubSubscribes := handlers } := by
      refine .of_handlers rfl rfl rfl fun key h' hget => ?_
      have hget : handlers[key]? = some h' := hget
      rw [hhandlers, ExtTreeMap.getElem?_filterMap', Option.bind_eq_some_iff] at hget
      obtain ⟨h, hold, hkept⟩ := hget
      refine ⟨h, hold, ?_⟩
      split_ifs at hkept
      · cases hkept
        exact .of_eq rfl
      · cases hkept
        exact .refl ..
    dsimp only
    split
    · exact hdrop
    · rw [state_clientUnsubscribe]
      exact hdrop

theorem changes_unsubscribeReceived (r : Relay) (conn : ConnectionHandle) (req : RequestId) :
    Changes q records creates peers r.state (r.unsubscribeReceived q conn req).state := by
  unfold unsubscribeReceived
  split
  · exact .refl
  · rename_i trackAlias halias
    split
    · exact .refl
    · rename_i sub hsub
      have hfirst : Change q records creates peers r.state
          (r.state.unsubscribe q conn req trackAlias sub) := .unsubscribe halias hsub
      exact (Changes.single hfirst).trans (changes_removeOrPause
        (r.mapState fun st => st.unsubscribe q conn req trackAlias sub) _)

theorem contains_removeSubscriber (h : SubscribeTrackHandler) (conn c : ConnectionHandle) :
    (h.removeSubscriber conn).subscribers.contains c = true ↔
      c ≠ conn ∧ h.subscribers.contains c = true := by
  have hsubscribers : (h.removeSubscriber conn).subscribers = h.subscribers.erase conn := by
    unfold SubscribeTrackHandler.removeSubscriber
    dsimp only
    split <;> rfl
  rw [hsubscribers, ExtTreeMap.contains_erase]
  simp [ne_comm]

theorem changes_peerUnsubscribeTrack (hpeers : peers) (r : Relay) (hash : UInt64) :
    Changes q records creates peers r.state (r.peerUnsubscribeTrack hash).state := by
  refine .of_handlers rfl rfl rfl fun key h' hget => ?_
  have hget : (r.state.pubSubscribes.map fun key h =>
      if key.1 = hash then h.removeSubscriber 0 else h)[key]? = some h' := hget
  rw [ExtTreeMap.getElem?_map, Option.map_eq_some_iff] at hget
  obtain ⟨h, hold, rfl⟩ := hget
  refine ⟨h, hold, ?_⟩
  split
  · refine ⟨fun c hc => ?_, fun c _ hc => .inl ((contains_removeSubscriber ..).mp hc).2⟩
    by_cases hzero : c = 0
    · exact .inr ⟨hzero, hpeers⟩
    · exact .inl ((contains_removeSubscriber ..).mpr ⟨hzero, hc⟩)
  · exact .refl ..

theorem changes_unsubscribeOrphans (r : Relay) (hash : UInt64) :
    Changes q records creates peers r.state (r.unsubscribeOrphans q hash).state := by
  unfold unsubscribeOrphans
  split
  · exact changes_foldl_all (fun r _ => changes_unsubscribeReceived r _ _) r
  · exact .refl

theorem changes_leaveNamespace (conn : ConnectionHandle) (prefixNamespace : TrackNamespace)
    (handler : PublishNamespaceHandler) (r : Relay) (key : UInt64 × ConnectionHandle) :
    Changes q records creates peers r.state
      (leaveNamespace q conn prefixNamespace handler r key).state := by
  unfold leaveNamespace
  split
  · exact .refl
  · rename_i h hold
    split
    · exact .refl
    · split
      · set r₁ := r.mapState fun st => { st with
          pubSubscribes := st.pubSubscribes.insert key (h.removeSubscribeNamespace q handler) }
        have hleave : Changes q records creates peers r.state r₁.state := by
          refine .of_handlers rfl rfl rfl fun key' h' hget => ?_
          have hget : (r.state.pubSubscribes.insert key
            (h.removeSubscribeNamespace q handler))[key']? = some h' := hget
          rw [ExtTreeMap.getElem?_insert_ite] at hget
          split at hget
          · rename_i heq
            cases hget
            exact ⟨h, heq ▸ hold, .of_eq rfl⟩
          · exact ⟨h', hget, .refl ..⟩
        exact hleave.trans (changes_removeOrPause r₁ key.1)
      · exact .refl

theorem changes_unsubscribeNamespaceReceived (r : Relay) (conn : ConnectionHandle)
    (prefixNamespace : TrackNamespace) :
    Changes q records creates peers r.state
      (r.unsubscribeNamespaceReceived q conn prefixNamespace).state := by
  unfold unsubscribeNamespaceReceived
  split
  · exact .refl
  · split
    · split
      · exact .of_same rfl rfl rfl rfl
      · exact .refl
    · rename_i handler _
      exact (changes_foldl_all (changes_leaveNamespace conn prefixNamespace handler) r).trans
        (.of_same rfl rfl rfl rfl)

theorem changes_purgePublishState (r : Relay) (conn : ConnectionHandle) :
    Changes q records creates peers r.state (r.purgePublishState conn).state := by
  refine .of_subset rfl rfl rfl fun key h hget => ?_
  have hget : (r.state.pubSubscribes.filter fun key _ => key.2 ≠ conn)[key]? = some h := hget
  rw [ExtTreeMap.getElem?_filter, Option.pfilter_eq_some_iff] at hget
  obtain ⟨hget, -⟩ := hget
  exact hget

theorem changes_disconnect (r : Relay) (conn : ConnectionHandle) :
    Changes q records creates peers r.state (disconnect q r conn).state :=
  have hnameSpaces := changes_foldl_all (l := r.state.subscribesNamespaces.toList.filter fun row =>
    row.2.contains conn) (fun r row => changes_unsubscribeNamespaceReceived r conn row.1) r
  hnameSpaces.trans (changes_foldl_all (fun r _ => changes_unsubscribeReceived r _ _) _)

theorem changes_connectionStatusChanged (r : Relay) (conn : ConnectionHandle)
    (status : ConnectionStatus) :
    Changes q records creates peers r.state (r.connectionStatusChanged q conn status).state := by
  by_cases h₁ : status = .connected
  · rw [h₁]
    exact .refl
  by_cases h₂ : status = .connecting
  · rw [h₂]
    exact .refl
  rw [connectionStatusChanged_eq q r conn h₁ h₂]
  exact (changes_disconnect r conn).trans (changes_purgePublishState _ conn)

end Unsubscribe

/-! ### Publications -/

section Publish

variable {r : Relay}

theorem changes_matchSubscribe (hcreates : creates) (full : FullTrackName) (r : Relay)
    (si : Peering.SubscribeInfo) :
    Changes q records creates peers r.state (r.matchSubscribe q full si).state := by
  unfold matchSubscribe
  split
  · exact .refl
  · split
    · exact .refl
    · split
      · exact .refl
      · dsimp only
        split
        · exact changes_processPeerSubscribe hcreates ..
        · rw [state_forwardToNode]
          exact changes_processPeerSubscribe hcreates ..

theorem changes_clientAnnounce (hcreates : creates) (r : Relay) (full : FullTrackName)
    (withdraw publishNamespace : Bool) :
    Changes q records creates peers r.state
      (r.clientAnnounce q full withdraw publishNamespace).state := by
  unfold clientAnnounce
  dsimp only
  split
  · exact .refl
  · refine changes_foldl_all (fun r' entry => ?_)
      ((r.updateAnnounces q _ withdraw).1.sendAnnounceInfos _ _ withdraw)
    split
    · exact .refl
    · exact changes_matchSubscribe hcreates ..

theorem contains_foldl_addSubscriber {β : Type*} (conn : β → ConnectionHandle)
    (s : β → Subscriber) (l : List β) (h : SubscribeTrackHandler) (c : ConnectionHandle) :
    (l.foldl (fun h x => h.addSubscriber (conn x) (s x)) h).subscribers.contains c = true ↔
      (∃ x ∈ l, c = conn x) ∨ h.subscribers.contains c = true := by
  induction l generalizing h with
  | nil => simp
  | cons x l ih =>
    rw [List.foldl_cons, ih, contains_addSubscriber, ← or_assoc]
    refine or_congr_left ?_
    simp [or_comm]

theorem changes_subscribeToPublisher (hcreates : creates) (nameSpace : TrackNamespace)
    (conn : ConnectionHandle) {r : Relay}
    {entry : (TrackNamespace × UInt64) ×
      ExtTreeMap (ConnectionHandle × RequestId) State.SubscribeInfo compare}
    (hentry : entry ∈ r.state.subscribeActive.toList) :
    Changes q records creates peers r.state
      (subscribeToPublisher q nameSpace conn r entry).state := by
  unfold subscribeToPublisher
  split
  · exact .refl
  · split
    · exact .refl
    · rename_i subConn req active rest hrow
      dsimp only
      split
      · exact .refl
      · split
        · exact .of_same rfl rfl rfl rfl
        · refine .of_insert hcreates rfl rfl rfl rfl fun c _ hc => .inr ?_
          obtain ⟨x, hx, rfl⟩ | hc := (contains_foldl_addSubscriber
            (fun x : (ConnectionHandle × RequestId) × State.SubscribeInfo => x.1.1) _ _ _ _).mp hc
          · refine ⟨entry, hentry, _, by rw [hrow]; rfl, rfl, x.1.2, ?_⟩
            exact ExtTreeMap.contains_iff_getElem?.mpr
              ⟨x.2, ExtTreeMap.mem_toList_iff_getElem?_eq_some.mp hx⟩
          · cases hc

theorem subscribeActive_subscribeToPublisher (q : Quicr) (nameSpace : TrackNamespace)
    (conn : ConnectionHandle) (r : Relay)
    (entry : (TrackNamespace × UInt64) ×
      ExtTreeMap (ConnectionHandle × RequestId) State.SubscribeInfo) :
    (subscribeToPublisher q nameSpace conn r entry).state.subscribeActive =
      r.state.subscribeActive := by
  unfold subscribeToPublisher
  split
  · rfl
  · split
    · rfl
    · dsimp only
      split
      · rfl
      · split <;> rfl

theorem changes_publishNamespaceReceived (hcreates : creates) (r : Relay) (conn : ConnectionHandle)
    (nameSpace : TrackNamespace) (req : RequestId) :
    Changes q records creates peers r.state
      (r.publishNamespaceReceived q conn nameSpace req).state := by
  have hloop : ∀ r' : Relay, Changes q records creates peers r'.state
      (r'.state.subscribeActive.toList.foldl (subscribeToPublisher q nameSpace conn) r').state := by
    intro r'
    refine changes_foldl (P := fun r => r.state.subscribeActive = r'.state.subscribeActive)
      (fun r entry hentry hr => ⟨changes_subscribeToPublisher hcreates nameSpace conn ?_, ?_⟩) rfl
    · rwa [hr]
    · rw [subscribeActive_subscribeToPublisher, hr]
  unfold publishNamespaceReceived
  dsimp only
  set r₁ := r.mapState fun st => { st with requests := st.requests.insert (conn, req) nameSpace }
  have hrequest : Changes q records creates peers r.state r₁.state := .of_same rfl rfl rfl rfl
  refine hrequest.trans ?_
  split
  · split
    · exact .refl
    · exact hloop r₁
  · set r₂ := r₁.mapState fun st => { st with
      pubNamespaceActive := st.pubNamespaceActive.insertIfNew (nameSpace, conn) ∅ }
    have hactive : Changes q records creates peers r₁.state r₂.state := .of_same rfl rfl rfl rfl
    refine hactive.trans ?_
    split
    · exact .refl
    · exact (hloop r₂).trans (changes_clientAnnounce hcreates ..)

theorem getElem?_foldl_erase (m : ExtTreeMap (UInt64 × ConnectionHandle) SubscribeTrackHandler compare)
    (aliases : List UInt64) (conn : ConnectionHandle) (key : UInt64 × ConnectionHandle) :
    (aliases.foldl (fun m trackAlias => m.erase (trackAlias, conn)) m)[key]? =
      if key.2 = conn ∧ key.1 ∈ aliases then none else m[key]? := by
  induction aliases generalizing m with
  | nil => simp
  | cons trackAlias aliases ih =>
    rw [List.foldl_cons, ih, ExtTreeMap.getElem?_erase_ite]
    obtain ⟨hash, c⟩ := key
    simp only [Prod.mk.injEq, List.mem_cons]
    split_ifs <;> first | rfl | tauto

theorem changes_publishNamespaceDoneReceived (r : Relay) (conn : ConnectionHandle)
    (req : RequestId) :
    Changes q records creates peers r.state (r.publishNamespaceDoneReceived q conn req).state := by
  unfold publishNamespaceDoneReceived
  split
  · exact .refl
  · rename_i nameSpace _
    set aliases := (r.state.pubNamespaceActive.getD (nameSpace, conn) ∅).toList
    have hdone : Changes q records creates peers r.state { r.state with
        pubSubscribes := aliases.foldl (fun m trackAlias => m.erase (trackAlias, conn))
          r.state.pubSubscribes
        pubNamespaceActive := r.state.pubNamespaceActive.erase (nameSpace, conn) } := by
      refine .of_subset rfl rfl rfl fun key h hget => ?_
      rw [getElem?_foldl_erase] at hget
      split at hget
      · cases hget
      · exact hget
    dsimp only
    split
    · exact hdone
    · exact hdone

theorem subscribers_addSubscribeNamespace (q : Quicr) (h : SubscribeTrackHandler)
    (handler : PublishNamespaceHandler) :
    (h.addSubscribeNamespace q handler).subscribers = h.subscribers := by
  unfold SubscribeTrackHandler.addSubscribeNamespace
  dsimp only
  split <;> rfl

theorem subscribers_foldl_addSubscribeNamespace (q : Quicr)
    (nameSpaces : List (TrackNamespace × ExtTreeMap ConnectionHandle PublishNamespaceHandler))
    (h : SubscribeTrackHandler) :
    (nameSpaces.foldl (fun h row =>
      row.2.toList.foldl (fun h entry => h.addSubscribeNamespace q entry.2) h) h).subscribers =
      h.subscribers := by
  have hrow : ∀ (h : SubscribeTrackHandler)
      (row : TrackNamespace × ExtTreeMap ConnectionHandle PublishNamespaceHandler),
      (row.2.toList.foldl (fun h entry => h.addSubscribeNamespace q entry.2) h).subscribers =
        h.subscribers := fun h row =>
    foldl_related (R := fun h h' : SubscribeTrackHandler =>
      h'.subscribers = h.subscribers) (fun _ => rfl)
      (fun h₁ h₂ => h₂.trans h₁) (fun h _ => subscribers_addSubscribeNamespace q h _) h _
  exact foldl_related (R := fun h h' : SubscribeTrackHandler =>
      h'.subscribers = h.subscribers) (fun _ => rfl)
    (fun h₁ h₂ => h₂.trans h₁) hrow h nameSpaces

/-- The subscribers of the track that a new handler is given. -/
def handedTo (q : Quicr) (r : Relay) (full : FullTrackName) (h : SubscribeTrackHandler) :
    SubscribeTrackHandler :=
  let hash := (q.trackHash full).trackFullnameHash
  let subs := r.state.subscribes.withFst hash
  let nameSpaces := r.state.subscribesNamespaces.toList.filter fun row =>
    q.hasSamePrefix row.1 full.nameSpace && !row.2.isEmpty
  let h := subs.foldl (fun h entry => h.addSubscriber entry.1.2
    ⟨entry.2.requestId, entry.2.priority, entry.2.objectTtl.toNat, entry.2.startLocation⟩) h
  let h := nameSpaces.foldl (fun h row =>
    row.2.toList.foldl (fun h entry => h.addSubscribeNamespace q entry.2) h) h
  if r.hasSubscribers hash || !subs.isEmpty || !nameSpaces.isEmpty then h else h.pause

theorem contains_handedTo (q : Quicr) (r : Relay) (full : FullTrackName)
    (h : SubscribeTrackHandler) (c : ConnectionHandle) :
    (handedTo q r full h).subscribers.contains c = true ↔
      r.state.Subscribed (q.trackHash full).trackFullnameHash c ∨
        h.subscribers.contains c = true := by
  have hpause : (handedTo q r full h).subscribers =
      ((r.state.subscribes.withFst (q.trackHash full).trackFullnameHash).foldl
        (fun h entry => h.addSubscriber entry.1.2 ⟨entry.2.requestId, entry.2.priority,
          entry.2.objectTtl.toNat, entry.2.startLocation⟩) h).subscribers := by
    unfold handedTo
    dsimp only
    split
    · exact subscribers_foldl_addSubscribeNamespace ..
    · exact subscribers_foldl_addSubscribeNamespace ..
  rw [hpause, contains_foldl_addSubscriber
    (fun x : (UInt64 × ConnectionHandle) × SubscribePublishHandlerInfo => x.1.2)]
  refine or_congr_left ?_
  unfold Subscribed
  rw [ExtTreeMap.contains_iff_getElem?]
  constructor
  · rintro ⟨⟨⟨hash, c⟩, info⟩, hmem, rfl⟩
    obtain ⟨hget, rfl⟩ := ExtTreeMap.mem_withFst.mp hmem
    exact ⟨info, hget⟩
  · rintro ⟨info, hget⟩
    exact ⟨((_, c), info), ExtTreeMap.mem_withFst.mpr ⟨hget, rfl⟩, rfl⟩

theorem changes_publishReceived (hcreates : creates) (r : Relay) (conn : ConnectionHandle)
    (req : RequestId) (full : FullTrackName) :
    Changes q records creates peers r.state (r.publishReceived q conn req full).state := by
  set hash := (q.trackHash full).trackFullnameHash with hhash
  set r₁ := (r.newHandler full true).2.mapState fun st => { st with
    pubSubscribes := st.pubSubscribes.insert (hash, conn)
      { (r.newHandler full true).1 with isFromPeer := conn = 0 && req = 0 } } with hr₁
  have hnew : Changes q records creates peers r.state r₁.state := by
    refine .of_insert hcreates rfl rfl rfl rfl fun c _ hc => ?_
    cases hc
  have hadd : ∀ r₂ : Relay, Changes q records creates peers r₂.state
      { r₂.state with
        pubSubscribes := r₂.state.pubSubscribes.modify (hash, conn) (handedTo q r₂ full) } := by
    intro r₂
    refine .of_handlers rfl rfl rfl fun key h' hget => ?_
    have hget : (r₂.state.pubSubscribes.modify (hash, conn) (handedTo q r₂ full))[key]? = some h' :=
      hget
    rw [ExtTreeMap.getElem?_modify] at hget
    split at hget
    · rename_i heq
      obtain ⟨h, hold, rfl⟩ := Option.map_eq_some_iff.mp hget
      obtain rfl := LawfulEqCmp.compare_eq_iff_eq.mp heq
      refine ⟨h, hold, fun c hc => .inl ((contains_handedTo ..).mpr (.inr hc)), fun c _ hc => ?_⟩
      exact ((contains_handedTo ..).mp hc).symm
    · exact ⟨h', hget, .refl ..⟩
  by_cases hpeer : (decide (conn = 0) && decide (req = 0)) = true
  · have heq : (r.publishReceived q conn req full).state = { r₁.state with
        pubSubscribes := r₁.state.pubSubscribes.modify (hash, conn) (handedTo q r₁ full) } := by
      unfold publishReceived
      dsimp only
      rw [if_pos hpeer]
      rfl
    rw [heq]
    exact hnew.trans (hadd r₁)
  · set r₂ := (r₁.mapState fun st => { st with
      pubSubscribesByReqId := st.pubSubscribesByReqId.insert (req, conn)
        ((r.newHandler full true).1.id, full) }).clientAnnounce q full false false with hr₂
    have heq : (r.publishReceived q conn req full).state = { r₂.state with
        pubSubscribes := r₂.state.pubSubscribes.modify (hash, conn) (handedTo q r₂ full) } := by
      unfold publishReceived
      dsimp only
      rw [if_neg hpeer]
      rfl
    rw [heq]
    have hregister : Changes q records creates peers r₁.state (r₁.mapState fun st => { st with
      pubSubscribesByReqId := st.pubSubscribesByReqId.insert (req, conn)
        ((r.newHandler full true).1.id, full) }).state := .of_same rfl rfl rfl rfl
    exact ((hnew.trans hregister).trans (changes_clientAnnounce hcreates ..)).trans (hadd r₂)

theorem changes_publishDoneReceived (r : Relay) (conn : ConnectionHandle) (req : RequestId) :
    Changes q records creates peers r.state (r.publishDoneReceived q conn req).state := by
  unfold publishDoneReceived
  split
  · exact .refl
  · rename_i id full _
    dsimp only
    set r₁ := if conn = 0 then r else r.clientAnnounce q full true false with hr₁
    have hstate : r₁.state = r.state := by
      rw [hr₁]
      split <;> rfl
    set r₂ := r₁.mapState fun st => { st with
      pubSubscribes := st.pubSubscribes.erase ((q.trackHash full).trackFullnameHash, conn) }
    have herase : Changes q records creates peers r.state r₂.state := by
      rw [← hstate]
      refine .of_subset rfl rfl rfl fun key h hget => ?_
      have hget : (r₁.state.pubSubscribes.erase
        ((q.trackHash full).trackFullnameHash, conn))[key]? = some h := hget
      rw [ExtTreeMap.getElem?_erase_ite] at hget
      split at hget
      · cases hget
      · exact hget
    exact (herase.trans (changes_unsubscribeOrphans r₂ _)).trans (.of_same rfl rfl rfl rfl)

theorem changes_subscribeNamespaceReceived (r : Relay) (conn : ConnectionHandle)
    (prefixNamespace : TrackNamespace) :
    Changes q records creates peers r.state
      (r.subscribeNamespaceReceived q conn prefixNamespace).state := by
  refine .of_handlers rfl rfl rfl fun key h' hget => ?_
  have hget : (r.state.pubSubscribes.map fun key h =>
      if !r.config.allowSelf && key.2 = conn then h
      else if q.isPrefixOf prefixNamespace h.fullTrackName.nameSpace then
        h.addSubscribeNamespace q ⟨prefixNamespace, conn⟩
      else h)[key]? = some h' := hget
  rw [ExtTreeMap.getElem?_map, Option.map_eq_some_iff] at hget
  obtain ⟨h, hold, rfl⟩ := hget
  refine ⟨h, hold, ?_⟩
  split
  · exact .refl ..
  · split
    · exact .of_eq (subscribers_addSubscribeNamespace ..)
    · exact .refl ..

end Publish

/-! ### Errors of handlers -/

/-- `SubscribeTrackHandler::StatusChanged` with `kError`, on the handler of a track at a publisher.
-/
def statusError (q : Quicr) (r : Relay) (conn : ConnectionHandle) (full : FullTrackName) : Relay :=
  let hash := (q.trackHash full).trackFullnameHash
  let annoTracks := r.state.pubNamespaceActive.getD (full.nameSpace, conn) ∅
  r.mapState fun st =>
    { st with
      -- The entry of the namespace is there from now on.
      pubNamespaceActive := st.pubNamespaceActive.insert (full.nameSpace, conn)
        (annoTracks.erase hash)
      pubSubscribes := st.pubSubscribes.erase (hash, conn) }

theorem changes_statusError (r : Relay) (conn : ConnectionHandle) (full : FullTrackName) :
    Changes q records creates peers r.state (r.statusError q conn full).state := by
  refine .of_subset rfl rfl rfl fun key h hget => ?_
  have hget : (r.state.pubSubscribes.erase ((q.trackHash full).trackFullnameHash, conn))[key]? =
    some h := hget
  rw [ExtTreeMap.getElem?_erase_ite] at hget
  split at hget
  · cases hget
  · exact hget

/-! ### Messages of the other relays -/

section PeerMessages

theorem changes_subscribeAdvertised (hcreates : creates) (r : Relay)
    (peerSessionId : PeerSessionId) (si : Peering.SubscribeInfo) :
    Changes q records creates peers r.state (r.subscribeAdvertised q peerSessionId si).state := by
  unfold subscribeAdvertised
  split
  · exact .refl
  · split
    · exact .refl
    · split
      · dsimp only
        rw [state_forwardToNode]
        exact changes_processPeerSubscribe hcreates ..
      · exact .refl

theorem changes_subscribeWithdrawn (hpeers : peers) (r : Relay) (peerSessionId : PeerSessionId)
    (si : Peering.SubscribeInfo) :
    Changes q records creates peers r.state (r.subscribeWithdrawn peerSessionId si).state := by
  unfold subscribeWithdrawn
  dsimp only
  refine Changes.trans ?_ (changes_removeOrPause _ _)
  split
  · exact .refl
  · rename_i best _
    split
    · exact .refl
    · rename_i session _
      have hset := state_setPeerSession r best
        (session.removeSubscribeSourceNode si.trackHash.trackFullnameHash si.sourceNodeId).1
      split
      · split
        · exact .of_eq hset
        · rw [← hset]
          exact changes_peerUnsubscribeTrack hpeers ((r.setPeerSession best _).setInfoBase _) _
      · exact .of_eq hset

theorem changes_subscribeInfoReceived (hcreates : creates) (hpeers : peers) (r : Relay)
    (peerSessionId : PeerSessionId) (si : Peering.SubscribeInfo) (withdraw : Bool) :
    Changes q records creates peers r.state
      (r.subscribeInfoReceived q peerSessionId si withdraw).state := by
  unfold subscribeInfoReceived
  split
  · exact .refl
  · dsimp only
    set r₁ := if (r.updateSubscribes si withdraw).2 then
      (r.updateSubscribes si withdraw).1.sendSubscribeInfos (· == peerSessionId) si withdraw
      else (r.updateSubscribes si withdraw).1 with hr₁
    have hstate : r₁.state = r.state := by
      rw [hr₁]
      split <;> rfl
    rw [← hstate]
    split
    · exact changes_subscribeWithdrawn hpeers r₁ peerSessionId si
    · exact changes_subscribeAdvertised hcreates r₁ peerSessionId si

theorem changes_announceInfoReceived (hcreates : creates) (r : Relay)
    (peerSessionId : PeerSessionId) (info : AnnounceInfo) (withdraw : Bool) :
    Changes q records creates peers r.state
      (r.announceInfoReceived q peerSessionId info withdraw).state := by
  unfold announceInfoReceived
  split
  · exact .refl
  · dsimp only
    split
    · exact .refl
    · set r₁ := (r.updateAnnounces q info withdraw).1.sendAnnounceInfos (· == peerSessionId) info
        withdraw
      split
      · split
        · exact changes_publishNamespaceDoneReceived r₁ _ _
        · exact changes_publishNamespaceReceived hcreates r₁ _ _ _
      · split
        · exact changes_publishDoneReceived r₁ _ _
        · exact changes_publishReceived hcreates r₁ _ _ _

theorem changes_sessionChanged (hcreates : creates) (hpeers : peers) {r r' : Relay}
    {peerSessionId : PeerSessionId}
    {status : StatusValue} {remote : NodeInfo}
    (h : r.sessionChanged q peerSessionId status remote = some r') :
    Changes q records creates peers r.state r'.state := by
  unfold sessionChanged at h
  split at h
  · cases h
    exact .refl
  · cases h
    exact .refl
  · obtain ⟨infoBase, -, h⟩ := Option.bind_eq_some_iff.mp h
    obtain ⟨lost, -, h⟩ := Option.bind_eq_some_iff.mp h
    dsimp only at h
    set r₁ := ((r.propagateNodeInfo remote true).setInfoBase infoBase).setInfoBase
      { ((r.propagateNodeInfo remote true).setInfoBase infoBase).infoBase with
        clientFib := lost.clientFib }
    set r₂ := lost.removeSub.foldl
      (fun r si => r.subscribeInfoReceived q peerSessionId si true) r₁ with hr₂
    have hremove : Changes q records creates peers r₁.state r₂.state :=
      changes_foldl_all
        (fun r si => changes_subscribeInfoReceived hcreates hpeers r peerSessionId si true) r₁
    have hupdate : Changes q records creates peers r₂.state (lost.updateSub.foldl
        (fun r sub => r.subscribeInfoReceived q sub.1 sub.2 false) r₂).state :=
      changes_foldl_all (fun r _ => changes_subscribeInfoReceived hcreates hpeers r _ _ false) r₂
    have hboth := hremove.trans hupdate
    split at h
    · cases h
      exact hboth
    · cases h
      exact hboth

theorem changes_sessionLost (hcreates : creates) (hpeers : peers) {r r' : Relay}
    {peerSessionId : PeerSessionId}
    (h : r.sessionLost q peerSessionId = some r') :
    Changes q records creates peers r.state r'.state := by
  unfold sessionLost at h
  split at h
  · obtain ⟨r₁, h₁, h⟩ := Option.bind_eq_some_iff.mp h
    cases h
    have hlost : Changes q records creates peers r.state r₁.state :=
      changes_sessionChanged hcreates hpeers h₁
    exact hlost
  · split at h
    · cases h
      exact .refl
    · rename_i session _
      have hlost : Changes q records creates peers
          (r.setPeerSession peerSessionId { session with status := .disconnected }).state r'.state :=
        changes_sessionChanged hcreates hpeers h
      rwa [state_setPeerSession] at hlost

end PeerMessages

end Relay

end Laps
