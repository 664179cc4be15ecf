import Laps.Relay.Frame

/-! What the calls of clients do to their subscriptions and to the relay's own: most of them
nothing, and those that end a subscription or leave a namespace only take away. -/

namespace Laps.Relay

open Std Client Peering

/-! ### Calls that have nothing to do with subscriptions -/

/-- The subscriptions of the clients and those of the relays are the same. -/
structure SameInterest (r r' : Relay) : Prop where
  nodeId : r'.nodeId = r.nodeId
  subscribes : r'.state.subscribes = r.state.subscribes
  infos : r'.infoBase.subscribes = r.infoBase.subscribes
  nameSpaces : r'.state.subscribesNamespaces = r.state.subscribesNamespaces

theorem SameInterest.refl (r : Relay) : SameInterest r r := ⟨rfl, rfl, rfl, rfl⟩

theorem SameInterest.trans {r₁ r₂ r₃ : Relay} (h₁ : SameInterest r₁ r₂)
    (h₂ : SameInterest r₂ r₃) : SameInterest r₁ r₃ :=
  ⟨h₂.nodeId.trans h₁.nodeId, h₂.subscribes.trans h₁.subscribes, h₂.infos.trans h₁.infos,
    h₂.nameSpaces.trans h₁.nameSpaces⟩

theorem sameInterest_mapState {r : Relay} {f : State → State}
    (h : (f r.state).subscribes = r.state.subscribes)
    (hns : (f r.state).subscribesNamespaces = r.state.subscribesNamespaces) :
    SameInterest r (r.mapState f) :=
  ⟨rfl, h, rfl, hns⟩

theorem sameInterest_setPeerSession (r : Relay) (id : PeerSessionId) (session : PeerSession) :
    SameInterest r (r.setPeerSession id session) := by
  unfold setPeerSession
  split
  · exact ⟨rfl, rfl, rfl, rfl⟩
  · exact ⟨rfl, rfl, rfl, rfl⟩

theorem sameInterest_forwardToNode (q : Quicr) (r : Relay) (hash : UInt64) (node : NodeIdValueType)
    (keySession : PeerSessionId → PeerSessionId) :
    SameInterest r (r.forwardToNode q hash node keySession) := by
  unfold forwardToNode
  split
  · exact .refl r
  · split
    · exact .refl r
    · dsimp only
      split
      · exact (sameInterest_setPeerSession _ _ _).trans ⟨rfl, rfl, rfl, rfl⟩
      · exact sameInterest_setPeerSession _ _ _

theorem sameInterest_subscribeToAnnouncer (q : Quicr) (hash : UInt64) (full : FullTrackName)
    (conn : ConnectionHandle) (s : Subscriber) (r : Relay)
    (entry : (TrackNamespace × ConnectionHandle) × ExtTreeSet UInt64) :
    SameInterest r (subscribeToAnnouncer q hash full conn s r entry) := by
  unfold subscribeToAnnouncer
  dsimp only
  split
  · exact .refl r
  · split
    · exact .refl r
    · exact ⟨rfl, rfl, rfl, rfl⟩

/-- The subscriber is handed to the publishers. -/
theorem sameInterest_addToPublishers (q : Quicr) (r : Relay) (conn : ConnectionHandle)
    (th : TrackHash) (full : FullTrackName) (s : Subscriber) :
    SameInterest r ((r.addToHandlers th.trackFullnameHash conn s).state.pubNamespaceActive.toList.foldl
      (subscribeToAnnouncer q th.trackFullnameHash full conn s)
      (r.addToHandlers th.trackFullnameHash conn s)) := by
  have hadd : SameInterest r (r.addToHandlers th.trackFullnameHash conn s) := ⟨rfl, rfl, rfl, rfl⟩
  exact hadd.trans
    (foldl_related .refl .trans (sameInterest_subscribeToAnnouncer q _ full conn s) _ _)

theorem sameInterest_matchSubscribe (q : Quicr) (full : FullTrackName) (r : Relay)
    (si : SubscribeInfo) : SameInterest r (r.matchSubscribe q full si) := by
  unfold matchSubscribe
  split
  · exact .refl r
  · split
    · exact .refl r
    · split
      · exact .refl r
      · have hprocess : ∀ th full attrs, SameInterest r (r.processSubscribe q 0 0 th full attrs) :=
          fun th full attrs => sameInterest_addToPublishers q r 0 th full _
        dsimp only
        split
        · exact hprocess _ _ _
        · exact (hprocess _ _ _).trans (sameInterest_forwardToNode q _ _ _ _)

theorem sameInterest_clientAnnounce (q : Quicr) (r : Relay) (full : FullTrackName)
    (withdraw publishNamespace : Bool) :
    SameInterest r (r.clientAnnounce q full withdraw publishNamespace) := by
  have hsend : SameInterest r
      ((r.updateAnnounces q (r.announceInfo q full publishNamespace) withdraw).1.sendAnnounceInfos
        (fun _ => false) (r.announceInfo q full publishNamespace) withdraw) := by
    refine ⟨rfl, rfl, ?_, rfl⟩
    cases withdraw with
    | false => rfl
    | true =>
      show (r.infoBase.removeAnnounce q _).1.subscribes = r.infoBase.subscribes
      unfold InfoBase.removeAnnounce
      split <;> rfl
  unfold clientAnnounce
  dsimp only
  split
  · exact hsend
  · refine hsend.trans (foldl_related .refl .trans (fun r' entry => ?_) _ _)
    split
    · exact .refl _
    · exact sameInterest_matchSubscribe q full _ _

theorem sameInterest_subscribeToPublisher (q : Quicr) (nameSpace : TrackNamespace)
    (conn : ConnectionHandle) (r : Relay)
    (entry : (TrackNamespace × UInt64) ×
      ExtTreeMap (ConnectionHandle × RequestId) State.SubscribeInfo) :
    SameInterest r (subscribeToPublisher q nameSpace conn r entry) := by
  unfold subscribeToPublisher
  split
  · exact .refl r
  · split
    · exact .refl r
    · dsimp only
      split
      · exact .refl r
      · split
        · exact ⟨rfl, rfl, rfl, rfl⟩
        · exact ⟨rfl, rfl, rfl, rfl⟩

theorem sameInterest_publishNamespaceReceived (q : Quicr) (r : Relay) (conn : ConnectionHandle)
    (nameSpace : TrackNamespace) (req : RequestId) :
    SameInterest r (r.publishNamespaceReceived q conn nameSpace req) := by
  have hloop : ∀ r' : Relay, SameInterest r'
      (r'.state.subscribeActive.toList.foldl (subscribeToPublisher q nameSpace conn) r') :=
    fun r' => foldl_related .refl .trans (sameInterest_subscribeToPublisher q nameSpace conn) _ _
  have hrequest : SameInterest r (r.mapState fun st =>
      { st with requests := st.requests.insert (conn, req) nameSpace }) := ⟨rfl, rfl, rfl, rfl⟩
  unfold publishNamespaceReceived
  dsimp only
  split
  · split
    · exact hrequest
    · exact hrequest.trans (hloop _)
  · split
    · exact ⟨rfl, rfl, rfl, rfl⟩
    · refine SameInterest.trans ?_ (sameInterest_clientAnnounce q _ _ _ _)
      refine SameInterest.trans ?_ (hloop _)
      exact ⟨rfl, rfl, rfl, rfl⟩

theorem sameInterest_publishNamespaceDoneReceived (q : Quicr) (r : Relay) (conn : ConnectionHandle)
    (req : RequestId) : SameInterest r (r.publishNamespaceDoneReceived q conn req) := by
  unfold publishNamespaceDoneReceived
  split
  · exact .refl r
  · rename_i nameSpace _
    have hdone := sameInterest_clientAnnounce q r ⟨nameSpace, []⟩ true true
    dsimp only
    split
    · exact hdone.trans (sameInterest_mapState rfl rfl)
    · refine SameInterest.trans ?_ (sameInterest_clientAnnounce q _ _ _ _)
      exact hdone.trans (sameInterest_mapState rfl rfl)

theorem sameInterest_publishReceived (q : Quicr) (r : Relay) (conn : ConnectionHandle)
    (req : RequestId) (full : FullTrackName) :
    SameInterest r (r.publishReceived q conn req full) := by
  unfold publishReceived
  dsimp only
  refine SameInterest.trans ?_ (sameInterest_mapState rfl rfl)
  split
  · exact ⟨rfl, rfl, rfl, rfl⟩
  · refine SameInterest.trans ?_ (sameInterest_clientAnnounce q _ _ _ _)
    exact ⟨rfl, rfl, rfl, rfl⟩

/-! ### The relay's own subscriptions -/

/-- The entries of the tables are under the hashes of their tracks and under their connections. -/
structure Keyed (q : Quicr) (r : Relay) : Prop where
  client : ∀ (key : UInt64 × ConnectionHandle) info, r.state.subscribes[key]? = some info →
    (q.trackHash info.trackFullName).trackFullnameHash = key.1
  own : ∀ hash si, r.infoBase.subscribes.get₂? hash r.nodeId = some si →
    si.trackHash.trackFullnameHash = hash ∧ si.sourceNodeId = r.nodeId
  nameSpaces : ∀ nameSpace conn handler,
    r.state.subscribesNamespaces.get₂? nameSpace conn = some handler → handler.connectionId = conn

/-- What the clients are subscribed to, this relay is. -/
structure Advertises (q : Quicr) (r : Relay) : Prop extends Keyed q r where
  advertised : ∀ (key : UInt64 × ConnectionHandle) info, r.state.subscribes[key]? = some info →
    ∃ si, r.infoBase.subscribes.get₂? key.1 r.nodeId = some si

theorem Advertises.of_sameInterest {q : Quicr} {r r' : Relay} (h : Advertises q r)
    (hsame : SameInterest r r') : Advertises q r' := by
  obtain ⟨hnode, hsubscribes, hinfos, hns⟩ := hsame
  refine ⟨⟨?_, ?_, ?_⟩, ?_⟩
  · rw [hsubscribes]
    exact h.client
  · rw [hinfos, hnode]
    exact h.own
  · rw [hns]
    exact h.nameSpaces
  · rw [hsubscribes, hinfos, hnode]
    exact h.advertised

/-- `ClientUnsubscribe` takes out the relay's own subscription to the track. -/
theorem get₂?_clientUnsubscribe {q : Quicr} {r : Relay} (h : Keyed q r) (hash a : UInt64)
    (n : NodeIdValueType) :
    (r.clientUnsubscribe hash).infoBase.subscribes.get₂? a n =
      if a = hash ∧ n = r.nodeId then none else r.infoBase.subscribes.get₂? a n := by
  unfold clientUnsubscribe
  dsimp only
  split
  · rename_i hnone
    have hget : r.infoBase.subscribes.get₂? hash r.nodeId = none := hnone
    show (r.infoBase.getSubscribe hash r.nodeId).1.subscribes.get₂? a n = _
    rw [InfoBase.get₂?_getSubscribe]
    split
    · rename_i hkey
      rw [hkey.1, hkey.2, hget]
    · rfl
  · rename_i si hsome
    obtain ⟨hhash, hsource⟩ := h.own hash si hsome
    show ((r.infoBase.getSubscribe hash r.nodeId).1.removeSubscribe si).1.subscribes.get₂? a n = _
    rw [InfoBase.get₂?_removeSubscribe, hhash, hsource, InfoBase.get₂?_getSubscribe]

/-- No subscription of the second relay is new. -/
def SubscribesWithin (r r' : Relay) : Prop :=
  ∀ hash node si, r'.infoBase.subscribes.get₂? hash node = some si →
    r.infoBase.subscribes.get₂? hash node = some si

section SubscribesWithin

variable {r r' r'' : Relay}

theorem SubscribesWithin.of_eq (h : r'.infoBase.subscribes = r.infoBase.subscribes) :
    SubscribesWithin r r' := by
  intro hash node si hget
  rwa [h] at hget

theorem SubscribesWithin.trans (h : SubscribesWithin r r') (h' : SubscribesWithin r' r'') :
    SubscribesWithin r r'' :=
  fun hash node si hget => h hash node si (h' hash node si hget)

theorem within_removeSubscribe (r : Relay) (si : SubscribeInfo) :
    SubscribesWithin r (r.setInfoBase (r.infoBase.removeSubscribe si).1) := by
  intro hash node si' hget
  change (r.infoBase.removeSubscribe si).1.subscribes.get₂? hash node = some si' at hget
  rw [InfoBase.get₂?_removeSubscribe] at hget
  split at hget
  · cases hget
  · exact hget

theorem within_clientUnsubscribe (r : Relay) (hash : UInt64) :
    SubscribesWithin r (r.clientUnsubscribe hash) := by
  have hrow : SubscribesWithin r (r.setInfoBase (r.infoBase.getSubscribe hash r.nodeId).1) := by
    intro hash' node si hget
    change (r.infoBase.getSubscribe hash r.nodeId).1.subscribes.get₂? hash' node = some si at hget
    rwa [InfoBase.get₂?_getSubscribe] at hget
  unfold clientUnsubscribe
  dsimp only
  split
  · exact hrow
  · exact hrow.trans ((within_removeSubscribe _ _).trans (.of_eq rfl))

theorem within_removeOrPause (r : Relay) (hash : UInt64) :
    SubscribesWithin r (r.removeOrPausePublisherSubscribe hash) := by
  unfold removeOrPausePublisherSubscribe
  split
  · exact .of_eq rfl
  · dsimp only
    split
    · exact .of_eq rfl
    · refine SubscribesWithin.trans ?_ (within_clientUnsubscribe _ hash)
      exact .of_eq rfl

end SubscribesWithin

/-! ### Calls that take subscriptions away -/

section Shrinks

variable {q : Quicr} {W : UInt64 × ConnectionHandle → SubscribeTrackHandler → Prop}
variable {T : UInt64 → Prop} {r r' : Relay}

/-- Peers take data of the track from this relay, or one of its handlers has a subscriber of the
kind `W`. -/
def Serves (r : Relay) (W : UInt64 × ConnectionHandle → SubscribeTrackHandler → Prop)
    (hash : UInt64) : Prop :=
  r.hasSubscribers hash = true ∨
    ∃ key h, r.state.pubSubscribes[key]? = some h ∧ key.1 = hash ∧ W key h

/-- Entries of the tables go away, and handlers lose subscribers, but none of the kind `W`.  The
relay's own subscriptions stay, but for tracks in `T` that are not served. -/
structure Shrinks (W : UInt64 × ConnectionHandle → SubscribeTrackHandler → Prop)
    (T : UInt64 → Prop) (r r' : Relay) : Prop where
  nodeId : r'.nodeId = r.nodeId
  config : r'.config = r.config
  fib : r'.infoBase.clientFib = r.infoBase.clientFib
  nameSpaces : ∀ nameSpace conn handler,
    r'.state.subscribesNamespaces.get₂? nameSpace conn = some handler →
      r.state.subscribesNamespaces.get₂? nameSpace conn = some handler
  subscribes : ∀ (key : UInt64 × ConnectionHandle) info,
    r'.state.subscribes[key]? = some info → r.state.subscribes[key]? = some info
  aliases : ∀ (key : ConnectionHandle × RequestId) trackAlias,
    r'.state.subscribeAliasReqId[key]? = some trackAlias →
      r.state.subscribeAliasReqId[key]? = some trackAlias
  handlers : ∀ (key : UInt64 × ConnectionHandle) h', r'.state.pubSubscribes[key]? = some h' →
    ∃ h, r.state.pubSubscribes[key]? = some h ∧ h'.fullTrackName = h.fullTrackName
  kept : ∀ (key : UInt64 × ConnectionHandle) h, r.state.pubSubscribes[key]? = some h → W key h →
    ∃ h', r'.state.pubSubscribes[key]? = some h' ∧ W key h'
  infos : ∀ hash si, r'.infoBase.subscribes.get₂? hash r.nodeId = some si →
    r.infoBase.subscribes.get₂? hash r.nodeId = some si
  own : ∀ hash si, r.infoBase.subscribes.get₂? hash r.nodeId = some si →
    r'.infoBase.subscribes.get₂? hash r.nodeId = some si ∨ (T hash ∧ ¬ r.Serves W hash)

theorem Shrinks.refl (r : Relay) : Shrinks W T r r :=
  ⟨rfl, rfl, rfl, fun _ _ _ h => h, fun _ _ h => h, fun _ _ h => h, fun _ h' hget => ⟨h', hget, rfl⟩,
    fun _ h hget hW => ⟨h, hget, hW⟩, fun _ _ h => h, fun _ _ h => Or.inl h⟩

theorem Shrinks.serves (h : Shrinks W T r r') {hash : UInt64} (hserves : r.Serves W hash) :
    r'.Serves W hash := by
  rcases hserves with hfib | ⟨key, handler, hget, hkey, hW⟩
  · left
    unfold hasSubscribers at hfib ⊢
    rwa [h.fib]
  · obtain ⟨handler', hget', hW'⟩ := h.kept key handler hget hW
    exact Or.inr ⟨key, handler', hget', hkey, hW'⟩

theorem Shrinks.trans {r₁ r₂ r₃ : Relay} (h₁ : Shrinks W T r₁ r₂) (h₂ : Shrinks W T r₂ r₃) :
    Shrinks W T r₁ r₃ := by
  have hinfos := h₂.infos
  have hown := h₂.own
  rw [h₁.nodeId] at hinfos hown
  constructor
  · exact h₂.nodeId.trans h₁.nodeId
  · exact h₂.config.trans h₁.config
  · exact h₂.fib.trans h₁.fib
  · exact fun ns conn handler h => h₁.nameSpaces ns conn handler (h₂.nameSpaces ns conn handler h)
  · exact fun key info h => h₁.subscribes key info (h₂.subscribes key info h)
  · exact fun key trackAlias h => h₁.aliases key trackAlias (h₂.aliases key trackAlias h)
  · intro key h₃ hget
    obtain ⟨handler₂, hget₂, hname₂⟩ := h₂.handlers key h₃ hget
    obtain ⟨handler₁, hget₁, hname₁⟩ := h₁.handlers key handler₂ hget₂
    exact ⟨handler₁, hget₁, hname₂.trans hname₁⟩
  · intro key handler hget hW
    obtain ⟨handler₂, hget₂, hW₂⟩ := h₁.kept key handler hget hW
    exact h₂.kept key handler₂ hget₂ hW₂
  · exact fun hash si h => h₁.infos hash si (hinfos hash si h)
  · intro hash si hget
    rcases h₁.own hash si hget with hget₂ | hgone
    · rcases hown hash si hget₂ with hget₃ | ⟨hT, hnot⟩
      · exact Or.inl hget₃
      · exact Or.inr ⟨hT, fun hserves => hnot (h₁.serves hserves)⟩
    · exact Or.inr hgone

theorem Shrinks.keyed (h : Shrinks W T r r') (hr : Keyed q r) : Keyed q r' := by
  refine ⟨fun key info hget => hr.client key info (h.subscribes key info hget), ?_, ?_⟩
  · rw [h.nodeId]
    exact fun hash si hget => hr.own hash si (h.infos hash si hget)
  · exact fun ns conn handler hget => hr.nameSpaces ns conn handler (h.nameSpaces _ _ _ hget)

/-- A loop of such calls, each of which may rest on what the ones before have left. -/
theorem Shrinks.foldl {β : Type*} {f : Relay → β → Relay} (l : List β) (h : Shrinks W T r r')
    (hf : ∀ r' x, x ∈ l → Shrinks W T r r' → Shrinks W T r' (f r' x)) :
    Shrinks W T r (l.foldl f r') := by
  induction l generalizing r' with
  | nil => exact h
  | cons x l ih =>
    refine ih (h.trans (hf r' x List.mem_cons_self h)) fun r'' y hy h' => ?_
    exact hf r'' y (List.mem_cons_of_mem _ hy) h'

/-- A change of the clients' state that only takes away. -/
theorem shrinks_mapState {f : State → State}
    (hns : (f r.state).subscribesNamespaces = r.state.subscribesNamespaces)
    (hsubs : ∀ (key : UInt64 × ConnectionHandle) info,
      (f r.state).subscribes[key]? = some info → r.state.subscribes[key]? = some info)
    (haliases : ∀ (key : ConnectionHandle × RequestId) trackAlias,
      (f r.state).subscribeAliasReqId[key]? = some trackAlias →
        r.state.subscribeAliasReqId[key]? = some trackAlias)
    {g : UInt64 × ConnectionHandle → SubscribeTrackHandler → SubscribeTrackHandler}
    (hpubs : ∀ key : UInt64 × ConnectionHandle,
      (f r.state).pubSubscribes[key]? = r.state.pubSubscribes[key]?.map (g key))
    (hname : ∀ key h, (g key h).fullTrackName = h.fullTrackName)
    (hW : ∀ key h, r.state.pubSubscribes[key]? = some h → W key h → W key (g key h)) :
    Shrinks W T r (r.mapState f) := by
  refine ⟨rfl, rfl, rfl, ?_, hsubs, haliases, ?_, ?_, fun _ _ h => h, fun _ _ h => Or.inl h⟩
  · intro ns conn handler h
    show r.state.subscribesNamespaces.get₂? ns conn = some handler
    rw [← hns]
    exact h
  · intro key h' hget
    change (f r.state).pubSubscribes[key]? = some h' at hget
    rw [hpubs] at hget
    obtain ⟨h, hold, rfl⟩ := Option.map_eq_some_iff.mp hget
    exact ⟨h, hold, hname key h⟩
  · intro key h hget hWh
    refine ⟨g key h, ?_, hW key h hget hWh⟩
    show (f r.state).pubSubscribes[key]? = _
    rw [hpubs, hget, Option.map_some]

theorem clientUnsubscribe_rest (r : Relay) (hash : UInt64) :
    (r.clientUnsubscribe hash).nodeId = r.nodeId ∧ (r.clientUnsubscribe hash).config = r.config ∧
    (r.clientUnsubscribe hash).state = r.state ∧
    (r.clientUnsubscribe hash).infoBase.clientFib = r.infoBase.clientFib := by
  unfold clientUnsubscribe
  dsimp only
  split
  · exact ⟨rfl, rfl, rfl, rfl⟩
  · rename_i si _
    have hfib : ((r.infoBase.getSubscribe hash r.nodeId).1.removeSubscribe si).1.clientFib =
        r.infoBase.clientFib := by
      rw [InfoBase.removeSubscribe_rest]
      rfl
    exact ⟨rfl, rfl, rfl, hfib⟩

theorem shrinks_clientUnsubscribe (hr : Keyed q r) {hash : UInt64} (hT : T hash)
    (hserves : ¬ r.Serves W hash) : Shrinks W T r (r.clientUnsubscribe hash) := by
  obtain ⟨hnode, hconfig, hstate, hfib⟩ := clientUnsubscribe_rest r hash
  have hget := get₂?_clientUnsubscribe hr hash
  refine ⟨hnode, hconfig, hfib, ?_, ?_, ?_, ?_, ?_, ?_, ?_⟩
  · simp only [hstate]
    exact fun _ _ _ h => h
  · simp only [hstate]
    exact fun _ _ h => h
  · simp only [hstate]
    exact fun _ _ h => h
  · simp only [hstate]
    exact fun _ h' h => ⟨h', h, rfl⟩
  · simp only [hstate]
    exact fun _ h hget hW => ⟨h, hget, hW⟩
  · intro a si ha
    rw [hget] at ha
    split at ha
    · cases ha
    · exact ha
  · intro a si ha
    by_cases hkey : a = hash
    · exact Or.inr ⟨hkey ▸ hT, hkey ▸ hserves⟩
    · left
      rw [hget, if_neg fun h => hkey h.1]
      exact ha

/-- `RemoveOrPausePublisherSubscribe` drops or pauses only what has no subscribers. -/
theorem shrinks_removeOrPause (hr : Keyed q r)
    (hW : ∀ key h, W key h → h.hasSubscribers = true) {hash : UInt64} (hT : T hash) :
    Shrinks W T r (r.removeOrPausePublisherSubscribe hash) := by
  unfold removeOrPausePublisherSubscribe
  split
  · exact .refl r
  · rename_i hfib
    dsimp only
    set r₁ := r.mapState fun st => { st with
      pubSubscribes := st.pubSubscribes.filterMap fun key h =>
        if key.1 = hash ∧ h.hasSubscribers = false then
          if h.isPublisherInitiated then some h.pause else none
        else some h } with hr₁
    have hget : ∀ key : UInt64 × ConnectionHandle, r₁.state.pubSubscribes[key]? =
        r.state.pubSubscribes[key]?.bind fun h =>
          if key.1 = hash ∧ h.hasSubscribers = false then
            if h.isPublisherInitiated then some h.pause else none
          else some h := by
      intro key
      rw [hr₁]
      exact ExtTreeMap.getElem?_filterMap'
    have hdrops : Shrinks W T r r₁ := by
      refine ⟨rfl, rfl, rfl, fun _ _ _ h => h, fun _ _ h => h, fun _ _ h => h, ?_, ?_,
        fun _ _ h => h, fun _ _ h => Or.inl h⟩
      · intro key h' h
        rw [hget] at h
        obtain ⟨old, hold, hsome⟩ := Option.bind_eq_some_iff.mp h
        refine ⟨old, hold, ?_⟩
        split at hsome
        · split at hsome
          · cases hsome
            rfl
          · cases hsome
        · cases hsome
          rfl
      · intro key h hold hWh
        refine ⟨h, ?_, hWh⟩
        rw [hget, hold, Option.bind_some, if_neg]
        rw [hW key h hWh]
        simp
    split
    · exact hdrops
    · rename_i hsubs
      refine hdrops.trans (shrinks_clientUnsubscribe (hdrops.keyed hr) hT ?_)
      rintro (hfib' | ⟨key, h, hsome, hkey, hWh⟩)
      · exact hfib hfib'
      · -- A handler that has a subscriber now has had it before.
        rw [hget] at hsome
        obtain ⟨old, hold, hsome⟩ := Option.bind_eq_some_iff.mp hsome
        have hh := hW key h hWh
        have holdsubs : old.hasSubscribers = true := by
          by_contra hnone
          rw [if_pos ⟨hkey, Bool.eq_false_iff.mpr hnone⟩] at hsome
          split at hsome
          · cases hsome
            exact hnone hh
          · cases hsome
        apply hsubs
        rw [ExtTreeMap.anyEntry_iff]
        exact ⟨key, old, hold, by simp [hkey, holdsubs]⟩

theorem removeOrPause_tables (r : Relay) (hash : UInt64) :
    (r.removeOrPausePublisherSubscribe hash).state.subscribes = r.state.subscribes ∧
    (r.removeOrPausePublisherSubscribe hash).state.subscribeAliasReqId =
      r.state.subscribeAliasReqId := by
  unfold removeOrPausePublisherSubscribe
  split
  · exact ⟨rfl, rfl⟩
  · dsimp only
    split
    · exact ⟨rfl, rfl⟩
    · rw [(clientUnsubscribe_rest _ hash).2.2.1]
      exact ⟨rfl, rfl⟩

/-! ### `UnsubscribeReceived` -/

section Unsubscribe

variable {conn : ConnectionHandle} {req : RequestId}

theorem removeSubscriber_fullTrackName (h : SubscribeTrackHandler) (conn : ConnectionHandle) :
    (h.removeSubscriber conn).fullTrackName = h.fullTrackName := by
  unfold SubscribeTrackHandler.removeSubscriber
  dsimp only
  split <;> rfl

/-- One subscription is taken away, when the request is known. -/
theorem shrinks_unsubscribeReceived (hr : Keyed q r)
    (hW : ∀ key h, W key h → h.hasSubscribers = true)
    (hstable : ∀ key h, W key h → W key (h.removeSubscriber conn))
    (hT : ∀ trackAlias sub, r.state.subscribeAliasReqId[(conn, req)]? = some trackAlias →
      r.state.subscribes[(trackAlias, conn)]? = some sub → T trackAlias) :
    Shrinks W T r (r.unsubscribeReceived q conn req) := by
  unfold unsubscribeReceived
  split
  · exact .refl r
  · rename_i trackAlias halias
    split
    · exact .refl r
    · rename_i sub hsub
      dsimp only
      rw [hr.client _ _ hsub]
      refine Shrinks.trans (shrinks_mapState (g := fun key h =>
        if key.1 = trackAlias then h.removeSubscriber conn else h) rfl ?_ ?_ ?_ ?_ ?_)
        (shrinks_removeOrPause (q := q) ?_ hW (hT trackAlias sub halias hsub))
      · intro key info hget
        rw [ExtTreeMap.getElem?_erase] at hget
        split at hget
        · cases hget
        · exact hget
      · intro key a hget
        rw [ExtTreeMap.getElem?_erase] at hget
        split at hget
        · cases hget
        · exact hget
      · intro key
        exact ExtTreeMap.getElem?_map
      · intro key h
        split
        · exact removeSubscriber_fullTrackName h conn
        · rfl
      · intro key h _ hWh
        split
        · exact hstable key h hWh
        · exact hWh
      · refine ⟨fun key info hget => ?_, hr.own, hr.nameSpaces⟩
        change (r.state.subscribes.erase (trackAlias, conn))[key]? = some info at hget
        rw [ExtTreeMap.getElem?_erase] at hget
        split at hget
        · cases hget
        · exact hr.client key info hget

/-- The other requests stay known. -/
theorem alias_unsubscribeReceived_of_ne (q : Quicr) (r : Relay) {key : ConnectionHandle × RequestId}
    (hkey : key ≠ (conn, req)) :
    (r.unsubscribeReceived q conn req).state.subscribeAliasReqId[key]? =
      r.state.subscribeAliasReqId[key]? := by
  unfold unsubscribeReceived
  split
  · rfl
  · split
    · rfl
    · dsimp only
      rw [(removeOrPause_tables _ _).2]
      show (r.state.subscribeAliasReqId.erase (conn, req))[key]? = _
      simp [ExtTreeMap.getElem?_erase, Ne.symm hkey]

/-- The subscription of the request is gone. -/
theorem subscribes_unsubscribeReceived (q : Quicr) {trackAlias : UInt64}
    (h : r.state.subscribeAliasReqId[(conn, req)]? = some trackAlias) :
    (r.unsubscribeReceived q conn req).state.subscribes[(trackAlias, conn)]? = none := by
  unfold unsubscribeReceived
  simp only [h]
  split
  · rename_i hnone
    exact hnone
  · rw [(removeOrPause_tables _ _).1]
    exact ExtTreeMap.getElem?_erase_self

end Unsubscribe

/-! ### `UnsubscribeNamespaceReceived` -/

section Leave

variable {conn : ConnectionHandle} {prefixNamespace : TrackNamespace}

/-- The loop of `UnsubscribeNamespaceReceived` comes to the handler. -/
def Leaves (q : Quicr) (r : Relay) (conn : ConnectionHandle) (prefixNamespace : TrackNamespace)
    (key : UInt64 × ConnectionHandle) (h : SubscribeTrackHandler) : Prop :=
  (r.config.allowSelf = true ∨ key.2 ≠ conn) ∧
    q.hasSamePrefix prefixNamespace h.fullTrackName.nameSpace = true

theorem shrinks_leaveNamespace (hr : Keyed q r) {handler : PublishNamespaceHandler}
    (hW : ∀ key h, W key h → h.hasSubscribers = true)
    (hstable : ∀ key h, Leaves q r conn prefixNamespace key h → W key h →
      W key (h.removeSubscribeNamespace q handler))
    (key : UInt64 × ConnectionHandle)
    (hT : ∀ h, r.state.pubSubscribes[key]? = some h → Leaves q r conn prefixNamespace key h →
      T key.1) :
    Shrinks W T r (leaveNamespace q conn prefixNamespace handler r key) := by
  unfold leaveNamespace
  split
  · exact .refl r
  · rename_i h hget
    split
    · exact .refl r
    · rename_i hself
      split
      · rename_i hprefix
        have hleaves : Leaves q r conn prefixNamespace key h := by
          refine ⟨?_, hprefix⟩
          by_cases hallow : r.config.allowSelf = true
          · exact Or.inl hallow
          · exact Or.inr (by simpa [hallow] using hself)
        have hmap : Shrinks W T r (r.mapState fun st => { st with
            pubSubscribes := st.pubSubscribes.insert key (h.removeSubscribeNamespace q handler) }) := by
          refine shrinks_mapState (g := fun key' h' =>
            if key' = key then h'.removeSubscribeNamespace q handler else h') rfl
            (fun _ _ h => h) (fun _ _ h => h) ?_ ?_ ?_
          · intro key'
            by_cases hkey : key' = key
            · subst hkey
              simp [hget]
            · simp [ExtTreeMap.getElem?_insert, hkey, Ne.symm hkey]
          · intro key' h'
            split <;> rfl
          · intro key' h' hget' hWh
            split
            · rename_i hkey
              subst hkey
              obtain rfl := Option.some.inj (hget.symm.trans hget')
              exact hstable key' h hleaves hWh
            · exact hWh
        exact hmap.trans (shrinks_removeOrPause (hmap.keyed hr) hW (hT h hget hleaves))
      · exact .refl r

/-- The connection leaves the namespace: its handler is taken out of those of the tracks. -/
theorem shrinks_unsubscribeNamespaceReceived (hr : Keyed q r)
    (hW : ∀ key h, W key h → h.hasSubscribers = true)
    (hstable : ∀ handler, r.state.subscribesNamespaces.get₂? prefixNamespace conn = some handler →
      ∀ key h, Leaves q r conn prefixNamespace key h → W key h →
        W key (h.removeSubscribeNamespace q handler))
    (hT : ∀ handler, r.state.subscribesNamespaces.get₂? prefixNamespace conn = some handler →
      ∀ key h, r.state.pubSubscribes[key]? = some h → Leaves q r conn prefixNamespace key h →
        T key.1) :
    Shrinks W T r (r.unsubscribeNamespaceReceived q conn prefixNamespace) := by
  have hremove : ∀ {r : Relay} {m : ExtTreeMap TrackNamespace
      (ExtTreeMap ConnectionHandle PublishNamespaceHandler)},
      (∀ ns c handler, m.get₂? ns c = some handler →
        r.state.subscribesNamespaces.get₂? ns c = some handler) →
      Shrinks W T r (r.mapState fun st => { st with subscribesNamespaces := m }) :=
    fun hm => ⟨rfl, rfl, rfl, hm, fun _ _ h => h, fun _ _ h => h, fun _ h' h => ⟨h', h, rfl⟩,
      fun _ h hget hWh => ⟨h, hget, hWh⟩, fun _ _ h => h, fun _ _ h => Or.inl h⟩
  unfold unsubscribeNamespaceReceived
  split
  · exact .refl r
  · rename_i row hrow
    split
    · split
      · apply hremove
        intro ns c handler hget
        obtain ⟨row', hrow', hhandler⟩ := ExtTreeMap.get₂?_eq_some.mp hget
        rw [ExtTreeMap.getElem?_erase] at hrow'
        split at hrow'
        · cases hrow'
        · exact ExtTreeMap.get₂?_eq_some.mpr ⟨row', hrow', hhandler⟩
      · exact .refl r
    · rename_i handler hhandler
      have hstored : r.state.subscribesNamespaces.get₂? prefixNamespace conn = some handler := by
        simp [ExtTreeMap.get₂?, hrow, hhandler]
      have hloop : Shrinks W T r (r.state.pubSubscribes.keys.foldl
          (leaveNamespace q conn prefixNamespace handler) r) := by
        refine Shrinks.foldl _ (.refl r) fun r' key _ h => ?_
        have hleaves : ∀ {key h₁ h₂}, h₁.fullTrackName = h₂.fullTrackName →
            Leaves q r' conn prefixNamespace key h₁ → Leaves q r conn prefixNamespace key h₂ := by
          intro key h₁ h₂ hname hleaves
          unfold Leaves at hleaves ⊢
          rwa [← hname, ← h.config]
        refine shrinks_leaveNamespace (h.keyed hr) hW ?_ key ?_
        · exact fun key' h' hl hWh => hstable handler hstored key' h' (hleaves rfl hl) hWh
        · intro h' hget hl
          obtain ⟨old, hold, hname⟩ := h.handlers key h' hget
          exact hT handler hstored key old hold (hleaves hname hl)
      refine hloop.trans (hremove fun ns c handler' hget => ?_)
      rw [ExtTreeMap.get₂?_erase₂] at hget
      split at hget
      · cases hget
      · exact hget

end Leave

/-! ### Loops of `UnsubscribeReceived` -/

section Loops

variable {β : Type*} {l : List β} {k : β → ConnectionHandle × RequestId}

theorem shrinks_unsubscribes (hr : Keyed q r) (hW : ∀ key h, W key h → h.hasSubscribers = true)
    (hstable : ∀ x ∈ l, ∀ key h, W key h → W key (h.removeSubscriber (k x).1))
    (hT : ∀ x ∈ l, ∀ trackAlias sub, r.state.subscribeAliasReqId[k x]? = some trackAlias →
      r.state.subscribes[(trackAlias, (k x).1)]? = some sub → T trackAlias) :
    Shrinks W T r (l.foldl (fun r x => r.unsubscribeReceived q (k x).1 (k x).2) r) := by
  refine Shrinks.foldl l (.refl r) fun r' x hx h => ?_
  refine shrinks_unsubscribeReceived (h.keyed hr) hW (hstable x hx) fun trackAlias sub halias hsub => ?_
  exact hT x hx trackAlias sub (h.aliases _ _ halias) (h.subscribes _ _ hsub)

/-- The subscriptions of all requests of the loop are gone. -/
theorem subscribes_unsubscribes (hr : Keyed q r) (hdistinct : l.Pairwise fun x y => k x ≠ k y)
    {x : β} (hx : x ∈ l) {trackAlias : UInt64}
    (halias : r.state.subscribeAliasReqId[k x]? = some trackAlias) :
    (l.foldl (fun r x => r.unsubscribeReceived q (k x).1 (k x).2) r).state.subscribes[
      (trackAlias, (k x).1)]? = none := by
  have hstep : ∀ {r : Relay}, Keyed q r → ∀ l : List β, Shrinks (fun _ _ => False) (fun _ => True) r
      (l.foldl (fun r x => r.unsubscribeReceived q (k x).1 (k x).2) r) :=
    fun hr l => shrinks_unsubscribes hr (fun _ _ h => h.elim) (fun _ _ _ _ h => h.elim)
      fun _ _ _ _ _ _ => trivial
  induction l generalizing r with
  | nil => cases hx
  | cons y l ih =>
    obtain ⟨hfresh, hdistinct⟩ := List.pairwise_cons.mp hdistinct
    have hkeyed : Keyed q (r.unsubscribeReceived q (k y).1 (k y).2) := (hstep hr [y]).keyed hr
    rw [List.foldl_cons]
    rcases List.mem_cons.mp hx with rfl | hx
    · have hgone := subscribes_unsubscribeReceived q halias
      by_contra hsome
      obtain ⟨sub, hsub⟩ := Option.ne_none_iff_exists'.mp hsome
      cases hgone.symm.trans ((hstep hkeyed l).subscribes _ _ hsub)
    · refine ih hkeyed hdistinct hx ?_
      rw [alias_unsubscribeReceived_of_ne q r (hfresh x hx).symm]
      exact halias

end Loops

end Shrinks

end Laps.Relay
