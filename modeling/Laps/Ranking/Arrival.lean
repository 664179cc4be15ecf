import Laps.Ranking.Wiring

/-! What publications and subscriptions of namespaces give the tracks and the subscribers, after any
of them that have come. -/

namespace Laps.Ranking

open Std

namespace Arrival

/-- The track or the prefix, and the connection. -/
def key : Arrival → (FullTrackName × ConnectionHandle) ⊕ (TrackNamespace × ConnectionHandle)
  | .publish _ conn full => .inl (full, conn)
  | .subscribeNamespace _ conn nsPrefix _ => .inr (nsPrefix, conn)

def isPublish : Arrival → Bool
  | .publish .. => true
  | .subscribeNamespace .. => false

def Publishes (arrivals : List Arrival) (full : FullTrackName) (conn : ConnectionHandle) : Prop :=
  ∃ tick, .publish tick conn full ∈ arrivals

def Subscribes (arrivals : List Arrival) (nsPrefix : TrackNamespace) (conn : ConnectionHandle) :
    Prop :=
  ∃ tick filter, .subscribeNamespace tick conn nsPrefix filter ∈ arrivals

/-- The two tests of prefixes agree on the names that arrive. -/
def PrefixTestsAgree (q : Quicr) (arrivals : List Arrival) : Prop :=
  ∀ full conn nsPrefix conn', Publishes arrivals full conn → Subscribes arrivals nsPrefix conn' →
    q.isPrefixOf nsPrefix full.nameSpace = q.hasSamePrefix nsPrefix full.nameSpace

variable {q : Quicr} {arrivals arrivals' : List Arrival} {full : FullTrackName}
  {nsPrefix : TrackNamespace} {conn : ConnectionHandle}

theorem Publishes.mono (h : Publishes arrivals full conn) (hsub : arrivals ⊆ arrivals') :
    Publishes arrivals' full conn := by
  obtain ⟨tick, hmem⟩ := h
  exact ⟨tick, hsub hmem⟩

theorem Subscribes.mono (h : Subscribes arrivals nsPrefix conn) (hsub : arrivals ⊆ arrivals') :
    Subscribes arrivals' nsPrefix conn := by
  obtain ⟨tick, filter, hmem⟩ := h
  exact ⟨tick, filter, hsub hmem⟩

theorem PrefixTestsAgree.mono (h : PrefixTestsAgree q arrivals') (hsub : arrivals ⊆ arrivals') :
    PrefixTestsAgree q arrivals :=
  fun full conn nsPrefix conn' hpub hns =>
    h full conn nsPrefix conn' (hpub.mono hsub) (hns.mono hsub)

@[simp] theorem publishes_append_publish (tick : UInt64) (conn' : ConnectionHandle)
    (full' : FullTrackName) :
    Publishes (arrivals ++ [.publish tick conn' full']) full conn ↔
      Publishes arrivals full conn ∨ full = full' ∧ conn = conn' := by
  simp only [Publishes, List.mem_append, List.mem_singleton, publish.injEq]
  grind

@[simp] theorem publishes_append_subscribeNamespace (tick : UInt64) (conn' : ConnectionHandle)
    (nsPrefix : TrackNamespace) (filter : Option TrackFilter) :
    Publishes (arrivals ++ [.subscribeNamespace tick conn' nsPrefix filter]) full conn ↔
      Publishes arrivals full conn := by
  simp [Publishes]

@[simp] theorem subscribes_append_publish (tick : UInt64) (conn' : ConnectionHandle)
    (full : FullTrackName) :
    Subscribes (arrivals ++ [.publish tick conn' full]) nsPrefix conn ↔
      Subscribes arrivals nsPrefix conn := by
  simp [Subscribes]

@[simp] theorem subscribes_append_subscribeNamespace (tick : UInt64) (conn' : ConnectionHandle)
    (nsPrefix' : TrackNamespace) (filter : Option TrackFilter) :
    Subscribes (arrivals ++ [.subscribeNamespace tick conn' nsPrefix' filter]) nsPrefix conn ↔
      Subscribes arrivals nsPrefix conn ∨ nsPrefix = nsPrefix' ∧ conn = conn' := by
  simp only [Subscribes, List.mem_append, List.mem_singleton, subscribeNamespace.injEq]
  grind

theorem publishes_perm (h : arrivals.Perm arrivals') :
    Publishes arrivals = Publishes arrivals' := by
  funext full conn
  exact propext ⟨fun hpub => hpub.mono h.subset, fun hpub => hpub.mono h.symm.subset⟩

theorem subscribes_perm (h : arrivals.Perm arrivals') :
    Subscribes arrivals = Subscribes arrivals' := by
  funext nsPrefix conn
  exact propext ⟨fun hns => hns.mono h.subset, fun hns => hns.mono h.symm.subset⟩

theorem not_subscribes_nil : ¬Subscribes [] nsPrefix conn := by
  simp [Subscribes]

theorem not_subscribes_of_isPublish (h : ∀ a ∈ arrivals, a.isPublish = true) :
    ¬Subscribes arrivals nsPrefix conn := by
  rintro ⟨tick, filter, hmem⟩
  cases h _ hmem

end Arrival

open Arrival

namespace ClientManager

def arriveAll (q : Quicr) (published : TrackAlias → PublishStatus) (m : ClientManager)
    (arrivals : List Arrival) : ClientManager :=
  arrivals.foldl (arrive q published) m

/-! ### What the arrivals end with -/

/-- The track handler has the handler of the connection for the prefix. -/
def Pairs (m : ClientManager) (key : UInt64 × ConnectionHandle) (nsPrefix : TrackNamespace)
    (conn : ConnectionHandle) : Prop :=
  ∃ (h : SubscribeTrackHandler) (handler : HandlerRef), m.pubSubscribes[key]? = some h ∧
    h.Has handler ∧ handler.prefixNamespace = nsPrefix ∧ handler.connectionId = conn

/-- The track is published to the subscriber of the prefix. -/
def PublishedTo (m : ClientManager) (nsPrefix : TrackNamespace) (conn : ConnectionHandle)
    (trackAlias : TrackAlias) : Prop :=
  ∃ (handler : HandlerRef) (object : PublishNamespaceHandler),
    m.subscribesNamespaces.get₂? nsPrefix conn = some handler ∧
      m.live[handler.id]? = some object ∧ object.publishedTracks.contains trackAlias = true

/-- The track sends to the ranking that is kept under the hash. -/
def RankedBy (m : ClientManager) (key : UInt64 × ConnectionHandle) (nsHash : UInt64) : Prop :=
  ∃ (h : SubscribeTrackHandler) (rk : SharedRanking), m.pubSubscribes[key]? = some h ∧
    h.trackRanking = some ⟨nsHash, rk.id⟩ ∧ m.trackRankings[nsHash]? = some rk

def Paused (m : ClientManager) (key : UInt64 × ConnectionHandle) : Prop :=
  ∃ h : SubscribeTrackHandler, m.pubSubscribes[key]? = some h ∧ h.paused = true

/-- No connection subscribes to its own tracks, unless they are mirrored, and the prefixes of a
track have one ranking.  The rest is about names with the same hash. -/
structure WiredOnce (q : Quicr) (allowSelf : Bool) (arrivals : List Arrival) : Prop where
  notOwn : ∀ full conn nsPrefix conn', Publishes arrivals full conn →
    Subscribes arrivals nsPrefix conn' → q.isPrefixOf nsPrefix full.nameSpace = true →
    allowSelf = true ∨ conn ≠ conn'
  oneRanking : ∀ full conn nsPrefix conn' nsPrefix' conn'', Publishes arrivals full conn →
    Subscribes arrivals nsPrefix conn' → q.isPrefixOf nsPrefix full.nameSpace = true →
    Subscribes arrivals nsPrefix' conn'' → q.isPrefixOf nsPrefix' full.nameSpace = true →
    (q.trackHash ⟨nsPrefix, []⟩).trackNamespaceHash =
      (q.trackHash ⟨nsPrefix', []⟩).trackNamespaceHash
  oneHandler : ∀ full conn nsPrefix nsPrefix' conn', Publishes arrivals full conn →
    Subscribes arrivals nsPrefix conn' → q.isPrefixOf nsPrefix full.nameSpace = true →
    Subscribes arrivals nsPrefix' conn' → q.isPrefixOf nsPrefix' full.nameSpace = true →
    (q.trackHash ⟨nsPrefix, []⟩).trackFullnameHash =
      (q.trackHash ⟨nsPrefix', []⟩).trackFullnameHash → nsPrefix = nsPrefix'
  /-- A track without a prefix is looked up under the empty namespace. -/
  unranked : ∀ full conn, Publishes arrivals full conn →
    (∀ nsPrefix conn', Subscribes arrivals nsPrefix conn' →
      q.isPrefixOf nsPrefix full.nameSpace = false) →
    ∀ nsPrefix conn', Subscribes arrivals nsPrefix conn' →
      (q.trackHash ⟨nsPrefix, []⟩).trackNamespaceHash ≠
        (q.trackHash ⟨[], []⟩).trackNamespaceHash
  oneTrack : ∀ full full' conn, Publishes arrivals full conn → Publishes arrivals full' conn →
    (q.trackHash full).trackFullnameHash = (q.trackHash full').trackFullnameHash →
    ∀ nsPrefix conn', Subscribes arrivals nsPrefix conn' →
      q.isPrefixOf nsPrefix full.nameSpace = true → q.isPrefixOf nsPrefix full'.nameSpace = true

/-! ### The tables -/

/-- What the tables are after some arrivals, whatever their order. -/
structure Tables (q : Quicr) (allowSelf : Bool) (peerSubscribers : ExtTreeSet UInt64)
    (subscribes : ExtTreeSet (UInt64 × ConnectionHandle)) (arrivals : List Arrival)
    (m : ClientManager) : Prop extends HandlersMade q m where
  config : m.allowSelf = allowSelf ∧ m.peerSubscribers = peerSubscribers ∧
    m.subscribes = subscribes
  subscribed : ∀ conn nsPrefix,
    m.Subscribed conn nsPrefix ↔ Subscribes arrivals nsPrefix conn
  ranked : ∀ nsHash, (∃ rk, m.trackRankings[nsHash]? = some rk) ↔ ∃ nsPrefix conn,
    Subscribes arrivals nsPrefix conn ∧ (q.trackHash ⟨nsPrefix, []⟩).trackNamespaceHash = nsHash
  stored : ∀ full conn, Publishes arrivals full conn →
    ∃ h, m.pubSubscribes[((q.trackHash full).trackFullnameHash, conn)]? = some h
  named : ∀ (key : UInt64 × ConnectionHandle) (h : SubscribeTrackHandler),
    m.pubSubscribes[key]? = some h → Publishes arrivals h.fullTrackName key.2 ∧
      (q.trackHash h.fullTrackName).trackFullnameHash = key.1
  held : ∀ (key : UInt64 × ConnectionHandle) (h : SubscribeTrackHandler) (hash : UInt64)
    (conn : ConnectionHandle) (handler : HandlerRef), m.pubSubscribes[key]? = some h →
    h.subNamespaces.get₂? hash conn = some handler →
    (hash = (q.trackHash ⟨handler.prefixNamespace, []⟩).trackFullnameHash ∧
        conn = handler.connectionId) ∧
      Subscribes arrivals handler.prefixNamespace handler.connectionId ∧
      q.isPrefixOf handler.prefixNamespace h.fullTrackName.nameSpace = true

section

variable {q : Quicr} {published : TrackAlias → PublishStatus} {allowSelf : Bool}
  {peerSubscribers : ExtTreeSet UInt64} {subscribes : ExtTreeSet (UInt64 × ConnectionHandle)}
  {arrivals : List Arrival} {m : ClientManager}

theorem tables_start :
    Tables q allowSelf peerSubscribers subscribes []
      (start allowSelf peerSubscribers subscribes) := by
  refine ⟨handlersMade_start .., ⟨rfl, rfl, rfl⟩, ?_, ?_, ?_, ?_, ?_⟩ <;>
    simp [start, Subscribed, Subscribes, Publishes]

theorem Tables.publishReceived (ht : Tables q allowSelf peerSubscribers subscribes arrivals m)
    (tick : UInt64) (conn : ConnectionHandle) (full : FullTrackName)
    (hagree : PrefixTestsAgree q (arrivals ++ [.publish tick conn full])) :
    Tables q allowSelf peerSubscribers subscribes (arrivals ++ [.publish tick conn full])
      (m.publishReceived q published tick conn full) := by
  have hmade : HandlersMade q (m.publishReceived q published tick conn full) :=
    ht.toHandlersMade.publishReceived tick conn full
  obtain ⟨new, hnew, heq⟩ := publishReceived_eq q published m tick conn full
  rw [heq] at hmade ⊢
  refine ⟨hmade, ht.config, fun conn' nsPrefix => ?_, fun nsHash => ?_, fun full' conn' hpub => ?_,
    fun key h hkey => ?_, fun key h hash conn' handler hkey hget => ?_⟩
  · rw [subscribes_append_publish]
    exact ht.subscribed conn' nsPrefix
  · simp only [subscribes_append_publish]
    exact ht.ranked nsHash
  · show ∃ h, (m.pubSubscribes.insert _ _)[_]? = some h
    rw [ExtTreeMap.getElem?_insert_ite]
    split
    · exact ⟨new, rfl⟩
    · rename_i hne
      obtain hpub | ⟨rfl, rfl⟩ := (publishes_append_publish tick conn full).mp hpub
      · exact ht.stored full' conn' hpub
      · exact absurd rfl hne
  · rw [publishes_append_publish]
    rw [ExtTreeMap.getElem?_insert_ite] at hkey
    split at hkey
    · rename_i hkey'
      cases hkey
      rw [hkey']
      exact ⟨.inr ⟨hnew.fullTrackName, rfl⟩, by rw [hnew.fullTrackName]⟩
    · obtain ⟨hpub, hhash⟩ := ht.named key h hkey
      exact ⟨.inl hpub, hhash⟩
  · rw [subscribes_append_publish]
    rw [ExtTreeMap.getElem?_insert_ite] at hkey
    split at hkey
    · cases hkey
      obtain ⟨hat, hsubscribed, hmatch⟩ := hnew.of_get₂? ht.toHandlersMade hget
      have hns : Subscribes arrivals handler.prefixNamespace handler.connectionId :=
        (ht.subscribed _ _).mp ⟨handler, hsubscribed⟩
      refine ⟨hat, hns, ?_⟩
      have hpub : Publishes (arrivals ++ [.publish tick conn full]) full conn :=
        (publishes_append_publish ..).mpr (.inr ⟨rfl, rfl⟩)
      rw [hnew.fullTrackName, hagree full conn _ handler.connectionId hpub
        ((subscribes_append_publish ..).mpr hns)]
      exact hmatch
    · exact ht.held key h hash conn' handler hkey hget

theorem matchesTrack_iff {conn : ConnectionHandle} {nsPrefix : TrackNamespace}
    {key : UInt64 × ConnectionHandle} {h : SubscribeTrackHandler} :
    m.matchesTrack q conn nsPrefix key h = true ↔ (m.allowSelf = true ∨ key.2 ≠ conn) ∧
      q.isPrefixOf nsPrefix h.fullTrackName.nameSpace = true := by
  rw [matchesTrack, Bool.and_eq_true, Bool.or_eq_true, decide_eq_true_eq]

theorem HandlersMade.joinedHandler (h : HandlersMade q m) (conn : ConnectionHandle)
    (nsPrefix : TrackNamespace) : (m.joinedHandler conn nsPrefix).prefixNamespace = nsPrefix ∧
      (m.joinedHandler conn nsPrefix).connectionId = conn := by
  rw [ClientManager.joinedHandler]
  cases hold : m.subscribesNamespaces.get₂? nsPrefix conn with
  | none => exact ⟨rfl, rfl⟩
  | some handler =>
    obtain ⟨hnsPrefix, hconn, -⟩ := h.made _ _ _ hold
    exact ⟨hnsPrefix, hconn⟩

/-- What a subscription makes of the handler of a track. -/
structure Joined (q : Quicr) (m : ClientManager) (conn : ConnectionHandle)
    (nsPrefix : TrackNamespace) (filter : Option TrackFilter) (key : UInt64 × ConnectionHandle)
    (old h : SubscribeTrackHandler) : Prop where
  fullTrackName : h.fullTrackName = old.fullTrackName
  other : m.matchesTrack q conn nsPrefix key old = false → h = old
  get₂? : m.matchesTrack q conn nsPrefix key old = true → ∀ hash conn',
    h.subNamespaces.get₂? hash conn' =
      if hash = (q.trackHash ⟨nsPrefix, []⟩).trackFullnameHash ∧ conn' = conn then
        some ((old.subNamespaces.get₂? hash conn').getD (m.joinedHandler conn nsPrefix))
      else old.subNamespaces.get₂? hash conn'
  trackRanking : m.matchesTrack q conn nsPrefix key old = true → h.trackRanking =
    some ⟨(q.trackHash ⟨nsPrefix, []⟩).trackNamespaceHash,
      (m.joinedRanking q conn nsPrefix filter).id⟩
  resumed : m.matchesTrack q conn nsPrefix key old = true →
    old.paused = false ∨ old.subNamespaces.get₂?
      (q.trackHash ⟨nsPrefix, []⟩).trackFullnameHash conn = none → h.paused = false

/-- A handler of the track is one that was there, or the one of the connection. -/
theorem Joined.mem {conn : ConnectionHandle} {nsPrefix : TrackNamespace}
    {filter : Option TrackFilter} {key : UInt64 × ConnectionHandle}
    {old h : SubscribeTrackHandler} (hj : Joined q m conn nsPrefix filter key old h)
    {hash : UInt64} {conn' : ConnectionHandle} {handler : HandlerRef}
    (hget : h.subNamespaces.get₂? hash conn' = some handler) :
    old.subNamespaces.get₂? hash conn' = some handler ∨
      handler = m.joinedHandler conn nsPrefix ∧
        (hash = (q.trackHash ⟨nsPrefix, []⟩).trackFullnameHash ∧ conn' = conn) ∧
        m.matchesTrack q conn nsPrefix key old = true := by
  cases hmatch : m.matchesTrack q conn nsPrefix key old with
  | false =>
    rw [hj.other hmatch] at hget
    exact .inl hget
  | true =>
    rw [hj.get₂? hmatch] at hget
    split at hget
    · rename_i hat
      cases hold : old.subNamespaces.get₂? hash conn' with
      | none =>
        rw [hold, Option.getD_none, Option.some.injEq] at hget
        exact .inr ⟨hget.symm, hat, rfl⟩
      | some handler' =>
        rw [hold, Option.getD_some] at hget
        exact .inl hget
    · exact .inl hget

/-- The handler of a track after the subscription. -/
def joinTrack (q : Quicr) (m : ClientManager) (conn : ConnectionHandle) (nsPrefix : TrackNamespace)
    (filter : Option TrackFilter) (prop : PropertyType) (key : UInt64 × ConnectionHandle)
    (h : SubscribeTrackHandler) : SubscribeTrackHandler :=
  if m.matchesTrack q conn nsPrefix key h then
    { h.addSubscribeNamespace q (m.joinedHandler conn nsPrefix) prop with
      trackRanking := some ⟨(q.trackHash ⟨nsPrefix, []⟩).trackNamespaceHash,
        (m.joinedRanking q conn nsPrefix filter).id⟩ }
  else h

theorem joined_joinTrack (hmade : HandlersMade q m) (conn : ConnectionHandle)
    (nsPrefix : TrackNamespace) (filter : Option TrackFilter) (prop : PropertyType)
    (key : UInt64 × ConnectionHandle) (old : SubscribeTrackHandler) :
    Joined q m conn nsPrefix filter key old (m.joinTrack q conn nsPrefix filter prop key old) := by
  obtain ⟨hown, hconn⟩ := hmade.joinedHandler conn nsPrefix
  have hsame := old.sameTrack_addSubscribeNamespace q (m.joinedHandler conn nsPrefix) prop
  rw [joinTrack]
  split
  · rename_i hmatch
    refine ⟨hsame.fullTrackName, fun hno => ?_, fun _ hash conn' => ?_, fun _ => rfl,
      fun _ hpaused => ?_⟩
    · rw [hmatch] at hno
      cases hno
    · rw [SubscribeTrackHandler.get₂?_addSubscribeNamespace, hown, hconn]
    · obtain hresumed | hnone := hpaused
      · exact hsame.resumed hresumed
      · show (old.addSubscribeNamespace q _ prop).paused = false
        simp only [SubscribeTrackHandler.addSubscribeNamespace, hown, hconn, hnone]
        rfl
  · rename_i hmatch
    exact ⟨rfl, fun _ => rfl, fun h => absurd h hmatch, fun h => absurd h hmatch,
      fun h => absurd h hmatch⟩

/-- What a subscription makes of the tables. -/
structure NewSubscription (q : Quicr) (m : ClientManager) (conn : ConnectionHandle)
    (nsPrefix : TrackNamespace) (filter : Option TrackFilter) (m' : ClientManager) : Prop where
  config : m'.allowSelf = m.allowSelf ∧ m'.peerSubscribers = m.peerSubscribers ∧
    m'.subscribes = m.subscribes
  subscribesNamespaces : ∀ nsPrefix' conn', m'.subscribesNamespaces.get₂? nsPrefix' conn' =
    if nsPrefix' = nsPrefix ∧ conn' = conn then some (m.joinedHandler conn nsPrefix)
    else m.subscribesNamespaces.get₂? nsPrefix' conn'
  trackRankings : ∀ nsHash : UInt64, m'.trackRankings[nsHash]? =
    if nsHash = (q.trackHash ⟨nsPrefix, []⟩).trackNamespaceHash then
      some (m.joinedRanking q conn nsPrefix filter)
    else m.trackRankings[nsHash]?
  tracks : ∃ track : UInt64 × ConnectionHandle → SubscribeTrackHandler → SubscribeTrackHandler,
    (∀ key : UInt64 × ConnectionHandle,
      m'.pubSubscribes[key]? = m.pubSubscribes[key]?.map (track key)) ∧
    ∀ key old, Joined q m conn nsPrefix filter key old (track key old)

theorem newSubscription (hmade : HandlersMade q m) (tick : UInt64) (conn : ConnectionHandle)
    (nsPrefix : TrackNamespace) (filter : Option TrackFilter) :
    NewSubscription q m conn nsPrefix filter
      (m.subscribeNamespaceReceived q published tick conn nsPrefix filter) := by
  obtain ⟨prop, rankings, heq⟩ :=
    subscribeNamespaceReceived_eq q published m tick conn nsPrefix filter
  rw [heq]
  exact ⟨⟨rfl, rfl, rfl⟩, fun nsPrefix' conn' => get₂?_joined m conn conn' nsPrefix nsPrefix',
    fun nsHash => ExtTreeMap.getElem?_insert_ite .., m.joinTrack q conn nsPrefix filter prop,
    fun key => ExtTreeMap.getElem?_map, joined_joinTrack hmade conn nsPrefix filter prop⟩

theorem Tables.subscribeNamespaceReceived
    (ht : Tables q allowSelf peerSubscribers subscribes arrivals m) (tick : UInt64)
    (conn : ConnectionHandle) (nsPrefix : TrackNamespace) (filter : Option TrackFilter) :
    Tables q allowSelf peerSubscribers subscribes
      (arrivals ++ [.subscribeNamespace tick conn nsPrefix filter])
      (m.subscribeNamespaceReceived q published tick conn nsPrefix filter) := by
  have hmade : HandlersMade q
      (m.subscribeNamespaceReceived q published tick conn nsPrefix filter) :=
    ht.toHandlersMade.subscribeNamespaceReceived tick conn nsPrefix filter
  obtain ⟨hown, hconn⟩ := ht.toHandlersMade.joinedHandler conn nsPrefix
  obtain ⟨hconfig, htable, hrankings, track, htracks, hjoined⟩ :
      NewSubscription q m conn nsPrefix filter
        (m.subscribeNamespaceReceived q published tick conn nsPrefix filter) :=
    newSubscription ht.toHandlersMade tick conn nsPrefix filter
  refine ⟨hmade, ?_, fun conn' nsPrefix' => ?_, fun nsHash => ?_, fun full conn' hpub => ?_,
    fun key h hkey => ?_, fun key h hash conn' handler hkey hget => ?_⟩
  · rw [hconfig.1, hconfig.2.1, hconfig.2.2]
    exact ht.config
  · rw [subscribes_append_subscribeNamespace, ← ht.subscribed, Subscribed, Subscribed, htable]
    split
    · rename_i hkey
      exact iff_of_true ⟨_, rfl⟩ (.inr hkey)
    · rename_i hkey
      rw [or_iff_left hkey]
  · rw [hrankings]
    split
    · rename_i hhash
      exact iff_of_true ⟨_, rfl⟩ ⟨nsPrefix, conn,
        (subscribes_append_subscribeNamespace ..).mpr (.inr ⟨rfl, rfl⟩), hhash.symm⟩
    · rename_i hhash
      rw [ht.ranked]
      constructor
      · rintro ⟨nsPrefix', conn', hns, hsame⟩
        exact ⟨nsPrefix', conn', (subscribes_append_subscribeNamespace ..).mpr (.inl hns), hsame⟩
      · rintro ⟨nsPrefix', conn', hns, hsame⟩
        obtain hns | ⟨rfl, rfl⟩ := (subscribes_append_subscribeNamespace ..).mp hns
        · exact ⟨nsPrefix', conn', hns, hsame⟩
        · exact absurd hsame.symm hhash
  · rw [publishes_append_subscribeNamespace] at hpub
    obtain ⟨h, hstored⟩ := ht.stored full conn' hpub
    exact ⟨_, by rw [htracks, hstored]; rfl⟩
  · rw [htracks, Option.map_eq_some_iff] at hkey
    obtain ⟨old, hold, rfl⟩ := hkey
    rw [publishes_append_subscribeNamespace, (hjoined key old).fullTrackName]
    exact ht.named key old hold
  · rw [htracks, Option.map_eq_some_iff] at hkey
    obtain ⟨old, hold, rfl⟩ := hkey
    rw [subscribes_append_subscribeNamespace, (hjoined key old).fullTrackName]
    obtain hheld | ⟨rfl, hat, hmatch⟩ := (hjoined key old).mem hget
    · obtain ⟨hat, hns, hmatch⟩ := ht.held key old hash conn' handler hold hheld
      exact ⟨hat, .inl hns, hmatch⟩
    · rw [hown, hconn]
      exact ⟨hat, .inr ⟨rfl, rfl⟩, (matchesTrack_iff.mp hmatch).2⟩

theorem tables_arriveAll (hstart : Tables q allowSelf peerSubscribers subscribes [] m)
    (hagree : PrefixTestsAgree q arrivals) :
    Tables q allowSelf peerSubscribers subscribes arrivals (m.arriveAll q published arrivals) := by
  induction arrivals using List.reverseRecOn with
  | nil => exact hstart
  | append_singleton arrivals a ih =>
    rw [arriveAll, List.foldl_append]
    have ht := ih (hagree.mono (List.subset_append_left _ _))
    cases a with
    | publish tick conn full => exact ht.publishReceived tick conn full hagree
    | subscribeNamespace tick conn nsPrefix filter =>
      exact ht.subscribeNamespaceReceived tick conn nsPrefix filter

/-! ### What arrivals that are wired once end with -/

/-- The handler of a track has what the arrivals give it. -/
structure TrackArrived (q : Quicr) (peerSubscribers : ExtTreeSet UInt64)
    (subscribes : ExtTreeSet (UInt64 × ConnectionHandle)) (events arrivals : List Arrival)
    (m : ClientManager) (key : UInt64 × ConnectionHandle) (h : SubscribeTrackHandler) : Prop where
  has : ∀ nsPrefix conn, Subscribes arrivals nsPrefix conn →
    q.isPrefixOf nsPrefix h.fullTrackName.nameSpace = true →
    ∃ handler, h.Has handler ∧ handler.prefixNamespace = nsPrefix ∧ handler.connectionId = conn
  ranking : ∀ nsPrefix conn, Subscribes arrivals nsPrefix conn →
    q.isPrefixOf nsPrefix h.fullTrackName.nameSpace = true →
    ∃ rk, m.trackRankings[(q.trackHash ⟨nsPrefix, []⟩).trackNamespaceHash]? = some rk ∧
      h.trackRanking = some ⟨(q.trackHash ⟨nsPrefix, []⟩).trackNamespaceHash, rk.id⟩
  unranked : (∀ nsPrefix conn, Subscribes events nsPrefix conn →
    q.isPrefixOf nsPrefix h.fullTrackName.nameSpace = false) → h.trackRanking = none
  paused : h.paused = false ↔ peerSubscribers.contains key.1 = true ∨
    (∃ conn, subscribes.contains (key.1, conn) = true) ∨
    ∃ nsPrefix conn, Subscribes arrivals nsPrefix conn ∧
      q.isPrefixOf nsPrefix h.fullTrackName.nameSpace = true

/-- The rows that match a track are of prefixes that are subscribed. -/
theorem Tables.of_matchingRow (ht : Tables q allowSelf peerSubscribers subscribes arrivals m)
    {nameSpace : TrackNamespace}
    {row : TrackNamespace × ExtTreeMap ConnectionHandle HandlerRef compare}
    (hrow : row ∈ m.matchingRows q nameSpace) :
    q.hasSamePrefix row.1 nameSpace = true ∧ ∃ conn, Subscribes arrivals row.1 conn := by
  obtain ⟨hstored, hmatch, hne⟩ := mem_matchingRows.mp hrow
  obtain ⟨conn, handler, hentry⟩ := ExtTreeMap.isEmpty_eq_false_iff_getElem?.mp hne
  exact ⟨hmatch, conn, (ht.subscribed conn row.1).mp
    ⟨handler, ExtTreeMap.get₂?_eq_some.mpr ⟨row.2, hstored, hentry⟩⟩⟩

theorem Tables.matchingRows_ne_nil_iff
    (ht : Tables q allowSelf peerSubscribers subscribes arrivals m) {nameSpace : TrackNamespace}
    (hsame : ∀ nsPrefix conn, Subscribes arrivals nsPrefix conn →
      q.isPrefixOf nsPrefix nameSpace = q.hasSamePrefix nsPrefix nameSpace) :
    m.matchingRows q nameSpace ≠ [] ↔ ∃ nsPrefix conn,
      Subscribes arrivals nsPrefix conn ∧ q.isPrefixOf nsPrefix nameSpace = true := by
  constructor
  · intro hne
    obtain ⟨row, hrow⟩ := List.exists_mem_of_ne_nil _ hne
    obtain ⟨hmatch, conn, hns⟩ := ht.of_matchingRow hrow
    exact ⟨row.1, conn, hns, (hsame _ _ hns).trans hmatch⟩
  · rintro ⟨nsPrefix, conn, hns, hmatch⟩
    obtain ⟨handler, hget⟩ := (ht.subscribed conn nsPrefix).mpr hns
    obtain ⟨row, hrow, -⟩ := exists_matchingRow hget ((hsame _ _ hns).symm.trans hmatch)
    exact List.ne_nil_of_mem hrow

/-- A new track has a handler in the place of each that matches. -/
theorem NewTrack.exists_get₂? {full : FullTrackName} {new : SubscribeTrackHandler}
    (hnew : m.NewTrack q full new) (hmade : HandlersMade q m) {nsPrefix : TrackNamespace}
    {conn : ConnectionHandle} (hsubscribed : m.Subscribed conn nsPrefix)
    (hmatch : q.hasSamePrefix nsPrefix full.nameSpace = true) :
    ∃ found, new.subNamespaces.get₂? (q.trackHash ⟨nsPrefix, []⟩).trackFullnameHash conn =
      some found := by
  obtain ⟨handler, hget⟩ := hsubscribed
  obtain ⟨rfl, rfl, -⟩ := hmade.made _ _ _ hget
  rw [hnew.subNamespaces, ← Option.isSome_iff_exists, List.find?_isSome]
  exact ⟨handler, mem_matchingHandlers.mpr ⟨_, _, hget, hmatch⟩, decide_eq_true ⟨rfl, rfl⟩⟩

theorem NewTrack.trackArrived {events : List Arrival} {full : FullTrackName}
    {conn : ConnectionHandle} {new : SubscribeTrackHandler} (hnew : m.NewTrack q full new)
    (ht : Tables q allowSelf peerSubscribers subscribes arrivals m)
    (hwired : WiredOnce q allowSelf events) (hagree : PrefixTestsAgree q events)
    (hsub : arrivals ⊆ events) (hpub : Publishes events full conn) :
    TrackArrived q peerSubscribers subscribes events arrivals m
      ((q.trackHash full).trackFullnameHash, conn) new := by
  obtain ⟨-, hpeer, hsubscribes⟩ := ht.config
  have hsame : ∀ nsPrefix conn', Subscribes arrivals nsPrefix conn' →
      q.isPrefixOf nsPrefix full.nameSpace = q.hasSamePrefix nsPrefix full.nameSpace :=
    fun nsPrefix conn' hns => hagree full conn nsPrefix conn' hpub (hns.mono hsub)
  have hrows := ht.matchingRows_ne_nil_iff hsame
  refine ⟨fun nsPrefix conn' hns hmatch => ?_, fun nsPrefix conn' hns hmatch => ?_,
    fun hnone => ?_, ?_⟩
  · rw [hnew.fullTrackName] at hmatch
    obtain ⟨found, hfound⟩ := hnew.exists_get₂? ht.toHandlersMade
      ((ht.subscribed conn' nsPrefix).mpr hns) ((hsame _ _ hns).symm.trans hmatch)
    -- another handler under the key would be of the same prefix
    obtain ⟨⟨hhash, hconn⟩, hfoundGet, hfoundMatch⟩ := hnew.of_get₂? ht.toHandlersMade hfound
    have hfoundNs : Subscribes arrivals found.prefixNamespace conn' :=
      (ht.subscribed _ _).mp ⟨found, hconn ▸ hfoundGet⟩
    exact ⟨found, ⟨_, _, hfound⟩, (hwired.oneHandler full conn _ _ _ hpub (hns.mono hsub) hmatch
      (hfoundNs.mono hsub) ((hsame _ _ hfoundNs).trans hfoundMatch) hhash).symm, hconn.symm⟩
  · rw [hnew.fullTrackName] at hmatch
    obtain ⟨row, hrow, hfirst⟩ := exists_firstPrefix (hrows.mpr ⟨nsPrefix, conn', hns, hmatch⟩)
    obtain ⟨hrowMatch, conn'', hrowNs⟩ := ht.of_matchingRow hrow
    have hhash : (q.trackHash ⟨nsPrefix, []⟩).trackNamespaceHash = (q.trackHash
        ⟨firstPrefix (m.matchingRows q full.nameSpace), []⟩).trackNamespaceHash := by
      rw [← hfirst]
      exact hwired.oneRanking full conn _ _ _ _ hpub (hns.mono hsub) hmatch (hrowNs.mono hsub)
        ((hsame _ _ hrowNs).trans hrowMatch)
    obtain ⟨rk, hrk⟩ := (ht.ranked _).mpr ⟨nsPrefix, conn', hns, rfl⟩
    refine ⟨rk, hrk, ?_⟩
    rw [hnew.trackRanking _ hhash, hrk]
    rfl
  · rw [hnew.fullTrackName] at hnone
    have hempty : m.matchingRows q full.nameSpace = [] := by
      by_contra hne
      obtain ⟨nsPrefix, conn', hns, hmatch⟩ := hrows.mp hne
      rw [hnone nsPrefix conn' (hns.mono hsub)] at hmatch
      cases hmatch
    rw [hnew.trackRanking _ rfl, hempty, Option.map_eq_none_iff, Option.eq_none_iff_forall_not_mem]
    intro rk hrk
    obtain ⟨nsPrefix, conn', hns, hhash⟩ := (ht.ranked _).mp ⟨rk, hrk⟩
    exact hwired.unranked full conn hpub hnone nsPrefix conn' (hns.mono hsub) hhash
  · rw [hnew.paused, hrows, hpeer, hsubscribes, hnew.fullTrackName]

/-- A track that is matched has the handler of the connection, unless one of another prefix is in
its place. -/
theorem Joined.has {conn : ConnectionHandle} {nsPrefix : TrackNamespace}
    {filter : Option TrackFilter} {key : UInt64 × ConnectionHandle}
    {old h : SubscribeTrackHandler} (hj : Joined q m conn nsPrefix filter key old h)
    (ht : Tables q allowSelf peerSubscribers subscribes arrivals m)
    (hold : m.pubSubscribes[key]? = some old)
    (hmatch : m.matchesTrack q conn nsPrefix key old = true)
    (hone : ∀ nsPrefix', Subscribes arrivals nsPrefix' conn →
      q.isPrefixOf nsPrefix' old.fullTrackName.nameSpace = true →
      (q.trackHash ⟨nsPrefix, []⟩).trackFullnameHash =
        (q.trackHash ⟨nsPrefix', []⟩).trackFullnameHash → nsPrefix = nsPrefix') :
    ∃ handler, h.Has handler ∧ handler.prefixNamespace = nsPrefix ∧
      handler.connectionId = conn := by
  have hget := hj.get₂? hmatch (q.trackHash ⟨nsPrefix, []⟩).trackFullnameHash conn
  rw [if_pos ⟨rfl, rfl⟩] at hget
  cases hhas : old.subNamespaces.get₂? (q.trackHash ⟨nsPrefix, []⟩).trackFullnameHash conn with
  | none =>
    rw [hhas, Option.getD_none] at hget
    exact ⟨_, ⟨_, _, hget⟩, ht.toHandlersMade.joinedHandler conn nsPrefix⟩
  | some handler =>
    rw [hhas, Option.getD_some] at hget
    obtain ⟨⟨hhash, rfl⟩, hheld, hheldMatch⟩ := ht.held key old _ _ handler hold hhas
    exact ⟨handler, ⟨_, _, hget⟩, (hone _ hheld hheldMatch hhash).symm, rfl⟩

theorem TrackArrived.joined {events : List Arrival} {tick : UInt64} {conn : ConnectionHandle}
    {nsPrefix : TrackNamespace} {filter : Option TrackFilter} {m' : ClientManager}
    {key : UInt64 × ConnectionHandle} {old h : SubscribeTrackHandler}
    (ha : TrackArrived q peerSubscribers subscribes events arrivals m key old)
    (hold : m.pubSubscribes[key]? = some old)
    (ht : Tables q allowSelf peerSubscribers subscribes arrivals m)
    (hwired : WiredOnce q allowSelf events)
    (hsub : arrivals ++ [.subscribeNamespace tick conn nsPrefix filter] ⊆ events)
    (hpub : Publishes events old.fullTrackName key.2)
    (hnew : NewSubscription q m conn nsPrefix filter m')
    (hj : Joined q m conn nsPrefix filter key old h) :
    TrackArrived q peerSubscribers subscribes events
      (arrivals ++ [.subscribeNamespace tick conn nsPrefix filter]) m' key h := by
  have hbefore : arrivals ⊆ events := List.Subset.trans (List.subset_append_left _ _) hsub
  have hns : Subscribes events nsPrefix conn := ((subscribes_append_subscribeNamespace ..).mpr
    (.inr ⟨rfl, rfl⟩)).mono hsub
  cases hmatch : q.isPrefixOf nsPrefix old.fullTrackName.nameSpace with
  | false =>
    -- the track stays as it is
    obtain rfl := hj.other (by rw [matchesTrack, hmatch, Bool.and_false])
    have honly : ∀ nsPrefix' conn', q.isPrefixOf nsPrefix' h.fullTrackName.nameSpace = true →
        (Subscribes (arrivals ++ [.subscribeNamespace tick conn nsPrefix filter]) nsPrefix' conn' ↔
          Subscribes arrivals nsPrefix' conn') := by
      intro nsPrefix' conn' hmatch'
      rw [subscribes_append_subscribeNamespace, or_iff_left]
      rintro ⟨rfl, -⟩
      rw [hmatch] at hmatch'
      cases hmatch'
    refine ⟨fun nsPrefix' conn' hns' hmatch' => ?_, fun nsPrefix' conn' hns' hmatch' => ?_,
      ha.unranked, ?_⟩
    · exact ha.has nsPrefix' conn' ((honly _ _ hmatch').mp hns') hmatch'
    · obtain ⟨rk, hrk, hranking⟩ := ha.ranking nsPrefix' conn' ((honly _ _ hmatch').mp hns') hmatch'
      rw [hnew.trackRankings]
      split
      · rename_i hhash
        rw [hhash] at hrk
        exact ⟨_, rfl, by rw [hranking, id_joinedRanking hrk]⟩
      · exact ⟨rk, hrk, hranking⟩
    · rw [ha.paused]
      refine or_congr_right (or_congr_right ⟨?_, ?_⟩)
      · rintro ⟨nsPrefix', conn', hns', hmatch'⟩
        exact ⟨nsPrefix', conn', (honly _ _ hmatch').mpr hns', hmatch'⟩
      · rintro ⟨nsPrefix', conn', hns', hmatch'⟩
        exact ⟨nsPrefix', conn', (honly _ _ hmatch').mp hns', hmatch'⟩
  | true =>
    have hmatches : m.matchesTrack q conn nsPrefix key old = true := by
      rw [matchesTrack_iff, ht.config.1]
      exact ⟨hwired.notOwn _ _ _ _ hpub hns hmatch, hmatch⟩
    refine ⟨fun nsPrefix' conn' hns' hmatch' => ?_, fun nsPrefix' conn' hns' hmatch' => ?_,
      fun hnone => ?_, iff_of_true ?_ ?_⟩
    · rw [hj.fullTrackName] at hmatch'
      obtain hns' | ⟨rfl, rfl⟩ := (subscribes_append_subscribeNamespace ..).mp hns'
      · obtain ⟨handler, ⟨hash, c, hhas⟩, hhandler⟩ := ha.has nsPrefix' conn' hns' hmatch'
        refine ⟨handler, ⟨hash, c, ?_⟩, hhandler⟩
        rw [hj.get₂? hmatches, hhas]
        split <;> rfl
      · exact hj.has ht hold hmatches fun nsPrefix hheld hheldMatch =>
          hwired.oneHandler _ _ _ _ _ hpub hns hmatch (hheld.mono hbefore) hheldMatch
    · rw [hj.fullTrackName] at hmatch'
      have hhash := hwired.oneRanking _ _ _ _ _ _ hpub (hns'.mono hsub) hmatch' hns hmatch
      refine ⟨m.joinedRanking q conn nsPrefix filter, ?_, ?_⟩
      · rw [hnew.trackRankings, if_pos hhash]
      · rw [hj.trackRanking hmatches, hhash]
    · rw [hj.fullTrackName] at hnone
      rw [hnone nsPrefix conn hns] at hmatch
      cases hmatch
    · refine hj.resumed hmatches ?_
      cases hhas : old.subNamespaces.get₂?
          (q.trackHash ⟨nsPrefix, []⟩).trackFullnameHash conn with
      | none => exact .inr rfl
      | some handler =>
        obtain ⟨-, hheld, hheldMatch⟩ := ht.held key old _ _ handler hold hhas
        exact .inl (ha.paused.mpr (.inr (.inr ⟨_, _, hheld, hheldMatch⟩)))
    · rw [hj.fullTrackName]
      exact .inr (.inr ⟨nsPrefix, conn,
        (subscribes_append_subscribeNamespace ..).mpr (.inr ⟨rfl, rfl⟩), hmatch⟩)

/-! ### The tracks of the subscribers -/

/-- The object of a subscribed handler decides what is published to it. -/
theorem publishedTo_iff {nsPrefix : TrackNamespace} {conn : ConnectionHandle}
    {handler : HandlerRef} {object : PublishNamespaceHandler}
    (hget : m.subscribesNamespaces.get₂? nsPrefix conn = some handler)
    (hlive : m.live[handler.id]? = some object) (ta : TrackAlias) :
    m.PublishedTo nsPrefix conn ta ↔ object.publishedTracks.contains ta = true := by
  constructor
  · rintro ⟨handler', object', hget', hlive', hcontains⟩
    obtain rfl := Option.some.inj (hget.symm.trans hget')
    obtain rfl := Option.some.inj (hlive.symm.trans hlive')
    exact hcontains
  · exact fun hcontains => ⟨handler, object, hget, hlive, hcontains⟩

theorem not_publishedTo {nsPrefix : TrackNamespace} {conn : ConnectionHandle}
    (h : ¬m.Subscribed conn nsPrefix) (ta : TrackAlias) : ¬m.PublishedTo nsPrefix conn ta := by
  rintro ⟨handler, object, hget, -⟩
  exact h ⟨handler, hget⟩

theorem publishedTo_publishReceived (hmade : HandlersMade q m) (tick : UInt64)
    (conn : ConnectionHandle) (full : FullTrackName) (nsPrefix : TrackNamespace)
    (conn' : ConnectionHandle) (ta : TrackAlias) :
    (m.publishReceived q published tick conn full).PublishedTo nsPrefix conn' ta ↔
      m.PublishedTo nsPrefix conn' ta ∨ m.Subscribed conn' nsPrefix ∧
        (q.trackHash full).trackFullnameHash = ta ∧
          q.isPrefixOf nsPrefix full.nameSpace = true ∧ (m.allowSelf = true ∨ conn ≠ conn') := by
  obtain ⟨new, -, heq⟩ := publishReceived_eq q published m tick conn full
  have htable : (m.publishReceived q published tick conn full).subscribesNamespaces =
      m.subscribesNamespaces := by rw [heq]
  have hlives : (m.publishReceived q published tick conn full).live =
      (m.publishAll published tick ((m.publishTargets q conn full.nameSpace).map
        ((q.trackHash full).trackFullnameHash, ·))).live := by rw [heq]
  by_cases hsubscribed : m.Subscribed conn' nsPrefix
  · obtain ⟨handler, hget⟩ := hsubscribed
    obtain ⟨object, hlive, -⟩ := hmade.object _ _ _ hget
    obtain ⟨object', hlive', -, -, hcontains⟩ : ∃ object',
        (m.publishAll published tick ((m.publishTargets q conn full.nameSpace).map
          ((q.trackHash full).trackFullnameHash, ·))).live[handler.id]? = some object' ∧ _ :=
      live_publishAll _ hlive
    rw [publishedTo_iff hget hlive, publishedTo_iff (htable ▸ hget) (hlives ▸ hlive'), hcontains]
    refine or_congr_right ⟨?_, ?_⟩
    · rintro ⟨handler', hmem, hid⟩
      obtain ⟨handler', htarget, hpair⟩ := List.mem_map.mp hmem
      cases hpair
      obtain ⟨⟨nsPrefix', conn'', hget', hmatch⟩, hself⟩ := mem_publishTargets.mp htarget
      obtain rfl := hmade.distinct _ _ _ _ _ _ hget' hget hid
      obtain ⟨rfl, rfl, -⟩ := hmade.made _ _ _ hget
      obtain ⟨rfl, -⟩ := hmade.made _ _ _ hget'
      exact ⟨⟨_, hget⟩, rfl, hmatch, hself.imp_right Ne.symm⟩
    · rintro ⟨-, rfl, hmatch, hself⟩
      obtain ⟨-, hconn, -⟩ := hmade.made _ _ _ hget
      exact ⟨handler, List.mem_map.mpr ⟨handler, mem_publishTargets.mpr
        ⟨⟨nsPrefix, conn', hget, hmatch⟩, hself.imp_right fun h => hconn ▸ h.symm⟩, rfl⟩, rfl⟩
  · refine iff_of_false (not_publishedTo ?_ ta) ?_
    · rwa [Subscribed, htable]
    · rintro (h | ⟨h, -⟩)
      · exact not_publishedTo hsubscribed ta h
      · exact hsubscribed h

theorem mem_joinedTracks {conn : ConnectionHandle} {nsPrefix : TrackNamespace} {ta : TrackAlias}
    {handler : HandlerRef} : (ta, handler) ∈ m.joinedTracks q conn nsPrefix ↔
      handler = m.joinedHandler conn nsPrefix ∧
        ∃ (key : UInt64 × ConnectionHandle) (h : SubscribeTrackHandler),
          m.pubSubscribes[key]? = some h ∧ m.matchesTrack q conn nsPrefix key h = true ∧
            (q.trackHash h.fullTrackName).trackFullnameHash = ta := by
  simp only [joinedTracks, List.mem_map, List.mem_filter, Prod.mk.injEq, Prod.exists,
    ExtTreeMap.mem_toList_iff_getElem?_eq_some]
  constructor
  · rintro ⟨hash, conn', h, ⟨hstored, hmatch⟩, rfl, rfl⟩
    exact ⟨rfl, hash, conn', h, hstored, hmatch, rfl⟩
  · rintro ⟨rfl, hash, conn', h, hstored, hmatch, rfl⟩
    exact ⟨hash, conn', h, ⟨hstored, hmatch⟩, rfl, rfl⟩

theorem publishedTo_subscribeNamespaceReceived (hmade : HandlersMade q m) (tick : UInt64)
    (conn : ConnectionHandle) (nsPrefix : TrackNamespace) (filter : Option TrackFilter)
    (nsPrefix' : TrackNamespace) (conn' : ConnectionHandle) (ta : TrackAlias) :
    (m.subscribeNamespaceReceived q published tick conn nsPrefix filter).PublishedTo
        nsPrefix' conn' ta ↔
      m.PublishedTo nsPrefix' conn' ta ∨ (nsPrefix' = nsPrefix ∧ conn' = conn) ∧
        ∃ (key : UInt64 × ConnectionHandle) (h : SubscribeTrackHandler),
          m.pubSubscribes[key]? = some h ∧ m.matchesTrack q conn nsPrefix key h = true ∧
            (q.trackHash h.fullTrackName).trackFullnameHash = ta := by
  have hmade' : HandlersMade q
      (m.subscribeNamespaceReceived q published tick conn nsPrefix filter) :=
    hmade.subscribeNamespaceReceived tick conn nsPrefix filter
  have hnew : NewSubscription q m conn nsPrefix filter
      (m.subscribeNamespaceReceived q published tick conn nsPrefix filter) :=
    newSubscription hmade tick conn nsPrefix filter
  obtain ⟨hown, hconn⟩ := hmade.joinedHandler conn nsPrefix
  have hjoined : (m.subscribeNamespaceReceived q published tick conn nsPrefix
      filter).subscribesNamespaces.get₂? nsPrefix conn = some (m.joinedHandler conn nsPrefix) := by
    rw [hnew.subscribesNamespaces, if_pos ⟨rfl, rfl⟩]
  let base : ClientManager := { m with
    live := m.live.insert m.handlers
      (.create (q.trackHash ⟨nsPrefix, []⟩).trackNamespaceHash conn filter) }
  have hlives : (m.subscribeNamespaceReceived q published tick conn nsPrefix filter).live =
      (base.publishAll published tick (m.joinedTracks q conn nsPrefix)).live := by
    obtain ⟨prop, rankings, heq⟩ :=
      subscribeNamespaceReceived_eq q published m tick conn nsPrefix filter
    rw [heq]
  cases hget' : (m.subscribeNamespaceReceived q published tick conn nsPrefix
      filter).subscribesNamespaces.get₂? nsPrefix' conn' with
  | none =>
    have hno := hget'
    rw [hnew.subscribesNamespaces] at hno
    split at hno
    · cases hno
    · rename_i hother
      refine iff_of_false (not_publishedTo ?_ ta) ?_
      · rintro ⟨handler, hsome⟩
        rw [hget'] at hsome
        cases hsome
      · rintro (h | ⟨h, -⟩)
        · refine not_publishedTo ?_ ta h
          rintro ⟨handler, hsome⟩
          rw [hno] at hsome
          cases hsome
        · exact hother h
  | some handler =>
    -- the object is the one of before, or a new one without tracks
    obtain ⟨object, hlive, hobject⟩ : ∃ object, base.live[handler.id]? = some object ∧
        (object.publishedTracks.contains ta = true ↔ m.PublishedTo nsPrefix' conn' ta) := by
      have hmem := hget'
      rw [hnew.subscribesNamespaces, ← get₂?_joined] at hmem
      obtain hold | ⟨hnone, rfl, rfl, rfl⟩ := mem_joined hmem
      · obtain ⟨object, hlive, -⟩ := hmade.object _ _ _ hold
        refine ⟨object, ?_, (publishedTo_iff hold hlive ta).symm⟩
        show (m.live.insert _ _)[_]? = _
        rw [ExtTreeMap.getElem?_insert_ite, if_neg (hmade.made _ _ _ hold).2.2.ne, hlive]
      · refine ⟨_, ExtTreeMap.getElem?_insert_self, iff_of_false ?_ (not_publishedTo ?_ ta)⟩
        · rw [PublishNamespaceHandler.create_publishedTracks]
          simp
        · rintro ⟨handler, hsome⟩
          rw [hnone] at hsome
          cases hsome
    obtain ⟨object', hlive', -, -, hcontains⟩ : ∃ object',
        (base.publishAll published tick (m.joinedTracks q conn nsPrefix)).live[handler.id]? =
          some object' ∧ _ := live_publishAll (m.joinedTracks q conn nsPrefix) hlive
    rw [publishedTo_iff hget' (hlives ▸ hlive'), hcontains, hobject]
    simp only [mem_joinedTracks]
    refine or_congr_right ⟨?_, ?_⟩
    · rintro ⟨handler', ⟨rfl, htrack⟩, hid⟩
      obtain rfl := hmade'.distinct _ _ _ _ _ _ hjoined hget' hid
      obtain ⟨hown', hconn', -⟩ := hmade'.made _ _ _ hget'
      exact ⟨⟨hown'.symm.trans hown, hconn'.symm.trans hconn⟩, htrack⟩
    · rintro ⟨⟨rfl, rfl⟩, htrack⟩
      exact ⟨_, ⟨rfl, htrack⟩, congrArg _ (Option.some.inj (hjoined.symm.trans hget'))⟩

/-! ### The run -/

/-- The arrivals so far have given each track and each subscriber what is theirs. -/
structure Arrived (q : Quicr) (allowSelf : Bool) (peerSubscribers : ExtTreeSet UInt64)
    (subscribes : ExtTreeSet (UInt64 × ConnectionHandle)) (events arrivals : List Arrival)
    (m : ClientManager) : Prop
    extends Tables q allowSelf peerSubscribers subscribes arrivals m where
  tracks : ∀ (key : UInt64 × ConnectionHandle) (h : SubscribeTrackHandler),
    m.pubSubscribes[key]? = some h →
      TrackArrived q peerSubscribers subscribes events arrivals m key h
  publishedTo : ∀ nsPrefix conn ta, m.PublishedTo nsPrefix conn ta ↔
    Subscribes arrivals nsPrefix conn ∧ ∃ full conn', Publishes arrivals full conn' ∧
      (q.trackHash full).trackFullnameHash = ta ∧
        q.isPrefixOf nsPrefix full.nameSpace = true ∧ (allowSelf = true ∨ conn' ≠ conn)

variable {events : List Arrival}

theorem arrived_start : Arrived q allowSelf peerSubscribers subscribes events []
    (start allowSelf peerSubscribers subscribes) := by
  refine ⟨tables_start, fun key h hkey => ?_, fun nsPrefix conn ta => iff_of_false ?_ ?_⟩
  · simp [start] at hkey
  · rintro ⟨handler, object, hget, -⟩
    simp [start] at hget
  · rintro ⟨hns, -⟩
    exact not_subscribes_nil hns

theorem Arrived.publishReceived
    (ha : Arrived q allowSelf peerSubscribers subscribes events arrivals m)
    (hwired : WiredOnce q allowSelf events) (hagree : PrefixTestsAgree q events) (tick : UInt64)
    (conn : ConnectionHandle) (full : FullTrackName)
    (hsub : arrivals ++ [.publish tick conn full] ⊆ events) :
    Arrived q allowSelf peerSubscribers subscribes events (arrivals ++ [.publish tick conn full])
      (m.publishReceived q published tick conn full) := by
  refine ⟨ha.toTables.publishReceived tick conn full (hagree.mono hsub), fun key h hkey => ?_,
    fun nsPrefix conn' ta => ?_⟩
  · have hbefore : arrivals ⊆ events := List.Subset.trans (List.subset_append_left _ _) hsub
    have hpub : Publishes events full conn :=
      Publishes.mono ((publishes_append_publish ..).mpr (.inr ⟨rfl, rfl⟩)) hsub
    obtain ⟨new, hnew, heq⟩ := publishReceived_eq q published m tick conn full
    rw [heq] at hkey ⊢
    have harrived : TrackArrived q peerSubscribers subscribes events arrivals m key h := by
      rw [ExtTreeMap.getElem?_insert_ite] at hkey
      split at hkey
      · rename_i hkey'
        cases hkey
        rw [hkey']
        exact hnew.trackArrived ha.toTables hwired hagree hbefore hpub
      · exact ha.tracks key h hkey
    refine ⟨?_, ?_, harrived.unranked, ?_⟩
    · simpa only [subscribes_append_publish] using harrived.has
    · simpa only [subscribes_append_publish] using harrived.ranking
    · simpa only [subscribes_append_publish] using harrived.paused
  · rw [publishedTo_publishReceived ha.toHandlersMade, ha.publishedTo, ha.subscribed,
      subscribes_append_publish, ha.config.1, ← and_or_left]
    refine and_congr_right fun _ => ?_
    simp only [publishes_append_publish]
    constructor
    · rintro (⟨full', conn'', hpub, hhash, hmatch, hself⟩ | ⟨hhash, hmatch, hself⟩)
      · exact ⟨full', conn'', .inl hpub, hhash, hmatch, hself⟩
      · exact ⟨full, conn, .inr ⟨rfl, rfl⟩, hhash, hmatch, hself⟩
    · rintro ⟨full', conn'', hpub | ⟨rfl, rfl⟩, hhash, hmatch, hself⟩
      · exact .inl ⟨full', conn'', hpub, hhash, hmatch, hself⟩
      · exact .inr ⟨hhash, hmatch, hself⟩

theorem Arrived.subscribeNamespaceReceived
    (ha : Arrived q allowSelf peerSubscribers subscribes events arrivals m)
    (hwired : WiredOnce q allowSelf events) (tick : UInt64) (conn : ConnectionHandle)
    (nsPrefix : TrackNamespace) (filter : Option TrackFilter)
    (hsub : arrivals ++ [.subscribeNamespace tick conn nsPrefix filter] ⊆ events) :
    Arrived q allowSelf peerSubscribers subscribes events
      (arrivals ++ [.subscribeNamespace tick conn nsPrefix filter])
      (m.subscribeNamespaceReceived q published tick conn nsPrefix filter) := by
  have hbefore : arrivals ⊆ events := List.Subset.trans (List.subset_append_left _ _) hsub
  have hns : Subscribes events nsPrefix conn :=
    Subscribes.mono ((subscribes_append_subscribeNamespace ..).mpr (.inr ⟨rfl, rfl⟩)) hsub
  refine ⟨ha.toTables.subscribeNamespaceReceived tick conn nsPrefix filter, fun key h hkey => ?_,
    fun nsPrefix' conn' ta => ?_⟩
  · have hnew : NewSubscription q m conn nsPrefix filter
        (m.subscribeNamespaceReceived q published tick conn nsPrefix filter) :=
      newSubscription ha.toHandlersMade tick conn nsPrefix filter
    obtain ⟨track, htracks, hjoined⟩ := hnew.tracks
    rw [htracks, Option.map_eq_some_iff] at hkey
    obtain ⟨old, hold, rfl⟩ := hkey
    exact (ha.tracks key old hold).joined hold ha.toTables hwired hsub
      ((ha.named key old hold).1.mono hbefore) hnew (hjoined key old)
  · rw [publishedTo_subscribeNamespaceReceived ha.toHandlersMade, ha.publishedTo]
    simp only [subscribes_append_subscribeNamespace, publishes_append_subscribeNamespace]
    constructor
    · rintro (⟨hns', htrack⟩ | ⟨⟨rfl, rfl⟩, key, h, hstored, hmatch, hhash⟩)
      · exact ⟨.inl hns', htrack⟩
      · obtain ⟨hpub, -⟩ := ha.named key h hstored
        rw [matchesTrack_iff, ha.config.1] at hmatch
        exact ⟨.inr ⟨rfl, rfl⟩, h.fullTrackName, key.2, hpub, hhash, hmatch.2, hmatch.1⟩
    · rintro ⟨hns' | hnew, full, conn'', hpub, hhash, hmatch, hself⟩
      · exact .inl ⟨hns', full, conn'', hpub, hhash, hmatch, hself⟩
      · obtain ⟨rfl, rfl⟩ := hnew
        obtain ⟨h, hstored⟩ := ha.stored full conn'' hpub
        obtain ⟨hpub', hhash'⟩ := ha.named _ h hstored
        have hmatch' := hwired.oneTrack full h.fullTrackName conn'' (hpub.mono hbefore)
          (hpub'.mono hbefore) hhash'.symm _ _ hns hmatch
        refine .inr ⟨⟨rfl, rfl⟩, _, h, hstored, ?_, hhash'.trans hhash⟩
        rw [matchesTrack_iff, ha.config.1]
        exact ⟨hself, hmatch'⟩

theorem arrived_arriveAll (hwired : WiredOnce q allowSelf events)
    (hagree : PrefixTestsAgree q events) (hsub : arrivals ⊆ events) :
    Arrived q allowSelf peerSubscribers subscribes events arrivals
      ((start allowSelf peerSubscribers subscribes).arriveAll q published arrivals) := by
  induction arrivals using List.reverseRecOn with
  | nil => exact arrived_start
  | append_singleton arrivals a ih =>
    rw [arriveAll, List.foldl_append]
    have ha := ih (List.Subset.trans (List.subset_append_left _ _) hsub)
    cases a with
    | publish tick conn full => exact ha.publishReceived hwired hagree tick conn full hsub
    | subscribeNamespace tick conn nsPrefix filter =>
      exact ha.subscribeNamespaceReceived hwired tick conn nsPrefix filter hsub

/-- The track and the prefix are matched by the arrivals. -/
def Matched (q : Quicr) (arrivals : List Arrival) (key : UInt64 × ConnectionHandle)
    (nsPrefix : TrackNamespace) (conn : ConnectionHandle) : Prop :=
  Subscribes arrivals nsPrefix conn ∧ ∃ full, Publishes arrivals full key.2 ∧
    (q.trackHash full).trackFullnameHash = key.1 ∧ q.isPrefixOf nsPrefix full.nameSpace = true

/-- The handler under a key is of a track that the prefix matches. -/
theorem Arrived.matched_iff
    (ha : Arrived q allowSelf peerSubscribers subscribes events arrivals m)
    (hwired : WiredOnce q allowSelf events) (hsub : arrivals ⊆ events)
    {key : UInt64 × ConnectionHandle} {h : SubscribeTrackHandler}
    (hstored : m.pubSubscribes[key]? = some h) (nsPrefix : TrackNamespace)
    (conn : ConnectionHandle) :
    Matched q arrivals key nsPrefix conn ↔ Subscribes arrivals nsPrefix conn ∧
      q.isPrefixOf nsPrefix h.fullTrackName.nameSpace = true := by
  obtain ⟨hpub, hhash⟩ := ha.named key h hstored
  refine and_congr_right fun hns => ⟨?_, fun hmatch => ⟨_, hpub, hhash, hmatch⟩⟩
  rintro ⟨full, hpub', hhash', hmatch⟩
  exact hwired.oneTrack full h.fullTrackName key.2 (hpub'.mono hsub) (hpub.mono hsub)
    (hhash'.trans hhash.symm) nsPrefix conn (hns.mono hsub) hmatch

theorem Arrived.exists_stored
    (ha : Arrived q allowSelf peerSubscribers subscribes events arrivals m)
    {key : UInt64 × ConnectionHandle} {full : FullTrackName}
    (hpub : Publishes arrivals full key.2) (hhash : (q.trackHash full).trackFullnameHash = key.1) :
    ∃ h, m.pubSubscribes[key]? = some h := by
  obtain ⟨h, hstored⟩ := ha.stored full key.2 hpub
  rw [hhash] at hstored
  exact ⟨h, hstored⟩

theorem Arrived.pairs_iff
    (ha : Arrived q allowSelf peerSubscribers subscribes events arrivals m)
    (hwired : WiredOnce q allowSelf events) (hsub : arrivals ⊆ events)
    (key : UInt64 × ConnectionHandle) (nsPrefix : TrackNamespace) (conn : ConnectionHandle) :
    m.Pairs key nsPrefix conn ↔ Matched q arrivals key nsPrefix conn := by
  constructor
  · rintro ⟨h, handler, hstored, ⟨hash, conn', hget⟩, rfl, rfl⟩
    exact (ha.matched_iff hwired hsub hstored _ _).mpr (ha.held key h _ _ handler hstored hget).2
  · intro hmatched
    obtain ⟨full, hpub, hhash, -⟩ := hmatched.2
    obtain ⟨h, hstored⟩ := ha.exists_stored hpub hhash
    obtain ⟨hns, hmatch⟩ := (ha.matched_iff hwired hsub hstored _ _).mp hmatched
    obtain ⟨handler, hhas, hhandler⟩ := (ha.tracks key h hstored).has nsPrefix conn hns hmatch
    exact ⟨h, handler, hstored, hhas, hhandler⟩

theorem Arrived.rankedBy_iff
    (ha : Arrived q allowSelf peerSubscribers subscribes events arrivals m)
    (hwired : WiredOnce q allowSelf events) (hsub : arrivals ⊆ events) (hall : events ⊆ arrivals)
    (key : UInt64 × ConnectionHandle) (nsHash : UInt64) :
    m.RankedBy key nsHash ↔ ∃ nsPrefix conn, Matched q arrivals key nsPrefix conn ∧
      (q.trackHash ⟨nsPrefix, []⟩).trackNamespaceHash = nsHash := by
  constructor
  · rintro ⟨h, rk, hstored, hranking, -⟩
    have harrived := ha.tracks key h hstored
    by_cases hnone : ∀ nsPrefix conn, Subscribes events nsPrefix conn →
        q.isPrefixOf nsPrefix h.fullTrackName.nameSpace = false
    · rw [harrived.unranked hnone] at hranking
      cases hranking
    · simp only [not_forall, Bool.not_eq_false] at hnone
      obtain ⟨nsPrefix, conn, hns, hmatch⟩ := hnone
      obtain ⟨rk', -, hranking'⟩ := harrived.ranking nsPrefix conn (hns.mono hall) hmatch
      rw [hranking, Option.some.injEq, RankingRef.mk.injEq] at hranking'
      exact ⟨nsPrefix, conn,
        (ha.matched_iff hwired hsub hstored _ _).mpr ⟨hns.mono hall, hmatch⟩, hranking'.1.symm⟩
  · rintro ⟨nsPrefix, conn, hmatched, rfl⟩
    obtain ⟨full, hpub, hhash, -⟩ := hmatched.2
    obtain ⟨h, hstored⟩ := ha.exists_stored hpub hhash
    obtain ⟨hns, hmatch⟩ := (ha.matched_iff hwired hsub hstored _ _).mp hmatched
    obtain ⟨rk, hrk, hranking⟩ := (ha.tracks key h hstored).ranking nsPrefix conn hns hmatch
    exact ⟨h, rk, hstored, hranking, hrk⟩

theorem Arrived.paused_iff
    (ha : Arrived q allowSelf peerSubscribers subscribes events arrivals m)
    (hwired : WiredOnce q allowSelf events) (hsub : arrivals ⊆ events)
    (key : UInt64 × ConnectionHandle) :
    m.Paused key ↔ (∃ full, Publishes arrivals full key.2 ∧
        (q.trackHash full).trackFullnameHash = key.1) ∧
      ¬(peerSubscribers.contains key.1 = true ∨
        (∃ conn, subscribes.contains (key.1, conn) = true) ∨
        ∃ nsPrefix conn, Matched q arrivals key nsPrefix conn) := by
  have hresumed : ∀ h : SubscribeTrackHandler, m.pubSubscribes[key]? = some h →
      (h.paused = true ↔ ¬(peerSubscribers.contains key.1 = true ∨
        (∃ conn, subscribes.contains (key.1, conn) = true) ∨
        ∃ nsPrefix conn, Matched q arrivals key nsPrefix conn)) := by
    intro h hstored
    simp only [ha.matched_iff hwired hsub hstored, ← (ha.tracks key h hstored).paused,
      Bool.not_eq_false]
  constructor
  · rintro ⟨h, hstored, hpaused⟩
    obtain ⟨hpub, hhash⟩ := ha.named key h hstored
    exact ⟨⟨_, hpub, hhash⟩, (hresumed h hstored).mp hpaused⟩
  · rintro ⟨⟨full, hpub, hhash⟩, hnone⟩
    obtain ⟨h, hstored⟩ := ha.exists_stored hpub hhash
    exact ⟨h, hstored, (hresumed h hstored).mpr hnone⟩

end

end ClientManager

end Laps.Ranking
