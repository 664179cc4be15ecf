import Laps.Ranking.Arrival

/-! The order of publications and of subscriptions of namespaces, and when it makes a difference. -/

namespace Laps.Ranking

open Std Arrival

namespace ClientManager

structure SameWiring (m m' : ClientManager) : Prop where
  pairs : ∀ key nsPrefix conn, m.Pairs key nsPrefix conn ↔ m'.Pairs key nsPrefix conn
  publishedTo : ∀ nsPrefix conn trackAlias,
    m.PublishedTo nsPrefix conn trackAlias ↔ m'.PublishedTo nsPrefix conn trackAlias
  rankings : ∀ key nsHash, m.RankedBy key nsHash ↔ m'.RankedBy key nsHash
  paused : ∀ key, m.Paused key ↔ m'.Paused key

/-- Every order of the arrivals ends with the same wiring. -/
def OrderFree (q : Quicr) (published : TrackAlias → PublishStatus) (m : ClientManager)
    (arrivals : List Arrival) : Prop :=
  ∀ order order', order.Perm arrivals → order'.Perm arrivals →
    SameWiring (m.arriveAll q published order) (m.arriveAll q published order')

section

variable {q : Quicr} {published : TrackAlias → PublishStatus} {allowSelf : Bool}
  {peerSubscribers : ExtTreeSet UInt64} {subscribes : ExtTreeSet (UInt64 × ConnectionHandle)}
  {arrivals events : List Arrival} {m : ClientManager}

theorem orderFree_of_wiredOnce (hagree : PrefixTestsAgree q events)
    (hwired : WiredOnce q allowSelf events) :
    OrderFree q published (start allowSelf peerSubscribers subscribes) events := by
  have harrived : ∀ order : List Arrival, order.Perm events →
      Arrived q allowSelf peerSubscribers subscribes events order
        ((start allowSelf peerSubscribers subscribes).arriveAll q published order) :=
    fun order hperm => arrived_arriveAll hwired hagree hperm.subset
  have hmatched : ∀ order : List Arrival, order.Perm events →
      Matched q order = Matched q events := by
    intro order hperm
    funext key nsPrefix conn
    rw [Matched, Matched, publishes_perm hperm, subscribes_perm hperm]
  intro order order' hperm hperm'
  have ha := harrived order hperm
  have ha' := harrived order' hperm'
  refine ⟨fun key nsPrefix conn => ?_, fun nsPrefix conn ta => ?_, fun key nsHash => ?_,
    fun key => ?_⟩
  · rw [ha.pairs_iff hwired hperm.subset, ha'.pairs_iff hwired hperm'.subset,
      hmatched order hperm, hmatched order' hperm']
  · rw [ha.publishedTo, ha'.publishedTo, publishes_perm hperm, publishes_perm hperm',
      subscribes_perm hperm, subscribes_perm hperm']
  · rw [ha.rankedBy_iff hwired hperm.subset hperm.symm.subset,
      ha'.rankedBy_iff hwired hperm'.subset hperm'.symm.subset, hmatched order hperm,
      hmatched order' hperm']
  · rw [ha.paused_iff hwired hperm.subset, ha'.paused_iff hwired hperm'.subset,
      hmatched order hperm, hmatched order' hperm', publishes_perm hperm, publishes_perm hperm']

/-! ### Orders that end with another wiring -/

theorem exists_order_last {a : Arrival} (h : a ∈ events) :
    ∃ rest, (rest ++ [a]).Perm events :=
  ⟨events.erase a, (List.perm_append_singleton a _).trans (List.perm_cons_erase h).symm⟩

theorem exists_order_last₂ {a b : Arrival} (ha : a ∈ events) (hb : b ∈ events) (hne : a ≠ b) :
    ∃ rest, (rest ++ [a] ++ [b]).Perm events := by
  obtain ⟨rest, hrest⟩ := exists_order_last hb
  obtain ⟨rest', hrest'⟩ : ∃ rest', (rest' ++ [a]).Perm rest := by
    refine exists_order_last ?_
    have hmem := hrest.symm.subset ha
    rw [List.mem_append, List.mem_singleton] at hmem
    exact hmem.resolve_right hne
  exact ⟨rest', (hrest'.append_right [b]).trans hrest⟩

/-- The publications come first, and a given one of them last. -/
theorem exists_order_publish {a : Arrival} (h : a ∈ events) (ha : a.isPublish = true) :
    ∃ before after, (before ++ [a] ++ after).Perm events ∧
      (∀ b ∈ before ++ [a], b.isPublish = true) ∧ ∀ b ∈ after, b.isPublish = false := by
  obtain ⟨before, hbefore⟩ : ∃ before, (before ++ [a]).Perm (events.filter isPublish) :=
    exists_order_last (List.mem_filter.mpr ⟨h, ha⟩)
  refine ⟨before, events.filter fun b => !b.isPublish, ?_, fun b hb => ?_, fun b hb => ?_⟩
  · exact (hbefore.append_right _).trans (List.filter_append_perm isPublish events)
  · exact (List.mem_filter.mp (hbefore.subset hb)).2
  · rw [← Bool.not_eq_true']
    exact (List.mem_filter.mp hb).2

/-- And after it a given subscription. -/
theorem exists_order_publish_subscribe {a b : Arrival} (ha : a ∈ events) (hb : b ∈ events)
    (hpub : a.isPublish = true) (hsub : b.isPublish = false) :
    ∃ before after, (before ++ [a] ++ b :: after).Perm events ∧
      (∀ c ∈ before ++ [a], c.isPublish = true) ∧ ∀ c ∈ after, c.isPublish = false := by
  obtain ⟨before, after, horder, hbefore, hafter⟩ := exists_order_publish ha hpub
  have hin : b ∈ after := by
    obtain hin | hin := List.mem_append.mp (horder.symm.subset hb)
    · rw [hbefore b hin] at hsub
      cases hsub
    · exact hin
  exact ⟨before, after.erase b, ((List.perm_cons_erase hin).symm.append_left _).trans horder,
    hbefore, fun c hc => hafter c (List.mem_of_mem_erase hc)⟩

theorem arriveAll_append (m : ClientManager) (arrivals arrivals' : List Arrival) :
    m.arriveAll q published (arrivals ++ arrivals') =
      (m.arriveAll q published arrivals).arriveAll q published arrivals' :=
  List.foldl_append

/-- What each subscription keeps, a run of subscriptions keeps. -/
theorem arriveAll_inv (inv : ClientManager → Prop)
    (hsubs : ∀ a ∈ arrivals, a.isPublish = false)
    (hstep : ∀ (m : ClientManager) tick conn nsPrefix filter,
      .subscribeNamespace tick conn nsPrefix filter ∈ arrivals → HandlersMade q m → inv m →
        inv (m.subscribeNamespaceReceived q published tick conn nsPrefix filter))
    (hmade : HandlersMade q m) (h : inv m) : inv (m.arriveAll q published arrivals) := by
  induction arrivals generalizing m with
  | nil => exact h
  | cons a arrivals ih =>
    cases a with
    | publish tick conn full => cases hsubs _ List.mem_cons_self
    | subscribeNamespace tick conn nsPrefix filter =>
      exact ih (fun a ha => hsubs a (List.mem_cons_of_mem _ ha))
        (fun m _ _ _ _ hmem => hstep m _ _ _ _ (List.mem_cons_of_mem _ hmem))
        (hmade.subscribeNamespaceReceived tick conn nsPrefix filter)
        (hstep m tick conn nsPrefix filter List.mem_cons_self hmade h)

/-- A subscription takes no handler from a track. -/
theorem Pairs.subscribeNamespaceReceived {key : UInt64 × ConnectionHandle}
    {nsPrefix nsPrefix' : TrackNamespace} {conn conn' : ConnectionHandle}
    (h : m.Pairs key nsPrefix' conn') (hmade : HandlersMade q m) (tick : UInt64)
    (filter : Option TrackFilter) :
    (m.subscribeNamespaceReceived q published tick conn nsPrefix filter).Pairs key nsPrefix'
      conn' := by
  obtain ⟨old, handler, hold, ⟨hash, c, hget⟩, hhandler⟩ := h
  obtain ⟨track, htracks, hjoined⟩ := (newSubscription hmade tick conn nsPrefix filter).tracks
  refine ⟨track key old, handler, by rw [htracks, hold]; rfl, ⟨hash, c, ?_⟩, hhandler⟩
  cases hmatch : m.matchesTrack q conn nsPrefix key old with
  | false => rw [(hjoined key old).other hmatch, hget]
  | true =>
    rw [(hjoined key old).get₂? hmatch, hget]
    split <;> rfl

/-- A subscription gives a track no other handler than its own, and none of the track's own
connection unless tracks are mirrored. -/
theorem of_pairs_subscribeNamespaceReceived {key : UInt64 × ConnectionHandle}
    {nsPrefix nsPrefix' : TrackNamespace} {conn conn' : ConnectionHandle} {tick : UInt64}
    {filter : Option TrackFilter} (hmade : HandlersMade q m)
    (h : (m.subscribeNamespaceReceived q published tick conn nsPrefix filter).Pairs key nsPrefix'
      conn') :
    m.Pairs key nsPrefix' conn' ∨ conn' = conn ∧ (m.allowSelf = true ∨ key.2 ≠ conn) := by
  obtain ⟨new, handler, hstored, ⟨hash, c, hget⟩, rfl, rfl⟩ := h
  obtain ⟨track, htracks, hjoined⟩ := (newSubscription hmade tick conn nsPrefix filter).tracks
  rw [htracks, Option.map_eq_some_iff] at hstored
  obtain ⟨old, hold, rfl⟩ := hstored
  obtain hhas | ⟨rfl, -, hmatch⟩ := (hjoined key old).mem hget
  · exact .inl ⟨old, handler, hold, ⟨hash, c, hhas⟩, rfl, rfl⟩
  · exact .inr ⟨(hmade.joinedHandler conn nsPrefix).2, (matchesTrack_iff.mp hmatch).1⟩

/-- The state after some of the arrivals, and then the rest of them. -/
theorem tables_of_perm (hstart : Tables q allowSelf peerSubscribers subscribes [] m)
    (hagree : PrefixTestsAgree q events) {before after : List Arrival}
    (hperm : (before ++ after).Perm events) :
    Tables q allowSelf peerSubscribers subscribes before (m.arriveAll q published before) :=
  tables_arriveAll hstart
    (hagree.mono (List.Subset.trans (List.subset_append_left _ _) hperm.subset))

/-- The handler of a track that has just been published. -/
theorem newTrack_last (m : ClientManager) (order : List Arrival) (tick : UInt64)
    (conn : ConnectionHandle) (full : FullTrackName) :
    ∃ new, NewTrack q (m.arriveAll q published order) full new ∧
      (m.arriveAll q published (order ++ [.publish tick conn full])).pubSubscribes[(
        (q.trackHash full).trackFullnameHash, conn)]? = some new := by
  rw [arriveAll_append]
  obtain ⟨new, hnew, heq⟩ :=
    publishReceived_eq q published (m.arriveAll q published order) tick conn full
  refine ⟨new, hnew, ?_⟩
  show (publishReceived q published (m.arriveAll q published order) tick conn
    full).pubSubscribes[_]? = _
  rw [heq]
  exact ExtTreeMap.getElem?_insert_self

/-- Before any subscription a track has no handler. -/
theorem Tables.not_pairs (ht : Tables q allowSelf peerSubscribers subscribes arrivals m)
    (h : ∀ a ∈ arrivals, a.isPublish = true) (key : UInt64 × ConnectionHandle)
    (nsPrefix : TrackNamespace) (conn : ConnectionHandle) : ¬m.Pairs key nsPrefix conn := by
  rintro ⟨track, handler, hstored, ⟨hash, conn', hget⟩, -⟩
  exact not_subscribes_of_isPublish h (ht.held key track _ _ handler hstored hget).2.1

/-- A track that comes after the subscriptions has a handler of each connection that matches. -/
theorem exists_pairs_last (hstart : Tables q allowSelf peerSubscribers subscribes [] m)
    (hagree : PrefixTestsAgree q events) {full : FullTrackName} {conn : ConnectionHandle}
    (hpub : Publishes events full conn) {nsPrefix : TrackNamespace} {conn' : ConnectionHandle}
    (hns : Subscribes events nsPrefix conn')
    (hmatch : q.isPrefixOf nsPrefix full.nameSpace = true) :
    ∃ order, order.Perm events ∧ ∃ nsPrefix', (m.arriveAll q published order).Pairs
      ((q.trackHash full).trackFullnameHash, conn) nsPrefix' conn' := by
  obtain ⟨tick, hmem⟩ := hpub
  obtain ⟨rest, hrest⟩ := exists_order_last hmem
  have ht : Tables q allowSelf peerSubscribers subscribes rest (m.arriveAll q published rest) :=
    tables_of_perm hstart hagree hrest
  obtain ⟨new, hnew, hstored⟩ := newTrack_last (q := q) m rest tick conn full
  have hsubscribed : (m.arriveAll q published rest).Subscribed conn' nsPrefix := by
    rw [ht.subscribed, ← subscribes_append_publish tick conn full]
    exact hns.mono hrest.symm.subset
  obtain ⟨found, hfound⟩ := hnew.exists_get₂? ht.toHandlersMade hsubscribed
    ((hagree full conn nsPrefix conn' ⟨tick, hmem⟩ hns).symm.trans hmatch)
  obtain ⟨⟨-, hconn⟩, -⟩ := hnew.of_get₂? ht.toHandlersMade hfound
  exact ⟨_, hrest, _, new, found, hstored, ⟨_, _, hfound⟩, rfl, hconn.symm⟩

/-- When the publications come first, no track has a handler of its own connection. -/
theorem exists_no_ownPairs (hstart : Tables q false peerSubscribers subscribes [] m)
    (hagree : PrefixTestsAgree q events) {full : FullTrackName} {conn : ConnectionHandle}
    (hpub : Publishes events full conn) :
    ∃ order, order.Perm events ∧ ∀ key nsPrefix,
      ¬(m.arriveAll q published order).Pairs key nsPrefix key.2 := by
  obtain ⟨tick, hmem⟩ := hpub
  obtain ⟨before, after, horder, hbefore, hafter⟩ := exists_order_publish hmem rfl
  have ht : Tables q false peerSubscribers subscribes (before ++ [.publish tick conn full])
      (m.arriveAll q published (before ++ [.publish tick conn full])) :=
    tables_of_perm hstart hagree horder
  refine ⟨_, horder, ?_⟩
  rw [arriveAll_append]
  refine (arriveAll_inv (q := q) (fun m => m.allowSelf = false ∧
    ∀ key nsPrefix, ¬m.Pairs key nsPrefix key.2) hafter ?_ ht.toHandlersMade
    ⟨ht.config.1, fun key nsPrefix => ht.not_pairs hbefore key nsPrefix key.2⟩).2
  intro m tick conn nsPrefix filter _ hmade ⟨hoff, hnone⟩
  refine ⟨(newSubscription hmade tick conn nsPrefix filter).config.1.trans hoff,
    fun key nsPrefix' hpairs => ?_⟩
  obtain hold | ⟨hown, hself⟩ := of_pairs_subscribeNamespaceReceived hmade hpairs
  · exact hnone key nsPrefix' hold
  · rw [hoff] at hself
    exact hself.elim Bool.noConfusion fun hne => hne hown

theorem OrderFree.notOwn (hstart : Tables q allowSelf peerSubscribers subscribes [] m)
    (hagree : PrefixTestsAgree q events) (hfree : OrderFree q published m events)
    (full : FullTrackName) (conn : ConnectionHandle) (nsPrefix : TrackNamespace)
    (conn' : ConnectionHandle) (hpub : Publishes events full conn)
    (hns : Subscribes events nsPrefix conn')
    (hmatch : q.isPrefixOf nsPrefix full.nameSpace = true) : allowSelf = true ∨ conn ≠ conn' := by
  rw [or_iff_not_imp_left, Bool.not_eq_true]
  rintro rfl rfl
  obtain ⟨order, hperm, nsPrefix', hpairs⟩ := exists_pairs_last hstart hagree hpub hns hmatch
  obtain ⟨order', hperm', hnone⟩ := exists_no_ownPairs hstart hagree hpub
  exact hnone _ nsPrefix' (((hfree order order' hperm hperm').pairs _ _ _).mp hpairs)

/-- A track that is matched sends to the ranking of the subscription. -/
theorem rankedBy_subscribeNamespaceReceived {key : UInt64 × ConnectionHandle}
    {h : SubscribeTrackHandler} (hmade : HandlersMade q m)
    (hstored : m.pubSubscribes[key]? = some h) {nsPrefix : TrackNamespace} {conn : ConnectionHandle}
    (hmatch : m.matchesTrack q conn nsPrefix key h = true) (tick : UInt64)
    (filter : Option TrackFilter) :
    (m.subscribeNamespaceReceived q published tick conn nsPrefix filter).RankedBy key
      (q.trackHash ⟨nsPrefix, []⟩).trackNamespaceHash := by
  obtain ⟨-, -, hrankings, track, htracks, hjoined⟩ : NewSubscription q m conn nsPrefix filter
      (m.subscribeNamespaceReceived q published tick conn nsPrefix filter) :=
    newSubscription hmade tick conn nsPrefix filter
  refine ⟨track key h, m.joinedRanking q conn nsPrefix filter, ?_,
    (hjoined key h).trackRanking hmatch, ?_⟩
  · rw [htracks, hstored]
    rfl
  · rw [hrankings, if_pos rfl]

/-- The prefix of a subscription that comes last is the one that counts. -/
theorem exists_rankedBy_last (hstart : Tables q allowSelf peerSubscribers subscribes [] m)
    (hagree : PrefixTestsAgree q events) {full : FullTrackName} {conn : ConnectionHandle}
    (hpub : Publishes events full conn) {nsPrefix : TrackNamespace} {conn' : ConnectionHandle}
    (hns : Subscribes events nsPrefix conn')
    (hmatch : q.isPrefixOf nsPrefix full.nameSpace = true)
    (hself : allowSelf = true ∨ conn ≠ conn') :
    ∃ order, order.Perm events ∧ (m.arriveAll q published order).RankedBy
      ((q.trackHash full).trackFullnameHash, conn)
      (q.trackHash ⟨nsPrefix, []⟩).trackNamespaceHash := by
  obtain ⟨tick, hmem⟩ := hpub
  obtain ⟨tick', filter, hmem'⟩ := hns
  obtain ⟨rest, hrest⟩ := exists_order_last₂ hmem hmem' (by simp)
  have ht : Tables q allowSelf peerSubscribers subscribes (rest ++ [.publish tick conn full])
      (m.arriveAll q published (rest ++ [.publish tick conn full])) :=
    tables_of_perm hstart hagree hrest
  obtain ⟨new, hnew, hstored⟩ := newTrack_last (q := q) m rest tick conn full
  refine ⟨_, hrest, ?_⟩
  rw [arriveAll_append]
  refine rankedBy_subscribeNamespaceReceived ht.toHandlersMade hstored ?_ tick' filter
  rw [matchesTrack_iff, ht.config.1, hnew.fullTrackName]
  exact ⟨hself, hmatch⟩

theorem RankedBy.unique {key : UInt64 × ConnectionHandle} {nsHash nsHash' : UInt64}
    (h : m.RankedBy key nsHash) (h' : m.RankedBy key nsHash') : nsHash = nsHash' := by
  obtain ⟨track, rk, hstored, hranking, -⟩ := h
  obtain ⟨track', rk', hstored', hranking', -⟩ := h'
  obtain rfl := Option.some.inj (hstored.symm.trans hstored')
  exact (RankingRef.mk.inj (Option.some.inj (hranking.symm.trans hranking'))).1

theorem OrderFree.oneRanking (hstart : Tables q allowSelf peerSubscribers subscribes [] m)
    (hagree : PrefixTestsAgree q events) (hfree : OrderFree q published m events)
    (full : FullTrackName) (conn : ConnectionHandle) (nsPrefix : TrackNamespace)
    (conn' : ConnectionHandle) (nsPrefix' : TrackNamespace) (conn'' : ConnectionHandle)
    (hpub : Publishes events full conn) (hns : Subscribes events nsPrefix conn')
    (hmatch : q.isPrefixOf nsPrefix full.nameSpace = true)
    (hns' : Subscribes events nsPrefix' conn'')
    (hmatch' : q.isPrefixOf nsPrefix' full.nameSpace = true) :
    (q.trackHash ⟨nsPrefix, []⟩).trackNamespaceHash =
      (q.trackHash ⟨nsPrefix', []⟩).trackNamespaceHash := by
  have hself := hfree.notOwn hstart hagree full conn nsPrefix conn' hpub hns hmatch
  have hself' := hfree.notOwn hstart hagree full conn nsPrefix' conn'' hpub hns' hmatch'
  obtain ⟨order, hperm, hranked⟩ := exists_rankedBy_last hstart hagree hpub hns hmatch hself
  obtain ⟨order', hperm', hranked'⟩ := exists_rankedBy_last hstart hagree hpub hns' hmatch' hself'
  exact (((hfree order order' hperm hperm').rankings _ _).mp hranked).unique hranked'

/-- A track that has no handlers gets the one of the first subscription that matches, and keeps
it. -/
theorem Tables.pairs_first (ht : Tables q allowSelf peerSubscribers subscribes arrivals m)
    (hpublishes : ∀ a ∈ arrivals, a.isPublish = true) {key : UInt64 × ConnectionHandle}
    {h : SubscribeTrackHandler} (hstored : m.pubSubscribes[key]? = some h)
    {nsPrefix : TrackNamespace} {conn : ConnectionHandle}
    (hmatch : m.matchesTrack q conn nsPrefix key h = true) (tick : UInt64)
    (filter : Option TrackFilter) {after : List Arrival}
    (hafter : ∀ a ∈ after, a.isPublish = false) :
    (m.arriveAll q published (.subscribeNamespace tick conn nsPrefix filter :: after)).Pairs key
      nsPrefix conn := by
  have hmade : HandlersMade q
      (m.subscribeNamespaceReceived q published tick conn nsPrefix filter) :=
    ht.toHandlersMade.subscribeNamespaceReceived tick conn nsPrefix filter
  obtain ⟨-, -, -, track, htracks, hjoined⟩ : NewSubscription q m conn nsPrefix filter
      (m.subscribeNamespaceReceived q published tick conn nsPrefix filter) :=
    newSubscription ht.toHandlersMade tick conn nsPrefix filter
  obtain ⟨handler, hhas, hhandler⟩ := (hjoined key h).has ht hstored hmatch
    fun nsPrefix' hns => absurd hns (not_subscribes_of_isPublish hpublishes)
  have hfirst : (m.subscribeNamespaceReceived q published tick conn nsPrefix filter).Pairs key
      nsPrefix conn := by
    refine ⟨track key h, handler, ?_, hhas, hhandler⟩
    rw [htracks, hstored]
    rfl
  show ((m.subscribeNamespaceReceived q published tick conn nsPrefix filter).arriveAll q published
    after).Pairs key nsPrefix conn
  exact arriveAll_inv (q := q) (fun m => m.Pairs key nsPrefix conn) hafter
    (fun m tick conn nsPrefix filter _ hmade h => h.subscribeNamespaceReceived hmade tick filter)
    hmade hfirst

/-- The handler of a subscription that comes first after the publications stays. -/
theorem exists_pairs_first (hstart : Tables q allowSelf peerSubscribers subscribes [] m)
    (hagree : PrefixTestsAgree q events) {full : FullTrackName} {conn : ConnectionHandle}
    (hpub : Publishes events full conn) {nsPrefix : TrackNamespace} {conn' : ConnectionHandle}
    (hns : Subscribes events nsPrefix conn')
    (hmatch : q.isPrefixOf nsPrefix full.nameSpace = true)
    (hself : allowSelf = true ∨ conn ≠ conn') :
    ∃ order, order.Perm events ∧ (m.arriveAll q published order).Pairs
      ((q.trackHash full).trackFullnameHash, conn) nsPrefix conn' := by
  obtain ⟨tick, hmem⟩ := hpub
  obtain ⟨tick', filter, hmem'⟩ := hns
  obtain ⟨before, after, horder, hbefore, hafter⟩ :=
    exists_order_publish_subscribe hmem hmem' rfl rfl
  have ht : Tables q allowSelf peerSubscribers subscribes (before ++ [.publish tick conn full])
      (m.arriveAll q published (before ++ [.publish tick conn full])) :=
    tables_of_perm hstart hagree horder
  obtain ⟨new, hnew, hstored⟩ := newTrack_last (q := q) m before tick conn full
  have hmatches : (m.arriveAll q published (before ++ [.publish tick conn full])).matchesTrack q
      conn' nsPrefix ((q.trackHash full).trackFullnameHash, conn) new = true := by
    rw [matchesTrack_iff, ht.config.1, hnew.fullTrackName]
    exact ⟨hself, hmatch⟩
  refine ⟨_, horder, ?_⟩
  rw [arriveAll_append]
  exact ht.pairs_first hbefore hstored hmatches tick' filter hafter

/-- A track has one handler in a place. -/
theorem Tables.pairs_unique (ht : Tables q allowSelf peerSubscribers subscribes arrivals m)
    {key : UInt64 × ConnectionHandle} {nsPrefix nsPrefix' : TrackNamespace}
    {conn : ConnectionHandle} (h : m.Pairs key nsPrefix conn) (h' : m.Pairs key nsPrefix' conn)
    (hhash : (q.trackHash ⟨nsPrefix, []⟩).trackFullnameHash =
      (q.trackHash ⟨nsPrefix', []⟩).trackFullnameHash) : nsPrefix = nsPrefix' := by
  obtain ⟨track, handler, hstored, ⟨hash, c, hget⟩, rfl, rfl⟩ := h
  obtain ⟨track', handler', hstored', ⟨hash', c', hget'⟩, rfl, hconn⟩ := h'
  obtain rfl := Option.some.inj (hstored.symm.trans hstored')
  obtain ⟨⟨rfl, rfl⟩, -⟩ := ht.held key track _ _ handler hstored hget
  obtain ⟨⟨rfl, rfl⟩, -⟩ := ht.held key track _ _ handler' hstored hget'
  rw [hhash, ← hconn, hget'] at hget
  rw [Option.some.inj hget]

theorem OrderFree.oneHandler (hstart : Tables q allowSelf peerSubscribers subscribes [] m)
    (hagree : PrefixTestsAgree q events) (hfree : OrderFree q published m events)
    (full : FullTrackName) (conn : ConnectionHandle) (nsPrefix nsPrefix' : TrackNamespace)
    (conn' : ConnectionHandle) (hpub : Publishes events full conn)
    (hns : Subscribes events nsPrefix conn')
    (hmatch : q.isPrefixOf nsPrefix full.nameSpace = true)
    (hns' : Subscribes events nsPrefix' conn')
    (hmatch' : q.isPrefixOf nsPrefix' full.nameSpace = true)
    (hhash : (q.trackHash ⟨nsPrefix, []⟩).trackFullnameHash =
      (q.trackHash ⟨nsPrefix', []⟩).trackFullnameHash) : nsPrefix = nsPrefix' := by
  have hself := hfree.notOwn hstart hagree full conn nsPrefix conn' hpub hns hmatch
  obtain ⟨order, hperm, hpairs⟩ := exists_pairs_first hstart hagree hpub hns hmatch hself
  obtain ⟨order', hperm', hpairs'⟩ := exists_pairs_first hstart hagree hpub hns' hmatch' hself
  have ht : Tables q allowSelf peerSubscribers subscribes order
      (m.arriveAll q published order) :=
    tables_arriveAll hstart (hagree.mono hperm.subset)
  exact ht.pairs_unique hpairs (((hfree order order' hperm hperm').pairs _ _ _).mpr hpairs') hhash

/-- The handlers of a track that comes last are of prefixes that match its name. -/
theorem exists_matched_last (hstart : Tables q allowSelf peerSubscribers subscribes [] m)
    (hagree : PrefixTestsAgree q events) {full : FullTrackName} {conn : ConnectionHandle}
    (hpub : Publishes events full conn) :
    ∃ order, order.Perm events ∧ ∀ nsPrefix conn', (m.arriveAll q published order).Pairs
      ((q.trackHash full).trackFullnameHash, conn) nsPrefix conn' →
        q.isPrefixOf nsPrefix full.nameSpace = true := by
  obtain ⟨tick, hmem⟩ := hpub
  obtain ⟨rest, hrest⟩ := exists_order_last hmem
  have ht : Tables q allowSelf peerSubscribers subscribes (rest ++ [.publish tick conn full])
      (m.arriveAll q published (rest ++ [.publish tick conn full])) :=
    tables_arriveAll hstart (hagree.mono hrest.subset)
  obtain ⟨new, hnew, hstored⟩ := newTrack_last (q := q) m rest tick conn full
  refine ⟨_, hrest, fun nsPrefix conn' hpairs => ?_⟩
  obtain ⟨track, handler, hstored', ⟨hash, c, hget⟩, rfl, rfl⟩ := hpairs
  obtain rfl := Option.some.inj (hstored.symm.trans hstored')
  rw [← hnew.fullTrackName]
  exact (ht.held _ new _ _ handler hstored hget).2.2

theorem OrderFree.oneTrack (hstart : Tables q allowSelf peerSubscribers subscribes [] m)
    (hagree : PrefixTestsAgree q events) (hfree : OrderFree q published m events)
    (full full' : FullTrackName) (conn : ConnectionHandle) (hpub : Publishes events full conn)
    (hpub' : Publishes events full' conn)
    (hhash : (q.trackHash full).trackFullnameHash = (q.trackHash full').trackFullnameHash)
    (nsPrefix : TrackNamespace) (conn' : ConnectionHandle) (hns : Subscribes events nsPrefix conn')
    (hmatch : q.isPrefixOf nsPrefix full.nameSpace = true) :
    q.isPrefixOf nsPrefix full'.nameSpace = true := by
  have hself := hfree.notOwn hstart hagree full conn nsPrefix conn' hpub hns hmatch
  obtain ⟨order, hperm, hpairs⟩ := exists_pairs_first hstart hagree hpub hns hmatch hself
  obtain ⟨order', hperm', hmatched⟩ := exists_matched_last hstart hagree hpub'
  refine hmatched nsPrefix conn' (((hfree order order' hperm hperm').pairs _ _ _).mp ?_)
  rw [← hhash]
  exact hpairs

/-- The ranking of the empty namespace is taken by a track that no prefix matches. -/
theorem exists_rankedBy_empty (hstart : Tables q allowSelf peerSubscribers subscribes [] m)
    (hagree : PrefixTestsAgree q events) {full : FullTrackName} {conn : ConnectionHandle}
    (hpub : Publishes events full conn)
    (hnone : ∀ nsPrefix conn', Subscribes events nsPrefix conn' →
      q.isPrefixOf nsPrefix full.nameSpace = false)
    {nsPrefix : TrackNamespace} {conn' : ConnectionHandle} (hns : Subscribes events nsPrefix conn')
    (hhash : (q.trackHash ⟨nsPrefix, []⟩).trackNamespaceHash =
      (q.trackHash ⟨[], []⟩).trackNamespaceHash) :
    ∃ order, order.Perm events ∧ (m.arriveAll q published order).RankedBy
      ((q.trackHash full).trackFullnameHash, conn)
      (q.trackHash ⟨[], []⟩).trackNamespaceHash := by
  obtain ⟨tick, hmem⟩ := hpub
  obtain ⟨rest, hrest⟩ := exists_order_last hmem
  have hall : ∀ nsPrefix conn', Subscribes rest nsPrefix conn' → Subscribes events nsPrefix conn' :=
    fun nsPrefix conn' hns =>
      hns.mono (List.Subset.trans (List.subset_append_left _ _) hrest.subset)
  have ht : Tables q allowSelf peerSubscribers subscribes rest (m.arriveAll q published rest) :=
    tables_of_perm hstart hagree hrest
  obtain ⟨new, hnew, hstored⟩ := newTrack_last (q := q) m rest tick conn full
  have hempty : (m.arriveAll q published rest).matchingRows q full.nameSpace = [] := by
    by_contra hne
    obtain ⟨nsPrefix, conn', hns, hmatch⟩ := (ht.matchingRows_ne_nil_iff fun nsPrefix conn' hns =>
      hagree full conn nsPrefix conn' ⟨tick, hmem⟩ (hall _ _ hns)).mp hne
    rw [hnone nsPrefix conn' (hall _ _ hns)] at hmatch
    cases hmatch
  have hnsRest : Subscribes rest nsPrefix conn' := by
    rw [← subscribes_append_publish tick conn full]
    exact hns.mono hrest.symm.subset
  obtain ⟨rk, hrk⟩ := (ht.ranked _).mpr ⟨nsPrefix, conn', hnsRest, hhash⟩
  have hfirst : (q.trackHash ⟨[], []⟩).trackNamespaceHash = (q.trackHash ⟨firstPrefix
      ((m.arriveAll q published rest).matchingRows q full.nameSpace), []⟩).trackNamespaceHash := by
    rw [hempty]
    rfl
  refine ⟨_, hrest, new, rk, hstored, ?_, ?_⟩
  · rw [hnew.trackRanking _ hfirst, hrk]
    rfl
  · rw [arriveAll_append]
    obtain ⟨_, -, heq⟩ :=
      publishReceived_eq q published (m.arriveAll q published rest) tick conn full
    show (publishReceived q published _ tick conn full).trackRankings[_]? = _
    rw [heq]
    exact hrk

/-- A track that comes before all subscriptions has no ranking that does not match it. -/
theorem exists_not_rankedBy (hstart : Tables q allowSelf peerSubscribers subscribes [] m)
    (hagree : PrefixTestsAgree q events) {full : FullTrackName} {conn : ConnectionHandle}
    (hpub : Publishes events full conn)
    (hnone : ∀ nsPrefix conn', Subscribes events nsPrefix conn' →
      q.isPrefixOf nsPrefix full.nameSpace = false) :
    ∃ order, order.Perm events ∧ ∀ nsHash, ¬(m.arriveAll q published order).RankedBy
      ((q.trackHash full).trackFullnameHash, conn) nsHash := by
  obtain ⟨tick, hmem⟩ := hpub
  obtain ⟨before, after, horder, hbefore, hafter⟩ := exists_order_publish hmem rfl
  have ht : Tables q allowSelf peerSubscribers subscribes (before ++ [.publish tick conn full])
      (m.arriveAll q published (before ++ [.publish tick conn full])) :=
    tables_of_perm hstart hagree horder
  have htBefore : Tables q allowSelf peerSubscribers subscribes before
      (m.arriveAll q published before) := by
    rw [List.append_assoc] at horder
    exact tables_of_perm hstart hagree horder
  obtain ⟨new, hnew, hstored⟩ := newTrack_last (q := q) m before tick conn full
  have hunranked : new.trackRanking = none := by
    rw [hnew.trackRanking _ rfl, Option.map_eq_none_iff, Option.eq_none_iff_forall_not_mem]
    intro rk hrk
    obtain ⟨nsPrefix, conn', hns, -⟩ := (htBefore.ranked _).mp ⟨rk, hrk⟩
    exact not_subscribes_of_isPublish (fun a ha => hbefore a (List.mem_append_left _ ha)) hns
  have hkept : ((m.arriveAll q published (before ++ [.publish tick conn full])).arriveAll q
      published after).pubSubscribes[((q.trackHash full).trackFullnameHash, conn)]? = some new := by
    refine arriveAll_inv (q := q) (fun m => m.pubSubscribes[((q.trackHash full).trackFullnameHash,
      conn)]? = some new) hafter ?_ ht.toHandlersMade hstored
    intro m tick' conn' nsPrefix filter hin hmade hget
    obtain ⟨track, htracks, hjoined⟩ := (newSubscription hmade tick' conn' nsPrefix filter).tracks
    rw [htracks, hget, Option.map_some, (hjoined _ new).other]
    rw [matchesTrack, hnew.fullTrackName, hnone nsPrefix conn'
      ⟨tick', filter, horder.subset (List.mem_append_right _ hin)⟩, Bool.and_false]
  refine ⟨_, horder, fun nsHash => ?_⟩
  rw [arriveAll_append]
  rintro ⟨track, rk, hget, hranking, -⟩
  obtain rfl := Option.some.inj (hkept.symm.trans hget)
  rw [hunranked] at hranking
  cases hranking

theorem OrderFree.unranked (hstart : Tables q allowSelf peerSubscribers subscribes [] m)
    (hagree : PrefixTestsAgree q events) (hfree : OrderFree q published m events)
    (full : FullTrackName) (conn : ConnectionHandle) (hpub : Publishes events full conn)
    (hnone : ∀ nsPrefix conn', Subscribes events nsPrefix conn' →
      q.isPrefixOf nsPrefix full.nameSpace = false)
    (nsPrefix : TrackNamespace) (conn' : ConnectionHandle)
    (hns : Subscribes events nsPrefix conn') :
    (q.trackHash ⟨nsPrefix, []⟩).trackNamespaceHash ≠
      (q.trackHash ⟨[], []⟩).trackNamespaceHash := by
  intro hhash
  obtain ⟨order, hperm, hranked⟩ := exists_rankedBy_empty hstart hagree hpub hnone hns hhash
  obtain ⟨order', hperm', hnot⟩ := exists_not_rankedBy hstart hagree hpub hnone
  exact hnot _ (((hfree order order' hperm hperm').rankings _ _).mp hranked)

/-- The order of the arrivals makes no difference if and only if they are wired once. -/
theorem orderFree_iff (q : Quicr) (published : TrackAlias → PublishStatus) (allowSelf : Bool)
    (peerSubscribers : ExtTreeSet UInt64) (subscribes : ExtTreeSet (UInt64 × ConnectionHandle))
    (arrivals : List Arrival) (hagree : PrefixTestsAgree q arrivals) :
    OrderFree q published (start allowSelf peerSubscribers subscribes) arrivals ↔
      WiredOnce q allowSelf arrivals := by
  have hstart : Tables q allowSelf peerSubscribers subscribes []
      (start allowSelf peerSubscribers subscribes) := tables_start
  constructor
  · intro hfree
    exact ⟨hfree.notOwn hstart hagree, hfree.oneRanking hstart hagree,
      hfree.oneHandler hstart hagree, hfree.unranked hstart hagree, hfree.oneTrack hstart hagree⟩
  · exact orderFree_of_wiredOnce hagree

/-- A track between two subscribers of one prefix. -/
def subscribedTwice : List Arrival :=
  [.subscribeNamespace 0 1 [[1]] none, .publish 0 3 ⟨[[1], [2]], [7]⟩,
    .subscribeNamespace 0 2 [[1]] none]

theorem orderFree_iff_subscribedTwice :
    OrderFree .polynomial (fun _ => .ok) (start false ∅ ∅) subscribedTwice := by
  have hpub : ∀ full conn, Publishes subscribedTwice full conn →
      full = ⟨[[1], [2]], [7]⟩ ∧ conn = 3 := by
    rintro full conn ⟨tick, hmem⟩
    simp only [subscribedTwice, List.mem_cons, List.not_mem_nil, or_false, reduceCtorEq, false_or,
      Arrival.publish.injEq] at hmem
    exact ⟨hmem.2.2, hmem.2.1⟩
  have hns : ∀ nsPrefix conn, Subscribes subscribedTwice nsPrefix conn →
      nsPrefix = [[1]] ∧ conn ≠ 3 := by
    rintro nsPrefix conn ⟨tick, filter, hmem⟩
    simp only [subscribedTwice, List.mem_cons, List.not_mem_nil, or_false, reduceCtorEq, false_or,
      Arrival.subscribeNamespace.injEq] at hmem
    obtain ⟨-, rfl, rfl, -⟩ | ⟨-, rfl, rfl, -⟩ := hmem
    · exact ⟨rfl, by decide⟩
    · exact ⟨rfl, by decide⟩
  refine (orderFree_iff .polynomial (fun _ => .ok) false ∅ ∅ subscribedTwice ?_).mpr
    ⟨?_, ?_, ?_, ?_, ?_⟩
  · intro full conn nsPrefix conn' h h'
    rw [(hpub full conn h).1, (hns nsPrefix conn' h').1]
    decide
  · intro full conn nsPrefix conn' h h' _
    rw [(hpub full conn h).2]
    exact .inr (hns nsPrefix conn' h').2.symm
  · intro full conn nsPrefix conn' nsPrefix' conn'' _ h _ h' _
    rw [(hns nsPrefix conn' h).1, (hns nsPrefix' conn'' h').1]
  · intro full conn nsPrefix nsPrefix' conn' _ h _ h' _ _
    rw [(hns nsPrefix conn' h).1, (hns nsPrefix' conn' h').1]
  · intro full conn _ _ nsPrefix conn' h
    rw [(hns nsPrefix conn' h).1]
    decide
  · intro full full' conn h h' _ nsPrefix conn' _ hmatch
    rw [(hpub full' conn h').1, ← (hpub full conn h).1]
    exact hmatch

/-- Two prefixes of one track. -/
def twoPrefixes : List Arrival :=
  [.publish 0 3 ⟨[[1], [2]], [7]⟩, .subscribeNamespace 0 1 [[1]] none,
    .subscribeNamespace 0 2 [[1], [2]] none]

/-- A subscriber of the prefix of its own track. -/
def ownTrack : List Arrival :=
  [.publish 0 3 ⟨[[1], [2]], [7]⟩, .subscribeNamespace 0 3 [[1]] none]

theorem not_orderFree :
    (PrefixTestsAgree .polynomial twoPrefixes ∧ (twoPrefixes.map Arrival.key).Nodup ∧
      ¬OrderFree .polynomial (fun _ => .ok) (start false ∅ ∅) twoPrefixes) ∧
    PrefixTestsAgree .polynomial ownTrack ∧ (ownTrack.map Arrival.key).Nodup ∧
      ¬OrderFree .polynomial (fun _ => .ok) (start false ∅ ∅) ownTrack := by
  have hagree : PrefixTestsAgree .polynomial twoPrefixes := by
    rintro full conn nsPrefix conn' ⟨tick, hpub⟩ ⟨tick', filter, hns⟩
    simp only [twoPrefixes, List.mem_cons, List.not_mem_nil, or_false, reduceCtorEq, false_or,
      Arrival.publish.injEq, Arrival.subscribeNamespace.injEq] at hpub hns
    obtain ⟨-, -, rfl⟩ := hpub
    obtain ⟨-, -, rfl, -⟩ | ⟨-, -, rfl, -⟩ := hns <;> decide
  have hagree' : PrefixTestsAgree .polynomial ownTrack := by
    rintro full conn nsPrefix conn' ⟨tick, hpub⟩ ⟨tick', filter, hns⟩
    simp only [ownTrack, List.mem_cons, List.not_mem_nil, or_false, reduceCtorEq, false_or,
      Arrival.publish.injEq, Arrival.subscribeNamespace.injEq] at hpub hns
    obtain ⟨-, -, rfl⟩ := hpub
    obtain ⟨-, -, rfl, -⟩ := hns
    decide
  refine ⟨⟨hagree, by decide, fun hfree => ?_⟩, hagree', by decide, fun hfree => ?_⟩
  · have hhash := hfree.oneRanking tables_start hagree ⟨[[1], [2]], [7]⟩ 3 [[1]] 1 [[1], [2]] 2
      ⟨0, by decide⟩ ⟨0, none, by decide⟩ (by decide) ⟨0, none, by decide⟩ (by decide)
    revert hhash
    decide
  · obtain hoff | hne := hfree.notOwn tables_start hagree' ⟨[[1], [2]], [7]⟩ 3 [[1]] 3
      ⟨0, by decide⟩ ⟨0, none, by decide⟩ (by decide)
    · cases hoff
    · exact hne rfl

end

end ClientManager

end Laps.Ranking
