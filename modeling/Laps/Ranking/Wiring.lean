import Laps.Quicr
import Laps.Ranking.Handler

/-! The client manager's side of namespaces: who subscribes to them, the tracks that are published,
and the ranking that a track sends its properties to.  What the peer manager does is in the model of
the relay; here it is only asked for subscribers. -/

namespace Laps.Ranking

open Std

/-- A reference to a `PublishNamespaceHandler`: the number of the object, and what it was made
for. -/
structure HandlerRef where
  id : HandlerId
  prefixNamespace : TrackNamespace
  connectionId : ConnectionHandle
  deriving DecidableEq, Repr

/-- A `TrackRanking` as an object, with its handlers. -/
structure SharedRanking where
  id : ℕ
  ranking : TrackRanking := {}
  nsHandlers : ExtTreeMap UInt64 (ExtTreeMap UInt64 HandlerId) := ∅
  deriving DecidableEq

/-- A weak reference to a ranking, which only `track_rankings_` owns. -/
structure RankingRef where
  nsHash : UInt64
  id : ℕ
  deriving DecidableEq, Repr

/-- The track filter of a namespace subscription. -/
structure TrackFilter where
  propertyType : PropertyType
  maxTracksSelected : UInt64
  timeout : UInt64
  deriving DecidableEq, Repr

structure TrackPropertyValue where
  latestValue : PropertyValue := 0
  latestTickMs : UInt64 := 0
  deriving DecidableEq, Repr

/-- The part of a track's handler that namespaces concern. -/
structure SubscribeTrackHandler where
  fullTrackName : FullTrackName
  isPublisherInitiated : Bool := false
  paused : Bool := false
  subscribers : ExtTreeSet ConnectionHandle := ∅
  subNamespaces : ExtTreeMap UInt64 (ExtTreeMap ConnectionHandle HandlerRef) := ∅
  trackedPropertiesValue : ExtTreeMap PropertyType TrackPropertyValue :=
    (∅ : ExtTreeMap PropertyType TrackPropertyValue).insert 12 {}
  trackRanking : Option RankingRef := none
  deriving DecidableEq

structure ClientManager where
  allowSelf : Bool := false
  /-- The tracks that `PeerManager::HasSubscribers` is true of. -/
  peerSubscribers : ExtTreeSet UInt64 := ∅
  /-- `state_.subscribes`: the tracks and the connections that subscribe to them. -/
  subscribes : ExtTreeSet (UInt64 × ConnectionHandle) := ∅
  pubSubscribes : ExtTreeMap (UInt64 × ConnectionHandle) SubscribeTrackHandler := ∅
  subscribesNamespaces : ExtTreeMap TrackNamespace (ExtTreeMap ConnectionHandle HandlerRef) := ∅
  /-- The namespace handlers.  One stays here also when nothing refers to it any more. -/
  live : ExtTreeMap HandlerId PublishNamespaceHandler := ∅
  /-- The number of namespace handlers made so far. -/
  handlers : ℕ := 0
  trackRankings : ExtTreeMap UInt64 SharedRanking := ∅
  /-- The number of rankings made so far. -/
  rankings : ℕ := 0
  deriving DecidableEq

/-! ### Rankings -/

namespace SharedRanking

def system (rk : SharedRanking) (live : ExtTreeMap HandlerId PublishNamespaceHandler) :
    RankingSystem :=
  ⟨rk.ranking, rk.nsHandlers, live⟩

def addNamespaceHandler (rk : SharedRanking)
    (live : ExtTreeMap HandlerId PublishNamespaceHandler) (id : HandlerId) : SharedRanking :=
  { rk with nsHandlers := ((rk.system live).addNamespaceHandler id).nsHandlers }

def removeNamespaceHandler (rk : SharedRanking)
    (live : ExtTreeMap HandlerId PublishNamespaceHandler) (id : HandlerId) : SharedRanking :=
  { rk with nsHandlers := ((rk.system live).removeNamespaceHandler id).nsHandlers }

theorem get₂?_addNamespaceHandler (rk : SharedRanking)
    {live : ExtTreeMap HandlerId PublishNamespaceHandler} {id : HandlerId}
    {object : PublishNamespaceHandler} (h : live[id]? = some object) (nsHash conn : UInt64) :
    (rk.addNamespaceHandler live id).nsHandlers.get₂? nsHash conn =
      if nsHash = object.nsHash ∧ conn = object.connectionId then
        some ((rk.nsHandlers.get₂? object.nsHash object.connectionId).getD id)
      else rk.nsHandlers.get₂? nsHash conn :=
  (rk.system live).handlerAt_addNamespaceHandler h nsHash conn

theorem get₂?_removeNamespaceHandler (rk : SharedRanking)
    {live : ExtTreeMap HandlerId PublishNamespaceHandler} {id : HandlerId}
    {object : PublishNamespaceHandler} (h : live[id]? = some object) (nsHash conn : UInt64) :
    (rk.removeNamespaceHandler live id).nsHandlers.get₂? nsHash conn =
      if nsHash = object.nsHash ∧ conn = object.connectionId then none
      else rk.nsHandlers.get₂? nsHash conn :=
  (rk.system live).handlerAt_removeNamespaceHandler h nsHash conn

/-- A longer timeout of a filter becomes the age at which tracks are inactive. -/
def raiseInactiveAge (rk : SharedRanking) (filter : Option TrackFilter) : SharedRanking :=
  match filter with
  | none => rk
  | some tf =>
    if rk.ranking.inactiveAgeMs < tf.timeout then
      { rk with ranking := rk.ranking.setInactiveAge tf.timeout }
    else rk

@[simp] theorem raiseInactiveAge_id (rk : SharedRanking) (filter : Option TrackFilter) :
    (rk.raiseInactiveAge filter).id = rk.id := by
  unfold raiseInactiveAge
  split
  · rfl
  · split <;> rfl

@[simp] theorem raiseInactiveAge_nsHandlers (rk : SharedRanking) (filter : Option TrackFilter) :
    (rk.raiseInactiveAge filter).nsHandlers = rk.nsHandlers := by
  unfold raiseInactiveAge
  split
  · rfl
  · split <;> rfl

end SharedRanking

/-! ### Handlers -/

/-- A new namespace handler. -/
def PublishNamespaceHandler.create (nsHash connectionId : UInt64) (filter : Option TrackFilter) :
    PublishNamespaceHandler :=
  match filter with
  | none => { nsHash, connectionId }
  | some tf =>
    { nsHash, connectionId, maxTracksSelected := tf.maxTracksSelected
      propertyType := some tf.propertyType }

@[simp] theorem PublishNamespaceHandler.create_nsHash (nsHash conn : UInt64)
    (filter : Option TrackFilter) : (create nsHash conn filter).nsHash = nsHash := by
  cases filter <;> rfl

@[simp] theorem PublishNamespaceHandler.create_connectionId (nsHash conn : UInt64)
    (filter : Option TrackFilter) : (create nsHash conn filter).connectionId = conn := by
  cases filter <;> rfl

@[simp] theorem PublishNamespaceHandler.create_publishedTracks (nsHash conn : UInt64)
    (filter : Option TrackFilter) : (create nsHash conn filter).publishedTracks = ∅ := by
  cases filter <;> rfl

/-- A new track, which the base class leaves with the status `published`. -/
def PublishNamespaceHandler.publishTrack (published : TrackAlias → PublishStatus) (tick : UInt64)
    (trackAlias : TrackAlias) (h : PublishNamespaceHandler) : PublishNamespaceHandler :=
  { h with
    handlers := h.handlers.insert trackAlias
    publishedTracks := h.publishedTracks.insertIfNew trackAlias ⟨tick, published trackAlias⟩ }

namespace SubscribeTrackHandler

def pause (h : SubscribeTrackHandler) : SubscribeTrackHandler := { h with paused := true }

def resume (h : SubscribeTrackHandler) : SubscribeTrackHandler := { h with paused := false }

def addSubscriber (h : SubscribeTrackHandler) (conn : ConnectionHandle) : SubscribeTrackHandler :=
  if h.subscribers.contains conn then h
  else { h with subscribers := h.subscribers.insert conn }.resume

/-- The property is the one of the handler. -/
def addSubscribeNamespace (q : Quicr) (h : SubscribeTrackHandler) (handler : HandlerRef)
    (prop : PropertyType) : SubscribeTrackHandler :=
  let hash := (q.trackHash ⟨handler.prefixNamespace, []⟩).trackFullnameHash
  match h.subNamespaces.get₂? hash handler.connectionId with
  | some _ => h
  | none =>
    { h with
      subNamespaces := h.subNamespaces.insertIfNew₂ hash handler.connectionId handler
      trackedPropertiesValue := h.trackedPropertiesValue.insertIfNew prop {} }.resume

theorem get₂?_addSubscribeNamespace (q : Quicr) (h : SubscribeTrackHandler) (handler : HandlerRef)
    (prop : PropertyType) (hash : UInt64) (conn : ConnectionHandle) :
    (h.addSubscribeNamespace q handler prop).subNamespaces.get₂? hash conn =
      if hash = (q.trackHash ⟨handler.prefixNamespace, []⟩).trackFullnameHash ∧
          conn = handler.connectionId then
        some ((h.subNamespaces.get₂? hash conn).getD handler)
      else h.subNamespaces.get₂? hash conn := by
  unfold addSubscribeNamespace
  dsimp only
  split
  · rename_i handler' hold
    split
    · rename_i hkey
      rw [hkey.1, hkey.2, hold]
      rfl
    · rfl
  · show (ExtTreeMap.insertIfNew₂ _ _ _ _).get₂? hash conn = _
    rw [ExtTreeMap.get₂?_insertIfNew₂]
    split
    · rename_i hkey
      rw [hkey.1, hkey.2]
    · rfl

/-- What the additions of subscribers leave as it is. -/
structure SameTrack (h h' : SubscribeTrackHandler) : Prop where
  fullTrackName : h'.fullTrackName = h.fullTrackName
  isPublisherInitiated : h'.isPublisherInitiated = h.isPublisherInitiated
  trackRanking : h'.trackRanking = h.trackRanking
  resumed : h.paused = false → h'.paused = false

theorem SameTrack.refl (h : SubscribeTrackHandler) : SameTrack h h := ⟨rfl, rfl, rfl, id⟩

theorem SameTrack.trans {h h' h'' : SubscribeTrackHandler} (a : SameTrack h h')
    (b : SameTrack h' h'') : SameTrack h h'' :=
  ⟨b.fullTrackName.trans a.fullTrackName, b.isPublisherInitiated.trans a.isPublisherInitiated,
    b.trackRanking.trans a.trackRanking, fun hpaused => b.resumed (a.resumed hpaused)⟩

theorem sameTrack_addSubscriber (h : SubscribeTrackHandler) (conn : ConnectionHandle) :
    SameTrack h (h.addSubscriber conn) := by
  unfold addSubscriber
  split
  · exact .refl h
  · exact ⟨rfl, rfl, rfl, fun _ => rfl⟩

theorem sameTrack_addSubscribeNamespace (q : Quicr) (h : SubscribeTrackHandler)
    (handler : HandlerRef) (prop : PropertyType) :
    SameTrack h (h.addSubscribeNamespace q handler prop) := by
  unfold addSubscribeNamespace
  dsimp only
  split
  · exact .refl h
  · exact ⟨rfl, rfl, rfl, fun _ => rfl⟩

/-- The subscribers are added one after the other. -/
theorem sameTrack_addSubscribers (h : SubscribeTrackHandler)
    (subs : List (UInt64 × ConnectionHandle)) :
    SameTrack h (subs.foldl (fun h entry => h.addSubscriber entry.2) h) ∧
      (subs.foldl (fun h entry => h.addSubscriber entry.2) h).subNamespaces = h.subNamespaces := by
  induction subs generalizing h with
  | nil => exact ⟨.refl h, rfl⟩
  | cons entry subs ih =>
    obtain ⟨hsame, hsubs⟩ := ih (h.addSubscriber entry.2)
    refine ⟨(sameTrack_addSubscriber h entry.2).trans hsame, hsubs.trans ?_⟩
    unfold addSubscriber
    split <;> rfl

/-- The namespace handlers are added one after the other. -/
def addSubscribeNamespaces (q : Quicr) (h : SubscribeTrackHandler)
    (handlers : List (HandlerRef × PropertyType)) : SubscribeTrackHandler :=
  handlers.foldl (fun h handler => h.addSubscribeNamespace q handler.1 handler.2) h

theorem sameTrack_addSubscribeNamespaces (q : Quicr) (h : SubscribeTrackHandler)
    (handlers : List (HandlerRef × PropertyType)) :
    SameTrack h (h.addSubscribeNamespaces q handlers) := by
  induction handlers generalizing h with
  | nil => exact .refl h
  | cons handler handlers ih =>
    exact (sameTrack_addSubscribeNamespace q h handler.1 handler.2).trans (ih _)

/-- Under each key the first handler stays. -/
theorem get₂?_addSubscribeNamespaces (q : Quicr) (h : SubscribeTrackHandler)
    (handlers : List (HandlerRef × PropertyType)) (hash : UInt64) (conn : ConnectionHandle) :
    (h.addSubscribeNamespaces q handlers).subNamespaces.get₂? hash conn =
      (h.subNamespaces.get₂? hash conn).or
        ((handlers.map Prod.fst).find? fun handler =>
          hash = (q.trackHash ⟨handler.prefixNamespace, []⟩).trackFullnameHash ∧
            conn = handler.connectionId) := by
  induction handlers generalizing h with
  | nil => simp [addSubscribeNamespaces]
  | cons handler handlers ih =>
    have hcons : h.addSubscribeNamespaces q (handler :: handlers) =
        (h.addSubscribeNamespace q handler.1 handler.2).addSubscribeNamespaces q handlers := rfl
    rw [hcons, ih, get₂?_addSubscribeNamespace, List.map_cons, List.find?_cons]
    split
    · rename_i hkey
      rw [decide_eq_true hkey]
      cases h.subNamespaces.get₂? hash conn <;> rfl
    · rename_i hkey
      rw [decide_eq_false hkey]

def removeSubscribeNamespace (q : Quicr) (h : SubscribeTrackHandler) (handler : HandlerRef) :
    SubscribeTrackHandler :=
  { h with
    subNamespaces := h.subNamespaces.erase₂
      (q.trackHash ⟨handler.prefixNamespace, []⟩).trackFullnameHash handler.connectionId }

def hasSubscribers (h : SubscribeTrackHandler) : Bool :=
  !h.subscribers.isEmpty || !h.subNamespaces.isEmpty

/-- The handler is in `sub_namespaces_`. -/
def Has (h : SubscribeTrackHandler) (handler : HandlerRef) : Prop :=
  ∃ hash conn, h.subNamespaces.get₂? hash conn = some handler

/-- A handler is one that was there, or the new one under its own key. -/
theorem mem_addSubscribeNamespace {q : Quicr} {h : SubscribeTrackHandler}
    {handler handler' : HandlerRef} {prop : PropertyType} {hash : UInt64} {conn : ConnectionHandle}
    (hget : (h.addSubscribeNamespace q handler prop).subNamespaces.get₂? hash conn =
      some handler') :
    h.subNamespaces.get₂? hash conn = some handler' ∨ handler' = handler ∧
      hash = (q.trackHash ⟨handler.prefixNamespace, []⟩).trackFullnameHash ∧
        conn = handler.connectionId := by
  rw [get₂?_addSubscribeNamespace] at hget
  split at hget
  · rename_i hkey
    cases hold : h.subNamespaces.get₂? hash conn with
    | none =>
      rw [hold, Option.getD_none, Option.some.injEq] at hget
      exact .inr ⟨hget.symm, hkey⟩
    | some old =>
      rw [hold, Option.getD_some] at hget
      exact .inl hget
  · exact .inl hget

end SubscribeTrackHandler

namespace ClientManager

/-- The ranking that the updates of a track are sent to: `track_ranking_.lock()`. -/
def lockRanking (m : ClientManager) (h : SubscribeTrackHandler) : Option SharedRanking :=
  h.trackRanking.bind fun ref => m.trackRankings[ref.nsHash]?.filter fun rk => rk.id = ref.id

/-- `GetPropertyType` of a handler. -/
def propertyType (live : ExtTreeMap HandlerId PublishNamespaceHandler) (handler : HandlerRef) :
    PropertyType :=
  (live[handler.id]?.bind PublishNamespaceHandler.propertyType).getD 0

def publishTrack (published : TrackAlias → PublishStatus) (tick : UInt64) (trackAlias : TrackAlias)
    (m : ClientManager) (handler : HandlerRef) : ClientManager :=
  { m with live := m.live.modify handler.id (·.publishTrack published tick trackAlias) }

/-- Tracks are published one after the other. -/
def publishAll (published : TrackAlias → PublishStatus) (tick : UInt64) (m : ClientManager)
    (tracks : List (TrackAlias × HandlerRef)) : ClientManager :=
  tracks.foldl (fun m track => m.publishTrack published tick track.1 track.2) m

section

variable {published : TrackAlias → PublishStatus} {tick : UInt64} {m : ClientManager}

/-- Only the namespace handlers change. -/
theorem publishAll_eq (tracks : List (TrackAlias × HandlerRef)) :
    m.publishAll published tick tracks =
      { m with live := (m.publishAll published tick tracks).live } := by
  induction tracks generalizing m with
  | nil => rfl
  | cons track tracks ih =>
    have hcons : m.publishAll published tick (track :: tracks) =
        (m.publishTrack published tick track.1 track.2).publishAll published tick tracks := rfl
    rw [hcons, ih]
    rfl

/-- Nothing but the namespace handlers is looked at. -/
theorem live_publishAll_congr {m' : ClientManager} (h : m.live = m'.live)
    (tracks : List (TrackAlias × HandlerRef)) :
    (m.publishAll published tick tracks).live = (m'.publishAll published tick tracks).live := by
  induction tracks generalizing m m' with
  | nil => exact h
  | cons track tracks ih =>
    refine ih ?_
    show m.live.modify _ _ = m'.live.modify _ _
    rw [h]

theorem live_publishTrack (trackAlias : TrackAlias) (handler : HandlerRef) {id : HandlerId}
    {object : PublishNamespaceHandler} (h : m.live[id]? = some object) :
    (m.publishTrack published tick trackAlias handler).live[id]? =
      some (if handler.id = id then object.publishTrack published tick trackAlias else object) := by
  show (m.live.modify handler.id _)[id]? = _
  rw [ExtTreeMap.getElem?_modify]
  simp only [LawfulEqCmp.compare_eq_iff_eq]
  split
  · rename_i hid
    rw [hid, h, Option.map_some]
  · exact h

theorem contains_publishedTracks {object : PublishNamespaceHandler} {trackAlias ta : TrackAlias} :
    (object.publishTrack published tick trackAlias).publishedTracks.contains ta = true ↔
      object.publishedTracks.contains ta = true ∨ ta = trackAlias := by
  show (object.publishedTracks.insertIfNew _ _).contains ta = true ↔ _
  rw [ExtTreeMap.contains_insertIfNew, Bool.or_eq_true, beq_iff_eq,
    LawfulEqCmp.compare_eq_iff_eq, or_comm, eq_comm (a := trackAlias)]

theorem live_publishAll (tracks : List (TrackAlias × HandlerRef)) {id : HandlerId}
    {object : PublishNamespaceHandler} (h : m.live[id]? = some object) :
    ∃ object', (m.publishAll published tick tracks).live[id]? = some object' ∧
      object'.nsHash = object.nsHash ∧ object'.connectionId = object.connectionId ∧
      ∀ ta, object'.publishedTracks.contains ta = true ↔
        object.publishedTracks.contains ta = true ∨
          ∃ handler, (ta, handler) ∈ tracks ∧ handler.id = id := by
  induction tracks generalizing m object with
  | nil => exact ⟨object, h, rfl, rfl, fun ta => by simp⟩
  | cons track tracks ih =>
    obtain ⟨object', hlive, hhash, hconn, htracks⟩ :=
      ih (live_publishTrack track.1 track.2 h)
    refine ⟨object', hlive, ?_, ?_, fun ta => ?_⟩
    · rw [hhash]
      split <;> rfl
    · rw [hconn]
      split <;> rfl
    · obtain ⟨trackAlias, handler⟩ := track
      rw [htracks]
      by_cases hid : handler.id = id
      · rw [if_pos hid, contains_publishedTracks]
        grind
      · rw [if_neg hid]
        grind

end

/-! ### Publications -/

/-- The handlers that a new track is published to. -/
def publishTargets (q : Quicr) (m : ClientManager) (conn : ConnectionHandle)
    (nameSpace : TrackNamespace) : List HandlerRef :=
  (m.subscribesNamespaces.toList.filter fun row => q.isPrefixOf row.1 nameSpace).flatMap fun row =>
    (row.2.toList.map Prod.snd).filter fun handler =>
      m.allowSelf || handler.connectionId ≠ conn

/-- The rows of the subscribers that a new track's handler gets. -/
def matchingRows (q : Quicr) (m : ClientManager) (nameSpace : TrackNamespace) :
    List (TrackNamespace × ExtTreeMap ConnectionHandle HandlerRef) :=
  m.subscribesNamespaces.toList.filter fun row =>
    q.hasSamePrefix row.1 nameSpace && !row.2.isEmpty

/-- The first of the prefixes that is not empty. -/
def firstPrefix (rows : List (TrackNamespace × ExtTreeMap ConnectionHandle HandlerRef)) :
    TrackNamespace :=
  rows.foldl (fun subNs row => if subNs.isEmpty then row.1 else subNs) []

/-- The handler of a new track, with the subscribers and the ranking that there are for it. -/
def newTrackHandler (q : Quicr) (m : ClientManager) (full : FullTrackName) :
    SubscribeTrackHandler :=
  let hash := (q.trackHash full).trackFullnameHash
  let subs := m.subscribes.toList.filter fun entry => entry.1 = hash
  let rows := m.matchingRows q full.nameSpace
  let h : SubscribeTrackHandler := { fullTrackName := full, isPublisherInitiated := true }
  let h := subs.foldl (fun h entry => h.addSubscriber entry.2) h
  let h := rows.foldl (fun h row => row.2.toList.foldl (fun h entry =>
    h.addSubscribeNamespace q entry.2 (propertyType m.live entry.2)) h) h
  let nsHash := (q.trackHash ⟨firstPrefix rows, []⟩).trackNamespaceHash
  let h :=
    match m.trackRankings[nsHash]? with
    | none => h
    | some rk => { h with trackRanking := some ⟨nsHash, rk.id⟩ }
  if m.peerSubscribers.contains hash || !subs.isEmpty || !rows.isEmpty then h else h.pause

def publishReceived (q : Quicr) (published : TrackAlias → PublishStatus) (m : ClientManager)
    (tick : UInt64) (conn : ConnectionHandle) (full : FullTrackName) : ClientManager :=
  let hash := (q.trackHash full).trackFullnameHash
  let m := (m.publishTargets q conn full.nameSpace).foldl (publishTrack published tick hash) m
  { m with pubSubscribes := m.pubSubscribes.insert (hash, conn) (m.newTrackHandler q full) }

/-- The handlers that a new track's handler gets, in their order. -/
def matchingHandlers (q : Quicr) (m : ClientManager) (nameSpace : TrackNamespace) :
    List HandlerRef :=
  (m.matchingRows q nameSpace).flatMap fun row => row.2.toList.map Prod.snd

theorem mem_matchingRows {q : Quicr} {m : ClientManager} {nameSpace : TrackNamespace}
    {row : TrackNamespace × ExtTreeMap ConnectionHandle HandlerRef compare} :
    row ∈ m.matchingRows q nameSpace ↔ m.subscribesNamespaces[row.1]? = some row.2 ∧
      q.hasSamePrefix row.1 nameSpace = true ∧ row.2.isEmpty = false := by
  obtain ⟨nsPrefix, conns⟩ := row
  simp [matchingRows, ExtTreeMap.mem_toList_iff_getElem?_eq_some]

theorem mem_matchingHandlers {q : Quicr} {m : ClientManager} {nameSpace : TrackNamespace}
    {handler : HandlerRef} :
    handler ∈ m.matchingHandlers q nameSpace ↔ ∃ nsPrefix conn,
      m.subscribesNamespaces.get₂? nsPrefix conn = some handler ∧
        q.hasSamePrefix nsPrefix nameSpace = true := by
  simp only [matchingHandlers, List.mem_flatMap, List.mem_map, mem_matchingRows,
    ExtTreeMap.get₂?_eq_some]
  constructor
  · rintro ⟨row, ⟨hrow, hmatch, -⟩, ⟨conn, _⟩, hentry, rfl⟩
    exact ⟨row.1, conn, ⟨row.2, hrow, ExtTreeMap.mem_toList_iff_getElem?_eq_some.mp hentry⟩, hmatch⟩
  · rintro ⟨nsPrefix, conn, ⟨row, hrow, hentry⟩, hmatch⟩
    have hrowNonempty := ExtTreeMap.isEmpty_eq_false_iff_getElem?.mpr ⟨_, _, hentry⟩
    exact ⟨(nsPrefix, row), ⟨hrow, hmatch, hrowNonempty⟩, (conn, handler),
      ExtTreeMap.mem_toList_iff_getElem?_eq_some.mpr hentry, rfl⟩

theorem mem_publishTargets {q : Quicr} {m : ClientManager} {conn : ConnectionHandle}
    {nameSpace : TrackNamespace} {handler : HandlerRef} :
    handler ∈ m.publishTargets q conn nameSpace ↔
      (∃ nsPrefix conn', m.subscribesNamespaces.get₂? nsPrefix conn' = some handler ∧
        q.isPrefixOf nsPrefix nameSpace = true) ∧
      (m.allowSelf = true ∨ handler.connectionId ≠ conn) := by
  simp only [publishTargets, List.mem_flatMap, List.mem_filter, List.mem_map,
    ExtTreeMap.get₂?_eq_some, Bool.or_eq_true, decide_eq_true_eq]
  constructor
  · rintro ⟨row, ⟨hrow, hmatch⟩, ⟨⟨conn', _⟩, hentry, rfl⟩, hself⟩
    exact ⟨⟨row.1, conn', ⟨row.2, ExtTreeMap.mem_toList_iff_getElem?_eq_some.mp hrow,
      ExtTreeMap.mem_toList_iff_getElem?_eq_some.mp hentry⟩, hmatch⟩, hself⟩
  · rintro ⟨⟨nsPrefix, conn', ⟨row, hrow, hentry⟩, hmatch⟩, hself⟩
    exact ⟨(nsPrefix, row), ⟨ExtTreeMap.mem_toList_iff_getElem?_eq_some.mpr hrow, hmatch⟩,
      ⟨(conn', handler), ExtTreeMap.mem_toList_iff_getElem?_eq_some.mpr hentry, rfl⟩, hself⟩

/-- What the handler of a new track is. -/
structure NewTrack (q : Quicr) (m : ClientManager) (full : FullTrackName)
    (h : SubscribeTrackHandler) : Prop where
  fullTrackName : h.fullTrackName = full
  subNamespaces : ∀ hash conn, h.subNamespaces.get₂? hash conn =
    (m.matchingHandlers q full.nameSpace).find? fun handler =>
      hash = (q.trackHash ⟨handler.prefixNamespace, []⟩).trackFullnameHash ∧
        conn = handler.connectionId
  trackRanking : ∀ nsHash,
    nsHash = (q.trackHash ⟨firstPrefix (m.matchingRows q full.nameSpace), []⟩).trackNamespaceHash →
    h.trackRanking = m.trackRankings[nsHash]?.map fun rk => ⟨nsHash, rk.id⟩
  paused : h.paused = false ↔
    m.peerSubscribers.contains (q.trackHash full).trackFullnameHash = true ∨
      (∃ conn, m.subscribes.contains ((q.trackHash full).trackFullnameHash, conn) = true) ∨
      m.matchingRows q full.nameSpace ≠ []

theorem newTrackHandler_spec (q : Quicr) (m : ClientManager) (full : FullTrackName) :
    m.NewTrack q full (m.newTrackHandler q full) := by
  let hash := (q.trackHash full).trackFullnameHash
  let subs := m.subscribes.toList.filter fun entry => entry.1 = hash
  let rows := m.matchingRows q full.nameSpace
  let nsHash := (q.trackHash ⟨firstPrefix rows, []⟩).trackNamespaceHash
  let new : SubscribeTrackHandler := { fullTrackName := full, isPublisherInitiated := true }
  let subscribed := subs.foldl (fun h entry => h.addSubscriber entry.2) new
  let handlers := rows.flatMap fun row =>
    row.2.toList.map fun entry => (entry.2, propertyType m.live entry.2)
  let wired := subscribed.addSubscribeNamespaces q handlers
  have hfold : rows.foldl (fun h row => row.2.toList.foldl (fun h entry =>
      h.addSubscribeNamespace q entry.2 (propertyType m.live entry.2)) h) subscribed = wired := by
    simp only [wired, SubscribeTrackHandler.addSubscribeNamespaces, handlers, List.foldl_flatMap,
      List.foldl_map]
  obtain ⟨hsubscribed, hnone⟩ := new.sameTrack_addSubscribers subs
  have hsame : new.SameTrack wired :=
    hsubscribed.trans (subscribed.sameTrack_addSubscribeNamespaces q handlers)
  let attached : SubscribeTrackHandler :=
    match m.trackRankings[nsHash]? with
    | none => wired
    | some rk => { wired with trackRanking := some ⟨nsHash, rk.id⟩ }
  have hattached : attached.fullTrackName = full ∧ attached.subNamespaces = wired.subNamespaces ∧
      attached.trackRanking = m.trackRankings[nsHash]?.map (fun rk => ⟨nsHash, rk.id⟩) ∧
      attached.paused = false := by
    simp only [attached]
    cases m.trackRankings[nsHash]? with
    | none => exact ⟨hsame.fullTrackName, rfl, hsame.trackRanking, hsame.resumed rfl⟩
    | some rk => exact ⟨hsame.fullTrackName, rfl, rfl, hsame.resumed rfl⟩
  obtain ⟨hname, hsubs, hranking, hresumed⟩ := hattached
  have heq : m.newTrackHandler q full =
      if m.peerSubscribers.contains hash || !subs.isEmpty || !rows.isEmpty then attached
      else attached.pause := by
    rw [newTrackHandler, hfold]
  have hkept : (m.newTrackHandler q full).fullTrackName = attached.fullTrackName ∧
      (m.newTrackHandler q full).subNamespaces = attached.subNamespaces ∧
      (m.newTrackHandler q full).trackRanking = attached.trackRanking := by
    rw [heq]
    split <;> exact ⟨rfl, rfl, rfl⟩
  refine ⟨hkept.1.trans hname, fun k c => ?_, fun k hk => ?_, ?_⟩
  · have hrefs : handlers.map Prod.fst = m.matchingHandlers q full.nameSpace := by
      simp only [handlers, matchingHandlers, List.map_flatMap, List.map_map, rows]
      rfl
    rw [hkept.2.1, hsubs, SubscribeTrackHandler.get₂?_addSubscribeNamespaces, hnone, hrefs]
    simp [new]
  · rw [hk, hkept.2.2, hranking]
  · have hsubsEmpty : subs.isEmpty = false ↔ ∃ conn, m.subscribes.contains (hash, conn) = true := by
      rw [List.isEmpty_eq_false_iff_exists_mem]
      constructor
      · rintro ⟨⟨hash', conn⟩, hmem⟩
        obtain ⟨hin, heq⟩ := List.mem_filter.mp hmem
        obtain rfl : hash' = hash := of_decide_eq_true heq
        exact ⟨conn, ExtTreeSet.mem_toList.mp hin⟩
      · rintro ⟨conn, hin⟩
        exact ⟨(hash, conn), List.mem_filter.mpr ⟨ExtTreeSet.mem_toList.mpr hin, by simp⟩⟩
    have hrowsEmpty : rows.isEmpty = false ↔ m.matchingRows q full.nameSpace ≠ [] := by
      rw [← Bool.not_eq_true, List.isEmpty_iff]
    rw [heq, ← hrowsEmpty, ← hsubsEmpty]
    cases m.peerSubscribers.contains hash <;> cases subs.isEmpty <;> cases rows.isEmpty <;>
      simp [hresumed, SubscribeTrackHandler.pause]

theorem publishReceived_eq (q : Quicr) (published : TrackAlias → PublishStatus)
    (m : ClientManager) (tick : UInt64) (conn : ConnectionHandle) (full : FullTrackName) :
    ∃ h, m.NewTrack q full h ∧ m.publishReceived q published tick conn full =
      { m with
        live := (m.publishAll published tick ((m.publishTargets q conn full.nameSpace).map
          ((q.trackHash full).trackFullnameHash, ·))).live
        pubSubscribes :=
          m.pubSubscribes.insert ((q.trackHash full).trackFullnameHash, conn) h } := by
  have hlive : (m.publishTargets q conn full.nameSpace).foldl
      (publishTrack published tick (q.trackHash full).trackFullnameHash) m =
      { m with live := (m.publishAll published tick
          ((m.publishTargets q conn full.nameSpace).map
            ((q.trackHash full).trackFullnameHash, ·))).live } := by
    rw [← publishAll_eq, publishAll, List.foldl_map]
  unfold publishReceived
  dsimp only
  rw [hlive]
  -- the handler does not depend on the tracks of the namespace handlers
  refine ⟨newTrackHandler q _ full, ?_, rfl⟩
  obtain ⟨hname, hsubs, hranking, hpaused⟩ := newTrackHandler_spec q _ full
  exact ⟨hname, hsubs, hranking, hpaused⟩

/-! ### Subscribed namespaces -/

/-- The track is matched with a namespace that the connection subscribes to. -/
def matchesTrack (q : Quicr) (m : ClientManager) (conn : ConnectionHandle)
    (prefixNamespace : TrackNamespace) (key : UInt64 × ConnectionHandle)
    (h : SubscribeTrackHandler) : Bool :=
  (m.allowSelf || key.2 ≠ conn) && q.isPrefixOf prefixNamespace h.fullTrackName.nameSpace

/-- The ranking of the namespace, which is made when there is none. -/
def tryRanking (m : ClientManager) (nsHash : UInt64) : SharedRanking × ClientManager :=
  match m.trackRankings[nsHash]? with
  | some rk => (rk, m)
  | none => ({ id := m.rankings }, { m with rankings := m.rankings + 1 })

def subscribeNamespaceReceived (q : Quicr) (published : TrackAlias → PublishStatus)
    (m : ClientManager) (tick : UInt64) (conn : ConnectionHandle)
    (prefixNamespace : TrackNamespace) (filter : Option TrackFilter) : ClientManager :=
  let nsHash := (q.trackHash ⟨prefixNamespace, []⟩).trackNamespaceHash
  let new : HandlerRef := ⟨m.handlers, prefixNamespace, conn⟩
  -- A handler that the connection has for the namespace stays; the new one is registered all the
  -- same.
  let row := (m.subscribesNamespaces.getD prefixNamespace ∅).insertIfNew conn new
  let handler := row.getD conn new
  let matched := m.matchesTrack q conn prefixNamespace
  let m := { m with
    handlers := m.handlers + 1
    live := m.live.insert new.id (.create nsHash conn filter)
    subscribesNamespaces := m.subscribesNamespaces.insert prefixNamespace row }
  let (rk, m) := m.tryRanking nsHash
  let rk := (rk.raiseInactiveAge filter).addNamespaceHandler m.live new.id
  let m := { m with trackRankings := m.trackRankings.insert nsHash rk }
  let tracks := m.pubSubscribes.toList.filter fun entry => matched entry.1 entry.2
  let prop := propertyType m.live handler
  let m := { m with
    pubSubscribes := m.pubSubscribes.map fun key h =>
      if matched key h then
        { h.addSubscribeNamespace q handler prop with trackRanking := some ⟨nsHash, rk.id⟩ }
      else h }
  tracks.foldl (fun m entry =>
    m.publishTrack published tick (q.trackHash entry.2.fullTrackName).trackFullnameHash handler) m

/-- The ranking that the connection's handler is registered with. -/
def joinedRanking (q : Quicr) (m : ClientManager) (conn : ConnectionHandle)
    (prefixNamespace : TrackNamespace) (filter : Option TrackFilter) : SharedRanking :=
  let nsHash := (q.trackHash ⟨prefixNamespace, []⟩).trackNamespaceHash
  (((m.trackRankings[nsHash]?).getD { id := m.rankings }).raiseInactiveAge filter).addNamespaceHandler
    (m.live.insert m.handlers (.create nsHash conn filter)) m.handlers

/-- The handler that the tracks get. -/
def joinedHandler (m : ClientManager) (conn : ConnectionHandle)
    (prefixNamespace : TrackNamespace) : HandlerRef :=
  (m.subscribesNamespaces.get₂? prefixNamespace conn).getD ⟨m.handlers, prefixNamespace, conn⟩

/-- The tracks that are published to it. -/
def joinedTracks (q : Quicr) (m : ClientManager) (conn : ConnectionHandle)
    (prefixNamespace : TrackNamespace) : List (TrackAlias × HandlerRef) :=
  (m.pubSubscribes.toList.filter fun entry =>
    m.matchesTrack q conn prefixNamespace entry.1 entry.2).map fun entry =>
      ((q.trackHash entry.2.fullTrackName).trackFullnameHash, m.joinedHandler conn prefixNamespace)

theorem subscribeNamespaceReceived_eq (q : Quicr) (published : TrackAlias → PublishStatus)
    (m : ClientManager) (tick : UInt64) (conn : ConnectionHandle)
    (prefixNamespace : TrackNamespace) (filter : Option TrackFilter) :
    ∃ (prop : PropertyType) (rankings : ℕ),
      m.subscribeNamespaceReceived q published tick conn prefixNamespace filter =
      { m with
        handlers := m.handlers + 1
        rankings
        subscribesNamespaces :=
          m.subscribesNamespaces.insertIfNew₂ prefixNamespace conn
            ⟨m.handlers, prefixNamespace, conn⟩
        trackRankings :=
          m.trackRankings.insert (q.trackHash ⟨prefixNamespace, []⟩).trackNamespaceHash
            (m.joinedRanking q conn prefixNamespace filter)
        pubSubscribes := m.pubSubscribes.map fun key h =>
          if m.matchesTrack q conn prefixNamespace key h then
            { h.addSubscribeNamespace q (m.joinedHandler conn prefixNamespace) prop with
              trackRanking := some ⟨(q.trackHash ⟨prefixNamespace, []⟩).trackNamespaceHash,
                (m.joinedRanking q conn prefixNamespace filter).id⟩ }
          else h
        live := (publishAll published tick
          { m with
            live := m.live.insert m.handlers
              (.create (q.trackHash ⟨prefixNamespace, []⟩).trackNamespaceHash conn filter) }
          (m.joinedTracks q conn prefixNamespace)).live } := by
  have hhandler : ((m.subscribesNamespaces.getD prefixNamespace ∅).insertIfNew conn
      ⟨m.handlers, prefixNamespace, conn⟩).getD conn ⟨m.handlers, prefixNamespace, conn⟩ =
      m.joinedHandler conn prefixNamespace := by
    rw [joinedHandler, ExtTreeMap.getD_eq_getD_getElem?, ExtTreeMap.getElem?_insertIfNew_getD,
      if_pos rfl, Option.getD_some, ExtTreeMap.getD_eq_getD_getElem?, ExtTreeMap.get₂?]
    cases m.subscribesNamespaces[prefixNamespace]? <;> simp
  let joined : ClientManager := { m with
    live := m.live.insert m.handlers
      (.create (q.trackHash ⟨prefixNamespace, []⟩).trackNamespaceHash conn filter) }
  have htracks : ∀ m' : ClientManager, m'.live = joined.live →
      (m.pubSubscribes.toList.filter fun entry =>
        m.matchesTrack q conn prefixNamespace entry.1 entry.2).foldl (fun m' entry =>
          m'.publishTrack published tick (q.trackHash entry.2.fullTrackName).trackFullnameHash
            (m.joinedHandler conn prefixNamespace)) m' =
      { m' with
        live := (joined.publishAll published tick (m.joinedTracks q conn prefixNamespace)).live } := by
    intro m' hlive
    rw [← live_publishAll_congr hlive, ← publishAll_eq, publishAll, joinedTracks, List.foldl_map]
  unfold subscribeNamespaceReceived
  dsimp only
  rw [hhandler]
  unfold tryRanking joinedRanking
  dsimp only
  cases hrk : m.trackRankings[(q.trackHash ⟨prefixNamespace, []⟩).trackNamespaceHash]? with
  | none =>
    exact ⟨propertyType joined.live (m.joinedHandler conn prefixNamespace), m.rankings + 1,
      htracks _ rfl⟩
  | some rk =>
    exact ⟨propertyType joined.live (m.joinedHandler conn prefixNamespace), m.rankings,
      htracks _ rfl⟩

/-- Handlers of the track that are left without subscribers are paused or dropped. -/
def removeOrPausePublisherSubscribe (m : ClientManager) (hash : UInt64) : ClientManager :=
  if m.peerSubscribers.contains hash then m
  else
    { m with
      pubSubscribes := m.pubSubscribes.filterMap fun key h =>
        if key.1 = hash ∧ h.hasSubscribers = false then
          if h.isPublisherInitiated then some h.pause else none
        else some h }

/-- One track of the loop in `UnsubscribeNamespaceReceived`; one that a step before has dropped is
passed over.  `none` where there is no ranking to call. -/
def leaveNamespace (q : Quicr) (conn : ConnectionHandle) (prefixNamespace : TrackNamespace)
    (handler : HandlerRef) (m : ClientManager) (key : UInt64 × ConnectionHandle) :
    Option ClientManager :=
  match m.pubSubscribes[key]? with
  | none => some m
  | some h =>
    if !m.allowSelf && key.2 = conn then some m
    else if q.hasSamePrefix prefixNamespace h.fullTrackName.nameSpace then
      let nsHash := (q.trackHash ⟨prefixNamespace, []⟩).trackNamespaceHash
      m.trackRankings[nsHash]?.map fun rk =>
        removeOrPausePublisherSubscribe
          { m with
            pubSubscribes := m.pubSubscribes.insert key (h.removeSubscribeNamespace q handler)
            trackRankings :=
              m.trackRankings.insert nsHash (rk.removeNamespaceHandler m.live handler.id) }
          key.1
    else some m

def unsubscribeNamespaceReceived (q : Quicr) (m : ClientManager) (conn : ConnectionHandle)
    (prefixNamespace : TrackNamespace) : Option ClientManager :=
  match m.subscribesNamespaces[prefixNamespace]? with
  | none => some m
  | some row =>
    match row[conn]? with
    | none =>
      some (if row.isEmpty then
        { m with subscribesNamespaces := m.subscribesNamespaces.erase prefixNamespace }
      else m)
    | some handler =>
      (m.pubSubscribes.keys.foldlM (leaveNamespace q conn prefixNamespace handler) m).map fun m =>
        if (row.erase conn).isEmpty then
          { m with
            subscribesNamespaces := m.subscribesNamespaces.erase prefixNamespace
            trackRankings :=
              m.trackRankings.erase (q.trackHash ⟨prefixNamespace, []⟩).trackNamespaceHash }
        else
          { m with
            subscribesNamespaces :=
              m.subscribesNamespaces.insert prefixNamespace (row.erase conn) }

end ClientManager

/-! ### Events -/

/-- What comes to the manager, with the tick at that time. -/
inductive Arrival where
  | publish (tick : UInt64) (conn : ConnectionHandle) (full : FullTrackName)
  | subscribeNamespace (tick : UInt64) (conn : ConnectionHandle)
      (prefixNamespace : TrackNamespace) (filter : Option TrackFilter)
  deriving DecidableEq, Repr

inductive NamespaceEvent where
  | arrival (a : Arrival)
  | unsubscribeNamespace (conn : ConnectionHandle) (prefixNamespace : TrackNamespace)
  deriving DecidableEq, Repr

namespace ClientManager

def arrive (q : Quicr) (published : TrackAlias → PublishStatus) (m : ClientManager) :
    Arrival → ClientManager
  | .publish tick conn full => m.publishReceived q published tick conn full
  | .subscribeNamespace tick conn prefixNamespace filter =>
    m.subscribeNamespaceReceived q published tick conn prefixNamespace filter

def step (q : Quicr) (published : TrackAlias → PublishStatus) (m : ClientManager) :
    NamespaceEvent → Option ClientManager
  | .arrival a => some (m.arrive q published a)
  | .unsubscribeNamespace conn prefixNamespace =>
    m.unsubscribeNamespaceReceived q conn prefixNamespace

/-- A manager without publications and subscribed namespaces. -/
def start (allowSelf : Bool) (peerSubscribers : ExtTreeSet UInt64)
    (subscribes : ExtTreeSet (UInt64 × ConnectionHandle)) : ClientManager :=
  { allowSelf, peerSubscribers, subscribes }

/-! ### The subscribed handlers -/

def Subscribed (m : ClientManager) (conn : ConnectionHandle) (nsPrefix : TrackNamespace) : Prop :=
  ∃ handler, m.subscribesNamespaces.get₂? nsPrefix conn = some handler

/-- The subscribed handlers are alive, each is its own object, and it knows its prefix and
connection. -/
structure HandlersMade (q : Quicr) (m : ClientManager) : Prop where
  made : ∀ nsPrefix conn handler, m.subscribesNamespaces.get₂? nsPrefix conn = some handler →
    handler.prefixNamespace = nsPrefix ∧ handler.connectionId = conn ∧ handler.id < m.handlers
  object : ∀ nsPrefix conn handler, m.subscribesNamespaces.get₂? nsPrefix conn = some handler →
    ∃ object, m.live[handler.id]? = some object ∧
      object.nsHash = (q.trackHash ⟨nsPrefix, []⟩).trackNamespaceHash ∧ object.connectionId = conn
  distinct : ∀ nsPrefix conn handler nsPrefix' conn' handler',
    m.subscribesNamespaces.get₂? nsPrefix conn = some handler →
    m.subscribesNamespaces.get₂? nsPrefix' conn' = some handler' →
    handler.id = handler'.id → handler = handler'

variable {q : Quicr} {published : TrackAlias → PublishStatus} {m : ClientManager}

theorem handlersMade_start (allowSelf : Bool) (peerSubscribers : ExtTreeSet UInt64)
    (subscribes : ExtTreeSet (UInt64 × ConnectionHandle)) :
    HandlersMade q (start allowSelf peerSubscribers subscribes) := by
  constructor <;> simp [start]

theorem HandlersMade.publishReceived (h : HandlersMade q m) (tick : UInt64)
    (conn : ConnectionHandle) (full : FullTrackName) :
    HandlersMade q (m.publishReceived q published tick conn full) := by
  obtain ⟨new, -, heq⟩ := publishReceived_eq q published m tick conn full
  rw [heq]
  refine ⟨h.made, fun nsPrefix conn' handler hget => ?_, h.distinct⟩
  obtain ⟨object, hlive, hhash, hconn⟩ := h.object nsPrefix conn' handler hget
  obtain ⟨object', hlive', hhash', hconn', -⟩ := live_publishAll _ hlive
  exact ⟨object', hlive', hhash'.trans hhash, hconn'.trans hconn⟩

/-- What the table has after a subscription. -/
theorem get₂?_joined (m : ClientManager) (conn conn' : ConnectionHandle)
    (nsPrefix nsPrefix' : TrackNamespace) :
    (m.subscribesNamespaces.insertIfNew₂ nsPrefix conn ⟨m.handlers, nsPrefix, conn⟩).get₂?
      nsPrefix' conn' =
      if nsPrefix' = nsPrefix ∧ conn' = conn then some (m.joinedHandler conn nsPrefix)
      else m.subscribesNamespaces.get₂? nsPrefix' conn' :=
  ExtTreeMap.get₂?_insertIfNew₂ ..

/-- A handler of the table is one that was there, or the new one. -/
theorem mem_joined {conn conn' : ConnectionHandle} {nsPrefix nsPrefix' : TrackNamespace}
    {handler : HandlerRef}
    (h : (m.subscribesNamespaces.insertIfNew₂ nsPrefix conn ⟨m.handlers, nsPrefix, conn⟩).get₂?
      nsPrefix' conn' = some handler) :
    m.subscribesNamespaces.get₂? nsPrefix' conn' = some handler ∨
      m.subscribesNamespaces.get₂? nsPrefix conn = none ∧ nsPrefix' = nsPrefix ∧ conn' = conn ∧
        handler = ⟨m.handlers, nsPrefix, conn⟩ := by
  rw [get₂?_joined] at h
  split at h
  · rename_i hkey
    obtain ⟨rfl, rfl⟩ := hkey
    rw [joinedHandler] at h
    cases hold : m.subscribesNamespaces.get₂? nsPrefix' conn' with
    | none =>
      rw [hold] at h
      exact .inr ⟨rfl, rfl, rfl, (Option.some.inj h).symm⟩
    | some handler' =>
      rw [hold] at h
      exact .inl h
  · exact .inl h

theorem HandlersMade.subscribeNamespaceReceived (h : HandlersMade q m) (tick : UInt64)
    (conn : ConnectionHandle) (nsPrefix : TrackNamespace) (filter : Option TrackFilter) :
    HandlersMade q
      (m.subscribeNamespaceReceived q published tick conn nsPrefix filter) := by
  obtain ⟨prop, rankings, heq⟩ :=
    subscribeNamespaceReceived_eq q published m tick conn nsPrefix filter
  rw [heq]
  refine ⟨fun nsPrefix' conn' handler hget => ?_, fun nsPrefix' conn' handler hget => ?_,
    fun nsPrefix₁ conn₁ handler₁ nsPrefix₂ conn₂ handler₂ hget₁ hget₂ hid => ?_⟩
  · obtain hold | ⟨-, rfl, rfl, rfl⟩ := mem_joined hget
    · obtain ⟨hnsPrefix, hconn, hlt⟩ := h.made _ _ _ hold
      exact ⟨hnsPrefix, hconn, Nat.lt_succ_of_lt hlt⟩
    · exact ⟨rfl, rfl, Nat.lt_succ_self _⟩
  · obtain ⟨object, hlive, hhash, hconn⟩ : ∃ object, (m.live.insert m.handlers
        (.create (q.trackHash ⟨nsPrefix, []⟩).trackNamespaceHash conn filter))[handler.id]? =
          some object ∧ object.nsHash = (q.trackHash ⟨nsPrefix', []⟩).trackNamespaceHash ∧
        object.connectionId = conn' := by
      obtain hold | ⟨-, rfl, rfl, rfl⟩ := mem_joined hget
      · obtain ⟨object, hlive, hobject⟩ := h.object _ _ _ hold
        have hlt := (h.made _ _ _ hold).2.2
        refine ⟨object, ?_, hobject⟩
        rw [ExtTreeMap.getElem?_insert_ite, if_neg hlt.ne, hlive]
      · exact ⟨_, ExtTreeMap.getElem?_insert_self, by simp, by simp⟩
    obtain ⟨object', hlive', hhash', hconn', -⟩ :=
      live_publishAll (m := { m with live := m.live.insert m.handlers _ }) _ hlive
    exact ⟨object', hlive', hhash'.trans hhash, hconn'.trans hconn⟩
  · obtain hold₁ | ⟨-, rfl, rfl, rfl⟩ := mem_joined hget₁ <;>
      obtain hold₂ | ⟨-, rfl, rfl, rfl⟩ := mem_joined hget₂
    · exact h.distinct _ _ _ _ _ _ hold₁ hold₂ hid
    · exact absurd hid (h.made _ _ _ hold₁).2.2.ne
    · exact absurd hid.symm (h.made _ _ _ hold₂).2.2.ne
    · rfl

theorem exists_firstPrefix
    {rows : List (TrackNamespace × ExtTreeMap ConnectionHandle HandlerRef compare)}
    (hne : rows ≠ []) : ∃ row ∈ rows, row.1 = firstPrefix rows := by
  have hkeeps : ∀ (rows' : List (TrackNamespace × ExtTreeMap ConnectionHandle HandlerRef compare))
      (subNs : TrackNamespace),
      rows'.foldl (fun subNs row => if subNs.isEmpty then row.1 else subNs) subNs = subNs ∨
        ∃ row ∈ rows', row.1 =
          rows'.foldl (fun subNs row => if subNs.isEmpty then row.1 else subNs) subNs := by
    intro rows'
    induction rows' with
    | nil => exact fun subNs => .inl rfl
    | cons row rows' ih =>
      intro subNs
      rw [List.foldl_cons]
      obtain hsame | ⟨row', hrow', heq⟩ := ih (if subNs.isEmpty then row.1 else subNs)
      · rw [hsame]
        split
        · exact .inr ⟨row, List.mem_cons_self, rfl⟩
        · exact .inl rfl
      · exact .inr ⟨row', List.mem_cons_of_mem _ hrow', heq⟩
  cases rows with
  | nil => exact absurd rfl hne
  | cons row rows =>
    rw [firstPrefix, List.foldl_cons, if_pos List.isEmpty_nil]
    obtain hsame | ⟨row', hrow', heq⟩ := hkeeps rows row.1
    · exact ⟨row, List.mem_cons_self, hsame.symm⟩
    · exact ⟨row', List.mem_cons_of_mem _ hrow', heq⟩

/-- A handler that a new track gets is the one that is subscribed. -/
theorem NewTrack.of_get₂? {full : FullTrackName} {new : SubscribeTrackHandler}
    (hnew : m.NewTrack q full new) (hmade : HandlersMade q m) {hash : UInt64}
    {conn : ConnectionHandle} {handler : HandlerRef}
    (hget : new.subNamespaces.get₂? hash conn = some handler) :
    (hash = (q.trackHash ⟨handler.prefixNamespace, []⟩).trackFullnameHash ∧
        conn = handler.connectionId) ∧
      m.subscribesNamespaces.get₂? handler.prefixNamespace handler.connectionId = some handler ∧
      q.hasSamePrefix handler.prefixNamespace full.nameSpace = true := by
  rw [hnew.subNamespaces] at hget
  have hkey := List.find?_some hget
  rw [decide_eq_true_eq] at hkey
  obtain ⟨nsPrefix, conn', hsubscribed, hmatch⟩ :=
    mem_matchingHandlers.mp (List.mem_of_find?_eq_some hget)
  obtain ⟨rfl, rfl, -⟩ := hmade.made _ _ _ hsubscribed
  exact ⟨hkey, hsubscribed, hmatch⟩

/-- The row of a subscribed handler. -/
theorem exists_matchingRow {nsPrefix nameSpace : TrackNamespace} {conn : ConnectionHandle}
    {handler : HandlerRef} (h : m.subscribesNamespaces.get₂? nsPrefix conn = some handler)
    (hmatch : q.hasSamePrefix nsPrefix nameSpace = true) :
    ∃ row ∈ m.matchingRows q nameSpace, row.1 = nsPrefix := by
  obtain ⟨row, hrow, hentry⟩ := ExtTreeMap.get₂?_eq_some.mp h
  have hne := ExtTreeMap.isEmpty_eq_false_iff_getElem?.mpr ⟨conn, handler, hentry⟩
  exact ⟨(nsPrefix, row), mem_matchingRows.mpr ⟨hrow, hmatch, hne⟩, rfl⟩

theorem id_joinedRanking {conn : ConnectionHandle} {nsPrefix : TrackNamespace}
    {filter : Option TrackFilter} {rk : SharedRanking}
    (h : m.trackRankings[(q.trackHash ⟨nsPrefix, []⟩).trackNamespaceHash]? = some rk) :
    (m.joinedRanking q conn nsPrefix filter).id = rk.id := by
  rw [joinedRanking, h]
  exact rk.raiseInactiveAge_id filter

theorem subscribed_joined {conn conn' : ConnectionHandle} {nsPrefix nsPrefix' : TrackNamespace}
    {handler : HandlerRef} (h : m.subscribesNamespaces.get₂? nsPrefix' conn' = some handler) :
    (m.subscribesNamespaces.insertIfNew₂ nsPrefix conn ⟨m.handlers, nsPrefix, conn⟩).get₂?
      nsPrefix' conn' = some handler := by
  rw [get₂?_joined]
  split
  · rename_i hkey
    rw [joinedHandler, ← hkey.1, ← hkey.2, h]
    rfl
  · exact h

end ClientManager

end Laps.Ranking
