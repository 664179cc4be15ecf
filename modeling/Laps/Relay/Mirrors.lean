import Laps.Lib.Mirror
import Laps.Peering.Announces
import Laps.Relay.Closes
import Laps.Relay.FanOut

/-! Whether the relay's own announcements show what its clients publish.  A publication is announced
when it comes and withdrawn when it ends, whoever else has the same one, and the end of a connection
withdraws nothing. -/

namespace Laps.Relay

open Std Client Peering State

/-! ### Publications -/

/-- The handle of a client: 0 is the peer manager. -/
abbrev ClientHandle := {conn : ConnectionHandle // conn ≠ 0}

/-- A track or a namespace. -/
inductive Publication where
  | track (full : FullTrackName)
  | nameSpace (nameSpace : TrackNamespace)

namespace Publication

def hash (q : Quicr) : Publication → UInt64
  | track full => (q.trackHash full).trackFullnameHash
  | nameSpace ns => (q.trackHash ⟨ns, []⟩).trackFullnameHash

/-- What a relay announces for it. -/
def info (q : Quicr) (node : NodeIdValueType) : Publication → AnnounceInfo
  | track full =>
    { sourceNodeId := node, nameSpace := full.nameSpace, name := full.name
      fullnameHash := (q.trackHash full).trackFullnameHash, flags := 0 }
  | nameSpace ns =>
    { sourceNodeId := node, nameSpace := ns, name := []
      fullnameHash := (q.trackHash ⟨ns, []⟩).trackFullnameHash, flags := 1 }

theorem info_injective (q : Quicr) (node : NodeIdValueType) : Function.Injective (info q node) := by
  intro x y heq
  cases x with
  | track full =>
    cases y with
    | track full' =>
      have hns : full.nameSpace = full'.nameSpace := congrArg AnnounceInfo.nameSpace heq
      have hname : full.name = full'.name := congrArg AnnounceInfo.name heq
      cases full
      cases full'
      cases hns
      cases hname
      rfl
    | nameSpace ns => cases congrArg AnnounceInfo.flags heq
  | nameSpace ns =>
    cases y with
    | track full => cases congrArg AnnounceInfo.flags heq
    | nameSpace ns' => rw [show ns = ns' from congrArg AnnounceInfo.nameSpace heq]

end Publication

/-- Some client has a handler that it has made for the track, or has announced the namespace. -/
def Published (q : Quicr) (st : State) : Publication → Prop
  | .track full => ∃ (conn : ClientHandle) (h : SubscribeTrackHandler),
    st.pubSubscribes[((q.trackHash full).trackFullnameHash, conn.1)]? = some h ∧
      h.isPublisherInitiated = true ∧ h.fullTrackName = full
  | .nameSpace ns => ∃ conn : ClientHandle, st.pubNamespaceActive.contains (ns, conn.1) = true

/-- The announcements that have this relay as their source. -/
def ownAnnounces (r : Relay) (hash : UInt64) : Option AnnounceInfo :=
  r.infoBase.announces.get₂? hash r.nodeId

/-- A track or a namespace is announced if and only if some client publishes it. -/
def MirrorsPublishers (q : Quicr) (r : Relay) : Prop :=
  Mirror.Shows (Publication.hash q) (Publication.info q r.nodeId) r.ownAnnounces
    (Published q r.state)

/-! ### Calls of the publishers -/

inductive PublisherCall where
  | publishReceived (conn : ClientHandle) (req : RequestId) (full : FullTrackName)
  | publishDoneReceived (conn : ClientHandle) (req : RequestId)
  | publishNamespaceReceived (conn : ClientHandle) (nameSpace : TrackNamespace) (req : RequestId)
  | publishNamespaceDoneReceived (conn : ClientHandle) (req : RequestId)
  | connectionStatusChanged (conn : ClientHandle) (status : ConnectionStatus)

def publisherCall (q : Quicr) (r : Relay) : PublisherCall → Option Relay
  | .publishReceived conn req full => some (r.publishReceived q conn req full)
  | .publishDoneReceived conn req => some (r.publishDoneReceived q conn req)
  | .publishNamespaceReceived conn nameSpace req =>
    some (r.publishNamespaceReceived q conn nameSpace req)
  | .publishNamespaceDoneReceived conn req => some (r.publishNamespaceDoneReceived q conn req)
  | .connectionStatusChanged conn status => some (r.connectionStatusChanged q conn status)

/-- A relay whose clients only publish. -/
structure OnlyPublishers (q : Quicr) (r : Relay) : Prop where
  own : r.OwnOnly
  subscribes : r.state.subscribes = ∅
  aliases : r.state.subscribeAliasReqId = ∅
  nameSpaces : r.state.subscribesNamespaces = ∅
  active : r.state.subscribeActive = ∅
  tracks : ∀ (key : TrackNamespace × ConnectionHandle) tracks,
    r.state.pubNamespaceActive[key]? = some tracks → tracks = ∅ ∧ key.2 ≠ 0
  handlers : ∀ (key : UInt64 × ConnectionHandle) h, r.state.pubSubscribes[key]? = some h →
    h.isPublisherInitiated = true ∧ (q.trackHash h.fullTrackName).trackFullnameHash = key.1 ∧
      key.2 ≠ 0

section Calls

variable {q : Quicr} {r : Relay} {conn : ClientHandle}

theorem ownAnnounces_announce (hown : r.OwnOnly) (full : FullTrackName) (publishNamespace : Bool)
    (hash : UInt64) :
    (r.clientAnnounce q full false publishNamespace).ownAnnounces hash =
      if hash = (q.trackHash full).trackFullnameHash then
        some ((r.ownAnnounces hash).getD (r.announceInfo q full publishNamespace))
      else r.ownAnnounces hash := by
  rw [hown.clientAnnounce_eq]
  show (r.infoBase.addAnnounce q (r.announceInfo q full publishNamespace)).1.announces.get₂? hash
    r.nodeId = _
  rw [InfoBase.get₂?_addAnnounce]
  simp only [announceInfo, and_true]
  split
  · rename_i heq
    rw [heq]
    rfl
  · rfl

theorem ownAnnounces_withdraw (r : Relay) (full : FullTrackName) (publishNamespace : Bool)
    (hash : UInt64) :
    (r.clientAnnounce q full true publishNamespace).ownAnnounces hash =
      if hash = (q.trackHash full).trackFullnameHash then none else r.ownAnnounces hash := by
  show (r.infoBase.removeAnnounce q (r.announceInfo q full publishNamespace)).1.announces.get₂? hash
    r.nodeId = _
  rw [InfoBase.get₂?_removeAnnounce]
  simp only [announceInfo, and_true]
  rfl

/-- After a call that leaves the subscriptions alone. -/
theorem OnlyPublishers.of_state (h : OnlyPublishers q r) {r' : Relay} {st : State}
    (hsame : SameInterest r r')
    (hstate : r'.state = st)
    (haliases : st.subscribeAliasReqId = r.state.subscribeAliasReqId)
    (hactive : st.subscribeActive = r.state.subscribeActive)
    (htracks : ∀ (key : TrackNamespace × ConnectionHandle) tracks,
      st.pubNamespaceActive[key]? = some tracks → tracks = ∅ ∧ key.2 ≠ 0)
    (hhandlers : ∀ (key : UInt64 × ConnectionHandle) handler, st.pubSubscribes[key]? = some handler →
      handler.isPublisherInitiated = true ∧
        (q.trackHash handler.fullTrackName).trackFullnameHash = key.1 ∧ key.2 ≠ 0) :
    OnlyPublishers q r' := by
  refine ⟨h.own.of_sameInterest hsame, hsame.subscribes.trans h.subscribes, ?_,
    hsame.nameSpaces.trans h.nameSpaces, ?_, ?_, ?_⟩
  · rw [hstate, haliases, h.aliases]
  · rw [hstate, hactive, h.active]
  · rwa [hstate]
  · rwa [hstate]

/-! ### A track is published -/

theorem OnlyPublishers.publishReceived (h : OnlyPublishers q r) (req : RequestId)
    (full : FullTrackName) : OnlyPublishers q (r.publishReceived q conn req full) := by
  obtain ⟨handler, -, hname, hmade, -, hstate⟩ := h.own.state_publishReceived (q := q) conn.1 req full
  refine h.of_state (sameInterest_publishReceived q r conn req full) hstate rfl rfl h.tracks ?_
  intro key handler' hget
  change (r.state.pubSubscribes.insert ((q.trackHash full).trackFullnameHash, conn.1)
    handler)[key]? = some handler' at hget
  rw [ExtTreeMap.getElem?_insert_ite] at hget
  split at hget
  · rename_i heq
    subst heq
    cases hget
    exact ⟨hmade, by rw [hname], conn.2⟩
  · exact h.handlers key handler' hget

theorem ownAnnounces_publishReceived (hown : r.OwnOnly) (req : RequestId) (full : FullTrackName)
    (hash : UInt64) :
    (r.publishReceived q conn req full).ownAnnounces hash =
      if hash = (q.trackHash full).trackFullnameHash then
        some ((r.ownAnnounces hash).getD (r.announceInfo q full false))
      else r.ownAnnounces hash := by
  set r₁ := ((r.newHandler full true).2.mapState fun st => { st with
    pubSubscribes := st.pubSubscribes.insert ((q.trackHash full).trackFullnameHash, conn.1)
      { (r.newHandler full true).1 with isFromPeer := conn.1 = 0 && req = 0 } }).mapState
    fun st => { st with
      pubSubscribesByReqId := st.pubSubscribesByReqId.insert (req, conn.1)
        ((r.newHandler full true).1.id, full) }
  have hown₁ : r₁.OwnOnly := hown
  have hannounced := ownAnnounces_announce (q := q) hown₁ full false hash
  unfold Relay.publishReceived
  dsimp only
  rw [if_neg (by simp [conn.2])]
  exact hannounced

theorem mirrors_publishReceived_iff (h : OnlyPublishers q r) (hmirrors : MirrorsPublishers q r)
    (req : RequestId) (full : FullTrackName) :
    MirrorsPublishers q (r.publishReceived q conn req full) ↔
      ∀ info, r.ownAnnounces (q.trackHash full).trackFullnameHash = some info →
        info = r.announceInfo q full false := by
  obtain ⟨handler, -, hname, hmade, -, hstate⟩ := h.own.state_publishReceived (q := q) conn.1 req full
  have hnode := (sameInterest_publishReceived q r conn req full).nodeId
  have hget : ∀ key : UInt64 × ConnectionHandle,
      (r.publishReceived q conn req full).state.pubSubscribes[key]? =
        if key = ((q.trackHash full).trackFullnameHash, conn.1) then some handler
        else r.state.pubSubscribes[key]? := by
    intro key
    rw [hstate]
    exact ExtTreeMap.getElem?_insert_ite ..
  have hactive : (r.publishReceived q conn req full).state.pubNamespaceActive =
      r.state.pubNamespaceActive := by
    rw [hstate]
  unfold MirrorsPublishers at hmirrors ⊢
  rw [hnode]
  refine Mirror.shows_enter_iff (x := .track full) (Publication.info_injective q r.nodeId) hmirrors
    ?_ ?_ ?_ ?_ ?_
  · rw [ownAnnounces_publishReceived h.own]
    exact if_pos rfl
  · intro hash hne
    rw [ownAnnounces_publishReceived h.own]
    exact if_neg hne
  · refine ⟨conn, handler, ?_, hmade, hname⟩
    rw [hget, if_pos rfl]
  · intro y hkey
    cases y with
    | track full' =>
      refine exists₂_congr fun conn' h' => ?_
      rw [hget, if_neg]
      exact fun heq => hkey (Prod.mk.inj heq).1
    | nameSpace ns =>
      unfold Published
      rw [hactive]
  · intro y hy
    cases y with
    | track full' =>
      obtain ⟨conn', h', hh', hmade', hname'⟩ := hy
      rw [hget] at hh'
      split at hh'
      · cases hh'
        exact .inr (congrArg Publication.track (hname'.symm.trans hname))
      · exact .inl ⟨conn', h', hh', hmade', hname'⟩
    | nameSpace ns =>
      left
      unfold Published at hy ⊢
      rwa [hactive] at hy

/-! ### A publication ends -/

/-- No client is subscribed to the track. -/
theorem OnlyPublishers.publishDone_eq (h : OnlyPublishers q r) {req : RequestId} {id : Nat}
    {full : FullTrackName} (hreg : r.state.pubSubscribesByReqId[(req, conn.1)]? = some (id, full)) :
    r.publishDoneReceived q conn req = (r.clientAnnounce q full true false).mapState fun st =>
      { st with
        pubSubscribes := st.pubSubscribes.erase ((q.trackHash full).trackFullnameHash, conn.1)
        pubSubscribesByReqId := st.pubSubscribesByReqId.erase (req, conn.1) } := by
  unfold publishDoneReceived
  rw [hreg]
  dsimp only
  rw [if_neg conn.2]
  unfold unsubscribeOrphans
  split
  · have hnone : (r.state.subscribes.withFst (q.trackHash full).trackFullnameHash) = [] := by
      rw [h.subscribes]
      rfl
    change Relay.mapState (List.foldl _ _ (r.state.subscribes.withFst
      (q.trackHash full).trackFullnameHash)) _ = _
    rw [hnone]
    rfl
  · rfl

theorem OnlyPublishers.publishDoneReceived (h : OnlyPublishers q r) (conn : ClientHandle)
    (req : RequestId) :
    OnlyPublishers q (r.publishDoneReceived q conn req) := by
  cases hreg : r.state.pubSubscribesByReqId[(req, conn.1)]? with
  | none =>
    unfold Relay.publishDoneReceived
    rw [hreg]
    exact h
  | some entry =>
    obtain ⟨id, full⟩ := entry
    rw [h.publishDone_eq hreg]
    have hsame : SameInterest r ((r.clientAnnounce q full true false).mapState fun st =>
        { st with
          pubSubscribes := st.pubSubscribes.erase ((q.trackHash full).trackFullnameHash, conn.1)
          pubSubscribesByReqId := st.pubSubscribesByReqId.erase (req, conn.1) }) :=
      (sameInterest_clientAnnounce q r full true false).trans (sameInterest_mapState rfl rfl)
    refine h.of_state hsame rfl rfl rfl h.tracks fun key handler hget => ?_
    change (r.state.pubSubscribes.erase _)[key]? = some handler at hget
    rw [ExtTreeMap.getElem?_erase_ite] at hget
    split at hget
    · cases hget
    · exact h.handlers key handler hget

/-- The handlers of one hash that are left. -/
theorem OnlyPublishers.published_track (h : OnlyPublishers q r)
    {key : UInt64 × ConnectionHandle} {handler : SubscribeTrackHandler}
    (hget : r.state.pubSubscribes[key]? = some handler) :
    Published q r.state (.track handler.fullTrackName) := by
  obtain ⟨hmade, hhash, hconn⟩ := h.handlers key handler hget
  refine ⟨⟨key.2, hconn⟩, handler, ?_, hmade, rfl⟩
  rw [hhash]
  exact hget

theorem OnlyPublishers.published_nameSpace (h : OnlyPublishers q r)
    {key : TrackNamespace × ConnectionHandle}
    (hactive : r.state.pubNamespaceActive.contains key = true) :
    Published q r.state (.nameSpace key.1) := by
  obtain ⟨tracks, htracks⟩ := ExtTreeMap.contains_iff_getElem?.mp hactive
  exact ⟨⟨key.2, (h.tracks key tracks htracks).2⟩, hactive⟩

/-- Nothing with the hash is published. -/
theorem OnlyPublishers.nonePublished_iff (h : OnlyPublishers q r) (hash : UInt64) :
    (∀ y, Publication.hash q y = hash → ¬Published q r.state y) ↔
      (∀ (key : UInt64 × ConnectionHandle) handler, r.state.pubSubscribes[key]? = some handler →
        key.1 ≠ hash) ∧
      ∀ key, r.state.pubNamespaceActive.contains key = true →
        (q.trackHash ⟨key.1, []⟩).trackFullnameHash ≠ hash := by
  constructor
  · intro hnone
    refine ⟨fun key handler hget heq => ?_, fun key hactive heq => ?_⟩
    · refine hnone (.track handler.fullTrackName) ?_ (h.published_track hget)
      exact (h.handlers key handler hget).2.1.trans heq
    · exact hnone (.nameSpace key.1) heq (h.published_nameSpace hactive)
  · rintro ⟨hhandlers, hactive⟩ y hhash hy
    cases y with
    | track full =>
      obtain ⟨conn', handler, hget, -⟩ := hy
      exact hhandlers _ handler hget hhash
    | nameSpace ns =>
      obtain ⟨conn', hget⟩ := hy
      exact hactive _ hget hhash

theorem mirrors_publishDoneReceived_iff (h : OnlyPublishers q r) (hmirrors : MirrorsPublishers q r)
    (req : RequestId) :
    MirrorsPublishers q (r.publishDoneReceived q conn req) ↔
      ∀ id full, r.state.pubSubscribesByReqId[(req, conn.1)]? = some (id, full) →
        (∀ (key : UInt64 × ConnectionHandle) handler, r.state.pubSubscribes[key]? = some handler →
          key.1 = (q.trackHash full).trackFullnameHash → key.2 = conn) ∧
        ∀ key, r.state.pubNamespaceActive.contains key = true →
          (q.trackHash ⟨key.1, []⟩).trackFullnameHash ≠ (q.trackHash full).trackFullnameHash := by
  cases hreg : r.state.pubSubscribesByReqId[(req, conn.1)]? with
  | none =>
    have heq : r.publishDoneReceived q conn req = r := by
      unfold publishDoneReceived
      rw [hreg]
    rw [heq]
    exact ⟨fun _ id full hnone => absurd hnone (by simp), fun _ => hmirrors⟩
  | some entry =>
    obtain ⟨id, full⟩ := entry
    have hafter := h.publishDoneReceived conn req
    have heq := h.publishDone_eq hreg
    set r' := r.publishDoneReceived q conn req
    have hnode : r'.nodeId = r.nodeId := by
      rw [heq]
      rfl
    have hget : ∀ key : UInt64 × ConnectionHandle, r'.state.pubSubscribes[key]? =
        if key = ((q.trackHash full).trackFullnameHash, conn.1) then none
        else r.state.pubSubscribes[key]? := by
      intro key
      rw [heq]
      exact ExtTreeMap.getElem?_erase_ite ..
    have hactive : r'.state.pubNamespaceActive = r.state.pubNamespaceActive := by
      rw [heq]
      rfl
    have hannounces : ∀ hash, r'.ownAnnounces hash =
        if hash = (q.trackHash full).trackFullnameHash then none else r.ownAnnounces hash := by
      intro hash
      rw [heq]
      exact ownAnnounces_withdraw r full false hash
    have hshows : MirrorsPublishers q r' ↔
        ∀ y, Publication.hash q y = (q.trackHash full).trackFullnameHash →
          ¬Published q r'.state y := by
      unfold MirrorsPublishers at hmirrors ⊢
      rw [hnode]
      refine Mirror.shows_remove_iff hmirrors (k := (q.trackHash full).trackFullnameHash) ?_ ?_ ?_
      · rw [hannounces, if_pos rfl]
      · intro hash hne
        rw [hannounces, if_neg hne]
      · intro y hkey
        cases y with
        | track full' =>
          refine exists₂_congr fun conn' h' => ?_
          rw [hget, if_neg]
          exact fun heq => hkey (Prod.mk.inj heq).1
        | nameSpace ns =>
          unfold Published
          rw [hactive]
    rw [hshows, hafter.nonePublished_iff, hactive]
    constructor
    · rintro ⟨hhandlers, hnames⟩ id' full' hentry
      cases hentry
      refine ⟨fun key handler hold hhash => ?_, hnames⟩
      by_contra hconn
      refine hhandlers key handler ?_ hhash
      rw [hget, if_neg, hold]
      exact fun hkey => hconn (by rw [hkey])
    · intro hclean
      obtain ⟨hhandlers, hnames⟩ := hclean id full rfl
      refine ⟨fun key handler hnew hhash => ?_, hnames⟩
      rw [hget] at hnew
      split at hnew
      · cases hnew
      · rename_i hne
        exact hne (Prod.ext hhash (hhandlers key handler hnew hhash))

/-! ### A namespace is announced -/

/-- No client is subscribed to anything. -/
theorem OnlyPublishers.publishNamespace_eq (h : OnlyPublishers q r) (conn : ClientHandle)
    (ns : TrackNamespace) (req : RequestId) :
    r.publishNamespaceReceived q conn ns req =
      if r.state.pubNamespaceActive.contains (ns, conn.1) then
        r.mapState fun st => { st with requests := st.requests.insert (conn.1, req) ns }
      else
        (r.mapState fun st => { st with
          requests := st.requests.insert (conn.1, req) ns
          pubNamespaceActive := st.pubNamespaceActive.insertIfNew (ns, conn.1) ∅ }).clientAnnounce q
            ⟨ns, []⟩ false true := by
  have hnone : r.state.subscribeActive.toList = [] := by
    rw [h.active]
    rfl
  unfold publishNamespaceReceived
  dsimp only
  rw [if_neg conn.2, if_neg conn.2]
  change (if r.state.pubNamespaceActive.contains (ns, conn.1) = true then
    List.foldl _ _ r.state.subscribeActive.toList else
    clientAnnounce q (List.foldl _ _ r.state.subscribeActive.toList) _ _ _) = _
  rw [hnone]
  rfl

theorem OnlyPublishers.publishNamespaceReceived (h : OnlyPublishers q r) (ns : TrackNamespace)
    (req : RequestId) : OnlyPublishers q (r.publishNamespaceReceived q conn ns req) := by
  have hsame := sameInterest_publishNamespaceReceived q r conn ns req
  rw [h.publishNamespace_eq] at hsame ⊢
  by_cases hold : r.state.pubNamespaceActive.contains (ns, conn.1) = true
  · rw [if_pos hold] at hsame ⊢
    exact h.of_state hsame rfl rfl rfl h.tracks h.handlers
  · rw [if_neg hold] at hsame ⊢
    have hown : (r.mapState fun st => { st with
        requests := st.requests.insert (conn.1, req) ns
        pubNamespaceActive := st.pubNamespaceActive.insertIfNew (ns, conn.1) ∅ }).OwnOnly := h.own
    refine h.of_state hsame (hown.state_clientAnnounce ⟨ns, []⟩ false true) rfl rfl ?_ h.handlers
    intro key tracks hget
    change (r.state.pubNamespaceActive.insertIfNew (ns, conn.1) ∅)[key]? = some tracks at hget
    rw [ExtTreeMap.getElem?_insertIfNew] at hget
    split at hget
    · rename_i hnew
      cases LawfulEqCmp.compare_eq_iff_eq.mp hnew.1
      cases hget
      exact ⟨rfl, conn.2⟩
    · exact h.tracks key tracks hget

/-- What is announced and what is published are the same. -/
theorem mirrors_of_same {r' : Relay} (hmirrors : MirrorsPublishers q r) (hnode : r'.nodeId = r.nodeId)
    (hannounces : r'.ownAnnounces = r.ownAnnounces)
    (hhandlers : r'.state.pubSubscribes = r.state.pubSubscribes)
    (hactive : r'.state.pubNamespaceActive = r.state.pubNamespaceActive) :
    MirrorsPublishers q r' := by
  have hpublished : Published q r'.state = Published q r.state := by
    funext y
    cases y with
    | track full =>
      unfold Published
      rw [hhandlers]
    | nameSpace ns =>
      unfold Published
      rw [hactive]
  unfold MirrorsPublishers
  rw [hnode, hannounces, hpublished]
  exact hmirrors

theorem mirrors_publishNamespaceReceived_iff (h : OnlyPublishers q r)
    (hmirrors : MirrorsPublishers q r) (ns : TrackNamespace) (req : RequestId) :
    MirrorsPublishers q (r.publishNamespaceReceived q conn ns req) ↔
      (r.state.pubNamespaceActive.contains (ns, conn.1) = false → ∀ info,
        r.ownAnnounces (q.trackHash ⟨ns, []⟩).trackFullnameHash = some info →
          info = r.announceInfo q ⟨ns, []⟩ true) := by
  have heq := h.publishNamespace_eq conn ns req
  cases hold : r.state.pubNamespaceActive.contains (ns, conn.1) with
  | true =>
    rw [if_pos hold] at heq
    rw [heq]
    refine iff_of_true (mirrors_of_same hmirrors rfl rfl rfl rfl) fun hnew => ?_
    cases hnew
  | false =>
    rw [if_neg (by rw [hold]; exact Bool.false_ne_true)] at heq
    set r₁ := r.mapState fun st => { st with
      requests := st.requests.insert (conn.1, req) ns
      pubNamespaceActive := st.pubNamespaceActive.insertIfNew (ns, conn.1) ∅ }
    have hown₁ : r₁.OwnOnly := h.own
    have hstate := hown₁.state_clientAnnounce (q := q) ⟨ns, []⟩ false true
    have hannounces := ownAnnounces_announce (q := q) hown₁ ⟨ns, []⟩ true
    have hnode := (sameInterest_clientAnnounce q r₁ ⟨ns, []⟩ false true).nodeId
    rw [← heq] at hstate hannounces hnode
    set r' := r.publishNamespaceReceived q conn ns req
    have hactive : ∀ key, r'.state.pubNamespaceActive.contains key = true ↔
        (ns, conn.1) = key ∨ r.state.pubNamespaceActive.contains key = true := by
      intro key
      rw [hstate]
      change (r.state.pubNamespaceActive.insertIfNew (ns, conn.1) ∅).contains key = true ↔ _
      rw [ExtTreeMap.contains_insertIfNew, Bool.or_eq_true, beq_iff_eq,
        LawfulEqCmp.compare_eq_iff_eq]
    have hhandlers : r'.state.pubSubscribes = r.state.pubSubscribes := by
      rw [hstate]
      rfl
    unfold MirrorsPublishers at hmirrors ⊢
    rw [hnode]
    refine Iff.trans (Mirror.shows_enter_iff (x := .nameSpace ns)
      (Publication.info_injective q r.nodeId) hmirrors ?_ ?_ ?_ ?_ ?_) ?_
    · rw [hannounces]
      exact if_pos rfl
    · intro hash hne
      rw [hannounces]
      exact if_neg hne
    · exact ⟨conn, (hactive _).mpr (.inl rfl)⟩
    · intro y hkey
      cases y with
      | track full =>
        unfold Published
        rw [hhandlers]
      | nameSpace ns' =>
        refine exists_congr fun conn' => (hactive _).trans (or_iff_right fun hnew => hkey ?_)
        rw [(Prod.mk.inj hnew).1]
    · intro y hy
      cases y with
      | track full =>
        left
        unfold Published at hy ⊢
        rwa [hhandlers] at hy
      | nameSpace ns' =>
        obtain ⟨conn', hconn'⟩ := hy
        rcases (hactive _).mp hconn' with hnew | hthere
        · exact .inr (congrArg Publication.nameSpace (Prod.mk.inj hnew).1.symm)
        · exact .inl ⟨conn', hthere⟩
    · exact ⟨fun hclean _ => hclean, fun hclean => hclean rfl⟩

/-! ### A namespace is withdrawn -/

/-- No track has been asked of the publisher. -/
theorem OnlyPublishers.publishNamespaceDone_eq (h : OnlyPublishers q r) {req : RequestId}
    {ns : TrackNamespace} (hreq : r.state.requests[(conn.1, req)]? = some ns) :
    r.publishNamespaceDoneReceived q conn req =
      ((r.clientAnnounce q ⟨ns, []⟩ true true).mapState fun st => { st with
        pubNamespaceActive := st.pubNamespaceActive.erase (ns, conn.1) }).clientAnnounce q
          ⟨ns, []⟩ true false := by
  have hnone : (r.state.pubNamespaceActive.getD (ns, conn.1) ∅).toList = [] := by
    rw [ExtTreeMap.getD_eq_getD_getElem?]
    cases hget : r.state.pubNamespaceActive[(ns, conn.1)]? with
    | none => rfl
    | some tracks =>
      rw [(h.tracks _ tracks hget).1]
      rfl
  unfold publishNamespaceDoneReceived
  rw [hreq]
  dsimp only
  rw [if_neg conn.2]
  change clientAnnounce q (Relay.mapState _ fun st => { st with
    pubSubscribes := (r.state.pubNamespaceActive.getD (ns, conn.1) ∅).toList.foldl
      (fun m trackAlias => m.erase (trackAlias, conn.1)) st.pubSubscribes
    pubNamespaceActive := st.pubNamespaceActive.erase (ns, conn.1) }) _ _ _ = _
  rw [hnone]
  rfl

theorem OnlyPublishers.publishNamespaceDoneReceived (h : OnlyPublishers q r) (conn : ClientHandle)
    (req : RequestId) :
    OnlyPublishers q (r.publishNamespaceDoneReceived q conn req) := by
  have hsame := sameInterest_publishNamespaceDoneReceived q r conn req
  cases hreq : r.state.requests[(conn.1, req)]? with
  | none =>
    unfold Relay.publishNamespaceDoneReceived
    rw [hreq]
    exact h
  | some ns =>
    rw [h.publishNamespaceDone_eq hreq] at hsame ⊢
    refine h.of_state hsame rfl rfl rfl (fun key tracks hget => ?_) h.handlers
    change (r.state.pubNamespaceActive.erase (ns, conn.1))[key]? = some tracks at hget
    rw [ExtTreeMap.getElem?_erase_ite] at hget
    split at hget
    · cases hget
    · exact h.tracks key tracks hget

theorem mirrors_publishNamespaceDoneReceived_iff (h : OnlyPublishers q r)
    (hmirrors : MirrorsPublishers q r) (req : RequestId) :
    MirrorsPublishers q (r.publishNamespaceDoneReceived q conn req) ↔
      ∀ ns, r.state.requests[(conn.1, req)]? = some ns →
        (∀ (key : UInt64 × ConnectionHandle) handler, r.state.pubSubscribes[key]? = some handler →
          key.1 ≠ (q.trackHash ⟨ns, []⟩).trackFullnameHash) ∧
        ∀ key, r.state.pubNamespaceActive.contains key = true →
          (q.trackHash ⟨key.1, []⟩).trackFullnameHash = (q.trackHash ⟨ns, []⟩).trackFullnameHash →
            key = (ns, conn.1) := by
  cases hreq : r.state.requests[(conn.1, req)]? with
  | none =>
    have heq : r.publishNamespaceDoneReceived q conn req = r := by
      unfold publishNamespaceDoneReceived
      rw [hreq]
    rw [heq]
    exact ⟨fun _ ns hnone => absurd hnone (by simp), fun _ => hmirrors⟩
  | some ns =>
    have hafter := h.publishNamespaceDoneReceived conn req
    have heq := h.publishNamespaceDone_eq hreq
    set r' := r.publishNamespaceDoneReceived q conn req
    set hash := (q.trackHash ⟨ns, []⟩).trackFullnameHash with hhash
    have hnode : r'.nodeId = r.nodeId := by
      rw [heq]
      rfl
    have hhandlers : r'.state.pubSubscribes = r.state.pubSubscribes := by
      rw [heq]
      rfl
    have hactive : ∀ key, r'.state.pubNamespaceActive.contains key = true ↔
        (ns, conn.1) ≠ key ∧ r.state.pubNamespaceActive.contains key = true := by
      intro key
      rw [heq]
      change (r.state.pubNamespaceActive.erase (ns, conn.1)).contains key = true ↔ _
      rw [ExtTreeMap.contains_erase, Bool.and_eq_true, bne_iff_ne, ne_eq,
        LawfulEqCmp.compare_eq_iff_eq]
    have hannounces : ∀ hash', r'.ownAnnounces hash' =
        if hash' = hash then none else r.ownAnnounces hash' := by
      intro hash'
      rw [heq, ownAnnounces_withdraw]
      split
      · rfl
      · rename_i hne
        exact (ownAnnounces_withdraw r ⟨ns, []⟩ true hash').trans (if_neg hne)
    have hshows : MirrorsPublishers q r' ↔
        ∀ y, Publication.hash q y = hash → ¬Published q r'.state y := by
      unfold MirrorsPublishers at hmirrors ⊢
      rw [hnode]
      refine Mirror.shows_remove_iff hmirrors (k := hash) ?_ ?_ ?_
      · rw [hannounces, if_pos rfl]
      · intro hash' hne
        rw [hannounces, if_neg hne]
      · intro y hkey
        cases y with
        | track full =>
          unfold Published
          rw [hhandlers]
        | nameSpace ns' =>
          refine exists_congr fun conn' => (hactive _).trans (and_iff_right fun hkey' => hkey ?_)
          show (q.trackHash ⟨ns', []⟩).trackFullnameHash = hash
          rw [← (Prod.mk.inj hkey').1]
    rw [hshows, hafter.nonePublished_iff, hhandlers]
    constructor
    · intro hnone ns' hentry
      cases hentry
      refine ⟨hnone.1, fun key hthere hkey => ?_⟩
      by_contra hne
      exact hnone.2 key ((hactive key).mpr ⟨Ne.symm hne, hthere⟩) hkey
    · intro hclean
      obtain ⟨hnone, hnames⟩ := hclean ns rfl
      refine ⟨hnone, fun key hkey hhash' => ?_⟩
      obtain ⟨hne, hthere⟩ := (hactive key).mp hkey
      exact hne (hnames key hthere hhash').symm

/-! ### A connection ends -/

/-- It has no subscriptions. -/
theorem OnlyPublishers.disconnect_eq (h : OnlyPublishers q r) (conn : ConnectionHandle) :
    disconnect q r conn = r := by
  have hrows : (r.state.subscribesNamespaces.toList.filter fun row => row.2.contains conn) = [] := by
    rw [h.nameSpaces]
    rfl
  have hreqs : r.state.subscribeAliasReqId.withFst conn = [] := by
    rw [h.aliases]
    rfl
  unfold disconnect
  rw [hrows]
  change List.foldl _ r (r.state.subscribeAliasReqId.withFst conn) = r
  rw [hreqs]
  rfl

theorem getElem?_purged {β : Type*} {κ : Type*} [Ord κ] [TransOrd κ] [LawfulEqOrd κ]
    (m : ExtTreeMap (κ × ConnectionHandle) β compare) (conn : ConnectionHandle)
    (key : κ × ConnectionHandle) (x : β) :
    (m.filter fun key _ => key.2 ≠ conn)[key]? = some x ↔ m[key]? = some x ∧ key.2 ≠ conn := by
  rw [ExtTreeMap.getElem?_filter', Option.filter_eq_some_iff, decide_eq_true_iff]

theorem OnlyPublishers.connectionStatusChanged (h : OnlyPublishers q r) (status : ConnectionStatus) :
    OnlyPublishers q (r.connectionStatusChanged q conn status) := by
  by_cases h₁ : status = .connected
  · rw [h₁]
    exact h
  by_cases h₂ : status = .connecting
  · rw [h₂]
    exact h
  rw [connectionStatusChanged_eq q r conn h₁ h₂, h.disconnect_eq]
  refine h.of_state (sameInterest_mapState rfl rfl) rfl rfl rfl ?_ ?_
  · intro key tracks hget
    exact h.tracks key tracks ((getElem?_purged _ conn.1 key tracks).mp hget).1
  · intro key handler hget
    exact h.handlers key handler ((getElem?_purged _ conn.1 key handler).mp hget).1

/-- All that the connection publishes is published on another one. -/
structure PublishedElsewhere (st : State) (conn : ConnectionHandle) : Prop where
  handlers : ∀ (hash : UInt64) (h : SubscribeTrackHandler),
    st.pubSubscribes[(hash, conn)]? = some h → ∃ (conn' : ConnectionHandle) (h' : _),
      conn' ≠ conn ∧ st.pubSubscribes[(hash, conn')]? = some h' ∧ h'.fullTrackName = h.fullTrackName
  active : ∀ ns, st.pubNamespaceActive.contains (ns, conn) = true →
    ∃ conn', conn' ≠ conn ∧ st.pubNamespaceActive.contains (ns, conn') = true

theorem mirrors_closed_iff (h : OnlyPublishers q r) (hmirrors : MirrorsPublishers q r)
    {status : ConnectionStatus} (hcloses : status.closes = true) :
    MirrorsPublishers q (r.connectionStatusChanged q conn status) ↔
      PublishedElsewhere r.state conn := by
  have hstatus : status ≠ .connected ∧ status ≠ .connecting := by
    simpa [ConnectionStatus.closes] using hcloses
  rw [connectionStatusChanged_eq q r conn hstatus.1 hstatus.2, h.disconnect_eq]
  set r' := r.purgePublishState conn
  have hhandlers : ∀ (key : UInt64 × ConnectionHandle) handler,
      r'.state.pubSubscribes[key]? = some handler ↔
        r.state.pubSubscribes[key]? = some handler ∧ key.2 ≠ conn.1 :=
    getElem?_purged r.state.pubSubscribes conn.1
  have hactive : ∀ key : TrackNamespace × ConnectionHandle,
      r'.state.pubNamespaceActive.contains key = true ↔
        r.state.pubNamespaceActive.contains key = true ∧ key.2 ≠ conn.1 := by
    intro key
    rw [ExtTreeMap.contains_iff_getElem?, ExtTreeMap.contains_iff_getElem?, ← exists_and_right]
    exact exists_congr (getElem?_purged r.state.pubNamespaceActive conn.1 key)
  have hless : ∀ y, Published q r'.state y → Published q r.state y := by
    intro y hy
    cases y with
    | track full =>
      obtain ⟨conn', handler, hget, hmade⟩ := hy
      exact ⟨conn', handler, ((hhandlers _ _).mp hget).1, hmade⟩
    | nameSpace ns =>
      obtain ⟨conn', hget⟩ := hy
      exact ⟨conn', ((hactive _).mp hget).1⟩
  refine Iff.trans (Mirror.shows_lose_iff hmirrors hless) ?_
  constructor
  · intro hkept
    constructor
    · intro hash handler hget
      have hhash := (h.handlers _ handler hget).2.1
      obtain ⟨conn', handler', hget', -, hname⟩ := hkept _ (h.published_track hget)
      obtain ⟨hold, hne⟩ := (hhandlers _ _).mp hget'
      rw [hhash] at hold
      exact ⟨conn', handler', hne, hold, hname⟩
    · intro ns hget
      obtain ⟨conn', hget'⟩ := hkept _ (h.published_nameSpace hget)
      obtain ⟨hold, hne⟩ := (hactive _).mp hget'
      exact ⟨conn', hne, hold⟩
  · intro helse y hy
    cases y with
    | track full =>
      obtain ⟨conn', handler, hget, hmade, hname⟩ := hy
      by_cases hconn : conn'.1 = conn.1
      · rw [hconn] at hget
        obtain ⟨conn₂, handler₂, hne, hget₂, hname₂⟩ := helse.handlers _ handler hget
        obtain ⟨hmade₂, -, hclient⟩ := h.handlers _ handler₂ hget₂
        exact ⟨⟨conn₂, hclient⟩, handler₂, (hhandlers _ _).mpr ⟨hget₂, hne⟩, hmade₂,
          hname₂.trans hname⟩
      · exact ⟨conn', handler, (hhandlers _ _).mpr ⟨hget, hconn⟩, hmade, hname⟩
    | nameSpace ns =>
      obtain ⟨conn', hget⟩ := hy
      by_cases hconn : conn'.1 = conn.1
      · rw [hconn] at hget
        obtain ⟨conn₂, hne, hget₂⟩ := helse.active ns hget
        obtain ⟨tracks, htracks⟩ := ExtTreeMap.contains_iff_getElem?.mp hget₂
        exact ⟨⟨conn₂, (h.tracks _ tracks htracks).2⟩, (hactive _).mpr ⟨hget₂, hne⟩⟩
      · exact ⟨conn', (hactive _).mpr ⟨hget, hconn⟩⟩

end Calls

/-! ### Runs -/

/-- The call finds no announcement of something else under the hash of what it publishes, withdraws
nothing that is published under the hash besides, and closes no connection whose publications are on
it alone. -/
def KeepsMirror (q : Quicr) (r : Relay) : PublisherCall → Prop
  | .publishReceived _ _ full =>
    ∀ info, r.ownAnnounces (q.trackHash full).trackFullnameHash = some info →
      info = r.announceInfo q full false
  | .publishDoneReceived conn req =>
    ∀ id full, r.state.pubSubscribesByReqId[(req, conn.1)]? = some (id, full) →
      (∀ (key : UInt64 × ConnectionHandle) handler, r.state.pubSubscribes[key]? = some handler →
        key.1 = (q.trackHash full).trackFullnameHash → key.2 = conn) ∧
      ∀ key, r.state.pubNamespaceActive.contains key = true →
        (q.trackHash ⟨key.1, []⟩).trackFullnameHash ≠ (q.trackHash full).trackFullnameHash
  | .publishNamespaceReceived conn ns _ =>
    r.state.pubNamespaceActive.contains (ns, conn.1) = false → ∀ info,
      r.ownAnnounces (q.trackHash ⟨ns, []⟩).trackFullnameHash = some info →
        info = r.announceInfo q ⟨ns, []⟩ true
  | .publishNamespaceDoneReceived conn req =>
    ∀ ns, r.state.requests[(conn.1, req)]? = some ns →
      (∀ (key : UInt64 × ConnectionHandle) handler, r.state.pubSubscribes[key]? = some handler →
        key.1 ≠ (q.trackHash ⟨ns, []⟩).trackFullnameHash) ∧
      ∀ key, r.state.pubNamespaceActive.contains key = true →
        (q.trackHash ⟨key.1, []⟩).trackFullnameHash = (q.trackHash ⟨ns, []⟩).trackFullnameHash →
          key = (ns, conn.1)
  | .connectionStatusChanged conn status => status.closes = true → PublishedElsewhere r.state conn

/-- What is published is announced after the call. -/
def LeavesMirror (q : Quicr) (r : Relay) (call : PublisherCall) : Prop :=
  ∀ r', r.publisherCall q call = some r' → MirrorsPublishers q r'

section Runs

variable {q : Quicr} {r r' : Relay}

theorem OnlyPublishers.publisherCall {call : PublisherCall} (h : OnlyPublishers q r)
    (hcall : r.publisherCall q call = some r') : OnlyPublishers q r' := by
  cases call with
  | publishReceived conn req full =>
    cases hcall
    exact h.publishReceived req full
  | publishDoneReceived conn req =>
    cases hcall
    exact h.publishDoneReceived conn req
  | publishNamespaceReceived conn ns req =>
    cases hcall
    exact h.publishNamespaceReceived ns req
  | publishNamespaceDoneReceived conn req =>
    cases hcall
    exact h.publishNamespaceDoneReceived conn req
  | connectionStatusChanged conn status =>
    cases hcall
    exact h.connectionStatusChanged status

theorem leavesMirror_of_eq {call : PublisherCall} (hcall : r.publisherCall q call = some r') :
    LeavesMirror q r call ↔ MirrorsPublishers q r' := by
  unfold LeavesMirror
  rw [hcall]
  exact ⟨fun h => h r' rfl, fun h r₁ heq => Option.some.inj heq ▸ h⟩

theorem leavesMirror_iff (h : OnlyPublishers q r) (hmirrors : MirrorsPublishers q r)
    (call : PublisherCall) : LeavesMirror q r call ↔ KeepsMirror q r call := by
  cases call with
  | publishReceived conn req full =>
    exact (leavesMirror_of_eq rfl).trans (mirrors_publishReceived_iff h hmirrors req full)
  | publishDoneReceived conn req =>
    exact (leavesMirror_of_eq rfl).trans (mirrors_publishDoneReceived_iff h hmirrors req)
  | publishNamespaceReceived conn ns req =>
    exact (leavesMirror_of_eq rfl).trans (mirrors_publishNamespaceReceived_iff h hmirrors ns req)
  | publishNamespaceDoneReceived conn req =>
    exact (leavesMirror_of_eq rfl).trans (mirrors_publishNamespaceDoneReceived_iff h hmirrors req)
  | connectionStatusChanged conn status =>
    refine (leavesMirror_of_eq rfl).trans ?_
    unfold KeepsMirror
    cases hcloses : status.closes with
    | true =>
      rw [mirrors_closed_iff h hmirrors hcloses]
      exact ⟨fun helse _ => helse, fun helse => helse hcloses⟩
    | false =>
      refine iff_of_true ?_ fun hclosed => absurd (hcloses.symm.trans hclosed) Bool.false_ne_true
      cases status with
      | connected => exact hmirrors
      | connecting => exact hmirrors
      | notConnected => cases hcloses
      | idleTimeout => cases hcloses
      | closedByRemote => cases hcloses

theorem exists_publisherCall (q : Quicr) (r : Relay) (call : PublisherCall) :
    ∃ r', r.publisherCall q call = some r' := by
  cases call <;> exact ⟨_, rfl⟩

theorem onlyPublishers_new (hnew : r.state = {}) (hsubscribes : r.infoBase.subscribes = ∅) :
    OnlyPublishers q r := by
  refine ⟨ownOnly_new hsubscribes, ?_, ?_, ?_, ?_, ?_, ?_⟩
  · rw [hnew]
  · rw [hnew]
  · rw [hnew]
  · rw [hnew]
  · intro key tracks hget
    rw [hnew] at hget
    simp at hget
  · intro key handler hget
    rw [hnew] at hget
    simp at hget

theorem mirrorsPublishers_new (hnew : r.state = {}) (hannounces : r.infoBase.announces = ∅) :
    MirrorsPublishers q r := by
  intro y
  refine iff_of_false ?_ ?_
  · intro hshown
    change r.infoBase.announces.get₂? (y.hash q) r.nodeId = _ at hshown
    rw [hannounces] at hshown
    simp at hshown
  · intro hy
    rw [hnew] at hy
    cases y with
    | track full =>
      obtain ⟨conn, handler, hget, -⟩ := hy
      simp at hget
    | nameSpace ns =>
      obtain ⟨conn, hget⟩ := hy
      simp at hget

/-- From a new relay on, in every state of the run the announcements show what the clients publish,
if and only if each call keeps to `KeepsMirror`. -/
theorem mirrorsPublishers_iff (q : Quicr) (r : Relay) (hnew : r.state = {})
    (hsubscribes : r.infoBase.subscribes = ∅) (hannounces : r.infoBase.announces = ∅)
    (calls : List PublisherCall) :
    (∀ before, before <+: calls → ∀ r', before.foldlM (publisherCall q) r = some r' →
      MirrorsPublishers q r') ↔ Runs.All (publisherCall q) (KeepsMirror q) r calls := by
  have hmirrors : MirrorsPublishers q r := mirrorsPublishers_new hnew hannounces
  have hall : Runs.All (publisherCall q) (LeavesMirror q) r calls ↔
      Runs.All (publisherCall q) (KeepsMirror q) r calls := by
    refine Runs.all_iff (I := fun r => OnlyPublishers q r ∧ MirrorsPublishers q r) ?_ ?_
      ⟨onlyPublishers_new hnew hsubscribes, hmirrors⟩
    · intro r call h hkeeps
      obtain ⟨r', hcall⟩ := exists_publisherCall q r call
      exact ⟨r', hcall, h.1.publisherCall hcall, (leavesMirror_iff h.1 h.2 call).mpr hkeeps r' hcall⟩
    · intro r call h
      exact leavesMirror_iff h.1 h.2 call
  rw [← hall]
  exact (Runs.all_leaves_iff hmirrors).symm

/-- A client publishes a track and ends the publication. -/
def publishThenDone : List PublisherCall :=
  [.publishReceived ⟨8, by decide⟩ 5 ⟨[[1]], [2]⟩, .publishDoneReceived ⟨8, by decide⟩ 5]

theorem keepsMirror_publishThenDone :
    Runs.All (publisherCall .polynomial) (KeepsMirror .polynomial) ({ nodeId := 1 } : Relay)
      publishThenDone := by
  refine Runs.all_of_take fun k call hk r' hr' => ?_
  match k, hk with
  | 0, hk =>
    cases hk
    cases hr'
    intro info hinfo
    cases hinfo
  | 1, hk =>
    cases hk
    intro id full _
    have hone : ((publishThenDone.take 1).foldlM (publisherCall .polynomial)
        ({ nodeId := 1 } : Relay)).all (fun r => r.state.pubNamespaceActive.isEmpty &&
          r.state.pubSubscribes.toList.all fun entry => entry.1.2 = 8) = true := by
      decide +kernel
    rw [hr', Option.all_some, Bool.and_eq_true, List.all_eq_true] at hone
    refine ⟨fun key handler hget _ => ?_, fun key hactive => ?_⟩
    · exact decide_eq_true_iff.mp
        (hone.2 (key, handler) (ExtTreeMap.mem_toList_iff_getElem?_eq_some.mpr hget))
    · rw [ExtTreeMap.isEmpty_iff.mp hone.1] at hactive
      simp at hactive

theorem mirrorsPublishers_publishThenDone :
    Runs.All (publisherCall .polynomial) (KeepsMirror .polynomial) ({ nodeId := 1 } : Relay)
      publishThenDone ∧
    ∀ before, before <+: publishThenDone → ∀ r',
      before.foldlM (publisherCall .polynomial) ({ nodeId := 1 } : Relay) = some r' →
        MirrorsPublishers .polynomial r' :=
  ⟨keepsMirror_publishThenDone,
    (mirrorsPublishers_iff .polynomial { nodeId := 1 } rfl rfl rfl publishThenDone).mpr
      keepsMirror_publishThenDone⟩

/-- Two clients publish a track, and when one of them ends its publication the announcement goes. -/
theorem not_mirrorsPublishers :
    ¬∀ (calls : List PublisherCall) (r' : Relay),
      calls.foldlM (publisherCall .polynomial) ({ nodeId := 1 } : Relay) = some r' →
        MirrorsPublishers .polynomial r' := by
  intro hclaim
  have hgone : (([.publishReceived ⟨8, by decide⟩ 5 ⟨[[1]], [2]⟩,
      .publishReceived ⟨9, by decide⟩ 5 ⟨[[1]], [2]⟩, .publishDoneReceived ⟨8, by decide⟩ 5] :
      List PublisherCall).foldlM (publisherCall .polynomial) ({ nodeId := 1 } : Relay)).any
      (fun r => (r.ownAnnounces (Quicr.polynomial.trackHash ⟨[[1]], [2]⟩).trackFullnameHash).isNone &&
        (r.state.pubSubscribes[(((Quicr.polynomial.trackHash ⟨[[1]], [2]⟩).trackFullnameHash, 9) :
          UInt64 × ConnectionHandle)]?).any fun h =>
            h.isPublisherInitiated && h.fullTrackName = ⟨[[1]], [2]⟩) = true := by
    decide +kernel
  obtain ⟨r', hrun, hgone⟩ := (Option.any_eq_true _ _).mp hgone
  obtain ⟨hnone, hhandler⟩ := Bool.and_eq_true_iff.mp hgone
  obtain ⟨h, hget, hmade⟩ := (Option.any_eq_true _ _).mp hhandler
  obtain ⟨hmade, hname⟩ := Bool.and_eq_true_iff.mp hmade
  have hshown := (hclaim _ r' hrun (.track ⟨[[1]], [2]⟩)).mpr
    ⟨⟨9, by decide⟩, h, hget, hmade, of_decide_eq_true hname⟩
  rw [Option.isNone_iff_eq_none] at hnone
  cases hnone.symm.trans hshown

end Runs

end Laps.Relay
