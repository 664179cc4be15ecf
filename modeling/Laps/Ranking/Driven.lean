import Laps.Lib.Runs
import Laps.Ranking.Wiring

/-! The ranking that a track sends its updates to notifies every namespace handler of the track, in
runs that give each track handlers of one ranking. -/

namespace Laps.Ranking

open Std

namespace ClientManager

/-- The handler is registered, and alive, with the ranking that the updates are sent to. -/
def Drives (m : ClientManager) (h : SubscribeTrackHandler) (handler : HandlerRef) : Prop :=
  ∃ rk, m.lockRanking h = some rk ∧ handler.id ∈ (rk.system m.live).registered ∧
    m.live.contains handler.id = true

def Driven (m : ClientManager) : Prop :=
  ∀ (key : UInt64 × ConnectionHandle) (h : SubscribeTrackHandler) (handler : HandlerRef),
    m.pubSubscribes[key]? = some h → h.Has handler → m.Drives h handler

instance (m : ClientManager) (h : SubscribeTrackHandler) (handler : HandlerRef) :
    Decidable (m.Drives h handler) :=
  decidable_of_iff ((m.lockRanking h).any (fun rk =>
      (rk.system m.live).registered.contains handler.id && m.live.contains handler.id) = true) (by
    rw [(Option.any_eq_true _ _), Drives]
    simp only [Bool.and_eq_true, List.contains_iff_mem])

instance (m : ClientManager) : Decidable m.Driven :=
  decidable_of_iff (∀ entry ∈ m.pubSubscribes.toList,
      ∀ handler ∈ entry.2.subNamespaces.entries₂.map Prod.snd, m.Drives entry.2 handler) (by
    constructor
    · rintro h key track handler hkey ⟨hash, conn, hget⟩
      exact h (key, track) (ExtTreeMap.mem_toList_iff_getElem?_eq_some.mpr hkey) handler
        (List.mem_map.mpr ⟨((hash, conn), handler), ExtTreeMap.mem_entries₂.mpr hget, rfl⟩)
    · rintro h ⟨key, track⟩ hmem handler hhandler
      obtain ⟨⟨⟨hash, conn⟩, handler⟩, hentry, rfl⟩ := List.mem_map.mp hhandler
      exact h key track handler (ExtTreeMap.mem_toList_iff_getElem?_eq_some.mp hmem)
        ⟨hash, conn, ExtTreeMap.mem_entries₂.mp hentry⟩)

/-- The tracks that are matched with a prefix have only handlers of prefixes with its ranking. -/
def OneRanking (q : Quicr) (m : ClientManager) (conn : ConnectionHandle)
    (nsPrefix : TrackNamespace) : Prop :=
  ∀ (key : UInt64 × ConnectionHandle) (h : SubscribeTrackHandler) (handler : HandlerRef),
    m.pubSubscribes[key]? = some h → m.matchesTrack q conn nsPrefix key h = true →
      h.Has handler → (q.trackHash ⟨handler.prefixNamespace, []⟩).trackNamespaceHash =
        (q.trackHash ⟨nsPrefix, []⟩).trackNamespaceHash

/-- The ranking of the prefix has no handler of the connection, which an earlier subscription has
left or a prefix with the same hash has put there. -/
def Unregistered (q : Quicr) (m : ClientManager) (conn : ConnectionHandle)
    (nsPrefix : TrackNamespace) : Prop :=
  ∀ rk, m.trackRankings[(q.trackHash ⟨nsPrefix, []⟩).trackNamespaceHash]? = some rk →
    rk.nsHandlers.get₂? (q.trackHash ⟨nsPrefix, []⟩).trackNamespaceHash conn = none

/-- No track of the connection itself has the handler, or such tracks are matched too. -/
def NotOwn (m : ClientManager) (conn : ConnectionHandle) (handler : HandlerRef) : Prop :=
  m.allowSelf = true ∨
    ∀ (key : UInt64 × ConnectionHandle) (h : SubscribeTrackHandler),
      m.pubSubscribes[key]? = some h → key.2 = conn → ¬h.Has handler

/-- Nobody else needs the ranking of a prefix that its last subscriber leaves. -/
def RankingUnshared (q : Quicr) (m : ClientManager) (conn : ConnectionHandle)
    (nsPrefix : TrackNamespace) : Prop :=
  (∃ conn' ≠ conn, m.Subscribed conn' nsPrefix) ∨
    ∀ conn' nsPrefix', m.Subscribed conn' nsPrefix' →
      (q.trackHash ⟨nsPrefix', []⟩).trackNamespaceHash =
        (q.trackHash ⟨nsPrefix, []⟩).trackNamespaceHash → nsPrefix' = nsPrefix

/-- The step gives a track handlers of one ranking, and leaves no handler behind. -/
def Clean (q : Quicr) (m : ClientManager) : NamespaceEvent → Prop
  | .arrival (.publish _ _ full) =>
    ∀ row ∈ m.matchingRows q full.nameSpace, ∀ row' ∈ m.matchingRows q full.nameSpace,
      (q.trackHash ⟨row.1, []⟩).trackNamespaceHash = (q.trackHash ⟨row'.1, []⟩).trackNamespaceHash
  | .arrival (.subscribeNamespace _ conn nsPrefix _) =>
    m.OneRanking q conn nsPrefix ∧
      (m.Subscribed conn nsPrefix ∨ m.Unregistered q conn nsPrefix)
  | .unsubscribeNamespace conn nsPrefix =>
    ∀ handler, m.subscribesNamespaces.get₂? nsPrefix conn = some handler →
      m.NotOwn conn handler ∧ m.RankingUnshared q conn nsPrefix

/-! ### The invariant -/

/-- The handler of a track is subscribed, and the track sends to the ranking of its prefix. -/
structure Held (q : Quicr) (m : ClientManager) (h : SubscribeTrackHandler) (handler : HandlerRef) :
    Prop where
  stored : ∀ hash conn, h.subNamespaces.get₂? hash conn = some handler →
    hash = (q.trackHash ⟨handler.prefixNamespace, []⟩).trackFullnameHash ∧
      conn = handler.connectionId
  subscribed : m.subscribesNamespaces.get₂? handler.prefixNamespace handler.connectionId =
    some handler
  matched : q.hasSamePrefix handler.prefixNamespace h.fullTrackName.nameSpace = true
  ranking : ∃ rk,
    m.trackRankings[(q.trackHash ⟨handler.prefixNamespace, []⟩).trackNamespaceHash]? = some rk ∧
      h.trackRanking =
        some ⟨(q.trackHash ⟨handler.prefixNamespace, []⟩).trackNamespaceHash, rk.id⟩

structure Wired (q : Quicr) (m : ClientManager) : Prop extends HandlersMade q m where
  registered : ∀ nsPrefix conn handler,
    m.subscribesNamespaces.get₂? nsPrefix conn = some handler →
    ∃ rk, m.trackRankings[(q.trackHash ⟨nsPrefix, []⟩).trackNamespaceHash]? = some rk ∧
      rk.nsHandlers.get₂? (q.trackHash ⟨nsPrefix, []⟩).trackNamespaceHash conn = some handler.id
  held : ∀ (key : UInt64 × ConnectionHandle) (h : SubscribeTrackHandler) (handler : HandlerRef),
    m.pubSubscribes[key]? = some h → h.Has handler → m.Held q h handler

variable {q : Quicr} {published : TrackAlias → PublishStatus} {m : ClientManager}

theorem Wired.driven (hw : Wired q m) : m.Driven := by
  intro key h handler hkey hhas
  obtain ⟨-, hsubscribed, -, rk, hrk, href⟩ := hw.held key h handler hkey hhas
  obtain ⟨rk', hrk', hentry⟩ := hw.registered _ _ handler hsubscribed
  obtain rfl : rk' = rk := Option.some.inj (hrk'.symm.trans hrk)
  obtain ⟨object, hlive, -⟩ := hw.object _ _ handler hsubscribed
  refine ⟨rk', ?_, ?_, ExtTreeMap.contains_iff_getElem?.mpr ⟨object, hlive⟩⟩
  · rw [lockRanking, href, Option.bind_some, hrk, Option.filter_some, if_pos (by simp)]
  · exact List.mem_map.mpr ⟨(_, _), ExtTreeMap.mem_entries₂.mpr hentry, rfl⟩

theorem wired_start (allowSelf : Bool) (peerSubscribers : ExtTreeSet UInt64)
    (subscribes : ExtTreeSet (UInt64 × ConnectionHandle)) :
    Wired q (start allowSelf peerSubscribers subscribes) := by
  refine ⟨handlersMade_start allowSelf peerSubscribers subscribes, ?_, ?_⟩ <;> simp [start]

/-! ### A publication -/

theorem Wired.publishReceived (hw : Wired q m) (tick : UInt64) (conn : ConnectionHandle)
    (full : FullTrackName) (hclean : m.Clean q (.arrival (.publish tick conn full))) :
    Wired q (m.publishReceived q published tick conn full) := by
  have hmade : HandlersMade q (m.publishReceived q published tick conn full) :=
    hw.toHandlersMade.publishReceived tick conn full
  obtain ⟨new, hnew, heq⟩ := publishReceived_eq q published m tick conn full
  rw [heq] at hmade ⊢
  refine ⟨hmade, hw.registered, fun key h handler hkey hhas => ?_⟩
  rw [ExtTreeMap.getElem?_insert_ite] at hkey
  split at hkey
  · cases hkey
    obtain ⟨hash, conn', hget⟩ := hhas
    obtain ⟨-, hsubscribed, hmatch⟩ := hnew.of_get₂? hw.toHandlersMade hget
    obtain ⟨row, hrow, hnsPrefix⟩ := exists_matchingRow hsubscribed hmatch
    obtain ⟨first, hfirst, heq⟩ := exists_firstPrefix (List.ne_nil_of_mem hrow)
    have hhash : (q.trackHash ⟨handler.prefixNamespace, []⟩).trackNamespaceHash = (q.trackHash
        ⟨firstPrefix (m.matchingRows q full.nameSpace), []⟩).trackNamespaceHash := by
      rw [← hnsPrefix, ← heq]
      exact hclean row hrow first hfirst
    obtain ⟨rk, hrk, -⟩ := hw.registered _ _ handler hsubscribed
    refine ⟨fun hash conn hget => (hnew.of_get₂? hw.toHandlersMade hget).1, hsubscribed,
      hnew.fullTrackName ▸ hmatch, rk, hrk, ?_⟩
    rw [hnew.trackRanking _ hhash, hrk]
    rfl
  · obtain ⟨hstored, hsubscribed, hmatch, hranking⟩ := hw.held key h handler hkey hhas
    exact ⟨hstored, hsubscribed, hmatch, hranking⟩

/-! ### A subscription of a namespace -/

/-- The handler that the ranking of a prefix has under a hash and connection. -/
def registeredAt (q : Quicr) (m : ClientManager) (nsPrefix : TrackNamespace)
    (nsHash conn : UInt64) : Option HandlerId :=
  m.trackRankings[(q.trackHash ⟨nsPrefix, []⟩).trackNamespaceHash]?.bind fun rk =>
    rk.nsHandlers.get₂? nsHash conn

/-- A handler that is registered stays; the new one is registered where there is none. -/
theorem get₂?_joinedRanking (q : Quicr) (m : ClientManager) (conn : ConnectionHandle)
    (nsPrefix : TrackNamespace) (filter : Option TrackFilter) (nsHash conn' : UInt64) :
    (m.joinedRanking q conn nsPrefix filter).nsHandlers.get₂? nsHash conn' =
      if nsHash = (q.trackHash ⟨nsPrefix, []⟩).trackNamespaceHash ∧ conn' = conn then
        some ((m.registeredAt q nsPrefix nsHash conn').getD m.handlers)
      else m.registeredAt q nsPrefix nsHash conn' := by
  have hold : ∀ k c, ((m.trackRankings[(q.trackHash ⟨nsPrefix, []⟩).trackNamespaceHash]?).getD
      { id := m.rankings }).nsHandlers.get₂? k c = m.registeredAt q nsPrefix k c := by
    intro k c
    rw [registeredAt]
    cases m.trackRankings[(q.trackHash ⟨nsPrefix, []⟩).trackNamespaceHash]? with
    | none => exact ExtTreeMap.get₂?_empty k c
    | some rk => rfl
  rw [joinedRanking, SharedRanking.get₂?_addNamespaceHandler _ ExtTreeMap.getElem?_insert_self,
    PublishNamespaceHandler.create_nsHash, PublishNamespaceHandler.create_connectionId,
    SharedRanking.raiseInactiveAge_nsHandlers, hold, hold]
  split
  · rename_i hkey
    rw [hkey.1, hkey.2]
  · rfl

theorem Wired.subscribeNamespaceReceived
    (hnsPrefix : ∀ a b, q.isPrefixOf a b = true → q.hasSamePrefix a b = true)
    (hw : Wired q m) (tick : UInt64) (conn : ConnectionHandle) (nsPrefix : TrackNamespace)
    (filter : Option TrackFilter)
    (hclean : m.Clean q (.arrival (.subscribeNamespace tick conn nsPrefix filter))) :
    Wired q (m.subscribeNamespaceReceived q published tick conn nsPrefix filter) := by
  have hmade : HandlersMade q
      (m.subscribeNamespaceReceived q published tick conn nsPrefix filter) :=
    hw.toHandlersMade.subscribeNamespaceReceived tick conn nsPrefix filter
  obtain ⟨prop, rankings, heq⟩ :=
    subscribeNamespaceReceived_eq q published m tick conn nsPrefix filter
  rw [heq] at hmade ⊢
  refine ⟨hmade, fun nsPrefix' conn' handler hget => ?_, fun key h handler hkey hhas => ?_⟩
  · show ∃ rk, (m.trackRankings.insert _ _)[_]? = some rk ∧ _
    obtain hold | ⟨hnone, rfl, rfl, rfl⟩ := mem_joined hget
    · obtain ⟨rk, hrk, hentry⟩ := hw.registered _ _ handler hold
      rw [ExtTreeMap.getElem?_insert_ite]
      split
      · rename_i hhash
        have hat : m.registeredAt q nsPrefix
            (q.trackHash ⟨nsPrefix', []⟩).trackNamespaceHash conn' = some handler.id := by
          rw [registeredAt, ← hhash, hrk, Option.bind_some, hentry]
        refine ⟨_, rfl, ?_⟩
        rw [get₂?_joinedRanking, hat]
        split <;> rfl
      · exact ⟨rk, hrk, hentry⟩
    · have hat : m.registeredAt q nsPrefix'
          (q.trackHash ⟨nsPrefix', []⟩).trackNamespaceHash conn' = none := by
        obtain ⟨handler, hsome⟩ | hunregistered := hclean.2
        · rw [hnone] at hsome
          cases hsome
        · rw [registeredAt, Option.bind_eq_none_iff]
          exact fun rk hrk => hunregistered rk hrk
      refine ⟨_, ExtTreeMap.getElem?_insert_self, ?_⟩
      rw [get₂?_joinedRanking, if_pos ⟨rfl, rfl⟩, hat]
      rfl
  · rw [ExtTreeMap.getElem?_map, Option.map_eq_some_iff] at hkey
    obtain ⟨old, hold, rfl⟩ := hkey
    by_cases hmatch : m.matchesTrack q conn nsPrefix key old = true
    · rw [if_pos hmatch] at hhas ⊢
      have hname := (SubscribeTrackHandler.sameTrack_addSubscribeNamespace q old
        (m.joinedHandler conn nsPrefix) prop).fullTrackName
      have hstored : ∀ hash conn', (old.addSubscribeNamespace q (m.joinedHandler conn nsPrefix)
          prop).subNamespaces.get₂? hash conn' = some handler →
          hash = (q.trackHash ⟨handler.prefixNamespace, []⟩).trackFullnameHash ∧
            conn' = handler.connectionId := by
        intro hash conn' hget
        obtain hold' | ⟨rfl, hkey⟩ := SubscribeTrackHandler.mem_addSubscribeNamespace hget
        · exact (hw.held key old handler hold ⟨hash, conn', hold'⟩).stored hash conn' hold'
        · exact hkey
      obtain ⟨hash, conn', hget⟩ := hhas
      obtain hheld | ⟨rfl, -⟩ := SubscribeTrackHandler.mem_addSubscribeNamespace hget
      · have honly : (q.trackHash ⟨handler.prefixNamespace, []⟩).trackNamespaceHash =
            (q.trackHash ⟨nsPrefix, []⟩).trackNamespaceHash :=
          hclean.1 key old handler hold hmatch ⟨hash, conn', hheld⟩
        obtain ⟨-, hsubscribed, hsame, -⟩ := hw.held key old handler hold ⟨hash, conn', hheld⟩
        refine ⟨hstored, subscribed_joined hsubscribed, hname ▸ hsame,
          m.joinedRanking q conn nsPrefix filter, ?_, ?_⟩
        · rw [honly]
          exact ExtTreeMap.getElem?_insert_self
        · rw [honly]
      · have hsubscribed : (m.subscribesNamespaces.insertIfNew₂ nsPrefix conn
            ⟨m.handlers, nsPrefix, conn⟩).get₂? nsPrefix conn =
              some (m.joinedHandler conn nsPrefix) := by
          rw [get₂?_joined, if_pos ⟨rfl, rfl⟩]
        obtain ⟨hown, hconn, -⟩ := hmade.made _ _ _ hsubscribed
        have hsame := hnsPrefix _ _ (Bool.and_eq_true_iff.mp hmatch).2
        refine ⟨hstored, ?_, ?_, m.joinedRanking q conn nsPrefix filter, ?_, ?_⟩
        · rw [hown, hconn]
          exact hsubscribed
        · rw [hown]
          exact hname ▸ hsame
        · rw [hown]
          exact ExtTreeMap.getElem?_insert_self
        · rw [hown]
    · rw [if_neg hmatch] at hhas ⊢
      obtain ⟨hstored, hsubscribed, hsame, rk, hrk, href⟩ := hw.held key old handler hold hhas
      refine ⟨hstored, subscribed_joined hsubscribed, hsame, ?_⟩
      show ∃ rk, (m.trackRankings.insert _ _)[_]? = some rk ∧ _
      rw [ExtTreeMap.getElem?_insert_ite]
      split
      · rename_i hhash
        rw [hhash] at hrk
        exact ⟨_, rfl, by rw [href, id_joinedRanking hrk]⟩
      · exact ⟨rk, hrk, href⟩

/-! ### The end of a subscription -/

/-- What the loop over the tracks keeps when the connection leaves the prefix: handlers go from the
tracks, and one goes from the ranking of the prefix. -/
structure Leaves (q : Quicr) (conn : ConnectionHandle) (nsPrefix : TrackNamespace)
    (m m' : ClientManager) : Prop where
  subscribesNamespaces : m'.subscribesNamespaces = m.subscribesNamespaces
  live : m'.live = m.live
  handlers : m'.handlers = m.handlers
  allowSelf : m'.allowSelf = m.allowSelf
  rankings : ∀ (nsHash : UInt64) (rk : SharedRanking), m.trackRankings[nsHash]? = some rk →
    ∃ rk', m'.trackRankings[nsHash]? = some rk' ∧ rk'.id = rk.id ∧ ∀ hash conn',
      ¬(hash = (q.trackHash ⟨nsPrefix, []⟩).trackNamespaceHash ∧ conn' = conn) →
        rk'.nsHandlers.get₂? hash conn' = rk.nsHandlers.get₂? hash conn'
  tracks : ∀ (key : UInt64 × ConnectionHandle) (h' : SubscribeTrackHandler),
    m'.pubSubscribes[key]? = some h' → ∃ h, m.pubSubscribes[key]? = some h ∧
      h'.fullTrackName = h.fullTrackName ∧ h'.trackRanking = h.trackRanking ∧
      ∀ hash conn' handler, h'.subNamespaces.get₂? hash conn' = some handler →
        h.subNamespaces.get₂? hash conn' = some handler

section

variable {conn : ConnectionHandle} {nsPrefix : TrackNamespace} {m' m'' : ClientManager}

theorem Leaves.refl (m : ClientManager) : Leaves q conn nsPrefix m m :=
  ⟨rfl, rfl, rfl, rfl, fun _ rk hrk => ⟨rk, hrk, rfl, fun _ _ _ => rfl⟩,
    fun _ h hh => ⟨h, hh, rfl, rfl, fun _ _ _ hget => hget⟩⟩

theorem Leaves.trans (a : Leaves q conn nsPrefix m m') (b : Leaves q conn nsPrefix m' m'') :
    Leaves q conn nsPrefix m m'' where
  subscribesNamespaces := b.subscribesNamespaces.trans a.subscribesNamespaces
  live := b.live.trans a.live
  handlers := b.handlers.trans a.handlers
  allowSelf := b.allowSelf.trans a.allowSelf
  rankings nsHash rk hrk := by
    obtain ⟨rk', hrk', hid', hget'⟩ := a.rankings nsHash rk hrk
    obtain ⟨rk'', hrk'', hid'', hget''⟩ := b.rankings nsHash rk' hrk'
    exact ⟨rk'', hrk'', hid''.trans hid', fun hash conn' hne =>
      (hget'' hash conn' hne).trans (hget' hash conn' hne)⟩
  tracks key h'' hh'' := by
    obtain ⟨h', hh', hname', href', hget'⟩ := b.tracks key h'' hh''
    obtain ⟨h, hh, hname, href, hget⟩ := a.tracks key h' hh'
    exact ⟨h, hh, hname'.trans hname, href'.trans href, fun hash conn' handler hsome =>
      hget hash conn' handler (hget' hash conn' handler hsome)⟩

theorem leaves_removeOrPausePublisherSubscribe (m : ClientManager) (hash : UInt64) :
    Leaves q conn nsPrefix m (m.removeOrPausePublisherSubscribe hash) := by
  unfold removeOrPausePublisherSubscribe
  split
  · exact .refl m
  · refine ⟨rfl, rfl, rfl, rfl, (Leaves.refl (q := q) m).rankings, fun key h' hh' => ?_⟩
    rw [ExtTreeMap.getElem?_filterMap', Option.bind_eq_some_iff] at hh'
    obtain ⟨h, hh, hkept⟩ := hh'
    refine ⟨h, hh, ?_⟩
    split at hkept
    · split at hkept
      · cases hkept
        exact ⟨rfl, rfl, fun _ _ _ hget => hget⟩
      · cases hkept
    · cases hkept
      exact ⟨rfl, rfl, fun _ _ _ hget => hget⟩

/-- The track has no handler of the connection for the prefix, where it is matched with it. -/
def Left (q : Quicr) (m : ClientManager) (conn : ConnectionHandle) (nsPrefix : TrackNamespace)
    (key : UInt64 × ConnectionHandle) : Prop :=
  ∀ h : SubscribeTrackHandler, m.pubSubscribes[key]? = some h →
    m.allowSelf = true ∨ key.2 ≠ conn →
    q.hasSamePrefix nsPrefix h.fullTrackName.nameSpace = true →
    h.subNamespaces.get₂? (q.trackHash ⟨nsPrefix, []⟩).trackFullnameHash conn = none

theorem Left.mono {key : UInt64 × ConnectionHandle} (h : m.Left q conn nsPrefix key)
    (a : Leaves q conn nsPrefix m m') : m'.Left q conn nsPrefix key := by
  intro h' hh' hself hmatch
  obtain ⟨old, hold, hname, -, hget⟩ := a.tracks key h' hh'
  have hnone := h old hold (a.allowSelf ▸ hself) (hname ▸ hmatch)
  cases hsome : h'.subNamespaces.get₂? (q.trackHash ⟨nsPrefix, []⟩).trackFullnameHash conn with
  | none => rfl
  | some handler =>
    rw [hget _ _ _ hsome] at hnone
    cases hnone

/-- The handler of the connection for the prefix is alive, and there is a ranking to call. -/
structure Callable (q : Quicr) (m : ClientManager) (conn : ConnectionHandle)
    (nsPrefix : TrackNamespace) (handler : HandlerRef) : Prop where
  prefixNamespace : handler.prefixNamespace = nsPrefix
  connectionId : handler.connectionId = conn
  object : ∃ object, m.live[handler.id]? = some object ∧
    object.nsHash = (q.trackHash ⟨nsPrefix, []⟩).trackNamespaceHash ∧ object.connectionId = conn
  ranking : ∃ rk, m.trackRankings[(q.trackHash ⟨nsPrefix, []⟩).trackNamespaceHash]? = some rk

theorem Callable.mono {handler : HandlerRef} (h : m.Callable q conn nsPrefix handler)
    (a : Leaves q conn nsPrefix m m') : m'.Callable q conn nsPrefix handler := by
  obtain ⟨rk, hrk⟩ := h.ranking
  obtain ⟨rk', hrk', -⟩ := a.rankings _ rk hrk
  exact ⟨h.prefixNamespace, h.connectionId, a.live ▸ h.object, rk', hrk'⟩

theorem leaveNamespace_spec {handler : HandlerRef} (h : m.Callable q conn nsPrefix handler)
    (key : UInt64 × ConnectionHandle) :
    ∃ m', leaveNamespace q conn nsPrefix handler m key = some m' ∧
      Leaves q conn nsPrefix m m' ∧ m'.Left q conn nsPrefix key := by
  unfold leaveNamespace
  cases htrack : m.pubSubscribes[key]? with
  | none =>
    refine ⟨m, rfl, .refl m, fun h' hh' => ?_⟩
    rw [htrack] at hh'
    cases hh'
  | some track =>
    dsimp only
    split
    · rename_i hself
      rw [Bool.and_eq_true_iff, Bool.not_eq_true', decide_eq_true_eq] at hself
      refine ⟨m, rfl, .refl m, fun h' _ hmatched => ?_⟩
      rw [hself.1] at hmatched
      exact absurd hself.2 (hmatched.resolve_left Bool.false_ne_true)
    · split
      · obtain ⟨rk, hrk⟩ := h.ranking
        obtain ⟨object, hlive, hhash, hconn⟩ := h.object
        rw [hrk, Option.map_some]
        let left : ClientManager := { m with
          pubSubscribes := m.pubSubscribes.insert key (track.removeSubscribeNamespace q handler)
          trackRankings := m.trackRankings.insert
            (q.trackHash ⟨nsPrefix, []⟩).trackNamespaceHash
            (rk.removeNamespaceHandler m.live handler.id) }
        have hleaves : Leaves q conn nsPrefix m left := by
          refine ⟨rfl, rfl, rfl, rfl, fun nsHash rk' hrk' => ?_, fun key' h' hh' => ?_⟩
          · show ∃ rk'', (m.trackRankings.insert _ _)[nsHash]? = some rk'' ∧ _
            rw [ExtTreeMap.getElem?_insert_ite]
            split
            · rename_i heq
              rw [heq, hrk] at hrk'
              cases hrk'
              refine ⟨_, rfl, rfl, fun hash conn' hne => ?_⟩
              rw [rk.get₂?_removeNamespaceHandler hlive, hhash, hconn, if_neg hne]
            · exact ⟨rk', hrk', rfl, fun _ _ _ => rfl⟩
          · change (m.pubSubscribes.insert _ _)[key']? = some h' at hh'
            rw [ExtTreeMap.getElem?_insert_ite] at hh'
            split at hh'
            · rename_i heq
              cases hh'
              refine ⟨track, heq ▸ htrack, rfl, rfl, fun hash conn' handler' hget => ?_⟩
              rw [SubscribeTrackHandler.removeSubscribeNamespace, ExtTreeMap.get₂?_erase₂] at hget
              split at hget
              · cases hget
              · exact hget
            · exact ⟨h', hh', rfl, rfl, fun _ _ _ hget => hget⟩
        have hleft : left.Left q conn nsPrefix key := by
          intro h' hh' _ _
          change (m.pubSubscribes.insert _ _)[key]? = some h' at hh'
          rw [ExtTreeMap.getElem?_insert_self] at hh'
          cases hh'
          rw [SubscribeTrackHandler.removeSubscribeNamespace, ExtTreeMap.get₂?_erase₂,
            h.prefixNamespace, h.connectionId, if_pos ⟨rfl, rfl⟩]
        have hpaused : Leaves q conn nsPrefix left (left.removeOrPausePublisherSubscribe key.1) :=
          leaves_removeOrPausePublisherSubscribe left key.1
        exact ⟨_, rfl, hleaves.trans hpaused, hleft.mono hpaused⟩
      · rename_i hmatch
        refine ⟨m, rfl, .refl m, fun h' hh' _ hmatched => ?_⟩
        rw [htrack] at hh'
        cases hh'
        exact absurd hmatched hmatch

theorem foldlM_leaveNamespace {handler : HandlerRef} (h : m.Callable q conn nsPrefix handler)
    (keys : List (UInt64 × ConnectionHandle)) :
    ∃ m', keys.foldlM (leaveNamespace q conn nsPrefix handler) m = some m' ∧
      Leaves q conn nsPrefix m m' ∧ ∀ key ∈ keys, m'.Left q conn nsPrefix key := by
  induction keys generalizing m with
  | nil => exact ⟨m, rfl, .refl m, fun key hkey => absurd hkey List.not_mem_nil⟩
  | cons key keys ih =>
    obtain ⟨m', hstep, hleaves, hleft⟩ := leaveNamespace_spec h key
    obtain ⟨m'', hrun, hleaves', hall⟩ := ih (h.mono hleaves)
    refine ⟨m'', ?_, hleaves.trans hleaves', fun key' hkey' => ?_⟩
    · rw [List.foldlM_cons, hstep]
      exact hrun
    · obtain rfl | hlater := List.mem_cons.mp hkey'
      · exact hleft.mono hleaves'
      · exact hall key' hlater

end

/-- The connection has left the prefix, and every track but its own. -/
structure HasLeft (q : Quicr) (m : ClientManager) (conn : ConnectionHandle)
    (nsPrefix : TrackNamespace) (m' : ClientManager) : Prop
    extends Leaves q conn nsPrefix m m' where
  left : ∀ key, m'.Left q conn nsPrefix key

theorem callable {conn : ConnectionHandle} {nsPrefix : TrackNamespace} {handler : HandlerRef}
    (hw : Wired q m) (h : m.subscribesNamespaces.get₂? nsPrefix conn = some handler) :
    m.Callable q conn nsPrefix handler := by
  obtain ⟨hnsPrefix, hconn, -⟩ := hw.made _ _ _ h
  obtain ⟨rk, hrk, -⟩ := hw.registered _ _ _ h
  exact ⟨hnsPrefix, hconn, hw.object _ _ _ h, rk, hrk⟩

/-- The state after the loop and the erasure of the handler. -/
theorem unsubscribeNamespaceReceived_eq {conn : ConnectionHandle} {nsPrefix : TrackNamespace}
    {handler : HandlerRef} (hw : Wired q m)
    (h : m.subscribesNamespaces.get₂? nsPrefix conn = some handler) :
    ∃ m' trackRankings, HasLeft q m conn nsPrefix m' ∧
      m.unsubscribeNamespaceReceived q conn nsPrefix = some { m' with
        subscribesNamespaces := m.subscribesNamespaces.erase₂ nsPrefix conn
        trackRankings } ∧
      (trackRankings = m'.trackRankings ∨
        (∀ conn' ≠ conn, ¬m.Subscribed conn' nsPrefix) ∧ trackRankings =
          m'.trackRankings.erase (q.trackHash ⟨nsPrefix, []⟩).trackNamespaceHash) := by
  obtain ⟨row, hrow, hentry⟩ := ExtTreeMap.get₂?_eq_some.mp h
  obtain ⟨m', hrun, hleaves, hleft⟩ := foldlM_leaveNamespace (callable hw h) m.pubSubscribes.keys
  have hhasLeft : HasLeft q m conn nsPrefix m' := by
    refine ⟨hleaves, fun key h' hh' => ?_⟩
    obtain ⟨old, hold, -⟩ := hleaves.tracks key h' hh'
    have hmem : key ∈ m.pubSubscribes.keys :=
      ExtTreeMap.mem_keys.mpr (ExtTreeMap.mem_iff_isSome_getElem?.mpr (by rw [hold]; rfl))
    exact hleft key hmem h' hh'
  unfold unsubscribeNamespaceReceived
  rw [hrow]
  dsimp only
  rw [hentry]
  dsimp only
  rw [hrun, Option.map_some]
  have htable : m'.subscribesNamespaces = m.subscribesNamespaces := hleaves.subscribesNamespaces
  have herase : m.subscribesNamespaces.erase₂ nsPrefix conn =
      if (row.erase conn).isEmpty then m.subscribesNamespaces.erase nsPrefix
      else m.subscribesNamespaces.insert nsPrefix (row.erase conn) := by
    rw [ExtTreeMap.erase₂, hrow]
  split
  · rename_i hempty
    refine ⟨m', _, hhasLeft, ?_, .inr ⟨fun conn' hne ⟨handler', hget⟩ => ?_, rfl⟩⟩
    · rw [herase, if_pos hempty, htable]
    · obtain ⟨row', hrow', hentry'⟩ := ExtTreeMap.get₂?_eq_some.mp hget
      rw [hrow] at hrow'
      cases hrow'
      have hnone := ExtTreeMap.isEmpty_iff_getElem?.mp hempty conn'
      rw [ExtTreeMap.getElem?_erase_ite, if_neg hne, hentry'] at hnone
      cases hnone
  · rename_i hsome
    refine ⟨m', m'.trackRankings, hhasLeft, ?_, .inl rfl⟩
    rw [herase, if_neg hsome, htable]

/-- The ranking of a prefix that stays subscribed is not erased. -/
theorem RankingUnshared.kept {conn conn' : ConnectionHandle} {nsPrefix nsPrefix' : TrackNamespace}
    (h : m.RankingUnshared q conn nsPrefix) (hlast : ∀ conn' ≠ conn, ¬m.Subscribed conn' nsPrefix)
    (hsubscribed : m.Subscribed conn' nsPrefix') (hother : ¬(nsPrefix' = nsPrefix ∧ conn' = conn)) :
    (q.trackHash ⟨nsPrefix', []⟩).trackNamespaceHash ≠
      (q.trackHash ⟨nsPrefix, []⟩).trackNamespaceHash := by
  intro hhash
  obtain ⟨conn'', hne, hmore⟩ | hunshared := h
  · exact hlast conn'' hne hmore
  · obtain rfl := hunshared conn' nsPrefix' hsubscribed hhash
    exact hlast conn' (fun heq => hother ⟨rfl, heq⟩) hsubscribed

theorem Wired.leave {conn : ConnectionHandle} {nsPrefix : TrackNamespace} {handler : HandlerRef}
    (hw : Wired q m) (h : m.subscribesNamespaces.get₂? nsPrefix conn = some handler)
    (hclean : m.NotOwn conn handler ∧ m.RankingUnshared q conn nsPrefix) :
    ∃ m', m.unsubscribeNamespaceReceived q conn nsPrefix = some m' ∧ Wired q m' := by
  obtain ⟨m', trackRankings, hleft, heq, hrankings⟩ := unsubscribeNamespaceReceived_eq hw h
  -- who is still subscribed
  have htable : ∀ nsPrefix' conn' handler',
      (m.subscribesNamespaces.erase₂ nsPrefix conn).get₂? nsPrefix' conn' = some handler' →
      m.subscribesNamespaces.get₂? nsPrefix' conn' = some handler' ∧
        ¬(nsPrefix' = nsPrefix ∧ conn' = conn) := by
    intro nsPrefix' conn' handler' hget
    rw [ExtTreeMap.get₂?_erase₂] at hget
    split at hget
    · cases hget
    · rename_i hne
      exact ⟨hget, hne⟩
  have hkept : ∀ nsPrefix' conn' handler',
      m.subscribesNamespaces.get₂? nsPrefix' conn' = some handler' →
      ¬(nsPrefix' = nsPrefix ∧ conn' = conn) →
      ∀ rk : SharedRanking,
        m'.trackRankings[(q.trackHash ⟨nsPrefix', []⟩).trackNamespaceHash]? = some rk →
        trackRankings[(q.trackHash ⟨nsPrefix', []⟩).trackNamespaceHash]? = some rk := by
    intro nsPrefix' conn' handler' hget hother rk hrk
    obtain rfl | ⟨hlast, rfl⟩ := hrankings
    · exact hrk
    · rw [ExtTreeMap.getElem?_erase_ite,
        if_neg (hclean.2.kept hlast ⟨handler', hget⟩ hother), hrk]
  refine ⟨_, heq, ⟨fun nsPrefix' conn' handler' hget => ?_, fun nsPrefix' conn' handler' hget => ?_,
    fun _ _ _ _ _ _ hget hget' => hw.distinct _ _ _ _ _ _ (htable _ _ _ hget).1
      (htable _ _ _ hget').1⟩, fun nsPrefix' conn' handler' hget => ?_,
    fun key h' handler' hkey hhas => ?_⟩
  · obtain ⟨hnsPrefix, hconn, hlt⟩ := hw.made _ _ _ (htable _ _ _ hget).1
    exact ⟨hnsPrefix, hconn, hleft.handlers ▸ hlt⟩
  · obtain ⟨object, hobject⟩ := hw.object _ _ _ (htable _ _ _ hget).1
    exact ⟨object, hleft.live ▸ hobject⟩
  · obtain ⟨hwas, hother⟩ := htable _ _ _ hget
    obtain ⟨rk, hrk, hentry⟩ := hw.registered _ _ _ hwas
    obtain ⟨rk', hrk', -, hsame⟩ := hleft.rankings _ rk hrk
    refine ⟨rk', hkept _ _ _ hwas hother rk' hrk', (hsame _ _ ?_).trans hentry⟩
    -- the entry that has gone was of the handler that has left
    rintro ⟨hhash, rfl⟩
    obtain ⟨rk'', hrk'', hentry''⟩ := hw.registered _ _ _ h
    rw [← hhash, hrk] at hrk''
    cases hrk''
    rw [← hhash, hentry] at hentry''
    obtain rfl := hw.distinct _ _ _ _ _ _ hwas h (Option.some.inj hentry'')
    exact hother ⟨(hw.made _ _ _ hwas).1.symm.trans (hw.made _ _ _ h).1, rfl⟩
  · obtain ⟨old, hold, hname, href, hsub⟩ := hleft.tracks key h' hkey
    obtain ⟨hash, conn', hget⟩ := hhas
    have hheld := hw.held key old handler' hold ⟨hash, conn', hsub _ _ _ hget⟩
    have hother : ¬(handler'.prefixNamespace = nsPrefix ∧ handler'.connectionId = conn) := by
      rintro ⟨rfl, rfl⟩
      obtain rfl := Option.some.inj (hheld.subscribed.symm.trans h)
      obtain ⟨rfl, rfl⟩ := hheld.stored _ _ (hsub _ _ _ hget)
      by_cases hself : m'.allowSelf = true ∨ key.2 ≠ handler'.connectionId
      · rw [hleft.left key h' hkey hself (hname ▸ hheld.matched)] at hget
        cases hget
      · obtain ⟨hoff, hown⟩ := not_or.mp hself
        rw [hleft.allowSelf] at hoff
        exact hclean.1.resolve_left hoff key old hold (not_not.mp hown) ⟨_, _, hsub _ _ _ hget⟩
    obtain ⟨rk, hrk, hranking⟩ := hheld.ranking
    obtain ⟨rk', hrk', hid, -⟩ := hleft.rankings _ rk hrk
    refine ⟨fun hash conn' hget => hheld.stored hash conn' (hsub _ _ _ hget), ?_,
      hname ▸ hheld.matched, rk', hkept _ _ _ hheld.subscribed hother rk' hrk', ?_⟩
    · show (m.subscribesNamespaces.erase₂ nsPrefix conn).get₂? _ _ = _
      rw [ExtTreeMap.get₂?_erase₂, if_neg hother]
      exact hheld.subscribed
    · rw [href, hranking, hid]

/-- Nothing but the entries of the table counts. -/
theorem Wired.of_table (hw : Wired q m)
    {table : ExtTreeMap TrackNamespace (ExtTreeMap ConnectionHandle HandlerRef compare) compare}
    (h : ∀ nsPrefix conn, table.get₂? nsPrefix conn = m.subscribesNamespaces.get₂? nsPrefix conn) :
    Wired q { m with subscribesNamespaces := table } := by
  refine ⟨⟨?_, ?_, ?_⟩, ?_, fun key h' handler hkey hhas => ?_⟩
  · simpa only [h] using hw.made
  · simpa only [h] using hw.object
  · simpa only [h] using hw.distinct
  · simpa only [h] using hw.registered
  · obtain ⟨hstored, hsubscribed, hmatch, hranking⟩ := hw.held key h' handler hkey hhas
    exact ⟨hstored, (h _ _).trans hsubscribed, hmatch, hranking⟩

/-- A connection that is not subscribed leaves nothing but an empty row. -/
theorem Wired.notSubscribed {conn : ConnectionHandle} {nsPrefix : TrackNamespace} (hw : Wired q m)
    (h : m.subscribesNamespaces.get₂? nsPrefix conn = none) :
    ∃ m', m.unsubscribeNamespaceReceived q conn nsPrefix = some m' ∧ Wired q m' := by
  unfold unsubscribeNamespaceReceived
  cases hrow : m.subscribesNamespaces[nsPrefix]? with
  | none => exact ⟨m, rfl, hw⟩
  | some row =>
    have hentry : row[conn]? = none := by
      rwa [ExtTreeMap.get₂?, hrow, Option.bind_some] at h
    dsimp only
    rw [hentry]
    refine ⟨_, rfl, ?_⟩
    split
    · rename_i hempty
      refine hw.of_table fun nsPrefix' conn' => ?_
      rw [ExtTreeMap.get₂?, ExtTreeMap.get₂?, ExtTreeMap.getElem?_erase_ite]
      split
      · rename_i heq
        rw [heq, hrow, Option.bind_none, Option.bind_some]
        exact (ExtTreeMap.isEmpty_iff_getElem?.mp hempty conn').symm
      · rfl
    · exact hw

/-! ### Runs -/

/-- A clean step keeps the handlers of the tracks with their rankings. -/
theorem Wired.step (hnsPrefix : ∀ a b, q.isPrefixOf a b = true → q.hasSamePrefix a b = true)
    (e : NamespaceEvent) (hw : Wired q m) (hclean : m.Clean q e) :
    ∃ m', m.step q published e = some m' ∧ Wired q m' := by
  cases e with
  | arrival a =>
    refine ⟨_, rfl, ?_⟩
    cases a with
    | publish tick conn full => exact hw.publishReceived tick conn full hclean
    | subscribeNamespace tick conn nsPrefix filter =>
      exact hw.subscribeNamespaceReceived hnsPrefix tick conn nsPrefix filter hclean
  | unsubscribeNamespace conn nsPrefix =>
    cases h : m.subscribesNamespaces.get₂? nsPrefix conn with
    | none => exact hw.notSubscribed h
    | some handler => exact hw.leave h (hclean handler h)

/-- In a run whose steps are clean, every namespace handler of a track is registered, in every state
reached, with the ranking that the track sends to. -/
theorem driven_of_clean (q : Quicr)
    (hnsPrefix : ∀ a b, q.isPrefixOf a b = true → q.hasSamePrefix a b = true)
    (published : TrackAlias → PublishStatus) (allowSelf : Bool)
    (peerSubscribers : ExtTreeSet UInt64) (subscribes : ExtTreeSet (UInt64 × ConnectionHandle))
    (events : List NamespaceEvent)
    (hclean : Runs.All (step q published) (Clean q) (start allowSelf peerSubscribers subscribes)
      events) (before : List NamespaceEvent) (hbefore : before <+: events) :
    ∃ m, before.foldlM (step q published) (start allowSelf peerSubscribers subscribes) = some m ∧
      m.Driven := by
  obtain ⟨m, hrun, hw⟩ := (hclean.of_prefix hbefore).inv
    (fun m e hw hclean => hw.step hnsPrefix e hclean)
    (wired_start allowSelf peerSubscribers subscribes)
  exact ⟨m, hrun, hw.driven⟩

/-- A subscriber of a namespace, and then a track under it. -/
def subscribedTrack : List NamespaceEvent :=
  [.arrival (.subscribeNamespace 0 1 [[1]] none), .arrival (.publish 0 3 ⟨[[1], [2]], [7]⟩)]

theorem driven_of_clean_subscribedTrack :
    ∃ m, subscribedTrack.foldlM (step .polynomial fun _ => .ok) (start false ∅ ∅) = some m ∧
      m.Driven := by
  refine driven_of_clean .polynomial (fun a b h => ?_) _ false ∅ ∅ subscribedTrack ?_ subscribedTrack
    List.prefix_rfl
  · exact Bool.or_eq_true_iff.mpr (.inl h)
  · refine Runs.all_of_take fun k e hk m hm => ?_
    match k with
    | 0 =>
      cases hk
      cases hm
      refine ⟨fun key h handler hkey => ?_, .inr fun rk hrk => ?_⟩
      · simp [start] at hkey
      · simp [start] at hrk
    | 1 =>
      cases hk
      cases hm
      show ∀ row ∈ matchingRows .polynomial _ _, ∀ row' ∈ matchingRows .polynomial _ _, _
      decide +kernel
    | k + 2 => cases hk

/-- Two prefixes of one track; a second subscription of a connection after it has left; and the end
of the subscription of a connection that has the track itself. -/
theorem not_driven_runs :
    (∃ m, [.arrival (.subscribeNamespace 0 1 [[1]] none),
        .arrival (.subscribeNamespace 0 2 [[1], [2]] none),
        .arrival (.publish 0 3 ⟨[[1], [2]], [7]⟩)].foldlM
      (step .polynomial fun _ => .ok) (start false ∅ ∅) = some m ∧ ¬m.Driven) ∧
    (∃ m, [.arrival (.subscribeNamespace 0 1 [[1]] none),
        .arrival (.subscribeNamespace 0 2 [[1]] none), .unsubscribeNamespace 1 [[1]],
        .arrival (.subscribeNamespace 0 1 [[1]] none),
        .arrival (.publish 0 3 ⟨[[1], [2]], [7]⟩)].foldlM
      (step .polynomial fun _ => .ok) (start false ∅ ∅) = some m ∧ ¬m.Driven) ∧
    ∃ m, [.arrival (.subscribeNamespace 0 3 [[1]] none),
        .arrival (.publish 0 3 ⟨[[1], [2]], [7]⟩), .unsubscribeNamespace 3 [[1]]].foldlM
      (step .polynomial fun _ => .ok) (start false ∅ ∅) = some m ∧ ¬m.Driven := by
  refine ⟨⟨_, rfl, ?_⟩, ⟨_, rfl, ?_⟩, ⟨_, rfl, ?_⟩⟩
  · decide +kernel
  · decide +kernel
  · decide +kernel

end ClientManager

end Laps.Ranking
