import Laps.Peering.Announces
import Laps.Relay.ActiveNamespaces

/-! An announcement of another relay that is advertised and withdrawn again.  The withdrawal goes
through the operations for the end of a client's publication, which find nothing of a peer's track,
leave the request of a namespace, and tell all peers of a withdrawal by this relay. -/

namespace Laps

open Std Client Peering

/-- No row of the announcements is empty, and no set of the prefix table. -/
structure Peering.InfoBase.NoEmptyAnnounces (ib : InfoBase) : Prop where
  rows : ib.announces.NoEmptyRow
  sets : NoEmptySet ib.prefixLookupAnnounces

namespace Relay

/-! ### Announcements that are undone -/

/-- The track, or the namespace, is announced by nobody. -/
structure AnnouncedByNobody (q : Quicr) (r : Relay) (info : AnnounceInfo) : Prop where
  nodes : ∀ node, r.infoBase.announces.get₂? info.fullnameHash node = none
  nameSpace : info.flags &&& 1 = 1 →
    (∀ node, r.infoBase.announces.get₂?
      (q.trackHash ⟨info.nameSpace, []⟩).trackFullnameHash node = none) ∧
      ∀ conn : ConnectionHandle, r.state.pubNamespaceActive[(info.nameSpace, conn)]? = none
  track : info.flags &&& 1 ≠ 1 → ∀ conn : ConnectionHandle,
    r.state.pubSubscribes[((q.trackHash info.fullTrackName).trackFullnameHash, conn)]? = none

/-- The prefix table does not list the announcement under its namespace. -/
def NotIndexed (q : Quicr) (ib : InfoBase) (info : AnnounceInfo) : Prop :=
  ∀ x ∈ InfoBase.prefixHashNamespaceTuples q info.nameSpace,
    ¬InfoBase.Indexed ib.prefixLookupAnnounces x info.fullnameHash

/-- What sessions other than `id` are sent is withdrawals by the node. -/
def SendsWithdrawals (source : NodeIdValueType) (id : PeerSessionId)
    (sessions sessions' : ExtTreeMap PeerSessionId PeerSession compare) : Prop :=
  ∀ id' session session', id' ≠ id → sessions[id']? = some session →
    sessions'[id']? = some session' → ∀ msg ∈ session'.enqueued.drop session.enqueued.length,
      ∃ info, msg = .announceInfo info true ∧ info.sourceNodeId = source

/-- The relay after the advertisement has come on a session. -/
def advertised (q : Quicr) (r : Relay) (id : PeerSessionId) (info : AnnounceInfo) : Relay :=
  r.announceInfoReceived q id info false

/-- The relay after the withdrawal has followed. -/
def withdrawn (q : Quicr) (r : Relay) (id : PeerSessionId) (info : AnnounceInfo) : Relay :=
  (r.advertised q id info).announceInfoReceived q id info true

/-- The tables are as they were before the advertisement, and the withdrawal sends nothing else to
other peers. -/
structure WithdrawUndoes (q : Quicr) (r : Relay) (id : PeerSessionId) (info : AnnounceInfo) :
    Prop where
  requests : (r.withdrawn q id info).state.requests = r.state.requests
  pubNamespaceActive :
    (r.withdrawn q id info).state.pubNamespaceActive = r.state.pubNamespaceActive
  pubSubscribes : (r.withdrawn q id info).state.pubSubscribes = r.state.pubSubscribes
  announces : (r.withdrawn q id info).infoBase.announces = r.infoBase.announces
  prefixes : (r.withdrawn q id info).infoBase.prefixLookupAnnounces =
    r.infoBase.prefixLookupAnnounces
  client : SendsWithdrawals info.sourceNodeId id (r.advertised q id info).clientPeerSessions
    (r.withdrawn q id info).clientPeerSessions
  server : SendsWithdrawals info.sourceNodeId id (r.advertised q id info).serverPeerSessions
    (r.withdrawn q id info).serverPeerSessions

/-- No session but the one is connected. -/
structure NoOtherSession (r : Relay) (id : PeerSessionId) : Prop where
  client : ∀ (id' : PeerSessionId) session, id' ≠ id → r.clientPeerSessions[id']? = some session →
    session.status ≠ .connected
  server : ∀ (id' : PeerSessionId) session, id' ≠ id → r.serverPeerSessions[id']? = some session →
    session.status ≠ .connected

section Undo

variable {q : Quicr} {r : Relay} {id : PeerSessionId} {info : AnnounceInfo}

/-! ### The advertisement -/

theorem isSome_getPeerSession_sendAnnounceInfos (r : Relay) (skip : PeerSessionId → Bool)
    (info : AnnounceInfo) (withdraw : Bool) (id : PeerSessionId) :
    ((r.sendAnnounceInfos skip info withdraw).getPeerSession id).isSome =
      (r.getPeerSession id).isSome := by
  simp only [getPeerSession, sendAnnounceInfos, ExtTreeMap.getElem?_map]
  cases r.serverPeerSessions[id]? with
  | some session => rfl
  | none => cases r.clientPeerSessions[id]? <;> rfl

/-- What is done of an announcement that is new. -/
theorem advertised_eq (hsession : (r.getPeerSession id).isSome = true)
    (hnobody : AnnouncedByNobody q r info) :
    r.advertised q id info =
      if info.flags &&& 1 = 1 then
        ((r.setInfoBase (r.infoBase.addAnnounce q info).1).sendAnnounceInfos (· == id) info
          false).publishNamespaceReceived q 0 info.nameSpace
            (q.trackHash info.fullTrackName).trackNamespaceHash
      else
        ((r.setInfoBase (r.infoBase.addAnnounce q info).1).sendAnnounceInfos (· == id) info
          false).publishReceived q 0 0 info.fullTrackName := by
  have hnew : (r.infoBase.addAnnounce q info).2 = true := by
    show (r.infoBase.announces.get₂? info.fullnameHash info.sourceNodeId).isNone = true
    rw [hnobody.nodes]
    rfl
  obtain ⟨session, hget⟩ := Option.isSome_iff_exists.mp hsession
  unfold advertised announceInfoReceived updateAnnounces
  rw [hget]
  simp only [Bool.false_eq_true, if_false, hnew, Bool.not_true]

/-- A namespace of a peer gets a request and becomes active. -/
theorem publishNamespaceReceived_peer {nameSpace : TrackNamespace}
    (hnew : r.state.pubNamespaceActive[(nameSpace, (0 : ConnectionHandle))]? = none)
    (req : RequestId) :
    r.publishNamespaceReceived q 0 nameSpace req = r.mapState fun st =>
      { st with
        requests := st.requests.insert (0, req) nameSpace
        pubNamespaceActive := st.pubNamespaceActive.insertIfNew (nameSpace, 0) ∅ } := by
  have hout : r.state.pubNamespaceActive.contains (nameSpace, 0) = false := by
    rw [← ExtTreeMap.isSome_getElem?_eq_contains, hnew]
    rfl
  unfold publishNamespaceReceived
  dsimp only
  split
  · rename_i hactive
    exact absurd (hout.symm.trans hactive) Bool.false_ne_true
  · rfl

/-! ### The withdrawal -/

/-- Of a track of a peer nothing is found. -/
theorem state_withdraw_publish (hpeer : r.NoPeerRequest) (hflags : info.flags &&& 1 ≠ 1) :
    (r.announceInfoReceived q id info true).state = r.state := by
  unfold announceInfoReceived
  split
  · rfl
  · dsimp only
    split
    · rfl
    · show (publishDoneReceived q _ 0 0).state = r.state
      unfold publishDoneReceived
      split
      · rfl
      · rename_i full hget
        rw [NoPeerRequest] at hpeer
        exact absurd (hget.symm.trans hpeer) (by simp)

/-- A namespace of a peer is no longer active, its request stays, and all sessions are told of a
withdrawal by this relay. -/
theorem publishNamespaceDoneReceived_peer {nameSpace : TrackNamespace} {req : RequestId}
    (hreq : r.state.requests[((0 : ConnectionHandle), req)]? = some nameSpace)
    (htracks : r.state.pubNamespaceActive.getD (nameSpace, 0) ∅ = ∅)
    (hrow : r.infoBase.announces.contains (q.trackHash ⟨nameSpace, []⟩).trackFullnameHash =
      false) :
    r.publishNamespaceDoneReceived q 0 req =
      (r.sendAnnounceInfos (fun _ => false) (r.announceInfo q ⟨nameSpace, []⟩ true) true).mapState
        fun st => { st with pubNamespaceActive := st.pubNamespaceActive.erase (nameSpace, 0) } := by
  have hremove : r.infoBase.removeAnnounce q (r.announceInfo q ⟨nameSpace, []⟩ true) =
      (r.infoBase, false) := by
    unfold InfoBase.removeAnnounce
    refine if_neg fun h => ?_
    exact Bool.false_ne_true (hrow.symm.trans h)
  have hannounce : r.clientAnnounce q ⟨nameSpace, []⟩ true true =
      r.sendAnnounceInfos (fun _ => false) (r.announceInfo q ⟨nameSpace, []⟩ true) true := by
    unfold clientAnnounce updateAnnounces
    dsimp only
    rw [if_pos rfl, if_pos rfl, hremove]
    rfl
  unfold publishNamespaceDoneReceived
  rw [hreq]
  dsimp only
  rw [hannounce, if_pos rfl]
  show Relay.mapState _ _ = _
  have hnone : ((r.sendAnnounceInfos (fun _ => false) (r.announceInfo q ⟨nameSpace, []⟩ true)
      true).state.pubNamespaceActive.getD (nameSpace, 0) ∅).toList = [] := by
    show (r.state.pubNamespaceActive.getD (nameSpace, 0) ∅).toList = []
    rw [htracks]
    simp
  rw [hnone]
  rfl

theorem getElem?_announces {ib : InfoBase} (hrows : ib.announces.NoEmptyRow) {hash : UInt64}
    (hnodes : ∀ node, ib.announces.get₂? hash node = none) : ib.announces[hash]? = none := by
  rw [← ExtTreeMap.contains_eq_false_iff, Bool.eq_false_iff]
  intro hcontains
  obtain ⟨node, info, hget⟩ := hrows.contains_iff.mp hcontains
  rw [hnodes] at hget
  cases hget

theorem withdrawn_eq (hsession : (r.getPeerSession id).isSome = true)
    (hrows : r.infoBase.announces.NoEmptyRow) (hnobody : AnnouncedByNobody q r info)
    (hflags : info.flags &&& 1 = 1) :
    r.withdrawn q id info =
      let infoBase := ((r.infoBase.addAnnounce q info).1.removeAnnounce q info).1
      if info.nameSpace = [] then (r.advertised q id info).setInfoBase infoBase
      else
        ((((r.advertised q id info).setInfoBase infoBase).sendAnnounceInfos (· == id) info
          true).sendAnnounceInfos (fun _ => false) (r.announceInfo q ⟨info.nameSpace, []⟩ true)
            true).mapState fun st =>
          { st with pubNamespaceActive := st.pubNamespaceActive.erase (info.nameSpace, 0) } := by
  obtain ⟨hnodes, hactive⟩ := hnobody.nameSpace hflags
  have hrow := getElem?_announces hrows hnobody.nodes
  have hundone := InfoBase.announces_removeAnnounce_addAnnounce q r.infoBase info hrow
  set r₀ := (r.setInfoBase (r.infoBase.addAnnounce q info).1).sendAnnounceInfos (· == id) info
    false with hr₀
  have hadv := advertised_eq hsession hnobody
  rw [if_pos hflags, publishNamespaceReceived_peer (r := r₀) (hactive 0)] at hadv
  have hsession' : ((r.advertised q id info).getPeerSession id).isSome = true := by
    rw [hadv]
    show (r₀.getPeerSession id).isSome = true
    rw [hr₀, isSome_getPeerSession_sendAnnounceInfos]
    exact hsession
  obtain ⟨session, hget⟩ := Option.isSome_iff_exists.mp hsession'
  have hinfo : (r.advertised q id info).infoBase = (r.infoBase.addAnnounce q info).1 := by
    rw [hadv]
    rfl
  have hremoved : ((r.infoBase.addAnnounce q info).1.removeAnnounce q info).2 = true ↔
      info.nameSpace ≠ [] := by
    have hcontains : (r.infoBase.addAnnounce q info).1.announces.contains info.fullnameHash =
        true := ExtTreeMap.contains_insert_self
    rw [InfoBase.removed_removeAnnounce]
    constructor
    · rintro ⟨-, x, hx, -⟩ hempty
      rw [hempty] at hx
      exact absurd hx List.not_mem_nil
    · intro hne
      have hmem := InfoBase.mem_prefixHashNamespaceTuples (q := q).mpr
        ⟨info.nameSpace, hne, List.prefix_rfl, rfl⟩
      refine ⟨hcontains, _, hmem, ?_⟩
      exact (InfoBase.indexed_addAnnounce q r.infoBase info).mpr
        (.inr ⟨hnobody.nodes info.sourceNodeId, hmem, rfl⟩)
  unfold withdrawn announceInfoReceived updateAnnounces
  rw [hget]
  simp only [if_true, hinfo]
  set infoBase := ((r.infoBase.addAnnounce q info).1.removeAnnounce q info).1 with hib
  by_cases hempty : info.nameSpace = []
  · rw [if_pos hempty, if_pos]
    rw [Bool.not_eq_true', Bool.eq_false_iff]
    exact fun h => hremoved.mp h hempty
  · rw [if_neg hempty, if_neg]
    · set r₁ := ((r.advertised q id info).setInfoBase infoBase).sendAnnounceInfos (· == id) info
        true with hr₁
      have hstate : r₁.state = (r.advertised q id info).state := rfl
      have hreq : r₁.state.requests[((0 : ConnectionHandle),
          (q.trackHash info.fullTrackName).trackNamespaceHash)]? = some info.nameSpace := by
        rw [hstate, hadv]
        exact ExtTreeMap.getElem?_insert_self
      have htracks : r₁.state.pubNamespaceActive.getD (info.nameSpace, 0) ∅ = ∅ := by
        rw [hstate, hadv]
        show (r.state.pubNamespaceActive.insertIfNew (info.nameSpace, 0) ∅).getD _ ∅ = ∅
        rw [ExtTreeMap.getD_eq_getD_getElem?, ExtTreeMap.getElem?_insertIfNew_getD, if_pos rfl]
        simp [hactive]
      have hnode : r₁.announceInfo q ⟨info.nameSpace, []⟩ true =
          r.announceInfo q ⟨info.nameSpace, []⟩ true := by
        have hid : r₁.nodeId = r.nodeId := by
          show (r.advertised q id info).nodeId = r.nodeId
          rw [hadv]
          rfl
        rw [announceInfo, hid, announceInfo]
      rw [if_pos hflags]
      refine (publishNamespaceDoneReceived_peer hreq htracks ?_).trans (by rw [hnode])
      show infoBase.announces.contains _ = false
      rw [hundone, ← ExtTreeMap.isSome_getElem?_eq_contains, getElem?_announces hrows hnodes]
      rfl
    · rw [hremoved.mpr hempty]
      exact Bool.false_ne_true

/-! ### What sessions are sent -/

@[simp] theorem status_sendAnnounceInfo (session : PeerSession) (info : AnnounceInfo)
    (withdraw : Bool) : (session.sendAnnounceInfo info withdraw).status = session.status := by
  unfold PeerSession.sendAnnounceInfo
  split <;> rfl

/-- Of two withdrawals the second one is by another node, so that no session may be told. -/
theorem sendsWithdrawals_iff {sessions sessions' : ExtTreeMap PeerSessionId PeerSession compare}
    {own : AnnounceInfo} (hown : own.sourceNodeId ≠ info.sourceNodeId)
    (hget : ∀ id' : PeerSessionId, id' ≠ id → sessions'[id']? = sessions[id']?.map fun session =>
      (session.sendAnnounceInfo info true).sendAnnounceInfo own true) :
    SendsWithdrawals info.sourceNodeId id sessions sessions' ↔
      ∀ (id' : PeerSessionId) session, id' ≠ id → sessions[id']? = some session →
        session.status ≠ .connected := by
  constructor
  · intro h id' session hne hsome hconnected
    have hget' := hget id' hne
    rw [hsome, Option.map_some] at hget'
    have hmem : ControlMessage.announceInfo own true ∈
        ((session.sendAnnounceInfo info true).sendAnnounceInfo own true).enqueued.drop
          session.enqueued.length := by
      have henqueued : ((session.sendAnnounceInfo info true).sendAnnounceInfo own true).enqueued =
          session.enqueued ++ [.announceInfo info true, .announceInfo own true] := by
        simp [PeerSession.sendAnnounceInfo, PeerSession.enqueue, hconnected]
      rw [henqueued, List.drop_left]
      simp
    obtain ⟨info', heq, hsource⟩ := h id' session _ hne hsome hget' _ hmem
    cases heq
    exact hown hsource
  · intro h id' session session' hne hsome hsome' msg hmsg
    have hstatus := h id' session hne hsome
    rw [hget id' hne, hsome, Option.map_some, Option.some_inj] at hsome'
    have hsame : session' = session := by
      rw [← hsome']
      simp [PeerSession.sendAnnounceInfo, hstatus]
    rw [hsame, List.drop_length] at hmsg
    exact absurd hmsg List.not_mem_nil

theorem client_sendAnnounceInfos (r : Relay) (skip : PeerSessionId → Bool) (info : AnnounceInfo)
    (withdraw : Bool) (id' : PeerSessionId) :
    (r.sendAnnounceInfos skip info withdraw).clientPeerSessions[id']? =
      r.clientPeerSessions[id']?.map fun session =>
        if skip id' then session else session.sendAnnounceInfo info withdraw :=
  ExtTreeMap.getElem?_map ..

theorem server_sendAnnounceInfos (r : Relay) (skip : PeerSessionId → Bool) (info : AnnounceInfo)
    (withdraw : Bool) (id' : PeerSessionId) :
    (r.sendAnnounceInfos skip info withdraw).serverPeerSessions[id']? =
      r.serverPeerSessions[id']?.map fun session =>
        if skip id' then session else session.sendAnnounceInfo info withdraw :=
  ExtTreeMap.getElem?_map ..

theorem noOtherSession_congr {r' : Relay} (hclient : r'.clientPeerSessions = r.clientPeerSessions)
    (hserver : r'.serverPeerSessions = r.serverPeerSessions) :
    NoOtherSession r' id ↔ NoOtherSession r id := by
  constructor
  · rintro ⟨h, h'⟩
    exact ⟨hclient ▸ h, hserver ▸ h'⟩
  · rintro ⟨h, h'⟩
    exact ⟨hclient ▸ h, hserver ▸ h'⟩

theorem noOtherSession_sendAnnounceInfos {skip : PeerSessionId → Bool} {withdraw : Bool} :
    NoOtherSession (r.sendAnnounceInfos skip info withdraw) id ↔ NoOtherSession r id := by
  have hsame : ∀ (session : PeerSession) (id' : PeerSessionId),
      (if skip id' then session else session.sendAnnounceInfo info withdraw).status =
        session.status := by
    intro session id'
    split
    · rfl
    · exact status_sendAnnounceInfo ..
  constructor
  · rintro ⟨hclient, hserver⟩
    constructor
    · intro id' session hne hget
      have hsent := client_sendAnnounceInfos r skip info withdraw id'
      rw [hget, Option.map_some] at hsent
      rw [← hsame session id']
      exact hclient id' _ hne hsent
    · intro id' session hne hget
      have hsent := server_sendAnnounceInfos r skip info withdraw id'
      rw [hget, Option.map_some] at hsent
      rw [← hsame session id']
      exact hserver id' _ hne hsent
  · rintro ⟨hclient, hserver⟩
    constructor
    · intro id' session hne hget
      rw [client_sendAnnounceInfos] at hget
      obtain ⟨old, hold, rfl⟩ := Option.map_eq_some_iff.mp hget
      rw [hsame]
      exact hclient id' old hne hold
    · intro id' session hne hget
      rw [server_sendAnnounceInfos] at hget
      obtain ⟨old, hold, rfl⟩ := Option.map_eq_some_iff.mp hget
      rw [hsame]
      exact hserver id' old hne hold

/-! ### When the withdrawal undoes the advertisement -/

/-- A message on a session that is not there is left alone. -/
theorem announceInfoReceived_none (hsession : r.getPeerSession id = none) (withdraw : Bool) :
    r.announceInfoReceived q id info withdraw = r := by
  unfold announceInfoReceived
  rw [hsession]

theorem withdrawUndoes_none (hsession : r.getPeerSession id = none) :
    WithdrawUndoes q r id info := by
  have hadv : r.advertised q id info = r := announceInfoReceived_none hsession false
  have hwith : r.withdrawn q id info = r := by
    rw [withdrawn, hadv]
    exact announceInfoReceived_none hsession true
  have hsends : ∀ sessions : ExtTreeMap PeerSessionId PeerSession compare,
      SendsWithdrawals info.sourceNodeId id sessions sessions := by
    intro sessions id' session session' _ hget hget' msg hmsg
    rw [hget] at hget'
    cases hget'
    rw [List.drop_length] at hmsg
    exact absurd hmsg List.not_mem_nil
  constructor <;> rw [hwith]
  · rw [hadv]
    exact hsends _
  · rw [hadv]
    exact hsends _

/-- The handler of a peer's track stays. -/
theorem not_withdrawUndoes_publish (hsession : (r.getPeerSession id).isSome = true)
    (hpeer : r.NoPeerRequest) (hnobody : AnnouncedByNobody q r info)
    (hflags : info.flags &&& 1 ≠ 1) : ¬WithdrawUndoes q r id info := by
  intro hundoes
  have hadv := advertised_eq hsession hnobody
  rw [if_neg hflags] at hadv
  set r₀ := (r.setInfoBase (r.infoBase.addAnnounce q info).1).sendAnnounceInfos (· == id) info
    false with hr₀
  have hpeer' : (r.advertised q id info).NoPeerRequest := by
    rw [hadv]
    exact hpeer
  have hstate : (r.withdrawn q id info).state = (r.advertised q id info).state :=
    state_withdraw_publish hpeer' hflags
  have hsubs := hundoes.pubSubscribes
  rw [hstate, hadv] at hsubs
  have hhandler : ((r₀.publishReceived q 0 0 info.fullTrackName).state.pubSubscribes[
      ((q.trackHash info.fullTrackName).trackFullnameHash, (0 : ConnectionHandle))]?).isSome =
      true := by
    show ((ExtTreeMap.modify (ExtTreeMap.insert _ _ _) _ _)[_]?).isSome = true
    rw [ExtTreeMap.getElem?_modify, if_pos (ReflCmp.compare_self), ExtTreeMap.getElem?_insert_self]
    rfl
  rw [hsubs, hnobody.track hflags 0] at hhandler
  cases hhandler

theorem withdrawUndoes_nameSpace_iff (hremote : info.sourceNodeId ≠ r.nodeId)
    (hsession : (r.getPeerSession id).isSome = true) (htidy : r.infoBase.NoEmptyAnnounces)
    (hnobody : AnnouncedByNobody q r info) (hflags : info.flags &&& 1 = 1) :
    WithdrawUndoes q r id info ↔
      info.nameSpace ≠ [] ∧ NotIndexed q r.infoBase info ∧
        r.state.requests[((0 : ConnectionHandle),
          (q.trackHash info.fullTrackName).trackNamespaceHash)]? = some info.nameSpace ∧
        NoOtherSession r id := by
  obtain ⟨-, hactive⟩ := hnobody.nameSpace hflags
  have hwith := withdrawn_eq (q := q) hsession htidy.rows hnobody hflags
  have hrow := getElem?_announces htidy.rows hnobody.nodes
  have hprefixes := InfoBase.prefixLookup_removeAnnounce_addAnnounce_iff q r.infoBase info
    htidy.sets
  set r₀ := (r.setInfoBase (r.infoBase.addAnnounce q info).1).sendAnnounceInfos (· == id) info
    false with hr₀
  have hadv := advertised_eq hsession hnobody
  rw [if_pos hflags, publishNamespaceReceived_peer (r := r₀) (hactive 0)] at hadv
  by_cases hempty : info.nameSpace = []
  · rw [if_pos hempty, hadv] at hwith
    refine iff_of_false (fun hundoes => ?_) fun h => h.1 hempty
    have hns := hundoes.pubNamespaceActive
    rw [hwith] at hns
    have hget := congrArg (·[(info.nameSpace, (0 : ConnectionHandle))]?) hns
    change (r.state.pubNamespaceActive.insertIfNew (info.nameSpace, 0) ∅)[_]? =
      r.state.pubNamespaceActive[_]? at hget
    rw [ExtTreeMap.getElem?_insertIfNew_getD, if_pos rfl, hactive] at hget
    cases hget
  · rw [if_neg hempty] at hwith
    have hclient : ∀ id' : PeerSessionId, id' ≠ id →
        (r.withdrawn q id info).clientPeerSessions[id']? =
          (r.advertised q id info).clientPeerSessions[id']?.map fun session =>
            (session.sendAnnounceInfo info true).sendAnnounceInfo
              (r.announceInfo q ⟨info.nameSpace, []⟩ true) true := by
      intro id' hne
      rw [hwith]
      show (Relay.sendAnnounceInfos _ _ _ _).clientPeerSessions[id']? = _
      rw [client_sendAnnounceInfos, client_sendAnnounceInfos, Option.map_map]
      simp [Function.comp_def, hne, setInfoBase]
    have hserver : ∀ id' : PeerSessionId, id' ≠ id →
        (r.withdrawn q id info).serverPeerSessions[id']? =
          (r.advertised q id info).serverPeerSessions[id']?.map fun session =>
            (session.sendAnnounceInfo info true).sendAnnounceInfo
              (r.announceInfo q ⟨info.nameSpace, []⟩ true) true := by
      intro id' hne
      rw [hwith]
      show (Relay.sendAnnounceInfos _ _ _ _).serverPeerSessions[id']? = _
      rw [server_sendAnnounceInfos, server_sendAnnounceInfos, Option.map_map]
      simp [Function.comp_def, hne, setInfoBase]
    have hown : (r.announceInfo q ⟨info.nameSpace, []⟩ true).sourceNodeId ≠ info.sourceNodeId :=
      Ne.symm hremote
    have hother : NoOtherSession (r.advertised q id info) id ↔ NoOtherSession r id := by
      have hmade : NoOtherSession (r.advertised q id info) id ↔ NoOtherSession r₀ id :=
        noOtherSession_congr (by rw [hadv]; rfl) (by rw [hadv]; rfl)
      exact hmade.trans (noOtherSession_sendAnnounceInfos.trans (noOtherSession_congr rfl rfl))
    have hrequests : (r.withdrawn q id info).state.requests =
        r.state.requests.insert (0, (q.trackHash info.fullTrackName).trackNamespaceHash)
          info.nameSpace := by
      rw [hwith, hadv]
      rfl
    have hkept : r.state.requests.insert (0, (q.trackHash info.fullTrackName).trackNamespaceHash)
          info.nameSpace = r.state.requests ↔
        r.state.requests[((0 : ConnectionHandle),
          (q.trackHash info.fullTrackName).trackNamespaceHash)]? = some info.nameSpace :=
      ExtTreeMap.insert_eq_self_iff
    constructor
    · intro hundoes
      have hsame := hundoes.prefixes
      rw [hwith] at hsame
      refine ⟨hempty, hprefixes.mp hsame, hkept.mp (hrequests.symm.trans hundoes.requests),
        hother.mp ⟨?_, ?_⟩⟩
      · exact (sendsWithdrawals_iff hown hclient).mp hundoes.client
      · exact (sendsWithdrawals_iff hown hserver).mp hundoes.server
    · rintro ⟨-, hout, hreq, hno⟩
      obtain ⟨hnoClient, hnoServer⟩ := hother.mpr hno
      refine ⟨hrequests.trans (hkept.mpr hreq), ?_, ?_, ?_, ?_,
        (sendsWithdrawals_iff hown hclient).mpr hnoClient,
        (sendsWithdrawals_iff hown hserver).mpr hnoServer⟩
      · rw [hwith, hadv]
        show (r.state.pubNamespaceActive.insertIfNew (info.nameSpace, 0) ∅).erase
          (info.nameSpace, 0) = r.state.pubNamespaceActive
        exact ExtTreeMap.erase_insertIfNew (hactive 0) ∅
      · rw [hwith, hadv]
        rfl
      · rw [hwith]
        exact InfoBase.announces_removeAnnounce_addAnnounce q r.infoBase info hrow
      · rw [hwith]
        exact hprefixes.mpr hout

/-- The withdrawal undoes the advertisement if and only if it is of a namespace whose request is left
from an earlier advertisement, at a relay with no other session that is connected. -/
theorem withdrawUndoes_iff (q : Quicr) (r : Relay) (id : PeerSessionId) (info : AnnounceInfo)
    (hremote : info.sourceNodeId ≠ r.nodeId)
    (htidy : r.infoBase.NoEmptyAnnounces) (hpeer : r.NoPeerRequest)
    (hnobody : AnnouncedByNobody q r info) :
    WithdrawUndoes q r id info ↔
      r.getPeerSession id = none ∨
      (info.flags &&& 1 = 1 ∧ info.nameSpace ≠ [] ∧ NotIndexed q r.infoBase info ∧
        r.state.requests[((0 : ConnectionHandle),
          (q.trackHash info.fullTrackName).trackNamespaceHash)]? = some info.nameSpace ∧
        NoOtherSession r id) := by
  cases hget : r.getPeerSession id with
  | none => exact iff_of_true (withdrawUndoes_none hget) (.inl rfl)
  | some session =>
    have hsession : (r.getPeerSession id).isSome = true := by rw [hget]; rfl
    by_cases hflags : info.flags &&& 1 = 1
    · rw [withdrawUndoes_nameSpace_iff hremote hsession htidy hnobody hflags]
      simp [hflags]
    · exact iff_of_false (not_withdrawUndoes_publish hsession hpeer hnobody hflags) (by simp [hflags])

/-! ### What holds of every relay -/

theorem noEmptyAnnounces_updateAnnounces (h : r.infoBase.NoEmptyAnnounces) (withdraw : Bool) :
    (r.updateAnnounces q info withdraw).1.infoBase.NoEmptyAnnounces := by
  cases withdraw with
  | false => exact ⟨h.rows.insertIfNew₂ _ _ _, h.sets.addAnnounce q r.infoBase info⟩
  | true =>
    exact ⟨InfoBase.noEmptyRow_removeAnnounce h.rows info,
      (InfoBase.prefixLookup_removeAnnounce q r.infoBase info h.sets).1⟩

theorem noPeerRequest_subscribeInfoReceived (h : r.NoPeerRequest) (si : Peering.SubscribeInfo)
    (withdraw : Bool) : (r.subscribeInfoReceived q id si withdraw).NoPeerRequest := by
  unfold subscribeInfoReceived
  split
  · exact h
  · dsimp only
    set r₁ := if (r.updateSubscribes si withdraw).2 then
      (r.updateSubscribes si withdraw).1.sendSubscribeInfos (· == id) si withdraw
      else (r.updateSubscribes si withdraw).1 with hr₁
    have h₁ : r₁.NoPeerRequest := by
      have hstate : r₁.state = r.state := by
        rw [hr₁]
        split <;> rfl
      rwa [NoPeerRequest, hstate]
    split
    · unfold subscribeWithdrawn
      dsimp only
      refine (keepsRequests_removeOrPause _ _).keepsActive.peer ?_
      split
      · exact h₁
      · split
        · exact h₁
        · split
          · split
            · exact (KeepsActive.of_state (state_setPeerSession ..)).peer h₁
            · exact (KeepsActive.of_state (state_setPeerSession ..)).peer h₁
          · exact (KeepsActive.of_state (state_setPeerSession ..)).peer h₁
    · unfold subscribeAdvertised
      split
      · exact h₁
      · split
        · exact h₁
        · split
          · refine (KeepsActive.of_state (state_forwardToNode ..)).peer ?_
            exact (keepsActive_processSubscribe ..).peer h₁
          · exact h₁

theorem noPeerRequest_announceInfoReceived (h : r.NoPeerRequest) (withdraw : Bool) :
    (r.announceInfoReceived q id info withdraw).NoPeerRequest := by
  unfold announceInfoReceived
  split
  · exact h
  · dsimp only
    split
    · exact h
    · set r₁ := (r.updateAnnounces q info withdraw).1.sendAnnounceInfos (· == id) info withdraw
      have h₁ : r₁.NoPeerRequest := h
      split
      · split
        · exact (active_publishNamespaceDoneReceived r₁ _ _).2.2 h₁
        · exact (active_publishNamespaceReceived r₁ _ _ _).2.2 h₁
      · split
        · exact (keepsActive_publishDoneReceived r₁ _ _).peer h₁
        · exact (keepsActive_publishReceived r₁ _ _ _).peer h₁

theorem noPeerRequest_sessionChanged {r' : Relay} {status : StatusValue} {remote : NodeInfo}
    (h : r.NoPeerRequest) (hchanged : r.sessionChanged q id status remote = some r') :
    r'.NoPeerRequest := by
  unfold sessionChanged at hchanged
  split at hchanged
  · cases hchanged
    exact h
  · cases hchanged
    exact h
  · obtain ⟨infoBase, -, hchanged⟩ := Option.bind_eq_some_iff.mp hchanged
    obtain ⟨lost, -, hchanged⟩ := Option.bind_eq_some_iff.mp hchanged
    dsimp only at hchanged
    set r₁ := ((r.propagateNodeInfo remote true).setInfoBase infoBase).setInfoBase
      { ((r.propagateNodeInfo remote true).setInfoBase infoBase).infoBase with
        clientFib := lost.clientFib }
    have hremove : (lost.removeSub.foldl (fun r si => r.subscribeInfoReceived q id si true)
        r₁).NoPeerRequest :=
      List.foldlRecOn _ _ h fun r hr si _ => noPeerRequest_subscribeInfoReceived hr si true
    have hupdate := List.foldlRecOn (motive := NoPeerRequest) lost.updateSub
      (fun r sub => r.subscribeInfoReceived q sub.1 sub.2 false) hremove
      fun r hr sub _ => noPeerRequest_subscribeInfoReceived hr sub.2 false
    split at hchanged
    · cases hchanged
      exact hupdate
    · cases hchanged
      exact hupdate

/-- Nothing that happens at the managers registers a handler for the request of peers. -/
theorem noPeerRequest_managerCall {r' : Relay} {call : ManagerCall} (h : r.NoPeerRequest)
    (hcall : r.managerCall q call = some r') : r'.NoPeerRequest := by
  cases call with
  | client call =>
    cases hcall
    cases call with
    | subscribeReceived conn req full attrs =>
      show NoPeerRequest (r.subscribeReceived q conn req full attrs)
      unfold subscribeReceived
      dsimp only
      split
      · exact h
      · exact (keepsActive_processSubscribe ..).peer h
    | unsubscribeReceived conn req =>
      exact (keepsRequests_unsubscribeReceived r conn req).keepsActive.peer h
    | connectionStatusChanged conn status =>
      exact (active_connectionStatusChanged r conn status).2.2 h
    | publishReceived conn req full => exact (keepsActive_publishReceived r conn req full).peer h
    | publishDoneReceived conn req => exact (keepsActive_publishDoneReceived r conn req).peer h
    | publishNamespaceReceived conn nameSpace req =>
      exact (active_publishNamespaceReceived r conn nameSpace req).2.2 h
    | publishNamespaceDoneReceived conn req =>
      exact (active_publishNamespaceDoneReceived r conn req).2.2 h
    | subscribeNamespaceReceived conn prefixNamespace => exact h
    | unsubscribeNamespaceReceived conn prefixNamespace =>
      exact (keepsRequests_unsubscribeNamespaceReceived r conn prefixNamespace).keepsActive.peer h
  | statusError conn full =>
    cases hcall
    exact h
  | subscribeInfoReceived id si withdraw =>
    cases hcall
    exact noPeerRequest_subscribeInfoReceived h si withdraw
  | announceInfoReceived id info withdraw =>
    cases hcall
    exact noPeerRequest_announceInfoReceived h withdraw
  | sessionLost id =>
    have hlost : r.sessionLost q id = some r' := hcall
    unfold sessionLost at hlost
    split at hlost
    · obtain ⟨r₁, h₁, hlost⟩ := Option.bind_eq_some_iff.mp hlost
      cases hlost
      have hkept := noPeerRequest_sessionChanged h h₁
      exact hkept
    · split at hlost
      · cases hlost
        exact h
      · refine noPeerRequest_sessionChanged ?_ hlost
        exact (KeepsActive.of_state (state_setPeerSession ..)).peer h
  | elsewhere rest =>
    cases hcall
    exact h

end Undo

/-! ### Two relays -/

/-- A relay with one session, to which the namespace was announced before. -/
def announcedBefore : Relay where
  nodeId := 1
  state := {
    requests := ((∅ : ExtTreeMap (ConnectionHandle × RequestId) TrackNamespace compare).insert
      (0, (Quicr.polynomial.trackHash ⟨[[1]], []⟩).trackNamespaceHash) [[1]]) }
  serverPeerSessions := ((∅ : ExtTreeMap PeerSessionId PeerSession compare).insert
    5 { nodeId := 1, status := .connected })

/-- The namespace, of another relay. -/
def peerNamespace : AnnounceInfo where
  sourceNodeId := 2
  nameSpace := [[1]]
  name := []
  fullnameHash := (Quicr.polynomial.trackHash ⟨[[1]], []⟩).trackFullnameHash
  flags := 1

theorem withdrawUndoes_peerNamespace :
    AnnouncedByNobody .polynomial announcedBefore peerNamespace ∧
      WithdrawUndoes .polynomial announcedBefore 5 peerNamespace := by
  have hnobody : AnnouncedByNobody .polynomial announcedBefore peerNamespace := by
    constructor <;> simp [announcedBefore, peerNamespace]
  refine ⟨hnobody, (withdrawUndoes_iff .polynomial announcedBefore 5 peerNamespace (by decide)
    ⟨ExtTreeMap.noEmptyRow_empty, by simp [InfoBase.NoEmptySet, announcedBefore]⟩
    (by simp [NoPeerRequest, announcedBefore]) hnobody).mpr (.inr ⟨rfl, by decide, ?_, ?_, ?_⟩)⟩
  · intro x _
    simp [InfoBase.Indexed, announcedBefore]
  · exact ExtTreeMap.getElem?_insert_self
  · constructor
    · intro id' session _ hget
      simp [announcedBefore] at hget
    · intro id' session hne hget
      change ((∅ : ExtTreeMap PeerSessionId PeerSession compare).insert 5 _)[id']? = _ at hget
      rw [ExtTreeMap.getElem?_insert_ite, if_neg hne] at hget
      simp at hget

/-- The handler of a track that a peer has announced stays after the withdrawal. -/
theorem not_withdrawUndoes :
    ¬∀ (r : Relay) (info : AnnounceInfo), AnnouncedByNobody .polynomial r info →
      info.sourceNodeId ≠ r.nodeId → WithdrawUndoes .polynomial r 5 info := by
  intro hclaim
  have hnobody : AnnouncedByNobody .polynomial
      { announcedBefore with state := {} } { peerNamespace with name := [2], flags := 0 } := by
    constructor <;> simp [announcedBefore, peerNamespace]
  refine not_withdrawUndoes_publish ?_ ?_ hnobody (by decide) (hclaim _ _ hnobody (by decide))
  · decide +kernel
  · simp [NoPeerRequest]

end Relay

end Laps
