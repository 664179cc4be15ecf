import Laps.Lib.Runs
import Laps.Relay.Indexes
import Laps.Relay.Interest
import Laps.Relay.Teardown

/-! Which sessions that a relay has accepted a function of the two managers puts messages on.
Sessions that wait are spared: a broadcast goes to all of them, so that it is spared where nothing
is to be told, and a node set goes to the one session that leads to its node. -/

namespace Laps.Relay

open Std Client Peering

/-- The sessions that the relay has accepted get messages or go, and those in `W` are left alone. -/
def Spares (W : PeerSessionId → Prop) (r r' : Relay) : Prop :=
  ∀ id session', r'.serverPeerSessions[id]? = some session' →
    ∃ session, r.serverPeerSessions[id]? = some session ∧
      session.enqueued <+: session'.enqueued ∧ (W id → session' = session)

section Spares

variable {W : PeerSessionId → Prop} {q : Quicr} {r r' r'' : Relay}

theorem Spares.refl (r : Relay) : Spares W r r :=
  fun _ session hget => ⟨session, hget, List.prefix_rfl, fun _ => rfl⟩

theorem Spares.trans (h : Spares W r r') (h' : Spares W r' r'') : Spares W r r'' := by
  intro id session'' hget''
  obtain ⟨session', hget', hle', heq'⟩ := h' id session'' hget''
  obtain ⟨session, hget, hle, heq⟩ := h id session' hget'
  exact ⟨session, hget, hle.trans hle', fun hW => (heq' hW).trans (heq hW)⟩

theorem Spares.mono {W' : PeerSessionId → Prop} (h : Spares W r r') (hle : ∀ id, W' id → W id) :
    Spares W' r r' := by
  intro id session' hget'
  obtain ⟨session, hget, hmore, heq⟩ := h id session' hget'
  exact ⟨session, hget, hmore, fun hW => heq (hle id hW)⟩

/-- The sessions are the same. -/
theorem Spares.of_eq (h : r'.serverPeerSessions = r.serverPeerSessions) : Spares W r r' := by
  intro id session' hget
  rw [h] at hget
  exact Spares.refl r id session' hget

theorem OnlyState.spares (h : OnlyState r r') : Spares W r r' := by
  obtain ⟨st, rfl⟩ := h
  exact .of_eq rfl

/-- A loop whose steps spare the sessions. -/
theorem spares_foldl {β : Type*} {f : Relay → β → Relay} (hf : ∀ r x, Spares W r (f r x))
    (r : Relay) (l : List β) : Spares W r (l.foldl f r) :=
  foldl_related .refl .trans hf r l

/-! ### Messages on sessions -/

theorem prefix_enqueue (session : PeerSession) (msg : ControlMessage) :
    session.enqueued <+: (session.enqueue msg).enqueued :=
  List.prefix_append _ _

/-- The node sets are changed before the message goes. -/
theorem prefix_sendSns {session session' : PeerSession} (h : session'.enqueued = session.enqueued)
    (sns : SubscribeNodeSet) (withdraw : Bool) :
    session.enqueued <+: (session'.sendSns sns withdraw).enqueued := by
  rw [← h]
  unfold PeerSession.sendSns
  split
  · exact List.prefix_rfl
  · exact prefix_enqueue _ _

theorem prefix_sendAnnounceInfo (session : PeerSession) (info : AnnounceInfo) (withdraw : Bool) :
    session.enqueued <+: (session.sendAnnounceInfo info withdraw).enqueued := by
  unfold PeerSession.sendAnnounceInfo
  split
  · exact List.prefix_rfl
  · exact prefix_enqueue _ _

theorem prefix_sendSubscribeInfo (session : PeerSession) (info : SubscribeInfo) (withdraw : Bool) :
    session.enqueued <+: (session.sendSubscribeInfo info withdraw).1.enqueued := by
  unfold PeerSession.sendSubscribeInfo
  split
  · exact List.prefix_rfl
  · exact prefix_enqueue _ _

theorem prefix_sendNodeInfo (session : PeerSession) (info : NodeInfo) (withdraw : Bool) :
    session.enqueued <+: (session.sendNodeInfo info withdraw).enqueued := by
  unfold PeerSession.sendNodeInfo
  split
  · exact List.prefix_rfl
  · exact prefix_enqueue _ _

theorem prefix_addSubscribeSourceNode (session : PeerSession) (hash : UInt64)
    (node : NodeIdValueType) :
    session.enqueued <+: (session.addSubscribeSourceNode q hash node).1.enqueued := by
  unfold PeerSession.addSubscribeSourceNode
  dsimp only
  split
  · exact prefix_sendSns (by rfl) _ _
  · exact List.prefix_rfl

theorem prefix_removeSubscribeSourceNode (session : PeerSession) (hash : UInt64)
    (node : NodeIdValueType) :
    session.enqueued <+: (session.removeSubscribeSourceNode hash node).1.enqueued := by
  unfold PeerSession.removeSubscribeSourceNode
  split
  · exact List.prefix_rfl
  · dsimp only
    split
    · exact prefix_sendSns (by rfl) _ _
    · exact List.prefix_rfl

theorem prefix_addPeerSnsSourceNode (session : PeerSession) (ingress : PeerSessionId)
    (snsId : SubscribeNodeSetId) (node : NodeIdValueType) :
    session.enqueued <+: (session.addPeerSnsSourceNode q ingress snsId node).1.enqueued := by
  unfold PeerSession.addPeerSnsSourceNode
  dsimp only
  split
  · exact prefix_sendSns (by rfl) _ _
  · exact List.prefix_rfl

theorem prefix_removePeerSnsSourceNode (session : PeerSession) (ingress : PeerSessionId)
    (snsId : SubscribeNodeSetId) (node : NodeIdValueType) :
    session.enqueued <+: (session.removePeerSnsSourceNode ingress snsId node).1.enqueued := by
  unfold PeerSession.removePeerSnsSourceNode
  dsimp only
  split
  · exact List.prefix_rfl
  · split
    · exact prefix_sendSns (by rfl) _ _
    · split
      · exact prefix_sendSns (by rfl) _ _
      · exact List.prefix_rfl

/-- A session that has no node sets has none to take a node from. -/
theorem removeSubscribeSourceNode_eq {session : PeerSession} (h : session.subSns = ∅)
    (hash : UInt64) (node : NodeIdValueType) :
    (session.removeSubscribeSourceNode hash node).1 = session := by
  unfold PeerSession.removeSubscribeSourceNode
  rw [h]
  rfl

theorem removePeerSnsSourceNode_eq {session : PeerSession} (h : session.peerSns = ∅)
    (ingress : PeerSessionId) (snsId : SubscribeNodeSetId) (node : NodeIdValueType) :
    (session.removePeerSnsSourceNode ingress snsId node).1 = session := by
  unfold PeerSession.removePeerSnsSourceNode
  dsimp only
  rw [h]
  rfl

/-! ### Sessions of a relay -/

theorem spares_setPeerSession {id : PeerSessionId} {session session' : PeerSession}
    (hget : r.getPeerSession id = some session) (hle : session.enqueued <+: session'.enqueued)
    (hsame : r.serverPeerSessions[id]? = some session → W id → session' = session) :
    Spares W r (r.setPeerSession id session') := by
  unfold setPeerSession
  split
  · rename_i hserver
    obtain ⟨old, hold⟩ := ExtTreeMap.contains_iff_getElem?.mp hserver
    have heq : old = session := by
      unfold getPeerSession at hget
      rw [hold] at hget
      exact Option.some.inj hget
    subst heq
    intro id' new hnew
    change (r.serverPeerSessions.insert id session')[id']? = some new at hnew
    rw [ExtTreeMap.getElem?_insert_ite] at hnew
    split at hnew
    · rename_i hid
      subst hid
      cases hnew
      exact ⟨old, hold, hle, hsame hold⟩
    · exact ⟨new, hnew, List.prefix_rfl, fun _ => rfl⟩
  · exact .of_eq rfl

/-- An announce message goes to all sessions but the ones to skip. -/
theorem spares_sendAnnounceInfos {skip : PeerSessionId → Bool} (hskip : ∀ id, W id → skip id = true)
    (r : Relay) (info : AnnounceInfo) (withdraw : Bool) :
    Spares W r (r.sendAnnounceInfos skip info withdraw) := by
  intro id session' hget
  change (r.serverPeerSessions.map _)[id]? = some session' at hget
  rw [ExtTreeMap.getElem?_map] at hget
  obtain ⟨session, hold, rfl⟩ := Option.map_eq_some_iff.mp hget
  refine ⟨session, hold, ?_, fun hW => if_pos (hskip id hW)⟩
  split
  · exact List.prefix_rfl
  · exact prefix_sendAnnounceInfo session info withdraw

theorem spares_sendSubscribeInfos {skip : PeerSessionId → Bool} (hskip : ∀ id, W id → skip id = true)
    (r : Relay) (info : SubscribeInfo) (withdraw : Bool) :
    Spares W r (r.sendSubscribeInfos skip info withdraw) := by
  -- Each session of the loop is one of those there were.
  have hloop : ∀ (m : ExtTreeMap PeerSessionId PeerSession)
      (entries : List (PeerSessionId × PeerSession)),
      (∀ entry ∈ entries, m[entry.1]? = some entry.2) →
      ∀ acc : ExtTreeMap PeerSessionId PeerSession × SubscribeInfo,
      (∀ (id : PeerSessionId) (session' : PeerSession), acc.1[id]? = some session' →
        ∃ session, m[id]? = some session ∧ session.enqueued <+: session'.enqueued ∧
          (W id → session' = session)) →
      ∀ (id : PeerSessionId) (session' : PeerSession),
        (entries.foldl (sendSubscribeInfosTo skip withdraw) acc).1[id]? = some session' →
        ∃ session, m[id]? = some session ∧ session.enqueued <+: session'.enqueued ∧
          (W id → session' = session) := by
    intro m entries
    induction entries with
    | nil => exact fun _ acc hacc => hacc
    | cons entry entries ih =>
      intro hentries acc hacc
      refine ih (fun e he => hentries e (List.mem_cons_of_mem _ he)) _ ?_
      intro id session' hget
      unfold sendSubscribeInfosTo at hget
      split at hget
      · exact hacc id session' hget
      · rename_i hnot
        dsimp only at hget
        rw [ExtTreeMap.getElem?_insert_ite] at hget
        split at hget
        · rename_i hid
          subst hid
          cases hget
          refine ⟨entry.2, hentries entry List.mem_cons_self,
            prefix_sendSubscribeInfo entry.2 acc.2 withdraw, fun hW => ?_⟩
          exact absurd (hskip _ hW) hnot
        · exact hacc id session' hget
  refine hloop r.serverPeerSessions r.serverPeerSessions.toList
    (fun _ hentry => ExtTreeMap.mem_toList_iff_getElem?_eq_some.mp hentry) (_, _) ?_
  exact fun id session hget => ⟨session, hget, List.prefix_rfl, fun _ => rfl⟩

theorem spares_propagateNodeInfo {info : NodeInfo}
    (hskip : ∀ id session, W id → r.serverPeerSessions[id]? = some session →
      skipNode info session.remoteNodeInfo = true) (withdraw : Bool) :
    Spares W r (r.propagateNodeInfo info withdraw) := by
  intro id session' hget
  change (r.serverPeerSessions.map _)[id]? = some session' at hget
  rw [ExtTreeMap.getElem?_map] at hget
  obtain ⟨session, hold, rfl⟩ := Option.map_eq_some_iff.mp hget
  refine ⟨session, hold, ?_, fun hW => if_pos (hskip id session hW hold)⟩
  split
  · exact List.prefix_rfl
  · exact prefix_sendNodeInfo session info withdraw

/-- No session of `W` leads to the node. -/
theorem spares_forwardToNode {node : NodeIdValueType}
    (hbest : ∀ best, r.infoBase.nodesBest[node]? = some best → ¬W best) (hash : UInt64)
    (keySession : PeerSessionId → PeerSessionId) :
    Spares W r (r.forwardToNode q hash node keySession) := by
  unfold forwardToNode
  split
  · exact .refl r
  · rename_i best hnode
    split
    · exact .refl r
    · rename_i session hsession
      have hset : Spares W r
          (r.setPeerSession best (session.addSubscribeSourceNode q hash node).1) :=
        spares_setPeerSession hsession (prefix_addSubscribeSourceNode session hash node)
          fun _ hW => absurd hW (hbest best hnode)
      dsimp only
      split
      · exact hset.trans (.of_eq rfl)
      · exact hset

/-! ### Subscriptions that go -/

/-- The relay's own subscription to the track is not withdrawn: the track is served, or the relay
has not subscribed to it. -/
def KeepsOwn (r : Relay) (K : UInt64 × ConnectionHandle → SubscribeTrackHandler → Prop)
    (hash : UInt64) : Prop :=
  r.Serves K hash ∨ r.infoBase.subscribes.get₂? hash r.nodeId = none

theorem spares_clientUnsubscribe {hash : UInt64}
    (hown : (∃ id, W id) → r.infoBase.subscribes.get₂? hash r.nodeId = none) :
    Spares W r (r.clientUnsubscribe hash) := by
  unfold clientUnsubscribe
  dsimp only
  split
  · exact .of_eq rfl
  · rename_i si hsi
    refine Spares.trans (.of_eq rfl) (spares_sendSubscribeInfos (fun id hW => ?_) _ si true)
    cases (hown ⟨id, hW⟩).symm.trans hsi

theorem spares_removeOrPause {hash : UInt64}
    (hkeeps : (∃ id, W id) → r.KeepsOwn (fun _ h => h.hasSubscribers = true) hash) :
    Spares W r (r.removeOrPausePublisherSubscribe hash) := by
  unfold removeOrPausePublisherSubscribe
  split
  · exact .refl r
  · rename_i hfib
    dsimp only
    split
    · exact .of_eq rfl
    · rename_i hsubs
      refine Spares.trans (.of_eq rfl) (spares_clientUnsubscribe fun hW => ?_)
      rcases hkeeps hW with (hfib' | ⟨key, h, hget, hkey, hh⟩) | hnone
      · exact absurd hfib' hfib
      · refine absurd ?_ hsubs
        rw [ExtTreeMap.anyEntry_iff]
        exact ⟨key, h, hget, by simp [hkey, hh]⟩
      · exact hnone

/-- An unsubscribe of a client, in the state that it is made in. -/
def UnsubscribesQuietly (q : Quicr) (r : Relay) (conn : ConnectionHandle) (req : RequestId) : Prop :=
  ∀ trackAlias sub, r.state.subscribeAliasReqId[(conn, req)]? = some trackAlias →
    r.state.subscribes[(trackAlias, conn)]? = some sub →
    r.KeepsOwn (fun _ h => (h.removeSubscriber conn).hasSubscribers = true)
      (q.trackHash sub.trackFullName).trackFullnameHash

theorem spares_unsubscribeReceived {conn : ConnectionHandle} {req : RequestId}
    (hquiet : (∃ id, W id) → UnsubscribesQuietly q r conn req) :
    Spares W r (r.unsubscribeReceived q conn req) := by
  unfold unsubscribeReceived
  split
  · exact .refl r
  · rename_i trackAlias halias
    split
    · exact .refl r
    · rename_i sub hsub
      dsimp only
      refine Spares.trans (.of_eq rfl) (spares_removeOrPause fun hW => ?_)
      rcases hquiet hW trackAlias sub halias hsub with (hfib | ⟨key, h, hget, hkey, hh⟩) | hnone
      · exact .inl (.inl hfib)
      · refine .inl (.inr ⟨key, h.removeSubscriber conn, ?_, hkey, hh⟩)
        show (r.state.pubSubscribes.map _)[key]? = _
        rw [ExtTreeMap.getElem?_map, hget, Option.map_some, if_pos hkey]
      · exact .inr hnone

/-- A handler that a client leaves the namespace of, in the state that the loop comes to it in. -/
def LeavesQuietly (q : Quicr) (conn : ConnectionHandle) (prefixNamespace : TrackNamespace)
    (handler : PublishNamespaceHandler) (r : Relay) (key : UInt64 × ConnectionHandle) : Prop :=
  ∀ h, r.state.pubSubscribes[key]? = some h → Leaves q r conn prefixNamespace key h →
    r.KeepsOwn (fun key' h' => (if key' = key then h'.removeSubscribeNamespace q handler
      else h').hasSubscribers = true) key.1

theorem spares_leaveNamespace {conn : ConnectionHandle} {prefixNamespace : TrackNamespace}
    {handler : PublishNamespaceHandler} {key : UInt64 × ConnectionHandle}
    (hquiet : (∃ id, W id) → LeavesQuietly q conn prefixNamespace handler r key) :
    Spares W r (leaveNamespace q conn prefixNamespace handler r key) := by
  unfold leaveNamespace
  split
  · exact .refl r
  · rename_i h hget
    split
    · exact .refl r
    · rename_i hself
      split
      · rename_i hmatches
        have hleaves : Leaves q r conn prefixNamespace key h := by
          refine ⟨?_, hmatches⟩
          by_cases hallow : r.config.allowSelf = true
          · exact .inl hallow
          · exact .inr (by simpa [hallow] using hself)
        dsimp only
        refine Spares.trans (.of_eq rfl) (spares_removeOrPause fun hW => ?_)
        rcases hquiet hW h hget hleaves with (hfib | ⟨key', h', hget', hkey, hh⟩) | hnone
        · exact .inl (.inl hfib)
        · refine .inl (.inr ⟨key', _, ?_, hkey, hh⟩)
          show (r.state.pubSubscribes.insert key (h.removeSubscribeNamespace q handler))[key']? = _
          rw [ExtTreeMap.getElem?_insert_ite]
          split
          · rename_i heq
            subst heq
            cases hget.symm.trans hget'
            rfl
          · exact hget'
        · exact .inr hnone
      · exact .refl r

def UnsubscribesNamespaceQuietly (q : Quicr) (r : Relay) (conn : ConnectionHandle)
    (prefixNamespace : TrackNamespace) : Prop :=
  ∀ handler, r.state.subscribesNamespaces.get₂? prefixNamespace conn = some handler →
    Runs.Each (leaveNamespace q conn prefixNamespace handler)
      (LeavesQuietly q conn prefixNamespace handler) r r.state.pubSubscribes.keys

theorem spares_unsubscribeNamespaceReceived {conn : ConnectionHandle}
    {prefixNamespace : TrackNamespace}
    (hquiet : (∃ id, W id) → UnsubscribesNamespaceQuietly q r conn prefixNamespace) :
    Spares W r (r.unsubscribeNamespaceReceived q conn prefixNamespace) := by
  unfold unsubscribeNamespaceReceived
  split
  · exact .refl r
  · rename_i row hrow
    split
    · split
      · exact .of_eq rfl
      · exact .refl r
    · rename_i handler hhandler
      have hloop : Spares W r (r.state.pubSubscribes.keys.foldl
          (leaveNamespace q conn prefixNamespace handler) r) := by
        by_cases hW : ∃ id, W id
        · exact (hquiet hW handler (ExtTreeMap.get₂?_eq_some.mpr ⟨row, hrow, hhandler⟩)).related
            .refl .trans fun _ _ hleaves => spares_leaveNamespace fun _ => hleaves
        · exact spares_foldl (fun _ _ => spares_leaveNamespace fun hW' => absurd hW' hW) _ _
      exact hloop.trans (.of_eq rfl)

/-- The end of a connection, with the unsubscribes that it makes. -/
def ClosesQuietly (q : Quicr) (r : Relay) (conn : ConnectionHandle) : Prop :=
  let removeNs := r.state.subscribesNamespaces.toList.filter fun row => row.2.contains conn
  let left := removeNs.foldl (fun r row => r.unsubscribeNamespaceReceived q conn row.1) r
  Runs.Each (fun r row => r.unsubscribeNamespaceReceived q conn row.1)
      (fun r row => UnsubscribesNamespaceQuietly q r conn row.1) r removeNs ∧
    Runs.Each (fun r entry => r.unsubscribeReceived q entry.1.1 entry.1.2)
      (fun r entry => UnsubscribesQuietly q r entry.1.1 entry.1.2) left
      (left.state.subscribeAliasReqId.withFst conn)

theorem spares_connectionStatusChanged {conn : ConnectionHandle} {status : ConnectionStatus}
    (hquiet : (∃ id, W id) → status.closes = true → ClosesQuietly q r conn) :
    Spares W r (r.connectionStatusChanged q conn status) := by
  by_cases h₁ : status = .connected
  · rw [h₁]
    exact .refl r
  by_cases h₂ : status = .connecting
  · rw [h₂]
    exact .refl r
  rw [connectionStatusChanged_eq q r conn h₁ h₂]
  refine Spares.trans ?_ (.of_eq rfl)
  unfold disconnect
  dsimp only
  by_cases hW : ∃ id, W id
  · obtain ⟨hns, hsubs⟩ := hquiet hW (by simp [ConnectionStatus.closes, h₁, h₂])
    refine Spares.trans (hns.related (R := Spares W) .refl .trans fun r' row hleaves => ?_)
      (hsubs.related (R := Spares W) .refl .trans fun r' entry hunsub => ?_)
    · exact spares_unsubscribeNamespaceReceived fun _ => hleaves
    · exact spares_unsubscribeReceived fun _ => hunsub
  · refine Spares.trans (spares_foldl (fun r' row => ?_) _ _) (spares_foldl (fun r' entry => ?_) _ _)
    · exact spares_unsubscribeNamespaceReceived fun hW' => absurd hW' hW
    · exact spares_unsubscribeReceived fun hW' => absurd hW' hW

/-! ### Subscriptions and publications of clients -/

theorem spares_clientSubscribe (hnone : ∀ id, ¬W id) (r : Relay) (full : FullTrackName)
    (subscribeData : List UInt8) : Spares W r (r.clientSubscribe q full subscribeData) := by
  unfold clientSubscribe
  split
  · exact .refl r
  · exact Spares.trans (.of_eq rfl)
      (spares_sendSubscribeInfos (fun id hW => absurd hW (hnone id)) _ _ false)

/-- The subscription is made known, unless the client has it. -/
theorem spares_subscribeReceived {conn : ConnectionHandle} {req : RequestId} {full : FullTrackName}
    {attrs : SubscribeAttributes}
    (hquiet : (∃ id, W id) →
      r.state.subscribes.contains ((q.trackHash full).trackFullnameHash, conn) = true) :
    Spares W r (r.subscribeReceived q conn req full attrs) := by
  unfold subscribeReceived
  dsimp only
  split
  · exact .refl r
  · rename_i hnew
    have hnone : ∀ id, ¬W id := fun id hW => hnew (hquiet ⟨id, hW⟩)
    unfold processSubscribe
    dsimp only
    have hrecord : Spares W r (if conn = 0 ∧ req = 0 then r else
        r.recordSubscribe q conn req (q.trackHash full) full attrs) := by
      split
      · exact .refl r
      · exact Spares.trans (.of_eq rfl) (spares_clientSubscribe hnone _ full _)
    refine hrecord.trans (Spares.trans (.of_eq rfl) (spares_foldl (fun r' entry => ?_) _ _))
    exact (onlyState_subscribeToAnnouncer q _ full conn _ r' entry).spares

/-- An update is made known when the relay has subscribed. -/
theorem spares_clientSubscribeUpdate {full : FullTrackName} {newGroupRequestId : Option UInt64}
    (hquiet : (∃ id, W id) → ∀ si,
      r.infoBase.subscribes.get₂? (q.trackHash full).trackFullnameHash r.nodeId = some si →
        q.parseSubscribe si.subscribeData = none) :
    Spares W r (r.clientSubscribeUpdate q full newGroupRequestId) := by
  unfold clientSubscribeUpdate
  dsimp only
  split
  · exact .of_eq rfl
  · rename_i si hsi
    split
    · exact .of_eq rfl
    · rename_i msg hmsg
      refine Spares.trans (.of_eq rfl) (spares_sendSubscribeInfos (fun id hW => ?_) _ _ false)
      cases (hquiet ⟨id, hW⟩ si hsi).symm.trans hmsg

theorem spares_matchSubscribe (hnone : ∀ id, ¬W id) (full : FullTrackName) (r : Relay)
    (si : SubscribeInfo) : Spares W r (r.matchSubscribe q full si) := by
  unfold matchSubscribe
  split
  · exact .refl r
  · split
    · exact .refl r
    · split
      · exact .refl r
      · dsimp only
        split
        · exact (onlyState_processSubscribe q r _ _ _).spares
        · exact (onlyState_processSubscribe q r _ _ _).spares.trans
            (spares_forwardToNode (fun best _ => hnone best) _ _)

theorem spares_clientAnnounce (hnone : ∀ id, ¬W id) (r : Relay) (full : FullTrackName)
    (withdraw publishNamespace : Bool) :
    Spares W r (r.clientAnnounce q full withdraw publishNamespace) := by
  have hsent : Spares W r ((r.updateAnnounces q (r.announceInfo q full publishNamespace)
      withdraw).1.sendAnnounceInfos (fun _ => false) (r.announceInfo q full publishNamespace)
        withdraw) :=
    Spares.trans (.of_eq rfl)
      (spares_sendAnnounceInfos (fun id hW => absurd hW (hnone id)) _ _ withdraw)
  unfold clientAnnounce
  dsimp only
  split
  · exact hsent
  · refine hsent.trans (spares_foldl (fun r' entry => ?_) _ _)
    split
    · exact .refl r'
    · exact spares_matchSubscribe hnone full r' entry.2

theorem spares_publishReceived (hnone : ∀ id, ¬W id) (r : Relay) (conn : ConnectionHandle)
    (req : RequestId) (full : FullTrackName) : Spares W r (r.publishReceived q conn req full) := by
  unfold publishReceived
  dsimp only
  refine Spares.trans ?_ (.of_eq rfl)
  split
  · exact .of_eq rfl
  · refine Spares.trans ?_ (spares_clientAnnounce hnone _ full false false)
    exact .of_eq rfl

theorem spares_publishNamespaceReceived {conn : ConnectionHandle} {nameSpace : TrackNamespace}
    {req : RequestId}
    (hquiet : (∃ id, W id) → r.state.pubNamespaceActive.contains (nameSpace, conn) = true) :
    Spares W r (r.publishNamespaceReceived q conn nameSpace req) := by
  have hsubscribe : ∀ r : Relay, Spares W r
      (r.state.subscribeActive.toList.foldl (subscribeToPublisher q nameSpace conn) r) := by
    intro r
    exact spares_foldl (fun r entry =>
      (onlyState_subscribeToPublisher q nameSpace conn r entry).spares) r _
  unfold publishNamespaceReceived
  dsimp only
  split
  · split
    · exact .of_eq rfl
    · exact Spares.trans (.of_eq rfl) (hsubscribe _)
  · rename_i hnew
    split
    · exact .of_eq rfl
    · set r₂ := (r.mapState fun st => { st with
        requests := st.requests.insert (conn, req) nameSpace }).mapState fun st => { st with
          pubNamespaceActive := st.pubNamespaceActive.insertIfNew (nameSpace, conn) ∅ }
      have hactive : Spares W r r₂ := .of_eq rfl
      refine hactive.trans ((hsubscribe r₂).trans ?_)
      exact spares_clientAnnounce (fun id hW => hnew (hquiet ⟨id, hW⟩)) _ _ false true

theorem spares_publishNamespaceDoneReceived {conn : ConnectionHandle} {req : RequestId}
    (hquiet : (∃ id, W id) → r.state.requests[(conn, req)]? = none) :
    Spares W r (r.publishNamespaceDoneReceived q conn req) := by
  unfold publishNamespaceDoneReceived
  split
  · exact .refl r
  · rename_i nameSpace hreq
    have hnone : ∀ id, ¬W id := by
      intro id hW
      cases (hquiet ⟨id, hW⟩).symm.trans hreq
    dsimp only
    refine (spares_clientAnnounce (q := q) hnone r ⟨nameSpace, []⟩ true true).trans ?_
    split
    · exact .of_eq rfl
    · exact Spares.trans (.of_eq rfl) (spares_clientAnnounce hnone _ _ true false)

theorem spares_unsubscribeOrphans (hnone : ¬∃ id, W id) (r : Relay) (hash : UInt64) :
    Spares W r (r.unsubscribeOrphans q hash) := by
  unfold unsubscribeOrphans
  split
  · exact spares_foldl (fun r' entry => spares_unsubscribeReceived fun hW => absurd hW hnone) _ _
  · exact .refl r

theorem spares_publishDoneReceived {conn : ConnectionHandle} {req : RequestId}
    (hquiet : (∃ id, W id) → r.state.pubSubscribesByReqId[(req, conn)]? = none) :
    Spares W r (r.publishDoneReceived q conn req) := by
  unfold publishDoneReceived
  split
  · exact .refl r
  · rename_i id full hreg
    have hnone : ¬∃ id, W id := by
      intro hW
      cases (hquiet hW).symm.trans hreg
    dsimp only
    set r₁ := if conn = 0 then r else r.clientAnnounce q full true false with hr₁
    have hannounced : Spares W r r₁ := by
      rw [hr₁]
      split
      · exact .refl r
      · exact spares_clientAnnounce (fun id hW => hnone ⟨id, hW⟩) r full true false
    set r₂ := r₁.mapState fun st => { st with
      pubSubscribes := st.pubSubscribes.erase ((q.trackHash full).trackFullnameHash, conn) }
    have herased : Spares W r₁ r₂ := .of_eq rfl
    have horphans := spares_unsubscribeOrphans (q := q) hnone r₂ (q.trackHash full).trackFullnameHash
    exact hannounced.trans (herased.trans (horphans.trans (.of_eq rfl)))

/-! ### Calls of the clients -/

/-- The call has nothing to tell the other relays. -/
def CallsQuietly (q : Quicr) (r : Relay) : ClientCall → Prop
  | .subscribeReceived conn _ full _ =>
    r.state.subscribes.contains ((q.trackHash full).trackFullnameHash, conn) = true
  | .unsubscribeReceived conn req => UnsubscribesQuietly q r conn req
  | .connectionStatusChanged conn status => status.closes = true → ClosesQuietly q r conn
  | .publishReceived _ _ _ => False
  | .publishDoneReceived conn req => r.state.pubSubscribesByReqId[(req, conn)]? = none
  | .publishNamespaceReceived conn nameSpace _ =>
    r.state.pubNamespaceActive.contains (nameSpace, conn) = true
  | .publishNamespaceDoneReceived conn req => r.state.requests[(conn, req)]? = none
  | .subscribeNamespaceReceived _ _ => True
  | .unsubscribeNamespaceReceived conn prefixNamespace =>
    UnsubscribesNamespaceQuietly q r conn prefixNamespace

theorem spares_call {call : ClientCall} (hquiet : (∃ id, W id) → CallsQuietly q r call) :
    Spares W r (r.call q call) := by
  cases call with
  | subscribeReceived conn req full attrs => exact spares_subscribeReceived hquiet
  | unsubscribeReceived conn req => exact spares_unsubscribeReceived hquiet
  | connectionStatusChanged conn status => exact spares_connectionStatusChanged hquiet
  | publishReceived conn req full =>
    exact spares_publishReceived (fun id hW => hquiet ⟨id, hW⟩) r conn req full
  | publishDoneReceived conn req => exact spares_publishDoneReceived hquiet
  | publishNamespaceReceived conn nameSpace req => exact spares_publishNamespaceReceived hquiet
  | publishNamespaceDoneReceived conn req => exact spares_publishNamespaceDoneReceived hquiet
  | subscribeNamespaceReceived conn prefixNamespace => exact .of_eq rfl
  | unsubscribeNamespaceReceived conn prefixNamespace =>
    exact spares_unsubscribeNamespaceReceived hquiet

/-! ### Subscriptions of other relays -/

/-- The sessions have no node sets. -/
def Blank (W : PeerSessionId → Prop) (r : Relay) : Prop :=
  ∀ id session, W id → r.serverPeerSessions[id]? = some session →
    session.subSns = ∅ ∧ session.peerSns = ∅

theorem Blank.of_spares (h : Blank W r) (hspares : Spares W r r') : Blank W r' := by
  intro id session' hW hget'
  obtain ⟨session, hget, -, heq⟩ := hspares id session' hget'
  rw [heq hW]
  exact h id session hW hget

theorem hasSubscribers_iff (r : Relay) (hash : UInt64) :
    r.hasSubscribers hash = true ↔
      ∃ id : PeerSessionId, r.infoBase.clientFib.contains (hash, id) = true := by
  unfold hasSubscribers
  rw [ExtTreeMap.anyEntry_iff]
  constructor
  · rintro ⟨⟨hash', id⟩, entry, hget, heq⟩
    obtain rfl : hash' = hash := of_decide_eq_true heq
    exact ⟨id, ExtTreeMap.contains_iff_getElem?.mpr ⟨entry, hget⟩⟩
  · rintro ⟨id, hcontains⟩
    obtain ⟨entry, hget⟩ := ExtTreeMap.contains_iff_getElem?.mp hcontains
    exact ⟨(hash, id), entry, hget, by simp⟩

theorem removeSubscribeSourceNode_emptied (session : PeerSession) (hash : UInt64)
    (node : NodeIdValueType) :
    (session.removeSubscribeSourceNode hash node).2.2 =
      session.subSns[hash]?.any fun sns => (sns.nodes.erase node).isEmpty := by
  unfold PeerSession.removeSubscribeSourceNode
  cases session.subSns[hash]? with
  | none => rfl
  | some sns =>
    rw [Option.any_some]
    dsimp only
    split
    · rename_i hempty
      exact hempty.symm
    · rename_i hempty
      exact (Bool.eq_false_iff.mpr hempty).symm

/-- A withdrawn subscription of another relay.  Where the last node of the track goes from the
session that leads to it, the entry under the session goes too, and with the last entry the peers
leave the handlers. -/
structure WithdrawnQuietly (r : Relay) (id : PeerSessionId) (si : SubscribeInfo) : Prop where
  stays : r.emptiedBy si.trackHash.trackFullnameHash si.sourceNodeId = false →
    r.KeepsOwn (fun _ h => h.hasSubscribers = true) si.trackHash.trackFullnameHash
  goes : r.emptiedBy si.trackHash.trackFullnameHash si.sourceNodeId = true →
    (∃ id', id' ≠ id ∧
      r.infoBase.clientFib.contains (si.trackHash.trackFullnameHash, id') = true) ∨
    (∃ (key : UInt64 × ConnectionHandle) (h : SubscribeTrackHandler),
      r.state.pubSubscribes[key]? = some h ∧ key.1 = si.trackHash.trackFullnameHash ∧
        (h.removeSubscriber 0).hasSubscribers = true) ∨
    r.infoBase.subscribes.get₂? si.trackHash.trackFullnameHash r.nodeId = none

theorem spares_subscribeWithdrawn {id : PeerSessionId} {si : SubscribeInfo} (hblank : Blank W r)
    (hquiet : (∃ id, W id) → WithdrawnQuietly r id si) :
    Spares W r (r.subscribeWithdrawn id si) := by
  set hash := si.trackHash.trackFullnameHash with hhash
  unfold subscribeWithdrawn
  dsimp only
  cases hbest : r.infoBase.nodesBest[si.sourceNodeId]? with
  | none =>
    refine spares_removeOrPause fun hW => (hquiet hW).stays ?_
    unfold emptiedBy bestSession
    rw [hbest]
    rfl
  | some best =>
    dsimp only
    cases hsession : r.getPeerSession best with
    | none =>
      refine spares_removeOrPause fun hW => (hquiet hW).stays ?_
      unfold emptiedBy bestSession
      rw [hbest, Option.filter_some, if_neg (by rw [live, hsession]; exact Bool.false_ne_true)]
      rfl
    | some session =>
      have hemptied : r.emptiedBy hash si.sourceNodeId =
          (session.removeSubscribeSourceNode hash si.sourceNodeId).2.2 := by
        rw [removeSubscribeSourceNode_emptied]
        unfold emptiedBy bestSession nodeSetAt
        rw [hbest, Option.filter_some, if_pos (by rw [live, hsession]; rfl), Option.any_some,
          hsession, Option.bind_some]
      set r₁ := r.setPeerSession best
        (session.removeSubscribeSourceNode hash si.sourceNodeId).1 with hr₁
      have hset : Spares W r r₁ := by
        refine spares_setPeerSession hsession (prefix_removeSubscribeSourceNode session _ _) ?_
        intro hget hW
        exact removeSubscribeSourceNode_eq (hblank best session hW hget).1 hash si.sourceNodeId
      have hrest : r₁.state = r.state ∧ r₁.infoBase = r.infoBase ∧ r₁.nodeId = r.nodeId := by
        rw [hr₁]
        unfold setPeerSession
        split
        · exact ⟨rfl, rfl, rfl⟩
        · exact ⟨rfl, rfl, rfl⟩
      obtain ⟨hstate, hinfo, hnode⟩ := hrest
      dsimp only
      cases hremoved : (session.removeSubscribeSourceNode hash si.sourceNodeId).2.2 with
      | false =>
        rw [if_neg Bool.false_ne_true]
        refine hset.trans (spares_removeOrPause fun hW => ?_)
        have hkeeps := (hquiet hW).stays (hemptied.trans hremoved)
        unfold KeepsOwn Serves hasSubscribers
        rw [hstate, hinfo, hnode]
        exact hkeeps
      | true =>
        rw [if_pos rfl]
        set r₂ := r₁.setInfoBase { r₁.infoBase with
          clientFib := r₁.infoBase.clientFib.erase (hash, id) } with hr₂
        have hfib : Spares W r₁ r₂ := .of_eq rfl
        have hleft : ∀ id', id' ≠ id → r.infoBase.clientFib.contains (hash, id') = true →
            r₂.hasSubscribers hash = true := by
          intro id' hne hcontains
          rw [hasSubscribers_iff]
          refine ⟨id', ?_⟩
          change (r₁.infoBase.clientFib.erase (hash, id)).contains (hash, id') = true
          rw [hinfo, ExtTreeMap.contains_erase, hcontains]
          simp [Ne.symm hne]
        split
        · rename_i hserves
          exact hset.trans (hfib.trans (spares_removeOrPause fun _ => .inl (.inl hserves)))
        · rename_i hserves
          have htrack : Spares W r₂ (r₂.peerUnsubscribeTrack hash) := .of_eq rfl
          refine hset.trans (hfib.trans (htrack.trans (spares_removeOrPause fun hW => ?_)))
          rcases (hquiet hW).goes (hemptied.trans hremoved) with
            ⟨id', hne, hcontains⟩ | ⟨key, h, hget, hkey, hh⟩ | hnone
          · exact absurd (hleft id' hne hcontains) hserves
          · refine .inl (.inr ⟨key, h.removeSubscriber 0, ?_, hkey, hh⟩)
            show (r₁.state.pubSubscribes.map _)[key]? = _
            rw [hstate, ExtTreeMap.getElem?_map, hget, Option.map_some, if_pos hkey]
          · right
            show r₁.infoBase.subscribes.get₂? hash r₁.nodeId = none
            rw [hinfo, hnode]
            exact hnone

/-- An advertised subscription of another relay that a publication of this one matches: its node
does not have a session of `W` for its way. -/
def AdvertisedQuietly (W : PeerSessionId → Prop) (q : Quicr) (r : Relay) (si : SubscribeInfo) :
    Prop :=
  ∀ msg priority, q.parseSubscribe si.subscribeData = some msg →
    msg.parameters.subscriberPriority = some priority →
    r.announceMatches q si.trackHash.trackFullnameHash msg.trackNamespace = true →
    ∀ best, r.infoBase.nodesBest[si.sourceNodeId]? = some best → ¬W best

theorem spares_subscribeAdvertised {si : SubscribeInfo} (hquiet : AdvertisedQuietly W q r si)
    (id : PeerSessionId) : Spares W r (r.subscribeAdvertised q id si) := by
  unfold subscribeAdvertised
  split
  · exact .refl r
  · rename_i msg hmsg
    split
    · exact .refl r
    · rename_i priority hpriority
      split
      · rename_i hmatches
        dsimp only
        generalize hprocessed : r.processSubscribe q 0 0 si.trackHash
          ⟨msg.trackNamespace, msg.trackName⟩ _ = r₁
        have hstate : OnlyState r r₁ := by
          rw [← hprocessed]
          exact onlyState_processSubscribe q r _ _ _
        refine hstate.spares.trans (spares_forwardToNode ?_ _ _)
        rw [hstate.infoBase]
        exact hquiet msg priority hmsg hpriority hmatches
      · exact .refl r

/-- A subscription of another relay comes over a session: it is passed on to none of the sessions
but that one, and then advertised or withdrawn at this relay. -/
structure SubscribeInfoQuietly (W : PeerSessionId → Prop) (q : Quicr) (r : Relay)
    (id : PeerSessionId) (si : SubscribeInfo) (withdraw : Bool) : Prop where
  passed : (r.updateSubscribes si withdraw).2 = true → ∀ id', W id' → id' = id
  withdrawn : withdraw = true → (∃ id, W id) → WithdrawnQuietly r id si
  advertised : withdraw = false → AdvertisedQuietly W q r si

/-- After the subscription is taken out and passed on. -/
theorem WithdrawnQuietly.of_passed {id : PeerSessionId} {si : SubscribeInfo}
    (h : WithdrawnQuietly r id si) (hforward : KeepsForwarding r r') (hstate : r'.state = r.state)
    (hown : ∀ hash, r.infoBase.subscribes.get₂? hash r.nodeId = none →
      r'.infoBase.subscribes.get₂? hash r'.nodeId = none) : WithdrawnQuietly r' id si := by
  have hemptied := emptiedBy_congr hforward.keepsRoutes
    (fun id' => hforward.nodeSetAt id' si.trackHash.trackFullnameHash) si.sourceNodeId
  constructor
  · intro hnot
    rw [hemptied] at hnot
    refine (h.stays hnot).imp ?_ (hown _)
    unfold Serves hasSubscribers
    rw [hstate, hforward.clientFib]
    exact fun hserves => hserves
  · intro hempty
    rw [hemptied] at hempty
    rw [hstate, hforward.clientFib]
    exact (h.goes hempty).imp_right fun hrest => hrest.imp_right (hown _)

theorem spares_subscribeInfoReceived {id : PeerSessionId} {si : SubscribeInfo} {withdraw : Bool}
    (hblank : Blank W r)
    (hquiet : (r.getPeerSession id).isSome = true → SubscribeInfoQuietly W q r id si withdraw) :
    Spares W r (r.subscribeInfoReceived q id si withdraw) := by
  unfold subscribeInfoReceived
  split
  · exact .refl r
  · rename_i session hsession
    have hquiet := hquiet (by rw [hsession]; rfl)
    dsimp only
    set r₁ := if (r.updateSubscribes si withdraw).2 then
      (r.updateSubscribes si withdraw).1.sendSubscribeInfos (· == id) si withdraw
      else (r.updateSubscribes si withdraw).1 with hr₁
    have hforward : KeepsForwarding r r₁ := keepsForwarding_passSubscribe r id si withdraw
    have hpassed : Spares W r r₁ := by
      rw [hr₁]
      split
      · rename_i hupdated
        refine Spares.trans (.of_eq rfl) (spares_sendSubscribeInfos (fun id' hW => ?_) _ si withdraw)
        exact beq_iff_eq.mpr (hquiet.passed hupdated id' hW)
      · exact .of_eq rfl
    have hstate : r₁.state = r.state := by
      rw [hr₁]
      split
      · rfl
      · rfl
    refine hpassed.trans ?_
    cases withdraw with
    | true =>
      rw [if_pos rfl]
      refine spares_subscribeWithdrawn (hblank.of_spares hpassed) fun hW => ?_
      refine (hquiet.withdrawn rfl hW).of_passed hforward hstate fun hash hnone => ?_
      have hsubscribes : r₁.infoBase.subscribes = (r.infoBase.removeSubscribe si).1.subscribes := by
        rw [hr₁]
        split
        · rfl
        · rfl
      rw [hsubscribes, hforward.nodeId]
      rw [InfoBase.get₂?_removeSubscribe, hnone, ite_self]
    | false =>
      rw [if_neg Bool.false_ne_true]
      refine spares_subscribeAdvertised (fun msg priority hmsg hpriority hmatches best hbest => ?_) id
      refine hquiet.advertised rfl msg priority hmsg hpriority ?_ best ?_
      · unfold announceMatches at hmatches ⊢
        rwa [hstate] at hmatches
      · rw [← hbest]
        exact congrArg (fun infos => infos.2.1[si.sourceNodeId]?) hforward.keepsRoutes.info.symm

/-- No session is to be spared. -/
theorem spares_subscribeInfoReceived_of_none (hnone : ¬∃ id, W id) (r : Relay) (id : PeerSessionId)
    (si : SubscribeInfo) (withdraw : Bool) :
    Spares W r (r.subscribeInfoReceived q id si withdraw) := by
  refine spares_subscribeInfoReceived (fun id' _ hW => absurd ⟨id', hW⟩ hnone) fun _ => ⟨?_, ?_, ?_⟩
  · exact fun _ id' hW => absurd ⟨id', hW⟩ hnone
  · exact fun _ hW => absurd hW hnone
  · exact fun _ _ _ _ _ _ best _ hW => hnone ⟨best, hW⟩

/-! ### Announcements and node sets of other relays -/

/-- An announcement comes over a session: it is passed on to none of the sessions but that one, and
its withdrawal ends nothing that this relay has announced. -/
structure AnnounceInfoQuietly (W : PeerSessionId → Prop) (q : Quicr) (r : Relay)
    (id : PeerSessionId) (info : AnnounceInfo) (withdraw : Bool) : Prop where
  passed : ∀ id', W id' → id' = id
  requests : withdraw = true → info.flags &&& 1 = 1 → (∃ id, W id) →
    r.state.requests[((0, (q.trackHash info.fullTrackName).trackNamespaceHash) :
      ConnectionHandle × RequestId)]? = none
  registered : withdraw = true → ¬info.flags &&& 1 = 1 → (∃ id, W id) →
    r.state.pubSubscribesByReqId[((0, 0) : RequestId × ConnectionHandle)]? = none

theorem spares_announceInfoReceived {id : PeerSessionId} {info : AnnounceInfo} {withdraw : Bool}
    (hquiet : (r.getPeerSession id).isSome = true → (r.updateAnnounces q info withdraw).2 = true →
      AnnounceInfoQuietly W q r id info withdraw) :
    Spares W r (r.announceInfoReceived q id info withdraw) := by
  unfold announceInfoReceived
  split
  · exact .refl r
  · rename_i session hsession
    dsimp only
    split
    · exact .of_eq rfl
    · rename_i hupdated
      have hquiet := hquiet (by rw [hsession]; rfl) (by simpa using hupdated)
      set r₁ := (r.updateAnnounces q info withdraw).1.sendAnnounceInfos (· == id) info withdraw
      have hpassed : Spares W r r₁ := by
        refine Spares.trans (.of_eq rfl) (spares_sendAnnounceInfos (fun id' hW => ?_) _ info withdraw)
        exact beq_iff_eq.mpr (hquiet.passed id' hW)
      refine hpassed.trans ?_
      split
      · rename_i hflag
        split
        · rename_i hwithdraw
          exact spares_publishNamespaceDoneReceived (hquiet.requests hwithdraw hflag)
        · exact (onlyState_publishNamespaceReceived q r₁ _ _).spares
      · rename_i hflag
        split
        · rename_i hwithdraw
          exact spares_publishDoneReceived (hquiet.registered hwithdraw hflag)
        · exact (onlyState_publishReceived q r₁ _).spares

theorem getPeerSession_of_lockSession {id? : Option PeerSessionId} {id : PeerSessionId}
    {session : PeerSession} (h : r.lockSession id? = some (id, session)) :
    id? = some id ∧ r.getPeerSession id = some session := by
  obtain ⟨id', hid, hget⟩ := Option.bind_eq_some_iff.mp h
  obtain ⟨session', hsession, heq⟩ := Option.map_eq_some_iff.mp hget
  cases heq
  exact ⟨hid, hsession⟩

theorem nodeId_setPeerSession (r : Relay) (id : PeerSessionId) (session : PeerSession) :
    (r.setPeerSession id session).nodeId = r.nodeId := by
  unfold setPeerSession
  split <;> rfl

/-- No node of the set has a session of `W` for its way. -/
theorem spares_snsNodes {ingress : PeerSessionId} {snsId : SubscribeNodeSetId} {updateRef : UInt64}
    (nodes : List NodeIdValueType) (row : ExtTreeMap PeerSessionId FibEntry)
    (hbest : ∀ node ∈ nodes, node ≠ r.nodeId → ∀ best,
      r.infoBase.nodesBest[node]? = some best → ¬W best) :
    Spares W r (nodes.foldl (snsNode q ingress snsId updateRef) (r, row)).1 := by
  induction nodes generalizing r row with
  | nil => exact .refl r
  | cons node nodes ih =>
    rw [List.foldl_cons]
    have hrest : ∀ {r₁ : Relay} (row₁ : ExtTreeMap PeerSessionId FibEntry),
        r₁.nodeId = r.nodeId → r₁.infoBase = r.infoBase →
        Spares W r₁ (nodes.foldl (snsNode q ingress snsId updateRef) (r₁, row₁)).1 := by
      intro r₁ row₁ hnode hinfo
      refine ih row₁ ?_
      rw [hnode, hinfo]
      exact fun node' hmem => hbest node' (List.mem_cons_of_mem _ hmem)
    unfold snsNode
    dsimp only
    split
    · exact hrest _ rfl rfl
    · rename_i hne
      split
      · exact hrest _ rfl rfl
      · rename_i best session hlock
        obtain ⟨hnode, hsession⟩ := getPeerSession_of_lockSession hlock
        have hset : Spares W r (r.setPeerSession best
            (session.addPeerSnsSourceNode q ingress snsId node).1) :=
          spares_setPeerSession hsession (prefix_addPeerSnsSourceNode session ingress snsId node)
            fun _ hW => absurd hW (hbest node List.mem_cons_self hne best hnode)
        exact hset.trans (hrest _ (nodeId_setPeerSession ..) (infoBase_setPeerSession ..))

/-- A node set is taken from a session. -/
theorem spares_removePeerSns (hblank : Blank W r) {egress : PeerSessionId} {session : PeerSession}
    (hget : r.getPeerSession egress = some session) (ingress : PeerSessionId)
    (snsId : SubscribeNodeSetId) :
    Spares W r (r.setPeerSession egress (session.removePeerSnsSourceNode ingress snsId 0).1) := by
  refine spares_setPeerSession hget (prefix_removePeerSnsSourceNode session ingress snsId 0) ?_
  intro hserver hW
  exact removePeerSnsSourceNode_eq (hblank egress session hW hserver).2 ingress snsId 0

theorem spares_withdrawEgress {ingress : PeerSessionId} {snsId : SubscribeNodeSetId}
    (hblank : Blank W r) {entry : PeerSessionId × FibEntry}
    (h : withdrawEgress ingress snsId r entry = some r') : Spares W r r' := by
  unfold withdrawEgress at h
  split at h
  · cases h
    exact .refl r
  · split at h
    · cases h
    · rename_i egress session hlock
      cases h
      exact spares_removePeerSns hblank (getPeerSession_of_lockSession hlock).2 ingress snsId

theorem spares_withdrawEgresses {ingress : PeerSessionId} {snsId : SubscribeNodeSetId}
    (l : List (PeerSessionId × FibEntry)) (hblank : Blank W r)
    (h : l.foldlM (withdrawEgress ingress snsId) r = some r') : Spares W r r' := by
  induction l generalizing r with
  | nil =>
    cases h
    exact .refl _
  | cons entry l ih =>
    rw [List.foldlM_cons, Option.bind_eq_bind, Option.bind_eq_some_iff] at h
    obtain ⟨r₁, hentry, h⟩ := h
    have hfirst := spares_withdrawEgress hblank hentry
    exact hfirst.trans (ih (hblank.of_spares hfirst) h)

theorem spares_dropEgress (snsId : SubscribeNodeSetId) (updateRef : UInt64) (hblank : Blank W r)
    (entry : FibEntry) : Spares W r (dropEgress snsId updateRef r entry) := by
  unfold dropEgress
  split
  · exact .refl r
  · split
    · exact .refl r
    · rename_i egress session hlock
      exact spares_removePeerSns hblank (getPeerSession_of_lockSession hlock).2 egress snsId

theorem spares_dropEgresses (snsId : SubscribeNodeSetId) (updateRef : UInt64) (l : List FibEntry)
    (hblank : Blank W r) : Spares W r (l.foldl (dropEgress snsId updateRef) r) := by
  induction l generalizing r with
  | nil => exact .refl r
  | cons entry l ih =>
    have hfirst := spares_dropEgress snsId updateRef hblank entry
    exact hfirst.trans (ih (hblank.of_spares hfirst))

theorem spares_snsReceived {ingress : PeerSessionId} {sns : SubscribeNodeSet} {withdraw : Bool}
    {updateRef : UInt64} (hblank : Blank W r)
    (hquiet : withdraw = false → ∀ node ∈ sns.nodes, node ≠ r.nodeId → ∀ best,
      r.infoBase.nodesBest[node]? = some best → ¬W best)
    (h : r.snsReceived q ingress sns withdraw updateRef = some r') : Spares W r r' := by
  unfold snsReceived at h
  dsimp only at h
  split at h
  · split at h
    · cases h
      exact .refl r
    · rw [Option.bind_eq_bind, Option.bind_eq_some_iff] at h
      obtain ⟨r₁, hloop, h⟩ := h
      cases h
      exact (spares_withdrawEgresses _ hblank hloop).trans (.of_eq rfl)
  · rename_i hadvertise
    have hnodes : ∀ row : ExtTreeMap PeerSessionId FibEntry, Spares W r
        (sns.nodes.toList.foldl (snsNode q ingress sns.id updateRef) (r, row)).1 := by
      intro row
      refine spares_snsNodes sns.nodes.toList row fun node hmem => ?_
      exact hquiet (Bool.eq_false_iff.mpr hadvertise) node (ExtTreeSet.mem_toList.mp hmem)
    split at h
    · cases h
      exact (hnodes ∅).trans (.of_eq rfl)
    · rename_i row _
      cases h
      have hdrops := spares_dropEgresses sns.id updateRef
        ((sns.nodes.toList.foldl (snsNode q ingress sns.id updateRef) (r, row)).2.toList.map Prod.snd)
        (hblank.of_spares (hnodes row))
      exact ((hnodes row).trans hdrops).trans (.of_eq rfl)

/-! ### Node information -/

/-- Information about a node goes to no session of `W`. -/
def Skips (W : PeerSessionId → Prop) (r : Relay) (info : NodeInfo) : Prop :=
  ∀ id session, W id → r.serverPeerSessions[id]? = some session →
    skipNode info session.remoteNodeInfo = true

/-- Node information comes over a session and is passed on. -/
def NodeQuietly (W : PeerSessionId → Prop) (r : Relay) (id : PeerSessionId) (info : NodeInfo)
    (withdraw : Bool) : Prop :=
  ∀ session, r.getPeerSession id = some session →
    if withdraw then Skips W r (info.pushBack session.nodeId session.srttUs)
    else ∀ infoBase, r.infoBase.addNode r.live id info = some (infoBase, true) →
      Skips W r (info.pushBack info.id session.srttUs)

theorem spares_nodeReceived {id : PeerSessionId} {info : NodeInfo} {withdraw : Bool}
    (hquiet : NodeQuietly W r id info withdraw) (h : r.nodeReceived id info withdraw = some r') :
    Spares W r r' := by
  unfold nodeReceived at h
  split at h
  · cases h
    exact .refl r
  · rename_i session hsession
    have hskips := hquiet session hsession
    split at h
    · rename_i hwithdraw
      rw [if_pos hwithdraw] at hskips
      rw [Option.bind_eq_bind, Option.bind_eq_some_iff] at h
      obtain ⟨infoBase, -, h⟩ := h
      cases h
      exact Spares.trans (.of_eq rfl) (spares_propagateNodeInfo hskips true)
    · rename_i hadvertise
      rw [if_neg hadvertise] at hskips
      rw [Option.bind_eq_bind, Option.bind_eq_some_iff] at h
      obtain ⟨⟨infoBase, isUpdated⟩, hadd, h⟩ := h
      cases h
      cases isUpdated with
      | true => exact Spares.trans (.of_eq rfl) (spares_propagateNodeInfo (hskips infoBase hadd) false)
      | false => exact .of_eq rfl

/-! ### Sessions that are lost -/

/-- The node of a lost session is withdrawn and its subscriptions are: there are none. -/
structure LostQuietly (W : PeerSessionId → Prop) (r : Relay) (remote : NodeInfo) : Prop where
  node : Skips W r remote
  subscribes : (∃ id, W id) → ∀ hash, r.infoBase.subscribes.get₂? hash remote.id = none

theorem spares_sessionChanged {id : PeerSessionId} {remote : NodeInfo}
    (hquiet : LostQuietly W r remote)
    (h : r.sessionChanged q id .disconnected remote = some r') : Spares W r r' := by
  unfold sessionChanged at h
  simp only [Option.bind_eq_bind, Option.bind_eq_some_iff] at h
  obtain ⟨infoBase, hpurge, lost, hlost, h⟩ := h
  cases h
  set r₁ := (r.propagateNodeInfo remote true).setInfoBase infoBase with hr₁
  have htold : Spares W r r₁ :=
    (spares_propagateNodeInfo hquiet.node true).trans (.of_eq rfl)
  have hsubscribes : r₁.infoBase.subscribes = r.infoBase.subscribes := by
    show infoBase.subscribes = _
    rw [InfoBase.purgePeerSessionInfo_rest hpurge]
    rfl
  -- The loop has come to an end, so that it has found no other session for a subscription.
  have hends : lost.updateSub = [] ∧
      lost.removeSub = (r.infoBase.subscribes.toList.map Prod.snd).filterMap (·[remote.id]?) := by
    rw [hsubscribes, lost_foldlM] at hlost
    split at hlost
    · cases hlost
    · cases hlost
      exact ⟨rfl, List.nil_append _⟩
  set r₂ := r₁.setInfoBase { r₁.infoBase with clientFib := lost.clientFib } with hr₂
  have hremoved : Spares W r₁
      (lost.removeSub.foldl (fun r si => r.subscribeInfoReceived q id si true) r₂) := by
    by_cases hW : ∃ id, W id
    · have hnil : lost.removeSub = [] := by
        rw [hends.2, List.filterMap_eq_nil_iff]
        intro row hrow
        obtain ⟨⟨hash, row⟩, hentry, rfl⟩ := List.mem_map.mp hrow
        have hnone := hquiet.subscribes hW hash
        rw [ExtTreeMap.get₂?, ExtTreeMap.mem_toList_iff_getElem?_eq_some.mp hentry] at hnone
        exact hnone
      rw [hnil]
      exact .of_eq rfl
    · exact Spares.trans (.of_eq rfl) (spares_foldl (fun r si =>
        spares_subscribeInfoReceived_of_none hW r id si true) r₂ _)
  rw [hends.1, List.foldl_nil]
  refine (htold.trans hremoved).trans ?_
  split
  · exact .refl _
  · exact .of_eq rfl

/-- A session that was accepted goes, one that the relay has opened stays. -/
theorem spares_sessionLost {id : PeerSessionId}
    (hquiet : ∀ session, r.getPeerSession id = some session → LostQuietly W r session.remoteNodeInfo)
    (h : r.sessionLost q id = some r') :
    Spares W r r' ∧ r'.serverPeerSessions[id]? = none := by
  unfold sessionLost at h
  split at h
  · rename_i session hserver
    rw [Option.bind_eq_bind, Option.bind_eq_some_iff] at h
    obtain ⟨r₁, hchanged, h⟩ := h
    cases h
    have hlost := spares_sessionChanged (hquiet session (by rw [getPeerSession, hserver])) hchanged
    refine ⟨hlost.trans fun id' session' hget => ?_, ExtTreeMap.getElem?_erase_self⟩
    change (r₁.serverPeerSessions.erase id)[id']? = some session' at hget
    rw [ExtTreeMap.getElem?_erase_ite] at hget
    split at hget
    · cases hget
    · exact Spares.refl r₁ id' session' hget
  · rename_i hserver
    have hspares : Spares W r r' := by
      split at h
      · cases h
        exact .refl _
      · rename_i session hclient
        have hget : r.getPeerSession id = some session := by
          rw [getPeerSession, hserver]
          exact hclient
        set r₁ := r.setPeerSession id { session with status := .disconnected } with hr₁
        have hsessions : r₁.serverPeerSessions = r.serverPeerSessions := by
          rw [hr₁]
          unfold setPeerSession
          rw [if_neg]
          rw [ExtTreeMap.contains_eq_false_iff.mpr hserver]
          exact Bool.false_ne_true
        have hquiet₁ : LostQuietly W r₁ session.remoteNodeInfo := by
          obtain ⟨hnode, hsubscribes⟩ := hquiet session hget
          have hinfo := infoBase_setPeerSession r id { session with status := .disconnected }
          refine ⟨fun id' session' hW hget' => hnode id' session' hW ?_, ?_⟩
          · rw [← hsessions]
            exact hget'
          · rw [hinfo]
            exact hsubscribes
        exact Spares.trans (.of_eq hsessions) (spares_sessionChanged hquiet₁ h)
    refine ⟨hspares, Option.eq_none_iff_forall_ne_some.mpr fun session' hget => ?_⟩
    obtain ⟨session, hold, -⟩ := hspares id session' hget
    cases hserver.symm.trans hold

/-! ### Sessions that come up -/

theorem prefix_syncNodes (id : PeerSessionId) (session : PeerSession)
    (entries : List ((NodeIdValueType × PeerSessionId) × NodeItem)) :
    session.enqueued <+: (entries.foldl (syncNode id) session).enqueued := by
  refine foldl_related (R := fun s s' : PeerSession => s.enqueued <+: s'.enqueued)
    (fun _ => List.prefix_rfl) List.IsPrefix.trans (fun session entry => ?_) session entries
  unfold syncNode
  split
  · exact List.prefix_rfl
  · exact prefix_sendNodeInfo _ _ _

theorem prefix_syncAnnounces (session : PeerSession) (infos : List AnnounceInfo) :
    session.enqueued <+: (infos.foldl syncAnnounce session).enqueued := by
  refine foldl_related (R := fun s s' : PeerSession => s.enqueued <+: s'.enqueued)
    (fun _ => List.prefix_rfl) List.IsPrefix.trans (fun session info => ?_) session infos
  unfold syncAnnounce
  split
  · exact List.prefix_rfl
  · exact prefix_sendAnnounceInfo _ _ _

theorem prefix_syncSubscribes
    (acc : PeerSession × ExtTreeMap UInt64 (ExtTreeMap NodeIdValueType SubscribeInfo))
    (entries : List ((UInt64 × NodeIdValueType) × SubscribeInfo)) :
    acc.1.enqueued <+: (entries.foldl syncSubscribe acc).1.enqueued := by
  refine foldl_related (R := fun s s' : PeerSession × ExtTreeMap UInt64
    (ExtTreeMap NodeIdValueType SubscribeInfo) => s.1.enqueued <+: s'.1.enqueued)
    (fun _ => List.prefix_rfl) List.IsPrefix.trans (fun acc entry => ?_) acc entries
  unfold syncSubscribe
  split
  · exact List.prefix_rfl
  · exact prefix_sendSubscribeInfo _ _ _

/-- Only the session itself is told. -/
theorem spares_infoBaseSyncPeer {id : PeerSessionId} (hid : ¬W id) (r : Relay) :
    Spares W r (r.infoBaseSyncPeer id) := by
  unfold infoBaseSyncPeer
  split
  · exact .refl r
  · rename_i session hsession
    dsimp only
    refine Spares.trans (spares_setPeerSession hsession ?_ fun _ hW => absurd hW hid) (.of_eq rfl)
    set s₁ := r.infoBase.nodes.toList.foldl (syncNode id) session
    set s₂ := (r.infoBase.announces.entries₂.map Prod.snd).foldl syncAnnounce s₁
    have hnodes : session.enqueued <+: s₁.enqueued := prefix_syncNodes id session _
    have hannounces : s₁.enqueued <+: s₂.enqueued := prefix_syncAnnounces s₁ _
    have hsubscribes := prefix_syncSubscribes (s₂, r.infoBase.subscribes)
      r.infoBase.subscribes.entries₂
    exact hnodes.trans (hannounces.trans hsubscribes)

/-- There is nothing that the session is to be told. -/
structure SyncsNone (r : Relay) (id : PeerSessionId) (session : PeerSession) : Prop where
  nodes : ∀ (key : NodeIdValueType × PeerSessionId) item, r.infoBase.nodes[key]? = some item →
    skipSync id session (key, item) = true
  announces : ∀ hash node info, r.infoBase.announces.get₂? hash node = some info →
    session.remoteNodeInfo.id = info.sourceNodeId
  subscribes : ∀ hash node si, r.infoBase.subscribes.get₂? hash node = some si →
    session.remoteNodeInfo.id = si.sourceNodeId

theorem foldl_of_fixed {α β : Type*} {f : β → α → β} {b : β} {l : List α}
    (h : ∀ a ∈ l, f b a = b) : l.foldl f b = b := by
  induction l with
  | nil => rfl
  | cons a l ih =>
    rw [List.foldl_cons, h a List.mem_cons_self]
    exact ih fun a' ha' => h a' (List.mem_cons_of_mem _ ha')

theorem SyncsNone.infoBaseSyncPeer_eq {id : PeerSessionId} {session : PeerSession}
    (hnone : SyncsNone r id session) (hget : r.getPeerSession id = some session) :
    r.infoBaseSyncPeer id = (r.setPeerSession id session).setInfoBase r.infoBase := by
  have hnodes : r.infoBase.nodes.toList.foldl (syncNode id) session = session := by
    refine foldl_of_fixed fun entry hentry => ?_
    exact if_pos (hnone.nodes entry.1 entry.2
      (ExtTreeMap.mem_toList_iff_getElem?_eq_some.mp hentry))
  have hannounces : (r.infoBase.announces.entries₂.map Prod.snd).foldl syncAnnounce session =
      session := by
    refine foldl_of_fixed fun info hinfo => ?_
    obtain ⟨⟨⟨hash, node⟩, info⟩, hentry, rfl⟩ := List.mem_map.mp hinfo
    exact if_pos (hnone.announces hash node info (ExtTreeMap.mem_entries₂.mp hentry))
  have hsubscribes : r.infoBase.subscribes.entries₂.foldl syncSubscribe
      (session, r.infoBase.subscribes) = (session, r.infoBase.subscribes) := by
    refine foldl_of_fixed fun entry hentry => ?_
    exact if_pos (hnone.subscribes _ _ entry.2 (ExtTreeMap.mem_entries₂.mp hentry))
  unfold infoBaseSyncPeer
  rw [hget]
  dsimp only
  rw [hnodes, hannounces, hsubscribes]

theorem SyncsNone.spares {id : PeerSessionId} {session : PeerSession}
    (hnone : SyncsNone r id session) (hget : r.getPeerSession id = some session) :
    Spares W r (r.infoBaseSyncPeer id) := by
  rw [hnone.infoBaseSyncPeer_eq hget]
  exact Spares.trans (spares_setPeerSession hget List.prefix_rfl fun _ _ => rfl) (.of_eq rfl)

section Syncs

variable {id : PeerSessionId} {session session' : PeerSession}

theorem getPeerSession_of_server
    (h : r.serverPeerSessions[id]? = some session) : r.getPeerSession id = some session := by
  unfold getPeerSession
  rw [h]

theorem SyncsNone.congr (h : SyncsNone r id session) (hinfo : r'.infoBase = r.infoBase)
    (hnode : session'.nodeId = session.nodeId)
    (hremote : session'.remoteNodeInfo = session.remoteNodeInfo) : SyncsNone r' id session' := by
  constructor
  · intro key item hget
    rw [hinfo] at hget
    have hskip := h.nodes key item hget
    unfold skipSync at hskip ⊢
    rwa [hnode, hremote]
  · rw [hinfo, hremote]
    exact h.announces
  · rw [hinfo, hremote]
    exact h.subscribes

/-- A node that the session itself has told of is none that it is to be told of. -/
theorem SyncsNone.of_nodeReceived (h : SyncsNone r id session) {info : NodeInfo}
    (hreceived : r.nodeReceived id info false = some r') : SyncsNone r' id session := by
  obtain rfl | ⟨told, infoBase, isUpdated, -, hadd, rfl, -⟩ :=
    tells_nodeReceived_advertise hreceived
  · exact h
  have hrest := InfoBase.selectBestNode_rest hadd
  constructor
  · intro key item hget
    rw [hrest] at hget
    change (r.infoBase.nodes.insert (info.id, id) ⟨id, info⟩)[key]? = some item at hget
    rw [ExtTreeMap.getElem?_insert_ite] at hget
    split at hget
    · rename_i hkey
      rw [hkey]
      simp [skipSync]
    · exact h.nodes key item hget
  · rw [hrest]
    exact h.announces
  · rw [hrest]
    exact h.subscribes

/-- The session is as it was, and so is what the relay knows. -/
theorem SyncsNone.synced (h : SyncsNone r id session)
    (hget : r.serverPeerSessions[id]? = some session)
    (hget' : (r.infoBaseSyncPeer id).serverPeerSessions[id]? = some session') :
    session' = session ∧ (r.infoBaseSyncPeer id).infoBase = r.infoBase := by
  have hsession := getPeerSession_of_server hget
  have hspares : Spares (fun _ => True) r (r.infoBaseSyncPeer id) := h.spares hsession
  obtain ⟨old, hold, -, heq⟩ := hspares id session' hget'
  cases hold.symm.trans hget
  refine ⟨heq trivial, ?_⟩
  rw [h.infoBaseSyncPeer_eq hsession]
  rfl

end Syncs

theorem server_modifyPeerSession (r : Relay) (id : PeerSessionId) (f : PeerSession → PeerSession)
    (id' : PeerSessionId) :
    (r.modifyPeerSession id f).serverPeerSessions[id']? =
      if id' = id then r.serverPeerSessions[id']?.map f else r.serverPeerSessions[id']? := by
  unfold modifyPeerSession getPeerSession setPeerSession
  cases hserver : r.serverPeerSessions[id]? with
  | none =>
    have hsame : ∀ {r' : Relay}, r'.serverPeerSessions = r.serverPeerSessions →
        r'.serverPeerSessions[id']? =
          if id' = id then r.serverPeerSessions[id']?.map f else r.serverPeerSessions[id']? := by
      intro r' heq
      rw [heq]
      split
      · rename_i hid
        rw [hid, hserver]
        rfl
      · rfl
    dsimp only
    split
    · exact hsame rfl
    · split
      · rename_i hcontains
        rw [ExtTreeMap.contains_eq_false_iff.mpr hserver] at hcontains
        cases hcontains
      · exact hsame rfl
  | some session =>
    dsimp only
    rw [if_pos (ExtTreeMap.contains_iff_getElem?.mpr ⟨session, hserver⟩)]
    dsimp only
    rw [ExtTreeMap.getElem?_insert_ite]
    split
    · rename_i hid
      rw [hid, hserver]
      rfl
    · rfl

theorem spares_modifyPeerSession {id : PeerSessionId} {f : PeerSession → PeerSession} (hid : ¬W id)
    (hf : ∀ session, session.enqueued <+: (f session).enqueued) (r : Relay) :
    Spares W r (r.modifyPeerSession id f) := by
  intro id' session' hget
  rw [server_modifyPeerSession] at hget
  split at hget
  · rename_i heq
    subst heq
    obtain ⟨session, hold, rfl⟩ := Option.map_eq_some_iff.mp hget
    exact ⟨session, hold, hf session, fun hW => absurd hW hid⟩
  · exact Spares.refl r id' session' hget

theorem modifyPeerSession_rest (r : Relay) (id : PeerSessionId) (f : PeerSession → PeerSession) :
    (r.modifyPeerSession id f).nodeId = r.nodeId ∧
      (r.modifyPeerSession id f).infoBase = r.infoBase := by
  unfold modifyPeerSession
  split
  · exact ⟨rfl, rfl⟩
  · exact ⟨nodeId_setPeerSession .., infoBase_setPeerSession ..⟩

theorem live_modifyPeerSession (r : Relay) (id : PeerSessionId) (f : PeerSession → PeerSession) :
    (r.modifyPeerSession id f).live = r.live := by
  funext id'
  unfold live
  rw [getPeerSession_modifyPeerSession]
  split
  · rw [Option.isSome_map]
  · rfl

/-- The session learns of the node at its other end, which is told nothing of itself. -/
theorem NodeQuietly.of_modify {id : PeerSessionId} {info : NodeInfo} {f : PeerSession → PeerSession}
    (h : NodeQuietly W r id info false)
    (hf : ∀ session, (f session).remoteNodeInfo = info ∧ (f session).srttUs = session.srttUs) :
    NodeQuietly (fun id' => W id' ∨ id' = id) (r.modifyPeerSession id f) id info false := by
  intro session₁ hget₁ infoBase hadd
  rw [getPeerSession_modifyPeerSession, if_pos rfl] at hget₁
  obtain ⟨session, hget, rfl⟩ := Option.map_eq_some_iff.mp hget₁
  rw [(modifyPeerSession_rest r id f).2, live_modifyPeerSession] at hadd
  have hskips : Skips W r (info.pushBack info.id session.srttUs) := h session hget infoBase hadd
  intro id' session' hW hget'
  rw [server_modifyPeerSession] at hget'
  rw [(hf session).2]
  by_cases hid : id' = id
  · rw [if_pos hid] at hget'
    obtain ⟨old, -, rfl⟩ := Option.map_eq_some_iff.mp hget'
    rw [(hf old).1]
    simp [skipNode, NodeInfo.pushBack]
  · rw [if_neg hid] at hget'
    exact hskips id' session' (hW.resolve_right hid) hget'

end Spares

end Laps.Relay
