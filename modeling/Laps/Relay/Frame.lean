import Laps.Relay.Model

/-! What the functions of a relay leave alone.  Those of the client manager that the peer manager
calls change the state of the clients only, and node sets go over sessions without touching the
announce and subscribe messages on them. -/

namespace Laps.Relay

open Std Client Peering

/-! ### Changes of the clients' state only -/

/-- Nothing but the state of the clients differs. -/
def OnlyState (r r' : Relay) : Prop := ∃ st, r' = { r with state := st }

theorem OnlyState.refl (r : Relay) : OnlyState r r := ⟨r.state, rfl⟩

theorem OnlyState.trans {r₁ r₂ r₃ : Relay} (h₁ : OnlyState r₁ r₂) (h₂ : OnlyState r₂ r₃) :
    OnlyState r₁ r₃ := by
  obtain ⟨st, rfl⟩ := h₁
  obtain ⟨st', rfl⟩ := h₂
  exact ⟨st', rfl⟩

theorem onlyState_mapState (r : Relay) (f : State → State) : OnlyState r (r.mapState f) :=
  ⟨_, rfl⟩

theorem OnlyState.infoBase {r r' : Relay} (h : OnlyState r r') : r'.infoBase = r.infoBase := by
  obtain ⟨st, rfl⟩ := h
  rfl

/-- A loop whose steps are related by a preorder relates its start and its end. -/
theorem foldl_related {α β : Type*} {R : α → α → Prop} (hrefl : ∀ a, R a a)
    (htrans : ∀ {a b c}, R a b → R b c → R a c) {f : α → β → α} (hf : ∀ a x, R a (f a x))
    (a : α) (l : List β) : R a (l.foldl f a) := by
  induction l generalizing a with
  | nil => exact hrefl a
  | cons x l ih => exact htrans (hf a x) (ih (f a x))

theorem onlyState_subscribeToAnnouncer (q : Quicr) (hash : UInt64) (full : FullTrackName)
    (conn : ConnectionHandle) (s : Subscriber) (r : Relay)
    (entry : (TrackNamespace × ConnectionHandle) × ExtTreeSet UInt64) :
    OnlyState r (subscribeToAnnouncer q hash full conn s r entry) := by
  unfold subscribeToAnnouncer
  dsimp only
  split
  · exact .refl r
  · split
    · exact .refl r
    · exact (onlyState_mapState _ _).trans (onlyState_mapState _ _)

/-- A subscription of the peer manager is not recorded as a client's. -/
theorem onlyState_processSubscribe (q : Quicr) (r : Relay) (th : TrackHash) (full : FullTrackName)
    (attrs : SubscribeAttributes) : OnlyState r (r.processSubscribe q 0 0 th full attrs) := by
  have hadd : OnlyState r (r.addToHandlers th.trackFullnameHash 0
      ⟨0, attrs.priority, attrs.deliveryTimeout, attrs.startLocation⟩) := onlyState_mapState _ _
  exact hadd.trans
    (foldl_related .refl .trans (onlyState_subscribeToAnnouncer q _ full 0 _) _ _)

theorem onlyState_publishReceived (q : Quicr) (r : Relay) (full : FullTrackName) :
    OnlyState r (r.publishReceived q 0 0 full) := ⟨_, rfl⟩

theorem onlyState_publishNamespaceReceived (q : Quicr) (r : Relay) (nameSpace : TrackNamespace)
    (req : RequestId) : OnlyState r (r.publishNamespaceReceived q 0 nameSpace req) := by
  unfold publishNamespaceReceived
  dsimp only
  split
  · exact ⟨_, rfl⟩
  · exact ⟨_, rfl⟩

theorem onlyState_subscribeToPublisher (q : Quicr) (nameSpace : TrackNamespace)
    (conn : ConnectionHandle) (r : Relay)
    (entry : (TrackNamespace × UInt64) ×
      ExtTreeMap (ConnectionHandle × RequestId) State.SubscribeInfo) :
    OnlyState r (subscribeToPublisher q nameSpace conn r entry) := by
  unfold subscribeToPublisher
  split
  · exact .refl r
  · split
    · exact .refl r
    · dsimp only
      split
      · exact .refl r
      · split
        · exact onlyState_mapState _ _
        · exact ⟨_, rfl⟩

/-! ### Parts that are kept -/

section Keeps

variable {α β : Type*} {ofInfo : InfoBase → α} {ofSession : PeerSession → β}

/-- A part of the info base is kept, and a part of each session. -/
structure Keeps (ofInfo : InfoBase → α) (ofSession : PeerSession → β) (r r' : Relay) : Prop where
  nodeId : r'.nodeId = r.nodeId
  info : ofInfo r'.infoBase = ofInfo r.infoBase
  client : ∀ id : PeerSessionId,
    r'.clientPeerSessions[id]?.map ofSession = r.clientPeerSessions[id]?.map ofSession
  server : ∀ id : PeerSessionId,
    r'.serverPeerSessions[id]?.map ofSession = r.serverPeerSessions[id]?.map ofSession

theorem Keeps.refl (r : Relay) : Keeps ofInfo ofSession r r :=
  ⟨rfl, rfl, fun _ => rfl, fun _ => rfl⟩

theorem Keeps.trans {r₁ r₂ r₃ : Relay} (h₁ : Keeps ofInfo ofSession r₁ r₂)
    (h₂ : Keeps ofInfo ofSession r₂ r₃) : Keeps ofInfo ofSession r₁ r₃ :=
  ⟨h₂.nodeId.trans h₁.nodeId, h₂.info.trans h₁.info, fun id => (h₂.client id).trans (h₁.client id),
    fun id => (h₂.server id).trans (h₁.server id)⟩

theorem OnlyState.keeps {r r' : Relay} (h : OnlyState r r') : Keeps ofInfo ofSession r r' := by
  obtain ⟨st, rfl⟩ := h
  exact ⟨rfl, rfl, fun _ => rfl, fun _ => rfl⟩

theorem keeps_mapState (r : Relay) (f : State → State) :
    Keeps ofInfo ofSession r (r.mapState f) :=
  (onlyState_mapState r f).keeps

theorem keeps_setInfoBase {r : Relay} {ib : InfoBase} (h : ofInfo ib = ofInfo r.infoBase) :
    Keeps ofInfo ofSession r (r.setInfoBase ib) :=
  ⟨rfl, h, fun _ => rfl, fun _ => rfl⟩

theorem Keeps.getPeerSession {r r' : Relay} (h : Keeps ofInfo ofSession r r')
    (id : PeerSessionId) : (r'.getPeerSession id).map ofSession =
      (r.getPeerSession id).map ofSession := by
  have hclient := h.client id
  have hserver := h.server id
  unfold Relay.getPeerSession
  cases hr : r.serverPeerSessions[id]? with
  | none => cases hr' : r'.serverPeerSessions[id]? <;> simp_all
  | some session => cases hr' : r'.serverPeerSessions[id]? <;> simp_all

theorem map_insert_of_map {m : ExtTreeMap PeerSessionId PeerSession} {id : PeerSessionId}
    {session : PeerSession} (h : m[id]?.map ofSession = some (ofSession session))
    (id' : PeerSessionId) :
    (m.insert id session)[id']?.map ofSession = m[id']?.map ofSession := by
  by_cases hid : id = id'
  · subst hid
    simp [h]
  · simp [ExtTreeMap.getElem?_insert, hid]

theorem keeps_setPeerSession {r : Relay} {id : PeerSessionId} {session session' : PeerSession}
    (hget : r.getPeerSession id = some session) (h : ofSession session' = ofSession session) :
    Keeps ofInfo ofSession r (r.setPeerSession id session') := by
  unfold Relay.getPeerSession at hget
  unfold setPeerSession
  split
  · rename_i hserver
    obtain ⟨old, hold⟩ := ExtTreeMap.contains_iff_getElem?.mp hserver
    rw [hold] at hget
    cases hget
    exact ⟨rfl, rfl, fun _ => rfl, map_insert_of_map (by simp [hold, h])⟩
  · rename_i hserver
    rw [ExtTreeMap.contains_eq_false_iff.mp (Bool.eq_false_iff.mpr hserver)] at hget
    exact ⟨rfl, rfl, map_insert_of_map (by simp_all), fun _ => rfl⟩

/-- Node sets and the client table are the only things that `forwardToNode` changes. -/
theorem keeps_forwardToNode (hfib : ∀ ib fib, ofInfo { ib with clientFib := fib } = ofInfo ib)
    (hsns : ∀ q session hash node,
      ofSession (session.addSubscribeSourceNode q hash node).1 = ofSession session)
    (q : Quicr) (r : Relay) (hash : UInt64) (node : NodeIdValueType)
    (keySession : PeerSessionId → PeerSessionId) :
    Keeps ofInfo ofSession r (r.forwardToNode q hash node keySession) := by
  unfold forwardToNode
  split
  · exact .refl r
  · split
    · exact .refl r
    · rename_i best _ _ session hsession
      have hset : Keeps ofInfo ofSession r
          (r.setPeerSession best (session.addSubscribeSourceNode q hash node).1) :=
        keeps_setPeerSession hsession (hsns q session hash node)
      dsimp only
      split
      · exact hset.trans (keeps_setInfoBase (hfib _ _))
      · exact hset

theorem keeps_matchSubscribe (hfib : ∀ ib fib, ofInfo { ib with clientFib := fib } = ofInfo ib)
    (hsns : ∀ q session hash node,
      ofSession (session.addSubscribeSourceNode q hash node).1 = ofSession session)
    (q : Quicr) (full : FullTrackName) (r : Relay) (si : SubscribeInfo) :
    Keeps ofInfo ofSession r (r.matchSubscribe q full si) := by
  unfold matchSubscribe
  split
  · exact .refl r
  · split
    · exact .refl r
    · split
      · exact .refl r
      · have hprocess : ∀ th full attrs,
            Keeps ofInfo ofSession r (r.processSubscribe q 0 0 th full attrs) :=
          fun th full attrs => (onlyState_processSubscribe q r th full attrs).keeps
        dsimp only
        split
        · exact hprocess _ _ _
        · exact (hprocess _ _ _).trans (keeps_forwardToNode hfib hsns q _ _ _ _)

/-- The loop over a map of sessions, for a part of them that subscribe messages leave alone. -/
theorem map_foldl_sendSubscribeInfosTo
    (hsend : ∀ session si withdraw,
      ofSession (PeerSession.sendSubscribeInfo session si withdraw).1 = ofSession session)
    (skip : PeerSessionId → Bool) (withdraw : Bool)
    (m : ExtTreeMap PeerSessionId PeerSession) (entries : List (PeerSessionId × PeerSession))
    (hentries : ∀ entry ∈ entries, m[entry.1]? = some entry.2)
    (acc : ExtTreeMap PeerSessionId PeerSession × SubscribeInfo)
    (hacc : ∀ id : PeerSessionId, acc.1[id]?.map ofSession = m[id]?.map ofSession)
    (id : PeerSessionId) :
    (entries.foldl (sendSubscribeInfosTo skip withdraw) acc).1[id]?.map ofSession =
      m[id]?.map ofSession := by
  induction entries generalizing acc with
  | nil => exact hacc id
  | cons entry entries ih =>
    rw [List.foldl_cons]
    refine ih (fun e he => hentries e (List.mem_cons_of_mem _ he)) _ ?_
    intro id'
    unfold sendSubscribeInfosTo
    split
    · exact hacc id'
    · have hentry := hentries entry List.mem_cons_self
      have hold : acc.1[entry.1]?.map ofSession =
          some (ofSession (entry.2.sendSubscribeInfo acc.2 withdraw).1) := by
        rw [hacc, hentry, hsend, Option.map_some]
      exact (map_insert_of_map hold id').trans (hacc id')

theorem keeps_sendSubscribeInfos
    (hsend : ∀ session si withdraw,
      ofSession (PeerSession.sendSubscribeInfo session si withdraw).1 = ofSession session)
    (r : Relay) (skip : PeerSessionId → Bool) (si : SubscribeInfo) (withdraw : Bool) :
    Keeps ofInfo ofSession r (r.sendSubscribeInfos skip si withdraw) := by
  have hloop := fun (m : ExtTreeMap PeerSessionId PeerSession) =>
    map_foldl_sendSubscribeInfosTo hsend skip withdraw m m.toList
      fun _ h => ExtTreeMap.mem_toList_iff_getElem?_eq_some.mp h
  exact ⟨rfl, rfl, hloop _ _ fun _ => rfl, hloop _ _ fun _ => rfl⟩

/-! Subscriptions leave a part of the sessions alone that does not show node sets and subscribe
messages. -/

/-- The part of a session does not depend on its node sets and its subscribe messages. -/
structure Blind (ofSession : PeerSession → β) : Prop where
  add : ∀ q session hash node,
    ofSession (PeerSession.addSubscribeSourceNode q session hash node).1 = ofSession session
  remove : ∀ session hash node,
    ofSession (PeerSession.removeSubscribeSourceNode session hash node).1 = ofSession session
  send : ∀ session si withdraw,
    ofSession (PeerSession.sendSubscribeInfo session si withdraw).1 = ofSession session

theorem keeps_clientUnsubscribe (hsubs : ∀ ib subs, ofInfo { ib with subscribes := subs } = ofInfo ib)
    (hsend : ∀ session si withdraw,
      ofSession (PeerSession.sendSubscribeInfo session si withdraw).1 = ofSession session)
    (r : Relay) (hash : UInt64) : Keeps ofInfo ofSession r (r.clientUnsubscribe hash) := by
  unfold clientUnsubscribe
  dsimp only
  split
  · exact keeps_setInfoBase (hsubs _ _)
  · rename_i si _
    have hremove : ofInfo ((r.infoBase.getSubscribe hash r.nodeId).1.removeSubscribe si).1 =
        ofInfo r.infoBase := by
      rw [InfoBase.removeSubscribe_rest]
      exact (hsubs _ _).trans (hsubs _ _)
    exact (keeps_setInfoBase hremove).trans (keeps_sendSubscribeInfos hsend _ _ _ _)

theorem keeps_removeOrPause (hsubs : ∀ ib subs, ofInfo { ib with subscribes := subs } = ofInfo ib)
    (hsend : ∀ session si withdraw,
      ofSession (PeerSession.sendSubscribeInfo session si withdraw).1 = ofSession session)
    (r : Relay) (hash : UInt64) :
    Keeps ofInfo ofSession r (r.removeOrPausePublisherSubscribe hash) := by
  unfold removeOrPausePublisherSubscribe
  split
  · exact .refl r
  · dsimp only
    split
    · exact keeps_mapState _ _
    · exact (keeps_mapState _ _).trans (keeps_clientUnsubscribe hsubs hsend _ hash)

theorem keeps_subscribeWithdrawn
    (hsubs : ∀ ib subs, ofInfo { ib with subscribes := subs } = ofInfo ib)
    (hfib : ∀ ib fib, ofInfo { ib with clientFib := fib } = ofInfo ib) (h : Blind ofSession)
    (r : Relay) (id : PeerSessionId) (si : SubscribeInfo) :
    Keeps ofInfo ofSession r (r.subscribeWithdrawn id si) := by
  unfold subscribeWithdrawn
  refine Keeps.trans ?_ (keeps_removeOrPause hsubs h.send _ _)
  dsimp only
  split
  · exact .refl r
  · split
    · exact .refl r
    · rename_i best _ _ session hsession
      have hset : Keeps ofInfo ofSession r (r.setPeerSession best
          (session.removeSubscribeSourceNode si.trackHash.trackFullnameHash si.sourceNodeId).1) :=
        keeps_setPeerSession hsession (h.remove _ _ _)
      have herase : ∀ (r' : Relay) (fib : ExtTreeMap (UInt64 × PeerSessionId) FibEntry),
          Keeps ofInfo ofSession r' (r'.setInfoBase { r'.infoBase with clientFib := fib }) :=
        fun _ _ => keeps_setInfoBase (hfib _ _)
      split
      · split
        · exact hset.trans (herase _ _)
        · exact hset.trans ((herase _ _).trans (keeps_mapState _ _))
      · exact hset

theorem keeps_subscribeAdvertised (hfib : ∀ ib fib, ofInfo { ib with clientFib := fib } = ofInfo ib)
    (hsns : ∀ q session hash node,
      ofSession (session.addSubscribeSourceNode q hash node).1 = ofSession session)
    (q : Quicr) (r : Relay) (id : PeerSessionId) (si : SubscribeInfo) :
    Keeps ofInfo ofSession r (r.subscribeAdvertised q id si) := by
  unfold subscribeAdvertised
  split
  · exact .refl r
  · split
    · exact .refl r
    · split
      · exact (onlyState_processSubscribe q r _ _ _).keeps.trans
          (keeps_forwardToNode hfib hsns q _ _ _ _)
      · exact .refl r

/-- A subscription that comes from a session is recorded and passed on. -/
theorem keeps_passSubscribe
    (hsubs : ∀ ib subs, ofInfo { ib with subscribes := subs } = ofInfo ib)
    (hsend : ∀ session si withdraw,
      ofSession (PeerSession.sendSubscribeInfo session si withdraw).1 = ofSession session)
    (r : Relay) (id : PeerSessionId) (si : SubscribeInfo) (withdraw : Bool) :
    Keeps ofInfo ofSession r
      (if (r.updateSubscribes si withdraw).2 then
        (r.updateSubscribes si withdraw).1.sendSubscribeInfos (· == id) si withdraw
      else (r.updateSubscribes si withdraw).1) := by
  have hupdate : Keeps ofInfo ofSession r (r.updateSubscribes si withdraw).1 := by
    apply keeps_setInfoBase
    cases withdraw with
    | true =>
      show ofInfo (r.infoBase.removeSubscribe si).1 = _
      rw [InfoBase.removeSubscribe_rest]
      exact hsubs _ _
    | false =>
      show ofInfo (r.infoBase.addSubscribe si).1 = _
      rw [InfoBase.addSubscribe_rest]
      exact hsubs _ _
  split
  · exact hupdate.trans (keeps_sendSubscribeInfos hsend _ _ _ _)
  · exact hupdate

theorem keeps_subscribeInfoReceived
    (hsubs : ∀ ib subs, ofInfo { ib with subscribes := subs } = ofInfo ib)
    (hfib : ∀ ib fib, ofInfo { ib with clientFib := fib } = ofInfo ib) (h : Blind ofSession)
    (q : Quicr) (r : Relay) (id : PeerSessionId) (si : SubscribeInfo) (withdraw : Bool) :
    Keeps ofInfo ofSession r (r.subscribeInfoReceived q id si withdraw) := by
  unfold subscribeInfoReceived
  split
  · exact .refl r
  · have hsent := keeps_passSubscribe hsubs h.send r id si withdraw
    dsimp only
    split
    · exact hsent.trans (keeps_subscribeWithdrawn hsubs hfib h _ _ _)
    · exact hsent.trans (keeps_subscribeAdvertised hfib h.add q _ _ _)

end Keeps

theorem getPeerSession_setPeerSession {r : Relay} {id : PeerSessionId} {old : PeerSession}
    (hget : r.getPeerSession id = some old) (session : PeerSession) (id' : PeerSessionId) :
    (r.setPeerSession id session).getPeerSession id' =
      if id' = id then some session else r.getPeerSession id' := by
  unfold setPeerSession
  split
  · by_cases hid : id' = id
    · subst hid
      simp [getPeerSession]
    · simp [getPeerSession, ExtTreeMap.getElem?_insert, Ne.symm hid, hid]
  · rename_i hserver
    have hnone : r.serverPeerSessions[id]? = none :=
      ExtTreeMap.contains_eq_false_iff.mp (Bool.eq_false_iff.mpr hserver)
    by_cases hid : id' = id
    · subst hid
      simp [getPeerSession, hnone]
    · simp [getPeerSession, ExtTreeMap.getElem?_insert, Ne.symm hid, hid]

/-! ### What a session has sent -/

section Sent

variable {α : Type*}

/-- The messages of one kind that a session has sent, and what its sending rests on. -/
def sentView (ofMessage : ControlMessage → Option α) (session : PeerSession) :
    StatusValue × NodeIdValueType × List α :=
  (session.status, session.nodeId, session.enqueued.filterMap ofMessage)

theorem sentView_enqueue (ofMessage : ControlMessage → Option α) (session : PeerSession)
    (msg : ControlMessage) :
    sentView ofMessage (session.enqueue msg) = (session.status, session.nodeId,
      session.enqueued.filterMap ofMessage ++ (ofMessage msg).toList) := by
  cases hmsg : ofMessage msg <;> simp [sentView, PeerSession.enqueue, hmsg]

/-- A node set is no message of another kind. -/
theorem sentView_addSubscribeSourceNode {ofMessage : ControlMessage → Option α}
    (hof : ∀ sns withdraw, ofMessage (.subscribeNodeSet sns withdraw) = none) (q : Quicr)
    (session : PeerSession) (hash : UInt64) (node : NodeIdValueType) :
    sentView ofMessage (session.addSubscribeSourceNode q hash node).1 =
      sentView ofMessage session := by
  have hsns : ∀ (session : PeerSession) sns withdraw,
      sentView ofMessage (session.sendSns sns withdraw) = sentView ofMessage session := by
    intro session sns withdraw
    unfold PeerSession.sendSns
    split
    · rfl
    · rw [sentView_enqueue, hof]
      simp [sentView]
  unfold PeerSession.addSubscribeSourceNode
  dsimp only
  split
  · rw [hsns]
    rfl
  · rfl

end Sent

/-! ### Announce messages -/

/-- What the announcements rest on. -/
def announceInfos (ib : InfoBase) :
    ExtTreeMap UInt64 (ExtTreeMap NodeIdValueType AnnounceInfo) ×
      ExtTreeMap UInt64 (ExtTreeSet UInt64) := (ib.announces, ib.prefixLookupAnnounces)

def announceView (session : PeerSession) :
    StatusValue × NodeIdValueType × List (AnnounceInfo × Bool) :=
  sentView ControlMessage.announceInfo? session

/-- The announcements and the announce messages are kept. -/
abbrev KeepsAnnounces (r r' : Relay) : Prop := Keeps announceInfos announceView r r'

theorem announceView_addSubscribeSourceNode (q : Quicr) (session : PeerSession) (hash : UInt64)
    (node : NodeIdValueType) :
    announceView (session.addSubscribeSourceNode q hash node).1 = announceView session :=
  sentView_addSubscribeSourceNode (fun _ _ => rfl) q session hash node

theorem announceView_sendSubscribeInfo (session : PeerSession) (si : SubscribeInfo)
    (withdraw : Bool) :
    announceView (session.sendSubscribeInfo si withdraw).1 = announceView session := by
  unfold PeerSession.sendSubscribeInfo
  split
  · rfl
  · simp [announceView, sentView, PeerSession.enqueue, ControlMessage.announceInfo?]

theorem announceView_sendAnnounceInfo {session : PeerSession} (h : session.status = .connected)
    (info : AnnounceInfo) (withdraw : Bool) :
    announceView (session.sendAnnounceInfo info withdraw) =
      (session.status, session.nodeId, session.announcesSent ++ [(info, withdraw)]) := by
  simp [PeerSession.sendAnnounceInfo, h, announceView, sentView_enqueue, PeerSession.announcesSent,
    ControlMessage.announceInfo?]

theorem keepsAnnounces_unsubscribeReceived (q : Quicr) (r : Relay) (conn : ConnectionHandle)
    (req : RequestId) : KeepsAnnounces r (r.unsubscribeReceived q conn req) := by
  unfold unsubscribeReceived
  split
  · exact .refl r
  · split
    · exact .refl r
    · exact (keeps_mapState _ _).trans
        (keeps_removeOrPause (fun _ _ => rfl) announceView_sendSubscribeInfo _ _)

theorem keepsAnnounces_unsubscribeOrphans (q : Quicr) (r : Relay) (hash : UInt64) :
    KeepsAnnounces r (r.unsubscribeOrphans q hash) := by
  unfold unsubscribeOrphans
  split
  · exact foldl_related .refl .trans (fun r _ => keepsAnnounces_unsubscribeReceived q r _ _) _ _
  · exact .refl _

/-- The end of a publish from a peer. -/
theorem keepsAnnounces_publishDoneReceived (q : Quicr) (r : Relay) :
    KeepsAnnounces r (r.publishDoneReceived q 0 0) := by
  unfold publishDoneReceived
  split
  · exact .refl r
  · dsimp only
    rw [if_pos rfl]
    exact (keeps_mapState r _).trans
      ((keepsAnnounces_unsubscribeOrphans q _ _).trans (keeps_mapState _ _))

/-! ### The announce messages of a relay -/

/-- The announce messages that were sent over a session. -/
def announcesTo (r : Relay) (id : PeerSessionId) : List (AnnounceInfo × Bool) :=
  ((r.getPeerSession id).map PeerSession.announcesSent).getD []

theorem Keeps.announcesTo {r r' : Relay} (h : KeepsAnnounces r r') (id : PeerSessionId) :
    r'.announcesTo id = r.announcesTo id := by
  have hview := congrArg (Option.map fun view => view.2.2) (h.getPeerSession id)
  simp only [Option.map_map] at hview
  exact congrArg (Option.getD · []) hview

theorem getPeerSession_sendAnnounceInfos (r : Relay) (skip : PeerSessionId → Bool)
    (info : AnnounceInfo) (withdraw : Bool) (id : PeerSessionId) :
    (r.sendAnnounceInfos skip info withdraw).getPeerSession id = (r.getPeerSession id).map
      fun session => if skip id then session else session.sendAnnounceInfo info withdraw := by
  unfold getPeerSession sendAnnounceInfos
  dsimp only
  rw [ExtTreeMap.getElem?_map, ExtTreeMap.getElem?_map]
  cases r.serverPeerSessions[id]? <;> rfl

/-- The relay has a connected session with the id. -/
def Connected (r : Relay) (id : PeerSessionId) : Prop :=
  ∃ session, r.getPeerSession id = some session ∧ session.status = .connected ∧
    session.nodeId = r.nodeId

/-- A session stays connected when its status and its node are kept. -/
theorem Keeps.connected {α β : Type*} {ofInfo : InfoBase → α}
    {ofMessage : ControlMessage → Option β} {r r' : Relay}
    (h : Keeps ofInfo (sentView ofMessage) r r') {id : PeerSessionId} (hr : r.Connected id) :
    r'.Connected id := by
  obtain ⟨session, hget, hstatus, hid⟩ := hr
  have hview := h.getPeerSession id
  rw [hget, Option.map_some] at hview
  obtain ⟨session', hget', hview'⟩ := Option.map_eq_some_iff.mp hview
  simp only [sentView, Prod.mk.injEq] at hview'
  exact ⟨session', hget', hview'.1.trans hstatus, (hview'.2.1.trans hid).trans h.nodeId.symm⟩

theorem Connected.sendAnnounceInfos {r : Relay} {id : PeerSessionId} (h : r.Connected id)
    (skip : PeerSessionId → Bool) (info : AnnounceInfo) (withdraw : Bool) :
    (r.sendAnnounceInfos skip info withdraw).Connected id := by
  obtain ⟨session, hget, hstatus, hid⟩ := h
  have hview : (if skip id then session else session.sendAnnounceInfo info withdraw).status =
      session.status ∧
      (if skip id then session else session.sendAnnounceInfo info withdraw).nodeId =
      session.nodeId := by
    unfold PeerSession.sendAnnounceInfo
    split
    · exact ⟨rfl, rfl⟩
    · split <;> exact ⟨rfl, rfl⟩
  refine ⟨_, by rw [getPeerSession_sendAnnounceInfos, hget, Option.map_some], ?_, ?_⟩
  · exact hview.1.trans hstatus
  · exact hview.2.trans hid

theorem announcesTo_sendAnnounceInfos {r : Relay} {id : PeerSessionId} (h : r.Connected id)
    (skip : PeerSessionId → Bool) (info : AnnounceInfo) (withdraw : Bool) :
    (r.sendAnnounceInfos skip info withdraw).announcesTo id =
      if skip id then r.announcesTo id else r.announcesTo id ++ [(info, withdraw)] := by
  obtain ⟨session, hget, hstatus, -⟩ := h
  unfold announcesTo
  rw [getPeerSession_sendAnnounceInfos, hget]
  by_cases hskip : skip id = true
  · simp [hskip]
  · have hsent : (session.sendAnnounceInfo info withdraw).announcesSent =
        session.announcesSent ++ [(info, withdraw)] :=
      congrArg (fun view => view.2.2) (announceView_sendAnnounceInfo hstatus info withdraw)
    simp [hskip, hsent]

/-- Matching the subscriptions of the other relays does nothing to the announcements. -/
theorem keepsAnnounces_clientAnnounce (q : Quicr) (r : Relay) (full : FullTrackName)
    (withdraw publishNamespace : Bool) :
    KeepsAnnounces
      ((r.updateAnnounces q (r.announceInfo q full publishNamespace) withdraw).1.sendAnnounceInfos
        (fun _ => false) (r.announceInfo q full publishNamespace) withdraw)
      (r.clientAnnounce q full withdraw publishNamespace) := by
  unfold clientAnnounce
  dsimp only
  split
  · exact .refl _
  · refine foldl_related .refl .trans (fun r' entry => ?_) _ _
    split
    · exact .refl _
    · exact keeps_matchSubscribe (fun _ _ => rfl) announceView_addSubscribeSourceNode q full _ _

/-- The client manager learns of a message after it is passed on. -/
theorem keepsAnnounces_announceInfoReceived (q : Quicr) {r : Relay} {id : PeerSessionId}
    (hid : r.Connected id) (info : AnnounceInfo) (withdraw : Bool)
    (hkind : withdraw = true → info.flags &&& 1 ≠ 1) :
    KeepsAnnounces
      (if (r.updateAnnounces q info withdraw).2 then
        (r.updateAnnounces q info withdraw).1.sendAnnounceInfos (· == id) info withdraw
      else (r.updateAnnounces q info withdraw).1)
      (r.announceInfoReceived q id info withdraw) := by
  obtain ⟨session, hget, -⟩ := hid
  unfold announceInfoReceived
  rw [hget]
  dsimp only
  cases hupdated : (r.updateAnnounces q info withdraw).2 with
  | false => exact .refl _
  | true =>
    rw [if_pos rfl]
    simp only [Bool.not_true, Bool.false_eq_true, if_false]
    cases withdraw with
    | false =>
      split
      · exact (onlyState_publishNamespaceReceived q _ _ _).keeps
      · exact (onlyState_publishReceived q _ _).keeps
    | true =>
      rw [if_neg (hkind rfl)]
      exact keepsAnnounces_publishDoneReceived q _

/-! ### The subscribe messages of a relay -/

def subscribeView (session : PeerSession) :
    StatusValue × NodeIdValueType × List (SubscribeInfo × Bool) :=
  sentView ControlMessage.subscribeInfo? session

/-- The subscriptions and the subscribe messages are kept. -/
abbrev KeepsSubscribes (r r' : Relay) : Prop := Keeps InfoBase.subscribes subscribeView r r'

/-- The subscribe messages that were sent over a session. -/
def subscribesTo (r : Relay) (id : PeerSessionId) : List (SubscribeInfo × Bool) :=
  ((r.getPeerSession id).map PeerSession.subscribesSent).getD []

theorem Keeps.subscribesTo {r r' : Relay} (h : KeepsSubscribes r r') (id : PeerSessionId) :
    r'.subscribesTo id = r.subscribesTo id := by
  have hview := congrArg (Option.map fun view => view.2.2) (h.getPeerSession id)
  simp only [Option.map_map] at hview
  exact congrArg (Option.getD · []) hview

theorem subscribesSent_sendSubscribeInfo {session : PeerSession} (h : session.status = .connected)
    (info : SubscribeInfo) (withdraw : Bool) :
    (session.sendSubscribeInfo info withdraw).1.subscribesSent =
      session.subscribesSent ++ [((session.sendSubscribeInfo info withdraw).2, withdraw)] := by
  simp [PeerSession.sendSubscribeInfo, h, PeerSession.subscribesSent, PeerSession.enqueue,
    ControlMessage.subscribeInfo?]

section SendSubscribeInfos

variable {P : SubscribeInfo → Prop} {Q : PeerSession → Prop} {withdraw : Bool}
variable (skip : PeerSessionId → Bool)

/-- The loop over a map of sessions: each gets the message once, in some form `P` that sending
keeps. -/
theorem foldl_sendSubscribeInfosTo
    (hP : ∀ session info, Q session → P info →
      P (PeerSession.sendSubscribeInfo session info withdraw).2)
    (entries : List (PeerSessionId × PeerSession)) (hQ : ∀ entry ∈ entries, Q entry.2)
    (hdistinct : entries.Pairwise fun a b => a.1 ≠ b.1)
    (acc : ExtTreeMap PeerSessionId PeerSession × SubscribeInfo) (hacc : P acc.2) :
    P (entries.foldl (sendSubscribeInfosTo skip withdraw) acc).2 ∧
    (∀ id, (∀ entry ∈ entries, entry.1 ≠ id) ∨ skip id = true →
      (entries.foldl (sendSubscribeInfosTo skip withdraw) acc).1[id]? = acc.1[id]?) ∧
    ∀ entry ∈ entries, skip entry.1 = false → ∃ info, P info ∧
      (entries.foldl (sendSubscribeInfosTo skip withdraw) acc).1[entry.1]? =
        some (entry.2.sendSubscribeInfo info withdraw).1 := by
  induction entries generalizing acc with
  | nil => simp [hacc]
  | cons entry entries ih =>
    obtain ⟨hfresh, hdistinct⟩ := List.pairwise_cons.mp hdistinct
    have hstep : P (sendSubscribeInfosTo skip withdraw acc entry).2 := by
      unfold sendSubscribeInfosTo
      split
      · exact hacc
      · exact hP _ _ (hQ entry List.mem_cons_self) hacc
    have hkept : ∀ id, entry.1 ≠ id ∨ skip id = true →
        (sendSubscribeInfosTo skip withdraw acc entry).1[id]? = acc.1[id]? := by
      intro id hid
      unfold sendSubscribeInfosTo
      split
      · rfl
      · rename_i hskip
        have hne : entry.1 ≠ id := by
          rcases hid with hne | hid
          · exact hne
          · exact fun heq => hskip (heq ▸ hid)
        simp [ExtTreeMap.getElem?_insert, hne]
    obtain ⟨hlast, hsame, hsends⟩ :=
      ih (fun e he => hQ e (List.mem_cons_of_mem _ he)) hdistinct _ hstep
    rw [List.foldl_cons]
    refine ⟨hlast, fun id hid => ?_, fun e he hskip => ?_⟩
    · rw [hsame id (hid.imp (fun h e he => h e (List.mem_cons_of_mem _ he)) fun h => h)]
      exact hkept id (hid.imp (fun h => h entry List.mem_cons_self) fun h => h)
    · rcases List.mem_cons.mp he with rfl | he
      · refine ⟨acc.2, hacc, ?_⟩
        rw [hsame e.1 (Or.inl fun e' he' => (hfresh e' he').symm)]
        simp [sendSubscribeInfosTo, hskip]
      · exact hsends e he hskip

theorem getElem?_sendSubscribeInfosTo
    (hP : ∀ session info, Q session → P info →
      P (PeerSession.sendSubscribeInfo session info withdraw).2)
    (m : ExtTreeMap PeerSessionId PeerSession)
    (hQ : ∀ (id : PeerSessionId) session, m[id]? = some session → Q session)
    {si : SubscribeInfo} (hsi : P si) :
    P (m.toList.foldl (sendSubscribeInfosTo skip withdraw) (m, si)).2 ∧
    ∀ id, ∃ info, P info ∧
      (m.toList.foldl (sendSubscribeInfosTo skip withdraw) (m, si)).1[id]? =
        m[id]?.map fun session =>
          if skip id then session else (session.sendSubscribeInfo info withdraw).1 := by
  obtain ⟨hlast, hsame, hsends⟩ := foldl_sendSubscribeInfosTo skip hP m.toList
    (fun entry hentry => hQ _ _ (ExtTreeMap.mem_toList_iff_getElem?_eq_some.mp hentry))
    ExtTreeMap.pairwise_toList_ne (m, si) hsi
  refine ⟨hlast, fun id => ?_⟩
  cases hskip : skip id with
  | true =>
    refine ⟨si, hsi, ?_⟩
    rw [hsame id (Or.inr hskip)]
    simp
  | false =>
    cases hget : m[id]? with
    | none =>
      refine ⟨si, hsi, ?_⟩
      rw [hsame id (Or.inl ?_), hget]
      · rfl
      · rintro ⟨id', session⟩ hentry rfl
        rw [ExtTreeMap.mem_toList_iff_getElem?_eq_some] at hentry
        cases hget.symm.trans hentry
    | some session =>
      obtain ⟨info, hinfo, hsent⟩ := hsends (id, session)
        (ExtTreeMap.mem_toList_iff_getElem?_eq_some.mpr hget) hskip
      exact ⟨info, hinfo, by simpa using hsent⟩

/-- All sessions of the relay have the property. -/
structure AllSessions (Q : PeerSession → Prop) (r : Relay) : Prop where
  client : ∀ (id : PeerSessionId) session, r.clientPeerSessions[id]? = some session → Q session
  server : ∀ (id : PeerSessionId) session, r.serverPeerSessions[id]? = some session → Q session

theorem getPeerSession_sendSubscribeInfos
    (hP : ∀ session info, Q session → P info →
      P (PeerSession.sendSubscribeInfo session info withdraw).2)
    {r : Relay} (hQ : r.AllSessions Q) {si : SubscribeInfo} (hsi : P si) (id : PeerSessionId) :
    ∃ info, P info ∧ (r.sendSubscribeInfos skip si withdraw).getPeerSession id =
        (r.getPeerSession id).map fun session =>
          if skip id then session else (session.sendSubscribeInfo info withdraw).1 := by
  obtain ⟨hlast, hclients⟩ :=
    getElem?_sendSubscribeInfosTo skip hP r.clientPeerSessions hQ.client hsi
  obtain ⟨-, hservers⟩ :=
    getElem?_sendSubscribeInfosTo skip hP r.serverPeerSessions hQ.server hlast
  obtain ⟨info, hinfo, hclient⟩ := hclients id
  obtain ⟨info', hinfo', hserver⟩ := hservers id
  unfold getPeerSession sendSubscribeInfos
  dsimp only
  rw [hclient, hserver]
  cases r.serverPeerSessions[id]? with
  | none => exact ⟨info, hinfo, rfl⟩
  | some session => exact ⟨info', hinfo', rfl⟩

/-- A connected session gets the message once. -/
theorem subscribesTo_sendSubscribeInfos
    (hP : ∀ session info, Q session → P info →
      P (PeerSession.sendSubscribeInfo session info withdraw).2)
    {r : Relay} (hQ : r.AllSessions Q) {si : SubscribeInfo} (hsi : P si) {id : PeerSessionId}
    (h : r.Connected id) :
    (skip id = true ∧
      (r.sendSubscribeInfos skip si withdraw).subscribesTo id = r.subscribesTo id) ∨
    (skip id = false ∧ ∃ info, P info ∧
      (r.sendSubscribeInfos skip si withdraw).subscribesTo id =
        r.subscribesTo id ++ [(info, withdraw)]) := by
  obtain ⟨session, hget, hstatus, -⟩ := h
  obtain ⟨info, hinfo, hsent⟩ := getPeerSession_sendSubscribeInfos skip hP hQ hsi id
  unfold subscribesTo
  rw [hsent, hget]
  cases hskip : skip id with
  | true => exact Or.inl ⟨rfl, rfl⟩
  | false =>
    have hsession : Q session := by
      unfold getPeerSession at hget
      split at hget
      · rename_i hserver
        cases hget
        exact hQ.server id session hserver
      · exact hQ.client id session hget
    refine Or.inr ⟨rfl, _, hP session info hsession hinfo, ?_⟩
    simpa using subscribesSent_sendSubscribeInfo hstatus info withdraw

end SendSubscribeInfos

/-- The sessions have the id of their relay. -/
abbrev OwnSessions (r : Relay) : Prop := r.AllSessions fun session => session.nodeId = r.nodeId

theorem Keeps.ownSessions {α β : Type*} {ofInfo : InfoBase → α}
    {ofMessage : ControlMessage → Option β} {r r' : Relay}
    (h : Keeps ofInfo (sentView ofMessage) r r') (hr : r.OwnSessions) : r'.OwnSessions := by
  have hown : ∀ {m m' : ExtTreeMap PeerSessionId PeerSession} {id : PeerSessionId}
      {session' : PeerSession},
      m'[id]?.map (sentView ofMessage) = m[id]?.map (sentView ofMessage) →
      (∀ session : PeerSession, m[id]? = some session → session.nodeId = r.nodeId) →
      m'[id]? = some session' → session'.nodeId = r'.nodeId := by
    intro m m' id session' hview hm hget
    rw [hget, Option.map_some] at hview
    obtain ⟨session, hsession, heq⟩ := Option.map_eq_some_iff.mp hview.symm
    simp only [sentView, Prod.mk.injEq] at heq
    rw [h.nodeId, ← hm session hsession, heq.2.1]
  exact ⟨fun id _ => hown (h.client id) (hr.client id),
    fun id _ => hown (h.server id) (hr.server id)⟩

theorem keeps_sendSubscribeInfos_announceView (r : Relay) (skip : PeerSessionId → Bool)
    (si : SubscribeInfo) (withdraw : Bool) :
    Keeps InfoBase.subscribes announceView r (r.sendSubscribeInfos skip si withdraw) :=
  keeps_sendSubscribeInfos announceView_sendSubscribeInfo r skip si withdraw

/-- What a subscription of another relay does to the clients comes after it is passed on. -/
theorem keepsSubscribes_subscribeAdvertised (q : Quicr) (r : Relay) (id : PeerSessionId)
    (si : SubscribeInfo) : KeepsSubscribes r (r.subscribeAdvertised q id si) :=
  keeps_subscribeAdvertised (fun _ _ => rfl)
    (sentView_addSubscribeSourceNode fun _ _ => rfl) q r id si

theorem keepsSubscribes_subscribeInfoReceived (q : Quicr) {r : Relay} {id : PeerSessionId}
    (hid : r.Connected id) (si : SubscribeInfo) :
    KeepsSubscribes
      (if (r.updateSubscribes si false).2 then
        (r.updateSubscribes si false).1.sendSubscribeInfos (· == id) si false
      else (r.updateSubscribes si false).1)
      (r.subscribeInfoReceived q id si false) := by
  obtain ⟨session, hget, -⟩ := hid
  unfold subscribeInfoReceived
  rw [hget]
  exact keepsSubscribes_subscribeAdvertised q _ id si

end Laps.Relay
