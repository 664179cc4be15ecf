import Laps.Relay.NodeMessages

/-! What a relay hands to the transports of its sessions: the functions of the peer manager keep the
sessions with their two nodes and their status, and add control messages of their kind. -/

namespace Laps.Relay

open Std Client Peering

/-! ### Sessions that grow -/

/-- The session has control messages added, which `P` holds of. -/
structure SessionGrows (P : ControlMessage → Prop) (session session' : PeerSession) : Prop where
  nodeId : session'.nodeId = session.nodeId
  remote : session'.remoteNodeInfo = session.remoteNodeInfo
  status : session'.status = session.status
  enqueued : ∃ new, session'.enqueued = session.enqueued ++ new ∧ ∀ msg ∈ new, P msg

section SessionGrows

variable {P Q : ControlMessage → Prop} {session session' session'' : PeerSession}

theorem SessionGrows.refl (session : PeerSession) : SessionGrows P session session :=
  ⟨rfl, rfl, rfl, [], (List.append_nil _).symm, fun _ hmsg => absurd hmsg List.not_mem_nil⟩

theorem SessionGrows.trans (h : SessionGrows P session session')
    (h' : SessionGrows P session' session'') : SessionGrows P session session'' := by
  obtain ⟨new, hnew, hP⟩ := h.enqueued
  obtain ⟨new', hnew', hP'⟩ := h'.enqueued
  refine ⟨h'.nodeId.trans h.nodeId, h'.remote.trans h.remote, h'.status.trans h.status,
    new ++ new', ?_, ?_⟩
  · rw [hnew', hnew, List.append_assoc]
  · intro msg hmsg
    exact (List.mem_append.mp hmsg).elim (hP msg) (hP' msg)

theorem SessionGrows.mono (h : SessionGrows P session session') (hPQ : ∀ msg, P msg → Q msg) :
    SessionGrows Q session session' := by
  obtain ⟨new, hnew, hP⟩ := h.enqueued
  exact ⟨h.nodeId, h.remote, h.status, new, hnew, fun msg hmsg => hPQ msg (hP msg hmsg)⟩

/-- A message that was not there before is a new one. -/
theorem SessionGrows.new (h : SessionGrows P session session') {msg : ControlMessage}
    (hmsg : msg ∈ session'.enqueued) : msg ∈ session.enqueued ∨ P msg := by
  obtain ⟨new, hnew, hP⟩ := h.enqueued
  rw [hnew] at hmsg
  exact (List.mem_append.mp hmsg).imp_right (hP msg)

/-- The node sets and data contexts of a session play no part. -/
theorem sessionGrows_of_same (hnode : session'.nodeId = session.nodeId)
    (hremote : session'.remoteNodeInfo = session.remoteNodeInfo)
    (hstatus : session'.status = session.status) (hsent : session'.enqueued = session.enqueued) :
    SessionGrows P session session' :=
  ⟨hnode, hremote, hstatus, [], by rw [hsent, List.append_nil],
    fun _ hmsg => absurd hmsg List.not_mem_nil⟩

theorem sessionGrows_enqueue (session : PeerSession) {msg : ControlMessage} (hmsg : P msg) :
    SessionGrows P session (session.enqueue msg) :=
  ⟨rfl, rfl, rfl, [msg], rfl, fun _ hnew => List.mem_singleton.mp hnew ▸ hmsg⟩

end SessionGrows

/-! ### Relays whose sessions grow -/

/-- The relay keeps its sessions, with control messages added that `P` holds of. -/
structure Grows (P : ControlMessage → Prop) (r r' : Relay) : Prop where
  nodeId : r'.nodeId = r.nodeId
  client : ∀ id, r'.clientPeerSessions.contains id = r.clientPeerSessions.contains id
  session : ∀ id, Option.Rel (SessionGrows P) (r.getPeerSession id) (r'.getPeerSession id)

section Grows

variable {P Q : ControlMessage → Prop} {r r' r'' : Relay}

theorem Grows.of_some (h : Grows P r r') {id : PeerSessionId} {session : PeerSession}
    (hget : r.getPeerSession id = some session) :
    ∃ session', r'.getPeerSession id = some session' ∧ SessionGrows P session session' := by
  have hrel := h.session id
  rw [hget] at hrel
  generalize r'.getPeerSession id = after at hrel ⊢
  cases hrel with
  | some hgrows => exact ⟨_, rfl, hgrows⟩

theorem Grows.to_some (h : Grows P r r') {id : PeerSessionId} {session' : PeerSession}
    (hget : r'.getPeerSession id = some session') :
    ∃ session, r.getPeerSession id = some session ∧ SessionGrows P session session' := by
  have hrel := h.session id
  rw [hget] at hrel
  generalize r.getPeerSession id = before at hrel ⊢
  cases hrel with
  | some hgrows => exact ⟨_, rfl, hgrows⟩

theorem Grows.none_iff (h : Grows P r r') (id : PeerSessionId) :
    r'.getPeerSession id = none ↔ r.getPeerSession id = none := by
  have hrel := h.session id
  generalize r.getPeerSession id = before, r'.getPeerSession id = after at hrel ⊢
  cases hrel with
  | some hgrows => simp
  | none => simp

theorem Grows.live (h : Grows P r r') : r'.live = r.live := by
  funext id
  unfold Relay.live
  have hrel := h.session id
  generalize r.getPeerSession id = before, r'.getPeerSession id = after at hrel ⊢
  cases hrel with
  | some hgrows => rfl
  | none => rfl

/-- What was read of the sessions one by one. -/
theorem grows_of_get (hnode : r'.nodeId = r.nodeId)
    (hclient : ∀ id, r'.clientPeerSessions.contains id = r.clientPeerSessions.contains id)
    (hsome : ∀ id session, r.getPeerSession id = some session →
      ∃ session', r'.getPeerSession id = some session' ∧ SessionGrows P session session')
    (hnone : ∀ id, r.getPeerSession id = none → r'.getPeerSession id = none) : Grows P r r' := by
  refine ⟨hnode, hclient, fun id => ?_⟩
  cases hget : r.getPeerSession id with
  | none =>
    rw [hnone id hget]
    exact .none
  | some session =>
    obtain ⟨session', hget', hgrows⟩ := hsome id session hget
    rw [hget']
    exact .some hgrows

theorem Grows.refl (r : Relay) : Grows P r r :=
  grows_of_get rfl (fun _ => rfl) (fun _ session hget => ⟨session, hget, .refl session⟩) fun _ => id

theorem Grows.trans (h : Grows P r r') (h' : Grows P r' r'') : Grows P r r'' := by
  refine grows_of_get (h'.nodeId.trans h.nodeId) (fun id => (h'.client id).trans (h.client id))
    (fun id session hget => ?_) fun id hget => ?_
  · obtain ⟨session', hget', hgrows⟩ := h.of_some hget
    obtain ⟨session'', hget'', hgrows'⟩ := h'.of_some hget'
    exact ⟨session'', hget'', hgrows.trans hgrows'⟩
  · exact (h'.none_iff id).mpr ((h.none_iff id).mpr hget)

theorem Grows.mono (h : Grows P r r') (hPQ : ∀ msg, P msg → Q msg) : Grows Q r r' := by
  refine grows_of_get h.nodeId h.client (fun id session hget => ?_)
    fun id hget => (h.none_iff id).mpr hget
  obtain ⟨session', hget', hgrows⟩ := h.of_some hget
  exact ⟨session', hget', hgrows.mono hPQ⟩

/-- The sessions are the same ones. -/
theorem grows_of_same (hnode : r'.nodeId = r.nodeId)
    (hclient : r'.clientPeerSessions = r.clientPeerSessions)
    (hserver : r'.serverPeerSessions = r.serverPeerSessions) : Grows P r r' := by
  have hsame : ∀ id, r'.getPeerSession id = r.getPeerSession id := by
    intro id
    unfold getPeerSession
    rw [hclient, hserver]
  exact grows_of_get hnode (fun id => by rw [hclient])
    (fun id session hget => ⟨session, (hsame id).trans hget, .refl session⟩)
    fun id hget => (hsame id).trans hget

theorem grows_setInfoBase (r : Relay) (ib : InfoBase) : Grows P r (r.setInfoBase ib) :=
  grows_of_same rfl rfl rfl

theorem OnlyState.grows (h : OnlyState r r') : Grows P r r' := by
  obtain ⟨st, rfl⟩ := h
  exact grows_of_same rfl rfl rfl

theorem grows_setPeerSession {id : PeerSessionId} {session session' : PeerSession}
    (hget : r.getPeerSession id = some session) (h : SessionGrows P session session') :
    Grows P r (r.setPeerSession id session') := by
  have hkeeps : Keeps (fun _ => ()) (fun _ => ()) r (r.setPeerSession id session') :=
    keeps_setPeerSession hget rfl
  refine grows_of_get hkeeps.nodeId (fun id' => contains_of_map_eq (hkeeps.client id'))
    (fun id' old hold => ?_) fun id' hnone => ?_
  · rw [getPeerSession_setPeerSession hget]
    split
    · rename_i hid
      rw [hid, hget] at hold
      cases hold
      exact ⟨session', rfl, h⟩
    · exact ⟨old, hold, .refl old⟩
  · rw [getPeerSession_setPeerSession hget]
    split
    · rename_i hid
      rw [hid, hget] at hnone
      cases hnone
    · exact hnone

end Grows

theorem grows_modifyPeerSession {P : ControlMessage → Prop} (r : Relay) (id : PeerSessionId)
    {f : PeerSession → PeerSession} (hf : ∀ session, SessionGrows P session (f session)) :
    Grows P r (r.modifyPeerSession id f) := by
  unfold modifyPeerSession
  split
  · exact .refl r
  · rename_i session hget
    exact grows_setPeerSession hget (hf session)

theorem grows_transportReady (r : Relay) (id : PeerSessionId) :
    Grows (· = .connect r.nodeInfo) r (r.transportReady id) :=
  grows_modifyPeerSession r id fun _ =>
    ⟨rfl, rfl, rfl, [.connect r.nodeInfo], rfl, fun _ hmsg => List.mem_singleton.mp hmsg⟩

/-! ### The functions of the peer manager -/

/-- A node set. -/
def IsSns : ControlMessage → Prop
  | .subscribeNodeSet _ _ => True
  | _ => False

theorem sessionGrows_sendSns (session : PeerSession) (sns : SubscribeNodeSet) (withdraw : Bool) :
    SessionGrows IsSns session (session.sendSns sns withdraw) := by
  unfold PeerSession.sendSns
  split
  · exact .refl session
  · exact sessionGrows_enqueue session trivial

theorem sessionGrows_addSubscribeSourceNode (q : Quicr) (session : PeerSession) (hash : UInt64)
    (node : NodeIdValueType) :
    SessionGrows IsSns session (session.addSubscribeSourceNode q hash node).1 := by
  unfold PeerSession.addSubscribeSourceNode
  dsimp only
  split
  · refine SessionGrows.trans ?_ (sessionGrows_sendSns _ _ _)
    exact sessionGrows_of_same rfl rfl rfl rfl
  · exact sessionGrows_of_same rfl rfl rfl rfl

theorem sessionGrows_addPeerSnsSourceNode (q : Quicr) (session : PeerSession)
    (ingress : PeerSessionId) (snsId : SubscribeNodeSetId) (node : NodeIdValueType) :
    SessionGrows IsSns session (session.addPeerSnsSourceNode q ingress snsId node).1 := by
  unfold PeerSession.addPeerSnsSourceNode
  dsimp only
  split
  · refine SessionGrows.trans ?_ (sessionGrows_sendSns _ _ _)
    exact sessionGrows_of_same rfl rfl rfl rfl
  · exact sessionGrows_of_same rfl rfl rfl rfl

theorem sessionGrows_removePeerSnsSourceNode (session : PeerSession) (ingress : PeerSessionId)
    (snsId : SubscribeNodeSetId) (node : NodeIdValueType) :
    SessionGrows IsSns session (session.removePeerSnsSourceNode ingress snsId node).1 := by
  unfold PeerSession.removePeerSnsSourceNode
  dsimp only
  split
  · exact .refl session
  · rename_i sns _
    split
    · exact (sessionGrows_sendSns session sns true).trans (sessionGrows_of_same rfl rfl rfl rfl)
    · split
      · have hcontext : SessionGrows IsSns session
            { session with dataContexts := session.dataContexts.erase sns.id } :=
          sessionGrows_of_same rfl rfl rfl rfl
        have hsent := hcontext.trans
          (sessionGrows_sendSns _ { sns with nodes := sns.nodes.erase node } true)
        exact hsent.trans (sessionGrows_of_same rfl rfl rfl rfl)
      · exact sessionGrows_of_same rfl rfl rfl rfl

theorem grows_forwardToNode (q : Quicr) (r : Relay) (hash : UInt64) (node : NodeIdValueType)
    (keySession : PeerSessionId → PeerSessionId) :
    Grows IsSns r (r.forwardToNode q hash node keySession) := by
  unfold forwardToNode
  split
  · exact .refl r
  · split
    · exact .refl r
    · rename_i best _ _ session hsession
      have hset : Grows IsSns r
          (r.setPeerSession best (session.addSubscribeSourceNode q hash node).1) :=
        grows_setPeerSession hsession (sessionGrows_addSubscribeSourceNode q session hash node)
      dsimp only
      split
      · exact hset.trans (grows_setInfoBase _ _)
      · exact hset

theorem grows_matchSubscribe (q : Quicr) (full : FullTrackName) (r : Relay) (si : SubscribeInfo) :
    Grows IsSns r (r.matchSubscribe q full si) := by
  unfold matchSubscribe
  split
  · exact .refl r
  · split
    · exact .refl r
    · split
      · exact .refl r
      · have hprocess : ∀ th full attrs, Grows IsSns r (r.processSubscribe q 0 0 th full attrs) :=
          fun th full attrs => (onlyState_processSubscribe q r th full attrs).grows
        dsimp only
        split
        · exact hprocess _ _ _
        · exact (hprocess _ _ _).trans (grows_forwardToNode q _ _ _ _)

theorem grows_subscribeAdvertised (q : Quicr) (r : Relay) (id : PeerSessionId)
    (si : SubscribeInfo) : Grows IsSns r (r.subscribeAdvertised q id si) := by
  unfold subscribeAdvertised
  split
  · exact .refl r
  · split
    · exact .refl r
    · split
      · exact (onlyState_processSubscribe q r _ _ _).grows.trans (grows_forwardToNode q _ _ _ _)
      · exact .refl r

theorem sessionGrows_sendNodeInfo (session : PeerSession) (info : NodeInfo) (withdraw : Bool) :
    SessionGrows (· = .nodeInfo info withdraw) session (session.sendNodeInfo info withdraw) := by
  unfold PeerSession.sendNodeInfo
  split
  · exact .refl session
  · exact sessionGrows_enqueue session rfl

theorem sessionGrows_sendAnnounceInfo (session : PeerSession) (info : AnnounceInfo)
    (withdraw : Bool) :
    SessionGrows (· = .announceInfo info withdraw) session
      (session.sendAnnounceInfo info withdraw) := by
  unfold PeerSession.sendAnnounceInfo
  split
  · exact .refl session
  · exact sessionGrows_enqueue session rfl

theorem grows_propagateNodeInfo (r : Relay) (info : NodeInfo) (withdraw : Bool) :
    Grows (· = .nodeInfo info withdraw) r (r.propagateNodeInfo info withdraw) := by
  refine grows_of_get rfl (by simp [propagateNodeInfo]) (fun id session hget => ?_) fun id hnone => ?_
  · rw [getPeerSession_propagateNodeInfo, hget, Option.map_some]
    refine ⟨_, rfl, ?_⟩
    split
    · exact .refl session
    · exact sessionGrows_sendNodeInfo session info withdraw
  · rw [getPeerSession_propagateNodeInfo, hnone]
    rfl

theorem grows_sendAnnounceInfos (r : Relay) (skip : PeerSessionId → Bool) (info : AnnounceInfo)
    (withdraw : Bool) :
    Grows (· = .announceInfo info withdraw) r (r.sendAnnounceInfos skip info withdraw) := by
  refine grows_of_get rfl (by simp [sendAnnounceInfos]) (fun id session hget => ?_) fun id hnone => ?_
  · rw [getPeerSession_sendAnnounceInfos, hget, Option.map_some]
    refine ⟨_, rfl, ?_⟩
    split
    · exact .refl session
    · exact sessionGrows_sendAnnounceInfo session info withdraw
  · rw [getPeerSession_sendAnnounceInfos, hnone]
    rfl

/-- The subscription of the key, with any number. -/
def IsSubscribe (hash : UInt64) (source : NodeIdValueType) : ControlMessage → Prop
  | .subscribeInfo info withdraw =>
    info.trackHash.trackFullnameHash = hash ∧ info.sourceNodeId = source ∧ withdraw = false
  | _ => False

/-- Two subscriptions of one key. -/
def SameSubscribeKey (si si' : SubscribeInfo) : Prop :=
  si'.trackHash.trackFullnameHash = si.trackHash.trackFullnameHash ∧
    si'.sourceNodeId = si.sourceNodeId

theorem sameKey_serialize (si : SubscribeInfo) (isOrigin : Bool) :
    SameSubscribeKey si (si.serialize isOrigin) := by
  unfold SubscribeInfo.serialize
  split <;> exact ⟨rfl, rfl⟩

theorem sameKey_sendSubscribeInfo (session : PeerSession) {si info : SubscribeInfo}
    (h : SameSubscribeKey si info) (withdraw : Bool) :
    SameSubscribeKey si (session.sendSubscribeInfo info withdraw).2 := by
  unfold PeerSession.sendSubscribeInfo
  split
  · exact h
  · have hnew := sameKey_serialize info (session.nodeId = info.sourceNodeId)
    exact ⟨hnew.1.trans h.1, hnew.2.trans h.2⟩

theorem sessionGrows_sendSubscribeInfo (session : PeerSession) {si info : SubscribeInfo}
    (h : SameSubscribeKey si info) :
    SessionGrows (IsSubscribe si.trackHash.trackFullnameHash si.sourceNodeId) session
      (session.sendSubscribeInfo info false).1 := by
  unfold PeerSession.sendSubscribeInfo
  split
  · exact .refl session
  · have hnew := sameKey_serialize info (session.nodeId = info.sourceNodeId)
    exact sessionGrows_enqueue session ⟨hnew.1.trans h.1, hnew.2.trans h.2, rfl⟩

/-- The sessions after a subscription was sent to all that are not skipped. -/
theorem getPeerSession_sendSubscribe (r : Relay) (skip : PeerSessionId → Bool) (si : SubscribeInfo)
    (id : PeerSessionId) : ∃ info, SameSubscribeKey si info ∧
      (r.sendSubscribeInfos skip si false).getPeerSession id = (r.getPeerSession id).map
        fun session => if skip id then session else (session.sendSubscribeInfo info false).1 :=
  getPeerSession_sendSubscribeInfos (P := SameSubscribeKey si) (Q := fun _ => True) skip
    (fun session _ _ h => sameKey_sendSubscribeInfo session h false)
    ⟨fun _ _ _ => trivial, fun _ _ _ => trivial⟩ ⟨rfl, rfl⟩ id

theorem grows_sendSubscribeInfos (r : Relay) (skip : PeerSessionId → Bool) (si : SubscribeInfo) :
    Grows (IsSubscribe si.trackHash.trackFullnameHash si.sourceNodeId) r
      (r.sendSubscribeInfos skip si false) := by
  have hkeeps : Keeps (fun _ => ()) (fun _ => ()) r (r.sendSubscribeInfos skip si false) :=
    keeps_sendSubscribeInfos (fun _ _ _ => rfl) r skip si false
  refine grows_of_get rfl (fun id => contains_of_map_eq (hkeeps.client id))
    (fun id session hget => ?_) fun id hnone => ?_
  · obtain ⟨info, hinfo, hsent⟩ := getPeerSession_sendSubscribe r skip si id
    rw [hsent, hget, Option.map_some]
    refine ⟨_, rfl, ?_⟩
    split
    · exact .refl session
    · exact sessionGrows_sendSubscribeInfo session hinfo
  · obtain ⟨info, -, hsent⟩ := getPeerSession_sendSubscribe r skip si id
    rw [hsent, hnone]
    rfl

/-! ### Node sets that come in -/

theorem grows_snsNode (q : Quicr) (ingress : PeerSessionId) (snsId : SubscribeNodeSetId)
    (updateRef : UInt64) (acc : Relay × ExtTreeMap PeerSessionId FibEntry)
    (node : NodeIdValueType) : Grows IsSns acc.1 (snsNode q ingress snsId updateRef acc node).1 := by
  unfold snsNode
  dsimp only
  split
  · exact .refl acc.1
  · split
    · exact .refl acc.1
    · rename_i best session hlock
      obtain ⟨id, -, hlock⟩ := Option.bind_eq_some_iff.mp hlock
      obtain ⟨session', hget, heq⟩ := Option.map_eq_some_iff.mp hlock
      cases heq
      exact grows_setPeerSession hget (sessionGrows_addPeerSnsSourceNode q session _ _ _)

theorem grows_snsNodes (q : Quicr) (ingress : PeerSessionId) (snsId : SubscribeNodeSetId)
    (updateRef : UInt64) (acc : Relay × ExtTreeMap PeerSessionId FibEntry)
    (nodes : List NodeIdValueType) :
    Grows IsSns acc.1 (nodes.foldl (snsNode q ingress snsId updateRef) acc).1 :=
  foldl_related (R := fun a b : Relay × ExtTreeMap PeerSessionId FibEntry => Grows IsSns a.1 b.1)
    (fun a => Grows.refl a.1) (fun h h' => Grows.trans h h') (grows_snsNode q ingress snsId updateRef)
    acc nodes

theorem grows_dropEgress (snsId : SubscribeNodeSetId) (updateRef : UInt64) (r : Relay)
    (entry : FibEntry) : Grows IsSns r (dropEgress snsId updateRef r entry) := by
  unfold dropEgress
  split
  · exact .refl r
  · split
    · exact .refl r
    · rename_i egress session hlock
      obtain ⟨id, -, hlock⟩ := Option.bind_eq_some_iff.mp hlock
      obtain ⟨session', hget, heq⟩ := Option.map_eq_some_iff.mp hlock
      cases heq
      exact grows_setPeerSession hget (sessionGrows_removePeerSnsSourceNode session _ _ _)

theorem grows_withdrawEgress (ingress : PeerSessionId) (snsId : SubscribeNodeSetId) {r r' : Relay}
    {entry : PeerSessionId × FibEntry} (h : withdrawEgress ingress snsId r entry = some r') :
    Grows IsSns r r' := by
  unfold withdrawEgress at h
  split at h
  · cases h
    exact .refl r
  · split at h
    · cases h
    · rename_i egress session hlock
      cases h
      obtain ⟨id, -, hlock⟩ := Option.bind_eq_some_iff.mp hlock
      obtain ⟨session', hget, heq⟩ := Option.map_eq_some_iff.mp hlock
      cases heq
      exact grows_setPeerSession hget (sessionGrows_removePeerSnsSourceNode session _ _ _)

theorem grows_withdrawEgresses (ingress : PeerSessionId) (snsId : SubscribeNodeSetId)
    {r r' : Relay} {entries : List (PeerSessionId × FibEntry)}
    (h : entries.foldlM (withdrawEgress ingress snsId) r = some r') : Grows IsSns r r' := by
  induction entries generalizing r with
  | nil =>
    cases h
    exact .refl _
  | cons entry entries ih =>
    rw [List.foldlM_cons] at h
    obtain ⟨r₁, hr₁, h⟩ := Option.bind_eq_some_iff.mp h
    exact (grows_withdrawEgress ingress snsId hr₁).trans (ih h)

theorem grows_snsReceived {q : Quicr} {r r' : Relay} {ingress : PeerSessionId}
    {sns : SubscribeNodeSet} {withdraw : Bool} {updateRef : UInt64}
    (h : r.snsReceived q ingress sns withdraw updateRef = some r') : Grows IsSns r r' := by
  have hset : ∀ (r₁ : Relay) f, Grows IsSns r r₁ → Grows IsSns r (r₁.setPeerFib f) :=
    fun r₁ f hgrows => hgrows.trans (grows_setInfoBase r₁ _)
  unfold snsReceived at h
  dsimp only at h
  cases withdraw with
  | true =>
    rw [if_pos rfl] at h
    split at h
    · cases h
      exact .refl r
    · obtain ⟨r₁, hr₁, h⟩ := Option.bind_eq_some_iff.mp h
      cases h
      exact hset r₁ _ (grows_withdrawEgresses ingress sns.id hr₁)
  | false =>
    rw [if_neg Bool.false_ne_true] at h
    split at h
    · cases h
      exact hset _ _ (grows_snsNodes q ingress sns.id updateRef (r, ∅) _)
    · rename_i row _
      cases h
      have hnodes := grows_snsNodes q ingress sns.id updateRef (r, row) sns.nodes.toList
      refine hset _ _ (hnodes.trans ?_)
      exact foldl_related Grows.refl Grows.trans (grows_dropEgress sns.id updateRef) _ _

/-! ### Sessions that are synchronised -/

/-- Control messages are put on the session. -/
structure Enqueues (session session' : PeerSession) (new : List ControlMessage) : Prop where
  status : session'.status = session.status
  nodeId : session'.nodeId = session.nodeId
  remote : session'.remoteNodeInfo = session.remoteNodeInfo
  srttUs : session'.srttUs = session.srttUs
  enqueued : session'.enqueued = session.enqueued ++ new

theorem Enqueues.refl (session : PeerSession) : Enqueues session session [] :=
  ⟨rfl, rfl, rfl, rfl, (List.append_nil _).symm⟩

theorem Enqueues.trans {s s' s'' : PeerSession} {new new' : List ControlMessage}
    (h : Enqueues s s' new) (h' : Enqueues s' s'' new') : Enqueues s s'' (new ++ new') :=
  ⟨h'.status.trans h.status, h'.nodeId.trans h.nodeId, h'.remote.trans h.remote,
    h'.srttUs.trans h.srttUs, by rw [h'.enqueued, h.enqueued, List.append_assoc]⟩

theorem enqueues_enqueue (session : PeerSession) (msg : ControlMessage) :
    Enqueues session (session.enqueue msg) [msg] := ⟨rfl, rfl, rfl, rfl, rfl⟩

theorem Enqueues.grows {P : ControlMessage → Prop} {session session' : PeerSession}
    {new : List ControlMessage} (h : Enqueues session session' new) (hP : ∀ msg ∈ new, P msg) :
    SessionGrows P session session' :=
  ⟨h.nodeId, h.remote, h.status, new, h.enqueued, hP⟩

/-- A loop puts messages on a session that depend on nothing that the loop changes. -/
theorem Enqueues.foldl {σ β : Type*} (view : σ → PeerSession) {f : σ → β → σ}
    (out : PeerSession → β → List ControlMessage)
    (hf : ∀ s x, Enqueues (view s) (view (f s x)) (out (view s) x))
    (hout : ∀ {session session' new} x, Enqueues session session' new →
      out session' x = out session x) (s : σ) (l : List β) :
    Enqueues (view s) (view (l.foldl f s)) (l.flatMap (out (view s))) := by
  induction l generalizing s with
  | nil => exact .refl _
  | cons x l ih =>
    have hfirst := hf s x
    have hrest := ih (f s x)
    have hsame : out (view (f s x)) = out (view s) := funext fun y => hout y hfirst
    rw [hsame] at hrest
    rw [List.foldl_cons, List.flatMap_cons]
    exact hfirst.trans hrest

/-- What a session is told of an entry of the node table. -/
def nodeSync (id : PeerSessionId) (session : PeerSession)
    (entry : (NodeIdValueType × PeerSessionId) × NodeItem) : List ControlMessage :=
  if skipSync id session entry || session.status ≠ .connected then []
  else [.nodeInfo (entry.2.nodeInfo.pushBack session.nodeId session.srttUs) false]

def announceSync (session : PeerSession) (info : AnnounceInfo) : List ControlMessage :=
  if session.remoteNodeInfo.id = info.sourceNodeId ∨ session.status ≠ .connected then []
  else [.announceInfo info false]

def subscribeSync (session : PeerSession) (entry : (UInt64 × NodeIdValueType) × SubscribeInfo) :
    List ControlMessage :=
  if session.remoteNodeInfo.id = entry.2.sourceNodeId ∨ session.status ≠ .connected then []
  else [.subscribeInfo (entry.2.serialize (session.nodeId = entry.2.sourceNodeId)) false]

/-- What a session is told when it is synchronised. -/
def syncMessages (r : Relay) (id : PeerSessionId) (session : PeerSession) : List ControlMessage :=
  r.infoBase.nodes.toList.flatMap (nodeSync id session) ++
    (r.infoBase.announces.entries₂.map Prod.snd).flatMap (announceSync session) ++
    r.infoBase.subscribes.entries₂.flatMap (subscribeSync session)

theorem enqueues_syncNodes (id : PeerSessionId) (session : PeerSession)
    (entries : List ((NodeIdValueType × PeerSessionId) × NodeItem)) :
    Enqueues session (entries.foldl (syncNode id) session)
      (entries.flatMap (nodeSync id session)) := by
  refine Enqueues.foldl (fun s => s) (nodeSync id) (fun s entry => ?_) (fun entry h => ?_) session
    entries
  · unfold syncNode nodeSync PeerSession.sendNodeInfo
    cases skipSync id s entry with
    | true => exact .refl s
    | false =>
      by_cases hstatus : s.status = .connected
      · simpa [hstatus] using enqueues_enqueue s _
      · simpa [hstatus] using Enqueues.refl s
  · unfold nodeSync skipSync
    rw [h.nodeId, h.remote, h.status, h.srttUs]

theorem enqueues_syncAnnounces (session : PeerSession) (infos : List AnnounceInfo) :
    Enqueues session (infos.foldl syncAnnounce session) (infos.flatMap (announceSync session)) := by
  refine Enqueues.foldl (fun s => s) announceSync (fun s info => ?_) (fun info h => ?_) session infos
  · unfold syncAnnounce announceSync PeerSession.sendAnnounceInfo
    by_cases hremote : s.remoteNodeInfo.id = info.sourceNodeId
    · simpa [hremote] using Enqueues.refl s
    · by_cases hstatus : s.status = .connected
      · simpa [hremote, hstatus] using enqueues_enqueue s _
      · simpa [hremote, hstatus] using Enqueues.refl s
  · unfold announceSync
    rw [h.remote, h.status]

theorem enqueues_syncSubscribes
    (acc : PeerSession × ExtTreeMap UInt64 (ExtTreeMap NodeIdValueType SubscribeInfo))
    (entries : List ((UInt64 × NodeIdValueType) × SubscribeInfo)) :
    Enqueues acc.1 (entries.foldl syncSubscribe acc).1
      (entries.flatMap (subscribeSync acc.1)) := by
  refine Enqueues.foldl Prod.fst subscribeSync (fun acc entry => ?_) (fun entry h => ?_) acc entries
  · unfold syncSubscribe subscribeSync PeerSession.sendSubscribeInfo
    by_cases hremote : acc.1.remoteNodeInfo.id = entry.2.sourceNodeId
    · simpa [hremote] using Enqueues.refl acc.1
    · by_cases hstatus : acc.1.status = .connected
      · simpa [hremote, hstatus] using enqueues_enqueue acc.1 _
      · simpa [hremote, hstatus] using Enqueues.refl acc.1
  · unfold subscribeSync
    rw [h.remote, h.status, h.nodeId]

/-- The stored subscriptions change their numbers only. -/
def SameSubscribes (subscribes subscribes' :
    ExtTreeMap UInt64 (ExtTreeMap NodeIdValueType SubscribeInfo)) : Prop :=
  ∀ hash source, Option.Rel SameSubscribeKey (subscribes.get₂? hash source)
    (subscribes'.get₂? hash source)

theorem sameSubscribes_syncSubscribes (session : PeerSession)
    (subscribes : ExtTreeMap UInt64 (ExtTreeMap NodeIdValueType SubscribeInfo)) :
    SameSubscribes subscribes
      (subscribes.entries₂.foldl syncSubscribe (session, subscribes)).2 := by
  refine List.foldlRecOn (motive := fun acc : PeerSession × ExtTreeMap UInt64
    (ExtTreeMap NodeIdValueType SubscribeInfo) => SameSubscribes subscribes acc.2)
    subscribes.entries₂ syncSubscribe ?_ fun acc hacc entry hentry => ?_
  · intro hash source
    cases subscribes.get₂? hash source with
    | none => exact .none
    | some si => exact .some ⟨rfl, rfl⟩
  · obtain ⟨⟨hash', source'⟩, si⟩ := entry
    have hget := ExtTreeMap.mem_entries₂.mp hentry
    unfold syncSubscribe
    split
    · exact hacc
    · intro hash source
      have hsame : SameSubscribeKey si (acc.1.sendSubscribeInfo si false).2 :=
        sameKey_sendSubscribeInfo acc.1 ⟨rfl, rfl⟩ false
      dsimp only
      rw [ExtTreeMap.get₂?_insert₂]
      split
      · rename_i hkey
        rw [hkey.1, hkey.2, hget]
        exact .some hsame
      · exact hacc hash source

/-- The session gets what the tables hold, and the table of subscriptions the numbers sent. -/
theorem infoBaseSyncPeer_eq {r : Relay} {id : PeerSessionId} {session : PeerSession}
    (hget : r.getPeerSession id = some session) :
    ∃ session' subscribes, Enqueues session session' (r.syncMessages id session) ∧
      SameSubscribes r.infoBase.subscribes subscribes ∧
      r.infoBaseSyncPeer id =
        (r.setPeerSession id session').setInfoBase { r.infoBase with subscribes } := by
  unfold infoBaseSyncPeer
  rw [hget]
  dsimp only
  refine ⟨_, _, ?_, sameSubscribes_syncSubscribes _ _, rfl⟩
  have hnodes := enqueues_syncNodes id session r.infoBase.nodes.toList
  set s₁ := r.infoBase.nodes.toList.foldl (syncNode id) session
  have hannounces := enqueues_syncAnnounces s₁ (r.infoBase.announces.entries₂.map Prod.snd)
  set s₂ := (r.infoBase.announces.entries₂.map Prod.snd).foldl syncAnnounce s₁
  have hsubscribes := enqueues_syncSubscribes (s₂, r.infoBase.subscribes)
    r.infoBase.subscribes.entries₂
  have hannounceSame : announceSync s₁ = announceSync session := by
    funext info
    unfold announceSync
    rw [hnodes.remote, hnodes.status]
  have hsubscribeSame : subscribeSync s₂ = subscribeSync session := by
    funext entry
    unfold subscribeSync
    rw [hannounces.remote, hannounces.status, hannounces.nodeId, hnodes.remote, hnodes.status,
      hnodes.nodeId]
  rw [hannounceSame] at hannounces
  rw [hsubscribeSame] at hsubscribes
  exact (hnodes.trans hannounces).trans hsubscribes

end Laps.Relay
