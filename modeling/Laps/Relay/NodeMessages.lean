import Laps.Relay.Frame
import Laps.Relay.Peers

/-! The messages between relays that are about nodes: what each function of the peer manager puts on
the sessions. -/

namespace Laps

open Std Client Peering

namespace Peering

/-- The message is about a node. -/
def ControlMessage.isNodeMessage : ControlMessage → Bool
  | connect _ | connectResponse _ | nodeInfo _ _ => true
  | _ => false

def PeerSession.nodeMessages (session : PeerSession) : List ControlMessage :=
  session.enqueued.filter ControlMessage.isNodeMessage

theorem PeerSession.nodeMessages_enqueue (session : PeerSession) (msg : ControlMessage) :
    (session.enqueue msg).nodeMessages =
      session.nodeMessages ++ if msg.isNodeMessage then [msg] else [] := by
  cases hmsg : msg.isNodeMessage <;> simp [nodeMessages, enqueue, hmsg]

theorem PeerSession.nodeMessages_sendNodeInfo (session : PeerSession) (info : NodeInfo)
    (withdraw : Bool) :
    (session.sendNodeInfo info withdraw).nodeMessages =
      session.nodeMessages ++
        if session.status = .connected then [.nodeInfo info withdraw] else [] := by
  unfold sendNodeInfo
  split
  · rename_i hstatus
    exact (List.append_nil _).symm
  · rename_i hstatus
    rw [nodeMessages_enqueue, if_pos (not_not.mp hstatus)]
    rfl

end Peering

namespace Relay

/-- The messages about nodes that were sent over a session. -/
def nodeMessagesTo (r : Relay) (id : PeerSessionId) : List ControlMessage :=
  ((r.getPeerSession id).map PeerSession.nodeMessages).getD []

/-- The two nodes of a session, and what was sent about nodes. -/
def nodeView (session : PeerSession) : NodeIdValueType × NodeInfo × List ControlMessage :=
  (session.nodeId, session.remoteNodeInfo, session.nodeMessages)

theorem nodeView_sendSns (session : PeerSession) (sns : SubscribeNodeSet) (withdraw : Bool) :
    nodeView (session.sendSns sns withdraw) = nodeView session := by
  unfold PeerSession.sendSns
  split
  · rfl
  · rw [nodeView, PeerSession.nodeMessages_enqueue]
    simp [nodeView, PeerSession.enqueue, ControlMessage.isNodeMessage]

/-- Subscriptions have their own messages. -/
theorem blind_nodeView : Blind nodeView where
  add := by
    intro q session hash node
    unfold PeerSession.addSubscribeSourceNode
    dsimp only
    split
    · rw [nodeView_sendSns]
      rfl
    · rfl
  remove := by
    intro session hash node
    unfold PeerSession.removeSubscribeSourceNode
    split
    · rfl
    · dsimp only
      split
      · exact nodeView_sendSns _ _ _
      · rfl
  send := by
    intro session si withdraw
    unfold PeerSession.sendSubscribeInfo
    split
    · rfl
    · rw [nodeView, PeerSession.nodeMessages_enqueue]
      simp [nodeView, PeerSession.enqueue, ControlMessage.isNodeMessage]

theorem getPeerSession_propagateNodeInfo (r : Relay) (info : NodeInfo) (withdraw : Bool)
    (id : PeerSessionId) :
    (r.propagateNodeInfo info withdraw).getPeerSession id = (r.getPeerSession id).map
      fun session => if skipNode info session.remoteNodeInfo then session
        else session.sendNodeInfo info withdraw := by
  unfold getPeerSession propagateNodeInfo
  dsimp only
  rw [ExtTreeMap.getElem?_map, ExtTreeMap.getElem?_map]
  cases r.serverPeerSessions[id]? <;> rfl

/-! ### Messages that are added -/

/-- No id belongs to a session that was opened and to one that was accepted. -/
def Separate (r : Relay) : Prop :=
  ∀ id, r.serverPeerSessions.contains id = true → r.clientPeerSessions.contains id = false

/-- Sessions are kept or dropped, and those that are kept have the messages `new` added, which `P`
holds of. -/
structure Tells (P : PeerSession → List ControlMessage → Prop) (r r' : Relay) : Prop where
  nodeId : r'.nodeId = r.nodeId
  client : ∀ id, r'.clientPeerSessions.contains id = true → r.clientPeerSessions.contains id = true
  server : ∀ id, r'.serverPeerSessions.contains id = true → r.serverPeerSessions.contains id = true
  session : ∀ id session', r'.getPeerSession id = some session' →
    ∃ session new, r.getPeerSession id = some session ∧ session'.nodeId = session.nodeId ∧
      session'.remoteNodeInfo = session.remoteNodeInfo ∧
      session'.nodeMessages = session.nodeMessages ++ new ∧ P session new

/-- Nothing is sent. -/
def Silent : PeerSession → List ControlMessage → Prop := fun _ new => new = []

section Tells

variable {P Q : PeerSession → List ControlMessage → Prop} {r r' r'' : Relay}

theorem Tells.separate (h : Tells P r r') (hr : r.Separate) : r'.Separate := by
  intro id hserver
  apply Bool.eq_false_iff.mpr
  intro hclient
  have hnone := hr id (h.server id hserver)
  rw [h.client id hclient] at hnone
  cases hnone

theorem Tells.mono (h : Tells P r r') (hPQ : ∀ session new, P session new → Q session new) :
    Tells Q r r' where
  nodeId := h.nodeId
  client := h.client
  server := h.server
  session := by
    intro id session' hget'
    obtain ⟨session, new, hget, hown, hremote, hsent, hP⟩ := h.session id session' hget'
    exact ⟨session, new, hget, hown, hremote, hsent, hPQ session new hP⟩

theorem Tells.refl (r : Relay) : Tells Silent r r where
  nodeId := rfl
  client := fun _ h => h
  server := fun _ h => h
  session := fun _ session hget => ⟨session, [], hget, rfl, rfl, (List.append_nil _).symm, rfl⟩

/-- The messages of the first part come before those of the second. -/
theorem Tells.trans {R : PeerSession → List ControlMessage → Prop}
    (hR : ∀ session session' new new', session'.nodeId = session.nodeId →
      session'.remoteNodeInfo = session.remoteNodeInfo → P session new → Q session' new' →
        R session (new ++ new'))
    (h : Tells P r r') (h' : Tells Q r' r'') : Tells R r r'' where
  nodeId := h'.nodeId.trans h.nodeId
  client := fun id hid => h.client id (h'.client id hid)
  server := fun id hid => h.server id (h'.server id hid)
  session := by
    intro id session'' hget''
    obtain ⟨session', new', hget', hown', hremote', hsent', hQ⟩ := h'.session id session'' hget''
    obtain ⟨session, new, hget, hown, hremote, hsent, hP⟩ := h.session id session' hget'
    refine ⟨session, new ++ new', hget, hown'.trans hown, hremote'.trans hremote, ?_,
      hR session session' new new' hown hremote hP hQ⟩
    rw [hsent', hsent, List.append_assoc]

/-- First a part that sends, then one that does not. -/
theorem Tells.silent (h : Tells P r r') (h' : Tells Silent r' r'') : Tells P r r'' := by
  refine Tells.trans (fun session session' new new' _ _ hP hnew' => ?_) h h'
  rw [show new' = [] from hnew', List.append_nil]
  exact hP

/-- First a part that does not send, then one that does. -/
theorem Tells.after {p : List ControlMessage → Prop} (h : Tells Silent r r')
    (h' : Tells (fun _ => p) r' r'') : Tells (fun _ => p) r r'' := by
  refine Tells.trans (fun session session' new new' _ _ hnew hp => ?_) h h'
  rw [show new = [] from hnew]
  exact hp

end Tells

theorem contains_of_map_eq {α : Type*} {ofSession : PeerSession → α}
    {m m' : ExtTreeMap PeerSessionId PeerSession} {id : PeerSessionId}
    (h : m'[id]?.map ofSession = m[id]?.map ofSession) : m'.contains id = m.contains id := by
  have hsome := congrArg Option.isSome h
  rwa [Option.isSome_map, Option.isSome_map, ExtTreeMap.isSome_getElem?_eq_contains,
    ExtTreeMap.isSome_getElem?_eq_contains] at hsome

theorem Keeps.tells {α : Type*} {ofInfo : InfoBase → α} {r r' : Relay}
    (h : Keeps ofInfo nodeView r r') : Tells Silent r r' where
  nodeId := h.nodeId
  client := fun id hid => contains_of_map_eq (h.client id) ▸ hid
  server := fun id hid => contains_of_map_eq (h.server id) ▸ hid
  session := by
    intro id session' hget'
    have hview := h.getPeerSession id
    rw [hget', Option.map_some] at hview
    obtain ⟨session, hget, heq⟩ := Option.map_eq_some_iff.mp hview.symm
    simp only [nodeView, Prod.mk.injEq] at heq
    exact ⟨session, [], hget, heq.1.symm, heq.2.1.symm, by simp [heq.2.2], rfl⟩

/-- Information about a node goes to the connected sessions that are not skipped. -/
def Propagated (info : NodeInfo) (withdraw : Bool) (session : PeerSession)
    (new : List ControlMessage) : Prop :=
  new = if skipNode info session.remoteNodeInfo = false ∧ session.status = .connected then
    [.nodeInfo info withdraw] else []

theorem tells_propagateNodeInfo (r : Relay) (info : NodeInfo) (withdraw : Bool) :
    Tells (Propagated info withdraw) r (r.propagateNodeInfo info withdraw) where
  nodeId := rfl
  client := by simp [propagateNodeInfo]
  server := by simp [propagateNodeInfo]
  session := by
    intro id session' hget'
    rw [getPeerSession_propagateNodeInfo] at hget'
    obtain ⟨session, hget, rfl⟩ := Option.map_eq_some_iff.mp hget'
    refine ⟨session, _, hget, ?_, ?_, ?_, rfl⟩
    · unfold PeerSession.sendNodeInfo
      split
      · rfl
      · split <;> rfl
    · unfold PeerSession.sendNodeInfo
      split
      · rfl
      · split <;> rfl
    · cases hskip : skipNode info session.remoteNodeInfo with
      | true => simp
      | false => simpa using session.nodeMessages_sendNodeInfo info withdraw

theorem Tells.of_setInfoBase {P : PeerSession → List ControlMessage → Prop} {r r' : Relay}
    {ib : InfoBase} (h : Tells P (r.setInfoBase ib) r') : Tells P r r' :=
  ⟨h.nodeId, h.client, h.server, h.session⟩

/-! ### The functions of the peer manager -/

/-- A withdraw goes on with this relay at the end of its path. -/
theorem tells_nodeReceived_withdraw {r r' : Relay} {id : PeerSessionId} {info : NodeInfo}
    (h : r.nodeReceived id info true = some r') :
    r' = r ∨ ∃ session, r.getPeerSession id = some session ∧
      Tells (Propagated (info.pushBack session.nodeId session.srttUs) true) r r' := by
  unfold nodeReceived at h
  split at h
  · cases h
    exact .inl rfl
  · rename_i session hsession
    rw [if_pos rfl, Option.bind_eq_bind, Option.bind_eq_some_iff] at h
    obtain ⟨ib, -, h⟩ := h
    cases h
    exact .inr ⟨session, hsession, (tells_propagateNodeInfo _ _ true).of_setInfoBase⟩

/-- An advertisement goes on when the best session has changed. -/
theorem tells_nodeReceived_advertise {r r' : Relay} {id : PeerSessionId} {info : NodeInfo}
    (h : r.nodeReceived id info false = some r') :
    r' = r ∨ ∃ session ib isUpdated, r.getPeerSession id = some session ∧
      r.infoBase.addNode r.live id info = some (ib, isUpdated) ∧ r'.infoBase = ib ∧
      Tells (if isUpdated then Propagated (info.pushBack info.id session.srttUs) false else Silent)
        r r' := by
  unfold nodeReceived at h
  split at h
  · cases h
    exact .inl rfl
  · rename_i session hsession
    rw [if_neg Bool.false_ne_true, Option.bind_eq_bind, Option.bind_eq_some_iff] at h
    obtain ⟨⟨ib, isUpdated⟩, hadd, h⟩ := h
    refine .inr ⟨session, ib, isUpdated, hsession, hadd, ?_⟩
    cases isUpdated with
    | true =>
      cases h
      exact ⟨rfl, (tells_propagateNodeInfo _ _ false).of_setInfoBase⟩
    | false =>
      cases h
      exact ⟨rfl, (Tells.refl _).of_setInfoBase⟩

/-- A loop whose steps send nothing. -/
theorem tells_foldl {β : Type*} {f : Relay → β → Relay} (hf : ∀ r x, Tells Silent r (f r x))
    (r : Relay) (l : List β) : Tells Silent r (l.foldl f r) :=
  foldl_related Tells.refl (fun h h' => h.silent h') hf r l

theorem tells_subscribeInfoReceived (q : Quicr) (r : Relay) (id : PeerSessionId)
    (si : SubscribeInfo) (withdraw : Bool) :
    Tells Silent r (r.subscribeInfoReceived q id si withdraw) := by
  have hkeeps : Keeps (fun _ => ()) nodeView r (r.subscribeInfoReceived q id si withdraw) :=
    keeps_subscribeInfoReceived (fun _ _ => rfl) (fun _ _ => rfl) blind_nodeView q r id si withdraw
  exact hkeeps.tells

/-- A lost session has the remote node withdrawn. -/
theorem tells_sessionChanged {q : Quicr} {r r' : Relay} {id : PeerSessionId} {remote : NodeInfo}
    (h : r.sessionChanged q id .disconnected remote = some r') :
    Tells (Propagated remote true) r r' := by
  unfold sessionChanged at h
  simp only [Option.bind_eq_bind, Option.bind_eq_some_iff] at h
  obtain ⟨ib, -, lost, -, h⟩ := h
  cases h
  have hremove := fun (r : Relay) => tells_foldl
    (fun r (si : SubscribeInfo) => tells_subscribeInfoReceived q r id si true) r lost.removeSub
  have hupdate := fun (r : Relay) => tells_foldl
    (fun r (sub : PeerSessionId × SubscribeInfo) =>
      tells_subscribeInfoReceived q r sub.1 sub.2 false) r lost.updateSub
  have hsilent : ∀ ib', Tells (Propagated remote true) r
      (lost.updateSub.foldl (fun r sub => r.subscribeInfoReceived q sub.1 sub.2 false)
        (lost.removeSub.foldl (fun r si => r.subscribeInfoReceived q id si true)
          (((r.propagateNodeInfo remote true).setInfoBase ib).setInfoBase ib'))) :=
    fun _ => (tells_propagateNodeInfo r remote true).silent
      ((hremove _).silent (hupdate _)).of_setInfoBase.of_setInfoBase
  split
  · exact hsilent _
  · exact (hsilent _).silent (Tells.refl _).of_setInfoBase

/-- What a lost session sends: the withdrawal of the remote node or nothing. -/
theorem tells_sessionLost {q : Quicr} {r r' : Relay} (hr : r.Separate) {id : PeerSessionId}
    (h : r.sessionLost q id = some r') :
    r' = r ∨ ∃ session, r.getPeerSession id = some session ∧
      Tells (fun _ new => new = [] ∨ new = [.nodeInfo session.remoteNodeInfo true]) r r' := by
  have hweak : ∀ {r r' : Relay} {remote : NodeInfo}, Tells (Propagated remote true) r r' →
      Tells (fun _ new => new = [] ∨ new = [.nodeInfo remote true]) r r' := by
    intro r r' remote htells
    refine htells.mono fun session new hnew => ?_
    rw [hnew]
    split
    · exact .inr rfl
    · exact .inl rfl
  unfold sessionLost at h
  split at h
  · rename_i session hserver
    rw [Option.bind_eq_bind, Option.bind_eq_some_iff] at h
    obtain ⟨mid, hmid, h⟩ := h
    cases h
    have htells := hweak (tells_sessionChanged hmid)
    refine .inr ⟨session, by simp [getPeerSession, hserver], htells.silent ?_⟩
    have hcontains : r.serverPeerSessions.contains id = true :=
      ExtTreeMap.contains_iff_getElem?.mpr ⟨session, hserver⟩
    -- The session that goes hides no other one.
    have hclient : mid.clientPeerSessions[id]? = none := by
      rw [← ExtTreeMap.contains_eq_false_iff, Bool.eq_false_iff]
      intro hmidclient
      have hnone := hr id hcontains
      rw [htells.client id hmidclient] at hnone
      cases hnone
    refine ⟨rfl, fun _ hid => hid, fun id' hid => ?_, fun id' session' hget' => ?_⟩
    · simp only [ExtTreeMap.contains_erase, Bool.and_eq_true] at hid
      exact hid.2
    · refine ⟨session', [], ?_, rfl, rfl, (List.append_nil _).symm, rfl⟩
      unfold getPeerSession at hget' ⊢
      dsimp only at hget'
      rw [ExtTreeMap.getElem?_erase_ite] at hget'
      split at hget'
      · rename_i heq
        split at heq
        · cases heq
        · rw [heq]
          exact hget'
      · rename_i heq
        split at heq
        · rename_i hid
          rw [hid, hclient] at hget'
          cases hget'
        · rw [heq]
          exact hget'
  · split at h
    · cases h
      exact .inl rfl
    · rename_i hserver _ session hclient
      have hget : r.getPeerSession id = some session := by
        rw [getPeerSession, hserver]
        exact hclient
      have hstatus : Tells Silent r
          (r.setPeerSession id { session with status := .disconnected }) := by
        have hkeeps : Keeps (fun _ => ()) nodeView r
            (r.setPeerSession id { session with status := .disconnected }) :=
          keeps_setPeerSession hget rfl
        exact hkeeps.tells
      exact .inr ⟨session, hget, hstatus.after (hweak (tells_sessionChanged h))⟩

/-! ### Sessions that come up -/

/-- Changes of what a session knows of itself and of the other relay. -/
theorem live_setPeerSession {r : Relay} {id : PeerSessionId} {old : PeerSession}
    (hget : r.getPeerSession id = some old) (session : PeerSession) :
    (r.setPeerSession id session).live = r.live := by
  funext id'
  unfold live
  rw [getPeerSession_setPeerSession hget]
  split
  · rename_i hid
    rw [hid, hget]
    rfl
  · rfl

theorem getPeerSession_modifyPeerSession (r : Relay) (id : PeerSessionId)
    (f : PeerSession → PeerSession) (id' : PeerSessionId) :
    (r.modifyPeerSession id f).getPeerSession id' =
      if id' = id then (r.getPeerSession id').map f else r.getPeerSession id' := by
  unfold modifyPeerSession
  split
  · rename_i hnone
    split
    · rename_i hid
      rw [hid, hnone]
      rfl
    · rfl
  · rename_i session hget
    rw [getPeerSession_setPeerSession hget]
    split
    · rename_i hid
      rw [hid, hget]
      rfl
    · rfl

theorem live_propagateNodeInfo (r : Relay) (info : NodeInfo) (withdraw : Bool) :
    (r.propagateNodeInfo info withdraw).live = r.live := by
  funext id
  unfold live
  rw [getPeerSession_propagateNodeInfo, Option.isSome_map]

/-- The node messages that a new session gets: what the relay knows, with itself at the end of the
path. -/
def synced (r : Relay) (id : PeerSessionId) (session : PeerSession) : List ControlMessage :=
  if session.status = .connected then
    (r.infoBase.nodes.toList.filter fun entry => !skipSync id session entry).map fun entry =>
      .nodeInfo (entry.2.nodeInfo.pushBack session.nodeId session.srttUs) false
  else []

/-- What a session is like after messages were put on it. -/
structure Sends (session session' : PeerSession) (new : List ControlMessage) : Prop where
  status : session'.status = session.status
  nodeId : session'.nodeId = session.nodeId
  remote : session'.remoteNodeInfo = session.remoteNodeInfo
  srttUs : session'.srttUs = session.srttUs
  messages : session'.nodeMessages = session.nodeMessages ++ new

theorem Sends.refl (session : PeerSession) : Sends session session [] :=
  ⟨rfl, rfl, rfl, rfl, (List.append_nil _).symm⟩

theorem Sends.trans {s s' s'' : PeerSession} {new new' : List ControlMessage}
    (h : Sends s s' new) (h' : Sends s' s'' new') : Sends s s'' (new ++ new') :=
  ⟨h'.status.trans h.status, h'.nodeId.trans h.nodeId, h'.remote.trans h.remote,
    h'.srttUs.trans h.srttUs, by rw [h'.messages, h.messages, List.append_assoc]⟩

theorem sends_enqueue (session : PeerSession) (msg : ControlMessage) :
    Sends session (session.enqueue msg) (if msg.isNodeMessage then [msg] else []) :=
  ⟨rfl, rfl, rfl, rfl, session.nodeMessages_enqueue msg⟩

theorem sends_syncNodes (id : PeerSessionId) (session : PeerSession)
    (entries : List ((NodeIdValueType × PeerSessionId) × NodeItem)) :
    Sends session (entries.foldl (syncNode id) session)
      (if session.status = .connected then
        (entries.filter fun entry => !skipSync id session entry).map fun entry =>
          .nodeInfo (entry.2.nodeInfo.pushBack session.nodeId session.srttUs) false
      else []) := by
  induction entries generalizing session with
  | nil => simpa using Sends.refl session
  | cons entry entries ih =>
    rw [List.foldl_cons]
    have hrest := ih (syncNode id session entry)
    cases hskip : skipSync id session entry with
    | true =>
      have hsame : syncNode id session entry = session := by simp [syncNode, hskip]
      rw [hsame] at hrest ⊢
      simpa [hskip] using hrest
    | false =>
      by_cases hstatus : session.status = .connected
      · have hsent : syncNode id session entry = session.enqueue
            (.nodeInfo (entry.2.nodeInfo.pushBack session.nodeId session.srttUs) false) := by
          simp [syncNode, hskip, PeerSession.sendNodeInfo, hstatus]
        have hfirst := sends_enqueue session
          (.nodeInfo (entry.2.nodeInfo.pushBack session.nodeId session.srttUs) false)
        rw [hsent] at hrest ⊢
        change Sends _ _ (if session.status = .connected then
          (entries.filter fun entry => !skipSync id session entry).map fun entry =>
            .nodeInfo (entry.2.nodeInfo.pushBack session.nodeId session.srttUs) false
          else []) at hrest
        rw [if_pos hstatus] at hrest
        rw [if_pos hstatus, List.filter_cons_of_pos (by simp [hskip]), List.map_cons]
        exact hfirst.trans hrest
      · have hsame : syncNode id session entry = session := by
          simp [syncNode, hskip, PeerSession.sendNodeInfo, hstatus]
        rw [hsame] at hrest ⊢
        simpa [hstatus] using hrest

theorem sends_syncAnnounces (session : PeerSession) (infos : List AnnounceInfo) :
    Sends session (infos.foldl syncAnnounce session) [] := by
  refine foldl_related (R := fun s s' => Sends s s' []) Sends.refl (fun h h' => h.trans h')
    (fun session info => ?_) session infos
  unfold syncAnnounce PeerSession.sendAnnounceInfo
  split
  · exact .refl session
  · split
    · exact .refl session
    · exact sends_enqueue session (.announceInfo info false)

theorem sends_syncSubscribes
    (acc : PeerSession × ExtTreeMap UInt64 (ExtTreeMap NodeIdValueType SubscribeInfo))
    (entries : List ((UInt64 × NodeIdValueType) × SubscribeInfo)) :
    Sends acc.1 (entries.foldl syncSubscribe acc).1 [] := by
  have hsend : ∀ (session : PeerSession) (si : SubscribeInfo),
      Sends session (session.sendSubscribeInfo si false).1 [] := by
    intro session si
    unfold PeerSession.sendSubscribeInfo
    split
    · exact .refl session
    · exact sends_enqueue session (.subscribeInfo _ false)
  induction entries generalizing acc with
  | nil => exact .refl acc.1
  | cons entry entries ih =>
    have hfirst : Sends acc.1 (syncSubscribe acc entry).1 [] := by
      unfold syncSubscribe
      split
      · exact .refl acc.1
      · exact hsend acc.1 entry.2
    exact hfirst.trans (ih (syncSubscribe acc entry))

theorem infoBaseSyncPeer_spec {r : Relay} {id : PeerSessionId} {session : PeerSession}
    (hget : r.getPeerSession id = some session) :
    ∃ session' subscribes, Sends session session' (r.synced id session) ∧
      r.infoBaseSyncPeer id =
        (r.setPeerSession id session').setInfoBase { r.infoBase with subscribes } := by
  unfold infoBaseSyncPeer
  rw [hget]
  dsimp only
  refine ⟨_, _, ?_, rfl⟩
  have hnodes := sends_syncNodes id session r.infoBase.nodes.toList
  have hannounces := sends_syncAnnounces (r.infoBase.nodes.toList.foldl (syncNode id) session)
    (r.infoBase.announces.entries₂.map Prod.snd)
  have hsubscribes := sends_syncSubscribes
    ((r.infoBase.announces.entries₂.map Prod.snd).foldl syncAnnounce
      (r.infoBase.nodes.toList.foldl (syncNode id) session), r.infoBase.subscribes)
    r.infoBase.subscribes.entries₂
  have hall := (hnodes.trans hannounces).trans hsubscribes
  rw [List.append_nil, List.append_nil] at hall
  exact hall

end Relay

end Laps
