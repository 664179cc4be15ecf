import Laps.Relay.Data
import Laps.Relay.NodeMessages

/-! Where a relay forwards the tracks of its publishers: the client table and the node sets on the
sessions. -/

namespace Laps.Relay

open Std Client Peering

/-! ### What forwarding rests on -/

/-- The node set that a session has for a track. -/
def nodeSetAt (r : Relay) (id : PeerSessionId) (hash : UInt64) : Option SubscribeNodeSet :=
  (r.getPeerSession id).bind fun session => session.subSns[hash]?

/-- The tables but for the client table, the subscriptions and the announcements. -/
def routeInfos (ib : InfoBase) :
    ExtTreeMap (NodeIdValueType × PeerSessionId) NodeItem ×
      ExtTreeMap NodeIdValueType PeerSessionId ×
      ExtTreeMap PeerSessionId (ExtTreeSet NodeIdValueType) ×
      ExtTreeMap (PeerSessionId × SubscribeNodeSetId) (ExtTreeMap PeerSessionId FibEntry) :=
  (ib.nodes, ib.nodesBest, ib.nodesByPeerSession, ib.peerFib)

/-- A session but for its node sets of tracks and its messages. -/
def routeView (session : PeerSession) : StatusValue × NodeInfo ×
    ExtTreeMap (PeerSessionId × SubscribeNodeSetId) SubscribeNodeSet :=
  (session.status, session.remoteNodeInfo, session.peerSns)

/-- The routes are kept. -/
abbrev KeepsRoutes (r r' : Relay) : Prop := Keeps routeInfos routeView r r'

/-- The client table and the node sets of tracks are kept too. -/
abbrev KeepsForwarding (r r' : Relay) : Prop :=
  Keeps (fun ib => (routeInfos ib, ib.clientFib))
    (fun session => (routeView session, session.subSns)) r r'

theorem Keeps.keepsRoutes {r r' : Relay} (h : KeepsForwarding r r') : KeepsRoutes r r' := by
  refine ⟨h.nodeId, congrArg Prod.fst h.info, fun id => ?_, fun id => ?_⟩
  · have hview := congrArg (Option.map Prod.fst) (h.client id)
    rwa [Option.map_map, Option.map_map] at hview
  · have hview := congrArg (Option.map Prod.fst) (h.server id)
    rwa [Option.map_map, Option.map_map] at hview

section Keeps

variable {r r' : Relay}

theorem Keeps.clientFib (h : KeepsForwarding r r') :
    r'.infoBase.clientFib = r.infoBase.clientFib := congrArg Prod.snd h.info

theorem Keeps.nodeSetAt (h : KeepsForwarding r r') (id : PeerSessionId) (hash : UInt64) :
    r'.nodeSetAt id hash = r.nodeSetAt id hash := by
  have hsns := congrArg (Option.bind · fun view => view.2[hash]?) (h.getPeerSession id)
  rwa [Option.bind_map, Option.bind_map] at hsns

theorem Keeps.live {α β : Type*} {ofInfo : InfoBase → α} {ofSession : PeerSession → β}
    (h : Keeps ofInfo ofSession r r') : r'.live = r.live := by
  funext id
  have hsome := congrArg Option.isSome (h.getPeerSession id)
  rwa [Option.isSome_map, Option.isSome_map] at hsome

theorem Keeps.bestSession (h : KeepsRoutes r r') (node : NodeIdValueType) :
    r'.bestSession node = r.bestSession node := by
  have hbest : r'.infoBase.nodesBest = r.infoBase.nodesBest :=
    congrArg (fun infos => infos.2.1) h.info
  unfold Relay.bestSession
  rw [hbest, h.live]

end Keeps

theorem keepsForwarding_processSubscribe (q : Quicr) (r : Relay) (th : TrackHash)
    (full : FullTrackName) (attrs : SubscribeAttributes) :
    KeepsForwarding r (r.processSubscribe q 0 0 th full attrs) :=
  (onlyState_processSubscribe q r th full attrs).keeps

theorem sendSubscribeInfo_view (session : PeerSession) (si : SubscribeInfo) (withdraw : Bool) :
    (routeView (session.sendSubscribeInfo si withdraw).1,
      (session.sendSubscribeInfo si withdraw).1.subSns) = (routeView session, session.subSns) := by
  unfold PeerSession.sendSubscribeInfo
  split <;> rfl

theorem keepsForwarding_removeOrPause (r : Relay) (hash : UInt64) :
    KeepsForwarding r (r.removeOrPausePublisherSubscribe hash) :=
  keeps_removeOrPause (fun _ _ => rfl) sendSubscribeInfo_view r hash

theorem keepsForwarding_passSubscribe (r : Relay) (id : PeerSessionId) (si : SubscribeInfo)
    (withdraw : Bool) : KeepsForwarding r
      (if (r.updateSubscribes si withdraw).2 then
        (r.updateSubscribes si withdraw).1.sendSubscribeInfos (· == id) si withdraw
      else (r.updateSubscribes si withdraw).1) :=
  keeps_passSubscribe (fun _ _ => rfl) sendSubscribeInfo_view r id si withdraw

/-- An announcement is recorded and sent. -/
theorem keepsForwarding_passAnnounce (q : Quicr) (r : Relay) (info : AnnounceInfo)
    (withdraw : Bool) (skip : PeerSessionId → Bool) :
    KeepsForwarding r
      ((r.updateAnnounces q info withdraw).1.sendAnnounceInfos skip info withdraw) := by
  have hupdate : KeepsForwarding r (r.updateAnnounces q info withdraw).1 := by
    apply keeps_setInfoBase
    cases withdraw with
    | true =>
      show (routeInfos (r.infoBase.removeAnnounce q info).1,
        (r.infoBase.removeAnnounce q info).1.clientFib) = _
      unfold InfoBase.removeAnnounce
      split <;> rfl
    | false => rfl
  refine hupdate.trans ?_
  have hsend : ∀ (m : ExtTreeMap PeerSessionId PeerSession) (id : PeerSessionId),
      (m.map fun id session => if skip id then session else
        session.sendAnnounceInfo info withdraw)[id]?.map
          (fun session => (routeView session, session.subSns)) =
        m[id]?.map fun session => (routeView session, session.subSns) := by
    intro m id
    rw [ExtTreeMap.getElem?_map, Option.map_map]
    congr 1
    funext session
    simp only [Function.comp_apply]
    unfold PeerSession.sendAnnounceInfo
    split
    · rfl
    · split <;> rfl
  exact ⟨rfl, rfl, hsend _, hsend _⟩

/-! ### Nodes that join and leave a node set -/

/-- A node joins the node set that the best session has for a track; when it is new there, the
client table gets an entry under the session `key`, unless it has one. -/
structure JoinsSet (q : Quicr) (hash : UInt64) (node : NodeIdValueType) (best key : PeerSessionId)
    (r r' : Relay) : Prop where
  routes : KeepsRoutes r r'
  other : ∀ id hash', ¬ (id = best ∧ hash' = hash) → r'.nodeSetAt id hash' = r.nodeSetAt id hash'
  joined : ∃ snsId, r'.nodeSetAt best hash =
      some ⟨snsId, ((r.nodeSetAt best hash).getD {}).nodes.insert node⟩ ∧
    (((r.nodeSetAt best hash).getD {}).id ≠ 0 → snsId = ((r.nodeSetAt best hash).getD {}).id) ∧
    (((r.nodeSetAt best hash).getD {}).id = 0 → ∃ inUse, snsId = q.createDataContext inUse) ∧
    r'.infoBase.clientFib =
      if ((r.nodeSetAt best hash).getD {}).nodes.contains node then r.infoBase.clientFib
      else r.infoBase.clientFib.insertIfNew (hash, key)
        { outSnsId := snsId, peerSession := some best }

/-- A node leaves the node set that the best session has for a track; when none is left, the client
table loses the entry under the session `key`. -/
structure LeavesSet (hash : UInt64) (node : NodeIdValueType) (best key : PeerSessionId)
    (r r' : Relay) : Prop where
  routes : KeepsRoutes r r'
  other : ∀ id hash', ¬ (id = best ∧ hash' = hash) → r'.nodeSetAt id hash' = r.nodeSetAt id hash'
  left : r'.nodeSetAt best hash = ((r.nodeSetAt best hash).map fun sns =>
    { sns with nodes := sns.nodes.erase node }).filter fun sns => !sns.nodes.isEmpty
  clientFib : r'.infoBase.clientFib =
    if (r.nodeSetAt best hash).any fun sns => (sns.nodes.erase node).isEmpty then
      r.infoBase.clientFib.erase (hash, key)
    else r.infoBase.clientFib

section Joins

variable {q : Quicr} {hash : UInt64} {node : NodeIdValueType} {best key : PeerSessionId}
variable {r r' r'' : Relay}

/-- What comes before and after a join does not matter. -/
theorem JoinsSet.of_keeps (hbefore : KeepsForwarding r r')
    (h : JoinsSet q hash node best key r' r'') : JoinsSet q hash node best key r r'' := by
  refine ⟨hbefore.keepsRoutes.trans h.routes, fun id hash' hne => ?_, ?_⟩
  · rw [h.other id hash' hne, hbefore.nodeSetAt]
  · have hjoined := h.joined
    rw [hbefore.nodeSetAt, hbefore.clientFib] at hjoined
    exact hjoined

theorem LeavesSet.of_keeps (hbefore : KeepsForwarding r r')
    (h : LeavesSet hash node best key r' r'') : LeavesSet hash node best key r r'' := by
  refine ⟨hbefore.keepsRoutes.trans h.routes, fun id hash' hne => ?_, ?_, ?_⟩
  · rw [h.other id hash' hne, hbefore.nodeSetAt]
  · rw [h.left, hbefore.nodeSetAt]
  · rw [h.clientFib, hbefore.nodeSetAt, hbefore.clientFib]

theorem LeavesSet.then_keeps (h : LeavesSet hash node best key r r')
    (hafter : KeepsForwarding r' r'') : LeavesSet hash node best key r r'' := by
  refine ⟨h.routes.trans hafter.keepsRoutes, fun id hash' hne => ?_, ?_, ?_⟩
  · rw [hafter.nodeSetAt, h.other id hash' hne]
  · rw [hafter.nodeSetAt, h.left]
  · rw [hafter.clientFib, h.clientFib]

theorem bestSession_eq_some : r.bestSession node = some best ↔
    r.infoBase.nodesBest[node]? = some best ∧ ∃ session, r.getPeerSession best = some session := by
  unfold Relay.bestSession Relay.live
  rw [Option.filter_eq_some_iff, Option.isSome_iff_exists]

theorem nodeSetAt_setPeerSession {old : PeerSession} (hget : r.getPeerSession best = some old)
    (session : PeerSession) (id : PeerSessionId) (hash : UInt64) :
    (r.setPeerSession best session).nodeSetAt id hash =
      if id = best then session.subSns[hash]? else r.nodeSetAt id hash := by
  unfold nodeSetAt
  rw [getPeerSession_setPeerSession hget]
  split <;> rfl

theorem infoBase_setPeerSession (r : Relay) (id : PeerSessionId) (session : PeerSession) :
    (r.setPeerSession id session).infoBase = r.infoBase := by
  unfold setPeerSession
  split <;> rfl

theorem routeView_addSubscribeSourceNode (q : Quicr) (session : PeerSession) (hash : UInt64)
    (node : NodeIdValueType) :
    routeView (session.addSubscribeSourceNode q hash node).1 = routeView session := by
  unfold PeerSession.addSubscribeSourceNode PeerSession.sendSns
  dsimp only
  split
  · split <;> rfl
  · rfl

theorem joins_forwardToNode (q : Quicr) (hbest : r.bestSession node = some best) (hash : UInt64)
    (keySession : PeerSessionId → PeerSessionId) :
    JoinsSet q hash node best (keySession best) r (r.forwardToNode q hash node keySession) := by
  obtain ⟨hnode, session, hget⟩ := bestSession_eq_some.mp hbest
  have hold : session.subSns.getD hash {} = (r.nodeSetAt best hash).getD {} := by
    unfold nodeSetAt
    rw [hget, Option.bind_some, ExtTreeMap.getD_eq_getD_getElem?]
  set old := (r.nodeSetAt best hash).getD {} with hset
  set snsId := if old.id = 0 then q.createDataContext session.dataContexts else old.id with hid
  have hsns : (session.addSubscribeSourceNode q hash node).1.subSns =
      session.subSns.insert hash ⟨snsId, old.nodes.insert node⟩ := by
    unfold PeerSession.addSubscribeSourceNode PeerSession.sendSns
    dsimp only
    rw [hold]
    split
    · split <;> rfl
    · rfl
  have hnew : (session.addSubscribeSourceNode q hash node).2 =
      (snsId, !old.nodes.contains node) := by
    unfold PeerSession.addSubscribeSourceNode
    dsimp only
    rw [hold]
  let entry : FibEntry := { outSnsId := snsId, peerSession := some best }
  obtain ⟨⟨session', snsId', isNew⟩, hadd⟩ :
      ∃ added, session.addSubscribeSourceNode q hash node = added := ⟨_, rfl⟩
  rw [hadd] at hsns hnew
  cases hnew
  have hforward : r.forwardToNode q hash node keySession =
      if old.nodes.contains node then
        r.setPeerSession best session'
      else (r.setPeerSession best session').setInfoBase
        { r.infoBase with
          clientFib := r.infoBase.clientFib.insertIfNew (hash, keySession best) entry } := by
    unfold forwardToNode
    rw [hnode]
    dsimp only
    rw [hget]
    dsimp only
    rw [hadd]
    dsimp only
    rw [infoBase_setPeerSession]
    cases old.nodes.contains node <;> rfl
  have hsets : ∀ id hash', (r.forwardToNode q hash node keySession).nodeSetAt id hash' =
      if id = best ∧ hash' = hash then some ⟨snsId, old.nodes.insert node⟩
      else r.nodeSetAt id hash' := by
    intro id hash'
    have hsession : (r.forwardToNode q hash node keySession).nodeSetAt id hash' =
        (r.setPeerSession best session').nodeSetAt id hash' := by
      rw [hforward]
      split <;> rfl
    have hsns : session'.subSns = _ := hsns
    rw [hsession, nodeSetAt_setPeerSession hget, hsns, ExtTreeMap.getElem?_insert_ite]
    by_cases hbest' : id = best
    · subst hbest'
      rw [if_pos rfl]
      by_cases hhash : hash' = hash
      · rw [if_pos hhash, if_pos ⟨rfl, hhash⟩]
      · rw [if_neg hhash, if_neg fun h => hhash h.2, nodeSetAt, hget, Option.bind_some]
    · rw [if_neg hbest', if_neg fun h => hbest' h.1]
  refine ⟨?_, fun id hash' hne => ?_, snsId, ?_, fun hne => if_neg hne, ?_, ?_⟩
  · exact keeps_forwardToNode (fun _ _ => rfl) routeView_addSubscribeSourceNode q r hash node
      keySession
  · rw [hsets, if_neg hne]
  · rw [hsets, if_pos ⟨rfl, rfl⟩]
  · exact fun hzero => ⟨session.dataContexts, if_pos hzero⟩
  · rw [hforward]
    split
    · rw [infoBase_setPeerSession]
    · rfl

theorem forwardToNode_of_none (q : Quicr) (hbest : r.bestSession node = none) (hash : UInt64)
    (keySession : PeerSessionId → PeerSessionId) :
    r.forwardToNode q hash node keySession = r := by
  unfold forwardToNode
  split
  · rfl
  · rename_i id hid
    split
    · rfl
    · rename_i session hsession
      have hsome := bestSession_eq_some.mpr ⟨hid, session, hsession⟩
      rw [hbest] at hsome
      cases hsome

theorem routeView_removeSubscribeSourceNode (session : PeerSession) (hash : UInt64)
    (node : NodeIdValueType) :
    routeView (session.removeSubscribeSourceNode hash node).1 = routeView session := by
  unfold PeerSession.removeSubscribeSourceNode PeerSession.sendSns
  split
  · rfl
  · dsimp only
    split
    · split <;> rfl
    · rfl

theorem blind_routeView : Blind routeView where
  add := routeView_addSubscribeSourceNode
  remove := routeView_removeSubscribeSourceNode
  send session si withdraw := congrArg Prod.fst (sendSubscribeInfo_view session si withdraw)

/-- The node set that is left, and whether it went. -/
theorem removeSubscribeSourceNode_spec (session : PeerSession) (hash : UInt64)
    (node : NodeIdValueType) :
    (∀ hash', (session.removeSubscribeSourceNode hash node).1.subSns[hash']? =
      if hash' = hash then (session.subSns[hash]?.map fun sns =>
        { sns with nodes := sns.nodes.erase node }).filter fun sns => !sns.nodes.isEmpty
      else session.subSns[hash']?) ∧
    (session.removeSubscribeSourceNode hash node).2.2 =
      session.subSns[hash]?.any fun sns => (sns.nodes.erase node).isEmpty := by
  unfold PeerSession.removeSubscribeSourceNode
  cases hsns : session.subSns[hash]? with
  | none =>
    refine ⟨fun hash' => ?_, rfl⟩
    by_cases hhash : hash' = hash
    · simp [hhash, hsns]
    · simp [hhash]
  | some sns =>
    dsimp only
    by_cases hempty : (sns.nodes.erase node).isEmpty = true
    · rw [if_pos hempty]
      refine ⟨fun hash' => ?_, hempty.symm⟩
      have hsend : ∀ (s : PeerSession) (sns : SubscribeNodeSet),
          (s.sendSns sns true).subSns = s.subSns := by
        intro s sns
        unfold PeerSession.sendSns
        split <;> rfl
      dsimp only
      rw [hsend, ExtTreeMap.getElem?_erase_ite]
      simp [hempty, Option.filter]
    · rw [if_neg hempty]
      refine ⟨fun hash' => ?_, (Bool.eq_false_iff.mpr hempty).symm⟩
      dsimp only
      rw [ExtTreeMap.getElem?_insert_ite]
      simp [hempty, Option.filter]

theorem leaves_subscribeWithdrawn {si : SubscribeInfo}
    (hbest : r.bestSession si.sourceNodeId = some best) (key : PeerSessionId) :
    LeavesSet si.trackHash.trackFullnameHash si.sourceNodeId best key r
      (r.subscribeWithdrawn key si) := by
  obtain ⟨hnode, session, hget⟩ := bestSession_eq_some.mp hbest
  set hash := si.trackHash.trackFullnameHash
  obtain ⟨hsns, hremoved⟩ := removeSubscribeSourceNode_spec session hash si.sourceNodeId
  set removed := session.removeSubscribeSourceNode hash si.sourceNodeId
  unfold subscribeWithdrawn
  refine LeavesSet.then_keeps ?_ (keepsForwarding_removeOrPause _ _)
  rw [hnode]
  dsimp only
  rw [hget]
  dsimp only
  have hat : r.nodeSetAt best hash = session.subSns[hash]? := by
    rw [nodeSetAt, hget, Option.bind_some]
  have hset : KeepsRoutes r (r.setPeerSession best removed.1) :=
    keeps_setPeerSession hget (routeView_removeSubscribeSourceNode _ _ _)
  have hsets : ∀ id hash', (r.setPeerSession best removed.1).nodeSetAt id hash' =
      if id = best ∧ hash' = hash then (session.subSns[hash]?.map fun sns =>
        { sns with nodes := sns.nodes.erase si.sourceNodeId }).filter fun sns => !sns.nodes.isEmpty
      else r.nodeSetAt id hash' := by
    intro id hash'
    rw [nodeSetAt_setPeerSession hget, hsns]
    by_cases hid : id = best
    · subst hid
      rw [if_pos rfl]
      by_cases hhash : hash' = hash
      · rw [if_pos hhash, if_pos ⟨rfl, hhash⟩]
      · rw [if_neg hhash, if_neg fun h => hhash h.2, nodeSetAt, hget, Option.bind_some]
    · rw [if_neg hid, if_neg fun h => hid h.1]
  have hkept : LeavesSet hash si.sourceNodeId best key r
      (if removed.2.2 then (r.setPeerSession best removed.1).setInfoBase
        { (r.setPeerSession best removed.1).infoBase with
          clientFib := (r.setPeerSession best removed.1).infoBase.clientFib.erase (hash, key) }
      else r.setPeerSession best removed.1) := by
    refine ⟨?_, fun id hash' hne => ?_, ?_, ?_⟩
    · split
      · exact hset.trans (keeps_setInfoBase rfl)
      · exact hset
    · have hsame := hsets id hash'
      rw [if_neg hne] at hsame
      split <;> exact hsame
    · have hsame := hsets best hash
      rw [if_pos ⟨rfl, rfl⟩, ← hat] at hsame
      split <;> exact hsame
    · rw [hremoved, hat]
      split
      · show (r.setPeerSession best removed.1).infoBase.clientFib.erase _ = _
        rw [infoBase_setPeerSession]
      · rw [infoBase_setPeerSession]
  by_cases hgone : removed.2.2 = true
  · rw [if_pos hgone] at hkept ⊢
    split
    · exact hkept
    · exact hkept.then_keeps (keeps_mapState _ _)
  · rw [if_neg hgone] at hkept ⊢
    exact hkept

theorem keepsForwarding_subscribeWithdrawn {si : SubscribeInfo}
    (hbest : r.bestSession si.sourceNodeId = none) (key : PeerSessionId) :
    KeepsForwarding r (r.subscribeWithdrawn key si) := by
  unfold subscribeWithdrawn
  refine Keeps.trans ?_ (keepsForwarding_removeOrPause _ _)
  dsimp only
  split
  · exact .refl r
  · rename_i id hid
    split
    · exact .refl r
    · rename_i session hsession
      have hsome := bestSession_eq_some.mpr ⟨hid, session, hsession⟩
      rw [hbest] at hsome
      cases hsome

end Joins

/-! ### Subscriptions of other relays, and publications -/

/-- The subscription meets a publication. -/
def MeetsPublication (q : Quicr) (r : Relay) (si : SubscribeInfo) : Prop :=
  ∃ msg, q.parseSubscribe si.subscribeData = some msg ∧
    msg.parameters.subscriberPriority.isSome = true ∧
    r.announceMatches q si.trackHash.trackFullnameHash msg.trackNamespace = true

section Received

variable {q : Quicr} {r : Relay} {id best : PeerSessionId} {si : SubscribeInfo}

theorem joins_subscribeAdvertised (hbest : r.bestSession si.sourceNodeId = some best)
    (hmatch : MeetsPublication q r si) (id : PeerSessionId) :
    JoinsSet q si.trackHash.trackFullnameHash si.sourceNodeId best id r
      (r.subscribeAdvertised q id si) := by
  obtain ⟨msg, hparse, hpriority, hmatches⟩ := hmatch
  obtain ⟨priority, hpriority⟩ := Option.isSome_iff_exists.mp hpriority
  unfold subscribeAdvertised
  rw [hparse]
  dsimp only
  rw [hpriority]
  dsimp only
  rw [if_pos hmatches]
  have hkeeps := keepsForwarding_processSubscribe q r si.trackHash
    ⟨msg.trackNamespace, msg.trackName⟩
    { priority := 10, newGroupRequestId := msg.parameters.newGroupRequest }
  refine JoinsSet.of_keeps hkeeps ?_
  exact joins_forwardToNode q ((hkeeps.keepsRoutes.bestSession _).trans hbest) _ fun _ => id

theorem keepsForwarding_subscribeAdvertised
    (h : ∀ best, r.bestSession si.sourceNodeId = some best → ¬ MeetsPublication q r si)
    (id : PeerSessionId) : KeepsForwarding r (r.subscribeAdvertised q id si) := by
  unfold subscribeAdvertised
  split
  · exact .refl r
  · rename_i msg hparse
    split
    · exact .refl r
    · rename_i priority hpriority
      split
      · rename_i hmatches
        have hkeeps := keepsForwarding_processSubscribe q r si.trackHash
          ⟨msg.trackNamespace, msg.trackName⟩
          { priority := 10, newGroupRequestId := msg.parameters.newGroupRequest }
        have hnone : r.bestSession si.sourceNodeId = none := by
          rw [Option.eq_none_iff_forall_ne_some]
          exact fun best hbest => h best hbest ⟨msg, hparse, by simp [hpriority], hmatches⟩
        rw [forwardToNode_of_none q ((hkeeps.keepsRoutes.bestSession _).trans hnone)]
        exact hkeeps
      · exact .refl r

/-- What a subscription that comes from a session does to the forwarding. -/
theorem subscribeInfoReceived_cases (q : Quicr) (r : Relay) (id : PeerSessionId)
    (si : SubscribeInfo) (withdraw : Bool) :
    (KeepsForwarding r (r.subscribeInfoReceived q id si withdraw) ∧
      ∀ best, r.live id = true → r.bestSession si.sourceNodeId = some best →
        withdraw = false ∧ ¬ MeetsPublication q r si) ∨
    ∃ best, r.live id = true ∧ r.bestSession si.sourceNodeId = some best ∧
      ((withdraw = false ∧ MeetsPublication q r si ∧
        JoinsSet q si.trackHash.trackFullnameHash si.sourceNodeId best id r
          (r.subscribeInfoReceived q id si withdraw)) ∨
      (withdraw = true ∧ LeavesSet si.trackHash.trackFullnameHash si.sourceNodeId best id r
          (r.subscribeInfoReceived q id si withdraw))) := by
  unfold subscribeInfoReceived
  split
  · rename_i hnone
    left
    refine ⟨.refl r, fun best hlive => ?_⟩
    simp [live, hnone] at hlive
  · rename_i session hsession
    have hlive : r.live id = true := by simp [live, hsession]
    have hpass := keepsForwarding_passSubscribe r id si withdraw
    have hstate : (if (r.updateSubscribes si withdraw).2 then
        (r.updateSubscribes si withdraw).1.sendSubscribeInfos (· == id) si withdraw
        else (r.updateSubscribes si withdraw).1).state = r.state := by
      split <;> rfl
    dsimp only
    set r₁ := if (r.updateSubscribes si withdraw).2 then
        (r.updateSubscribes si withdraw).1.sendSubscribeInfos (· == id) si withdraw
        else (r.updateSubscribes si withdraw).1
    have hbest := hpass.keepsRoutes.bestSession si.sourceNodeId
    have hmatch : MeetsPublication q r₁ si ↔ MeetsPublication q r si := by
      unfold MeetsPublication announceMatches
      rw [hstate]
    cases withdraw with
    | false =>
      rw [if_neg (by simp)]
      by_cases hadvertises : MeetsPublication q r si ∧
          ∃ best, r.bestSession si.sourceNodeId = some best
      · obtain ⟨hadvertises, best, hsome⟩ := hadvertises
        right
        refine ⟨best, hlive, hsome, .inl ⟨rfl, hadvertises, JoinsSet.of_keeps hpass ?_⟩⟩
        exact joins_subscribeAdvertised (hbest.trans hsome) (hmatch.mpr hadvertises) id
      · left
        have hnot : ∀ best, r.bestSession si.sourceNodeId = some best → ¬ MeetsPublication q r si :=
          fun best hsome hadv => hadvertises ⟨hadv, best, hsome⟩
        refine ⟨hpass.trans (keepsForwarding_subscribeAdvertised ?_ id), fun best _ hsome =>
          ⟨rfl, hnot best hsome⟩⟩
        intro best hsome
        rw [hbest] at hsome
        rw [hmatch]
        exact hnot best hsome
    | true =>
      rw [if_pos rfl]
      cases hsome : r.bestSession si.sourceNodeId with
      | none =>
        left
        refine ⟨hpass.trans (keepsForwarding_subscribeWithdrawn (hbest.trans hsome) id), ?_⟩
        intro best _ hfalse
        cases hfalse
      | some best =>
        right
        refine ⟨best, hlive, rfl, .inr ⟨rfl, LeavesSet.of_keeps hpass ?_⟩⟩
        exact leaves_subscribeWithdrawn (hbest.trans hsome) id

end Received

section Announce

variable {q : Quicr} {P : Relay → Prop} (hkeeps : ∀ {r r'}, KeepsForwarding r r' → P r → P r')
variable (hjoins : ∀ {r r'} {hash : UInt64} {node : NodeIdValueType} {best : PeerSessionId},
  r.bestSession node = some best → JoinsSet q hash node best best r r' → P r → P r')

include hkeeps hjoins

theorem matchSubscribe_preserves (full : FullTrackName) (si : SubscribeInfo) {r : Relay}
    (h : P r) : P (r.matchSubscribe q full si) := by
  unfold matchSubscribe
  split
  · exact h
  · split
    · exact h
    · split
      · exact h
      · rename_i msg _ _ _
        have hprocess := hkeeps (keepsForwarding_processSubscribe q r si.trackHash
          ⟨msg.trackNamespace, msg.trackName⟩
          { priority := 10, newGroupRequestId := msg.parameters.newGroupRequest.map fun _ => 1 }) h
        dsimp only
        split
        · exact hprocess
        · generalize hr₁ : r.processSubscribe q 0 0 si.trackHash
            ⟨msg.trackNamespace, msg.trackName⟩ _ = r₁ at hprocess ⊢
          cases hbest : r₁.bestSession si.sourceNodeId with
          | none =>
            rw [forwardToNode_of_none q hbest]
            exact hprocess
          | some best => exact hjoins hbest (joins_forwardToNode q hbest _ id) hprocess

/-- What a publication does to the forwarding: nodes join the node sets that their best sessions
have, and the entries stand under these. -/
theorem clientAnnounce_preserves (full : FullTrackName) (withdraw publishNamespace : Bool)
    {r : Relay} (h : P r) : P (r.clientAnnounce q full withdraw publishNamespace) := by
  have hpass := hkeeps (keepsForwarding_passAnnounce q r (r.announceInfo q full publishNamespace)
    withdraw fun _ => false) h
  unfold clientAnnounce
  dsimp only
  split
  · exact hpass
  · generalize r.announceInfo q full publishNamespace = info at hpass ⊢
    generalize (r.updateAnnounces q info withdraw).1.sendAnnounceInfos (fun _ => false) info
      withdraw = r₁ at hpass ⊢
    generalize r₁.infoBase.subscribes.entries₂ = entries
    have hloop : ∀ r', P r' → P (entries.foldl (fun r' entry => if entry.1.2 = r₁.nodeId then r'
        else r'.matchSubscribe q full entry.2) r') := by
      induction entries with
      | nil => exact fun r' hr' => hr'
      | cons entry entries ih =>
        intro r' hr'
        rw [List.foldl_cons]
        apply ih
        split
        · exact hr'
        · exact matchSubscribe_preserves hkeeps hjoins full entry.2 hr'
    exact hloop r₁ hpass

theorem publishReceived_preserves (conn : ConnectionHandle) (req : RequestId)
    (full : FullTrackName) {r : Relay} (h : P r) : P (r.publishReceived q conn req full) := by
  have hstate : ∀ {r r' : Relay}, OnlyState r r' → P r → P r' := fun hstate => hkeeps hstate.keeps
  unfold publishReceived
  dsimp only
  refine hstate (onlyState_mapState _ _) ?_
  have hhandler : P (r.newHandler full true).2 := hstate ⟨_, rfl⟩ h
  split
  · exact hstate (onlyState_mapState _ _) hhandler
  · refine clientAnnounce_preserves hkeeps hjoins _ _ _ (hstate (onlyState_mapState _ _) ?_)
    exact hstate (onlyState_mapState _ _) hhandler

theorem publishNamespaceReceived_preserves (conn : ConnectionHandle) (nameSpace : TrackNamespace)
    (req : RequestId) {r : Relay} (h : P r) :
    P (r.publishNamespaceReceived q conn nameSpace req) := by
  have hstate : ∀ {r r' : Relay}, OnlyState r r' → P r → P r' := fun hstate => hkeeps hstate.keeps
  have hsubscribe : ∀ {r : Relay}, P r →
      P (r.state.subscribeActive.toList.foldl (subscribeToPublisher q nameSpace conn) r) :=
    fun hr => hstate (foldl_related .refl .trans
      (onlyState_subscribeToPublisher q nameSpace conn) _ _) hr
  unfold publishNamespaceReceived
  dsimp only
  have hrequest : P (r.mapState fun st =>
      { st with requests := st.requests.insert (conn, req) nameSpace }) :=
    hstate (onlyState_mapState _ _) h
  split
  · split
    · exact hrequest
    · exact hsubscribe hrequest
  · split
    · exact hstate (onlyState_mapState _ _) hrequest
    · refine clientAnnounce_preserves hkeeps hjoins _ _ _ (hsubscribe ?_)
      exact hstate (onlyState_mapState _ _) hrequest

end Announce

end Laps.Relay
