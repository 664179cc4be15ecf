import Laps.Relay.Teardown

/-! What a lost session leaves of the subscriptions of other relays that were served through it. -/

namespace Laps.Relay

open Std Client Peering

/-! ### Served subscriptions -/

/-- The node has a subscription to the track. -/
def SubscribedBy (r : Relay) (hash : UInt64) (node : NodeIdValueType) : Prop :=
  (r.infoBase.subscribes.get₂? hash node).isSome = true

/-- The entry of the client table under the session `key` sends the track over the session `egress`,
to a node set with the node in it. -/
def ServedVia (r : Relay) (hash : UInt64) (node : NodeIdValueType)
    (key egress : PeerSessionId) : Prop :=
  ∃ (entry : FibEntry) (sns : SubscribeNodeSet),
    r.infoBase.clientFib[(hash, key)]? = some entry ∧ entry.peerSession = some egress ∧
      r.nodeSetAt egress hash = some sns ∧ sns.nodes.contains node = true

/-- The node gets the track through the entry under the session. -/
def ServedThrough (r : Relay) (hash : UInt64) (node : NodeIdValueType) (id : PeerSessionId) :
    Prop :=
  ∃ egress, r.ServedVia hash node id egress

/-- The message is about the subscription of the node to the track. -/
def IsAbout (hash : UInt64) (node : NodeIdValueType) (info : SubscribeInfo) : Prop :=
  info.trackHash.trackFullnameHash = hash ∧ info.sourceNodeId = node

/-- The connected sessions but for one are told that the node has withdrawn its subscription. -/
def WithdrawnFrom (id : PeerSessionId) (hash : UInt64) (node : NodeIdValueType)
    (r r' : Relay) : Prop :=
  ∀ id', id' ≠ id → r.Connected id' → ∃ sent info,
    r'.subscribesTo id' = r.subscribesTo id' ++ sent ∧ (info, true) ∈ sent ∧ IsAbout hash node info

/-- What becomes of the subscriptions when a session is lost: those that were served through it are
served over the session that leads to their node, or are withdrawn when there is none. -/
structure Rehomes (id : PeerSessionId) (r r' : Relay) : Prop where
  served : ∀ hash node, r.SubscribedBy hash node → r.ServedThrough hash node id →
    (∃ best key, r'.bestSession node = some best ∧ r'.ServedVia hash node key best) ∨
    (r'.bestSession node = none ∧ ¬ r'.SubscribedBy hash node ∧ WithdrawnFrom id hash node r r')
  others : ∀ hash node, r.SubscribedBy hash node → ¬ r.ServedThrough hash node id →
    r'.infoBase.subscribes.get₂? hash node = r.infoBase.subscribes.get₂? hash node ∧
      ∀ key egress, r'.ServedVia hash node key egress ↔ r.ServedVia hash node key egress

/-- No track that the lost node does not subscribe to has an entry under its session; all
subscriptions of the lost node are served through the session, and no other session leads to the
node; the other subscriptions that are served through it are also served over the session that leads
to their node without it. -/
structure Rehomable (r : Relay) (id : PeerSessionId) (node : NodeIdValueType) : Prop where
  not_locked : ¬ Locked r id node
  lost : ∀ hash, r.SubscribedBy hash node →
    r.ServedThrough hash node id ∧ r.bestWithout id node = none
  others : ∀ hash n, n ≠ node → r.SubscribedBy hash n → r.ServedThrough hash n id →
    ∃ best key, r.bestWithout id n = some best ∧ r.ServedVia hash n key best

section Served

variable {r r' : Relay} {hash : UInt64} {node : NodeIdValueType} {key egress : PeerSessionId}

theorem ServedThrough.contains {id : PeerSessionId} (h : r.ServedThrough hash node id) :
    r.infoBase.clientFib.contains (hash, id) = true := by
  obtain ⟨egress, entry, sns, hentry, -⟩ := h
  exact ExtTreeMap.contains_iff_getElem?.mpr ⟨entry, hentry⟩

theorem servedVia_congr (hfib : r'.infoBase.clientFib = r.infoBase.clientFib)
    (hsets : ∀ id, r'.nodeSetAt id hash = r.nodeSetAt id hash) :
    r'.ServedVia hash node key egress ↔ r.ServedVia hash node key egress := by
  unfold ServedVia
  rw [hfib, hsets]

/-- A node that has left the node set of a session gets nothing over it. -/
theorem not_servedVia_of_left
    (hleft : r'.nodeSetAt egress hash = r.nodeSetWithout egress hash node) :
    ¬ r'.ServedVia hash node key egress := by
  rintro ⟨entry, sns, -, -, hsns, hcontains⟩
  rw [hleft, nodeSetWithout, Option.filter_eq_some_iff, Option.map_eq_some_iff] at hsns
  obtain ⟨⟨old, -, rfl⟩, -⟩ := hsns
  simp at hcontains

end Served

/-! ### One withdrawal -/

section Withdrawal

variable {q : Quicr} {r : Relay} {id : PeerSessionId} {si : SubscribeInfo}

/-- A subscription of a node that no session leads to, of a track that has an entry under the
session. -/
structure CutOff (r : Relay) (id : PeerSessionId) (si : SubscribeInfo) : Prop where
  live : r.live id = true
  unreachable : r.bestSession si.sourceNodeId = none
  entry : r.infoBase.clientFib.contains (si.trackHash.trackFullnameHash, id) = true
  stored : r.SubscribedBy si.trackHash.trackFullnameHash si.sourceNodeId

/-- The entry counts as a subscriber, whoever it is for. -/
theorem subscribeWithdrawn_of_none (hbest : r.bestSession si.sourceNodeId = none)
    (hentry : r.infoBase.clientFib.contains (si.trackHash.trackFullnameHash, id) = true)
    (key : PeerSessionId) : r.subscribeWithdrawn key si = r := by
  have hsubscribers : r.hasSubscribers si.trackHash.trackFullnameHash = true := by
    obtain ⟨entry, hentry⟩ := ExtTreeMap.contains_iff_getElem?.mp hentry
    exact ExtTreeMap.anyEntry_iff.mpr ⟨_, entry, hentry, by simp⟩
  have hnone : ∀ best, r.infoBase.nodesBest[si.sourceNodeId]? = some best →
      r.getPeerSession best = none := by
    intro best hnode
    rw [Option.eq_none_iff_forall_ne_some]
    intro session hsession
    rw [bestSession_eq_some.mpr ⟨hnode, session, hsession⟩] at hbest
    cases hbest
  have hpause : r.removeOrPausePublisherSubscribe si.trackHash.trackFullnameHash = r := by
    unfold removeOrPausePublisherSubscribe
    rw [if_pos hsubscribers]
  unfold subscribeWithdrawn
  dsimp only
  cases hnode : r.infoBase.nodesBest[si.sourceNodeId]? with
  | none => exact hpause
  | some best =>
    dsimp only
    rw [hnone best hnode]
    exact hpause

/-- The withdrawal of a subscription that is cut off is passed on, and nothing else happens. -/
theorem CutOff.received (h : CutOff r id si) : r.subscribeInfoReceived q id si true =
    (r.setInfoBase (r.infoBase.removeSubscribe si).1).sendSubscribeInfos (· == id) si true := by
  obtain ⟨session, hsession⟩ := Option.isSome_iff_exists.mp h.live
  have hupdated : (r.updateSubscribes si true).2 = true :=
    (r.infoBase.removeSubscribe_isUpdated si).trans h.stored
  have hkeeps := keepsForwarding_passSubscribe r id si true
  unfold subscribeInfoReceived
  rw [hsession]
  dsimp only
  rw [if_pos hupdated] at hkeeps
  rw [if_pos hupdated, if_pos rfl]
  have hbest := (hkeeps.keepsRoutes.bestSession si.sourceNodeId).trans h.unreachable
  have hentry := h.entry
  rw [← hkeeps.clientFib] at hentry
  exact subscribeWithdrawn_of_none hbest hentry id

theorem IsAbout.sendSubscribeInfo {hash : UInt64} {node : NodeIdValueType} {info : SubscribeInfo}
    (h : IsAbout hash node info) (session : PeerSession) (withdraw : Bool) :
    IsAbout hash node (session.sendSubscribeInfo info withdraw).2 := by
  unfold PeerSession.sendSubscribeInfo
  split
  · exact h
  · unfold SubscribeInfo.serialize
    split
    · exact h
    · exact h

/-- A withdrawal of a subscription that is cut off takes the subscription away and tells the other
sessions. -/
theorem CutOff.step (h : CutOff r id si) :
    KeepsForwarding r (r.subscribeInfoReceived q id si true) ∧
    (∀ hash n, (r.subscribeInfoReceived q id si true).infoBase.subscribes.get₂? hash n =
      if hash = si.trackHash.trackFullnameHash ∧ n = si.sourceNodeId then none
      else r.infoBase.subscribes.get₂? hash n) ∧
    ∀ id', r.Connected id' → (r.subscribeInfoReceived q id si true).Connected id' ∧
      (id' ≠ id → ∃ info, IsAbout si.trackHash.trackFullnameHash si.sourceNodeId info ∧
        (r.subscribeInfoReceived q id si true).subscribesTo id' =
          r.subscribesTo id' ++ [(info, true)]) := by
  rw [h.received]
  obtain ⟨r₁, hr₁⟩ : ∃ r₁, r.setInfoBase (r.infoBase.removeSubscribe si).1 = r₁ := ⟨_, rfl⟩
  rw [hr₁]
  refine ⟨?_, fun hash n => ?_, fun id' hconnected => ⟨?_, fun hne => ?_⟩⟩
  · have hset : KeepsForwarding r r₁ := by
      rw [← hr₁]
      refine keeps_setInfoBase ?_
      rw [InfoBase.removeSubscribe_rest]
      rfl
    exact hset.trans (keeps_sendSubscribeInfos sendSubscribeInfo_view _ _ _ _)
  · have hinfo : (r₁.sendSubscribeInfos (· == id) si true).infoBase =
        (r.infoBase.removeSubscribe si).1 := by
      rw [← hr₁]
      rfl
    rw [hinfo, InfoBase.get₂?_removeSubscribe]
  · have hset : Keeps (fun _ => ()) announceView r r₁ := by
      rw [← hr₁]
      exact keeps_setInfoBase rfl
    exact (hset.trans (keeps_sendSubscribeInfos announceView_sendSubscribeInfo _ _ _ _)).connected
      hconnected
  · have hconnected₁ : r₁.Connected id' := by
      rw [← hr₁]
      exact hconnected
    have hsame : r₁.subscribesTo id' = r.subscribesTo id' := by
      rw [← hr₁]
      rfl
    have hsent := subscribesTo_sendSubscribeInfos (Q := fun _ => True)
      (P := IsAbout si.trackHash.trackFullnameHash si.sourceNodeId) (· == id)
      (fun session info _ hinfo => hinfo.sendSubscribeInfo session true)
      ⟨fun _ _ _ => trivial, fun _ _ _ => trivial⟩ ⟨rfl, rfl⟩ hconnected₁
    rw [hsame] at hsent
    rcases hsent with ⟨heq, -⟩ | ⟨-, hsent⟩
    · exact absurd (eq_of_beq heq) hne
    · exact hsent

end Withdrawal

/-! ### The withdrawals of a lost node -/

section Node

variable {q : Quicr} {r : Relay} {id : PeerSessionId}

theorem cutOff_foldl {node : NodeIdValueType} (subs : List SubscribeInfo)
    (hcut : ∀ si ∈ subs, CutOff r id si ∧ si.sourceNodeId = node)
    (hdistinct : subs.Pairwise fun x y =>
      x.trackHash.trackFullnameHash ≠ y.trackHash.trackFullnameHash) :
    KeepsForwarding r (subs.foldl (fun r si => r.subscribeInfoReceived q id si true) r) ∧
    (∀ hash n, n ≠ node → (subs.foldl (fun r si => r.subscribeInfoReceived q id si true)
        r).infoBase.subscribes.get₂? hash n = r.infoBase.subscribes.get₂? hash n) ∧
    ∀ id', id' ≠ id → r.Connected id' → ∃ sent,
      (subs.foldl (fun r si => r.subscribeInfoReceived q id si true) r).subscribesTo id' =
        r.subscribesTo id' ++ sent ∧
      ∀ si ∈ subs, ∃ info, (info, true) ∈ sent ∧
        IsAbout si.trackHash.trackFullnameHash node info := by
  induction subs generalizing r with
  | nil => exact ⟨.refl r, fun _ _ _ => rfl, fun id' _ _ => ⟨[], by simp⟩⟩
  | cons si subs ih =>
    obtain ⟨hfirst, hdistinct⟩ := List.pairwise_cons.mp hdistinct
    obtain ⟨hsi, hnode⟩ := hcut si List.mem_cons_self
    obtain ⟨hkeeps, hsubs, htold⟩ := hsi.step (q := q)
    -- The other subscriptions of the node are cut off as before.
    have hrest : ∀ si' ∈ subs,
        CutOff (r.subscribeInfoReceived q id si true) id si' ∧ si'.sourceNodeId = node := by
      intro si' hsi'
      obtain ⟨⟨hlive, hbest, hentry, hstored⟩, hnode'⟩ := hcut si' (List.mem_cons_of_mem _ hsi')
      refine ⟨⟨?_, ?_, ?_, ?_⟩, hnode'⟩
      · rw [hkeeps.live]
        exact hlive
      · rw [hkeeps.keepsRoutes.bestSession]
        exact hbest
      · rw [hkeeps.clientFib]
        exact hentry
      · unfold SubscribedBy
        rw [hsubs, if_neg fun h => hfirst si' hsi' h.1.symm]
        exact hstored
    obtain ⟨hkeeps', hsubs', htold'⟩ := ih hrest hdistinct
    refine ⟨hkeeps.trans hkeeps', fun hash n hne => ?_, fun id' hne hconnected => ?_⟩
    · rw [List.foldl_cons, hsubs' hash n hne, hsubs, if_neg fun h => hne (h.2.trans hnode)]
    · obtain ⟨hconnected', hinfo⟩ := htold id' hconnected
      obtain ⟨info, habout, hsent⟩ := hinfo hne
      obtain ⟨sent, hsent', hall⟩ := htold' id' hne hconnected'
      refine ⟨(info, true) :: sent, ?_, fun si' hsi' => ?_⟩
      · rw [List.foldl_cons, hsent', hsent, List.append_assoc, List.singleton_append]
      · rcases List.mem_cons.mp hsi' with rfl | hsi'
        · rw [hnode] at habout
          exact ⟨info, List.mem_cons_self, habout⟩
        · obtain ⟨info', hinfo', habout'⟩ := hall si' hsi'
          exact ⟨info', List.mem_cons_of_mem _ hinfo', habout'⟩

/-- All subscriptions of the node go, whatever else does. -/
theorem withdrawn_within (hlive : r.live id = true) (si : SubscribeInfo) :
    SubscribesWithin r (r.subscribeInfoReceived q id si true) ∧
      ¬ (r.subscribeInfoReceived q id si true).SubscribedBy si.trackHash.trackFullnameHash
        si.sourceNodeId := by
  obtain ⟨session, hsession⟩ := Option.isSome_iff_exists.mp hlive
  unfold subscribeInfoReceived
  rw [hsession]
  dsimp only
  rw [if_pos rfl]
  have hpassed : (if (r.updateSubscribes si true).2 then
      (r.updateSubscribes si true).1.sendSubscribeInfos (· == id) si true
      else (r.updateSubscribes si true).1).infoBase = (r.infoBase.removeSubscribe si).1 := by
    split <;> rfl
  generalize (if (r.updateSubscribes si true).2 then
      (r.updateSubscribes si true).1.sendSubscribeInfos (· == id) si true
      else (r.updateSubscribes si true).1) = r₁ at hpassed
  have hwithin₁ : SubscribesWithin r r₁ :=
    (within_removeSubscribe r si).trans (.of_eq (by rw [hpassed]; rfl))
  have hwithin := within_subscribeWithdrawn r₁ id si
  refine ⟨hwithin₁.trans hwithin, fun hsubscribed => ?_⟩
  obtain ⟨si', hsi'⟩ := Option.isSome_iff_exists.mp hsubscribed
  have hsi₁ := hwithin _ _ _ hsi'
  rw [hpassed, InfoBase.get₂?_removeSubscribe, if_pos ⟨rfl, rfl⟩] at hsi₁
  cases hsi₁

theorem within_foldl (hlive : r.live id = true) (subs : List SubscribeInfo) :
    SubscribesWithin r (subs.foldl (fun r si => r.subscribeInfoReceived q id si true) r) ∧
      ∀ si ∈ subs, ¬ (subs.foldl (fun r si => r.subscribeInfoReceived q id si true)
        r).SubscribedBy si.trackHash.trackFullnameHash si.sourceNodeId := by
  induction subs generalizing r with
  | nil => exact ⟨.of_eq rfl, by simp⟩
  | cons si subs ih =>
    obtain ⟨hwithin, hgone⟩ := withdrawn_within (q := q) hlive si
    obtain ⟨hroutes, -⟩ := withdrawn_spec (q := q) hlive si
    obtain ⟨hwithin', hgone'⟩ := ih (r := r.subscribeInfoReceived q id si true)
      (by rw [hroutes.live]; exact hlive)
    refine ⟨hwithin.trans hwithin', fun si' hsi' => ?_⟩
    rcases List.mem_cons.mp hsi' with rfl | hsi'
    · intro hsubscribed
      obtain ⟨si'', hsi''⟩ := Option.isSome_iff_exists.mp hsubscribed
      exact hgone (Option.isSome_iff_exists.mpr ⟨si'', hwithin' _ _ _ hsi''⟩)
    · exact hgone' si' hsi'

theorem not_subscribedBy_withdrawNode (hlive : r.live id = true) (hkeys : OwnKeys r)
    (node : NodeIdValueType) (hash : UInt64) :
    ¬ (r.withdrawNode q id node).SubscribedBy hash node := by
  obtain ⟨hwithin, hgone⟩ := within_foldl (q := q) hlive (r.subscribesOf node)
  intro hsubscribed
  obtain ⟨si, hsi⟩ := Option.isSome_iff_exists.mp hsubscribed
  have hmem := mem_subscribesOf.mpr ⟨hash, hwithin hash node si hsi⟩
  obtain ⟨hhash, hnode⟩ := hkeys hash node si (hwithin hash node si hsi)
  have hnot := hgone si hmem
  rw [hhash, hnode] at hnot
  exact hnot hsubscribed

/-- When no session leads to the node and all its tracks have entries under the lost session, its
subscriptions go and everything else is kept. -/
theorem withdrawNode_cutOff (hlive : r.live id = true) (hkeys : OwnKeys r)
    {node : NodeIdValueType} (hcut : ∀ hash, r.SubscribedBy hash node →
      r.bestSession node = none ∧ r.infoBase.clientFib.contains (hash, id) = true) :
    KeepsForwarding r (r.withdrawNode q id node) ∧
    (∀ hash n, n ≠ node → (r.withdrawNode q id node).infoBase.subscribes.get₂? hash n =
      r.infoBase.subscribes.get₂? hash n) ∧
    ∀ hash, r.SubscribedBy hash node → WithdrawnFrom id hash node r (r.withdrawNode q id node) := by
  have hcutOff : ∀ si ∈ r.subscribesOf node, CutOff r id si ∧ si.sourceNodeId = node := by
    intro si hsi
    obtain ⟨hash, hget⟩ := mem_subscribesOf.mp hsi
    obtain ⟨hhash, hnode⟩ := hkeys hash node si hget
    have hstored : r.SubscribedBy hash node := by
      unfold SubscribedBy
      rw [hget]
      rfl
    obtain ⟨hbest, hentry⟩ := hcut hash hstored
    refine ⟨⟨hlive, ?_, ?_, ?_⟩, hnode⟩
    · rw [hnode]
      exact hbest
    · rw [hhash]
      exact hentry
    · rw [hhash, hnode]
      exact hstored
  obtain ⟨hkeeps, hsubs, htold⟩ := cutOff_foldl (q := q) (r.subscribesOf node) hcutOff
    (hkeys.pairwise_subscribesOf node)
  refine ⟨hkeeps, hsubs, fun hash hstored id' hne hconnected => ?_⟩
  obtain ⟨sent, hsent, hall⟩ := htold id' hne hconnected
  obtain ⟨si, hsi, hhash⟩ := (hkeys.exists_subscribesOf_iff node hash).mpr hstored
  obtain ⟨info, hinfo, habout⟩ := hall si hsi
  rw [hhash] at habout
  exact ⟨sent, info, hsent, hinfo, habout⟩

end Node

/-! ### The lost session -/

/-- What the purge of a session leaves alone, and where the nodes are found without it. -/
structure Purged (r : Relay) (id : PeerSessionId) (r₁ : Relay) : Prop where
  live : r₁.live = r.live
  subscribes : r₁.infoBase.subscribes = r.infoBase.subscribes
  clientFib : r₁.infoBase.clientFib = r.infoBase.clientFib
  nodeSetAt : ∀ id' hash, r₁.nodeSetAt id' hash = r.nodeSetAt id' hash
  bestSession : ∀ node, r₁.bestSession node = r.bestWithout id node
  messages : ∀ id', r.Connected id' → r₁.Connected id' ∧ r₁.subscribesTo id' = r.subscribesTo id'

section Lost

variable {q : Quicr} {r r₁ : Relay} {id : PeerSessionId} {node : NodeIdValueType}

theorem sentView_sendNodeInfo {β : Type*} {ofMessage : ControlMessage → Option β}
    (hnode : ∀ info withdraw, ofMessage (.nodeInfo info withdraw) = none) (session : PeerSession)
    (info : NodeInfo) (withdraw : Bool) :
    sentView ofMessage (session.sendNodeInfo info withdraw) = sentView ofMessage session := by
  unfold PeerSession.sendNodeInfo
  split
  · rfl
  · simp [sentView, PeerSession.enqueue, hnode]

theorem purged_propagateNodeInfo {ib : InfoBase}
    (hpurge : r.infoBase.purgePeerSessionInfo r.live id = some ib) (remote : NodeInfo) :
    Purged r id ((r.propagateNodeInfo remote true).setInfoBase ib) := by
  have htables := keepsTables_propagateNodeInfo r remote true
  have hmessages : KeepsSubscribes r (r.propagateNodeInfo remote true) :=
    keeps_propagateNodeInfo (sentView_sendNodeInfo fun _ _ => rfl) r remote true
  have hrest := InfoBase.purgePeerSessionInfo_rest hpurge
  refine ⟨htables.live, ?_, ?_, fun id' hash => nodeSetAt_of_keepsTables htables id' hash,
    fun node => ?_, fun id' hconnected =>
      ⟨hmessages.connected hconnected, hmessages.subscribesTo id'⟩⟩
  · show ib.subscribes = _
    rw [hrest]
  · show ib.clientFib = _
    rw [hrest]
  · unfold bestWithout
    rw [hpurge, Option.bind_some, ← htables.live]
    rfl

theorem Purged.servedVia (h : Purged r id r₁) {hash : UInt64} {n : NodeIdValueType}
    {key egress : PeerSessionId} :
    r₁.ServedVia hash n key egress ↔ r.ServedVia hash n key egress :=
  servedVia_congr h.clientFib fun id' => h.nodeSetAt id' hash

/-- When the subscriptions of the lost node are cut off, they are withdrawn and the others are
served as before. -/
theorem Purged.withdrawNode (h : Purged r id r₁) (hlive : r.live id = true) (hkeys : OwnKeys r)
    (hlost : ∀ hash, r.SubscribedBy hash node →
      r.ServedThrough hash node id ∧ r.bestWithout id node = none) :
    (∀ n, (r₁.withdrawNode q id node).bestSession n = r.bestWithout id n) ∧
    (∀ hash n key egress, (r₁.withdrawNode q id node).ServedVia hash n key egress ↔
      r.ServedVia hash n key egress) ∧
    (∀ hash n, n ≠ node → (r₁.withdrawNode q id node).infoBase.subscribes.get₂? hash n =
      r.infoBase.subscribes.get₂? hash n) ∧
    ∀ hash, r.SubscribedBy hash node →
      WithdrawnFrom id hash node r (r₁.withdrawNode q id node) := by
  have hcut : ∀ hash, r₁.SubscribedBy hash node →
      r₁.bestSession node = none ∧ r₁.infoBase.clientFib.contains (hash, id) = true := by
    intro hash hsubscribed
    unfold SubscribedBy at hsubscribed
    rw [h.subscribes] at hsubscribed
    obtain ⟨hserved, hbest⟩ := hlost hash hsubscribed
    rw [h.bestSession, h.clientFib]
    exact ⟨hbest, hserved.contains⟩
  obtain ⟨hkeeps, hsubs, htold⟩ := withdrawNode_cutOff (q := q) (by rw [h.live]; exact hlive)
    (hkeys.congr h.subscribes) hcut
  refine ⟨fun n => ?_, fun hash n key egress => ?_, fun hash n hne => ?_,
    fun hash hsubscribed id' hne hconnected => ?_⟩
  · rw [hkeeps.keepsRoutes.bestSession, h.bestSession]
  · exact (servedVia_congr hkeeps.clientFib fun id' => hkeeps.nodeSetAt id' hash).trans h.servedVia
  · rw [hsubs hash n hne, h.subscribes]
  · obtain ⟨hconnected₁, hsame⟩ := h.messages id' hconnected
    rw [← hsame]
    refine htold hash ?_ id' hne hconnected₁
    unfold SubscribedBy
    rw [h.subscribes]
    exact hsubscribed

/-- A lost node whose subscriptions are rehomed is cut off: its own ones are withdrawn, and it
leaves the node sets on the way. -/
theorem Rehomes.lost (h : Purged r id r₁) (hlive : r.live id = true) (hkeys : OwnKeys r)
    (hrehomes : Rehomes id r (r₁.withdrawNode q id node)) {hash : UInt64}
    (hsubscribed : r.SubscribedBy hash node) :
    r.ServedThrough hash node id ∧ r.bestWithout id node = none := by
  have hlive₁ : r₁.live id = true := by
    rw [h.live]
    exact hlive
  have hkeys₁ := hkeys.congr h.subscribes
  have hgone := not_subscribedBy_withdrawNode (q := q) hlive₁ hkeys₁ node hash
  obtain ⟨hroutes, hsets, -⟩ := withdrawNode_spec (q := q) hlive₁ hkeys₁ node
  have hserved : r.ServedThrough hash node id := by
    by_contra hnot
    refine hgone ?_
    unfold SubscribedBy
    rw [(hrehomes.others hash node hsubscribed hnot).1]
    exact hsubscribed
  refine ⟨hserved, ?_⟩
  rw [← h.bestSession, ← hroutes.bestSession]
  rcases hrehomes.served hash node hsubscribed hserved with ⟨best, key, hbest, hvia⟩ | ⟨hbest, -⟩
  · rw [hroutes.bestSession] at hbest
    have hleft := hsets best hash
    rw [if_pos ⟨by rw [h.subscribes]; exact hsubscribed, hbest⟩] at hleft
    refine absurd hvia (not_servedVia_of_left (r := r₁) hleft)
  · exact hbest

theorem rehomes_withdrawNode_iff (h : Purged r id r₁) (hlive : r.live id = true)
    (hkeys : OwnKeys r) (hnot : ¬ Locked r id node) :
    Rehomes id r (r₁.withdrawNode q id node) ↔ Rehomable r id node := by
  constructor
  · intro hrehomes
    have hlost : ∀ hash, r.SubscribedBy hash node →
        r.ServedThrough hash node id ∧ r.bestWithout id node = none :=
      fun hash => hrehomes.lost h hlive hkeys
    obtain ⟨hbest, hvia, hsubs, -⟩ := h.withdrawNode (q := q) hlive hkeys hlost
    refine ⟨hnot, hlost, fun hash n hne hsubscribed hserved => ?_⟩
    rcases hrehomes.served hash n hsubscribed hserved with ⟨best, key, hn, hserved'⟩ | ⟨-, hgone, -⟩
    · exact ⟨best, key, (hbest n).symm.trans hn, (hvia hash n key best).mp hserved'⟩
    · unfold SubscribedBy at hgone
      rw [hsubs hash n hne] at hgone
      exact absurd hsubscribed hgone
  · intro hrehomable
    obtain ⟨hbest, hvia, hsubs, htold⟩ := h.withdrawNode (q := q) hlive hkeys hrehomable.lost
    refine ⟨fun hash n hsubscribed hserved => ?_, fun hash n hsubscribed hother => ?_⟩
    · by_cases hn : n = node
      · subst hn
        right
        refine ⟨(hbest n).trans (hrehomable.lost hash hsubscribed).2, ?_, htold hash hsubscribed⟩
        exact not_subscribedBy_withdrawNode (by rw [h.live]; exact hlive)
          (hkeys.congr h.subscribes) n hash
      · left
        obtain ⟨best, key, hn', hserved'⟩ := hrehomable.others hash n hn hsubscribed hserved
        exact ⟨best, key, (hbest n).trans hn', (hvia hash n key best).mpr hserved'⟩
    · have hne : n ≠ node := by
        rintro rfl
        exact hother (hrehomable.lost hash hsubscribed).1
      exact ⟨hsubs hash n hne, fun key egress => hvia hash n key egress⟩

/-- A lost session is told of to the end, with every subscription rehomed, if and only if the
subscriptions are rehomable. -/
theorem rehomes_iff_rehomable (htables : r.infoBase.NodeTables) (halive : r.infoBase.Alive r.live)
    (hkeys : OwnKeys r) (hlive : r.live id = true) (remote : NodeInfo) :
    (∃ r', r.sessionChanged q id .disconnected remote = some r' ∧ Rehomes id r r') ↔
      Rehomable r id remote.id := by
  obtain ⟨ib, hpurge, -⟩ := htables.purgePeerSessionInfo halive id
  obtain ⟨hlocked, hchanged⟩ := sessionChanged_of_purge (q := q) hkeys remote hpurge
  have hpurged := purged_propagateNodeInfo hpurge remote
  by_cases hlock : Locked r id remote.id
  · rw [hlocked hlock]
    constructor
    · rintro ⟨r', hr', -⟩
      cases hr'
    · intro hrehomable
      exact absurd hlock hrehomable.not_locked
  · obtain ⟨r₂, hr₂, hr'⟩ := hchanged hlock
    have hiff := rehomes_withdrawNode_iff (q := q) hpurged hlive hkeys hlock
    rw [hr₂] at hiff
    -- The announcements are not looked at.
    have hforget : Rehomes id r (if r₂.isPeered then r₂
        else r₂.setInfoBase { r₂.infoBase with announces := ∅ }) ↔ Rehomes id r r₂ := by
      split
      · exact Iff.rfl
      · exact ⟨fun h => ⟨h.served, h.others⟩, fun h => ⟨h.served, h.others⟩⟩
    rw [← hiff, ← hforget, hr']
    simp only [Option.some.injEq, exists_eq_left']

end Lost

/-! ### Runs -/

/-- The track that a client of the relay publishes. -/
def publishedTrack : TrackHash := Quicr.numbered.trackHash ⟨[[1]], [2]⟩

def subscribeOf (node : NodeIdValueType) : SubscribeInfo :=
  { sourceNodeId := node
    trackHash := publishedTrack
    subscribeData := Quicr.numbered.serializeSubscribe
      ⟨1, [[1]], [2], { subscriberPriority := some 1 }⟩ }

/-- Node 2 subscribes to the track over session 7. -/
def neighborSubscribes : List LossCall :=
  [.node 7 { id := 2 } false, .publishNamespace 5 [[1]] 1, .subscribeInfo 7 (subscribeOf 2) false]

theorem rehomable_neighborSubscribes {r : Relay}
    (hr : lossCalls Quicr.numbered acceptedSessions neighborSubscribes = some r) :
    Rehomable r 7 2 := by
  have htables : (lossCalls Quicr.numbered acceptedSessions neighborSubscribes).map (fun r =>
      (r.infoBase.subscribes.toList.map fun row => (row.1, row.2.toList.map Prod.fst),
        r.infoBase.clientFib[(publishedTrack.trackFullnameHash, (7 : PeerSessionId))]?.map
          FibEntry.peerSession,
        (r.nodeSetAt 7 publishedTrack.trackFullnameHash).map (·.nodes.contains 2),
        r.bestWithout 7 2)) =
      some ([(publishedTrack.trackFullnameHash, [2])], some (some 7), some true, none) := by
    decide +kernel
  rw [hr, Option.map_some, Option.some.injEq, Prod.mk.injEq, Prod.mk.injEq, Prod.mk.injEq]
    at htables
  obtain ⟨hrows, hentry, hset, hbest⟩ := htables
  have honly : ∀ {hash n si}, r.infoBase.subscribes.get₂? hash n = some si →
      hash = publishedTrack.trackFullnameHash ∧ n = 2 := by
    intro hash n si hget
    obtain ⟨row, hrow, hsi⟩ := ExtTreeMap.get₂?_eq_some.mp hget
    have hmem := List.mem_map_of_mem (f := fun row : UInt64 × ExtTreeMap NodeIdValueType
      SubscribeInfo => (row.1, row.2.toList.map Prod.fst))
        (ExtTreeMap.mem_toList_iff_getElem?_eq_some.mpr hrow)
    rw [hrows, List.mem_singleton, Prod.mk.injEq] at hmem
    have hn := List.mem_map_of_mem (f := Prod.fst)
      (ExtTreeMap.mem_toList_iff_getElem?_eq_some.mpr hsi)
    rw [hmem.2, List.mem_singleton] at hn
    exact ⟨hmem.1, hn⟩
  have hserved : r.ServedThrough publishedTrack.trackFullnameHash 2 7 := by
    obtain ⟨entry, hentry, hpeer⟩ := Option.map_eq_some_iff.mp hentry
    obtain ⟨sns, hset, hcontains⟩ := Option.map_eq_some_iff.mp hset
    exact ⟨7, entry, sns, hentry, hpeer, hset, hcontains⟩
  refine ⟨?_, fun hash hsubscribed => ?_, fun hash n hne hsubscribed _ => ?_⟩
  · rintro ⟨hash, n, si, hget, hnone, -⟩
    obtain ⟨-, rfl⟩ := honly hget
    rw [hget] at hnone
    cases hnone
  · obtain ⟨si, hget⟩ := Option.isSome_iff_exists.mp hsubscribed
    obtain ⟨rfl, -⟩ := honly hget
    exact ⟨hserved, hbest⟩
  · obtain ⟨si, hget⟩ := Option.isSome_iff_exists.mp hsubscribed
    exact absurd (honly hget).2 hne

/-- The session of the node is lost: its subscription is withdrawn. -/
theorem rehomes_neighborSubscribes : ∃ r r',
    lossCalls Quicr.numbered acceptedSessions neighborSubscribes = some r ∧ LossTables r ∧
      r.live 7 = true ∧ r.sessionChanged Quicr.numbered 7 .disconnected { id := 2 } = some r' ∧
        Rehomes 7 r r' := by
  have hlive : (lossCalls Quicr.numbered acceptedSessions neighborSubscribes).map (·.live 7) =
      some true := by
    decide +kernel
  obtain ⟨r, hr, hlive⟩ := Option.map_eq_some_iff.mp hlive
  have htables := freshTables_acceptedSessions.inv.lossTables.lossCalls hr
  obtain ⟨r', hr', hrehomes⟩ := (rehomes_iff_rehomable (q := Quicr.numbered) htables.tables
    htables.alive htables.keys hlive { id := 2 }).mpr (rehomable_neighborSubscribes hr)
  exact ⟨r, r', hr, htables, hlive, hr', hrehomes⟩

/-- Node 4 subscribes to the track behind node 2. -/
def behindNeighbor : List LossCall :=
  [.node 7 { id := 2 } false, .node 7 { id := 4, path := [⟨2, 1⟩] } false,
    .publishNamespace 5 [[1]] 1, .subscribeInfo 7 (subscribeOf 4) false]

/-- Node 2 subscribes too, and node 4 can also be reached over session 8. -/
def bothSubscribe : List LossCall :=
  behindNeighbor ++ [.node 8 { id := 3 } false,
    .node 8 { id := 4, path := [⟨5, 1⟩, ⟨3, 1⟩] } false, .subscribeInfo 7 (subscribeOf 2) false]

/-- When node 2 is lost, node 4 stays with the lost session, although session 8 leads to it. -/
theorem not_rehomes_bothSubscribe : ∃ r r',
    lossCalls Quicr.numbered acceptedSessions bothSubscribe = some r ∧ r.live 7 = true ∧
      r.sessionChanged Quicr.numbered 7 .disconnected { id := 2 } = some r' ∧
        ¬ Rehomes 7 r r' := by
  have hbefore : (lossCalls Quicr.numbered acceptedSessions bothSubscribe).map (fun r =>
      (r.live 7, (r.infoBase.subscribes.get₂? publishedTrack.trackFullnameHash 4).isSome,
        r.infoBase.clientFib[(publishedTrack.trackFullnameHash, (7 : PeerSessionId))]?.map
          FibEntry.peerSession,
        (r.nodeSetAt 7 publishedTrack.trackFullnameHash).map (·.nodes.contains 4))) =
      some (true, true, some (some 7), some true) := by
    decide +kernel
  have hafter : (lossCalls Quicr.numbered acceptedSessions bothSubscribe).map (fun r =>
      (r.sessionChanged Quicr.numbered 7 .disconnected { id := 2 }).map fun r' =>
        (r'.bestSession 4, (r'.nodeSetAt 8 publishedTrack.trackFullnameHash).isNone)) =
      some (some (some 8, true)) := by
    decide +kernel
  obtain ⟨r, hr, hbefore⟩ := Option.map_eq_some_iff.mp hbefore
  simp only [Prod.mk.injEq] at hbefore
  obtain ⟨hlive, hsubscribed, hentry, hset⟩ := hbefore
  rw [hr, Option.map_some, Option.some.injEq] at hafter
  obtain ⟨r', hr', hafter⟩ := Option.map_eq_some_iff.mp hafter
  obtain ⟨hbest, hnone⟩ := Prod.mk.inj hafter
  obtain ⟨entry, hentry, hpeer⟩ := Option.map_eq_some_iff.mp hentry
  obtain ⟨sns, hset, hcontains⟩ := Option.map_eq_some_iff.mp hset
  refine ⟨r, r', hr, hlive, hr', fun hrehomes => ?_⟩
  rcases hrehomes.served _ 4 hsubscribed ⟨7, entry, sns, hentry, hpeer, hset, hcontains⟩ with
    ⟨best, key, hbest', -, sns', -, -, hset', -⟩ | ⟨hbest', -⟩
  · rw [hbest] at hbest'
    cases hbest'
    rw [Option.isNone_iff_eq_none.mp hnone] at hset'
    cases hset'
  · rw [hbest] at hbest'
    cases hbest'

/-- When node 2 is lost and does not subscribe itself, the loop locks a mutex that it holds. -/
theorem not_rehomed : FreshTables acceptedSessions ∧
    (∃ r, lossCalls Quicr.numbered acceptedSessions behindNeighbor = some r ∧ r.live 7 = true ∧
      r.sessionChanged Quicr.numbered 7 .disconnected { id := 2 } = none) ∧
    ∃ r r', lossCalls Quicr.numbered acceptedSessions bothSubscribe = some r ∧ r.live 7 = true ∧
      r.sessionChanged Quicr.numbered 7 .disconnected { id := 2 } = some r' ∧
        ¬ Rehomes 7 r r' := by
  have hrun : (lossCalls Quicr.numbered acceptedSessions behindNeighbor).map (fun r =>
      (r.live 7, (r.sessionChanged Quicr.numbered 7 .disconnected { id := 2 }).isNone)) =
        some (true, true) := by
    decide +kernel
  obtain ⟨r, hr, hrun⟩ := Option.map_eq_some_iff.mp hrun
  obtain ⟨hlive, hnone⟩ := Prod.mk.inj hrun
  exact ⟨freshTables_acceptedSessions, ⟨r, hr, hlive, Option.isNone_iff_eq_none.mp hnone⟩,
    not_rehomes_bothSubscribe⟩

end Laps.Relay
