import Laps.Relay.ClientFib
import Laps.Relay.PeerSets
import Laps.Relay.Unsubscribe

/-! Sessions that are lost: what is left of them in the forwarding tables, and where the egress
sessions of the entries are still there. -/

namespace Laps.Relay

open Std Client Peering

/-! ### Subscriptions under their own keys -/

/-- The subscriptions stand under their own hashes and source nodes. -/
def OwnKeys (r : Relay) : Prop :=
  ∀ hash node si, r.infoBase.subscribes.get₂? hash node = some si →
    si.trackHash.trackFullnameHash = hash ∧ si.sourceNodeId = node

theorem OwnKeys.congr {r r' : Relay} (h : OwnKeys r)
    (hsubs : r'.infoBase.subscribes = r.infoBase.subscribes) : OwnKeys r' := by
  intro hash node si hget
  rw [hsubs] at hget
  exact h hash node si hget

theorem OwnKeys.of_within {r r' : Relay} (h : OwnKeys r) (hwithin : SubscribesWithin r r') :
    OwnKeys r' :=
  fun hash node si hget => h hash node si (hwithin hash node si hget)

theorem within_subscribeWithdrawn (r : Relay) (id : PeerSessionId) (si : SubscribeInfo) :
    SubscribesWithin r (r.subscribeWithdrawn id si) := by
  unfold subscribeWithdrawn
  refine SubscribesWithin.trans (.of_eq ?_) (within_removeOrPause _ _)
  dsimp only
  split
  · rfl
  · split
    · rfl
    · rename_i best _ _ session hsession
      have hset : ∀ s, (r.setPeerSession best s).infoBase.subscribes = r.infoBase.subscribes :=
        fun s => by rw [infoBase_setPeerSession]
      split
      · split
        · exact hset _
        · exact hset _
      · exact hset _

theorem OwnKeys.updateSubscribes {r : Relay} (h : OwnKeys r) (si : SubscribeInfo)
    (withdraw : Bool) : OwnKeys (r.updateSubscribes si withdraw).1 := by
  cases withdraw with
  | true => exact h.of_within (within_removeSubscribe r si)
  | false =>
    intro hash node si' hget
    rcases InfoBase.get₂?_addSubscribe hget with ⟨hhash, hnode, rfl⟩ | hold
    · exact ⟨hhash.symm, hnode.symm⟩
    · exact h hash node si' hold

theorem OwnKeys.subscribeInfoReceived {q : Quicr} {r : Relay} (h : OwnKeys r)
    (id : PeerSessionId) (si : SubscribeInfo) (withdraw : Bool) :
    OwnKeys (r.subscribeInfoReceived q id si withdraw) := by
  unfold Relay.subscribeInfoReceived
  split
  · exact h
  · dsimp only
    have hpass : OwnKeys (if (r.updateSubscribes si withdraw).2 then
        (r.updateSubscribes si withdraw).1.sendSubscribeInfos (· == id) si withdraw
        else (r.updateSubscribes si withdraw).1) := by
      split
      · exact (h.updateSubscribes si withdraw).congr rfl
      · exact h.updateSubscribes si withdraw
    generalize (if (r.updateSubscribes si withdraw).2 then
        (r.updateSubscribes si withdraw).1.sendSubscribeInfos (· == id) si withdraw
        else (r.updateSubscribes si withdraw).1) = r₁ at hpass
    split
    · exact hpass.of_within (within_subscribeWithdrawn r₁ id si)
    · have hkeeps : Keeps InfoBase.subscribes (fun _ => ()) r₁ (r₁.subscribeAdvertised q id si) :=
        keeps_subscribeAdvertised (fun _ _ => rfl) (fun _ _ _ _ => rfl) q r₁ id si
      exact hpass.congr hkeeps.info

/-! ### The loops over the subscriptions -/

section Loops

variable {q : Quicr} {r : Relay} {id : PeerSessionId}

/-- Without the subscription of the node, the session that leads to it has no node left for the
track. -/
def emptiedBy (r : Relay) (hash : UInt64) (node : NodeIdValueType) : Bool :=
  (r.bestSession node).any fun best =>
    (r.nodeSetAt best hash).any fun sns => (sns.nodes.erase node).isEmpty

/-- The node set that a session has for a track, once a node has left it. -/
def nodeSetWithout (r : Relay) (id : PeerSessionId) (hash : UInt64) (node : NodeIdValueType) :
    Option SubscribeNodeSet :=
  ((r.nodeSetAt id hash).map fun sns => { sns with nodes := sns.nodes.erase node }).filter
    fun sns => !sns.nodes.isEmpty

/-- A withdrawal that comes over a session takes the node out of the node set of the session that
leads to it, and the entry under the session away. -/
theorem withdrawn_spec (hlive : r.live id = true) (si : SubscribeInfo) :
    KeepsRoutes r (r.subscribeInfoReceived q id si true) ∧
    (∀ id' hash, (r.subscribeInfoReceived q id si true).nodeSetAt id' hash =
      if hash = si.trackHash.trackFullnameHash ∧ r.bestSession si.sourceNodeId = some id' then
        r.nodeSetWithout id' hash si.sourceNodeId
      else r.nodeSetAt id' hash) ∧
    ∀ hash id', (r.subscribeInfoReceived q id si true).infoBase.clientFib[(hash, id')]? =
      if id' = id ∧ hash = si.trackHash.trackFullnameHash ∧
        r.emptiedBy hash si.sourceNodeId = true then none
      else r.infoBase.clientFib[(hash, id')]? := by
  rcases subscribeInfoReceived_cases q r id si true with ⟨hkeeps, hnot⟩ |
    ⟨best, -, hbest, ⟨hfalse, -⟩ | ⟨-, hleaves⟩⟩
  · have hnone : r.bestSession si.sourceNodeId = none := by
      rw [Option.eq_none_iff_forall_ne_some]
      intro best hbest
      cases (hnot best hlive hbest).1
    refine ⟨hkeeps.keepsRoutes, fun id' hash => ?_, fun hash id' => ?_⟩
    · rw [hkeeps.nodeSetAt, if_neg]
      simp [hnone]
    · rw [hkeeps.clientFib, if_neg]
      simp [emptiedBy, hnone]
  · cases hfalse
  · refine ⟨hleaves.routes, fun id' hash => ?_, fun hash id' => ?_⟩
    · split
      · rename_i hleft
        obtain ⟨rfl, hid⟩ := hleft
        rw [hbest, Option.some.injEq] at hid
        subst hid
        exact hleaves.left
      · rename_i hleft
        refine hleaves.other id' hash fun h => hleft ⟨h.2, ?_⟩
        rw [hbest, h.1]
    · rw [hleaves.clientFib]
      by_cases hhash : hash = si.trackHash.trackFullnameHash
      · subst hhash
        have hemptied : r.emptiedBy si.trackHash.trackFullnameHash si.sourceNodeId =
            (r.nodeSetAt best si.trackHash.trackFullnameHash).any fun sns =>
              (sns.nodes.erase si.sourceNodeId).isEmpty := by
          rw [emptiedBy, hbest, Option.any_some]
        rw [hemptied]
        split
        · rename_i hgone
          rw [ExtTreeMap.getElem?_erase_ite]
          simp [hgone]
        · rename_i hgone
          rw [if_neg fun h => hgone h.2.2]
      · have hnot : ¬ (id' = id ∧ hash = si.trackHash.trackFullnameHash ∧
            r.emptiedBy hash si.sourceNodeId = true) := fun h => hhash h.2.1
        rw [if_neg hnot]
        split
        · rw [ExtTreeMap.getElem?_erase_ite, if_neg fun h => hhash (congrArg Prod.fst h)]
        · rfl

theorem emptiedBy_congr {r' : Relay} (hroutes : KeepsRoutes r r') {hash : UInt64}
    (hsets : ∀ id', r'.nodeSetAt id' hash = r.nodeSetAt id' hash) (node : NodeIdValueType) :
    r'.emptiedBy hash node = r.emptiedBy hash node := by
  unfold emptiedBy
  rw [hroutes.bestSession]
  simp only [hsets]

/-- The withdrawals of the lost node, one for each of its tracks. -/
theorem withdrawn_foldl (hlive : r.live id = true) (node : NodeIdValueType)
    (subs : List SubscribeInfo) (hsource : ∀ si ∈ subs, si.sourceNodeId = node)
    (hdistinct : subs.Pairwise fun x y =>
      x.trackHash.trackFullnameHash ≠ y.trackHash.trackFullnameHash) :
    KeepsRoutes r (subs.foldl (fun r si => r.subscribeInfoReceived q id si true) r) ∧
    (∀ id' hash, (subs.foldl (fun r si => r.subscribeInfoReceived q id si true)
        r).nodeSetAt id' hash =
      if (∃ si ∈ subs, si.trackHash.trackFullnameHash = hash) ∧ r.bestSession node = some id' then
        r.nodeSetWithout id' hash node
      else r.nodeSetAt id' hash) ∧
    ∀ hash id', (subs.foldl (fun r si => r.subscribeInfoReceived q id si true)
        r).infoBase.clientFib[(hash, id')]? =
      if id' = id ∧ (∃ si ∈ subs, si.trackHash.trackFullnameHash = hash) ∧
        r.emptiedBy hash node = true then none
      else r.infoBase.clientFib[(hash, id')]? := by
  induction subs generalizing r with
  | nil => exact ⟨.refl r, fun id' hash => by simp, fun hash id' => by simp⟩
  | cons si subs ih =>
    obtain ⟨hfirst, hdistinct⟩ := List.pairwise_cons.mp hdistinct
    obtain ⟨hroutes, hsets, hfib⟩ := withdrawn_spec (q := q) hlive si
    obtain ⟨hroutes', hsets', hfib'⟩ := ih (r := r.subscribeInfoReceived q id si true)
      (by rw [hroutes.live]; exact hlive)
      (fun si hsi => hsource si (List.mem_cons_of_mem _ hsi)) hdistinct
    have hnode := hsource si List.mem_cons_self
    have hrest : ∀ {hash}, si.trackHash.trackFullnameHash = hash →
        ¬ ∃ si ∈ subs, si.trackHash.trackFullnameHash = hash := by
      rintro hash hhash ⟨si', hsi', heq⟩
      exact hfirst si' hsi' (hhash.trans heq.symm)
    -- The other tracks are as they were.
    have hother : ∀ {hash}, si.trackHash.trackFullnameHash ≠ hash → ∀ id',
        (r.subscribeInfoReceived q id si true).nodeSetAt id' hash = r.nodeSetAt id' hash := by
      intro hash hhash id'
      rw [hsets, if_neg fun h => hhash h.1.symm]
    refine ⟨hroutes.trans hroutes', fun id' hash => ?_, fun hash id' => ?_⟩
    · rw [List.foldl_cons, hsets', hroutes.bestSession]
      simp only [List.mem_cons, exists_eq_or_imp]
      by_cases hhash : si.trackHash.trackFullnameHash = hash
      · rw [if_neg fun h => hrest hhash h.1, hsets, hnode]
        simp [hhash]
      · simp only [hhash, false_or, nodeSetWithout, hother hhash]
    · rw [List.foldl_cons, hfib', hfib, hnode]
      simp only [List.mem_cons, exists_eq_or_imp]
      by_cases hid : id' = id
      · by_cases hhash : si.trackHash.trackFullnameHash = hash
        · simp [hid, hhash, hrest hhash]
        · have hsame : (r.subscribeInfoReceived q id si true).emptiedBy hash node =
              r.emptiedBy hash node := emptiedBy_congr hroutes (hother hhash) node
          simp [hid, hhash, Ne.symm hhash, hsame]
      · simp [hid]

/-- The loop holds the mutex: it comes to no end when a subscription has to find another session. -/
theorem rerouteSubscribe_eq (acc : LostSubscribes) (si : SubscribeInfo) :
    r.rerouteSubscribe id acc si =
      if acc.clientFib.contains (si.trackHash.trackFullnameHash, id) then none else some acc := by
  unfold rerouteSubscribe getBestPeerSession
  dsimp only
  split <;> rfl

theorem reroute_foldlM (acc : LostSubscribes) (subs : List SubscribeInfo) :
    subs.foldlM (r.rerouteSubscribe id) acc =
      if ∃ si ∈ subs, acc.clientFib.contains (si.trackHash.trackFullnameHash, id) = true then none
      else some acc := by
  induction subs with
  | nil => simp
  | cons si subs ih =>
    rw [List.foldlM_cons, rerouteSubscribe_eq]
    simp only [List.mem_cons, exists_eq_or_imp]
    split
    · rename_i hcontains
      simp [hcontains]
    · rename_i hcontains
      rw [Option.bind_eq_bind, Option.bind_some, ih]
      simp [hcontains]

theorem lost_foldlM (r : Relay) (id : PeerSessionId) (node : NodeIdValueType)
    (rows : List (ExtTreeMap NodeIdValueType SubscribeInfo)) (acc : LostSubscribes) :
    rows.foldlM (r.lostSubscribe id node) acc =
      if ∃ row ∈ rows, row[node]? = none ∧ ∃ si ∈ row.toList.map Prod.snd,
        acc.clientFib.contains (si.trackHash.trackFullnameHash, id) = true then none
      else some { acc with removeSub := acc.removeSub ++ rows.filterMap (·[node]?) } := by
  induction rows generalizing acc with
  | nil => simp
  | cons row rows ih =>
    have hhead : r.lostSubscribe id node acc row =
        if row[node]? = none ∧ ∃ si ∈ row.toList.map Prod.snd,
          acc.clientFib.contains (si.trackHash.trackFullnameHash, id) = true then none
        else some { acc with removeSub := acc.removeSub ++ row[node]?.toList } := by
      unfold lostSubscribe
      cases row[node]? with
      | some si => simp
      | none =>
        dsimp only
        rw [reroute_foldlM]
        simp only [true_and, Option.toList_none, List.append_nil]
    rw [List.foldlM_cons, hhead]
    simp only [List.mem_cons, exists_eq_or_imp]
    split
    · rename_i hlocked
      rw [if_pos (.inl hlocked)]
      rfl
    · rename_i hlocked
      rw [Option.bind_eq_bind, Option.bind_some, ih]
      simp only [hlocked, false_or, List.filterMap_cons, List.append_assoc]
      cases row[node]? <;> rfl

/-- The subscriptions of a node. -/
def subscribesOf (r : Relay) (node : NodeIdValueType) : List SubscribeInfo :=
  (r.infoBase.subscribes.toList.map Prod.snd).filterMap (·[node]?)

theorem mem_subscribesOf {node : NodeIdValueType} {si : SubscribeInfo} :
    si ∈ r.subscribesOf node ↔ ∃ hash, r.infoBase.subscribes.get₂? hash node = some si := by
  simp only [subscribesOf, List.mem_filterMap, List.mem_map, ExtTreeMap.get₂?_eq_some]
  constructor
  · rintro ⟨row, ⟨⟨hash, row'⟩, hentry, rfl⟩, hsi⟩
    exact ⟨hash, row', ExtTreeMap.mem_toList_iff_getElem?_eq_some.mp hentry, hsi⟩
  · rintro ⟨hash, row, hrow, hsi⟩
    exact ⟨row, ⟨(hash, row), ExtTreeMap.mem_toList_iff_getElem?_eq_some.mpr hrow, rfl⟩, hsi⟩

theorem OwnKeys.source_of_mem (hkeys : OwnKeys r) {node : NodeIdValueType} {si : SubscribeInfo}
    (hsi : si ∈ r.subscribesOf node) : si.sourceNodeId = node := by
  obtain ⟨hash, hget⟩ := mem_subscribesOf.mp hsi
  exact (hkeys hash node si hget).2

theorem OwnKeys.pairwise_subscribesOf (hkeys : OwnKeys r) (node : NodeIdValueType) :
    (r.subscribesOf node).Pairwise fun x y =>
      x.trackHash.trackFullnameHash ≠ y.trackHash.trackFullnameHash := by
  rw [subscribesOf, List.filterMap_map, List.pairwise_filterMap]
  have hsorted : r.infoBase.subscribes.toList.Pairwise fun x y =>
      (x ∈ r.infoBase.subscribes.toList ∧ y ∈ r.infoBase.subscribes.toList) ∧ x.1 ≠ y.1 :=
    (List.pairwise_of_forall_mem_list fun x hx y hy => ⟨hx, hy⟩).and ExtTreeMap.pairwise_toList_ne
  refine hsorted.imp ?_
  rintro ⟨hash, row⟩ ⟨hash', row'⟩ ⟨⟨hx, hy⟩, hne⟩ si hsi si' hsi' heq
  have hget := ExtTreeMap.get₂?_eq_some.mpr
    ⟨row, ExtTreeMap.mem_toList_iff_getElem?_eq_some.mp hx, hsi⟩
  have hget' := ExtTreeMap.get₂?_eq_some.mpr
    ⟨row', ExtTreeMap.mem_toList_iff_getElem?_eq_some.mp hy, hsi'⟩
  rw [(hkeys _ _ _ hget).1, (hkeys _ _ _ hget').1] at heq
  exact hne heq

theorem OwnKeys.exists_subscribesOf_iff (hkeys : OwnKeys r) (node : NodeIdValueType)
    (hash : UInt64) :
    (∃ si ∈ r.subscribesOf node, si.trackHash.trackFullnameHash = hash) ↔
      (r.infoBase.subscribes.get₂? hash node).isSome = true := by
  rw [Option.isSome_iff_exists]
  constructor
  · rintro ⟨si, hsi, rfl⟩
    obtain ⟨hash, hget⟩ := mem_subscribesOf.mp hsi
    rw [(hkeys hash node si hget).1]
    exact ⟨si, hget⟩
  · rintro ⟨si, hget⟩
    exact ⟨si, mem_subscribesOf.mpr ⟨hash, hget⟩, (hkeys hash node si hget).1⟩

/-- The rows whose loop would lock the mutex again. -/
theorem locked_iff (hkeys : OwnKeys r) (node : NodeIdValueType) :
    (∃ row ∈ r.infoBase.subscribes.toList.map Prod.snd, row[node]? = none ∧
      ∃ si ∈ row.toList.map Prod.snd,
        r.infoBase.clientFib.contains (si.trackHash.trackFullnameHash, id) = true) ↔
    ∃ hash node' si, r.infoBase.subscribes.get₂? hash node' = some si ∧
      r.infoBase.subscribes.get₂? hash node = none ∧
      r.infoBase.clientFib.contains (hash, id) = true := by
  constructor
  · rintro ⟨_, hrow, hnone, si, hsi, hcontains⟩
    obtain ⟨⟨hash, row⟩, hentry, rfl⟩ := List.mem_map.mp hrow
    obtain ⟨⟨node', si⟩, hmem, rfl⟩ := List.mem_map.mp hsi
    have hrow' := ExtTreeMap.mem_toList_iff_getElem?_eq_some.mp hentry
    have hget := ExtTreeMap.get₂?_eq_some.mpr
      ⟨row, hrow', ExtTreeMap.mem_toList_iff_getElem?_eq_some.mp hmem⟩
    refine ⟨hash, node', si, hget, ?_, ?_⟩
    · unfold ExtTreeMap.get₂?
      rw [hrow']
      exact hnone
    · rw [← (hkeys hash node' si hget).1]
      exact hcontains
  · rintro ⟨hash, node', si, hget, hnone, hcontains⟩
    obtain ⟨row, hrow, hsi⟩ := ExtTreeMap.get₂?_eq_some.mp hget
    refine ⟨row, List.mem_map.mpr
      ⟨(hash, row), ExtTreeMap.mem_toList_iff_getElem?_eq_some.mpr hrow, rfl⟩, ?_, si, ?_, ?_⟩
    · unfold ExtTreeMap.get₂? at hnone
      rw [hrow] at hnone
      exact hnone
    · exact List.mem_map.mpr
        ⟨(node', si), ExtTreeMap.mem_toList_iff_getElem?_eq_some.mpr hsi, rfl⟩
    · rw [(hkeys hash node' si hget).1]
      exact hcontains

end Loops

/-! ### A lost session -/

/-- The session that leads to a node once another one is purged. -/
def bestWithout (r : Relay) (id : PeerSessionId) (node : NodeIdValueType) : Option PeerSessionId :=
  ((r.infoBase.purgePeerSessionInfo r.live id).bind fun ib => ib.nodesBest[node]?).filter r.live

/-- The node has a subscription to the track, and it is the last one of the node set that the
session has which leads to the node without the lost one. -/
def dropsEntry (r : Relay) (id : PeerSessionId) (node : NodeIdValueType) (hash : UInt64) : Bool :=
  (r.infoBase.subscribes.get₂? hash node).isSome &&
    (r.bestWithout id node).any fun best =>
      (r.nodeSetAt best hash).any fun sns => (sns.nodes.erase node).isEmpty

/-- A track that the lost node does not subscribe to, but another one does, has an entry under the
session. -/
def Locked (r : Relay) (id : PeerSessionId) (node : NodeIdValueType) : Prop :=
  ∃ hash node' si, r.infoBase.subscribes.get₂? hash node' = some si ∧
    r.infoBase.subscribes.get₂? hash node = none ∧
    r.infoBase.clientFib.contains (hash, id) = true

/-- What a lost session leaves. -/
structure Torn (r : Relay) (id : PeerSessionId) (node : NodeIdValueType) (r' : Relay) : Prop where
  live : ∀ id', id' ≠ id → r'.live id' = r.live id'
  peerFib : r'.infoBase.peerFib = r.infoBase.peerFib.filter fun key _ => key.1 ≠ id
  clientFib : ∀ hash id', r'.infoBase.clientFib[(hash, id')]? =
    if id' = id ∧ r.dropsEntry id node hash = true then none
    else r.infoBase.clientFib[(hash, id')]?
  tables : r'.infoBase.NodeTables
  nodes : ∀ n s, r'.infoBase.nodes.contains (n, s) = true →
    s ≠ id ∧ r.infoBase.nodes.contains (n, s) = true
  keys : OwnKeys r'

section SessionChanged

variable {q : Quicr} {r : Relay} {id : PeerSessionId}

/-- The subscriptions of a lost node are withdrawn. -/
def withdrawNode (q : Quicr) (r : Relay) (id : PeerSessionId) (node : NodeIdValueType) : Relay :=
  (r.subscribesOf node).foldl (fun r si => r.subscribeInfoReceived q id si true) r

theorem OwnKeys.withdrawNode (h : OwnKeys r) (id : PeerSessionId) (node : NodeIdValueType) :
    OwnKeys (r.withdrawNode q id node) := by
  unfold Relay.withdrawNode
  generalize r.subscribesOf node = subs
  induction subs generalizing r with
  | nil => exact h
  | cons si subs ih => exact ih (h.subscribeInfoReceived id si true)

theorem withdrawNode_spec (hlive : r.live id = true) (hkeys : OwnKeys r)
    (node : NodeIdValueType) :
    KeepsRoutes r (r.withdrawNode q id node) ∧
    (∀ id' hash, (r.withdrawNode q id node).nodeSetAt id' hash =
      if (r.infoBase.subscribes.get₂? hash node).isSome = true ∧ r.bestSession node = some id' then
        r.nodeSetWithout id' hash node
      else r.nodeSetAt id' hash) ∧
    ∀ hash id', (r.withdrawNode q id node).infoBase.clientFib[(hash, id')]? =
      if id' = id ∧ (r.infoBase.subscribes.get₂? hash node).isSome = true ∧
        r.emptiedBy hash node = true then none
      else r.infoBase.clientFib[(hash, id')]? := by
  have hspec := withdrawn_foldl (q := q) hlive node (r.subscribesOf node)
    (fun _ => hkeys.source_of_mem) (hkeys.pairwise_subscribesOf node)
  simp only [hkeys.exists_subscribesOf_iff] at hspec
  exact hspec

/-- What is left of `SessionChanged` once the node tables are purged: it comes to no end when a row
is locked, and withdraws the subscriptions of the lost node otherwise. -/
theorem sessionChanged_of_purge (hkeys : OwnKeys r) (remote : NodeInfo) {ib : InfoBase}
    (hpurge : r.infoBase.purgePeerSessionInfo r.live id = some ib) :
    (Locked r id remote.id → r.sessionChanged q id .disconnected remote = none) ∧
    (¬ Locked r id remote.id → ∃ r₂,
      ((r.propagateNodeInfo remote true).setInfoBase ib).withdrawNode q id remote.id = r₂ ∧
      r.sessionChanged q id .disconnected remote =
        some (if r₂.isPeered then r₂
          else r₂.setInfoBase { r₂.infoBase with announces := ∅ })) := by
  have hkeeps₀ := keepsTables_propagateNodeInfo r remote true
  have hpurge₀ : (r.propagateNodeInfo remote true).infoBase.purgePeerSessionInfo
      (r.propagateNodeInfo remote true).live id = some ib := by
    rw [hkeeps₀.live]
    exact hpurge
  obtain ⟨r₁, hr₁⟩ : ∃ r₁, (r.propagateNodeInfo remote true).setInfoBase ib = r₁ := ⟨_, rfl⟩
  have hib₁ : r₁.infoBase = ib := by
    rw [← hr₁]
    rfl
  have hrest := InfoBase.purgePeerSessionInfo_rest hpurge
  have hsubs : r₁.infoBase.subscribes = r.infoBase.subscribes := by rw [hib₁, hrest]
  have hclient : r₁.infoBase.clientFib = r.infoBase.clientFib := by rw [hib₁, hrest]
  have hlocked : (∃ row ∈ r₁.infoBase.subscribes.toList.map Prod.snd, row[remote.id]? = none ∧
      ∃ si ∈ row.toList.map Prod.snd,
        r₁.infoBase.clientFib.contains (si.trackHash.trackFullnameHash, id) = true) ↔
      Locked r id remote.id := by
    rw [locked_iff (hkeys.congr hsubs), hsubs, hclient]
    rfl
  have hloop := lost_foldlM r₁ id remote.id (r₁.infoBase.subscribes.toList.map Prod.snd)
    { clientFib := r₁.infoBase.clientFib }
  unfold sessionChanged
  simp only [hpurge₀, Option.bind_eq_bind, Option.bind_some, hr₁]
  rw [hloop]
  constructor
  · intro hlock
    rw [if_pos (hlocked.mpr hlock)]
    rfl
  · intro hlock
    rw [if_neg fun h => hlock (hlocked.mp h)]
    -- The table is written back as it was.
    have hsame : r₁.setInfoBase { r₁.infoBase with clientFib := r₁.infoBase.clientFib } = r₁ := rfl
    refine ⟨_, rfl, ?_⟩
    simp only [List.nil_append, List.foldl_nil, hsame, Option.bind_some]
    rfl

theorem sessionChanged_cases (htables : r.infoBase.NodeTables) (halive : r.infoBase.Alive r.live)
    (hkeys : OwnKeys r) (hlive : r.live id = true) (remote : NodeInfo) :
    (Locked r id remote.id ∧ r.sessionChanged q id .disconnected remote = none) ∨
    (¬ Locked r id remote.id ∧ ∃ r', r.sessionChanged q id .disconnected remote = some r' ∧
      Torn r id remote.id r') := by
  obtain ⟨ib, hpurge, hib, hdropped, htables'⟩ := htables.purgePeerSessionInfo halive id
  obtain ⟨hlocked, hloop⟩ := sessionChanged_of_purge (q := q) hkeys remote hpurge
  by_cases hlock : Locked r id remote.id
  · exact .inl ⟨hlock, hlocked hlock⟩
  · right
    obtain ⟨r₂, hr₂, hchanged⟩ := hloop hlock
    refine ⟨hlock, _, hchanged, ?_⟩
    have hkeeps₀ := keepsTables_propagateNodeInfo r remote true
    obtain ⟨r₁, hr₁⟩ : ∃ r₁, (r.propagateNodeInfo remote true).setInfoBase ib = r₁ := ⟨_, rfl⟩
    have hib₁ : r₁.infoBase = ib := by
      rw [← hr₁]
      rfl
    have hlive₁ : r₁.live = r.live := by
      rw [← hr₁]
      exact hkeeps₀.live
    have hsets₁ : ∀ id' hash, r₁.nodeSetAt id' hash = r.nodeSetAt id' hash := by
      intro id' hash
      rw [← hr₁]
      exact nodeSetAt_of_keepsTables hkeeps₀ id' hash
    have hsubs : r₁.infoBase.subscribes = r.infoBase.subscribes := by rw [hib₁, hib]
    have hclient : r₁.infoBase.clientFib = r.infoBase.clientFib := by rw [hib₁, hib]
    have hkeys₁ : OwnKeys r₁ := hkeys.congr hsubs
    rw [hr₁] at hr₂
    obtain ⟨hroutes, -, hfib⟩ := withdrawNode_spec (q := q) (r := r₁)
      (by rw [hlive₁]; exact hlive) hkeys₁ remote.id
    have hkeys₂ := hkeys₁.withdrawNode (q := q) id remote.id
    rw [hr₂] at hroutes hkeys₂
    simp only [hr₂] at hfib
    have hdrops : ∀ hash, r.dropsEntry id remote.id hash =
        ((r.infoBase.subscribes.get₂? hash remote.id).isSome && r₁.emptiedBy hash remote.id) := by
      intro hash
      unfold dropsEntry bestWithout emptiedBy Relay.bestSession
      rw [hpurge, Option.bind_some, hib₁, hlive₁]
      simp only [hsets₁]
    have hfib₂ : r₂.infoBase.peerFib = r₁.infoBase.peerFib :=
      congrArg (fun infos => infos.2.2.2) hroutes.info
    have htorn : Torn r id remote.id r₂ := by
      refine ⟨fun id' _ => by rw [hroutes.live, hlive₁], ?_, fun hash id' => ?_, ?_,
        fun n s hs => ?_, hkeys₂⟩
      · rw [hfib₂, hib₁, hib]
      · rw [hfib, hclient]
        refine if_congr ?_ rfl rfl
        rw [hsubs, hdrops, Bool.and_eq_true]
      · exact nodeTables_of_keepsRoutes hroutes (by rw [hib₁]; exact htables')
      · have hsame : r₂.infoBase.nodes = r₁.infoBase.nodes := congrArg Prod.fst hroutes.info
        rw [hsame, hib₁] at hs
        exact (hdropped.contains_all (htables.mem_nodesOf id) n s).mp hs
    split
    · exact htorn
    · exact ⟨htorn.live, htorn.peerFib, htorn.clientFib,
        nodeTables_of_keepsRoutes (keeps_setInfoBase rfl) htorn.tables, htorn.nodes, htorn.keys⟩

/-- The session of a lost transport: it is kept when this relay has opened it, and dropped
otherwise. -/
theorem sessionLost_cases (htables : r.infoBase.NodeTables) (halive : r.infoBase.Alive r.live)
    (hkeys : OwnKeys r) {session : PeerSession} (hget : r.getPeerSession id = some session) :
    (Locked r id session.remoteNodeInfo.id ∧ r.sessionLost q id = none) ∨
    (¬ Locked r id session.remoteNodeInfo.id ∧ ∃ r', r.sessionLost q id = some r' ∧
      Torn r id session.remoteNodeInfo.id r') := by
  have hlive : r.live id = true := by simp [Relay.live, hget]
  unfold sessionLost
  cases hserver : r.serverPeerSessions[id]? with
  | some session' =>
    have hsession : session' = session := by
      rw [getPeerSession, hserver] at hget
      exact Option.some.inj hget
    subst hsession
    dsimp only
    rcases sessionChanged_cases (q := q) htables halive hkeys hlive session'.remoteNodeInfo with
      ⟨hlock, hnone⟩ | ⟨hlock, r', hr', htorn⟩
    · left
      rw [hnone]
      exact ⟨hlock, rfl⟩
    · right
      rw [hr']
      refine ⟨hlock, _, rfl, fun id' hne => ?_, htorn.peerFib, htorn.clientFib, htorn.tables,
        htorn.nodes, htorn.keys⟩
      rw [← htorn.live id' hne]
      unfold Relay.live getPeerSession
      dsimp only
      rw [ExtTreeMap.getElem?_erase_ite, if_neg hne]
  | none =>
    have hclient : r.clientPeerSessions[id]? = some session := by
      rw [getPeerSession, hserver] at hget
      exact hget
    dsimp only
    rw [hclient]
    dsimp only
    obtain ⟨r₀, hr₀⟩ : ∃ r₀, r.setPeerSession id { session with status := .disconnected } = r₀ :=
      ⟨_, rfl⟩
    have hib : r₀.infoBase = r.infoBase := by rw [← hr₀, infoBase_setPeerSession]
    have hlive₀ : r₀.live = r.live := by rw [← hr₀, live_setPeerSession hget]
    have hsets : ∀ id' hash, r₀.nodeSetAt id' hash = r.nodeSetAt id' hash := by
      intro id' hash
      rw [← hr₀, nodeSetAt_setPeerSession hget]
      split
      · rename_i hid
        rw [hid, nodeSetAt, hget, Option.bind_some]
      · rfl
    have hlocked : Locked r₀ id session.remoteNodeInfo.id ↔
        Locked r id session.remoteNodeInfo.id := by
      unfold Locked
      rw [hib]
    have hdrops : ∀ hash, r₀.dropsEntry id session.remoteNodeInfo.id hash =
        r.dropsEntry id session.remoteNodeInfo.id hash := by
      intro hash
      unfold dropsEntry bestWithout
      rw [hib, hlive₀]
      simp only [hsets]
    rw [hr₀]
    rcases sessionChanged_cases (q := q) (r := r₀) (by rw [hib]; exact htables)
        (by rw [hib, hlive₀]; exact halive) (hkeys.congr (by rw [hib]))
        (by rw [hlive₀]; exact hlive) session.remoteNodeInfo with ⟨hlock, hnone⟩ | ⟨hlock, r', hr', htorn⟩
    · exact .inl ⟨hlocked.mp hlock, hnone⟩
    · refine .inr ⟨fun h => hlock (hlocked.mpr h), r', hr', ?_, ?_, ?_, htorn.tables, ?_,
        htorn.keys⟩
      · rw [← hlive₀]
        exact htorn.live
      · rw [← hib]
        exact htorn.peerFib
      · intro hash id'
        rw [htorn.clientFib, hdrops, hib]
      · rw [← hib]
        exact htorn.nodes

end SessionChanged

/-! ### References that are left -/

/-- No forwarding entry refers to the session. -/
structure NoReference (r : Relay) (id : PeerSessionId) : Prop where
  ingress : ∀ (key : PeerSessionId × SubscribeNodeSetId) row,
    r.infoBase.peerFib[key]? = some row → key.1 ≠ id
  egress : ∀ (key : PeerSessionId × SubscribeNodeSetId) (row : ExtTreeMap PeerSessionId FibEntry),
    r.infoBase.peerFib[key]? = some row → row.contains id = false
  client : ∀ (hash : UInt64) id' (entry : FibEntry),
    r.infoBase.clientFib[(hash, id')]? = some entry →
    id' ≠ id ∧ entry.peerSession ≠ some id

/-- No node set of another session goes out on the lost one, and no track of a client does, unless
its entry is dropped with the subscription of the lost node. -/
structure CleanLoss (r : Relay) (id : PeerSessionId) (node : NodeIdValueType) : Prop where
  egress : ∀ (key : PeerSessionId × SubscribeNodeSetId) (row : ExtTreeMap PeerSessionId FibEntry),
    r.infoBase.peerFib[key]? = some row → key.1 ≠ id → row.contains id = false
  client : ∀ (hash : UInt64) id' (entry : FibEntry),
    r.infoBase.clientFib[(hash, id')]? = some entry →
    id' = id ∨ entry.peerSession = some id → id' = id ∧ r.dropsEntry id node hash = true

section References

variable {r r' : Relay} {id : PeerSessionId} {node : NodeIdValueType}

theorem CleanLoss.not_locked (h : CleanLoss r id node) : ¬ Locked r id node := by
  rintro ⟨hash, _, _, -, hnone, hcontains⟩
  obtain ⟨entry, hentry⟩ := ExtTreeMap.contains_iff_getElem?.mp hcontains
  have hdrops := (h.client hash id entry hentry (.inl rfl)).2
  rw [dropsEntry, hnone] at hdrops
  cases hdrops

theorem Torn.peerFib_eq_some (h : Torn r id node r')
    {key : PeerSessionId × SubscribeNodeSetId} {row : ExtTreeMap PeerSessionId FibEntry compare} :
    r'.infoBase.peerFib[key]? = some row ↔
      r.infoBase.peerFib[key]? = some row ∧ key.1 ≠ id := by
  rw [h.peerFib, ExtTreeMap.getElem?_filter]
  simp [Option.filter_eq_some_iff]

theorem Torn.noReference_iff (h : Torn r id node r') :
    NoReference r' id ↔ CleanLoss r id node := by
  have hclient : ∀ hash id' entry, r'.infoBase.clientFib[(hash, id')]? = some entry ↔
      r.infoBase.clientFib[(hash, id')]? = some entry ∧
        ¬ (id' = id ∧ r.dropsEntry id node hash = true) := by
    intro hash id' entry
    rw [h.clientFib]
    split
    · rename_i hdrops
      simp [hdrops]
    · rename_i hdrops
      simp [hdrops]
  constructor
  · intro hno
    refine ⟨fun key row hrow hne => hno.egress key row (h.peerFib_eq_some.mpr ⟨hrow, hne⟩),
      fun hash id' entry hentry hrefers => ?_⟩
    by_contra hdrops
    obtain ⟨hid, hpeer⟩ := hno.client hash id' entry ((hclient hash id' entry).mpr ⟨hentry, hdrops⟩)
    rcases hrefers with hrefers | hrefers
    · exact hid hrefers
    · exact hpeer hrefers
  · intro hclean
    refine ⟨fun key row hrow => (h.peerFib_eq_some.mp hrow).2, fun key row hrow => ?_,
      fun hash id' entry hentry => ?_⟩
    · obtain ⟨hrow, hne⟩ := h.peerFib_eq_some.mp hrow
      exact hclean.egress key row hrow hne
    · obtain ⟨hentry, hdrops⟩ := (hclient hash id' entry).mp hentry
      constructor
      · intro hid
        exact hdrops (hclean.client hash id' entry hentry (.inl hid))
      · intro hpeer
        exact hdrops (hclean.client hash id' entry hentry (.inr hpeer))

end References

/-! ### Egress sessions that are there -/

/-- The entries of a row lead to sessions that are there; the egress 0 is this relay. -/
def AliveRow (live : PeerSessionId → Bool) (row : ExtTreeMap PeerSessionId FibEntry) : Prop :=
  ∀ egress (entry : FibEntry), row[egress]? = some entry → egress ≠ 0 →
    entry.peerSession = some egress ∧ live egress = true

def EgressAlive (r : Relay) : Prop :=
  ∀ (key : PeerSessionId × SubscribeNodeSetId) row,
    r.infoBase.peerFib[key]? = some row → AliveRow r.live row

section Egress

variable {q : Quicr} {r : Relay} {live : PeerSessionId → Bool}

theorem AliveRow.insert {row : ExtTreeMap PeerSessionId FibEntry compare} (h : AliveRow live row)
    {egress : PeerSessionId} {entry : FibEntry}
    (hentry : egress ≠ 0 → entry.peerSession = some egress ∧ live egress = true) :
    AliveRow live (row.insert egress entry) := by
  intro egress' entry' hget
  rw [ExtTreeMap.getElem?_insert_ite] at hget
  split at hget
  · rename_i hegress
    cases hget
    rw [hegress]
    exact hentry
  · exact h egress' entry' hget

theorem sameRoutes_snsNode (ingress : PeerSessionId) (snsId : SubscribeNodeSetId)
    (updateRef : UInt64) (acc : Relay × ExtTreeMap PeerSessionId FibEntry)
    (node : NodeIdValueType) : SameRoutes acc.1 (snsNode q ingress snsId updateRef acc node).1 := by
  obtain ⟨r, row⟩ := acc
  unfold snsNode
  dsimp only
  split
  · exact .refl r
  · split
    · exact .refl r
    · rename_i best session hlock
      exact sameRoutes_setPeerSession (lockSession_eq_some.mp hlock).2 _

theorem sameRoutes_snsNodes (ingress : PeerSessionId) (snsId : SubscribeNodeSetId)
    (updateRef : UInt64) (nodes : List NodeIdValueType)
    (acc : Relay × ExtTreeMap PeerSessionId FibEntry) :
    SameRoutes acc.1 (nodes.foldl (snsNode q ingress snsId updateRef) acc).1 :=
  foldl_related (R := fun acc acc' : Relay × ExtTreeMap PeerSessionId FibEntry =>
      SameRoutes acc.1 acc'.1) (fun acc => SameRoutes.refl acc.1) SameRoutes.trans
    (sameRoutes_snsNode ingress snsId updateRef) acc nodes

theorem aliveRow_snsNode (ingress : PeerSessionId) (snsId : SubscribeNodeSetId)
    (updateRef : UInt64) (acc : Relay × ExtTreeMap PeerSessionId FibEntry)
    (h : AliveRow acc.1.live acc.2) (node : NodeIdValueType) :
    AliveRow (snsNode q ingress snsId updateRef acc node).1.live
      (snsNode q ingress snsId updateRef acc node).2 := by
  rw [(sameRoutes_snsNode (q := q) ingress snsId updateRef acc node).live]
  obtain ⟨r, row⟩ := acc
  unfold snsNode
  dsimp only
  split
  · exact h.insert fun hzero => absurd rfl hzero
  · split
    · exact h
    · rename_i best session hlock
      obtain ⟨-, hget⟩ := lockSession_eq_some.mp hlock
      have hlive : r.live best = true := by simp [Relay.live, hget]
      exact AliveRow.insert h fun _ => ⟨rfl, hlive⟩

theorem aliveRow_foldl (ingress : PeerSessionId) (snsId : SubscribeNodeSetId)
    (updateRef : UInt64) (nodes : List NodeIdValueType)
    (acc : Relay × ExtTreeMap PeerSessionId FibEntry) (h : AliveRow acc.1.live acc.2) :
    AliveRow (nodes.foldl (snsNode q ingress snsId updateRef) acc).1.live
      (nodes.foldl (snsNode q ingress snsId updateRef) acc).2 := by
  induction nodes generalizing acc with
  | nil => exact h
  | cons node nodes ih => exact ih _ (aliveRow_snsNode ingress snsId updateRef acc h node)

/-- Only the table of the other relays' node sets and the sessions' own node sets change. -/
structure OnlyPeerFib (r r' : Relay) : Prop where
  live : r'.live = r.live
  infoBase : ∃ peerFib, r'.infoBase = { r.infoBase with peerFib }

theorem onlyPeerFib_setPeerFib {r₁ : Relay} (hsame : SameRoutes r r₁)
    (f : ExtTreeMap (PeerSessionId × SubscribeNodeSetId) (ExtTreeMap PeerSessionId FibEntry) →
      ExtTreeMap (PeerSessionId × SubscribeNodeSetId) (ExtTreeMap PeerSessionId FibEntry)) :
    OnlyPeerFib r (r₁.setPeerFib f) :=
  ⟨hsame.live, _, by rw [← hsame.infoBase]; rfl⟩

theorem sameRoutes_withdrawEgress {ingress : PeerSessionId} {snsId : SubscribeNodeSetId}
    {entries : List (PeerSessionId × FibEntry)} {r' : Relay}
    (h : entries.foldlM (withdrawEgress ingress snsId) r = some r') : SameRoutes r r' := by
  induction entries generalizing r with
  | nil =>
    cases h
    exact .refl _
  | cons entry entries ih =>
    rw [List.foldlM_cons] at h
    obtain ⟨r₁, hr₁, h⟩ := Option.bind_eq_some_iff.mp h
    have hfirst : SameRoutes r r₁ := by
      unfold withdrawEgress at hr₁
      split at hr₁
      · cases hr₁
        exact .refl r
      · split at hr₁
        · cases hr₁
        · rename_i egress session hlock
          cases hr₁
          exact sameRoutes_setPeerSession (lockSession_eq_some.mp hlock).2 _
    exact hfirst.trans (ih h)

/-- Node sets of other relays, whatever comes of them. -/
theorem onlyPeerFib_snsReceived {ingress : PeerSessionId} {sns : SubscribeNodeSet}
    {withdraw : Bool} {updateRef : UInt64} {r' : Relay}
    (h : r.snsReceived q ingress sns withdraw updateRef = some r') : OnlyPeerFib r r' := by
  unfold Relay.snsReceived at h
  dsimp only at h
  cases withdraw with
  | true =>
    rw [if_pos rfl] at h
    split at h
    · cases h
      exact ⟨rfl, _, rfl⟩
    · obtain ⟨r₁, hr₁, h⟩ := Option.bind_eq_some_iff.mp h
      cases h
      exact onlyPeerFib_setPeerFib (sameRoutes_withdrawEgress hr₁) _
  | false =>
    rw [if_neg (by simp)] at h
    split at h
    · cases h
      exact onlyPeerFib_setPeerFib (sameRoutes_snsNodes ingress sns.id updateRef _ (r, ∅)) _
    · rename_i row _
      cases h
      refine onlyPeerFib_setPeerFib ?_ _
      have hsame := sameRoutes_snsNodes (q := q) ingress sns.id updateRef sns.nodes.toList (r, row)
      exact hsame.trans (dropEgress_foldl sns.id updateRef _ _).1

theorem onlyPeerFib_forwardPeerData {createStream : CreateStream} {ingress : PeerSessionId}
    {chunk : PeerChunk} {r' : Relay} {out : List Forwarded}
    (h : r.forwardPeerData createStream ingress chunk = some (r', out)) : OnlyPeerFib r r' := by
  unfold Relay.forwardPeerData at h
  split at h
  · cases h
    exact ⟨rfl, _, rfl⟩
  · obtain ⟨loop, -, h⟩ := Option.bind_eq_some_iff.mp h
    cases h
    exact onlyPeerFib_setPeerFib (.refl r) _

theorem EgressAlive.setRow (h : EgressAlive r) {r₁ : Relay} (hsame : SameRoutes r r₁)
    (key : PeerSessionId × SubscribeNodeSetId) {row : ExtTreeMap PeerSessionId FibEntry compare}
    (hrow : AliveRow r₁.live row) :
    EgressAlive (r₁.setPeerFib fun fib => fib.insert key row) := by
  intro key' row' hget
  rw [peerFib_setPeerFib] at hget
  split at hget
  · cases hget
    exact hrow
  · rw [hsame.infoBase] at hget
    show AliveRow r₁.live row'
    rw [hsame.live]
    exact h key' row' hget

theorem EgressAlive.snsReceived (h : EgressAlive r) (ingress : PeerSessionId)
    (sns : SubscribeNodeSet) (withdraw : Bool) (updateRef : UInt64) :
    ∃ r', r.snsReceived q ingress sns withdraw updateRef = some r' ∧ EgressAlive r' := by
  unfold Relay.snsReceived
  dsimp only
  cases withdraw with
  | true =>
    rw [if_pos rfl]
    split
    · exact ⟨r, rfl, h⟩
    · rename_i row hrow
      obtain ⟨r₁, hr₁, hsame, -⟩ := withdrawEgress_foldlM ingress sns.id r row.toList
        fun entry hentry => h _ row hrow entry.1 entry.2
          (ExtTreeMap.mem_toList_iff_getElem?_eq_some.mp hentry)
      rw [hr₁]
      refine ⟨_, rfl, fun key row' hget => ?_⟩
      change (r₁.infoBase.peerFib.erase (ingress, sns.id))[key]? = some row' at hget
      rw [ExtTreeMap.getElem?_erase_ite] at hget
      split at hget
      · cases hget
      · rw [hsame.infoBase] at hget
        show AliveRow r₁.live row'
        rw [hsame.live]
        exact h key row' hget
  | false =>
    rw [if_neg (by simp)]
    split
    · have hsame := sameRoutes_snsNodes (q := q) ingress sns.id updateRef sns.nodes.toList (r, ∅)
      have hrow := aliveRow_foldl (q := q) ingress sns.id updateRef sns.nodes.toList
        (r, ∅) fun egress entry hget => by simp at hget
      exact ⟨_, rfl, h.setRow hsame _ hrow⟩
    · rename_i row hrow
      have hsame := sameRoutes_snsNodes (q := q) ingress sns.id updateRef sns.nodes.toList (r, row)
      have hrow' := aliveRow_foldl (q := q) ingress sns.id updateRef sns.nodes.toList
        (r, row) (h _ row hrow)
      generalize sns.nodes.toList.foldl (snsNode q ingress sns.id updateRef) (r, row) = acc
        at hsame hrow' ⊢
      obtain ⟨hdrop, -⟩ := dropEgress_foldl sns.id updateRef acc.1 (acc.2.toList.map Prod.snd)
      refine ⟨_, rfl, h.setRow (hsame.trans hdrop) _ fun egress entry hget => ?_⟩
      rw [ExtTreeMap.getElem?_filter', Option.filter_eq_some_iff] at hget
      rw [hdrop.live]
      exact hrow' egress entry hget.1

theorem forwardEntry_spec (createStream : CreateStream) (ingress : PeerSessionId)
    (chunk : PeerChunk) (data : List UInt8) {egress : PeerSessionId} {entry : FibEntry}
    (hentry : egress ≠ 0 → entry.peerSession = some egress ∧ r.live egress = true) :
    ∃ entry' data' out,
      r.forwardEntry createStream ingress chunk data egress entry = some (entry', data', out) ∧
        entry'.peerSession = entry.peerSession := by
  unfold forwardEntry
  split
  · exact ⟨_, _, _, rfl, rfl⟩
  · split
    · exact ⟨_, _, _, rfl, rfl⟩
    · rename_i hzero
      obtain ⟨hpeer, hlive⟩ := hentry hzero
      obtain ⟨session, hget⟩ := Option.isSome_iff_exists.mp hlive
      have hlock : r.lockSession entry.peerSession = some (egress, session) :=
        lockSession_eq_some.mpr ⟨hpeer, hget⟩
      have hsend : ∀ streamId data, ∃ out, r.forwardToSession chunk entry streamId data =
          some out := by
        intro streamId data
        unfold forwardToSession
        rw [hlock]
        exact ⟨_, rfl⟩
      dsimp only
      generalize (if chunk.isNewStream || !chunk.useReliable then writeSnsId entry.outSnsId data
        else data) = data
      split
      · obtain ⟨out, hout⟩ := hsend 0 data
        rw [hout]
        exact ⟨_, _, _, rfl, rfl⟩
      · split
        · rename_i streamId _
          obtain ⟨out, hout⟩ := hsend streamId data
          rw [hout]
          exact ⟨_, _, _, rfl, rfl⟩
        · split
          · exact ⟨_, _, _, rfl, rfl⟩
          · rw [hlock]
            obtain ⟨out, hout⟩ := hsend (createStream egress entry.outSnsId) data
            simp only [Option.bind_eq_bind, Option.bind_some, hout]
            exact ⟨_, _, _, rfl, rfl⟩

theorem forwardLoop_spec (createStream : CreateStream) (ingress : PeerSessionId)
    (chunk : PeerChunk) (entries : List (PeerSessionId × FibEntry))
    (row : ExtTreeMap PeerSessionId FibEntry compare) (data : List UInt8)
    (hentries : ∀ entry ∈ entries, entry.1 ≠ 0 → entry.2.peerSession = some entry.1 ∧
      r.live entry.1 = true) (hrow : AliveRow r.live row) :
    ∃ row' out, r.forwardLoop createStream ingress chunk entries row data = some (row', out) ∧
      AliveRow r.live row' := by
  induction entries generalizing row data with
  | nil => exact ⟨row, [], rfl, hrow⟩
  | cons entry entries ih =>
    obtain ⟨egress, entry⟩ := entry
    have hentry := hentries _ List.mem_cons_self
    obtain ⟨entry', data', out, hout, hpeer⟩ := forwardEntry_spec createStream ingress chunk data
      hentry
    obtain ⟨row', rest, hrest, hrow'⟩ := ih (row.insert egress entry') data'
      (fun e he => hentries e (List.mem_cons_of_mem _ he))
      (hrow.insert (by rw [hpeer]; exact hentry))
    unfold forwardLoop
    simp only [hout, Option.bind_eq_bind, Option.bind_some, hrest]
    exact ⟨_, _, rfl, hrow'⟩

theorem EgressAlive.forwardPeerData (h : EgressAlive r) (createStream : CreateStream)
    (ingress : PeerSessionId) (chunk : PeerChunk) :
    ∃ r' out, r.forwardPeerData createStream ingress chunk = some (r', out) ∧ EgressAlive r' := by
  unfold Relay.forwardPeerData
  split
  · exact ⟨r, [], rfl, h⟩
  · rename_i row hrow
    obtain ⟨row', out, hout, hrow'⟩ := forwardLoop_spec createStream ingress chunk row.toList row
      chunk.data (fun entry hentry => h _ row hrow entry.1 entry.2
        (ExtTreeMap.mem_toList_iff_getElem?_eq_some.mp hentry)) (h _ row hrow)
    rw [hout]
    exact ⟨_, out, rfl, h.setRow (.refl r) _ hrow'⟩

end Egress

/-! ### Runs -/

inductive LossCall where
  | subscribeInfo (id : PeerSessionId) (si : SubscribeInfo) (withdraw : Bool)
  | announce (full : FullTrackName) (withdraw publishNamespace : Bool)
  | publish (conn : ConnectionHandle) (req : RequestId) (full : FullTrackName)
  | publishNamespace (conn : ConnectionHandle) (nameSpace : TrackNamespace) (req : RequestId)
  | sns (ingress : PeerSessionId) (sns : SubscribeNodeSet) (withdraw : Bool) (updateRef : UInt64)
  | node (id : PeerSessionId) (info : NodeInfo) (withdraw : Bool)
  | peerData (createStream : CreateStream) (ingress : PeerSessionId) (chunk : PeerChunk)
  | lost (id : PeerSessionId)

/-- The session that is lost tells `sessionChanged` of it. -/
def lossCall (q : Quicr) (r : Relay) : LossCall → Option Relay
  | .subscribeInfo id si withdraw => some (r.subscribeInfoReceived q id si withdraw)
  | .announce full withdraw publishNamespace =>
    some (r.clientAnnounce q full withdraw publishNamespace)
  | .publish conn req full => some (r.publishReceived q conn req full)
  | .publishNamespace conn nameSpace req =>
    some (r.publishNamespaceReceived q conn nameSpace req)
  | .sns ingress sns withdraw updateRef => r.snsReceived q ingress sns withdraw updateRef
  | .node id info withdraw => r.nodeReceived id info withdraw
  | .peerData createStream ingress chunk =>
    (r.forwardPeerData createStream ingress chunk).map Prod.fst
  | .lost id => r.sessionLost q id

def lossCalls (q : Quicr) (r : Relay) (calls : List LossCall) : Option Relay :=
  calls.foldlM (lossCall q) r

/-- A session that is lost takes all its entries along. -/
def CleanLossCall (r : Relay) : LossCall → Prop
  | .lost id => ∀ session, r.getPeerSession id = some session →
    CleanLoss r id session.remoteNodeInfo.id
  | _ => True

/-- After the loss of a session nothing refers to it. -/
def Cleared (r r' : Relay) : LossCall → Prop
  | .lost id => r.live id = true → NoReference r' id
  | _ => True

/-- The sessions that data and node sets of other relays go out on are there, whatever comes. -/
structure EgressFound (q : Quicr) (r : Relay) : Prop where
  data : ∀ createStream ingress chunk,
    (r.forwardPeerData createStream ingress chunk).isSome = true
  sns : ∀ ingress sns withdraw updateRef,
    (r.snsReceived q ingress sns withdraw updateRef).isSome = true

/-- The tables are consistent. -/
structure LossTables (r : Relay) : Prop where
  tables : r.infoBase.NodeTables
  alive : r.infoBase.Alive r.live
  keys : OwnKeys r

/-- What the runs keep. -/
structure LossInv (r : Relay) : Prop where
  tables : r.infoBase.NodeTables
  alive : r.infoBase.Alive r.live
  keys : OwnKeys r
  egress : EgressAlive r

section Runs

variable {q : Quicr} {r r' : Relay}

theorem LossInv.found (h : LossInv r) : EgressFound q r := by
  constructor
  · intro createStream ingress chunk
    obtain ⟨r', out, hr', -⟩ := h.egress.forwardPeerData createStream ingress chunk
    rw [hr']
    rfl
  · intro ingress sns withdraw updateRef
    obtain ⟨r', hr', -⟩ := h.egress.snsReceived (q := q) ingress sns withdraw updateRef
    rw [hr']
    rfl

theorem keepsRoutes_subscribeInfoReceived (q : Quicr) (r : Relay) (id : PeerSessionId)
    (si : SubscribeInfo) (withdraw : Bool) :
    KeepsRoutes r (r.subscribeInfoReceived q id si withdraw) :=
  keeps_subscribeInfoReceived (fun _ _ => rfl) (fun _ _ => rfl) blind_routeView q r id si withdraw

/-- A join leaves the routes alone. -/
theorem JoinsSet.keepsRoutes {r₁ r₂ : Relay} {hash : UInt64} {node : NodeIdValueType}
    {best : PeerSessionId} (hjoins : JoinsSet q hash node best best r₁ r₂) (h : KeepsRoutes r r₁) :
    KeepsRoutes r r₂ :=
  h.trans hjoins.routes

theorem keepsRoutes_clientAnnounce (q : Quicr) (r : Relay) (full : FullTrackName)
    (withdraw publishNamespace : Bool) :
    KeepsRoutes r (r.clientAnnounce q full withdraw publishNamespace) :=
  clientAnnounce_preserves (fun hkeeps h => h.trans hkeeps.keepsRoutes)
    (fun _ hjoins => hjoins.keepsRoutes) full withdraw publishNamespace (.refl r)

theorem keepsRoutes_publishReceived (q : Quicr) (r : Relay) (conn : ConnectionHandle)
    (req : RequestId) (full : FullTrackName) :
    KeepsRoutes r (r.publishReceived q conn req full) :=
  publishReceived_preserves (fun hkeeps h => h.trans hkeeps.keepsRoutes)
    (fun _ hjoins => hjoins.keepsRoutes) conn req full (.refl r)

theorem keepsRoutes_publishNamespaceReceived (q : Quicr) (r : Relay) (conn : ConnectionHandle)
    (nameSpace : TrackNamespace) (req : RequestId) :
    KeepsRoutes r (r.publishNamespaceReceived q conn nameSpace req) :=
  publishNamespaceReceived_preserves (fun hkeeps h => h.trans hkeeps.keepsRoutes)
    (fun _ hjoins => hjoins.keepsRoutes) conn nameSpace req (.refl r)

theorem LossTables.keeps (h : LossTables r) (hkeeps : KeepsRoutes r r') (hkeys : OwnKeys r') :
    LossTables r' :=
  ⟨nodeTables_of_keepsRoutes hkeeps h.tables, alive_of_keepsRoutes hkeeps h.alive, hkeys⟩

theorem LossTables.onlyPeerFib (h : LossTables r) (honly : OnlyPeerFib r r') : LossTables r' := by
  obtain ⟨hlive, peerFib, hib⟩ := honly
  refine ⟨?_, ?_, h.keys.congr (by rw [hib])⟩
  · rw [hib]
    exact ⟨h.tables.item, h.tables.chosen, h.tables.byPeerSession, h.tables.nonempty⟩
  · rw [hib, hlive]
    exact h.alive

theorem LossTables.torn (h : LossTables r) {id : PeerSessionId} {node : NodeIdValueType}
    (htorn : Torn r id node r') : LossTables r' := by
  refine ⟨htorn.tables, fun n s hs => ?_, htorn.keys⟩
  obtain ⟨hne, hs⟩ := htorn.nodes n s hs
  rw [htorn.live s hne]
  exact h.alive n s hs

/-- A session that is not there is lost. -/
theorem sessionLost_of_none {id : PeerSessionId} (hget : r.getPeerSession id = none) :
    r.sessionLost q id = some r := by
  unfold sessionLost
  cases hserver : r.serverPeerSessions[id]? with
  | some session =>
    rw [getPeerSession, hserver] at hget
    cases hget
  | none =>
    have hclient : r.clientPeerSessions[id]? = none := by
      rw [getPeerSession, hserver] at hget
      exact hget
    dsimp only
    rw [hclient]

/-- Every call that comes to an end keeps the tables, whatever is lost. -/
theorem LossTables.lossCall (h : LossTables r) {call : LossCall}
    (hcall : lossCall q r call = some r') : LossTables r' := by
  cases call with
  | subscribeInfo id si withdraw =>
    cases hcall
    exact h.keeps (keepsRoutes_subscribeInfoReceived q r id si withdraw)
      (h.keys.subscribeInfoReceived id si withdraw)
  | announce full withdraw publishNamespace =>
    cases hcall
    exact h.keeps (keepsRoutes_clientAnnounce q r full withdraw publishNamespace)
      (h.keys.congr (sameInterest_clientAnnounce q r full withdraw publishNamespace).infos)
  | publish conn req full =>
    cases hcall
    exact h.keeps (keepsRoutes_publishReceived q r conn req full)
      (h.keys.congr (sameInterest_publishReceived q r conn req full).infos)
  | publishNamespace conn nameSpace req =>
    cases hcall
    exact h.keeps (keepsRoutes_publishNamespaceReceived q r conn nameSpace req)
      (h.keys.congr (sameInterest_publishNamespaceReceived q r conn nameSpace req).infos)
  | sns ingress sns withdraw updateRef => exact h.onlyPeerFib (onlyPeerFib_snsReceived hcall)
  | node id info withdraw =>
    obtain ⟨r₁, hr₁, htables, halive, hkeeps⟩ :=
      nodeReceived_spec h.tables h.alive id info withdraw
    obtain rfl := Option.some.inj (hr₁.symm.trans hcall)
    exact ⟨htables, halive, h.keys.congr (congrArg (fun infos => infos.2.2) hkeeps.info)⟩
  | peerData createStream ingress chunk =>
    obtain ⟨⟨r₁, out⟩, hr₁, rfl⟩ := Option.map_eq_some_iff.mp hcall
    exact h.onlyPeerFib (onlyPeerFib_forwardPeerData hr₁)
  | lost id =>
    change r.sessionLost q id = some r' at hcall
    cases hget : r.getPeerSession id with
    | none =>
      rw [sessionLost_of_none hget] at hcall
      cases hcall
      exact h
    | some session =>
      rcases sessionLost_cases (q := q) h.tables h.alive h.keys hget with
        ⟨-, hnone⟩ | ⟨-, r₁, hr₁, htorn⟩
      · rw [hnone] at hcall
        cases hcall
      · obtain rfl := Option.some.inj (hr₁.symm.trans hcall)
        exact h.torn htorn

theorem LossTables.lossCalls (h : LossTables r) {calls : List LossCall}
    (hcalls : lossCalls q r calls = some r') : LossTables r' := by
  induction calls generalizing r with
  | nil =>
    cases hcalls
    exact h
  | cons call calls ih =>
    obtain ⟨r₁, hr₁, hcalls⟩ := Option.bind_eq_some_iff.mp hcalls
    exact ih (h.lossCall hr₁) hcalls

theorem LossInv.lossTables (h : LossInv r) : LossTables r := ⟨h.tables, h.alive, h.keys⟩

theorem LossTables.lossInv (h : LossTables r) (hegress : EgressAlive r) : LossInv r :=
  ⟨h.tables, h.alive, h.keys, hegress⟩

theorem EgressAlive.congr (h : EgressAlive r) (hfib : r'.infoBase.peerFib = r.infoBase.peerFib)
    (hlive : r'.live = r.live) : EgressAlive r' := by
  intro key row hrow
  rw [hfib] at hrow
  rw [hlive]
  exact h key row hrow

theorem EgressAlive.keeps (h : EgressAlive r) (hkeeps : KeepsRoutes r r') : EgressAlive r' :=
  h.congr (congrArg (fun infos => infos.2.2.2) hkeeps.info) hkeeps.live

theorem EgressAlive.torn (h : EgressAlive r) {id : PeerSessionId} {node : NodeIdValueType}
    (htorn : Torn r id node r') (hno : NoReference r' id) : EgressAlive r' := by
  intro key row hrow egress entry hget hzero
  have hne : egress ≠ id := by
    rintro rfl
    have hcontains := hno.egress key row hrow
    rw [ExtTreeMap.contains_iff_getElem?.mpr ⟨entry, hget⟩] at hcontains
    cases hcontains
  obtain ⟨hpeer, hlive⟩ := h key row (htorn.peerFib_eq_some.mp hrow).1 egress entry hget hzero
  exact ⟨hpeer, (htorn.live egress hne).trans hlive⟩

/-- One call, when the tables are right before it. -/
theorem lossInv_lossCall (h : LossInv r) (call : LossCall) :
    (CleanLossCall r call → ∃ r', lossCall q r call = some r' ∧ LossInv r' ∧ Cleared r r' call) ∧
    ∀ r', lossCall q r call = some r' → Cleared r r' call → CleanLossCall r call := by
  have hsafe : ∀ r', (∀ id, call ≠ .lost id) → lossCall q r call = some r' → EgressAlive r' →
      (CleanLossCall r call → ∃ r', lossCall q r call = some r' ∧ LossInv r' ∧
        Cleared r r' call) ∧
      ∀ r', lossCall q r call = some r' → Cleared r r' call → CleanLossCall r call := by
    intro r' hother hcall hegress
    have hinv := (h.lossTables.lossCall hcall).lossInv hegress
    cases call with
    | lost id => exact absurd rfl (hother id)
    | _ => exact ⟨fun _ => ⟨r', hcall, hinv, trivial⟩, fun _ _ _ => trivial⟩
  cases call with
  | subscribeInfo id si withdraw =>
    exact hsafe _ (by simp) rfl
      (h.egress.keeps (keepsRoutes_subscribeInfoReceived q r id si withdraw))
  | announce full withdraw publishNamespace =>
    exact hsafe _ (by simp) rfl
      (h.egress.keeps (keepsRoutes_clientAnnounce q r full withdraw publishNamespace))
  | publish conn req full =>
    exact hsafe _ (by simp) rfl (h.egress.keeps (keepsRoutes_publishReceived q r conn req full))
  | publishNamespace conn nameSpace req =>
    exact hsafe _ (by simp) rfl
      (h.egress.keeps (keepsRoutes_publishNamespaceReceived q r conn nameSpace req))
  | sns ingress sns withdraw updateRef =>
    obtain ⟨r', hr', hegress⟩ := h.egress.snsReceived (q := q) ingress sns withdraw updateRef
    exact hsafe r' (by simp) hr' hegress
  | node id info withdraw =>
    obtain ⟨r', hr', -, -, hkeeps⟩ := nodeReceived_spec h.tables h.alive id info withdraw
    exact hsafe r' (by simp) hr'
      (h.egress.congr (congrArg (fun infos => infos.2.1) hkeeps.info) hkeeps.live)
  | peerData createStream ingress chunk =>
    obtain ⟨r', out, hr', hegress⟩ := h.egress.forwardPeerData createStream ingress chunk
    refine hsafe r' (by simp) ?_ hegress
    show (r.forwardPeerData createStream ingress chunk).map Prod.fst = some r'
    rw [hr']
    rfl
  | lost id =>
    cases hget : r.getPeerSession id with
    | none =>
      have hnot : r.live id = false := by simp [Relay.live, hget]
      refine ⟨fun _ => ⟨r, sessionLost_of_none hget, h, fun hlive => ?_⟩,
        fun _ _ _ session hsession => ?_⟩
      · rw [hnot] at hlive
        cases hlive
      · rw [hget] at hsession
        cases hsession
    | some session =>
      have hlive : r.live id = true := by simp [Relay.live, hget]
      rcases sessionLost_cases (q := q) h.tables h.alive h.keys hget with
        ⟨hlock, hnone⟩ | ⟨-, r', hr', htorn⟩
      · refine ⟨fun hclean => absurd hlock (hclean session hget).not_locked, fun r' hr' => ?_⟩
        change r.sessionLost q id = some r' at hr'
        rw [hnone] at hr'
        cases hr'
      · refine ⟨fun hclean => ?_, fun r'' hr'' hcleared session' hsession' => ?_⟩
        · have hno := htorn.noReference_iff.mpr (hclean session hget)
          exact ⟨r', hr', (h.lossTables.torn htorn).lossInv (h.egress.torn htorn hno),
            fun _ => hno⟩
        · change r.sessionLost q id = some r'' at hr''
          rw [hr'] at hr''
          cases hr''
          rw [hget] at hsession'
          cases hsession'
          exact htorn.noReference_iff.mp (hcleared hlive)

/-- All losses of a run are clean, in the states that they come in. -/
def CleanLosses (q : Quicr) (r : Relay) (calls : List LossCall) : Prop :=
  ∀ before call, before ++ [call] <+: calls → ∀ r', lossCalls q r before = some r' →
    CleanLossCall r' call

end Runs

/-- A relay with sessions and consistent node tables, that forwards nothing yet. -/
structure FreshTables (r : Relay) : Prop where
  tables : r.infoBase.NodeTables
  alive : r.infoBase.Alive r.live
  subscribes : r.infoBase.subscribes = ∅
  peerFib : r.infoBase.peerFib = ∅
  clientFib : r.infoBase.clientFib = ∅

theorem FreshTables.inv {r : Relay} (h : FreshTables r) : LossInv r := by
  refine ⟨h.tables, h.alive, fun hash node si hget => ?_, fun key row hrow => ?_⟩
  · rw [h.subscribes] at hget
    simp [ExtTreeMap.get₂?] at hget
  · rw [h.peerFib] at hrow
    simp at hrow

/-- Every loss of a session in a run clears its entries, and the egress sessions are found in every
state of the run, if and only if the losses are clean. -/
theorem cleared_iff_cleanLosses (q : Quicr) (r : Relay) (hfresh : FreshTables r)
    (calls : List LossCall) :
    (∀ before, before <+: calls → ∃ r', lossCalls q r before = some r' ∧ EgressFound q r' ∧
      ∀ call, before ++ [call] <+: calls →
        ∃ r'', lossCall q r' call = some r'' ∧ Cleared r' r'' call) ↔ CleanLosses q r calls := by
  refine Runs.reaches_iff (fun r' call hinv hclean => ?_) (fun r' call hinv => ?_)
    (fun r' hinv => hinv.found) hfresh.inv
  · obtain ⟨r'', hr'', hinv', -⟩ := (lossInv_lossCall (q := q) hinv call).1 hclean
    exact ⟨r'', hr'', hinv'⟩
  · constructor
    · rintro ⟨⟨r'', hr'', hcleared⟩, -⟩
      exact (lossInv_lossCall hinv call).2 r'' hr'' hcleared
    · intro hclean
      obtain ⟨r'', hr'', hinv', hcleared⟩ := (lossInv_lossCall (q := q) hinv call).1 hclean
      refine ⟨⟨r'', hr'', hcleared⟩, fun r₁ hr₁ => ?_⟩
      obtain rfl := Option.some.inj (hr''.symm.trans hr₁)
      exact hinv'.found

theorem freshTables_newSessions : FreshTables newSessions :=
  ⟨freshFib_newSessions.tables, freshFib_newSessions.alive, rfl, rfl, rfl⟩

/-- A node set of session 8 goes out on session 7. -/
def splitOnSeven : List LossCall :=
  [.node 7 { id := 2 } false, .publish 5 1 ⟨[[1]], [2]⟩,
    .sns 8 ⟨5, .ofList [(2 : NodeIdValueType)]⟩ false 9]

theorem cleanLosses_splitOnSeven :
    CleanLosses Quicr.numbered newSessions (splitOnSeven ++ [.lost 8]) := by
  intro before call hprefix r' hr'
  rcases List.prefix_concat_iff.mp hprefix with hlast | hearlier
  · obtain ⟨rfl, hcall⟩ := List.append_inj' hlast rfl
    cases hcall
    have htables : (lossCalls Quicr.numbered newSessions splitOnSeven).map (fun r =>
        (r.infoBase.peerFib.toList.map fun entry => entry.1.1, r.infoBase.clientFib.isEmpty)) =
          some ([8], true) := by
      decide +kernel
    rw [hr', Option.map_some, Option.some.injEq, Prod.mk.injEq] at htables
    intro session _
    constructor
    · intro key row hrow hne
      have hmem : key.1 ∈ r'.infoBase.peerFib.toList.map fun entry => entry.1.1 :=
        List.mem_map_of_mem (ExtTreeMap.mem_toList_iff_getElem?_eq_some.mpr hrow)
      rw [htables.1, List.mem_singleton] at hmem
      exact absurd hmem hne
    · intro hash id' entry hentry
      rw [ExtTreeMap.isEmpty_iff.mp htables.2] at hentry
      simp at hentry
  · match before with
    | [] =>
      obtain ⟨after, hafter⟩ := hearlier
      obtain ⟨rfl, -⟩ := List.cons.inj hafter
      trivial
    | [first] =>
      obtain ⟨after, hafter⟩ := hearlier
      obtain ⟨-, hafter⟩ := List.cons.inj hafter
      obtain ⟨rfl, -⟩ := List.cons.inj hafter
      trivial
    | [first, second] =>
      obtain ⟨after, hafter⟩ := hearlier
      obtain ⟨-, hafter⟩ := List.cons.inj hafter
      obtain ⟨-, hafter⟩ := List.cons.inj hafter
      obtain ⟨rfl, -⟩ := List.cons.inj hafter
      trivial
    | first :: second :: third :: rest =>
      have hlength := hearlier.length_le
      simp only [splitOnSeven, List.cons_append, List.length_cons, List.length_append,
        List.length_nil] at hlength
      omega

/-- The session that the node set came from is lost. -/
theorem cleared_splitOnSeven : FreshTables newSessions ∧ ∃ r' r'',
    lossCalls Quicr.numbered newSessions splitOnSeven = some r' ∧
      r'.sessionLost Quicr.numbered 8 = some r'' ∧ NoReference r'' 8 := by
  refine ⟨freshTables_newSessions, ?_⟩
  obtain ⟨r', hr', -, hcalls⟩ := (cleared_iff_cleanLosses Quicr.numbered newSessions
    freshTables_newSessions (splitOnSeven ++ [.lost 8])).mpr cleanLosses_splitOnSeven splitOnSeven
      (List.prefix_append _ _)
  obtain ⟨r'', hr'', hcleared⟩ := hcalls (.lost 8) (List.prefix_refl _)
  have hlive : (lossCalls Quicr.numbered newSessions splitOnSeven).map (·.live 8) = some true := by
    decide +kernel
  rw [hr', Option.map_some, Option.some.injEq] at hlive
  exact ⟨r', r'', hr', hr'', hcleared hlive⟩

/-- Node 1 with sessions that nodes 2 and 3 have opened. -/
def acceptedSessions : Relay where
  nodeId := 1
  serverPeerSessions := ((∅ : ExtTreeMap PeerSessionId PeerSession).insert 7
    { status := .connected, nodeId := 1, remoteNodeInfo := { id := 2 } }).insert 8
      { status := .connected, nodeId := 1, remoteNodeInfo := { id := 3 } }

theorem freshTables_acceptedSessions : FreshTables acceptedSessions :=
  ⟨InfoBase.nodeTables_empty, fun n s hs => by simp [acceptedSessions] at hs, rfl, rfl, rfl⟩

/-- A node set of session 7 goes out on session 8, which is lost: the row keeps the egress, and the
next data that comes in has no session to go to. -/
theorem not_cleared : FreshTables acceptedSessions ∧ ∃ r' r'',
    lossCalls Quicr.numbered acceptedSessions
        [.node 8 { id := 3 } false, .sns 7 ⟨5, .ofList [(3 : NodeIdValueType)]⟩ false 9] = some r' ∧
      r'.live 8 = true ∧ r'.sessionLost Quicr.numbered 8 = some r'' ∧
      ¬ NoReference r'' 8 ∧ ¬ EgressFound Quicr.numbered r'' := by
  refine ⟨freshTables_acceptedSessions, ?_⟩
  obtain ⟨r', hr'⟩ : ∃ r', lossCalls Quicr.numbered acceptedSessions
      [.node 8 { id := 3 } false, .sns 7 ⟨5, .ofList [(3 : NodeIdValueType)]⟩ false 9] =
        some r' := by
    rw [← Option.isSome_iff_exists]
    decide +kernel
  let chunk : PeerChunk :=
    { isNewStream := true, streamId := 4, header := { snsId := 5 }, data := [], dataOffset := 0
      useReliable := true }
  have hlost : (lossCalls Quicr.numbered acceptedSessions
      [.node 8 { id := 3 } false, .sns 7 ⟨5, .ofList [(3 : NodeIdValueType)]⟩ false 9]).map
        (fun r => (r.live 8, (r.sessionLost Quicr.numbered 8).map fun r =>
          (r.infoBase.peerFib[((7 : PeerSessionId), (5 : SubscribeNodeSetId))]?.map (·.contains 8),
            (r.forwardPeerData (fun _ _ => 1) 7 chunk).isSome))) =
        some (true, some (some true, false)) := by
    decide +kernel
  rw [hr', Option.map_some, Option.some.injEq, Prod.mk.injEq] at hlost
  obtain ⟨hlive, hlost⟩ := hlost
  obtain ⟨r'', hr'', hlost⟩ := Option.map_eq_some_iff.mp hlost
  obtain ⟨hrow, hdata⟩ := Prod.mk.inj hlost
  obtain ⟨row, hrow, hcontains⟩ := Option.map_eq_some_iff.mp hrow
  refine ⟨r', r'', hr', hlive, hr'', fun hno => ?_, fun hfound => ?_⟩
  · have hfalse := hno.egress _ row hrow
    rw [hcontains] at hfalse
    cases hfalse
  · have htrue := hfound.data (fun _ _ => 1) 7 chunk
    rw [hdata] at htrue
    cases htrue

end Laps.Relay
