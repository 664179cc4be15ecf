import Laps.Relay.NodeMessages
import Mathlib.Data.List.Induction

/-! The node sets that other relays send: how a relay splits each of them among its own sessions. -/

namespace Laps.Relay

open Std Client Peering

/-! ### What the node sets of a relay are -/

/-- The nodes that a session has for a node set of an ingress session. -/
def snsAt (r : Relay) (id : PeerSessionId) (key : PeerSessionId × SubscribeNodeSetId) :
    Option (ExtTreeSet NodeIdValueType) :=
  (r.getPeerSession id).bind fun session => session.peerSns[key]?.map SubscribeNodeSet.nodes

/-- The node is among them. -/
def inSns (r : Relay) (id : PeerSessionId) (key : PeerSessionId × SubscribeNodeSetId)
    (node : NodeIdValueType) : Prop :=
  ∃ nodes, r.snsAt id key = some nodes ∧ nodes.contains node = true

/-- What the splitting of node sets leaves alone. -/
structure SameRoutes (r r' : Relay) : Prop where
  nodeId : r'.nodeId = r.nodeId
  infoBase : r'.infoBase = r.infoBase
  live : r'.live = r.live

theorem SameRoutes.refl (r : Relay) : SameRoutes r r := ⟨rfl, rfl, rfl⟩

theorem SameRoutes.trans {r r' r'' : Relay} (h : SameRoutes r r') (h' : SameRoutes r' r'') :
    SameRoutes r r'' :=
  ⟨h'.nodeId.trans h.nodeId, h'.infoBase.trans h.infoBase, h'.live.trans h.live⟩

theorem SameRoutes.bestSession {r r' : Relay} (h : SameRoutes r r') (node : NodeIdValueType) :
    r'.bestSession node = r.bestSession node := by
  unfold Relay.bestSession
  rw [h.infoBase, h.live]

theorem lockSession_eq_some {r : Relay} {id? : Option PeerSessionId} {id : PeerSessionId}
    {session : PeerSession} :
    r.lockSession id? = some (id, session) ↔
      id? = some id ∧ r.getPeerSession id = some session := by
  cases id? with
  | none => simp [lockSession]
  | some id' =>
    simp only [lockSession, Option.bind_some, Option.map_eq_some_iff, Prod.mk.injEq,
      Option.some.injEq]
    constructor
    · rintro ⟨s, hs, rfl, rfl⟩
      exact ⟨rfl, hs⟩
    · rintro ⟨rfl, hs⟩
      exact ⟨session, hs, rfl, rfl⟩

theorem lockSession_best (r : Relay) (node : NodeIdValueType) :
    (r.lockSession r.infoBase.nodesBest[node]?).map Prod.fst = r.bestSession node := by
  unfold lockSession bestSession live
  cases r.infoBase.nodesBest[node]? with
  | none => rfl
  | some id => cases hget : r.getPeerSession id <;> simp [hget, Option.filter]

/-- A change of the node sets of one session. -/
theorem snsAt_setPeerSession {r : Relay} {id : PeerSessionId} {old : PeerSession}
    (hget : r.getPeerSession id = some old) (session : PeerSession) (id' : PeerSessionId)
    (key : PeerSessionId × SubscribeNodeSetId) :
    (r.setPeerSession id session).snsAt id' key =
      if id' = id then session.peerSns[key]?.map SubscribeNodeSet.nodes else r.snsAt id' key := by
  unfold snsAt
  rw [getPeerSession_setPeerSession hget]
  split <;> rfl

theorem sameRoutes_setPeerSession {r : Relay} {id : PeerSessionId} {old : PeerSession}
    (hget : r.getPeerSession id = some old) (session : PeerSession) :
    SameRoutes r (r.setPeerSession id session) := by
  refine ⟨?_, ?_, ?_⟩
  · unfold setPeerSession
    split <;> rfl
  · unfold setPeerSession
    split <;> rfl
  · exact live_setPeerSession hget session

theorem peerSns_addPeerSnsSourceNode (q : Quicr) (session : PeerSession) (ingress : PeerSessionId)
    (snsId : SubscribeNodeSetId) (node : NodeIdValueType)
    (key : PeerSessionId × SubscribeNodeSetId) :
    (session.addPeerSnsSourceNode q ingress snsId node).1.peerSns[key]?.map SubscribeNodeSet.nodes =
      if key = (ingress, snsId) then
        some (((session.peerSns[key]?.map SubscribeNodeSet.nodes).getD ∅).insert node)
      else session.peerSns[key]?.map SubscribeNodeSet.nodes := by
  have hinsert : ∃ id, (session.addPeerSnsSourceNode q ingress snsId node).1.peerSns =
      session.peerSns.insert (ingress, snsId)
        { id, nodes := (session.peerSns.getD (ingress, snsId) {}).nodes.insert node } := by
    unfold PeerSession.addPeerSnsSourceNode PeerSession.sendSns
    dsimp only
    split
    · split <;> exact ⟨_, rfl⟩
    · exact ⟨_, rfl⟩
  obtain ⟨id, hinsert⟩ := hinsert
  rw [hinsert, ExtTreeMap.getElem?_insert_ite]
  split
  · rename_i hkey
    rw [hkey, ExtTreeMap.getD_eq_getD_getElem?]
    cases session.peerSns[(ingress, snsId)]? <;> rfl
  · rfl

theorem peerSns_removePeerSnsSourceNode (session : PeerSession) (ingress : PeerSessionId)
    (snsId : SubscribeNodeSetId) (key : PeerSessionId × SubscribeNodeSetId) :
    (session.removePeerSnsSourceNode ingress snsId 0).1.peerSns[key]?.map SubscribeNodeSet.nodes =
      if key = (ingress, snsId) then none
      else session.peerSns[key]?.map SubscribeNodeSet.nodes := by
  unfold PeerSession.removePeerSnsSourceNode PeerSession.sendSns
  dsimp only
  split
  · rename_i hnone
    split
    · rename_i hkey
      rw [hkey, hnone]
      rfl
    · rfl
  · rw [if_pos rfl]
    have herase : ∀ (s : PeerSession), s.peerSns = session.peerSns →
        (s.peerSns.erase (ingress, snsId))[key]?.map SubscribeNodeSet.nodes =
          if key = (ingress, snsId) then none
          else session.peerSns[key]?.map SubscribeNodeSet.nodes := by
      intro s hs
      rw [hs, ExtTreeMap.getElem?_erase_ite]
      split <;> rfl
    split
    · exact herase session rfl
    · exact herase _ rfl

/-! ### Advertised node sets -/

/-- A node leads to the egress; this relay leads to the egress 0. -/
def LeadsTo (r : Relay) (nodes : List NodeIdValueType) (egress : PeerSessionId) : Prop :=
  (egress = 0 ∧ r.nodeId ∈ nodes) ∨
    ∃ n ∈ nodes, n ≠ r.nodeId ∧ r.bestSession n = some egress

theorem SameRoutes.leadsTo {r r' : Relay} (h : SameRoutes r r') (nodes : List NodeIdValueType)
    (egress : PeerSessionId) : r'.LeadsTo nodes egress ↔ r.LeadsTo nodes egress := by
  unfold LeadsTo
  rw [h.nodeId]
  simp only [h.bestSession]

theorem leadsTo_append (r : Relay) (l l' : List NodeIdValueType) (egress : PeerSessionId) :
    r.LeadsTo (l ++ l') egress ↔ r.LeadsTo l egress ∨ r.LeadsTo l' egress := by
  simp only [LeadsTo, List.mem_append, or_and_right, exists_or, and_or_left]
  exact or_or_or_comm

/-- What nodes of a node set do to the sessions and to the row of the node set. -/
structure Splits (key : PeerSessionId × SubscribeNodeSetId) (updateRef : UInt64)
    (nodes : List NodeIdValueType) (acc acc' : Relay × ExtTreeMap PeerSessionId FibEntry) :
    Prop where
  same : SameRoutes acc.1 acc'.1
  other : ∀ id key', key' ≠ key → acc'.1.snsAt id key' = acc.1.snsAt id key'
  members : ∀ id n, acc'.1.inSns id key n ↔ acc.1.inSns id key n ∨
    (n ∈ nodes ∧ n ≠ acc.1.nodeId ∧ acc.1.bestSession n = some id)
  present : ∀ id s, acc'.1.snsAt id key = some s →
    acc.1.snsAt id key = some s ∨ ∃ n, s.contains n = true
  touched : ∀ egress, acc.1.LeadsTo nodes egress → ∃ entry, acc'.2[egress]? = some entry ∧
    entry.updateRef = updateRef ∧ entry.peerSession = if egress = 0 then none else some egress
  untouched : ∀ egress, ¬ acc.1.LeadsTo nodes egress → acc'.2[egress]? = acc.2[egress]?

section Splits

variable {key : PeerSessionId × SubscribeNodeSetId} {updateRef : UInt64}
variable {acc acc' acc'' : Relay × ExtTreeMap PeerSessionId FibEntry}

theorem Splits.nil : Splits key updateRef [] acc acc where
  same := .refl _
  other := fun _ _ _ => rfl
  members := by simp
  present := fun _ _ h => .inl h
  touched := by simp [LeadsTo]
  untouched := fun _ _ => rfl

theorem Splits.trans {l l' : List NodeIdValueType} (h : Splits key updateRef l acc acc')
    (h' : Splits key updateRef l' acc' acc'') : Splits key updateRef (l ++ l') acc acc'' where
  same := h.same.trans h'.same
  other := fun id key' hkey => (h'.other id key' hkey).trans (h.other id key' hkey)
  members := by
    intro id n
    rw [h'.members, h.members, h.same.nodeId, h.same.bestSession, List.mem_append]
    rw [or_and_right, or_assoc]
  present := by
    intro id s hs
    rcases h'.present id s hs with hs | hsome
    · exact h.present id s hs
    · exact .inr hsome
  touched := by
    intro egress htouches
    by_cases hlast : acc'.1.LeadsTo l' egress
    · exact h'.touched egress hlast
    · rw [h'.untouched egress hlast]
      apply h.touched
      rw [h.same.leadsTo] at hlast
      rcases (leadsTo_append acc.1 l l' egress).mp htouches with hfirst | hfalse
      · exact hfirst
      · exact absurd hfalse hlast
  untouched := by
    intro egress hnot
    rw [leadsTo_append, not_or] at hnot
    have hlast : ¬ acc'.1.LeadsTo l' egress := by
      rw [h.same.leadsTo]
      exact hnot.2
    rw [h'.untouched egress hlast, h.untouched egress hnot.1]

/-- The entry of this relay. -/
theorem splits_self (r : Relay) (row : ExtTreeMap PeerSessionId FibEntry) :
    Splits key updateRef [r.nodeId] (r, row) (r, row.insert 0 { updateRef }) := by
  refine ⟨.refl _, fun _ _ _ => rfl, ?_, fun _ _ hs => .inl hs, ?_, ?_⟩
  · intro id n
    constructor
    · exact .inl
    · rintro (hold | ⟨hn, hne, -⟩)
      · exact hold
      · exact absurd (List.mem_singleton.mp hn) hne
  · intro egress htouches
    rcases htouches with ⟨rfl, -⟩ | ⟨n, hn, hne, -⟩
    · exact ⟨_, ExtTreeMap.getElem?_insert_self, rfl, rfl⟩
    · exact absurd (List.mem_singleton.mp hn) hne
  · intro egress hnot
    rw [ExtTreeMap.getElem?_insert_ite, if_neg]
    exact fun hegress => hnot (.inl ⟨hegress, List.mem_singleton_self _⟩)

/-- A node that no session leads to. -/
theorem splits_nowhere {r : Relay} {node : NodeIdValueType} (hself : node ≠ r.nodeId)
    (hbest : r.bestSession node = none) (row : ExtTreeMap PeerSessionId FibEntry) :
    Splits key updateRef [node] (r, row) (r, row) := by
  have hnot : ∀ egress, ¬ r.LeadsTo [node] egress := by
    rintro egress (⟨-, hmem⟩ | ⟨n, hn, -, hroute⟩)
    · exact hself (List.mem_singleton.mp hmem).symm
    · rw [List.mem_singleton.mp hn, hbest] at hroute
      cases hroute
  refine ⟨.refl _, fun _ _ _ => rfl, ?_, fun _ _ hs => .inl hs, ?_, fun _ _ => rfl⟩
  · intro id n
    constructor
    · exact .inl
    · rintro (hold | ⟨hn, -, hroute⟩)
      · exact hold
      · dsimp only at hroute
        rw [List.mem_singleton.mp hn, hbest] at hroute
        cases hroute
  · exact fun egress htouches => absurd htouches (hnot egress)

/-- The session of a node gets it into its own node set. -/
theorem snsAt_addPeerSnsSourceNode {r : Relay} {best : PeerSessionId} {session : PeerSession}
    (hget : r.getPeerSession best = some session) (q : Quicr) (ingress : PeerSessionId)
    (snsId : SubscribeNodeSetId) (node : NodeIdValueType) (id : PeerSessionId)
    (key' : PeerSessionId × SubscribeNodeSetId) :
    (r.setPeerSession best (session.addPeerSnsSourceNode q ingress snsId node).1).snsAt id key' =
      if id = best ∧ key' = (ingress, snsId) then
        some (((r.snsAt id key').getD ∅).insert node)
      else r.snsAt id key' := by
  rw [snsAt_setPeerSession hget]
  by_cases hid : id = best
  · subst hid
    rw [if_pos rfl, peerSns_addPeerSnsSourceNode]
    simp [snsAt, hget]
  · rw [if_neg hid, if_neg fun h => hid h.1]

/-- A node that a session leads to. -/
theorem splits_session (q : Quicr) (ingress : PeerSessionId) (snsId : SubscribeNodeSetId)
    {r : Relay} (hzero : r.live 0 = false) {node : NodeIdValueType} (hself : node ≠ r.nodeId)
    {best : PeerSessionId} {session : PeerSession}
    (hget : r.getPeerSession best = some session) (hbest : r.bestSession node = some best)
    {entry : FibEntry} (href : entry.updateRef = updateRef) (hpeer : entry.peerSession = some best)
    (row : ExtTreeMap PeerSessionId FibEntry) :
    Splits (ingress, snsId) updateRef [node] (r, row)
      (r.setPeerSession best (session.addPeerSnsSourceNode q ingress snsId node).1,
        row.insert best entry) := by
  have hne : best ≠ 0 := by
    rintro rfl
    simp [live, hget] at hzero
  have hsns := snsAt_addPeerSnsSourceNode hget q ingress snsId node
  refine ⟨sameRoutes_setPeerSession hget _, ?_, ?_, ?_, ?_, ?_⟩
  · intro id key' hkey
    rw [hsns, if_neg fun h => hkey h.2]
  · intro id n
    unfold inSns
    simp only [hsns]
    by_cases hid : id = best
    · subst hid
      simp only [and_self, if_true, Option.some.injEq, exists_eq_left',
        ExtTreeSet.contains_insert_iff, List.mem_singleton]
      constructor
      · rintro (rfl | hold)
        · exact .inr ⟨rfl, hself, hbest⟩
        · left
          cases hs : r.snsAt id (ingress, snsId) with
          | none => simp [hs] at hold
          | some s => exact ⟨s, rfl, by simpa [hs] using hold⟩
      · rintro (⟨s, hs, hn⟩ | ⟨rfl, -, -⟩)
        · right
          simpa [hs] using hn
        · exact .inl rfl
    · simp only [hid, false_and, if_false]
      constructor
      · exact .inl
      · rintro (hold | ⟨hn, -, hroute⟩)
        · exact hold
        · rw [List.mem_singleton.mp hn, hbest] at hroute
          exact absurd (Option.some.inj hroute).symm hid
  · intro id s hs
    rw [hsns] at hs
    split at hs
    · cases hs
      exact .inr ⟨node, by simp⟩
    · exact .inl hs
  · rintro egress (⟨-, hmem⟩ | ⟨n, hn, -, hroute⟩)
    · exact absurd (List.mem_singleton.mp hmem).symm hself
    · dsimp only at hroute
      rw [List.mem_singleton.mp hn, hbest] at hroute
      cases hroute
      exact ⟨entry, ExtTreeMap.getElem?_insert_self, href, by rw [hpeer, if_neg hne]⟩
  · intro egress hnot
    rw [ExtTreeMap.getElem?_insert_ite, if_neg]
    rintro rfl
    exact hnot (.inr ⟨node, by simp, hself, hbest⟩)

theorem splits_snsNode (q : Quicr) (ingress : PeerSessionId) (snsId : SubscribeNodeSetId)
    (hzero : acc.1.live 0 = false) (node : NodeIdValueType) :
    Splits (ingress, snsId) updateRef [node] acc
      (snsNode q ingress snsId updateRef acc node) := by
  obtain ⟨r, row⟩ := acc
  have hbest := lockSession_best r node
  unfold snsNode
  dsimp only
  split
  · rename_i hself
    subst hself
    exact splits_self r row
  · rename_i hself
    split
    · rename_i hnone
      rw [hnone, Option.map_none] at hbest
      exact splits_nowhere hself hbest.symm row
    · rename_i best session hlock
      rw [hlock, Option.map_some] at hbest
      obtain ⟨-, hget⟩ := lockSession_eq_some.mp hlock
      refine splits_session q ingress snsId hzero hself hget hbest.symm ?_ ?_ row <;> rfl

theorem splits_foldl (q : Quicr) (ingress : PeerSessionId) (snsId : SubscribeNodeSetId)
    (hzero : acc.1.live 0 = false) (nodes : List NodeIdValueType) :
    Splits (ingress, snsId) updateRef nodes acc
      (nodes.foldl (snsNode q ingress snsId updateRef) acc) := by
  induction nodes generalizing acc with
  | nil => exact .nil
  | cons node nodes ih =>
    have hfirst : Splits (ingress, snsId) updateRef [node] acc
        (snsNode q ingress snsId updateRef acc node) := splits_snsNode q ingress snsId hzero node
    have hzero' : (snsNode q ingress snsId updateRef acc node).1.live 0 = false := by
      rw [hfirst.same.live]
      exact hzero
    exact hfirst.trans (ih hzero')

end Splits

/-! ### Egress sessions that are dropped -/

theorem snsAt_of_not_live {r : Relay} {id : PeerSessionId} (h : r.getPeerSession id = none)
    (key : PeerSessionId × SubscribeNodeSetId) : r.snsAt id key = none := by
  simp [snsAt, h]

/-- One session loses a node set. -/
theorem snsAt_remove {r : Relay} {egress : PeerSessionId} {session : PeerSession}
    (hget : r.getPeerSession egress = some session) (ingress : PeerSessionId)
    (snsId : SubscribeNodeSetId) (id : PeerSessionId) (key : PeerSessionId × SubscribeNodeSetId) :
    (r.setPeerSession egress (session.removePeerSnsSourceNode ingress snsId 0).1).snsAt id key =
      if id = egress ∧ key = (ingress, snsId) then none else r.snsAt id key := by
  rw [snsAt_setPeerSession hget]
  by_cases hid : id = egress
  · subst hid
    rw [if_pos rfl, peerSns_removePeerSnsSourceNode]
    simp [snsAt, hget]
  · rw [if_neg hid, if_neg fun h => hid h.1]

/-- The loop over the entries that were not updated takes the node sets away that the sessions have
for themselves as ingress. -/
theorem dropEgress_foldl (snsId : SubscribeNodeSetId) (updateRef : UInt64) (r : Relay)
    (entries : List FibEntry) :
    SameRoutes r (entries.foldl (dropEgress snsId updateRef) r) ∧
    ∀ id key, (entries.foldl (dropEgress snsId updateRef) r).snsAt id key =
      if key = (id, snsId) ∧ ∃ entry ∈ entries, entry.updateRef ≠ updateRef ∧
        entry.peerSession = some id then none else r.snsAt id key := by
  induction entries generalizing r with
  | nil => exact ⟨.refl r, fun id key => by simp⟩
  | cons entry entries ih =>
    have hfirst : SameRoutes r (dropEgress snsId updateRef r entry) ∧
        ∀ id key, (dropEgress snsId updateRef r entry).snsAt id key =
          if key = (id, snsId) ∧ entry.updateRef ≠ updateRef ∧ entry.peerSession = some id
          then none else r.snsAt id key := by
      unfold dropEgress
      split
      · rename_i href
        exact ⟨.refl r, fun id key => by simp [href]⟩
      · rename_i href
        split
        · rename_i hnone
          refine ⟨.refl r, fun id key => ?_⟩
          split
          · rename_i hdrop
            rw [hdrop.2.2, lockSession, Option.bind_some, Option.map_eq_none_iff] at hnone
            exact snsAt_of_not_live hnone key
          · rfl
        · rename_i egress session hlock
          obtain ⟨hpeer, hget⟩ := lockSession_eq_some.mp hlock
          refine ⟨sameRoutes_setPeerSession hget _, fun id key => ?_⟩
          rw [snsAt_remove hget, hpeer]
          simp only [ne_eq, href, not_false_eq_true, true_and, Option.some.injEq]
          by_cases hid : egress = id
          · subst hid
            simp
          · simp [hid, Ne.symm hid]
    obtain ⟨hsame, hsns⟩ := ih (dropEgress snsId updateRef r entry)
    refine ⟨hfirst.1.trans hsame, fun id key => ?_⟩
    rw [List.foldl_cons, hsns, hfirst.2]
    simp only [List.mem_cons, exists_eq_or_imp]
    by_cases hkey : key = (id, snsId)
    · simp only [hkey, true_and]
      split
      · rename_i hrest
        rw [if_pos (.inr hrest)]
      · rename_i hrest
        simp only [hrest, or_false]
    · simp [hkey]

/-- The loop of a withdrawal takes the node set away from all egress sessions, when these are
there. -/
theorem withdrawEgress_foldlM (ingress : PeerSessionId) (snsId : SubscribeNodeSetId) (r : Relay)
    (entries : List (PeerSessionId × FibEntry))
    (hlive : ∀ entry ∈ entries, entry.1 ≠ 0 → entry.2.peerSession = some entry.1 ∧
      r.live entry.1 = true) :
    ∃ r', entries.foldlM (withdrawEgress ingress snsId) r = some r' ∧ SameRoutes r r' ∧
      ∀ id key, r'.snsAt id key =
        if key = (ingress, snsId) ∧ id ≠ 0 ∧ ∃ entry ∈ entries, entry.1 = id then none
        else r.snsAt id key := by
  induction entries generalizing r with
  | nil => exact ⟨r, rfl, .refl r, fun id key => by simp⟩
  | cons entry entries ih =>
    have hfirst : ∃ r₁, withdrawEgress ingress snsId r entry = some r₁ ∧ SameRoutes r r₁ ∧
        ∀ id key, r₁.snsAt id key =
          if key = (ingress, snsId) ∧ id ≠ 0 ∧ entry.1 = id then none else r.snsAt id key := by
      unfold withdrawEgress
      by_cases hzero : entry.1 = 0
      · refine ⟨r, if_pos hzero, .refl r, fun id key => ?_⟩
        rw [if_neg]
        rintro ⟨-, hid, heq⟩
        exact hid (heq.symm.trans hzero)
      · obtain ⟨hpeer, hentry⟩ := hlive entry List.mem_cons_self hzero
        obtain ⟨session, hget⟩ := Option.isSome_iff_exists.mp hentry
        have hlock : r.lockSession entry.2.peerSession = some (entry.1, session) :=
          lockSession_eq_some.mpr ⟨hpeer, hget⟩
        rw [if_neg hzero, hlock]
        refine ⟨_, rfl, sameRoutes_setPeerSession hget _, fun id key => ?_⟩
        rw [snsAt_remove hget]
        by_cases hid : id = entry.1
        · subst hid
          simp [hzero]
        · simp [hid, Ne.symm hid]
    obtain ⟨r₁, hr₁, hsame₁, hsns₁⟩ := hfirst
    obtain ⟨r', hr', hsame, hsns⟩ := ih r₁ fun e he hne => by
      rw [hsame₁.live]
      exact hlive e (List.mem_cons_of_mem _ he) hne
    refine ⟨r', ?_, hsame₁.trans hsame, fun id key => ?_⟩
    · rw [List.foldlM_cons, hr₁]
      exact hr'
    · rw [hsns, hsns₁]
      simp only [List.mem_cons, exists_eq_or_imp]
      by_cases hkey : key = (ingress, snsId)
      · by_cases hid : id = 0
        · simp [hid]
        · simp only [hkey, true_and, ne_eq, hid, not_false_eq_true]
          split
          · rename_i hrest
            rw [if_pos (.inr hrest)]
          · rename_i hrest
            simp only [hrest, or_false]
      · simp [hkey]

/-! ### Exact translations -/

/-- The table and the sessions have exactly what the node set asks for: `none` for a node set that
is withdrawn or was never sent. -/
def Translates (r : Relay) (key : PeerSessionId × SubscribeNodeSetId) :
    Option (ExtTreeSet NodeIdValueType) → Prop
  | none => r.infoBase.peerFib[key]? = none ∧ ∀ id, r.snsAt id key = none
  | some nodes => ∃ row, r.infoBase.peerFib[key]? = some row ∧
      (row.contains 0 = true ↔ nodes.contains r.nodeId = true) ∧
      (∀ egress, egress ≠ 0 → (row.contains egress = true ↔
        ∃ n, nodes.contains n = true ∧ n ≠ r.nodeId ∧ r.bestSession n = some egress)) ∧
      ∀ id n, r.inSns id key n ↔
        nodes.contains n = true ∧ n ≠ r.nodeId ∧ r.bestSession n = some id

/-- The part of an exact translation that later messages rest on. -/
structure SetInv (r : Relay) (key : PeerSessionId × SubscribeNodeSetId)
    (current : Option (ExtTreeSet NodeIdValueType × UInt64)) : Prop where
  translates : r.Translates key (current.map Prod.fst)
  entry : ∀ (row : ExtTreeMap PeerSessionId FibEntry) (nodes : ExtTreeSet NodeIdValueType)
    (updateRef : UInt64) (egress : PeerSessionId) (entry : FibEntry),
    r.infoBase.peerFib[key]? = some row → current = some (nodes, updateRef) →
    row[egress]? = some entry → entry.updateRef = updateRef ∧
      entry.peerSession = if egress = 0 then none else some egress
  nonempty : ∀ id s, r.snsAt id key = some s → ∃ n, s.contains n = true

/-- Between messages only the table and the node sets change. -/
structure SameBest (r r' : Relay) : Prop where
  nodeId : r'.nodeId = r.nodeId
  nodesBest : r'.infoBase.nodesBest = r.infoBase.nodesBest
  live : r'.live = r.live

theorem SameBest.bestSession {r r' : Relay} (h : SameBest r r') (node : NodeIdValueType) :
    r'.bestSession node = r.bestSession node := by
  unfold Relay.bestSession
  rw [h.nodesBest, h.live]

theorem SameRoutes.sameBest {r r' : Relay} (h : SameRoutes r r') (f) :
    SameBest r (r'.setPeerFib f) :=
  ⟨h.nodeId, by show r'.infoBase.nodesBest = _; rw [h.infoBase], h.live⟩

/-- A node set that the message is not about. -/
theorem SetInv.keep {r r' : Relay} (hbest : SameBest r r')
    {key : PeerSessionId × SubscribeNodeSetId}
    {current : Option (ExtTreeSet NodeIdValueType × UInt64)} (h : SetInv r key current)
    (hfib : r'.infoBase.peerFib[key]? = r.infoBase.peerFib[key]?)
    (hsns : ∀ id, r'.snsAt id key = r.snsAt id key) : SetInv r' key current where
  translates := by
    have hold := h.translates
    cases hcurrent : current.map Prod.fst with
    | none =>
      rw [hcurrent] at hold
      refine ⟨hfib.trans hold.1, fun id => ?_⟩
      rw [hsns]
      exact hold.2 id
    | some nodes =>
      rw [hcurrent] at hold
      obtain ⟨row, hrow, hzero, hegress, hmembers⟩ := hold
      refine ⟨row, hfib.trans hrow, ?_, ?_, ?_⟩
      · rw [hbest.nodeId]
        exact hzero
      · intro egress hne
        simp only [hbest.nodeId, hbest.bestSession]
        exact hegress egress hne
      · intro id n
        unfold inSns
        rw [hsns, hbest.nodeId, hbest.bestSession]
        exact hmembers id n
  entry := by
    rw [hfib]
    exact h.entry
  nonempty := by
    intro id s hs
    rw [hsns] at hs
    exact h.nonempty id s hs

theorem leadsTo_toList (r : Relay) (nodes : ExtTreeSet NodeIdValueType) (egress : PeerSessionId) :
    r.LeadsTo nodes.toList egress ↔ (egress = 0 ∧ nodes.contains r.nodeId = true) ∨
      ∃ n, nodes.contains n = true ∧ n ≠ r.nodeId ∧ r.bestSession n = some egress := by
  unfold LeadsTo
  simp only [ExtTreeSet.mem_toList, ← ExtTreeSet.contains_iff_mem]

/-- The row of an exact translation has the egress sessions that its nodes lead to. -/
theorem contains_iff_leadsTo {r : Relay} (hzero : r.live 0 = false)
    {nodes : ExtTreeSet NodeIdValueType} {row : ExtTreeMap PeerSessionId FibEntry}
    (hself : row.contains 0 = true ↔ nodes.contains r.nodeId = true)
    (hegress : ∀ egress, egress ≠ 0 → (row.contains egress = true ↔
      ∃ n, nodes.contains n = true ∧ n ≠ r.nodeId ∧ r.bestSession n = some egress))
    (egress : PeerSessionId) :
    row.contains egress = true ↔ r.LeadsTo nodes.toList egress := by
  rw [leadsTo_toList]
  by_cases hne : egress = 0
  · subst hne
    rw [hself]
    constructor
    · exact fun h => .inl ⟨rfl, h⟩
    · rintro (⟨-, h⟩ | ⟨n, -, -, hroute⟩)
      · exact h
      · obtain ⟨-, hlive⟩ := Option.filter_eq_some_iff.mp hroute
        rw [hzero] at hlive
        cases hlive
  · rw [hegress egress hne]
    simp [hne]

/-! ### One message -/

/-- The table and the sessions are right for all node sets. -/
structure SetsInv (r : Relay)
    (current : PeerSessionId × SubscribeNodeSetId → Option (ExtTreeSet NodeIdValueType × UInt64)) :
    Prop where
  zero : r.live 0 = false
  sets : ∀ key, SetInv r key (current key)

theorem peerFib_setPeerFib (r : Relay) (key key' : PeerSessionId × SubscribeNodeSetId)
    (row : ExtTreeMap PeerSessionId FibEntry compare) :
    (r.setPeerFib fun fib => fib.insert key row).infoBase.peerFib[key']? =
      if key' = key then some row else r.infoBase.peerFib[key']? :=
  ExtTreeMap.getElem?_insert_ite _ _ _ _

theorem snsAt_setPeerFib (r : Relay) (f) (id : PeerSessionId)
    (key : PeerSessionId × SubscribeNodeSetId) : (r.setPeerFib f).snsAt id key = r.snsAt id key :=
  rfl

section Message

variable {q : Quicr} {r : Relay} {ingress : PeerSessionId} {sns : SubscribeNodeSet}
variable {updateRef : UInt64}
variable {current : PeerSessionId × SubscribeNodeSetId →
  Option (ExtTreeSet NodeIdValueType × UInt64)}

theorem setsInv_withdraw (sns : SubscribeNodeSet) (h : SetsInv r current) :
    ∃ r', r.snsReceived q ingress sns true updateRef = some r' ∧ SameBest r r' ∧
      SetsInv r' (Function.update current (ingress, sns.id) none) := by
  have hset := h.sets (ingress, sns.id)
  unfold snsReceived
  dsimp only
  rw [if_pos rfl]
  cases hcurrent : current (ingress, sns.id) with
  | none =>
    have hfib := hset.translates
    rw [hcurrent] at hfib
    rw [hfib.1]
    refine ⟨r, rfl, ⟨rfl, rfl, rfl⟩, h.zero, fun key => ?_⟩
    by_cases hkey : key = (ingress, sns.id)
    · subst hkey
      rw [Function.update_self, ← hcurrent]
      exact hset
    · rw [Function.update_of_ne hkey]
      exact h.sets key
  | some state =>
    obtain ⟨nodes, ref⟩ := state
    have hold := hset.translates
    rw [hcurrent] at hold
    obtain ⟨row, hrow, hself, hegress, hmembers⟩ := hold
    rw [hrow]
    have hlive : ∀ entry ∈ row.toList, entry.1 ≠ 0 → entry.2.peerSession = some entry.1 ∧
        r.live entry.1 = true := by
      intro entry hentry hne
      have hget := ExtTreeMap.mem_toList_iff_getElem?_eq_some.mp hentry
      refine ⟨?_, ?_⟩
      · rw [(hset.entry row nodes ref entry.1 entry.2 hrow hcurrent hget).2, if_neg hne]
      · have hcontains := ExtTreeMap.contains_iff_getElem?.mpr ⟨_, hget⟩
        obtain ⟨n, -, -, hroute⟩ := (hegress entry.1 hne).mp hcontains
        exact (Option.filter_eq_some_iff.mp hroute).2
    obtain ⟨r', hr', hsame, hsns⟩ := withdrawEgress_foldlM ingress sns.id r row.toList hlive
    dsimp only
    rw [hr']
    have hbest : SameBest r (r'.setPeerFib fun fib => fib.erase (ingress, sns.id)) :=
      hsame.sameBest _
    refine ⟨_, rfl, hbest, ?_, fun key => ?_⟩
    · exact (congrFun hbest.live 0).trans h.zero
    · have hfib : (r'.setPeerFib fun fib => fib.erase (ingress, sns.id)).infoBase.peerFib[key]? =
          if key = (ingress, sns.id) then none else r.infoBase.peerFib[key]? := by
        rw [← hsame.infoBase]
        exact ExtTreeMap.getElem?_erase_ite _ _ _
      by_cases hkey : key = (ingress, sns.id)
      · subst hkey
        rw [if_pos rfl] at hfib
        rw [Function.update_self]
        have hnone : ∀ id, r'.snsAt id (ingress, sns.id) = none := by
          intro id
          rw [hsns]
          split
          · rfl
          · -- A session without an entry in the row has no node of the set.
            rename_i hnot
            cases hs : r.snsAt id (ingress, sns.id) with
            | none => rfl
            | some s =>
              obtain ⟨n, hn⟩ := hset.nonempty id s hs
              obtain ⟨-, -, hroute⟩ := (hmembers id n).mp ⟨s, hs, hn⟩
              have hne : id ≠ 0 := by
                rintro rfl
                have := (Option.filter_eq_some_iff.mp hroute).2
                rw [h.zero] at this
                cases this
              obtain ⟨entry, hentry⟩ := ExtTreeMap.contains_iff_getElem?.mp
                ((hegress id hne).mpr ⟨n, (hmembers id n).mp ⟨s, hs, hn⟩⟩)
              exact absurd ⟨rfl, hne, (id, entry),
                ExtTreeMap.mem_toList_iff_getElem?_eq_some.mpr hentry, rfl⟩ hnot
        refine ⟨⟨hfib, hnone⟩, ?_, ?_⟩
        · intro row' _ _ _ _ hrow'
          rw [hfib] at hrow'
          cases hrow'
        · intro id s hs
          rw [snsAt_setPeerFib, hnone] at hs
          cases hs
      · rw [Function.update_of_ne hkey]
        rw [if_neg hkey] at hfib
        refine (h.sets key).keep hbest hfib fun id => ?_
        rw [snsAt_setPeerFib, hsns, if_neg fun h => hkey h.1]

/-- The sessions and the row are right for a node set. -/
theorem setInv_of_row {r r' : Relay} (hzero : r.live 0 = false) (hbest : SameBest r r')
    {key : PeerSessionId × SubscribeNodeSetId} {nodes : ExtTreeSet NodeIdValueType}
    {row : ExtTreeMap PeerSessionId FibEntry compare} (hfib : r'.infoBase.peerFib[key]? = some row)
    (hcontains : ∀ egress, row.contains egress = true ↔ r.LeadsTo nodes.toList egress)
    (hentry : ∀ (egress : PeerSessionId) (entry : FibEntry), row[egress]? = some entry →
      entry.updateRef = updateRef ∧ entry.peerSession = if egress = 0 then none else some egress)
    (hmembers : ∀ id n, r'.inSns id key n ↔
      nodes.contains n = true ∧ n ≠ r.nodeId ∧ r.bestSession n = some id)
    (hnonempty : ∀ id s, r'.snsAt id key = some s → ∃ n, s.contains n = true) :
    SetInv r' key (some (nodes, updateRef)) := by
  refine ⟨⟨row, hfib, ?_, ?_, ?_⟩, ?_, hnonempty⟩
  · rw [hcontains, leadsTo_toList, hbest.nodeId]
    constructor
    · rintro (⟨-, hself⟩ | ⟨n, -, -, hroute⟩)
      · exact hself
      · have hlive := (Option.filter_eq_some_iff.mp hroute).2
        rw [hzero] at hlive
        cases hlive
    · exact fun hself => .inl ⟨rfl, hself⟩
  · intro egress hne
    rw [hcontains, leadsTo_toList]
    simp only [hne, false_and, false_or, hbest.nodeId, hbest.bestSession]
  · intro id n
    rw [hmembers, hbest.nodeId, hbest.bestSession]
  · intro row₁ nodes₁ ref egress entry hrow₁ hcurrent hget
    rw [hfib] at hrow₁
    cases hrow₁
    cases hcurrent
    exact hentry egress entry hget

theorem setsInv_first (sns : SubscribeNodeSet) (h : SetsInv r current)
    (hnone : current (ingress, sns.id) = none) :
    ∃ r', r.snsReceived q ingress sns false updateRef = some r' ∧ SameBest r r' ∧
      SetsInv r' (Function.update current (ingress, sns.id) (some (sns.nodes, updateRef))) := by
  have hset := h.sets (ingress, sns.id)
  have hold := hset.translates
  rw [hnone] at hold
  have hsplits : Splits (ingress, sns.id) updateRef sns.nodes.toList (r, ∅)
      (sns.nodes.toList.foldl (snsNode q ingress sns.id updateRef) (r, ∅)) :=
    splits_foldl q ingress sns.id h.zero _
  unfold snsReceived
  dsimp only
  rw [if_neg (by simp), hold.1]
  generalize sns.nodes.toList.foldl (snsNode q ingress sns.id updateRef) (r, ∅) = acc
    at hsplits ⊢
  obtain ⟨r', row'⟩ := acc
  dsimp only
  have hbest : SameBest r (r'.setPeerFib fun fib => fib.insert (ingress, sns.id) row') :=
    hsplits.same.sameBest _
  refine ⟨_, rfl, hbest, (congrFun hbest.live 0).trans h.zero, fun key => ?_⟩
  by_cases hkey : key = (ingress, sns.id)
  · subst hkey
    rw [Function.update_self]
    have hnot : ∀ id n, ¬ r.inSns id (ingress, sns.id) n := by
      rintro id n ⟨s, hs, -⟩
      rw [hold.2 id] at hs
      cases hs
    have hfib := peerFib_setPeerFib r' (ingress, sns.id) (ingress, sns.id) row'
    rw [if_pos rfl] at hfib
    have huntouched : ∀ egress, ¬ r.LeadsTo sns.nodes.toList egress → row'[egress]? = none := by
      intro egress hnot
      rw [hsplits.untouched egress hnot]
      exact ExtTreeMap.getElem?_empty
    refine setInv_of_row h.zero hbest hfib ?_ ?_ ?_ ?_
    · intro egress
      rw [ExtTreeMap.contains_iff_getElem?]
      by_cases htouches : r.LeadsTo sns.nodes.toList egress
      · obtain ⟨entry, hentry, -⟩ := hsplits.touched egress htouches
        exact iff_of_true ⟨entry, hentry⟩ htouches
      · rw [huntouched egress htouches]
        exact iff_of_false (by simp) htouches
    · intro egress entry hentry
      by_cases htouches : r.LeadsTo sns.nodes.toList egress
      · obtain ⟨entry', hentry', hright⟩ := hsplits.touched egress htouches
        rw [hentry'] at hentry
        cases hentry
        exact hright
      · rw [huntouched egress htouches] at hentry
        cases hentry
    · intro id n
      rw [show (r'.setPeerFib _).inSns id (ingress, sns.id) n ↔ r'.inSns id (ingress, sns.id) n
        from Iff.rfl, hsplits.members]
      simp only [hnot, false_or, ExtTreeSet.mem_toList, ← ExtTreeSet.contains_iff_mem]
    · intro id s hs
      rcases hsplits.present id s hs with hs | hsome
      · rw [hold.2 id] at hs
        cases hs
      · exact hsome
  · rw [Function.update_of_ne hkey]
    refine (h.sets key).keep hbest ?_ fun id => hsplits.other id key hkey
    rw [peerFib_setPeerFib, if_neg hkey, hsplits.same.infoBase]

/-- The share of an egress session that the nodes no longer lead to. -/
def Dropped (r : Relay) (old new : ExtTreeSet NodeIdValueType × UInt64) (id : PeerSessionId) :
    Prop :=
  id ≠ 0 ∧ new.2 ≠ old.2 ∧ r.LeadsTo old.1.toList id ∧ ¬ r.LeadsTo new.1.toList id

/-- What an update leaves: a session loses, under its own id, what was not updated. -/
structure Updated (r : Relay) (ingress : PeerSessionId) (snsId : SubscribeNodeSetId)
    (old new : ExtTreeSet NodeIdValueType × UInt64) (r' : Relay) : Prop where
  same : SameBest r r'
  fib : ∀ key, key ≠ (ingress, snsId) → r'.infoBase.peerFib[key]? = r.infoBase.peerFib[key]?
  row : ∃ row, r'.infoBase.peerFib[(ingress, snsId)]? = some row ∧
    (∀ egress, row.contains egress = true ↔ r.LeadsTo new.1.toList egress ∨
      (new.2 = old.2 ∧ r.LeadsTo old.1.toList egress)) ∧
    ∀ (egress : PeerSessionId) (entry : FibEntry), row[egress]? = some entry →
      entry.updateRef = new.2 ∧ entry.peerSession = if egress = 0 then none else some egress
  other : ∀ id key, key ≠ (ingress, snsId) → ¬ (key = (id, snsId) ∧ r.Dropped old new id) →
    r'.snsAt id key = r.snsAt id key
  dropped : ∀ id, r.Dropped old new id → r'.snsAt id (id, snsId) = none
  members : ∀ id n, ¬ (id = ingress ∧ r.Dropped old new id) →
    (r'.inSns id (ingress, snsId) n ↔
      (old.1.contains n = true ∨ new.1.contains n = true) ∧ n ≠ r.nodeId ∧
        r.bestSession n = some id)
  nonempty : ∀ id s, r'.snsAt id (ingress, snsId) = some s → ∃ n, s.contains n = true

section Update

variable {row row' : ExtTreeMap PeerSessionId FibEntry} {key : PeerSessionId × SubscribeNodeSetId}
  {old : ExtTreeSet NodeIdValueType × UInt64}

/-- The row of the old node set. -/
structure OldRow (r : Relay) (row : ExtTreeMap PeerSessionId FibEntry)
    (old : ExtTreeSet NodeIdValueType × UInt64) : Prop where
  contains_iff : ∀ egress, row.contains egress = true ↔ r.LeadsTo old.1.toList egress
  entry : ∀ (egress : PeerSessionId) (entry : FibEntry), row[egress]? = some entry →
    entry.updateRef = old.2 ∧ entry.peerSession = if egress = 0 then none else some egress

/-- The entries that the loop drops are the old ones, that no node of the new set leads to. -/
theorem OldRow.dropped_iff (h : OldRow r row old) {nodes : ExtTreeSet NodeIdValueType}
    (hsplits : Splits key updateRef nodes.toList (r, row) (r', row')) (id : PeerSessionId) :
    (∃ entry ∈ row'.toList.map Prod.snd, entry.updateRef ≠ updateRef ∧
      entry.peerSession = some id) ↔ r.Dropped old (nodes, updateRef) id := by
  constructor
  · rintro ⟨_, hvalue, href, hpeer⟩
    obtain ⟨⟨egress, entry⟩, hmem, rfl⟩ := List.mem_map.mp hvalue
    have hget : row'[egress]? = some entry := ExtTreeMap.mem_toList_iff_getElem?_eq_some.mp hmem
    have hnot : ¬ r.LeadsTo nodes.toList egress := by
      intro hnew
      obtain ⟨entry', hentry', href', -⟩ := hsplits.touched egress hnew
      rw [hentry'] at hget
      cases hget
      exact href href'
    have hget' : row[egress]? = some entry := (hsplits.untouched egress hnot).symm.trans hget
    obtain ⟨href', hpeer'⟩ := h.entry egress entry hget'
    have hpeer : entry.peerSession = some id := hpeer
    rw [hpeer] at hpeer'
    split at hpeer'
    · cases hpeer'
    · rename_i hne
      cases hpeer'
      have hold := (h.contains_iff id).mp (ExtTreeMap.contains_iff_getElem?.mpr ⟨_, hget'⟩)
      refine ⟨hne, ?_, hold, hnot⟩
      rw [← href']
      exact Ne.symm href
  · rintro ⟨hne, href, hold, hnot⟩
    obtain ⟨entry, hget⟩ := ExtTreeMap.contains_iff_getElem?.mp ((h.contains_iff id).mpr hold)
    obtain ⟨href', hpeer⟩ := h.entry id entry hget
    have hget' : row'[id]? = some entry := (hsplits.untouched id hnot).trans hget
    refine ⟨entry, List.mem_map.mpr ⟨(id, entry),
      ExtTreeMap.mem_toList_iff_getElem?_eq_some.mpr hget', rfl⟩, ?_, ?_⟩
    · rw [href']
      exact Ne.symm href
    · rw [hpeer, if_neg hne]

/-- What the new nodes do not lead to is kept when the two values of `rand` are the same. -/
theorem OldRow.updated (h : OldRow r row old) {nodes : ExtTreeSet NodeIdValueType}
    (hsplits : Splits key updateRef nodes.toList (r, row) (r', row')) :
    (∀ egress, (row'.filter fun _ entry => entry.updateRef = updateRef).contains egress = true ↔
      r.LeadsTo nodes.toList egress ∨ (updateRef = old.2 ∧ r.LeadsTo old.1.toList egress)) ∧
    ∀ (egress : PeerSessionId) (entry : FibEntry),
      (row'.filter fun _ entry => entry.updateRef = updateRef)[egress]? = some entry →
        entry.updateRef = updateRef ∧
          entry.peerSession = if egress = 0 then none else some egress := by
  have hrow : ∀ (egress : PeerSessionId) (entry : FibEntry),
      (row'.filter fun _ entry => entry.updateRef = updateRef)[egress]? = some entry ↔
        row'[egress]? = some entry ∧ entry.updateRef = updateRef := by
    intro egress entry
    rw [ExtTreeMap.getElem?_filter', Option.filter_eq_some_iff, decide_eq_true_iff]
  refine ⟨fun egress => ?_, fun egress entry hget => ?_⟩
  · rw [ExtTreeMap.contains_iff_getElem?]
    simp only [hrow]
    by_cases hnew : r.LeadsTo nodes.toList egress
    · obtain ⟨entry, hget, href, -⟩ := hsplits.touched egress hnew
      exact iff_of_true ⟨entry, hget, href⟩ (.inl hnew)
    · rw [hsplits.untouched egress hnew, ← h.contains_iff, ExtTreeMap.contains_iff_getElem?]
      simp only [hnew, false_or]
      constructor
      · rintro ⟨entry, hget, href⟩
        exact ⟨href.symm.trans (h.entry egress entry hget).1, entry, hget⟩
      · rintro ⟨href, entry, hget⟩
        exact ⟨entry, hget, (h.entry egress entry hget).1.trans href.symm⟩
  · obtain ⟨hget, href⟩ := (hrow egress entry).mp hget
    refine ⟨href, ?_⟩
    by_cases hnew : r.LeadsTo nodes.toList egress
    · obtain ⟨entry', hget', -, hpeer⟩ := hsplits.touched egress hnew
      rw [hget'] at hget
      cases hget
      exact hpeer
    · rw [hsplits.untouched egress hnew] at hget
      exact (h.entry egress entry hget).2

theorem updated_snsReceived (h : SetsInv r current)
    (hsome : current (ingress, sns.id) = some old) :
    ∃ r', r.snsReceived q ingress sns false updateRef = some r' ∧
      Updated r ingress sns.id old (sns.nodes, updateRef) r' := by
  have hset := h.sets (ingress, sns.id)
  have hold := hset.translates
  rw [hsome] at hold
  obtain ⟨row, hrow, hself, hegress, hmembers⟩ := hold
  have holdRow : OldRow r row old := ⟨contains_iff_leadsTo h.zero hself hegress,
    fun egress entry => hset.entry row old.1 old.2 egress entry hrow hsome⟩
  have hsplits : Splits (ingress, sns.id) updateRef sns.nodes.toList (r, row)
      (sns.nodes.toList.foldl (snsNode q ingress sns.id updateRef) (r, row)) :=
    splits_foldl q ingress sns.id h.zero _
  unfold snsReceived
  dsimp only
  rw [if_neg (by simp), hrow]
  dsimp only
  generalize sns.nodes.toList.foldl (snsNode q ingress sns.id updateRef) (r, row) = acc
    at hsplits ⊢
  obtain ⟨r', row'⟩ := acc
  dsimp only
  obtain ⟨hsame, hsns⟩ := dropEgress_foldl sns.id updateRef r' (row'.toList.map Prod.snd)
  have hdropped := holdRow.dropped_iff hsplits
  obtain ⟨hcontains, hentry⟩ := holdRow.updated hsplits
  set r₂ := (row'.toList.map Prod.snd).foldl (dropEgress sns.id updateRef) r'
  have hkept : ∀ id key, ¬ (key = (id, sns.id) ∧ r.Dropped old (sns.nodes, updateRef) id) →
      r₂.snsAt id key = r'.snsAt id key := by
    intro id key hnot
    rw [hsns, if_neg]
    exact fun hdrop => hnot ⟨hdrop.1, (hdropped id).mp hdrop.2⟩
  have hsame₂ : SameRoutes r r₂ := hsplits.same.trans hsame
  refine ⟨_, rfl, hsame₂.sameBest _, ?_, ?_, ?_, ?_, ?_, ?_⟩
  · intro key hkey
    rw [peerFib_setPeerFib, if_neg hkey, hsame₂.infoBase]
  · exact ⟨_, (peerFib_setPeerFib _ _ _ _).trans (if_pos rfl), hcontains, hentry⟩
  · intro id key hkey hnot
    rw [snsAt_setPeerFib, hkept id key hnot]
    exact hsplits.other id key hkey
  · intro id hdrop
    rw [snsAt_setPeerFib, hsns, if_pos ⟨rfl, (hdropped id).mpr hdrop⟩]
  · intro id n hnot
    have hkeep : r₂.inSns id (ingress, sns.id) n ↔ r'.inSns id (ingress, sns.id) n := by
      unfold inSns
      rw [hkept]
      rintro ⟨hkey, hdrop⟩
      exact hnot ⟨(congrArg Prod.fst hkey).symm, hdrop⟩
    refine Iff.trans hkeep ?_
    rw [hsplits.members, hmembers, ExtTreeSet.mem_toList, ← ExtTreeSet.contains_iff_mem]
    exact or_and_right.symm
  · intro id s hs
    rw [snsAt_setPeerFib, hsns] at hs
    split at hs
    · cases hs
    · rcases hsplits.present id s hs with hs | hsome
      · exact hset.nonempty id s hs
      · exact hsome

end Update

/-- An update takes nothing away that the code keeps: a node that is no longer in the set is this
relay or leads to no session, or the whole share of the ingress session itself is gone; and `rand`
has to tell the two messages apart. -/
def CleanUpdate (r : Relay) (ingress : PeerSessionId)
    (old new : ExtTreeSet NodeIdValueType × UInt64) : Prop :=
  ∀ n, old.1.contains n = true → new.1.contains n = false →
    (n = r.nodeId → new.2 ≠ old.2) ∧
    (n ≠ r.nodeId → ∀ egress, r.bestSession n = some egress → egress = ingress ∧ new.2 ≠ old.2 ∧
      ∀ m, new.1.contains m = true → m ≠ r.nodeId → r.bestSession m ≠ some egress)

/-- The share of an egress session that the new nodes do not lead to. -/
theorem CleanUpdate.of_leadsTo {old new : ExtTreeSet NodeIdValueType × UInt64}
    (hclean : r.CleanUpdate ingress old new) {egress : PeerSessionId}
    (htouches : r.LeadsTo old.1.toList egress) (hnot : ¬ r.LeadsTo new.1.toList egress) :
    new.2 ≠ old.2 ∧ (egress = 0 ∨ egress = ingress) := by
  rw [leadsTo_toList] at htouches hnot
  have hgone : ∀ n, new.1.contains n = true → n ≠ r.nodeId → r.bestSession n ≠ some egress :=
    fun n hn hne hroute => hnot (.inr ⟨n, hn, hne, hroute⟩)
  rcases htouches with ⟨rfl, hself⟩ | ⟨n, hn, hne, hroute⟩
  · have hout : new.1.contains r.nodeId = false := by
      rw [← Bool.not_eq_true]
      exact fun hself' => hnot (.inl ⟨rfl, hself'⟩)
    exact ⟨(hclean _ hself hout).1 rfl, .inl rfl⟩
  · have hout : new.1.contains n = false := by
      rw [← Bool.not_eq_true]
      exact fun hn' => hgone n hn' hne hroute
    obtain ⟨hegress, href, -⟩ := (hclean n hn hout).2 hne egress hroute
    exact ⟨href, .inr hegress⟩

theorem CleanUpdate.dropped {old new : ExtTreeSet NodeIdValueType × UInt64}
    (hclean : r.CleanUpdate ingress old new) {id : PeerSessionId} (hdrop : r.Dropped old new id) :
    id = ingress := by
  obtain ⟨hne, -, hold, hnot⟩ := hdrop
  exact ((hclean.of_leadsTo hold hnot).2).resolve_left hne

theorem setsInv_update (h : SetsInv r current) {old : ExtTreeSet NodeIdValueType × UInt64}
    {new : ExtTreeSet NodeIdValueType × UInt64} {snsId : SubscribeNodeSetId} {r' : Relay}
    (hsome : current (ingress, snsId) = some old) (hupdated : Updated r ingress snsId old new r')
    (hclean : r.CleanUpdate ingress old new) :
    SetsInv r' (Function.update current (ingress, snsId) (some new)) := by
  have hbest := hupdated.same
  refine ⟨(congrFun hbest.live 0).trans h.zero, fun key => ?_⟩
  by_cases hkey : key = (ingress, snsId)
  · subst hkey
    rw [Function.update_self]
    obtain ⟨row, hfib, hcontains, hentry⟩ := hupdated.row
    refine setInv_of_row h.zero hbest hfib ?_ hentry ?_ hupdated.nonempty
    · intro egress
      rw [hcontains]
      constructor
      · rintro (hnew | ⟨href, hold⟩)
        · exact hnew
        · by_contra hnot
          exact (hclean.of_leadsTo hold hnot).1 href
      · exact .inl
    · intro id n
      by_cases hdrop : id = ingress ∧ r.Dropped old new id
      · obtain ⟨rfl, hdrop⟩ := hdrop
        have hnone := hupdated.dropped id hdrop
        constructor
        · rintro ⟨s, hs, -⟩
          rw [hnone] at hs
          cases hs
        · rintro ⟨hn, hne, hroute⟩
          exact absurd ((leadsTo_toList r new.1 id).mpr (.inr ⟨n, hn, hne, hroute⟩)) hdrop.2.2.2
      · rw [hupdated.members id n hdrop]
        constructor
        · rintro ⟨hn | hn, hne, hroute⟩
          · -- A node that is gone would have taken its session along.
            refine ⟨?_, hne, hroute⟩
            by_contra hout
            rw [Bool.not_eq_true] at hout
            obtain ⟨rfl, href, hgone⟩ := (hclean n hn hout).2 hne id hroute
            have hne0 : id ≠ 0 := by
              rintro rfl
              have hlive := (Option.filter_eq_some_iff.mp hroute).2
              rw [h.zero] at hlive
              cases hlive
            refine hdrop ⟨rfl, hne0, href, ?_, ?_⟩
            · exact (leadsTo_toList r old.1 id).mpr (.inr ⟨n, hn, hne, hroute⟩)
            · rw [leadsTo_toList]
              rintro (⟨hid, -⟩ | ⟨m, hm, hmne, hmroute⟩)
              · exact hne0 hid
              · exact hgone m hm hmne hmroute
          · exact ⟨hn, hne, hroute⟩
        · rintro ⟨hn, hne, hroute⟩
          exact ⟨.inr hn, hne, hroute⟩
  · rw [Function.update_of_ne hkey]
    refine (h.sets key).keep hbest (hupdated.fib key hkey) fun id => ?_
    refine hupdated.other id key hkey ?_
    rintro ⟨rfl, hdrop⟩
    exact hkey (by rw [hclean.dropped hdrop])

/-- The condition is exact: where it fails, the node set is wrong after the update. -/
theorem cleanUpdate_of_translates {old new : ExtTreeSet NodeIdValueType × UInt64}
    {snsId : SubscribeNodeSetId} {r' : Relay} (hupdated : Updated r ingress snsId old new r')
    (htranslates : r'.Translates (ingress, snsId) (some new.1)) :
    r.CleanUpdate ingress old new := by
  have hbest := hupdated.same
  obtain ⟨row, hfib, hcontains, -⟩ := hupdated.row
  obtain ⟨row₁, hfib₁, hself, -, hmembers⟩ := htranslates
  rw [hfib] at hfib₁
  cases hfib₁
  intro n hn hout
  refine ⟨?_, ?_⟩
  · rintro rfl href
    have hzero : row.contains 0 = true :=
      (hcontains 0).mpr (.inr ⟨href, (leadsTo_toList r old.1 0).mpr (.inl ⟨rfl, hn⟩)⟩)
    rw [hself, hbest.nodeId, hout] at hzero
    cases hzero
  · intro hne egress hroute
    have hnot : ¬ r'.inSns egress (ingress, snsId) n := by
      rw [hmembers, hout]
      exact fun hin => absurd hin.1 (by simp)
    have hdrop : egress = ingress ∧ r.Dropped old new egress := by
      by_contra hdrop
      exact hnot ((hupdated.members egress n hdrop).mpr ⟨.inl hn, hne, hroute⟩)
    obtain ⟨rfl, -, href, -, hnew⟩ := hdrop
    refine ⟨rfl, href, fun m hm hmne hmroute => hnew ?_⟩
    exact (leadsTo_toList r new.1 egress).mpr (.inr ⟨m, hm, hmne, hmroute⟩)

end Message

/-! ### Runs -/

/-- A node set that comes from a session, with what `rand` returns for it. -/
structure SnsMessage where
  ingress : PeerSessionId
  sns : SubscribeNodeSet
  withdraw : Bool
  updateRef : UInt64

def SnsMessage.key (message : SnsMessage) : PeerSessionId × SubscribeNodeSetId :=
  (message.ingress, message.sns.id)

def SnsMessage.content (message : SnsMessage) : ExtTreeSet NodeIdValueType × UInt64 :=
  (message.sns.nodes, message.updateRef)

def snsMessages (q : Quicr) (r : Relay) (messages : List SnsMessage) : Option Relay :=
  messages.foldlM
    (fun r message =>
      r.snsReceived q message.ingress message.sns message.withdraw message.updateRef) r

/-- What the last message about a node set says; `none` after a withdrawal and before the first
message. -/
def lastSns (messages : List SnsMessage) (key : PeerSessionId × SubscribeNodeSetId) :
    Option (ExtTreeSet NodeIdValueType × UInt64) :=
  ((messages.filter fun message => message.key = key).getLast?).bind fun message =>
    if message.withdraw then none else some message.content

theorem lastSns_concat (messages : List SnsMessage) (message : SnsMessage) :
    lastSns (messages ++ [message]) = Function.update (lastSns messages) message.key
      (if message.withdraw then none else some message.content) := by
  funext key
  unfold lastSns
  rw [List.filter_append]
  by_cases hkey : key = message.key
  · subst hkey
    simp
  · simp [Function.update_of_ne hkey, Ne.symm hkey]

/-- All the updates of a run are clean. -/
def CleanRun (r : Relay) (messages : List SnsMessage) : Prop :=
  ∀ before message, before ++ [message] <+: messages → message.withdraw = false →
    ∀ old, lastSns before message.key = some old →
      r.CleanUpdate message.ingress old message.content

theorem CleanRun.of_append {r : Relay} {messages after : List SnsMessage}
    (h : r.CleanRun (messages ++ after)) : r.CleanRun messages :=
  fun before message hbefore => h before message (hbefore.trans (List.prefix_append _ _))

/-- A relay without node sets of other relays.  The egress 0 is the relay itself. -/
structure FreshSets (r : Relay) : Prop where
  zero : r.live 0 = false
  peerFib : r.infoBase.peerFib = ∅
  peerSns : ∀ id key, r.snsAt id key = none

theorem FreshSets.inv {r : Relay} (h : FreshSets r) : SetsInv r fun _ => none := by
  refine ⟨h.zero, fun key => ⟨⟨?_, fun id => h.peerSns id key⟩, ?_, ?_⟩⟩
  · rw [h.peerFib]
    exact ExtTreeMap.getElem?_empty
  · intro _ _ _ _ _ _ hcurrent
    cases hcurrent
  · intro id s hs
    rw [h.peerSns] at hs
    cases hs

theorem CleanUpdate.of_sameBest {r r' : Relay} (hbest : SameBest r r') {ingress : PeerSessionId}
    {old new : ExtTreeSet NodeIdValueType × UInt64} :
    r'.CleanUpdate ingress old new ↔ r.CleanUpdate ingress old new := by
  unfold CleanUpdate
  simp only [hbest.nodeId, hbest.bestSession]

theorem SameBest.trans {r r' r'' : Relay} (h : SameBest r r') (h' : SameBest r' r'') :
    SameBest r r'' :=
  ⟨h'.nodeId.trans h.nodeId, h'.nodesBest.trans h.nodesBest, h'.live.trans h.live⟩

/-- One message of a run, when the node sets are right before it. -/
theorem setsInv_snsReceived (q : Quicr) {r : Relay} {messages : List SnsMessage}
    (h : SetsInv r (lastSns messages)) (message : SnsMessage) :
    ∃ r', r.snsReceived q message.ingress message.sns message.withdraw message.updateRef =
        some r' ∧ SameBest r r' ∧
      ((message.withdraw = false → ∀ old, lastSns messages message.key = some old →
          r.CleanUpdate message.ingress old message.content) →
        SetsInv r' (lastSns (messages ++ [message]))) ∧
      (r'.Translates message.key ((lastSns (messages ++ [message]) message.key).map Prod.fst) →
        message.withdraw = false → ∀ old, lastSns messages message.key = some old →
          r.CleanUpdate message.ingress old message.content) := by
  rw [lastSns_concat, Function.update_self]
  cases hwithdraw : message.withdraw with
  | true =>
    obtain ⟨r', hr', hbest, hinv⟩ := setsInv_withdraw (q := q) message.sns h
    exact ⟨r', hr', hbest, fun _ => hinv, fun _ hfalse => by cases hfalse⟩
  | false =>
    cases hlast : lastSns messages message.key with
    | none =>
      obtain ⟨r', hr', hbest, hinv⟩ := setsInv_first (q := q) message.sns h hlast
      exact ⟨r', hr', hbest, fun _ => hinv, fun _ _ old hold => by cases hold⟩
    | some old =>
      obtain ⟨r', hr', hupdated⟩ := updated_snsReceived (q := q) h hlast
      refine ⟨r', hr', hupdated.same, ?_, ?_⟩
      · intro hclean
        exact setsInv_update h hlast hupdated (hclean rfl old rfl)
      · rintro htranslates - old' hold
        cases hold
        exact cleanUpdate_of_translates hupdated htranslates

theorem snsMessages_concat (q : Quicr) {r r' : Relay} {messages : List SnsMessage}
    (hr' : r.snsMessages q messages = some r') (message : SnsMessage) :
    r.snsMessages q (messages ++ [message]) =
      r'.snsReceived q message.ingress message.sns message.withdraw message.updateRef := by
  unfold snsMessages at hr' ⊢
  rw [List.foldlM_append, hr']
  simp

theorem CleanRun.inv (q : Quicr) {r : Relay} (hfresh : FreshSets r) {messages : List SnsMessage}
    (hclean : r.CleanRun messages) :
    ∃ r', r.snsMessages q messages = some r' ∧ SameBest r r' ∧ SetsInv r' (lastSns messages) := by
  induction messages using List.reverseRecOn with
  | nil => exact ⟨r, rfl, ⟨rfl, rfl, rfl⟩, hfresh.inv⟩
  | append_singleton messages message ih =>
    obtain ⟨r', hr', hbest, hinv⟩ := ih hclean.of_append
    obtain ⟨r'', hr'', hbest', hnext, -⟩ := setsInv_snsReceived q hinv message
    refine ⟨r'', (snsMessages_concat q hr' message).trans hr'', hbest.trans hbest', hnext ?_⟩
    intro hwithdraw old hold
    rw [CleanUpdate.of_sameBest hbest]
    exact hclean messages message (List.prefix_refl _) hwithdraw old hold

/-- A relay translates the node sets exactly, after every message of a run, if and only if the
updates take nothing away that the code keeps. -/
theorem translates_iff_cleanRun (q : Quicr) (r : Relay) (hfresh : FreshSets r)
    (messages : List SnsMessage) :
    (∀ before, before <+: messages → ∃ r', r.snsMessages q before = some r' ∧
      ∀ key, r'.Translates key ((lastSns before key).map Prod.fst)) ↔ r.CleanRun messages := by
  constructor
  · intro htranslates
    induction messages using List.reverseRecOn with
    | nil =>
      intro before message hprefix
      simp at hprefix
    | append_singleton messages message ih =>
      have hclean := ih fun before hbefore =>
        htranslates before (hbefore.trans (List.prefix_append _ _))
      obtain ⟨r', hr', hbest, hinv⟩ := hclean.inv q hfresh
      obtain ⟨r'', hr'', -, -, hexact⟩ := setsInv_snsReceived q hinv message
      intro before message' hprefix
      rcases List.prefix_concat_iff.mp hprefix with hlast | hearlier
      · obtain ⟨rfl, hmessage⟩ := List.append_inj' hlast rfl
        cases hmessage
        obtain ⟨r₁, hr₁, hright⟩ := htranslates _ (List.prefix_refl _)
        rw [snsMessages_concat q hr', hr''] at hr₁
        cases hr₁
        have hupdate := hexact (hright message.key)
        simp only [CleanUpdate.of_sameBest hbest] at hupdate
        exact hupdate
      · exact hclean before message' hearlier
  · intro hclean before hbefore
    obtain ⟨after, rfl⟩ := hbefore
    obtain ⟨r', hr', -, hinv⟩ := hclean.of_append.inv q hfresh
    exact ⟨r', hr', fun key => (hinv.sets key).translates⟩

/-- Node 1 with sessions to nodes 2 and 3; the second leads to node 4 too. -/
def twoSessions : Relay where
  nodeId := 1
  clientPeerSessions := ((∅ : ExtTreeMap PeerSessionId PeerSession).insert 7
    { status := .connected, nodeId := 1, remoteNodeInfo := { id := 2 } }).insert 8
      { status := .connected, nodeId := 1, remoteNodeInfo := { id := 3 } }
  infoBase := { nodesBest := ((∅ : ExtTreeMap NodeIdValueType PeerSessionId).insert 2 7
    |>.insert 3 8).insert 4 8 }

theorem freshSets_twoSessions : FreshSets twoSessions := by
  refine ⟨by decide +kernel, rfl, fun id key => ?_⟩
  have hget : twoSessions.getPeerSession id =
      if id = 8 then some { status := .connected, nodeId := 1, remoteNodeInfo := { id := 3 } }
      else if id = 7 then some { status := .connected, nodeId := 1, remoteNodeInfo := { id := 2 } }
      else none := by
    simp only [getPeerSession, twoSessions, ExtTreeMap.getElem?_empty,
      ExtTreeMap.getElem?_insert_ite]
  unfold snsAt
  rw [hget]
  split
  · simp
  · split <;> simp

/-- Session 7 advertises its node set 5. -/
def advertiseFive (nodes : List NodeIdValueType) (updateRef : UInt64) : SnsMessage :=
  ⟨7, { id := 5, nodes := .ofList nodes }, false, updateRef⟩

/-- The node set grows. -/
theorem translates_growingSet :
    FreshSets twoSessions ∧
      ∀ before, before <+: [advertiseFive [3] 1, advertiseFive [1, 3, 4] 2] →
        ∃ r', twoSessions.snsMessages .polynomial before = some r' ∧
          ∀ key, r'.Translates key ((lastSns before key).map Prod.fst) := by
  refine ⟨freshSets_twoSessions,
    (translates_iff_cleanRun .polynomial twoSessions freshSets_twoSessions _).mpr ?_⟩
  rintro before message ⟨after, hafter⟩ hwithdraw old hold n hn hout
  match before with
  | [] => simp [lastSns] at hold
  | [first] =>
    obtain ⟨rfl, rfl, -⟩ : first = advertiseFive [3] 1 ∧ message = advertiseFive [1, 3, 4] 2 ∧
        after = [] := by
      simpa using hafter
    have hold' : old = (.ofList [(3 : NodeIdValueType)], 1) := by
      simpa [lastSns, advertiseFive, SnsMessage.key, SnsMessage.content] using hold.symm
    subst hold'
    have hthree : 3 = n := by simpa using hn
    subst hthree
    simp [advertiseFive, SnsMessage.content] at hout
  | first :: second :: rest =>
    have := congrArg List.length hafter
    simp at this

/-- A node leaves a node set, while another one keeps the session: the session keeps both. -/
theorem not_translates :
    ¬ ∀ (q : Quicr) (r : Relay), FreshSets r → ∀ messages : List SnsMessage,
      ∃ r', r.snsMessages q messages = some r' ∧
        ∀ key, r'.Translates key ((lastSns messages key).map Prod.fst) := by
  intro hall
  obtain ⟨r', hr', htranslates⟩ := hall .polynomial twoSessions freshSets_twoSessions
    [advertiseFive [3, 4] 1, advertiseFive [3] 2]
  have hkept : (twoSessions.snsMessages .polynomial
      [advertiseFive [3, 4] 1, advertiseFive [3] 2]).map (fun r => r.snsAt 8 (7, 5)) =
        some (some (.ofList [(3 : NodeIdValueType), 4])) := by
    decide +kernel
  rw [hr', Option.map_some, Option.some.injEq] at hkept
  obtain ⟨row, -, -, -, hmembers⟩ := htranslates (7, 5)
  obtain ⟨hin, -⟩ := (hmembers 8 4).mp ⟨_, hkept, by decide +kernel⟩
  exact absurd hin (by decide +kernel)

end Laps.Relay
