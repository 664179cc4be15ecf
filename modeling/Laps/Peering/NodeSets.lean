import Laps.Peering.Session
import Mathlib.Data.List.Induction

/-! The node sets of a session and what the other relay knows of them: it keeps the node set that
was advertised last under each id, until the id is withdrawn. -/

namespace Laps.Peering.PeerSession

open Std

inductive SnsCall where
  | addSubscribeSourceNode (fullNameHash : UInt64) (subNodeId : NodeIdValueType)
  | removeSubscribeSourceNode (fullNameHash : UInt64) (subNodeId : NodeIdValueType)
  | addPeerSnsSourceNode (inPeerSessionId : PeerSessionId) (inSnsId : SubscribeNodeSetId)
    (subNodeId : NodeIdValueType)
  | removePeerSnsSourceNode (inPeerSessionId : PeerSessionId) (inSnsId : SubscribeNodeSetId)
    (subNodeId : NodeIdValueType)
  | connect
  | sendConnect (info : NodeInfo)
  | setStatus (status : StatusValue)
  deriving DecidableEq, Repr

def snsCall (q : Quicr) (session : PeerSession) : SnsCall → PeerSession
  | .addSubscribeSourceNode hash node => (session.addSubscribeSourceNode q hash node).1
  | .removeSubscribeSourceNode hash node => (session.removeSubscribeSourceNode hash node).1
  | .addPeerSnsSourceNode peer sns node => (session.addPeerSnsSourceNode q peer sns node).1
  | .removePeerSnsSourceNode peer sns node => (session.removePeerSnsSourceNode peer sns node).1
  | .connect => session.connect q
  | .sendConnect info => session.sendConnect info
  | .setStatus status => { session with status }

def snsCalls (q : Quicr) (session : PeerSession) (calls : List SnsCall) : PeerSession :=
  calls.foldl (snsCall q) session

/-- What a message does to the node sets that the receiver knows by their ids. -/
def receiveSns (view : ExtTreeMap SubscribeNodeSetId (ExtTreeSet NodeIdValueType)) :
    ControlMessage → ExtTreeMap SubscribeNodeSetId (ExtTreeSet NodeIdValueType)
  | .subscribeNodeSet sns false => view.insert sns.id sns.nodes
  | .subscribeNodeSet sns true => view.erase sns.id
  | _ => view

/-- The receiver's view, when all messages of the connection have arrived. -/
def received (session : PeerSession) :
    ExtTreeMap SubscribeNodeSetId (ExtTreeSet NodeIdValueType) :=
  session.enqueued.foldl receiveSns ∅

/-- The node sets of both tables: of a track, or of a node set of another session. -/
def nodeSet (session : PeerSession) :
    UInt64 ⊕ (PeerSessionId × SubscribeNodeSetId) → Option SubscribeNodeSet
  | .inl hash => session.subSns[hash]?
  | .inr key => session.peerSns[key]?

/-- The receiver knows exactly the node sets of the session. -/
def Agree (session : PeerSession) : Prop :=
  ∀ id nodes, session.received[id]? = some nodes ↔
    ∃ key, session.nodeSet key = some { id, nodes }

/-! ### An invariant of both tables -/

structure Synced (session : PeerSession) : Prop where
  agree : session.Agree
  set : ∀ key sns, session.nodeSet key = some sns →
    sns.id ≠ 0 ∧ session.dataContexts.contains sns.id = true ∧ sns.nodes.isEmpty = false
  inj : ∀ key key' sns sns', session.nodeSet key = some sns → session.nodeSet key' = some sns' →
    sns.id = sns'.id → key = key'

section Synced

variable {session session' : PeerSession} {sns : SubscribeNodeSet}

/-- Nothing changes for the receiver. -/
theorem Synced.keep (h : session.Synced) (hset : session'.nodeSet = session.nodeSet)
    (hreceived : session'.received = session.received)
    (hcontexts : ∀ id, session.dataContexts.contains id = true →
      session'.dataContexts.contains id = true) : session'.Synced := by
  refine ⟨?_, ?_, ?_⟩
  · intro id nodes
    rw [hset, hreceived]
    exact h.agree id nodes
  · intro key sns hsns
    rw [hset] at hsns
    obtain ⟨hid, hcontext, hnodes⟩ := h.set key sns hsns
    exact ⟨hid, hcontexts _ hcontext, hnodes⟩
  · rw [hset]
    exact h.inj

/-- A node set is advertised, under the id that it has or under a new one. -/
theorem Synced.put (h : session.Synced)
    (key : UInt64 ⊕ (PeerSessionId × SubscribeNodeSetId)) (sns : SubscribeNodeSet)
    (hset : ∀ key', session'.nodeSet key' = if key' = key then some sns else session.nodeSet key')
    (hreceived : session'.received = session.received.insert sns.id sns.nodes)
    (hid : sns.id ≠ 0) (hcontext : session'.dataContexts.contains sns.id = true)
    (hnodes : sns.nodes.isEmpty = false)
    (hcontexts : ∀ id, session.dataContexts.contains id = true →
      session'.dataContexts.contains id = true)
    (hold : (∃ old, session.nodeSet key = some old ∧ old.id = sns.id) ∨
      (session.nodeSet key = none ∧ session.dataContexts.contains sns.id = false)) :
    session'.Synced := by
  -- No other node set has the id.
  have hother : ∀ key' sns', key' ≠ key → session.nodeSet key' = some sns' → sns'.id ≠ sns.id := by
    intro key' sns' hkey hsns' heq
    rcases hold with ⟨old, hold, hsame⟩ | ⟨-, hfree⟩
    · exact hkey (h.inj key' key sns' old hsns' hold (heq.trans hsame.symm))
    · have hused := (h.set key' sns' hsns').2.1
      rw [heq, hfree] at hused
      cases hused
  refine ⟨fun id nodes => ?_, fun key' sns' hsns' => ?_, ?_⟩
  · rw [hreceived, ExtTreeMap.getElem?_insert]
    split
    · rename_i heq
      cases LawfulEqOrd.eq_of_compare heq
      constructor
      · intro hsome
        cases hsome
        exact ⟨key, by rw [hset, if_pos rfl]⟩
      · rintro ⟨key', hkey'⟩
        rw [hset] at hkey'
        split at hkey'
        · rw [Option.some.inj hkey']
        · rename_i hne
          exact absurd (rfl : sns.id = sns.id) (hother key' ⟨sns.id, nodes⟩ hne hkey')
    · rename_i hne
      rw [h.agree]
      constructor
      · rintro ⟨key', hkey'⟩
        refine ⟨key', ?_⟩
        rw [hset, if_neg]
        · exact hkey'
        · rintro rfl
          rcases hold with ⟨old, hold, hsame⟩ | ⟨hnone, -⟩
          · cases hold.symm.trans hkey'
            exact hne (by rw [← hsame]; exact ReflOrd.compare_self)
          · cases hnone.symm.trans hkey'
      · rintro ⟨key', hkey'⟩
        rw [hset] at hkey'
        split at hkey'
        · cases hkey'
          exact absurd ReflOrd.compare_self hne
        · exact ⟨key', hkey'⟩
  · rw [hset] at hsns'
    split at hsns'
    · cases hsns'
      exact ⟨hid, hcontext, hnodes⟩
    · obtain ⟨hid', hcontext', hnodes'⟩ := h.set key' sns' hsns'
      exact ⟨hid', hcontexts _ hcontext', hnodes'⟩
  · intro key₁ key₂ sns₁ sns₂ h₁ h₂ heq
    rw [hset] at h₁ h₂
    split at h₁ <;> split at h₂
    · rename_i hkey₁ hkey₂
      rw [hkey₁, hkey₂]
    · rename_i hkey₂
      cases h₁
      exact absurd heq.symm (hother key₂ sns₂ hkey₂ h₂)
    · rename_i hkey₁ _
      cases h₂
      exact absurd heq (hother key₁ sns₁ hkey₁ h₁)
    · exact h.inj key₁ key₂ sns₁ sns₂ h₁ h₂ heq

/-- A node set is withdrawn. -/
theorem Synced.drop (h : session.Synced)
    (key : UInt64 ⊕ (PeerSessionId × SubscribeNodeSetId)) (hkey : session.nodeSet key = some sns)
    (hset : ∀ key', session'.nodeSet key' = if key' = key then none else session.nodeSet key')
    (hreceived : session'.received = session.received.erase sns.id)
    (hcontexts : ∀ id, id ≠ sns.id → session.dataContexts.contains id = true →
      session'.dataContexts.contains id = true) : session'.Synced := by
  have hother : ∀ key' sns', session'.nodeSet key' = some sns' →
      key' ≠ key ∧ session.nodeSet key' = some sns' ∧ sns'.id ≠ sns.id := by
    intro key' sns' hsns'
    rw [hset] at hsns'
    split at hsns'
    · cases hsns'
    · rename_i hne
      exact ⟨hne, hsns', fun heq => hne (h.inj key' key sns' sns hsns' hkey heq)⟩
  refine ⟨fun id nodes => ?_, fun key' sns' hsns' => ?_, fun key₁ key₂ sns₁ sns₂ h₁ h₂ => ?_⟩
  · rw [hreceived, ExtTreeMap.getElem?_erase]
    split
    · rename_i heq
      cases LawfulEqOrd.eq_of_compare heq
      constructor
      · intro hsome
        cases hsome
      · rintro ⟨key', hkey'⟩
        exact absurd rfl (hother key' _ hkey').2.2
    · rename_i hne
      rw [h.agree]
      constructor
      · rintro ⟨key', hkey'⟩
        refine ⟨key', ?_⟩
        rw [hset, if_neg]
        · exact hkey'
        · rintro rfl
          cases hkey.symm.trans hkey'
          exact hne ReflOrd.compare_self
      · rintro ⟨key', hkey'⟩
        exact ⟨key', (hother key' _ hkey').2.1⟩
  · obtain ⟨-, hsns, hne⟩ := hother key' sns' hsns'
    obtain ⟨hid, hcontext, hnodes⟩ := h.set key' sns' hsns
    exact ⟨hid, hcontexts _ hne hcontext, hnodes⟩
  · exact h.inj key₁ key₂ sns₁ sns₂ (hother key₁ sns₁ h₁).2.1 (hother key₂ sns₂ h₂).2.1

end Synced

/-! ### The calls -/

theorem received_enqueue (session : PeerSession) (msg : ControlMessage) :
    (session.enqueue msg).received = receiveSns session.received msg := by
  simp [received, enqueue, List.foldl_append]

theorem sendSns_of_connected {session : PeerSession} (h : session.status = .connected)
    (sns : SubscribeNodeSet) (withdraw : Bool) :
    session.sendSns sns withdraw = session.enqueue (.subscribeNodeSet sns withdraw) := by
  rw [sendSns, if_neg (not_not.mpr h)]

theorem received_sendSns {session : PeerSession} (h : session.status = .connected)
    (sns : SubscribeNodeSet) (withdraw : Bool) : (session.sendSns sns withdraw).received =
      receiveSns session.received (.subscribeNodeSet sns withdraw) := by
  rw [sendSns_of_connected h, received_enqueue]

@[simp] theorem nodeSet_sendSns (session : PeerSession) (sns : SubscribeNodeSet)
    (withdraw : Bool) : (session.sendSns sns withdraw).nodeSet = session.nodeSet := by
  unfold sendSns
  split <;> rfl

@[simp] theorem dataContexts_sendSns (session : PeerSession) (sns : SubscribeNodeSet)
    (withdraw : Bool) : (session.sendSns sns withdraw).dataContexts = session.dataContexts := by
  unfold sendSns
  split <;> rfl

/-- The next data context has an id of its own. -/
def NewContext (q : Quicr) (session : PeerSession) : Prop :=
  q.createDataContext session.dataContexts ≠ 0 ∧
    session.dataContexts.contains (q.createDataContext session.dataContexts) = false

/-- The node is in the set, or it can be announced: the session is connected, and a set that is new
gets an id of its own. -/
def CanAdd (q : Quicr) (session : PeerSession)
    (key : UInt64 ⊕ (PeerSessionId × SubscribeNodeSetId)) (node : NodeIdValueType) : Prop :=
  (∃ sns, session.nodeSet key = some sns ∧ sns.nodes.contains node = true) ∨
    (session.status = .connected ∧ (session.nodeSet key = none → session.NewContext q))

/-- The removal changes nothing, or it takes the whole set and the session is connected. -/
def CanRemove (session : PeerSession) (key : UInt64 ⊕ (PeerSessionId × SubscribeNodeSetId))
    (node : NodeIdValueType) : Prop :=
  ∀ sns, session.nodeSet key = some sns → sns.nodes.contains node = true →
    session.status = .connected ∧ (sns.nodes.erase node).isEmpty = true

/-- The call changes no node set without a message, or there is no set for it to change. -/
def Announced (q : Quicr) (session : PeerSession) : SnsCall → Prop
  | .addSubscribeSourceNode hash node => session.CanAdd q (.inl hash) node
  | .removeSubscribeSourceNode hash node => session.CanRemove (.inl hash) node
  | .addPeerSnsSourceNode peer sns node => session.CanAdd q (.inr (peer, sns)) node
  | .removePeerSnsSourceNode peer sns node =>
    if node = 0 then session.nodeSet (.inr (peer, sns)) ≠ none → session.status = .connected
    else session.CanRemove (.inr (peer, sns)) node
  | .connect => session.isInbound = false → session.subSns = ∅
  | .sendConnect _ => session.peerSns = ∅
  | .setStatus _ => True

/-- The set that an addition leaves under the key. -/
def withNode (q : Quicr) (session : PeerSession) (old : Option SubscribeNodeSet)
    (node : NodeIdValueType) : SubscribeNodeSet :=
  let sns := old.getD {}
  { id := if sns.id = 0 then q.createDataContext session.dataContexts else sns.id
    nodes := sns.nodes.insert node }

/-- The contexts after an addition: a set without an id gets a new one. -/
def contextsWith (q : Quicr) (session : PeerSession) (old : Option SubscribeNodeSet) :
    ExtTreeSet SubscribeNodeSetId :=
  if (old.getD {}).id = 0 then
    session.dataContexts.insert (q.createDataContext session.dataContexts)
  else session.dataContexts

theorem contains_contextsWith (q : Quicr) (session : PeerSession) (old : Option SubscribeNodeSet)
    {id : SubscribeNodeSetId} (hid : session.dataContexts.contains id = true) :
    (session.contextsWith q old).contains id = true := by
  unfold contextsWith
  split
  · exact ExtTreeSet.contains_insert_iff.mpr (Or.inr hid)
  · exact hid

/-- An addition to either table. -/
theorem Synced.add {q : Quicr} {session session' : PeerSession} (h : session.Synced)
    (mid : PeerSession) {key : UInt64 ⊕ (PeerSessionId × SubscribeNodeSetId)} {node : NodeIdValueType}
    (hcan : session.CanAdd q key node)
    (hset : ∀ key', mid.nodeSet key' =
      if key' = key then some (session.withNode q (session.nodeSet key) node)
      else session.nodeSet key')
    (hcontexts : mid.dataContexts = session.contextsWith q (session.nodeSet key))
    (hstatus : mid.status = session.status) (hreceived : mid.received = session.received)
    (hsession' : session' =
      if !((session.nodeSet key).getD {}).nodes.contains node then
        mid.sendSns (session.withNode q (session.nodeSet key) node) false
      else mid) : session'.Synced := by
  have hmono : ∀ id, session.dataContexts.contains id = true →
      mid.dataContexts.contains id = true := by
    intro id hid
    rw [hcontexts]
    exact contains_contextsWith q session _ hid
  by_cases hmem : ∃ sns, session.nodeSet key = some sns ∧ sns.nodes.contains node = true
  · -- The node is in the set, and nothing changes.
    obtain ⟨sns, hsns, hnode⟩ := hmem
    have hwith : session.withNode q (session.nodeSet key) node = sns := by
      simp [withNode, hsns, (h.set key sns hsns).1, ExtTreeSet.insert_of_contains hnode]
    have hmid : session' = mid := by simp [hsession', hsns, hnode]
    rw [hmid]
    refine h.keep (funext fun key' => ?_) hreceived hmono
    rw [hset, hwith]
    split
    · rename_i heq
      rw [heq, hsns]
    · rfl
  · obtain ⟨hconnected, hnew⟩ := hcan.resolve_left hmem
    have hadded : ((session.nodeSet key).getD {}).nodes.contains node = false := by
      cases hsns : session.nodeSet key with
      | none => simp
      | some sns =>
        exact Bool.eq_false_iff.mpr fun hnode => hmem ⟨sns, hsns, hnode⟩
    have hsend : session' = mid.sendSns (session.withNode q (session.nodeSet key) node) false := by
      simp [hsession', hadded]
    have hid : (session.withNode q (session.nodeSet key) node).id ≠ 0 ∧
        ((∃ old, session.nodeSet key = some old ∧
          old.id = (session.withNode q (session.nodeSet key) node).id) ∨
        (session.nodeSet key = none ∧ session.dataContexts.contains
          (session.withNode q (session.nodeSet key) node).id = false)) := by
      cases hsns : session.nodeSet key with
      | none => exact ⟨(hnew hsns).1, Or.inr ⟨rfl, (hnew hsns).2⟩⟩
      | some sns =>
        have hne := (h.set key sns hsns).1
        simp [withNode, hne]
    have hcontext : (session.contextsWith q (session.nodeSet key)).contains
        (session.withNode q (session.nodeSet key) node).id = true := by
      cases hsns : session.nodeSet key with
      | none => exact ExtTreeSet.contains_insert_iff.mpr (Or.inl rfl)
      | some sns =>
        have hset := h.set key sns hsns
        simpa [withNode, contextsWith, hset.1] using hset.2.1
    rw [hsend]
    refine h.put key (session.withNode q (session.nodeSet key) node) ?_ ?_ hid.1 ?_ ?_ ?_ hid.2
    · rw [nodeSet_sendSns]
      exact hset
    · rw [received_sendSns (hstatus.trans hconnected), hreceived]
      rfl
    · rw [dataContexts_sendSns, hcontexts]
      exact hcontext
    · exact ExtTreeSet.isEmpty_eq_false_iff_contains.mpr
        ⟨node, ExtTreeSet.contains_insert_iff.mpr (Or.inl rfl)⟩
    · rw [dataContexts_sendSns]
      exact hmono

theorem Synced.addSubscribeSourceNode {q : Quicr} {session : PeerSession} (h : session.Synced)
    {hash : UInt64} {node : NodeIdValueType} (hcan : session.CanAdd q (.inl hash) node) :
    (session.addSubscribeSourceNode q hash node).1.Synced := by
  have hget : session.subSns.getD hash {} = (session.nodeSet (.inl hash)).getD {} :=
    ExtTreeMap.getD_eq_getD_getElem?
  refine h.add { session with
      subSns := session.subSns.insert hash
        (session.withNode q (session.nodeSet (.inl hash)) node)
      dataContexts := session.contextsWith q (session.nodeSet (.inl hash)) } hcan ?_ rfl rfl rfl ?_
  · rintro (hash' | key')
    · show (session.subSns.insert hash _)[hash']? = _
      rw [ExtTreeMap.getElem?_insert_ite]
      simp [nodeSet]
    · rfl
  · simp only [PeerSession.addSubscribeSourceNode, hget]
    rfl

theorem Synced.addPeerSnsSourceNode {q : Quicr} {session : PeerSession} (h : session.Synced)
    {peer : PeerSessionId} {snsId : SubscribeNodeSetId} {node : NodeIdValueType}
    (hcan : session.CanAdd q (.inr (peer, snsId)) node) :
    (session.addPeerSnsSourceNode q peer snsId node).1.Synced := by
  have hget : session.peerSns.getD (peer, snsId) {} =
      (session.nodeSet (.inr (peer, snsId))).getD {} := ExtTreeMap.getD_eq_getD_getElem?
  refine h.add { session with
      peerSns := session.peerSns.insert (peer, snsId)
        (session.withNode q (session.nodeSet (.inr (peer, snsId))) node)
      dataContexts := session.contextsWith q (session.nodeSet (.inr (peer, snsId))) } hcan ?_ rfl rfl rfl ?_
  · rintro (hash' | key')
    · rfl
    · show (session.peerSns.insert (peer, snsId) _)[key']? = _
      rw [ExtTreeMap.getElem?_insert_ite]
      simp [nodeSet]
  · simp only [PeerSession.addPeerSnsSourceNode, hget]
    rfl

/-- A removal of one node from either table. -/
theorem Synced.remove {session session' : PeerSession} (h : session.Synced)
    (key : UInt64 ⊕ (PeerSessionId × SubscribeNodeSetId)) {sns : SubscribeNodeSet}
    {node : NodeIdValueType} (hkey : session.nodeSet key = some sns)
    (hcan : session.CanRemove key node)
    (hempty : (sns.nodes.erase node).isEmpty = true → session.status = .connected →
      (∀ key', session'.nodeSet key' = if key' = key then none else session.nodeSet key') ∧
      session'.received = session.received.erase sns.id ∧
      session'.dataContexts = session.dataContexts.erase sns.id)
    (hrest : (sns.nodes.erase node).isEmpty = false →
      (∀ key', session'.nodeSet key' = if key' = key
        then some { sns with nodes := sns.nodes.erase node } else session.nodeSet key') ∧
      session'.received = session.received ∧ session'.dataContexts = session.dataContexts) :
    session'.Synced := by
  cases hnode : sns.nodes.contains node with
  | true =>
    obtain ⟨hconnected, herased⟩ := hcan sns hkey hnode
    obtain ⟨hset, hreceived, hcontexts⟩ := hempty herased hconnected
    refine h.drop key hkey hset hreceived fun id hid hused => ?_
    rw [hcontexts]
    exact ExtTreeSet.contains_erase_iff.mpr ⟨hid, hused⟩
  | false =>
    -- A set is never empty, so this one stays, and without a change.
    have hsame := ExtTreeSet.erase_of_not_contains hnode
    obtain ⟨hset, hreceived, hcontexts⟩ := hrest (by rw [hsame]; exact (h.set key sns hkey).2.2)
    refine h.keep (funext fun key' => ?_) hreceived (by rw [hcontexts]; exact fun _ hid => hid)
    rw [hset, hsame]
    split
    · rename_i heq
      rw [heq, hkey]
    · rfl

theorem Synced.removeSubscribeSourceNode {session : PeerSession} (h : session.Synced)
    {hash : UInt64} {node : NodeIdValueType} (hcan : session.CanRemove (.inl hash) node) :
    (session.removeSubscribeSourceNode hash node).1.Synced := by
  unfold PeerSession.removeSubscribeSourceNode
  cases hsns : session.subSns[hash]? with
  | none => exact h
  | some sns =>
    refine h.remove (.inl hash) hsns hcan ?_ ?_
    · intro hempty hconnected
      simp only [hempty, if_true]
      rw [sendSns_of_connected (by exact hconnected)]
      refine ⟨?_, received_enqueue session _, rfl⟩
      rintro (hash' | key')
      · show (session.subSns.erase hash)[hash']? = _
        rw [ExtTreeMap.getElem?_erase_ite]
        simp [nodeSet]
      · rfl
    · intro hrest
      simp only [hrest, Bool.false_eq_true, if_false]
      refine ⟨?_, rfl, trivial⟩
      rintro (hash' | key')
      · show (session.subSns.insert hash _)[hash']? = _
        rw [ExtTreeMap.getElem?_insert_ite]
        simp [nodeSet]
      · rfl

theorem Synced.removePeerSnsSourceNode {session : PeerSession} (h : session.Synced)
    {peer : PeerSessionId} {snsId : SubscribeNodeSetId} {node : NodeIdValueType}
    (hzero : node = 0 → session.nodeSet (.inr (peer, snsId)) ≠ none →
      session.status = .connected)
    (hcan : node ≠ 0 → session.CanRemove (.inr (peer, snsId)) node) :
    (session.removePeerSnsSourceNode peer snsId node).1.Synced := by
  have herase : ∀ key', (if key' = Sum.inr (peer, snsId) then none else session.nodeSet key') =
      { session with peerSns := session.peerSns.erase (peer, snsId) }.nodeSet key' := by
    rintro (hash' | key')
    · rfl
    · show _ = (session.peerSns.erase (peer, snsId))[key']?
      rw [ExtTreeMap.getElem?_erase_ite]
      simp [nodeSet]
  unfold PeerSession.removePeerSnsSourceNode
  dsimp only
  cases hsns : session.peerSns[(peer, snsId)]? with
  | none => exact h
  | some sns =>
    by_cases hnode : node = 0
    · -- The whole set is withdrawn; its data context stays.
      have hconnected := hzero hnode (by simp [nodeSet, hsns])
      simp only [hnode, if_true]
      rw [sendSns_of_connected hconnected]
      exact h.drop (.inr (peer, snsId)) hsns (fun key' => (herase key').symm)
        (received_enqueue session _) fun _ _ hused => hused
    · simp only [hnode, if_false]
      refine h.remove (.inr (peer, snsId)) hsns (hcan hnode) ?_ ?_
      · intro hempty hconnected
        simp only [hempty, if_true]
        rw [sendSns_of_connected (by exact hconnected)]
        exact ⟨fun key' => (herase key').symm, received_enqueue session _, rfl⟩
      · intro hrest
        simp only [hrest, Bool.false_eq_true, if_false]
        refine ⟨?_, rfl, trivial⟩
        rintro (hash' | key')
        · rfl
        · show (session.peerSns.insert (peer, snsId) _)[key']? = _
          rw [ExtTreeMap.getElem?_insert_ite]
          simp [nodeSet]

theorem Synced.connect {q : Quicr} {session : PeerSession} (h : session.Synced)
    (hempty : session.isInbound = false → session.subSns = ∅) : (session.connect q).Synced := by
  unfold PeerSession.connect
  split
  · exact h.keep rfl rfl fun _ hid => hid
  · rename_i hinbound
    have hnone : ∀ key, nodeSet { session with
        status := .connecting, remoteNodeInfo := {}, peerSns := ∅,
        dataContexts := (∅ : ExtTreeSet SubscribeNodeSetId).insert (q.createDataContext ∅),
        enqueued := [] } key = none := by
      rintro (hash | key)
      · simp [nodeSet, hempty (Bool.eq_false_iff.mpr hinbound)]
      · simp [nodeSet]
    refine ⟨fun id nodes => ?_, fun key sns hsns => ?_, fun key key' sns sns' hsns => ?_⟩
    · simp [hnone, received]
    · rw [hnone] at hsns
      cases hsns
    · rw [hnone] at hsns
      cases hsns

theorem Synced.snsCall {q : Quicr} {session : PeerSession} (h : session.Synced) {call : SnsCall}
    (hcall : session.Announced q call) : (session.snsCall q call).Synced := by
  cases call with
  | addSubscribeSourceNode hash node => exact h.addSubscribeSourceNode hcall
  | removeSubscribeSourceNode hash node => exact h.removeSubscribeSourceNode hcall
  | addPeerSnsSourceNode peer sns node => exact h.addPeerSnsSourceNode hcall
  | removePeerSnsSourceNode peer sns node =>
    have hcall : if node = 0 then _ else _ := hcall
    refine h.removePeerSnsSourceNode (fun hnode => ?_) fun hnode => ?_
    · rwa [if_pos hnode] at hcall
    · rwa [if_neg hnode] at hcall
  | connect => exact h.connect hcall
  | sendConnect info =>
    refine h.keep (funext ?_) (received_enqueue _ _) fun _ hid => hid
    rintro (hash | key)
    · rfl
    · have hcall : session.peerSns = ∅ := hcall
      simp [nodeSet, PeerSession.snsCall, PeerSession.sendConnect, enqueue, hcall]
  | setStatus status => exact h.keep rfl rfl fun _ hid => hid

/-- A session that has sent nothing and has no node sets. -/
def Fresh (session : PeerSession) : Prop :=
  session.subSns = ∅ ∧ session.peerSns = ∅ ∧ session.enqueued = []

theorem Fresh.synced {session : PeerSession} (h : session.Fresh) : session.Synced := by
  obtain ⟨hsub, hpeer, hsent⟩ := h
  have hnone : ∀ key, session.nodeSet key = none := by
    rintro (hash | key)
    · simp [nodeSet, hsub]
    · simp [nodeSet, hpeer]
  refine ⟨fun id nodes => ?_, fun key sns hsns => ?_, fun key key' sns sns' hsns => ?_⟩
  · simp [hnone, received, hsent]
  · rw [hnone] at hsns
    cases hsns
  · rw [hnone] at hsns
    cases hsns

/-- In every run whose calls all announce what they change, the receiver's view is the node sets of
the session once all messages of the connection have arrived. -/
theorem agree_snsCalls (q : Quicr) (session : PeerSession) (hfresh : session.Fresh)
    (calls : List SnsCall) (h : ∀ before call after, calls = before ++ call :: after →
      (session.snsCalls q before).Announced q call) :
    (session.snsCalls q calls).Agree := by
  have hsynced : (session.snsCalls q calls).Synced := by
    induction calls using List.reverseRecOn with
    | nil => exact hfresh.synced
    | append_singleton calls call ih =>
      have hbefore := ih fun before call' after hcalls =>
        h before call' (after ++ [call]) (by rw [hcalls]; simp)
      rw [snsCalls, List.foldl_append]
      exact hbefore.snsCall (h calls call [] rfl)
  exact hsynced.agree

/-- A connected session: a track gets a node, another track gets two, and the first track loses its
node. -/
def twoTracks : List SnsCall :=
  [.setStatus .connected, .addSubscribeSourceNode 5 1, .addPeerSnsSourceNode 3 9 1,
    .addPeerSnsSourceNode 3 9 2, .removeSubscribeSourceNode 5 1]

theorem agree_twoTracks :
    (PeerSession.snsCalls .polynomial { nodeId := 1 } twoTracks).status = .connected ∧
    (PeerSession.snsCalls .polynomial { nodeId := 1 } twoTracks).received.size = 1 ∧
    (PeerSession.snsCalls .polynomial { nodeId := 1 } twoTracks).Agree := by
  refine ⟨by decide +kernel, by decide +kernel, ?_⟩
  refine agree_snsCalls .polynomial { nodeId := 1 } ⟨rfl, rfl, rfl⟩ twoTracks ?_
  intro before call after hcalls
  have htake : before = twoTracks.take before.length := by rw [hcalls, List.take_left]
  have hcall : twoTracks[before.length]? = some call := by
    rw [hcalls, List.getElem?_append_right (Nat.le_refl _)]
    simp
  have hlt : before.length < 5 := (List.getElem?_eq_some_iff.mp hcall).1
  rw [htake]
  generalize before.length = k at hcall hlt
  match k, hlt with
  | 0, _ =>
    cases hcall
    exact trivial
  | 1, _ =>
    cases hcall
    exact Or.inr ⟨by decide +kernel, fun _ => ⟨by decide +kernel, by decide +kernel⟩⟩
  | 2, _ =>
    cases hcall
    exact Or.inr ⟨by decide +kernel, fun _ => ⟨by decide +kernel, by decide +kernel⟩⟩
  | 3, _ =>
    cases hcall
    exact Or.inr ⟨by decide +kernel, fun _ => ⟨by decide +kernel, by decide +kernel⟩⟩
  | 4, _ =>
    cases hcall
    intro sns hsns _
    have hset : (PeerSession.snsCalls .polynomial { nodeId := 1 } (twoTracks.take 4)).nodeSet
        (.inl 5) = some ⟨1, (∅ : ExtTreeSet NodeIdValueType).insert 1⟩ := by decide +kernel
    cases hset.symm.trans hsns
    exact ⟨by decide +kernel, by decide +kernel⟩

/-- A track has two nodes and loses one of them. -/
theorem not_agree : ¬ ∀ (q : Quicr) (session : PeerSession) (calls : List SnsCall),
    session.Fresh → (session.snsCalls q calls).status = .connected →
    (session.snsCalls q calls).Agree := by
  intro hall
  have hagree := hall .polynomial { nodeId := 1 } [.setStatus .connected,
    .addSubscribeSourceNode 5 1, .addSubscribeSourceNode 5 2, .removeSubscribeSourceNode 5 1]
    ⟨rfl, rfl, rfl⟩ (by decide +kernel)
  have hreceived := (hagree 1 ((∅ : ExtTreeSet NodeIdValueType).insert 2)).mpr
    ⟨.inl 5, by decide +kernel⟩
  exact absurd hreceived (by decide +kernel)

end Laps.Peering.PeerSession
