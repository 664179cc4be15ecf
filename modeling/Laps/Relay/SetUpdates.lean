import Laps.Relay.ClientFib
import Laps.Relay.PeerSets

/-! An update of a node set and the streams that run to its targets.  The update writes the entry of
every session that its nodes lead to anew, without streams. -/

namespace Laps

open Std Client Peering

/-- The id that the session has for a node set of another session, or gives it. -/
def Peering.PeerSession.peerSnsId (q : Quicr) (session : PeerSession)
    (key : PeerSessionId × SubscribeNodeSetId) : SubscribeNodeSetId :=
  let sns := session.peerSns.getD key {}
  if sns.id = 0 then q.createDataContext session.dataContexts else sns.id

namespace Relay

def egressSnsId (q : Quicr) (r : Relay) (egress : PeerSessionId)
    (key : PeerSessionId × SubscribeNodeSetId) : Option SubscribeNodeSetId :=
  (r.getPeerSession egress).map fun session => session.peerSnsId q key

/-- A session that stays a target keeps its id and its streams, and data of a stream that was
started before goes on to it. -/
structure KeepsTarget (r' : Relay) (ingress egress : PeerSessionId) (entry entry' : FibEntry) :
    Prop where
  outSnsId : entry'.outSnsId = entry.outSnsId
  streams : entry'.streams = entry.streams
  continued : ∀ createStream (chunk : PeerChunk) data streamId, chunk.useReliable = true →
    chunk.isNewStream = false → egress ≠ ingress → entry.streams[chunk.streamId]? = some streamId →
    r'.forwardEntry createStream ingress chunk data egress entry' =
      (r'.forwardToSession chunk entry' streamId data).map fun out => (entry', data, out)

/-- The sessions that are targets before and after the update are kept. -/
def UpdateKeepsTargets (q : Quicr) (r : Relay) (ingress : PeerSessionId) (sns : SubscribeNodeSet)
    (updateRef : UInt64) : Prop :=
  ∃ r', r.snsReceived q ingress sns false updateRef = some r' ∧
    ∀ egress entry entry', egress ≠ 0 →
      r.infoBase.peerFib.get₂? (ingress, sns.id) egress = some entry →
      r'.infoBase.peerFib.get₂? (ingress, sns.id) egress = some entry' →
      KeepsTarget r' ingress egress entry entry'

theorem KeepsTarget.of_eq {r' : Relay} {ingress egress : PeerSessionId} {entry entry' : FibEntry}
    (hzero : egress ≠ 0) (hsns : entry'.outSnsId = entry.outSnsId)
    (hstreams : entry'.streams = entry.streams) : KeepsTarget r' ingress egress entry entry' := by
  refine ⟨hsns, hstreams, fun createStream chunk data streamId hreliable hold hingress hstream => ?_⟩
  rw [← hstreams] at hstream
  unfold forwardEntry
  rw [if_neg hingress, if_neg hzero]
  simp only [hreliable, hold, hstream, Bool.not_true, Bool.or_self, Bool.false_eq_true, if_false]
  cases r'.forwardToSession chunk entry' streamId data <;> rfl

section Update

variable {q : Quicr} {ingress : PeerSessionId} {snsId : SubscribeNodeSetId} {updateRef : UInt64}

/-- A node that is added does not change the id of its set. -/
theorem peerSnsId_addPeerSnsSourceNode (hcontext : ∀ inUse, q.createDataContext inUse ≠ 0)
    (session : PeerSession) (node : NodeIdValueType) :
    (session.addPeerSnsSourceNode q ingress snsId node).1.peerSnsId q (ingress, snsId) =
      session.peerSnsId q (ingress, snsId) := by
  have hid : (session.addPeerSnsSourceNode q ingress snsId node).1.peerSns[(ingress, snsId)]?.map
      SubscribeNodeSet.id = some (session.peerSnsId q (ingress, snsId)) := by
    unfold PeerSession.addPeerSnsSourceNode PeerSession.sendSns PeerSession.enqueue
    dsimp only
    split
    · split <;> simp [PeerSession.peerSnsId]
    · simp [PeerSession.peerSnsId]
  obtain ⟨sns, hsns, hsnsId⟩ := Option.map_eq_some_iff.mp hid
  have hne : sns.id ≠ 0 := by
    rw [hsnsId]
    unfold PeerSession.peerSnsId
    dsimp only
    split
    · exact hcontext _
    · assumption
  rw [PeerSession.peerSnsId, ExtTreeMap.getD_eq_getD_getElem?, hsns]
  dsimp only [Option.getD_some]
  rw [if_neg hne, hsnsId]

theorem outSnsId_addPeerSnsSourceNode (session : PeerSession) (node : NodeIdValueType) :
    (session.addPeerSnsSourceNode q ingress snsId node).2.1 =
      session.peerSnsId q (ingress, snsId) := rfl

/-- What the nodes of an update do to the entry of one session. -/
structure Refreshes (q : Quicr) (key : PeerSessionId × SubscribeNodeSetId) (updateRef : UInt64)
    (egress : PeerSessionId) (touched : Prop)
    (acc acc' : Relay × ExtTreeMap PeerSessionId FibEntry compare) : Prop where
  same : SameRoutes acc.1 acc'.1
  snsId : acc'.1.egressSnsId q egress key = acc.1.egressSnsId q egress key
  hit : touched → ∃ entry, acc'.2[egress]? = some entry ∧ entry.updateRef = updateRef ∧
    entry.streams = ∅ ∧ acc.1.egressSnsId q egress key = some entry.outSnsId
  miss : ¬touched → acc'.2[egress]? = acc.2[egress]?

/-- The session is the best one of a node of the list, other than this relay. -/
def Targets (r : Relay) (nodes : List NodeIdValueType) (egress : PeerSessionId) : Prop :=
  ∃ n ∈ nodes, n ≠ r.nodeId ∧ r.bestSession n = some egress

theorem SameRoutes.targets {r r' : Relay} (h : SameRoutes r r') (nodes : List NodeIdValueType)
    (egress : PeerSessionId) : r'.Targets nodes egress ↔ r.Targets nodes egress := by
  unfold Targets
  simp only [h.nodeId, h.bestSession]

theorem targets_singleton {r : Relay} {node : NodeIdValueType} {egress : PeerSessionId} :
    r.Targets [node] egress ↔ node ≠ r.nodeId ∧ r.bestSession node = some egress := by
  simp [Targets]

theorem refreshes_snsNode (hcontext : ∀ inUse, q.createDataContext inUse ≠ 0)
    {egress : PeerSessionId} (hzero : egress ≠ 0)
    (acc : Relay × ExtTreeMap PeerSessionId FibEntry compare) (node : NodeIdValueType) :
    Refreshes q (ingress, snsId) updateRef egress (acc.1.Targets [node] egress) acc
      (snsNode q ingress snsId updateRef acc node) := by
  obtain ⟨r, row⟩ := acc
  have hbest := lockSession_best r node
  rw [targets_singleton]
  unfold snsNode
  dsimp only
  split
  · rename_i hself
    refine ⟨.refl _, rfl, fun h => absurd hself h.1, fun _ => ?_⟩
    rw [ExtTreeMap.getElem?_insert_ite, if_neg hzero]
  · rename_i hself
    split
    · rename_i hnone
      rw [hnone, Option.map_none] at hbest
      refine ⟨.refl _, rfl, fun h => ?_, fun _ => rfl⟩
      rw [← hbest] at h
      cases h.2
    · rename_i best session hlock
      rw [hlock, Option.map_some] at hbest
      obtain ⟨-, hget⟩ := lockSession_eq_some.mp hlock
      rw [← hbest, Option.some.injEq]
      refine ⟨sameRoutes_setPeerSession hget _, ?_, ?_, ?_⟩
      · unfold egressSnsId
        rw [getPeerSession_setPeerSession hget]
        split
        · rename_i heq
          rw [heq, hget, Option.map_some, Option.map_some,
            peerSnsId_addPeerSnsSourceNode hcontext session node]
        · rfl
      · rintro ⟨-, rfl⟩
        refine ⟨_, ExtTreeMap.getElem?_insert_self, rfl, rfl, ?_⟩
        rw [egressSnsId, hget, Option.map_some, outSnsId_addPeerSnsSourceNode]
      · intro hnot
        rw [ExtTreeMap.getElem?_insert_ite, if_neg fun heq => hnot ⟨hself, heq.symm⟩]

theorem refreshes_foldl (hcontext : ∀ inUse, q.createDataContext inUse ≠ 0)
    {egress : PeerSessionId} (hzero : egress ≠ 0) (nodes : List NodeIdValueType)
    (acc : Relay × ExtTreeMap PeerSessionId FibEntry compare) :
    Refreshes q (ingress, snsId) updateRef egress (acc.1.Targets nodes egress) acc
      (nodes.foldl (snsNode q ingress snsId updateRef) acc) := by
  induction nodes generalizing acc with
  | nil => exact ⟨.refl _, rfl, fun ⟨_, hn, _⟩ => absurd hn List.not_mem_nil, fun _ => rfl⟩
  | cons node nodes ih =>
    have hfirst : Refreshes q (ingress, snsId) updateRef egress (acc.1.Targets [node] egress) acc
        (snsNode q ingress snsId updateRef acc node) := refreshes_snsNode hcontext hzero acc node
    have hrest := ih (snsNode q ingress snsId updateRef acc node)
    rw [hfirst.same.targets] at hrest
    refine ⟨hfirst.same.trans hrest.same, hrest.snsId.trans hfirst.snsId, ?_, ?_⟩
    · rintro ⟨n, hn, hroute⟩
      by_cases hlater : acc.1.Targets nodes egress
      · rw [← hfirst.snsId]
        exact hrest.hit hlater
      · rcases List.mem_cons.mp hn with rfl | hn
        · rw [List.foldl_cons, hrest.miss hlater]
          exact hfirst.hit (targets_singleton.mpr hroute)
        · exact absurd ⟨n, hn, hroute⟩ hlater
    · intro hnot
      rw [List.foldl_cons, hrest.miss fun ⟨n, hn, h⟩ => hnot ⟨n, List.mem_cons_of_mem _ hn, h⟩]
      exact hfirst.miss fun h => hnot ⟨node, List.mem_cons_self, targets_singleton.mp h⟩

/-- The row of an updated node set. -/
theorem peerFib_snsReceived (q : Quicr) {r : Relay} {ingress : PeerSessionId}
    {sns : SubscribeNodeSet} {row : ExtTreeMap PeerSessionId FibEntry compare}
    (hrow : r.infoBase.peerFib[(ingress, sns.id)]? = some row) (updateRef : UInt64) :
    ∃ r', r.snsReceived q ingress sns false updateRef = some r' ∧ ∀ egress,
      r'.infoBase.peerFib.get₂? (ingress, sns.id) egress =
        ((sns.nodes.toList.foldl (snsNode q ingress sns.id updateRef) (r, row)).2[egress]?).filter
          fun entry => decide (entry.updateRef = updateRef) := by
  simp only [snsReceived, hrow, Bool.false_eq_true, if_false]
  refine ⟨_, rfl, fun egress => ?_⟩
  rw [ExtTreeMap.get₂?, setPeerFib, setInfoBase, ExtTreeMap.getElem?_insert_self, Option.bind_some,
    ExtTreeMap.getElem?_filter']

/-- An update keeps its targets if and only if those that its nodes lead to have no streams and the
id that their session has for the node set. -/
theorem updateKeepsTargets_iff (q : Quicr) (hcontext : ∀ inUse, q.createDataContext inUse ≠ 0)
    (r : Relay) (ingress : PeerSessionId) (sns : SubscribeNodeSet) (updateRef : UInt64)
    (hexisting : r.infoBase.peerFib.contains (ingress, sns.id) = true) :
    UpdateKeepsTargets q r ingress sns updateRef ↔
      ∀ egress entry, egress ≠ 0 →
        r.infoBase.peerFib.get₂? (ingress, sns.id) egress = some entry →
        r.Targets sns.nodes.toList egress →
        entry.streams = ∅ ∧ r.egressSnsId q egress (ingress, sns.id) = some entry.outSnsId := by
  obtain ⟨row, hrow⟩ := ExtTreeMap.contains_iff_getElem?.mp hexisting
  obtain ⟨r', hr', hfib⟩ := peerFib_snsReceived q hrow updateRef
  have hget : ∀ egress, r.infoBase.peerFib.get₂? (ingress, sns.id) egress = row[egress]? := by
    intro egress
    rw [ExtTreeMap.get₂?, hrow, Option.bind_some]
  have hrefreshes : ∀ egress, egress ≠ 0 → Refreshes q (ingress, sns.id) updateRef egress
      (r.Targets sns.nodes.toList egress) (r, row)
      (sns.nodes.toList.foldl (snsNode q ingress sns.id updateRef) (r, row)) :=
    fun egress hzero => refreshes_foldl hcontext hzero sns.nodes.toList (r, row)
  constructor
  · rintro ⟨r'', hr'', hkeeps⟩ egress entry hzero hentry htarget
    obtain rfl : r' = r'' := Option.some.inj (hr'.symm.trans hr'')
    obtain ⟨entry', hnew, hupdated, hstreams, hsns⟩ := (hrefreshes egress hzero).hit htarget
    have hafter : r'.infoBase.peerFib.get₂? (ingress, sns.id) egress = some entry' := by
      rw [hfib, hnew, Option.filter_some, if_pos (decide_eq_true hupdated)]
    have hkept := hkeeps egress entry entry' hzero hentry hafter
    exact ⟨hkept.streams.symm.trans hstreams, hsns.trans (congrArg some hkept.outSnsId)⟩
  · intro hall
    refine ⟨r', hr', fun egress entry entry' hzero hentry hafter => ?_⟩
    rw [hfib, Option.filter_eq_some_iff] at hafter
    by_cases htarget : r.Targets sns.nodes.toList egress
    · obtain ⟨hstreams, hsns⟩ := hall egress entry hzero hentry htarget
      obtain ⟨fresh, hnew, -, hempty, hfresh⟩ := (hrefreshes egress hzero).hit htarget
      obtain rfl : fresh = entry' := Option.some.inj (hnew.symm.trans hafter.1)
      exact KeepsTarget.of_eq hzero (Option.some.inj (hfresh.symm.trans hsns))
        (hempty.trans hstreams.symm)
    · -- the entry was not touched: it stays when its mark is that of the update by chance
      have hsame : row[egress]? = some entry' :=
        ((hrefreshes egress hzero).miss htarget).symm.trans hafter.1
      obtain rfl : entry = entry' := by
        rw [hget, hsame] at hentry
        exact (Option.some.inj hentry).symm
      exact KeepsTarget.of_eq hzero rfl rfl

end Update

/-! ### A stream that runs -/

/-- Session 7 has advertised its node set 5, for node 3, which session 8 leads to. -/
def oneTarget : Relay :=
  (twoSessions.snsReceived Quicr.numbered 7 { id := 5, nodes := .ofList [(3 : NodeIdValueType)] }
    false 1).getD twoSessions

/-- Data of a new stream of the node set has come on session 7. -/
def oneStream : Relay :=
  (oneTarget.forwardPeerData (fun _ _ => 6) 7
    { isNewStream := true, streamId := 4, header := { snsId := 5 }
      data := ({ snsId := 5 } : DataHeader).serialize, dataOffset := 0
      useReliable := true }).elim oneTarget Prod.fst

/-- Session 7 advertises the node set anew. -/
def grownSet : SubscribeNodeSet := { id := 5, nodes := .ofList [(3 : NodeIdValueType), 4] }

theorem updateKeepsTargets_oneTarget :
    (∀ inUse, Quicr.numbered.createDataContext inUse ≠ 0) ∧
      UpdateKeepsTargets Quicr.numbered oneTarget 7 grownSet 2 := by
  refine ⟨createDataContext_numbered, (updateKeepsTargets_iff Quicr.numbered
    createDataContext_numbered oneTarget 7 grownSet 2 (by decide +kernel)).mpr ?_⟩
  intro egress entry hzero hentry htarget
  have hrow : oneTarget.infoBase.peerFib.get₂? (7, 5) 8 = some
      { updateRef := 1, outSnsId := 1, peerSession := some 8 } := by decide +kernel
  have hsns : oneTarget.egressSnsId Quicr.numbered 8 (7, 5) = some 1 := by decide +kernel
  obtain ⟨n, hn, -, hroute⟩ := htarget
  have hnodes : n = 3 ∨ n = 4 := by
    have hlist : grownSet.nodes.toList = [3, 4] := by decide +kernel
    rw [hlist] at hn
    simpa using hn
  have hthree : oneTarget.bestSession 3 = some 8 := by decide +kernel
  have hfour : oneTarget.bestSession 4 = some 8 := by decide +kernel
  obtain rfl : 8 = egress := by
    rcases hnodes with rfl | rfl
    · exact Option.some.inj (hthree.symm.trans hroute)
    · exact Option.some.inj (hfour.symm.trans hroute)
  obtain rfl := Option.some.inj (hrow.symm.trans hentry)
  exact ⟨rfl, hsns⟩

/-- The stream that runs to session 8 is forgotten by the update. -/
theorem not_updateKeepsTargets :
    ¬∀ (r : Relay) (ingress : PeerSessionId) (sns : SubscribeNodeSet) (updateRef : UInt64),
      r.infoBase.peerFib.contains (ingress, sns.id) = true →
      UpdateKeepsTargets Quicr.numbered r ingress sns updateRef := by
  intro hall
  obtain ⟨r', hr', hkeeps⟩ := hall oneStream 7 grownSet 2 (by decide +kernel)
  have hbefore : (oneStream.infoBase.peerFib.get₂? (7, 5) 8).map (·.streams[(4 : UInt64)]?) =
      some (some 6) := by decide +kernel
  have hafter : (oneStream.snsReceived Quicr.numbered 7 grownSet false 2).map (fun r =>
      (r.infoBase.peerFib.get₂? (7, 5) 8).map (·.streams[(4 : UInt64)]?)) = some (some none) := by
    decide +kernel
  rw [hr', Option.map_some, Option.some.injEq] at hafter
  obtain ⟨entry, hentry, hstream⟩ := Option.map_eq_some_iff.mp hbefore
  obtain ⟨entry', hentry', hstream'⟩ := Option.map_eq_some_iff.mp hafter
  have hkept := (hkeeps 8 entry entry' (by decide) hentry hentry').streams
  rw [hkept, hstream] at hstream'
  cases hstream'

end Relay

end Laps
