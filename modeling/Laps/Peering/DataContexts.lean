import Laps.Lib.Leases
import Laps.Peering.NodeSets

/-! The ids of a session's node sets are data contexts of its connection. -/

namespace Laps.Peering.PeerSession

open Std

abbrev SetKey := UInt64 ⊕ (PeerSessionId × SubscribeNodeSetId)

/-! ### What the calls do to the node sets and to the contexts -/

section Insert

variable {session session' : PeerSession} {sns sns' : SubscribeNodeSet}

theorem nodeSet_insertSub {hash : UInt64} (hsub : session'.subSns = session.subSns.insert hash sns)
    (hpeer : session'.peerSns = session.peerSns) (key' : SetKey) :
    session'.nodeSet key' = if key' = .inl hash then some sns else session.nodeSet key' := by
  cases key' with
  | inl hash' =>
    simp only [nodeSet, hsub]
    rw [ExtTreeMap.getElem?_insert_ite]
    simp
  | inr key' => simp [nodeSet, hpeer]

theorem nodeSet_insertPeer {key : PeerSessionId × SubscribeNodeSetId}
    (hpeer : session'.peerSns = session.peerSns.insert key sns)
    (hsub : session'.subSns = session.subSns) (key' : SetKey) :
    session'.nodeSet key' = if key' = .inr key then some sns else session.nodeSet key' := by
  cases key' with
  | inl hash' => simp [nodeSet, hsub]
  | inr key' =>
    simp only [nodeSet, hpeer]
    rw [ExtTreeMap.getElem?_insert_ite]
    simp

end Insert

section Calls

variable (q : Quicr) (session : PeerSession)

/-- A node set is added to. -/
structure Adds (key : SetKey) (node : NodeIdValueType) (session' : PeerSession) : Prop where
  sets : ∀ key', session'.nodeSet key' =
    if key' = key then some (session.withNode q (session.nodeSet key) node)
    else session.nodeSet key'
  contexts : session'.dataContexts = session.contextsWith q (session.nodeSet key)

theorem adds_addSubscribeSourceNode (hash : UInt64) (node : NodeIdValueType) :
    session.Adds q (.inl hash) node (session.addSubscribeSourceNode q hash node).1 := by
  have hget : session.subSns.getD hash {} = (session.nodeSet (.inl hash)).getD {} :=
    ExtTreeMap.getD_eq_getD_getElem?
  simp only [PeerSession.addSubscribeSourceNode, hget]
  constructor
  · intro key'
    split
    · rw [nodeSet_sendSns]
      apply nodeSet_insertSub <;> rfl
    · apply nodeSet_insertSub <;> rfl
  · split
    · rw [dataContexts_sendSns]
      rfl
    · rfl

theorem adds_addPeerSnsSourceNode (peer : PeerSessionId) (snsId : SubscribeNodeSetId)
    (node : NodeIdValueType) :
    session.Adds q (.inr (peer, snsId)) node
      (session.addPeerSnsSourceNode q peer snsId node).1 := by
  have hget : session.peerSns.getD (peer, snsId) {} =
      (session.nodeSet (.inr (peer, snsId))).getD {} := ExtTreeMap.getD_eq_getD_getElem?
  simp only [PeerSession.addPeerSnsSourceNode, hget]
  constructor
  · intro key'
    split
    · rw [nodeSet_sendSns]
      apply nodeSet_insertPeer <;> rfl
    · apply nodeSet_insertPeer <;> rfl
  · split
    · rw [dataContexts_sendSns]
      rfl
    · rfl

/-- The ids of the node sets. -/
def ids (session : PeerSession) (key : SetKey) : Option SubscribeNodeSetId :=
  (session.nodeSet key).map SubscribeNodeSet.id

/-- A node set is put in for one with its id. -/
theorem ids_of_sets {session session' : PeerSession} {key : SetKey} {sns sns' : SubscribeNodeSet}
    (hold : session.nodeSet key = some sns) (hid : sns'.id = sns.id)
    (hsets : ∀ key', session'.nodeSet key' =
      if key' = key then some sns' else session.nodeSet key') : session'.ids = session.ids := by
  funext key'
  rw [ids, hsets]
  split
  · rename_i hkey
    rw [hkey, ids, hold, Option.map_some, Option.map_some, hid]
  · rfl

variable {q session}

theorem Adds.ids_of_some {key : SetKey} {node : NodeIdValueType} {session' : PeerSession}
    {id : SubscribeNodeSetId} (h : session.Adds q key node session')
    (hid : session.ids key = some id) (hne : id ≠ 0) :
    session'.ids = session.ids ∧ session'.dataContexts = session.dataContexts := by
  obtain ⟨sns, hsns, rfl⟩ := Option.map_eq_some_iff.mp hid
  have hwith : (session.withNode q (session.nodeSet key) node).id = sns.id := by
    simp [withNode, hsns, hne]
  have hcontexts : session.contextsWith q (session.nodeSet key) = session.dataContexts := by
    simp [contextsWith, hsns, hne]
  exact ⟨ids_of_sets hsns hwith h.sets, h.contexts.trans hcontexts⟩

theorem Adds.ids_of_none {key : SetKey} {node : NodeIdValueType} {session' : PeerSession}
    (h : session.Adds q key node session') (hid : session.ids key = none) :
    session'.ids =
        Function.update session.ids key (some (q.createDataContext session.dataContexts)) ∧
      session'.dataContexts =
        session.dataContexts.insert (q.createDataContext session.dataContexts) := by
  have hnone : session.nodeSet key = none := Option.map_eq_none_iff.mp hid
  have hwith : (session.withNode q (session.nodeSet key) node).id =
      q.createDataContext session.dataContexts := by
    simp [withNode, hnone]
  refine ⟨funext fun key' => ?_, by rw [h.contexts, hnone]; rfl⟩
  rw [ids, h.sets]
  by_cases hkey : key' = key
  · rw [if_pos hkey, hkey, Option.map_some, hwith, Function.update_self]
  · rw [if_neg hkey, Function.update_of_ne hkey]
    rfl

/-- What a removal of one node does: the whole set goes, with its context, or its id stays. -/
def Removes (session : PeerSession) (key : SetKey) (session' : PeerSession) : Prop :=
  (session'.ids = session.ids ∧ session'.dataContexts = session.dataContexts) ∨
    ∃ id, session.ids key = some id ∧ session'.ids = Function.update session.ids key none ∧
      session'.dataContexts = session.dataContexts.erase id

theorem ids_eraseSub (session : PeerSession) (hash : UInt64) :
    ({ session with subSns := session.subSns.erase hash } : PeerSession).ids =
      Function.update session.ids (.inl hash) none := by
  funext key'
  by_cases hkey : key' = .inl hash
  · simp [hkey, ids, nodeSet]
  · rw [Function.update_of_ne hkey]
    cases key' with
    | inl hash' =>
      simp only [ids, nodeSet]
      rw [ExtTreeMap.getElem?_erase_ite, if_neg fun h => hkey (congrArg Sum.inl h)]
    | inr key' => rfl

theorem ids_erasePeer (session : PeerSession) (key : PeerSessionId × SubscribeNodeSetId) :
    ({ session with peerSns := session.peerSns.erase key } : PeerSession).ids =
      Function.update session.ids (.inr key) none := by
  funext key'
  by_cases hkey : key' = .inr key
  · simp [hkey, ids, nodeSet]
  · rw [Function.update_of_ne hkey]
    cases key' with
    | inl hash' => rfl
    | inr key' =>
      simp only [ids, nodeSet]
      rw [ExtTreeMap.getElem?_erase_ite, if_neg fun h => hkey (congrArg Sum.inr h)]

@[simp] theorem ids_sendSns (session : PeerSession) (sns : SubscribeNodeSet) (withdraw : Bool) :
    (session.sendSns sns withdraw).ids = session.ids := by
  funext key
  rw [ids, nodeSet_sendSns]
  rfl

theorem removes_removeSubscribeSourceNode (session : PeerSession) (hash : UInt64)
    (node : NodeIdValueType) :
    session.Removes (.inl hash) (session.removeSubscribeSourceNode hash node).1 := by
  unfold PeerSession.removeSubscribeSourceNode
  cases hsns : session.subSns[hash]? with
  | none => exact .inl ⟨rfl, rfl⟩
  | some sns =>
    dsimp only
    split
    · refine .inr ⟨sns.id, by simp [ids, nodeSet, hsns], ?_, dataContexts_sendSns _ _ _⟩
      rw [ids_eraseSub, ids_sendSns]
      rfl
    · have hold : session.nodeSet (.inl hash) = some sns := hsns
      have hid : { sns with nodes := sns.nodes.erase node }.id = sns.id := rfl
      refine .inl ⟨ids_of_sets hold hid ?_, rfl⟩
      apply nodeSet_insertSub <;> rfl

theorem removes_removePeerSnsSourceNode (session : PeerSession) (peer : PeerSessionId)
    (snsId : SubscribeNodeSetId) {node : NodeIdValueType} (hnode : node ≠ 0) :
    session.Removes (.inr (peer, snsId)) (session.removePeerSnsSourceNode peer snsId node).1 := by
  unfold PeerSession.removePeerSnsSourceNode
  dsimp only
  cases hsns : session.peerSns[(peer, snsId)]? with
  | none => exact .inl ⟨rfl, rfl⟩
  | some sns =>
    dsimp only
    rw [if_neg hnode]
    split
    · refine .inr ⟨sns.id, by simp [ids, nodeSet, hsns], ?_, dataContexts_sendSns _ _ _⟩
      rw [ids_erasePeer, ids_sendSns]
      rfl
    · have hold : session.nodeSet (.inr (peer, snsId)) = some sns := hsns
      have hid : { sns with nodes := sns.nodes.erase node }.id = sns.id := rfl
      refine .inl ⟨ids_of_sets hold hid ?_, rfl⟩
      apply nodeSet_insertPeer <;> rfl

/-- All nodes of a set are removed: the context stays. -/
theorem removePeerSnsSourceNode_all (session : PeerSession) (peer : PeerSessionId)
    (snsId : SubscribeNodeSetId) :
    (session.removePeerSnsSourceNode peer snsId 0).1.ids =
        Function.update session.ids (.inr (peer, snsId)) none ∧
      (session.removePeerSnsSourceNode peer snsId 0).1.dataContexts = session.dataContexts := by
  unfold PeerSession.removePeerSnsSourceNode
  dsimp only
  cases hsns : session.peerSns[(peer, snsId)]? with
  | none =>
    refine ⟨(Function.update_eq_self_iff.mpr ?_).symm, rfl⟩
    simp [ids, nodeSet, hsns]
  | some sns =>
    simp only [if_true]
    exact ⟨by rw [ids_erasePeer, ids_sendSns], dataContexts_sendSns _ _ _⟩

end Calls

/-! ### Runs -/

/-- A session, and the contexts of its connection that are not for node sets. -/
structure Contexts where
  session : PeerSession
  other : ExtTreeSet SubscribeNodeSetId

namespace Contexts

/-- The first context of a new connection is for the control messages. -/
def call (c : Contexts) (step : Quicr × SnsCall) : Contexts where
  session := c.session.snsCall step.1 step.2
  other :=
    match step.2 with
    | .connect =>
      if c.session.isInbound then c.other
      else (∅ : ExtTreeSet SubscribeNodeSetId).insert (step.1.createDataContext ∅)
    | _ => c.other

def calls (c : Contexts) (steps : List (Quicr × SnsCall)) : Contexts := steps.foldl call c

/-- The contexts that were made for node sets and are not deleted. -/
def snsContexts (c : Contexts) : Set SubscribeNodeSetId :=
  { id | c.session.dataContexts.contains id = true ∧ c.other.contains id = false }

/-- Every node set has an id of its own, and their ids are the contexts for node sets. -/
def Exact (c : Contexts) : Prop := Leases.Exact c.session.ids c.snsContexts

/-- A session without node sets, on a connection with the contexts for control messages. -/
def Fresh (c : Contexts) : Prop :=
  c.session.subSns = ∅ ∧ c.session.peerSns = ∅ ∧ c.other = c.session.dataContexts

/-- The call makes a new context. -/
def Creates (c : Contexts) : SnsCall → Prop
  | .addSubscribeSourceNode hash _ => c.session.ids (.inl hash) = none
  | .addPeerSnsSourceNode peer snsId _ => c.session.ids (.inr (peer, snsId)) = none
  | _ => False

/-- The call gives the contexts of all node sets back that it takes away. -/
def Clean (c : Contexts) : SnsCall → Prop
  | .removePeerSnsSourceNode peer snsId node => node = 0 → c.session.peerSns[(peer, snsId)]? = none
  | .connect => c.session.isInbound = false → c.session.subSns = ∅
  | .sendConnect _ => c.session.peerSns = ∅
  | _ => True

structure Inv (c : Contexts) : Prop where
  exact : c.Exact
  nonzero : ∀ key, c.session.ids key ≠ some 0
  within : ∀ id, c.other.contains id = true → c.session.dataContexts.contains id = true

variable {c c' : Contexts} {q : Quicr}

theorem Inv.contains (h : c.Inv) {key : SetKey} {id : SubscribeNodeSetId}
    (hid : c.session.ids key = some id) :
    c.session.dataContexts.contains id = true ∧ c.other.contains id = false :=
  (h.exact.mem_out id).mpr ⟨key, hid⟩

/-- Nothing changes. -/
theorem Inv.keep (h : c.Inv) (hids : c'.session.ids = c.session.ids)
    (hcontexts : c'.session.dataContexts = c.session.dataContexts) (hother : c'.other = c.other) :
    c'.Inv := by
  have hsns : c'.snsContexts = c.snsContexts := by
    unfold snsContexts
    rw [hcontexts, hother]
  refine ⟨?_, ?_, ?_⟩
  · rw [Exact, hids, hsns]
    exact h.exact
  · rw [hids]
    exact h.nonzero
  · rw [hother, hcontexts]
    exact h.within

theorem Inv.adds (h : c.Inv) {key : SetKey}
    (hnew : c.session.ids key = none → c.session.NewContext q) {node : NodeIdValueType}
    (hadds : c.session.Adds q key node c'.session)
    (hother : c'.other = c.other) : c'.Inv := by
  cases hid : c.session.ids key with
  | some id =>
    have hne : id ≠ 0 := by
      rintro rfl
      exact h.nonzero key hid
    obtain ⟨hids, hcontexts⟩ := hadds.ids_of_some hid hne
    exact h.keep hids hcontexts hother
  | none =>
    obtain ⟨hids, hcontexts⟩ := hadds.ids_of_none hid
    obtain ⟨hzero, hfree⟩ := hnew hid
    have hnot : c.other.contains (q.createDataContext c.session.dataContexts) = false := by
      by_contra hin
      rw [Bool.not_eq_false] at hin
      rw [h.within _ hin] at hfree
      cases hfree
    have hsns : c'.snsContexts =
        insert (q.createDataContext c.session.dataContexts) c.snsContexts := by
      ext id
      simp only [snsContexts, Set.mem_insert_iff, Set.mem_ofPred_eq, hother, hcontexts,
        ExtTreeSet.contains_insert_iff]
      constructor
      · rintro ⟨rfl | hin, hout⟩
        · exact .inl rfl
        · exact .inr ⟨hin, hout⟩
      · rintro (rfl | ⟨hin, hout⟩)
        · exact ⟨.inl rfl, hnot⟩
        · exact ⟨.inr hin, hout⟩
    refine ⟨?_, fun key' => ?_, fun id hin => ?_⟩
    · rw [Exact, hids, hsns]
      refine h.exact.take hid fun hmem => ?_
      have hused := hmem.1
      rw [hfree] at hused
      cases hused
    · rw [hids]
      by_cases hkey : key' = key
      · rw [hkey, Function.update_self]
        exact fun heq => hzero (Option.some.inj heq)
      · rw [Function.update_of_ne hkey]
        exact h.nonzero key'
    · rw [hother] at hin
      rw [hcontexts]
      exact ExtTreeSet.contains_insert_iff.mpr (.inr (h.within id hin))

theorem Inv.removes (h : c.Inv) {key : SetKey} (hremoves : c.session.Removes key c'.session)
    (hother : c'.other = c.other) : c'.Inv := by
  obtain ⟨hids, hcontexts⟩ | ⟨id, hid, hids, hcontexts⟩ := hremoves
  · exact h.keep hids hcontexts hother
  · have hsns : c'.snsContexts = c.snsContexts \ {id} := by
      ext id'
      simp only [snsContexts, Set.mem_sdiff, Set.mem_singleton_iff, Set.mem_ofPred_eq, hother,
        hcontexts, ExtTreeSet.contains_erase_iff]
      tauto
    refine ⟨?_, fun key' => ?_, fun id' hin => ?_⟩
    · rw [Exact, hids, hsns]
      exact h.exact.give hid
    · rw [hids]
      by_cases hkey : key' = key
      · rw [hkey, Function.update_self]
        exact nofun
      · rw [Function.update_of_ne hkey]
        exact h.nonzero key'
    · rw [hother] at hin
      rw [hcontexts]
      refine ExtTreeSet.contains_erase_iff.mpr ⟨?_, h.within id' hin⟩
      rintro rfl
      rw [(h.contains hid).2] at hin
      cases hin

theorem snsContexts_connect (hinbound : c.session.isInbound = false) :
    (c.call (q, .connect)).snsContexts = ∅ := by
  have hcontexts : (c.call (q, .connect)).session.dataContexts =
      (c.call (q, .connect)).other := by
    simp [call, snsCall, connect, hinbound]
  ext id
  simp [snsContexts, hcontexts]

theorem ids_connect (hinbound : c.session.isInbound = false) (key : SetKey) :
    (c.call (q, .connect)).session.ids key =
      key.elim (fun hash => c.session.ids (.inl hash)) fun _ => none := by
  cases key with
  | inl hash => simp [call, snsCall, connect, hinbound, ids, nodeSet]
  | inr key => simp [call, snsCall, connect, hinbound, ids, nodeSet]

theorem Inv.connect (h : c.Inv) (hclean : c.Clean .connect) : (c.call (q, .connect)).Inv := by
  cases hinbound : c.session.isInbound with
  | true =>
    refine h.keep ?_ ?_ ?_
    · simp [call, snsCall, PeerSession.connect, hinbound]
      rfl
    · simp [call, snsCall, PeerSession.connect, hinbound]
    · simp [call, hinbound]
  | false =>
    have hempty : c.session.subSns = ∅ := hclean hinbound
    have hnone : ∀ key, (c.call (q, .connect)).session.ids key = none := by
      intro key
      rw [ids_connect hinbound]
      cases key with
      | inl hash => simp [ids, nodeSet, hempty]
      | inr key => rfl
    refine ⟨?_, fun key => ?_, fun id hin => ?_⟩
    · rw [Exact, snsContexts_connect hinbound]
      exact .empty hnone
    · rw [hnone]
      intro hzero
      cases hzero
    · simpa [call, snsCall, PeerSession.connect, hinbound] using hin

theorem ids_sendConnect (info : NodeInfo) (key : SetKey) :
    (c.call (q, .sendConnect info)).session.ids key =
      key.elim (fun hash => c.session.ids (.inl hash)) fun _ => none := by
  cases key with
  | inl hash => rfl
  | inr key => simp [call, snsCall, sendConnect, enqueue, ids, nodeSet]

/-- A clean call keeps the ids and the contexts together. -/
theorem Inv.call (h : c.Inv) {step : Quicr × SnsCall}
    (hnew : c.Creates step.2 → c.session.NewContext step.1) (hclean : c.Clean step.2) :
    (c.call step).Inv := by
  obtain ⟨q, call⟩ := step
  cases call with
  | addSubscribeSourceNode hash node =>
    exact h.adds hnew (adds_addSubscribeSourceNode q c.session hash node) rfl
  | addPeerSnsSourceNode peer snsId node =>
    exact h.adds hnew (adds_addPeerSnsSourceNode q c.session peer snsId node) rfl
  | removeSubscribeSourceNode hash node =>
    exact h.removes (removes_removeSubscribeSourceNode c.session hash node) rfl
  | removePeerSnsSourceNode peer snsId node =>
    by_cases hnode : node = 0
    · subst hnode
      have hnone : c.session.peerSns[(peer, snsId)]? = none := hclean rfl
      obtain ⟨hids, hcontexts⟩ := removePeerSnsSourceNode_all c.session peer snsId
      refine h.keep (hids.trans (Function.update_eq_self_iff.mpr ?_)) hcontexts rfl
      simp [ids, nodeSet, hnone]
    · exact h.removes (removes_removePeerSnsSourceNode c.session peer snsId hnode) rfl
  | connect => exact h.connect hclean
  | sendConnect info =>
    have hempty : c.session.peerSns = ∅ := hclean
    refine h.keep (funext fun key => ?_) rfl rfl
    rw [ids_sendConnect]
    cases key with
    | inl hash => rfl
    | inr key => simp [ids, nodeSet, hempty]
  | setStatus status => exact h.keep rfl rfl rfl

/-- A call that is not clean leaves a context behind, or an id of another connection. -/
theorem Inv.not_exact (h : c.Inv) {step : Quicr × SnsCall} (hclean : ¬c.Clean step.2) :
    ¬(c.call step).Exact := by
  obtain ⟨q, call⟩ := step
  cases call with
  | addSubscribeSourceNode hash node => exact absurd trivial hclean
  | addPeerSnsSourceNode peer snsId node => exact absurd trivial hclean
  | removeSubscribeSourceNode hash node => exact absurd trivial hclean
  | setStatus status => exact absurd trivial hclean
  | removePeerSnsSourceNode peer snsId node =>
    have hclean : ¬(node = 0 → c.session.peerSns[(peer, snsId)]? = none) := hclean
    rw [Classical.not_imp] at hclean
    obtain ⟨rfl, hsome⟩ := hclean
    obtain ⟨sns, hsns⟩ := Option.ne_none_iff_exists'.mp hsome
    obtain ⟨hids, hcontexts⟩ := removePeerSnsSourceNode_all c.session peer snsId
    have hout : (c.call (q, .removePeerSnsSourceNode peer snsId 0)).snsContexts =
        c.snsContexts := by
      unfold snsContexts
      simp only [Contexts.call, snsCall, hcontexts]
    rw [Exact, hout]
    refine h.exact.not_of_forget (k := .inr (peer, snsId)) (i := sns.id) ?_ ?_ fun key id hid => ?_
    · simp [ids, nodeSet, hsns]
    · exact (congrFun hids _).trans (Function.update_self ..)
    · have hid := (congrFun hids key).symm.trans hid
      by_cases hkey : key = .inr (peer, snsId)
      · rw [hkey, Function.update_self] at hid
        cases hid
      · rwa [Function.update_of_ne hkey] at hid
  | connect =>
    have hclean : ¬(c.session.isInbound = false → c.session.subSns = ∅) := hclean
    rw [Classical.not_imp] at hclean
    obtain ⟨hinbound, hsub⟩ := hclean
    intro hexact
    have hnone : ∀ hash : UInt64, c.session.subSns[hash]? = none := by
      intro hash
      by_contra hsome
      obtain ⟨sns, hsns⟩ := Option.ne_none_iff_exists'.mp hsome
      have hout := (hexact.mem_out sns.id).mpr ⟨.inl hash, by
        rw [ids_connect hinbound]
        simp [ids, nodeSet, hsns]⟩
      rw [snsContexts_connect hinbound] at hout
      exact hout
    exact hsub (ExtTreeMap.ext_getElem? fun hash => by rw [hnone]; simp)
  | sendConnect info =>
    have hclean : ¬c.session.peerSns = ∅ := hclean
    intro hexact
    refine hclean (ExtTreeMap.ext_getElem? fun key => ?_)
    rw [ExtTreeMap.getElem?_empty]
    by_contra hsome
    obtain ⟨sns, hsns⟩ := Option.ne_none_iff_exists'.mp hsome
    refine h.exact.not_of_forget (k := .inr key) (i := sns.id) ?_ ?_ ?_ hexact
    · simp [ids, nodeSet, hsns]
    · rw [ids_sendConnect]
      rfl
    · intro key' id hid
      rw [ids_sendConnect] at hid
      cases key' with
      | inl hash => exact hid
      | inr key' => cases hid

theorem calls_concat (c : Contexts) (steps : List (Quicr × SnsCall)) (step : Quicr × SnsCall) :
    c.calls (steps ++ [step]) = (c.calls steps).call step := by
  rw [calls, List.foldl_append]
  rfl

theorem Fresh.inv (h : c.Fresh) : c.Inv := by
  obtain ⟨hsub, hpeer, hother⟩ := h
  have hnone : ∀ key, c.session.ids key = none := by
    rintro (hash | key)
    · simp [ids, nodeSet, hsub]
    · simp [ids, nodeSet, hpeer]
  have hout : c.snsContexts = ∅ := by
    ext id
    simp [snsContexts, hother]
  refine ⟨?_, fun key => ?_, fun id hin => ?_⟩
  · rw [Exact, hout]
    exact .empty hnone
  · rw [hnone]
    intro hzero
    cases hzero
  · rwa [hother] at hin

/-- Every call of the run is clean in the state before it. -/
def CleanCalls (c : Contexts) (steps : List (Quicr × SnsCall)) : Prop :=
  ∀ before step after, steps = before ++ step :: after → (c.calls before).Clean step.2

/-- A context that is made has an id of its own. -/
def NewContexts (c : Contexts) (steps : List (Quicr × SnsCall)) : Prop :=
  ∀ before step after, steps = before ++ step :: after →
    (c.calls before).Creates step.2 → (c.calls before).session.NewContext step.1

theorem CleanCalls.of_append {steps later : List (Quicr × SnsCall)}
    (h : c.CleanCalls (steps ++ later)) : c.CleanCalls steps :=
  fun before step after heq => h before step (after ++ later) (by rw [heq]; simp)

theorem NewContexts.of_append {steps later : List (Quicr × SnsCall)}
    (h : c.NewContexts (steps ++ later)) : c.NewContexts steps :=
  fun before step after heq => h before step (after ++ later) (by rw [heq]; simp)

theorem CleanCalls.inv {steps : List (Quicr × SnsCall)} (h : c.CleanCalls steps)
    (hfresh : c.Fresh) (hnew : c.NewContexts steps) : (c.calls steps).Inv := by
  induction steps using List.reverseRecOn with
  | nil => exact hfresh.inv
  | append_singleton steps step ih =>
    rw [calls_concat]
    exact (ih h.of_append hnew.of_append).call (hnew steps step [] rfl) (h steps step [] rfl)

/-- In all states of a run the ids of the node sets are distinct, and are the contexts that were
made for node sets on the connection and not deleted, when every call is clean. -/
theorem exact_iff_cleanCalls (c : Contexts) (hfresh : c.Fresh) (steps : List (Quicr × SnsCall))
    (hnew : c.NewContexts steps) :
    (∀ before after, steps = before ++ after → (c.calls before).Exact) ↔ c.CleanCalls steps := by
  constructor
  · intro hexact
    induction steps using List.reverseRecOn with
    | nil =>
      intro before step after heq
      simp at heq
    | append_singleton steps step ih =>
      have hbefore := ih hnew.of_append fun before after heq =>
        hexact before (after ++ [step]) (by rw [heq]; simp)
      have hinv := hbefore.inv hfresh hnew.of_append
      intro before step' after heq
      obtain rfl | ⟨after, last, rfl⟩ := List.eq_nil_or_concat' after
      · obtain ⟨rfl, hstep⟩ := List.append_inj' heq rfl
        cases hstep
        by_contra hclean
        refine hinv.not_exact hclean ?_
        rw [← calls_concat]
        exact hexact _ [] (by simp)
      · rw [← List.cons_append, ← List.append_assoc] at heq
        obtain ⟨rfl, -⟩ := List.append_inj' heq rfl
        exact hbefore before step' after rfl
  · intro hclean before after heq
    subst heq
    exact (hclean.of_append.inv hfresh hnew.of_append).exact

/-- A session of this relay that has just started. -/
def started : Contexts where
  session := { nodeId := 1, dataContexts := (∅ : ExtTreeSet SubscribeNodeSetId).insert 1 }
  other := (∅ : ExtTreeSet SubscribeNodeSetId).insert 1

/-- Two node sets, one of which loses its node before the session connects again. -/
def addAndRemove : List (Quicr × SnsCall) :=
  [(.polynomial, .addSubscribeSourceNode 5 1), (.polynomial, .addPeerSnsSourceNode 3 9 2),
    (.polynomial, .removeSubscribeSourceNode 5 1), (.polynomial, .connect)]

theorem clean_addAndRemove {before : List (Quicr × SnsCall)} {step : Quicr × SnsCall}
    {after : List (Quicr × SnsCall)} (heq : addAndRemove = before ++ step :: after) :
    (started.calls before).Clean step.2 ∧
      ((started.calls before).Creates step.2 →
        (started.calls before).session.NewContext step.1) := by
  have htake : before = addAndRemove.take before.length := by rw [heq, List.take_left]
  have hstep : addAndRemove[before.length]? = some step := by
    rw [heq, List.getElem?_append_right (Nat.le_refl _)]
    simp
  have hlt : before.length < 4 := (List.getElem?_eq_some_iff.mp hstep).1
  rw [htake]
  generalize before.length = k at hstep hlt
  match k, hlt with
  | 0, _ =>
    cases hstep
    exact ⟨trivial, fun _ => ⟨by decide +kernel, by decide +kernel⟩⟩
  | 1, _ =>
    cases hstep
    exact ⟨trivial, fun _ => ⟨by decide +kernel, by decide +kernel⟩⟩
  | 2, _ =>
    cases hstep
    exact ⟨trivial, False.elim⟩
  | 3, _ =>
    cases hstep
    refine ⟨fun _ => ExtTreeMap.isEmpty_iff.mp ?_, False.elim⟩
    decide +kernel

theorem newContexts_addAndRemove : started.NewContexts addAndRemove :=
  fun _ _ _ heq => (clean_addAndRemove heq).2

theorem exact_addAndRemove :
    started.NewContexts addAndRemove ∧
      ∀ before after, addAndRemove = before ++ after → (started.calls before).Exact :=
  ⟨newContexts_addAndRemove,
    (exact_iff_cleanCalls started ⟨rfl, rfl, rfl⟩ addAndRemove newContexts_addAndRemove).mpr
      fun _ _ _ heq => (clean_addAndRemove heq).1⟩

/-- All nodes of a set are removed: its context is still there. -/
theorem not_exact_removeAll :
    ¬(started.calls [(.polynomial, .addPeerSnsSourceNode 3 9 2),
      (.polynomial, .removePeerSnsSourceNode 3 9 0)]).Exact := by
  intro hexact
  obtain ⟨key, hkey⟩ := (hexact.mem_out 2).mp ⟨by decide +kernel, by decide +kernel⟩
  have hsub : (started.calls [(.polynomial, .addPeerSnsSourceNode 3 9 2),
      (.polynomial, .removePeerSnsSourceNode 3 9 0)]).session.subSns = ∅ :=
    ExtTreeMap.isEmpty_iff.mp (by decide +kernel)
  have hpeer : (started.calls [(.polynomial, .addPeerSnsSourceNode 3 9 2),
      (.polynomial, .removePeerSnsSourceNode 3 9 0)]).session.peerSns = ∅ :=
    ExtTreeMap.isEmpty_iff.mp (by decide +kernel)
  cases key with
  | inl hash => simp [ids, nodeSet, hsub] at hkey
  | inr key => simp [ids, nodeSet, hpeer] at hkey

end Contexts

end Laps.Peering.PeerSession
