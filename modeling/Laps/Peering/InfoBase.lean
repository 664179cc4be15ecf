import Laps.Lib.OrdMap
import Laps.Quicr

/-! `InfoBase`: what a relay knows of the announcements and subscriptions of all relays, and where
it forwards data. -/

namespace Laps.Peering

open Std

/-- A publisher or a published namespace, and the relay it is at. -/
structure AnnounceInfo where
  sourceNodeId : NodeIdValueType
  nameSpace : TrackNamespace
  name : TrackName
  fullnameHash : UInt64 := 0
  /-- 0 for a publish, 1 for a publish namespace. -/
  flags : UInt8 := 0
  deriving DecidableEq, Repr

def AnnounceInfo.fullTrackName (a : AnnounceInfo) : FullTrackName := ⟨a.nameSpace, a.name⟩

/-- A subscription and the relay it is at. -/
structure SubscribeInfo where
  seq : UInt16 := 0
  sourceNodeId : NodeIdValueType
  trackHash : TrackHash
  subscribeData : List UInt8 := []
  deriving DecidableEq, Repr

/-- A relay that information has come through, and the round trip time of the session. -/
structure NodePathItem where
  id : NodeIdValueType
  srttUs : UInt64 := 0
  deriving DecidableEq, Repr

/-- An `enum class` of a byte: `kVia` 0, `kEdge` 1, `kStub` 2, or any other byte. -/
structure NodeType where
  value : UInt8
  deriving DecidableEq, Repr

def NodeType.edge : NodeType := ⟨1⟩

/-- A relay, and the path that its information has taken.  The coordinates are doubles, given by
their bits. -/
structure NodeInfo where
  id : NodeIdValueType := 0
  type : NodeType := ⟨0⟩
  contact : List UInt8 := []
  longitude : UInt64 := 0
  latitude : UInt64 := 0
  path : List NodePathItem := []
  deriving DecidableEq, Repr

/-- What the relay with the id tells of itself: nothing is on the path. -/
structure NodeInfo.Own (id : NodeIdValueType) (info : NodeInfo) : Prop where
  id : info.id = id
  path : info.path = []

def NodeInfo.sumSrtt (info : NodeInfo) : UInt64 :=
  info.path.foldl (fun sum item => sum + item.srttUs) 0

/-- What a session has told of a relay. -/
structure NodeItem where
  peerSession : PeerSessionId
  nodeInfo : NodeInfo
  deriving DecidableEq, Repr

/-- Where data is forwarded: the egress session and the node set on it. -/
structure FibEntry where
  updateRef : UInt64 := 0
  /-- The egress streams by the ingress streams. -/
  streams : ExtTreeMap UInt64 UInt64 := ∅
  outSnsId : SubscribeNodeSetId := 0
  /-- `none` for the clients of this relay. -/
  peerSession : Option PeerSessionId := none
  deriving DecidableEq

/-- The tables of a relay on the other relays. -/
structure InfoBase where
  nodes : ExtTreeMap (NodeIdValueType × PeerSessionId) NodeItem := ∅
  nodesBest : ExtTreeMap NodeIdValueType PeerSessionId := ∅
  nodesByPeerSession : ExtTreeMap PeerSessionId (ExtTreeSet NodeIdValueType) := ∅
  /-- By the ingress session and node set, and by the egress session. -/
  peerFib :
    ExtTreeMap (PeerSessionId × SubscribeNodeSetId) (ExtTreeMap PeerSessionId FibEntry) := ∅
  clientFib : ExtTreeMap (UInt64 × PeerSessionId) FibEntry := ∅
  subscribes : ExtTreeMap UInt64 (ExtTreeMap NodeIdValueType SubscribeInfo) := ∅
  announces : ExtTreeMap UInt64 (ExtTreeMap NodeIdValueType AnnounceInfo) := ∅
  prefixLookupAnnounces : ExtTreeMap UInt64 (ExtTreeSet UInt64) := ∅
  deriving DecidableEq

namespace InfoBase

/-! ### Subscribes -/

/-- An entry with the same sequence number is left alone, any other is replaced. -/
def addSubscribe (ib : InfoBase) (s : SubscribeInfo) : InfoBase × Bool :=
  match ib.subscribes.get₂? s.trackHash.trackFullnameHash s.sourceNodeId with
  | some old =>
    if old.seq = s.seq then (ib, false)
    else
      ({ ib with
        subscribes := ib.subscribes.insert₂ s.trackHash.trackFullnameHash s.sourceNodeId s }, true)
  | none =>
    ({ ib with
      subscribes := ib.subscribes.insert₂ s.trackHash.trackFullnameHash s.sourceNodeId s }, true)

/-- The sequence number of the message is not looked at. -/
def removeSubscribe (ib : InfoBase) (s : SubscribeInfo) : InfoBase × Bool :=
  match ib.subscribes.get₂? s.trackHash.trackFullnameHash s.sourceNodeId with
  | some _ =>
    ({ ib with
      subscribes := ib.subscribes.erase₂ s.trackHash.trackFullnameHash s.sourceNodeId }, true)
  | none => (ib, false)

/-- `operator[]` leaves an empty row behind when the track is unknown. -/
def getSubscribe (ib : InfoBase) (trackFullnameHash : UInt64) (srcNodeId : NodeIdValueType) :
    InfoBase × Option SubscribeInfo :=
  ({ ib with subscribes := ib.subscribes.insertIfNew trackFullnameHash ∅ },
    ib.subscribes.get₂? trackFullnameHash srcNodeId)

theorem addSubscribe_rest (ib : InfoBase) (s : SubscribeInfo) :
    (ib.addSubscribe s).1 = { ib with subscribes := (ib.addSubscribe s).1.subscribes } := by
  unfold addSubscribe
  split
  · split <;> rfl
  · rfl

/-- What is stored is what was stored before or the subscription itself, under its own keys. -/
theorem get₂?_addSubscribe {ib : InfoBase} {s si : SubscribeInfo} {hash : UInt64}
    {node : NodeIdValueType} (h : (ib.addSubscribe s).1.subscribes.get₂? hash node = some si) :
    (hash = s.trackHash.trackFullnameHash ∧ node = s.sourceNodeId ∧ si = s) ∨
      ib.subscribes.get₂? hash node = some si := by
  have hinsert : (ib.subscribes.insert₂ s.trackHash.trackFullnameHash s.sourceNodeId s).get₂? hash
      node = some si → (hash = s.trackHash.trackFullnameHash ∧ node = s.sourceNodeId ∧ si = s) ∨
        ib.subscribes.get₂? hash node = some si := by
    intro h
    rw [ExtTreeMap.get₂?_insert₂] at h
    split at h
    · rename_i hkey
      exact .inl ⟨hkey.1, hkey.2, (Option.some.inj h).symm⟩
    · exact .inr h
  unfold addSubscribe at h
  split at h
  · split at h
    · exact .inr h
    · exact hinsert h
  · exact hinsert h

theorem removeSubscribe_rest (ib : InfoBase) (s : SubscribeInfo) :
    (ib.removeSubscribe s).1 = { ib with subscribes := (ib.removeSubscribe s).1.subscribes } := by
  unfold removeSubscribe
  split <;> rfl

theorem get₂?_removeSubscribe (ib : InfoBase) (s : SubscribeInfo) (hash : UInt64)
    (node : NodeIdValueType) : (ib.removeSubscribe s).1.subscribes.get₂? hash node =
      if hash = s.trackHash.trackFullnameHash ∧ node = s.sourceNodeId then none
      else ib.subscribes.get₂? hash node := by
  unfold removeSubscribe
  split
  · exact ExtTreeMap.get₂?_erase₂ _ _ _ _ _
  · rename_i hnone
    split
    · rename_i hkey
      rw [hkey.1, hkey.2]
      exact hnone
    · rfl

theorem removeSubscribe_isUpdated (ib : InfoBase) (s : SubscribeInfo) :
    (ib.removeSubscribe s).2 =
      (ib.subscribes.get₂? s.trackHash.trackFullnameHash s.sourceNodeId).isSome := by
  unfold removeSubscribe
  split
  · rename_i hold
    rw [hold]
    rfl
  · rename_i hnone
    rw [hnone]
    rfl

/-- Reading a subscription changes none. -/
theorem get₂?_getSubscribe (ib : InfoBase) (hash hash' : UInt64) (node node' : NodeIdValueType) :
    (ib.getSubscribe hash node).1.subscribes.get₂? hash' node' =
      ib.subscribes.get₂? hash' node' :=
  ib.subscribes.get₂?_insertIfNew_empty hash hash' node'

/-! ### Announces -/

/-- The hashes of the prefixes of a namespace, the shortest first. -/
def prefixHashesFrom (q : Quicr) (hash : UInt64) : TrackNamespace → List UInt64
  | [] => []
  | tuple :: rest =>
    let hash := q.hashCombine hash (q.tupleHash tuple)
    hash :: prefixHashesFrom q hash rest

def prefixHashNamespaceTuples (q : Quicr) (nameSpace : TrackNamespace) : List UInt64 :=
  prefixHashesFrom q 0 nameSpace

/-- The full-name hash is put into the set of a prefix hash. -/
def addPrefix (fullnameHash : UInt64) (lookup : ExtTreeMap UInt64 (ExtTreeSet UInt64))
    (prefixHash : UInt64) : ExtTreeMap UInt64 (ExtTreeSet UInt64) :=
  match lookup[prefixHash]? with
  | none => lookup.insert prefixHash ((∅ : ExtTreeSet UInt64).insert fullnameHash)
  | some hashSet => lookup.insert prefixHash (hashSet.insert fullnameHash)

def addAnnounce (q : Quicr) (ib : InfoBase) (a : AnnounceInfo) : InfoBase × Bool :=
  let isNew := (ib.announces.get₂? a.fullnameHash a.sourceNodeId).isNone
  ({ ib with
    announces := ib.announces.insertIfNew₂ a.fullnameHash a.sourceNodeId a
    prefixLookupAnnounces :=
      if isNew then
        (prefixHashNamespaceTuples q a.nameSpace).foldl (addPrefix a.fullnameHash)
          ib.prefixLookupAnnounces
      else ib.prefixLookupAnnounces }, isNew)

/-- The loop over the prefix hashes in `RemoveAnnounce`: the table, whether something was removed,
and the prefix hashes whose sets became empty. -/
structure PrefixRemoval where
  lookup : ExtTreeMap UInt64 (ExtTreeSet UInt64)
  removed : Bool := false
  emptied : List UInt64 := []

def PrefixRemoval.step (fullnameHash : UInt64) (acc : PrefixRemoval) (prefixHash : UInt64) :
    PrefixRemoval :=
  match acc.lookup[prefixHash]? with
  | none => acc
  | some hashSet =>
    if hashSet.contains fullnameHash then
      { lookup := acc.lookup.insert prefixHash (hashSet.erase fullnameHash)
        removed := true
        emptied :=
          if (hashSet.erase fullnameHash).isEmpty then acc.emptied ++ [prefixHash]
          else acc.emptied }
    else acc

/-- The prefix entries go when any node has announced the name. -/
def removeAnnounce (q : Quicr) (ib : InfoBase) (a : AnnounceInfo) : InfoBase × Bool :=
  if ib.announces.contains a.fullnameHash then
    let acc := (prefixHashNamespaceTuples q a.nameSpace).foldl (PrefixRemoval.step a.fullnameHash)
      { lookup := ib.prefixLookupAnnounces }
    ({ ib with
      prefixLookupAnnounces := acc.emptied.foldl ExtTreeMap.erase acc.lookup
      announces := ib.announces.erase₂ a.fullnameHash a.sourceNodeId }, acc.removed)
  else (ib, false)

/-- The nodes that have announced a full-name hash. -/
def announceNodes (ib : InfoBase) (fullnameHash : UInt64) : List NodeIdValueType :=
  (ib.announces.getD fullnameHash ∅).keys

def getAnnounceIds (q : Quicr) (ib : InfoBase) (nameSpace : TrackNamespace) (name : TrackName)
    (exact : Bool) : ExtTreeSet NodeIdValueType :=
  let ids := (ib.announceNodes (q.trackHash ⟨nameSpace, name⟩).trackFullnameHash).foldl
    ExtTreeSet.insert ∅
  if !ids.isEmpty || exact then ids
  else
    -- The source takes `back()` of the hashes; a namespace is not empty here.
    match (prefixHashNamespaceTuples q nameSpace).getLast? with
    | none => ids
    | some prefixHash =>
      ((ib.prefixLookupAnnounces.getD prefixHash ∅).toList.flatMap ib.announceNodes).foldl
        ExtTreeSet.insert ids

end InfoBase

end Laps.Peering
