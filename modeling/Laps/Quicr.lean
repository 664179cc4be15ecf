import Laps.Lib.OrdMap

/-! The names and hashes of libquicr.  Its code is not part of the repository: what the relay uses
of it is a parameter, `Quicr`. -/

namespace Laps

open Std

/-- The tuples of a namespace. -/
abbrev TrackNamespace := List (List UInt8)

abbrev TrackName := List UInt8

structure FullTrackName where
  nameSpace : TrackNamespace
  name : TrackName
  deriving DecidableEq, Repr

/-- The hashes of a full track name. -/
structure TrackHash where
  trackNamespaceHash : UInt64
  trackNameHash : UInt64
  trackFullnameHash : UInt64
  deriving DecidableEq, Repr

abbrev NodeIdValueType := UInt64
abbrev PeerSessionId := UInt64
abbrev SubscribeNodeSetId := UInt32
abbrev ConnectionHandle := UInt64
abbrev RequestId := UInt64

/-- The parameters of a subscribe that the relay writes or reads. -/
structure SubscribeParameters where
  subscriberPriority : Option UInt8 := none
  groupOrder : Option UInt8 := none
  newGroupRequest : Option UInt64 := none
  deriving DecidableEq, Repr

/-- The fields of a subscribe message, in the order of the wire format. -/
structure SubscribeMessage where
  requestId : RequestId
  trackNamespace : TrackNamespace
  trackName : TrackName
  parameters : SubscribeParameters := {}
  deriving DecidableEq, Repr

/-! Order and equality of what the tables have as keys and as values. -/

instance transOrd_trackNamespace : TransOrd TrackNamespace := inferInstance

instance lawfulEqOrd_trackNamespace : LawfulEqOrd TrackNamespace := inferInstance

instance transOrd_trackNamespace_prod : TransOrd (TrackNamespace × UInt64) := inferInstance

instance lawfulEqOrd_trackNamespace_prod : LawfulEqOrd (TrackNamespace × UInt64) := inferInstance

instance lawfulBEq_hashSet : LawfulBEq (ExtTreeSet UInt64) := inferInstance

/-- What the relay uses of libquicr. -/
structure Quicr where
  /-- The hash of one tuple, as `GetHashes` lists them. -/
  tupleHash : List UInt8 → UInt64
  hashCombine : UInt64 → UInt64 → UInt64
  trackHash : FullTrackName → TrackHash
  /-- `a.HasSamePrefix(b)` of namespaces. -/
  hasSamePrefix : TrackNamespace → TrackNamespace → Bool
  /-- `a.IsPrefixOf(b)` is less or equivalent. -/
  isPrefixOf : TrackNamespace → TrackNamespace → Bool
  /-- `Message().Append(..)` of the fields. -/
  serializeSubscribe : SubscribeMessage → List UInt8
  /-- `ParseField` of the fields one after the other; `none` when one of them throws. -/
  parseSubscribe : List UInt8 → Option SubscribeMessage
  /-- The id of a new data context, given those in use on the connection. -/
  createDataContext : ExtTreeSet SubscribeNodeSetId → SubscribeNodeSetId
  /-- The request id that `SubscribeTrack` gives the handler on the connection. -/
  subscribeTrack : ConnectionHandle → Nat → RequestId

/-- The byte string of a length and so many bytes. -/
def Quicr.takeBytes : List UInt8 → Option (List UInt8 × List UInt8)
  | [] => none
  | len :: rest =>
    if len.toNat ≤ rest.length then some (rest.take len.toNat, rest.drop len.toNat) else none

def Quicr.takeTuples : Nat → List UInt8 → Option (TrackNamespace × List UInt8)
  | 0, bytes => some ([], bytes)
  | n + 1, bytes => do
    let (tuple, bytes) ← takeBytes bytes
    let (tuples, bytes) ← takeTuples n bytes
    pure (tuple :: tuples, bytes)

/-- The parameters as pairs of a type and a value. -/
def Quicr.takeParameters : Nat → List UInt8 → SubscribeParameters → Option SubscribeParameters
  | 0, _, params => some params
  | n + 1, type :: value :: rest, params =>
    takeParameters n rest <|
      if type = 0x20 then { params with subscriberPriority := some value }
      else if type = 0x22 then { params with groupOrder := some value }
      else if type = 0x32 then { params with newGroupRequest := some value.toUInt64 }
      else params
  | _ + 1, _, _ => none

/-- A small instance, for runs on given names: numbers below 64 take one byte. -/
def Quicr.polynomial : Quicr where
  tupleHash tuple := tuple.foldl (fun hash byte => hash * 257 + byte.toUInt64 + 1) 7
  hashCombine hash value := hash * 1000003 + value + 1
  trackHash full :=
    let bytes := fun (tuple : List UInt8) =>
      tuple.foldl (fun hash byte => hash * 257 + byte.toUInt64 + 1) (7 : UInt64)
    let nameSpaceHash := full.nameSpace.foldl (fun hash tuple => hash * 1000003 + bytes tuple + 1) 0
    ⟨nameSpaceHash, bytes full.name, nameSpaceHash * 65537 + bytes full.name⟩
  hasSamePrefix a b := a.isPrefixOf b || b.isPrefixOf a
  isPrefixOf a b := a.isPrefixOf b
  serializeSubscribe msg :=
    let bytes := fun (tuple : List UInt8) => UInt8.ofNat tuple.length :: tuple
    let params :=
      (msg.parameters.subscriberPriority.map fun value => [0x20, value]).toList ++
      (msg.parameters.groupOrder.map fun value => [0x22, value]).toList ++
      (msg.parameters.newGroupRequest.map fun value => [0x32, value.toUInt8]).toList
    [msg.requestId.toUInt8, UInt8.ofNat msg.trackNamespace.length] ++
      msg.trackNamespace.flatMap bytes ++ bytes msg.trackName ++
      UInt8.ofNat params.length :: params.flatten
  parseSubscribe
    | requestId :: tuples :: bytes => do
      let (trackNamespace, bytes) ← takeTuples tuples.toNat bytes
      let (trackName, bytes) ← takeBytes bytes
      let parameters ← match bytes with
        | [] => none
        | count :: bytes => takeParameters count.toNat bytes {}
      pure ⟨requestId.toUInt64, trackNamespace, trackName, parameters⟩
    | _ => none
  createDataContext inUse :=
    match inUse.toList.getLast? with
    | none => 1
    | some id => id + 1
  subscribeTrack _ handler := UInt64.ofNat (2 * handler + 1)

end Laps
