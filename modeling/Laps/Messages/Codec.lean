import Laps.Lib.Bytes
import Laps.Peering.Session

/-! The control messages between relays as they go over the wire: what the relays write, and what
they read. -/

namespace Laps.Messages

open Std Wire Peering

/-! ### Fields -/

/-- `kIbp` 0, `kData` 1, `kBoth` 2. -/
structure PeerMode where
  value : UInt8
  deriving DecidableEq, Repr

/-- `kNoError` 0, `kConnectError` 1, `kConnectNotAuthorized` 2. -/
structure ProtocolError where
  value : UInt16
  deriving DecidableEq, Repr

def ProtocolError.noError : ProtocolError := ⟨0⟩

inductive MsgType where
  | connect
  | connectResponse
  | dataObject
  | nodeInfoAdvertise
  | nodeInfoWithdrawn
  | subscribeInfoAdvertised
  | subscribeInfoWithdrawn
  | announceInfoAdvertised
  | announceInfoWithdrawn
  | subscribeNodeSetAdvertised
  | subscribeNodeSetWithdrawn
  deriving DecidableEq, Repr

def MsgType.toUInt16 : MsgType → UInt16
  | connect => 1
  | connectResponse => 2
  | dataObject => 3
  | nodeInfoAdvertise => 4
  | nodeInfoWithdrawn => 5
  | subscribeInfoAdvertised => 6
  | subscribeInfoWithdrawn => 7
  | announceInfoAdvertised => 8
  | announceInfoWithdrawn => 9
  | subscribeNodeSetAdvertised => 10
  | subscribeNodeSetWithdrawn => 11

def protocolVersion : UInt8 := 1

/-- The version, the type and the length of the body. -/
def commonHeader (type : MsgType) (size : UInt32) : List UInt8 :=
  [protocolVersion] ++ netBytes 2 type.toUInt16.toNat ++ netBytes 4 size.toNat

/-- The common header of a message, when it is asked for. -/
def commonHeaderIf (included : Bool) (type : MsgType) (size : UInt32) : List UInt8 :=
  if included then commonHeader type size else []

structure CommonHeader where
  version : UInt8
  type : UInt16
  dataLength : UInt32
  deriving DecidableEq, Repr

def CommonHeader.read : Reader CommonHeader := do
  let version ← byte
  let type ← u16
  let dataLength ← u32
  pure { version, type, dataLength }

/-! ### Nodes -/

/-- The struct as it is in memory. -/
def pathItemBytes (item : NodePathItem) : List UInt8 :=
  hostBytes 8 item.id.toNat ++ hostBytes 8 item.srttUs.toNat

def readPathItem : Reader NodePathItem := do
  let id ← host 8
  let srttUs ← host 8
  pure { id := UInt64.ofNat id, srttUs := UInt64.ofNat srttUs }

namespace NodeInfo

def sizeBytes (info : NodeInfo) : UInt32 :=
  UInt32.ofNat (8 + 1 + varintLength info.contact.length + info.contact.length + 8 + 8 +
    info.path.length * 16)

/-- `operator<<` -/
def write (info : NodeInfo) : List UInt8 :=
  netBytes 8 info.id.toNat ++ [info.type.value] ++ varintBytes info.contact.length ++
    info.contact ++ netBytes 8 info.longitude.toNat ++ netBytes 8 info.latitude.toNat ++
    info.path.flatMap pathItemBytes

def serialize (info : NodeInfo) (includeCommonHeader withdraw : Bool) : List UInt8 :=
  commonHeaderIf includeCommonHeader
    (if withdraw then .nodeInfoWithdrawn else .nodeInfoAdvertise) (sizeBytes info) ++ write info

/-- The path goes on to the end of the bytes.  The readers fail where the source reads past it. -/
def read : Reader NodeInfo := do
  let id ← u64
  let type ← byte
  let contactLen ← varint
  let contact ← take contactLen
  let longitude ← u64
  let latitude ← u64
  let path ← toEnd readPathItem
  pure { id, type := ⟨type⟩, contact, longitude, latitude, path }

end NodeInfo

/-! ### Connect -/

structure Connect where
  mode : PeerMode
  nodeInfo : NodeInfo
  deriving DecidableEq, Repr

namespace Connect

def sizeBytes (connect : Connect) : UInt32 := 1 + NodeInfo.sizeBytes connect.nodeInfo

def serialize (connect : Connect) : List UInt8 :=
  commonHeader .connect connect.sizeBytes ++ [connect.mode.value] ++
    NodeInfo.serialize connect.nodeInfo false false

def read : Reader Connect := do
  let mode ← byte
  let nodeInfo ← NodeInfo.read
  pure { mode := ⟨mode⟩, nodeInfo }

end Connect

structure ConnectResponse where
  error : ProtocolError
  nodeInfo : Option NodeInfo
  deriving DecidableEq, Repr

namespace ConnectResponse

/-- `none` where an empty `optional` is read. -/
def sizeBytes (response : ConnectResponse) : Option UInt32 :=
  if response.error = .noError then response.nodeInfo.map fun info => 2 + NodeInfo.sizeBytes info
  else some 2

/-- `none` where the message without its node information is refused. -/
def serialize (response : ConnectResponse) : Option (List UInt8) := do
  let size ← response.sizeBytes
  let header := commonHeader .connectResponse size ++ netBytes 2 response.error.value.toNat
  if response.error = .noError then
    let info ← response.nodeInfo
    pure (header ++ NodeInfo.serialize info false false)
  else pure header

def read : Reader ConnectResponse := do
  let error ← u16
  if error = 0 then
    let info ← NodeInfo.read
    pure { error := ⟨error⟩, nodeInfo := some info }
  else pure { error := ⟨error⟩, nodeInfo := none }

end ConnectResponse

/-! ### Subscriptions and announcements -/

namespace SubscribeInfo

def sizeBytes (info : SubscribeInfo) : UInt32 :=
  UInt32.ofNat (2 + 8 + 24 + 4 + info.subscribeData.length)

def write (info : SubscribeInfo) : List UInt8 :=
  netBytes 2 info.seq.toNat ++ netBytes 8 info.sourceNodeId.toNat ++
    netBytes 8 info.trackHash.trackNamespaceHash.toNat ++
    netBytes 8 info.trackHash.trackNameHash.toNat ++
    netBytes 8 info.trackHash.trackFullnameHash.toNat ++
    netBytes 4 info.subscribeData.length ++ info.subscribeData

def serialize (info : SubscribeInfo) (includeCommonHeader withdraw isOrigin : Bool) :
    List UInt8 :=
  let info := Peering.SubscribeInfo.serialize info isOrigin
  commonHeaderIf includeCommonHeader
    (if withdraw then .subscribeInfoWithdrawn else .subscribeInfoAdvertised) (sizeBytes info) ++
    write info

/-- A size that is more than what is left is refused. -/
def readData (size : UInt32) : Reader (List UInt8) :=
  if size = 0 then pure [] else take size.toNat

def read : Reader SubscribeInfo := do
  let seq ← u16
  let sourceNodeId ← u64
  let trackNamespaceHash ← u64
  let trackNameHash ← u64
  let trackFullnameHash ← u64
  let subSize ← u32
  let subscribeData ← readData subSize
  pure { seq, sourceNodeId, trackHash := ⟨trackNamespaceHash, trackNameHash, trackFullnameHash⟩,
         subscribeData }

end SubscribeInfo

namespace AnnounceInfo

/-- `TrackNamespace::size` -/
def nameSpaceSize (nameSpace : TrackNamespace) : ℕ := (nameSpace.map List.length).sum

def sizeBytes (info : AnnounceInfo) : UInt32 :=
  UInt32.ofNat (8 + 8 + 1 + 2 * info.nameSpace.length + nameSpaceSize info.nameSpace + 2 +
    info.name.length + 1)

/-- A byte string after its length. -/
def shortBytes (bytes : List UInt8) : List UInt8 := netBytes 2 bytes.length ++ bytes

def write (info : AnnounceInfo) : List UInt8 :=
  netBytes 8 info.sourceNodeId.toNat ++ netBytes 8 info.fullnameHash.toNat ++
    [UInt8.ofNat info.nameSpace.length] ++ info.nameSpace.flatMap shortBytes ++
    shortBytes info.name ++ [info.flags]

def serialize (info : AnnounceInfo) (includeCommonHeader withdraw : Bool) : List UInt8 :=
  commonHeaderIf includeCommonHeader
    (if withdraw then .announceInfoWithdrawn else .announceInfoAdvertised) (sizeBytes info) ++
    write info

def readShort : Reader (List UInt8) := do
  let len ← u16
  take len.toNat

def read : Reader AnnounceInfo := do
  let sourceNodeId ← u64
  let fullnameHash ← u64
  let numEntries ← byte
  let nameSpace ← times readShort numEntries.toNat
  let name ← readShort
  let flags ← byte
  pure { sourceNodeId, nameSpace, name, fullnameHash, flags }

end AnnounceInfo

/-! ### Node sets -/

structure SubscribeNodeSet where
  id : SubscribeNodeSetId := 0
  priority : UInt8 := 2
  nodes : ExtTreeSet NodeIdValueType := ∅
  deriving DecidableEq

namespace SubscribeNodeSet

def snsAdvHeaderSize : ℕ := 7

def sizeBytes (sns : SubscribeNodeSet) (withdraw : Bool) : UInt32 :=
  if withdraw then 4 else UInt32.ofNat (snsAdvHeaderSize + sns.nodes.size * 8)

def write (sns : SubscribeNodeSet) : List UInt8 :=
  netBytes 4 sns.id.toNat ++ [sns.priority] ++ netBytes 2 sns.nodes.size ++
    sns.nodes.toList.flatMap fun node => netBytes 8 node.toNat

def serialize (sns : SubscribeNodeSet) (includeCommonHeader withdraw : Bool) : List UInt8 :=
  commonHeaderIf includeCommonHeader
    (if withdraw then .subscribeNodeSetWithdrawn else .subscribeNodeSetAdvertised)
    (sns.sizeBytes withdraw) ++ if withdraw then netBytes 4 sns.id.toNat else sns.write

def read (withdraw : Bool) : Reader SubscribeNodeSet := do
  let id ← u32
  if withdraw then pure { id }
  else
    let priority ← byte
    let numNodes ← u16
    let nodes ← times u64 numNodes.toNat
    pure { id, priority, nodes := .ofList nodes }

end SubscribeNodeSet

/-! ### Messages -/

/-- A message that is sent, with the arguments of its `Serialize`. -/
inductive Message where
  | connect (msg : Connect)
  | connectResponse (response : ConnectResponse)
  | nodeInfo (info : NodeInfo) (withdraw : Bool)
  | subscribeInfo (info : SubscribeInfo) (withdraw isOrigin : Bool)
  | announceInfo (info : AnnounceInfo) (withdraw : Bool)
  | subscribeNodeSet (sns : SubscribeNodeSet) (withdraw : Bool)
  deriving DecidableEq

/-- What a message is for the relay that gets it. -/
inductive Received where
  | connect (msg : Connect)
  | connectResponse (response : ConnectResponse)
  | nodeInfo (info : NodeInfo) (withdraw : Bool)
  | subscribeInfo (info : SubscribeInfo) (withdraw : Bool)
  | announceInfo (info : AnnounceInfo) (withdraw : Bool)
  | subscribeNodeSet (sns : SubscribeNodeSet) (withdraw : Bool)
  | invalid (type : UInt16)
  deriving DecidableEq

/-- The bytes with the common header. -/
def Message.serialize : Message → Option (List UInt8)
  | .connect msg => some msg.serialize
  | .connectResponse response => response.serialize
  | .nodeInfo info withdraw => some (NodeInfo.serialize info true withdraw)
  | .subscribeInfo info withdraw isOrigin =>
    some (SubscribeInfo.serialize info true withdraw isOrigin)
  | .announceInfo info withdraw => some (AnnounceInfo.serialize info true withdraw)
  | .subscribeNodeSet sns withdraw => some (sns.serialize true withdraw)

/-- The body by the type, as the `switch` of `ProcessControlMessage` decodes it; bytes that are left
over are not looked at. -/
def decode (type : UInt16) (body : List UInt8) : Option Received :=
  match type.toNat with
  | 1 => (Connect.read.run body).map fun read => .connect read.1
  | 2 => (ConnectResponse.read.run body).map fun read => .connectResponse read.1
  | 4 => (NodeInfo.read.run body).map fun read => .nodeInfo read.1 false
  | 5 => (NodeInfo.read.run body).map fun read => .nodeInfo read.1 true
  | 6 => (SubscribeInfo.read.run body).map fun read => .subscribeInfo read.1 false
  | 7 => (SubscribeInfo.read.run body).map fun read => .subscribeInfo read.1 true
  | 8 => (AnnounceInfo.read.run body).map fun read => .announceInfo read.1 false
  | 9 => (AnnounceInfo.read.run body).map fun read => .announceInfo read.1 true
  | 10 => ((SubscribeNodeSet.read false).run body).map fun read => .subscribeNodeSet read.1 false
  | 11 => ((SubscribeNodeSet.read true).run body).map fun read => .subscribeNodeSet read.1 true
  | _ => some (.invalid type)

end Laps.Messages
