import Laps.Lib.HostOrder
import Laps.Messages.RoundTrip

/-! The encoders on machines of both byte orders.  They reverse what the memory holds, which is the
order of the network on a little-endian machine only, and copy the items of a path as they are. -/

namespace Laps.Messages

open Std Wire Peering

/-- `BytesOf`, as the encoders insert it: from the last byte to the first. -/
def reversedBytesOf (order : HostOrder) (k v : ℕ) : List UInt8 := (memBytes order k v).reverse

/-- `ValueOf`, whose `host_order` is always left to its default. -/
def valueOf (order : HostOrder) (bytes : List UInt8) : ℕ :=
  if order = .big then memValue order bytes else memValue order bytes.reverse

/-- The decoders read the order of the network on every machine. -/
theorem valueOf_eq (order : HostOrder) (bytes : List UInt8) : valueOf order bytes = netValue bytes := by
  cases order <;> rfl

/-! ### Fields -/

/-- A field of a message, by the way that it is written. -/
inductive Field where
  /-- Single bytes and byte strings. -/
  | raw (value : List UInt8)
  | u16 (value : UInt16)
  | u32 (value : UInt32)
  /-- Also a double, by its bits. -/
  | u64 (value : UInt64)
  /-- A member of a struct that is copied. -/
  | memory (value : UInt64)

namespace Field

def width : Field → ℕ
  | raw _ => 0
  | u16 _ => 2
  | u32 _ => 4
  | u64 _ => 8
  | memory _ => 8

def toNat : Field → ℕ
  | raw _ => 0
  | u16 value => value.toNat
  | u32 value => value.toNat
  | u64 value => value.toNat
  | memory value => value.toNat

theorem toNat_lt (f : Field) : f.toNat < 256 ^ f.width := by
  cases f with
  | raw value => exact Nat.one_pos
  | u16 value => exact UInt16.toNat_lt value
  | u32 value => exact UInt32.toNat_lt value
  | u64 value => exact UInt64.toNat_lt value
  | memory value => exact UInt64.toNat_lt value

def write (order : HostOrder) (f : Field) : List UInt8 :=
  match f with
  | raw value => value
  | memory _ => memBytes order f.width f.toNat
  | _ => reversedBytesOf order f.width f.toNat

/-- The number that is read from the bytes of the field. -/
def readBack (order : HostOrder) (f : Field) (bytes : List UInt8) : ℕ :=
  match f with
  | memory _ => memValue order bytes
  | _ => valueOf order bytes

/-- A field of several bytes is written with the most significant byte first, and read so. -/
def InOrder (order order' : HostOrder) (f : Field) : Prop :=
  match f with
  | raw _ => True
  | _ => f.write order = netBytes f.width f.toNat ∧
    f.readBack order' (netBytes f.width f.toNat) = f.toNat

/-- The field has the same bytes in both orders. -/
def Symmetric (f : Field) : Prop := Wire.Symmetric f.width f.toNat

instance (f : Field) : Decidable f.Symmetric := inferInstanceAs (Decidable (Wire.Symmetric _ _))

theorem inOrder_raw (order order' : HostOrder) (value : List UInt8) :
    (raw value).InOrder order order' := trivial

theorem inOrder_iff_of_value {order order' : HostOrder} {f : Field}
    (hwrite : f.write order = reversedBytesOf order f.width f.toNat)
    (hread : f.readBack order' = valueOf order')
    (hinOrder : f.InOrder order order' ↔ f.write order = netBytes f.width f.toNat ∧
      f.readBack order' (netBytes f.width f.toNat) = f.toNat) :
    f.InOrder order order' ↔ order = .little ∨ f.Symmetric := by
  rw [hinOrder, hwrite, hread, valueOf_eq, netValue_netBytes f.toNat_lt, reversedBytesOf,
    reverse_memBytes_eq_netBytes_iff, Symmetric]
  exact and_iff_left rfl

theorem inOrder_u16 {order order' : HostOrder} {value : UInt16} :
    (u16 value).InOrder order order' ↔ order = .little ∨ (u16 value).Symmetric :=
  inOrder_iff_of_value rfl rfl Iff.rfl

theorem inOrder_u32 {order order' : HostOrder} {value : UInt32} :
    (u32 value).InOrder order order' ↔ order = .little ∨ (u32 value).Symmetric :=
  inOrder_iff_of_value rfl rfl Iff.rfl

theorem inOrder_u64 {order order' : HostOrder} {value : UInt64} :
    (u64 value).InOrder order order' ↔ order = .little ∨ (u64 value).Symmetric :=
  inOrder_iff_of_value rfl rfl Iff.rfl

theorem inOrder_memory_little {order' : HostOrder} {value : UInt64} :
    (memory value).InOrder .little order' ↔ (memory value).Symmetric := by
  constructor
  · rintro ⟨hwrite, -⟩
    exact hwrite
  · intro hsymmetric
    exact ⟨hsymmetric, memValue_netBytes_of_symmetric order' (toNat_lt (memory value)) hsymmetric⟩

/-- On a little-endian machine only what is copied can be out of order. -/
theorem inOrder_little {order' : HostOrder} {f : Field} :
    f.InOrder .little order' ↔ ∀ value, f = memory value → f.Symmetric := by
  cases f with
  | raw value => exact iff_of_true (inOrder_raw _ _ value) nofun
  | u16 value => exact iff_of_true (inOrder_u16.mpr (.inl rfl)) nofun
  | u32 value => exact iff_of_true (inOrder_u32.mpr (.inl rfl)) nofun
  | u64 value => exact iff_of_true (inOrder_u64.mpr (.inl rfl)) nofun
  | memory value =>
    rw [inOrder_memory_little]
    exact ⟨fun h _ _ => h, fun h => h value rfl⟩

theorem write_eq_of_inOrder {order order' : HostOrder} {f : Field} (h : f.InOrder order order') :
    f.write order = f.write .little ∨ ∃ value, f = .memory value := by
  cases f with
  | raw value => exact .inl rfl
  | u16 value => exact .inl h.1
  | u32 value => exact .inl h.1
  | u64 value => exact .inl h.1
  | memory value => exact .inr ⟨value, rfl⟩

end Field

/-- The fields on a machine. -/
def writeFields (order : HostOrder) (fields : List Field) : List UInt8 :=
  fields.flatMap (Field.write order)

@[simp] theorem writeFields_nil (order : HostOrder) : writeFields order [] = [] := rfl

@[simp] theorem writeFields_cons (order : HostOrder) (f : Field) (fields : List Field) :
    writeFields order (f :: fields) = f.write order ++ writeFields order fields :=
  List.flatMap_cons

@[simp] theorem writeFields_append (order : HostOrder) (fields fields' : List Field) :
    writeFields order (fields ++ fields') = writeFields order fields ++ writeFields order fields' :=
  List.flatMap_append

theorem writeFields_flatMap {α : Type} (order : HostOrder) (l : List α) (f : α → List Field) :
    writeFields order (l.flatMap f) = l.flatMap fun a => writeFields order (f a) :=
  List.flatMap_assoc

/-! ### The fields of the messages -/

def headerFields (type : MsgType) (size : UInt32) : List Field :=
  [.raw [protocolVersion], .u16 type.toUInt16, .u32 size]

def pathItemFields (item : NodePathItem) : List Field := [.memory item.id, .memory item.srttUs]

namespace NodeInfo

def fields (info : NodeInfo) : List Field :=
  [.u64 info.id, .raw [info.type.value], .raw (varintBytes info.contact.length),
    .raw info.contact, .u64 info.longitude, .u64 info.latitude] ++
    info.path.flatMap pathItemFields

end NodeInfo

namespace SubscribeInfo

def fields (info : SubscribeInfo) : List Field :=
  [.u16 info.seq, .u64 info.sourceNodeId, .u64 info.trackHash.trackNamespaceHash,
    .u64 info.trackHash.trackNameHash, .u64 info.trackHash.trackFullnameHash,
    .u32 (UInt32.ofNat info.subscribeData.length), .raw info.subscribeData]

end SubscribeInfo

namespace AnnounceInfo

def shortFields (bytes : List UInt8) : List Field :=
  [.u16 (UInt16.ofNat bytes.length), .raw bytes]

def fields (info : AnnounceInfo) : List Field :=
  [.u64 info.sourceNodeId, .u64 info.fullnameHash,
    .raw [UInt8.ofNat info.nameSpace.length]] ++ info.nameSpace.flatMap shortFields ++
    shortFields info.name ++ [.raw [info.flags]]

end AnnounceInfo

namespace SubscribeNodeSet

def fields (sns : SubscribeNodeSet) (withdraw : Bool) : List Field :=
  if withdraw then [.u32 sns.id]
  else [.u32 sns.id, .raw [sns.priority], .u16 (UInt16.ofNat sns.nodes.size)] ++
    sns.nodes.toList.map .u64

end SubscribeNodeSet

/-- The fields of a connect response without those of the node. -/
def ConnectResponse.errorFields (response : ConnectResponse) : List Field :=
  [.u16 response.error.value]

namespace Message

/-- The path items in the message. -/
def path : Message → List NodePathItem
  | .connect msg => msg.nodeInfo.path
  | .connectResponse response =>
    if response.error = .noError then (response.nodeInfo.map NodeInfo.path).getD [] else []
  | .nodeInfo info _ => info.path
  | _ => []

/-- The fields after the common header. -/
def bodyFields : Message → List Field
  | .connect msg => [.raw [msg.mode.value]] ++ NodeInfo.fields msg.nodeInfo
  | .connectResponse response => response.errorFields ++
      if response.error = .noError then (response.nodeInfo.map NodeInfo.fields).getD [] else []
  | .nodeInfo info _ => NodeInfo.fields info
  | .subscribeInfo info _ isOrigin =>
    SubscribeInfo.fields (Peering.SubscribeInfo.serialize info isOrigin)
  | .announceInfo info _ => AnnounceInfo.fields info
  | .subscribeNodeSet sns withdraw => sns.fields withdraw

/-- All fields; `none` where the message is refused. -/
def fields (m : Message) : Option (List Field) :=
  m.sizeBytes.map fun size => headerFields m.type size ++ m.bodyFields

/-- The message as a machine of the order sends it. -/
def serializeOn (order : HostOrder) (m : Message) : Option (List UInt8) :=
  m.fields.map (writeFields order)

end Message

/-! A little-endian machine sends what the encoders of the model give. -/

theorem writeFields_header (type : MsgType) (size : UInt32) :
    writeFields .little (headerFields type size) = commonHeader type size := by
  simp [headerFields, commonHeader, Field.write, reversedBytesOf, memBytes, netBytes, Field.width,
    Field.toNat]

theorem writeFields_pathItem (item : NodePathItem) :
    writeFields .little (pathItemFields item) = pathItemBytes item := by
  simp [pathItemFields, pathItemBytes, Field.write, memBytes, Field.width, Field.toNat]

theorem write_u16 (value : UInt16) :
    (Field.u16 value).write .little = netBytes 2 value.toNat := rfl

theorem write_u32 (value : UInt32) :
    (Field.u32 value).write .little = netBytes 4 value.toNat := rfl

theorem write_u64 (value : UInt64) :
    (Field.u64 value).write .little = netBytes 8 value.toNat := rfl

theorem write_raw (order : HostOrder) (value : List UInt8) : (Field.raw value).write order = value :=
  rfl

theorem netBytes_mod16 (n : ℕ) : netBytes 2 (n % 65536) = netBytes 2 n := netBytes_mod 2 n

theorem netBytes_mod32 (n : ℕ) : netBytes 4 (n % 4294967296) = netBytes 4 n := netBytes_mod 4 n

theorem writeFields_nodeInfo (info : NodeInfo) :
    writeFields .little (NodeInfo.fields info) = NodeInfo.write info := by
  rw [NodeInfo.fields, NodeInfo.write, writeFields_append, writeFields_flatMap]
  simp [write_u64, write_raw, writeFields_pathItem]

theorem writeFields_subscribeInfo (info : SubscribeInfo) :
    writeFields .little (SubscribeInfo.fields info) = SubscribeInfo.write info := by
  simp [SubscribeInfo.fields, SubscribeInfo.write, write_u16, write_u32, write_u64, write_raw,
    netBytes_mod32]

theorem writeFields_short (bytes : List UInt8) :
    writeFields .little (AnnounceInfo.shortFields bytes) = AnnounceInfo.shortBytes bytes := by
  simp [AnnounceInfo.shortFields, AnnounceInfo.shortBytes, write_u16, write_raw,
    netBytes_mod16]

theorem writeFields_announceInfo (info : AnnounceInfo) :
    writeFields .little (AnnounceInfo.fields info) = AnnounceInfo.write info := by
  rw [AnnounceInfo.fields, AnnounceInfo.write]
  simp [writeFields_flatMap, writeFields_short, write_u64, write_raw]

theorem writeFields_map_u64 (nodes : List NodeIdValueType) :
    writeFields .little (nodes.map Field.u64) = nodes.flatMap fun node => netBytes 8 node.toNat := by
  rw [writeFields, List.flatMap_map]
  rfl

theorem writeFields_subscribeNodeSet (sns : SubscribeNodeSet) (withdraw : Bool) :
    writeFields .little (sns.fields withdraw) =
      if withdraw then netBytes 4 sns.id.toNat else sns.write := by
  cases withdraw with
  | true => simp [SubscribeNodeSet.fields, write_u32]
  | false =>
    simp [SubscribeNodeSet.fields, SubscribeNodeSet.write, write_u16, write_u32, write_raw,
      netBytes_mod16, writeFields_map_u64]

theorem writeFields_bodyFields (m : Message) : writeFields .little m.bodyFields = m.body := by
  cases m with
  | connect msg => simp [Message.bodyFields, Message.body, write_raw, writeFields_nodeInfo]
  | connectResponse response =>
    simp only [Message.bodyFields, Message.body, ConnectResponse.errorFields, writeFields_append,
      writeFields_cons, writeFields_nil, write_u16, List.append_nil]
    by_cases herror : response.error = .noError
    · rw [if_pos herror, if_pos herror]
      cases response.nodeInfo with
      | none => rfl
      | some info => simp [writeFields_nodeInfo]
    · rw [if_neg herror, if_neg herror, writeFields_nil]
  | nodeInfo info withdraw => exact writeFields_nodeInfo info
  | subscribeInfo info withdraw isOrigin => exact writeFields_subscribeInfo _
  | announceInfo info withdraw => exact writeFields_announceInfo info
  | subscribeNodeSet sns withdraw => exact writeFields_subscribeNodeSet sns withdraw

theorem serialize_eq_map (m : Message) :
    m.serialize = m.sizeBytes.map fun size => commonHeader m.type size ++ m.body := by
  cases m with
  | connect msg => simp [Message.serialize, Message.sizeBytes, Connect.serialize,
      NodeInfo.serialize, commonHeaderIf, Message.body, Message.type]
  | connectResponse response =>
    show response.serialize = response.sizeBytes.map _
    rw [ConnectResponse.serialize, ConnectResponse.sizeBytes]
    by_cases herror : response.error = .noError
    · cases hinfo : response.nodeInfo with
      | none => simp [herror]
      | some info =>
        simp [herror, hinfo, Message.body, Message.type, NodeInfo.serialize, commonHeaderIf]
    · simp [herror, Message.body, Message.type]
  | nodeInfo info withdraw => rfl
  | subscribeInfo info withdraw isOrigin => rfl
  | announceInfo info withdraw => rfl
  | subscribeNodeSet sns withdraw => rfl

theorem serializeOn_little (m : Message) : m.serializeOn .little = m.serialize := by
  rw [Message.serializeOn, Message.fields, serialize_eq_map, Option.map_map]
  congr 1
  funext size
  rw [Function.comp_apply, writeFields_append, writeFields_header, writeFields_bodyFields]

end Laps.Messages
