import Laps.Messages.DataHeader
import Laps.Messages.Hosts
import Mathlib.Data.UInt

/-! The messages between machines of both byte orders: which values are in the order of the network
on the way, and read as they were. -/

namespace Laps.Messages

open Std Wire Peering

/-! ### Reading

What `ValueOf` gives does not depend on the machine (`valueOf_eq`), so that only the readers of path
items do. -/

def readPathItemOn (order : HostOrder) : Reader NodePathItem := do
  let id ← mem order 8
  let srttUs ← mem order 8
  pure { id := UInt64.ofNat id, srttUs := UInt64.ofNat srttUs }

def NodeInfo.readOn (order : HostOrder) : Reader NodeInfo := do
  let id ← u64
  let type ← byte
  let contactLen ← varint
  let contact ← take contactLen
  let longitude ← u64
  let latitude ← u64
  let path ← toEnd (readPathItemOn order)
  pure { id, type := ⟨type⟩, contact, longitude, latitude, path }

def Connect.readOn (order : HostOrder) : Reader Connect := do
  let mode ← byte
  let nodeInfo ← NodeInfo.readOn order
  pure { mode := ⟨mode⟩, nodeInfo }

def ConnectResponse.readOn (order : HostOrder) : Reader ConnectResponse := do
  let error ← u16
  if error = 0 then
    let info ← NodeInfo.readOn order
    pure { error := ⟨error⟩, nodeInfo := some info }
  else pure { error := ⟨error⟩, nodeInfo := none }

def decodeOn (order : HostOrder) (type : UInt16) (body : List UInt8) : Option Received :=
  match type.toNat with
  | 1 => ((Connect.readOn order).run body).map fun read => .connect read.1
  | 2 => ((ConnectResponse.readOn order).run body).map fun read => .connectResponse read.1
  | 4 => ((NodeInfo.readOn order).run body).map fun read => .nodeInfo read.1 false
  | 5 => ((NodeInfo.readOn order).run body).map fun read => .nodeInfo read.1 true
  | _ => decode type body

/-- A machine of the order gets the message. -/
def receiveOn (order : HostOrder) (bytes : List UInt8) : Option Received := do
  let (header, body) ← CommonHeader.read.run bytes
  decodeOn order header.type body

/-! A big-endian machine reads what a little-endian one reads, with the path items swapped. -/

def swapItem (item : NodePathItem) : NodePathItem where
  id := UInt64.ofNat (swapBytes 8 item.id.toNat)
  srttUs := UInt64.ofNat (swapBytes 8 item.srttUs.toNat)

def NodeInfo.swapPath (info : NodeInfo) : NodeInfo := { info with path := info.path.map swapItem }

def Received.swapPath : Received → Received
  | .connect msg => .connect { msg with nodeInfo := NodeInfo.swapPath msg.nodeInfo }
  | .connectResponse response =>
    .connectResponse { response with nodeInfo := response.nodeInfo.map NodeInfo.swapPath }
  | .nodeInfo info withdraw => .nodeInfo (NodeInfo.swapPath info) withdraw
  | received => received

theorem swapBytes_mod (n : ℕ) :
    swapBytes 8 (UInt64.ofNat n).toNat = swapBytes 8 n := by
  rw [swapBytes, UInt64.toNat_ofNat', swapBytes]
  exact congrArg netValue (hostBytes_mod 8 n)

theorem readPathItemOn_big : readPathItemOn .big = swapItem <$> readPathItem := by
  unfold readPathItemOn readPathItem
  simp only [mem_big, bind_map_left, map_bind, map_pure, swapItem, swapBytes_mod]

theorem NodeInfo.readOn_big : NodeInfo.readOn .big = swapPath <$> NodeInfo.read := by
  unfold NodeInfo.readOn NodeInfo.read
  simp only [readPathItemOn_big, toEnd_map, bind_map_left, map_bind, map_pure, swapPath]

theorem Connect.readOn_big : Connect.readOn .big =
    (fun msg => { msg with nodeInfo := NodeInfo.swapPath msg.nodeInfo }) <$> Connect.read := by
  unfold Connect.readOn Connect.read
  simp only [NodeInfo.readOn_big, bind_map_left, map_bind, map_pure]

theorem ConnectResponse.readOn_big : ConnectResponse.readOn .big =
    (fun response => { response with nodeInfo := response.nodeInfo.map NodeInfo.swapPath }) <$>
      ConnectResponse.read := by
  unfold ConnectResponse.readOn ConnectResponse.read
  rw [map_bind]
  congr 1
  funext error
  split
  · simp only [NodeInfo.readOn_big, bind_map_left, map_bind, map_pure, Option.map_some]
  · rw [map_pure, Option.map_none]

theorem decodeOn_little (type : UInt16) (body : List UInt8) :
    decodeOn .little type body = decode type body := by
  unfold decodeOn
  split <;> rename_i htype
  · rw [decode, htype]; rfl
  · rw [decode, htype]; rfl
  · rw [decode, htype]; rfl
  · rw [decode, htype]; rfl
  · rfl

/-- The other messages have no path. -/
theorem map_swapPath_decode {type : UInt16} (hconnect : type.toNat ≠ 1) (hresponse : type.toNat ≠ 2)
    (hadvertise : type.toNat ≠ 4) (hwithdraw : type.toNat ≠ 5) (body : List UInt8) :
    (decode type body).map Received.swapPath = decode type body := by
  unfold decode
  split
  · contradiction
  · contradiction
  · contradiction
  · contradiction
  all_goals
    first
    | exact Option.map_map ..
    | rfl

/-- What a big-endian machine gets of a message. -/
theorem decodeOn_big (type : UInt16) (body : List UInt8) :
    decodeOn .big type body = (decode type body).map Received.swapPath := by
  unfold decodeOn
  split <;> rename_i htype
  · rw [decode, htype, Connect.readOn_big, StateT.run_map]
    cases Connect.read.run body <;> rfl
  · rw [decode, htype, ConnectResponse.readOn_big, StateT.run_map]
    cases ConnectResponse.read.run body <;> rfl
  · rw [decode, htype, NodeInfo.readOn_big, StateT.run_map]
    cases NodeInfo.read.run body <;> rfl
  · rw [decode, htype, NodeInfo.readOn_big, StateT.run_map]
    cases NodeInfo.read.run body <;> rfl
  · exact (map_swapPath_decode ‹_› ‹_› ‹_› ‹_› body).symm

/-! ### Values in the order of the network -/

/-- The members of the item have the same bytes in both orders. -/
def SymmetricItem (item : NodePathItem) : Prop :=
  Wire.Symmetric 8 item.id.toNat ∧ Wire.Symmetric 8 item.srttUs.toNat

theorem swapItem_of_symmetric {item : NodePathItem} (h : SymmetricItem item) :
    swapItem item = item := by
  rw [swapItem, swapBytes_of_symmetric (UInt64.toNat_lt item.id) h.1,
    swapBytes_of_symmetric (UInt64.toNat_lt item.srttUs) h.2, UInt64.ofNat_toNat,
    UInt64.ofNat_toNat]

theorem NodeInfo.swapPath_of_symmetric {info : NodeInfo}
    (h : ∀ item ∈ info.path, SymmetricItem item) : NodeInfo.swapPath info = info := by
  have hpath : info.path.map swapItem = info.path.map fun item => item :=
    List.map_congr_left fun item hitem => swapItem_of_symmetric (h item hitem)
  rw [swapPath, hpath, List.map_id']

namespace Message

def SymmetricPath (m : Message) : Prop := ∀ item ∈ m.path, SymmetricItem item

theorem swapPath_received {m : Message} (hfits : m.Fits) (h : m.SymmetricPath) :
    m.received.swapPath = m.received := by
  cases m with
  | connect msg =>
    have hinfo : NodeInfo.swapPath msg.nodeInfo = msg.nodeInfo := NodeInfo.swapPath_of_symmetric h
    rw [received, Received.swapPath, hinfo]
  | connectResponse response =>
    rw [received, Received.swapPath]
    cases hinfo : response.nodeInfo with
    | none => rw [Option.map_none, ← hinfo]
    | some info =>
      have herror : response.error = .noError :=
        (hfits.response response rfl).mp (by rw [hinfo]; rfl)
      have hpath : (connectResponse response).path = info.path := by
        simp [path, herror, hinfo]
      rw [Option.map_some, NodeInfo.swapPath_of_symmetric (hpath ▸ h), ← hinfo]
  | nodeInfo info withdraw =>
    have hinfo : NodeInfo.swapPath info = info := NodeInfo.swapPath_of_symmetric h
    rw [received, Received.swapPath, hinfo]
  | subscribeInfo info withdraw isOrigin => rfl
  | announceInfo info withdraw => rfl
  | subscribeNodeSet sns withdraw => rfl

/-- On the way from one machine to another all values are in the order of the network, and those of
the message are what is read. -/
structure NetworkOrder (order order' : HostOrder) (m : Message) : Prop where
  inOrder : ∀ fields, m.fields = some fields → ∀ f ∈ fields, f.InOrder order order'
  received : m.Fits → (m.serializeOn order).bind (receiveOn order') = some m.received

theorem serializeOn_little_of_fits {m : Message} (h : m.Fits) :
    ∃ bytes header, m.serializeOn .little = some bytes ∧
      CommonHeader.read.run bytes = some (header, m.body) ∧
      decode header.type m.body = some m.received := by
  obtain ⟨bytes, header, hbytes, hheader, -, -, -, -, hdecode⟩ := decode_serialize m h
  exact ⟨bytes, header, (serializeOn_little m).trans hbytes, hheader, hdecode⟩

/-- Between a little-endian machine and any other one, with a path that looks the same in both
orders. -/
theorem receiveOn_serializeOn {m : Message} (hfits : m.Fits) (hpath : m.SymmetricPath)
    (order : HostOrder) : (m.serializeOn .little).bind (receiveOn order) = some m.received := by
  obtain ⟨bytes, header, hbytes, hheader, hdecode⟩ := serializeOn_little_of_fits hfits
  have hreceive : receiveOn order bytes = decodeOn order header.type m.body := by
    rw [receiveOn, hheader]
    rfl
  rw [hbytes, Option.bind_some, hreceive]
  cases order with
  | little => rw [decodeOn_little, hdecode]
  | big => rw [decodeOn_big, hdecode, Option.map_some, swapPath_received hfits hpath]

/-! The members of the path items are the only values that are copied. -/

theorem memory_mem_nodeInfo {info : NodeInfo} {value : UInt64} :
    Field.memory value ∈ NodeInfo.fields info ↔
      ∃ item ∈ info.path, value = item.id ∨ value = item.srttUs := by
  simp [NodeInfo.fields, pathItemFields]

theorem memory_notMem_announceInfo (info : AnnounceInfo) (value : UInt64) :
    Field.memory value ∉ AnnounceInfo.fields info := by
  simp [AnnounceInfo.fields, AnnounceInfo.shortFields]

theorem memory_mem_bodyFields {m : Message} {value : UInt64} :
    Field.memory value ∈ m.bodyFields ↔
      ∃ item ∈ m.path, value = item.id ∨ value = item.srttUs := by
  cases m with
  | connect msg => simp [bodyFields, path, memory_mem_nodeInfo]
  | connectResponse response =>
    by_cases herror : response.error = .noError
    · cases hinfo : response.nodeInfo <;>
        simp [bodyFields, path, ConnectResponse.errorFields, herror, hinfo, memory_mem_nodeInfo]
    · simp [bodyFields, path, ConnectResponse.errorFields, herror]
  | nodeInfo info withdraw => exact memory_mem_nodeInfo
  | subscribeInfo info withdraw isOrigin => simp [bodyFields, path, SubscribeInfo.fields]
  | announceInfo info withdraw =>
    simpa [bodyFields, path] using memory_notMem_announceInfo info value
  | subscribeNodeSet sns withdraw =>
    cases withdraw <;> simp [bodyFields, path, SubscribeNodeSet.fields]

theorem symmetricPath_iff {m : Message} :
    m.SymmetricPath ↔ ∀ value, Field.memory value ∈ m.bodyFields → (Field.memory value).Symmetric := by
  constructor
  · intro h value hmem
    obtain ⟨item, hitem, rfl | rfl⟩ := memory_mem_bodyFields.mp hmem
    · exact (h item hitem).1
    · exact (h item hitem).2
  · intro h item hitem
    exact ⟨h item.id (memory_mem_bodyFields.mpr ⟨item, hitem, .inl rfl⟩),
      h item.srttUs (memory_mem_bodyFields.mpr ⟨item, hitem, .inr rfl⟩)⟩

/-- No type of a message has the same bytes in both orders. -/
theorem eq_little_of_type_inOrder {order order' : HostOrder} {type : MsgType}
    (h : (Field.u16 type.toUInt16).InOrder order order') : order = .little := by
  refine (Field.inOrder_u16.mp h).resolve_right ?_
  cases type <;> decide

theorem networkOrder_iff {order order' : HostOrder} {m : Message} :
    m.NetworkOrder order order' ↔ m.sizeBytes = none ∨ order = .little ∧ m.SymmetricPath := by
  cases hsize : m.sizeBytes with
  | none =>
    have hfields : m.fields = none := by rw [fields, hsize, Option.map_none]
    have hfits : ¬m.Fits := by
      intro hfits
      obtain ⟨size, hsome, -⟩ := sizeBytes_eq hfits
      rw [hsize] at hsome
      cases hsome
    refine iff_of_true ⟨fun fields hsome => ?_, fun h => absurd h hfits⟩ (.inl rfl)
    rw [hfields] at hsome
    cases hsome
  | some size =>
    have hfields : m.fields = some (headerFields m.type size ++ m.bodyFields) := by
      rw [fields, hsize, Option.map_some]
    constructor
    · rintro ⟨hinOrder, -⟩
      have hall := hinOrder _ hfields
      have horder : order = .little :=
        eq_little_of_type_inOrder (hall (.u16 m.type.toUInt16) (by simp [headerFields]))
      subst horder
      refine .inr ⟨rfl, symmetricPath_iff.mpr fun value hmem => ?_⟩
      exact Field.inOrder_memory_little.mp (hall _ (List.mem_append_right _ hmem))
    · rintro (hnone | ⟨rfl, hpath⟩)
      · cases hnone
      · refine ⟨fun fields hsome f hf => ?_, fun hfits => receiveOn_serializeOn hfits hpath order'⟩
        obtain rfl := Option.some.inj (hfields.symm.trans hsome)
        apply Field.inOrder_little.mpr
        rintro value rfl
        obtain hheader | hbody := List.mem_append.mp hf
        · simp [headerFields] at hheader
        · exact symmetricPath_iff.mp hpath value hbody

end Message

end Laps.Messages

/-! ### The header of the data -/

namespace Laps.Peering.DataHeader

open Wire Messages

/-- The fields with the length and the type. -/
def wireFields (header : DataHeader) : List Field :=
  let front := [.raw [UInt8.ofNat (2 + header.fieldsSize)], .raw [header.type.toUInt8]]
  let sns := [.u32 header.snsId, .u64 header.trackFullNameHash]
  match header.type with
  | .existingStream => []
  | .datagram => front ++ sns
  | .newStream => front ++ sns ++ [.raw [header.priority], .u32 header.ttl]
  | _ => front

/-- The header as a machine of the order sends it. -/
def serializeOn (order : HostOrder) (header : DataHeader) : Option (List UInt8) :=
  header.serialize?.map fun _ => writeFields order header.wireFields

theorem writeFields_wireFields (header : DataHeader) :
    writeFields .little header.wireFields = header.serialize := by
  obtain ⟨headerLen, type, snsId, hash, priority, ttl⟩ := header
  cases type <;>
    simp [wireFields, serialize, fields, fieldsSize, write_raw, write_u32, write_u64, bytesOf32_eq,
      bytesOf64_eq]

/-- The integers of the header have the same bytes in both orders. -/
def Symmetric (header : DataHeader) : Prop :=
  header.HasSnsId → Wire.Symmetric 4 header.snsId.toNat ∧
    Wire.Symmetric 8 header.trackFullNameHash.toNat ∧
    (header.type = .newStream → Wire.Symmetric 4 header.ttl.toNat)

theorem inOrder_wireFields {order order' : HostOrder} {header : DataHeader} :
    (∀ f ∈ header.wireFields, f.InOrder order order') ↔ order = .little ∨ header.Symmetric := by
  obtain ⟨headerLen, type, snsId, hash, priority, ttl⟩ := header
  cases type <;>
    simp [wireFields, Symmetric, HasSnsId, Field.inOrder_raw, Field.inOrder_u32, Field.inOrder_u64,
      Field.Symmetric, Field.width, Field.toNat, ← or_and_left]

theorem memory_notMem_wireFields (header : DataHeader) (value : UInt64) :
    Field.memory value ∉ header.wireFields := by
  obtain ⟨headerLen, type, snsId, hash, priority, ttl⟩ := header
  cases type <;> simp [wireFields]

/-- On the way from one machine to another the fields are in the order of the network, and what is
read over any header are the fields of this one. -/
structure NetworkOrder (order order' : HostOrder) (header : DataHeader) : Prop where
  inOrder : ∀ f ∈ header.wireFields, f.InOrder order order'
  received : header.HasSnsId → ∀ bytes, header.serializeOn order = some bytes →
    ∀ old payload, deserialize old (bytes ++ payload) = some (true, withFields
      { old with headerLen := UInt8.ofNat (2 + header.fieldsSize), type := header.type } header)

theorem networkOrder_iff {order order' : HostOrder} {header : DataHeader} :
    header.NetworkOrder order order' ↔ order = .little ∨ header.Symmetric := by
  rw [← @inOrder_wireFields order order']
  refine ⟨fun h => h.inOrder, fun h => ⟨h, fun hsns bytes hbytes old payload => ?_⟩⟩
  have hwrite : writeFields order header.wireFields = header.serialize := by
    rw [← writeFields_wireFields, writeFields, writeFields]
    refine List.flatMap_congr fun f hf => ?_
    refine (Field.write_eq_of_inOrder (h f hf)).resolve_right ?_
    rintro ⟨value, rfl⟩
    exact memory_notMem_wireFields header value hf
  obtain ⟨written, -, rfl⟩ := Option.map_eq_some_iff.mp hbytes
  rw [hwrite]
  exact deserialize_serialize hsns old payload

end Laps.Peering.DataHeader

namespace Laps.Messages

open Wire Peering

/-- Messages and headers keep their values on the way from a little-endian machine, when the items
of a path look the same in both orders, and from a big-endian machine only what looks so. -/
theorem wireOrder_iff (order order' : HostOrder) (m : Message) (header : DataHeader) :
    (m.NetworkOrder order order' ↔
      m.sizeBytes = none ∨ order = .little ∧ ∀ item ∈ m.path, SymmetricItem item) ∧
    (header.NetworkOrder order order' ↔ order = .little ∨ header.Symmetric) :=
  ⟨Message.networkOrder_iff, DataHeader.networkOrder_iff⟩

/-- The information of a node that came over one other. -/
def nodeInfoOverOne : Message :=
  .nodeInfo { id := 7, type := ⟨0⟩, contact := [], longitude := 0, latitude := 0,
              path := [{ id := 5, srttUs := 3 }] } false

/-- Among little-endian machines the item is there with its lowest byte first; a big-endian machine
reads another number. -/
theorem not_wireOrder_nodeInfoOverOne :
    ¬nodeInfoOverOne.NetworkOrder .little .little ∧
      (nodeInfoOverOne.serializeOn .little).bind (receiveOn .big) =
        some (.nodeInfo { id := 7, type := ⟨0⟩, contact := [], longitude := 0, latitude := 0,
                          path := [{ id := 5 * 2 ^ 56, srttUs := 3 * 2 ^ 56 }] } false) := by
  constructor
  · intro h
    have hitem := Field.inOrder_memory_little.mp
      (h.inOrder _ rfl (.memory 5) (by simp [nodeInfoOverOne, Message.bodyFields, NodeInfo.fields,
        pathItemFields]))
    revert hitem
    decide
  · decide +kernel

end Laps.Messages
