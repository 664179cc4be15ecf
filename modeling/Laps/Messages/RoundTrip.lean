import Laps.Messages.Codec

/-! What the relays read is what was written, for all control messages. -/

namespace Laps.Messages

open Std Wire Peering

/-! ### The bodies -/

theorem reads_pathItem (item : NodePathItem) : Reads readPathItem (pathItemBytes item) item := by
  have hid := reads_host (k := 8) (UInt64.toNat_lt item.id)
  have hsrtt := reads_host (k := 8) (UInt64.toNat_lt item.srttUs)
  intro rest
  unfold pathItemBytes readPathItem
  rw [List.append_assoc, hid.run_bind, hsrtt.run_bind, UInt64.ofNat_toNat, UInt64.ofNat_toNat]
  rfl

@[simp] theorem length_pathItemBytes (item : NodePathItem) : (pathItemBytes item).length = 16 := by
  simp [pathItemBytes]

theorem length_flatMap_pathItemBytes (path : List NodePathItem) :
    (path.flatMap pathItemBytes).length = path.length * 16 := by
  induction path with
  | nil => rfl
  | cons item path ih =>
    rw [List.flatMap_cons, List.length_append, ih, length_pathItemBytes, List.length_cons]
    omega

namespace NodeInfo

theorem length_write (info : NodeInfo) : (write info).length =
    8 + 1 + varintLength info.contact.length + info.contact.length + 8 + 8 +
      info.path.length * 16 := by
  simp only [write, List.length_append, length_netBytes, List.length_singleton, length_varintBytes,
    length_flatMap_pathItemBytes]

theorem run_read (info : NodeInfo) (h : info.contact.length < 2 ^ 62) :
    read.run (write info) = some (info, []) := by
  unfold write read
  simp only [List.append_assoc]
  rw [(reads_u64 info.id).run_bind, (reads_byte info.type.value).run_bind,
    (reads_varint h).run_bind, (reads_take rfl).run_bind, (reads_u64 info.longitude).run_bind,
    (reads_u64 info.latitude).run_bind, StateT.run_bind]
  have hne : ∀ item ∈ info.path, pathItemBytes item ≠ [] := by
    intro item _ hnil
    have hlength := congrArg List.length hnil
    rw [length_pathItemBytes, List.length_nil] at hlength
    omega
  rw [run_toEnd (fun item _ => reads_pathItem item) hne]
  rfl

end NodeInfo

namespace SubscribeInfo

theorem length_write (info : SubscribeInfo) :
    (write info).length = 2 + 8 + 24 + 4 + info.subscribeData.length := by
  simp only [write, List.length_append, length_netBytes]

theorem reads_read (info : SubscribeInfo) (h : info.subscribeData.length < 2 ^ 32) :
    Reads read (write info) info := by
  have hsize : UInt32.toNat (UInt32.ofNat info.subscribeData.length) =
      info.subscribeData.length := by
    rw [UInt32.toNat_ofNat', Nat.mod_eq_of_lt h]
  have hcount := reads_u32 (UInt32.ofNat info.subscribeData.length)
  rw [hsize] at hcount
  have hdata : Reads (readData (UInt32.ofNat info.subscribeData.length)) info.subscribeData
      info.subscribeData := by
    unfold readData
    split
    · rename_i hzero
      have hempty : info.subscribeData = [] := by
        rw [hzero] at hsize
        exact List.length_eq_zero_iff.mp hsize.symm
      rw [hempty]
      exact .pure []
    · exact reads_take hsize.symm
  intro rest
  unfold write read
  simp only [List.append_assoc]
  rw [(reads_u16 info.seq).run_bind, (reads_u64 info.sourceNodeId).run_bind,
    (reads_u64 _).run_bind, (reads_u64 _).run_bind, (reads_u64 _).run_bind, hcount.run_bind,
    hdata.run_bind]
  rfl

end SubscribeInfo

namespace AnnounceInfo

theorem reads_short {bytes : List UInt8} (h : bytes.length < 2 ^ 16) :
    Reads readShort (shortBytes bytes) bytes := by
  have hsize : UInt16.toNat (UInt16.ofNat bytes.length) = bytes.length := by
    rw [UInt16.toNat_ofNat', Nat.mod_eq_of_lt h]
  have hlen := reads_u16 (UInt16.ofNat bytes.length)
  rw [hsize] at hlen
  exact hlen.bind (reads_take hsize.symm)

theorem length_flatMap_shortBytes (nameSpace : TrackNamespace) :
    (nameSpace.flatMap shortBytes).length = 2 * nameSpace.length + nameSpaceSize nameSpace := by
  induction nameSpace with
  | nil => rfl
  | cons tuple tuples ih =>
    rw [List.flatMap_cons, List.length_append, ih, shortBytes, nameSpaceSize, nameSpaceSize,
      List.map_cons, List.sum_cons, List.length_append, length_netBytes, List.length_cons]
    omega

theorem length_write (info : AnnounceInfo) : (write info).length =
    8 + 8 + 1 + 2 * info.nameSpace.length + nameSpaceSize info.nameSpace + 2 +
      info.name.length + 1 := by
  simp only [write, List.length_append, length_netBytes, List.length_singleton,
    length_flatMap_shortBytes, shortBytes]
  omega

theorem reads_read (info : AnnounceInfo) (hcount : info.nameSpace.length < 2 ^ 8)
    (htuples : ∀ tuple ∈ info.nameSpace, tuple.length < 2 ^ 16) (hname : info.name.length < 2 ^ 16) :
    Reads read (write info) info := by
  have hentries : (UInt8.ofNat info.nameSpace.length).toNat = info.nameSpace.length := by
    rw [UInt8.toNat_ofNat', Nat.mod_eq_of_lt hcount]
  have hspace : Reads (times readShort (UInt8.ofNat info.nameSpace.length).toNat)
      (info.nameSpace.flatMap shortBytes) info.nameSpace := by
    rw [hentries]
    exact reads_times fun tuple htuple => reads_short (htuples tuple htuple)
  intro rest
  unfold write read
  simp only [List.append_assoc]
  rw [(reads_u64 info.sourceNodeId).run_bind, (reads_u64 info.fullnameHash).run_bind,
    (reads_byte _).run_bind, hspace.run_bind, (reads_short hname).run_bind,
    (reads_byte info.flags).run_bind]
  rfl

end AnnounceInfo

namespace SubscribeNodeSet

theorem length_flatMap_netBytes (nodes : List NodeIdValueType) :
    (nodes.flatMap fun node => netBytes 8 node.toNat).length = nodes.length * 8 := by
  induction nodes with
  | nil => rfl
  | cons node nodes ih =>
    rw [List.flatMap_cons, List.length_append, ih, length_netBytes, List.length_cons]
    omega

theorem length_write (sns : SubscribeNodeSet) :
    sns.write.length = snsAdvHeaderSize + sns.nodes.size * 8 := by
  simp only [write, List.length_append, length_netBytes, List.length_singleton,
    length_flatMap_netBytes, ExtTreeSet.length_toList, snsAdvHeaderSize]

theorem reads_read (sns : SubscribeNodeSet) (h : sns.nodes.size < 2 ^ 16) :
    Reads (read false) sns.write sns := by
  have hsize : UInt16.toNat (UInt16.ofNat sns.nodes.size) = sns.nodes.size := by
    rw [UInt16.toNat_ofNat', Nat.mod_eq_of_lt h]
  have hcount := reads_u16 (UInt16.ofNat sns.nodes.size)
  rw [hsize] at hcount
  have hnodes : Reads (times u64 (UInt16.ofNat sns.nodes.size).toNat)
      (sns.nodes.toList.flatMap fun node => netBytes 8 node.toNat) sns.nodes.toList := by
    rw [hsize, ← ExtTreeSet.length_toList]
    exact reads_times fun node _ => reads_u64 node
  have hset : ExtTreeSet.ofList sns.nodes.toList = sns.nodes := by
    apply ExtTreeSet.ext_mem
    intro node
    simp
  intro rest
  unfold write read
  simp only [List.append_assoc]
  rw [(reads_u32 sns.id).run_bind]
  simp only [Bool.false_eq_true, if_false]
  rw [(reads_byte sns.priority).run_bind, hcount.run_bind, hnodes.run_bind, hset]
  rfl

theorem reads_read_withdraw (id : SubscribeNodeSetId) :
    Reads (read true) (netBytes 4 id.toNat) { id } := by
  intro rest
  unfold read
  rw [(reads_u32 id).run_bind]
  rfl

end SubscribeNodeSet

/-! ### Messages -/

namespace Message

def type : Message → MsgType
  | .connect _ => .connect
  | .connectResponse _ => .connectResponse
  | .nodeInfo _ withdraw => if withdraw then .nodeInfoWithdrawn else .nodeInfoAdvertise
  | .subscribeInfo _ withdraw _ =>
    if withdraw then .subscribeInfoWithdrawn else .subscribeInfoAdvertised
  | .announceInfo _ withdraw =>
    if withdraw then .announceInfoWithdrawn else .announceInfoAdvertised
  | .subscribeNodeSet _ withdraw =>
    if withdraw then .subscribeNodeSetWithdrawn else .subscribeNodeSetAdvertised

/-- `SizeBytes` of the message. -/
def sizeBytes : Message → Option UInt32
  | .connect msg => some msg.sizeBytes
  | .connectResponse response => response.sizeBytes
  | .nodeInfo info _ => some (NodeInfo.sizeBytes info)
  | .subscribeInfo info _ isOrigin =>
    some (SubscribeInfo.sizeBytes (Peering.SubscribeInfo.serialize info isOrigin))
  | .announceInfo info _ => some (AnnounceInfo.sizeBytes info)
  | .subscribeNodeSet sns withdraw => some (sns.sizeBytes withdraw)

/-- The bytes after the common header. -/
def body : Message → List UInt8
  | .connect msg => [msg.mode.value] ++ NodeInfo.write msg.nodeInfo
  | .connectResponse response =>
    netBytes 2 response.error.value.toNat ++
      if response.error = .noError then (response.nodeInfo.map NodeInfo.write).getD [] else []
  | .nodeInfo info _ => NodeInfo.write info
  | .subscribeInfo info _ isOrigin =>
    SubscribeInfo.write (Peering.SubscribeInfo.serialize info isOrigin)
  | .announceInfo info _ => AnnounceInfo.write info
  | .subscribeNodeSet sns withdraw => if withdraw then netBytes 4 sns.id.toNat else sns.write

/-- What is to be read: all fields, with the number of a subscription after it is counted up, and
only the id of a node set that is withdrawn. -/
def received : Message → Received
  | .connect msg => .connect msg
  | .connectResponse response => .connectResponse response
  | .nodeInfo info withdraw => .nodeInfo info withdraw
  | .subscribeInfo info withdraw isOrigin =>
    .subscribeInfo (Peering.SubscribeInfo.serialize info isOrigin) withdraw
  | .announceInfo info withdraw => .announceInfo info withdraw
  | .subscribeNodeSet sns withdraw =>
    .subscribeNodeSet (if withdraw then { id := sns.id } else sns) withdraw

/-- Counts and lengths fit their fields, and a connect response has node information when there is
no error. -/
structure Fits (m : Message) : Prop where
  body : m.body.length < 2 ^ 32
  response : ∀ response, m = .connectResponse response →
    (response.nodeInfo.isSome = true ↔ response.error = .noError)
  announce : ∀ info withdraw, m = .announceInfo info withdraw →
    info.nameSpace.length ≤ 255 ∧ (∀ tuple ∈ info.nameSpace, tuple.length < 65536) ∧
      info.name.length < 65536
  nodes : ∀ sns withdraw, m = .subscribeNodeSet sns withdraw → sns.nodes.size ≤ 65535

theorem toNat_ofNat_of_length {n : ℕ} {bytes : List UInt8} (hlength : bytes.length = n)
    (h : bytes.length < 2 ^ 32) : (UInt32.ofNat n).toNat = bytes.length := by
  rw [UInt32.toNat_ofNat', ← hlength, Nat.mod_eq_of_lt h]

/-- The length of the body is the size that the message gives. -/
theorem sizeBytes_eq {m : Message} (h : m.Fits) :
    ∃ size, m.sizeBytes = some size ∧ size.toNat = m.body.length := by
  have hbody := h.body
  cases m with
  | connect msg =>
    refine ⟨_, rfl, ?_⟩
    have hwrite : (NodeInfo.write msg.nodeInfo).length + 1 < 2 ^ 32 := by
      simpa [body] using hbody
    have hinfo := toNat_ofNat_of_length (NodeInfo.length_write msg.nodeInfo) (by omega)
    rw [Connect.sizeBytes, NodeInfo.sizeBytes, UInt32.toNat_add, hinfo, body,
      List.length_append, List.length_singleton]
    exact Nat.mod_eq_of_lt (by simp; omega)
  | connectResponse response =>
    by_cases herror : response.error = .noError
    · obtain ⟨info, hinfo⟩ := Option.isSome_iff_exists.mp ((h.response _ rfl).mpr herror)
      have hlength : (Message.connectResponse response).body.length =
          2 + (NodeInfo.write info).length := by
        simp [body, herror, hinfo]
      have hsize := toNat_ofNat_of_length (NodeInfo.length_write info) (by omega)
      refine ⟨2 + NodeInfo.sizeBytes info, ?_, ?_⟩
      · simp [sizeBytes, ConnectResponse.sizeBytes, herror, hinfo]
      · rw [hlength, NodeInfo.sizeBytes, UInt32.toNat_add, hsize]
        exact Nat.mod_eq_of_lt (by simp; omega)
    · refine ⟨2, ?_, ?_⟩
      · simp [sizeBytes, ConnectResponse.sizeBytes, herror]
      · simp [body, herror]
  | nodeInfo info withdraw => exact ⟨_, rfl, toNat_ofNat_of_length (NodeInfo.length_write info) hbody⟩
  | subscribeInfo info withdraw isOrigin =>
    exact ⟨_, rfl, toNat_ofNat_of_length (SubscribeInfo.length_write _) hbody⟩
  | announceInfo info withdraw =>
    exact ⟨_, rfl, toNat_ofNat_of_length (AnnounceInfo.length_write info) hbody⟩
  | subscribeNodeSet sns withdraw =>
    cases withdraw with
    | true => exact ⟨_, rfl, by simp [body, SubscribeNodeSet.sizeBytes]⟩
    | false => exact ⟨_, rfl, toNat_ofNat_of_length sns.length_write hbody⟩

theorem serialize_eq {m : Message} (h : m.Fits) {size : UInt32} (hsize : m.sizeBytes = some size) :
    m.serialize = some (commonHeader m.type size ++ m.body) := by
  cases m with
  | connect msg =>
    cases hsize
    simp [serialize, Connect.serialize, NodeInfo.serialize, commonHeaderIf, body, type]
  | connectResponse response =>
    change response.sizeBytes = some size at hsize
    show response.serialize = _
    rw [ConnectResponse.serialize, hsize]
    by_cases herror : response.error = .noError
    · obtain ⟨info, hinfo⟩ := Option.isSome_iff_exists.mp ((h.response _ rfl).mpr herror)
      simp [herror, hinfo, body, type, NodeInfo.serialize, commonHeaderIf]
    · simp [herror, body, type]
  | nodeInfo info withdraw =>
    cases hsize
    rfl
  | subscribeInfo info withdraw isOrigin =>
    cases hsize
    rfl
  | announceInfo info withdraw =>
    cases hsize
    rfl
  | subscribeNodeSet sns withdraw =>
    cases hsize
    rfl

/-! The reader by the type. -/

section

variable {body rest : List UInt8}

theorem decode_connect {msg : Connect} (h : Connect.read.run body = some (msg, rest)) :
    decode MsgType.connect.toUInt16 body = some (.connect msg) := by
  show (Connect.read.run body).map (fun read => Received.connect read.1) = _
  rw [h]
  rfl

theorem decode_connectResponse {response : ConnectResponse}
    (h : ConnectResponse.read.run body = some (response, rest)) :
    decode MsgType.connectResponse.toUInt16 body = some (.connectResponse response) := by
  show (ConnectResponse.read.run body).map (fun read => Received.connectResponse read.1) = _
  rw [h]
  rfl

theorem decode_nodeInfo {info : NodeInfo} (withdraw : Bool)
    (h : NodeInfo.read.run body = some (info, rest)) :
    decode (Message.nodeInfo info withdraw).type.toUInt16 body =
      some (.nodeInfo info withdraw) := by
  have hread : decode (Message.nodeInfo info withdraw).type.toUInt16 body =
      (NodeInfo.read.run body).map fun read => .nodeInfo read.1 withdraw := by
    cases withdraw <;> rfl
  rw [hread, h]
  rfl

theorem decode_subscribeInfo {info info' : SubscribeInfo} (withdraw isOrigin : Bool)
    (h : SubscribeInfo.read.run body = some (info', rest)) :
    decode (Message.subscribeInfo info withdraw isOrigin).type.toUInt16 body =
      some (.subscribeInfo info' withdraw) := by
  have hread : decode (Message.subscribeInfo info withdraw isOrigin).type.toUInt16 body =
      (SubscribeInfo.read.run body).map fun read => .subscribeInfo read.1 withdraw := by
    cases withdraw <;> rfl
  rw [hread, h]
  rfl

theorem decode_announceInfo {info : AnnounceInfo} (withdraw : Bool)
    (h : AnnounceInfo.read.run body = some (info, rest)) :
    decode (Message.announceInfo info withdraw).type.toUInt16 body =
      some (.announceInfo info withdraw) := by
  have hread : decode (Message.announceInfo info withdraw).type.toUInt16 body =
      (AnnounceInfo.read.run body).map fun read => .announceInfo read.1 withdraw := by
    cases withdraw <;> rfl
  rw [hread, h]
  rfl

theorem decode_subscribeNodeSet {sns sns' : SubscribeNodeSet} (withdraw : Bool)
    (h : (SubscribeNodeSet.read withdraw).run body = some (sns', rest)) :
    decode (Message.subscribeNodeSet sns withdraw).type.toUInt16 body =
      some (.subscribeNodeSet sns' withdraw) := by
  have hread : decode (Message.subscribeNodeSet sns withdraw).type.toUInt16 body =
      ((SubscribeNodeSet.read withdraw).run body).map
        fun read => .subscribeNodeSet read.1 withdraw := by
    cases withdraw <;> rfl
  rw [hread, h]
  rfl

end

theorem decode_body {m : Message} (h : m.Fits) :
    decode m.type.toUInt16 m.body = some m.received := by
  have hbody := h.body
  cases m with
  | connect msg =>
    have hwrite : (NodeInfo.write msg.nodeInfo).length + 1 < 2 ^ 32 := by
      simpa [body] using hbody
    rw [NodeInfo.length_write msg.nodeInfo] at hwrite
    have hread : Connect.read.run ([msg.mode.value] ++ NodeInfo.write msg.nodeInfo) =
        some (msg, []) := by
      unfold Connect.read
      rw [(reads_byte _).run_bind, StateT.run_bind, NodeInfo.run_read _ (by omega)]
      rfl
    exact decode_connect hread
  | connectResponse response =>
    obtain ⟨error, info?⟩ := response
    have hread : ConnectResponse.read.run (Message.connectResponse ⟨error, info?⟩).body =
        some (⟨error, info?⟩, []) := by
      unfold ConnectResponse.read
      rw [body, (reads_u16 error.value).run_bind]
      by_cases herror : error = .noError
      · obtain ⟨info, hinfo⟩ := Option.isSome_iff_exists.mp ((h.response _ rfl).mpr herror)
        change info? = some info at hinfo
        have hlength : (Message.connectResponse ⟨error, info?⟩).body.length =
            2 + (NodeInfo.write info).length := by
          simp [body, herror, hinfo]
        rw [hlength, NodeInfo.length_write info] at hbody
        have hzero : error.value = 0 := by rw [herror]; rfl
        dsimp only
        rw [if_pos herror, if_pos hzero, hinfo, Option.map_some, Option.getD_some, StateT.run_bind,
          NodeInfo.run_read _ (by omega)]
        rfl
      · have hnone : info? = none := by
          have hnot := mt (h.response _ rfl).mp herror
          exact Option.not_isSome_iff_eq_none.mp hnot
        have hne : error.value ≠ 0 := fun hzero => herror (congrArg ProtocolError.mk hzero)
        dsimp only
        rw [if_neg herror, if_neg hne, hnone]
        rfl
    exact decode_connectResponse hread
  | nodeInfo info withdraw =>
    have hlength : (NodeInfo.write info).length < 2 ^ 32 := hbody
    rw [NodeInfo.length_write info] at hlength
    exact decode_nodeInfo withdraw (NodeInfo.run_read info (by omega))
  | subscribeInfo info withdraw isOrigin =>
    have hlength : (SubscribeInfo.write (Peering.SubscribeInfo.serialize info isOrigin)).length <
        2 ^ 32 := hbody
    rw [SubscribeInfo.length_write] at hlength
    exact decode_subscribeInfo withdraw isOrigin (SubscribeInfo.reads_read _ (by omega)).all
  | announceInfo info withdraw =>
    obtain ⟨hcount, htuples, hname⟩ := h.announce info withdraw rfl
    exact decode_announceInfo withdraw (AnnounceInfo.reads_read info (by omega) htuples hname).all
  | subscribeNodeSet sns withdraw =>
    have hnodes := h.nodes sns withdraw rfl
    cases withdraw with
    | true => exact decode_subscribeNodeSet true (SubscribeNodeSet.reads_read_withdraw sns.id).all
    | false => exact decode_subscribeNodeSet false (SubscribeNodeSet.reads_read sns (by omega)).all

end Message

theorem reads_commonHeader (type : MsgType) (size : UInt32) :
    Reads CommonHeader.read (commonHeader type size)
      { version := 1, type := type.toUInt16, dataLength := size } := by
  intro rest
  unfold commonHeader CommonHeader.read
  simp only [List.append_assoc]
  rw [(reads_byte _).run_bind, (reads_u16 _).run_bind, (reads_u32 size).run_bind]
  rfl

/-- A message that fits is written with a common header of version 1, its own type and the size of
what follows, and what follows is read as the message. -/
theorem decode_serialize (m : Message) (h : m.Fits) :
    ∃ bytes header, m.serialize = some bytes ∧
      CommonHeader.read.run bytes = some (header, m.body) ∧ header.version = 1 ∧
      header.type = m.type.toUInt16 ∧ m.sizeBytes = some header.dataLength ∧
      header.dataLength.toNat = m.body.length ∧ decode header.type m.body = some m.received := by
  obtain ⟨size, hsize, hlength⟩ := Message.sizeBytes_eq h
  exact ⟨_, _, Message.serialize_eq h hsize, reads_commonHeader m.type size m.body, rfl, rfl, hsize,
    hlength, Message.decode_body h⟩

def withdrawnAnnounce : Message :=
  .announceInfo { fullnameHash := 9, sourceNodeId := 7, nameSpace := [[1, 2], []], name := [3] } true

theorem fits_withdrawnAnnounce : withdrawnAnnounce.Fits where
  body := by decide
  response := nofun
  announce := by
    rintro info withdraw ⟨⟩
    decide
  nodes := nofun

theorem decode_serialize_withdrawnAnnounce :
    ∃ bytes header, withdrawnAnnounce.serialize = some bytes ∧
      CommonHeader.read.run bytes = some (header, withdrawnAnnounce.body) ∧ header.version = 1 ∧
      header.type = 9 ∧ header.dataLength = 27 ∧
      decode 9 withdrawnAnnounce.body = some withdrawnAnnounce.received := by
  obtain ⟨bytes, header, hbytes, hheader, hversion, htype, -, hlength, hdecode⟩ :=
    decode_serialize withdrawnAnnounce fits_withdrawnAnnounce
  have hnine : header.type = 9 := htype
  rw [hnine] at hdecode
  refine ⟨bytes, header, hbytes, hheader, hversion, hnine, ?_, hdecode⟩
  apply UInt32.toNat_inj.mp
  rw [hlength]
  decide

end Laps.Messages
