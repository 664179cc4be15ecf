import Laps.Lib.Bytes
import Laps.Relay.Data

/-! The header of the data between relays: what is read is what was written, after any number of
relays have put their own id of the node set in it. -/

namespace Laps.Peering

open Wire

theorem bytesOf32_eq (value : UInt32) : bytesOf32 value = netBytes 4 value.toNat := by
  have hshift : ∀ k, value.toNat >>> (k % 32) = value.toNat / 2 ^ (k % 32) := fun k =>
    Nat.shiftRight_eq_div_pow _ _
  show [UInt8.ofNat (value >>> 24).toNat, UInt8.ofNat (value >>> 16).toNat,
    UInt8.ofNat (value >>> 8).toNat, UInt8.ofNat value.toNat] = _
  simp only [UInt32.toNat_shiftRight, hshift, netBytes, hostBytes, List.reverse_cons,
    List.reverse_nil, List.nil_append, List.cons_append, Nat.div_div_eq_div_mul]
  rfl

theorem bytesOf64_eq (value : UInt64) : bytesOf64 value = netBytes 8 value.toNat := by
  have hhigh : (value >>> 32).toUInt32.toNat = value.toNat / 256 ^ 4 := by
    have hlt := UInt64.toNat_lt value
    rw [UInt64.toNat_toUInt32, UInt64.toNat_shiftRight, Nat.shiftRight_eq_div_pow]
    show value.toNat / 2 ^ 32 % 2 ^ 32 = value.toNat / 2 ^ 32
    omega
  have hlow : value.toUInt32.toNat = value.toNat % 256 ^ 4 := UInt64.toNat_toUInt32 value
  rw [bytesOf64, bytesOf32_eq, bytesOf32_eq, hhigh, hlow, netBytes_mod, ← netBytes_add]

namespace DataHeader

/-- What the fields take after the length and the type. -/
def fieldsSize (header : DataHeader) : ℕ :=
  match header.type with
  | .datagram => 4 + 8
  | .newStream => 4 + 8 + 1 + 4
  | _ => 0

/-- The length of the header once it is known. -/
def sizeBytes (header : DataHeader) : ℕ :=
  if header.headerLen ≠ 0 then header.headerLen.toNat else 2 + header.fieldsSize

/-- `Serialize`: as many bytes are reserved as `SizeBytes` says, and the length of the fields is
added through a pointer to the first byte.  `none` where the bytes have moved by then. -/
def serialize? (header : DataHeader) : Option (List UInt8) :=
  if header.fields = [] ∨ header.serialize.length ≤ header.sizeBytes then some header.serialize
  else none

/-- The fields by the type. -/
def readFields (header : DataHeader) : Reader DataHeader :=
  match header.type with
  | .datagram => do
    let snsId ← u32
    let trackFullNameHash ← u64
    pure { header with snsId, trackFullNameHash }
  | .newStream => do
    let snsId ← u32
    let trackFullNameHash ← u64
    let priority ← byte
    let ttl ← u32
    pure { header with snsId, trackFullNameHash, priority, ttl }
  | _ => pure header

/-- `Deserialize` over a header: whether there was anything to read, and the header.  `none` where
the source throws or reads past the end. -/
def deserialize (header : DataHeader) (data : List UInt8) : Option (Bool × DataHeader) :=
  match data with
  | [] => some (false, header)
  | headerLen :: rest =>
    if data.length < headerLen.toNat then none
    else do
      let (type, rest) ← byte.run rest
      let (header, _) ← ({ header with headerLen, type := .ofUInt8 type }).readFields.run rest
      pure (true, header)

/-- The two types whose header has the id of a node set. -/
def HasSnsId (header : DataHeader) : Prop := header.type = .newStream ∨ header.type = .datagram

theorem length_fields (header : DataHeader) : header.fields.length = header.fieldsSize := by
  obtain ⟨headerLen, type, snsId, hash, priority, ttl⟩ := header
  cases type <;> rfl

theorem fieldsSize_of_hasSnsId {header : DataHeader} (h : header.HasSnsId) :
    header.fieldsSize = if header.type = .newStream then 17 else 12 := by
  obtain h | h := h <;> simp [fieldsSize, h]

theorem serialize_of_hasSnsId {header : DataHeader} (h : header.HasSnsId) :
    header.serialize =
      UInt8.ofNat (2 + header.fieldsSize) :: header.type.toUInt8 :: header.fields := by
  have hne : header.type ≠ .existingStream := by
    obtain h | h := h <;> simp [h]
  rw [serialize, if_neg hne, length_fields]

theorem length_serialize {header : DataHeader} (h : header.HasSnsId) :
    header.serialize.length = 2 + header.fieldsSize := by
  rw [serialize_of_hasSnsId h, List.length_cons, List.length_cons, length_fields]
  omega

/-- A relay puts its own id in place of the one in the header, and changes nothing else. -/
theorem writeSnsId_serialize {header : DataHeader} (h : header.HasSnsId)
    (snsId : SubscribeNodeSetId) (payload : List UInt8) :
    writeSnsId snsId (header.serialize ++ payload) =
      ({ header with snsId } : DataHeader).serialize ++ payload := by
  have h' : ({ header with snsId } : DataHeader).HasSnsId := h
  rw [serialize_of_hasSnsId h, serialize_of_hasSnsId h']
  obtain h | h := h <;> simp [h, fields, fieldsSize, writeSnsId, bytesOf32]

theorem foldl_writeSnsId {header : DataHeader} (h : header.HasSnsId)
    {ids : List SubscribeNodeSetId} {last : SubscribeNodeSetId} (hlast : ids.getLast? = some last)
    (payload : List UInt8) :
    ids.foldl (fun data snsId => writeSnsId snsId data) (header.serialize ++ payload) =
      ({ header with snsId := last } : DataHeader).serialize ++ payload := by
  induction ids generalizing header with
  | nil => simp at hlast
  | cons id ids ih =>
    rw [List.foldl_cons, writeSnsId_serialize h]
    cases ids with
    | nil =>
      cases hlast
      rfl
    | cons id' ids =>
      have h' : ({ header with snsId := id } : DataHeader).HasSnsId := h
      exact ih h' hlast

/-- A header with the fields that another one has on the wire. -/
def withFields (read header : DataHeader) : DataHeader :=
  let read :=
    { read with snsId := header.snsId, trackFullNameHash := header.trackFullNameHash }
  if header.type = .newStream then { read with priority := header.priority, ttl := header.ttl }
  else read

section

variable (read header : DataHeader)

@[simp] theorem withFields_headerLen : (read.withFields header).headerLen = read.headerLen := by
  unfold withFields
  split <;> rfl

@[simp] theorem withFields_type : (read.withFields header).type = read.type := by
  unfold withFields
  split <;> rfl

@[simp] theorem withFields_snsId : (read.withFields header).snsId = header.snsId := by
  unfold withFields
  split <;> rfl

@[simp] theorem withFields_trackFullNameHash :
    (read.withFields header).trackFullNameHash = header.trackFullNameHash := by
  unfold withFields
  split <;> rfl

theorem withFields_newStream {header : DataHeader} (h : header.type = .newStream) :
    (read.withFields header).priority = header.priority ∧
      (read.withFields header).ttl = header.ttl := by
  rw [withFields, if_pos h]
  exact ⟨rfl, rfl⟩

end

theorem reads_readFields (read : DataHeader) {header : DataHeader} (h : header.HasSnsId)
    (htype : read.type = header.type) :
    Reads read.readFields header.fields (read.withFields header) := by
  intro rest
  unfold readFields fields withFields
  rw [htype]
  obtain h | h := h
  · simp only [h, bytesOf32_eq, bytesOf64_eq, List.append_assoc]
    rw [(reads_u32 _).run_bind, (reads_u64 _).run_bind, (reads_byte _).run_bind,
      (reads_u32 _).run_bind]
    rfl
  · simp only [h, bytesOf32_eq, bytesOf64_eq, List.append_assoc]
    rw [(reads_u32 _).run_bind, (reads_u64 _).run_bind]
    rfl

theorem toNat_headerLen {header : DataHeader} (h : header.HasSnsId) :
    (UInt8.ofNat (2 + header.fieldsSize)).toNat = 2 + header.fieldsSize := by
  have hsize := fieldsSize_of_hasSnsId h
  rw [UInt8.toNat_ofNat', Nat.mod_eq_of_lt]
  split at hsize <;> omega

/-- The payload starts where the header says that it ends. -/
theorem drop_headerLen {header : DataHeader} (h : header.HasSnsId) (payload : List UInt8) :
    (header.serialize ++ payload).drop (UInt8.ofNat (2 + header.fieldsSize)).toNat = payload := by
  rw [toNat_headerLen h, ← length_serialize h, List.drop_left]

theorem deserialize_serialize {header : DataHeader} (h : header.HasSnsId) (old : DataHeader)
    (payload : List UInt8) :
    deserialize old (header.serialize ++ payload) =
      some (true, withFields
        { old with headerLen := UInt8.ofNat (2 + header.fieldsSize), type := header.type }
        header) := by
  have hlength : ¬(header.serialize ++ payload).length < 2 + header.fieldsSize := by
    rw [List.length_append, length_serialize h]
    omega
  have htype : DataType.ofUInt8 header.type.toUInt8 = header.type := by
    obtain h | h := h <;> rw [h] <;> rfl
  rw [serialize_of_hasSnsId h] at hlength ⊢
  simp only [List.cons_append, deserialize] at hlength ⊢
  rw [if_neg (by rwa [toNat_headerLen h])]
  show (do
    let (header, _) ← (readFields _).run (header.fields ++ payload)
    pure (true, header)) = _
  rw [htype, reads_readFields { old with headerLen := _, type := header.type } h rfl]
  rfl

/-- The bytes after the relays on the way have written their ids. -/
def overHops (header : DataHeader) (payload : List UInt8) (ids : List SubscribeNodeSetId) :
    Option (List UInt8) :=
  header.serialize?.map fun bytes =>
    ids.foldl (fun data snsId => writeSnsId snsId data) (bytes ++ payload)

/-- The bytes are read, over any header, as the header with the last id and the payload. -/
def Survives (header : DataHeader) (payload : List UInt8) (ids : List SubscribeNodeSetId) : Prop :=
  ∃ bytes, header.overHops payload ids = some bytes ∧ ∀ old, ∃ read,
    deserialize old bytes = some (true, read) ∧ read.type = header.type ∧
      read.trackFullNameHash = header.trackFullNameHash ∧ ids.getLast? = some read.snsId ∧
      (header.type = .newStream → read.priority = header.priority ∧ read.ttl = header.ttl) ∧
      bytes.drop read.headerLen.toNat = payload

theorem length_le_sizeBytes {header : DataHeader} (h : header.HasSnsId) :
    header.serialize.length ≤ header.sizeBytes ↔ header.headerLen = 0 ∨
      (if header.type = .newStream then 19 else 14) ≤ header.headerLen.toNat := by
  rw [length_serialize h, sizeBytes]
  have hsize : 2 + header.fieldsSize = if header.type = .newStream then 19 else 14 := by
    rw [fieldsSize_of_hasSnsId h]
    split <;> rfl
  by_cases hzero : header.headerLen = 0
  · simp [hzero]
  · rw [if_pos hzero, hsize]
    simp [hzero]

/-- The header survives the relays when nothing less than its size is reserved for it. -/
theorem survives_iff (header : DataHeader) (h : header.HasSnsId) (payload : List UInt8)
    (ids : List SubscribeNodeSetId) (hids : ids ≠ []) :
    header.Survives payload ids ↔ header.headerLen = 0 ∨
      (if header.type = .newStream then 19 else 14) ≤ header.headerLen.toNat := by
  have hfields : header.fields ≠ [] := by
    intro hnil
    have hsize := fieldsSize_of_hasSnsId h
    rw [← length_fields, hnil] at hsize
    split at hsize <;> simp at hsize
  rw [← length_le_sizeBytes h]
  obtain ⟨last, hlast⟩ : ∃ last, ids.getLast? = some last :=
    ⟨_, List.getLast?_eq_some_getLast hids⟩
  constructor
  · rintro ⟨bytes, hbytes, -⟩
    by_contra hroom
    rw [overHops, serialize?, if_neg (not_or.mpr ⟨hfields, hroom⟩)] at hbytes
    cases hbytes
  · intro hroom
    have h' : ({ header with snsId := last } : DataHeader).HasSnsId := h
    have hserialize : header.serialize? = some header.serialize := if_pos (.inr hroom)
    refine ⟨_, ?_, fun old => ⟨_, deserialize_serialize h' old payload, ?_⟩⟩
    · rw [overHops, hserialize, Option.map_some, foldl_writeSnsId h hlast]
    · refine ⟨withFields_type _ _, withFields_trackFullNameHash _ _, ?_, ?_, ?_⟩
      · rw [hlast, withFields_snsId]
      · exact fun htype => withFields_newStream _ htype
      · rw [withFields_headerLen]
        exact drop_headerLen h' payload

theorem survives_twoHops :
    ({ type := .datagram, trackFullNameHash := 9 } : DataHeader).Survives [7] [1, 2] :=
  (survives_iff _ (.inr rfl) [7] [1, 2] (by decide)).mpr (.inl rfl)

/-- Five bytes are reserved for a header of nineteen. -/
theorem not_survives_reservedFive :
    ({ headerLen := 5 } : DataHeader).HasSnsId ∧
      ¬({ headerLen := 5 } : DataHeader).Survives [7] [1] := by
  refine ⟨.inl rfl, ?_⟩
  rintro ⟨bytes, hbytes, -⟩
  have hnone : ({ headerLen := 5 } : DataHeader).overHops [7] [1] = none := by decide
  rw [hnone] at hbytes
  cases hbytes

end DataHeader

end Laps.Peering
