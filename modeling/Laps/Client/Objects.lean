import Laps.Client.Streams
import Laps.Lib.Bytes
import Laps.Lib.Framing
import Mathlib.Data.List.Infix

/-! The objects of a stream, however its bytes are cut into chunks. -/

namespace Laps.Client

open Std

/-- A stream as a publisher sends it: a header, then objects with the bytes of each.  The readers
take exactly these bytes, or need more of them. -/
structure SubgroupStream (m : Moqt) where
  header : StreamHeaderSubGroup
  headerBytes : List UInt8
  properties : UInt64
  objects : List (StreamSubGroupObject × List UInt8)
  header_properties : header.properties = some properties
  reads_header : ∀ rest, m.readHeader (headerBytes ++ rest) = some (header, rest)
  reads_object : ∀ o ∈ objects, ∀ rest, m.readObject properties (o.2 ++ rest) = some (o.1, rest)
  needs_more : ∀ o ∈ objects, ∀ buffer, buffer <+: o.2 → buffer.length < o.2.length →
    m.readObject properties buffer = none
  needs_object : m.readObject properties [] = none

/-! ### What one chunk does -/

section Chunk

variable {m : Moqt} {h : StreamHandler} {header : StreamHeaderSubGroup} {properties : UInt64}
  {isStart : Bool} {streamId : UInt64} {buffer : List UInt8} {next : Option UInt64}
  {forwarded : List HandlerOut}

/-- The context of a stream whose header is read. -/
def parsing (header : StreamHeaderSubGroup) (buffer : List UInt8) (next : Option UInt64) :
    StreamContext where
  buffer := buffer
  header := some header
  currentGroupId := header.groupId
  currentSubgroupId := header.subgroupId.getD 0
  nextObjectId := next

/-- An object as it is reported, when the one before it has the id before `next`. -/
def report (header : StreamHeaderSubGroup) (subgroupId next : UInt64)
    (object : StreamSubGroupObject) : HandlerOut :=
  .object
    { groupId := header.groupId, objectId := next + object.objectDelta, subgroupId
      payloadLength := object.payload.length, status := object.objectStatus
      priority := header.priority, extensions := object.extensions
      immutableExtensions := object.immutableExtensions }
    object.payload

/-- The bytes after an object that was taken, which are forwarded once more. -/
def remainder (h : StreamHandler) (isStart : Bool) (groupId subgroupId : UInt64)
    (rest : List UInt8) : List HandlerOut :=
  if rest = [] then [] else h.forwardReceivedData isStart groupId subgroupId rest

def putStream (h : StreamHandler) (streamId : UInt64) (stream : StreamContext)
    (pendingNewGroupRequestId : Option UInt64) : StreamHandler :=
  { h with streams := h.streams.insert streamId stream, pendingNewGroupRequestId }

theorem parseStream_wait (hprops : header.properties = some properties)
    (hread : m.readObject properties buffer = none) :
    h.parseStream m isStart streamId (parsing header buffer next) forwarded =
      (some (putStream h streamId (parsing header buffer next) h.pendingNewGroupRequestId),
        forwarded) := by
  simp [StreamHandler.parseStream, StreamHandler.takeObject, parsing, putStream, hprops, hread]

/-- An object without a subgroup id. -/
theorem parseStream_throw {object : StreamSubGroupObject} {rest : List UInt8}
    (hprops : header.properties = some properties) (hid : header.subgroupId = none)
    (hread : m.readObject properties buffer = some (object, rest)) :
    h.parseStream m isStart streamId (parsing header buffer next) forwarded =
      (none, forwarded) := by
  simp [StreamHandler.parseStream, StreamHandler.takeObject, parsing, hprops, hread, hid]

theorem objectId_parsing {subgroupId : UInt64} (hid : header.subgroupId = some subgroupId)
    (objectDelta : UInt64) :
    StreamHandler.objectId (parsing header buffer next) header objectDelta =
      next.getD 0 + objectDelta := by
  cases next with
  | none => simp [StreamHandler.objectId, parsing]
  | some next => simp [StreamHandler.objectId, parsing, hid]

theorem parseStream_object {object : StreamSubGroupObject} {rest : List UInt8}
    {subgroupId : UInt64} (hprops : header.properties = some properties)
    (hid : header.subgroupId = some subgroupId)
    (hread : m.readObject properties buffer = some (object, rest)) :
    h.parseStream m isStart streamId (parsing header buffer next) forwarded =
      (some (putStream h streamId
          (parsing header rest (some (next.getD 0 + object.objectDelta + 1)))
          (h.pendingAfter header.groupId)),
        forwarded ++ report header subgroupId (next.getD 0) object ::
          remainder h isStart header.groupId subgroupId rest) := by
  have htake : h.takeObject m isStart (parsing header buffer next) =
      some (parsing header rest (some (next.getD 0 + object.objectDelta + 1)),
        h.pendingAfter header.groupId, report header subgroupId (next.getD 0) object ::
          remainder h isStart header.groupId subgroupId rest) := by
    have hheader : (parsing header buffer next).header = some header := rfl
    have hbuffer : (parsing header buffer next).buffer = buffer := rfl
    simp only [StreamHandler.takeObject, hheader, hbuffer, Option.bind_eq_bind, Option.bind_some,
      hprops, hread, hid, objectId_parsing hid]
    simp [parsing, hid, report, remainder]
  rw [StreamHandler.parseStream, htake]
  rfl

theorem streamDataRecv_next (hstream : h.streams[streamId]? = some (parsing header buffer next))
    (data : List UInt8) :
    h.streamDataRecv m false streamId data =
      h.parseStream m false streamId (parsing header (buffer ++ data) next)
        (h.forwardReceivedData false header.groupId (header.subgroupId.getD 0) data) := by
  have hget : h.streams.getD streamId {} = parsing header buffer next := by
    rw [ExtTreeMap.getD_eq_getD_getElem?, hstream]
    rfl
  rw [StreamHandler.streamDataRecv, hget]
  rfl

/-- A chunk that is in the buffer, and then the chunks after it. -/
def parseChunks (m : Moqt) (streamId : UInt64) (isStart : Bool) (h : StreamHandler)
    (stream : StreamContext) (forwarded : List HandlerOut) (chunks : List (List UInt8)) :
    Option StreamHandler × List HandlerOut :=
  match h.parseStream m isStart streamId stream forwarded with
  | (none, out) => (none, out)
  | (some h, out) =>
    let (h, rest) := recvChunks m streamId false h chunks
    (h, out ++ rest)

theorem parseChunks_of_some {h' : StreamHandler} {stream : StreamContext} {out : List HandlerOut}
    (hparse : h.parseStream m isStart streamId stream forwarded = (some h', out))
    (chunks : List (List UInt8)) :
    parseChunks m streamId isStart h stream forwarded chunks =
      ((recvChunks m streamId false h' chunks).1,
        out ++ (recvChunks m streamId false h' chunks).2) := by
  rw [parseChunks, hparse]

theorem parseChunks_of_none {stream : StreamContext} {out : List HandlerOut}
    (hparse : h.parseStream m isStart streamId stream forwarded = (none, out))
    (chunks : List (List UInt8)) :
    parseChunks m streamId isStart h stream forwarded chunks = (none, out) := by
  rw [parseChunks, hparse]

theorem recvChunks_next (hstream : h.streams[streamId]? = some (parsing header buffer next))
    (data : List UInt8) (chunks : List (List UInt8)) :
    recvChunks m streamId false h (data :: chunks) =
      parseChunks m streamId false h (parsing header (buffer ++ data) next)
        (h.forwardReceivedData false header.groupId (header.subgroupId.getD 0) data) chunks := by
  rw [recvChunks, streamDataRecv_next hstream]
  rfl

@[simp] theorem putStream_streams (stream : StreamContext) (pending : Option UInt64) :
    (putStream h streamId stream pending).streams[streamId]? = some stream := by
  simp [putStream]

end Chunk

/-! ### The start of a stream -/

namespace SubgroupStream

variable {m : Moqt} (s : SubgroupStream m) {h : StreamHandler} {streamId trackAlias : UInt64}

/-- The header with the alias that it is kept with. -/
def keptHeader (h : StreamHandler) (trackAlias : UInt64) : StreamHeaderSubGroup :=
  { s.header with
    trackAlias := if h.receivedTrackAlias.getD 0 ≠ trackAlias then trackAlias
      else s.header.trackAlias }

def keptHeaderBytes (h : StreamHandler) (trackAlias : UInt64) : List UInt8 :=
  if h.receivedTrackAlias.getD 0 ≠ trackAlias then m.writeHeader (s.keptHeader h trackAlias)
  else s.headerBytes

theorem startStream_eq (htrack : h.trackAlias = some trackAlias) (first : List UInt8) :
    h.startStream m {} (s.headerBytes ++ first) =
      some (parsing (s.keptHeader h trackAlias) first none,
        h.forwardReceivedData true s.header.groupId (s.header.subgroupId.getD 0)
          (s.keptHeaderBytes h trackAlias ++ first), true) := by
  have hlength : (s.headerBytes ++ first).length - first.length = s.headerBytes.length := by
    rw [List.length_append]
    omega
  rw [StreamHandler.startStream, s.reads_header, htrack]
  simp only [hlength, List.drop_left, Option.bind_eq_bind, Option.bind_some]
  by_cases hsame : h.receivedTrackAlias.getD 0 = trackAlias
  · simp [hsame, keptHeaderBytes, keptHeader, parsing]
  · simp [hsame, keptHeaderBytes, keptHeader, parsing]

theorem recvStream_eq (htrack : h.trackAlias = some trackAlias)
    (hnew : h.streams[streamId]? = none) (first : List UInt8) (rest : List (List UInt8)) :
    recvStream m streamId h ((s.headerBytes ++ first) :: rest) =
      parseChunks m streamId true h (parsing (s.keptHeader h trackAlias) first none)
        (h.forwardReceivedData true s.header.groupId (s.header.subgroupId.getD 0)
          (s.keptHeaderBytes h trackAlias ++ first)) rest := by
  have hget : h.streams.getD streamId {} = {} := by
    rw [ExtTreeMap.getD_eq_getD_getElem?, hnew]
    rfl
  rw [recvStream, recvChunks, StreamHandler.streamDataRecv, hget, if_pos rfl,
    s.startStream_eq htrack]
  rfl

end SubgroupStream

/-! ### The objects that are reported -/

def HandlerOut.isObject : HandlerOut → Bool
  | .object .. => true
  | _ => false

/-- The calls of `ObjectReceived`. -/
def objectsOf (out : List HandlerOut) : List HandlerOut := out.filter HandlerOut.isObject

@[simp] theorem objectsOf_append (out out' : List HandlerOut) :
    objectsOf (out ++ out') = objectsOf out ++ objectsOf out' := List.filter_append ..

@[simp] theorem objectsOf_forwardReceivedData (h : StreamHandler) (isNewStream : Bool)
    (groupId subgroupId : UInt64) (data : List UInt8) :
    objectsOf (h.forwardReceivedData isNewStream groupId subgroupId data) = [] := by
  rw [StreamHandler.forwardReceivedData]
  split
  · rfl
  · split <;> rfl

@[simp] theorem objectsOf_remainder (h : StreamHandler) (isStart : Bool)
    (groupId subgroupId : UInt64) (rest : List UInt8) :
    objectsOf (remainder h isStart groupId subgroupId rest) = [] := by
  rw [remainder]
  split
  · rfl
  · exact objectsOf_forwardReceivedData ..

/-- The objects as they are to be reported: each id is one more than the id before, and the delta
of the object. -/
def reports (header : StreamHeaderSubGroup) (subgroupId : UInt64) :
    UInt64 → List StreamSubGroupObject → List HandlerOut
  | _, [] => []
  | next, object :: objects =>
    report header subgroupId next object ::
      reports header subgroupId (next + object.objectDelta + 1) objects

theorem length_reports (header : StreamHeaderSubGroup) (subgroupId next : UInt64)
    (objects : List StreamSubGroupObject) :
    (reports header subgroupId next objects).length = objects.length := by
  induction objects generalizing next with
  | nil => rfl
  | cons object objects ih => rw [reports, List.length_cons, ih, List.length_cons]

/-- An object at the front of the buffer is taken off. -/
def takeFront (m : Moqt) (properties : UInt64) (buffer : List UInt8) :
    Option (List UInt8 × List StreamSubGroupObject) :=
  match m.readObject properties buffer with
  | none => some (buffer, [])
  | some (object, rest) => some (rest, [object])

section Run

variable {m : Moqt} {header : StreamHeaderSubGroup} {properties streamId : UInt64}

/-- A chunk reports the object that it takes off the buffer. -/
theorem parseStream_reports (m : Moqt) (streamId : UInt64) (h : StreamHandler) (isStart : Bool)
    (buffer : List UInt8) (next : Option UInt64) {subgroupId : UInt64}
    {forwarded : List HandlerOut} (hprops : header.properties = some properties)
    (hid : header.subgroupId = some subgroupId)
    (hforwarded : objectsOf forwarded = []) :
    ∃ h' out rest next' given,
      h.parseStream m isStart streamId (parsing header buffer next) forwarded = (some h', out) ∧
      h'.streams[streamId]? = some (parsing header rest next') ∧
      takeFront m properties buffer = some (rest, given) ∧
      ∀ later, reports header subgroupId (next.getD 0) (given ++ later) =
        objectsOf out ++ reports header subgroupId (next'.getD 0) later := by
  cases hread : m.readObject properties buffer with
  | none =>
    refine ⟨_, _, buffer, next, [], parseStream_wait hprops hread, ?_, ?_, fun later => ?_⟩
    · simp [putStream]
    · rw [takeFront, hread]
    · rw [hforwarded]
      rfl
  | some read =>
    obtain ⟨object, rest⟩ := read
    refine ⟨_, _, rest, some (next.getD 0 + object.objectDelta + 1), [object],
      parseStream_object hprops hid hread, ?_, ?_, fun later => ?_⟩
    · simp [putStream]
    · rw [takeFront, hread]
    · have hreport : objectsOf (report header subgroupId (next.getD 0) object ::
          remainder h isStart header.groupId subgroupId rest) =
          [report header subgroupId (next.getD 0) object] := by
        show report header subgroupId (next.getD 0) object :: objectsOf _ = _
        rw [objectsOf_remainder]
      rw [objectsOf_append, hforwarded, hreport]
      rfl

/-- What is reported is what comes off the buffer. -/
theorem parseChunks_reports {subgroupId : UInt64} (hprops : header.properties = some properties)
    (hid : header.subgroupId = some subgroupId) (chunks : List (List UInt8)) :
    ∀ (isStart : Bool) (h : StreamHandler) (buffer : List UInt8) (next : Option UInt64)
      (forwarded : List HandlerOut) (acc : List StreamSubGroupObject), objectsOf forwarded = [] →
      ∃ h' out rest given,
        parseChunks m streamId isStart h (parsing header buffer next) forwarded chunks =
          (some h', out) ∧
        (buffer :: chunks).foldlM (Framing.feed (takeFront m properties)) ([], acc) =
          some (rest, acc ++ given) ∧
        objectsOf out = reports header subgroupId (next.getD 0) given := by
  induction chunks with
  | nil =>
    intro isStart h buffer next forwarded acc hforwarded
    obtain ⟨h', out, rest, next', given, hparse, -, htake, hreports⟩ :=
      parseStream_reports m streamId h isStart buffer next hprops hid hforwarded
    refine ⟨h', out, rest, given, ?_, ?_, ?_⟩
    · simp [parseChunks_of_some hparse, recvChunks]
    · simp [Framing.feed, htake]
    · have hall := hreports []
      rw [List.append_nil] at hall
      rw [hall]
      exact (List.append_nil _).symm
  | cons data chunks ih =>
    intro isStart h buffer next forwarded acc hforwarded
    obtain ⟨h', out, rest, next', given, hparse, hstream, htake, hreports⟩ :=
      parseStream_reports m streamId h isStart buffer next hprops hid hforwarded
    obtain ⟨h'', out', rest', given', hrun, hfeed, hout⟩ :=
      ih false h' (rest ++ data) next' _ (acc ++ given)
        (objectsOf_forwardReceivedData h' false header.groupId (header.subgroupId.getD 0) data)
    refine ⟨h'', out ++ out', rest', given ++ given', ?_, ?_, ?_⟩
    · rw [parseChunks_of_some hparse, recvChunks_next hstream, hrun]
    · have hstep : Framing.feed (takeFront m properties) ([], acc) buffer =
          some (rest, acc ++ given) := by
        simp [Framing.feed, htake]
      rw [List.foldlM_cons, hstep, ← List.append_assoc]
      exact hfeed
    · rw [objectsOf_append, hout, hreports]

/-- Without a subgroup id nothing is reported: the first object throws. -/
theorem parseChunks_throws (hprops : header.properties = some properties)
    (hid : header.subgroupId = none) (chunks : List (List UInt8)) :
    ∀ (isStart : Bool) (h : StreamHandler) (buffer : List UInt8) (next : Option UInt64)
      (forwarded : List HandlerOut), objectsOf forwarded = [] →
      objectsOf (parseChunks m streamId isStart h (parsing header buffer next) forwarded
        chunks).2 = [] := by
  induction chunks with
  | nil =>
    intro isStart h buffer next forwarded hforwarded
    cases hread : m.readObject properties buffer with
    | none =>
      rw [parseChunks_of_some (parseStream_wait hprops hread)]
      simpa [recvChunks] using hforwarded
    | some read =>
      rw [parseChunks_of_none (parseStream_throw hprops hid hread)]
      exact hforwarded
  | cons data chunks ih =>
    intro isStart h buffer next forwarded hforwarded
    cases hread : m.readObject properties buffer with
    | none =>
      rw [parseChunks_of_some (parseStream_wait hprops hread), objectsOf_append, hforwarded,
        recvChunks_next (putStream_streams _ _)]
      exact ih false _ _ _ _ (objectsOf_forwardReceivedData ..)
    | some read =>
      rw [parseChunks_of_none (parseStream_throw hprops hid hread)]
      exact hforwarded

/-- Empty chunks raise no exception. -/
theorem parseChunks_isSome_of_nil (hprops : header.properties = some properties)
    (hread : m.readObject properties [] = none) {chunks : List (List UInt8)}
    (hempty : ∀ c ∈ chunks, c = []) :
    ∀ (isStart : Bool) (h : StreamHandler) (next : Option UInt64) (forwarded : List HandlerOut),
      (parseChunks m streamId isStart h (parsing header [] next) forwarded chunks).1.isSome := by
  induction chunks with
  | nil =>
    intro isStart h next forwarded
    rw [parseChunks_of_some (parseStream_wait hprops hread)]
    rfl
  | cons data chunks ih =>
    intro isStart h next forwarded
    rw [parseChunks_of_some (parseStream_wait hprops hread),
      recvChunks_next (putStream_streams _ _), hempty data List.mem_cons_self]
    exact ih (fun c hc => hempty c (List.mem_cons_of_mem _ hc)) false _ _ _

end Run

namespace SubgroupStream

variable {m : Moqt} (s : SubgroupStream m)

/-- The subgroup id of the header, or the id of the first object. -/
def subgroupId : UInt64 :=
  s.header.subgroupId.getD ((s.objects.head?.map fun o => o.1.objectDelta).getD 0)

/-- All objects of the stream, as they are to be reported. -/
def reported : List HandlerOut :=
  reports s.header s.subgroupId 0 (s.objects.map Prod.fst)

theorem pulls : Framing.Pulls (takeFront m s.properties) Prod.snd Prod.fst (fun _ _ => False)
    s.objects where
  nil := by rw [takeFront, s.needs_object]
  nonempty := by
    intro o ho hnil
    have hread := s.reads_object o ho []
    rw [hnil, List.append_nil, s.needs_object] at hread
    cases hread
  whole := by
    intro o ho rest
    rw [takeFront, s.reads_object o ho]
  part := by
    intro o ho buffer hpart hlt _
    rw [takeFront, s.needs_more o ho buffer hpart hlt]
  fault := fun _ _ _ _ _ hbad => hbad.elim

theorem reports_keptHeader (h : StreamHandler) (trackAlias subgroupId next : UInt64)
    (objects : List StreamSubGroupObject) :
    reports (s.keptHeader h trackAlias) subgroupId next objects =
      reports s.header subgroupId next objects := by
  induction objects generalizing next with
  | nil => rfl
  | cons object objects ih =>
    rw [reports, reports, ih]
    rfl

/-- With a subgroup id in the header the objects come off at one a chunk. -/
theorem recvStream_eq_of_subgroupId {h : StreamHandler} {streamId trackAlias subgroupId : UInt64}
    (htrack : h.trackAlias = some trackAlias) (hnew : h.streams[streamId]? = none)
    (hid : s.header.subgroupId = some subgroupId) {first : List UInt8} {rest : List (List UInt8)}
    (hsplit : (first :: rest).flatten = s.objects.flatMap Prod.snd) :
    ∃ h' out, recvStream m streamId h ((s.headerBytes ++ first) :: rest) = (some h', out) ∧
      objectsOf out = reports s.header subgroupId 0
        ((Framing.out Prod.snd s.objects (first :: rest)).map Prod.fst) := by
  have hprops : (s.keptHeader h trackAlias).properties = some s.properties := s.header_properties
  have hid' : (s.keptHeader h trackAlias).subgroupId = some subgroupId := hid
  obtain ⟨h', out, buffer, given, hrun, hfeed, hout⟩ :=
    parseChunks_reports (m := m) hprops hid' rest true h first none _ []
      (objectsOf_forwardReceivedData h true s.header.groupId (s.header.subgroupId.getD 0)
        (s.keptHeaderBytes h trackAlias ++ first))
  refine ⟨h', out, ?_, ?_⟩
  · rw [s.recvStream_eq htrack hnew, hrun]
  · obtain ⟨hfault, -⟩ | ⟨-, buffer', hsome, -⟩ :=
      s.pulls.feeds_cases (hsplit ▸ List.prefix_refl _ :
        (first :: rest).flatten <+: s.objects.flatMap Prod.snd)
    · exact absurd (fun _ _ _ _ hat => by obtain ⟨_, _, _, hbad⟩ := hat; exact hbad) hfault
    · rw [Framing.feeds, hfeed, Option.some.injEq, Prod.mk.injEq, List.nil_append] at hsome
      rw [hout, hsome.2, s.reports_keptHeader]
      rfl

/-- Every object is reported, and no exception raised, when the header has the subgroup id and no
chunks at the end of the stream end more objects than they are. -/
theorem recvStream_objects_iff (h : StreamHandler) (streamId trackAlias : UInt64)
    (htrack : h.trackAlias = some trackAlias) (hnew : h.streams[streamId]? = none)
    (first : List UInt8) (rest : List (List UInt8))
    (hsplit : (first :: rest).flatten = s.objects.flatMap Prod.snd) :
    ((recvStream m streamId h ((s.headerBytes ++ first) :: rest)).1.isSome ∧
      objectsOf (recvStream m streamId h ((s.headerBytes ++ first) :: rest)).2 = s.reported) ↔
      (s.header.subgroupId.isSome ∨ s.objects = []) ∧
        Framing.Paced (Framing.lengths Prod.snd s.objects) (first :: rest) := by
  cases hid : s.header.subgroupId with
  | none =>
    have hprops : (s.keptHeader h trackAlias).properties = some s.properties :=
      s.header_properties
    rw [s.recvStream_eq htrack hnew, parseChunks_throws hprops hid rest _ _ _ _ _
      (objectsOf_forwardReceivedData ..)]
    constructor
    · rintro ⟨-, hnone⟩
      have hlength := congrArg List.length hnone
      rw [reported, length_reports, List.length_map, List.length_nil] at hlength
      have hnil : s.objects = [] := List.length_eq_zero_iff.mp hlength.symm
      refine ⟨.inr hnil, fun front back _ => ?_⟩
      rw [hnil]
      exact Nat.zero_le _
    · rintro ⟨hobjects, -⟩
      have hnil : s.objects = [] := hobjects.resolve_left (by simp)
      rw [hnil] at hsplit
      have hempty := List.flatten_eq_nil_iff.mp hsplit
      refine ⟨?_, ?_⟩
      · rw [hempty first List.mem_cons_self]
        exact parseChunks_isSome_of_nil hprops s.needs_object
          (fun c hc => hempty c (List.mem_cons_of_mem _ hc)) _ _ _ _
      · rw [reported, hnil]
        rfl
  | some subgroupId =>
    have hsubgroup : s.subgroupId = subgroupId := by rw [SubgroupStream.subgroupId, hid]; rfl
    have hpos : ∀ l ∈ Framing.lengths Prod.snd s.objects, 0 < l := by
      intro l hl
      obtain ⟨o, ho, rfl⟩ := List.mem_map.mp hl
      exact List.length_pos_iff.mpr (s.pulls.nonempty o ho)
    obtain ⟨h', out, hrun, hout⟩ := s.recvStream_eq_of_subgroupId htrack hnew hid hsplit
    rw [hrun, hout, reported, hsubgroup, ← Framing.pulled_eq_length_iff hpos]
    have hlength : (Framing.lengths Prod.snd s.objects).length = s.objects.length :=
      List.length_map _
    constructor
    · rintro ⟨-, hall⟩
      have hcount := congrArg List.length hall
      rw [length_reports, length_reports, List.length_map, List.length_map,
        Framing.length_out] at hcount
      exact ⟨.inl rfl, hcount.trans hlength.symm⟩
    · rintro ⟨-, hpulled⟩
      rw [Framing.out, hpulled, hlength, List.take_length]
      exact ⟨rfl, rfl⟩

end SubgroupStream

/-! ### Streams without extensions -/

section Plain

open Wire

/-- The types 0x10 (subgroup 0), 0x12 (the id of the first object) and 0x14 (with an id). -/
def readPlainHeader : Reader StreamHeaderSubGroup := do
  let type ← varint
  let trackAlias ← varint
  let groupId ← varint
  let subgroupId ←
    if type = 0x14 then some <$> varint else pure (if type = 0x12 then none else some 0)
  let priority ← byte
  pure { trackAlias := .ofNat trackAlias, groupId := .ofNat groupId
         subgroupId := subgroupId.map .ofNat, priority, properties := some (.ofNat type) }

def writePlainHeader (header : StreamHeaderSubGroup) : List UInt8 :=
  let type := header.properties.getD 0x14
  varintBytes type.toNat ++ varintBytes header.trackAlias.toNat ++
    varintBytes header.groupId.toNat ++
    (if type = 0x14 then varintBytes (header.subgroupId.getD 0).toNat else []) ++ [header.priority]

def readPlainObject : Reader StreamSubGroupObject := do
  let delta ← varint
  let length ← varint
  -- An object without a payload has a status.
  let objectStatus ← if length = 0 then varint else pure 0
  let payload ← take length
  pure { objectDelta := .ofNat delta, payload, objectStatus := .ofNat objectStatus }

def plain : Moqt where
  readHeader := readPlainHeader.run
  writeHeader := writePlainHeader
  readObject _ := readPlainObject.run

theorem reads_plainHeader :
    Reads readPlainHeader [0x14, 7, 3, 5, 128]
      { trackAlias := 7, groupId := 3, subgroupId := some 5, priority := 128
        properties := some 0x14 } := by
  have hbytes : ([0x14, 7, 3, 5, 128] : List UInt8) = varintBytes 0x14 ++ (varintBytes 7 ++
      (varintBytes 3 ++ (varintBytes 5 ++ ([128] ++ [])))) := by decide
  rw [hbytes]
  refine (reads_varint (by decide)).bind ((reads_varint (by decide)).bind
    ((reads_varint (by decide)).bind (Reads.bind ((reads_varint (by decide)).map some)
      ((reads_byte 128).bind (Reads.pure _)))))

theorem reads_plainObject (delta : ℕ) (payload : List UInt8) (hdelta : delta < 2 ^ 62)
    (hlength : payload.length < 2 ^ 62) (hpayload : payload ≠ []) :
    Reads readPlainObject (varintBytes delta ++ (varintBytes payload.length ++ payload))
      { objectDelta := .ofNat delta, payload } := by
  have hpos := List.length_pos_iff.mpr hpayload
  refine (reads_varint hdelta).bind ((reads_varint hlength).bind ?_)
  rw [if_neg (by omega)]
  have hread := (reads_take (Eq.refl payload.length)).map fun payload : List UInt8 =>
    ({ objectDelta := .ofNat delta, payload } : StreamSubGroupObject)
  exact hread

end Plain

/-- A stream of two objects. -/
def twoObjects : SubgroupStream plain where
  header :=
    { trackAlias := 7, groupId := 3, subgroupId := some 5, priority := 128
      properties := some 0x14 }
  headerBytes := [0x14, 7, 3, 5, 128]
  properties := 0x14
  objects :=
    [({ objectDelta := 0, payload := [1, 2] }, [0, 2, 1, 2]),
      ({ objectDelta := 1, payload := [9] }, [1, 1, 9])]
  header_properties := rfl
  reads_header := reads_plainHeader
  reads_object := by
    intro o ho
    simp only [List.mem_cons, List.not_mem_nil, or_false] at ho
    obtain rfl | rfl := ho
    · exact reads_plainObject 0 [1, 2] (by decide) (by decide) (by decide)
    · exact reads_plainObject 1 [9] (by decide) (by decide) (by decide)
  needs_more := by
    have hparts : ∀ o ∈ [([0, 2, 1, 2] : List UInt8), [1, 1, 9]], ∀ buffer ∈ o.inits,
        buffer.length < o.length → plain.readObject 0x14 buffer = none := by
      decide +kernel
    intro o ho buffer hpart hlt
    refine hparts o.2 ?_ buffer ((List.mem_inits _ _).mpr hpart) hlt
    simp only [List.mem_cons, List.not_mem_nil, or_false] at ho ⊢
    obtain rfl | rfl := ho
    · exact .inl rfl
    · exact .inr rfl
  needs_object := rfl

/-- The handler of a track that is subscribed to by the peer manager. -/
def peeredHandler : StreamHandler :=
  { trackAlias := some 40, receivedTrackAlias := some 7, subscribers := {0} }

/-- A chunk for the second object. -/
theorem recvStream_twoChunks :
    objectsOf (recvStream plain 8 peeredHandler
      [[0x14, 7, 3, 5, 128, 0, 2, 1], [2, 1], [1, 9]]).2 = twoObjects.reported := by
  refine ((twoObjects.recvStream_objects_iff peeredHandler 8 40 rfl rfl [0, 2, 1] [[2, 1], [1, 9]]
    rfl).mpr ⟨.inl rfl, ?_⟩).2
  exact (Framing.pulled_eq_length_iff (by decide) _).mp (by decide)

/-- Both objects in one chunk: the second one is never reported. -/
theorem recvStream_oneChunk :
    twoObjects.headerBytes ++ twoObjects.objects.flatMap Prod.snd =
        [0x14, 7, 3, 5, 128, 0, 2, 1, 2, 1, 1, 9] ∧
      objectsOf (recvStream plain 8 peeredHandler [[0x14, 7, 3, 5, 128, 0, 2, 1, 2, 1, 1, 9]]).2 =
        twoObjects.reported.take 1 ∧
      objectsOf (recvStream plain 8 peeredHandler [[0x14, 7, 3, 5, 128, 0, 2, 1, 2, 1, 1, 9]]).2 ≠
        twoObjects.reported := by
  decide +kernel

end Laps.Client
