import Laps.Client.Objects

/-! The data of a stream as it is handed to the peer manager, before it is taken apart. -/

namespace Laps.Client

open Std Peering

def HandlerOut.dataCall : HandlerOut → Option (DataType × List UInt8)
  | .clientData _ type _ _ data => some (type, data)
  | _ => none

/-- The calls of `ClientDataRecv`, with their types and data. -/
def dataCalls (out : List HandlerOut) : List (DataType × List UInt8) :=
  out.filterMap HandlerOut.dataCall

@[simp] theorem dataCalls_append (out out' : List HandlerOut) :
    dataCalls (out ++ out') = dataCalls out ++ dataCalls out' := List.filterMap_append

@[simp] theorem dataCalls_report (header : StreamHeaderSubGroup) (subgroupId next : UInt64)
    (object : StreamSubGroupObject) (out : List HandlerOut) :
    dataCalls (report header subgroupId next object :: out) = dataCalls out := rfl

def streamType (isNewStream : Bool) : DataType :=
  if isNewStream then .newStream else .existingStream

/-- The peer manager subscribes to the track. -/
structure Peered (h : StreamHandler) (trackAlias : UInt64) : Prop where
  aliased : h.trackAlias = some trackAlias
  subscribed : h.subscribers.contains 0

variable {m : Moqt} {h : StreamHandler} {trackAlias streamId : UInt64}

theorem Peered.putStream (hpeered : Peered h trackAlias) (stream : StreamContext)
    (pending : Option UInt64) : Peered (putStream h streamId stream pending) trackAlias :=
  ⟨hpeered.aliased, hpeered.subscribed⟩

theorem Peered.dataCalls_forward (hpeered : Peered h trackAlias) (isNewStream : Bool)
    (groupId subgroupId : UInt64) (data : List UInt8) :
    dataCalls (h.forwardReceivedData isNewStream groupId subgroupId data) =
      [(streamType isNewStream, data)] := by
  rw [StreamHandler.forwardReceivedData, hpeered.aliased]
  simp only [hpeered.subscribed, if_true]
  rfl

/-- The calls after the first one go on with the stream, and have these bytes. -/
def Continued (bytes : List UInt8) (calls : List (DataType × List UInt8)) : Prop :=
  (∀ call ∈ calls, call.1 ≠ .newStream) ∧ calls.flatMap Prod.snd = bytes

theorem continued_nil_iff {bytes : List UInt8} : Continued bytes [] ↔ bytes = [] := by
  simp [Continued, eq_comm]

theorem continued_cons_iff {data bytes : List UInt8} {calls : List (DataType × List UInt8)} :
    Continued (data ++ bytes) ((streamType false, data) :: calls) ↔ Continued bytes calls := by
  simp [Continued, streamType]

/-! ### With a subgroup id -/

section Explicit

variable {header : StreamHeaderSubGroup} {properties subgroupId : UInt64}

/-- A chunk is forwarded, and once more what is left after an object. -/
theorem parseStream_calls (m : Moqt) (streamId : UInt64) (hpeered : Peered h trackAlias)
    (hprops : header.properties = some properties) (hid : header.subgroupId = some subgroupId)
    (isStart : Bool) (buffer data : List UInt8) (next : Option UInt64) :
    ∃ h' out rest next', h.parseStream m isStart streamId (parsing header buffer next)
        (h.forwardReceivedData isStart header.groupId (header.subgroupId.getD 0) data) =
          (some h', out) ∧
      Peered h' trackAlias ∧ h'.streams[streamId]? = some (parsing header rest next') ∧
      ((m.readObject properties buffer = none ∧ rest = buffer ∧
          dataCalls out = [(streamType isStart, data)]) ∨
        ∃ object, m.readObject properties buffer = some (object, rest) ∧
          dataCalls out = (streamType isStart, data) ::
            if rest = [] then [] else [(streamType isStart, rest)]) := by
  cases hread : m.readObject properties buffer with
  | none =>
    exact ⟨_, _, buffer, next, parseStream_wait hprops hread, hpeered.putStream _ _,
      putStream_streams _ _, .inl ⟨rfl, rfl, hpeered.dataCalls_forward ..⟩⟩
  | some read =>
    obtain ⟨object, rest⟩ := read
    refine ⟨_, _, rest, _, parseStream_object hprops hid hread, hpeered.putStream _ _,
      putStream_streams _ _, .inr ⟨object, rfl, ?_⟩⟩
    rw [dataCalls_append, dataCalls_report, hpeered.dataCalls_forward, remainder]
    split
    · rfl
    · rw [hpeered.dataCalls_forward]
      rfl

/-- No byte of the chunks is lost. -/
theorem length_recvChunks_calls (hprops : header.properties = some properties)
    (hid : header.subgroupId = some subgroupId) (chunks : List (List UInt8)) :
    ∀ (h : StreamHandler) (buffer : List UInt8) (next : Option UInt64),
      Peered h trackAlias → h.streams[streamId]? = some (parsing header buffer next) →
      chunks.flatten.length ≤
        ((dataCalls (recvChunks m streamId false h chunks).2).flatMap Prod.snd).length := by
  induction chunks with
  | nil =>
    intro h buffer next _ _
    exact Nat.zero_le _
  | cons c chunks ih =>
    intro h buffer next hpeered hstream
    obtain ⟨h', out, rest, next', hparse, hpeered', hstream', hcalls⟩ :=
      parseStream_calls m streamId hpeered hprops hid false (buffer ++ c) c next
    have hlater := ih h' rest next' hpeered' hstream'
    have hfirst : c.length ≤ ((dataCalls out).flatMap Prod.snd).length := by
      obtain ⟨-, -, hcalls⟩ | ⟨object, -, hcalls⟩ := hcalls
      · simp [hcalls]
      · simp [hcalls]
    rw [recvChunks_next hstream, parseChunks_of_some hparse, dataCalls_append,
      List.flatMap_append, List.length_append, List.flatten_cons, List.length_append]
    omega

end Explicit

namespace SubgroupStream

variable (s : SubgroupStream m)

/-- The objects that are not taken yet, and what of them is in the buffer. -/
theorem front_cases {objects : List (StreamSubGroupObject × List UInt8)}
    (hsub : ∀ o ∈ objects, o ∈ s.objects) {buffer : List UInt8}
    (hbuffer : buffer <+: objects.flatMap Prod.snd) :
    (m.readObject s.properties buffer = none ∧
        ∀ o ∈ objects.head?, buffer.length < o.2.length) ∨
      ∃ o later rest, objects = o :: later ∧ buffer = o.2 ++ rest ∧
        m.readObject s.properties buffer = some (o.1, rest) := by
  cases objects with
  | nil =>
    rw [List.flatMap_nil, List.prefix_nil] at hbuffer
    rw [hbuffer]
    exact .inl ⟨s.needs_object, nofun⟩
  | cons o later =>
    have ho := hsub o List.mem_cons_self
    rw [List.flatMap_cons] at hbuffer
    by_cases hlt : buffer.length < o.2.length
    · have hpart := List.prefix_of_prefix_length_le hbuffer (List.prefix_append o.2 _) (by omega)
      refine .inl ⟨s.needs_more o ho buffer hpart hlt, ?_⟩
      intro o' ho'
      cases ho'
      exact hlt
    · obtain ⟨rest, rfl⟩ := List.prefix_of_prefix_length_le (List.prefix_append o.2 _) hbuffer
        (by omega)
      exact .inr ⟨o, later, rest, rfl, rfl, s.reads_object o ho rest⟩

theorem object_ne_nil {o : StreamSubGroupObject × List UInt8} (ho : o ∈ s.objects) : o.2 ≠ [] :=
  s.pulls.nonempty o ho

/-- A chunk by what it leaves of the objects. -/
theorem parseStream_front {header : StreamHeaderSubGroup} {subgroupId : UInt64}
    (hpeered : Peered h trackAlias) (hprops : header.properties = some s.properties)
    (hid : header.subgroupId = some subgroupId) (streamId : UInt64)
    {objects : List (StreamSubGroupObject × List UInt8)} (hsub : ∀ o ∈ objects, o ∈ s.objects)
    {buffer : List UInt8} (hbuffer : buffer <+: objects.flatMap Prod.snd) (isStart : Bool)
    (data : List UInt8) (next : Option UInt64) :
    ∃ h' out rest next', h.parseStream m isStart streamId (parsing header buffer next)
        (h.forwardReceivedData isStart header.groupId (header.subgroupId.getD 0) data) =
          (some h', out) ∧
      Peered h' trackAlias ∧ h'.streams[streamId]? = some (parsing header rest next') ∧
      ((rest = buffer ∧ (∀ o ∈ objects.head?, buffer.length < o.2.length) ∧
          dataCalls out = [(streamType isStart, data)]) ∨
        ∃ o others, objects = o :: others ∧ buffer = o.2 ++ rest ∧
          dataCalls out = (streamType isStart, data) ::
            if rest = [] then [] else [(streamType isStart, rest)]) := by
  obtain ⟨h', out, rest, next', hparse, hpeered', hstream, hcalls⟩ :=
    parseStream_calls m streamId hpeered hprops hid isStart buffer data next
  refine ⟨h', out, rest, next', hparse, hpeered', hstream, ?_⟩
  obtain ⟨hread, hshort⟩ | ⟨o, others, rest', hobjects, hfront, hread⟩ := s.front_cases hsub hbuffer
  · obtain ⟨-, hrest, hcalls⟩ | ⟨object, hsome, -⟩ := hcalls
    · exact .inl ⟨hrest, hshort, hcalls⟩
    · rw [hread] at hsome
      cases hsome
  · obtain ⟨hnone, -, -⟩ | ⟨object, hsome, hcalls⟩ := hcalls
    · rw [hread] at hnone
      cases hnone
    · rw [hread, Option.some.injEq, Prod.mk.injEq] at hsome
      rw [hsome.2] at hfront
      exact .inr ⟨o, others, hobjects, hfront, hcalls⟩

/-- Nothing is forwarded twice when every object ends with a chunk. -/
theorem parseChunks_continued_iff {header : StreamHeaderSubGroup} {subgroupId : UInt64}
    (hprops : header.properties = some s.properties) (hid : header.subgroupId = some subgroupId)
    (chunks : List (List UInt8)) :
    ∀ (isStart : Bool) (h : StreamHandler) (buffer data : List UInt8) (next : Option UInt64)
      (objects : List (StreamSubGroupObject × List UInt8)), Peered h trackAlias →
      (∀ o ∈ objects, o ∈ s.objects) → (buffer :: chunks).flatten = objects.flatMap Prod.snd →
      ∃ later, dataCalls (parseChunks m streamId isStart h (parsing header buffer next)
          (h.forwardReceivedData isStart header.groupId (header.subgroupId.getD 0) data)
          chunks).2 = (streamType isStart, data) :: later ∧
        (Continued chunks.flatten later ↔ Framing.Aligned Prod.snd objects (buffer :: chunks)) := by
  induction chunks with
  | nil =>
    intro isStart h buffer data next objects hpeered hsub hsplit
    rw [List.flatten_singleton] at hsplit
    have hbuffer : buffer <+: objects.flatMap Prod.snd := by rw [hsplit]
    obtain ⟨h', out, rest, next', hparse, -, -, hcases⟩ :=
      s.parseStream_front hpeered hprops hid streamId hsub hbuffer isStart data next
    rw [parseChunks_of_some hparse, recvChunks, List.append_nil, List.flatten_nil]
    obtain ⟨-, hshort, hcalls⟩ | ⟨o, others, rfl, rfl, hcalls⟩ := hcases
    · refine ⟨[], hcalls, iff_of_true (continued_nil_iff.mpr rfl) ?_⟩
      cases objects with
      | nil => exact Framing.aligned_nil _
      | cons o others =>
        have hlt := hshort o rfl
        rw [hsplit, List.flatMap_cons, List.length_append] at hlt
        omega
    · refine ⟨_, hcalls, ?_⟩
      have hpos := s.object_ne_nil (hsub o List.mem_cons_self)
      split
      · rename_i hnil
        have hothers : others = [] := by
          rw [hnil, List.append_nil, List.flatMap_cons] at hsplit
          have hempty : others.flatMap Prod.snd = [] := by simpa using hsplit
          refine List.eq_nil_iff_forall_not_mem.mpr fun o' ho' => ?_
          exact s.object_ne_nil (hsub o' (List.mem_cons_of_mem _ ho'))
            (List.flatMap_eq_nil_iff.mp hempty o' ho')
        rw [hnil, List.append_nil, Framing.aligned_cons_whole hpos, hothers]
        exact iff_of_true (continued_nil_iff.mpr rfl) (Framing.aligned_nil _)
      · rename_i hrest
        refine iff_of_false ?_ (Framing.not_aligned_cons_append hpos hrest)
        rintro ⟨-, hflat⟩
        exact hrest (by simpa using hflat)
  | cons c chunks ih =>
    intro isStart h buffer data next objects hpeered hsub hsplit
    have hbuffer : buffer <+: objects.flatMap Prod.snd := by
      rw [← hsplit]
      exact List.prefix_append _ _
    obtain ⟨h', out, rest, next', hparse, hpeered', hstream, hcases⟩ :=
      s.parseStream_front hpeered hprops hid streamId hsub hbuffer isStart data next
    rw [parseChunks_of_some hparse, dataCalls_append]
    obtain ⟨rfl, hshort, hcalls⟩ | ⟨o, others, rfl, rfl, hcalls⟩ := hcases
    · obtain ⟨later, hlater, hiff⟩ := ih false h' (rest ++ c) c next' objects hpeered' hsub
        (by rw [← hsplit]; simp)
      rw [hcalls, recvChunks_next hstream, hlater]
      refine ⟨(streamType false, c) :: later, rfl, ?_⟩
      rw [List.flatten_cons, continued_cons_iff, hiff]
      cases objects with
      | nil => exact iff_of_true (Framing.aligned_nil _) (Framing.aligned_nil _)
      | cons o others => exact (Framing.aligned_cons_part (hshort o rfl)).symm
    · have hpos := s.object_ne_nil (hsub o List.mem_cons_self)
      by_cases hnil : rest = []
      · subst hnil
        rw [List.append_nil] at hsplit
        obtain ⟨later, hlater, hiff⟩ := ih false h' c c next' others hpeered'
          (fun o' ho' => hsub o' (List.mem_cons_of_mem _ ho'))
          (by
            rw [List.flatten_cons, List.flatMap_cons] at hsplit
            exact List.append_cancel_left hsplit)
        rw [hcalls, recvChunks_next hstream, List.nil_append, hlater, if_pos rfl]
        refine ⟨_, rfl, ?_⟩
        rw [List.append_nil, Framing.aligned_cons_whole hpos, List.flatten_cons, ← hiff]
        exact continued_cons_iff
      · -- The rest of the chunk is forwarded again.
        rw [hcalls, if_neg hnil]
        refine ⟨_, rfl, iff_of_false ?_ (Framing.not_aligned_cons_append hpos hnil)⟩
        rintro ⟨-, hflat⟩
        have hbytes : (rest ++ (dataCalls (recvChunks m streamId false h' (c :: chunks)).2).flatMap
            Prod.snd).length = (c :: chunks).flatten.length := congrArg List.length hflat
        have hlater := length_recvChunks_calls (m := m) hprops hid (c :: chunks) h' rest next'
          hpeered' hstream
        have hrest := List.length_pos_iff.mpr hnil
        rw [List.length_append] at hbytes
        omega

/-! ### Without a subgroup id -/

/-- The first object ends in no chunk before the last one. -/
def FirstObjectLast (chunks : List (List UInt8)) : Prop :=
  ∀ o ∈ s.objects.head?, chunks.dropLast.flatten.length < o.2.length

/-- The chunks are forwarded up to the one that throws. -/
theorem parseChunks_continued_iff_of_none {header : StreamHeaderSubGroup}
    (hprops : header.properties = some s.properties) (hid : header.subgroupId = none)
    {chunks : List (List UInt8)} (hchunks : ∀ c ∈ chunks, c ≠ []) :
    ∀ (isStart : Bool) (h : StreamHandler) (buffer data : List UInt8) (next : Option UInt64),
      Peered h trackAlias → (buffer :: chunks).flatten = s.objects.flatMap Prod.snd →
      ∃ later, dataCalls (parseChunks m streamId isStart h (parsing header buffer next)
          (h.forwardReceivedData isStart header.groupId (header.subgroupId.getD 0) data)
          chunks).2 = (streamType isStart, data) :: later ∧
        (Continued chunks.flatten later ↔ s.FirstObjectLast (buffer :: chunks)) := by
  induction chunks with
  | nil =>
    intro isStart h buffer data next hpeered hsplit
    refine ⟨[], ?_, iff_of_true (continued_nil_iff.mpr rfl) ?_⟩
    · cases hread : m.readObject s.properties buffer with
      | none =>
        rw [parseChunks_of_some (parseStream_wait hprops hread), recvChunks, List.append_nil,
          hpeered.dataCalls_forward]
      | some read =>
        rw [parseChunks_of_none (parseStream_throw hprops hid hread), hpeered.dataCalls_forward]
    · intro o ho
      exact List.length_pos_iff.mpr (s.object_ne_nil (List.mem_of_mem_head? ho))
  | cons c chunks ih =>
    intro isStart h buffer data next hpeered hsplit
    have hbuffer : buffer <+: s.objects.flatMap Prod.snd := by
      rw [← hsplit]
      exact List.prefix_append _ _
    obtain ⟨hread, hshort⟩ | ⟨o, others, rest, hobjects, hfront, hread⟩ :=
      s.front_cases (fun _ ho => ho) hbuffer
    · obtain ⟨later, hlater, hiff⟩ := ih (fun c' hc' => hchunks c' (List.mem_cons_of_mem _ hc'))
        false (putStream h streamId (parsing header buffer next) h.pendingNewGroupRequestId)
        (buffer ++ c) c next (hpeered.putStream _ _) (by rw [← hsplit]; simp)
      refine ⟨(streamType false, c) :: later, ?_, ?_⟩
      · rw [parseChunks_of_some (parseStream_wait hprops hread), dataCalls_append,
          hpeered.dataCalls_forward, recvChunks_next (putStream_streams _ _), hlater]
        rfl
      · rw [List.flatten_cons, continued_cons_iff, hiff]
        cases chunks with
        | nil =>
          refine iff_of_true ?_ ?_
          · intro o ho
            exact List.length_pos_iff.mpr (s.object_ne_nil (List.mem_of_mem_head? ho))
          · intro o ho
            simpa using hshort o ho
        | cons c' chunks => simp [FirstObjectLast]
    · refine ⟨[], ?_, iff_of_false ?_ ?_⟩
      · rw [parseChunks_of_none (parseStream_throw hprops hid hread), hpeered.dataCalls_forward]
      · rw [continued_nil_iff]
        intro hempty
        exact hchunks c List.mem_cons_self (List.append_eq_nil_iff.mp hempty).1
      · intro hlast
        have hlt := hlast o (by rw [hobjects]; rfl)
        rw [List.dropLast_cons_of_ne_nil (List.cons_ne_nil c chunks), List.flatten_cons, hfront,
          List.length_append, List.length_append] at hlt
        omega

/-- The bytes of the stream, with the alias of its header normalized. -/
def normalizedBytes (trackAlias : UInt64) : List UInt8 :=
  (if s.header.trackAlias = trackAlias then s.headerBytes
    else m.writeHeader { s.header with trackAlias }) ++ s.objects.flatMap Prod.snd

/-- The received alias is the one of the stream: this is how a stream finds its handler. -/
theorem keptHeaderBytes_eq (hreceived : h.receivedTrackAlias = some s.header.trackAlias) :
    s.keptHeaderBytes h trackAlias =
      if s.header.trackAlias = trackAlias then s.headerBytes
      else m.writeHeader { s.header with trackAlias } := by
  rw [keptHeaderBytes, keptHeader, hreceived, Option.getD_some]
  by_cases hsame : s.header.trackAlias = trackAlias
  · rw [if_neg (not_not.mpr hsame), if_pos hsame]
  · rw [if_pos hsame, if_neg hsame, if_pos hsame]

/-- The stream is forwarded byte for byte, with one new stream, when every object ends with a
chunk, or the header has no subgroup id and the first object ends with the last chunk at the
earliest. -/
theorem recvStream_forwarded_iff (h : StreamHandler) (streamId trackAlias : UInt64)
    (hpeered : Peered h trackAlias) (hreceived : h.receivedTrackAlias = some s.header.trackAlias)
    (hnew : h.streams[streamId]? = none) (first : List UInt8) (rest : List (List UInt8))
    (hchunks : ∀ c ∈ rest, c ≠ [])
    (hsplit : (first :: rest).flatten = s.objects.flatMap Prod.snd) :
    (∃ data later,
      dataCalls (recvStream m streamId h ((s.headerBytes ++ first) :: rest)).2 =
        (.newStream, data) :: later ∧
      (∀ call ∈ later, call.1 ≠ .newStream) ∧
      data ++ later.flatMap Prod.snd = s.normalizedBytes trackAlias) ↔
      (s.header.subgroupId.isSome → Framing.Aligned Prod.snd s.objects (first :: rest)) ∧
        (s.header.subgroupId = none → s.FirstObjectLast (first :: rest)) := by
  have hprops : (s.keptHeader h trackAlias).properties = some s.properties := s.header_properties
  have hcalls : ∃ later, dataCalls (recvStream m streamId h ((s.headerBytes ++ first) :: rest)).2 =
      (.newStream, s.keptHeaderBytes h trackAlias ++ first) :: later ∧
      (Continued rest.flatten later ↔
        (s.header.subgroupId.isSome → Framing.Aligned Prod.snd s.objects (first :: rest)) ∧
          (s.header.subgroupId = none → s.FirstObjectLast (first :: rest))) := by
    rw [s.recvStream_eq hpeered.aliased hnew]
    obtain hid | ⟨subgroupId, hid⟩ := Option.eq_none_or_eq_some s.header.subgroupId
    · obtain ⟨later, hlater, hiff⟩ := s.parseChunks_continued_iff_of_none hprops hid hchunks true h
        first (s.keptHeaderBytes h trackAlias ++ first) none hpeered hsplit
      refine ⟨later, hlater, ?_⟩
      rw [hiff, hid]
      simp
    · obtain ⟨later, hlater, hiff⟩ := s.parseChunks_continued_iff hprops hid rest true h
        first (s.keptHeaderBytes h trackAlias ++ first) none s.objects hpeered (fun _ ho => ho)
        hsplit
      refine ⟨later, hlater, ?_⟩
      rw [hiff, hid]
      simp
  obtain ⟨later, hlater, hiff⟩ := hcalls
  rw [hlater, ← hiff]
  have hbytes : s.normalizedBytes trackAlias =
      s.keptHeaderBytes h trackAlias ++ first ++ rest.flatten := by
    rw [normalizedBytes, s.keptHeaderBytes_eq hreceived, ← hsplit, List.append_assoc]
    rfl
  rw [hbytes]
  constructor
  · rintro ⟨data, later', heq, hold, hflat⟩
    cases heq
    exact ⟨hold, List.append_cancel_left hflat⟩
  · rintro ⟨hold, hflat⟩
    exact ⟨_, later, rfl, hold, by rw [hflat]⟩

end SubgroupStream

theorem aligned_twoObjects :
    Framing.Aligned Prod.snd twoObjects.objects [[0, 2, 1], [2], [1, 1, 9]] := by
  refine (Framing.aligned_cons_part (by decide)).mpr ?_
  refine (Framing.aligned_cons_whole (by decide)).mpr ?_
  exact (Framing.aligned_cons_whole (by decide)).mpr (Framing.aligned_nil _)

/-- The chunks end with the objects. -/
theorem recvStream_forwarded_twoObjects : ∃ data later,
    dataCalls (recvStream plain 8 peeredHandler
      [[0x14, 7, 3, 5, 128, 0, 2, 1], [2], [1, 1, 9]]).2 = (.newStream, data) :: later ∧
      (∀ call ∈ later, call.1 ≠ .newStream) ∧
      data ++ later.flatMap Prod.snd = twoObjects.normalizedBytes 40 :=
  (twoObjects.recvStream_forwarded_iff peeredHandler 8 40 ⟨rfl, by decide⟩ rfl rfl [0, 2, 1]
    [[2], [1, 1, 9]] (by decide) rfl).mpr ⟨fun _ => aligned_twoObjects, nofun⟩

/-- A chunk with the end of an object and the start of the next: the start is forwarded twice, here
as a new stream. -/
theorem recvStream_forwardsTwice :
    twoObjects.headerBytes ++ twoObjects.objects.flatMap Prod.snd =
        [0x14, 7, 3, 5, 128, 0, 2, 1, 2, 1] ++ [1, 9] ∧
      dataCalls (recvStream plain 8 peeredHandler
        [[0x14, 7, 3, 5, 128, 0, 2, 1, 2, 1], [1, 9]]).2 =
        [(.newStream, [0x14, 40, 3, 5, 128, 0, 2, 1, 2, 1]), (.newStream, [1]),
          (.existingStream, [1, 9])] ∧
      ¬∃ data later, dataCalls (recvStream plain 8 peeredHandler
        [[0x14, 7, 3, 5, 128, 0, 2, 1, 2, 1], [1, 9]]).2 = (.newStream, data) :: later ∧
        (∀ call ∈ later, call.1 ≠ .newStream) ∧
        data ++ later.flatMap Prod.snd = twoObjects.normalizedBytes 40 := by
  have hcalls : dataCalls (recvStream plain 8 peeredHandler
      [[0x14, 7, 3, 5, 128, 0, 2, 1, 2, 1], [1, 9]]).2 =
      [(.newStream, [0x14, 40, 3, 5, 128, 0, 2, 1, 2, 1]), (.newStream, [1]),
        (.existingStream, [1, 9])] := by
    decide +kernel
  refine ⟨rfl, hcalls, ?_⟩
  rw [hcalls]
  rintro ⟨data, later, heq, hold, -⟩
  cases heq
  exact hold _ List.mem_cons_self rfl

end Laps.Client
