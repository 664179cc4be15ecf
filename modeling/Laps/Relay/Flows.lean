import Laps.Relay.ReceivedData
import Laps.Relay.SubgroupStreams

/-! What a relay continues on its sessions: the streams of the other relays by one table, and the
subgroups of its own publishers by the other.  A call about one of them leaves the others alone. -/

namespace Laps.Relay

open Std Client Peering

/-- A stream of another relay, or a subgroup of a track of a publisher of this one. -/
inductive FlowKey where
  | peer (k : StreamKey)
  | own (trackFullNameHash inStreamId : UInt64)
  deriving DecidableEq

/-- The id that the session of an entry has for the node set. -/
def flowRoute (r : Relay) : FlowKey → PeerSessionId → Option SubscribeNodeSetId
  | .peer k, egress => r.route k egress
  | .own track _, egress => (r.infoBase.clientFib[(track, egress)]?).map FibEntry.outSnsId

/-- The stream of the session that continues it. -/
def flowStream (r : Relay) : FlowKey → PeerSessionId → Option UInt64
  | .peer k, egress => r.streamAt k egress
  | .own track key, egress => r.outStreamAt track egress key

theorem flowRoute_own (r : Relay) (track key : UInt64) (egress : PeerSessionId) :
    r.flowRoute (.own track key) egress =
      (r.infoBase.clientFib[(track, egress)]?).map FibEntry.outSnsId := rfl

theorem flowStream_own (r : Relay) (track key : UInt64) (egress : PeerSessionId) :
    r.flowStream (.own track key) egress = r.outStreamAt track egress key := rfl

/-- The sessions of both tables are connected. -/
structure Wires (r : Relay) : Prop where
  peers : ∀ key egress entry, r.infoBase.peerFib.get₂? key egress = some entry → egress ≠ 0 →
    ∃ session, r.lockSession entry.peerSession = some (egress, session) ∧
      session.status = .connected
  clients : ∀ (track : UInt64) (egress : PeerSessionId) (entry : FibEntry),
    r.infoBase.clientFib[(track, egress)]? = some entry → ∃ session,
      r.lockSession entry.peerSession = some (egress, session) ∧ session.status = .connected

/-- The tables but for the streams, and what else the data of a stream depend on. -/
structure TablesKept (r r' : Relay) : Prop extends TableKept r r' where
  clients : ∀ (track : UInt64) (egress : PeerSessionId),
    (r'.infoBase.clientFib[(track, egress)]?).map (fun e => (e.outSnsId, e.peerSession)) =
      (r.infoBase.clientFib[(track, egress)]?).map fun e => (e.outSnsId, e.peerSession)
  subscribes : r'.infoBase.subscribes = r.infoBase.subscribes
  nodeId : r'.nodeId = r.nodeId

namespace TablesKept

variable {r r' r'' : Relay}

theorem refl (r : Relay) : TablesKept r r := ⟨.refl r, fun _ _ => rfl, rfl, rfl⟩

theorem trans (h : TablesKept r r') (h' : TablesKept r' r'') : TablesKept r r'' :=
  ⟨h.toTableKept.trans h'.toTableKept, fun t e => (h'.clients t e).trans (h.clients t e),
    h'.subscribes.trans h.subscribes, h'.nodeId.trans h.nodeId⟩

theorem flowRoute (h : TablesKept r r') (k : FlowKey) (egress : PeerSessionId) :
    r'.flowRoute k egress = r.flowRoute k egress := by
  cases k with
  | peer k => exact h.route k egress
  | own track key =>
    have hentry := congrArg (Option.map Prod.fst) (h.clients track egress)
    rw [Option.map_map, Option.map_map] at hentry
    exact hentry

theorem target (h : TablesKept r r') (ingress : PeerSessionId) (header : DataHeader) :
    r'.Target ingress header ↔ r.Target ingress header := by
  have hsome := congrArg Option.isSome (h.entries (ingress, header.snsId) 0)
  rw [Option.isSome_map, Option.isSome_map] at hsome
  unfold Target
  rw [hsome, h.subscribes, h.nodeId]

theorem wires (h : TablesKept r r') (hwires : r.Wires) : r'.Wires := by
  refine ⟨fun key egress entry hget hzero =>
    h.wired (fun old hold => hwires.peers key egress old hold hzero) hget,
    fun track egress entry hget => ?_⟩
  have hentry := h.clients track egress
  rw [hget, Option.map_some] at hentry
  obtain ⟨old, hold, heq⟩ := Option.map_eq_some_iff.mp hentry.symm
  obtain ⟨session, hlock, hstatus⟩ := hwires.clients track egress old hold
  refine ⟨session, ?_, hstatus⟩
  rw [h.lock, ← (Prod.mk.inj heq).2, hlock]

end TablesKept

/-! ### Calls -/

/-- What is done to a stream or a subgroup. -/
inductive FlowCall where
  | start (createStream : CreateStream) (header : DataHeader) (payload : List UInt8)
  | more (data : List UInt8)
  | close (reset : Bool)

namespace FlowCall

/-- The bytes for a session that has this id for the node set. -/
def bytes (snsId : SubscribeNodeSetId) : FlowCall → List (List UInt8)
  | start _ header payload => [({ header with snsId } : DataHeader).serialize ++ payload]
  | more data => [data]
  | close _ => []

def resets : FlowCall → List Bool
  | close reset => [reset]
  | _ => []

/-- The stream to a session that the call is about. -/
def target (c : FlowCall) (r : Relay) (k : FlowKey) (egress : PeerSessionId) : Option UInt64 :=
  match c with
  | start createStream _ _ => (r.flowRoute k egress).map (createStream egress)
  | _ => r.flowStream k egress

/-- The stream to the session after the call. -/
def after (c : FlowCall) (r : Relay) (k : FlowKey) (egress : PeerSessionId) : Option UInt64 :=
  match c with
  | close _ => none
  | _ => c.target r k egress

end FlowCall

/-- What a call does to the streams of the sessions. -/
structure FlowStep (r : Relay) (k : FlowKey) (c : FlowCall) (r' : Relay) (out : List StreamOut) :
    Prop where
  kept : TablesKept r r'
  streams : ∀ k' egress, r'.flowStream k' egress =
    if k' = k then c.after r k egress else r.flowStream k' egress
  sent : ∀ egress streamId, out.filterMap (StreamOut.dataOn egress streamId) =
    if c.target r k egress = some streamId then c.bytes ((r.flowRoute k egress).getD 0) else []
  closed : ∀ egress streamId, out.filterMap (StreamOut.closeOn egress streamId) =
    if c.target r k egress = some streamId then c.resets else []

/-! ### Streams of the other relays -/

section Peer

variable {r : Relay}

/-- A call about a stream of another relay that leaves the client table alone. -/
theorem StreamStep.flowStep {c : StreamCall} {c' : FlowCall} {r' : Relay} {out : List StreamOut}
    (h : StreamStep r c r' out) (hkept : TablesKept r r')
    (hown : ∀ track egress key, r'.outStreamAt track egress key = r.outStreamAt track egress key)
    (hbytes : ∀ snsId, c'.bytes snsId = c.dataFor snsId) (hresets : c'.resets = c.resets)
    (htarget : ∀ egress, c'.target r (.peer c.key) egress = c.target r egress)
    (hafter : ∀ egress, c'.after r (.peer c.key) egress =
      if c.isClose then none else c.target r egress) :
    FlowStep r (.peer c.key) c' r' out := by
  refine ⟨hkept, ?_, ?_, ?_⟩
  · intro k' egress
    cases k' with
    | peer k' =>
      rw [flowStream, h.streams, hafter]
      simp only [FlowKey.peer.injEq]
      rfl
    | own track key =>
      rw [if_neg (by simp)]
      exact hown track egress key
  · intro egress streamId
    rw [h.sent, htarget, hbytes]
    rfl
  · intro egress streamId
    rw [h.closed, htarget, hresets]

/-- Nothing else changes with the table of the other relays' streams. -/
theorem TableKept.tablesKept {f} (h : TableKept r (r.setPeerFib f)) :
    TablesKept r (r.setPeerFib f) :=
  ⟨h, fun _ _ => rfl, rfl, rfl⟩

theorem Wires.streaming (h : r.Wires)
    (hrouted : ∀ k egress, r.flowStream k egress ≠ none → r.flowRoute k egress ≠ none) :
    r.Streaming :=
  ⟨h.peers, fun k egress => hrouted (.peer k) egress⟩

/-- A header that has been read has its length. -/
theorem deserialize_newStream {header : DataHeader} (htype : header.type = .newStream)
    (payload : List UInt8) :
    DataHeader.deserialize {} (header.serialize ++ payload) =
      some (true, { header with headerLen := 19 }) := by
  rw [DataHeader.deserialize_serialize (.inl htype), DataHeader.fieldsSize_of_hasSnsId (.inl htype),
    if_pos htype, DataHeader.withFields, if_pos htype]
  rfl

/-- No stream is made for data that continues one. -/
theorem forwardPeerData_congr (createStream createStream' : CreateStream) (ingress : PeerSessionId)
    {chunk : PeerChunk} (h : chunk.isNewStream = false) :
    r.forwardPeerData createStream ingress chunk = r.forwardPeerData createStream' ingress chunk := by
  have hentry : r.forwardEntry createStream ingress chunk =
      r.forwardEntry createStream' ingress chunk := by
    funext data egress entry
    unfold forwardEntry
    rw [h]
    rfl
  have hloop : ∀ entries row data, r.forwardLoop createStream ingress chunk entries row data =
      r.forwardLoop createStream' ingress chunk entries row data := by
    intro entries
    induction entries with
    | nil => intro row data; rfl
    | cons e entries ih =>
      intro row data
      simp only [forwardLoop, hentry, ih]
  unfold forwardPeerData
  simp only [hloop]

/-- The clients take a piece of a stream without an exception, and only their handlers change. -/
def ClientRelay.Absorbs (m : Moqt) (n : ClientRelay) (env : HandlerEnv) (ingress : PeerSessionId)
    (streamId : UInt64) (header : DataHeader) (isNewStream : Bool) (data : List UInt8) : Prop :=
  ∃ handlers, n.clientData m env ingress streamId header isNewStream data =
    (some { n with handlers }, [])

theorem map_streamOut_forwarded (out : List Forwarded) :
    (out.map PeerOut.forwarded).map PeerOut.streamOut = out.map .forwarded := by
  rw [List.map_map]
  rfl

section Data

variable {n : ClientRelay} {m : Moqt} {env : HandlerEnv}

/-- The first data of a stream, with its header. -/
theorem flowStep_start (hstreaming : n.relay.Streaming) {header : DataHeader}
    (htype : header.type = .newStream) {ingress : PeerSessionId} {streamId : UInt64}
    (hnew : ∀ egress, n.relay.flowStream (.peer ⟨ingress, header.snsId, streamId⟩) egress = none)
    (createStream : CreateStream) {payload : List UInt8}
    (habsorbs :
      n.Absorbs m env ingress streamId { header with headerLen := 19 } true payload) :
    ∃ n' out, n.processReceivedData m env createStream ingress streamId none
        (header.serialize ++ payload) =
          (some (true, n', some { header with headerLen := 19 }), out) ∧
      FlowStep n.relay (.peer ⟨ingress, header.snsId, streamId⟩)
        (.start createStream { header with headerLen := 19 } payload) n'.relay
        (out.map PeerOut.streamOut) ∧
      clientBytes (forwardedOf out) = if n.relay.Target ingress header then payload else [] := by
  let read : DataHeader := { header with headerLen := 19 }
  have hread : read.type = .newStream := htype
  have hlength : read.serialize.length = 19 := length_newStream hread
  let chunk : PeerChunk :=
    { isNewStream := true, streamId, header := read, data := read.serialize ++ payload
      dataOffset := 19, useReliable := true }
  have hdrop : chunk.data.drop chunk.dataOffset = payload := by
    show (read.serialize ++ payload).drop 19 = payload
    rw [← hlength, List.drop_left]
  obtain ⟨f, hforward, hkept, -⟩ := forwardPeerData_streams createStream chunk
    (fun row hrow => hstreaming.row _ row hrow) rfl
    (fun _ => by show 6 ≤ (read.serialize ++ payload).length; rw [List.length_append]; omega) rfl
  obtain ⟨r', out, hcall, hstep⟩ : ∃ r' out,
      n.relay.streamCall (.start createStream ingress streamId read payload) = some (r', out) ∧
        StreamStep n.relay (.start createStream ingress streamId read payload) r' out :=
    streamCall_start hstreaming hread hnew
  rw [streamCall, hlength, hforward, Option.map_some, Option.some.injEq] at hcall
  obtain ⟨rfl, rfl⟩ := Prod.mk.inj hcall
  obtain ⟨handlers, htaken⟩ := habsorbs
  rw [← hdrop] at htaken
  have hforwarded := ClientRelay.forwardPeerData_of_taken rfl hforward htaken
  have hfirst : ∃ tail, header.serialize ++ payload = 19 :: tail := by
    obtain ⟨tail, htail⟩ := serialize_eq_cons htype
    exact ⟨tail ++ payload, by rw [htail, List.cons_append]⟩
  have hwhole : 19 ≤ (header.serialize ++ payload).length := by
    rw [List.length_append, length_newStream htype]
    omega
  have hprocess : n.processReceivedData m env createStream ingress streamId none
      (header.serialize ++ payload) = _ :=
    processReceivedData_start hwhole hfirst (deserialize_newStream htype payload)
  refine ⟨({ n with handlers } : ClientRelay).setPeerFib f,
    (egressOuts createStream ingress chunk n.relay).map .forwarded, ?_, ?_, ?_⟩
  · exact hprocess.trans (congrArg (fun made : Option ClientRelay × List PeerOut =>
      (made.1.map fun n => (true, n, some read), made.2)) hforwarded)
  · rw [map_streamOut_forwarded]
    exact hstep.flowStep hkept.tablesKept (fun _ _ _ => rfl) (fun _ => rfl) rfl (fun _ => rfl)
      fun _ => rfl
  · rw [forwardedOf_map, clientBytes_egressOuts, hdrop]
    rfl

/-- More data of a stream. -/
theorem flowStep_more (hstreaming : n.relay.Streaming) (createStream : CreateStream)
    {ingress : PeerSessionId} {streamId : UInt64} {header : DataHeader} {data : List UInt8}
    (habsorbs : n.Absorbs m env ingress streamId header false data) :
    ∃ n' out, n.processReceivedData m env createStream ingress streamId (some header) data =
        (some (true, n', some header), out) ∧
      FlowStep n.relay (.peer ⟨ingress, header.snsId, streamId⟩) (.more data) n'.relay
        (out.map PeerOut.streamOut) ∧
      clientBytes (forwardedOf out) = if n.relay.Target ingress header then data else [] := by
  let chunk : PeerChunk :=
    { isNewStream := false, streamId, header, data, dataOffset := 0, useReliable := true }
  obtain ⟨f, hforward, hkept, -⟩ := forwardPeerData_streams (fun _ _ => 0) chunk
    (fun row hrow => hstreaming.row _ row hrow) rfl nofun rfl
  obtain ⟨r', out, hcall, hstep⟩ := streamCall_more hstreaming streamId header data
  rw [streamCall, hforward, Option.map_some, Option.some.injEq] at hcall
  obtain ⟨rfl, rfl⟩ := Prod.mk.inj hcall
  obtain ⟨handlers, htaken⟩ := habsorbs
  have hforwarded : n.forwardPeerData m env createStream ingress chunk = _ :=
    ClientRelay.forwardPeerData_of_taken rfl
      ((forwardPeerData_congr createStream _ _ rfl).trans hforward) htaken
  refine ⟨_, _, congrArg (fun made : Option ClientRelay × List PeerOut =>
    (made.1.map fun n => (true, n, some header), made.2)) hforwarded, ?_, ?_⟩
  · rw [map_streamOut_forwarded]
    exact hstep.flowStep hkept.tablesKept (fun _ _ _ => rfl) (fun _ => rfl) rfl (fun _ => rfl)
      fun _ => rfl
  · rw [forwardedOf_map, clientBytes_egressOuts]
    rfl

end Data

/-- The closes that the clients are told of. -/
def clientCloses (out : List StreamClose) : List Bool :=
  out.filterMap fun
    | .clients _ _ reset => some reset
    | .session .. => none

theorem sendsOn_eq_false {ingress : PeerSessionId} {streamId : UInt64}
    (hfree : ∀ track key, r.outStreamAt track ingress key ≠ some streamId) (track : UInt64) :
    r.sendsOn track ingress streamId = false := by
  rw [Bool.eq_false_iff]
  intro hsends
  obtain ⟨key, hkey⟩ := sendsOn_iff.mp hsends
  exact hfree track key hkey

/-- The close of a stream whose id none of the publishers' streams to the session has. -/
theorem flowStep_closeStream (hstreaming : r.Streaming) {ingress : PeerSessionId}
    {streamId : UInt64}
    (hfree : ∀ track key, r.outStreamAt track ingress key ≠ some streamId) (header : DataHeader)
    (reset : Bool) :
    ∃ r' out, r.closeStream ingress header.snsId streamId header.trackFullNameHash reset =
        (r', out) ∧
      FlowStep r (.peer ⟨ingress, header.snsId, streamId⟩) (.close reset) r' (out.map .closed) ∧
      clientCloses out = if r.ForClients ingress header.snsId then [reset] else [] := by
  obtain ⟨r', out, hcall, hstep⟩ := streamCall_close hstreaming header.snsId streamId
    header.trackFullNameHash reset
  rw [streamCall, Option.some.injEq] at hcall
  obtain ⟨rfl, rfl⟩ := Prod.mk.inj hcall
  have hclient : ∀ key entry, r.infoBase.clientFib[key]? = some entry →
      r.closeClientEntry ingress streamId reset key entry = (entry, []) := by
    rintro ⟨track, egress⟩ entry hget
    refine if_neg ?_
    rintro ⟨hegress, -, hany⟩
    have hsends := sendsOn_eq_false hfree track
    obtain rfl : egress = ingress := hegress
    rw [sendsOn, hget, Option.any_some, hany] at hsends
    cases hsends
  have hget : ∀ track egress, (r.closeStream ingress header.snsId streamId
      header.trackFullNameHash reset).1.infoBase.clientFib[((track, egress) :
        UInt64 × PeerSessionId)]? = r.infoBase.clientFib[(track, egress)]? := by
    intro track egress
    refine (ExtTreeMap.getElem?_map ..).trans ?_
    cases hentry : r.infoBase.clientFib[(track, egress)]? with
    | none => rfl
    | some entry => rw [Option.map_some, hclient _ entry hentry]
  refine ⟨_, _, rfl, hstep.flowStep ⟨hstep.kept, fun track egress => by rw [hget], rfl, rfl⟩
    (fun track egress key => by rw [outStreamAt, hget]; rfl) (fun _ => rfl) rfl (fun _ => rfl)
      fun _ => rfl, ?_⟩
  have hown : (r.infoBase.clientFib.toList.flatMap fun e =>
      (r.closeClientEntry ingress streamId reset e.1 e.2).2) = [] :=
    List.flatMap_eq_nil_iff.mpr fun e he => by
      rw [hclient e.1 e.2 (ExtTreeMap.mem_toList_iff_getElem?_eq_some.mp he)]
  unfold clientCloses
  rw [hown, List.append_nil, List.filterMap_flatMap, flatMap_row 0]
  · by_cases hself : r.ForClients ingress header.snsId
    · obtain ⟨entry, hentry⟩ := Option.isSome_iff_exists.mp hself
      rw [if_pos hself, hentry]
      rfl
    · have hnone := Option.not_isSome_iff_eq_none.mp hself
      rw [if_neg hself, hnone]
      rfl
  · intro e hne
    unfold closeEntry
    rw [if_neg hne]
    split <;> rfl

/-- The same with the handlers of the clients, when that of the track ends nothing that has
streams. -/
theorem flowStep_close {n : ClientRelay} (hstreaming : n.relay.Streaming)
    {ingress : PeerSessionId} {streamId : UInt64}
    (hfree : ∀ track key, n.relay.outStreamAt track ingress key ≠ some streamId)
    {header : DataHeader}
    (hidle : n.relay.ForClients ingress header.snsId → n.Idle header.trackFullNameHash streamId)
    (reset : Bool) :
    ∃ n' out, n.closeStream ingress header.snsId streamId header.trackFullNameHash reset =
        (n', out) ∧
      FlowStep n.relay (.peer ⟨ingress, header.snsId, streamId⟩) (.close reset) n'.relay
        (out.map .closed) ∧
      clientCloses out = if n.relay.ForClients ingress header.snsId then [reset] else [] := by
  obtain ⟨hrelay, hout⟩ := ClientRelay.closeStream_of_free hidle
    (fun track => sendsOn_eq_false hfree track) reset
  obtain ⟨r', out, hclose, hstep⟩ := flowStep_closeStream hstreaming hfree header reset
  rw [hclose] at hrelay hout
  refine ⟨(n.closeStream ingress header.snsId streamId header.trackFullNameHash reset).1,
    (n.closeStream ingress header.snsId streamId header.trackFullNameHash reset).2, rfl, ?_⟩
  rw [hrelay, hout]
  exact hstep

end Peer

/-! ### Subgroups of the publishers -/

/-- The header that the data of a publisher get. -/
def Chunk.header (chunk : Chunk) : DataHeader :=
  { type := chunk.type, trackFullNameHash := chunk.trackFullNameHash, priority := chunk.priority
    ttl := chunk.ttl }

theorem Chunk.sendData_start {chunk : Chunk} (htype : chunk.type = .newStream)
    (snsId : SubscribeNodeSetId) :
    chunk.sendData snsId = ({ chunk.header with snsId } : DataHeader).serialize ++ chunk.data := by
  rw [← DataHeader.writeSnsId_serialize (.inl htype)]
  simp [sendData, htype, header]

theorem Chunk.sendData_more {chunk : Chunk} (htype : chunk.type = .existingStream)
    (snsId : SubscribeNodeSetId) : chunk.sendData snsId = chunk.data := by
  simp [sendData, htype, DataHeader.serialize]

section Own

variable {r : Relay} {createStream : CreateStream} {chunk : Chunk}

/-- The stream that an entry of the client table has for the data. -/
def egressOwn (createStream : CreateStream) (chunk : Chunk) (egress : PeerSessionId)
    (entry : FibEntry) : Option UInt64 :=
  entry.streams[chunk.inStreamId]?.or
    (if chunk.type = .newStream then some (createStream egress entry.outSnsId) else none)

/-- Each entry that has a stream for the data sends them on it. -/
theorem clientDataLoop_sent (hreliable : chunk.useReliable = true)
    (entries : List ((UInt64 × PeerSessionId) × FibEntry))
    (hwired : ∀ e ∈ entries, ∃ session,
      r.lockSession e.2.peerSession = some (e.1.2, session) ∧ session.status = .connected)
    (hstreams : ∀ e ∈ entries, (egressOwn createStream chunk e.1.2 e.2).isSome = true)
    (fib : ExtTreeMap (UInt64 × PeerSessionId) FibEntry compare) :
    (r.clientDataLoop createStream chunk entries fib).2 = entries.flatMap fun e =>
      (egressOwn createStream chunk e.1.2 e.2).toList.map (chunk.sent e.1.2 e.2) := by
  induction entries generalizing fib with
  | nil => rfl
  | cons e entries ih =>
    obtain ⟨key, entry⟩ := e
    obtain ⟨session, hlock, hstatus⟩ := hwired _ List.mem_cons_self
    have hsome := hstreams _ List.mem_cons_self
    have hsend : ∀ sent, session.sendData sent = [sent] := fun sent => by
      rw [PeerSession.sendData, if_neg (by simp [hstatus])]
    have hentry : ∃ entry', r.clientDataEntry createStream chunk entry =
        some (entry', (egressOwn createStream chunk key.2 entry).toList.map
          (chunk.sent key.2 entry)) := by
      unfold clientDataEntry
      unfold egressOwn at hsome ⊢
      rw [hlock]
      cases hstream : entry.streams[chunk.inStreamId]? with
      | some streamId => exact ⟨entry, by simp [hreliable, hsend]⟩
      | none =>
        by_cases hnew : chunk.type = .newStream
        · simp [hreliable, hnew, hsend]
        · simp [hstream, hnew] at hsome
    obtain ⟨entry', hentry⟩ := hentry
    rw [clientDataLoop, hentry, List.flatMap_cons]
    dsimp only
    rw [ih (fun e he => hwired e (List.mem_cons_of_mem _ he))
      fun e he => hstreams e (List.mem_cons_of_mem _ he)]

theorem tablesKept_clientDataRecv (r : Relay) (createStream : CreateStream) (chunk : Chunk) :
    TablesKept r (r.clientDataRecv createStream chunk).1 := by
  refine ⟨⟨fun _ => rfl, fun _ _ => rfl⟩, fun track egress => ?_, rfl, rfl⟩
  rw [getElem?_clientDataRecv, Option.map_map]
  congr 1
  funext entry
  simp only [Function.comp_apply]
  split
  · rw [(entryAfter_spec entry 0).1, (entryAfter_spec entry 0).2.1]
  · rfl

/-- The entries of a track, in terms of their routes and streams. -/
theorem Wires.own (hwires : r.Wires) (track : UInt64) (egress : PeerSessionId) (key : UInt64) :
    r.egressAt track egress = (r.flowRoute (.own track key) egress).map fun snsId =>
      (egress, snsId) := by
  unfold egressAt
  rw [flowRoute_own]
  cases hget : r.infoBase.clientFib[(track, egress)]? with
  | none => rfl
  | some entry =>
    obtain ⟨session, hlock, -⟩ := hwires.clients track egress entry hget
    rw [Option.bind_some, hlock]
    rfl

/-- What the data of a publisher put on a stream of a session. -/
theorem dataOn_clientDataRecv (hwires : r.Wires) (hreliable : chunk.useReliable = true)
    (hstreams : ∀ egress entry,
      r.infoBase.clientFib[((chunk.trackFullNameHash, egress) : UInt64 × PeerSessionId)]? =
        some entry → (egressOwn createStream chunk egress entry).isSome = true)
    (egress : PeerSessionId) (streamId : UInt64) :
    (((r.clientDataRecv createStream chunk).2.map fun sent =>
        StreamOut.forwarded (.session sent)).filterMap (StreamOut.dataOn egress streamId)) =
      (r.infoBase.clientFib[((chunk.trackFullNameHash, egress) :
          UInt64 × PeerSessionId)]?).toList.flatMap fun entry =>
        if egressOwn createStream chunk egress entry = some streamId
        then [chunk.sendData entry.outSnsId] else [] := by
  have hsent : (r.clientDataRecv createStream chunk).2 = _ := clientDataLoop_sent hreliable
    (r.infoBase.clientFib.withFst chunk.trackFullNameHash)
    (fun e he => by
      obtain ⟨hget, -⟩ := ExtTreeMap.mem_withFst.mp he
      exact hwires.clients e.1.1 e.1.2 e.2 hget)
    (fun e he => by
      obtain ⟨hget, htrack⟩ := ExtTreeMap.mem_withFst.mp he
      refine hstreams e.1.2 e.2 ?_
      rw [← htrack]
      exact hget) r.infoBase.clientFib
  rw [hsent, List.map_flatMap, List.filterMap_flatMap, ExtTreeMap.flatMap_withFst_eq _ _ egress]
  · congr 1
    funext entry
    cases egressOwn createStream chunk egress entry with
    | none => rfl
    | some streamId' =>
      by_cases hid : streamId' = streamId <;> simp [StreamOut.dataOn, Chunk.sent, hid]
  · intro e hne
    cases egressOwn createStream chunk e.1.2 e.2 with
    | none => rfl
    | some streamId' => simp [StreamOut.dataOn, Chunk.sent, hne]

theorem outStreamAt_eq_none {track key : UInt64} {egress : PeerSessionId}
    (h : r.flowRoute (.own track key) egress = none) :
    r.flowStream (.own track key) egress = none := by
  rw [flowRoute_own, Option.map_eq_none_iff] at h
  show r.outStreamAt track egress key = none
  rw [outStreamAt, h, Option.bind_none]

/-- The first data of a subgroup. -/
theorem flowStep_clientDataRecv_start (hwires : r.Wires) (htype : chunk.type = .newStream)
    (hnew : ∀ egress,
      r.flowStream (.own chunk.trackFullNameHash chunk.inStreamId) egress = none) :
    FlowStep r (.own chunk.trackFullNameHash chunk.inStreamId)
      (.start createStream chunk.header chunk.data) (r.clientDataRecv createStream chunk).1
      ((r.clientDataRecv createStream chunk).2.map fun sent => .forwarded (.session sent)) := by
  have hown : ∀ (egress : PeerSessionId) (entry : FibEntry),
      r.infoBase.clientFib[(chunk.trackFullNameHash, egress)]? = some entry →
      egressOwn createStream chunk egress entry = some (createStream egress entry.outSnsId) := by
    intro egress entry hget
    have hnone : r.outStreamAt chunk.trackFullNameHash egress chunk.inStreamId = none := hnew egress
    rw [outStreamAt, hget, Option.bind_some] at hnone
    rw [egressOwn, hnone, Option.none_or, if_pos htype]
  refine ⟨tablesKept_clientDataRecv .., ?_, ?_, ?_⟩
  · intro k' egress
    cases k' with
    | peer k' =>
      rw [if_neg (by simp)]
      rfl
    | own track key =>
      show outStreamAt _ track egress key = _
      rw [outStreamAt_clientDataRecv, newStream, hwires.own _ _ key, Option.map_map]
      simp only [FlowKey.own.injEq]
      by_cases hkey : track = chunk.trackFullNameHash ∧ key = chunk.inStreamId
      · obtain ⟨rfl, rfl⟩ := hkey
        have hnone : r.outStreamAt chunk.trackFullNameHash egress chunk.inStreamId = none :=
          hnew egress
        rw [if_pos ⟨rfl, htype, rfl⟩, if_pos ⟨rfl, rfl⟩, hnone, Option.none_or]
        rfl
      · rw [if_neg fun h => hkey ⟨h.1.symm, h.2.2⟩, if_neg hkey]
        rfl
  · intro egress streamId
    rw [dataOn_clientDataRecv hwires (by simp [Chunk.useReliable, htype])
      fun egress entry hget => by rw [hown egress entry hget]; rfl]
    simp only [FlowCall.target, FlowCall.bytes, flowRoute_own]
    obtain hget | ⟨entry, hget⟩ := Option.eq_none_or_eq_some
      r.infoBase.clientFib[(chunk.trackFullNameHash, egress)]?
    · simp [hget]
    · simp [hget, hown egress entry hget, Chunk.sendData_start htype]
  · intro egress streamId
    rw [List.filterMap_map]
    simp [FlowCall.resets, StreamOut.closeOn, Function.comp_def]

/-- More data of a subgroup that has its streams. -/
theorem flowStep_clientDataRecv_more (hwires : r.Wires) (htype : chunk.type = .existingStream)
    (hstreams : ∀ egress,
      (r.flowRoute (.own chunk.trackFullNameHash chunk.inStreamId) egress).isSome = true →
      (r.flowStream (.own chunk.trackFullNameHash chunk.inStreamId) egress).isSome = true) :
    FlowStep r (.own chunk.trackFullNameHash chunk.inStreamId) (.more chunk.data)
      (r.clientDataRecv createStream chunk).1
      ((r.clientDataRecv createStream chunk).2.map fun sent => .forwarded (.session sent)) := by
  have hown : ∀ (egress : PeerSessionId) (entry : FibEntry),
      r.infoBase.clientFib[(chunk.trackFullNameHash, egress)]? = some entry →
      egressOwn createStream chunk egress entry = entry.streams[chunk.inStreamId]? ∧
        (entry.streams[chunk.inStreamId]?).isSome = true := by
    intro egress entry hget
    have hsome : (r.outStreamAt chunk.trackFullNameHash egress chunk.inStreamId).isSome = true :=
      hstreams egress (by rw [flowRoute_own, hget]; rfl)
    rw [outStreamAt, hget, Option.bind_some] at hsome
    obtain ⟨streamId, hstream⟩ := Option.isSome_iff_exists.mp hsome
    rw [egressOwn, hstream, Option.some_or]
    exact ⟨rfl, rfl⟩
  refine ⟨tablesKept_clientDataRecv .., ?_, ?_, ?_⟩
  · intro k' egress
    cases k' with
    | peer k' =>
      rw [if_neg (by simp)]
      rfl
    | own track key =>
      show outStreamAt _ track egress key = _
      rw [outStreamAt_clientDataRecv, if_neg (by simp [htype])]
      split
      · rename_i hkey
        rw [← hkey]
        rfl
      · rfl
  · intro egress streamId
    rw [dataOn_clientDataRecv hwires (by simp [Chunk.useReliable, htype])
      fun egress entry hget => by rw [(hown egress entry hget).1]; exact (hown egress entry hget).2]
    simp only [FlowCall.target, FlowCall.bytes, flowStream_own, outStreamAt]
    obtain hget | ⟨entry, hget⟩ := Option.eq_none_or_eq_some
      r.infoBase.clientFib[(chunk.trackFullNameHash, egress)]?
    · simp [hget]
    · simp [hget, (hown egress entry hget).1, Chunk.sendData_more htype]
  · intro egress streamId
    rw [List.filterMap_map]
    simp [FlowCall.resets, StreamOut.closeOn, Function.comp_def]

/-- The end of a subgroup. -/
theorem flowStep_endSubgroup (hwires : r.Wires) (track groupId subgroupId : UInt64)
    (reset : Bool) :
    FlowStep r (.own track (inStreamId groupId subgroupId)) (.close reset)
      (r.endSubgroup track groupId subgroupId)
      ((r.endSubgroupCloses track groupId subgroupId reset).map .closed) := by
  refine ⟨⟨⟨fun _ => rfl, fun _ _ => rfl⟩, fun track' egress => ?_, rfl, rfl⟩, ?_, ?_, ?_⟩
  · rw [getElem?_endSubgroup, Option.map_map]
    congr 1
    funext entry
    simp only [Function.comp_apply]
    split <;> rfl
  · intro k' egress
    cases k' with
    | peer k' =>
      rw [if_neg (by simp)]
      rfl
    | own track' key =>
      show outStreamAt _ track' egress key = _
      rw [outStreamAt_endSubgroup, hwires.own track' egress key, Option.isSome_map]
      simp only [FlowKey.own.injEq, FlowCall.after]
      by_cases hkey : track' = track ∧ key = inStreamId groupId subgroupId
      · rw [if_pos hkey]
        split
        · rfl
        · rename_i hroute
          refine outStreamAt_eq_none (Option.not_isSome_iff_eq_none.mp fun hsome => hroute ?_)
          exact ⟨hkey.1.symm, hkey.2, hsome⟩
      · rw [if_neg hkey, if_neg fun h => hkey ⟨h.1.symm, h.2.1⟩]
        rfl
  · intro egress streamId
    rw [filterMap_dataOn_closed]
    split <;> rfl
  · intro egress streamId
    have hentry : ∀ e ∈ r.infoBase.clientFib.withFst track,
        ((r.endSubgroupEntry groupId subgroupId reset e.2).map StreamOut.closed).filterMap
          (StreamOut.closeOn egress streamId) =
        if e.1.2 = egress ∧ e.2.streams[inStreamId groupId subgroupId]? = some streamId
        then [reset] else [] := by
      intro e he
      obtain ⟨hget, -⟩ := ExtTreeMap.mem_withFst.mp he
      obtain ⟨session, hlock, -⟩ := hwires.clients e.1.1 e.1.2 e.2 hget
      unfold endSubgroupEntry
      rw [hlock]
      cases e.2.streams[inStreamId groupId subgroupId]? with
      | none => simp
      | some streamId' =>
        by_cases hegress : e.1.2 = egress <;> by_cases hid : streamId' = streamId <;>
          simp [StreamOut.closeOn, hegress, hid]
    rw [endSubgroupCloses, List.map_flatMap, List.filterMap_flatMap, List.flatMap_congr hentry,
      ExtTreeMap.flatMap_withFst_eq _ _ egress fun e hne => if_neg fun h => hne h.1]
    simp only [FlowCall.target, FlowCall.resets, flowStream_own, outStreamAt]
    obtain hget | ⟨entry, hget⟩ := Option.eq_none_or_eq_some r.infoBase.clientFib[(track, egress)]?
    · simp [hget]
    · simp [hget]

end Own

end Laps.Relay
