import Laps.Messages.DataHeader
import Laps.Relay.PeerSets

/-! The streams of the other relays: each one is continued by one stream to every session of its
row. -/

namespace Laps.Relay

open Std Peering

/-! ### Data of a stream -/

section Forward

variable {r : Relay} (createStream : CreateStream) (ingress : PeerSessionId) (chunk : PeerChunk)

/-- The sessions of the entries are there. -/
def Wired (r : Relay) (row : ExtTreeMap PeerSessionId FibEntry compare) : Prop :=
  ∀ egress entry, row[egress]? = some entry → egress ≠ 0 →
    ∃ session, r.lockSession entry.peerSession = some (egress, session) ∧
      session.status = .connected

/-- The stream that an entry continues the data on. -/
def egressStream (egress : PeerSessionId) (entry : FibEntry) : Option UInt64 :=
  match entry.streams[chunk.streamId]? with
  | some streamId => some streamId
  | none => if chunk.isNewStream then some (createStream egress entry.outSnsId) else none

/-- The bytes for an entry. -/
def egressData (entry : FibEntry) : List UInt8 :=
  if chunk.isNewStream then writeSnsId entry.outSnsId chunk.data else chunk.data

def egressSent (egress : PeerSessionId) (entry : FibEntry) : List Forwarded :=
  (egressStream createStream chunk egress entry).toList.map fun streamId =>
    .session
      { session := egress, priority := chunk.header.priority, ttl := chunk.header.ttl
        snsId := entry.outSnsId, streamId, useReliable := true, data := egressData chunk entry }

/-- What an entry of the row makes of the data. -/
def egressOut (r : Relay) (egress : PeerSessionId) (entry : FibEntry) : List Forwarded :=
  if egress = ingress then []
  else if egress = 0 then r.forwardToClients chunk
  else egressSent createStream chunk egress entry

/-- What the row makes of it, in the order of the sessions. -/
def egressOuts (r : Relay) : List Forwarded :=
  (r.infoBase.peerFib[(ingress, chunk.header.snsId)]?.getD ∅).toList.flatMap fun e =>
    egressOut createStream ingress chunk r e.1 e.2

/-- The entry with its streams. -/
def egressEntry (egress : PeerSessionId) (entry : FibEntry) : FibEntry :=
  if egress = ingress ∨ egress = 0 ∨ chunk.isNewStream = false then entry
  else
    match entry.streams[chunk.streamId]? with
    | some _ => entry
    | none =>
      { entry with
        streams := entry.streams.insert chunk.streamId (createStream egress entry.outSnsId) }

theorem writeSnsId_writeSnsId (snsId snsId' : SubscribeNodeSetId) {data : List UInt8}
    (h : 6 ≤ data.length) :
    writeSnsId snsId (writeSnsId snsId' data) = writeSnsId snsId data := by
  match data, h with
  | _ :: _ :: _ :: _ :: _ :: _ :: _, _ => rfl

/-- The buffer is the data, up to the id that the last entry has written. -/
def SameData (data : List UInt8) : Prop :=
  ∀ snsId, (if chunk.isNewStream then writeSnsId snsId data else data) =
    if chunk.isNewStream then writeSnsId snsId chunk.data else chunk.data

variable {chunk}

theorem forwardEntry_eq (hreliable : chunk.useReliable = true)
    (hlength : chunk.isNewStream = true → 6 ≤ chunk.data.length) {data : List UInt8}
    (hdata : SameData chunk data) {egress : PeerSessionId} {entry : FibEntry}
    (hwired : egress ≠ 0 → ∃ session, r.lockSession entry.peerSession = some (egress, session) ∧
      session.status = .connected) :
    ∃ data', r.forwardEntry createStream ingress chunk data egress entry =
        some (egressEntry createStream ingress chunk egress entry, data',
          egressOut createStream ingress chunk r egress entry) ∧
      SameData chunk data' := by
  unfold forwardEntry egressEntry egressOut
  by_cases hingress : egress = ingress
  · exact ⟨data, by simp [hingress], hdata⟩
  by_cases hzero : egress = 0
  · rw [if_neg hingress, if_neg hingress, if_pos hzero, if_pos hzero, if_pos (.inr (.inl hzero))]
    exact ⟨data, rfl, hdata⟩
  obtain ⟨session, hlock, hstatus⟩ := hwired hzero
  simp only [hingress, hzero, if_false, false_or, hreliable, Bool.not_true, Bool.or_false]
  rw [hdata]
  refine ⟨egressData chunk entry, ?_, ?_⟩
  · have hsend : ∀ streamId, r.forwardToSession chunk entry streamId (egressData chunk entry) =
        some [.session
          { session := egress, priority := chunk.header.priority, ttl := chunk.header.ttl
            snsId := entry.outSnsId, streamId, useReliable := true
            data := egressData chunk entry }] := by
      intro streamId
      unfold forwardToSession
      simp [hlock, PeerSession.sendData, hstatus, hreliable]
    have hbytes : (if chunk.isNewStream then writeSnsId entry.outSnsId chunk.data else chunk.data) =
        egressData chunk entry := rfl
    unfold egressSent egressStream
    rw [hbytes]
    generalize egressData chunk entry = bytes at hsend ⊢
    cases hstream : entry.streams[chunk.streamId]? with
    | some streamId => simp [hsend]
    | none =>
      cases hnew : chunk.isNewStream with
      | false => simp
      | true => simp [hlock, hsend]
  · intro snsId
    unfold egressData
    split
    · rename_i hnew
      exact writeSnsId_writeSnsId _ _ (hlength hnew)
    · rfl

theorem forwardLoop_eq (hreliable : chunk.useReliable = true)
    (hlength : chunk.isNewStream = true → 6 ≤ chunk.data.length)
    {entries : List (PeerSessionId × FibEntry)} (hkeys : entries.Pairwise fun a b => a.1 ≠ b.1)
    (hwired : ∀ e ∈ entries, e.1 ≠ 0 → ∃ session,
      r.lockSession e.2.peerSession = some (e.1, session) ∧ session.status = .connected)
    (row : ExtTreeMap PeerSessionId FibEntry compare) {data : List UInt8}
    (hdata : SameData chunk data) :
    ∃ row', r.forwardLoop createStream ingress chunk entries row data =
        some (row', entries.flatMap fun e => egressOut createStream ingress chunk r e.1 e.2) ∧
      (∀ e ∈ entries, row'[e.1]? = some (egressEntry createStream ingress chunk e.1 e.2)) ∧
      ∀ egress, (∀ e ∈ entries, e.1 ≠ egress) → row'[egress]? = row[egress]? := by
  induction entries generalizing row data with
  | nil => exact ⟨row, rfl, nofun, fun _ _ => rfl⟩
  | cons e entries ih =>
    obtain ⟨egress, entry⟩ := e
    obtain ⟨hne, hkeys⟩ := List.pairwise_cons.mp hkeys
    obtain ⟨data', hentry, hdata'⟩ := forwardEntry_eq createStream ingress hreliable
      hlength hdata (hwired _ List.mem_cons_self)
    obtain ⟨row', hloop, hset, hkept⟩ := ih hkeys
      (fun e he => hwired e (List.mem_cons_of_mem _ he))
      (row.insert egress (egressEntry createStream ingress chunk egress entry)) hdata'
    refine ⟨row', ?_, ?_, ?_⟩
    · unfold forwardLoop
      simp only [hentry, hloop, Option.bind_eq_bind, Option.bind_some, Option.pure_def,
        List.flatMap_cons]
    · intro e he
      obtain rfl | he := List.mem_cons.mp he
      · rw [hkept _ fun e he => (hne e he).symm, ExtTreeMap.getElem?_insert_self]
      · exact hset e he
    · intro egress' hnot
      rw [hkept _ fun e he => hnot e (List.mem_cons_of_mem _ he), ExtTreeMap.getElem?_insert_ite,
        if_neg (hnot _ List.mem_cons_self).symm]

/-- Data of a stream: every entry of the row gets the stream, and sends the data on it. -/
theorem forwardPeerData_eq {row : ExtTreeMap PeerSessionId FibEntry compare}
    (hrow : r.infoBase.peerFib[(ingress, chunk.header.snsId)]? = some row) (hwired : r.Wired row)
    (hreliable : chunk.useReliable = true)
    (hlength : chunk.isNewStream = true → 6 ≤ chunk.data.length) :
    r.forwardPeerData createStream ingress chunk =
      some (r.setPeerFib fun fib => fib.insert (ingress, chunk.header.snsId)
          (row.map (egressEntry createStream ingress chunk)),
        row.toList.flatMap fun e => egressOut createStream ingress chunk r e.1 e.2) := by
  obtain ⟨row', hloop, hset, hkept⟩ := forwardLoop_eq createStream ingress hreliable hlength
    ExtTreeMap.pairwise_toList_ne
    (fun e he => hwired e.1 e.2 (ExtTreeMap.mem_toList_iff_getElem?_eq_some.mp he)) row
    (show SameData chunk chunk.data from fun _ => rfl)
  have hmap : row' = row.map (egressEntry createStream ingress chunk) := by
    apply ExtTreeMap.ext_getElem?
    intro egress
    rw [ExtTreeMap.getElem?_map]
    cases hget : row[egress]? with
    | some entry =>
      exact hset (egress, entry) (ExtTreeMap.mem_toList_iff_getElem?_eq_some.mpr hget)
    | none =>
      rw [hkept, hget]
      · rfl
      · rintro e he rfl
        rw [ExtTreeMap.mem_toList_iff_getElem?_eq_some.mp he] at hget
        cases hget
  unfold forwardPeerData
  rw [hrow]
  simp only [hloop, hmap, Option.bind_eq_bind, Option.bind_some, Option.pure_def]

end Forward

/-! ### What is sent on a stream -/

/-- What a call makes. -/
inductive StreamOut where
  | forwarded (out : Forwarded)
  | closed (out : StreamClose)

/-- The data, when it is sent on the stream of the session. -/
def StreamOut.dataOn (egress : PeerSessionId) (streamId : UInt64) : StreamOut → Option (List UInt8)
  | .forwarded (.session sent) =>
    if sent.session = egress ∧ sent.streamId = streamId then some sent.data else none
  | _ => none

/-- Whether it is a reset, when the stream of the session is closed. -/
def StreamOut.closeOn (egress : PeerSessionId) (streamId : UInt64) : StreamOut → Option Bool
  | .closed (.session egress' _ streamId' reset) =>
    if egress' = egress ∧ streamId' = streamId then some reset else none
  | _ => none

section

variable {r : Relay} (createStream : CreateStream) (ingress : PeerSessionId) {chunk : PeerChunk}

/-- What is to be seen on one session of the data of an entry. -/
theorem flatMap_egressOut {β : Type} (observe : Forwarded → List β) (egress : PeerSessionId)
    (hclients : ∀ hash newStream streamId data,
      observe (.clients hash newStream streamId data) = [])
    (hothers : ∀ sent : DataSent, sent.session ≠ egress → observe (.session sent) = [])
    (egress' : PeerSessionId) (entry : FibEntry) :
    (egressOut createStream ingress chunk r egress' entry).flatMap observe =
      if egress' = egress ∧ egress ≠ ingress ∧ egress ≠ 0 then
        (egressSent createStream chunk egress entry).flatMap observe else [] := by
  unfold egressOut
  by_cases hingress : egress' = ingress
  · rw [if_pos hingress, if_neg]
    · rfl
    · rintro ⟨rfl, hne, -⟩
      exact hne hingress
  rw [if_neg hingress]
  by_cases hzero : egress' = 0
  · rw [if_pos hzero, if_neg]
    · unfold forwardToClients
      split
      · rfl
      · simp [hclients]
    · rintro ⟨rfl, -, hne⟩
      exact hne hzero
  rw [if_neg hzero]
  by_cases heq : egress' = egress
  · subst heq
    rw [if_pos ⟨rfl, hingress, hzero⟩]
  · rw [if_neg fun h => heq h.1]
    refine List.flatMap_eq_nil_iff.mpr fun out hout => ?_
    obtain ⟨streamId, -, rfl⟩ := List.mem_map.mp hout
    exact hothers _ heq

theorem filterMap_egressOut (egress egress' : PeerSessionId) (entry : FibEntry)
    (streamId : UInt64) :
    ((egressOut createStream ingress chunk r egress' entry).map .forwarded).filterMap
        (StreamOut.dataOn egress streamId) =
      if egress' = egress ∧ egress ≠ ingress ∧ egress ≠ 0 ∧
          egressStream createStream chunk egress entry = some streamId
      then [egressData chunk entry] else [] := by
  have hothers : ∀ sent : DataSent, sent.session ≠ egress →
      (StreamOut.dataOn egress streamId (.forwarded (.session sent))).toList = [] := by
    intro sent hne
    simp [StreamOut.dataOn, hne]
  rw [List.filterMap_map, List.filterMap_eq_flatMap_toList]
  refine (flatMap_egressOut createStream ingress _ egress (fun _ _ _ _ => rfl) hothers egress'
    entry).trans ?_
  by_cases hegress : egress' = egress ∧ egress ≠ ingress ∧ egress ≠ 0
  · rw [if_pos hegress, egressSent]
    cases hstream : egressStream createStream chunk egress entry with
    | none => simp
    | some streamId' =>
      by_cases hid : streamId' = streamId <;> simp [StreamOut.dataOn, hid, hegress]
  · rw [if_neg hegress, if_neg fun h => hegress ⟨h.1, h.2.1, h.2.2.1⟩]

/-- Data of a stream: the table after it, and what becomes of the data. -/
theorem forwardPeerData_table (hwired : ∀ row,
      r.infoBase.peerFib[(ingress, chunk.header.snsId)]? = some row → r.Wired row)
    (hreliable : chunk.useReliable = true)
    (hlength : chunk.isNewStream = true → 6 ≤ chunk.data.length) :
    ∃ f, r.forwardPeerData createStream ingress chunk =
        some (r.setPeerFib f, egressOuts createStream ingress chunk r) ∧
      ∀ key egress, (r.setPeerFib f).infoBase.peerFib.get₂? key egress =
        if key = (ingress, chunk.header.snsId) then
          (r.infoBase.peerFib.get₂? key egress).map (egressEntry createStream ingress chunk egress)
        else r.infoBase.peerFib.get₂? key egress := by
  unfold egressOuts
  cases hrow : r.infoBase.peerFib[(ingress, chunk.header.snsId)]? with
  | none =>
    refine ⟨id, by rw [forwardPeerData, hrow]; simp [setPeerFib, setInfoBase], ?_⟩
    intro key egress
    split
    · rename_i hkey
      have hnone : r.infoBase.peerFib.get₂? key egress = none := by
        rw [ExtTreeMap.get₂?, hkey, hrow, Option.bind_none]
      rw [hnone]
      exact hnone
    · rfl
  | some row =>
    refine ⟨_, forwardPeerData_eq createStream ingress hrow (hwired row hrow) hreliable hlength, ?_⟩
    intro key egress
    rw [ExtTreeMap.get₂?, peerFib_setPeerFib]
    split
    · rename_i hkey
      rw [Option.bind_some, ExtTreeMap.getElem?_map, hkey, ExtTreeMap.get₂?, hrow,
        Option.bind_some, Option.getD_some]
    · rfl

/-- A loop over a row in which one session matters. -/
theorem flatMap_row {β : Type} {key : PeerSessionId × SubscribeNodeSetId} (egress : PeerSessionId)
    {f : PeerSessionId × FibEntry → List β} (hf : ∀ e, e.1 ≠ egress → f e = []) :
    (r.infoBase.peerFib[key]?.getD ∅).toList.flatMap f =
      (r.infoBase.peerFib.get₂? key egress).toList.flatMap fun entry => f (egress, entry) := by
  rw [ExtTreeMap.flatMap_toList_eq _ egress hf, ExtTreeMap.get₂?]
  cases r.infoBase.peerFib[key]? with
  | none => simp
  | some row => rfl

end

section

variable {r : Relay} (streamId trackFullNameHash : UInt64) (reset : Bool)

theorem closeEntry_eq {egress : PeerSessionId} {entry : FibEntry} (hzero : egress ≠ 0)
    (hwired : ∃ session, r.lockSession entry.peerSession = some (egress, session)) :
    r.closeEntry streamId trackFullNameHash reset egress entry =
      ({ entry with streams := entry.streams.erase streamId },
        entry.streams[streamId]?.toList.map fun outStreamId =>
          .session egress entry.outSnsId outStreamId reset) := by
  obtain ⟨session, hlock⟩ := hwired
  unfold closeEntry
  rw [if_neg hzero, hlock]
  cases hstream : entry.streams[streamId]? with
  | some outStreamId => rfl
  | none =>
    have herase : entry.streams.erase streamId = entry.streams := by
      apply ExtTreeMap.ext_getElem?
      intro streamId'
      rw [ExtTreeMap.getElem?_erase_ite]
      split
      · rename_i heq
        rw [heq, hstream]
      · rfl
    rw [herase]
    rfl

theorem filterMap_closeEntry (egress egress' : PeerSessionId) (entry : FibEntry)
    (hwired : egress' ≠ 0 → ∃ session, r.lockSession entry.peerSession = some (egress', session))
    (outStreamId : UInt64) :
    ((r.closeEntry streamId trackFullNameHash reset egress' entry).2.map .closed).filterMap
        (StreamOut.closeOn egress outStreamId) =
      if egress' = egress ∧ egress ≠ 0 ∧ entry.streams[streamId]? = some outStreamId
      then [reset] else [] := by
  by_cases hzero : egress' = 0
  · rw [closeEntry, if_pos hzero, if_neg]
    · rfl
    · rintro ⟨rfl, hne, -⟩
      exact hne hzero
  rw [closeEntry_eq _ _ _ hzero (hwired hzero)]
  by_cases heq : egress' = egress
  · subst heq
    cases hstream : entry.streams[streamId]? with
    | none => simp
    | some outStreamId' =>
      by_cases hid : outStreamId' = outStreamId <;> simp [StreamOut.closeOn, hid, hzero]
  · rw [if_neg fun h => heq h.1]
    cases hstream : entry.streams[streamId]? <;> simp [StreamOut.closeOn, heq]

/-- The close of a stream, seen from one session. -/
theorem closeStream_spec (ingress : PeerSessionId) (snsId : SubscribeNodeSetId) (hwired : ∀ row,
      r.infoBase.peerFib[(ingress, snsId)]? = some row → r.Wired row) :
    ∃ infoBase out,
      r.closeStream ingress snsId streamId trackFullNameHash reset =
        (r.setInfoBase infoBase, out) ∧
      (∀ key egress, infoBase.peerFib.get₂? key egress =
        if key = (ingress, snsId) then
          (r.infoBase.peerFib.get₂? key egress).map fun entry =>
            if egress = 0 then entry
            else { entry with streams := entry.streams.erase streamId }
        else r.infoBase.peerFib.get₂? key egress) ∧
      ∀ egress outStreamId, (out.map .closed).filterMap (StreamOut.closeOn egress outStreamId) =
        (r.infoBase.peerFib.get₂? (ingress, snsId) egress).toList.flatMap fun entry =>
          if egress ≠ 0 ∧ entry.streams[streamId]? = some outStreamId then [reset] else [] := by
  have hentry : ∀ row egress entry, r.infoBase.peerFib[(ingress, snsId)]? = some row →
      row[egress]? = some entry → egress ≠ 0 →
      ∃ session, r.lockSession entry.peerSession = some (egress, session) := by
    intro row egress entry hrow hget hzero
    obtain ⟨session, hlock, -⟩ := hwired row hrow egress entry hget hzero
    exact ⟨session, hlock⟩
  refine ⟨_, _, rfl, ?_, ?_⟩
  · intro key egress
    dsimp only
    rw [ExtTreeMap.get₂?, ExtTreeMap.getElem?_modify]
    by_cases hkey : key = (ingress, snsId)
    · subst hkey
      rw [if_pos ReflCmp.compare_self, if_pos rfl, ExtTreeMap.get₂?]
      cases hrow : r.infoBase.peerFib[(ingress, snsId)]? with
      | none => rfl
      | some row =>
        rw [Option.map_some, Option.bind_some, Option.bind_some, ExtTreeMap.getElem?_map]
        cases hget : row[egress]? with
        | none => rfl
        | some entry =>
          rw [Option.map_some, Option.map_some]
          split
          · rename_i hzero
            rw [closeEntry, if_pos hzero]
          · rename_i hzero
            rw [closeEntry_eq _ _ _ hzero (hentry row egress entry hrow hget hzero)]
    · rw [if_neg fun h => hkey (LawfulEqCmp.eq_of_compare h).symm, if_neg hkey]
      rfl
  · intro egress outStreamId
    have hclients : ∀ entries : List ((UInt64 × PeerSessionId) × FibEntry),
        ((entries.flatMap fun e => (r.closeClientEntry ingress streamId reset e.1 e.2).2).map
          .closed).filterMap (StreamOut.closeOn egress outStreamId) = [] := by
      intro entries
      rw [List.map_flatMap, List.filterMap_flatMap]
      refine List.flatMap_eq_nil_iff.mpr fun e _ => ?_
      unfold closeClientEntry
      split <;> rfl
    rw [List.map_append, List.filterMap_append, hclients, List.append_nil, ExtTreeMap.get₂?]
    cases hrow : r.infoBase.peerFib[(ingress, snsId)]? with
    | none => simp
    | some row =>
      rw [Option.getD_some, Option.bind_some, List.map_flatMap, List.filterMap_flatMap]
      have hcongr : ∀ e ∈ row.toList,
          (((r.closeEntry streamId trackFullNameHash reset e.1 e.2).2.map .closed).filterMap
            (StreamOut.closeOn egress outStreamId)) =
          if e.1 = egress ∧ egress ≠ 0 ∧ e.2.streams[streamId]? = some outStreamId
          then [reset] else [] := by
        intro e he
        exact filterMap_closeEntry _ _ _ _ _ _ (hentry row e.1 e.2 hrow
          (ExtTreeMap.mem_toList_iff_getElem?_eq_some.mp he)) _
      rw [List.flatMap_congr hcongr, ExtTreeMap.flatMap_toList_eq row egress
        fun e hne => if_neg fun h => hne h.1]
      simp

end

/-! ### Calls -/

/-- A stream of another relay: the session it comes over, the node set, and its id there. -/
structure StreamKey where
  ingress : PeerSessionId
  snsId : SubscribeNodeSetId
  streamId : UInt64
  deriving DecidableEq

inductive StreamCall where
  | start (createStream : CreateStream) (ingress : PeerSessionId) (streamId : UInt64)
      (header : DataHeader) (payload : List UInt8)
  | more (ingress : PeerSessionId) (streamId : UInt64) (header : DataHeader) (data : List UInt8)
  | close (ingress : PeerSessionId) (snsId : SubscribeNodeSetId)
      (streamId trackFullNameHash : UInt64) (reset : Bool)

namespace StreamCall

def key : StreamCall → StreamKey
  | start _ ingress streamId header _ => ⟨ingress, header.snsId, streamId⟩
  | more ingress streamId header _ => ⟨ingress, header.snsId, streamId⟩
  | close ingress snsId streamId _ _ => ⟨ingress, snsId, streamId⟩

/-- The data of the stream in the call. -/
def data : StreamCall → List UInt8
  | start _ _ _ header payload => header.serialize ++ payload
  | more _ _ _ data => data
  | close _ _ _ _ _ => []

def creates : StreamCall → Option CreateStream
  | start createStream _ _ _ _ => some createStream
  | _ => none

def isClose : StreamCall → Bool
  | close _ _ _ _ _ => true
  | _ => false

/-- The data for a session that has another id for the node set. -/
def dataFor (snsId : SubscribeNodeSetId) : StreamCall → List (List UInt8)
  | start _ _ _ header payload => [({ header with snsId } : DataHeader).serialize ++ payload]
  | more _ _ _ data => [data]
  | close _ _ _ _ _ => []

def resets : StreamCall → List Bool
  | close _ _ _ _ reset => [reset]
  | _ => []

end StreamCall

def streamCall (r : Relay) : StreamCall → Option (Relay × List StreamOut)
  | .start createStream ingress streamId header payload =>
    (r.forwardPeerData createStream ingress
      { isNewStream := true, streamId, header, data := header.serialize ++ payload
        dataOffset := header.serialize.length, useReliable := true }).map
      fun (r, out) => (r, out.map .forwarded)
  | .more ingress streamId header data =>
    -- No stream is made for data that continues one.
    (r.forwardPeerData (fun _ _ => 0) ingress
      { isNewStream := false, streamId, header, data, dataOffset := 0, useReliable := true }).map
      fun (r, out) => (r, out.map .forwarded)
  | .close ingress snsId streamId trackFullNameHash reset =>
    let (r, out) := r.closeStream ingress snsId streamId trackFullNameHash reset
    some (r, out.map .closed)

/-- The id that the session of an entry has for the node set, where the data of a stream goes. -/
def route (r : Relay) (k : StreamKey) (egress : PeerSessionId) : Option SubscribeNodeSetId :=
  if egress = k.ingress ∨ egress = 0 then none
  else (r.infoBase.peerFib.get₂? (k.ingress, k.snsId) egress).map FibEntry.outSnsId

/-- The stream to a session that continues a stream. -/
def streamAt (r : Relay) (k : StreamKey) (egress : PeerSessionId) : Option UInt64 :=
  (r.infoBase.peerFib.get₂? (k.ingress, k.snsId) egress).bind fun entry =>
    entry.streams[k.streamId]?

/-- The sessions of the table are connected, and streams go where there is a route. -/
structure Streaming (r : Relay) : Prop where
  wired : ∀ key egress entry, r.infoBase.peerFib.get₂? key egress = some entry → egress ≠ 0 →
    ∃ session, r.lockSession entry.peerSession = some (egress, session) ∧
      session.status = .connected
  routed : ∀ k egress, r.streamAt k egress ≠ none → r.route k egress ≠ none

theorem Streaming.row {r : Relay} (h : r.Streaming) (key : PeerSessionId × SubscribeNodeSetId)
    (row : ExtTreeMap PeerSessionId FibEntry compare) (hrow : r.infoBase.peerFib[key]? = some row) :
    r.Wired row := by
  intro egress entry hget
  exact h.wired key egress entry (ExtTreeMap.get₂?_eq_some.mpr ⟨row, hrow, hget⟩)

/-- Entries keep their sessions and their ids. -/
structure TableKept (r r' : Relay) : Prop where
  lock : ∀ id?, r'.lockSession id? = r.lockSession id?
  entries : ∀ key egress,
    (r'.infoBase.peerFib.get₂? key egress).map (fun e => (e.outSnsId, e.peerSession)) =
      (r.infoBase.peerFib.get₂? key egress).map fun e => (e.outSnsId, e.peerSession)

theorem TableKept.refl (r : Relay) : TableKept r r := ⟨fun _ => rfl, fun _ _ => rfl⟩

theorem TableKept.trans {r r' r'' : Relay} (h : TableKept r r') (h' : TableKept r' r'') :
    TableKept r r'' :=
  ⟨fun id? => (h'.lock id?).trans (h.lock id?),
    fun key egress => (h'.entries key egress).trans (h.entries key egress)⟩

theorem TableKept.route {r r' : Relay} (h : TableKept r r') (k : StreamKey)
    (egress : PeerSessionId) : r'.route k egress = r.route k egress := by
  unfold Relay.route
  split
  · rfl
  · have hentry := congrArg (Option.map Prod.fst) (h.entries (k.ingress, k.snsId) egress)
    rw [Option.map_map, Option.map_map] at hentry
    exact hentry

/-- The entries of a table that is kept have the sessions that they had. -/
theorem TableKept.wired {r r' : Relay} (h : TableKept r r')
    {key : PeerSessionId × SubscribeNodeSetId} {egress : PeerSessionId} {entry : FibEntry}
    (hwired : ∀ old, r.infoBase.peerFib.get₂? key egress = some old → ∃ session,
      r.lockSession old.peerSession = some (egress, session) ∧ session.status = .connected)
    (hget : r'.infoBase.peerFib.get₂? key egress = some entry) :
    ∃ session, r'.lockSession entry.peerSession = some (egress, session) ∧
      session.status = .connected := by
  have hentry := h.entries key egress
  rw [hget, Option.map_some] at hentry
  obtain ⟨old, hold, heq⟩ := Option.map_eq_some_iff.mp hentry.symm
  obtain ⟨session, hlock, hstatus⟩ := hwired old hold
  refine ⟨session, ?_, hstatus⟩
  rw [h.lock, ← (Prod.mk.inj heq).2, hlock]

/-! ### One call -/

/-- The stream to a session that a call is about. -/
def StreamCall.target (c : StreamCall) (r : Relay) (egress : PeerSessionId) : Option UInt64 :=
  match c.creates with
  | some createStream => (r.route c.key egress).map (createStream egress)
  | none => r.streamAt c.key egress

/-- What a call does, seen from the streams. -/
structure StreamStep (r : Relay) (c : StreamCall) (r' : Relay) (out : List StreamOut) : Prop where
  kept : TableKept r r'
  streams : ∀ k egress, r'.streamAt k egress =
    if k = c.key then (if c.isClose then none else c.target r egress) else r.streamAt k egress
  sent : ∀ egress streamId, out.filterMap (StreamOut.dataOn egress streamId) =
    if c.target r egress = some streamId then c.dataFor ((r.route c.key egress).getD 0) else []
  closed : ∀ egress streamId, out.filterMap (StreamOut.closeOn egress streamId) =
    if c.target r egress = some streamId then c.resets else []

section

variable {r : Relay} (createStream : CreateStream) (ingress : PeerSessionId) (chunk : PeerChunk)

theorem outSnsId_egressEntry (egress : PeerSessionId) (entry : FibEntry) :
    (egressEntry createStream ingress chunk egress entry).outSnsId = entry.outSnsId := by
  unfold egressEntry
  split
  · rfl
  · split <;> rfl

theorem peerSession_egressEntry (egress : PeerSessionId) (entry : FibEntry) :
    (egressEntry createStream ingress chunk egress entry).peerSession = entry.peerSession := by
  unfold egressEntry
  split
  · rfl
  · split <;> rfl

theorem streams_egressEntry (egress : PeerSessionId) (entry : FibEntry) (streamId : UInt64) :
    (egressEntry createStream ingress chunk egress entry).streams[streamId]? =
      if streamId = chunk.streamId ∧ egress ≠ ingress ∧ egress ≠ 0 then
        egressStream createStream chunk egress entry
      else entry.streams[streamId]? := by
  unfold egressEntry egressStream
  by_cases hegress : egress = ingress ∨ egress = 0
  · rw [if_pos (by tauto), if_neg (by tauto)]
  obtain ⟨hingress, hzero⟩ := not_or.mp hegress
  cases hnew : chunk.isNewStream with
  | false =>
    rw [if_pos (.inr (.inr rfl))]
    by_cases hid : streamId = chunk.streamId
    · subst hid
      rw [if_pos ⟨rfl, hingress, hzero⟩]
      cases entry.streams[chunk.streamId]? <;> rfl
    · rw [if_neg fun h => hid h.1]
  | true =>
    rw [if_neg (by simp [hingress, hzero])]
    cases hstream : entry.streams[chunk.streamId]? with
    | some streamId' =>
      by_cases hid : streamId = chunk.streamId
      · subst hid
        rw [if_pos ⟨rfl, hingress, hzero⟩, hstream]
      · rw [if_neg fun h => hid h.1]
    | none =>
      by_cases hid : streamId = chunk.streamId
      · subst hid
        rw [if_pos ⟨rfl, hingress, hzero⟩]
        simp
      · rw [if_neg fun h => hid h.1]
        exact (ExtTreeMap.getElem?_insert_ite _ _ _ _).trans (if_neg hid)

theorem egressStream_eq (egress : PeerSessionId) (entry : FibEntry) :
    egressStream createStream chunk egress entry = entry.streams[chunk.streamId]?.or
      (if chunk.isNewStream then some (createStream egress entry.outSnsId) else none) := by
  unfold egressStream
  cases entry.streams[chunk.streamId]? <;> rfl

variable {createStream ingress chunk}

theorem route_of_entry {k : StreamKey} {egress : PeerSessionId} {found : Option FibEntry}
    (h : r.infoBase.peerFib.get₂? (k.ingress, k.snsId) egress = found) :
    r.route k egress =
      if egress ≠ k.ingress ∧ egress ≠ 0 then found.map FibEntry.outSnsId else none := by
  unfold route
  rw [h]
  by_cases hegress : egress = k.ingress ∨ egress = 0
  · rw [if_pos hegress, if_neg (by tauto)]
  · rw [if_neg hegress, if_pos (by tauto)]

theorem filterMap_closeOn_forwarded (out : List Forwarded) (egress : PeerSessionId)
    (streamId : UInt64) :
    (out.map StreamOut.forwarded).filterMap (StreamOut.closeOn egress streamId) = [] := by
  induction out with
  | nil => rfl
  | cons o out ih => exact ih

/-- The streams after data of a stream. -/
theorem forwardPeerData_streams (createStream : CreateStream) (chunk : PeerChunk)
    (hwired : ∀ row, r.infoBase.peerFib[(ingress, chunk.header.snsId)]? = some row → r.Wired row)
    (hreliable : chunk.useReliable = true)
    (hlength : chunk.isNewStream = true → 6 ≤ chunk.data.length) {k : StreamKey}
    (hk : k = ⟨ingress, chunk.header.snsId, chunk.streamId⟩) :
    ∃ f, r.forwardPeerData createStream ingress chunk =
        some (r.setPeerFib f, egressOuts createStream ingress chunk r) ∧
      TableKept r (r.setPeerFib f) ∧
      ∀ k' egress, (r.setPeerFib f).streamAt k' egress = if k' = k then
          (r.streamAt k egress).or
            (if chunk.isNewStream then (r.route k egress).map (createStream egress) else none)
        else r.streamAt k' egress := by
  obtain ⟨f, hforward, hget⟩ := forwardPeerData_table createStream ingress hwired hreliable hlength
  refine ⟨f, hforward, ⟨fun _ => rfl, ?_⟩, ?_⟩
  · intro key egress
    rw [hget]
    split
    · rw [Option.map_map]
      congr 1
      funext entry
      exact Prod.ext (outSnsId_egressEntry _ _ _ _ _) (peerSession_egressEntry _ _ _ _ _)
    · rfl
  · intro k' egress
    unfold streamAt
    rw [hget]
    by_cases hkey : (k'.ingress, k'.snsId) = (ingress, chunk.header.snsId)
    · have hid : k' = k ↔ k'.streamId = chunk.streamId := by
        obtain ⟨hingress, hsns⟩ := Prod.mk.inj hkey
        rw [hk]
        exact ⟨fun h => by rw [h], fun h => by cases k'; simp_all⟩
      have hk₁ : (k.ingress, k.snsId) = (ingress, chunk.header.snsId) := by rw [hk]
      rw [if_pos hkey, hkey, hk₁]
      cases hentry : r.infoBase.peerFib.get₂? (ingress, chunk.header.snsId) egress with
      | none =>
        have hroute := hentry
        rw [← hk₁] at hroute
        rw [route_of_entry hroute]
        simp
      | some entry =>
        have hroute := hentry
        rw [← hk₁] at hroute
        rw [Option.map_some, Option.bind_some, streams_egressEntry, egressStream_eq,
          route_of_entry hroute, Option.bind_some, Option.map_some]
        have hin : k.ingress = ingress := by rw [hk]
        by_cases heq : k'.streamId = chunk.streamId
        · rw [if_pos (hid.mpr heq), hin, heq, hk]
          by_cases hegress : egress ≠ ingress ∧ egress ≠ 0
          · rw [if_pos ⟨rfl, hegress⟩, if_pos hegress, Option.map_some]
          · rw [if_neg fun h => hegress h.2, if_neg hegress]
            simp
        · rw [if_neg fun h => heq h.1, if_neg fun h => heq (hid.mp h)]
          rfl
    · have hne : k' ≠ k := by
        rintro rfl
        exact hkey (by rw [hk])
      rw [if_neg hkey, if_neg hne]

/-- A loop over the row in which one session matters, in terms of its route and its stream. -/
theorem flatMap_route {β : Type} (createStream : CreateStream) {k : StreamKey}
    (hk : k = ⟨ingress, chunk.header.snsId, chunk.streamId⟩) (egress : PeerSessionId)
    (f : SubscribeNodeSetId → UInt64 → List β) :
    ((r.infoBase.peerFib.get₂? (ingress, chunk.header.snsId) egress).toList.flatMap fun entry =>
        if egress ≠ ingress ∧ egress ≠ 0 then
          (egressStream createStream chunk egress entry).toList.flatMap (f entry.outSnsId)
        else []) =
      (r.route k egress).toList.flatMap fun snsId =>
        ((r.streamAt k egress).or
          (if chunk.isNewStream then some (createStream egress snsId) else none)).toList.flatMap
            (f snsId) := by
  unfold streamAt
  rw [route_of_entry rfl, hk]
  cases r.infoBase.peerFib.get₂? (ingress, chunk.header.snsId) egress with
  | none => simp
  | some entry =>
    by_cases hegress : egress ≠ ingress ∧ egress ≠ 0
    · simp [egressStream_eq, hegress]
    · simp [hegress]

/-- Data of a stream, seen from one stream of one session. -/
theorem dataOn_egressOuts {k : StreamKey}
    (hk : k = ⟨ingress, chunk.header.snsId, chunk.streamId⟩) (egress : PeerSessionId)
    (streamId : UInt64) :
    ((egressOuts createStream ingress chunk r).map .forwarded).filterMap
        (StreamOut.dataOn egress streamId) =
      (r.route k egress).toList.flatMap fun snsId =>
        if (r.streamAt k egress).or
            (if chunk.isNewStream then some (createStream egress snsId) else none) = some streamId
        then [if chunk.isNewStream then writeSnsId snsId chunk.data else chunk.data] else [] := by
  have hobserve := flatMap_route (r := r) createStream hk egress
    fun snsId streamId' => if streamId' = streamId
      then [if chunk.isNewStream then writeSnsId snsId chunk.data else chunk.data] else []
  have hsome : ∀ {β : Type} (o : Option UInt64) (x : List β),
      (o.toList.flatMap fun streamId' => if streamId' = streamId then x else []) =
        if o = some streamId then x else [] := by
    intro β o x
    cases o <;> simp
  simp only [hsome] at hobserve
  unfold egressOuts
  rw [List.map_flatMap, List.filterMap_flatMap]
  simp only [filterMap_egressOut]
  rw [flatMap_row egress fun e hne => if_neg fun h => hne h.1, ← hobserve]
  congr 1
  funext entry
  by_cases hegress : egress ≠ ingress ∧ egress ≠ 0
  · simp [hegress, egressData]
  · rw [if_neg hegress, if_neg fun h => hegress ⟨h.2.1, h.2.2.1⟩]

theorem length_newStream {header : DataHeader} (htype : header.type = .newStream) :
    header.serialize.length = 19 := by
  rw [DataHeader.length_serialize (.inl htype), DataHeader.fieldsSize_of_hasSnsId (.inl htype),
    if_pos htype]

theorem streamCall_start (hr : r.Streaming) {streamId : UInt64} {header : DataHeader}
    {payload : List UInt8} (htype : header.type = .newStream)
    (hnew : ∀ egress, r.streamAt ⟨ingress, header.snsId, streamId⟩ egress = none) :
    ∃ r' out, r.streamCall (.start createStream ingress streamId header payload) = some (r', out) ∧
      StreamStep r (.start createStream ingress streamId header payload) r' out := by
  have hsns : header.HasSnsId := .inl htype
  have hlength : 6 ≤ (header.serialize ++ payload).length := by
    rw [List.length_append, length_newStream htype]
    omega
  obtain ⟨f, hforward, hkept, hstreams⟩ := forwardPeerData_streams createStream
    { isNewStream := true, streamId, header, data := header.serialize ++ payload
      dataOffset := header.serialize.length, useReliable := true }
    (fun row hrow => hr.row _ row hrow) rfl (fun _ => hlength) rfl
  have hkey : (StreamCall.start createStream ingress streamId header payload).key =
      ⟨ingress, header.snsId, streamId⟩ := rfl
  refine ⟨r.setPeerFib f, _, by rw [streamCall, hforward]; rfl, hkept, ?_, ?_, ?_⟩
  · intro k egress
    rw [hstreams, hkey]
    simp only [hnew, Option.none_or]
    rfl
  · intro egress outStreamId
    rw [dataOn_egressOuts rfl, StreamCall.target, hkey]
    simp only [hnew, Option.none_or, if_true, StreamCall.creates]
    cases r.route ⟨ingress, header.snsId, streamId⟩ egress with
    | none => simp
    | some snsId => simp [StreamCall.dataFor, DataHeader.writeSnsId_serialize hsns]
  · intro egress outStreamId
    rw [filterMap_closeOn_forwarded]
    split <;> rfl

theorem streamCall_more (hr : r.Streaming) (streamId : UInt64) (header : DataHeader)
    (data : List UInt8) :
    ∃ r' out, r.streamCall (.more ingress streamId header data) = some (r', out) ∧
      StreamStep r (.more ingress streamId header data) r' out := by
  obtain ⟨f, hforward, hkept, hstreams⟩ := forwardPeerData_streams (fun _ _ => 0)
    { isNewStream := false, streamId, header, data, dataOffset := 0, useReliable := true }
    (fun row hrow => hr.row _ row hrow) rfl nofun rfl
  have hkey : (StreamCall.more ingress streamId header data).key =
      ⟨ingress, header.snsId, streamId⟩ := rfl
  refine ⟨r.setPeerFib f, _, by rw [streamCall, hforward]; rfl, hkept, ?_, ?_, ?_⟩
  · intro k egress
    rw [hstreams, StreamCall.target, hkey]
    simp [StreamCall.creates, StreamCall.isClose]
  · intro egress outStreamId
    rw [dataOn_egressOuts rfl, StreamCall.target, hkey]
    have hrouted := hr.routed ⟨ingress, header.snsId, streamId⟩ egress
    simp only [Bool.false_eq_true, if_false, Option.or_none, StreamCall.creates,
      StreamCall.dataFor]
    cases hroute : r.route ⟨ingress, header.snsId, streamId⟩ egress with
    | none =>
      have hnone : r.streamAt ⟨ingress, header.snsId, streamId⟩ egress = none := by
        by_contra hsome
        exact hrouted hsome hroute
      simp [hnone]
    | some snsId =>
      simp only [Option.toList_some, List.flatMap_cons, List.flatMap_nil, List.append_nil]
      rfl
  · intro egress outStreamId
    rw [filterMap_closeOn_forwarded]
    split <;> rfl

theorem filterMap_dataOn_closed (out : List StreamClose) (egress : PeerSessionId)
    (streamId : UInt64) :
    (out.map StreamOut.closed).filterMap (StreamOut.dataOn egress streamId) = [] := by
  induction out with
  | nil => rfl
  | cons o out ih => exact ih

theorem streamCall_close (hr : r.Streaming) (snsId : SubscribeNodeSetId)
    (streamId trackFullNameHash : UInt64) (reset : Bool) :
    ∃ r' out,
      r.streamCall (.close ingress snsId streamId trackFullNameHash reset) = some (r', out) ∧
        StreamStep r (.close ingress snsId streamId trackFullNameHash reset) r' out := by
  obtain ⟨infoBase, out, hclose, hget, hclosed⟩ := closeStream_spec streamId trackFullNameHash
    reset ingress snsId fun row hrow => hr.row _ row hrow
  have hkey : (StreamCall.close ingress snsId streamId trackFullNameHash reset).key =
      ⟨ingress, snsId, streamId⟩ := rfl
  refine ⟨r.setInfoBase infoBase, out.map .closed, by rw [streamCall, hclose], ?_, ?_, ?_, ?_⟩
  · refine ⟨fun _ => rfl, fun key egress => ?_⟩
    change Option.map _ (infoBase.peerFib.get₂? key egress) = _
    rw [hget]
    split
    · rw [Option.map_map]
      congr 1
      funext entry
      simp only [Function.comp_apply]
      split <;> rfl
    · rfl
  · intro k egress
    have hzero : r.streamAt ⟨ingress, snsId, streamId⟩ 0 = none := by
      by_contra hsome
      exact hr.routed _ _ hsome (if_pos (.inr rfl))
    unfold streamAt at hzero ⊢
    change Option.bind (infoBase.peerFib.get₂? _ egress) _ = _
    rw [hget, hkey]
    by_cases hk : (k.ingress, k.snsId) = (ingress, snsId)
    · rw [if_pos hk, hk]
      cases hentry : r.infoBase.peerFib.get₂? (ingress, snsId) egress with
      | none => simp [StreamCall.isClose]
      | some entry =>
        by_cases hid : k.streamId = streamId
        · have heq : k = ⟨ingress, snsId, streamId⟩ := by
            cases k
            simp_all
          rw [if_pos heq, hid]
          by_cases hegress : egress = 0
          · subst hegress
            rw [hentry, Option.bind_some] at hzero
            simpa [StreamCall.isClose] using hzero
          · simp [hegress, StreamCall.isClose]
        · have hne : k ≠ ⟨ingress, snsId, streamId⟩ := fun h => hid (congrArg StreamKey.streamId h)
          rw [if_neg hne, Option.map_some, Option.bind_some, Option.bind_some]
          split
          · rfl
          · exact (ExtTreeMap.getElem?_erase_ite _ _ _).trans (if_neg hid)
    · have hne : k ≠ ⟨ingress, snsId, streamId⟩ := by
        rintro rfl
        exact hk rfl
      rw [if_neg hk, if_neg hne]
  · intro egress outStreamId
    rw [filterMap_dataOn_closed]
    split <;> rfl
  · intro egress outStreamId
    rw [hclosed]
    show _ = if r.streamAt ⟨ingress, snsId, streamId⟩ egress = some outStreamId then [reset] else []
    have hzero : r.streamAt ⟨ingress, snsId, streamId⟩ 0 = none := by
      by_contra hsome
      exact hr.routed _ _ hsome (if_pos (.inr rfl))
    unfold streamAt at hzero ⊢
    cases hentry : r.infoBase.peerFib.get₂? (ingress, snsId) egress with
    | none => simp
    | some entry =>
      by_cases hegress : egress = 0
      · subst hegress
        rw [hentry, Option.bind_some] at hzero
        simp [hzero]
      · simp [hegress]

end

end Laps.Relay
