import Laps.Client.Objects
import Laps.Client.PeerData
import Laps.Relay.StreamPairs
import Laps.Relay.Teardown

/-! The streams of the other relays on their way through the peer manager to the handler of a
track. -/

namespace Laps.Relay

open Std Client Peering

/-! ### The track and its calls -/

/-- What reaches the handler of the track. -/
def StreamOut.handlerCall (trackFullNameHash : UInt64) : StreamOut → Option HandlerCall
  | .forwarded (.clients hash isNewStream (some streamId) data) =>
    if hash = trackFullNameHash then some (.data isNewStream streamId data) else none
  | .closed (.clients hash streamId reset) =>
    if hash = trackFullNameHash then some (.closed streamId reset) else none
  | _ => none

/-- The peer manager, and the handler for the data of the other relays. -/
structure TrackState where
  relay : Relay
  trackFullNameHash : UInt64
  handler : StreamHandler

/-- What the handler hands back to the peer manager. -/
def handBack (e : PeerEvent) (trackAlias : Option UInt64) (r : Relay) : HandlerOut → Relay
  | .clientData trackFullNameHash type groupId subgroupId data =>
    (r.clientDataRecv e.createStream
      { trackFullNameHash, priority := e.priority, ttl := e.ttl, type, groupId, subgroupId
        data }).1
  | .endSubgroup 0 groupId subgroupId _ => r.endSubgroup (trackAlias.getD 0) groupId subgroupId
  | _ => r

namespace TrackState

/-- No state where the source throws or calls through a null pointer. -/
def call (m : Moqt) (s : TrackState) (e : PeerEvent) : Option TrackState × List HandlerOut :=
  match s.relay.streamCall e.call with
  | none => (none, [])
  | some (relay, out) =>
    match s.handler.calls m (out.filterMap (StreamOut.handlerCall s.trackFullNameHash)) with
    | (none, reports) => (none, reports)
    | (some handler, reports) =>
      (some { s with
        relay := reports.foldl (handBack e s.handler.trackAlias) relay, handler }, reports)

/-- What each call makes the handler report, by the stream of the call. -/
def run (m : Moqt) : TrackState → List PeerEvent →
    Option TrackState × List (StreamKey × List HandlerOut)
  | s, [] => (some s, [])
  | s, e :: es =>
    match s.call m e with
    | (none, out) => (none, [(e.call.key, out)])
    | (some s, out) =>
      let (s, rest) := run m s es
      (s, (e.call.key, out) :: rest)

end TrackState

def isReport : HandlerOut → Bool
  | .object .. => true
  | .endSubgroup .. => true
  | .clientData .. => false

/-- The objects and the ends of subgroups that are reported for a stream. -/
def reportedFor (k : StreamKey) (outs : List (StreamKey × List HandlerOut)) : List HandlerOut :=
  (outs.filter fun o => o.1 = k).flatMap fun o => o.2.filter isReport

/-- The calls of one stream. -/
def eventsOf (k : StreamKey) (es : List PeerEvent) : List PeerEvent :=
  es.filter fun e => e.call.key = k

namespace StreamCall

def trackHash : StreamCall → UInt64
  | start _ _ _ header _ => header.trackFullNameHash
  | more _ _ header _ => header.trackFullNameHash
  | close _ _ _ trackFullNameHash _ => trackFullNameHash

def isMore : StreamCall → Bool
  | more _ _ _ _ => true
  | _ => false

/-- The stream starts with its whole header, and the header has the subgroup id. -/
def StartsWhole (m : Moqt) : StreamCall → Prop
  | start _ _ _ _ payload => ∃ header rest, m.readHeader payload = some (header, rest) ∧
    Parsable header
  | _ => False

theorem isClose_of_isMore {c : StreamCall} (h : c.isMore = true) : c.isClose = false := by
  cases c with
  | more => rfl
  | _ => cases h

theorem isClose_of_startsWhole {m : Moqt} {c : StreamCall} (h : c.StartsWhole m) :
    c.isClose = false := by
  cases c with
  | start => rfl
  | _ => exact h.elim

end StreamCall

/-- The calls of a stream in their order, as far as they have come. -/
def StreamOrder (m : Moqt) (calls : List StreamCall) : Prop :=
  calls = [] ∨ ∃ first mores closes, calls = first :: (mores ++ closes) ∧ first.StartsWhole m ∧
    (∀ c ∈ mores, c.isMore = true) ∧ ∀ c ∈ closes, c.isClose = true

/-! ### What the peer manager keeps -/

/-- What decides whether data is for the clients of this relay. -/
structure SameClients (r r' : Relay) : Prop where
  nodeId : r'.nodeId = r.nodeId
  subscribes : r'.infoBase.subscribes = r.infoBase.subscribes
  self : ∀ key, (r'.infoBase.peerFib.get₂? key 0).isSome = (r.infoBase.peerFib.get₂? key 0).isSome

theorem SameClients.refl (r : Relay) : SameClients r r := ⟨rfl, rfl, fun _ => rfl⟩

theorem SameClients.trans {r r' r'' : Relay} (h : SameClients r r') (h' : SameClients r' r'') :
    SameClients r r'' :=
  ⟨h'.nodeId.trans h.nodeId, h'.subscribes.trans h.subscribes,
    fun key => (h'.self key).trans (h.self key)⟩

theorem SameClients.symm {r r' : Relay} (h : SameClients r r') : SameClients r' r :=
  ⟨h.nodeId.symm, h.subscribes.symm, fun key => (h.self key).symm⟩

theorem OnlyClientFib.sameClients {r r' : Relay} (h : OnlyClientFib r r') : SameClients r r' := by
  obtain ⟨clientFib, rfl⟩ := h
  exact ⟨rfl, rfl, fun _ => rfl⟩

theorem OnlyClientFib.egressAlive {r r' : Relay} (h : OnlyClientFib r r') (halive : EgressAlive r) :
    EgressAlive r' := by
  obtain ⟨clientFib, rfl⟩ := h
  exact halive

theorem onlyClientFib_handBack (e : PeerEvent) (trackAlias : Option UInt64) (r : Relay)
    (out : HandlerOut) : OnlyClientFib r (handBack e trackAlias r out) := by
  unfold handBack
  split
  · exact ⟨_, rfl⟩
  · exact ⟨_, rfl⟩
  · exact ⟨r.infoBase.clientFib, rfl⟩

theorem onlyClientFib_foldl_handBack (e : PeerEvent) (trackAlias : Option UInt64) (r : Relay)
    (out : List HandlerOut) : OnlyClientFib r (out.foldl (handBack e trackAlias) r) := by
  induction out generalizing r with
  | nil => exact ⟨r.infoBase.clientFib, rfl⟩
  | cons o out ih =>
    obtain ⟨clientFib, hfirst⟩ := onlyClientFib_handBack e trackAlias r o
    obtain ⟨clientFib', hrest⟩ := ih (handBack e trackAlias r o)
    rw [List.foldl_cons, hrest, hfirst]
    exact ⟨clientFib', rfl⟩

/-! ### What reaches the handler -/

section Forward

variable {r : Relay} {createStream : CreateStream} {ingress : PeerSessionId} {chunk : PeerChunk}
  (trackFullNameHash : UInt64)

def handlerCalls (out : List Forwarded) : List HandlerCall :=
  (out.map .forwarded).filterMap (StreamOut.handlerCall trackFullNameHash)

theorem handlerCalls_append (out out' : List Forwarded) :
    handlerCalls trackFullNameHash (out ++ out') =
      handlerCalls trackFullNameHash out ++ handlerCalls trackFullNameHash out' := by
  rw [handlerCalls, List.map_append, List.filterMap_append]
  rfl

theorem handlerCalls_session (sent : List DataSent) :
    handlerCalls trackFullNameHash (sent.map .session) = [] := by
  rw [handlerCalls, List.map_map, List.filterMap_map]
  exact List.filterMap_eq_nil_iff.mpr fun _ _ => rfl

theorem handlerCalls_forwardToSession {entry : FibEntry} {streamId : UInt64} {data : List UInt8}
    {out : List Forwarded} (h : r.forwardToSession chunk entry streamId data = some out) :
    handlerCalls trackFullNameHash out = [] := by
  unfold forwardToSession at h
  obtain ⟨⟨id, session⟩, -, hout⟩ := Option.bind_eq_some_iff.mp h
  cases hout
  exact handlerCalls_session _ _

/-- Data reaches the handler through the entry of this relay. -/
theorem handlerCalls_forwardEntry {data data' : List UInt8} {egress : PeerSessionId}
    {entry entry' : FibEntry} {out : List Forwarded}
    (h : r.forwardEntry createStream ingress chunk data egress entry = some (entry', data', out)) :
    handlerCalls trackFullNameHash out =
      if egress = 0 ∧ ingress ≠ 0 then handlerCalls trackFullNameHash (r.forwardToClients chunk)
      else [] := by
  unfold forwardEntry at h
  split at h
  · rename_i hingress
    cases h
    rw [if_neg]
    · rfl
    · rintro ⟨hzero, hne⟩
      exact hne (hingress.symm.trans hzero)
  rename_i hingress
  split at h
  · rename_i hzero
    cases h
    rw [if_pos ⟨hzero, fun h => hingress (hzero.trans h.symm)⟩]
  rename_i hzero
  rw [if_neg fun h => hzero h.1]
  have hsent : ∀ {streamId data entry'' out'},
      ((r.forwardToSession chunk entry streamId data).bind fun out =>
        some (entry'', data, out)) = some (entry', data', out') →
      handlerCalls trackFullNameHash out' = [] := by
    intro streamId data entry'' out' hbind
    obtain ⟨sent, hforward, hsome⟩ := Option.bind_eq_some_iff.mp hbind
    cases hsome
    exact handlerCalls_forwardToSession _ hforward
  dsimp only at h
  split at h
  · exact hsent h
  · split at h
    · exact hsent h
    · split at h
      · cases h
        rfl
      · obtain ⟨⟨id, session⟩, -, hrest⟩ := Option.bind_eq_some_iff.mp h
        exact hsent hrest

theorem handlerCalls_forwardLoop {entries : List (PeerSessionId × FibEntry)}
    {row row' : ExtTreeMap PeerSessionId FibEntry compare} {data : List UInt8}
    {out : List Forwarded}
    (h : r.forwardLoop createStream ingress chunk entries row data = some (row', out))
    (hmem : ∀ e ∈ entries, row.contains e.1 = true) :
    (handlerCalls trackFullNameHash out = entries.flatMap fun e =>
        if e.1 = 0 ∧ ingress ≠ 0 then handlerCalls trackFullNameHash (r.forwardToClients chunk)
        else []) ∧
      ∀ egress : PeerSessionId, row'[egress]?.isSome = row[egress]?.isSome := by
  induction entries generalizing row data row' out with
  | nil =>
    cases h
    exact ⟨rfl, fun _ => rfl⟩
  | cons e entries ih =>
    obtain ⟨egress, entry⟩ := e
    unfold forwardLoop at h
    obtain ⟨⟨entry', data', first⟩, hentry, hrest⟩ := Option.bind_eq_some_iff.mp h
    obtain ⟨⟨row'', later⟩, hloop, hsome⟩ := Option.bind_eq_some_iff.mp hrest
    cases hsome
    obtain ⟨hcalls, hkeys⟩ := ih hloop fun e he => by
      rw [ExtTreeMap.contains_insert_iff]
      exact .inr (hmem e (List.mem_cons_of_mem _ he))
    refine ⟨?_, fun egress' => ?_⟩
    · rw [handlerCalls_append, handlerCalls_forwardEntry _ hentry, hcalls, List.flatMap_cons]
    · rw [hkeys, ExtTreeMap.getElem?_insert_ite]
      split
      · rename_i heq
        have hself := hmem _ List.mem_cons_self
        rw [heq, Option.isSome_some]
        exact ((ExtTreeMap.contains_eq_isSome_getElem? ..).symm.trans hself).symm
      · rfl

theorem forwardPeerData_calls (createStream : CreateStream) (ingress : PeerSessionId)
    (chunk : PeerChunk) (halive : EgressAlive r) :
    ∃ r' out, r.forwardPeerData createStream ingress chunk = some (r', out) ∧
      SameClients r r' ∧ EgressAlive r' ∧
      handlerCalls trackFullNameHash out =
        if ingress ≠ 0 ∧ (r.infoBase.peerFib.get₂? (ingress, chunk.header.snsId) 0).isSome = true
        then handlerCalls trackFullNameHash (r.forwardToClients chunk) else [] := by
  obtain ⟨r', out, hforward, halive'⟩ := halive.forwardPeerData createStream ingress chunk
  refine ⟨r', out, hforward, ?_⟩
  unfold forwardPeerData at hforward
  cases hrow : r.infoBase.peerFib[(ingress, chunk.header.snsId)]? with
  | none =>
    rw [hrow] at hforward
    cases hforward
    refine ⟨.refl r, halive', (if_neg ?_).symm⟩
    rintro ⟨-, hself⟩
    rw [ExtTreeMap.get₂?, hrow] at hself
    cases hself
  | some row =>
    rw [hrow] at hforward
    obtain ⟨⟨row', out'⟩, hloop, hsome⟩ := Option.bind_eq_some_iff.mp hforward
    cases hsome
    obtain ⟨hcalls, hkeys⟩ := handlerCalls_forwardLoop trackFullNameHash hloop fun e he => by
      rw [ExtTreeMap.contains_iff_getElem?]
      exact ⟨e.2, ExtTreeMap.mem_toList_iff_getElem?_eq_some.mp he⟩
    refine ⟨⟨rfl, rfl, fun key => ?_⟩, halive', ?_⟩
    · rw [ExtTreeMap.get₂?, peerFib_setPeerFib, ExtTreeMap.get₂?]
      split
      · rename_i hkey
        rw [hkey, hrow, Option.bind_some, Option.bind_some, hkeys]
      · rfl
    · rw [hcalls, ExtTreeMap.flatMap_toList_eq row 0 fun e hne => if_neg fun h => hne h.1,
        ExtTreeMap.get₂?, hrow, Option.bind_some]
      cases row[(0 : PeerSessionId)]? with
      | none => simp
      | some entry => simp

end Forward

section Close

variable {r : Relay} (ingress : PeerSessionId) (snsId : SubscribeNodeSetId)
  (streamId trackFullNameHash : UInt64) (reset : Bool)

theorem peerSession_closeEntry (egress : PeerSessionId) (entry : FibEntry) :
    (r.closeEntry streamId trackFullNameHash reset egress entry).1.peerSession =
      entry.peerSession := by
  unfold closeEntry
  split
  · rfl
  · split <;> rfl

/-- The client table tells nothing but the same close again. -/
theorem closeClients_calls (entries : List ((UInt64 × PeerSessionId) × FibEntry)) :
    ∃ n, ((entries.flatMap fun e => (r.closeClientEntry ingress streamId reset e.1 e.2).2).map
      .closed).filterMap (StreamOut.handlerCall trackFullNameHash) =
        List.replicate n (.closed streamId reset) := by
  refine ⟨_, List.eq_replicate_length.mpr fun c hc => ?_⟩
  obtain ⟨out, hout, hcall⟩ := List.mem_filterMap.mp hc
  obtain ⟨close, hclose, rfl⟩ := List.mem_map.mp hout
  obtain ⟨e, -, he⟩ := List.mem_flatMap.mp hclose
  unfold closeClientEntry at he
  split at he
  · rw [List.mem_singleton] at he
    rw [he] at hcall
    simp only [StreamOut.handlerCall] at hcall
    split at hcall
    · exact (Option.some.inj hcall).symm
    · cases hcall
  · cases he

/-- A close reaches the handler once for the entry of this relay, and again for streams to the
session with the same id. -/
theorem closeStream_calls (halive : EgressAlive r) :
    SameClients r (r.closeStream ingress snsId streamId trackFullNameHash reset).1 ∧
      EgressAlive (r.closeStream ingress snsId streamId trackFullNameHash reset).1 ∧
      ∃ n, ((r.closeStream ingress snsId streamId trackFullNameHash reset).2.map .closed).filterMap
          (StreamOut.handlerCall trackFullNameHash) =
        (r.infoBase.peerFib.get₂? (ingress, snsId) 0).toList.map
            (fun _ => .closed streamId reset) ++
          List.replicate n (.closed streamId reset) := by
  have hrow : ∀ key : PeerSessionId × SubscribeNodeSetId,
      (r.closeStream ingress snsId streamId trackFullNameHash reset).1.infoBase.peerFib[key]? =
        if key = (ingress, snsId) then r.infoBase.peerFib[key]?.map fun row => row.map
          fun egress entry => (r.closeEntry streamId trackFullNameHash reset egress entry).1
        else r.infoBase.peerFib[key]? := by
    intro key
    refine (ExtTreeMap.getElem?_modify ..).trans ?_
    by_cases hkey : key = (ingress, snsId)
    · rw [hkey, if_pos ReflCmp.compare_self, if_pos rfl]
    · rw [if_neg fun h => hkey (LawfulEqCmp.eq_of_compare h).symm, if_neg hkey]
  refine ⟨⟨rfl, rfl, fun key => ?_⟩, fun key row hget => ?_, ?_⟩
  · rw [ExtTreeMap.get₂?, hrow, ExtTreeMap.get₂?]
    split
    · cases r.infoBase.peerFib[key]? with
      | none => rfl
      | some row => simp
    · rfl
  · rw [hrow] at hget
    split at hget
    · obtain ⟨old, hold, rfl⟩ := Option.map_eq_some_iff.mp hget
      intro egress entry hentry hzero
      rw [ExtTreeMap.getElem?_map] at hentry
      obtain ⟨before, hbefore, rfl⟩ := Option.map_eq_some_iff.mp hentry
      rw [peerSession_closeEntry]
      exact halive key old hold egress before hbefore hzero
    · exact halive key row hget
  · obtain ⟨n, hclients⟩ := closeClients_calls (r := r) ingress streamId trackFullNameHash reset
      r.infoBase.clientFib.toList
    refine ⟨n, ?_⟩
    rw [closeStream, List.map_append, List.filterMap_append, hclients,
      List.map_flatMap, List.filterMap_flatMap, flatMap_row 0]
    · rw [List.map_eq_flatMap]
      congr 2
      funext entry
      simp [closeEntry, StreamOut.handlerCall]
    · intro e hne
      unfold closeEntry
      rw [if_neg hne]
      split <;> rfl

end Close

/-- What the handler gets of a call. -/
def StreamCall.delivered : StreamCall → HandlerCall
  | start _ _ streamId _ payload => .data true streamId payload
  | more _ streamId _ data => .data false streamId data
  | close _ _ streamId _ reset => .closed streamId reset

theorem StreamCall.streamId_delivered (c : StreamCall) : c.delivered.streamId = c.key.streamId := by
  cases c <;> rfl

/-- The row of the stream has an entry for this relay. -/
def self (r : Relay) (k : StreamKey) : Bool :=
  (r.infoBase.peerFib.get₂? (k.ingress, k.snsId) 0).isSome

/-- The call gets to the clients of this relay. -/
def hits (r : Relay) (c : StreamCall) : Bool :=
  r.self c.key && (c.isClose || (decide (c.key.ingress ≠ 0) &&
    (r.infoBase.subscribes.get₂? c.trackHash r.nodeId).isSome))

theorem hits_iff_of_data {r : Relay} {c : StreamCall} (hc : c.isClose = false) :
    r.hits c = true ↔ r.self c.key = true ∧ c.key.ingress ≠ 0 ∧
      (r.infoBase.subscribes.get₂? c.trackHash r.nodeId).isSome = true := by
  rw [hits, hc, Bool.false_or, Bool.and_eq_true, Bool.and_eq_true, decide_eq_true_eq]

theorem hits_of_close {r : Relay} {c : StreamCall} (hc : c.isClose = true) :
    r.hits c = r.self c.key := by
  rw [hits, hc, Bool.true_or, Bool.and_true]

theorem SameClients.self_eq {r r' : Relay} (h : SameClients r r') (k : StreamKey) :
    r'.self k = r.self k :=
  h.self (k.ingress, k.snsId)

theorem SameClients.hits {r r' : Relay} (h : SameClients r r') (c : StreamCall) :
    r'.hits c = r.hits c := by
  rw [Relay.hits, Relay.hits, h.self_eq, h.subscribes, h.nodeId]

section Call

variable {m : Moqt} {r : Relay}

theorem forwardToClients_calls (hkeys : OwnKeys r) {chunk : PeerChunk}
    (hreliable : chunk.useReliable = true) :
    handlerCalls chunk.header.trackFullNameHash (r.forwardToClients chunk) =
      if (r.infoBase.subscribes.get₂? chunk.header.trackFullNameHash r.nodeId).isSome = true then
        [.data chunk.isNewStream chunk.streamId (chunk.data.drop chunk.dataOffset)]
      else [] := by
  unfold forwardToClients
  cases hget : r.infoBase.subscribes.get₂? chunk.header.trackFullNameHash r.nodeId with
  | none => rfl
  | some si =>
    simp [handlerCalls, StreamOut.handlerCall, hreliable, (hkeys _ _ _ hget).1]

/-- What the handler gets of the data of a stream. -/
theorem forwardPeerData_delivered (halive : EgressAlive r) (hkeys : OwnKeys r)
    (createStream : CreateStream) (ingress : PeerSessionId) (chunk : PeerChunk)
    (hreliable : chunk.useReliable = true) :
    ∃ r' out, r.forwardPeerData createStream ingress chunk = some (r', out) ∧
      SameClients r r' ∧ EgressAlive r' ∧
      handlerCalls chunk.header.trackFullNameHash out =
        if r.self ⟨ingress, chunk.header.snsId, chunk.streamId⟩ = true ∧ ingress ≠ 0 ∧
            (r.infoBase.subscribes.get₂? chunk.header.trackFullNameHash r.nodeId).isSome = true
        then [.data chunk.isNewStream chunk.streamId (chunk.data.drop chunk.dataOffset)]
        else [] := by
  obtain ⟨r', out, hforward, hclients, halive', hcalls⟩ :=
    forwardPeerData_calls chunk.header.trackFullNameHash createStream ingress chunk halive
  refine ⟨r', out, hforward, hclients, halive', ?_⟩
  rw [hcalls, forwardToClients_calls hkeys hreliable, ← ite_and]
  refine if_congr ?_ rfl rfl
  unfold self
  tauto

/-- What the handler gets of a call. -/
theorem streamCall_delivered (halive : EgressAlive r) (hkeys : OwnKeys r) (c : StreamCall) :
    ∃ r' out n, r.streamCall c = some (r', out) ∧ SameClients r r' ∧ EgressAlive r' ∧
      (c.isClose = false → n = 0) ∧
      out.filterMap (StreamOut.handlerCall c.trackHash) =
        (if r.hits c = true then [c.delivered] else []) ++ List.replicate n c.delivered := by
  cases c with
  | start createStream ingress streamId header payload =>
    obtain ⟨r', out, hforward, hclients, halive', hcalls⟩ := forwardPeerData_delivered halive hkeys
      createStream ingress
      { isNewStream := true, streamId, header, data := header.serialize ++ payload
        dataOffset := header.serialize.length, useReliable := true } rfl
    refine ⟨r', out.map .forwarded, 0, by rw [streamCall, hforward]; rfl, hclients, halive',
      fun _ => rfl, ?_⟩
    rw [List.replicate_zero, List.append_nil]
    refine hcalls.trans ?_
    rw [List.drop_left]
    exact if_congr (hits_iff_of_data
      (c := .start createStream ingress streamId header payload) rfl).symm rfl rfl
  | more ingress streamId header data =>
    obtain ⟨r', out, hforward, hclients, halive', hcalls⟩ := forwardPeerData_delivered halive hkeys
      (fun _ _ => 0) ingress
      { isNewStream := false, streamId, header, data, dataOffset := 0, useReliable := true } rfl
    refine ⟨r', out.map .forwarded, 0, by rw [streamCall, hforward]; rfl, hclients, halive',
      fun _ => rfl, ?_⟩
    rw [List.replicate_zero, List.append_nil]
    exact hcalls.trans (if_congr (hits_iff_of_data
      (c := .more ingress streamId header data) rfl).symm rfl rfl)
  | close ingress snsId streamId trackFullNameHash reset =>
    obtain ⟨hclients, halive', n, hcalls⟩ := closeStream_calls ingress snsId streamId
      trackFullNameHash reset halive
    refine ⟨_, _, n, rfl, hclients, halive', fun hmore => Bool.noConfusion hmore, ?_⟩
    refine hcalls.trans ?_
    have hhits : r.hits (.close ingress snsId streamId trackFullNameHash reset) =
        (r.infoBase.peerFib.get₂? (ingress, snsId) 0).isSome := hits_of_close rfl
    rw [hhits]
    cases r.infoBase.peerFib.get₂? (ingress, snsId) 0 <;> rfl

end Call

/-! ### One call -/

namespace TrackState

variable {m : Moqt} {k k' : StreamKey} {s s' : TrackState} {e : PeerEvent}

/-- What a call does to the handler. -/
def effect (m : Moqt) (s : TrackState) (c : StreamCall) : Option StreamHandler × List HandlerOut :=
  if s.relay.hits c then s.handler.call m c.delivered else (some s.handler, [])

/-- The tables are sound, and the handler has nothing of a stream that is not for this relay. -/
structure Inv (k : StreamKey) (s : TrackState) : Prop where
  alive : EgressAlive s.relay
  keys : OwnKeys s.relay
  idle : s.relay.self k = false → s.handler.streams[k.streamId]? = none

/-- The second state comes from the first, as far as the tables go. -/
structure Onward (s s' : TrackState) : Prop where
  hash : s'.trackFullNameHash = s.trackFullNameHash
  clients : SameClients s.relay s'.relay
  alive : EgressAlive s'.relay

/-- All calls that reach the handler have the effect of one. -/
theorem calls_eq_effect (hs : s.Inv e.call.key) {n : ℕ} (hn : e.call.isClose = false → n = 0) :
    s.handler.calls m ((if s.relay.hits e.call = true then [e.call.delivered] else []) ++
      List.replicate n e.call.delivered) = s.effect m e.call := by
  unfold effect
  cases hclose : e.call.isClose with
  | false =>
    rw [hn hclose, List.replicate_zero, List.append_nil]
    split
    · exact calls_singleton _
    · rfl
  | true =>
    have hidle := hs.idle
    rw [← hits_of_close hclose] at hidle
    cases hcall : e.call with
    | start => rw [hcall] at hclose; cases hclose
    | more => rw [hcall] at hclose; cases hclose
    | close ingress snsId streamId trackFullNameHash reset =>
      rw [hcall] at hidle
      split
      · exact calls_closed reset n
      · rename_i hnot
        exact calls_closed_of_none (hidle (Bool.eq_false_iff.mpr hnot)) reset n

theorem call_of_effect (hs : s.Inv e.call.key) (hhash : e.call.trackHash = s.trackFullNameHash)
    {handler : StreamHandler} {out : List HandlerOut}
    (heffect : s.effect m e.call = (some handler, out)) :
    ∃ s', s.call m e = (some s', out) ∧ s'.handler = handler ∧ Onward s s' := by
  obtain ⟨relay, outs, n, hcall, hclients, halive, hn, hcalls⟩ :=
    streamCall_delivered hs.alive hs.keys e.call
  rw [hhash] at hcalls
  refine ⟨{ s with relay := out.foldl (handBack e s.handler.trackAlias) relay, handler }, ?_, rfl,
    rfl, ?_, ?_⟩
  · rw [call, hcall]
    dsimp only
    rw [hcalls, calls_eq_effect hs hn, heffect]
  · exact hclients.trans (onlyClientFib_foldl_handBack _ _ _ _).sameClients
  · exact (onlyClientFib_foldl_handBack _ _ _ _).egressAlive halive

theorem call_none_of_effect (hs : s.Inv e.call.key)
    (hhash : e.call.trackHash = s.trackFullNameHash) {out : List HandlerOut}
    (heffect : s.effect m e.call = (none, out)) : s.call m e = (none, out) := by
  obtain ⟨relay, outs, n, hcall, -, -, hn, hcalls⟩ := streamCall_delivered hs.alive hs.keys e.call
  rw [hhash] at hcalls
  rw [call, hcall]
  dsimp only
  rw [hcalls, calls_eq_effect hs hn, heffect]

theorem effect_of_call (hs : s.Inv e.call.key) (hhash : e.call.trackHash = s.trackFullNameHash)
    {out : List HandlerOut} (hcall : s.call m e = (some s', out)) :
    s.effect m e.call = (some s'.handler, out) ∧ Onward s s' := by
  obtain ⟨handler?, out', heffect⟩ : ∃ handler? out', s.effect m e.call = (handler?, out') :=
    ⟨_, _, rfl⟩
  cases handler? with
  | none =>
    rw [call_none_of_effect hs hhash heffect] at hcall
    cases hcall
  | some handler =>
    obtain ⟨s'', hcall', rfl, honward⟩ := call_of_effect hs hhash heffect
    rw [hcall'] at hcall
    cases hcall
    exact ⟨heffect, honward⟩

/-- A call for the stream itself keeps what is known of it. -/
theorem Inv.call_own (hs : s.Inv k) (hkey : e.call.key = k)
    (hhash : e.call.trackHash = s.trackFullNameHash) {out : List HandlerOut}
    (hcall : s.call m e = (some s', out)) : s'.Inv k := by
  subst hkey
  obtain ⟨heffect, honward⟩ := effect_of_call hs hhash hcall
  refine ⟨honward.alive, hs.keys.congr honward.clients.subscribes, fun hself => ?_⟩
  rw [honward.clients.self_eq] at hself
  have hmiss : ¬s.relay.hits e.call = true := by
    rw [hits, hself]
    simp
  rw [effect, if_neg hmiss, Prod.mk.injEq, Option.some.injEq] at heffect
  rw [← heffect.1]
  exact hs.idle hself

/-- A call for another stream changes nothing of it. -/
theorem Inv.call_other (hs : s.Inv k) (hs' : s.Inv k') (hne : k.streamId ≠ k'.streamId)
    (hkey : e.call.key = k') (hhash : e.call.trackHash = s.trackFullNameHash)
    {out : List HandlerOut} (hcall : s.call m e = (some s', out)) :
    s'.Inv k ∧ Agrees k.streamId s.handler s'.handler := by
  subst hkey
  obtain ⟨heffect, honward⟩ := effect_of_call hs' hhash hcall
  have hagree : Agrees k.streamId s.handler s'.handler := by
    unfold effect at heffect
    split at heffect
    · refine agrees_call (c := e.call.delivered) ?_ (congrArg Prod.fst heffect)
      rw [StreamCall.streamId_delivered]
      exact hne.symm
    · rw [Prod.mk.injEq, Option.some.injEq] at heffect
      rw [← heffect.1]
      exact .refl _ _
  refine ⟨⟨honward.alive, hs.keys.congr honward.clients.subscribes, fun hself => ?_⟩, hagree⟩
  rw [honward.clients.self_eq] at hself
  rw [hagree.stream]
  exact hs.idle hself

/-! ### The streams together and apart -/

/-- The stream in the two states is the same. -/
structure Follows (k : StreamKey) (s s₁ : TrackState) : Prop where
  agrees : Agrees k.streamId s.handler s₁.handler
  clients : SameClients s.relay s₁.relay
  hash : s₁.trackFullNameHash = s.trackFullNameHash

/-- A state of both streams, and of each of them alone. -/
structure Apart (k k' : StreamKey) (s s₁ s₂ : TrackState) : Prop where
  inv : s.Inv k
  inv' : s.Inv k'
  own : s₁.Inv k
  own' : s₂.Inv k'
  follows : Follows k s s₁
  follows' : Follows k' s s₂

theorem Apart.symm {s₁ s₂ : TrackState} (h : Apart k k' s s₁ s₂) : Apart k' k s s₂ s₁ :=
  ⟨h.inv', h.inv, h.own', h.own, h.follows', h.follows⟩

/-- The effect of a call depends on its stream alone. -/
theorem Follows.effect {s₁ : TrackState} (hfollows : Follows k s s₁) {c : StreamCall}
    (hkey : c.key = k) : Together k.streamId (s.effect m c) (s₁.effect m c) := by
  unfold TrackState.effect
  rw [hfollows.clients.hits]
  split
  · exact hfollows.agrees.call (by rw [StreamCall.streamId_delivered, hkey])
  · exact ⟨rfl, .inr ⟨_, _, rfl, rfl, hfollows.agrees⟩⟩

/-- A call of the stream does the same in both states. -/
theorem Follows.call {s₁ s₁' : TrackState} (hfollows : Follows k s s₁) (hinv : s.Inv k)
    (hinv₁ : s₁.Inv k) (hkey : e.call.key = k) (hhash : e.call.trackHash = s.trackFullNameHash)
    {out : List HandlerOut} (hcall : s₁.call m e = (some s₁', out)) :
    ∃ s', s.call m e = (some s', out) ∧ Onward s s' ∧ Follows k s' s₁' := by
  have hhash₁ : e.call.trackHash = s₁.trackFullNameHash := hhash.trans hfollows.hash.symm
  obtain ⟨heffect₁, honward₁⟩ := effect_of_call (hkey ▸ hinv₁) hhash₁ hcall
  obtain ⟨hout, hcases⟩ := hfollows.effect (m := m) hkey
  rw [heffect₁] at hout hcases
  obtain ⟨-, hnone⟩ | ⟨handler, handler₁, hsome, hsome₁, hagrees⟩ := hcases
  · cases hnone
  · obtain rfl : s₁'.handler = handler₁ := Option.some.inj hsome₁
    obtain ⟨s', hcall', rfl, honward⟩ := call_of_effect (m := m) (hkey ▸ hinv) hhash
      (Prod.ext hsome hout.symm)
    refine ⟨s', hcall', honward, hagrees, ?_, ?_⟩
    · exact (honward.clients.symm.trans hfollows.clients).trans honward₁.clients
    · exact honward₁.hash.trans (hfollows.hash.trans honward.hash.symm)

/-- A call of the first stream: both streams together do what the first does alone. -/
theorem Apart.call {s₁ s₂ s₁' : TrackState} (h : Apart k k' s s₁ s₂)
    (hne : k.streamId ≠ k'.streamId) (hkey : e.call.key = k)
    (hhash : e.call.trackHash = s.trackFullNameHash) {out : List HandlerOut}
    (hcall : s₁.call m e = (some s₁', out)) :
    ∃ s', s.call m e = (some s', out) ∧ Apart k k' s' s₁' s₂ := by
  have hhash₁ : e.call.trackHash = s₁.trackFullNameHash := hhash.trans h.follows.hash.symm
  obtain ⟨s', hcall', honward, hfollows⟩ := h.follows.call h.inv h.own hkey hhash hcall
  obtain ⟨hinv', hother⟩ := h.inv'.call_other h.inv hne.symm hkey hhash hcall'
  refine ⟨s', hcall', h.inv.call_own hkey hhash hcall', hinv', h.own.call_own hkey hhash₁ hcall,
    h.own', hfollows, ?_, ?_, ?_⟩
  · exact hother.symm.trans h.follows'.agrees
  · exact honward.clients.symm.trans h.follows'.clients
  · exact h.follows'.hash.trans honward.hash.symm

theorem run_cons_of_some {out : List HandlerOut} (hcall : s.call m e = (some s', out))
    (es : List PeerEvent) :
    s.run m (e :: es) = ((s'.run m es).1, (e.call.key, out) :: (s'.run m es).2) := by
  rw [run, hcall]

/-- A run that does not throw goes on after its first call. -/
theorem run_isSome_cons {es : List PeerEvent} (hrun : (s.run m (e :: es)).1.isSome = true) :
    ∃ s' out, s.call m e = (some s', out) ∧ (s'.run m es).1.isSome = true := by
  obtain ⟨s'?, out, hcall⟩ : ∃ s'? out, s.call m e = (s'?, out) := ⟨_, _, rfl⟩
  cases s'? with
  | none =>
    rw [run, hcall] at hrun
    cases hrun
  | some s' =>
    rw [run_cons_of_some hcall] at hrun
    exact ⟨s', out, hcall, hrun⟩

end TrackState

theorem reportedFor_cons (k k' : StreamKey) (out : List HandlerOut)
    (outs : List (StreamKey × List HandlerOut)) :
    reportedFor k ((k', out) :: outs) =
      (if k' = k then out.filter isReport else []) ++ reportedFor k outs := by
  unfold reportedFor
  rw [List.filter_cons]
  by_cases h : k' = k
  · simp [h]
  · simp [h]

theorem eventsOf_cons_self {k : StreamKey} {e : PeerEvent} (hkey : e.call.key = k)
    (es : List PeerEvent) : eventsOf k (e :: es) = e :: eventsOf k es :=
  List.filter_cons_of_pos (by simpa using hkey)

theorem eventsOf_cons_of_ne {k : StreamKey} {e : PeerEvent} (hkey : e.call.key ≠ k)
    (es : List PeerEvent) : eventsOf k (e :: es) = eventsOf k es :=
  List.filter_cons_of_neg (by simpa using hkey)

section Run

variable {m : Moqt} {k k' : StreamKey}

/-- What is reported for each of two streams that do not throw. -/
theorem TrackState.run_reported (hne : k.streamId ≠ k'.streamId) (hash : UInt64)
    {es : List PeerEvent} (hkeys : ∀ e ∈ es, e.call.key = k ∨ e.call.key = k')
    (hhash : ∀ e ∈ es, e.call.trackHash = hash) :
    ∀ s s₁ s₂ : TrackState, s.trackFullNameHash = hash → Apart k k' s s₁ s₂ →
      (s₁.run m (eventsOf k es)).1.isSome = true → (s₂.run m (eventsOf k' es)).1.isSome = true →
      reportedFor k (s.run m es).2 = reportedFor k (s₁.run m (eventsOf k es)).2 ∧
        reportedFor k' (s.run m es).2 = reportedFor k' (s₂.run m (eventsOf k' es)).2 := by
  induction es with
  | nil =>
    intro s s₁ s₂ _ _ _ _
    exact ⟨rfl, rfl⟩
  | cons e es ih =>
    intro s s₁ s₂ hs hapart hrun hrun'
    have hkeyne : k ≠ k' := fun h => hne (congrArg StreamKey.streamId h)
    have ih := ih (fun e he => hkeys e (List.mem_cons_of_mem _ he))
      fun e he => hhash e (List.mem_cons_of_mem _ he)
    have hhash' : e.call.trackHash = s.trackFullNameHash :=
      (hhash e List.mem_cons_self).trans hs.symm
    obtain hkey | hkey := hkeys e List.mem_cons_self
    · have hother : e.call.key ≠ k' := hkey ▸ hkeyne
      rw [eventsOf_cons_self hkey] at hrun ⊢
      rw [eventsOf_cons_of_ne hother] at hrun' ⊢
      obtain ⟨s₁', out, hcall₁, hrest⟩ := run_isSome_cons hrun
      obtain ⟨s', hcall, hapart'⟩ := hapart.call hne hkey hhash' hcall₁
      have hs' : s'.trackFullNameHash = hash :=
        (hapart'.follows'.hash.symm.trans hapart.follows'.hash).trans hs
      obtain ⟨hk, hk'⟩ := ih _ _ _ hs' hapart' hrest hrun'
      rw [run_cons_of_some hcall, run_cons_of_some hcall₁, reportedFor_cons, reportedFor_cons,
        reportedFor_cons, hk, hk', if_neg hother]
      exact ⟨rfl, rfl⟩
    · have hother : e.call.key ≠ k := hkey ▸ hkeyne.symm
      rw [eventsOf_cons_of_ne hother] at hrun ⊢
      rw [eventsOf_cons_self hkey] at hrun' ⊢
      obtain ⟨s₂', out, hcall₂, hrest⟩ := run_isSome_cons hrun'
      obtain ⟨s', hcall, hapart'⟩ := hapart.symm.call hne.symm hkey hhash' hcall₂
      have hs' : s'.trackFullNameHash = hash :=
        (hapart'.follows'.hash.symm.trans hapart.follows.hash).trans hs
      obtain ⟨hk, hk'⟩ := ih _ _ _ hs' hapart'.symm hrun hrest
      rw [run_cons_of_some hcall, run_cons_of_some hcall₂, reportedFor_cons, reportedFor_cons,
        reportedFor_cons, hk, hk', if_neg hother]
      exact ⟨rfl, rfl⟩

/-! ### A stream alone -/

/-- The handler can go on with the stream, when its data is for this relay. -/
def TrackState.CanGoOn (k : StreamKey) (s : TrackState) : Prop :=
  ∀ c : StreamCall, c.key = k → c.trackHash = s.trackFullNameHash → c.isClose = false →
    s.relay.hits c = true → Ready s.handler k.streamId

/-- Whether data is for this relay is the same for all calls of the stream. -/
theorem TrackState.canGoOn_of_ready {s s' : TrackState} {c : StreamCall} (hkey : c.key = k)
    (hhash : c.trackHash = s.trackFullNameHash) (hdata : c.isClose = false)
    (hsame : s'.trackFullNameHash = s.trackFullNameHash) (hclients : SameClients s.relay s'.relay)
    (hready : s.relay.hits c = true → Ready s'.handler k.streamId) : s'.CanGoOn k := by
  intro c' hkey' hhash' hdata' hhits
  rw [hclients.hits, hits_iff_of_data hdata', hkey', hhash', hsame] at hhits
  apply hready
  rw [hits_iff_of_data hdata, hkey, hhash]
  exact hhits

theorem TrackState.run_isSome_of_effect {s : TrackState} {e : PeerEvent} (hs : s.Inv k)
    (hkey : e.call.key = k) (hhash : e.call.trackHash = s.trackFullNameHash)
    {handler : StreamHandler} {out : List HandlerOut}
    (heffect : s.effect m e.call = (some handler, out)) {es : List PeerEvent}
    (hrest : ∀ s' : TrackState, s'.Inv k → s'.trackFullNameHash = s.trackFullNameHash →
      SameClients s.relay s'.relay → s'.handler = handler → (s'.run m es).1.isSome = true) :
    (s.run m (e :: es)).1.isSome = true := by
  obtain ⟨s', hcall, hhandler, honward⟩ := call_of_effect (hkey ▸ hs) hhash heffect
  rw [run_cons_of_some hcall]
  exact hrest s' (hs.call_own hkey hhash hcall) honward.hash honward.clients hhandler

theorem TrackState.run_closes {es : List PeerEvent} (hclose : ∀ e ∈ es, e.call.isClose = true)
    (hkeys : ∀ e ∈ es, e.call.key = k) :
    ∀ s : TrackState, s.Inv k → (∀ e ∈ es, e.call.trackHash = s.trackFullNameHash) →
      (s.run m es).1.isSome = true := by
  induction es with
  | nil =>
    intro s _ _
    rfl
  | cons e es ih =>
    intro s hs hhash
    have heffect : ∃ handler out, s.effect m e.call = (some handler, out) := by
      unfold effect
      split
      · cases hcall : e.call with
        | start =>
          have := hclose e List.mem_cons_self
          rw [hcall] at this
          cases this
        | more =>
          have := hclose e List.mem_cons_self
          rw [hcall] at this
          cases this
        | close => exact ⟨_, _, rfl⟩
      · exact ⟨_, _, rfl⟩
    obtain ⟨handler, out, heffect⟩ := heffect
    refine run_isSome_of_effect hs (hkeys e List.mem_cons_self) (hhash e List.mem_cons_self)
      heffect fun s' hs' hsame _ _ => ?_
    refine ih (fun e he => hclose e (List.mem_cons_of_mem _ he))
      (fun e he => hkeys e (List.mem_cons_of_mem _ he)) s' hs' fun e he => ?_
    rw [hsame]
    exact hhash e (List.mem_cons_of_mem _ he)

/-- Data of a stream that the handler can go on with. -/
theorem TrackState.run_mores {mores closes : List PeerEvent}
    (hmore : ∀ e ∈ mores, e.call.isMore = true) (hclose : ∀ e ∈ closes, e.call.isClose = true)
    (hkeys : ∀ e ∈ mores ++ closes, e.call.key = k) :
    ∀ s : TrackState, s.Inv k → (∀ e ∈ mores ++ closes, e.call.trackHash = s.trackFullNameHash) →
      s.CanGoOn k → (s.run m (mores ++ closes)).1.isSome = true := by
  induction mores with
  | nil =>
    intro s hs hhash _
    exact run_closes hclose hkeys s hs hhash
  | cons e mores ih =>
    intro s hs hhash hgo
    have hkey := hkeys e List.mem_cons_self
    have hhashe := hhash e List.mem_cons_self
    have heffect : ∃ handler out, s.effect m e.call = (some handler, out) ∧
        (s.relay.hits e.call = true → Ready handler k.streamId) := by
      unfold effect
      cases hcall : e.call with
      | start =>
        have := hmore e List.mem_cons_self
        rw [hcall] at this
        cases this
      | close =>
        have := hmore e List.mem_cons_self
        rw [hcall] at this
        cases this
      | more ingress streamId header data =>
        rw [hcall] at hkey hhashe
        split
        · rename_i hhits
          have hready := hgo _ hkey hhashe rfl hhits
          obtain ⟨handler, out, hrecv, hready'⟩ := hready.streamDataRecv (m := m) data
          have hid : k.streamId = streamId := congrArg StreamKey.streamId hkey.symm
          rw [hid] at hrecv
          exact ⟨handler, out, hrecv, fun _ => hready'⟩
        · rename_i hhits
          exact ⟨_, _, rfl, fun h => absurd h hhits⟩
    obtain ⟨handler, out, heffect, hready⟩ := heffect
    refine run_isSome_of_effect hs hkey hhashe heffect fun s' hs' hsame hclients hhandler => ?_
    refine ih (fun e he => hmore e (List.mem_cons_of_mem _ he))
      (fun e he => hkeys e (List.mem_cons_of_mem _ he)) s' hs' (fun e he => ?_) ?_
    · rw [hsame]
      exact hhash e (List.mem_cons_of_mem _ he)
    · have hdata := StreamCall.isClose_of_isMore (hmore e List.mem_cons_self)
      exact canGoOn_of_ready hkey hhashe hdata hsame hclients (hhandler ▸ hready)

/-- A stream that starts with its whole header does not throw. -/
theorem TrackState.run_isSome {es : List PeerEvent} (horder : StreamOrder m (es.map PeerEvent.call))
    (hkeys : ∀ e ∈ es, e.call.key = k) {s : TrackState} (hs : s.Inv k)
    (hhash : ∀ e ∈ es, e.call.trackHash = s.trackFullNameHash)
    (htrack : s.handler.trackAlias.isSome = true) : (s.run m es).1.isSome = true := by
  obtain hnil | ⟨first, mores, closes, hcalls, hstart, hmore, hclose⟩ := horder
  · rw [List.map_eq_nil_iff.mp hnil]
    rfl
  · obtain ⟨e, rest, rfl, rfl, hrest⟩ := List.map_eq_cons_iff.mp hcalls
    obtain ⟨mores, closes, rfl, rfl, rfl⟩ := List.map_eq_append_iff.mp hrest
    have hkey := hkeys e List.mem_cons_self
    have hhashe := hhash e List.mem_cons_self
    have heffect : ∃ handler out, s.effect m e.call = (some handler, out) ∧
        (s.relay.hits e.call = true → Ready handler k.streamId) := by
      unfold effect
      cases hcall : e.call with
      | more => rw [hcall] at hstart; exact hstart.elim
      | close => rw [hcall] at hstart; exact hstart.elim
      | start createStream ingress streamId header payload =>
        rw [hcall] at hstart hkey
        obtain ⟨header', after, hread, hparsable⟩ := hstart
        have hid : k.streamId = streamId := congrArg StreamKey.streamId hkey.symm
        split
        · obtain ⟨handler, out, hrecv, hready⟩ :=
            streamDataRecv_start streamId htrack hread hparsable
          rw [hid]
          exact ⟨handler, out, hrecv, fun _ => hready⟩
        · rename_i hhits
          exact ⟨_, _, rfl, fun h => absurd h hhits⟩
    obtain ⟨handler, out, heffect, hready⟩ := heffect
    refine run_isSome_of_effect hs hkey hhashe heffect fun s' hs' hsame hclients hhandler => ?_
    refine run_mores (fun e he => hmore _ (List.mem_map_of_mem he))
      (fun e he => hclose _ (List.mem_map_of_mem he))
      (fun e he => hkeys e (List.mem_cons_of_mem _ he)) s' hs' (fun e he => ?_) ?_
    · rw [hsame]
      exact hhash e (List.mem_cons_of_mem _ he)
    · have hdata := StreamCall.isClose_of_startsWhole hstart
      exact canGoOn_of_ready hkey hhashe hdata hsame hclients (hhandler ▸ hready)

/-! ### One stream after the other -/

/-- All calls of the first stream come before the second, and the last of them closes it. -/
def OneByOne (k k' : StreamKey) (es : List PeerEvent) : Prop :=
  ∃ before close after, es = before ++ close :: after ∧ (∀ e ∈ before, e.call.key = k) ∧
    close.call.key = k ∧ close.call.isClose = true ∧ ∀ e ∈ after, e.call.key = k'

namespace TrackState

theorem run_append {s s' : TrackState} {before : List PeerEvent}
    {outs : List (StreamKey × List HandlerOut)} (hrun : s.run m before = (some s', outs))
    (after : List PeerEvent) :
    s.run m (before ++ after) = ((s'.run m after).1, outs ++ (s'.run m after).2) := by
  induction before generalizing s outs with
  | nil =>
    cases hrun
    rfl
  | cons e before ih =>
    have hsome : (s.run m (e :: before)).1.isSome = true := by rw [hrun]; rfl
    obtain ⟨s₁, out, hcall, -⟩ := run_isSome_cons hsome
    rw [run_cons_of_some hcall, Prod.mk.injEq] at hrun
    obtain ⟨hrest, rfl⟩ := hrun
    rw [List.cons_append, run_cons_of_some hcall, ih (Prod.ext hrest rfl)]
    rfl

theorem run_isSome_append {s : TrackState} {before after : List PeerEvent}
    (hrun : (s.run m (before ++ after)).1.isSome = true) :
    ∃ s' outs, s.run m before = (some s', outs) ∧ (s'.run m after).1.isSome = true := by
  induction before generalizing s with
  | nil => exact ⟨s, [], rfl, hrun⟩
  | cons e before ih =>
    obtain ⟨s₁, out, hcall, hrest⟩ := run_isSome_cons hrun
    obtain ⟨s', outs, hbefore, hafter⟩ := ih hrest
    refine ⟨s', (e.call.key, out) :: outs, ?_, hafter⟩
    rw [run_cons_of_some hcall, hbefore]

/-- What a run for the stream keeps of the track. -/
theorem Inv.run {s s' : TrackState} (hs : s.Inv k) {es : List PeerEvent}
    (hkeys : ∀ e ∈ es, e.call.key = k)
    (hhash : ∀ e ∈ es, e.call.trackHash = s.trackFullNameHash)
    (hrun : (s.run m es).1 = some s') :
    s'.Inv k ∧ Onward s s' ∧ SameTrack s.handler s'.handler := by
  induction es generalizing s with
  | nil =>
    cases hrun
    exact ⟨hs, ⟨rfl, .refl _, hs.alive⟩, .refl _⟩
  | cons e es ih =>
    have hkey := hkeys e List.mem_cons_self
    have hhashe := hhash e List.mem_cons_self
    have hsome : (s.run m (e :: es)).1.isSome = true := by rw [hrun]; rfl
    obtain ⟨s₁, out, hcall, -⟩ := run_isSome_cons hsome
    rw [run_cons_of_some hcall] at hrun
    obtain ⟨heffect, honward⟩ := effect_of_call (hkey ▸ hs) hhashe hcall
    have hsame : SameTrack s.handler s₁.handler := by
      unfold effect at heffect
      split at heffect
      · exact sameTrack_call (congrArg Prod.fst heffect)
      · rw [Prod.mk.injEq, Option.some.injEq] at heffect
        rw [← heffect.1]
        exact .refl _
    obtain ⟨hs', honward', hsame'⟩ := ih (hs.call_own hkey hhashe hcall)
      (fun e he => hkeys e (List.mem_cons_of_mem _ he))
      (fun e he => (hhash e (List.mem_cons_of_mem _ he)).trans honward.hash.symm) hrun
    exact ⟨hs', ⟨honward'.hash.trans honward.hash, honward.clients.trans honward'.clients,
      honward'.alive⟩, hsame.trans hsame'⟩

/-- After its close the handler has nothing of a stream. -/
theorem streams_of_close {s s' : TrackState} {e : PeerEvent} (hs : s.Inv k)
    (hkey : e.call.key = k) (hhash : e.call.trackHash = s.trackFullNameHash)
    (hclose : e.call.isClose = true) {out : List HandlerOut}
    (hcall : s.call m e = (some s', out)) : s'.handler.streams[k.streamId]? = none := by
  subst hkey
  obtain ⟨heffect, -⟩ := effect_of_call hs hhash hcall
  unfold effect at heffect
  split at heffect
  · cases hc : e.call with
    | start => rw [hc] at hclose; cases hclose
    | more => rw [hc] at hclose; cases hclose
    | close ingress snsId streamId trackFullNameHash reset =>
      rw [hc] at heffect
      have hhandler : (s.handler.streamClosed streamId reset).1 = s'.handler :=
        Option.some.inj (congrArg Prod.fst heffect)
      rw [← hhandler]
      exact streams_streamClosed reset
  · rename_i hmiss
    rw [Prod.mk.injEq, Option.some.injEq] at heffect
    rw [← heffect.1]
    rw [hits_of_close hclose, Bool.not_eq_true] at hmiss
    exact hs.idle hmiss

/-- The same stream from two states. -/
theorem Follows.run {es : List PeerEvent} (hkeys : ∀ e ∈ es, e.call.key = k) :
    ∀ {s s₁ : TrackState}, Follows k s s₁ → s.Inv k → s₁.Inv k →
      (∀ e ∈ es, e.call.trackHash = s.trackFullNameHash) → (s₁.run m es).1.isSome = true →
      (s.run m es).2 = (s₁.run m es).2 := by
  induction es with
  | nil =>
    intro s s₁ _ _ _ _ _
    rfl
  | cons e es ih =>
    intro s s₁ hfollows hs hs₁ hhash hrun
    have hkey := hkeys e List.mem_cons_self
    have hhashe := hhash e List.mem_cons_self
    obtain ⟨s₁', out, hcall₁, hrest⟩ := run_isSome_cons hrun
    obtain ⟨s', hcall, honward, hfollows'⟩ := hfollows.call hs hs₁ hkey hhashe hcall₁
    rw [run_cons_of_some hcall, run_cons_of_some hcall₁,
      ih (fun e he => hkeys e (List.mem_cons_of_mem _ he)) hfollows'
        (hs.call_own hkey hhashe hcall)
        (hs₁.call_own hkey (hhashe.trans hfollows.hash.symm) hcall₁)
        (fun e he => (hhash e (List.mem_cons_of_mem _ he)).trans honward.hash.symm) hrest]

end TrackState

theorem reportedFor_append (k : StreamKey) (outs outs' : List (StreamKey × List HandlerOut)) :
    reportedFor k (outs ++ outs') = reportedFor k outs ++ reportedFor k outs' := by
  unfold reportedFor
  rw [List.filter_append, List.flatMap_append]

/-- Calls of another stream report nothing for the stream. -/
theorem reportedFor_run_of_ne {k k' : StreamKey} (hne : k' ≠ k) {es : List PeerEvent}
    (hkeys : ∀ e ∈ es, e.call.key = k') (s : TrackState) : reportedFor k (s.run m es).2 = [] := by
  induction es generalizing s with
  | nil => rfl
  | cons e es ih =>
    have hother : e.call.key ≠ k := hkeys e List.mem_cons_self ▸ hne
    rw [TrackState.run]
    split
    · rw [reportedFor_cons, if_neg hother]
      rfl
    · dsimp only
      rw [reportedFor_cons, if_neg hother, ih fun e he => hkeys e (List.mem_cons_of_mem _ he)]
      rfl

theorem eventsOf_eq_self {k : StreamKey} {es : List PeerEvent} (hkeys : ∀ e ∈ es, e.call.key = k) :
    eventsOf k es = es :=
  List.filter_eq_self.mpr fun e he => decide_eq_true (hkeys e he)

theorem eventsOf_eq_nil {k k' : StreamKey} (hne : k' ≠ k) {es : List PeerEvent}
    (hkeys : ∀ e ∈ es, e.call.key = k') : eventsOf k es = [] :=
  List.filter_eq_nil_iff.mpr fun e he => by simp [hkeys e he, hne]

/-- The second stream finds the handler as the first one did. -/
theorem TrackState.run_oneByOne {s : TrackState} {es : List PeerEvent} (hne : k ≠ k')
    (hid : k.streamId = k'.streamId) (hs : s.Inv k) (hs' : s.Inv k')
    (hnew : s.handler.streams[k.streamId]? = none) (hbyone : OneByOne k k' es)
    (hhash : ∀ e ∈ es, e.call.trackHash = s.trackFullNameHash)
    (hrun : (s.run m (eventsOf k es)).1.isSome = true)
    (hrun' : (s.run m (eventsOf k' es)).1.isSome = true) :
    reportedFor k (s.run m es).2 = reportedFor k (s.run m (eventsOf k es)).2 ∧
      reportedFor k' (s.run m es).2 = reportedFor k' (s.run m (eventsOf k' es)).2 := by
  obtain ⟨before, close, after, rfl, hbefore, hkey, hclose, hafter⟩ := hbyone
  have hfirst : ∀ e ∈ before ++ [close], e.call.key = k := by
    intro e he
    obtain he | he := List.mem_append.mp he
    · exact hbefore e he
    · rw [List.mem_singleton.mp he]
      exact hkey
  rw [List.append_cons] at hhash hrun hrun' ⊢
  have hevents : eventsOf k (before ++ [close] ++ after) = before ++ [close] := by
    rw [eventsOf, List.filter_append]
    exact congrArg₂ _ (eventsOf_eq_self hfirst) (eventsOf_eq_nil hne.symm hafter) |>.trans
      (List.append_nil _)
  have hevents' : eventsOf k' (before ++ [close] ++ after) = after := by
    rw [eventsOf, List.filter_append]
    exact congrArg₂ _ (eventsOf_eq_nil hne hfirst) (eventsOf_eq_self hafter)
  rw [hevents] at hrun ⊢
  rw [hevents'] at hrun' ⊢
  -- The state before the close, and the state after it.
  obtain ⟨s₀, outs₀, hrun₀, hlast⟩ := run_isSome_append hrun
  obtain ⟨s₁, out, hcall, -⟩ := run_isSome_cons hlast
  have hmem : ∀ e ∈ before, e.call.trackHash = s.trackFullNameHash := fun e he =>
    hhash e (by simp [he])
  obtain ⟨hs₀, honward₀, -⟩ := hs.run hbefore hmem (congrArg Prod.fst hrun₀)
  have hhash₀ : close.call.trackHash = s₀.trackFullNameHash :=
    (hhash close (by simp)).trans honward₀.hash.symm
  have hgone := streams_of_close hs₀ hkey hhash₀ hclose hcall
  obtain ⟨outs, hrun₁⟩ : ∃ outs, s.run m (before ++ [close]) = (some s₁, outs) := by
    rw [run_append hrun₀, run_cons_of_some hcall]
    exact ⟨_, rfl⟩
  obtain ⟨hs₁, honward₁, hsame₁⟩ := hs.run hfirst
    (fun e he => hhash e (List.mem_append_left _ he)) (congrArg Prod.fst hrun₁)
  rw [hid] at hgone hnew
  have hfollows : Follows k' s₁ s :=
    ⟨⟨hsame₁.symm, by rw [hnew, hgone]⟩, honward₁.clients.symm, honward₁.hash.symm⟩
  have hsecond := hfollows.run (m := m) hafter ⟨hs₁.alive, hs₁.keys, fun _ => hgone⟩ hs'
    (fun e he => (hhash e (by simp [he])).trans honward₁.hash.symm) hrun'
  have hnothing := reportedFor_run_of_ne (m := m) hne hfirst s
  rw [hrun₁] at hnothing
  rw [run_append hrun₁, hrun₁]
  constructor
  · show reportedFor k (outs ++ _) = reportedFor k outs
    rw [reportedFor_append, reportedFor_run_of_ne hne.symm hafter, List.append_nil]
  · show reportedFor k' (outs ++ _) = _
    rw [reportedFor_append, hnothing, hsecond, List.nil_append]

/-- Two streams of a track over different sessions, that have different ids or come one after the
other: for each of them is reported what is reported when it is delivered alone, however their calls
mix. -/
theorem streams_apart (m : Moqt) (s : TrackState) (k k' : StreamKey)
    (hsessions : k.ingress ≠ k'.ingress) (halive : EgressAlive s.relay) (howns : OwnKeys s.relay)
    (htrack : s.handler.trackAlias.isSome = true)
    (hnew : s.handler.streams[k.streamId]? = none) (hnew' : s.handler.streams[k'.streamId]? = none)
    (es : List PeerEvent) (hkeys : ∀ e ∈ es, e.call.key = k ∨ e.call.key = k')
    (hhash : ∀ e ∈ es, e.call.trackHash = s.trackFullNameHash)
    (horder : StreamOrder m ((eventsOf k es).map PeerEvent.call))
    (horder' : StreamOrder m ((eventsOf k' es).map PeerEvent.call))
    (hapart : k.streamId ≠ k'.streamId ∨ OneByOne k k' es ∨ OneByOne k' k es) :
    reportedFor k (s.run m es).2 = reportedFor k (s.run m (eventsOf k es)).2 ∧
      reportedFor k' (s.run m es).2 = reportedFor k' (s.run m (eventsOf k' es)).2 := by
  have hinv : s.Inv k := ⟨halive, howns, fun _ => hnew⟩
  have hinv' : s.Inv k' := ⟨halive, howns, fun _ => hnew'⟩
  have hof : ∀ k₀ : StreamKey, ∀ e ∈ eventsOf k₀ es, e ∈ es ∧ e.call.key = k₀ := by
    intro k₀ e he
    obtain ⟨hmem, hkey⟩ := List.mem_filter.mp he
    exact ⟨hmem, of_decide_eq_true hkey⟩
  have hrun : (s.run m (eventsOf k es)).1.isSome = true :=
    TrackState.run_isSome horder (fun e he => (hof k e he).2) hinv
      (fun e he => hhash e (hof k e he).1) htrack
  have hrun' : (s.run m (eventsOf k' es)).1.isSome = true :=
    TrackState.run_isSome horder' (fun e he => (hof k' e he).2) hinv'
      (fun e he => hhash e (hof k' e he).1) htrack
  have hne : k ≠ k' := fun h => hsessions (congrArg StreamKey.ingress h)
  by_cases hid : k.streamId = k'.streamId
  · obtain hids | hbyone | hbyone := hapart
    · exact absurd hid hids
    · exact TrackState.run_oneByOne hne hid hinv hinv' hnew hbyone hhash hrun hrun'
    · exact (TrackState.run_oneByOne hne.symm hid.symm hinv' hinv hnew' hbyone hhash hrun'
        hrun).symm
  · have hself : ∀ k₀ : StreamKey, TrackState.Follows k₀ s s := fun k₀ =>
      ⟨.refl _ _, .refl _, rfl⟩
    exact TrackState.run_reported hid _ hkeys hhash s s s rfl
      ⟨hinv, hinv', hinv, hinv', hself k, hself k'⟩ hrun hrun'

end Run

/-- A subscribe of this relay's clients. -/
def clientInterest : SubscribeInfo where
  sourceNodeId := 1
  trackHash := ⟨1, 2, 40⟩

/-- The rows of two sessions, each with an entry for this relay. -/
def twoRows : ExtTreeMap (PeerSessionId × SubscribeNodeSetId) (ExtTreeMap PeerSessionId FibEntry) :=
  let row := (∅ : ExtTreeMap PeerSessionId FibEntry).insert 0 {}
  ((∅ : ExtTreeMap (PeerSessionId × SubscribeNodeSetId)
    (ExtTreeMap PeerSessionId FibEntry)).insert (1, 5) row).insert (2, 6) row

/-- A relay whose clients subscribe to a track that comes over two sessions. -/
def twoSources : TrackState where
  relay :=
    { nodeId := 1
      infoBase :=
        { subscribes := (∅ : ExtTreeMap UInt64 (ExtTreeMap NodeIdValueType SubscribeInfo)).insert 40
            ((∅ : ExtTreeMap NodeIdValueType SubscribeInfo).insert 1 clientInterest)
          peerFib := twoRows } }
  trackFullNameHash := 40
  handler := { trackAlias := some 40, subscribers := {3} }

/-- Streams over both sessions, with an object each, that come at the same time. -/
def mixed (streamId streamId' : UInt64) : List PeerEvent :=
  [event (.start (fun _ _ => 100) 1 streamId { snsId := 5, trackFullNameHash := 40 }
      [0x14, 7, 3, 5, 128, 0, 2, 1]),
    event (.start (fun _ _ => 100) 2 streamId' { snsId := 6, trackFullNameHash := 40 }
      [0x14, 7, 4, 5, 128, 0, 1]),
    event (.more 1 streamId { snsId := 5, trackFullNameHash := 40 } [2]),
    event (.more 2 streamId' { snsId := 6, trackFullNameHash := 40 } [9]),
    event (.close 1 5 streamId 40 false), event (.close 2 6 streamId' 40 false)]

theorem egressAlive_twoSources : EgressAlive twoSources.relay := by
  intro key row hrow egress entry hentry hzero
  have hself : row = (∅ : ExtTreeMap PeerSessionId FibEntry).insert 0 {} := by
    simp only [twoSources, twoRows, ExtTreeMap.getElem?_insert_ite] at hrow
    split at hrow
    · exact (Option.some.inj hrow).symm
    · split at hrow
      · exact (Option.some.inj hrow).symm
      · simp at hrow
  rw [hself, ExtTreeMap.getElem?_insert_ite, if_neg hzero] at hentry
  simp at hentry

theorem ownKeys_twoSources : OwnKeys twoSources.relay := by
  intro hash node si hget
  obtain ⟨row, hrow, hsi⟩ := ExtTreeMap.get₂?_eq_some.mp hget
  simp only [twoSources, ExtTreeMap.getElem?_insert_ite] at hrow
  split at hrow
  · rename_i hhash
    cases hrow
    rw [ExtTreeMap.getElem?_insert_ite] at hsi
    split at hsi
    · rename_i hnode
      cases hsi
      exact ⟨hhash.symm, hnode.symm⟩
    · simp at hsi
  · simp at hrow

theorem streams_apart_mixed :
    reportedFor ⟨1, 5, 8⟩ (twoSources.run plain (mixed 8 12)).2 =
        reportedFor ⟨1, 5, 8⟩ (twoSources.run plain (eventsOf ⟨1, 5, 8⟩ (mixed 8 12))).2 ∧
      reportedFor ⟨2, 6, 12⟩ (twoSources.run plain (mixed 8 12)).2 =
        reportedFor ⟨2, 6, 12⟩ (twoSources.run plain (eventsOf ⟨2, 6, 12⟩ (mixed 8 12))).2 := by
  refine streams_apart plain twoSources ⟨1, 5, 8⟩ ⟨2, 6, 12⟩ (by decide) egressAlive_twoSources
    ownKeys_twoSources rfl (by simp [twoSources]) (by simp [twoSources]) (mixed 8 12) ?_ ?_ ?_ ?_
    (.inl (by decide))
  · decide +kernel
  · decide +kernel
  · exact .inr ⟨_, [_], [_], rfl, ⟨_, _, rfl, rfl, rfl⟩, by decide +kernel, by decide +kernel⟩
  · exact .inr ⟨_, [_], [_], rfl, ⟨_, _, rfl, rfl, rfl⟩, by decide +kernel, by decide +kernel⟩

/-- The same id on both sessions: the bytes of the two streams go into one buffer. -/
theorem not_streams_apart :
    reportedFor ⟨1, 5, 8⟩ (twoSources.run plain (mixed 8 8)).2 ≠
      reportedFor ⟨1, 5, 8⟩ (twoSources.run plain (eventsOf ⟨1, 5, 8⟩ (mixed 8 8))).2 := by
  decide +kernel

end Laps.Relay
