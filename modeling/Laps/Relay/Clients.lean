import Laps.Delivery.Ends
import Laps.Relay.PeerStreams

/-! The peer manager with the handlers that it calls for the clients of this relay.  What a handler
hands back goes to the sessions, and the subgroups that it ends are closed there, before the call
returns. -/

namespace Laps.Relay

open Std Client Delivery Peering

/-- What data that a handler hands back go out with. -/
structure HandlerEnv where
  createStream : CreateStream
  priority : UInt8
  ttl : UInt32

/-- A call, and what data that the handler hands back goes out with. -/
structure PeerEvent where
  call : StreamCall
  createStream : CreateStream
  priority : UInt8
  ttl : UInt32

def PeerEvent.env (e : PeerEvent) : HandlerEnv := ⟨e.createStream, e.priority, e.ttl⟩

/-- What a handler hands back of data goes to the sessions. -/
def sendBack (env : HandlerEnv) : Relay → List HandlerOut → Relay × List DataSent
  | r, [] => (r, [])
  | r, .clientData trackFullNameHash type groupId subgroupId data :: out =>
    let (r, sent) := r.clientDataRecv env.createStream
      { trackFullNameHash, priority := env.priority, ttl := env.ttl, type, groupId, subgroupId
        data }
    let (r, rest) := sendBack env r out
    (r, sent ++ rest)
  | r, _ :: out => sendBack env r out

/-- The peer manager, and the handlers of the tracks that come from other relays, by the full name
hash. -/
structure ClientRelay where
  relay : Relay
  handlers : ExtTreeMap UInt64 StreamHandler := ∅
  /-- The aliases of the publish handlers that the handler of a track tells of the end of a subgroup:
  those of the subscribers, and of the tracks that are published to the namespace subscribers. -/
  publishAliases : UInt64 → List UInt64 := fun _ => []

/-- What data of another relay make: what becomes of them, and what the handler of a track sends on
of them. -/
inductive PeerOut where
  | forwarded (out : Forwarded)
  | handedBack (sent : DataSent)
  deriving DecidableEq, Repr

namespace ClientRelay

/-! ### Data -/

/-- `PeerDataReceived`, for the data of a stream.  No state where the handler throws: what was sent
before stays. -/
def peerDataReceived (m : Moqt) (env : HandlerEnv) (n : ClientRelay) (trackFullNameHash : UInt64)
    (isNewStream : Bool) (streamId : UInt64) (data : List UInt8) :
    Option ClientRelay × List DataSent :=
  match n.handlers[trackFullNameHash]? with
  | none => (some n, [])
  | some handler =>
    let (handler, out) := handler.streamDataRecv m isNewStream streamId data
    let (relay, sent) := n.relay.sendBack env out
    (handler.map fun handler =>
      { n with relay, handlers := n.handlers.insert trackFullNameHash handler }, sent)

/-- Data for the clients are taken by the handler on the spot; a datagram is not followed there. -/
def handOver (m : Moqt) (env : HandlerEnv) (n : ClientRelay) :
    Forwarded → Option ClientRelay × List PeerOut
  | .clients trackFullNameHash isNewStream (some streamId) data =>
    let (n, sent) := n.peerDataReceived m env trackFullNameHash isNewStream streamId data
    (n, .forwarded (.clients trackFullNameHash isNewStream (some streamId) data) ::
      sent.map .handedBack)
  | out => (some n, [.forwarded out])

/-- What the loop makes of an entry.  An exception of a handler leaves the loop. -/
def handOverAll (m : Moqt) (env : HandlerEnv) :
    ClientRelay → List Forwarded → Option ClientRelay × List PeerOut
  | n, [] => (some n, [])
  | n, o :: out =>
    match n.handOver m env o with
    | (none, made) => (none, made)
    | (some n, made) =>
      let (n, rest) := handOverAll m env n out
      (n, made ++ rest)

/-- The loop of `ForwardPeerData`, which an exception of a handler leaves.  `none` there, and where
the source calls through a null pointer. -/
def forwardLoop (m : Moqt) (env : HandlerEnv) (createStream : CreateStream)
    (ingress : PeerSessionId) (chunk : PeerChunk) :
    ClientRelay → List (PeerSessionId × FibEntry) → ExtTreeMap PeerSessionId FibEntry →
      List UInt8 → Option (ClientRelay × ExtTreeMap PeerSessionId FibEntry) × List PeerOut
  | n, [], row, _ => (some (n, row), [])
  | n, (egress, entry) :: entries, row, data =>
    match n.relay.forwardEntry createStream ingress chunk data egress entry with
    | none => (none, [])
    | some (entry, data, out) =>
      match n.handOverAll m env out with
      | (none, out) => (none, out)
      | (some n, out) =>
        let (result, rest) := forwardLoop m env createStream ingress chunk n entries
          (row.insert egress entry) data
        (result, out ++ rest)

def forwardPeerData (m : Moqt) (env : HandlerEnv) (n : ClientRelay) (createStream : CreateStream)
    (ingress : PeerSessionId) (chunk : PeerChunk) : Option ClientRelay × List PeerOut :=
  match n.relay.infoBase.peerFib[(ingress, chunk.header.snsId)]? with
  | none => (some n, [])
  | some row =>
    let (result, out) := n.forwardLoop m env createStream ingress chunk row.toList row chunk.data
    (result.map fun (n, row) =>
      { n with
        relay := n.relay.setPeerFib fun fib => fib.insert (ingress, chunk.header.snsId) row }, out)

/-! ### Closes -/

/-- The calls of `EndSubgroup` that the handler of a track makes at the close of a stream: its own,
when the peer manager is a subscriber, and those of the publish handlers. -/
def ends (n : ClientRelay) (trackFullNameHash streamId : UInt64) (reset : Bool) : List PeerEnd :=
  match n.handlers[trackFullNameHash]? with
  | none => []
  | some handler =>
    match handler.streams[streamId]? with
    | none => []
    | some stream =>
      ((if handler.subscribers.contains 0 then handler.trackAlias.toList else []) ++
        n.publishAliases trackFullNameHash).map
          (⟨·, stream.currentGroupId, stream.currentSubgroupId, reset⟩)

def peerStreamClosed (n : ClientRelay) (trackFullNameHash streamId : UInt64) (reset : Bool) :
    ClientRelay × List StreamClose :=
  match n.handlers[trackFullNameHash]? with
  | none => (n, [])
  | some handler =>
    let (relay, closes) := n.relay.endSubgroups (n.ends trackFullNameHash streamId reset)
    ({ n with
        relay
        handlers :=
          n.handlers.insert trackFullNameHash (handler.streamClosed streamId reset).1 },
      closes.map Prod.snd)

/-- Who is told of a close: the handlers are called on the spot. -/
def tell : ClientRelay → List StreamClose → ClientRelay × List StreamClose
  | n, [] => (n, [])
  | n, .clients trackFullNameHash streamId reset :: out =>
    let (n, closes) := n.peerStreamClosed trackFullNameHash streamId reset
    let (n, rest) := tell n out
    (n, .clients trackFullNameHash streamId reset :: closes ++ rest)
  | n, close :: out =>
    let (n, rest) := tell n out
    (n, close :: rest)

/-- The loop of `CloseStream` over a row of the table of the other relays. -/
def closeLoop (streamId trackFullNameHash : UInt64) (reset : Bool) :
    ClientRelay → List (PeerSessionId × FibEntry) → ExtTreeMap PeerSessionId FibEntry →
      ClientRelay × ExtTreeMap PeerSessionId FibEntry × List StreamClose
  | n, [], row => (n, row, [])
  | n, (egress, entry) :: entries, row =>
    let (entry, closes) := n.relay.closeEntry streamId trackFullNameHash reset egress entry
    let (n, out) := n.tell closes
    let (n, row, rest) := closeLoop streamId trackFullNameHash reset n entries
      (row.insert egress entry)
    (n, row, out ++ rest)

/-- The loop over the client table.  A call of a handler may take streams out of the entries that
come after. -/
def closeClientLoop (ingress : PeerSessionId) (streamId : UInt64) (reset : Bool) :
    ClientRelay → List (UInt64 × PeerSessionId) → ClientRelay × List StreamClose
  | n, [] => (n, [])
  | n, key :: keys =>
    match n.relay.infoBase.clientFib[key]? with
    | none => closeClientLoop ingress streamId reset n keys
    | some entry =>
      let (entry, closes) := n.relay.closeClientEntry ingress streamId reset key entry
      let r := n.relay.setInfoBase
        { n.relay.infoBase with clientFib := n.relay.infoBase.clientFib.insert key entry }
      let (n, out) := ({ n with relay := r } : ClientRelay).tell closes
      let (n, rest) := closeClientLoop ingress streamId reset n keys
      (n, out ++ rest)

def closePeers (n : ClientRelay) (ingress : PeerSessionId) (snsId : SubscribeNodeSetId)
    (streamId trackFullNameHash : UInt64) (reset : Bool) : ClientRelay × List StreamClose :=
  match n.relay.infoBase.peerFib[(ingress, snsId)]? with
  | none => (n, [])
  | some row =>
    let (n, row, out) := n.closeLoop streamId trackFullNameHash reset row.toList row
    ({ n with relay := n.relay.setPeerFib fun fib => fib.insert (ingress, snsId) row }, out)

def closeStream (n : ClientRelay) (ingress : PeerSessionId) (snsId : SubscribeNodeSetId)
    (streamId trackFullNameHash : UInt64) (reset : Bool) : ClientRelay × List StreamClose :=
  let (n, out) := n.closePeers ingress snsId streamId trackFullNameHash reset
  let (n, rest) := n.closeClientLoop ingress streamId reset n.relay.infoBase.clientFib.keys
  (n, out ++ rest)

end ClientRelay

/-! ### What the handlers can change -/

/-- The client table is all that changes. -/
def OnlyClientFib (r r' : Relay) : Prop :=
  ∃ clientFib, r' = r.setInfoBase { r.infoBase with clientFib }

theorem OnlyClientFib.refl (r : Relay) : OnlyClientFib r r := ⟨r.infoBase.clientFib, rfl⟩

theorem OnlyClientFib.trans {r r' r'' : Relay} (h : OnlyClientFib r r')
    (h' : OnlyClientFib r' r'') : OnlyClientFib r r'' := by
  obtain ⟨clientFib, rfl⟩ := h
  obtain ⟨clientFib', rfl⟩ := h'
  exact ⟨clientFib', rfl⟩

theorem onlyClientFib_sendBack (env : HandlerEnv) (r : Relay) (out : List HandlerOut) :
    OnlyClientFib r (r.sendBack env out).1 := by
  induction out generalizing r with
  | nil => exact .refl r
  | cons o out ih =>
    cases o with
    | clientData trackAlias type groupId subgroupId data =>
      exact OnlyClientFib.trans ⟨_, rfl⟩ (ih _)
    | object headers payload => exact ih r
    | endSubgroup conn groupId subgroupId flag => exact ih r

section

variable {r r' : Relay} {createStream : CreateStream} {ingress : PeerSessionId} {chunk : PeerChunk}

/-- Data of another relay go on regardless of the client table. -/
theorem OnlyClientFib.forwardEntry (h : OnlyClientFib r r') (data : List UInt8)
    (egress : PeerSessionId) (entry : FibEntry) :
    r'.forwardEntry createStream ingress chunk data egress entry =
      r.forwardEntry createStream ingress chunk data egress entry := by
  obtain ⟨clientFib, rfl⟩ := h
  rfl

theorem OnlyClientFib.forwardLoop (h : OnlyClientFib r r')
    (entries : List (PeerSessionId × FibEntry)) (row : ExtTreeMap PeerSessionId FibEntry)
    (data : List UInt8) : r'.forwardLoop createStream ingress chunk entries row data =
      r.forwardLoop createStream ingress chunk entries row data := by
  obtain ⟨clientFib, rfl⟩ := h
  induction entries generalizing row data with
  | nil => rfl
  | cons e entries ih =>
    simp only [Relay.forwardLoop, ih]
    rfl

end

namespace ClientRelay

variable {m : Moqt} {env : HandlerEnv} {n n' : ClientRelay}

theorem onlyClientFib_peerDataReceived {track : UInt64} {isNewStream : Bool} {streamId : UInt64}
    {data : List UInt8}
    (h : (n.peerDataReceived m env track isNewStream streamId data).1 = some n') :
    OnlyClientFib n.relay n'.relay := by
  unfold peerDataReceived at h
  cases hget : n.handlers[track]? with
  | none =>
    rw [hget] at h
    cases h
    exact .refl _
  | some handler =>
    rw [hget] at h
    obtain ⟨handler', -, rfl⟩ := Option.map_eq_some_iff.mp h
    exact onlyClientFib_sendBack ..

theorem onlyClientFib_handOver {o : Forwarded} (h : (n.handOver m env o).1 = some n') :
    OnlyClientFib n.relay n'.relay := by
  unfold handOver at h
  split at h
  · exact onlyClientFib_peerDataReceived h
  · cases h
    exact .refl _

theorem onlyClientFib_handOverAll {out : List Forwarded}
    (h : (n.handOverAll m env out).1 = some n') : OnlyClientFib n.relay n'.relay := by
  induction out generalizing n with
  | nil =>
    cases h
    exact .refl _
  | cons o out ih =>
    unfold handOverAll at h
    split at h
    · cases h
    · rename_i hcall
      exact (onlyClientFib_handOver (congrArg Prod.fst hcall)).trans (ih h)

theorem handOverAll_append (m : Moqt) (env : HandlerEnv) (n : ClientRelay)
    (out out' : List Forwarded) :
    n.handOverAll m env (out ++ out') =
      match n.handOverAll m env out with
      | (none, made) => (none, made)
      | (some n, made) => ((n.handOverAll m env out').1, made ++ (n.handOverAll m env out').2) := by
  induction out generalizing n with
  | nil => rfl
  | cons o out ih =>
    rw [List.cons_append, handOverAll, handOverAll]
    obtain ⟨n', made⟩ := n.handOver m env o
    cases n' with
    | none => rfl
    | some n' =>
      dsimp only
      rw [ih]
      obtain ⟨n'', made'⟩ := n'.handOverAll m env out
      cases n'' with
      | none => rfl
      | some n'' => simp

/-- The loop makes what the table says, and calls the handlers on the way. -/
theorem forwardLoop_eq {createStream : CreateStream} {ingress : PeerSessionId} {chunk : PeerChunk}
    {entries : List (PeerSessionId × FibEntry)} {row row' : ExtTreeMap PeerSessionId FibEntry}
    {data : List UInt8} {out : List Forwarded}
    (h : n.relay.forwardLoop createStream ingress chunk entries row data = some (row', out)) :
    n.forwardLoop m env createStream ingress chunk entries row data =
      ((n.handOverAll m env out).1.map fun n => (n, row'), (n.handOverAll m env out).2) := by
  induction entries generalizing n row data out with
  | nil =>
    cases h
    rfl
  | cons e entries ih =>
    unfold Relay.forwardLoop at h
    obtain ⟨⟨entry, data', first⟩, hentry, hrest⟩ := Option.bind_eq_some_iff.mp h
    obtain ⟨⟨row'', later⟩, hloop, hsome⟩ := Option.bind_eq_some_iff.mp hrest
    cases hsome
    rw [forwardLoop, hentry, handOverAll_append]
    obtain ⟨⟨n₁, made⟩, hmade⟩ : ∃ made, n.handOverAll m env first = made := ⟨_, rfl⟩
    dsimp only
    rw [hmade]
    cases n₁ with
    | none => rfl
    | some n₁ =>
      dsimp only
      rw [ih (((onlyClientFib_handOverAll (congrArg Prod.fst hmade)).forwardLoop ..).trans hloop)]

theorem handOverAll_sessions (m : Moqt) (env : HandlerEnv) (n : ClientRelay)
    (sends : List DataSent) :
    n.handOverAll m env (sends.map .session) =
      (some n, sends.map fun sent => .forwarded (.session sent)) := by
  induction sends with
  | nil => rfl
  | cons sent sends ih =>
    have hsession : n.handOver m env (.session sent) = (some n, [.forwarded (.session sent)]) := rfl
    rw [List.map_cons, handOverAll, hsession]
    dsimp only
    rw [ih]
    rfl

/-- The data of another relay: what the tables say, and the calls of the handlers on the way. -/
theorem forwardPeerData_eq (m : Moqt) (env : HandlerEnv) {createStream : CreateStream}
    {ingress : PeerSessionId} {chunk : PeerChunk} {f} {out : List Forwarded}
    (h : n.relay.forwardPeerData createStream ingress chunk = some (n.relay.setPeerFib f, out)) :
    n.forwardPeerData m env createStream ingress chunk =
      ((n.handOverAll m env out).1.map fun n => { n with relay := n.relay.setPeerFib f },
        (n.handOverAll m env out).2) := by
  unfold forwardPeerData
  unfold Relay.forwardPeerData at h
  cases hrow : n.relay.infoBase.peerFib[(ingress, chunk.header.snsId)]? with
  | none =>
    rw [hrow, Option.some.injEq, Prod.mk.injEq] at h
    obtain ⟨hsame, rfl⟩ := h
    dsimp only
    rw [handOverAll, Option.map_some, ← hsame]
  | some row =>
    rw [hrow] at h
    obtain ⟨⟨row', out'⟩, hloop, hsome⟩ := Option.bind_eq_some_iff.mp h
    obtain ⟨hsame, rfl⟩ := Prod.mk.inj (Option.some.inj hsome)
    have hfib : f n.relay.infoBase.peerFib =
        n.relay.infoBase.peerFib.insert (ingress, chunk.header.snsId) row' :=
      (congrArg (fun r : Relay => r.infoBase.peerFib) hsame).symm
    dsimp only
    rw [forwardLoop_eq hloop]
    refine Prod.ext ?_ rfl
    dsimp only
    rw [Option.map_map]
    refine Option.map_congr fun n₁ hn₁ => ?_
    obtain ⟨clientFib, hclient⟩ := onlyClientFib_handOverAll hn₁
    simp only [Function.comp_apply]
    rw [hclient]
    unfold setPeerFib setInfoBase
    simp only [hfib]

end ClientRelay

/-! ### Data for the clients -/

/-- The subscribe of the clients of this relay, when it is among those that the data are for. -/
def interest (r : Relay) (ingress : PeerSessionId) (header : DataHeader) : Option SubscribeInfo :=
  if ingress ≠ 0 ∧ (r.infoBase.peerFib.get₂? (ingress, header.snsId) 0).isSome = true then
    r.infoBase.subscribes.get₂? header.trackFullNameHash r.nodeId
  else none

/-- The entry of this relay is the first of the row. -/
theorem egressOuts_eq (r : Relay) (createStream : CreateStream) (ingress : PeerSessionId)
    {chunk : PeerChunk} (hreliable : chunk.useReliable = true) : ∃ sends : List DataSent,
      egressOuts createStream ingress chunk r =
        ((r.interest ingress chunk.header).map fun si =>
          .clients si.trackHash.trackFullnameHash chunk.isNewStream (some chunk.streamId)
            (chunk.data.drop chunk.dataOffset)).toList ++ sends.map .session := by
  have hsends : ∀ entries : List (PeerSessionId × FibEntry), (∀ e ∈ entries, e.1 ≠ 0) →
      ∃ sends : List DataSent, (entries.flatMap fun e =>
        egressOut createStream ingress chunk r e.1 e.2) = sends.map .session := by
    intro entries hne
    induction entries with
    | nil => exact ⟨[], rfl⟩
    | cons e entries ih =>
      obtain ⟨sends, hsends⟩ := ih fun e he => hne e (List.mem_cons_of_mem _ he)
      have hzero := hne e List.mem_cons_self
      rw [List.flatMap_cons, hsends]
      unfold egressOut
      rw [if_neg hzero]
      split
      · exact ⟨sends, rfl⟩
      · exact ⟨_ ++ sends, by rw [egressSent, List.map_append, List.map_map]; rfl⟩
  have hself : ∀ entry, egressOut createStream ingress chunk r 0 entry =
      if ingress ≠ 0 then r.forwardToClients chunk else [] := by
    intro entry
    by_cases hingress : ingress = 0
    · simp [egressOut, hingress]
    · simp [egressOut, hingress, Ne.symm hingress]
  obtain ⟨rest, hrow, hrest⟩ := ExtTreeMap.toList_eq_of_least
    (r.infoBase.peerFib[(ingress, chunk.header.snsId)]?.getD ∅) (k := 0)
    fun k hlt => absurd (compare_eq_lt.mp hlt) (by simp)
  obtain ⟨sends, hsends⟩ := hsends rest hrest
  have hget : (r.infoBase.peerFib[(ingress, chunk.header.snsId)]?.getD ∅)[(0 : PeerSessionId)]? =
      r.infoBase.peerFib.get₂? (ingress, chunk.header.snsId) 0 := by
    rw [ExtTreeMap.get₂?]
    cases r.infoBase.peerFib[(ingress, chunk.header.snsId)]? with
    | none => exact ExtTreeMap.getElem?_empty
    | some row => rfl
  refine ⟨sends, ?_⟩
  rw [egressOuts, hrow, List.flatMap_append, hsends, hget, interest]
  cases r.infoBase.peerFib.get₂? (ingress, chunk.header.snsId) 0 with
  | none => simp
  | some entry =>
    by_cases hingress : ingress = 0
    · subst hingress
      simp [hself]
    · cases hsi : r.infoBase.subscribes.get₂? chunk.header.trackFullNameHash r.nodeId <;>
        simp [hself, hingress, forwardToClients, hsi, hreliable]

/-- What becomes of data, but for what a handler sends on. -/
def forwardedOf (out : List PeerOut) : List Forwarded :=
  out.filterMap fun
    | .forwarded o => some o
    | .handedBack _ => none

/-- What handlers send on. -/
def handedBackOf (out : List PeerOut) : List DataSent :=
  out.filterMap fun
    | .forwarded _ => none
    | .handedBack sent => some sent

theorem forwardedOf_append (out out' : List PeerOut) :
    forwardedOf (out ++ out') = forwardedOf out ++ forwardedOf out' := List.filterMap_append ..

theorem handedBackOf_append (out out' : List PeerOut) :
    handedBackOf (out ++ out') = handedBackOf out ++ handedBackOf out' := List.filterMap_append ..

theorem forwardedOf_map (out : List Forwarded) : forwardedOf (out.map .forwarded) = out := by
  rw [forwardedOf, List.filterMap_map]
  exact List.filterMap_some

theorem handedBackOf_map (out : List Forwarded) : handedBackOf (out.map .forwarded) = [] := by
  rw [handedBackOf, List.filterMap_map]
  exact List.filterMap_eq_nil_iff.mpr fun _ _ => rfl

theorem forwardedOf_handedBack (sent : List DataSent) : forwardedOf (sent.map .handedBack) = [] := by
  rw [forwardedOf, List.filterMap_map]
  exact List.filterMap_eq_nil_iff.mpr fun _ _ => rfl

theorem handedBackOf_handedBack (sent : List DataSent) :
    handedBackOf (sent.map .handedBack) = sent := by
  rw [handedBackOf, List.filterMap_map]
  exact List.filterMap_some

namespace ClientRelay

def setPeerFib (n : ClientRelay)
    (f : ExtTreeMap (PeerSessionId × SubscribeNodeSetId) (ExtTreeMap PeerSessionId FibEntry) →
      ExtTreeMap (PeerSessionId × SubscribeNodeSetId) (ExtTreeMap PeerSessionId FibEntry)) :
    ClientRelay :=
  { n with relay := n.relay.setPeerFib f }

/-- What the clients make of a piece of a stream. -/
def clientData (m : Moqt) (env : HandlerEnv) (n : ClientRelay) (ingress : PeerSessionId)
    (streamId : UInt64) (header : DataHeader) (isNewStream : Bool) (data : List UInt8) :
    Option ClientRelay × List DataSent :=
  match n.relay.interest ingress header with
  | none => (some n, [])
  | some si => n.peerDataReceived m env si.trackHash.trackFullnameHash isNewStream streamId data

variable {m : Moqt} {env : HandlerEnv} {n n' : ClientRelay} {createStream : CreateStream}
  {ingress : PeerSessionId} {chunk : PeerChunk} {f}

/-- The data of a stream: the handler of the track takes its part first, and the sessions get the
data when it does not throw. -/
structure Forwards (m : Moqt) (env : HandlerEnv) (n : ClientRelay) (createStream : CreateStream)
    (ingress : PeerSessionId) (chunk : PeerChunk)
    (f : ExtTreeMap (PeerSessionId × SubscribeNodeSetId) (ExtTreeMap PeerSessionId FibEntry) →
      ExtTreeMap (PeerSessionId × SubscribeNodeSetId) (ExtTreeMap PeerSessionId FibEntry))
    (taken : Option ClientRelay × List DataSent) : Prop where
  result : (n.forwardPeerData m env createStream ingress chunk).1 =
    taken.1.map fun n => n.setPeerFib f
  handedBack : handedBackOf (n.forwardPeerData m env createStream ingress chunk).2 = taken.2
  forwarded : taken.1.isSome = true →
    forwardedOf (n.forwardPeerData m env createStream ingress chunk).2 =
      egressOuts createStream ingress chunk n.relay
  quiet : taken.1.isSome = true → taken.2 = [] →
    (n.forwardPeerData m env createStream ingress chunk).2 =
      (egressOuts createStream ingress chunk n.relay).map .forwarded

theorem forwardPeerData_spec (m : Moqt) (env : HandlerEnv) (hreliable : chunk.useReliable = true)
    (h : n.relay.forwardPeerData createStream ingress chunk =
      some (n.relay.setPeerFib f, egressOuts createStream ingress chunk n.relay)) :
    Forwards m env n createStream ingress chunk f
      (n.clientData m env ingress chunk.streamId chunk.header chunk.isNewStream
        (chunk.data.drop chunk.dataOffset)) := by
  have heq := forwardPeerData_eq m env h
  obtain ⟨sends, houts⟩ := egressOuts_eq n.relay createStream ingress hreliable
  unfold clientData
  cases hinterest : n.relay.interest ingress chunk.header with
  | none =>
    rw [hinterest] at houts
    have hall : n.handOverAll m env (egressOuts createStream ingress chunk n.relay) =
        (some n, (egressOuts createStream ingress chunk n.relay).map .forwarded) := by
      rw [houts, Option.map_none, Option.toList_none, List.nil_append, handOverAll_sessions,
        List.map_map]
      rfl
    rw [hall] at heq
    refine ⟨?_, ?_, fun _ => ?_, fun _ _ => ?_⟩ <;> rw [heq]
    · rfl
    · exact handedBackOf_map _
    · exact forwardedOf_map _
  | some si =>
    rw [hinterest] at houts
    set call : Forwarded := .clients si.trackHash.trackFullnameHash chunk.isNewStream
      (some chunk.streamId) (chunk.data.drop chunk.dataOffset)
    rw [Option.map_some, Option.toList_some, List.singleton_append] at houts
    obtain ⟨⟨n', sent⟩, hcall⟩ : ∃ taken, n.peerDataReceived m env si.trackHash.trackFullnameHash
        chunk.isNewStream chunk.streamId (chunk.data.drop chunk.dataOffset) = taken := ⟨_, rfl⟩
    have hover : n.handOver m env call = (n', .forwarded call :: sent.map .handedBack) := by
      show ((n.peerDataReceived m env _ _ _ _).1,
        PeerOut.forwarded call :: (n.peerDataReceived m env _ _ _ _).2.map PeerOut.handedBack) = _
      rw [hcall]
    dsimp only
    rw [hcall]
    cases n' with
    | none =>
      have hall : n.handOverAll m env (egressOuts createStream ingress chunk n.relay) =
          (none, .forwarded call :: sent.map .handedBack) := by
        rw [houts, handOverAll, hover]
      rw [hall] at heq
      refine ⟨?_, ?_, nofun, nofun⟩ <;> rw [heq]
      · rfl
      · exact handedBackOf_handedBack sent
    | some n' =>
      have hall : n.handOverAll m env (egressOuts createStream ingress chunk n.relay) =
          (some n', .forwarded call :: sent.map .handedBack ++
            sends.map fun sent => .forwarded (.session sent)) := by
        rw [houts, handOverAll, hover]
        dsimp only
        rw [handOverAll_sessions]
      rw [hall] at heq
      have hsends : sends.map (fun sent => PeerOut.forwarded (.session sent)) =
          (sends.map Forwarded.session).map .forwarded := by
        rw [List.map_map]
        rfl
      refine ⟨?_, ?_, fun _ => ?_, fun _ hnil => ?_⟩ <;> rw [heq]
      · rfl
      · rw [handedBackOf_append, hsends, handedBackOf_map, List.append_nil]
        exact handedBackOf_handedBack sent
      · rw [forwardedOf_append, hsends, forwardedOf_map, houts]
        exact congrArg (call :: · ++ _) (forwardedOf_handedBack sent)
      · have hsent : sent = [] := hnil
        rw [hsent, houts, hsends]
        rfl

/-- Nothing is handed back of the data: the sessions get them, as the table says. -/
theorem forwardPeerData_of_taken (hreliable : chunk.useReliable = true)
    (h : n.relay.forwardPeerData createStream ingress chunk =
      some (n.relay.setPeerFib f, egressOuts createStream ingress chunk n.relay))
    (htaken : n.clientData m env ingress chunk.streamId chunk.header
      chunk.isNewStream (chunk.data.drop chunk.dataOffset) = (some n', [])) :
    n.forwardPeerData m env createStream ingress chunk =
      (some (n'.setPeerFib f), (egressOuts createStream ingress chunk n.relay).map .forwarded) := by
  have hspec := forwardPeerData_spec m env hreliable h
  rw [htaken] at hspec
  exact Prod.ext hspec.result (hspec.quiet rfl rfl)

end ClientRelay

end Laps.Relay
