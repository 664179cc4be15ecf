import Laps.Client.Objects
import Laps.Relay.ClientCloses

/-! Runs of the data and the closes of many streams: every stream to another relay carries one
stream, from its start to its close, as long as the clients of this relay take their part and send
nothing on. -/

namespace Laps.Relay

open Std Client Peering

/-- Each call with what it made. -/
abbrev StreamTrace := List (StreamCall × List StreamOut)

namespace StreamTrace

/-- The data on a stream, as it was sent. -/
def sentOn (trace : StreamTrace) (egress : PeerSessionId) (streamId : UInt64) :
    List (List UInt8) :=
  (trace.flatMap Prod.snd).filterMap (StreamOut.dataOn egress streamId)

/-- The closes of a stream. -/
def closedOn (trace : StreamTrace) (egress : PeerSessionId) (streamId : UInt64) : List Bool :=
  (trace.flatMap Prod.snd).filterMap (StreamOut.closeOn egress streamId)

theorem sentOn_append (trace trace' : StreamTrace) (egress : PeerSessionId) (streamId : UInt64) :
    (trace ++ trace').sentOn egress streamId =
      trace.sentOn egress streamId ++ trace'.sentOn egress streamId := by
  rw [sentOn, List.flatMap_append, List.filterMap_append]
  rfl

theorem closedOn_append (trace trace' : StreamTrace) (egress : PeerSessionId) (streamId : UInt64) :
    (trace ++ trace').closedOn egress streamId =
      trace.closedOn egress streamId ++ trace'.closedOn egress streamId := by
  rw [closedOn, List.flatMap_append, List.filterMap_append]
  rfl

theorem sentOn_singleton (c : StreamCall) (out : List StreamOut) (egress : PeerSessionId)
    (streamId : UInt64) :
    sentOn [(c, out)] egress streamId = out.filterMap (StreamOut.dataOn egress streamId) := by
  simp [sentOn]

theorem closedOn_singleton (c : StreamCall) (out : List StreamOut) (egress : PeerSessionId)
    (streamId : UInt64) :
    closedOn [(c, out)] egress streamId = out.filterMap (StreamOut.closeOn egress streamId) := by
  simp [closedOn]

end StreamTrace

/-- What a handler sends on goes to a session as any data. -/
def PeerOut.streamOut : PeerOut → StreamOut
  | forwarded out => .forwarded out
  | handedBack sent => .forwarded (.session sent)

namespace ClientRelay

/-- A call, with the handlers of the clients.  No state where the source throws or calls through a
null pointer: what was sent before stays. -/
def streamCall (m : Moqt) (n : ClientRelay) (e : PeerEvent) :
    Option ClientRelay × List StreamOut :=
  match e.call with
  | .start createStream ingress streamId header payload =>
    let (n, out) := n.forwardPeerData m e.env createStream ingress
      { isNewStream := true, streamId, header, data := header.serialize ++ payload
        dataOffset := header.serialize.length, useReliable := true }
    (n, out.map PeerOut.streamOut)
  | .more ingress streamId header data =>
    -- No stream is made for data that continues one.
    let (n, out) := n.forwardPeerData m e.env (fun _ _ => 0) ingress
      { isNewStream := false, streamId, header, data, dataOffset := 0, useReliable := true }
    (n, out.map PeerOut.streamOut)
  | .close ingress snsId streamId trackFullNameHash reset =>
    let (n, out) := n.closeStream ingress snsId streamId trackFullNameHash reset
    (some n, out.map .closed)

variable {m : Moqt} {n n' : ClientRelay} {es : List PeerEvent} {trace : StreamTrace}

/-- The clients take a piece of a stream without an exception, and nothing of it is sent on. -/
def TakesPiece (m : Moqt) (n : ClientRelay) (env : HandlerEnv) (ingress : PeerSessionId)
    (streamId : UInt64) (header : DataHeader) (isNewStream : Bool) (data : List UInt8) : Prop :=
  let taken := n.clientData m env ingress streamId header isNewStream data
  taken.1.isSome = true ∧ taken.2 = []

instance (m : Moqt) (n : ClientRelay) (env : HandlerEnv) (ingress : PeerSessionId)
    (streamId : UInt64) (header : DataHeader) (isNewStream : Bool) (data : List UInt8) :
    Decidable (n.TakesPiece m env ingress streamId header isNewStream data) :=
  inferInstanceAs (Decidable (_ ∧ _))

theorem TakesPiece.exists {env : HandlerEnv} {ingress : PeerSessionId} {streamId : UInt64}
    {header : DataHeader} {isNewStream : Bool} {data : List UInt8}
    (h : n.TakesPiece m env ingress streamId header isNewStream data) :
    ∃ n', n.clientData m env ingress streamId header isNewStream data = (some n', []) := by
  obtain ⟨hsome, hnothing⟩ := h
  obtain ⟨n', hn'⟩ := Option.isSome_iff_exists.mp hsome
  exact ⟨n', Prod.ext hn' hnothing⟩

end ClientRelay

/-- The start of a stream comes first, its close last, and the start has the whole header. -/
structure InOrder (calls : List StreamCall) : Prop where
  header : ∀ createStream ingress streamId header payload,
    .start createStream ingress streamId header payload ∈ calls → header.type = .newStream
  first : ∀ before c after, calls = before ++ c :: after → c.creates.isSome = true →
    ∀ c' ∈ before, c'.key ≠ c.key
  last : ∀ before c after, calls = before ++ c :: after →
    ∀ c' ∈ before, c'.isClose = true → c'.key ≠ c.key

/-- How the streams of the start of a stream were made. -/
def created (calls : List StreamCall) (k : StreamKey) : Option CreateStream :=
  calls.findSome? fun c => if c.key = k then c.creates else none

/-- The stream to a session that was made at the start of a stream. -/
def paired (r : Relay) (calls : List StreamCall) (k : StreamKey) (egress : PeerSessionId) :
    Option UInt64 :=
  (created calls k).bind fun createStream => (r.route k egress).map (createStream egress)

/-- The calls about a stream. -/
def callsOf (calls : List StreamCall) (k : StreamKey) : List StreamCall :=
  calls.filter fun c => c.key = k

theorem mem_callsOf {calls : List StreamCall} {k : StreamKey} {c : StreamCall} :
    c ∈ callsOf calls k ↔ c ∈ calls ∧ c.key = k := by
  simp [callsOf]

theorem callsOf_eq_nil {calls : List StreamCall} {k : StreamKey} (h : ∀ c ∈ calls, c.key ≠ k) :
    callsOf calls k = [] :=
  List.eq_nil_iff_forall_not_mem.mpr fun c hc =>
    h c (mem_callsOf.mp hc).1 (mem_callsOf.mp hc).2

theorem callsOf_append (calls calls' : List StreamCall) (k : StreamKey) :
    callsOf (calls ++ calls') k = callsOf calls k ++ callsOf calls' k :=
  List.filter_append ..

theorem callsOf_cons {c : StreamCall} {calls : List StreamCall} {k : StreamKey} (h : c.key = k) :
    callsOf (c :: calls) k = c :: callsOf calls k :=
  List.filter_cons_of_pos (by simpa using h)

theorem callsOf_snoc (calls : List StreamCall) (c : StreamCall) (k : StreamKey) :
    callsOf (calls ++ [c]) k = callsOf calls k ++ if c.key = k then [c] else [] := by
  rw [callsOf_append]
  congr 1
  split
  · rename_i hkey
    exact callsOf_cons hkey
  · rename_i hkey
    exact callsOf_eq_nil fun c' hc' => by rwa [List.mem_singleton.mp hc']

theorem created_snoc (calls : List StreamCall) (c : StreamCall) (k : StreamKey) :
    created (calls ++ [c]) k =
      (created calls k).or (if c.key = k then c.creates else none) := by
  unfold created
  rw [List.findSome?_append]
  congr 1
  split <;> simp_all

theorem created_eq_none {calls : List StreamCall} {k : StreamKey} (h : ∀ c ∈ calls, c.key ≠ k) :
    created calls k = none := by
  unfold created
  rw [List.findSome?_eq_none_iff]
  intro c hc
  exact if_neg (h c hc)

/-- A stream that was paired stays paired. -/
theorem paired_snoc {r : Relay} {calls : List StreamCall} {k : StreamKey} {egress : PeerSessionId}
    {streamId : UInt64} (h : paired r calls k egress = some streamId) (c : StreamCall) :
    paired r (calls ++ [c]) k egress = some streamId := by
  unfold paired at h ⊢
  obtain ⟨createStream, hcreated, hroute⟩ := Option.bind_eq_some_iff.mp h
  rw [created_snoc, hcreated]
  exact hroute

theorem paired_snoc_of_ne {r : Relay} {calls : List StreamCall} {c : StreamCall} {k : StreamKey}
    (h : c.key = k → c.creates = none) (egress : PeerSessionId) :
    paired r (calls ++ [c]) k egress = paired r calls k egress := by
  unfold paired
  rw [created_snoc]
  split
  · rename_i hkey
    rw [h hkey, Option.or_none]
  · rw [Option.or_none]

/-- The state and the trace of a run, by the pairs. -/
structure StreamInv (r₀ : Relay) (calls : List StreamCall) (r : Relay) (trace : StreamTrace) :
    Prop where
  map_fst : trace.map Prod.fst = calls
  kept : TableKept r₀ r
  streams : ∀ k egress, r.streamAt k egress =
    if (callsOf calls k).any StreamCall.isClose then none else paired r₀ calls k egress
  one : ∀ k k' egress streamId, paired r₀ calls k egress = some streamId →
    paired r₀ calls k' egress = some streamId → k = k'
  sent : ∀ k egress streamId, paired r₀ calls k egress = some streamId →
    trace.sentOn egress streamId =
      (callsOf calls k).flatMap (StreamCall.dataFor ((r₀.route k egress).getD 0))
  closed : ∀ k egress streamId, paired r₀ calls k egress = some streamId →
    trace.closedOn egress streamId = (callsOf calls k).flatMap StreamCall.resets
  unpaired : ∀ egress streamId, (∀ k, paired r₀ calls k egress ≠ some streamId) →
    trace.sentOn egress streamId = [] ∧ trace.closedOn egress streamId = []
  own : ∀ call out, (call, out) ∈ trace → ∀ egress streamId,
    (out.filterMap (StreamOut.dataOn egress streamId) ≠ [] ∨
      out.filterMap (StreamOut.closeOn egress streamId) ≠ []) →
    paired r₀ calls call.key egress = some streamId
  closer : ∀ call out, (call, out) ∈ trace → ∀ egress streamId,
    out.filterMap (StreamOut.closeOn egress streamId) ≠ [] → call.isClose = true

theorem StreamInv.streaming {r₀ r : Relay} {calls : List StreamCall} {trace : StreamTrace}
    (h : StreamInv r₀ calls r trace) (hr₀ : r₀.Streaming) : r.Streaming := by
  refine ⟨fun key egress entry hget hzero =>
    h.kept.wired (fun old hold => hr₀.wired key egress old hold hzero) hget, ?_⟩
  intro k egress hstream
  rw [h.kept.route]
  rw [h.streams] at hstream
  split at hstream
  · exact absurd rfl hstream
  · intro hroute
    exact hstream (by rw [paired, hroute]; simp)

/-- The data of a paired stream is not nothing: its start was sent. -/
theorem dataFor_callsOf_ne_nil {r : Relay} {calls : List StreamCall} {k : StreamKey}
    {egress : PeerSessionId} {streamId : UInt64} (h : paired r calls k egress = some streamId)
    (snsId : SubscribeNodeSetId) : (callsOf calls k).flatMap (StreamCall.dataFor snsId) ≠ [] := by
  obtain ⟨createStream, hcreated, -⟩ := Option.bind_eq_some_iff.mp h
  obtain ⟨c, hc, hcreates⟩ := List.exists_of_findSome?_eq_some hcreated
  split at hcreates
  · rename_i hkey
    intro hnil
    have hdata := List.flatMap_eq_nil_iff.mp hnil c (mem_callsOf.mpr ⟨hc, hkey⟩)
    cases c with
    | start createStream ingress streamId header payload => cases hdata
    | more ingress streamId header data => cases hcreates
    | close ingress snsId streamId trackFullNameHash reset => cases hcreates
  · cases hcreates

section Step

variable {r₀ r r' : Relay} {calls : List StreamCall} {trace : StreamTrace} {c : StreamCall}
  {out : List StreamOut}

/-- A call is about the streams that are paired with its own after it. -/
theorem StreamInv.target (h : StreamInv r₀ calls r trace) (horder : InOrder (calls ++ [c]))
    (egress : PeerSessionId) : c.target r egress = paired r₀ (calls ++ [c]) c.key egress := by
  unfold StreamCall.target
  cases hcreates : c.creates with
  | some createStream =>
    have hfirst := horder.first calls c [] rfl (by rw [hcreates]; rfl)
    simp only
    rw [h.kept.route, paired, created_snoc, created_eq_none hfirst, if_pos rfl, hcreates]
    rfl
  | none =>
    have hopen : (callsOf calls c.key).any StreamCall.isClose = false := by
      rw [List.any_eq_false]
      intro c' hc' hclose
      obtain ⟨hmem, hkey⟩ := mem_callsOf.mp hc'
      exact horder.last calls c [] rfl c' hmem hclose hkey
    simp only
    rw [h.streams, hopen, paired_snoc_of_ne fun _ => hcreates]
    rfl

/-- A pair was there before the call, or the call has made it on a new stream. -/
theorem StreamInv.paired_cases (h : StreamInv r₀ calls r trace) (horder : InOrder (calls ++ [c]))
    (hfresh : ∀ createStream, c.creates = some createStream →
      ∀ egress snsId, trace.sentOn egress (createStream egress snsId) = [])
    {k : StreamKey} {egress : PeerSessionId} {streamId : UInt64}
    (hpair : paired r₀ (calls ++ [c]) k egress = some streamId) :
    paired r₀ calls k egress = some streamId ∨
      c.key = k ∧ callsOf calls k = [] ∧ ∀ k', paired r₀ calls k' egress ≠ some streamId := by
  by_cases hnew : c.key = k ∧ c.creates ≠ none
  · obtain ⟨rfl, hcreates⟩ := hnew
    obtain ⟨createStream, hcreates⟩ := Option.ne_none_iff_exists'.mp hcreates
    have hfirst := horder.first calls c [] rfl (by rw [hcreates]; rfl)
    rw [paired, created_snoc, created_eq_none hfirst, if_pos rfl, hcreates] at hpair
    obtain ⟨snsId, -, hid⟩ := Option.map_eq_some_iff.mp hpair
    refine .inr ⟨rfl, ?_, ?_⟩
    · exact callsOf_eq_nil hfirst
    · intro k' hk'
      have hempty := hfresh createStream hcreates egress snsId
      rw [hid, h.sent k' egress streamId hk'] at hempty
      exact dataFor_callsOf_ne_nil hk' _ hempty
  · rw [paired_snoc_of_ne fun hkey => by_contra fun hne => hnew ⟨hkey, hne⟩] at hpair
    exact .inl hpair

theorem StreamInv.step (h : StreamInv r₀ calls r trace) (horder : InOrder (calls ++ [c]))
    (hfresh : ∀ createStream, c.creates = some createStream →
      ∀ egress snsId, trace.sentOn egress (createStream egress snsId) = [])
    (hstep : StreamStep r c r' out) :
    StreamInv r₀ (calls ++ [c]) r' (trace ++ [(c, out)]) := by
  have hone : ∀ k k' egress streamId, paired r₀ (calls ++ [c]) k egress = some streamId →
      paired r₀ (calls ++ [c]) k' egress = some streamId → k = k' := by
    intro k k' egress streamId hk hk'
    obtain hold | ⟨rfl, -, hnot⟩ := h.paired_cases horder hfresh hk
    · obtain hold' | ⟨rfl, -, hnot'⟩ := h.paired_cases horder hfresh hk'
      · exact h.one k k' egress streamId hold hold'
      · exact absurd hold (hnot' k)
    · obtain hold' | ⟨rfl, -, -⟩ := h.paired_cases horder hfresh hk'
      · exact absurd hold' (hnot k')
      · rfl
  -- What the call adds to a stream, in the data as in the closes.
  have hadd : ∀ {β : Type} (f : StreamKey → StreamCall → List β) {k egress streamId},
      paired r₀ (calls ++ [c]) k egress = some streamId →
      (if paired r₀ (calls ++ [c]) c.key egress = some streamId then f c.key c else []) =
        (if c.key = k then [c] else []).flatMap (f k) := by
    intro β f k egress streamId hpair
    by_cases hkey : c.key = k
    · subst hkey
      rw [if_pos hpair, if_pos rfl, List.flatMap_singleton]
    · rw [if_neg hkey, if_neg fun hc => hkey (hone _ _ _ _ hc hpair)]
      rfl
  have hsent := hstep.sent
  have hclosed := hstep.closed
  simp only [h.target horder, h.kept.route] at hsent hclosed
  refine ⟨?_, h.kept.trans hstep.kept, ?_, hone, ?_, ?_, ?_, ?_, ?_⟩
  · rw [List.map_append, h.map_fst]
    rfl
  · intro k egress
    rw [hstep.streams, h.target horder, callsOf_snoc, List.any_append]
    split
    · rename_i hkey
      have hopen : (callsOf calls k).any StreamCall.isClose = false := by
        rw [List.any_eq_false]
        intro c' hc' hclose
        obtain ⟨hmem, hkey'⟩ := mem_callsOf.mp hc'
        exact horder.last calls c [] rfl c' hmem hclose (hkey'.trans hkey)
      rw [hopen, if_pos hkey.symm, hkey]
      simp
    · rename_i hkey
      rw [h.streams, if_neg (Ne.symm hkey), paired_snoc_of_ne fun h => absurd h.symm hkey]
      simp
  · intro k egress streamId hpair
    rw [StreamTrace.sentOn_append, StreamTrace.sentOn_singleton, hsent, callsOf_snoc,
      List.flatMap_append, hadd (fun k => StreamCall.dataFor ((r₀.route k egress).getD 0)) hpair]
    obtain hold | ⟨rfl, hnil, hnot⟩ := h.paired_cases horder hfresh hpair
    · rw [h.sent k egress streamId hold]
    · rw [(h.unpaired egress streamId hnot).1, hnil]
      rfl
  · intro k egress streamId hpair
    rw [StreamTrace.closedOn_append, StreamTrace.closedOn_singleton, hclosed, callsOf_snoc,
      List.flatMap_append, hadd (fun _ => StreamCall.resets) hpair]
    obtain hold | ⟨rfl, hnil, hnot⟩ := h.paired_cases horder hfresh hpair
    · rw [h.closed k egress streamId hold]
    · rw [(h.unpaired egress streamId hnot).2, hnil]
      rfl
  · intro egress streamId hnot
    have hold : ∀ k, paired r₀ calls k egress ≠ some streamId := fun k hk =>
      hnot k (paired_snoc hk c)
    obtain ⟨hs, hc⟩ := h.unpaired egress streamId hold
    rw [StreamTrace.sentOn_append, StreamTrace.closedOn_append, StreamTrace.sentOn_singleton,
      StreamTrace.closedOn_singleton, hsent, hclosed, hs, hc, if_neg (hnot _), if_neg (hnot _)]
    exact ⟨rfl, rfl⟩
  · intro call out' hmem egress streamId hout
    obtain hmem | hmem := List.mem_append.mp hmem
    · exact paired_snoc (h.own call out' hmem egress streamId hout) c
    · obtain ⟨rfl, rfl⟩ := Prod.mk.inj (List.mem_singleton.mp hmem)
      by_contra hpair
      rw [hsent, hclosed, if_neg hpair, if_neg hpair] at hout
      simp at hout
  · intro call out' hmem egress streamId hout
    obtain hmem | hmem := List.mem_append.mp hmem
    · exact h.closer call out' hmem egress streamId hout
    · obtain ⟨rfl, rfl⟩ := Prod.mk.inj (List.mem_singleton.mp hmem)
      rw [hclosed] at hout
      cases call with
      | close ingress snsId streamId trackFullNameHash reset => rfl
      | start createStream ingress streamId header payload => simp [StreamCall.resets] at hout
      | more ingress streamId header data => simp [StreamCall.resets] at hout

end Step

/-! ### Runs -/

section Run

variable {m : Moqt} {n : ClientRelay}

end Run

/-- Node set 5 of session 1 goes out on session 2 as node set 8, and to the clients, that subscribe
to track 40. -/
def servedRelay : Relay where
  nodeId := 1
  infoBase :=
    { subscribes := (∅ : ExtTreeMap UInt64 (ExtTreeMap NodeIdValueType SubscribeInfo)).insert 40
        ((∅ : ExtTreeMap NodeIdValueType SubscribeInfo).insert 1
          { sourceNodeId := 1, trackHash := ⟨1, 2, 40⟩ })
      peerFib := (∅ : ExtTreeMap (PeerSessionId × SubscribeNodeSetId)
        (ExtTreeMap PeerSessionId FibEntry)).insert (1, 5)
          (((∅ : ExtTreeMap PeerSessionId FibEntry).insert 2
            { outSnsId := 8, peerSession := some 2 }).insert 0 {}) }
  clientPeerSessions := (∅ : ExtTreeMap PeerSessionId PeerSession).insert 2
    { status := .connected, nodeId := 1, remoteNodeInfo := { id := 3 } }

/-- With the handler of the track, that has one subscriber. -/
def servedRoute : ClientRelay where
  relay := servedRelay
  handlers := (∅ : ExtTreeMap UInt64 StreamHandler).insert 40
    { trackAlias := some 40, subscribers := {3} }
  publishAliases _ := [40]

def event (call : StreamCall) : PeerEvent := ⟨call, fun _ _ => 100, 1, 2000⟩

end Laps.Relay
