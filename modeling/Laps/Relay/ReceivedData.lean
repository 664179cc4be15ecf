import Laps.Client.Objects
import Laps.Relay.Clients
import Laps.Relay.StreamPairs

/-! The data of a stream as the transport hands it over, in chunks. -/

namespace Laps.Relay

open Std Client Peering

namespace ClientRelay

/-- `ProcessReceivedData` for a stream: whether there was enough to go on, the context of the stream,
and what becomes of the data.  `none` where the source throws or reads past the end. -/
def processReceivedData (m : Moqt) (env : HandlerEnv) (n : ClientRelay)
    (createStream : CreateStream) (ingress : PeerSessionId) (streamId : UInt64)
    (ctx : Option DataHeader) (data : List UInt8) :
    Option (Bool × ClientRelay × Option DataHeader) × List PeerOut :=
  match ctx with
  | none =>
    match data with
    | [] => (none, [])
    | hdrLen :: _ =>
      -- The context is there from now on, with the header that it has before one is read.
      if data.length < hdrLen.toNat then (some (false, n, some {}), [])
      else
        match DataHeader.deserialize {} data with
        | none => (none, [])
        | some (_, header) =>
          let (n, out) := n.forwardPeerData m env createStream ingress
            { isNewStream := true, streamId, header, data, dataOffset := hdrLen.toNat
              useReliable := true }
          (n.map fun n => (true, n, some header), out)
  | some header =>
    let (n, out) := n.forwardPeerData m env createStream ingress
      { isNewStream := false, streamId, header, data, dataOffset := 0, useReliable := true }
    (n.map fun n => (true, n, some header), out)

/-- The chunks of a stream in their order.  A throw ends them. -/
def receiveStream (m : Moqt) (env : HandlerEnv) (createStream : CreateStream)
    (ingress : PeerSessionId) (streamId : UInt64) :
    ClientRelay → Option DataHeader → List (List UInt8) → Option ClientRelay × List PeerOut
  | n, _, [] => (some n, [])
  | n, ctx, data :: chunks =>
    match n.processReceivedData m env createStream ingress streamId ctx data with
    | (none, out) => (none, out)
    | (some (_, n, ctx), out) =>
      let (n, rest) := receiveStream m env createStream ingress streamId n ctx chunks
      (n, out ++ rest)

/-- What the clients make of the pieces of a stream. -/
def clientRun (m : Moqt) (env : HandlerEnv) (ingress : PeerSessionId) (streamId : UInt64)
    (header : DataHeader) :
    ClientRelay → Bool → List (List UInt8) → Option ClientRelay × List DataSent
  | n, _, [] => (some n, [])
  | n, isNewStream, data :: pieces =>
    match n.clientData m env ingress streamId header isNewStream data with
    | (none, sent) => (none, sent)
    | (some n, sent) =>
      let (n, rest) := clientRun m env ingress streamId header n false pieces
      (n, sent ++ rest)

end ClientRelay

/-- The bytes for a session. -/
def bytesTo (egress : PeerSessionId) (out : List Forwarded) : List UInt8 :=
  out.flatMap fun
    | .session sent => if sent.session = egress then sent.data else []
    | .clients .. => []

/-- The bytes for the clients of this relay. -/
def clientBytes (out : List Forwarded) : List UInt8 :=
  out.flatMap fun
    | .session _ => []
    | .clients _ _ _ data => data

/-- This relay is among those that the data is for. -/
def Target (r : Relay) (ingress : PeerSessionId) (header : DataHeader) : Prop :=
  ingress ≠ 0 ∧ (r.infoBase.peerFib.get₂? (ingress, header.snsId) 0).isSome = true ∧
    (r.infoBase.subscribes.get₂? header.trackFullNameHash r.nodeId).isSome = true

instance (r : Relay) (ingress : PeerSessionId) (header : DataHeader) :
    Decidable (r.Target ingress header) :=
  inferInstanceAs (Decidable (_ ∧ _ ∧ _))

/-- The sessions of a row are connected. -/
def WiredAt (r : Relay) (key : PeerSessionId × SubscribeNodeSetId) : Prop :=
  ∀ egress entry, r.infoBase.peerFib.get₂? key egress = some entry → egress ≠ 0 →
    ∃ session, r.lockSession entry.peerSession = some (egress, session) ∧
      session.status = .connected

theorem WiredAt.row {r : Relay} {key : PeerSessionId × SubscribeNodeSetId} (h : r.WiredAt key)
    (row : ExtTreeMap PeerSessionId FibEntry compare) (hrow : r.infoBase.peerFib[key]? = some row) :
    r.Wired row := by
  intro egress entry hget
  exact h egress entry (ExtTreeMap.get₂?_eq_some.mpr ⟨row, hrow, hget⟩)

theorem clientBytes_flatMap {α : Type} (l : List α) (f : α → List Forwarded) :
    clientBytes (l.flatMap f) = l.flatMap fun a => clientBytes (f a) :=
  List.flatMap_assoc ..

section

variable {r : Relay} (createStream : CreateStream) (ingress : PeerSessionId) {chunk : PeerChunk}

theorem clientBytes_egressOut (egress : PeerSessionId) (entry : FibEntry) :
    clientBytes (egressOut createStream ingress chunk r egress entry) =
      if egress = 0 ∧ ingress ≠ 0 ∧
        (r.infoBase.subscribes.get₂? chunk.header.trackFullNameHash r.nodeId).isSome = true
      then chunk.data.drop chunk.dataOffset else [] := by
  unfold egressOut
  by_cases hingress : egress = ingress
  · rw [if_pos hingress, if_neg]
    · rfl
    · rintro ⟨rfl, hne, -⟩
      exact hne hingress.symm
  rw [if_neg hingress]
  by_cases hzero : egress = 0
  · subst hzero
    rw [if_pos rfl]
    unfold forwardToClients
    cases r.infoBase.subscribes.get₂? chunk.header.trackFullNameHash r.nodeId with
    | none => simp [clientBytes]
    | some si => simp [clientBytes, Ne.symm hingress]
  · rw [if_neg hzero, if_neg fun h => hzero h.1]
    unfold egressSent
    cases egressStream createStream chunk egress entry <;> simp [clientBytes]

theorem clientBytes_egressOuts :
    clientBytes (egressOuts createStream ingress chunk r) =
      if r.Target ingress chunk.header then chunk.data.drop chunk.dataOffset else [] := by
  rw [egressOuts, clientBytes_flatMap]
  simp only [clientBytes_egressOut]
  rw [flatMap_row 0 fun e hne => if_neg fun h => hne h.1]
  by_cases htarget : r.Target ingress chunk.header
  · obtain ⟨hingress, hself, hsub⟩ := htarget
    obtain ⟨entry, hentry⟩ := Option.isSome_iff_exists.mp hself
    rw [if_pos ⟨hingress, hself, hsub⟩, hentry]
    simp [hingress, hsub]
  · rw [if_neg htarget]
    refine List.flatMap_eq_nil_iff.mpr fun entry hentry => if_neg ?_
    rintro ⟨-, hingress, hsub⟩
    exact htarget ⟨hingress, by rw [Option.mem_toList.mp hentry]; rfl, hsub⟩

end

/-! ### The chunks -/

section Frame

variable {r r' : Relay} {ingress : PeerSessionId} {header : DataHeader}

namespace ClientRelay

variable {m : Moqt} {env : HandlerEnv} {n n' : ClientRelay} {streamId : UInt64} {f}

end ClientRelay

end Frame

/-! ### The chunks of a stream -/

section Chunks

open ClientRelay

variable {m : Moqt} {env : HandlerEnv} {n n' : ClientRelay} {createStream : CreateStream}
  {ingress : PeerSessionId} {streamId : UInt64} {header : DataHeader}

/-- What the handlers leave alone. -/
theorem OnlyClientFib.stays {r r' : Relay} (h : OnlyClientFib r r') :
    (∀ k egress, r'.route k egress = r.route k egress) ∧
      (∀ k egress, r'.streamAt k egress = r.streamAt k egress) ∧
      ∀ ingress header, r'.Target ingress header ↔ r.Target ingress header := by
  obtain ⟨clientFib, rfl⟩ := h
  exact ⟨fun _ _ => rfl, fun _ _ => rfl, fun _ _ => Iff.rfl⟩

theorem OnlyClientFib.setPeerFib {r r' : Relay} (h : OnlyClientFib r r') (f) :
    OnlyClientFib (r.setPeerFib f) (r'.setPeerFib f) := by
  obtain ⟨clientFib, rfl⟩ := h
  exact ⟨clientFib, rfl⟩

/-- The length stands at the front of the header. -/
theorem serialize_eq_cons (htype : header.type = .newStream) :
    ∃ tail, header.serialize = 19 :: tail := by
  rw [DataHeader.serialize_of_hasSnsId (.inl htype), DataHeader.fieldsSize_of_hasSnsId (.inl htype),
    if_pos htype]
  exact ⟨_, rfl⟩

theorem processReceivedData_start {data : List UInt8} (hlength : 19 ≤ data.length)
    (hfirst : ∃ tail, data = 19 :: tail)
    (hread : DataHeader.deserialize {} data = some (true, header)) :
    let made := n.forwardPeerData m env createStream ingress
      { isNewStream := true, streamId, header, data, dataOffset := 19, useReliable := true }
    n.processReceivedData m env createStream ingress streamId none data =
      (made.1.map fun n => (true, n, some header), made.2) := by
  obtain ⟨tail, rfl⟩ := hfirst
  have hnineteen : (19 : UInt8).toNat = 19 := rfl
  simp only [processReceivedData]
  rw [hnineteen, if_neg (Nat.not_lt.mpr hlength), hread]

/-- Each session of the row gets the stream with its own id in the header, and nothing else, and the
clients the payload when this relay is a target. -/
def ForwardsWhole (n : ClientRelay) (m : Moqt) (env : HandlerEnv) (createStream : CreateStream)
    (ingress : PeerSessionId) (streamId : UInt64) (header : DataHeader) (payload : List UInt8)
    (chunks : List (List UInt8)) : Prop :=
  let got := n.receiveStream m env createStream ingress streamId none chunks
  got.1.isSome = true ∧
    (∀ egress snsId, n.relay.route ⟨ingress, header.snsId, streamId⟩ egress = some snsId →
      bytesTo egress (forwardedOf got.2) = ({ header with snsId } : DataHeader).serialize ++ payload ∧
        bytesTo egress ((handedBackOf got.2).map .session) = []) ∧
    (n.relay.Target ingress header → clientBytes (forwardedOf got.2) = payload)

/-- The clients take the pieces of a stream without an exception, and send nothing of them to the
sessions that the stream goes to. -/
def Takes (n : ClientRelay) (m : Moqt) (env : HandlerEnv) (ingress : PeerSessionId)
    (streamId : UInt64) (header : DataHeader) (isNewStream : Bool) (pieces : List (List UInt8)) :
    Prop :=
  let run := n.clientRun m env ingress streamId header isNewStream pieces
  run.1.isSome = true ∧
    ∀ egress, (n.relay.route ⟨ingress, header.snsId, streamId⟩ egress).isSome = true →
      bytesTo egress (run.2.map .session) = []

end Chunks

def env : HandlerEnv := ⟨fun _ _ => 100, 1, 2000⟩

/-- The header is in the first chunk, but the clients' part of the stream has no subgroup id: the
exception leaves the loop before the other session's turn. -/
theorem not_forwardsWhole_throw :
    ¬ForwardsWhole servedRoute plain env (fun _ _ => 6) 1 4
      { snsId := 5, trackFullNameHash := 40 } [0x12, 7, 3, 128, 0, 2, 1, 2]
      [({ snsId := 5, trackFullNameHash := 40 } : DataHeader).serialize ++
        [0x12, 7, 3, 128, 0, 2, 1, 2]] := by
  rintro ⟨hsome, -⟩
  revert hsome
  decide +kernel

end Laps.Relay
