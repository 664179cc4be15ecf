import Laps.Flood.Announce
import Laps.Lib.Numbered

/-! Subscriptions flood the relays with numbers of the relay that they are at.  Each session of that
relay gets a number of its own, so a copy that comes around to a relay that has another copy is
taken in again. -/

namespace Laps.Flood

open Network Peering

variable {ν δ : Type*} {q : Quicr} {g : PeeringGraph ν δ} {n : ν} {r : Relay}

/-! ### What a relay does with subscriptions -/

/-- The relay is the one at the node, its sessions in the graph are connected, and all its sessions
have its id. -/
structure Peers (g : PeeringGraph ν δ) (n : ν) (r : Relay) : Prop where
  fits : g.Fits n r
  own : r.OwnSessions

theorem Peers.of_keepsSubscribes {r r' : Relay} (h : Peers g n r)
    (hkeeps : Relay.KeepsSubscribes r r') : Peers g n r' where
  fits := ⟨hkeeps.nodeId.trans h.fits.nodeId,
    fun d hd => Relay.Keeps.connected hkeeps (h.fits.connected d hd)⟩
  own := Relay.Keeps.ownSessions hkeeps h.own

theorem Peers.setInfoBase (h : Peers g n r) (ib : InfoBase) : Peers g n (r.setInfoBase ib) :=
  ⟨⟨h.fits.nodeId, h.fits.connected⟩, h.own.client, h.own.server⟩

theorem Peers.sendSubscribeInfos (h : Peers g n r) (skip : PeerSessionId → Bool)
    (si : SubscribeInfo) (withdraw : Bool) :
    Peers g n (r.sendSubscribeInfos skip si withdraw) where
  fits := ⟨h.fits.nodeId, fun d hd => Relay.Keeps.connected
    (Relay.keeps_sendSubscribeInfos_announceView r skip si withdraw) (h.fits.connected d hd)⟩
  own := Relay.Keeps.ownSessions
    (Relay.keeps_sendSubscribeInfos_announceView r skip si withdraw) h.own

theorem Peers.clientSubscribe (h : Peers g n r) (full : FullTrackName)
    (subscribeData : List UInt8) : Peers g n (r.clientSubscribe q full subscribeData) := by
  unfold Relay.clientSubscribe
  split
  · exact h
  · exact (h.setInfoBase _).sendSubscribeInfos _ _ _

theorem Peers.subscribeInfoReceived {d : δ} (h : Peers g (g.node d) r) (si : SubscribeInfo) :
    Peers g (g.node d) (r.subscribeInfoReceived q (g.sessionId d) si false) := by
  refine Peers.of_keepsSubscribes ?_
    (Relay.keepsSubscribes_subscribeInfoReceived q (h.fits.connected d rfl) si)
  split
  · exact (h.setInfoBase _).sendSubscribeInfos _ _ _
  · exact h.setInfoBase _

/-- The number of the copy that the relay has of the subscription. -/
def storedSeq (hash : UInt64) (source : NodeIdValueType) (r : Relay) : Option UInt16 :=
  (r.infoBase.subscribes.get₂? hash source).map SubscribeInfo.seq

/-- An advertised copy of the subscription. -/
structure IsCopy (hash : UInt64) (source : NodeIdValueType) (msg : SubscribeInfo × Bool) : Prop where
  hash : msg.1.trackHash.trackFullnameHash = hash
  source : msg.1.sourceNodeId = source
  advertised : msg.2 = false

/-- Sending changes nothing but the number. -/
theorem isCopy_sendSubscribeInfo {hash : UInt64} {source : NodeIdValueType} (session : PeerSession)
    {info : SubscribeInfo} (h : IsCopy hash source (info, false)) :
    IsCopy hash source ((session.sendSubscribeInfo info false).2, false) := by
  unfold PeerSession.sendSubscribeInfo SubscribeInfo.serialize
  split
  · exact h
  · dsimp only
    split
    · exact ⟨h.hash, h.source, rfl⟩
    · exact h

/-- The relays that a subscription is not at leave the number alone. -/
theorem sendSubscribeInfo_of_ne {session : PeerSession} {info : SubscribeInfo}
    (h : session.nodeId ≠ info.sourceNodeId) (withdraw : Bool) :
    (session.sendSubscribeInfo info withdraw).2 = info := by
  unfold PeerSession.sendSubscribeInfo SubscribeInfo.serialize
  split
  · rfl
  · simp [h]

section Received

variable {hash : UInt64} {source : NodeIdValueType} {msg : SubscribeInfo × Bool}

theorem updateSubscribes_same (hmsg : IsCopy hash source msg)
    (hsame : storedSeq hash source r = some msg.1.seq) :
    r.updateSubscribes msg.1 false = (r, false) := by
  obtain ⟨old, hold, hseq⟩ := Option.map_eq_some_iff.mp hsame
  simp [Relay.updateSubscribes, InfoBase.addSubscribe, hmsg.hash, hmsg.source, hold, hseq,
    Relay.setInfoBase]

theorem updateSubscribes_other (hmsg : IsCopy hash source msg)
    (hother : storedSeq hash source r ≠ some msg.1.seq) :
    (r.updateSubscribes msg.1 false).2 = true ∧
      storedSeq hash source (r.updateSubscribes msg.1 false).1 = some msg.1.seq := by
  unfold storedSeq at hother ⊢
  cases hold : r.infoBase.subscribes.get₂? hash source with
  | none =>
    simp [Relay.updateSubscribes, InfoBase.addSubscribe, hmsg.hash, hmsg.source, hold,
      Relay.setInfoBase, Std.ExtTreeMap.get₂?_insert₂]
  | some old =>
    have hseq : old.seq ≠ msg.1.seq := by
      rw [hold] at hother
      simpa using hother
    simp [Relay.updateSubscribes, InfoBase.addSubscribe, hmsg.hash, hmsg.source, hold, hseq,
      Relay.setInfoBase, Std.ExtTreeMap.get₂?_insert₂]

theorem storedSeq_of_keepsSubscribes {r r' : Relay} (h : Relay.KeepsSubscribes r r') :
    storedSeq hash source r' = storedSeq hash source r := by
  unfold storedSeq
  rw [h.info]

/-- A copy with the number of the one that the relay has is dropped. -/
theorem keepsSubscribes_of_same {d : δ} (h : Peers g (g.node d) r) (hmsg : IsCopy hash source msg)
    (hsame : storedSeq hash source r = some msg.1.seq) :
    Relay.KeepsSubscribes r (r.subscribeInfoReceived q (g.sessionId d) msg.1 false) := by
  have hkeeps := Relay.keepsSubscribes_subscribeInfoReceived q (h.fits.connected d rfl) msg.1
  rwa [updateSubscribes_same hmsg hsame] at hkeeps

/-- Any other copy is stored and passed on. -/
theorem keepsSubscribes_of_other {d : δ} (h : Peers g (g.node d) r) (hmsg : IsCopy hash source msg)
    (hother : storedSeq hash source r ≠ some msg.1.seq) :
    Relay.KeepsSubscribes ((r.updateSubscribes msg.1 false).1.sendSubscribeInfos
      (· == g.sessionId d) msg.1 false) (r.subscribeInfoReceived q (g.sessionId d) msg.1 false) := by
  have hkeeps := Relay.keepsSubscribes_subscribeInfoReceived q (h.fits.connected d rfl) msg.1
  rwa [if_pos (updateSubscribes_other hmsg hother).1] at hkeeps

/-- The copies that a relay passes on have the number of the one that has come. -/
theorem subscribesTo_passedOn [DecidableEq δ] {d e : δ} (h : Peers g (g.node d) r)
    (hmsg : IsCopy hash source msg) (hsource : g.nodeId (g.node d) ≠ source)
    (he : g.node e = g.node d) :
    (e = d ∧ ((r.updateSubscribes msg.1 false).1.sendSubscribeInfos (· == g.sessionId d) msg.1
      false).subscribesTo (g.sessionId e) = r.subscribesTo (g.sessionId e)) ∨
    (e ≠ d ∧ ∃ msg', IsCopy hash source msg' ∧ msg'.1.seq = msg.1.seq ∧
      ((r.updateSubscribes msg.1 false).1.sendSubscribeInfos (· == g.sessionId d) msg.1
        false).subscribesTo (g.sessionId e) = r.subscribesTo (g.sessionId e) ++ [msg']) := by
  have hset := h.setInfoBase (r.updateSubscribes msg.1 false).1.infoBase
  have hunchanged : ∀ (session : PeerSession) info, session.nodeId = r.nodeId → info = msg.1 →
      (session.sendSubscribeInfo info false).2 = msg.1 := by
    rintro session info hown rfl
    apply sendSubscribeInfo_of_ne
    rwa [hown, hmsg.source, h.fits.nodeId]
  have hsent := Relay.subscribesTo_sendSubscribeInfos (P := fun info => info = msg.1)
    (· == g.sessionId d) hunchanged hset.own rfl (hset.fits.connected e he)
  rw [g.sessionId_beq he] at hsent
  rcases hsent with ⟨heq, hsent⟩ | ⟨hne, info, rfl, hsent⟩
  · exact Or.inl ⟨of_decide_eq_true heq, hsent⟩
  · refine Or.inr ⟨of_decide_eq_false hne, (msg.1, false), ⟨hmsg.hash, hmsg.source, rfl⟩, rfl, ?_⟩
    exact hsent

end Received

/-! ### The flood -/

section Flood

/-- The copies of the subscription that a call makes at `o`. -/
def subscribeNumbers (q : Quicr) (g : PeeringGraph ν δ) (o : ν) (call : ClientSubscribeCall) :
    NumberedView ν Relay ClientSubscribeCall (SubscribeInfo × Bool) UInt16 where
  Ok := Peers g
  stored := storedSeq (q.trackHash call.full).trackFullnameHash (g.nodeId o)
  start := call
  Good := IsCopy (q.trackHash call.full).trackFullnameHash (g.nodeId o)
  number msg := msg.1.seq

variable {o : ν}

/-- The relay sends one copy over each of its sessions. -/
theorem subscribesTo_clientSubscribe (h : Peers g o r) (call : ClientSubscribeCall) {e : δ}
    (he : g.node e = o) :
    (r.clientSubscribe q call.full call.subscribeData).subscribesTo (g.sessionId e) =
      r.subscribesTo (g.sessionId e) ∨
    ∃ msg, IsCopy (q.trackHash call.full).trackFullnameHash (g.nodeId o) msg ∧
      (r.clientSubscribe q call.full call.subscribeData).subscribesTo (g.sessionId e) =
        r.subscribesTo (g.sessionId e) ++ [msg] := by
  unfold Relay.clientSubscribe
  split
  · exact Or.inl rfl
  · set si : SubscribeInfo :=
      { sourceNodeId := r.nodeId
        trackHash := q.trackHash call.full
        subscribeData := call.subscribeData }
    have hset := h.setInfoBase (r.infoBase.addSubscribe si).1
    have hcopy : IsCopy (q.trackHash call.full).trackFullnameHash (g.nodeId o) (si, false) :=
      ⟨rfl, h.fits.nodeId, rfl⟩
    have hsent := Relay.subscribesTo_sendSubscribeInfos (fun _ => false)
      (P := fun info => IsCopy (q.trackHash call.full).trackFullnameHash (g.nodeId o) (info, false))
      (fun session info _ => isCopy_sendSubscribeInfo session) hset.own hcopy
      (hset.fits.connected e he)
    rcases hsent with ⟨hskip, -⟩ | ⟨-, info, hinfo, hsent⟩
    · cases hskip
    · exact Or.inr ⟨(info, false), hinfo, hsent⟩

theorem numbers_subscribeProtocol [DecidableEq δ] (q : Quicr) (g : PeeringGraph ν δ) (o : ν)
    (call : ClientSubscribeCall) :
    Numbers g.toTopology (subscribeProtocol q g) (subscribeNumbers q g o call) o := by
  constructor
  case ok_start =>
    intro s h
    exact h.clientSubscribe _ _
  case ok_receive =>
    rintro d ⟨info, withdraw⟩ s hgood h
    obtain rfl : withdraw = false := hgood.advertised
    exact h.subscribeInfoReceived info
  case start =>
    intro e s h he
    exact subscribesTo_clientSubscribe h call he
  case receive_same =>
    rintro d ⟨info, withdraw⟩ s hgood h hsame
    obtain rfl : withdraw = false := hgood.advertised
    have hkeeps := keepsSubscribes_of_same (q := q) h hgood hsame
    exact ⟨storedSeq_of_keepsSubscribes hkeeps, fun e _ => hkeeps.subscribesTo _⟩
  case receive_other =>
    rintro d ⟨info, withdraw⟩ s hgood h hne hother
    obtain rfl : withdraw = false := hgood.advertised
    have hkeeps := keepsSubscribes_of_other (q := q) h hgood hother
    refine ⟨?_, fun e he => ?_⟩
    · exact (storedSeq_of_keepsSubscribes hkeeps).trans (updateSubscribes_other hgood hother).2
    · have hsent := hkeeps.subscribesTo (g.sessionId e)
      have hsource : g.nodeId (g.node d) ≠ g.nodeId o := fun heq => hne (g.nodeId_injective heq)
      rcases subscribesTo_passedOn h hgood hsource he with
        ⟨heq, hsame⟩ | ⟨hed, msg', hcopy, hseq, hnew⟩
      · exact Or.inl ⟨heq, hsent.trans hsame⟩
      · exact Or.inr ⟨hed, msg', hcopy, hseq, hsent.trans hnew⟩

/-- A single `ClientSubscribe` at a relay of a peering graph that lies on no cycle: whatever the
order of deliveries, no relay sends the subscription twice over a session, and the run is bounded by
the number of sessions. -/
theorem subscribe_flood [DecidableEq ν] [DecidableEq δ] [Fintype δ] (q : Quicr)
    (g : PeeringGraph ν δ) (relays : ν → Relay) (o : ν) (call : ClientSubscribeCall)
    (hoff : g.OffCycles o) (hpeers : ∀ n, Peers g n (relays n))
    (hnone : ∀ n, (relays n).infoBase.subscribes.get₂?
      (q.trackHash call.full).trackFullnameHash (g.nodeId o) = none)
    (hsent : ∀ d, (relays (g.node d)).subscribesTo (g.sessionId d) = [])
    (labels : List (Label ν δ ClientSubscribeCall)) (net : Net ν δ Relay)
    (hrun : run g.toTopology (subscribeProtocol q g) ⟨relays, fun _ => []⟩ labels = some net)
    (hinputs : inputs labels <+: [(o, call)]) :
    (∀ d, ((net.nodes (g.node d)).subscribesTo (g.sessionId d)).length ≤ 1) ∧
    labels.length ≤ 1 + Fintype.card δ := by
  have hinv := numberedInv_run (numbers_subscribeProtocol q g o call) hoff hpeers
    (fun n => by show (_ : Option _).map _ = none; rw [hnone, Option.map_none]) hsent hrun hinputs
  refine ⟨hinv.once, ?_⟩
  calc labels.length
      ≤ (inputs labels).length +
        ∑ d, (net.sent g.toTopology (subscribeProtocol q g) d).length :=
        hinv.delivered.length_labels_le hrun
    _ ≤ 1 + ∑ _d : δ, 1 :=
        Nat.add_le_add hinputs.length_le (Finset.sum_le_sum fun d _ => hinv.once d)
    _ = 1 + Fintype.card δ := by simp

end Flood

/-! ### Runs -/

/-- Three relays in a cycle, and a fourth with a session to the first. -/
def lasso : PeeringGraph (Fin 4) (Fin 4 × Bool) where
  node d := if d.2 then d.1 else if d.1 = 2 ∨ d.1 = 3 then 0 else d.1 + 1
  opposite d := (d.1, !d.2)
  opposite_opposite := by decide
  nodeId n := UInt64.ofNat (n.val + 1)
  nodeId_injective := by decide
  sessionId d := if d.1 = 3 then 3 else if d.2 then 1 else 2
  sessionId_inj := by decide

def lassoRelay (n : Fin 4) : Relay where
  nodeId := lasso.nodeId n
  clientPeerSessions :=
    (if n = 0 then [1, 2, 3] else if n = 3 then [3] else [1, 2]).foldl (fun m id =>
      m.insert id { status := .connected, nodeId := lasso.nodeId n }) ∅

theorem peers_lassoRelay (n : Fin 4) : Peers lasso n (lassoRelay n) := by
  have hget : ∀ d, (lassoRelay (lasso.node d)).getPeerSession (lasso.sessionId d) =
      some { status := .connected, nodeId := lasso.nodeId (lasso.node d) } := by decide +kernel
  have hinserts : ∀ (ids : List PeerSessionId) (s : PeerSession)
      (m : Std.ExtTreeMap PeerSessionId PeerSession),
      (∀ (id : PeerSessionId) session, m[id]? = some session → session = s) →
      ∀ (id : PeerSessionId) session, (ids.foldl (fun m id => m.insert id s) m)[id]? = some session →
        session = s := by
    intro ids s
    induction ids with
    | nil => exact fun m hm => hm
    | cons id' ids ih =>
      intro m hm
      refine ih (m.insert id' s) fun id session hsession => ?_
      rw [Std.ExtTreeMap.getElem?_insert] at hsession
      split at hsession
      · exact (Option.some.inj hsession).symm
      · exact hm id session hsession
  refine ⟨⟨rfl, ?_⟩, ?_, ?_⟩
  · rintro d rfl
    exact ⟨_, hget d, rfl, rfl⟩
  · intro id session hsession
    exact congrArg PeerSession.nodeId (hinserts _ _ ∅ (by simp) id session hsession)
  · intro id session hsession
    simp [lassoRelay] at hsession

theorem offCycles_lasso : lasso.OffCycles 3 := by
  have hone : ∀ d, lasso.node d = 3 → d = (3, true) := by decide
  exact ⟨by decide, fun d e hd he _ => (hone d hd).trans (hone e he).symm⟩

def lassoSubscribe : List (Label (Fin 4) (Fin 4 × Bool) ClientSubscribeCall) :=
  [.input 3 ⟨⟨[[1]], [2]⟩, [1]⟩, .deliver (3, true) 0, .deliver (0, true) 0, .deliver (2, false) 0,
    .deliver (1, true) 0, .deliver (1, false) 0]

theorem subscribe_flood_lasso : ∃ net,
    run lasso.toTopology (subscribeProtocol .polynomial lasso) ⟨lassoRelay, fun _ => []⟩
      lassoSubscribe = some net ∧
    ∀ d, ((net.nodes (lasso.node d)).subscribesTo (lasso.sessionId d)).length ≤ 1 := by
  have hsome : (run lasso.toTopology (subscribeProtocol .polynomial lasso)
      ⟨lassoRelay, fun _ => []⟩ lassoSubscribe).isSome = true := by decide +kernel
  obtain ⟨net, hrun⟩ := Option.isSome_iff_exists.mp hsome
  have hflood := subscribe_flood .polynomial lasso lassoRelay 3 ⟨⟨[[1]], [2]⟩, [1]⟩ offCycles_lasso
    peers_lassoRelay (fun _ => rfl) (by decide +kernel) lassoSubscribe net hrun (by decide)
  exact ⟨net, hrun, hflood.1⟩

/-- The copy for the second relay goes around the triangle, and the first relay takes it in. -/
theorem not_subscribe_flood :
    ¬ ∀ (labels : List (Label (Fin 3) (Fin 3 × Bool) ClientSubscribeCall))
      (net : Net (Fin 3) (Fin 3 × Bool) Relay),
      run triangle.toTopology (subscribeProtocol .polynomial triangle)
        ⟨triangleRelay, fun _ => []⟩ labels = some net →
      inputs labels = [(0, ⟨⟨[[1]], [2]⟩, [1]⟩)] →
      ∀ d, ((net.nodes (triangle.node d)).subscribesTo (triangle.sessionId d)).length ≤ 1 := by
  intro hclaim
  have htwice : (run triangle.toTopology (subscribeProtocol .polynomial triangle)
      ⟨triangleRelay, fun _ => []⟩ [.input 0 ⟨⟨[[1]], [2]⟩, [1]⟩, .deliver (0, true) 0,
        .deliver (1, true) 0, .deliver (2, true) 0]).map
      (fun net => ((net.nodes 0).subscribesTo 1).length) = some 2 := by decide +kernel
  obtain ⟨net, hrun, hnet⟩ := Option.map_eq_some_iff.mp htwice
  have honce := hclaim _ net hrun (by decide) (0, true)
  change ((net.nodes 0).subscribesTo 1).length ≤ 1 at honce
  omega

end Laps.Flood
