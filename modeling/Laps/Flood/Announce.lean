import Laps.Flood.Graph
import Laps.Lib.Flood
import Laps.Peering.Announces

/-! Announcements flood the relays: they get everywhere and die out. -/

namespace Laps.Flood

open Network Peering

variable {ν δ : Type*} {q : Quicr} {g : PeeringGraph ν δ} {n : ν} {r : Relay}

/-! ### What a relay does with announcements -/

/-- The relay has stored an announcement under the full-name hash and the source node. -/
def Holds (r : Relay) (k : UInt64 × NodeIdValueType) : Prop :=
  ∃ info, r.infoBase.announces.get₂? k.1 k.2 = some info

/-- The full-name hash and the source node of a message. -/
def announceKey (msg : AnnounceInfo × Bool) : UInt64 × NodeIdValueType :=
  (msg.1.fullnameHash, msg.1.sourceNodeId)

theorem holds_of_keepsAnnounces {r r' : Relay} (h : Relay.KeepsAnnounces r r')
    (k : UInt64 × NodeIdValueType) : Holds r' k ↔ Holds r k := by
  have hinfo : r'.infoBase.announces = r.infoBase.announces := congrArg Prod.fst h.info
  rw [Holds, Holds, hinfo]

theorem PeeringGraph.Fits.of_keepsAnnounces {r r' : Relay} (h : g.Fits n r)
    (hkeeps : Relay.KeepsAnnounces r r') : g.Fits n r' :=
  ⟨hkeeps.nodeId.trans h.nodeId, fun d hd => hkeeps.connected (h.connected d hd)⟩

theorem PeeringGraph.Fits.sendAnnounceInfos (h : g.Fits n r) (skip : PeerSessionId → Bool)
    (info : AnnounceInfo) (withdraw : Bool) : g.Fits n (r.sendAnnounceInfos skip info withdraw) :=
  ⟨h.nodeId, fun d hd => (h.connected d hd).sendAnnounceInfos skip info withdraw⟩

theorem PeeringGraph.Fits.updateAnnounces (h : g.Fits n r) (info : AnnounceInfo)
    (withdraw : Bool) : g.Fits n (r.updateAnnounces q info withdraw).1 :=
  ⟨h.nodeId, h.connected⟩

theorem PeeringGraph.Fits.clientAnnounce (h : g.Fits n r) (full : FullTrackName)
    (withdraw publishNamespace : Bool) :
    g.Fits n (r.clientAnnounce q full withdraw publishNamespace) :=
  ((h.updateAnnounces _ _).sendAnnounceInfos _ _ _).of_keepsAnnounces
    (Relay.keepsAnnounces_clientAnnounce q r full withdraw publishNamespace)

/-- What is sent over a session by `ClientAnnounce`. -/
theorem announcesTo_clientAnnounce (h : g.Fits n r) {d : δ} (hd : g.node d = n)
    (full : FullTrackName) (withdraw publishNamespace : Bool) :
    (r.clientAnnounce q full withdraw publishNamespace).announcesTo (g.sessionId d) =
      r.announcesTo (g.sessionId d) ++
        [(r.announceInfo q full publishNamespace, withdraw)] := by
  rw [(Relay.keepsAnnounces_clientAnnounce q r full withdraw publishNamespace).announcesTo]
  exact Relay.announcesTo_sendAnnounceInfos (h.connected d hd) (fun _ => false) _ _

theorem holds_advertised (info : AnnounceInfo) (k : UInt64 × NodeIdValueType) :
    Holds (r.updateAnnounces q info false).1 k ↔ Holds r k ∨ k = announceKey (info, false) := by
  have hget := InfoBase.get₂?_addAnnounce q r.infoBase info k.1 k.2
  have hk : (k.1 = info.fullnameHash ∧ k.2 = info.sourceNodeId) ↔
      k = announceKey (info, false) := by
    rw [Prod.ext_iff]
    rfl
  unfold Holds
  by_cases hkey : k = announceKey (info, false)
  · rw [if_pos (hk.mpr hkey)] at hget
    exact ⟨fun _ => Or.inr hkey, fun _ => ⟨_, hget⟩⟩
  · rw [if_neg fun h => hkey (hk.mp h)] at hget
    constructor
    · rintro ⟨old, hold⟩
      exact Or.inl ⟨old, hget.symm.trans hold⟩
    · rintro (⟨old, hold⟩ | heq)
      · exact ⟨old, hget.trans hold⟩
      · exact absurd heq hkey

theorem isUpdated_advertised (info : AnnounceInfo) :
    (r.updateAnnounces q info false).2 = true ↔ ¬ Holds r (announceKey (info, false)) := by
  show (r.infoBase.announces.get₂? info.fullnameHash info.sourceNodeId).isNone = true ↔ _
  rw [Option.isNone_iff_eq_none, Holds, Option.eq_none_iff_forall_ne_some, not_exists]
  rfl

theorem holds_clientAnnounce (full : FullTrackName) (publishNamespace : Bool)
    (k : UInt64 × NodeIdValueType) :
    Holds (r.clientAnnounce q full false publishNamespace) k ↔
      Holds r k ∨ k = ((q.trackHash full).trackFullnameHash, r.nodeId) := by
  rw [holds_of_keepsAnnounces (Relay.keepsAnnounces_clientAnnounce q r full false _)]
  exact holds_advertised (r.announceInfo q full publishNamespace) k

section Received

variable {d : δ} {info : AnnounceInfo}

/-- A message goes over all sessions but the one it has come on. -/
theorem announcesTo_passedOn [DecidableEq δ] (h : g.Fits (g.node d) r) {e : δ}
    (he : g.node e = g.node d) (info : AnnounceInfo) (withdraw : Bool) :
    ((r.updateAnnounces q info withdraw).1.sendAnnounceInfos (· == g.sessionId d) info
      withdraw).announcesTo (g.sessionId e) =
      if e = d then r.announcesTo (g.sessionId e)
      else r.announcesTo (g.sessionId e) ++ [(info, withdraw)] := by
  rw [Relay.announcesTo_sendAnnounceInfos ((h.updateAnnounces _ _).connected e he),
    g.sessionId_beq he]
  simp only [decide_eq_true_eq]
  rfl

/-- An announcement that the relay has is dropped. -/
theorem keepsAnnounces_of_held (h : g.Fits (g.node d) r)
    (hheld : Holds r (announceKey (info, false))) :
    Relay.KeepsAnnounces (r.updateAnnounces q info false).1
      (r.announceInfoReceived q (g.sessionId d) info false) := by
  have hkeeps := Relay.keepsAnnounces_announceInfoReceived q (h.connected d rfl) info false
    (by simp)
  rwa [if_neg fun hupdated => (isUpdated_advertised info).mp hupdated hheld] at hkeeps

/-- A new one is passed on. -/
theorem keepsAnnounces_of_not_held (h : g.Fits (g.node d) r)
    (hnew : ¬ Holds r (announceKey (info, false))) :
    Relay.KeepsAnnounces
      ((r.updateAnnounces q info false).1.sendAnnounceInfos (· == g.sessionId d) info false)
      (r.announceInfoReceived q (g.sessionId d) info false) := by
  have hkeeps := Relay.keepsAnnounces_announceInfoReceived q (h.connected d rfl) info false
    (by simp)
  rwa [if_pos ((isUpdated_advertised info).mpr hnew)] at hkeeps

theorem fits_announceInfoReceived (h : g.Fits (g.node d) r) :
    g.Fits (g.node d) (r.announceInfoReceived q (g.sessionId d) info false) := by
  by_cases hheld : Holds r (announceKey (info, false))
  · exact (h.updateAnnounces _ _).of_keepsAnnounces (keepsAnnounces_of_held h hheld)
  · exact ((h.updateAnnounces _ _).sendAnnounceInfos _ _ _).of_keepsAnnounces
      (keepsAnnounces_of_not_held h hheld)

theorem holds_announceInfoReceived (h : g.Fits (g.node d) r) (k : UInt64 × NodeIdValueType) :
    Holds (r.announceInfoReceived q (g.sessionId d) info false) k ↔
      Holds r k ∨ k = announceKey (info, false) := by
  by_cases hheld : Holds r (announceKey (info, false))
  · rw [holds_of_keepsAnnounces (keepsAnnounces_of_held h hheld)]
    exact holds_advertised info k
  · rw [holds_of_keepsAnnounces (keepsAnnounces_of_not_held h hheld)]
    exact holds_advertised info k

theorem announcesTo_of_not_held [DecidableEq δ] (h : g.Fits (g.node d) r) {e : δ}
    (he : g.node e = g.node d) (hnew : ¬ Holds r (announceKey (info, false))) :
    (r.announceInfoReceived q (g.sessionId d) info false).announcesTo (g.sessionId e) =
      if e = d then r.announcesTo (g.sessionId e)
      else r.announcesTo (g.sessionId e) ++ [(info, false)] := by
  rw [(keepsAnnounces_of_not_held h hnew).announcesTo]
  exact announcesTo_passedOn h he info false

end Received

/-! ### The flood -/

section Flood

/-- Announcements without withdrawals, by their full-name hash and source node. -/
def announceView (q : Quicr) (g : PeeringGraph ν δ) :
    FloodView ν Relay ClientAnnounceCall (AnnounceInfo × Bool) (UInt64 × NodeIdValueType) where
  Ok := g.Fits
  holds := Holds
  GoodInput call := call.withdraw = false
  Good msg := msg.2 = false
  inputKey n call := ((q.trackHash call.full).trackFullnameHash, g.nodeId n)
  key := announceKey

theorem floods_announceProtocol [DecidableEq δ] (q : Quicr) (g : PeeringGraph ν δ) :
    Floods g.toTopology (announceProtocol q g) (announceView q g) where
  ok_input _ h := h.clientAnnounce _ _ _
  ok_receive := by
    rintro d ⟨info, _⟩ s rfl h
    exact fits_announceInfoReceived h
  holds_input := by
    rintro n ⟨full, _, publishNamespace⟩ s k rfl h
    refine (holds_clientAnnounce full publishNamespace k).trans ?_
    rw [h.nodeId]
    rfl
  sent_input := by
    rintro d ⟨full, _, publishNamespace⟩ s rfl h
    refine ⟨(s.announceInfo q full publishNamespace, false), rfl, ?_,
      announcesTo_clientAnnounce h rfl full false publishNamespace⟩
    show ((q.trackHash full).trackFullnameHash, s.nodeId) = _
    rw [h.nodeId]
    rfl
  holds_receive := by
    rintro d ⟨info, _⟩ s k rfl h
    exact holds_announceInfoReceived h k
  sent_receive_old := by
    rintro d e ⟨info, _⟩ s rfl h - hheld
    exact (keepsAnnounces_of_held h hheld).announcesTo _
  sent_receive_new := by
    rintro d e ⟨info, _⟩ s rfl h he hnew
    exact announcesTo_of_not_held h he hnew

/-- Announcements at the relays of a peering graph, each relay announcing a name at most once and
none withdrawing: whatever the order of deliveries, no relay sends a full-name hash and source node
twice over a session, the run is bounded by the number of announcements and sessions, and when
nothing is in flight every relay that is connected to the announcing one has the announcement. -/
theorem announce_flood [DecidableEq ν] [DecidableEq δ] [Fintype δ] (q : Quicr)
    (g : PeeringGraph ν δ) (relays : ν → Relay)
    (hfits : ∀ n, g.Fits n (relays n)) (hnone : ∀ n k, ¬ Holds (relays n) k)
    (hsent : ∀ d, (relays (g.node d)).announcesTo (g.sessionId d) = [])
    (labels : List (Label ν δ ClientAnnounceCall)) (net : Net ν δ Relay)
    (hrun : run g.toTopology (announceProtocol q g) ⟨relays, fun _ => []⟩ labels = some net)
    (hadvertise : ∀ input ∈ inputs labels, input.2.withdraw = false)
    (honce : ((inputs labels).map fun input =>
      (input.1, (q.trackHash input.2.full).trackFullnameHash)).Nodup) :
    (∀ d k, ((net.nodes (g.node d)).announcesTo (g.sessionId d)).countP
      (fun msg => announceKey msg = k) ≤ 1) ∧
    labels.length ≤ (inputs labels).length + Fintype.card δ * (inputs labels).length ∧
    (net.Quiescent g.toTopology (announceProtocol q g) → ∀ input ∈ inputs labels, ∀ m,
      g.Connected input.1 m →
        Holds (net.nodes m) ((q.trackHash input.2.full).trackFullnameHash, g.nodeId input.1)) := by
  have hkeys : (announceView q g).OnceEach labels := by
    refine ⟨hadvertise, ?_⟩
    have hinj : Function.Injective fun key : ν × UInt64 => (key.2, g.nodeId key.1) := by
      intro a b hab
      exact Prod.ext (g.nodeId_injective (Prod.mk.inj hab).2) (Prod.mk.inj hab).1
    have hmap := honce.map hinj
    rwa [List.map_map] at hmap
  obtain ⟨hinv, hown⟩ := floodInv_run (floods_announceProtocol q g) ⟨hfits, hnone, hsent⟩ hrun hkeys
  refine ⟨fun d k => ?_, ?_, fun hquiet input hinput m hm => ?_⟩
  · have hcount := List.nodup_iff_count_le_one.mp (hinv.once d) k
    rw [List.count, List.countP_map] at hcount
    refine le_of_eq_of_le (List.countP_congr fun msg _ => ?_) hcount
    simp [announceView]
  · have hlength := hinv.length_labels_le hrun
    rwa [FloodView.inputKeys, List.length_map] at hlength
  · exact hinv.holds_of_connected hquiet hm (hown input hinput)

end Flood

/-- In the triangle the second relay announces a track, and all messages arrive. -/
def triangleAnnounce : List (Label (Fin 3) (Fin 3 × Bool) ClientAnnounceCall) :=
  [.input 1 ⟨⟨[[1]], [2]⟩, false, false⟩, .deliver (1, true) 0, .deliver (2, true) 0,
    .deliver (0, true) 0, .deliver (1, false) 0]

theorem announce_flood_triangle : ∃ net,
    run triangle.toTopology (announceProtocol .polynomial triangle) ⟨triangleRelay, fun _ => []⟩
      triangleAnnounce = some net ∧
    (∀ d k, ((net.nodes (triangle.node d)).announcesTo (triangle.sessionId d)).countP
      (fun msg => announceKey msg = k) ≤ 1) ∧
    Holds (net.nodes 0) ((Quicr.polynomial.trackHash ⟨[[1]], [2]⟩).trackFullnameHash, 2) := by
  have hquiet : (run triangle.toTopology (announceProtocol .polynomial triangle)
      ⟨triangleRelay, fun _ => []⟩ triangleAnnounce).map (fun net => decide (∀ d,
        ∀ k < (net.sent triangle.toTopology (announceProtocol .polynomial triangle) d).length,
          k ∈ net.delivered d)) = some true := by decide +kernel
  obtain ⟨net, hrun, hnet⟩ := Option.map_eq_some_iff.mp hquiet
  have hflood := announce_flood .polynomial triangle triangleRelay fits_triangleRelay
    (by rintro n k ⟨info, hinfo⟩; simp [triangleRelay] at hinfo) (by decide +kernel)
    triangleAnnounce net hrun (by decide) (by decide +kernel)
  refine ⟨net, hrun, hflood.1, ?_⟩
  refine hflood.2.2 (Net.quiescent_iff.mpr (of_decide_eq_true hnet))
    (1, ⟨⟨[[1]], [2]⟩, false, false⟩) (by decide) 0 ?_
  exact .single ⟨(1, false), rfl, rfl⟩

end Laps.Flood
