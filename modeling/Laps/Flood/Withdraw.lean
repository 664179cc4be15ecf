import Laps.Flood.Announce
import Laps.Lib.Recall

/-! A publication that is announced and withdrawn again.  Announce messages carry no sequence
number: an advertisement that comes late, to a relay that has seen the withdrawal, brings the
publication back. -/

namespace Laps.Flood

open Network Peering Std

variable {ν δ : Type*} {q : Quicr} {g : PeeringGraph ν δ} {n : ν} {r : Relay}
variable {info : AnnounceInfo}

/-! ### The tables of one announcement -/

/-- The tables know the full-name hash of the announcement from its source only, and list it under
the prefixes of its namespace. -/
structure Indexes (q : Quicr) (info : AnnounceInfo) (ib : InfoBase) : Prop where
  rows : ib.announces.NoEmptyRow
  sets : InfoBase.NoEmptySet ib.prefixLookupAnnounces
  only : ∀ m a, ib.announces.get₂? info.fullnameHash m = some a → m = info.sourceNodeId
  indexed : ∀ x, InfoBase.Indexed ib.prefixLookupAnnounces x info.fullnameHash ↔
    (∃ a, ib.announces.get₂? info.fullnameHash info.sourceNodeId = some a) ∧
      x ∈ InfoBase.prefixHashNamespaceTuples q info.nameSpace

theorem Indexes.contains_iff {ib : InfoBase} (h : Indexes q info ib) :
    ib.announces.contains info.fullnameHash = true ↔
      ∃ a, ib.announces.get₂? info.fullnameHash info.sourceNodeId = some a := by
  rw [h.rows.contains_iff]
  constructor
  · rintro ⟨m, a, ha⟩
    exact ⟨a, h.only m a ha ▸ ha⟩
  · rintro ⟨a, ha⟩
    exact ⟨_, a, ha⟩

theorem Indexes.addAnnounce {ib : InfoBase} (h : Indexes q info ib) :
    Indexes q info (ib.addAnnounce q info).1 := by
  have hget := InfoBase.get₂?_addAnnounce q ib info
  have hstored : ∃ a, (ib.addAnnounce q info).1.announces.get₂? info.fullnameHash
      info.sourceNodeId = some a := ⟨_, by rw [hget, if_pos ⟨rfl, rfl⟩]⟩
  refine ⟨h.rows.insertIfNew₂ _ _ _, h.sets.addAnnounce q ib info, ?_, ?_⟩
  · intro m a ha
    rw [hget] at ha
    split at ha
    · rename_i hkey
      exact hkey.2
    · exact h.only m a ha
  · intro x
    rw [InfoBase.indexed_addAnnounce, h.indexed]
    cases hold : ib.announces.get₂? info.fullnameHash info.sourceNodeId with
    | none => simp [hstored]
    | some a => simp [hstored]

theorem noEmptyRow_removeAnnounce {ib : InfoBase} (h : ib.announces.NoEmptyRow)
    (a : AnnounceInfo) : (ib.removeAnnounce q a).1.announces.NoEmptyRow := by
  unfold InfoBase.removeAnnounce
  split
  · exact h.erase₂ _ _
  · exact h

theorem Indexes.removeAnnounce {ib : InfoBase} (h : Indexes q info ib) :
    Indexes q info (ib.removeAnnounce q info).1 := by
  have hget := InfoBase.get₂?_removeAnnounce q ib info
  obtain ⟨hsets, hindexed⟩ := InfoBase.prefixLookup_removeAnnounce q ib info h.sets
  refine ⟨noEmptyRow_removeAnnounce h.rows info, hsets, ?_, ?_⟩
  · intro m a ha
    rw [hget] at ha
    split at ha
    · cases ha
    · exact h.only m a ha
  · intro x
    rw [hindexed, h.indexed, h.contains_iff, hget, if_pos ⟨rfl, rfl⟩]
    constructor
    · rintro ⟨⟨hstored, hx⟩, hnot⟩
      exact absurd ⟨hstored, hx, rfl⟩ hnot
    · rintro ⟨⟨a, ha⟩, -⟩
      cases ha

/-- The removal is reported when there was something to remove. -/
theorem Indexes.removed_iff {ib : InfoBase} (h : Indexes q info ib) (hne : info.nameSpace ≠ []) :
    (ib.removeAnnounce q info).2 = true ↔
      ∃ a, ib.announces.get₂? info.fullnameHash info.sourceNodeId = some a := by
  rw [InfoBase.removed_removeAnnounce, h.contains_iff]
  constructor
  · exact fun hremoved => hremoved.1
  · intro hstored
    obtain ⟨x, hx⟩ : ∃ x, x ∈ InfoBase.prefixHashNamespaceTuples q info.nameSpace := by
      obtain ⟨tuple, rest, hcons⟩ := List.exists_cons_of_ne_nil hne
      rw [hcons]
      exact ⟨_, List.mem_cons_self⟩
    exact ⟨hstored, x, hx, (h.indexed x).mpr ⟨hstored, hx⟩⟩

/-! ### What a relay does with the withdrawal -/

/-- The relay is the one at the node, and its tables are in order. -/
structure Tracks (q : Quicr) (g : PeeringGraph ν δ) (info : AnnounceInfo) (n : ν) (r : Relay) :
    Prop where
  fits : g.Fits n r
  indexes : Indexes q info r.infoBase

theorem Tracks.of_keepsAnnounces {r r' : Relay} (h : Tracks q g info n r)
    (hkeeps : Relay.KeepsAnnounces r r') : Tracks q g info n r' := by
  have hannounces : r'.infoBase.announces = r.infoBase.announces := congrArg Prod.fst hkeeps.info
  have hlookup : r'.infoBase.prefixLookupAnnounces = r.infoBase.prefixLookupAnnounces :=
    congrArg Prod.snd hkeeps.info
  refine ⟨h.fits.of_keepsAnnounces hkeeps, ?_, ?_, ?_, ?_⟩
  · exact hannounces ▸ h.indexes.rows
  · exact hlookup ▸ h.indexes.sets
  · exact hannounces ▸ h.indexes.only
  · rw [hannounces, hlookup]
    exact h.indexes.indexed

theorem Tracks.updateAnnounces (h : Tracks q g info n r) (withdraw : Bool) :
    Tracks q g info n (r.updateAnnounces q info withdraw).1 := by
  refine ⟨h.fits.updateAnnounces info withdraw, ?_⟩
  cases withdraw with
  | false => exact h.indexes.addAnnounce
  | true => exact h.indexes.removeAnnounce

theorem Tracks.sendAnnounceInfos (h : Tracks q g info n r) (skip : PeerSessionId → Bool)
    (withdraw : Bool) : Tracks q g info n (r.sendAnnounceInfos skip info withdraw) :=
  ⟨h.fits.sendAnnounceInfos skip info withdraw, h.indexes⟩

theorem not_holds_withdrawn :
    ¬ Holds (r.updateAnnounces q info true).1 (announceKey (info, true)) := by
  rintro ⟨a, ha⟩
  have hget := InfoBase.get₂?_removeAnnounce q r.infoBase info info.fullnameHash
    info.sourceNodeId
  rw [if_pos ⟨rfl, rfl⟩] at hget
  cases hget.symm.trans ha

theorem isUpdated_withdrawn (h : Tracks q g info n r) (hne : info.nameSpace ≠ []) :
    (r.updateAnnounces q info true).2 = true ↔ Holds r (announceKey (info, true)) :=
  h.indexes.removed_iff hne

section Received

variable {d : δ}

/-- What a message does that changes the announcements: it is passed on. -/
theorem passesOn_of_updated [DecidableEq δ] (h : Tracks q g info (g.node d) r) {withdraw : Bool}
    (hkind : info.flags &&& 1 ≠ 1) (hupdated : (r.updateAnnounces q info withdraw).2 = true) :
    Relay.KeepsAnnounces
      ((r.updateAnnounces q info withdraw).1.sendAnnounceInfos (· == g.sessionId d) info withdraw)
      (r.announceInfoReceived q (g.sessionId d) info withdraw) ∧
    PassesOn g.toTopology (announceProtocol q g) (g.node d) (some d) (info, withdraw) r
      (r.announceInfoReceived q (g.sessionId d) info withdraw) := by
  have hkeeps := Relay.keepsAnnounces_announceInfoReceived q (h.fits.connected d rfl) info withdraw
    fun _ => hkind
  rw [if_pos hupdated] at hkeeps
  refine ⟨hkeeps, fun e he => ?_⟩
  show (r.announceInfoReceived q (g.sessionId d) info withdraw).announcesTo (g.sessionId e) = _
  rw [hkeeps.announcesTo, announcesTo_passedOn h.fits he]
  simp only [Option.some.injEq]
  rfl

theorem keepsAnnounces_of_not_updated (h : Tracks q g info (g.node d) r) {withdraw : Bool}
    (hkind : info.flags &&& 1 ≠ 1) (hupdated : ¬ (r.updateAnnounces q info withdraw).2 = true) :
    Relay.KeepsAnnounces (r.updateAnnounces q info withdraw).1
      (r.announceInfoReceived q (g.sessionId d) info withdraw) := by
  have hkeeps := Relay.keepsAnnounces_announceInfoReceived q (h.fits.connected d rfl) info withdraw
    fun _ => hkind
  rwa [if_neg hupdated] at hkeeps

theorem Tracks.announceInfoReceived [DecidableEq δ] (h : Tracks q g info (g.node d) r)
    (hkind : info.flags &&& 1 ≠ 1) (withdraw : Bool) :
    Tracks q g info (g.node d) (r.announceInfoReceived q (g.sessionId d) info withdraw) := by
  by_cases hupdated : (r.updateAnnounces q info withdraw).2 = true
  · exact ((h.updateAnnounces withdraw).sendAnnounceInfos _ withdraw).of_keepsAnnounces
      (passesOn_of_updated h hkind hupdated).1
  · exact (h.updateAnnounces withdraw).of_keepsAnnounces
      (keepsAnnounces_of_not_updated h hkind hupdated)

end Received

/-! ### The recall -/

/-- The announcement of a track by a publish at the relay `o`. -/
def publishInfo (q : Quicr) (g : PeeringGraph ν δ) (o : ν) (full : FullTrackName) :
    AnnounceInfo where
  sourceNodeId := g.nodeId o
  nameSpace := full.nameSpace
  name := full.name
  fullnameHash := (q.trackHash full).trackFullnameHash

/-- A publication at `o` that is announced and withdrawn. -/
def publishView (q : Quicr) (g : PeeringGraph ν δ) (o : ν) (full : FullTrackName) :
    RecallView ν Relay ClientAnnounceCall (AnnounceInfo × Bool) where
  Ok := Tracks q g (publishInfo q g o full)
  holds r := Holds r ((q.trackHash full).trackFullnameHash, g.nodeId o)
  announce := { full, withdraw := false }
  withdraw := { full, withdraw := true }
  advertised := (publishInfo q g o full, false)
  withdrawn := (publishInfo q g o full, true)

section Recall

variable {o : ν} {full : FullTrackName}

theorem announceInfo_eq_publishInfo (q : Quicr) (full : FullTrackName) (h : g.Fits o r) :
    r.announceInfo q full false = publishInfo q g o full := by
  unfold Relay.announceInfo publishInfo
  rw [h.nodeId]
  rfl

/-- What `ClientAnnounce` does at the origin. -/
theorem clientAnnounce_spec [DecidableEq δ] (h : Tracks q g (publishInfo q g o full) o r)
    (withdraw : Bool) :
    Relay.KeepsAnnounces
      ((r.updateAnnounces q (publishInfo q g o full) withdraw).1.sendAnnounceInfos (fun _ => false)
        (publishInfo q g o full) withdraw)
      (r.clientAnnounce q full withdraw false) ∧
    PassesOn g.toTopology (announceProtocol q g) o none (publishInfo q g o full, withdraw) r
      (r.clientAnnounce q full withdraw false) := by
  have hinfo := announceInfo_eq_publishInfo q full h.fits
  have hkeeps := Relay.keepsAnnounces_clientAnnounce q r full withdraw false
  rw [hinfo] at hkeeps
  refine ⟨hkeeps, fun e he => ?_⟩
  rw [if_neg (by simp)]
  show (r.clientAnnounce q full withdraw false).announcesTo (g.sessionId e) = _
  rw [announcesTo_clientAnnounce h.fits he, hinfo]
  rfl

theorem recalls_announceProtocol [DecidableEq δ] (q : Quicr) (g : PeeringGraph ν δ) (o : ν)
    {full : FullTrackName} (hne : full.nameSpace ≠ []) :
    Recalls g.toTopology (announceProtocol q g) (publishView q g o full) o := by
  have hkind : (publishInfo q g o full).flags &&& 1 ≠ 1 := by
    show (0 : UInt8) &&& 1 ≠ 1
    decide
  constructor
  case distinct =>
    intro heq
    cases (Prod.mk.inj heq).2
  case ok_announce =>
    intro s h
    exact ((h.updateAnnounces false).sendAnnounceInfos _ false).of_keepsAnnounces
      (clientAnnounce_spec h false).1
  case ok_withdraw =>
    intro s h
    exact ((h.updateAnnounces true).sendAnnounceInfos _ true).of_keepsAnnounces
      (clientAnnounce_spec h true).1
  case ok_advertised =>
    intro d s h
    exact h.announceInfoReceived hkind false
  case ok_withdrawn =>
    intro d s h
    exact h.announceInfoReceived hkind true
  case announce =>
    intro s h
    obtain ⟨hkeeps, hpass⟩ := clientAnnounce_spec h false
    refine ⟨(holds_of_keepsAnnounces hkeeps _).mpr ?_, hpass⟩
    exact (holds_advertised _ _).mpr (Or.inr rfl)
  case withdraw =>
    intro s h
    obtain ⟨hkeeps, hpass⟩ := clientAnnounce_spec h true
    refine ⟨fun hheld => ?_, hpass⟩
    exact not_holds_withdrawn ((holds_of_keepsAnnounces hkeeps _).mp hheld)
  case advertised_held =>
    intro d s h hheld
    have hkeeps : Relay.KeepsAnnounces (s.updateAnnounces q (publishInfo q g o full) false).1 _ :=
      keepsAnnounces_of_held h.fits hheld
    refine ⟨(holds_of_keepsAnnounces hkeeps _).mpr ?_, fun e _ => hkeeps.announcesTo _⟩
    exact (holds_advertised _ _).mpr (Or.inr rfl)
  case advertised_new =>
    intro d s h hnew
    obtain ⟨hkeeps, hpass⟩ := passesOn_of_updated h hkind
      ((isUpdated_advertised (publishInfo q g o full)).mpr hnew)
    refine ⟨(holds_of_keepsAnnounces hkeeps _).mpr ?_, hpass⟩
    exact (holds_advertised _ _).mpr (Or.inr rfl)
  case withdrawn_held =>
    intro d s h hheld
    obtain ⟨hkeeps, hpass⟩ := passesOn_of_updated h hkind ((isUpdated_withdrawn h hne).mpr hheld)
    refine ⟨fun hheld' => ?_, hpass⟩
    exact not_holds_withdrawn ((holds_of_keepsAnnounces hkeeps _).mp hheld')
  case withdrawn_gone =>
    intro d s h hgone
    have hkeeps := keepsAnnounces_of_not_updated h hkind
      fun hupdated => hgone ((isUpdated_withdrawn h hne).mp hupdated)
    refine ⟨fun hheld => ?_, fun e _ => hkeeps.announcesTo _⟩
    exact not_holds_withdrawn ((holds_of_keepsAnnounces hkeeps _).mp hheld)

/-- The tables know nothing of the full-name hash. -/
structure Unknown (fullnameHash : UInt64) (ib : InfoBase) : Prop where
  rows : ib.announces.NoEmptyRow
  sets : InfoBase.NoEmptySet ib.prefixLookupAnnounces
  announces : ∀ m, ib.announces.get₂? fullnameHash m = none
  lookup : ∀ x, ¬ InfoBase.Indexed ib.prefixLookupAnnounces x fullnameHash

theorem Unknown.indexes {ib : InfoBase} (h : Unknown info.fullnameHash ib) :
    Indexes q info ib := by
  refine ⟨h.rows, h.sets, fun m a ha => ?_, fun x => iff_of_false (h.lookup x) ?_⟩
  · cases (h.announces m).symm.trans ha
  · rintro ⟨⟨a, ha⟩, -⟩
    cases (h.announces _).symm.trans ha

theorem Unknown.not_holds {k : UInt64 × NodeIdValueType} (h : Unknown k.1 r.infoBase) :
    ¬ Holds r k := by
  rintro ⟨a, ha⟩
  cases (h.announces _).symm.trans ha

/-- A publish announced at the relay `o` and withdrawn there, with FIFO sessions, such that no
advertisement comes to a relay that has held the publication and dropped it: the withdrawal goes at
most once over each session, and when nothing is in flight no relay holds the publication. -/
theorem withdraw_flood [DecidableEq ν] [DecidableEq δ] (q : Quicr) (g : PeeringGraph ν δ)
    (relays : ν → Relay) (o : ν) (full : FullTrackName) (hne : full.nameSpace ≠ [])
    (hfits : ∀ n, g.Fits n (relays n))
    (hunknown : ∀ n, Unknown (q.trackHash full).trackFullnameHash (relays n).infoBase)
    (hsent : ∀ d, (relays (g.node d)).announcesTo (g.sessionId d) = [])
    (labels : List (Label ν δ ClientAnnounceCall)) (net : Net ν δ Relay)
    (hrun : run g.toTopology (announceProtocol q g) ⟨relays, fun _ => []⟩ labels = some net)
    (hinputs : inputs labels <+: [(o, { full, withdraw := false }), (o, { full, withdraw := true })])
    (hfifo : Fifo labels)
    (hintime : InTime g.toTopology (announceProtocol q g) (publishView q g o full) relays labels) :
    (∀ d, ((net.nodes (g.node d)).announcesTo (g.sessionId d)).countP (fun msg =>
      announceKey msg = ((q.trackHash full).trackFullnameHash, g.nodeId o) ∧ msg.2 = true) ≤ 1) ∧
    (inputs labels = [(o, { full, withdraw := false }), (o, { full, withdraw := true })] →
      net.Quiescent g.toTopology (announceProtocol q g) →
      ∀ n, ¬ Holds (net.nodes n) ((q.trackHash full).trackFullnameHash, g.nodeId o)) := by
  have hinv := recallInv_run (recalls_announceProtocol q g o hne)
    (fun n => ⟨hfits n, (hunknown n).indexes⟩) (fun n => (hunknown n).not_holds) hsent hrun hinputs
    hfifo hintime
  refine ⟨fun d => ?_, fun hall hquiet n => ?_⟩
  · refine Nat.le_trans ?_ (List.nodup_iff_count_le_one.mp (hinv.safe.once d)
      (publishInfo q g o full, true))
    rw [List.count]
    refine List.countP_mono_left fun msg hmsg hwithdraw => ?_
    rcases hinv.safe.messages d msg hmsg with rfl | rfl
    · simp [publishView] at hwithdraw
    · simp [publishView]
  · rw [hall] at hinv
    exact hinv.not_holds hquiet n

end Recall

/-! ### Runs in the triangle -/

instance (r : Relay) (k : UInt64 × NodeIdValueType) : Decidable (Holds r k) :=
  decidable_of_iff ((r.infoBase.announces.get₂? k.1 k.2).isSome = true) Option.isSome_iff_exists

theorem unknown_triangleRelay (n : Fin 3) :
    Unknown (Quicr.polynomial.trackHash ⟨[[1]], [2]⟩).trackFullnameHash
      (triangleRelay n).infoBase := by
  refine ⟨?_, ?_, fun m => rfl, ?_⟩
  · intro k row hrow
    simp [triangleRelay] at hrow
  · intro k hcontains
    simp [triangleRelay] at hcontains
  · rintro x ⟨hashSet, hget, -⟩
    simp [triangleRelay] at hget

/-- The first relay withdraws the track when its announcement has come everywhere. -/
def triangleWithdraw : List (Label (Fin 3) (Fin 3 × Bool) ClientAnnounceCall) :=
  [.input 0 ⟨⟨[[1]], [2]⟩, false, false⟩, .deliver (0, false) 0, .deliver (0, true) 0,
    .deliver (1, true) 0, .deliver (2, false) 0, .input 0 ⟨⟨[[1]], [2]⟩, true, false⟩,
    .deliver (0, false) 1, .deliver (0, true) 1, .deliver (1, true) 1, .deliver (2, false) 1]

theorem inTime_triangleWithdraw :
    InTime triangle.toTopology (announceProtocol .polynomial triangle)
      (publishView .polynomial triangle 0 ⟨[[1]], [2]⟩) triangleRelay triangleWithdraw := by
  set before := fun i => run triangle.toTopology (announceProtocol .polynomial triangle)
    ⟨triangleRelay, fun _ => []⟩ (triangleWithdraw.take i) with hbefore
  set held := fun (net : Net (Fin 3) (Fin 3 × Bool) Relay) n => Holds (net.nodes n)
    ((Quicr.polynomial.trackHash ⟨[[1]], [2]⟩).trackFullnameHash, 1) with hheld
  have hcheck : ∀ i < 10, (match triangleWithdraw[i]? with
      | some (Label.deliver d j) => (before i).all fun net => decide ((net.sent triangle.toTopology
          (announceProtocol .polynomial triangle) d)[j]? =
            some (publishInfo .polynomial triangle 0 ⟨[[1]], [2]⟩, false) →
          ∀ k ≤ i, (before k).all fun mid => decide
            (held mid (triangle.node (triangle.opposite d)) →
              held net (triangle.node (triangle.opposite d))))
      | some (Label.input _ _) => true
      | none => true) = true := by
    decide +kernel
  refine InTime.of_take fun i d j hi net hnet hflight k hk mid hmid hheld => ?_
  have hlen : i < 10 := (List.getElem?_eq_some_iff.mp hi).1
  have hall := hcheck i hlen
  simp only [hi, hbefore, hnet, Option.all_some, decide_eq_true_eq] at hall
  have hmids := hall hflight.1 k hk
  rw [hmid] at hmids
  exact of_decide_eq_true hmids hheld

theorem withdraw_flood_triangle : ∃ net,
    run triangle.toTopology (announceProtocol .polynomial triangle) ⟨triangleRelay, fun _ => []⟩
      triangleWithdraw = some net ∧
    (∀ d, ((net.nodes (triangle.node d)).announcesTo (triangle.sessionId d)).countP (fun msg =>
      announceKey msg = ((Quicr.polynomial.trackHash ⟨[[1]], [2]⟩).trackFullnameHash,
        triangle.nodeId 0) ∧ msg.2 = true) ≤ 1) ∧
    ∀ n, ¬ Holds (net.nodes n)
      ((Quicr.polynomial.trackHash ⟨[[1]], [2]⟩).trackFullnameHash, triangle.nodeId 0) := by
  have hquiet : (run triangle.toTopology (announceProtocol .polynomial triangle)
      ⟨triangleRelay, fun _ => []⟩ triangleWithdraw).map (fun net => decide (∀ d,
        ∀ k < (net.sent triangle.toTopology (announceProtocol .polynomial triangle) d).length,
          k ∈ net.delivered d)) = some true := by decide +kernel
  obtain ⟨net, hrun, hnet⟩ := Option.map_eq_some_iff.mp hquiet
  have hflood := withdraw_flood .polynomial triangle triangleRelay 0 ⟨[[1]], [2]⟩ (by decide)
    fits_triangleRelay unknown_triangleRelay (by decide +kernel) triangleWithdraw net hrun
    (by decide) (by decide) inTime_triangleWithdraw
  exact ⟨net, hrun, hflood.1, hflood.2 (by decide) (Net.quiescent_iff.mpr (of_decide_eq_true hnet))⟩

/-- The withdrawal overtakes the announcement on the way over the third relay. -/
def triangleGhost : List (Label (Fin 3) (Fin 3 × Bool) ClientAnnounceCall) :=
  [.input 0 ⟨⟨[[1]], [2]⟩, false, false⟩, .input 0 ⟨⟨[[1]], [2]⟩, true, false⟩,
    .deliver (0, false) 0, .deliver (0, false) 1, .deliver (0, true) 0, .deliver (1, true) 0,
    .deliver (2, false) 0, .deliver (2, false) 1, .deliver (0, true) 1, .deliver (1, false) 0,
    .deliver (2, true) 0, .deliver (0, true) 2, .deliver (1, true) 1]

theorem not_withdraw_flood :
    ¬ ∀ (labels : List (Label (Fin 3) (Fin 3 × Bool) ClientAnnounceCall))
      (net : Net (Fin 3) (Fin 3 × Bool) Relay),
      run triangle.toTopology (announceProtocol .polynomial triangle)
        ⟨triangleRelay, fun _ => []⟩ labels = some net →
      inputs labels = [(0, ⟨⟨[[1]], [2]⟩, false, false⟩), (0, ⟨⟨[[1]], [2]⟩, true, false⟩)] →
      Fifo labels → net.Quiescent triangle.toTopology (announceProtocol .polynomial triangle) →
      ∀ n, ¬ Holds (net.nodes n)
        ((Quicr.polynomial.trackHash ⟨[[1]], [2]⟩).trackFullnameHash, triangle.nodeId 0) := by
  intro hclaim
  have hghost : (run triangle.toTopology (announceProtocol .polynomial triangle)
      ⟨triangleRelay, fun _ => []⟩ triangleGhost).map (fun net => decide ((∀ d,
        ∀ k < (net.sent triangle.toTopology (announceProtocol .polynomial triangle) d).length,
          k ∈ net.delivered d) ∧ ∀ n, Holds (net.nodes n)
        ((Quicr.polynomial.trackHash ⟨[[1]], [2]⟩).trackFullnameHash, triangle.nodeId 0))) =
      some true := by decide +kernel
  obtain ⟨net, hrun, hnet⟩ := Option.map_eq_some_iff.mp hghost
  obtain ⟨hquiet, hholds⟩ := of_decide_eq_true hnet
  exact hclaim triangleGhost net hrun (by decide) (by decide) (Net.quiescent_iff.mpr hquiet) 0
    (hholds 0)

end Laps.Flood
