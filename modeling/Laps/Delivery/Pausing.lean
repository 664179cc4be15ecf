import Laps.Delivery.Ends
import Laps.Ranking.Demotion

/-! A track that is paused for one subscriber of a namespace: its subgroups are closed there, and
the peer manager is told of each of them. -/

namespace Laps.Delivery

open Std Peering Relay

/-- The handler of one subscriber of a namespace: what it selects, and what it sends. -/
structure NamespaceSubscriber where
  ranked : Ranking.PublishNamespaceHandler
  sending : PublishNamespaceHandler := {}

/-- The demoted tracks are closed before they are paused. -/
def NamespaceSubscriber.updateTrackRanking (q : QuicrPublish) (base : Ranking.BasePublish)
    (n : NamespaceSubscriber) (rows : List Ranking.FlatTrack) :
    NamespaceSubscriber × List PeerEnd :=
  let demoted := n.ranked.demotedTracks base rows
  ({ ranked := n.ranked.updateTrackRanking base rows
     sending :=
      { n.sending with
        handlers := n.sending.handlers.map fun track h =>
          if track ∈ demoted then (h.abruptCloseAllSubgroups q).1 else h } },
    demoted.flatMap fun track =>
      match n.sending.handlers[track]? with
      | none => []
      | some h => (h.abruptCloseAllSubgroups q).2)

section Abrupt

variable {q : QuicrPublish} {h : PublishTrackHandler} {e : PeerEnd}

theorem mem_foldl_endSubgroup (subgroups : List ((UInt64 × UInt64) × StreamInfo))
    (ends : List PeerEnd) :
    e ∈ (subgroups.foldl (fun (closed : PublishTrackHandler × List PeerEnd) x =>
        ((closed.1.endSubgroup q x.1.1 x.1.2 false).1,
          closed.2 ++ (closed.1.endSubgroup q x.1.1 x.1.2 false).2)) (h, ends)).2 ↔
      e ∈ ends ∨ h.trackAlias = some e.trackFullNameHash ∧
        (∃ info, ((e.groupId, e.subgroupId), info) ∈ subgroups) ∧ e.reset = true := by
  induction subgroups generalizing h ends with
  | nil => simp
  | cons x subgroups ih =>
    rw [List.foldl_cons, ih, List.mem_append, mem_endSubgroup]
    have halias : (h.endSubgroup q x.1.1 x.1.2 false).1.trackAlias = h.trackAlias := rfl
    have hcons : (∃ info, ((e.groupId, e.subgroupId), info) ∈ x :: subgroups) ↔
        (e.groupId = x.1.1 ∧ e.subgroupId = x.1.2) ∨
          ∃ info, ((e.groupId, e.subgroupId), info) ∈ subgroups := by
      obtain ⟨⟨g, p⟩, info⟩ := x
      simp [exists_or]
    rw [halias, hcons]
    simp only [Bool.not_false]
    tauto

/-- The peer manager is told of every subgroup that the handler has. -/
theorem mem_abruptCloseAllSubgroups :
    e ∈ (h.abruptCloseAllSubgroups q).2 ↔
      h.trackAlias = some e.trackFullNameHash ∧
        (h.streamInfoByGroup.get₂? e.groupId e.subgroupId).isSome = true ∧ e.reset = true := by
  refine (mem_foldl_endSubgroup h.streamInfoByGroup.entries₂ []).trans ?_
  simp only [List.not_mem_nil, false_or, ExtTreeMap.mem_entries₂, Option.isSome_iff_exists]

theorem mem_updateTrackRanking {base : Ranking.BasePublish} {n : NamespaceSubscriber}
    {rows : List Ranking.FlatTrack} :
    e ∈ (n.updateTrackRanking q base rows).2 ↔
      ∃ track h, track ∈ n.ranked.demotedTracks base rows ∧ n.sending.handlers[track]? = some h ∧
        e ∈ (h.abruptCloseAllSubgroups q).2 := by
  unfold NamespaceSubscriber.updateTrackRanking
  dsimp only
  rw [List.mem_flatMap]
  refine exists_congr fun track => ?_
  cases n.sending.handlers[track]? with
  | none => simp
  | some h => simp

end Abrupt

/-- The call closes no stream to a peer and leaves the streams of all entries as they are. -/
def SparesPeers (q : QuicrPublish) (base : Ranking.BasePublish) (n : NamespaceSubscriber)
    (rows : List Ranking.FlatTrack) (r : Relay) : Prop :=
  (r.endSubgroups (n.updateTrackRanking q base rows).2).2 = [] ∧
    ∀ track egress key, (r.endSubgroups (n.updateTrackRanking q base rows).2).1.outStreamAt track
      egress key = r.outStreamAt track egress key

/-- No peer has a stream of a subgroup that the handler of a demoted track has. -/
def PeersIdle (n : NamespaceSubscriber) (rows : List Ranking.FlatTrack) (r : Relay) : Prop :=
  n.ranked.propertyType.isSome = true → n.ranked.Demotes → ∀ ta h,
    n.ranked.statusOf ta = some .ok → ¬ n.ranked.Picks rows ta →
      n.sending.handlers[ta]? = some h → ∀ track groupId subgroupId,
        h.trackAlias = some track →
          (h.streamInfoByGroup.get₂? groupId subgroupId).isSome = true →
            ∀ egress, ¬ r.Live track egress (packed (groupId, subgroupId))

/-- A call of `UpdateTrackRanking` on the handler of one subscriber leaves the streams to the peers
alone exactly when no session that is there has a stream of a subgroup that the handler of a track
has which the call demotes: one of status ok that the selection does not pick, when more tracks are
published than may be selected. -/
theorem sparesPeers_iff (q : QuicrPublish) (base : Ranking.BasePublish) (n : NamespaceSubscriber)
    (rows : List Ranking.FlatTrack) (r : Relay) :
    SparesPeers q base n rows r ↔ PeersIdle n rows r := by
  have hspares : SparesPeers q base n rows r ↔ r.KeepsTracks (fun _ => True)
      (r.endSubgroups (n.updateTrackRanking q base rows).2) := by
    unfold SparesPeers KeepsTracks
    refine and_congr ?_ ?_
    · rw [List.eq_nil_iff_forall_not_mem]
      simp
    · simp
  rw [hspares, keepsTracks_endSubgroups]
  constructor
  · intro hkeeps hprop hdemotes ta h hok hout hget track groupId subgroupId htrack hinfo egress
    refine hkeeps ⟨track, groupId, subgroupId, true⟩ ?_ trivial egress
    exact mem_updateTrackRanking.mpr ⟨ta, h,
      Ranking.PublishNamespaceHandler.mem_demotedTracks.mpr ⟨hprop, hdemotes, hok, hout⟩, hget,
      mem_abruptCloseAllSubgroups.mpr ⟨htrack, hinfo, rfl⟩⟩
  · intro hidle e he _ egress
    obtain ⟨ta, h, hta, hget, he⟩ := mem_updateTrackRanking.mp he
    obtain ⟨hprop, hdemotes, hok, hout⟩ :=
      Ranking.PublishNamespaceHandler.mem_demotedTracks.mp hta
    obtain ⟨htrack, hinfo, -⟩ := mem_abruptCloseAllSubgroups.mp he
    exact hidle hprop hdemotes ta h hok hout hget _ _ _ htrack hinfo egress

/-- Connection 7 is sent tracks 8 and 9 of a namespace, of which it is to have one, and group 0 of
track 9 is open. -/
def oneOfTwo : NamespaceSubscriber where
  ranked :=
    { nsHash := 1
      connectionId := 7
      propertyType := some 12
      publishedTracks := ((∅ : ExtTreeMap Ranking.TrackAlias Ranking.ActiveTrack compare).insert 8
        ⟨0, .ok⟩).insert 9 ⟨0, .ok⟩ }
  sending :=
    { handlers := (∅ : ExtTreeMap UInt64 PublishTrackHandler compare).insert 9
        { trackAlias := some 9
          streamInfoByGroup := (∅ : StreamInfoByGroup).insert₂ 0 0 { lastObjectId := some 0 } } }

/-- Session 5 has the stream of group 0 of track 9 when track 8 takes its place. -/
theorem not_sparesPeers : ¬ ∀ q base n rows r, SparesPeers q base n rows r := by
  intro hall
  obtain ⟨hcloses, -⟩ := hall lastObjects (fun _ status => status) oneOfTwo
    [{ trackAlias := 8, insertSeqNum := 1, latestTick := 5, connId := 3 }]
    (oneEgress.clientDataRecv (fun _ _ => 30) (startOf (0, 0))).1
  revert hcloses
  decide +kernel

end Laps.Delivery
