import Laps.Delivery.Model
import Laps.Relay.SubgroupStreams

/-! The end of a stream of one track: whose subgroups end with it at the subscribers and at the
other relays. -/

namespace Laps.Relay

open Std Peering Delivery

/-- The calls of `EndSubgroup` one after the other, and the closes of each with its track. -/
def endSubgroups : Relay → List PeerEnd → Relay × List (UInt64 × StreamClose)
  | r, [] => (r, [])
  | r, e :: ends =>
    let closes := r.endSubgroupCloses e.trackFullNameHash e.groupId e.subgroupId e.reset
    let (r, rest) :=
      (r.endSubgroup e.trackFullNameHash e.groupId e.subgroupId).endSubgroups ends
    (r, closes.map (fun close => (e.trackFullNameHash, close)) ++ rest)

/-- The call is about the stream under the key. -/
def EndsKey (track key : UInt64) (e : PeerEnd) : Prop :=
  e.trackFullNameHash = track ∧ packed (e.groupId, e.subgroupId) = key

instance (track key : UInt64) (e : PeerEnd) : Decidable (EndsKey track key e) :=
  inferInstanceAs (Decidable (_ ∧ _))

/-- The stream is to a session that is there. -/
def Live (r : Relay) (track : UInt64) (egress : PeerSessionId) (key : UInt64) : Prop :=
  (r.egressAt track egress).isSome = true ∧ (r.outStreamAt track egress key).isSome = true

section Ends

variable {r : Relay} {ends : List PeerEnd} {track key : UInt64} {egress : PeerSessionId}

/-- The sessions that are there lose the streams that some call is about. -/
theorem outStreamAt_endSubgroups (r : Relay) (ends : List PeerEnd) (track : UInt64)
    (egress : PeerSessionId) (key : UInt64) :
    (r.endSubgroups ends).1.outStreamAt track egress key =
      if (∃ e ∈ ends, EndsKey track key e) ∧ (r.egressAt track egress).isSome = true then none
      else r.outStreamAt track egress key := by
  induction ends generalizing r with
  | nil => simp [endSubgroups]
  | cons e ends ih =>
    show ((r.endSubgroup _ _ _).endSubgroups ends).1.outStreamAt track egress key = _
    rw [ih, egressAt_endSubgroup, outStreamAt_endSubgroup]
    have hcons : (∃ e' ∈ e :: ends, EndsKey track key e') ↔
        EndsKey track key e ∨ ∃ e' ∈ ends, EndsKey track key e' := by
      simp
    have hfirst : (e.trackFullNameHash = track ∧ key = inStreamId e.groupId e.subgroupId ∧
        (r.egressAt track egress).isSome = true) ↔
        EndsKey track key e ∧ (r.egressAt track egress).isSome = true := by
      rw [EndsKey, packed, and_assoc, eq_comm (a := key)]
    simp only [hcons, hfirst, or_and_right]
    by_cases hends : EndsKey track key e ∧ (r.egressAt track egress).isSome = true
    · rw [if_pos hends, if_pos (Or.inl hends), ite_self]
    · rw [if_neg hends]
      simp only [hends, false_or]

/-- A call closes something for a track exactly when a session that is there has the stream. -/
theorem exists_endSubgroupCloses (r : Relay) (track groupId subgroupId : UInt64) (reset : Bool) :
    (∃ close, close ∈ r.endSubgroupCloses track groupId subgroupId reset) ↔
      ∃ egress, r.Live track egress (packed (groupId, subgroupId)) := by
  unfold endSubgroupCloses
  simp only [List.mem_flatMap]
  constructor
  · rintro ⟨close, e, he, hclose⟩
    rw [endSubgroupEntry_eq he] at hclose
    refine ⟨e.1.2, ?_⟩
    unfold Live packed
    cases hegress : r.egressAt track e.1.2 with
    | none => simp [hegress] at hclose
    | some locked =>
      cases hstream : r.outStreamAt track e.1.2 (inStreamId groupId subgroupId) with
      | none => simp [hegress, hstream] at hclose
      | some streamId => exact ⟨rfl, rfl⟩
  · rintro ⟨egress, hegress, hstream⟩
    obtain ⟨⟨id, snsId⟩, hegress⟩ := Option.isSome_iff_exists.mp hegress
    obtain ⟨streamId, hstream⟩ := Option.isSome_iff_exists.mp hstream
    obtain ⟨entry, hentry, -⟩ := Option.bind_eq_some_iff.mp hstream
    have hmem : ((track, egress), entry) ∈ r.infoBase.clientFib.withFst track :=
      ExtTreeMap.mem_withFst.mpr ⟨hentry, rfl⟩
    refine ⟨.session id snsId streamId reset, ((track, egress), entry), hmem, ?_⟩
    rw [endSubgroupEntry_eq hmem]
    dsimp only
    rw [hegress, show r.outStreamAt track egress (inStreamId groupId subgroupId) = some streamId
      from hstream]
    exact List.mem_singleton_self _

/-- Of the closes of a track there are some exactly when a call is about a stream of it to a session
that is there. -/
theorem exists_endSubgroups (r : Relay) (ends : List PeerEnd) (track : UInt64) :
    (∃ close, (track, close) ∈ (r.endSubgroups ends).2) ↔
      ∃ egress key, r.Live track egress key ∧ ∃ e ∈ ends, EndsKey track key e := by
  induction ends generalizing r with
  | nil => simp [endSubgroups]
  | cons e ends ih =>
    have hcons : (∃ close, (track, close) ∈ (r.endSubgroups (e :: ends)).2) ↔
        (e.trackFullNameHash = track ∧
          ∃ egress, r.Live track egress (packed (e.groupId, e.subgroupId))) ∨
        ∃ egress key, (r.endSubgroup e.trackFullNameHash e.groupId e.subgroupId).Live track
          egress key ∧ ∃ e' ∈ ends, EndsKey track key e' := by
      rw [← ih, ← exists_endSubgroupCloses r _ _ _ e.reset, endSubgroups]
      dsimp only
      simp only [List.mem_append, List.mem_map, Prod.mk.injEq, exists_or]
      refine or_congr_left ?_
      constructor
      · rintro ⟨close, close', hclose, rfl, rfl⟩
        exact ⟨rfl, close', hclose⟩
      · rintro ⟨rfl, close, hclose⟩
        exact ⟨close, close, hclose, rfl, rfl⟩
    rw [hcons]
    constructor
    · rintro (⟨htrack, egress, hlive⟩ | ⟨egress, key, ⟨hegress, hstream⟩, e', he', hends⟩)
      · exact ⟨egress, _, hlive, e, List.mem_cons_self, htrack, rfl⟩
      · rw [egressAt_endSubgroup] at hegress
        rw [outStreamAt_endSubgroup] at hstream
        split at hstream
        · cases hstream
        · exact ⟨egress, key, ⟨hegress, hstream⟩, e', List.mem_cons_of_mem _ he', hends⟩
    · rintro ⟨egress, key, hlive, e', he', hends⟩
      by_cases hfirst : EndsKey track key e
      · exact Or.inl ⟨hfirst.1, egress, hfirst.2 ▸ hlive⟩
      · refine Or.inr ⟨egress, key, ⟨?_, ?_⟩, e', ?_, hends⟩
        · rw [egressAt_endSubgroup]
          exact hlive.1
        · rw [outStreamAt_endSubgroup, if_neg fun h => hfirst ⟨h.1, h.2.1.symm⟩]
          exact hlive.2
        · rcases List.mem_cons.mp he' with rfl | he'
          · exact absurd hends hfirst
          · exact he'

/-- Nothing is closed for the tracks, and their streams are as they were. -/
def KeepsTracks (P : UInt64 → Prop) (r : Relay) (sent : Relay × List (UInt64 × StreamClose)) :
    Prop :=
  (∀ track, P track → ∀ close, (track, close) ∉ sent.2) ∧
    ∀ track, P track → ∀ egress key,
      sent.1.outStreamAt track egress key = r.outStreamAt track egress key

/-- The tracks keep their streams exactly when no call is about one to a session that is there. -/
theorem keepsTracks_endSubgroups (P : UInt64 → Prop) (r : Relay) (ends : List PeerEnd) :
    r.KeepsTracks P (r.endSubgroups ends) ↔
      ∀ e ∈ ends, P e.trackFullNameHash →
        ∀ egress, ¬ r.Live e.trackFullNameHash egress (packed (e.groupId, e.subgroupId)) := by
  constructor
  · rintro ⟨hcloses, -⟩ e he htrack egress hlive
    obtain ⟨close, hclose⟩ :=
      (exists_endSubgroups r ends _).mpr ⟨egress, _, hlive, e, he, rfl, rfl⟩
    exact hcloses _ htrack close hclose
  · intro h
    refine ⟨fun track htrack close hclose => ?_, fun track htrack egress key => ?_⟩
    · obtain ⟨egress, key, hlive, e, he, rfl, rfl⟩ :=
        (exists_endSubgroups r ends track).mp ⟨close, hclose⟩
      exact h e he htrack egress hlive
    · rw [outStreamAt_endSubgroups]
      split
      · rename_i hcond
        obtain ⟨⟨e, he, rfl, rfl⟩, hlive⟩ := hcond
        cases hstream : r.outStreamAt e.trackFullNameHash egress
            (packed (e.groupId, e.subgroupId)) with
        | none => rfl
        | some streamId => exact absurd ⟨hlive, by rw [hstream]; rfl⟩ (h e he htrack egress)
      · rfl

end Ends

end Laps.Relay

namespace Laps.Delivery

open Std Client Peering Relay

/-- The place of a handler that sends a track to a subscriber. -/
inductive Place where
  | subscriber (conn : ConnectionHandle)
  | published (nsHash : UInt64) (conn : ConnectionHandle) (track : UInt64)
  deriving DecidableEq, Repr

namespace SubscribeTrackHandler

def handlerAt (s : SubscribeTrackHandler) : Place → Option PublishTrackHandler
  | .subscriber conn => if conn = 0 then none else s.subscribers[conn]?
  | .published nsHash conn track =>
    (s.subNamespaces.get₂? nsHash conn).bind fun ns => ns.handlers[track]?

/-- The end of a stream comes to the place. -/
def reaches (s : SubscribeTrackHandler) : Place → Bool
  | .subscriber _ => true
  | .published nsHash conn track =>
    (s.subNamespaces.get₂? nsHash conn).any fun ns => ns.publishedTracks.contains track

/-- The track is another one than that of the handler. -/
def OtherTrack (s : SubscribeTrackHandler) (track : UInt64) : Prop := s.trackAlias ≠ some track

instance (s : SubscribeTrackHandler) (track : UInt64) : Decidable (s.OtherTrack track) :=
  inferInstanceAs (Decidable (_ ≠ _))

end SubscribeTrackHandler

/-- The base class ends the subgroup that it is told to end and no other. -/
def EndsExactly (q : QuicrPublish) : Prop :=
  ∀ streams groupId subgroupId completed groupId' subgroupId',
    (q.endSubgroup streams groupId subgroupId completed).get₂? groupId' subgroupId' =
      if groupId' = groupId ∧ subgroupId' = subgroupId then none
      else streams.get₂? groupId' subgroupId'

/-- After the end of a stream the handlers of other tracks have the streams that they had, at all
subscribers, and no stream of another track is closed at a peer. -/
def EndsOwnTrack (q : QuicrPublish) (s : SubscribeTrackHandler) (r : Relay) (streamId : UInt64)
    (useReset : Bool) : Prop :=
  (∀ place h track, s.handlerAt place = some h → h.trackAlias = some track → s.OtherTrack track →
    ∃ h', (s.streamClosed q streamId useReset).1.handlerAt place = some h' ∧
      ∀ groupId subgroupId, h'.streamInfoByGroup.get₂? groupId subgroupId =
        h.streamInfoByGroup.get₂? groupId subgroupId) ∧
  r.KeepsTracks s.OtherTrack (r.endSubgroups (s.streamClosed q streamId useReset).2)

/-- No handler of another track that the end of the stream comes to has the subgroup open, and no
session that is there has a stream of such a track under the key of the subgroup. -/
def OthersIdle (s : SubscribeTrackHandler) (r : Relay) (streamId : UInt64) : Prop :=
  ∀ stream, s.streams[streamId]? = some stream → ∀ place h track,
    s.handlerAt place = some h → s.reaches place = true → h.trackAlias = some track →
      s.OtherTrack track →
        h.streamInfoByGroup.get₂? stream.currentGroupId stream.currentSubgroupId = none ∧
        ∀ egress, ¬ r.Live track egress
          (packed (stream.currentGroupId, stream.currentSubgroupId))

section StreamClosed

variable {q : QuicrPublish} {s : SubscribeTrackHandler} {streamId : UInt64} {useReset : Bool}
variable {stream : StreamContext} {place : Place} {h : PublishTrackHandler}

/-- The handlers that the end of the stream comes to have ended the subgroup. -/
theorem handlerAt_streamClosed (hstream : s.streams[streamId]? = some stream) (place : Place) :
    (s.streamClosed q streamId useReset).1.handlerAt place =
      (s.handlerAt place).map fun h =>
        if s.reaches place = true then
          (h.endSubgroup q stream.currentGroupId stream.currentSubgroupId !useReset).1
        else h := by
  unfold SubscribeTrackHandler.streamClosed
  rw [hstream]
  cases place with
  | subscriber conn =>
    unfold SubscribeTrackHandler.handlerAt SubscribeTrackHandler.reaches
    dsimp only
    by_cases hconn : conn = 0
    · rw [if_pos hconn, if_pos hconn, Option.map_none]
    · rw [if_neg hconn, if_neg hconn, ExtTreeMap.getElem?_map]
      simp [SubscribeTrackHandler.endTo, hconn]
  | published nsHash conn track =>
    show ((s.subNamespaces.map fun _ conns => conns.map fun _ ns =>
        (ns.endSubgroup q stream.currentGroupId stream.currentSubgroupId !useReset).1).get₂?
          nsHash conn).bind _ = ((s.subNamespaces.get₂? nsHash conn).bind _).map _
    rw [ExtTreeMap.get₂?_map]
    cases hns : s.subNamespaces.get₂? nsHash conn with
    | none => rfl
    | some ns =>
      have hreaches : s.reaches (.published nsHash conn track) =
          ns.publishedTracks.contains track := by
        rw [SubscribeTrackHandler.reaches, hns]
        rfl
      rw [Option.map_some, Option.bind_some, Option.bind_some, hreaches]
      exact ExtTreeMap.getElem?_map ..

/-- What the peer manager is told of by the handler at the place. -/
theorem mem_endSubgroup {h : PublishTrackHandler} {groupId subgroupId : UInt64} {completed : Bool}
    {e : PeerEnd} :
    e ∈ (h.endSubgroup q groupId subgroupId completed).2 ↔
      h.trackAlias = some e.trackFullNameHash ∧ e.groupId = groupId ∧ e.subgroupId = subgroupId ∧
        e.reset = !completed := by
  obtain ⟨track, g, p, reset⟩ := e
  unfold PublishTrackHandler.endSubgroup
  cases h.trackAlias with
  | none => simp
  | some trackAlias => simp [eq_comm]

theorem mem_endSubgroup_namespace {ns : PublishNamespaceHandler} {groupId subgroupId : UInt64}
    {completed : Bool} {e : PeerEnd} :
    e ∈ (ns.endSubgroup q groupId subgroupId completed).2 ↔
      ∃ track h, ns.publishedTracks.contains track = true ∧ ns.handlers[track]? = some h ∧
        e ∈ (h.endSubgroup q groupId subgroupId completed).2 := by
  unfold PublishNamespaceHandler.endSubgroup
  rw [List.mem_flatMap]
  refine exists_congr fun track => ?_
  rw [ExtTreeSet.mem_toList]
  cases ns.handlers[track]? with
  | none => simp
  | some h => simp [ExtTreeSet.contains_iff_mem]

theorem mem_endTo {conn : ConnectionHandle} {h : PublishTrackHandler}
    {groupId subgroupId : UInt64} {e : PeerEnd} :
    e ∈ (s.endTo q groupId subgroupId useReset conn h).2 ↔
      (if conn = 0 then s.trackAlias else h.trackAlias) = some e.trackFullNameHash ∧
        e.groupId = groupId ∧ e.subgroupId = subgroupId ∧ e.reset = useReset := by
  unfold SubscribeTrackHandler.endTo
  by_cases hconn : conn = 0
  · obtain ⟨track, g, p, reset⟩ := e
    rw [if_pos hconn, if_pos hconn]
    cases s.trackAlias with
    | none => simp
    | some trackAlias => simp [eq_comm]
  · rw [if_neg hconn, if_neg hconn, mem_endSubgroup, Bool.not_not]

/-- The peer manager is told of the subgroup for the tracks of the handlers that the end of the
stream comes to, and for the handler's own. -/
theorem mem_streamClosed (hstream : s.streams[streamId]? = some stream) {e : PeerEnd} :
    e ∈ (s.streamClosed q streamId useReset).2 ↔
      (((∃ h, s.subscribers[(0 : ConnectionHandle)]? = some h) ∧
          s.trackAlias = some e.trackFullNameHash) ∨
        ∃ place h, s.handlerAt place = some h ∧ s.reaches place = true ∧
          h.trackAlias = some e.trackFullNameHash) ∧
      e.groupId = stream.currentGroupId ∧ e.subgroupId = stream.currentSubgroupId ∧
        e.reset = useReset := by
  unfold SubscribeTrackHandler.streamClosed
  rw [hstream]
  dsimp only
  simp only [List.mem_append, List.mem_flatMap, mem_endTo, mem_endSubgroup_namespace,
    mem_endSubgroup, Bool.not_not]
  constructor
  · rintro (⟨⟨conn, h⟩, hmem, htrack, hrest⟩ | ⟨⟨⟨nsHash, conn⟩, ns⟩, hmem, track, h, hpub, hget,
      htrack, hrest⟩)
    · have hsub := ExtTreeMap.mem_toList_iff_getElem?_eq_some.mp hmem
      refine ⟨?_, hrest⟩
      by_cases hconn : conn = 0
      · subst hconn
        exact Or.inl ⟨⟨h, hsub⟩, htrack⟩
      · rw [if_neg hconn] at htrack
        refine Or.inr ⟨.subscriber conn, h, ?_, rfl, htrack⟩
        rw [SubscribeTrackHandler.handlerAt, if_neg hconn, hsub]
    · have hns := ExtTreeMap.mem_entries₂.mp hmem
      refine ⟨Or.inr ⟨.published nsHash conn track, h, ?_, ?_, htrack⟩, hrest⟩
      · rw [SubscribeTrackHandler.handlerAt, hns]
        exact hget
      · rw [SubscribeTrackHandler.reaches, hns]
        exact hpub
  · rintro ⟨⟨⟨h, hsub⟩, htrack⟩ | ⟨place, h, hat, hreaches, htrack⟩, hrest⟩
    · exact Or.inl ⟨(0, h), ExtTreeMap.mem_toList_iff_getElem?_eq_some.mpr hsub, htrack, hrest⟩
    · cases place with
      | subscriber conn =>
        by_cases hconn : conn = 0
        · rw [SubscribeTrackHandler.handlerAt, if_pos hconn] at hat
          cases hat
        · rw [SubscribeTrackHandler.handlerAt, if_neg hconn] at hat
          exact Or.inl ⟨(conn, h), ExtTreeMap.mem_toList_iff_getElem?_eq_some.mpr hat,
            by rw [if_neg hconn]; exact htrack, hrest⟩
      | published nsHash conn track =>
        obtain ⟨ns, hns, hget⟩ := Option.bind_eq_some_iff.mp hat
        rw [SubscribeTrackHandler.reaches, hns] at hreaches
        exact Or.inr ⟨((nsHash, conn), ns), ExtTreeMap.mem_entries₂.mpr hns, track, h, hreaches,
          hget, htrack, hrest⟩

/-- The handler at a place keeps its streams exactly when the end of the stream does not come to it
or it does not have the subgroup. -/
theorem keepsStreams_iff (hq : EndsExactly q) (hstream : s.streams[streamId]? = some stream)
    (hat : s.handlerAt place = some h) :
    (∃ h', (s.streamClosed q streamId useReset).1.handlerAt place = some h' ∧
      ∀ groupId subgroupId, h'.streamInfoByGroup.get₂? groupId subgroupId =
        h.streamInfoByGroup.get₂? groupId subgroupId) ↔
      (s.reaches place = true →
        h.streamInfoByGroup.get₂? stream.currentGroupId stream.currentSubgroupId = none) := by
  rw [handlerAt_streamClosed hstream, hat, Option.map_some]
  cases s.reaches place with
  | false => simp
  | true =>
    have hafter : ∀ groupId subgroupId,
        (h.endSubgroup q stream.currentGroupId stream.currentSubgroupId
          !useReset).1.streamInfoByGroup.get₂? groupId subgroupId =
        if groupId = stream.currentGroupId ∧ subgroupId = stream.currentSubgroupId then none
        else h.streamInfoByGroup.get₂? groupId subgroupId := hq _ _ _ _
    constructor
    · rintro ⟨h', hh', hkeeps⟩ -
      cases hh'
      rw [← hkeeps, if_pos rfl, hafter, if_pos ⟨rfl, rfl⟩]
    · intro hnone
      refine ⟨_, rfl, fun groupId subgroupId => ?_⟩
      rw [if_pos rfl, hafter]
      split
      · rename_i heq
        rw [heq.1, heq.2, hnone rfl]
      · rfl

end StreamClosed

/-- The end of a stream of a track ends streams of that track only, at its subscribers and at the
peers, exactly when the handlers of other tracks that it comes to do not have the subgroup open and
no stream of their tracks stands under its key. -/
theorem endsOwnTrack_iff {q : QuicrPublish} (hq : EndsExactly q) (s : SubscribeTrackHandler)
    (r : Relay) (streamId : UInt64) (useReset : Bool) :
    EndsOwnTrack q s r streamId useReset ↔ OthersIdle s r streamId := by
  cases hstream : s.streams[streamId]? with
  | none =>
    have hclosed : s.streamClosed q streamId useReset = (s, []) := by
      rw [SubscribeTrackHandler.streamClosed, hstream]
    refine iff_of_true ⟨fun place h track hat _ _ => ?_, ?_⟩ fun stream hsome => ?_
    · exact ⟨h, by rw [hclosed]; exact hat, fun _ _ => rfl⟩
    · rw [hclosed]
      exact ⟨fun _ _ _ hclose => by simp [endSubgroups] at hclose, fun _ _ _ _ => rfl⟩
    · rw [hstream] at hsome
      cases hsome
  | some stream =>
    unfold EndsOwnTrack
    rw [keepsTracks_endSubgroups]
    constructor
    · rintro ⟨hhandlers, hpeers⟩ stream' hsome place h track hat hreaches htrack hother
      obtain rfl := Option.some.inj (hstream.symm.trans hsome)
      refine ⟨(keepsStreams_iff hq hstream hat).mp (hhandlers place h track hat htrack hother)
        hreaches, ?_⟩
      exact hpeers ⟨track, stream.currentGroupId, stream.currentSubgroupId, useReset⟩
        ((mem_streamClosed hstream).mpr
          ⟨Or.inr ⟨place, h, hat, hreaches, htrack⟩, rfl, rfl, rfl⟩) hother
    · intro hidle
      refine ⟨fun place h track hat htrack hother => ?_, fun e he hother egress => ?_⟩
      · exact (keepsStreams_iff hq hstream hat).mpr fun hreaches =>
          (hidle stream hstream place h track hat hreaches htrack hother).1
      · obtain ⟨⟨-, hown⟩ | ⟨place, h, hat, hreaches, htrack⟩, hgroup, hsubgroup, -⟩ :=
          (mem_streamClosed hstream).mp he
        · exact absurd hown hother
        · rw [hgroup, hsubgroup]
          exact (hidle stream hstream place h _ hat hreaches htrack hother).2 egress

theorem endsExactly_lastObjects : EndsExactly lastObjects := by
  intro streams groupId subgroupId _ groupId' subgroupId'
  exact ExtTreeMap.get₂?_erase₂ ..

/-- Connection 7 is sent tracks 8 and 9 of a namespace, and a stream of track 9 is at group 0. -/
def twoTracks (streams : StreamInfoByGroup) : SubscribeTrackHandler where
  trackAlias := some 9
  subNamespaces := (∅ : ExtTreeMap UInt64
      (ExtTreeMap ConnectionHandle PublishNamespaceHandler compare) compare).insert₂ 1 7
    { handlers := ((∅ : ExtTreeMap UInt64 PublishTrackHandler compare).insert 8
        { trackAlias := some 8, streamInfoByGroup := streams }).insert 9 { trackAlias := some 9 }
      publishedTracks := ((∅ : ExtTreeSet UInt64 compare).insert 8).insert 9 }
  streams := (∅ : ExtTreeMap UInt64 StreamContext compare).insert 3 {}

/-- Track 8 has group 1 open. -/
theorem endsOwnTrack_groupOne :
    EndsOwnTrack lastObjects
      (twoTracks ((∅ : StreamInfoByGroup).insert₂ 1 0 {})) oneEgress 3 false := by
  refine (endsOwnTrack_iff endsExactly_lastObjects _ _ _ _).mpr ?_
  intro stream hstream place h track hat _ htrack hother
  obtain rfl : { } = stream := Option.some.inj (by rw [← hstream]; decide +kernel)
  refine ⟨?_, fun egress hlive => ?_⟩
  · cases place with
    | subscriber conn =>
      rw [SubscribeTrackHandler.handlerAt] at hat
      split at hat
      · cases hat
      · simp [twoTracks] at hat
    | published nsHash conn key =>
      obtain ⟨ns, hns, hget⟩ := Option.bind_eq_some_iff.mp hat
      rw [twoTracks, ExtTreeMap.get₂?_insert₂] at hns
      split at hns
      · cases hns
        dsimp only at hget
        rw [ExtTreeMap.getElem?_insert_ite] at hget
        split at hget
        · cases hget
          exact absurd htrack hother
        · rw [ExtTreeMap.getElem?_insert_ite] at hget
          split at hget
          · cases hget
            decide +kernel
          · simp at hget
      · simp at hns
  · rw [Live, outStreamAt_oneEgress] at hlive
    exact absurd hlive.2 (by decide)

theorem not_endsOwnTrack : ¬ ∀ q, EndsExactly q → ∀ s r streamId useReset,
    EndsOwnTrack q s r streamId useReset := by
  intro hall
  let s := twoTracks ((∅ : StreamInfoByGroup).insert₂ 0 0 {})
  obtain ⟨hhandlers, -⟩ := hall lastObjects endsExactly_lastObjects s oneEgress 3 false
  obtain ⟨h', hh', hkeeps⟩ := hhandlers (.published 1 7 8)
    { trackAlias := some 8, streamInfoByGroup := (∅ : StreamInfoByGroup).insert₂ 0 0 {} } 8
    (by decide +kernel) rfl (by decide)
  have hgone : ((s.streamClosed lastObjects 3 false).1.handlerAt (.published 1 7 8)).map
      (fun h => h.streamInfoByGroup.get₂? 0 0) = some none := by
    decide +kernel
  rw [hh', Option.map_some, hkeeps] at hgone
  revert hgone
  decide +kernel

end Laps.Delivery
