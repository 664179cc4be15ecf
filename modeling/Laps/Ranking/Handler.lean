import Laps.Ranking.FlatList

/-! `PublishNamespaceHandler`: the tracks that are published to one namespace subscriber and their
selection from the lists of a `TrackRanking`, and `RankingSystem`: a ranking with its registered
handlers, which `UpdateValue` notifies. -/

namespace Laps.Ranking

open Std

/-- The status of a `PublishTrackHandler`. -/
inductive PublishStatus where
  | ok
  | notConnected
  | notAnnounced
  | announceNotAuthorized
  | pendingAnnounceResponse
  | noSubscribers
  | sendingUnannounce
  | paused
  | subscriptionUpdated
  | newGroupRequested
  deriving DecidableEq, Repr

/-- A published track with the status of its handler.  The handler is alive: the base class keeps
it in `handlers_`. -/
structure ActiveTrack where
  lastUpdatedTick : UInt64
  status : PublishStatus
  deriving DecidableEq, Repr

structure PublishNamespaceHandler where
  /-- The namespace hash of the prefix. -/
  nsHash : UInt64
  connectionId : UInt64
  maxTracksSelected : UInt64 := 1
  propertyType : Option PropertyType := none
  publishedTracks : ExtTreeMap TrackAlias ActiveTrack := ∅
  /-- The tracks in `handlers_` of the base class. -/
  handlers : ExtTreeSet TrackAlias := ∅
  deriving DecidableEq

/-- The status that the base class `PublishTrack` leaves a track with. -/
abbrev BasePublish := TrackAlias → PublishStatus → PublishStatus

namespace PublishNamespaceHandler

/-- The first loop of `UpdateTrackRanking`: the listed tracks get their latest tick. -/
def touchTracks (h : PublishNamespaceHandler) (rows : List FlatTrack) : PublishNamespaceHandler :=
  rows.foldl (fun h row => { h with
    publishedTracks := h.publishedTracks.modify row.trackAlias fun track =>
      { track with lastUpdatedTick := row.latestTick } }) h

/-- A paused track that is selected again.  `PublishTrack` registers it with the base class; the
track is in `published_tracks_` already, where `emplace` keeps the entry. -/
def resumeTrack (base : BasePublish) (h : PublishNamespaceHandler) (row : FlatTrack) :
    PublishNamespaceHandler :=
  if h.handlers.contains row.trackAlias then
    { h with
      publishedTracks := h.publishedTracks.modify row.trackAlias fun track =>
        { track with status := .ok, lastUpdatedTick := row.latestTick } }
  else
    { h with
      handlers := h.handlers.insert row.trackAlias
      publishedTracks := h.publishedTracks.modify row.trackAlias fun track =>
        { track with status := base row.trackAlias .ok } }

/-- The selection loop, with the tracks that are active so far. -/
def selectTracks (base : BasePublish) : List FlatTrack → PublishNamespaceHandler →
    ExtTreeMap TrackAlias UInt64 → PublishNamespaceHandler × ExtTreeMap TrackAlias UInt64
  | [], h, active => (h, active)
  | row :: rows, h, active =>
    if active.size ≥ h.maxTracksSelected.toNat then (h, active)
    else if row.connId = h.connectionId then selectTracks base rows h active
    else match h.publishedTracks[row.trackAlias]? with
      | none => selectTracks base rows h active
      | some track =>
        selectTracks base rows (if track.status = .paused then h.resumeTrack base row else h)
          (active.insertIfNew row.trackAlias row.latestTick)

/-- The last loop: tracks that are not active are paused, when more tracks are published than may
be selected.  The call that would unpublish them is commented out in the source. -/
def pauseTracks (h : PublishNamespaceHandler) (active : ExtTreeMap TrackAlias UInt64) :
    PublishNamespaceHandler :=
  if h.publishedTracks.size > h.maxTracksSelected.toNat then
    { h with
      publishedTracks := h.publishedTracks.map fun ta track =>
        if active.contains ta then track
        else if track.status = .ok then { track with status := .paused } else track }
  else h

def updateTrackRanking (base : BasePublish) (h : PublishNamespaceHandler) (rows : List FlatTrack) :
    PublishNamespaceHandler :=
  if h.propertyType.isNone then h
  else
    let (h, active) := selectTracks base rows (h.touchTracks rows) ∅
    h.pauseTracks active

/-- The track is published here and not paused. -/
def Selected (h : PublishNamespaceHandler) (ta : TrackAlias) : Prop :=
  ∃ track, h.publishedTracks[ta]? = some track ∧ track.status ≠ .paused

end PublishNamespaceHandler

/-! ### A ranking and its handlers -/

/-- Names a handler object. -/
abbrev HandlerId := ℕ

instance lawfulBEq_handlers : LawfulBEq (ExtTreeMap UInt64 HandlerId) := inferInstance

/-- A ranking with its registered handlers.  `ns_handlers_` has weak references: a handler is alive
while it is in `live`. -/
structure RankingSystem where
  ranking : TrackRanking := {}
  nsHandlers : ExtTreeMap UInt64 (ExtTreeMap UInt64 HandlerId) := ∅
  live : ExtTreeMap HandlerId PublishNamespaceHandler := ∅
  deriving DecidableEq

namespace RankingSystem

/-- The registered handlers in the order of the notification. -/
def registered (sys : RankingSystem) : List HandlerId :=
  sys.nsHandlers.entries₂.map Prod.snd

/-- The loop over `ns_handlers_`: live handlers get the list, references to dead ones are erased, as
are namespaces without handlers. -/
def notify (base : BasePublish) (sys : RankingSystem) : RankingSystem :=
  { sys with
    live := sys.registered.foldl (fun live id =>
      live.modify id fun h => h.updateTrackRanking base sys.ranking.flatTrackList) sys.live
    nsHandlers := sys.nsHandlers.filterMap fun _ conns =>
      let alive := conns.filter fun _ id => sys.live.contains id
      if alive.isEmpty then none else some alive }

def step (base : BasePublish) (sys : RankingSystem) : Op → RankingSystem
  | .updateValue c => { sys with ranking := sys.ranking.updateValue c }.notify base
  | .setInactiveAge ageMs => { sys with ranking := sys.ranking.setInactiveAge ageMs }

def run (base : BasePublish) (sys : RankingSystem) (ops : List Op) : RankingSystem :=
  ops.foldl (step base) sys

def addNamespaceHandler (sys : RankingSystem) (id : HandlerId) : RankingSystem :=
  match sys.live[id]? with
  | none => sys
  | some h =>
    { sys with
      nsHandlers := sys.nsHandlers.insertIfNew₂ h.nsHash h.connectionId id }

def removeNamespaceHandler (sys : RankingSystem) (id : HandlerId) : RankingSystem :=
  match sys.live[id]? with
  | none => sys
  | some h =>
    { sys with
      nsHandlers := sys.nsHandlers.insert h.nsHash
        ((sys.nsHandlers.getD h.nsHash ∅).erase h.connectionId) }

end RankingSystem

/-! ### One call of UpdateTrackRanking -/

namespace PublishNamespaceHandler

def statusOf (h : PublishNamespaceHandler) (ta : TrackAlias) : Option PublishStatus :=
  h.publishedTracks[ta]?.map ActiveTrack.status

/-- Every published track is in `handlers_`, as `PublishTrack` leaves it. -/
def Registered (h : PublishNamespaceHandler) : Prop :=
  ∀ ta, (h.statusOf ta).isSome → h.handlers.contains ta = true

/-- More tracks are published than may be selected. -/
def Demotes (h : PublishNamespaceHandler) : Prop :=
  h.maxTracksSelected.toNat < h.publishedTracks.size

instance (h : PublishNamespaceHandler) : Decidable h.Demotes :=
  inferInstanceAs (Decidable (_ < _))

/-- The part of a handler that the selection keeps. -/
structure SameSetup (h h' : PublishNamespaceHandler) : Prop where
  nsHash : h'.nsHash = h.nsHash
  connectionId : h'.connectionId = h.connectionId
  maxTracksSelected : h'.maxTracksSelected = h.maxTracksSelected
  propertyType : h'.propertyType = h.propertyType
  handlers : ∀ ta, h.handlers.contains ta = true → h'.handlers.contains ta = true
  size : h'.publishedTracks.size = h.publishedTracks.size
  published : ∀ ta, (h'.statusOf ta).isSome = (h.statusOf ta).isSome

theorem SameSetup.refl (h : PublishNamespaceHandler) : SameSetup h h :=
  ⟨rfl, rfl, rfl, rfl, fun _ => id, rfl, fun _ => rfl⟩

theorem SameSetup.trans {h h' h'' : PublishNamespaceHandler} (a : SameSetup h h')
    (b : SameSetup h' h'') : SameSetup h h'' :=
  ⟨b.nsHash.trans a.nsHash, b.connectionId.trans a.connectionId,
    b.maxTracksSelected.trans a.maxTracksSelected, b.propertyType.trans a.propertyType,
    fun ta hta => b.handlers ta (a.handlers ta hta), b.size.trans a.size,
    fun ta => (b.published ta).trans (a.published ta)⟩

theorem SameSetup.registered {h h' : PublishNamespaceHandler} (a : SameSetup h h')
    (hreg : h.Registered) : h'.Registered := by
  intro ta hta
  rw [a.published] at hta
  exact a.handlers ta (hreg ta hta)

theorem SameSetup.demotes {h h' : PublishNamespaceHandler} (a : SameSetup h h') :
    h'.Demotes ↔ h.Demotes := by
  rw [Demotes, Demotes, a.maxTracksSelected, a.size]

/-- The rows that the selection loop picks when it may still pick `n`. -/
def picked (h : PublishNamespaceHandler) (n : ℕ) (rows : List FlatTrack) : List TrackAlias :=
  ((rows.filter fun row =>
    row.connId ≠ h.connectionId ∧ (h.statusOf row.trackAlias).isSome).map FlatTrack.trackAlias).take n

/-- The tracks that are active after a call with the list. -/
def active (h : PublishNamespaceHandler) (rows : List FlatTrack) : List TrackAlias :=
  h.picked h.maxTracksSelected.toNat rows

theorem SameSetup.picked {h h' : PublishNamespaceHandler} (a : SameSetup h h') (n : ℕ)
    (rows : List FlatTrack) : h'.picked n rows = h.picked n rows := by
  simp only [PublishNamespaceHandler.picked, a.connectionId, a.published]

theorem picked_skip {h : PublishNamespaceHandler} {n : ℕ} {row : FlatTrack} {rows : List FlatTrack}
    (hskip : row.connId = h.connectionId ∨ h.statusOf row.trackAlias = none) :
    h.picked n (row :: rows) = h.picked n rows := by
  unfold picked
  rw [List.filter_cons_of_neg]
  rcases hskip with hself | hnone
  · simp [hself]
  · simp [hnone]

theorem picked_take {h : PublishNamespaceHandler} {n : ℕ} {row : FlatTrack} {rows : List FlatTrack}
    (hconn : row.connId ≠ h.connectionId) (hpub : (h.statusOf row.trackAlias).isSome) :
    h.picked (n + 1) (row :: rows) = row.trackAlias :: h.picked n rows := by
  unfold picked
  rw [List.filter_cons_of_pos (by simp [hconn, hpub])]
  rfl

theorem mem_of_mem_picked {h : PublishNamespaceHandler} {n : ℕ} {rows : List FlatTrack}
    {ta : TrackAlias} (hta : ta ∈ h.picked n rows) : ta ∈ rows.map FlatTrack.trackAlias := by
  obtain ⟨row, hrow, rfl⟩ := List.mem_map.mp (List.mem_of_mem_take hta)
  exact List.mem_map_of_mem (List.mem_of_mem_filter hrow)

theorem sameSetup_modify (h : PublishNamespaceHandler) (ta : TrackAlias)
    (f : ActiveTrack → ActiveTrack) :
    SameSetup h { h with publishedTracks := h.publishedTracks.modify ta f } := by
  refine ⟨rfl, rfl, rfl, rfl, fun _ => id, ExtTreeMap.size_modify, fun tb => ?_⟩
  simp only [statusOf, ExtTreeMap.getElem?_modify]
  split <;> simp_all

theorem statusOf_modify (h : PublishNamespaceHandler) (ta tb : TrackAlias)
    (f : ActiveTrack → ActiveTrack) :
    statusOf { h with publishedTracks := h.publishedTracks.modify ta f } tb =
      if tb = ta then h.publishedTracks[ta]?.map fun track => (f track).status
      else h.statusOf tb := by
  simp only [statusOf, ExtTreeMap.getElem?_modify, LawfulEqCmp.compare_eq_iff_eq,
    eq_comm (a := tb)]
  split
  · simp [Option.map_map, Function.comp_def]
  · rfl

theorem touchTracks_spec (h : PublishNamespaceHandler) (rows : List FlatTrack) :
    SameSetup h (h.touchTracks rows) ∧ ∀ ta, (h.touchTracks rows).statusOf ta = h.statusOf ta := by
  unfold touchTracks
  induction rows generalizing h with
  | nil => exact ⟨.refl h, fun _ => rfl⟩
  | cons row rows ih =>
    rw [List.foldl_cons]
    obtain ⟨hsetup, hstatus⟩ := ih { h with
      publishedTracks := h.publishedTracks.modify row.trackAlias fun track =>
        { track with lastUpdatedTick := row.latestTick } }
    refine ⟨(sameSetup_modify h _ _).trans hsetup, fun ta => ?_⟩
    rw [hstatus, statusOf_modify]
    split
    · rename_i hta
      rw [hta]
      rfl
    · rfl

/-- The status of a track that is selected. -/
def resumed (status : PublishStatus) : PublishStatus := if status = .paused then .ok else status

/-- The status of a selected track, when its handler may be missing in `handlers_`. -/
def resumeStatus (base : BasePublish) (h : PublishNamespaceHandler) (ta : TrackAlias)
    (status : PublishStatus) : PublishStatus :=
  if status = .paused then if h.handlers.contains ta then .ok else base ta .ok else status

theorem resumeStatus_eq_resumed (base : BasePublish) {h : PublishNamespaceHandler} {ta : TrackAlias}
    (hin : h.handlers.contains ta = true) (status : PublishStatus) :
    h.resumeStatus base ta status = resumed status := by
  rw [resumeStatus, if_pos hin, resumed]

theorem resumeStatus_congr (base : BasePublish) {h h' : PublishNamespaceHandler} {ta : TrackAlias}
    (heq : h'.handlers.contains ta = h.handlers.contains ta) (status : PublishStatus) :
    h'.resumeStatus base ta status = h.resumeStatus base ta status := by
  rw [resumeStatus, heq, resumeStatus]

theorem sameSetup_resumeTrack (base : BasePublish) (h : PublishNamespaceHandler) (row : FlatTrack) :
    SameSetup h (h.resumeTrack base row) := by
  unfold resumeTrack
  split
  · exact sameSetup_modify _ _ _
  · have hset := sameSetup_modify h row.trackAlias fun track =>
      { track with status := base row.trackAlias .ok }
    exact { hset with handlers := fun ta hta => by simp_all [ExtTreeSet.contains_insert] }

theorem statusOf_resumeTrack (base : BasePublish) {h : PublishNamespaceHandler} {row : FlatTrack}
    (hpub : (h.statusOf row.trackAlias).isSome) (ta : TrackAlias) :
    (h.resumeTrack base row).statusOf ta =
      if ta = row.trackAlias then some (h.resumeStatus base row.trackAlias .paused)
      else h.statusOf ta := by
  obtain ⟨status, hstatus⟩ := Option.isSome_iff_exists.mp hpub
  obtain ⟨track, htrack, -⟩ := Option.map_eq_some_iff.mp hstatus
  rw [resumeTrack, resumeStatus, if_pos rfl]
  split
  · rw [statusOf_modify, htrack]
    rfl
  · refine (statusOf_modify h row.trackAlias ta _).trans ?_
    rw [htrack]
    rfl

theorem contains_resumeTrack (base : BasePublish) (h : PublishNamespaceHandler) {row : FlatTrack}
    {ta : TrackAlias} (hne : ta ≠ row.trackAlias) :
    (h.resumeTrack base row).handlers.contains ta = h.handlers.contains ta := by
  unfold resumeTrack
  split
  · rfl
  · simp [ExtTreeSet.contains_insert, Ne.symm hne]

theorem sameSetup_resumed (base : BasePublish) (h : PublishNamespaceHandler) (row : FlatTrack)
    (status : PublishStatus) :
    SameSetup h (if status = .paused then h.resumeTrack base row else h) := by
  split
  · exact sameSetup_resumeTrack base h row
  · exact .refl h

theorem statusOf_resumed (base : BasePublish) {h : PublishNamespaceHandler}
    {row : FlatTrack} {status : PublishStatus} (hstatus : h.statusOf row.trackAlias = some status)
    (ta : TrackAlias) : (if status = .paused then h.resumeTrack base row else h).statusOf ta =
      if ta = row.trackAlias then some (h.resumeStatus base row.trackAlias status)
      else h.statusOf ta := by
  by_cases hpaused : status = .paused
  · rw [if_pos hpaused, statusOf_resumeTrack base (by simp [hstatus]) ta, hpaused]
  · rw [if_neg hpaused, resumeStatus, if_neg hpaused]
    split
    · rename_i hta
      rw [hta, hstatus]
    · rfl

theorem contains_resumed (base : BasePublish) (h : PublishNamespaceHandler) {row : FlatTrack}
    (status : PublishStatus) {ta : TrackAlias} (hne : ta ≠ row.trackAlias) :
    (if status = .paused then h.resumeTrack base row else h).handlers.contains ta =
      h.handlers.contains ta := by
  split
  · exact contains_resumeTrack base h hne
  · rfl

theorem sameSetup_selectTracks (base : BasePublish) (rows : List FlatTrack)
    (h : PublishNamespaceHandler) (active : ExtTreeMap TrackAlias UInt64) :
    SameSetup h (selectTracks base rows h active).1 := by
  induction rows generalizing h active with
  | nil => exact .refl h
  | cons row rows ih =>
    rw [selectTracks]
    split
    · exact .refl h
    split
    · exact ih h active
    split
    · exact ih h active
    · exact (sameSetup_resumed base h row _).trans (ih _ _)

/-- The selection loop picks the first rows of other connections whose tracks are published. -/
theorem selectTracks_spec (base : BasePublish) {rows : List FlatTrack}
    (hnodup : (rows.map FlatTrack.trackAlias).Nodup) :
    ∀ (h : PublishNamespaceHandler) (active : ExtTreeMap TrackAlias UInt64),
      (∀ row ∈ rows, active.contains row.trackAlias = false) →
      (∀ ta, (selectTracks base rows h active).1.statusOf ta =
        if ta ∈ h.picked (h.maxTracksSelected.toNat - active.size) rows then
          (h.statusOf ta).map (h.resumeStatus base ta)
        else h.statusOf ta) ∧
      ∀ ta, (selectTracks base rows h active).2.contains ta = true ↔
        active.contains ta = true ∨ ta ∈ h.picked (h.maxTracksSelected.toNat - active.size) rows := by
  induction rows with
  | nil =>
    intro h active _
    simp [selectTracks, picked]
  | cons row rows ih =>
    intro h active hfresh
    rw [List.map_cons, List.nodup_cons] at hnodup
    rw [selectTracks]
    by_cases hfull : active.size ≥ h.maxTracksSelected.toNat
    · have hzero : h.maxTracksSelected.toNat - active.size = 0 := by omega
      rw [if_pos hfull, hzero]
      simp [picked]
    rw [if_neg hfull]
    have hrest : ∀ row' ∈ rows, active.contains row'.trackAlias = false :=
      fun row' hrow' => hfresh row' (List.mem_cons_of_mem _ hrow')
    by_cases hself : row.connId = h.connectionId
    · rw [if_pos hself, picked_skip (.inl hself)]
      exact ih hnodup.2 h active hrest
    rw [if_neg hself]
    cases hpub : h.publishedTracks[row.trackAlias]? with
    | none =>
      rw [picked_skip (.inr (by simp [statusOf, hpub]))]
      exact ih hnodup.2 h active hrest
    | some track =>
      have hstatus : h.statusOf row.trackAlias = some track.status := by simp [statusOf, hpub]
      have hsetup := sameSetup_resumed base h row track.status
      have hstatus' := statusOf_resumed base hstatus
      have hin : active.contains row.trackAlias = false := hfresh row List.mem_cons_self
      have hsize : (active.insertIfNew row.trackAlias row.latestTick).size = active.size + 1 := by
        rw [ExtTreeMap.size_insertIfNew, if_neg (by rw [← ExtTreeMap.contains_iff_mem, hin]; simp)]
      have hleft : h.maxTracksSelected.toNat - active.size =
          h.maxTracksSelected.toNat - (active.size + 1) + 1 := by omega
      have hfresh' : ∀ row' ∈ rows,
          (active.insertIfNew row.trackAlias row.latestTick).contains row'.trackAlias = false := by
        intro row' hrow'
        have hne : row.trackAlias ≠ row'.trackAlias := fun heq =>
          hnodup.1 (heq ▸ List.mem_map_of_mem hrow')
        simp [ExtTreeMap.contains_insertIfNew, hne, hrest row' hrow']
      obtain ⟨hrunStatus, hrunActive⟩ := ih hnodup.2 _ _ hfresh'
      rw [hsetup.maxTracksSelected, hsize, hsetup.picked] at hrunStatus hrunActive
      rw [hleft, picked_take hself (by rw [hstatus]; rfl)]
      refine ⟨fun ta => ?_, fun ta => ?_⟩
      · rw [hrunStatus, hstatus']
        by_cases hta : ta = row.trackAlias
        · have hnot : row.trackAlias ∉
              h.picked (h.maxTracksSelected.toNat - (active.size + 1)) rows :=
            fun hmem => hnodup.1 (mem_of_mem_picked hmem)
          simp [hta, hnot, hstatus]
        · have hresume := resumeStatus_congr base (contains_resumed base h track.status hta)
          simp [hta, funext hresume]
      · rw [hrunActive, ExtTreeMap.contains_insertIfNew]
        simp only [Bool.or_eq_true, beq_iff_eq, LawfulEqCmp.compare_eq_iff_eq, List.mem_cons]
        tauto

theorem pauseTracks_spec (h : PublishNamespaceHandler) (active : ExtTreeMap TrackAlias UInt64) :
    SameSetup h (h.pauseTracks active) ∧ ∀ ta, (h.pauseTracks active).statusOf ta =
      (h.statusOf ta).map fun status =>
        if h.Demotes ∧ active.contains ta = false ∧ status = .ok then .paused else status := by
  unfold pauseTracks
  by_cases hdemotes : h.Demotes
  · rw [if_pos (show h.publishedTracks.size > h.maxTracksSelected.toNat from hdemotes)]
    refine ⟨⟨rfl, rfl, rfl, rfl, fun _ => id, ExtTreeMap.size_map, fun ta => ?_⟩, fun ta => ?_⟩
    · simp [statusOf, ExtTreeMap.getElem?_map]
    · simp only [statusOf, ExtTreeMap.getElem?_map, Option.map_map]
      congr 1
      funext track
      simp only [Function.comp_apply, hdemotes, true_and]
      cases active.contains ta
      · by_cases hok : track.status = .ok <;> simp [hok]
      · simp
  · rw [if_neg (show ¬ h.publishedTracks.size > h.maxTracksSelected.toNat from hdemotes)]
    refine ⟨.refl h, fun ta => ?_⟩
    simp [hdemotes]

/-- What a call of `UpdateTrackRanking` does to a status. -/
def rankedStatus (selected demotes : Bool) (status : PublishStatus) : PublishStatus :=
  if selected then resumed status
  else if demotes ∧ status = .ok then .paused
  else status

theorem sameSetup_updateTrackRanking (base : BasePublish) (h : PublishNamespaceHandler)
    (rows : List FlatTrack) : SameSetup h (h.updateTrackRanking base rows) := by
  unfold updateTrackRanking
  split
  · exact .refl h
  · exact ((h.touchTracks_spec rows).1.trans (sameSetup_selectTracks base rows _ ∅)).trans
      (pauseTracks_spec _ _).1

@[simp] theorem handlers_touchTracks (h : PublishNamespaceHandler) (rows : List FlatTrack) :
    (h.touchTracks rows).handlers = h.handlers := by
  unfold touchTracks
  induction rows generalizing h with
  | nil => rfl
  | cons row rows ih =>
    rw [List.foldl_cons, ih]

/-- The local `active_tracks` of a call: the tracks that it counts as active. -/
def activeTracks (base : BasePublish) (h : PublishNamespaceHandler) (rows : List FlatTrack) :
    ExtTreeMap TrackAlias UInt64 :=
  (selectTracks base rows (h.touchTracks rows) ∅).2

theorem contains_activeTracks (base : BasePublish) (h : PublishNamespaceHandler)
    {rows : List FlatTrack} (hnodup : (rows.map FlatTrack.trackAlias).Nodup) (ta : TrackAlias) :
    (h.activeTracks base rows).contains ta = true ↔ ta ∈ h.active rows := by
  obtain ⟨htouch, -⟩ := h.touchTracks_spec rows
  rw [activeTracks, (selectTracks_spec base hnodup _ ∅ (by simp)).2, htouch.picked,
    htouch.maxTracksSelected, ExtTreeMap.size_empty, Nat.sub_zero, active]
  simp

/-- The status after a call, also of a track that is missing in `handlers_`. -/
theorem statusOf_updateTrackRanking_resume (base : BasePublish) (h : PublishNamespaceHandler)
    (hprop : h.propertyType.isSome) {rows : List FlatTrack}
    (hnodup : (rows.map FlatTrack.trackAlias).Nodup) (ta : TrackAlias) :
    (h.updateTrackRanking base rows).statusOf ta = (h.statusOf ta).map fun status =>
      if ta ∈ h.active rows then h.resumeStatus base ta status
      else if h.Demotes ∧ status = .ok then .paused else status := by
  obtain ⟨htouch, htouchStatus⟩ := h.touchTracks_spec rows
  obtain ⟨hselectStatus, -⟩ := selectTracks_spec base hnodup (h.touchTracks rows) ∅ (by simp)
  have hactive := contains_activeTracks base h hnodup ta
  rw [activeTracks] at hactive
  have hpicked : (h.touchTracks rows).picked ((h.touchTracks rows).maxTracksSelected.toNat -
      (∅ : ExtTreeMap TrackAlias UInt64).size) rows = h.active rows := by
    rw [htouch.picked, htouch.maxTracksSelected, ExtTreeMap.size_empty, Nat.sub_zero, active]
  have hresume : ∀ status, (h.touchTracks rows).resumeStatus base ta status =
      h.resumeStatus base ta status :=
    resumeStatus_congr base (congrArg (ExtTreeSet.contains · ta) (handlers_touchTracks h rows))
  have hdemotes := (htouch.trans (sameSetup_selectTracks base rows _ ∅)).demotes
  rw [updateTrackRanking, if_neg (by rw [← Option.not_isSome, hprop]; decide),
    (pauseTracks_spec _ _).2, hselectStatus, htouchStatus, hpicked]
  by_cases hta : ta ∈ h.active rows
  · have hin := hactive.mpr hta
    rw [if_pos hta, Option.map_map]
    congr 1
    funext status
    simp [hta, hin, hresume]
  · have hout : (selectTracks base rows (h.touchTracks rows) ∅).2.contains ta = false := by
      rw [← Bool.not_eq_true, hactive]
      exact hta
    rw [if_neg hta]
    congr 1
    funext status
    simp [hta, hout, hdemotes]

theorem statusOf_updateTrackRanking (base : BasePublish) {h : PublishNamespaceHandler}
    (hreg : h.Registered) (hprop : h.propertyType.isSome) {rows : List FlatTrack}
    (hnodup : (rows.map FlatTrack.trackAlias).Nodup) (ta : TrackAlias) :
    (h.updateTrackRanking base rows).statusOf ta =
      (h.statusOf ta).map (rankedStatus (decide (ta ∈ h.active rows)) (decide h.Demotes)) := by
  rw [statusOf_updateTrackRanking_resume base h hprop hnodup]
  cases hstatus : h.statusOf ta with
  | none => rfl
  | some status =>
    have hin : h.handlers.contains ta = true := hreg ta (by rw [hstatus]; rfl)
    rw [Option.map_some, Option.map_some, resumeStatus_eq_resumed base hin]
    simp [rankedStatus]

/-- The handler after one call for each of the lists. -/
def follow (base : BasePublish) (h : PublishNamespaceHandler) (lists : List (List FlatTrack)) :
    PublishNamespaceHandler :=
  lists.foldl (updateTrackRanking base) h

end PublishNamespaceHandler

/-! ### The calls that a registered handler gets -/

/-- The lists that the calls of a run hand to the handlers. -/
def TrackRanking.lists (r : TrackRanking) : List Op → List (List FlatTrack)
  | [] => []
  | .updateValue c :: ops => (r.updateValue c).flatTrackList :: (r.updateValue c).lists ops
  | .setInactiveAge ageMs :: ops => (r.setInactiveAge ageMs).lists ops

namespace RankingSystem

/-- The handler that is registered for a namespace and connection. -/
def handlerAt (sys : RankingSystem) (nsHash conn : UInt64) : Option HandlerId :=
  sys.nsHandlers.get₂? nsHash conn

/-- The handler is alive and registered under its namespace and connection, and under no other. -/
structure Registers (sys : RankingSystem) (id : HandlerId) (h : PublishNamespaceHandler) :
    Prop where
  live : sys.live[id]? = some h
  registered : sys.handlerAt h.nsHash h.connectionId = some id
  only : ∀ nsHash conn, sys.handlerAt nsHash conn = some id →
    nsHash = h.nsHash ∧ conn = h.connectionId

theorem handlerAt_notify (base : BasePublish) (sys : RankingSystem) (nsHash conn : UInt64) :
    (sys.notify base).handlerAt nsHash conn =
      (sys.handlerAt nsHash conn).filter fun id => sys.live.contains id := by
  simp only [handlerAt, ExtTreeMap.get₂?, notify, ExtTreeMap.getElem?_filterMap']
  cases hconns : sys.nsHandlers[nsHash]? with
  | none => rfl
  | some conns =>
    have halive := ExtTreeMap.getElem?_filter' (t := conns) (k := conn)
      (f := fun _ id => sys.live.contains id)
    simp only [Option.bind_some]
    split
    · rename_i hempty
      rw [ExtTreeMap.isEmpty_iff_getElem?] at hempty
      rw [← halive, hempty conn]
      rfl
    · exact halive

/-- A handler stays where one is registered. -/
theorem handlerAt_addNamespaceHandler (sys : RankingSystem) {id : HandlerId}
    {h : PublishNamespaceHandler} (hlive : sys.live[id]? = some h) (nsHash conn : UInt64) :
    (sys.addNamespaceHandler id).handlerAt nsHash conn =
      if nsHash = h.nsHash ∧ conn = h.connectionId then
        some ((sys.handlerAt h.nsHash h.connectionId).getD id)
      else sys.handlerAt nsHash conn := by
  simp only [handlerAt, addNamespaceHandler, hlive]
  exact ExtTreeMap.get₂?_insertIfNew₂ ..

/-- Any handler goes that is registered there. -/
theorem handlerAt_removeNamespaceHandler (sys : RankingSystem) {id : HandlerId}
    {h : PublishNamespaceHandler} (hlive : sys.live[id]? = some h) (nsHash conn : UInt64) :
    (sys.removeNamespaceHandler id).handlerAt nsHash conn =
      if nsHash = h.nsHash ∧ conn = h.connectionId then none else sys.handlerAt nsHash conn := by
  simp only [handlerAt, removeNamespaceHandler, hlive, ExtTreeMap.get₂?,
    ExtTreeMap.getElem?_insert_ite]
  by_cases hhash : nsHash = h.nsHash
  · subst hhash
    rw [if_pos rfl, Option.bind_some, ExtTreeMap.getElem?_erase_ite,
      ExtTreeMap.getD_eq_getD_getElem?]
    cases sys.nsHandlers[h.nsHash]? <;> simp
  · simp [hhash]

/-- A registered handler gets the list once. -/
theorem Registers.notify {sys : RankingSystem} {id : HandlerId} {h : PublishNamespaceHandler}
    (hreg : sys.Registers id h) (base : BasePublish) :
    (sys.notify base).Registers id (h.updateTrackRanking base sys.ranking.flatTrackList) := by
  have hsetup := h.sameSetup_updateTrackRanking base sys.ranking.flatTrackList
  have hcount : sys.registered.count id = 1 := ExtTreeMap.count_entries₂ hreg.registered hreg.only
  refine ⟨?_, ?_, ?_⟩
  · rw [RankingSystem.notify, ExtTreeMap.getElem?_foldl_modify, hcount, hreg.live]
    rfl
  · rw [hsetup.nsHash, hsetup.connectionId, handlerAt_notify, hreg.registered]
    simp [Option.filter_some, ExtTreeMap.contains_iff_getElem?.mpr ⟨h, hreg.live⟩]
  · intro nsHash conn hat
    rw [handlerAt_notify, Option.filter_eq_some_iff] at hat
    rw [hsetup.nsHash, hsetup.connectionId]
    exact hreg.only nsHash conn hat.1

theorem Registers.run {sys : RankingSystem} {id : HandlerId} {h : PublishNamespaceHandler}
    (hreg : sys.Registers id h) (base : BasePublish) (ops : List Op) :
    (sys.run base ops).Registers id (h.follow base (sys.ranking.lists ops)) := by
  induction ops generalizing sys h with
  | nil => exact hreg
  | cons op ops ih =>
    cases op with
    | updateValue c =>
      have hstep : Registers { sys with ranking := sys.ranking.updateValue c } id h :=
        ⟨hreg.live, hreg.registered, hreg.only⟩
      exact ih (hstep.notify base)
    | setInactiveAge ageMs =>
      have hstep : Registers { sys with ranking := sys.ranking.setInactiveAge ageMs } id h :=
        ⟨hreg.live, hreg.registered, hreg.only⟩
      exact ih hstep

end RankingSystem

end Laps.Ranking
