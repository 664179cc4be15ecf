import Laps.Lib.OrdMap
import Mathlib.Data.List.Sort

/-! `TrackRanking`: the ranking of tracks by property type and value.  `ordered_tracks_` holds the
tracks in buckets, one for each property type and value; `flat_track_list_` is the list for the
property that was updated last, in rank order, which the namespace handlers receive. -/

namespace Laps.Ranking

open Std

abbrev PropertyType := UInt64
abbrev TrackAlias := UInt64
abbrev PropertyValue := UInt64

structure TrackTickInfo where
  insertSeqNum : UInt64
  latestTick : UInt64
  deriving DecidableEq, Repr

/-- The tracks of one bucket.  The source has an unordered map; nothing here depends on the order
of its entries. -/
abbrev TrackEntry := ExtTreeMap TrackAlias TrackTickInfo

/-- The buckets: `ordered_tracks_`. -/
abbrev OrderedTracks := ExtTreeMap (PropertyType × PropertyValue) TrackEntry

/-- A row of `flat_track_list_`. -/
structure FlatTrack where
  trackAlias : TrackAlias
  insertSeqNum : UInt64
  latestTick : UInt64
  connId : UInt64
  deriving DecidableEq, Repr

/-- The tables of a `TrackRanking`.  Its registered handlers are in `RankingSystem`. -/
structure TrackRanking where
  inactiveAgeMs : UInt64 := 10000
  updateValueSeqNum : UInt64 := 0
  orderedTracks : OrderedTracks := ∅
  flatTrackList : List FlatTrack := []
  trackConnections : ExtTreeMap TrackAlias UInt64 := ∅
  deriving DecidableEq

/-- The arguments of a call of `UpdateValue`. -/
structure UpdateValue where
  trackAlias : TrackAlias
  prop : PropertyType
  value : PropertyValue
  tick : UInt64
  connectionId : UInt64
  deriving DecidableEq, Repr

/-! ### The first loop: the track leaves its old bucket -/

/-- The bucket holds the track of the call under another value of the same property. -/
def isOldBucket (c : UpdateValue) (key : PropertyType × PropertyValue) (entry : TrackEntry) :
    Bool :=
  key.1 == c.prop && key.2 != c.value && entry.contains c.trackAlias

/-- What the first loop leaves of a bucket: an emptied bucket is erased. -/
def leaveBucket (c : UpdateValue) (key : PropertyType × PropertyValue) (entry : TrackEntry) :
    Option TrackEntry :=
  if isOldBucket c key entry then
    if (entry.erase c.trackAlias).isEmpty then none else some (entry.erase c.trackAlias)
  else
    some entry

def leaveOldBuckets (c : UpdateValue) (tracks : OrderedTracks) : OrderedTracks :=
  tracks.filterMap (leaveBucket c)

def valueDecreased (c : UpdateValue) (tracks : OrderedTracks) : Bool :=
  tracks.anyEntry fun key entry => isOldBucket c key entry && key.2 > c.value

/-- The first loop asks for a rebuild only past the `continue` of an emptied bucket. -/
def leavesShared (c : UpdateValue) (tracks : OrderedTracks) : Bool :=
  tracks.anyEntry fun key entry =>
    isOldBucket c key entry && !(entry.erase c.trackAlias).isEmpty

/-! ### The track enters its bucket -/

/-- The sequence number of a track that is new to its bucket, from the counter after its
increment. -/
def insertSeq (decreased : Bool) (seqNum : UInt64) : UInt64 :=
  if decreased then ((0xFFFFFFFFFFFFFFFF : UInt64) >>> 1) - seqNum
  else ((1 : UInt64) <<< 63) ||| seqNum

/-- The bucket with the track in it; a track that is there already only gets the new tick. -/
def enterBucket (c : UpdateValue) (seqNum : UInt64) (entry : TrackEntry) : TrackEntry :=
  match entry[c.trackAlias]? with
  | none => entry.insert c.trackAlias { insertSeqNum := seqNum, latestTick := c.tick }
  | some info => entry.insert c.trackAlias { info with latestTick := c.tick }

/-- `try_emplace` of the bucket and the update of the track in it. -/
def placeTrack (c : UpdateValue) (seqNum : UInt64) (tracks : OrderedTracks) : OrderedTracks :=
  tracks.insert (c.prop, c.value) (enterBucket c seqNum (tracks.getD (c.prop, c.value) ∅))

/-! ### Inactive tracks -/

/-- A track that was last updated at `info.latestTick` is inactive at `tick`. -/
def isInactive (inactiveAgeMs tick : UInt64) (info : TrackTickInfo) : Bool :=
  tick ≥ info.latestTick && tick - info.latestTick > inactiveAgeMs

/-- What the second loop leaves of a bucket. -/
def expireBucket (inactiveAgeMs tick : UInt64) (entry : TrackEntry) : Option TrackEntry :=
  let live := entry.filter fun _ info => !isInactive inactiveAgeMs tick info
  if live.isEmpty then none else some live

def removeInactive (inactiveAgeMs tick : UInt64) (tracks : OrderedTracks) : OrderedTracks :=
  tracks.filterMap fun _ entry => expireBucket inactiveAgeMs tick entry

def hasInactive (inactiveAgeMs tick : UInt64) (tracks : OrderedTracks) : Bool :=
  tracks.anyEntry fun _ entry => entry.anyEntry fun _ info => isInactive inactiveAgeMs tick info

/-! ### The flat list -/

/-- The comparison of the sort: ascending sequence number, then descending alias. -/
def FlatTrack.before (a b : FlatTrack) : Bool :=
  if a.insertSeqNum ≠ b.insertSeqNum then a.insertSeqNum < b.insertSeqNum
  else a.trackAlias > b.trackAlias

/-- The rows of one bucket.  Every stored track has a connection, so the entry that `operator[]`
would add is never needed. -/
def bucketRows (connections : ExtTreeMap TrackAlias UInt64) (entry : TrackEntry) :
    List FlatTrack :=
  (entry.toList.map fun track =>
    { trackAlias := track.1, insertSeqNum := track.2.insertSeqNum,
      latestTick := track.2.latestTick, connId := connections.getD track.1 0 }).insertionSort
    fun a b => !b.before a

/-- The list of a property: its buckets from the greatest value down. -/
def rebuildFlatList (tracks : OrderedTracks) (connections : ExtTreeMap TrackAlias UInt64)
    (prop : PropertyType) : List FlatTrack :=
  (tracks.withFst prop).reverse.flatMap fun bucket => bucketRows connections bucket.2

/-- The update in place: the first row of the track gets the new tick and connection. -/
def patchFlatList (c : UpdateValue) : List FlatTrack → List FlatTrack
  | [] => []
  | row :: rows =>
    if row.trackAlias == c.trackAlias then
      { row with latestTick := c.tick, connId := c.connectionId } :: rows
    else
      row :: patchFlatList c rows

/-! ### UpdateValue -/

/-- The buckets after the first loop and the update of the track. -/
def TrackRanking.placed (r : TrackRanking) (c : UpdateValue) : OrderedTracks :=
  placeTrack c (insertSeq (valueDecreased c r.orderedTracks) (r.updateValueSeqNum + 1))
    (leaveOldBuckets c r.orderedTracks)

/-- The flag `needs_rebuild` at its test: a shared bucket was left, the bucket is new, or a track
was removed for inactivity. -/
def TrackRanking.needsRebuild (r : TrackRanking) (c : UpdateValue) : Bool :=
  leavesShared c r.orderedTracks ||
    !(leaveOldBuckets c r.orderedTracks).contains (c.prop, c.value) ||
    hasInactive r.inactiveAgeMs c.tick (r.placed c)

/-- `UpdateValue` up to the notification of the namespace handlers. -/
def TrackRanking.updateValue (r : TrackRanking) (c : UpdateValue) : TrackRanking :=
  let tracks := removeInactive r.inactiveAgeMs c.tick (r.placed c)
  let connections := r.trackConnections.insert c.trackAlias c.connectionId
  { r with
    updateValueSeqNum := r.updateValueSeqNum + 1
    orderedTracks := tracks
    trackConnections := connections
    flatTrackList :=
      if r.needsRebuild c then rebuildFlatList tracks connections c.prop
      else patchFlatList c r.flatTrackList }

def TrackRanking.setInactiveAge (r : TrackRanking) (ageMs : UInt64) : TrackRanking :=
  { r with inactiveAgeMs := ageMs }

/-! ### Runs -/

inductive Op where
  | updateValue (c : UpdateValue)
  | setInactiveAge (ageMs : UInt64)
  deriving DecidableEq, Repr

def TrackRanking.step (r : TrackRanking) : Op → TrackRanking
  | .updateValue c => r.updateValue c
  | .setInactiveAge ageMs => r.setInactiveAge ageMs

/-- The ranking after the operations, from the empty ranking. -/
def TrackRanking.run (ops : List Op) : TrackRanking := ops.foldl TrackRanking.step {}

theorem TrackRanking.run_concat (ops : List Op) (op : Op) :
    TrackRanking.run (ops ++ [op]) = (TrackRanking.run ops).step op := by
  simp [TrackRanking.run]

end Laps.Ranking
