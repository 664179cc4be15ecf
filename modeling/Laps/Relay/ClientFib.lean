import Laps.Lib.Runs
import Laps.Relay.Forwarding
import Mathlib.Data.List.TakeWhile

/-! The client table over whole runs: it stands for the node sets that the sessions have for the
tracks, as long as subscriptions come over the sessions that lead to their nodes. -/

namespace Laps.Relay

open Std Client Peering

/-! ### The table and the node sets -/

/-- The egress of an entry: its session and the node set there. -/
def egressOf (entry : FibEntry) : Option PeerSessionId × SubscribeNodeSetId :=
  (entry.peerSession, entry.outSnsId)

/-- The client table has an entry under a track and a session exactly when the session has nodes for
the track, and the entry leads to that node set. -/
def FibMatches (r : Relay) : Prop :=
  ∀ hash id, r.infoBase.clientFib[(hash, id)]?.map egressOf =
    ((r.nodeSetAt id hash).filter fun sns => !sns.nodes.isEmpty).map fun sns => (some id, sns.id)

/-- The node sets have nodes and data contexts. -/
def GoodSets (r : Relay) : Prop :=
  ∀ id hash sns, r.nodeSetAt id hash = some sns → sns.nodes.isEmpty = false ∧ sns.id ≠ 0

theorem fibMatches_iff {r : Relay} (hsets : GoodSets r) : r.FibMatches ↔
    ∀ hash id, r.infoBase.clientFib[(hash, id)]?.map egressOf =
      (r.nodeSetAt id hash).map fun sns => (some id, sns.id) := by
  have hfilter : ∀ id hash, ((r.nodeSetAt id hash).filter fun sns => !sns.nodes.isEmpty) =
      r.nodeSetAt id hash := by
    intro id hash
    cases hsns : r.nodeSetAt id hash with
    | none => rfl
    | some sns => simp [Option.filter, (hsets id hash sns hsns).1]
  simp only [FibMatches, hfilter]

section Steps

variable {q : Quicr} {r r' : Relay} {hash : UInt64} {node : NodeIdValueType}
variable {best key : PeerSessionId}

theorem GoodSets.keeps (hsets : GoodSets r) (h : KeepsForwarding r r') : GoodSets r' := by
  intro id hash sns hsns
  rw [h.nodeSetAt] at hsns
  exact hsets id hash sns hsns

theorem FibMatches.keeps (hfib : FibMatches r) (h : KeepsForwarding r r') : FibMatches r' := by
  intro hash id
  rw [h.clientFib, h.nodeSetAt]
  exact hfib hash id

theorem GoodSets.joins (hcontext : ∀ inUse, q.createDataContext inUse ≠ 0) (hsets : GoodSets r)
    (h : JoinsSet q hash node best key r r') : GoodSets r' := by
  intro id hash' sns hsns
  by_cases hat : id = best ∧ hash' = hash
  · obtain ⟨rfl, rfl⟩ := hat
    obtain ⟨snsId, hjoined, hold, hnew, -⟩ := h.joined
    rw [hjoined] at hsns
    cases hsns
    refine ⟨ExtTreeSet.isEmpty_eq_false_iff_contains.mpr ⟨node, by simp⟩, ?_⟩
    by_cases hzero : ((r.nodeSetAt id hash').getD {}).id = 0
    · obtain ⟨inUse, rfl⟩ := hnew hzero
      exact hcontext inUse
    · rw [hold hzero]
      exact hzero
  · rw [h.other id hash' hat] at hsns
    exact hsets id hash' sns hsns

theorem GoodSets.leaves (hsets : GoodSets r) (h : LeavesSet hash node best key r r') :
    GoodSets r' := by
  intro id hash' sns hsns
  by_cases hat : id = best ∧ hash' = hash
  · obtain ⟨rfl, rfl⟩ := hat
    rw [h.left, Option.filter_eq_some_iff, Option.map_eq_some_iff] at hsns
    obtain ⟨⟨sns', hsns', rfl⟩, hnonempty⟩ := hsns
    exact ⟨by simpa using hnonempty, (hsets id hash' sns' hsns').2⟩
  · rw [h.other id hash' hat] at hsns
    exact hsets id hash' sns hsns

/-- The entry for a new node stands under the session of its node set, or nothing has to be put in:
both sessions have nodes already. -/
def CleanJoin (r : Relay) (hash : UInt64) (node : NodeIdValueType) (best key : PeerSessionId) :
    Prop :=
  ((r.nodeSetAt best hash).getD {}).nodes.contains node = false →
    key = best ∨ ((r.nodeSetAt best hash).isSome = true ∧ (r.nodeSetAt key hash).isSome = true)

theorem fibMatches_joins (hcontext : ∀ inUse, q.createDataContext inUse ≠ 0) (hsets : GoodSets r)
    (hfib : FibMatches r) (h : JoinsSet q hash node best key r r') :
    FibMatches r' ↔ r.CleanJoin hash node best key := by
  rw [fibMatches_iff (hsets.joins hcontext h)]
  rw [fibMatches_iff hsets] at hfib
  obtain ⟨snsId, hjoined, hold, -, hclient⟩ := h.joined
  -- The id of a node set that there was is kept.
  have hkept : ∀ sns, r.nodeSetAt best hash = some sns → snsId = sns.id := by
    intro sns hsns
    rw [hsns, Option.getD_some] at hold
    exact hold (hsets best hash sns hsns).2
  have hother : ∀ hash' id, (hash', id) ≠ (hash, best) →
      (r'.nodeSetAt id hash').map (fun sns => (some id, sns.id)) =
        r.infoBase.clientFib[(hash', id)]?.map egressOf := by
    intro hash' id hne
    rw [hfib, h.other id hash' fun hat => hne (by rw [hat.1, hat.2])]
  by_cases hin : ((r.nodeSetAt best hash).getD {}).nodes.contains node = true
  · refine iff_of_true (fun hash' id => ?_) fun hnot => ?_
    · rw [hclient, if_pos hin]
      by_cases hat : (hash', id) = (hash, best)
      · cases hat
        rw [hjoined, hfib]
        cases hsns : r.nodeSetAt best hash with
        | none => simp [hsns] at hin
        | some sns => rw [hkept sns hsns]; rfl
      · exact (hother hash' id hat).symm
    · rw [hin] at hnot
      cases hnot
  · rw [if_neg hin] at hclient
    have hlookup : ∀ hash' id, r'.infoBase.clientFib[(hash', id)]?.map egressOf =
        if (hash', id) = (hash, key) then
          some ((r.infoBase.clientFib[(hash, key)]?.map egressOf).getD (some best, snsId))
        else r.infoBase.clientFib[(hash', id)]?.map egressOf := by
      intro hash' id
      rw [hclient, ExtTreeMap.getElem?_insertIfNew_getD]
      split
      · cases r.infoBase.clientFib[(hash, key)]? <;> rfl
      · rfl
    constructor
    · intro hfib' _
      by_cases hkey : key = best
      · exact .inl hkey
      · right
        have hbest := hfib' hash best
        rw [hlookup, if_neg fun heq => hkey (congrArg Prod.snd heq).symm, hjoined, hfib] at hbest
        have hself := hfib' hash key
        rw [hlookup, if_pos rfl, h.other key hash fun hat => hkey hat.1] at hself
        constructor
        · cases hsns : r.nodeSetAt best hash with
          | none => simp [hsns] at hbest
          | some sns => rfl
        · cases hsns : r.nodeSetAt key hash with
          | none => simp [hsns] at hself
          | some sns => rfl
    · intro hclean hash' id
      rw [hlookup]
      rcases hclean (Bool.eq_false_iff.mpr hin) with rfl | ⟨hbest, hself⟩
      · by_cases hat : (hash', id) = (hash, key)
        · cases hat
          rw [if_pos rfl, hjoined, hfib]
          cases hsns : r.nodeSetAt key hash with
          | none => rfl
          | some sns => rw [hkept sns hsns]; rfl
        · rw [if_neg hat]
          exact (hother hash' id hat).symm
      · have hsame : (if (hash', id) = (hash, key) then
            some ((r.infoBase.clientFib[(hash, key)]?.map egressOf).getD (some best, snsId))
            else r.infoBase.clientFib[(hash', id)]?.map egressOf) =
              r.infoBase.clientFib[(hash', id)]?.map egressOf := by
          split
          · rename_i hat
            cases hat
            obtain ⟨sns, hsns⟩ := Option.isSome_iff_exists.mp hself
            rw [hfib, hsns]
            rfl
          · rfl
        rw [hsame]
        by_cases hat : (hash', id) = (hash, best)
        · cases hat
          obtain ⟨sns, hsns⟩ := Option.isSome_iff_exists.mp hbest
          rw [hjoined, hfib, hsns, hkept sns hsns]
          rfl
        · exact (hother hash' id hat).symm

/-- The entry of a node set that goes is under its session. -/
def CleanLeave (r : Relay) (hash : UInt64) (node : NodeIdValueType) (best key : PeerSessionId) :
    Prop :=
  ((r.nodeSetAt best hash).any fun sns => (sns.nodes.erase node).isEmpty) = true → key = best

theorem fibMatches_leaves (hsets : GoodSets r) (hfib : FibMatches r)
    (h : LeavesSet hash node best key r r') : FibMatches r' ↔ r.CleanLeave hash node best key := by
  rw [fibMatches_iff (hsets.leaves h)]
  rw [fibMatches_iff hsets] at hfib
  have hother : ∀ hash' id, (hash', id) ≠ (hash, best) →
      (r'.nodeSetAt id hash').map (fun sns => (some id, sns.id)) =
        r.infoBase.clientFib[(hash', id)]?.map egressOf := by
    intro hash' id hne
    rw [hfib, h.other id hash' fun hat => hne (by rw [hat.1, hat.2])]
  unfold CleanLeave
  cases hsns : r.nodeSetAt best hash with
  | none =>
    refine iff_of_true (fun hash' id => ?_) (by simp)
    rw [h.clientFib, hsns, if_neg (by simp)]
    by_cases hat : (hash', id) = (hash, best)
    · cases hat
      rw [h.left, hfib, hsns]
      rfl
    · exact (hother hash' id hat).symm
  | some sns =>
    have hleft := h.left
    rw [hsns, Option.map_some] at hleft
    rw [Option.any_some]
    have hclient := h.clientFib
    rw [hsns, Option.any_some] at hclient
    by_cases hempty : (sns.nodes.erase node).isEmpty = true
    · rw [if_pos hempty] at hclient
      have hnone : r'.nodeSetAt best hash = none := by
        rw [hleft]
        simp [Option.filter, hempty]
      have hlookup : ∀ hash' id, r'.infoBase.clientFib[(hash', id)]?.map egressOf =
          if (hash', id) = (hash, key) then none
          else r.infoBase.clientFib[(hash', id)]?.map egressOf := by
        intro hash' id
        rw [hclient, ExtTreeMap.getElem?_erase_ite]
        split <;> rfl
      constructor
      · intro hfib' _
        by_contra hkey
        have hbest := hfib' hash best
        rw [hlookup, if_neg fun heq => hkey (congrArg Prod.snd heq).symm, hnone, hfib, hsns]
          at hbest
        cases hbest
      · intro hclean hash' id
        obtain rfl := hclean hempty
        rw [hlookup]
        by_cases hat : (hash', id) = (hash, key)
        · cases hat
          rw [if_pos rfl, hnone]
          rfl
        · rw [if_neg hat]
          exact (hother hash' id hat).symm
    · rw [if_neg hempty] at hclient
      refine iff_of_true (fun hash' id => ?_) fun h => absurd h hempty
      rw [hclient]
      by_cases hat : (hash', id) = (hash, best)
      · cases hat
        rw [hleft, hfib, hsns]
        simp [Option.filter, hempty]
      · exact (hother hash' id hat).symm

end Steps

/-! ### Data -/

/-- The sessions are connected. -/
def AllConnected (r : Relay) : Prop :=
  ∀ id session, r.getPeerSession id = some session → session.status = .connected

/-- The entry has the stream that the data continues, or the data starts one or needs none. -/
def hasStream (chunk : Chunk) (entry : FibEntry) : Bool :=
  chunk.type ≠ .existingStream || entry.streams.contains chunk.inStreamId

section Data

variable {r : Relay} {createStream : CreateStream} {chunk : Chunk}

/-- An entry whose session is there and connected. -/
theorem clientDataEntry_spec (createStream : CreateStream) (chunk : Chunk) {entry : FibEntry}
    {id : PeerSessionId} {session : PeerSession} (hpeer : entry.peerSession = some id)
    (hget : r.getPeerSession id = some session)
    (hstatus : session.status = .connected) :
    (hasStream chunk entry = false → r.clientDataEntry createStream chunk entry = none) ∧
    (hasStream chunk entry = true → ∃ entry' sent,
      r.clientDataEntry createStream chunk entry = some (entry', [sent]) ∧
        egressOf entry' = egressOf entry ∧ sent.session = id) := by
  have hlock : r.lockSession entry.peerSession = some (id, session) := by
    simp [lockSession, hpeer, hget]
  have hsend : ∀ sent, session.sendData sent = [sent] := by
    intro sent
    simp [PeerSession.sendData, hstatus]
  unfold clientDataEntry hasStream
  rw [hlock]
  dsimp only
  simp only [hsend]
  by_cases hreliable : chunk.useReliable = true
  · rw [if_neg (by simp [hreliable])]
    cases hstream : entry.streams[chunk.inStreamId]? with
    | some streamId =>
      have hcontains := ExtTreeMap.contains_iff_getElem?.mpr ⟨streamId, hstream⟩
      refine ⟨fun hno => ?_, fun _ => ⟨entry, _, rfl, rfl, rfl⟩⟩
      simp [hcontains] at hno
    | none =>
      have hcontains := ExtTreeMap.contains_eq_false_iff.mpr hstream
      dsimp only
      by_cases hnew : chunk.type = .newStream
      · rw [if_neg (not_not.mpr hnew)]
        refine ⟨fun hno => ?_, fun _ => ⟨_, _, rfl, rfl, rfl⟩⟩
        simp [hnew] at hno
      · have hexisting : chunk.type = .existingStream := by
          simpa [Chunk.useReliable, hnew] using hreliable
        rw [if_pos hnew]
        refine ⟨fun _ => rfl, fun hyes => ?_⟩
        simp [hexisting, hcontains] at hyes
  · rw [if_pos (by simpa using hreliable)]
    refine ⟨fun hno => ?_, fun _ => ⟨entry, _, rfl, rfl, rfl⟩⟩
    have htype : chunk.type ≠ .existingStream := by
      intro htype
      simp [Chunk.useReliable, htype] at hreliable
    simp [htype] at hno

/-- The loop sends once on the session of each entry, up to the first one that lacks the stream. -/
theorem clientDataLoop_spec (hconnected : AllConnected r)
    (entries : List ((UInt64 × PeerSessionId) × FibEntry))
    (fib : ExtTreeMap (UInt64 × PeerSessionId) FibEntry)
    (hentries : ∀ entry ∈ entries, entry.2.peerSession = some entry.1.2 ∧
      r.live entry.1.2 = true ∧ fib[entry.1]?.map egressOf = some (egressOf entry.2)) :
    (r.clientDataLoop createStream chunk entries fib).2.map DataSent.session =
      (entries.takeWhile fun entry => hasStream chunk entry.2).map (fun entry => entry.1.2) ∧
    ∀ key : UInt64 × PeerSessionId,
      (r.clientDataLoop createStream chunk entries fib).1[key]?.map egressOf =
        fib[key]?.map egressOf := by
  induction entries generalizing fib with
  | nil => exact ⟨rfl, fun _ => rfl⟩
  | cons entry entries ih =>
    obtain ⟨key, entry⟩ := entry
    obtain ⟨hpeer, hlive, hfib⟩ := hentries _ List.mem_cons_self
    obtain ⟨session, hget⟩ := Option.isSome_iff_exists.mp hlive
    obtain ⟨hstop, hgo⟩ := clientDataEntry_spec createStream chunk hpeer hget
      (hconnected _ _ hget)
    rw [List.takeWhile_cons]
    cases hstream : hasStream chunk entry with
    | false =>
      rw [clientDataLoop, hstop hstream]
      exact ⟨rfl, fun _ => rfl⟩
    | true =>
      obtain ⟨entry', sent, hentry', hegress, hsession⟩ := hgo hstream
      have hkept : ∀ key' : UInt64 × PeerSessionId,
          (fib.insert key entry')[key']?.map egressOf = fib[key']?.map egressOf := by
        intro key'
        rw [ExtTreeMap.getElem?_insert_ite]
        split
        · rename_i hkey
          rw [hkey, hfib, Option.map_some, hegress]
        · rfl
      obtain ⟨hsent, hmap⟩ := ih (fib.insert key entry') fun e he => by
        obtain ⟨he₁, he₂, he₃⟩ := hentries e (List.mem_cons_of_mem _ he)
        exact ⟨he₁, he₂, (hkept e.1).trans he₃⟩
      rw [clientDataLoop, hentry']
      dsimp only
      refine ⟨?_, fun key' => (hmap key').trans (hkept key')⟩
      rw [List.map_append, hsent, List.map_cons, hsession]
      rfl

/-- The data goes once to each session that has nodes for the track, and to no other. -/
def Delivered (r : Relay) (createStream : CreateStream) (chunk : Chunk) : Prop :=
  ∀ id, ((r.clientDataRecv createStream chunk).2.map DataSent.session).count id =
    if (r.nodeSetAt id chunk.trackFullNameHash).any fun sns => !sns.nodes.isEmpty then 1 else 0

/-- All entries of the track have the stream that the data continues. -/
def CleanData (r : Relay) (chunk : Chunk) : Prop :=
  ∀ (id : PeerSessionId) (entry : FibEntry),
    r.infoBase.clientFib[(chunk.trackFullNameHash, id)]? = some entry →
      hasStream chunk entry = true

/-- The entries of a track, when the table stands for the node sets. -/
theorem FibMatches.mem_withFst (hfib : FibMatches r) {hash : UInt64}
    {entry : (UInt64 × PeerSessionId) × FibEntry}
    (hmem : entry ∈ r.infoBase.clientFib.withFst hash) :
    entry.2.peerSession = some entry.1.2 ∧ r.live entry.1.2 = true ∧
      r.infoBase.clientFib[entry.1]?.map egressOf = some (egressOf entry.2) := by
  obtain ⟨⟨hash', id⟩, entry⟩ := entry
  obtain ⟨hget, rfl⟩ := ExtTreeMap.mem_withFst.mp hmem
  have hentry := hfib hash' id
  dsimp only at hget
  rw [hget, Option.map_some, eq_comm, Option.map_eq_some_iff] at hentry
  obtain ⟨sns, hsns, hegress⟩ := hentry
  obtain ⟨hsns, -⟩ := Option.filter_eq_some_iff.mp hsns
  refine ⟨(congrArg Prod.fst hegress).symm, ?_, by rw [hget]; rfl⟩
  unfold nodeSetAt at hsns
  obtain ⟨session, hsession, -⟩ := Option.bind_eq_some_iff.mp hsns
  simp [live, hsession]

theorem clientDataRecv_sessions (createStream : CreateStream) (chunk : Chunk)
    (hfib : FibMatches r) (hconnected : AllConnected r) :
    (r.clientDataRecv createStream chunk).2.map DataSent.session =
      ((r.infoBase.clientFib.withFst chunk.trackFullNameHash).takeWhile fun entry =>
        hasStream chunk entry.2).map fun entry => entry.1.2 :=
  (clientDataLoop_spec hconnected _ _ fun _ hmem => hfib.mem_withFst hmem).1

theorem delivered_iff (hfib : FibMatches r) (hconnected : AllConnected r) :
    r.Delivered createStream chunk ↔ r.CleanData chunk := by
  -- The sessions with nodes for the track are those with entries.
  have hsets : ∀ id, ((r.nodeSetAt id chunk.trackFullNameHash).any fun sns =>
      !sns.nodes.isEmpty) = r.infoBase.clientFib.contains (chunk.trackFullNameHash, id) := by
    intro id
    have hsome := congrArg Option.isSome (hfib chunk.trackFullNameHash id)
    rw [Option.isSome_map, Option.isSome_map, ExtTreeMap.isSome_getElem?_eq_contains] at hsome
    rw [hsome]
    cases hsns : r.nodeSetAt id chunk.trackFullNameHash with
    | none => rfl
    | some sns => cases hempty : sns.nodes.isEmpty <;> simp [Option.filter, hempty]
  have hsessions := clientDataRecv_sessions createStream chunk hfib hconnected
  unfold Delivered
  simp only [hsessions, hsets]
  set entries := r.infoBase.clientFib.withFst chunk.trackFullNameHash with hentries
  constructor
  · intro hcount id entry hget
    by_contra hno
    have hone := hcount id
    rw [if_pos (ExtTreeMap.contains_iff_getElem?.mpr ⟨entry, hget⟩)] at hone
    have hmem : id ∈ (entries.takeWhile fun entry => hasStream chunk entry.2).map
        fun entry => entry.1.2 := List.count_pos_iff.mp (by rw [hone]; exact Nat.one_pos)
    obtain ⟨⟨⟨hash, id'⟩, entry'⟩, htaken, rfl⟩ := List.mem_map.mp hmem
    obtain ⟨hget', rfl⟩ := ExtTreeMap.mem_withFst.mp
      ((List.takeWhile_sublist _).subset htaken)
    dsimp only at hget' hget
    rw [hget] at hget'
    cases hget'
    have hyes := List.mem_takeWhile_imp htaken
    exact hno hyes
  · intro hclean id
    have hall : (entries.takeWhile fun entry => hasStream chunk entry.2) = entries := by
      rw [List.takeWhile_eq_self_iff]
      intro entry hmem
      obtain ⟨hget, hhash⟩ := ExtTreeMap.mem_withFst.mp hmem
      refine hclean entry.1.2 entry.2 ?_
      rw [← hhash]
      exact hget
    have hnodup : (entries.map fun entry => entry.1.2).Nodup := by
      rw [List.Nodup, List.pairwise_map]
      exact ExtTreeMap.pairwise_withFst_ne
    rw [hall]
    split
    · rename_i hcontains
      obtain ⟨entry, hget⟩ := ExtTreeMap.contains_iff_getElem?.mp hcontains
      refine List.count_eq_one_of_mem hnodup
        (List.mem_map.mpr ⟨((chunk.trackFullNameHash, id), entry), ?_, rfl⟩)
      exact ExtTreeMap.mem_withFst.mpr ⟨hget, rfl⟩
    · rename_i hcontains
      refine List.count_eq_zero_of_not_mem fun hmem => hcontains ?_
      obtain ⟨⟨⟨hash, id'⟩, entry⟩, hentry, rfl⟩ := List.mem_map.mp hmem
      obtain ⟨hget, rfl⟩ := ExtTreeMap.mem_withFst.mp hentry
      exact ExtTreeMap.contains_iff_getElem?.mpr ⟨entry, hget⟩

theorem fibMatches_clientDataRecv (hfib : FibMatches r) (hconnected : AllConnected r) :
    FibMatches (r.clientDataRecv createStream chunk).1 := by
  intro hash id
  refine ((clientDataLoop_spec hconnected _ _ fun _ hmem => hfib.mem_withFst hmem).2
    (hash, id)).trans ?_
  exact hfib hash id

theorem fibMatches_endSubgroup (hfib : FibMatches r)
    (trackFullNameHash groupId subgroupId : UInt64) :
    FibMatches (r.endSubgroup trackFullNameHash groupId subgroupId) := by
  intro hash id
  refine Eq.trans ?_ (hfib hash id)
  show (ExtTreeMap.map _ r.infoBase.clientFib)[(hash, id)]?.map egressOf = _
  rw [ExtTreeMap.getElem?_map, Option.map_map]
  congr 1
  funext entry
  simp only [Function.comp_apply]
  split <;> rfl

end Data

/-! ### Node information -/

/-- Sessions stay connected when their status is kept. -/
theorem Keeps.allConnected {α β : Type*} {ofInfo : InfoBase → α} {ofSession : PeerSession → β}
    {r r' : Relay} (h : Keeps ofInfo ofSession r r') (status : β → StatusValue)
    (hstatus : ∀ session, status (ofSession session) = session.status)
    (hconnected : AllConnected r) : AllConnected r' := by
  intro id session' hget
  have hview := h.getPeerSession id
  rw [hget, Option.map_some, eq_comm, Option.map_eq_some_iff] at hview
  obtain ⟨session, hget, hview⟩ := hview
  rw [← hstatus, ← hview, hstatus]
  exact hconnected id session hget

/-- What the calls rest on: consistent node tables, and sessions that are there. -/
structure Routed (r : Relay) : Prop where
  tables : r.infoBase.NodeTables
  alive : r.infoBase.Alive r.live
  connected : AllConnected r

theorem nodeTables_of_keepsRoutes {r r' : Relay} (hkeeps : KeepsRoutes r r')
    (h : r.infoBase.NodeTables) : r'.infoBase.NodeTables := by
  have hnodes : r'.infoBase.nodes = r.infoBase.nodes := congrArg Prod.fst hkeeps.info
  have hbest : r'.infoBase.nodesBest = r.infoBase.nodesBest :=
    congrArg (fun infos => infos.2.1) hkeeps.info
  have hby : r'.infoBase.nodesByPeerSession = r.infoBase.nodesByPeerSession :=
    congrArg (fun infos => infos.2.2.1) hkeeps.info
  obtain ⟨hitem, hchosen, hrows, hnonempty⟩ := h
  refine ⟨by rw [hnodes]; exact hitem, fun n => ?_, by rw [hby, hnodes]; exact hrows,
    by rw [hby]; exact hnonempty⟩
  exact (hchosen n).congr (fun s => by rw [hnodes]) (by rw [hbest])

theorem alive_of_keepsRoutes {r r' : Relay} (hkeeps : KeepsRoutes r r')
    (h : r.infoBase.Alive r.live) : r'.infoBase.Alive r'.live := by
  intro n s hs
  rw [show r'.infoBase.nodes = r.infoBase.nodes from congrArg Prod.fst hkeeps.info] at hs
  rw [hkeeps.live]
  exact h n s hs

theorem Routed.keeps {r r' : Relay} (h : Routed r) (hkeeps : KeepsRoutes r r') : Routed r' :=
  ⟨nodeTables_of_keepsRoutes hkeeps h.tables, alive_of_keepsRoutes hkeeps h.alive,
    hkeeps.allConnected Prod.fst (fun _ => rfl) h.connected⟩

/-- Node information leaves the forwarding tables, the subscriptions and the sessions as they
are. -/
abbrev KeepsTables (r r' : Relay) : Prop :=
  Keeps (fun ib => (ib.clientFib, ib.peerFib, ib.subscribes))
    (fun session => (routeView session, session.subSns)) r r'

theorem nodeSetAt_of_keepsTables {r r' : Relay} (h : KeepsTables r r') (id : PeerSessionId)
    (hash : UInt64) : r'.nodeSetAt id hash = r.nodeSetAt id hash := by
  have hsns := congrArg (Option.bind · fun view => view.2[hash]?) (h.getPeerSession id)
  rwa [Option.bind_map, Option.bind_map] at hsns

/-- A message about a node leaves a session's status, routes and node sets alone. -/
theorem sendNodeInfo_view (session : PeerSession) (info : NodeInfo) (withdraw : Bool) :
    (routeView (session.sendNodeInfo info withdraw), (session.sendNodeInfo info withdraw).subSns) =
      (routeView session, session.subSns) := by
  unfold PeerSession.sendNodeInfo
  split <;> rfl

theorem keeps_propagateNodeInfo {α β : Type*} {ofInfo : InfoBase → α} {ofSession : PeerSession → β}
    (hsend : ∀ session info withdraw,
      ofSession (PeerSession.sendNodeInfo session info withdraw) = ofSession session)
    (r : Relay) (info : NodeInfo) (withdraw : Bool) :
    Keeps ofInfo ofSession r (r.propagateNodeInfo info withdraw) := by
  have hsent : ∀ (m : ExtTreeMap PeerSessionId PeerSession) (id : PeerSessionId),
      (m.map fun _ session => if skipNode info session.remoteNodeInfo then session else
        session.sendNodeInfo info withdraw)[id]?.map ofSession = m[id]?.map ofSession := by
    intro m id
    rw [ExtTreeMap.getElem?_map, Option.map_map]
    congr 1
    funext session
    simp only [Function.comp_apply]
    split
    · rfl
    · exact hsend session info withdraw
  exact ⟨rfl, rfl, hsent _, hsent _⟩

theorem keepsTables_propagateNodeInfo (r : Relay) (info : NodeInfo) (withdraw : Bool) :
    KeepsTables r (r.propagateNodeInfo info withdraw) :=
  keeps_propagateNodeInfo sendNodeInfo_view r info withdraw

theorem nodeReceived_spec {r : Relay} (htables : r.infoBase.NodeTables)
    (halive : r.infoBase.Alive r.live) (id : PeerSessionId) (info : NodeInfo) (withdraw : Bool) :
    ∃ r', r.nodeReceived id info withdraw = some r' ∧ r'.infoBase.NodeTables ∧
      r'.infoBase.Alive r'.live ∧ KeepsTables r r' := by
  unfold Relay.nodeReceived
  cases hsession : r.getPeerSession id with
  | none => exact ⟨r, rfl, htables, halive, .refl r⟩
  | some session =>
    have hlive : r.live id = true := by simp [live, hsession]
    -- What is left to do, once the node tables are changed.
    have hrest : ∀ ib : InfoBase, ib.NodeTables → ib.Alive r.live →
        (ib.clientFib, ib.peerFib, ib.subscribes) =
          (r.infoBase.clientFib, r.infoBase.peerFib, r.infoBase.subscribes) →
        ∀ r', KeepsTables (r.setInfoBase ib) r' → r'.infoBase = ib →
          r'.infoBase.NodeTables ∧ r'.infoBase.Alive r'.live ∧ KeepsTables r r' := by
      intro ib htables halive hsame r' hkeeps hib
      have hset : KeepsTables r (r.setInfoBase ib) := keeps_setInfoBase hsame
      refine ⟨by rw [hib]; exact htables, ?_, hset.trans hkeeps⟩
      rw [hib, hkeeps.live]
      exact halive
    cases withdraw with
    | true =>
      obtain ⟨ib, hremove, hib, hdropped, htables'⟩ := htables.removeNode halive info.id id
      have halive' : ib.Alive r.live := hdropped.alive halive
      dsimp only
      rw [if_pos rfl, hremove]
      refine ⟨_, rfl, hrest ib htables' halive' (by rw [hib]) _ ?_ rfl⟩
      exact keepsTables_propagateNodeInfo _ _ _
    | false =>
      obtain ⟨ib, isUpdated, hadd, hselected, htables', -⟩ := htables.addNode halive info hlive
      have halive' : ib.Alive r.live := by
        intro n s hs
        rw [hselected.same] at hs
        rcases (InfoBase.contains_nodes_insertNode r.infoBase id info n s).mp hs with ⟨-, rfl⟩ | hs
        · exact hlive
        · exact halive n s hs
      dsimp only
      rw [if_neg (by simp), hadd]
      refine ⟨_, rfl, hrest ib htables' halive' (by rw [hselected.same]; rfl) _ ?_ ?_⟩
      · dsimp only
        split
        · exact keepsTables_propagateNodeInfo _ _ _
        · exact .refl _
      · dsimp only
        split <;> rfl

theorem Routed.nodeReceived {r : Relay} (h : Routed r) (id : PeerSessionId) (info : NodeInfo)
    (withdraw : Bool) :
    ∃ r', r.nodeReceived id info withdraw = some r' ∧ Routed r' ∧ KeepsTables r r' := by
  obtain ⟨r', hr', htables, halive, hkeeps⟩ :=
    nodeReceived_spec h.tables h.alive id info withdraw
  refine ⟨r', hr', ⟨htables, halive, ?_⟩, hkeeps⟩
  exact hkeeps.allConnected (fun view => view.1.1) (fun _ => rfl) h.connected

/-! ### Runs -/

inductive FibCall where
  | subscribeInfo (id : PeerSessionId) (si : SubscribeInfo) (withdraw : Bool)
  | announce (full : FullTrackName) (withdraw publishNamespace : Bool)
  | publish (conn : ConnectionHandle) (req : RequestId) (full : FullTrackName)
  | publishNamespace (conn : ConnectionHandle) (nameSpace : TrackNamespace) (req : RequestId)
  | node (id : PeerSessionId) (info : NodeInfo) (withdraw : Bool)
  | data (createStream : CreateStream) (chunk : Chunk)
  | endSubgroup (trackFullNameHash groupId subgroupId : UInt64)

/-- Publications of clients lead to `clientAnnounce`. -/
def fibCall (q : Quicr) (r : Relay) : FibCall → Option Relay
  | .subscribeInfo id si withdraw => some (r.subscribeInfoReceived q id si withdraw)
  | .announce full withdraw publishNamespace =>
    some (r.clientAnnounce q full withdraw publishNamespace)
  | .publish conn req full => some (r.publishReceived q conn req full)
  | .publishNamespace conn nameSpace req =>
    some (r.publishNamespaceReceived q conn nameSpace req)
  | .node id info withdraw => r.nodeReceived id info withdraw
  | .data createStream chunk => some (r.clientDataRecv createStream chunk).1
  | .endSubgroup trackFullNameHash groupId subgroupId =>
    some (r.endSubgroup trackFullNameHash groupId subgroupId)

def fibCalls (q : Quicr) (r : Relay) (calls : List FibCall) : Option Relay :=
  calls.foldlM (fibCall q) r

/-- A subscription that makes or empties a node set comes over the session of the node set; data
that continues a stream finds it in all entries of its track. -/
def CleanCall (q : Quicr) (r : Relay) : FibCall → Prop
  | .subscribeInfo id si withdraw => r.live id = true →
    ∀ best, r.bestSession si.sourceNodeId = some best →
      (withdraw = false → MeetsPublication q r si →
        r.CleanJoin si.trackHash.trackFullnameHash si.sourceNodeId best id) ∧
      (withdraw = true → r.CleanLeave si.trackHash.trackFullnameHash si.sourceNodeId best id)
  | .data _ chunk => r.CleanData chunk
  | _ => True

/-- What a call does with data is right. -/
def DeliversData (r : Relay) : FibCall → Prop
  | .data createStream chunk => r.Delivered createStream chunk
  | _ => True

/-- What the runs keep. -/
structure FibInv (r : Relay) : Prop extends Routed r where
  sets : GoodSets r
  fib : FibMatches r

section Runs

variable {q : Quicr} (hcontext : ∀ inUse, q.createDataContext inUse ≠ 0)

theorem FibInv.keeps {r r' : Relay} (h : FibInv r) (hkeeps : KeepsForwarding r r') : FibInv r' :=
  ⟨h.toRouted.keeps hkeeps.keepsRoutes, h.sets.keeps hkeeps, h.fib.keeps hkeeps⟩

include hcontext

theorem FibInv.joins {r r' : Relay} {hash : UInt64} {node : NodeIdValueType}
    {best key : PeerSessionId} (h : FibInv r) (hjoins : JoinsSet q hash node best key r r')
    (hclean : r.CleanJoin hash node best key) : FibInv r' :=
  ⟨h.toRouted.keeps hjoins.routes, h.sets.joins hcontext hjoins,
    (fibMatches_joins hcontext h.sets h.fib hjoins).mpr hclean⟩

/-- One call, when the tables are right before it. -/
theorem fibInv_fibCall {r : Relay} (h : FibInv r) (call : FibCall) :
    ∃ r', fibCall q r call = some r' ∧ (CleanCall q r call → FibInv r') ∧
      (FibMatches r' → r.DeliversData call → CleanCall q r call) ∧
      (CleanCall q r call → r.DeliversData call) := by
  have hkeeps : ∀ {r r'}, KeepsForwarding r r' → FibInv r → FibInv r' :=
    fun hkeeps h => h.keeps hkeeps
  have hjoins : ∀ {r r'} {hash : UInt64} {node : NodeIdValueType} {best : PeerSessionId},
      r.bestSession node = some best → JoinsSet q hash node best best r r' → FibInv r → FibInv r' :=
    fun _ hjoins h => h.joins hcontext hjoins fun _ => .inl rfl
  cases call with
  | subscribeInfo id si withdraw =>
    refine ⟨_, rfl, ?_, ?_, fun _ => trivial⟩
    · intro hclean
      rcases subscribeInfoReceived_cases q r id si withdraw with ⟨hsame, -⟩ |
        ⟨best, hlive, hbest, ⟨hwithdraw, hadvertises, hjoin⟩ | ⟨hwithdraw, hleave⟩⟩
      · exact h.keeps hsame
      · exact h.joins hcontext hjoin ((hclean hlive best hbest).1 hwithdraw hadvertises)
      · refine ⟨h.toRouted.keeps hleave.routes, h.sets.leaves hleave, ?_⟩
        exact (fibMatches_leaves h.sets h.fib hleave).mpr ((hclean hlive best hbest).2 hwithdraw)
    · intro hfib _ hlive best hbest
      rcases subscribeInfoReceived_cases q r id si withdraw with ⟨-, hnot⟩ |
        ⟨best', -, hbest', ⟨hwithdraw, hadvertises, hjoin⟩ | ⟨hwithdraw, hleave⟩⟩
      · obtain ⟨hwithdraw, hnot⟩ := hnot best hlive hbest
        refine ⟨fun _ hadvertises => absurd hadvertises hnot, fun htrue => ?_⟩
        rw [hwithdraw] at htrue
        cases htrue
      · rw [hbest] at hbest'
        cases hbest'
        refine ⟨fun _ _ => (fibMatches_joins hcontext h.sets h.fib hjoin).mp hfib, fun htrue => ?_⟩
        rw [hwithdraw] at htrue
        cases htrue
      · rw [hbest] at hbest'
        cases hbest'
        refine ⟨fun hfalse => ?_, fun _ => (fibMatches_leaves h.sets h.fib hleave).mp hfib⟩
        rw [hwithdraw] at hfalse
        cases hfalse
  | announce full withdraw publishNamespace =>
    refine ⟨_, rfl, fun _ => ?_, fun _ _ => trivial, fun _ => trivial⟩
    exact clientAnnounce_preserves hkeeps hjoins full withdraw publishNamespace h
  | publish conn req full =>
    refine ⟨_, rfl, fun _ => ?_, fun _ _ => trivial, fun _ => trivial⟩
    exact publishReceived_preserves hkeeps hjoins conn req full h
  | publishNamespace conn nameSpace req =>
    refine ⟨_, rfl, fun _ => ?_, fun _ _ => trivial, fun _ => trivial⟩
    exact publishNamespaceReceived_preserves hkeeps hjoins conn nameSpace req h
  | node id info withdraw =>
    obtain ⟨r', hr', hrouted, htables⟩ := h.toRouted.nodeReceived id info withdraw
    refine ⟨r', hr', fun _ => ⟨hrouted, ?_, ?_⟩, fun _ _ => trivial, fun _ => trivial⟩
    · intro id hash sns hsns
      rw [nodeSetAt_of_keepsTables htables] at hsns
      exact h.sets id hash sns hsns
    · intro hash id
      rw [nodeSetAt_of_keepsTables htables, show r'.infoBase.clientFib = r.infoBase.clientFib from
        congrArg Prod.fst htables.info]
      exact h.fib hash id
  | data createStream chunk =>
    refine ⟨_, rfl, fun _ => ?_, fun _ => (delivered_iff h.fib h.connected).mp,
      (delivered_iff h.fib h.connected).mpr⟩
    refine ⟨h.toRouted.keeps (keeps_setInfoBase rfl), h.sets, ?_⟩
    exact fibMatches_clientDataRecv h.fib h.connected
  | endSubgroup trackFullNameHash groupId subgroupId =>
    refine ⟨_, rfl, fun _ => ?_, fun _ _ => trivial, fun _ => trivial⟩
    refine ⟨h.toRouted.keeps (keeps_setInfoBase rfl), h.sets, ?_⟩
    exact fibMatches_endSubgroup h.fib _ _ _

/-- All calls of a run are clean, in the states that they are made in. -/
def CleanCalls (q : Quicr) (r : Relay) (calls : List FibCall) : Prop :=
  ∀ before call, before ++ [call] <+: calls → ∀ r', fibCalls q r before = some r' →
    CleanCall q r' call

end Runs

/-- A relay with connected sessions and consistent node tables, that forwards nothing yet. -/
structure FreshFib (r : Relay) : Prop extends Routed r where
  clientFib : r.infoBase.clientFib = ∅
  subSns : ∀ id hash, r.nodeSetAt id hash = none

theorem FreshFib.inv {r : Relay} (h : FreshFib r) : FibInv r := by
  refine ⟨h.toRouted, fun id hash sns hsns => ?_, fun hash id => ?_⟩
  · rw [h.subSns] at hsns
    cases hsns
  · rw [h.clientFib, h.subSns, ExtTreeMap.getElem?_empty]
    rfl

/-- After every call of a run the client table stands for the node sets, and data goes where the
node sets are, if and only if the calls are clean. -/
theorem fibMatches_iff_cleanCalls (q : Quicr) (hcontext : ∀ inUse, q.createDataContext inUse ≠ 0)
    (r : Relay) (hfresh : FreshFib r) (calls : List FibCall) :
    (∀ before, before <+: calls → ∃ r', fibCalls q r before = some r' ∧ r'.FibMatches ∧
      ∀ call, before ++ [call] <+: calls → r'.DeliversData call) ↔ CleanCalls q r calls := by
  refine Runs.reaches_iff (fun r' call hinv hclean => ?_) (fun r' call hinv => ?_)
    (fun r' hinv => hinv.fib) hfresh.inv
  · obtain ⟨r'', hr'', hnext, -⟩ := fibInv_fibCall hcontext hinv call
    exact ⟨r'', hr'', hnext hclean⟩
  · obtain ⟨r'', hr'', hnext, hexact, hdata⟩ := fibInv_fibCall hcontext hinv call
    refine ⟨fun ⟨hdelivers, hfib⟩ => hexact (hfib r'' hr'') hdelivers, fun hclean => ?_⟩
    refine ⟨hdata hclean, fun r₁ hr₁ => ?_⟩
    obtain rfl := Option.some.inj (hr''.symm.trans hr₁)
    exact (hnext hclean).fib

/-- Node 1 with sessions to nodes 2 and 3, before they have told of any node. -/
def newSessions : Relay where
  nodeId := 1
  clientPeerSessions := ((∅ : ExtTreeMap PeerSessionId PeerSession).insert 7
    { status := .connected, nodeId := 1, remoteNodeInfo := { id := 2 } }).insert 8
      { status := .connected, nodeId := 1, remoteNodeInfo := { id := 3 } }

theorem freshFib_newSessions : FreshFib newSessions := by
  have hget : ∀ id, newSessions.getPeerSession id =
      if id = 8 then some { status := .connected, nodeId := 1, remoteNodeInfo := { id := 3 } }
      else if id = 7 then some { status := .connected, nodeId := 1, remoteNodeInfo := { id := 2 } }
      else none := by
    intro id
    simp only [getPeerSession, newSessions, ExtTreeMap.getElem?_empty,
      ExtTreeMap.getElem?_insert_ite]
  refine ⟨⟨InfoBase.nodeTables_empty, fun n s hs => ?_, fun id session hsession => ?_⟩, rfl,
    fun id hash => ?_⟩
  · simp [newSessions] at hs
  · rw [hget] at hsession
    split at hsession
    · cases hsession
      rfl
    · split at hsession
      · cases hsession
        rfl
      · cases hsession
  · unfold nodeSetAt
    rw [hget]
    split
    · simp
    · split <;> simp

/-- Data contexts are numbered from 1. -/
def Quicr.numbered : Quicr :=
  { Quicr.polynomial with
    createDataContext := fun inUse =>
      let id := Quicr.polynomial.createDataContext inUse
      if id = 0 then 1 else id }

theorem createDataContext_numbered (inUse : ExtTreeSet SubscribeNodeSetId) :
    Quicr.numbered.createDataContext inUse ≠ 0 := by
  show (if _ = 0 then (1 : SubscribeNodeSetId) else _) ≠ 0
  split
  · decide
  · assumption

/-- Node 2 subscribes to a track of a namespace that a client publishes, over session `id`. -/
def subscribeOver (id : PeerSessionId) : List FibCall :=
  [.node 7 { id := 2 } false, .publishNamespace 5 [[1]] 1,
    .subscribeInfo id
      { sourceNodeId := 2
        trackHash := Quicr.numbered.trackHash ⟨[[1]], [2]⟩
        subscribeData := Quicr.numbered.serializeSubscribe
          ⟨1, [[1]], [2], { subscriberPriority := some 1 }⟩ } false]

theorem cleanCalls_subscribeOver : CleanCalls Quicr.numbered newSessions (subscribeOver 7) := by
  rintro before call ⟨after, hafter⟩ r' hr'
  match before with
  | [] =>
    obtain ⟨rfl, -⟩ := List.cons.inj hafter
    trivial
  | [first] =>
    obtain ⟨-, hafter⟩ := List.cons.inj hafter
    obtain ⟨rfl, -⟩ := List.cons.inj hafter
    trivial
  | [first, second] =>
    obtain ⟨hfirst, hrest⟩ := List.cons.inj hafter
    obtain ⟨hsecond, hrest⟩ := List.cons.inj hrest
    obtain ⟨hcall, -⟩ := List.cons.inj hrest
    subst hfirst hsecond hcall
    intro _ best hbest
    have hseven : (fibCalls Quicr.numbered newSessions
        [.node 7 { id := 2 } false, .publishNamespace 5 [[1]] 1]).map (·.bestSession 2) =
          some (some 7) := by
      decide +kernel
    rw [hr', Option.map_some, hbest] at hseven
    cases hseven
    exact ⟨fun _ _ _ => .inl rfl, fun hfalse => by cases hfalse⟩
  | first :: second :: third :: rest =>
    have hlength := congrArg List.length hafter
    simp [subscribeOver] at hlength

/-- The subscription comes over the session that leads to its node. -/
theorem fibMatches_subscribeOver :
    (∀ inUse, Quicr.numbered.createDataContext inUse ≠ 0) ∧ FreshFib newSessions ∧
      ∃ r', fibCalls Quicr.numbered newSessions (subscribeOver 7) = some r' ∧ r'.FibMatches := by
  refine ⟨createDataContext_numbered, freshFib_newSessions, ?_⟩
  obtain ⟨r', hr', hfib, -⟩ := (fibMatches_iff_cleanCalls Quicr.numbered
    createDataContext_numbered newSessions freshFib_newSessions (subscribeOver 7)).mpr
      cleanCalls_subscribeOver _ (List.prefix_refl _)
  exact ⟨r', hr', hfib⟩

/-- The subscription comes over the other session: the entry stands under a session without nodes
for the track. -/
theorem not_fibMatches :
    ¬ ∀ (q : Quicr), (∀ inUse, q.createDataContext inUse ≠ 0) → ∀ r : Relay, FreshFib r →
      ∀ calls r', fibCalls q r calls = some r' → r'.FibMatches := by
  intro hall
  have hrun : ∃ r', fibCalls Quicr.numbered newSessions (subscribeOver 8) = some r' := by
    rw [← Option.isSome_iff_exists]
    decide +kernel
  obtain ⟨r', hr'⟩ := hrun
  have hfib := hall Quicr.numbered createDataContext_numbered newSessions freshFib_newSessions
    (subscribeOver 8) r' hr' (Quicr.numbered.trackHash ⟨[[1]], [2]⟩).trackFullnameHash 8
  have hwrong : (fibCalls Quicr.numbered newSessions (subscribeOver 8)).map (fun r =>
      (r.infoBase.clientFib[((Quicr.numbered.trackHash ⟨[[1]], [2]⟩).trackFullnameHash,
          (8 : PeerSessionId))]?.map egressOf,
        r.nodeSetAt 8 (Quicr.numbered.trackHash ⟨[[1]], [2]⟩).trackFullnameHash)) =
        some (some (some 7, 1), none) := by
    decide +kernel
  rw [hr', Option.map_some, Option.some.injEq, Prod.mk.injEq] at hwrong
  rw [hwrong.1, hwrong.2] at hfib
  cases hfib

end Laps.Relay
