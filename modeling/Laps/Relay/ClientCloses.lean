import Laps.Client.PeerData
import Laps.Relay.Clients

/-! The close of a stream of another relay, with the subgroups that the handlers of the clients end
on the way. -/

namespace Laps.Relay

open Std Client Delivery Peering

section Ends

variable {r : Relay}

theorem egressAt_endSubgroups (r : Relay) (ends : List PeerEnd) (track : UInt64)
    (egress : PeerSessionId) : (r.endSubgroups ends).1.egressAt track egress =
      r.egressAt track egress := by
  induction ends generalizing r with
  | nil => rfl
  | cons e ends ih =>
    show ((r.endSubgroup _ _ _).endSubgroups ends).1.egressAt track egress = _
    rw [ih, egressAt_endSubgroup]

theorem onlyClientFib_endSubgroups (r : Relay) (ends : List PeerEnd) :
    OnlyClientFib r (r.endSubgroups ends).1 := by
  induction ends generalizing r with
  | nil => exact .refl r
  | cons e ends ih => exact OnlyClientFib.trans ⟨_, rfl⟩ (ih _)

/-- A subgroup without streams to the sessions that are there. -/
theorem endSubgroup_eq_self {track groupId subgroupId : UInt64}
    (h : ∀ egress, ¬r.Live track egress (packed (groupId, subgroupId))) :
    r.endSubgroup track groupId subgroupId = r := by
  have hfib : (r.endSubgroup track groupId subgroupId).infoBase.clientFib =
      r.infoBase.clientFib := by
    refine ExtTreeMap.ext_getElem? fun key => ?_
    rw [getElem?_endSubgroup]
    cases hget : r.infoBase.clientFib[key]? with
    | none => rfl
    | some entry =>
      rw [Option.map_some]
      split
      · rename_i hlive
        obtain ⟨rfl, hlock⟩ := hlive
        have hnone : entry.streams[packed (groupId, subgroupId)]? = none := by
          by_contra hsome
          refine h key.2 ⟨?_, ?_⟩
          · rw [egressAt, hget, Option.bind_some, Option.isSome_map]
            exact hlock
          · rw [outStreamAt, hget, Option.bind_some]
            exact Option.isSome_iff_ne_none.mpr hsome
        have hsame : entry.streams.erase (inStreamId groupId subgroupId) = entry.streams := by
          refine ExtTreeMap.ext_getElem? fun k => ?_
          rw [ExtTreeMap.getElem?_erase_ite]
          split
          · rename_i hk
            subst hk
            exact hnone.symm
          · rfl
        rw [hsame]
      · rfl
  have hrelay : r.endSubgroup track groupId subgroupId = r.setInfoBase
      { r.infoBase with
        clientFib := (r.endSubgroup track groupId subgroupId).infoBase.clientFib } := rfl
  rw [hrelay, hfib]
  rfl

theorem endSubgroups_eq_self {ends : List PeerEnd}
    (h : ∀ e ∈ ends, ∀ egress,
      ¬r.Live e.trackFullNameHash egress (packed (e.groupId, e.subgroupId))) :
    r.endSubgroups ends = (r, []) := by
  induction ends with
  | nil => rfl
  | cons e ends ih =>
    have hfirst := h e List.mem_cons_self
    have hcloses : r.endSubgroupCloses e.trackFullNameHash e.groupId e.subgroupId e.reset = [] := by
      refine List.eq_nil_iff_forall_not_mem.mpr fun close hclose => ?_
      obtain ⟨egress, hlive⟩ := (exists_endSubgroupCloses r _ _ _ _).mp ⟨close, hclose⟩
      exact hfirst egress hlive
    rw [endSubgroups, endSubgroup_eq_self hfirst, ih fun e' he' => h e' (List.mem_cons_of_mem _ he'),
      hcloses]
    rfl

end Ends

/-- Some stream of the entry is the one to the session. -/
def sendsOn (r : Relay) (track : UInt64) (egress : PeerSessionId) (streamId : UInt64) : Bool :=
  r.infoBase.clientFib[(track, egress)]?.any fun entry =>
    entry.streams.anyEntry fun _ outStreamId => outStreamId = streamId

theorem sendsOn_iff {r : Relay} {track : UInt64} {egress : PeerSessionId} {streamId : UInt64} :
    r.sendsOn track egress streamId = true ↔
      ∃ key, r.outStreamAt track egress key = some streamId := by
  unfold sendsOn outStreamAt
  cases r.infoBase.clientFib[(track, egress)]? with
  | none => simp
  | some entry => simp [ExtTreeMap.anyEntry_iff]

/-- The stream is gone from the entries of the session, and all else is as it was. -/
def ClosesExactly (r : Relay) (ingress : PeerSessionId) (streamId : UInt64) (r' : Relay) : Prop :=
  ∀ track egress key, r'.outStreamAt track egress key =
    if egress = ingress ∧ r.outStreamAt track egress key = some streamId then none
    else r.outStreamAt track egress key

/-- The egress streams of a session are different. -/
def DistinctStreams (r : Relay) : Prop :=
  ∀ egress track key track' key' streamId, r.outStreamAt track egress key = some streamId →
    r.outStreamAt track' egress key' = some streamId → track = track' ∧ key = key'

/-- The clients are among those that the row is for. -/
def ForClients (r : Relay) (ingress : PeerSessionId) (snsId : SubscribeNodeSetId) : Prop :=
  (r.infoBase.peerFib.get₂? (ingress, snsId) 0).isSome = true

instance (r : Relay) (ingress : PeerSessionId) (snsId : SubscribeNodeSetId) :
    Decidable (r.ForClients ingress snsId) :=
  inferInstanceAs (Decidable (_ = _))

/-- Data for the session of the entry go out on the stream. -/
def StreamsTo (r : Relay) (track : UInt64) (egress : PeerSessionId) (streamId : UInt64) : Prop :=
  (r.egressAt track egress).isSome = true ∧ r.sendsOn track egress streamId = true

/-- Entries of the client table have lost streams, and nothing else has changed. -/
structure LosesStreams (r r' : Relay) : Prop where
  only : OnlyClientFib r r'
  egressAt : ∀ track egress, r'.egressAt track egress = r.egressAt track egress
  outStreamAt : ∀ track egress key outStreamId, r'.outStreamAt track egress key = some outStreamId →
    r.outStreamAt track egress key = some outStreamId

section LosesStreams

variable {r r' r'' : Relay} {track : UInt64} {egress : PeerSessionId}

theorem LosesStreams.refl (r : Relay) : LosesStreams r r :=
  ⟨.refl r, fun _ _ => rfl, fun _ _ _ _ h => h⟩

theorem LosesStreams.trans (h : LosesStreams r r') (h' : LosesStreams r' r'') : LosesStreams r r'' :=
  ⟨h.only.trans h'.only, fun t e => (h'.egressAt t e).trans (h.egressAt t e),
    fun t e k x hx => h.outStreamAt t e k x (h'.outStreamAt t e k x hx)⟩

theorem LosesStreams.live (h : LosesStreams r r') {key : UInt64} (hlive : r'.Live track egress key) :
    r.Live track egress key := by
  obtain ⟨hegress, hstream⟩ := hlive
  obtain ⟨outStreamId, hstream⟩ := Option.isSome_iff_exists.mp hstream
  refine ⟨by rwa [← h.egressAt], ?_⟩
  rw [h.outStreamAt track egress key outStreamId hstream]
  rfl

theorem LosesStreams.sends (h : LosesStreams r r') {streamId : UInt64}
    (hsends : StreamsTo r' track egress streamId) : StreamsTo r track egress streamId := by
  obtain ⟨hlive, hsends⟩ := hsends
  obtain ⟨key, hkey⟩ := sendsOn_iff.mp hsends
  exact ⟨by rwa [← h.egressAt], sendsOn_iff.mpr ⟨key, h.outStreamAt _ _ _ _ hkey⟩⟩

theorem LosesStreams.distinct (h : LosesStreams r r') (hdistinct : r.DistinctStreams) :
    r'.DistinctStreams := fun egress track key track' key' streamId hkey hkey' =>
  hdistinct egress track key track' key' streamId (h.outStreamAt _ _ _ _ hkey)
    (h.outStreamAt _ _ _ _ hkey')

end LosesStreams

namespace ClientRelay

/-- The handler of a track ends the subgroup under the key at the close of a stream. -/
def Ends (n : ClientRelay) (track streamId endTrack key : UInt64) : Prop :=
  ∃ e ∈ n.ends track streamId false, EndsKey endTrack key e

instance (n : ClientRelay) (track streamId endTrack key : UInt64) :
    Decidable (n.Ends track streamId endTrack key) :=
  inferInstanceAs (Decidable (∃ e ∈ _, _))

/-- What the handler of a track ends has no streams to the sessions that are there. -/
def Idle (n : ClientRelay) (track streamId : UInt64) : Prop :=
  ∀ endTrack egress key, n.Ends track streamId endTrack key → ¬n.relay.Live endTrack egress key

variable {n n' : ClientRelay} {track streamId : UInt64}

theorem ends_iff {endTrack key : UInt64} (reset : Bool) :
    (∃ e ∈ n.ends track streamId reset, EndsKey endTrack key e) ↔
      n.Ends track streamId endTrack key := by
  unfold Ends ends
  cases n.handlers[track]? with
  | none => rfl
  | some handler =>
    dsimp only
    cases handler.streams[streamId]? with
    | none => rfl
    | some stream =>
      dsimp only
      simp only [List.mem_map, exists_exists_and_eq_and]
      rfl

/-- What the handler of a track does to the client table at the close of a stream, and what it ends
afterwards: nothing more of that stream. -/
structure EndsStream (n : ClientRelay) (track streamId : UInt64) (n' : ClientRelay) : Prop where
  only : OnlyClientFib n.relay n'.relay
  egressAt : ∀ t egress, n'.relay.egressAt t egress = n.relay.egressAt t egress
  outStreamAt : ∀ t egress key, n'.relay.outStreamAt t egress key =
    if n.Ends track streamId t key ∧ (n.relay.egressAt t egress).isSome = true then none
    else n.relay.outStreamAt t egress key
  ends : ∀ t endTrack key, n'.Ends t streamId endTrack key ↔
    t ≠ track ∧ n.Ends t streamId endTrack key

theorem endsStream_peerStreamClosed (n : ClientRelay) (track streamId : UInt64) (reset : Bool) :
    EndsStream n track streamId (n.peerStreamClosed track streamId reset).1 := by
  unfold peerStreamClosed
  cases hget : n.handlers[track]? with
  | none =>
    have hends : ∀ endTrack key, ¬n.Ends track streamId endTrack key := by
      rintro endTrack key ⟨e, he, -⟩
      rw [ends, hget] at he
      cases he
    refine ⟨.refl _, fun _ _ => rfl, fun t egress key => ?_, fun t endTrack key => ?_⟩
    · rw [if_neg fun h => hends t key h.1]
    · exact ⟨fun h => ⟨by rintro rfl; exact hends _ _ h, h⟩, And.right⟩
  | some handler =>
    dsimp only
    refine ⟨onlyClientFib_endSubgroups .., fun _ _ => egressAt_endSubgroups ..,
      fun t egress key => ?_, fun t endTrack key => ?_⟩
    · simp only [outStreamAt_endSubgroups, ends_iff]
    · unfold Ends ends
      dsimp only
      rw [ExtTreeMap.getElem?_insert_ite]
      by_cases ht : t = track
      · subst ht
        rw [if_pos rfl]
        dsimp only
        rw [streams_streamClosed]
        simp
      · rw [if_neg ht]
        simp only [ht, ne_eq, not_false_eq_true, true_and]

theorem peerStreamClosed_of_idle (hidle : n.Idle track streamId) (reset : Bool) :
    (n.peerStreamClosed track streamId reset).1.relay = n.relay ∧
      (n.peerStreamClosed track streamId reset).2 = [] := by
  unfold peerStreamClosed
  cases hget : n.handlers[track]? with
  | none => exact ⟨rfl, rfl⟩
  | some handler =>
    have hnothing : n.relay.endSubgroups (n.ends track streamId reset) = (n.relay, []) :=
      endSubgroups_eq_self fun e he egress hlive =>
        hidle _ egress _ ((ends_iff reset).mp ⟨e, he, rfl, rfl⟩) hlive
    dsimp only
    rw [hnothing]
    exact ⟨rfl, rfl⟩

theorem EndsStream.losesStreams (h : EndsStream n track streamId n') :
    LosesStreams n.relay n'.relay := by
  refine ⟨h.only, h.egressAt, fun t egress key x hx => ?_⟩
  rw [h.outStreamAt] at hx
  split at hx
  · cases hx
  · exact hx

theorem EndsStream.idle (h : EndsStream n track streamId n') {t : UInt64}
    (hidle : n.Idle t streamId) : n'.Idle t streamId := fun endTrack egress key hends hlive =>
  hidle endTrack egress key ((h.ends t endTrack key).mp hends).2 (h.losesStreams.live hlive)

/-! ### The row of the other relays -/

theorem tell_sessions {closes : List StreamClose}
    (h : ∀ close ∈ closes, ∃ id snsId outStreamId reset,
      close = .session id snsId outStreamId reset) :
    n.tell closes = (n, closes) := by
  induction closes with
  | nil => rfl
  | cons close closes ih =>
    obtain ⟨id, snsId, outStreamId, reset, rfl⟩ := h close List.mem_cons_self
    rw [tell, ih fun c hc => h c (List.mem_cons_of_mem _ hc)]
    exact nofun

theorem closeEntry_sessions (r : Relay) {egress : PeerSessionId} (hzero : egress ≠ 0)
    (streamId trackFullNameHash : UInt64) (reset : Bool) (entry : FibEntry) :
    ∀ close ∈ (r.closeEntry streamId trackFullNameHash reset egress entry).2,
      ∃ id snsId outStreamId reset, close = .session id snsId outStreamId reset := by
  intro close hclose
  unfold closeEntry at hclose
  rw [if_neg hzero] at hclose
  split at hclose
  · obtain rfl := List.mem_singleton.mp hclose
    exact ⟨_, _, _, _, rfl⟩
  · cases hclose

/-- The entries of the sessions are closed one by one. -/
theorem closeLoop_sessions {trackFullNameHash : UInt64} {reset : Bool}
    {entries : List (PeerSessionId × FibEntry)} (hne : ∀ e ∈ entries, e.1 ≠ 0)
    (row : ExtTreeMap PeerSessionId FibEntry) :
    n.closeLoop streamId trackFullNameHash reset entries row =
      (n, entries.foldl (fun row e => row.insert e.1
          (n.relay.closeEntry streamId trackFullNameHash reset e.1 e.2).1) row,
        entries.flatMap fun e =>
          (n.relay.closeEntry streamId trackFullNameHash reset e.1 e.2).2) := by
  induction entries generalizing row with
  | nil => rfl
  | cons e entries ih =>
    have htell := tell_sessions (n := n) (closeEntry_sessions n.relay (hne e List.mem_cons_self)
      streamId trackFullNameHash reset e.2)
    rw [closeLoop]
    dsimp only
    rw [htell, ih fun e he => hne e (List.mem_cons_of_mem _ he)]
    rfl

/-- The handler of the track is told when the row is for the clients too. -/
def told (n : ClientRelay) (ingress : PeerSessionId) (snsId : SubscribeNodeSetId)
    (streamId trackFullNameHash : UInt64) (reset : Bool) : ClientRelay :=
  if n.relay.ForClients ingress snsId then
    (n.peerStreamClosed trackFullNameHash streamId reset).1
  else n

def closedRow (r : Relay) (streamId trackFullNameHash : UInt64) (reset : Bool)
    (row : ExtTreeMap PeerSessionId FibEntry) : ExtTreeMap PeerSessionId FibEntry :=
  row.map fun egress entry => (r.closeEntry streamId trackFullNameHash reset egress entry).1

/-- The entries of the row, that of this relay first. -/
theorem closeLoop_toList (n : ClientRelay) (streamId trackFullNameHash : UInt64) (reset : Bool)
    (row : ExtTreeMap PeerSessionId FibEntry) :
    ∃ out,
      n.closeLoop streamId trackFullNameHash reset row.toList row =
        (if row[(0 : PeerSessionId)]?.isSome = true
          then (n.peerStreamClosed trackFullNameHash streamId reset).1 else n,
          closedRow n.relay streamId trackFullNameHash reset row, out) ∧
      ((row[(0 : PeerSessionId)]?.isSome = true → n.Idle trackFullNameHash streamId) →
        out = row.toList.flatMap fun e =>
          (n.relay.closeEntry streamId trackFullNameHash reset e.1 e.2).2) := by
  have hfold := ExtTreeMap.foldl_insert_toList
    (fun egress entry => (n.relay.closeEntry streamId trackFullNameHash reset egress entry).1) row
  obtain ⟨rest, hlist, hne⟩ := ExtTreeMap.toList_eq_of_least row (k := (0 : PeerSessionId))
    fun k hlt => absurd (compare_eq_lt.mp hlt) (by simp)
  rw [closedRow, ← hfold, hlist]
  cases hzero : row[(0 : PeerSessionId)]? with
  | none =>
    rw [Option.toList_none, List.map_nil, List.nil_append, closeLoop_sessions hne]
    exact ⟨_, rfl, fun _ => rfl⟩
  | some entry =>
    set n' := (n.peerStreamClosed trackFullNameHash streamId reset).1 with hn'
    have hentry : ∀ egress e, n'.relay.closeEntry streamId trackFullNameHash reset egress e =
        n.relay.closeEntry streamId trackFullNameHash reset egress e := by
      obtain ⟨clientFib, hfib⟩ :=
        (endsStream_peerStreamClosed n trackFullNameHash streamId reset).only
      intro egress e
      rw [hn', hfib]
      rfl
    have hfirst : n.relay.closeEntry streamId trackFullNameHash reset 0 entry =
        (entry, [.clients trackFullNameHash streamId reset]) := if_pos rfl
    have htell : n.tell [.clients trackFullNameHash streamId reset] =
        (n', .clients trackFullNameHash streamId reset ::
          (n.peerStreamClosed trackFullNameHash streamId reset).2) := by
      simp only [tell, hn', List.append_nil]
    rw [Option.toList_some, List.map_singleton, List.singleton_append, closeLoop, hfirst]
    dsimp only
    rw [htell]
    dsimp only
    rw [closeLoop_sessions hne, List.foldl_cons, List.flatMap_cons, hfirst]
    simp only [hentry]
    refine ⟨_, rfl, fun hidle => ?_⟩
    rw [(peerStreamClosed_of_idle (hidle rfl) reset).2]

theorem setPeerFib_eq {f g : ExtTreeMap (PeerSessionId × SubscribeNodeSetId)
      (ExtTreeMap PeerSessionId FibEntry) → ExtTreeMap (PeerSessionId × SubscribeNodeSetId)
      (ExtTreeMap PeerSessionId FibEntry)}
    (h : f n.relay.infoBase.peerFib = g n.relay.infoBase.peerFib) :
    n.setPeerFib f = n.setPeerFib g := by
  unfold setPeerFib Relay.setPeerFib
  rw [h]

theorem onlyClientFib_told (n : ClientRelay) (ingress : PeerSessionId) (snsId : SubscribeNodeSetId)
    (streamId trackFullNameHash : UInt64) (reset : Bool) :
    OnlyClientFib n.relay (n.told ingress snsId streamId trackFullNameHash reset).relay := by
  unfold told
  split
  · exact (endsStream_peerStreamClosed ..).only
  · exact .refl _

/-- The row is closed, and the handler of the track is told when the row is for the clients too. -/
theorem closePeers_eq (n : ClientRelay) (ingress : PeerSessionId) (snsId : SubscribeNodeSetId)
    (streamId trackFullNameHash : UInt64) (reset : Bool) :
    ∃ out,
      n.closePeers ingress snsId streamId trackFullNameHash reset =
        ((n.told ingress snsId streamId trackFullNameHash reset).setPeerFib fun fib =>
          fib.modify (ingress, snsId) (closedRow n.relay streamId trackFullNameHash reset), out) ∧
      ((n.relay.ForClients ingress snsId → n.Idle trackFullNameHash streamId) →
        out = (n.relay.infoBase.peerFib[(ingress, snsId)]?.getD ∅).toList.flatMap fun e =>
          (n.relay.closeEntry streamId trackFullNameHash reset e.1 e.2).2) := by
  have hfib : (n.told ingress snsId streamId trackFullNameHash reset).relay.infoBase.peerFib =
      n.relay.infoBase.peerFib := by
    obtain ⟨clientFib, hclient⟩ :=
      onlyClientFib_told n ingress snsId streamId trackFullNameHash reset
    rw [hclient]
    rfl
  unfold closePeers
  cases hrow : n.relay.infoBase.peerFib[(ingress, snsId)]? with
  | none =>
    have hself : n.relay.infoBase.peerFib.get₂? (ingress, snsId) 0 = none := by
      rw [ExtTreeMap.get₂?, hrow]
      rfl
    have htold : n.told ingress snsId streamId trackFullNameHash reset = n := by
      refine if_neg fun hclients => ?_
      rw [ForClients, hself] at hclients
      cases hclients
    refine ⟨[], ?_, fun _ => rfl⟩
    rw [htold, setPeerFib, Relay.setPeerFib, ExtTreeMap.modify_of_none hrow]
    rfl
  | some row =>
    obtain ⟨out, hloop, hout⟩ := closeLoop_toList n streamId trackFullNameHash reset row
    have hself : n.relay.infoBase.peerFib.get₂? (ingress, snsId) 0 = row[(0 : PeerSessionId)]? := by
      rw [ExtTreeMap.get₂?, hrow]
      rfl
    rw [← hself] at hloop hout
    dsimp only
    rw [hloop]
    refine ⟨out, Prod.ext ?_ rfl, hout⟩
    refine (setPeerFib_eq (n := n.told ingress snsId streamId trackFullNameHash reset) ?_).symm
    rw [hfib, ExtTreeMap.insert_eq_modify hrow]

/-! ### The client table -/

/-- The entry of a key, without the stream that the close takes for the closed one, and who is
told. -/
def closeClientKey (n : ClientRelay) (ingress : PeerSessionId) (streamId : UInt64) (reset : Bool)
    (key : UInt64 × PeerSessionId) : ClientRelay × List StreamClose :=
  match n.relay.infoBase.clientFib[key]? with
  | none => (n, [])
  | some entry =>
    let (entry, closes) := n.relay.closeClientEntry ingress streamId reset key entry
    ({ n with
        relay := n.relay.setInfoBase
          { n.relay.infoBase with clientFib := n.relay.infoBase.clientFib.insert key entry } },
      closes)

theorem closeClientLoop_cons (ingress : PeerSessionId) (reset : Bool) (n : ClientRelay)
    (key : UInt64 × PeerSessionId) (keys : List (UInt64 × PeerSessionId)) :
    n.closeClientLoop ingress streamId reset (key :: keys) =
      let (n₁, closes) := n.closeClientKey ingress streamId reset key
      let (n₂, out) := n₁.tell closes
      let (n₃, rest) := n₂.closeClientLoop ingress streamId reset keys
      (n₃, out ++ rest) := by
  rw [closeClientLoop, closeClientKey]
  cases n.relay.infoBase.clientFib[key]? with
  | none => rfl
  | some entry => rfl

/-- An entry that has no stream to look for is left alone. -/
theorem closeClientKey_of_not_sends {ingress : PeerSessionId} {key : UInt64 × PeerSessionId}
    (h : key.2 = ingress → ¬StreamsTo n.relay key.1 ingress streamId) (reset : Bool) :
    n.closeClientKey ingress streamId reset key = (n, []) := by
  unfold closeClientKey
  cases hget : n.relay.infoBase.clientFib[key]? with
  | none => rfl
  | some entry =>
    have hclose : n.relay.closeClientEntry ingress streamId reset key entry = (entry, []) := by
      refine if_neg ?_
      rintro ⟨rfl, hlock, hany⟩
      refine h rfl ⟨?_, ?_⟩
      · rw [egressAt, hget, Option.bind_some, Option.isSome_map]
        exact hlock
      · rw [sendsOn, hget]
        exact hany
    dsimp only
    rw [hclose]
    dsimp only
    rw [ExtTreeMap.insert_eq_self_iff.mpr hget]
    rfl

/-- An entry that has the stream among those to its session loses the one that has the same id at the
publisher, and the handler of its track is told. -/
theorem closeClientKey_of_sends {track : UInt64} {ingress : PeerSessionId}
    (h : StreamsTo n.relay track ingress streamId) (reset : Bool) :
    ∃ r, OnlyClientFib n.relay r ∧
      n.closeClientKey ingress streamId reset (track, ingress) =
        ({ n with relay := r }, [.clients track streamId reset]) ∧
      (∀ t e, r.egressAt t e = n.relay.egressAt t e) ∧
      ∀ t e k, r.outStreamAt t e k =
        if t = track ∧ e = ingress ∧ k = streamId then none else n.relay.outStreamAt t e k := by
  obtain ⟨hlive, hsends⟩ := h
  unfold egressAt at hlive
  unfold sendsOn at hsends
  cases hget : n.relay.infoBase.clientFib[(track, ingress)]? with
  | none =>
    rw [hget] at hlive
    cases hlive
  | some entry =>
    rw [hget, Option.bind_some, Option.isSome_map] at hlive
    rw [hget, Option.any_some] at hsends
    have hclose : n.relay.closeClientEntry ingress streamId reset (track, ingress) entry =
        ({ entry with streams := entry.streams.erase streamId },
          [.clients track streamId reset]) := if_pos ⟨rfl, hlive, hsends⟩
    let erased : FibEntry := { entry with streams := entry.streams.erase streamId }
    refine ⟨n.relay.setInfoBase { n.relay.infoBase with
      clientFib := n.relay.infoBase.clientFib.insert (track, ingress) erased }, ⟨_, rfl⟩, ?_,
      fun t e => ?_, fun t e k => ?_⟩
    · rw [closeClientKey, hget]
      dsimp only
      rw [hclose]
    · unfold egressAt
      show (n.relay.infoBase.clientFib.insert (track, ingress) erased)[(t, e)]?.bind _ = _
      rw [ExtTreeMap.getElem?_insert_ite]
      split
      · rename_i hkey
        rw [hkey, hget]
        rfl
      · rfl
    · unfold outStreamAt
      show (n.relay.infoBase.clientFib.insert (track, ingress) erased)[(t, e)]?.bind _ = _
      rw [ExtTreeMap.getElem?_insert_ite]
      by_cases hkey : (t, e) = (track, ingress)
      · obtain ⟨rfl, rfl⟩ := Prod.mk.inj hkey
        rw [if_pos rfl, hget, Option.bind_some, Option.bind_some, ExtTreeMap.getElem?_erase_ite]
        simp
      · rw [if_neg hkey, if_neg fun h => hkey (Prod.ext h.1 h.2.1)]

theorem closeClientLoop_of_not_sends {ingress : PeerSessionId} {keys : List (UInt64 × PeerSessionId)}
    (h : ∀ key ∈ keys, key.2 = ingress → ¬StreamsTo n.relay key.1 ingress streamId) (reset : Bool) :
    n.closeClientLoop ingress streamId reset keys = (n, []) := by
  induction keys with
  | nil => rfl
  | cons key keys ih =>
    rw [closeClientLoop_cons, closeClientKey_of_not_sends (h key List.mem_cons_self)]
    dsimp only [tell]
    rw [ih fun key hkey => h key (List.mem_cons_of_mem _ hkey)]
    rfl

theorem closeClientLoop_append (ingress : PeerSessionId) (reset : Bool)
    (keys keys' : List (UInt64 × PeerSessionId)) :
    (n.closeClientLoop ingress streamId reset (keys ++ keys')).1 =
      ((n.closeClientLoop ingress streamId reset keys).1.closeClientLoop ingress streamId reset
        keys').1 := by
  induction keys generalizing n with
  | nil => rfl
  | cons key keys ih =>
    rw [List.cons_append, closeClientLoop_cons, closeClientLoop_cons]
    exact ih

/-- The streams of the client table after the loop, when one entry of the session has the stream. -/
theorem outStreamAt_closeClientLoop {ingress : PeerSessionId} (hdistinct : n.relay.DistinctStreams)
    {t : UInt64} (hstream : StreamsTo n.relay t ingress streamId) (reset : Bool) (track : UInt64)
    (egress : PeerSessionId) (key : UInt64) :
    (n.closeClientLoop ingress streamId reset
        n.relay.infoBase.clientFib.keys).1.relay.outStreamAt track egress key =
      if track = t ∧ egress = ingress ∧ key = streamId ∨
          n.Ends t streamId track key ∧ (n.relay.egressAt track egress).isSome = true then none
      else n.relay.outStreamAt track egress key := by
  have hone : ∀ {n' : ClientRelay}, LosesStreams n.relay n'.relay → ∀ t',
      StreamsTo n'.relay t' ingress streamId → t' = t := by
    intro n' hshrinks t' hstream'
    obtain ⟨k, hk⟩ := sendsOn_iff.mp hstream.2
    obtain ⟨k', hk'⟩ := sendsOn_iff.mp (hshrinks.sends hstream').2
    exact (hdistinct ingress t' k' t k streamId hk' hk).1
  have hmem : (t, ingress) ∈ n.relay.infoBase.clientFib.keys := by
    rw [ExtTreeMap.mem_keys, ExtTreeMap.mem_iff_isSome_getElem?]
    have hlive := hstream.1
    unfold egressAt at hlive
    cases hget : n.relay.infoBase.clientFib[(t, ingress)]? with
    | none =>
      rw [hget] at hlive
      cases hlive
    | some entry => rfl
  have hnodup : n.relay.infoBase.clientFib.keys.Nodup := ExtTreeMap.nodup_keys
  obtain ⟨before, after, hkeys⟩ := List.append_of_mem hmem
  rw [hkeys, List.nodup_append, List.nodup_cons] at hnodup
  obtain ⟨-, ⟨hafter, -⟩, hbefore⟩ := hnodup
  -- The entries before it and those after it do not have the stream.
  have hothers : ∀ {n' : ClientRelay}, LosesStreams n.relay n'.relay → ∀ keys,
      (t, ingress) ∉ keys → n'.closeClientLoop ingress streamId reset keys = (n', []) := by
    intro n' hshrinks keys hnot
    refine closeClientLoop_of_not_sends (fun k hk hegress hstream' => hnot ?_) reset
    have hkey : k = (t, ingress) := Prod.ext (hone hshrinks k.1 hstream') hegress
    rwa [← hkey]
  obtain ⟨r, honly, hkey, hegress, hstreams⟩ := closeClientKey_of_sends hstream reset
  set n₁ : ClientRelay := { n with relay := r }
  have hshrinks : LosesStreams n.relay n₁.relay := by
    refine ⟨honly, hegress, fun t e k x hx => ?_⟩
    rw [hstreams] at hx
    split at hx
    · cases hx
    · exact hx
  have hends : EndsStream n₁ t streamId (n₁.peerStreamClosed t streamId reset).1 :=
    endsStream_peerStreamClosed ..
  have hloop : (n.closeClientLoop ingress streamId reset n.relay.infoBase.clientFib.keys).1 =
      (n₁.peerStreamClosed t streamId reset).1 := by
    rw [hkeys, closeClientLoop_append, hothers (.refl _) before fun h =>
      hbefore _ h _ List.mem_cons_self rfl, closeClientLoop_cons, hkey]
    dsimp only [tell]
    rw [hothers (hshrinks.trans hends.losesStreams) after hafter]
  rw [hloop, hends.outStreamAt, hstreams, hegress]
  have hsame : n₁.Ends t streamId track key ↔ n.Ends t streamId track key := Iff.rfl
  simp only [hsame]
  by_cases hended : n.Ends t streamId track key ∧ (n.relay.egressAt track egress).isSome = true
  · rw [if_pos hended, if_pos (.inr hended)]
  · rw [if_neg hended]
    simp only [hended, or_false]


/-! ### The close of a stream -/

section Close

variable {ingress : PeerSessionId} {snsId : SubscribeNodeSetId} {trackFullNameHash : UInt64}
  {reset : Bool}

/-- What the handler of the track of the stream ends, when it is told. -/
structure Told (n : ClientRelay) (ingress : PeerSessionId) (snsId : SubscribeNodeSetId)
    (streamId trackFullNameHash : UInt64) (n₁ : ClientRelay) : Prop where
  losesStreams : LosesStreams n.relay n₁.relay
  outStreamAt : ∀ track egress key, n₁.relay.outStreamAt track egress key =
    if n.relay.ForClients ingress snsId ∧ n.Ends trackFullNameHash streamId track key ∧
      (n.relay.egressAt track egress).isSome = true then none
    else n.relay.outStreamAt track egress key
  ends : ∀ t track key, n₁.Ends t streamId track key ↔
    ¬(n.relay.ForClients ingress snsId ∧ t = trackFullNameHash) ∧ n.Ends t streamId track key

theorem told_spec (n : ClientRelay) (ingress : PeerSessionId) (snsId : SubscribeNodeSetId)
    (streamId trackFullNameHash : UInt64) (reset : Bool) :
    Told n ingress snsId streamId trackFullNameHash
      (n.told ingress snsId streamId trackFullNameHash reset) := by
  unfold told
  by_cases hself : n.relay.ForClients ingress snsId
  · have hends := endsStream_peerStreamClosed n trackFullNameHash streamId reset
    rw [if_pos hself]
    refine ⟨hends.losesStreams, fun t e k => ?_, fun t track key => ?_⟩
    · rw [hends.outStreamAt]
      simp only [hself, true_and]
    · rw [hends.ends]
      simp only [hself, true_and, ne_eq]
  · rw [if_neg hself]
    refine ⟨.refl _, fun t e k => ?_, fun t track key => ?_⟩
    · rw [if_neg fun h => hself h.1]
    · exact ⟨fun h => ⟨fun h' => hself h'.1, h⟩, And.right⟩

/-- The close of a stream: first the row, then the client table. -/
theorem closeStream_fst (n : ClientRelay) (ingress : PeerSessionId) (snsId : SubscribeNodeSetId)
    (streamId trackFullNameHash : UInt64) (reset : Bool) :
    (n.closeStream ingress snsId streamId trackFullNameHash reset).1 =
      let n₁ := (n.told ingress snsId streamId trackFullNameHash reset).setPeerFib fun fib =>
        fib.modify (ingress, snsId) (closedRow n.relay streamId trackFullNameHash reset)
      (n₁.closeClientLoop ingress streamId reset n₁.relay.infoBase.clientFib.keys).1 := by
  obtain ⟨out, hpeers, -⟩ := closePeers_eq n ingress snsId streamId trackFullNameHash reset
  unfold closeStream
  rw [hpeers]

/-- The streams of the client table after the close. -/
structure Closed (n₁ : ClientRelay) (ingress : PeerSessionId) (streamId : UInt64)
    (n' : ClientRelay) : Prop where
  nowhere : (∀ t, ¬StreamsTo n₁.relay t ingress streamId) →
    ∀ track egress key, n'.relay.outStreamAt track egress key =
      n₁.relay.outStreamAt track egress key
  somewhere : ∀ t, StreamsTo n₁.relay t ingress streamId →
    ∀ track egress key, n'.relay.outStreamAt track egress key =
      if track = t ∧ egress = ingress ∧ key = streamId ∨
          n₁.Ends t streamId track key ∧ (n₁.relay.egressAt track egress).isSome = true then none
      else n₁.relay.outStreamAt track egress key

theorem closed_spec (hdistinct : n.relay.DistinctStreams) (ingress : PeerSessionId)
    (snsId : SubscribeNodeSetId) (streamId trackFullNameHash : UInt64) (reset : Bool) :
    Closed (n.told ingress snsId streamId trackFullNameHash reset) ingress streamId
      (n.closeStream ingress snsId streamId trackFullNameHash reset).1 := by
  have htold := told_spec n ingress snsId streamId trackFullNameHash reset
  rw [closeStream_fst]
  refine ⟨fun hnone track egress key => ?_, fun t hstream track egress key => ?_⟩
  · dsimp only
    set n₁ := (n.told ingress snsId streamId trackFullNameHash reset).setPeerFib fun fib =>
      fib.modify (ingress, snsId) (closedRow n.relay streamId trackFullNameHash reset)
    have hloop : n₁.closeClientLoop ingress streamId reset n₁.relay.infoBase.clientFib.keys =
        (n₁, []) := closeClientLoop_of_not_sends (n := n₁) (fun k _ _ => hnone k.1) reset
    rw [hloop]
    rfl
  · exact outStreamAt_closeClientLoop (n := (n.told ingress snsId streamId trackFullNameHash
      reset).setPeerFib _) (htold.losesStreams.distinct hdistinct) hstream reset track egress key

/-! ### What the close of a stream to a client's data takes away -/

/-- Of what the handler of the track ends, only the closed stream is there. -/
def Spares (n : ClientRelay) (ingress : PeerSessionId) (track streamId : UInt64) : Prop :=
  ∀ endTrack egress key, n.Ends track streamId endTrack key → n.relay.Live endTrack egress key →
    egress = ingress ∧ n.relay.outStreamAt endTrack egress key = some streamId

/-- The handlers that are told end no other stream; and an entry of the session that has the closed
stream loses it, to the handler of the track of the close, because it stands under its own id, or to
the handler of its own track. -/
structure ClosesOwn (n : ClientRelay) (ingress : PeerSessionId) (snsId : SubscribeNodeSetId)
    (streamId trackFullNameHash : UInt64) : Prop where
  told : n.relay.ForClients ingress snsId → n.Spares ingress trackFullNameHash streamId
  own : ∀ track key, n.relay.outStreamAt track ingress key = some streamId →
    (n.relay.egressAt track ingress).isSome = true ∧
      (n.relay.ForClients ingress snsId ∧ n.Ends trackFullNameHash streamId track key ∨
        n.Spares ingress track streamId ∧
          (key = streamId ∨ n.Ends track streamId track key ∧
            n.relay.outStreamAt track ingress streamId = none))

section Exact

variable {n₁ : ClientRelay}

/-- Only sessions that are there lose streams. -/
theorem Closed.egressAt (hclosed : Closed n₁ ingress streamId n') {track key : UInt64}
    {egress : PeerSessionId} (hstays : n₁.relay.outStreamAt track egress key ≠ none)
    (hnone : n'.relay.outStreamAt track egress key = none) :
    (n₁.relay.egressAt track egress).isSome = true := by
  by_cases hsome : ∃ t, StreamsTo n₁.relay t ingress streamId
  · obtain ⟨t, ht⟩ := hsome
    rw [hclosed.somewhere t ht] at hnone
    split at hnone
    · rename_i hcond
      obtain ⟨rfl, rfl, -⟩ | ⟨-, hlive⟩ := hcond
      · exact ht.1
      · exact hlive
    · exact absurd hnone hstays
  · rw [hclosed.nowhere fun t ht => hsome ⟨t, ht⟩] at hnone
    exact absurd hnone hstays

/-- Exactly the closed stream goes: then the handlers have ended nothing else. -/
theorem ClosesOwn.of_closesExactly (hdistinct : n.relay.DistinctStreams)
    (htold : Told n ingress snsId streamId trackFullNameHash n₁)
    (hclosed : Closed n₁ ingress streamId n')
    (hexact : ClosesExactly n.relay ingress streamId n'.relay) :
    n.ClosesOwn ingress snsId streamId trackFullNameHash := by
  have hgone : ∀ t e k, n.relay.Live t e k → n'.relay.outStreamAt t e k = none →
      e = ingress ∧ n.relay.outStreamAt t e k = some streamId := by
    intro t e k hlive hnone
    by_contra hother
    rw [hexact, if_neg hother] at hnone
    rw [Live, hnone] at hlive
    exact absurd hlive.2 Bool.false_ne_true
  have hlost : ∀ t e k, n₁.relay.outStreamAt t e k = none → n'.relay.outStreamAt t e k = none := by
    intro t e k hnone
    by_cases hsome : ∃ t, StreamsTo n₁.relay t ingress streamId
    · obtain ⟨t₀, ht₀⟩ := hsome
      rw [hclosed.somewhere t₀ ht₀]
      split
      · rfl
      · exact hnone
    · rw [hclosed.nowhere fun t ht => hsome ⟨t, ht⟩]
      exact hnone
  have hspares : n.relay.ForClients ingress snsId →
      n.Spares ingress trackFullNameHash streamId := by
    intro hclients t e k hends hlive
    refine hgone t e k hlive (hlost t e k ?_)
    rw [htold.outStreamAt, if_pos ⟨hclients, hends, hlive.1⟩]
  refine ⟨hspares, fun track key hkey => ?_⟩
  have hnone := hexact track ingress key
  rw [if_pos ⟨rfl, hkey⟩] at hnone
  have hlive : (n.relay.egressAt track ingress).isSome = true := by
    by_contra hdead
    have hstays : n₁.relay.outStreamAt track ingress key = some streamId := by
      rw [htold.outStreamAt, if_neg fun h => hdead h.2.2]
      exact hkey
    have hlive := hclosed.egressAt (by rw [hstays]; simp) hnone
    rw [htold.losesStreams.egressAt] at hlive
    exact hdead hlive
  refine ⟨hlive, ?_⟩
  by_cases hfirst : n.relay.ForClients ingress snsId ∧ n.Ends trackFullNameHash streamId track key
  · exact .inl hfirst
  have hstays : n₁.relay.outStreamAt track ingress key = some streamId := by
    rw [htold.outStreamAt, if_neg fun h => hfirst ⟨h.1, h.2.1⟩]
    exact hkey
  have hstream : StreamsTo n₁.relay track ingress streamId :=
    ⟨by rw [htold.losesStreams.egressAt]; exact hlive, sendsOn_iff.mpr ⟨key, hstays⟩⟩
  have hafter := hclosed.somewhere track hstream
  simp only [htold.losesStreams.egressAt, htold.ends] at hafter
  refine .inr ⟨fun t e k hends hlive' => ?_, ?_⟩
  · by_cases hsame : n.relay.ForClients ingress snsId ∧ track = trackFullNameHash
    · obtain ⟨hclients, rfl⟩ := hsame
      exact hspares hclients t e k hends hlive'
    · refine hgone t e k hlive' ?_
      rw [hafter, if_pos (.inr ⟨⟨hsame, hends⟩, hlive'.1⟩)]
  · rw [hafter, hstays] at hnone
    split at hnone
    · rename_i hcond
      obtain ⟨-, -, rfl⟩ | ⟨⟨-, hends⟩, -⟩ := hcond
      · exact .inl rfl
      by_cases hown : key = streamId
      · exact .inl hown
      refine .inr ⟨hends, ?_⟩
      by_contra hsome
      have hlive' : n.relay.Live track ingress streamId :=
        ⟨hlive, Option.isSome_iff_ne_none.mpr hsome⟩
      have hdone : n'.relay.outStreamAt track ingress streamId = none := by
        rw [hafter, if_pos (.inl ⟨rfl, rfl, rfl⟩)]
      exact hown (hdistinct ingress track key track streamId streamId hkey
        (hgone _ _ _ hlive' hdone).2).2
    · cases hnone

/-- The handlers end nothing else: then exactly the closed stream goes. -/
theorem ClosesOwn.closesExactly (hdistinct : n.relay.DistinctStreams)
    (htold : Told n ingress snsId streamId trackFullNameHash n₁)
    (hclosed : Closed n₁ ingress streamId n')
    (hown : n.ClosesOwn ingress snsId streamId trackFullNameHash) :
    ClosesExactly n.relay ingress streamId n'.relay := by
  -- What the handler of the track of the close has ended is the closed stream.
  have hended : ∀ t e k, n.relay.outStreamAt t e k ≠ none → n.relay.ForClients ingress snsId →
      n.Ends trackFullNameHash streamId t k → (n.relay.egressAt t e).isSome = true →
      e = ingress ∧ n.relay.outStreamAt t e k = some streamId := fun t e k hsome hclients hends hlive =>
    hown.told hclients t e k hends ⟨hlive, Option.isSome_iff_ne_none.mpr hsome⟩
  by_cases hsome : ∃ t k, n.relay.outStreamAt t ingress k = some streamId ∧
    ¬(n.relay.ForClients ingress snsId ∧ n.Ends trackFullNameHash streamId t k)
  · obtain ⟨t₀, k₀, hkey, hfirst⟩ := hsome
    have honly : ∀ {t k}, n.relay.outStreamAt t ingress k = some streamId → t = t₀ ∧ k = k₀ :=
      fun h => hdistinct ingress _ _ _ _ streamId h hkey
    obtain ⟨hlive, hcase⟩ := hown.own t₀ k₀ hkey
    obtain ⟨hspares, hcase⟩ := hcase.resolve_left hfirst
    have hsame : ∀ t e k, n₁.relay.outStreamAt t e k = n.relay.outStreamAt t e k := by
      intro t e k
      rw [htold.outStreamAt]
      split
      · rename_i hcond
        by_contra hstream
        obtain ⟨rfl, hstream⟩ := hended t e k (Ne.symm hstream) hcond.1 hcond.2.1 hcond.2.2
        obtain ⟨rfl, rfl⟩ := honly hstream
        exact hfirst ⟨hcond.1, hcond.2.1⟩
      · rfl
    have hstream : StreamsTo n₁.relay t₀ ingress streamId :=
      ⟨by rw [htold.losesStreams.egressAt]; exact hlive,
        sendsOn_iff.mpr ⟨k₀, (hsame ..).trans hkey⟩⟩
    intro t e k
    rw [hclosed.somewhere t₀ hstream, hsame]
    simp only [htold.losesStreams.egressAt, htold.ends]
    by_cases hgone : e = ingress ∧ n.relay.outStreamAt t e k = some streamId
    · rw [if_pos hgone]
      obtain ⟨rfl, hgone⟩ := hgone
      obtain ⟨rfl, rfl⟩ := honly hgone
      refine if_pos ?_
      obtain rfl | ⟨hends, -⟩ := hcase
      · exact .inl ⟨rfl, rfl, rfl⟩
      · refine .inr ⟨⟨?_, hends⟩, hlive⟩
        rintro ⟨hclients, rfl⟩
        exact hfirst ⟨hclients, hends⟩
    · rw [if_neg hgone]
      split
      · rename_i hcond
        by_contra hstays
        obtain ⟨rfl, rfl, rfl⟩ | ⟨⟨-, hends⟩, hlive'⟩ := hcond
        · obtain rfl | ⟨-, hnone⟩ := hcase
          · exact hgone ⟨rfl, hkey⟩
          · exact hstays hnone.symm
        · exact hgone (hspares t e k hends
            ⟨hlive', Option.isSome_iff_ne_none.mpr (Ne.symm hstays)⟩)
      · rfl
  · -- The handler of the track of the close has ended the closed stream already, if there is one.
    have htaken : ∀ t k, n.relay.outStreamAt t ingress k = some streamId →
        n.relay.ForClients ingress snsId ∧ n.Ends trackFullNameHash streamId t k ∧
          (n.relay.egressAt t ingress).isSome = true := by
      intro t k hkey
      by_contra hnot
      exact hsome ⟨t, k, hkey, fun h => hnot ⟨h.1, h.2, (hown.own t k hkey).1⟩⟩
    have hnone : ∀ t, ¬StreamsTo n₁.relay t ingress streamId := by
      intro t hstream
      obtain ⟨k, hk⟩ := sendsOn_iff.mp hstream.2
      have hold := htold.losesStreams.outStreamAt _ _ _ _ hk
      rw [htold.outStreamAt, if_pos (htaken t k hold)] at hk
      cases hk
    intro t e k
    rw [hclosed.nowhere hnone, htold.outStreamAt]
    by_cases hgone : e = ingress ∧ n.relay.outStreamAt t e k = some streamId
    · rw [if_pos hgone]
      obtain ⟨rfl, hgone⟩ := hgone
      exact if_pos (htaken t k hgone)
    · rw [if_neg hgone]
      split
      · rename_i hcond
        by_contra hstays
        exact hgone (hended t e k (Ne.symm hstays) hcond.1 hcond.2.1 hcond.2.2)
      · rfl

end Exact

end Close

/-- A close takes exactly the stream away when no handler that is told ends another one, and the
stream stands under its own id at the publisher or is ended by a handler. -/
theorem closesExactly_iff (n : ClientRelay) (hdistinct : n.relay.DistinctStreams)
    (ingress : PeerSessionId) (snsId : SubscribeNodeSetId) (streamId trackFullNameHash : UInt64)
    (reset : Bool) :
    ClosesExactly n.relay ingress streamId
        (n.closeStream ingress snsId streamId trackFullNameHash reset).1.relay ↔
      n.ClosesOwn ingress snsId streamId trackFullNameHash := by
  have htold := told_spec n ingress snsId streamId trackFullNameHash reset
  have hclosed := closed_spec hdistinct ingress snsId streamId trackFullNameHash reset
  exact ⟨ClosesOwn.of_closesExactly hdistinct htold hclosed,
    ClosesOwn.closesExactly hdistinct htold hclosed⟩

/-! ### Closes that end nothing -/

section Nothing

variable {ingress : PeerSessionId} {snsId : SubscribeNodeSetId} {trackFullNameHash : UInt64}

theorem relay_told_of_idle
    (h : n.relay.ForClients ingress snsId → n.Idle trackFullNameHash streamId) (reset : Bool) :
    (n.told ingress snsId streamId trackFullNameHash reset).relay = n.relay := by
  unfold told
  split
  · rename_i hclients
    exact (peerStreamClosed_of_idle (h hclients) reset).1
  · rfl

/-- No stream of the client table is taken for the closed one: then the row is all that is
closed. -/
theorem closeStream_of_free
    (hrow : n.relay.ForClients ingress snsId → n.Idle trackFullNameHash streamId)
    (hfree : ∀ track, n.relay.sendsOn track ingress streamId = false) (reset : Bool) :
    (n.closeStream ingress snsId streamId trackFullNameHash reset).1.relay =
        (n.relay.closeStream ingress snsId streamId trackFullNameHash reset).1 ∧
      (n.closeStream ingress snsId streamId trackFullNameHash reset).2 =
        (n.relay.closeStream ingress snsId streamId trackFullNameHash reset).2 := by
  obtain ⟨out, hpeers, hout⟩ := closePeers_eq n ingress snsId streamId trackFullNameHash reset
  rw [hout hrow] at hpeers
  have hrelay := relay_told_of_idle hrow reset
  set n₁ := (n.told ingress snsId streamId trackFullNameHash reset).setPeerFib fun fib =>
    fib.modify (ingress, snsId) (closedRow n.relay streamId trackFullNameHash reset) with hn₁
  have hfib : n₁.relay = n.relay.setPeerFib fun fib =>
      fib.modify (ingress, snsId) (closedRow n.relay streamId trackFullNameHash reset) := by
    rw [hn₁, ← hrelay]
    rfl
  have hloop : n₁.closeClientLoop ingress streamId reset n₁.relay.infoBase.clientFib.keys =
      (n₁, []) := by
    refine closeClientLoop_of_not_sends (fun key _ _ hstream => ?_) reset
    rw [hfib] at hstream
    have hnot : n.relay.sendsOn key.1 ingress streamId = true := hstream.2
    rw [hfree] at hnot
    cases hnot
  -- Nor does the source's loop change an entry.
  have hentry : ∀ key entry, n.relay.infoBase.clientFib[key]? = some entry →
      n.relay.closeClientEntry ingress streamId reset key entry = (entry, []) := by
    rintro ⟨track, egress⟩ entry hget
    refine if_neg ?_
    rintro ⟨rfl, -, hany⟩
    have hnot := hfree track
    rw [sendsOn, hget, Option.any_some, hany] at hnot
    cases hnot
  have hmap : n.relay.infoBase.clientFib.map
      (fun key entry => (n.relay.closeClientEntry ingress streamId reset key entry).1) =
        n.relay.infoBase.clientFib := by
    refine ExtTreeMap.ext_getElem? fun key => ?_
    rw [ExtTreeMap.getElem?_map]
    cases hget : n.relay.infoBase.clientFib[key]? with
    | none => rfl
    | some entry => rw [Option.map_some, hentry key entry hget]
  have hnone : n.relay.infoBase.clientFib.toList.flatMap
      (fun e => (n.relay.closeClientEntry ingress streamId reset e.1 e.2).2) = [] := by
    refine List.flatMap_eq_nil_iff.mpr fun e he => ?_
    rw [hentry e.1 e.2 (ExtTreeMap.mem_toList_iff_getElem?_eq_some.mp he)]
  unfold closeStream Relay.closeStream
  rw [hpeers]
  dsimp only
  rw [hloop, hmap, hnone, List.append_nil]
  exact ⟨hfib, rfl⟩

end Nothing

end ClientRelay

/-- The first data of group 1 have made stream 7. -/
def groupOne : Relay :=
  (oneEgress.clientDataRecv (fun _ _ => 7) (startOf (1, 0))).1

theorem outStreamAt_groupOne {track key x : UInt64} {egress : PeerSessionId}
    (h : groupOne.outStreamAt track egress key = some x) :
    track = 9 ∧ egress = 5 ∧ key = packed (1, 0) := by
  rw [groupOne, outStreamAt_clientDataRecv] at h
  split at h
  · rename_i hcond
    refine ⟨hcond.1.symm, ?_, hcond.2.2⟩
    by_contra hegress
    obtain ⟨rfl, -⟩ := hcond
    rw [outStreamAt_oneEgress, Option.none_or, newStream, egressAt, oneEgress] at h
    dsimp only [startOf] at h
    rw [ExtTreeMap.getElem?_insert_ite, if_neg fun heq => hegress (congrArg Prod.snd heq)] at h
    simp at h
  · rw [outStreamAt_oneEgress] at h
    cases h

theorem distinctStreams_groupOne : groupOne.DistinctStreams := by
  intro egress track key track' key' streamId hkey hkey'
  obtain ⟨rfl, rfl, rfl⟩ := outStreamAt_groupOne hkey
  obtain ⟨rfl, -, rfl⟩ := outStreamAt_groupOne hkey'
  exact ⟨rfl, rfl⟩

/-- The handler of track 9 has a stream 7 too, of the same subgroup, and the peer manager among its
subscribers. -/
def endingOne : ClientRelay where
  relay := groupOne
  handlers := (∅ : ExtTreeMap UInt64 StreamHandler).insert 9
    { trackAlias := some 9, subscribers := {0}
      streams := (∅ : ExtTreeMap UInt64 StreamContext).insert 7 { currentGroupId := 1 } }

theorem closesExactly_endingOne :
    ClosesExactly groupOne 5 7 (endingOne.closeStream 5 2 7 9 false).1.relay := by
  refine (ClientRelay.closesExactly_iff endingOne distinctStreams_groupOne 5 2 7 9 false).mpr
    ⟨fun hclients => absurd hclients (by decide +kernel), fun track key hkey => ?_⟩
  obtain ⟨rfl, -, rfl⟩ := outStreamAt_groupOne hkey
  refine ⟨by decide +kernel, .inr ⟨fun t e k _ hlive => ?_, .inr (by decide +kernel)⟩⟩
  obtain ⟨x, hx⟩ := Option.isSome_iff_exists.mp hlive.2
  obtain ⟨rfl, rfl, rfl⟩ := outStreamAt_groupOne hx
  exact ⟨rfl, hkey⟩

theorem not_closesExactly : ¬ ∀ n : ClientRelay, n.relay.DistinctStreams →
    ∀ ingress snsId streamId trackFullNameHash reset, ClosesExactly n.relay ingress streamId
      (n.closeStream ingress snsId streamId trackFullNameHash reset).1.relay := by
  intro hall
  have hgone := hall { relay := groupOne } distinctStreams_groupOne 5 2 7 9 false 9 5 (packed (1, 0))
  revert hgone
  decide +kernel

end Laps.Relay
