import Laps.Lib.Runs
import Laps.Relay.Data

/-! The streams of this relay's publishers to the other relays.  An entry of the client table finds
the stream of a subgroup under a key of 64 bits that the group and the subgroup are packed into. -/

namespace Laps.Relay

open Std Peering

/-- A group and a subgroup of it. -/
abbrev Subgroup := UInt64 × UInt64

/-- The two are packed into one key. -/
def SameKey (p p' : Subgroup) : Prop :=
  p.1.toNat % 2 ^ 48 = p'.1.toNat % 2 ^ 48 ∧ p.2.toNat % 2 ^ 16 = p'.2.toNat % 2 ^ 16

instance (p p' : Subgroup) : Decidable (SameKey p p') := inferInstanceAs (Decidable (_ ∧ _))

def packed (p : Subgroup) : UInt64 := inStreamId p.1 p.2

theorem toNat_packed (p : Subgroup) :
    (packed p).toNat = p.1.toNat % 2 ^ 48 * 2 ^ 16 + p.2.toNat % 2 ^ 16 := by
  have hlow : p.2.toUInt16.toUInt64.toNat = p.2.toNat % 2 ^ 16 := rfl
  have hhigh : (p.1 <<< 16).toNat = p.1.toNat % 2 ^ 48 * 2 ^ 16 := by
    rw [UInt64.toNat_shiftLeft, Nat.shiftLeft_eq]
    show p.1.toNat * 2 ^ 16 % (2 ^ 48 * 2 ^ 16) = _
    exact Nat.mul_mod_mul_right _ _ _
  have hor := Nat.shiftLeft_add_eq_or_of_lt (Nat.mod_lt p.2.toNat (by omega : 0 < 2 ^ 16))
    (p.1.toNat % 2 ^ 48)
  rw [packed, inStreamId, UInt64.toNat_or, hlow, hhigh, ← Nat.shiftLeft_eq, ← hor]

/-- The key keeps the low bits of both. -/
theorem packed_eq_iff (p p' : Subgroup) : packed p = packed p' ↔ SameKey p p' := by
  have hp := Nat.mod_lt p.2.toNat (by omega : 0 < 2 ^ 16)
  have hp' := Nat.mod_lt p'.2.toNat (by omega : 0 < 2 ^ 16)
  rw [← UInt64.toNat_inj, toNat_packed, toNat_packed, SameKey]
  constructor
  · intro h
    omega
  · rintro ⟨hgroup, hsubgroup⟩
    rw [hgroup, hsubgroup]

/-! ### Calls of a track -/

/-- The closes that `EndSubgroup` sends for one entry. -/
def endSubgroupEntry (r : Relay) (groupId subgroupId : UInt64) (reset : Bool)
    (entry : FibEntry) : List StreamClose :=
  match r.lockSession entry.peerSession, entry.streams[inStreamId groupId subgroupId]? with
  | some (id, _), some streamId => [.session id entry.outSnsId streamId reset]
  | _, _ => []

/-- The closes that `EndSubgroup` sends. -/
def endSubgroupCloses (r : Relay) (trackFullNameHash groupId subgroupId : UInt64) (reset : Bool) :
    List StreamClose :=
  (r.infoBase.clientFib.withFst trackFullNameHash).flatMap fun e =>
    r.endSubgroupEntry groupId subgroupId reset e.2

inductive SubgroupCall where
  | clientDataRecv (createStream : CreateStream) (chunk : Chunk)
  | endSubgroup (trackFullNameHash groupId subgroupId : UInt64) (reset : Bool)

/-- The session and the node set on it that the data of the track go to. -/
def egressAt (r : Relay) (track : UInt64) (egress : PeerSessionId) :
    Option (PeerSessionId × SubscribeNodeSetId) :=
  r.infoBase.clientFib[(track, egress)]?.bind fun entry =>
    (r.lockSession entry.peerSession).map fun locked => (locked.1, entry.outSnsId)

/-- The stream that the entry has under the key. -/
def outStreamAt (r : Relay) (track : UInt64) (egress : PeerSessionId) (key : UInt64) :
    Option UInt64 :=
  r.infoBase.clientFib[(track, egress)]?.bind fun entry => entry.streams[key]?

/-- The stream that the session makes. -/
def newStream (r : Relay) (createStream : CreateStream) (track : UInt64) (egress : PeerSessionId) :
    Option UInt64 :=
  (r.egressAt track egress).map fun e => createStream e.1 e.2

/-- The streams of the open subgroups at the sessions of a track. -/
abbrev Opened := PeerSessionId → Subgroup → Option UInt64

/-- A subgroup that is not open gets a stream of its own at each session when its data start one,
and loses it when it ends. -/
def Opened.call (r : Relay) (track : UInt64) (opened : Opened) : SubgroupCall → Opened
  | .clientDataRecv createStream chunk, egress, p =>
    if chunk.trackFullNameHash = track ∧ chunk.type = .newStream ∧
        p = (chunk.groupId, chunk.subgroupId) then
      (opened egress p).or (r.newStream createStream track egress)
    else opened egress p
  | .endSubgroup trackFullNameHash groupId subgroupId _, egress, p =>
    if trackFullNameHash = track ∧ p = (groupId, subgroupId) then none else opened egress p

theorem Opened.call_clientDataRecv (r : Relay) (track : UInt64) (opened : Opened)
    (createStream : CreateStream) (chunk : Chunk) (egress : PeerSessionId) (p : Subgroup) :
    opened.call r track (.clientDataRecv createStream chunk) egress p =
      if chunk.trackFullNameHash = track ∧ chunk.type = .newStream ∧
          p = (chunk.groupId, chunk.subgroupId) then
        (opened egress p).or (r.newStream createStream track egress)
      else opened egress p := rfl

theorem Opened.call_endSubgroup (r : Relay) (track : UInt64) (opened : Opened)
    (trackFullNameHash groupId subgroupId : UInt64) (reset : Bool) (egress : PeerSessionId)
    (p : Subgroup) :
    opened.call r track (.endSubgroup trackFullNameHash groupId subgroupId reset) egress p =
      if trackFullNameHash = track ∧ p = (groupId, subgroupId) then none else opened egress p := rfl

/-- The relay in a run, and the streams that the subgroups of the track should have. -/
structure OpenStreams where
  relay : Relay
  opened : Opened := fun _ _ => none

def OpenStreams.call (track : UInt64) (s : OpenStreams) (call : SubgroupCall) :
    Option OpenStreams :=
  some
    { relay := match call with
        | .clientDataRecv createStream chunk => (s.relay.clientDataRecv createStream chunk).1
        | .endSubgroup trackFullNameHash groupId subgroupId _ =>
          s.relay.endSubgroup trackFullNameHash groupId subgroupId
      opened := s.opened.call s.relay track call }

/-! ### What the calls do to the streams -/

section Effects

variable {r : Relay} {createStream : CreateStream} {chunk : Chunk}

/-- The entry after the loop has come to it. -/
def entryAfter (r : Relay) (createStream : CreateStream) (chunk : Chunk) (entry : FibEntry) :
    FibEntry :=
  match r.clientDataEntry createStream chunk entry with
  | none => entry
  | some (entry, _) => entry

/-- Only data that start a stream, at a session that is there, make one. -/
theorem entryAfter_eq (entry : FibEntry) : r.entryAfter createStream chunk entry =
    match r.lockSession entry.peerSession with
    | none => entry
    | some (id, _) =>
      if chunk.type = .newStream ∧ entry.streams[chunk.inStreamId]? = none then
        { entry with
          streams := entry.streams.insert chunk.inStreamId (createStream id entry.outSnsId) }
      else entry := by
  unfold entryAfter clientDataEntry
  cases hlock : r.lockSession entry.peerSession with
  | none => rfl
  | some locked =>
    cases hstream : entry.streams[chunk.inStreamId]? with
    | some streamId =>
      by_cases hreliable : chunk.useReliable = true
      · simp [hreliable]
      · simp [hreliable]
    | none =>
      by_cases hnew : chunk.type = .newStream
      · simp [Chunk.useReliable, hnew]
      · by_cases hreliable : chunk.useReliable = true
        · simp [hreliable, hnew]
        · simp [hreliable, hnew]

theorem entryAfter_spec (entry : FibEntry) (key : UInt64) :
    (r.entryAfter createStream chunk entry).peerSession = entry.peerSession ∧
    (r.entryAfter createStream chunk entry).outSnsId = entry.outSnsId ∧
    (r.entryAfter createStream chunk entry).streams[key]? =
      if chunk.type = .newStream ∧ key = chunk.inStreamId then
        entry.streams[key]?.or
          ((r.lockSession entry.peerSession).map fun e => createStream e.1 entry.outSnsId)
      else entry.streams[key]? := by
  rw [entryAfter_eq]
  cases hlock : r.lockSession entry.peerSession with
  | none => simp
  | some locked =>
    dsimp only [Option.map_some]
    by_cases hmake : chunk.type = .newStream ∧ entry.streams[chunk.inStreamId]? = none
    · rw [if_pos hmake]
      refine ⟨rfl, rfl, ?_⟩
      rw [ExtTreeMap.getElem?_insert_ite]
      by_cases hkey : key = chunk.inStreamId
      · rw [if_pos hkey, if_pos ⟨hmake.1, hkey⟩, hkey, hmake.2]
        rfl
      · rw [if_neg hkey, if_neg fun h => hkey h.2]
    · rw [if_neg hmake]
      refine ⟨rfl, rfl, ?_⟩
      split
      · rename_i hkey
        obtain ⟨streamId, hstream⟩ := Option.ne_none_iff_exists'.mp fun h => hmake ⟨hkey.1, h⟩
        rw [hkey.2, hstream]
        rfl
      · rfl

/-- An entry without the stream that the data continue ends the loop, and none has changed. -/
theorem entryAfter_of_none {entry : FibEntry}
    (h : r.clientDataEntry createStream chunk entry = none) (entry' : FibEntry) :
    r.entryAfter createStream chunk entry' = entry' := by
  have hnew : chunk.type ≠ .newStream := by
    intro hnew
    unfold clientDataEntry at h
    cases hlock : r.lockSession entry.peerSession with
    | none =>
      rw [hlock] at h
      cases h
    | some locked =>
      rw [hlock] at h
      cases hstream : entry.streams[chunk.inStreamId]? with
      | none => simp [hstream, hnew, Chunk.useReliable] at h
      | some streamId => simp [hstream, hnew, Chunk.useReliable] at h
  rw [entryAfter_eq]
  cases r.lockSession entry'.peerSession with
  | none => rfl
  | some locked => exact if_neg fun hmake => hnew hmake.1

variable (r createStream chunk) in
theorem clientDataLoop_entries (entries : List ((UInt64 × PeerSessionId) × FibEntry))
    (fib : ExtTreeMap (UInt64 × PeerSessionId) FibEntry compare)
    (hkeys : entries.Pairwise fun e e' => e.1 ≠ e'.1)
    (hentries : ∀ e ∈ entries, fib[e.1]? = some e.2) :
    (∀ e ∈ entries, (r.clientDataLoop createStream chunk entries fib).1[e.1]? =
      some (r.entryAfter createStream chunk e.2)) ∧
    ∀ key : UInt64 × PeerSessionId, (∀ e ∈ entries, e.1 ≠ key) →
      (r.clientDataLoop createStream chunk entries fib).1[key]? = fib[key]? := by
  induction entries generalizing fib with
  | nil => exact ⟨fun e he => by simp at he, fun _ _ => rfl⟩
  | cons e entries ih =>
    obtain ⟨key, entry⟩ := e
    obtain ⟨hne, hkeys⟩ := List.pairwise_cons.mp hkeys
    rw [clientDataLoop]
    cases hentry : r.clientDataEntry createStream chunk entry with
    | none =>
      refine ⟨fun e he => ?_, fun _ _ => rfl⟩
      rw [entryAfter_of_none hentry]
      exact hentries e he
    | some result =>
      obtain ⟨entry', sent⟩ := result
      have hafter : r.entryAfter createStream chunk entry = entry' := by
        rw [entryAfter, hentry]
      obtain ⟨hmem, hothers⟩ := ih (fib.insert key entry') hkeys fun e he => by
        rw [ExtTreeMap.getElem?_insert_ite, if_neg fun heq => hne e he heq.symm]
        exact hentries e (List.mem_cons_of_mem _ he)
      dsimp only
      refine ⟨fun e he => ?_, fun key' hkey' => ?_⟩
      · rcases List.mem_cons.mp he with rfl | he
        · rw [hothers key fun e he heq => hne e he heq.symm, ExtTreeMap.getElem?_insert_self,
            hafter]
        · exact hmem e he
      · rw [hothers key' fun e he => hkey' e (List.mem_cons_of_mem _ he),
          ExtTreeMap.getElem?_insert_ite, if_neg fun heq => hkey' _ List.mem_cons_self heq.symm]

theorem getElem?_clientDataRecv (r : Relay) (createStream : CreateStream) (chunk : Chunk)
    (key : UInt64 × PeerSessionId) :
    (r.clientDataRecv createStream chunk).1.infoBase.clientFib[key]? =
      r.infoBase.clientFib[key]?.map fun entry =>
        if key.1 = chunk.trackFullNameHash then r.entryAfter createStream chunk entry
        else entry := by
  have hkeys : (r.infoBase.clientFib.withFst chunk.trackFullNameHash).Pairwise
      fun e e' => e.1 ≠ e'.1 :=
    ExtTreeMap.pairwise_withFst_ne.imp fun hne heq => hne (by rw [heq])
  obtain ⟨hmem, hothers⟩ := clientDataLoop_entries r createStream chunk _ r.infoBase.clientFib hkeys
    fun e he => (ExtTreeMap.mem_withFst.mp he).1
  show (r.clientDataLoop createStream chunk _ _).1[key]? = _
  cases hget : r.infoBase.clientFib[key]? with
  | none =>
    rw [hothers key, hget]
    · rfl
    · rintro e he rfl
      rw [(ExtTreeMap.mem_withFst.mp he).1] at hget
      cases hget
  | some entry =>
    rw [Option.map_some]
    split
    · rename_i htrack
      exact hmem (key, entry) (ExtTreeMap.mem_withFst.mpr ⟨hget, htrack⟩)
    · rename_i htrack
      rw [hothers key, hget]
      rintro e he rfl
      exact htrack (ExtTreeMap.mem_withFst.mp he).2

theorem egressAt_clientDataRecv (track : UInt64) (egress : PeerSessionId) :
    (r.clientDataRecv createStream chunk).1.egressAt track egress = r.egressAt track egress := by
  unfold egressAt
  rw [getElem?_clientDataRecv]
  cases r.infoBase.clientFib[(track, egress)]? with
  | none => rfl
  | some entry =>
    rw [Option.map_some, Option.bind_some, Option.bind_some]
    split
    · rw [(entryAfter_spec entry 0).1, (entryAfter_spec entry 0).2.1]
      rfl
    · rfl

theorem outStreamAt_clientDataRecv (track : UInt64) (egress : PeerSessionId) (key : UInt64) :
    (r.clientDataRecv createStream chunk).1.outStreamAt track egress key =
      if chunk.trackFullNameHash = track ∧ chunk.type = .newStream ∧ key = chunk.inStreamId then
        (r.outStreamAt track egress key).or (r.newStream createStream track egress)
      else r.outStreamAt track egress key := by
  unfold outStreamAt newStream egressAt
  rw [getElem?_clientDataRecv]
  cases r.infoBase.clientFib[(track, egress)]? with
  | none => simp
  | some entry =>
    rw [Option.map_some, Option.bind_some, Option.bind_some, Option.bind_some]
    by_cases htrack : track = chunk.trackFullNameHash
    · rw [if_pos htrack, (entryAfter_spec entry key).2.2, Option.map_map]
      simp only [htrack, true_and]
      rfl
    · rw [if_neg htrack, if_neg fun h => htrack h.1.symm]

theorem getElem?_endSubgroup (r : Relay) (trackFullNameHash groupId subgroupId : UInt64)
    (key : UInt64 × PeerSessionId) :
    (r.endSubgroup trackFullNameHash groupId subgroupId).infoBase.clientFib[key]? =
      r.infoBase.clientFib[key]?.map fun entry =>
        if key.1 = trackFullNameHash ∧ (r.lockSession entry.peerSession).isSome then
          { entry with streams := entry.streams.erase (inStreamId groupId subgroupId) }
        else entry :=
  ExtTreeMap.getElem?_map ..

theorem egressAt_endSubgroup (trackFullNameHash groupId subgroupId track : UInt64)
    (egress : PeerSessionId) :
    (r.endSubgroup trackFullNameHash groupId subgroupId).egressAt track egress =
      r.egressAt track egress := by
  unfold egressAt
  rw [getElem?_endSubgroup]
  cases r.infoBase.clientFib[(track, egress)]? with
  | none => rfl
  | some entry =>
    rw [Option.map_some, Option.bind_some, Option.bind_some]
    split <;> rfl

/-- A session that is there loses the stream under the key. -/
theorem outStreamAt_endSubgroup (trackFullNameHash groupId subgroupId track : UInt64)
    (egress : PeerSessionId) (key : UInt64) :
    (r.endSubgroup trackFullNameHash groupId subgroupId).outStreamAt track egress key =
      if trackFullNameHash = track ∧ key = inStreamId groupId subgroupId ∧
          (r.egressAt track egress).isSome = true then none
      else r.outStreamAt track egress key := by
  unfold outStreamAt egressAt
  rw [getElem?_endSubgroup]
  cases r.infoBase.clientFib[(track, egress)]? with
  | none => simp
  | some entry =>
    rw [Option.map_some, Option.bind_some, Option.bind_some, Option.bind_some, Option.isSome_map]
    by_cases hends : track = trackFullNameHash ∧ (r.lockSession entry.peerSession).isSome = true
    · rw [if_pos hends]
      dsimp only
      rw [ExtTreeMap.getElem?_erase_ite]
      simp only [hends, true_and, and_true]
    · rw [if_neg hends, if_neg fun h => hends ⟨h.1.symm, h.2.2⟩]

/-- What `EndSubgroup` closes at an entry. -/
theorem endSubgroupEntry_eq {e : (UInt64 × PeerSessionId) × FibEntry} {track : UInt64}
    (he : e ∈ r.infoBase.clientFib.withFst track) (groupId subgroupId : UInt64) (reset : Bool) :
    r.endSubgroupEntry groupId subgroupId reset e.2 =
      match r.egressAt track e.1.2, r.outStreamAt track e.1.2 (inStreamId groupId subgroupId) with
      | some (id, snsId), some streamId => [.session id snsId streamId reset]
      | _, _ => [] := by
  obtain ⟨hget, htrack⟩ := ExtTreeMap.mem_withFst.mp he
  have hkey : e.1 = (track, e.1.2) := Prod.ext htrack rfl
  rw [hkey] at hget
  unfold endSubgroupEntry egressAt outStreamAt
  rw [hget, Option.bind_some, Option.bind_some]
  cases r.lockSession e.2.peerSession with
  | none => rfl
  | some locked =>
    cases e.2.streams[inStreamId groupId subgroupId]? with
    | none => rfl
    | some streamId => rfl

end Effects

/-! ### Subgroups with streams of their own -/

/-- At each session different open subgroups are mapped to different streams. -/
def OpenStreams.Apart (track : UInt64) (s : OpenStreams) : Prop :=
  ∀ egress p p', p ≠ p' → (s.opened egress p).isSome = true → (s.opened egress p').isSome = true →
    ∃ x x', s.relay.outStreamAt track egress (packed p) = some x ∧
      s.relay.outStreamAt track egress (packed p') = some x' ∧ x ≠ x'

/-- The closes of the streams that the subgroup has been given. -/
def OpenStreams.ownCloses (track : UInt64) (s : OpenStreams) (p : Subgroup) (reset : Bool) :
    List StreamClose :=
  (s.relay.infoBase.clientFib.withFst track).flatMap fun e =>
    match s.relay.egressAt track e.1.2, s.opened e.1.2 p with
    | some (id, snsId), some streamId => [.session id snsId streamId reset]
    | _, _ => []

/-- The subgroups have streams of their own after the call, and a subgroup that ends has its own
streams closed and no others. -/
def Separates (track : UInt64) (s : OpenStreams) (call : SubgroupCall) : Prop :=
  (∀ s', s.call track call = some s' → s'.Apart track) ∧
  ∀ groupId subgroupId reset, call = .endSubgroup track groupId subgroupId reset →
    s.relay.endSubgroupCloses track groupId subgroupId reset =
      s.ownCloses track (groupId, subgroupId) reset

/-- No other subgroup is open that is packed into the same key. -/
def OpenStreams.NoClash (s : OpenStreams) (p : Subgroup) : Prop :=
  ∀ egress p', (s.opened egress p').isSome = true → SameKey p' p → p' = p

def KeysApart (track : UInt64) (s : OpenStreams) : SubgroupCall → Prop
  | .clientDataRecv _ chunk => chunk.trackFullNameHash = track → chunk.type = .newStream →
    s.NoClash (chunk.groupId, chunk.subgroupId)
  | .endSubgroup trackFullNameHash groupId subgroupId _ => trackFullNameHash = track →
    s.NoClash (groupId, subgroupId)

/-- A stream that a session makes is none of those that it has open for the track. -/
def FreshStream (track : UInt64) (s : OpenStreams) : SubgroupCall → Prop
  | .clientDataRecv createStream _ => ∀ egress p x, s.opened egress p = some x →
    s.relay.newStream createStream track egress ≠ some x
  | .endSubgroup .. => True

/-- The table is the ledger under the keys, and keys and streams tell the subgroups apart. -/
structure Ledgered (track : UInt64) (s : OpenStreams) : Prop where
  stream : ∀ egress p x, s.opened egress p = some x →
    s.relay.outStreamAt track egress (packed p) = some x
  opened : ∀ egress key x, s.relay.outStreamAt track egress key = some x →
    ∃ p, packed p = key ∧ s.opened egress p = some x
  live : ∀ egress p x, s.opened egress p = some x → (s.relay.egressAt track egress).isSome = true
  keys : ∀ egress p p' x x', s.opened egress p = some x → s.opened egress p' = some x' →
    SameKey p p' → p = p'
  streams : ∀ egress p p' x, s.opened egress p = some x → s.opened egress p' = some x → p = p'

section Steps

variable {track : UInt64} {s s' : OpenStreams}

theorem Ledgered.apart (h : Ledgered track s) : s.Apart track := by
  intro egress p p' hne hp hp'
  obtain ⟨x, hx⟩ := Option.isSome_iff_exists.mp hp
  obtain ⟨x', hx'⟩ := Option.isSome_iff_exists.mp hp'
  refine ⟨x, x', h.stream egress p x hx, h.stream egress p' x' hx', ?_⟩
  rintro rfl
  exact hne (h.streams egress p p' x hx hx')

/-- The subgroup of the key is the one that has the stream. -/
theorem Ledgered.opened_of_noClash (h : Ledgered track s) {p : Subgroup} (hclash : s.NoClash p)
    {egress : PeerSessionId} {x : UInt64}
    (hx : s.relay.outStreamAt track egress (packed p) = some x) : s.opened egress p = some x := by
  obtain ⟨p', hkey, hp'⟩ := h.opened egress (packed p) x hx
  have heq := hclash egress p' (by rw [hp']; rfl) ((packed_eq_iff p' p).mp hkey)
  rwa [heq] at hp'

theorem Ledgered.outStreamAt_eq (h : Ledgered track s) {p : Subgroup} (hclash : s.NoClash p)
    (egress : PeerSessionId) :
    s.relay.outStreamAt track egress (packed p) = s.opened egress p := by
  cases hp : s.opened egress p with
  | some x => exact h.stream egress p x hp
  | none =>
    cases hx : s.relay.outStreamAt track egress (packed p) with
    | none => rfl
    | some x =>
      rw [h.opened_of_noClash hclash hx] at hp
      cases hp

/-- Data that start a stream for a subgroup that no other open one clashes with. -/
theorem Ledgered.start (h : Ledgered track s) {createStream : CreateStream} {p : Subgroup}
    (hclash : s.NoClash p)
    (hfresh : ∀ egress p x, s.opened egress p = some x →
      s.relay.newStream createStream track egress ≠ some x)
    (hegress : ∀ egress, s'.relay.egressAt track egress = s.relay.egressAt track egress)
    (hstream : ∀ egress key, s'.relay.outStreamAt track egress key =
      if key = packed p then
        (s.relay.outStreamAt track egress key).or (s.relay.newStream createStream track egress)
      else s.relay.outStreamAt track egress key)
    (hopened : ∀ egress p', s'.opened egress p' = if p' = p then
      (s.opened egress p').or (s.relay.newStream createStream track egress)
      else s.opened egress p') : Ledgered track s' := by
  have hp : ∀ egress, s'.relay.outStreamAt track egress (packed p) = s'.opened egress p := by
    intro egress
    rw [hstream, if_pos rfl, hopened, if_pos rfl, h.outStreamAt_eq hclash]
  -- Another subgroup that is open has another key and another stream.
  have hother : ∀ egress p' x, p' ≠ p → s.opened egress p' = some x →
      packed p' ≠ packed p ∧ s'.opened egress p ≠ some x := by
    intro egress p' x hne hx
    refine ⟨fun hkey => hne (hclash egress p' (by rw [hx]; rfl) ((packed_eq_iff p' p).mp hkey)), ?_⟩
    rw [hopened, if_pos rfl]
    intro hor
    rcases Option.or_eq_some_iff.mp hor with hold | ⟨-, hnew⟩
    · exact hne (h.streams egress p' p x hx hold)
    · exact hfresh egress p' x hx hnew
  refine ⟨?_, ?_, ?_, ?_, ?_⟩
  · intro egress p' x hx
    by_cases heq : p' = p
    · rw [heq, hp, ← heq]
      exact hx
    · rw [hopened, if_neg heq] at hx
      rw [hstream, if_neg (hother egress p' x heq hx).1]
      exact h.stream egress p' x hx
  · intro egress key x hx
    by_cases heq : key = packed p
    · exact ⟨p, heq.symm, by rw [← hp, ← heq]; exact hx⟩
    · rw [hstream, if_neg heq] at hx
      obtain ⟨p', hkey, hp'⟩ := h.opened egress key x hx
      refine ⟨p', hkey, ?_⟩
      rw [hopened, if_neg]
      · exact hp'
      · rintro rfl
        exact heq hkey.symm
  · intro egress p' x hx
    rw [hegress]
    rw [hopened] at hx
    split at hx
    · rcases Option.or_eq_some_iff.mp hx with hold | ⟨-, hnew⟩
      · exact h.live egress p' x hold
      · obtain ⟨e, he, -⟩ := Option.map_eq_some_iff.mp hnew
        rw [he]
        rfl
    · exact h.live egress p' x hx
  · intro egress p₁ p₂ x₁ x₂ hx₁ hx₂ hkey
    by_contra hne
    have hpacked := (packed_eq_iff p₁ p₂).mpr hkey
    rw [hopened] at hx₁ hx₂
    split at hx₁
    · rename_i heq₁
      rw [if_neg fun heq₂ => hne (heq₁.trans heq₂.symm)] at hx₂
      exact (hother egress p₂ x₂ (fun heq₂ => hne (heq₁.trans heq₂.symm)) hx₂).1
        (heq₁ ▸ hpacked.symm)
    · rename_i heq₁
      split at hx₂
      · rename_i heq₂
        exact (hother egress p₁ x₁ heq₁ hx₁).1 (heq₂ ▸ hpacked)
      · exact hne (h.keys egress p₁ p₂ x₁ x₂ hx₁ hx₂ hkey)
  · intro egress p₁ p₂ x hx₁ hx₂
    by_contra hne
    by_cases heq₁ : p₁ = p
    · have heq₂ : p₂ ≠ p := fun heq₂ => hne (heq₁.trans heq₂.symm)
      rw [hopened, if_neg heq₂] at hx₂
      exact (hother egress p₂ x heq₂ hx₂).2 (heq₁ ▸ hx₁)
    · rw [hopened, if_neg heq₁] at hx₁
      by_cases heq₂ : p₂ = p
      · exact (hother egress p₁ x heq₁ hx₁).2 (heq₂ ▸ hx₂)
      · rw [hopened, if_neg heq₂] at hx₂
        exact hne (h.streams egress p₁ p₂ x hx₁ hx₂)

/-- A subgroup that no other open one clashes with ends. -/
theorem Ledgered.finish (h : Ledgered track s) {p : Subgroup} (hclash : s.NoClash p)
    (hegress : ∀ egress, s'.relay.egressAt track egress = s.relay.egressAt track egress)
    (hstream : ∀ egress key, s'.relay.outStreamAt track egress key =
      if key = packed p ∧ (s.relay.egressAt track egress).isSome = true then none
      else s.relay.outStreamAt track egress key)
    (hopened : ∀ egress p', s'.opened egress p' =
      if p' = p then none else s.opened egress p') : Ledgered track s' := by
  have hkept : ∀ egress p' x, s'.opened egress p' = some x →
      p' ≠ p ∧ s.opened egress p' = some x := by
    intro egress p' x hx
    rw [hopened] at hx
    split at hx
    · cases hx
    · rename_i hne
      exact ⟨hne, hx⟩
  refine ⟨?_, ?_, ?_, ?_, ?_⟩
  · intro egress p' x hx
    obtain ⟨hne, hx⟩ := hkept egress p' x hx
    rw [hstream, if_neg]
    · exact h.stream egress p' x hx
    · rintro ⟨hkey, -⟩
      exact hne (hclash egress p' (by rw [hx]; rfl) ((packed_eq_iff p' p).mp hkey))
  · intro egress key x hx
    rw [hstream] at hx
    split at hx
    · cases hx
    · rename_i hnot
      obtain ⟨p', hkey, hp'⟩ := h.opened egress key x hx
      refine ⟨p', hkey, ?_⟩
      rw [hopened, if_neg]
      · exact hp'
      · rintro rfl
        exact hnot ⟨hkey.symm, h.live egress p' x hp'⟩
  · intro egress p' x hx
    rw [hegress]
    exact h.live egress p' x (hkept egress p' x hx).2
  · intro egress p₁ p₂ x₁ x₂ hx₁ hx₂
    exact h.keys egress p₁ p₂ x₁ x₂ (hkept egress p₁ x₁ hx₁).2 (hkept egress p₂ x₂ hx₂).2
  · intro egress p₁ p₂ x hx₁ hx₂
    exact h.streams egress p₁ p₂ x (hkept egress p₁ x hx₁).2 (hkept egress p₂ x hx₂).2

theorem Ledgered.congr (h : Ledgered track s)
    (hegress : ∀ egress, s'.relay.egressAt track egress = s.relay.egressAt track egress)
    (hstream : ∀ egress key,
      s'.relay.outStreamAt track egress key = s.relay.outStreamAt track egress key)
    (hopened : ∀ egress p, s'.opened egress p = s.opened egress p) : Ledgered track s' := by
  constructor
  · simpa only [hopened, hstream] using h.stream
  · simpa only [hopened, hstream] using h.opened
  · simpa only [hopened, hegress] using h.live
  · simpa only [hopened] using h.keys
  · simpa only [hopened] using h.streams

theorem Ledgered.call (h : Ledgered track s) {call : SubgroupCall}
    (hapart : KeysApart track s call) (hfresh : FreshStream track s call) :
    ∃ s', s.call track call = some s' ∧ Ledgered track s' := by
  refine ⟨_, rfl, ?_⟩
  cases call with
  | clientDataRecv createStream chunk =>
    by_cases hstart : chunk.trackFullNameHash = track ∧ chunk.type = .newStream
    · refine h.start (hapart hstart.1 hstart.2) hfresh
        (fun egress => egressAt_clientDataRecv track egress) (fun egress key => ?_)
        fun egress p' => ?_
      · refine (outStreamAt_clientDataRecv track egress key).trans ?_
        simp only [hstart, true_and]
        rfl
      · refine (Opened.call_clientDataRecv ..).trans ?_
        simp only [hstart, true_and]
    · refine h.congr (fun egress => egressAt_clientDataRecv track egress) (fun egress key => ?_)
        fun egress p' => ?_
      · refine (outStreamAt_clientDataRecv track egress key).trans (if_neg ?_)
        exact fun hcond => hstart ⟨hcond.1, hcond.2.1⟩
      · exact if_neg fun hcond => hstart ⟨hcond.1, hcond.2.1⟩
  | endSubgroup trackFullNameHash groupId subgroupId reset =>
    by_cases htrack : trackFullNameHash = track
    · refine h.finish (hapart htrack) (fun egress => egressAt_endSubgroup _ _ _ track egress)
        (fun egress key => ?_) fun egress p' => ?_
      · refine (outStreamAt_endSubgroup _ _ _ track egress key).trans ?_
        simp only [htrack, true_and]
        rfl
      · refine (Opened.call_endSubgroup s.relay track s.opened trackFullNameHash groupId
          subgroupId reset egress p').trans ?_
        simp only [htrack, true_and]
    · refine h.congr (fun egress => egressAt_endSubgroup _ _ _ track egress)
        (fun egress key => ?_) fun egress p' => ?_
      · refine (outStreamAt_endSubgroup _ _ _ track egress key).trans (if_neg ?_)
        exact fun hcond => htrack hcond.1
      · exact if_neg fun hcond => htrack hcond.1

/-- Lists are put together alike only when their parts, of which some are left out on one side, are
the same. -/
theorem flatMap_eq_flatMap_iff {α β : Type} {f g : α → List β} {l : List α}
    (h : ∀ a ∈ l, g a = [] ∨ g a = f a) : l.flatMap f = l.flatMap g ↔ ∀ a ∈ l, f a = g a := by
  refine ⟨fun heq => ?_, List.flatMap_congr⟩
  have hlength : ∀ l : List α, (∀ a ∈ l, g a = [] ∨ g a = f a) →
      (l.flatMap g).length ≤ (l.flatMap f).length := by
    intro l h
    induction l with
    | nil => exact Nat.le_refl _
    | cons a l ih =>
      have hrest := ih fun b hb => h b (List.mem_cons_of_mem _ hb)
      rw [List.flatMap_cons, List.flatMap_cons, List.length_append, List.length_append]
      rcases h a List.mem_cons_self with hg | hg
      · rw [hg, List.length_nil]
        omega
      · rw [hg]
        omega
  induction l with
  | nil => intro a ha; cases ha
  | cons a l ih =>
    rw [List.flatMap_cons, List.flatMap_cons] at heq
    have hrest := hlength l fun b hb => h b (List.mem_cons_of_mem _ hb)
    have ha : f a = g a := by
      rcases h a List.mem_cons_self with hg | hg
      · have hsum := congrArg List.length heq
        rw [List.length_append, List.length_append, hg, List.length_nil] at hsum
        rw [hg]
        exact List.eq_nil_of_length_eq_zero (by omega)
      · exact hg.symm
    rw [ha, List.append_cancel_left_eq] at heq
    intro b hb
    rcases List.mem_cons.mp hb with rfl | hb
    · exact ha
    · exact ih (fun b hb => h b (List.mem_cons_of_mem _ hb)) heq b hb

/-- A subgroup that ends has its own streams closed when the streams under its key are its own. -/
theorem Ledgered.closes_iff (h : Ledgered track s) (groupId subgroupId : UInt64) (reset : Bool) :
    s.relay.endSubgroupCloses track groupId subgroupId reset =
        s.ownCloses track (groupId, subgroupId) reset ↔ s.NoClash (groupId, subgroupId) := by
  have hown : ∀ egress x, s.opened egress (groupId, subgroupId) = some x →
      s.relay.outStreamAt track egress (inStreamId groupId subgroupId) = some x :=
    fun egress x hx => h.stream egress (groupId, subgroupId) x hx
  unfold endSubgroupCloses OpenStreams.ownCloses
  rw [flatMap_eq_flatMap_iff]
  · constructor
    · intro hentries egress p hp hkey
      by_contra hne
      obtain ⟨x, hx⟩ := Option.isSome_iff_exists.mp hp
      have hstream := h.stream egress p x hx
      rw [(packed_eq_iff p _).mpr hkey] at hstream
      have hnone : s.opened egress (groupId, subgroupId) = none := by
        by_contra hsome
        obtain ⟨x', hx'⟩ := Option.ne_none_iff_exists'.mp hsome
        exact hne (h.keys egress p _ x x' hx hx' hkey)
      obtain ⟨entry, hentry, hlock⟩ := Option.bind_eq_some_iff.mp
        (Option.eq_some_of_isSome (h.live egress p x hx))
      have hmem : ((track, egress), entry) ∈ s.relay.infoBase.clientFib.withFst track :=
        ExtTreeMap.mem_withFst.mpr ⟨hentry, rfl⟩
      have hclosed := hentries _ hmem
      obtain ⟨e, he⟩ := Option.isSome_iff_exists.mp (h.live egress p x hx)
      rw [endSubgroupEntry_eq hmem] at hclosed
      dsimp only at hclosed
      rw [he, hnone, show s.relay.outStreamAt track egress (inStreamId groupId subgroupId) = some x
        from hstream] at hclosed
      cases hclosed
    · intro hclash e he
      rw [endSubgroupEntry_eq he,
        show s.relay.outStreamAt track e.1.2 (inStreamId groupId subgroupId) =
          s.opened e.1.2 (groupId, subgroupId) from h.outStreamAt_eq hclash e.1.2]
  · intro e he
    rw [endSubgroupEntry_eq he]
    cases hp : s.opened e.1.2 (groupId, subgroupId) with
    | none =>
      left
      cases s.relay.egressAt track e.1.2 <;> rfl
    | some x =>
      right
      rw [hown e.1.2 x hp]

/-- The subgroups have streams of their own after a call exactly when the call is about a subgroup
that no other open one clashes with. -/
theorem Ledgered.separates_iff (h : Ledgered track s) {call : SubgroupCall}
    (hfresh : FreshStream track s call) : Separates track s call ↔ KeysApart track s call := by
  constructor
  · rintro ⟨hapart, hcloses⟩
    cases call with
    | clientDataRecv createStream chunk =>
      intro htrack hnew egress p hp hkey
      by_contra hne
      obtain ⟨x, hx⟩ := Option.isSome_iff_exists.mp hp
      obtain ⟨e, he⟩ := Option.isSome_iff_exists.mp (h.live egress p x hx)
      have hother : s.opened.call s.relay track (.clientDataRecv createStream chunk) egress p =
          some x := (if_neg fun hcond => hne hcond.2.2).trans hx
      have hnewStream : s.relay.newStream createStream track egress =
          some (createStream e.1 e.2) := by
        rw [newStream, he]
        rfl
      have hstarted : (s.opened.call s.relay track (.clientDataRecv createStream chunk) egress
          (chunk.groupId, chunk.subgroupId)).isSome = true := by
        rw [Opened.call_clientDataRecv, if_pos ⟨htrack, hnew, rfl⟩, hnewStream, Option.isSome_or]
        simp
      obtain ⟨y, y', hy, hy', hdiffer⟩ :=
        hapart _ rfl egress p _ hne (Option.isSome_iff_exists.mpr ⟨x, hother⟩) hstarted
      rw [(packed_eq_iff p _).mpr hkey, hy'] at hy
      exact hdiffer (Option.some.inj hy).symm
    | endSubgroup trackFullNameHash groupId subgroupId reset =>
      rintro rfl
      exact (h.closes_iff groupId subgroupId reset).mp (hcloses _ _ _ rfl)
  · intro hkeys
    obtain ⟨s', hcall, hledger⟩ := h.call hkeys hfresh
    refine ⟨fun s'' hs'' => ?_, ?_⟩
    · rw [hcall] at hs''
      cases hs''
      exact hledger.apart
    · rintro groupId subgroupId reset rfl
      exact (h.closes_iff groupId subgroupId reset).mpr (hkeys rfl)

end Steps

/-! ### Runs -/

/-- The streams that the sessions make in the run are new ones. -/
def FreshRun (track : UInt64) (r : Relay) (calls : List SubgroupCall) : Prop :=
  Runs.All (OpenStreams.call track) (FreshStream track) { relay := r } calls

/-- In a run of `ClientDataRecv` and `EndSubgroup` that begins without streams of the track, and in
which sessions make new streams, the open subgroups of the track have streams of their own after
every call, and those that end have their own streams closed, if and only if no call that starts or
ends a subgroup of the track meets another open one whose group agrees with its group in the low 48
bits and whose subgroup agrees with its subgroup in the low 16 bits. -/
theorem separates_subgroups_iff (track : UInt64) (r : Relay)
    (hnone : ∀ egress key, r.outStreamAt track egress key = none) (calls : List SubgroupCall)
    (hfresh : FreshRun track r calls) :
    Runs.All (OpenStreams.call track) (Separates track) { relay := r } calls ↔
      Runs.All (OpenStreams.call track) (KeysApart track) { relay := r } calls := by
  have hledger : Ledgered track { relay := r } := by
    constructor
    · intro egress p x hx
      cases hx
    · intro egress key x hx
      cases (hnone egress key).symm.trans hx
    · intro egress p x hx
      cases hx
    · intro egress p p' x x' hx
      cases hx
    · intro egress p p' x hx
      cases hx
  have hall : Runs.All (OpenStreams.call track)
        (fun s call => Separates track s call ∧ FreshStream track s call) { relay := r } calls ↔
      Runs.All (OpenStreams.call track)
        (fun s call => KeysApart track s call ∧ FreshStream track s call) { relay := r } calls :=
    Runs.all_iff (fun s call h hclean => h.call hclean.1 hclean.2)
      (fun s call h => and_congr_left fun hfresh => h.separates_iff hfresh) hledger
  constructor
  · intro h before call hprefix s' hs'
    exact (hall.mp (fun before call hprefix s' hs' =>
      ⟨h before call hprefix s' hs', hfresh before call hprefix s' hs'⟩)
      before call hprefix s' hs').1
  · intro h before call hprefix s' hs'
    exact (hall.mpr (fun before call hprefix s' hs' =>
      ⟨h before call hprefix s' hs', hfresh before call hprefix s' hs'⟩)
      before call hprefix s' hs').1

/-- Session 5 of relay 1 has nodes for track 9. -/
def oneEgress : Relay where
  nodeId := 1
  clientPeerSessions := (∅ : ExtTreeMap PeerSessionId PeerSession compare).insert 5
    { nodeId := 1, status := .connected }
  infoBase :=
    { clientFib := (∅ : ExtTreeMap (UInt64 × PeerSessionId) FibEntry compare).insert (9, 5)
        { outSnsId := 2, peerSession := some 5 } }

/-- Data of track 9 that start a stream. -/
def startOf (p : Subgroup) : Chunk where
  trackFullNameHash := 9
  priority := 1
  ttl := 100
  type := .newStream
  groupId := p.1
  subgroupId := p.2
  data := [7]

theorem outStreamAt_oneEgress (track : UInt64) (egress : PeerSessionId) (key : UInt64) :
    oneEgress.outStreamAt track egress key = none := by
  unfold outStreamAt oneEgress
  rw [ExtTreeMap.getElem?_insert_ite]
  split
  · exact ExtTreeMap.getElem?_empty
  · rw [ExtTreeMap.getElem?_empty]
    rfl

/-- What is open after data that start a stream. -/
theorem opened_start {r : Relay} {opened : Opened} {p p' : Subgroup} {n x : UInt64}
    {egress : PeerSessionId}
    (h : opened.call r 9 (.clientDataRecv (fun _ _ => n) (startOf p)) egress p' = some x) :
    (p' = p ∧ x = n) ∨ opened egress p' = some x := by
  rw [Opened.call_clientDataRecv] at h
  split at h
  · rename_i hcond
    rcases Option.or_eq_some_iff.mp h with hold | ⟨-, hnew⟩
    · exact Or.inr hold
    · obtain ⟨e, -, rfl⟩ := Option.map_eq_some_iff.mp hnew
      exact Or.inl ⟨hcond.2.2, rfl⟩
  · exact Or.inr h

theorem newStream_ne {r : Relay} {n x : UInt64} (h : n ≠ x) (egress : PeerSessionId) :
    r.newStream (fun _ _ => n) 9 egress ≠ some x := by
  intro hnew
  obtain ⟨e, -, hx⟩ := Option.map_eq_some_iff.mp hnew
  exact h hx

/-- Two groups are open at once, and one of them ends. -/
def twoGroups : List SubgroupCall :=
  [.clientDataRecv (fun _ _ => 10) (startOf (0, 0)),
    .clientDataRecv (fun _ _ => 11) (startOf (1, 0)),
    .endSubgroup 9 0 0 false]

theorem separates_subgroups_twoGroups :
    Runs.All (OpenStreams.call 9) (Separates 9) { relay := oneEgress } twoGroups := by
  refine (separates_subgroups_iff 9 oneEgress (outStreamAt_oneEgress 9) twoGroups ?_).mpr ?_
  · refine Runs.all_of_take fun k call hcall s hs => ?_
    match k with
    | 0 =>
      cases hcall
      cases hs
      intro egress p x hx
      cases hx
    | 1 =>
      cases hcall
      cases hs
      intro egress p x hx
      obtain ⟨-, rfl⟩ := (opened_start hx).resolve_right (by simp)
      exact newStream_ne (by decide) egress
    | 2 =>
      cases hcall
      trivial
  · refine Runs.all_of_take fun k call hcall s hs => ?_
    match k with
    | 0 =>
      cases hcall
      cases hs
      intro _ _ egress p hp
      cases hp
    | 1 =>
      cases hcall
      cases hs
      intro _ _ egress p hp hkey
      obtain ⟨x, hx⟩ := Option.isSome_iff_exists.mp hp
      obtain ⟨rfl, -⟩ := (opened_start hx).resolve_right (by simp)
      exact absurd hkey (by decide)
    | 2 =>
      cases hcall
      cases hs
      intro _ egress p hp hkey
      obtain ⟨x, hx⟩ := Option.isSome_iff_exists.mp hp
      rcases opened_start hx with ⟨rfl, -⟩ | hx
      · exact absurd hkey (by decide)
      · exact ((opened_start hx).resolve_right (by simp)).1

/-- The second subgroup is 2 to the power of 16. -/
theorem not_separates_subgroups : ¬ ∀ (track : UInt64) (r : Relay),
    (∀ egress key, r.outStreamAt track egress key = none) → ∀ calls, FreshRun track r calls →
      Runs.All (OpenStreams.call track) (Separates track) { relay := r } calls := by
  intro hall
  have hrun := hall 9 oneEgress (outStreamAt_oneEgress 9)
    [.clientDataRecv (fun _ _ => 10) (startOf (0, 0)),
      .clientDataRecv (fun _ _ => 11) (startOf (0, 65536))] (by
    refine Runs.all_of_take fun k call hcall s hs => ?_
    match k with
    | 0 =>
      cases hcall
      cases hs
      intro egress p x hx
      cases hx
    | 1 =>
      cases hcall
      cases hs
      intro egress p x hx
      obtain ⟨-, rfl⟩ := (opened_start hx).resolve_right (by simp)
      exact newStream_ne (by decide) egress)
  obtain ⟨happart, -⟩ := hrun [.clientDataRecv (fun _ _ => 10) (startOf (0, 0))] _
    List.prefix_rfl _ rfl
  obtain ⟨x, x', hx, hx', hne⟩ := happart _ rfl 5 (0, 0) (0, 65536) (by decide)
    (by decide +kernel) (by decide +kernel)
  rw [show packed (0, 65536) = packed (0, 0) by decide +kernel, hx] at hx'
  exact hne (Option.some.inj hx')

end Laps.Relay
