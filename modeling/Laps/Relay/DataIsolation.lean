import Laps.Relay.Data

/-! The data of this relay's publishers on its way to the sessions of a track.  The loop stops at
the first session without the stream that the data continues, so that sessions after it miss the
data too. -/

namespace Laps.Relay

open Std Peering

section

variable (r : Relay) (createStream : CreateStream) (chunk : Chunk)

/-- What the session of an entry is sent when only the entry and the call count. -/
def entrySends (entry : FibEntry) : List DataSent :=
  match r.lockSession entry.peerSession with
  | none => []
  | some (id, session) =>
    if !chunk.useReliable then session.sendData (chunk.sent id entry 0)
    else
      match entry.streams[chunk.inStreamId]? with
      | some streamId => session.sendData (chunk.sent id entry streamId)
      | none =>
        if chunk.type ≠ .newStream then []
        else session.sendData (chunk.sent id entry (createStream id entry.outSnsId))

/-- What the sessions of the track are sent is what each entry has its session sent. -/
def IsolatesPeers : Prop :=
  (r.clientDataRecv createStream chunk).2 =
    (r.infoBase.clientFib.withFst chunk.trackFullNameHash).flatMap fun e =>
      r.entrySends createStream chunk e.2

/-- The session of the entry is there, without the stream that the data continues. -/
def LacksStream (entry : FibEntry) : Prop :=
  (r.lockSession entry.peerSession).isSome = true ∧ entry.streams[chunk.inStreamId]? = none

/-- The session of the entry is connected and has the stream that the data continues. -/
def HasStream (entry : FibEntry) : Prop :=
  ∃ id session, r.lockSession entry.peerSession = some (id, session) ∧
    session.status = .connected ∧ (entry.streams[chunk.inStreamId]?).isSome = true

variable {r createStream chunk}

theorem entrySends_eq_nil_iff (hexisting : chunk.type = .existingStream) {entry : FibEntry} :
    r.entrySends createStream chunk entry = [] ↔ ¬r.HasStream chunk entry := by
  have hreliable : chunk.useReliable = true := by simp [Chunk.useReliable, hexisting]
  unfold entrySends HasStream
  cases hlock : r.lockSession entry.peerSession with
  | none => simp
  | some locked =>
    obtain ⟨id, session⟩ := locked
    cases hstream : entry.streams[chunk.inStreamId]? with
    | none => simp [hreliable, hexisting]
    | some streamId =>
      by_cases hconnected : session.status = .connected
      · simp [hreliable, PeerSession.sendData, hconnected]
      · simp [hreliable, PeerSession.sendData, hconnected]

/-- An entry stops the loop when it lacks the stream that the data continues. -/
theorem clientDataEntry_eq_none_iff {entry : FibEntry} :
    r.clientDataEntry createStream chunk entry = none ↔
      chunk.type = .existingStream ∧ r.LacksStream chunk entry := by
  unfold clientDataEntry LacksStream
  cases hlock : r.lockSession entry.peerSession with
  | none => simp
  | some locked =>
    obtain ⟨id, session⟩ := locked
    by_cases hreliable : chunk.useReliable = true
    · have htypes : chunk.type = .existingStream ∨ chunk.type = .newStream := by
        simpa [Chunk.useReliable] using hreliable
      cases hstream : entry.streams[chunk.inStreamId]? with
      | some streamId => simp [hreliable]
      | none => rcases htypes with htype | htype <;> simp [hreliable, htype]
    · have htype : chunk.type ≠ .existingStream := by
        intro htype
        simp [Chunk.useReliable, htype] at hreliable
      simp [hreliable, htype]

/-- An entry that does not stop the loop has its session sent its own. -/
theorem clientDataEntry_sends {entry entry' : FibEntry} {sent : List DataSent}
    (h : r.clientDataEntry createStream chunk entry = some (entry', sent)) :
    sent = r.entrySends createStream chunk entry := by
  unfold clientDataEntry at h
  unfold entrySends
  cases hlock : r.lockSession entry.peerSession with
  | none =>
    rw [hlock] at h
    cases h
    rfl
  | some locked =>
    obtain ⟨id, session⟩ := locked
    rw [hlock] at h
    dsimp only at h ⊢
    by_cases hunreliable : (!chunk.useReliable) = true
    · rw [if_pos hunreliable] at h ⊢
      cases h
      rfl
    · rw [if_neg hunreliable] at h ⊢
      cases hstream : entry.streams[chunk.inStreamId]? with
      | some streamId =>
        rw [hstream] at h
        cases h
        rfl
      | none =>
        rw [hstream] at h
        dsimp only at h ⊢
        by_cases hnew : chunk.type ≠ .newStream
        · rw [if_pos hnew] at h
          cases h
        · rw [if_neg hnew] at h ⊢
          cases h
          rfl

variable (r createStream chunk) in
theorem sent_clientDataLoop_iff (entries : List ((UInt64 × PeerSessionId) × FibEntry))
    (fib : ExtTreeMap (UInt64 × PeerSessionId) FibEntry compare) :
    (r.clientDataLoop createStream chunk entries fib).2 =
        entries.flatMap (fun e => r.entrySends createStream chunk e.2) ↔
      entries.Pairwise fun e e' => chunk.type = .existingStream → r.LacksStream chunk e.2 →
        ¬r.HasStream chunk e'.2 := by
  induction entries generalizing fib with
  | nil => simp [clientDataLoop]
  | cons e entries ih =>
    obtain ⟨key, entry⟩ := e
    rw [clientDataLoop, List.pairwise_cons, List.flatMap_cons]
    cases hentry : r.clientDataEntry createStream chunk entry with
    | none =>
      -- the loop stops here: nobody behind may have the stream
      obtain ⟨hexisting, hlacks⟩ := clientDataEntry_eq_none_iff.mp hentry
      have hnot : ¬r.HasStream chunk entry := by
        rintro ⟨_, _, _, -, hstream⟩
        rw [hlacks.2] at hstream
        cases hstream
      rw [(entrySends_eq_nil_iff hexisting).mpr hnot, List.nil_append, eq_comm,
        List.flatMap_eq_nil_iff]
      constructor
      · intro hnone
        have hbehind : ∀ e ∈ entries, ¬r.HasStream chunk e.2 :=
          fun e he => (entrySends_eq_nil_iff hexisting).mp (hnone e he)
        exact ⟨fun e he _ _ => hbehind e he,
          List.pairwise_of_forall_mem_list fun _ _ e he _ _ => hbehind e he⟩
      · exact fun h e he => (entrySends_eq_nil_iff hexisting).mpr (h.1 e he hexisting hlacks)
    | some result =>
      obtain ⟨entry', sent⟩ := result
      dsimp only
      rw [clientDataEntry_sends hentry, List.append_right_inj, ih]
      have hpasses : chunk.type = .existingStream → ¬r.LacksStream chunk entry := by
        intro hexisting hlacks
        rw [clientDataEntry_eq_none_iff.mpr ⟨hexisting, hlacks⟩] at hentry
        cases hentry
      exact ⟨fun h => ⟨fun _ _ hexisting hlacks => absurd hlacks (hpasses hexisting), h⟩, And.right⟩

end

/-- The peers of a track are isolated from each other if and only if the data continues no stream,
or no session without the stream comes before a connected one that has it. -/
theorem isolatesPeers_iff (r : Relay) (createStream : CreateStream) (chunk : Chunk) :
    r.IsolatesPeers createStream chunk ↔ (chunk.type = .existingStream →
      ∀ (id id' : PeerSessionId) entry entry',
        r.infoBase.clientFib[(chunk.trackFullNameHash, id)]? = some entry →
        r.infoBase.clientFib[(chunk.trackFullNameHash, id')]? = some entry' → id < id' →
        r.LacksStream chunk entry → ¬r.HasStream chunk entry') := by
  have hloop := sent_clientDataLoop_iff r createStream chunk
    (r.infoBase.clientFib.withFst chunk.trackFullNameHash) r.infoBase.clientFib
  rw [ExtTreeMap.pairwise_withFst_iff] at hloop
  refine Iff.trans hloop ⟨fun h hexisting id id' entry entry' hget hget' hlt => ?_, ?_⟩
  · exact h id id' entry entry' hget hget' (compare_eq_lt.mpr hlt) hexisting
  · exact fun h id id' entry entry' hget hget' hlt hexisting =>
      h hexisting id id' entry entry' hget hget' (compare_eq_lt.mp hlt)

/-- Session 6 has a stream, session 5 came later and has none. -/
def joinedLater : Relay where
  nodeId := 1
  clientPeerSessions := (((∅ : ExtTreeMap PeerSessionId PeerSession compare).insert 5
    { nodeId := 1, status := .connected }).insert 6 { nodeId := 1, status := .connected })
  infoBase :=
    { clientFib := (((∅ : ExtTreeMap (UInt64 × PeerSessionId) FibEntry compare).insert (9, 5)
        { updateRef := 0, outSnsId := 2, peerSession := some 5 }).insert (9, 6)
        { updateRef := 0, outSnsId := 3, peerSession := some 6
          streams := (∅ : ExtTreeMap UInt64 UInt64 compare).insert (inStreamId 1 0) 4 }) }

/-- Session 6 misses data of its own stream. -/
theorem not_isolatesPeers :
    ¬∀ (r : Relay) (createStream : CreateStream) (chunk : Chunk),
      r.IsolatesPeers createStream chunk := by
  intro hall
  have h := hall joinedLater (fun _ _ => 7)
    { trackFullNameHash := 9, priority := 1, ttl := 100, type := .existingStream
      groupId := 1, subgroupId := 0, data := [1, 2] }
  revert h
  unfold IsolatesPeers
  decide +kernel

end Laps.Relay
