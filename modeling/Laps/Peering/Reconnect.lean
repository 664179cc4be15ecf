import Laps.Lib.Sweep
import Laps.Peering.Session

/-! The sessions that a relay opens are looked after by a thread, which connects them again.  A
session has a new id then, and moves in the map that the thread goes through. -/

namespace Laps.Peering

open Std Sweep

/-- A session that this relay opens. -/
structure ClientSession where
  /-- Tells the configured peers apart. -/
  peer : ℕ
  /-- The id of the connection. -/
  sessionId : PeerSessionId
  session : PeerSession
  deriving DecidableEq

def ClientSession.disconnected (s : ClientSession) : Bool := s.session.status = .disconnected

/-- `Connect`: the transport hands out an id for each peer. -/
def ClientSession.connect (q : Quicr) (newId : ℕ → PeerSessionId) (s : ClientSession) :
    ClientSession :=
  { s with
    sessionId := if s.session.isInbound then s.sessionId else newId s.peer
    session := s.session.connect q }

/-- What the loop of `CheckThread` has. -/
structure CheckState where
  /-- A pointer that was moved from is `none`. -/
  clientPeerSessions : ExtTreeMap PeerSessionId (Option ClientSession)
  removePeerSess : List PeerSessionId := []

/-- One session.  It stays where it is when its new id is in the map.  `none` is a null pointer. -/
def checkSession (q : Quicr) (newId : ℕ → PeerSessionId) (st : CheckState) (id : PeerSessionId) :
    Option CheckState :=
  match st.clientPeerSessions[id]? with
  | none => some st
  | some none => none
  | some (some s) =>
    if s.disconnected then
      let s := s.connect q newId
      some
        { clientPeerSessions :=
            if st.clientPeerSessions.contains s.sessionId then
              st.clientPeerSessions.insert id (some s)
            else (st.clientPeerSessions.insert id none).insert s.sessionId (some s)
          removePeerSess := st.removePeerSess ++ [id] }
    else some st

/-- One pass of `CheckThread`. -/
def checkSessions (q : Quicr) (newId : ℕ → PeerSessionId) (fuel : ℕ)
    (clientPeerSessions : ExtTreeMap PeerSessionId (Option ClientSession)) :
    Option (ExtTreeMap PeerSessionId (Option ClientSession)) :=
  (sweep CheckState.clientPeerSessions (checkSession q newId) fuel [] { clientPeerSessions }).map
    fun checked => checked.2.removePeerSess.foldl ExtTreeMap.erase checked.2.clientPeerSessions

/-- The map before the pass. -/
def pointers (sessions : ExtTreeMap PeerSessionId ClientSession) :
    ExtTreeMap PeerSessionId (Option ClientSession) := sessions.map fun _ s => some s

/-- Each session is under its id, and there is one for a peer. -/
structure Stored (sessions : ExtTreeMap PeerSessionId ClientSession) : Prop where
  current : ∀ (id : PeerSessionId) s, sessions[id]? = some s → s.sessionId = id
  outbound : ∀ (id : PeerSessionId) s, sessions[id]? = some s → s.session.isInbound = false
  distinct : ∀ (id : PeerSessionId) s (id' : PeerSessionId) s', sessions[id]? = some s →
    sessions[id']? = some s' → s.peer = s'.peer → id = id'

/-- A new id is not the one that another session has by then. -/
def Distinct (newId : ℕ → PeerSessionId) (sessions : ExtTreeMap PeerSessionId ClientSession) :
    Prop :=
  ∀ (id : PeerSessionId) s (id' : PeerSessionId) s', sessions[id]? = some s →
    sessions[id']? = some s' → id ≠ id' → s.disconnected = true →
      newId s.peer ≠ if s'.disconnected = true ∧ id' < id then newId s'.peer else id'

/-- Every session is in the map once, under its id, and there is no null pointer. -/
structure KeepsPeers (sessions : ExtTreeMap PeerSessionId ClientSession)
    (after : ExtTreeMap PeerSessionId (Option ClientSession)) : Prop where
  notNull : ∀ id : PeerSessionId, after[id]? ≠ some none
  current : ∀ (id : PeerSessionId) s, after[id]? = some (some s) → s.sessionId = id
  once : ∀ (id : PeerSessionId) s, sessions[id]? = some s →
    ∃! id' : PeerSessionId, ∃ s', after[id']? = some (some s') ∧ s'.peer = s.peer

/-- No session gets an id again that it had, or that one had which was connected again before it. -/
def NewIds (newId : ℕ → PeerSessionId) (sessions : ExtTreeMap PeerSessionId ClientSession) :
    Prop :=
  ∀ (id : PeerSessionId) s (id' : PeerSessionId) s', sessions[id]? = some s →
    sessions[id']? = some s' → s.disconnected = true → s'.disconnected = true → id' ≤ id →
      newId s.peer ≠ id'

/-! ### The pass -/

section Pass

variable {q : Quicr} {newId : ℕ → PeerSessionId}
variable {sessions : ExtTreeMap PeerSessionId ClientSession} {visited : List PeerSessionId}
variable {st st' : CheckState} {id : PeerSessionId} {s : ClientSession}

/-- What is under the old id of a session once the loop has come to it. -/
def leftUnder (q : Quicr) (newId : ℕ → PeerSessionId)
    (sessions : ExtTreeMap PeerSessionId ClientSession) (visited : List PeerSessionId)
    (id : PeerSessionId) (s : ClientSession) : Option ClientSession :=
  if id ∈ visited ∧ s.disconnected = true then
    if sessions.contains (newId s.peer) then some (s.connect q newId) else none
  else some s

/-- The session was connected again, with the new id. -/
def Moved (newId : ℕ → PeerSessionId) (sessions : ExtTreeMap PeerSessionId ClientSession)
    (visited : List PeerSessionId) (id : PeerSessionId) (s : ClientSession) : Prop :=
  ∃ old ∈ visited, sessions[old]? = some s ∧ s.disconnected = true ∧ newId s.peer = id

/-- The maps after the loop has come to some ids. -/
structure CheckedAt (q : Quicr) (newId : ℕ → PeerSessionId)
    (sessions : ExtTreeMap PeerSessionId ClientSession) (visited : List PeerSessionId)
    (st : CheckState) : Prop where
  old : ∀ (id : PeerSessionId) s, sessions[id]? = some s →
    st.clientPeerSessions[id]? = some (leftUnder q newId sessions visited id s)
  new : ∀ id : PeerSessionId, sessions[id]? = none → ∀ v,
    st.clientPeerSessions[id]? = some v ↔
      ∃ s, Moved newId sessions visited id s ∧ v = some (s.connect q newId)
  removed : ∀ id, id ∈ st.removePeerSess ↔
    id ∈ visited ∧ ∃ s, sessions[id]? = some s ∧ s.disconnected = true

theorem checkedAt_nil : CheckedAt q newId sessions [] { clientPeerSessions := pointers sessions } := by
  refine ⟨fun id s hget => ?_, fun id hget v => ?_, fun id => ?_⟩
  · show (sessions.map _)[id]? = _
    rw [ExtTreeMap.getElem?_map, hget]
    rfl
  · have hnone : (sessions.map fun _ s => some s)[id]? = none := by
      rw [ExtTreeMap.getElem?_map, hget]
      rfl
    show (sessions.map fun _ s => some s)[id]? = _ ↔ _
    rw [hnone]
    simp [Moved]
  · simp

theorem leftUnder_concat {k : PeerSessionId} (hk : id = k → s.disconnected = false) :
    leftUnder q newId sessions (visited ++ [k]) id s = leftUnder q newId sessions visited id s := by
  have hmem : id ∈ visited ++ [k] ∧ s.disconnected = true ↔
      id ∈ visited ∧ s.disconnected = true := by
    rw [List.mem_append, List.mem_singleton]
    constructor
    · rintro ⟨hmem | heq, hdisc⟩
      · exact ⟨hmem, hdisc⟩
      · rw [hk heq] at hdisc
        cases hdisc
    · exact fun ⟨hmem, hdisc⟩ => ⟨.inl hmem, hdisc⟩
  unfold leftUnder
  simp only [hmem]

theorem moved_concat {k : PeerSessionId} : Moved newId sessions (visited ++ [k]) id s ↔
    Moved newId sessions visited id s ∨
      sessions[k]? = some s ∧ s.disconnected = true ∧ newId s.peer = id := by
  unfold Moved
  constructor
  · rintro ⟨old, hmem, hold⟩
    rw [List.mem_append, List.mem_singleton] at hmem
    obtain hmem | rfl := hmem
    · exact .inl ⟨old, hmem, hold⟩
    · exact .inr hold
  · rintro (⟨old, hmem, hold⟩ | hk)
    · exact ⟨old, List.mem_append_left _ hmem, hold⟩
    · exact ⟨k, by simp, hk⟩

/-- An id that is passed over changes nothing. -/
theorem CheckedAt.concat_of_kept (hat : CheckedAt q newId sessions visited st)
    (hk : ∀ s, sessions[id]? = some s → s.disconnected = false) :
    CheckedAt q newId sessions (visited ++ [id]) st := by
  refine ⟨fun id' s hget => ?_, fun id' hget v => ?_, fun id' => ?_⟩
  · rw [leftUnder_concat, hat.old id' s hget]
    rintro rfl
    exact hk s hget
  · rw [hat.new id' hget v]
    refine exists_congr fun s => and_congr_left fun _ => ?_
    rw [moved_concat, or_iff_left]
    rintro ⟨hget', hdisc, -⟩
    rw [hk s hget'] at hdisc
    cases hdisc
  · rw [hat.removed, List.mem_append, List.mem_singleton]
    constructor
    · exact fun ⟨hmem, hold⟩ => ⟨.inl hmem, hold⟩
    · rintro ⟨hmem | rfl, s, hget, hdisc⟩
      · exact ⟨hmem, s, hget, hdisc⟩
      · rw [hk s hget] at hdisc
        cases hdisc

/-- The new id is in the map when a session was under it before the pass. -/
theorem CheckedAt.contains_newId (hat : CheckedAt q newId sessions visited st)
    (hdistinct : Distinct newId sessions) (hafter : After compare visited id)
    (hget : sessions[id]? = some s) (hdisc : s.disconnected = true) :
    st.clientPeerSessions.contains (newId s.peer) = sessions.contains (newId s.peer) := by
  cases hold : sessions[newId s.peer]? with
  | some s' =>
    rw [ExtTreeMap.contains_iff_getElem?.mpr ⟨s', hold⟩, ExtTreeMap.contains_iff_getElem?]
    exact ⟨_, hat.old _ s' hold⟩
  | none =>
    rw [ExtTreeMap.contains_eq_false_iff.mpr hold, ExtTreeMap.contains_eq_false_iff]
    refine Option.eq_none_iff_forall_ne_some.mpr fun v hv => ?_
    obtain ⟨s', ⟨id', hmem, hget', hdisc', hsame⟩, -⟩ := (hat.new _ hold v).mp hv
    have hlt : id' < id := compare_eq_lt.mp (hafter id' hmem)
    refine hdistinct id s id' s' hget hget' (fun heq => ?_) hdisc ?_
    · rw [heq] at hlt
      exact absurd hlt (UInt64.lt_irrefl _)
    · rw [if_pos ⟨hdisc', hlt⟩, hsame]

theorem CheckedAt.removed_concat (hat : CheckedAt q newId sessions visited st)
    (hget : sessions[id]? = some s) (hdisc : s.disconnected = true) (id' : PeerSessionId) :
    id' ∈ st.removePeerSess ++ [id] ↔
      id' ∈ visited ++ [id] ∧ ∃ s, sessions[id']? = some s ∧ s.disconnected = true := by
  rw [List.mem_append, List.mem_append, List.mem_singleton, hat.removed]
  constructor
  · rintro (⟨hmem, hold⟩ | rfl)
    · exact ⟨.inl hmem, hold⟩
    · exact ⟨.inr rfl, s, hget, hdisc⟩
  · rintro ⟨hmem | rfl, hold⟩
    · exact .inl ⟨hmem, hold⟩
    · exact .inr rfl

/-- A session comes to an id that is not the new one of the session that is connected. -/
theorem moved_concat_of_ne {k : PeerSessionId} {s₁ : ClientSession} (hget : sessions[k]? = some s)
    (hne : id ≠ newId s.peer) :
    Moved newId sessions (visited ++ [k]) id s₁ ↔ Moved newId sessions visited id s₁ := by
  rw [moved_concat, or_iff_left]
  rintro ⟨hgets, -, rfl⟩
  rw [hget] at hgets
  cases hgets
  exact hne rfl

/-- The loop comes to one session and leaves the other ids of sessions alone. -/
theorem CheckedAt.old_concat (hat : CheckedAt q newId sessions visited st)
    (hget : sessions[id]? = some s)
    {after : ExtTreeMap PeerSessionId (Option ClientSession)}
    (hself : after[id]? = some (leftUnder q newId sessions (visited ++ [id]) id s))
    (hothers : ∀ id', id' ≠ id → ∀ s', sessions[id']? = some s' →
      after[id']? = st.clientPeerSessions[id']?) (id' : PeerSessionId) (s' : ClientSession)
    (hget' : sessions[id']? = some s') :
    after[id']? = some (leftUnder q newId sessions (visited ++ [id]) id' s') := by
  by_cases heq : id' = id
  · subst heq
    rw [hget] at hget'
    cases hget'
    exact hself
  · rw [hothers id' heq s' hget', leftUnder_concat fun h => absurd h heq]
    exact hat.old id' s' hget'

/-- The new id is in the map: the session stays under the old one. -/
theorem CheckedAt.concat_of_taken (hat : CheckedAt q newId sessions visited st)
    (hget : sessions[id]? = some s) (hdisc : s.disconnected = true)
    (htaken : sessions.contains (newId s.peer) = true) :
    CheckedAt q newId sessions (visited ++ [id])
      { clientPeerSessions := st.clientPeerSessions.insert id (some (s.connect q newId))
        removePeerSess := st.removePeerSess ++ [id] } := by
  refine ⟨hat.old_concat hget ?_ ?_, fun id' hget₁ v => ?_, hat.removed_concat hget hdisc⟩
  · rw [leftUnder, if_pos ⟨by simp, hdisc⟩, if_pos htaken]
    exact ExtTreeMap.getElem?_insert_self
  · intro id' hne s' _
    rw [ExtTreeMap.getElem?_insert_ite, if_neg hne]
  · dsimp only
    have hne : id' ≠ id := by
      rintro rfl
      rw [hget] at hget₁
      cases hget₁
    have hne' : id' ≠ newId s.peer := by
      rintro rfl
      rw [ExtTreeMap.contains_eq_false_iff.mpr hget₁] at htaken
      cases htaken
    rw [ExtTreeMap.getElem?_insert_ite, if_neg hne, hat.new id' hget₁ v]
    exact exists_congr fun s₁ => and_congr_left fun _ => (moved_concat_of_ne hget hne').symm

/-- The new id is free: the session is put there, and a null pointer stays. -/
theorem CheckedAt.concat_of_free (hat : CheckedAt q newId sessions visited st)
    (hget : sessions[id]? = some s) (hdisc : s.disconnected = true)
    (hold : sessions[newId s.peer]? = none)
    (hfree : st.clientPeerSessions[newId s.peer]? = none) :
    CheckedAt q newId sessions (visited ++ [id])
      { clientPeerSessions := (st.clientPeerSessions.insert id none).insert (newId s.peer)
          (some (s.connect q newId))
        removePeerSess := st.removePeerSess ++ [id] } := by
  have hnot : ¬sessions.contains (newId s.peer) = true :=
    Bool.eq_false_iff.mp (ExtTreeMap.contains_eq_false_iff.mpr hold)
  have hne_newId : ∀ id' s', sessions[id']? = some s' → id' ≠ newId s.peer := by
    rintro _ s' hget' rfl
    rw [hold] at hget'
    cases hget'
  refine ⟨hat.old_concat hget ?_ ?_, fun id' hget₁ v => ?_, hat.removed_concat hget hdisc⟩
  · rw [leftUnder, if_pos ⟨by simp, hdisc⟩, if_neg hnot, ExtTreeMap.getElem?_insert_ite,
      if_neg (hne_newId id s hget)]
    exact ExtTreeMap.getElem?_insert_self
  · intro id' hne s' hget'
    rw [ExtTreeMap.getElem?_insert_ite, if_neg (hne_newId id' s' hget'),
      ExtTreeMap.getElem?_insert_ite, if_neg hne]
  · dsimp only
    have hne : id' ≠ id := by
      rintro rfl
      rw [hget] at hget₁
      cases hget₁
    rw [ExtTreeMap.getElem?_insert_ite]
    split
    · rename_i heq
      subst heq
      constructor
      · intro hv
        cases hv
        exact ⟨s, moved_concat.mpr (.inr ⟨hget, hdisc, rfl⟩), rfl⟩
      · rintro ⟨s₁, hmoved, rfl⟩
        obtain hmoved | ⟨hgets, -, -⟩ := moved_concat.mp hmoved
        · have hsome := (hat.new _ hold _).mpr ⟨s₁, hmoved, rfl⟩
          rw [hfree] at hsome
          cases hsome
        · rw [hget] at hgets
          cases hgets
          rfl
    · rename_i hne'
      rw [ExtTreeMap.getElem?_insert_ite, if_neg hne, hat.new id' hget₁ v]
      exact exists_congr fun s₁ => and_congr_left fun _ => (moved_concat_of_ne hget hne').symm

/-- A session is connected again. -/
theorem CheckedAt.concat_of_connect (hat : CheckedAt q newId sessions visited st)
    (hdistinct : Distinct newId sessions) (hafter : After compare visited id)
    (hget : sessions[id]? = some s) (hdisc : s.disconnected = true) {removed : List PeerSessionId}
    (hremoved : removed = st.removePeerSess ++ [id]) :
    CheckedAt q newId sessions (visited ++ [id])
      { clientPeerSessions :=
          if st.clientPeerSessions.contains (newId s.peer) then
            st.clientPeerSessions.insert id (some (s.connect q newId))
          else (st.clientPeerSessions.insert id none).insert (newId s.peer)
            (some (s.connect q newId))
        removePeerSess := removed } := by
  subst hremoved
  have hcontains := hat.contains_newId hdistinct hafter hget hdisc
  cases htaken : sessions.contains (newId s.peer) with
  | true =>
    rw [if_pos (hcontains.trans htaken)]
    exact hat.concat_of_taken hget hdisc htaken
  | false =>
    have hfree := hcontains.trans htaken
    rw [if_neg (Bool.eq_false_iff.mp hfree)]
    exact hat.concat_of_free hget hdisc (ExtTreeMap.contains_eq_false_iff.mp htaken)
      (ExtTreeMap.contains_eq_false_iff.mp hfree)

/-- The loop comes to an id. -/
theorem CheckedAt.concat (hstored : Stored sessions) (hdistinct : Distinct newId sessions)
    (hat : CheckedAt q newId sessions visited st)
    (hnext : nextKey st.clientPeerSessions visited = some id) :
    ∃ st', checkSession q newId st id = some st' ∧
      st'.clientPeerSessions.contains id = true ∧
        CheckedAt q newId sessions (visited ++ [id]) st' := by
  obtain ⟨hcontains, hafter, -⟩ := nextKey_eq_some hnext
  cases hget : sessions[id]? with
  | some s =>
    have hhere : st.clientPeerSessions[id]? = some (some s) := by
      rw [hat.old id s hget, leftUnder, if_neg fun h => hafter.not_mem h.1]
    unfold checkSession
    rw [hhere]
    dsimp only
    cases hdisc : s.disconnected with
    | false =>
      rw [if_neg (by decide)]
      refine ⟨st, rfl, hcontains, hat.concat_of_kept fun s' hget' => ?_⟩
      rw [hget] at hget'
      cases hget'
      exact hdisc
    | true =>
      have hid : (s.connect q newId).sessionId = newId s.peer := by
        rw [ClientSession.connect, hstored.outbound id s hget]
        rfl
      rw [if_pos rfl, hid]
      have hat' := hat.concat_of_connect hdistinct hafter hget hdisc rfl
      exact ⟨_, rfl, ExtTreeMap.contains_iff_getElem?.mpr ⟨_, hat'.old id s hget⟩, hat'⟩
  | none =>
    obtain ⟨v, hv⟩ := ExtTreeMap.contains_iff_getElem?.mp hcontains
    obtain ⟨s, ⟨old, -, hold, -⟩, rfl⟩ := (hat.new id hget v).mp hv
    have hconnecting : (s.connect q newId).disconnected = false := by
      unfold ClientSession.disconnected ClientSession.connect PeerSession.connect
      rw [hstored.outbound old s hold]
      rfl
    unfold checkSession
    rw [hv]
    dsimp only
    rw [hconnecting, if_neg (by decide)]
    refine ⟨st, rfl, hcontains, hat.concat_of_kept fun s' hget' => ?_⟩
    rw [hget] at hget'
    cases hget'

/-- The ids that the loop can come to. -/
def allIds (newId : ℕ → PeerSessionId) (sessions : ExtTreeMap PeerSessionId ClientSession) :
    List PeerSessionId :=
  sessions.keys ++ sessions.toList.map fun e => newId e.2.peer

theorem CheckedAt.mem_allIds (hat : CheckedAt q newId sessions visited st)
    (hcontains : st.clientPeerSessions.contains id = true) : id ∈ allIds newId sessions := by
  rw [allIds, List.mem_append]
  cases hget : sessions[id]? with
  | some s =>
    left
    rw [ExtTreeMap.mem_keys, ExtTreeMap.mem_iff_contains]
    exact ExtTreeMap.contains_iff_getElem?.mpr ⟨s, hget⟩
  | none =>
    right
    obtain ⟨v, hv⟩ := ExtTreeMap.contains_iff_getElem?.mp hcontains
    obtain ⟨s, ⟨old, -, hold, -, hid⟩, -⟩ := (hat.new id hget v).mp hv
    exact List.mem_map.mpr ⟨(old, s), ExtTreeMap.mem_toList_iff_getElem?_eq_some.mpr hold, hid⟩

/-- The pass comes to its end. -/
theorem exists_checkSessions (hstored : Stored sessions) (hdistinct : Distinct newId sessions) :
    ∃ fuel after, checkSessions q newId fuel (pointers sessions) = some after := by
  have hloop : ∃ visited st, sweep CheckState.clientPeerSessions (checkSession q newId)
      ((allIds newId sessions).length + 1) [] { clientPeerSessions := pointers sessions } =
        some (visited, st) := by
    refine exists_sweep (I := CheckedAt q newId sessions) _ checkedAt_nil ?_
    intro visited st id hat hnext
    exact ⟨hat.mem_allIds (nextKey_eq_some hnext).1, hat.concat hstored hdistinct hnext⟩
  obtain ⟨visited, st, hloop⟩ := hloop
  exact ⟨_, _, by rw [checkSessions, hloop, Option.map_some]⟩

/-- What is in the map after the pass: the sessions that were not disconnected, and those that were
under their new ids, where no session was before. -/
theorem getElem?_after (hstored : Stored sessions) (hdistinct : Distinct newId sessions) {fuel : ℕ}
    {after : ExtTreeMap PeerSessionId (Option ClientSession)}
    (hpass : checkSessions q newId fuel (pointers sessions) = some after) (id : PeerSessionId)
    (v : Option ClientSession) : after[id]? = some v ↔
      (∃ s, sessions[id]? = some s ∧ s.disconnected = false ∧ v = some s) ∨
      sessions[id]? = none ∧ ∃ (old : PeerSessionId) (s : ClientSession),
        sessions[old]? = some s ∧ s.disconnected = true ∧ newId s.peer = id ∧
          v = some (s.connect q newId) := by
  obtain ⟨⟨visited, st⟩, hloop, rfl⟩ := Option.map_eq_some_iff.mp hpass
  have hkeeps : Keeps CheckState.clientPeerSessions (checkSession q newId)
      (CheckedAt q newId sessions) := by
    intro visited st id st' hat hnext hbody _
    obtain ⟨st₁, hst₁, -, hat'⟩ := hat.concat hstored hdistinct hnext
    rw [hbody] at hst₁
    cases hst₁
    exact hat'
  have hat := (sweep_inv hkeeps checkedAt_nil hloop).1
  have hvisited : ∀ (old : PeerSessionId) s, sessions[old]? = some s → old ∈ visited := by
    intro old s hget
    refine mem_visited hkeeps checkedAt_nil (fun visited st hat _ => ?_) hloop
    exact ExtTreeMap.contains_iff_getElem?.mpr ⟨_, hat.old old s hget⟩
  dsimp only
  rw [ExtTreeMap.getElem?_foldl_erase]
  cases hget : sessions[id]? with
  | some s =>
    have hold := hat.old id s hget
    cases hdisc : s.disconnected with
    | false =>
      have hstays : ¬id ∈ st.removePeerSess := by
        rw [hat.removed]
        rintro ⟨-, s', hget', hdisc'⟩
        rw [hget] at hget'
        cases hget'
        rw [hdisc] at hdisc'
        cases hdisc'
      rw [if_neg hstays, hold, leftUnder, if_neg (by simp [hdisc])]
      constructor
      · intro hv
        cases hv
        exact .inl ⟨s, rfl, hdisc, rfl⟩
      · rintro (⟨s', hs', -, rfl⟩ | ⟨hnone, -⟩)
        · cases hs'
          rfl
        · cases hnone
    | true =>
      rw [if_pos ((hat.removed id).mpr ⟨hvisited id s hget, s, hget, hdisc⟩)]
      simp [hdisc]
  | none =>
    have hstays : ¬id ∈ st.removePeerSess := by
      rw [hat.removed]
      rintro ⟨-, s', hget', -⟩
      rw [hget] at hget'
      cases hget'
    rw [if_neg hstays, hat.new id hget v]
    constructor
    · rintro ⟨s, ⟨old, -, hold, hdisc, hid⟩, rfl⟩
      exact .inr ⟨rfl, old, s, hold, hdisc, hid, rfl⟩
    · rintro (⟨s, hs, -⟩ | ⟨-, old, s, hold, hdisc, hid, rfl⟩)
      · cases hs
      · exact ⟨s, ⟨old, hvisited old s hold, hold, hdisc, hid⟩, rfl⟩

/-- A new id under which there was no session before the pass. -/
theorem NewIds.free (hdistinct : Distinct newId sessions) (hnew : NewIds newId sessions)
    (hget : sessions[id]? = some s) (hdisc : s.disconnected = true) :
    sessions[newId s.peer]? = none := by
  refine Option.eq_none_iff_forall_ne_some.mpr fun s' hget' => ?_
  by_cases hearlier : s'.disconnected = true ∧ newId s.peer ≤ id
  · exact hnew id s _ s' hget hget' hdisc hearlier.1 hearlier.2 rfl
  · have hne : id ≠ newId s.peer := by
      intro heq
      refine hearlier ⟨?_, UInt64.le_of_eq heq.symm⟩
      rw [← heq, hget] at hget'
      cases hget'
      exact hdisc
    refine hdistinct id s _ s' hget hget' hne hdisc ?_
    rw [if_neg fun h => hearlier ⟨h.1, UInt64.le_of_lt h.2⟩]

/-- Where the session with a peer can be after the pass. -/
theorem place_of_peer (hstored : Stored sessions) (hdistinct : Distinct newId sessions) {fuel : ℕ}
    {after : ExtTreeMap PeerSessionId (Option ClientSession)}
    (hpass : checkSessions q newId fuel (pointers sessions) = some after)
    (hget : sessions[id]? = some s) {place : PeerSessionId} {found : ClientSession}
    (hfound : after[place]? = some (some found)) (hpeer : found.peer = s.peer) :
    s.disconnected = false ∧ place = id ∨
      s.disconnected = true ∧ sessions[newId s.peer]? = none ∧ place = newId s.peer := by
  obtain ⟨s₁, hs₁, hconnected, hsame⟩ | ⟨hnone, old, s₁, hs₁, hdisc, hid, hsame⟩ :=
    (getElem?_after hstored hdistinct hpass place (some found)).mp hfound
  · cases hsame
    have hplace := hstored.distinct place found id s hs₁ hget hpeer
    rw [hplace, hget] at hs₁
    cases hs₁
    exact .inl ⟨hconnected, hplace⟩
  · cases hsame
    have hold := hstored.distinct old s₁ id s hs₁ hget hpeer
    rw [hold, hget] at hs₁
    cases hs₁
    rw [← hid] at hnone
    exact .inr ⟨hdisc, hnone, hid.symm⟩

end Pass

/-- One pass over the sessions keeps every one of them when no session that is connected again gets
its own id or one that an earlier of them had. -/
theorem keepsPeers_iff (q : Quicr) {newId : ℕ → PeerSessionId}
    {sessions : ExtTreeMap PeerSessionId ClientSession} (hstored : Stored sessions)
    (hdistinct : Distinct newId sessions) :
    ∃ fuel after, checkSessions q newId fuel (pointers sessions) = some after ∧
      (KeepsPeers sessions after ↔ NewIds newId sessions) := by
  obtain ⟨fuel, after, hpass⟩ := exists_checkSessions hstored hdistinct (q := q)
  have hafter := getElem?_after hstored hdistinct hpass
  refine ⟨fuel, after, hpass, fun h id s id' s' hget hget' hdisc _ _ heq => ?_, fun hnew => ?_⟩
  · -- The session that got an id from before is nowhere.
    obtain ⟨place, ⟨found, hfound, hpeer⟩, -⟩ := h.once id s hget
    obtain ⟨hconnected, -⟩ | ⟨-, hnone, -⟩ :=
      place_of_peer hstored hdistinct hpass hget hfound hpeer
    · rw [hdisc] at hconnected
      cases hconnected
    · rw [heq, hget'] at hnone
      cases hnone
  · refine ⟨fun id hnull => ?_, fun id s hs => ?_, fun id s hget => ?_⟩
    · obtain ⟨s, -, -, hsame⟩ | ⟨-, old, s, -, -, -, hsame⟩ := (hafter id none).mp hnull
      · cases hsame
      · cases hsame
    · obtain ⟨s₁, hs₁, -, hsame⟩ | ⟨-, old, s₁, hs₁, -, hid, hsame⟩ := (hafter id (some s)).mp hs
      · cases hsame
        exact hstored.current id s hs₁
      · cases hsame
        rw [ClientSession.connect, hstored.outbound old s₁ hs₁]
        exact hid
    · cases hdisc : s.disconnected with
      | false =>
        refine ⟨id, ⟨s, (hafter id (some s)).mpr (.inl ⟨s, hget, hdisc, rfl⟩), rfl⟩, ?_⟩
        rintro place ⟨found, hfound, hpeer⟩
        obtain ⟨-, hplace⟩ | ⟨hdisc', -⟩ :=
          place_of_peer hstored hdistinct hpass hget hfound hpeer
        · exact hplace
        · cases hdisc.symm.trans hdisc'
      | true =>
        have hfree := hnew.free hdistinct hget hdisc
        refine ⟨newId s.peer, ⟨s.connect q newId, ?_, rfl⟩, ?_⟩
        · exact (hafter _ _).mpr (.inr ⟨hfree, id, s, hget, hdisc, rfl, rfl⟩)
        · rintro place ⟨found, hfound, hpeer⟩
          obtain ⟨hconnected, -⟩ | ⟨-, -, hplace⟩ :=
            place_of_peer hstored hdistinct hpass hget hfound hpeer
          · cases hconnected.symm.trans hdisc
          · exact hplace

/-- The session with a peer. -/
def sessionWith (peer : ℕ) (id : PeerSessionId) (status : StatusValue) : ClientSession :=
  ⟨peer, id, { nodeId := 7, status }⟩

/-- Two peers whose sessions have ended, and one whose session has not. -/
def threePeers : ExtTreeMap PeerSessionId ClientSession :=
  (((∅ : ExtTreeMap PeerSessionId ClientSession).insert 3 (sessionWith 0 3 .disconnected)).insert 5
    (sessionWith 1 5 .connected)).insert 8 (sessionWith 2 8 .disconnected)

theorem mem_threePeers {id : PeerSessionId} {s : ClientSession} (h : threePeers[id]? = some s) :
    (id, s) ∈ threePeers.toList := ExtTreeMap.mem_toList_iff_getElem?_eq_some.mpr h

theorem stored_threePeers : Stored threePeers := by
  have hall : ∀ e ∈ threePeers.toList, e.2.sessionId = e.1 ∧ e.2.session.isInbound = false := by
    decide +kernel
  have hdistinct : ∀ e ∈ threePeers.toList, ∀ e' ∈ threePeers.toList,
      e.2.peer = e'.2.peer → e.1 = e'.1 := by decide +kernel
  exact ⟨fun id s h => (hall _ (mem_threePeers h)).1, fun id s h => (hall _ (mem_threePeers h)).2,
    fun id s id' s' h h' => hdistinct _ (mem_threePeers h) _ (mem_threePeers h')⟩

/-- New ids for the first peer, and for the others. -/
def idsOf (first others : PeerSessionId) (peer : ℕ) : PeerSessionId :=
  if peer = 0 then first else others

theorem distinct_threePeers {first others : PeerSessionId}
    (h : ∀ e ∈ threePeers.toList, ∀ e' ∈ threePeers.toList, e.1 ≠ e'.1 →
      e.2.disconnected = true → idsOf first others e.2.peer ≠
        if e'.2.disconnected = true ∧ e'.1 < e.1 then idsOf first others e'.2.peer else e'.1) :
    Distinct (idsOf first others) threePeers :=
  fun _ _ _ _ hget hget' => h _ (mem_threePeers hget) _ (mem_threePeers hget')

/-- The first session moves behind the one that is not disconnected. -/
theorem keepsPeers_threePeers :
    ∃ fuel after, checkSessions .polynomial (idsOf 9 4) fuel (pointers threePeers) = some after ∧
      KeepsPeers threePeers after := by
  have hnew : ∀ e ∈ threePeers.toList, ∀ e' ∈ threePeers.toList, e.2.disconnected = true →
      e'.2.disconnected = true → e'.1 ≤ e.1 → idsOf 9 4 e.2.peer ≠ e'.1 := by decide +kernel
  have hdistinct : Distinct (idsOf 9 4) threePeers := distinct_threePeers (by decide +kernel)
  obtain ⟨fuel, after, hpass, hiff⟩ := keepsPeers_iff .polynomial stored_threePeers hdistinct
  exact ⟨fuel, after, hpass, hiff.mpr fun _ _ _ _ hget hget' =>
    hnew _ (mem_threePeers hget) _ (mem_threePeers hget')⟩

/-- The first session gets the id that it had, or the last one that of the first: the one is erased
with its own entry, and the other with that of the first. -/
theorem not_keepsPeers : Stored threePeers ∧
    (Distinct (idsOf 3 9) threePeers ∧ ∃ after,
      checkSessions .polynomial (idsOf 3 9) 9 (pointers threePeers) = some after ∧
        ¬KeepsPeers threePeers after) ∧
    Distinct (idsOf 9 3) threePeers ∧ ∃ after,
      checkSessions .polynomial (idsOf 9 3) 9 (pointers threePeers) = some after ∧
        ¬KeepsPeers threePeers after := by
  have hlost : ∀ {peer : ℕ} {id : PeerSessionId} {s : ClientSession}
      {after : ExtTreeMap PeerSessionId (Option ClientSession)}, threePeers[id]? = some s →
      s.peer = peer → (after.anyEntry fun _ v => v.any fun s => s.peer = peer) = false →
        ¬KeepsPeers threePeers after := by
    rintro peer id s after hget rfl hnone h
    obtain ⟨place, ⟨found, hfound, hpeer⟩, -⟩ := h.once id s hget
    refine Bool.eq_false_iff.mp hnone (ExtTreeMap.anyEntry_iff.mpr ⟨place, _, hfound, ?_⟩)
    simp [hpeer]
  refine ⟨stored_threePeers, ⟨distinct_threePeers (by decide +kernel), ?_⟩,
    distinct_threePeers (by decide +kernel), ?_⟩
  · have hfirst : ((checkSessions .polynomial (idsOf 3 9) 9 (pointers threePeers)).map fun after =>
        after.anyEntry fun _ v => v.any fun s => s.peer = 0) = some false := by decide +kernel
    obtain ⟨after, hafter, hnone⟩ := Option.map_eq_some_iff.mp hfirst
    exact ⟨after, hafter, hlost (by decide +kernel : threePeers[(3 : PeerSessionId)]? =
      some (sessionWith 0 3 .disconnected)) rfl hnone⟩
  · have hlast : ((checkSessions .polynomial (idsOf 9 3) 9 (pointers threePeers)).map fun after =>
        after.anyEntry fun _ v => v.any fun s => s.peer = 2) = some false := by decide +kernel
    obtain ⟨after, hafter, hnone⟩ := Option.map_eq_some_iff.mp hlast
    exact ⟨after, hafter, hlost (by decide +kernel : threePeers[(8 : PeerSessionId)]? =
      some (sessionWith 2 8 .disconnected)) rfl hnone⟩

end Laps.Peering
