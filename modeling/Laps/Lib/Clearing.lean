import Laps.Lib.Framing

/-! Frames in a stream that arrives in chunks, when a frame that cannot be read takes all of the
buffer with it. -/

namespace Framing

variable {α β γ : Type*}

/-- What a pull does with frames some of which raise: the buffer stays when it is shorter than a
header or has a part of a frame, unless that faults; a frame that does not raise comes out, and one
that does clears the buffer. -/
structure Clears (pull : List β → Option (List β × List γ)) (enc : α → List β) (give : α → List γ)
    (raises : α → Prop) (bad : α → ℕ → Prop) (least : ℕ) (frames : List α) : Prop where
  positive : 0 < least
  short : ∀ buffer, buffer.length < least → pull buffer = some (buffer, [])
  header : ∀ a ∈ frames, least ≤ (enc a).length
  whole : ∀ a ∈ frames, ¬raises a → ∀ rest, pull (enc a ++ rest) = some (rest, give a)
  raised : ∀ a ∈ frames, raises a → give a = [] ∧ ∀ rest, pull (enc a ++ rest) = some ([], [])
  part : ∀ a ∈ frames, ∀ buffer, buffer <+: enc a → buffer.length < (enc a).length →
    ¬bad a buffer.length → pull buffer = some (buffer, [])
  fault : ∀ a ∈ frames, ∀ buffer, buffer <+: enc a → buffer.length < (enc a).length →
    bad a buffer.length → pull buffer = none

section

variable (pull : List β → Option (List β × List γ)) (enc : α → List β) (least : ℕ)
variable (frames : List α)

/-- What is read as a header with the chunk is where a frame starts. -/
def HeaderAt (front : List (List β)) (c : List β) : Prop :=
  ∀ buffer out, feeds pull front = some (buffer, out) → least ≤ (buffer ++ c).length →
    ∃ done, done <+: frames ∧ done.flatMap enc ++ (buffer ++ c) = (front ++ [c]).flatten

/-- The headers that are read with some chunks after others. -/
def HeadersAt (front chunks : List (List β)) : Prop :=
  ∀ front' c back, chunks = front' ++ c :: back →
    HeaderAt pull enc least frames (front ++ front') c

end

section

variable (enc : α → List β) (give : α → List γ) (raises : α → Prop) [DecidablePred raises]
variable (bad : α → ℕ → Prop) (least : ℕ)

/-- Nothing that gives anything is lost, by the frames that are left, how much of them the buffer
has, and the chunks.  A chunk takes one frame, and with one that raises the whole frames behind it,
which have to give nothing.  Such a chunk ends inside a frame only where what comes after is too
short for a header and gives nothing. -/
def Spared : List α → ℕ → List (List β) → Prop
  | frames, _, [] => ∀ a ∈ frames, give a = []
  | [], _, _ :: _ => True
  | a :: frames, n, c :: chunks =>
    let here := n + c.length
    let after := here - (enc a).length
    let lost := finished (lengths enc frames) after
    if here < (enc a).length then ¬bad a here ∧ Spared (a :: frames) here chunks
    else if ¬raises a then Spared frames after chunks
    else (∀ b ∈ frames.take lost, give b = []) ∧
      if after = (lengths enc (frames.take lost)).sum then Spared (frames.drop lost) 0 chunks
      else chunks.flatten.length < least ∧ ∀ b ∈ frames.drop lost, give b = []

end

instance Spared.decidable (enc : α → List β) (give : α → List γ) (raises : α → Prop)
    [DecidablePred raises] (bad : α → ℕ → Prop) (least : ℕ) [∀ a, Decidable (give a = [])]
    [∀ a n, Decidable (bad a n)] :
    ∀ frames n chunks, Decidable (Spared enc give raises bad least frames n chunks)
  | frames, _, [] => inferInstanceAs (Decidable (∀ a ∈ frames, give a = []))
  | [], _, _ :: _ => isTrue trivial
  | _ :: frames, _, _ :: chunks =>
    have (frames' : List α) (n' : ℕ) := decidable enc give raises bad least frames' n' chunks
    inferInstanceAs (Decidable (ite _ (_ ∧ _) (ite _ (Spared _ _ _ _ _ frames _ _)
      (_ ∧ ite _ (Spared _ _ _ _ _ (frames.drop _) 0 _) (_ ∧ _)))))

/-! ### Where a buffer ends -/

section Ends

variable {enc : α → List β}

/-- A buffer that starts with a frame has a part of it, or all of it. -/
theorem prefix_cases {a : α} {later : List α} {buffer : List β}
    (h : buffer <+: (a :: later).flatMap enc) :
    (buffer.length < (enc a).length ∧ buffer <+: enc a) ∨
      ∃ rest, buffer = enc a ++ rest ∧ rest <+: later.flatMap enc := by
  rw [List.flatMap_cons] at h
  by_cases hle : (enc a).length ≤ buffer.length
  · obtain ⟨rest, rfl⟩ := List.prefix_of_prefix_length_le (List.prefix_append _ _) h hle
    exact .inr ⟨rest, rfl, (List.prefix_append_right_inj _).mp h⟩
  · exact .inl ⟨by omega, List.prefix_of_prefix_length_le h (List.prefix_append _ _) (by omega)⟩

/-- The whole frames of a buffer, and the part of one after them. -/
theorem exists_part (later : List α) {rest : List β} (h : rest <+: later.flatMap enc) :
    ∃ part, rest =
        (later.take (finished (lengths enc later) rest.length)).flatMap enc ++ part ∧
      (part = [] ∨ ∃ g more, later.drop (finished (lengths enc later) rest.length) = g :: more ∧
        part.length < (enc g).length) := by
  induction later generalizing rest with
  | nil => exact ⟨[], List.prefix_nil.mp h, .inl rfl⟩
  | cons a later ih =>
    obtain ⟨hlt, -⟩ | ⟨rest, rfl, hrest⟩ := prefix_cases h
    · have hnone : finished (lengths enc (a :: later)) rest.length = 0 :=
        if_neg (Nat.not_le_of_lt hlt)
      rw [hnone]
      exact ⟨rest, rfl, .inr ⟨a, later, rfl, hlt⟩⟩
    · have hone : finished (lengths enc (a :: later)) (enc a ++ rest).length =
          finished (lengths enc later) rest.length + 1 := by
        have hsum := finished_append [(enc a).length] (lengths enc later) rest.length
        rw [List.sum_singleton, List.length_singleton, Nat.add_comm 1] at hsum
        rw [List.length_append, ← hsum]
        rfl
      obtain ⟨part, hpart, hend⟩ := ih hrest
      rw [hone]
      refine ⟨part, ?_, hend⟩
      rw [List.take_succ_cons, List.flatMap_cons, List.append_assoc, ← hpart]

/-- No frame starts inside another one. -/
theorem not_start_inside {done more : List α} {g : α} {part : List β} (hpos : part ≠ [])
    (hlt : part.length < (enc g).length) {done' : List α} (hdone : done' <+: done ++ g :: more) :
    done'.flatMap enc ≠ done.flatMap enc ++ part := by
  intro heq
  have hlength := congrArg List.length heq
  have hpart := List.length_pos_iff.mpr hpos
  rw [List.length_append] at hlength
  by_cases hle : done'.length ≤ done.length
  · obtain ⟨tail, rfl⟩ := List.prefix_of_prefix_length_le hdone (List.prefix_append _ _) hle
    rw [List.flatMap_append, List.length_append] at hlength
    omega
  · have hlong : (done ++ [g]).length ≤ done'.length := by
      rw [List.length_append, List.length_singleton]
      omega
    have hnext : done ++ [g] <+: done ++ g :: more := ⟨more, by simp⟩
    obtain ⟨tail, rfl⟩ := List.prefix_of_prefix_length_le hnext hdone hlong
    rw [List.flatMap_append, List.flatMap_append, List.flatMap_singleton, List.length_append,
      List.length_append] at hlength
    omega

end Ends

/-! ### Runs -/

section Runs

variable {pull : List β → Option (List β × List γ)} {enc : α → List β} {give : α → List γ}
variable {raises : α → Prop} {bad : α → ℕ → Prop} {least : ℕ} {frames : List α}
variable {front chunks : List (List β)} {c buffer : List β} {out : List γ}

/-- A chunk after a run. -/
theorem feeds_snoc_of_pull {buffer' : List β} {given : List γ}
    (h : feeds pull front = some (buffer, out)) (hpull : pull (buffer ++ c) = some (buffer', given)) :
    feeds pull (front ++ [c]) = some (buffer', out ++ given) := by
  rw [feeds_snoc, h, Option.bind_some, feed, hpull]
  rfl

/-- No chunk after a fault. -/
theorem feeds_append_none (h : feeds pull front = none) (chunks : List (List β)) :
    feeds pull (front ++ chunks) = none := by
  rw [feeds, List.foldlM_append]
  rw [feeds] at h
  rw [h]
  rfl

theorem headersAt_cons :
    HeadersAt pull enc least frames front (c :: chunks) ↔
      HeaderAt pull enc least frames front c ∧
        HeadersAt pull enc least frames (front ++ [c]) chunks := by
  constructor
  · intro h
    constructor
    · have hfirst := h [] c chunks rfl
      rwa [List.append_nil] at hfirst
    · intro front' c' back heq
      have hlater := h (c :: front') c' back (by rw [heq]; rfl)
      rwa [List.append_cons] at hlater
  · rintro ⟨hfirst, hlater⟩ front' c' back heq
    cases front' with
    | nil =>
      cases heq
      rwa [List.append_nil]
    | cons c₀ front' =>
      cases heq
      have hnext := hlater front' c' back rfl
      rwa [← List.append_cons] at hnext

/-- Chunks that are too short for a header stay in the buffer. -/
theorem Clears.feeds_short (h : Clears pull enc give raises bad least frames)
    (hrun : feeds pull front = some (buffer, out))
    (hshort : (buffer ++ chunks.flatten).length < least) :
    feeds pull (front ++ chunks) = some (buffer ++ chunks.flatten, out) ∧
      HeadersAt pull enc least frames front chunks := by
  induction chunks generalizing front buffer with
  | nil =>
    rw [List.append_nil, List.flatten_nil, List.append_nil]
    exact ⟨hrun, fun front' c back heq => by simp at heq⟩
  | cons c chunks ih =>
    rw [List.flatten_cons, ← List.append_assoc] at hshort ⊢
    have hfirst : (buffer ++ c).length < least := by
      rw [List.length_append] at hshort
      omega
    have hnext := feeds_snoc_of_pull hrun (h.short _ hfirst)
    rw [List.append_nil] at hnext
    obtain ⟨hend, hheaders⟩ := ih hnext hshort
    rw [List.append_cons]
    refine ⟨hend, headersAt_cons.mpr ⟨?_, hheaders⟩⟩
    intro buffer' out' hrun' hle
    rw [hrun] at hrun'
    cases hrun'
    omega

/-- The first chunk with which there is enough for a header. -/
theorem exists_first_header (hpos : 0 < least) (hlong : least ≤ chunks.flatten.length) :
    ∃ front' c back, chunks = front' ++ c :: back ∧ front'.flatten.length < least ∧
      least ≤ (front'.flatten ++ c).length := by
  induction chunks using List.reverseRecOn with
  | nil =>
    rw [List.flatten_nil, List.length_nil] at hlong
    omega
  | append_singleton chunks c ih =>
    by_cases hle : least ≤ chunks.flatten.length
    · obtain ⟨front', c', back, rfl, hlt, hfull⟩ := ih hle
      exact ⟨front', c', back ++ [c], by simp, hlt, hfull⟩
    · refine ⟨chunks, c, [], rfl, by omega, ?_⟩
      simpa using hlong

/-- After some chunks the buffer starts where the frames that are left do. -/
structure Placed (pull : List β → Option (List β × List γ)) (enc : α → List β) (frames : List α)
    (front : List (List β)) (done left : List α) (buffer : List β) (out : List γ) : Prop where
  run : feeds pull front = some (buffer, out)
  split : frames = done ++ left
  place : done.flatMap enc ++ buffer = front.flatten

/-- After some chunks the buffer is empty, and the stream is inside a frame. -/
structure Astray (pull : List β → Option (List β × List γ)) (enc : α → List β) (frames : List α)
    (front : List (List β)) (out : List γ) : Prop where
  run : feeds pull front = some ([], out)
  astray : ∀ done, done <+: frames → done.flatMap enc ≠ front.flatten

variable {done left : List α}

theorem Placed.nil : Placed pull enc frames [] [] frames [] [] := ⟨rfl, rfl, rfl⟩

/-- What the stream still brings. -/
theorem Placed.rest (h : Placed pull enc frames front done left buffer out)
    (hstream : (front ++ chunks).flatten = frames.flatMap enc) :
    buffer ++ chunks.flatten = left.flatMap enc := by
  rw [List.flatten_append, ← h.place, h.split, List.flatMap_append, List.append_assoc] at hstream
  exact List.append_cancel_left hstream

theorem Placed.headerAt (h : Placed pull enc frames front done left buffer out) (c : List β) :
    HeaderAt pull enc least frames front c := by
  intro buffer' out' hrun _
  rw [h.run] at hrun
  cases hrun
  refine ⟨done, ⟨left, h.split.symm⟩, ?_⟩
  rw [List.flatten_append, ← h.place]
  simp

/-- Inside a frame no header may be read any more. -/
theorem Astray.headersAt_iff (h : Clears pull enc give raises bad least frames)
    (hastray : Astray pull enc frames front out) :
    HeadersAt pull enc least frames front chunks ↔ chunks.flatten.length < least := by
  constructor
  · intro hheaders
    by_contra hle
    have hlong : least ≤ chunks.flatten.length := Nat.le_of_not_lt hle
    obtain ⟨front', c, back, rfl, hlt, hfull⟩ := exists_first_header h.positive hlong
    obtain ⟨hrun, -⟩ := h.feeds_short hastray.run hlt
    obtain ⟨done, hdone, heq⟩ := hheaders front' c back rfl _ _ hrun hfull
    refine hastray.astray done hdone (List.append_cancel_right (heq.trans ?_))
    simp
  · intro hshort
    exact (h.feeds_short hastray.run hshort).2

/-! ### Steps -/

variable [DecidablePred raises]

/-- What a chunk does to the frames that are left, and what that says of `Spared`. -/
inductive Outcome (pull : List β → Option (List β × List γ)) (enc : α → List β)
    (give : α → List γ) (raises : α → Prop) [DecidablePred raises] (bad : α → ℕ → Prop)
    (least : ℕ) (frames : List α) (front : List (List β)) (c : List β) (chunks : List (List β))
    (done left : List α) (n : ℕ) (out : List γ) : Prop
  | fault (run : feeds pull (front ++ [c]) = none)
      (spared : ¬Spared enc give raises bad least left n (c :: chunks))
  | placed (given lost left' : List α) (buffer : List β) (split : left = given ++ lost ++ left')
      (placed : Placed pull enc frames (front ++ [c]) (done ++ (given ++ lost)) left' buffer
        (out ++ given.flatMap give))
      (spared : Spared enc give raises bad least left n (c :: chunks) ↔
        (∀ a ∈ lost, give a = []) ∧ Spared enc give raises bad least left' buffer.length chunks)
  | astray (astray : Astray pull enc frames (front ++ [c]) out)
      (spared : Spared enc give raises bad least left n (c :: chunks) ↔
        (∀ a ∈ left, give a = []) ∧ chunks.flatten.length < least)

section Step

variable {a : α} {later : List α} {rest : List β}

/-- The bytes so far. -/
theorem Placed.flatten_snoc (h : Placed pull enc frames front done left buffer out) (c : List β) :
    (front ++ [c]).flatten = done.flatMap enc ++ (buffer ++ c) := by
  rw [List.flatten_append, ← h.place]
  simp

theorem Placed.mem (h : Placed pull enc frames front done (a :: later) buffer out) :
    a ∈ frames := by
  rw [h.split]
  exact List.mem_append_right _ List.mem_cons_self

theorem Clears.step_part (h : Clears pull enc give raises bad least frames)
    (hplaced : Placed pull enc frames front done (a :: later) buffer out)
    (hpart : buffer ++ c <+: enc a) (hlt : (buffer ++ c).length < (enc a).length) :
    Outcome pull enc give raises bad least frames front c chunks done (a :: later) buffer.length
      out := by
  have hspared : Spared enc give raises bad least (a :: later) buffer.length (c :: chunks) ↔
      ¬bad a (buffer ++ c).length ∧
        Spared enc give raises bad least (a :: later) (buffer ++ c).length chunks := by
    rw [Spared, ← List.length_append, if_pos hlt]
  by_cases hbad : bad a (buffer ++ c).length
  · apply Outcome.fault
    · rw [feeds_snoc, hplaced.run, Option.bind_some, feed, h.fault a hplaced.mem _ hpart hlt hbad]
      rfl
    · intro hspare
      exact (hspared.mp hspare).1 hbad
  · have hrun := feeds_snoc_of_pull hplaced.run (h.part a hplaced.mem _ hpart hlt hbad)
    apply Outcome.placed [] [] (a :: later) (buffer ++ c) rfl
    · refine ⟨hrun, ?_, ?_⟩
      · rw [List.append_nil, List.append_nil]
        exact hplaced.split
      · rw [hplaced.flatten_snoc, List.append_nil, List.append_nil]
    · refine hspared.trans ?_
      constructor
      · intro hspare
        exact ⟨fun b hb => absurd hb List.not_mem_nil, hspare.2⟩
      · intro hboth
        exact ⟨hbad, hboth.2⟩

/-- What is behind a whole frame. -/
theorem spared_whole (hwhole : buffer ++ c = enc a ++ rest) :
    Spared enc give raises bad least (a :: later) buffer.length (c :: chunks) ↔
      if ¬raises a then Spared enc give raises bad least later rest.length chunks
      else (∀ b ∈ later.take (finished (lengths enc later) rest.length), give b = []) ∧
        if rest.length =
            (lengths enc (later.take (finished (lengths enc later) rest.length))).sum then
          Spared enc give raises bad least
            (later.drop (finished (lengths enc later) rest.length)) 0 chunks
        else chunks.flatten.length < least ∧
          ∀ b ∈ later.drop (finished (lengths enc later) rest.length), give b = [] := by
  have hlength := congrArg List.length hwhole
  rw [List.length_append, List.length_append] at hlength
  rw [Spared, hlength, if_neg (by omega), Nat.add_sub_cancel_left]

theorem Clears.step_whole (h : Clears pull enc give raises bad least frames)
    (hplaced : Placed pull enc frames front done (a :: later) buffer out)
    (hwhole : buffer ++ c = enc a ++ rest) (hraises : ¬raises a) :
    Outcome pull enc give raises bad least frames front c chunks done (a :: later) buffer.length
      out := by
  have hrun := feeds_snoc_of_pull hplaced.run (hwhole ▸ h.whole a hplaced.mem hraises rest)
  apply Outcome.placed [a] [] later rest rfl
  · refine ⟨?_, ?_, ?_⟩
    · rw [List.flatMap_singleton]
      exact hrun
    · rw [hplaced.split]
      simp
    · rw [hplaced.flatten_snoc, hwhole]
      simp
  · refine (spared_whole hwhole).trans ?_
    rw [if_pos hraises]
    exact ⟨fun hspare => ⟨nofun, hspare⟩, fun hboth => hboth.2⟩

/-- The buffer is cleared: at the end of a frame, or inside one. -/
theorem Clears.step_raised (h : Clears pull enc give raises bad least frames)
    (hplaced : Placed pull enc frames front done (a :: later) buffer out)
    (hwhole : buffer ++ c = enc a ++ rest) (hrest : rest <+: later.flatMap enc)
    (hraises : raises a) :
    Outcome pull enc give raises bad least frames front c chunks done (a :: later) buffer.length
      out := by
  obtain ⟨hgive, hraised⟩ := h.raised a hplaced.mem hraises
  have hrun := feeds_snoc_of_pull hplaced.run (hwhole ▸ hraised rest)
  rw [List.append_nil] at hrun
  have hspared : Spared enc give raises bad least (a :: later) buffer.length (c :: chunks) ↔ _ :=
    spared_whole hwhole
  rw [if_neg (not_not_intro hraises)] at hspared
  obtain ⟨part, hpart, hend⟩ := exists_part later hrest
  revert hspared hpart hend
  generalize finished (lengths enc later) rest.length = k
  intro hspared hpart hend
  have hsplit : frames = done ++ a :: later.take k ++ later.drop k := by
    rw [List.append_assoc, List.cons_append, List.take_append_drop]
    exact hplaced.split
  have hflatten : (front ++ [c]).flatten = (done ++ a :: later.take k).flatMap enc ++ part := by
    rw [hplaced.flatten_snoc, hwhole, hpart]
    simp
  have hlength : rest.length = (lengths enc (later.take k)).sum + part.length := by
    rw [← length_flatMap_enc, ← List.length_append, ← hpart]
  by_cases hnil : part = []
  · apply Outcome.placed [] (a :: later.take k) (later.drop k) []
    · rw [List.nil_append, List.cons_append, List.take_append_drop]
    · refine ⟨?_, hsplit, ?_⟩
      · rw [List.flatMap_nil, List.append_nil]
        exact hrun
      · rw [hflatten, hnil]
        rfl
    · rw [hnil, List.length_nil, Nat.add_zero] at hlength
      rw [if_pos hlength] at hspared
      rw [hspared, List.forall_mem_cons]
      exact and_congr_left' (and_iff_right hgive).symm
  · obtain ⟨g, more, hdrop, hlt⟩ := hend.resolve_left hnil
    have hpos := List.length_pos_iff.mpr hnil
    apply Outcome.astray
    · refine ⟨hrun, fun done' hdone => ?_⟩
      rw [hsplit, hdrop] at hdone
      rw [hflatten]
      exact not_start_inside hnil hlt hdone
    · rw [if_neg (by omega)] at hspared
      rw [hspared, List.forall_mem_cons, and_iff_right hgive]
      conv_rhs => rw [← List.take_append_drop k later, List.forall_mem_append]
      rw [and_comm (a := _ < _), and_assoc]

/-- What a chunk does. -/
theorem Clears.step (h : Clears pull enc give raises bad least frames)
    (hplaced : Placed pull enc frames front done (a :: later) buffer out)
    (hstream : (front ++ c :: chunks).flatten = frames.flatMap enc) :
    Outcome pull enc give raises bad least frames front c chunks done (a :: later) buffer.length
      out := by
  have hbuffer : buffer ++ c <+: (a :: later).flatMap enc :=
    ⟨chunks.flatten, by rw [← hplaced.rest hstream, List.flatten_cons, List.append_assoc]⟩
  obtain ⟨hlt, hpart⟩ | ⟨rest, hwhole, hrest⟩ := prefix_cases hbuffer
  · exact h.step_part hplaced hpart hlt
  · by_cases hraises : raises a
    · exact h.step_raised hplaced hwhole hrest hraises
    · exact h.step_whole hplaced hwhole hraises

end Step

/-! ### Whole streams -/

/-- The frames that are left give at most what they give one by one. -/
theorem Clears.length_le (h : Clears pull enc give raises bad least frames)
    (hplaced : Placed pull enc frames front done left buffer out)
    (hstream : (front ++ chunks).flatten = frames.flatMap enc)
    (hheaders : HeadersAt pull enc least frames front chunks) {buffer' : List β} {out' : List γ}
    (hrun : feeds pull (front ++ chunks) = some (buffer', out')) :
    out'.length ≤ out.length + (left.flatMap give).length := by
  induction chunks generalizing front done left buffer out with
  | nil =>
    rw [List.append_nil, hplaced.run] at hrun
    cases hrun
    omega
  | cons c chunks ih =>
    cases left with
    | nil =>
      have hshort : (buffer ++ (c :: chunks).flatten).length < least := by
        rw [hplaced.rest hstream]
        exact h.positive
      rw [(h.feeds_short hplaced.run hshort).1] at hrun
      cases hrun
      omega
    | cons a later =>
      have hnext := (headersAt_cons.mp hheaders).2
      have hstep := h.step hplaced hstream
      rw [List.append_cons] at hrun hstream
      cases hstep with
      | fault hnone =>
        rw [feeds_append_none hnone] at hrun
        cases hrun
      | placed given lost left' buffer'' hsplit hplaced' =>
        have hle := ih hplaced' hstream hnext hrun
        rw [hsplit, List.flatMap_append, List.flatMap_append, List.length_append,
          List.length_append]
        rw [List.length_append] at hle
        omega
      | astray hastray =>
        have hshort := (hastray.headersAt_iff h).mp hnext
        rw [(h.feeds_short hastray.run hshort).1] at hrun
        cases hrun
        omega

/-- From a place at the start of a frame, everything that is left comes out and every header is one
exactly when nothing is lost. -/
theorem Clears.feeds_placed_iff (h : Clears pull enc give raises bad least frames)
    (hplaced : Placed pull enc frames front done left buffer out)
    (hstream : (front ++ chunks).flatten = frames.flatMap enc) :
    (∃ buffer', feeds pull (front ++ chunks) = some (buffer', out ++ left.flatMap give)) ∧
        HeadersAt pull enc least frames front chunks ↔
      Spared enc give raises bad least left buffer.length chunks := by
  have hgives : ∀ (out : List γ) (as : List α),
      out = out ++ as.flatMap give ↔ ∀ a ∈ as, give a = [] := by
    intro out as
    rw [List.self_eq_append_right, List.flatMap_eq_nil_iff]
  induction chunks generalizing front done left buffer out with
  | nil =>
    rw [List.append_nil, hplaced.run, Spared, ← hgives]
    constructor
    · rintro ⟨⟨buffer', hrun⟩, -⟩
      exact (Prod.mk.inj (Option.some.inj hrun)).2
    · intro hout
      exact ⟨⟨buffer, by rw [← hout]⟩, fun front' c back heq => by simp at heq⟩
  | cons c chunks ih =>
    cases left with
    | nil =>
      have hshort : (buffer ++ (c :: chunks).flatten).length < least := by
        rw [hplaced.rest hstream]
        exact h.positive
      obtain ⟨hrun, hheaders⟩ := h.feeds_short hplaced.run hshort
      rw [List.flatMap_nil, List.append_nil]
      exact iff_of_true ⟨⟨_, hrun⟩, hheaders⟩ trivial
    | cons a later =>
      have hstep := h.step hplaced hstream
      rw [headersAt_cons, and_iff_right (hplaced.headerAt c)]
      rw [List.append_cons] at hstream ⊢
      cases hstep with
      | fault hnone hspared =>
        refine iff_of_false ?_ hspared
        rintro ⟨⟨buffer', hrun⟩, -⟩
        rw [feeds_append_none hnone] at hrun
        cases hrun
      | placed given lost left' buffer' hsplit hplaced' hspared =>
        have hflat : out ++ (a :: later).flatMap give =
            out ++ given.flatMap give ++ (lost.flatMap give ++ left'.flatMap give) := by
          rw [hsplit, List.flatMap_append, List.flatMap_append]
          simp only [List.append_assoc]
        refine Iff.trans ?_ (hspared.trans (and_congr_right' (ih hplaced' hstream).symm)).symm
        rw [← List.flatMap_eq_nil_iff, hflat]
        constructor
        · rintro ⟨⟨buffer'', hrun⟩, hheaders⟩
          have hle := h.length_le hplaced' hstream hheaders hrun
          simp only [List.length_append] at hle
          have hlost : lost.flatMap give = [] := List.length_eq_zero_iff.mp (by omega)
          rw [hlost, List.nil_append] at hrun
          exact ⟨hlost, ⟨buffer'', hrun⟩, hheaders⟩
        · rintro ⟨hlost, hrun, hheaders⟩
          rw [hlost, List.nil_append]
          exact ⟨hrun, hheaders⟩
      | astray hastray hspared =>
        rw [hspared, hastray.headersAt_iff h, ← hgives]
        refine and_congr_left fun hshort => ?_
        rw [(h.feeds_short hastray.run hshort).1]
        constructor
        · rintro ⟨buffer', hrun⟩
          exact (Prod.mk.inj (Option.some.inj hrun)).2
        · intro hout
          exact ⟨_, by rw [← hout]⟩

/-- Everything comes out and every header is one exactly when nothing is lost. -/
theorem Clears.feeds_iff (h : Clears pull enc give raises bad least frames)
    (hstream : chunks.flatten = frames.flatMap enc) :
    (∃ buffer, feeds pull chunks = some (buffer, frames.flatMap give)) ∧
        HeadersAt pull enc least frames [] chunks ↔
      Spared enc give raises bad least frames 0 chunks :=
  h.feeds_placed_iff .nil hstream

end Runs

end Framing
