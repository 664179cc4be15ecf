import Mathlib.Algebra.GroupWithZero.Nat
import Mathlib.Data.List.Basic
import Mathlib.Data.List.Induction
import Mathlib.Tactic.Common

/-! Frames in a stream that arrives in chunks, when a chunk lets at most one frame out of the
buffer. -/

namespace Framing

/-! ### Counting frames -/

/-- How many frames end within the first `x` bytes, by their lengths. -/
def finished : List ℕ → ℕ → ℕ
  | [], _ => 0
  | l :: ls, x => if l ≤ x then finished ls (x - l) + 1 else 0

theorem finished_le_length (ls : List ℕ) (x : ℕ) : finished ls x ≤ ls.length := by
  induction ls generalizing x with
  | nil => exact Nat.le_refl 0
  | cons l ls ih =>
    unfold finished
    split
    · have := ih (x - l)
      rw [List.length_cons]
      omega
    · omega

theorem finished_append (ls ls' : List ℕ) (x : ℕ) :
    finished (ls ++ ls') (ls.sum + x) = ls.length + finished ls' x := by
  induction ls with
  | nil => simp
  | cons l ls ih =>
    have hsub : (l :: ls).sum + x - l = ls.sum + x := by
      rw [List.sum_cons]
      omega
    rw [List.cons_append, finished, if_pos (by rw [List.sum_cons]; omega), hsub, ih,
      List.length_cons]
    omega

theorem finished_zero {ls : List ℕ} (h : ∀ l ∈ ls, 0 < l) : finished ls 0 = 0 := by
  cases ls with
  | nil => rfl
  | cons l ls =>
    have hpos := h l List.mem_cons_self
    exact if_neg (by omega)

theorem finished_sum (ls : List ℕ) : finished ls ls.sum = ls.length := by
  have h := finished_append ls [] 0
  rw [List.append_nil, Nat.add_zero] at h
  exact h

section

variable {β : Type*} (ls : List ℕ)

/-- A chunk of the stream: the bytes so far, and the frames that are out. -/
def pullStep (acc : ℕ × ℕ) (chunk : List β) : ℕ × ℕ :=
  (acc.1 + chunk.length, min (acc.2 + 1) (finished ls (acc.1 + chunk.length)))

/-- How many frames are out, at one a chunk. -/
def pulled (chunks : List (List β)) : ℕ := (chunks.foldl (pullStep ls) (0, 0)).2

@[simp] theorem pulled_nil : pulled ls ([] : List (List β)) = 0 := rfl

theorem foldl_pullStep_fst (chunks : List (List β)) (acc : ℕ × ℕ) :
    (chunks.foldl (pullStep ls) acc).1 = acc.1 + chunks.flatten.length := by
  induction chunks generalizing acc with
  | nil => rfl
  | cons c chunks ih =>
    rw [List.foldl_cons, ih, pullStep, List.flatten_cons, List.length_append]
    omega

theorem pulled_snoc (chunks : List (List β)) (c : List β) :
    pulled ls (chunks ++ [c]) =
      min (pulled ls chunks + 1) (finished ls (chunks ++ [c]).flatten.length) := by
  have htotal : (chunks.foldl (pullStep ls) (0, 0)).1 + c.length =
      (chunks ++ [c]).flatten.length := by
    rw [foldl_pullStep_fst, List.flatten_append, List.length_append]
    simp
  rw [pulled, List.foldl_append, List.foldl_cons, List.foldl_nil, pullStep, htotal]
  rfl

/-- However many chunks one takes off the end, they end no more frames than they are. -/
def Paced (chunks : List (List β)) : Prop :=
  ∀ front back, chunks = front ++ back →
    ls.length ≤ finished ls front.flatten.length + back.length

variable {ls}

theorem le_pulled_iff (hpos : ∀ l ∈ ls, 0 < l) (chunks : List (List β)) (n : ℕ) :
    n ≤ pulled ls chunks ↔ ∀ front back, chunks = front ++ back →
      n ≤ finished ls front.flatten.length + back.length := by
  induction chunks using List.reverseRecOn generalizing n with
  | nil =>
    rw [pulled_nil]
    constructor
    · intro h front back _
      omega
    · intro h
      have hzero := h [] [] rfl
      rw [List.flatten_nil, List.length_nil, finished_zero hpos] at hzero
      omega
  | append_singleton chunks c ih =>
    rw [pulled_snoc]
    constructor
    · intro h front back heq
      obtain rfl | ⟨back, c', rfl⟩ := List.eq_nil_or_concat' back
      · rw [List.append_nil] at heq
        rw [← heq]
        omega
      · rw [← List.append_assoc] at heq
        obtain ⟨rfl, -⟩ := List.append_inj' heq rfl
        have := (ih (n - 1)).mp (by omega) front back rfl
        rw [List.length_append, List.length_singleton]
        omega
    · intro h
      have hall := h (chunks ++ [c]) [] (by simp)
      have hmost : n - 1 ≤ pulled ls chunks := by
        refine (ih (n - 1)).mpr fun front back heq => ?_
        have := h front (back ++ [c]) (by rw [heq, List.append_assoc])
        rw [List.length_append, List.length_singleton] at this
        omega
      rw [List.length_nil] at hall
      omega

theorem pulled_le_length (ls : List ℕ) (chunks : List (List β)) :
    pulled ls chunks ≤ ls.length := by
  induction chunks using List.reverseRecOn with
  | nil => simp
  | append_singleton chunks c _ =>
    rw [pulled_snoc]
    exact Nat.le_trans (Nat.min_le_right _ _) (finished_le_length _ _)

/-- All frames are out when the chunks are paced. -/
theorem pulled_eq_length_iff (hpos : ∀ l ∈ ls, 0 < l) (chunks : List (List β)) :
    pulled ls chunks = ls.length ↔ Paced ls chunks := by
  rw [Paced, ← le_pulled_iff hpos]
  have := pulled_le_length ls chunks
  omega

end

/-! ### Pulling frames off a buffer -/

section Pull

variable {α β γ : Type*}

/-- A chunk goes to the end of the buffer, and the buffer is pulled once.  `none` when that
faults. -/
def feed (pull : List β → Option (List β × List γ)) (acc : List β × List γ) (chunk : List β) :
    Option (List β × List γ) := do
  let (buffer, out) ← pull (acc.1 ++ chunk)
  pure (buffer, acc.2 ++ out)

def feeds (pull : List β → Option (List β × List γ)) (chunks : List (List β)) :
    Option (List β × List γ) :=
  chunks.foldlM (feed pull) ([], [])

theorem feeds_snoc (pull : List β → Option (List β × List γ)) (front : List (List β))
    (c : List β) : feeds pull (front ++ [c]) = (feeds pull front).bind (feed pull · c) := by
  rw [feeds, List.foldlM_append]
  simp [feeds]

/-- What a pull does with frames that are `enc`oded one after the other: a whole frame at the front
comes out, a part of one stays, or faults. -/
structure Pulls (pull : List β → Option (List β × List γ)) (enc : α → List β) (give : α → γ)
    (bad : α → List β → Prop) (frames : List α) : Prop where
  nil : pull [] = some ([], [])
  nonempty : ∀ a ∈ frames, enc a ≠ []
  whole : ∀ a ∈ frames, ∀ rest, pull (enc a ++ rest) = some (rest, [give a])
  part : ∀ a ∈ frames, ∀ buffer, buffer <+: enc a → buffer.length < (enc a).length →
    ¬bad a buffer → pull buffer = some (buffer, [])
  fault : ∀ a ∈ frames, ∀ buffer, buffer <+: enc a → buffer.length < (enc a).length →
    bad a buffer → pull buffer = none

variable (enc : α → List β) (bad : α → List β → Prop) (frames : List α)

def lengths : List ℕ := frames.map fun a => (enc a).length

/-- The frames that are out after some chunks, at one a chunk. -/
def out (chunks : List (List β)) : List α := frames.take (pulled (lengths enc frames) chunks)

/-- The chunk leaves a bad part of the first frame that is not out. -/
def FaultAt (front : List (List β)) (chunk : List β) : Prop :=
  ∃ a, frames[pulled (lengths enc frames) front]? = some a ∧
    let buffer := (front ++ [chunk]).flatten.drop ((out enc frames front).flatMap enc).length
    buffer.length < (enc a).length ∧ bad a buffer

def NoFault (chunks : List (List β)) : Prop :=
  ∀ front c back, chunks = front ++ c :: back → ¬FaultAt enc bad frames front c

variable {enc bad frames}

theorem length_flatMap_enc (as : List α) : (as.flatMap enc).length = (lengths enc as).sum := by
  rw [List.length_flatMap]
  rfl

theorem noFault_snoc {chunks : List (List β)} {c : List β} :
    NoFault enc bad frames (chunks ++ [c]) ↔
      NoFault enc bad frames chunks ∧ ¬FaultAt enc bad frames chunks c := by
  constructor
  · intro h
    refine ⟨fun front c' back heq => ?_, h chunks c [] rfl⟩
    exact h front c' (back ++ [c]) (by rw [heq]; simp)
  · rintro ⟨hfront, hlast⟩ front c' back heq
    obtain rfl | ⟨back, c'', rfl⟩ := List.eq_nil_or_concat' back
    · obtain ⟨rfl, hc⟩ := List.append_inj' heq rfl
      cases hc
      exact hlast
    · rw [← List.cons_append, ← List.append_assoc] at heq
      obtain ⟨rfl, -⟩ := List.append_inj' heq rfl
      exact hfront front c' back rfl

section Step

variable {front : List (List β)} {c rest : List β}

/-- The bytes so far, by the frames that are out. -/
theorem length_of_rest (hrest : (out enc frames front).flatMap enc ++ rest = front.flatten) :
    (front ++ [c]).flatten.length =
      (lengths enc (out enc frames front)).sum + (rest ++ c).length := by
  rw [List.flatten_append, ← hrest, ← length_flatMap_enc]
  simp

theorem length_out (chunks : List (List β)) :
    (out enc frames chunks).length = pulled (lengths enc frames) chunks := by
  have h := pulled_le_length (lengths enc frames) chunks
  have hlength : (lengths enc frames).length = frames.length := List.length_map _
  rw [out, List.length_take]
  omega

theorem eq_out_append {a : α} (hsome : frames[pulled (lengths enc frames) front]? = some a) :
    frames = out enc frames front ++
      a :: frames.drop (pulled (lengths enc frames) front + 1) := by
  obtain ⟨hlt, rfl⟩ := List.getElem?_eq_some_iff.mp hsome
  rw [out, ← List.drop_eq_getElem_cons hlt, List.take_append_drop]

/-- The frames that have ended, when one is not out yet. -/
theorem finished_of_some {a : α} (hsome : frames[pulled (lengths enc frames) front]? = some a)
    (hrest : (out enc frames front).flatMap enc ++ rest = front.flatten) :
    ∃ later, finished (lengths enc frames) (front ++ [c]).flatten.length =
      pulled (lengths enc frames) front +
        finished ((enc a).length :: later) (rest ++ c).length := by
  refine ⟨lengths enc (frames.drop (pulled (lengths enc frames) front + 1)), ?_⟩
  have hlengths : lengths enc frames = lengths enc (out enc frames front) ++
      (enc a).length :: lengths enc (frames.drop (pulled (lengths enc frames) front + 1)) := by
    conv_lhs => rw [lengths, eq_out_append hsome, List.map_append, List.map_cons]
    rfl
  have hcount : (lengths enc (out enc frames front)).length =
      pulled (lengths enc frames) front := by
    rw [lengths, List.length_map, length_out]
  conv_lhs => rw [length_of_rest hrest, hlengths, finished_append, hcount]

/-- What a chunk does to the buffer. -/
theorem Pulls.step {pull : List β → Option (List β × List γ)} {give : α → γ}
    (h : Pulls pull enc give bad frames)
    (hstream : (front ++ [c]).flatten <+: frames.flatMap enc)
    (hrest : (out enc frames front).flatMap enc ++ rest = front.flatten) :
    (FaultAt enc bad frames front c ∧ pull (rest ++ c) = none) ∨
      ¬FaultAt enc bad frames front c ∧ ∃ rest' given,
        pull (rest ++ c) = some (rest', given.map give) ∧
        out enc frames (front ++ [c]) = out enc frames front ++ given ∧
        (out enc frames (front ++ [c])).flatMap enc ++ rest' = (front ++ [c]).flatten := by
  have hflatten : (front ++ [c]).flatten = (out enc frames front).flatMap enc ++ (rest ++ c) := by
    rw [List.flatten_append, ← hrest]
    simp
  have hdrop : (front ++ [c]).flatten.drop ((out enc frames front).flatMap enc).length =
      rest ++ c := by
    rw [hflatten, List.drop_left]
  rw [hflatten] at hstream
  cases hnext : frames[pulled (lengths enc frames) front]? with
  | none =>
    have hall : out enc frames front = frames := by
      rw [out, List.take_of_length_le (List.getElem?_eq_none_iff.mp hnext)]
    have hempty : rest ++ c = [] := by
      rw [hall] at hstream
      have hlength := hstream.length_le
      rw [List.length_append] at hlength
      exact List.length_eq_zero_iff.mp (by omega)
    have hout : out enc frames (front ++ [c]) = frames := by
      have hfinished : finished (lengths enc frames) (front ++ [c]).flatten.length =
          frames.length := by
        rw [length_of_rest hrest, hall, hempty, List.length_nil, Nat.add_zero, finished_sum,
          lengths, List.length_map]
      have hle := List.getElem?_eq_none_iff.mp hnext
      rw [out, pulled_snoc, hfinished, Nat.min_eq_right (by omega), List.take_length]
    refine .inr ⟨?_, [], [], ?_, ?_, ?_⟩
    · rintro ⟨a, hsome, -⟩
      rw [hnext] at hsome
      cases hsome
    · rw [hempty, h.nil]
      rfl
    · rw [hout, hall, List.append_nil]
    · rw [hout, hflatten, hall, hempty]
  | some a =>
    obtain ⟨later, hfinished⟩ := finished_of_some (c := c) hnext hrest
    have hmem : a ∈ frames := List.mem_of_getElem? hnext
    have hfront : rest ++ c <+: enc a ++
        (frames.drop (pulled (lengths enc frames) front + 1)).flatMap enc := by
      have hframes : frames.flatMap enc = (out enc frames front).flatMap enc ++ (enc a ++
          (frames.drop (pulled (lengths enc frames) front + 1)).flatMap enc) := by
        conv_lhs => rw [eq_out_append hnext]
        rw [List.flatMap_append, List.flatMap_cons]
      rw [hframes] at hstream
      exact (List.prefix_append_right_inj _).mp hstream
    by_cases hle : (enc a).length ≤ (rest ++ c).length
    · -- The frame is whole.
      obtain ⟨rest', hrest'⟩ := List.prefix_of_prefix_length_le
        (List.prefix_append (enc a) _) hfront hle
      have hpulled : pulled (lengths enc frames) (front ++ [c]) =
          pulled (lengths enc frames) front + 1 := by
        rw [pulled_snoc, hfinished, finished, if_pos hle]
        omega
      have hout : out enc frames (front ++ [c]) = out enc frames front ++ [a] := by
        rw [out, hpulled, List.take_add_one, hnext]
        rfl
      refine .inr ⟨?_, rest', [a], ?_, hout, ?_⟩
      · rintro ⟨a', hsome, hlt, -⟩
        rw [hnext] at hsome
        cases hsome
        rw [hdrop] at hlt
        omega
      · rw [← hrest', h.whole a hmem]
        rfl
      · rw [hout, hflatten, ← hrest', List.flatMap_append, List.flatMap_singleton,
          List.append_assoc]
    · -- A part of it stays, unless it faults.
      have hpart : rest ++ c <+: enc a :=
        List.prefix_of_prefix_length_le hfront (List.prefix_append (enc a) _) (by omega)
      have hout : out enc frames (front ++ [c]) = out enc frames front := by
        rw [out, pulled_snoc, hfinished, finished, if_neg hle, Nat.min_eq_right (by omega)]
        rfl
      by_cases hbad : bad a (rest ++ c)
      · refine .inl ⟨⟨a, hnext, ?_⟩, h.fault a hmem _ hpart (by omega) hbad⟩
        rw [hdrop]
        exact ⟨by omega, hbad⟩
      · refine .inr ⟨?_, rest ++ c, [], h.part a hmem _ hpart (by omega) hbad, ?_, ?_⟩
        · rintro ⟨a', hsome, -, hbad'⟩
          rw [hnext] at hsome
          cases hsome
          rw [hdrop] at hbad'
          exact hbad hbad'
        · rw [hout, List.append_nil]
        · rw [hout, hflatten]

end Step

/-- After some chunks the frames are out at one a chunk, unless a chunk has faulted. -/
theorem Pulls.feeds_cases {pull : List β → Option (List β × List γ)} {give : α → γ}
    (h : Pulls pull enc give bad frames) {chunks : List (List β)}
    (hstream : chunks.flatten <+: frames.flatMap enc) :
    (¬NoFault enc bad frames chunks ∧ feeds pull chunks = none) ∨
      NoFault enc bad frames chunks ∧ ∃ rest,
        feeds pull chunks = some (rest, (out enc frames chunks).map give) ∧
        (out enc frames chunks).flatMap enc ++ rest = chunks.flatten := by
  induction chunks using List.reverseRecOn with
  | nil =>
    refine .inr ⟨fun front c back heq => ?_, [], rfl, rfl⟩
    simp at heq
  | append_singleton front c ih =>
    have hfront : front.flatten <+: frames.flatMap enc := by
      rw [List.flatten_append] at hstream
      exact (List.prefix_append _ _).trans hstream
    rw [noFault_snoc, feeds_snoc]
    obtain ⟨hfault, hnone⟩ | ⟨hno, rest, hsome, hrest⟩ := ih hfront
    · exact .inl ⟨fun hboth => hfault hboth.1, by rw [hnone]; rfl⟩
    · rw [hsome, Option.bind_some]
      obtain ⟨hfault, hnone⟩ | ⟨hlast, rest', given, hpull, hout, hrest'⟩ := h.step hstream hrest
      · exact .inl ⟨fun hboth => hboth.2 hfault, by simp [feed, hnone]⟩
      · refine .inr ⟨⟨hno, hlast⟩, rest', ?_, hrest'⟩
        simp [feed, hpull, hout]

/-- All frames come out, in their order, when no chunk faults and the chunks are paced. -/
theorem Pulls.feeds_eq_iff {pull : List β → Option (List β × List γ)} {give : α → γ}
    (h : Pulls pull enc give bad frames) {chunks : List (List β)}
    (hstream : chunks.flatten = frames.flatMap enc) :
    feeds pull chunks = some ([], frames.map give) ↔
      NoFault enc bad frames chunks ∧ Paced (lengths enc frames) chunks := by
  have hpos : ∀ l ∈ lengths enc frames, 0 < l := by
    intro l hl
    obtain ⟨a, ha, rfl⟩ := List.mem_map.mp hl
    exact List.length_pos_iff.mpr (h.nonempty a ha)
  have hlength : (lengths enc frames).length = frames.length := List.length_map _
  rw [← pulled_eq_length_iff hpos]
  obtain ⟨hfault, hnone⟩ | ⟨hno, rest, hsome, hrest⟩ :=
    h.feeds_cases (hstream ▸ List.prefix_refl _ : chunks.flatten <+: frames.flatMap enc)
  · rw [hnone]
    exact iff_of_false nofun fun hboth => hfault hboth.1
  · rw [hsome, Option.some.injEq, Prod.mk.injEq]
    constructor
    · rintro ⟨-, hout⟩
      have hcount := congrArg List.length hout
      rw [List.length_map, List.length_map, length_out] at hcount
      exact ⟨hno, hcount.trans hlength.symm⟩
    · rintro ⟨-, hpulled⟩
      have hout : out enc frames chunks = frames := by
        rw [out, hpulled, hlength, List.take_length]
      rw [hout, hstream] at hrest
      rw [hout]
      exact ⟨by simpa using hrest, rfl⟩

end Pull

/-! ### Chunks that end with the frames -/

section Aligned

variable {α β : Type*} (enc : α → List β)

/-- Wherever a frame ends, a chunk ends. -/
def Aligned (frames : List α) (chunks : List (List β)) : Prop :=
  ∀ done, done <+: frames → ∃ front, front <+: chunks ∧ front.flatten = done.flatMap enc

variable {enc} {frames : List α} {chunks : List (List β)} {a : α} {c rest : List β}

theorem aligned_nil (chunks : List (List β)) : Aligned enc [] chunks := by
  intro done hdone
  rw [List.prefix_nil.mp hdone]
  exact ⟨[], List.nil_prefix, rfl⟩

/-- A chunk that ends before the next frame does may be put before the chunk that follows. -/
theorem aligned_cons_part (hpart : rest.length < (enc a).length) :
    Aligned enc (a :: frames) (rest :: c :: chunks) ↔
      Aligned enc (a :: frames) ((rest ++ c) :: chunks) := by
  constructor
  · intro h done hdone
    obtain rfl | ⟨later, rfl, -⟩ := List.prefix_cons_iff.mp hdone
    · exact ⟨[], List.nil_prefix, rfl⟩
    obtain ⟨front, hfront, hflatten⟩ := h _ hdone
    have hlong : (enc a).length ≤ front.flatten.length := by
      rw [hflatten, List.flatMap_cons, List.length_append]
      omega
    obtain rfl | ⟨tail, rfl, htail⟩ := List.prefix_cons_iff.mp hfront
    · rw [List.flatten_nil, List.length_nil] at hlong
      omega
    obtain rfl | ⟨front, rfl, hback⟩ := List.prefix_cons_iff.mp htail
    · rw [List.flatten_cons, List.flatten_nil, List.append_nil] at hlong
      omega
    · refine ⟨(rest ++ c) :: front, List.cons_prefix_cons.mpr ⟨rfl, hback⟩, ?_⟩
      rw [← hflatten]
      simp
  · intro h done hdone
    obtain ⟨front, hfront, hflatten⟩ := h done hdone
    obtain rfl | ⟨front, rfl, hback⟩ := List.prefix_cons_iff.mp hfront
    · exact ⟨[], List.nil_prefix, hflatten⟩
    · refine ⟨rest :: c :: front, ?_, ?_⟩
      · exact List.cons_prefix_cons.mpr ⟨rfl, List.cons_prefix_cons.mpr ⟨rfl, hback⟩⟩
      · rw [← hflatten]
        simp

/-- The first chunk is the first frame. -/
theorem aligned_cons_whole (hpos : enc a ≠ []) :
    Aligned enc (a :: frames) (enc a :: chunks) ↔ Aligned enc frames chunks := by
  constructor
  · intro h done hdone
    obtain ⟨front, hfront, hflatten⟩ := h (a :: done) (List.cons_prefix_cons.mpr ⟨rfl, hdone⟩)
    rw [List.flatMap_cons] at hflatten
    obtain rfl | ⟨front, rfl, hback⟩ := List.prefix_cons_iff.mp hfront
    · exact absurd (List.append_eq_nil_iff.mp hflatten.symm).1 hpos
    · exact ⟨front, hback, List.append_cancel_left hflatten⟩
  · intro h done hdone
    obtain rfl | ⟨done, rfl, hlater⟩ := List.prefix_cons_iff.mp hdone
    · exact ⟨[], List.nil_prefix, rfl⟩
    · obtain ⟨front, hfront, hflatten⟩ := h done hlater
      refine ⟨enc a :: front, List.cons_prefix_cons.mpr ⟨rfl, hfront⟩, ?_⟩
      rw [List.flatten_cons, hflatten, List.flatMap_cons]

/-- The first chunk goes on after the first frame. -/
theorem not_aligned_cons_append (hpos : enc a ≠ []) (hrest : rest ≠ []) :
    ¬Aligned enc (a :: frames) ((enc a ++ rest) :: chunks) := by
  intro h
  obtain ⟨front, hfront, hflatten⟩ := h [a] (List.cons_prefix_cons.mpr ⟨rfl, List.nil_prefix⟩)
  rw [List.flatMap_singleton] at hflatten
  obtain rfl | ⟨front, rfl, -⟩ := List.prefix_cons_iff.mp hfront
  · exact hpos hflatten.symm
  · have hlength := congrArg List.length hflatten
    rw [List.flatten_cons, List.length_append, List.length_append] at hlength
    have := List.length_pos_iff.mpr hrest
    omega

end Aligned

end Framing
