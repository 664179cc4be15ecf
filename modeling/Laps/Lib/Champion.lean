import Mathlib.Data.List.Basic
import Mathlib.Order.Lattice
import Mathlib.Tactic.Common

/-! A list is searched for its best element by a champion that each element may replace.  An element
replaces the champion when it is lower in one of two criteria, so the last champion need not be
least in the lexicographic order of the two. -/

namespace Champion

variable {ι α β : Type*} [LinearOrder α] [LinearOrder β] (f : ι → α) (g : ι → β)

/-- The element is lower than the champion in one of the criteria. -/
def Beats (champion e : ι) : Prop := f e < f champion ∨ g e < g champion

instance : DecidableRel (Beats f g) := fun _ _ => inferInstanceAs (Decidable (_ ∨ _))

def challenge (champion e : ι) : ι := if Beats f g champion e then e else champion

def champion (start : ι) (entries : List ι) : ι := entries.foldl (challenge f g) start

/-- Least in the lexicographic order of the criteria. -/
def LexMin (entries : List ι) (e : ι) : Prop :=
  ∀ x ∈ entries, f e < f x ∨ (f e = f x ∧ g e ≤ g x)

variable {f g} {entries : List ι} {start m e : ι}

theorem champion_cons (start e : ι) (rest : List ι) :
    champion f g start (e :: rest) = champion f g (challenge f g start e) rest := rfl

theorem challenge_self (e : ι) : challenge f g e e = e := by
  unfold challenge
  split <;> rfl

theorem champion_mem (start : ι) (entries : List ι) :
    champion f g start entries = start ∨ champion f g start entries ∈ entries := by
  induction entries generalizing start with
  | nil => exact Or.inl rfl
  | cons e rest ih =>
    rw [champion_cons]
    rcases ih (challenge f g start e) with hstart | hrest
    · rw [hstart]
      unfold challenge
      split
      · exact Or.inr List.mem_cons_self
      · exact Or.inl rfl
    · exact Or.inr (List.mem_cons_of_mem _ hrest)

theorem champion_mem_of_mem (hstart : start ∈ entries) : champion f g start entries ∈ entries := by
  rcases champion_mem (f := f) (g := g) start entries with heq | hmem
  · rwa [heq]
  · exact hmem

theorem LexMin.le (h : LexMin f g entries m) (he : e ∈ entries) : f m ≤ f e := by
  rcases h e he with hlt | ⟨heq, -⟩
  · exact hlt.le
  · exact heq.le

theorem LexMin.of_same (h : LexMin f g entries m) (hf : f e = f m) (hg : g e = g m) :
    LexMin f g entries e := by
  intro x hx
  rw [hf, hg]
  exact h x hx

/-- A least element leaves a least champion behind. -/
theorem LexMin.challenge (h : LexMin f g entries m) (hstart : start ∈ entries) :
    f (challenge f g start m) = f m ∧ g (challenge f g start m) = g m := by
  unfold Champion.challenge
  split
  · exact ⟨rfl, rfl⟩
  · rename_i hbeats
    obtain ⟨hf, hg⟩ := not_or.mp hbeats
    have hle : f m = f start := le_antisymm (h.le hstart) (not_lt.mp hf)
    refine ⟨hle.symm, le_antisymm (not_lt.mp hg) ?_⟩
    rcases h start hstart with hlt | ⟨-, hle'⟩
    · exact absurd hle hlt.ne
    · exact hle'

/-- Nothing replaces a champion that no element is below of in either criterion. -/
theorem champion_eq_start (h : ∀ e ∈ entries, ¬ Beats f g start e) :
    champion f g start entries = start := by
  induction entries with
  | nil => rfl
  | cons e rest ih =>
    rw [champion_cons, challenge, if_neg (h e List.mem_cons_self)]
    exact ih fun x hx => h x (List.mem_cons_of_mem _ hx)

/-- A champion that some element beats is replaced by one of them. -/
theorem champion_mem_of_beats (h : ∃ e ∈ entries, Beats f g start e) :
    champion f g start entries ∈ entries := by
  induction entries with
  | nil =>
    obtain ⟨e, he, -⟩ := h
    cases he
  | cons e rest ih =>
    rw [champion_cons]
    by_cases hbeats : Beats f g start e
    · rw [challenge, if_pos hbeats]
      rcases champion_mem (f := f) (g := g) e rest with hstart | hrest
      · rw [hstart]
        exact List.mem_cons_self
      · exact List.mem_cons_of_mem _ hrest
    · rw [challenge, if_neg hbeats]
      obtain ⟨x, hx, hbeats'⟩ := h
      rcases List.mem_cons.mp hx with rfl | hx
      · exact absurd hbeats' hbeats
      · exact List.mem_cons_of_mem _ (ih ⟨x, hx, hbeats'⟩)

/-- What beats the first of two elements beats one of the two steps to it. -/
theorem Beats.trans_or {x y z : ι} (h : Beats f g x z) : Beats f g x y ∨ Beats f g y z := by
  rcases h with hlt | hlt
  · rcases lt_or_ge (f y) (f x) with hy | hy
    · exact Or.inl (Or.inl hy)
    · exact Or.inr (Or.inl (lt_of_lt_of_le hlt hy))
  · rcases lt_or_ge (g y) (g x) with hy | hy
    · exact Or.inl (Or.inr hy)
    · exact Or.inr (Or.inr (lt_of_lt_of_le hlt hy))

/-- Once the search has come to an element that none of the later ones beats, only that element can
still become champion. -/
theorem champion_append_cons {pre post : List ι} (h : ∀ x ∈ post, ¬ Beats f g e x) :
    champion f g start (pre ++ e :: post) = challenge f g (champion f g start pre) e := by
  rw [champion, List.foldl_append, List.foldl_cons]
  apply champion_eq_start
  intro x hx
  unfold challenge
  split
  · exact h x hx
  · rename_i hbeats
    intro hx'
    exact hx'.trans_or.elim hbeats (h x hx)

/-- No element behind the champion beats it. -/
theorem exists_champion_split (start : ι) (entries : List ι) :
    ∃ pre post, start :: entries = pre ++ champion f g start entries :: post ∧
      ∀ x ∈ post, ¬ Beats f g (champion f g start entries) x := by
  induction entries generalizing start with
  | nil => exact ⟨[], [], rfl, by simp⟩
  | cons e rest ih =>
    rw [champion_cons]
    by_cases hbeats : Beats f g start e
    · rw [challenge, if_pos hbeats]
      obtain ⟨pre, post, heq, hpost⟩ := ih e
      exact ⟨start :: pre, post, by rw [heq]; rfl, hpost⟩
    · rw [challenge, if_neg hbeats]
      obtain ⟨pre, post, heq, hpost⟩ := ih start
      cases pre with
      | nil =>
        obtain ⟨hstart, rfl⟩ := List.cons.inj heq
        refine ⟨[], e :: rest, by rw [← hstart]; rfl, fun x hx => ?_⟩
        rcases List.mem_cons.mp hx with rfl | hx
        · rwa [← hstart]
        · exact hpost x hx
      | cons first pre =>
        have hrest : rest = pre ++ champion f g start rest :: post := (List.cons.inj heq).2
        exact ⟨start :: e :: pre, post, congrArg (start :: e :: ·) hrest, hpost⟩

/-- A search that leaves its start ends with the first element that no later one beats. -/
theorem champion_eq_iff {pre post : List ι} (hnodup : (pre ++ m :: post).Nodup)
    (hbeaten : ∃ x ∈ pre ++ m :: post, Beats f g start x) :
    champion f g start (pre ++ m :: post) = m ↔
      (∀ x ∈ post, ¬ Beats f g m x) ∧
      ∀ p y q, pre = p ++ y :: q → ∃ x ∈ q ++ m :: post, Beats f g y x := by
  have hnot : m ∉ pre ∧ m ∉ post := by
    rw [List.nodup_append] at hnodup
    exact ⟨fun hmem => hnodup.2.2 m hmem m List.mem_cons_self rfl,
      (List.nodup_cons.mp hnodup.2.1).1⟩
  obtain ⟨x, hx, hbeats⟩ := hbeaten
  constructor
  · intro hchampion
    refine ⟨?_, ?_⟩
    · obtain ⟨p, q, heq, hq⟩ := exists_champion_split (f := f) (g := g) start (pre ++ m :: post)
      rw [hchampion] at heq hq
      cases p with
      | nil =>
        obtain ⟨rfl, rfl⟩ := List.cons.inj heq
        exact absurd hbeats (hq x hx)
      | cons first p =>
        have hsplit : pre ++ m :: post = p ++ m :: q := (List.cons.inj heq).2
        obtain ⟨rfl, -, rfl⟩ := (List.append_cons_inj_of_notMem hnot.1 hnot.2).mp hsplit
        exact hq
    · rintro p y q rfl
      by_contra hy
      have hstands : ∀ x ∈ q ++ m :: post, ¬ Beats f g y x :=
        fun x hx hbeats => hy ⟨x, hx, hbeats⟩
      rw [List.append_assoc, List.cons_append, champion_append_cons hstands, challenge] at hchampion
      split at hchampion
      · exact hnot.1 (by simp [hchampion])
      · -- The champion before `y` is the start, which `x` beats.
        rename_i hkept
        rw [hchampion] at hkept
        have hp : m ∉ p := fun hmem => hnot.1 (List.mem_append_left _ hmem)
        have hstart : start = m := by
          rcases champion_mem (f := f) (g := g) start p with hstart | hmem
          · exact hstart.symm.trans hchampion
          · exact absurd (hchampion ▸ hmem) hp
        subst hstart
        rw [List.append_assoc, List.cons_append, List.mem_append, List.mem_cons] at hx
        rcases hx with hx | rfl | hx
        · exact hp (hchampion ▸ champion_mem_of_beats ⟨x, hx, hbeats⟩)
        · exact hkept hbeats
        · exact hbeats.trans_or.elim hkept (hstands x hx)
  · rintro ⟨hpost, hpre⟩
    rw [champion_append_cons hpost, challenge]
    -- What beats the champion before `m` is `m` or comes after it.
    have hlater : ∀ {c x}, x ∈ m :: post → Beats f g c x → Beats f g c m := by
      intro c x hx hbeats
      rcases List.mem_cons.mp hx with rfl | hx
      · exact hbeats
      · exact hbeats.trans_or.resolve_right (hpost x hx)
    obtain ⟨p, q, heq, hq⟩ := exists_champion_split (f := f) (g := g) start pre
    rw [if_pos]
    cases p with
    | nil =>
      obtain ⟨hstart, rfl⟩ := List.cons.inj heq
      rw [← hstart] at hq ⊢
      rcases List.mem_append.mp hx with hx | hx
      · exact absurd hbeats (hq x hx)
      · exact hlater hx hbeats
    | cons first p =>
      obtain ⟨x, hx, hbeats⟩ := hpre p _ q (List.cons.inj heq).2
      rcases List.mem_append.mp hx with hx | hx
      · exact absurd hbeats (hq x hx)
      · exact hlater hx hbeats

/-- The champion of a search stays champion when the search is made again. -/
theorem champion_champion (hnodup : entries.Nodup) (hstart : start ∈ entries) :
    champion f g (champion f g start entries) entries = champion f g start entries := by
  generalize hm : champion f g start entries = m
  by_cases hbeaten : ∃ x ∈ entries, Beats f g start x
  · have hmem : m ∈ entries := hm ▸ champion_mem_of_mem hstart
    obtain ⟨pre, post, rfl⟩ := List.append_of_mem hmem
    by_cases hbeaten' : ∃ x ∈ pre ++ m :: post, Beats f g m x
    · rw [champion_eq_iff hnodup hbeaten']
      exact (champion_eq_iff hnodup hbeaten).mp hm
    · exact champion_eq_start fun x hx hbeats => hbeaten' ⟨x, hx, hbeats⟩
  · have hkept : champion f g start entries = start :=
      champion_eq_start fun x hx hbeats => hbeaten ⟨x, hx, hbeats⟩
    rw [← hm, hkept, hkept]

/-- The last of the elements that satisfy a predicate. -/
theorem exists_last {P : ι → Prop} (h : ∃ e ∈ entries, P e) :
    ∃ pre m post, entries = pre ++ m :: post ∧ P m ∧ ∀ e ∈ post, ¬ P e := by
  induction entries with
  | nil =>
    obtain ⟨e, he, -⟩ := h
    cases he
  | cons e rest ih =>
    by_cases hrest : ∃ x ∈ rest, P x
    · obtain ⟨pre, m, post, rfl, hm, hpost⟩ := ih hrest
      exact ⟨e :: pre, m, post, rfl, hm, hpost⟩
    · obtain ⟨x, hx, hPx⟩ := h
      rcases List.mem_cons.mp hx with rfl | hx
      · refine ⟨[], x, rest, rfl, hPx, fun y hy hPy => hrest ⟨y, hy, hPy⟩⟩
      · exact absurd ⟨x, hx, hPx⟩ hrest

/-- The search ends with a least element exactly when some least element has none after it that is
lower in the second criterion. -/
theorem lexMin_champion_iff (hstart : start ∈ entries) :
    LexMin f g entries (champion f g start entries) ↔
      ∃ pre m post, entries = pre ++ m :: post ∧ LexMin f g entries m ∧
        ∀ e ∈ post, g m ≤ g e := by
  -- After the least element `m` the champion agrees with it, and only what is lower in the second
  -- criterion can replace it.
  have hsplit : ∀ {pre m post}, entries = pre ++ m :: post → LexMin f g entries m →
      ∃ c, f c = f m ∧ g c = g m ∧ champion f g start entries = champion f g c post := by
    intro pre m post heq hm
    have hbefore : champion f g start pre ∈ entries := by
      rcases champion_mem (f := f) (g := g) start pre with hc | hc
      · rwa [hc]
      · rw [heq]
        exact List.mem_append_left _ hc
    obtain ⟨hf, hg⟩ := hm.challenge hbefore
    refine ⟨challenge f g (champion f g start pre) m, hf, hg, ?_⟩
    rw [heq, champion, List.foldl_append, List.foldl_cons]
    rfl
  constructor
  · intro hlex
    obtain ⟨pre, m, post, heq, hm, hlast⟩ := exists_last ⟨_, champion_mem_of_mem hstart, hlex⟩
    refine ⟨pre, m, post, heq, hm, fun e he => ?_⟩
    by_contra hlt
    obtain ⟨c, -, hg, hchampion⟩ := hsplit heq hm
    have hreplaced : champion f g c post ∈ post :=
      champion_mem_of_beats ⟨e, he, Or.inr (by rw [hg]; exact not_le.mp hlt)⟩
    rw [← hchampion] at hreplaced
    exact hlast _ hreplaced hlex
  · rintro ⟨pre, m, post, heq, hm, hpost⟩
    obtain ⟨c, hf, hg, hchampion⟩ := hsplit heq hm
    rw [hchampion, champion_eq_start]
    · exact hm.of_same hf hg
    · rintro e he (hlt | hlt)
      · rw [hf] at hlt
        have hle : f m ≤ f e := hm.le (by rw [heq]; simp [he])
        exact absurd hlt (not_lt.mpr hle)
      · rw [hg] at hlt
        exact absurd hlt (not_lt.mpr (hpost e he))

end Champion
