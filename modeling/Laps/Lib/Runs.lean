import Mathlib.Data.List.Induction
import Mathlib.Data.List.Infix
import Mathlib.Tactic.Common

/-! Runs of a step function that may fail, and conditions that each of their steps meets in the
state that it is taken in. -/

namespace Runs

variable {σ α : Type*}

/-- Every step of the run meets the condition. -/
def All (step : σ → α → Option σ) (clean : σ → α → Prop) (s : σ) (l : List α) : Prop :=
  ∀ before a, before ++ [a] <+: l → ∀ s', before.foldlM step s = some s' → clean s' a

variable {step : σ → α → Option σ} {clean good : σ → α → Prop} {I : σ → Prop}
variable {s s' : σ} {l l' : List α}

theorem foldlM_concat (h : l.foldlM step s = some s') (a : α) :
    (l ++ [a]).foldlM step s = step s' a := by
  rw [List.foldlM_append, h]
  simp

theorem All.of_prefix (h : All step clean s l) (hle : l' <+: l) : All step clean s l' :=
  fun before a hbefore => h before a (hbefore.trans hle)

/-- The steps of a run are counted from its start. -/
theorem all_of_take (h : ∀ k a, l[k]? = some a → ∀ s', (l.take k).foldlM step s = some s' →
    clean s' a) : All step clean s l := by
  rintro before a ⟨after, rfl⟩ s' hs'
  refine h before.length a ?_ s' ?_
  · simp
  · rwa [List.append_assoc, List.take_left]

/-- What steps that meet the condition keep holds after the run. -/
theorem All.inv (hstep : ∀ s a, I s → clean s a → ∃ s', step s a = some s' ∧ I s')
    (hs : I s) (h : All step clean s l) : ∃ s', l.foldlM step s = some s' ∧ I s' := by
  induction l using List.reverseRecOn with
  | nil => exact ⟨s, rfl, hs⟩
  | append_singleton l a ih =>
    obtain ⟨s', hrun, hinv⟩ := ih (h.of_prefix (List.prefix_append _ _))
    obtain ⟨s'', hs'', hinv'⟩ := hstep s' a hinv (h l a List.prefix_rfl s' hrun)
    exact ⟨s'', (foldlM_concat hrun a).trans hs'', hinv'⟩

/-- What steps that meet the condition keep holds in every state that the run comes to. -/
theorem All.reached (hstep : ∀ s a s', I s → clean s a → step s a = some s' → I s') (hs : I s)
    (h : All step clean s l) {before : List α} (hbefore : before <+: l)
    (hrun : before.foldlM step s = some s') : I s' := by
  induction before using List.reverseRecOn generalizing s' with
  | nil =>
    cases hrun
    exact hs
  | append_singleton before a ih =>
    rw [List.foldlM_append] at hrun
    obtain ⟨s₁, hrun₁, hlast⟩ := Option.bind_eq_some_iff.mp hrun
    have hinv := ih ((List.prefix_append _ _).trans hbefore) hrun₁
    refine hstep s₁ a s' hinv (h before a hbefore s₁ hrun₁) ?_
    rw [← hlast]
    simp

/-- Steps that meet the condition are right, in the states that such steps lead to. -/
theorem All.imp (hstep : ∀ s a, I s → clean s a → ∃ s', step s a = some s' ∧ I s')
    (hgood : ∀ s a, I s → clean s a → good s a) (hs : I s) (h : All step clean s l) :
    All step good s l := by
  intro before a hprefix s' hs'
  obtain ⟨s₁, hrun, hinv⟩ := (h.of_prefix ((List.prefix_append _ _).trans hprefix)).inv hstep hs
  rw [hs'] at hrun
  cases hrun
  exact hgood s' a hinv (h before a hprefix s' hs')

/-- The steps of a run are right if and only if they meet the condition, when this is so of one step
from any state that such steps lead to. -/
theorem all_iff (hstep : ∀ s a, I s → clean s a → ∃ s', step s a = some s' ∧ I s')
    (hgood : ∀ s a, I s → (good s a ↔ clean s a)) (hs : I s) :
    All step good s l ↔ All step clean s l := by
  constructor
  · intro h
    induction l using List.reverseRecOn with
    | nil =>
      intro before a hprefix
      simp at hprefix
    | append_singleton l a ih =>
      have hclean := ih (h.of_prefix (List.prefix_append _ _))
      obtain ⟨s₁, hrun, hinv⟩ := hclean.inv hstep hs
      intro before b hprefix s' hs'
      rcases List.prefix_concat_iff.mp hprefix with hlast | hearlier
      · obtain ⟨rfl, hb⟩ := List.append_inj' hlast rfl
        cases hb
        rw [hrun] at hs'
        cases hs'
        exact (hgood _ a hinv).mp (h before a List.prefix_rfl _ hrun)
      · exact hclean before b hearlier s' hs'
  · exact fun h => h.imp hstep (fun s a hinv => (hgood s a hinv).mpr) hs

/-- What every step leaves holds in every state of the run. -/
theorem all_leaves_iff {P : σ → Prop} (hs : P s) :
    All step (fun s a => ∀ s', step s a = some s' → P s') s l ↔
      ∀ before, before <+: l → ∀ s', before.foldlM step s = some s' → P s' := by
  constructor
  · intro h before hbefore s' hs'
    cases before using List.reverseRecOn with
    | nil =>
      cases hs'
      exact hs
    | append_singleton before a =>
      rw [List.foldlM_append] at hs'
      obtain ⟨s₁, hrun, hstep⟩ := Option.bind_eq_some_iff.mp hs'
      refine h before a hbefore s₁ hrun s' ?_
      rw [← hstep]
      simp
  · intro h before a hbefore s₁ hrun s' hs'
    exact h _ hbefore s' ((foldlM_concat hrun a).trans hs')

/-- A run comes to good states by good steps if and only if its steps meet the condition, when of one
step from any state that such steps lead to the condition says that it is good and where it goes. -/
theorem reaches_iff {P : σ → Prop}
    (hstep : ∀ s a, I s → clean s a → ∃ s', step s a = some s' ∧ I s')
    (hgood : ∀ s a, I s → ((good s a ∧ ∀ s', step s a = some s' → P s') ↔ clean s a))
    (hP : ∀ s, I s → P s) (hs : I s) :
    (∀ before, before <+: l → ∃ s', before.foldlM step s = some s' ∧ P s' ∧
      ∀ a, before ++ [a] <+: l → good s' a) ↔ All step clean s l := by
  constructor
  · intro h
    refine (all_iff hstep hgood hs).mp fun before a hprefix s' hs' => ⟨?_, fun s'' hs'' => ?_⟩
    · obtain ⟨s₁, hrun, -, hsteps⟩ := h before ((List.prefix_append _ _).trans hprefix)
      obtain rfl := Option.some.inj (hs'.symm.trans hrun)
      exact hsteps a hprefix
    · obtain ⟨s₁, hrun, hnext, -⟩ := h _ hprefix
      rw [foldlM_concat hs', hs''] at hrun
      exact Option.some.inj hrun ▸ hnext
  · intro h before hbefore
    obtain ⟨s', hrun, hinv⟩ := (h.of_prefix hbefore).inv hstep hs
    exact ⟨s', hrun, hP s' hinv, fun a hprefix =>
      ((hgood s' a hinv).mpr (h before a hprefix s' hrun)).1⟩

/-! ### What has begun and not ended -/

section Since

variable {starts : α → Prop} {ends : List α → α → Prop} {a : α}

/-- It has started, and has not been ended since.  What ends it may depend on what came before. -/
def Since (starts : α → Prop) (ends : List α → α → Prop) (l : List α) : Prop :=
  ∃ before a after, l = before ++ a :: after ∧ starts a ∧
    ∀ between b, between ++ [b] <+: after → ¬ends (before ++ a :: between) b

theorem not_since_nil : ¬Since starts ends [] := by
  rintro ⟨before, a, after, heq, -⟩
  simp at heq

theorem since_concat :
    Since starts ends (l ++ [a]) ↔ starts a ∨ (Since starts ends l ∧ ¬ends l a) := by
  constructor
  · rintro ⟨before, b, after, heq, hstarts, hgoes⟩
    obtain rfl | ⟨after, c, rfl⟩ := List.eq_nil_or_concat' after
    · obtain ⟨-, hlast⟩ := List.append_inj' heq rfl
      cases hlast
      exact .inl hstarts
    · rw [← List.cons_append, ← List.append_assoc] at heq
      obtain ⟨rfl, hlast⟩ := List.append_inj' heq rfl
      cases hlast
      refine .inr ⟨⟨before, b, after, rfl, hstarts, fun between c' hle => ?_⟩, ?_⟩
      · exact hgoes between c' (hle.trans (List.prefix_append ..))
      · exact hgoes after a List.prefix_rfl
  · rintro (hstarts | ⟨⟨before, b, after, rfl, hstarts, hgoes⟩, hend⟩)
    · refine ⟨l, a, [], rfl, hstarts, fun between b hle => ?_⟩
      simp at hle
    · refine ⟨before, b, after ++ [a], by simp, hstarts, fun between c hle => ?_⟩
      rcases List.prefix_concat_iff.mp hle with hlast | hearlier
      · obtain ⟨rfl, hsame⟩ := List.append_inj' hlast rfl
        obtain rfl := List.singleton_injective hsame
        exact hend
      · exact hgoes between c hearlier

end Since

/-! ### Loops -/

/-- Every step of a loop meets the condition, in the state that it is taken in. -/
def Each (f : σ → α → σ) (clean : σ → α → Prop) : σ → List α → Prop
  | _, [] => True
  | s, a :: l => clean s a ∧ Each f clean (f s a) l

theorem each_append {f : σ → α → σ} : Each f clean s (l ++ l') ↔
    Each f clean s l ∧ Each f clean (l.foldl f s) l' := by
  induction l generalizing s with
  | nil => simp [Each]
  | cons a l ih =>
    rw [List.cons_append, Each, Each, ih, List.foldl_cons, and_assoc]

/-- The steps of a loop are among those of its list. -/
theorem Each.and_mem {f : σ → α → σ} (h : Each f clean s l) :
    Each f (fun s a => clean s a ∧ a ∈ l) s l := by
  have hall : ∀ l' : List α, (∀ a ∈ l', a ∈ l) → ∀ s, Each f clean s l' →
      Each f (fun s a => clean s a ∧ a ∈ l) s l' := by
    intro l' hl'
    induction l' with
    | nil => exact fun _ _ => trivial
    | cons a l' ih =>
      intro s h
      have hrest := ih (fun b hb => hl' b (List.mem_cons_of_mem a hb)) (f s a) h.2
      exact ⟨⟨h.1, hl' a List.mem_cons_self⟩, hrest⟩
  exact hall l (fun _ => id) s h

/-- What steps that meet the condition keep holds after the loop. -/
theorem Each.inv {f : σ → α → σ} (hstep : ∀ s a, I s → clean s a → I (f s a)) (hs : I s)
    (h : Each f clean s l) : I (l.foldl f s) := by
  induction l generalizing s with
  | nil => exact hs
  | cons a l ih => exact ih (hstep s a hs h.1) h.2

/-- Steps that meet the condition are related by a preorder, so that the loop is. -/
theorem Each.related {f : σ → α → σ} {R : σ → σ → Prop} (hrefl : ∀ s, R s s)
    (htrans : ∀ {a b c}, R a b → R b c → R a c) (hf : ∀ s a, clean s a → R s (f s a))
    (h : Each f clean s l) : R s (l.foldl f s) := by
  induction l generalizing s with
  | nil => exact hrefl s
  | cons a l ih => exact htrans (hf s a h.1) (ih h.2)

end Runs
