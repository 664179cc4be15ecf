import Mathlib.Data.Set.Insert
import Mathlib.Logic.Function.Basic
import Mathlib.Tactic.Common

/-! Ids that are taken out for the entries of a table, and given back with them. -/

namespace Leases

variable {κ ι : Type*}

/-- Every entry has an id of its own, and the ids that are out are those of the entries. -/
structure Exact (table : κ → Option ι) (out : Set ι) : Prop where
  inj : ∀ k k' i, table k = some i → table k' = some i → k = k'
  mem_out : ∀ i, i ∈ out ↔ ∃ k, table k = some i

variable {table table' : κ → Option ι} {out : Set ι} {k : κ} {i : ι}

theorem Exact.empty (h : ∀ k, table k = none) : Exact table ∅ := by
  refine ⟨fun k k' i hk => ?_, fun i => ?_⟩
  · rw [h] at hk
    cases hk
  · simp [h]

/-- An entry that is new takes an id that is not out. -/
theorem Exact.take [DecidableEq κ] (h : Exact table out) (hnew : table k = none) (hi : i ∉ out) :
    Exact (Function.update table k (some i)) (insert i out) := by
  have hother : ∀ k', table k' ≠ some i := fun k' hk' => hi ((h.mem_out i).mpr ⟨k', hk'⟩)
  refine ⟨fun a b j ha hb => ?_, fun j => ?_⟩
  · by_cases hak : a = k <;> by_cases hbk : b = k
    · rw [hak, hbk]
    · subst hak
      rw [Function.update_self] at ha
      rw [Function.update_of_ne hbk] at hb
      cases ha
      exact absurd hb (hother b)
    · subst hbk
      rw [Function.update_self] at hb
      rw [Function.update_of_ne hak] at ha
      cases hb
      exact absurd ha (hother a)
    · rw [Function.update_of_ne hak] at ha
      rw [Function.update_of_ne hbk] at hb
      exact h.inj a b j ha hb
  · rw [Set.mem_insert_iff, h.mem_out]
    constructor
    · rintro (rfl | ⟨a, ha⟩)
      · exact ⟨k, Function.update_self ..⟩
      · have hak : a ≠ k := by
          rintro rfl
          rw [hnew] at ha
          cases ha
        exact ⟨a, by rw [Function.update_of_ne hak, ha]⟩
    · rintro ⟨a, ha⟩
      by_cases hak : a = k
      · subst hak
        rw [Function.update_self] at ha
        exact .inl (Option.some.inj ha).symm
      · rw [Function.update_of_ne hak] at ha
        exact .inr ⟨a, ha⟩

/-- An entry goes, and its id with it. -/
theorem Exact.give [DecidableEq κ] (h : Exact table out) (hk : table k = some i) :
    Exact (Function.update table k none) (out \ {i}) := by
  have hof : ∀ a j, Function.update table k none a = some j ↔ a ≠ k ∧ table a = some j := by
    intro a j
    by_cases hak : a = k
    · subst hak
      simp
    · simp [hak]
  refine ⟨fun a b j ha hb => ?_, fun j => ?_⟩
  · exact h.inj a b j ((hof a j).mp ha).2 ((hof b j).mp hb).2
  · rw [Set.mem_sdiff, h.mem_out, Set.mem_singleton_iff]
    constructor
    · rintro ⟨⟨a, ha⟩, hj⟩
      refine ⟨a, (hof a j).mpr ⟨?_, ha⟩⟩
      rintro rfl
      rw [hk] at ha
      exact hj (Option.some.inj ha).symm
    · rintro ⟨a, ha⟩
      obtain ⟨hak, ha⟩ := (hof a j).mp ha
      refine ⟨⟨a, ha⟩, ?_⟩
      rintro rfl
      exact hak (h.inj a k j ha hk)

/-- An entry that goes without its id leaves the id out for good. -/
theorem Exact.not_of_forget (h : Exact table out) (hk : table k = some i) (hgone : table' k = none)
    (hsub : ∀ a j, table' a = some j → table a = some j) : ¬Exact table' out := by
  intro h'
  obtain ⟨a, ha⟩ := (h'.mem_out i).mp ((h.mem_out i).mpr ⟨k, hk⟩)
  obtain rfl := h.inj a k i (hsub a i ha) hk
  rw [hgone] at ha
  cases ha

end Leases
