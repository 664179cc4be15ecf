import Mathlib.Data.List.Basic
import Mathlib.Data.Set.Function
import Mathlib.Tactic.Common

/-! The values that a fold goes through.  Each stands for the prefix that the fold has read, so a
list of them can be searched for a prefix, as long as the fold tells prefixes apart. -/

namespace Chain

variable {α β : Type*} {f : β → α → β} {b x : β} {l l' : List α}

/-- The values of the fold, one after each element. -/
def values (f : β → α → β) (b : β) (l : List α) : List β := (l.scanl f b).tail

@[simp] theorem values_nil : values f b [] = [] := by
  simp [values]

theorem values_cons (a : α) : values f b (a :: l) = f b a :: values f (f b a) l := by
  cases l <;> simp [values]

@[simp] theorem length_values : (values f b l).length = l.length := by
  simp [values]

/-- Each value is the fold of a prefix. -/
theorem getElem?_values (i : ℕ) : (values f b l)[i]? =
    if i < l.length then some ((l.take (i + 1)).foldl f b) else none := by
  rw [values, List.getElem?_tail, List.getElem?_scanl]
  rfl

theorem getElem?_values_of_le (hne : l' ≠ []) (hle : l' <+: l) :
    (values f b l)[l'.length - 1]? = some (l'.foldl f b) := by
  have hpos : 0 < l'.length := List.length_pos_iff.mpr hne
  have hlen : l'.length ≤ l.length := hle.length_le
  have htake : l.take (l'.length - 1 + 1) = l' := by
    rw [Nat.sub_add_cancel hpos]
    exact (List.prefix_iff_eq_take.mp hle).symm
  rw [getElem?_values, if_pos (by omega), htake]

theorem getLast?_values (hne : l ≠ []) : (values f b l).getLast? = some (l.foldl f b) := by
  rw [List.getLast?_eq_getElem?, length_values]
  exact getElem?_values_of_le hne List.prefix_rfl

theorem mem_values : x ∈ values f b l ↔ ∃ p, p ≠ [] ∧ p <+: l ∧ p.foldl f b = x := by
  constructor
  · intro hx
    obtain ⟨i, hi⟩ := List.mem_iff_getElem?.mp hx
    rw [getElem?_values] at hi
    split at hi
    · rename_i hlt
      have hne : l.take (i + 1) ≠ [] := by
        apply List.ne_nil_of_length_pos
        rw [List.length_take]
        omega
      exact ⟨l.take (i + 1), hne, List.take_prefix _ _, Option.some.inj hi⟩
    · cases hi
  · rintro ⟨p, hne, hle, rfl⟩
    exact List.mem_of_getElem? (getElem?_values_of_le hne hle)

/-- The fold of a list is among the values of another only if the list is a prefix of it, where the
fold tells the list and the prefixes of the other apart. -/
theorem foldl_mem_values_iff (hne : l' ≠ [])
    (hinj : Set.InjOn (fun p => p.foldl f b) {p | p = l' ∨ p ≠ [] ∧ p <+: l}) :
    l'.foldl f b ∈ values f b l ↔ l' <+: l := by
  rw [mem_values]
  constructor
  · rintro ⟨p, hp, hle, heq⟩
    have hsame : p = l' := hinj (.inr ⟨hp, hle⟩) (.inl rfl) heq
    rwa [← hsame]
  · intro hle
    exact ⟨l', hne, hle, rfl⟩

end Chain
