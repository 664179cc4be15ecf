import Mathlib.Tactic.Common

/-! A table that is to show which items there are: under the key of an item it has the item's value
if and only if the item is there.  What entering an item, removing a key and the loss of items do to
this, where several items may have one key. -/

namespace Mirror

variable {ι κ β : Type*} (key : ι → κ) (value : ι → β)

/-- The table shows the items. -/
def Shows (table : κ → Option β) (there : ι → Prop) : Prop :=
  ∀ x, table (key x) = some (value x) ↔ there x

variable {key value} {table table' : κ → Option β} {there there' : ι → Prop}

/-- An item is entered where its key has no value.  The items of other keys stay as they are, and of
those of its key none comes but itself. -/
theorem shows_enter_iff (hvalue : Function.Injective value) (h : Shows key value table there) {x : ι}
    (htable : table' (key x) = some ((table (key x)).getD (value x)))
    (hrest : ∀ k, k ≠ key x → table' k = table k) (hx : there' x)
    (hother : ∀ y, key y ≠ key x → (there' y ↔ there y)) (hnew : ∀ y, there' y → there y ∨ y = x) :
    Shows key value table' there' ↔ ∀ b, table (key x) = some b → b = value x := by
  constructor
  · intro h' b hb
    have hshown := (h' x).mpr hx
    rw [htable, hb] at hshown
    exact Option.some.inj hshown
  · intro hclean y
    by_cases hkey : key y = key x
    · have hentry : table' (key x) = some (value x) := by
        rw [htable]
        cases hold : table (key x) with
        | none => rfl
        | some b => rw [hclean b hold, Option.getD_some]
      rw [hkey, hentry, Option.some_inj]
      constructor
      · intro heq
        rw [← hvalue heq]
        exact hx
      · intro hy
        obtain hold | rfl := hnew y hy
        · have hshown := (h y).mpr hold
          rw [hkey] at hshown
          exact (hclean _ hshown).symm
        · rfl
    · rw [hrest _ hkey, hother y hkey]
      exact h y

/-- A key is removed, and the items of other keys stay as they are. -/
theorem shows_remove_iff (h : Shows key value table there) {k : κ} (htable : table' k = none)
    (hrest : ∀ k', k' ≠ k → table' k' = table k')
    (hother : ∀ y, key y ≠ k → (there' y ↔ there y)) :
    Shows key value table' there' ↔ ∀ y, key y = k → ¬there' y := by
  constructor
  · intro h' y hkey hy
    have hshown := (h' y).mpr hy
    rw [hkey, htable] at hshown
    cases hshown
  · intro hnone y
    by_cases hkey : key y = k
    · rw [hkey, htable]
      exact iff_of_false (by simp) (hnone y hkey)
    · rw [hrest _ hkey, hother y hkey]
      exact h y

/-- Items go, and the table stays as it is. -/
theorem shows_lose_iff (h : Shows key value table there) (hless : ∀ y, there' y → there y) :
    Shows key value table there' ↔ ∀ y, there y → there' y := by
  constructor
  · intro h' y hy
    exact (h' y).mp ((h y).mpr hy)
  · intro hkept y
    exact (h y).trans ⟨hkept y, hless y⟩

end Mirror
