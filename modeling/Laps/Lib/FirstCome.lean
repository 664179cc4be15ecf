import Mathlib.Data.Set.Basic
import Mathlib.Tactic.Common

/-! Tables in which the first entry under a key stays. -/

namespace FirstCome

variable {κ α : Type*}

open Classical in
/-- The entries `f k` are offered under the keys of `X`; a key that has an entry keeps it. -/
noncomputable def offer (t : κ → Option α) (X : Set κ) (f : κ → α) (k : κ) : Option α :=
  (t k).or (if k ∈ X then some (f k) else none)

variable {t t' : κ → Option α} {X Y : Set κ} {f g : κ → α} {k : κ}

theorem offer_of_some {x : α} (h : t k = some x) : offer t X f k = some x := by
  rw [offer, h, Option.some_or]

theorem offer_of_mem (h : t k = none) (hk : k ∈ X) : offer t X f k = some (f k) := by
  rw [offer, h, Option.none_or, if_pos hk]

theorem offer_of_not_mem (hk : k ∉ X) : offer t X f k = t k := by
  rw [offer, if_neg hk, Option.or_none]

theorem offer_eq_self (h : ∀ k, k ∉ X) : offer t X f = t :=
  funext fun k => offer_of_not_mem (h k)

theorem offer_congr (hX : ∀ k, k ∈ X ↔ k ∈ Y) (hf : ∀ k ∈ X, f k = g k) :
    offer t X f = offer t Y g := by
  obtain rfl : X = Y := Set.ext hX
  funext k
  by_cases hk : k ∈ X
  · rw [offer, hf k hk, offer]
  · rw [offer_of_not_mem hk, offer_of_not_mem hk]

/-- A table that is read as one with offers is that table. -/
theorem eq_offer (hsome : ∀ k x, t k = some x → t' k = some x)
    (hmem : ∀ k, t k = none → k ∈ X → t' k = some (f k))
    (hnone : ∀ k, t k = none → k ∉ X → t' k = none) : t' = offer t X f := by
  funext k
  cases hk : t k with
  | some x => rw [hsome k x hk, offer_of_some hk]
  | none =>
    by_cases hX : k ∈ X
    · rw [hmem k hk hX, offer_of_mem hk hX]
    · rw [hnone k hk hX, offer_of_not_mem hX, hk]

/-- Offers of the same entries, one after the other. -/
theorem offer_offer (t : κ → Option α) (X Y : Set κ) (f : κ → α) :
    offer (offer t X f) Y f = offer t (X ∪ Y) f := by
  funext k
  cases hk : t k with
  | some x => rw [offer_of_some (offer_of_some hk), offer_of_some hk]
  | none =>
    by_cases hX : k ∈ X
    · rw [offer_of_some (offer_of_mem hk hX), offer_of_mem hk (Or.inl hX)]
    · by_cases hY : k ∈ Y
      · rw [offer_of_mem ((offer_of_not_mem hX).trans hk) hY, offer_of_mem hk (Or.inr hY)]
      · rw [offer_of_not_mem hY, offer_of_not_mem hX,
          offer_of_not_mem fun hin => hin.elim hX hY]

end FirstCome
