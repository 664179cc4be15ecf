import Mathlib.Data.List.Basic
import Mathlib.Tactic.Common

/-! Loops over a list that pass some elements over, take others, and end at one. -/

namespace Scan

variable {α : Type*}

/-- What the body of the loop does with an element. -/
inductive Verdict where
  | skip
  | take
  | stop
  deriving DecidableEq, Repr

/-- The elements that are taken before the loop ends. -/
def scan (judge : α → Verdict) : List α → List α
  | [] => []
  | a :: l =>
    match judge a with
    | .skip => scan judge l
    | .take => a :: scan judge l
    | .stop => []

section Cons

variable {judge : α → Verdict} {a : α}

theorem scan_of_skip (h : judge a = .skip) (l : List α) : scan judge (a :: l) = scan judge l := by
  rw [scan, h]

theorem scan_of_take (h : judge a = .take) (l : List α) :
    scan judge (a :: l) = a :: scan judge l := by
  rw [scan, h]

theorem scan_of_stop (h : judge a = .stop) (l : List α) : scan judge (a :: l) = [] := by
  rw [scan, h]

end Cons

/-- After an element that ends the loop there would only be such elements. -/
def Stays (judge : α → Verdict) (l : List α) : Prop :=
  l.Pairwise fun a b => judge a = .stop → judge b = .stop

/-- What is taken is all that is to be taken. -/
theorem scan_eq_filter {judge : α → Verdict} {l : List α} (h : Stays judge l) :
    scan judge l = l.filter fun a => judge a = .take := by
  induction l with
  | nil => rfl
  | cons a l ih =>
    obtain ⟨hfirst, hrest⟩ := List.pairwise_cons.mp h
    cases hjudge : judge a with
    | skip => simpa [scan_of_skip hjudge, hjudge] using ih hrest
    | take => simpa [scan_of_take hjudge, hjudge] using ih hrest
    | stop =>
      have hnone : ∀ b ∈ a :: l, judge b ≠ .take := by
        intro b hb
        obtain rfl | hb := List.mem_cons.mp hb
        · simp [hjudge]
        · simp [hfirst b hb hjudge]
      rw [scan_of_stop hjudge]
      exact (List.filter_eq_nil_iff.mpr (by simpa using hnone)).symm

end Scan
