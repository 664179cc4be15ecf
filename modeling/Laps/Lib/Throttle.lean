import Mathlib.Data.List.Chain
import Mathlib.Data.List.Basic

/-! Events with a key and a time, of which only some are passed on: those that are urgent, and those
that come late enough after the last one of their key that was passed on. -/

structure Throttle (σ κ : Type*) where
  key : σ → κ
  time : σ → ℕ
  interval : ℕ
  /-- After the first event has been passed on, the second one is at once. -/
  urgent : σ → σ → Bool

namespace Throttle

variable {σ κ : Type*} [DecidableEq κ] (t : Throttle σ κ)

/-! ### The events that are passed on -/

/-- The last event of the key. -/
def last (xs : List σ) (k : κ) : Option σ := (xs.filter fun x => t.key x = k).getLast?

/-- The event is passed on after those that have been. -/
def passes (passed : List σ) (x : σ) : Bool :=
  (t.last passed (t.key x)).all fun l => t.urgent l x || decide (t.interval < t.time x - t.time l)

def step (passed : List σ) (x : σ) : List σ := if t.passes passed x then passed ++ [x] else passed

/-- What is passed on of the events. -/
def pass (xs : List σ) : List σ := xs.foldl t.step []

variable {t}

@[simp] theorem pass_nil : t.pass [] = [] := rfl

theorem pass_concat (xs : List σ) (x : σ) :
    t.pass (xs ++ [x]) = if t.passes (t.pass xs) x then t.pass xs ++ [x] else t.pass xs := by
  rw [pass, List.foldl_concat]
  rfl

@[simp] theorem last_nil (k : κ) : t.last [] k = none := rfl

theorem last_concat (xs : List σ) (x : σ) (k : κ) :
    t.last (xs ++ [x]) k = if t.key x = k then some x else t.last xs k := by
  unfold last
  rw [List.filter_append]
  split
  · rename_i hkey
    simp [hkey]
  · rename_i hkey
    simp [hkey]

theorem mem_of_last {xs : List σ} {k : κ} {x : σ} (h : t.last xs k = some x) :
    x ∈ xs ∧ t.key x = k := by
  have hmem := List.mem_filter.mp (List.mem_of_getLast? h)
  exact ⟨hmem.1, of_decide_eq_true hmem.2⟩

theorem last_isSome_iff {xs : List σ} {k : κ} :
    (t.last xs k).isSome ↔ ∃ x ∈ xs, t.key x = k := by
  rw [last, List.getLast?_isSome, ne_eq, List.filter_eq_nil_iff]
  simp

theorem pass_sublist (xs : List σ) : (t.pass xs).Sublist xs := by
  induction xs using List.reverseRecOn with
  | nil => exact .refl _
  | append_singleton xs x ih =>
    rw [pass_concat]
    split
    · exact ih.append (.refl [x])
    · exact ih.trans (List.sublist_append_left xs [x])

theorem mem_of_mem_pass {xs : List σ} {x : σ} (h : x ∈ t.pass xs) : x ∈ xs :=
  (pass_sublist xs).subset h

/-- An event that is passed on is the last one of its key, and leaves the others alone. -/
theorem last_pass_concat (xs : List σ) (x : σ) (k : κ) :
    t.last (t.pass (xs ++ [x])) k =
      if t.passes (t.pass xs) x ∧ t.key x = k then some x else t.last (t.pass xs) k := by
  rw [pass_concat]
  split
  · rename_i hpasses
    rw [last_concat]
    simp [hpasses]
  · rename_i hpasses
    simp [hpasses]

theorem last_pass_concat_of_ne {xs : List σ} {x : σ} {k : κ} (h : t.key x ≠ k) :
    t.last (t.pass (xs ++ [x])) k = t.last (t.pass xs) k := by
  rw [last_pass_concat, if_neg fun hkey => h hkey.2]

theorem last_pass_append_of_ne {xs ys : List σ} {k : κ} (h : ∀ y ∈ ys, t.key y ≠ k) :
    t.last (t.pass (xs ++ ys)) k = t.last (t.pass xs) k := by
  induction ys using List.reverseRecOn with
  | nil => rw [List.append_nil]
  | append_singleton ys y ih =>
    rw [← List.append_assoc, last_pass_concat_of_ne (h y (by simp))]
    exact ih fun y' hy' => h y' (by simp [hy'])

/-- What is held back comes soon after an event that makes it not urgent. -/
theorem exists_last_of_not_passes {passed : List σ} {x : σ} (h : t.passes passed x = false) :
    ∃ l, t.last passed (t.key x) = some l ∧ t.urgent l x = false ∧
      t.time x ≤ t.time l + t.interval := by
  cases hlast : t.last passed (t.key x) with
  | none =>
    rw [passes, hlast] at h
    cases h
  | some l =>
    rw [passes, hlast, Option.all_some, Bool.or_eq_false_iff, decide_eq_false_iff_not] at h
    exact ⟨l, rfl, h.1, by omega⟩

/-! ### Nothing is lost for long -/

/-- The events of a key come in the order of their times. -/
def Ordered (t : Throttle σ κ) (xs : List σ) : Prop :=
  xs.Pairwise fun a b => t.key a = t.key b → t.time a ≤ t.time b

omit [DecidableEq κ] in
theorem Ordered.of_concat {xs : List σ} {x : σ} (h : t.Ordered (xs ++ [x])) : t.Ordered xs :=
  (List.pairwise_append.mp h).1

theorem Ordered.le {xs : List σ} {x : σ} (h : t.Ordered (xs ++ [x])) {l : σ}
    (hl : t.last (t.pass xs) (t.key x) = some l) : t.time l ≤ t.time x := by
  obtain ⟨hmem, hkey⟩ := mem_of_last hl
  exact (List.pairwise_append.mp h).2.2 l (mem_of_mem_pass hmem) x (List.mem_singleton.mpr rfl) hkey

/-- The last event of a key has been passed on, or one of the interval before it has, after which it
is not urgent. -/
theorem exists_last_pass {xs : List σ} (h : t.Ordered xs) {k : κ} {x : σ}
    (hx : t.last xs k = some x) :
    ∃ l, t.last (t.pass xs) k = some l ∧ t.time l ≤ t.time x ∧
      t.time x ≤ t.time l + t.interval ∧ (l = x ∨ t.urgent l x = false) := by
  induction xs using List.reverseRecOn with
  | nil => cases hx
  | append_singleton xs y ih =>
    by_cases hkey : t.key y = k
    · rw [last_concat, if_pos hkey, Option.some.injEq] at hx
      subst hx
      cases hpasses : t.passes (t.pass xs) y with
      | true =>
        refine ⟨y, ?_, le_rfl, Nat.le_add_right _ _, .inl rfl⟩
        rw [last_pass_concat, if_pos ⟨hpasses, hkey⟩]
      | false =>
        obtain ⟨l, hl, hcalm, hsoon⟩ := exists_last_of_not_passes hpasses
        refine ⟨l, ?_, h.le hl, hsoon, .inr hcalm⟩
        rw [last_pass_concat, if_neg fun hboth => Bool.false_ne_true (hpasses ▸ hboth.1), ← hkey, hl]
    · rw [last_concat, if_neg hkey] at hx
      rw [last_pass_concat_of_ne hkey]
      exact ih h.of_concat hx

theorem last_isSome_of_pass {xs : List σ} {k : κ} {l : σ} (hl : t.last (t.pass xs) k = some l) :
    (t.last xs k).isSome := by
  obtain ⟨hmem, hkey⟩ := mem_of_last hl
  exact last_isSome_iff.mpr ⟨l, mem_of_mem_pass hmem, hkey⟩

/-! ### Not much is passed on -/

/-- The second event is passed on after the first one. -/
def Follows (t : Throttle σ κ) (a b : σ) : Prop :=
  t.urgent a b = true ∨ t.time a + t.interval < t.time b

/-- Of the events of a key that are passed on, each one is urgent or late after the one before. -/
theorem isChain_pass (xs : List σ) (k : κ) :
    ((t.pass xs).filter fun x => t.key x = k).IsChain t.Follows := by
  induction xs using List.reverseRecOn with
  | nil => exact .nil
  | append_singleton xs x ih =>
    rw [pass_concat]
    split
    · rename_i hpasses
      rw [List.filter_append]
      by_cases hkey : t.key x = k
      · rw [List.filter_singleton, decide_eq_true hkey, cond_true, List.isChain_append]
        refine ⟨ih, .singleton x, fun l hl x' hx' => ?_⟩
        cases hx'
        have hlast : t.last (t.pass xs) (t.key x) = some l := by rw [hkey]; exact hl
        rw [passes, hlast, Option.all_some, Bool.or_eq_true, decide_eq_true_eq] at hpasses
        exact hpasses.imp_right fun hlate => by omega
      · rw [List.filter_singleton, decide_eq_false hkey, cond_false, List.append_nil]
        exact ih
    · exact ih

end Throttle
