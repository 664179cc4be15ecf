import Laps.Lib.OrdMap

/-! Loops over the entries of an ordered map in whose body the map changes.  The loop stands on an
entry, and goes on to the first one after it that is there by then. -/

namespace Sweep

open Std

variable {α β σ : Type*} {cmp : α → α → Ordering}

/-- The key comes after all that were visited. -/
def After (cmp : α → α → Ordering) (visited : List α) (k : α) : Prop :=
  ∀ x ∈ visited, cmp x k = .lt

instance (visited : List α) (k : α) : Decidable (After cmp visited k) :=
  inferInstanceAs (Decidable (∀ x ∈ visited, _))

section After

variable {visited : List α} {k : α}

theorem after_nil (k : α) : After cmp [] k := by
  simp [After]

theorem after_concat {x : α} :
    After cmp (visited ++ [x]) k ↔ After cmp visited k ∧ cmp x k = .lt := by
  simp [After, or_imp, forall_and]

theorem not_lt_self [ReflCmp cmp] (x : α) : cmp x x ≠ .lt := by
  have hself : cmp x x = .eq := ReflCmp.compare_self
  rw [hself]
  exact nofun

theorem After.not_mem [ReflCmp cmp] (h : After cmp visited k) : k ∉ visited :=
  fun hmem => not_lt_self k (h k hmem)

end After

variable [TransCmp cmp]

/-- Where the loop goes. -/
def nextKey (m : ExtTreeMap α β cmp) (visited : List α) : Option α :=
  m.keys.find? fun k => After cmp visited k

/-- The keys that are visited and the state after the loop.  `none` when the body fails, when the
entry that the loop stands on is gone after the body, and when there is not enough fuel. -/
def sweep (entries : σ → ExtTreeMap α β cmp) (body : σ → α → Option σ) :
    ℕ → List α → σ → Option (List α × σ)
  | 0, _, _ => none
  | fuel + 1, visited, s =>
    match nextKey (entries s) visited with
    | none => some (visited, s)
    | some k =>
      (body s k).bind fun s =>
        if (entries s).contains k then sweep entries body fuel (visited ++ [k]) s else none

section Next

variable {m : ExtTreeMap α β cmp} {visited : List α} {k : α}

theorem nextKey_eq_none_iff [LawfulEqCmp cmp] :
    nextKey m visited = none ↔ ∀ k, m.contains k = true → ¬After cmp visited k := by
  simp [nextKey, List.find?_eq_none]

/-- The loop goes to the first of the keys that are left. -/
theorem nextKey_eq_some [LawfulEqCmp cmp] (h : nextKey m visited = some k) :
    m.contains k = true ∧ After cmp visited k ∧
      ∀ k', m.contains k' = true → After cmp visited k' → k' = k ∨ cmp k k' = .lt := by
  have hsorted : m.keys.Pairwise fun a b => cmp a b = .lt := ExtTreeMap.ordered_keys
  obtain ⟨hafter, before, rest, hkeys, hbefore⟩ := List.find?_eq_some_iff_append.mp h
  refine ⟨?_, by simpa using hafter, fun k' hk' hafter' => ?_⟩
  · rw [← ExtTreeMap.mem_iff_contains, ← ExtTreeMap.mem_keys, hkeys]
    simp
  · rw [← ExtTreeMap.mem_iff_contains, ← ExtTreeMap.mem_keys, hkeys, List.mem_append,
      List.mem_cons] at hk'
    rw [hkeys, List.pairwise_append, List.pairwise_cons] at hsorted
    obtain hmem | rfl | hmem := hk'
    · have hnot := hbefore k' hmem
      simp [hafter'] at hnot
    · exact .inl rfl
    · exact .inr (hsorted.2.1.1 k' hmem)

end Next

section Rules

variable [LawfulEqCmp cmp] {entries : σ → ExtTreeMap α β cmp} {body : σ → α → Option σ}
variable {I : List α → σ → Prop} {fuel : ℕ} {visited visited' : List α} {s s' : σ}

/-- The body keeps the invariant, when the loop can go on after it. -/
def Keeps (entries : σ → ExtTreeMap α β cmp) (body : σ → α → Option σ)
    (I : List α → σ → Prop) : Prop :=
  ∀ visited s k s', I visited s → nextKey (entries s) visited = some k → body s k = some s' →
    (entries s').contains k = true → I (visited ++ [k]) s'

omit [LawfulEqCmp cmp] in
/-- What the body keeps holds after the loop. -/
theorem sweep_inv (hstep : Keeps entries body I) (hI : I visited s)
    (h : sweep entries body fuel visited s = some (visited', s')) :
    I visited' s' ∧ nextKey (entries s') visited' = none := by
  induction fuel generalizing visited s with
  | zero => cases h
  | succ fuel ih =>
    rw [sweep] at h
    split at h
    · rename_i hnone
      cases h
      exact ⟨hI, hnone⟩
    · rename_i k hnext
      obtain ⟨s₁, hbody, hrest⟩ := Option.bind_eq_some_iff.mp h
      split at hrest
      · rename_i hcontains
        exact ih (hstep visited s k s₁ hI hnext hbody hcontains) hrest
      · cases hrest

/-- The keys are visited in their order. -/
theorem pairwise_visited (h : sweep entries body fuel [] s = some (visited', s')) :
    visited'.Pairwise fun a b => cmp a b = .lt := by
  refine (sweep_inv (I := fun visited _ => visited.Pairwise fun a b => cmp a b = .lt) ?_
    List.Pairwise.nil h).1
  intro visited s k _ hsorted hnext _ _
  refine List.pairwise_append.mpr ⟨hsorted, List.pairwise_singleton .., fun x hx y hy => ?_⟩
  rw [List.mem_singleton.mp hy]
  exact (nextKey_eq_some hnext).2.1 x hx

theorem nodup_visited (h : sweep entries body fuel [] s = some (visited', s')) :
    visited'.Nodup := by
  refine (pairwise_visited h).imp fun {a b} hlt heq => ?_
  rw [heq] at hlt
  exact not_lt_self b hlt

/-- A key is visited when it stays in the map while the loop is before it. -/
theorem mem_visited {k : α} (hstep : Keeps entries body I) (hI : I [] s)
    (hpresent : ∀ visited s, I visited s → After cmp visited k → (entries s).contains k = true)
    (h : sweep entries body fuel [] s = some (visited', s')) : k ∈ visited' := by
  have hinv := sweep_inv (I := fun visited s => I visited s ∧
    (k ∈ visited ∨ After cmp visited k)) ?_ ⟨hI, .inr (after_nil k)⟩ h
  · obtain ⟨⟨hI', hmem | hafter⟩, hnone⟩ := hinv
    · exact hmem
    · exact absurd hafter (nextKey_eq_none_iff.mp hnone k (hpresent _ _ hI' hafter))
  · rintro visited s x s' ⟨hI, hk⟩ hnext hbody hcontains
    refine ⟨hstep visited s x s' hI hnext hbody hcontains, ?_⟩
    obtain hmem | hafter := hk
    · exact .inl (List.mem_append_left _ hmem)
    · obtain heq | hlt := (nextKey_eq_some hnext).2.2 k (hpresent _ _ hI hafter) hafter
      · exact .inl (by simp [heq])
      · exact .inr (after_concat.mpr ⟨hafter, hlt⟩)

/-- A loop whose body succeeds ends, when there are only so many keys. -/
theorem exists_sweep [DecidableEq α] (keys : List α) (hI : I [] s)
    (hstep : ∀ visited s k, I visited s → nextKey (entries s) visited = some k → k ∈ keys ∧
      ∃ s', body s k = some s' ∧ (entries s').contains k = true ∧ I (visited ++ [k]) s') :
    ∃ visited s', sweep entries body (keys.length + 1) [] s = some (visited, s') := by
  have hends : ∀ fuel visited s, I visited s →
      (keys.filter (· ∉ visited)).length < fuel →
      ∃ visited' s', sweep entries body fuel visited s = some (visited', s') := by
    intro fuel
    induction fuel with
    | zero => exact fun _ _ _ hlt => absurd hlt (Nat.not_lt_zero _)
    | succ fuel ih =>
      intro visited s hI hlt
      rw [sweep]
      cases hnext : nextKey (entries s) visited with
      | none => exact ⟨visited, s, rfl⟩
      | some k =>
        obtain ⟨hk, s₁, hbody, hcontains, hI₁⟩ := hstep visited s k hI hnext
        have hnew : k ∉ visited := (nextKey_eq_some hnext).2.1.not_mem
        -- The key that is visited no longer counts.
        have hfewer : (keys.filter (· ∉ visited ++ [k])).length <
            (keys.filter (· ∉ visited)).length := by
          have hsplit : keys.filter (· ∉ visited ++ [k]) =
              (keys.filter (· ∉ visited)).filter (· ≠ k) := by
            rw [List.filter_filter]
            refine List.filter_congr fun x _ => ?_
            simp [and_comm]
          rw [hsplit]
          refine List.length_filter_lt_length_iff_exists.mpr ⟨k, ?_, by simp⟩
          exact List.mem_filter.mpr ⟨hk, by simpa using hnew⟩
        obtain ⟨visited', s', hrest⟩ := ih (visited ++ [k]) s₁ hI₁ (by omega)
        refine ⟨visited', s', ?_⟩
        dsimp only
        rw [hbody, Option.bind_some, if_pos hcontains, hrest]
  refine hends _ [] s hI ?_
  have hle := List.length_filter_le (· ∉ ([] : List α)) keys
  omega

omit [LawfulEqCmp cmp] in
theorem foldl_of_gone {f : σ → α → σ} (hgone : ∀ s k, (entries s).contains k = false → f s k = s)
    {l : List α} {s : σ} (hl : ∀ k ∈ l, (entries s).contains k = false) : l.foldl f s = s := by
  induction l with
  | nil => rfl
  | cons k l ih =>
    rw [List.foldl_cons, hgone s k (hl k List.mem_cons_self)]
    exact ih fun x hx => hl x (List.mem_cons_of_mem k hx)

/-- What comes before the next key is gone. -/
theorem gone_of_lt_nextKey {s : σ} {visited : List α} {k x : α}
    (hnext : nextKey (entries s) visited = some k) (hafter : After cmp visited x)
    (hlt : cmp x k = .lt) : (entries s).contains x = false := by
  obtain ⟨-, -, hfirst⟩ := nextKey_eq_some hnext
  refine Bool.eq_false_iff.mpr fun hcontains => ?_
  obtain rfl | hkx := hfirst x hcontains hafter
  · exact not_lt_self x hlt
  · exact OrientedCmp.not_lt_of_lt hlt hkx

/-- The list has the keys that the loop has not come to, and maybe some that are gone. -/
theorem sweep_eq_foldl_of_after {f : σ → α → σ}
    (hgone : ∀ s k, (entries s).contains k = false → f s k = s)
    (hkeys : ∀ s k k', (entries (f s k)).contains k' = true → (entries s).contains k' = true)
    {fuel : ℕ} {visited : List α} {s : σ} {l : List α}
    (hsorted : l.Pairwise fun a b => cmp a b = .lt) (hafter : ∀ k ∈ l, After cmp visited k)
    (hall : ∀ k, (entries s).contains k = true → After cmp visited k → k ∈ l)
    (h : sweep entries (fun s k => some (f s k)) fuel visited s = some (visited', s')) :
    l.foldl f s = s' := by
  induction fuel generalizing visited s l with
  | zero => cases h
  | succ fuel ih =>
    rw [sweep] at h
    split at h
    · rename_i hnone
      cases h
      refine foldl_of_gone hgone fun k hk => Bool.eq_false_iff.mpr fun hcontains => ?_
      exact nextKey_eq_none_iff.mp hnone k hcontains (hafter k hk)
    · rename_i k hnext
      obtain ⟨hcontains, hafterk, -⟩ := nextKey_eq_some hnext
      obtain ⟨before, rest, rfl⟩ := List.append_of_mem (hall k hcontains hafterk)
      obtain ⟨-, hrest, hbefore⟩ := List.pairwise_append.mp hsorted
      obtain ⟨hk, hrest⟩ := List.pairwise_cons.mp hrest
      have hlt : ∀ x ∈ before, cmp x k = .lt := fun x hx => hbefore x hx k List.mem_cons_self
      have hskip : before.foldl f s = s := foldl_of_gone hgone fun x hx =>
        gone_of_lt_nextKey hnext (hafter x (List.mem_append_left _ hx)) (hlt x hx)
      rw [List.foldl_append, List.foldl_cons, hskip]
      rw [Option.bind_some] at h
      split at h
      · refine ih hrest (fun x hx => ?_) (fun x hx hafterx => ?_) h
        · refine after_concat.mpr ⟨hafter x ?_, hk x hx⟩
          exact List.mem_append_right _ (List.mem_cons_of_mem k hx)
        · obtain ⟨hafterx, hkx⟩ := after_concat.mp hafterx
          have hmem := hall x (hkeys s k x hx) hafterx
          rw [List.mem_append, List.mem_cons] at hmem
          obtain hmem | rfl | hmem := hmem
          · exact absurd hkx (OrientedCmp.not_lt_of_lt (hlt x hmem))
          · exact absurd hkx (not_lt_self x)
          · exact hmem
      · cases h

/-- A loop whose body does not bring in keys is one over the keys that there are at first, of which
those that are gone by then are passed over. -/
theorem sweep_eq_foldl {f : σ → α → σ}
    (hgone : ∀ s k, (entries s).contains k = false → f s k = s)
    (hkeys : ∀ s k k', (entries (f s k)).contains k' = true → (entries s).contains k' = true)
    (h : sweep entries (fun s k => some (f s k)) fuel [] s = some (visited', s')) :
    (entries s).keys.foldl f s = s' := by
  refine sweep_eq_foldl_of_after hgone hkeys ExtTreeMap.ordered_keys (fun k _ => after_nil k)
    (fun k hk _ => ?_) h
  rwa [ExtTreeMap.mem_keys, ExtTreeMap.mem_iff_contains]

end Rules

end Sweep
