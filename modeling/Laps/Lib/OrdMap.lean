import Std.Data.ExtTreeMap
import Std.Data.ExtTreeSet
import Mathlib.Algebra.Group.Nat.Defs
import Mathlib.Tactic.Common
import Mathlib.Data.List.Nodup
import Mathlib.Logic.Function.Iterate

/-! Ordered maps: pairs as keys in lexicographic order, tests over the entries of a map, and the
entries that share the first component of their key. -/

namespace Std

/-- Pairs are ordered lexicographically. -/
instance instOrdProdLex {α β : Type*} [Ord α] [Ord β] : Ord (α × β) := lexOrd

namespace ExtTreeMap

section Entries

variable {α β : Type*} {cmp : α → α → Ordering} [TransCmp cmp]

/-- Some entry of the map satisfies `p`. -/
def anyEntry (m : ExtTreeMap α β cmp) (p : α → β → Bool) : Bool :=
  m.toList.any fun entry => p entry.1 entry.2

theorem contains_iff_getElem? {m : ExtTreeMap α β cmp} {k : α} :
    m.contains k = true ↔ ∃ v, m[k]? = some v := by
  rw [contains_eq_isSome_getElem?, Option.isSome_iff_exists]

theorem contains_eq_false_iff {m : ExtTreeMap α β cmp} {k : α} :
    m.contains k = false ↔ m[k]? = none := by
  rw [contains_eq_isSome_getElem?, Option.isSome_eq_false_iff, Option.isNone_iff_eq_none]

theorem contains_insert_iff [LawfulEqCmp cmp] {m : ExtTreeMap α β cmp} {k k' : α} {v : β} :
    (m.insert k v).contains k' = true ↔ k' = k ∨ m.contains k' = true := by
  rw [contains_insert, Bool.or_eq_true, beq_iff_eq, LawfulEqCmp.compare_eq_iff_eq, eq_comm]

theorem isEmpty_iff_getElem? {m : ExtTreeMap α β cmp} :
    m.isEmpty = true ↔ ∀ k : α, m[k]? = none := by
  rw [isEmpty_iff, eq_empty_iff_forall_not_mem]
  simp

theorem isEmpty_eq_false_iff_getElem? {m : ExtTreeMap α β cmp} :
    m.isEmpty = false ↔ ∃ (k : α) (v : β), m[k]? = some v := by
  rw [← Bool.not_eq_true, isEmpty_iff_getElem?, not_forall]
  simp only [Option.ne_none_iff_exists', ← ne_eq]

variable [LawfulEqCmp cmp]

theorem anyEntry_iff {m : ExtTreeMap α β cmp} {p : α → β → Bool} :
    m.anyEntry p = true ↔ ∃ k v, m[k]? = some v ∧ p k v = true := by
  simp [anyEntry, List.any_eq_true, mem_toList_iff_getElem?_eq_some]

theorem getElem?_insert_ite [DecidableEq α] (m : ExtTreeMap α β cmp) (k k' : α) (v : β) :
    (m.insert k v)[k']? = if k' = k then some v else m[k']? := by
  rw [getElem?_insert]
  simp only [LawfulEqCmp.compare_eq_iff_eq, eq_comm (a := k')]

theorem getElem?_erase_ite [DecidableEq α] (m : ExtTreeMap α β cmp) (k k' : α) :
    (m.erase k)[k']? = if k' = k then none else m[k']? := by
  rw [getElem?_erase]
  simp only [LawfulEqCmp.compare_eq_iff_eq, eq_comm (a := k')]

theorem insert_eq_self_iff {m : ExtTreeMap α β cmp} {k : α} {v : β} :
    m.insert k v = m ↔ m[k]? = some v := by
  constructor
  · intro h
    rw [← h, getElem?_insert_self]
  · intro h
    refine ext_getElem? fun k' => ?_
    rw [getElem?_insert]
    split
    · rename_i heq
      rw [← LawfulEqCmp.eq_of_compare heq, h]
    · rfl

theorem erase_insertIfNew {m : ExtTreeMap α β cmp} {k : α} (h : m[k]? = none) (v : β) :
    (m.insertIfNew k v).erase k = m := by
  refine ext_getElem? fun k' => ?_
  rw [getElem?_erase]
  split
  · rename_i heq
    rw [← LawfulEqCmp.eq_of_compare heq, h]
  · rename_i hne
    rw [getElem?_insertIfNew, if_neg fun hnew => hne hnew.1]

theorem getElem?_insertIfNew_getD [DecidableEq α] (m : ExtTreeMap α β cmp) (k k' : α) (v : β) :
    (m.insertIfNew k v)[k']? = if k' = k then some (m[k]?.getD v) else m[k']? := by
  rw [getElem?_insertIfNew]
  by_cases hk : k' = k
  · subst hk
    by_cases hmem : k' ∈ m
    · simp [hmem]
    · simp [hmem]
  · simp [hk, Ne.symm hk]

/-- No two entries of a map share a key. -/
theorem pairwise_toList_ne {m : ExtTreeMap α β cmp} :
    m.toList.Pairwise fun a b => a.1 ≠ b.1 := by
  refine (distinct_keys_toList (t := m)).imp fun h heq => h ?_
  rw [heq]
  exact ReflCmp.compare_self

/-- A map with an entry has a last one. -/
theorem exists_getLast? {m : ExtTreeMap α β cmp} {k : α} {v : β} (h : m[k]? = some v) :
    ∃ e, m.toList.getLast? = some e := by
  have hmem : (k, v) ∈ m.toList := mem_toList_iff_getElem?_eq_some.mpr h
  exact ⟨_, List.getLast?_eq_some_getLast (List.ne_nil_of_mem hmem)⟩

/-- No key comes after the last one. -/
theorem not_lt_of_getLast? {m : ExtTreeMap α β cmp} {e : α × β} {k : α} {v : β}
    (he : m.toList.getLast? = some e) (h : m[k]? = some v) : cmp e.1 k ≠ .lt := by
  have hmem : (k, v) ∈ m.toList := mem_toList_iff_getElem?_eq_some.mpr h
  have hsorted : m.toList.Pairwise fun a b => cmp a.1 b.1 = .lt := ordered_keys_toList
  obtain ⟨before, hbefore⟩ := List.getLast?_eq_some_iff.mp he
  rw [hbefore, List.mem_append, List.mem_singleton] at hmem
  rw [hbefore, List.pairwise_append] at hsorted
  obtain hmem | rfl := hmem
  · intro hlt
    have hgt := hsorted.2.2 _ hmem e (List.mem_singleton_self e)
    exact OrientedCmp.not_lt_of_lt hlt hgt
  · have hself : cmp k k = .eq := ReflCmp.compare_self
    simp [hself]

/-- The entry of the least key comes first. -/
theorem toList_eq_of_least (m : ExtTreeMap α β cmp) {k : α} (hleast : ∀ k', cmp k' k ≠ .lt) :
    ∃ rest, m.toList = m[k]?.toList.map (k, ·) ++ rest ∧ ∀ e ∈ rest, e.1 ≠ k := by
  cases hget : m[k]? with
  | none =>
    refine ⟨m.toList, rfl, fun e he heq => ?_⟩
    have hmem := mem_toList_iff_getElem?_eq_some.mp he
    rw [heq, hget] at hmem
    cases hmem
  | some v =>
    have hmem : (k, v) ∈ m.toList := mem_toList_iff_getElem?_eq_some.mpr hget
    have hsorted : m.toList.Pairwise fun a b => cmp a.1 b.1 = .lt := ordered_keys_toList
    obtain ⟨before, rest, hlist⟩ := List.append_of_mem hmem
    rw [hlist, List.pairwise_append] at hsorted
    obtain ⟨-, hrest, hbefore⟩ := hsorted
    have hnil : before = [] := List.eq_nil_iff_forall_not_mem.mpr fun e he =>
      hleast e.1 (hbefore e he (k, v) List.mem_cons_self)
    refine ⟨rest, by rw [hlist, hnil]; rfl, fun e he heq => ?_⟩
    have hlt := List.rel_of_pairwise_cons hrest he
    have hself : cmp k k = .eq := ReflCmp.compare_self
    rw [heq, hself] at hlt
    cases hlt

/-- A loop in which one key matters. -/
theorem flatMap_toList_eq {γ : Type*} (m : ExtTreeMap α β cmp) (k : α) {f : α × β → List γ}
    (hf : ∀ e, e.1 ≠ k → f e = []) :
    m.toList.flatMap f = m[k]?.toList.flatMap fun v => f (k, v) := by
  have hlist : ∀ l : List (α × β), l.Pairwise (fun a b => a.1 ≠ b.1) → ∀ v, (k, v) ∈ l →
      l.flatMap f = f (k, v) := by
    intro l hl v hv
    induction l with
    | nil => simp at hv
    | cons e l ih =>
      obtain ⟨hne, hl⟩ := List.pairwise_cons.mp hl
      obtain rfl | hv := List.mem_cons.mp hv
      · have hnil : l.flatMap f = [] :=
          List.flatMap_eq_nil_iff.mpr fun e he => hf e (hne e he).symm
        rw [List.flatMap_cons, hnil, List.append_nil]
      · rw [List.flatMap_cons, hf e (hne _ hv), List.nil_append, ih hl hv]
  cases hget : m[k]? with
  | some v =>
    rw [hlist _ pairwise_toList_ne v (mem_toList_iff_getElem?_eq_some.mpr hget)]
    simp
  | none =>
    refine List.flatMap_eq_nil_iff.mpr fun e he => hf e ?_
    rintro rfl
    rw [mem_toList_iff_getElem?_eq_some.mp he] at hget
    cases hget

end Entries

section Pairs

variable {α β γ : Type*} [Ord α] [TransOrd α] [LawfulEqOrd α] [DecidableEq α]
variable [Ord β] [TransOrd β] [LawfulEqOrd β]

/-- The entries whose key has first component `a`, in the order of the second: a loop that starts
at the lower bound of `(a, 0)` and stops at the first key with another first component. -/
def withFst (m : ExtTreeMap (α × β) γ) (a : α) : List ((α × β) × γ) :=
  m.toList.filter fun entry => entry.1.1 = a

theorem mem_withFst {m : ExtTreeMap (α × β) γ} {a : α} {entry : (α × β) × γ} :
    entry ∈ m.withFst a ↔ m[entry.1]? = some entry.2 ∧ entry.1.1 = a := by
  obtain ⟨k, v⟩ := entry
  simp [withFst, mem_toList_iff_getElem?_eq_some]

/-- The entries that share a first component come in the order of the second. -/
theorem pairwise_withFst {m : ExtTreeMap (α × β) γ} {a : α} :
    (m.withFst a).Pairwise fun x y => compare x.1.2 y.1.2 = .lt := by
  have hsorted : m.toList.Pairwise fun x y => compare x.1 y.1 = .lt := ordered_keys_toList
  have hfst : (m.withFst a).Pairwise fun x y => x.1.1 = a ∧ y.1.1 = a := by
    refine List.pairwise_of_forall_mem_list fun x hx y hy => ?_
    exact ⟨(mem_withFst.mp hx).2, (mem_withFst.mp hy).2⟩
  refine ((hsorted.filter _).and hfst).imp ?_
  rintro x y ⟨hlt, hx, hy⟩
  have hlex : (compare x.1.1 y.1.1).then (compare x.1.2 y.1.2) = .lt := hlt
  simpa [hx, hy] using hlex

theorem pairwise_withFst_ne {m : ExtTreeMap (α × β) γ} {a : α} :
    (m.withFst a).Pairwise fun x y => x.1.2 ≠ y.1.2 := by
  refine pairwise_withFst.imp fun {x y} hlt heq => ?_
  rw [heq, ReflOrd.compare_self] at hlt
  cases hlt

/-- A relation holds between the entries and those after them when it holds between smaller and
greater ones. -/
theorem pairwise_withFst_iff {m : ExtTreeMap (α × β) γ} {a : α}
    {P : (α × β) × γ → (α × β) × γ → Prop} : (m.withFst a).Pairwise P ↔
      ∀ (b b' : β) c c', m[(a, b)]? = some c → m[(a, b')]? = some c' → compare b b' = .lt →
        P ((a, b), c) ((a, b'), c') := by
  have hsorted : (m.withFst a).Pairwise fun x y => compare x.1.2 y.1.2 = .lt := pairwise_withFst
  constructor
  · intro hP b b' c c' hc hc' hlt
    obtain ⟨i, hi, hx⟩ := List.mem_iff_getElem.mp
      (show ((a, b), c) ∈ m.withFst a from mem_withFst.mpr ⟨hc, rfl⟩)
    obtain ⟨j, hj, hy⟩ := List.mem_iff_getElem.mp
      (show ((a, b'), c') ∈ m.withFst a from mem_withFst.mpr ⟨hc', rfl⟩)
    rcases Nat.lt_trichotomy i j with hij | hij | hij
    · have hxy := List.pairwise_iff_getElem.mp hP i j hi hj hij
      rwa [hx, hy] at hxy
    · subst hij
      have hsame : b = b' := congrArg (fun entry => entry.1.2) (hx.symm.trans hy)
      rw [hsame, ReflOrd.compare_self] at hlt
      cases hlt
    · have hyx := List.pairwise_iff_getElem.mp hsorted j i hj hi hij
      rw [hx, hy] at hyx
      exact absurd hlt (OrientedCmp.not_lt_of_lt hyx)
  · intro hP
    refine hsorted.imp_of_mem ?_
    rintro ⟨⟨a₁, b⟩, c⟩ ⟨⟨a₂, b'⟩, c'⟩ hx hy hlt
    obtain ⟨hc, rfl⟩ := mem_withFst.mp hx
    obtain ⟨hc', heq⟩ := mem_withFst.mp hy
    obtain rfl : a₂ = a₁ := heq
    exact hP b b' c c' hc hc' hlt

/-- The entries with a first component depend on the values under it only. -/
theorem withFst_congr {m m' : ExtTreeMap (α × β) γ} {a : α}
    (h : ∀ b : β, m'[(a, b)]? = m[(a, b)]?) : m'.withFst a = m.withFst a := by
  have hnodup : ∀ m : ExtTreeMap (α × β) γ, (m.withFst a).Nodup := fun m =>
    pairwise_withFst_ne.imp fun hne heq => hne (by rw [heq])
  have hperm : (m'.withFst a).Perm (m.withFst a) := by
    rw [List.perm_ext_iff_of_nodup (hnodup m') (hnodup m)]
    rintro ⟨⟨a', b⟩, c⟩
    rw [mem_withFst, mem_withFst]
    constructor
    · rintro ⟨hget, rfl⟩
      exact ⟨(h b).symm.trans hget, rfl⟩
    · rintro ⟨hget, rfl⟩
      exact ⟨(h b).trans hget, rfl⟩
  refine hperm.eq_of_pairwise ?_ pairwise_withFst pairwise_withFst
  intro x y _ _ hlt hgt
  exact absurd hgt (OrientedCmp.not_lt_of_lt hlt)

/-- A loop over the entries with a first component in which one second component matters. -/
theorem flatMap_withFst_eq {δ : Type*} (m : ExtTreeMap (α × β) γ) (a : α) (b : β)
    {f : (α × β) × γ → List δ} (hf : ∀ e, e.1.2 ≠ b → f e = []) :
    (m.withFst a).flatMap f = m[(a, b)]?.toList.flatMap fun c => f ((a, b), c) := by
  have hfilter : ∀ l : List ((α × β) × γ), (l.filter fun e => e.1.1 = a).flatMap f =
      l.flatMap fun e => if e.1.1 = a then f e else [] := by
    intro l
    induction l with
    | nil => rfl
    | cons e l ih =>
      by_cases he : e.1.1 = a
      · rw [List.filter_cons_of_pos (by simpa using he), List.flatMap_cons, List.flatMap_cons, ih,
          if_pos he]
      · rw [List.filter_cons_of_neg (by simpa using he), List.flatMap_cons, ih, if_neg he,
          List.nil_append]
  rw [withFst, hfilter, flatMap_toList_eq m (a, b)]
  · simp
  · rintro ⟨⟨a', b'⟩, c⟩ hne
    dsimp only
    split
    · rename_i heq
      exact hf _ fun hb => hne (Prod.ext heq hb)
    · rfl

end Pairs

section Nested

variable {α β γ : Type*} {cmp₁ : α → α → Ordering} {cmp₂ : β → β → Ordering} [TransCmp cmp₁]
  [TransCmp cmp₂]

/-- The entries of a map of maps, in the order of two nested loops. -/
def entries₂ (m : ExtTreeMap α (ExtTreeMap β γ cmp₂) cmp₁) : List ((α × β) × γ) :=
  m.toList.flatMap fun row => row.2.toList.map fun entry => ((row.1, entry.1), entry.2)

/-- The value under two keys. -/
def get₂? (m : ExtTreeMap α (ExtTreeMap β γ cmp₂) cmp₁) (a : α) (b : β) : Option γ :=
  m[a]?.bind fun row => row[b]?

/-- `m[a][b] = c`, with the row made when it is missing. -/
def insert₂ (m : ExtTreeMap α (ExtTreeMap β γ cmp₂) cmp₁) (a : α) (b : β) (c : γ) :
    ExtTreeMap α (ExtTreeMap β γ cmp₂) cmp₁ :=
  m.insert a ((m.getD a ∅).insert b c)

/-- `m[a].emplace(b, c)`: an entry that exists stays. -/
def insertIfNew₂ (m : ExtTreeMap α (ExtTreeMap β γ cmp₂) cmp₁) (a : α) (b : β) (c : γ) :
    ExtTreeMap α (ExtTreeMap β γ cmp₂) cmp₁ :=
  m.insert a ((m.getD a ∅).insertIfNew b c)

/-- The entry is erased, and its row with it when the row becomes empty. -/
def erase₂ (m : ExtTreeMap α (ExtTreeMap β γ cmp₂) cmp₁) (a : α) (b : β) :
    ExtTreeMap α (ExtTreeMap β γ cmp₂) cmp₁ :=
  match m[a]? with
  | none => m
  | some row => if (row.erase b).isEmpty then m.erase a else m.insert a (row.erase b)

/-- No row is empty. -/
def NoEmptyRow (m : ExtTreeMap α (ExtTreeMap β γ cmp₂) cmp₁) : Prop :=
  ∀ (a : α) (row : ExtTreeMap β γ cmp₂), m[a]? = some row → row.isEmpty = false

omit [TransCmp cmp₂] in
theorem noEmptyRow_empty : NoEmptyRow (∅ : ExtTreeMap α (ExtTreeMap β γ cmp₂) cmp₁) := by
  intro a row h
  simp at h

theorem get₂?_eq_some {m : ExtTreeMap α (ExtTreeMap β γ cmp₂) cmp₁} {a : α} {b : β} {c : γ} :
    m.get₂? a b = some c ↔ ∃ row, m[a]? = some row ∧ row[b]? = some c := by
  rw [get₂?, Option.bind_eq_some_iff]

theorem get₂?_map [LawfulEqCmp cmp₁] [LawfulEqCmp cmp₂] {δ : Type*}
    (m : ExtTreeMap α (ExtTreeMap β γ cmp₂) cmp₁) (f : α → β → γ → δ) (a : α) (b : β) :
    (m.map fun a row => row.map (f a)).get₂? a b = (m.get₂? a b).map (f a b) := by
  unfold get₂?
  rw [getElem?_map]
  cases m[a]? with
  | none => rfl
  | some row => exact getElem?_map ..

@[simp] theorem get₂?_empty (a : α) (b : β) :
    (∅ : ExtTreeMap α (ExtTreeMap β γ cmp₂) cmp₁).get₂? a b = none := by
  simp [get₂?]

theorem NoEmptyRow.contains_iff {m : ExtTreeMap α (ExtTreeMap β γ cmp₂) cmp₁}
    (h : m.NoEmptyRow) {a : α} : m.contains a = true ↔ ∃ b c, m.get₂? a b = some c := by
  rw [contains_iff_getElem?]
  constructor
  · rintro ⟨row, hrow⟩
    obtain ⟨b, c, hentry⟩ := isEmpty_eq_false_iff_getElem?.mp (h a row hrow)
    exact ⟨b, c, get₂?_eq_some.mpr ⟨row, hrow, hentry⟩⟩
  · rintro ⟨b, c, hentry⟩
    obtain ⟨row, hrow, -⟩ := get₂?_eq_some.mp hentry
    exact ⟨row, hrow⟩

omit [TransCmp cmp₂] in
theorem NoEmptyRow.insert {m : ExtTreeMap α (ExtTreeMap β γ cmp₂) cmp₁} (h : m.NoEmptyRow) {a : α}
    {row : ExtTreeMap β γ cmp₂} (hrow : row.isEmpty = false) : (m.insert a row).NoEmptyRow := by
  intro a' row' hrow'
  rw [getElem?_insert] at hrow'
  split at hrow'
  · cases hrow'
    exact hrow
  · exact h a' row' hrow'

theorem NoEmptyRow.insertIfNew₂ {m : ExtTreeMap α (ExtTreeMap β γ cmp₂) cmp₁} (h : m.NoEmptyRow)
    (a : α) (b : β) (c : γ) : (m.insertIfNew₂ a b c).NoEmptyRow :=
  h.insert (by simp)

theorem NoEmptyRow.erase₂ {m : ExtTreeMap α (ExtTreeMap β γ cmp₂) cmp₁} (h : m.NoEmptyRow)
    (a : α) (b : β) : (m.erase₂ a b).NoEmptyRow := by
  unfold ExtTreeMap.erase₂
  split
  · exact h
  · split
    · intro a' row' hrow'
      rw [getElem?_erase] at hrow'
      split at hrow'
      · cases hrow'
      · exact h a' row' hrow'
    · rename_i hne
      exact h.insert (by simpa using hne)

variable [LawfulEqCmp cmp₁] [LawfulEqCmp cmp₂]

theorem erase₂_insertIfNew₂ {m : ExtTreeMap α (ExtTreeMap β γ cmp₂) cmp₁} {a : α}
    (h : m[a]? = none) (b : β) (c : γ) : (m.insertIfNew₂ a b c).erase₂ a b = m := by
  have hrow : (m.getD a ∅).insertIfNew b c = (∅ : ExtTreeMap β γ cmp₂).insertIfNew b c := by
    rw [getD_eq_getD_getElem?, h]
    rfl
  have hempty : (((∅ : ExtTreeMap β γ cmp₂).insertIfNew b c).erase b).isEmpty = true := by
    refine isEmpty_iff.mpr (ext_getElem? fun k => ?_)
    rw [getElem?_erase, getElem?_insertIfNew]
    split
    · simp
    · rename_i hne
      simp [hne]
  unfold insertIfNew₂ erase₂
  rw [hrow, getElem?_insert_self]
  dsimp only
  rw [if_pos hempty]
  refine ext_getElem? fun k => ?_
  rw [getElem?_erase, getElem?_insert]
  split
  · rename_i heq
    rw [← LawfulEqCmp.eq_of_compare heq, h]
  · rfl

theorem get₂?_insert₂ [DecidableEq α] [DecidableEq β] (m : ExtTreeMap α (ExtTreeMap β γ cmp₂) cmp₁)
    (a a' : α) (b b' : β) (c : γ) : (m.insert₂ a b c).get₂? a' b' =
      if a' = a ∧ b' = b then some c else m.get₂? a' b' := by
  simp only [get₂?, insert₂, getElem?_insert, LawfulEqCmp.compare_eq_iff_eq,
    getD_eq_getD_getElem?, eq_comm (a := a'), eq_comm (a := b')]
  by_cases ha : a = a'
  · subst ha
    simp only [if_true, Option.bind_some, getElem?_insert, LawfulEqCmp.compare_eq_iff_eq,
      true_and]
    split
    · rfl
    · cases m[a]? <;> simp
  · simp [ha]

theorem get₂?_insertIfNew₂ [DecidableEq α] [DecidableEq β]
    (m : ExtTreeMap α (ExtTreeMap β γ cmp₂) cmp₁) (a a' : α) (b b' : β) (c : γ) :
    (m.insertIfNew₂ a b c).get₂? a' b' =
      if a' = a ∧ b' = b then some ((m.get₂? a b).getD c) else m.get₂? a' b' := by
  simp only [get₂?, insertIfNew₂, getElem?_insert, LawfulEqCmp.compare_eq_iff_eq,
    getD_eq_getD_getElem?, eq_comm (a := a')]
  by_cases ha : a = a'
  · subst ha
    simp only [if_true, Option.bind_some, getElem?_insertIfNew_getD, true_and]
    cases m[a]? <;> simp
  · simp [ha]

omit [LawfulEqCmp cmp₂] in
/-- An empty row has no entries. -/
theorem get₂?_insertIfNew_empty (m : ExtTreeMap α (ExtTreeMap β γ cmp₂) cmp₁) (a a' : α) (b : β) :
    (m.insertIfNew a ∅).get₂? a' b = m.get₂? a' b := by
  unfold get₂?
  rw [getElem?_insertIfNew]
  split
  · rename_i hnew
    obtain ⟨heq, hmem⟩ := hnew
    obtain rfl : a = a' := LawfulEqCmp.eq_of_compare heq
    rw [getElem?_eq_none hmem]
    simp
  · rfl

theorem get₂?_erase₂ [DecidableEq α] [DecidableEq β] (m : ExtTreeMap α (ExtTreeMap β γ cmp₂) cmp₁)
    (a a' : α) (b b' : β) : (m.erase₂ a b).get₂? a' b' =
      if a' = a ∧ b' = b then none else m.get₂? a' b' := by
  unfold erase₂
  cases hrow : m[a]? with
  | none =>
    have : m.get₂? a b = none := by simp [get₂?, hrow]
    grind
  | some row =>
    have hget : m.get₂? a b' = row[b']? := by simp [get₂?, hrow]
    have herase : (row.erase b)[b']? = if b' = b then none else row[b']? := by
      simp only [getElem?_erase, LawfulEqCmp.compare_eq_iff_eq, eq_comm (a := b')]
    by_cases ha : a' = a
    · subst ha
      simp only [true_and, hget, ← herase]
      split
      · rename_i hempty
        rw [isEmpty_iff_getElem?] at hempty
        simp [get₂?, hempty b']
      · simp [get₂?]
    · simp only [ha, false_and, if_false]
      split
      · simp [get₂?, getElem?_erase, Ne.symm ha]
      · simp [get₂?, getElem?_insert, Ne.symm ha]

/-- Maps without empty rows are the same when their entries are. -/
theorem NoEmptyRow.ext_get₂? {m m' : ExtTreeMap α (ExtTreeMap β γ cmp₂) cmp₁} (h : m.NoEmptyRow)
    (h' : m'.NoEmptyRow) (hget : ∀ a b, m.get₂? a b = m'.get₂? a b) : m = m' := by
  have hrow : ∀ {m m' : ExtTreeMap α (ExtTreeMap β γ cmp₂) cmp₁}, m.NoEmptyRow →
      (∀ a b, m.get₂? a b = m'.get₂? a b) →
      ∀ (a : α) (row : ExtTreeMap β γ cmp₂), m[a]? = some row → m'[a]? = some row := by
    intro m m' hm hget a row hrow
    obtain ⟨b, c, hentry⟩ := isEmpty_eq_false_iff_getElem?.mp (hm a row hrow)
    obtain ⟨row', hrow', -⟩ := get₂?_eq_some.mp
      ((hget a b).symm.trans (get₂?_eq_some.mpr ⟨row, hrow, hentry⟩))
    rw [hrow']
    refine congrArg some (ext_getElem? fun b => ?_)
    have hsame := hget a b
    rw [get₂?, get₂?, hrow, hrow'] at hsame
    exact hsame.symm
  refine ext_getElem? fun a => Option.ext fun row => ⟨hrow h hget a row, ?_⟩
  exact hrow h' (fun a b => (hget a b).symm) a row

theorem mem_entries₂ {m : ExtTreeMap α (ExtTreeMap β γ cmp₂) cmp₁} {a : α} {b : β} {c : γ} :
    ((a, b), c) ∈ m.entries₂ ↔ m.get₂? a b = some c := by
  simp only [get₂?, entries₂, List.mem_flatMap, List.mem_map, Prod.mk.injEq, Prod.exists,
    mem_toList_iff_getElem?_eq_some, Option.bind_eq_some_iff]
  constructor
  · rintro ⟨_, row, hrow, _, _, hentry, ⟨rfl, rfl⟩, rfl⟩
    exact ⟨row, hrow, hentry⟩
  · rintro ⟨row, hrow, hentry⟩
    exact ⟨a, row, hrow, b, c, hentry, ⟨rfl, rfl⟩, rfl⟩

theorem pairwise_entries₂ {m : ExtTreeMap α (ExtTreeMap β γ cmp₂) cmp₁} :
    m.entries₂.Pairwise fun x y => x.1 ≠ y.1 := by
  rw [entries₂, List.pairwise_flatMap]
  refine ⟨fun row _ => ?_, ?_⟩
  · refine List.pairwise_map.mpr ((pairwise_toList_ne (m := row.2)).imp fun h heq => h ?_)
    exact (Prod.mk.inj heq).2
  · refine (pairwise_toList_ne (m := m)).imp fun h x hx y hy heq => h ?_
    obtain ⟨_, _, rfl⟩ := List.mem_map.mp hx
    obtain ⟨_, _, rfl⟩ := List.mem_map.mp hy
    exact (Prod.mk.inj heq).1

/-- A value that stands under one key only is listed once. -/
theorem count_entries₂ [DecidableEq α] [DecidableEq β] [DecidableEq γ]
    {m : ExtTreeMap α (ExtTreeMap β γ cmp₂) cmp₁} {a : α} {b : β} {c : γ}
    (h : m.get₂? a b = some c) (honly : ∀ a' b', m.get₂? a' b' = some c → a' = a ∧ b' = b) :
    (m.entries₂.map Prod.snd).count c = 1 := by
  have hnodup : m.entries₂.Nodup := pairwise_entries₂.imp fun h heq => h (by rw [heq])
  rw [List.count, List.countP_map, ← List.count_eq_one_of_mem hnodup (mem_entries₂.mpr h),
    List.count]
  refine List.countP_congr ?_
  rintro ⟨⟨a', b'⟩, c'⟩ hmem
  simp only [Function.comp_apply, beq_iff_eq, Prod.mk.injEq]
  constructor
  · rintro rfl
    exact ⟨honly a' b' (mem_entries₂.mp hmem), rfl⟩
  · exact fun heq => heq.2

end Nested

section Fold

variable {α β : Type*} {cmp : α → α → Ordering} [TransCmp cmp] [LawfulEqCmp cmp] [DecidableEq α]

/-- A loop that modifies one entry after another applies the change as often as the key comes. -/
theorem getElem?_foldl_modify (f : β → β) (keys : List α) (m : ExtTreeMap α β cmp) (k : α) :
    (keys.foldl (fun m key => m.modify key f) m)[k]? = m[k]?.map f^[keys.count k] := by
  induction keys generalizing m with
  | nil => simp
  | cons key keys ih =>
    rw [List.foldl_cons, ih, getElem?_modify, List.count_cons]
    by_cases hkey : key = k
    · subst hkey
      simp [Function.iterate_succ, Option.map_map]
    · simp [hkey]

/-- A loop that replaces the entries of a list. -/
theorem getElem?_foldl_insert (f : α → β → β) {entries : List (α × β)}
    (hkeys : entries.Pairwise fun a b => a.1 ≠ b.1) (m : ExtTreeMap α β cmp) :
    (∀ e ∈ entries, (entries.foldl (fun m e => m.insert e.1 (f e.1 e.2)) m)[e.1]? =
        some (f e.1 e.2)) ∧
      ∀ k, (∀ e ∈ entries, e.1 ≠ k) →
        (entries.foldl (fun m e => m.insert e.1 (f e.1 e.2)) m)[k]? = m[k]? := by
  induction entries generalizing m with
  | nil => exact ⟨nofun, fun _ _ => rfl⟩
  | cons e entries ih =>
    obtain ⟨hne, hkeys⟩ := List.pairwise_cons.mp hkeys
    obtain ⟨hset, hkept⟩ := ih hkeys (m.insert e.1 (f e.1 e.2))
    rw [List.foldl_cons]
    refine ⟨fun e' he' => ?_, fun k hk => ?_⟩
    · obtain rfl | he' := List.mem_cons.mp he'
      · rw [hkept _ fun e he => (hne e he).symm, getElem?_insert_self]
      · exact hset e' he'
    · rw [hkept _ fun e he => hk e (List.mem_cons_of_mem _ he), getElem?_insert_ite,
        if_neg (hk e List.mem_cons_self).symm]

/-- A loop over the entries of a map that replaces each of them. -/
theorem foldl_insert_toList (f : α → β → β) (m : ExtTreeMap α β cmp) :
    m.toList.foldl (fun m e => m.insert e.1 (f e.1 e.2)) m = m.map f := by
  obtain ⟨hset, hkept⟩ := getElem?_foldl_insert f (pairwise_toList_ne (m := m)) m
  refine ext_getElem? fun k => ?_
  rw [getElem?_map]
  cases hget : m[k]? with
  | some v => exact hset (k, v) (mem_toList_iff_getElem?_eq_some.mpr hget)
  | none =>
    rw [hkept, hget]
    · rfl
    · rintro e he rfl
      rw [mem_toList_iff_getElem?_eq_some.mp he] at hget
      cases hget

omit [DecidableEq α] in
theorem insert_eq_modify {m : ExtTreeMap α β cmp} {k : α} {v : β} (h : m[k]? = some v) (f : β → β) :
    m.insert k (f v) = m.modify k f := by
  refine ext_getElem? fun k' => ?_
  rw [getElem?_modify, getElem?_insert, h]
  rfl

omit [DecidableEq α] in
theorem modify_of_none {m : ExtTreeMap α β cmp} {k : α} (h : m[k]? = none) (f : β → β) :
    m.modify k f = m := by
  refine ext_getElem? fun k' => ?_
  rw [getElem?_modify]
  split
  · rename_i hk
    rw [← LawfulEqCmp.eq_of_compare hk, h]
    rfl
  · rfl

/-- A loop that erases the keys of a list. -/
theorem getElem?_foldl_erase (keys : List α) (m : ExtTreeMap α β cmp) (k : α) :
    (keys.foldl erase m)[k]? = if k ∈ keys then none else m[k]? := by
  induction keys generalizing m with
  | nil => simp
  | cons key keys ih =>
    rw [List.foldl_cons, ih, getElem?_erase_ite]
    by_cases hk : k ∈ keys <;> simp [hk]

end Fold

end ExtTreeMap

namespace ExtTreeSet

variable {α : Type*} {cmp : α → α → Ordering} [TransCmp cmp] {s : ExtTreeSet α cmp} {a b : α}

theorem isEmpty_eq_false_iff_contains : s.isEmpty = false ↔ ∃ a, s.contains a = true := by
  rw [← Bool.not_eq_true, isEmpty_iff, eq_empty_iff_forall_contains, not_forall]
  simp only [Bool.not_eq_false]

variable [LawfulEqCmp cmp]

theorem contains_insert_iff : (s.insert a).contains b = true ↔ b = a ∨ s.contains b = true := by
  rw [contains_insert, Bool.or_eq_true, beq_iff_eq, LawfulEqCmp.compare_eq_iff_eq, eq_comm]

theorem contains_erase_iff : (s.erase a).contains b = true ↔ b ≠ a ∧ s.contains b = true := by
  rw [contains_erase, Bool.and_eq_true, bne_iff_ne, ne_eq, LawfulEqCmp.compare_eq_iff_eq,
    eq_comm]

theorem insert_of_contains (h : s.contains a = true) : s.insert a = s := by
  refine ext_contains fun b => ?_
  rw [Bool.eq_iff_iff, contains_insert_iff]
  constructor
  · rintro (rfl | hb)
    · exact h
    · exact hb
  · exact Or.inr

theorem erase_of_not_contains (h : s.contains a = false) : s.erase a = s := by
  refine ext_contains fun b => ?_
  rw [Bool.eq_iff_iff, contains_erase_iff]
  refine ⟨fun hb => hb.2, fun hb => ⟨?_, hb⟩⟩
  rintro rfl
  rw [h] at hb
  cases hb

/-- A loop that inserts the elements of a list. -/
theorem contains_foldl_insert {l : List α} :
    (l.foldl insert s).contains b = true ↔ b ∈ l ∨ s.contains b = true := by
  induction l generalizing s with
  | nil => simp
  | cons first rest ih =>
    rw [List.foldl_cons, ih, contains_insert_iff, List.mem_cons]
    tauto

end ExtTreeSet

end Std
