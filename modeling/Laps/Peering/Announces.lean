import Laps.Lib.Chain
import Laps.Peering.InfoBase
import Mathlib.Data.List.Induction
import Mathlib.Data.List.Infix
import Mathlib.Data.Set.Function

/-! The announcement tables over whole runs.  `prefix_lookup_announces_` and `GetAnnounceIds` answer
for the stored announcements as long as no announcement is removed while another node still
announces the same name, because the prefix table does not count the nodes. -/

namespace Laps.Peering

open Std

namespace InfoBase

/-! ### Prefix hashes -/

/-- The chained hash of a prefix. -/
def prefixHash (q : Quicr) (pfx : TrackNamespace) : UInt64 :=
  pfx.foldl (fun hash tuple => q.hashCombine hash (q.tupleHash tuple)) 0

theorem prefixHashesFrom_eq_values (q : Quicr) (hash : UInt64) (nameSpace : TrackNamespace) :
    prefixHashesFrom q hash nameSpace =
      Chain.values (fun hash tuple => q.hashCombine hash (q.tupleHash tuple)) hash nameSpace := by
  induction nameSpace generalizing hash with
  | nil => rw [prefixHashesFrom, Chain.values_nil]
  | cons tuple rest ih => rw [prefixHashesFrom, Chain.values_cons, ih]

theorem prefixHashNamespaceTuples_eq_values (q : Quicr) (nameSpace : TrackNamespace) :
    prefixHashNamespaceTuples q nameSpace =
      Chain.values (fun hash tuple => q.hashCombine hash (q.tupleHash tuple)) 0 nameSpace :=
  prefixHashesFrom_eq_values q 0 nameSpace

theorem mem_prefixHashNamespaceTuples {q : Quicr} {x : UInt64} {nameSpace : TrackNamespace} :
    x ∈ prefixHashNamespaceTuples q nameSpace ↔
      ∃ pfx, pfx ≠ [] ∧ pfx <+: nameSpace ∧ prefixHash q pfx = x := by
  rw [prefixHashNamespaceTuples_eq_values]
  exact Chain.mem_values

/-- The hash that `GetAnnounceIds` looks up. -/
theorem getLast?_prefixHashNamespaceTuples (q : Quicr) {nameSpace : TrackNamespace}
    (hne : nameSpace ≠ []) :
    (prefixHashNamespaceTuples q nameSpace).getLast? = some (prefixHash q nameSpace) := by
  rw [prefixHashNamespaceTuples_eq_values]
  exact Chain.getLast?_values hne

theorem prefixHash_mem_iff {q : Quicr} {pfx nameSpace : TrackNamespace} (hne : pfx ≠ [])
    (hinj : Set.InjOn (prefixHash q) {p | p = pfx ∨ p ≠ [] ∧ p <+: nameSpace}) :
    prefixHash q pfx ∈ prefixHashNamespaceTuples q nameSpace ↔ pfx <+: nameSpace := by
  rw [prefixHashNamespaceTuples_eq_values]
  exact Chain.foldl_mem_values_iff hne hinj

/-- Every namespace gives one hash for each tuple.  If `b` is a prefix of `a`, the last hash of `b`
is the one of `a` where `b` ends; if it is not, and the chained hash tells `b` and the prefixes of
`a` apart, that hash is none of `a`. -/
theorem prefixHashNamespaceTuples_chain (q : Quicr) :
    (∀ nameSpace, (prefixHashNamespaceTuples q nameSpace).length = nameSpace.length) ∧
      ∀ a b : TrackNamespace, a ≠ [] → b ≠ [] →
        ∃ last, (prefixHashNamespaceTuples q b).getLast? = some last ∧
          (b <+: a → (prefixHashNamespaceTuples q a)[b.length - 1]? = some last) ∧
          (Set.InjOn (prefixHash q) {pfx | pfx = b ∨ pfx ≠ [] ∧ pfx <+: a} →
            last ∈ prefixHashNamespaceTuples q a → b <+: a) := by
  constructor
  · intro nameSpace
    rw [prefixHashNamespaceTuples_eq_values, Chain.length_values]
  · intro a b _ hb
    refine ⟨prefixHash q b, getLast?_prefixHashNamespaceTuples q hb, ?_, ?_⟩
    · intro hle
      rw [prefixHashNamespaceTuples_eq_values]
      exact Chain.getElem?_values_of_le hb hle
    · intro hinj hmem
      exact (prefixHash_mem_iff hb hinj).mp hmem

/-- Two tuples of three. -/
theorem prefixHashNamespaceTuples_chain_two_of_three :
    (prefixHashNamespaceTuples .polynomial [[1], [2], [3]]).length = 3 ∧
      ∃ last, (prefixHashNamespaceTuples .polynomial [[1], [2]]).getLast? = some last ∧
        (prefixHashNamespaceTuples .polynomial [[1], [2], [3]])[1]? = some last ∧
        (last ∈ prefixHashNamespaceTuples .polynomial [[1], [2], [3]] →
          [[1], [2]] <+: ([[1], [2], [3]] : TrackNamespace)) := by
  obtain ⟨hlength, hchain⟩ := prefixHashNamespaceTuples_chain .polynomial
  obtain ⟨last, hlast, hat, honly⟩ := hchain [[1], [2], [3]] [[1], [2]] (by simp) (by simp)
  refine ⟨hlength _, last, hlast, hat ⟨[[3]], rfl⟩, honly ?_⟩
  have hinits : ∀ pfx ∈ {pfx : TrackNamespace | pfx = [[1], [2]] ∨ pfx ≠ [] ∧
      pfx <+: [[1], [2], [3]]}, pfx ∈ List.inits [[1], [2], [3]] := by
    rintro pfx (rfl | ⟨_, hle⟩)
    · decide
    · exact (List.mem_inits _ _).mpr hle
  have hapart : ∀ pfx ∈ List.inits [[1], [2], [3]], ∀ pfx' ∈ List.inits [[1], [2], [3]],
      prefixHash .polynomial pfx = prefixHash .polynomial pfx' → pfx = pfx' := by
    decide +kernel
  intro pfx hpfx pfx' hpfx' heq
  exact hapart pfx (hinits pfx hpfx) pfx' (hinits pfx' hpfx') heq

/-! ### What the prefix table holds -/

/-- The set of the prefix hash has the full-name hash. -/
def Indexed (lookup : ExtTreeMap UInt64 (ExtTreeSet UInt64)) (x f : UInt64) : Prop :=
  ∃ hashSet, lookup[x]? = some hashSet ∧ hashSet.contains f = true

/-- No set of the table is empty. -/
def NoEmptySet (lookup : ExtTreeMap UInt64 (ExtTreeSet UInt64)) : Prop :=
  ∀ x, lookup.contains x = true → ∃ f, Indexed lookup x f

theorem indexed_insert {lookup : ExtTreeMap UInt64 (ExtTreeSet UInt64)} {y x f : UInt64}
    {hashSet : ExtTreeSet UInt64} : Indexed (lookup.insert y hashSet) x f ↔
      if x = y then hashSet.contains f = true else Indexed lookup x f := by
  simp only [Indexed, ExtTreeMap.getElem?_insert, LawfulEqCmp.compare_eq_iff_eq,
    eq_comm (a := x)]
  split <;> simp

theorem indexed_addPrefix {lookup : ExtTreeMap UInt64 (ExtTreeSet UInt64)}
    {fullnameHash y x f : UInt64} : Indexed (addPrefix fullnameHash lookup y) x f ↔
      Indexed lookup x f ∨ x = y ∧ f = fullnameHash := by
  have hset : addPrefix fullnameHash lookup y =
      lookup.insert y ((lookup.getD y ∅).insert fullnameHash) := by
    rw [addPrefix, ExtTreeMap.getD_eq_getD_getElem?]
    cases lookup[y]? <;> rfl
  rw [hset, indexed_insert]
  by_cases hx : x = y
  · subst hx
    rw [if_pos rfl, ExtTreeSet.contains_insert_iff, ExtTreeMap.getD_eq_getD_getElem?, Indexed]
    cases lookup[x]? <;> simp [or_comm]
  · simp [hx]

theorem indexed_foldl_addPrefix {fullnameHash : UInt64} {hashes : List UInt64}
    {lookup : ExtTreeMap UInt64 (ExtTreeSet UInt64)} {x f : UInt64} :
    Indexed (hashes.foldl (addPrefix fullnameHash) lookup) x f ↔
      Indexed lookup x f ∨ x ∈ hashes ∧ f = fullnameHash := by
  induction hashes generalizing lookup with
  | nil => simp
  | cons y hashes ih =>
    rw [List.foldl_cons, ih, indexed_addPrefix, List.mem_cons]
    tauto

theorem contains_addPrefix {lookup : ExtTreeMap UInt64 (ExtTreeSet UInt64)}
    {fullnameHash y x : UInt64} (h : (addPrefix fullnameHash lookup y).contains x = true) :
    lookup.contains x = true ∨ x = y := by
  unfold addPrefix at h
  split at h <;> exact (ExtTreeMap.contains_insert_iff.mp h).symm

theorem NoEmptySet.foldl_addPrefix {fullnameHash : UInt64} {hashes : List UInt64}
    {lookup : ExtTreeMap UInt64 (ExtTreeSet UInt64)} (h : NoEmptySet lookup) :
    NoEmptySet (hashes.foldl (addPrefix fullnameHash) lookup) := by
  induction hashes generalizing lookup with
  | nil => exact h
  | cons y hashes ih =>
    rw [List.foldl_cons]
    refine ih fun x hx => ?_
    rcases contains_addPrefix hx with hold | rfl
    · obtain ⟨f, hf⟩ := h x hold
      exact ⟨f, indexed_addPrefix.mpr (.inl hf)⟩
    · exact ⟨fullnameHash, indexed_addPrefix.mpr (.inr ⟨rfl, rfl⟩)⟩

/-- The loop of `RemoveAnnounce` has emptied the sets in `emptied` and no other. -/
structure PrefixRemoval.Holds (acc : PrefixRemoval) : Prop where
  emptied : ∀ x ∈ acc.emptied, ∀ f, ¬ Indexed acc.lookup x f
  others : ∀ x, acc.lookup.contains x = true → x ∈ acc.emptied ∨ ∃ f, Indexed acc.lookup x f

theorem PrefixRemoval.indexed_step {fullnameHash : UInt64} {acc : PrefixRemoval} {y x f : UInt64} :
    Indexed (acc.step fullnameHash y).lookup x f ↔
      Indexed acc.lookup x f ∧ ¬ (x = y ∧ f = fullnameHash) := by
  unfold PrefixRemoval.step
  split
  · rename_i hnone
    have : ∀ f, ¬ Indexed acc.lookup y f := by
      rintro f ⟨hashSet, hset, -⟩
      rw [hnone] at hset
      cases hset
    grind
  · rename_i hashSet hset
    have hy : ∀ f, Indexed acc.lookup y f ↔ hashSet.contains f = true := by
      intro f
      simp [Indexed, hset]
    split
    · rw [indexed_insert]
      by_cases hx : x = y
      · subst hx
        rw [if_pos rfl, hy, ExtTreeSet.contains_erase_iff]
        tauto
      · simp [hx]
    · rename_i hout
      grind

theorem PrefixRemoval.Holds.step {acc : PrefixRemoval} (h : acc.Holds) (fullnameHash y : UInt64) :
    (acc.step fullnameHash y).Holds := by
  have hindexed := @PrefixRemoval.indexed_step fullnameHash acc y
  revert hindexed
  unfold PrefixRemoval.step
  split
  · exact fun _ => h
  rename_i hashSet hset
  split
  · intro hindexed
    have hkept : ∀ x ∈ acc.emptied, x ∈ (if (hashSet.erase fullnameHash).isEmpty then
        acc.emptied ++ [y] else acc.emptied) := by
      intro x hx
      split
      · exact List.mem_append_left _ hx
      · exact hx
    refine ⟨fun x hx f hf => ?_, fun x hx => ?_⟩
    · by_cases hold : x ∈ acc.emptied
      · exact h.emptied x hold f (hindexed.mp hf).1
      · obtain ⟨hempty, rfl⟩ : (hashSet.erase fullnameHash).isEmpty = true ∧ x = y := by
          simp only at hx
          split at hx
          · exact ⟨‹_›, by simpa [hold] using hx⟩
          · exact absurd hx hold
        rw [indexed_insert, if_pos rfl] at hf
        have := ExtTreeSet.isEmpty_eq_false_iff_contains.mpr ⟨f, hf⟩
        rw [hempty] at this
        cases this
    · by_cases hxy : x = y
      · subst hxy
        by_cases hempty : (hashSet.erase fullnameHash).isEmpty = true
        · exact .inl (by simp [hempty])
        · obtain ⟨f, hf⟩ := ExtTreeSet.isEmpty_eq_false_iff_contains.mp
            (Bool.eq_false_iff.mpr hempty)
          exact .inr ⟨f, indexed_insert.mpr (by rw [if_pos rfl]; exact hf)⟩
      · have hold := (ExtTreeMap.contains_insert_iff.mp hx).resolve_left hxy
        rcases h.others x hold with hemptied | ⟨f, hf⟩
        · exact .inl (hkept x hemptied)
        · exact .inr ⟨f, hindexed.mpr ⟨hf, fun heq => hxy heq.1⟩⟩
  · exact fun _ => h

theorem PrefixRemoval.foldl_spec {acc : PrefixRemoval} (h : acc.Holds) (fullnameHash : UInt64)
    (hashes : List UInt64) :
    (hashes.foldl (PrefixRemoval.step fullnameHash) acc).Holds ∧
      ∀ x f, Indexed (hashes.foldl (PrefixRemoval.step fullnameHash) acc).lookup x f ↔
        Indexed acc.lookup x f ∧ ¬ (x ∈ hashes ∧ f = fullnameHash) := by
  induction hashes generalizing acc with
  | nil => simp [h]
  | cons y hashes ih =>
    obtain ⟨hholds, hindexed⟩ := ih (h.step fullnameHash y)
    refine ⟨hholds, fun x f => ?_⟩
    rw [List.foldl_cons, hindexed, PrefixRemoval.indexed_step, List.mem_cons]
    tauto

theorem PrefixRemoval.removed_foldl (fullnameHash : UInt64) (hashes : List UInt64)
    (acc : PrefixRemoval) :
    (hashes.foldl (PrefixRemoval.step fullnameHash) acc).removed = true ↔
      acc.removed = true ∨ ∃ x ∈ hashes, Indexed acc.lookup x fullnameHash := by
  induction hashes generalizing acc with
  | nil => simp
  | cons y hashes ih =>
    rw [List.foldl_cons, ih]
    by_cases hy : Indexed acc.lookup y fullnameHash
    · obtain ⟨hashSet, hget, hcontains⟩ := hy
      have hremoved : (PrefixRemoval.step fullnameHash acc y).removed = true := by
        simp [PrefixRemoval.step, hget, hcontains]
      exact iff_of_true (Or.inl hremoved)
        (Or.inr ⟨y, List.mem_cons_self, hashSet, hget, hcontains⟩)
    · have hstep : PrefixRemoval.step fullnameHash acc y = acc := by
        unfold PrefixRemoval.step
        split
        · rfl
        · rename_i hashSet hget
          exact if_neg fun hcontains => hy ⟨hashSet, hget, hcontains⟩
      rw [hstep]
      simp [hy]

/-- Erasing the emptied sets changes no answer of the table. -/
theorem PrefixRemoval.Holds.erase_emptied {acc : PrefixRemoval} (h : acc.Holds) :
    NoEmptySet (acc.emptied.foldl ExtTreeMap.erase acc.lookup) ∧
      ∀ x f, Indexed (acc.emptied.foldl ExtTreeMap.erase acc.lookup) x f ↔
        Indexed acc.lookup x f := by
  have hindexed : ∀ x f, Indexed (acc.emptied.foldl ExtTreeMap.erase acc.lookup) x f ↔
      Indexed acc.lookup x f := by
    intro x f
    by_cases hx : x ∈ acc.emptied
    · have := h.emptied x hx f
      simp [Indexed, ExtTreeMap.getElem?_foldl_erase, hx] at this ⊢
      exact this
    · simp [Indexed, ExtTreeMap.getElem?_foldl_erase, hx]
  refine ⟨fun x hx => ?_, hindexed⟩
  rw [ExtTreeMap.contains_iff_getElem?, ExtTreeMap.getElem?_foldl_erase] at hx
  obtain ⟨hashSet, hset⟩ := hx
  split at hset
  · cases hset
  · rename_i hout
    have hcontains := ExtTreeMap.contains_iff_getElem?.mpr ⟨hashSet, hset⟩
    obtain ⟨f, hf⟩ := (h.others x hcontains).resolve_left hout
    exact ⟨f, (hindexed x f).mpr hf⟩

/-! ### The operations -/

section Operations

variable (q : Quicr) (ib : InfoBase) (a : AnnounceInfo)

theorem get₂?_addAnnounce (f : UInt64) (n : NodeIdValueType) :
    (ib.addAnnounce q a).1.announces.get₂? f n =
      if f = a.fullnameHash ∧ n = a.sourceNodeId then
        some ((ib.announces.get₂? a.fullnameHash a.sourceNodeId).getD a)
      else ib.announces.get₂? f n :=
  ExtTreeMap.get₂?_insertIfNew₂ _ _ _ _ _ _

theorem indexed_addAnnounce {x f : UInt64} :
    Indexed (ib.addAnnounce q a).1.prefixLookupAnnounces x f ↔
      Indexed ib.prefixLookupAnnounces x f ∨
        ib.announces.get₂? a.fullnameHash a.sourceNodeId = none ∧
          x ∈ prefixHashNamespaceTuples q a.nameSpace ∧ f = a.fullnameHash := by
  cases hold : ib.announces.get₂? a.fullnameHash a.sourceNodeId with
  | none => simp [addAnnounce, hold, indexed_foldl_addPrefix]
  | some old => simp [addAnnounce, hold]

theorem NoEmptySet.addAnnounce (hsets : NoEmptySet ib.prefixLookupAnnounces) :
    NoEmptySet (ib.addAnnounce q a).1.prefixLookupAnnounces := by
  unfold InfoBase.addAnnounce
  simp only
  split
  · exact hsets.foldl_addPrefix
  · exact hsets

theorem get₂?_removeAnnounce (f : UInt64) (n : NodeIdValueType) :
    (ib.removeAnnounce q a).1.announces.get₂? f n =
      if f = a.fullnameHash ∧ n = a.sourceNodeId then none else ib.announces.get₂? f n := by
  unfold removeAnnounce
  split
  · exact ExtTreeMap.get₂?_erase₂ _ _ _ _ _
  · rename_i hnone
    have hrow := ExtTreeMap.contains_eq_false_iff.mp (Bool.eq_false_iff.mpr hnone)
    split
    · rename_i heq
      rw [heq.1, ExtTreeMap.get₂?, hrow]
      rfl
    · rfl

theorem prefixLookup_removeAnnounce (hsets : NoEmptySet ib.prefixLookupAnnounces) :
    NoEmptySet (ib.removeAnnounce q a).1.prefixLookupAnnounces ∧
      ∀ x f, Indexed (ib.removeAnnounce q a).1.prefixLookupAnnounces x f ↔
        Indexed ib.prefixLookupAnnounces x f ∧
          ¬ (ib.announces.contains a.fullnameHash = true ∧
            x ∈ prefixHashNamespaceTuples q a.nameSpace ∧ f = a.fullnameHash) := by
  unfold removeAnnounce
  split
  · rename_i hcontains
    have hstart : PrefixRemoval.Holds { lookup := ib.prefixLookupAnnounces } :=
      ⟨by simp, fun x hx => .inr (hsets x hx)⟩
    obtain ⟨hholds, hindexed⟩ := PrefixRemoval.foldl_spec hstart a.fullnameHash
      (prefixHashNamespaceTuples q a.nameSpace)
    obtain ⟨hno, herase⟩ := hholds.erase_emptied
    refine ⟨hno, fun x f => ?_⟩
    rw [herase, hindexed]
    simp [hcontains]
  · rename_i hcontains
    exact ⟨hsets, fun x f => by simp [hcontains]⟩

theorem removed_removeAnnounce :
    (ib.removeAnnounce q a).2 = true ↔ ib.announces.contains a.fullnameHash = true ∧
      ∃ x ∈ prefixHashNamespaceTuples q a.nameSpace,
        Indexed ib.prefixLookupAnnounces x a.fullnameHash := by
  unfold removeAnnounce
  split
  · rename_i hcontains
    rw [PrefixRemoval.removed_foldl]
    simp [hcontains]
  · rename_i hcontains
    simp [hcontains]

theorem eq_of_indexed {lookup lookup' : ExtTreeMap UInt64 (ExtTreeSet UInt64)}
    (h : NoEmptySet lookup) (h' : NoEmptySet lookup')
    (hindexed : ∀ x f, Indexed lookup x f ↔ Indexed lookup' x f) : lookup = lookup' := by
  have hnone : ∀ {l : ExtTreeMap UInt64 (ExtTreeSet UInt64)} {x : UInt64}, NoEmptySet l →
      (∀ f, ¬Indexed l x f) → l[x]? = none := by
    intro l x hl hout
    refine Option.eq_none_iff_forall_ne_some.mpr fun hashSet hget => ?_
    obtain ⟨f, hf⟩ := hl x (ExtTreeMap.contains_iff_getElem?.mpr ⟨hashSet, hget⟩)
    exact hout f hf
  refine ExtTreeMap.ext_getElem? fun x => ?_
  cases hget : lookup[x]? with
  | none =>
    refine (hnone h' fun f hf => ?_).symm
    obtain ⟨hashSet, hsome, -⟩ := (hindexed x f).mpr hf
    rw [hget] at hsome
    cases hsome
  | some hashSet =>
    obtain ⟨f, hf⟩ := h x (ExtTreeMap.contains_iff_getElem?.mpr ⟨hashSet, hget⟩)
    obtain ⟨hashSet', hget', -⟩ := (hindexed x f).mp hf
    rw [hget']
    refine congrArg some (ExtTreeSet.ext_contains fun f => ?_)
    have hsame := hindexed x f
    simp only [Indexed, hget, hget', Option.some.injEq, exists_eq_left'] at hsame
    exact Bool.eq_iff_iff.mpr hsame

/-- An announcement of a name that no node has announced is undone by its removal. -/
theorem announces_removeAnnounce_addAnnounce (hrow : ib.announces[a.fullnameHash]? = none) :
    ((ib.addAnnounce q a).1.removeAnnounce q a).1.announces = ib.announces := by
  have hcontains : (ib.addAnnounce q a).1.announces.contains a.fullnameHash = true :=
    ExtTreeMap.contains_insert_self
  unfold removeAnnounce
  rw [if_pos hcontains]
  exact ExtTreeMap.erase₂_insertIfNew₂ hrow a.sourceNodeId a

/-- The prefix table is as it was, unless it had the name already. -/
theorem prefixLookup_removeAnnounce_addAnnounce_iff (hsets : NoEmptySet ib.prefixLookupAnnounces) :
    ((ib.addAnnounce q a).1.removeAnnounce q a).1.prefixLookupAnnounces =
        ib.prefixLookupAnnounces ↔
      ∀ x ∈ prefixHashNamespaceTuples q a.nameSpace,
        ¬Indexed ib.prefixLookupAnnounces x a.fullnameHash := by
  have hcontains : (ib.addAnnounce q a).1.announces.contains a.fullnameHash = true :=
    ExtTreeMap.contains_insert_self
  obtain ⟨hsets', hremoved⟩ := prefixLookup_removeAnnounce q (ib.addAnnounce q a).1 a
    (hsets.addAnnounce q ib a)
  constructor
  · intro hsame x hx hold
    rw [← hsame, hremoved] at hold
    exact hold.2 ⟨hcontains, hx, rfl⟩
  · intro hout
    refine eq_of_indexed hsets' hsets fun x f => ?_
    rw [hremoved, indexed_addAnnounce]
    constructor
    · rintro ⟨hold | ⟨-, hx, hf⟩, hnot⟩
      · exact hold
      · exact absurd ⟨hcontains, hx, hf⟩ hnot
    · intro hold
      refine ⟨.inl hold, ?_⟩
      rintro ⟨-, hx, rfl⟩
      exact hout x hx hold

end Operations

/-! ### Tables that match -/

/-- The prefix table leads from the prefix hashes of the stored announcements to their names, and
from no others. -/
structure IndexMatches (q : Quicr) (ib : InfoBase) : Prop where
  rows : ib.announces.NoEmptyRow
  sets : NoEmptySet ib.prefixLookupAnnounces
  index : ∀ x f, Indexed ib.prefixLookupAnnounces x f ↔
    ∃ n a, ib.announces.get₂? f n = some a ∧ x ∈ prefixHashNamespaceTuples q a.nameSpace

section Matches

variable {q : Quicr} {ib : InfoBase}

theorem noEmptyRow_removeAnnounce (hrows : ib.announces.NoEmptyRow) (a : AnnounceInfo) :
    (ib.removeAnnounce q a).1.announces.NoEmptyRow := by
  unfold InfoBase.removeAnnounce
  split
  · exact hrows.erase₂ _ _
  · exact hrows

theorem IndexMatches.add (h : IndexMatches q ib) (a : AnnounceInfo) :
    IndexMatches q (ib.addAnnounce q a).1 := by
  refine ⟨h.rows.insertIfNew₂ _ _ _, h.sets.addAnnounce q ib a, ?_⟩
  intro x f
  rw [indexed_addAnnounce, h.index]
  simp only [get₂?_addAnnounce]
  cases hold : ib.announces.get₂? a.fullnameHash a.sourceNodeId with
  | none =>
    constructor
    · rintro (⟨n, b, hb, hx⟩ | ⟨-, hx, rfl⟩)
      · exact ⟨n, b, by rw [if_neg (by rintro ⟨rfl, rfl⟩; simp [hold] at hb), hb], hx⟩
      · exact ⟨a.sourceNodeId, a, by simp, hx⟩
    · rintro ⟨n, b, hb, hx⟩
      split at hb
      · rename_i heq
        cases hb
        exact .inr ⟨rfl, hx, heq.1⟩
      · exact .inl ⟨n, b, hb, hx⟩
  | some old =>
    have hsame : ∀ n, (if f = a.fullnameHash ∧ n = a.sourceNodeId then some ((some old).getD a)
        else ib.announces.get₂? f n) = ib.announces.get₂? f n := by
      intro n
      split
      · rename_i heq
        rw [heq.1, heq.2, hold]
        rfl
      · rfl
    simp only [hsame]
    simp

/-- Nothing but the announcement itself is stored under its name with a namespace. -/
def SoleEntry (ib : InfoBase) (a : AnnounceInfo) : Prop :=
  ∀ n old, ib.announces.get₂? a.fullnameHash n = some old → old.nameSpace ≠ [] →
    n = a.sourceNodeId ∧ old.nameSpace = a.nameSpace

/-- A removal keeps the tables matched when nothing else is stored under the name. -/
theorem IndexMatches.remove (h : IndexMatches q ib) {a : AnnounceInfo} (hsole : SoleEntry ib a) :
    IndexMatches q (ib.removeAnnounce q a).1 := by
  obtain ⟨hsets, hindexed⟩ := prefixLookup_removeAnnounce q ib a h.sets
  refine ⟨noEmptyRow_removeAnnounce h.rows a, hsets, ?_⟩
  intro x f
  rw [hindexed, h.index, h.rows.contains_iff]
  simp only [get₂?_removeAnnounce]
  have hnonempty : ∀ {b : AnnounceInfo}, x ∈ prefixHashNamespaceTuples q b.nameSpace →
      b.nameSpace ≠ [] := by
    intro b hx hnil
    rw [hnil] at hx
    exact List.not_mem_nil hx
  constructor
  · rintro ⟨⟨n, b, hb, hx⟩, hkeep⟩
    refine ⟨n, b, ?_, hx⟩
    rw [if_neg, hb]
    rintro ⟨rfl, rfl⟩
    exact hkeep ⟨⟨_, b, hb⟩, (hsole _ b hb (hnonempty hx)).2 ▸ hx, rfl⟩
  · rintro ⟨n, b, hb, hx⟩
    split at hb
    · cases hb
    · rename_i hne
      refine ⟨⟨n, b, hb, hx⟩, ?_⟩
      rintro ⟨-, -, rfl⟩
      exact hne ⟨rfl, (hsole n b hb (hnonempty hx)).1⟩

theorem IndexMatches.congr {ib' : InfoBase} (h : IndexMatches q ib)
    (hannounces : ib'.announces = ib.announces)
    (hprefixes : ib'.prefixLookupAnnounces = ib.prefixLookupAnnounces) : IndexMatches q ib' := by
  obtain ⟨hrows, hsets, hindex⟩ := h
  rw [← hannounces] at hrows hindex
  rw [← hprefixes] at hsets hindex
  exact ⟨hrows, hsets, hindex⟩

end Matches

theorem mem_announceNodes {ib : InfoBase} {f : UInt64} {n : NodeIdValueType} :
    n ∈ ib.announceNodes f ↔ ∃ a, ib.announces.get₂? f n = some a := by
  rw [announceNodes, ExtTreeMap.getD_eq_getD_getElem?, ExtTreeMap.mem_keys, ExtTreeMap.get₂?,
    ← ExtTreeMap.contains_iff_mem, ExtTreeMap.contains_iff_getElem?]
  cases ib.announces[f]? <;> simp

/-- `GetAnnounceIds` in terms of the two tables. -/
theorem contains_getAnnounceIds {q : Quicr} {ib : InfoBase} {nameSpace : TrackNamespace}
    (hne : nameSpace ≠ []) (name : TrackName) (exact : Bool) (n : NodeIdValueType) :
    (ib.getAnnounceIds q nameSpace name exact).contains n = true ↔
      (∃ a, ib.announces.get₂? (q.trackHash ⟨nameSpace, name⟩).trackFullnameHash n = some a) ∨
        (exact = false ∧
          (∀ m, ib.announces.get₂? (q.trackHash ⟨nameSpace, name⟩).trackFullnameHash m = none) ∧
          ∃ f a, Indexed ib.prefixLookupAnnounces (prefixHash q nameSpace) f ∧
            ib.announces.get₂? f n = some a) := by
  have hids : ∀ n, ((ib.announceNodes (q.trackHash ⟨nameSpace, name⟩).trackFullnameHash).foldl
      ExtTreeSet.insert (∅ : ExtTreeSet NodeIdValueType)).contains n = true ↔
      ∃ a, ib.announces.get₂? (q.trackHash ⟨nameSpace, name⟩).trackFullnameHash n = some a := by
    intro n
    rw [ExtTreeSet.contains_foldl_insert, mem_announceNodes]
    simp
  unfold getAnnounceIds
  generalize (ib.announceNodes (q.trackHash ⟨nameSpace, name⟩).trackFullnameHash).foldl
    ExtTreeSet.insert (∅ : ExtTreeSet NodeIdValueType) = ids at hids
  have hempty : ids.isEmpty = false ↔
      ∃ m a, ib.announces.get₂? (q.trackHash ⟨nameSpace, name⟩).trackFullnameHash m = some a := by
    rw [ExtTreeSet.isEmpty_eq_false_iff_contains]
    exact exists_congr hids
  by_cases hfull : (!ids.isEmpty || exact) = true
  · simp only [hfull, if_true, hids]
    rw [Bool.or_eq_true, Bool.not_eq_true', hempty] at hfull
    constructor
    · exact .inl
    · rintro (hstored | ⟨hexact, hnone, -⟩)
      · exact hstored
      · rcases hfull with ⟨m, a, hm⟩ | htrue
        · rw [hnone m] at hm
          cases hm
        · rw [htrue] at hexact
          cases hexact
  · have hlast := getLast?_prefixHashNamespaceTuples q hne
    simp only [hfull, if_false, hlast, ExtTreeSet.contains_foldl_insert, hids, List.mem_flatMap,
      mem_announceNodes, Bool.false_eq_true]
    rw [Bool.or_eq_true, Bool.not_eq_true', hempty, not_or, not_exists, Bool.not_eq_true] at hfull
    have hindexed : ∀ f, f ∈ (ib.prefixLookupAnnounces.getD (prefixHash q nameSpace) ∅).toList ↔
        Indexed ib.prefixLookupAnnounces (prefixHash q nameSpace) f := by
      intro f
      rw [ExtTreeMap.getD_eq_getD_getElem?, ExtTreeSet.mem_toList, ← ExtTreeSet.contains_iff_mem,
        Indexed]
      cases ib.prefixLookupAnnounces[prefixHash q nameSpace]? <;> simp
    have hnone : ∀ m, ib.announces.get₂? (q.trackHash ⟨nameSpace, name⟩).trackFullnameHash m =
        none := by
      intro m
      by_contra hsome
      obtain ⟨a, ha⟩ := Option.ne_none_iff_exists'.mp hsome
      exact hfull.1 m ⟨a, ha⟩
    constructor
    · rintro (⟨f, hf, a, ha⟩ | hstored)
      · exact .inr ⟨hfull.2, hnone, f, a, (hindexed f).mp hf, ha⟩
      · exact .inl hstored
    · rintro (hstored | ⟨-, -, f, a, hf, ha⟩)
      · exact .inr hstored
      · exact .inl ⟨f, (hindexed f).mpr hf, a, ha⟩

end InfoBase

/-! ### Runs -/

inductive AnnounceOp where
  | add (a : AnnounceInfo)
  | remove (a : AnnounceInfo)
  deriving DecidableEq, Repr

def AnnounceOp.info : AnnounceOp → AnnounceInfo
  | .add a => a
  | .remove a => a

def InfoBase.announceStep (q : Quicr) (ib : InfoBase) : AnnounceOp → InfoBase
  | .add a => (ib.addAnnounce q a).1
  | .remove a => (ib.removeAnnounce q a).1

def InfoBase.announceRun (q : Quicr) (ops : List AnnounceOp) : InfoBase :=
  ops.foldl (InfoBase.announceStep q) {}

/-- The prefixes of the namespaces of some names. -/
def prefixesOf (names : Set FullTrackName) : Set TrackNamespace :=
  {pfx | pfx ≠ [] ∧ ∃ full ∈ names, pfx <+: full.nameSpace}

/-- No two of the names share a full-name hash, and no two of their prefixes a chained hash. -/
structure CollisionFree (q : Quicr) (names : Set FullTrackName) : Prop where
  fullname : Set.InjOn (fun full => (q.trackHash full).trackFullnameHash) names
  chain : Set.InjOn (InfoBase.prefixHash q) (prefixesOf names)

/-- The announcement is of one of the names and carries its hash. -/
structure AnnounceInfo.WellNamed (q : Quicr) (names : Set FullTrackName) (a : AnnounceInfo) :
    Prop where
  mem : a.fullTrackName ∈ names
  nonempty : a.nameSpace ≠ []
  hash : a.fullnameHash = (q.trackHash a.fullTrackName).trackFullnameHash

/-- The node has a stored announcement of the name. -/
def Announced (ib : InfoBase) (full : FullTrackName) (n : NodeIdValueType) : Prop :=
  ∃ f a, ib.announces.get₂? f n = some a ∧ a.fullTrackName = full

/-- The two tables answer for the stored announcements. -/
structure AnnouncesCorrect (q : Quicr) (names : Set FullTrackName) (ib : InfoBase) : Prop where
  /-- Each prefix hash leads to the stored announcements whose namespace has the prefix. -/
  index : ∀ pfx ∈ prefixesOf names, ∀ f,
    InfoBase.Indexed ib.prefixLookupAnnounces (InfoBase.prefixHash q pfx) f ↔
      ∃ n a, ib.announces.get₂? f n = some a ∧ pfx <+: a.nameSpace
  /-- Every key of the prefix table is the hash of such a prefix. -/
  keys : ∀ x, ib.prefixLookupAnnounces.contains x = true → ∃ pfx f n a, pfx ≠ [] ∧
    ib.announces.get₂? f n = some a ∧ pfx <+: a.nameSpace ∧ InfoBase.prefixHash q pfx = x
  /-- A stored name, or an exact lookup: the nodes that have announced the name. -/
  full : ∀ nameSpace name exact, (⟨nameSpace, name⟩ : FullTrackName) ∈ names → nameSpace ≠ [] →
    (exact = true ∨ ∃ m, Announced ib ⟨nameSpace, name⟩ m) → ∀ n,
      (ib.getAnnounceIds q nameSpace name exact).contains n = true ↔
        Announced ib ⟨nameSpace, name⟩ n
  /-- Otherwise the nodes that have announced something under the namespace. -/
  under : ∀ nameSpace name, (⟨nameSpace, name⟩ : FullTrackName) ∈ names → nameSpace ≠ [] →
    (∀ m, ¬ Announced ib ⟨nameSpace, name⟩ m) → ∀ n,
      (ib.getAnnounceIds q nameSpace name false).contains n = true ↔
        ∃ f a, ib.announces.get₂? f n = some a ∧ nameSpace <+: a.nameSpace

/-- What the tables look like as long as no removal takes away the entries of another node. -/
structure AnnouncesInv (q : Quicr) (names : Set FullTrackName) (ib : InfoBase) : Prop where
  rows : ib.announces.NoEmptyRow
  sets : InfoBase.NoEmptySet ib.prefixLookupAnnounces
  stored : ∀ f n a, ib.announces.get₂? f n = some a → a.fullnameHash = f ∧ a.WellNamed q names
  index : ∀ x f, InfoBase.Indexed ib.prefixLookupAnnounces x f ↔
    ∃ n a, ib.announces.get₂? f n = some a ∧
      x ∈ InfoBase.prefixHashNamespaceTuples q a.nameSpace

/-- No node but that of the announcement has announced its name. -/
def SoleAnnouncer (ib : InfoBase) (a : AnnounceInfo) : Prop :=
  ∀ n old, ib.announces.get₂? a.fullnameHash n = some old → n = a.sourceNodeId

section Run

variable {q : Quicr} {names : Set FullTrackName} {ib : InfoBase}

theorem announcesInv_empty : AnnouncesInv q names {} where
  rows := ExtTreeMap.noEmptyRow_empty
  sets x hx := by simp at hx
  stored f n a h := by simp at h
  index x f := by simp [InfoBase.Indexed]

theorem AnnouncesInv.indexed (h : AnnouncesInv q names ib) : InfoBase.IndexMatches q ib :=
  ⟨h.rows, h.sets, h.index⟩

theorem AnnouncesInv.add (h : AnnouncesInv q names ib) {a : AnnounceInfo}
    (ha : a.WellNamed q names) : AnnouncesInv q names (ib.addAnnounce q a).1 := by
  obtain ⟨hrows, hsets, hindex⟩ := h.indexed.add a
  refine ⟨hrows, hsets, ?_, hindex⟩
  intro f n b hb
  rw [InfoBase.get₂?_addAnnounce] at hb
  split at hb
  · rename_i heq
    obtain ⟨rfl, rfl⟩ := heq
    cases hold : ib.announces.get₂? a.fullnameHash a.sourceNodeId with
    | none =>
      rw [hold] at hb
      cases hb
      exact ⟨rfl, ha⟩
    | some old =>
      rw [hold] at hb
      cases hb
      exact h.stored _ _ _ hold
  · exact h.stored _ _ _ hb

/-- Stored announcements of one hash have one name. -/
theorem AnnouncesInv.same_name (h : AnnouncesInv q names ib) (hfree : CollisionFree q names)
    {a old : AnnounceInfo} (ha : a.WellNamed q names) {n : NodeIdValueType}
    (hold : ib.announces.get₂? a.fullnameHash n = some old) :
    old.fullTrackName = a.fullTrackName := by
  obtain ⟨hhash, hwell⟩ := h.stored _ _ _ hold
  refine hfree.fullname hwell.mem ha.mem ?_
  show (q.trackHash old.fullTrackName).trackFullnameHash =
    (q.trackHash a.fullTrackName).trackFullnameHash
  rw [← hwell.hash, ← ha.hash, hhash]

theorem AnnouncesInv.remove (h : AnnouncesInv q names ib) (hfree : CollisionFree q names)
    {a : AnnounceInfo} (ha : a.WellNamed q names) (hsole : SoleAnnouncer ib a) :
    AnnouncesInv q names (ib.removeAnnounce q a).1 := by
  obtain ⟨hrows, hsets, hindex⟩ := h.indexed.remove fun n old hold _ =>
    ⟨hsole n old hold, (FullTrackName.mk.inj (h.same_name hfree ha hold)).1⟩
  refine ⟨hrows, hsets, ?_, hindex⟩
  intro f n b hb
  rw [InfoBase.get₂?_removeAnnounce] at hb
  split at hb
  · cases hb
  · exact h.stored _ _ _ hb

theorem AnnouncesInv.correct (h : AnnouncesInv q names ib) (hfree : CollisionFree q names) :
    AnnouncesCorrect q names ib := by
  have hhead : ∀ pfx ∈ prefixesOf names, ∀ f n a, ib.announces.get₂? f n = some a →
      (InfoBase.prefixHash q pfx ∈ InfoBase.prefixHashNamespaceTuples q a.nameSpace ↔
        pfx <+: a.nameSpace) := by
    intro pfx hpfx f n a hstored
    apply InfoBase.prefixHash_mem_iff hpfx.1
    apply hfree.chain.mono
    rintro p (rfl | ⟨hne, hle⟩)
    · exact hpfx
    · exact ⟨hne, a.fullTrackName, (h.stored _ _ _ hstored).2.mem, hle⟩
  have hname : ∀ nameSpace name, (⟨nameSpace, name⟩ : FullTrackName) ∈ names → ∀ n,
      (∃ a, ib.announces.get₂? (q.trackHash ⟨nameSpace, name⟩).trackFullnameHash n = some a) ↔
        Announced ib ⟨nameSpace, name⟩ n := by
    intro nameSpace name hmem n
    constructor
    · rintro ⟨a, ha⟩
      obtain ⟨hhash, hwell⟩ := h.stored _ _ _ ha
      exact ⟨_, a, ha, hfree.fullname hwell.mem hmem (hwell.hash.symm.trans hhash)⟩
    · rintro ⟨f, a, ha, hfull⟩
      obtain ⟨rfl, hwell⟩ := h.stored _ _ _ ha
      exact ⟨a, by rwa [← hfull, ← hwell.hash]⟩
  have hindex : ∀ pfx ∈ prefixesOf names, ∀ f,
      InfoBase.Indexed ib.prefixLookupAnnounces (InfoBase.prefixHash q pfx) f ↔
        ∃ n a, ib.announces.get₂? f n = some a ∧ pfx <+: a.nameSpace := by
    intro pfx hpfx f
    rw [h.index]
    constructor
    · rintro ⟨n, a, ha, hx⟩
      exact ⟨n, a, ha, (hhead pfx hpfx f n a ha).mp hx⟩
    · rintro ⟨n, a, ha, hle⟩
      exact ⟨n, a, ha, (hhead pfx hpfx f n a ha).mpr hle⟩
  refine ⟨hindex, ?_, ?_, ?_⟩
  · intro x hx
    obtain ⟨f, hf⟩ := h.sets x hx
    obtain ⟨n, a, ha, hmem⟩ := (h.index x f).mp hf
    obtain ⟨pfx, hne, hle, heq⟩ := InfoBase.mem_prefixHashNamespaceTuples.mp hmem
    exact ⟨pfx, f, n, a, hne, ha, hle, heq⟩
  · intro nameSpace name exact hmem hne hcase n
    rw [InfoBase.contains_getAnnounceIds hne, hname nameSpace name hmem n]
    constructor
    · rintro (hstored | ⟨hexact, hnone, -⟩)
      · exact hstored
      · rcases hcase with htrue | ⟨m, hm⟩
        · rw [htrue] at hexact
          cases hexact
        · obtain ⟨a, ha⟩ := (hname nameSpace name hmem m).mpr hm
          rw [hnone m] at ha
          cases ha
    · exact .inl
  · intro nameSpace name hmem hne hnone n
    rw [InfoBase.contains_getAnnounceIds hne, hname nameSpace name hmem n]
    have hpfx : nameSpace ∈ prefixesOf names := ⟨hne, _, hmem, List.prefix_rfl⟩
    constructor
    · rintro (hstored | ⟨-, -, f, a, hf, ha⟩)
      · exact absurd hstored (hnone n)
      · obtain ⟨m, b, hb, hle⟩ := (hindex nameSpace hpfx f).mp hf
        refine ⟨f, a, ha, ?_⟩
        obtain ⟨rfl, hwell⟩ := h.stored _ _ _ ha
        rwa [← (FullTrackName.mk.inj (h.same_name hfree hwell hb)).1]
    · rintro ⟨f, a, ha, hle⟩
      refine .inr ⟨rfl, fun m => ?_, f, a, (hindex nameSpace hpfx f).mpr ⟨n, a, ha, hle⟩, ha⟩
      by_contra hsome
      obtain ⟨b, hb⟩ := Option.ne_none_iff_exists'.mp hsome
      exact hnone m ((hname nameSpace name hmem m).mp ⟨b, hb⟩)

/-- A removal while another node announces the name leaves that node's announcement without its
prefix entries. -/
theorem not_correct_of_not_sole (hrows : ib.announces.NoEmptyRow)
    (hsets : InfoBase.NoEmptySet ib.prefixLookupAnnounces)
    {a old : AnnounceInfo} (ha : a.WellNamed q names) {n : NodeIdValueType}
    (hold : ib.announces.get₂? a.fullnameHash n = some old)
    (hspace : old.nameSpace = a.nameSpace) (hne : n ≠ a.sourceNodeId) :
    ¬ AnnouncesCorrect q names (ib.removeAnnounce q a).1 := by
  intro hcorrect
  have hpfx : a.nameSpace ∈ prefixesOf names := ⟨ha.nonempty, _, ha.mem, List.prefix_rfl⟩
  have hstill := (hcorrect.index a.nameSpace hpfx a.fullnameHash).mpr
    ⟨n, old, by rw [InfoBase.get₂?_removeAnnounce q ib a, if_neg (by simp [hne]), hold],
      hspace ▸ List.prefix_rfl⟩
  rw [(InfoBase.prefixLookup_removeAnnounce q ib a hsets).2] at hstill
  exact hstill.2 ⟨hrows.contains_iff.mpr ⟨n, old, hold⟩,
    InfoBase.mem_prefixHashNamespaceTuples.mpr ⟨_, ha.nonempty, List.prefix_rfl, rfl⟩, rfl⟩

theorem InfoBase.announceRun_concat (ops : List AnnounceOp) (op : AnnounceOp) :
    InfoBase.announceRun q (ops ++ [op]) = (InfoBase.announceRun q ops).announceStep q op := by
  simp [InfoBase.announceRun]

theorem AnnouncesInv.step (h : AnnouncesInv q names ib) (hfree : CollisionFree q names)
    {op : AnnounceOp} (hop : op.info.WellNamed q names)
    (hsole : ∀ a, op = .remove a → SoleAnnouncer ib a) :
    AnnouncesInv q names (ib.announceStep q op) := by
  cases op with
  | add a => exact h.add hop
  | remove a => exact h.remove hfree hop (hsole a rfl)

/-- Every removal of the run comes from the only node that announces the name. -/
def SoleRemovals (q : Quicr) (ops : List AnnounceOp) : Prop :=
  ∀ before a, before ++ [.remove a] <+: ops → SoleAnnouncer (InfoBase.announceRun q before) a

theorem SoleRemovals.of_prefix {ops before : List AnnounceOp} (h : SoleRemovals q ops)
    (hle : before <+: ops) : SoleRemovals q before :=
  fun before' a hb => h before' a (hb.trans hle)

theorem announcesInv_run (hfree : CollisionFree q names) (ops : List AnnounceOp)
    (hops : ∀ op ∈ ops, op.info.WellNamed q names) (hsole : SoleRemovals q ops) :
    AnnouncesInv q names (InfoBase.announceRun q ops) := by
  induction ops using List.reverseRecOn with
  | nil => exact announcesInv_empty
  | append_singleton ops op ih =>
    rw [InfoBase.announceRun_concat]
    refine (ih (fun op hop => hops op (List.mem_append_left _ hop))
      (hsole.of_prefix (List.prefix_append _ _))).step hfree (hops op (by simp)) ?_
    rintro a rfl
    exact hsole ops a List.prefix_rfl

theorem soleRemovals_of_correct (hfree : CollisionFree q names) (ops : List AnnounceOp)
    (hops : ∀ op ∈ ops, op.info.WellNamed q names)
    (hcorrect : ∀ before, before <+: ops →
      AnnouncesCorrect q names (InfoBase.announceRun q before)) : SoleRemovals q ops := by
  induction ops using List.reverseRecOn with
  | nil =>
    intro before a hle
    simp at hle
  | append_singleton ops op ih =>
    have hops' : ∀ op ∈ ops, op.info.WellNamed q names :=
      fun op hop => hops op (List.mem_append_left _ hop)
    have hsole := ih hops' fun before hle => hcorrect before (hle.trans (List.prefix_append _ _))
    have hinv := announcesInv_run hfree ops hops' hsole
    intro before a hle
    rcases List.prefix_concat_iff.mp hle with heq | hle
    · obtain ⟨rfl, hop⟩ := List.append_inj' heq rfl
      obtain rfl : .remove a = op := by simpa using hop
      have ha : a.WellNamed q names := hops (.remove a) (by simp)
      intro n old hold
      by_contra hne
      refine not_correct_of_not_sole hinv.rows hinv.sets ha hold ?_ hne ?_
      · exact (FullTrackName.mk.inj (hinv.same_name hfree ha hold)).1
      · have := hcorrect _ List.prefix_rfl
        rwa [InfoBase.announceRun_concat] at this
    · exact hsole before a hle

end Run

/-- The tables answer for the stored announcements in every state of a run exactly when every
removal comes from the only node that announces the name. -/
theorem announces_correct_iff (q : Quicr) (names : Set FullTrackName)
    (hfree : CollisionFree q names) (ops : List AnnounceOp)
    (hops : ∀ op ∈ ops, op.info.WellNamed q names) :
    (∀ before, before <+: ops → AnnouncesCorrect q names (InfoBase.announceRun q before)) ↔
      SoleRemovals q ops := by
  constructor
  · exact soleRemovals_of_correct hfree ops hops
  · intro hsole before hle
    have hinv := announcesInv_run hfree before (fun op hop => hops op (hle.subset hop))
      (hsole.of_prefix hle)
    exact hinv.correct hfree

/-- One track as node `n` announces it. -/
def announceBy (n : NodeIdValueType) : AnnounceInfo :=
  { sourceNodeId := n, nameSpace := [[1]], name := [2],
    fullnameHash := (Quicr.polynomial.trackHash ⟨[[1]], [2]⟩).trackFullnameHash }

theorem collisionFree_announceBy :
    CollisionFree .polynomial {(⟨[[1]], [2]⟩ : FullTrackName)} := by
  refine ⟨Set.injOn_singleton _ _, ?_⟩
  have hone : ∀ pfx ∈ prefixesOf {(⟨[[1]], [2]⟩ : FullTrackName)}, pfx = [[1]] := by
    rintro pfx ⟨hne, full, rfl, hle⟩
    rcases (@List.prefix_concat_iff _ _ [] _).mp hle with rfl | hle
    · rfl
    · exact absurd (List.prefix_nil.mp hle) hne
  intro a ha b hb _
  rw [hone a ha, hone b hb]

theorem wellNamed_announceBy (n : NodeIdValueType) :
    (announceBy n).WellNamed .polynomial {(⟨[[1]], [2]⟩ : FullTrackName)} :=
  ⟨rfl, by simp [announceBy], rfl⟩

/-- Node 1 announces and removes, then node 2 announces. -/
theorem announces_correct_iff_in_turn :
    let ops : List AnnounceOp := [.add (announceBy 1), .remove (announceBy 1), .add (announceBy 2)]
    ((InfoBase.announceRun .polynomial ops).getAnnounceIds .polynomial [[1]] [] false).toList = [2] ∧
      ∀ before, before <+: ops → AnnouncesCorrect .polynomial {(⟨[[1]], [2]⟩ : FullTrackName)}
        (InfoBase.announceRun .polynomial before) := by
  refine ⟨by decide +kernel, (announces_correct_iff _ _ collisionFree_announceBy _ ?_).mpr ?_⟩
  · intro op hop
    simp only [List.mem_cons, List.not_mem_nil, or_false] at hop
    rcases hop with rfl | rfl | rfl <;> exact wellNamed_announceBy _
  · rintro before a ⟨rest, hrest⟩
    rcases before with _ | ⟨first, _ | ⟨second, _ | ⟨third, before⟩⟩⟩
    · simp at hrest
    · simp only [List.cons_append, List.nil_append, List.cons.injEq, AnnounceOp.remove.injEq] at hrest
      obtain ⟨rfl, rfl, -⟩ := hrest
      intro n old hold
      simp only [InfoBase.announceRun, List.foldl_cons, List.foldl_nil, InfoBase.announceStep,
        InfoBase.get₂?_addAnnounce, ExtTreeMap.get₂?_empty] at hold
      split at hold
      · rename_i heq
        exact heq.2
      · cases hold
    · simp at hrest
    · simp at hrest

/-- Nodes 1 and 2 announce the track and node 1 withdraws it: a prefix lookup finds nothing, though
node 2 still announces it. -/
theorem not_announces_correct :
    ¬ ∀ (q : Quicr) (names : Set FullTrackName), CollisionFree q names →
      ∀ ops : List AnnounceOp, (∀ op ∈ ops, op.info.WellNamed q names) →
        AnnouncesCorrect q names (InfoBase.announceRun q ops) := by
  intro h
  have hcorrect := h .polynomial {⟨[[1]], [2]⟩} collisionFree_announceBy
    [.add (announceBy 1), .add (announceBy 2), .remove (announceBy 1)] (by
      intro op hop
      simp only [List.mem_cons, List.not_mem_nil, or_false] at hop
      rcases hop with rfl | rfl | rfl <;> exact wellNamed_announceBy _)
  have hstored : (InfoBase.announceRun .polynomial [.add (announceBy 1), .add (announceBy 2),
      .remove (announceBy 1)]).announces.get₂? (announceBy 2).fullnameHash 2 =
        some (announceBy 2) := by
    decide +kernel
  obtain ⟨hashSet, hset, -⟩ := (hcorrect.index [[1]]
    ⟨by simp, ⟨[[1]], [2]⟩, rfl, List.prefix_rfl⟩ _).mpr ⟨2, _, hstored, List.prefix_rfl⟩
  have hnone : (InfoBase.announceRun .polynomial [.add (announceBy 1), .add (announceBy 2),
      .remove (announceBy 1)]).prefixLookupAnnounces[InfoBase.prefixHash .polynomial [[1]]]? =
        none := by
    decide +kernel
  rw [hnone] at hset
  cases hset

end Laps.Peering
