import Laps.Lib.Network

/-! Weights of messages in flight.  Nodes that send for a message only messages that weigh less in
total process finitely many. -/

set_option linter.unusedSectionVars false

namespace Network

variable {ν δ σ ι μ : Type*} [DecidableEq ν] [DecidableEq δ]

/-- The weight of the messages of one end that have not arrived. -/
def pending (w : μ → ℕ) (sent : List μ) (delivered : List ℕ) : ℕ :=
  ∑ k ∈ Finset.range sent.length, if k ∈ delivered then 0 else (sent[k]?.map w).getD 0

theorem pending_append_le (w : μ → ℕ) (sent new : List μ) (delivered : List ℕ) :
    pending w (sent ++ new) delivered ≤ pending w sent delivered + (new.map w).sum := by
  induction new using List.reverseRecOn with
  | nil => simp
  | append_singleton new msg ih =>
    have hlast : pending w (sent ++ (new ++ [msg])) delivered ≤
        pending w (sent ++ new) delivered + w msg := by
      have hlength : (sent ++ new ++ [msg]).length = (sent ++ new).length + 1 :=
        List.length_append
      unfold pending
      rw [← List.append_assoc, hlength, Finset.sum_range_succ]
      refine Nat.add_le_add (le_of_eq (Finset.sum_congr rfl fun k hk => ?_)) ?_
      · rw [List.getElem?_append_left (Finset.mem_range.mp hk)]
      · split
        · exact Nat.zero_le _
        · simp
    rw [List.map_append, List.sum_append, List.map_singleton, List.sum_singleton]
    omega

theorem pending_arrived (w : μ → ℕ) {sent : List μ} {delivered : List ℕ} {k : ℕ} {msg : μ}
    (hget : sent[k]? = some msg) (hnew : k ∉ delivered) :
    pending w sent (k :: delivered) + w msg = pending w sent delivered := by
  have hk : k ∈ Finset.range sent.length :=
    Finset.mem_range.mpr (List.getElem?_eq_some_iff.mp hget).1
  unfold pending
  rw [← Finset.add_sum_erase _ _ hk, ← Finset.add_sum_erase (Finset.range sent.length) _ hk]
  have hrest : ∑ j ∈ (Finset.range sent.length).erase k,
      (if j ∈ k :: delivered then 0 else (sent[j]?.map w).getD 0) =
      ∑ j ∈ (Finset.range sent.length).erase k,
        if j ∈ delivered then 0 else (sent[j]?.map w).getD 0 := by
    refine Finset.sum_congr rfl fun j hj => ?_
    simp [Finset.ne_of_mem_erase hj]
  rw [hrest]
  simp [hget, hnew]
  omega

section Runs

variable [Fintype δ] (t : Topology ν δ) (p : Protocol ν δ σ ι μ) (w : μ → ℕ)

def Net.weight (net : Net ν δ σ) : ℕ := ∑ d, pending w (net.sent t p d) (net.delivered d)

variable {t p w}

theorem Net.weight_eq_zero {net : Net ν δ σ} (h : ∀ d, ∀ msg ∈ net.sent t p d, w msg = 0) :
    net.weight t p w = 0 := by
  apply Finset.sum_eq_zero
  intro d _
  apply Finset.sum_eq_zero
  intro k hk
  split
  · rfl
  · rw [List.getElem?_eq_getElem (Finset.mem_range.mp hk)]
    exact h d _ (List.getElem_mem _)

/-- A node that changes adds the weight of what it sends. -/
theorem Net.weight_update_le (net : Net ν δ σ) {n : ν} {f : σ → σ} {c : ℕ}
    (hf : ∀ d, t.node d = n → ∃ new,
      p.sent d (f (net.nodes n)) = p.sent d (net.nodes n) ++ new ∧ (new.map w).sum ≤ c) :
    (net.update n f).weight t p w ≤ net.weight t p w + Fintype.card δ * c := by
  have hend : ∀ d, pending w ((net.update n f).sent t p d) ((net.update n f).delivered d) ≤
      pending w (net.sent t p d) (net.delivered d) + c := by
    intro d
    unfold Net.sent
    by_cases hd : t.node d = n
    · obtain ⟨new, hsent, hsum⟩ := hf d hd
      rw [hd, Net.update_nodes_self, Net.update_delivered, hsent]
      have hle := pending_append_le w (p.sent d (net.nodes n)) new (net.delivered d)
      omega
    · rw [Net.update_nodes_of_ne _ _ hd, Net.update_delivered]
      omega
  calc (net.update n f).weight t p w
      ≤ ∑ d, (pending w (net.sent t p d) (net.delivered d) + c) :=
        Finset.sum_le_sum fun d _ => hend d
    _ = net.weight t p w + Fintype.card δ * c := by
        rw [Finset.sum_add_distrib, Finset.sum_const, Finset.card_univ, smul_eq_mul]
        rfl

/-- A message that arrives takes its weight off. -/
theorem Net.weight_arrived {net : Net ν δ σ} {d : δ} {k : ℕ} {msg : μ}
    (h : net.InFlight t p d k msg) :
    (net.arrived d k).weight t p w + w msg = net.weight t p w := by
  unfold Net.weight
  rw [← Finset.add_sum_erase _ _ (Finset.mem_univ d),
    ← Finset.add_sum_erase Finset.univ (fun e => pending w (net.sent t p e) (net.delivered e))
      (Finset.mem_univ d)]
  have hself : pending w ((net.arrived d k).sent t p d) ((net.arrived d k).delivered d) + w msg =
      pending w (net.sent t p d) (net.delivered d) := by
    have harrived := pending_arrived w h.1 h.2
    simpa [Net.arrived, Net.sent] using harrived
  have hrest : ∑ e ∈ Finset.univ.erase d,
      pending w ((net.arrived d k).sent t p e) ((net.arrived d k).delivered e) =
      ∑ e ∈ Finset.univ.erase d, pending w (net.sent t p e) (net.delivered e) := by
    refine Finset.sum_congr rfl fun e he => ?_
    simp [Net.arrived, Net.sent, Finset.ne_of_mem_erase he]
  rw [hrest]
  omega

end Runs

/-! ### Costs of runs -/

section Cost

variable (t : Topology ν δ) (p : Protocol ν δ σ ι μ)

/-- The cost of the steps of a run. -/
def runCost (cost : Net ν δ σ → Label ν δ ι → ℕ) (net : Net ν δ σ) : List (Label ν δ ι) → ℕ
  | [] => 0
  | label :: labels =>
    match step t p net label with
    | none => 0
    | some net' => cost net label + runCost cost net' labels

variable {t p}

theorem sum_gain (f : Label ν δ ι → Bool) (c : ℕ) (labels : List (Label ν δ ι)) :
    (labels.map fun label => if f label then c else 0).sum = labels.countP f * c := by
  induction labels with
  | nil => simp
  | cons label labels ih =>
    rw [List.map_cons, List.sum_cons, ih, List.countP_cons]
    split
    · rw [Nat.succ_mul, Nat.add_comm]
    · simp

/-- A potential that pays for the steps pays for the run. -/
theorem runCost_le {cost : Net ν δ σ → Label ν δ ι → ℕ} {potential : Net ν δ σ → ℕ}
    {gain : Label ν δ ι → ℕ} {Inv : Net ν δ σ → Prop} {ok : Label ν δ ι → Prop}
    (hstep : ∀ net label net', Inv net → ok label → step t p net label = some net' →
      Inv net' ∧ cost net label + potential net' ≤ potential net + gain label)
    {net : Net ν δ σ} (hnet : Inv net) {labels : List (Label ν δ ι)}
    (hok : ∀ label ∈ labels, ok label) :
    runCost t p cost net labels ≤ potential net + (labels.map gain).sum := by
  induction labels generalizing net with
  | nil => simp [runCost]
  | cons label labels ih =>
    unfold runCost
    split
    · exact Nat.zero_le _
    · rename_i net' hnet'
      obtain ⟨hinv, hle⟩ := hstep net label net' hnet (hok label List.mem_cons_self) hnet'
      have hrest := ih hinv fun l hl => hok l (List.mem_cons_of_mem _ hl)
      rw [List.map_cons, List.sum_cons]
      omega

end Cost

end Network
