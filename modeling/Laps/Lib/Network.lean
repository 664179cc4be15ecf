import Mathlib.Algebra.BigOperators.Fin
import Mathlib.Algebra.Order.BigOperators.Group.Finset
import Mathlib.Data.Fintype.BigOperators
import Mathlib.Data.List.Induction
import Mathlib.Logic.Relation
import Mathlib.Tactic.Common

/-! Networks of nodes that send messages over links.  A link has two ends, each at a node.  A node
keeps what it has sent over each of its ends, and a run delivers these messages in any order. -/

set_option linter.unusedSectionVars false

namespace Network

/-- A graph given by the ends of its links: parallel links and links from a node to itself are
allowed. -/
structure Topology (ν δ : Type*) where
  node : δ → ν
  opposite : δ → δ
  opposite_opposite : ∀ d, opposite (opposite d) = d

namespace Topology

variable {ν δ : Type*} (t : Topology ν δ)

/-- A link leads from one node to the other. -/
def Adj (a b : ν) : Prop := ∃ d, t.node d = a ∧ t.node (t.opposite d) = b

def Connected (a b : ν) : Prop := Relation.ReflTransGen t.Adj a b

end Topology

/-- What the nodes do with inputs `ι` and messages `μ`, in states `σ`. -/
structure Protocol (ν δ σ ι μ : Type*) where
  input : ν → ι → σ → σ
  /-- A message comes in over the end. -/
  receive : δ → μ → σ → σ
  /-- What the node of the end has sent over it, the oldest first. -/
  sent : δ → σ → List μ

/-- The states of the nodes, and for each end which of the messages sent over it have arrived. -/
structure Net (ν δ σ : Type*) where
  nodes : ν → σ
  delivered : δ → List ℕ

inductive Label (ν δ ι : Type*) where
  | input (n : ν) (i : ι)
  /-- The message number `k` that was sent over the end arrives at the other end. -/
  | deliver (d : δ) (k : ℕ)
  deriving DecidableEq

variable {ν δ σ ι μ : Type*} [DecidableEq ν] [DecidableEq δ]

section Runs

variable (t : Topology ν δ) (p : Protocol ν δ σ ι μ)

/-- A node applies `f`. -/
def Net.update (net : Net ν δ σ) (n : ν) (f : σ → σ) : Net ν δ σ :=
  { net with nodes := Function.update net.nodes n (f (net.nodes n)) }

def Net.sent (net : Net ν δ σ) (d : δ) : List μ := p.sent d (net.nodes (t.node d))

def Net.arrived (net : Net ν δ σ) (d : δ) (k : ℕ) : Net ν δ σ :=
  { net with delivered := Function.update net.delivered d (k :: net.delivered d) }

def step (net : Net ν δ σ) : Label ν δ ι → Option (Net ν δ σ)
  | .input n i => some (net.update n (p.input n i))
  | .deliver d k =>
    match (net.sent t p d)[k]? with
    | none => none
    | some msg =>
      if k ∈ net.delivered d then none
      else some ((net.arrived d k).update (t.node (t.opposite d)) (p.receive (t.opposite d) msg))

def run (net : Net ν δ σ) (labels : List (Label ν δ ι)) : Option (Net ν δ σ) :=
  labels.foldlM (step t p) net

/-- Message number `k` that was sent over `d` has not arrived. -/
def Net.InFlight (net : Net ν δ σ) (d : δ) (k : ℕ) (msg : μ) : Prop :=
  (net.sent t p d)[k]? = some msg ∧ k ∉ net.delivered d

/-- No message is in flight. -/
def Net.Quiescent (net : Net ν δ σ) : Prop := ∀ d k msg, ¬ net.InFlight t p d k msg

/-- The inputs of a run, with the nodes they are made at. -/
def inputs (labels : List (Label ν δ ι)) : List (ν × ι) :=
  labels.filterMap fun
    | .input n i => some (n, i)
    | .deliver _ _ => none

end Runs

section RunLemmas

variable {t : Topology ν δ} {p : Protocol ν δ σ ι μ} {net net' : Net ν δ σ}

@[simp] theorem inputs_nil : inputs ([] : List (Label ν δ ι)) = [] := rfl

@[simp] theorem inputs_append (labels labels' : List (Label ν δ ι)) :
    inputs (labels ++ labels') = inputs labels ++ inputs labels' :=
  List.filterMap_append

@[simp] theorem inputs_input (n : ν) (i : ι) :
    inputs [(Label.input n i : Label ν δ ι)] = [(n, i)] := rfl

@[simp] theorem inputs_deliver (d : δ) (k : ℕ) : inputs [(Label.deliver d k : Label ν δ ι)] = [] :=
  rfl

@[simp] theorem run_nil : run t p net [] = some net := rfl

theorem run_concat {labels : List (Label ν δ ι)} {label : Label ν δ ι} :
    run t p net (labels ++ [label]) = some net' ↔
      ∃ mid, run t p net labels = some mid ∧ step t p mid label = some net' := by
  simp [run, List.foldlM_append, Option.bind_eq_some_iff]

/-- What a delivery takes and does. -/
theorem step_deliver {d : δ} {k : ℕ} :
    step t p net (.deliver d k) = some net' ↔ ∃ msg, net.InFlight t p d k msg ∧
      net' = (net.arrived d k).update (t.node (t.opposite d)) (p.receive (t.opposite d) msg) := by
  unfold step Net.InFlight
  cases hget : (net.sent t p d)[k]? with
  | none => simp [hget]
  | some msg => by_cases hk : k ∈ net.delivered d <;> simp [hget, hk, eq_comm]

theorem Net.quiescent_iff :
    net.Quiescent t p ↔ ∀ d, ∀ k < (net.sent t p d).length, k ∈ net.delivered d := by
  unfold Net.Quiescent Net.InFlight
  constructor
  · intro h d k hk
    by_contra hnew
    exact h d k _ ⟨List.getElem?_eq_getElem hk, hnew⟩
  · rintro h d k msg ⟨hget, hnew⟩
    exact hnew (h d k (List.getElem?_eq_some_iff.mp hget).1)

/-- An invariant of the steps holds after every run. -/
theorem run_induction (Inv : List (Label ν δ ι) → Net ν δ σ → Prop) {start : Net ν δ σ}
    (hstart : Inv [] start)
    (hinput : ∀ labels net n i, run t p start labels = some net → Inv labels net →
      Inv (labels ++ [.input n i]) (net.update n (p.input n i)))
    (hdeliver : ∀ labels net d k msg, run t p start labels = some net → Inv labels net →
      net.InFlight t p d k msg → Inv (labels ++ [.deliver d k])
        ((net.arrived d k).update (t.node (t.opposite d)) (p.receive (t.opposite d) msg))) :
    ∀ labels net, run t p start labels = some net → Inv labels net := by
  intro labels
  induction labels using List.reverseRecOn with
  | nil =>
    intro net hrun
    cases hrun
    exact hstart
  | append_singleton labels label ih =>
    intro net hrun
    obtain ⟨mid, hmid, hstep⟩ := run_concat.mp hrun
    cases label with
    | input n i =>
      cases hstep
      exact hinput labels mid n i hmid (ih mid hmid)
    | deliver d k =>
      obtain ⟨msg, hflight, rfl⟩ := step_deliver.mp hstep
      exact hdeliver labels mid d k msg hmid (ih mid hmid) hflight

@[simp] theorem Net.update_nodes_self (net : Net ν δ σ) (n : ν) (f : σ → σ) :
    (net.update n f).nodes n = f (net.nodes n) := by
  simp [Net.update]

theorem Net.update_nodes_of_ne (net : Net ν δ σ) {n m : ν} (f : σ → σ) (h : m ≠ n) :
    (net.update n f).nodes m = net.nodes m := by
  simp [Net.update, h]

/-- What holds of all nodes, and of the node that changes after its change. -/
theorem Net.forall_update (net : Net ν δ σ) (P : ν → σ → Prop) (h : ∀ m, P m (net.nodes m)) {n : ν}
    {f : σ → σ} (hn : P n (f (net.nodes n))) (m : ν) : P m ((net.update n f).nodes m) := by
  by_cases hm : m = n
  · subst hm
    rwa [Net.update_nodes_self]
  · rw [Net.update_nodes_of_ne _ _ hm]
    exact h m

@[simp] theorem Net.update_delivered (net : Net ν δ σ) (n : ν) (f : σ → σ) :
    (net.update n f).delivered = net.delivered := rfl

@[simp] theorem Net.arrived_nodes (net : Net ν δ σ) (d : δ) (k : ℕ) :
    (net.arrived d k).nodes = net.nodes := rfl

theorem Net.mem_delivered_arrived (net : Net ν δ σ) (d e : δ) (j k : ℕ) :
    j ∈ (net.arrived d k).delivered e ↔ (e = d ∧ j = k) ∨ j ∈ net.delivered e := by
  by_cases he : e = d
  · subst he
    simp [Net.arrived]
  · simp [Net.arrived, he]

end RunLemmas

/-! ### Deliveries -/

/-- The numbers of the messages of an end in the order of their delivery. -/
def deliveries (labels : List (Label ν δ ι)) (d : δ) : List ℕ :=
  labels.filterMap fun
    | .input _ _ => none
    | .deliver e k => if e = d then some k else none

/-- Each link delivers its messages in the order in which they were sent. -/
def Fifo (labels : List (Label ν δ ι)) : Prop :=
  ∀ d, deliveries labels d = List.range (deliveries labels d).length

instance [Fintype δ] (labels : List (Label ν δ ι)) : Decidable (Fifo labels) :=
  inferInstanceAs (Decidable (∀ d, deliveries labels d = List.range (deliveries labels d).length))

section Fifo

variable {t : Topology ν δ} {p : Protocol ν δ σ ι μ}

theorem mem_delivered_run {nodes : ν → σ} {labels : List (Label ν δ ι)} {net : Net ν δ σ}
    (hrun : run t p ⟨nodes, fun _ => []⟩ labels = some net) :
    ∀ d k, k ∈ net.delivered d ↔ k ∈ deliveries labels d := by
  refine run_induction
    (fun labels net => ∀ d k, k ∈ net.delivered d ↔ k ∈ deliveries labels d)
    (by simp [deliveries]) ?_ ?_ labels net hrun
  · intro labels mid n i _ ih d k
    simpa [deliveries] using ih d k
  · intro labels mid e j msg _ ih _ d k
    rw [Net.update_delivered, Net.mem_delivered_arrived, ih]
    by_cases hde : d = e
    · subst hde
      simp [deliveries, or_comm]
    · simp [deliveries, hde, Ne.symm hde]

/-- In a run with FIFO links the messages that were sent later than the one that arrives are still
in flight. -/
theorem Fifo.not_delivered {nodes : ν → σ} {labels : List (Label ν δ ι)} {d : δ} {j : ℕ}
    (h : Fifo (labels ++ [.deliver d j])) {net : Net ν δ σ}
    (hrun : run t p ⟨nodes, fun _ => []⟩ labels = some net) {i : ℕ} (hij : j < i) :
    i ∉ net.delivered d := by
  rw [mem_delivered_run hrun]
  have hrange := h d
  have hconcat : deliveries (labels ++ [.deliver d j]) d = deliveries labels d ++ [j] := by
    simp [deliveries]
  rw [hconcat, List.length_append, List.length_singleton, List.range_succ] at hrange
  obtain ⟨hbefore, hj⟩ := List.append_inj' hrange rfl
  rw [hbefore, List.mem_range]
  have hlast : j = (deliveries labels d).length := List.singleton_inj.mp hj
  omega

theorem Fifo.of_append {labels labels' : List (Label ν δ ι)} (h : Fifo (labels ++ labels')) :
    Fifo labels := by
  intro d
  have hrange := h d
  have hconcat : deliveries (labels ++ labels') d = deliveries labels d ++ deliveries labels' d :=
    List.filterMap_append
  have htake := congrArg (List.take (deliveries labels d).length) hrange
  rw [hconcat, List.take_left, List.take_range, List.length_append] at htake
  rw [htake]
  simp

end Fifo

section Count

variable {t : Topology ν δ} {p : Protocol ν δ σ ι μ}

theorem Net.sent_update_prefix (net : Net ν δ σ) (n : ν) (f : σ → σ)
    (hf : ∀ d, t.node d = n → p.sent d (net.nodes n) <+: p.sent d (f (net.nodes n))) (d : δ) :
    net.sent t p d <+: (net.update n f).sent t p d := by
  unfold Net.sent
  by_cases hn : t.node d = n
  · rw [hn, Net.update_nodes_self]
    exact hf d hn
  · rw [Net.update_nodes_of_ne _ _ hn]

theorem Net.sent_update_of_same (net : Net ν δ σ) (n : ν) (f : σ → σ)
    (hf : ∀ d, t.node d = n → p.sent d (f (net.nodes n)) = p.sent d (net.nodes n)) (d : δ) :
    (net.update n f).sent t p d = net.sent t p d := by
  unfold Net.sent
  by_cases hn : t.node d = n
  · rw [hn, Net.update_nodes_self, hf d hn]
  · rw [Net.update_nodes_of_ne _ _ hn]

/-- Messages arrive once, and only those that were sent. -/
structure Net.Delivered (t : Topology ν δ) (p : Protocol ν δ σ ι μ) (net : Net ν δ σ) : Prop where
  nodup : ∀ d, (net.delivered d).Nodup
  lt : ∀ d, ∀ k ∈ net.delivered d, k < (net.sent t p d).length

theorem Net.Delivered.start {nodes : ν → σ} : (Net.mk nodes fun _ : δ => []).Delivered t p :=
  ⟨fun _ => List.nodup_nil, fun _ _ h => absurd h List.not_mem_nil⟩

theorem Net.Delivered.update {net : Net ν δ σ} (h : net.Delivered t p) {n : ν} {f : σ → σ}
    (hf : ∀ d, t.node d = n → p.sent d (net.nodes n) <+: p.sent d (f (net.nodes n))) :
    (net.update n f).Delivered t p :=
  ⟨h.nodup, fun d k hk => (h.lt d k hk).trans_le (net.sent_update_prefix n f hf d).length_le⟩

theorem Net.Delivered.arrived {net : Net ν δ σ} (h : net.Delivered t p) {d : δ} {k : ℕ} {msg : μ}
    (hflight : net.InFlight t p d k msg) : (net.arrived d k).Delivered t p := by
  obtain ⟨hget, hnew⟩ := hflight
  refine ⟨fun e => ?_, fun e j hj => ?_⟩
  · by_cases he : e = d
    · subst he
      simpa [Net.arrived] using ⟨hnew, h.nodup e⟩
    · simpa [Net.arrived, he] using h.nodup e
  · rcases (net.mem_delivered_arrived d e j k).mp hj with ⟨rfl, rfl⟩ | hj
    · exact (List.getElem?_eq_some_iff.mp hget).1
    · exact h.lt e j hj

/-- A message that is in flight stays so when a node only adds to what it has sent. -/
theorem Net.InFlight.update {net : Net ν δ σ} {d : δ} {j : ℕ} {msg : μ}
    (h : net.InFlight t p d j msg) {n : ν} {f : σ → σ} (hf : ∀ d, t.node d = n →
      p.sent d (net.nodes n) <+: p.sent d (f (net.nodes n))) :
    (net.update n f).InFlight t p d j msg := by
  obtain ⟨hget, hnew⟩ := h
  obtain ⟨rest, hrest⟩ := net.sent_update_prefix n f hf d
  refine ⟨?_, hnew⟩
  rw [← hrest, List.getElem?_append_left (List.getElem?_eq_some_iff.mp hget).1]
  exact hget

theorem Net.Delivered.inFlight_of_append {net net' : Net ν δ σ} {d : δ} {msg : μ}
    (h : net.Delivered t p) (hnet : net'.delivered = net.delivered)
    (hsent : net'.sent t p d = net.sent t p d ++ [msg]) :
    net'.InFlight t p d (net.sent t p d).length msg := by
  refine ⟨by simp [hsent], fun hmem => ?_⟩
  rw [hnet] at hmem
  exact Nat.lt_irrefl _ (h.lt d _ hmem)

variable [Fintype δ]

/-- The steps of a run are its inputs and its deliveries. -/
theorem length_labels_eq {nodes : ν → σ} {labels : List (Label ν δ ι)} {net : Net ν δ σ}
    (hrun : run t p ⟨nodes, fun _ => []⟩ labels = some net) :
    labels.length = (inputs labels).length + ∑ d, (net.delivered d).length := by
  refine run_induction
    (fun labels net =>
      labels.length = (inputs labels).length + ∑ d, (net.delivered d).length)
    (by simp) ?_ ?_ labels net hrun
  · intro labels mid n i _ hmid
    simp only [List.length_append, List.length_singleton, inputs_append, inputs_input,
      Net.update_delivered, hmid]
    omega
  · intro labels mid d k msg _ hmid _
    have hsum : ∑ e, ((mid.arrived d k).delivered e).length =
        (∑ e, (mid.delivered e).length) + 1 := by
      have hupdate : (fun e => ((mid.arrived d k).delivered e).length) =
          Function.update (fun e => (mid.delivered e).length) d ((mid.delivered d).length + 1) := by
        funext e
        by_cases he : e = d
        · subst he
          simp [Net.arrived]
        · simp [Net.arrived, he]
      rw [hupdate, Finset.sum_update_of_mem (Finset.mem_univ d),
        ← Finset.add_sum_erase _ (fun e => (mid.delivered e).length) (Finset.mem_univ d)]
      simp only [Finset.sdiff_singleton_eq_erase]
      omega
    simp only [List.length_append, List.length_singleton, inputs_append, inputs_deliver,
      Net.update_delivered, hmid, hsum, List.append_nil]
    omega

/-- No more messages arrive than were sent. -/
theorem Net.Delivered.length_labels_le {nodes : ν → σ} {labels : List (Label ν δ ι)}
    {net : Net ν δ σ} (h : net.Delivered t p)
    (hrun : run t p ⟨nodes, fun _ => []⟩ labels = some net) :
    labels.length ≤ (inputs labels).length + ∑ d, (net.sent t p d).length := by
  rw [length_labels_eq hrun]
  refine Nat.add_le_add_left (Finset.sum_le_sum fun d _ => ?_) _
  have hsub : (net.delivered d).toFinset ⊆ Finset.range (net.sent t p d).length := by
    intro k hk
    exact Finset.mem_range.mpr (h.lt d k (List.mem_toFinset.mp hk))
  have hcard := Finset.card_le_card hsub
  rwa [List.toFinset_card_of_nodup (h.nodup d), Finset.card_range] at hcard

end Count

end Network
