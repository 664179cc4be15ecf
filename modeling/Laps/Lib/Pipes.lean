import Laps.Lib.Network

/-! Networks whose links carry streams.  A stream comes in at the other end in order, in pieces of
any length and independently of the other streams, and its close comes after its items, or cuts them
off. -/

set_option linter.unusedSectionVars false

namespace Pipes

open Network (Topology)

/-- A function of two arguments with another value at one place. -/
def update₂ {α β γ : Type*} [DecidableEq α] [DecidableEq β] (f : α → β → γ) (a : α) (b : β) (c : γ) :
    α → β → γ :=
  Function.update f a (Function.update (f a) b c)

section Update

variable {α β γ : Type*} [DecidableEq α] [DecidableEq β] (f : α → β → γ) {a a' : α} {b b' : β}
  (c : γ)

@[simp] theorem update₂_self : update₂ f a b c a b = c := by
  simp [update₂]

theorem update₂_of_ne (h : ¬(a' = a ∧ b' = b)) : update₂ f a b c a' b' = f a' b' := by
  unfold update₂
  by_cases ha : a' = a
  · subst ha
    rw [Function.update_self, Function.update_of_ne fun hb => h ⟨rfl, hb⟩]
  · rw [Function.update_of_ne ha]

theorem update₂_row : update₂ f a b c a = Function.update (f a) b c :=
  Function.update_self ..

theorem update₂_row_of_ne (h : a' ≠ a) : update₂ f a b c a' = f a' :=
  Function.update_of_ne h ..

theorem update₂_eq_self : update₂ f a b (f a b) = f := by
  simp [update₂]

end Update

/-- What the nodes do with inputs `ι` and with items `β` of the streams `κ`, in states `σ`.  The
environment supplies an `α` with each piece. -/
structure Protocol (ν δ κ σ ι α β : Type*) where
  input : ν → ι → σ → σ
  /-- The next items of a stream come in over the end. -/
  receive : δ → κ → α → List β → σ → σ
  /-- The close of a stream comes in over the end, `true` where it cuts the stream off. -/
  closed : δ → κ → Bool → σ → σ
  /-- What the node of the end has written to a stream over it, and how it has closed it. -/
  written : δ → κ → σ → List β
  close : δ → κ → σ → Option Bool

/-- The states of the nodes, and for each end how many items of the streams that are written at the
other end have come in, and whether their closes have. -/
structure Net (ν δ κ σ : Type*) where
  nodes : ν → σ
  read : δ → κ → ℕ
  ended : δ → κ → Bool

inductive Label (ν δ κ ι α : Type*) where
  | input (n : ν) (i : ι)
  /-- So many items more come in over the end. -/
  | receive (d : δ) (k : κ) (count : ℕ) (a : α)
  | closed (d : δ) (k : κ)

variable {ν δ κ σ ι α β : Type*} [DecidableEq ν] [DecidableEq δ] [DecidableEq κ]

section Steps

variable (t : Topology ν δ) (p : Protocol ν δ κ σ ι α β)

/-- A node changes its state. -/
def Net.set (net : Net ν δ κ σ) (n : ν) (s : σ) : Net ν δ κ σ :=
  { net with nodes := Function.update net.nodes n s }

/-- What has been written to a stream over the end. -/
def Net.written (net : Net ν δ κ σ) (d : δ) (k : κ) : List β := p.written d k (net.nodes (t.node d))

/-- What has come in of a stream over the end. -/
def Net.received (net : Net ν δ κ σ) (d : δ) (k : κ) : List β :=
  (net.written t p (t.opposite d) k).take (net.read d k)

/-- What is under way. -/
def Net.unread (net : Net ν δ κ σ) (d : δ) (k : κ) : List β :=
  (net.written t p (t.opposite d) k).drop (net.read d k)

/-- How the stream that comes in over the end has been closed at the other one. -/
def Net.close (net : Net ν δ κ σ) (d : δ) (k : κ) : Option Bool :=
  p.close (t.opposite d) k (net.nodes (t.node (t.opposite d)))

def step (net : Net ν δ κ σ) : Label ν δ κ ι α → Option (Net ν δ κ σ)
  | .input n i => some (net.set n (p.input n i (net.nodes n)))
  | .receive d k count a =>
    if net.ended d k = false ∧ 0 < count ∧ count ≤ (net.unread t p d k).length then
      some
        { net.set (t.node d)
            (p.receive d k a ((net.unread t p d k).take count) (net.nodes (t.node d))) with
          read := update₂ net.read d k (net.read d k + count) }
    else none
  | .closed d k =>
    match net.close t p d k with
    | none => none
    | some reset =>
      if net.ended d k = false ∧ (reset = true ∨ net.unread t p d k = []) then
        some
          { net.set (t.node d) (p.closed d k reset (net.nodes (t.node d))) with
            ended := update₂ net.ended d k true }
      else none

/-- The nets that a start leads to by steps that are allowed. -/
inductive Reachable (allowed : Net ν δ κ σ → Label ν δ κ ι α → Prop) (start : Net ν δ κ σ) :
    Net ν δ κ σ → Prop
  | start : Reachable allowed start start
  | step {net net' : Net ν δ κ σ} (label : Label ν δ κ ι α) :
      Reachable allowed start net → allowed net label → step t p net label = some net' →
      Reachable allowed start net'

/-- Nothing is under way: the streams that are open have come in whole, and the closes too. -/
structure Net.Quiescent (net : Net ν δ κ σ) : Prop where
  unread : ∀ d k, net.ended d k = false → net.unread t p d k = []
  closes : ∀ d k, net.close t p d k ≠ none → net.ended d k = true

end Steps

section StepLemmas

variable {t : Topology ν δ} {p : Protocol ν δ κ σ ι α β} {net net' : Net ν δ κ σ}

@[simp] theorem Net.read_set (n : ν) (s : σ) : (net.set n s).read = net.read := rfl

@[simp] theorem Net.ended_set (n : ν) (s : σ) : (net.set n s).ended = net.ended := rfl

@[simp] theorem Net.nodes_set_self (n : ν) (s : σ) : (net.set n s).nodes n = s :=
  Function.update_self ..

theorem Net.nodes_set_of_ne {n m : ν} (s : σ) (h : m ≠ n) : (net.set n s).nodes m = net.nodes m :=
  Function.update_of_ne h ..

theorem Net.received_append_unread (d : δ) (k : κ) :
    net.received t p d k ++ net.unread t p d k = net.written t p (t.opposite d) k :=
  List.take_append_drop ..

/-- A step in which items come in. -/
theorem step_receive {d : δ} {k : κ} {count : ℕ} {a : α} :
    step t p net (.receive d k count a) = some net' ↔
      (net.ended d k = false ∧ 0 < count ∧ count ≤ (net.unread t p d k).length) ∧
      net' = { net.set (t.node d)
          (p.receive d k a ((net.unread t p d k).take count) (net.nodes (t.node d))) with
        read := update₂ net.read d k (net.read d k + count) } := by
  rw [step, Option.ite_none_right_eq_some, Option.some.injEq, eq_comm (a := net')]

/-- A step in which a close comes in. -/
theorem step_closed {d : δ} {k : κ} :
    step t p net (.closed d k) = some net' ↔ ∃ reset, net.close t p d k = some reset ∧
      (net.ended d k = false ∧ (reset = true ∨ net.unread t p d k = [])) ∧
      net' = { net.set (t.node d) (p.closed d k reset (net.nodes (t.node d))) with
        ended := update₂ net.ended d k true } := by
  rw [step]
  cases net.close t p d k with
  | none => simp
  | some reset =>
    simp only [Option.ite_none_right_eq_some, Option.some.injEq, eq_comm (a := net'),
      exists_eq_left']

/-! ### What has come in -/

/-- Nothing has come in that was not written. -/
def Net.Reads (t : Topology ν δ) (p : Protocol ν δ κ σ ι α β) (net : Net ν δ κ σ) : Prop :=
  ∀ d k, net.read d k ≤ (net.written t p (t.opposite d) k).length

/-- The node writes at the end of its streams. -/
def Appends (t : Topology ν δ) (p : Protocol ν δ κ σ ι α β) (n : ν) (s s' : σ) : Prop :=
  ∀ d k, t.node d = n → p.written d k s <+: p.written d k s'

theorem Net.written_set {n : ν} {s : σ} (h : Appends t p n (net.nodes n) s) (d : δ) (k : κ) :
    net.written t p d k <+: (net.set n s).written t p d k := by
  unfold Net.written
  by_cases hd : t.node d = n
  · have happends := h d k hd
    rw [← hd] at happends ⊢
    rw [Net.nodes_set_self]
    exact happends
  · rw [Net.nodes_set_of_ne s hd]

theorem Net.Reads.set (hreads : net.Reads t p) {n : ν} {s : σ}
    (h : Appends t p n (net.nodes n) s) : (net.set n s).Reads t p := fun d k =>
  (hreads d k).trans (Net.written_set h _ k).length_le

/-- What has come in stays when a node writes more. -/
theorem Net.Reads.received_set (hreads : net.Reads t p) {n : ν} {s : σ}
    (h : Appends t p n (net.nodes n) s) (d : δ) (k : κ) :
    (net.set n s).received t p d k = net.received t p d k := by
  obtain ⟨more, hmore⟩ := Net.written_set h (t.opposite d) k
  unfold Net.received
  rw [← hmore, Net.read_set, List.take_append_of_le_length (hreads d k)]

/-- The items that come in are the next ones. -/
theorem Net.Reads.received_receive (hreads : net.Reads t p) {d : δ} {k : κ} {count : ℕ} {s : σ}
    (hcount : count ≤ (net.unread t p d k).length)
    (h : Appends t p (t.node d) (net.nodes (t.node d)) s) :
    let net' : Net ν δ κ σ :=
      { net.set (t.node d) s with read := update₂ net.read d k (net.read d k + count) }
    net'.Reads t p ∧
      net'.received t p d k = net.received t p d k ++ (net.unread t p d k).take count ∧
      ∀ d' k', ¬(d' = d ∧ k' = k) → net'.received t p d' k' = net.received t p d' k' := by
  intro net'
  have hwritten : ∀ d' k', net'.written t p d' k' = (net.set (t.node d) s).written t p d' k' :=
    fun _ _ => rfl
  have hset := hreads.set h
  have hcount' : net.read d k + count ≤ (net.written t p (t.opposite d) k).length := by
    have := hreads d k
    rw [Net.unread, List.length_drop] at hcount
    omega
  refine ⟨fun d' k' => ?_, ?_, fun d' k' hne => ?_⟩
  · rw [hwritten]
    by_cases hdk : d' = d ∧ k' = k
    · obtain ⟨rfl, rfl⟩ := hdk
      show update₂ net.read d' k' _ d' k' ≤ _
      rw [update₂_self]
      exact hcount'.trans (Net.written_set h _ _).length_le
    · show update₂ net.read d k _ d' k' ≤ _
      rw [update₂_of_ne _ _ hdk]
      exact hset d' k'
  · obtain ⟨more, hmore⟩ := Net.written_set h (t.opposite d) k
    show (net'.written t p (t.opposite d) k).take (update₂ net.read d k _ d k) = _
    rw [update₂_self, hwritten, ← hmore, List.take_append_of_le_length hcount', List.take_add]
    rfl
  · rw [← hreads.received_set h d' k']
    show (net'.written t p (t.opposite d') k').take (update₂ net.read d k _ d' k') = _
    rw [update₂_of_ne _ _ hne]
    rfl

/-- A close does not change what has come in. -/
theorem Net.Reads.received_closed (hreads : net.Reads t p) (ended : δ → κ → Bool) {n : ν} {s : σ}
    (h : Appends t p n (net.nodes n) s) :
    let net' : Net ν δ κ σ := { net.set n s with ended }
    net'.Reads t p ∧ ∀ d k, net'.received t p d k = net.received t p d k :=
  ⟨hreads.set h, hreads.received_set h⟩

/-- A stream that has come in whole. -/
theorem Net.received_eq_written {d : δ} {k : κ} (h : net.unread t p d k = []) :
    net.received t p d k = net.written t p (t.opposite d) k := by
  rw [← Net.received_append_unread, h, List.append_nil]

end StepLemmas

end Pipes
