import Laps.Lib.Network

/-! A flood whose origin numbers the copies that it sends.  A node takes a copy in when its number
is not that of the copy it has, and passes it on with the same number.  When the origin lies on no
cycle, each of its copies stays in a branch of the graph of its own, and no node passes on two. -/

set_option linter.unusedSectionVars false

namespace Network

/-! ### Cycles through a node -/

namespace Topology

variable {ν δ : Type*} (t : Topology ν δ) (o : ν)

/-- The nodes are joined by links that do not touch `o`. -/
def Around : ν → ν → Prop :=
  Relation.ReflTransGen fun a b => t.Adj a b ∧ a ≠ o ∧ b ≠ o

/-- No link joins `o` to itself, and no two of its links are joined around it. -/
structure OffCycles : Prop where
  loop : ∀ d, t.node d = o → t.node (t.opposite d) ≠ o
  branch : ∀ d e, t.node d = o → t.node e = o →
    t.Around o (t.node (t.opposite d)) (t.node (t.opposite e)) → d = e

variable {t o}

theorem Adj.symm {a b : ν} (h : t.Adj a b) : t.Adj b a := by
  obtain ⟨d, rfl, rfl⟩ := h
  exact ⟨t.opposite d, rfl, by rw [t.opposite_opposite]⟩

theorem Around.symm {a b : ν} (h : t.Around o a b) : t.Around o b a := by
  induction h with
  | refl => exact .refl
  | tail _ hstep ih =>
    obtain ⟨hadj, ha, hb⟩ := hstep
    exact .head ⟨hadj.symm, hb, ha⟩ ih

theorem Around.step {a : ν} {d : δ} (h : t.Around o a (t.node d)) (hd : t.node d ≠ o)
    (hopposite : t.node (t.opposite d) ≠ o) : t.Around o a (t.node (t.opposite d)) :=
  h.tail ⟨⟨d, rfl, rfl⟩, hd, hopposite⟩

/-- The end of `o` that leads to a node is the only one. -/
theorem OffCycles.eq_of_around (h : t.OffCycles o) {d e : δ} {n : ν} (hd : t.node d = o)
    (he : t.node e = o) (hdn : t.Around o (t.node (t.opposite d)) n)
    (hen : t.Around o (t.node (t.opposite e)) n) : d = e :=
  h.branch d e hd he (hdn.trans hen.symm)

end Topology

/-! ### Numbered copies -/

variable {ν δ σ ι μ τ : Type*} [DecidableEq ν] [DecidableEq δ]

/-- The input and the messages of one such flood.  A node that has a copy has its number stored. -/
structure NumberedView (ν σ ι μ τ : Type*) where
  Ok : ν → σ → Prop
  stored : σ → Option τ
  start : ι
  Good : μ → Prop
  number : μ → τ

/-- The protocol floods the copies of the node `o`. -/
structure Numbers (t : Topology ν δ) (p : Protocol ν δ σ ι μ) (v : NumberedView ν σ ι μ τ) (o : ν) :
    Prop where
  ok_start : ∀ {s}, v.Ok o s → v.Ok o (p.input o v.start s)
  ok_receive : ∀ {d msg s}, v.Good msg → v.Ok (t.node d) s → v.Ok (t.node d) (p.receive d msg s)
  start : ∀ {e s}, v.Ok o s → t.node e = o →
    p.sent e (p.input o v.start s) = p.sent e s ∨
      ∃ msg, v.Good msg ∧ p.sent e (p.input o v.start s) = p.sent e s ++ [msg]
  receive_same : ∀ {d msg s}, v.Good msg → v.Ok (t.node d) s → v.stored s = some (v.number msg) →
    v.stored (p.receive d msg s) = v.stored s ∧
    ∀ e, t.node e = t.node d → p.sent e (p.receive d msg s) = p.sent e s
  receive_other : ∀ {d msg s}, v.Good msg → v.Ok (t.node d) s → t.node d ≠ o →
    v.stored s ≠ some (v.number msg) →
    v.stored (p.receive d msg s) = some (v.number msg) ∧
    ∀ e, t.node e = t.node d → (e = d ∧ p.sent e (p.receive d msg s) = p.sent e s) ∨
      (e ≠ d ∧ ∃ msg', v.Good msg' ∧ v.number msg' = v.number msg ∧
        p.sent e (p.receive d msg s) = p.sent e s ++ [msg'])

section

variable {t : Topology ν δ} {p : Protocol ν δ σ ι μ} {v : NumberedView ν σ ι μ τ} {o : ν}
variable {net : Net ν δ σ}

/-- The copy with the number has come to the node from `o`, over the end `e`. -/
structure Net.CameFrom (t : Topology ν δ) (p : Protocol ν δ σ ι μ) (v : NumberedView ν σ ι μ τ)
    (o : ν) (net : Net ν δ σ) (n : ν) (x : τ) (e : δ) : Prop where
  node : t.node e = o
  around : t.Around o (t.node (t.opposite e)) n
  sent : ∃ msg ∈ net.sent t p e, v.number msg = x

/-- What the flood keeps after the inputs `ins`. -/
structure NumberedInv (t : Topology ν δ) (p : Protocol ν δ σ ι μ) (v : NumberedView ν σ ι μ τ)
    (o : ν) (ins : List (ν × ι)) (net : Net ν δ σ) : Prop where
  ok : ∀ n, v.Ok n (net.nodes n)
  delivered : net.Delivered t p
  good : ∀ d, ∀ msg ∈ net.sent t p d, v.Good msg
  once : ∀ d, (net.sent t p d).length ≤ 1
  idle : ins = [] → ∀ d, t.node d = o → net.sent t p d = []
  /-- Nothing goes back to the origin. -/
  away : ∀ d, t.node d ≠ o → t.node (t.opposite d) = o → net.sent t p d = []
  sent_stored : ∀ d, t.node d ≠ o → ∀ msg ∈ net.sent t p d,
    v.stored (net.nodes (t.node d)) = some (v.number msg)
  /-- The first node of the branch has the copy before the others. -/
  stored_from : ∀ n x, n ≠ o → v.stored (net.nodes n) = some x →
    ∃ e, net.CameFrom t p v o n x e ∧ v.stored (net.nodes (t.node (t.opposite e))) ≠ none

theorem NumberedInv.start {nodes : ν → σ} (hok : ∀ n, v.Ok n (nodes n))
    (hnone : ∀ n, v.stored (nodes n) = none) (hsent : ∀ d, p.sent d (nodes (t.node d)) = []) :
    NumberedInv t p v o [] ⟨nodes, fun _ => []⟩ := by
  have hnil : ∀ d, (Net.mk nodes fun _ : δ => []).sent t p d = [] := hsent
  refine ⟨hok, .start, ?_, ?_, fun _ d _ => hnil d, fun d _ _ => hnil d, ?_, ?_⟩
  · intro d msg hmsg
    rw [hnil] at hmsg
    cases hmsg
  · intro d
    rw [hnil]
    exact Nat.zero_le _
  · intro d _ msg hmsg
    rw [hnil] at hmsg
    cases hmsg
  · intro n x _ hx
    cases (hnone n).symm.trans hx

/-- A node with nothing stored has sent nothing. -/
theorem NumberedInv.silent {ins : List (ν × ι)} (h : NumberedInv t p v o ins net) {d : δ}
    (hd : t.node d ≠ o) (hnone : v.stored (net.nodes (t.node d)) = none) :
    net.sent t p d = [] := by
  refine List.eq_nil_iff_forall_not_mem.mpr fun msg hmsg => ?_
  cases hnone.symm.trans (h.sent_stored d hd msg hmsg)

theorem Net.CameFrom.mono {net' : Net ν δ σ} {n : ν} {x : τ} {e : δ}
    (h : net.CameFrom t p v o n x e) (hsent : net.sent t p e <+: net'.sent t p e) :
    net'.CameFrom t p v o n x e := by
  obtain ⟨msg, hmsg, hx⟩ := h.sent
  exact ⟨h.node, h.around, msg, hsent.subset hmsg, hx⟩

/-- The origin starts the flood. -/
theorem NumberedInv.input (hp : Numbers t p v o) (hoff : t.OffCycles o)
    (h : NumberedInv t p v o [] net) :
    NumberedInv t p v o [(o, v.start)] (net.update o (p.input o v.start)) := by
  have hcases : ∀ d, (net.update o (p.input o v.start)).sent t p d = net.sent t p d ∨
      (t.node d = o ∧ ∃ msg, v.Good msg ∧
        (net.update o (p.input o v.start)).sent t p d = [msg]) := by
    intro d
    by_cases hd : t.node d = o
    · have hidle := h.idle rfl d hd
      unfold Net.sent at hidle ⊢
      rw [hd] at hidle
      rw [hd, Net.update_nodes_self]
      rcases hp.start (h.ok o) hd with hsent | ⟨msg, hgood, hsent⟩
      · exact Or.inl hsent
      · exact Or.inr ⟨rfl, msg, hgood, by rw [hsent, hidle]; rfl⟩
    · unfold Net.sent
      rw [Net.update_nodes_of_ne _ _ hd]
      exact Or.inl rfl
  have hprefix_of : ∀ d, net.sent t p d <+: (net.update o (p.input o v.start)).sent t p d := by
    intro d
    rcases hcases d with hsent | ⟨hd, msg, -, hsent⟩
    · rw [hsent]
    · rw [hsent, h.idle rfl d hd]
      exact List.nil_prefix
  have hother : ∀ d, t.node d ≠ o →
      (net.update o (p.input o v.start)).sent t p d = net.sent t p d :=
    fun d hd => (hcases d).resolve_right fun hnew => hd hnew.1
  constructor
  · exact net.forall_update _ h.ok (hp.ok_start (h.ok o))
  · refine h.delivered.update fun d hd => ?_
    have hsent := hprefix_of d
    unfold Net.sent at hsent
    rwa [hd, Net.update_nodes_self] at hsent
  · intro d msg hmsg
    rcases hcases d with hsent | ⟨-, msg', hgood, hsent⟩
    · exact h.good d msg (hsent ▸ hmsg)
    · rw [hsent, List.mem_singleton] at hmsg
      exact hmsg ▸ hgood
  · intro d
    rcases hcases d with hsent | ⟨-, msg, -, hsent⟩
    · exact hsent ▸ h.once d
    · rw [hsent]
      exact le_rfl
  · intro hnil
    cases hnil
  · intro d hd hopposite
    rw [hother d hd]
    exact h.away d hd hopposite
  · intro d hd msg hmsg
    rw [hother d hd] at hmsg
    rw [Net.update_nodes_of_ne _ _ hd]
    exact h.sent_stored d hd msg hmsg
  · intro n x hn hx
    rw [Net.update_nodes_of_ne _ _ hn] at hx
    obtain ⟨e, hfrom, hroot⟩ := h.stored_from n x hn hx
    refine ⟨e, hfrom.mono (hprefix_of e), ?_⟩
    rwa [Net.update_nodes_of_ne _ _ (hoff.loop e hfrom.node)]

/-- A message comes from the origin, or from a branch whose first node has its copy. -/
theorem NumberedInv.source {ins : List (ν × ι)} (h : NumberedInv t p v o ins net) {d : δ} {msg : μ}
    (hmsg : msg ∈ net.sent t p d) (hn : t.node (t.opposite d) ≠ o) :
    ∃ e, net.CameFrom t p v o (t.node (t.opposite d)) (v.number msg) e ∧
      (e = d ∨ v.stored (net.nodes (t.node (t.opposite e))) ≠ none) := by
  by_cases hd : t.node d = o
  · exact ⟨d, ⟨hd, .refl, msg, hmsg, rfl⟩, Or.inl rfl⟩
  · obtain ⟨e, hfrom, hroot⟩ := h.stored_from _ _ hd (h.sent_stored d hd msg hmsg)
    exact ⟨e, ⟨hfrom.node, hfrom.around.step hd hn, hfrom.sent⟩, Or.inr hroot⟩

/-- Nothing comes to the origin. -/
theorem NumberedInv.not_origin {ins : List (ν × ι)} (h : NumberedInv t p v o ins net)
    (hoff : t.OffCycles o) {d : δ} {msg : μ} (hmsg : msg ∈ net.sent t p d) :
    t.node (t.opposite d) ≠ o := by
  intro hopposite
  by_cases hd : t.node d = o
  · exact hoff.loop d hd hopposite
  · rw [h.away d hd hopposite] at hmsg
    cases hmsg

/-- A copy that comes to a node with another copy has the number of that one. -/
theorem NumberedInv.same_number {ins : List (ν × ι)} (h : NumberedInv t p v o ins net)
    (hoff : t.OffCycles o) {d : δ} {msg : μ} (hmsg : msg ∈ net.sent t p d) {x : τ}
    (hx : v.stored (net.nodes (t.node (t.opposite d))) = some x) : x = v.number msg := by
  have hn := h.not_origin hoff hmsg
  obtain ⟨e, hnew, -⟩ := h.source hmsg hn
  obtain ⟨e', hold, -⟩ := h.stored_from _ x hn hx
  obtain rfl := hoff.eq_of_around hold.node hnew.node hold.around hnew.around
  obtain ⟨m, hm, rfl⟩ := hold.sent
  obtain ⟨m', hm', hnumber⟩ := hnew.sent
  have hlen := h.once e'
  obtain ⟨m₀, hm₀⟩ : ∃ m₀, net.sent t p e' = [m₀] := by
    match hsent : net.sent t p e', hlen with
    | [], _ =>
      rw [hsent] at hm
      cases hm
    | [m₀], _ => exact ⟨m₀, rfl⟩
  rw [hm₀, List.mem_singleton] at hm hm'
  rw [hm, ← hnumber, hm']

/-- A node that has no copy takes one in: it is the first of its branch to do so when it is joined
to the origin, and then it has the copy from there. -/
theorem NumberedInv.take_in (hp : Numbers t p v o) (hoff : t.OffCycles o) {ins : List (ν × ι)}
    (h : NumberedInv t p v o ins net) {d : δ} {msg : μ} (hmsg : msg ∈ net.sent t p d)
    (hnone : v.stored (net.nodes (t.node (t.opposite d))) = none) :
    NumberedInv t p v o ins
      (net.update (t.node (t.opposite d)) (p.receive (t.opposite d) msg)) := by
  have hgood := h.good d msg hmsg
  have hne := h.not_origin hoff hmsg
  obtain ⟨e₀, hfrom, hfirst⟩ := h.source hmsg hne
  obtain ⟨hstored, hsends⟩ := hp.receive_other hgood (h.ok _) hne (by simp [hnone])
  set n := t.node (t.opposite d) with hn
  set net' := net.update n (p.receive (t.opposite d) msg) with hnet'
  have hself : v.stored (net'.nodes n) = some (v.number msg) := by
    rw [hnet', Net.update_nodes_self]
    exact hstored
  have hkept : ∀ m, v.stored (net.nodes m) ≠ none → v.stored (net'.nodes m) ≠ none := by
    refine net.forall_update (fun m s => v.stored (net.nodes m) ≠ none → v.stored s ≠ none)
      (fun _ hm => hm) ?_
    rw [hstored]
    simp
  have hcases : ∀ e, net'.sent t p e = net.sent t p e ∨ (t.node e = n ∧ e ≠ t.opposite d ∧
      ∃ msg', v.Good msg' ∧ v.number msg' = v.number msg ∧ net'.sent t p e = [msg']) := by
    intro e
    by_cases he : t.node e = n
    · have hsilent := h.silent (he ▸ hne) (he ▸ hnone)
      unfold Net.sent at hsilent ⊢
      rw [he] at hsilent
      rw [he, hnet', Net.update_nodes_self]
      rcases hsends e he with ⟨-, hsent⟩ | ⟨hed, msg', hgood', hnumber, hsent⟩
      · exact Or.inl hsent
      · exact Or.inr ⟨rfl, hed, msg', hgood', hnumber, by rw [hsent, hsilent]; rfl⟩
    · unfold Net.sent
      rw [hnet', Net.update_nodes_of_ne _ _ he]
      exact Or.inl rfl
  have hprefix_of : ∀ e, net.sent t p e <+: net'.sent t p e := by
    intro e
    rcases hcases e with hsent | ⟨he, -, msg', -, -, hsent⟩
    · rw [hsent]
    · rw [h.silent (he ▸ hne) (he ▸ hnone)]
      exact List.nil_prefix
  constructor
  · exact net.forall_update _ h.ok (hp.ok_receive hgood (h.ok n))
  · refine h.delivered.update fun e he => ?_
    have hsent := hprefix_of e
    unfold Net.sent at hsent
    rwa [he, hnet', Net.update_nodes_self] at hsent
  · intro e m hm
    rcases hcases e with hsent | ⟨-, -, msg', hgood', -, hsent⟩
    · exact h.good e m (hsent ▸ hm)
    · rw [hsent, List.mem_singleton] at hm
      exact hm ▸ hgood'
  · intro e
    rcases hcases e with hsent | ⟨-, -, msg', -, -, hsent⟩
    · exact hsent ▸ h.once e
    · rw [hsent]
      exact le_rfl
  · intro hins e he
    rcases hcases e with hsent | ⟨hen, -⟩
    · exact hsent.trans (h.idle hins e he)
    · exact absurd (hen.symm.trans he) hne
  · intro e he hopposite
    rcases hcases e with hsent | ⟨hen, hed, -⟩
    · exact hsent.trans (h.away e he hopposite)
    · -- The link of `e` leads to the origin, so it is the one that the copy has come on.
      have hroot : t.node (t.opposite (t.opposite e)) = n := by rw [t.opposite_opposite, hen]
      obtain rfl := hoff.eq_of_around hfrom.node hopposite hfrom.around (hroot ▸ .refl)
      rcases hfirst with heq | hother
      · exact absurd (by rw [← heq, t.opposite_opposite]) hed
      · rw [hroot] at hother
        exact absurd hnone hother
  · intro e he m hm
    rcases hcases e with hsent | ⟨hen, -, msg', -, hnumber, hsent⟩
    · rw [hsent] at hm
      have hold := h.sent_stored e he m hm
      by_cases hen : t.node e = n
      · rw [hen, hnone] at hold
        cases hold
      · rw [hnet', Net.update_nodes_of_ne _ _ hen]
        exact hold
    · rw [hsent, List.mem_singleton] at hm
      rw [hen, hself, hm, hnumber]
  · intro m x hm hx
    by_cases hmn : m = n
    · subst hmn
      obtain rfl := Option.some.inj (hself.symm.trans hx)
      refine ⟨e₀, hfrom.mono (hprefix_of e₀), ?_⟩
      rcases hfirst with rfl | hother
      · rw [hself]
        simp
      · exact hkept _ hother
    · rw [hnet', Net.update_nodes_of_ne _ _ hmn] at hx
      obtain ⟨e, hold, hroot⟩ := h.stored_from m x hm hx
      exact ⟨e, hold.mono (hprefix_of e), hkept _ hroot⟩

theorem NumberedInv.receive (hp : Numbers t p v o) (hoff : t.OffCycles o) {ins : List (ν × ι)}
    (h : NumberedInv t p v o ins net) {d : δ} {msg : μ} (hmsg : msg ∈ net.sent t p d) :
    NumberedInv t p v o ins
      (net.update (t.node (t.opposite d)) (p.receive (t.opposite d) msg)) := by
  have hgood := h.good d msg hmsg
  have hok := hp.ok_receive hgood (h.ok (t.node (t.opposite d)))
  cases hx : v.stored (net.nodes (t.node (t.opposite d))) with
  | none => exact h.take_in hp hoff hmsg hx
  | some x =>
    obtain rfl := h.same_number hoff hmsg hx
    obtain ⟨hstored, hsame⟩ := hp.receive_same hgood (h.ok _) hx
    set n := t.node (t.opposite d) with hn
    have hsent := net.sent_update_of_same n (p.receive (t.opposite d) msg) hsame
    have hnodes : ∀ m, v.stored ((net.update n (p.receive (t.opposite d) msg)).nodes m) =
        v.stored (net.nodes m) :=
      net.forall_update (fun m s => v.stored s = v.stored (net.nodes m)) (fun _ => rfl) hstored
    refine ⟨net.forall_update _ h.ok hok, h.delivered.update fun e he => by rw [hsame e he],
      ?_, ?_, ?_, ?_, ?_, ?_⟩
    · simpa only [hsent] using h.good
    · simpa only [hsent] using h.once
    · simpa only [hsent] using h.idle
    · simpa only [hsent] using h.away
    · simpa only [hsent, hnodes] using h.sent_stored
    · intro m x hm hx
      rw [hnodes] at hx
      obtain ⟨e, hfrom, hroot⟩ := h.stored_from m x hm hx
      exact ⟨e, hfrom.mono (by rw [hsent]), by rwa [hnodes]⟩

/-- That a message has arrived changes nothing else. -/
theorem NumberedInv.arrived {ins : List (ν × ι)} (h : NumberedInv t p v o ins net) {d : δ} {j : ℕ}
    {msg : μ} (hflight : net.InFlight t p d j msg) :
    NumberedInv t p v o ins (net.arrived d j) :=
  { h with
    delivered := h.delivered.arrived hflight
    stored_from := fun n x hn hx => by
      obtain ⟨e, hfrom, hroot⟩ := h.stored_from n x hn hx
      exact ⟨e, hfrom.mono List.prefix_rfl, hroot⟩ }

variable {nodes : ν → σ} {labels : List (Label ν δ ι)}

/-- A flood from a node on no cycle. -/
theorem numberedInv_run (hp : Numbers t p v o) (hoff : t.OffCycles o) (hok : ∀ n, v.Ok n (nodes n))
    (hnone : ∀ n, v.stored (nodes n) = none) (hsent : ∀ d, p.sent d (nodes (t.node d)) = [])
    (hrun : run t p ⟨nodes, fun _ => []⟩ labels = some net)
    (hinputs : inputs labels <+: [(o, v.start)]) :
    NumberedInv t p v o (inputs labels) net := by
  revert hinputs
  refine run_induction
    (fun labels net => inputs labels <+: [(o, v.start)] →
      NumberedInv t p v o (inputs labels) net)
    (fun _ => .start hok hnone hsent) ?_ ?_ labels net hrun
  · intro labels mid n i _ ih hinputs
    rw [inputs_append, inputs_input] at hinputs ⊢
    have hinv := ih ((List.prefix_append _ _).trans hinputs)
    have hlen := hinputs.length_le
    match hins : inputs labels, hinputs, hinv with
    | [], hinputs, hinv =>
      obtain ⟨rfl, rfl⟩ := Prod.mk.inj (List.cons_prefix_cons.mp hinputs).1
      exact hinv.input hp hoff
    | _ :: _, _, _ =>
      rw [hins] at hlen
      simp at hlen
  · intro labels mid d j msg _ ih hflight hinputs
    rw [inputs_append, inputs_deliver, List.append_nil] at hinputs ⊢
    exact ((ih hinputs).arrived hflight).receive hp hoff (List.mem_of_getElem? hflight.1)

end

end Network
