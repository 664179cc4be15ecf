import Laps.Lib.Network

/-! Gossip: nodes that tell each other what they know, over links that come up at different times.
A node that has a link come up tells all that it knows over it, and what it learns later it tells
over every link that is up, unless the other node is known to know it.  When nothing is in flight,
what a node knows is known wherever links that are up lead. -/

set_option linter.unusedSectionVars false

namespace Network

variable {ν δ σ ι μ κ : Type*} [DecidableEq ν] [DecidableEq δ]

/-! ### What messages that have arrived have done -/

section Heard

variable {t : Topology ν δ} {p : Protocol ν δ σ ι μ} {net : Net ν δ σ}
  {effect : δ → μ → σ → Prop}

/-- The messages that have arrived over an end have their effect on the node at its other end. -/
def Net.Heard (t : Topology ν δ) (p : Protocol ν δ σ ι μ) (effect : δ → μ → σ → Prop)
    (net : Net ν δ σ) : Prop :=
  ∀ d j msg, (net.sent t p d)[j]? = some msg → j ∈ net.delivered d →
    effect d msg (net.nodes (t.node (t.opposite d)))

theorem Net.Heard.start {nodes : ν → σ} : (Net.mk nodes fun _ => []).Heard t p effect :=
  fun _ _ _ _ hj => absurd hj List.not_mem_nil

/-- A node that undoes no effect and takes nothing back of what it has sent. -/
theorem Net.Heard.update (h : net.Heard t p effect) (hdelivered : net.Delivered t p) {n : ν}
    {f : σ → σ}
    (hmono : ∀ d msg, t.node (t.opposite d) = n → effect d msg (net.nodes n) →
      effect d msg (f (net.nodes n)))
    (hsent : ∀ d, t.node d = n → p.sent d (net.nodes n) <+: p.sent d (f (net.nodes n))) :
    (net.update n f).Heard t p effect := by
  intro d j msg hget hj
  have hold : (net.sent t p d)[j]? = some msg := by
    obtain ⟨rest, hrest⟩ := net.sent_update_prefix n f hsent d
    rw [← hrest, List.getElem?_append_left (hdelivered.lt d j hj)] at hget
    exact hget
  have heffect := h d j msg hold hj
  by_cases hn : t.node (t.opposite d) = n
  · rw [hn, Net.update_nodes_self]
    exact hmono d msg hn (hn ▸ heffect)
  · rw [Net.update_nodes_of_ne _ _ hn]
    exact heffect

/-- A message arrives and has its effect. -/
theorem Net.Heard.receive (h : net.Heard t p effect) (hdelivered : net.Delivered t p) {d : δ}
    {j : ℕ} {msg : μ} (hflight : net.InFlight t p d j msg) {f : σ → σ}
    (hmono : ∀ e msg', t.node (t.opposite e) = t.node (t.opposite d) →
      effect e msg' (net.nodes (t.node (t.opposite d))) →
      effect e msg' (f (net.nodes (t.node (t.opposite d)))))
    (hsent : ∀ e, t.node e = t.node (t.opposite d) →
      p.sent e (net.nodes (t.node (t.opposite d))) <+:
        p.sent e (f (net.nodes (t.node (t.opposite d)))))
    (heffect : effect d msg (f (net.nodes (t.node (t.opposite d))))) :
    ((net.arrived d j).update (t.node (t.opposite d)) f).Heard t p effect := by
  intro e i msg' hget hi
  rw [Net.update_delivered, Net.mem_delivered_arrived] at hi
  by_cases hnew : e = d ∧ i = j
  · obtain ⟨rfl, rfl⟩ := hnew
    have hsame : ((net.arrived e i).update (t.node (t.opposite e)) f).sent t p e =
        (net.update (t.node (t.opposite e)) f).sent t p e := rfl
    have hmsg := (hflight.update hsent).1
    rw [← hsame, hget] at hmsg
    cases hmsg
    rw [Net.update_nodes_self]
    exact heffect
  · exact h.update hdelivered hmono hsent e i msg' hget (hi.resolve_left hnew)

theorem Net.Heard.of_quiescent (h : net.Heard t p effect) (hquiet : net.Quiescent t p) {d : δ}
    {msg : μ} (hmsg : msg ∈ net.sent t p d) : effect d msg (net.nodes (t.node (t.opposite d))) := by
  obtain ⟨j, hget⟩ := List.mem_iff_getElem?.mp hmsg
  refine h d j msg hget ?_
  by_contra hj
  exact hquiet d j msg ⟨hget, hj⟩

end Heard

/-! ### Facts that are told -/

/-- What a node knows, what a message tells, and whether the link of an end is up for its node. -/
structure GossipView (δ σ μ κ : Type*) where
  knows : σ → κ → Prop
  tells : μ → κ → Prop
  up : δ → σ → Prop

section Gossip

variable {t : Topology ν δ} {p : Protocol ν δ σ ι μ} {v : GossipView δ σ μ κ}

/-- What gossip keeps: a node knows what it tells, and knows what it was told; what it knows it has
told over each end that is up, or the other node knows it. -/
structure GossipInv (t : Topology ν δ) (p : Protocol ν δ σ ι μ) (v : GossipView δ σ μ κ)
    (net : Net ν δ σ) : Prop where
  delivered : net.Delivered t p
  sound : ∀ d, ∀ msg ∈ net.sent t p d, ∀ k, v.tells msg k → v.knows (net.nodes (t.node d)) k
  told : ∀ d, v.up d (net.nodes (t.node d)) → ∀ k, v.knows (net.nodes (t.node d)) k →
    v.knows (net.nodes (t.node (t.opposite d))) k ∨ ∃ msg ∈ net.sent t p d, v.tells msg k
  heard : net.Heard t p fun _ msg s => ∀ k, v.tells msg k → v.knows s k

/-- A node goes from `s` to `s'`: it forgets nothing, tells what it knows, and has told over every
end that is up what `elsewhere` does not say that the other node knows. -/
structure Learns (t : Topology ν δ) (p : Protocol ν δ σ ι μ) (v : GossipView δ σ μ κ)
    (elsewhere : δ → κ → Prop) (n : ν) (s s' : σ) : Prop where
  knows : ∀ k, v.knows s k → v.knows s' k
  sent : ∀ d, t.node d = n → p.sent d s <+: p.sent d s'
  sound : ∀ d, t.node d = n → ∀ msg ∈ p.sent d s', ∀ k, v.tells msg k → v.knows s' k
  told : ∀ d, t.node d = n → v.up d s' → ∀ k, v.knows s' k →
    elsewhere d k ∨ ∃ msg ∈ p.sent d s', v.tells msg k

/-- What the node at the other end of `d` knows. -/
def GossipView.elsewhere (v : GossipView δ σ μ κ) (t : Topology ν δ) (net : Net ν δ σ) (d : δ)
    (k : κ) : Prop := v.knows (net.nodes (t.node (t.opposite d))) k

variable {net : Net ν δ σ} {n : ν} {f : σ → σ}

/-- A node that learns forgets nothing, and the others stay as they are. -/
theorem Learns.knows_update (h : Learns t p v (v.elsewhere t net) n (net.nodes n)
    (f (net.nodes n))) (m : ν) {k : κ} (hk : v.knows (net.nodes m) k) :
    v.knows ((net.update n f).nodes m) k := by
  by_cases hm : m = n
  · rw [hm, Net.update_nodes_self]
    exact h.knows k (hm ▸ hk)
  · rwa [Net.update_nodes_of_ne _ _ hm]

theorem GossipInv.learns (h : GossipInv t p v net)
    (hlearns : Learns t p v (v.elsewhere t net) n (net.nodes n) (f (net.nodes n))) :
    GossipInv t p v (net.update n f) where
  delivered := h.delivered.update hlearns.sent
  sound := by
    intro d msg hmsg k hk
    unfold Net.sent at hmsg
    by_cases hd : t.node d = n
    · rw [hd, Net.update_nodes_self] at hmsg ⊢
      exact hlearns.sound d hd msg hmsg k hk
    · rw [Net.update_nodes_of_ne _ _ hd] at hmsg ⊢
      exact h.sound d msg hmsg k hk
  told := by
    intro d hup k hk
    by_cases hd : t.node d = n
    · rw [hd, Net.update_nodes_self] at hup hk
      rcases hlearns.told d hd hup k hk with hother | ⟨msg, hmsg, htells⟩
      · exact .inl (hlearns.knows_update _ hother)
      · refine .inr ⟨msg, ?_, htells⟩
        rw [Net.sent, hd, Net.update_nodes_self]
        exact hmsg
    · rw [Net.update_nodes_of_ne _ _ hd] at hup hk
      rcases h.told d hup k hk with hother | ⟨msg, hmsg, htells⟩
      · exact .inl (hlearns.knows_update _ hother)
      · exact .inr ⟨msg, (net.sent_update_prefix n f hlearns.sent d).subset hmsg, htells⟩
  heard := by
    refine h.heard.update h.delivered (fun d msg _ hknown k hk => ?_) hlearns.sent
    exact hlearns.knows k (hknown k hk)

/-- A message arrives, and the node learns what it tells. -/
theorem GossipInv.receive (h : GossipInv t p v net) {d : δ} {j : ℕ} {msg : μ}
    (hflight : net.InFlight t p d j msg)
    (hlearns : Learns t p v (v.elsewhere t net) (t.node (t.opposite d))
      (net.nodes (t.node (t.opposite d))) (f (net.nodes (t.node (t.opposite d)))))
    (hknows : ∀ k, v.tells msg k → v.knows (f (net.nodes (t.node (t.opposite d)))) k) :
    GossipInv t p v ((net.arrived d j).update (t.node (t.opposite d)) f) := by
  have hupdate := h.learns hlearns
  refine ⟨(h.delivered.arrived hflight).update hlearns.sent, hupdate.sound, hupdate.told, ?_⟩
  exact h.heard.receive h.delivered hflight
    (fun e msg' _ hknown k hk => hlearns.knows k (hknown k hk)) hlearns.sent hknows

/-- When nothing is in flight, what a node knows is known at the other end of a link that is up. -/
theorem GossipInv.knows_opposite (h : GossipInv t p v net) (hquiet : net.Quiescent t p) {d : δ}
    (hup : v.up d (net.nodes (t.node d))) {k : κ} (hk : v.knows (net.nodes (t.node d)) k) :
    v.knows (net.nodes (t.node (t.opposite d))) k := by
  rcases h.told d hup k hk with hother | ⟨msg, hmsg, htells⟩
  · exact hother
  · exact h.heard.of_quiescent hquiet hmsg k htells

/-- And wherever links lead that are up at the ends that are left. -/
theorem GossipInv.knows_of_reaches (h : GossipInv t p v net) (hquiet : net.Quiescent t p)
    {link : ν → ν → Prop}
    (hlink : ∀ a b, link a b → ∃ d, t.node d = a ∧ t.node (t.opposite d) = b ∧
      v.up d (net.nodes a)) {a b : ν} (hreach : Relation.ReflTransGen link a b) {k : κ}
    (hk : v.knows (net.nodes a) k) : v.knows (net.nodes b) k := by
  induction hreach with
  | refl => exact hk
  | tail _ hstep ih =>
    obtain ⟨d, rfl, rfl, hup⟩ := hlink _ _ hstep
    exact h.knows_opposite hquiet hup ih

end Gossip

end Network
