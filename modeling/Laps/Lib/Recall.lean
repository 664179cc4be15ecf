import Laps.Lib.Network

/-! An item that is flooded and later recalled.  A node that gets the advertisement of the item and
does not hold it takes it and passes the advertisement on; a node that gets the withdrawal and holds
the item drops it and passes the withdrawal on.  With FIFO links, and as long as no advertisement
comes to a node that has dropped the item before, no node passes the withdrawal on twice and no
holder is left when nothing is in flight. -/

set_option linter.unusedSectionVars false

namespace Network

variable {ν δ σ ι μ : Type*} [DecidableEq ν] [DecidableEq δ]

/-- The inputs and messages that a recall is made of.  `Ok` is what the nodes keep. -/
structure RecallView (ν σ ι μ : Type*) where
  Ok : ν → σ → Prop
  holds : σ → Prop
  announce : ι
  withdraw : ι
  advertised : μ
  withdrawn : μ

/-- A node passes a message on over its ends but the one it has come on. -/
def PassesOn (t : Topology ν δ) (p : Protocol ν δ σ ι μ) (n : ν) (came : Option δ) (msg : μ)
    (s s' : σ) : Prop :=
  ∀ e, t.node e = n → p.sent e s' = if some e = came then p.sent e s else p.sent e s ++ [msg]

/-- The protocol floods and recalls the item of the node `o`. -/
structure Recalls (t : Topology ν δ) (p : Protocol ν δ σ ι μ) (v : RecallView ν σ ι μ) (o : ν) :
    Prop where
  distinct : v.advertised ≠ v.withdrawn
  ok_announce : ∀ {s}, v.Ok o s → v.Ok o (p.input o v.announce s)
  ok_withdraw : ∀ {s}, v.Ok o s → v.Ok o (p.input o v.withdraw s)
  ok_advertised : ∀ {d s}, v.Ok (t.node d) s → v.Ok (t.node d) (p.receive d v.advertised s)
  ok_withdrawn : ∀ {d s}, v.Ok (t.node d) s → v.Ok (t.node d) (p.receive d v.withdrawn s)
  announce : ∀ {s}, v.Ok o s → v.holds (p.input o v.announce s) ∧
    PassesOn t p o none v.advertised s (p.input o v.announce s)
  withdraw : ∀ {s}, v.Ok o s → ¬ v.holds (p.input o v.withdraw s) ∧
    PassesOn t p o none v.withdrawn s (p.input o v.withdraw s)
  advertised_held : ∀ {d s}, v.Ok (t.node d) s → v.holds s →
    v.holds (p.receive d v.advertised s) ∧
    ∀ e, t.node e = t.node d → p.sent e (p.receive d v.advertised s) = p.sent e s
  advertised_new : ∀ {d s}, v.Ok (t.node d) s → ¬ v.holds s →
    v.holds (p.receive d v.advertised s) ∧
    PassesOn t p (t.node d) (some d) v.advertised s (p.receive d v.advertised s)
  withdrawn_held : ∀ {d s}, v.Ok (t.node d) s → v.holds s →
    ¬ v.holds (p.receive d v.withdrawn s) ∧
    PassesOn t p (t.node d) (some d) v.withdrawn s (p.receive d v.withdrawn s)
  withdrawn_gone : ∀ {d s}, v.Ok (t.node d) s → ¬ v.holds s →
    ¬ v.holds (p.receive d v.withdrawn s) ∧
    ∀ e, t.node e = t.node d → p.sent e (p.receive d v.withdrawn s) = p.sent e s

section

variable {t : Topology ν δ} {p : Protocol ν δ σ ι μ} {v : RecallView ν σ ι μ} {o : ν}

theorem PassesOn.sent_prefix {n : ν} {came : Option δ} {msg : μ} {s s' : σ}
    (h : PassesOn t p n came msg s s') (e : δ) (he : t.node e = n) :
    p.sent e s <+: p.sent e s' := by
  rw [h e he]
  split
  · exact List.prefix_rfl
  · exact List.prefix_append _ _

/-- What holds of each node and each link; `ever` are the nodes that have held the item. -/
structure RecallSafe (t : Topology ν δ) (p : Protocol ν δ σ ι μ) (v : RecallView ν σ ι μ)
    (ever : ν → Prop) (net : Net ν δ σ) : Prop where
  ok : ∀ n, v.Ok n (net.nodes n)
  delivered : net.Delivered t p
  messages : ∀ d, ∀ msg ∈ net.sent t p d, msg = v.advertised ∨ msg = v.withdrawn
  once : ∀ d, (net.sent t p d).Nodup
  ever_of_holds : ∀ n, v.holds (net.nodes n) → ever n
  ever_of_advertised : ∀ d, v.advertised ∈ net.sent t p d → ever (t.node d)
  of_withdrawn : ∀ d, v.withdrawn ∈ net.sent t p d →
    ever (t.node d) ∧ ¬ v.holds (net.nodes (t.node d))
  /-- An end sends the withdrawal after the advertisement. -/
  ordered : ∀ d (i j : ℕ), (net.sent t p d)[i]? = some v.advertised →
    (net.sent t p d)[j]? = some v.withdrawn → i < j
  /-- A node that has dropped the item has sent the withdrawal, or got it, over each of its
  links. -/
  dropped : ∀ d, ever (t.node d) → ¬ v.holds (net.nodes (t.node d)) →
    v.withdrawn ∈ net.sent t p d ∨ v.withdrawn ∈ net.sent t p (t.opposite d)

/-- The node has the item from a node that still holds it or whose withdrawal is on its way; the
origin has it from nobody. -/
def Net.Fed (t : Topology ν δ) (p : Protocol ν δ σ ι μ) (v : RecallView ν σ ι μ) (o : ν)
    (net : Net ν δ σ) (rank : ν → ℕ) (n : ν) : Prop :=
  n = o ∨ ∃ d, t.node (t.opposite d) = n ∧ rank (t.node d) < rank n ∧
    (v.holds (net.nodes (t.node d)) ∨ ∃ j, net.InFlight t p d j v.withdrawn)

/-! ### A node changes and passes a message on -/

section Changes

variable {ever : ν → Prop} {net : Net ν δ σ} {n : ν} {f : σ → σ} {came : Option δ} {msg : μ}

theorem PassesOn.sent_cases (h : PassesOn t p n came msg (net.nodes n) (f (net.nodes n))) (d : δ) :
    (net.update n f).sent t p d = net.sent t p d ∨
      (t.node d = n ∧ (net.update n f).sent t p d = net.sent t p d ++ [msg]) := by
  unfold Net.sent
  by_cases hd : t.node d = n
  · rw [hd, Net.update_nodes_self, h d hd]
    split
    · exact Or.inl rfl
    · exact Or.inr ⟨rfl, rfl⟩
  · rw [Net.update_nodes_of_ne _ _ hd]
    exact Or.inl rfl

theorem PassesOn.sent_of_ne (h : PassesOn t p n came msg (net.nodes n) (f (net.nodes n))) {d : δ}
    (hd : t.node d = n) (hcame : some d ≠ came) :
    (net.update n f).sent t p d = net.sent t p d ++ [msg] := by
  unfold Net.sent
  rw [hd, Net.update_nodes_self, h d hd, if_neg hcame]

/-- A message among those sent is an old one or the new one. -/
theorem PassesOn.mem_sent (h : PassesOn t p n came msg (net.nodes n) (f (net.nodes n))) {d : δ}
    {x : μ} (hx : x ∈ (net.update n f).sent t p d) :
    x ∈ net.sent t p d ∨ (t.node d = n ∧ x = msg) := by
  rcases h.sent_cases d with hsent | ⟨hd, hsent⟩
  · exact Or.inl (hsent ▸ hx)
  · rw [hsent, List.mem_append, List.mem_singleton] at hx
    rcases hx with hx | rfl
    · exact Or.inl hx
    · exact Or.inr ⟨hd, rfl⟩

theorem PassesOn.mem_sent_of_mem (h : PassesOn t p n came msg (net.nodes n) (f (net.nodes n)))
    {d : δ} {x : μ} (hx : x ∈ net.sent t p d) : x ∈ (net.update n f).sent t p d :=
  (net.sent_update_prefix n f h.sent_prefix d).subset hx

/-- A node that has never held the item takes it. -/
theorem RecallSafe.gain (hdistinct : v.advertised ≠ v.withdrawn) (h : RecallSafe t p v ever net)
    (hpass : PassesOn t p n came v.advertised (net.nodes n) (f (net.nodes n)))
    (hok : v.Ok n (f (net.nodes n))) (hholds : v.holds (f (net.nodes n))) (hnew : ¬ ever n) :
    RecallSafe t p v (fun m => ever m ∨ m = n) (net.update n f) := by
  have hnone : ∀ d, t.node d = n → net.sent t p d = [] := by
    intro d hd
    refine List.eq_nil_iff_forall_not_mem.mpr fun x hx => hnew ?_
    rcases h.messages d x hx with rfl | rfl
    · exact hd ▸ h.ever_of_advertised d hx
    · exact hd ▸ (h.of_withdrawn d hx).1
  have hcases : ∀ d, (net.update n f).sent t p d = net.sent t p d ∨
      (t.node d = n ∧ (net.update n f).sent t p d = [v.advertised]) := by
    intro d
    rcases hpass.sent_cases d with hsent | ⟨hd, hsent⟩
    · exact Or.inl hsent
    · exact Or.inr ⟨hd, by rw [hsent, hnone d hd]; rfl⟩
  have hwithdrawn : ∀ d, v.withdrawn ∈ (net.update n f).sent t p d →
      v.withdrawn ∈ net.sent t p d ∧ t.node d ≠ n := by
    intro d hd
    rcases hpass.mem_sent hd with hold | ⟨-, heq⟩
    · exact ⟨hold, fun hn => hnew (hn ▸ (h.of_withdrawn d hold).1)⟩
    · exact absurd heq.symm hdistinct
  constructor
  · exact net.forall_update _ h.ok hok
  · exact h.delivered.update hpass.sent_prefix
  · intro d x hx
    rcases hpass.mem_sent hx with hx | ⟨-, rfl⟩
    · exact h.messages d x hx
    · exact Or.inl rfl
  · intro d
    rcases hcases d with hsent | ⟨-, hsent⟩
    · exact hsent ▸ h.once d
    · rw [hsent]
      exact List.nodup_singleton _
  · refine net.forall_update (fun m s => v.holds s → ever m ∨ m = n) ?_ fun _ => Or.inr rfl
    exact fun m hm => Or.inl (h.ever_of_holds m hm)
  · intro d hd
    rcases hpass.mem_sent hd with hd | ⟨hd, -⟩
    · exact Or.inl (h.ever_of_advertised d hd)
    · exact Or.inr hd
  · intro d hd
    obtain ⟨hold, hne⟩ := hwithdrawn d hd
    rw [Net.update_nodes_of_ne _ _ hne]
    exact ⟨Or.inl (h.of_withdrawn d hold).1, (h.of_withdrawn d hold).2⟩
  · intro d i j hi hj
    have hne := (hwithdrawn d (List.mem_of_getElem? hj)).2
    rcases hcases d with hsent | ⟨hd, -⟩
    · rw [hsent] at hi hj
      exact h.ordered d i j hi hj
    · exact absurd hd hne
  · intro d hever hgone
    have hne : t.node d ≠ n := by
      intro hd
      rw [hd, Net.update_nodes_self] at hgone
      exact hgone hholds
    rw [Net.update_nodes_of_ne _ _ hne] at hgone
    rcases h.dropped d (hever.resolve_right hne) hgone with hd | hd
    · exact Or.inl (hpass.mem_sent_of_mem hd)
    · exact Or.inr (hpass.mem_sent_of_mem hd)

/-- A holder drops the item. -/
theorem RecallSafe.lose (hdistinct : v.advertised ≠ v.withdrawn) (h : RecallSafe t p v ever net)
    (hpass : PassesOn t p n came v.withdrawn (net.nodes n) (f (net.nodes n)))
    (hok : v.Ok n (f (net.nodes n))) (hgone : ¬ v.holds (f (net.nodes n)))
    (hheld : v.holds (net.nodes n))
    (hcame : ∀ d, came = some d → v.withdrawn ∈ net.sent t p (t.opposite d)) :
    RecallSafe t p v ever (net.update n f) := by
  have hnone : ∀ d, t.node d = n → v.withdrawn ∉ net.sent t p d :=
    fun d hd hmem => (h.of_withdrawn d hmem).2 (hd ▸ hheld)
  have hholds : ∀ m, v.holds ((net.update n f).nodes m) → v.holds (net.nodes m) := by
    refine net.forall_update (fun m s => v.holds s → v.holds (net.nodes m)) (fun _ hm => hm) ?_
    exact fun _ => hheld
  constructor
  · exact net.forall_update _ h.ok hok
  · exact h.delivered.update hpass.sent_prefix
  · intro d x hx
    rcases hpass.mem_sent hx with hx | ⟨-, rfl⟩
    · exact h.messages d x hx
    · exact Or.inr rfl
  · intro d
    rcases hpass.sent_cases d with hsent | ⟨hd, hsent⟩
    · exact hsent ▸ h.once d
    · rw [hsent, ← List.concat_eq_append]
      exact (h.once d).concat (hnone d hd)
  · exact fun m hm => h.ever_of_holds m (hholds m hm)
  · intro d hd
    rcases hpass.mem_sent hd with hd | ⟨-, heq⟩
    · exact h.ever_of_advertised d hd
    · exact absurd heq hdistinct
  · intro d hd
    rcases hpass.mem_sent hd with hd | ⟨hd, -⟩
    · exact ⟨(h.of_withdrawn d hd).1, fun hm => (h.of_withdrawn d hd).2 (hholds _ hm)⟩
    · rw [hd, Net.update_nodes_self]
      exact ⟨h.ever_of_holds n hheld, hgone⟩
  · intro d i j hi hj
    rcases hpass.sent_cases d with hsent | ⟨hd, hsent⟩
    · rw [hsent] at hi hj
      exact h.ordered d i j hi hj
    · -- The withdrawal is the new message, the advertisement an old one.
      rw [hsent] at hi hj
      have hilt : i < (net.sent t p d).length := by
        by_contra hge
        rw [List.getElem?_append_right (by omega)] at hi
        have hmem := List.mem_singleton.mp (List.mem_of_getElem? hi)
        exact hdistinct hmem
      by_contra hge
      rw [List.getElem?_append_left (by omega)] at hj
      exact hnone d hd (List.mem_of_getElem? hj)
  · intro d hever hdgone
    by_cases hd : t.node d = n
    · by_cases hsome : some d = came
      · exact Or.inr (hpass.mem_sent_of_mem (hcame d hsome.symm))
      · rw [hpass.sent_of_ne hd hsome]
        exact Or.inl (by simp)
    · rw [Net.update_nodes_of_ne _ _ hd] at hdgone
      rcases h.dropped d hever hdgone with hmem | hmem
      · exact Or.inl (hpass.mem_sent_of_mem hmem)
      · exact Or.inr (hpass.mem_sent_of_mem hmem)

/-- A node changes nothing that matters. -/
theorem RecallSafe.idle (h : RecallSafe t p v ever net) (hok : v.Ok n (f (net.nodes n)))
    (hholds : v.holds (f (net.nodes n)) ↔ v.holds (net.nodes n))
    (hsent : ∀ d, t.node d = n → p.sent d (f (net.nodes n)) = p.sent d (net.nodes n)) :
    RecallSafe t p v ever (net.update n f) := by
  have hsame := net.sent_update_of_same n f hsent
  have hiff := net.forall_update (fun m s => v.holds s ↔ v.holds (net.nodes m)) (fun _ => Iff.rfl)
    hholds
  refine ⟨net.forall_update _ h.ok hok, h.delivered.update fun d hd => by rw [hsent d hd],
    ?_, ?_, ?_, ?_, ?_, ?_, ?_⟩
  · simpa only [hsame] using h.messages
  · simpa only [hsame] using h.once
  · simpa only [hiff] using h.ever_of_holds
  · simpa only [hsame] using h.ever_of_advertised
  · simpa only [hsame, hiff] using h.of_withdrawn
  · simpa only [hsame] using h.ordered
  · simpa only [hsame, hiff] using h.dropped

/-- A node that another one has the item from has held it. -/
theorem RecallSafe.ever_of_feeds (h : RecallSafe t p v ever net) {d : δ}
    (hfeeds : v.holds (net.nodes (t.node d)) ∨ ∃ j, net.InFlight t p d j v.withdrawn) :
    ever (t.node d) := by
  rcases hfeeds with hheld | ⟨j, hget, -⟩
  · exact h.ever_of_holds _ hheld
  · exact (h.of_withdrawn d (List.mem_of_getElem? hget)).1

theorem feeds_update {d : δ} (hd : t.node d ≠ n)
    (happends : ∀ d, t.node d = n → p.sent d (net.nodes n) <+: p.sent d (f (net.nodes n)))
    (hfeeds : v.holds (net.nodes (t.node d)) ∨ ∃ j, net.InFlight t p d j v.withdrawn) :
    v.holds ((net.update n f).nodes (t.node d)) ∨
      ∃ j, (net.update n f).InFlight t p d j v.withdrawn := by
  rcases hfeeds with hheld | ⟨j, hflight⟩
  · rw [Net.update_nodes_of_ne _ _ hd]
    exact Or.inl hheld
  · exact Or.inr ⟨j, hflight.update happends⟩

theorem RecallSafe.fed_gain (h : RecallSafe t p v ever net)
    (hpass : PassesOn t p n came v.advertised (net.nodes n) (f (net.nodes n))) (hnew : ¬ ever n)
    (hsource : n = o ∨ ∃ d, t.node (t.opposite d) = n ∧
      (v.holds (net.nodes (t.node d)) ∨ ∃ j, net.InFlight t p d j v.withdrawn))
    (hfed : ∃ rank, ∀ m, v.holds (net.nodes m) → net.Fed t p v o rank m) :
    ∃ rank, ∀ m, v.holds ((net.update n f).nodes m) →
      (net.update n f).Fed t p v o rank m := by
  obtain ⟨rank, hfed⟩ := hfed
  have hne : ∀ d, (v.holds (net.nodes (t.node d)) ∨ ∃ j, net.InFlight t p d j v.withdrawn) →
      t.node d ≠ n := fun d hfeeds hd => hnew (hd ▸ h.ever_of_feeds hfeeds)
  -- Nobody has the item from the node yet, so its rank is free.
  have hrest : ∀ k m, m ≠ n → v.holds ((net.update n f).nodes m) →
      (net.update n f).Fed t p v o (Function.update rank n k) m := by
    intro k m hm hheld
    rw [Net.update_nodes_of_ne _ _ hm] at hheld
    rcases hfed m hheld with rfl | ⟨d, hd, hlt, hfeeds⟩
    · exact Or.inl rfl
    · refine Or.inr ⟨d, hd, ?_, feeds_update (hne d hfeeds) hpass.sent_prefix hfeeds⟩
      rwa [Function.update_of_ne (hne d hfeeds), Function.update_of_ne hm]
  rcases hsource with rfl | ⟨d, rfl, hfeeds⟩
  · refine ⟨Function.update rank n 0, fun m hm => ?_⟩
    by_cases hmn : m = n
    · exact Or.inl hmn
    · exact hrest 0 m hmn hm
  · refine ⟨Function.update rank (t.node (t.opposite d)) (rank (t.node d) + 1), fun m hm => ?_⟩
    by_cases hmn : m = t.node (t.opposite d)
    · subst hmn
      refine Or.inr ⟨d, rfl, ?_, feeds_update (hne d hfeeds) hpass.sent_prefix hfeeds⟩
      rw [Function.update_self, Function.update_of_ne (hne d hfeeds)]
      exact Nat.lt_succ_self _
    · exact hrest _ m hmn hm

theorem RecallSafe.fed_lose (h : RecallSafe t p v ever net)
    (hpass : PassesOn t p n came v.withdrawn (net.nodes n) (f (net.nodes n)))
    (hgone : ¬ v.holds (f (net.nodes n)))
    (hcame : ∀ d, came = some d → v.withdrawn ∈ net.sent t p (t.opposite d))
    (hfed : ∃ rank, ∀ m, m ≠ n → v.holds (net.nodes m) → net.Fed t p v o rank m) :
    ∃ rank, ∀ m, v.holds ((net.update n f).nodes m) →
      (net.update n f).Fed t p v o rank m := by
  obtain ⟨rank, hfed⟩ := hfed
  refine ⟨rank, fun m hm => ?_⟩
  by_cases hmn : m = n
  · subst hmn
    rw [Net.update_nodes_self] at hm
    exact absurd hm hgone
  rw [Net.update_nodes_of_ne _ _ hmn] at hm
  rcases hfed m hmn hm with rfl | ⟨d, hd, hlt, hfeeds⟩
  · exact Or.inl rfl
  · refine Or.inr ⟨d, hd, hlt, ?_⟩
    by_cases hdn : t.node d = n
    · -- The withdrawal has not come from the holder: it has sent none.
      have hsome : some d ≠ came := by
        intro heq
        exact (h.of_withdrawn _ (hcame d heq.symm)).2 (hd ▸ hm)
      exact Or.inr ⟨_, h.delivered.inFlight_of_append rfl (hpass.sent_of_ne hdn hsome)⟩
    · exact feeds_update hdn hpass.sent_prefix hfeeds

end Changes

/-! ### Runs -/

section Runs

variable {nodes : ν → σ} {labels : List (Label ν δ ι)} {net : Net ν δ σ}

/-- The node has held the item at some point of the run. -/
def EverHeld (t : Topology ν δ) (p : Protocol ν δ σ ι μ) (v : RecallView ν σ ι μ) (nodes : ν → σ)
    (labels : List (Label ν δ ι)) (n : ν) : Prop :=
  ∃ before net, before <+: labels ∧ run t p ⟨nodes, fun _ => []⟩ before = some net ∧
    v.holds (net.nodes n)

/-- No advertisement comes to a node that has held the item and dropped it. -/
def InTime (t : Topology ν δ) (p : Protocol ν δ σ ι μ) (v : RecallView ν σ ι μ) (nodes : ν → σ)
    (labels : List (Label ν δ ι)) : Prop :=
  ∀ before d j net, before ++ [.deliver d j] <+: labels →
    run t p ⟨nodes, fun _ => []⟩ before = some net → net.InFlight t p d j v.advertised →
    EverHeld t p v nodes before (t.node (t.opposite d)) →
    v.holds (net.nodes (t.node (t.opposite d)))

theorem InTime.of_append {labels' : List (Label ν δ ι)}
    (h : InTime t p v nodes (labels ++ labels')) : InTime t p v nodes labels :=
  fun before d j net hbefore => h before d j net (hbefore.trans (List.prefix_append _ _))

/-- The prefixes of the run by their lengths. -/
theorem InTime.of_take (h : ∀ i d j, labels[i]? = some (.deliver d j) → ∀ net,
    run t p ⟨nodes, fun _ => []⟩ (labels.take i) = some net → net.InFlight t p d j v.advertised →
    ∀ k ≤ i, ∀ mid, run t p ⟨nodes, fun _ => []⟩ (labels.take k) = some mid →
      v.holds (mid.nodes (t.node (t.opposite d))) →
      v.holds (net.nodes (t.node (t.opposite d)))) : InTime t p v nodes labels := by
  rintro before d j net ⟨after, rfl⟩ hrun hflight ⟨early, mid, ⟨rest, rfl⟩, hmid, hheld⟩
  refine h (early ++ rest).length d j (by simp) net ?_ hflight early.length (by simp) mid ?_ hheld
  · rw [List.append_assoc, List.take_left]
    exact hrun
  · rw [List.append_assoc, List.append_assoc, List.take_left]
    exact hmid

theorem everHeld_concat {label : Label ν δ ι}
    (hrun : run t p ⟨nodes, fun _ => []⟩ (labels ++ [label]) = some net) :
    EverHeld t p v nodes (labels ++ [label]) =
      fun n => EverHeld t p v nodes labels n ∨ v.holds (net.nodes n) := by
  funext n
  refine propext ⟨?_, ?_⟩
  · rintro ⟨before, mid, hbefore, hmid, hheld⟩
    rcases List.prefix_concat_iff.mp (by simpa using hbefore) with rfl | hbefore
    · rw [hrun] at hmid
      cases hmid
      exact Or.inr hheld
    · exact Or.inl ⟨before, mid, hbefore, hmid, hheld⟩
  · rintro (⟨before, mid, hbefore, hmid, hheld⟩ | hheld)
    · exact ⟨before, mid, hbefore.trans (List.prefix_append _ _), hmid, hheld⟩
    · exact ⟨_, net, List.prefix_rfl, hrun, hheld⟩

/-- How far the recall has come, by the inputs made so far. -/
inductive RecallStage (t : Topology ν δ) (p : Protocol ν δ σ ι μ) (v : RecallView ν σ ι μ) (o : ν)
    (ever : ν → Prop) (net : Net ν δ σ) : List (ν × ι) → Prop where
  | start (h : ∀ n, ¬ ever n) : RecallStage t p v o ever net []
  | announced (hholds : v.holds (net.nodes o)) (hnone : ∀ d, v.withdrawn ∉ net.sent t p d) :
    RecallStage t p v o ever net [(o, v.announce)]
  | withdrawn (hever : ever o) (hgone : ¬ v.holds (net.nodes o)) :
    RecallStage t p v o ever net [(o, v.announce), (o, v.withdraw)]

structure RecallInv (t : Topology ν δ) (p : Protocol ν δ σ ι μ) (v : RecallView ν σ ι μ) (o : ν)
    (ever : ν → Prop) (ins : List (ν × ι)) (net : Net ν δ σ) : Prop where
  safe : RecallSafe t p v ever net
  fed : ∃ rank, ∀ n, v.holds (net.nodes n) → net.Fed t p v o rank n
  stage : RecallStage t p v o ever net ins

/-- A stage lasts as long as nothing of what it says is lost. -/
theorem RecallStage.mono {ever ever' : ν → Prop} {net net' : Net ν δ σ} {ins : List (ν × ι)}
    (h : RecallStage t p v o ever net ins) (hstart : (∀ n, ¬ ever n) → ∀ n, ¬ ever' n)
    (hannounced : v.holds (net.nodes o) → (∀ d, v.withdrawn ∉ net.sent t p d) →
      v.holds (net'.nodes o) ∧ ∀ d, v.withdrawn ∉ net'.sent t p d)
    (hwithdrawn : ever o → ¬ v.holds (net.nodes o) → ever' o ∧ ¬ v.holds (net'.nodes o)) :
    RecallStage t p v o ever' net' ins := by
  cases h with
  | start hnone => exact .start (hstart hnone)
  | announced hholds hnone =>
    obtain ⟨hholds', hnone'⟩ := hannounced hholds hnone
    exact .announced hholds' hnone'
  | withdrawn hever hgone =>
    obtain ⟨hever', hgone'⟩ := hwithdrawn hever hgone
    exact .withdrawn hever' hgone'

theorem RecallInv.announce (hp : Recalls t p v o) {ever : ν → Prop}
    (h : RecallInv t p v o ever [] net) :
    RecallInv t p v o (fun n => ever n ∨ n = o) [(o, v.announce)]
      (net.update o (p.input o v.announce)) := by
  have hnone : ∀ n, ¬ ever n := by
    cases h.stage with
    | start hnone => exact hnone
  obtain ⟨hholds, hpass⟩ := hp.announce (h.safe.ok o)
  refine ⟨h.safe.gain hp.distinct hpass (hp.ok_announce (h.safe.ok o)) hholds (hnone o),
    h.safe.fed_gain hpass (hnone o) (Or.inl rfl) h.fed, .announced ?_ ?_⟩
  · rwa [Net.update_nodes_self]
  · intro d hd
    rcases hpass.mem_sent hd with hold | ⟨-, heq⟩
    · exact hnone _ (h.safe.of_withdrawn d hold).1
    · exact hp.distinct heq.symm

theorem RecallInv.withdraw (hp : Recalls t p v o) {ever : ν → Prop}
    (h : RecallInv t p v o ever [(o, v.announce)] net) :
    RecallInv t p v o ever [(o, v.announce), (o, v.withdraw)]
      (net.update o (p.input o v.withdraw)) := by
  have hheld : v.holds (net.nodes o) := by
    cases h.stage with
    | announced hholds _ => exact hholds
  obtain ⟨hgone, hpass⟩ := hp.withdraw (h.safe.ok o)
  obtain ⟨rank, hfed⟩ := h.fed
  refine ⟨h.safe.lose hp.distinct hpass (hp.ok_withdraw (h.safe.ok o)) hgone hheld (by simp),
    h.safe.fed_lose hpass hgone (by simp) ⟨rank, fun m _ => hfed m⟩, .withdrawn ?_ ?_⟩
  · exact h.safe.ever_of_holds o hheld
  · rwa [Net.update_nodes_self]

section Deliver

variable {ever : ν → Prop} {ins : List (ν × ι)} {d : δ} {j : ℕ}

theorem RecallSafe.arrived (h : RecallSafe t p v ever net) {msg : μ}
    (hflight : net.InFlight t p d j msg) : RecallSafe t p v ever (net.arrived d j) :=
  ⟨h.ok, h.delivered.arrived hflight, h.messages, h.once, h.ever_of_holds, h.ever_of_advertised,
    h.of_withdrawn, h.ordered, h.dropped⟩

theorem Net.InFlight.arrived {e : δ} {i : ℕ} {msg : μ} (h : net.InFlight t p e i msg)
    (hne : ¬ (e = d ∧ i = j)) : (net.arrived d j).InFlight t p e i msg := by
  refine ⟨h.1, fun hmem => ?_⟩
  rcases (net.mem_delivered_arrived d e i j).mp hmem with heq | hmem
  · exact hne heq
  · exact h.2 hmem

/-- The arrival of a message is felt only by the node it comes to, and there only when it is the
withdrawal. -/
theorem Net.Fed.arrived {rank : ν → ℕ} {n : ν} (h : net.Fed t p v o rank n) {msg : μ}
    (hflight : net.InFlight t p d j msg)
    (hne : msg ≠ v.withdrawn ∨ n ≠ t.node (t.opposite d)) :
    (net.arrived d j).Fed t p v o rank n := by
  rcases h with rfl | ⟨e, he, hlt, hfeeds⟩
  · exact Or.inl rfl
  · refine Or.inr ⟨e, he, hlt, ?_⟩
    rcases hfeeds with hheld | ⟨i, hi⟩
    · exact Or.inl hheld
    · refine Or.inr ⟨i, hi.arrived ?_⟩
      rintro ⟨rfl, rfl⟩
      rcases hne with hne | hne
      · exact hne (Option.some.inj (hflight.1.symm.trans hi.1))
      · exact hne he.symm

theorem RecallInv.idle (h : RecallInv t p v o ever ins net) {n : ν} {f : σ → σ} {msg : μ}
    (hflight : net.InFlight t p d j msg) (hn : n = t.node (t.opposite d))
    (hne : msg = v.withdrawn → ¬ v.holds (net.nodes n)) (hok : v.Ok n (f (net.nodes n)))
    (hholds : v.holds (f (net.nodes n)) ↔ v.holds (net.nodes n))
    (hsent : ∀ e, t.node e = n → p.sent e (f (net.nodes n)) = p.sent e (net.nodes n)) :
    RecallInv t p v o ever ins ((net.arrived d j).update n f) := by
  have hsame := (net.arrived d j).sent_update_of_same n f hsent
  have hiff := (net.arrived d j).forall_update (fun m s => v.holds s ↔ v.holds (net.nodes m))
    (fun _ => Iff.rfl) hholds
  refine ⟨(h.safe.arrived hflight).idle hok hholds hsent, ?_,
    h.stage.mono (fun hnone => hnone) ?_ ?_⟩
  · obtain ⟨rank, hfed⟩ := h.fed
    refine ⟨rank, fun m hm => ?_⟩
    rw [hiff] at hm
    have harrived := (hfed m hm).arrived hflight (by
      by_cases hw : msg = v.withdrawn
      · exact Or.inr fun hmn => hne hw (hn ▸ hmn ▸ hm)
      · exact Or.inl hw)
    rcases harrived with heq | ⟨e, he, hlt, hfeeds⟩
    · exact Or.inl heq
    · refine Or.inr ⟨e, he, hlt, ?_⟩
      rcases hfeeds with hheld | ⟨i, hi⟩
      · exact Or.inl ((hiff _).mpr hheld)
      · exact Or.inr ⟨i, hi.update fun e he => by rw [Net.arrived_nodes, hsent e he]⟩
  · exact fun hheld hnone => ⟨(hiff o).mpr hheld, fun e => hsame e ▸ hnone e⟩
  · exact fun hever hgone => ⟨hever, fun hheld => hgone ((hiff o).mp hheld)⟩

/-- The nodes that have held the item, after a step that leads to `net`. -/
theorem RecallInv.with_holders {ever' : ν → Prop} (h : RecallInv t p v o ever' ins net)
    (hmono : ∀ n, ever n → ever' n) (hnew : ∀ n, ever' n → ever n ∨ v.holds (net.nodes n)) :
    RecallInv t p v o (fun n => ever n ∨ v.holds (net.nodes n)) ins net := by
  have heq : ever' = fun n => ever n ∨ v.holds (net.nodes n) := by
    funext n
    exact propext ⟨hnew n, fun hn => hn.elim (hmono n) (h.safe.ever_of_holds n)⟩
  exact heq ▸ h

theorem RecallInv.deliver_advertised (hp : Recalls t p v o) (h : RecallInv t p v o ever ins net)
    (hflight : net.InFlight t p d j v.advertised) (hlater : ∀ i, j < i → i ∉ net.delivered d)
    (hintime : ever (t.node (t.opposite d)) → v.holds (net.nodes (t.node (t.opposite d)))) :
    ∃ ever', (∀ n, ever n → ever' n) ∧ RecallInv t p v o ever' ins ((net.arrived d j).update
      (t.node (t.opposite d)) (p.receive (t.opposite d) v.advertised)) ∧
      ∀ n, ever' n → ever n ∨ v.holds (((net.arrived d j).update
        (t.node (t.opposite d)) (p.receive (t.opposite d) v.advertised)).nodes n) := by
  have hok := h.safe.ok (t.node (t.opposite d))
  by_cases hheld : v.holds (net.nodes (t.node (t.opposite d)))
  · obtain ⟨hholds, hsent⟩ := hp.advertised_held hok hheld
    exact ⟨ever, fun _ hn => hn, h.idle hflight rfl (fun heq => absurd heq hp.distinct)
      (hp.ok_advertised hok) (iff_of_true hholds hheld) hsent, fun _ hn => Or.inl hn⟩
  · obtain ⟨hholds, hpass⟩ := hp.advertised_new hok hheld
    have hnew : ¬ ever (t.node (t.opposite d)) := fun hever => hheld (hintime hever)
    have hsafe := h.safe.arrived hflight
    have hsender : ever (t.node d) := h.safe.ever_of_advertised d (List.mem_of_getElem? hflight.1)
    -- A sender that has dropped the item since has sent the withdrawal after the advertisement.
    have hfeeds : v.holds ((net.arrived d j).nodes (t.node d)) ∨
        ∃ i, (net.arrived d j).InFlight t p d i v.withdrawn := by
      by_cases hsends : v.holds (net.nodes (t.node d))
      · exact Or.inl hsends
      rcases h.safe.dropped d hsender hsends with hmem | hmem
      · obtain ⟨i, hi⟩ := List.mem_iff_getElem?.mp hmem
        have hji := h.safe.ordered d j i hflight.1 hi
        exact Or.inr ⟨i, Net.InFlight.arrived ⟨hi, hlater i hji⟩ (by omega)⟩
      · exact absurd (h.safe.of_withdrawn _ hmem).1 hnew
    have hfed : ∃ rank, ∀ m, v.holds ((net.arrived d j).nodes m) →
        (net.arrived d j).Fed t p v o rank m := by
      obtain ⟨rank, hfed⟩ := h.fed
      exact ⟨rank, fun m hm => (hfed m hm).arrived hflight (Or.inl hp.distinct)⟩
    refine ⟨_, fun _ hn => Or.inl hn,
      ⟨hsafe.gain hp.distinct hpass (hp.ok_advertised hok) hholds hnew,
        hsafe.fed_gain hpass hnew (Or.inr ⟨d, rfl, hfeeds⟩) hfed, h.stage.mono ?_ ?_ ?_⟩, ?_⟩
    · exact fun hnone => absurd hsender (hnone _)
    · intro hheldo hnone
      refine ⟨(net.arrived d j).forall_update (fun m s => v.holds (net.nodes m) → v.holds s)
        (fun _ hm => hm) (fun _ => hholds) o hheldo, fun e he => ?_⟩
      rcases PassesOn.mem_sent hpass he with hold | ⟨-, heq⟩
      · exact hnone e hold
      · exact hp.distinct heq.symm
    · intro hever hgone
      refine ⟨Or.inl hever, ?_⟩
      have hne : o ≠ t.node (t.opposite d) := fun heq => hnew (heq ▸ hever)
      rwa [Net.update_nodes_of_ne _ _ hne]
    · rintro n (hn | rfl)
      · exact Or.inl hn
      · rw [Net.update_nodes_self]
        exact Or.inr hholds

theorem RecallInv.deliver_withdrawn (hp : Recalls t p v o) (h : RecallInv t p v o ever ins net)
    (hflight : net.InFlight t p d j v.withdrawn) :
    RecallInv t p v o ever ins ((net.arrived d j).update
      (t.node (t.opposite d)) (p.receive (t.opposite d) v.withdrawn)) := by
  have hok := h.safe.ok (t.node (t.opposite d))
  by_cases hheld : v.holds (net.nodes (t.node (t.opposite d)))
  · obtain ⟨hgone, hpass⟩ := hp.withdrawn_held hok hheld
    have hsafe := h.safe.arrived hflight
    have hmem : v.withdrawn ∈ net.sent t p d := List.mem_of_getElem? hflight.1
    have hcame : ∀ e, some (t.opposite d) = some e →
        v.withdrawn ∈ (net.arrived d j).sent t p (t.opposite e) := by
      rintro e heq
      rw [← Option.some.inj heq, t.opposite_opposite]
      exact hmem
    have hfed : ∃ rank, ∀ m, m ≠ t.node (t.opposite d) → v.holds ((net.arrived d j).nodes m) →
        (net.arrived d j).Fed t p v o rank m := by
      obtain ⟨rank, hfed⟩ := h.fed
      exact ⟨rank, fun m hmn hm => (hfed m hm).arrived hflight (Or.inr hmn)⟩
    refine ⟨hsafe.lose hp.distinct hpass (hp.ok_withdrawn hok) hgone hheld hcame,
      hsafe.fed_lose hpass hgone hcame hfed, h.stage.mono ?_ ?_ ?_⟩
    · exact fun hnone => absurd (h.safe.of_withdrawn d hmem).1 (hnone _)
    · exact fun _ hnone => absurd hmem (hnone d)
    · intro hever hgoneo
      refine ⟨hever, fun hheldo => hgoneo ?_⟩
      exact (net.arrived d j).forall_update (fun m s => v.holds s → v.holds (net.nodes m))
        (fun _ hm => hm) (fun _ => hheld) o hheldo
  · obtain ⟨hgone, hsent⟩ := hp.withdrawn_gone hok hheld
    exact h.idle hflight rfl (fun _ => hheld) (hp.ok_withdrawn hok) (iff_of_false hgone hheld) hsent

end Deliver

theorem recallInv_start (hok : ∀ n, v.Ok n (nodes n)) (hnone : ∀ n, ¬ v.holds (nodes n))
    (hsent : ∀ d, p.sent d (nodes (t.node d)) = []) :
    RecallInv t p v o (EverHeld t p v nodes ([] : List (Label ν δ ι))) [] ⟨nodes, fun _ => []⟩ := by
  have hsent' : ∀ d, (Net.mk nodes fun _ : δ => []).sent t p d = [] := hsent
  have hever : ∀ n, ¬ EverHeld t p v nodes ([] : List (Label ν δ ι)) n := by
    rintro n ⟨before, net, hbefore, hrun, hheld⟩
    rw [List.prefix_nil.mp hbefore, run_nil] at hrun
    cases hrun
    exact hnone n hheld
  refine ⟨⟨hok, .start, ?_, ?_, fun n hn => absurd hn (hnone n), ?_, ?_, ?_, ?_⟩,
    ⟨fun _ => 0, fun n hn => absurd hn (hnone n)⟩, .start hever⟩
  · simp [hsent']
  · simp [hsent']
  · simp [hsent']
  · simp [hsent']
  · simp [hsent']
  · exact fun d hd => absurd hd (hever _)

/-- The invariant after a run with FIFO links in which the origin announces and then withdraws. -/
theorem recallInv_run (hp : Recalls t p v o) (hok : ∀ n, v.Ok n (nodes n))
    (hnone : ∀ n, ¬ v.holds (nodes n)) (hsent : ∀ d, p.sent d (nodes (t.node d)) = [])
    (hrun : run t p ⟨nodes, fun _ => []⟩ labels = some net)
    (hinputs : inputs labels <+: [(o, v.announce), (o, v.withdraw)]) (hfifo : Fifo labels)
    (hintime : InTime t p v nodes labels) :
    RecallInv t p v o (EverHeld t p v nodes labels) (inputs labels) net := by
  revert hinputs hfifo hintime
  refine run_induction
    (fun labels net => inputs labels <+: [(o, v.announce), (o, v.withdraw)] → Fifo labels →
      InTime t p v nodes labels →
      RecallInv t p v o (EverHeld t p v nodes labels) (inputs labels) net)
    (fun _ _ _ => recallInv_start hok hnone hsent) ?_ ?_ labels net hrun
  · intro labels mid n i hmid ih hinputs hfifo hintime
    have hnext : run t p ⟨nodes, fun _ => []⟩ (labels ++ [.input n i]) =
        some (mid.update n (p.input n i)) := run_concat.mpr ⟨mid, hmid, rfl⟩
    rw [inputs_append, inputs_input] at hinputs ⊢
    have hinv := ih ((List.prefix_append _ _).trans hinputs) hfifo.of_append hintime.of_append
    rw [everHeld_concat hnext]
    have hlen := hinputs.length_le
    match hins : inputs labels, hinputs, hinv with
    | [], hinputs, hinv =>
      obtain ⟨rfl, rfl⟩ := Prod.mk.inj (List.cons_prefix_cons.mp hinputs).1
      have hnew := hinv.announce hp
      refine hnew.with_holders (fun _ hm => Or.inl hm) ?_
      rintro m (hm | rfl)
      · exact Or.inl hm
      · cases hnew.stage with
        | announced hholds _ => exact Or.inr hholds
    | [first], hinputs, hinv =>
      obtain ⟨rfl, hrest⟩ := List.cons_prefix_cons.mp hinputs
      obtain ⟨rfl, rfl⟩ := Prod.mk.inj (List.cons_prefix_cons.mp hrest).1
      exact (hinv.withdraw hp).with_holders (fun _ hm => hm) fun _ hm => Or.inl hm
    | first :: second :: rest, _, _ =>
      rw [hins] at hlen
      simp at hlen
  · intro labels mid d j msg hmid ih hflight hinputs hfifo hintime
    have hnext : run t p ⟨nodes, fun _ => []⟩ (labels ++ [.deliver d j]) =
        some ((mid.arrived d j).update (t.node (t.opposite d)) (p.receive (t.opposite d) msg)) :=
      run_concat.mpr ⟨mid, hmid, step_deliver.mpr ⟨msg, hflight, rfl⟩⟩
    rw [inputs_append, inputs_deliver, List.append_nil] at hinputs ⊢
    have hinv := ih hinputs hfifo.of_append hintime.of_append
    rw [everHeld_concat hnext]
    rcases hinv.safe.messages d msg (List.mem_of_getElem? hflight.1) with rfl | rfl
    · obtain ⟨ever', hmono, hnew, hsome⟩ := hinv.deliver_advertised hp hflight
        (fun i hi => hfifo.not_delivered hmid hi)
        (hintime labels d j mid List.prefix_rfl hmid hflight)
      exact hnew.with_holders hmono hsome
    · exact (hinv.deliver_withdrawn hp hflight).with_holders (fun _ hm => hm) fun _ hm => Or.inl hm

/-- After the withdrawal, when nothing is in flight, nobody holds the item. -/
theorem RecallInv.not_holds {ever : ν → Prop}
    (h : RecallInv t p v o ever [(o, v.announce), (o, v.withdraw)] net)
    (hquiet : net.Quiescent t p) (n : ν) : ¬ v.holds (net.nodes n) := by
  obtain ⟨rank, hfed⟩ := h.fed
  have horigin : ¬ v.holds (net.nodes o) := by
    cases h.stage with
    | withdrawn _ hgone => exact hgone
  -- A holder of least rank has nobody to have the item from.
  induction hrank : rank n using Nat.strong_induction_on generalizing n with
  | _ k ih =>
    intro hheld
    rcases hfed n hheld with rfl | ⟨d, -, hlt, hfeeds | ⟨j, hflight⟩⟩
    · exact horigin hheld
    · exact ih _ (hrank ▸ hlt) (t.node d) rfl hfeeds
    · exact hquiet d j _ hflight

end Runs

end

end Network
