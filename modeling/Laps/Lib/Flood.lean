import Laps.Lib.Network

/-! Flooding.  A node that gets a message whose key it does not hold keeps the key and sends the
message on over all its other ends; a key that it holds already it ignores.  Whatever the order of
deliveries, each key crosses each link at most once in each direction, and when nothing is in flight
every node that is connected to the origin of a key holds it. -/

set_option linter.unusedSectionVars false

namespace Network

variable {ν δ σ ι μ κ : Type*} [DecidableEq ν] [DecidableEq δ]

/-- What there is to a flood: the inputs and messages that take part in it, their keys, and the
keys that a node holds.  `Ok` is what else the nodes keep. -/
structure FloodView (ν σ ι μ κ : Type*) where
  Ok : ν → σ → Prop
  holds : σ → κ → Prop
  GoodInput : ι → Prop
  Good : μ → Prop
  inputKey : ν → ι → κ
  key : μ → κ

/-- The protocol floods: inputs bring new keys, messages spread them. -/
structure Floods (t : Topology ν δ) (p : Protocol ν δ σ ι μ) (v : FloodView ν σ ι μ κ) : Prop where
  ok_input : ∀ {n i s}, v.GoodInput i → v.Ok n s → v.Ok n (p.input n i s)
  ok_receive : ∀ {d msg s}, v.Good msg → v.Ok (t.node d) s → v.Ok (t.node d) (p.receive d msg s)
  holds_input : ∀ {n i s k}, v.GoodInput i → v.Ok n s →
    (v.holds (p.input n i s) k ↔ v.holds s k ∨ k = v.inputKey n i)
  sent_input : ∀ {d i s}, v.GoodInput i → v.Ok (t.node d) s → ∃ msg, v.Good msg ∧
    v.key msg = v.inputKey (t.node d) i ∧ p.sent d (p.input (t.node d) i s) = p.sent d s ++ [msg]
  holds_receive : ∀ {d msg s k}, v.Good msg → v.Ok (t.node d) s →
    (v.holds (p.receive d msg s) k ↔ v.holds s k ∨ k = v.key msg)
  sent_receive_old : ∀ {d e msg s}, v.Good msg → v.Ok (t.node d) s → t.node e = t.node d →
    v.holds s (v.key msg) → p.sent e (p.receive d msg s) = p.sent e s
  sent_receive_new : ∀ {d e msg s}, v.Good msg → v.Ok (t.node d) s → t.node e = t.node d →
    ¬ v.holds s (v.key msg) →
    p.sent e (p.receive d msg s) = if e = d then p.sent e s else p.sent e s ++ [msg]

/-- The keys that the inputs of a run bring. -/
def FloodView.inputKeys (v : FloodView ν σ ι μ κ) (labels : List (Label ν δ ι)) : List κ :=
  (inputs labels).map fun input => v.inputKey input.1 input.2

section

variable {t : Topology ν δ} {p : Protocol ν δ σ ι μ} {v : FloodView ν σ ι μ κ}

/-- A message with the key is in flight from the end. -/
def Net.KeyInFlight (t : Topology ν δ) (p : Protocol ν δ σ ι μ) (key : μ → κ) (net : Net ν δ σ)
    (d : δ) (k : κ) : Prop := ∃ j msg, net.InFlight t p d j msg ∧ key msg = k

/-- What holds of each node and of each link by itself, after the inputs with keys `keys`. -/
structure FloodSafe (t : Topology ν δ) (p : Protocol ν δ σ ι μ) (v : FloodView ν σ ι μ κ)
    (keys : List κ) (net : Net ν δ σ) : Prop where
  ok : ∀ n, v.Ok n (net.nodes n)
  delivered : net.Delivered t p
  known : ∀ n k, v.holds (net.nodes n) k → k ∈ keys
  good : ∀ d, ∀ msg ∈ net.sent t p d, v.Good msg
  once : ∀ d, ((net.sent t p d).map v.key).Nodup
  held : ∀ d, ∀ msg ∈ net.sent t p d, v.holds (net.nodes (t.node d)) (v.key msg)

/-- What a flood keeps: besides, what a node holds is at the other end of each of its links, or on
its way there. -/
structure FloodInv (t : Topology ν δ) (p : Protocol ν δ σ ι μ) (v : FloodView ν σ ι μ κ)
    (keys : List κ) (net : Net ν δ σ) : Prop extends FloodSafe t p v keys net where
  spread : ∀ d k, v.holds (net.nodes (t.node d)) k →
    v.holds (net.nodes (t.node (t.opposite d))) k ∨ net.KeyInFlight t p v.key d k

/-- A node that takes in the key `k₀`: it holds the key from then on, and when it did not before, it
sends the key over every end whose other node is not known to hold it. -/
structure TakesIn (t : Topology ν δ) (p : Protocol ν δ σ ι μ) (v : FloodView ν σ ι μ κ) (k₀ : κ)
    (net : Net ν δ σ) (n : ν) (f : σ → σ) : Prop where
  holds_iff : ∀ k, v.holds (f (net.nodes n)) k ↔ v.holds (net.nodes n) k ∨ k = k₀
  quiet_of_held : v.holds (net.nodes n) k₀ → ∀ d, t.node d = n →
    p.sent d (f (net.nodes n)) = p.sent d (net.nodes n)
  sends_of_new : ¬ v.holds (net.nodes n) k₀ → ∀ d, t.node d = n →
    (p.sent d (f (net.nodes n)) = p.sent d (net.nodes n) ∧
      v.holds (net.nodes (t.node (t.opposite d))) k₀) ∨
    ∃ msg, v.Good msg ∧ v.key msg = k₀ ∧
      p.sent d (f (net.nodes n)) = p.sent d (net.nodes n) ++ [msg]

section TakesIn

variable {net : Net ν δ σ} {n : ν} {f : σ → σ} {k₀ : κ} {keys keys' : List κ}

theorem TakesIn.sent_cases (h : TakesIn t p v k₀ net n f) (d : δ) :
    (net.update n f).sent t p d = net.sent t p d ∨
      (t.node d = n ∧ ¬ v.holds (net.nodes n) k₀ ∧
        ∃ msg, v.Good msg ∧ v.key msg = k₀ ∧
          (net.update n f).sent t p d = net.sent t p d ++ [msg]) := by
  unfold Net.sent
  by_cases hn : t.node d = n
  · rw [hn, Net.update_nodes_self]
    by_cases hk : v.holds (net.nodes n) k₀
    · exact Or.inl (h.quiet_of_held hk d hn)
    · rcases h.sends_of_new hk d hn with ⟨hsent, -⟩ | hsent
      · exact Or.inl hsent
      · exact Or.inr ⟨rfl, hk, hsent⟩
  · rw [Net.update_nodes_of_ne _ _ hn]
    exact Or.inl rfl

theorem TakesIn.sent_prefix (h : TakesIn t p v k₀ net n f) (d : δ) (hd : t.node d = n) :
    p.sent d (net.nodes n) <+: p.sent d (f (net.nodes n)) := by
  by_cases hk : v.holds (net.nodes n) k₀
  · rw [h.quiet_of_held hk d hd]
  · rcases h.sends_of_new hk d hd with ⟨hsent, -⟩ | ⟨msg, -, -, hsent⟩
    · rw [hsent]
    · rw [hsent]
      exact List.prefix_append _ _

theorem TakesIn.holds_update (h : TakesIn t p v k₀ net n f) (m : ν) (k : κ) :
    v.holds ((net.update n f).nodes m) k ↔ v.holds (net.nodes m) k ∨ (m = n ∧ k = k₀) := by
  by_cases hm : m = n
  · subst hm
    rw [Net.update_nodes_self, h.holds_iff]
    simp
  · rw [Net.update_nodes_of_ne _ _ hm]
    simp [hm]

theorem FloodSafe.takesIn (hsafe : FloodSafe t p v keys net)
    (h : TakesIn t p v k₀ net n f) (hok : v.Ok n (f (net.nodes n)))
    (hkeys : ∀ k ∈ keys, k ∈ keys') (hk₀ : k₀ ∈ keys') :
    FloodSafe t p v keys' (net.update n f) where
  ok := net.forall_update _ hsafe.ok hok
  delivered := hsafe.delivered.update h.sent_prefix
  known m k hk := by
    rcases (h.holds_update m k).mp hk with hk | ⟨-, rfl⟩
    · exact hkeys k (hsafe.known m k hk)
    · exact hk₀
  good d msg hmsg := by
    rcases h.sent_cases d with hsent | ⟨-, -, msg', hgood, -, hsent⟩
    · exact hsafe.good d msg (hsent ▸ hmsg)
    · rw [hsent, List.mem_append, List.mem_singleton] at hmsg
      rcases hmsg with hmsg | rfl
      · exact hsafe.good d msg hmsg
      · exact hgood
  once d := by
    rcases h.sent_cases d with hsent | ⟨hd, hnew, msg, -, hkey, hsent⟩
    · rw [hsent]
      exact hsafe.once d
    · -- The key is not among those sent before, for all of these are held.
      rw [hsent, List.map_append, List.map_singleton, hkey, List.nodup_append]
      refine ⟨hsafe.once d, List.nodup_singleton _, ?_⟩
      intro k hk k' hk' heq
      obtain ⟨old, hold, rfl⟩ := List.mem_map.mp hk
      rw [List.mem_singleton.mp hk'] at heq
      exact hnew (heq ▸ hd ▸ hsafe.held d old hold)
  held d msg hmsg := by
    rw [h.holds_update]
    rcases h.sent_cases d with hsent | ⟨hd, -, msg', -, hkey, hsent⟩
    · exact Or.inl (hsafe.held d msg (hsent ▸ hmsg))
    · rw [hsent, List.mem_append, List.mem_singleton] at hmsg
      rcases hmsg with hmsg | rfl
      · exact Or.inl (hsafe.held d msg hmsg)
      · exact Or.inr ⟨hd, hkey⟩

/-- The invariant holds after a node takes in a key, also when it only lacked that the node holds
the key. -/
theorem FloodSafe.floodInv_takesIn (hsafe : FloodSafe t p v keys net) (n : ν) (k₀ : κ)
    (hspread : ∀ d k, v.holds (net.nodes (t.node d)) k →
      v.holds (net.nodes (t.node (t.opposite d))) k ∨ (t.node (t.opposite d) = n ∧ k = k₀) ∨
        net.KeyInFlight t p v.key d k)
    (h : TakesIn t p v k₀ net n f) (hok : v.Ok n (f (net.nodes n)))
    (hkeys : ∀ k ∈ keys, k ∈ keys') (hk₀ : k₀ ∈ keys') :
    FloodInv t p v keys' (net.update n f) := by
  refine ⟨hsafe.takesIn h hok hkeys hk₀, fun d k hk => ?_⟩
  rw [h.holds_update] at hk ⊢
  by_cases hold : v.holds (net.nodes (t.node d)) k
  · rcases hspread d k hold with hother | hother | hflight
    · exact Or.inl (Or.inl hother)
    · exact Or.inl (Or.inr hother)
    · obtain ⟨j, msg, hflight, hkey⟩ := hflight
      exact Or.inr ⟨j, msg, hflight.update h.sent_prefix, hkey⟩
  · obtain ⟨rfl, rfl⟩ := hk.resolve_left hold
    rcases h.sends_of_new hold d rfl with ⟨-, hother⟩ | ⟨msg, -, rfl, hsent⟩
    · exact Or.inl (Or.inl hother)
    · refine Or.inr ⟨_, msg, hsafe.delivered.inFlight_of_append rfl ?_, rfl⟩
      rw [Net.sent, Net.sent, Net.update_nodes_self]
      exact hsent

end TakesIn

/-! ### The two kinds of steps -/

section Steps

variable {net : Net ν δ σ} {keys : List κ}

theorem FloodInv.takesIn_input (hp : Floods t p v) (h : FloodInv t p v keys net) {n : ν} {i : ι}
    (hgood : v.GoodInput i) (hnew : v.inputKey n i ∉ keys) :
    TakesIn t p v (v.inputKey n i) net n (p.input n i) := by
  have hfresh : ¬ v.holds (net.nodes n) (v.inputKey n i) := fun hk => hnew (h.known n _ hk)
  refine ⟨fun k => hp.holds_input hgood (h.ok n), fun hk => absurd hk hfresh, fun _ d hd => ?_⟩
  subst hd
  exact Or.inr (hp.sent_input hgood (h.ok (t.node d)))

theorem FloodInv.input (hp : Floods t p v) (h : FloodInv t p v keys net) {n : ν} {i : ι}
    (hgood : v.GoodInput i) (hnew : v.inputKey n i ∉ keys) :
    FloodInv t p v (keys ++ [v.inputKey n i]) (net.update n (p.input n i)) := by
  refine h.toFloodSafe.floodInv_takesIn n (v.inputKey n i) ?_ (h.takesIn_input hp hgood hnew)
    (hp.ok_input hgood (h.ok n)) (fun k hk => List.mem_append_left _ hk) (by simp)
  intro d k hk
  rcases h.spread d k hk with hother | hflight
  · exact Or.inl hother
  · exact Or.inr (Or.inr hflight)

section Deliver

variable {d : δ} {j : ℕ} {msg : μ}

theorem FloodInv.takesIn_deliver (hp : Floods t p v) (h : FloodInv t p v keys net)
    (hflight : net.InFlight t p d j msg) :
    TakesIn t p v (v.key msg) (net.arrived d j) (t.node (t.opposite d))
      (p.receive (t.opposite d) msg) := by
  have hgood : v.Good msg := h.good d msg (List.mem_of_getElem? hflight.1)
  have hok := h.ok (t.node (t.opposite d))
  refine ⟨fun k => hp.holds_receive hgood hok,
    fun hk e he => hp.sent_receive_old hgood hok he hk, ?_⟩
  intro hnew e he
  have hsent := hp.sent_receive_new hgood hok he hnew
  by_cases hde : e = t.opposite d
  · -- Nothing goes back over the link that the message has come on: the sender holds its key.
    subst hde
    refine Or.inl ⟨by simpa using hsent, ?_⟩
    rw [t.opposite_opposite]
    exact h.held d msg (List.mem_of_getElem? hflight.1)
  · exact Or.inr ⟨msg, hgood, rfl, by simpa [hde] using hsent⟩

theorem FloodInv.deliver (hp : Floods t p v) (h : FloodInv t p v keys net)
    (hflight : net.InFlight t p d j msg) :
    FloodInv t p v keys
      ((net.arrived d j).update (t.node (t.opposite d)) (p.receive (t.opposite d) msg)) := by
  have hgood : v.Good msg := h.good d msg (List.mem_of_getElem? hflight.1)
  have hsafe : FloodSafe t p v keys (net.arrived d j) :=
    ⟨h.ok, h.delivered.arrived hflight, h.known, h.good, h.once, h.held⟩
  refine hsafe.floodInv_takesIn _ (v.key msg) ?_ (h.takesIn_deliver hp hflight)
    (hp.ok_receive hgood (h.ok _)) (fun k hk => hk)
    (h.known _ _ (h.held d msg (List.mem_of_getElem? hflight.1)))
  intro e k hk
  rcases h.spread e k hk with hother | ⟨i, msg', ⟨hget, hnew⟩, rfl⟩
  · exact Or.inl hother
  · by_cases heq : e = d ∧ i = j
    · -- The message that arrives: its key is the one that the node takes in.
      obtain ⟨rfl, rfl⟩ := heq
      have hmsg : msg' = msg := Option.some.inj (hget.symm.trans hflight.1)
      exact Or.inr (Or.inl ⟨rfl, by rw [hmsg]⟩)
    · refine Or.inr (Or.inr ⟨i, msg', ⟨hget, ?_⟩, rfl⟩)
      rw [Net.mem_delivered_arrived]
      tauto

end Deliver

end Steps

/-! ### Runs -/

section Runs

variable {nodes : ν → σ} {labels : List (Label ν δ ι)} {net : Net ν δ σ}

/-- The nodes of a network in which nothing has been announced. -/
structure Fresh (t : Topology ν δ) (p : Protocol ν δ σ ι μ) (v : FloodView ν σ ι μ κ)
    (nodes : ν → σ) : Prop where
  ok : ∀ n, v.Ok n (nodes n)
  holds : ∀ n k, ¬ v.holds (nodes n) k
  sent : ∀ d, p.sent d (nodes (t.node d)) = []

/-- The inputs of a run take part in the flood, and each brings a key of its own. -/
structure FloodView.OnceEach (v : FloodView ν σ ι μ κ) (labels : List (Label ν δ ι)) : Prop where
  good : ∀ input ∈ inputs labels, v.GoodInput input.2
  nodup : (v.inputKeys labels).Nodup

theorem FloodView.OnceEach.of_append {labels labels' : List (Label ν δ ι)}
    (h : v.OnceEach (labels ++ labels')) : v.OnceEach labels := by
  constructor
  · intro input hinput
    exact h.good input (by simp [hinput])
  · have hnodup := h.nodup
    rw [inputKeys, inputs_append, List.map_append, List.nodup_append] at hnodup
    exact hnodup.1

theorem FloodView.OnceEach.input_new {labels : List (Label ν δ ι)} {n : ν} {i : ι}
    (h : v.OnceEach (labels ++ [.input n i])) :
    v.GoodInput i ∧ v.inputKey n i ∉ v.inputKeys labels := by
  constructor
  · exact h.good (n, i) (by simp)
  · intro hmem
    have hnodup := h.nodup
    rw [inputKeys, inputs_append, List.map_append, List.nodup_append] at hnodup
    exact hnodup.2.2 _ hmem _ (by simp) rfl

/-- The invariant after a run; besides, a node holds the keys of its own inputs. -/
theorem floodInv_run (hp : Floods t p v) (hfresh : Fresh t p v nodes)
    (hrun : run t p ⟨nodes, fun _ => []⟩ labels = some net) (honce : v.OnceEach labels) :
    FloodInv t p v (v.inputKeys labels) net ∧
      ∀ input ∈ inputs labels, v.holds (net.nodes input.1) (v.inputKey input.1 input.2) := by
  revert honce
  refine run_induction
    (fun labels net => v.OnceEach labels → FloodInv t p v (v.inputKeys labels) net ∧
      ∀ input ∈ inputs labels, v.holds (net.nodes input.1) (v.inputKey input.1 input.2))
    ?_ ?_ ?_ labels net hrun
  · intro _
    have hsent : ∀ d, (Net.mk nodes fun _ : δ => []).sent t p d = [] := hfresh.sent
    refine ⟨⟨⟨hfresh.ok, .start, fun n k hk => absurd hk (hfresh.holds n k), ?_, ?_, ?_⟩, ?_⟩, ?_⟩
    · simp [hsent]
    · simp [hsent]
    · simp [hsent]
    · exact fun d k hk => absurd hk (hfresh.holds _ k)
    · simp
  · intro labels mid n i _ ih honce
    obtain ⟨hinv, hown⟩ := ih honce.of_append
    obtain ⟨hgood, hnew⟩ := honce.input_new
    have hkeys : v.inputKeys (labels ++ [.input n i]) =
        v.inputKeys labels ++ [v.inputKey n i] := by simp [FloodView.inputKeys]
    have hinv' := hinv.input hp hgood hnew
    refine ⟨hkeys ▸ hinv', fun input hinput => ?_⟩
    have hholds := (hinv.takesIn_input hp hgood hnew).holds_update input.1
    rw [inputs_append, List.mem_append, inputs_input, List.mem_singleton] at hinput
    rcases hinput with hinput | rfl
    · exact (hholds _).mpr (Or.inl (hown input hinput))
    · exact (hholds _).mpr (Or.inr ⟨rfl, rfl⟩)
  · intro labels mid d j msg _ ih hflight honce
    obtain ⟨hinv, hown⟩ := ih honce.of_append
    have hkeys : v.inputKeys (labels ++ [.deliver d j]) = v.inputKeys labels := by
      simp [FloodView.inputKeys]
    rw [hkeys, inputs_append, inputs_deliver, List.append_nil]
    refine ⟨hinv.deliver hp hflight, fun input hinput => ?_⟩
    exact ((hinv.takesIn_deliver hp hflight).holds_update input.1 _).mpr
      (Or.inl (hown input hinput))

/-- With nothing in flight, what one node holds all nodes connected to it hold. -/
theorem FloodInv.holds_of_connected {keys : List κ} (h : FloodInv t p v keys net)
    (hquiet : net.Quiescent t p) {a b : ν} (hab : t.Connected a b) {k : κ}
    (hk : v.holds (net.nodes a) k) : v.holds (net.nodes b) k := by
  induction hab with
  | refl => exact hk
  | tail _ hstep ih =>
    obtain ⟨d, rfl, rfl⟩ := hstep
    rcases h.spread d k ih with hother | ⟨j, msg, hflight, -⟩
    · exact hother
    · exact absurd hflight (hquiet d j msg)

/-- A run of a flood has at most one delivery for each end and each key. -/
theorem FloodInv.length_labels_le [Fintype δ] [DecidableEq κ] {keys : List κ}
    (h : FloodInv t p v keys net)
    (hrun : run t p ⟨nodes, fun _ => []⟩ labels = some net) :
    labels.length ≤ (inputs labels).length + Fintype.card δ * keys.length := by
  refine (h.delivered.length_labels_le hrun).trans (Nat.add_le_add_left ?_ _)
  have hsent : ∀ d ∈ Finset.univ, (net.sent t p d).length ≤ keys.length := by
    intro d _
    have hsub : (net.sent t p d).map v.key ⊆ keys := by
      intro k hk
      obtain ⟨msg, hmsg, rfl⟩ := List.mem_map.mp hk
      exact h.known _ _ (h.held d msg hmsg)
    simpa using ((h.once d).subperm hsub).length_le
  have hsum := Finset.sum_le_card_nsmul Finset.univ _ _ hsent
  rwa [Finset.card_univ, smul_eq_mul] at hsum

end Runs

end

end Network
