import Laps.Flood.JoinSessions
import Laps.Lib.Gossip

/-! Relays that join a peering graph agree: once nothing is in flight, relays that sessions lead
between have the same facts. -/

namespace Laps.Flood

open Network Peering Std

variable {ν δ : Type*} {q : Quicr} {g : JoinGraph ν δ} {n : ν} {o o' : Others δ}
  {covered : δ → Prop} {known : Fact → Prop} {r r' : Relay}

/-! ### What comes in -/

/-- What a relay learns from outside. -/
def JoinInput.fact? (q : Quicr) (id : NodeIdValueType) : JoinInput → Option Fact
  | .announce call => some (.announce (q.trackHash call.full).trackFullnameHash id)
  | .subscribe call =>
    if call.subscribeData = [] then none
    else some (.subscribe (q.trackHash call.full).trackFullnameHash id)
  | _ => none

/-- Something happens at a relay from outside. -/
theorem steps_input (h : Joined g n o r) (htells : Tells g n o covered r) {i : JoinInput}
    (hadmits : g.Admits n i) (memory : PeerSessionId → UInt64) :
    Steps g n o covered (fun k => i.fact? q (g.nodeId n) = some k) r (i.apply q memory r) := by
  cases i with
  | accepted id =>
    obtain ⟨d, hd, rfl, hopens⟩ := hadmits
    exact (steps_newConnection h htells hd hopens _).1.congr fun k => by simp [JoinInput.fact?]
  | ready id =>
    obtain ⟨d, hd, rfl, hopens⟩ := hadmits
    exact (steps_transportReady h htells hd hopens).1.congr fun k => by simp [JoinInput.fact?]
  | sampled id srttUs =>
    exact (steps_srttSampled h htells id srttUs).congr fun k => by simp [JoinInput.fact?]
  | announce call =>
    obtain ⟨full, withdraw, publishNamespace⟩ := call
    cases hadmits
    refine (steps_clientAnnounce h htells full publishNamespace).congr fun k => ?_
    simp [JoinInput.fact?, eq_comm]
  | subscribe call =>
    refine (steps_clientSubscribe h htells call.full call.subscribeData).congr fun k => ?_
    simp only [JoinInput.fact?]
    split
    · rename_i hempty
      simp [hempty]
    · rename_i hdata
      simp [hdata, eq_comm]

/-- What the messages of a handshake do. -/
structure Shakes (g : JoinGraph ν δ) (d : δ) (msg : ControlMessage) (r' : Relay) : Prop where
  up : msg.isHandshake = true → Up g.toPeeringGraph d r'
  answer : ∀ info, msg = .connect info →
    ∃ info', .connectResponse info' ∈ r'.controlTo (g.sessionId d)

/-- A control message comes in over `d`. -/
theorem steps_receive (h : Joined g n o r) (htells : Tells g n o (fun _ => True) r)
    (haround : Around g n o known) {d : δ} (hd : g.node d = n) {msg : ControlMessage}
    (hpassable : Passable g (g.opposite d) o msg)
    (hfact : ∀ k, msg.fact? = some k → o.knows d k ∧ known k)
    (hasked : ∀ info, msg = .connect info → o.asked d)
    (hshake : o.asked (g.opposite d) → ∃ info, .connect info ∈ r.controlTo (g.sessionId d))
    (hknown : ∀ k, r.HasFact k → known k) (hown : ∀ m, r.HasFact (.node m) → o.aware (g.nodeId n) m)
    (updateRef srttUs : UInt64) :
    ∃ r', Relay.controlMessageReceived q
        (if g.opens d then r else r.newConnection q (g.sessionId d) srttUs) (g.sessionId d) updateRef
        msg = some r' ∧
      Steps g n o (fun _ => True) (fun k => msg.fact? = some k) r r' ∧ Shakes g d msg r' := by
  -- The session is there: it was opened by this relay, or is accepted now.
  obtain ⟨r₁, hr₁, hbefore, hlive⟩ : ∃ r₁,
      r₁ = (if g.opens d then r else r.newConnection q (g.sessionId d) srttUs) ∧
      Steps g n o (fun _ => True) (fun _ => False) r r₁ ∧
      (r₁.getPeerSession (g.sessionId d)).isSome := by
    refine ⟨_, rfl, ?_⟩
    cases hopens : g.opens d with
    | true => exact ⟨.refl h htells, h.opened d hd hopens⟩
    | false => exact steps_newConnection h htells hd hopens srttUs
  rw [← hr₁]
  have hsame : ∀ k, r₁.HasFact k → r.HasFact k := fun k hk =>
    ((hbefore.facts k).mp hk).resolve_right id
  have hknown₁ : ∀ k, r₁.HasFact k → known k := fun k hk => hknown k (hsame k hk)
  have hown₁ : ∀ m, r₁.HasFact (.node m) → o.aware (g.nodeId n) m := fun m hm => hown m (hsame _ hm)
  have hafter : ∀ {learned : Fact → Prop} {r' : Relay},
      Steps g n o (fun _ => True) learned r₁ r' → (∀ k, learned k ↔ msg.fact? = some k) →
      Steps g n o (fun _ => True) (fun k => msg.fact? = some k) r r' := by
    intro learned r' hsteps hlearned
    exact (hbefore.trans hsteps).congr fun k => by rw [← hlearned, false_or]
  have hnone : ∀ r', msg.isHandshake = false → Shakes g d msg r' := by
    intro r' hnot
    refine ⟨fun hshakes => ?_, fun info hconnect => ?_⟩
    · rw [hnot] at hshakes
      cases hshakes
    · rw [hconnect] at hnot
      cases hnot
  cases msg with
  | connect info =>
    obtain ⟨r', hreceived, hsteps, hup, hanswer⟩ := steps_connectReceived hbefore.joined
      hbefore.tells haround hd (hasked _ rfl) hlive hknown₁ hpassable.2 (hfact _ rfl).2 hown₁
    refine ⟨r', hreceived, hafter hsteps fun k => ?_, fun _ => hup, fun _ _ => hanswer⟩
    exact ⟨fun hk => hk ▸ rfl, fun hk => (Option.some.inj hk).symm⟩
  | connectResponse info =>
    obtain ⟨hanswered, hinfo⟩ := hpassable
    obtain ⟨asked, hconnect⟩ := hshake hanswered
    obtain ⟨r', hreceived, hsteps, hup⟩ := steps_connectResponseReceived hbefore.joined
      hbefore.tells haround hd hlive ⟨_, (hbefore.sent _).subset hconnect, rfl⟩ hknown₁ hinfo
      (hfact _ rfl).2 hown₁
    refine ⟨r', hreceived, hafter hsteps fun k => ?_, fun _ => hup, fun _ hcase => nomatch hcase⟩
    exact ⟨fun hk => hk ▸ rfl, fun hk => (Option.some.inj hk).symm⟩
  | nodeInfo info withdraw =>
    obtain ⟨rfl, hpath⟩ := hpassable
    obtain ⟨r', hreceived, hsteps, -⟩ := steps_nodeReceived hbefore.joined hbefore.tells haround hd
      hlive (hfact _ rfl).1 (hfact _ rfl).2 hpath
    refine ⟨r', hreceived, hafter hsteps fun k => ?_, hnone r' rfl⟩
    exact ⟨fun hk => hk ▸ rfl, fun hk => (Option.some.inj hk).symm⟩
  | subscribeNodeSet sns withdraw =>
    obtain ⟨r', hreceived, hsteps⟩ := steps_snsReceived (q := q) hbefore.joined hbefore.tells
      (g.sessionId d) sns withdraw updateRef
    refine ⟨r', hreceived, hafter hsteps fun k => ?_, hnone r' rfl⟩
    exact ⟨fun hk => hk.elim, fun hk => nomatch hk⟩
  | announceInfo info withdraw =>
    obtain rfl : withdraw = false := hpassable
    have hsteps := steps_announceInfoReceived (q := q) hbefore.joined hbefore.tells hd hlive info
      (hfact _ rfl).1
    refine ⟨_, rfl, hafter hsteps fun k => ?_, hnone _ rfl⟩
    exact ⟨fun hk => hk ▸ rfl, fun hk => (Option.some.inj hk).symm⟩
  | subscribeInfo info withdraw =>
    obtain rfl : withdraw = false := hpassable
    have hsteps := steps_subscribeInfoReceived (q := q) hbefore.joined hbefore.tells hd hlive info
      (hfact _ rfl).1
    refine ⟨_, rfl, hafter hsteps fun k => ?_, hnone _ rfl⟩
    exact ⟨fun hk => hk ▸ rfl, fun hk => (Option.some.inj hk).symm⟩

/-! ### The other relays -/

/-- Others that have and have done more. -/
structure Others.Le (o o' : Others δ) : Prop where
  knows : ∀ d k, o.knows d k → o'.knows d k
  aware : ∀ p m, o.aware p m → o'.aware p m
  asked : ∀ d, o.asked d → o'.asked d

theorem Passable.mono (h : o.Le o') {d : δ} {msg : ControlMessage} (hmsg : Passable g d o msg) :
    Passable g d o' msg := by
  cases msg with
  | connect info => exact hmsg
  | connectResponse info => exact ⟨h.asked d hmsg.1, hmsg.2⟩
  | nodeInfo info withdraw => exact ⟨hmsg.1, fun p hp => h.aware p info.id (hmsg.2 p hp)⟩
  | announceInfo info withdraw => exact hmsg
  | subscribeInfo info withdraw => exact hmsg
  | subscribeNodeSet sns withdraw => trivial

theorem Joined.mono (hj : Joined g n o r) (h : o.Le o') : Joined g n o' r :=
  { hj with
    told := fun d m hd hm => h.knows d _ (hj.told d m hd hm)
    paths := fun m s item hitem p hp => h.aware p m (hj.paths m s item hitem p hp)
    passable := fun d hd session hget msg hmsg => (hj.passable d hd session hget msg hmsg).mono h }

theorem Tells.others (ht : Tells g n o covered r) (h : o.Le o') : Tells g n o' covered r :=
  ⟨ht.first, fun d hd hc hup k hk => (ht.told d hd hc hup k hk).imp_left (h.knows d k)⟩

/-- The relay is there and has the fact. -/
def PeerHasFact (s : Option Peer) (k : Fact) : Prop := ∃ peer, s = some peer ∧ peer.relay.HasFact k

/-- The relay is there, and its session of the end is up. -/
def PeerUp (g : PeeringGraph ν δ) (d : δ) (s : Option Peer) : Prop :=
  ∃ peer, s = some peer ∧ Up g d peer.relay

/-- The facts as gossip. -/
def factView (g : PeeringGraph ν δ) : GossipView δ (Option Peer) ControlMessage Fact where
  knows := PeerHasFact
  tells msg k := msg.fact? = some k
  up := PeerUp g

theorem peerHasFact_some {peer : Peer} {k : Fact} :
    PeerHasFact (some peer) k ↔ peer.relay.HasFact k := by
  constructor
  · rintro ⟨peer', heq, hk⟩
    cases heq
    exact hk
  · exact fun hk => ⟨peer, rfl, hk⟩

theorem peerUp_some {g : PeeringGraph ν δ} {d : δ} {peer : Peer} :
    PeerUp g d (some peer) ↔ Up g d peer.relay := by
  constructor
  · rintro ⟨peer', heq, hup⟩
    cases heq
    exact hup
  · exact fun hup => ⟨peer, rfl, hup⟩

/-! ### Networks -/

set_option linter.unusedSectionVars false

section Net

variable [DecidableEq ν] [DecidableEq δ] {net : Net ν δ (Option Peer)}

/-- The relays of a network, seen from each of them. -/
def others (q : Quicr) (g : JoinGraph ν δ) (net : Net ν δ (Option Peer)) : Others δ where
  knows d k := PeerHasFact (net.nodes (g.node (g.opposite d))) k
  aware p m := ∀ n, g.nodeId n = p → PeerHasFact (net.nodes n) (.node m)
  asked d := ∃ info, .connect info ∈ net.sent g.toTopology (joinProtocol q g) (g.opposite d)

/-- The relay that the fact is about is in the graph, and what it announces or subscribes to was
called for. -/
def Called (q : Quicr) (g : JoinGraph ν δ) (calls : List (ν × JoinInput)) (k : Fact) : Prop :=
  (∃ n, k = .node (g.nodeId n)) ∨ ∃ call ∈ calls, call.2.fact? q (g.nodeId call.1) = some k

/-- The relays of the graph are there; they have no other facts than those called for, and each has
those about itself. -/
structure Mesh (q : Quicr) (g : JoinGraph ν δ) (calls : List (ν × JoinInput))
    (net : Net ν δ (Option Peer)) : Prop where
  peer : ∀ n, ∃ peer, net.nodes n = some peer ∧ Joined g n (others q g net) peer.relay ∧
    Tells g n (others q g net) (fun _ => True) peer.relay
  called : ∀ n k, PeerHasFact (net.nodes n) k → Called q g calls k
  own : ∀ n k, Called q g calls k → k.source = g.nodeId n → PeerHasFact (net.nodes n) k

/-- What a handshake message has done at the other end. -/
def Shaken (q : Quicr) (g : JoinGraph ν δ) (d : δ) (msg : ControlMessage) (s : Option Peer) : Prop :=
  (msg.isHandshake = true → PeerUp g.toPeeringGraph (g.opposite d) s) ∧
    ∀ info, msg = .connect info →
      ∃ info', .connectResponse info' ∈ (joinProtocol q g).sent (g.opposite d) s

/-- What holds in a run with the inputs. -/
structure JoinInv (q : Quicr) (g : JoinGraph ν δ) (calls : List (ν × JoinInput))
    (net : Net ν δ (Option Peer)) : Prop where
  mesh : Mesh q g calls net
  gossip : GossipInv g.toTopology (joinProtocol q g) (factView g.toPeeringGraph) net
  shaken : net.Heard g.toTopology (joinProtocol q g) (Shaken q g)
  ready : ∀ d, g.opens d = true → (g.node d, .ready (g.sessionId d)) ∈ calls →
    ∃ info, .connect info ∈ net.sent g.toTopology (joinProtocol q g) d

variable {calls calls' : List (ν × JoinInput)}

theorem source_of_fact? {i : JoinInput} {id : NodeIdValueType} {k : Fact}
    (h : i.fact? q id = some k) : k.source = id := by
  cases i with
  | announce call =>
    cases h
    rfl
  | subscribe call =>
    simp only [JoinInput.fact?] at h
    split at h
    · cases h
    · cases h
      rfl
  | accepted id => cases h
  | ready id => cases h
  | sampled id srttUs => cases h

theorem exists_source_of_called {k : Fact} (h : Called q g calls k) :
    ∃ n, g.nodeId n = k.source := by
  rcases h with ⟨n, rfl⟩ | ⟨call, -, hk⟩
  · exact ⟨n, rfl⟩
  · exact ⟨call.1, (source_of_fact? hk).symm⟩

theorem Mesh.around (h : Mesh q g calls net) (n : ν) :
    Around g n (others q g net) (Called q g calls) where
  origin := fun d _ k hk hsource => h.own _ k hk hsource
  opposite := fun d _ m hm => hm _ rfl
  self := by
    rintro m - n' rfl
    exact h.own n' _ (.inl ⟨n', rfl⟩) rfl
  nonzero := by
    rintro m hk rfl
    obtain ⟨n', hn'⟩ := exists_source_of_called hk
    exact g.nodeId_ne_zero n' hn'

variable {peer peer' : Peer} {f : Option Peer → Option Peer} {learned : Fact → Prop}

/-- A relay takes a step: it learns facts. -/
theorem learns_of_steps (hn : net.nodes n = some peer) (hf : f (some peer) = some peer')
    (h : Steps g n (others q g net) (fun _ => True) learned peer.relay peer'.relay) :
    Learns g.toTopology (joinProtocol q g) (factView g.toPeeringGraph)
      ((factView g.toPeeringGraph).elsewhere g.toTopology net) n (net.nodes n)
      (f (net.nodes n)) := by
  rw [hn, hf]
  refine ⟨fun k hk => ?_, fun d hd => h.sent _, fun d hd msg hmsg k hk => ?_,
    fun d hd hup k hk => ?_⟩
  · exact peerHasFact_some.mpr ((h.facts k).mpr (.inl (peerHasFact_some.mp hk)))
  · obtain ⟨session, hget, hmem⟩ := mem_enqueued_of_controlTo hmsg
    exact peerHasFact_some.mpr (h.joined.sound _ session hget msg hmem k hk)
  · exact h.tells.told d hd trivial (peerUp_some.mp hup) k (peerHasFact_some.mp hk)

theorem others_le (hn : net.nodes n = some peer) (hf : f (some peer) = some peer')
    (h : Steps g n (others q g net) (fun _ => True) learned peer.relay peer'.relay) :
    (others q g net).Le (others q g (net.update n f)) := by
  have hlearns := learns_of_steps hn hf h
  refine ⟨fun d k hk => hlearns.knows_update _ hk, fun p m hm n' hn' =>
    hlearns.knows_update _ (hm n' hn'), ?_⟩
  rintro d ⟨info, hinfo⟩
  exact ⟨info, (net.sent_update_prefix n f hlearns.sent _).subset hinfo⟩

theorem Mesh.steps (hm : Mesh q g calls net) (hn : net.nodes n = some peer)
    (hf : f (some peer) = some peer')
    (h : Steps g n (others q g net) (fun _ => True) learned peer.relay peer'.relay)
    (hlearned : ∀ k, learned k → Called q g calls' k)
    (hkept : ∀ k, Called q g calls k → Called q g calls' k)
    (hnew : ∀ k, Called q g calls' k → Called q g calls k ∨ (learned k ∧ k.source = g.nodeId n)) :
    Mesh q g calls' (net.update n f) where
  peer := by
    have hle := others_le hn hf h
    intro m
    by_cases hmn : m = n
    · subst hmn
      refine ⟨peer', ?_, h.joined.mono hle, h.tells.others hle⟩
      rw [Net.update_nodes_self, hn, hf]
    · obtain ⟨peer₁, hpeer₁, hjoined, htells⟩ := hm.peer m
      refine ⟨peer₁, ?_, hjoined.mono hle, htells.others hle⟩
      rw [Net.update_nodes_of_ne _ _ hmn, hpeer₁]
  called := by
    intro m k hk
    by_cases hmn : m = n
    · subst hmn
      rw [Net.update_nodes_self, hn, hf, peerHasFact_some, h.facts] at hk
      rcases hk with hold | hnow
      · exact hkept k (hm.called m k (by rw [hn]; exact peerHasFact_some.mpr hold))
      · exact hlearned k hnow
    · rw [Net.update_nodes_of_ne _ _ hmn] at hk
      exact hkept k (hm.called m k hk)
  own := by
    intro m k hk hsource
    rcases hnew k hk with hold | ⟨hnow, hself⟩
    · exact (learns_of_steps hn hf h).knows_update m (hm.own m k hold hsource)
    · obtain rfl := g.nodeId_injective (hsource.symm.trans hself)
      rw [Net.update_nodes_self, hn, hf, peerHasFact_some]
      exact (h.facts k).mpr (.inr hnow)

/-- A relay takes a step and keeps what the handshakes have done. -/
theorem shaken_of_steps (hn : net.nodes n = some peer) (hf : f (some peer) = some peer')
    (h : Steps g n (others q g net) (fun _ => True) learned peer.relay peer'.relay) (d : δ)
    (msg : ControlMessage) (hshaken : Shaken q g d msg (net.nodes n)) :
    Shaken q g d msg (f (net.nodes n)) := by
  rw [hn] at hshaken ⊢
  rw [hf]
  refine ⟨fun hshake => ?_, fun info hconnect => ?_⟩
  · exact peerUp_some.mpr (h.up _ (peerUp_some.mp (hshaken.1 hshake)))
  · obtain ⟨info', hinfo'⟩ := hshaken.2 info hconnect
    exact ⟨info', (h.sent _).subset hinfo'⟩

theorem JoinInv.input (h : JoinInv q g calls net) {i : JoinInput} (hadmits : g.Admits n i) :
    JoinInv q g (calls ++ [(n, i)]) (net.update n ((joinProtocol q g).input n i)) := by
  obtain ⟨peer, hn, hjoined, htells⟩ := h.mesh.peer n
  have hf : (joinProtocol q g).input n i (some peer) =
      some { peer with relay := i.apply q peer.memory peer.relay } := rfl
  have hsteps := steps_input (q := q) hjoined htells hadmits peer.memory
  have hlearns := learns_of_steps hn hf hsteps
  refine ⟨h.mesh.steps hn hf hsteps (fun k hk => ?_) (fun k hk => ?_) fun k hk => ?_,
    h.gossip.learns hlearns,
    h.shaken.update h.gossip.delivered (fun d msg _ => shaken_of_steps hn hf hsteps d msg)
      hlearns.sent, fun d hopens hmem => ?_⟩
  · exact .inr ⟨(n, i), List.mem_append_right _ (List.mem_singleton.mpr rfl), hk⟩
  · exact hk.imp_right fun ⟨call, hcall, hfact⟩ => ⟨call, List.mem_append_left _ hcall, hfact⟩
  · rcases hk with hnode | ⟨call, hcall, hfact⟩
    · exact .inl (.inl hnode)
    · rcases List.mem_append.mp hcall with hold | hnew
      · exact .inl (.inr ⟨call, hold, hfact⟩)
      · obtain rfl := List.mem_singleton.mp hnew
        exact .inr ⟨hfact, source_of_fact? hfact⟩
  · rcases List.mem_append.mp hmem with hold | hnew
    · obtain ⟨info, hinfo⟩ := h.ready d hopens hold
      exact ⟨info, (net.sent_update_prefix n _ hlearns.sent d).subset hinfo⟩
    · cases List.mem_singleton.mp hnew
      obtain ⟨info, hinfo⟩ := (steps_transportReady hjoined htells rfl hopens).2
      refine ⟨info, ?_⟩
      unfold Net.sent
      rw [Net.update_nodes_self, hn, hf]
      exact hinfo

theorem JoinInv.deliver (h : JoinInv q g calls net) {d : δ} {j : ℕ} {msg : ControlMessage}
    (hflight : net.InFlight g.toTopology (joinProtocol q g) d j msg) :
    JoinInv q g calls ((net.arrived d j).update (g.node (g.opposite d))
      ((joinProtocol q g).receive (g.opposite d) msg)) := by
  obtain ⟨peer, hn, hjoined, htells⟩ := h.mesh.peer (g.node (g.opposite d))
  obtain ⟨sender, hsender, hsenderJoined, -⟩ := h.mesh.peer (g.node d)
  have hmem : msg ∈ net.sent g.toTopology (joinProtocol q g) d := List.mem_of_getElem? hflight.1
  have hback := g.opposite_opposite d
  -- What the sender may send, and has.
  obtain ⟨session, hget, henqueued⟩ : ∃ session,
      sender.relay.getPeerSession (g.sessionId d) = some session ∧ msg ∈ session.enqueued := by
    apply mem_enqueued_of_controlTo
    unfold Net.sent at hmem
    rw [hsender] at hmem
    exact hmem
  have hpassable := hsenderJoined.passable d rfl session hget msg henqueued
  have hsound := hsenderJoined.sound _ session hget msg henqueued
  have hknows : ∀ k, msg.fact? = some k → PeerHasFact (net.nodes (g.node d)) k := by
    intro k hk
    rw [hsender]
    exact peerHasFact_some.mpr (hsound k hk)
  obtain ⟨r', hreceived, hsteps, hshakes⟩ := steps_receive (q := q) hjoined htells
    (h.mesh.around _) rfl (by rw [hback]; exact hpassable)
    (fun k hk => ⟨by
      show PeerHasFact (net.nodes (g.node (g.opposite (g.opposite d)))) k
      rw [hback]
      exact hknows k hk, h.mesh.called _ k (hknows k hk)⟩)
    (fun info hconnect => ⟨info, by
      rw [hback, ← hconnect]
      exact hmem⟩)
    (fun ⟨info, hinfo⟩ => ⟨info, by
      rw [hback] at hinfo
      unfold Net.sent at hinfo
      rw [hn] at hinfo
      exact hinfo⟩)
    (fun k hk => h.mesh.called _ k (by rw [hn]; exact peerHasFact_some.mpr hk))
    (fun m hm n' hn' => by
      obtain rfl := g.nodeId_injective hn'
      rw [hn]
      exact peerHasFact_some.mpr hm)
    (peer.rands 0) (peer.memory (g.sessionId (g.opposite d)))
  have hf : (joinProtocol q g).receive (g.opposite d) msg (some peer) =
      some { peer with relay := r', rands := fun k => peer.rands (k + 1) } := by
    simp [joinProtocol, hreceived]
  have hlearns := learns_of_steps hn hf hsteps
  have hcalled : ∀ k, msg.fact? = some k → Called q g calls k := fun k hk =>
    h.mesh.called _ k (hknows k hk)
  have hmesh := h.mesh.steps hn hf hsteps hcalled (fun _ hk => hk) fun _ hk => .inl hk
  refine ⟨⟨hmesh.peer, hmesh.called, hmesh.own⟩, h.gossip.receive hflight hlearns fun k hk => ?_,
    h.shaken.receive h.gossip.delivered hflight
      (fun e msg' _ => shaken_of_steps hn hf hsteps e msg') hlearns.sent ?_, fun e hopens hready => ?_⟩
  · rw [hn, hf]
    exact peerHasFact_some.mpr ((hsteps.facts k).mpr (.inr hk))
  · rw [hn, hf]
    exact ⟨fun hshake => peerUp_some.mpr (hshakes.up hshake), hshakes.answer⟩
  · obtain ⟨info, hinfo⟩ := h.ready e hopens hready
    exact ⟨info, (net.sent_update_prefix _ _ hlearns.sent e).subset hinfo⟩

/-! ### Runs -/

/-- A relay that has just started: its tables are empty, and the sessions it opens have no transport
yet. -/
structure Started (g : JoinGraph ν δ) (n : ν) (r : Relay) : Prop where
  nodeId : r.nodeId = g.nodeId n
  infoBase : r.infoBase = {}
  server : r.serverPeerSessions = ∅
  client : ∀ id session, r.clientPeerSessions[id]? = some session →
    ∃ d, g.node d = n ∧ g.opens d = true ∧ g.sessionId d = id ∧ session.nodeId = g.nodeId n ∧
      session.remoteNodeInfo = {} ∧ session.enqueued = []
  opened : ∀ d, g.node d = n → g.opens d = true →
    r.clientPeerSessions.contains (g.sessionId d) = true

theorem Started.session (h : Started g n r) {id : PeerSessionId} {session : PeerSession}
    (hget : r.getPeerSession id = some session) :
    ∃ d, g.node d = n ∧ g.opens d = true ∧ g.sessionId d = id ∧ session.nodeId = g.nodeId n ∧
      session.remoteNodeInfo = {} ∧ session.enqueued = [] := by
  unfold Relay.getPeerSession at hget
  rw [h.server, ExtTreeMap.getElem?_empty] at hget
  exact h.client id session hget

theorem Started.controlTo (h : Started g n r) (id : PeerSessionId) : r.controlTo id = [] := by
  cases hget : r.getPeerSession id with
  | none => simp [Relay.controlTo, hget]
  | some session =>
    obtain ⟨d, -, -, -, -, -, hsent⟩ := h.session hget
    rw [controlTo_of_get hget, hsent]
    rfl

theorem Started.not_up (h : Started g n r) (d : δ) : ¬ Up g.toPeeringGraph d r := by
  rintro ⟨session, hget, -, hremote⟩
  obtain ⟨-, -, -, -, -, hzero, -⟩ := h.session hget
  exact hremote (congrArg NodeInfo.id hzero)

theorem Started.hasFact (h : Started g n r) {k : Fact} :
    r.HasFact k ↔ k = .node (g.nodeId n) := by
  cases k with
  | node m => simp [Relay.HasFact, h.infoBase, h.nodeId]
  | announce hash source => simp [Relay.HasFact, h.infoBase, ExtTreeMap.get₂?]
  | subscribe hash source => simp [Relay.HasFact, h.infoBase, ExtTreeMap.get₂?]

theorem Started.joined (h : Started g n r) (o : Others δ) : Joined g n o r where
  nodeId := h.nodeId
  session := by
    intro id session hget
    obtain ⟨d, hd, -, hid, hnode, hremote, -⟩ := h.session hget
    exact ⟨d, hd, hid, hnode, .inl hremote⟩
  opened := by
    intro d hd hopens
    obtain ⟨session, hsession⟩ := ExtTreeMap.contains_iff_getElem?.mp (h.opened d hd hopens)
    simp [Relay.getPeerSession, h.server, hsession]
  accepted := by
    intro d hd hopens
    rw [Bool.eq_false_iff]
    intro hcontains
    obtain ⟨session, hsession⟩ := ExtTreeMap.contains_iff_getElem?.mp hcontains
    obtain ⟨e, he, heopens, hid, -⟩ := h.client _ session hsession
    obtain rfl := g.sessionId_inj e d (he.trans hd.symm) hid
    rw [hopens] at heopens
    cases heopens
  tables := by
    rw [h.infoBase]
    exact InfoBase.nodeTables_empty
  keyed := by
    rw [h.infoBase]
    refine ⟨fun hash source info hget => ?_, fun hash source info hget => ?_⟩
    · simp [ExtTreeMap.get₂?] at hget
    · simp [ExtTreeMap.get₂?] at hget
  alive := by
    rw [h.infoBase]
    intro m s hs
    simp at hs
  egress := by
    intro key row hrow
    rw [h.infoBase] at hrow
    simp at hrow
  told := by
    rw [h.infoBase]
    intro d m hd hm
    simp at hm
  paths := by
    rw [h.infoBase]
    intro m s item hitem
    simp at hitem
  passable := by
    intro d hd session hget msg hmsg
    obtain ⟨-, -, -, -, -, -, hsent⟩ := h.session hget
    rw [hsent] at hmsg
    cases hmsg
  sound := by
    intro id session hget msg hmsg
    obtain ⟨-, -, -, -, -, -, hsent⟩ := h.session hget
    rw [hsent] at hmsg
    cases hmsg

theorem joinInv_start {peers : ν → Peer} (hstart : ∀ n, Started g n (peers n).relay) :
    JoinInv q g [] ⟨fun n => some (peers n), fun _ => []⟩ := by
  have hsent : ∀ d, (Net.mk (fun n => some (peers n)) fun _ => []).sent g.toTopology
      (joinProtocol q g) d = [] := fun d => (hstart (g.node d)).controlTo _
  refine ⟨⟨fun n => ⟨peers n, rfl, (hstart n).joined _, ?_⟩, ?_, ?_⟩, ?_, .start, ?_⟩
  · exact ⟨fun d _ _ hup => absurd hup ((hstart n).not_up d),
      fun d _ _ hup => absurd hup ((hstart n).not_up d)⟩
  · rintro n k hk
    rw [peerHasFact_some, (hstart n).hasFact] at hk
    exact .inl ⟨n, hk⟩
  · rintro n k (⟨m, rfl⟩ | ⟨call, hcall, -⟩) hsource
    · rw [peerHasFact_some, (hstart n).hasFact, ← hsource]
      rfl
    · cases hcall
  · refine ⟨.start, fun d msg hmsg => ?_, fun d hup => ?_, .start⟩
    · rw [hsent] at hmsg
      cases hmsg
    · exact absurd (peerUp_some.mp hup) ((hstart (g.node d)).not_up d)
  · intro d _ hready
    cases hready

theorem joinInv_run {peers : ν → Peer} (hstart : ∀ n, Started g n (peers n).relay)
    {labels : List (Label ν δ JoinInput)}
    (hrun : run g.toTopology (joinProtocol q g) ⟨fun n => some (peers n), fun _ => []⟩ labels =
      some net) (hadmits : ∀ call ∈ inputs labels, g.Admits call.1 call.2) :
    JoinInv q g (inputs labels) net := by
  refine run_induction (fun labels net => (∀ call ∈ inputs labels, g.Admits call.1 call.2) →
    JoinInv q g (inputs labels) net) (fun _ => joinInv_start hstart) ?_ ?_ labels net hrun hadmits
  · intro labels mid n i _ ih hadmits
    rw [inputs_append, inputs_input] at hadmits ⊢
    refine (ih fun call hcall => hadmits call (List.mem_append_left _ hcall)).input ?_
    exact hadmits (n, i) (List.mem_append_right _ (List.mem_singleton.mpr rfl))
  · intro labels mid d j msg _ ih hflight hadmits
    rw [inputs_append, inputs_deliver, List.append_nil] at hadmits ⊢
    exact (ih hadmits).deliver hflight

/-! ### Agreement -/

/-- The transport of the session became ready. -/
def JoinGraph.Ready (g : JoinGraph ν δ) (calls : List (ν × JoinInput)) (d : δ) : Prop :=
  g.opens d = true ∧ (g.node d, .ready (g.sessionId d)) ∈ calls

/-- A session whose transport became ready leads from one relay to the other. -/
def JoinGraph.Link (g : JoinGraph ν δ) (calls : List (ν × JoinInput)) (a b : ν) : Prop :=
  ∃ d, g.node d = a ∧ g.node (g.opposite d) = b ∧ (g.Ready calls d ∨ g.Ready calls (g.opposite d))

/-- Without messages in flight, both ends of a session that became ready are up. -/
theorem JoinInv.up_of_ready (h : JoinInv q g calls net)
    (hquiet : net.Quiescent g.toTopology (joinProtocol q g)) {d : δ} (hready : g.Ready calls d) :
    PeerUp g.toPeeringGraph d (net.nodes (g.node d)) ∧
      PeerUp g.toPeeringGraph (g.opposite d) (net.nodes (g.node (g.opposite d))) := by
  obtain ⟨info, hconnect⟩ := h.ready d hready.1 hready.2
  have hshaken := h.shaken.of_quiescent hquiet hconnect
  obtain ⟨info', hanswer⟩ := hshaken.2 info rfl
  have hback := h.shaken.of_quiescent hquiet (d := g.opposite d) hanswer
  have hup := hback.1 rfl
  rw [g.opposite_opposite] at hup
  exact ⟨hup, hshaken.1 rfl⟩

theorem JoinInv.knows_of_linked (h : JoinInv q g calls net)
    (hquiet : net.Quiescent g.toTopology (joinProtocol q g)) {a b : ν}
    (hlinked : Relation.ReflTransGen (g.Link calls) a b) {k : Fact} (hk : PeerHasFact (net.nodes a) k) :
    PeerHasFact (net.nodes b) k := by
  refine h.gossip.knows_of_reaches hquiet (fun a' b' hlink => ?_) hlinked hk
  obtain ⟨d, rfl, rfl, hready | hready⟩ := hlink
  · exact ⟨d, rfl, rfl, (h.up_of_ready hquiet hready).1⟩
  · have hup := (h.up_of_ready hquiet hready).2
    rw [g.opposite_opposite] at hup
    exact ⟨d, rfl, rfl, hup⟩

/-- What is announced under the relay's id at another one. -/
theorem called_announce_iff {hash : UInt64} :
    Called q g calls (.announce hash (g.nodeId n)) ↔
      ∃ call, (n, JoinInput.announce call) ∈ calls ∧
        (q.trackHash call.full).trackFullnameHash = hash := by
  constructor
  · rintro (⟨m, hm⟩ | ⟨⟨m, i⟩, hcall, hfact⟩)
    · cases hm
    · obtain rfl := g.nodeId_injective (source_of_fact? hfact)
      cases i with
      | announce call =>
        cases hfact
        exact ⟨call, hcall, rfl⟩
      | subscribe call =>
        simp only [JoinInput.fact?] at hfact
        split at hfact <;> cases hfact
      | accepted id => cases hfact
      | ready id => cases hfact
      | sampled id srttUs => cases hfact
  · rintro ⟨call, hcall, rfl⟩
    exact .inr ⟨_, hcall, rfl⟩

theorem called_subscribe_iff {hash : UInt64} :
    Called q g calls (.subscribe hash (g.nodeId n)) ↔
      ∃ call, (n, JoinInput.subscribe call) ∈ calls ∧ call.subscribeData ≠ [] ∧
        (q.trackHash call.full).trackFullnameHash = hash := by
  constructor
  · rintro (⟨m, hm⟩ | ⟨⟨m, i⟩, hcall, hfact⟩)
    · cases hm
    · obtain rfl := g.nodeId_injective (source_of_fact? hfact)
      cases i with
      | announce call => cases hfact
      | subscribe call =>
        simp only [JoinInput.fact?] at hfact
        split at hfact
        · cases hfact
        · rename_i hdata
          cases hfact
          exact ⟨call, hcall, hdata, rfl⟩
      | accepted id => cases hfact
      | ready id => cases hfact
      | sampled id srttUs => cases hfact
  · rintro ⟨call, hcall, hdata, rfl⟩
    exact .inr ⟨_, hcall, by simp [JoinInput.fact?, hdata]⟩

/-- The relays of the graph start and sessions come up, without losses and withdrawals. -/
structure JoinRun (q : Quicr) (g : JoinGraph ν δ) (peers : ν → Peer)
    (labels : List (Label ν δ JoinInput)) (net : Net ν δ (Option Peer)) : Prop where
  started : ∀ n, Started g n (peers n).relay
  run : run g.toTopology (joinProtocol q g) ⟨fun n => some (peers n), fun _ => []⟩ labels = some net
  admits : ∀ call ∈ inputs labels, g.Admits call.1 call.2

/-! ### A chain in the triangle -/

/-- Each relay of the triangle opens a session to the next one. -/
def joinTriangle : JoinGraph (Fin 3) (Fin 3 × Bool) where
  toPeeringGraph := triangle
  opens d := d.2
  opens_opposite := by decide
  node_opposite := by decide
  nodeId_ne_zero := by decide

/-- A relay of the triangle before any transport is ready. -/
def startedNode (n : Fin 3) : Peer where
  relay :=
    { nodeId := triangle.nodeId n
      clientPeerSessions := (∅ : ExtTreeMap PeerSessionId PeerSession).insert 1
        { nodeId := triangle.nodeId n } }
  rands _ := 7
  memory _ := 9

theorem started_startedNode (n : Fin 3) : Started joinTriangle n (startedNode n).relay where
  nodeId := rfl
  infoBase := rfl
  server := rfl
  client := by
    intro id session hget
    change ((∅ : ExtTreeMap PeerSessionId PeerSession).insert 1
      { nodeId := triangle.nodeId n })[id]? = some session at hget
    rw [ExtTreeMap.getElem?_insert_ite] at hget
    split at hget
    · rename_i hid
      cases hget
      exact ⟨(n, true), rfl, rfl, hid.symm, rfl, rfl, rfl⟩
    · simp at hget
  opened := by
    rintro ⟨m, b⟩ hm hopens
    cases hm
    cases hopens
    rfl

/-- The first two relays open their sessions, the last one announces a track and subscribes to
another, and all messages arrive. -/
def chainRun : List (Label (Fin 3) (Fin 3 × Bool) JoinInput) :=
  [.input 0 (.ready 1), .input 1 (.ready 1), .input 2 (.announce { full := ⟨[[1]], [2]⟩ }),
    .input 2 (.subscribe ⟨⟨[[1]], [3]⟩, [7]⟩), .deliver (0, true) 0, .deliver (1, false) 0,
    .deliver (1, true) 0, .deliver (2, false) 0, .deliver (1, false) 1, .deliver (0, true) 1,
    .deliver (1, true) 1, .deliver (2, false) 1, .deliver (1, false) 2, .deliver (2, false) 2,
    .deliver (1, false) 3]

theorem admits_chainRun : ∀ call ∈ inputs chainRun, joinTriangle.Admits call.1 call.2 := by
  intro call hcall
  have hinputs : inputs chainRun = [(0, .ready 1), (1, .ready 1),
    (2, .announce { full := ⟨[[1]], [2]⟩ }), (2, .subscribe ⟨⟨[[1]], [3]⟩, [7]⟩)] := rfl
  rw [hinputs] at hcall
  simp only [List.mem_cons, List.not_mem_nil, or_false] at hcall
  rcases hcall with rfl | rfl | rfl | rfl
  · exact ⟨(0, true), rfl, rfl, rfl⟩
  · exact ⟨(1, true), rfl, rfl, rfl⟩
  · rfl
  · trivial

theorem linked_chainRun :
    Relation.ReflTransGen (joinTriangle.Link (inputs chainRun)) 2 0 := by
  have hfirst : joinTriangle.Link (inputs chainRun) 2 1 :=
    ⟨(2, false), rfl, rfl, .inr ⟨rfl, by decide⟩⟩
  have hsecond : joinTriangle.Link (inputs chainRun) 1 0 :=
    ⟨(1, false), rfl, rfl, .inr ⟨rfl, by decide⟩⟩
  exact (Relation.ReflTransGen.single hfirst).tail hsecond

/-- The run goes through, and nothing is in flight at its end. -/
theorem joinRun_chainRun : ∃ net, JoinRun .polynomial joinTriangle startedNode chainRun net ∧
    net.Quiescent joinTriangle.toTopology (joinProtocol .polynomial joinTriangle) := by
  have hquiet : (run joinTriangle.toTopology (joinProtocol .polynomial joinTriangle)
      ⟨fun n => some (startedNode n), fun _ => []⟩ chainRun).map (fun net => decide (∀ d,
        ∀ k < (net.sent joinTriangle.toTopology (joinProtocol .polynomial joinTriangle) d).length,
          k ∈ net.delivered d)) = some true := by decide +kernel
  obtain ⟨net, hrun, hnet⟩ := Option.map_eq_some_iff.mp hquiet
  exact ⟨net, ⟨started_startedNode, hrun, admits_chainRun⟩,
    Net.quiescent_iff.mpr (of_decide_eq_true hnet)⟩

/-! ### What the relays agree on -/

/-- No relay comes to undefined behaviour, however the messages are interleaved; the best session of
a node is one that is there, and nothing is in the tables that no relay stands for. -/
theorem joins_safe {peers : ν → Peer} {labels : List (Label ν δ JoinInput)}
    (h : JoinRun q g peers labels net) (n : ν) :
    ∃ peer, net.nodes n = some peer ∧ peer.relay.infoBase.NodeTables ∧
      (∀ (m : NodeIdValueType) (s : PeerSessionId), peer.relay.infoBase.nodesBest[m]? = some s →
        peer.relay.live s = true ∧ ∃ n', g.nodeId n' = m) ∧
      (∀ hash source, (peer.relay.infoBase.announces.get₂? hash source).isSome →
        ∃ n' call, g.nodeId n' = source ∧ (n', JoinInput.announce call) ∈ inputs labels ∧
          (q.trackHash call.full).trackFullnameHash = hash) ∧
      ∀ hash source, (peer.relay.infoBase.subscribes.get₂? hash source).isSome →
        ∃ n' call, g.nodeId n' = source ∧ (n', JoinInput.subscribe call) ∈ inputs labels ∧
          call.subscribeData ≠ [] ∧ (q.trackHash call.full).trackFullnameHash = hash := by
  have hinv := joinInv_run h.started h.run h.admits
  obtain ⟨peer, hn, hjoined, -⟩ := hinv.mesh.peer n
  have hcalled : ∀ k, peer.relay.HasFact k → Called q g (inputs labels) k := by
    intro k hk
    exact hinv.mesh.called n k (by rw [hn]; exact peerHasFact_some.mpr hk)
  refine ⟨peer, hn, hjoined.tables, fun m s hs => ?_, fun hash source hget => ?_,
    fun hash source hget => ?_⟩
  · have hcontains := (hjoined.tables.chosen m).mem hs
    refine ⟨hjoined.alive m s hcontains, ?_⟩
    exact exists_source_of_called (hcalled (.node m) (.inr ⟨s, hcontains⟩))
  · have hknown := hcalled (.announce hash source) hget
    obtain ⟨n', rfl⟩ := exists_source_of_called hknown
    obtain ⟨call, hcall⟩ := called_announce_iff.mp hknown
    exact ⟨n', call, rfl, hcall⟩
  · have hknown := hcalled (.subscribe hash source) hget
    obtain ⟨n', rfl⟩ := exists_source_of_called hknown
    obtain ⟨call, hcall⟩ := called_subscribe_iff.mp hknown
    exact ⟨n', call, rfl, hcall⟩

theorem joins_safe_chainRun : ∃ net,
    JoinRun .polynomial joinTriangle startedNode chainRun net ∧
    ∃ peer, net.nodes 0 = some peer ∧ peer.relay.infoBase.NodeTables := by
  obtain ⟨net, hrun, -⟩ := joinRun_chainRun
  obtain ⟨peer, hn, htables, -⟩ := joins_safe hrun 0
  exact ⟨net, hrun, peer, hn, htables⟩

/-- When nothing is in flight, a relay has a session that leads to each relay that is linked with
it. -/
theorem joins_discover {peers : ν → Peer} {labels : List (Label ν δ JoinInput)}
    (h : JoinRun q g peers labels net) (hquiet : net.Quiescent g.toTopology (joinProtocol q g))
    {a b : ν} (hlinked : Relation.ReflTransGen (g.Link (inputs labels)) a b) (hne : a ≠ b) :
    ∃ peer s, net.nodes b = some peer ∧ peer.relay.bestSession (g.nodeId a) = some s := by
  have hinv := joinInv_run h.started h.run h.admits
  obtain ⟨peer, hb, hjoined, -⟩ := hinv.mesh.peer b
  have hself : PeerHasFact (net.nodes a) (.node (g.nodeId a)) :=
    hinv.mesh.own a _ (.inl ⟨a, rfl⟩) rfl
  have hknows := hinv.knows_of_linked hquiet hlinked hself
  rw [hb, peerHasFact_some] at hknows
  rcases hknows with hid | hentry
  · rw [hjoined.nodeId] at hid
    exact absurd (g.nodeId_injective hid) hne
  · have hbest := (hjoined.tables.chosen (g.nodeId a)).isSome_iff.mpr hentry
    obtain ⟨s, hs⟩ := ExtTreeMap.contains_iff_getElem?.mp hbest
    have hlive := hjoined.alive _ s ((hjoined.tables.chosen (g.nodeId a)).mem hs)
    refine ⟨peer, s, hb, ?_⟩
    rw [Relay.bestSession, hs, Option.filter_some_pos hlive]

/-- The first relay knows the way to the last one, through the second one. -/
theorem joins_discover_chainRun : ∃ net,
    JoinRun .polynomial joinTriangle startedNode chainRun net ∧
    ∃ peer s, net.nodes 0 = some peer ∧ peer.relay.bestSession 3 = some s := by
  obtain ⟨net, hrun, hquiet⟩ := joinRun_chainRun
  exact ⟨net, hrun, joins_discover hrun hquiet linked_chainRun (by decide)⟩

/-- When nothing is in flight, a relay has of each relay that is linked with it what that one was
called with. -/
theorem joins_agree {peers : ν → Peer} {labels : List (Label ν δ JoinInput)}
    (h : JoinRun q g peers labels net) (hquiet : net.Quiescent g.toTopology (joinProtocol q g))
    {a b : ν} (hlinked : Relation.ReflTransGen (g.Link (inputs labels)) a b) :
    ∃ peer, net.nodes b = some peer ∧
      (∀ hash, (peer.relay.infoBase.announces.get₂? hash (g.nodeId a)).isSome ↔
        ∃ call, (a, JoinInput.announce call) ∈ inputs labels ∧
          (q.trackHash call.full).trackFullnameHash = hash) ∧
      ∀ hash, (peer.relay.infoBase.subscribes.get₂? hash (g.nodeId a)).isSome ↔
        ∃ call, (a, JoinInput.subscribe call) ∈ inputs labels ∧ call.subscribeData ≠ [] ∧
          (q.trackHash call.full).trackFullnameHash = hash := by
  have hinv := joinInv_run h.started h.run h.admits
  obtain ⟨peer, hb, -⟩ := hinv.mesh.peer b
  have hiff : ∀ k : Fact, k.source = g.nodeId a →
      (peer.relay.HasFact k ↔ Called q g (inputs labels) k) := by
    intro k hsource
    constructor
    · intro hk
      exact hinv.mesh.called b k (by rw [hb]; exact peerHasFact_some.mpr hk)
    · intro hk
      have hknows := hinv.knows_of_linked hquiet hlinked (hinv.mesh.own a k hk hsource)
      rw [hb] at hknows
      exact peerHasFact_some.mp hknows
  refine ⟨peer, hb, fun hash => ?_, fun hash => ?_⟩
  · exact (hiff (.announce hash (g.nodeId a)) rfl).trans called_announce_iff
  · exact (hiff (.subscribe hash (g.nodeId a)) rfl).trans called_subscribe_iff

theorem joins_agree_chainRun : ∃ net,
    JoinRun .polynomial joinTriangle startedNode chainRun net ∧
    ∃ peer, net.nodes 0 = some peer ∧
      (peer.relay.infoBase.announces.get₂?
        (Quicr.polynomial.trackHash ⟨[[1]], [2]⟩).trackFullnameHash 3).isSome := by
  obtain ⟨net, hrun, hquiet⟩ := joinRun_chainRun
  obtain ⟨peer, hn, hannounces, -⟩ := joins_agree hrun hquiet linked_chainRun
  refine ⟨net, hrun, peer, hn, (hannounces _).mpr ⟨{ full := ⟨[[1]], [2]⟩ }, ?_, rfl⟩⟩
  decide

end Net

end Laps.Flood
