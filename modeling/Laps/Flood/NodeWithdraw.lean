import Laps.Flood.NodeGraph
import Laps.Lib.Weight

/-! Withdrawals of nodes in a peering graph whose sessions are lost.  Relays keep no record of the
withdrawals that they have seen; what stops a withdrawal is the path that it carries. -/

namespace Laps.Flood

open Network Peering Std

variable {ν δ : Type*}

theorem length_path_pushBack (info : NodeInfo) (id : NodeIdValueType) (srttUs : UInt64) :
    (info.pushBack id srttUs).path.length = info.path.length + 1 := by
  simp [NodeInfo.pushBack]

/-- The path of a message on an end has distinct relays, and not the one that it is for. -/
structure LoopFree (g : PeeringGraph ν δ) (d : δ) (info : NodeInfo) : Prop where
  distinct : (pathIds info).Nodup
  addressee : g.nodeId (g.node (g.opposite d)) ∉ pathIds info
  relays : ∀ id ∈ pathIds info, ∃ n, g.nodeId n = id

theorem LoopFree.length_lt [Fintype ν] [DecidableEq ν] {g : PeeringGraph ν δ} {d : δ}
    {info : NodeInfo} (h : LoopFree g d info) : info.path.length < Fintype.card ν := by
  have hnodup : (g.nodeId (g.node (g.opposite d)) :: pathIds info).Nodup :=
    List.nodup_cons.mpr ⟨h.addressee, h.distinct⟩
  have hsub : (g.nodeId (g.node (g.opposite d)) :: pathIds info).toFinset ⊆
      Finset.univ.image g.nodeId := by
    intro id hid
    rw [List.mem_toFinset, List.mem_cons] at hid
    rw [Finset.mem_image]
    rcases hid with rfl | hid
    · exact ⟨_, Finset.mem_univ _, rfl⟩
    · obtain ⟨n, hn⟩ := h.relays id hid
      exact ⟨n, Finset.mem_univ _, hn⟩
  have hcard := (Finset.card_le_card hsub).trans Finset.card_image_le
  rw [List.toFinset_card_of_nodup hnodup, List.length_cons, Finset.card_univ, pathIds,
    List.length_map] at hcard
  omega

/-- The messages between relays that have their sessions: advertisements, and withdrawals with a
path that is free of loops. -/
def Drainable (g : PeeringGraph ν δ) (d : δ) : ControlMessage → Prop
  | .nodeInfo info true => LoopFree g d info
  | .nodeInfo _ false => True
  | _ => False

/-- What holds at a node while sessions are lost. -/
structure Drains (g : PeeringGraph ν δ) (n : ν) (s : NodeState) : Prop where
  peered : g.Peered n s.relay
  messages : ∀ d, g.node d = n → ∀ msg ∈ s.sentTo (g.sessionId d), Drainable g d msg

variable {g : PeeringGraph ν δ} {n : ν} {r r' : Relay} {s s' : NodeState} {q : Quicr}
  {P : PeerSession → List ControlMessage → Prop}

/-! ### What a node has sent -/

/-- A node adds messages to what it has sent over its sessions, which `P` holds of, or none. -/
structure NodeState.Adds (P : PeerSession → List ControlMessage → Prop) (s s' : NodeState) :
    Prop where
  relay : ∃ Q, Relay.Tells Q s.relay s'.relay
  sent : ∀ id, ∃ new, s'.sentTo id = s.sentTo id ++ new ∧
    (new = [] ∨ ∃ session, s.relay.getPeerSession id = some session ∧ P session new)

theorem NodeState.Adds.refl (s : NodeState) : s.Adds P s where
  relay := ⟨_, .refl _⟩
  sent := fun _ => ⟨[], (List.append_nil _).symm, .inl rfl⟩

/-- A relay that keeps its sessions loses no message. -/
theorem extends_of_live (h : Relay.Tells P r r') (hlive : r'.live = r.live) (id : PeerSessionId) :
    ∃ new, r'.nodeMessagesTo id = r.nodeMessagesTo id ++ new ∧
      (new = [] ∨ ∃ session, r.getPeerSession id = some session ∧ P session new) := by
  cases hid : r'.live id with
  | false =>
    refine ⟨[], ?_, .inl rfl⟩
    rw [nodeMessagesTo_of_not_live hid, nodeMessagesTo_of_not_live (hlive ▸ hid)]
    rfl
  | true =>
    obtain ⟨session, new, hget, hsent, hnew⟩ := extends_of_tells h hid
    exact ⟨new, hsent, .inr ⟨session, hget, hnew⟩⟩

theorem adds_relay (h : Relay.Tells P s.relay r') (hlive : r'.live = s.relay.live)
    (stopped : Bool) : s.Adds P { s with relay := r', stopped } where
  relay := ⟨P, h⟩
  sent := by
    intro id
    obtain ⟨new, hsent, hnew⟩ := extends_of_live h hlive id
    refine ⟨new, ?_, hnew⟩
    simp only [NodeState.sentTo, hsent, List.append_assoc]

/-- A call loses no message, whether it has a result or not. -/
theorem adds_call {reached : Relay} {result : Option Relay}
    (hreached : Relay.Tells P s.relay reached) (hlive : reached.live = s.relay.live)
    (hresult : ∀ r', result = some r' → Relay.Tells P s.relay r') :
    s.Adds P (s.call reached result) := by
  cases result with
  | none => exact adds_relay hreached hlive true
  | some r' =>
    refine ⟨⟨P, hresult r' rfl⟩, fun id => ?_⟩
    cases hid : r'.live id with
    | false =>
      obtain ⟨new, hsent, hnew⟩ := extends_of_live hreached hlive id
      refine ⟨new, ?_, hnew⟩
      simp [NodeState.sentTo, NodeState.call, hid, nodeMessagesTo_of_not_live hid, hsent]
    | true =>
      obtain ⟨session, new, hget, hsent, hnew⟩ := extends_of_tells (hresult r' rfl) hid
      refine ⟨new, ?_, .inr ⟨session, hget, hnew⟩⟩
      simp [NodeState.sentTo, NodeState.call, hid, hsent]

theorem Drains.adds (h : Drains g n s) (hadds : s.Adds P s')
    (hP : ∀ d session new, g.node d = n → s.relay.getPeerSession (g.sessionId d) = some session →
      P session new → ∀ msg ∈ new, Drainable g d msg) : Drains g n s' where
  peered := by
    obtain ⟨Q, htells⟩ := hadds.relay
    exact h.peered.tells htells
  messages := by
    intro d hd msg hmsg
    obtain ⟨new, hsent, hnew⟩ := hadds.sent (g.sessionId d)
    rw [hsent, List.mem_append] at hmsg
    rcases hmsg with hmsg | hmsg
    · exact h.messages d hd msg hmsg
    · rcases hnew with rfl | ⟨session, hget, hnew⟩
      · cases hmsg
      · exact hP d session new hd hget hnew msg hmsg

/-- A withdrawal that is passed on has the relay added to its path. -/
theorem LoopFree.pushBack {d e : δ} {info : NodeInfo} (h : LoopFree g d info)
    (hr : g.Peered n r) (hd : g.node (g.opposite d) = n) (he : g.node e = n) {srttUs : UInt64}
    {session : PeerSession} (hget : r.getPeerSession (g.sessionId e) = some session)
    (hskip : Relay.skipNode (info.pushBack r.nodeId srttUs) session.remoteNodeInfo = false) :
    LoopFree g e (info.pushBack r.nodeId srttUs) := by
  simp only [Relay.skipNode, Bool.or_eq_false_iff, decide_eq_false_iff_not,
    List.any_eq_false, decide_eq_true_eq] at hskip
  obtain ⟨⟨⟨-, hremote⟩, -⟩, hpath⟩ := hskip
  have hother := hr.remote he hget hremote
  refine ⟨?_, ?_, ?_⟩
  · rw [pathIds_pushBack, hr.nodeId, ← hd]
    exact List.nodup_append.mpr ⟨h.distinct, by simp, by
      intro a ha b hb heq
      rw [heq, List.mem_singleton.mp hb] at ha
      exact h.addressee ha⟩
  · intro hmem
    obtain ⟨item, hitem, hid⟩ := List.mem_map.mp hmem
    apply hpath item hitem
    rw [hother.id]
    exact hid
  · intro id hid
    rw [pathIds_pushBack, List.mem_append, List.mem_singleton] at hid
    rcases hid with hid | rfl
    · exact h.relays id hid
    · exact ⟨n, hr.nodeId.symm⟩

theorem loopFree_of_path_nil (g : PeeringGraph ν δ) (d : δ) {info : NodeInfo}
    (h : info.path = []) : LoopFree g d info := by
  refine ⟨?_, ?_, ?_⟩ <;> simp [pathIds, h]

/-! ### Steps -/

/-- The withdrawal goes to a session that it is not kept from, or nothing is sent. -/
def PassedOn (info : NodeInfo) (session : PeerSession) (new : List ControlMessage) : Prop :=
  new = [] ∨ new = [.nodeInfo info true] ∧ Relay.skipNode info session.remoteNodeInfo = false

theorem passedOn_of_silent {info : NodeInfo} (h : Relay.Tells Relay.Silent r r') :
    Relay.Tells (PassedOn info) r r' :=
  h.mono fun _ _ hnew => .inl hnew

theorem passedOn_of_propagated {info : NodeInfo} (h : Relay.Tells (Relay.Propagated info true) r r') :
    Relay.Tells (PassedOn info) r r' := by
  refine h.mono fun session new hnew => ?_
  rw [hnew]
  split
  · rename_i hsends
    exact .inr ⟨rfl, hsends.1⟩
  · exact .inl rfl

/-- What a withdrawal does that comes in. -/
theorem adds_withdraw (h : g.Peered n s.relay) (id : PeerSessionId) (info : NodeInfo) :
    ∃ srttUs, s.Adds (PassedOn (info.pushBack s.relay.nodeId srttUs))
      (s.receive id (.nodeInfo info true)) := by
  have hquiet : ∀ info, Relay.Tells (PassedOn info) s.relay s.relay := fun _ =>
    passedOn_of_silent (.refl s.relay)
  unfold NodeState.receive
  split
  · exact ⟨0, .refl s⟩
  · change ∃ srttUs, s.Adds _ (s.call s.relay (s.relay.nodeReceived id info true))
    cases hresult : s.relay.nodeReceived id info true with
    | none => exact ⟨0, adds_call (hquiet _) rfl fun _ hr' => by cases hr'⟩
    | some r' =>
      rcases Relay.tells_nodeReceived_withdraw hresult with rfl | ⟨session, hget, htells⟩
      · refine ⟨0, adds_call (hquiet _) rfl fun r' hr' => ?_⟩
        cases hr'
        exact hquiet _
      · obtain ⟨-, -, -, hown, -⟩ := h.session _ session hget
        rw [hown] at htells
        refine ⟨session.srttUs, adds_call (hquiet _) rfl fun r' hr' => ?_⟩
        cases hr'
        exact passedOn_of_propagated htells

theorem Drains.withdraw (h : Drains g n s) {d : δ} (hd : g.node (g.opposite d) = n)
    {info : NodeInfo} (hinfo : LoopFree g d info) :
    Drains g n (s.receive (g.sessionId (g.opposite d)) (.nodeInfo info true)) := by
  obtain ⟨srttUs, hadds⟩ := adds_withdraw h.peered (g.sessionId (g.opposite d)) info
  refine h.adds hadds fun e session new he hget hnew msg hmsg => ?_
  rcases hnew with rfl | ⟨rfl, hskip⟩
  · cases hmsg
  · cases List.mem_singleton.mp hmsg
    exact hinfo.pushBack h.peered hd he hget hskip

/-- An advertisement goes on as an advertisement. -/
theorem adds_advertise (s : NodeState) (id : PeerSessionId) (info : NodeInfo) :
    s.Adds (fun _ new => ∀ msg ∈ new, ∃ info, msg = .nodeInfo info false)
      (s.receive id (.nodeInfo info false)) := by
  have hquiet : ∀ {r r' : Relay}, Relay.Tells Relay.Silent r r' →
      Relay.Tells (fun _ new => ∀ msg ∈ new, ∃ info, msg = .nodeInfo info false) r r' :=
    fun htells => htells.mono fun _ new hnew msg hmsg => by
      rw [hnew] at hmsg
      cases hmsg
  unfold NodeState.receive
  split
  · exact .refl s
  · refine adds_call (hquiet (.refl s.relay)) rfl fun r' hr' => ?_
    rcases Relay.tells_nodeReceived_advertise hr' with
      rfl | ⟨session, ib, isUpdated, -, -, -, htells⟩
    · exact hquiet (.refl _)
    · cases isUpdated with
      | false => exact hquiet htells
      | true =>
        refine htells.mono fun session new hnew msg hmsg => ?_
        rw [if_pos rfl] at hnew
        rw [hnew] at hmsg
        split at hmsg
        · exact ⟨_, List.mem_singleton.mp hmsg⟩
        · cases hmsg

/-- The remote node of the session that is lost is withdrawn or nothing is sent. -/
theorem tells_withdrawRemote (r : Relay) (id : PeerSessionId) :
    (r.withdrawRemote id).live = r.live ∧ (r.withdrawRemote id = r ∨
      ∃ session, r.getPeerSession id = some session ∧ Relay.Tells
        (fun _ new => new = [] ∨ new = [.nodeInfo session.remoteNodeInfo true]) r
        (r.withdrawRemote id)) := by
  have hweak : ∀ {r r' : Relay} {remote : NodeInfo}, Relay.Tells (Relay.Propagated remote true) r r' →
      Relay.Tells (fun _ new => new = [] ∨ new = [.nodeInfo remote true]) r r' :=
    fun htells => (passedOn_of_propagated htells).mono fun _ _ hnew => hnew.imp_right And.left
  unfold Relay.withdrawRemote
  split
  · rename_i session hserver
    refine ⟨Relay.live_propagateNodeInfo r _ true, .inr ⟨session, ?_, ?_⟩⟩
    · rw [Relay.getPeerSession, hserver]
    · exact hweak (Relay.tells_propagateNodeInfo r _ true)
  · rename_i hserver
    split
    · exact ⟨rfl, .inl rfl⟩
    · rename_i session hclient
      have hget : r.getPeerSession id = some session := by
        rw [Relay.getPeerSession, hserver]
        exact hclient
      have hstatus : Relay.Keeps (fun _ => ()) Relay.nodeView r
          (r.setPeerSession id { session with status := .disconnected }) :=
        Relay.keeps_setPeerSession hget rfl
      refine ⟨?_, .inr ⟨session, hget, ?_⟩⟩
      · rw [Relay.live_propagateNodeInfo, Relay.live_setPeerSession hget]
      · exact hstatus.tells.after (hweak (Relay.tells_propagateNodeInfo _ _ true))

/-- What the loss of a session does. -/
theorem adds_lost (h : g.Peered n s.relay) (id : PeerSessionId) :
    ∃ remote : NodeInfo, remote.path = [] ∧
      s.Adds (fun _ new => new = [] ∨ new = [.nodeInfo remote true]) (s.input q (.lost id)) := by
  obtain ⟨remote, hpath, hremote⟩ : ∃ remote : NodeInfo, remote.path = [] ∧ ∀ session,
      s.relay.getPeerSession id = some session → session.remoteNodeInfo = remote := by
    obtain hnone | ⟨session, hget⟩ := Option.eq_none_or_eq_some (s.relay.getPeerSession id)
    · refine ⟨{}, rfl, fun session hget => ?_⟩
      cases hnone.symm.trans hget
    · refine ⟨session.remoteNodeInfo, ?_, fun session' hget' => ?_⟩
      · obtain ⟨d, -, -, -, hknown⟩ := h.session id session hget
        rcases hknown with hknown | hknown
        · rw [hknown]
        · exact hknown.path
      · cases hget.symm.trans hget'
        rfl
  have hquiet : Relay.Tells (fun _ new => new = [] ∨ new = [.nodeInfo remote true])
      s.relay s.relay := (Relay.Tells.refl s.relay).mono fun _ _ hnew => .inl hnew
  obtain ⟨hlive, hreached⟩ := tells_withdrawRemote s.relay id
  have hreached : Relay.Tells (fun _ new => new = [] ∨ new = [.nodeInfo remote true])
      s.relay (s.relay.withdrawRemote id) := by
    rcases hreached with hsame | ⟨session, hget, htells⟩
    · rw [hsame]
      exact hquiet
    · rwa [hremote session hget] at htells
  refine ⟨remote, hpath, ?_⟩
  unfold NodeState.input
  dsimp only
  split
  · exact adds_relay hreached hlive s.stopped
  · refine adds_call hreached hlive fun r' hr' => ?_
    rcases Relay.tells_sessionLost h.separate hr' with rfl | ⟨session, hget, htells⟩
    · exact hquiet
    · rwa [hremote session hget] at htells

theorem Drains.lost (h : Drains g n s) (id : PeerSessionId) :
    Drains g n (s.input q (.lost id)) := by
  obtain ⟨remote, hpath, hadds⟩ := adds_lost h.peered id
  refine h.adds hadds fun e session new _ _ hnew msg hmsg => ?_
  rcases hnew with rfl | rfl
  · cases hmsg
  · cases List.mem_singleton.mp hmsg
    exact loopFree_of_path_nil g e hpath

theorem adds_sampled (q : Quicr) (s : NodeState) (id : PeerSessionId) (srttUs : UInt64) :
    s.Adds Relay.Silent (s.input q (.sampled id srttUs)) := by
  have hkeeps : Relay.Tells Relay.Silent s.relay (s.relay.srttSampled id srttUs) ∧
      (s.relay.srttSampled id srttUs).live = s.relay.live := by
    unfold Relay.srttSampled Relay.modifyPeerSession
    split
    · exact ⟨.refl _, rfl⟩
    · rename_i session hget
      have hsession : Relay.Keeps (fun _ => ()) Relay.nodeView s.relay
          (s.relay.setPeerSession id { session with srttUs }) := Relay.keeps_setPeerSession hget rfl
      exact ⟨hsession.tells, Relay.live_setPeerSession hget _⟩
  exact adds_relay hkeeps.1 hkeeps.2 s.stopped

/-- What holds in a network while sessions are lost. -/
def NetDrains (g : PeeringGraph ν δ) (net : Net ν δ NodeState) : Prop :=
  ∀ n, Drains g n (net.nodes n)

/-- No session is established. -/
def Losing : Label ν δ NodeInput → Prop
  | .input _ (.ready _) => False
  | _ => True

theorem NetDrains.mem_sent {net : Net ν δ NodeState} (h : NetDrains g net) {d : δ}
    {msg : ControlMessage} (hmsg : msg ∈ net.sent g.toTopology (nodeProtocol q g) d) :
    Drainable g d msg :=
  (h _).messages d rfl msg hmsg

/-- What a message does that is delivered while sessions are lost. -/
theorem drainable_cases {d : δ} {msg : ControlMessage} (h : Drainable g d msg) :
    ∃ info withdraw, msg = .nodeInfo info withdraw ∧ (withdraw = true → LoopFree g d info) := by
  match msg, h with
  | .nodeInfo info true, h => exact ⟨info, true, rfl, fun _ => h⟩
  | .nodeInfo info false, _ => exact ⟨info, false, rfl, fun h => by cases h⟩

section Net

variable [DecidableEq ν] [DecidableEq δ]

theorem netDrains_step {net net' : Net ν δ NodeState} (h : NetDrains g net)
    {label : Label ν δ NodeInput} (hlosing : Losing label)
    (hstep : step g.toTopology (nodeProtocol q g) net label = some net') : NetDrains g net' := by
  cases label with
  | input n i =>
    cases hstep
    refine net.forall_update (fun n s => Drains g n s) h ?_
    cases i with
    | ready id => cases hlosing
    | lost id => exact (h n).lost id
    | sampled id srttUs =>
      refine (h n).adds (adds_sampled q (net.nodes n) id srttUs) fun _ _ new _ _ hnew msg hmsg => ?_
      rw [hnew] at hmsg
      cases hmsg
  | deliver d k =>
    obtain ⟨msg, hflight, rfl⟩ := step_deliver.mp hstep
    obtain ⟨info, withdraw, rfl, hfree⟩ := drainable_cases
      (h.mem_sent (List.mem_of_getElem? hflight.1))
    have harrived : NetDrains g (net.arrived d k) := h
    refine (net.arrived d k).forall_update (fun n s => Drains g n s) harrived ?_
    cases withdraw with
    | true => exact (h _).withdraw rfl (hfree rfl)
    | false =>
      refine (h _).adds (adds_advertise _ _ info) fun _ _ new _ _ hnew msg hmsg => ?_
      obtain ⟨info', rfl⟩ := hnew msg hmsg
      trivial

theorem netDrains_run {start net : Net ν δ NodeState} (hstart : NetDrains g start)
    {labels : List (Label ν δ NodeInput)} (hlosing : ∀ label ∈ labels, Losing label)
    (hrun : run g.toTopology (nodeProtocol q g) start labels = some net) : NetDrains g net := by
  induction labels generalizing start with
  | nil =>
    cases hrun
    exact hstart
  | cons label labels ih =>
    rw [run, List.foldlM_cons, Option.bind_eq_bind, Option.bind_eq_some_iff] at hrun
    obtain ⟨mid, hmid, hrun⟩ := hrun
    exact ih (netDrains_step hstart (hlosing label List.mem_cons_self) hmid)
      (fun l hl => hlosing l (List.mem_cons_of_mem _ hl)) hrun

/-- The messages that a step puts on an end. -/
def newOn (q : Quicr) (g : PeeringGraph ν δ) (net net' : Net ν δ NodeState) (d : δ) :
    List ControlMessage :=
  (net'.sent g.toTopology (nodeProtocol q g) d).drop
    (net.sent g.toTopology (nodeProtocol q g) d).length

/-- A relay that processes a withdrawal sends only withdrawals with a longer path. -/
theorem longer_of_deliver {net net' : Net ν δ NodeState} (h : NetDrains g net) {d e : δ}
    {k : ℕ} {info : NodeInfo}
    (hflight : net.InFlight g.toTopology (nodeProtocol q g) d k (.nodeInfo info true))
    (hstep : step g.toTopology (nodeProtocol q g) net (.deliver d k) = some net')
    {msg : ControlMessage} (hmsg : msg ∈ newOn q g net net' e) :
    ∃ info', msg = .nodeInfo info' true ∧ info'.id = info.id ∧
      info.path.length < info'.path.length := by
  obtain ⟨msg', hflight', rfl⟩ := step_deliver.mp hstep
  cases hflight'.1.symm.trans hflight.1
  unfold newOn Net.sent at hmsg
  by_cases he : g.node e = g.node (g.opposite d)
  · rw [he, Net.update_nodes_self, Net.arrived_nodes] at hmsg
    obtain ⟨srttUs, hadds⟩ := adds_withdraw (h (g.node (g.opposite d))).peered
      (g.sessionId (g.opposite d)) info
    obtain ⟨new, hsent, hnew⟩ := hadds.sent (g.sessionId e)
    have hnew' : msg ∈ new := by
      change msg ∈ List.drop ((net.nodes _).sentTo _).length
        (((net.nodes _).receive (g.sessionId (g.opposite d)) (.nodeInfo info true)).sentTo _) at hmsg
      rwa [hsent, List.drop_left] at hmsg
    rcases hnew with rfl | ⟨session, -, rfl | ⟨rfl, -⟩⟩
    · cases hnew'
    · cases hnew'
    · cases List.mem_singleton.mp hnew'
      exact ⟨_, rfl, rfl, by rw [length_path_pushBack]; omega⟩
  · rw [Net.update_nodes_of_ne _ _ he, Net.arrived_nodes, List.drop_length] at hmsg
    cases hmsg

/-! ### Weights -/

/-- An upper bound for the messages of a flood that has `j` hops left. -/
def floodSize (ends : ℕ) : ℕ → ℕ
  | 0 => 1
  | j + 1 => 1 + ends * floodSize ends j

/-- A withdrawal weighs as much as the flood that it may start. -/
def withdrawWeight (ends relays : ℕ) : ControlMessage → ℕ
  | .nodeInfo info true => floodSize ends (relays - info.path.length)
  | _ => 0

/-- The message that a step delivers is a withdrawal. -/
def withdrawDelivered (q : Quicr) (g : PeeringGraph ν δ) (net : Net ν δ NodeState) :
    Label ν δ NodeInput → ℕ
  | .input _ _ => 0
  | .deliver d k =>
    match (net.sent g.toTopology (nodeProtocol q g) d)[k]? with
    | some (.nodeInfo _ true) => 1
    | _ => 0

/-- The input is the loss of a session. -/
def isLost : Label ν δ NodeInput → Bool
  | .input _ (.lost _) => true
  | _ => false

variable [Fintype δ]

/-- A node that changes adds the weight of what it sends. -/
theorem weight_update_adds {w : ControlMessage → ℕ} {c : ℕ} (net : Net ν δ NodeState) {n : ν}
    (f : NodeState → NodeState) (hadds : (net.nodes n).Adds P (f (net.nodes n)))
    (hP : ∀ session new, P session new → (new.map w).sum ≤ c) :
    (net.update n f).weight g.toTopology (nodeProtocol q g) w ≤
      net.weight g.toTopology (nodeProtocol q g) w + Fintype.card δ * c := by
  refine net.weight_update_le fun d _ => ?_
  obtain ⟨new, hsent, hnew⟩ := hadds.sent (g.sessionId d)
  refine ⟨new, hsent, ?_⟩
  rcases hnew with rfl | ⟨session, -, hnew⟩
  · exact Nat.zero_le c
  · exact hP session new hnew

variable [Fintype ν]

/-- A step is paid for by the weight that it takes off. -/
theorem weight_step {net net' : Net ν δ NodeState} (h : NetDrains g net)
    {label : Label ν δ NodeInput} (hlosing : Losing label)
    (hstep : step g.toTopology (nodeProtocol q g) net label = some net') :
    withdrawDelivered q g net label + net'.weight g.toTopology (nodeProtocol q g)
        (withdrawWeight (Fintype.card δ) (Fintype.card ν)) ≤
      net.weight g.toTopology (nodeProtocol q g)
        (withdrawWeight (Fintype.card δ) (Fintype.card ν)) +
      if isLost label then Fintype.card δ * floodSize (Fintype.card δ) (Fintype.card ν) else 0 := by
  set w := withdrawWeight (Fintype.card δ) (Fintype.card ν) with hw
  cases label with
  | input n i =>
    cases hstep
    cases i with
    | ready id => cases hlosing
    | lost id =>
      obtain ⟨remote, hpath, hadds⟩ := adds_lost (q := q) (h n).peered id
      rw [withdrawDelivered, Nat.zero_add]
      refine weight_update_adds net (NodeState.input q · (.lost id)) hadds fun session new hnew => ?_
      rcases hnew with rfl | rfl
      · simp
      · simp [hw, withdrawWeight, hpath]
    | sampled id srttUs =>
      rw [withdrawDelivered, Nat.zero_add]
      refine weight_update_adds (c := 0) net (NodeState.input q · (.sampled id srttUs))
        (adds_sampled q (net.nodes n) id srttUs) fun session new hnew => ?_
      rw [hnew]
      exact Nat.le_refl 0
  | deliver d k =>
    obtain ⟨msg, hflight, rfl⟩ := step_deliver.mp hstep
    obtain ⟨info, withdraw, rfl, hfree⟩ := drainable_cases
      (h.mem_sent (List.mem_of_getElem? hflight.1))
    have harrived := Net.weight_arrived (w := w) hflight
    have hcost : withdrawDelivered q g net (.deliver d k) = if withdraw then 1 else 0 := by
      rw [withdrawDelivered, hflight.1]
      cases withdraw <;> rfl
    have hinput : isLost (.deliver d k : Label ν δ NodeInput) = false := rfl
    rw [hcost, hinput, if_neg Bool.false_ne_true]
    set s := net.nodes (g.node (g.opposite d)) with hs
    cases withdraw with
    | true =>
      -- The messages that go on have one more relay on their path.
      obtain ⟨srttUs, hadds⟩ := adds_withdraw (h (g.node (g.opposite d))).peered
        (g.sessionId (g.opposite d)) info
      have hle : ((net.arrived d k).update (g.node (g.opposite d)) fun s =>
          s.receive (g.sessionId (g.opposite d)) (.nodeInfo info true)).weight g.toTopology
            (nodeProtocol q g) w ≤ (net.arrived d k).weight g.toTopology (nodeProtocol q g) w +
          Fintype.card δ *
            floodSize (Fintype.card δ) (Fintype.card ν - (info.path.length + 1)) := by
        refine weight_update_adds (net.arrived d k) _ hadds fun session new hnew => ?_
        rcases hnew with rfl | ⟨rfl, -⟩
        · exact Nat.zero_le _
        · simp [hw, withdrawWeight, length_path_pushBack]
      have hmsg : w (.nodeInfo info true) = 1 + Fintype.card δ *
          floodSize (Fintype.card δ) (Fintype.card ν - (info.path.length + 1)) := by
        have hlt := (hfree rfl).length_lt
        have hhops : Fintype.card ν - info.path.length =
            Fintype.card ν - (info.path.length + 1) + 1 := by omega
        rw [hw, withdrawWeight, hhops, floodSize]
      rw [if_pos rfl]
      refine (Nat.add_le_add_left hle 1).trans ?_
      omega
    | false =>
      rw [if_neg Bool.false_ne_true, Nat.zero_add]
      have hzero : ∀ new : List ControlMessage, (∀ msg ∈ new, ∃ info, msg = .nodeInfo info false) →
          (new.map w).sum ≤ 0 := by
        intro new hnew
        refine Nat.le_of_eq (List.sum_eq_zero fun weight hweight => ?_)
        obtain ⟨msg, hmsg, rfl⟩ := List.mem_map.mp hweight
        obtain ⟨info', rfl⟩ := hnew msg hmsg
        rfl
      have hle := weight_update_adds (g := g) (q := q) (w := w) (net.arrived d k)
        (NodeState.receive · (g.sessionId (g.opposite d)) (.nodeInfo info false))
        (adds_advertise s (g.sessionId (g.opposite d)) info) fun _ new hnew => hzero new hnew
      refine hle.trans ?_
      omega

/-! ### Floods of withdrawals -/

/-- While sessions are lost and none is established, the withdrawals in flight have paths that are
free of loops and shorter than the number of relays, each is passed on with a longer path, and their
deliveries are bounded in terms of the sessions that were lost. -/
theorem nodeWithdraw_flood (q : Quicr) (g : PeeringGraph ν δ) (start : Net ν δ NodeState)
    (hpeered : ∀ n, g.Peered n (start.nodes n).relay)
    (hquiet : ∀ d, ∀ msg ∈ start.sent g.toTopology (nodeProtocol q g) d,
      ∃ info, msg = .nodeInfo info false)
    (labels : List (Label ν δ NodeInput)) (hlosing : ∀ label ∈ labels, Losing label)
    (net : Net ν δ NodeState)
    (hrun : run g.toTopology (nodeProtocol q g) start labels = some net) :
    (∀ d k info, net.InFlight g.toTopology (nodeProtocol q g) d k (.nodeInfo info true) →
      LoopFree g d info ∧ info.path.length < Fintype.card ν ∧
      ∀ net', step g.toTopology (nodeProtocol q g) net (.deliver d k) = some net' →
        ∀ e, ∀ msg ∈ newOn q g net net' e, ∃ info', msg = .nodeInfo info' true ∧
          info'.id = info.id ∧ info.path.length < info'.path.length) ∧
    runCost g.toTopology (nodeProtocol q g) (withdrawDelivered q g) start labels ≤
      labels.countP isLost *
        (Fintype.card δ * floodSize (Fintype.card δ) (Fintype.card ν)) := by
  have hstart : NetDrains g start := by
    intro n
    refine ⟨hpeered n, fun d hd msg hmsg => ?_⟩
    subst hd
    obtain ⟨info, rfl⟩ := hquiet d msg hmsg
    trivial
  have hnet := netDrains_run hstart hlosing hrun
  refine ⟨fun d k info hflight => ?_, ?_⟩
  · have hfree : LoopFree g d info := hnet.mem_sent (List.mem_of_getElem? hflight.1)
    exact ⟨hfree, hfree.length_lt, fun net' hstep e msg hmsg =>
      longer_of_deliver hnet hflight hstep hmsg⟩
  · have hweight : start.weight g.toTopology (nodeProtocol q g)
        (withdrawWeight (Fintype.card δ) (Fintype.card ν)) = 0 := by
      apply Net.weight_eq_zero
      intro d msg hmsg
      obtain ⟨info, rfl⟩ := hquiet d msg hmsg
      rfl
    have hsteps : ∀ net label net', NetDrains g net → Losing label →
        step g.toTopology (nodeProtocol q g) net label = some net' → NetDrains g net' ∧
        withdrawDelivered q g net label + net'.weight g.toTopology (nodeProtocol q g)
            (withdrawWeight (Fintype.card δ) (Fintype.card ν)) ≤
          net.weight g.toTopology (nodeProtocol q g)
            (withdrawWeight (Fintype.card δ) (Fintype.card ν)) +
          if isLost label then Fintype.card δ * floodSize (Fintype.card δ) (Fintype.card ν)
          else 0 := fun net label net' hnet hlabel hstep =>
      ⟨netDrains_step hnet hlabel hstep, weight_step hnet hlabel hstep⟩
    have hcost := runCost_le hsteps hstart hlosing
    rw [hweight, Nat.zero_add, sum_gain] at hcost
    exact hcost

end Net

/-- The first relay loses its session to the second one, and the withdrawal goes around. -/
def triangleLoss : List (Label (Fin 3) (Fin 3 × Bool) NodeInput) :=
  [.input 0 (.lost 1), .deliver (0, false) 0, .deliver (2, true) 0]

theorem nodeWithdraw_flood_triangle : ∃ net,
    run triangle.toTopology (nodeProtocol .polynomial triangle)
      ⟨fun n => .up (triangleNode n), fun _ => []⟩ triangleLoss = some net ∧
    runCost triangle.toTopology (nodeProtocol .polynomial triangle)
      (withdrawDelivered .polynomial triangle) ⟨fun n => .up (triangleNode n), fun _ => []⟩
      triangleLoss = 2 ∧
    runCost triangle.toTopology (nodeProtocol .polynomial triangle)
      (withdrawDelivered .polynomial triangle) ⟨fun n => .up (triangleNode n), fun _ => []⟩
      triangleLoss ≤ triangleLoss.countP isLost * (6 * floodSize 6 3) := by
  have hsome : (run triangle.toTopology (nodeProtocol .polynomial triangle)
      ⟨fun n => .up (triangleNode n), fun _ => []⟩ triangleLoss).isSome = true := by
    decide +kernel
  obtain ⟨net, hrun⟩ := Option.isSome_iff_exists.mp hsome
  have hflood := nodeWithdraw_flood .polynomial triangle ⟨fun n => .up (triangleNode n), fun _ => []⟩
    peered_triangleNode
    (by
      intro d msg hmsg
      have hquiet : ∀ d, (nodeProtocol .polynomial triangle).sent d
          (.up (triangleNode (triangle.node d))) = [] := by decide +kernel
      rw [Net.sent, hquiet d] at hmsg
      cases hmsg)
    triangleLoss (by
      intro label hlabel
      simp only [triangleLoss, List.mem_cons, List.not_mem_nil, or_false] at hlabel
      rcases hlabel with rfl | rfl | rfl <;> trivial) net hrun
  exact ⟨net, hrun, by decide +kernel, hflood.2⟩

end Laps.Flood
