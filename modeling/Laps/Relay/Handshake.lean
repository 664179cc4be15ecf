import Laps.Relay.Spares

/-! The first messages on a session that a relay accepts.  It is to tell nothing before the CONNECT
has come, and then to answer that first.  But an accepted session is connected from its start, so
that what the relay tells all sessions goes to it too. -/

namespace Laps.Relay

open Std Client Peering

/-! ### Events -/

/-- `OnNewConnection`: the session is connected at once.  Its round trip time is what was in memory,
until it is sampled. -/
def newConnection (q : Quicr) (r : Relay) (id : PeerSessionId) (srttUs : UInt64) : Relay :=
  if r.serverPeerSessions.contains id then r
  else
    let session : PeerSession := { nodeId := r.nodeId, isInbound := true, srttUs }
    { r with serverPeerSessions := r.serverPeerSessions.insert id (session.connect q) }

/-- A CONNECT_RESPONSE with an error. -/
def connectErrorReceived (r : Relay) (id : PeerSessionId) : Relay :=
  (r.modifyPeerSession id fun session => { session with status := .connected }).infoBaseSyncPeer id

inductive SessionEvent where
  | newConnection (id : PeerSessionId) (srttUs : UInt64)
  | connectReceived (id : PeerSessionId) (info : NodeInfo)
  | connectResponseReceived (id : PeerSessionId) (info : NodeInfo)
  | connectErrorReceived (id : PeerSessionId)
  | nodeReceived (id : PeerSessionId) (info : NodeInfo) (withdraw : Bool)
  | snsReceived (id : PeerSessionId) (sns : SubscribeNodeSet) (withdraw : Bool) (updateRef : UInt64)
  | subscribeInfoReceived (id : PeerSessionId) (si : SubscribeInfo) (withdraw : Bool)
  | announceInfoReceived (id : PeerSessionId) (info : AnnounceInfo) (withdraw : Bool)
  | sessionLost (id : PeerSessionId)
  | client (call : ClientCall)
  | clientSubscribeUpdate (full : FullTrackName) (newGroupRequestId : Option UInt64)
  | statusError (conn : ConnectionHandle) (full : FullTrackName)
  /-- Whatever the sessions that this relay opens come to. -/
  | opened (sessions : ExtTreeMap PeerSessionId PeerSession)

/-- A relay, with the sessions that it has accepted and not had a CONNECT from. -/
structure Accepting where
  relay : Relay
  waiting : ExtTreeSet PeerSessionId := ∅

namespace Accepting

def Waits (s : Accepting) (id : PeerSessionId) : Prop := s.waiting.contains id = true

/-- Those that wait, but for one. -/
def WaitsBut (s : Accepting) (id id' : PeerSessionId) : Prop := s.Waits id' ∧ id' ≠ id

/-- `none` where the behaviour of the source is undefined. -/
def event (q : Quicr) (s : Accepting) : SessionEvent → Option Accepting
  | .newConnection id srttUs =>
    if s.relay.serverPeerSessions.contains id then some s
    else some ⟨s.relay.newConnection q id srttUs, s.waiting.insert id⟩
  | .connectReceived id info =>
    (s.relay.connectReceived id info).map (⟨·, s.waiting.erase id⟩)
  | .connectResponseReceived id info =>
    (s.relay.connectResponseReceived id info).map (⟨·, s.waiting⟩)
  | .connectErrorReceived id => some ⟨s.relay.connectErrorReceived id, s.waiting⟩
  | .nodeReceived id info withdraw =>
    (s.relay.nodeReceived id info withdraw).map (⟨·, s.waiting⟩)
  | .snsReceived id sns withdraw updateRef =>
    (s.relay.snsReceived q id sns withdraw updateRef).map (⟨·, s.waiting⟩)
  | .subscribeInfoReceived id si withdraw =>
    some ⟨s.relay.subscribeInfoReceived q id si withdraw, s.waiting⟩
  | .announceInfoReceived id info withdraw =>
    some ⟨s.relay.announceInfoReceived q id info withdraw, s.waiting⟩
  | .sessionLost id => (s.relay.sessionLost q id).map (⟨·, s.waiting.erase id⟩)
  | .client call => some ⟨s.relay.call q call, s.waiting⟩
  | .clientSubscribeUpdate full newGroupRequestId =>
    some ⟨s.relay.clientSubscribeUpdate q full newGroupRequestId, s.waiting⟩
  | .statusError conn full => some ⟨s.relay.statusError q conn full, s.waiting⟩
  | .opened sessions => some ⟨{ s.relay with clientPeerSessions := sessions }, s.waiting⟩

/-- On every session that was accepted the first message is the CONNECT_RESPONSE, and there is none
before the CONNECT. -/
def HandshakeOrder (s : Accepting) : Prop :=
  ∀ id session, s.relay.serverPeerSessions[id]? = some session →
    (∀ msg, session.enqueued.head? = some msg → ∃ info, msg = .connectResponse info) ∧
      (s.Waits id → session.enqueued = [])

/-! ### Events that tell sessions that wait nothing -/

def SparesWaiting (q : Quicr) (s : Accepting) : SessionEvent → Prop
  | .newConnection _ _ | .statusError _ _ | .opened _ => True
  | .connectReceived id info => NodeQuietly (s.WaitsBut id) s.relay id info false
  | .connectResponseReceived id info =>
    NodeQuietly (s.WaitsBut id) s.relay id info false ∧
      ∀ session, s.Waits id → s.relay.serverPeerSessions[id]? = some session →
        SyncsNone s.relay id { session with remoteNodeInfo := info }
  | .connectErrorReceived id =>
    ∀ session, s.Waits id → s.relay.serverPeerSessions[id]? = some session →
      SyncsNone s.relay id session
  | .nodeReceived id info withdraw => NodeQuietly s.Waits s.relay id info withdraw
  | .snsReceived _ sns withdraw _ =>
    withdraw = false → ∀ node ∈ sns.nodes, node ≠ s.relay.nodeId → ∀ best,
      s.relay.infoBase.nodesBest[node]? = some best → ¬s.Waits best
  | .subscribeInfoReceived id si withdraw =>
    (s.relay.getPeerSession id).isSome = true →
      SubscribeInfoQuietly s.Waits q s.relay id si withdraw
  | .announceInfoReceived id info withdraw =>
    (s.relay.getPeerSession id).isSome = true →
      (s.relay.updateAnnounces q info withdraw).2 = true →
        AnnounceInfoQuietly s.Waits q s.relay id info withdraw
  | .sessionLost id =>
    ∀ session, s.relay.getPeerSession id = some session →
      LostQuietly (s.WaitsBut id) s.relay session.remoteNodeInfo
  | .client call => (∃ id, s.Waits id) → CallsQuietly q s.relay call
  | .clientSubscribeUpdate full _ =>
    (∃ id, s.Waits id) → ∀ si,
      s.relay.infoBase.subscribes.get₂? (q.trackHash full).trackFullnameHash s.relay.nodeId =
        some si → q.parseSubscribe si.subscribeData = none

/-- A session that waits has no messages and no node sets, and one that does not has answered. -/
def Ordered (s : Accepting) : Prop :=
  ∀ id session, s.relay.serverPeerSessions[id]? = some session →
    (s.Waits id → session.enqueued = [] ∧ session.subSns = ∅ ∧ session.peerSns = ∅) ∧
      (¬s.Waits id → ∃ info rest, session.enqueued = .connectResponse info :: rest)

section Ordered

variable {q : Quicr} {s s' : Accepting}

theorem Ordered.handshakeOrder (h : Ordered s) : HandshakeOrder s := by
  intro id session hget
  obtain ⟨hwaits, hanswered⟩ := h id session hget
  by_cases hW : s.Waits id
  · obtain ⟨hnil, -⟩ := hwaits hW
    refine ⟨fun msg hmsg => ?_, fun _ => hnil⟩
    rw [hnil] at hmsg
    cases hmsg
  · obtain ⟨info, rest, heq⟩ := hanswered hW
    refine ⟨fun msg hmsg => ⟨info, ?_⟩, fun hW' => absurd hW' hW⟩
    rw [heq] at hmsg
    exact (Option.some.inj hmsg).symm

theorem Ordered.blank (h : Ordered s) : Blank s.Waits s.relay :=
  fun id session hW hget => ((h id session hget).1 hW).2

/-- What follows the answer on a session leaves it first. -/
theorem answered_of_prefix {session session' : PeerSession}
    (h : ∃ info rest, session.enqueued = .connectResponse info :: rest)
    (hle : session.enqueued <+: session'.enqueued) :
    ∃ info rest, session'.enqueued = .connectResponse info :: rest := by
  obtain ⟨info, rest, hold⟩ := h
  obtain ⟨more, hmore⟩ := hle
  rw [hold, List.cons_append] at hmore
  exact ⟨info, rest ++ more, hmore.symm⟩

theorem Ordered.answered (h : Ordered s) {W : PeerSessionId → Prop} {r : Relay}
    (hspares : Spares W s.relay r) {id : PeerSessionId} (hW : ¬s.Waits id)
    {session' : PeerSession} (hget' : r.serverPeerSessions[id]? = some session') :
    ∃ info rest, session'.enqueued = .connectResponse info :: rest := by
  obtain ⟨session, hget, hle, -⟩ := hspares id session' hget'
  exact answered_of_prefix ((h id session hget).2 hW) hle

/-- The sessions that wait are left alone. -/
theorem Ordered.of_spares (h : Ordered s) {r : Relay} (hspares : Spares s.Waits s.relay r) :
    Ordered ⟨r, s.waiting⟩ := by
  intro id session' hget'
  refine ⟨fun hW => ?_, fun hW => h.answered hspares hW hget'⟩
  obtain ⟨session, hget, -, heq⟩ := hspares id session' hget'
  rw [heq hW]
  exact (h id session hget).1 hW

/-- The sessions that wait are left alone but for one. -/
theorem Ordered.of_sparesBut (h : Ordered s) (id : PeerSessionId) {r : Relay}
    {waiting : ExtTreeSet PeerSessionId}
    (hspares : ∀ id' session', id' ≠ id → r.serverPeerSessions[id']? = some session' →
      ∃ session, s.relay.serverPeerSessions[id']? = some session ∧
        session.enqueued <+: session'.enqueued ∧ (s.WaitsBut id id' → session' = session))
    (hwaiting : ∀ id', id' ≠ id → waiting.contains id' = s.waiting.contains id')
    (hid : ∀ session', r.serverPeerSessions[id]? = some session' →
      (waiting.contains id = true →
        session'.enqueued = [] ∧ session'.subSns = ∅ ∧ session'.peerSns = ∅) ∧
      (¬waiting.contains id = true →
        ∃ info rest, session'.enqueued = .connectResponse info :: rest)) :
    Ordered ⟨r, waiting⟩ := by
  intro id' session' hget'
  by_cases heq : id' = id
  · subst heq
    exact hid session' hget'
  · obtain ⟨session, hget, hle, hsame⟩ := hspares id' session' heq hget'
    obtain ⟨hwaits, hanswered⟩ := h id' session hget
    unfold Waits at hwaits hanswered ⊢
    dsimp only
    rw [hwaiting id' heq]
    constructor
    · intro hW
      rw [hsame ⟨hW, heq⟩]
      exact hwaits hW
    · intro hW
      exact answered_of_prefix (hanswered hW) hle

theorem Ordered.newConnection (h : Ordered s) {id : PeerSessionId}
    (hnew : s.relay.serverPeerSessions.contains id = false) (srttUs : UInt64) :
    Ordered ⟨s.relay.newConnection q id srttUs, s.waiting.insert id⟩ := by
  set session : PeerSession := { nodeId := s.relay.nodeId, isInbound := true, srttUs } with hsession
  have hserver : (s.relay.newConnection q id srttUs).serverPeerSessions =
      s.relay.serverPeerSessions.insert id (session.connect q) := by
    unfold Relay.newConnection
    rw [if_neg (by rw [hnew]; exact Bool.false_ne_true)]
  refine h.of_sparesBut id ?_ ?_ ?_
  · intro id' session' hne hget'
    rw [hserver, ExtTreeMap.getElem?_insert_ite, if_neg hne] at hget'
    exact ⟨session', hget', List.prefix_rfl, fun _ => rfl⟩
  · intro id' hne
    rw [ExtTreeSet.contains_insert]
    simp [Ne.symm hne]
  · intro session' hget'
    rw [hserver, ExtTreeMap.getElem?_insert_self] at hget'
    cases hget'
    refine ⟨fun _ => ⟨rfl, rfl, rfl⟩, fun hnot => absurd ?_ hnot⟩
    simp

/-- The CONNECT is answered, and then the session is told what the relay knows. -/
theorem Ordered.connectReceived (h : Ordered s) {id : PeerSessionId} {info : NodeInfo} {r' : Relay}
    (hquiet : NodeQuietly (s.WaitsBut id) s.relay id info false)
    (hevent : s.relay.connectReceived id info = some r') : Ordered ⟨r', s.waiting.erase id⟩ := by
  unfold Relay.connectReceived at hevent
  rw [Option.bind_eq_bind, Option.bind_eq_some_iff] at hevent
  obtain ⟨r₂, hnode, hevent⟩ := hevent
  cases hevent
  set r₁ := s.relay.modifyPeerSession id fun session =>
    { session with remoteNodeInfo := info, status := .connected } with hr₁
  set r₃ := r₂.modifyPeerSession id fun session => session.sendConnectOk r₂.nodeInfo with hr₃
  have hself : ¬s.WaitsBut id id := fun hW => hW.2 rfl
  have hnodes : Spares (fun id' => s.WaitsBut id id' ∨ id' = id) r₁ r₂ :=
    spares_nodeReceived (hquiet.of_modify fun _ => ⟨rfl, rfl⟩) hnode
  have hsync : Spares (s.WaitsBut id) r₃ (r₃.infoBaseSyncPeer id) :=
    spares_infoBaseSyncPeer hself r₃
  have hlearned : Spares (s.WaitsBut id) s.relay r₁ :=
    spares_modifyPeerSession hself (by exact fun _ => List.prefix_rfl) s.relay
  have hanswer : Spares (s.WaitsBut id) r₂ r₃ :=
    spares_modifyPeerSession hself (fun session => prefix_enqueue session _) r₂
  have hspares : Spares (s.WaitsBut id) s.relay (r₃.infoBaseSyncPeer id) :=
    ((hlearned.trans (hnodes.mono fun id' hW => .inl hW)).trans hanswer).trans hsync
  refine h.of_sparesBut id (fun id' session' _ hget' => hspares id' session' hget') ?_ ?_
  · intro id' hne
    rw [ExtTreeSet.contains_erase]
    simp [Ne.symm hne]
  · intro session' hget'
    refine ⟨fun hwaits => ?_, fun _ => ?_⟩
    · simp at hwaits
    · by_cases hW : s.Waits id
      · obtain ⟨session₃, hget₃, hle, -⟩ := hsync id session' hget'
        rw [hr₃, server_modifyPeerSession, if_pos rfl] at hget₃
        obtain ⟨session₂, hget₂, rfl⟩ := Option.map_eq_some_iff.mp hget₃
        obtain ⟨session₁, hget₁, -, heq⟩ := hnodes id session₂ hget₂
        rw [hr₁, server_modifyPeerSession, if_pos rfl] at hget₁
        obtain ⟨session, hget, rfl⟩ := Option.map_eq_some_iff.mp hget₁
        -- Nothing was sent before the answer.
        have hnil : session₂.enqueued = [] := by
          rw [heq (.inr rfl)]
          exact ((h id session hget).1 hW).1
        have hanswered : (session₂.sendConnectOk r₂.nodeInfo).enqueued =
            [.connectResponse r₂.nodeInfo] := by
          change session₂.enqueued ++ [.connectResponse r₂.nodeInfo] = _
          rw [hnil, List.nil_append]
        exact answered_of_prefix ⟨_, _, hanswered⟩ hle
      · exact h.answered hspares hW hget'

/-- What ends both kinds of CONNECT_RESPONSE spares the others. -/
theorem spares_connected {W : PeerSessionId → Prop} {id : PeerSessionId} (hself : ¬W id)
    (r : Relay) : Spares W r
      ((r.modifyPeerSession id fun session => { session with status := .connected }).infoBaseSyncPeer
        id) := by
  have hstatus : Spares W r
      (r.modifyPeerSession id fun session => { session with status := .connected }) :=
    spares_modifyPeerSession hself (by exact fun _ => List.prefix_rfl) r
  exact hstatus.trans (spares_infoBaseSyncPeer hself _)

/-- It changes the status alone when the relay has nothing to tell. -/
theorem server_connected {r : Relay} {id : PeerSessionId} {session' : PeerSession}
    (hnone : ∀ session, r.serverPeerSessions[id]? = some session → SyncsNone r id session)
    (hget' : ((r.modifyPeerSession id fun session =>
      { session with status := .connected }).infoBaseSyncPeer id).serverPeerSessions[id]? =
        some session') :
    ∃ session, r.serverPeerSessions[id]? = some session ∧
      session' = { session with status := .connected } := by
  set r₁ := r.modifyPeerSession id fun session => { session with status := .connected } with hr₁
  have hsync : Spares (fun _ => False) r₁ (r₁.infoBaseSyncPeer id) :=
    spares_infoBaseSyncPeer not_false r₁
  obtain ⟨session₁, hget₁, -⟩ := hsync id session' hget'
  have hmodified := hget₁
  rw [hr₁, server_modifyPeerSession, if_pos rfl] at hmodified
  obtain ⟨session, hget, rfl⟩ := Option.map_eq_some_iff.mp hmodified
  have hnone₁ : SyncsNone r₁ id { session with status := .connected } :=
    (hnone session hget).congr (modifyPeerSession_rest _ _ _).2 rfl rfl
  exact ⟨session, hget, (hnone₁.synced hget₁ hget').1⟩

/-- A CONNECT_RESPONSE on a session that waits, at a relay that has nothing to tell it. -/
theorem Ordered.connectResponseReceived (h : Ordered s) {id : PeerSessionId} {info : NodeInfo}
    {r' : Relay} (hquiet : NodeQuietly (s.WaitsBut id) s.relay id info false)
    (hnone : ∀ session, s.Waits id → s.relay.serverPeerSessions[id]? = some session →
      SyncsNone s.relay id { session with remoteNodeInfo := info })
    (hevent : s.relay.connectResponseReceived id info = some r') : Ordered ⟨r', s.waiting⟩ := by
  unfold Relay.connectResponseReceived at hevent
  rw [Option.bind_eq_bind, Option.bind_eq_some_iff] at hevent
  obtain ⟨r₂, hnode, hevent⟩ := hevent
  cases hevent
  set r₁ := s.relay.modifyPeerSession id fun session => { session with remoteNodeInfo := info }
    with hr₁
  set r₃ := r₂.infoBaseSyncPeer id with hr₃
  have hself : ¬s.WaitsBut id id := fun hW => hW.2 rfl
  have hnodes : Spares (fun id' => s.WaitsBut id id' ∨ id' = id) r₁ r₂ :=
    spares_nodeReceived (hquiet.of_modify fun _ => ⟨rfl, rfl⟩) hnode
  have hlearned : Spares (s.WaitsBut id) s.relay r₁ :=
    spares_modifyPeerSession hself (by exact fun _ => List.prefix_rfl) s.relay
  have hsync : Spares (s.WaitsBut id) r₂ r₃ := spares_infoBaseSyncPeer hself r₂
  have hspares := ((hlearned.trans (hnodes.mono fun id' hW => .inl hW)).trans hsync).trans
    (spares_connected hself r₃)
  refine h.of_sparesBut id (fun id' session' _ hget' => hspares id' session' hget')
    (fun _ _ => rfl) ?_
  intro session' hget'
  refine ⟨fun hW => ?_, fun hW => h.answered hspares hW hget'⟩
  -- The relay has nothing to tell, before its own change of the session and after it.
  have hthird : ∀ session₃, r₃.serverPeerSessions[id]? = some session₃ →
      SyncsNone r₃ id session₃ ∧ ∃ session, s.relay.serverPeerSessions[id]? = some session ∧
        session₃ = { session with remoteNodeInfo := info } := by
    intro session₃ hget₃
    obtain ⟨session₂, hget₂, -⟩ := hsync id session₃ hget₃
    obtain ⟨session₁, hget₁, -, heq⟩ := hnodes id session₂ hget₂
    obtain rfl := heq (.inr rfl)
    rw [hr₁, server_modifyPeerSession, if_pos rfl] at hget₁
    obtain ⟨session, hget, rfl⟩ := Option.map_eq_some_iff.mp hget₁
    have hnone₁ : SyncsNone r₁ id { session with remoteNodeInfo := info } :=
      (hnone session hW hget).congr (modifyPeerSession_rest _ _ _).2 rfl rfl
    obtain ⟨rfl, hinfo⟩ := (hnone₁.of_nodeReceived hnode).synced hget₂ hget₃
    exact ⟨(hnone₁.of_nodeReceived hnode).congr hinfo rfl rfl, session, hget, rfl⟩
  obtain ⟨session₃, hget₃, rfl⟩ := server_connected (fun _ hget => (hthird _ hget).1) hget'
  obtain ⟨-, session, hget, rfl⟩ := hthird session₃ hget₃
  exact (h id session hget).1 hW

theorem Ordered.connectErrorReceived (h : Ordered s) {id : PeerSessionId}
    (hnone : ∀ session, s.Waits id → s.relay.serverPeerSessions[id]? = some session →
      SyncsNone s.relay id session) :
    Ordered ⟨s.relay.connectErrorReceived id, s.waiting⟩ := by
  have hspares := spares_connected (W := s.WaitsBut id) (fun hW => hW.2 rfl) s.relay
  refine h.of_sparesBut id (fun id' session' _ hget' => hspares id' session' hget')
    (fun _ _ => rfl) ?_
  intro session' hget'
  refine ⟨fun hW => ?_, fun hW => h.answered hspares hW hget'⟩
  obtain ⟨session, hget, rfl⟩ := server_connected (fun session => hnone session hW) hget'
  exact (h id session hget).1 hW

theorem Ordered.sessionLost (h : Ordered s) {id : PeerSessionId} {r' : Relay}
    (hquiet : ∀ session, s.relay.getPeerSession id = some session →
      LostQuietly (s.WaitsBut id) s.relay session.remoteNodeInfo)
    (hevent : s.relay.sessionLost q id = some r') : Ordered ⟨r', s.waiting.erase id⟩ := by
  obtain ⟨hspares, hgone⟩ := spares_sessionLost hquiet hevent
  refine h.of_sparesBut id (fun id' session' _ hget' => hspares id' session' hget') ?_ ?_
  · intro id' hne
    rw [ExtTreeSet.contains_erase]
    simp [Ne.symm hne]
  · intro session' hget'
    cases hgone.symm.trans hget'

/-- An event that spares the sessions that wait. -/
theorem Ordered.event (h : Ordered s) {e : SessionEvent} (hspares : SparesWaiting q s e)
    (hevent : s.event q e = some s') : Ordered s' := by
  cases e with
  | newConnection id srttUs =>
    unfold Accepting.event at hevent
    dsimp only at hevent
    split at hevent
    · cases hevent
      exact h
    · rename_i hnew
      cases hevent
      exact h.newConnection (Bool.eq_false_iff.mpr hnew) srttUs
  | connectReceived id info =>
    obtain ⟨r', hr', rfl⟩ := Option.map_eq_some_iff.mp hevent
    exact h.connectReceived hspares hr'
  | connectResponseReceived id info =>
    obtain ⟨r', hr', rfl⟩ := Option.map_eq_some_iff.mp hevent
    exact h.connectResponseReceived hspares.1 hspares.2 hr'
  | connectErrorReceived id =>
    cases hevent
    exact h.connectErrorReceived hspares
  | nodeReceived id info withdraw =>
    obtain ⟨r', hr', rfl⟩ := Option.map_eq_some_iff.mp hevent
    exact h.of_spares (spares_nodeReceived hspares hr')
  | snsReceived id sns withdraw updateRef =>
    obtain ⟨r', hr', rfl⟩ := Option.map_eq_some_iff.mp hevent
    exact h.of_spares (spares_snsReceived h.blank hspares hr')
  | subscribeInfoReceived id si withdraw =>
    cases hevent
    exact h.of_spares (spares_subscribeInfoReceived h.blank hspares)
  | announceInfoReceived id info withdraw =>
    cases hevent
    exact h.of_spares (spares_announceInfoReceived hspares)
  | sessionLost id =>
    obtain ⟨r', hr', rfl⟩ := Option.map_eq_some_iff.mp hevent
    exact h.sessionLost hspares hr'
  | client call =>
    cases hevent
    exact h.of_spares (spares_call hspares)
  | clientSubscribeUpdate full newGroupRequestId =>
    cases hevent
    exact h.of_spares (spares_clientSubscribeUpdate hspares)
  | statusError conn full =>
    cases hevent
    exact h.of_spares (.of_eq rfl)
  | opened sessions =>
    cases hevent
    exact h.of_spares (.of_eq rfl)

/-- In every state of a run whose events spare the sessions that wait, the first message of every
session that was accepted is the CONNECT_RESPONSE, and there is none before the CONNECT. -/
theorem handshakeOrder_events (q : Quicr) (r : Relay) (hnew : r.serverPeerSessions = ∅)
    (events : List SessionEvent) (hspares : Runs.All (event q) (SparesWaiting q) ⟨r, ∅⟩ events) :
    ∀ before, before <+: events → ∀ s, before.foldlM (event q) ⟨r, ∅⟩ = some s →
      HandshakeOrder s := by
  intro before hbefore s hrun
  have hstart : Ordered ⟨r, ∅⟩ := by
    intro id session hget
    change r.serverPeerSessions[id]? = some session at hget
    rw [hnew] at hget
    simp at hget
  have hordered : Ordered s :=
    hspares.reached (fun _ _ _ h hclean hevent => h.event hclean hevent) hstart hbefore hrun
  exact hordered.handshakeOrder

/-- A relay accepts a session, a client subscribes to a namespace, the CONNECT comes, and only then
another client publishes a track. -/
def connectBeforePublish : List SessionEvent :=
  [.newConnection 5 0, .client (.subscribeNamespaceReceived 7 [[1]]),
   .connectReceived 5 { id := 2 }, .client (.publishReceived 8 5 ⟨[[1]], [2]⟩)]

theorem sparesWaiting_connectBeforePublish :
    Runs.All (event .polynomial) (SparesWaiting .polynomial) ⟨({ nodeId := 1 } : Relay), ∅⟩
      connectBeforePublish := by
  refine Runs.all_of_take fun k e hk s hs => ?_
  match k, hk with
  | 0, hk =>
    cases hk
    trivial
  | 1, hk =>
    cases hk
    exact fun _ => trivial
  | 2, hk =>
    cases hk
    -- The session is the only one that waits.
    intro session _ infoBase _ id session' hW
    cases hs
    refine absurd hW fun hwaits => hwaits.2 (Eq.symm ?_)
    simpa [Waits] using hwaits.1
  | 3, hk =>
    cases hk
    intro hwaits
    have hnone : ((connectBeforePublish.take 3).foldlM (event .polynomial)
        ⟨({ nodeId := 1 } : Relay), ∅⟩).all (fun s => s.waiting.isEmpty) = true := by
      decide +kernel
    rw [hs, Option.all_some] at hnone
    obtain ⟨id, hid⟩ := hwaits
    unfold Waits at hid
    rw [ExtTreeSet.isEmpty_iff.mp hnone] at hid
    simp at hid

theorem handshakeOrder_connectBeforePublish :
    Runs.All (event .polynomial) (SparesWaiting .polynomial) ⟨({ nodeId := 1 } : Relay), ∅⟩
      connectBeforePublish ∧
    ∀ before, before <+: connectBeforePublish → ∀ s,
      before.foldlM (event .polynomial) ⟨({ nodeId := 1 } : Relay), ∅⟩ = some s →
        HandshakeOrder s :=
  ⟨sparesWaiting_connectBeforePublish, handshakeOrder_events .polynomial { nodeId := 1 } rfl
    connectBeforePublish sparesWaiting_connectBeforePublish⟩

/-- A client subscribes before the CONNECT has come, and the new session is told. -/
theorem not_handshakeOrder :
    ¬∀ (events : List SessionEvent) (s : Accepting),
      events.foldlM (event .polynomial) ⟨({ nodeId := 1 } : Relay), ∅⟩ = some s →
        HandshakeOrder s := by
  intro hclaim
  have htold : (([.newConnection 5 0, .client (.subscribeReceived 7 1 ⟨[[1]], [2]⟩ {})] :
      List SessionEvent).foldlM (event .polynomial) ⟨({ nodeId := 1 } : Relay), ∅⟩).any (fun s =>
        s.waiting.contains 5 &&
          (s.relay.serverPeerSessions[(5 : PeerSessionId)]?).any fun session =>
            !session.enqueued.isEmpty) = true := by
    decide +kernel
  obtain ⟨s, hrun, htold⟩ := (Option.any_eq_true _ _).mp htold
  obtain ⟨hwaits, hsession⟩ := Bool.and_eq_true_iff.mp htold
  obtain ⟨session, hget, hsome⟩ := (Option.any_eq_true _ _).mp hsession
  rw [(hclaim _ s hrun 5 session hget).2 hwaits] at hsome
  cases hsome

end Ordered

end Accepting

end Laps.Relay
