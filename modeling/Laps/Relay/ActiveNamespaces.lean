import Laps.Lib.Runs
import Laps.Relay.Closes

/-! The namespaces that are active: those that connections have announced and not ended.  The report
of an error on a track looks its whole namespace up, and leaves it active. -/

namespace Laps.Relay

open Std Client Peering

/-! ### The status of a handler -/

inductive TrackStatus where
  | ok
  | notConnected
  | error
  | notAuthorized
  | notSubscribed
  | pendingResponse
  | sendingUnsubscribe
  | paused
  | newGroupRequested
  | doneByFin
  | doneByReset
  deriving DecidableEq, Repr

/-- `SubscribeTrackHandler::StatusChanged`, on the handler of a track at a publisher.  A handler may
have no alias yet. -/
def statusChanged (r : Relay) (conn : ConnectionHandle) (full : FullTrackName)
    (trackAlias : Option UInt64) : TrackStatus → Relay
  | .error =>
    match trackAlias with
    | none => r
    | some trackAlias =>
      let annoTracks := r.state.pubNamespaceActive.getD (full.nameSpace, conn) ∅
      r.mapState fun st =>
        { st with
          pubNamespaceActive := st.pubNamespaceActive.insert (full.nameSpace, conn)
            (annoTracks.erase trackAlias)
          pubSubscribes := st.pubSubscribes.erase (trackAlias, conn) }
  | _ => r

/-- An error on a handler whose alias is the hash of its track. -/
theorem statusError_eq (q : Quicr) (r : Relay) (conn : ConnectionHandle) (full : FullTrackName) :
    r.statusError q conn full =
      r.statusChanged conn full (some (q.trackHash full).trackFullnameHash) .error := rfl

/-! ### Which namespaces are active after an operation -/

/-- No handler is found by the request that the publishes of peers have. -/
def NoPeerRequest (r : Relay) : Prop :=
  r.state.pubSubscribesByReqId[((0, 0) : RequestId × ConnectionHandle)]? = none

/-- The requests of publishers are the same, and the same namespaces are active. -/
structure KeepsActive (r r' : Relay) : Prop where
  requests : r'.state.requests = r.state.requests
  active : ∀ key, r'.state.pubNamespaceActive.contains key = r.state.pubNamespaceActive.contains key
  peer : r.NoPeerRequest → r'.NoPeerRequest

section KeepsActive

variable {q : Quicr} {r r₁ r₂ r₃ : Relay}

theorem KeepsActive.refl (r : Relay) : KeepsActive r r := ⟨rfl, fun _ => rfl, id⟩

theorem KeepsActive.trans (h : KeepsActive r₁ r₂) (h' : KeepsActive r₂ r₃) : KeepsActive r₁ r₃ :=
  ⟨h'.requests.trans h.requests, fun key => (h'.active key).trans (h.active key), h'.peer ∘ h.peer⟩

theorem KeepsRequests.keepsActive (h : KeepsRequests r₁ r₂) : KeepsActive r₁ r₂ :=
  ⟨h.requests, fun key => by rw [h.pubNamespaceActive], fun hpeer => by
    rwa [NoPeerRequest, h.pubSubscribesByReqId]⟩

theorem KeepsActive.of_state (h : r₂.state = r₁.state) : KeepsActive r₁ r₂ :=
  ⟨by rw [h], fun key => by rw [h], fun hpeer => by rwa [NoPeerRequest, h]⟩

theorem keepsActive_mapState {f : State → State}
    (hrequests : (f r.state).requests = r.state.requests)
    (hactive : (f r.state).pubNamespaceActive = r.state.pubNamespaceActive)
    (hpeer : (f r.state).pubSubscribesByReqId = r.state.pubSubscribesByReqId) :
    KeepsActive r (r.mapState f) :=
  ⟨hrequests, fun key => congrArg (ExtTreeMap.contains · key) hactive,
    fun h => (congrArg (·[((0, 0) : RequestId × ConnectionHandle)]?) hpeer).trans h⟩

/-- A request that is not a peer's. -/
theorem noPeerRequest_insert {m : ExtTreeMap (RequestId × ConnectionHandle) (Nat × FullTrackName)
    compare} (h : m[((0, 0) : RequestId × ConnectionHandle)]? = none)
    {key : RequestId × ConnectionHandle} (hne : key ≠ (0, 0)) (entry : Nat × FullTrackName) :
    (m.insert key entry)[((0, 0) : RequestId × ConnectionHandle)]? = none := by
  rw [ExtTreeMap.getElem?_insert_ite, if_neg (Ne.symm hne), h]

theorem contains_insert_active {m : ExtTreeMap (TrackNamespace × ConnectionHandle)
    (ExtTreeSet UInt64) compare} {key : TrackNamespace × ConnectionHandle}
    (h : m.contains key = true) (tracks : ExtTreeSet UInt64)
    (key' : TrackNamespace × ConnectionHandle) :
    (m.insert key tracks).contains key' = m.contains key' := by
  rw [ExtTreeMap.contains_insert]
  by_cases heq : key = key'
  · subst heq
    simp [h]
  · simp [heq]

/-- A loop over active namespaces. -/
theorem keepsActive_foldl {β : Type*} {f : Relay → β → Relay}
    (key : β → TrackNamespace × ConnectionHandle)
    (hf : ∀ r x, r.state.pubNamespaceActive.contains (key x) = true → KeepsActive r (f r x))
    (l : List β) (r : Relay) (hl : ∀ x ∈ l, r.state.pubNamespaceActive.contains (key x) = true) :
    KeepsActive r (l.foldl f r) := by
  induction l generalizing r with
  | nil => exact .refl r
  | cons x l ih =>
    have hstep : KeepsActive r (f r x) := hf r x (hl x List.mem_cons_self)
    refine hstep.trans (ih (f r x) fun y hy => ?_)
    rw [hstep.active]
    exact hl y (List.mem_cons_of_mem x hy)

theorem keepsActive_subscribeToAnnouncer (hash : UInt64) (full : FullTrackName)
    (conn : ConnectionHandle) (s : Subscriber) (r : Relay)
    (entry : (TrackNamespace × ConnectionHandle) × ExtTreeSet UInt64)
    (hactive : r.state.pubNamespaceActive.contains entry.1 = true) :
    KeepsActive r (subscribeToAnnouncer q hash full conn s r entry) := by
  unfold subscribeToAnnouncer
  dsimp only
  split
  · exact .refl r
  · split
    · exact .refl r
    · refine ⟨rfl, contains_insert_active hactive _, fun h => noPeerRequest_insert h ?_ _⟩
      rename_i hskip _
      intro heq
      obtain ⟨-, hzero⟩ := Prod.mk.inj heq
      simp [hzero] at hskip

theorem keepsActive_processSubscribe (r : Relay) (conn : ConnectionHandle) (req : RequestId)
    (th : TrackHash) (full : FullTrackName) (attrs : SubscribeAttributes) :
    KeepsActive r (r.processSubscribe q conn req th full attrs) := by
  have hrecord : KeepsActive r
      (if conn = 0 ∧ req = 0 then r else r.recordSubscribe q conn req th full attrs) := by
    split
    · exact .refl r
    · unfold recordSubscribe
      refine KeepsActive.trans ?_ (.of_state (state_clientSubscribe ..))
      exact keepsActive_mapState rfl rfl rfl
  unfold processSubscribe
  refine hrecord.trans ?_
  generalize (if conn = 0 ∧ req = 0 then r else r.recordSubscribe q conn req th full attrs) = r₁
  have hadd : KeepsActive r₁ (r₁.addToHandlers th.trackFullnameHash conn
      ⟨req, attrs.priority, attrs.deliveryTimeout, attrs.startLocation⟩) :=
    keepsActive_mapState rfl rfl rfl
  refine hadd.trans (keepsActive_foldl Prod.fst
    (keepsActive_subscribeToAnnouncer th.trackFullnameHash full conn _) _ _ fun entry hentry => ?_)
  have hget := ExtTreeMap.mem_toList_iff_getElem?_eq_some.mp hentry
  show r₁.state.pubNamespaceActive.contains entry.1 = true
  rw [← ExtTreeMap.isSome_getElem?_eq_contains]
  exact Option.isSome_of_eq_some hget

theorem keepsActive_matchSubscribe (full : FullTrackName) (r : Relay) (si : SubscribeInfo) :
    KeepsActive r (r.matchSubscribe q full si) := by
  unfold matchSubscribe
  split
  · exact .refl r
  · split
    · exact .refl r
    · split
      · exact .refl r
      · have hprocess := fun th full attrs =>
          keepsActive_processSubscribe (q := q) r 0 0 th full attrs
        dsimp only
        split
        · exact hprocess ..
        · exact (hprocess ..).trans (.of_state (state_forwardToNode ..))

theorem keepsActive_clientAnnounce (r : Relay) (full : FullTrackName)
    (withdraw publishNamespace : Bool) :
    KeepsActive r (r.clientAnnounce q full withdraw publishNamespace) := by
  have hsend : KeepsActive r
      ((r.updateAnnounces q (r.announceInfo q full publishNamespace) withdraw).1.sendAnnounceInfos
        (fun _ => false) (r.announceInfo q full publishNamespace) withdraw) := .of_state rfl
  unfold clientAnnounce
  dsimp only
  split
  · exact hsend
  · refine hsend.trans (foldl_related .refl .trans (fun r' entry => ?_) _ _)
    split
    · exact .refl r'
    · exact keepsActive_matchSubscribe full r' entry.2

theorem keepsActive_subscribeToPublisher (nameSpace : TrackNamespace) (conn : ConnectionHandle)
    (r : Relay) (entry : (TrackNamespace × UInt64) ×
      ExtTreeMap (ConnectionHandle × RequestId) State.SubscribeInfo)
    (hactive : r.state.pubNamespaceActive.contains (nameSpace, conn) = true) :
    KeepsActive r (subscribeToPublisher q nameSpace conn r entry) := by
  unfold subscribeToPublisher
  split
  · exact .refl r
  · split
    · exact .refl r
    · dsimp only
      split
      · exact .refl r
      · split
        · exact ⟨rfl, contains_insert_active hactive _, id⟩
        · exact ⟨rfl, contains_insert_active hactive _, id⟩

theorem keepsActive_publishReceived (r : Relay) (conn : ConnectionHandle) (req : RequestId)
    (full : FullTrackName) : KeepsActive r (r.publishReceived q conn req full) := by
  unfold publishReceived
  dsimp only
  split
  · exact ⟨rfl, fun _ => rfl, id⟩
  · rename_i hclient
    refine KeepsActive.trans ?_ (keepsActive_mapState rfl rfl rfl)
    refine KeepsActive.trans ?_ (keepsActive_clientAnnounce _ full false false)
    refine ⟨rfl, fun _ => rfl, fun h => noPeerRequest_insert h ?_ _⟩
    intro heq
    obtain ⟨hreq, hconn⟩ := Prod.mk.inj heq
    simp [hreq, hconn] at hclient

theorem keepsActive_publishDoneReceived (r : Relay) (conn : ConnectionHandle) (req : RequestId) :
    KeepsActive r (r.publishDoneReceived q conn req) := by
  unfold publishDoneReceived
  split
  · exact .refl r
  · rename_i full _
    have hannounce : KeepsActive r (if conn = 0 then r else r.clientAnnounce q full true false) := by
      split
      · exact .refl r
      · exact keepsActive_clientAnnounce r full true false
    have horphans : ∀ (r : Relay) hash, KeepsActive r (r.unsubscribeOrphans q hash) := by
      intro r hash
      unfold unsubscribeOrphans
      split
      · exact foldl_related .refl .trans
          (fun r _ => (keepsRequests_unsubscribeReceived r _ _).keepsActive) _ _
      · exact .refl r
    dsimp only
    have hlast : ∀ r : Relay, KeepsActive r (r.mapState fun st =>
        { st with pubSubscribesByReqId := st.pubSubscribesByReqId.erase (req, conn) }) := by
      refine fun r => ⟨rfl, fun _ => rfl, fun h => ?_⟩
      show (r.state.pubSubscribesByReqId.erase (req, conn))[_]? = none
      rw [ExtTreeMap.getElem?_erase_ite]
      split
      · rfl
      · exact h
    exact ((hannounce.trans (keepsActive_mapState rfl rfl rfl)).trans (horphans _ _)).trans
      (hlast _)

/-- An announcement makes its namespace active. -/
theorem active_publishNamespaceReceived (r : Relay) (conn : ConnectionHandle)
    (nameSpace : TrackNamespace) (req : RequestId) :
    (r.publishNamespaceReceived q conn nameSpace req).state.requests =
        r.state.requests.insert (conn, req) nameSpace ∧
      (∀ key, (r.publishNamespaceReceived q conn nameSpace req).state.pubNamespaceActive.contains
          key = true ↔
        (nameSpace, conn) = key ∨ r.state.pubNamespaceActive.contains key = true) ∧
      (r.NoPeerRequest → (r.publishNamespaceReceived q conn nameSpace req).NoPeerRequest) := by
  set r₁ := r.mapState fun st =>
    { st with requests := st.requests.insert (conn, req) nameSpace } with hr₁
  have hloop : ∀ r' : Relay, r'.state.pubNamespaceActive.contains (nameSpace, conn) = true →
      KeepsActive r' (r'.state.subscribeActive.toList.foldl
        (subscribeToPublisher q nameSpace conn) r') := fun r' hactive =>
    keepsActive_foldl (fun _ => (nameSpace, conn))
      (fun r x => keepsActive_subscribeToPublisher nameSpace conn r x) _ r' fun _ _ => hactive
  by_cases hactive : r.state.pubNamespaceActive.contains (nameSpace, conn) = true
  · have hkeeps : KeepsActive r₁ (r.publishNamespaceReceived q conn nameSpace req) := by
      unfold publishNamespaceReceived
      dsimp only
      split
      · split
        · exact .refl r₁
        · exact hloop r₁ hactive
      · rename_i hnot
        exact absurd hactive hnot
    refine ⟨hkeeps.requests, fun key => ?_, hkeeps.peer⟩
    rw [hkeeps.active]
    refine ⟨.inr, ?_⟩
    rintro (rfl | h)
    · exact hactive
    · exact h
  · set r₂ := r₁.mapState fun st =>
      { st with pubNamespaceActive := st.pubNamespaceActive.insertIfNew (nameSpace, conn) ∅ }
    have hcontains : ∀ key, r₂.state.pubNamespaceActive.contains key = true ↔
        (nameSpace, conn) = key ∨ r.state.pubNamespaceActive.contains key = true := by
      intro key
      show (r.state.pubNamespaceActive.insertIfNew (nameSpace, conn) ∅).contains key = true ↔ _
      rw [ExtTreeMap.contains_insertIfNew, Bool.or_eq_true, beq_iff_eq,
        LawfulEqCmp.compare_eq_iff_eq]
    have hkeeps : KeepsActive r₂ (r.publishNamespaceReceived q conn nameSpace req) := by
      unfold publishNamespaceReceived
      dsimp only
      split
      · rename_i hold
        exact absurd hold hactive
      · split
        · exact .refl r₂
        · exact (hloop r₂ ((hcontains _).mpr (.inl rfl))).trans
            (keepsActive_clientAnnounce _ _ false true)
    refine ⟨hkeeps.requests, fun key => ?_, hkeeps.peer⟩
    rw [hkeeps.active]
    exact hcontains key

/-- The end of an announcement ends the namespace that its request was for. -/
theorem active_publishNamespaceDoneReceived (r : Relay) (conn : ConnectionHandle)
    (req : RequestId) :
    (r.publishNamespaceDoneReceived q conn req).state.requests = r.state.requests ∧
      (∀ key, (r.publishNamespaceDoneReceived q conn req).state.pubNamespaceActive.contains key =
          true ↔
        r.state.pubNamespaceActive.contains key = true ∧
          ¬(key.2 = conn ∧ r.state.requests[(conn, req)]? = some key.1)) ∧
      (r.NoPeerRequest → (r.publishNamespaceDoneReceived q conn req).NoPeerRequest) := by
  cases hreq : r.state.requests[(conn, req)]? with
  | none =>
    unfold publishNamespaceDoneReceived
    rw [hreq]
    exact ⟨rfl, fun key => by simp, id⟩
  | some nameSpace =>
    set r₁ := r.clientAnnounce q ⟨nameSpace, []⟩ true true
    have hfirst : KeepsActive r r₁ := keepsActive_clientAnnounce r _ true true
    set r₂ := r₁.mapState fun st =>
      { st with
        pubSubscribes := (r₁.state.pubNamespaceActive.getD (nameSpace, conn) ∅).toList.foldl
          (fun m trackAlias => m.erase (trackAlias, conn)) st.pubSubscribes
        pubNamespaceActive := st.pubNamespaceActive.erase (nameSpace, conn) } with hr₂
    have hlast : KeepsActive r₂ (r.publishNamespaceDoneReceived q conn req) := by
      unfold publishNamespaceDoneReceived
      rw [hreq]
      dsimp only
      split
      · exact .refl r₂
      · exact keepsActive_clientAnnounce r₂ _ true false
    refine ⟨hlast.requests.trans hfirst.requests, fun key => ?_, hlast.peer ∘ hfirst.peer⟩
    rw [hlast.active]
    show (r₁.state.pubNamespaceActive.erase (nameSpace, conn)).contains key = true ↔ _
    rw [ExtTreeMap.contains_erase, hfirst.active]
    rw [Bool.and_eq_true, bne_iff_ne, ne_eq, LawfulEqCmp.compare_eq_iff_eq, Option.some_inj,
      Prod.mk.injEq, and_comm]
    refine and_congr_right fun _ => not_congr ?_
    rw [and_comm]
    exact and_congr_left' eq_comm

/-- A connection that is closed has no namespace that is active. -/
theorem active_connectionStatusChanged (r : Relay) (conn : ConnectionHandle)
    (status : ConnectionStatus) :
    (r.connectionStatusChanged q conn status).state.requests = r.state.requests ∧
      (∀ key, (r.connectionStatusChanged q conn status).state.pubNamespaceActive.contains key =
          true ↔
        r.state.pubNamespaceActive.contains key = true ∧
          ¬(key.2 = conn ∧ status.closes = true)) ∧
      (r.NoPeerRequest → (r.connectionStatusChanged q conn status).NoPeerRequest) := by
  by_cases hcloses : status.closes = true
  · have hstatus : status ≠ .connected ∧ status ≠ .connecting := by
      simpa [ConnectionStatus.closes] using hcloses
    rw [connectionStatusChanged_eq q r conn hstatus.1 hstatus.2]
    have hkeeps : KeepsActive r (disconnect q r conn) :=
      (keepsRequests_disconnect (q := q) r conn).keepsActive
    refine ⟨hkeeps.requests, fun key => ?_, hkeeps.peer⟩
    show ((disconnect q r conn).state.pubNamespaceActive.filter fun key _ =>
      key.2 ≠ conn).contains key = true ↔ _
    rw [← ExtTreeMap.isSome_getElem?_eq_contains, ExtTreeMap.getElem?_filter', ← hkeeps.active,
      ← ExtTreeMap.isSome_getElem?_eq_contains]
    cases (disconnect q r conn).state.pubNamespaceActive[key]? with
    | none => simp
    | some tracks => simp [Option.filter, hcloses]
  · have hsame : r.connectionStatusChanged q conn status = r := by
      cases status with
      | connected | connecting => rfl
      | notConnected | idleTimeout | closedByRemote => exact absurd rfl hcloses
    rw [hsame]
    exact ⟨rfl, fun key => by simp [hcloses], id⟩

end KeepsActive

/-! ### Runs -/

/-- What happens at the client manager, reports of handlers among it. -/
inductive NamespaceCall where
  | client (call : ClientCall)
  | statusChanged (conn : ConnectionHandle) (full : FullTrackName) (trackAlias : Option UInt64)
      (status : TrackStatus)

def namespaceCall (q : Quicr) (r : Relay) : NamespaceCall → Relay
  | .client call => r.call q call
  | .statusChanged conn full trackAlias status => r.statusChanged conn full trackAlias status

def namespaceCalls (q : Quicr) (r : Relay) (calls : List NamespaceCall) : Relay :=
  calls.foldl (namespaceCall q) r

namespace NamespaceCall

/-- The namespace that a request of a connection was last for. -/
def requested (calls : List NamespaceCall) (conn : ConnectionHandle) (req : RequestId) :
    Option TrackNamespace :=
  calls.reverse.findSome? fun
    | .client (.publishNamespaceReceived conn' nameSpace req') =>
      if conn' = conn ∧ req' = req then some nameSpace else none
    | _ => none

/-- The connection announces the namespace. -/
def Announces (nameSpace : TrackNamespace) (conn : ConnectionHandle) (call : NamespaceCall) : Prop :=
  ∃ req, call = .client (.publishNamespaceReceived conn nameSpace req)

/-- The connection ends the namespace, by a request that was for it, or is closed. -/
def Ends (nameSpace : TrackNamespace) (conn : ConnectionHandle) (earlier : List NamespaceCall) :
    NamespaceCall → Prop
  | .client (.publishNamespaceDoneReceived conn' req) =>
    conn' = conn ∧ requested earlier conn' req = some nameSpace
  | .client (.connectionStatusChanged conn' status) => conn' = conn ∧ status.closes = true
  | _ => False

/-- The connection has announced the namespace, and neither ended it nor been closed since. -/
def Announced (calls : List NamespaceCall) (nameSpace : TrackNamespace) (conn : ConnectionHandle) :
    Prop :=
  Runs.Since (Announces nameSpace conn) (Ends nameSpace conn) calls

theorem requested_concat (calls : List NamespaceCall) (call : NamespaceCall)
    (conn : ConnectionHandle) (req : RequestId) :
    requested (calls ++ [call]) conn req =
      match call with
      | .client (.publishNamespaceReceived conn' nameSpace req') =>
        if conn' = conn ∧ req' = req then some nameSpace else requested calls conn req
      | _ => requested calls conn req := by
  unfold requested
  rw [List.reverse_append, List.reverse_singleton, List.singleton_append, List.findSome?_cons]
  split
  · rename_i nameSpace hsome
    split at hsome
    · split at hsome
      · rename_i hkey
        cases hsome
        rw [if_pos hkey]
      · cases hsome
    · cases hsome
  · rename_i hnone
    split
    · rename_i conn' nameSpace' req'
      rw [if_neg]
      intro hkey
      simp [hkey] at hnone
    · rfl

end NamespaceCall

open NamespaceCall

/-- The namespaces that are active are those that are announced. -/
def NamespacesActive (calls : List NamespaceCall) (r : Relay) : Prop :=
  ∀ nameSpace conn, r.state.pubNamespaceActive.contains (nameSpace, conn) = true ↔
    NamespaceCall.Announced calls nameSpace conn

/-- A request of a connection is for the namespace that it was last sent for. -/
def RequestsKnown (calls : List NamespaceCall) (r : Relay) : Prop :=
  ∀ conn req, r.state.requests[(conn, req)]? = requested calls conn req

/-- An error is reported only of a track whose whole namespace is active. -/
def ErrorsActive (r : Relay) : NamespaceCall → Prop
  | .statusChanged conn full (some _) .error =>
    r.state.pubNamespaceActive.contains (full.nameSpace, conn) = true
  | _ => True

/-- The call makes no namespace active. -/
def ActivatesNone (q : Quicr) (r : Relay) (call : NamespaceCall) : Prop :=
  ∀ key, (r.namespaceCall q call).state.pubNamespaceActive.contains key = true →
    r.state.pubNamespaceActive.contains key = true

section Runs

variable {q : Quicr} {r : Relay} {calls : List NamespaceCall}

theorem namespaceCalls_concat (q : Quicr) (r : Relay) (calls : List NamespaceCall)
    (call : NamespaceCall) :
    r.namespaceCalls q (calls ++ [call]) = (r.namespaceCalls q calls).namespaceCall q call := by
  rw [namespaceCalls, List.foldl_append]
  rfl

/-- Which namespaces are active after a report: one more after that of an error. -/
theorem active_statusChanged (r : Relay) (conn : ConnectionHandle) (full : FullTrackName)
    (trackAlias : Option UInt64) (status : TrackStatus) :
    (r.statusChanged conn full trackAlias status).state.requests = r.state.requests ∧
      (∀ key, (r.statusChanged conn full trackAlias status).state.pubNamespaceActive.contains key =
          true ↔
        (status = .error ∧ trackAlias.isSome = true ∧ (full.nameSpace, conn) = key) ∨
          r.state.pubNamespaceActive.contains key = true) ∧
      (r.NoPeerRequest → (r.statusChanged conn full trackAlias status).NoPeerRequest) := by
  unfold statusChanged
  split
  · split
    · exact ⟨rfl, fun key => by simp, id⟩
    · refine ⟨rfl, fun key => ?_, id⟩
      show (r.state.pubNamespaceActive.insert (full.nameSpace, conn) _).contains key = true ↔ _
      rw [ExtTreeMap.contains_insert, Bool.or_eq_true, beq_iff_eq, LawfulEqCmp.compare_eq_iff_eq]
      simp
  · rename_i hstatus
    exact ⟨rfl, fun key => (or_iff_right fun h => hstatus h.1).symm, id⟩

/-- A call that announces nothing and ends nothing. -/
theorem known_of_keeps {r' : Relay} {call : NamespaceCall} (hactive : NamespacesActive calls r)
    (hrequests : RequestsKnown calls r) (hkeeps : KeepsActive r r')
    (hstarts : ∀ nameSpace conn, ¬Announces nameSpace conn call)
    (hends : ∀ nameSpace conn, ¬Ends nameSpace conn calls call) :
    NamespacesActive (calls ++ [call]) r' ∧ RequestsKnown (calls ++ [call]) r' := by
  constructor
  · intro nameSpace conn
    rw [hkeeps.active, hactive, NamespaceCall.Announced, NamespaceCall.Announced, Runs.since_concat]
    simp [hstarts, hends]
  · intro conn req
    rw [hkeeps.requests, hrequests, requested_concat]
    split
    · exact absurd ⟨_, rfl⟩ (hstarts _ _)
    · rfl

/-- What a call of a client does to the namespaces that are announced, it does to those that are
active. -/
theorem known_call (hactive : NamespacesActive calls r) (hrequests : RequestsKnown calls r)
    (call : ClientCall) :
    NamespacesActive (calls ++ [.client call]) (r.call q call) ∧
      RequestsKnown (calls ++ [.client call]) (r.call q call) := by
  cases call with
  | publishNamespaceReceived conn nameSpace req =>
    obtain ⟨hreq, hact, -⟩ := active_publishNamespaceReceived (q := q) r conn nameSpace req
    constructor
    · intro nameSpace' conn'
      refine (hact (nameSpace', conn')).trans ?_
      rw [hactive, NamespaceCall.Announced, NamespaceCall.Announced, Runs.since_concat]
      have hstarts : Announces nameSpace' conn'
          (.client (.publishNamespaceReceived conn nameSpace req)) ↔
          (nameSpace, conn) = (nameSpace', conn') := by
        constructor
        · rintro ⟨req', heq⟩
          cases heq
          rfl
        · rintro heq
          cases heq
          exact ⟨req, rfl⟩
      simp [hstarts, Ends]
    · intro conn' req'
      show (r.publishNamespaceReceived q conn nameSpace req).state.requests[(conn', req')]? = _
      rw [hreq, requested_concat, ExtTreeMap.getElem?_insert_ite, hrequests]
      simp only [Prod.mk.injEq, eq_comm]
  | publishNamespaceDoneReceived conn req =>
    obtain ⟨hreq, hact, -⟩ := active_publishNamespaceDoneReceived (q := q) r conn req
    constructor
    · intro nameSpace' conn'
      refine (hact (nameSpace', conn')).trans ?_
      rw [hactive, NamespaceCall.Announced, NamespaceCall.Announced, Runs.since_concat, hrequests]
      have hno : ¬Announces nameSpace' conn' (.client (.publishNamespaceDoneReceived conn req)) := by
        rintro ⟨req', heq⟩
        cases heq
      simp only [hno, false_or, Ends]
      rw [eq_comm (a := conn')]
    · intro conn' req'
      rw [requested_concat, ← hrequests]
      exact congrArg (·[(conn', req')]?) hreq
  | connectionStatusChanged conn status =>
    obtain ⟨hreq, hact, -⟩ := active_connectionStatusChanged (q := q) r conn status
    constructor
    · intro nameSpace' conn'
      refine (hact (nameSpace', conn')).trans ?_
      rw [hactive, NamespaceCall.Announced, NamespaceCall.Announced, Runs.since_concat]
      have hno : ¬Announces nameSpace' conn' (.client (.connectionStatusChanged conn status)) := by
        rintro ⟨req', heq⟩
        cases heq
      simp only [hno, false_or, Ends]
      rw [eq_comm (a := conn')]
    · intro conn' req'
      rw [requested_concat, ← hrequests]
      exact congrArg (·[(conn', req')]?) hreq
  | subscribeReceived conn req full attrs =>
    refine known_of_keeps hactive hrequests ?_ (by simp [Announces]) (by simp [Ends])
    show KeepsActive r (r.subscribeReceived q conn req full attrs)
    unfold subscribeReceived
    dsimp only
    split
    · exact .refl r
    · exact keepsActive_processSubscribe ..
  | unsubscribeReceived conn req =>
    exact known_of_keeps hactive hrequests (keepsRequests_unsubscribeReceived r conn req).keepsActive
      (by simp [Announces]) (by simp [Ends])
  | publishReceived conn req full =>
    exact known_of_keeps hactive hrequests (keepsActive_publishReceived r conn req full)
      (by simp [Announces]) (by simp [Ends])
  | publishDoneReceived conn req =>
    exact known_of_keeps hactive hrequests (keepsActive_publishDoneReceived r conn req)
      (by simp [Announces]) (by simp [Ends])
  | subscribeNamespaceReceived conn prefixNamespace =>
    exact known_of_keeps hactive hrequests ⟨rfl, fun _ => rfl, id⟩ (by simp [Announces])
      (by simp [Ends])
  | unsubscribeNamespaceReceived conn prefixNamespace =>
    exact known_of_keeps hactive hrequests
      (keepsRequests_unsubscribeNamespaceReceived r conn prefixNamespace).keepsActive
      (by simp [Announces]) (by simp [Ends])

/-- A report announces nothing, so that it has to leave the namespaces that are active. -/
theorem known_statusChanged (hactive : NamespacesActive calls r)
    (hrequests : RequestsKnown calls r) (conn : ConnectionHandle) (full : FullTrackName)
    (trackAlias : Option UInt64) (status : TrackStatus)
    (herrors : ErrorsActive r (.statusChanged conn full trackAlias status)) :
    KeepsActive r (r.statusChanged conn full trackAlias status) ∧
      NamespacesActive (calls ++ [.statusChanged conn full trackAlias status])
          (r.statusChanged conn full trackAlias status) ∧
        RequestsKnown (calls ++ [.statusChanged conn full trackAlias status])
          (r.statusChanged conn full trackAlias status) := by
  obtain ⟨hreq, hact, hpeer⟩ := active_statusChanged r conn full trackAlias status
  have hkeeps : KeepsActive r (r.statusChanged conn full trackAlias status) := by
    refine ⟨hreq, fun key => Bool.eq_iff_iff.mpr ((hact key).trans (or_iff_right_of_imp ?_)), hpeer⟩
    rintro ⟨rfl, hsome, rfl⟩
    obtain ⟨trackAlias, rfl⟩ := Option.isSome_iff_exists.mp hsome
    exact herrors
  exact ⟨hkeeps, known_of_keeps hactive hrequests hkeeps (by simp [Announces]) (by simp [Ends])⟩

theorem known_run (hnew : r.state = {})
    (herrors : ∀ before call, before ++ [call] <+: calls →
      ErrorsActive (r.namespaceCalls q before) call) :
    NamespacesActive calls (r.namespaceCalls q calls) ∧
      RequestsKnown calls (r.namespaceCalls q calls) := by
  induction calls using List.reverseRecOn with
  | nil =>
    constructor
    · intro nameSpace conn
      rw [namespaceCalls, List.foldl_nil, hnew, NamespaceCall.Announced]
      simp [Runs.not_since_nil]
    · intro conn req
      rw [namespaceCalls, List.foldl_nil, hnew]
      simp [requested]
  | append_singleton calls call ih =>
    obtain ⟨hactive, hrequests⟩ := ih fun before call hle =>
      herrors before call (hle.trans (List.prefix_append ..))
    rw [namespaceCalls_concat]
    cases call with
    | client call => exact known_call hactive hrequests call
    | statusChanged conn full trackAlias status =>
      exact (known_statusChanged hactive hrequests conn full trackAlias status
        (herrors calls _ List.prefix_rfl)).2

/-- In every state of a run of a relay that starts without clients the namespaces that are active are
those that are announced, and no report makes one active, if and only if every error is reported of
a track whose whole namespace is active. -/
theorem namespacesActive_iff (q : Quicr) (r : Relay) (hnew : r.state = {})
    (calls : List NamespaceCall) :
    ((∀ before, before <+: calls → NamespacesActive before (r.namespaceCalls q before)) ∧
      ∀ before conn full trackAlias status,
        before ++ [.statusChanged conn full trackAlias status] <+: calls →
          ActivatesNone q (r.namespaceCalls q before)
            (.statusChanged conn full trackAlias status)) ↔
      ∀ before call, before ++ [call] <+: calls →
        ErrorsActive (r.namespaceCalls q before) call := by
  constructor
  · rintro ⟨-, hreports⟩ before call hle
    cases call with
    | client call => trivial
    | statusChanged conn full trackAlias status =>
      unfold ErrorsActive
      split
      · rename_i heq
        cases heq
        refine hreports _ _ _ _ _ hle _ ?_
        exact ((active_statusChanged _ _ _ _ _).2.1 _).mpr (.inl ⟨rfl, rfl, rfl⟩)
      · trivial
  · intro herrors
    have hknown : ∀ before, before <+: calls →
        NamespacesActive before (r.namespaceCalls q before) ∧
          RequestsKnown before (r.namespaceCalls q before) := fun before hle =>
      known_run hnew fun before' call hle' => herrors before' call (hle'.trans hle)
    refine ⟨fun before hle => (hknown before hle).1, ?_⟩
    intro before conn full trackAlias status hle key hkey
    obtain ⟨hactive, hrequests⟩ := hknown before ((List.prefix_append ..).trans hle)
    obtain ⟨hkeeps, -⟩ := known_statusChanged hactive hrequests conn full trackAlias status
      (herrors before _ hle)
    exact (hkeeps.active key).symm.trans hkey

/-- A client announces a namespace, another subscribes to a track of it, and the track has an error.
-/
def announceThenError : List NamespaceCall :=
  [.client (.publishNamespaceReceived 8 [[1]] 4),
   .client (.subscribeReceived 7 1 ⟨[[1]], [2]⟩ {}),
   .statusChanged 8 ⟨[[1]], [2]⟩ (some 5) .error]

theorem errorsActive_announceThenError {before : List NamespaceCall} {call : NamespaceCall}
    (hle : before ++ [call] <+: announceThenError) :
    ErrorsActive (({ nodeId := 1 } : Relay).namespaceCalls .polynomial before) call := by
  cases call with
  | client call => trivial
  | statusChanged conn full trackAlias status =>
    obtain ⟨after, heq⟩ := hle
    match before with
    | [] => cases heq
    | [_] => cases heq
    | [_, _] =>
      cases heq
      show ExtTreeMap.contains _ _ = true
      decide +kernel
    | _ :: _ :: _ :: _ =>
      have hlength := congrArg List.length heq
      simp only [announceThenError, List.length_append, List.length_cons, List.length_nil] at hlength
      omega

theorem namespacesActive_announceThenError :
    (∀ before call, before ++ [call] <+: announceThenError →
      ErrorsActive (({ nodeId := 1 } : Relay).namespaceCalls .polynomial before) call) ∧
    (∀ before, before <+: announceThenError →
      NamespacesActive before (({ nodeId := 1 } : Relay).namespaceCalls .polynomial before)) ∧
    ∀ before conn full trackAlias status,
      before ++ [.statusChanged conn full trackAlias status] <+: announceThenError →
        ActivatesNone .polynomial (({ nodeId := 1 } : Relay).namespaceCalls .polynomial before)
          (.statusChanged conn full trackAlias status) :=
  ⟨fun _ _ => errorsActive_announceThenError,
    (namespacesActive_iff .polynomial { nodeId := 1 } rfl announceThenError).mpr
      fun _ _ => errorsActive_announceThenError⟩

/-- The track that has the error is of a longer namespace than the one that is announced. -/
theorem not_namespacesActive :
    ¬∀ calls : List NamespaceCall,
      NamespacesActive calls (({ nodeId := 1 } : Relay).namespaceCalls .polynomial calls) := by
  intro hclaim
  set calls : List NamespaceCall :=
    [.client (.publishNamespaceReceived 8 [[1]] 4),
     .client (.subscribeReceived 7 1 ⟨[[1], [3]], [2]⟩ {}),
     .statusChanged 8 ⟨[[1], [3]], [2]⟩ (some 5) .error] with hcalls
  have hactive : ExtTreeMap.contains
      (({ nodeId := 1 } : Relay).namespaceCalls .polynomial calls).state.pubNamespaceActive
      ([[1], [3]], 8) = true := by
    decide +kernel
  obtain ⟨before, call, after, heq, ⟨req, rfl⟩, -⟩ := (hclaim calls [[1], [3]] 8).mp hactive
  have hmem : NamespaceCall.client (.publishNamespaceReceived 8 [[1], [3]] req) ∈ calls := by
    rw [heq]
    simp
  simp [hcalls] at hmem

end Runs

end Laps.Relay
