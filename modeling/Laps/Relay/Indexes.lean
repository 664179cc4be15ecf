import Laps.Relay.Requests

/-! The three tables of the clients' subscriptions and the handlers of the publishers agree: what
one of the tables has the others have, and a handler sends to subscribers only. -/

namespace Laps

open Std Client Peering

namespace Client.State

/-- The tables by track, by request and by name have the same subscriptions. -/
structure IndexesAgree (q : Quicr) (st : State) : Prop where
  hashes : ∀ (key : UInt64 × ConnectionHandle) info, st.subscribes[key]? = some info →
    (q.trackHash info.trackFullName).trackFullnameHash = key.1
  aliases : ∀ hash (conn : ConnectionHandle) (req : RequestId),
    st.subscribeAliasReqId[(conn, req)]? = some hash ↔
      ∃ info, st.subscribes[(hash, conn)]? = some info ∧ info.requestId = req
  active : ∀ nameSpace nameHash (conn : ConnectionHandle) (req : RequestId) hash,
    (∃ a, st.subscribeActive.get₂? (nameSpace, nameHash) (conn, req) = some a ∧
      a.trackAlias = hash) ↔
      ∃ info, st.subscribes[(hash, conn)]? = some info ∧ info.requestId = req ∧
        info.trackFullName.nameSpace = nameSpace ∧
        (q.trackHash info.trackFullName).trackNameHash = nameHash
  noEmptyRow : st.subscribeActive.NoEmptyRow

/-- What is sent to a client through a handler it has subscribed to. -/
def FansOutToSubscribers (st : State) : Prop :=
  ∀ (key : UInt64 × ConnectionHandle) h, st.pubSubscribes[key]? = some h →
    ∀ c, c ≠ 0 → h.subscribers.contains c = true → st.Subscribed key.1 c

variable {q : Quicr} {st st' : State}

theorem IndexesAgree.congr (h : IndexesAgree q st) (hsubscribes : st'.subscribes = st.subscribes)
    (haliases : st'.subscribeAliasReqId = st.subscribeAliasReqId)
    (hactive : st'.subscribeActive = st.subscribeActive) : IndexesAgree q st' := by
  obtain ⟨h₁, h₂, h₃, h₄⟩ := h
  constructor
  · rwa [hsubscribes]
  · rwa [hsubscribes, haliases]
  · rwa [hsubscribes, hactive]
  · rwa [hactive]

theorem indexesAgree_empty (q : Quicr) : IndexesAgree q {} := by
  constructor
  · intro key info h
    simp at h
  · simp
  · simp
  · exact ExtTreeMap.noEmptyRow_empty

section Record

variable {conn : ConnectionHandle} {req : RequestId} {full : FullTrackName}
variable {attrs : SubscribeAttributes}

/-- The subscription that is recorded. -/
def recorded (q : Quicr) (req : RequestId) (full : FullTrackName) (attrs : SubscribeAttributes) :
    SubscribePublishHandlerInfo :=
  { trackFullName := full, trackAlias := (q.trackHash full).trackFullnameHash, requestId := req
    priority := attrs.priority, objectTtl := attrs.deliveryTimeout.toUInt32
    groupOrder := attrs.groupOrder }

theorem exists_record (hnew : ¬st.Subscribed (q.trackHash full).trackFullnameHash conn)
    {key : UInt64 × ConnectionHandle} {R : SubscribePublishHandlerInfo → Prop} :
    (∃ info, (st.record q conn req full attrs).subscribes[key]? = some info ∧ R info) ↔
      (key = ((q.trackHash full).trackFullnameHash, conn) ∧ R (recorded q req full attrs)) ∨
        ∃ info, st.subscribes[key]? = some info ∧ R info := by
  have hnone : st.subscribes[((q.trackHash full).trackFullnameHash, conn)]? = none := by
    rw [← ExtTreeMap.contains_eq_false_iff]
    exact Bool.eq_false_iff.mpr hnew
  have hget : (st.record q conn req full attrs).subscribes[key]? =
      if key = ((q.trackHash full).trackFullnameHash, conn) then some (recorded q req full attrs)
      else st.subscribes[key]? := by
    show (st.subscribes.insertIfNew _ (recorded q req full attrs))[key]? = _
    rw [ExtTreeMap.getElem?_insertIfNew_getD, hnone]
    rfl
  rw [hget]
  split
  · rename_i heq
    rw [heq, hnone]
    simp
  · rename_i hne
    simp [hne]

theorem IndexesAgree.fresh (h : IndexesAgree q st)
    (hfresh : st.subscribeAliasReqId[(conn, req)]? = none) (key : TrackNamespace × UInt64) :
    st.subscribeActive.get₂? key (conn, req) = none := by
  rw [Option.eq_none_iff_forall_ne_some]
  intro a ha
  obtain ⟨info, hinfo, hreq, -⟩ := (h.active key.1 key.2 conn req a.trackAlias).mp ⟨a, ha, rfl⟩
  have halias := (h.aliases a.trackAlias conn req).mpr ⟨info, hinfo, hreq⟩
  rw [hfresh] at halias
  cases halias

theorem IndexesAgree.record (h : IndexesAgree q st)
    (hnew : ¬st.Subscribed (q.trackHash full).trackFullnameHash conn)
    (hfresh : st.subscribeAliasReqId[(conn, req)]? = none) :
    IndexesAgree q (st.record q conn req full attrs) := by
  constructor
  · intro key info hget
    obtain ⟨heq, rfl⟩ | ⟨info', hold, rfl⟩ :=
      (exists_record (R := fun info' => info = info') hnew).mp ⟨info, hget, rfl⟩
    · rw [heq]
      rfl
    · exact h.hashes key info hold
  · intro hash c r
    rw [exists_record hnew, ← h.aliases]
    show (st.subscribeAliasReqId.insert (conn, req) _)[(c, r)]? = some hash ↔ _
    rw [ExtTreeMap.getElem?_insert_ite]
    split
    · rename_i heq
      obtain ⟨rfl, rfl⟩ := Prod.mk.inj heq
      rw [hfresh]
      simp [recorded, eq_comm]
    · rename_i hne
      refine (or_iff_right ?_).symm
      rintro ⟨heq, hreq⟩
      exact hne (Prod.ext (Prod.mk.inj heq).2 hreq.symm)
  · intro nameSpace nameHash c r hash
    rw [exists_record hnew, ← h.active]
    show (∃ a, (st.subscribeActive.insertIfNew₂ _ (conn, req) _).get₂? (nameSpace, nameHash) (c, r) =
      some a ∧ a.trackAlias = hash) ↔ _
    rw [ExtTreeMap.get₂?_insertIfNew₂, h.fresh hfresh]
    split
    · rename_i heq
      obtain ⟨hkey, hreq⟩ := heq
      obtain ⟨rfl, rfl⟩ := Prod.mk.inj hreq
      obtain ⟨rfl, rfl⟩ := Prod.mk.inj hkey
      rw [h.fresh hfresh]
      simp [recorded, eq_comm]
    · rename_i hne
      refine (or_iff_right ?_).symm
      rintro ⟨heq, hreq, hns, hname⟩
      exact hne ⟨Prod.ext hns.symm hname.symm, Prod.ext (Prod.mk.inj heq).2 hreq.symm⟩
  · exact h.noEmptyRow.insertIfNew₂ _ _ _

end Record

section Unsubscribe

variable {conn : ConnectionHandle} {req : RequestId} {trackAlias : UInt64}
variable {sub : SubscribePublishHandlerInfo}

/-- The request of the subscription is the one it has ended by. -/
theorem IndexesAgree.requestId_eq (h : IndexesAgree q st)
    (halias : st.subscribeAliasReqId[(conn, req)]? = some trackAlias)
    (hsub : st.subscribes[(trackAlias, conn)]? = some sub) : sub.requestId = req := by
  obtain ⟨info, hinfo, hreq⟩ := (h.aliases _ _ _).mp halias
  rw [hsub] at hinfo
  cases hinfo
  exact hreq

/-- Where the tables agree. -/
theorem IndexesAgree.indexed (h : IndexesAgree q st) (conn : ConnectionHandle) :
    Indexed q st conn := by
  constructor
  · intro req hash halias
    obtain ⟨info, hinfo, -⟩ := (h.aliases hash conn req).mp halias
    exact ExtTreeMap.contains_iff_getElem?.mpr ⟨info, hinfo⟩
  · intro req req' hash halias halias'
    obtain ⟨info, hinfo, rfl⟩ := (h.aliases hash conn req).mp halias
    exact (h.requestId_eq halias' hinfo).symm
  · intro hash hsub
    obtain ⟨info, hinfo⟩ := ExtTreeMap.contains_iff_getElem?.mp hsub
    exact ⟨info.requestId, (h.aliases hash conn _).mpr ⟨info, hinfo, rfl⟩⟩
  · rintro ⟨nameSpace, nameHash⟩ req a ha
    obtain ⟨info, hinfo, hreq, rfl, rfl⟩ := (h.active _ _ conn req a.trackAlias).mp ⟨a, ha, rfl⟩
    exact ⟨a.trackAlias, info, (h.aliases _ _ _).mpr ⟨info, hinfo, hreq⟩, hinfo, rfl⟩

theorem IndexesAgree.active_unsubscribe (h : IndexesAgree q st)
    (halias : st.subscribeAliasReqId[(conn, req)]? = some trackAlias)
    (hsub : st.subscribes[(trackAlias, conn)]? = some sub) :
    (st.unsubscribe q conn req trackAlias sub).subscribeActive = st.subscribeActive.erase₂
      (sub.trackFullName.nameSpace, (q.trackHash sub.trackFullName).trackNameHash) (conn, req) := by
  obtain ⟨a, ha, -⟩ := (h.active _ _ conn req trackAlias).mpr
    ⟨sub, hsub, h.requestId_eq halias hsub, rfl, rfl⟩
  obtain ⟨row, hrow, -⟩ := ExtTreeMap.get₂?_eq_some.mp ha
  unfold unsubscribe ExtTreeMap.erase₂
  dsimp only
  rw [hrow, ExtTreeMap.getD_eq_getD_getElem?, hrow]
  rfl

theorem IndexesAgree.unsubscribe (h : IndexesAgree q st)
    (halias : st.subscribeAliasReqId[(conn, req)]? = some trackAlias)
    (hsub : st.subscribes[(trackAlias, conn)]? = some sub) :
    IndexesAgree q (st.unsubscribe q conn req trackAlias sub) := by
  have hreq := h.requestId_eq halias hsub
  constructor
  · intro key info hget
    obtain ⟨-, info', hold, rfl⟩ :=
      (exists_unsubscribe (R := fun info' => info = info')).mp ⟨info, hget, rfl⟩
    exact h.hashes key info hold
  · intro hash c r
    rw [exists_unsubscribe, ← h.aliases]
    show (st.subscribeAliasReqId.erase (conn, req))[(c, r)]? = some hash ↔ _
    rw [ExtTreeMap.getElem?_erase_ite]
    split
    · rename_i heq
      obtain ⟨rfl, rfl⟩ := Prod.mk.inj heq
      simp [halias, eq_comm]
    · rename_i hne
      refine (and_iff_right_of_imp fun hold heq => hne ?_).symm
      obtain ⟨rfl, rfl⟩ := Prod.mk.inj heq
      obtain ⟨info, hinfo, rfl⟩ := (h.aliases _ _ _).mp hold
      rw [hsub] at hinfo
      cases hinfo
      rw [hreq]
  · intro nameSpace nameHash c r hash
    rw [exists_unsubscribe, ← h.active, h.active_unsubscribe halias hsub, ExtTreeMap.get₂?_erase₂]
    split
    · rename_i heq
      obtain ⟨hkey, hreq'⟩ := heq
      obtain ⟨rfl, rfl⟩ := Prod.mk.inj hreq'
      refine iff_of_false (by simp) ?_
      rintro ⟨hne, hold⟩
      obtain ⟨info, hinfo, hreq', -⟩ := (h.active ..).mp hold
      have halias' := (h.aliases _ _ _).mpr ⟨info, hinfo, hreq'⟩
      rw [halias] at halias'
      cases halias'
      exact hne rfl
    · rename_i hne
      refine (and_iff_right_of_imp fun hold heq => hne ?_).symm
      obtain ⟨rfl, rfl⟩ := Prod.mk.inj heq
      obtain ⟨info, hinfo, rfl, rfl, rfl⟩ := (h.active ..).mp hold
      rw [hsub] at hinfo
      cases hinfo
      exact ⟨rfl, by rw [hreq]⟩
  · rw [h.active_unsubscribe halias hsub]
    exact h.noEmptyRow.erase₂ _ _

end Unsubscribe

/-! ### Changes -/

section Change

variable {records : Records} {creates peers : Prop}

/-- Subscriptions are recorded under requests that are not in use. -/
def Records.Fresh (records : Records) : Prop :=
  ∀ st conn req full, records st conn req full → st.subscribeAliasReqId[(conn, req)]? = none

theorem IndexesAgree.change (hfresh : records.Fresh) (hchange : Change q records creates peers st st')
    (h : IndexesAgree q st) : IndexesAgree q st' := by
  cases hchange with
  | record hreq hnew => exact h.record hnew (hfresh _ _ _ _ hreq)
  | unsubscribe halias hsub => exact h.unsubscribe halias hsub
  | handlers hsubscribes haliases hactive _ => exact h.congr hsubscribes haliases hactive

/-- No two of the names differ but have the namespace and the hash of the name in common. -/
def NamesApart (q : Quicr) (names : Set FullTrackName) : Prop :=
  ∀ f ∈ names, ∀ f' ∈ names, f.nameSpace = f'.nameSpace →
    (q.trackHash f).trackNameHash = (q.trackHash f').trackNameHash → f = f'

/-- The names of the subscriptions are among `names`. -/
def NamedIn (names : Set FullTrackName) (st : State) : Prop :=
  ∀ (key : UInt64 × ConnectionHandle) info, st.subscribes[key]? = some info →
    info.trackFullName ∈ names

/-- A property of single subscriptions holds after a change when those that are recorded have it. -/
theorem subscribes_change {A : UInt64 × ConnectionHandle → SubscribePublishHandlerInfo → Prop}
    (hrecord : ∀ st conn req full attrs, records st conn req full →
      A ((q.trackHash full).trackFullnameHash, conn) (recorded q req full attrs))
    (hchange : Change q records creates peers st st')
    (h : ∀ (key : UInt64 × ConnectionHandle) info, st.subscribes[key]? = some info → A key info)
    (key : UInt64 × ConnectionHandle) {info : SubscribePublishHandlerInfo}
    (hget : st'.subscribes[key]? = some info) : A key info := by
  cases hchange with
  | record hreq hnew =>
    obtain ⟨rfl, rfl⟩ | ⟨info', hold, rfl⟩ :=
      (exists_record (R := fun info' => info = info') hnew).mp ⟨info, hget, rfl⟩
    · exact hrecord _ _ _ _ _ hreq
    · exact h key info hold
  | unsubscribe _ _ =>
    obtain ⟨-, info', hold, rfl⟩ :=
      (exists_unsubscribe (R := fun info' => info = info')).mp ⟨info, hget, rfl⟩
    exact h key info hold
  | handlers hsubscribes _ _ _ =>
    rw [hsubscribes] at hget
    exact h key info hget

theorem NamedIn.change {names : Set FullTrackName}
    (hnamed : ∀ st conn req full, records st conn req full → full ∈ names)
    (hchange : Change q records creates peers st st') (h : NamedIn names st) : NamedIn names st' :=
  fun key _ hget => subscribes_change (A := fun _ info => info.trackFullName ∈ names)
    (fun st conn req full _ hreq => hnamed st conn req full hreq) hchange h key hget

/-- A set of active subscriptions is of one track. -/
theorem IndexesAgree.subscribed_of_inActive {names : Set FullTrackName} (h : IndexesAgree q st)
    (hnamed : NamedIn names st) (hapart : NamesApart q names) {hash : UInt64}
    {conn : ConnectionHandle} (hin : st.InActive hash conn) : st.Subscribed hash conn := by
  obtain ⟨⟨⟨nameSpace, nameHash⟩, row⟩, hentry, ⟨⟨conn₀, req₀⟩, a₀⟩, hfirst, rfl, req, hreq⟩ := hin
  have hrow := ExtTreeMap.mem_toList_iff_getElem?_eq_some.mp hentry
  have hmem := ExtTreeMap.mem_toList_iff_getElem?_eq_some.mp (List.mem_of_mem_head? hfirst)
  obtain ⟨a, ha⟩ := ExtTreeMap.contains_iff_getElem?.mp hreq
  -- The first subscription of the set, and the one of the client.
  obtain ⟨info₀, hinfo₀, -, hns₀, hname₀⟩ := (h.active nameSpace nameHash conn₀ req₀ _).mp
    ⟨a₀, ExtTreeMap.get₂?_eq_some.mpr ⟨row, hrow, hmem⟩, rfl⟩
  obtain ⟨info, hinfo, -, hns, hname⟩ := (h.active nameSpace nameHash conn req _).mp
    ⟨a, ExtTreeMap.get₂?_eq_some.mpr ⟨row, hrow, ha⟩, rfl⟩
  have hfull : info.trackFullName = info₀.trackFullName :=
    hapart _ (hnamed _ _ hinfo) _ (hnamed _ _ hinfo₀) (hns.trans hns₀.symm) (hname.trans hname₀.symm)
  have hhash : a.trackAlias = a₀.trackAlias :=
    (h.hashes _ _ hinfo).symm.trans (by rw [hfull]; exact h.hashes _ _ hinfo₀)
  rw [hhash] at hinfo
  exact ExtTreeMap.contains_iff_getElem?.mpr ⟨info, hinfo⟩

theorem FansOutToSubscribers.change {names : Set FullTrackName} (hagree : IndexesAgree q st)
    (hnamed : NamedIn names st) (hapart : NamesApart q names)
    (hchange : Change q records creates peers st st') (h : FansOutToSubscribers st) :
    FansOutToSubscribers st' := by
  intro key handler hget c hzero hc
  cases hchange with
  | record _ hnew =>
    obtain ⟨info, hinfo⟩ := ExtTreeMap.contains_iff_getElem?.mp (h key handler hget c hzero hc)
    obtain ⟨info, hinfo, -⟩ := (exists_record (R := fun _ => True) hnew).mpr
      (.inr ⟨info, hinfo, trivial⟩)
    exact ExtTreeMap.contains_iff_getElem?.mpr ⟨info, hinfo⟩
  | unsubscribe halias hsub =>
    rename_i conn req trackAlias sub
    have hget : (st.pubSubscribes.map fun key h =>
        if key.1 = (q.trackHash sub.trackFullName).trackFullnameHash then h.removeSubscriber conn
        else h)[key]? = some handler := hget
    rw [ExtTreeMap.getElem?_map, Option.map_eq_some_iff] at hget
    obtain ⟨old, hold, rfl⟩ := hget
    rw [hagree.hashes _ _ hsub] at hc
    have hne : (key.1, c) ≠ (trackAlias, conn) := by
      intro hpair
      obtain ⟨heq, rfl⟩ := Prod.mk.inj hpair
      rw [if_pos heq] at hc
      exact ((Relay.contains_removeSubscriber ..).mp hc).1 rfl
    have hcold : old.subscribers.contains c = true := by
      split at hc
      · exact ((Relay.contains_removeSubscriber ..).mp hc).2
      · exact hc
    obtain ⟨info, hinfo⟩ := ExtTreeMap.contains_iff_getElem?.mp (h key old hold c hzero hcold)
    obtain ⟨info, hinfo, -⟩ := (exists_unsubscribe (R := fun _ => True)).mpr
      ⟨hne, info, hinfo, trivial⟩
    exact ExtTreeMap.contains_iff_getElem?.mpr ⟨info, hinfo⟩
  | handlers hsubscribes _ _ hhandlers =>
    have hsub : st.Subscribed key.1 c := by
      obtain ⟨old, hold, -, hadded⟩ | ⟨-, hnew⟩ := hhandlers key handler hget
      · obtain hcold | hsub := hadded c hzero hc
        · exact h key old hold c hzero hcold
        · exact hsub
      · obtain hsub | hin := hnew c hzero hc
        · exact hsub
        · exact hagree.subscribed_of_inActive hnamed hapart hin
    unfold Subscribed
    rwa [hsubscribes]

end Change

end Client.State

namespace Relay

open State

/-! ### Runs -/

/-- What happens at the client manager.  The rest of the relay may change in any way in between. -/
inductive ManagerCall where
  | client (call : ClientCall)
  | statusError (conn : ConnectionHandle) (full : FullTrackName)
  | subscribeInfoReceived (peerSessionId : PeerSessionId) (si : Peering.SubscribeInfo)
      (withdraw : Bool)
  | announceInfoReceived (peerSessionId : PeerSessionId) (info : AnnounceInfo) (withdraw : Bool)
  | sessionLost (peerSessionId : PeerSessionId)
  | elsewhere (rest : Relay)

/-- `none` where the behaviour of the source is undefined. -/
def managerCall (q : Quicr) (r : Relay) : ManagerCall → Option Relay
  | .client call => some (r.call q call)
  | .statusError conn full => some (r.statusError q conn full)
  | .subscribeInfoReceived peerSessionId si withdraw =>
    some (r.subscribeInfoReceived q peerSessionId si withdraw)
  | .announceInfoReceived peerSessionId info withdraw =>
    some (r.announceInfoReceived q peerSessionId info withdraw)
  | .sessionLost peerSessionId => r.sessionLost q peerSessionId
  | .elsewhere rest => some { rest with state := r.state }

def managerCalls (q : Quicr) (r : Relay) (calls : List ManagerCall) : Option Relay :=
  calls.foldlM (managerCall q) r

/-- The SUBSCRIBE that the call is. -/
def ManagerCall.subscribe? : ManagerCall → Option (ConnectionHandle × RequestId × FullTrackName)
  | .client (.subscribeReceived conn req full _) => some (conn, req, full)
  | _ => none

def ConnectionStatus.closes (status : ConnectionStatus) : Bool :=
  status ≠ .connected && status ≠ .connecting

/-- The connection that the call closes. -/
def ManagerCall.closed? : ManagerCall → Option ConnectionHandle
  | .client (.connectionStatusChanged conn status) => if status.closes then some conn else none
  | _ => none

/-- The requests that the connections have used for a SUBSCRIBE since they were opened. -/
def usedRequests (used : Set (ConnectionHandle × RequestId)) (call : ManagerCall) :
    Set (ConnectionHandle × RequestId) :=
  {key | (key ∈ used ∧ call.closed? ≠ some key.1) ∨
    ∃ full, call.subscribe? = some (key.1, key.2, full)}

/-- A connection uses a request for one SUBSCRIBE. -/
def OneSubscribeEach : Set (ConnectionHandle × RequestId) → List ManagerCall → Prop
  | _, [] => True
  | used, call :: calls =>
    (∀ conn req full, call.subscribe? = some (conn, req, full) → (conn, req) ∉ used) ∧
      OneSubscribeEach (usedRequests used call) calls

section Runs

variable {q : Quicr} {r r' : Relay}

theorem changes_call {records : Records} {call : ClientCall}
    (hrecords : ∀ conn req full, (ManagerCall.client call).subscribe? = some (conn, req, full) →
      records r.state conn req full) :
    Changes q records True True r.state (r.call q call).state := by
  cases call with
  | subscribeReceived conn req full attrs =>
    exact changes_subscribeReceived trivial (hrecords conn req full rfl)
  | unsubscribeReceived conn req => exact changes_unsubscribeReceived r conn req
  | connectionStatusChanged conn status => exact changes_connectionStatusChanged r conn status
  | publishReceived conn req full => exact changes_publishReceived trivial r conn req full
  | publishDoneReceived conn req => exact changes_publishDoneReceived r conn req
  | publishNamespaceReceived conn nameSpace req =>
    exact changes_publishNamespaceReceived trivial r conn nameSpace req
  | publishNamespaceDoneReceived conn req => exact changes_publishNamespaceDoneReceived r conn req
  | subscribeNamespaceReceived conn nameSpace =>
    exact changes_subscribeNamespaceReceived r conn nameSpace
  | unsubscribeNamespaceReceived conn nameSpace =>
    exact changes_unsubscribeNamespaceReceived r conn nameSpace

theorem changes_managerCall {records : Records} {call : ManagerCall}
    (hrecords : ∀ conn req full, call.subscribe? = some (conn, req, full) →
      records r.state conn req full)
    (h : r.managerCall q call = some r') : Changes q records True True r.state r'.state := by
  cases call with
  | client call =>
    cases h
    exact changes_call hrecords
  | statusError conn full =>
    cases h
    exact changes_statusError r conn full
  | subscribeInfoReceived peerSessionId si withdraw =>
    cases h
    exact changes_subscribeInfoReceived trivial trivial r peerSessionId si withdraw
  | announceInfoReceived peerSessionId info withdraw =>
    cases h
    exact changes_announceInfoReceived trivial r peerSessionId info withdraw
  | sessionLost peerSessionId => exact changes_sessionLost trivial trivial h
  | elsewhere rest =>
    cases h
    exact .refl

/-- The subscription that a call records, under a request that is not in use. -/
def recordsOf (call : ManagerCall) : Records := fun st conn req full =>
  call.subscribe? = some (conn, req, full) ∧ st.subscribeAliasReqId[(conn, req)]? = none

/-- The indexes agree, and have only requests that are in use. -/
structure IndexInv (q : Quicr) (used : Set (ConnectionHandle × RequestId)) (r : Relay) : Prop where
  agree : IndexesAgree q r.state
  used : ∀ key hash, r.state.subscribeAliasReqId[key]? = some hash → key ∈ used

theorem IndexInv.changes {used : Set (ConnectionHandle × RequestId)} {call : ManagerCall}
    (h : IndexInv q used r)
    (honce : ∀ conn req full, call.subscribe? = some (conn, req, full) → (conn, req) ∉ used)
    (hcall : r.managerCall q call = some r') :
    Changes q (recordsOf call) True True r.state r'.state := by
  refine changes_managerCall (fun conn req full hsub => ⟨hsub, ?_⟩) hcall
  rw [Option.eq_none_iff_forall_ne_some]
  exact fun hash hget => honce conn req full hsub (h.used _ hash hget)

/-- The end of a connection leaves nothing of it in the tables. -/
theorem noneOf_closed (hagree : IndexesAgree q r.state) {conn : ConnectionHandle}
    {status : ConnectionStatus} (hcloses : status.closes = true) :
    (r.connectionStatusChanged q conn status).state.NoneOf conn := by
  have hstatus : status ≠ .connected ∧ status ≠ .connecting := by
    simpa [ConnectionStatus.closes] using hcloses
  rw [connectionStatusChanged_eq q r conn hstatus.1 hstatus.2]
  have hnone := noneOf_disconnect_iff.mpr (hagree.indexed conn)
  exact ⟨hnone.subscribes, hnone.aliases, hnone.active⟩

theorem noneOf_managerCall (hagree : IndexesAgree q r.state) {call : ManagerCall}
    {conn : ConnectionHandle} (hclosed : call.closed? = some conn)
    (hcall : r.managerCall q call = some r') : r'.state.NoneOf conn := by
  cases call with
  | client call =>
    cases call with
    | connectionStatusChanged conn' status =>
      cases hcall
      have hclosed : (if status.closes then some conn' else none) = some conn := hclosed
      split at hclosed
      · rename_i hcloses
        cases hclosed
        exact noneOf_closed hagree hcloses
      · cases hclosed
    | _ => cases hclosed
  | _ => cases hclosed

theorem IndexInv.step {used : Set (ConnectionHandle × RequestId)} {call : ManagerCall}
    (h : IndexInv q used r)
    (honce : ∀ conn req full, call.subscribe? = some (conn, req, full) → (conn, req) ∉ used)
    (hcall : r.managerCall q call = some r') : IndexInv q (usedRequests used call) r' := by
  have hchanges := h.changes honce hcall
  have hagree : IndexesAgree q r'.state :=
    hchanges.keeps (fun _ _ hchange => .change (fun _ _ _ _ hrecords => hrecords.2) hchange) h.agree
  have hkeys := hchanges.keeps (fun _ _ hchange => aliases_change
    (fun key => key ∈ used ∨ ∃ full, call.subscribe? = some (key.1, key.2, full))
    (fun _ _ _ full hrecords => .inr ⟨full, hrecords.1⟩) hchange)
    fun key hash hget => .inl (h.used key hash hget)
  refine ⟨hagree, fun key hash hget => ?_⟩
  obtain hused | hsub := hkeys key hash hget
  · refine .inl ⟨hused, fun hclosed => ?_⟩
    -- Of a connection that is closed no request is in use.
    have hnone := (noneOf_managerCall h.agree hclosed hcall).aliases key.2
    rw [hget] at hnone
    cases hnone
  · exact .inr hsub

theorem indexInv_managerCalls {used : Set (ConnectionHandle × RequestId)}
    {calls : List ManagerCall} (h : IndexInv q used r) (honce : OneSubscribeEach used calls)
    (hrun : r.managerCalls q calls = some r') :
    IndexInv q (calls.foldl usedRequests used) r' := by
  induction calls generalizing r used with
  | nil =>
    cases hrun
    exact h
  | cons call calls ih =>
    obtain ⟨r₁, hcall, hrun⟩ := Option.bind_eq_some_iff.mp hrun
    exact ih (h.step honce.1 hcall) honce.2 hrun

theorem OneSubscribeEach.of_append {used : Set (ConnectionHandle × RequestId)}
    {calls after : List ManagerCall} (h : OneSubscribeEach used (calls ++ after)) :
    OneSubscribeEach used calls := by
  induction calls generalizing used with
  | nil => trivial
  | cons call calls ih => exact ⟨h.1, ih h.2⟩

theorem indexInv_new (q : Quicr) {r : Relay} (hnew : r.state = {}) : IndexInv q ∅ r := by
  refine ⟨?_, ?_⟩
  · rw [hnew]
    exact indexesAgree_empty q
  · rw [hnew]
    simp

/-- In every state that the calls lead to the three tables have the same subscriptions, and after
the close of a connection nothing of it. -/
theorem indexesAgree_managerCalls (q : Quicr) (r : Relay) (hnew : r.state = {})
    (calls : List ManagerCall) (honce : OneSubscribeEach ∅ calls) (r' : Relay)
    (hrun : r.managerCalls q calls = some r') :
    IndexesAgree q r'.state ∧
      ∀ before call conn, calls = before ++ [call] → call.closed? = some conn →
        r'.state.NoneOf conn := by
  refine ⟨(indexInv_managerCalls (indexInv_new q hnew) honce hrun).agree, ?_⟩
  rintro before call conn rfl hclosed
  obtain ⟨r₁, hbefore, hlast⟩ : ∃ r₁, r.managerCalls q before = some r₁ ∧
      r₁.managerCall q call = some r' := by
    unfold managerCalls at hrun
    rw [List.foldlM_append] at hrun
    obtain ⟨r₁, hbefore, hlast⟩ := Option.bind_eq_some_iff.mp hrun
    exact ⟨r₁, hbefore, by simpa using hlast⟩
  have hinv := indexInv_managerCalls (indexInv_new q hnew) honce.of_append hbefore
  exact noneOf_managerCall hinv.agree hclosed hlast

/-- Two clients subscribe to a track, its publisher comes, and one of them leaves. -/
def subscribePublishClose : List ManagerCall :=
  [.client (.subscribeReceived 7 1 ⟨[[1]], [2]⟩ {}),
   .client (.subscribeReceived 9 3 ⟨[[1]], [2]⟩ {}), .client (.publishReceived 8 5 ⟨[[1]], [2]⟩),
   .client (.connectionStatusChanged 7 .closedByRemote)]

theorem oneSubscribeEach_close : OneSubscribeEach ∅ subscribePublishClose := by
  refine ⟨?_, ?_, ?_, ?_, trivial⟩
  · exact fun _ _ _ _ hused => hused
  · intro conn req full h
    cases h
    rintro (⟨hused, -⟩ | ⟨full, hsub⟩)
    · exact hused
    · cases hsub
  · intro conn req full h
    cases h
  · intro conn req full h
    cases h

/-- The subscription of the other client stays. -/
theorem indexesAgree_close : ({ nodeId := 1 } : Relay).state = {} ∧
    OneSubscribeEach ∅ subscribePublishClose ∧
    ∃ r', ({ nodeId := 1 } : Relay).managerCalls .polynomial subscribePublishClose = some r' ∧
      IndexesAgree .polynomial r'.state ∧ r'.state.NoneOf 7 ∧
      r'.state.subscribes.contains
        ((Quicr.polynomial.trackHash ⟨[[1]], [2]⟩).trackFullnameHash, 9) = true := by
  refine ⟨rfl, oneSubscribeEach_close, ?_⟩
  have hstays : (({ nodeId := 1 } : Relay).managerCalls .polynomial subscribePublishClose).map
      (fun r => r.state.subscribes.contains
        ((Quicr.polynomial.trackHash ⟨[[1]], [2]⟩).trackFullnameHash, 9)) = some true := by
    decide +kernel
  obtain ⟨r', hr', hstays⟩ := Option.map_eq_some_iff.mp hstays
  have hrun := indexesAgree_managerCalls .polynomial _ rfl _ oneSubscribeEach_close r' hr'
  exact ⟨r', hr', hrun.1, hrun.2 [_, _, _] _ 7 rfl rfl, hstays⟩

/-! ### The handlers -/

/-- The calls subscribe to tracks of these names only. -/
def SubscribesIn (names : Set FullTrackName) (calls : List ManagerCall) : Prop :=
  ∀ call ∈ calls, ∀ conn req full, call.subscribe? = some (conn, req, full) → full ∈ names

theorem fanOutInv_managerCalls {names : Set FullTrackName} (hapart : NamesApart q names)
    {used : Set (ConnectionHandle × RequestId)} {calls : List ManagerCall} (h : IndexInv q used r)
    (hin : NamedIn names r.state) (hfans : FansOutToSubscribers r.state)
    (hnamed : SubscribesIn names calls) (honce : OneSubscribeEach used calls)
    (hrun : r.managerCalls q calls = some r') : FansOutToSubscribers r'.state := by
  induction calls generalizing r used with
  | nil =>
    cases hrun
    exact hfans
  | cons call calls ih =>
    obtain ⟨r₁, hcall, hrun⟩ := Option.bind_eq_some_iff.mp hrun
    have hstep := (h.changes honce.1 hcall).keeps
      (P := fun st => IndexesAgree q st ∧ NamedIn names st ∧ FansOutToSubscribers st)
      (fun st st' hchange hst => ⟨hst.1.change (fun _ _ _ _ hrecords => hrecords.2) hchange,
        hst.2.1.change (fun _ _ _ _ hrecords =>
          hnamed call List.mem_cons_self _ _ _ hrecords.1) hchange,
        hst.2.2.change hst.1 hst.2.1 hapart hchange⟩) ⟨h.agree, hin, hfans⟩
    exact ih (h.step honce.1 hcall) hstep.2.1 hstep.2.2
      (fun call hcall => hnamed call (List.mem_cons_of_mem _ hcall)) honce.2 hrun

/-- In every state that the calls lead to, a handler sends to clients that are subscribed to its
track. -/
theorem fansOutToSubscribers_managerCalls (q : Quicr) (names : Set FullTrackName)
    (hapart : NamesApart q names) (r : Relay) (hnew : r.state = {}) (calls : List ManagerCall)
    (hnamed : SubscribesIn names calls) (honce : OneSubscribeEach ∅ calls) (r' : Relay)
    (hrun : r.managerCalls q calls = some r') : FansOutToSubscribers r'.state := by
  refine fanOutInv_managerCalls hapart (indexInv_new q hnew) ?_ ?_ hnamed honce hrun
  · rw [hnew]
    intro key info hget
    simp at hget
  · rw [hnew]
    intro key h hget
    simp at hget

theorem fansOutToSubscribers_close :
    NamesApart .polynomial {(⟨[[1]], [2]⟩ : FullTrackName)} ∧
    SubscribesIn {(⟨[[1]], [2]⟩ : FullTrackName)} subscribePublishClose ∧
    OneSubscribeEach ∅ subscribePublishClose ∧
    ∃ r', ({ nodeId := 1 } : Relay).managerCalls .polynomial subscribePublishClose = some r' ∧
      FansOutToSubscribers r'.state := by
  have hapart : NamesApart .polynomial {(⟨[[1]], [2]⟩ : FullTrackName)} := by
    rintro f rfl f' rfl _ _
    rfl
  have hnamed : SubscribesIn {(⟨[[1]], [2]⟩ : FullTrackName)} subscribePublishClose := by
    intro call hcall conn req full hsub
    obtain rfl | rfl | rfl | rfl : call = .client (.subscribeReceived 7 1 ⟨[[1]], [2]⟩ {}) ∨
        call = .client (.subscribeReceived 9 3 ⟨[[1]], [2]⟩ {}) ∨
        call = .client (.publishReceived 8 5 ⟨[[1]], [2]⟩) ∨
        call = .client (.connectionStatusChanged 7 .closedByRemote) := by
      simpa [subscribePublishClose] using hcall
    · cases hsub
      rfl
    · cases hsub
      rfl
    · cases hsub
    · cases hsub
  obtain ⟨r', hr'⟩ : ∃ r', ({ nodeId := 1 } : Relay).managerCalls .polynomial
    subscribePublishClose = some r' := ⟨_, rfl⟩
  exact ⟨hapart, hnamed, oneSubscribeEach_close, r', hr',
    fansOutToSubscribers_managerCalls .polynomial _ hapart _ rfl _ hnamed oneSubscribeEach_close r'
      hr'⟩

end Runs

end Relay

end Laps
