import Laps.Lib.Runs
import Laps.Lib.Sweep
import Laps.Relay.Unsubscribe

/-! The interest of the clients: as long as a client is subscribed to a track, the relay's own
subscription is to stay among those that its peers know.  It is withdrawn by what the handlers of
publishers know, not by what the clients are subscribed to. -/

namespace Laps.Relay

open Std Client Peering Sweep

/-! ### Calls of the clients -/

inductive ClientCall where
  | subscribeReceived (conn : ConnectionHandle) (req : RequestId) (full : FullTrackName)
      (attrs : SubscribeAttributes)
  | unsubscribeReceived (conn : ConnectionHandle) (req : RequestId)
  | connectionStatusChanged (conn : ConnectionHandle) (status : ConnectionStatus)
  | publishReceived (conn : ConnectionHandle) (req : RequestId) (full : FullTrackName)
  | publishDoneReceived (conn : ConnectionHandle) (req : RequestId)
  | publishNamespaceReceived (conn : ConnectionHandle) (nameSpace : TrackNamespace)
      (req : RequestId)
  | publishNamespaceDoneReceived (conn : ConnectionHandle) (req : RequestId)
  | subscribeNamespaceReceived (conn : ConnectionHandle) (prefixNamespace : TrackNamespace)
  | unsubscribeNamespaceReceived (conn : ConnectionHandle) (prefixNamespace : TrackNamespace)
  deriving DecidableEq, Repr

def call (q : Quicr) (r : Relay) : ClientCall → Relay
  | .subscribeReceived conn req full attrs => r.subscribeReceived q conn req full attrs
  | .unsubscribeReceived conn req => r.unsubscribeReceived q conn req
  | .connectionStatusChanged conn status => r.connectionStatusChanged q conn status
  | .publishReceived conn req full => r.publishReceived q conn req full
  | .publishDoneReceived conn req => r.publishDoneReceived q conn req
  | .publishNamespaceReceived conn nameSpace req => r.publishNamespaceReceived q conn nameSpace req
  | .publishNamespaceDoneReceived conn req => r.publishNamespaceDoneReceived q conn req
  | .subscribeNamespaceReceived conn prefixNamespace =>
    r.subscribeNamespaceReceived q conn prefixNamespace
  | .unsubscribeNamespaceReceived conn prefixNamespace =>
    r.unsubscribeNamespaceReceived q conn prefixNamespace

def calls (q : Quicr) (r : Relay) (cs : List ClientCall) : Relay := cs.foldl (call q) r

/-! ### When the handlers stand for the subscriptions -/

/-- A handler keeps a subscriber, or a subscriber of a namespace, when those of some kinds go. -/
def KeepsSubscriber (gone : ConnectionHandle → Prop) (goneNs : UInt64 → ConnectionHandle → Prop)
    (h : SubscribeTrackHandler) : Prop :=
  (∃ c s, ¬ gone c ∧ h.subscribers[c]? = some s) ∨
    ∃ hash c handler, ¬ goneNs hash c ∧ h.subNamespaces.get₂? hash c = some handler

/-- The end of the connection ends a subscription to the track, or comes to a handler of it. -/
def Touches (q : Quicr) (r : Relay) (conn : ConnectionHandle) (hash : UInt64) : Prop :=
  (∃ (req : RequestId) (sub : SubscribePublishHandlerInfo),
    r.state.subscribeAliasReqId[(conn, req)]? = some hash ∧
    r.state.subscribes[(hash, conn)]? = some sub) ∨
  ∃ nameSpace handler key h,
    r.state.subscribesNamespaces.get₂? nameSpace conn = some handler ∧
    r.state.pubSubscribes[key]? = some h ∧ key.1 = hash ∧ Leaves q r conn nameSpace key h

/-- Before a call that takes subscriptions away: where a track that it is about keeps a client,
peers take data of the track or one of its handlers keeps a subscriber. -/
def KeepsServing (q : Quicr) (r : Relay) : ClientCall → Prop
  | .unsubscribeReceived conn req =>
    ∀ trackAlias sub, r.state.subscribeAliasReqId[(conn, req)]? = some trackAlias →
      r.state.subscribes[(trackAlias, conn)]? = some sub →
      (∃ c info, c ≠ conn ∧ r.state.subscribes[(trackAlias, c)]? = some info) →
      r.Serves (fun _ => KeepsSubscriber (· = conn) fun _ _ => False) trackAlias
  | .unsubscribeNamespaceReceived conn prefixNamespace =>
    ∀ handler, r.state.subscribesNamespaces.get₂? prefixNamespace conn = some handler →
      ∀ key h, r.state.pubSubscribes[key]? = some h → Leaves q r conn prefixNamespace key h →
      (∃ (c : ConnectionHandle) (info : SubscribePublishHandlerInfo),
        r.state.subscribes[(key.1, c)]? = some info) →
      r.Serves (fun key h => KeepsSubscriber (fun _ => False) (fun hash c =>
        Leaves q r conn prefixNamespace key h ∧
        hash = (q.trackHash ⟨handler.prefixNamespace, []⟩).trackFullnameHash ∧
        c = handler.connectionId) h) key.1
  | .connectionStatusChanged conn status =>
    status ≠ .connected → status ≠ .connecting → ∀ hash, Touches q r conn hash →
      (∃ (c : ConnectionHandle) (info : SubscribePublishHandlerInfo),
        r.state.subscribes[(hash, c)]? = some info ∧
        ¬ (c = conn ∧ ∃ req : RequestId, r.state.subscribeAliasReqId[(conn, req)]? = some hash)) →
      r.Serves (fun _ => KeepsSubscriber (· = conn) fun _ c => c = conn) hash
  | .publishDoneReceived conn req =>
    ∀ id full, r.state.pubSubscribesByReqId[(req, conn)]? = some (id, full) →
      r.config.detachedSubs = true ∨
      (∃ (key : UInt64 × ConnectionHandle) (h : SubscribeTrackHandler),
        r.state.pubSubscribes[key]? = some h ∧
        key.1 = (q.trackHash full).trackFullnameHash ∧ key.2 ≠ conn) ∨
      ∀ (c : ConnectionHandle) (info : SubscribePublishHandlerInfo),
        r.state.subscribes[((q.trackHash full).trackFullnameHash, c)]? = some info →
        r.state.subscribeAliasReqId[(c, info.requestId)]? =
          some (q.trackHash full).trackFullnameHash
  | _ => True

/-- The loop of `UnsubscribeNamespaceReceived`: the keys that it comes to, and the relay after it. -/
def leaveNamespaces (q : Quicr) (conn : ConnectionHandle) (prefixNamespace : TrackNamespace)
    (handler : PublishNamespaceHandler) (fuel : ℕ) (r : Relay) :
    Option (List (UInt64 × ConnectionHandle) × Relay) :=
  sweep (fun r : Relay => r.state.pubSubscribes)
    (fun r key => some (leaveNamespace q conn prefixNamespace handler r key)) fuel [] r

/-- The loop does not erase the handler that it stands on; what it does then is undefined. -/
def LeavesInPlace (q : Quicr) (r : Relay) (conn : ConnectionHandle)
    (prefixNamespace : TrackNamespace) : Prop :=
  ∀ handler, r.state.subscribesNamespaces.get₂? prefixNamespace conn = some handler →
    ∃ fuel, (leaveNamespaces q conn prefixNamespace handler fuel r).isSome = true

/-- The loops of the call are such. -/
def InPlace (q : Quicr) (r : Relay) : ClientCall → Prop
  | .unsubscribeNamespaceReceived conn prefixNamespace => LeavesInPlace q r conn prefixNamespace
  | .connectionStatusChanged conn status =>
    status ≠ .connected → status ≠ .connecting →
      Runs.Each (fun r row => r.unsubscribeNamespaceReceived q conn row.1)
        (fun r row => LeavesInPlace q r conn row.1) r
        (r.state.subscribesNamespaces.toList.filter fun row => row.2.contains conn)
  | _ => True

/-- Each call of the run is such, in the state before it. -/
def AllKeepServing (q : Quicr) : Relay → List ClientCall → Prop
  | _, [] => True
  | r, c :: cs => (InPlace q r c ∧ KeepsServing q r c) ∧ AllKeepServing q (r.call q c) cs

section Handlers

variable {gone : ConnectionHandle → Prop} {goneNs : UInt64 → ConnectionHandle → Prop}
variable {h : SubscribeTrackHandler}

theorem KeepsSubscriber.hasSubscribers (hkeeps : KeepsSubscriber gone goneNs h) :
    h.hasSubscribers = true := by
  unfold SubscribeTrackHandler.hasSubscribers
  rw [Bool.or_eq_true]
  rcases hkeeps with ⟨c, s, -, hget⟩ | ⟨hash, c, handler, -, hget⟩
  · left
    rw [Bool.not_eq_true', ExtTreeMap.isEmpty_eq_false_iff_getElem?]
    exact ⟨c, s, hget⟩
  · right
    obtain ⟨row, hrow, -⟩ := ExtTreeMap.get₂?_eq_some.mp hget
    rw [Bool.not_eq_true', ExtTreeMap.isEmpty_eq_false_iff_getElem?]
    exact ⟨hash, row, hrow⟩

theorem KeepsSubscriber.removeSubscriber (hkeeps : KeepsSubscriber gone goneNs h)
    {conn : ConnectionHandle} (hconn : gone conn) :
    KeepsSubscriber gone goneNs (h.removeSubscriber conn) := by
  have hsubscribers : (h.removeSubscriber conn).subscribers = h.subscribers.erase conn := by
    unfold SubscribeTrackHandler.removeSubscriber
    dsimp only
    split <;> rfl
  have hnameSpaces : (h.removeSubscriber conn).subNamespaces = h.subNamespaces := by
    unfold SubscribeTrackHandler.removeSubscriber
    dsimp only
    split <;> rfl
  unfold KeepsSubscriber
  rw [hsubscribers, hnameSpaces]
  refine hkeeps.imp_left ?_
  rintro ⟨c, s, hc, hget⟩
  have hne : conn ≠ c := fun heq => hc (heq ▸ hconn)
  exact ⟨c, s, hc, by simpa [ExtTreeMap.getElem?_erase, hne] using hget⟩

theorem KeepsSubscriber.removeSubscribeNamespace (q : Quicr) (hkeeps : KeepsSubscriber gone goneNs h)
    {handler : PublishNamespaceHandler}
    (hhandler : goneNs (q.trackHash ⟨handler.prefixNamespace, []⟩).trackFullnameHash
      handler.connectionId) :
    KeepsSubscriber gone goneNs (h.removeSubscribeNamespace q handler) := by
  refine hkeeps.imp_right ?_
  rintro ⟨hash, c, other, hc, hget⟩
  refine ⟨hash, c, other, hc, ?_⟩
  show (h.subNamespaces.erase₂ _ _).get₂? hash c = some other
  rw [ExtTreeMap.get₂?_erase₂, if_neg]
  · exact hget
  · rintro ⟨rfl, rfl⟩
    exact hc hhandler

end Handlers

/-! ### Each call -/

section Calls

variable {q : Quicr} {r : Relay}

/-- After a call that takes away: where the relay's own subscription went no client is left. -/
theorem Advertises.of_shrinks {W : UInt64 × ConnectionHandle → SubscribeTrackHandler → Prop}
    {T : UInt64 → Prop} {r' : Relay} (h : Advertises q r) (hshrinks : Shrinks W T r r')
    (hserves : ∀ (key : UInt64 × ConnectionHandle) info, r'.state.subscribes[key]? = some info →
      T key.1 → r.Serves W key.1) : Advertises q r' := by
  refine ⟨hshrinks.keyed h.toKeyed, fun key info hget => ?_⟩
  obtain ⟨si, hsi⟩ := h.advertised key info (hshrinks.subscribes key info hget)
  rw [hshrinks.nodeId]
  rcases hshrinks.own key.1 si hsi with hown | ⟨hT, hnot⟩
  · exact ⟨si, hown⟩
  · exact absurd (hserves key info hget hT) hnot

theorem advertises_unsubscribeReceived (h : Advertises q r) {conn : ConnectionHandle}
    {req : RequestId} (hserving : KeepsServing q r (.unsubscribeReceived conn req)) :
    Advertises q (r.unsubscribeReceived q conn req) := by
  have hshrinks : Shrinks (fun _ => KeepsSubscriber (· = conn) fun _ _ => False)
      (fun a => r.state.subscribeAliasReqId[(conn, req)]? = some a ∧
        ∃ sub, r.state.subscribes[(a, conn)]? = some sub) r (r.unsubscribeReceived q conn req) :=
    shrinks_unsubscribeReceived h.toKeyed (fun _ _ hkeeps => hkeeps.hasSubscribers)
      (fun _ _ hkeeps => hkeeps.removeSubscriber rfl) fun _ sub halias hsub => ⟨halias, sub, hsub⟩
  refine h.of_shrinks hshrinks ?_
  rintro ⟨a, c⟩ info hget ⟨halias, sub, hsub⟩
  refine hserving a sub halias hsub ⟨c, info, ?_, hshrinks.subscribes _ _ hget⟩
  rintro rfl
  cases (subscribes_unsubscribeReceived q halias).symm.trans hget

theorem advertises_unsubscribeNamespaceReceived (h : Advertises q r) {conn : ConnectionHandle}
    {prefixNamespace : TrackNamespace}
    (hserving : KeepsServing q r (.unsubscribeNamespaceReceived conn prefixNamespace)) :
    Advertises q (r.unsubscribeNamespaceReceived q conn prefixNamespace) := by
  cases hstored : r.state.subscribesNamespaces.get₂? prefixNamespace conn with
  | none =>
    have hshrinks : Shrinks (fun _ _ => False) (fun _ => False) r
        (r.unsubscribeNamespaceReceived q conn prefixNamespace) := by
      apply shrinks_unsubscribeNamespaceReceived h.toKeyed
      · exact fun _ _ hW => hW.elim
      · exact fun _ _ _ _ _ hW => hW.elim
      · intro handler hhandler
        cases hstored.symm.trans hhandler
    exact h.of_shrinks hshrinks fun _ _ _ hT => hT.elim
  | some handler =>
    have hshrinks : Shrinks (fun key h => KeepsSubscriber (fun _ => False) (fun hash c =>
        Leaves q r conn prefixNamespace key h ∧
        hash = (q.trackHash ⟨handler.prefixNamespace, []⟩).trackFullnameHash ∧
        c = handler.connectionId) h)
        (fun a => ∃ key h, r.state.pubSubscribes[key]? = some h ∧
          Leaves q r conn prefixNamespace key h ∧ key.1 = a) r
        (r.unsubscribeNamespaceReceived q conn prefixNamespace) := by
      apply shrinks_unsubscribeNamespaceReceived h.toKeyed
      · exact fun _ _ hkeeps => hkeeps.hasSubscribers
      · intro handler' hhandler' key h' hleaves hkeeps
        obtain rfl := Option.some.inj (hstored.symm.trans hhandler')
        exact hkeeps.removeSubscribeNamespace q ⟨hleaves, rfl, rfl⟩
      · intro _ _ key h' hget hleaves
        exact ⟨key, h', hget, hleaves, rfl⟩
    refine h.of_shrinks hshrinks ?_
    rintro key info hget ⟨key', h', hget', hleaves, heq⟩
    rw [← heq]
    refine hserving handler hstored key' h' hget' hleaves ⟨key.2, info, ?_⟩
    rw [heq]
    exact hshrinks.subscribes _ _ hget

theorem alias_unsubscribeNamespaceReceived (q : Quicr) (r : Relay) (conn : ConnectionHandle)
    (prefixNamespace : TrackNamespace) :
    (r.unsubscribeNamespaceReceived q conn prefixNamespace).state.subscribeAliasReqId =
      r.state.subscribeAliasReqId := by
  have hleave : ∀ handler (r : Relay) key,
      (leaveNamespace q conn prefixNamespace handler r key).state.subscribeAliasReqId =
        r.state.subscribeAliasReqId := by
    intro handler r key
    unfold leaveNamespace
    split
    · rfl
    · split
      · rfl
      · split
        · exact (removeOrPause_tables _ _).2
        · rfl
  unfold unsubscribeNamespaceReceived
  split
  · rfl
  · split
    · split
      · rfl
      · rfl
    · rename_i handler _
      exact foldl_related (R := fun r r' : Relay =>
        r'.state.subscribeAliasReqId = r.state.subscribeAliasReqId) (fun _ => rfl)
        (fun h₁ h₂ => h₂.trans h₁) (hleave handler) r _

/-- The end of a connection. -/
def disconnect (q : Quicr) (r : Relay) (conn : ConnectionHandle) : Relay :=
  let removeNs := r.state.subscribesNamespaces.toList.filter fun row => row.2.contains conn
  let r := removeNs.foldl (fun r row => r.unsubscribeNamespaceReceived q conn row.1) r
  let unsubList := r.state.subscribeAliasReqId.withFst conn
  unsubList.foldl (fun r entry => r.unsubscribeReceived q entry.1.1 entry.1.2) r

theorem connectionStatusChanged_eq (q : Quicr) (r : Relay) (conn : ConnectionHandle)
    {status : ConnectionStatus} (h₁ : status ≠ .connected) (h₂ : status ≠ .connecting) :
    r.connectionStatusChanged q conn status = (disconnect q r conn).purgePublishState conn := by
  cases status with
  | connected => exact absurd rfl h₁
  | connecting => exact absurd rfl h₂
  | notConnected => rfl
  | idleTimeout => rfl
  | closedByRemote => rfl

theorem advertises_connectionStatusChanged (h : Advertises q r) {conn : ConnectionHandle}
    {status : ConnectionStatus}
    (hserving : KeepsServing q r (.connectionStatusChanged conn status)) :
    Advertises q (r.connectionStatusChanged q conn status) := by
  by_cases h₁ : status = .connected
  · rw [h₁]
    exact h
  by_cases h₂ : status = .connecting
  · rw [h₂]
    exact h
  rw [connectionStatusChanged_eq q r conn h₁ h₂]
  refine Advertises.of_sameInterest ?_ (sameInterest_mapState rfl rfl)
  unfold disconnect
  set removeNs := r.state.subscribesNamespaces.toList.filter fun row => row.2.contains conn
  set left := removeNs.foldl (fun r row => r.unsubscribeNamespaceReceived q conn row.1) r with hleft
  have hns : Shrinks (fun _ => KeepsSubscriber (· = conn) fun _ c => c = conn) (Touches q r conn) r
      left := by
    refine Shrinks.foldl removeNs (.refl r) fun r' row _ hr' => ?_
    apply shrinks_unsubscribeNamespaceReceived (hr'.keyed h.toKeyed)
    · exact fun _ _ hkeeps => hkeeps.hasSubscribers
    · intro handler hhandler key h' _ hkeeps
      exact hkeeps.removeSubscribeNamespace q ((hr'.keyed h.toKeyed).nameSpaces _ _ _ hhandler)
    · intro handler hhandler key h' hget hleaves
      obtain ⟨old, hold, hname⟩ := hr'.handlers key h' hget
      refine Or.inr ⟨row.1, handler, key, old, hr'.nameSpaces _ _ _ hhandler, hold, rfl, ?_⟩
      unfold Leaves at hleaves ⊢
      rwa [← hname, ← hr'.config]
  have haliases : left.state.subscribeAliasReqId = r.state.subscribeAliasReqId := by
    refine foldl_related (R := fun r r' : Relay =>
      r'.state.subscribeAliasReqId = r.state.subscribeAliasReqId) (fun _ => rfl)
      (fun h₁ h₂ => h₂.trans h₁) ?_ r removeNs
    exact fun r row => alias_unsubscribeNamespaceReceived q r conn row.1
  have hkeyed := hns.keyed h.toKeyed
  have hunsubs : Shrinks (fun _ => KeepsSubscriber (· = conn) fun _ c => c = conn)
      (Touches q r conn) left ((left.state.subscribeAliasReqId.withFst conn).foldl
        (fun r entry => r.unsubscribeReceived q entry.1.1 entry.1.2) left) := by
    apply shrinks_unsubscribes
      (k := fun entry : (ConnectionHandle × RequestId) × UInt64 => entry.1) hkeyed
    · exact fun _ _ hkeeps => hkeeps.hasSubscribers
    · intro entry hentry _ _ hkeeps
      exact hkeeps.removeSubscriber (ExtTreeMap.mem_withFst.mp hentry).2
    · rintro ⟨⟨c, req⟩, trackAlias'⟩ hentry trackAlias sub halias hsub
      obtain rfl : c = conn := (ExtTreeMap.mem_withFst.mp hentry).2
      exact Or.inl ⟨req, sub, hns.aliases _ _ halias, hns.subscribes _ _ hsub⟩
  refine h.of_shrinks (hns.trans hunsubs) ?_
  rintro ⟨a, c⟩ info hget htouches
  refine hserving h₁ h₂ a htouches ⟨c, info, (hns.trans hunsubs).subscribes _ _ hget, ?_⟩
  rintro ⟨rfl, req, halias⟩
  -- The subscription was among those that the loop has ended.
  rw [← haliases] at halias
  have hmem : ((c, req), a) ∈ left.state.subscribeAliasReqId.withFst c :=
    ExtTreeMap.mem_withFst.mpr ⟨halias, rfl⟩
  have hgone := subscribes_unsubscribes (k := fun entry => entry.1) hkeyed
    (ExtTreeMap.pairwise_withFst_ne.imp fun hne heq => hne (congrArg Prod.snd heq)) hmem halias
  cases hgone.symm.trans hget

/-- The subscribers of a track without publishers are unsubscribed one after the other. -/
theorem advertises_unsubscribeOrphans (h : Advertises q r) {hash : UInt64}
    (halias : (r.state.pubSubscribes.withFst hash).isEmpty = true → r.config.detachedSubs = false →
      ∀ (c : ConnectionHandle) (info : SubscribePublishHandlerInfo),
        r.state.subscribes[(hash, c)]? = some info →
        r.state.subscribeAliasReqId[(c, info.requestId)]? = some hash) :
    Advertises q (r.unsubscribeOrphans q hash) := by
  unfold unsubscribeOrphans
  split
  · rename_i horphans
    rw [Bool.and_eq_true, Bool.not_eq_true'] at horphans
    have hmapped : ∀ entry ∈ r.state.subscribes.withFst hash,
        r.state.subscribeAliasReqId[(entry.1.2, entry.2.requestId)]? = some hash := by
      rintro ⟨⟨a, c⟩, info⟩ hentry
      obtain ⟨hget, rfl⟩ := ExtTreeMap.mem_withFst.mp hentry
      exact halias horphans.1 horphans.2 c info hget
    have hshrinks : Shrinks (fun _ _ => False) (fun a => a = hash) r
        ((r.state.subscribes.withFst hash).foldl
          (fun r entry => r.unsubscribeReceived q entry.1.2 entry.2.requestId) r) := by
      apply shrinks_unsubscribes (k := fun entry :
        (UInt64 × ConnectionHandle) × SubscribePublishHandlerInfo =>
          (entry.1.2, entry.2.requestId)) h.toKeyed
      · exact fun _ _ hW => hW.elim
      · exact fun _ _ _ _ hW => hW.elim
      · intro entry hentry trackAlias sub halias' _
        exact Option.some.inj (halias'.symm.trans (hmapped entry hentry))
    refine h.of_shrinks hshrinks ?_
    rintro ⟨a, c⟩ info hget rfl
    have hentry : ((a, c), info) ∈ r.state.subscribes.withFst a :=
      ExtTreeMap.mem_withFst.mpr ⟨hshrinks.subscribes _ _ hget, rfl⟩
    have hgone := subscribes_unsubscribes
      (k := fun entry => (entry.1.2, entry.2.requestId)) h.toKeyed
      (ExtTreeMap.pairwise_withFst_ne.imp fun hne heq => hne (congrArg Prod.fst heq)) hentry
      (hmapped _ hentry)
    cases hgone.symm.trans hget
  · exact h

theorem advertises_publishDoneReceived (h : Advertises q r) {conn : ConnectionHandle}
    {req : RequestId} (hserving : KeepsServing q r (.publishDoneReceived conn req)) :
    Advertises q (r.publishDoneReceived q conn req) := by
  unfold publishDoneReceived
  split
  · exact h
  · rename_i id full hget
    dsimp only
    refine Advertises.of_sameInterest ?_ (sameInterest_mapState rfl rfl)
    set r₁ := if conn = 0 then r else r.clientAnnounce q full true false with hr₁
    have hsame : SameInterest r r₁ := by
      rw [hr₁]
      split
      · exact .refl r
      · exact sameInterest_clientAnnounce q r full true false
    have hstate : r₁.state = r.state ∧ r₁.config = r.config := by
      rw [hr₁]
      split
      · exact ⟨rfl, rfl⟩
      · exact ⟨rfl, rfl⟩
    apply advertises_unsubscribeOrphans
    · exact h.of_sameInterest (hsame.trans (sameInterest_mapState rfl rfl))
    · intro hempty hdetached c info hsub
      change r₁.config.detachedSubs = false at hdetached
      change r₁.state.subscribes[_]? = some info at hsub
      change r₁.state.subscribeAliasReqId[_]? = some _
      rw [hstate.2] at hdetached
      rw [hstate.1] at hsub ⊢
      rcases hserving id full hget with hd | ⟨key, handler, hkey, hhash, hconn⟩ | hall
      · cases hdetached.symm.trans hd
      · -- The other handler of the track is still there.
        have hmem : (key, handler) ∈ (r₁.state.pubSubscribes.erase
            ((q.trackHash full).trackFullnameHash, conn)).withFst
              (q.trackHash full).trackFullnameHash := by
          rw [ExtTreeMap.mem_withFst, hstate.1, ExtTreeMap.getElem?_erase, if_neg]
          · exact ⟨hkey, hhash⟩
          · rw [LawfulEqOrd.compare_eq_iff_eq]
            exact fun heq => hconn (congrArg Prod.snd heq).symm
        have hnil := List.isEmpty_iff.mp hempty
        exact absurd (hnil ▸ hmem : (key, handler) ∈ []) List.not_mem_nil
      · exact hall c info hsub

theorem advertises_subscribeNamespaceReceived (h : Advertises q r) (conn : ConnectionHandle)
    (prefixNamespace : TrackNamespace) :
    Advertises q (r.subscribeNamespaceReceived q conn prefixNamespace) := by
  refine ⟨⟨h.client, h.own, ?_⟩, h.advertised⟩
  intro ns c handler hget
  obtain ⟨row, hrow, hhandler⟩ := ExtTreeMap.get₂?_eq_some.mp hget
  change (r.state.subscribesNamespaces.insert prefixNamespace
    ((r.state.subscribesNamespaces.getD prefixNamespace ∅).insertIfNew conn
      ⟨prefixNamespace, conn⟩))[ns]? = some row at hrow
  rw [ExtTreeMap.getElem?_insert] at hrow
  split at hrow
  · rename_i heq
    obtain rfl : prefixNamespace = ns := LawfulEqOrd.eq_of_compare heq
    cases hrow
    rw [ExtTreeMap.getElem?_insertIfNew] at hhandler
    split at hhandler
    · rename_i hnew
      obtain rfl : conn = c := LawfulEqOrd.eq_of_compare hnew.1
      cases hhandler
      rfl
    · refine h.nameSpaces prefixNamespace c handler ?_
      rw [ExtTreeMap.getD_eq_getD_getElem?] at hhandler
      cases hold : r.state.subscribesNamespaces[prefixNamespace]? with
      | none => simp [hold] at hhandler
      | some row =>
        rw [hold] at hhandler
        exact ExtTreeMap.get₂?_eq_some.mpr ⟨row, hold, hhandler⟩
  · exact h.nameSpaces ns c handler (ExtTreeMap.get₂?_eq_some.mpr ⟨row, hrow, hhandler⟩)

/-- `ClientSubscribe` makes the relay's own subscription, if there is none. -/
theorem get₂?_clientSubscribe (h : Keyed q r) (full : FullTrackName) {subscribeData : List UInt8}
    (hdata : subscribeData ≠ []) :
    (∃ si, (r.clientSubscribe q full subscribeData).infoBase.subscribes.get₂?
        (q.trackHash full).trackFullnameHash r.nodeId = some si ∧
      si.trackHash.trackFullnameHash = (q.trackHash full).trackFullnameHash ∧
      si.sourceNodeId = r.nodeId) ∧
    ∀ hash, hash ≠ (q.trackHash full).trackFullnameHash →
      (r.clientSubscribe q full subscribeData).infoBase.subscribes.get₂? hash r.nodeId =
        r.infoBase.subscribes.get₂? hash r.nodeId := by
  set si : SubscribeInfo :=
    { sourceNodeId := r.nodeId, trackHash := q.trackHash full, subscribeData } with hsi
  have hinfo : (r.clientSubscribe q full subscribeData).infoBase =
      (r.infoBase.addSubscribe si).1 := by
    unfold clientSubscribe
    rw [if_neg (by simpa using hdata)]
    rfl
  have hinsert : (r.infoBase.subscribes.insert₂ (q.trackHash full).trackFullnameHash r.nodeId
        si).get₂? (q.trackHash full).trackFullnameHash r.nodeId = some si ∧
      ∀ hash, hash ≠ (q.trackHash full).trackFullnameHash →
        (r.infoBase.subscribes.insert₂ (q.trackHash full).trackFullnameHash r.nodeId si).get₂?
          hash r.nodeId = r.infoBase.subscribes.get₂? hash r.nodeId := by
    refine ⟨by simp [ExtTreeMap.get₂?_insert₂], fun hash hne => ?_⟩
    rw [ExtTreeMap.get₂?_insert₂, if_neg fun hkey => hne hkey.1]
  rw [hinfo]
  unfold InfoBase.addSubscribe
  cases hold : r.infoBase.subscribes.get₂? (q.trackHash full).trackFullnameHash r.nodeId with
  | none =>
    simp only [hsi]
    exact ⟨⟨si, hinsert.1, rfl, rfl⟩, hinsert.2⟩
  | some old =>
    simp only [hsi]
    split
    · exact ⟨⟨old, hold, h.own _ old hold⟩, fun _ _ => rfl⟩
    · exact ⟨⟨si, hinsert.1, rfl, rfl⟩, hinsert.2⟩

theorem clientSubscribe_rest (q : Quicr) (r : Relay) (full : FullTrackName)
    (subscribeData : List UInt8) :
    (r.clientSubscribe q full subscribeData).nodeId = r.nodeId ∧
      (r.clientSubscribe q full subscribeData).state = r.state := by
  unfold clientSubscribe
  split
  · exact ⟨rfl, rfl⟩
  · exact ⟨rfl, rfl⟩

/-- A client's subscription to the track comes with the relay's own. -/
theorem advertises_clientSubscribe (h : Keyed q r) {full : FullTrackName}
    {subscribeData : List UInt8} (hdata : subscribeData ≠ [])
    (hadvertised : ∀ (key : UInt64 × ConnectionHandle) info, r.state.subscribes[key]? = some info →
      key.1 = (q.trackHash full).trackFullnameHash ∨
        ∃ si, r.infoBase.subscribes.get₂? key.1 r.nodeId = some si) :
    Advertises q (r.clientSubscribe q full subscribeData) := by
  obtain ⟨hnode, hstate⟩ := clientSubscribe_rest q r full subscribeData
  obtain ⟨⟨si, hsi, hhash, hsource⟩, hother⟩ := get₂?_clientSubscribe h full hdata
  refine ⟨⟨?_, ?_, ?_⟩, ?_⟩
  · rw [hstate]
    exact h.client
  · rw [hnode]
    intro hash si' hget
    by_cases heq : hash = (q.trackHash full).trackFullnameHash
    · subst heq
      obtain rfl := Option.some.inj (hsi.symm.trans hget)
      exact ⟨hhash, hsource⟩
    · rw [hother hash heq] at hget
      exact h.own hash si' hget
  · rw [hstate]
    exact h.nameSpaces
  · rw [hstate, hnode]
    intro key info hget
    by_cases heq : key.1 = (q.trackHash full).trackFullnameHash
    · rw [heq]
      exact ⟨si, hsi⟩
    · rw [hother key.1 heq]
      exact (hadvertised key info hget).resolve_left heq

theorem advertises_recordSubscribe (hserialize : ∀ msg, q.serializeSubscribe msg ≠ [])
    (h : Advertises q r) (conn : ConnectionHandle) (req : RequestId) (full : FullTrackName)
    (attrs : SubscribeAttributes) :
    Advertises q (r.recordSubscribe q conn req (q.trackHash full) full attrs) := by
  have hnew : ∀ {info info' : SubscribePublishHandlerInfo} {key : UInt64 × ConnectionHandle},
      (r.state.subscribes.insertIfNew ((q.trackHash full).trackFullnameHash, conn) info)[key]? =
        some info' → (key.1 = (q.trackHash full).trackFullnameHash ∧ info' = info) ∨
        r.state.subscribes[key]? = some info' := by
    intro info info' key hget
    rw [ExtTreeMap.getElem?_insertIfNew] at hget
    split at hget
    · rename_i hkey
      rw [← LawfulEqOrd.eq_of_compare hkey.1]
      exact Or.inl ⟨rfl, (Option.some.inj hget).symm⟩
    · exact Or.inr hget
  unfold recordSubscribe
  dsimp only
  refine advertises_clientSubscribe ?_ (hserialize _) ?_
  · refine ⟨fun key info hget => ?_, h.own, h.nameSpaces⟩
    rcases hnew hget with ⟨hkey, rfl⟩ | hold
    · exact hkey.symm
    · exact h.client key info hold
  · intro key info hget
    rcases hnew hget with ⟨hkey, -⟩ | hold
    · exact Or.inl hkey
    · exact Or.inr (h.advertised key info hold)

theorem advertises_subscribeReceived (hserialize : ∀ msg, q.serializeSubscribe msg ≠ [])
    (h : Advertises q r) (conn : ConnectionHandle) (req : RequestId) (full : FullTrackName)
    (attrs : SubscribeAttributes) :
    Advertises q (r.subscribeReceived q conn req full attrs) := by
  unfold subscribeReceived
  dsimp only
  split
  · exact h
  · unfold processSubscribe
    refine Advertises.of_sameInterest ?_ (sameInterest_addToPublishers q _ conn _ full _)
    split
    · exact h
    · exact advertises_recordSubscribe hserialize h conn req full attrs

/-- Every call keeps the relay's own subscriptions, if before it the handlers stand for the clients
that it takes no subscription from. -/
theorem Advertises.call (hserialize : ∀ msg, q.serializeSubscribe msg ≠ []) (h : Advertises q r)
    (c : ClientCall) (hserving : KeepsServing q r c) : Advertises q (r.call q c) := by
  cases c with
  | subscribeReceived conn req full attrs =>
    exact advertises_subscribeReceived hserialize h conn req full attrs
  | unsubscribeReceived conn req => exact advertises_unsubscribeReceived h hserving
  | connectionStatusChanged conn status => exact advertises_connectionStatusChanged h hserving
  | publishReceived conn req full =>
    exact h.of_sameInterest (sameInterest_publishReceived q r conn req full)
  | publishDoneReceived conn req => exact advertises_publishDoneReceived h hserving
  | publishNamespaceReceived conn nameSpace req =>
    exact h.of_sameInterest (sameInterest_publishNamespaceReceived q r conn nameSpace req)
  | publishNamespaceDoneReceived conn req =>
    exact h.of_sameInterest (sameInterest_publishNamespaceDoneReceived q r conn req)
  | subscribeNamespaceReceived conn prefixNamespace =>
    exact advertises_subscribeNamespaceReceived h conn prefixNamespace
  | unsubscribeNamespaceReceived conn prefixNamespace =>
    exact advertises_unsubscribeNamespaceReceived h hserving

theorem Advertises.calls (hserialize : ∀ msg, q.serializeSubscribe msg ≠ []) {cs : List ClientCall}
    (h : Advertises q r) (hserving : AllKeepServing q r cs) : Advertises q (r.calls q cs) := by
  induction cs generalizing r with
  | nil => exact h
  | cons c cs ih => exact ih (h.call hserialize c hserving.1.2) hserving.2

/-- A relay without clients and without subscriptions of its own. -/
theorem advertises_of_empty (hclients : ∀ key : UInt64 × ConnectionHandle,
      r.state.subscribes[key]? = none)
    (hnameSpaces : ∀ ns conn, r.state.subscribesNamespaces.get₂? ns conn = none)
    (hown : ∀ hash, r.infoBase.subscribes.get₂? hash r.nodeId = none) : Advertises q r := by
  refine ⟨⟨?_, ?_, ?_⟩, ?_⟩
  · intro key info hget
    cases (hclients key).symm.trans hget
  · intro hash si hget
    cases (hown hash).symm.trans hget
  · intro ns conn handler hget
    cases (hnameSpaces ns conn).symm.trans hget
  · intro key info hget
    cases (hclients key).symm.trans hget

end Calls

/-- In every run of calls of the clients from a relay that has none, such that before each call the
handlers stand for the clients that keep their subscriptions: a track that some client is subscribed
to is among the relay's own subscriptions. -/
theorem interest_advertised (q : Quicr) (hserialize : ∀ msg, q.serializeSubscribe msg ≠ [])
    (r : Relay) (hclients : ∀ key : UInt64 × ConnectionHandle, r.state.subscribes[key]? = none)
    (hnameSpaces : ∀ ns conn, r.state.subscribesNamespaces.get₂? ns conn = none)
    (hown : ∀ hash, r.infoBase.subscribes.get₂? hash r.nodeId = none) (cs : List ClientCall)
    (hserving : AllKeepServing q r cs) (trackAlias : UInt64) (conn : ConnectionHandle)
    (info : SubscribePublishHandlerInfo)
    (hget : (r.calls q cs).state.subscribes[(trackAlias, conn)]? = some info) :
    ∃ si, (r.calls q cs).infoBase.subscribes.get₂? trackAlias (r.calls q cs).nodeId = some si :=
  ((advertises_of_empty hclients hnameSpaces hown).calls hserialize hserving).advertised
    (trackAlias, conn) info hget

/-- A client publishes the track, two subscribe to it, and the first of these unsubscribes. -/
def publishedCalls : List ClientCall :=
  [.publishReceived 3 0 ⟨[[1]], [2]⟩, .subscribeReceived 1 5 ⟨[[1]], [2]⟩ {},
    .subscribeReceived 2 6 ⟨[[1]], [2]⟩ {}, .unsubscribeReceived 1 5]

theorem allKeepServing_publishedCalls :
    AllKeepServing .polynomial ({ nodeId := 7 } : Relay) publishedCalls := by
  refine ⟨⟨trivial, trivial⟩, ⟨trivial, trivial⟩, ⟨trivial, trivial⟩, ⟨trivial, ?_⟩, trivial⟩
  intro trackAlias sub halias _ _
  have hhash : trackAlias = (Quicr.polynomial.trackHash ⟨[[1]], [2]⟩).trackFullnameHash := by
    have hsome : (({ nodeId := 7 } : Relay).calls .polynomial
        (publishedCalls.take 3)).state.subscribeAliasReqId[((1, 5) : ConnectionHandle × RequestId)]? =
        some (Quicr.polynomial.trackHash ⟨[[1]], [2]⟩).trackFullnameHash := by decide +kernel
    exact Option.some.inj (halias.symm.trans hsome)
  have hhandler : ((({ nodeId := 7 } : Relay).calls .polynomial
      (publishedCalls.take 3)).state.pubSubscribes[
        (((Quicr.polynomial.trackHash ⟨[[1]], [2]⟩).trackFullnameHash, 3) :
          UInt64 × ConnectionHandle)]?.bind fun h => h.subscribers[(2 : ConnectionHandle)]?).isSome =
      true := by decide +kernel
  obtain ⟨s, hs⟩ := Option.isSome_iff_exists.mp hhandler
  obtain ⟨h, hget, hsub⟩ := Option.bind_eq_some_iff.mp hs
  exact Or.inr ⟨_, h, hget, hhash.symm, Or.inl ⟨2, s, by decide, hsub⟩⟩

theorem interest_advertised_published :
    ∃ si, (({ nodeId := 7 } : Relay).calls .polynomial publishedCalls).infoBase.subscribes.get₂?
      (Quicr.polynomial.trackHash ⟨[[1]], [2]⟩).trackFullnameHash
      (({ nodeId := 7 } : Relay).calls .polynomial publishedCalls).nodeId = some si := by
  have hclient : ((({ nodeId := 7 } : Relay).calls .polynomial publishedCalls).state.subscribes[
      (((Quicr.polynomial.trackHash ⟨[[1]], [2]⟩).trackFullnameHash, 2) :
        UInt64 × ConnectionHandle)]?).isSome = true := by decide +kernel
  obtain ⟨info, hinfo⟩ := Option.isSome_iff_exists.mp hclient
  exact interest_advertised .polynomial (fun msg => by simp [Quicr.polynomial]) { nodeId := 7 }
    (fun _ => by simp) (fun _ _ => rfl) (fun _ => rfl) publishedCalls allKeepServing_publishedCalls
    _ 2 info hinfo

/-- Without a publisher at this relay the first unsubscribe withdraws the relay's subscription. -/
theorem not_interest_advertised :
    ¬ ∀ (cs : List ClientCall) (trackAlias : UInt64) (conn : ConnectionHandle)
      (info : SubscribePublishHandlerInfo),
      (({ nodeId := 7 } : Relay).calls .polynomial cs).state.subscribes[(trackAlias, conn)]? =
        some info →
      ∃ si, (({ nodeId := 7 } : Relay).calls .polynomial cs).infoBase.subscribes.get₂? trackAlias 7 =
        some si := by
  intro hclaim
  have hclient : ((({ nodeId := 7 } : Relay).calls .polynomial
      [.subscribeReceived 1 5 ⟨[[1]], [2]⟩ {}, .subscribeReceived 2 6 ⟨[[1]], [2]⟩ {},
        .unsubscribeReceived 1 5]).state.subscribes[
      (((Quicr.polynomial.trackHash ⟨[[1]], [2]⟩).trackFullnameHash, 2) :
        UInt64 × ConnectionHandle)]?).isSome = true := by decide +kernel
  have hgone : (({ nodeId := 7 } : Relay).calls .polynomial
      [.subscribeReceived 1 5 ⟨[[1]], [2]⟩ {}, .subscribeReceived 2 6 ⟨[[1]], [2]⟩ {},
        .unsubscribeReceived 1 5]).infoBase.subscribes.get₂?
      (Quicr.polynomial.trackHash ⟨[[1]], [2]⟩).trackFullnameHash 7 = none := by decide +kernel
  obtain ⟨info, hinfo⟩ := Option.isSome_iff_exists.mp hclient
  obtain ⟨si, hsi⟩ := hclaim _ _ _ info hinfo
  cases hgone.symm.trans hsi

end Laps.Relay
