import Laps.Lib.Runs
import Laps.Relay.Indexes

/-! A relay that other relays leave alone: its clients, and the handlers of their tracks.  It knows
of no subscriptions but its own, so that a publication is matched with none. -/

namespace Laps.Relay

open Std Client Peering

/-- What happens at the client manager of such a relay. -/
inductive LocalCall where
  | client (call : ClientCall)
  /-- `ProcessSubscribe` for the peer manager. -/
  | peerSubscribe (th : TrackHash) (full : FullTrackName) (attrs : SubscribeAttributes)
  | statusError (conn : ConnectionHandle) (full : FullTrackName)

def localCall (q : Quicr) (r : Relay) : LocalCall → Option Relay
  | .client call => some (r.call q call)
  | .peerSubscribe th full attrs => some (r.processSubscribe q 0 0 th full attrs)
  | .statusError conn full => some (r.statusError q conn full)

def localCalls (q : Quicr) (r : Relay) (calls : List LocalCall) : Option Relay :=
  calls.foldlM (localCall q) r

/-- The relay knows of no subscriptions but its own. -/
def OwnOnly (r : Relay) : Prop :=
  ∀ hash node si, r.infoBase.subscribes.get₂? hash node = some si → node = r.nodeId

section OwnOnly

variable {q : Quicr} {r r' : Relay}

theorem ownOnly_new (hsubscribes : r.infoBase.subscribes = ∅) : r.OwnOnly := by
  intro hash node si hget
  rw [hsubscribes] at hget
  simp at hget

theorem OwnOnly.of_sameInterest (h : r.OwnOnly) (hsame : SameInterest r r') : r'.OwnOnly := by
  unfold OwnOnly
  rw [hsame.infos, hsame.nodeId]
  exact h

theorem OwnOnly.clientSubscribe (h : r.OwnOnly) (full : FullTrackName) (subscribeData : List UInt8) :
    (r.clientSubscribe q full subscribeData).OwnOnly := by
  unfold Relay.clientSubscribe
  split
  · exact h
  · set si : SubscribeInfo :=
      { sourceNodeId := r.nodeId, trackHash := q.trackHash full, subscribeData }
    intro hash node si' hget
    rcases InfoBase.get₂?_addSubscribe hget with ⟨-, hnode, -⟩ | hold
    · exact hnode
    · exact h hash node si' hold

theorem OwnOnly.of_within (h : r.OwnOnly) (hnode : r'.nodeId = r.nodeId)
    (hwithin : SubscribesWithin r r') : r'.OwnOnly := by
  intro hash node si hget
  rw [hnode]
  exact h hash node si (hwithin hash node si hget)

theorem OwnOnly.removeOrPause (h : r.OwnOnly) (hash : UInt64) :
    (r.removeOrPausePublisherSubscribe hash).OwnOnly := by
  have hkeeps : Keeps (fun _ => ()) (fun _ => ()) r (r.removeOrPausePublisherSubscribe hash) :=
    keeps_removeOrPause (fun _ _ => rfl) (fun _ _ _ => rfl) r hash
  exact h.of_within hkeeps.nodeId (within_removeOrPause r hash)

theorem OwnOnly.unsubscribeReceived (h : r.OwnOnly) (conn : ConnectionHandle) (req : RequestId) :
    (r.unsubscribeReceived q conn req).OwnOnly := by
  unfold Relay.unsubscribeReceived
  split
  · exact h
  · split
    · exact h
    · refine OwnOnly.removeOrPause ?_ _
      exact h

theorem OwnOnly.leaveNamespace {conn : ConnectionHandle} {prefixNamespace : TrackNamespace}
    {handler : PublishNamespaceHandler} (h : r.OwnOnly) (key : UInt64 × ConnectionHandle) :
    (leaveNamespace q conn prefixNamespace handler r key).OwnOnly := by
  unfold Relay.leaveNamespace
  split
  · exact h
  · split
    · exact h
    · split
      · refine OwnOnly.removeOrPause ?_ _
        exact h
      · exact h

/-- A loop whose steps keep it. -/
theorem OwnOnly.foldl {β : Type*} {f : Relay → β → Relay}
    (hf : ∀ r x, OwnOnly r → OwnOnly (f r x)) (l : List β) (h : r.OwnOnly) :
    (l.foldl f r).OwnOnly :=
  foldl_related (R := fun r r' => OwnOnly r → OwnOnly r') (fun _ h => h)
    (fun h₁ h₂ h => h₂ (h₁ h)) hf r l h

theorem OwnOnly.unsubscribeNamespaceReceived (h : r.OwnOnly) (conn : ConnectionHandle)
    (prefixNamespace : TrackNamespace) :
    (r.unsubscribeNamespaceReceived q conn prefixNamespace).OwnOnly := by
  unfold Relay.unsubscribeNamespaceReceived
  split
  · exact h
  · split
    · split
      · exact h
      · exact h
    · exact h.foldl (fun _ key hr => hr.leaveNamespace key) _

theorem OwnOnly.connectionStatusChanged (h : r.OwnOnly) (conn : ConnectionHandle)
    (status : ConnectionStatus) : (r.connectionStatusChanged q conn status).OwnOnly := by
  by_cases h₁ : status = .connected
  · rw [h₁]
    exact h
  by_cases h₂ : status = .connecting
  · rw [h₂]
    exact h
  rw [connectionStatusChanged_eq q r conn h₁ h₂]
  have hleft := h.foldl (fun _ row hr => hr.unsubscribeNamespaceReceived (q := q) conn row.1)
    (r.state.subscribesNamespaces.toList.filter fun row => row.2.contains conn)
  exact hleft.foldl (fun _ entry hr => hr.unsubscribeReceived entry.1.1 entry.1.2) _

theorem OwnOnly.publishDoneReceived (h : r.OwnOnly) (conn : ConnectionHandle) (req : RequestId) :
    (r.publishDoneReceived q conn req).OwnOnly := by
  unfold Relay.publishDoneReceived
  split
  · exact h
  · rename_i id full _
    dsimp only
    set r₁ := if conn = 0 then r else r.clientAnnounce q full true false with hr₁
    have h₁ : r₁.OwnOnly := by
      rw [hr₁]
      split
      · exact h
      · exact h.of_sameInterest (sameInterest_clientAnnounce q r full true false)
    set r₂ := r₁.mapState fun st => { st with
      pubSubscribes := st.pubSubscribes.erase ((q.trackHash full).trackFullnameHash, conn) }
    have h₂ : r₂.OwnOnly := h₁
    have h₃ : (r₂.unsubscribeOrphans q (q.trackHash full).trackFullnameHash).OwnOnly := by
      unfold unsubscribeOrphans
      split
      · exact h₂.foldl (fun _ entry hr => hr.unsubscribeReceived entry.1.2 entry.2.requestId) _
      · exact h₂
    exact h₃

theorem OwnOnly.subscribeReceived (h : r.OwnOnly) (conn : ConnectionHandle) (req : RequestId)
    (full : FullTrackName) (attrs : SubscribeAttributes) :
    (r.subscribeReceived q conn req full attrs).OwnOnly := by
  unfold Relay.subscribeReceived
  dsimp only
  split
  · exact h
  · unfold processSubscribe
    dsimp only
    refine OwnOnly.of_sameInterest ?_ (sameInterest_addToPublishers q _ conn _ full _)
    split
    · exact h
    · refine OwnOnly.clientSubscribe ?_ full _
      exact h

theorem OwnOnly.localCall {call : LocalCall} (h : r.OwnOnly) (hcall : r.localCall q call = some r') :
    r'.OwnOnly := by
  cases call with
  | client call =>
    cases hcall
    cases call with
    | subscribeReceived conn req full attrs => exact h.subscribeReceived conn req full attrs
    | unsubscribeReceived conn req => exact h.unsubscribeReceived conn req
    | connectionStatusChanged conn status => exact h.connectionStatusChanged conn status
    | publishReceived conn req full =>
      exact h.of_sameInterest (sameInterest_publishReceived q r conn req full)
    | publishDoneReceived conn req => exact h.publishDoneReceived conn req
    | publishNamespaceReceived conn nameSpace req =>
      exact h.of_sameInterest (sameInterest_publishNamespaceReceived q r conn nameSpace req)
    | publishNamespaceDoneReceived conn req =>
      exact h.of_sameInterest (sameInterest_publishNamespaceDoneReceived q r conn req)
    | subscribeNamespaceReceived conn prefixNamespace => exact h
    | unsubscribeNamespaceReceived conn prefixNamespace =>
      exact h.unsubscribeNamespaceReceived conn prefixNamespace
  | peerSubscribe th full attrs =>
    cases hcall
    exact h.of_sameInterest (sameInterest_addToPublishers q r 0 th full _)
  | statusError conn full =>
    cases hcall
    exact h

/-- No subscription is matched with a publication. -/
theorem OwnOnly.clientAnnounce_eq (h : r.OwnOnly) (full : FullTrackName)
    (withdraw publishNamespace : Bool) :
    r.clientAnnounce q full withdraw publishNamespace =
      (r.updateAnnounces q (r.announceInfo q full publishNamespace) withdraw).1.sendAnnounceInfos
        (fun _ => false) (r.announceInfo q full publishNamespace) withdraw := by
  set r₁ := (r.updateAnnounces q (r.announceInfo q full publishNamespace)
    withdraw).1.sendAnnounceInfos (fun _ => false) (r.announceInfo q full publishNamespace)
      withdraw with hr₁
  unfold clientAnnounce
  dsimp only
  rw [← hr₁]
  cases withdraw with
  | true => rfl
  | false =>
    have hown : ∀ entry ∈ r₁.infoBase.subscribes.entries₂, entry.1.2 = r₁.nodeId := by
      rintro ⟨⟨hash, node⟩, si⟩ hentry
      exact h hash node si (ExtTreeMap.mem_entries₂.mp hentry)
    rw [if_neg Bool.false_ne_true]
    generalize r₁.infoBase.subscribes.entries₂ = l at hown
    induction l with
    | nil => rfl
    | cons entry l ih =>
      rw [List.foldl_cons, if_pos (hown entry List.mem_cons_self)]
      exact ih fun entry hentry => hown entry (List.mem_cons_of_mem _ hentry)

theorem OwnOnly.state_clientAnnounce (h : r.OwnOnly) (full : FullTrackName)
    (withdraw publishNamespace : Bool) :
    (r.clientAnnounce q full withdraw publishNamespace).state = r.state := by
  rw [h.clientAnnounce_eq]
  rfl

end OwnOnly

/-! ### The handler of a publication -/

/-- It is the same handler, with other subscribers. -/
structure SameHandler (h h' : SubscribeTrackHandler) : Prop where
  id : h'.id = h.id
  fullTrackName : h'.fullTrackName = h.fullTrackName
  isPublisherInitiated : h'.isPublisherInitiated = h.isPublisherInitiated

theorem SameHandler.refl (h : SubscribeTrackHandler) : SameHandler h h := ⟨rfl, rfl, rfl⟩

theorem SameHandler.trans {h₁ h₂ h₃ : SubscribeTrackHandler} (h : SameHandler h₁ h₂)
    (h' : SameHandler h₂ h₃) : SameHandler h₁ h₃ :=
  ⟨h'.id.trans h.id, h'.fullTrackName.trans h.fullTrackName,
    h'.isPublisherInitiated.trans h.isPublisherInitiated⟩

theorem sameHandler_addSubscriber (h : SubscribeTrackHandler) (conn : ConnectionHandle)
    (s : Subscriber) : SameHandler h (h.addSubscriber conn s) := by
  unfold SubscribeTrackHandler.addSubscriber
  split
  · exact .refl h
  · exact ⟨rfl, rfl, rfl⟩

theorem sameHandler_removeSubscriber (h : SubscribeTrackHandler) (conn : ConnectionHandle) :
    SameHandler h (h.removeSubscriber conn) := by
  unfold SubscribeTrackHandler.removeSubscriber
  dsimp only
  split
  · exact ⟨rfl, rfl, rfl⟩
  · exact ⟨rfl, rfl, rfl⟩

theorem sameHandler_addSubscribeNamespace (q : Quicr) (h : SubscribeTrackHandler)
    (handler : PublishNamespaceHandler) : SameHandler h (h.addSubscribeNamespace q handler) := by
  unfold SubscribeTrackHandler.addSubscribeNamespace
  dsimp only
  split
  · exact .refl h
  · exact ⟨rfl, rfl, rfl⟩

theorem sameHandler_handedTo (q : Quicr) (r : Relay) (full : FullTrackName)
    (h : SubscribeTrackHandler) : SameHandler h (handedTo q r full h) := by
  set h₁ := (r.state.subscribes.withFst (q.trackHash full).trackFullnameHash).foldl
    (fun h entry => h.addSubscriber entry.1.2 ⟨entry.2.requestId, entry.2.priority,
      entry.2.objectTtl.toNat, entry.2.startLocation⟩) h with hh₁
  have hsubs : SameHandler h h₁ :=
    foldl_related .refl .trans (fun h _ => sameHandler_addSubscriber h _ _) h _
  set nameSpaces := r.state.subscribesNamespaces.toList.filter fun row =>
    q.hasSamePrefix row.1 full.nameSpace && !row.2.isEmpty
  set h₂ := nameSpaces.foldl (fun h row =>
    row.2.toList.foldl (fun h entry => h.addSubscribeNamespace q entry.2) h) h₁ with hh₂
  have hnameSpaces : SameHandler h₁ h₂ :=
    foldl_related .refl .trans (fun h row => foldl_related .refl .trans
      (fun h entry => sameHandler_addSubscribeNamespace q h entry.2) h row.2.toList) h₁ nameSpaces
  have hboth := hsubs.trans hnameSpaces
  have heq : handedTo q r full h = h₂ ∨ handedTo q r full h = h₂.pause := by
    unfold handedTo
    dsimp only
    split
    · exact .inl rfl
    · exact .inr rfl
  rcases heq with heq | heq
  · rw [heq]
    exact hboth
  · rw [heq]
    exact ⟨hboth.id, hboth.fullTrackName, hboth.isPublisherInitiated⟩

/-- A publication makes a handler, registers it under the request unless it is from a peer, and
gives it the subscribers of the track. -/
theorem OwnOnly.state_publishReceived {q : Quicr} {r : Relay} (hown : r.OwnOnly)
    (conn : ConnectionHandle) (req : RequestId) (full : FullTrackName) :
    ∃ h : SubscribeTrackHandler,
      h.id = r.state.handlers ∧ h.fullTrackName = full ∧ h.isPublisherInitiated = true ∧
      (∀ c, h.subscribers.contains c = true ↔
        r.state.Subscribed (q.trackHash full).trackFullnameHash c) ∧
      (r.publishReceived q conn req full).state = { r.state with
        handlers := r.state.handlers + 1
        pubSubscribes := r.state.pubSubscribes.insert
          ((q.trackHash full).trackFullnameHash, conn) h
        pubSubscribesByReqId :=
          if conn = 0 ∧ req = 0 then r.state.pubSubscribesByReqId
          else r.state.pubSubscribesByReqId.insert (req, conn) (r.state.handlers, full) } := by
  set hash := (q.trackHash full).trackFullnameHash with hhash
  set h₀ : SubscribeTrackHandler :=
    { (r.newHandler full true).1 with isFromPeer := conn = 0 && req = 0 } with hh₀
  set r₁ := (r.newHandler full true).2.mapState fun st => { st with
    pubSubscribes := st.pubSubscribes.insert (hash, conn) h₀ } with hr₁
  have hmodify : ∀ f : SubscribeTrackHandler → SubscribeTrackHandler,
      (r.state.pubSubscribes.insert (hash, conn) h₀).modify (hash, conn) f =
        r.state.pubSubscribes.insert (hash, conn) (f h₀) := by
    intro f
    refine ExtTreeMap.ext_getElem? fun key => ?_
    by_cases hkey : key = (hash, conn)
    · subst hkey
      simp
    · have hne : compare (hash, conn) key ≠ .eq :=
        fun heq => hkey (LawfulEqCmp.compare_eq_iff_eq.mp heq).symm
      simp only [ExtTreeMap.getElem?_modify, ExtTreeMap.getElem?_insert_ite, if_neg hne, if_neg hkey]
  have hspec : ∀ r₂ : Relay, r₂.state.subscribes = r.state.subscribes →
      (handedTo q r₂ full h₀).id = r.state.handlers ∧
      (handedTo q r₂ full h₀).fullTrackName = full ∧
      (handedTo q r₂ full h₀).isPublisherInitiated = true ∧
      ∀ c, (handedTo q r₂ full h₀).subscribers.contains c = true ↔ r.state.Subscribed hash c := by
    intro r₂ hsubscribes
    have hsame := sameHandler_handedTo q r₂ full h₀
    refine ⟨hsame.id, hsame.fullTrackName, hsame.isPublisherInitiated, fun c => ?_⟩
    rw [contains_handedTo]
    have hnone : ¬h₀.subscribers.contains c = true := by
      intro hc
      cases hc
    unfold State.Subscribed
    rw [hsubscribes]
    exact or_iff_left hnone
  by_cases hpeer : conn = 0 ∧ req = 0
  · refine ⟨handedTo q r₁ full h₀, (hspec r₁ rfl).1, (hspec r₁ rfl).2.1, (hspec r₁ rfl).2.2.1,
      (hspec r₁ rfl).2.2.2, ?_⟩
    rw [if_pos hpeer, ← hmodify]
    unfold publishReceived
    dsimp only
    rw [if_pos (by simpa using hpeer)]
    rfl
  · set r₂ := (r₁.mapState fun st => { st with
      pubSubscribesByReqId := st.pubSubscribesByReqId.insert (req, conn)
        (r.state.handlers, full) }).clientAnnounce q full false false with hr₂
    have hstate : r₂.state = (r₁.mapState fun st => { st with
        pubSubscribesByReqId := st.pubSubscribesByReqId.insert (req, conn)
          (r.state.handlers, full) }).state := by
      rw [hr₂]
      refine OwnOnly.state_clientAnnounce ?_ full false false
      exact hown
    have hsubscribes : r₂.state.subscribes = r.state.subscribes := by
      rw [hstate]
      rfl
    refine ⟨handedTo q r₂ full h₀, (hspec r₂ hsubscribes).1, (hspec r₂ hsubscribes).2.1,
      (hspec r₂ hsubscribes).2.2.1, (hspec r₂ hsubscribes).2.2.2, ?_⟩
    rw [if_neg hpeer, ← hmodify]
    have heq : (r.publishReceived q conn req full).state = { r₂.state with
        pubSubscribes := r₂.state.pubSubscribes.modify (hash, conn) (handedTo q r₂ full) } := by
      unfold publishReceived
      dsimp only
      rw [if_neg (by simpa using hpeer)]
      rfl
    rw [heq, hstate]
    rfl

end Laps.Relay
