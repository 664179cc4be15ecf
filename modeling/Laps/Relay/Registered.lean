import Laps.Relay.Closes
import Laps.Relay.FanOut

/-! Whether the handler that a publisher's request is registered for is still the one of its track.
A handler that is dropped or replaced stays registered, but for the end of its own publication. -/

namespace Laps.Relay

open Std Client Peering State

/-! ### Handlers that stay -/

/-- The handlers with `K` stay, and keep it. -/
def Retains (K : UInt64 × ConnectionHandle → SubscribeTrackHandler → Prop) (r r' : Relay) : Prop :=
  ∀ (key : UInt64 × ConnectionHandle) h, r.state.pubSubscribes[key]? = some h → K key h →
    ∃ h', r'.state.pubSubscribes[key]? = some h' ∧ K key h'

section Retains

variable {q : Quicr} {K : UInt64 × ConnectionHandle → SubscribeTrackHandler → Prop}
variable {r r₁ r₂ r₃ : Relay}

theorem Retains.refl (r : Relay) : Retains K r r := fun _ h hget hK => ⟨h, hget, hK⟩

theorem Retains.trans (h : Retains K r₁ r₂) (h' : Retains K r₂ r₃) : Retains K r₁ r₃ := by
  intro key handler hget hK
  obtain ⟨handler₂, hget₂, hK₂⟩ := h key handler hget hK
  exact h' key handler₂ hget₂ hK₂

/-- Dropped are those without subscribers that the publisher has not made. -/
theorem retains_removeOrPause {hash : UInt64}
    (hK : ∀ key h, key.1 = hash → K key h →
      h.hasSubscribers = true ∨ h.isPublisherInitiated = true)
    (hpause : ∀ key h, K key h → K key h.pause) (r : Relay) :
    Retains K r (r.removeOrPausePublisherSubscribe hash) := by
  intro key h hget hKh
  rw [state_removeOrPause]
  split
  · exact ⟨h, hget, hKh⟩
  · dsimp only
    rw [ExtTreeMap.getElem?_filterMap', hget, Option.bind_some]
    split
    · rename_i hidle
      rcases hK key h hidle.1 hKh with hsubs | hmade
      · rw [hidle.2] at hsubs
        cases hsubs
      · rw [if_pos hmade]
        exact ⟨h.pause, rfl, hpause key h hKh⟩
    · exact ⟨h, rfl, hKh⟩

theorem retains_unsubscribeReceived {conn : ConnectionHandle} {req : RequestId}
    (hK : ∀ hash sub, r.state.subscribeAliasReqId[(conn, req)]? = some hash →
      r.state.subscribes[(hash, conn)]? = some sub →
      ∀ key h, key.1 = (q.trackHash sub.trackFullName).trackFullnameHash → K key h →
        h.hasSubscribers = true ∨ h.isPublisherInitiated = true)
    (hpause : ∀ key h, K key h → K key h.pause)
    (hremove : ∀ key h, K key h → K key (h.removeSubscriber conn)) :
    Retains K r (r.unsubscribeReceived q conn req) := by
  unfold unsubscribeReceived
  split
  · exact .refl r
  · rename_i hash halias
    split
    · exact .refl r
    · rename_i sub hsub
      refine Retains.trans (fun key h hget hKh => ?_)
        (retains_removeOrPause (hK hash sub halias hsub) hpause _)
      change ∃ h', (r.state.pubSubscribes.map _)[key]? = some h' ∧ K key h'
      rw [ExtTreeMap.getElem?_map, hget]
      refine ⟨_, rfl, ?_⟩
      split
      · exact hremove key h hKh
      · exact hKh

theorem retains_leaveNamespace
    (hK : ∀ key h, K key h → h.hasSubscribers = true ∨ h.isPublisherInitiated = true)
    (hpause : ∀ key h, K key h → K key h.pause) (conn : ConnectionHandle)
    (prefixNamespace : TrackNamespace) {handler : PublishNamespaceHandler}
    (hremove : ∀ key h, K key h → K key (h.removeSubscribeNamespace q handler)) (r : Relay)
    (key : UInt64 × ConnectionHandle) :
    Retains K r (leaveNamespace q conn prefixNamespace handler r key) := by
  unfold leaveNamespace
  split
  · exact .refl r
  · rename_i h hget
    split
    · exact .refl r
    · split
      · refine Retains.trans (fun key' h' hget' hKh => ?_)
          (retains_removeOrPause (fun key h _ => hK key h) hpause _)
        show ∃ h'', (r.state.pubSubscribes.insert key
          (h.removeSubscribeNamespace q handler))[key']? = some h'' ∧ K key' h''
        rw [ExtTreeMap.getElem?_insert_ite]
        split
        · rename_i heq
          rw [heq, hget] at hget'
          cases hget'
          exact ⟨_, rfl, hremove key' h hKh⟩
        · exact ⟨h', hget', hKh⟩
      · exact .refl r

theorem retains_unsubscribeNamespaceReceived
    (hK : ∀ key h, K key h → h.hasSubscribers = true ∨ h.isPublisherInitiated = true)
    (hpause : ∀ key h, K key h → K key h.pause) (r : Relay) (conn : ConnectionHandle)
    (prefixNamespace : TrackNamespace)
    (hremove : ∀ handler, r.state.subscribesNamespaces.get₂? prefixNamespace conn = some handler →
      ∀ key h, K key h → K key (h.removeSubscribeNamespace q handler)) :
    Retains K r (r.unsubscribeNamespaceReceived q conn prefixNamespace) := by
  unfold unsubscribeNamespaceReceived
  split
  · exact .refl r
  · rename_i row hrow
    split
    · split
      · exact Retains.refl r
      · exact .refl r
    · rename_i handler hhandler
      have hstored : r.state.subscribesNamespaces.get₂? prefixNamespace conn = some handler :=
        ExtTreeMap.get₂?_eq_some.mpr ⟨row, hrow, hhandler⟩
      have hleave : Retains K r (r.state.pubSubscribes.keys.foldl
          (leaveNamespace q conn prefixNamespace handler) r) :=
        foldl_related .refl .trans
          (retains_leaveNamespace hK hpause conn prefixNamespace (hremove handler hstored)) _ _
      exact hleave

end Retains

/-- The publisher has made the handler, or it keeps a subscriber when those of some kinds go. -/
def Stays (gone : ConnectionHandle → Prop) (goneNs : UInt64 → ConnectionHandle → Prop)
    (h : SubscribeTrackHandler) : Prop :=
  h.isPublisherInitiated = true ∨ KeepsSubscriber gone goneNs h

/-- The handler of the number, which stays if it is of a track in `T`. -/
def StaysAs (i : Nat) (T : UInt64 → Prop) (gone : ConnectionHandle → Prop)
    (goneNs : UInt64 → ConnectionHandle → Prop) (key : UInt64 × ConnectionHandle)
    (h : SubscribeTrackHandler) : Prop :=
  h.id = i ∧ (T key.1 → Stays gone goneNs h)

/-- The places, in the handlers, of those subscriptions to namespaces that the client leaves. -/
def LeftBy (q : Quicr) (r : Relay) (conn : ConnectionHandle) (nameSpaces : TrackNamespace → Prop)
    (hash : UInt64) (c : ConnectionHandle) : Prop :=
  ∃ nameSpace handler, nameSpaces nameSpace ∧
    r.state.subscribesNamespaces.get₂? nameSpace conn = some handler ∧
    hash = (q.trackHash ⟨handler.prefixNamespace, []⟩).trackFullnameHash ∧ c = handler.connectionId

section Stays

variable {q : Quicr} {r : Relay} {conn : ConnectionHandle} {T : UInt64 → Prop}
variable {gone : ConnectionHandle → Prop} {goneNs : UInt64 → ConnectionHandle → Prop} {i : Nat}

theorem StaysAs.has {key : UInt64 × ConnectionHandle} {h : SubscribeTrackHandler} (hT : T key.1)
    (hstays : StaysAs i T gone goneNs key h) :
    h.hasSubscribers = true ∨ h.isPublisherInitiated = true :=
  (hstays.2 hT).symm.imp_left KeepsSubscriber.hasSubscribers

theorem StaysAs.pause (key : UInt64 × ConnectionHandle) (h : SubscribeTrackHandler)
    (hstays : StaysAs i T gone goneNs key h) : StaysAs i T gone goneNs key h.pause :=
  hstays

theorem StaysAs.removeSubscriber (hconn : gone conn) (key : UInt64 × ConnectionHandle)
    (h : SubscribeTrackHandler) (hstays : StaysAs i T gone goneNs key h) :
    StaysAs i T gone goneNs key (h.removeSubscriber conn) := by
  have hsame := sameHandler_removeSubscriber h conn
  refine ⟨hsame.id.trans hstays.1, fun hT => ?_⟩
  refine (hstays.2 hT).imp (fun hmade => ?_) fun hkeeps => hkeeps.removeSubscriber hconn
  exact hsame.isPublisherInitiated.trans hmade

theorem StaysAs.removeSubscribeNamespace {handler : PublishNamespaceHandler}
    (hhandler : goneNs (q.trackHash ⟨handler.prefixNamespace, []⟩).trackFullnameHash
      handler.connectionId) (key : UInt64 × ConnectionHandle) (h : SubscribeTrackHandler)
    (hstays : StaysAs i T gone goneNs key h) :
    StaysAs i T gone goneNs key (h.removeSubscribeNamespace q handler) := by
  refine ⟨hstays.1, fun hT => (hstays.2 hT).imp_right fun hkeeps => ?_⟩
  exact hkeeps.removeSubscribeNamespace q hhandler

/-- The end of a connection, but for the handlers of its own publications. -/
theorem retains_disconnect (q : Quicr) (r : Relay) (conn : ConnectionHandle) (i : Nat) :
    Retains (StaysAs i (fun _ => True) (· = conn) (LeftBy q r conn fun _ => True)) r
      (disconnect q r conn) := by
  set K := StaysAs i (fun _ => True) (· = conn) (LeftBy q r conn fun _ => True) with hKdef
  have hK : ∀ key h, K key h → h.hasSubscribers = true ∨ h.isPublisherInitiated = true :=
    fun _ _ hstays => hstays.has trivial
  -- The namespaces that are left later are among those at the start.
  have hleft : ∀ l : List (TrackNamespace ×
      ExtTreeMap ConnectionHandle PublishNamespaceHandler compare),
      Retains K r (l.foldl (fun r row => r.unsubscribeNamespaceReceived q conn row.1) r) := by
    intro l
    have hloop := foldl_related (R := fun r₁ r₂ : Relay =>
      (∀ nameSpace handler, r₁.state.subscribesNamespaces.get₂? nameSpace conn = some handler →
        r.state.subscribesNamespaces.get₂? nameSpace conn = some handler) →
      (∀ nameSpace handler, r₂.state.subscribesNamespaces.get₂? nameSpace conn = some handler →
        r.state.subscribesNamespaces.get₂? nameSpace conn = some handler) ∧ Retains K r₁ r₂)
      (f := fun r row => r.unsubscribeNamespaceReceived q conn row.1)
      (fun r₁ hr₁ => ⟨hr₁, .refl r₁⟩)
      (fun h₁ h₂ hr₁ => ⟨(h₂ (h₁ hr₁).1).1, (h₁ hr₁).2.trans (h₂ (h₁ hr₁).1).2⟩)
      (fun r₁ row hr₁ => ⟨fun nameSpace handler hget => ?_, ?_⟩) r l
    · exact (hloop fun _ _ hget => hget).2
    · rw [get₂?_unsubscribeNamespaceReceived] at hget
      split at hget
      · cases hget
      · exact hr₁ nameSpace handler hget
    · refine retains_unsubscribeNamespaceReceived hK StaysAs.pause r₁ conn row.1
        fun handler hget => StaysAs.removeSubscribeNamespace ?_
      exact ⟨row.1, handler, trivial, hr₁ row.1 handler hget, rfl, rfl⟩
  unfold disconnect
  dsimp only
  refine (hleft (r.state.subscribesNamespaces.toList.filter fun row => row.2.contains conn)).trans ?_
  generalize (r.state.subscribesNamespaces.toList.filter fun row => row.2.contains conn).foldl
    (fun r row => r.unsubscribeNamespaceReceived q conn row.1) r = r₁
  -- All requests are of the connection.
  have hconn : ∀ entry ∈ r₁.state.subscribeAliasReqId.withFst conn, entry.1.1 = conn :=
    fun entry hentry => (ExtTreeMap.mem_withFst.mp hentry).2
  generalize r₁.state.subscribeAliasReqId.withFst conn = l at hconn
  induction l generalizing r₁ with
  | nil => exact .refl r₁
  | cons entry l ih =>
    refine Retains.trans ?_ (ih _ fun entry hentry => hconn entry (List.mem_cons_of_mem _ hentry))
    show Retains K r₁ (r₁.unsubscribeReceived q entry.1.1 entry.1.2)
    rw [hconn entry List.mem_cons_self]
    refine retains_unsubscribeReceived (K := K) (fun _ _ _ _ key h _ => hK key h) StaysAs.pause ?_
    exact StaysAs.removeSubscriber rfl

end Stays

/-! ### The two indexes -/

/-- A request of the publisher is registered for a handler of the track. -/
def Registered (q : Quicr) (st : State) (key : UInt64 × ConnectionHandle) : Prop :=
  ∃ (req : RequestId) (id : Nat) (full : FullTrackName),
    st.pubSubscribesByReqId[(req, key.2)]? = some (id, full) ∧
      (q.trackHash full).trackFullnameHash = key.1

/-- The handler that a request is registered for is the one of its track. -/
def PublishersAgree (q : Quicr) (st : State) : Prop :=
  ∀ (req : RequestId) (conn : ConnectionHandle) id full,
    st.pubSubscribesByReqId[(req, conn)]? = some (id, full) →
      ∃ h, st.pubSubscribes[((q.trackHash full).trackFullnameHash, conn)]? = some h ∧ h.id = id

/-- The indexes agree, and no two requests are registered for one handler. -/
structure RegisteredInv (q : Quicr) (st : State) : Prop where
  agree : PublishersAgree q st
  made : ∀ (key : RequestId × ConnectionHandle) entry, st.pubSubscribesByReqId[key]? = some entry →
    entry.1 < st.handlers
  once : ∀ (key key' : RequestId × ConnectionHandle) entry entry',
    st.pubSubscribesByReqId[key]? = some entry → st.pubSubscribesByReqId[key']? = some entry' →
      entry.1 = entry'.1 → key = key'

section Inv

variable {q : Quicr} {st st' : State} {r r' : Relay}

/-- Nothing is registered, and the handlers that are registered stay. -/
theorem RegisteredInv.of_kept (h : RegisteredInv q st)
    (hrequests : st'.pubSubscribesByReqId = st.pubSubscribesByReqId)
    (hmade : st.handlers ≤ st'.handlers)
    (hkept : ∀ (key : UInt64 × ConnectionHandle) handler, st.pubSubscribes[key]? = some handler →
      Registered q st key → ∃ handler', st'.pubSubscribes[key]? = some handler' ∧
        handler'.id = handler.id) : RegisteredInv q st' := by
  constructor
  · intro req conn id full hreg
    rw [hrequests] at hreg
    obtain ⟨handler, hget, rfl⟩ := h.agree req conn id full hreg
    exact hkept _ handler hget ⟨req, _, full, hreg, rfl⟩
  · intro key entry hreg
    rw [hrequests] at hreg
    have hlt := h.made key entry hreg
    omega
  · rw [hrequests]
    exact h.once

/-- A handler is made and registered, in the place of none that another request is registered for.
-/
theorem RegisteredInv.register (h : RegisteredInv q st) {req : RequestId} {conn : ConnectionHandle}
    (full : FullTrackName) {handler : SubscribeTrackHandler} (hid : handler.id = st.handlers)
    (hfree : ∀ (req' : RequestId) id full', st.pubSubscribesByReqId[(req', conn)]? = some (id, full') →
      (q.trackHash full').trackFullnameHash = (q.trackHash full).trackFullnameHash → req' = req)
    (hrequests : st'.pubSubscribesByReqId =
      st.pubSubscribesByReqId.insert (req, conn) (st.handlers, full))
    (hhandlers : st'.pubSubscribes = st.pubSubscribes.insert
      ((q.trackHash full).trackFullnameHash, conn) handler)
    (hmade : st'.handlers = st.handlers + 1) : RegisteredInv q st' := by
  have hget : ∀ key entry, st'.pubSubscribesByReqId[key]? = some entry →
      (key = (req, conn) ∧ entry = (st.handlers, full)) ∨
        (key ≠ (req, conn) ∧ st.pubSubscribesByReqId[key]? = some entry) := by
    intro key entry hreg
    rw [hrequests, ExtTreeMap.getElem?_insert_ite] at hreg
    split at hreg
    · rename_i heq
      cases hreg
      exact .inl ⟨heq, rfl⟩
    · rename_i hne
      exact .inr ⟨hne, hreg⟩
  constructor
  · intro req' conn' id full' hreg
    rw [hhandlers, ExtTreeMap.getElem?_insert_ite]
    obtain ⟨heq, hentry⟩ | ⟨hne, hold⟩ := hget _ _ hreg
    · cases heq
      cases hentry
      rw [if_pos rfl]
      exact ⟨handler, rfl, hid⟩
    · obtain ⟨handler', hhandler', rfl⟩ := h.agree req' conn' id full' hold
      rw [if_neg]
      · exact ⟨handler', hhandler', rfl⟩
      · intro heq
        obtain ⟨hhash, rfl⟩ := Prod.mk.inj heq
        exact hne (by rw [hfree req' _ full' hold hhash])
  · intro key entry hreg
    rw [hmade]
    obtain ⟨-, rfl⟩ | ⟨-, hold⟩ := hget key entry hreg
    · exact Nat.lt_succ_self _
    · exact Nat.lt_succ_of_lt (h.made key entry hold)
  · intro key key' entry entry' hreg hreg' heq
    obtain ⟨hkey, rfl⟩ | ⟨-, hold⟩ := hget key entry hreg
    · obtain ⟨hkey', -⟩ | ⟨-, hold'⟩ := hget key' entry' hreg'
      · rw [hkey, hkey']
      · have hlt := h.made key' entry' hold'
        rw [← heq] at hlt
        exact absurd hlt (lt_irrefl _)
    · obtain ⟨-, rfl⟩ | ⟨-, hold'⟩ := hget key' entry' hreg'
      · have hlt := h.made key entry hold
        rw [heq] at hlt
        exact absurd hlt (lt_irrefl _)
      · exact h.once key key' entry entry' hold hold' heq

/-- The handlers that are registered stay. -/
theorem RegisteredInv.of_retains (h : RegisteredInv q r.state) (T : UInt64 → Prop)
    (gone : ConnectionHandle → Prop) (goneNs : UInt64 → ConnectionHandle → Prop)
    (hkeeps : KeepsRequests r r')
    (hretains : ∀ i, Retains (StaysAs i T gone goneNs) r r')
    (hstays : ∀ (key : UInt64 × ConnectionHandle) handler,
      r.state.pubSubscribes[key]? = some handler → Registered q r.state key → T key.1 →
        Stays gone goneNs handler) : RegisteredInv q r'.state := by
  refine h.of_kept hkeeps.pubSubscribesByReqId hkeeps.handlers.ge fun key handler hget hreg => ?_
  obtain ⟨handler', hget', hid, -⟩ :=
    hretains handler.id key handler hget ⟨rfl, hstays key handler hget hreg⟩
  exact ⟨handler', hget', hid⟩

end Inv

/-! ### Calls that make handlers -/

section Makes

variable {q : Quicr} {r : Relay} {hash : UInt64} {full : FullTrackName} {conn : ConnectionHandle}

/-- No handler is dropped, and each stays the same. -/
theorem RegisteredInv.of_map {r' : Relay}
    {f : UInt64 × ConnectionHandle → SubscribeTrackHandler → SubscribeTrackHandler}
    (h : RegisteredInv q r.state)
    (hrequests : r'.state.pubSubscribesByReqId = r.state.pubSubscribesByReqId)
    (hmade : r'.state.handlers = r.state.handlers)
    (hhandlers : r'.state.pubSubscribes = r.state.pubSubscribes.map f)
    (hf : ∀ key handler, SameHandler handler (f key handler)) : RegisteredInv q r'.state := by
  refine h.of_kept hrequests hmade.ge fun key handler hget _ => ⟨f key handler, ?_, (hf _ _).id⟩
  rw [hhandlers, ExtTreeMap.getElem?_map, hget]
  rfl

theorem registeredInv_addToHandlers (s : Subscriber) (h : RegisteredInv q r.state) :
    RegisteredInv q (r.addToHandlers hash conn s).state := by
  refine h.of_map rfl rfl rfl fun key handler => ?_
  split
  · refine SameHandler.trans ?_ (sameHandler_addSubscriber _ conn s)
    split
    · exact ⟨rfl, rfl, rfl⟩
    · exact .refl handler
  · exact .refl handler

theorem registeredInv_subscribeToAnnouncers {s : Subscriber}
    (l : List ((TrackNamespace × ConnectionHandle) × ExtTreeSet UInt64))
    (hhash : ∀ entry ∈ l, AwaitsHandler q r hash full entry.1 →
      hash = (q.trackHash full).trackFullnameHash)
    (h : RegisteredInv q r.state) :
    RegisteredInv q (l.foldl (subscribeToAnnouncer q hash full conn s) r).state := by
  induction l generalizing r with
  | nil => exact h
  | cons entry l ih =>
    rw [List.foldl_cons]
    have hrest := fun entry hentry => hhash entry (List.mem_cons_of_mem _ hentry)
    obtain hsame | ⟨hawaits, handler, hid, -, hstate⟩ :=
      subscribeToAnnouncer_cases q hash full conn s r entry
    · rw [hsame]
      exact ih hrest h
    · refine ih (fun entry' hentry' hawaits' => ?_) ?_
      · exact hrest entry' hentry' (hawaits'.of_insert (congrArg State.pubSubscribes hstate))
      · have heq := hhash entry List.mem_cons_self hawaits
        refine h.register full hid (fun req' id full' hreg hfull' => ?_)
          (congrArg State.pubSubscribesByReqId hstate) ?_ (congrArg State.handlers hstate)
        · -- The handler of a request that is registered for the track would be there.
          obtain ⟨old, hold, -⟩ := h.agree req' entry.1.2 id full' hreg
          have hnone := ExtTreeMap.contains_eq_false_iff.mp hawaits.2.2
          rw [hfull', ← heq, hnone] at hold
          cases hold
        · rw [← heq]
          exact congrArg State.pubSubscribes hstate

theorem registeredInv_processPeerSubscribe {th : TrackHash} {attrs : SubscribeAttributes}
    (hhash : ∀ key tracks, r.state.pubNamespaceActive[key]? = some tracks →
      AwaitsHandler q r th.trackFullnameHash full key →
        th.trackFullnameHash = (q.trackHash full).trackFullnameHash)
    (h : RegisteredInv q r.state) :
    RegisteredInv q (r.processSubscribe q 0 0 th full attrs).state := by
  refine registeredInv_subscribeToAnnouncers _ ?_ (registeredInv_addToHandlers _ h)
  rintro ⟨key, tracks⟩ hentry hawaits
  refine hhash key tracks (ExtTreeMap.mem_toList_iff_getElem?_eq_some.mp hentry) ?_
  exact ⟨hawaits.1, hawaits.2.1, (contains_addToHandlers _).symm.trans hawaits.2.2⟩

theorem registeredInv_subscribeReceived {req : RequestId} {attrs : SubscribeAttributes}
    (h : RegisteredInv q r.state) :
    RegisteredInv q (r.subscribeReceived q conn req full attrs).state := by
  unfold subscribeReceived
  dsimp only
  split
  · exact h
  · unfold processSubscribe
    dsimp only
    refine registeredInv_subscribeToAnnouncers _ (fun _ _ _ => rfl)
      (registeredInv_addToHandlers _ ?_)
    split
    · exact h
    · unfold recordSubscribe
      rw [state_clientSubscribe]
      exact h.of_kept rfl le_rfl fun _ handler hget _ => ⟨handler, hget, rfl⟩

theorem registeredInv_publishReceived {req : RequestId} (hown : r.OwnOnly)
    (hfree : ∀ (req' : RequestId) id full',
      r.state.pubSubscribesByReqId[(req', conn)]? = some (id, full') →
      (q.trackHash full').trackFullnameHash = (q.trackHash full).trackFullnameHash →
        req' = req ∧ ¬(conn = 0 ∧ req = 0)) (h : RegisteredInv q r.state) :
    RegisteredInv q (r.publishReceived q conn req full).state := by
  obtain ⟨handler, hid, -, -, -, hstate⟩ := hown.state_publishReceived (q := q) conn req full
  by_cases hpeer : conn = 0 ∧ req = 0
  · rw [if_pos hpeer] at hstate
    refine h.of_kept ?_ ?_ ?_
    · rw [hstate]
    · rw [hstate]
      exact Nat.le_succ _
    · rintro ⟨hash', conn'⟩ old hold ⟨req', id, full', hreg, rfl⟩
      refine ⟨old, ?_, rfl⟩
      rw [hstate]
      change (r.state.pubSubscribes.insert _ handler)[_]? = some old
      rw [ExtTreeMap.getElem?_insert_ite, if_neg, hold]
      intro heq
      obtain ⟨hhash, rfl⟩ := Prod.mk.inj heq
      exact (hfree req' id full' hreg hhash).2 hpeer
  · rw [if_neg hpeer] at hstate
    exact h.register full hid (fun req' id full' hreg hhash => (hfree req' id full' hreg hhash).1)
      (congrArg State.pubSubscribesByReqId hstate) (congrArg State.pubSubscribes hstate)
      (congrArg State.handlers hstate)

variable {nameSpace : TrackNamespace}

theorem requests_subscribeToPublisher (q : Quicr) (nameSpace : TrackNamespace)
    (conn : ConnectionHandle) (r : Relay)
    (entry : (TrackNamespace × UInt64) ×
      ExtTreeMap (ConnectionHandle × RequestId) State.SubscribeInfo compare) :
    (subscribeToPublisher q nameSpace conn r entry).state.pubSubscribesByReqId =
      r.state.pubSubscribesByReqId ∧
    r.state.handlers ≤ (subscribeToPublisher q nameSpace conn r entry).state.handlers := by
  unfold subscribeToPublisher
  split
  · exact ⟨rfl, le_rfl⟩
  · split
    · exact ⟨rfl, le_rfl⟩
    · dsimp only
      split
      · exact ⟨rfl, le_rfl⟩
      · split
        · exact ⟨rfl, le_rfl⟩
        · exact ⟨rfl, Nat.le_succ _⟩

/-- The handlers that a publisher of a namespace gets take the place of none that is registered. -/
theorem registeredInv_subscribeToPublishers
    (l : List ((TrackNamespace × UInt64) ×
      ExtTreeMap (ConnectionHandle × RequestId) State.SubscribeInfo compare))
    (hfree : ∀ entry ∈ l, ∀ hash, GetsHandler q r nameSpace conn entry hash →
      ¬Registered q r.state (hash, conn)) (h : RegisteredInv q r.state) :
    RegisteredInv q (l.foldl (subscribeToPublisher q nameSpace conn) r).state := by
  induction l generalizing r with
  | nil => exact h
  | cons entry l ih =>
    obtain ⟨hrequests, hmade⟩ := requests_subscribeToPublisher q nameSpace conn r entry
    have hsubscribes := (sameInterest_subscribeToPublisher q nameSpace conn r entry).subscribes
    refine ih (fun entry' hentry' hash hgets hreg => ?_) (h.of_kept hrequests hmade ?_)
    · refine hfree entry' (List.mem_cons_of_mem _ hentry') hash
        (hgets.of_later hsubscribes fun _ hold => tracks_subscribeToPublisher hold) ?_
      unfold Registered at hreg ⊢
      rwa [hrequests] at hreg
    · intro key handler hget hreg
      obtain heq | ⟨hash, -, -, hhandlers⟩ := subscribeToPublisher_cases q nameSpace conn r entry
      · rw [heq]
        exact ⟨handler, hget, rfl⟩
      · obtain hhandlers | ⟨hgets, handler', -, -, -, hhandlers⟩ := hhandlers
        · rw [hhandlers]
          exact ⟨handler, hget, rfl⟩
        · rw [hhandlers, ExtTreeMap.getElem?_insert_ite, if_neg]
          · exact ⟨handler, hget, rfl⟩
          · rintro rfl
            exact hfree entry List.mem_cons_self hash hgets hreg

theorem registeredInv_publishNamespaceReceived {req : RequestId} (hown : r.OwnOnly)
    (hfree : conn ≠ 0 → ∀ entry ∈ r.state.subscribeActive.toList, ∀ hash,
      GetsHandler q r nameSpace conn entry hash → ¬Registered q r.state (hash, conn))
    (h : RegisteredInv q r.state) :
    RegisteredInv q (r.publishNamespaceReceived q conn nameSpace req).state := by
  obtain ⟨r₂, requests, active, hr₂, hgets₂, hstate⟩ :=
    hown.state_publishNamespaceReceived (q := q) conn nameSpace req
  have h₂ : RegisteredInv q r₂.state := by
    rw [hr₂]
    exact h.of_kept rfl le_rfl fun _ handler hget _ => ⟨handler, hget, rfl⟩
  obtain hstate | ⟨hconn, hstate⟩ := hstate
  · rwa [hstate]
  · rw [hstate]
    refine registeredInv_subscribeToPublishers _ (fun entry hentry hash hgets hreg => ?_) h₂
    rw [hr₂] at hreg
    exact hfree hconn entry hentry hash (hgets₂ entry hash hgets) hreg

end Makes

/-! ### Calls that end publications -/

section Ends

variable {q : Quicr} {r : Relay} {conn : ConnectionHandle} {req : RequestId}

/-- Where the handlers that go are not registered. -/
theorem RegisteredInv.of_subset (h : RegisteredInv q r.state) (r' : Relay)
    (hrequests : r'.state.pubSubscribesByReqId = r.state.pubSubscribesByReqId)
    (hmade : r'.state.handlers = r.state.handlers)
    (hkept : ∀ key : UInt64 × ConnectionHandle, Registered q r.state key →
      r'.state.pubSubscribes[key]? = r.state.pubSubscribes[key]?) : RegisteredInv q r'.state :=
  h.of_kept hrequests hmade.ge fun key handler hget hreg =>
    ⟨handler, (hkept key hreg).trans hget, rfl⟩

theorem registeredInv_statusError {full : FullTrackName}
    (hfree : ¬Registered q r.state ((q.trackHash full).trackFullnameHash, conn))
    (h : RegisteredInv q r.state) : RegisteredInv q (r.statusError q conn full).state := by
  refine h.of_subset _ rfl rfl fun key hreg => ?_
  show (r.state.pubSubscribes.erase _)[key]? = _
  rw [ExtTreeMap.getElem?_erase_ite, if_neg]
  rintro rfl
  exact hfree hreg

theorem registeredInv_publishNamespaceDoneReceived
    (hfree : ∀ nameSpace, r.state.requests[(conn, req)]? = some nameSpace →
      ∀ hash, (r.state.pubNamespaceActive.getD (nameSpace, conn) ∅).contains hash = true →
        ¬Registered q r.state (hash, conn)) (h : RegisteredInv q r.state) :
    RegisteredInv q (r.publishNamespaceDoneReceived q conn req).state := by
  unfold publishNamespaceDoneReceived
  split
  · exact h
  · rename_i nameSpace hrequest
    set aliases := (r.state.pubNamespaceActive.getD (nameSpace, conn) ∅).toList with haliases
    set r₁ := (r.clientAnnounce q ⟨nameSpace, []⟩ true true).mapState fun st => { st with
      pubSubscribes := aliases.foldl (fun m trackAlias => m.erase (trackAlias, conn)) st.pubSubscribes
      pubNamespaceActive := st.pubNamespaceActive.erase (nameSpace, conn) } with hr₁
    have hdone : RegisteredInv q r₁.state := by
      refine h.of_subset _ rfl rfl fun key hreg => ?_
      show (aliases.foldl (fun m trackAlias => m.erase (trackAlias, conn))
        r.state.pubSubscribes)[key]? = _
      rw [getElem?_foldl_erase, if_neg]
      rintro ⟨hconn, hmem⟩
      obtain ⟨hash, c⟩ := key
      obtain rfl : c = conn := hconn
      refine hfree nameSpace hrequest hash ?_ hreg
      rw [haliases, ExtTreeSet.mem_toList] at hmem
      exact hmem
    dsimp only
    split
    · exact hdone
    · exact hdone

theorem registeredInv_connectionStatusChanged {status : ConnectionStatus}
    (hfree : status.closes = true → (∀ hash, ¬Registered q r.state (hash, conn)) ∧
      ∀ (key : UInt64 × ConnectionHandle) handler, r.state.pubSubscribes[key]? = some handler →
        Registered q r.state key → Stays (· = conn) (LeftBy q r conn fun _ => True) handler)
    (h : RegisteredInv q r.state) :
    RegisteredInv q (r.connectionStatusChanged q conn status).state := by
  by_cases h₁ : status = .connected
  · rw [h₁]
    exact h
  by_cases h₂ : status = .connecting
  · rw [h₂]
    exact h
  obtain ⟨hnone, hstays⟩ := hfree (by simp [ConnectionStatus.closes, h₁, h₂])
  rw [connectionStatusChanged_eq q r conn h₁ h₂]
  have hkeeps := keepsRequests_disconnect (q := q) r conn
  have hdisconnected : RegisteredInv q (disconnect q r conn).state :=
    h.of_retains _ _ _ hkeeps (retains_disconnect q r conn) fun key handler hget hreg _ =>
      hstays key handler hget hreg
  refine hdisconnected.of_subset ((disconnect q r conn).purgePublishState conn) rfl rfl
    fun key hreg => ?_
  show ((disconnect q r conn).state.pubSubscribes.filter fun key _ => key.2 ≠ conn)[key]? = _
  have hother : key.2 ≠ conn := by
    intro hconn
    obtain ⟨hash, c⟩ := key
    obtain rfl : c = conn := hconn
    unfold Registered at hreg
    rw [hkeeps.pubSubscribesByReqId] at hreg
    exact hnone hash hreg
  refine Option.ext fun handler => ?_
  rw [ExtTreeMap.getElem?_filter, Option.pfilter_eq_some_iff]
  constructor
  · intro hboth
    exact hboth.1
  · intro hget
    exact ⟨hget, by simpa using hother⟩

theorem registeredInv_subscribeNamespaceReceived {prefixNamespace : TrackNamespace}
    (h : RegisteredInv q r.state) :
    RegisteredInv q (r.subscribeNamespaceReceived q conn prefixNamespace).state := by
  refine h.of_map rfl rfl rfl fun key handler => ?_
  split
  · exact .refl handler
  · split
    · exact sameHandler_addSubscribeNamespace q handler _
    · exact .refl handler

/-! The end of a publication takes its handler, and the subscriptions of clients that are left
without a handler. -/

theorem handlers_removeOrPause {hash : UInt64}
    (hnone : ∀ (key : UInt64 × ConnectionHandle) h, r.state.pubSubscribes[key]? = some h →
      key.1 ≠ hash) :
    (r.removeOrPausePublisherSubscribe hash).state.pubSubscribes = r.state.pubSubscribes := by
  rw [state_removeOrPause]
  split
  · rfl
  · refine ExtTreeMap.ext_getElem? fun key => ?_
    dsimp only
    rw [ExtTreeMap.getElem?_filterMap']
    cases hget : r.state.pubSubscribes[key]? with
    | none => rfl
    | some h => rw [Option.bind_some, if_neg fun hidle => hnone key h hget hidle.1]

/-- Without handlers of the track the end of a subscription changes none. -/
theorem handlers_unsubscribeReceived
    (hnone : ∀ hash sub, r.state.subscribeAliasReqId[(conn, req)]? = some hash →
      r.state.subscribes[(hash, conn)]? = some sub →
      ∀ (key : UInt64 × ConnectionHandle) h, r.state.pubSubscribes[key]? = some h →
        key.1 ≠ (q.trackHash sub.trackFullName).trackFullnameHash) :
    (r.unsubscribeReceived q conn req).state.pubSubscribes = r.state.pubSubscribes := by
  unfold unsubscribeReceived
  split
  · rfl
  · rename_i hash halias
    split
    · rfl
    · rename_i sub hsub
      have hother := hnone hash sub halias hsub
      set r₁ := r.mapState fun st => st.unsubscribe q conn req hash sub
      have hmap : r₁.state.pubSubscribes = r.state.pubSubscribes := by
        refine ExtTreeMap.ext_getElem? fun key => ?_
        show (r.state.pubSubscribes.map _)[key]? = _
        rw [ExtTreeMap.getElem?_map]
        cases hget : r.state.pubSubscribes[key]? with
        | none => rfl
        | some h => rw [Option.map_some, if_neg (hother key h hget)]
      rw [← hmap]
      refine handlers_removeOrPause (r := r₁) ?_
      rw [hmap]
      exact hother

/-- The subscriptions that the requests of a track's subscribers find are to the track. -/
def OrphansFound (st : State) (hash : UInt64) : Prop :=
  ∀ (c : ConnectionHandle) info found, st.subscribes[(hash, c)]? = some info →
    st.subscribeAliasReqId[(c, info.requestId)]? = some found → st.Subscribed found c → found = hash

theorem handlers_unsubscribes (hash : UInt64)
    (l : List ((UInt64 × ConnectionHandle) × SubscribePublishHandlerInfo))
    (hhashed : Hashed q r.state)
    (hfound : ∀ entry ∈ l, ∀ found,
      r.state.subscribeAliasReqId[(entry.1.2, entry.2.requestId)]? = some found →
        r.state.Subscribed found entry.1.2 → found = hash)
    (hnone : ∀ (key : UInt64 × ConnectionHandle) h, r.state.pubSubscribes[key]? = some h →
      key.1 ≠ hash) :
    (l.foldl (fun r entry => r.unsubscribeReceived q entry.1.2 entry.2.requestId)
      r).state.pubSubscribes = r.state.pubSubscribes := by
  induction l generalizing r with
  | nil => rfl
  | cons entry l ih =>
    have hsame : (r.unsubscribeReceived q entry.1.2 entry.2.requestId).state.pubSubscribes =
        r.state.pubSubscribes := by
      refine handlers_unsubscribeReceived fun found sub halias hsub key h hget => ?_
      have heq := hfound entry List.mem_cons_self found halias
        (ExtTreeMap.contains_iff_getElem?.mpr ⟨sub, hsub⟩)
      rw [hhashed _ _ hsub, heq]
      exact hnone key h hget
    have hchanges : Changes q (fun _ _ _ _ => False) True True r.state
        (r.unsubscribeReceived q entry.1.2 entry.2.requestId).state :=
      changes_unsubscribeReceived r _ _
    obtain ⟨haliases, hsubscribes⟩ := tables_changes hchanges
    rw [List.foldl_cons, ih, hsame]
    · exact hchanges.keeps (fun _ _ hchange hst => Hashed.change hchange hst) hhashed
    · intro entry' hentry' found halias hsub
      refine hfound entry' (List.mem_cons_of_mem _ hentry') found (haliases _ _ halias) ?_
      obtain ⟨info, hinfo⟩ := ExtTreeMap.contains_iff_getElem?.mp hsub
      exact ExtTreeMap.contains_iff_getElem?.mpr ⟨info, hsubscribes _ _ hinfo⟩
    · rw [hsame]
      exact hnone

/-- Before the end of a publication: its track has another handler, or the requests of the
subscribers find their subscriptions to it, unless these outlive publishers. -/
def EndsOwn (q : Quicr) (r : Relay) (conn : ConnectionHandle) (full : FullTrackName) : Prop :=
  r.config.detachedSubs = true ∨
  (∃ (key : UInt64 × ConnectionHandle) (h : SubscribeTrackHandler),
    r.state.pubSubscribes[key]? = some h ∧ key.1 = (q.trackHash full).trackFullnameHash ∧
      key.2 ≠ conn) ∨
  OrphansFound r.state (q.trackHash full).trackFullnameHash

/-- The subscriptions of a track without publishers end, and no handler with them. -/
theorem unsubscribeOrphans_spec (hash : UInt64) (hhashed : Hashed q r.state)
    (hfound : (r.state.pubSubscribes.withFst hash).isEmpty = true → r.config.detachedSubs = false →
      OrphansFound r.state hash) :
    KeepsRequests r (r.unsubscribeOrphans q hash) ∧
      (r.unsubscribeOrphans q hash).state.pubSubscribes = r.state.pubSubscribes ∧
      ((r.state.pubSubscribes.withFst hash).isEmpty = false →
        (r.unsubscribeOrphans q hash).state.subscribes = r.state.subscribes) := by
  unfold unsubscribeOrphans
  split
  · rename_i horphans
    rw [Bool.and_eq_true, Bool.not_eq_true'] at horphans
    refine ⟨?_, ?_, fun hother => ?_⟩
    · exact foldl_related .refl .trans (fun r _ => keepsRequests_unsubscribeReceived r _ _) _ _
    · refine handlers_unsubscribes hash _ hhashed ?_ fun key h hget heq => ?_
      · rintro ⟨⟨hash', c⟩, info⟩ hentry found
        obtain ⟨hinfo, rfl⟩ := ExtTreeMap.mem_withFst.mp hentry
        exact hfound horphans.1 horphans.2 c info found hinfo
      · have hmem : (key, h) ∈ r.state.pubSubscribes.withFst hash :=
          ExtTreeMap.mem_withFst.mpr ⟨hget, heq⟩
        rw [List.isEmpty_iff.mp horphans.1] at hmem
        cases hmem
    · rw [horphans.1] at hother
      cases hother
  · exact ⟨.refl r, rfl, fun _ => rfl⟩

theorem state_publishDoneReceived {id : Nat} {full : FullTrackName} (hhashed : Hashed q r.state)
    (hreg : r.state.pubSubscribesByReqId[(req, conn)]? = some (id, full))
    (hends : EndsOwn q r conn full) :
    (r.publishDoneReceived q conn req).state.pubSubscribes =
      r.state.pubSubscribes.erase ((q.trackHash full).trackFullnameHash, conn) ∧
    (r.publishDoneReceived q conn req).state.pubSubscribesByReqId =
      r.state.pubSubscribesByReqId.erase (req, conn) ∧
    (r.publishDoneReceived q conn req).state.handlers = r.state.handlers ∧
    ((∃ (key : UInt64 × ConnectionHandle) (h : SubscribeTrackHandler),
      r.state.pubSubscribes[key]? = some h ∧ key.1 = (q.trackHash full).trackFullnameHash ∧
        key.2 ≠ conn) →
      (r.publishDoneReceived q conn req).state.subscribes = r.state.subscribes) := by
  unfold publishDoneReceived
  rw [hreg]
  dsimp only
  set hash := (q.trackHash full).trackFullnameHash with hhash
  set r₁ := if conn = 0 then r else r.clientAnnounce q full true false with hr₁
  have hrest : r₁.state = r.state ∧ r₁.config = r.config := by
    rw [hr₁]
    split
    · exact ⟨rfl, rfl⟩
    · exact ⟨rfl, rfl⟩
  set r₂ := r₁.mapState fun st => { st with pubSubscribes := st.pubSubscribes.erase (hash, conn) }
  have hstate : r₂.state =
      { r.state with pubSubscribes := r.state.pubSubscribes.erase (hash, conn) } := by
    rw [← hrest.1]
    rfl
  -- Another handler of the track is still there.
  have hother : (∃ (key : UInt64 × ConnectionHandle) (h : SubscribeTrackHandler),
      r.state.pubSubscribes[key]? = some h ∧ key.1 = hash ∧ key.2 ≠ conn) →
      (r₂.state.pubSubscribes.withFst hash).isEmpty = false := by
    rintro ⟨key, h, hget, hkey, hconn⟩
    rw [List.isEmpty_eq_false_iff_exists_mem]
    refine ⟨(key, h), ExtTreeMap.mem_withFst.mpr ⟨?_, hkey⟩⟩
    rw [hstate]
    change (r.state.pubSubscribes.erase (hash, conn))[key]? = some h
    rw [ExtTreeMap.getElem?_erase_ite, if_neg, hget]
    rintro rfl
    exact hconn rfl
  have hhashed₂ : Hashed q r₂.state := by
    rw [hstate]
    exact hhashed
  obtain ⟨hkeeps, hhandlers, hsubscribes⟩ := unsubscribeOrphans_spec hash hhashed₂
    (fun hempty hdetached => by
      rcases hends with hdetach | hleft | hfound
      · rw [← hrest.2] at hdetach
        cases hdetach.symm.trans hdetached
      · rw [hother hleft] at hempty
        cases hempty
      · rw [hstate]
        exact hfound)
  refine ⟨?_, ?_, ?_, fun hleft => ?_⟩
  · exact hhandlers.trans (by rw [hstate])
  · show (r₂.unsubscribeOrphans q hash).state.pubSubscribesByReqId.erase (req, conn) = _
    rw [hkeeps.pubSubscribesByReqId, hstate]
  · exact hkeeps.handlers.trans (by rw [hstate])
  · exact (hsubscribes (hother hleft)).trans (by rw [hstate])

theorem registeredInv_publishDoneReceived (hhashed : Hashed q r.state)
    (hends : ∀ id full, r.state.pubSubscribesByReqId[(req, conn)]? = some (id, full) →
      EndsOwn q r conn full) (h : RegisteredInv q r.state) :
    RegisteredInv q (r.publishDoneReceived q conn req).state := by
  cases hreg : r.state.pubSubscribesByReqId[(req, conn)]? with
  | none =>
    unfold publishDoneReceived
    rw [hreg]
    exact h
  | some entry =>
    obtain ⟨id, full⟩ := entry
    obtain ⟨hhandlers, hrequests, hmade, -⟩ :=
      state_publishDoneReceived hhashed hreg (hends id full hreg)
    have hget : ∀ key entry, (r.publishDoneReceived q conn req).state.pubSubscribesByReqId[key]? =
        some entry → key ≠ (req, conn) ∧ r.state.pubSubscribesByReqId[key]? = some entry := by
      intro key entry hget
      rw [hrequests, ExtTreeMap.getElem?_erase_ite] at hget
      split at hget
      · cases hget
      · rename_i hne
        exact ⟨hne, hget⟩
    constructor
    · intro req' conn' id' full' hreg'
      obtain ⟨hne, hold⟩ := hget _ _ hreg'
      obtain ⟨handler, hhandler, hid⟩ := h.agree req' conn' id' full' hold
      refine ⟨handler, ?_, hid⟩
      rw [hhandlers, ExtTreeMap.getElem?_erase_ite, if_neg, hhandler]
      intro heq
      -- Both requests would be registered for the one handler.
      obtain ⟨handler', hhandler', hid'⟩ := h.agree req conn id full hreg
      rw [← heq, hhandler] at hhandler'
      cases hhandler'
      exact hne (h.once _ _ _ _ hold hreg (hid.symm.trans hid'))
    · intro key entry hreg'
      rw [hmade]
      exact h.made key entry (hget key entry hreg').2
    · intro key key' entry entry' hreg' hreg''
      exact h.once key key' entry entry' (hget _ _ hreg').2 (hget _ _ hreg'').2

end Ends

/-! ### Runs -/

/-- Before a call: no handler that is registered is dropped or replaced, but for the end of its own
publication. -/
def KeepsRegistered (q : Quicr) (r : Relay) : LocalCall → Prop
  | .client (.subscribeReceived _ _ _ _) => True
  | .client (.unsubscribeReceived conn req) =>
    ∀ (key : UInt64 × ConnectionHandle) h, r.state.pubSubscribes[key]? = some h →
      r.state.subscribeAliasReqId[(conn, req)]? = some key.1 → Registered q r.state key →
        Stays (· = conn) (fun _ _ => False) h
  | .client (.connectionStatusChanged conn status) =>
    status.closes = true → (∀ hash, ¬Registered q r.state (hash, conn)) ∧
      ∀ (key : UInt64 × ConnectionHandle) h, r.state.pubSubscribes[key]? = some h →
        Registered q r.state key → Stays (· = conn) (LeftBy q r conn fun _ => True) h
  | .client (.publishReceived conn req full) =>
    ∀ (req' : RequestId) id full',
      r.state.pubSubscribesByReqId[(req', conn)]? = some (id, full') →
      (q.trackHash full').trackFullnameHash = (q.trackHash full).trackFullnameHash →
        req' = req ∧ ¬(conn = 0 ∧ req = 0)
  | .client (.publishDoneReceived conn req) =>
    ∀ id full, r.state.pubSubscribesByReqId[(req, conn)]? = some (id, full) →
      EndsOwn q r conn full
  | .client (.publishNamespaceReceived conn nameSpace _) =>
    conn ≠ 0 → ∀ entry ∈ r.state.subscribeActive.toList, ∀ hash,
      GetsHandler q r nameSpace conn entry hash → ¬Registered q r.state (hash, conn)
  | .client (.publishNamespaceDoneReceived conn req) =>
    ∀ nameSpace, r.state.requests[(conn, req)]? = some nameSpace →
      ∀ hash, (r.state.pubNamespaceActive.getD (nameSpace, conn) ∅).contains hash = true →
        ¬Registered q r.state (hash, conn)
  | .client (.subscribeNamespaceReceived _ _) => True
  | .client (.unsubscribeNamespaceReceived conn prefixNamespace) =>
    ∀ (key : UInt64 × ConnectionHandle) h, r.state.pubSubscribes[key]? = some h →
      Registered q r.state key → Stays (fun _ => False) (LeftBy q r conn (· = prefixNamespace)) h
  | .peerSubscribe th full _ =>
    ∀ key tracks, r.state.pubNamespaceActive[key]? = some tracks →
      AwaitsHandler q r th.trackFullnameHash full key →
        th.trackFullnameHash = (q.trackHash full).trackFullnameHash
  | .statusError conn full =>
    ¬Registered q r.state ((q.trackHash full).trackFullnameHash, conn)

section Runs

variable {q : Quicr} {r r' : Relay}

theorem registeredInv_unsubscribeReceived {conn : ConnectionHandle} {req : RequestId}
    (hhashed : Hashed q r.state)
    (hkeeps : KeepsRegistered q r (.client (.unsubscribeReceived conn req)))
    (h : RegisteredInv q r.state) : RegisteredInv q (r.unsubscribeReceived q conn req).state := by
  refine h.of_retains (fun hash => r.state.subscribeAliasReqId[(conn, req)]? = some hash)
    (· = conn) (fun _ _ => False)
    (keepsRequests_unsubscribeReceived r conn req) (fun i => ?_)
    fun key handler hget hreg halias => hkeeps key handler hget halias hreg
  refine retains_unsubscribeReceived (fun hash sub halias hsub key handler hkey hstays => ?_)
    StaysAs.pause (StaysAs.removeSubscriber rfl)
  refine StaysAs.has ?_ hstays
  rw [hkey, hhashed _ _ hsub]
  exact halias

theorem registeredInv_unsubscribeNamespaceReceived {conn : ConnectionHandle}
    {prefixNamespace : TrackNamespace}
    (hkeeps : KeepsRegistered q r (.client (.unsubscribeNamespaceReceived conn prefixNamespace)))
    (h : RegisteredInv q r.state) :
    RegisteredInv q (r.unsubscribeNamespaceReceived q conn prefixNamespace).state := by
  refine h.of_retains (fun _ => True) (fun _ => False) (LeftBy q r conn (· = prefixNamespace))
    (keepsRequests_unsubscribeNamespaceReceived r conn prefixNamespace) (fun i => ?_)
    fun key handler hget hreg _ => hkeeps key handler hget hreg
  refine retains_unsubscribeNamespaceReceived (fun _ _ hstays => hstays.has trivial) StaysAs.pause r
    conn prefixNamespace fun handler hget => StaysAs.removeSubscribeNamespace ?_
  exact ⟨prefixNamespace, handler, rfl, hget, rfl, rfl⟩

theorem registeredInv_localCall {call : LocalCall} (hown : r.OwnOnly) (hhashed : Hashed q r.state)
    (hkeeps : KeepsRegistered q r call) (h : RegisteredInv q r.state)
    (hcall : r.localCall q call = some r') : RegisteredInv q r'.state := by
  cases call with
  | client call =>
    cases hcall
    cases call with
    | subscribeReceived conn req full attrs => exact registeredInv_subscribeReceived h
    | unsubscribeReceived conn req => exact registeredInv_unsubscribeReceived hhashed hkeeps h
    | connectionStatusChanged conn status => exact registeredInv_connectionStatusChanged hkeeps h
    | publishReceived conn req full => exact registeredInv_publishReceived hown hkeeps h
    | publishDoneReceived conn req => exact registeredInv_publishDoneReceived hhashed hkeeps h
    | publishNamespaceReceived conn nameSpace req =>
      exact registeredInv_publishNamespaceReceived hown hkeeps h
    | publishNamespaceDoneReceived conn req =>
      exact registeredInv_publishNamespaceDoneReceived hkeeps h
    | subscribeNamespaceReceived conn prefixNamespace =>
      exact registeredInv_subscribeNamespaceReceived h
    | unsubscribeNamespaceReceived conn prefixNamespace =>
      exact registeredInv_unsubscribeNamespaceReceived hkeeps h
  | peerSubscribe th full attrs =>
    cases hcall
    exact registeredInv_processPeerSubscribe hkeeps h
  | statusError conn full =>
    cases hcall
    exact registeredInv_statusError hkeeps h

/-- The end of a publication takes no handler but the one that its request is registered for, and no
subscription to the track where another handler of it is left. -/
def EndsRegistered (q : Quicr) (r : Relay) : LocalCall → Prop
  | .client (.publishDoneReceived conn req) =>
    ∀ id full, r.state.pubSubscribesByReqId[(req, conn)]? = some (id, full) →
      ∀ (key : UInt64 × ConnectionHandle) h, r.state.pubSubscribes[key]? = some h → h.id ≠ id →
        (r.publishDoneReceived q conn req).state.pubSubscribes[key]? = some h ∧
        (key.1 = (q.trackHash full).trackFullnameHash → ∀ c, r.state.Subscribed key.1 c →
          (r.publishDoneReceived q conn req).state.Subscribed key.1 c)
  | _ => True

theorem endsRegistered_of_agree {call : LocalCall} (hhashed : Hashed q r.state)
    (hkeeps : KeepsRegistered q r call) (h : RegisteredInv q r.state) : EndsRegistered q r call := by
  cases call with
  | client call =>
    cases call with
    | publishDoneReceived conn req =>
      intro id full hreg key handler hget hid
      obtain ⟨hhandlers, -, -, hsubscribes⟩ :=
        state_publishDoneReceived hhashed hreg (hkeeps id full hreg)
      have hne : key ≠ ((q.trackHash full).trackFullnameHash, conn) := by
        rintro rfl
        obtain ⟨own, hown, howned⟩ := h.agree req conn id full hreg
        rw [hget] at hown
        cases hown
        exact hid howned
      refine ⟨?_, fun hhash c hsub => ?_⟩
      · rw [hhandlers, ExtTreeMap.getElem?_erase_ite, if_neg hne, hget]
      · have hother : key.2 ≠ conn := fun hconn => hne (Prod.ext hhash hconn)
        unfold State.Subscribed at hsub ⊢
        rwa [hsubscribes ⟨key, handler, hget, hhash, hother⟩]
    | _ => trivial
  | _ => trivial

/-- In every run of a relay that starts without clients, such that no handler is dropped or replaced
that is registered, but for the end of its own publication: the handler that a request is registered
for is the one of its track, and the end of a publication takes no other. -/
theorem publishersAgree_localCalls (q : Quicr) (r : Relay) (hnew : r.state = {})
    (hsubscribes : r.infoBase.subscribes = ∅) (calls : List LocalCall)
    (hkeeps : Runs.All (localCall q) (KeepsRegistered q) r calls) :
    ∃ r', r.localCalls q calls = some r' ∧ PublishersAgree q r'.state ∧
      Runs.All (localCall q) (EndsRegistered q) r calls := by
  have hstart : r.OwnOnly ∧ Hashed q r.state ∧ RegisteredInv q r.state := by
    refine ⟨ownOnly_new hsubscribes, ?_, ?_⟩
    · rw [hnew]
      intro key info hget
      simp at hget
    · rw [hnew]
      constructor
      · intro req conn id full hget
        simp at hget
      · intro key entry hget
        simp at hget
      · intro key key' entry entry' hget
        simp at hget
  have hstep : ∀ (r : Relay) (call : LocalCall),
      (r.OwnOnly ∧ Hashed q r.state ∧ RegisteredInv q r.state) → KeepsRegistered q r call →
      ∃ r', r.localCall q call = some r' ∧
        (r'.OwnOnly ∧ Hashed q r'.state ∧ RegisteredInv q r'.state) := by
    rintro r call ⟨hown, hhashed, h⟩ hclean
    obtain ⟨r', hcall⟩ := exists_localCall q r call
    exact ⟨r', hcall, hown.localCall hcall,
      (changes_localCall hcall).keeps (fun _ _ hchange hst => Hashed.change hchange hst) hhashed,
      registeredInv_localCall hown hhashed hclean h hcall⟩
  obtain ⟨r', hrun, -, -, hinv⟩ := hkeeps.inv hstep hstart
  exact ⟨r', hrun, hinv.agree, hkeeps.imp hstep
    (fun _ _ hinv hclean => endsRegistered_of_agree hinv.2.1 hclean hinv.2.2) hstart⟩

/-- A client publishes a track, another subscribes to it and unsubscribes, and the publication ends.
-/
def publishSubscribeDone : List LocalCall :=
  [.client (.publishReceived 8 5 ⟨[[1]], [2]⟩), .client (.subscribeReceived 7 1 ⟨[[1]], [2]⟩ {}),
   .client (.unsubscribeReceived 7 1), .client (.publishDoneReceived 8 5)]

theorem keepsRegistered_publishSubscribeDone :
    Runs.All (localCall .polynomial) (KeepsRegistered .polynomial) ({ nodeId := 1 } : Relay)
      publishSubscribeDone := by
  refine Runs.all_of_take fun k call hk r' hr' => ?_
  match k, hk with
  | 0, hk =>
    cases hk
    cases hr'
    intro req' id full' hreg
    simp at hreg
  | 1, hk =>
    cases hk
    trivial
  | 2, hk =>
    cases hk
    intro key h hget _ _
    have hmade : (({ nodeId := 1 } : Relay).localCalls .polynomial
        (publishSubscribeDone.take 2)).all (fun r =>
          r.state.pubSubscribes.toList.all fun entry => entry.2.isPublisherInitiated) = true := by
      decide +kernel
    change ({ nodeId := 1 } : Relay).localCalls .polynomial _ = some r' at hr'
    rw [hr', Option.all_some, List.all_eq_true] at hmade
    exact .inl (hmade (key, h) (ExtTreeMap.mem_toList_iff_getElem?_eq_some.mpr hget))
  | 3, hk =>
    cases hk
    intro id full _
    have hnone : (({ nodeId := 1 } : Relay).localCalls .polynomial
        (publishSubscribeDone.take 3)).all (fun r => r.state.subscribes.isEmpty) = true := by
      decide +kernel
    change ({ nodeId := 1 } : Relay).localCalls .polynomial _ = some r' at hr'
    rw [hr', Option.all_some] at hnone
    refine .inr (.inr fun c info found hinfo => ?_)
    rw [ExtTreeMap.isEmpty_iff.mp hnone] at hinfo
    simp at hinfo

theorem publishersAgree_publishSubscribeDone :
    Runs.All (localCall .polynomial) (KeepsRegistered .polynomial) ({ nodeId := 1 } : Relay)
      publishSubscribeDone ∧
    ∃ r', ({ nodeId := 1 } : Relay).localCalls .polynomial publishSubscribeDone = some r' ∧
      PublishersAgree .polynomial r'.state ∧
      Runs.All (localCall .polynomial) (EndsRegistered .polynomial) ({ nodeId := 1 } : Relay)
        publishSubscribeDone :=
  ⟨keepsRegistered_publishSubscribeDone, publishersAgree_localCalls .polynomial { nodeId := 1 } rfl
    rfl publishSubscribeDone keepsRegistered_publishSubscribeDone⟩

/-- The unsubscribe drops the handler at the announcer, which stays registered, and the next
subscription makes another in its place. -/
theorem not_publishersAgree :
    ¬∀ (calls : List LocalCall) (r' : Relay),
      ({ nodeId := 1 } : Relay).localCalls .polynomial calls = some r' →
        PublishersAgree .polynomial r'.state := by
  intro hclaim
  have hstale : (({ nodeId := 1 } : Relay).localCalls .polynomial
      [.client (.publishNamespaceReceived 8 [[1]] 4),
       .client (.subscribeReceived 7 1 ⟨[[1]], [2]⟩ {}), .client (.unsubscribeReceived 7 1),
       .client (.subscribeReceived 7 2 ⟨[[1]], [2]⟩ {})]).map (fun r =>
        (r.state.pubSubscribesByReqId[((Quicr.polynomial.subscribeTrack 8 0, 8) :
            RequestId × ConnectionHandle)]?,
          r.state.pubSubscribes[(((Quicr.polynomial.trackHash ⟨[[1]], [2]⟩).trackFullnameHash, 8) :
            UInt64 × ConnectionHandle)]?.map (·.id))) =
      some (some (0, ⟨[[1]], [2]⟩), some 1) := by
    decide +kernel
  obtain ⟨r', hrun, heq⟩ := Option.map_eq_some_iff.mp hstale
  obtain ⟨hreg, hnewer⟩ := Prod.mk.inj heq
  obtain ⟨h, hget, hid⟩ := hclaim _ r' hrun _ 8 0 ⟨[[1]], [2]⟩ hreg
  rw [hget, Option.map_some, hid] at hnewer
  cases hnewer

end Runs

end Laps.Relay
