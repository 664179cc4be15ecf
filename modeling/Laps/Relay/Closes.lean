import Laps.Lib.Runs
import Laps.Relay.Indexes

/-! What a connection that is closed leaves behind.  Its subscriptions are ended one by one as the
requests find them, its handlers and its namespaces are purged, and its requests stay. -/

namespace Laps

open Std Client Peering

namespace Client.State

/-- Nothing in the state is of the connection. -/
structure NothingOf (st : State) (conn : ConnectionHandle) : Prop extends NoneOf st conn where
  requests : ∀ req : RequestId, st.requests[(conn, req)]? = none
  pubNamespaceActive : ∀ nameSpace : TrackNamespace, st.pubNamespaceActive[(nameSpace, conn)]? = none
  pubSubscribes : ∀ hash : UInt64, st.pubSubscribes[(hash, conn)]? = none
  pubSubscribesByReqId : ∀ req : RequestId, st.pubSubscribesByReqId[(req, conn)]? = none
  subscribesNamespaces : ∀ nameSpace, st.subscribesNamespaces.get₂? nameSpace conn = none

end Client.State

namespace Relay

open State

/-! ### What the end of subscriptions leaves alone -/

/-- The requests of publishers and the namespaces that they have announced are the same. -/
structure KeepsRequests (r r' : Relay) : Prop where
  requests : r'.state.requests = r.state.requests
  pubNamespaceActive : r'.state.pubNamespaceActive = r.state.pubNamespaceActive
  pubSubscribesByReqId : r'.state.pubSubscribesByReqId = r.state.pubSubscribesByReqId
  handlers : r'.state.handlers = r.state.handlers

section KeepsRequests

variable {q : Quicr} {r r₁ r₂ r₃ : Relay}

theorem KeepsRequests.refl (r : Relay) : KeepsRequests r r := ⟨rfl, rfl, rfl, rfl⟩

theorem KeepsRequests.trans (h : KeepsRequests r₁ r₂) (h' : KeepsRequests r₂ r₃) :
    KeepsRequests r₁ r₃ :=
  ⟨h'.requests.trans h.requests, h'.pubNamespaceActive.trans h.pubNamespaceActive,
    h'.pubSubscribesByReqId.trans h.pubSubscribesByReqId, h'.handlers.trans h.handlers⟩

/-- What `RemoveOrPausePublisherSubscribe` does to the state. -/
theorem state_removeOrPause (r : Relay) (hash : UInt64) :
    (r.removeOrPausePublisherSubscribe hash).state =
      if r.hasSubscribers hash then r.state
      else { r.state with
        pubSubscribes := r.state.pubSubscribes.filterMap fun key h =>
          if key.1 = hash ∧ h.hasSubscribers = false then
            if h.isPublisherInitiated then some h.pause else none
          else some h } := by
  unfold removeOrPausePublisherSubscribe
  split
  · rfl
  · dsimp only
    split
    · rfl
    · rw [state_clientUnsubscribe]
      rfl

theorem keepsRequests_removeOrPause (r : Relay) (hash : UInt64) :
    KeepsRequests r (r.removeOrPausePublisherSubscribe hash) := by
  have hstate := state_removeOrPause r hash
  split at hstate
  · constructor <;> rw [hstate]
  · constructor <;> rw [hstate]

theorem keepsRequests_unsubscribeReceived (r : Relay) (conn : ConnectionHandle) (req : RequestId) :
    KeepsRequests r (r.unsubscribeReceived q conn req) := by
  unfold unsubscribeReceived
  split
  · exact .refl r
  · split
    · exact .refl r
    · refine KeepsRequests.trans ?_ (keepsRequests_removeOrPause _ _)
      exact ⟨rfl, rfl, rfl, rfl⟩

theorem keepsRequests_leaveNamespace (conn : ConnectionHandle) (prefixNamespace : TrackNamespace)
    (handler : PublishNamespaceHandler) (r : Relay) (key : UInt64 × ConnectionHandle) :
    KeepsRequests r (leaveNamespace q conn prefixNamespace handler r key) := by
  unfold leaveNamespace
  split
  · exact .refl r
  · split
    · exact .refl r
    · split
      · refine KeepsRequests.trans ?_ (keepsRequests_removeOrPause _ _)
        exact ⟨rfl, rfl, rfl, rfl⟩
      · exact .refl r

theorem keepsRequests_unsubscribeNamespaceReceived (r : Relay) (conn : ConnectionHandle)
    (prefixNamespace : TrackNamespace) :
    KeepsRequests r (r.unsubscribeNamespaceReceived q conn prefixNamespace) := by
  unfold unsubscribeNamespaceReceived
  split
  · exact .refl r
  · split
    · split
      · exact ⟨rfl, rfl, rfl, rfl⟩
      · exact .refl r
    · rename_i handler _
      have hleave : KeepsRequests r (r.state.pubSubscribes.keys.foldl
          (leaveNamespace q conn prefixNamespace handler) r) :=
        foldl_related .refl .trans (keepsRequests_leaveNamespace conn prefixNamespace handler) _ _
      exact hleave.trans ⟨rfl, rfl, rfl, rfl⟩

theorem keepsRequests_disconnect (r : Relay) (conn : ConnectionHandle) :
    KeepsRequests r (disconnect q r conn) :=
  (foldl_related .refl .trans
    (fun r _ => keepsRequests_unsubscribeNamespaceReceived r conn _) _ _).trans
    (foldl_related .refl .trans (fun r _ => keepsRequests_unsubscribeReceived r _ _) _ _)

end KeepsRequests

/-! ### Subscribed namespaces -/

section Namespaces

variable {q : Quicr} {r : Relay} {conn : ConnectionHandle}

theorem nameSpaces_removeOrPause (r : Relay) (hash : UInt64) :
    (r.removeOrPausePublisherSubscribe hash).state.subscribesNamespaces =
      r.state.subscribesNamespaces := by
  rw [state_removeOrPause]
  split <;> rfl

theorem nameSpaces_unsubscribeReceived (r : Relay) (conn : ConnectionHandle) (req : RequestId) :
    (r.unsubscribeReceived q conn req).state.subscribesNamespaces =
      r.state.subscribesNamespaces := by
  unfold unsubscribeReceived
  split
  · rfl
  · split
    · rfl
    · exact nameSpaces_removeOrPause _ _

theorem nameSpaces_leaveNamespace (prefixNamespace : TrackNamespace)
    (handler : PublishNamespaceHandler) (r : Relay) (key : UInt64 × ConnectionHandle) :
    (leaveNamespace q conn prefixNamespace handler r key).state.subscribesNamespaces =
      r.state.subscribesNamespaces := by
  unfold leaveNamespace
  split
  · rfl
  · split
    · rfl
    · split
      · exact nameSpaces_removeOrPause _ _
      · rfl

/-- The client leaves one namespace. -/
theorem get₂?_unsubscribeNamespaceReceived (r : Relay) (conn : ConnectionHandle)
    (prefixNamespace nameSpace : TrackNamespace) (c : ConnectionHandle) :
    (r.unsubscribeNamespaceReceived q conn
        prefixNamespace).state.subscribesNamespaces.get₂? nameSpace c =
      if nameSpace = prefixNamespace ∧ c = conn then none
      else r.state.subscribesNamespaces.get₂? nameSpace c := by
  have hsame : r.state.subscribesNamespaces.get₂? prefixNamespace conn = none →
      r.state.subscribesNamespaces.get₂? nameSpace c =
        if nameSpace = prefixNamespace ∧ c = conn then none
        else r.state.subscribesNamespaces.get₂? nameSpace c := by
    intro hnone
    split
    · rename_i heq
      rw [heq.1, heq.2, hnone]
    · rfl
  unfold unsubscribeNamespaceReceived
  split
  · rename_i hrow
    refine hsame ?_
    rw [ExtTreeMap.get₂?, hrow]
    rfl
  · rename_i row hrow
    split
    · rename_i hconn
      have hnone : r.state.subscribesNamespaces.get₂? prefixNamespace conn = none := by
        rw [ExtTreeMap.get₂?, hrow]
        exact hconn
      split
      · rename_i hempty
        rw [← hsame hnone]
        show (r.state.subscribesNamespaces.erase prefixNamespace).get₂? nameSpace c = _
        rw [ExtTreeMap.get₂?, ExtTreeMap.get₂?, ExtTreeMap.getElem?_erase_ite]
        split
        · rename_i heq
          rw [heq, hrow, ExtTreeMap.isEmpty_iff.mp hempty]
          simp
        · rfl
      · exact hsame hnone
    · rename_i handler _
      set r₁ := r.state.pubSubscribes.keys.foldl (leaveNamespace q conn prefixNamespace handler) r
      have hleave : r₁.state.subscribesNamespaces = r.state.subscribesNamespaces :=
        foldl_related (R := fun r r' : Relay =>
          r'.state.subscribesNamespaces = r.state.subscribesNamespaces) (fun _ => rfl)
          (fun h₁ h₂ => h₂.trans h₁) (nameSpaces_leaveNamespace prefixNamespace handler) r _
      show (r₁.state.subscribesNamespaces.erase₂ prefixNamespace conn).get₂? nameSpace c = _
      rw [hleave, ExtTreeMap.get₂?_erase₂]

/-- The client leaves the namespaces of a list. -/
theorem get₂?_foldl_unsubscribeNamespace
    (l : List (TrackNamespace × ExtTreeMap ConnectionHandle PublishNamespaceHandler compare))
    {nameSpace : TrackNamespace} (h : (∃ row, (nameSpace, row) ∈ l) ∨
      r.state.subscribesNamespaces.get₂? nameSpace conn = none) :
    (l.foldl (fun r row => r.unsubscribeNamespaceReceived q conn row.1)
      r).state.subscribesNamespaces.get₂? nameSpace conn = none := by
  induction l generalizing r with
  | nil => exact h.resolve_left fun ⟨_, h⟩ => absurd h List.not_mem_nil
  | cons entry l ih =>
    refine ih ?_
    rw [get₂?_unsubscribeNamespaceReceived]
    obtain ⟨row, hmem⟩ | hnone := h
    · obtain rfl | hmem := List.mem_cons.mp hmem
      · exact .inr (if_pos ⟨rfl, rfl⟩)
      · exact .inl ⟨row, hmem⟩
    · right
      rw [hnone, ite_self]

theorem get₂?_disconnect (r : Relay) (conn : ConnectionHandle) (nameSpace : TrackNamespace) :
    (disconnect q r conn).state.subscribesNamespaces.get₂? nameSpace conn = none := by
  unfold disconnect
  dsimp only
  set removeNs := r.state.subscribesNamespaces.toList.filter fun row => row.2.contains conn
    with hremoveNs
  set r₁ := removeNs.foldl (fun r row => r.unsubscribeNamespaceReceived q conn row.1) r
  have hgone : r₁.state.subscribesNamespaces.get₂? nameSpace conn = none := by
    refine get₂?_foldl_unsubscribeNamespace removeNs ?_
    cases hget : r.state.subscribesNamespaces.get₂? nameSpace conn with
    | none => exact .inr rfl
    | some handler =>
      obtain ⟨row, hrow, hconn⟩ := ExtTreeMap.get₂?_eq_some.mp hget
      refine .inl ⟨row, ?_⟩
      rw [hremoveNs, List.mem_filter]
      exact ⟨ExtTreeMap.mem_toList_iff_getElem?_eq_some.mpr hrow,
        ExtTreeMap.contains_iff_getElem?.mpr ⟨handler, hconn⟩⟩
  set r₂ := (r₁.state.subscribeAliasReqId.withFst conn).foldl
    (fun r entry => r.unsubscribeReceived q entry.1.1 entry.1.2) r₁
  have hkept : r₂.state.subscribesNamespaces = r₁.state.subscribesNamespaces :=
    foldl_related (R := fun r r' : Relay =>
      r'.state.subscribesNamespaces = r.state.subscribesNamespaces) (fun _ => rfl)
      (fun h₁ h₂ => h₂.trans h₁) (fun r _ => nameSpaces_unsubscribeReceived r _ _) r₁ _
  rw [hkept, hgone]

end Namespaces

/-! ### The end of a connection -/

/-- Before the end of a connection: it has announced no namespace and no publication of it is
registered, and its subscriptions are found by its requests. -/
structure ClosesClean (q : Quicr) (st : State) (conn : ConnectionHandle) : Prop where
  requests : ∀ req : RequestId, st.requests[(conn, req)]? = none
  pubSubscribesByReqId : ∀ req : RequestId, st.pubSubscribesByReqId[(req, conn)]? = none
  indexed : Indexed q st conn

section Closes

variable {q : Quicr} {r : Relay} {conn : ConnectionHandle} {status : ConnectionStatus}

theorem nothingOf_closed_iff (hcloses : status.closes = true) :
    (r.connectionStatusChanged q conn status).state.NothingOf conn ↔
      ClosesClean q r.state conn := by
  have hstatus : status ≠ .connected ∧ status ≠ .connecting := by
    simpa [ConnectionStatus.closes] using hcloses
  rw [connectionStatusChanged_eq q r conn hstatus.1 hstatus.2]
  have hkeeps := keepsRequests_disconnect (q := q) r conn
  constructor
  · intro h
    constructor
    · rw [← hkeeps.requests]
      exact h.requests
    · rw [← hkeeps.pubSubscribesByReqId]
      exact h.pubSubscribesByReqId
    · exact noneOf_disconnect_iff.mp ⟨h.subscribes, h.aliases, h.active⟩
  · intro h
    have hnone := noneOf_disconnect_iff.mpr h.indexed
    refine ⟨⟨hnone.subscribes, hnone.aliases, hnone.active⟩, ?_, ?_, ?_, ?_, ?_⟩
    · intro req
      show (disconnect q r conn).state.requests[_]? = none
      rw [hkeeps.requests, h.requests]
    · intro nameSpace
      show ((disconnect q r conn).state.pubNamespaceActive.filter fun key _ =>
        key.2 ≠ conn)[(nameSpace, conn)]? = none
      rw [ExtTreeMap.getElem?_filter]
      simp
    · intro hash
      show ((disconnect q r conn).state.pubSubscribes.filter fun key _ =>
        key.2 ≠ conn)[(hash, conn)]? = none
      rw [ExtTreeMap.getElem?_filter]
      simp
    · intro req
      show (disconnect q r conn).state.pubSubscribesByReqId[_]? = none
      rw [hkeeps.pubSubscribesByReqId, h.pubSubscribesByReqId]
    · exact get₂?_disconnect r conn

/-- The loops of a call of a client are defined. -/
def ManagerInPlace (q : Quicr) (r : Relay) : ManagerCall → Prop
  | .client call => InPlace q r call
  | _ => True

/-- The call is defined, and leaves nothing of the connection that it closes. -/
def LeavesNothing (q : Quicr) (r : Relay) (call : ManagerCall) : Prop :=
  ∀ conn, call.closed? = some conn → ManagerInPlace q r call ∧
    ∀ r', r.managerCall q call = some r' → r'.state.NothingOf conn

/-- Before the call, for the connection that it closes. -/
def CallClosesClean (q : Quicr) (r : Relay) (call : ManagerCall) : Prop :=
  ∀ conn, call.closed? = some conn → ManagerInPlace q r call ∧ ClosesClean q r.state conn

theorem leavesNothing_iff (q : Quicr) (r : Relay) (call : ManagerCall) :
    LeavesNothing q r call ↔ CallClosesClean q r call := by
  refine forall₂_congr fun conn hclosed => ?_
  cases call with
  | client call =>
    cases call with
    | connectionStatusChanged conn' status =>
      have hclosed : (if status.closes then some conn' else none) = some conn := hclosed
      split at hclosed
      · rename_i hcloses
        cases hclosed
        rw [← nothingOf_closed_iff hcloses]
        exact and_congr_right fun _ => ⟨fun h => h _ rfl, fun h r' hr' => by cases hr'; exact h⟩
      · cases hclosed
    | _ => cases hclosed
  | _ => cases hclosed

/-- In every run the closes of connections leave nothing of them behind if and only if before each
of them the connection has announced no namespace, has no publication registered, and its requests
find its subscriptions, and no loop over the handlers erases the one that it stands on. -/
theorem closes_leave_nothing_iff (q : Quicr) (r : Relay) (calls : List ManagerCall) :
    Runs.All (managerCall q) (LeavesNothing q) r calls ↔
      Runs.All (managerCall q) (CallClosesClean q) r calls :=
  forall₅_congr fun _ call _ r' _ => leavesNothing_iff q r' call

/-- A publisher leaves without ending its publication, which stays registered under its request. -/
theorem not_leavesNothing :
    ¬∀ calls : List ManagerCall,
      Runs.All (managerCall .polynomial) (LeavesNothing .polynomial) ({ nodeId := 1 } : Relay)
        calls := by
  intro hclaim
  have hleft : ((({ nodeId := 1 } : Relay).publishReceived .polynomial 8 5
      ⟨[[1]], [2]⟩).connectionStatusChanged .polynomial 8
        .closedByRemote).state.pubSubscribesByReqId.contains (5, 8) = true := by decide +kernel
  have hnothing := hclaim [.client (.publishReceived 8 5 ⟨[[1]], [2]⟩),
    .client (.connectionStatusChanged 8 .closedByRemote)]
    [.client (.publishReceived 8 5 ⟨[[1]], [2]⟩)] _ List.prefix_rfl _ rfl 8 rfl
  obtain ⟨entry, hentry⟩ := ExtTreeMap.contains_iff_getElem?.mp hleft
  have hnone := (hnothing.2 _ rfl).pubSubscribesByReqId 5
  cases hnone.symm.trans hentry

end Closes

end Relay

end Laps
