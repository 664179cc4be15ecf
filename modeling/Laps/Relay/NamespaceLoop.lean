import Laps.Lib.Sweep
import Laps.Relay.Closes

/-! The loop over the handlers of the publishers when a connection leaves a namespace.  A handler
that is left without subscribers may be dropped from the map while the loop stands on it. -/

namespace Laps.Relay

open Std Client Peering Sweep

/-- The tracks of the publisher's handler are published to the namespace handler. -/
def HoldsNamespace (q : Quicr) (handler : PublishNamespaceHandler) (h : SubscribeTrackHandler) :
    Prop :=
  (h.subNamespaces.get₂? (q.trackHash ⟨handler.prefixNamespace, []⟩).trackFullnameHash
    handler.connectionId).isSome = true

/-- The loop comes to its end, to each handler of the prefix once, and takes the namespace handler
from it. -/
def LeavesOnce (q : Quicr) (r : Relay) (conn : ConnectionHandle) (prefixNamespace : TrackNamespace)
    (handler : PublishNamespaceHandler) : Prop :=
  ∃ fuel visited r', leaveNamespaces q conn prefixNamespace handler fuel r = some (visited, r') ∧
    ∀ (key : UInt64 × ConnectionHandle) h, r.state.pubSubscribes[key]? = some h →
      q.hasSamePrefix prefixNamespace h.fullTrackName.nameSpace = true →
      visited.count key = 1 ∧
        ∀ h', r'.state.pubSubscribes[key]? = some h' → ¬HoldsNamespace q handler h'

/-- `UnsubscribeNamespaceReceived` of a connection that is subscribed to the namespace. -/
def UnsubscribesSafely (q : Quicr) (r : Relay) (conn : ConnectionHandle)
    (prefixNamespace : TrackNamespace) : Prop :=
  ∀ handler, r.state.subscribesNamespaces.get₂? prefixNamespace conn = some handler →
    LeavesOnce q r conn prefixNamespace handler

/-- A handler that is not dropped: other relays or clients are subscribed to it, or its publisher
has made it. -/
def KeepsPublisher (r : Relay) (key : UInt64 × ConnectionHandle) (h : SubscribeTrackHandler) : Prop :=
  r.hasSubscribers key.1 = true ∨ h.isPublisherInitiated = true ∨ h.hasSubscribers = true

/-- The handlers of the prefix stay without the namespace handler.  Those of the connection itself,
which are passed over, do not have it, and stay or come first of their track. -/
def StayWithout (q : Quicr) (r : Relay) (conn : ConnectionHandle) (prefixNamespace : TrackNamespace)
    (handler : PublishNamespaceHandler) : Prop :=
  ∀ (key : UInt64 × ConnectionHandle) h, r.state.pubSubscribes[key]? = some h →
    q.hasSamePrefix prefixNamespace h.fullTrackName.nameSpace = true →
    if r.config.allowSelf = true ∨ key.2 ≠ conn then
      KeepsPublisher r key (h.removeSubscribeNamespace q handler)
    else ¬HoldsNamespace q handler h ∧
      (KeepsPublisher r key h ∨ ∀ (key' : UInt64 × ConnectionHandle) h',
        r.state.pubSubscribes[key']? = some h' → key'.1 = key.1 → key'.2 < key.2 →
          q.hasSamePrefix prefixNamespace h'.fullTrackName.nameSpace = false)

/-! ### One handler -/

section Step

variable {q : Quicr} {r : Relay} {handler : PublishNamespaceHandler} {h h' : SubscribeTrackHandler}

/-- The handlers are the same, but that one of them may be paused. -/
structure SameButPaused (h h' : SubscribeTrackHandler) : Prop where
  fullTrackName : h'.fullTrackName = h.fullTrackName
  isPublisherInitiated : h'.isPublisherInitiated = h.isPublisherInitiated
  subscribers : h'.subscribers = h.subscribers
  subNamespaces : h'.subNamespaces = h.subNamespaces

theorem SameButPaused.refl (h : SubscribeTrackHandler) : SameButPaused h h := ⟨rfl, rfl, rfl, rfl⟩

theorem SameButPaused.trans {h₁ h₂ h₃ : SubscribeTrackHandler} (h : SameButPaused h₁ h₂)
    (h' : SameButPaused h₂ h₃) : SameButPaused h₁ h₃ :=
  ⟨h'.fullTrackName.trans h.fullTrackName, h'.isPublisherInitiated.trans h.isPublisherInitiated,
    h'.subscribers.trans h.subscribers, h'.subNamespaces.trans h.subNamespaces⟩

theorem SameButPaused.stays (hsame : SameButPaused h h') {key : UInt64 × ConnectionHandle} :
    KeepsPublisher r key h' ↔ KeepsPublisher r key h := by
  rw [KeepsPublisher, KeepsPublisher, SubscribeTrackHandler.hasSubscribers,
    SubscribeTrackHandler.hasSubscribers,
    hsame.isPublisherInitiated, hsame.subscribers, hsame.subNamespaces]

theorem SameButPaused.holdsNamespace (hsame : SameButPaused h h') :
    HoldsNamespace q handler h' ↔ HoldsNamespace q handler h := by
  rw [HoldsNamespace, HoldsNamespace, hsame.subNamespaces]

theorem SameButPaused.removeSubscribeNamespace (hsame : SameButPaused h h') :
    SameButPaused (h.removeSubscribeNamespace q handler)
      (h'.removeSubscribeNamespace q handler) :=
  ⟨hsame.fullTrackName, hsame.isPublisherInitiated, hsame.subscribers,
    congrArg (ExtTreeMap.erase₂ · _ _) hsame.subNamespaces⟩

theorem not_holdsNamespace_remove (h : SubscribeTrackHandler) :
    ¬HoldsNamespace q handler (h.removeSubscribeNamespace q handler) := by
  unfold HoldsNamespace SubscribeTrackHandler.removeSubscribeNamespace
  dsimp only
  rw [ExtTreeMap.get₂?_erase₂, if_pos ⟨rfl, rfl⟩]
  simp

theorem not_holdsNamespace_of_none (h : SubscribeTrackHandler) (hnone : h.hasSubscribers = false) :
    ¬HoldsNamespace q handler h := by
  unfold SubscribeTrackHandler.hasSubscribers at hnone
  rw [Bool.or_eq_false_iff, Bool.not_eq_false', Bool.not_eq_false'] at hnone
  have hempty : h.subNamespaces = ∅ := ExtTreeMap.isEmpty_iff.mp hnone.2
  rw [HoldsNamespace, hempty]
  simp

/-- A handler that stays without the namespace handler stays with it. -/
theorem stays_of_remove {key : UInt64 × ConnectionHandle}
    (hstays : KeepsPublisher r key (h.removeSubscribeNamespace q handler)) :
    KeepsPublisher r key h := by
  obtain hfib | hmade | hsubs := hstays
  · exact .inl hfib
  · exact .inr (.inl hmade)
  · refine .inr (.inr ?_)
    rw [SubscribeTrackHandler.hasSubscribers, Bool.or_eq_true] at hsubs ⊢
    refine hsubs.imp id fun hnamespaces => ?_
    rw [Bool.not_eq_true', ← Bool.not_eq_true] at hnamespaces ⊢
    intro hempty
    refine hnamespaces ?_
    have hnone : h.subNamespaces = ∅ := ExtTreeMap.isEmpty_iff.mp hempty
    simp [SubscribeTrackHandler.removeSubscribeNamespace, hnone, ExtTreeMap.erase₂]

theorem removeOrPause_rest (r : Relay) (hash : UInt64) :
    (r.removeOrPausePublisherSubscribe hash).config = r.config ∧
      (r.removeOrPausePublisherSubscribe hash).infoBase.clientFib = r.infoBase.clientFib := by
  unfold removeOrPausePublisherSubscribe
  split
  · exact ⟨rfl, rfl⟩
  · dsimp only
    split
    · exact ⟨rfl, rfl⟩
    · obtain ⟨-, hconfig, -, hfib⟩ := clientUnsubscribe_rest (r.mapState fun st => { st with
        pubSubscribes := st.pubSubscribes.filterMap fun key h =>
          if key.1 = hash ∧ h.hasSubscribers = false then
            if h.isPublisherInitiated then some h.pause else none
          else some h }) hash
      exact ⟨hconfig, hfib⟩

/-- What is in the map afterwards was there, and stays. -/
theorem of_getElem?_removeOrPause {hash : UInt64} {key : UInt64 × ConnectionHandle}
    (hget : (r.removeOrPausePublisherSubscribe hash).state.pubSubscribes[key]? = some h') :
    ∃ h, r.state.pubSubscribes[key]? = some h ∧ SameButPaused h h' ∧
      (key.1 = hash → KeepsPublisher r key h) := by
  rw [state_removeOrPause] at hget
  split at hget
  · rename_i hfib
    refine ⟨h', hget, .refl h', ?_⟩
    rintro rfl
    exact .inl hfib
  · dsimp only at hget
    rw [ExtTreeMap.getElem?_filterMap', Option.bind_eq_some_iff] at hget
    obtain ⟨h, hold, hsome⟩ := hget
    refine ⟨h, hold, ?_⟩
    split_ifs at hsome with hidle hmade
    · cases hsome
      exact ⟨⟨rfl, rfl, rfl, rfl⟩, fun _ => .inr (.inl hmade)⟩
    · cases hsome
      refine ⟨.refl _, fun hkey => .inr (.inr ?_)⟩
      by_contra hnone
      exact hidle ⟨hkey, Bool.eq_false_iff.mpr hnone⟩

/-- What stays is in the map afterwards. -/
theorem getElem?_removeOrPause {hash : UInt64} {key : UInt64 × ConnectionHandle}
    (hget : r.state.pubSubscribes[key]? = some h) (hstays : key.1 = hash → KeepsPublisher r key h) :
    ∃ h', (r.removeOrPausePublisherSubscribe hash).state.pubSubscribes[key]? = some h' := by
  rw [state_removeOrPause]
  split
  · exact ⟨h, hget⟩
  · rename_i hfib
    dsimp only
    rw [ExtTreeMap.getElem?_filterMap', hget, Option.bind_some]
    split_ifs with hidle hmade
    · exact ⟨h.pause, rfl⟩
    · obtain ⟨rfl, hnone⟩ := hidle
      obtain hpeers | hmade' | hsubs := hstays rfl
      · exact absurd hpeers hfib
      · exact absurd hmade' hmade
      · rw [hnone] at hsubs
        cases hsubs
    · exact ⟨h, rfl⟩

variable {conn : ConnectionHandle} {prefixNamespace : TrackNamespace}

theorem leaveNamespace_of_leaves {key : UInt64 × ConnectionHandle}
    (hget : r.state.pubSubscribes[key]? = some h) (hleaves : Leaves q r conn prefixNamespace key h) :
    leaveNamespace q conn prefixNamespace handler r key =
      (r.mapState fun st => { st with
        pubSubscribes := st.pubSubscribes.insert key
          (h.removeSubscribeNamespace q handler) }).removeOrPausePublisherSubscribe key.1 := by
  obtain ⟨hself, hmatch⟩ := hleaves
  unfold leaveNamespace
  rw [hget]
  dsimp only
  rw [if_neg, if_pos hmatch]
  obtain hallow | hother := hself
  · simp [hallow]
  · simp [hother]

theorem leaveNamespace_of_not_leaves {key : UInt64 × ConnectionHandle}
    (hget : r.state.pubSubscribes[key]? = some h)
    (hleaves : ¬Leaves q r conn prefixNamespace key h) :
    leaveNamespace q conn prefixNamespace handler r key = r := by
  unfold leaveNamespace
  rw [hget]
  dsimp only
  split
  · rfl
  · rename_i hself
    rw [if_neg]
    refine fun hmatch => hleaves ⟨?_, hmatch⟩
    by_cases hallow : r.config.allowSelf = true
    · exact .inl hallow
    · exact .inr (by simpa [hallow] using hself)

end Step

/-! ### The loop -/

section Loop

variable {q : Quicr} {r r' : Relay} {conn : ConnectionHandle} {prefixNamespace : TrackNamespace}
variable {handler : PublishNamespaceHandler} {visited : List (UInt64 × ConnectionHandle)}
variable {key : UInt64 × ConnectionHandle} {h h' : SubscribeTrackHandler}

/-- The handler has been taken out of the namespace. -/
def Taken (q : Quicr) (r : Relay) (conn : ConnectionHandle) (prefixNamespace : TrackNamespace)
    (visited : List (UInt64 × ConnectionHandle)) (key : UInt64 × ConnectionHandle)
    (h : SubscribeTrackHandler) : Prop :=
  key ∈ visited ∧ Leaves q r conn prefixNamespace key h

open Classical in
/-- A handler after the loop has come to some keys. -/
noncomputable def leftOf (q : Quicr) (r : Relay) (conn : ConnectionHandle)
    (prefixNamespace : TrackNamespace) (handler : PublishNamespaceHandler)
    (visited : List (UInt64 × ConnectionHandle)) (key : UInt64 × ConnectionHandle)
    (h : SubscribeTrackHandler) : SubscribeTrackHandler :=
  if Taken q r conn prefixNamespace visited key h then h.removeSubscribeNamespace q handler else h

/-- A handler of the track has been taken out of the namespace, so that this one is dropped unless
it stays. -/
def LoopDrops (q : Quicr) (r : Relay) (conn : ConnectionHandle) (prefixNamespace : TrackNamespace)
    (handler : PublishNamespaceHandler) (visited : List (UInt64 × ConnectionHandle))
    (key : UInt64 × ConnectionHandle) (h : SubscribeTrackHandler) : Prop :=
  (∃ (key' : UInt64 × ConnectionHandle) (h' : SubscribeTrackHandler),
    r.state.pubSubscribes[key']? = some h' ∧ Taken q r conn prefixNamespace visited key' h' ∧
      key'.1 = key.1) ∧
    ¬KeepsPublisher r key (leftOf q r conn prefixNamespace handler visited key h)

/-- The relay after the loop has come to some keys. -/
structure LeftAt (q : Quicr) (r : Relay) (conn : ConnectionHandle)
    (prefixNamespace : TrackNamespace) (handler : PublishNamespaceHandler)
    (visited : List (UInt64 × ConnectionHandle)) (r' : Relay) : Prop where
  config : r'.config = r.config
  clientFib : r'.infoBase.clientFib = r.infoBase.clientFib
  stored : ∀ (key : UInt64 × ConnectionHandle) h', r'.state.pubSubscribes[key]? = some h' →
    ∃ h, r.state.pubSubscribes[key]? = some h ∧
      ¬LoopDrops q r conn prefixNamespace handler visited key h ∧
        SameButPaused (leftOf q r conn prefixNamespace handler visited key h) h'
  stays : ∀ (key : UInt64 × ConnectionHandle) h, r.state.pubSubscribes[key]? = some h →
    ¬LoopDrops q r conn prefixNamespace handler visited key h →
      ∃ h', r'.state.pubSubscribes[key]? = some h'

theorem leftOf_of_taken (htaken : Taken q r conn prefixNamespace visited key h) :
    leftOf q r conn prefixNamespace handler visited key h =
      h.removeSubscribeNamespace q handler := if_pos htaken

theorem leftOf_of_not_taken (htaken : ¬Taken q r conn prefixNamespace visited key h) :
    leftOf q r conn prefixNamespace handler visited key h = h := if_neg htaken

/-- Another key does not matter to the handler. -/
theorem leftOf_concat {k : UInt64 × ConnectionHandle}
    (hk : key = k → ¬Leaves q r conn prefixNamespace key h) :
    leftOf q r conn prefixNamespace handler (visited ++ [k]) key h =
      leftOf q r conn prefixNamespace handler visited key h := by
  have htaken : Taken q r conn prefixNamespace (visited ++ [k]) key h ↔
      Taken q r conn prefixNamespace visited key h := by
    unfold Taken
    rw [List.mem_append, List.mem_singleton]
    constructor
    · rintro ⟨hmem | heq, hleaves⟩
      · exact ⟨hmem, hleaves⟩
      · exact absurd hleaves (hk heq)
    · exact fun ⟨hmem, hleaves⟩ => ⟨.inl hmem, hleaves⟩
  by_cases htaken' : Taken q r conn prefixNamespace visited key h
  · rw [leftOf_of_taken htaken', leftOf_of_taken (htaken.mpr htaken')]
  · rw [leftOf_of_not_taken htaken', leftOf_of_not_taken (htaken.not.mpr htaken')]

theorem stays_congr (hfib : r'.infoBase.clientFib = r.infoBase.clientFib) :
    KeepsPublisher r' key h ↔ KeepsPublisher r key h := by
  rw [KeepsPublisher, KeepsPublisher, Relay.hasSubscribers, Relay.hasSubscribers, hfib]

theorem LeftAt.leaves_iff (hat : LeftAt q r conn prefixNamespace handler visited r')
    (hsame : h'.fullTrackName = h.fullTrackName) :
    Leaves q r' conn prefixNamespace key h' ↔ Leaves q r conn prefixNamespace key h := by
  rw [Leaves, Leaves, hat.config, hsame]

theorem leftAt_nil : LeftAt q r conn prefixNamespace handler [] r := by
  have hnone : ∀ key h, ¬Taken q r conn prefixNamespace [] key h :=
    fun key h htaken => absurd htaken.1 List.not_mem_nil
  refine ⟨rfl, rfl, fun key h hget => ⟨h, hget, ?_, ?_⟩, fun key h hget _ => ⟨h, hget⟩⟩
  · rintro ⟨⟨key', h', -, htaken, -⟩, -⟩
    exact hnone key' h' htaken
  · rw [leftOf_of_not_taken (hnone key h)]
    exact .refl h

/-- A key that is passed over changes nothing. -/
theorem LeftAt.concat_of_not_leaves (hat : LeftAt q r conn prefixNamespace handler visited r')
    (hget : r.state.pubSubscribes[key]? = some h)
    (hleaves : ¬Leaves q r conn prefixNamespace key h) :
    LeftAt q r conn prefixNamespace handler (visited ++ [key]) r' := by
  have hleft : ∀ key' h', r.state.pubSubscribes[key']? = some h' →
      leftOf q r conn prefixNamespace handler (visited ++ [key]) key' h' =
        leftOf q r conn prefixNamespace handler visited key' h' := by
    intro key' h' hget'
    refine leftOf_concat ?_
    rintro rfl
    rw [hget] at hget'
    cases hget'
    exact hleaves
  have hdropped : ∀ key' h', r.state.pubSubscribes[key']? = some h' →
      (LoopDrops q r conn prefixNamespace handler (visited ++ [key]) key' h' ↔
        LoopDrops q r conn prefixNamespace handler visited key' h') := by
    intro key' h' hget'
    unfold LoopDrops
    rw [hleft key' h' hget']
    refine and_congr_left fun _ => ?_
    constructor
    · rintro ⟨key₁, h₁, hget₁, ⟨hmem, hleaves₁⟩, hsame⟩
      rw [List.mem_append, List.mem_singleton] at hmem
      obtain hmem | rfl := hmem
      · exact ⟨key₁, h₁, hget₁, ⟨hmem, hleaves₁⟩, hsame⟩
      · rw [hget] at hget₁
        cases hget₁
        exact absurd hleaves₁ hleaves
    · rintro ⟨key₁, h₁, hget₁, ⟨hmem, hleaves₁⟩, hsame⟩
      exact ⟨key₁, h₁, hget₁, ⟨List.mem_append_left _ hmem, hleaves₁⟩, hsame⟩
  refine ⟨hat.config, hat.clientFib, fun key' h' hget' => ?_, fun key' h' hget' hnot => ?_⟩
  · obtain ⟨old, hold, hnot, hsame⟩ := hat.stored key' h' hget'
    exact ⟨old, hold, (hdropped key' old hold).not.mpr hnot, (hleft key' old hold).symm ▸ hsame⟩
  · exact hat.stays key' h' hget' ((hdropped key' h' hget').not.mp hnot)

/-- The handler is taken out of the namespace, and those of its track are looked through. -/
theorem LeftAt.exists_removed (hat : LeftAt q r conn prefixNamespace handler visited r')
    (hget' : r'.state.pubSubscribes[key]? = some h') (hname : h'.fullTrackName = h.fullTrackName)
    (hleaves : Leaves q r conn prefixNamespace key h) :
    ∃ r₁ : Relay, leaveNamespace q conn prefixNamespace handler r' key =
        r₁.removeOrPausePublisherSubscribe key.1 ∧
      (∀ k : UInt64 × ConnectionHandle, r₁.state.pubSubscribes[k]? =
        if k = key then some (h'.removeSubscribeNamespace q handler)
        else r'.state.pubSubscribes[k]?) ∧
      r₁.config = r.config ∧ r₁.infoBase.clientFib = r.infoBase.clientFib := by
  refine ⟨r'.mapState fun st => { st with
    pubSubscribes := st.pubSubscribes.insert key (h'.removeSubscribeNamespace q handler) },
    leaveNamespace_of_leaves hget' ((hat.leaves_iff hname).mpr hleaves), fun k => ?_,
    hat.config, hat.clientFib⟩
  exact ExtTreeMap.getElem?_insert_ite ..

section Leaves

variable {r₁ : Relay} {k : UInt64 × ConnectionHandle} {hk : SubscribeTrackHandler}

theorem leftOf_concat_of_ne (hne : k ≠ key) :
    leftOf q r conn prefixNamespace handler (visited ++ [key]) k hk =
      leftOf q r conn prefixNamespace handler visited k hk :=
  leftOf_concat fun heq => absurd heq hne

theorem taken_concat (hleaves : Leaves q r conn prefixNamespace key h) :
    Taken q r conn prefixNamespace (visited ++ [key]) key h := ⟨by simp, hleaves⟩

/-- What is there after it. -/
theorem LeftAt.stored_concat (hat : LeftAt q r conn prefixNamespace handler visited r')
    (hget : r.state.pubSubscribes[key]? = some h) (hsame : SameButPaused h h')
    (hleaves : Leaves q r conn prefixNamespace key h)
    (hget₁ : ∀ k : UInt64 × ConnectionHandle, r₁.state.pubSubscribes[k]? =
      if k = key then some (h'.removeSubscribeNamespace q handler)
      else r'.state.pubSubscribes[k]?)
    (hfib : r₁.infoBase.clientFib = r.infoBase.clientFib)
    (hgetk : (r₁.removeOrPausePublisherSubscribe key.1).state.pubSubscribes[k]? = some hk) :
    ∃ first, r.state.pubSubscribes[k]? = some first ∧
      ¬LoopDrops q r conn prefixNamespace handler (visited ++ [key]) k first ∧
        SameButPaused (leftOf q r conn prefixNamespace handler (visited ++ [key]) k first) hk := by
  have hleft : leftOf q r conn prefixNamespace handler (visited ++ [key]) key h =
      h.removeSubscribeNamespace q handler := leftOf_of_taken (taken_concat hleaves)
  obtain ⟨old, hold, hpaused, hstays⟩ := of_getElem?_removeOrPause hgetk
  rw [hget₁] at hold
  split at hold
  · rename_i heq
    subst heq
    cases hold
    refine ⟨h, hget, fun hdropped => hdropped.2 ?_, ?_⟩
    · rw [hleft, ← hsame.removeSubscribeNamespace.stays, ← stays_congr hfib]
      exact hstays rfl
    · rw [hleft]
      exact hsame.removeSubscribeNamespace.trans hpaused
  · rename_i hne
    obtain ⟨first, hfirst, hnot, hsame'⟩ := hat.stored k old hold
    refine ⟨first, hfirst, ?_, ?_⟩
    · rintro ⟨⟨key', h₁, hkey', ⟨hmem, hleaves'⟩, hhash⟩, hgone⟩
      rw [leftOf_concat_of_ne hne] at hgone
      rw [List.mem_append, List.mem_singleton] at hmem
      obtain hmem | rfl := hmem
      · exact hnot ⟨⟨key', h₁, hkey', ⟨hmem, hleaves'⟩, hhash⟩, hgone⟩
      · refine hgone ?_
        rw [← hsame'.stays, ← stays_congr hfib]
        exact hstays hhash.symm
    · rw [leftOf_concat_of_ne hne]
      exact hsame'.trans hpaused

/-- What is not dropped is there after it. -/
theorem LeftAt.stays_concat (hat : LeftAt q r conn prefixNamespace handler visited r')
    (hget : r.state.pubSubscribes[key]? = some h) (hsame : SameButPaused h h')
    (hleaves : Leaves q r conn prefixNamespace key h)
    (hget₁ : ∀ k : UInt64 × ConnectionHandle, r₁.state.pubSubscribes[k]? =
      if k = key then some (h'.removeSubscribeNamespace q handler)
      else r'.state.pubSubscribes[k]?)
    (hfib : r₁.infoBase.clientFib = r.infoBase.clientFib)
    (hgetk : r.state.pubSubscribes[k]? = some hk)
    (hnot : ¬LoopDrops q r conn prefixNamespace handler (visited ++ [key]) k hk) :
    ∃ h₂, (r₁.removeOrPausePublisherSubscribe key.1).state.pubSubscribes[k]? = some h₂ := by
  have htaken : Taken q r conn prefixNamespace (visited ++ [key]) key h := taken_concat hleaves
  by_cases heq : k = key
  · subst heq
    rw [hget] at hgetk
    cases hgetk
    refine getElem?_removeOrPause (h := h'.removeSubscribeNamespace q handler) ?_ fun _ => ?_
    · rw [hget₁, if_pos rfl]
    · rw [stays_congr hfib, hsame.removeSubscribeNamespace.stays]
      by_contra hgone
      refine hnot ⟨⟨k, h, hget, htaken, rfl⟩, ?_⟩
      rwa [leftOf_of_taken htaken]
  · have hnot' : ¬LoopDrops q r conn prefixNamespace handler visited k hk := by
      rintro ⟨⟨key', h₁, hkey', ⟨hmem, hleaves'⟩, hhash⟩, hgone⟩
      refine hnot ⟨⟨key', h₁, hkey', ⟨List.mem_append_left _ hmem, hleaves'⟩, hhash⟩, ?_⟩
      rwa [leftOf_concat_of_ne heq]
    obtain ⟨old, hold⟩ := hat.stays k hk hgetk hnot'
    obtain ⟨first, hfirst, -, hsame'⟩ := hat.stored k old hold
    rw [hgetk] at hfirst
    cases hfirst
    refine getElem?_removeOrPause (h := old) ?_ fun hhash => ?_
    · rw [hget₁, if_neg heq]
      exact hold
    · rw [stays_congr hfib, hsame'.stays, ← leftOf_concat_of_ne heq]
      by_contra hgone
      exact hnot ⟨⟨key, h, hget, htaken, hhash.symm⟩, hgone⟩

end Leaves

/-- A handler is taken out of the namespace. -/
theorem LeftAt.concat_of_leaves (hat : LeftAt q r conn prefixNamespace handler visited r')
    (hget' : r'.state.pubSubscribes[key]? = some h')
    (hget : r.state.pubSubscribes[key]? = some h) (hsame : SameButPaused h h')
    (hleaves : Leaves q r conn prefixNamespace key h) :
    LeftAt q r conn prefixNamespace handler (visited ++ [key])
      (leaveNamespace q conn prefixNamespace handler r' key) := by
  obtain ⟨r₁, hleave, hget₁, hconfig, hfib⟩ :=
    hat.exists_removed hget' hsame.fullTrackName hleaves
  obtain ⟨hconfig', hfib'⟩ := removeOrPause_rest r₁ key.1
  rw [hleave]
  refine ⟨hconfig'.trans hconfig, hfib'.trans hfib, fun k hk hgetk => ?_, fun k hk hgetk hnot => ?_⟩
  · exact hat.stored_concat hget hsame hleaves hget₁ hfib hgetk
  · exact hat.stays_concat hget hsame hleaves hget₁ hfib hgetk hnot

/-- The loop comes to a key. -/
theorem LeftAt.concat (hat : LeftAt q r conn prefixNamespace handler visited r')
    (hnext : nextKey r'.state.pubSubscribes visited = some key) :
    ∃ h, r.state.pubSubscribes[key]? = some h ∧
      ¬LoopDrops q r conn prefixNamespace handler visited key h ∧
      LeftAt q r conn prefixNamespace handler (visited ++ [key])
        (leaveNamespace q conn prefixNamespace handler r' key) := by
  obtain ⟨hcontains, hafter, -⟩ := nextKey_eq_some hnext
  obtain ⟨h', hget'⟩ := ExtTreeMap.contains_iff_getElem?.mp hcontains
  obtain ⟨h, hget, hnot, hsame⟩ := hat.stored key h' hget'
  rw [leftOf_of_not_taken fun htaken => hafter.not_mem htaken.1] at hsame
  refine ⟨h, hget, hnot, ?_⟩
  by_cases hleaves : Leaves q r conn prefixNamespace key h
  · exact hat.concat_of_leaves hget' hget hsame hleaves
  · rw [leaveNamespace_of_not_leaves hget'
      ((hat.leaves_iff hsame.fullTrackName).not.mpr hleaves)]
    exact hat.concat_of_not_leaves hget hleaves

theorem keeps_leftAt : Sweep.Keeps (fun r : Relay => r.state.pubSubscribes)
    (fun r key => some (leaveNamespace q conn prefixNamespace handler r key))
    (LeftAt q r conn prefixNamespace handler) := by
  intro visited r' key r'' hat hnext hbody _
  cases hbody
  obtain ⟨h, -, -, hat'⟩ := hat.concat hnext
  exact hat'

/-- The keys that are there are those from before. -/
theorem contains_leaveNamespace {k : UInt64 × ConnectionHandle}
    (hk : (leaveNamespace q conn prefixNamespace handler r key).state.pubSubscribes.contains k =
      true) : r.state.pubSubscribes.contains k = true := by
  cases hget : r.state.pubSubscribes[key]? with
  | none =>
    unfold leaveNamespace at hk
    rwa [hget] at hk
  | some h =>
    by_cases hleaves : Leaves q r conn prefixNamespace key h
    · rw [leaveNamespace_of_leaves hget hleaves] at hk
      obtain ⟨h', hget'⟩ := ExtTreeMap.contains_iff_getElem?.mp hk
      obtain ⟨old, hold, -⟩ := of_getElem?_removeOrPause hget'
      obtain rfl | hmem :=
        ExtTreeMap.contains_insert_iff.mp (ExtTreeMap.contains_iff_getElem?.mpr ⟨old, hold⟩)
      · exact ExtTreeMap.contains_iff_getElem?.mpr ⟨h, hget⟩
      · exact hmem
    · rwa [leaveNamespace_of_not_leaves hget hleaves] at hk

/-- Where the loop comes to its end it does what one over the keys at its start does. -/
theorem leaveNamespaces_eq_foldl {fuel : ℕ}
    (h : leaveNamespaces q conn prefixNamespace handler fuel r = some (visited, r')) :
    r.state.pubSubscribes.keys.foldl (leaveNamespace q conn prefixNamespace handler) r = r' := by
  refine sweep_eq_foldl (fun r key hgone => ?_) (fun r key k => contains_leaveNamespace) h
  unfold leaveNamespace
  rw [ExtTreeMap.contains_eq_false_iff.mp hgone]

/-- A handler of the prefix is there as long as the loop has not come to it. -/
theorem StayWithout.contains (hstay : StayWithout q r conn prefixNamespace handler)
    (hget : r.state.pubSubscribes[key]? = some h)
    (hmatch : q.hasSamePrefix prefixNamespace h.fullTrackName.nameSpace = true)
    (hat : LeftAt q r conn prefixNamespace handler visited r')
    (hafter : After compare visited key) : r'.state.pubSubscribes.contains key = true := by
  rw [ExtTreeMap.contains_iff_getElem?]
  refine hat.stays key h hget ?_
  rintro ⟨⟨key', h', hget', ⟨hmem, hself', hmatch'⟩, hhash⟩, hgone⟩
  rw [leftOf_of_not_taken fun htaken => hafter.not_mem htaken.1] at hgone
  have hcond := hstay key h hget hmatch
  split at hcond
  · exact hgone (stays_of_remove hcond)
  · obtain hstays | hfirst := hcond.2
    · exact hgone hstays
    · have hlt : (compare key'.1 key.1).then (compare key'.2 key.2) = .lt := hafter key' hmem
      rw [hhash, ReflOrd.compare_self] at hlt
      have hnot := hfirst key' h' hget' hhash (compare_eq_lt.mp hlt)
      rw [hmatch'] at hnot
      cases hnot

/-- The loop goes on from every handler when those of the prefix stay. -/
theorem StayWithout.exists_loop (hstay : StayWithout q r conn prefixNamespace handler) :
    ∃ fuel visited r', leaveNamespaces q conn prefixNamespace handler fuel r =
      some (visited, r') := by
  have hloop : ∃ visited r', sweep (fun r : Relay => r.state.pubSubscribes)
      (fun r key => some (leaveNamespace q conn prefixNamespace handler r key))
      (r.state.pubSubscribes.keys.length + 1) [] r = some (visited, r') := by
    refine exists_sweep (I := LeftAt q r conn prefixNamespace handler) _ leftAt_nil ?_
    intro visited r' key hat hnext
    obtain ⟨h, hget, hnot, hat'⟩ := hat.concat hnext
    refine ⟨?_, _, rfl, ?_, hat'⟩
    · rw [ExtTreeMap.mem_keys, ExtTreeMap.mem_iff_contains, ExtTreeMap.contains_iff_getElem?]
      exact ⟨h, hget⟩
    · by_cases hleaves : Leaves q r conn prefixNamespace key h
      · refine ExtTreeMap.contains_iff_getElem?.mpr (hat'.stays key h hget ?_)
        rintro ⟨-, hgone⟩
        rw [leftOf_of_taken ⟨by simp, hleaves⟩] at hgone
        have hcond := hstay key h hget hleaves.2
        rw [if_pos hleaves.1] at hcond
        exact hgone hcond
      · have hcontains := (nextKey_eq_some hnext).1
        obtain ⟨h', hget'⟩ := ExtTreeMap.contains_iff_getElem?.mp hcontains
        obtain ⟨old, hold, -, hsame⟩ := hat.stored key h' hget'
        rw [hget] at hold
        cases hold
        rw [leftOf_of_not_taken fun htaken => hleaves htaken.2] at hsame
        rwa [leaveNamespace_of_not_leaves hget'
          ((hat.leaves_iff hsame.fullTrackName).not.mpr hleaves)]
  exact ⟨_, hloop⟩

theorem StayWithout.leavesOnce (hstay : StayWithout q r conn prefixNamespace handler) :
    LeavesOnce q r conn prefixNamespace handler := by
  obtain ⟨fuel, visited, r', hloop⟩ := hstay.exists_loop
  refine ⟨fuel, visited, r', hloop, fun key h hget hmatch => ?_⟩
  have hat := (sweep_inv keeps_leftAt leftAt_nil hloop).1
  have hmem : key ∈ visited :=
    mem_visited keeps_leftAt leftAt_nil (fun _ _ hat => hstay.contains hget hmatch hat) hloop
  refine ⟨List.count_eq_one_of_mem (nodup_visited hloop) hmem, fun h' hget' => ?_⟩
  obtain ⟨old, hold, -, hsame⟩ := hat.stored key h' hget'
  rw [hget] at hold
  cases hold
  rw [hsame.holdsNamespace]
  by_cases hself : r.config.allowSelf = true ∨ key.2 ≠ conn
  · rw [leftOf_of_taken ⟨hmem, hself, hmatch⟩]
    exact not_holdsNamespace_remove h
  · rw [leftOf_of_not_taken fun htaken => hself htaken.2.1]
    have hcond := hstay key h hget hmatch
    rw [if_neg hself] at hcond
    exact hcond.1

/-- The handlers that the loop has taken out of the namespace stay. -/
theorem stays_of_visited {fuel : ℕ}
    (hloop : leaveNamespaces q conn prefixNamespace handler fuel r = some (visited, r'))
    (hmem : key ∈ visited) (hget : r.state.pubSubscribes[key]? = some h)
    (hleaves : Leaves q r conn prefixNamespace key h) :
    KeepsPublisher r key (h.removeSubscribeNamespace q handler) := by
  have hinv := sweep_inv (I := fun visited r' => LeftAt q r conn prefixNamespace handler visited r' ∧
    (key ∈ visited → KeepsPublisher r key (h.removeSubscribeNamespace q handler))) ?_
    ⟨leftAt_nil, fun hmem => absurd hmem List.not_mem_nil⟩ hloop
  · exact hinv.1.2 hmem
  · rintro visited r' k r'' ⟨hat, hold⟩ hnext hbody hcontains
    have hat' := keeps_leftAt visited r' k r'' hat hnext hbody hcontains
    refine ⟨hat', fun hmem => ?_⟩
    rw [List.mem_append, List.mem_singleton] at hmem
    obtain hmem | rfl := hmem
    · exact hold hmem
    · obtain ⟨h', hget'⟩ := ExtTreeMap.contains_iff_getElem?.mp hcontains
      obtain ⟨first, hfirst, hnot, -⟩ := hat'.stored key h' hget'
      rw [hget] at hfirst
      cases hfirst
      have htaken : Taken q r conn prefixNamespace (visited ++ [key]) key h :=
        ⟨by simp, hleaves⟩
      rw [← leftOf_of_taken htaken]
      by_contra hgone
      exact hnot ⟨⟨key, h, hget, htaken, rfl⟩, hgone⟩

/-- The loop does not come to a handler after it has dropped it. -/
theorem stays_of_both_visited {fuel : ℕ}
    (hloop : leaveNamespaces q conn prefixNamespace handler fuel r = some (visited, r'))
    (hmem : key ∈ visited) (hget : r.state.pubSubscribes[key]? = some h)
    (hnot : ¬Leaves q r conn prefixNamespace key h) {key' : UInt64 × ConnectionHandle}
    (hmem' : key' ∈ visited) (hget' : r.state.pubSubscribes[key']? = some h')
    (hleaves : Leaves q r conn prefixNamespace key' h') (hhash : key'.1 = key.1)
    (hlt : compare key' key = .lt) : KeepsPublisher r key h := by
  by_contra hgone
  have hinv := sweep_inv (I := fun visited r' => LeftAt q r conn prefixNamespace handler visited r' ∧
    ¬(key ∈ visited ∧ key' ∈ visited)) ?_
    ⟨leftAt_nil, fun hboth => absurd hboth.1 List.not_mem_nil⟩ hloop
  · exact hinv.1.2 ⟨hmem, hmem'⟩
  · rintro visited r' k r'' ⟨hat, hold⟩ hnext hbody hcontains
    refine ⟨keeps_leftAt visited r' k r'' hat hnext hbody hcontains, ?_⟩
    rintro ⟨hkey, hkey'⟩
    obtain ⟨-, hafter, -⟩ := nextKey_eq_some hnext
    obtain ⟨first, hfirst, hstored, -⟩ := hat.concat hnext
    rw [List.mem_append, List.mem_singleton] at hkey hkey'
    obtain hkey | rfl := hkey
    · obtain hkey' | rfl := hkey'
      · exact hold ⟨hkey, hkey'⟩
      · exact OrientedCmp.not_lt_of_lt (hafter key hkey) hlt
    · obtain hkey' | rfl := hkey'
      · rw [hget] at hfirst
        cases hfirst
        refine hstored ⟨⟨key', h', hget', ⟨hkey', hleaves⟩, hhash⟩, ?_⟩
        rwa [leftOf_of_not_taken fun htaken => hnot htaken.2]
      · rw [hget] at hget'
        cases hget'
        exact hnot hleaves

theorem LeavesOnce.stayWithout (honce : LeavesOnce q r conn prefixNamespace handler) :
    StayWithout q r conn prefixNamespace handler := by
  obtain ⟨fuel, visited, r', hloop, honce⟩ := honce
  have hvisited : ∀ (key : UInt64 × ConnectionHandle) h, r.state.pubSubscribes[key]? = some h →
      q.hasSamePrefix prefixNamespace h.fullTrackName.nameSpace = true → key ∈ visited := by
    intro key h hget hmatch
    refine List.one_le_count_iff.mp ?_
    rw [(honce key h hget hmatch).1]
  intro key h hget hmatch
  have hmem := hvisited key h hget hmatch
  split
  · rename_i hself
    exact stays_of_visited hloop hmem hget ⟨hself, hmatch⟩
  · rename_i hself
    have hnot : ¬Leaves q r conn prefixNamespace key h := fun hleaves => hself hleaves.1
    refine ⟨?_, or_iff_not_imp_left.mpr fun hgone key' h' hget' hhash hlt => ?_⟩
    · have hat := (sweep_inv keeps_leftAt leftAt_nil hloop).1
      have hleft : leftOf q r conn prefixNamespace handler visited key h = h :=
        leftOf_of_not_taken fun htaken => hnot htaken.2
      by_cases hdropped : LoopDrops q r conn prefixNamespace handler visited key h
      · have hgone := hdropped.2
        rw [hleft] at hgone
        refine not_holdsNamespace_of_none h (Bool.eq_false_iff.mpr fun hsubs => ?_)
        exact hgone (.inr (.inr hsubs))
      · obtain ⟨h', hget'⟩ := hat.stays key h hget hdropped
        obtain ⟨old, hold, -, hsame⟩ := hat.stored key h' hget'
        rw [hget] at hold
        cases hold
        rw [hleft] at hsame
        rw [← hsame.holdsNamespace]
        exact (honce key h hget hmatch).2 h' hget'
    · by_contra hmatch'
      rw [Bool.not_eq_false] at hmatch'
      push Not at hself
      have hne : key'.2 ≠ conn := by
        rintro rfl
        rw [hself.2] at hlt
        exact absurd hlt (UInt64.lt_irrefl _)
      refine hgone (stays_of_both_visited hloop hmem hget hnot
        (hvisited key' h' hget' hmatch') hget' ⟨.inr hne, hmatch'⟩ hhash ?_)
      show (compare key'.1 key.1).then (compare key'.2 key.2) = .lt
      rw [hhash, ReflOrd.compare_self, compare_eq_lt.mpr hlt]
      rfl

end Loop

/-- The loop never drops the handler that it stands on, and comes to every handler of the prefix
once, when those handlers stay without the namespace handler. -/
theorem unsubscribesSafely_iff (q : Quicr) (r : Relay) (conn : ConnectionHandle)
    (prefixNamespace : TrackNamespace) : UnsubscribesSafely q r conn prefixNamespace ↔
      ∀ handler, r.state.subscribesNamespaces.get₂? prefixNamespace conn = some handler →
        StayWithout q r conn prefixNamespace handler :=
  forall₂_congr fun _ _ => ⟨LeavesOnce.stayWithout, StayWithout.leavesOnce⟩

/-- A publisher of a namespace, a subscriber of a track in it, and one of the namespace; then the
subscriber of the track leaves. -/
def lastOfNamespace : Relay :=
  (((({ nodeId := 7 } : Relay).publishNamespaceReceived .polynomial 1 [[1]] 10).subscribeReceived
    .polynomial 2 20 ⟨[[1]], [2]⟩ {}).subscribeNamespaceReceived .polynomial 3
      [[1]]).unsubscribeReceived .polynomial 2 20

/-- The handler was made for the subscriber of the track.  It is dropped while the loop stands on
it. -/
theorem not_unsubscribesSafely : ¬UnsubscribesSafely .polynomial lastOfNamespace 3 [[1]] := by
  intro h
  obtain ⟨fuel, visited, r', hloop, -⟩ := h ⟨[[1]], 3⟩ (by decide +kernel)
  have hnone : leaveNamespaces .polynomial 3 [[1]] ⟨[[1]], 3⟩ fuel lastOfNamespace = none := by
    have hnext : nextKey lastOfNamespace.state.pubSubscribes [] =
        some ((Quicr.polynomial.trackHash ⟨[[1]], [2]⟩).trackFullnameHash, 1) := by
      decide +kernel
    have hgone : (leaveNamespace .polynomial 3 [[1]] ⟨[[1]], 3⟩ lastOfNamespace
        ((Quicr.polynomial.trackHash ⟨[[1]], [2]⟩).trackFullnameHash,
          1)).state.pubSubscribes.contains
            ((Quicr.polynomial.trackHash ⟨[[1]], [2]⟩).trackFullnameHash, 1) = false := by
      decide +kernel
    cases fuel with
    | zero => rfl
    | succ fuel =>
      rw [leaveNamespaces, sweep, hnext]
      dsimp only
      rw [Option.bind_some, hgone, if_neg (by decide)]
  rw [hnone] at hloop
  cases hloop

end Laps.Relay
