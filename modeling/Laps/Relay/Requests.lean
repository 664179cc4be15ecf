import Laps.Relay.Changes

/-! The subscriptions of one connection in the three tables, as its requests find them.  A
connection whose requests find its subscriptions one by one leaves nothing in the tables, and no
other does. -/

namespace Laps

open Std Client Peering

namespace Client.State

/-- Nothing of the connection is in the tables. -/
structure NoneOf (st : State) (conn : ConnectionHandle) : Prop where
  subscribes : ∀ hash : UInt64, st.subscribes[(hash, conn)]? = none
  aliases : ∀ req : RequestId, st.subscribeAliasReqId[(conn, req)]? = none
  active : ∀ key (req : RequestId), st.subscribeActive.get₂? key (conn, req) = none

/-- Each subscription of the connection is found by one request, and its request finds one; the
active ones are of these. -/
structure Indexed (q : Quicr) (st : State) (conn : ConnectionHandle) : Prop where
  found : ∀ (req : RequestId) hash, st.subscribeAliasReqId[(conn, req)]? = some hash →
    st.Subscribed hash conn
  once : ∀ (req req' : RequestId) hash, st.subscribeAliasReqId[(conn, req)]? = some hash →
    st.subscribeAliasReqId[(conn, req')]? = some hash → req' = req
  requested : ∀ hash, st.Subscribed hash conn →
    ∃ req : RequestId, st.subscribeAliasReqId[(conn, req)]? = some hash
  active : ∀ key (req : RequestId) a, st.subscribeActive.get₂? key (conn, req) = some a →
    ∃ hash info, st.subscribeAliasReqId[(conn, req)]? = some hash ∧
      st.subscribes[(hash, conn)]? = some info ∧
      key = (info.trackFullName.nameSpace, (q.trackHash info.trackFullName).trackNameHash)

variable {q : Quicr} {st st' : State} {conn c : ConnectionHandle} {req : RequestId}

theorem subscribed_iff {hash : UInt64} {conn : ConnectionHandle} :
    st.Subscribed hash conn ↔ ∃ info, st.subscribes[(hash, conn)]? = some info ∧ True := by
  simp only [and_true]
  exact ExtTreeMap.contains_iff_getElem?

/-- A connection that has nothing in the tables. -/
theorem NoneOf.indexed (h : st.NoneOf conn) : Indexed q st conn := by
  constructor
  · intro req hash halias
    rw [h.aliases] at halias
    cases halias
  · intro req req' hash halias
    rw [h.aliases] at halias
    cases halias
  · intro hash hsub
    obtain ⟨info, hinfo⟩ := ExtTreeMap.contains_iff_getElem?.mp hsub
    rw [h.subscribes] at hinfo
    cases hinfo
  · intro key req a ha
    rw [h.active] at ha
    cases ha

/-- A connection without requests. -/
theorem Indexed.noneOf (h : Indexed q st conn)
    (haliases : ∀ req : RequestId, st.subscribeAliasReqId[(conn, req)]? = none) :
    st.NoneOf conn := by
  constructor
  · intro hash
    rw [Option.eq_none_iff_forall_ne_some]
    intro info hinfo
    obtain ⟨req, halias⟩ := h.requested hash (ExtTreeMap.contains_iff_getElem?.mpr ⟨info, hinfo⟩)
    rw [haliases] at halias
    cases halias
  · exact haliases
  · intro key req
    rw [Option.eq_none_iff_forall_ne_some]
    intro a ha
    obtain ⟨hash, info, halias, -⟩ := h.active key req a ha
    rw [haliases] at halias
    cases halias

section Unsubscribe

variable {trackAlias : UInt64} {sub : SubscribePublishHandlerInfo}

theorem exists_unsubscribe {key : UInt64 × ConnectionHandle}
    {R : SubscribePublishHandlerInfo → Prop} :
    (∃ info, (st.unsubscribe q conn req trackAlias sub).subscribes[key]? = some info ∧ R info) ↔
      key ≠ (trackAlias, conn) ∧ ∃ info, st.subscribes[key]? = some info ∧ R info := by
  show (∃ info, (st.subscribes.erase (trackAlias, conn))[key]? = some info ∧ R info) ↔ _
  rw [ExtTreeMap.getElem?_erase_ite]
  split
  · rename_i heq
    simp [heq]
  · rename_i hne
    simp [hne]

theorem aliases_unsubscribe (key : ConnectionHandle × RequestId) :
    (st.unsubscribe q c req trackAlias sub).subscribeAliasReqId[key]? =
      if key = (c, req) then none else st.subscribeAliasReqId[key]? :=
  ExtTreeMap.getElem?_erase_ite ..

theorem subscribed_unsubscribe {hash : UInt64} :
    (st.unsubscribe q c req trackAlias sub).Subscribed hash conn ↔
      (hash, conn) ≠ (trackAlias, c) ∧ st.Subscribed hash conn := by
  rw [subscribed_iff, exists_unsubscribe, ← subscribed_iff]

/-- One element goes, and the row with it when it was the last. -/
theorem get₂?_unsubscribe (key : TrackNamespace × UInt64) (x : ConnectionHandle × RequestId) :
    (st.unsubscribe q c req trackAlias sub).subscribeActive.get₂? key x =
      if key = (sub.trackFullName.nameSpace, (q.trackHash sub.trackFullName).trackNameHash) ∧
        x = (c, req) then none
      else st.subscribeActive.get₂? key x := by
  set row := (sub.trackFullName.nameSpace, (q.trackHash sub.trackFullName).trackNameHash) with hrow
  cases hget : st.subscribeActive[row]? with
  | some elements =>
    have herase : (st.unsubscribe q c req trackAlias sub).subscribeActive =
        st.subscribeActive.erase₂ row (c, req) := by
      unfold unsubscribe ExtTreeMap.erase₂
      dsimp only
      rw [hget, ExtTreeMap.getD_eq_getD_getElem?, hget]
      rfl
    rw [herase, ExtTreeMap.get₂?_erase₂]
  | none =>
    have hsame : (st.unsubscribe q c req trackAlias sub).subscribeActive =
        st.subscribeActive.erase row := by
      unfold unsubscribe
      dsimp only
      rw [ExtTreeMap.getD_eq_getD_getElem?, hget]
      rfl
    have hnone : ∀ y, st.subscribeActive.get₂? row y = none := by
      intro y
      rw [ExtTreeMap.get₂?, hget]
      rfl
    rw [hsame, ExtTreeMap.get₂?, ExtTreeMap.getElem?_erase_ite]
    by_cases hkey : key = row
    · rw [if_pos hkey, hkey, hnone]
      simp
    · rw [if_neg hkey, if_neg fun h => hkey h.1]
      rfl

/-- The subscriptions of another connection play no part. -/
theorem Indexed.congr (haliases : ∀ req : RequestId, st'.subscribeAliasReqId[(conn, req)]? =
      st.subscribeAliasReqId[(conn, req)]?)
    (hsubscribes : ∀ hash : UInt64, st'.subscribes[(hash, conn)]? = st.subscribes[(hash, conn)]?)
    (hactive : ∀ key (req : RequestId), st'.subscribeActive.get₂? key (conn, req) =
      st.subscribeActive.get₂? key (conn, req)) (h : Indexed q st conn) : Indexed q st' conn := by
  have hsub : ∀ hash, st'.Subscribed hash conn ↔ st.Subscribed hash conn := by
    intro hash
    rw [subscribed_iff, subscribed_iff, hsubscribes]
  constructor
  · intro req hash halias
    rw [haliases] at halias
    exact (hsub hash).mpr (h.found req hash halias)
  · intro req req' hash halias halias'
    rw [haliases] at halias halias'
    exact h.once req req' hash halias halias'
  · intro hash hsubscribed
    obtain ⟨req, halias⟩ := h.requested hash ((hsub hash).mp hsubscribed)
    exact ⟨req, (haliases req).trans halias⟩
  · intro key req a ha
    rw [hactive] at ha
    obtain ⟨hash, info, halias, hinfo, hkey⟩ := h.active key req a ha
    exact ⟨hash, info, (haliases req).trans halias, (hsubscribes hash).trans hinfo, hkey⟩

theorem Indexed.unsubscribe (halias : st.subscribeAliasReqId[(conn, req)]? = some trackAlias)
    (hsub : st.subscribes[(trackAlias, conn)]? = some sub) (h : Indexed q st conn) :
    Indexed q (st.unsubscribe q conn req trackAlias sub) conn := by
  -- What another request finds is not what goes.
  have hother : ∀ (req' : RequestId) hash,
      (st.unsubscribe q conn req trackAlias sub).subscribeAliasReqId[(conn, req')]? = some hash →
      st.subscribeAliasReqId[(conn, req')]? = some hash ∧ (hash, conn) ≠ (trackAlias, conn) := by
    intro req' hash hget
    rw [aliases_unsubscribe] at hget
    split at hget
    · cases hget
    · rename_i hne
      refine ⟨hget, fun heq => hne ?_⟩
      obtain ⟨rfl, -⟩ := Prod.mk.inj heq
      rw [h.once req req' hash halias hget]
  constructor
  · intro req' hash hget
    obtain ⟨hold, hne⟩ := hother req' hash hget
    exact subscribed_unsubscribe.mpr ⟨hne, h.found req' hash hold⟩
  · intro req' req'' hash hget hget'
    exact h.once req' req'' hash (hother req' hash hget).1 (hother req'' hash hget').1
  · intro hash hsubscribed
    obtain ⟨hne, hold⟩ := subscribed_unsubscribe.mp hsubscribed
    obtain ⟨req', hreq'⟩ := h.requested hash hold
    refine ⟨req', ?_⟩
    rw [aliases_unsubscribe, if_neg, hreq']
    intro heq
    rw [heq, halias] at hreq'
    cases hreq'
    exact hne rfl
  · intro key req' a ha
    rw [get₂?_unsubscribe] at ha
    split at ha
    · cases ha
    · rename_i hne
      obtain ⟨hash, info, hget, hinfo, hkey⟩ := h.active key req' a ha
      have hreq' : (conn, req') ≠ (conn, req) := by
        intro heq
        rw [heq, halias] at hget
        cases hget
        rw [hsub] at hinfo
        cases hinfo
        exact hne ⟨hkey, heq⟩
      have hget' : (st.unsubscribe q conn req trackAlias sub).subscribeAliasReqId[(conn, req')]? =
          some hash := by
        rw [aliases_unsubscribe, if_neg hreq', hget]
      obtain ⟨_, hinfo', rfl⟩ := (exists_unsubscribe (R := (· = info))).mpr
        ⟨(hother req' hash hget').2, info, hinfo, rfl⟩
      exact ⟨hash, _, hget', hinfo', hkey⟩

/-- The end of one subscription mends nothing. -/
theorem Indexed.of_unsubscribe (halias : st.subscribeAliasReqId[(conn, req)]? = some trackAlias)
    (hsub : st.subscribes[(trackAlias, conn)]? = some sub)
    (h : Indexed q (st.unsubscribe q conn req trackAlias sub) conn) : Indexed q st conn := by
  have hkept : ∀ (req' : RequestId) hash, req' ≠ req →
      st.subscribeAliasReqId[(conn, req')]? = some hash →
      (st.unsubscribe q conn req trackAlias sub).subscribeAliasReqId[(conn, req')]? = some hash := by
    intro req' hash hne hget
    rw [aliases_unsubscribe, if_neg fun heq => hne (Prod.mk.inj heq).2, hget]
  have hother : ∀ req' : RequestId, req' ≠ req →
      st.subscribeAliasReqId[(conn, req')]? ≠ some trackAlias := by
    intro req' hne hget
    obtain ⟨hne', -⟩ := subscribed_unsubscribe.mp (h.found req' _ (hkept req' _ hne hget))
    exact hne' rfl
  have hfound : ∀ (req' : RequestId) hash,
      (st.unsubscribe q conn req trackAlias sub).subscribeAliasReqId[(conn, req')]? = some hash →
      st.subscribeAliasReqId[(conn, req')]? = some hash := by
    intro req' hash hget
    rw [aliases_unsubscribe] at hget
    split at hget
    · cases hget
    · exact hget
  constructor
  · intro req' hash hget
    by_cases hreq : req' = req
    · rw [hreq, halias] at hget
      cases hget
      exact ExtTreeMap.contains_iff_getElem?.mpr ⟨sub, hsub⟩
    · exact (subscribed_unsubscribe.mp (h.found req' hash (hkept req' hash hreq hget))).2
  · intro req' req'' hash hget hget'
    by_cases hreq' : req' = req
    · rw [hreq', halias] at hget
      cases hget
      by_contra hne
      exact hother req'' (fun heq => hne (heq.trans hreq'.symm)) hget'
    · by_cases hreq'' : req'' = req
      · rw [hreq'', halias] at hget'
        cases hget'
        exact absurd hget (hother req' hreq')
      · exact h.once req' req'' hash (hkept req' hash hreq' hget) (hkept req'' hash hreq'' hget')
  · intro hash hsubscribed
    by_cases heq : hash = trackAlias
    · exact ⟨req, heq ▸ halias⟩
    · obtain ⟨req', hget⟩ := h.requested hash
        (subscribed_unsubscribe.mpr ⟨fun hpair => heq (Prod.mk.inj hpair).1, hsubscribed⟩)
      exact ⟨req', hfound req' hash hget⟩
  · intro key req' a ha
    by_cases hgone : key = (sub.trackFullName.nameSpace,
        (q.trackHash sub.trackFullName).trackNameHash) ∧ (conn, req') = (conn, req)
    · obtain ⟨hkey, heq⟩ := hgone
      exact ⟨trackAlias, sub, heq ▸ halias, hsub, hkey⟩
    · obtain ⟨hash, info, hget, hinfo, hkey⟩ := h.active key req' a
        (by rw [get₂?_unsubscribe, if_neg hgone, ha])
      obtain ⟨-, _, hinfo', rfl⟩ := (exists_unsubscribe (R := (· = info))).mp ⟨info, hinfo, rfl⟩
      exact ⟨hash, _, hfound req' hash hget, hinfo', hkey⟩

end Unsubscribe

section Change

variable {records : Records} {creates peers : Prop}

/-- A request is in use only from when it is recorded. -/
theorem aliases_change (used : ConnectionHandle × RequestId → Prop)
    (hused : ∀ st conn req full, records st conn req full → used (conn, req))
    (hchange : Change q records creates peers st st')
    (h : ∀ key hash, st.subscribeAliasReqId[key]? = some hash → used key) :
    ∀ key hash, st'.subscribeAliasReqId[key]? = some hash → used key := by
  intro key hash hget
  cases hchange with
  | record hreq _ =>
    rename_i conn req full attrs _
    have hget : (st.subscribeAliasReqId.insert (conn, req) _)[key]? = some hash := hget
    rw [ExtTreeMap.getElem?_insert_ite] at hget
    split at hget
    · rename_i heq
      rw [heq]
      exact hused _ _ _ _ hreq
    · exact h key hash hget
  | unsubscribe halias hsub =>
    rename_i conn req trackAlias sub
    have hget : (st.subscribeAliasReqId.erase (conn, req))[key]? = some hash := hget
    rw [ExtTreeMap.getElem?_erase_ite] at hget
    split at hget
    · cases hget
    · exact h key hash hget
  | handlers _ haliases _ _ =>
    rw [haliases] at hget
    exact h key hash hget

/-- Where nothing is recorded, the tables only lose entries. -/
theorem tables_changes (hchanges : Changes q (fun _ _ _ _ => False) creates peers st st') :
    (∀ (key : ConnectionHandle × RequestId) hash, st'.subscribeAliasReqId[key]? = some hash →
      st.subscribeAliasReqId[key]? = some hash) ∧
    ∀ (key : UInt64 × ConnectionHandle) info, st'.subscribes[key]? = some info →
      st.subscribes[key]? = some info := by
  refine hchanges.keeps (P := fun st' =>
    (∀ (key : ConnectionHandle × RequestId) hash, st'.subscribeAliasReqId[key]? = some hash →
      st.subscribeAliasReqId[key]? = some hash) ∧
    ∀ (key : UInt64 × ConnectionHandle) info, st'.subscribes[key]? = some info →
      st.subscribes[key]? = some info) (fun st₁ st₂ hchange ⟨haliases, hsubscribes⟩ => ?_)
    ⟨fun _ _ h => h, fun _ _ h => h⟩
  cases hchange with
  | record hrecords _ => exact hrecords.elim
  | unsubscribe _ _ =>
    refine ⟨fun key hash hget => haliases key hash ?_, fun key info hget => hsubscribes key info ?_⟩
    · rw [aliases_unsubscribe] at hget
      split at hget
      · cases hget
      · exact hget
    · obtain ⟨-, _, hold, rfl⟩ := (exists_unsubscribe (R := (· = info))).mp ⟨info, hget, rfl⟩
      exact hold
  | handlers hsubscribes' haliases' _ _ =>
    rw [hsubscribes', haliases']
    exact ⟨haliases, hsubscribes⟩

/-- Where nothing is recorded, a connection is indexed after a change if and only if before. -/
theorem indexed_change_iff {creates peers : Prop}
    (hchange : Change q (fun _ _ _ _ => False) creates peers st st') (conn : ConnectionHandle) :
    Indexed q st' conn ↔ Indexed q st conn := by
  cases hchange with
  | record hrecords _ => exact hrecords.elim
  | unsubscribe halias hsub =>
    rename_i c req trackAlias sub
    by_cases hconn : c = conn
    · subst hconn
      exact ⟨.of_unsubscribe halias hsub, .unsubscribe halias hsub⟩
    · have haliases : ∀ req' : RequestId,
          (st.unsubscribe q c req trackAlias sub).subscribeAliasReqId[(conn, req')]? =
            st.subscribeAliasReqId[(conn, req')]? := by
        intro req'
        rw [aliases_unsubscribe, if_neg fun heq => hconn (Prod.mk.inj heq).1.symm]
      have hsubscribes : ∀ hash : UInt64,
          (st.unsubscribe q c req trackAlias sub).subscribes[(hash, conn)]? =
            st.subscribes[(hash, conn)]? := by
        intro hash
        show (st.subscribes.erase (trackAlias, c))[(hash, conn)]? = _
        rw [ExtTreeMap.getElem?_erase_ite, if_neg fun heq => hconn (Prod.mk.inj heq).2.symm]
      have hactive : ∀ key (req' : RequestId),
          (st.unsubscribe q c req trackAlias sub).subscribeActive.get₂? key (conn, req') =
            st.subscribeActive.get₂? key (conn, req') := by
        intro key req'
        rw [get₂?_unsubscribe, if_neg fun heq => hconn (Prod.mk.inj heq.2).1.symm]
      exact ⟨.congr (fun req' => (haliases req').symm) (fun hash => (hsubscribes hash).symm)
        (fun key req' => (hactive key req').symm), .congr haliases hsubscribes hactive⟩
  | handlers hsubscribes haliases hactive _ =>
    constructor
    · exact .congr (fun _ => by rw [haliases]) (fun _ => by rw [hsubscribes])
        (fun _ _ => by rw [hactive])
    · exact .congr (fun _ => by rw [haliases]) (fun _ => by rw [hsubscribes])
        (fun _ _ => by rw [hactive])

theorem indexed_changes_iff {creates peers : Prop}
    (hchanges : Changes q (fun _ _ _ _ => False) creates peers st st') (conn : ConnectionHandle) :
    Indexed q st' conn ↔ Indexed q st conn :=
  hchanges.keeps (P := fun st' => Indexed q st' conn ↔ Indexed q st conn)
    (fun _ _ hchange h => (indexed_change_iff hchange conn).trans h) Iff.rfl

end Change

end Client.State

namespace Relay

open State

/-! ### The end of a connection -/

section Disconnect

variable {q : Quicr} {r : Relay} {conn : ConnectionHandle}

/-- A subscription that its request finds ends with it. -/
theorem aliases_unsubscribeReceived {conn : ConnectionHandle} {req : RequestId}
    (hfound : ∀ hash, r.state.subscribeAliasReqId[(conn, req)]? = some hash →
      r.state.Subscribed hash conn) :
    (r.unsubscribeReceived q conn req).state.subscribeAliasReqId[(conn, req)]? = none := by
  unfold unsubscribeReceived
  split
  · assumption
  · rename_i hash halias
    obtain ⟨info, hinfo⟩ := ExtTreeMap.contains_iff_getElem?.mp (hfound hash halias)
    split
    · rename_i hnone
      rw [hinfo] at hnone
      cases hnone
    · rw [(removeOrPause_tables _ _).2]
      show (r.state.subscribeAliasReqId.erase (conn, req))[(conn, req)]? = none
      rw [ExtTreeMap.getElem?_erase_ite, if_pos rfl]

/-- A request that is not in use stays so until it is recorded. -/
theorem aliases_none {st st' : State} {key : ConnectionHandle × RequestId}
    (hchanges : Changes q (fun _ _ _ _ => False) True True st st')
    (h : st.subscribeAliasReqId[key]? = none) : st'.subscribeAliasReqId[key]? = none := by
  rw [Option.eq_none_iff_forall_ne_some] at h ⊢
  intro hash hget
  have hkeys := hchanges.keeps
    (fun _ _ hchange => aliases_change (· ≠ key) (fun _ _ _ _ hfalse => hfalse.elim) hchange)
    (fun key' hash hget heq => h hash (heq ▸ hget))
  exact hkeys key hash hget rfl

/-- The subscriptions of a list of requests end. -/
theorem aliases_foldl_unsubscribe (l : List ((ConnectionHandle × RequestId) × UInt64))
    (h : Indexed q r.state conn) {req : RequestId}
    (hreq : (∃ hash, ((conn, req), hash) ∈ l) ∨ r.state.subscribeAliasReqId[(conn, req)]? = none) :
    (l.foldl (fun r entry => r.unsubscribeReceived q entry.1.1 entry.1.2)
      r).state.subscribeAliasReqId[(conn, req)]? = none := by
  induction l generalizing r with
  | nil => exact hreq.resolve_left fun ⟨_, h⟩ => absurd h List.not_mem_nil
  | cons entry l ih =>
    have hstep : Changes q (fun _ _ _ _ => False) True True r.state
        (r.unsubscribeReceived q entry.1.1 entry.1.2).state :=
      changes_unsubscribeReceived r entry.1.1 entry.1.2
    refine ih ((indexed_changes_iff hstep conn).mpr h) ?_
    obtain ⟨hash, hmem⟩ | hnone := hreq
    · obtain rfl | hmem := List.mem_cons.mp hmem
      · exact .inr (aliases_unsubscribeReceived (h.found req))
      · exact .inl ⟨hash, hmem⟩
    · exact .inr (aliases_none hstep hnone)

/-- The end of a connection ends all subscriptions that its requests find. -/
theorem aliases_disconnect (h : Indexed q r.state conn) (req : RequestId) :
    (disconnect q r conn).state.subscribeAliasReqId[(conn, req)]? = none := by
  unfold disconnect
  dsimp only
  set r₁ := (r.state.subscribesNamespaces.toList.filter fun row => row.2.contains conn).foldl
    (fun r row => r.unsubscribeNamespaceReceived q conn row.1) r
  have hleft : Changes q (fun _ _ _ _ => False) True True r.state r₁.state :=
    changes_foldl_all (fun r _ => changes_unsubscribeNamespaceReceived r conn _) r
  refine aliases_foldl_unsubscribe _ ((indexed_changes_iff hleft conn).mpr h) ?_
  cases hget : r₁.state.subscribeAliasReqId[(conn, req)]? with
  | none => exact .inr rfl
  | some hash => exact .inl ⟨hash, ExtTreeMap.mem_withFst.mpr ⟨hget, rfl⟩⟩

/-- The end of a connection leaves nothing of it in the tables if and only if it is indexed. -/
theorem noneOf_disconnect_iff :
    (disconnect q r conn).state.NoneOf conn ↔ Indexed q r.state conn := by
  have hchanges : Changes q (fun _ _ _ _ => False) True True r.state (disconnect q r conn).state :=
    changes_disconnect r conn
  constructor
  · intro h
    exact (indexed_changes_iff hchanges conn).mp h.indexed
  · intro h
    exact ((indexed_changes_iff hchanges conn).mpr h).noneOf (aliases_disconnect h)

end Disconnect

end Relay

end Laps
