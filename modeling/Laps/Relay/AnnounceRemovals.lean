import Laps.Peering.Announces
import Laps.Relay.Frame

/-! What `RemoveAnnounce` reports.  The result comes from the prefix table, which the announcements
of a name by all nodes share: it tells whether the name is still listed there, not whether the entry
was there. -/

namespace Laps

open Std Client Peering

namespace Peering

/-- The node's own announcement of the name is stored. -/
def Held (ib : InfoBase) (a : AnnounceInfo) : Prop :=
  (ib.announces.get₂? a.fullnameHash a.sourceNodeId).isSome = true

/-- A removal reports and removes the entry of the announcement, and otherwise nothing. -/
structure RemovesExactly (q : Quicr) (ib : InfoBase) (a : AnnounceInfo) : Prop where
  reported : (ib.removeAnnounce q a).2 = true ↔ Held ib a
  removed : Held ib a → ∀ f n, (ib.removeAnnounce q a).1.announces.get₂? f n =
    if f = a.fullnameHash ∧ n = a.sourceNodeId then none else ib.announces.get₂? f n
  unchanged : ¬Held ib a → (ib.removeAnnounce q a).1.announces = ib.announces ∧
    (ib.removeAnnounce q a).1.prefixLookupAnnounces = ib.prefixLookupAnnounces

/-- A node's announcement of the name was new, and no withdrawal of the name has come since, by
whichever node. -/
def StillListed (q : Quicr) (ops : List AnnounceOp) (hash : UInt64) : Prop :=
  ∃ before a after, ops = before ++ .add a :: after ∧ a.fullnameHash = hash ∧
    ¬Held (InfoBase.announceRun q before) a ∧ ∀ b, .remove b ∈ after → b.fullnameHash ≠ hash

section Listed

variable {q : Quicr} {names : Set FullTrackName} {ops : List AnnounceOp} {hash : UInt64}

theorem not_stillListed_nil : ¬StillListed q [] hash := by
  rintro ⟨before, a, after, heq, -⟩
  simp at heq

theorem stillListed_add (a : AnnounceInfo) : StillListed q (ops ++ [.add a]) hash ↔
    StillListed q ops hash ∨ (a.fullnameHash = hash ∧ ¬Held (InfoBase.announceRun q ops) a) := by
  constructor
  · rintro ⟨before, b, after, heq, hhash, hnew, hsince⟩
    obtain rfl | ⟨after, last, rfl⟩ := List.eq_nil_or_concat' after
    · obtain ⟨rfl, hlast⟩ := List.append_inj' heq rfl
      cases hlast
      exact .inr ⟨hhash, hnew⟩
    · rw [← List.cons_append, ← List.append_assoc] at heq
      obtain ⟨rfl, -⟩ := List.append_inj' heq rfl
      exact .inl ⟨before, b, after, rfl, hhash, hnew,
        fun c hc => hsince c (List.mem_append_left _ hc)⟩
  · rintro (⟨before, b, after, rfl, hhash, hnew, hsince⟩ | ⟨hhash, hnew⟩)
    · refine ⟨before, b, after ++ [.add a], by simp, hhash, hnew, fun c hc => ?_⟩
      refine hsince c ?_
      simpa using hc
    · exact ⟨ops, a, [], rfl, hhash, hnew, nofun⟩

theorem stillListed_remove (a : AnnounceInfo) : StillListed q (ops ++ [.remove a]) hash ↔
    StillListed q ops hash ∧ a.fullnameHash ≠ hash := by
  constructor
  · rintro ⟨before, b, after, heq, hhash, hnew, hsince⟩
    obtain rfl | ⟨after, last, rfl⟩ := List.eq_nil_or_concat' after
    · obtain ⟨-, hlast⟩ := List.append_inj' heq rfl
      cases hlast
    · rw [← List.cons_append, ← List.append_assoc] at heq
      obtain ⟨rfl, hlast⟩ := List.append_inj' heq rfl
      obtain rfl := List.singleton_injective hlast
      exact ⟨⟨before, b, after, rfl, hhash, hnew,
        fun c hc => hsince c (List.mem_append_left _ hc)⟩, hsince a (by simp)⟩
  · rintro ⟨⟨before, b, after, rfl, hhash, hnew, hsince⟩, hne⟩
    refine ⟨before, b, after ++ [.remove a], by simp, hhash, hnew, fun c hc => ?_⟩
    rcases List.mem_append.mp hc with hc | hc
    · exact hsince c hc
    · cases List.mem_singleton.mp hc
      exact hne

/-! ### The tables over a run -/

/-- What holds of the tables however the removals come: the prefix table has a name under all the
prefixes of its namespace, or under none, as it is listed or not. -/
structure Lists (q : Quicr) (names : Set FullTrackName) (ops : List AnnounceOp) (ib : InfoBase) :
    Prop where
  rows : ib.announces.NoEmptyRow
  sets : InfoBase.NoEmptySet ib.prefixLookupAnnounces
  listed : ∀ a : AnnounceInfo, a.WellNamed q names →
    ∀ x ∈ InfoBase.prefixHashNamespaceTuples q a.nameSpace,
      (InfoBase.Indexed ib.prefixLookupAnnounces x a.fullnameHash ↔
        StillListed q ops a.fullnameHash)
  stored : ∀ hash, StillListed q ops hash → ib.announces.contains hash = true

/-- Announcements with one hash have one namespace. -/
theorem AnnounceInfo.WellNamed.same_nameSpace (hfree : CollisionFree q names) {a b : AnnounceInfo}
    (ha : a.WellNamed q names) (hb : b.WellNamed q names) (h : b.fullnameHash = a.fullnameHash) :
    b.nameSpace = a.nameSpace := by
  refine (FullTrackName.mk.inj (hfree.fullname hb.mem ha.mem ?_)).1
  show (q.trackHash b.fullTrackName).trackFullnameHash =
    (q.trackHash a.fullTrackName).trackFullnameHash
  rw [← hb.hash, ← ha.hash, h]

variable {ib : InfoBase}

theorem Lists.add (hfree : CollisionFree q names)
    (h : Lists q names ops (InfoBase.announceRun q ops)) {b : AnnounceInfo}
    (hb : b.WellNamed q names) :
    Lists q names (ops ++ [.add b]) ((InfoBase.announceRun q ops).addAnnounce q b).1 := by
  refine ⟨h.rows.insertIfNew₂ _ _ _, h.sets.addAnnounce q _ b, ?_, ?_⟩
  · intro a ha x hx
    rw [InfoBase.indexed_addAnnounce, h.listed a ha x hx, stillListed_add]
    refine or_congr_right ⟨?_, ?_⟩
    · rintro ⟨hnone, -, heq⟩
      exact ⟨heq.symm, by simp [Held, hnone]⟩
    · rintro ⟨heq, hnew⟩
      refine ⟨by simpa [Held] using hnew, ?_, heq.symm⟩
      rwa [ha.same_nameSpace hfree hb heq]
  · intro hash hlisted
    rw [stillListed_add] at hlisted
    rcases hlisted with hlisted | ⟨rfl, -⟩
    · exact ExtTreeMap.contains_insert_iff.mpr (.inr (h.stored hash hlisted))
    · exact ExtTreeMap.contains_insert_self

theorem Lists.remove (hfree : CollisionFree q names)
    (h : Lists q names ops (InfoBase.announceRun q ops)) {b : AnnounceInfo}
    (hb : b.WellNamed q names) :
    Lists q names (ops ++ [.remove b]) ((InfoBase.announceRun q ops).removeAnnounce q b).1 := by
  obtain ⟨hsets, hindexed⟩ := InfoBase.prefixLookup_removeAnnounce q _ b h.sets
  refine ⟨InfoBase.noEmptyRow_removeAnnounce h.rows b, hsets, ?_, ?_⟩
  · intro a ha x hx
    rw [hindexed, h.listed a ha x hx, stillListed_remove]
    refine and_congr_right fun hlisted => not_congr ⟨fun hgone => hgone.2.2.symm, fun heq => ?_⟩
    refine ⟨?_, ?_, heq.symm⟩
    · rw [heq]
      exact h.stored _ hlisted
    · rwa [ha.same_nameSpace hfree hb heq]
  · intro hash hlisted
    obtain ⟨hlisted, hne⟩ := (stillListed_remove b).mp hlisted
    obtain ⟨n, a, hget⟩ := h.rows.contains_iff.mp (h.stored hash hlisted)
    refine (InfoBase.noEmptyRow_removeAnnounce h.rows b).contains_iff.mpr ⟨n, a, ?_⟩
    rw [InfoBase.get₂?_removeAnnounce, if_neg fun heq => hne heq.1.symm, hget]

theorem lists_announceRun (hfree : CollisionFree q names) (ops : List AnnounceOp)
    (hops : ∀ op ∈ ops, op.info.WellNamed q names) :
    Lists q names ops (InfoBase.announceRun q ops) := by
  induction ops using List.reverseRecOn with
  | nil =>
    refine ⟨ExtTreeMap.noEmptyRow_empty, fun x hx => ?_, fun a _ x _ => ?_, fun hash h => ?_⟩
    · simp [InfoBase.announceRun] at hx
    · refine iff_of_false ?_ not_stillListed_nil
      rintro ⟨hashSet, hget, -⟩
      simp [InfoBase.announceRun] at hget
    · exact absurd h not_stillListed_nil
  | append_singleton ops op ih =>
    have hlists := ih fun op hop => hops op (List.mem_append_left _ hop)
    have hop := hops op (by simp)
    rw [InfoBase.announceRun_concat]
    cases op with
    | add b => exact hlists.add hfree hop
    | remove b => exact hlists.remove hfree hop

/-! ### One removal -/

theorem Lists.removed_iff (h : Lists q names ops ib) {a : AnnounceInfo} (ha : a.WellNamed q names) :
    (ib.removeAnnounce q a).2 = true ↔ StillListed q ops a.fullnameHash := by
  rw [InfoBase.removed_removeAnnounce]
  constructor
  · rintro ⟨-, x, hx, hindexed⟩
    exact (h.listed a ha x hx).mp hindexed
  · intro hlisted
    have hmem := InfoBase.mem_prefixHashNamespaceTuples (q := q).mpr
      ⟨a.nameSpace, ha.nonempty, List.prefix_rfl, rfl⟩
    exact ⟨h.stored _ hlisted, _, hmem, (h.listed a ha _ hmem).mpr hlisted⟩

/-- Without an entry, and without the name in the prefix table, nothing changes. -/
theorem Lists.unchanged (h : Lists q names ops ib) {a : AnnounceInfo} (ha : a.WellNamed q names)
    (hheld : ¬Held ib a) (hlisted : ¬StillListed q ops a.fullnameHash) :
    (ib.removeAnnounce q a).1.announces = ib.announces ∧
      (ib.removeAnnounce q a).1.prefixLookupAnnounces = ib.prefixLookupAnnounces := by
  obtain ⟨hsets, hindexed⟩ := InfoBase.prefixLookup_removeAnnounce q ib a h.sets
  constructor
  · refine (InfoBase.noEmptyRow_removeAnnounce h.rows a).ext_get₂? h.rows fun f n => ?_
    rw [InfoBase.get₂?_removeAnnounce]
    split
    · rename_i heq
      rw [heq.1, heq.2]
      exact (Option.not_isSome_iff_eq_none.mp hheld).symm
    · rfl
  · refine InfoBase.eq_of_indexed hsets h.sets fun x f => ?_
    rw [hindexed]
    refine and_iff_left_of_imp fun hold => ?_
    rintro ⟨-, hx, rfl⟩
    exact hlisted ((h.listed a ha x hx).mp hold)

theorem Lists.exact_iff (h : Lists q names ops ib) {a : AnnounceInfo}
    (ha : a.WellNamed q names) :
    RemovesExactly q ib a ↔ (Held ib a ↔ StillListed q ops a.fullnameHash) := by
  constructor
  · intro hexact
    rw [← h.removed_iff ha, hexact.reported]
  · intro hsame
    refine ⟨(h.removed_iff ha).trans hsame.symm, fun _ => InfoBase.get₂?_removeAnnounce q ib a, ?_⟩
    exact fun hheld => h.unchanged ha hheld fun hlisted => hheld (hsame.mpr hlisted)

end Listed

/-- Nothing but the two tables matters to a removal. -/
theorem RemovesExactly.congr {q : Quicr} {ib ib' : InfoBase} {a : AnnounceInfo}
    (h : RemovesExactly q ib a) (hannounces : ib'.announces = ib.announces)
    (hprefixes : ib'.prefixLookupAnnounces = ib.prefixLookupAnnounces) :
    RemovesExactly q ib' a := by
  have hsame : (ib'.removeAnnounce q a).2 = (ib.removeAnnounce q a).2 ∧
      (ib'.removeAnnounce q a).1.announces = (ib.removeAnnounce q a).1.announces ∧
      (ib'.removeAnnounce q a).1.prefixLookupAnnounces =
        (ib.removeAnnounce q a).1.prefixLookupAnnounces := by
    unfold InfoBase.removeAnnounce
    rw [hannounces, hprefixes]
    split
    · exact ⟨rfl, rfl, rfl⟩
    · exact ⟨rfl, hannounces, hprefixes⟩
  have hheld : Held ib' a ↔ Held ib a := by
    unfold Held
    rw [hannounces]
  refine ⟨?_, fun hstored f n => ?_, fun hnone => ?_⟩
  · rw [hsame.1, hheld]
    exact h.reported
  · rw [hsame.2.1, hannounces]
    exact h.removed (hheld.mp hstored) f n
  · rw [hsame.2.1, hsame.2.2, hannounces, hprefixes]
    exact h.unchanged fun hstored => hnone (hheld.mpr hstored)

end Peering

namespace Relay

/-! ### Withdrawals of other relays -/

/-- A withdrawal that comes on a session is passed on to the other ones when the relay holds the
announcement, and otherwise does nothing. -/
structure PassesOn (q : Quicr) (r : Relay) (id : PeerSessionId) (a : AnnounceInfo) : Prop where
  held : Held r.infoBase a → ∀ id', id' ≠ id → r.Connected id' →
    r.announcesTo id' ++ [(a, true)] <+: (r.announceInfoReceived q id a true).announcesTo id'
  unknown : ¬Held r.infoBase a → r.announceInfoReceived q id a true = r

section PassesOn

variable {q : Quicr} {r : Relay} {id id' : PeerSessionId} {a : AnnounceInfo}

theorem announcesTo_setInfoBase (ib : InfoBase) :
    (r.setInfoBase ib).announcesTo id = r.announcesTo id := rfl

/-- The announcements that a withdrawal by this relay is told with come after those before it. -/
theorem prefix_clientAnnounce (hconnected : r.Connected id) (full : FullTrackName)
    (publishNamespace : Bool) :
    r.announcesTo id <+: (r.clientAnnounce q full true publishNamespace).announcesTo id := by
  rw [(keepsAnnounces_clientAnnounce q r full true publishNamespace).announcesTo]
  have hold : (r.updateAnnounces q (r.announceInfo q full publishNamespace) true).1.Connected id :=
    hconnected
  rw [announcesTo_sendAnnounceInfos hold]
  exact List.prefix_append _ _

/-- What the client manager makes of a peer's withdrawal tells no session before. -/
theorem prefix_publishNamespaceDoneReceived (hconnected : r.Connected id) (req : RequestId) :
    r.announcesTo id <+: (r.publishNamespaceDoneReceived q 0 req).announcesTo id := by
  unfold publishNamespaceDoneReceived
  split
  · exact List.prefix_rfl
  · exact prefix_clientAnnounce hconnected _ true

theorem prefix_announceInfoReceived (hsession : (r.getPeerSession id).isSome = true)
    (hremoved : (r.infoBase.removeAnnounce q a).2 = true) (hne : id' ≠ id)
    (hconnected : r.Connected id') :
    r.announcesTo id' ++ [(a, true)] <+: (r.announceInfoReceived q id a true).announcesTo id' := by
  obtain ⟨session, hget⟩ := Option.isSome_iff_exists.mp hsession
  have hold : (r.setInfoBase (r.infoBase.removeAnnounce q a).1).Connected id' := hconnected
  set r₁ := (r.setInfoBase (r.infoBase.removeAnnounce q a).1).sendAnnounceInfos (· == id) a true
    with hr₁
  have hsent : r₁.announcesTo id' = r.announcesTo id' ++ [(a, true)] := by
    rw [hr₁, announcesTo_sendAnnounceInfos hold, if_neg (by simpa), announcesTo_setInfoBase]
  have hconnected' : r₁.Connected id' := hold.sendAnnounceInfos _ a true
  have hreceived : r.announceInfoReceived q id a true =
      if a.flags &&& 1 = 1 then
        r₁.publishNamespaceDoneReceived q 0 (q.trackHash a.fullTrackName).trackNamespaceHash
      else r₁.publishDoneReceived q 0 0 := by
    unfold announceInfoReceived updateAnnounces
    rw [hget]
    simp only [if_true, hremoved, Bool.not_true, Bool.false_eq_true, if_false]
    rfl
  rw [hreceived, ← hsent]
  split
  · exact prefix_publishNamespaceDoneReceived hconnected' _
  · have hkept := (keepsAnnounces_publishDoneReceived q r₁).announcesTo id'
    exact ⟨[], (List.append_nil _).trans hkept.symm⟩

theorem announceInfoReceived_of_unchanged (hsession : (r.getPeerSession id).isSome = true)
    (hremoved : (r.infoBase.removeAnnounce q a).2 = false)
    (hannounces : (r.infoBase.removeAnnounce q a).1.announces = r.infoBase.announces)
    (hprefixes : (r.infoBase.removeAnnounce q a).1.prefixLookupAnnounces =
      r.infoBase.prefixLookupAnnounces) :
    r.announceInfoReceived q id a true = r := by
  obtain ⟨session, hget⟩ := Option.isSome_iff_exists.mp hsession
  have hsame : (r.infoBase.removeAnnounce q a).1 = r.infoBase := by
    have hrest : (r.infoBase.removeAnnounce q a).1 =
        { r.infoBase with
          announces := (r.infoBase.removeAnnounce q a).1.announces
          prefixLookupAnnounces := (r.infoBase.removeAnnounce q a).1.prefixLookupAnnounces } := by
      unfold InfoBase.removeAnnounce
      split <;> rfl
    rw [hrest, hannounces, hprefixes]
  unfold announceInfoReceived updateAnnounces
  rw [hget]
  simp only [if_true, hremoved, hsame, Bool.not_false]
  rfl

/-- A removal that is exact passes the withdrawal on exactly when there was an entry. -/
theorem passesOn_of_removesExactly (h : RemovesExactly q r.infoBase a)
    (hsession : (r.getPeerSession id).isSome = true) : PassesOn q r id a := by
  refine ⟨fun hheld id' hne hconnected => ?_, fun hheld => ?_⟩
  · exact prefix_announceInfoReceived hsession (h.reported.mpr hheld) hne hconnected
  · obtain ⟨hannounces, hprefixes⟩ := h.unchanged hheld
    refine announceInfoReceived_of_unchanged hsession ?_ hannounces hprefixes
    exact Bool.eq_false_iff.mpr fun htrue => hheld (h.reported.mp htrue)

end PassesOn

/-- After a run of announcements and removals, a removal is exact, and is passed on as such, if and
only if the entry is stored just when the name is still listed. -/
theorem removesExactly_iff (q : Quicr) (names : Set FullTrackName) (hfree : CollisionFree q names)
    (ops : List AnnounceOp) (hops : ∀ op ∈ ops, op.info.WellNamed q names) (a : AnnounceInfo)
    (ha : a.WellNamed q names) :
    (RemovesExactly q (InfoBase.announceRun q ops) a ∧
      ∀ (r : Relay) (id : PeerSessionId), (r.getPeerSession id).isSome = true →
        r.infoBase.announces = (InfoBase.announceRun q ops).announces →
        r.infoBase.prefixLookupAnnounces =
          (InfoBase.announceRun q ops).prefixLookupAnnounces → PassesOn q r id a) ↔
      (Held (InfoBase.announceRun q ops) a ↔ StillListed q ops a.fullnameHash) := by
  rw [← (lists_announceRun hfree ops hops).exact_iff ha]
  refine and_iff_left_of_imp fun hexact r id hsession hannounces hprefixes => ?_
  exact passesOn_of_removesExactly (hexact.congr hannounces hprefixes) hsession

/-- Node 1 announces and removes, then node 2 announces, and removes. -/
theorem removesExactly_inTurn :
    RemovesExactly .polynomial (InfoBase.announceRun .polynomial
      [.add (announceBy 1), .remove (announceBy 1), .add (announceBy 2)]) (announceBy 2) := by
  refine ((removesExactly_iff .polynomial _ collisionFree_announceBy _ ?_ _
    (wellNamed_announceBy 2)).mpr ⟨fun _ => ?_, fun _ => by unfold Held; decide +kernel⟩).1
  · intro op hop
    simp only [List.mem_cons, List.not_mem_nil, or_false] at hop
    rcases hop with rfl | rfl | rfl <;> exact wellNamed_announceBy _
  · exact ⟨[.add (announceBy 1), .remove (announceBy 1)], announceBy 2, [], rfl, rfl,
      by unfold Held; decide +kernel, nofun⟩

/-- Node 1 announces the track and node 2 withdraws it, which has not announced it: the removal
reports that it has removed something. -/
theorem not_removesExactly :
    ¬∀ (q : Quicr) (names : Set FullTrackName), CollisionFree q names →
      ∀ ops : List AnnounceOp, (∀ op ∈ ops, op.info.WellNamed q names) →
        ∀ a : AnnounceInfo, a.WellNamed q names →
          RemovesExactly q (InfoBase.announceRun q ops) a := by
  intro h
  have hexact := h .polynomial _ collisionFree_announceBy [.add (announceBy 1)] (by
    intro op hop
    obtain rfl := List.mem_singleton.mp hop
    exact wellNamed_announceBy _) (announceBy 2) (wellNamed_announceBy 2)
  have hreported : ((InfoBase.announceRun .polynomial [.add (announceBy 1)]).removeAnnounce
      .polynomial (announceBy 2)).2 = true := by
    decide +kernel
  have hheld : ¬Held (InfoBase.announceRun .polynomial [.add (announceBy 1)]) (announceBy 2) := by
    unfold Held
    decide +kernel
  exact hheld (hexact.reported.mp hreported)

end Relay

end Laps
