import Laps.Peering.InfoBase
import Mathlib.Data.List.Induction
import Mathlib.Data.List.Nodup

/-! The subscription table under messages that arrive in any order.  `AddSubscribe` compares
sequence numbers for equality only and `RemoveSubscribe` not at all, so the entry of a track and
source is that of the message processed last, whatever its number. -/

namespace Laps.Peering

open Std

/-- A subscribe message as a relay processes it. -/
structure SubscribeMessage where
  info : SubscribeInfo
  withdraw : Bool
  deriving DecidableEq, Repr

/-- The entry that the message asks for. -/
def SubscribeMessage.entry (m : SubscribeMessage) : Option SubscribeInfo :=
  if m.withdraw then none else some m.info

def InfoBase.processSubscribe (ib : InfoBase) (m : SubscribeMessage) : InfoBase :=
  if m.withdraw then (ib.removeSubscribe m.info).1 else (ib.addSubscribe m.info).1

def InfoBase.processSubscribes (ib : InfoBase) (msgs : List SubscribeMessage) : InfoBase :=
  msgs.foldl InfoBase.processSubscribe ib

/-- Messages of one track and source with distinct sequence numbers that span less than half of the
16-bit range. -/
structure OneSubscription (trackFullnameHash : UInt64) (source : NodeIdValueType)
    (msgs : List SubscribeMessage) : Prop where
  track : ∀ m ∈ msgs, m.info.trackHash.trackFullnameHash = trackFullnameHash
  source : ∀ m ∈ msgs, m.info.sourceNodeId = source
  distinct : (msgs.map fun m => m.info.seq).Nodup
  span : ∃ base : UInt16, ∀ m ∈ msgs, (m.info.seq - base).toNat < 2 ^ 15

/-- The message has the most recent sequence number: it is ahead of every other by less than half
of the range. -/
def MostRecent (msgs : List SubscribeMessage) (m : SubscribeMessage) : Prop :=
  m ∈ msgs ∧ ∀ m' ∈ msgs, (m.info.seq - m'.info.seq).toNat < 2 ^ 15

theorem toNat_sub_of_offset_le {a b base : UInt16} (h : (b - base).toNat ≤ (a - base).toNat) :
    (a - b).toNat = (a - base).toNat - (b - base).toNat := by
  have hdiff : a - b = (a - base) - (b - base) := by
    rw [← UInt16.toBitVec_inj]
    simp only [UInt16.toBitVec_sub]
    grind
  rw [hdiff, UInt16.toNat_sub_of_le _ _ (UInt16.le_iff_toNat_le.mpr h)]

/-- Some message is the most recent one. -/
theorem OneSubscription.exists_mostRecent {h : UInt64} {n : NodeIdValueType}
    {msgs : List SubscribeMessage} (hone : OneSubscription h n msgs) (hne : msgs ≠ []) :
    ∃ m, MostRecent msgs m := by
  obtain ⟨base, hspan⟩ := hone.span
  have hmax : ∃ m ∈ msgs, ∀ m' ∈ msgs,
      (m'.info.seq - base).toNat ≤ (m.info.seq - base).toNat := by
    clear hspan hone
    induction msgs with
    | nil => exact absurd rfl hne
    | cons first rest ih =>
      by_cases hrest : rest = []
      · exact ⟨first, by simp, by simp [hrest]⟩
      obtain ⟨m, hm, hle⟩ := ih hrest
      by_cases hfirst : (first.info.seq - base).toNat ≤ (m.info.seq - base).toNat
      · refine ⟨m, List.mem_cons_of_mem _ hm, fun m' hm' => ?_⟩
        rcases List.mem_cons.mp hm' with rfl | hm'
        · exact hfirst
        · exact hle m' hm'
      · refine ⟨first, List.mem_cons_self, fun m' hm' => ?_⟩
        rcases List.mem_cons.mp hm' with rfl | hm'
        · exact Nat.le_refl _
        · have := hle m' hm'
          omega
  obtain ⟨m, hm, hle⟩ := hmax
  refine ⟨m, hm, fun m' hm' => ?_⟩
  have hm := hspan m hm
  rw [toNat_sub_of_offset_le (hle m' hm')]
  omega

theorem get₂?_processSubscribe (ib : InfoBase) (m : SubscribeMessage)
    (hfresh : ∀ old, ib.subscribes.get₂? m.info.trackHash.trackFullnameHash m.info.sourceNodeId =
      some old → old.seq ≠ m.info.seq) :
    (ib.processSubscribe m).subscribes.get₂? m.info.trackHash.trackFullnameHash
      m.info.sourceNodeId = m.entry := by
  cases hold : ib.subscribes.get₂? m.info.trackHash.trackFullnameHash m.info.sourceNodeId with
  | none =>
    cases hw : m.withdraw <;>
      simp [InfoBase.processSubscribe, SubscribeMessage.entry, InfoBase.addSubscribe,
        InfoBase.removeSubscribe, hw, hold, ExtTreeMap.get₂?_insert₂]
  | some old =>
    cases hw : m.withdraw <;>
      simp [InfoBase.processSubscribe, SubscribeMessage.entry, InfoBase.addSubscribe,
        InfoBase.removeSubscribe, hw, hold, ExtTreeMap.get₂?_insert₂, ExtTreeMap.get₂?_erase₂,
        hfresh old hold]

/-- The entry of another track stays as it is. -/
theorem get₂?_processSubscribe_of_ne (ib : InfoBase) (m : SubscribeMessage) {h : UInt64}
    (hne : h ≠ m.info.trackHash.trackFullnameHash) (n : NodeIdValueType) :
    (ib.processSubscribe m).subscribes.get₂? h n = ib.subscribes.get₂? h n := by
  unfold InfoBase.processSubscribe InfoBase.removeSubscribe InfoBase.addSubscribe
  split
  · split
    · rw [ExtTreeMap.get₂?_erase₂, if_neg fun hkey => hne hkey.1]
    · rfl
  · split
    · split
      · rfl
      · rw [ExtTreeMap.get₂?_insert₂, if_neg fun hkey => hne hkey.1]
    · rw [ExtTreeMap.get₂?_insert₂, if_neg fun hkey => hne hkey.1]

theorem get₂?_processSubscribes_of_ne (ib : InfoBase) (msgs : List SubscribeMessage) {h : UInt64}
    (hne : ∀ m ∈ msgs, h ≠ m.info.trackHash.trackFullnameHash) (n : NodeIdValueType) :
    (ib.processSubscribes msgs).subscribes.get₂? h n = ib.subscribes.get₂? h n := by
  induction msgs generalizing ib with
  | nil => rfl
  | cons m msgs ih =>
    have hrest := ih (ib.processSubscribe m) fun m' hm' => hne m' (List.mem_cons_of_mem _ hm')
    have hfirst := get₂?_processSubscribe_of_ne ib m (hne m List.mem_cons_self) n
    exact hrest.trans hfirst

/-- The entry is that of the message processed last. -/
theorem get₂?_processSubscribes {h : UInt64} {n : NodeIdValueType} {ib : InfoBase}
    (hnone : ib.subscribes.get₂? h n = none) {msgs : List SubscribeMessage}
    (htrack : ∀ m ∈ msgs, m.info.trackHash.trackFullnameHash = h)
    (hsource : ∀ m ∈ msgs, m.info.sourceNodeId = n)
    (hdistinct : (msgs.map fun m => m.info.seq).Nodup) :
    (ib.processSubscribes msgs).subscribes.get₂? h n = msgs.getLast?.bind SubscribeMessage.entry := by
  induction msgs using List.reverseRecOn with
  | nil => exact hnone
  | append_singleton msgs m ih =>
    rw [List.map_append, List.nodup_append] at hdistinct
    have ih := ih (fun m hm => htrack m (List.mem_append_left _ hm))
      (fun m hm => hsource m (List.mem_append_left _ hm)) hdistinct.1
    obtain rfl := htrack m (by simp)
    obtain rfl := hsource m (by simp)
    rw [InfoBase.processSubscribes, List.foldl_append, List.foldl_cons, List.foldl_nil,
      List.getLast?_append, List.getLast?_singleton, Option.some_or, Option.bind_some]
    refine get₂?_processSubscribe _ m fun old hold => ?_
    rw [InfoBase.processSubscribes] at ih
    rw [ih, Option.bind_eq_some_iff] at hold
    obtain ⟨last, hlast, hentry⟩ := hold
    have hmem : last ∈ msgs := List.mem_of_getLast? hlast
    rw [SubscribeMessage.entry] at hentry
    split at hentry
    · cases hentry
    · cases hentry
      exact hdistinct.2.2 _ (List.mem_map_of_mem hmem) _ (by simp)

/-- The final entry is that of the most recent message exactly when this message is processed last,
or it and the last one are withdraws. -/
theorem subscribe_entry_iff (ib : InfoBase) (h : UInt64) (n : NodeIdValueType)
    (hnone : ib.subscribes.get₂? h n = none) (msgs : List SubscribeMessage)
    (hone : OneSubscription h n msgs) (m : SubscribeMessage) (hrecent : MostRecent msgs m) :
    (ib.processSubscribes msgs).subscribes.get₂? h n = m.entry ↔
      msgs.getLast? = some m ∨
        m.withdraw = true ∧ ∃ last, msgs.getLast? = some last ∧ last.withdraw = true := by
  rw [get₂?_processSubscribes hnone hone.track hone.source hone.distinct]
  obtain ⟨last, hlast⟩ := Option.isSome_iff_exists.mp
    (List.getLast?_isSome.mpr (List.ne_nil_of_mem hrecent.1))
  have hmem : last ∈ msgs := List.mem_of_getLast? hlast
  have hinj : last.info = m.info → last = m := fun heq =>
    List.inj_on_of_nodup_map hone.distinct hmem hrecent.1 (by rw [heq])
  rw [hlast, Option.bind_some]
  cases hw : m.withdraw <;> cases hw' : last.withdraw <;>
    simp only [SubscribeMessage.entry, hw, hw', if_true, Bool.false_eq_true, if_false,
      Option.some.injEq, reduceCtorEq, false_and, true_and, or_false, false_iff, exists_eq_left',
      or_true]
  · exact ⟨hinj, fun heq => by rw [heq]⟩
  · rintro rfl
    rw [hw] at hw'
    cases hw'
  · rintro rfl
    rw [hw] at hw'
    cases hw'

/-- A message of node 7 for one track. -/
def subscribeMessage (seq : UInt16) (withdraw : Bool) : SubscribeMessage :=
  ⟨{ seq := seq, sourceNodeId := 7, trackHash := ⟨1, 2, 3⟩ }, withdraw⟩

theorem oneSubscription_wrap {a b : Bool} :
    OneSubscription 3 7 [subscribeMessage 0 a, subscribeMessage 65535 b] := by
  refine ⟨?_, ?_, by simp [subscribeMessage], 65535, ?_⟩
  · simp [subscribeMessage]
  · simp [subscribeMessage]
  · simp only [List.mem_cons, List.not_mem_nil, or_false]
    rintro m (rfl | rfl) <;> simp [subscribeMessage, UInt16.size]

theorem mostRecent_wrap {a b : Bool} :
    MostRecent [subscribeMessage 0 a, subscribeMessage 65535 b] (subscribeMessage 0 a) := by
  refine ⟨by simp, ?_⟩
  simp only [List.mem_cons, List.not_mem_nil, or_false]
  rintro m (rfl | rfl) <;> simp [subscribeMessage, UInt16.size]

/-- Two withdraws, the older one last. -/
theorem subscribe_entry_iff_withdraws :
    (({} : InfoBase).processSubscribes [subscribeMessage 0 true, subscribeMessage 65535 true]
      ).subscribes.get₂? 3 7 = (subscribeMessage 0 true).entry :=
  (subscribe_entry_iff {} 3 7 (by simp) _ oneSubscription_wrap _ mostRecent_wrap).mpr
    (.inr ⟨rfl, _, rfl, rfl⟩)

/-- A withdraw with number 0 and then, late, the advertise with number 65535: the subscription
stays. -/
theorem not_subscribe_entry :
    ¬ ∀ (ib : InfoBase) (h : UInt64) (n : NodeIdValueType) (msgs : List SubscribeMessage)
      (m : SubscribeMessage), ib.subscribes.get₂? h n = none → OneSubscription h n msgs →
        MostRecent msgs m → (ib.processSubscribes msgs).subscribes.get₂? h n = m.entry := by
  intro hall
  have := hall {} 3 7 [subscribeMessage 0 true, subscribeMessage 65535 false]
    (subscribeMessage 0 true) (by simp) oneSubscription_wrap mostRecent_wrap
  revert this
  decide +kernel

end Laps.Peering
