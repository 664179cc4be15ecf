import Laps.Lib.Runs
import Laps.Quicr
import Laps.Ranking.Handler

/-! Which handlers a ranking notifies.  Its table has weak references to the handlers, which stay
until an update finds them dead, and a handler is not put where there is a reference already. -/

namespace Laps.Ranking

open Std Runs

inductive HandlerEvent where
  | addNamespaceHandler (id : HandlerId)
  | removeNamespaceHandler (id : HandlerId)
  | updateValue (c : UpdateValue)
  /-- The last reference to the object goes. -/
  | destroy (id : HandlerId)

namespace RankingSystem

def handle (base : BasePublish) (sys : RankingSystem) : HandlerEvent → RankingSystem
  | .addNamespaceHandler id => sys.addNamespaceHandler id
  | .removeNamespaceHandler id => sys.removeNamespaceHandler id
  | .updateValue c => sys.step base (.updateValue c)
  | .destroy id => { sys with live := sys.live.erase id }

def handleAll (base : BasePublish) (sys : RankingSystem) (events : List HandlerEvent) :
    RankingSystem := events.foldl (handle base) sys

/-- The handlers whose `UpdateTrackRanking` an update calls, as often as it does. -/
def called (sys : RankingSystem) : List HandlerId :=
  sys.registered.filter fun id => sys.live.contains id

/-- The handlers have the same prefix and connection. -/
def SamePlace (getPrefix : HandlerId → TrackNamespace) (sys : RankingSystem)
    (id id' : HandlerId) : Prop :=
  getPrefix id' = getPrefix id ∧
    sys.live[id']?.map PublishNamespaceHandler.connectionId =
      sys.live[id]?.map PublishNamespaceHandler.connectionId

/-- An update calls every handler once that has been added when it was alive, is alive still, and
was not removed nor followed by one with its prefix and connection.  The run begins with all
handlers that it is about. -/
def AlwaysNotifies (base : BasePublish) (getPrefix : HandlerId → TrackNamespace)
    (sys : RankingSystem) (events : List HandlerEvent) : Prop :=
  ∀ before id between c after,
    events = before ++ .addNamespaceHandler id :: between ++ .updateValue c :: after →
    let updated := sys.handleAll base (before ++ .addNamespaceHandler id :: between)
    (sys.handleAll base before).live.contains id = true → updated.live.contains id = true →
    .removeNamespaceHandler id ∉ between →
    (∀ id', id' ≠ id → .addNamespaceHandler id' ∈ between → ¬sys.SamePlace getPrefix id id') →
      updated.called.count id = 1

/-- A handler is added where no other is registered, alive or dead, and removed where no other that
is alive is. -/
def InPlace (sys : RankingSystem) : HandlerEvent → Prop
  | .addNamespaceHandler id => ∀ h, sys.live[id]? = some h →
    ∀ id', sys.handlerAt h.nsHash h.connectionId = some id' → id' = id
  | .removeNamespaceHandler id => ∀ h, sys.live[id]? = some h →
    ∀ id', sys.handlerAt h.nsHash h.connectionId = some id' →
      id' = id ∨ sys.live.contains id' = false
  | .updateValue _ => True
  | .destroy _ => True

/-! ### One event -/

section Event

variable {base : BasePublish} {sys : RankingSystem} {id : HandlerId}
variable {h h' : PublishNamespaceHandler} {e : HandlerEvent}

/-- Live handlers are registered under their namespaces and connections only. -/
def Filed (sys : RankingSystem) : Prop :=
  ∀ nsHash conn id, sys.handlerAt nsHash conn = some id → ∀ h, sys.live[id]? = some h →
    h.nsHash = nsHash ∧ h.connectionId = conn

/-- The handler is registered while it is alive. -/
def Found (id : HandlerId) (sys : RankingSystem) : Prop :=
  ∀ h, sys.live[id]? = some h → sys.handlerAt h.nsHash h.connectionId = some id

/-- An update gives the list to every live handler as often as it calls it. -/
theorem live_notify (base : BasePublish) (sys : RankingSystem) (id : HandlerId) :
    (sys.notify base).live[id]? = sys.live[id]?.map
      (fun h => h.updateTrackRanking base sys.ranking.flatTrackList)^[sys.called.count id] := by
  rw [notify, ExtTreeMap.getElem?_foldl_modify]
  cases hlive : sys.live[id]? with
  | none => rfl
  | some h =>
    have hcontains : sys.live.contains id = true := ExtTreeMap.contains_iff_getElem?.mpr ⟨h, hlive⟩
    rw [called, List.count_filter hcontains]

/-- The place of a handler does not change, and no handler comes back. -/
theorem live_handle (hlive : (sys.handle base e).live[id]? = some h') :
    ∃ h, sys.live[id]? = some h ∧ h'.nsHash = h.nsHash ∧ h'.connectionId = h.connectionId := by
  cases e with
  | addNamespaceHandler added =>
    refine ⟨h', ?_, rfl, rfl⟩
    unfold handle addNamespaceHandler at hlive
    dsimp only at hlive
    split at hlive <;> exact hlive
  | removeNamespaceHandler removed =>
    refine ⟨h', ?_, rfl, rfl⟩
    unfold handle removeNamespaceHandler at hlive
    dsimp only at hlive
    split at hlive <;> exact hlive
  | updateValue c =>
    have hsetup : ∀ (rows : List FlatTrack) (n : ℕ) (h : PublishNamespaceHandler),
        h.SameSetup ((fun h => h.updateTrackRanking base rows)^[n] h) := by
      intro rows n
      induction n with
      | zero => exact fun h => .refl h
      | succ n ih =>
        intro h
        exact (h.sameSetup_updateTrackRanking base rows).trans (ih _)
    rw [handle, step, live_notify, Option.map_eq_some_iff] at hlive
    obtain ⟨h, hold, rfl⟩ := hlive
    exact ⟨h, hold, (hsetup ..).nsHash, (hsetup ..).connectionId⟩
  | destroy destroyed =>
    rw [handle, ExtTreeMap.getElem?_erase_ite] at hlive
    split at hlive
    · cases hlive
    · exact ⟨h', hlive, rfl, rfl⟩

theorem Filed.handle (hfiled : sys.Filed) (base : BasePublish) (e : HandlerEvent) :
    (sys.handle base e).Filed := by
  have hkeeps : ∀ nsHash conn id, sys.handlerAt nsHash conn = some id →
      ∀ h', (sys.handle base e).live[id]? = some h' → h'.nsHash = nsHash ∧ h'.connectionId = conn := by
    intro nsHash conn id hat h' hlive
    obtain ⟨h, hold, hns, hconn⟩ := live_handle hlive
    rw [hns, hconn]
    exact hfiled nsHash conn id hat h hold
  intro nsHash conn id hat h' hlive
  cases e with
  | addNamespaceHandler added =>
    cases hadded : sys.live[added]? with
    | none =>
      refine hkeeps nsHash conn id ?_ h' hlive
      unfold RankingSystem.handle addNamespaceHandler at hat
      dsimp only at hat
      rwa [hadded] at hat
    | some h =>
      rw [RankingSystem.handle, handlerAt_addNamespaceHandler sys hadded] at hat
      split at hat
      · rename_i hplace
        obtain ⟨rfl, rfl⟩ := hplace
        cases hthere : sys.handlerAt h.nsHash h.connectionId with
        | none =>
          rw [hthere, Option.getD_none] at hat
          cases hat
          obtain ⟨h₁, hold, hns, hconn⟩ := live_handle hlive
          rw [hadded] at hold
          cases hold
          exact ⟨hns, hconn⟩
        | some there =>
          rw [hthere] at hat
          cases hat
          exact hkeeps _ _ _ hthere h' hlive
      · exact hkeeps nsHash conn id hat h' hlive
  | removeNamespaceHandler removed =>
    refine hkeeps nsHash conn id ?_ h' hlive
    cases hremoved : sys.live[removed]? with
    | none =>
      unfold RankingSystem.handle removeNamespaceHandler at hat
      dsimp only at hat
      rwa [hremoved] at hat
    | some h =>
      rw [RankingSystem.handle, handlerAt_removeNamespaceHandler sys hremoved] at hat
      split at hat
      · cases hat
      · exact hat
  | updateValue c =>
    refine hkeeps nsHash conn id ?_ h' hlive
    rw [RankingSystem.handle, step, handlerAt_notify, Option.filter_eq_some_iff] at hat
    exact hat.1
  | destroy destroyed => exact hkeeps nsHash conn id hat h' hlive

/-- A handler that is added in place is found from then on. -/
theorem found_addNamespaceHandler (hplace : sys.InPlace (.addNamespaceHandler id)) :
    Found id (sys.addNamespaceHandler id) := by
  intro h hlive
  have hold : sys.live[id]? = some h := by
    unfold addNamespaceHandler at hlive
    split at hlive <;> exact hlive
  rw [handlerAt_addNamespaceHandler sys hold, if_pos ⟨rfl, rfl⟩]
  cases hthere : sys.handlerAt h.nsHash h.connectionId with
  | none => rfl
  | some there => exact congrArg some (hplace h hold there hthere)

/-- It is found after every other event in place. -/
theorem Found.handle (hfound : Found id sys) (hplace : sys.InPlace e)
    (hremove : e ≠ .removeNamespaceHandler id) : Found id (sys.handle base e) := by
  intro h' hlive
  obtain ⟨h, hold, hns, hconn⟩ := live_handle hlive
  have hat := hfound h hold
  rw [hns, hconn]
  cases e with
  | addNamespaceHandler added =>
    cases hadded : sys.live[added]? with
    | none =>
      unfold RankingSystem.handle addNamespaceHandler
      dsimp only
      rwa [hadded]
    | some other =>
      rw [RankingSystem.handle, handlerAt_addNamespaceHandler sys hadded]
      split
      · rename_i hsame
        rw [← hsame.1, ← hsame.2, hat]
        rfl
      · exact hat
  | removeNamespaceHandler removed =>
    cases hremoved : sys.live[removed]? with
    | none =>
      unfold RankingSystem.handle removeNamespaceHandler
      dsimp only
      rwa [hremoved]
    | some other =>
      rw [RankingSystem.handle, handlerAt_removeNamespaceHandler sys hremoved, if_neg]
      · exact hat
      · intro hsame
        rw [hsame.1, hsame.2] at hat
        obtain rfl | hdead := hplace other hremoved id hat
        · exact hremove rfl
        · rw [ExtTreeMap.contains_iff_getElem?.mpr ⟨h, hold⟩] at hdead
          cases hdead
  | updateValue c =>
    rw [RankingSystem.handle, step, handlerAt_notify]
    show Option.filter _ (sys.handlerAt h.nsHash h.connectionId) = some id
    rw [hat]
    exact Option.filter_eq_some_iff.mpr ⟨rfl, ExtTreeMap.contains_iff_getElem?.mpr ⟨h, hold⟩⟩
  | destroy destroyed => exact hat

/-- A handler that is found is called once. -/
theorem Found.count_called (hfound : Found id sys) (hfiled : sys.Filed)
    (hlive : sys.live.contains id = true) : sys.called.count id = 1 := by
  obtain ⟨h, hget⟩ := ExtTreeMap.contains_iff_getElem?.mp hlive
  rw [called, List.count_filter hlive]
  refine ExtTreeMap.count_entries₂ (hfound h hget) fun nsHash conn hat => ?_
  obtain ⟨hns, hconn⟩ := hfiled nsHash conn id hat h hget
  exact ⟨hns.symm, hconn.symm⟩

end Event

end RankingSystem

open RankingSystem

/-- In a run whose handlers are added and removed in place, every handler that is registered is
notified by every update. -/
theorem alwaysNotifies_of_inPlace (base : BasePublish) (getPrefix : HandlerId → TrackNamespace)
    (ranking : TrackRanking) (live : ExtTreeMap HandlerId PublishNamespaceHandler)
    (events : List HandlerEvent)
    (hplace : Each (RankingSystem.handle base) InPlace { ranking, live } events) :
    AlwaysNotifies base getPrefix { ranking, live } events := by
  have hempty : Filed { ranking, live } := by
    intro nsHash conn id hat
    simp [handlerAt] at hat
  generalize ({ ranking, live } : RankingSystem) = sys at hplace hempty
  rintro before id between c after rfl updated hadded hlive hremove -
  obtain ⟨hrun, -⟩ := each_append.mp hplace
  obtain ⟨hbefore, hadd, hbetween⟩ := each_append.mp hrun
  have hfiled : updated.Filed :=
    hrun.inv (fun _ e hfiled _ => hfiled.handle base e) hempty
  have hfound : Found id updated := by
    have hupdated : updated =
        ((sys.handleAll base before).addNamespaceHandler id).handleAll base between := by
      simp [updated, handleAll, RankingSystem.handle]
    rw [hupdated]
    refine hbetween.and_mem.inv (I := Found id) ?_ (found_addNamespaceHandler hadd)
    rintro s e hfound ⟨hplace, hmem⟩
    refine hfound.handle hplace ?_
    rintro rfl
    exact hremove hmem
  exact hfound.count_called hfiled hlive

/-- Two handlers of one connection for one namespace, both with the same prefix. -/
def twoHandlers : ExtTreeMap HandlerId PublishNamespaceHandler :=
  ((∅ : ExtTreeMap HandlerId PublishNamespaceHandler).insert 1 ⟨40, 5, 1, none, ∅, ∅⟩).insert 2
    ⟨40, 5, 1, none, ∅, ∅⟩

/-- A value of a track of another connection. -/
def someUpdate : UpdateValue := ⟨1, 2, 3, 0, 9⟩

theorem inPlace_of_none {sys : RankingSystem} {id : HandlerId}
    (hnone : (sys.live[id]?.all fun h => (sys.handlerAt h.nsHash h.connectionId).isNone) = true) :
    sys.InPlace (.addNamespaceHandler id) := by
  intro h hlive id' hat
  rw [hlive, Option.all_some, hat] at hnone
  cases hnone

/-- The second handler is added after an update that found the first one dead. -/
theorem alwaysNotifies_twoHandlers :
    AlwaysNotifies (fun _ status => status) (fun _ => [[1]]) { live := twoHandlers }
      [.addNamespaceHandler 1, .destroy 1, .updateValue someUpdate, .addNamespaceHandler 2,
        .updateValue someUpdate] := by
  refine alwaysNotifies_of_inPlace _ _ {} twoHandlers _ ⟨?_, trivial, trivial, ?_, trivial, trivial⟩
  · exact inPlace_of_none (by decide +kernel)
  · exact inPlace_of_none (by decide +kernel)

/-- The second handler is not registered while there is a reference to the first one, which is dead
or alive, and to remove the second one removes the first. -/
theorem not_alwaysNotifies :
    ¬AlwaysNotifies (fun _ status => status) (fun _ => [[1]]) { live := twoHandlers }
        [.addNamespaceHandler 1, .destroy 1, .addNamespaceHandler 2, .updateValue someUpdate] ∧
      ¬AlwaysNotifies (fun _ status => status) (fun _ => [[1]]) { live := twoHandlers }
        [.addNamespaceHandler 1, .addNamespaceHandler 2, .updateValue someUpdate] ∧
      ¬AlwaysNotifies (fun _ status => status) (fun _ => [[1]]) { live := twoHandlers }
        [.addNamespaceHandler 1, .removeNamespaceHandler 2, .updateValue someUpdate] := by
  refine ⟨fun h => ?_, fun h => ?_, fun h => ?_⟩
  · have hcalled := h [.addNamespaceHandler 1, .destroy 1] 2 [] someUpdate [] rfl
      (by decide +kernel) (by decide +kernel) (by simp) (by simp)
    revert hcalled
    decide +kernel
  · have hcalled := h [.addNamespaceHandler 1] 2 [] someUpdate [] rfl
      (by decide +kernel) (by decide +kernel) (by simp) (by simp)
    revert hcalled
    decide +kernel
  · have hcalled := h [] 1 [.removeNamespaceHandler 2] someUpdate [] rfl
      (by decide +kernel) (by decide +kernel) (by simp) (by simp)
    revert hcalled
    decide +kernel

end Laps.Ranking
