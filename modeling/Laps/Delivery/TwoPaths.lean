import Laps.Lib.Runs
import Laps.Delivery.Model

/-! A subgroup goes to a subscriber as whole objects until the first object of it is sent, and as
the bytes that come in from then on.  The test that chooses between the two takes ids of 32 bits. -/

namespace Laps.Delivery

open Std Client

namespace PublishTrackHandler

/-- The first object of the subgroup is sent. -/
def hasFirstObject (h : PublishTrackHandler) (groupId subgroupId : UInt64) : Bool :=
  (h.streamInfoByGroup.get₂? groupId subgroupId).any fun info => info.lastObjectId.isSome

/-- The id that is left of one of 64 bits. -/
def cut (id : UInt64) : UInt64 := id.toUInt32.toUInt64

/-- The subgroup with the cut ids is as far as the subgroup itself. -/
def SeesSubgroup (h : PublishTrackHandler) (groupId subgroupId : UInt64) : Prop :=
  h.hasFirstObject (cut groupId) (cut subgroupId) = h.hasFirstObject groupId subgroupId

theorem toNat_cut (id : UInt64) : (cut id).toNat = id.toNat % 2 ^ 32 := rfl

theorem cut_eq_self {id : UInt64} : cut id = id ↔ id.toNat < 2 ^ 32 := by
  rw [← UInt64.toNat_inj, toNat_cut]
  omega

variable {h : PublishTrackHandler} {groupId subgroupId : UInt64}

theorem SeesSubgroup.of_lt (hgroup : groupId.toNat < 2 ^ 32)
    (hsubgroup : subgroupId.toNat < 2 ^ 32) : h.SeesSubgroup groupId subgroupId := by
  rw [SeesSubgroup, cut_eq_self.mpr hgroup, cut_eq_self.mpr hsubgroup]

/-- The test is about the subgroup with the cut ids. -/
theorem sentFirst_eq (h : PublishTrackHandler) (groupId subgroupId : UInt64) :
    h.sentFirst groupId subgroupId = h.hasFirstObject (cut groupId) (cut subgroupId) := by
  unfold sentFirst sentFirstObject hasFirstObject ExtTreeMap.get₂? cut
  cases h.streamInfoByGroup[groupId.toUInt32.toUInt64]? with
  | none => rfl
  | some group =>
    dsimp only
    rw [Option.bind_some]
    cases group[subgroupId.toUInt32.toUInt64]? with
    | none => rfl
    | some info => rfl

end PublishTrackHandler

namespace SubscribeTrackHandler

/-- The handler that sends the data of the track to the recipient. -/
def publisherAt (s : SubscribeTrackHandler) (recipient : Recipient) : Option PublishTrackHandler :=
  s.trackAlias.bind fun trackAlias =>
    match recipient with
    | .connection conn => if conn = 0 then none else s.subscribers[conn]?
    | .subNamespace nsHash conn =>
      (s.subNamespaces.get₂? nsHash conn).bind fun ns => ns.handlers[trackAlias]?

/-- A subscriber of a track of datagrams is sent whole objects throughout. -/
def pipelines (s : SubscribeTrackHandler) : Recipient → Bool
  | .connection _ => !s.isDatagram
  | .subNamespace _ _ => true

end SubscribeTrackHandler

/-- Subscribers of a namespace have no start location. -/
def PublishTrackHandler.accepts (h : PublishTrackHandler) (headers : ObjectHeaders) :
    Recipient → Bool
  | .connection _ => h.starts headers
  | .subNamespace _ _ => true

/-- What comes to the handler of a track. -/
inductive Received where
  | objectReceived (headers : ObjectHeaders) (payload : List UInt8)
  | forwardReceivedData (isNewStream : Bool) (groupId subgroupId : UInt64) (data : List UInt8)
  /-- Something else has happened to the handler and its subscribers in between. -/
  | changed (s : SubscribeTrackHandler)

/-- Nothing is handed on where the source throws. -/
def Received.call (q : QuicrPublish) (s : SubscribeTrackHandler) :
    Received → SubscribeTrackHandler × List Handed
  | .objectReceived headers payload => (s.objectReceived q headers payload).getD (s, [])
  | .forwardReceivedData isNewStream groupId subgroupId data =>
    s.forwardReceivedData q isNewStream groupId subgroupId data
  | .changed s => (s, [])

def Received.step (q : QuicrPublish) (s : SubscribeTrackHandler) (received : Received) :
    Option SubscribeTrackHandler :=
  some (received.call q s).1

/-- Who does not have the first object of the subgroup yet is handed the object, if it is not before
where the subscriber starts, and who has it is handed the bytes. -/
def Splits (q : QuicrPublish) (s : SubscribeTrackHandler) (received : Received) : Prop :=
  ∀ recipient h, s.publisherAt recipient = some h →
    match received with
    | .objectReceived headers payload =>
      .object recipient headers payload ∈ (received.call q s).2 ↔
        h.accepts headers recipient = true ∧ (s.pipelines recipient = true →
          h.hasFirstObject headers.groupId headers.subgroupId = false)
    | .forwardReceivedData isNewStream groupId subgroupId data =>
      .data recipient isNewStream groupId subgroupId data ∈ (received.call q s).2 ↔
        h.hasFirstObject groupId subgroupId = true
    | .changed _ => True

/-- The subgroups that the recipients are tested for are as far as the subgroup itself, where the
test decides. -/
def SeesSubgroups (s : SubscribeTrackHandler) (received : Received) : Prop :=
  ∀ recipient h, s.publisherAt recipient = some h →
    match received with
    | .objectReceived headers _ =>
      h.accepts headers recipient = true → s.pipelines recipient = true →
        h.SeesSubgroup headers.groupId headers.subgroupId
    | .forwardReceivedData _ groupId subgroupId _ => h.SeesSubgroup groupId subgroupId
    | .changed _ => True

section Handed

variable {q : QuicrPublish} {s : SubscribeTrackHandler} {recipient : Recipient}
variable {h : PublishTrackHandler} {headers : ObjectHeaders} {payload : List UInt8}
variable {isNewStream : Bool} {groupId subgroupId : UInt64} {data : List UInt8}

theorem publishObject_handed (ns : PublishNamespaceHandler) (trackAlias : UInt64) :
    (ns.publishObject q trackAlias headers payload).2 = true ↔
      ∃ h, ns.handlers[trackAlias]? = some h ∧
        h.sentFirst headers.groupId headers.subgroupId = false := by
  unfold PublishNamespaceHandler.publishObject
  cases ns.handlers[trackAlias]? with
  | none => simp
  | some h =>
    cases hsent : h.sentFirst headers.groupId headers.subgroupId with
    | true => simp [hsent]
    | false => simp [hsent]

theorem forwardPublishedData_handed (ns : PublishNamespaceHandler) (trackAlias : UInt64) :
    (ns.forwardPublishedData q trackAlias isNewStream groupId subgroupId data).2 = true ↔
      ∃ h, ns.handlers[trackAlias]? = some h ∧ h.sentFirst groupId subgroupId = true := by
  unfold PublishNamespaceHandler.forwardPublishedData
  cases ns.handlers[trackAlias]? with
  | none => simp
  | some h =>
    cases hsent : h.sentFirst groupId subgroupId with
    | true => simp [hsent]
    | false => simp [hsent]

theorem objectTo_handed (conn : ConnectionHandle) (h : PublishTrackHandler) :
    (s.objectTo q headers payload conn h).2 = true ↔
      conn ≠ 0 ∧ h.starts headers = true ∧
        (s.isDatagram = false → h.sentFirst headers.groupId headers.subgroupId = false) := by
  unfold SubscribeTrackHandler.objectTo
  by_cases hconn : conn = 0
  · simp [hconn]
  · cases hdatagram : s.isDatagram with
    | true => cases h.starts headers <;> simp [hconn]
    | false =>
      cases h.sentFirst headers.groupId headers.subgroupId with
      | true => simp [hconn]
      | false => cases h.starts headers <;> simp [hconn]

theorem mem_dataTo {conn : ConnectionHandle} {h : PublishTrackHandler} :
    .data recipient isNewStream groupId subgroupId data ∈
        (s.dataTo q isNewStream groupId subgroupId data conn h).2 ↔
      recipient = .connection conn ∧ conn ≠ 0 ∧ h.sentFirst groupId subgroupId = true := by
  unfold SubscribeTrackHandler.dataTo
  by_cases hconn : conn = 0
  · simp [hconn]
  · cases h.sentFirst groupId subgroupId with
    | true => simp [hconn]
    | false => simp [hconn]

theorem mem_flatMap_ite {α β : Type*} {l : List α} {p : α → Bool} {f : α → β} {b : β} :
    (b ∈ l.flatMap fun a => if p a = true then [f a] else []) ↔ ∃ a ∈ l, p a = true ∧ b = f a := by
  rw [List.mem_flatMap]
  refine exists_congr fun a => and_congr_right fun _ => ?_
  cases p a with
  | true => simp
  | false => simp

theorem publisherAt_connection {conn : ConnectionHandle} :
    s.publisherAt (.connection conn) = some h ↔
      (∃ trackAlias, s.trackAlias = some trackAlias) ∧ conn ≠ 0 ∧
        s.subscribers[conn]? = some h := by
  unfold SubscribeTrackHandler.publisherAt
  cases s.trackAlias with
  | none => simp
  | some trackAlias =>
    by_cases hconn : conn = 0
    · simp [hconn]
    · simp [hconn]

theorem publisherAt_subNamespace {nsHash : UInt64} {conn : ConnectionHandle} :
    s.publisherAt (.subNamespace nsHash conn) = some h ↔
      ∃ trackAlias, s.trackAlias = some trackAlias ∧
        ∃ ns, s.subNamespaces.get₂? nsHash conn = some ns ∧ ns.handlers[trackAlias]? = some h := by
  unfold SubscribeTrackHandler.publisherAt
  cases s.trackAlias with
  | none => simp
  | some trackAlias => simp [Option.bind_eq_some_iff]

/-- The two loops of a call reach a recipient through its handler. -/
theorem exists_recipient_iff {trackAlias : UInt64} (htrack : s.trackAlias = some trackAlias)
    (recipient : Recipient) (tells : Recipient → PublishTrackHandler → Prop) :
    (∃ e ∈ s.subNamespaces.entries₂,
        (∃ h, e.2.handlers[trackAlias]? = some h ∧ tells (.subNamespace e.1.1 e.1.2) h) ∧
          recipient = .subNamespace e.1.1 e.1.2) ∨
      (∃ e ∈ s.subscribers.toList,
        (e.1 ≠ 0 ∧ tells (.connection e.1) e.2) ∧ recipient = .connection e.1) ↔
      ∃ h, s.publisherAt recipient = some h ∧ tells recipient h := by
  cases recipient with
  | connection conn =>
    simp only [publisherAt_connection]
    constructor
    · rintro (⟨e, -, -, heq⟩ | ⟨e, he, ⟨hconn, htells⟩, heq⟩)
      · cases heq
      · cases heq
        exact ⟨e.2, ⟨⟨trackAlias, htrack⟩, hconn,
          ExtTreeMap.mem_toList_iff_getElem?_eq_some.mp he⟩, htells⟩
    · rintro ⟨h, ⟨-, hconn, hget⟩, htells⟩
      exact .inr ⟨(conn, h), ExtTreeMap.mem_toList_iff_getElem?_eq_some.mpr hget, ⟨hconn, htells⟩,
        rfl⟩
  | subNamespace nsHash conn =>
    simp only [publisherAt_subNamespace]
    constructor
    · rintro (⟨e, he, ⟨h, hget, htells⟩, heq⟩ | ⟨e, -, -, heq⟩)
      · cases heq
        exact ⟨h, ⟨trackAlias, htrack, e.2, ExtTreeMap.mem_entries₂.mp he, hget⟩, htells⟩
      · cases heq
    · rintro ⟨h, ⟨trackAlias', htrack', ns, hns, hget⟩, htells⟩
      cases htrack.symm.trans htrack'
      exact .inl ⟨((nsHash, conn), ns), ExtTreeMap.mem_entries₂.mpr hns, ⟨h, hget, htells⟩, rfl⟩

/-- The object goes to those whose handler is not known to have sent the first one. -/
theorem mem_objectReceived :
    .object recipient headers payload ∈
        ((Received.objectReceived headers payload).call q s).2 ↔
      ∃ h, s.publisherAt recipient = some h ∧ h.accepts headers recipient = true ∧
        (s.pipelines recipient = true →
          h.sentFirst headers.groupId headers.subgroupId = false) := by
  unfold Received.call SubscribeTrackHandler.objectReceived
  cases htrack : s.trackAlias with
  | none => simp [SubscribeTrackHandler.publisherAt, htrack]
  | some trackAlias =>
    show _ ∈ _ ++ _ ↔ _
    rw [List.mem_append, mem_flatMap_ite, mem_flatMap_ite,
      ← exists_recipient_iff htrack recipient fun recipient h =>
        h.accepts headers recipient = true ∧ (s.pipelines recipient = true →
          h.sentFirst headers.groupId headers.subgroupId = false)]
    simp [publishObject_handed, objectTo_handed, SubscribeTrackHandler.pipelines,
      PublishTrackHandler.accepts]

/-- The bytes go to those whose handler is known to have sent the first object. -/
theorem mem_forwardReceivedData :
    .data recipient isNewStream groupId subgroupId data ∈
        ((Received.forwardReceivedData isNewStream groupId subgroupId data).call q s).2 ↔
      ∃ h, s.publisherAt recipient = some h ∧ h.sentFirst groupId subgroupId = true := by
  unfold Received.call SubscribeTrackHandler.forwardReceivedData
  cases htrack : s.trackAlias with
  | none => simp [SubscribeTrackHandler.publisherAt, htrack]
  | some trackAlias =>
    show _ ∈ _ ++ _ ↔ _
    rw [List.mem_append, mem_flatMap_ite, List.mem_flatMap,
      ← exists_recipient_iff htrack recipient fun _ h => h.sentFirst groupId subgroupId = true]
    simp [forwardPublishedData_handed, mem_dataTo, and_comm, and_assoc]

end Handed

/-! ### Calls and runs -/

section Runs

variable {q : QuicrPublish} {s : SubscribeTrackHandler} {received : Received}

/-- A call splits the work by the subgroup exactly when the subgroups that the recipients are tested
for are as far as it. -/
theorem splits_received_iff : Splits q s received ↔ SeesSubgroups s received := by
  refine forall_congr' fun recipient => forall_congr' fun h => forall_congr' fun hat => ?_
  cases received with
  | objectReceived headers payload =>
    have hhanded : .object recipient headers payload ∈
        ((Received.objectReceived headers payload).call q s).2 ↔
        h.accepts headers recipient = true ∧ (s.pipelines recipient = true →
          h.sentFirst headers.groupId headers.subgroupId = false) := by
      rw [mem_objectReceived, hat]
      simp
    dsimp only
    rw [hhanded, h.sentFirst_eq, PublishTrackHandler.SeesSubgroup, and_congr_right_iff]
    refine forall_congr' fun _ => ?_
    cases s.pipelines recipient with
    | false => simp
    | true =>
      cases h.hasFirstObject headers.groupId headers.subgroupId with
      | true => simp
      | false => simp
  | forwardReceivedData isNewStream groupId subgroupId data =>
    have hhanded : .data recipient isNewStream groupId subgroupId data ∈
        ((Received.forwardReceivedData isNewStream groupId subgroupId data).call q s).2 ↔
        h.sentFirst groupId subgroupId = true := by
      rw [mem_forwardReceivedData, hat]
      simp
    dsimp only
    rw [hhanded, h.sentFirst_eq, PublishTrackHandler.SeesSubgroup]
    exact Bool.eq_iff_iff.symm
  | changed s' => exact Iff.rfl

end Runs

/-- The test is about the subgroup that it is given exactly when the subgroup with the low 32 bits
of both ids has its first object sent as the subgroup itself has; and in every run the calls hand
objects to those who do not have the first one yet and bytes to those who have it, if and only if
this is so of every subgroup that a call of the run tests a recipient for. -/
theorem splits_iff (q : QuicrPublish) (s : SubscribeTrackHandler) (run : List Received) :
    (∀ (h : PublishTrackHandler) (groupId subgroupId : UInt64),
      (h.sentFirst groupId subgroupId = true ↔ h.hasFirstObject groupId subgroupId = true) ↔
        h.SeesSubgroup groupId subgroupId) ∧
    (Runs.All (Received.step q) (Splits q) s run ↔
      Runs.All (Received.step q) SeesSubgroups s run) := by
  refine ⟨fun h groupId subgroupId => ?_, ?_⟩
  · rw [h.sentFirst_eq, PublishTrackHandler.SeesSubgroup]
    exact Bool.eq_iff_iff.symm
  · exact Runs.all_iff (I := fun _ => True) (fun s received _ _ => ⟨_, rfl, trivial⟩)
      (fun s received _ => splits_received_iff) trivial

/-- Connection 7 is sent a track of streams. -/
def oneSubscriber : SubscribeTrackHandler where
  trackAlias := some 9
  subscribers := (∅ : ExtTreeMap ConnectionHandle PublishTrackHandler compare).insert 7 {}

/-- The first object of the first subgroup. -/
def firstOf (groupId : UInt64) : ObjectHeaders where
  groupId := groupId
  objectId := 0
  subgroupId := 0
  payloadLength := 1
  status := 0
  priority := 1
  extensions := []
  immutableExtensions := []

/-- Group 0 is open when group 2 to the power of 32 begins. -/
theorem not_splits : ¬ ((∀ (h : PublishTrackHandler) (groupId subgroupId : UInt64),
      h.sentFirst groupId subgroupId = true ↔ h.hasFirstObject groupId subgroupId = true) ∧
    ∀ (q : QuicrPublish) (s : SubscribeTrackHandler) (run : List Received),
      Runs.All (Received.step q) (Splits q) s run) := by
  rintro ⟨-, hruns⟩
  let first : Received := .objectReceived (firstOf 0) [1]
  let s := (first.call lastObjects oneSubscriber).1
  have hsplits : Splits lastObjects s (.objectReceived (firstOf 4294967296) [2]) :=
    hruns lastObjects oneSubscriber [first, .objectReceived (firstOf 4294967296) [2]] [first] _
      List.prefix_rfl _ rfl
  have hat : (s.publisherAt (.connection 7)).map (fun h =>
      (h.accepts (firstOf 4294967296) (.connection 7), h.hasFirstObject 4294967296 0)) =
        some (true, false) := by
    decide +kernel
  obtain ⟨h, hat, hfirst⟩ := Option.map_eq_some_iff.mp hat
  obtain ⟨haccepts, hfirst⟩ := Prod.mk.inj hfirst
  have hhanded := (hsplits _ h hat).mpr ⟨haccepts, fun _ => hfirst⟩
  revert hhanded
  decide +kernel

end Laps.Delivery
