import Laps.Lib.Runs
import Laps.Relay.AnnounceRemovals
import Laps.Relay.ClientFib
import Laps.Relay.NodeMessages

/-! What a relay announces itself, over runs in which other relays announce too and sessions are
lost.  When no session is connected any more, `SessionChanged` forgets all announcements, those of
this relay's own clients with the others. -/

namespace Laps.Relay

open Std Client Peering

/-! ### Calls -/

inductive AnnounceCall where
  /-- `ClientAnnounce`. -/
  | client (full : FullTrackName) (withdraw publishNamespace : Bool)
  /-- `AnnounceInfoReceived`. -/
  | received (id : PeerSessionId) (info : AnnounceInfo) (withdraw : Bool)
  /-- `SessionChanged`. -/
  | session (id : PeerSessionId) (status : StatusValue) (remote : NodeInfo)
  /-- Whatever else happens at the relay, without a change of the announcements: what it is
  afterwards. -/
  | other (r : Relay)

def announceCall (q : Quicr) (r : Relay) : AnnounceCall → Option Relay
  | .client full withdraw publishNamespace =>
    some (r.clientAnnounce q full withdraw publishNamespace)
  | .received id info withdraw => some (r.announceInfoReceived q id info withdraw)
  | .session id status remote => r.sessionChanged q id status remote
  | .other r' =>
    some { r' with
      nodeId := r.nodeId
      infoBase := { r'.infoBase with
        announces := r.infoBase.announces
        prefixLookupAnnounces := r.infoBase.prefixLookupAnnounces } }

/-- What the call does to this relay's own announcement under a hash. -/
def AnnounceCall.withdrawsOwn (q : Quicr) (hash : UInt64) : AnnounceCall → Option Bool
  | .client full withdraw _ =>
    if (q.trackHash full).trackFullnameHash = hash then some withdraw else none
  | _ => none

/-- The last announcement by a client of this relay was no withdrawal. -/
def lastAdvertised (q : Quicr) (calls : List AnnounceCall) (hash : UInt64) : Bool :=
  (calls.filterMap (AnnounceCall.withdrawsOwn q hash)).getLast? = some false

theorem lastAdvertised_nil (q : Quicr) (hash : UInt64) : lastAdvertised q [] hash = false := rfl

theorem lastAdvertised_concat (q : Quicr) (calls : List AnnounceCall) (call : AnnounceCall)
    (hash : UInt64) : lastAdvertised q (calls ++ [call]) hash =
      match call.withdrawsOwn q hash with
      | some withdraw => !withdraw
      | none => lastAdvertised q calls hash := by
  unfold lastAdvertised
  rw [List.filterMap_append]
  cases hown : call.withdrawsOwn q hash with
  | none => simp [hown]
  | some withdraw => cases withdraw <;> simp [hown]

/-- The announcements of this relay are those that its clients have made, they reach every other
relay that connects, and the prefix table matches the announcements. -/
structure OwnAnnouncesKept (q : Quicr) (calls : List AnnounceCall) (r : Relay) : Prop where
  own : ∀ hash, (r.infoBase.announces.get₂? hash r.nodeId).isSome = lastAdvertised q calls hash
  synced : ∀ id session, r.getPeerSession id = some session → session.status = .connected →
    session.remoteNodeInfo.id ≠ r.nodeId → ∀ hash, lastAdvertised q calls hash = true →
      ∃ info, info.fullnameHash = hash ∧ info.sourceNodeId = r.nodeId ∧
        (info, false) ∈ ((r.infoBaseSyncPeer id).announcesTo id).drop (r.announcesTo id).length
  matched : InfoBase.IndexMatches q r.infoBase

/-- The announcements of other relays name these. -/
def AnnounceCall.Remote (nodeId : NodeIdValueType) : AnnounceCall → Prop
  | .received _ info _ => info.sourceNodeId ≠ nodeId
  | _ => True

/-- The namespace whose withdrawal this relay tells of, when it learns of a peer's. -/
def toldNamespace (q : Quicr) (r : Relay) (info : AnnounceInfo) : Option TrackNamespace :=
  if info.flags &&& 1 = 1 then
    r.state.requests[((0 : ConnectionHandle),
      (q.trackHash info.fullTrackName).trackNamespaceHash)]?
  else none

/-- A withdrawal finds nothing else under its name, nor under that of the namespace which this relay
then withdraws itself; and a session is lost while another one is connected, or nothing is
announced. -/
def ForgetsNothing (q : Quicr) (r : Relay) : AnnounceCall → Prop
  | .client full withdraw publishNamespace =>
    withdraw = true → InfoBase.SoleEntry r.infoBase (r.announceInfo q full publishNamespace)
  | .received id info withdraw =>
    withdraw = true → (r.getPeerSession id).isSome = true → InfoBase.SoleEntry r.infoBase info ∧
      ∀ nameSpace, r.toldNamespace q info = some nameSpace → ∀ n old,
        r.infoBase.announces.get₂? (q.trackHash ⟨nameSpace, []⟩).trackFullnameHash n = some old →
          (q.trackHash ⟨nameSpace, []⟩).trackFullnameHash = info.fullnameHash ∧
            n = info.sourceNodeId
  | .session _ status _ =>
    status = .disconnected → r.isPeered = true ∨ r.infoBase.announces = ∅
  | .other _ => True

section Calls

variable {q : Quicr} {r r' : Relay} {id : PeerSessionId} {info : AnnounceInfo}

/-! ### What a call does to the announcements -/

theorem announceInfos_eq_iff {ib ib' : InfoBase} : announceInfos ib' = announceInfos ib ↔
    ib'.announces = ib.announces ∧ ib'.prefixLookupAnnounces = ib.prefixLookupAnnounces :=
  Prod.mk.injEq .. ▸ Iff.rfl

theorem announceInfos_clientAnnounce (q : Quicr) (r : Relay) (full : FullTrackName)
    (withdraw publishNamespace : Bool) :
    (r.clientAnnounce q full withdraw publishNamespace).nodeId = r.nodeId ∧
      announceInfos (r.clientAnnounce q full withdraw publishNamespace).infoBase = announceInfos
        (r.updateAnnounces q (r.announceInfo q full publishNamespace) withdraw).1.infoBase := by
  have hkeeps := keepsAnnounces_clientAnnounce q r full withdraw publishNamespace
  exact ⟨hkeeps.nodeId, hkeeps.info⟩

/-- What the client manager makes of a peer's namespace that ends. -/
theorem announceInfos_publishNamespaceDoneReceived (q : Quicr) (r : Relay) (req : RequestId) :
    (r.publishNamespaceDoneReceived q 0 req).nodeId = r.nodeId ∧
      announceInfos (r.publishNamespaceDoneReceived q 0 req).infoBase =
        match r.state.requests[((0 : ConnectionHandle), req)]? with
        | none => announceInfos r.infoBase
        | some nameSpace => announceInfos
          (r.infoBase.removeAnnounce q (r.announceInfo q ⟨nameSpace, []⟩ true)).1 := by
  unfold publishNamespaceDoneReceived
  cases r.state.requests[((0 : ConnectionHandle), req)]? with
  | none => exact ⟨rfl, rfl⟩
  | some nameSpace => exact announceInfos_clientAnnounce q r ⟨nameSpace, []⟩ true true

theorem announceInfos_advertised (q : Quicr) (info : AnnounceInfo)
    (hsession : (r.getPeerSession id).isSome = true) :
    (r.announceInfoReceived q id info false).nodeId = r.nodeId ∧
      announceInfos (r.announceInfoReceived q id info false).infoBase =
        announceInfos (r.infoBase.addAnnounce q info).1 := by
  obtain ⟨session, hget⟩ := Option.isSome_iff_exists.mp hsession
  unfold announceInfoReceived
  rw [hget]
  dsimp only
  split
  · exact ⟨rfl, rfl⟩
  · simp only [Bool.false_eq_true, if_false]
    split
    · obtain ⟨st, hstate⟩ := onlyState_publishNamespaceReceived q
        ((r.updateAnnounces q info false).1.sendAnnounceInfos (· == id) info false) info.nameSpace
        (q.trackHash info.fullTrackName).trackNamespaceHash
      rw [hstate]
      exact ⟨rfl, rfl⟩
    · obtain ⟨st, hstate⟩ := onlyState_publishReceived q
        ((r.updateAnnounces q info false).1.sendAnnounceInfos (· == id) info false)
        info.fullTrackName
      rw [hstate]
      exact ⟨rfl, rfl⟩

/-- A withdrawal removes the announcement, and then perhaps one of this relay. -/
theorem announceInfos_withdrawn (q : Quicr) (info : AnnounceInfo)
    (hsession : (r.getPeerSession id).isSome = true) :
    (r.announceInfoReceived q id info true).nodeId = r.nodeId ∧
      (announceInfos (r.announceInfoReceived q id info true).infoBase =
          announceInfos (r.infoBase.removeAnnounce q info).1 ∨
        ∃ nameSpace, r.toldNamespace q info = some nameSpace ∧
          announceInfos (r.announceInfoReceived q id info true).infoBase =
            announceInfos ((r.infoBase.removeAnnounce q info).1.removeAnnounce q
              (r.announceInfo q ⟨nameSpace, []⟩ true)).1) := by
  obtain ⟨session, hget⟩ := Option.isSome_iff_exists.mp hsession
  unfold announceInfoReceived
  rw [hget]
  dsimp only
  split
  · exact ⟨rfl, .inl rfl⟩
  · set r₁ := (r.updateAnnounces q info true).1.sendAnnounceInfos (· == id) info true
    have hdone := announceInfos_publishNamespaceDoneReceived q r₁
      (q.trackHash info.fullTrackName).trackNamespaceHash
    simp only [if_true]
    by_cases hflags : info.flags &&& 1 = 1
    · rw [if_pos hflags]
      refine ⟨hdone.1, ?_⟩
      cases hreq : r₁.state.requests[((0 : ConnectionHandle),
          (q.trackHash info.fullTrackName).trackNamespaceHash)]? with
      | none =>
        rw [hreq] at hdone
        exact .inl hdone.2
      | some nameSpace =>
        rw [hreq] at hdone
        refine .inr ⟨nameSpace, ?_, hdone.2⟩
        rw [toldNamespace, if_pos hflags]
        exact hreq
    · rw [if_neg hflags]
      have hkeeps := keepsAnnounces_publishDoneReceived q r₁
      exact ⟨hkeeps.nodeId, .inl hkeeps.info⟩

/-! ### Sessions that are lost -/

theorem Keeps.isPeered {α : Type*} {ofInfo : InfoBase → α} (h : Keeps ofInfo routeView r r') :
    r'.isPeered = r.isPeered := by
  have hany : ∀ {m m' : ExtTreeMap PeerSessionId PeerSession},
      (∀ id : PeerSessionId, m'[id]?.map routeView = m[id]?.map routeView) →
      (m.anyEntry fun _ session => session.status = .connected) = true →
      (m'.anyEntry fun _ session => session.status = .connected) = true := by
    intro m m' hsame hconnected
    obtain ⟨id, session, hget, hstatus⟩ := ExtTreeMap.anyEntry_iff.mp hconnected
    have hview := hsame id
    rw [hget, Option.map_some] at hview
    obtain ⟨session', hget', hview'⟩ := Option.map_eq_some_iff.mp hview
    refine ExtTreeMap.anyEntry_iff.mpr ⟨id, session', hget', ?_⟩
    rwa [show session'.status = session.status from congrArg Prod.fst hview']
  unfold Relay.isPeered
  refine congrArg₂ or ?_ ?_
  · exact Bool.eq_iff_iff.mpr ⟨hany fun id => (h.client id).symm, hany h.client⟩
  · exact Bool.eq_iff_iff.mpr ⟨hany fun id => (h.server id).symm, hany h.server⟩

/-- All announcements are forgotten when no session is connected. -/
theorem announceInfos_sessionChanged {status : StatusValue} {remote : NodeInfo}
    (h : r.sessionChanged q id status remote = some r') :
    r'.nodeId = r.nodeId ∧ announceInfos r'.infoBase =
      if status = .disconnected ∧ r.isPeered = false then (∅, r.infoBase.prefixLookupAnnounces)
      else announceInfos r.infoBase := by
  unfold sessionChanged at h
  split at h
  · cases h
    exact ⟨rfl, by simp⟩
  · cases h
    exact ⟨rfl, by simp⟩
  · obtain ⟨ib, hpurge, h⟩ := Option.bind_eq_some_iff.mp h
    obtain ⟨lost, -, h⟩ := Option.bind_eq_some_iff.mp h
    dsimp only at h
    have hib : announceInfos ib = announceInfos r.infoBase := by
      rw [InfoBase.purgePeerSessionInfo_rest hpurge]
      rfl
    set r₁ := ((r.propagateNodeInfo remote true).setInfoBase ib).setInfoBase
      { ((r.propagateNodeInfo remote true).setInfoBase ib).infoBase with
        clientFib := lost.clientFib }
    have hpurged : Keeps announceInfos routeView (r.propagateNodeInfo remote true)
        ((r.propagateNodeInfo remote true).setInfoBase ib) := keeps_setInfoBase hib
    have hwalked : Keeps announceInfos routeView ((r.propagateNodeInfo remote true).setInfoBase ib)
        r₁ := keeps_setInfoBase rfl
    have hsent : Keeps announceInfos routeView r (r.propagateNodeInfo remote true) :=
      keeps_propagateNodeInfo (fun session info withdraw =>
        congrArg Prod.fst (sendNodeInfo_view session info withdraw)) r remote true
    have hstart : Keeps announceInfos routeView r r₁ := hsent.trans (hpurged.trans hwalked)
    have hreceived : ∀ (r : Relay) id si withdraw,
        Keeps announceInfos routeView r (r.subscribeInfoReceived q id si withdraw) :=
      fun r id si withdraw =>
        keeps_subscribeInfoReceived (fun _ _ => rfl) (fun _ _ => rfl) blind_routeView q r id si _
    have hremove := foldl_related (R := Keeps announceInfos routeView) .refl .trans
      (fun r (si : SubscribeInfo) => hreceived r id si true) r₁ lost.removeSub
    have hupdate := foldl_related (R := Keeps announceInfos routeView) .refl .trans
      (fun r (sub : PeerSessionId × SubscribeInfo) => hreceived r sub.1 sub.2 false)
      (lost.removeSub.foldl (fun r si => r.subscribeInfoReceived q id si true) r₁) lost.updateSub
    have hall := (hstart.trans hremove).trans hupdate
    rw [hall.isPeered] at h
    cases hpeered : r.isPeered with
    | true =>
      rw [hpeered, if_pos rfl] at h
      cases h
      exact ⟨hall.nodeId, by simpa using hall.info⟩
    | false =>
      rw [hpeered, if_neg Bool.false_ne_true] at h
      cases h
      refine ⟨hall.nodeId, ?_⟩
      rw [if_pos ⟨rfl, rfl⟩]
      exact congrArg (Prod.mk ∅) (congrArg Prod.snd hall.info)

/-! ### Sessions that come up -/

theorem announcesSent_syncNodes (id : PeerSessionId) (session : PeerSession)
    (entries : List ((NodeIdValueType × PeerSessionId) × NodeItem)) :
    (entries.foldl (syncNode id) session).announcesSent = session.announcesSent := by
  refine foldl_related (R := fun s s' : PeerSession => s'.announcesSent = s.announcesSent)
    (fun _ => rfl) (fun h h' => Eq.trans h' h) (fun session entry => ?_) session entries
  unfold syncNode PeerSession.sendNodeInfo
  split
  · rfl
  · split
    · rfl
    · simp [PeerSession.announcesSent, PeerSession.enqueue, ControlMessage.announceInfo?]

/-- The announcements of all relays but the remote one. -/
theorem announcesSent_syncAnnounces {session : PeerSession} (h : session.status = .connected)
    (infos : List AnnounceInfo) : (infos.foldl syncAnnounce session).announcesSent =
      session.announcesSent ++ (infos.filter fun info =>
        session.remoteNodeInfo.id ≠ info.sourceNodeId).map (·, false) := by
  induction infos generalizing session with
  | nil => simp
  | cons info infos ih =>
    rw [List.foldl_cons]
    by_cases hsource : session.remoteNodeInfo.id = info.sourceNodeId
    · have hsame : syncAnnounce session info = session := by simp [syncAnnounce, hsource]
      rw [hsame, ih h, List.filter_cons_of_neg (by simpa using hsource)]
    · have hsent : syncAnnounce session info = session.enqueue (.announceInfo info false) := by
        simp [syncAnnounce, hsource, PeerSession.sendAnnounceInfo, h]
      have hmore : (session.enqueue (.announceInfo info false)).announcesSent =
          session.announcesSent ++ [(info, false)] := by
        simp [PeerSession.announcesSent, PeerSession.enqueue, ControlMessage.announceInfo?]
      have hrest := ih
        (show (session.enqueue (.announceInfo info false)).status = .connected from h)
      rw [hsent, hrest, hmore, List.filter_cons_of_pos (by simpa using hsource), List.map_cons,
        List.append_assoc, List.singleton_append]
      rfl

theorem announcesSent_syncSubscribes
    (acc : PeerSession × ExtTreeMap UInt64 (ExtTreeMap NodeIdValueType SubscribeInfo))
    (entries : List ((UInt64 × NodeIdValueType) × SubscribeInfo)) :
    (entries.foldl syncSubscribe acc).1.announcesSent = acc.1.announcesSent := by
  refine foldl_related (R := fun s s' : PeerSession × ExtTreeMap UInt64
    (ExtTreeMap NodeIdValueType SubscribeInfo) => s'.1.announcesSent = s.1.announcesSent)
    (fun _ => rfl) (fun h h' => Eq.trans h' h) (fun acc entry => ?_) acc entries
  unfold syncSubscribe
  split
  · rfl
  · exact congrArg (fun view => view.2.2) (announceView_sendSubscribeInfo acc.1 entry.2 false)

theorem announcesTo_infoBaseSyncPeer {session : PeerSession}
    (hget : r.getPeerSession id = some session) (hstatus : session.status = .connected) :
    (r.infoBaseSyncPeer id).announcesTo id = r.announcesTo id ++
      ((r.infoBase.announces.entries₂.map Prod.snd).filter fun info =>
        session.remoteNodeInfo.id ≠ info.sourceNodeId).map (·, false) := by
  have hnodes := sends_syncNodes id session r.infoBase.nodes.toList
  have hold := announcesSent_syncNodes id session r.infoBase.nodes.toList
  unfold infoBaseSyncPeer
  rw [hget]
  set s₁ := r.infoBase.nodes.toList.foldl (syncNode id) session
  have hsent := announcesSent_syncAnnounces (hnodes.status.trans hstatus)
    (r.infoBase.announces.entries₂.map Prod.snd)
  set s₂ := (r.infoBase.announces.entries₂.map Prod.snd).foldl syncAnnounce s₁
  have hkept := announcesSent_syncSubscribes (s₂, r.infoBase.subscribes)
    r.infoBase.subscribes.entries₂
  rw [hnodes.remote, hold] at hsent
  have hafter : ∀ s : PeerSession, ∀ ib : InfoBase,
      ((r.setPeerSession id s).setInfoBase ib).announcesTo id = s.announcesSent := by
    intro s ib
    show (((r.setPeerSession id s).getPeerSession id).map PeerSession.announcesSent).getD [] = _
    rw [getPeerSession_setPeerSession hget, if_pos rfl]
    rfl
  have hbefore : r.announcesTo id = session.announcesSent := by
    rw [announcesTo, hget]
    rfl
  dsimp only
  rw [hafter, hbefore, ← hsent]
  exact hkept

/-! ### Runs -/

/-- What holds of the announcements as long as nothing is forgotten. -/
structure OwnInv (q : Quicr) (nodeId : NodeIdValueType) (calls : List AnnounceCall) (r : Relay) :
    Prop where
  node : r.nodeId = nodeId
  matched : InfoBase.IndexMatches q r.infoBase
  stored : ∀ f n a, r.infoBase.announces.get₂? f n = some a →
    a.fullnameHash = f ∧ a.sourceNodeId = n
  own : ∀ hash, (r.infoBase.announces.get₂? hash nodeId).isSome = lastAdvertised q calls hash

variable {nodeId : NodeIdValueType} {calls : List AnnounceCall}

theorem OwnInv.kept (h : OwnInv q nodeId calls r) : OwnAnnouncesKept q calls r := by
  obtain ⟨rfl, hmatched, hstored, hown⟩ := h
  refine ⟨hown, fun id session hget hstatus hremote hash hlast => ?_, hmatched⟩
  rw [← hown hash] at hlast
  obtain ⟨info, hinfo⟩ := Option.isSome_iff_exists.mp hlast
  obtain ⟨hhash, hsource⟩ := hstored _ _ _ hinfo
  refine ⟨info, hhash, hsource, ?_⟩
  rw [announcesTo_infoBaseSyncPeer hget hstatus, List.drop_left]
  refine List.mem_map.mpr ⟨info, List.mem_filter.mpr
    ⟨List.mem_map.mpr ⟨((hash, r.nodeId), info), ?_, rfl⟩, ?_⟩, rfl⟩
  · exact ExtTreeMap.mem_entries₂.mpr hinfo
  · rw [hsource]
    exact decide_eq_true hremote

/-- Only the announcements, their prefixes and the node matter. -/
theorem OwnInv.congr {calls' : List AnnounceCall} (h : OwnInv q nodeId calls r)
    (hid : r'.nodeId = r.nodeId) (hinfos : announceInfos r'.infoBase = announceInfos r.infoBase)
    (hlast : ∀ hash, lastAdvertised q calls' hash = lastAdvertised q calls hash) :
    OwnInv q nodeId calls' r' := by
  obtain ⟨hannounces, hprefixes⟩ := announceInfos_eq_iff.mp hinfos
  refine ⟨hid.trans h.node, h.matched.congr hannounces hprefixes, ?_, ?_⟩
  · rw [hannounces]
    exact h.stored
  · intro hash
    rw [hannounces, hlast]
    exact h.own hash

/-- The entry of one announcement is replaced. -/
theorem OwnInv.replace {calls' : List AnnounceCall} (h : OwnInv q nodeId calls r)
    {a : AnnounceInfo} {ib : InfoBase} {entry : Option AnnounceInfo}
    (hmatched : InfoBase.IndexMatches q ib)
    (hget : ∀ f n, ib.announces.get₂? f n =
      if f = a.fullnameHash ∧ n = a.sourceNodeId then entry else r.infoBase.announces.get₂? f n)
    (hentry : ∀ b, entry = some b →
      b.fullnameHash = a.fullnameHash ∧ b.sourceNodeId = a.sourceNodeId)
    (hlast : ∀ hash, lastAdvertised q calls' hash =
      if a.sourceNodeId = nodeId ∧ hash = a.fullnameHash then entry.isSome
      else lastAdvertised q calls hash) :
    OwnInv q nodeId calls' (r.setInfoBase ib) := by
  refine ⟨h.node, hmatched, ?_, ?_⟩
  · intro f n b hb
    change ib.announces.get₂? f n = some b at hb
    rw [hget] at hb
    split at hb
    · rename_i heq
      rw [heq.1, heq.2]
      exact hentry b hb
    · exact h.stored _ _ _ hb
  · intro hash
    show (ib.announces.get₂? hash nodeId).isSome = _
    rw [hget, hlast, ← h.own hash]
    by_cases hat : hash = a.fullnameHash ∧ nodeId = a.sourceNodeId
    · rw [if_pos hat, if_pos ⟨hat.2.symm, hat.1⟩]
    · rw [if_neg hat, if_neg fun h => hat ⟨h.2, h.1.symm⟩]

theorem OwnInv.add {calls' : List AnnounceCall} (h : OwnInv q nodeId calls r) (a : AnnounceInfo)
    (hlast : ∀ hash, lastAdvertised q calls' hash =
      if a.sourceNodeId = nodeId ∧ hash = a.fullnameHash then true
      else lastAdvertised q calls hash) :
    OwnInv q nodeId calls' (r.setInfoBase (r.infoBase.addAnnounce q a).1) := by
  refine h.replace (h.matched.add a) (InfoBase.get₂?_addAnnounce q r.infoBase a) ?_ hlast
  intro b hb
  cases hold : r.infoBase.announces.get₂? a.fullnameHash a.sourceNodeId with
  | none =>
    rw [hold] at hb
    cases hb
    exact ⟨rfl, rfl⟩
  | some old =>
    rw [hold] at hb
    cases hb
    exact h.stored _ _ _ hold

theorem OwnInv.remove {calls' : List AnnounceCall} (h : OwnInv q nodeId calls r) {a : AnnounceInfo}
    (hsole : InfoBase.SoleEntry r.infoBase a)
    (hlast : ∀ hash, lastAdvertised q calls' hash =
      if a.sourceNodeId = nodeId ∧ hash = a.fullnameHash then false
      else lastAdvertised q calls hash) :
    OwnInv q nodeId calls' (r.setInfoBase (r.infoBase.removeAnnounce q a).1) := by
  refine h.replace (h.matched.remove hsole) (InfoBase.get₂?_removeAnnounce q r.infoBase a) ?_ hlast
  intro b hb
  cases hb

/-- A call by another relay leaves this one's own announcements. -/
theorem lastAdvertised_concat_of_none {call : AnnounceCall}
    (h : ∀ hash, call.withdrawsOwn q hash = none) (hash : UInt64) :
    lastAdvertised q (calls ++ [call]) hash = lastAdvertised q calls hash := by
  rw [lastAdvertised_concat, h]

theorem OwnInv.client (h : OwnInv q nodeId calls r) (full : FullTrackName)
    (withdraw publishNamespace : Bool)
    (hclean : ForgetsNothing q r (.client full withdraw publishNamespace)) :
    OwnInv q nodeId (calls ++ [.client full withdraw publishNamespace])
      (r.clientAnnounce q full withdraw publishNamespace) := by
  have hnode : (r.announceInfo q full publishNamespace).sourceNodeId = nodeId := h.node
  have hlast : ∀ hash, lastAdvertised q (calls ++ [.client full withdraw publishNamespace]) hash =
      if (r.announceInfo q full publishNamespace).sourceNodeId = nodeId ∧
          hash = (r.announceInfo q full publishNamespace).fullnameHash then !withdraw
      else lastAdvertised q calls hash := by
    intro hash
    rw [lastAdvertised_concat, AnnounceCall.withdrawsOwn]
    by_cases hhash : (q.trackHash full).trackFullnameHash = hash
    · rw [if_pos hhash, if_pos ⟨hnode, hhash.symm⟩]
    · rw [if_neg hhash, if_neg fun heq => hhash heq.2.symm]
  obtain ⟨hid, hinfos⟩ := announceInfos_clientAnnounce q r full withdraw publishNamespace
  cases withdraw with
  | false =>
    exact (h.add (r.announceInfo q full publishNamespace) hlast).congr hid hinfos fun _ => rfl
  | true => exact (h.remove (hclean rfl) hlast).congr hid hinfos fun _ => rfl

theorem OwnInv.received (h : OwnInv q nodeId calls r) (withdraw : Bool)
    (hremote : info.sourceNodeId ≠ nodeId)
    (hclean : ForgetsNothing q r (.received id info withdraw)) :
    OwnInv q nodeId (calls ++ [.received id info withdraw])
      (r.announceInfoReceived q id info withdraw) := by
  have hlast : ∀ hash, lastAdvertised q (calls ++ [.received id info withdraw]) hash =
      lastAdvertised q calls hash := lastAdvertised_concat_of_none fun _ => rfl
  have hlast' : ∀ (b : Bool) (hash : UInt64),
      lastAdvertised q (calls ++ [.received id info withdraw]) hash =
      if info.sourceNodeId = nodeId ∧ hash = info.fullnameHash then b
      else lastAdvertised q calls hash := by
    intro b hash
    rw [hlast, if_neg fun heq => hremote heq.1]
  cases hget : r.getPeerSession id with
  | none =>
    have hsame : r.announceInfoReceived q id info withdraw = r := by
      unfold announceInfoReceived
      rw [hget]
    rw [hsame]
    exact h.congr rfl rfl hlast
  | some session =>
    have hsession : (r.getPeerSession id).isSome = true := by rw [hget]; rfl
    cases withdraw with
    | false =>
      obtain ⟨hid, hinfos⟩ := announceInfos_advertised q info hsession
      exact (h.add info (hlast' true)).congr hid hinfos fun _ => rfl
    | true =>
      obtain ⟨hsole, htold⟩ := hclean rfl hsession
      have hremoved := h.remove hsole (hlast' false)
      obtain ⟨hid, hinfos | ⟨nameSpace, hnameSpace, hinfos⟩⟩ :=
        announceInfos_withdrawn q info hsession
      · exact hremoved.congr hid hinfos fun _ => rfl
      -- What this relay withdraws itself is stored by no node any more.
      · have hnone : ∀ n, (r.infoBase.removeAnnounce q info).1.announces.get₂?
            (q.trackHash ⟨nameSpace, []⟩).trackFullnameHash n = none := by
          intro n
          rw [InfoBase.get₂?_removeAnnounce]
          split
          · rfl
          · rename_i hne
            by_contra hsome
            obtain ⟨old, hold⟩ := Option.ne_none_iff_exists'.mp hsome
            exact hne (htold nameSpace hnameSpace n old hold)
        suffices hagain : OwnInv q nodeId (calls ++ [.received id info true])
            ((r.setInfoBase (r.infoBase.removeAnnounce q info).1).setInfoBase
              ((r.infoBase.removeAnnounce q info).1.removeAnnounce q
                (r.announceInfo q ⟨nameSpace, []⟩ true)).1) from
          hagain.congr hid hinfos fun _ => rfl
        refine hremoved.remove ?_ ?_
        · intro n old hold
          exact absurd ((hnone n).symm.trans hold) (by simp)
        · intro hash
          split
          · rename_i heq
            rw [← hremoved.own hash, heq.2]
            exact congrArg Option.isSome (hnone nodeId)
          · rfl

theorem OwnInv.step (h : OwnInv q nodeId calls r) {call : AnnounceCall}
    (hremote : call.Remote nodeId) (hclean : ForgetsNothing q r call)
    (hcall : r.announceCall q call = some r') : OwnInv q nodeId (calls ++ [call]) r' := by
  cases call with
  | client full withdraw publishNamespace =>
    cases hcall
    exact h.client full withdraw publishNamespace hclean
  | received id info withdraw =>
    cases hcall
    exact h.received withdraw hremote hclean
  | session id status remote =>
    obtain ⟨hid, hinfos⟩ := announceInfos_sessionChanged hcall
    refine h.congr hid ?_ (lastAdvertised_concat_of_none fun _ => rfl)
    rw [hinfos]
    split
    · rename_i hlost
      rcases hclean hlost.1 with hpeered | hempty
      · exact absurd (hlost.2.symm.trans hpeered) Bool.false_ne_true
      · rw [announceInfos, hempty]
    · rfl
  | other r₁ =>
    cases hcall
    exact h.congr rfl rfl (lastAdvertised_concat_of_none fun _ => rfl)

end Calls

/-- In a run in which nothing is forgotten, this relay's own announcements are kept in every
state. -/
theorem keepsOwn_announceCalls (q : Quicr) (r : Relay) (hannounces : r.infoBase.announces = ∅)
    (hprefixes : r.infoBase.prefixLookupAnnounces = ∅) (calls : List AnnounceCall)
    (hremote : ∀ call ∈ calls, call.Remote r.nodeId)
    (hclean : Runs.All (announceCall q) (ForgetsNothing q) r calls) :
    ∀ before, before <+: calls → ∀ r', before.foldlM (announceCall q) r = some r' →
      OwnAnnouncesKept q before r' := by
  suffices hinv : ∀ before, before <+: calls → ∀ r', before.foldlM (announceCall q) r = some r' →
      OwnInv q r.nodeId before r' from fun before hle r' hrun => (hinv before hle r' hrun).kept
  intro before
  induction before using List.reverseRecOn with
  | nil =>
    intro _ r' hrun
    cases hrun
    refine ⟨rfl, ⟨?_, fun x hx => ?_, fun x f => ?_⟩, fun f n a ha => ?_, fun hash => ?_⟩
    · rw [hannounces]
      exact ExtTreeMap.noEmptyRow_empty
    · simp [hprefixes] at hx
    · simp [InfoBase.Indexed, hprefixes, hannounces]
    · simp [hannounces] at ha
    · simp [hannounces, lastAdvertised_nil]
  | append_singleton before call ih =>
    intro hle r' hrun
    rw [List.foldlM_append] at hrun
    obtain ⟨r₁, hrun₁, hlast⟩ := Option.bind_eq_some_iff.mp hrun
    have hinv := ih ((List.prefix_append _ _).trans hle) r₁ hrun₁
    refine hinv.step (hremote call (hle.subset (by simp))) (hclean before call hle r₁ hrun₁) ?_
    simpa using hlast

/-- Node 1 with a session with node 2. -/
def withPeer (status : StatusValue) : Relay where
  nodeId := 1
  clientPeerSessions := (∅ : ExtTreeMap PeerSessionId PeerSession).insert 5
    { status, nodeId := 1, remoteNodeInfo := { id := 2 } }

/-- A session with node 3 is lost while the one with node 2 is connected. -/
theorem keepsOwn_withPeer : ∃ r', [AnnounceCall.client ⟨[[1]], [2]⟩ false false,
      .session 6 .disconnected { id := 3 }].foldlM (announceCall .polynomial)
        (withPeer .connected) = some r' ∧
    OwnAnnouncesKept .polynomial [AnnounceCall.client ⟨[[1]], [2]⟩ false false,
      .session 6 .disconnected { id := 3 }] r' := by
  obtain ⟨r', hrun⟩ := Option.isSome_iff_exists.mp (show ([AnnounceCall.client ⟨[[1]], [2]⟩ false
    false, .session 6 .disconnected { id := 3 }].foldlM (announceCall .polynomial)
      (withPeer .connected)).isSome = true by decide +kernel)
  refine ⟨r', hrun, keepsOwn_announceCalls .polynomial (withPeer .connected) rfl rfl _ ?_ ?_ _
    List.prefix_rfl r' hrun⟩
  · intro call hcall
    simp only [List.mem_cons, List.not_mem_nil, or_false] at hcall
    obtain rfl | rfl := hcall <;> exact trivial
  · refine Runs.all_of_take fun k call hcall r₁ hr₁ => ?_
    have hlt : k < 2 := (List.getElem?_eq_some_iff.mp hcall).1
    obtain rfl | rfl : k = 0 ∨ k = 1 := by omega
    · cases hcall
      intro hwithdraw
      cases hwithdraw
    · cases hcall
      cases hr₁
      exact fun _ => .inl (by decide +kernel)

/-- A client announces a track, and then the only session is lost. -/
theorem not_keepsOwn :
    ¬∀ (q : Quicr) (r : Relay), r.infoBase.announces = ∅ → r.infoBase.prefixLookupAnnounces = ∅ →
      ∀ calls : List AnnounceCall, (∀ call ∈ calls, call.Remote r.nodeId) →
        ∀ before, before <+: calls → ∀ r', before.foldlM (announceCall q) r = some r' →
          OwnAnnouncesKept q before r' := by
  intro h
  have hlost : (([AnnounceCall.client ⟨[[1]], [2]⟩ false false, .other (withPeer .disconnected),
      .session 5 .disconnected { id := 2 }].foldlM (announceCall .polynomial)
        (withPeer .connected)).map fun r => (r.infoBase.announces.get₂?
          (Quicr.polynomial.trackHash ⟨[[1]], [2]⟩).trackFullnameHash r.nodeId).isSome) =
      some false := by
    decide +kernel
  obtain ⟨r', hrun, hnone⟩ := Option.map_eq_some_iff.mp hlost
  have hkept := (h .polynomial (withPeer .connected) rfl rfl _ (by
    intro call hcall
    simp only [List.mem_cons, List.not_mem_nil, or_false] at hcall
    obtain rfl | rfl | rfl := hcall <;> exact trivial) _ List.prefix_rfl r' hrun).own
      (Quicr.polynomial.trackHash ⟨[[1]], [2]⟩).trackFullnameHash
  rw [hnone] at hkept
  exact absurd hkept (by decide +kernel)

end Laps.Relay
