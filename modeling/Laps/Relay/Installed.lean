import Laps.Lib.FirstCome
import Laps.Lib.Runs
import Laps.Relay.ClientFib

/-! Where the subscriptions of other relays are installed: the sessions whose node set for a track
has the node that subscribes. -/

namespace Laps.Relay

open Std Client Peering

/-- The node is in the node set that the session has for the track. -/
def installed (r : Relay) (id : PeerSessionId) (hash : UInt64) (node : NodeIdValueType) : Bool :=
  (r.nodeSetAt id hash).any fun sns => sns.nodes.contains node

/-- The egress session of an entry of the client table. -/
def egress (r : Relay) (key : UInt64 × PeerSessionId) : Option (Option PeerSessionId) :=
  r.infoBase.clientFib[key]?.map FibEntry.peerSession

/-- A subscription is installed on at most one session. -/
def InstalledOnce (r : Relay) : Prop :=
  ∀ hash node id id', r.installed id hash node = true → r.installed id' hash node = true → id = id'

/-- A subscription is installed on no other session. -/
def OnlyInstalledAt (r : Relay) (hash : UInt64) (node : NodeIdValueType) (id : PeerSessionId) :
    Prop :=
  ∀ id', r.installed id' hash node = true → id' = id

/-! ### What is installed, and where -/

/-- The subscriptions of `new` are installed, and the tracks that get a node on a session get an
entry under this session; the routes are as they were. -/
structure Installs (new : PeerSessionId → UInt64 → NodeIdValueType → Prop) (r r' : Relay) :
    Prop where
  routes : KeepsRoutes r r'
  installed : ∀ id hash node, r'.installed id hash node = true ↔
    r.installed id hash node = true ∨ new id hash node
  egress : r'.egress = FirstCome.offer r.egress
    {key | ∃ node, new key.2 key.1 node ∧ r.installed key.2 key.1 node = false}
    fun key => some key.2

section Installs

variable {q : Quicr} {r r' r'' : Relay} {hash : UInt64} {node : NodeIdValueType}
variable {best key : PeerSessionId}
variable {new new' : PeerSessionId → UInt64 → NodeIdValueType → Prop}

theorem Keeps.installed (h : KeepsForwarding r r') (id : PeerSessionId) (hash : UInt64)
    (node : NodeIdValueType) : r'.installed id hash node = r.installed id hash node := by
  rw [Relay.installed, h.nodeSetAt, Relay.installed]

theorem Keeps.egress (h : KeepsForwarding r r') : r'.egress = r.egress := by
  funext key
  rw [Relay.egress, h.clientFib, Relay.egress]

theorem Installs.of_keeps (h : KeepsForwarding r r') (hnew : ∀ id hash node, ¬new id hash node) :
    Installs new r r' := by
  refine ⟨h.keepsRoutes, fun id hash node => ?_, ?_⟩
  · rw [h.installed]
    simp [hnew]
  · rw [h.egress, FirstCome.offer_eq_self]
    rintro key ⟨node, hnode, -⟩
    exact hnew _ _ _ hnode

theorem Installs.after_keeps (hbefore : KeepsForwarding r r') (h : Installs new r' r'') :
    Installs new r r'' := by
  refine ⟨hbefore.keepsRoutes.trans h.routes, fun id hash node => ?_, ?_⟩
  · rw [h.installed, hbefore.installed]
  · rw [h.egress, hbefore.egress]
    simp only [hbefore.installed]

theorem Installs.then_keeps (h : Installs new r r') (hafter : KeepsForwarding r' r'') :
    Installs new r r'' := by
  refine ⟨h.routes.trans hafter.keepsRoutes, fun id hash node => ?_, ?_⟩
  · rw [hafter.installed, h.installed]
  · rw [hafter.egress, h.egress]

theorem Installs.trans (h : Installs new r r') (h' : Installs new' r' r'') :
    Installs (fun id hash node => new id hash node ∨ new' id hash node) r r'' := by
  refine ⟨h.routes.trans h'.routes, fun id hash node => ?_, ?_⟩
  · rw [h'.installed, h.installed, or_assoc]
  · rw [h'.egress, h.egress, FirstCome.offer_offer]
    congr 1
    ext key
    simp only [Set.mem_union, Set.mem_ofPred_eq, ← Bool.not_eq_true, h.installed]
    constructor
    · rintro (⟨node, hnode, hout⟩ | ⟨node, hnode, hout⟩)
      · exact ⟨node, .inl hnode, hout⟩
      · exact ⟨node, .inr hnode, fun hin => hout (.inl hin)⟩
    · rintro ⟨node, hnode | hnode, hout⟩
      · exact .inl ⟨node, hnode, hout⟩
      · by_cases hfirst : new key.2 key.1 node
        · exact .inl ⟨node, hfirst, hout⟩
        · exact .inr ⟨node, hnode, fun hin => hin.elim hout hfirst⟩

theorem Installs.congr (h : Installs new r r')
    (hnew : ∀ id hash node, new id hash node ↔ new' id hash node) : Installs new' r r' := by
  obtain rfl : new = new' :=
    funext fun id => funext fun hash => funext fun node => propext (hnew id hash node)
  exact h

theorem JoinsSet.installed_iff (h : JoinsSet q hash node best key r r') (id : PeerSessionId)
    (hash' : UInt64) (node' : NodeIdValueType) :
    r'.installed id hash' node' = true ↔
      r.installed id hash' node' = true ∨ (id = best ∧ hash' = hash ∧ node' = node) := by
  by_cases hsame : id = best ∧ hash' = hash
  · obtain ⟨rfl, rfl⟩ := hsame
    obtain ⟨snsId, hset, -⟩ := h.joined
    simp only [installed, hset, Option.any_some, ExtTreeSet.contains_insert_iff]
    cases r.nodeSetAt id hash' with
    | none => simp
    | some sns =>
      simp only [Option.getD_some, Option.any_some, true_and]
      exact or_comm
  · rw [installed, h.other id hash' hsame, installed]
    simp only [← and_assoc, hsame, false_and, or_false]

theorem JoinsSet.egress (h : JoinsSet q hash node best key r r') :
    r'.egress = FirstCome.offer r.egress
      {key' | key' = (hash, key) ∧ r.installed best hash node = false} fun _ => some best := by
  obtain ⟨snsId, -, -, -, hfib⟩ := h.joined
  have hin : ((r.nodeSetAt best hash).getD {}).nodes.contains node =
      r.installed best hash node := by
    rw [installed]
    cases r.nodeSetAt best hash with
    | none => simp
    | some sns => rfl
  rw [hin] at hfib
  cases hinstalled : r.installed best hash node with
  | true =>
    rw [FirstCome.offer_eq_self (by simp)]
    funext key'
    rw [Relay.egress, hfib, hinstalled, if_pos rfl, Relay.egress]
  | false =>
    rw [hinstalled, if_neg (by simp)] at hfib
    have hget : ∀ key', r'.egress key' = if key' = (hash, key) then
        some ((r.egress key').getD (some best)) else r.egress key' := by
      intro key'
      rw [Relay.egress, hfib, ExtTreeMap.getElem?_insertIfNew_getD]
      split
      · rename_i hkey
        rw [hkey, Relay.egress]
        cases r.infoBase.clientFib[(hash, key)]? <;> rfl
      · rfl
    refine FirstCome.eq_offer (fun key' x hx => ?_) (fun key' hnone hmem => ?_)
      fun key' hnone hmem => ?_
    · rw [hget, hx]
      split <;> rfl
    · rw [hget, hnone, if_pos hmem.1]
      rfl
    · rw [hget, if_neg fun hkey => hmem ⟨hkey, rfl⟩, hnone]

theorem JoinsSet.installs (h : JoinsSet q hash node best best r r') :
    Installs (fun id hash' node' => id = best ∧ hash' = hash ∧ node' = node) r r' := by
  refine ⟨h.routes, h.installed_iff, ?_⟩
  rw [h.egress]
  refine FirstCome.offer_congr (fun key => ?_) ?_
  · constructor
    · rintro ⟨rfl, hout⟩
      exact ⟨node, ⟨rfl, rfl, rfl⟩, hout⟩
    · rintro ⟨node', ⟨hid, hhash, rfl⟩, hout⟩
      rw [hid, hhash] at hout
      exact ⟨Prod.ext hhash hid, hout⟩
  · rintro key ⟨rfl, -⟩
    rfl

theorem LeavesSet.installed_iff (h : LeavesSet hash node best key r r') (id : PeerSessionId)
    (hash' : UInt64) (node' : NodeIdValueType) :
    r'.installed id hash' node' = true ↔
      r.installed id hash' node' = true ∧ ¬(id = best ∧ hash' = hash ∧ node' = node) := by
  by_cases hsame : id = best ∧ hash' = hash
  · obtain ⟨rfl, rfl⟩ := hsame
    rw [installed, h.left, installed]
    cases r.nodeSetAt id hash' with
    | none => simp
    | some sns =>
      simp only [Option.map_some, Option.filter_some, Option.any_some, true_and]
      constructor
      · intro hany
        split at hany
        · rw [Option.any_some, ExtTreeSet.contains_erase_iff] at hany
          exact ⟨hany.2, hany.1⟩
        · cases hany
      · rintro ⟨hin, hne⟩
        have herase : (sns.nodes.erase node).contains node' = true :=
          ExtTreeSet.contains_erase_iff.mpr ⟨hne, hin⟩
        rw [if_pos, Option.any_some]
        · exact herase
        · rw [Bool.not_eq_true', ExtTreeSet.isEmpty_eq_false_iff]
          rintro hempty
          rw [hempty] at herase
          simp at herase
  · rw [installed, h.other id hash' hsame, installed]
    simp only [← and_assoc, hsame, false_and, not_false_eq_true, and_true]

end Installs

/-! ### Publications -/

/-- The subscription of another relay meets a publication that is made. -/
def MeetsSubscription (q : Quicr) (r : Relay) (full : FullTrackName) (si : SubscribeInfo) : Prop :=
  ∃ msg, q.parseSubscribe si.subscribeData = some msg ∧
    q.hasSamePrefix full.nameSpace msg.trackNamespace = true ∧ si.sourceNodeId ≠ r.nodeId ∧
    msg.parameters.subscriberPriority.isSome = true

/-- Where a publication installs a subscription. -/
def InstallsFor (q : Quicr) (r : Relay) (full : FullTrackName) (si : SubscribeInfo)
    (id : PeerSessionId) (hash : UInt64) (node : NodeIdValueType) : Prop :=
  MeetsSubscription q r full si ∧ r.bestSession node = some id ∧
    hash = si.trackHash.trackFullnameHash ∧ node = si.sourceNodeId

section Announce

variable {q : Quicr}

theorem installs_matchSubscribe (full : FullTrackName) (r : Relay) (si : SubscribeInfo) :
    Installs (r.InstallsFor q full si) r (r.matchSubscribe q full si) := by
  unfold matchSubscribe
  split
  · rename_i hparse
    refine .of_keeps (.refl r) ?_
    rintro id hash node ⟨⟨msg, hmsg, -⟩, -⟩
    rw [hparse] at hmsg
    cases hmsg
  · rename_i msg hparse
    have hmsg : ∀ {msg'}, q.parseSubscribe si.subscribeData = some msg' → msg' = msg := by
      intro msg' hmsg'
      rw [hparse] at hmsg'
      exact (Option.some.inj hmsg').symm
    split
    · rename_i hprefix
      refine .of_keeps (.refl r) ?_
      rintro id hash node ⟨⟨msg', hmsg', hsame, -⟩, -⟩
      rw [hmsg hmsg'] at hsame
      simp [hsame] at hprefix
    · rename_i hprefix
      split
      · rename_i hown
        refine .of_keeps (.refl r) ?_
        rintro id hash node ⟨⟨msg', -, -, hother, -⟩, -⟩
        exact hother hown
      · rename_i hother
        dsimp only
        have hkeeps := keepsForwarding_processSubscribe q r si.trackHash
          ⟨msg.trackNamespace, msg.trackName⟩
          { priority := 10, newGroupRequestId := msg.parameters.newGroupRequest.map fun _ => 1 }
        split
        · rename_i hpriority
          refine .of_keeps hkeeps ?_
          rintro id hash node ⟨⟨msg', hmsg', -, -, hsome⟩, -⟩
          rw [hmsg hmsg', hpriority] at hsome
          cases hsome
        · rename_i priority hpriority
          have hmeets : MeetsSubscription q r full si :=
            ⟨msg, hparse, by simpa using hprefix, hother, by simp [hpriority]⟩
          cases hbest : r.bestSession si.sourceNodeId with
          | none =>
            rw [forwardToNode_of_none q ((hkeeps.keepsRoutes.bestSession _).trans hbest)]
            refine .of_keeps hkeeps ?_
            rintro id hash node ⟨-, hid, -, rfl⟩
            rw [hbest] at hid
            cases hid
          | some best =>
            have hjoins := joins_forwardToNode q ((hkeeps.keepsRoutes.bestSession _).trans hbest)
              si.trackHash.trackFullnameHash id
            refine ((JoinsSet.of_keeps hkeeps hjoins).installs).congr fun id hash node => ?_
            constructor
            · rintro ⟨rfl, rfl, rfl⟩
              exact ⟨hmeets, hbest, rfl, rfl⟩
            · rintro ⟨-, hid, rfl, rfl⟩
              rw [hbest] at hid
              exact ⟨(Option.some.inj hid).symm, rfl, rfl⟩

/-- Where a publication installs the subscriptions that the relay has. -/
def InstallsAll (q : Quicr) (r : Relay) (full : FullTrackName) (id : PeerSessionId)
    (hash : UInt64) (node : NodeIdValueType) : Prop :=
  ∃ hash' node' si, r.infoBase.subscribes.get₂? hash' node' = some si ∧ node' ≠ r.nodeId ∧
    r.InstallsFor q full si id hash node

theorem installsFor_congr {r r' : Relay} (h : KeepsRoutes r r') (full : FullTrackName)
    (si : SubscribeInfo) (id : PeerSessionId) (hash : UInt64) (node : NodeIdValueType) :
    r'.InstallsFor q full si id hash node ↔ r.InstallsFor q full si id hash node := by
  unfold InstallsFor MeetsSubscription
  rw [h.bestSession, h.nodeId]

theorem installs_clientAnnounce (full : FullTrackName) (publishNamespace : Bool) (r : Relay) :
    Installs (r.InstallsAll q full) r (r.clientAnnounce q full false publishNamespace) := by
  have hpass := keepsForwarding_passAnnounce q r (r.announceInfo q full publishNamespace)
    false fun _ => false
  have hsubs : ((r.updateAnnounces q (r.announceInfo q full publishNamespace)
      false).1.sendAnnounceInfos (fun _ => false) (r.announceInfo q full publishNamespace)
        false).infoBase.subscribes = r.infoBase.subscribes := rfl
  unfold clientAnnounce
  dsimp only
  rw [if_neg (by simp)]
  generalize r.announceInfo q full publishNamespace = info at hpass hsubs ⊢
  generalize (r.updateAnnounces q info false).1.sendAnnounceInfos (fun _ => false) info false =
    r₁ at hpass hsubs ⊢
  rw [hsubs]
  -- The routes that the loop reads are those of `r` in each of its rounds.
  have hloop : ∀ (entries : List ((UInt64 × NodeIdValueType) × SubscribeInfo)) r',
      KeepsRoutes r r' →
      Installs (fun id hash node => ∃ entry ∈ entries, entry.1.2 ≠ r.nodeId ∧
          r.InstallsFor q full entry.2 id hash node) r'
        (entries.foldl (fun r' entry => if entry.1.2 = r₁.nodeId then r'
          else r'.matchSubscribe q full entry.2) r') := by
    intro entries
    induction entries with
    | nil => exact fun r' _ => .of_keeps (.refl r') (by simp)
    | cons entry entries ih =>
      intro r' hr'
      rw [List.foldl_cons]
      have hstep : Installs (fun id hash node => entry.1.2 ≠ r.nodeId ∧
          r.InstallsFor q full entry.2 id hash node) r'
          (if entry.1.2 = r₁.nodeId then r' else r'.matchSubscribe q full entry.2) := by
        rw [hpass.nodeId]
        split
        · rename_i hown
          exact .of_keeps (.refl r') fun id hash node hnew => hnew.1 hown
        · rename_i hother
          refine (installs_matchSubscribe full r' entry.2).congr fun id hash node => ?_
          rw [installsFor_congr hr']
          exact (and_iff_right hother).symm
      refine (hstep.trans (ih _ (hr'.trans hstep.routes))).congr fun id hash node => ?_
      simp
  refine ((hloop _ r₁ hpass.keepsRoutes).after_keeps hpass).congr fun id hash node => ?_
  unfold InstallsAll
  simp [ExtTreeMap.mem_entries₂]

/-- What the clients did before does not matter. -/
theorem installs_clientAnnounce_of_onlyState {r r' : Relay} (h : OnlyState r r')
    (full : FullTrackName) (publishNamespace : Bool) :
    Installs (r.InstallsAll q full) r (r'.clientAnnounce q full false publishNamespace) := by
  refine .after_keeps h.keeps ((installs_clientAnnounce full publishNamespace r').congr ?_)
  obtain ⟨st, rfl⟩ := h
  exact fun id hash node => Iff.rfl

theorem installs_publishReceived (conn : ConnectionHandle) (req : RequestId)
    (full : FullTrackName) (r : Relay) :
    Installs (fun id hash node => ¬(conn = 0 ∧ req = 0) ∧ r.InstallsAll q full id hash node) r
      (r.publishReceived q conn req full) := by
  unfold publishReceived
  dsimp only
  refine .then_keeps ?_ (onlyState_mapState _ _).keeps
  have hhandler : OnlyState r (r.newHandler full true).2 := ⟨_, rfl⟩
  split
  · rename_i hpeer
    refine .of_keeps (hhandler.trans (onlyState_mapState _ _)).keeps fun id hash node hnew => ?_
    simp only [Bool.and_eq_true, decide_eq_true_eq] at hpeer
    exact hnew.1 hpeer
  · rename_i hclient
    refine (installs_clientAnnounce_of_onlyState ((hhandler.trans (onlyState_mapState _ _)).trans
      (onlyState_mapState _ _)) full false).congr fun id hash node => ?_
    simp only [Bool.and_eq_true, decide_eq_true_eq] at hclient
    exact (and_iff_right hclient).symm

theorem installs_publishNamespaceReceived (conn : ConnectionHandle) (nameSpace : TrackNamespace)
    (req : RequestId) (r : Relay) :
    Installs (fun id hash node =>
        (conn ≠ 0 ∧ r.state.pubNamespaceActive.contains (nameSpace, conn) = false) ∧
          r.InstallsAll q ⟨nameSpace, []⟩ id hash node) r
      (r.publishNamespaceReceived q conn nameSpace req) := by
  have hsubscribe : ∀ r : Relay, OnlyState r
      (r.state.subscribeActive.toList.foldl (subscribeToPublisher q nameSpace conn) r) :=
    fun r => foldl_related .refl .trans (onlyState_subscribeToPublisher q nameSpace conn) _ _
  have hrequest := onlyState_mapState r fun st =>
    { st with requests := st.requests.insert (conn, req) nameSpace }
  unfold publishNamespaceReceived
  dsimp only
  split
  · rename_i hactive
    have hnew : ∀ id hash node,
        ¬((conn ≠ 0 ∧ r.state.pubNamespaceActive.contains (nameSpace, conn) = false) ∧
          r.InstallsAll q ⟨nameSpace, []⟩ id hash node) := by
      rintro id hash node ⟨⟨-, hnot⟩, -⟩
      exact absurd (hactive.symm.trans hnot) (by simp)
    split
    · exact .of_keeps hrequest.keeps hnew
    · exact .of_keeps (hrequest.trans (hsubscribe _)).keeps hnew
  · rename_i hactive
    have hinsert := hrequest.trans (onlyState_mapState _ fun st =>
      { st with pubNamespaceActive := st.pubNamespaceActive.insertIfNew (nameSpace, conn) ∅ })
    split
    · rename_i hzero
      exact .of_keeps hinsert.keeps fun id hash node hnew => hnew.1.1 hzero
    · rename_i hconn
      refine (installs_clientAnnounce_of_onlyState (hinsert.trans (hsubscribe _)) _ true).congr
        fun id hash node => ?_
      exact (and_iff_right ⟨hconn, Bool.not_eq_true _ |>.mp hactive⟩).symm

end Announce

/-! ### Runs -/

/-- The publication that a call makes. -/
def announcedBy (r : Relay) : FibCall → Option FullTrackName
  | .announce full withdraw _ => if withdraw then none else some full
  | .publish conn req full => if conn = 0 && req = 0 then none else some full
  | .publishNamespace conn nameSpace _ =>
    if conn = 0 || r.state.pubNamespaceActive.contains (nameSpace, conn) then none
    else some ⟨nameSpace, []⟩
  | _ => none

/-- The call installs the subscription of the node on the session. -/
def InstalledBy (q : Quicr) (r : Relay) (call : FibCall) (id : PeerSessionId) (hash : UInt64)
    (node : NodeIdValueType) : Prop :=
  match call with
  | .subscribeInfo ingress si withdraw =>
    withdraw = false ∧ r.live ingress = true ∧ MeetsPublication q r si ∧
      r.bestSession node = some id ∧ hash = si.trackHash.trackFullnameHash ∧ node = si.sourceNodeId
  | call => ∃ full, r.announcedBy call = some full ∧ r.InstallsAll q full id hash node

/-- The call withdraws the subscription of the node on the session. -/
def WithdrawnBy (r : Relay) (call : FibCall) (id : PeerSessionId) (hash : UInt64)
    (node : NodeIdValueType) : Prop :=
  match call with
  | .subscribeInfo ingress si withdraw =>
    withdraw = true ∧ r.live ingress = true ∧ r.bestSession node = some id ∧
      hash = si.trackHash.trackFullnameHash ∧ node = si.sourceNodeId
  | _ => False

section Runs

variable {q : Quicr} {r : Relay}

theorem InstalledBy.bestSession {call : FibCall} {id : PeerSessionId} {hash : UInt64}
    {node : NodeIdValueType} (h : r.InstalledBy q call id hash node) :
    r.bestSession node = some id := by
  have hannounced : (∃ full, r.announcedBy call = some full ∧ r.InstallsAll q full id hash node) →
      r.bestSession node = some id := by
    rintro ⟨full, -, hash', node', si, -, -, -, hbest, -⟩
    exact hbest
  cases call with
  | subscribeInfo ingress si withdraw => exact h.2.2.2.1
  | announce full withdraw publishNamespace => exact hannounced h
  | publish conn req full => exact hannounced h
  | publishNamespace conn nameSpace req => exact hannounced h
  | node ingress info withdraw => exact hannounced h
  | data createStream chunk => exact hannounced h
  | endSubgroup hash groupId subgroupId => exact hannounced h

theorem installed_subscribeInfoReceived (ingress : PeerSessionId) (si : SubscribeInfo)
    (withdraw : Bool) :
    KeepsRoutes r (r.subscribeInfoReceived q ingress si withdraw) ∧ ∀ id hash node,
      (r.subscribeInfoReceived q ingress si withdraw).installed id hash node = true ↔
        (r.installed id hash node = true ∧
          ¬r.WithdrawnBy (.subscribeInfo ingress si withdraw) id hash node) ∨
        r.InstalledBy q (.subscribeInfo ingress si withdraw) id hash node := by
  rcases subscribeInfoReceived_cases q r ingress si withdraw with ⟨hkeeps, hnot⟩ |
    ⟨best, hlive, hbest, ⟨rfl, hmeets, hjoin⟩ | ⟨rfl, hleave⟩⟩
  · refine ⟨hkeeps.keepsRoutes, fun id hash node => ?_⟩
    have hwithdrawn : ¬r.WithdrawnBy (.subscribeInfo ingress si withdraw) id hash node := by
      rintro ⟨hwithdraw, hlive, hbest, -, rfl⟩
      exact absurd ((hnot id hlive hbest).1.symm.trans hwithdraw) (by simp)
    have hinstalled : ¬r.InstalledBy q (.subscribeInfo ingress si withdraw) id hash node := by
      rintro ⟨-, hlive, hmeets, hbest, -, rfl⟩
      exact (hnot id hlive hbest).2 hmeets
    rw [hkeeps.installed]
    simp only [hwithdrawn, hinstalled, not_false_eq_true, and_true, or_false]
  · refine ⟨hjoin.routes, fun id hash node => ?_⟩
    rw [hjoin.installed_iff]
    have hwithdrawn : ¬r.WithdrawnBy (.subscribeInfo ingress si false) id hash node :=
      fun h => absurd h.1 (by simp)
    simp only [hwithdrawn, not_false_eq_true, and_true]
    refine or_congr_right ⟨?_, ?_⟩
    · rintro ⟨rfl, rfl, rfl⟩
      exact ⟨rfl, hlive, hmeets, hbest, rfl, rfl⟩
    · rintro ⟨-, -, -, hid, rfl, rfl⟩
      rw [hbest] at hid
      exact ⟨(Option.some.inj hid).symm, rfl, rfl⟩
  · refine ⟨hleave.routes, fun id hash node => ?_⟩
    rw [hleave.installed_iff]
    have hinstalled : ¬r.InstalledBy q (.subscribeInfo ingress si true) id hash node :=
      fun h => absurd h.1 (by simp)
    simp only [hinstalled, or_false]
    refine and_congr_right fun _ => not_congr ⟨?_, ?_⟩
    · rintro ⟨rfl, rfl, rfl⟩
      exact ⟨rfl, hlive, hbest, rfl, rfl⟩
    · rintro ⟨-, -, hid, rfl, rfl⟩
      rw [hbest] at hid
      exact ⟨(Option.some.inj hid).symm, rfl, rfl⟩

/-- One call: what it withdraws and what it installs. -/
theorem installed_fibCall (h : Routed r) (call : FibCall) :
    ∃ r', fibCall q r call = some r' ∧ Routed r' ∧ ∀ id hash node,
      r'.installed id hash node = true ↔
        (r.installed id hash node = true ∧ ¬r.WithdrawnBy call id hash node) ∨
          r.InstalledBy q call id hash node := by
  have hinstalls : ∀ {r' : Relay} {new : PeerSessionId → UInt64 → NodeIdValueType → Prop},
      Installs new r r' → Routed r' ∧ ∀ id hash node, r'.installed id hash node = true ↔
        (r.installed id hash node = true ∧ ¬False) ∨ new id hash node := by
    intro r' new hnew
    refine ⟨h.keeps hnew.routes, fun id hash node => ?_⟩
    rw [hnew.installed, not_false_eq_true, and_true]
  cases call with
  | subscribeInfo ingress si withdraw =>
    obtain ⟨hroutes, hinstalled⟩ := installed_subscribeInfoReceived ingress si withdraw
    exact ⟨_, rfl, h.keeps hroutes, hinstalled⟩
  | announce full withdraw publishNamespace =>
    refine ⟨_, rfl, hinstalls ?_⟩
    cases withdraw with
    | true =>
      refine .of_keeps (keepsForwarding_passAnnounce q r _ true fun _ => false) ?_
      rintro id hash node ⟨full', hfull, -⟩
      cases hfull
    | false =>
      refine (installs_clientAnnounce full publishNamespace r).congr fun id hash node => ?_
      simp [InstalledBy, announcedBy]
  | publish conn req full =>
    refine ⟨_, rfl, hinstalls ((installs_publishReceived conn req full r).congr ?_)⟩
    intro id hash node
    simp only [InstalledBy, announcedBy]
    by_cases hpeer : conn = 0 ∧ req = 0
    · simp [hpeer]
    · have hclient : (decide (conn = 0) && decide (req = 0)) = false := by
        simpa using hpeer
      simp [hpeer, hclient]
  | publishNamespace conn nameSpace req =>
    refine ⟨_, rfl, hinstalls ((installs_publishNamespaceReceived conn nameSpace req r).congr ?_)⟩
    intro id hash node
    simp only [InstalledBy, announcedBy]
    by_cases hconn : conn = 0
    · simp [hconn]
    · cases r.state.pubNamespaceActive.contains (nameSpace, conn) <;> simp [hconn]
  | node ingress info withdraw =>
    obtain ⟨r', hr', hrouted, htables⟩ := h.nodeReceived ingress info withdraw
    refine ⟨r', hr', hrouted, fun id hash node => ?_⟩
    rw [installed, nodeSetAt_of_keepsTables htables, installed]
    simp [WithdrawnBy, InstalledBy, announcedBy]
  | data createStream chunk =>
    refine ⟨_, rfl, h.keeps (keeps_setInfoBase rfl), fun id hash node => ?_⟩
    simp only [WithdrawnBy, InstalledBy, announcedBy]
    simp [installed, nodeSetAt, getPeerSession]
    rfl
  | endSubgroup hash groupId subgroupId =>
    refine ⟨_, rfl, h.keeps (keeps_setInfoBase rfl), fun id hash node => ?_⟩
    simp only [WithdrawnBy, InstalledBy, announcedBy]
    simp [installed, nodeSetAt, getPeerSession]
    rfl

/-- What the call installs is installed nowhere else; what it withdraws is installed nowhere but on
the best session. -/
structure CleanInstall (q : Quicr) (r : Relay) (call : FibCall) : Prop where
  installs : ∀ id hash node, r.InstalledBy q call id hash node → r.OnlyInstalledAt hash node id
  withdraws : ∀ ingress si, call = .subscribeInfo ingress si true →
    ∀ id, r.installed id si.trackHash.trackFullnameHash si.sourceNodeId = true →
      r.live ingress = true ∧ r.bestSession si.sourceNodeId = some id

/-- A subscription that the call withdraws is installed on no session. -/
def Withdrawn (r : Relay) (call : FibCall) : Prop :=
  ∀ ingress si, call = .subscribeInfo ingress si true →
    ∀ id, r.installed id si.trackHash.trackFullnameHash si.sourceNodeId = false

theorem not_withdrawnBy_of_installedBy {call : FibCall} {id id' : PeerSessionId}
    {hash hash' : UInt64} {node node' : NodeIdValueType} (h : r.InstalledBy q call id hash node) :
    ¬r.WithdrawnBy call id' hash' node' := by
  cases call with
  | subscribeInfo ingress si withdraw =>
    intro hwithdrawn
    exact absurd (h.1.symm.trans hwithdrawn.1) (by simp)
  | _ => exact False.elim

/-- One call, when no subscription is installed twice before it. -/
theorem installedOnce_fibCall (h : Routed r) (honce : r.InstalledOnce) (call : FibCall) :
    ∃ r', fibCall q r call = some r' ∧ Routed r' ∧
      (r'.InstalledOnce ∧ r'.Withdrawn call ↔ r.CleanInstall q call) := by
  obtain ⟨r', hr', hrouted, hinstalled⟩ := installed_fibCall (q := q) h call
  refine ⟨r', hr', hrouted, ?_, ?_⟩
  · rintro ⟨honce', hgone⟩
    refine ⟨fun id hash node hnew id' hid' => ?_, fun ingress si hcall id hid => ?_⟩
    · apply honce' hash node id' id
      · exact (hinstalled ..).mpr (.inl ⟨hid', not_withdrawnBy_of_installedBy hnew⟩)
      · exact (hinstalled ..).mpr (.inr hnew)
    · by_contra hnot
      have hstill : r'.installed id si.trackHash.trackFullnameHash si.sourceNodeId = true := by
        refine (hinstalled ..).mpr (.inl ⟨hid, ?_⟩)
        rw [hcall]
        rintro ⟨-, hlive, hbest, -⟩
        exact hnot ⟨hlive, hbest⟩
      rw [hgone ingress si hcall id] at hstill
      cases hstill
  · intro hclean
    constructor
    · intro hash node id id' hid hid'
      rcases (hinstalled ..).mp hid with ⟨hold, -⟩ | hnew
      · rcases (hinstalled ..).mp hid' with ⟨hold', -⟩ | hnew'
        · exact honce hash node id id' hold hold'
        · exact hclean.installs id' hash node hnew' id hold
      · rcases (hinstalled ..).mp hid' with ⟨hold', -⟩ | hnew'
        · exact (hclean.installs id hash node hnew id' hold').symm
        · exact Option.some.inj (hnew.bestSession.symm.trans hnew'.bestSession)
    · rintro ingress si rfl id
      rw [← Bool.not_eq_true, hinstalled]
      rintro (⟨hold, hnot⟩ | ⟨hwithdraw, -⟩)
      · obtain ⟨hlive, hbest⟩ := hclean.withdraws ingress si rfl id hold
        exact hnot ⟨rfl, hlive, hbest, rfl, rfl⟩
      · cases hwithdraw

/-- All calls of a run install and withdraw cleanly, in the states that they are made in. -/
def CleanInstalls (q : Quicr) (r : Relay) (calls : List FibCall) : Prop :=
  Runs.All (fibCall q) (CleanInstall q) r calls

end Runs

/-- In every state of a run each subscription is installed on at most one session, and on none after
its withdrawal, if and only if the calls install and withdraw cleanly. -/
theorem installedOnce_iff_cleanInstalls (q : Quicr) (r : Relay) (hfresh : FreshFib r)
    (calls : List FibCall) :
    (∀ before, before <+: calls → ∃ r', fibCalls q r before = some r' ∧ r'.InstalledOnce ∧
      ∀ call, before.getLast? = some call → r'.Withdrawn call) ↔ CleanInstalls q r calls := by
  have hstart : Routed r ∧ r.InstalledOnce := by
    refine ⟨hfresh.toRouted, fun hash node id id' hid => ?_⟩
    rw [installed, hfresh.subSns] at hid
    cases hid
  have hstep : ∀ r call, Routed r ∧ r.InstalledOnce → r.CleanInstall q call →
      ∃ r', fibCall q r call = some r' ∧ Routed r' ∧ r'.InstalledOnce := by
    rintro r call ⟨hrouted, honce⟩ hclean
    obtain ⟨r', hr', hrouted', hiff⟩ := installedOnce_fibCall (q := q) hrouted honce call
    exact ⟨r', hr', hrouted', (hiff.mpr hclean).1⟩
  have hgood : ∀ r call, Routed r ∧ r.InstalledOnce →
      ((∃ r', fibCall q r call = some r' ∧ r'.InstalledOnce ∧ r'.Withdrawn call) ↔
        r.CleanInstall q call) := by
    rintro r call ⟨hrouted, honce⟩
    obtain ⟨r', hr', -, hiff⟩ := installedOnce_fibCall (q := q) hrouted honce call
    rw [← hiff, hr']
    simp
  unfold CleanInstalls
  rw [← Runs.all_iff hstep hgood hstart]
  constructor
  · intro hall before call hprefix r' hr'
    obtain ⟨r'', hr'', honce, hgone⟩ := hall _ hprefix
    rw [fibCalls, Runs.foldlM_concat hr'] at hr''
    exact ⟨r'', hr'', honce, hgone call (by simp)⟩
  · intro hall before hprefix
    have hclean := (Runs.all_iff hstep hgood hstart).mp hall
    obtain ⟨r', hr', -, honce⟩ := (hclean.of_prefix hprefix).inv hstep hstart
    refine ⟨r', hr', honce, fun call hlast => ?_⟩
    obtain ⟨earlier, rfl⟩ := List.getLast?_eq_some_iff.mp hlast
    obtain ⟨r₁, hr₁, -⟩ := (hclean.of_prefix ((List.prefix_append _ _).trans hprefix)).inv
      hstep hstart
    obtain ⟨r₂, hr₂, -, hgone⟩ := hall earlier call hprefix r₁ hr₁
    rw [Runs.foldlM_concat hr₁, hr₂] at hr'
    cases hr'
    exact hgone

/-- The sessions that a subscription is installed on. -/
def installedOn (r : Relay) (hash : UInt64) (node : NodeIdValueType) : List PeerSessionId :=
  (r.clientPeerSessions.keys ++ r.serverPeerSessions.keys).filter fun id => r.installed id hash node

theorem mem_installedOn {r : Relay} {id : PeerSessionId} {hash : UInt64} {node : NodeIdValueType} :
    id ∈ r.installedOn hash node ↔ r.installed id hash node = true := by
  rw [installedOn, List.mem_filter, and_iff_right_iff_imp]
  intro hid
  rw [List.mem_append, ExtTreeMap.mem_keys, ExtTreeMap.mem_keys]
  by_contra hnot
  rw [not_or] at hnot
  have hnone : r.getPeerSession id = none := by
    rw [getPeerSession, ExtTreeMap.getElem?_eq_none hnot.1, ExtTreeMap.getElem?_eq_none hnot.2]
  simp [installed, nodeSetAt, hnone] at hid

/-- Node 4 subscribes to a track of a namespace that a client publishes. -/
def subscriptionOfFour : SubscribeInfo where
  sourceNodeId := 4
  trackHash := Quicr.numbered.trackHash ⟨[[1]], [2]⟩
  subscribeData := Quicr.numbered.serializeSubscribe
    ⟨1, [[1]], [2], { subscriberPriority := some 1 }⟩

/-- The subscription is installed on the session that leads to node 4. -/
def installOnSeven : List FibCall :=
  [.node 7 { id := 4 } false, .publishNamespace 5 [[1]] 1,
    .subscribeInfo 7 subscriptionOfFour false]

theorem cleanInstalls_installOnSeven :
    CleanInstalls Quicr.numbered newSessions
      (installOnSeven ++ [.subscribeInfo 8 subscriptionOfFour true]) := by
  refine Runs.all_of_take fun k call hcall r' hr' => ?_
  have hlt : k < 4 := (List.getElem?_eq_some_iff.mp hcall).1
  obtain rfl | rfl | rfl | rfl : k = 0 ∨ k = 1 ∨ k = 2 ∨ k = 3 := by omega
  · cases hcall
    refine ⟨?_, fun ingress si hcall => by cases hcall⟩
    rintro id hash node ⟨full, hfull, -⟩
    cases hfull
  · cases hcall
    refine ⟨?_, fun ingress si hcall => by cases hcall⟩
    rintro id hash node ⟨full, -, hash', node', si, hget, -⟩
    have hnone : ((installOnSeven.take 1).foldlM (fibCall Quicr.numbered) newSessions).map
        (fun r => r.infoBase.subscribes.isEmpty) = some true := by
      decide +kernel
    have hr' : (installOnSeven.take 1).foldlM (fibCall Quicr.numbered) newSessions = some r' := hr'
    rw [hr', Option.map_some, Option.some.injEq, ExtTreeMap.isEmpty_iff] at hnone
    simp [hnone, ExtTreeMap.get₂?] at hget
  · cases hcall
    refine ⟨?_, fun ingress si hcall => by cases hcall⟩
    rintro id hash node ⟨-, -, -, -, rfl, rfl⟩ id' hid'
    have hnone : ((installOnSeven.take 2).foldlM (fibCall Quicr.numbered) newSessions).map
        (fun r => r.installedOn subscriptionOfFour.trackHash.trackFullnameHash 4) = some [] := by
      decide +kernel
    have hr' : (installOnSeven.take 2).foldlM (fibCall Quicr.numbered) newSessions = some r' := hr'
    rw [hr', Option.map_some, Option.some.injEq] at hnone
    have hid' := mem_installedOn.mpr hid'
    exact absurd (hnone ▸ hid') List.not_mem_nil
  · cases hcall
    refine ⟨?_, ?_⟩
    · rintro id hash node ⟨hwithdraw, -⟩
      cases hwithdraw
    · rintro ingress si hcall id hid
      cases hcall
      have hseven : (installOnSeven.foldlM (fibCall Quicr.numbered) newSessions).map (fun r =>
          (r.installedOn subscriptionOfFour.trackHash.trackFullnameHash 4, r.live 8,
            r.bestSession 4)) = some ([7], true, some 7) := by
        decide +kernel
      have hr' : installOnSeven.foldlM (fibCall Quicr.numbered) newSessions = some r' := hr'
      rw [hr', Option.map_some, Option.some.injEq, Prod.mk.injEq, Prod.mk.injEq] at hseven
      obtain ⟨hon, hlive, hbest⟩ := hseven
      have hid := mem_installedOn.mpr hid
      have hid : id ∈ [7] := hon ▸ hid
      rw [List.mem_singleton] at hid
      exact ⟨hlive, hid ▸ hbest⟩

/-- The subscription goes from the session that it was installed on. -/
theorem installedOnce_installOnSeven :
    FreshFib newSessions ∧ ∃ r', fibCalls Quicr.numbered newSessions
      (installOnSeven ++ [.subscribeInfo 8 subscriptionOfFour true]) = some r' ∧
      r'.InstalledOnce ∧
      ∀ id, r'.installed id subscriptionOfFour.trackHash.trackFullnameHash 4 = false := by
  refine ⟨freshFib_newSessions, ?_⟩
  obtain ⟨r', hr', honce, hgone⟩ := (installedOnce_iff_cleanInstalls Quicr.numbered newSessions
    freshFib_newSessions _).mpr cleanInstalls_installOnSeven _ List.prefix_rfl
  exact ⟨r', hr', honce, hgone _ (by simp) 8 subscriptionOfFour rfl⟩

/-- The best session to node 4 changes before the withdrawal: the subscription stays where it was
installed. -/
theorem not_withdrawn_after_change :
    ¬∀ (q : Quicr) (r : Relay), FreshFib r → ∀ before call r',
      fibCalls q r (before ++ [call]) = some r' → r'.Withdrawn call := by
  intro hall
  have hstays : (fibCalls Quicr.numbered newSessions ((installOnSeven ++
      [.node 8 { id := 4 } false, .node 7 { id := 4 } true]) ++
        [.subscribeInfo 8 subscriptionOfFour true])).map (fun r =>
      r.installed 7 subscriptionOfFour.trackHash.trackFullnameHash 4) = some true := by
    decide +kernel
  obtain ⟨r', hr', hinstalled⟩ := Option.map_eq_some_iff.mp hstays
  have hgone := hall _ _ freshFib_newSessions _ _ r' hr' 8 subscriptionOfFour rfl 7
  exact absurd (hinstalled.symm.trans hgone) (by simp)

end Laps.Relay
