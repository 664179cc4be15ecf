import Laps.Relay.Frame
import Laps.Peering.Subscribes

/-! The numbers of the subscribe messages at the relay that the subscription is at: what each call
sends, and when the numbers advance. -/

namespace Laps.Relay

open Std Client Peering

/-! ### The sessions in the order of the loops -/

/-- A session that the relay has opened or one that it has accepted. -/
abbrev Slot := PeerSessionId ⊕ PeerSessionId

def sessionAt (r : Relay) : Slot → Option PeerSession
  | .inl id => r.clientPeerSessions[id]?
  | .inr id => r.serverPeerSessions[id]?

/-- The subscribe messages that were sent over a session. -/
def subscribesOn (r : Relay) (slot : Slot) : List (SubscribeInfo × Bool) :=
  ((r.sessionAt slot).map PeerSession.subscribesSent).getD []

def isConnected (entry : PeerSessionId × PeerSession) : Bool := entry.2.status = .connected

/-- The connected sessions, those that the relay has opened first. -/
def connectedSlots (r : Relay) : List Slot :=
  ((r.clientPeerSessions.toList.filter isConnected).map Prod.fst).map .inl ++
    ((r.serverPeerSessions.toList.filter isConnected).map Prod.fst).map .inr

/-! ### One message for all sessions -/

theorem serialize_true (si : SubscribeInfo) : si.serialize true = { si with seq := si.seq + 1 } := by
  have hseq : (if si.seq < 0xFFFF then si.seq + 1 else 0) = si.seq + 1 := by
    split
    · rfl
    · rename_i hlast
      have hnat : si.seq.toNat = 65535 := by
        have hle := UInt16.not_lt.mp hlast
        rw [UInt16.le_iff_toNat_le] at hle
        have hlt := si.seq.toNat_lt
        simp at hle
        omega
      apply UInt16.toNat_inj.mp
      simp [hnat]
  simp only [SubscribeInfo.serialize, if_true, hseq]

/-- The message after it was sent over `n` sessions. -/
def numbered (si : SubscribeInfo) (n : ℕ) : SubscribeInfo :=
  { si with seq := si.seq + UInt16.ofNat n }

theorem numbered_zero (si : SubscribeInfo) : numbered si 0 = si := by
  simp [numbered]

theorem numbered_numbered (si : SubscribeInfo) (m n : ℕ) :
    numbered (numbered si m) n = numbered si (m + n) := by
  simp [numbered, UInt16.ofNat_add, UInt16.add_assoc]

theorem sendSubscribeInfo_own {session : PeerSession} (hconnected : session.status = .connected)
    {si : SubscribeInfo} (hown : session.nodeId = si.sourceNodeId) (withdraw : Bool) :
    session.sendSubscribeInfo si withdraw =
      (session.enqueue (.subscribeInfo (numbered si 1) withdraw), numbered si 1) := by
  have hserialize : si.serialize true = numbered si 1 := serialize_true si
  rw [PeerSession.sendSubscribeInfo, if_neg (not_not.mpr hconnected)]
  simp only [hown, decide_true, hserialize]

/-- The loop over a map of sessions. -/
theorem foldl_sendSubscribeInfosTo_own (withdraw : Bool)
    (entries : List (PeerSessionId × PeerSession))
    (hdistinct : entries.Pairwise fun a b => a.1 ≠ b.1)
    (acc : ExtTreeMap PeerSessionId PeerSession × SubscribeInfo)
    (hown : ∀ entry ∈ entries, entry.2.nodeId = acc.2.sourceNodeId) :
    (entries.foldl (sendSubscribeInfosTo (fun _ => false) withdraw) acc).2 =
      numbered acc.2 (entries.filter isConnected).length ∧
    (∀ id : PeerSessionId, (∀ entry ∈ entries, entry.1 ≠ id) →
      (entries.foldl (sendSubscribeInfosTo (fun _ => false) withdraw) acc).1[id]? = acc.1[id]?) ∧
    (∀ entry ∈ entries, isConnected entry = false →
      (entries.foldl (sendSubscribeInfosTo (fun _ => false) withdraw) acc).1[entry.1]? =
        some entry.2) ∧
    ∀ (i : ℕ) (entry : PeerSessionId × PeerSession),
      (entries.filter isConnected)[i]? = some entry →
      (entries.foldl (sendSubscribeInfosTo (fun _ => false) withdraw) acc).1[entry.1]? =
        some (entry.2.enqueue (.subscribeInfo (numbered acc.2 (i + 1)) withdraw)) := by
  induction entries generalizing acc with
  | nil => simp [numbered_zero]
  | cons first rest ih =>
    obtain ⟨hfresh, hdistinct⟩ := List.pairwise_cons.mp hdistinct
    have hrest := fun entry hentry => hown entry (List.mem_cons_of_mem _ hentry)
    rw [List.foldl_cons]
    cases hconnected : isConnected first with
    | true =>
      have hstatus : first.2.status = .connected := of_decide_eq_true hconnected
      have hstep : sendSubscribeInfosTo (fun _ => false) withdraw acc first =
          (acc.1.insert first.1 (first.2.enqueue
            (.subscribeInfo (numbered acc.2 1) withdraw)), numbered acc.2 1) := by
        simp [sendSubscribeInfosTo,
          sendSubscribeInfo_own hstatus (hown first List.mem_cons_self) withdraw]
      have hadd : ∀ n, numbered (numbered acc.2 1) n = numbered acc.2 (n + 1) := by
        intro n
        rw [numbered_numbered, Nat.add_comm]
      rw [hstep]
      obtain ⟨hlast, hsame, hidle, hsent⟩ := ih hdistinct (acc.1.insert first.1 (first.2.enqueue
        (.subscribeInfo (numbered acc.2 1) withdraw)), numbered acc.2 1) hrest
      refine ⟨?_, fun id hid => ?_, fun entry hentry hoff => ?_, fun i entry hi => ?_⟩
      · rw [hlast, hadd]
        simp [hconnected]
      · rw [hsame id fun entry hentry => hid entry (List.mem_cons_of_mem _ hentry),
          ExtTreeMap.getElem?_insert_ite, if_neg (hid first List.mem_cons_self).symm]
      · rcases List.mem_cons.mp hentry with rfl | hentry
        · rw [hconnected] at hoff
          cases hoff
        · exact hidle entry hentry hoff
      · rw [List.filter_cons_of_pos hconnected] at hi
        cases i with
        | zero =>
          cases hi
          rw [hsame first.1 fun entry hentry => (hfresh entry hentry).symm,
            ExtTreeMap.getElem?_insert_self]
        | succ i =>
          rw [hsent i entry hi, hadd]
    | false =>
      have hstep : sendSubscribeInfosTo (fun _ => false) withdraw acc first =
          (acc.1.insert first.1 first.2, acc.2) := by
        have hstatus : first.2.status ≠ .connected := of_decide_eq_false hconnected
        simp [sendSubscribeInfosTo, PeerSession.sendSubscribeInfo, hstatus]
      obtain ⟨hlast, hsame, hidle, hsent⟩ := ih hdistinct (acc.1.insert first.1 first.2, acc.2) hrest
      rw [hstep]
      refine ⟨?_, fun id hid => ?_, fun entry hentry hoff => ?_, fun i entry hi => ?_⟩
      · rw [hlast]
        simp [hconnected]
      · rw [hsame id fun entry hentry => hid entry (List.mem_cons_of_mem _ hentry),
          ExtTreeMap.getElem?_insert_ite, if_neg (hid first List.mem_cons_self).symm]
      · rcases List.mem_cons.mp hentry with rfl | hentry
        · rw [hsame entry.1 fun e he => (hfresh e he).symm, ExtTreeMap.getElem?_insert_self]
        · exact hidle entry hentry hoff
      · rw [List.filter_cons_of_neg (by simp [hconnected])] at hi
        exact hsent i entry hi

/-- What the sending does to a map of sessions. -/
structure SentOver (m m' : ExtTreeMap PeerSessionId PeerSession) (si : SubscribeInfo)
    (withdraw : Bool) : Prop where
  connected : ∀ (i : ℕ) (entry : PeerSessionId × PeerSession),
    (m.toList.filter isConnected)[i]? = some entry →
      m[entry.1]? = some entry.2 ∧ m'[entry.1]? =
        some (entry.2.enqueue (.subscribeInfo (numbered si (i + 1)) withdraw))
  other : ∀ id : PeerSessionId, (∀ session, m[id]? = some session →
    session.status ≠ .connected) → m'[id]? = m[id]?

theorem sentOver_foldl (m : ExtTreeMap PeerSessionId PeerSession) (si : SubscribeInfo)
    (withdraw : Bool)
    (hown : ∀ (id : PeerSessionId) (session : PeerSession), m[id]? = some session →
      session.nodeId = si.sourceNodeId) :
    (m.toList.foldl (sendSubscribeInfosTo (fun _ => false) withdraw) (m, si)).2 =
      numbered si (m.toList.filter isConnected).length ∧
    SentOver m (m.toList.foldl (sendSubscribeInfosTo (fun _ => false) withdraw) (m, si)).1 si
      withdraw := by
  have hget : ∀ entry ∈ m.toList, m[entry.1]? = some entry.2 := fun _ hentry =>
    ExtTreeMap.mem_toList_iff_getElem?_eq_some.mp hentry
  obtain ⟨hlast, hsame, hidle, hsent⟩ := foldl_sendSubscribeInfosTo_own withdraw m.toList
    ExtTreeMap.pairwise_toList_ne (m, si) fun entry hentry => hown _ _ (hget entry hentry)
  refine ⟨hlast, fun i entry hi => ⟨?_, hsent i entry hi⟩, fun id hid => ?_⟩
  · exact hget entry (List.mem_of_mem_filter (List.mem_of_getElem? hi))
  · cases hm : m[id]? with
    | none =>
      refine (hsame id fun entry hentry heq => ?_).trans hm
      rw [← heq, hget entry hentry] at hm
      cases hm
    | some session =>
      exact hidle (id, session) (ExtTreeMap.mem_toList_iff_getElem?_eq_some.mpr hm)
        (decide_eq_false (hid session hm))

/-- What sending a subscription of the relay over all its sessions does. -/
structure SentToAll (r r' : Relay) (si : SubscribeInfo) (withdraw : Bool) : Prop where
  nodeId : r'.nodeId = r.nodeId
  infoBase : r'.infoBase = r.infoBase
  slots : r'.connectedSlots = r.connectedSlots
  own : r'.OwnSessions
  /-- The sessions get the numbers one after the other. -/
  sent : ∀ (i : ℕ) (slot : Slot), r.connectedSlots[i]? = some slot →
    r'.subscribesOn slot = r.subscribesOn slot ++ [(numbered si (i + 1), withdraw)]
  other : ∀ slot, slot ∉ r.connectedSlots → r'.subscribesOn slot = r.subscribesOn slot

theorem subscribesSent_enqueue (session : PeerSession) (si : SubscribeInfo) (withdraw : Bool) :
    (session.enqueue (.subscribeInfo si withdraw)).subscribesSent =
      session.subscribesSent ++ [(si, withdraw)] := by
  simp [PeerSession.subscribesSent, PeerSession.enqueue, ControlMessage.subscribeInfo?]

/-- The connected sessions of a map depend on the status of each only. -/
theorem filter_isConnected_congr {m m' : ExtTreeMap PeerSessionId PeerSession}
    (h : ∀ id : PeerSessionId, m'[id]?.map PeerSession.status = m[id]?.map PeerSession.status) :
    (m'.toList.filter isConnected).map Prod.fst = (m.toList.filter isConnected).map Prod.fst := by
  have hmap : m'.map (fun _ => PeerSession.status) = m.map fun _ => PeerSession.status := by
    apply ExtTreeMap.ext_getElem?
    intro id
    rw [ExtTreeMap.getElem?_map, ExtTreeMap.getElem?_map]
    exact h id
  have hlist : ∀ m : ExtTreeMap PeerSessionId PeerSession,
      (m.toList.filter isConnected).map Prod.fst =
        ((m.map fun _ => PeerSession.status).toList.filter
          fun entry => entry.2 = .connected).map Prod.fst := by
    intro m
    rw [ExtTreeMap.toList_map, List.filter_map, List.map_map]
    rfl
  rw [hlist, hlist, hmap]

theorem mem_filter_isConnected {m : ExtTreeMap PeerSessionId PeerSession} {id : PeerSessionId}
    {session : PeerSession} (hget : m[id]? = some session) (hstatus : session.status = .connected) :
    (id, session) ∈ m.toList.filter isConnected :=
  List.mem_filter.mpr ⟨ExtTreeMap.mem_toList_iff_getElem?_eq_some.mpr hget, decide_eq_true hstatus⟩

theorem sentToAll_sendSubscribeInfos {r : Relay} (hown : r.OwnSessions) {si : SubscribeInfo}
    (hsource : si.sourceNodeId = r.nodeId) (withdraw : Bool) :
    SentToAll r (r.sendSubscribeInfos (fun _ => false) si withdraw) si withdraw := by
  have hkeeps : Keeps (fun ib => ib) (sentView fun _ => (none : Option Unit)) r
      (r.sendSubscribeInfos (fun _ => false) si withdraw) := by
    apply keeps_sendSubscribeInfos
    intro session info withdraw
    unfold PeerSession.sendSubscribeInfo
    split
    · rfl
    · simp [sentView, PeerSession.enqueue]
  obtain ⟨hlast, hclient⟩ := sentOver_foldl r.clientPeerSessions si withdraw
    fun id session hget => (hown.client id session hget).trans hsource.symm
  obtain ⟨-, hserver⟩ := sentOver_foldl r.serverPeerSessions
    (numbered si (r.clientPeerSessions.toList.filter isConnected).length) withdraw
    fun id session hget => (hown.server id session hget).trans hsource.symm
  have hservers : (r.sendSubscribeInfos (fun _ => false) si withdraw).serverPeerSessions =
      (r.serverPeerSessions.toList.foldl (sendSubscribeInfosTo (fun _ => false) withdraw)
        (r.serverPeerSessions,
          numbered si (r.clientPeerSessions.toList.filter isConnected).length)).1 := by
    rw [← hlast]
    rfl
  rw [← hservers] at hserver
  have hslot : ∀ {m m' : ExtTreeMap PeerSessionId PeerSession} {info : SubscribeInfo} {i : ℕ}
      {id : PeerSessionId}, SentOver m m' info withdraw →
      ((m.toList.filter isConnected).map Prod.fst)[i]? = some id →
      (m'[id]?.map PeerSession.subscribesSent).getD [] =
        (m[id]?.map PeerSession.subscribesSent).getD [] ++ [(numbered info (i + 1), withdraw)] := by
    intro m m' info i id hover hi
    rw [List.getElem?_map, Option.map_eq_some_iff] at hi
    obtain ⟨entry, hentry, rfl⟩ := hi
    obtain ⟨hget, hget'⟩ := hover.connected i entry hentry
    rw [hget, hget']
    exact subscribesSent_enqueue entry.2 _ withdraw
  refine ⟨rfl, rfl, ?_, hkeeps.ownSessions hown, ?_, ?_⟩
  · have hstatus : ∀ {m m' : ExtTreeMap PeerSessionId PeerSession} {id : PeerSessionId},
        m'[id]?.map (sentView fun _ => (none : Option Unit)) = m[id]?.map (sentView fun _ => none) →
        m'[id]?.map PeerSession.status = m[id]?.map PeerSession.status := by
      intro m m' id hview
      have hfst := congrArg (Option.map Prod.fst) hview
      rwa [Option.map_map, Option.map_map] at hfst
    rw [connectedSlots, connectedSlots,
      filter_isConnected_congr fun id => hstatus (hkeeps.client id),
      filter_isConnected_congr fun id => hstatus (hkeeps.server id)]
  · intro i slot hi
    unfold connectedSlots at hi
    rw [List.getElem?_append] at hi
    split at hi
    · rw [List.getElem?_map, Option.map_eq_some_iff] at hi
      obtain ⟨id, hid, rfl⟩ := hi
      exact hslot hclient hid
    · rename_i hlength
      rw [List.length_map, List.length_map] at hi hlength
      rw [List.getElem?_map, Option.map_eq_some_iff] at hi
      obtain ⟨id, hid, rfl⟩ := hi
      have hsent := hslot hserver hid
      rw [numbered_numbered] at hsent
      have hnumber : (r.clientPeerSessions.toList.filter isConnected).length +
          (i - (r.clientPeerSessions.toList.filter isConnected).length + 1) = i + 1 := by omega
      rw [hnumber] at hsent
      exact hsent
  · rintro (id | id) hnot
    · refine congrArg (fun session => (Option.map PeerSession.subscribesSent session).getD [])
        (hclient.other id fun session hget hstatus => hnot ?_)
      exact List.mem_append_left _ (List.mem_map_of_mem
        (List.mem_map_of_mem (mem_filter_isConnected hget hstatus)))
    · refine congrArg (fun session => (Option.map PeerSession.subscribesSent session).getD [])
        (hserver.other id fun session hget hstatus => hnot ?_)
      exact List.mem_append_right _ (List.mem_map_of_mem
        (List.mem_map_of_mem (mem_filter_isConnected hget hstatus)))

/-! ### Runs of the calls -/

/-- A call of the client manager on a subscription of this relay's clients. -/
inductive OriginCall where
  | subscribe (full : FullTrackName) (subscribeData : List UInt8)
  | update (full : FullTrackName) (newGroupRequestId : Option UInt64)
  | unsubscribe (trackFullnameHash : UInt64)
  deriving DecidableEq, Repr

def originCall (q : Quicr) (r : Relay) : OriginCall → Relay
  | .subscribe full subscribeData => r.clientSubscribe q full subscribeData
  | .update full newGroupRequestId => r.clientSubscribeUpdate q full newGroupRequestId
  | .unsubscribe trackFullnameHash => r.clientUnsubscribe trackFullnameHash

def originCalls (q : Quicr) (r : Relay) (calls : List OriginCall) : Relay :=
  calls.foldl (originCall q) r

/-- The track that a call sends a message for, if it sends one. -/
def sendsFor (q : Quicr) (r : Relay) : OriginCall → Option UInt64
  | .subscribe full subscribeData =>
    if subscribeData.isEmpty then none else some (q.trackHash full).trackFullnameHash
  | .update full _ =>
    let hash := (q.trackHash full).trackFullnameHash
    ((r.infoBase.subscribes.get₂? hash r.nodeId).bind fun si =>
      q.parseSubscribe si.subscribeData).map fun _ => hash
  | .unsubscribe hash => (r.infoBase.subscribes.get₂? hash r.nodeId).map fun _ => hash

/-- The tracks of the calls that send a message, one for each. -/
def tracksSent (q : Quicr) (r : Relay) : List OriginCall → List UInt64
  | [] => []
  | call :: calls => (sendsFor q r call).toList ++ tracksSent q (originCall q r call) calls

theorem tracksSent_append (q : Quicr) (r : Relay) (before after : List OriginCall) :
    tracksSent q r (before ++ after) =
      tracksSent q r before ++ tracksSent q (originCalls q r before) after := by
  induction before generalizing r with
  | nil => rfl
  | cons call before ih =>
    show (sendsFor q r call).toList ++ tracksSent q (originCall q r call) (before ++ after) = _
    rw [ih, ← List.append_assoc]
    rfl

/-- The subscriptions of the relay are stored with the number 0. -/
structure Origin (r : Relay) : Prop where
  own : r.OwnSessions
  stored : ∀ hash si, r.infoBase.subscribes.get₂? hash r.nodeId = some si →
    si.seq = 0 ∧ si.sourceNodeId = r.nodeId ∧ si.trackHash.trackFullnameHash = hash

theorem Origin.setInfoBase {r : Relay} (h : r.Origin) {ib : InfoBase}
    (hib : ∀ hash si, ib.subscribes.get₂? hash r.nodeId = some si →
      si.seq = 0 ∧ si.sourceNodeId = r.nodeId ∧ si.trackHash.trackFullnameHash = hash) :
    (r.setInfoBase ib).Origin :=
  ⟨⟨h.own.client, h.own.server⟩, hib⟩

/-- What of a message the numbers depend on. -/
def stamp (message : SubscribeInfo × Bool) : UInt64 × NodeIdValueType × UInt16 :=
  (message.1.trackHash.trackFullnameHash, message.1.sourceNodeId, message.1.seq)

/-- Messages for the tracks were sent, each with the place of the session as its number. -/
structure SentTracks (r r' : Relay) (tracks : List UInt64) : Prop where
  nodeId : r'.nodeId = r.nodeId
  origin : r'.Origin
  slots : r'.connectedSlots = r.connectedSlots
  sent : ∀ (i : ℕ) (slot : Slot), r.connectedSlots[i]? = some slot →
    ∃ messages, r'.subscribesOn slot = r.subscribesOn slot ++ messages ∧
      messages.map stamp = tracks.map fun hash => (hash, r.nodeId, UInt16.ofNat (i + 1))
  other : ∀ slot, slot ∉ r.connectedSlots → r'.subscribesOn slot = r.subscribesOn slot

theorem SentTracks.trans {r r' r'' : Relay} {tracks tracks' : List UInt64}
    (h : SentTracks r r' tracks) (h' : SentTracks r' r'' tracks') :
    SentTracks r r'' (tracks ++ tracks') where
  nodeId := h'.nodeId.trans h.nodeId
  origin := h'.origin
  slots := h'.slots.trans h.slots
  sent := by
    intro i slot hi
    obtain ⟨messages, hon, hstamp⟩ := h.sent i slot hi
    obtain ⟨messages', hon', hstamp'⟩ := h'.sent i slot (by rw [h.slots, hi])
    refine ⟨messages ++ messages', ?_, ?_⟩
    · rw [hon', hon, List.append_assoc]
    · rw [List.map_append, List.map_append, hstamp, hstamp', h.nodeId]
  other := by
    intro slot hslot
    rw [h'.other slot (by rw [h.slots]; exact hslot), h.other slot hslot]

/-- Only the tables have changed. -/
theorem sentTracks_setInfoBase {r : Relay} {ib : InfoBase} (hib : (r.setInfoBase ib).Origin) :
    SentTracks r (r.setInfoBase ib) [] where
  nodeId := rfl
  origin := hib
  slots := rfl
  sent := fun _ _ _ => ⟨[], (List.append_nil _).symm, rfl⟩
  other := fun slot _ => by cases slot <;> rfl

theorem sentTracks_sendSubscribeInfos {r : Relay} (h : r.Origin) (si : SubscribeInfo)
    (hseq : si.seq = 0) (hsource : si.sourceNodeId = r.nodeId) (withdraw : Bool) :
    SentTracks r (r.sendSubscribeInfos (fun _ => false) si withdraw)
      [si.trackHash.trackFullnameHash] := by
  have hall := sentToAll_sendSubscribeInfos h.own hsource withdraw
  refine ⟨hall.nodeId, ⟨hall.own, ?_⟩, hall.slots, fun i slot hi => ?_, hall.other⟩
  · rw [hall.infoBase, hall.nodeId]
    exact h.stored
  · refine ⟨_, hall.sent i slot hi, ?_⟩
    simp [stamp, numbered, hseq, hsource]

theorem sentTracks_clientSubscribe (q : Quicr) {r : Relay} (h : r.Origin) (full : FullTrackName)
    (subscribeData : List UInt8) :
    SentTracks r (r.clientSubscribe q full subscribeData)
      (sendsFor q r (.subscribe full subscribeData)).toList := by
  cases hempty : subscribeData.isEmpty with
  | true =>
    have hsame : SentTracks r r [] := sentTracks_setInfoBase h
    simpa [clientSubscribe, sendsFor, hempty] using hsame
  | false =>
    let si : SubscribeInfo :=
      { sourceNodeId := r.nodeId, trackHash := q.trackHash full, subscribeData }
    have horigin : (r.setInfoBase (r.infoBase.addSubscribe si).1).Origin := by
      apply h.setInfoBase
      intro hash old hold
      rcases InfoBase.get₂?_addSubscribe hold with ⟨hhash, -, rfl⟩ | hold
      · exact ⟨rfl, rfl, hhash.symm⟩
      · exact h.stored hash old hold
    have htracks := (sentTracks_setInfoBase horigin).trans
      (sentTracks_sendSubscribeInfos horigin si rfl rfl false)
    simpa [clientSubscribe, sendsFor, hempty] using htracks

theorem origin_getSubscribe {r : Relay} (h : r.Origin) (hash : UInt64) (node : NodeIdValueType) :
    (r.setInfoBase (r.infoBase.getSubscribe hash node).1).Origin := by
  apply h.setInfoBase
  intro hash' si hsi
  rw [InfoBase.getSubscribe, ExtTreeMap.get₂?_insertIfNew_empty] at hsi
  exact h.stored hash' si hsi

theorem sentTracks_clientSubscribeUpdate (q : Quicr) {r : Relay} (h : r.Origin)
    (full : FullTrackName) (newGroupRequestId : Option UInt64) :
    SentTracks r (r.clientSubscribeUpdate q full newGroupRequestId)
      (sendsFor q r (.update full newGroupRequestId)).toList := by
  have horigin := origin_getSubscribe h (q.trackHash full).trackFullnameHash r.nodeId
  have hget := sentTracks_setInfoBase horigin
  cases hsi : r.infoBase.subscribes.get₂? (q.trackHash full).trackFullnameHash r.nodeId with
  | none =>
    simpa [clientSubscribeUpdate, sendsFor, InfoBase.getSubscribe, hsi] using hget
  | some si =>
    cases hparse : q.parseSubscribe si.subscribeData with
    | none =>
      simpa [clientSubscribeUpdate, sendsFor, InfoBase.getSubscribe, hsi, hparse] using hget
    | some msg =>
      obtain ⟨hseq, hsource, hhash⟩ := h.stored _ si hsi
      -- An update changes the data of the message only.
      have hupdated : ∃ data, updatedSubscribe q si msg newGroupRequestId =
          { si with subscribeData := data } := by
        unfold updatedSubscribe
        split
        · exact ⟨_, rfl⟩
        · exact ⟨_, rfl⟩
        · exact ⟨_, rfl⟩
      obtain ⟨data, hupdated⟩ := hupdated
      have hsend := sentTracks_sendSubscribeInfos horigin { si with subscribeData := data } hseq
        hsource false
      have htracks := hget.trans hsend
      simpa [clientSubscribeUpdate, sendsFor, InfoBase.getSubscribe, hsi, hparse, hupdated,
        hhash] using htracks

theorem sentTracks_clientUnsubscribe (q : Quicr) {r : Relay} (h : r.Origin) (hash : UInt64) :
    SentTracks r (r.clientUnsubscribe hash) (sendsFor q r (.unsubscribe hash)).toList := by
  have hget := origin_getSubscribe h hash r.nodeId
  cases hsi : r.infoBase.subscribes.get₂? hash r.nodeId with
  | none =>
    simpa [clientUnsubscribe, sendsFor, InfoBase.getSubscribe, hsi] using
      sentTracks_setInfoBase hget
  | some si =>
    obtain ⟨hseq, hsource, hhash⟩ := h.stored hash si hsi
    have horigin : (r.setInfoBase
        ((r.infoBase.getSubscribe hash r.nodeId).1.removeSubscribe si).1).Origin := by
      apply h.setInfoBase
      intro hash' old hold
      rw [InfoBase.removeSubscribe] at hold
      split at hold
      · rw [ExtTreeMap.get₂?_erase₂] at hold
        split at hold
        · cases hold
        · exact hget.stored hash' old hold
      · exact hget.stored hash' old hold
    have htracks := (sentTracks_setInfoBase horigin).trans
      (sentTracks_sendSubscribeInfos horigin si hseq hsource true)
    simpa [clientUnsubscribe, sendsFor, InfoBase.getSubscribe, hsi, hhash] using htracks

theorem sentTracks_originCall (q : Quicr) {r : Relay} (h : r.Origin) (call : OriginCall) :
    SentTracks r (originCall q r call) (sendsFor q r call).toList := by
  cases call with
  | subscribe full subscribeData => exact sentTracks_clientSubscribe q h full subscribeData
  | update full newGroupRequestId => exact sentTracks_clientSubscribeUpdate q h full newGroupRequestId
  | unsubscribe hash => exact sentTracks_clientUnsubscribe q h hash

theorem sentTracks_originCalls (q : Quicr) {r : Relay} (h : r.Origin) (calls : List OriginCall) :
    SentTracks r (originCalls q r calls) (tracksSent q r calls) := by
  induction calls generalizing r with
  | nil => exact sentTracks_setInfoBase h
  | cons call calls ih =>
    have hcall := sentTracks_originCall q h call
    exact hcall.trans (ih hcall.origin)

/-! ### When the numbers advance -/

/-- The second number is ahead of the first by less than half of the 16-bit range. -/
def Advances (a b : UInt16) : Prop := 0 < (b - a).toNat ∧ (b - a).toNat < 2 ^ 15

/-- The numbers of the messages for one track. -/
def seqsOf (hash : UInt64) (messages : List (SubscribeInfo × Bool)) : List UInt16 :=
  (messages.filter fun m => m.1.trackHash.trackFullnameHash = hash).map fun m => m.1.seq

/-- What a call puts on a session. -/
def sentBy (q : Quicr) (r : Relay) (call : OriginCall) (slot : Slot) :
    List (SubscribeInfo × Bool) :=
  ((originCall q r call).subscribesOn slot).drop (r.subscribesOn slot).length

/-- A relay that gets the messages in this order takes every advertisement for new. -/
def NoneDiscarded (ib : InfoBase) (messages : List (SubscribeInfo × Bool)) : Prop :=
  ∀ before si after, messages = before ++ (si, false) :: after →
    ((ib.processSubscribes (before.map fun m => ⟨m.1, m.2⟩)).addSubscribe si).2 = true

/-- The relay numbers its messages consistently in a run. -/
structure NumbersAdvance (q : Quicr) (r : Relay) (calls : List OriginCall) : Prop where
  advance : ∀ slot hash,
    (seqsOf hash ((originCalls q r calls).subscribesOn slot)).IsChain Advances
  same : ∀ before call after, calls = before ++ call :: after → ∀ slot slot',
    ∀ m ∈ sentBy q (originCalls q r before) call slot,
    ∀ m' ∈ sentBy q (originCalls q r before) call slot', m.1.seq = m'.1.seq
  noneDiscarded : ∀ (ib : InfoBase), (∀ hash, ib.subscribes.get₂? hash r.nodeId = none) →
    ∀ slot, NoneDiscarded ib ((originCalls q r calls).subscribesOn slot)

theorem not_advances_self (a : UInt16) : ¬ Advances a a := by
  simp [Advances]

theorem seqsOf_of_stamp {hash : UInt64} {messages : List (SubscribeInfo × Bool)}
    {tracks : List UInt64} {node : NodeIdValueType} {seq : UInt16}
    (hstamp : messages.map stamp = tracks.map fun h => (h, node, seq)) :
    seqsOf hash messages = List.replicate (tracks.count hash) seq := by
  induction messages generalizing tracks with
  | nil =>
    cases tracks with
    | nil => rfl
    | cons _ _ => cases hstamp
  | cons m messages ih =>
    cases tracks with
    | nil => cases hstamp
    | cons h tracks =>
      rw [List.map_cons, List.map_cons, List.cons.injEq] at hstamp
      obtain ⟨hm, hrest⟩ := hstamp
      have htail := ih hrest
      simp only [stamp, Prod.mk.injEq] at hm
      unfold seqsOf at htail ⊢
      by_cases heq : h = hash
      · rw [List.filter_cons_of_pos (by simpa [hm.1] using heq), List.map_cons, htail, hm.2.2,
          heq, List.count_cons_self, List.replicate_succ]
      · rw [List.filter_cons_of_neg (by simpa [hm.1] using heq), htail,
          List.count_cons_of_ne heq]

theorem isChain_replicate_iff (n : ℕ) (seq : UInt16) :
    (List.replicate n seq).IsChain Advances ↔ n ≤ 1 := by
  match n with
  | 0 => simp
  | 1 => simp
  | n + 2 => simp [List.replicate_succ, not_advances_self]

/-- The first message of each track is new to the relay that gets it. -/
theorem noneDiscarded_of_nodup {ib : InfoBase} {node : NodeIdValueType}
    (hnone : ∀ hash, ib.subscribes.get₂? hash node = none)
    {messages : List (SubscribeInfo × Bool)} {tracks : List UInt64} {seq : UInt16}
    (hstamp : messages.map stamp = tracks.map fun h => (h, node, seq)) (hnodup : tracks.Nodup) :
    NoneDiscarded ib messages := by
  intro before si after hsplit
  have hhashes : messages.map (fun m => m.1.trackHash.trackFullnameHash) = tracks := by
    have hfst := congrArg (List.map Prod.fst) hstamp
    rw [List.map_map, List.map_map] at hfst
    exact hfst.trans (List.map_id tracks)
  have hsource : si.sourceNodeId = node := by
    have hmem : stamp (si, false) ∈ messages.map stamp :=
      List.mem_map_of_mem (by simp [hsplit])
    rw [hstamp, List.mem_map] at hmem
    obtain ⟨_, _, heq⟩ := hmem
    exact (congrArg (fun s => s.2.1) heq).symm
  have hfresh : ∀ m ∈ before.map fun m => (⟨m.1, m.2⟩ : Peering.SubscribeMessage),
      si.trackHash.trackFullnameHash ≠ m.info.trackHash.trackFullnameHash := by
    intro m hm heq
    obtain ⟨message, hmem, rfl⟩ := List.mem_map.mp hm
    rw [← hhashes, hsplit, List.map_append, List.nodup_append] at hnodup
    exact hnodup.2.2 _ (List.mem_map_of_mem hmem) _ (by simp) heq.symm
  have hget := get₂?_processSubscribes_of_ne ib _ hfresh node
  rw [hnone] at hget
  simp [InfoBase.addSubscribe, hsource, hget]

/-- Some call sends a message when there is a track that messages are sent for. -/
theorem exists_sendsFor {q : Quicr} {r : Relay} {calls : List OriginCall}
    (hne : tracksSent q r calls ≠ []) :
    ∃ before call after hash, calls = before ++ call :: after ∧
      sendsFor q (originCalls q r before) call = some hash := by
  induction calls generalizing r with
  | nil => exact absurd rfl hne
  | cons call calls ih =>
    cases hsends : sendsFor q r call with
    | some hash => exact ⟨[], call, calls, hash, rfl, hsends⟩
    | none =>
      have hrest : tracksSent q (originCall q r call) calls ≠ [] := by
        simpa [tracksSent, hsends] using hne
      obtain ⟨before, call', after, hash, rfl, hsends'⟩ := ih hrest
      exact ⟨call :: before, call', after, hash, rfl, hsends'⟩

/-- A call puts its message, if it sends one, on every connected session and on no other. -/
theorem sentBy_spec (q : Quicr) {r : Relay} (h : r.Origin) (call : OriginCall) :
    (∀ (i : ℕ) (slot : Slot), r.connectedSlots[i]? = some slot →
      (sentBy q r call slot).map stamp =
        (sendsFor q r call).toList.map fun hash => (hash, r.nodeId, UInt16.ofNat (i + 1))) ∧
    ∀ slot, slot ∉ r.connectedSlots → sentBy q r call slot = [] := by
  have hcall := sentTracks_originCall q h call
  refine ⟨fun i slot hi => ?_, fun slot hslot => ?_⟩
  · obtain ⟨messages, hon, hstamp⟩ := hcall.sent i slot hi
    rw [sentBy, hon, List.drop_left, hstamp]
  · rw [sentBy, hcall.other slot hslot, List.drop_length]

/-- The condition under which the numbers of a run advance: no message is sent, or one session is
connected and no track has a second message. -/
def SentOnce (q : Quicr) (r : Relay) (calls : List OriginCall) : Prop :=
  r.connectedSlots = [] ∨ tracksSent q r calls = [] ∨
    r.connectedSlots.length = 1 ∧ (tracksSent q r calls).Nodup

theorem SentOnce.nodup {q : Quicr} {r : Relay} {calls : List OriginCall} (h : SentOnce q r calls)
    {slot : Slot} (hslot : slot ∈ r.connectedSlots) : (tracksSent q r calls).Nodup := by
  rcases h with hnone | hnone | ⟨-, hnodup⟩
  · rw [hnone] at hslot
    cases hslot
  · rw [hnone]
    exact List.nodup_nil
  · exact hnodup

section Start

variable {q : Quicr} {r : Relay} (hown : r.OwnSessions)
  (hnone : ∀ hash, r.infoBase.subscribes.get₂? hash r.nodeId = none)
  (hquiet : ∀ slot, r.subscribesOn slot = [])

include hown hnone in
theorem origin_start : r.Origin :=
  ⟨hown, fun hash si hsi => by rw [hnone] at hsi; cases hsi⟩

include hown hnone hquiet

/-- The messages on a connected session at the end of a run. -/
theorem stamp_subscribesOn (calls : List OriginCall) {i : ℕ} {slot : Slot}
    (hi : r.connectedSlots[i]? = some slot) :
    ((originCalls q r calls).subscribesOn slot).map stamp =
      (tracksSent q r calls).map fun hash => (hash, r.nodeId, UInt16.ofNat (i + 1)) := by
  obtain ⟨messages, hon, hstamp⟩ :=
    (sentTracks_originCalls q (origin_start hown hnone) calls).sent i slot hi
  rw [hon, hquiet, List.nil_append, hstamp]

theorem subscribesOn_of_not_connected (calls : List OriginCall) {slot : Slot}
    (hslot : slot ∉ r.connectedSlots) : (originCalls q r calls).subscribesOn slot = [] := by
  rw [(sentTracks_originCalls q (origin_start hown hnone) calls).other slot hslot, hquiet]

theorem sentOnce_of_numbersAdvance {calls : List OriginCall} (h : NumbersAdvance q r calls) :
    SentOnce q r calls := by
  by_cases hslots : r.connectedSlots = []
  · exact .inl hslots
  by_cases htracks : tracksSent q r calls = []
  · exact .inr (.inl htracks)
  refine .inr (.inr ⟨?_, ?_⟩)
  · -- A second session gets the number after that of the first.
    obtain ⟨before, call, after, hash, hsplit, hsends⟩ := exists_sendsFor htracks
    have hbefore := sentTracks_originCalls q (origin_start hown hnone) before
    have hsent := (sentBy_spec q hbefore.origin call).1
    rw [hbefore.slots, hsends] at hsent
    have hmessage : ∀ (i : ℕ) (slot : Slot), r.connectedSlots[i]? = some slot →
        ∃ m ∈ sentBy q (originCalls q r before) call slot, m.1.seq = UInt16.ofNat (i + 1) := by
      intro i slot hi
      obtain ⟨m, hm, hstamp⟩ := List.map_eq_singleton_iff.mp (hsent i slot hi)
      exact ⟨m, by simp [hm], congrArg (fun s => s.2.2) hstamp⟩
    match hlist : r.connectedSlots with
    | [] => exact absurd hlist hslots
    | [_] => rfl
    | first :: second :: _ =>
      obtain ⟨m, hm, hseq⟩ := hmessage 0 first (by rw [hlist]; rfl)
      obtain ⟨m', hm', hseq'⟩ := hmessage 1 second (by rw [hlist]; rfl)
      have hsame := h.same before call after hsplit first second m hm m' hm'
      rw [hseq, hseq'] at hsame
      cases hsame
  · rw [List.nodup_iff_count_le_one]
    intro hash
    obtain ⟨first, hfirst⟩ := List.exists_mem_of_ne_nil _ hslots
    obtain ⟨i, hi⟩ := List.getElem?_of_mem hfirst
    have hchain := h.advance first hash
    rwa [seqsOf_of_stamp (stamp_subscribesOn hown hnone hquiet calls hi),
      isChain_replicate_iff] at hchain

theorem numbersAdvance_of_sentOnce {calls : List OriginCall} (h : SentOnce q r calls) :
    NumbersAdvance q r calls where
  advance := by
    intro slot hash
    by_cases hslot : slot ∈ r.connectedSlots
    · obtain ⟨i, hi⟩ := List.getElem?_of_mem hslot
      rw [seqsOf_of_stamp (stamp_subscribesOn hown hnone hquiet calls hi), isChain_replicate_iff]
      exact List.nodup_iff_count_le_one.mp (h.nodup hslot) hash
    · rw [subscribesOn_of_not_connected hown hnone hquiet calls hslot]
      exact .nil
  same := by
    intro before call after hsplit slot slot' m hm m' hm'
    have hbefore := sentTracks_originCalls q (origin_start hown hnone) before
    obtain ⟨hsent, hother⟩ := sentBy_spec q hbefore.origin call
    rw [hbefore.slots] at hsent hother
    have hmessage : ∀ {slot : Slot} {m}, m ∈ sentBy q (originCalls q r before) call slot →
        ∃ i : ℕ, r.connectedSlots[i]? = some slot ∧ m.1.seq = UInt16.ofNat (i + 1) ∧
          (sendsFor q (originCalls q r before) call).isSome := by
      intro slot m hm
      by_cases hslot : slot ∈ r.connectedSlots
      · obtain ⟨i, hi⟩ := List.getElem?_of_mem hslot
        have hstamp := List.mem_map_of_mem (f := stamp) hm
        rw [hsent i slot hi, List.mem_map] at hstamp
        obtain ⟨hash, hsends, heq⟩ := hstamp
        exact ⟨i, hi, (congrArg (fun s => s.2.2) heq).symm, by
          rw [Option.mem_toList.mp hsends]; rfl⟩
      · rw [hother slot hslot] at hm
        cases hm
    obtain ⟨i, hi, hseq, hsends⟩ := hmessage hm
    obtain ⟨i', hi', hseq', -⟩ := hmessage hm'
    rcases h with hslots | htracks | ⟨hlength, -⟩
    · rw [hslots] at hi
      cases hi
    · rw [hsplit, tracksSent_append, tracksSent] at htracks
      obtain ⟨hash, hhash⟩ := Option.isSome_iff_exists.mp hsends
      rw [hhash] at htracks
      simp at htracks
    · have hlt := (List.getElem?_eq_some_iff.mp hi).1
      have hlt' := (List.getElem?_eq_some_iff.mp hi').1
      have hindex : i = i' := by omega
      rw [hseq, hseq', hindex]
  noneDiscarded := by
    intro ib hib slot
    by_cases hslot : slot ∈ r.connectedSlots
    · obtain ⟨i, hi⟩ := List.getElem?_of_mem hslot
      exact noneDiscarded_of_nodup hib (stamp_subscribesOn hown hnone hquiet calls hi)
        (h.nodup hslot)
    · rw [subscribesOn_of_not_connected hown hnone hquiet calls hslot]
      intro before si after hsplit
      simp at hsplit

end Start

/-- From a relay that has sent nothing for its clients, the numbers advance exactly when they do not
have to: the number is counted up for each session, and never stored. -/
theorem numbersAdvance_iff (q : Quicr) (r : Relay) (hown : r.OwnSessions)
    (hnone : ∀ hash, r.infoBase.subscribes.get₂? hash r.nodeId = none)
    (hquiet : ∀ slot, r.subscribesOn slot = []) (calls : List OriginCall) :
    NumbersAdvance q r calls ↔ SentOnce q r calls :=
  ⟨sentOnce_of_numbersAdvance hown hnone hquiet, numbersAdvance_of_sentOnce hown hnone hquiet⟩

/-- Node 1 with a connected session to node 2. -/
def oneSession : Relay where
  nodeId := 1
  clientPeerSessions := (∅ : ExtTreeMap PeerSessionId PeerSession).insert 7
    { status := .connected, nodeId := 1, remoteNodeInfo := { id := 2 } }

theorem subscribesOn_oneSession (slot : Slot) : oneSession.subscribesOn slot = [] := by
  have hget : ∀ id : PeerSessionId, (((∅ : ExtTreeMap PeerSessionId PeerSession).insert 7
      { status := .connected, nodeId := 1, remoteNodeInfo := { id := 2 } })[id]?.map
        PeerSession.subscribesSent).getD [] = [] := by
    intro id
    rw [ExtTreeMap.getElem?_insert_ite]
    split <;> simp [PeerSession.subscribesSent]
  cases slot with
  | inl id => exact hget id
  | inr id => simp [subscribesOn, sessionAt, oneSession]

theorem ownSessions_oneSession : oneSession.OwnSessions := by
  refine ⟨fun id session hget => ?_, fun id session hget => by simp [oneSession] at hget⟩
  rw [oneSession, ExtTreeMap.getElem?_insert_ite] at hget
  split at hget
  · cases hget
    rfl
  · simp at hget

/-- Two tracks are subscribed to. -/
theorem numbersAdvance_twoTracks :
    oneSession.OwnSessions ∧ NumbersAdvance .polynomial oneSession
      [.subscribe ⟨[[1]], [2]⟩ [1], .subscribe ⟨[[1]], [3]⟩ [1]] := by
  have hnone : ∀ hash, oneSession.infoBase.subscribes.get₂? hash oneSession.nodeId = none := by
    intro hash
    simp [oneSession]
  refine ⟨ownSessions_oneSession, (numbersAdvance_iff _ _ ownSessions_oneSession hnone
    subscribesOn_oneSession _).mpr (.inr (.inr ⟨?_, ?_⟩))⟩
  · decide +kernel
  · decide +kernel

/-- A subscription and its withdrawal have the same number. -/
theorem not_numbersAdvance :
    ¬ ∀ (q : Quicr) (r : Relay) (calls : List OriginCall), r.OwnSessions →
      (∀ hash, r.infoBase.subscribes.get₂? hash r.nodeId = none) →
      (∀ slot, r.subscribesOn slot = []) → NumbersAdvance q r calls := by
  intro hall
  have hadvance := (hall .polynomial oneSession
    [.subscribe ⟨[[1]], [2]⟩ [1],
      .unsubscribe (Quicr.polynomial.trackHash ⟨[[1]], [2]⟩).trackFullnameHash]
    ownSessions_oneSession (by simp [oneSession]) subscribesOn_oneSession).advance (.inl 7)
    (Quicr.polynomial.trackHash ⟨[[1]], [2]⟩).trackFullnameHash
  have hseqs : seqsOf (Quicr.polynomial.trackHash ⟨[[1]], [2]⟩).trackFullnameHash
      ((originCalls .polynomial oneSession
        [.subscribe ⟨[[1]], [2]⟩ [1],
          .unsubscribe (Quicr.polynomial.trackHash ⟨[[1]], [2]⟩).trackFullnameHash]
        ).subscribesOn (.inl 7)) = [1, 1] := by
    decide +kernel
  rw [hseqs] at hadvance
  simp [not_advances_self] at hadvance

end Laps.Relay
