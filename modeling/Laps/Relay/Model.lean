import Laps.Client.State
import Laps.Peering.Session

/-! A relay: the client manager and the peer manager over the state they share.  The functions of
the two managers call each other, so both stand here, each after those it calls. -/

namespace Laps

open Std Client Peering

structure Config where
  relayId : List UInt8 := []
  nodeType : NodeType := .edge
  allowSelf : Bool := false
  detachedSubs : Bool := false
  deriving DecidableEq, Repr

structure Relay where
  nodeId : NodeIdValueType
  config : Config := {}
  infoBase : InfoBase := {}
  state : State := {}
  /-- The sessions that this relay has opened. -/
  clientPeerSessions : ExtTreeMap PeerSessionId PeerSession := ∅
  /-- The sessions that it has accepted. -/
  serverPeerSessions : ExtTreeMap PeerSessionId PeerSession := ∅
  deriving DecidableEq

namespace Relay

/-- Changes the state of the clients. -/
def mapState (r : Relay) (f : State → State) : Relay := { r with state := f r.state }

def setInfoBase (r : Relay) (infoBase : InfoBase) : Relay := { r with infoBase }

/-! ### Peer sessions -/

def getPeerSession (r : Relay) (id : PeerSessionId) : Option PeerSession :=
  match r.serverPeerSessions[id]? with
  | some session => some session
  | none => r.clientPeerSessions[id]?

/-- The session that `getPeerSession` finds is changed in place. -/
def setPeerSession (r : Relay) (id : PeerSessionId) (session : PeerSession) : Relay :=
  if r.serverPeerSessions.contains id then
    { r with serverPeerSessions := r.serverPeerSessions.insert id session }
  else { r with clientPeerSessions := r.clientPeerSessions.insert id session }

/-- An announce message goes to all sessions but the ones to skip. -/
def sendAnnounceInfos (r : Relay) (skip : PeerSessionId → Bool) (info : AnnounceInfo)
    (withdraw : Bool) : Relay :=
  let send := fun id (session : PeerSession) =>
    if skip id then session else session.sendAnnounceInfo info withdraw
  { r with
    clientPeerSessions := r.clientPeerSessions.map send
    serverPeerSessions := r.serverPeerSessions.map send }

/-- The loop over one map of sessions; the message changes from one session to the next. -/
def sendSubscribeInfosTo (skip : PeerSessionId → Bool) (withdraw : Bool)
    (acc : ExtTreeMap PeerSessionId PeerSession × SubscribeInfo)
    (entry : PeerSessionId × PeerSession) :
    ExtTreeMap PeerSessionId PeerSession × SubscribeInfo :=
  if skip entry.1 then acc
  else
    let (session, info) := entry.2.sendSubscribeInfo acc.2 withdraw
    (acc.1.insert entry.1 session, info)

def sendSubscribeInfos (r : Relay) (skip : PeerSessionId → Bool) (info : SubscribeInfo)
    (withdraw : Bool) : Relay :=
  let (clients, info) := r.clientPeerSessions.toList.foldl (sendSubscribeInfosTo skip withdraw)
    (r.clientPeerSessions, info)
  let (servers, _) := r.serverPeerSessions.toList.foldl (sendSubscribeInfosTo skip withdraw)
    (r.serverPeerSessions, info)
  { r with clientPeerSessions := clients, serverPeerSessions := servers }

/-! ### Peer manager: subscriptions of this relay's clients -/

/-- `PeerManager::HasSubscribers` -/
def hasSubscribers (r : Relay) (trackFullnameHash : UInt64) : Bool :=
  r.infoBase.clientFib.anyEntry fun key _ => key.1 = trackFullnameHash

def clientSubscribe (q : Quicr) (r : Relay) (full : FullTrackName) (subscribeData : List UInt8) :
    Relay :=
  if subscribeData.isEmpty then r
  else
    let si : SubscribeInfo :=
      { sourceNodeId := r.nodeId, trackHash := q.trackHash full, subscribeData }
    (r.setInfoBase (r.infoBase.addSubscribe si).1).sendSubscribeInfos (fun _ => false) si false

def clientUnsubscribe (r : Relay) (trackFullnameHash : UInt64) : Relay :=
  let (infoBase, si?) := r.infoBase.getSubscribe trackFullnameHash r.nodeId
  match si? with
  | none => r.setInfoBase infoBase
  | some si =>
    (r.setInfoBase (infoBase.removeSubscribe si).1).sendSubscribeInfos (fun _ => false) si true

/-- The subscription as an update sends it: with the new-group request of the update, unless both
have one.  What is stored stays as it is. -/
def updatedSubscribe (q : Quicr) (si : SubscribeInfo) (msg : SubscribeMessage)
    (newGroupRequestId : Option UInt64) : SubscribeInfo :=
  let withRequest := fun (request : Option UInt64) =>
    let parameters := { msg.parameters with newGroupRequest := request }
    { si with subscribeData := q.serializeSubscribe { msg with parameters } }
  match msg.parameters.newGroupRequest, newGroupRequestId with
  | some _, none => withRequest none
  | none, some id => withRequest (some id)
  | _, _ => si

def clientSubscribeUpdate (q : Quicr) (r : Relay) (full : FullTrackName)
    (newGroupRequestId : Option UInt64) : Relay :=
  let (infoBase, si?) := r.infoBase.getSubscribe (q.trackHash full).trackFullnameHash r.nodeId
  let r := r.setInfoBase infoBase
  match si? with
  | none => r
  | some si =>
    match q.parseSubscribe si.subscribeData with
    | none => r
    | some msg =>
      r.sendSubscribeInfos (fun _ => false) (updatedSubscribe q si msg newGroupRequestId) false

/-! ### Client manager: subscriptions -/

/-- A new handler, numbered after those made before. -/
def newHandler (r : Relay) (full : FullTrackName) (isPublisherInitiated : Bool) :
    SubscribeTrackHandler × Relay :=
  ({ id := r.state.handlers, fullTrackName := full, isPublisherInitiated },
    r.mapState fun st => { st with handlers := st.handlers + 1 })

/-- The part of `ProcessSubscribe` that records a subscription of a client. -/
def recordSubscribe (q : Quicr) (r : Relay) (conn : ConnectionHandle) (req : RequestId)
    (th : TrackHash) (full : FullTrackName) (attrs : SubscribeAttributes) : Relay :=
  let key := (full.nameSpace, th.trackNameHash)
  let active : State.SubscribeInfo :=
    ⟨th.trackFullnameHash, attrs.priority, attrs.deliveryTimeout, attrs.startLocation⟩
  let info : SubscribePublishHandlerInfo :=
    { trackFullName := full, trackAlias := th.trackFullnameHash, requestId := req
      priority := attrs.priority, objectTtl := attrs.deliveryTimeout.toUInt32
      groupOrder := attrs.groupOrder }
  let msg : SubscribeMessage :=
    ⟨req, full.nameSpace, full.name,
      { subscriberPriority := some attrs.priority, groupOrder := attrs.groupOrder }⟩
  let r := r.mapState fun st =>
    { st with
      subscribeActive := st.subscribeActive.insert key
        ((st.subscribeActive.getD key ∅).insertIfNew (conn, req) active)
      subscribeAliasReqId := st.subscribeAliasReqId.insert (conn, req) th.trackFullnameHash
      subscribes := st.subscribes.insertIfNew (th.trackFullnameHash, conn) info }
  r.clientSubscribe q full (q.serializeSubscribe msg)

/-- The handlers of the track get the subscriber. -/
def addToHandlers (r : Relay) (hash : UInt64) (conn : ConnectionHandle) (s : Subscriber) : Relay :=
  r.mapState fun st =>
    { st with
      pubSubscribes := st.pubSubscribes.map fun key h =>
        if key.1 = hash then
          (if h.isPublisherInitiated then h.resume else h).addSubscriber conn s
        else h }

/-- A publisher of a namespace is subscribed to, unless it has a handler for the track. -/
def subscribeToAnnouncer (q : Quicr) (hash : UInt64) (full : FullTrackName)
    (conn : ConnectionHandle) (s : Subscriber) (r : Relay)
    (entry : (TrackNamespace × ConnectionHandle) × ExtTreeSet UInt64) : Relay :=
  let key := entry.1
  if !q.hasSamePrefix key.1 full.nameSpace || key.2 = 0 then r
  else if r.state.pubSubscribes.contains (hash, key.2) then r
  else
    let (h, r) := r.newHandler full false
    r.mapState fun st =>
      { st with
        pubNamespaceActive := st.pubNamespaceActive.insert key (entry.2.insert hash)
        pubSubscribesByReqId :=
          st.pubSubscribesByReqId.insert (q.subscribeTrack key.2 h.id, key.2) (h.id, full)
        pubSubscribes := st.pubSubscribes.insert (hash, key.2) (h.addSubscriber conn s) }

/-- Both are 0 when the peer manager subscribes. -/
def processSubscribe (q : Quicr) (r : Relay) (conn : ConnectionHandle) (req : RequestId)
    (th : TrackHash) (full : FullTrackName) (attrs : SubscribeAttributes) : Relay :=
  let r := if conn = 0 ∧ req = 0 then r else r.recordSubscribe q conn req th full attrs
  let s : Subscriber := ⟨req, attrs.priority, attrs.deliveryTimeout, attrs.startLocation⟩
  let r := r.addToHandlers th.trackFullnameHash conn s
  r.state.pubNamespaceActive.toList.foldl
    (subscribeToAnnouncer q th.trackFullnameHash full conn s) r

def subscribeReceived (q : Quicr) (r : Relay) (conn : ConnectionHandle) (req : RequestId)
    (full : FullTrackName) (attrs : SubscribeAttributes) : Relay :=
  let th := q.trackHash full
  if r.state.subscribes.contains (th.trackFullnameHash, conn) then r
  else r.processSubscribe q conn req th full attrs

/-- A handler that is left without subscribers is paused when the publisher has made it, and dropped
otherwise; without a handler that has subscribers the relay's own subscription is withdrawn. -/
def removeOrPausePublisherSubscribe (r : Relay) (hash : UInt64) : Relay :=
  if r.hasSubscribers hash then r
  else
    let hasSubs := r.state.pubSubscribes.anyEntry fun key h => key.1 = hash && h.hasSubscribers
    let r := r.mapState fun st =>
      { st with
        pubSubscribes := st.pubSubscribes.filterMap fun key h =>
          if key.1 = hash ∧ h.hasSubscribers = false then
            if h.isPublisherInitiated then some h.pause else none
          else some h }
    if hasSubs then r else r.clientUnsubscribe hash

def unsubscribeReceived (q : Quicr) (r : Relay) (conn : ConnectionHandle) (req : RequestId) :
    Relay :=
  match r.state.subscribeAliasReqId[(conn, req)]? with
  | none => r
  | some trackAlias =>
    match r.state.subscribes[(trackAlias, conn)]? with
    | none => r
    | some sub =>
      let th := q.trackHash sub.trackFullName
      let key := (sub.trackFullName.nameSpace, th.trackNameHash)
      let active := (r.state.subscribeActive.getD key ∅).erase (conn, req)
      let r := r.mapState fun st =>
        { st with
          subscribeAliasReqId := st.subscribeAliasReqId.erase (conn, req)
          pubSubscribes := st.pubSubscribes.map fun key h =>
            if key.1 = th.trackFullnameHash then h.removeSubscriber conn else h
          subscribeActive :=
            if active.isEmpty then st.subscribeActive.erase key
            else st.subscribeActive.insert key active
          subscribes := st.subscribes.erase (trackAlias, conn) }
      r.removeOrPausePublisherSubscribe th.trackFullnameHash

/-- The peer manager no longer wants the track. -/
def peerUnsubscribeTrack (r : Relay) (hash : UInt64) : Relay :=
  r.mapState fun st =>
    { st with
      pubSubscribes := st.pubSubscribes.map fun key h =>
        if key.1 = hash then h.removeSubscriber 0 else h }

/-! ### Peer manager: publications of this relay's clients -/

/-- The node joins the node set of the track on the best session to it, and when it is new there the
track gets an entry of the client table under the session `keySession`. -/
def forwardToNode (q : Quicr) (r : Relay) (hash : UInt64) (node : NodeIdValueType)
    (keySession : PeerSessionId → PeerSessionId) : Relay :=
  match r.infoBase.nodesBest[node]? with
  | none => r
  | some best =>
    match r.getPeerSession best with
    | none => r
    | some session =>
      let (session, snsId, isNew) := session.addSubscribeSourceNode q hash node
      let r := r.setPeerSession best session
      if isNew then
        r.setInfoBase { r.infoBase with
          clientFib := r.infoBase.clientFib.insertIfNew (hash, keySession best)
            { outSnsId := snsId, peerSession := some best } }
      else r

/-- The subscription of another relay is matched with a publication of this one. -/
def matchSubscribe (q : Quicr) (full : FullTrackName) (r : Relay) (si : SubscribeInfo) :
    Relay :=
  match q.parseSubscribe si.subscribeData with
  | none => r
  | some msg =>
    if !q.hasSamePrefix full.nameSpace msg.trackNamespace then r
    else if si.sourceNodeId = r.nodeId then r
    else
      let attrs : SubscribeAttributes :=
        { priority := 10, newGroupRequestId := msg.parameters.newGroupRequest.map fun _ => 1 }
      let r := r.processSubscribe q 0 0 si.trackHash ⟨msg.trackNamespace, msg.trackName⟩ attrs
      match msg.parameters.subscriberPriority with
      | none => r
      | some _ => r.forwardToNode q si.trackHash.trackFullnameHash si.sourceNodeId id

def announceInfo (q : Quicr) (r : Relay) (full : FullTrackName) (publishNamespace : Bool) :
    AnnounceInfo where
  sourceNodeId := r.nodeId
  nameSpace := full.nameSpace
  name := full.name
  fullnameHash := (q.trackHash full).trackFullnameHash
  flags := if publishNamespace then 1 else 0

/-- The change of the announcements, and whether there was one. -/
def updateAnnounces (q : Quicr) (r : Relay) (info : AnnounceInfo) (withdraw : Bool) :
    Relay × Bool :=
  let (infoBase, isUpdated) :=
    if withdraw then r.infoBase.removeAnnounce q info else r.infoBase.addAnnounce q info
  (r.setInfoBase infoBase, isUpdated)

def clientAnnounce (q : Quicr) (r : Relay) (full : FullTrackName)
    (withdraw publishNamespace : Bool) : Relay :=
  let ai := r.announceInfo q full publishNamespace
  let r := (r.updateAnnounces q ai withdraw).1.sendAnnounceInfos (fun _ => false) ai withdraw
  if withdraw then r
  else
    r.infoBase.subscribes.entries₂.foldl
      (fun r' entry => if entry.1.2 = r.nodeId then r' else r'.matchSubscribe q full entry.2) r

/-! ### Client manager: publications -/

/-- The subscribers of matching tracks are handed to a publisher of a namespace. -/
def subscribeToPublisher (q : Quicr) (nameSpace : TrackNamespace) (conn : ConnectionHandle)
    (r : Relay)
    (entry : (TrackNamespace × UInt64) ×
      ExtTreeMap (ConnectionHandle × RequestId) State.SubscribeInfo) : Relay :=
  if !q.hasSamePrefix entry.1.1 nameSpace then r
  else
    match entry.2.toList with
    | [] => r
    | ((subConn, _), active) :: _ =>
      let annoTracks := r.state.pubNamespaceActive.getD (nameSpace, conn) ∅
      if annoTracks.contains active.trackAlias then r
      else
        let r := r.mapState fun st =>
          { st with
            pubNamespaceActive := st.pubNamespaceActive.insert (nameSpace, conn)
              (annoTracks.insert active.trackAlias) }
        match r.state.subscribes[(active.trackAlias, subConn)]? with
        | none => r
        | some sub =>
          let (h, r) := r.newHandler sub.trackFullName false
          let h := entry.2.toList.foldl (fun h (sub : (ConnectionHandle × RequestId) × _) =>
            h.addSubscriber sub.1.1
              ⟨sub.1.2, sub.2.priority, sub.2.deliveryTimeout, sub.2.startLocation⟩) h
          r.mapState fun st =>
            { st with pubSubscribes := st.pubSubscribes.insert (active.trackAlias, conn) h }

def publishNamespaceReceived (q : Quicr) (r : Relay) (conn : ConnectionHandle)
    (nameSpace : TrackNamespace) (req : RequestId) : Relay :=
  let r := r.mapState fun st => { st with requests := st.requests.insert (conn, req) nameSpace }
  let subscribe := fun (r : Relay) =>
    r.state.subscribeActive.toList.foldl (subscribeToPublisher q nameSpace conn) r
  if r.state.pubNamespaceActive.contains (nameSpace, conn) then
    if conn = 0 then r else subscribe r
  else
    let r := r.mapState fun st =>
      { st with pubNamespaceActive := st.pubNamespaceActive.insertIfNew (nameSpace, conn) ∅ }
    if conn = 0 then r
    else (subscribe r).clientAnnounce q ⟨nameSpace, []⟩ false true

def publishNamespaceDoneReceived (q : Quicr) (r : Relay) (conn : ConnectionHandle)
    (req : RequestId) : Relay :=
  match r.state.requests[(conn, req)]? with
  | none => r
  | some nameSpace =>
    let r := r.clientAnnounce q ⟨nameSpace, []⟩ true true
    let aliases := (r.state.pubNamespaceActive.getD (nameSpace, conn) ∅).toList
    let r := r.mapState fun st =>
      { st with
        pubSubscribes := aliases.foldl (fun m trackAlias => m.erase (trackAlias, conn))
          st.pubSubscribes
        pubNamespaceActive := st.pubNamespaceActive.erase (nameSpace, conn) }
    -- `ClientUnannounce` withdraws once more, as a publish.
    if conn = 0 then r else r.clientAnnounce q ⟨nameSpace, []⟩ true false

/-- A publish from a peer has connection 0 and request 0. -/
def publishReceived (q : Quicr) (r : Relay) (conn : ConnectionHandle) (req : RequestId)
    (full : FullTrackName) : Relay :=
  let isFromPeer : Bool := conn = 0 && req = 0
  let hash := (q.trackHash full).trackFullnameHash
  let (h, r) := r.newHandler full true
  let r := r.mapState fun st =>
    { st with pubSubscribes := st.pubSubscribes.insert (hash, conn) { h with isFromPeer } }
  let r :=
    if isFromPeer then r
    else
      let r := r.mapState fun st =>
        { st with
          pubSubscribesByReqId := st.pubSubscribesByReqId.insert (req, conn) (h.id, full) }
      r.clientAnnounce q full false false
  let subs := r.state.subscribes.withFst hash
  let nameSpaces := r.state.subscribesNamespaces.toList.filter fun row =>
    q.hasSamePrefix row.1 full.nameSpace && !row.2.isEmpty
  let addSubs := fun (h : SubscribeTrackHandler) =>
    let h := subs.foldl (fun h entry => h.addSubscriber entry.1.2
      ⟨entry.2.requestId, entry.2.priority, entry.2.objectTtl.toNat, entry.2.startLocation⟩) h
    let h := nameSpaces.foldl (fun h row =>
      row.2.toList.foldl (fun h entry => h.addSubscribeNamespace q entry.2) h) h
    if r.hasSubscribers hash || !subs.isEmpty || !nameSpaces.isEmpty then h else h.pause
  r.mapState fun st => { st with pubSubscribes := st.pubSubscribes.modify (hash, conn) addSubs }

/-- The subscribers of a track that has no publisher left are unsubscribed, unless subscriptions
outlive their publishers. -/
def unsubscribeOrphans (q : Quicr) (r : Relay) (hash : UInt64) : Relay :=
  if (r.state.pubSubscribes.withFst hash).isEmpty && !r.config.detachedSubs then
    (r.state.subscribes.withFst hash).foldl
      (fun r entry => r.unsubscribeReceived q entry.1.2 entry.2.requestId) r
  else r

def publishDoneReceived (q : Quicr) (r : Relay) (conn : ConnectionHandle) (req : RequestId) :
    Relay :=
  match r.state.pubSubscribesByReqId[(req, conn)]? with
  | none => r
  | some (_, full) =>
    let r := if conn = 0 then r else r.clientAnnounce q full true false
    let hash := (q.trackHash full).trackFullnameHash
    let r := r.mapState fun st => { st with pubSubscribes := st.pubSubscribes.erase (hash, conn) }
    (r.unsubscribeOrphans q hash).mapState fun st =>
      { st with pubSubscribesByReqId := st.pubSubscribesByReqId.erase (req, conn) }

/-! ### Client manager: subscribed namespaces and connections -/

def subscribeNamespaceReceived (q : Quicr) (r : Relay) (conn : ConnectionHandle)
    (prefixNamespace : TrackNamespace) : Relay :=
  let row := (r.state.subscribesNamespaces.getD prefixNamespace ∅).insertIfNew conn
    ⟨prefixNamespace, conn⟩
  r.mapState fun st =>
    { st with
      subscribesNamespaces := st.subscribesNamespaces.insert prefixNamespace row
      pubSubscribes := st.pubSubscribes.map fun key h =>
        if !r.config.allowSelf && key.2 = conn then h
        else if q.isPrefixOf prefixNamespace h.fullTrackName.nameSpace then
          h.addSubscribeNamespace q ⟨prefixNamespace, conn⟩
        else h }

/-- One handler of the loop in `UnsubscribeNamespaceReceived`.  The loop runs over the entries that
there were when it began; one that a step before has erased is passed over.  The source is undefined
where a step erases the entry that it stands on, which `LeavesInPlace` excludes. -/
def leaveNamespace (q : Quicr) (conn : ConnectionHandle) (prefixNamespace : TrackNamespace)
    (handler : PublishNamespaceHandler) (r : Relay) (key : UInt64 × ConnectionHandle) : Relay :=
  match r.state.pubSubscribes[key]? with
  | none => r
  | some h =>
    if !r.config.allowSelf && key.2 = conn then r
    else if q.hasSamePrefix prefixNamespace h.fullTrackName.nameSpace then
      let r := r.mapState fun st =>
        { st with
          pubSubscribes := st.pubSubscribes.insert key (h.removeSubscribeNamespace q handler) }
      r.removeOrPausePublisherSubscribe key.1
    else r

def unsubscribeNamespaceReceived (q : Quicr) (r : Relay) (conn : ConnectionHandle)
    (prefixNamespace : TrackNamespace) : Relay :=
  match r.state.subscribesNamespaces[prefixNamespace]? with
  | none => r
  | some row =>
    match row[conn]? with
    | none =>
      if row.isEmpty then
        r.mapState fun st =>
          { st with subscribesNamespaces := st.subscribesNamespaces.erase prefixNamespace }
      else r
    | some handler =>
      let r := r.state.pubSubscribes.keys.foldl (leaveNamespace q conn prefixNamespace handler) r
      r.mapState fun st =>
        { st with subscribesNamespaces := st.subscribesNamespaces.erase₂ prefixNamespace conn }

def purgePublishState (r : Relay) (conn : ConnectionHandle) : Relay :=
  r.mapState fun st =>
    { st with
      pubSubscribes := st.pubSubscribes.filter fun key _ => key.2 ≠ conn
      pubNamespaceActive := st.pubNamespaceActive.filter fun key _ => key.2 ≠ conn }

inductive ConnectionStatus where
  | notConnected
  | connecting
  | connected
  | idleTimeout
  | closedByRemote
  deriving DecidableEq, Repr

def connectionStatusChanged (q : Quicr) (r : Relay) (conn : ConnectionHandle)
    (status : ConnectionStatus) : Relay :=
  match status with
  | .connected | .connecting => r
  | .notConnected | .closedByRemote | .idleTimeout =>
    let removeNs := r.state.subscribesNamespaces.toList.filter fun row => row.2.contains conn
    let r := removeNs.foldl (fun r row => r.unsubscribeNamespaceReceived q conn row.1) r
    let unsubList := r.state.subscribeAliasReqId.withFst conn
    let r := unsubList.foldl (fun r entry => r.unsubscribeReceived q entry.1.1 entry.1.2) r
    r.purgePublishState conn

/-! ### Peer manager: messages of the other relays -/

/-- A publisher of the track, or else of a namespace that matches it, is known. -/
def announceMatches (q : Quicr) (r : Relay) (trackFullnameHash : UInt64)
    (trackNamespace : TrackNamespace) : Bool :=
  (r.state.pubSubscribes.anyEntry fun key _ => key.1 = trackFullnameHash) ||
    r.state.pubNamespaceActive.anyEntry fun key _ => q.hasSamePrefix key.1 trackNamespace

/-- What an advertised subscription does at this relay, after it is passed on. -/
def subscribeAdvertised (q : Quicr) (r : Relay) (peerSessionId : PeerSessionId)
    (si : SubscribeInfo) : Relay :=
  match q.parseSubscribe si.subscribeData with
  | none => r
  | some msg =>
    match msg.parameters.subscriberPriority with
    | none => r
    | some _ =>
      if r.announceMatches q si.trackHash.trackFullnameHash msg.trackNamespace then
        let attrs : SubscribeAttributes :=
          { priority := 10, newGroupRequestId := msg.parameters.newGroupRequest }
        let r := r.processSubscribe q 0 0 si.trackHash ⟨msg.trackNamespace, msg.trackName⟩ attrs
        -- The entry is under the session that the subscription has come on.
        r.forwardToNode q si.trackHash.trackFullnameHash si.sourceNodeId fun _ => peerSessionId
      else r

/-- What a withdrawn subscription does at this relay, after it is passed on. -/
def subscribeWithdrawn (r : Relay) (peerSessionId : PeerSessionId) (si : SubscribeInfo) : Relay :=
  let hash := si.trackHash.trackFullnameHash
  let r :=
    match r.infoBase.nodesBest[si.sourceNodeId]? with
    | none => r
    | some best =>
      match r.getPeerSession best with
      | none => r
      | some session =>
        let (session, _, snsRemoved) := session.removeSubscribeSourceNode hash si.sourceNodeId
        let r := r.setPeerSession best session
        if snsRemoved then
          let r := r.setInfoBase
            { r.infoBase with clientFib := r.infoBase.clientFib.erase (hash, peerSessionId) }
          if r.hasSubscribers hash then r else r.peerUnsubscribeTrack hash
        else r
  r.removeOrPausePublisherSubscribe hash

/-- The change of the subscriptions, and whether there was one. -/
def updateSubscribes (r : Relay) (si : SubscribeInfo) (withdraw : Bool) : Relay × Bool :=
  let (infoBase, isUpdated) :=
    if withdraw then r.infoBase.removeSubscribe si else r.infoBase.addSubscribe si
  (r.setInfoBase infoBase, isUpdated)

def subscribeInfoReceived (q : Quicr) (r : Relay) (peerSessionId : PeerSessionId)
    (si : SubscribeInfo) (withdraw : Bool) : Relay :=
  match r.getPeerSession peerSessionId with
  | none => r
  | some _ =>
    let (r, isUpdated) := r.updateSubscribes si withdraw
    let r := if isUpdated then r.sendSubscribeInfos (· == peerSessionId) si withdraw else r
    if withdraw then r.subscribeWithdrawn peerSessionId si
    else r.subscribeAdvertised q peerSessionId si

def announceInfoReceived (q : Quicr) (r : Relay) (peerSessionId : PeerSessionId)
    (info : AnnounceInfo) (withdraw : Bool) : Relay :=
  match r.getPeerSession peerSessionId with
  | none => r
  | some _ =>
    let (r, isUpdated) := r.updateAnnounces q info withdraw
    if !isUpdated then r
    else
      let r := r.sendAnnounceInfos (· == peerSessionId) info withdraw
      let th := q.trackHash info.fullTrackName
      if info.flags &&& 1 = 1 then
        if withdraw then r.publishNamespaceDoneReceived q 0 th.trackNamespaceHash
        else r.publishNamespaceReceived q 0 info.nameSpace th.trackNamespaceHash
      else if withdraw then r.publishDoneReceived q 0 0
      else r.publishReceived q 0 0 info.fullTrackName

end Relay

end Laps
