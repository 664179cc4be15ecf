import Laps.Lib.Champion
import Laps.Peering.InfoBase
import Mathlib.Data.Nat.Basic

/-! The node tables of the info base: what each session has told of a relay, which relays a session
has told of, and the session that is best for a relay. -/

namespace Laps.Peering

open Std

namespace InfoBase

/-- `weak_ptr::lock` of a pointer to a session. -/
def lock (live : PeerSessionId → Bool) (id : PeerSessionId) : Option PeerSessionId :=
  if live id then some id else none

/-! ### Selection of the best session -/

/-- The loop of `SelectBestNode`: whether the choice is new, and the session chosen so far with what
it has told. -/
structure BestChoice where
  isUpdated : Bool := false
  best : Option (PeerSessionId × NodeInfo) := none

/-- `none` where the source dereferences a null pointer or `at` throws. -/
def chooseNode (live : PeerSessionId → Bool) (ib : InfoBase) (nodeId : NodeIdValueType)
    (id : PeerSessionId) : Option (PeerSessionId × NodeInfo) := do
  let session ← lock live id
  let item ← ib.nodes[(nodeId, session)]?
  pure (session, item.nodeInfo)

/-- The entry has a shorter path or a lower total round trip time. -/
def isBetter (best info : NodeInfo) : Bool :=
  best.path.length > info.path.length || best.sumSrtt > info.sumSrtt

def considerNode (live : PeerSessionId → Bool) (ib : InfoBase) (nodeId : NodeIdValueType)
    (choice : BestChoice) (entry : (NodeIdValueType × PeerSessionId) × NodeItem) :
    Option BestChoice :=
  let choose := do
    let best ← ib.chooseNode live nodeId entry.2.peerSession
    pure { isUpdated := true, best := some best }
  match choice.best with
  | none => choose
  | some (_, best) => if isBetter best entry.2.nodeInfo then choose else pure choice

/-- The dump of the table reads the entry of every best session. -/
def dumpBest (live : PeerSessionId → Bool) (ib : InfoBase) : Option Unit :=
  if ib.nodesBest.toList.all fun entry =>
    (ib.chooseNode live entry.1 entry.2).isSome then some () else none

/-- The best session is set when the choice is new. -/
def takeChoice (live : PeerSessionId → Bool) (ib : InfoBase) (nodeId : NodeIdValueType) :
    BestChoice → Option (InfoBase × Bool)
  | ⟨true, some (session, _)⟩ => do
    let ib := { ib with nodesBest := ib.nodesBest.insert nodeId session }
    ib.dumpBest live
    pure (ib, true)
  | _ => pure (ib, false)

/-- Whether another session is the best one now. -/
def selectBestNode (live : PeerSessionId → Bool) (ib : InfoBase) (nodeId : NodeIdValueType) :
    Option (InfoBase × Bool) := do
  let best ← match ib.nodesBest[nodeId]? with
    | none => pure none
    | some id => (ib.chooseNode live nodeId id).map some
  let choice ← (ib.nodes.withFst nodeId).foldlM (ib.considerNode live nodeId)
    { isUpdated := false, best }
  ib.takeChoice live nodeId choice

/-! ### Changes of the tables -/

def insertNode (ib : InfoBase) (peerSession : PeerSessionId) (info : NodeInfo) : InfoBase :=
  { ib with
    nodes := ib.nodes.insert (info.id, peerSession) ⟨peerSession, info⟩
    nodesByPeerSession := ib.nodesByPeerSession.insert peerSession
      ((ib.nodesByPeerSession.getD peerSession ∅).insert info.id) }

def addNode (live : PeerSessionId → Bool) (ib : InfoBase) (peerSession : PeerSessionId)
    (info : NodeInfo) : Option (InfoBase × Bool) :=
  (ib.insertNode peerSession info).selectBestNode live info.id

/-- The entry goes, and a best session that was chosen is chosen again. -/
def dropNode (live : PeerSessionId → Bool) (peerSession : PeerSessionId) (ib : InfoBase)
    (nodeId : NodeIdValueType) : Option InfoBase :=
  let ib := { ib with nodes := ib.nodes.erase (nodeId, peerSession) }
  if ib.nodesBest.contains nodeId then
    ({ ib with nodesBest := ib.nodesBest.erase nodeId }.selectBestNode live nodeId).map Prod.fst
  else some ib

/-- The session no longer has the node in its row, and a row that becomes empty goes. -/
def forgetNode (rows : ExtTreeMap PeerSessionId (ExtTreeSet NodeIdValueType))
    (peerSession : PeerSessionId) (nodeId : NodeIdValueType) :
    ExtTreeMap PeerSessionId (ExtTreeSet NodeIdValueType) :=
  match rows[peerSession]? with
  | none => rows
  | some ids =>
    if (ids.erase nodeId).isEmpty then rows.erase peerSession
    else rows.insert peerSession (ids.erase nodeId)

def removeNode (live : PeerSessionId → Bool) (ib : InfoBase) (peerSession : PeerSessionId)
    (nodeId : NodeIdValueType) : Option InfoBase :=
  { ib with nodesByPeerSession :=
      forgetNode ib.nodesByPeerSession peerSession nodeId }.dropNode live peerSession nodeId

def purgePeerSessionInfo (live : PeerSessionId → Bool) (ib : InfoBase)
    (peerSession : PeerSessionId) : Option InfoBase := do
  let ib ← match ib.nodesByPeerSession[peerSession]? with
    | none => pure ib
    | some ids => do
      let ib ← ids.toList.foldlM (dropNode live peerSession) ib
      pure { ib with nodesByPeerSession := ib.nodesByPeerSession.erase peerSession }
  pure { ib with peerFib := ib.peerFib.filter fun key _ => key.1 ≠ peerSession }

/-! ### What a selection does -/

/-- The sessions that have told of the node, in their order, with what they have told. -/
def told (ib : InfoBase) (nodeId : NodeIdValueType) : List (PeerSessionId × NodeInfo) :=
  (ib.nodes.withFst nodeId).map fun entry => (entry.1.2, entry.2.nodeInfo)

/-- The number of hops. -/
def hops (entry : PeerSessionId × NodeInfo) : ℕ := entry.2.path.length

def totalSrtt (entry : PeerSessionId × NodeInfo) : ℕ := entry.2.sumSrtt.toNat

open Champion

/-- The best session of the node comes from a search through all that is told of it. -/
def Chosen (ib : InfoBase) (nodeId : NodeIdValueType) : Prop :=
  (ib.told nodeId = [] ∧ ib.nodesBest[nodeId]? = none) ∨
  ∃ start ∈ ib.told nodeId,
    ib.nodesBest[nodeId]? = some (champion hops totalSrtt start (ib.told nodeId)).1

theorem isBetter_iff {best info : PeerSessionId × NodeInfo} :
    isBetter best.2 info.2 = true ↔ Beats hops totalSrtt best info := by
  simp [isBetter, Beats, hops, totalSrtt, UInt64.lt_iff_toNat_lt]

theorem mem_told {ib : InfoBase} {nodeId : NodeIdValueType} {session : PeerSessionId}
    {info : NodeInfo} : (session, info) ∈ ib.told nodeId ↔
      ∃ item, ib.nodes[(nodeId, session)]? = some item ∧ item.nodeInfo = info := by
  unfold told
  rw [List.mem_map]
  constructor
  · rintro ⟨⟨⟨n, s⟩, item⟩, hmem, heq⟩
    obtain ⟨hget, hn⟩ := ExtTreeMap.mem_withFst.mp hmem
    cases heq
    cases hn
    exact ⟨item, hget, rfl⟩
  · rintro ⟨item, hget, rfl⟩
    exact ⟨((nodeId, session), item), ExtTreeMap.mem_withFst.mpr ⟨hget, rfl⟩, rfl⟩

theorem exists_mem_told {ib : InfoBase} {nodeId : NodeIdValueType} {session : PeerSessionId} :
    (∃ info, (session, info) ∈ ib.told nodeId) ↔ ib.nodes.contains (nodeId, session) = true := by
  rw [ExtTreeMap.contains_iff_getElem?]
  constructor
  · rintro ⟨info, hmem⟩
    obtain ⟨item, hget, -⟩ := mem_told.mp hmem
    exact ⟨item, hget⟩
  · rintro ⟨item, hget⟩
    exact ⟨item.nodeInfo, mem_told.mpr ⟨item, hget, rfl⟩⟩

theorem Chosen.mem {ib : InfoBase} {nodeId : NodeIdValueType} (h : ib.Chosen nodeId)
    {session : PeerSessionId} (hbest : ib.nodesBest[nodeId]? = some session) :
    ib.nodes.contains (nodeId, session) = true := by
  rcases h with ⟨-, hnone⟩ | ⟨start, hstart, hchampion⟩
  · rw [hnone] at hbest
    cases hbest
  · rw [hchampion] at hbest
    cases hbest
    exact exists_mem_told.mp ⟨_, champion_mem_of_mem hstart⟩

theorem Chosen.isSome_iff {ib : InfoBase} {nodeId : NodeIdValueType} (h : ib.Chosen nodeId) :
    ib.nodesBest.contains nodeId = true ↔ ∃ s, ib.nodes.contains (nodeId, s) = true := by
  rw [ExtTreeMap.contains_iff_getElem?]
  constructor
  · rintro ⟨session, hbest⟩
    exact ⟨session, h.mem hbest⟩
  · rintro ⟨session, hsession⟩
    rcases h with ⟨hempty, -⟩ | ⟨start, -, hchampion⟩
    · obtain ⟨info, hmem⟩ := exists_mem_told.mpr hsession
      rw [hempty] at hmem
      cases hmem
    · exact ⟨_, hchampion⟩

/-- The entries name their session, and the sessions are there. -/
structure Sound (live : PeerSessionId → Bool) (ib : InfoBase) : Prop where
  item : ∀ (n : NodeIdValueType) (s : PeerSessionId) (item : NodeItem),
    ib.nodes[(n, s)]? = some item → item.peerSession = s
  live : ∀ n s, ib.nodes.contains (n, s) = true → live s = true

section Select

variable {live : PeerSessionId → Bool} {ib : InfoBase} {nodeId : NodeIdValueType}

theorem Sound.chooseNode (h : ib.Sound live) {session : PeerSessionId} {info : NodeInfo}
    (hmem : (session, info) ∈ ib.told nodeId) :
    ib.chooseNode live nodeId session = some (session, info) := by
  obtain ⟨item, hget, rfl⟩ := mem_told.mp hmem
  have hlive : live session = true :=
    h.live nodeId session (ExtTreeMap.contains_iff_getElem?.mpr ⟨item, hget⟩)
  simp [InfoBase.chooseNode, lock, hlive, hget]

/-- The loop over entries of the node, once there is a choice. -/
theorem Sound.foldlM_considerNode (h : ib.Sound live)
    (entries : List ((NodeIdValueType × PeerSessionId) × NodeItem))
    (hentries : ∀ entry ∈ entries, entry ∈ ib.nodes.withFst nodeId) (isUpdated : Bool)
    (start : PeerSessionId × NodeInfo) :
    entries.foldlM (ib.considerNode live nodeId) ⟨isUpdated, some start⟩ =
      some ⟨isUpdated || entries.any fun entry => isBetter start.2 entry.2.nodeInfo,
        some (champion hops totalSrtt start
          (entries.map fun entry => (entry.1.2, entry.2.nodeInfo)))⟩ := by
  induction entries generalizing isUpdated start with
  | nil => simp [champion]
  | cons entry rest ih =>
    have hrest := fun isUpdated start =>
      ih (fun e he => hentries e (List.mem_cons_of_mem _ he)) isUpdated start
    have hentry := hentries entry List.mem_cons_self
    have htold : (entry.1.2, entry.2.nodeInfo) ∈ ib.told nodeId :=
      List.mem_map.mpr ⟨entry, hentry, rfl⟩
    obtain ⟨hget, hfst⟩ := ExtTreeMap.mem_withFst.mp hentry
    have hchoose : ib.chooseNode live nodeId entry.2.peerSession =
        some (entry.1.2, entry.2.nodeInfo) := by
      rw [h.item entry.1.1 entry.1.2 entry.2 hget]
      exact h.chooseNode htold
    rw [List.foldlM_cons, List.map_cons, champion_cons, List.any_cons]
    by_cases hbeats : Beats hops totalSrtt start (entry.1.2, entry.2.nodeInfo)
    · have hbetter : isBetter start.2 entry.2.nodeInfo = true := isBetter_iff.mpr hbeats
      simp only [considerNode, hbetter, if_true, hchoose, challenge, if_pos hbeats, Bool.true_or,
        Bool.or_true]
      exact hrest true (entry.1.2, entry.2.nodeInfo)
    · have hbetter : isBetter start.2 entry.2.nodeInfo = false :=
        Bool.eq_false_iff.mpr fun htrue => hbeats (isBetter_iff.mp htrue)
      simp only [considerNode, hbetter, Bool.false_eq_true, if_false, challenge, if_neg hbeats,
        Bool.false_or]
      exact hrest isUpdated start

/-- Everything but the best session of the node is kept. -/
structure Reselected (ib ib' : InfoBase) (nodeId : NodeIdValueType) : Prop where
  same : ib' = { ib with nodesBest := ib'.nodesBest }
  others : ∀ m, m ≠ nodeId → ib'.nodesBest[m]? = ib.nodesBest[m]?

theorem Reselected.told {ib' : InfoBase} (h : ib.Reselected ib' nodeId) (m : NodeIdValueType) :
    ib'.told m = ib.told m := by
  rw [h.same]
  rfl

theorem Reselected.chosen {ib' : InfoBase} (h : ib.Reselected ib' nodeId) {m : NodeIdValueType}
    (hm : m ≠ nodeId) (hchosen : ib.Chosen m) : ib'.Chosen m := by
  unfold Chosen
  rw [h.told, h.others m hm]
  exact hchosen

theorem Reselected.chosen_champion {ib' : InfoBase} (h : ib.Reselected ib' nodeId)
    {start : PeerSessionId × NodeInfo} (hstart : start ∈ ib.told nodeId)
    (hbest : ib'.nodesBest[nodeId]? = some (champion hops totalSrtt start (ib.told nodeId)).1) :
    ib'.Chosen nodeId := by
  refine Or.inr ⟨start, ?_, ?_⟩
  · rwa [h.told]
  · rwa [h.told]

/-- The dump finds every best session and its entry. -/
theorem Sound.dumpBest (h : ib.Sound live)
    (hbest : ∀ (m : NodeIdValueType) (s : PeerSessionId), ib.nodesBest[m]? = some s →
      ib.nodes.contains (m, s) = true) : ib.dumpBest live = some () := by
  unfold InfoBase.dumpBest
  rw [if_pos]
  rw [List.all_eq_true]
  rintro ⟨m, s⟩ hmem
  have hcontains := hbest m s (ExtTreeMap.mem_toList_iff_getElem?_eq_some.mp hmem)
  obtain ⟨info, htold⟩ := exists_mem_told.mpr hcontains
  rw [h.chooseNode htold]
  rfl

/-- The session that the loop over the entries ends with is the best one then. -/
theorem Sound.takeChoice (h : ib.Sound live)
    (hbest : ∀ (m : NodeIdValueType) (s : PeerSessionId), ib.nodesBest[m]? = some s →
      ib.nodes.contains (m, s) = true)
    (isUpdated : Bool) {best : PeerSessionId × NodeInfo} (hmem : best ∈ ib.told nodeId)
    (hsame : isUpdated = false → ib.nodesBest[nodeId]? = some best.1) :
    ∃ ib', ib.takeChoice live nodeId ⟨isUpdated, some best⟩ = some (ib', isUpdated) ∧
      ib.Reselected ib' nodeId ∧ ib'.nodesBest[nodeId]? = some best.1 := by
  cases isUpdated with
  | false => exact ⟨ib, rfl, ⟨rfl, fun _ _ => rfl⟩, hsame rfl⟩
  | true =>
    have hdump : InfoBase.dumpBest live
        { ib with nodesBest := ib.nodesBest.insert nodeId best.1 } = some () := by
      refine Sound.dumpBest ⟨h.item, h.live⟩ fun m s hm => ?_
      rw [ExtTreeMap.getElem?_insert] at hm
      split at hm
      · rename_i heq
        cases LawfulEqOrd.eq_of_compare heq
        cases hm
        exact exists_mem_told.mp ⟨_, hmem⟩
      · exact hbest m s hm
    refine ⟨{ ib with nodesBest := ib.nodesBest.insert nodeId best.1 }, ?_, ⟨rfl, fun m hm => ?_⟩,
      ?_⟩
    · simp only [InfoBase.takeChoice, hdump]
      rfl
    · rw [ExtTreeMap.getElem?_insert]
      simp [Ne.symm hm]
    · rw [ExtTreeMap.getElem?_insert_self]

/-- A selection starts from the best session of the node, and finds another when some entry is
better. -/
theorem Sound.selectBestNode_of_best (h : ib.Sound live)
    (hbest : ∀ (m : NodeIdValueType) (s : PeerSessionId), ib.nodesBest[m]? = some s →
      ib.nodes.contains (m, s) = true)
    {best : PeerSessionId × NodeInfo} (hnode : ib.nodesBest[nodeId]? = some best.1)
    (hmem : best ∈ ib.told nodeId) :
    ∃ ib', ib.selectBestNode live nodeId =
        some (ib', (ib.told nodeId).any fun entry => isBetter best.2 entry.2) ∧
      ib.Reselected ib' nodeId ∧
      ib'.nodesBest[nodeId]? = some (champion hops totalSrtt best (ib.told nodeId)).1 := by
  have hfold := h.foldlM_considerNode (ib.nodes.withFst nodeId) (fun _ he => he) false best
  obtain ⟨ib', htake, hsame, hchampion⟩ := h.takeChoice hbest
    ((ib.told nodeId).any fun entry => isBetter best.2 entry.2)
    (champion_mem_of_mem (f := hops) (g := totalSrtt) hmem) (by
      intro hfalse
      rw [champion_eq_start]
      · exact hnode
      · intro entry hentry hbeats
        exact List.any_eq_false.mp hfalse entry hentry (isBetter_iff.mpr hbeats))
  refine ⟨ib', ?_, hsame, hchampion⟩
  unfold InfoBase.selectBestNode
  simp only [hnode, h.chooseNode hmem, Option.map_some, Option.bind_eq_bind, Option.bind_some,
    hfold, Bool.false_or]
  rw [← htake, InfoBase.told, List.any_map]
  rfl

/-- The session that a search from the first entry of the node finds. -/
def anew (ib : InfoBase) (nodeId : NodeIdValueType) : Option PeerSessionId :=
  (ib.told nodeId).head?.map fun start => (champion hops totalSrtt start (ib.told nodeId)).1

theorem chosen_of_anew (h : ib.nodesBest[nodeId]? = ib.anew nodeId) : ib.Chosen nodeId := by
  unfold anew at h
  cases htold : ib.told nodeId with
  | nil =>
    rw [htold] at h
    exact Or.inl ⟨htold, h⟩
  | cons start rest =>
    refine Or.inr ⟨start, by simp [htold], ?_⟩
    rw [h, htold]
    rfl

theorem Reselected.anew {ib' : InfoBase} (h : ib.Reselected ib' nodeId) (m : NodeIdValueType) :
    ib'.anew m = ib.anew m := by
  unfold InfoBase.anew
  rw [h.told]

/-- A selection without a best session starts from the first entry. -/
theorem Sound.selectBestNode_anew (h : ib.Sound live)
    (hbest : ∀ (m : NodeIdValueType) (s : PeerSessionId), ib.nodesBest[m]? = some s →
      ib.nodes.contains (m, s) = true)
    (hnode : ib.nodesBest[nodeId]? = none) :
    ∃ ib', ib.selectBestNode live nodeId = some (ib', !(ib.told nodeId).isEmpty) ∧
      ib.Reselected ib' nodeId ∧ ib'.nodesBest[nodeId]? = ib.anew nodeId := by
  unfold InfoBase.selectBestNode anew
  rw [hnode]
  cases hentries : ib.nodes.withFst nodeId with
  | nil =>
    have hempty : ib.told nodeId = [] := by simp [InfoBase.told, hentries]
    rw [hempty]
    exact ⟨ib, rfl, ⟨rfl, fun _ _ => rfl⟩, hnode⟩
  | cons entry rest =>
    have hcons : ib.told nodeId = (entry.1.2, entry.2.nodeInfo) ::
        rest.map fun entry => (entry.1.2, entry.2.nodeInfo) := by
      rw [InfoBase.told, hentries, List.map_cons]
    have htold : (entry.1.2, entry.2.nodeInfo) ∈ ib.told nodeId := by simp [hcons]
    have hentry : entry ∈ ib.nodes.withFst nodeId := by simp [hentries]
    have hget := (ExtTreeMap.mem_withFst.mp hentry).1
    have hfirst : ib.considerNode live nodeId ⟨false, none⟩ entry =
        some ⟨true, some (entry.1.2, entry.2.nodeInfo)⟩ := by
      simp only [considerNode, h.item entry.1.1 entry.1.2 entry.2 hget, h.chooseNode htold]
      rfl
    have hfold := h.foldlM_considerNode rest
      (fun e he => by rw [hentries]; exact List.mem_cons_of_mem _ he) true
      (entry.1.2, entry.2.nodeInfo)
    have hsearch : champion hops totalSrtt (entry.1.2, entry.2.nodeInfo)
          (rest.map fun entry => (entry.1.2, entry.2.nodeInfo)) =
        champion hops totalSrtt (entry.1.2, entry.2.nodeInfo) (ib.told nodeId) := by
      rw [hcons, champion_cons, challenge_self]
    obtain ⟨ib', htake, hsame, hchampion⟩ := h.takeChoice hbest true
      (champion_mem_of_mem (f := hops) (g := totalSrtt) htold) (by simp)
    refine ⟨ib', ?_, hsame, ?_⟩
    · simp only [Option.pure_def, Option.bind_eq_bind, Option.bind_some, List.foldlM_cons, hfirst,
        hfold, Bool.true_or, hsearch]
      rw [htake, hcons]
      rfl
    · rw [hchampion, hcons]
      rfl

/-- A selection goes through when the best sessions of all nodes have entries, and the best session
of the node is then one that the search through its entries finds.  It is new when there was none.
-/
theorem Sound.selectBestNode (h : ib.Sound live) (nodeId : NodeIdValueType)
    (hbest : ∀ (m : NodeIdValueType) (s : PeerSessionId), ib.nodesBest[m]? = some s →
      ib.nodes.contains (m, s) = true) :
    ∃ ib' isUpdated, ib.selectBestNode live nodeId = some (ib', isUpdated) ∧
      ib.Reselected ib' nodeId ∧ ib'.Chosen nodeId ∧
      (ib.nodesBest[nodeId]? = none → ib.told nodeId ≠ [] → isUpdated = true) := by
  cases hnode : ib.nodesBest[nodeId]? with
  | some best =>
    obtain ⟨info, hinfo⟩ := exists_mem_told.mpr (hbest nodeId best hnode)
    obtain ⟨ib', hselect, hsame, hchampion⟩ := h.selectBestNode_of_best hbest hnode hinfo
    exact ⟨ib', _, hselect, hsame, hsame.chosen_champion hinfo hchampion, by simp⟩
  | none =>
    obtain ⟨ib', hselect, hsame, hchampion⟩ := h.selectBestNode_anew hbest hnode
    refine ⟨ib', _, hselect, hsame, chosen_of_anew ?_, fun _ hne => by simpa using hne⟩
    rw [hchampion, hsame.anew]

end Select

/-! ### Consistent tables -/

/-- The tables agree with each other. -/
structure NodeTables (ib : InfoBase) : Prop where
  item : ∀ (n : NodeIdValueType) (s : PeerSessionId) (item : NodeItem),
    ib.nodes[(n, s)]? = some item → item.peerSession = s ∧ item.nodeInfo.id = n
  chosen : ∀ n, ib.Chosen n
  byPeerSession : ∀ n s, (∃ ids, ib.nodesByPeerSession[s]? = some ids ∧ ids.contains n = true) ↔
    ib.nodes.contains (n, s) = true
  nonempty : ∀ (s : PeerSessionId) (ids : ExtTreeSet NodeIdValueType),
    ib.nodesByPeerSession[s]? = some ids → ids.isEmpty = false

/-- The sessions with entries are there. -/
def Alive (live : PeerSessionId → Bool) (ib : InfoBase) : Prop :=
  ∀ n s, ib.nodes.contains (n, s) = true → live s = true

/-- The part of the tables that a purge keeps in its middle. -/
structure Searched (ib : InfoBase) : Prop where
  item : ∀ (n : NodeIdValueType) (s : PeerSessionId) (item : NodeItem),
    ib.nodes[(n, s)]? = some item → item.peerSession = s ∧ item.nodeInfo.id = n
  chosen : ∀ n, ib.Chosen n

theorem NodeTables.searched {ib : InfoBase} (h : ib.NodeTables) : ib.Searched :=
  ⟨h.item, h.chosen⟩

theorem nodeTables_empty : ({} : InfoBase).NodeTables where
  item n s item h := by simp at h
  chosen n := Or.inl ⟨by simp [told, ExtTreeMap.withFst], by simp⟩
  byPeerSession n s := by simp
  nonempty s ids h := by simp at h

section Changes

variable {live : PeerSessionId → Bool} {ib : InfoBase} {nodeId : NodeIdValueType}
variable {session : PeerSessionId}

theorem told_congr {ib ib' : InfoBase} {m : NodeIdValueType}
    (h : ∀ s : PeerSessionId, ib'.nodes[(m, s)]? = ib.nodes[(m, s)]?) : ib'.told m = ib.told m := by
  rw [told, told, ExtTreeMap.withFst_congr h]

theorem Chosen.congr {ib ib' : InfoBase} {m : NodeIdValueType} (hchosen : ib.Chosen m)
    (h : ∀ s : PeerSessionId, ib'.nodes[(m, s)]? = ib.nodes[(m, s)]?)
    (hbest : ib'.nodesBest[m]? = ib.nodesBest[m]?) : ib'.Chosen m := by
  unfold Chosen
  rw [told_congr h, hbest]
  exact hchosen

theorem Reselected.searched {ib' : InfoBase} (h : ib.Reselected ib' nodeId)
    (hitem : ∀ (n : NodeIdValueType) (s : PeerSessionId) (item : NodeItem),
      ib.nodes[(n, s)]? = some item → item.peerSession = s ∧ item.nodeInfo.id = n)
    (hothers : ∀ m, m ≠ nodeId → ib.Chosen m) (hchosen : ib'.Chosen nodeId) : ib'.Searched := by
  refine ⟨?_, fun m => ?_⟩
  · rw [h.same]
    exact hitem
  · by_cases hm : m = nodeId
    · rw [hm]
      exact hchosen
    · exact h.chosen hm (hothers m hm)

/-- The entries of the session for the nodes are gone, and for these nodes the best session is the
one that a search from the first entry left finds. -/
structure Dropped (ib ib' : InfoBase) (session : PeerSessionId)
    (dropped : List NodeIdValueType) : Prop where
  entry : ∀ (n : NodeIdValueType) (s : PeerSessionId), ib'.nodes[(n, s)]? =
    if n ∈ dropped ∧ s = session then none else ib.nodes[(n, s)]?
  best : ∀ n, ib'.nodesBest[n]? = if n ∈ dropped then ib'.anew n else ib.nodesBest[n]?

section Dropped

variable {ib' : InfoBase} {dropped : List NodeIdValueType}

theorem Dropped.contains (h : ib.Dropped ib' session dropped) (n : NodeIdValueType)
    (s : PeerSessionId) : ib'.nodes.contains (n, s) = true ↔
      ¬ (n ∈ dropped ∧ s = session) ∧ ib.nodes.contains (n, s) = true := by
  rw [ExtTreeMap.contains_iff_getElem?, ExtTreeMap.contains_iff_getElem?, h.entry]
  split
  · rename_i hgone
    simp [hgone]
  · rename_i hkept
    simp [hkept]

theorem Dropped.alive (h : ib.Dropped ib' session dropped) (halive : ib.Alive live) :
    ib'.Alive live :=
  fun n s hs => halive n s ((h.contains n s).mp hs).2

theorem Dropped.told_of_notMem (h : ib.Dropped ib' session dropped) {n : NodeIdValueType}
    (hn : n ∉ dropped) : ib'.told n = ib.told n :=
  told_congr fun s => by rw [h.entry, if_neg fun hgone => hn hgone.1]

theorem Dropped.searched (h : ib.Dropped ib' session dropped) (hsearched : ib.Searched) :
    ib'.Searched := by
  refine ⟨fun n s item hitem => ?_, fun n => ?_⟩
  · rw [h.entry] at hitem
    split at hitem
    · cases hitem
    · exact hsearched.item n s item hitem
  · by_cases hn : n ∈ dropped
    · exact chosen_of_anew (by rw [h.best, if_pos hn])
    · unfold Chosen
      rw [h.told_of_notMem hn, h.best, if_neg hn]
      exact hsearched.chosen n

theorem Dropped.cons {mid : InfoBase} {first : NodeIdValueType}
    (hfirst : ib.Dropped mid session [first]) (hrest : mid.Dropped ib' session dropped) :
    ib.Dropped ib' session (first :: dropped) := by
  refine ⟨fun n s => ?_, fun n => ?_⟩
  · rw [hrest.entry, hfirst.entry]
    by_cases hs : s = session
    · by_cases hn : n ∈ dropped
      · simp [hs, hn]
      · simp [hs, hn]
    · simp [hs]
  · rw [hrest.best, hfirst.best]
    by_cases hn : n ∈ dropped
    · simp [hn]
    · by_cases heq : n = first
      · subst heq
        unfold anew
        simp [hn, hrest.told_of_notMem hn]
      · simp [hn, heq]

end Dropped

/-- An entry goes: the others stay, and the best sessions are chosen from what is left. -/
theorem Searched.dropNode (h : ib.Searched) (halive : ib.Alive live) (nodeId : NodeIdValueType)
    (session : PeerSessionId) :
    ∃ ib', ib.dropNode live session nodeId = some ib' ∧
      ib' = { ib with nodes := ib.nodes.erase (nodeId, session), nodesBest := ib'.nodesBest } ∧
      ib.Dropped ib' session [nodeId] := by
  have herase : ∀ (n : NodeIdValueType) (s : PeerSessionId),
      (ib.nodes.erase (nodeId, session))[(n, s)]? =
        if n ∈ [nodeId] ∧ s = session then none else ib.nodes[(n, s)]? := by
    intro n s
    rw [ExtTreeMap.getElem?_erase_ite]
    simp only [Prod.mk.injEq, List.mem_singleton]
  have hget : ∀ (n : NodeIdValueType) (s : PeerSessionId) (item : NodeItem),
      (ib.nodes.erase (nodeId, session))[(n, s)]? = some item → ib.nodes[(n, s)]? = some item := by
    intro n s item hitem
    rw [herase] at hitem
    split at hitem
    · cases hitem
    · exact hitem
  unfold InfoBase.dropNode
  dsimp only
  split
  · -- The node had a best session, so its entries are searched anew.
    have hsound : InfoBase.Sound live { ib with
        nodes := ib.nodes.erase (nodeId, session)
        nodesBest := ib.nodesBest.erase nodeId } := by
      refine ⟨fun n s item hitem => (h.item n s item (hget n s item hitem)).1, fun n s hs => ?_⟩
      obtain ⟨item, hitem⟩ := ExtTreeMap.contains_iff_getElem?.mp hs
      exact halive n s (ExtTreeMap.contains_iff_getElem?.mpr ⟨item, hget n s item hitem⟩)
    have hbest : ∀ (m : NodeIdValueType) (s : PeerSessionId),
        (ib.nodesBest.erase nodeId)[m]? = some s →
          (ib.nodes.erase (nodeId, session)).contains (m, s) = true := by
      intro m s hm
      rw [ExtTreeMap.getElem?_erase_ite] at hm
      split at hm
      · cases hm
      · rename_i hne
        obtain ⟨item, hitem⟩ := ExtTreeMap.contains_iff_getElem?.mp ((h.chosen m).mem hm)
        rw [ExtTreeMap.contains_iff_getElem?]
        exact ⟨item, by rw [herase, if_neg (by simp [hne]), hitem]⟩
    obtain ⟨ib', hselect, hsame, hanew⟩ :=
      hsound.selectBestNode_anew hbest ExtTreeMap.getElem?_erase_self
    refine ⟨ib', by rw [hselect]; rfl, hsame.same, ?_, fun n => ?_⟩
    · rw [hsame.same]
      exact herase
    · by_cases hn : n = nodeId
      · subst hn
        rw [if_pos List.mem_cons_self, hanew, hsame.anew]
      · rw [if_neg (by simpa using hn), hsame.others n hn]
        exact (ExtTreeMap.getElem?_erase_ite _ _ _).trans (if_neg hn)
  · -- Without a best session the node has no entries.
    rename_i hbest
    refine ⟨_, rfl, rfl, herase, fun n => ?_⟩
    split
    · rename_i hn
      rw [List.mem_singleton] at hn
      subst hn
      have hnone : ib.nodesBest[n]? = none :=
        ExtTreeMap.contains_eq_false_iff.mp (Bool.not_eq_true _ ▸ hbest)
      have htold : InfoBase.told { ib with nodes := ib.nodes.erase (n, session) } n = [] := by
        rw [List.eq_nil_iff_forall_not_mem]
        rintro ⟨s, info⟩ hmem
        obtain ⟨item, hitem, -⟩ := mem_told.mp hmem
        exact hbest ((h.chosen n).isSome_iff.mpr
          ⟨s, ExtTreeMap.contains_iff_getElem?.mpr ⟨item, hget n s item hitem⟩⟩)
      rw [anew, htold]
      exact hnone
    · rfl

theorem getElem?_nodes_insertNode (ib : InfoBase) (session : PeerSessionId) (info : NodeInfo)
    (n : NodeIdValueType) (s : PeerSessionId) : (ib.insertNode session info).nodes[(n, s)]? =
      if n = info.id ∧ s = session then some ⟨session, info⟩ else ib.nodes[(n, s)]? := by
  show (ib.nodes.insert (info.id, session) ⟨session, info⟩)[(n, s)]? = _
  rw [ExtTreeMap.getElem?_insert]
  simp only [LawfulEqCmp.compare_eq_iff_eq, Prod.mk.injEq, eq_comm (a := n), eq_comm (a := s)]

theorem contains_nodes_insertNode (ib : InfoBase) (session : PeerSessionId) (info : NodeInfo)
    (n : NodeIdValueType) (s : PeerSessionId) :
    (ib.insertNode session info).nodes.contains (n, s) = true ↔
      (n = info.id ∧ s = session) ∨ ib.nodes.contains (n, s) = true := by
  show (ib.nodes.insert (info.id, session) ⟨session, info⟩).contains (n, s) = true ↔ _
  rw [ExtTreeMap.contains_insert_iff, Prod.mk.injEq]

/-- The rows of `nodesByPeerSession` keep up with the entry. -/
theorem NodeTables.byPeerSession_insertNode (h : ib.NodeTables) (info : NodeInfo)
    (n : NodeIdValueType) (s : PeerSessionId) :
    (∃ ids, (ib.insertNode session info).nodesByPeerSession[s]? = some ids ∧
      ids.contains n = true) ↔ (ib.insertNode session info).nodes.contains (n, s) = true := by
  rw [contains_nodes_insertNode, ← h.byPeerSession n s]
  show (∃ ids, (ib.nodesByPeerSession.insert session _)[s]? = some ids ∧ _) ↔ _
  rw [ExtTreeMap.getElem?_insert]
  by_cases hs : s = session
  · subst hs
    rw [if_pos ReflOrd.compare_self]
    simp only [Option.some.injEq, exists_eq_left', ExtTreeSet.contains_insert_iff, and_true,
      ExtTreeMap.getD_eq_getD_getElem?]
    cases ib.nodesByPeerSession[s]? <;> simp
  · rw [if_neg fun heq => hs (LawfulEqOrd.eq_of_compare heq).symm]
    simp [hs]

theorem NodeTables.item_insertNode (h : ib.NodeTables) (info : NodeInfo)
    (n : NodeIdValueType) (s : PeerSessionId) (item : NodeItem)
    (hitem : (ib.insertNode session info).nodes[(n, s)]? = some item) :
    item.peerSession = s ∧ item.nodeInfo.id = n := by
  rw [getElem?_nodes_insertNode] at hitem
  split at hitem
  · rename_i heq
    cases hitem
    exact ⟨heq.2.symm, heq.1.symm⟩
  · exact h.item n s item hitem

theorem NodeTables.sound_insertNode (h : ib.NodeTables) (halive : ib.Alive live) (info : NodeInfo)
    (hlive : live session = true) : (ib.insertNode session info).Sound live := by
  refine ⟨fun n s item hn => (h.item_insertNode info n s item hn).1, fun n s hs => ?_⟩
  rcases (contains_nodes_insertNode ib session info n s).mp hs with ⟨-, rfl⟩ | hs
  · exact hlive
  · exact halive n s hs

theorem NodeTables.best_insertNode (h : ib.NodeTables) (info : NodeInfo) (m : NodeIdValueType)
    (s : PeerSessionId) (hm : ib.nodesBest[m]? = some s) :
    (ib.insertNode session info).nodes.contains (m, s) = true :=
  (contains_nodes_insertNode ib session info m s).mpr (Or.inr ((h.chosen m).mem hm))

/-- A session tells of a node. -/
theorem NodeTables.addNode (h : ib.NodeTables) (halive : ib.Alive live) (info : NodeInfo)
    (hlive : live session = true) :
    ∃ ib' isUpdated, ib.addNode live session info = some (ib', isUpdated) ∧
      (ib.insertNode session info).Reselected ib' info.id ∧ ib'.NodeTables ∧
      (ib.nodesBest[info.id]? = none → isUpdated = true) := by
  obtain ⟨ib', isUpdated, hselect, hsame, hchosen, hupdated⟩ :=
    (h.sound_insertNode halive info hlive).selectBestNode info.id (h.best_insertNode info)
  have hothers : ∀ m, m ≠ info.id → (ib.insertNode session info).Chosen m := by
    intro m hm
    refine (h.chosen m).congr (fun s => ?_) rfl
    rw [getElem?_nodes_insertNode, if_neg fun heq => hm heq.1]
  have hsearched := hsame.searched (h.item_insertNode info) hothers hchosen
  refine ⟨ib', isUpdated, hselect, hsame, ⟨hsearched.item, hsearched.chosen, fun n s => ?_, ?_⟩, ?_⟩
  · rw [hsame.same]
    exact h.byPeerSession_insertNode info n s
  · rw [hsame.same]
    intro s ids hids
    change (ib.nodesByPeerSession.insert session _)[s]? = some ids at hids
    rw [ExtTreeMap.getElem?_insert] at hids
    split at hids
    · cases hids
      exact ExtTreeSet.isEmpty_eq_false_iff_contains.mpr
        ⟨info.id, ExtTreeSet.contains_insert_iff.mpr (Or.inl rfl)⟩
    · exact h.nonempty s ids hids
  · intro hnone
    refine hupdated hnone fun hempty => ?_
    obtain ⟨told, hmem⟩ := exists_mem_told.mpr
      ((contains_nodes_insertNode ib session info info.id session).mpr (Or.inl ⟨rfl, rfl⟩))
    rw [hempty] at hmem
    cases hmem

section ForgetNode

variable {rows : ExtTreeMap PeerSessionId (ExtTreeSet NodeIdValueType)}

theorem forgetNode_of_ne {s : PeerSessionId} (hs : s ≠ session) (nodeId : NodeIdValueType) :
    (forgetNode rows session nodeId)[s]? = rows[s]? := by
  unfold forgetNode
  split
  · rfl
  · split
    · simp [ExtTreeMap.getElem?_erase, Ne.symm hs]
    · simp [ExtTreeMap.getElem?_insert, Ne.symm hs]

theorem forgetNode_self (session : PeerSessionId) (nodeId : NodeIdValueType) :
    (forgetNode rows session nodeId)[session]? =
      (rows[session]?.map (·.erase nodeId)).filter fun ids => !ids.isEmpty := by
  unfold forgetNode
  cases hrow : rows[session]? with
  | none => simp [hrow]
  | some ids =>
    by_cases hempty : (ids.erase nodeId).isEmpty = true
    · simp [hempty, Option.filter]
    · simp [hempty, Option.filter]

theorem forgetNode_nonempty
    (h : ∀ (s : PeerSessionId) ids, rows[s]? = some ids → ids.isEmpty = false)
    (session : PeerSessionId) (nodeId : NodeIdValueType) (s : PeerSessionId)
    (ids : ExtTreeSet NodeIdValueType) (hids : (forgetNode rows session nodeId)[s]? = some ids) :
    ids.isEmpty = false := by
  by_cases hs : s = session
  · subst hs
    rw [forgetNode_self, Option.filter_eq_some_iff] at hids
    simpa using hids.2
  · rw [forgetNode_of_ne hs] at hids
    exact h s ids hids

theorem mem_forgetNode (session : PeerSessionId) (nodeId n : NodeIdValueType)
    (s : PeerSessionId) :
    (∃ ids, (forgetNode rows session nodeId)[s]? = some ids ∧ ids.contains n = true) ↔
      ¬ (n = nodeId ∧ s = session) ∧ ∃ ids, rows[s]? = some ids ∧ ids.contains n = true := by
  by_cases hs : s = session
  · subst hs
    rw [forgetNode_self]
    cases hrow : rows[s]? with
    | none => simp
    | some ids =>
      simp only [Option.map_some, Option.filter_eq_some_iff, Option.some.injEq]
      constructor
      · rintro ⟨_, ⟨rfl, -⟩, hmem⟩
        obtain ⟨hne, hmem⟩ := ExtTreeSet.contains_erase_iff.mp hmem
        exact ⟨fun heq => hne heq.1, ids, rfl, hmem⟩
      · rintro ⟨hne, _, rfl, hmem⟩
        have herase : (ids.erase nodeId).contains n = true :=
          ExtTreeSet.contains_erase_iff.mpr ⟨fun heq => hne ⟨heq, trivial⟩, hmem⟩
        have hnonempty := ExtTreeSet.isEmpty_eq_false_iff_contains.mpr ⟨n, herase⟩
        exact ⟨_, ⟨rfl, by simp [hnonempty]⟩, herase⟩
  · rw [forgetNode_of_ne hs]
    simp [hs]

end ForgetNode

theorem contains_erase_nodes (ib : InfoBase) (nodeId n : NodeIdValueType)
    (session s : PeerSessionId) : (ib.nodes.erase (nodeId, session)).contains (n, s) = true ↔
      ¬ (n = nodeId ∧ s = session) ∧ ib.nodes.contains (n, s) = true := by
  rw [ExtTreeMap.contains_erase, Bool.and_eq_true, bne_iff_ne, ne_eq,
    LawfulEqCmp.compare_eq_iff_eq, Prod.mk.injEq, eq_comm (a := n), eq_comm (a := s)]

/-- A session takes back what it has told of a node. -/
theorem NodeTables.removeNode (h : ib.NodeTables) (halive : ib.Alive live)
    (nodeId : NodeIdValueType) (session : PeerSessionId) :
    ∃ ib', ib.removeNode live session nodeId = some ib' ∧
      ib' = { ib with
        nodes := ib.nodes.erase (nodeId, session)
        nodesBest := ib'.nodesBest
        nodesByPeerSession := forgetNode ib.nodesByPeerSession session nodeId } ∧
      ib.Dropped ib' session [nodeId] ∧ ib'.NodeTables := by
  have hsearched : InfoBase.Searched { ib with
      nodesByPeerSession := forgetNode ib.nodesByPeerSession session nodeId } :=
    ⟨h.item, h.chosen⟩
  obtain ⟨ib', hdrop, hsame, hdropped⟩ := hsearched.dropNode halive nodeId session
  have hsearched' := hdropped.searched hsearched
  refine ⟨ib', hdrop, hsame, ⟨hdropped.entry, hdropped.best⟩, hsearched'.item, hsearched'.chosen,
    fun n s => ?_, ?_⟩
  · rw [hsame]
    refine (mem_forgetNode session nodeId n s).trans ?_
    rw [h.byPeerSession n s]
    exact (contains_erase_nodes ib nodeId n session s).symm
  · rw [hsame]
    exact forgetNode_nonempty h.nonempty session nodeId

/-- The loop of a purge. -/
theorem Searched.foldlM_dropNode (session : PeerSessionId) (ids : List NodeIdValueType)
    {ib : InfoBase} (h : ib.Searched) (halive : ib.Alive live) :
    ∃ ib', ids.foldlM (InfoBase.dropNode live session) ib = some ib' ∧
      ib.Dropped ib' session ids := by
  induction ids generalizing ib with
  | nil => exact ⟨ib, rfl, fun n s => by simp, fun n => by simp⟩
  | cons first rest ih =>
    obtain ⟨mid, hdrop, -, hfirst⟩ := h.dropNode halive first session
    obtain ⟨ib', hfold, hrest⟩ := ih (hfirst.searched h) (hfirst.alive halive)
    refine ⟨ib', ?_, hfirst.cons hrest⟩
    rw [List.foldlM_cons, hdrop]
    exact hfold

/-! Whatever the tables are, the functions that come to an end leave the rest of the info base
alone. -/

theorem takeChoice_rest {ib ib' : InfoBase} {nodeId : NodeIdValueType} {choice : BestChoice}
    {isUpdated : Bool} (h : ib.takeChoice live nodeId choice = some (ib', isUpdated)) :
    ib' = { ib with nodesBest := ib'.nodesBest } := by
  unfold InfoBase.takeChoice at h
  split at h
  · rw [Option.bind_eq_bind, Option.bind_eq_some_iff] at h
    obtain ⟨-, -, h⟩ := h
    cases h
    rfl
  · cases h
    rfl

theorem selectBestNode_rest {ib ib' : InfoBase} {nodeId : NodeIdValueType} {isUpdated : Bool}
    (h : ib.selectBestNode live nodeId = some (ib', isUpdated)) :
    ib' = { ib with nodesBest := ib'.nodesBest } := by
  unfold InfoBase.selectBestNode at h
  simp only [Option.bind_eq_bind] at h
  split at h
  · obtain ⟨best, -, h⟩ := Option.bind_eq_some_iff.mp h
    obtain ⟨choice, -, h⟩ := Option.bind_eq_some_iff.mp h
    exact takeChoice_rest h
  · obtain ⟨best, -, h⟩ := Option.bind_eq_some_iff.mp h
    obtain ⟨choice, -, h⟩ := Option.bind_eq_some_iff.mp h
    exact takeChoice_rest h

theorem dropNode_rest {ib ib' : InfoBase} {peerSession : PeerSessionId}
    {nodeId : NodeIdValueType} (h : ib.dropNode live peerSession nodeId = some ib') :
    ib' = { ib with nodes := ib'.nodes, nodesBest := ib'.nodesBest } := by
  unfold dropNode at h
  dsimp only at h
  split at h
  · obtain ⟨⟨ib₁, isUpdated⟩, hselect, rfl⟩ := Option.map_eq_some_iff.mp h
    rw [selectBestNode_rest hselect]
  · cases h
    rfl

theorem foldlM_dropNode_rest {ib ib' : InfoBase} {peerSession : PeerSessionId}
    {l : List NodeIdValueType} (h : l.foldlM (dropNode live peerSession) ib = some ib') :
    ib' = { ib with nodes := ib'.nodes, nodesBest := ib'.nodesBest } := by
  induction l generalizing ib with
  | nil =>
    cases h
    rfl
  | cons nodeId l ih =>
    rw [List.foldlM_cons, Option.bind_eq_bind, Option.bind_eq_some_iff] at h
    obtain ⟨ib₁, hdrop, h⟩ := h
    rw [ih h, dropNode_rest hdrop]

theorem purgePeerSessionInfo_rest {ib ib' : InfoBase} {peerSession : PeerSessionId}
    (h : ib.purgePeerSessionInfo live peerSession = some ib') :
    ib' = { ib with
      nodes := ib'.nodes, nodesBest := ib'.nodesBest
      nodesByPeerSession := ib'.nodesByPeerSession, peerFib := ib'.peerFib } := by
  unfold InfoBase.purgePeerSessionInfo at h
  simp only [Option.bind_eq_bind] at h
  split at h
  · cases h
    rfl
  · obtain ⟨ib₁, hfold, h⟩ := Option.bind_eq_some_iff.mp h
    cases h
    rw [foldlM_dropNode_rest hfold]

/-- The nodes in the row of the session. -/
def nodesOf (ib : InfoBase) (session : PeerSessionId) : List NodeIdValueType :=
  (ib.nodesByPeerSession.getD session ∅).toList

theorem NodeTables.mem_nodesOf (h : ib.NodeTables) (session : PeerSessionId)
    (n : NodeIdValueType) : n ∈ ib.nodesOf session ↔ ib.nodes.contains (n, session) = true := by
  rw [nodesOf, ExtTreeSet.mem_toList, ← ExtTreeSet.contains_iff_mem, ← h.byPeerSession n session,
    ExtTreeMap.getD_eq_getD_getElem?]
  cases ib.nodesByPeerSession[session]? <;> simp

/-- When all its nodes are dropped, the session has no entries left. -/
theorem Dropped.contains_all {ib' : InfoBase} {dropped : List NodeIdValueType}
    (h : ib.Dropped ib' session dropped)
    (hall : ∀ n, n ∈ dropped ↔ ib.nodes.contains (n, session) = true) (n : NodeIdValueType)
    (s : PeerSessionId) :
    ib'.nodes.contains (n, s) = true ↔ s ≠ session ∧ ib.nodes.contains (n, s) = true := by
  rw [h.contains, hall]
  constructor
  · rintro ⟨hnot, hs⟩
    refine ⟨?_, hs⟩
    rintro rfl
    exact hnot ⟨hs, rfl⟩
  · rintro ⟨hne, hs⟩
    exact ⟨fun heq => hne heq.2, hs⟩

theorem purgePeerSessionInfo_eq (live : PeerSessionId → Bool) (ib : InfoBase)
    (session : PeerSessionId) : ib.purgePeerSessionInfo live session =
      ((ib.nodesOf session).foldlM (dropNode live session) ib).map fun mid =>
        { mid with
          nodesByPeerSession := mid.nodesByPeerSession.erase session
          peerFib := mid.peerFib.filter fun key _ => key.1 ≠ session } := by
  unfold purgePeerSessionInfo nodesOf
  rw [ExtTreeMap.getD_eq_getD_getElem?]
  cases hrow : ib.nodesByPeerSession[session]? with
  | none =>
    have hrows : ib.nodesByPeerSession.erase session = ib.nodesByPeerSession := by
      refine ExtTreeMap.ext_getElem? fun s => ?_
      rw [ExtTreeMap.getElem?_erase_ite]
      split
      · rename_i hs
        rw [hs, hrow]
      · rfl
    have hnil : (∅ : ExtTreeSet NodeIdValueType).toList = [] := rfl
    rw [Option.getD_none, hnil, List.foldlM_nil, Option.pure_def, Option.map_some, hrows]
    rfl
  | some ids =>
    dsimp only [Option.getD_some]
    cases ids.toList.foldlM (dropNode live session) ib with
    | none => rfl
    | some mid => rfl

/-- A session goes with all that it has told. -/
theorem NodeTables.purgePeerSessionInfo (h : ib.NodeTables) (halive : ib.Alive live)
    (session : PeerSessionId) :
    ∃ ib', ib.purgePeerSessionInfo live session = some ib' ∧
      ib' = { ib with
        nodes := ib'.nodes
        nodesBest := ib'.nodesBest
        nodesByPeerSession := ib.nodesByPeerSession.erase session
        peerFib := ib.peerFib.filter fun key _ => key.1 ≠ session } ∧
      ib.Dropped ib' session (ib.nodesOf session) ∧ ib'.NodeTables := by
  obtain ⟨mid, hfold, hdropped⟩ :=
    h.searched.foldlM_dropNode session (ib.nodesOf session) halive
  have hsame := foldlM_dropNode_rest hfold
  have hrows : mid.nodesByPeerSession = ib.nodesByPeerSession := by rw [hsame]
  have hsearched := hdropped.searched h.searched
  rw [purgePeerSessionInfo_eq, hfold]
  refine ⟨_, rfl, ?_, ⟨hdropped.entry, hdropped.best⟩, hsearched.item, hsearched.chosen,
    fun n s => ?_, fun s row hs => ?_⟩
  · rw [hsame]
  · rw [hdropped.contains_all (h.mem_nodesOf session), ← h.byPeerSession n s]
    show (∃ row, (mid.nodesByPeerSession.erase session)[s]? = some row ∧ _) ↔ _
    rw [hrows, ExtTreeMap.getElem?_erase_ite]
    by_cases hs : s = session
    · simp [hs]
    · simp [hs]
  · change (mid.nodesByPeerSession.erase session)[s]? = some row at hs
    rw [hrows, ExtTreeMap.getElem?_erase_ite] at hs
    split at hs
    · cases hs
    · exact h.nonempty s row hs

end Changes

end InfoBase

end Laps.Peering
