import Laps.Lib.Walk
import Laps.Messages.Codec

/-! The constructors of the control messages as they walk over the body of a message.  They check
the end of the body in one place only. -/

namespace Laps.Messages

open Std Wire Peering

/-! ### The walks -/

def walkPathItem : Walker NodePathItem := do
  let id ← Walker.host 8
  let srttUs ← Walker.host 8
  pure { id := UInt64.ofNat id, srttUs := UInt64.ofNat srttUs }

/-- `size` is where the body ends. -/
def NodeInfo.walk (size : ℕ) : Walker NodeInfo := do
  let id ← Walker.u64
  let type ← Walker.byte
  let contactLen ← Walker.varint
  let contact ← Walker.fetch contactLen
  let longitude ← Walker.u64
  let latitude ← Walker.u64
  let path ← Walker.toEnd size walkPathItem
  pure { id, type := ⟨type⟩, contact, longitude, latitude, path }

def Connect.walk (size : ℕ) : Walker Connect := do
  let mode ← Walker.byte
  let nodeInfo ← NodeInfo.walk size
  pure { mode := ⟨mode⟩, nodeInfo }

def ConnectResponse.walk (size : ℕ) : Walker ConnectResponse := do
  let error ← Walker.u16
  if error = 0 then
    let info ← NodeInfo.walk size
    pure { error := ⟨error⟩, nodeInfo := some info }
  else pure { error := ⟨error⟩, nodeInfo := none }

/-- The data of the subscription: its size is compared with what is left of the body. -/
def SubscribeInfo.walkData (size : ℕ) (subSize : UInt32) : Walker (List UInt8) :=
  if subSize = 0 then pure []
  else do
    let pos ← Walker.here
    if size - pos < subSize.toNat then Walker.throw else Walker.fetch subSize.toNat

def SubscribeInfo.walk (size : ℕ) : Walker SubscribeInfo := do
  let seq ← Walker.u16
  let sourceNodeId ← Walker.u64
  let trackNamespaceHash ← Walker.u64
  let trackNameHash ← Walker.u64
  let trackFullnameHash ← Walker.u64
  let subSize ← Walker.u32
  let subscribeData ← walkData size subSize
  pure { seq, sourceNodeId, trackHash := ⟨trackNamespaceHash, trackNameHash, trackFullnameHash⟩,
         subscribeData }

def AnnounceInfo.walkShort : Walker (List UInt8) := do
  let len ← Walker.u16
  Walker.fetch len.toNat

/-- The namespace copies its tuples. -/
def AnnounceInfo.walk : Walker AnnounceInfo := do
  let sourceNodeId ← Walker.u64
  let fullnameHash ← Walker.u64
  let numEntries ← Walker.byte
  let nameSpace ← Walker.times walkShort numEntries.toNat
  let name ← walkShort
  let flags ← Walker.byte
  pure { sourceNodeId, nameSpace, name, fullnameHash, flags }

def SubscribeNodeSet.walk (withdraw : Bool) : Walker SubscribeNodeSet := do
  let id ← Walker.u32
  if withdraw then pure { id }
  else
    let priority ← Walker.byte
    let numNodes ← Walker.u16
    let nodes ← Walker.times Walker.u64 numNodes.toNat
    pure { id, priority, nodes := .ofList nodes }

inductive Decoder where
  | connect
  | connectResponse
  | nodeInfo
  | subscribeInfo
  | announceInfo
  | subscribeNodeSet (withdraw : Bool)
  deriving DecidableEq, Repr

/-- The constructor for a body of `size` bytes. -/
def Decoder.walk (size : ℕ) : Decoder → Walker Received
  | .connect => Walker.map .connect (Connect.walk size)
  | .connectResponse => Walker.map .connectResponse (ConnectResponse.walk size)
  | .nodeInfo => Walker.map (.nodeInfo · false) (NodeInfo.walk size)
  | .subscribeInfo => Walker.map (.subscribeInfo · false) (SubscribeInfo.walk size)
  | .announceInfo => Walker.map (.announceInfo · false) AnnounceInfo.walk
  | .subscribeNodeSet withdraw =>
    Walker.map (.subscribeNodeSet · withdraw) (SubscribeNodeSet.walk withdraw)

/-! ### The walks read like the readers -/

section Like

variable {body : List UInt8} {beyond : ℕ → UInt8}

theorem like_walkPathItem : Walker.Like walkPathItem readPathItem body beyond :=
  (Walker.like_host 8).bind fun _ => (Walker.like_host 8).bind fun _ => .pure _

theorem NodeInfo.like_walk :
    Walker.Like (NodeInfo.walk body.length) NodeInfo.read body beyond :=
  Walker.like_u64.bind fun _ => Walker.like_byte.bind fun _ => Walker.like_varint.bind fun k =>
    (Walker.like_fetch k).bind fun _ => Walker.like_u64.bind fun _ => Walker.like_u64.bind fun _ =>
      (Walker.like_toEnd like_walkPathItem).bind fun _ => .pure _

theorem Connect.like_walk : Walker.Like (Connect.walk body.length) Connect.read body beyond :=
  Walker.like_byte.bind fun _ => NodeInfo.like_walk.bind fun _ => .pure _

theorem ConnectResponse.like_walk :
    Walker.Like (ConnectResponse.walk body.length) ConnectResponse.read body beyond := by
  refine Walker.like_u16.bind fun error => ?_
  by_cases herror : error = 0
  · rw [if_pos herror, if_pos herror]
    exact NodeInfo.like_walk.bind fun _ => .pure _
  · rw [if_neg herror, if_neg herror]
    exact .pure _

theorem AnnounceInfo.like_walkShort :
    Walker.Like AnnounceInfo.walkShort AnnounceInfo.readShort body beyond :=
  Walker.like_u16.bind fun _ => Walker.like_fetch _

theorem AnnounceInfo.like_walk :
    Walker.Like AnnounceInfo.walk AnnounceInfo.read body beyond :=
  Walker.like_u64.bind fun _ => Walker.like_u64.bind fun _ => Walker.like_byte.bind fun _ =>
    (Walker.like_times AnnounceInfo.like_walkShort _).bind fun _ =>
      AnnounceInfo.like_walkShort.bind fun _ => Walker.like_byte.bind fun _ => .pure _

theorem SubscribeNodeSet.like_walk (withdraw : Bool) :
    Walker.Like (SubscribeNodeSet.walk withdraw) (SubscribeNodeSet.read withdraw) body beyond := by
  refine Walker.like_u32.bind fun id => ?_
  cases withdraw with
  | true => exact .pure _
  | false =>
    exact Walker.like_byte.bind fun _ => Walker.like_u16.bind fun _ =>
      (Walker.like_times Walker.like_u64 _).bind fun _ => .pure _

end Like

/-! ### The bodies that the walks stay inside -/

/-- The coordinates and the path take the rest of the body. -/
def NodeInfo.Fills (body : List UInt8) : Prop :=
  ∃ id type len contact longitude latitude path : List UInt8,
    body = id ++ type ++ len ++ contact ++ longitude ++ latitude ++ path ∧
    id.length = 8 ∧ type.length = 1 ∧ IsVarint len ∧ contact.length = varintValue len ∧
    longitude.length = 8 ∧ latitude.length = 8 ∧ 16 ∣ path.length

/-- A byte string after its length. -/
def IsShort (bytes : List UInt8) : Prop :=
  ∃ len item : List UInt8, bytes = len ++ item ∧ len.length = 2 ∧ item.length = netValue len

/-- Bytes after the flags are not read. -/
def AnnounceInfo.Fills (body : List UInt8) : Prop :=
  ∃ (source hash : List UInt8) (count : UInt8) (tuples : List (List UInt8)) (name : List UInt8)
    (flags : UInt8) (rest : List UInt8),
    body = source ++ hash ++ [count] ++ tuples.flatten ++ name ++ [flags] ++ rest ∧
    source.length = 8 ∧ hash.length = 8 ∧ tuples.length = count.toNat ∧
    (∀ tuple ∈ tuples, IsShort tuple) ∧ IsShort name

/-- The number of nodes stands in bytes 5 and 6. -/
def SubscribeNodeSet.Fills (withdraw : Bool) (body : List UInt8) : Prop :=
  if withdraw then 4 ≤ body.length
  else 7 ≤ body.length ∧ 7 + 8 * netValue ((body.drop 5).take 2) ≤ body.length

/-- The body has all fields of the message whole. -/
def Decoder.Fills : Decoder → List UInt8 → Prop
  | .connect, body => NodeInfo.Fills (body.drop 1)
  | .connectResponse, body =>
    2 ≤ body.length ∧ (netValue (body.take 2) = 0 → NodeInfo.Fills (body.drop 2))
  | .nodeInfo, body => NodeInfo.Fills body
  | .subscribeInfo, body => 38 ≤ body.length
  | .announceInfo, body => AnnounceInfo.Fills body
  | .subscribeNodeSet withdraw, body => SubscribeNodeSet.Fills withdraw body

theorem takes_readPathItem : Takes readPathItem (·.length = 16) :=
  (takes_host 8).bind_length fun _ => (takes_host 8).bind_length fun _ => takes_pure _

theorem NodeInfo.isSome_read {body : List UInt8} :
    (NodeInfo.read.run body).isSome = true ↔ NodeInfo.Fills body := by
  have hpath : ∀ (f : List NodePathItem → NodeInfo) (rest : List UInt8),
      ((toEnd readPathItem >>= fun path => pure (f path)).run rest).isSome = true ↔
        16 ∣ rest.length := by
    intro f rest
    rw [← takes_readPathItem.isSome_toEnd (by decide), isSome_run_bind, Option.isSome_iff_exists]
    constructor
    · rintro ⟨path, left, hrun, -⟩
      exact ⟨(path, left), hrun⟩
    · rintro ⟨⟨path, left⟩, hrun⟩
      exact ⟨path, left, hrun, rfl⟩
  refine (takes_u64.isSome_bind fun _ _ => takes_byte.isSome_bind fun _ _ =>
    isSome_varint_bind.trans (exists_congr fun len => exists_congr fun rest =>
      and_congr_right' (and_congr_right' ((takes_take _).isSome_bind fun _ _ =>
        takes_u64.isSome_bind fun _ _ => takes_u64.isSome_bind fun _ rest => hpath _ rest)))).trans ?_
  constructor
  · rintro ⟨id, _, rfl, hid, type, _, rfl, htype, len, _, rfl, hlen, contact, _, rfl, hcontact,
      longitude, _, rfl, hlong, latitude, path, rfl, hlat, hpath⟩
    refine ⟨id, type, len, contact, longitude, latitude, path, ?_, hid, htype, hlen, hcontact, hlong,
      hlat, hpath⟩
    simp only [List.append_assoc]
  · rintro ⟨id, type, len, contact, longitude, latitude, path, rfl, hid, htype, hlen, hcontact,
      hlong, hlat, hpath⟩
    simp only [List.append_assoc]
    exact ⟨id, _, rfl, hid, type, _, rfl, htype, len, _, rfl, hlen, contact, _, rfl, hcontact,
      longitude, _, rfl, hlong, latitude, path, rfl, hlat, hpath⟩

/-- The rest of the body is left to the next reader. -/
theorem exists_front_iff {k : ℕ} {body : List UInt8} {next : List UInt8 → Prop} :
    (∃ front rest, body = front ++ rest ∧ front.length = k ∧ next rest) ↔
      k ≤ body.length ∧ next (body.drop k) := by
  constructor
  · rintro ⟨front, rest, rfl, rfl, hnext⟩
    rw [List.drop_left, List.length_append]
    exact ⟨Nat.le_add_right .., hnext⟩
  · rintro ⟨hk, hnext⟩
    exact ⟨body.take k, body.drop k, (List.take_append_drop ..).symm, List.length_take_of_le hk, hnext⟩

theorem isSome_bind_pure {α β : Type} {p : Reader α} {f : α → β} {body : List UInt8} :
    ((p >>= fun a => pure (f a)).run body).isSome = (p.run body).isSome := by
  rw [StateT.run_bind]
  cases p.run body <;> rfl

theorem NodeInfo.Fills.ne_nil {body : List UInt8} (h : NodeInfo.Fills body) : body ≠ [] := by
  obtain ⟨id, type, len, contact, longitude, latitude, path, rfl, hid, -⟩ := h
  intro hnil
  have hlen := congrArg List.length hnil
  simp only [List.length_append, List.length_nil] at hlen
  omega

theorem Connect.isSome_read {body : List UInt8} :
    (Connect.read.run body).isSome = true ↔ NodeInfo.Fills (body.drop 1) := by
  have hnext : ∀ mode rest, ((NodeInfo.read >>= fun info =>
      pure (Connect.mk ⟨mode⟩ info)).run rest).isSome = true ↔ NodeInfo.Fills rest := by
    intro mode rest
    rw [isSome_bind_pure, NodeInfo.isSome_read]
  refine (takes_byte.isSome_bind hnext).trans (exists_front_iff.trans ?_)
  refine and_iff_right_of_imp fun h => ?_
  have hlt := List.length_pos_iff.mpr h.ne_nil
  rw [List.length_drop] at hlt
  omega

theorem ConnectResponse.isSome_read {body : List UInt8} :
    (ConnectResponse.read.run body).isSome = true ↔
      2 ≤ body.length ∧ (netValue (body.take 2) = 0 → NodeInfo.Fills (body.drop 2)) := by
  have hzero : ∀ error : UInt16, error = 0 ↔ error.toNat = 0 := fun error =>
    UInt16.toNat_inj.symm
  rw [ConnectResponse.read, isSome_run_bind]
  constructor
  · rintro ⟨error, rest, herror, hnext⟩
    obtain ⟨front, rfl, hfront, hvalue⟩ := run_u16_eq_some.mp herror
    rw [← hfront, List.take_left, List.drop_left, List.length_append, ← hvalue, ← hzero]
    refine ⟨Nat.le_add_right .., fun h => ?_⟩
    rw [if_pos h, isSome_bind_pure] at hnext
    exact NodeInfo.isSome_read.mp hnext
  · rintro ⟨hlen, hnext⟩
    have htake : (body.take 2).length = 2 := List.length_take_of_le hlen
    have hvalue := toNat_ofNat_netValue htake
    refine ⟨_, body.drop 2, run_u16_eq_some.mpr
      ⟨body.take 2, (List.take_append_drop ..).symm, htake, hvalue⟩, ?_⟩
    split
    · rename_i h
      rw [isSome_bind_pure]
      exact NodeInfo.isSome_read.mpr (hnext (hvalue ▸ (hzero _).mp h))
    · rfl

theorem AnnounceInfo.takes_readShort : Takes AnnounceInfo.readShort IsShort := by
  intro bytes rest
  constructor
  · rintro ⟨item, hrun⟩
    obtain ⟨⟨len, mid⟩, hlen, htake⟩ := Option.bind_eq_some_iff.mp hrun
    obtain ⟨front, rfl, hfront, hvalue⟩ := run_u16_eq_some.mp hlen
    obtain ⟨rfl, hitem⟩ := run_take_eq_some.mp htake
    rw [hvalue] at hitem
    exact ⟨front ++ item, (List.append_assoc ..).symm, front, item, rfl, hfront, hitem⟩
  · rintro ⟨_, rfl, len, item, rfl, hlen, hitem⟩
    have hvalue := toNat_ofNat_netValue hlen
    have hread := run_u16_eq_some.mpr ⟨len, List.append_assoc len item rest, hlen, hvalue⟩
    refine ⟨item, Option.bind_eq_some_iff.mpr ⟨_, hread, ?_⟩⟩
    exact run_take_eq_some.mpr ⟨rfl, hitem.trans hvalue.symm⟩

theorem isSome_byte_bind {β : Type} {f : UInt8 → Reader β} {body : List UInt8} :
    ((byte >>= f).run body).isSome = true ↔
      ∃ b rest, body = [b] ++ rest ∧ ((f b).run rest).isSome = true := by
  cases body with
  | nil =>
    refine iff_of_false Bool.false_ne_true ?_
    rintro ⟨b, rest, h, -⟩
    cases h
  | cons b bytes =>
    constructor
    · exact fun h => ⟨b, bytes, rfl, h⟩
    · rintro ⟨_, _, h, hnext⟩
      cases h
      exact hnext

theorem AnnounceInfo.isSome_read {body : List UInt8} :
    (AnnounceInfo.read.run body).isSome = true ↔ AnnounceInfo.Fills body := by
  refine (takes_u64.isSome_bind fun _ _ => takes_u64.isSome_bind fun _ _ =>
    isSome_byte_bind.trans (exists_congr fun count => exists_congr fun _ => and_congr_right'
      ((takes_readShort.times count.toNat).isSome_bind fun _ _ =>
        takes_readShort.isSome_bind fun _ _ => isSome_byte_bind.trans
          (exists_congr fun _ => exists_congr fun _ => and_iff_left rfl)))).trans ?_
  constructor
  · rintro ⟨source, _, rfl, hsource, hash, _, rfl, hhash, count, _, rfl, _, _, rfl,
      ⟨tuples, rfl, hcount, htuples⟩, name, _, rfl, hname, flags, rest, rfl⟩
    refine ⟨source, hash, count, tuples, name, flags, rest, ?_, hsource, hhash, hcount, htuples,
      hname⟩
    simp only [List.append_assoc]
  · rintro ⟨source, hash, count, tuples, name, flags, rest, rfl, hsource, hhash, hcount, htuples,
      hname⟩
    simp only [List.append_assoc]
    exact ⟨source, _, rfl, hsource, hash, _, rfl, hhash, count, _, rfl, _, _, rfl,
      ⟨tuples, rfl, hcount, htuples⟩, name, _, rfl, hname, flags, rest, rfl⟩

theorem SubscribeNodeSet.isSome_read {withdraw : Bool} {body : List UInt8} :
    ((SubscribeNodeSet.read withdraw).run body).isSome = true ↔
      SubscribeNodeSet.Fills withdraw body := by
  cases withdraw with
  | true =>
    have hnext : ∀ (id : UInt32) (rest : List UInt8),
        ((pure { id := id } : Reader SubscribeNodeSet).run rest).isSome = true ↔ True := fun _ _ =>
      iff_true_intro rfl
    refine (takes_u32.isSome_bind hnext).trans (exists_front_iff.trans ?_)
    rw [and_true]
    rfl
  | false =>
    have hnodes : ∀ (id : UInt32) (priority : UInt8) (rest : List UInt8),
        ((u16 >>= fun numNodes => times u64 numNodes.toNat >>= fun nodes =>
          pure ({ id, priority, nodes := .ofList nodes } : SubscribeNodeSet)).run rest).isSome = true ↔
        2 ≤ rest.length ∧ 2 + 8 * netValue (rest.take 2) ≤ rest.length := by
      intro id priority rest
      rw [isSome_run_bind]
      constructor
      · rintro ⟨numNodes, left, hnum, hnodes⟩
        obtain ⟨front, rfl, hfront, hvalue⟩ := run_u16_eq_some.mp hnum
        rw [isSome_bind_pure, (takes_u64.times_length _).isSome_iff, hvalue] at hnodes
        rw [← hfront, List.take_left, List.length_append]
        omega
      · rintro ⟨hlen, hnodes⟩
        have htake : (rest.take 2).length = 2 := List.length_take_of_le hlen
        have hvalue := toNat_ofNat_netValue htake
        refine ⟨_, rest.drop 2, run_u16_eq_some.mpr
          ⟨rest.take 2, (List.take_append_drop ..).symm, htake, hvalue⟩, ?_⟩
        rw [isSome_bind_pure, (takes_u64.times_length _).isSome_iff, hvalue, List.length_drop]
        omega
    have hhead : Takes u32 (·.length = 4) := takes_u32
    refine (hhead.isSome_bind fun id _ => takes_byte.isSome_bind fun priority rest =>
      hnodes id priority rest).trans ?_
    have hdrop : (body.drop 4).drop 1 = body.drop 5 := List.drop_drop
    rw [exists_front_iff, exists_front_iff, hdrop, List.length_drop, List.length_drop]
    show _ ↔ 7 ≤ body.length ∧ 7 + 8 * netValue ((body.drop 5).take 2) ≤ body.length
    omega

/-- Past the fixed fields every read is checked. -/
theorem SubscribeInfo.inside_walkData {size pos : ℕ} (hpos : pos ≤ size) (subSize : UInt32)
    (f : List UInt8 → SubscribeInfo) (mem : ℕ → UInt8) :
    ((SubscribeInfo.walkData size subSize >>= fun data => pure (f data)) mem pos).Inside size := by
  have hnone : ∀ {α : Type} (result : Option (α × ℕ)), (Walk.mk [] result).Inside size := by
    intro α result range hrange
    cases hrange
  refine Walker.inside_bind.mpr ⟨?_, fun _ _ _ => hnone _⟩
  unfold SubscribeInfo.walkData
  split
  · exact hnone _
  · refine Walker.inside_bind.mpr ⟨hnone _, ?_⟩
    rintro _ _ ⟨⟩
    split
    · exact hnone _
    · exact (Walker.inside_fetch _ mem hpos).mpr (by omega)

theorem SubscribeInfo.inside_walk (body : List UInt8) (beyond : ℕ → UInt8) :
    (SubscribeInfo.walk body.length (memory body beyond) 0).Inside body.length ↔
      38 ≤ body.length := by
  refine (Walker.like_u16.inside_bind takes_u16 (Nat.zero_le _) fun _ h₁ =>
    Walker.like_u64.inside_bind takes_u64 h₁ fun _ h₂ =>
    Walker.like_u64.inside_bind takes_u64 h₂ fun _ h₃ =>
    Walker.like_u64.inside_bind takes_u64 h₃ fun _ h₄ =>
    Walker.like_u64.inside_bind takes_u64 h₄ fun _ h₅ =>
    Walker.like_u32.inside_bind takes_u32 h₅ fun subSize h₆ =>
      iff_true_intro (inside_walkData h₆ subSize _ _)).trans ?_
  constructor
  · rintro ⟨-, -, -, -, -, h, -⟩
    exact h
  · intro h
    exact ⟨by omega, by omega, by omega, by omega, by omega, h, trivial⟩

/-- A constructor that keeps to its reader stays inside exactly where the reader does not fail. -/
theorem inside_of_like {α : Type} {p : Walker α} {r : Reader α} {body : List UInt8}
    {beyond : ℕ → UInt8} (h : Walker.Like p r body beyond) (f : α → Received) :
    (Walker.map f p (memory body beyond) 0).Inside body.length ↔ (r.run body).isSome = true := by
  rw [((h.map f) 0 (Nat.zero_le _)).inside_iff, List.drop_zero, StateT.run_map]
  cases r.run body <;> rfl

/-- The constructors read inside the body exactly when all fields are whole in it. -/
theorem Decoder.inside_iff_fills (d : Decoder) (body : List UInt8) (beyond : ℕ → UInt8) :
    (d.walk body.length (memory body beyond) 0).Inside body.length ↔ d.Fills body := by
  cases d with
  | connect => exact (inside_of_like Connect.like_walk _).trans Connect.isSome_read
  | connectResponse =>
    exact (inside_of_like ConnectResponse.like_walk _).trans ConnectResponse.isSome_read
  | nodeInfo => exact (inside_of_like NodeInfo.like_walk _).trans NodeInfo.isSome_read
  | subscribeInfo =>
    refine Iff.trans ?_ (SubscribeInfo.inside_walk body beyond)
    refine Walker.inside_bind.trans (and_iff_left fun _ _ _ range hrange => ?_)
    cases hrange
  | announceInfo =>
    exact (inside_of_like AnnounceInfo.like_walk _).trans AnnounceInfo.isSome_read
  | subscribeNodeSet withdraw =>
    exact (inside_of_like (SubscribeNodeSet.like_walk withdraw) _).trans
      SubscribeNodeSet.isSome_read

/-- A body of node information that ends after its id: the type is read past the end. -/
theorem not_inside_walk_nodeInfo :
    ¬(Decoder.nodeInfo.walk 8 (memory [0, 0, 0, 0, 0, 0, 0, 1] fun _ => 0) 0).Inside 8 := by
  intro h
  have hread : (8, 1) ∈
      (Decoder.nodeInfo.walk 8 (memory [0, 0, 0, 0, 0, 0, 0, 1] fun _ => 0) 0).reads := by
    decide +kernel
  exact absurd (h (8, 1) hread 8 (Nat.le_refl _) (by decide)) (Nat.lt_irrefl 8)

end Laps.Messages
