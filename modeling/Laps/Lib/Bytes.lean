import Mathlib.Algebra.GroupWithZero.Nat
import Mathlib.Data.List.Basic
import Mathlib.Tactic.Common

/-! Bytes on the wire: integers of a fixed width, integers of a variable length, and readers that
take values off the front of a list of bytes. -/

namespace Wire

/-! ### Integers of a fixed width -/

/-- The lowest `k` bytes of a number as a little-endian machine stores them. -/
def hostBytes : ℕ → ℕ → List UInt8
  | 0, _ => []
  | k + 1, v => UInt8.ofNat v :: hostBytes k (v / 256)

def hostValue : List UInt8 → ℕ
  | [] => 0
  | b :: bytes => b.toNat + 256 * hostValue bytes

@[simp] theorem length_hostBytes (k v : ℕ) : (hostBytes k v).length = k := by
  induction k generalizing v with
  | zero => rfl
  | succ k ih => rw [hostBytes, List.length_cons, ih]

theorem hostValue_hostBytes {k v : ℕ} (h : v < 256 ^ k) : hostValue (hostBytes k v) = v := by
  induction k generalizing v with
  | zero =>
    rw [Nat.pow_zero] at h
    show 0 = v
    omega
  | succ k ih =>
    have hhigh : v / 256 < 256 ^ k := by
      rw [Nat.div_lt_iff_lt_mul (by decide), ← Nat.pow_succ]
      exact h
    rw [hostBytes, hostValue, ih hhigh, UInt8.toNat_ofNat']
    omega

theorem hostValue_lt (bytes : List UInt8) : hostValue bytes < 256 ^ bytes.length := by
  induction bytes with
  | nil => exact Nat.one_pos
  | cons b bytes ih =>
    have hb := UInt8.toNat_lt b
    rw [hostValue, List.length_cons, Nat.pow_succ]
    omega

/-- The bytes in the order of the network, the most significant first. -/
def netBytes (k v : ℕ) : List UInt8 := (hostBytes k v).reverse

def netValue (bytes : List UInt8) : ℕ := hostValue bytes.reverse

@[simp] theorem length_netBytes (k v : ℕ) : (netBytes k v).length = k := by
  simp [netBytes]

theorem netValue_lt (bytes : List UInt8) : netValue bytes < 256 ^ bytes.length := by
  rw [← List.length_reverse]
  exact hostValue_lt bytes.reverse

theorem netValue_netBytes {k v : ℕ} (h : v < 256 ^ k) : netValue (netBytes k v) = v := by
  rw [netValue, netBytes, List.reverse_reverse, hostValue_hostBytes h]

theorem hostBytes_add (k j v : ℕ) :
    hostBytes (k + j) v = hostBytes k v ++ hostBytes j (v / 256 ^ k) := by
  induction k generalizing v with
  | zero => simp [hostBytes]
  | succ k ih =>
    rw [Nat.succ_add, hostBytes, ih, hostBytes, List.cons_append, Nat.div_div_eq_div_mul,
      ← Nat.pow_succ']

/-- The high bytes come before the low ones. -/
theorem netBytes_add (j k v : ℕ) :
    netBytes (j + k) v = netBytes j (v / 256 ^ k) ++ netBytes k v := by
  rw [netBytes, Nat.add_comm, hostBytes_add, List.reverse_append]
  rfl

theorem hostBytes_mod (k v : ℕ) : hostBytes k (v % 256 ^ k) = hostBytes k v := by
  induction k generalizing v with
  | zero => rfl
  | succ k ih =>
    have hlow : UInt8.ofNat (v % 256 ^ (k + 1)) = UInt8.ofNat v := by
      apply UInt8.toNat_inj.mp
      rw [UInt8.toNat_ofNat', UInt8.toNat_ofNat']
      exact Nat.mod_mod_of_dvd v (Nat.dvd_mul_left 256 (256 ^ k))
    rw [hostBytes, hostBytes, hlow, Nat.pow_succ', Nat.mod_mul_right_div_self, ih]

theorem netBytes_mod (k v : ℕ) : netBytes k (v % 256 ^ k) = netBytes k v := by
  rw [netBytes, hostBytes_mod]
  rfl

/-- The first byte of a number is its highest digit. -/
theorem head_netBytes (k v : ℕ) :
    ∃ tail, netBytes (k + 1) v = UInt8.ofNat (v / 256 ^ k) :: tail := by
  have hlast : ∃ low, hostBytes (k + 1) v = low ++ [UInt8.ofNat (v / 256 ^ k)] := by
    induction k generalizing v with
    | zero => exact ⟨[], by simp [hostBytes]⟩
    | succ k ih =>
      obtain ⟨low, hlow⟩ := ih (v / 256)
      refine ⟨UInt8.ofNat v :: low, ?_⟩
      rw [hostBytes, hlow, Nat.div_div_eq_div_mul, Nat.mul_comm, ← Nat.pow_succ, List.cons_append]
  obtain ⟨low, hlow⟩ := hlast
  exact ⟨low.reverse, by simp [netBytes, hlow]⟩

/-! ### Readers -/

/-- A reader takes a value off the front of the bytes, or fails. -/
abbrev Reader (α : Type) := StateT (List UInt8) Option α

variable {α β γ : Type}

/-- The reader takes exactly these bytes and gives the value, whatever follows. -/
def Reads (p : Reader α) (bytes : List UInt8) (a : α) : Prop :=
  ∀ rest, p.run (bytes ++ rest) = some (a, rest)

theorem Reads.pure (a : α) : Reads (Pure.pure a) [] a := fun _ => rfl

theorem Reads.bind {p : Reader α} {f : α → Reader β} {bytes bytes' : List UInt8} {a : α} {b : β}
    (h : Reads p bytes a) (h' : Reads (f a) bytes' b) : Reads (p >>= f) (bytes ++ bytes') b := by
  intro rest
  rw [StateT.run_bind, List.append_assoc, h]
  exact h' rest

/-- A reader that is followed by one that may look at the end. -/
theorem Reads.run_bind {p : Reader α} {bytes : List UInt8} {a : α} (h : Reads p bytes a)
    (f : α → Reader β) (bytes' : List UInt8) :
    (p >>= f).run (bytes ++ bytes') = (f a).run bytes' := by
  rw [StateT.run_bind, h]
  rfl

theorem Reads.map {p : Reader α} {bytes : List UInt8} {a : α} (h : Reads p bytes a) (f : α → β) :
    Reads (f <$> p) bytes (f a) := by
  intro rest
  rw [StateT.run_map, h]
  rfl

/-- What a reader gives when the bytes are all there is. -/
theorem Reads.all {p : Reader α} {bytes : List UInt8} {a : α} (h : Reads p bytes a) :
    p.run bytes = some (a, []) := by
  have hrun := h []
  rwa [List.append_nil] at hrun

/-- The second of two readers reads what the first one leaves. -/
theorem isSome_run_bind {p : Reader α} {f : α → Reader β} {bytes : List UInt8} :
    ((p >>= f).run bytes).isSome = true ↔
      ∃ a rest, p.run bytes = some (a, rest) ∧ ((f a).run rest).isSome = true := by
  rw [StateT.run_bind]
  cases p.run bytes with
  | none => simp
  | some out =>
    constructor
    · exact fun h => ⟨out.1, out.2, rfl, h⟩
    · rintro ⟨a, rest, h, hnext⟩
      cases h
      exact hnext

theorem run_map_eq_some {p : Reader α} {f : α → β} {bytes rest : List UInt8} {b : β} :
    (f <$> p).run bytes = some (b, rest) ↔ ∃ a, p.run bytes = some (a, rest) ∧ b = f a := by
  rw [StateT.run_map]
  cases p.run bytes with
  | none => simp
  | some out =>
    obtain ⟨a, left⟩ := out
    constructor
    · intro h
      cases h
      exact ⟨a, rfl, rfl⟩
    · rintro ⟨a', h, rfl⟩
      cases h
      rfl

/-- Takes `k` bytes. -/
def take (k : ℕ) : Reader (List UInt8) := fun bytes =>
  if k ≤ bytes.length then some (bytes.take k, bytes.drop k) else none

theorem reads_take {k : ℕ} {bytes : List UInt8} (h : bytes.length = k) :
    Reads (take k) bytes bytes := by
  intro rest
  show (if k ≤ (bytes ++ rest).length then _ else _) = _
  rw [if_pos (by simp [← h]), ← h, List.take_left, List.drop_left]

theorem run_take_eq_some {k : ℕ} {bytes front rest : List UInt8} :
    (take k).run bytes = some (front, rest) ↔ bytes = front ++ rest ∧ front.length = k := by
  constructor
  · intro h
    have h : (if k ≤ bytes.length then some (bytes.take k, bytes.drop k) else none) =
        some (front, rest) := h
    split at h
    · rename_i hk
      cases h
      exact ⟨(List.take_append_drop ..).symm, by rw [List.length_take]; omega⟩
    · cases h
  · rintro ⟨rfl, hk⟩
    exact reads_take hk rest

def byte : Reader UInt8 := fun
  | [] => none
  | b :: bytes => some (b, bytes)

theorem reads_byte (b : UInt8) : Reads byte [b] b := fun _ => rfl

/-- A number of `k` bytes in the order of the network. -/
def net (k : ℕ) : Reader ℕ := netValue <$> take k

theorem reads_net {k v : ℕ} (h : v < 256 ^ k) : Reads (net k) (netBytes k v) v := by
  have hread := (reads_take (length_netBytes k v)).map netValue
  rwa [netValue_netBytes h] at hread

/-- A number of `k` bytes in the order of the machine. -/
def host (k : ℕ) : Reader ℕ := hostValue <$> take k

theorem reads_host {k v : ℕ} (h : v < 256 ^ k) : Reads (host k) (hostBytes k v) v := by
  have hread := (reads_take (length_hostBytes k v)).map hostValue
  rwa [hostValue_hostBytes h] at hread

def u16 : Reader UInt16 := UInt16.ofNat <$> net 2

def u32 : Reader UInt32 := UInt32.ofNat <$> net 4

def u64 : Reader UInt64 := UInt64.ofNat <$> net 8

theorem reads_u16 (v : UInt16) : Reads u16 (netBytes 2 v.toNat) v := by
  have hread := (reads_net (k := 2) (UInt16.toNat_lt v)).map UInt16.ofNat
  rwa [UInt16.ofNat_toNat] at hread

theorem reads_u32 (v : UInt32) : Reads u32 (netBytes 4 v.toNat) v := by
  have hread := (reads_net (k := 4) (UInt32.toNat_lt v)).map UInt32.ofNat
  rwa [UInt32.ofNat_toNat] at hread

theorem reads_u64 (v : UInt64) : Reads u64 (netBytes 8 v.toNat) v := by
  have hread := (reads_net (k := 8) (UInt64.toNat_lt v)).map UInt64.ofNat
  rwa [UInt64.ofNat_toNat] at hread

/-! ### Lists -/

/-- Reads one value after the other. -/
def times (p : Reader α) : ℕ → Reader (List α)
  | 0 => Pure.pure []
  | k + 1 => do
    let a ← p
    let as ← times p k
    Pure.pure (a :: as)

theorem reads_times {p : Reader α} {enc : α → List UInt8} {as : List α}
    (h : ∀ a ∈ as, Reads p (enc a) a) : Reads (times p as.length) (as.flatMap enc) as := by
  induction as with
  | nil => exact .pure []
  | cons a as ih =>
    have hrest := ih fun a' ha' => h a' (List.mem_cons_of_mem _ ha')
    rw [List.flatMap_cons, List.length_cons, ← List.append_nil (as.flatMap enc)]
    exact (h a List.mem_cons_self).bind (hrest.bind (.pure _))

/-- Reads values up to the end; the number bounds how many. -/
def untilEnd (p : Reader α) : ℕ → Reader (List α)
  | 0 => Pure.pure []
  | fuel + 1 => fun bytes =>
    if bytes.isEmpty then some ([], bytes)
    else (do
      let a ← p
      let as ← untilEnd p fuel
      Pure.pure (a :: as) : Reader (List α)) bytes

theorem run_untilEnd {p : Reader α} {enc : α → List UInt8} {as : List α} {fuel : ℕ}
    (h : ∀ a ∈ as, Reads p (enc a) a) (hne : ∀ a ∈ as, enc a ≠ [])
    (hfuel : as.length ≤ fuel) : (untilEnd p fuel).run (as.flatMap enc) = some (as, []) := by
  induction as generalizing fuel with
  | nil =>
    cases fuel with
    | zero => rfl
    | succ fuel => rfl
  | cons a as ih =>
    cases fuel with
    | zero => simp at hfuel
    | succ fuel =>
      have hrest := ih (fun a' ha' => h a' (List.mem_cons_of_mem _ ha'))
        (fun a' ha' => hne a' (List.mem_cons_of_mem _ ha')) (by simpa using hfuel)
      have hempty : (enc a ++ as.flatMap enc).isEmpty = false := by
        simp [hne a List.mem_cons_self]
      show (if ((a :: as).flatMap enc).isEmpty then _ else _) = _
      rw [List.flatMap_cons, hempty, if_neg Bool.false_ne_true]
      show StateT.run (p >>= fun a => _) _ = _
      rw [StateT.run_bind, h a List.mem_cons_self, Option.bind_eq_bind, Option.bind_some]
      show StateT.run (untilEnd p fuel >>= fun as => _) _ = _
      rw [StateT.run_bind, hrest]
      rfl

/-- Reads values up to the end. -/
def toEnd (p : Reader α) : Reader (List α) := fun bytes => untilEnd p bytes.length bytes

theorem run_toEnd {p : Reader α} {enc : α → List UInt8} {as : List α}
    (h : ∀ a ∈ as, Reads p (enc a) a) (hne : ∀ a ∈ as, enc a ≠ []) :
    (toEnd p).run (as.flatMap enc) = some (as, []) := by
  refine run_untilEnd h hne ?_
  clear h
  induction as with
  | nil => exact Nat.le_refl 0
  | cons a as ih =>
    have hpos := List.length_pos_iff.mpr (hne a List.mem_cons_self)
    have hrest := ih fun a' ha' => hne a' (List.mem_cons_of_mem _ ha')
    rw [List.flatMap_cons, List.length_append, List.length_cons]
    omega

theorem untilEnd_map (f : α → β) (p : Reader α) (fuel : ℕ) :
    untilEnd (f <$> p) fuel = List.map f <$> untilEnd p fuel := by
  induction fuel with
  | zero => rfl
  | succ fuel ih =>
    funext bytes
    show untilEnd (f <$> p) (fuel + 1) bytes = (List.map f <$> untilEnd p (fuel + 1)).run bytes
    rw [StateT.run_map]
    show untilEnd (f <$> p) (fuel + 1) bytes = _ <$> untilEnd p (fuel + 1) bytes
    rw [untilEnd, untilEnd, ih]
    beta_reduce
    by_cases hend : bytes.isEmpty = true
    · rw [if_pos hend, if_pos hend]
      rfl
    · rw [if_neg hend, if_neg hend]
      show StateT.run _ bytes = _ <$> StateT.run _ bytes
      rw [← StateT.run_map]
      simp only [bind_map_left, map_bind, map_pure, List.map_cons]

theorem toEnd_map (f : α → β) (p : Reader α) : toEnd (f <$> p) = List.map f <$> toEnd p := by
  funext bytes
  show untilEnd (f <$> p) bytes.length bytes = _
  rw [untilEnd_map]
  rfl

/-! ### Integers of a variable length

The two highest bits of the first byte give the length: 1, 2, 4 or 8 bytes. -/

def varintSize (first : UInt8) : ℕ := 2 ^ (first.toNat / 64)

def varintLength (v : ℕ) : ℕ :=
  if v < 2 ^ 6 then 1 else if v < 2 ^ 14 then 2 else if v < 2 ^ 30 then 4 else 8

/-- The shortest encoding. -/
def varintBytes (v : ℕ) : List UInt8 :=
  if v < 2 ^ 6 then netBytes 1 v
  else if v < 2 ^ 14 then netBytes 2 (2 ^ 14 + v)
  else if v < 2 ^ 30 then netBytes 4 (2 ^ 31 + v)
  else netBytes 8 (3 * 2 ^ 62 + v)

def varintValue (bytes : List UInt8) : ℕ := netValue bytes % 2 ^ (8 * bytes.length - 2)

/-- Reads the length off the first byte, and then the number. -/
def varint : Reader ℕ := fun
  | [] => none
  | b :: bytes => (varintValue <$> take (varintSize b)).run (b :: bytes)

@[simp] theorem length_varintBytes (v : ℕ) : (varintBytes v).length = varintLength v := by
  unfold varintBytes varintLength
  split_ifs <;> simp

theorem reads_varint_netBytes {k v w : ℕ} (hw : w < 256 ^ (k + 1))
    (hsize : 2 ^ (w / 256 ^ k / 64) = k + 1) (hv : w % 2 ^ (8 * (k + 1) - 2) = v) :
    Reads varint (netBytes (k + 1) w) v := by
  intro rest
  obtain ⟨tail, htail⟩ := head_netBytes k w
  have hlt : w / 256 ^ k < 256 := by
    rw [Nat.div_lt_iff_lt_mul (Nat.pow_pos (by decide)), Nat.mul_comm, ← Nat.pow_succ]
    exact hw
  have hfirst : varintSize (UInt8.ofNat (w / 256 ^ k)) = k + 1 := by
    rw [varintSize, UInt8.toNat_ofNat', Nat.mod_eq_of_lt hlt, hsize]
  have hread := (reads_take (length_netBytes (k + 1) w)).map varintValue rest
  have hvalue : varintValue (netBytes (k + 1) w) = v := by
    rw [varintValue, length_netBytes, netValue_netBytes hw, hv]
  rw [hvalue] at hread
  rw [htail] at hread ⊢
  show (varintValue <$> take (varintSize (UInt8.ofNat (w / 256 ^ k)))).run _ = _
  rw [hfirst]
  exact hread

theorem reads_varint {v : ℕ} (h : v < 2 ^ 62) : Reads varint (varintBytes v) v := by
  unfold varintBytes
  split_ifs with h6 h14 h30
  · apply reads_varint_netBytes
    · omega
    · have hzero : v / 256 ^ 0 / 64 = 0 := by omega
      exact (congrArg (2 ^ ·) hzero).trans (by decide)
    · omega
  · apply reads_varint_netBytes
    · omega
    · have hone : (2 ^ 14 + v) / 256 ^ 1 / 64 = 1 := by omega
      exact (congrArg (2 ^ ·) hone).trans (by decide)
    · omega
  · apply reads_varint_netBytes
    · omega
    · have htwo : (2 ^ 31 + v) / 256 ^ 3 / 64 = 2 := by omega
      exact (congrArg (2 ^ ·) htwo).trans (by decide)
    · omega
  · apply reads_varint_netBytes
    · omega
    · have hthree : (3 * 2 ^ 62 + v) / 256 ^ 7 / 64 = 3 := by omega
      exact (congrArg (2 ^ ·) hthree).trans (by decide)
    · omega

/-! ### The bytes that a reader takes -/

/-- What the reader takes from the front of the bytes is what fits. -/
def Takes (p : Reader α) (fits : List UInt8 → Prop) : Prop :=
  ∀ bytes rest, (∃ a, p.run bytes = some (a, rest)) ↔ ∃ front, bytes = front ++ rest ∧ fits front

section Takes

variable {p : Reader α} {f : α → Reader β} {fits fits' : List UInt8 → Prop}

theorem takes_take (k : ℕ) : Takes (take k) (·.length = k) := by
  intro bytes rest
  exact exists_congr fun _ => run_take_eq_some

theorem Takes.map (h : Takes p fits) (f : α → β) : Takes (f <$> p) fits := by
  intro bytes rest
  rw [← h bytes rest]
  constructor
  · rintro ⟨b, hb⟩
    obtain ⟨a, ha, -⟩ := run_map_eq_some.mp hb
    exact ⟨a, ha⟩
  · rintro ⟨a, ha⟩
    exact ⟨f a, run_map_eq_some.mpr ⟨a, ha, rfl⟩⟩

/-- What comes after a reader whose value it does not depend on. -/
theorem Takes.isSome_bind (h : Takes p fits) {next : List UInt8 → Prop}
    (hf : ∀ a rest, ((f a).run rest).isSome = true ↔ next rest) {bytes : List UInt8} :
    ((p >>= f).run bytes).isSome = true ↔
      ∃ front rest, bytes = front ++ rest ∧ fits front ∧ next rest := by
  rw [isSome_run_bind]
  constructor
  · rintro ⟨a, rest, hp, hnext⟩
    obtain ⟨front, hbytes, hfits⟩ := (h bytes rest).mp ⟨a, hp⟩
    exact ⟨front, rest, hbytes, hfits, (hf a rest).mp hnext⟩
  · rintro ⟨front, rest, hbytes, hfits, hnext⟩
    obtain ⟨a, hp⟩ := (h bytes rest).mpr ⟨front, hbytes, hfits⟩
    exact ⟨a, rest, hp, (hf a rest).mpr hnext⟩

theorem Takes.bind (h : Takes p fits) (h' : ∀ a, Takes (f a) fits') :
    Takes (p >>= f) fun bytes => ∃ front back, bytes = front ++ back ∧ fits front ∧ fits' back := by
  intro bytes rest
  constructor
  · rintro ⟨b, hb⟩
    rw [StateT.run_bind] at hb
    obtain ⟨⟨a, mid⟩, ha, hnext⟩ := Option.bind_eq_some_iff.mp hb
    obtain ⟨front, rfl, hfront⟩ := (h bytes mid).mp ⟨a, ha⟩
    obtain ⟨back, rfl, hback⟩ := (h' a mid rest).mp ⟨b, hnext⟩
    exact ⟨front ++ back, (List.append_assoc ..).symm, front, back, rfl, hfront, hback⟩
  · rintro ⟨_, rfl, front, back, rfl, hfront, hback⟩
    obtain ⟨a, ha⟩ := (h _ (back ++ rest)).mpr ⟨front, List.append_assoc .., hfront⟩
    obtain ⟨b, hb⟩ := (h' a _ rest).mpr ⟨back, rfl, hback⟩
    refine ⟨b, ?_⟩
    rw [StateT.run_bind, ha]
    exact hb

theorem Takes.congr (h : Takes p fits) (hfits : ∀ front, fits front ↔ fits' front) :
    Takes p fits' := by
  rwa [← funext fun front => propext (hfits front)]

theorem takes_byte : Takes byte (·.length = 1) := by
  intro bytes rest
  constructor
  · rintro ⟨b, hb⟩
    cases bytes with
    | nil => cases hb
    | cons b' bytes =>
      cases hb
      exact ⟨[b], rfl, rfl⟩
  · rintro ⟨front, rfl, hlen⟩
    obtain ⟨b, rfl⟩ := List.length_eq_one_iff.mp hlen
    exact ⟨b, rfl⟩

theorem takes_net (k : ℕ) : Takes (net k) (·.length = k) := (takes_take k).map _

theorem takes_host (k : ℕ) : Takes (host k) (·.length = k) := (takes_take k).map _

theorem takes_u16 : Takes u16 (·.length = 2) := (takes_net 2).map _

theorem toNat_ofNat_netValue {bytes : List UInt8} (h : bytes.length = 2) :
    (UInt16.ofNat (netValue bytes)).toNat = netValue bytes := by
  have hlt := netValue_lt bytes
  rw [h] at hlt
  exact UInt16.toNat_ofNat_of_lt' hlt

theorem run_u16_eq_some {bytes rest : List UInt8} {v : UInt16} :
    u16.run bytes = some (v, rest) ↔
      ∃ front, bytes = front ++ rest ∧ front.length = 2 ∧ v.toNat = netValue front := by
  constructor
  · intro h
    obtain ⟨w, hw, rfl⟩ := run_map_eq_some.mp h
    obtain ⟨front, hfront, rfl⟩ := run_map_eq_some.mp hw
    obtain ⟨hbytes, hlen⟩ := run_take_eq_some.mp hfront
    exact ⟨front, hbytes, hlen, toNat_ofNat_netValue hlen⟩
  · rintro ⟨front, hbytes, hlen, hv⟩
    have htake := run_take_eq_some.mpr ⟨hbytes, hlen⟩
    refine run_map_eq_some.mpr ⟨_, run_map_eq_some.mpr ⟨front, htake, rfl⟩, ?_⟩
    rw [← UInt16.toNat_inj, hv, toNat_ofNat_netValue hlen]

theorem takes_u32 : Takes u32 (·.length = 4) := (takes_net 4).map _

theorem takes_u64 : Takes u64 (·.length = 8) := (takes_net 8).map _

/-- Two readers of a fixed size. -/
theorem Takes.bind_length {k k' : ℕ} (h : Takes p (·.length = k))
    (h' : ∀ a, Takes (f a) (·.length = k')) : Takes (p >>= f) (·.length = k + k') := by
  refine (h.bind h').congr fun bytes => ?_
  constructor
  · rintro ⟨front, back, rfl, hfront, hback⟩
    rw [List.length_append, hfront, hback]
  · intro hlen
    refine ⟨bytes.take k, bytes.drop k, (List.take_append_drop ..).symm, ?_, ?_⟩
    · rw [List.length_take]
      omega
    · rw [List.length_drop]
      omega

theorem takes_pure (a : α) : Takes (Pure.pure a) (·.length = 0) := by
  intro bytes rest
  constructor
  · rintro ⟨b, hb⟩
    cases hb
    exact ⟨[], rfl, rfl⟩
  · rintro ⟨front, rfl, hlen⟩
    obtain rfl := List.length_eq_zero_iff.mp hlen
    exact ⟨a, rfl⟩

theorem Takes.times (h : Takes p fits) (k : ℕ) :
    Takes (times p k) fun bytes =>
      ∃ items : List (List UInt8), bytes = items.flatten ∧ items.length = k ∧
        ∀ item ∈ items, fits item := by
  induction k with
  | zero =>
    refine (takes_pure []).congr fun bytes => ?_
    constructor
    · intro hlen
      obtain rfl := List.length_eq_zero_iff.mp hlen
      exact ⟨[], rfl, rfl, fun _ h => absurd h List.not_mem_nil⟩
    · rintro ⟨items, rfl, hlen, -⟩
      obtain rfl := List.length_eq_zero_iff.mp hlen
      rfl
  | succ k ih =>
    refine (h.bind fun a => ih.bind fun as => takes_pure (a :: as)).congr fun bytes => ?_
    constructor
    · rintro ⟨front, _, rfl, hfront, _, last, rfl, ⟨items, rfl, rfl, hitems⟩, hlast⟩
      obtain rfl := List.length_eq_zero_iff.mp hlast
      refine ⟨front :: items, by rw [List.append_nil, List.flatten_cons], rfl, ?_⟩
      exact List.forall_mem_cons.mpr ⟨hfront, hitems⟩
    · rintro ⟨items, rfl, hlen, hitems⟩
      obtain ⟨item, items, rfl⟩ := List.exists_cons_of_length_eq_add_one hlen
      obtain ⟨hitem, hitems⟩ := List.forall_mem_cons.mp hitems
      refine ⟨item, items.flatten, rfl, hitem, items.flatten, [], (List.append_nil _).symm, ?_, rfl⟩
      exact ⟨items, rfl, Nat.succ.inj hlen, hitems⟩

theorem Takes.isSome_iff {k : ℕ} (h : Takes p (·.length = k)) {bytes : List UInt8} :
    (p.run bytes).isSome = true ↔ k ≤ bytes.length := by
  rw [Option.isSome_iff_exists]
  constructor
  · rintro ⟨⟨a, rest⟩, hrun⟩
    obtain ⟨front, rfl, hfront⟩ := (h bytes rest).mp ⟨a, hrun⟩
    rw [List.length_append, hfront]
    exact Nat.le_add_right ..
  · intro hk
    obtain ⟨a, hrun⟩ := (h bytes (bytes.drop k)).mpr
      ⟨bytes.take k, (List.take_append_drop ..).symm, List.length_take_of_le hk⟩
    exact ⟨(a, bytes.drop k), hrun⟩

theorem Takes.times_length {k : ℕ} (h : Takes p (·.length = k)) (n : ℕ) :
    Takes (Wire.times p n) (·.length = k * n) := by
  induction n with
  | zero => exact takes_pure []
  | succ n ih =>
    refine (h.bind_length fun a => ih.bind_length fun as => takes_pure (a :: as)).congr fun bytes => ?_
    rw [Nat.mul_succ, Nat.add_zero, Nat.add_comm]

/-- Readers of a fixed size come to the end of the bytes exactly where it divides their number. -/
theorem Takes.isSome_untilEnd {k fuel : ℕ} (h : Takes p (·.length = k)) (hk : 0 < k)
    {bytes : List UInt8} (hfuel : bytes.length ≤ fuel) :
    ((untilEnd p fuel).run bytes).isSome = true ↔ k ∣ bytes.length := by
  induction fuel generalizing bytes with
  | zero =>
    obtain rfl := List.length_eq_zero_iff.mp (Nat.le_zero.mp hfuel)
    exact iff_of_true rfl (Nat.dvd_zero k)
  | succ fuel ih =>
    cases bytes with
    | nil => exact iff_of_true rfl (Nat.dvd_zero k)
    | cons b bytes =>
      show ((p >>= fun a => untilEnd p fuel >>= fun as => Pure.pure (a :: as)).run
        (b :: bytes)).isSome = true ↔ _
      rw [isSome_run_bind]
      constructor
      · rintro ⟨a, rest, hp, hrest⟩
        obtain ⟨front, hbytes, hfront⟩ := (h _ rest).mp ⟨a, hp⟩
        have hlen := congrArg List.length hbytes
        rw [List.length_append, hfront] at hlen
        obtain ⟨as, left, has, -⟩ := isSome_run_bind.mp hrest
        have hdvd := (@ih rest (by omega)).mp (Option.isSome_of_eq_some has)
        rw [hlen]
        exact (Nat.dvd_add_right (Nat.dvd_refl k)).mpr hdvd
      · intro hdvd
        have hle : k ≤ (b :: bytes).length := Nat.le_of_dvd (Nat.succ_pos _) hdvd
        have htake : ((b :: bytes).take k).length = k := List.length_take_of_le hle
        obtain ⟨a, hp⟩ := (h (b :: bytes) ((b :: bytes).drop k)).mpr
          ⟨(b :: bytes).take k, (List.take_append_drop ..).symm, htake⟩
        have hlen : ((b :: bytes).drop k).length = (b :: bytes).length - k := List.length_drop
        have hrest := (@ih ((b :: bytes).drop k) (by omega)).mpr
          (by rw [hlen]; exact Nat.dvd_sub hdvd (Nat.dvd_refl k))
        obtain ⟨⟨as, left⟩, has⟩ := Option.isSome_iff_exists.mp hrest
        exact ⟨a, _, hp, isSome_run_bind.mpr ⟨as, left, has, rfl⟩⟩

theorem Takes.isSome_toEnd {k : ℕ} (h : Takes p (·.length = k)) (hk : 0 < k)
    {bytes : List UInt8} : ((toEnd p).run bytes).isSome = true ↔ k ∣ bytes.length :=
  h.isSome_untilEnd hk (Nat.le_refl _)

/-- A first byte, and as many bytes with it as it says. -/
def IsVarint (bytes : List UInt8) : Prop := ∃ b rest, bytes = b :: rest ∧ bytes.length = varintSize b

theorem isSome_varint_bind {f : ℕ → Reader β} {bytes : List UInt8} :
    ((varint >>= f).run bytes).isSome = true ↔
      ∃ front rest, bytes = front ++ rest ∧ IsVarint front ∧
        ((f (varintValue front)).run rest).isSome = true := by
  rw [isSome_run_bind]
  constructor
  · rintro ⟨v, rest, hv, hnext⟩
    cases bytes with
    | nil => cases hv
    | cons b bytes =>
      obtain ⟨front, hfront, rfl⟩ := run_map_eq_some.mp hv
      obtain ⟨hbytes, hlen⟩ := run_take_eq_some.mp hfront
      refine ⟨front, rest, hbytes, ?_, hnext⟩
      cases front with
      | nil => exact absurd hlen (Nat.ne_of_lt (Nat.two_pow_pos _))
      | cons b' front =>
        obtain ⟨rfl, -⟩ := List.cons.inj hbytes
        exact ⟨b, front, rfl, hlen⟩
  · rintro ⟨_, rest, rfl, ⟨b, front, rfl, hlen⟩, hnext⟩
    refine ⟨_, rest, run_map_eq_some.mpr ⟨b :: front, ?_, rfl⟩, hnext⟩
    exact run_take_eq_some.mpr ⟨rfl, hlen⟩

end Takes

end Wire
