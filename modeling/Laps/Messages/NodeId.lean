import Laps.Lib.Text
import Laps.Quicr

/-! `NodeId`: the id of a node as text, two values with a colon between them. -/

namespace Laps.Messages.NodeId

open Text

/-! ### The source -/

/-- One number of a dotted value.  The source reads it twice. -/
def dotValue (nValue : UInt32) (part : List Char) : Option UInt32 := do
  let nValue := nValue <<< 16
  let value ← stoul part
  if value > 65535 then none
  else
    let again ← stoul part
    pure (nValue.toUInt64 ||| (0xFFFF &&& again)).toUInt32

/-- The loop, by how often it may still run. -/
def dotValues (value : List Char) : ℕ → UInt32 → ℕ → Option ℕ → Option UInt32
  | 0, nValue, _, _ => some nValue
  | i + 1, nValue, pos, endPos => do
    -- The end is taken for a length.
    let nValue ← dotValue nValue (substr value pos endPos)
    match endPos with
    | none => pure nValue
    | some endPos => dotValues value i nValue (endPos + 1) (find '.' value (endPos + 1))

/-- One side of the colon.  A number without a dot is cut to 32 bits. -/
def numericVaue (value : List Char) : Option UInt32 :=
  match find '.' value 0 with
  | none => (stoul value).map UInt64.toUInt32
  | some endPos => dotValues value 2 0 0 (some endPos)

/-- `Value` of a string; `none` where it throws. -/
def value (id : List Char) : Option NodeIdValueType := do
  let midPos ← find ':' id 0
  let hi ← numericVaue (substr id 0 (some midPos))
  let low ← numericVaue (substr id (midPos + 1) none)
  pure (hi.toUInt64 <<< 32 ||| low.toUInt64)

def printed (n : UInt16) : List Char := Nat.toDigits 10 n.toNat

/-- `Value` of a number. -/
def valueString (id : NodeIdValueType) : List Char :=
  printed (id >>> 48).toUInt16 ++ '.' :: printed (id <<< 16 >>> 48).toUInt16 ++
    ':' :: printed (id <<< 32 >>> 48).toUInt16 ++ '.' :: printed (id <<< 48 >>> 48).toUInt16

/-! ### The scheme -/

/-- A number of 32 bits, or two of 16 bits with a dot between them. -/
inductive Side : List Char → ℕ → Prop
  | number {s : List Char} {n : ℕ} : Decimal s n → n < 2 ^ 32 → Side s n
  | dotted {a b : List Char} {m n : ℕ} : Decimal a m → m < 2 ^ 16 → Decimal b n → n < 2 ^ 16 →
      Side (a ++ '.' :: b) (m * 2 ^ 16 + n)

/-- The string is a node id of the scheme, with its value. -/
def Scheme (s : List Char) (v : NodeIdValueType) : Prop :=
  ∃ hi lo m n, s = hi ++ ':' :: lo ∧ Side hi m ∧ Side lo n ∧ v.toNat = m * 2 ^ 32 + n

/-! ### What the source reads -/

section Read

variable {a b s hi lo : List Char} {x y : UInt64} {m n : ℕ} {c : Char}

theorem stops_dot : Stops '.' := by decide

theorem or_eq_add {m n k : ℕ} (h : n < 2 ^ k) : m * 2 ^ k ||| n = m * 2 ^ k + n := by
  rw [← Nat.shiftLeft_eq, Nat.shiftLeft_add_eq_or_of_lt h]

theorem toNat_and_mask (x : UInt64) : (0xFFFF &&& x).toNat = x.toNat % 2 ^ 16 := by
  rw [UInt64.toNat_and, Nat.and_comm]
  exact Nat.and_two_pow_sub_one_eq_mod x.toNat 16

theorem dotValue_eq (nValue : UInt32) (part : List Char) :
    dotValue nValue part = (stoul part).bind fun x =>
      if x.toNat < 2 ^ 16 then some (UInt32.ofNat (nValue.toNat * 2 ^ 16 + x.toNat)) else none := by
  unfold dotValue
  cases stoul part with
  | none => rfl
  | some x =>
    have hle : x > 65535 ↔ ¬x.toNat < 2 ^ 16 := by
      rw [gt_iff_lt, UInt64.lt_iff_toNat_lt, Nat.not_lt]
      rfl
    simp only [Option.bind_eq_bind, Option.bind_some, Option.pure_def, hle, ite_not]
    split
    · rename_i hx
      have hshift : (nValue <<< 16).toUInt64.toNat = nValue.toNat % 2 ^ 16 * 2 ^ 16 := by
        rw [UInt32.toNat_toUInt64, UInt32.toNat_shiftLeft, Nat.shiftLeft_eq]
        exact Nat.mul_mod_mul_right (2 ^ 16) nValue.toNat (2 ^ 16)
      have htoNat : ((nValue <<< 16).toUInt64 ||| 0xFFFF &&& x).toUInt32.toNat =
          (UInt32.ofNat (nValue.toNat * 2 ^ 16 + x.toNat)).toNat := by
        rw [UInt64.toNat_toUInt32, UInt64.toNat_or, hshift, toNat_and_mask, Nat.mod_eq_of_lt hx,
          or_eq_add hx, UInt32.toNat_ofNat']
        omega
      rw [UInt32.toNat_inj.mp htoNat]
    · rfl

theorem numericVaue_number (h : '.' ∉ s) :
    numericVaue s = (stoul s).map UInt64.toUInt32 := by
  rw [numericVaue, find_eq_none_iff.mpr h]

/-- What is read of a number and of what follows its dot. -/
def dotted (x y : UInt64) : Option UInt32 :=
  if x.toNat < 2 ^ 16 ∧ y.toNat < 2 ^ 16 then some (UInt32.ofNat (x.toNat * 2 ^ 16 + y.toNat))
  else none

/-- The string that the source takes for the second number goes on past the next dot, where the
number ends. -/
theorem stoul_substr (a b : List Char) :
    stoul (substr (a ++ '.' :: b) (a.length + 1) (find '.' (a ++ '.' :: b) (a.length + 1))) =
      stoul b := by
  have hdrop : (a ++ '.' :: b).drop (a.length + 1) = b := by simp
  rw [find_after]
  by_cases hdot : '.' ∈ b
  · obtain ⟨c, d, rfl, hc⟩ := List.eq_append_cons_of_mem hdot
    rw [find_append hc, Option.map_some, substr, hdrop, stoul_append stops_dot]
    have htake : (c ++ '.' :: d).take (c.length + (a.length + 1)) = c ++ '.' :: d.take a.length := by
      rw [List.take_length_add_append, List.take_succ_cons]
    rw [htake, stoul_append stops_dot]
  · rw [find_eq_none_iff.mpr hdot, Option.map_none, substr, hdrop]

theorem numericVaue_dotted (h : '.' ∉ a) :
    numericVaue (a ++ '.' :: b) =
      (stoul a).bind fun x => (stoul b).bind fun y => dotted x y := by
  have hfirst : substr (a ++ '.' :: b) 0 (some a.length) = a := by simp [substr]
  rw [numericVaue, find_append h]
  dsimp only [dotValues]
  rw [hfirst, dotValue_eq]
  cases stoul a with
  | none => rfl
  | some x =>
    by_cases hx : x.toNat < 2 ^ 16
    · have hvalue : (UInt32.ofNat (UInt32.toNat 0 * 2 ^ 16 + x.toNat)).toNat = x.toNat := by
        rw [UInt32.toNat_ofNat', UInt32.toNat_zero, Nat.zero_mul, Nat.zero_add]
        exact Nat.mod_eq_of_lt (by omega)
      simp only [Option.bind_eq_bind, Option.bind_some, if_pos hx, dotValue_eq, stoul_substr,
        hvalue, dotted]
      cases stoul b with
      | none => rfl
      | some y =>
        simp only [Option.bind_some, hx, true_and]
        split
        · split <;> rfl
        · rfl
    · simp only [Option.bind_eq_bind, Option.bind_some, Option.bind_none, dotted, hx, false_and,
        if_false]
      cases stoul b <;> rfl

/-- The string is read in two sides at its first colon. -/
theorem value_split (h : ':' ∉ hi) :
    value (hi ++ ':' :: lo) = (numericVaue hi).bind fun m => (numericVaue lo).map fun n =>
      UInt64.ofNat (m.toNat * 2 ^ 32 + n.toNat) := by
  have hhi : substr (hi ++ ':' :: lo) 0 (some hi.length) = hi := by simp [substr]
  have hlo : substr (hi ++ ':' :: lo) (hi.length + 1) none = lo := by simp [substr]
  have hpack : ∀ m n : UInt32,
      m.toUInt64 <<< 32 ||| n.toUInt64 = UInt64.ofNat (m.toNat * 2 ^ 32 + n.toNat) := by
    intro m n
    have hm := m.toNat_lt
    have hn := n.toNat_lt
    rw [← UInt64.toNat_inj, UInt64.toNat_or, UInt64.toNat_shiftLeft, UInt32.toNat_toUInt64,
      UInt32.toNat_toUInt64, Nat.shiftLeft_eq, UInt64.toNat_ofNat']
    show m.toNat * 2 ^ 32 % 2 ^ 64 ||| n.toNat = _
    rw [Nat.mod_eq_of_lt (by omega), or_eq_add hn, Nat.mod_eq_of_lt (by omega)]
  rw [value, find_append h]
  simp only [Option.bind_eq_bind, Option.bind_some, Option.pure_def, hhi, hlo, hpack]
  cases numericVaue hi with
  | none => rfl
  | some m => cases numericVaue lo <;> rfl

theorem value_eq_none (h : ':' ∉ s) : value s = none := by
  rw [value, find_eq_none_iff.mpr h]
  rfl

/-- A number of the scheme is read as it is. -/
theorem stoul_decimal (h : Decimal s n) (hn : n < 2 ^ 64) :
    ∃ x, stoul s = some x ∧ x.toNat = n := by
  refine ⟨UInt64.ofNat n, ?_, ?_⟩
  · rw [h.stoul_eq, if_pos hn]
  · rw [UInt64.toNat_ofNat']
    exact Nat.mod_eq_of_lt hn

theorem Side.numericVaue_eq (h : Side s n) :
    n < 2 ^ 32 ∧ numericVaue s = some (UInt32.ofNat n) := by
  cases h with
  | number hs hn =>
    obtain ⟨x, hx, rfl⟩ := stoul_decimal hs (by omega)
    refine ⟨hn, ?_⟩
    rw [numericVaue_number (hs.not_mem (by decide)), hx]
    rfl
  | dotted ha hm hb hn =>
    obtain ⟨x, hx, rfl⟩ := stoul_decimal ha (by omega)
    obtain ⟨y, hy, rfl⟩ := stoul_decimal hb (by omega)
    refine ⟨by omega, ?_⟩
    rw [numericVaue_dotted (ha.not_mem (by decide)), hx, hy]
    exact if_pos ⟨hm, hn⟩

theorem Side.not_mem (h : Side s n) : ':' ∉ s := by
  cases h with
  | number hs hn => exact hs.not_mem (by decide)
  | dotted ha hm hb hn =>
    have hleft : ':' ∉ _ := ha.not_mem (by decide)
    have hright : ':' ∉ _ := hb.not_mem (by decide)
    simp [hleft, hright]

/-- Two sides of the scheme are read with their values. -/
theorem value_sides (h : Side hi m) (h' : Side lo n) :
    value (hi ++ ':' :: lo) = some (UInt64.ofNat (m * 2 ^ 32 + n)) := by
  obtain ⟨hm, hhi⟩ := h.numericVaue_eq
  obtain ⟨hn, hlo⟩ := h'.numericVaue_eq
  rw [value_split h.not_mem, hhi, hlo, Option.bind_some, Option.map_some, UInt32.toNat_ofNat',
    UInt32.toNat_ofNat', Nat.mod_eq_of_lt hm, Nat.mod_eq_of_lt hn]

theorem Scheme.value_eq {v : NodeIdValueType} (h : Scheme s v) : value s = some v := by
  obtain ⟨hi, lo, m, n, rfl, hhi, hlo, hv⟩ := h
  rw [value_sides hhi hlo, ← hv, UInt64.ofNat_toNat]

theorem side_printed (x y : UInt16) :
    Side (printed x ++ '.' :: printed y) (x.toNat * 2 ^ 16 + y.toNat) :=
  .dotted (decimal_toDigits _) x.toNat_lt (decimal_toDigits _) y.toNat_lt

/-- An id that is printed is read back. -/
theorem value_valueString (v : NodeIdValueType) : value (valueString v) = some v := by
  have hsides := value_sides (side_printed (v >>> 48).toUInt16 (v <<< 16 >>> 48).toUInt16)
    (side_printed (v <<< 32 >>> 48).toUInt16 (v <<< 48 >>> 48).toUInt16)
  have hparts : ((v >>> 48).toUInt16.toNat * 2 ^ 16 + (v <<< 16 >>> 48).toUInt16.toNat) * 2 ^ 32 +
      ((v <<< 32 >>> 48).toUInt16.toNat * 2 ^ 16 + (v <<< 48 >>> 48).toUInt16.toNat) =
        v.toNat := by
    have hlt := v.toNat_lt
    simp only [UInt64.toNat_toUInt16, UInt64.toNat_shiftRight, UInt64.toNat_shiftLeft,
      Nat.shiftLeft_eq, Nat.shiftRight_eq_div_pow, UInt64.toNat_ofNat, Nat.reducePow, Nat.reduceMod]
    omega
  rw [hparts, UInt64.ofNat_toNat] at hsides
  rw [valueString, List.append_assoc, List.cons_append]
  exact hsides

/-! ### What the source takes for a node id -/

/-- The numbers of a side: what is before its first dot and what is after it. -/
def numbers (side : List Char) : List (List Char) :=
  match find '.' side 0 with
  | none => [side]
  | some pos => [side.take pos, side.drop (pos + 1)]

/-- Every number starts with one that `stoul` reads, of 16 bits where there is a dot. -/
def Readable (side : List Char) : Prop :=
  ∀ number ∈ numbers side, ∃ x, stoul number = some x ∧ ('.' ∈ side → x.toNat < 2 ^ 16)

/-- Every number is of digits and nothing else, and has 32 bits where there is no dot. -/
def DigitsAlone (side : List Char) : Prop :=
  (∀ number ∈ numbers side, ∀ c ∈ number, c.isDigit = true) ∧
    ('.' ∉ side → Nat.ofDigitChars 10 side 0 < 2 ^ 32)

/-- If the numbers on both sides of the first colon can be read, they are digits alone. -/
def WellWritten (s : List Char) : Prop :=
  ∀ hi lo, s = hi ++ ':' :: lo → ':' ∉ hi → Readable hi → Readable lo →
    DigitsAlone hi ∧ DigitsAlone lo

theorem numbers_of_not_mem (h : '.' ∉ s) : numbers s = [s] := by
  rw [numbers, find_eq_none_iff.mpr h]

theorem numbers_append (h : '.' ∉ a) : numbers (a ++ '.' :: b) = [a, b] := by
  rw [numbers, find_append h]
  simp

theorem isSome_numericVaue_iff (s : List Char) : (numericVaue s).isSome = true ↔ Readable s := by
  by_cases hdot : '.' ∈ s
  · obtain ⟨a, b, rfl, ha⟩ := List.eq_append_cons_of_mem hdot
    have hmem : '.' ∈ a ++ '.' :: b := hdot
    simp only [Readable, numbers_append ha, List.mem_cons, List.not_mem_nil, or_false,
      forall_eq_or_imp, forall_eq, hmem, true_imp_iff]
    rw [numericVaue_dotted ha]
    cases stoul a with
    | none => simp
    | some x =>
      cases stoul b with
      | none => simp
      | some y => simp [dotted]
  · simp [Readable, numbers_of_not_mem hdot, hdot, numericVaue_number hdot, Option.isSome_iff_exists]

/-- A number that can be read and is of digits alone. -/
theorem decimal_of_stoul {number : List Char} (hx : stoul number = some x)
    (hdigits : ∀ c ∈ number, c.isDigit = true) : Decimal number x.toNat := by
  have hdecimal : Decimal number (Nat.ofDigitChars 10 number 0) :=
    ⟨ne_nil_of_stoul hx, hdigits, rfl⟩
  rw [hdecimal.toNat_of_stoul hx]
  exact hdecimal

theorem Side.digitsAlone (h : Side s n) : DigitsAlone s := by
  cases h with
  | number hs hn =>
    rw [DigitsAlone, numbers_of_not_mem (hs.not_mem (by decide)), hs.value]
    exact ⟨by simpa using hs.digits, fun _ => hn⟩
  | dotted ha hm hb hn =>
    rw [DigitsAlone, numbers_append (ha.not_mem (by decide))]
    refine ⟨?_, fun hdot => absurd (by simp) hdot⟩
    simpa using ⟨ha.digits, hb.digits⟩

/-- The sides of an id of the scheme. -/
theorem Scheme.digitsAlone {v : NodeIdValueType} (h : Scheme (hi ++ ':' :: lo) v)
    (hcolon : ':' ∉ hi) : DigitsAlone hi ∧ DigitsAlone lo := by
  obtain ⟨hi', lo', m, n, heq, hhi, hlo, -⟩ := h
  obtain ⟨rfl, rfl⟩ := append_cons_inj hcolon hhi.not_mem heq
  exact ⟨hhi.digitsAlone, hlo.digitsAlone⟩

/-- A side that can be read is of the scheme when its numbers are digits alone. -/
theorem Readable.digitsAlone_iff (h : Readable s) : DigitsAlone s ↔ ∃ n, Side s n := by
  constructor
  · rintro ⟨hdigits, hlt⟩
    by_cases hdot : '.' ∈ s
    · obtain ⟨a, b, rfl, ha⟩ := List.eq_append_cons_of_mem hdot
      rw [Readable, numbers_append ha] at h
      rw [numbers_append ha] at hdigits
      obtain ⟨x, hx, hx16⟩ := h a (by simp)
      obtain ⟨y, hy, hy16⟩ := h b (by simp)
      exact ⟨_, .dotted (decimal_of_stoul hx (hdigits a (by simp))) (hx16 hdot)
        (decimal_of_stoul hy (hdigits b (by simp))) (hy16 hdot)⟩
    · rw [Readable, numbers_of_not_mem hdot] at h
      rw [numbers_of_not_mem hdot] at hdigits
      obtain ⟨x, hx, -⟩ := h s (by simp)
      have hdecimal := decimal_of_stoul hx (hdigits s (by simp))
      have hx32 := hlt hdot
      rw [hdecimal.value] at hx32
      exact ⟨_, .number hdecimal hx32⟩
  · rintro ⟨n, hside⟩
    exact hside.digitsAlone

/-- The strings that are read are those of the scheme, with their values, when the numbers that can
be read are digits alone. -/
theorem reads_scheme_iff (s : List Char) :
    (∀ v, value s = some v ↔ Scheme s v) ↔ WellWritten s := by
  constructor
  · rintro h hi lo rfl hcolon hhi hlo
    obtain ⟨m, hm⟩ := Option.isSome_iff_exists.mp ((isSome_numericVaue_iff hi).mpr hhi)
    obtain ⟨n, hn⟩ := Option.isSome_iff_exists.mp ((isSome_numericVaue_iff lo).mpr hlo)
    have hvalue : value (hi ++ ':' :: lo) = some (UInt64.ofNat (m.toNat * 2 ^ 32 + n.toNat)) := by
      rw [value_split hcolon, hm, hn]
      rfl
    exact ((h _).mp hvalue).digitsAlone hcolon
  · intro h v
    refine ⟨fun hvalue => ?_, Scheme.value_eq⟩
    by_cases hcolon : ':' ∈ s
    · obtain ⟨hi, lo, rfl, hhi⟩ := List.eq_append_cons_of_mem hcolon
      have hread : Readable hi ∧ Readable lo := by
        rw [← isSome_numericVaue_iff, ← isSome_numericVaue_iff]
        rw [value_split hhi] at hvalue
        cases hm : numericVaue hi <;> cases hn : numericVaue lo <;> simp [hm, hn] at hvalue ⊢
      obtain ⟨hhi', hlo'⟩ := h hi lo rfl hhi hread.1 hread.2
      obtain ⟨m, hm⟩ := hread.1.digitsAlone_iff.mp hhi'
      obtain ⟨n, hn⟩ := hread.2.digitsAlone_iff.mp hlo'
      have hm32 := hm.numericVaue_eq.1
      have hn32 := hn.numericVaue_eq.1
      rw [value_sides hm hn] at hvalue
      cases hvalue
      refine ⟨hi, lo, m, n, rfl, hm, hn, ?_⟩
      rw [UInt64.toNat_ofNat']
      exact Nat.mod_eq_of_lt (by omega)
    · rw [value_eq_none hcolon] at hvalue
      cases hvalue

end Read

example : value "1.2:34".toList = some 281483566645282 := by decide +kernel

/-- A number of more than 32 bits is cut, and what follows a second number is left alone. -/
theorem not_reads_scheme :
    value "4294967297:1".toList = value "1:1".toList ∧
      ¬(∀ v, value "4294967297:1".toList = some v ↔ Scheme "4294967297:1".toList v) ∧
      value "1.2.3:4".toList = value "1.2:4".toList ∧
      ¬(∀ v, value "1.2.3:4".toList = some v ↔ Scheme "1.2.3:4".toList v) := by
  have hlong : value "4294967297:1".toList = some 4294967297 := by decide +kernel
  have hthird : value "1.2.3:4".toList = some 281483566645252 := by decide +kernel
  refine ⟨by decide +kernel, fun h => ?_, by decide +kernel, fun h => ?_⟩
  · have hscheme : Scheme ("4294967297".toList ++ ':' :: ['1']) 4294967297 := (h _).mp hlong
    exact absurd ((hscheme.digitsAlone (by decide)).1.2 (by decide)) (by decide)
  · have hscheme : Scheme ("1.2.3".toList ++ ':' :: ['4']) 281483566645252 := (h _).mp hthird
    have hdigits := (hscheme.digitsAlone (by decide)).1.1 "2.3".toList (by decide) '.' (by decide)
    cases hdigits

end Laps.Messages.NodeId
