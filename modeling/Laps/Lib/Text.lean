import Mathlib.Algebra.Group.Nat.Defs
import Mathlib.Data.List.TakeWhile
import Mathlib.Tactic.Common

/-! Text as lists of characters, as the C++ library cuts it and reads numbers out of it. -/

namespace Text

/-- `std::string::find` of a character, from a position on. -/
def find (c : Char) (s : List Char) (pos : ℕ) : Option ℕ :=
  ((s.drop pos).idxOf? c).map (· + pos)

/-- `std::string::substr`; without a count it goes to the end. -/
def substr (s : List Char) (pos : ℕ) (count : Option ℕ) : List Char :=
  match count with
  | none => s.drop pos
  | some n => (s.drop pos).take n

/-- `isspace` of the C locale. -/
def isSpace (c : Char) : Bool := c = ' ' || ('\t' ≤ c && c ≤ '\r')

/-- Whether a minus is in front, and what comes after a sign. -/
def sign : List Char → Bool × List Char
  | '-' :: s => (true, s)
  | '+' :: s => (false, s)
  | s => (false, s)

/-- `std::stoul` to base 10, for numbers of 64 bits.  `none` where it throws. -/
def stoul (s : List Char) : Option UInt64 :=
  let (negative, s) := sign (s.dropWhile isSpace)
  let digits := s.takeWhile Char.isDigit
  if digits = [] then none
  else
    let n := Nat.ofDigitChars 10 digits 0
    -- What comes after the digits is left alone.
    if n < 2 ^ 64 then some (if negative then -UInt64.ofNat n else UInt64.ofNat n) else none

/-- Digits alone. -/
structure Decimal (s : List Char) (n : ℕ) : Prop where
  nonempty : s ≠ []
  digits : ∀ c ∈ s, c.isDigit = true
  value : Nat.ofDigitChars 10 s 0 = n

/-- A number ends where such a character is. -/
def Stops (c : Char) : Prop := isSpace c = false ∧ c.isDigit = false ∧ c ≠ '-' ∧ c ≠ '+'

instance (c : Char) : Decidable (Stops c) := inferInstanceAs (Decidable (_ ∧ _))

section Find

variable {c : Char} {a b s : List Char}

theorem find_eq_none_iff : find c s 0 = none ↔ c ∉ s := by
  simp [find]

theorem find_append (h : c ∉ a) : find c (a ++ c :: b) 0 = some a.length := by
  have hidx : (a ++ c :: b).idxOf? c = some a.length := by
    rw [List.idxOf?_eq_some_iff]
    refine ⟨by simp, by simp, fun j hj => ?_⟩
    rw [List.getElem_append_left hj]
    exact fun heq => h (heq ▸ List.getElem_mem hj)
  simp [find, hidx]

theorem find_after (x : Char) : find c (a ++ x :: b) (a.length + 1) =
    (find c b 0).map (· + (a.length + 1)) := by
  have hdrop : (a ++ x :: b).drop (a.length + 1) = b := by simp
  simp [find, hdrop]

/-- What comes before the first such character is the same. -/
theorem append_cons_inj {a' b' : List Char} (h : c ∉ a) (h' : c ∉ a')
    (heq : a ++ c :: b = a' ++ c :: b') : a = a' ∧ b = b' := by
  have hlength : a.length = a'.length := by
    have hfind := congrArg (find c · 0) heq
    simpa only [find_append h, find_append h', Option.some.injEq] using hfind
  obtain ⟨rfl, htail⟩ := List.append_inj heq hlength
  exact ⟨rfl, (List.cons.inj htail).2⟩

end Find

section Stoul

variable {c : Char} {s a : List Char} {n : ℕ}

theorem starts_digit (h : c.isDigit = true) : isSpace c = false ∧ c ≠ '-' ∧ c ≠ '+' := by
  refine ⟨?_, ?_, ?_⟩
  · by_contra hspace
    rw [Bool.not_eq_false, isSpace, Bool.or_eq_true, decide_eq_true_eq] at hspace
    obtain rfl | hspace := hspace
    · cases h
    · simp only [Bool.and_eq_true, decide_eq_true_eq, Char.le_def] at hspace
      simp only [Char.isDigit, Bool.and_eq_true, decide_eq_true_eq, ge_iff_le] at h
      exact absurd (UInt32.le_trans h.1 hspace.2) (by decide)
  · rintro rfl
    cases h
  · rintro rfl
    cases h

theorem sign_cons (hminus : c ≠ '-') (hplus : c ≠ '+') : sign (c :: s) = (false, c :: s) := by
  unfold sign
  split
  · rename_i heq
    exact absurd (List.cons.inj heq).1 hminus
  · rename_i heq
    exact absurd (List.cons.inj heq).1 hplus
  · rfl

theorem Decimal.stoul_eq (h : Decimal s n) :
    stoul s = if n < 2 ^ 64 then some (UInt64.ofNat n) else none := by
  obtain ⟨hnonempty, hdigits, rfl⟩ := h
  obtain ⟨c, s, rfl⟩ := List.exists_cons_of_ne_nil hnonempty
  obtain ⟨hspace, hminus, hplus⟩ := starts_digit (hdigits c List.mem_cons_self)
  have htake : (c :: s).takeWhile Char.isDigit = c :: s := List.takeWhile_eq_self_iff.mpr hdigits
  unfold stoul
  rw [List.dropWhile_cons_of_neg (by simp [hspace]), sign_cons hminus hplus]
  dsimp only
  rw [htake, if_neg (List.cons_ne_nil c s)]
  rfl

theorem Decimal.toNat_of_stoul {x : UInt64} (h : Decimal s n) (hx : stoul s = some x) :
    x.toNat = n := by
  rw [h.stoul_eq] at hx
  split at hx
  · rename_i hlt
    cases hx
    rw [UInt64.toNat_ofNat']
    exact Nat.mod_eq_of_lt hlt
  · cases hx

theorem sign_append (hx : Stops c) (t : List Char) :
    sign (a ++ c :: t) = ((sign a).1, (sign a).2 ++ c :: t) := by
  cases a with
  | nil => exact sign_cons hx.2.2.1 hx.2.2.2
  | cons d a =>
    by_cases hminus : d = '-'
    · subst hminus
      rfl
    · by_cases hplus : d = '+'
      · subst hplus
        rfl
      · rw [List.cons_append, sign_cons hminus hplus, sign_cons hminus hplus, List.cons_append]

/-- What comes after a character that no number has is not read. -/
theorem stoul_append (hx : Stops c) (t : List Char) : stoul (a ++ c :: t) = stoul a := by
  have hspaces : (a ++ c :: t).dropWhile isSpace = a.dropWhile isSpace ++ c :: t := by
    rw [List.dropWhile_append]
    split
    · rename_i hempty
      rw [List.isEmpty_iff.mp hempty, List.dropWhile_cons_of_neg (by simp [hx.1])]
      rfl
    · rfl
  have hdigits : ∀ s : List Char,
      (s ++ c :: t).takeWhile Char.isDigit = s.takeWhile Char.isDigit := by
    intro s
    rw [List.takeWhile_append]
    split
    · rename_i hall
      rw [List.takeWhile_cons_of_neg (by simp [hx.2.1]), List.append_nil]
      exact (List.IsPrefix.eq_of_length (List.takeWhile_prefix _) hall).symm
    · rfl
  unfold stoul
  rw [hspaces, sign_append hx]
  dsimp only
  rw [hdigits]

theorem decimal_toDigits (n : ℕ) : Decimal (Nat.toDigits 10 n) n :=
  ⟨Nat.toDigits_ne_nil, fun _ hc => Nat.isDigit_of_mem_toDigits (by decide) (by decide) hc,
    Nat.ofDigitChars_ten_toDigits⟩

theorem Decimal.not_mem (h : Decimal s n) (hc : c.isDigit = false) : c ∉ s := by
  intro hmem
  rw [h.digits c hmem] at hc
  cases hc

/-- A number that is read starts with a digit, a sign or white space. -/
theorem ne_nil_of_stoul {n : UInt64} (h : stoul s = some n) : s ≠ [] := by
  rintro rfl
  cases h

end Stoul

end Text
