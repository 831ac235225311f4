import Mathlib.Algebra.Order.Ring.Int
import Mathlib.Data.List.Induction
import Mathlib.Data.List.TakeWhile

/-!
# Text as the C++ library reads it

Texts are lists of characters. `stoi` is `std::stoi` (a leading blank, a sign and trailing text are
passed over; `none` is an exception), `cString` the text that `c_str` gives, `getLines` the lines
that `std::getline` yields, and `trim` cuts the characters of a set off both ends. `stoi_decimal`
says that decimal numbers are read as they are written.
-/

namespace Alpine.Lib

/-- `std::isspace` in the C locale. -/
def isSpace (c : Char) : Bool :=
  c = ' ' || c = '\t' || c = '\n' || c = '\x0b' || c = '\x0c' || c = '\r'

/-- The sign of a number, and what is behind it. -/
def takeSign : List Char → Bool × List Char
  | '-' :: s => (true, s)
  | '+' :: s => (false, s)
  | s => (false, s)

def stoi (s : List Char) : Option Int :=
  let (negative, s) := takeSign (s.dropWhile isSpace)
  let digits := s.takeWhile Char.isDigit
  if digits = [] then none
  else
    let value : Int := Nat.ofDigitChars 10 digits 0
    let value := if negative then -value else value
    if -2 ^ 31 ≤ value ∧ value < 2 ^ 31 then some value else none

/-- The lines of a text; a line feed at the end begins no further line. -/
def getLines (s : List Char) : List (List Char) :=
  match s.splitOn '\n' with
  | lines => if lines.getLast? = some [] then lines.dropLast else lines

/-- The text that a C function reads, which ends at the first null character. -/
def cString (s : List Char) : List Char := s.takeWhile (· ≠ '\x00')

/-- Cut the characters of `blanks` off both ends. -/
def trim (blanks s : List Char) : List Char :=
  ((s.dropWhile fun c => blanks.contains c).reverse.dropWhile fun c => blanks.contains c).reverse

theorem isDigit_toDigits {n : Nat} {c : Char} (h : c ∈ Nat.toDigits 10 n) : c.isDigit = true :=
  Nat.isDigit_of_mem_toDigits (by decide) (by decide) h

theorem not_mem_toDigits {n : Nat} {c : Char} (hc : c.isDigit = false) : c ∉ Nat.toDigits 10 n := by
  intro h
  rw [isDigit_toDigits h] at hc
  cases hc

theorem cString_of_not_mem {s : List Char} (h : '\x00' ∉ s) : cString s = s := by
  refine List.takeWhile_eq_self_iff.mpr fun c hc => decide_eq_true ?_
  rintro rfl
  exact h hc

/-- A digit is no blank and no sign. -/
theorem takeSign_digits {s : List Char} {c : Char} (hc : c.isDigit = true) :
    takeSign ((c :: s).dropWhile isSpace) = (false, c :: s) := by
  have hblank : isSpace c = false := by
    cases h : isSpace c with
    | false => rfl
    | true =>
      simp only [isSpace, Bool.or_eq_true, decide_eq_true_eq] at h
      rcases h with ((((h | h) | h) | h) | h) | h <;> (subst h; cases hc)
  rw [List.dropWhile_cons_of_neg (by rw [hblank]; decide)]
  unfold takeSign
  split
  · next h =>
    injection h with h
    subst h
    cases hc
  · next h =>
    injection h with h
    subst h
    cases hc
  · rfl

/-- A digit is written as it was read. -/
theorem digitChar_of_isDigit {c : Char} (hc : c.isDigit = true) :
    Nat.digitChar (c.toNat - '0'.toNat) = c := by
  have hrange := Char.isDigit_iff_toNat.mp hc
  rw [show '0'.toNat = 48 from rfl] at hrange ⊢
  rw [show '9'.toNat = 57 from rfl] at hrange
  apply Char.toNat_inj.mp
  rw [Nat.toNat_digitChar_of_lt_ten (by omega)]
  omega

/-- A numeral without leading zeros is what its value is written as. -/
theorem toDigits_ofDigitChars {s : List Char} (hs : s ≠ [])
    (hall : ∀ c ∈ s, Char.isDigit c = true) (hzero : s.head? = some '0' → s.length ≤ 1) :
    Nat.toDigits 10 (Nat.ofDigitChars 10 s 0) = s := by
  induction s using List.reverseRecOn with
  | nil => exact absurd rfl hs
  | append_singleton l c ih =>
    have hc := hall c (by simp)
    have hrange := Char.isDigit_iff_toNat.mp hc
    have hdigit : c.toNat - '0'.toNat < 10 := by
      rw [show '0'.toNat = 48 from rfl] at hrange ⊢
      rw [show '9'.toNat = 57 from rfl] at hrange
      omega
    rw [Nat.ofDigitChars_append, Nat.ofDigitChars_cons, Nat.ofDigitChars_nil]
    cases l with
    | nil =>
      rw [Nat.ofDigitChars_nil, Nat.mul_zero, Nat.zero_add, Nat.toDigits_of_lt_base hdigit,
        digitChar_of_isDigit hc]
      rfl
    | cons d l =>
      have hfirst : d ≠ '0' := by
        rintro rfl
        have := hzero rfl
        simp at this
      have hl : Nat.toDigits 10 (Nat.ofDigitChars 10 (d :: l) 0) = d :: l := by
        refine ih (List.cons_ne_nil d l) (fun x hx => hall x ?_) fun h => ?_
        · rw [List.mem_append]
          exact .inl hx
        · injection h with h
          exact absurd h hfirst
      have hpos : 0 < Nat.ofDigitChars 10 (d :: l) 0 := by
        refine Nat.pos_of_ne_zero fun h => ?_
        rw [h] at hl
        injection hl with h
        exact hfirst h.symm
      rw [← Nat.toDigits_append_toDigits (by decide) hpos hdigit, hl,
        Nat.toDigits_of_lt_base hdigit, digitChar_of_isDigit hc]

def Decimal (digits : List Char) : Prop := digits ≠ [] ∧ ∀ c ∈ digits, Char.isDigit c = true

/-- A number of digits has no blank or sign for `std::stoi` to pass over. -/
theorem stoi_decimal {digits : List Char} (hdigits : Decimal digits) :
    stoi digits = if Nat.ofDigitChars 10 digits 0 < 2 ^ 31 then
      some (Nat.ofDigitChars 10 digits 0 : Int) else none := by
  obtain ⟨c, s, rfl⟩ := List.exists_cons_of_ne_nil hdigits.1
  have htake : (c :: s).takeWhile Char.isDigit = c :: s :=
    List.takeWhile_eq_self_iff.mpr hdigits.2
  unfold stoi
  rw [takeSign_digits (hdigits.2 c (List.mem_cons_self ..))]
  dsimp only
  rw [htake, if_neg (List.cons_ne_nil c s), if_neg Bool.false_ne_true]
  exact if_congr (by omega) rfl rfl

end Alpine.Lib
