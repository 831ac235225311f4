import Mathlib.Algebra.Order.Archimedean.Basic
import Mathlib.Data.Int.Log
import Mathlib.Tactic.Positivity
import Alpine.Lib.JsonText

/-!
# Numbers as a stream writes them

`signed` is `operator<<` of an integer, `fixed` that of a number with `std::fixed` and a precision,
for numbers that are not negative. An integer can be read back from a text at any separator that it
does not contain (`signed_append_inj`, `append_signed_inj`).

`partialSums` are the sums that a loop prints while it adds up.
-/

namespace Alpine.Lib

def signed (n : Int) : List Char :=
  if n < 0 then '-' :: Nat.toDigits 10 n.natAbs else Nat.toDigits 10 n.natAbs

/-- A half is rounded to even. -/
def roundHalfEven (x : ℚ) : Nat :=
  let whole := x.num.natAbs / x.den
  let rest := x.num.natAbs % x.den
  if x.den < 2 * rest || (2 * rest = x.den && whole % 2 = 1) then whole + 1 else whole

def fixed (precision : Nat) (x : ℚ) : List Char :=
  let scaled := roundHalfEven (x * (10 ^ precision : Nat))
  Nat.toDigits 10 (scaled / 10 ^ precision) ++
    '.' :: (Nat.toDigits 10 (scaled % 10 ^ precision)).leftpad precision '0'

theorem not_mem_signed {n : Int} {c : Char} (hdigit : c.isDigit = false) (hsign : c ≠ '-') :
    c ∉ signed n := by
  unfold signed
  split
  · rw [List.mem_cons]
    rintro (h | h)
    · exact hsign h
    · exact not_mem_toDigits hdigit h
  · exact not_mem_toDigits hdigit

theorem toDigits_injective {m n : Nat} (h : Nat.toDigits 10 m = Nat.toDigits 10 n) : m = n := by
  have := congrArg (fun s => Nat.ofDigitChars 10 s 0) h
  simpa only [Nat.ofDigitChars_ten_toDigits] using this

theorem signed_injective {m n : Int} (h : signed m = signed n) : m = n := by
  unfold signed at h
  split at h <;> split at h
  · have := toDigits_injective (List.cons.inj h).2
    omega
  · exact absurd (h ▸ List.mem_cons_self ..) (not_mem_toDigits (by decide))
  · exact absurd (h.symm ▸ List.mem_cons_self ..) (not_mem_toDigits (by decide))
  · have := toDigits_injective h
    omega

/-- Two texts that are cut at the first place of a separator. -/
theorem append_separator_inj {α : Type} {c : α} {a b s t : List α} (ha : c ∉ a) (hb : c ∉ b)
    (h : a ++ c :: s = b ++ c :: t) : a = b ∧ s = t := by
  induction a generalizing b with
  | nil =>
    cases b with
    | nil => exact ⟨rfl, (List.cons.inj h).2⟩
    | cons d b => exact absurd ((List.cons.inj h).1 ▸ List.mem_cons_self ..) hb
  | cons d a ih =>
    cases b with
    | nil => exact absurd ((List.cons.inj h).1 ▸ List.mem_cons_self ..) ha
    | cons e b =>
      rw [List.cons_append, List.cons_append] at h
      obtain ⟨rfl, htail⟩ := List.cons.inj h
      obtain ⟨rfl, hrest⟩ := ih (fun hc => ha (List.mem_cons_of_mem _ hc))
        (fun hc => hb (List.mem_cons_of_mem _ hc)) htail
      exact ⟨rfl, hrest⟩

theorem takeWhile_append_separator {α : Type} [DecidableEq α] {c : α} {a : List α} (ha : c ∉ a)
    (s : List α) : (a ++ c :: s).takeWhile (· ≠ c) = a := by
  have hall : ∀ d ∈ a, decide (d ≠ c) = true := fun d hd =>
    decide_eq_true fun heq => ha (heq ▸ hd)
  rw [List.takeWhile_append_of_pos hall, List.takeWhile_cons_of_neg (by simp), List.append_nil]

theorem dropWhile_append_separator {α : Type} [DecidableEq α] {c : α} {a : List α} (ha : c ∉ a)
    (s : List α) : (a ++ c :: s).dropWhile (· ≠ c) = c :: s := by
  have hall : ∀ d ∈ a, decide (d ≠ c) = true := fun d hd =>
    decide_eq_true fun heq => ha (heq ▸ hd)
  rw [List.dropWhile_append_of_pos hall, List.dropWhile_cons_of_neg (by simp)]

variable {c : Char} {m n : Int} {s t : List Char}

theorem signed_append_inj (hdigit : c.isDigit = false) (hsign : c ≠ '-')
    (h : signed m ++ c :: s = signed n ++ c :: t) : m = n ∧ s = t := by
  obtain ⟨hnumber, hrest⟩ := append_separator_inj (not_mem_signed hdigit hsign)
    (not_mem_signed hdigit hsign) h
  exact ⟨signed_injective hnumber, hrest⟩

/-- A number behind the last separator is read from the end. -/
theorem append_signed_inj (hdigit : c.isDigit = false) (hsign : c ≠ '-')
    (h : s ++ c :: signed m = t ++ c :: signed n) : m = n := by
  have hback := congrArg List.reverse h
  rw [List.reverse_append, List.reverse_append, List.reverse_cons, List.reverse_cons,
    List.append_assoc, List.append_assoc, List.singleton_append, List.singleton_append] at hback
  have hnumber := (append_separator_inj (fun hc => not_mem_signed hdigit hsign
    (List.mem_reverse.mp hc)) (fun hc => not_mem_signed hdigit hsign (List.mem_reverse.mp hc))
    hback).1
  exact signed_injective (List.reverse_inj.mp hnumber)

/-! ## Sums of the first numbers -/

variable {G : Type} [AddGroup G]

def partialSums (sum : G) : List G → List G
  | [] => []
  | x :: xs => (sum + x) :: partialSums (sum + x) xs

@[simp] theorem length_partialSums (sum : G) (xs : List G) :
    (partialSums sum xs).length = xs.length := by
  induction xs generalizing sum with
  | nil => rfl
  | cons x xs ih => rw [partialSums, List.length_cons, List.length_cons, ih]

/-- Adding up changes nothing exactly if nothing but the last number is added to another. -/
theorem partialSums_eq_self {sum : G} {xs : List G} (hne : xs ≠ []) :
    partialSums sum xs = xs ↔ sum = 0 ∧ ∀ x ∈ xs.dropLast, x = 0 := by
  induction xs generalizing sum with
  | nil => exact absurd rfl hne
  | cons x xs ih =>
    rw [partialSums, List.cons.injEq, add_eq_right]
    cases xs with
    | nil => simp [partialSums]
    | cons y ys =>
      rw [List.dropLast_cons_cons, List.forall_mem_cons]
      constructor
      · rintro ⟨rfl, hrest⟩
        obtain ⟨hx, hys⟩ := (ih (List.cons_ne_nil y ys)).mp hrest
        exact ⟨rfl, (zero_add x).symm.trans hx, hys⟩
      · rintro ⟨rfl, rfl, hys⟩
        exact ⟨rfl, (ih (List.cons_ne_nil y ys)).mpr ⟨zero_add _, hys⟩⟩

/-!
## Numbers that a text begins with

`stoul` and `stod` are `std::stoul` and `std::stod` in the C locale, with 64 bits and IEEE doubles;
`none` is an exception. They pass over blanks and a sign and leave whatever is behind the number. A
double is the number that it is; `nearest` is the double that is nearest to a number. `stod_fixed`
says that a number between zero and one that was written with six decimals is read back with the
same six.
-/

/-- A number of 64 bits; one with the sign is taken from 2^64. -/
def stoul (s : List Char) : Option Nat :=
  let signed := takeSign (s.dropWhile isSpace)
  let digits := signed.2.takeWhile Char.isDigit
  let value := Nat.ofDigitChars 10 digits 0
  if digits = [] then none
  else if value < 2 ^ 64 then some (if signed.1 then (2 ^ 64 - value) % 2 ^ 64 else value)
  else none

inductive Double where
  | nan
  | infinite (negative : Bool)
  | finite (x : ℚ)
deriving DecidableEq

/-! ### Doubles -/

/-- The distance of the doubles around a number. -/
def ulp (x : ℚ) : ℚ := 2 ^ (max (Int.log 2 |x|) (-1022) - 52)

def nearest (x : ℚ) : ℚ :=
  let rounded := roundHalfEven (|x| / ulp x) * ulp x
  if x < 0 then -rounded else rounded

/-- `strtod` sets `ERANGE`: the number is too large, or it is so small that digits are lost. -/
def rangeError (x : ℚ) : Bool :=
  2 ^ 1024 ≤ |nearest x| || (|x| < 2 ^ (-1022 : Int) - 2 ^ (-1076 : Int) && nearest x ≠ x)

/-! ### `strtod` -/

def isHexDigit (c : Char) : Bool := (hexDigit c).isSome

def hexDigits (digits : List Char) : Nat :=
  digits.foldl (fun value c => 16 * value + (hexDigit c).getD 0) 0

/-- The digits before the point and behind it, and the rest. -/
def takeMantissa (isDigit : Char → Bool) (s : List Char) : List Char × List Char × List Char :=
  match s.dropWhile isDigit with
  | '.' :: rest => (s.takeWhile isDigit, rest.takeWhile isDigit, rest.dropWhile isDigit)
  | rest => (s.takeWhile isDigit, [], rest)

/-- An exponent behind its letter. -/
def takeExponent (letter : Char) : List Char → Int
  | c :: s =>
    let signed := takeSign s
    let value := Nat.ofDigitChars 10 (signed.2.takeWhile Char.isDigit) 0
    if c.toLower = letter then (if signed.1 then -value else value) else 0
  | [] => 0

def decimalValue (s : List Char) : Option ℚ :=
  let mantissa := takeMantissa Char.isDigit s
  let digits := mantissa.1 ++ mantissa.2.1
  if digits = [] then none
  else some (Nat.ofDigitChars 10 digits 0 *
    10 ^ (takeExponent 'e' mantissa.2.2 - mantissa.2.1.length))

/-- A number behind `0x`. -/
def hexValue : List Char → Option ℚ
  | '0' :: x :: s =>
    let mantissa := takeMantissa isHexDigit s
    let digits := mantissa.1 ++ mantissa.2.1
    if x.toLower ≠ 'x' ∨ digits = [] then none
    else some (hexDigits digits * 2 ^ (takeExponent 'p' mantissa.2.2 - 4 * mantissa.2.1.length))
  | _ => none

def stod (s : List Char) : Option Double :=
  let signed := takeSign (s.dropWhile isSpace)
  let word := (signed.2.take 3).map Char.toLower
  if word = ['i', 'n', 'f'] then some (.infinite signed.1)
  else if word = ['n', 'a', 'n'] then some .nan
  else do
    let x ← (hexValue signed.2).or (decimalValue signed.2)
    if rangeError x then none else some (.finite (if signed.1 then -nearest x else nearest x))

/-! ### Rounding -/

theorem abs_roundHalfEven_sub_le {x : ℚ} (hx : 0 ≤ x) : |(roundHalfEven x : ℚ) - x| ≤ 1 / 2 := by
  have hden : (0 : ℚ) < x.den := by exact_mod_cast x.den_pos
  have hnum : ((x.num.natAbs : Nat) : ℚ) = x * x.den := by
    rw [Nat.cast_natAbs, abs_of_nonneg (Rat.num_nonneg.mpr hx), Rat.mul_den_eq_num]
  have hdiv := Nat.div_add_mod x.num.natAbs x.den
  have hmod := Nat.mod_lt x.num.natAbs x.den_pos
  have hsum : (x.den : ℚ) * (x.num.natAbs / x.den : Nat) + (x.num.natAbs % x.den : Nat) =
      x * x.den := by
    rw [← hnum]
    exact_mod_cast hdiv
  have hbounds : ∀ n : Nat, |(n : ℚ) * x.den - x * x.den| ≤ 1 / 2 * x.den →
      |(n : ℚ) - x| ≤ 1 / 2 := by
    intro n h
    rw [← sub_mul, abs_mul, abs_of_pos hden] at h
    exact le_of_mul_le_mul_right h hden
  apply hbounds
  rw [← hsum, abs_le]
  unfold roundHalfEven
  dsimp only
  have hmod' : ((x.num.natAbs % x.den : Nat) : ℚ) < x.den := by exact_mod_cast hmod
  have hnonneg : (0 : ℚ) ≤ (x.num.natAbs % x.den : Nat) := Nat.cast_nonneg _
  split
  · next hup =>
    have hle : (x.den : ℚ) ≤ 2 * (x.num.natAbs % x.den : Nat) := by
      rw [Bool.or_eq_true, Bool.and_eq_true, decide_eq_true_eq, decide_eq_true_eq] at hup
      rcases hup with hlt | ⟨heq, -⟩
      · exact_mod_cast hlt.le
      · exact_mod_cast heq.ge
    push_cast
    constructor <;> linarith
  · next hdown =>
    have hle : 2 * ((x.num.natAbs % x.den : Nat) : ℚ) ≤ x.den := by
      rw [Bool.or_eq_true, not_or, decide_eq_true_eq, Nat.not_lt] at hdown
      exact_mod_cast hdown.1
    constructor <;> linarith

theorem roundHalfEven_eq {x : ℚ} {m : Nat} (hx : 0 ≤ x) (h : |x - m| < 1 / 2) :
    roundHalfEven x = m := by
  have hround := abs_roundHalfEven_sub_le hx
  have hlt : |((roundHalfEven x : Int) : ℚ) - ((m : Int) : ℚ)| < 1 := by
    have := abs_sub_le (roundHalfEven x : ℚ) x m
    push_cast
    linarith
  have hint : |(roundHalfEven x : Int) - m| < 1 := by exact_mod_cast hlt
  rw [abs_lt] at hint
  omega

theorem ulp_pos (x : ℚ) : 0 < ulp x := zpow_pos (by norm_num) _

theorem abs_nearest_sub_le {x : ℚ} (hx : 0 ≤ x) : |nearest x - x| ≤ ulp x / 2 := by
  have hpos := ulp_pos x
  have hround := abs_roundHalfEven_sub_le (div_nonneg (abs_nonneg x) hpos.le)
  unfold nearest
  dsimp only
  rw [if_neg (not_lt.mpr hx), abs_of_nonneg hx] at *
  have hscaled : (roundHalfEven (x / ulp x) : ℚ) * ulp x - x =
      (roundHalfEven (x / ulp x) - x / ulp x) * ulp x := by
    rw [sub_mul, div_mul_cancel₀ _ hpos.ne']
  rw [hscaled, abs_mul, abs_of_pos hpos]
  calc |(roundHalfEven (x / ulp x) : ℚ) - x / ulp x| * ulp x ≤ 1 / 2 * ulp x :=
        mul_le_mul_of_nonneg_right hround hpos.le
    _ = ulp x / 2 := by ring

theorem nearest_nonneg {x : ℚ} (hx : 0 ≤ x) : 0 ≤ nearest x := by
  unfold nearest
  dsimp only
  rw [if_neg (not_lt.mpr hx)]
  exact mul_nonneg (Nat.cast_nonneg _) (ulp_pos x).le

theorem ulp_le {x : ℚ} (hx : 0 < x) (hle : x ≤ 1) : ulp x ≤ 2 ^ (-52 : Int) := by
  have hlog : Int.log 2 x ≤ 0 := by
    have := Int.log_mono_right (b := 2) hx hle
    rwa [Int.log_one_right] at this
  unfold ulp
  rw [abs_of_pos hx]
  exact zpow_le_zpow_right₀ (by norm_num) (by omega)

theorem nearest_zero : nearest 0 = 0 := by
  unfold nearest
  dsimp only
  rw [if_neg (lt_irrefl _), abs_zero, zero_div, show roundHalfEven 0 = 0 by rfl, Nat.cast_zero,
    zero_mul]

theorem nearest_one : nearest 1 = 1 := by
  have hulp : ulp 1 = 2 ^ (-52 : Int) := by
    unfold ulp
    rw [abs_one, Int.log_one_right]
    rfl
  have hround : roundHalfEven (2 ^ 52) = 2 ^ 52 :=
    roundHalfEven_eq (by norm_num) (by norm_num)
  unfold nearest
  dsimp only
  rw [if_neg (by norm_num), hulp, abs_one, show (1 : ℚ) / 2 ^ (-52 : Int) = 2 ^ 52 by norm_num,
    hround]
  norm_num

theorem abs_nearest_sub_le_unit {x : ℚ} (hx : 0 ≤ x) (hle : x ≤ 1) :
    |nearest x - x| ≤ 2 ^ (-53 : Int) := by
  rcases hx.eq_or_lt with rfl | hpos
  · rw [nearest_zero, sub_zero, abs_zero]
    norm_num
  · calc |nearest x - x| ≤ ulp x / 2 := abs_nearest_sub_le hx
      _ ≤ 2 ^ (-52 : Int) / 2 := div_le_div_of_nonneg_right (ulp_le hpos hle) (by norm_num)
      _ = 2 ^ (-53 : Int) := by norm_num

theorem nearest_le_one {n : Nat} (hn : n ≤ 10 ^ 6) : nearest (n / 10 ^ 6) ≤ 1 := by
  rcases hn.eq_or_lt with rfl | hlt
  · rw [show (((10 ^ 6 : Nat) : ℚ) / 10 ^ 6) = 1 by norm_num, nearest_one]
  · have hle : (n : ℚ) + 1 ≤ 10 ^ 6 := by exact_mod_cast hlt
    have hx : (n : ℚ) / 10 ^ 6 ≤ 1 - 1 / 10 ^ 6 := by
      rw [div_le_iff₀ (by norm_num)]
      linarith
    have hnear := (abs_le.mp (abs_nearest_sub_le_unit (x := (n : ℚ) / 10 ^ 6) (by positivity)
      (hx.trans (by norm_num)))).2
    have hsmall : (2 : ℚ) ^ (-53 : Int) ≤ 1 / 10 ^ 6 := by norm_num
    linarith

/-! ### What was written is read -/

theorem stoul_decimal {digits : List Char} (hdigits : Decimal digits)
    (hvalue : Nat.ofDigitChars 10 digits 0 < 2 ^ 64) :
    stoul digits = some (Nat.ofDigitChars 10 digits 0) := by
  obtain ⟨c, s, rfl⟩ := List.exists_cons_of_ne_nil hdigits.1
  unfold stoul
  rw [takeSign_digits (hdigits.2 c (List.mem_cons_self ..))]
  dsimp only
  rw [List.takeWhile_eq_self_iff.mpr hdigits.2, if_neg (List.cons_ne_nil c s), if_pos hvalue,
    if_neg Bool.false_ne_true]

theorem decimal_toDigits (n : Nat) : Decimal (Nat.toDigits 10 n) :=
  ⟨Nat.toDigits_ne_nil, fun _ hc => isDigit_toDigits hc⟩

theorem stoul_toDigits {n : Nat} (hn : n < 2 ^ 64) : stoul (Nat.toDigits 10 n) = some n := by
  rw [stoul_decimal (decimal_toDigits n) (by rwa [Nat.ofDigitChars_ten_toDigits]),
    Nat.ofDigitChars_ten_toDigits]

theorem toLower_of_isDigit {c : Char} (hc : c.isDigit = true) : c.toLower = c := by
  have hrange := (Char.isDigit_iff_toNat.mp hc).2
  unfold Char.toLower
  refine dif_neg fun h => ?_
  have hupper : 65 ≤ c.toNat := h.1
  rw [show '9'.toNat = 57 from rfl] at hrange
  omega

/-- A numeral, with a point if there are digits behind it. -/
def pointed (whole fraction : List Char) : List Char :=
  whole ++ if fraction = [] then [] else '.' :: fraction

/-- What the digits are worth. -/
def valueOf (whole fraction : List Char) : ℚ :=
  Nat.ofDigitChars 10 (whole ++ fraction) 0 / 10 ^ fraction.length

variable {whole fraction : List Char}

theorem takeMantissa_pointed (hwhole : ∀ c ∈ whole, Char.isDigit c = true)
    (hfraction : ∀ c ∈ fraction, Char.isDigit c = true) :
    takeMantissa Char.isDigit (pointed whole fraction) = (whole, fraction, []) := by
  unfold takeMantissa pointed
  rw [List.takeWhile_append_of_pos hwhole, List.dropWhile_append_of_pos hwhole]
  by_cases hnil : fraction = []
  · subst hnil
    rw [if_pos rfl]
    simp
  · rw [if_neg hnil, List.dropWhile_cons_of_neg (by decide), List.takeWhile_cons_of_neg (by decide)]
    show (whole ++ [], fraction.takeWhile Char.isDigit, fraction.dropWhile Char.isDigit) = _
    rw [List.takeWhile_eq_self_iff.mpr hfraction, List.dropWhile_eq_nil_iff.mpr hfraction,
      List.append_nil]

theorem decimalValue_pointed (hwhole : Decimal whole)
    (hfraction : ∀ c ∈ fraction, Char.isDigit c = true) :
    decimalValue (pointed whole fraction) = some (valueOf whole fraction) := by
  unfold decimalValue valueOf
  rw [takeMantissa_pointed hwhole.2 hfraction]
  dsimp only
  rw [if_neg (by simp [hwhole.1]), show takeExponent 'e' [] = 0 from rfl, zero_sub, zpow_neg,
    zpow_natCast, div_eq_mul_inv]

/-- Behind the first character of a numeral is a digit, a point or nothing. -/
theorem hexValue_pointed (hwhole : ∀ c ∈ whole, Char.isDigit c = true) :
    hexValue (pointed whole fraction) = none := by
  have hletter : ∀ x rest, pointed whole fraction = '0' :: x :: rest → x.toLower ≠ 'x' := by
    intro x rest h hx
    have hmem : x.isDigit = true ∨ x = '.' := by
      unfold pointed at h
      cases whole with
      | nil =>
        split at h
        · cases h
        · cases h
      | cons c whole =>
        cases whole with
        | nil =>
          split at h
          · cases h
          · injection h with _ h
            injection h with h
            exact .inr h.symm
        | cons d whole =>
          injection h with _ h
          injection h with h
          exact .inl (h ▸ hwhole d (by simp))
    rcases hmem with hdigit | rfl
    · rw [toLower_of_isDigit hdigit] at hx
      subst hx
      cases hdigit
    · exact absurd hx (by decide)
  unfold hexValue
  split
  · next x rest h => exact if_pos (.inl (hletter x rest h))
  · rfl

theorem stod_pointed (hwhole : Decimal whole) (hfraction : ∀ c ∈ fraction, Char.isDigit c = true) :
    stod (pointed whole fraction) =
      if rangeError (valueOf whole fraction) then none
      else some (.finite (nearest (valueOf whole fraction))) := by
  obtain ⟨c, s, rfl⟩ := List.exists_cons_of_ne_nil hwhole.1
  have hc := hwhole.2 c (List.mem_cons_self ..)
  have hword : ∀ d : Char, ∀ word, d.isDigit = false →
      ((pointed (c :: s) fraction).take 3).map Char.toLower ≠ d :: word := by
    intro d word hd h
    injection h with h
    rw [toLower_of_isDigit hc] at h
    rw [h, hd] at hc
    cases hc
  unfold stod
  rw [show pointed (c :: s) fraction = c :: pointed s fraction from rfl, takeSign_digits hc,
    show c :: pointed s fraction = pointed (c :: s) fraction from rfl]
  dsimp only
  rw [if_neg (hword 'i' _ rfl), if_neg (hword 'n' _ rfl), hexValue_pointed hwhole.2,
    decimalValue_pointed hwhole hfraction]
  rfl

/-- A number with six decimals, as one of its digits. -/
theorem fixed_eq_pointed (x : ℚ) : ∃ whole fraction, fixed 6 x = pointed whole fraction ∧
    Decimal whole ∧ (∀ c ∈ fraction, Char.isDigit c = true) ∧
    valueOf whole fraction = (roundHalfEven (x * (10 ^ 6 : Nat)) : Nat) / 10 ^ 6 := by
  obtain ⟨n, hn⟩ : ∃ n, n = roundHalfEven (x * (10 ^ 6 : Nat)) := ⟨_, rfl⟩
  have hlength : (Nat.toDigits 10 (n % 10 ^ 6)).length ≤ 6 :=
    (Nat.length_toDigits_le_iff (by decide) (by decide)).mpr (Nat.mod_lt _ (by decide))
  have hpad : ((Nat.toDigits 10 (n % 10 ^ 6)).leftpad 6 '0').length = 6 := by
    rw [List.length_leftpad]
    omega
  refine ⟨Nat.toDigits 10 (n / 10 ^ 6), (Nat.toDigits 10 (n % 10 ^ 6)).leftpad 6 '0', ?_,
    decimal_toDigits _, fun c hc => ?_, ?_⟩
  · unfold pointed fixed
    rw [← hn, if_neg (List.ne_nil_of_length_pos (by omega))]
  · unfold List.leftpad at hc
    rcases List.mem_append.mp hc with hzero | hdigit
    · rw [List.eq_of_mem_replicate hzero]
      rfl
    · exact isDigit_toDigits hdigit
  · have hdigits : Nat.ofDigitChars 10 (Nat.toDigits 10 (n / 10 ^ 6) ++
        (Nat.toDigits 10 (n % 10 ^ 6)).leftpad 6 '0') 0 = n := by
      rw [Nat.ofDigitChars_append, Nat.ofDigitChars_ten_toDigits,
        Nat.ofDigitChars_eq_ofDigitChars_zero, hpad]
      unfold List.leftpad
      rw [Nat.ofDigitChars_append, Nat.ofDigitChars_replicate_zero, Nat.mul_zero,
        Nat.ofDigitChars_ten_toDigits]
      exact Nat.div_add_mod n (10 ^ 6)
    unfold valueOf
    rw [hdigits, hpad, hn]

/-- A number between zero and one is read with the six decimals that were written. -/
theorem stod_fixed {x : ℚ} (hx : 0 ≤ x) (hle : x ≤ 1) :
    ∃ y, stod (fixed 6 x) = some (.finite y) ∧ 0 ≤ y ∧ y ≤ 1 ∧ fixed 6 y = fixed 6 x := by
  obtain ⟨whole, fraction, htext, hwhole, hfraction, hvalue⟩ := fixed_eq_pointed x
  obtain ⟨n, hn⟩ : ∃ n, n = roundHalfEven (x * (10 ^ 6 : Nat)) := ⟨_, rfl⟩
  have hmax : n ≤ 10 ^ 6 := by
    have hround := (abs_le.mp (abs_roundHalfEven_sub_le (x := x * (10 ^ 6 : Nat))
      (by positivity))).2
    rw [← hn] at hround
    have hlt : (n : ℚ) < (10 ^ 6 + 1 : Nat) := by
      push_cast at hround ⊢
      linarith
    have hlt' : n < 10 ^ 6 + 1 := by exact_mod_cast hlt
    omega
  have hle' := nearest_le_one hmax
  have hnonneg := nearest_nonneg (x := (n : ℚ) / 10 ^ 6) (by positivity)
  rw [← hn] at hvalue
  refine ⟨nearest (n / 10 ^ 6), ?_, hnonneg, hle', ?_⟩
  · rw [htext, stod_pointed hwhole hfraction, hvalue, if_neg]
    rw [Bool.not_eq_true, rangeError, Bool.or_eq_false_iff, Bool.and_eq_false_iff,
      decide_eq_false_iff_not, decide_eq_false_iff_not, abs_of_nonneg hnonneg, not_le]
    refine ⟨lt_of_le_of_lt hle' (one_lt_pow₀ (by norm_num) (by decide)), ?_⟩
    rcases Nat.eq_zero_or_pos n with rfl | hpos
    · right
      rw [Nat.cast_zero, zero_div, nearest_zero]
      decide
    · left
      have hone : (1 : ℚ) ≤ n := by exact_mod_cast hpos
      have hlarge : (2 : ℚ) ^ (-1022 : Int) ≤ 2 ^ (-20 : Int) :=
        zpow_le_zpow_right₀ (by norm_num) (by decide)
      have htiny : (0 : ℚ) < 2 ^ (-1076 : Int) := zpow_pos (by norm_num) _
      have hvalue' : (2 : ℚ) ^ (-20 : Int) ≤ n / 10 ^ 6 := by
        rw [le_div_iff₀ (by norm_num)]
        exact le_trans (by norm_num) hone
      rw [abs_of_nonneg (by positivity), not_lt]
      exact (sub_le_self _ htiny.le).trans (hlarge.trans hvalue')
  · have hnear := abs_nearest_sub_le_unit (x := (n : ℚ) / 10 ^ 6) (by positivity)
      (by rw [div_le_one (by norm_num)]; exact_mod_cast hmax)
    have hscaled : nearest (n / 10 ^ 6) * (10 ^ 6 : Nat) - n =
        (nearest (n / 10 ^ 6) - n / 10 ^ 6) * 10 ^ 6 := by
      rw [sub_mul, div_mul_cancel₀ _ (by norm_num)]
      norm_num
    have hround : roundHalfEven (nearest (n / 10 ^ 6) * (10 ^ 6 : Nat)) = n := by
      refine roundHalfEven_eq (by positivity) ?_
      rw [hscaled, abs_mul, abs_of_pos (by norm_num : (0 : ℚ) < 10 ^ 6)]
      have hsmall : (2 : ℚ) ^ (-53 : Int) * 10 ^ 6 < 1 / 2 := by norm_num
      exact lt_of_le_of_lt (mul_le_mul_of_nonneg_right hnear (by norm_num)) hsmall
    unfold fixed
    rw [hround, hn]

end Alpine.Lib
