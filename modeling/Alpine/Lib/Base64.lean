import Mathlib.Tactic.IntervalCases

/-!
# Base 64

The encoding of RFC 4648 with padding, by groups of three bytes, and its decoder.
-/

namespace Alpine.Lib.Base64

/-- The alphabet. -/
def letter (k : Nat) : Char :=
  if k < 26 then Char.ofNat (65 + k)
  else if k < 52 then Char.ofNat (97 + (k - 26))
  else if k < 62 then Char.ofNat (48 + (k - 52))
  else if k = 62 then '+'
  else '/'

def value (c : Char) : Option Nat :=
  if 'A' ≤ c ∧ c ≤ 'Z' then some (c.toNat - 65)
  else if 'a' ≤ c ∧ c ≤ 'z' then some (c.toNat - 97 + 26)
  else if '0' ≤ c ∧ c ≤ '9' then some (c.toNat - 48 + 52)
  else if c = '+' then some 62
  else if c = '/' then some 63
  else none

/-- A last group of one or two bytes is filled up with zero bits. -/
def encode : List UInt8 → List Char
  | [] => []
  | [a] => [letter (a.toNat / 4), letter (a.toNat % 4 * 16), '=', '=']
  | [a, b] =>
    [letter (a.toNat / 4), letter (a.toNat % 4 * 16 + b.toNat / 16), letter (b.toNat % 16 * 4), '=']
  | a :: b :: c :: data =>
    letter (a.toNat / 4) :: letter (a.toNat % 4 * 16 + b.toNat / 16) ::
      letter (b.toNat % 16 * 4 + c.toNat / 64) :: letter (c.toNat % 64) :: encode data

/-- Only the last group has padding. -/
def decode : List Char → Option (List UInt8)
  | [] => some []
  | w :: x :: y :: z :: text => do
    let i ← value w
    let j ← value x
    let a := UInt8.ofNat (i * 4 + j / 16)
    if y = '=' ∧ z = '=' ∧ text = [] then some [a]
    else
      let k ← value y
      let b := UInt8.ofNat (j % 16 * 16 + k / 4)
      if z = '=' ∧ text = [] then some [a, b]
      else
        let l ← value z
        let data ← decode text
        some (a :: b :: UInt8.ofNat (k % 4 * 64 + l) :: data)
  | _ => none

theorem value_letter {k : Nat} (h : k < 64) : value (letter k) = some k := by
  interval_cases k <;> rfl

theorem letter_ne_pad {k : Nat} (h : k < 64) : letter k ≠ '=' := by
  interval_cases k <;> decide

theorem ofNat_eq {n : Nat} {a : UInt8} (h : n = a.toNat) : UInt8.ofNat n = a := by
  rw [h, UInt8.ofNat_toNat]

/-- Decoding gives the data back. -/
theorem decode_encode (data : List UInt8) : decode (encode data) = some data := by
  fun_induction encode data with
  | case1 => rfl
  | case2 a =>
    have ha := a.toNat_lt
    have hfirst : UInt8.ofNat (a.toNat / 4 * 4 + a.toNat % 4 * 16 / 16) = a := ofNat_eq (by omega)
    rw [decode, value_letter (by omega), value_letter (by omega), Option.bind_eq_bind,
      Option.bind_some, Option.bind_some, if_pos ⟨rfl, rfl, rfl⟩, hfirst]
  | case3 a b =>
    have ha := a.toNat_lt
    have hb := b.toNat_lt
    have hfirst : UInt8.ofNat (a.toNat / 4 * 4 + (a.toNat % 4 * 16 + b.toNat / 16) / 16) = a :=
      ofNat_eq (by omega)
    have hsecond : UInt8.ofNat ((a.toNat % 4 * 16 + b.toNat / 16) % 16 * 16 +
        b.toNat % 16 * 4 / 4) = b := ofNat_eq (by omega)
    have hletter : letter (b.toNat % 16 * 4) ≠ '=' := letter_ne_pad (by omega)
    rw [decode, value_letter (by omega), value_letter (by omega), Option.bind_eq_bind,
      Option.bind_some, Option.bind_some, if_neg fun h => hletter h.1, value_letter (by omega),
      Option.bind_some, if_pos ⟨rfl, rfl⟩, hfirst, hsecond]
  | case4 a b c data ih =>
    have ha := a.toNat_lt
    have hb := b.toNat_lt
    have hc := c.toNat_lt
    have hfirst : UInt8.ofNat (a.toNat / 4 * 4 + (a.toNat % 4 * 16 + b.toNat / 16) / 16) = a :=
      ofNat_eq (by omega)
    have hsecond : UInt8.ofNat ((a.toNat % 4 * 16 + b.toNat / 16) % 16 * 16 +
        (b.toNat % 16 * 4 + c.toNat / 64) / 4) = b := ofNat_eq (by omega)
    have hthird : UInt8.ofNat ((b.toNat % 16 * 4 + c.toNat / 64) % 4 * 64 + c.toNat % 64) = c :=
      ofNat_eq (by omega)
    have hletter : letter (c.toNat % 64) ≠ '=' := letter_ne_pad (by omega)
    rw [decode, value_letter (by omega), value_letter (by omega), Option.bind_eq_bind,
      Option.bind_some, Option.bind_some, if_neg fun h => hletter h.2.1, value_letter (by omega),
      Option.bind_some, if_neg fun h => hletter h.1, value_letter (by omega), ih, Option.bind_some,
      Option.bind_eq_bind, Option.bind_some, hfirst, hsecond, hthird]

end Alpine.Lib.Base64
