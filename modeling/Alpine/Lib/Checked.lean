import Mathlib.Algebra.Order.Group.Int

/-!
# Integers of a machine, checked

`signed? w v` and `unsigned? w v` are the value `v` of an expression of that many bits, if it is in
range: a computation in which each step is so checked has a result exactly if nothing wraps. `carry`
is the loop that moves whole units from the low part of a number to the high part.
-/

namespace Alpine.Lib

/-- A value of `w` bits with a sign. -/
def signed? (w : Nat) (v : Int) : Option Int :=
  if -2 ^ (w - 1) ≤ v ∧ v < 2 ^ (w - 1) then some v else none

/-- A value of `w` bits without a sign. -/
def unsigned? (w : Nat) (v : Int) : Option Int := if 0 ≤ v ∧ v < 2 ^ w then some v else none

theorem signed?_of_mem {w : Nat} {v : Int} (h : -2 ^ (w - 1) ≤ v ∧ v < 2 ^ (w - 1)) :
    signed? w v = some v := if_pos h

theorem unsigned?_of_mem {w : Nat} {v : Int} (h : 0 ≤ v ∧ v < 2 ^ w) :
    unsigned? w v = some v := if_pos h

/-- `while (low >= unit) { high++; low -= unit; }` in `w` bits with a sign; it does not end with a
unit of 0. -/
def carry (w unit : Nat) (high : Int) (low : Nat) : Option (Int × Nat) :=
  if unit ≤ low then
    if unit = 0 then none
    else do
      let high ← signed? w (high + 1)
      let _ ← signed? w (low - unit)
      carry w unit high (low - unit)
  else some (high, low)
termination_by low

/-- The whole units go to the high part. -/
theorem carry_eq {w unit : Nat} (hunit : 0 < unit) {high : Int} {low : Nat}
    (hlow : (low : Int) < 2 ^ (w - 1)) (hhigh : -2 ^ (w - 1) ≤ high)
    (hsum : high + (low / unit : Nat) < 2 ^ (w - 1)) :
    carry w unit high low = some (high + (low / unit : Nat), low % unit) := by
  induction low using Nat.strong_induction_on generalizing high with
  | _ low ih =>
    rw [carry]
    by_cases hle : unit ≤ low
    · have hmod : low % unit = (low - unit) % unit := Nat.mod_eq_sub_mod hle
      have hsub : ((low - unit : Nat) : Int) = low - unit := Int.ofNat_sub hle
      obtain ⟨rest, hrest⟩ : ∃ rest : Nat, rest = (low - unit) / unit := ⟨_, rfl⟩
      have hdiv : low / unit = rest + 1 := by rw [hrest]; exact Nat.div_eq_sub_div hunit hle
      rw [hdiv] at hsum ⊢
      have hhigh' : signed? w (high + 1) = some (high + 1) := signed?_of_mem (by omega)
      have hlow' : signed? w ((low : Int) - unit) = some ((low : Int) - unit) :=
        signed?_of_mem (by omega)
      rw [if_pos hle, if_neg hunit.ne', hhigh', hlow']
      show carry w unit (high + 1) (low - unit) = _
      rw [ih (low - unit) (by omega) (by omega) (by omega) (by rw [← hrest]; omega), hmod, ← hrest]
      congr 2
      omega
    · rw [if_neg hle, Nat.div_eq_of_lt (Nat.lt_of_not_le hle), Nat.mod_eq_of_lt
        (Nat.lt_of_not_le hle)]
      simp

end Alpine.Lib
