import Mathlib.Logic.Function.Basic

/-!
# Things that are in one place

`place` says what is at each place, if anything is. `Exclusive place` says that nothing is at two
places. It is kept when a new thing is put somewhere (`Exclusive.put`) and when a thing moves
(`Exclusive.move`).
-/

namespace Alpine.Lib

variable {ι τ : Type}

/-- What is at a place after a change was there before. -/
def PlacesLe (place' place : ι → Option τ) : Prop :=
  ∀ i t, place' i = some t → place i = some t

/-- The same but for one place. -/
def PlacesLeBut (j : ι) (place' place : ι → Option τ) : Prop :=
  ∀ i, i ≠ j → ∀ t, place' i = some t → place i = some t

def Exclusive (place : ι → Option τ) : Prop :=
  ∀ i j t, place i = some t → place j = some t → i = j

namespace Exclusive

variable {place place' : ι → Option τ}

/-- Only `t` can be new at `j`, and it is nowhere else. -/
theorem put (he : Exclusive place) {j : ι} {t : τ} (hle : PlacesLeBut j place' place)
    (hnew : ∀ t', place' j = some t' → t' = t) (honly : ∀ i, i ≠ j → place' i ≠ some t) :
    Exclusive place' := by
  intro i i' t' hi hi'
  by_cases hij : i = j <;> by_cases hij' : i' = j
  · rw [hij, hij']
  · subst hij
    rw [hnew t' hi] at hi'
    exact absurd hi' (honly i' hij')
  · subst hij'
    rw [hnew t' hi'] at hi
    exact absurd hi (honly i hij)
  · exact he i i' t' (hle i hij t' hi) (hle i' hij' t' hi')

/-- `t` goes from `i` to `j`. -/
theorem move (he : Exclusive place) {i j : ι} {t : τ} (hi : place i = some t)
    (hgone : place' i = none) (hle : PlacesLeBut j place' place)
    (hnew : ∀ t', place' j = some t' → t' = t) : Exclusive place' := by
  refine he.put hle hnew ?_
  intro k hk hat
  have heq := he k i t (hle k hk t hat) hi
  rw [heq, hgone] at hat
  cases hat

end Exclusive

end Alpine.Lib
