import Mathlib.Data.List.Basic

/-!
# Shuffles

A list of swaps is carried out on a list from left to right, and undone by carrying it out from
right to left (`swapAll_reverse`). A swap with a place outside of the list fails, so that a
shuffle that succeeds is known to have stayed inside.
-/

namespace Alpine.Lib

variable {α : Type}

/-- Exchange two entries; `none` if one of the places is outside. -/
def swapAt (xs : List α) (i j : Nat) : Option (List α) :=
  match xs[i]?, xs[j]? with
  | some x, some y => some ((xs.set i y).set j x)
  | _, _ => none

def swapAll : List (Nat × Nat) → List α → Option (List α)
  | [], xs => some xs
  | (i, j) :: swaps, xs => (swapAt xs i j).bind (swapAll swaps)

/-- All places are below `n`. -/
def SwapsInside (n : Nat) (swaps : List (Nat × Nat)) : Prop := ∀ p ∈ swaps, p.1 < n ∧ p.2 < n

variable {xs ys : List α} {i j : Nat} {swaps : List (Nat × Nat)}

theorem swapAt_of_lt (hi : i < xs.length) (hj : j < xs.length) :
    swapAt xs i j = some ((xs.set i xs[j]).set j xs[i]) := by
  unfold swapAt
  rw [List.getElem?_eq_getElem hi, List.getElem?_eq_getElem hj]

theorem lt_of_swapAt (h : swapAt xs i j = some ys) : i < xs.length ∧ j < xs.length := by
  unfold swapAt at h
  split at h
  · next hi hj =>
    exact ⟨(List.getElem?_eq_some_iff.mp hi).1, (List.getElem?_eq_some_iff.mp hj).1⟩
  · cases h

theorem length_swapAt (h : swapAt xs i j = some ys) : ys.length = xs.length := by
  obtain ⟨hi, hj⟩ := lt_of_swapAt h
  rw [swapAt_of_lt hi hj, Option.some.injEq] at h
  rw [← h, List.length_set, List.length_set]

/-- A swap undoes itself. -/
theorem swapAt_swapAt (h : swapAt xs i j = some ys) : swapAt ys i j = some xs := by
  obtain ⟨hi, hj⟩ := lt_of_swapAt h
  have hlen := length_swapAt h
  rw [swapAt_of_lt hi hj, Option.some.injEq] at h
  subst h
  rw [swapAt_of_lt (by omega) (by omega), Option.some.injEq]
  refine List.ext_getElem (by simp) fun k hk hk' => ?_
  simp only [List.getElem_set]
  grind

theorem swapAll_append (swaps swaps' : List (Nat × Nat)) (xs : List α) :
    swapAll (swaps ++ swaps') xs = (swapAll swaps xs).bind (swapAll swaps') := by
  induction swaps generalizing xs with
  | nil => rfl
  | cons p swaps ih =>
    rw [List.cons_append, swapAll, swapAll, Option.bind_assoc]
    exact congrArg _ (funext ih)

theorem length_swapAll (h : swapAll swaps xs = some ys) : ys.length = xs.length := by
  induction swaps generalizing xs with
  | nil => rw [Option.some.inj h]
  | cons p swaps ih =>
    obtain ⟨zs, hswap, h⟩ := Option.bind_eq_some_iff.mp h
    rw [ih h, length_swapAt hswap]

/-- Swaps that stay inside can be carried out. -/
theorem exists_swapAll (h : SwapsInside xs.length swaps) : ∃ ys, swapAll swaps xs = some ys := by
  induction swaps generalizing xs with
  | nil => exact ⟨xs, rfl⟩
  | cons p swaps ih =>
    obtain ⟨hi, hj⟩ := h p List.mem_cons_self
    have hswap := swapAt_of_lt hi hj
    have hrest : SwapsInside ((xs.set p.1 xs[p.2]).set p.2 xs[p.1]).length swaps := by
      rw [length_swapAt hswap]
      exact fun q hq => h q (List.mem_cons_of_mem _ hq)
    obtain ⟨ys, hys⟩ := ih hrest
    exact ⟨ys, by rw [swapAll, hswap]; exact hys⟩

theorem swapAll_undo (h : swapAll swaps xs = some ys) : swapAll swaps.reverse ys = some xs := by
  induction swaps generalizing xs with
  | nil => exact congrArg some (Option.some.inj h).symm
  | cons p swaps ih =>
    obtain ⟨zs, hswap, h⟩ := Option.bind_eq_some_iff.mp h
    rw [List.reverse_cons, swapAll_append, ih h, Option.bind_some, swapAll, swapAt_swapAt hswap]
    rfl

/-- Carried out backwards, swaps undo themselves. -/
theorem swapAll_reverse : swapAll swaps.reverse ys = some xs ↔ swapAll swaps xs = some ys := by
  constructor
  · intro h
    have := swapAll_undo h
    rwa [List.reverse_reverse] at this
  · exact swapAll_undo

theorem SwapsInside.reverse {n : Nat} (h : SwapsInside n swaps) : SwapsInside n swaps.reverse :=
  fun p hp => h p (List.mem_reverse.mp hp)

end Alpine.Lib
