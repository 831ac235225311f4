import Mathlib.Data.List.Sort
import Alpine.Lib.UMap

/-!
# Sorting with a library

`StdSort` is what `std::sort` promises for a comparison of numbers that elements have: a permutation
in which none comes before a greater one. Which of several equal ones comes first is left open, so a
result is described (`IsTop`) and not computed.
-/

namespace Alpine.Lib

/-- A sort that puts the greatest first. -/
structure StdSort (α : Type) where
  sort : (α → Nat) → List α → List α
  perm : ∀ key l, (sort key l).Perm l
  sorted : ∀ key l, (sort key l).Pairwise fun a b => key b ≤ key a

/-- A stable sort is one. -/
def StdSort.stable (α : Type) : StdSort α where
  sort key l := l.mergeSort fun a b => decide (key b ≤ key a)
  perm _ l := List.mergeSort_perm l _
  sorted key l := by
    have htrans : ∀ a b c : α, decide (key b ≤ key a) = true → decide (key c ≤ key b) = true →
        decide (key c ≤ key a) = true := fun a b c hab hbc =>
      decide_eq_true (le_trans (of_decide_eq_true hbc) (of_decide_eq_true hab))
    have htotal : ∀ a b : α, (decide (key b ≤ key a) || decide (key a ≤ key b)) = true := fun a b => by
      simpa using Nat.le_total (key b) (key a)
    exact (List.pairwise_mergeSort htrans htotal l).imp of_decide_eq_true

/-- `top` is the beginning of `l` in some order that puts the greatest first. -/
def IsTop {α : Type} (key : α → Nat) (limit : Nat) (l top : List α) : Prop :=
  ∃ sorted : List α, sorted.Perm l ∧ (sorted.Pairwise fun a b => key b ≤ key a) ∧
    top = sorted.take limit

theorem StdSort.isTop {α : Type} (s : StdSort α) (key : α → Nat) (limit : Nat) {l l' : List α}
    (h : l.Perm l') : IsTop key limit l' ((s.sort key l).take limit) :=
  ⟨s.sort key l, (s.perm key l).trans h, s.sorted key l, rfl⟩

/-- The values of a map are those of its keys. -/
theorem UMap.values_eq_filterMap {K V : Type} [DecidableEq K] (m : UMap K V) :
    ((AList.entries m).map fun e => e.2) = m.keys.filterMap m.find := by
  have hkeys : m.keys = (AList.entries m).map fun e => e.1 := rfl
  rw [hkeys, List.filterMap_map, ← List.filterMap_eq_map]
  exact List.filterMap_congr fun e he => (UMap.mem_entries.mp he).symm

end Alpine.Lib
