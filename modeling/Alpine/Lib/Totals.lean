import Mathlib.Algebra.Order.BigOperators.Group.List
import Mathlib.Algebra.Order.Ring.Nat
import Alpine.Lib.UMap

/-!
# Totals over finite maps

`total f m` adds up a number that each value of a map has. Replacing an entry changes it by the
difference of the two numbers (`total_assign_some`).
-/

namespace Alpine.Lib.UMap

variable {K V : Type}

def total (f : V → Nat) (m : UMap K V) : Nat := ((AList.entries m).map fun e => f e.2).sum

theorem length_keys_eq_total (m : UMap K V) : m.keys.length = m.total fun _ => 1 := by
  show (AList.entries m).keys.length = ((AList.entries m).map fun _ => 1).sum
  induction AList.entries m with
  | nil => rfl
  | cons e entries ih =>
    rw [List.keys_cons, List.length_cons, ih, List.map_cons, List.sum_cons, Nat.add_comm]

variable [DecidableEq K] {m : UMap K V} {k : K}

theorem total_erase {v : V} (hf : m.find k = some v) (f : V → Nat) :
    (m.erase k).total f + f v = m.total f := by
  have hmem : k ∈ (AList.entries m).keys := mem_keys.mpr (by rw [hf]; rfl)
  obtain ⟨w, l₁, l₂, -, hl, herase⟩ := List.exists_of_kerase hmem
  have hw : m.find k = some w := mem_entries.mp (by rw [hl]; simp)
  rw [hf] at hw
  obtain rfl := Option.some.inj hw
  show ((List.kerase k (AList.entries m)).map _).sum + _ = ((AList.entries m).map _).sum
  rw [herase, hl, List.map_append, List.map_append, List.map_cons, List.sum_append,
    List.sum_append, List.sum_cons]
  show _ + _ + f v = _ + (f v + _)
  omega

theorem total_erase_none (hf : m.find k = none) (f : V → Nat) :
    (m.erase k).total f = m.total f := by
  have hmem : k ∉ (AList.entries m).keys := fun h => by
    have := mem_keys.mp h
    rw [hf] at this
    cases this
  show ((List.kerase k (AList.entries m)).map _).sum = ((AList.entries m).map _).sum
  rw [List.kerase_of_notMem_keys hmem]

theorem total_assign (m : UMap K V) (k : K) (v : V) (f : V → Nat) :
    (m.assign k v).total f = (m.erase k).total f + f v := by
  show ((List.kinsert k v (AList.entries m)).map _).sum =
    ((List.kerase k (AList.entries m)).map _).sum + _
  rw [List.kinsert_def, List.map_cons, List.sum_cons, Nat.add_comm]

/-- The entry of a key is replaced. -/
theorem total_assign_some {v : V} (hf : m.find k = some v) (w : V) (f : V → Nat) :
    (m.assign k w).total f + f v = m.total f + f w := by
  have herase := total_erase hf f
  rw [total_assign]
  omega

theorem total_assign_none (hf : m.find k = none) (v : V) (f : V → Nat) :
    (m.assign k v).total f = m.total f + f v := by
  rw [total_assign, total_erase_none hf]

/-- An entry is added, and replaced at once. -/
theorem total_emplace_assign (hf : m.find k = none) (v w : V) (f : V → Nat) :
    ((m.emplace k v).assign k w).total f = m.total f + f w := by
  have hemplace : m.emplace k v = m.assign k v := by simp [emplace, hf]
  have hadd := total_assign_none hf v f
  have hreplace := total_assign_some (m := m.assign k v) (k := k) (v := v) (by simp) w f
  rw [hemplace]
  omega

theorem total_le_total {f g : V → Nat} (h : ∀ k v, m.find k = some v → f v ≤ g v) :
    m.total f ≤ m.total g := by
  refine List.sum_le_sum fun e he => ?_
  exact h e.1 e.2 (mem_entries.mp he)

end Alpine.Lib.UMap
