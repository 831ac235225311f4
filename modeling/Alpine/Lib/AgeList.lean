import Mathlib.Data.List.Nodup

/-!
# Lists ordered by last use

`AgeList` is a list without duplicates, the element used last at its end. The operations say whether
they did something, and leave the list as it is if they did not.
-/

namespace Alpine.Lib

/-- The element behind `x`. -/
def following {α : Type} [DecidableEq α] (x : α) : List α → Option α
  | [] => none
  | y :: rest => if y = x then rest.head? else following x rest

/-- The oldest first. -/
structure AgeList (α : Type) where
  elements : List α
  nodup : elements.Nodup

variable {α : Type} [DecidableEq α]

theorem following_append {x : α} {l₁ : List α} (h : x ∉ l₁) (l₂ : List α) :
    following x (l₁ ++ x :: l₂) = l₂.head? := by
  induction l₁ with
  | nil => exact if_pos rfl
  | cons y l₁ ih =>
    have hy : y ≠ x := fun hy => h (List.mem_cons.mpr (.inl hy.symm))
    rw [List.cons_append, following, if_neg hy]
    exact ih fun hx => h (List.mem_cons_of_mem _ hx)

theorem following_eq_none {x : α} {l : List α} (h : x ∉ l) : following x l = none := by
  induction l with
  | nil => rfl
  | cons y l ih =>
    have hy : y ≠ x := fun hy => h (List.mem_cons.mpr (.inl hy.symm))
    rw [following, if_neg hy]
    exact ih fun hx => h (List.mem_cons_of_mem _ hx)

namespace AgeList

def empty : AgeList α := ⟨[], List.nodup_nil⟩

def add (x : α) (l : AgeList α) : Bool × AgeList α :=
  if h : x ∈ l.elements then (false, l)
  else (true, ⟨l.elements ++ [x], List.nodup_append.mpr ⟨l.nodup, List.nodup_singleton x,
    fun y hy z hz => by
      rw [List.mem_singleton.mp hz]
      rintro rfl
      exact h hy⟩⟩)

def touch (x : α) (l : AgeList α) : Bool × AgeList α :=
  if x ∈ l.elements then
    (true, ⟨l.elements.erase x ++ [x], List.nodup_append.mpr ⟨l.nodup.erase x,
      List.nodup_singleton x, fun y hy z hz => by
        rw [List.mem_singleton.mp hz]
        rintro rfl
        exact (l.nodup.mem_erase_iff.mp hy).1 rfl⟩⟩)
  else (false, l)

def remove (x : α) (l : AgeList α) : Bool × AgeList α :=
  if x ∈ l.elements then (true, ⟨l.elements.erase x, l.nodup.erase x⟩) else (false, l)

def oldest (l : AgeList α) : Option α := l.elements.head?

def newest (l : AgeList α) : Option α := l.elements.getLast?

/-- The element used next after `x`. -/
def next (x : α) (l : AgeList α) : Option α := following x l.elements

def prev (x : α) (l : AgeList α) : Option α := following x l.elements.reverse

theorem elements_add {x : α} {l : AgeList α} (h : x ∉ l.elements) :
    (l.add x).1 = true ∧ (l.add x).2.elements = l.elements ++ [x] := by
  unfold add
  rw [dif_neg h]
  exact ⟨rfl, rfl⟩

theorem elements_touch {x : α} {l : AgeList α} {l₁ l₂ : List α}
    (h : l.elements = l₁ ++ x :: l₂) :
    (l.touch x).1 = true ∧ (l.touch x).2.elements = l₁ ++ l₂ ++ [x] := by
  have hnodup := l.nodup
  rw [h] at hnodup
  have hx : x ∉ l₁ := fun hx => (List.nodup_append.mp hnodup).2.2 x hx x (by simp) rfl
  unfold touch
  rw [if_pos (by rw [h]; simp)]
  dsimp only
  rw [h, List.erase_append_right _ hx, List.erase_cons_head]
  exact ⟨rfl, rfl⟩

theorem elements_remove {x : α} {l : AgeList α} {l₁ l₂ : List α}
    (h : l.elements = l₁ ++ x :: l₂) :
    (l.remove x).1 = true ∧ (l.remove x).2.elements = l₁ ++ l₂ := by
  have hnodup := l.nodup
  rw [h] at hnodup
  have hx : x ∉ l₁ := fun hx => (List.nodup_append.mp hnodup).2.2 x hx x (by simp) rfl
  unfold remove
  rw [if_pos (by rw [h]; simp)]
  dsimp only
  rw [h, List.erase_append_right _ hx, List.erase_cons_head]
  exact ⟨rfl, rfl⟩

end AgeList

end Alpine.Lib
