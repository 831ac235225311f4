import Mathlib.Order.Lattice

/-!
# The first least element of a list

`FirstLeast score xs x` says that `x` is what a search with a strict comparison finds in `xs`: no
element has a lower score, and those before it have a higher one. `skip_iff` and `drop_iff` are the
two cases of such a search.
-/

namespace Alpine.Lib

variable {α β : Type} [LinearOrder β] {score : α → β}

def FirstLeast (score : α → β) : List α → α → Prop
  | [], _ => False
  | y :: ys, x => x = y ∧ (∀ z ∈ ys, score y ≤ score z) ∨ FirstLeast score ys x ∧ score x < score y

namespace FirstLeast

theorem mem {xs : List α} {x : α} (h : FirstLeast score xs x) : x ∈ xs := by
  induction xs with
  | nil => exact h.elim
  | cons y ys ih =>
    rcases h with ⟨rfl, -⟩ | ⟨h, -⟩
    · exact List.mem_cons_self
    · exact List.mem_cons_of_mem y (ih h)

theorem le {xs : List α} {x z : α} (h : FirstLeast score xs x) (hz : z ∈ xs) :
    score x ≤ score z := by
  induction xs with
  | nil => exact h.elim
  | cons y ys ih =>
    rcases h with ⟨rfl, hle⟩ | ⟨h, hlt⟩
    · rcases List.mem_cons.mp hz with rfl | hz
      · exact le_rfl
      · exact hle z hz
    · rcases List.mem_cons.mp hz with rfl | hz
      · exact hlt.le
      · exact ih h hz

theorem congr {score' : α → β} {xs : List α} {x : α} (h : ∀ y ∈ xs, score y = score' y) :
    FirstLeast score xs x ↔ FirstLeast score' xs x := by
  induction xs with
  | nil => exact Iff.rfl
  | cons y ys ih =>
    have hy := h y List.mem_cons_self
    have hys := fun z hz => h z (List.mem_cons_of_mem y hz)
    refine or_congr (and_congr_right fun _ => forall₂_congr fun z hz => ?_)
      ((and_congr_left fun _ => ih hys).trans (and_congr_right fun hfirst => ?_))
    · rw [hy, hys z hz]
    · rw [hy, hys x hfirst.mem]

/-- An element that is no better than the best so far does not count. -/
theorem skip_iff {b v x : α} {xs : List α} (hle : score b ≤ score v) :
    FirstLeast score (b :: v :: xs) x ↔ FirstLeast score (b :: xs) x := by
  constructor
  · rintro (⟨rfl, hall⟩ | ⟨h, hlt⟩)
    · exact .inl ⟨rfl, fun z hz => hall z (List.mem_cons_of_mem v hz)⟩
    · rcases h with ⟨rfl, -⟩ | ⟨h, -⟩
      · exact absurd hlt hle.not_gt
      · exact .inr ⟨h, hlt⟩
  · rintro (⟨rfl, hall⟩ | ⟨h, hlt⟩)
    · refine .inl ⟨rfl, fun z hz => ?_⟩
      rcases List.mem_cons.mp hz with rfl | hz
      · exact hle
      · exact hall z hz
    · exact .inr ⟨.inr ⟨h, hlt.trans_le hle⟩, hlt⟩

/-- After a better element the best so far does not count. -/
theorem drop_iff {b v x : α} {xs : List α} (hlt : score v < score b) :
    FirstLeast score (b :: v :: xs) x ↔ FirstLeast score (v :: xs) x := by
  constructor
  · rintro (⟨-, hall⟩ | ⟨h, -⟩)
    · exact absurd hlt (hall v List.mem_cons_self).not_gt
    · exact h
  · exact fun h => .inr ⟨h, (h.le List.mem_cons_self).trans_lt hlt⟩

end FirstLeast

end Alpine.Lib
