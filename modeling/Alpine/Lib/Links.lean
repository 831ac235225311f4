import Mathlib.Data.List.Basic
import Mathlib.Logic.Relation

/-!
# Doubly linked lists

`Linked next prev before l after` says that the nodes of `l`, in this order, are linked both ways,
from a node (or end) `before` to a node (or end) `after`. An operation changes a list at one place:
`linked_append` takes the list apart there, `Linked.relink` carries each part over to the new links,
of which only those that point out of the part may differ. A list is determined by its first node
and its links (`Linked.unique`), and backwards it is one for the links the other way
(`Linked.reverse`).

`search` follows links until it accepts a node; `visits` is what it reads on the way, the end of the
list included.
-/

namespace Alpine.Lib

variable {α : Type}

/-- The nodes of a list are linked in this order. -/
def Linked (next prev : α → Option α) (before : Option α) : List α → Option α → Prop
  | [], _ => True
  | x :: rest, after =>
    prev x = before ∧ next x = rest.head?.or after ∧ Linked next prev (some x) rest after

variable {next prev next' prev' : α → Option α} {before before' after after' : Option α}

theorem linked_cons {x : α} {rest : List α} :
    Linked next prev before (x :: rest) after ↔
      prev x = before ∧ next x = rest.head?.or after ∧ Linked next prev (some x) rest after :=
  Iff.rfl

/-- The links of two lists one after the other. -/
theorem linked_append (l₁ l₂ : List α) :
    Linked next prev before (l₁ ++ l₂) after ↔
      Linked next prev before l₁ (l₂.head?.or after) ∧
        Linked next prev (l₁.getLast?.or before) l₂ after := by
  induction l₁ generalizing before with
  | nil => simp [Linked]
  | cons x rest ih =>
    have hhead : (rest ++ l₂).head?.or after = rest.head?.or (l₂.head?.or after) := by
      cases rest <;> simp
    have hlast : (x :: rest).getLast?.or before = rest.getLast?.or (some x) := by
      cases rest with
      | nil => simp
      | cons y rest => simp [List.getLast?_cons]
    rw [List.cons_append, linked_cons, linked_cons, hhead, hlast, ih]
    constructor
    · rintro ⟨h1, h2, h3, h4⟩
      exact ⟨⟨h1, h2, h3⟩, h4⟩
    · rintro ⟨⟨h1, h2, h3⟩, h4⟩
      exact ⟨h1, h2, h3, h4⟩

/-- New links that differ at most in where the first node points back to and the last one on. -/
theorem Linked.relink [DecidableEq α] {l : List α} (hl : Linked next prev before l after)
    (hnodup : l.Nodup)
    (hnext : ∀ x ∈ l, next' x = if l.getLast? = some x then after' else next x)
    (hprev : ∀ x ∈ l, prev' x = if l.head? = some x then before' else prev x) :
    Linked next' prev' before' l after' := by
  induction l generalizing before before' with
  | nil => trivial
  | cons x rest ih =>
    obtain ⟨-, hnx, hrest⟩ := hl
    obtain ⟨hmem, hnodup⟩ := List.nodup_cons.mp hnodup
    refine ⟨?_, ?_, ih hrest hnodup (fun y hy => ?_) fun y hy => ?_⟩
    · rw [hprev x List.mem_cons_self, List.head?_cons, if_pos rfl]
    · rw [hnext x List.mem_cons_self]
      cases rest with
      | nil => simp
      | cons y rest =>
        have hlast : (x :: y :: rest).getLast? ≠ some x := by
          rw [List.getLast?_cons_cons]
          exact fun h => hmem (List.mem_of_getLast? h)
        rw [if_neg hlast, hnx]
        rfl
    · rw [hnext y (List.mem_cons_of_mem _ hy)]
      cases rest with
      | nil => cases hy
      | cons z rest => rw [List.getLast?_cons_cons]
    · have hne : (x :: rest).head? ≠ some y := by
        rw [List.head?_cons]
        rintro h
        cases h
        exact hmem hy
      rw [hprev y (List.mem_cons_of_mem _ hy), if_neg hne]
      cases rest with
      | nil => cases hy
      | cons z rest =>
        split
        · next h =>
          cases h
          exact hrest.1
        · rfl

/-- The first node of a list points back to what is before it. -/
theorem Linked.prev_head {l : List α} (hl : Linked next prev before l after) {x : α}
    (hx : l.head? = some x) : prev x = before := by
  cases l with
  | nil => cases hx
  | cons y rest =>
    cases hx
    exact hl.1

/-- The last node of a list points on to what is after it. -/
theorem Linked.next_last {l : List α} (hl : Linked next prev before l after) {x : α}
    (hx : l.getLast? = some x) : next x = after := by
  obtain ⟨rest, rfl⟩ := List.getLast?_eq_some_iff.mp hx
  rw [linked_append] at hl
  exact hl.2.2.1

/-- The neighbours of a node. -/
theorem Linked.at {l₁ l₂ : List α} {x : α} (hl : Linked next prev none (l₁ ++ x :: l₂) none) :
    prev x = l₁.getLast? ∧ next x = l₂.head? := by
  rw [linked_append, linked_cons] at hl
  obtain ⟨-, h1, h2, -⟩ := hl
  exact ⟨by rw [h1, Option.or_none], by rw [h2, Option.or_none]⟩

/-- A node is linked in between two lists: the one before it and the one after it point to it. -/
theorem Linked.insert [DecidableEq α] {l₁ l₂ : List α} {c : α}
    (hl : Linked next prev none (l₁ ++ l₂) none) (hnodup : (l₁ ++ l₂).Nodup)
    (hnextc : next' c = l₂.head?) (hprevc : prev' c = l₁.getLast?)
    (hnext : ∀ x ∈ l₁ ++ l₂, next' x = if l₁.getLast? = some x then some c else next x)
    (hprev : ∀ x ∈ l₁ ++ l₂, prev' x = if l₂.head? = some x then some c else prev x) :
    Linked next' prev' none (l₁ ++ c :: l₂) none := by
  obtain ⟨hnodup₁, hnodup₂, hdisj⟩ := List.nodup_append.mp hnodup
  rw [linked_append] at hl
  obtain ⟨hl₁, hl₂⟩ := hl
  rw [linked_append, linked_cons]
  refine ⟨?_, by rw [hprevc, Option.or_none], by rw [hnextc, Option.or_none], ?_⟩
  · refine hl₁.relink hnodup₁ (fun x hx => hnext x (List.mem_append_left _ hx)) fun x hx => ?_
    have hne : ¬ l₂.head? = some x := fun h => hdisj x hx x (List.mem_of_head? h) rfl
    rw [hprev x (List.mem_append_left _ hx), if_neg hne]
    split
    · next h => exact hl₁.prev_head h
    · rfl
  · refine hl₂.relink hnodup₂ (fun x hx => ?_) fun x hx => hprev x (List.mem_append_right _ hx)
    have hne : ¬ l₁.getLast? = some x := fun h => hdisj x (List.mem_of_getLast? h) x hx rfl
    rw [hnext x (List.mem_append_right _ hx), if_neg hne]
    split
    · next h => exact hl₂.next_last h
    · rfl

/-- A node is taken out: the one before it and the one after it point to each other. -/
theorem Linked.remove [DecidableEq α] {l₁ l₂ : List α} {c : α}
    (hl : Linked next prev none (l₁ ++ c :: l₂) none) (hnodup : (l₁ ++ l₂).Nodup)
    (hnext : ∀ x ∈ l₁ ++ l₂, next' x = if l₁.getLast? = some x then l₂.head? else next x)
    (hprev : ∀ x ∈ l₁ ++ l₂, prev' x = if l₂.head? = some x then l₁.getLast? else prev x) :
    Linked next' prev' none (l₁ ++ l₂) none := by
  obtain ⟨hnodup₁, hnodup₂, hdisj⟩ := List.nodup_append.mp hnodup
  rw [linked_append, linked_cons] at hl
  obtain ⟨hl₁, -, -, hl₂⟩ := hl
  rw [linked_append, Option.or_none, Option.or_none]
  constructor
  · refine hl₁.relink hnodup₁ (fun x hx => hnext x (List.mem_append_left _ hx)) fun x hx => ?_
    have hne : ¬ l₂.head? = some x := fun h => hdisj x hx x (List.mem_of_head? h) rfl
    rw [hprev x (List.mem_append_left _ hx), if_neg hne]
    split
    · next h => exact hl₁.prev_head h
    · rfl
  · refine hl₂.relink hnodup₂ (fun x hx => ?_) fun x hx => hprev x (List.mem_append_right _ hx)
    have hne : ¬ l₁.getLast? = some x := fun h => hdisj x (List.mem_of_getLast? h) x hx rfl
    rw [hnext x (List.mem_append_right _ hx), if_neg hne]
    split
    · next h => exact hl₂.next_last h
    · rfl

theorem Linked.congr {l : List α} (hl : Linked next prev before l after)
    (hnext : ∀ x ∈ l, next' x = next x) (hprev : ∀ x ∈ l, prev' x = prev x) :
    Linked next' prev' before l after := by
  induction l generalizing before with
  | nil => trivial
  | cons x rest ih =>
    obtain ⟨h1, h2, h3⟩ := hl
    exact ⟨by rw [hprev x List.mem_cons_self, h1], by rw [hnext x List.mem_cons_self, h2],
      ih h3 (fun y hy => hnext y (List.mem_cons_of_mem _ hy))
        fun y hy => hprev y (List.mem_cons_of_mem _ hy)⟩

/-- Two lists with the same first node and the same links. -/
theorem Linked.unique {l l' : List α} (hl : Linked next prev before l none)
    (hl' : Linked next prev' before' l' none) (hhead : l.head? = l'.head?) : l = l' := by
  induction l generalizing before before' l' with
  | nil =>
    cases l' with
    | nil => rfl
    | cons y rest' => cases hhead
  | cons x rest ih =>
    cases l' with
    | nil => cases hhead
    | cons y rest' =>
      cases hhead
      obtain ⟨-, hn, hrest⟩ := hl
      obtain ⟨-, hn', hrest'⟩ := hl'
      rw [hn, Option.or_none, Option.or_none] at hn'
      rw [ih hrest hrest' hn']

theorem Linked.reverse {l : List α} (hl : Linked next prev before l after) :
    Linked prev next after l.reverse before := by
  induction l generalizing before with
  | nil => trivial
  | cons x rest ih =>
    obtain ⟨hprev, hnext, hrest⟩ := hl
    rw [List.reverse_cons, linked_append, List.getLast?_reverse]
    exact ⟨ih hrest, hnext, hprev, trivial⟩

/-- What can be reached from a node is what comes after it. -/
theorem Linked.reaches {l₁ l₂ : List α} {x y : α}
    (hl : Linked next prev none (l₁ ++ x :: l₂) none) :
    Relation.TransGen (fun a b => next a = some b) x y ↔ y ∈ l₂ := by
  constructor
  · intro h
    induction h with
    | single h => exact List.mem_of_head? (hl.at.2.symm.trans h)
    | tail _ h ih =>
      obtain ⟨before, rest, rfl⟩ := List.append_of_mem ih
      have hl' := hl
      rw [← List.cons_append, ← List.append_assoc] at hl'
      have hmem := List.mem_of_head? (hl'.at.2.symm.trans h)
      simp [hmem]
  · intro h
    induction l₂ generalizing l₁ x with
    | nil => cases h
    | cons z rest ih =>
      have hstep : next x = some z := hl.at.2
      rcases List.mem_cons.mp h with rfl | h
      · exact .single hstep
      · rw [List.append_cons] at hl
        exact .head hstep (ih hl h)

/-! ## Searches -/

section Search

variable {β : Type} (read : α → Option β) (link : α → Option α) (stop : β → Bool)

/-- The first node that is accepted, and where its link points to. There is none if the search goes
on for too long or comes to the end. -/
def search : Nat → Option α → Option (α × Option α)
  | 0, _ => none
  | fuel + 1, x => do
    let x ← x
    let value ← read x
    if stop value then some (x, link x) else search fuel (link x)

def visits : Nat → Option α → List (Option α)
  | 0, _ => []
  | _ + 1, none => [none]
  | fuel + 1, some x =>
    some x :: (read x).elim [] fun value => if stop value then [] else visits fuel (link x)

variable {read link} {value : α → β}

theorem Linked.search_eq_some {l₁ l₂ : List α} {x : α}
    (hl : Linked link prev before (l₁ ++ x :: l₂) none)
    (hread : ∀ y ∈ l₁ ++ x :: l₂, read y = some (value y))
    (hpass : ∀ y ∈ l₁, stop (value y) = false) (hstop : stop (value x) = true) {fuel : Nat}
    (hfuel : l₁.length < fuel) :
    search read link stop fuel (l₁ ++ x :: l₂).head? = some (x, l₂.head?) ∧
      visits read link stop fuel (l₁ ++ x :: l₂).head? = (l₁ ++ [x]).map some := by
  induction l₁ generalizing before fuel with
  | nil =>
    obtain ⟨fuel, rfl⟩ := Nat.exists_eq_succ_of_ne_zero (Nat.ne_of_gt hfuel)
    have hx := hread x List.mem_cons_self
    have hlink : link x = l₂.head? := by rw [hl.2.1, Option.or_none]
    simp [search, visits, hx, hstop, hlink]
  | cons y rest ih =>
    obtain ⟨fuel, rfl⟩ := Nat.exists_eq_succ_of_ne_zero (Nat.ne_of_gt (Nat.zero_lt_of_lt hfuel))
    have hy := hread y List.mem_cons_self
    have hlink : link y = (rest ++ x :: l₂).head? := hl.2.1.trans (Option.or_none ..)
    have hrest := ih hl.2.2 (fun z hz => hread z (List.mem_cons_of_mem _ hz))
      (fun z hz => hpass z (List.mem_cons_of_mem _ hz)) (Nat.lt_of_succ_lt_succ hfuel)
    rw [← hlink] at hrest
    constructor
    · simp [search, hy, hpass y List.mem_cons_self, hrest.1]
    · simp [visits, hy, hpass y List.mem_cons_self, hrest.2]

/-- A search finds the first of the nodes that it accepts. -/
theorem Linked.search_first {l : List α} (stop : β → Bool)
    (hl : Linked link prev before l none) (hread : ∀ y ∈ l, read y = some (value y))
    (hstop : ∃ y ∈ l, stop (value y) = true) (fuel : Nat) (hfuel : l.length < fuel) :
    ∃ l₁ x l₂, l = l₁ ++ x :: l₂ ∧ search read link stop fuel l.head? = some (x, l₂.head?) ∧
      visits read link stop fuel l.head? = (l₁ ++ [x]).map some := by
  obtain ⟨x, hfind⟩ := Option.isSome_iff_exists.mp
    (List.find?_isSome (p := fun y => stop (value y)) |>.mpr hstop)
  obtain ⟨hx, l₁, l₂, rfl, hpass⟩ := List.find?_eq_some_iff_append.mp hfind
  refine ⟨l₁, x, l₂, rfl, hl.search_eq_some stop hread (fun y hy => ?_) hx ?_⟩
  · simpa using hpass y hy
  · simp only [List.length_append, List.length_cons] at hfuel
    omega

/-- A search that accepts nothing comes to the end. -/
theorem Linked.search_eq_none {l : List α} (hl : Linked link prev before l none)
    (hread : ∀ y ∈ l, read y = some (value y)) (hpass : ∀ y ∈ l, stop (value y) = false)
    (fuel : Nat) : search read link stop fuel l.head? = none := by
  induction l generalizing before fuel with
  | nil => cases fuel <;> rfl
  | cons y rest ih =>
    cases fuel with
    | zero => rfl
    | succ fuel =>
      have hlink : link y = rest.head? := by rw [hl.2.1, Option.or_none]
      have hrest := ih hl.2.2 (fun z hz => hread z (List.mem_cons_of_mem _ hz))
        (fun z hz => hpass z (List.mem_cons_of_mem _ hz)) fuel
      simp [search, hread y List.mem_cons_self, hpass y List.mem_cons_self, hlink, hrest]

end Search

end Alpine.Lib
