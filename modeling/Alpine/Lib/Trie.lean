import Mathlib.Data.List.Basic

/-!
# Tries

A node has a value and a child for some of the labels. `alter` changes the value at the end of a
path and makes the nodes that are missing on the way: a path is a list of steps, which name a label
and say what is in a node that they make. `valueAt` is the value at a path, and the lemmas at the
end say what it is after an `alter`: at the end of the path, on the way to it, and everywhere else.
-/

namespace Alpine.Lib

inductive Trie (α β : Type) where
  | node (value : β) (children : List (α × Trie α β))

namespace Trie

variable {α β : Type} [DecidableEq α]

def value : Trie α β → β
  | node value _ => value

def child : Trie α β → α → Option (Trie α β)
  | node _ children, label => (children.find? fun c => c.1 = label).map Prod.snd

/-- Replace or add a child. -/
def setEntry (label : α) (t : Trie α β) : List (α × Trie α β) → List (α × Trie α β)
  | [] => [(label, t)]
  | (l, s) :: children =>
    if l = label then (label, t) :: children else (l, s) :: setEntry label t children

def setChild : Trie α β → α → Trie α β → Trie α β
  | node value children, label, t => node value (setEntry label t children)

def leaf (value : β) : Trie α β := node value []

def descend : Trie α β → List α → Option (Trie α β)
  | t, [] => some t
  | t, label :: path => (t.child label).bind fun s => descend s path

def valueAt (t : Trie α β) (path : List α) : Option β := (t.descend path).map value

/-- Change the value at the end of the steps. -/
def alter {σ : Type} (label : σ → α) (fresh : σ → β) (f : β → β) :
    List σ → Trie α β → Trie α β
  | [], node value children => node (f value) children
  | s :: steps, t =>
    t.setChild (label s) (alter label fresh f steps ((t.child (label s)).getD (leaf (fresh s))))

omit [DecidableEq α] in
@[simp] theorem value_leaf (v : β) : (leaf v : Trie α β).value = v := rfl

@[simp] theorem child_leaf (v : β) (l : α) : (leaf v : Trie α β).child l = none := rfl

theorem find_setEntry (label l : α) (t : Trie α β) (children : List (α × Trie α β)) :
    ((setEntry label t children).find? fun c => c.1 = l).map Prod.snd =
      if l = label then some t else (children.find? fun c => c.1 = l).map Prod.snd := by
  induction children with
  | nil =>
    by_cases h : l = label
    · subst h
      simp [setEntry]
    · simp [setEntry, h, Ne.symm h]
  | cons c children ih =>
    obtain ⟨k, s⟩ := c
    unfold setEntry
    by_cases hk : k = label
    · subst hk
      rw [if_pos rfl]
      by_cases h : l = k
      · subst h
        simp
      · simp [h, Ne.symm h]
    · rw [if_neg hk, List.find?_cons, List.find?_cons]
      by_cases h : k = l
      · subst h
        simp [hk]
      · simpa [h] using ih

@[simp] theorem child_setChild (t s : Trie α β) (label l : α) :
    (t.setChild label s).child l = if l = label then some s else t.child l := by
  obtain ⟨value, children⟩ := t
  exact find_setEntry label l s children

@[simp] theorem value_setChild (t s : Trie α β) (label : α) :
    (t.setChild label s).value = t.value := by
  cases t
  rfl

@[simp] theorem valueAt_nil (t : Trie α β) : t.valueAt [] = some t.value := rfl

theorem descend_nil (t : Trie α β) : t.descend [] = some t := rfl

theorem valueAt_cons (t : Trie α β) (l : α) (path : List α) :
    t.valueAt (l :: path) = (t.child l).bind fun s => s.valueAt path := by
  unfold valueAt
  rw [descend]
  cases t.child l <;> rfl

theorem valueAt_leaf (v : β) {path : List α} (h : path ≠ []) :
    (leaf v : Trie α β).valueAt path = none := by
  obtain ⟨l, path, rfl⟩ := List.exists_cons_of_ne_nil h
  rw [valueAt_cons]
  rfl

theorem descend_append (t : Trie α β) (path path' : List α) :
    t.descend (path ++ path') = (t.descend path).bind fun s => s.descend path' := by
  induction path generalizing t with
  | nil => rfl
  | cons l path ih =>
    rw [List.cons_append, descend, descend]
    cases t.child l with
    | none => rfl
    | some s => exact ih s

theorem child_of_descend {t s : Trie α β} {path : List α} (h : t.descend path = some s) (l : α) :
    s.child l = t.descend (path ++ [l]) := by
  rw [descend_append, h, Option.bind_some, descend]
  cases s.child l <;> rfl

/-! ## What is where after an `alter` -/

section alter

variable {σ : Type} (label : σ → α) (fresh : σ → β) (f : β → β)

theorem value_alter (steps : List σ) (t : Trie α β) :
    (alter label fresh f steps t).value = if steps = [] then f t.value else t.value := by
  cases steps with
  | nil =>
    cases t
    rfl
  | cons s steps => rw [alter, value_setChild, if_neg (List.cons_ne_nil s steps)]

/-- On the way to the end a node that is missing is made, and at the end the value changes. -/
theorem valueAt_alter_on (front : List σ) (s : σ) (back : List σ) (t : Trie α β) :
    (alter label fresh f (front ++ s :: back) t).valueAt ((front ++ [s]).map label) =
      some ((if back = [] then f else id)
        ((t.valueAt ((front ++ [s]).map label)).getD (fresh s))) := by
  induction front generalizing t with
  | nil =>
    rw [List.nil_append, List.nil_append, alter, List.map_cons, List.map_nil, valueAt_cons,
      valueAt_cons, child_setChild, if_pos rfl, Option.bind_some, valueAt_nil, value_alter]
    cases t.child (label s) <;> by_cases h : back = [] <;> simp [h]
  | cons s' front ih =>
    rw [List.cons_append, List.cons_append, alter, List.map_cons, valueAt_cons, valueAt_cons,
      child_setChild, if_pos rfl, Option.bind_some, ih]
    cases t.child (label s') with
    | some t' => rfl
    | none => rw [Option.getD_none, Option.bind_none, valueAt_leaf _ (by simp)]

theorem valueAt_alter_off {steps : List σ} {path : List α} (h : ¬ path <+: steps.map label)
    (t : Trie α β) : (alter label fresh f steps t).valueAt path = t.valueAt path := by
  induction steps generalizing path t with
  | nil =>
    cases path with
    | nil => exact absurd (List.prefix_refl _) h
    | cons l path =>
      cases t
      rfl
  | cons s steps ih =>
    cases path with
    | nil => exact absurd List.nil_prefix h
    | cons l path =>
      rw [alter, valueAt_cons, valueAt_cons, child_setChild]
      by_cases hl : l = label s
      · subst hl
        have hrest : ¬ path <+: steps.map label := by
          intro hpre
          rw [List.map_cons] at h
          exact h (List.cons_prefix_cons.mpr ⟨rfl, hpre⟩)
        rw [if_pos rfl, Option.bind_some, ih hrest]
        cases t.child (label s) with
        | some t' => rfl
        | none =>
          rw [Option.getD_none, Option.bind_none, valueAt_leaf]
          rintro rfl
          exact hrest List.nil_prefix
      · rw [if_neg hl]

end alter

end Trie

end Alpine.Lib
