import Alpine.Lib.Numerals

/-!
# Searching in texts

`find` is `std::string::find`; `behind` is what is behind the first occurrence of a pattern, and
`find_spec` says that the two agree. A word between two quotes is found in a text that is cut at its
quotes by comparing the word with what is between them (`behind_weave`).
-/

namespace Alpine.Lib

variable {α : Type} [DecidableEq α]

/-- The first place of a pattern in a text that begins at `pos`. -/
def findFrom (pattern : List α) : List α → Nat → Option Nat
  | [], pos => if pattern = [] then some pos else none
  | c :: s, pos => if pattern <+: c :: s then some pos else findFrom pattern s (pos + 1)

def find (pattern s : List α) (start : Nat) : Option Nat :=
  if start ≤ s.length then findFrom pattern (s.drop start) start else none

def behind (pattern : List α) : List α → Option (List α)
  | [] => if pattern = [] then some [] else none
  | c :: s =>
    if pattern <+: c :: s then some ((c :: s).drop pattern.length) else behind pattern s

theorem findFrom_spec (pattern s : List α) (pos : Nat) :
    (findFrom pattern s pos = none ∧ behind pattern s = none) ∨
      ∃ k, findFrom pattern s pos = some (pos + k) ∧ k + pattern.length ≤ s.length ∧
        behind pattern s = some (s.drop (k + pattern.length)) := by
  induction s generalizing pos with
  | nil =>
    unfold findFrom behind
    by_cases hnil : pattern = []
    · subst hnil
      exact .inr ⟨0, if_pos rfl, Nat.le_refl _, if_pos rfl⟩
    · rw [if_neg hnil, if_neg hnil]
      exact .inl ⟨rfl, rfl⟩
  | cons c s ih =>
    unfold findFrom behind
    by_cases hhere : pattern <+: c :: s
    · rw [if_pos hhere, if_pos hhere]
      exact .inr ⟨0, rfl, by simpa using hhere.length_le, by rw [Nat.zero_add]⟩
    · rw [if_neg hhere, if_neg hhere]
      rcases ih (pos + 1) with ⟨hnone, hbehind⟩ | ⟨k, hsome, hle, hbehind⟩
      · exact .inl ⟨hnone, hbehind⟩
      · refine .inr ⟨k + 1, by rw [hsome]; congr 1; omega, by rw [List.length_cons]; omega, ?_⟩
        rw [hbehind, show k + 1 + pattern.length = k + pattern.length + 1 by omega,
          List.drop_succ_cons]

/-- What is found lies in the text, and `behind` begins after it. -/
theorem find_spec (pattern s : List α) {start : Nat} (hstart : start ≤ s.length) :
    (find pattern s start = none ∧ behind pattern (s.drop start) = none) ∨
      ∃ k, find pattern s start = some k ∧ start ≤ k ∧ k + pattern.length ≤ s.length ∧
        behind pattern (s.drop start) = some (s.drop (k + pattern.length)) := by
  unfold find
  rw [if_pos hstart]
  rcases findFrom_spec pattern (s.drop start) start with h | ⟨k, hsome, hle, hbehind⟩
  · exact .inl h
  · rw [List.length_drop] at hle
    refine .inr ⟨start + k, hsome, Nat.le_add_right _ _, by omega, ?_⟩
    rw [hbehind, List.drop_drop]
    congr 2
    omega

/-! ## Characters and words -/

variable {q : α} {a b w t : List α}

/-- A character is behind what does not contain it. -/
theorem behind_append (ha : q ∉ a) (t : List α) : behind [q] (a ++ q :: t) = some t := by
  induction a with
  | nil =>
    rw [List.nil_append, behind, if_pos (List.cons_prefix_cons.mpr ⟨rfl, List.nil_prefix⟩)]
    rfl
  | cons c a ih =>
    rw [List.mem_cons, not_or] at ha
    rw [List.cons_append, behind, if_neg, ih ha.2]
    rw [List.cons_prefix_cons]
    exact fun h => ha.1 h.1

theorem behind_not_mem (ht : q ∉ t) (w : List α) : behind (q :: w) t = none := by
  induction t with
  | nil => rfl
  | cons c t ih =>
    rw [List.mem_cons, not_or] at ht
    rw [behind, if_neg, ih ht.2]
    rw [List.cons_prefix_cons]
    exact fun h => ht.1 h.1

theorem behind_skip (ha : q ∉ a) (w t : List α) : behind (q :: w) (a ++ t) = behind (q :: w) t := by
  induction a with
  | nil => rfl
  | cons c a ih =>
    rw [List.mem_cons, not_or] at ha
    rw [List.cons_append, behind, if_neg, ih ha.2]
    rw [List.cons_prefix_cons]
    exact fun h => ha.1 h.1

theorem findFrom_char_spec (q : α) (s : List α) (pos : Nat) :
    (findFrom [q] s pos = none ∧ q ∉ s) ∨
      ∃ a, findFrom [q] s pos = some (pos + a.length) ∧ q ∉ a ∧
        s = a ++ q :: s.drop (a.length + 1) := by
  induction s generalizing pos with
  | nil => exact .inl ⟨rfl, List.not_mem_nil⟩
  | cons c s ih =>
    unfold findFrom
    by_cases hhere : q = c
    · subst hhere
      exact .inr ⟨[], if_pos (List.cons_prefix_cons.mpr ⟨rfl, List.nil_prefix⟩),
        List.not_mem_nil, rfl⟩
    · rw [if_neg fun h => hhere (List.cons_prefix_cons.mp h).1]
      rcases ih (pos + 1) with ⟨hnone, hmem⟩ | ⟨a, hsome, ha, hs⟩
      · exact .inl ⟨hnone, List.not_mem_cons_of_ne_of_not_mem hhere hmem⟩
      · refine .inr ⟨c :: a, ?_, List.not_mem_cons_of_ne_of_not_mem hhere ha, ?_⟩
        · rw [hsome, List.length_cons]
          congr 1
          omega
        · rw [List.length_cons, List.drop_succ_cons, List.cons_append, ← hs]

/-- What is before a character that is found, and behind it. -/
theorem find_char_spec (q : α) (s : List α) {start : Nat} (hstart : start ≤ s.length) :
    (find [q] s start = none ∧ q ∉ s.drop start) ∨
      ∃ a, find [q] s start = some (start + a.length) ∧ start + a.length < s.length ∧ q ∉ a ∧
        s.drop start = a ++ q :: s.drop (start + a.length + 1) := by
  unfold find
  rw [if_pos hstart]
  rcases findFrom_char_spec q (s.drop start) start with h | ⟨a, hsome, ha, hs⟩
  · exact .inl h
  · have hlength := congrArg List.length hs
    rw [List.length_append, List.length_cons, List.length_drop] at hlength
    rw [List.drop_drop] at hs
    exact .inr ⟨a, hsome, by omega, ha, hs⟩

/-- A word between two quotes. -/
def quotedBy (q : α) (w : List α) : List α := q :: (w ++ [q])

theorem behind_word (hw : q ∉ w) (hb : q ∉ b) (t : List α) :
    behind (quotedBy q w) (q :: (b ++ q :: t)) =
      if b = w then some t else behind (quotedBy q w) (b ++ q :: t) := by
  have hhere : quotedBy q w <+: q :: (b ++ q :: t) ↔ b = w := by
    unfold quotedBy
    constructor
    · rintro ⟨rest, hrest⟩
      injection hrest with _ hrest
      rw [List.append_eq, List.append_assoc, List.singleton_append] at hrest
      exact (append_separator_inj hw hb hrest).1.symm
    · rintro rfl
      exact ⟨t, by simp⟩
  rw [behind]
  by_cases heq : b = w
  · rw [if_pos (hhere.mpr heq), if_pos heq]
    subst heq
    simp [quotedBy]
  · rw [if_neg fun h => heq (hhere.mp h), if_neg heq]

/-- A text with quotes between its parts, and behind the last of them. -/
def weave (q : α) : List (List α) → List α → List α
  | [], t => t
  | a :: parts, t => a ++ q :: weave q parts t

omit [DecidableEq α] in
theorem weave_append (q : α) (parts parts' : List (List α)) (t : List α) :
    weave q (parts ++ parts') t = weave q parts (weave q parts' t) := by
  induction parts with
  | nil => rfl
  | cons a parts ih => rw [List.cons_append, weave, weave, ih]

/-- A word between quotes is found where a part is that word. -/
theorem behind_weave (q : α) (w a : List α) (parts parts' : List (List α)) (t : List α)
    (hw : q ∉ w) (ha : q ∉ a) (hparts : ∀ b ∈ parts, q ∉ b ∧ b ≠ w) :
    behind (quotedBy q w) (weave q (a :: (parts ++ w :: parts')) t) =
      some (weave q parts' t) := by
  induction parts generalizing a with
  | nil =>
    rw [List.nil_append, weave, quotedBy, behind_skip ha, ← quotedBy, weave, behind_word hw hw,
      if_pos rfl]
  | cons b parts ih =>
    obtain ⟨hb, hne⟩ := hparts b (List.mem_cons_self ..)
    have hrest := ih b hb fun c hc => hparts c (List.mem_cons_of_mem _ hc)
    rw [List.cons_append, weave, quotedBy, behind_skip ha, ← quotedBy, weave, behind_word hw hb,
      if_neg hne]
    exact hrest

theorem behind_weave_none (hw : q ∉ w) {parts : List (List α)} (ha : q ∉ a)
    (hparts : ∀ b ∈ parts, q ∉ b ∧ b ≠ w) {t : List α} (ht : q ∉ t) :
    behind (quotedBy q w) (weave q (a :: parts) t) = none := by
  induction parts generalizing a with
  | nil =>
    have hlast : ¬ q :: (w ++ [q]) <+: q :: t := by
      rintro ⟨rest, hrest⟩
      injection hrest with _ hrest
      exact ht (hrest ▸ by simp)
    rw [weave, quotedBy, behind_skip ha, weave, behind, if_neg hlast, behind_not_mem ht]
  | cons b parts ih =>
    obtain ⟨hb, hne⟩ := hparts b (List.mem_cons_self ..)
    have hrest := ih hb fun c hc => hparts c (List.mem_cons_of_mem _ hc)
    rw [weave, quotedBy, behind_skip ha, ← quotedBy, weave, behind_word hw hb, if_neg hne]
    exact hrest

/-- A word between quotes is in a text exactly if it is one of the parts between quotes. -/
theorem isSome_behind_weave (hw : q ∉ w) {parts : List (List α)}
    (hparts : ∀ b ∈ a :: parts, q ∉ b) (ht : q ∉ t) :
    (behind (quotedBy q w) (weave q (a :: parts) t)).isSome ↔ w ∈ parts := by
  have ha := hparts a (List.mem_cons_self ..)
  by_cases hmem : w ∈ parts
  · obtain ⟨front, rest, rfl, hfront⟩ := List.eq_append_cons_of_mem hmem
    rw [behind_weave q w a front rest t hw ha fun b hb => ⟨hparts b (by simp [hb]), fun heq =>
      hfront (heq ▸ hb)⟩]
    exact iff_of_true rfl hmem
  · rw [behind_weave_none hw ha (fun b hb => ⟨hparts b (by simp [hb]), fun heq =>
      hmem (heq ▸ hb)⟩) ht]
    exact iff_of_false Bool.false_ne_true hmem

end Alpine.Lib
