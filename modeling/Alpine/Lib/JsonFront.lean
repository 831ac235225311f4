import Alpine.Lib.Json

/-!
# What the start of a document decides

The members that a reader has of the outermost object are members of the document, whatever text
follows (`front_of_read`), and so are those of an object inside it (`inner_of_read`). A string
that is begun ends at its first quote that is not escaped (`read_open_string`), and a text between
quotes that stands for nothing ends the reading (`next_string_none`).
-/

namespace Alpine.Lib

open TextReader Expect

namespace Expect

theorem foldlM_invariant {P : Expect → Prop}
    (hstep : ∀ e token e', P e → e.step token = some e' → P e') {e e' : Expect}
    {tokens : List JsonToken} (h : tokens.foldlM step e = some e') (he : P e) : P e' := by
  induction tokens generalizing e with
  | nil =>
    cases h
    exact he
  | cons token tokens ih =>
    rw [List.foldlM_cons] at h
    obtain ⟨e₁, he₁, h⟩ := Option.bind_eq_some_iff.mp h
    exact ih h (hstep e token e₁ he he₁)

end Expect

/-- What every step keeps holds of the document, whatever the text. -/
theorem done_of_invariant {P : Expect → Prop}
    (hstep : ∀ e token e', P e → e.step token = some e' → P e') {r : TextReader}
    {text : List Char} {v : Json} (h : (r.read text).bind close = some v) (hr : P r.expect) :
    P (.done v) := by
  obtain ⟨r', hread, hclose⟩ := Option.bind_eq_some_iff.mp h
  have hr' : P r'.expect := by
    clear h hclose
    induction text generalizing r with
    | nil =>
      cases hread
      exact hr
    | cons c text ih =>
      rw [read_cons] at hread
      obtain ⟨r₁, hfeed, hread⟩ := Option.bind_eq_some_iff.mp hread
      obtain ⟨⟨scan, tokens⟩, -, hfeed⟩ := Option.bind_eq_some_iff.mp hfeed
      obtain ⟨e, he, hfeed⟩ := Option.bind_eq_some_iff.mp hfeed
      cases hfeed
      exact ih (foldlM_invariant hstep he hr) hread
  obtain ⟨tokens, -, hclose⟩ := Option.bind_eq_some_iff.mp hclose
  obtain ⟨e', he', hdone⟩ := Option.bind_eq_some_iff.mp hclose
  have hend := foldlM_invariant hstep he' hr'
  cases e' with
  | done w =>
    cases hdone
    exact hend
  | _ => cases hdone

/-! ## The members of the outermost object -/

namespace Expect

/-- The members that the outermost of the containers has, if it is an object. -/
def rootOf : List JsonFrame → List (List Char × Json)
  | [] => []
  | [.array _] => []
  | [.object members _] => members
  | _ :: frame :: stack => rootOf (frame :: stack)

/-- The same where the members of the innermost object are at hand. -/
def rootWith (members : List (List Char × Json)) : List JsonFrame → List (List Char × Json)
  | [] => members
  | frame :: stack => rootOf (frame :: stack)

def root : Expect → List (List Char × Json)
  | value stack => rootOf stack
  | afterItem _ stack => rootOf stack
  | member members stack => rootWith members stack
  | separator members _ stack => rootWith members stack
  | afterMember members stack => rootWith members stack
  | done (.object members) => members
  | done _ => []

theorem rootOf_object (members : List (List Char × Json)) (name : List Char)
    (stack : List JsonFrame) : rootOf (.object members name :: stack) = rootWith members stack := by
  cases stack <;> rfl

theorem rootOf_array (items : List Json) (stack : List JsonFrame) :
    rootOf (.array items :: stack) = rootOf stack := by
  cases stack <;> rfl

variable {front : List (List Char × Json)}

theorem front_rootWith {members : List (List Char × Json)} (m : List Char × Json)
    {stack : List JsonFrame} (h : front <+: rootWith members stack) :
    front <+: rootWith (members ++ [m]) stack := by
  cases stack with
  | nil => exact h.trans (List.prefix_append members [m])
  | cons frame stack => exact h

theorem front_deliver (hne : front ≠ []) {v : Json} {stack : List JsonFrame}
    (h : front <+: rootOf stack) : front <+: (deliver v stack).root := by
  cases stack with
  | nil => exact absurd (List.prefix_nil.mp h) hne
  | cons frame stack =>
    cases frame with
    | array items =>
      rw [rootOf_array] at h
      exact h
    | object members name =>
      rw [rootOf_object] at h
      exact front_rootWith _ h

theorem front_step (hne : front ≠ []) (e : Expect) (token : JsonToken) (e' : Expect)
    (h : front <+: e.root) (he : e.step token = some e') : front <+: e'.root := by
  have hobject : ∀ {members stack}, front <+: rootWith members stack →
      front <+: (deliver (.object members) stack).root := by
    intro members stack h
    cases stack with
    | nil => exact h
    | cons frame stack => exact front_deliver hne h
  unfold step at he
  split at he <;> cases he
  · -- an object that begins has no members yet
    next stack =>
    cases stack with
    | nil => exact absurd (List.prefix_nil.mp h) hne
    | cons frame stack => exact h
  · next stack =>
    show front <+: rootOf (.array [] :: stack)
    rw [rootOf_array]
    exact h
  · exact front_deliver hne h
  · exact front_deliver hne h
  · exact front_deliver hne h
  · next stack =>
    refine front_deliver hne ?_
    rw [← rootOf_array []]
    exact h
  · next items stack =>
    show front <+: rootOf (.array items :: stack)
    rw [rootOf_array]
    exact h
  · exact front_deliver hne h
  · exact h
  · exact hobject h
  · next members name stack =>
    show front <+: rootOf (.object members name :: stack)
    rw [rootOf_object]
    exact h
  · exact h
  · exact hobject h

/-- The members that a reader has of the outermost object are members of the document. -/
theorem front_of_read (hne : front ≠ []) {r : TextReader} {text : List Char} {v : Json}
    (h : (r.read text).bind close = some v) (hr : front <+: r.expect.root) :
    ∃ rest, v = .object (front ++ rest) := by
  have hdone : front <+: (done v).root := done_of_invariant (front_step hne) h hr
  cases v with
  | object members =>
    obtain ⟨rest, rfl⟩ := hdone
    exact ⟨rest, rfl⟩
  | _ => exact absurd (List.prefix_nil.mp hdone) hne

/-! ## The members of an object inside another -/

/-- Outside of what is complete a step needs only the containers it is in. -/
theorem step_onto_eq {stack : List JsonFrame} (hstack : ∀ rest, stack ≠ .array [] :: rest)
    {e : Expect} (he : ∀ v, e ≠ done v) (token : JsonToken) :
    (e.onto stack).step token = (e.step token).map (onto stack) := by
  cases hstep : e.step token with
  | some e' => exact step_onto stack hstep
  | none =>
    cases e with
    | done v => exact absurd rfl (he v)
    | value inner =>
      cases inner with
      | nil =>
        cases token with
        | endArray =>
          cases stack with
          | nil => rfl
          | cons frame rest =>
            cases frame with
            | object => rfl
            | array items =>
              cases items with
              | nil => exact absurd rfl (hstack rest)
              | cons => rfl
        | _ => first | rfl | cases hstep
      | cons frame inner =>
        cases frame with
        | object => cases token <;> first | rfl | cases hstep
        | array items => cases items <;> cases token <;> first | rfl | cases hstep
    | member members inner => cases members <;> cases token <;> first | rfl | cases hstep
    | _ => cases token <;> first | rfl | cases hstep

/-- An object that is begun with these members inside another. -/
def Inside (outer : List (List Char × Json)) (name : List Char)
    (front : List (List Char × Json)) (e : Expect) : Prop :=
  (∃ e₁ : Expect, (∀ v, e₁ ≠ done v) ∧ front <+: e₁.root ∧ e = e₁.onto [.object outer name]) ∨
    ∃ rest, outer ++ [(name, .object (front ++ rest))] <+: e.root

theorem inside_step (hne : front ≠ []) (outer : List (List Char × Json)) (name : List Char)
    (e : Expect) (token : JsonToken) (e' : Expect) (h : Inside outer name front e)
    (he : e.step token = some e') : Inside outer name front e' := by
  rcases h with ⟨e₁, hopen, hfront, rfl⟩ | ⟨rest, hroot⟩
  · rw [step_onto_eq (by intro rest h; cases h) hopen] at he
    obtain ⟨e₂, hstep, rfl⟩ := Option.map_eq_some_iff.mp he
    have hfront' := front_step hne e₁ token e₂ hfront hstep
    by_cases hdone : ∃ v, e₂ = done v
    · -- the object is complete, and a member of the one around it
      obtain ⟨v, rfl⟩ := hdone
      cases v with
      | object members =>
        obtain ⟨rest, rfl⟩ := hfront'
        exact .inr ⟨rest, List.prefix_refl _⟩
      | _ => exact absurd (List.prefix_nil.mp hfront') hne
    · exact .inl ⟨e₂, fun v hv => hdone ⟨v, hv⟩, hfront', rfl⟩
  · exact .inr ⟨rest, front_step (by simp) e token e' hroot he⟩

theorem inner_of_read (hne : front ≠ []) {outer : List (List Char × Json)} {name : List Char}
    {r : TextReader} {text : List Char} {v : Json} (h : (r.read text).bind close = some v)
    (hr : Inside outer name front r.expect) :
    ∃ inner rest, v = .object (outer ++ (name, .object (front ++ inner)) :: rest) := by
  have hdone := done_of_invariant (inside_step hne outer name) h hr
  rcases hdone with ⟨e₁, hopen, -, heq⟩ | ⟨inner, hroot⟩
  · exfalso
    cases e₁ with
    | done v => exact hopen v rfl
    | _ => cases heq
  · cases v with
    | object members =>
      obtain ⟨rest, rfl⟩ := hroot
      refine ⟨inner, rest, ?_⟩
      rw [List.append_assoc]
      rfl
    | _ => exact absurd (List.prefix_nil.mp hroot) (by simp)

end Expect

/-! ## Strings -/

namespace TextReader

theorem feed_quote_none {raw : List Char} (hraw : unescape raw = none) (e : Expect) :
    feed ⟨.string raw false, e⟩ '"' = none := by
  unfold feed Scan.step
  dsimp only
  rw [if_pos rfl, hraw]
  rfl

/-- A string that is begun goes on to the end of the text, or to its first quote that is not
escaped. -/
theorem read_open_string {text raw : List Char} {escape : Bool} {e : Expect} {r : TextReader}
    (h : read ⟨.string raw escape, e⟩ text = some r) :
    (∃ raw' escape', r = ⟨.string raw' escape', e⟩) ∨
      ∃ inner rest s e', text = inner ++ '"' :: rest ∧ unescape (raw ++ inner) = some s ∧
        e.step (.str s) = some e' ∧ (next e').read rest = some r := by
  induction text generalizing raw escape with
  | nil =>
    cases h
    exact .inl ⟨raw, escape, rfl⟩
  | cons c text ih =>
    rw [read_cons] at h
    obtain ⟨r₁, hfeed, h⟩ := Option.bind_eq_some_iff.mp h
    have hgo : ∀ {escape'}, r₁ = ⟨.string (raw ++ [c]) escape', e⟩ →
        (∃ raw' escape', r = ⟨.string raw' escape', e⟩) ∨
          ∃ inner rest s e', c :: text = inner ++ '"' :: rest ∧
            unescape (raw ++ inner) = some s ∧ e.step (.str s) = some e' ∧
            (next e').read rest = some r := by
      rintro escape' rfl
      rcases ih h with hopen | ⟨inner, rest, s, e', rfl, hs, he', hrest⟩
      · exact .inl hopen
      · refine .inr ⟨c :: inner, rest, s, e', rfl, ?_, he', hrest⟩
        rw [List.append_assoc] at hs
        exact hs
    cases escape with
    | true => exact hgo (Option.some.inj hfeed).symm
    | false =>
      by_cases hc : c = '"'
      · subst hc
        cases hs : unescape raw with
        | none =>
          rw [feed_quote_none hs] at hfeed
          cases hfeed
        | some s =>
          rw [feed_quote hs] at hfeed
          obtain ⟨e', he', rfl⟩ := Option.map_eq_some_iff.mp hfeed
          refine .inr ⟨[], text, s, e', rfl, ?_, he', h⟩
          rw [List.append_nil]
          exact hs
      · unfold feed Scan.step at hfeed
        dsimp only at hfeed
        rw [if_neg hc] at hfeed
        exact hgo (Option.some.inj hfeed).symm

/-- A text between quotes that stands for nothing. -/
theorem next_string_none {raw : List Char} (hquote : unquoted false raw = some false)
    (hraw : unescape raw = none) (e : Expect) (rest : List Char) :
    (next e).read ('"' :: (raw ++ '"' :: rest)) = none := by
  have hopen : (next e).feed '"' = some ⟨.string [] false, e⟩ := rfl
  rw [read_cons, hopen, Option.bind_some, read_append, read_string hquote, Option.bind_some,
    List.nil_append, read_cons, feed_quote_none hraw]
  rfl

end TextReader

end Alpine.Lib
