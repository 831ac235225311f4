import Mathlib.Data.List.Forall2
import Alpine.Lib.JsonText

/-!
# Reading JSON

`Expect` is what a reader may meet next, with the containers it is in, and `TextReader` reads a
text one character at a time. `parse` is the value of a text that is one JSON document. `Reads` says
that a text is read as a value inside any other document; it is the same as being a document of that
value (`reads_iff`), and documents are put together with `reads_array` and `reads_object`.
-/

namespace Alpine.Lib

/-- A container that is read, up to the value that is read now. -/
inductive JsonFrame where
  | array (items : List Json)
  | object (members : List (List Char × Json)) (name : List Char)

/-- What may come next. An array without items yet, or an object without members, may also end. -/
inductive Expect where
  | value (stack : List JsonFrame)
  | afterItem (items : List Json) (stack : List JsonFrame)
  | member (members : List (List Char × Json)) (stack : List JsonFrame)
  | separator (members : List (List Char × Json)) (name : List Char) (stack : List JsonFrame)
  | afterMember (members : List (List Char × Json)) (stack : List JsonFrame)
  | done (v : Json)

namespace Expect

/-- A value that is complete. -/
def deliver (v : Json) : List JsonFrame → Expect
  | [] => done v
  | .array items :: stack => afterItem (items ++ [v]) stack
  | .object members name :: stack => afterMember (members ++ [(name, v)]) stack

def step : Expect → JsonToken → Option Expect
  | value stack, .beginObject => some (member [] stack)
  | value stack, .beginArray => some (value (.array [] :: stack))
  | value stack, .str s => some (deliver (.str s) stack)
  | value stack, .num n => some (deliver (.num n) stack)
  | value stack, .literal v => some (deliver v stack)
  | value (.array [] :: stack), .endArray => some (deliver (.array []) stack)
  | afterItem items stack, .valueSeparator => some (value (.array items :: stack))
  | afterItem items stack, .endArray => some (deliver (.array items) stack)
  | member members stack, .str s => some (separator members s stack)
  | member [] stack, .endObject => some (deliver (.object []) stack)
  | separator members name stack, .nameSeparator => some (value (.object members name :: stack))
  | afterMember members stack, .valueSeparator => some (member members stack)
  | afterMember members stack, .endObject => some (deliver (.object members) stack)
  | _, _ => none

/-- The same inside other containers. -/
def onto (stack : List JsonFrame) : Expect → Expect
  | value inner => value (inner ++ stack)
  | afterItem items inner => afterItem items (inner ++ stack)
  | member members inner => member members (inner ++ stack)
  | separator members name inner => separator members name (inner ++ stack)
  | afterMember members inner => afterMember members (inner ++ stack)
  | done v => deliver v stack

theorem onto_deliver (stack inner : List JsonFrame) (v : Json) :
    (deliver v inner).onto stack = deliver v (inner ++ stack) := by
  cases inner with
  | nil => rfl
  | cons frame inner => cases frame <;> rfl

/-- A step does not depend on the containers around. -/
theorem step_onto (stack : List JsonFrame) {e e' : Expect} {token : JsonToken}
    (h : e.step token = some e') : (e.onto stack).step token = some (e'.onto stack) := by
  unfold step at h
  split at h <;> cases h <;> first | rfl | exact congrArg some (onto_deliver stack _ _).symm

theorem foldlM_onto (stack : List JsonFrame) {e e' : Expect} {tokens : List JsonToken}
    (h : tokens.foldlM step e = some e') :
    tokens.foldlM step (e.onto stack) = some (e'.onto stack) := by
  induction tokens generalizing e with
  | nil =>
    cases h
    rfl
  | cons token tokens ih =>
    rw [List.foldlM_cons] at h ⊢
    obtain ⟨e₁, he₁, h⟩ := Option.bind_eq_some_iff.mp h
    rw [step_onto stack he₁]
    exact ih h

end Expect

structure TextReader where
  scan : Scan
  expect : Expect

namespace TextReader

def feed (r : TextReader) (c : Char) : Option TextReader := do
  let (scan, tokens) ← r.scan.step c
  let expect ← tokens.foldlM Expect.step r.expect
  pure ⟨scan, expect⟩

def read (r : TextReader) (text : List Char) : Option TextReader := text.foldlM feed r

/-- The value of the document, if the text ends here. -/
def close (r : TextReader) : Option Json := do
  let tokens ← r.scan.finish
  match ← tokens.foldlM Expect.step r.expect with
  | .done v => some v
  | _ => none

/-- A reader between two tokens. -/
def next (expect : Expect) : TextReader := ⟨.between, expect⟩

end TextReader

open TextReader

/-- The value of a text that is one JSON document. -/
def parse (text : List Char) : Option Json := (read (next (.value [])) text).bind close

namespace TextReader

@[simp] theorem read_nil (r : TextReader) : r.read [] = some r := rfl

theorem read_cons (r : TextReader) (c : Char) (text : List Char) :
    r.read (c :: text) = (r.feed c).bind fun r' => r'.read text := List.foldlM_cons

theorem read_append (r : TextReader) (text text' : List Char) :
    r.read (text ++ text') = (r.read text).bind fun r' => r'.read text' := List.foldlM_append

/-! ## What a reader does with the rest of a text -/

/-- Two readers that do the same with what can follow a value: the end, or a character that is in no
number and no literal. -/
structure Same (r r' : TextReader) : Prop where
  feed : ∀ c, isBare c = false → r.feed c = r'.feed c
  close : r.close = r'.close

theorem Same.refl (r : TextReader) : Same r r := ⟨fun _ _ => rfl, rfl⟩

theorem Same.read {r r' : TextReader} (h : Same r r') {c : Char} (hc : isBare c = false)
    (text : List Char) : r.read (c :: text) = r'.read (c :: text) := by
  rw [read_cons, read_cons, h.feed c hc]

/-- A number or a literal ends where the next token begins. -/
theorem same_bare {raw : List Char} {token : JsonToken} {e e' : Expect}
    (hraw : readBare raw = some token) (he : e.step token = some e') :
    Same ⟨.bare raw, e⟩ (next e') where
  feed c hc := by
    unfold TextReader.feed Scan.step next
    dsimp only
    rw [if_neg (by rw [hc]; exact Bool.false_ne_true), hraw]
    show _ = (Scan.start c).bind _
    cases Scan.start c with
    | none => rfl
    | some r =>
      show List.foldlM Expect.step e (token :: r.2) >>= _ = _
      rw [List.foldlM_cons, he]
      rfl
  close := by
    unfold TextReader.close Scan.finish next
    dsimp only
    rw [hraw]
    show (List.foldlM Expect.step e [token] >>= _) = _
    rw [List.foldlM_cons, he]
    rfl

theorem read_bare {raw : List Char} (hraw : ∀ c ∈ raw, isBare c = true) (front : List Char)
    (e : Expect) : read ⟨.bare front, e⟩ raw = some ⟨.bare (front ++ raw), e⟩ := by
  induction raw generalizing front with
  | nil => rw [List.append_nil, read_nil]
  | cons c raw ih =>
    have hfeed : feed ⟨.bare front, e⟩ c = some ⟨.bare (front ++ [c]), e⟩ := by
      unfold feed Scan.step
      dsimp only
      rw [if_pos (hraw c (List.mem_cons_self ..))]
      rfl
    rw [read_cons, hfeed, Option.bind_some, ih fun d hd => hraw d (List.mem_cons_of_mem _ hd),
      List.append_assoc, List.singleton_append]

theorem start_bare {c : Char} (hc : isBare c = true) : Scan.start c = some (.bare [c], []) := by
  have hblank : isBlank c = false := by
    cases h : isBlank c with
    | false => rfl
    | true =>
      simp only [isBlank, Bool.or_eq_true, decide_eq_true_eq] at h
      rcases h with ((h | h) | h) | h <;> (subst h; cases hc)
  have hquote : c ≠ '"' := by
    rintro rfl
    cases hc
  unfold Scan.start
  rw [if_neg (by rw [hblank]; exact Bool.false_ne_true), if_neg hquote, if_pos hc]

/-- A number or a literal is read as what it says. -/
theorem next_bare {raw : List Char} {token : JsonToken} {e e' : Expect} (hne : raw ≠ [])
    (hbare : ∀ c ∈ raw, isBare c = true) (hraw : readBare raw = some token)
    (he : e.step token = some e') : ∃ r, (next e).read raw = some r ∧ Same r (next e') := by
  obtain ⟨c, s, rfl⟩ := List.exists_cons_of_ne_nil hne
  have hfeed : (next e).feed c = some ⟨.bare [c], e⟩ := by
    unfold feed next Scan.step
    dsimp only
    rw [start_bare (hbare c (List.mem_cons_self ..))]
    rfl
  refine ⟨⟨.bare (c :: s), e⟩, ?_, same_bare hraw he⟩
  rw [read_cons, hfeed, Option.bind_some, read_bare fun d hd => hbare d (List.mem_cons_of_mem _ hd)]
  rfl

theorem read_string {raw : List Char} {escape escape' : Bool}
    (h : unquoted escape raw = some escape') (front : List Char) (e : Expect) :
    read ⟨.string front escape, e⟩ raw = some ⟨.string (front ++ raw) escape', e⟩ := by
  induction raw generalizing front escape with
  | nil =>
    cases h
    rw [List.append_nil, read_nil]
  | cons c raw ih =>
    have hsplit : front ++ c :: raw = (front ++ [c]) ++ raw := by
      rw [List.append_assoc, List.singleton_append]
    rw [read_cons, hsplit]
    cases escape with
    | true =>
      rw [unquoted] at h
      exact ih h (front ++ [c])
    | false =>
      by_cases hc : c = '"'
      · rw [unquoted, if_pos hc] at h
        cases h
      · rw [unquoted, if_neg hc] at h
        have hfeed : feed ⟨.string front false, e⟩ c =
            some ⟨.string (front ++ [c]) (c = '\\'), e⟩ := by
          unfold feed Scan.step
          dsimp only
          rw [if_neg hc]
          rfl
        rw [hfeed]
        exact ih h (front ++ [c])

/-- A string ends at a quote that is not escaped. -/
theorem feed_quote {raw s : List Char} (hraw : unescape raw = some s) (e : Expect) :
    feed ⟨.string raw false, e⟩ '"' = (e.step (.str s)).map next := by
  unfold feed Scan.step
  dsimp only
  rw [if_pos rfl, hraw]
  show (List.foldlM Expect.step e [.str s] >>= _) = _
  rw [List.foldlM_cons]
  cases e.step (.str s) <;> rfl

/-- A text between quotes is read as what it stands for. -/
theorem next_string {raw s : List Char} (hquote : unquoted false raw = some false)
    (hraw : unescape raw = some s) (e : Expect) (rest : List Char) :
    (next e).read ('"' :: (raw ++ '"' :: rest)) =
      (e.step (.str s)).bind fun e' => (next e').read rest := by
  have hopen : (next e).feed '"' = some ⟨.string [] false, e⟩ := rfl
  rw [read_cons, hopen, Option.bind_some, read_append, read_string hquote, Option.bind_some,
    List.nil_append, read_cons, feed_quote hraw]
  cases e.step (.str s) <;> rfl

/-- A text without escapes between quotes. -/
theorem next_plain (s : List Char) (h : s.all isPlain = true) (e : Expect) (rest : List Char) :
    (next e).read ('"' :: (s ++ '"' :: rest)) =
      (e.step (.str s)).bind fun e' => (next e').read rest :=
  next_string (unquoted_plain h) (unescape_plain h) e rest

theorem next_punctuation {c : Char} {token : JsonToken} (hc : punctuation c = some token)
    (e : Expect) (text : List Char) :
    (next e).read (c :: text) = (e.step token).bind fun e' => (next e').read text := by
  have hstart : Scan.start c = some (.between, [token]) := by
    unfold punctuation at hc
    split at hc <;> first | (cases hc; rfl) | cases hc
  have hfeed : (next e).feed c = (e.step token).bind fun e' => some (next e') := by
    unfold feed next Scan.step
    dsimp only
    rw [hstart]
    show (List.foldlM Expect.step e [token] >>= _) = _
    rw [List.foldlM_cons]
    cases e.step token <;> rfl
  rw [read_cons, hfeed, Option.bind_assoc]
  cases e.step token <;> rfl

/-! ## Documents inside documents -/

def onto (stack : List JsonFrame) (r : TextReader) : TextReader := ⟨r.scan, r.expect.onto stack⟩

theorem read_onto (stack : List JsonFrame) {r r' : TextReader} {text : List Char}
    (h : r.read text = some r') : (r.onto stack).read text = some (r'.onto stack) := by
  induction text generalizing r with
  | nil =>
    cases h
    rfl
  | cons c text ih =>
    rw [read_cons] at h ⊢
    obtain ⟨r₁, hfeed, h⟩ := Option.bind_eq_some_iff.mp h
    obtain ⟨⟨scan, tokens⟩, hscan, hfeed⟩ := Option.bind_eq_some_iff.mp hfeed
    obtain ⟨e, he, hfeed⟩ := Option.bind_eq_some_iff.mp hfeed
    cases hfeed
    have hlift : (r.onto stack).feed c = some (onto stack ⟨scan, e⟩) := by
      unfold feed onto
      dsimp only
      rw [hscan]
      show (List.foldlM Expect.step (r.expect.onto stack) tokens >>= _) = _
      rw [Expect.foldlM_onto stack he]
      rfl
    rw [hlift]
    exact ih h

theorem next_beginObject (stack : List JsonFrame) (text : List Char) :
    (next (.value stack)).read ('{' :: text) = (next (.member [] stack)).read text := by
  rw [next_punctuation rfl]
  rfl

theorem next_name (members : List (List Char × Json)) {name : List Char}
    (h : name.all isPlain = true) (stack : List JsonFrame) (text : List Char) :
    (next (.member members stack)).read ('"' :: (name ++ '"' :: ':' :: text)) =
      (next (.value (.object members name :: stack))).read text := by
  have hname : (Expect.member members stack).step (.str name) =
      some (.separator members name stack) := by
    cases members <;> rfl
  rw [next_plain name h, hname, Option.bind_some, next_punctuation rfl]
  rfl

theorem next_comma (members : List (List Char × Json)) (stack : List JsonFrame)
    (text : List Char) : (next (.afterMember members stack)).read (',' :: text) =
      (next (.member members stack)).read text := by
  rw [next_punctuation rfl]
  rfl

end TextReader

open Expect

/-- The text is read as the value, wherever it is in a document. -/
def Reads (text : List Char) (v : Json) : Prop :=
  ∀ stack, ∃ r, (next (.value stack)).read text = some r ∧ Same r (next (deliver v stack))

theorem reads_iff {text : List Char} {v : Json} : Reads text v ↔ parse text = some v := by
  constructor
  · intro h
    obtain ⟨r, hread, hsame⟩ := h []
    unfold parse
    rw [hread, Option.bind_some, hsame.close]
    rfl
  · intro h stack
    obtain ⟨⟨scan, e⟩, hread, hclose⟩ := Option.bind_eq_some_iff.mp h
    refine ⟨_, read_onto stack hread, ?_⟩
    obtain ⟨tokens, hfinish, hclose⟩ := Option.bind_eq_some_iff.mp hclose
    obtain ⟨e', hstep, hdone⟩ := Option.bind_eq_some_iff.mp hclose
    -- the text ends in a complete document
    obtain rfl : e' = .done v := by
      cases e' with
      | done w =>
        cases hdone
        rfl
      | _ => cases hdone
    cases scan with
    | between =>
      cases hfinish
      cases hstep
      exact Same.refl _
    | string raw escape => cases hfinish
    | bare raw =>
      obtain ⟨token, htoken, rfl⟩ := Option.map_eq_some_iff.mp hfinish
      have hone : e.step token = some (.done v) := by
        rw [List.foldlM_cons] at hstep
        obtain ⟨e₁, he₁, hstep⟩ := Option.bind_eq_some_iff.mp hstep
        cases hstep
        exact he₁
      exact same_bare htoken (step_onto stack hone)

theorem Reads.read {text : List Char} {v : Json} (h : Reads text v) (stack : List JsonFrame)
    {c : Char} (hc : isBare c = false) (rest : List Char) :
    (next (.value stack)).read (text ++ c :: rest) =
      (next (deliver v stack)).read (c :: rest) := by
  obtain ⟨r, hread, hsame⟩ := h stack
  rw [read_append, hread, Option.bind_some, hsame.read hc]

theorem reads_string {raw s : List Char} (hquote : unquoted false raw = some false)
    (hraw : unescape raw = some s) : Reads ('"' :: (raw ++ ['"'])) (.str s) := by
  intro stack
  refine ⟨next (deliver (.str s) stack), ?_, Same.refl _⟩
  exact next_string hquote hraw (.value stack) []

theorem reads_plain (s : List Char) (h : s.all isPlain = true) :
    Reads ('"' :: (s ++ ['"'])) (.str s) :=
  reads_string (unquoted_plain h) (unescape_plain h)

theorem reads_nat (n : Nat) : Reads (Nat.toDigits 10 n) (.num (JsonNumber.ofNat n)) :=
  fun _ => next_bare Nat.toDigits_ne_nil (fun _ h => isBare_digit (isDigit_toDigits h))
    (readBare_toDigits n) rfl

theorem reads_literal {raw : List Char} {v : Json} (hne : raw ≠ [])
    (hbare : ∀ c ∈ raw, isBare c = true) (hraw : readBare raw = some (.literal v)) :
    Reads raw v :=
  fun _ => next_bare hne hbare hraw rfl

/-! ## Containers -/

theorem read_items {texts : List (List Char)} {items : List Json}
    (h : List.Forall₂ Reads texts items) (hne : texts ≠ []) (front : List Json)
    (stack : List JsonFrame) (rest : List Char) :
    (next (.value (.array front :: stack))).read ([','].intercalate texts ++ ']' :: rest) =
      (next (deliver (.array (front ++ items)) stack)).read rest := by
  induction h generalizing front with
  | nil => exact absurd rfl hne
  | @cons t v texts items hv hrest ih =>
    cases hrest with
    | nil =>
      rw [List.intercalate_singleton, hv.read _ (by decide) rest, next_punctuation rfl]
      rfl
    | @cons t' v' texts items hv' hrest =>
      rw [List.intercalate_cons_cons, List.append_assoc, List.append_assoc, List.singleton_append,
        hv.read _ (by decide), next_punctuation rfl]
      have := ih (List.cons_ne_nil _ _) (front ++ [v])
      rw [List.append_assoc, List.singleton_append] at this
      exact this

theorem reads_array {texts : List (List Char)} {items : List Json}
    (h : List.Forall₂ Reads texts items) :
    Reads ('[' :: ([','].intercalate texts ++ [']'])) (.array items) := by
  intro stack
  refine ⟨next (deliver (.array items) stack), ?_, Same.refl _⟩
  rw [next_punctuation rfl]
  cases h with
  | nil => rfl
  | cons hv hrest => exact read_items (.cons hv hrest) (List.cons_ne_nil _ _) [] stack []

/-- The text is read as a member of an object. -/
def ReadsMember (text : List Char) (m : List Char × Json) : Prop :=
  ∀ members stack, ∃ r, (next (.member members stack)).read text = some r ∧
    Same r (next (.afterMember (members ++ [m]) stack))

theorem readsMember {raw name text : List Char} {v : Json} (hquote : unquoted false raw = some false)
    (hraw : unescape raw = some name) (hv : Reads text v) :
    ReadsMember ('"' :: (raw ++ '"' :: ':' :: text)) (name, v) := by
  intro members stack
  obtain ⟨r, hread, hsame⟩ := hv (.object members name :: stack)
  refine ⟨r, ?_, hsame⟩
  rw [next_string hquote hraw]
  show (next (.separator members name stack)).read (':' :: text) = _
  rw [next_punctuation rfl]
  exact hread

theorem readsMember_plain (name : List Char) {text : List Char} {v : Json}
    (h : name.all isPlain = true)
    (hv : Reads text v) : ReadsMember ('"' :: (name ++ '"' :: ':' :: text)) (name, v) :=
  readsMember (unquoted_plain h) (unescape_plain h) hv

theorem ReadsMember.read {text : List Char} {m : List Char × Json} (h : ReadsMember text m)
    (members : List (List Char × Json)) (stack : List JsonFrame) {c : Char}
    (hc : isBare c = false) (rest : List Char) :
    (next (.member members stack)).read (text ++ c :: rest) =
      (next (.afterMember (members ++ [m]) stack)).read (c :: rest) := by
  obtain ⟨r, hread, hsame⟩ := h members stack
  rw [read_append, hread, Option.bind_some, hsame.read hc]

theorem read_members {texts : List (List Char)} {members : List (List Char × Json)}
    (h : List.Forall₂ ReadsMember texts members) (hne : texts ≠ [])
    (front : List (List Char × Json)) (stack : List JsonFrame) (rest : List Char) :
    (next (.member front stack)).read ([','].intercalate texts ++ '}' :: rest) =
      (next (deliver (.object (front ++ members)) stack)).read rest := by
  induction h generalizing front with
  | nil => exact absurd rfl hne
  | @cons t m texts members hm hrest ih =>
    cases hrest with
    | nil =>
      rw [List.intercalate_singleton, hm.read _ _ (by decide) rest, next_punctuation rfl]
      rfl
    | @cons t' m' texts members hm' hrest =>
      rw [List.intercalate_cons_cons, List.append_assoc, List.append_assoc, List.singleton_append,
        hm.read _ _ (by decide), next_punctuation rfl]
      have := ih (List.cons_ne_nil _ _) (front ++ [m])
      rw [List.append_assoc, List.singleton_append] at this
      exact this

theorem reads_object {texts : List (List Char)} {members : List (List Char × Json)}
    (h : List.Forall₂ ReadsMember texts members) :
    Reads ('{' :: ([','].intercalate texts ++ ['}'])) (.object members) := by
  intro stack
  refine ⟨next (deliver (.object members) stack), ?_, Same.refl _⟩
  rw [next_punctuation rfl]
  cases h with
  | nil => rfl
  | cons hm hrest => exact read_members (.cons hm hrest) (List.cons_ne_nil _ _) [] stack []

end Alpine.Lib
