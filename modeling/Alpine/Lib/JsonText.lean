import Alpine.Lib.Text

/-!
# JSON texts

The values, the tokens and the strings and numbers of JSON texts. `Scan` cuts a text into tokens one
character at a time, `unescape` is what the text between the quotes of a string stands for and
`readNumber` what a number is. A surrogate that is not one of a pair stands for nothing. `Spells` is
a spelling of a character that is read as that character.
-/

namespace Alpine.Lib

/-- A number with the parts it is written in. -/
structure JsonNumber where
  negative : Bool
  integer : Nat
  fraction : List Char
  exponent : Option Int
  deriving DecidableEq, Repr

/-- A natural number, as one writes it. -/
def JsonNumber.ofNat (n : Nat) : JsonNumber := ⟨false, n, [], none⟩

/-- The members of an object are in the order of the text, and a name may occur more than once. -/
inductive Json where
  | null
  | bool (b : Bool)
  | num (n : JsonNumber)
  | str (s : List Char)
  | array (items : List Json)
  | object (members : List (List Char × Json))

inductive JsonToken where
  | beginObject
  | endObject
  | beginArray
  | endArray
  | nameSeparator
  | valueSeparator
  | str (s : List Char)
  | num (n : JsonNumber)
  /-- `null`, `true` or `false`. -/
  | literal (v : Json)

/-! ## Strings -/

def hexDigit (c : Char) : Option Nat :=
  if c.isDigit then some (c.toNat - '0'.toNat)
  else if 'a' ≤ c ∧ c ≤ 'f' then some (c.toNat - 'a'.toNat + 10)
  else if 'A' ≤ c ∧ c ≤ 'F' then some (c.toNat - 'A'.toNat + 10)
  else none

def hexUnit (a b c d : Char) : Option Nat := do
  let a ← hexDigit a
  let b ← hexDigit b
  let c ← hexDigit c
  let d ← hexDigit d
  pure (((a * 16 + b) * 16 + c) * 16 + d)

/-- What a character stands for behind a backslash. -/
def escaped : Char → Option Char
  | '"' => some '"'
  | '\\' => some '\\'
  | '/' => some '/'
  | 'b' => some '\x08'
  | 'f' => some '\x0c'
  | 'n' => some '\n'
  | 'r' => some '\r'
  | 't' => some '\t'
  | _ => none

/-- A character that stands for itself. -/
def isPlain (c : Char) : Bool := c ≠ '"' && c ≠ '\\' && 0x20 ≤ c.toNat

/-- The characters and the code units of the text between two quotes. -/
def readUnits : List Char → Option (List (Char ⊕ Nat))
  | [] => some []
  | '\\' :: 'u' :: a :: b :: c :: d :: raw => do
    let unit ← hexUnit a b c d
    let units ← readUnits raw
    pure (.inr unit :: units)
  | '\\' :: c :: raw => do
    let c ← escaped c
    let units ← readUnits raw
    pure (.inl c :: units)
  | c :: raw =>
    if isPlain c then do
      let units ← readUnits raw
      pure (.inl c :: units)
    else none

/-- Two surrogates are one character. -/
def joinUnits : List (Char ⊕ Nat) → Option (List Char)
  | [] => some []
  | .inl c :: units => (joinUnits units).map (c :: ·)
  | .inr high :: .inr low :: units =>
    if 0xd800 ≤ high ∧ high < 0xdc00 then
      if 0xdc00 ≤ low ∧ low < 0xe000 then
        (joinUnits units).map
          (Char.ofNat (0x10000 + (high - 0xd800) * 0x400 + (low - 0xdc00)) :: ·)
      else none
    else if 0xdc00 ≤ high ∧ high < 0xe000 then none
    else (joinUnits (.inr low :: units)).map (Char.ofNat high :: ·)
  | .inr unit :: units =>
    if 0xd800 ≤ unit ∧ unit < 0xe000 then none
    else (joinUnits units).map (Char.ofNat unit :: ·)

def unescape (raw : List Char) : Option (List Char) := do joinUnits (← readUnits raw)

attribute [local simp] readUnits joinUnits

/-! ## Numbers and literals -/

def readFraction : List Char → Option (List Char × List Char)
  | '.' :: s =>
    if s.takeWhile Char.isDigit = [] then none
    else some (s.takeWhile Char.isDigit, s.dropWhile Char.isDigit)
  | s => some ([], s)

def readExponent : List Char → Option (Option Int)
  | [] => some none
  | e :: s =>
    if e = 'e' ∨ e = 'E' then
      let (negative, digits) := takeSign s
      if digits = [] ∨ ¬ digits.all Char.isDigit then none
      else
        let value : Int := Nat.ofDigitChars 10 digits 0
        some (some (if negative then -value else value))
    else none

/-- The sign of a JSON number is a minus. -/
def takeMinus : List Char → Bool × List Char
  | '-' :: s => (true, s)
  | s => (false, s)

def readNumber (raw : List Char) : Option JsonNumber := do
  let (negative, s) := takeMinus raw
  let digits := s.takeWhile Char.isDigit
  if digits = [] ∨ (1 < digits.length ∧ digits.head? = some '0') then none
  else
    let (fraction, s) ← readFraction (s.dropWhile Char.isDigit)
    let exponent ← readExponent s
    pure ⟨negative, Nat.ofDigitChars 10 digits 0, fraction, exponent⟩

def readBare (raw : List Char) : Option JsonToken :=
  if raw = ['n', 'u', 'l', 'l'] then some (.literal .null)
  else if raw = ['t', 'r', 'u', 'e'] then some (.literal (.bool true))
  else if raw = ['f', 'a', 'l', 's', 'e'] then some (.literal (.bool false))
  else (readNumber raw).map .num

/-! ## Scanning -/

/-- Where in a token the text is. -/
inductive Scan where
  | between
  /-- The text since the opening quote, and whether it ends in a backslash that escapes. -/
  | string (raw : List Char) (escape : Bool)
  /-- A number or a literal. -/
  | bare (raw : List Char)
  deriving DecidableEq, Repr

/-- A character of a number or a literal. -/
def isBare (c : Char) : Bool := c.isAlphanum || c = '+' || c = '-' || c = '.'

def isBlank (c : Char) : Bool := c = ' ' || c = '\t' || c = '\n' || c = '\r'

def punctuation : Char → Option JsonToken
  | '{' => some .beginObject
  | '}' => some .endObject
  | '[' => some .beginArray
  | ']' => some .endArray
  | ':' => some .nameSeparator
  | ',' => some .valueSeparator
  | _ => none

namespace Scan

/-- A character between two tokens. -/
def start (c : Char) : Option (Scan × List JsonToken) :=
  if isBlank c then some (between, [])
  else if c = '"' then some (string [] false, [])
  else if isBare c then some (bare [c], [])
  else (punctuation c).map fun token => (between, [token])

/-- The tokens that a text ends with. -/
def finish : Scan → Option (List JsonToken)
  | between => some []
  | string .. => none
  | bare raw => (readBare raw).map fun token => [token]

def step : Scan → Char → Option (Scan × List JsonToken)
  | between, c => start c
  | string raw true, c => some (string (raw ++ [c]) false, [])
  | string raw false, c =>
    if c = '"' then (unescape raw).map fun s => (between, [.str s])
    else some (string (raw ++ [c]) (c = '\\'), [])
  | bare raw, c =>
    if isBare c then some (bare (raw ++ [c]), [])
    else do
      let token ← readBare raw
      let (scan, tokens) ← start c
      pure (scan, token :: tokens)

end Scan

/-! ## What is spelled -/

/-- No quote of the text ends the string; whether it then ends in a backslash that escapes. -/
def unquoted : Bool → List Char → Option Bool
  | escape, [] => some escape
  | true, _ :: raw => unquoted false raw
  | false, c :: raw => if c = '"' then none else unquoted (c = '\\') raw

/-- The text is read as the character, wherever it is in a string. -/
structure Spells (raw : List Char) (c : Char) : Prop where
  unquoted : unquoted false raw = some false
  unescaped : ∀ rest, unescape (raw ++ rest) = (unescape rest).map (c :: ·)

theorem unquoted_append (escape : Bool) (raw raw' : List Char) :
    unquoted escape (raw ++ raw') = (unquoted escape raw).bind fun e => unquoted e raw' := by
  induction raw generalizing escape with
  | nil => rfl
  | cons c raw ih =>
    rw [List.cons_append]
    cases escape with
    | true => exact ih false
    | false =>
      by_cases hc : c = '"'
      · rw [unquoted, unquoted, if_pos hc, if_pos hc]
        rfl
      · rw [unquoted, unquoted, if_neg hc, if_neg hc]
        exact ih _

/-- A spelling of every character of a text is one of the text. -/
theorem unquoted_flatMap {f : Char → List Char} {s : List Char} (h : ∀ c ∈ s, Spells (f c) c) :
    unquoted false (s.flatMap f) = some false := by
  induction s with
  | nil => rfl
  | cons c s ih =>
    rw [List.flatMap_cons, unquoted_append, (h c (List.mem_cons_self ..)).unquoted]
    exact ih fun d hd => h d (List.mem_cons_of_mem _ hd)

theorem unescape_flatMap {f : Char → List Char} {s : List Char} (h : ∀ c ∈ s, Spells (f c) c) :
    unescape (s.flatMap f) = some s := by
  induction s with
  | nil => rfl
  | cons c s ih =>
    rw [List.flatMap_cons, (h c (List.mem_cons_self ..)).unescaped,
      ih fun d hd => h d (List.mem_cons_of_mem _ hd)]
    rfl

theorem isPlain_iff {c : Char} : isPlain c = true ↔ c ≠ '"' ∧ c ≠ '\\' ∧ 0x20 ≤ c.toNat := by
  unfold isPlain
  rw [Bool.and_eq_true, Bool.and_eq_true, decide_eq_true_iff, decide_eq_true_iff,
    decide_eq_true_iff, and_assoc]

theorem readUnits_plain {c : Char} (hc : isPlain c = true) (raw : List Char) :
    readUnits (c :: raw) = (readUnits raw).map (.inl c :: ·) := by
  have hslash : c ≠ '\\' := (isPlain_iff.mp hc).2.1
  rw [readUnits.eq_def]
  split
  · next h => cases h
  · next h => exact absurd (List.cons.inj h).1 hslash
  · next h => exact absurd (List.cons.inj h).1 hslash
  · next h =>
    obtain ⟨rfl, rfl⟩ := List.cons.inj h
    rw [if_pos hc]
    cases readUnits raw <;> rfl

theorem readUnits_not_plain {c : Char} (hslash : c ≠ '\\') (hc : ¬ isPlain c = true)
    (raw : List Char) : readUnits (c :: raw) = none := by
  rw [readUnits.eq_def]
  split
  · next h => cases h
  · next h => exact absurd (List.cons.inj h).1 hslash
  · next h => exact absurd (List.cons.inj h).1 hslash
  · next h =>
    obtain ⟨rfl, rfl⟩ := List.cons.inj h
    rw [if_neg hc]

theorem spells_plain {c : Char} (hc : isPlain c = true) : Spells [c] c where
  unquoted := by
    obtain ⟨hquote, hslash, -⟩ := isPlain_iff.mp hc
    unfold unquoted unquoted
    rw [if_neg hquote, decide_eq_false hslash]
  unescaped rest := by
    unfold unescape
    rw [List.singleton_append, readUnits_plain hc]
    cases readUnits rest <;> rfl

theorem unquoted_plain {s : List Char} (h : s.all isPlain = true) :
    unquoted false s = some false := by
  have := unquoted_flatMap (f := fun c => [c]) fun c hc => spells_plain (List.all_eq_true.mp h c hc)
  rwa [List.flatMap_singleton'] at this

theorem unescape_plain {s : List Char} (h : s.all isPlain = true) : unescape s = some s := by
  have := unescape_flatMap (f := fun c => [c]) fun c hc => spells_plain (List.all_eq_true.mp h c hc)
  rwa [List.flatMap_singleton'] at this

/-- A backslash and a character that stands for another. -/
theorem spells_escaped {e c : Char} (he : escaped e = some c) : Spells ['\\', e] c where
  unquoted := by
    unfold unquoted unquoted unquoted
    rfl
  unescaped rest := by
    have hunits : readUnits ('\\' :: e :: rest) = (readUnits rest).map (.inl c :: ·) := by
      rw [readUnits.eq_def]
      split
      · next h => cases h
      · next h =>
        obtain ⟨-, h⟩ := List.cons.inj h
        obtain ⟨rfl, -⟩ := List.cons.inj h
        cases he
      · next h =>
        obtain ⟨-, h⟩ := List.cons.inj h
        obtain ⟨rfl, rfl⟩ := List.cons.inj h
        rw [he]
        cases readUnits rest <;> rfl
      · next hnot h =>
        obtain ⟨rfl, rfl⟩ := List.cons.inj h
        exact absurd rfl (hnot e rest rfl)
    unfold unescape
    rw [List.cons_append, List.singleton_append, hunits]
    cases readUnits rest <;> rfl

/-- The code unit of a character that is no surrogate. -/
theorem spells_unit {a b c d : Char} {unit : Nat} (hunit : hexUnit a b c d = some unit)
    (hlow : unit < 0xd800) (hraw : unquoted false ['\\', 'u', a, b, c, d] = some false) :
    Spells ['\\', 'u', a, b, c, d] (Char.ofNat unit) where
  unquoted := hraw
  unescaped rest := by
    have hunits : readUnits (['\\', 'u', a, b, c, d] ++ rest) =
        (readUnits rest).map (.inr unit :: ·) := by
      show readUnits ('\\' :: 'u' :: a :: b :: c :: d :: rest) = _
      rw [readUnits, hunit]
      cases readUnits rest <;> rfl
    have hjoin : ∀ units, joinUnits (.inr unit :: units) =
        (joinUnits units).map (Char.ofNat unit :: ·) := by
      intro units
      rw [joinUnits.eq_def]
      split
      · next h => cases h
      · next h => cases h
      · next h =>
        cases h
        rw [if_neg (by omega), if_neg (by omega)]
      · next h =>
        cases h
        rw [if_neg (by omega)]
    unfold unescape
    rw [hunits]
    cases readUnits rest with
    | none => rfl
    | some units => exact hjoin units

/-! ## What is not spelled -/

/-- A string is no longer than its text, and as long only if it is its text. -/
theorem length_readUnits {raw : List Char} {units : List (Char ⊕ Nat)}
    (h : readUnits raw = some units) :
    units.length ≤ raw.length ∧
      (units.length = raw.length → raw.all isPlain = true ∧ units = raw.map .inl) := by
  induction raw using readUnits.induct generalizing units with
  | case1 =>
    cases h
    exact ⟨le_refl _, fun _ => ⟨rfl, rfl⟩⟩
  | case2 a b c d raw ih =>
    rw [readUnits] at h
    obtain ⟨unit, -, h⟩ := Option.bind_eq_some_iff.mp h
    obtain ⟨units', hunits', h⟩ := Option.bind_eq_some_iff.mp h
    cases h
    have hle := (ih hunits').1
    simp only [List.length_cons]
    exact ⟨by omega, fun heq => by omega⟩
  | case3 c raw hnot ih =>
    rw [readUnits.eq_3 _ _ hnot] at h
    obtain ⟨e, -, h⟩ := Option.bind_eq_some_iff.mp h
    obtain ⟨units', hunits', h⟩ := Option.bind_eq_some_iff.mp h
    cases h
    have hle := (ih hunits').1
    simp only [List.length_cons]
    exact ⟨by omega, fun heq => by omega⟩
  | case4 c raw hnot hnot' hplain ih =>
    rw [readUnits_plain hplain] at h
    obtain ⟨units', hunits', rfl⟩ := Option.map_eq_some_iff.mp h
    obtain ⟨hle, heq⟩ := ih hunits'
    simp only [List.length_cons]
    refine ⟨by omega, fun hlen => ?_⟩
    obtain ⟨hall, hmap⟩ := heq (by omega)
    rw [List.all_cons, hplain, hall, hmap]
    exact ⟨rfl, rfl⟩
  | case5 c raw hnot hnot' hplain =>
    rw [readUnits.eq_4 _ _ hnot hnot', if_neg hplain] at h
    cases h

theorem length_joinUnits {units : List (Char ⊕ Nat)} {s : List Char}
    (h : joinUnits units = some s) : s.length ≤ units.length := by
  induction units using joinUnits.induct generalizing s with
  | case1 =>
    cases h
    exact le_refl _
  | case2 c units ih =>
    rw [joinUnits] at h
    obtain ⟨s', hs', rfl⟩ := Option.map_eq_some_iff.mp h
    simpa using ih hs'
  | case3 high low units hhigh hlow ih =>
    rw [joinUnits, if_pos hhigh, if_pos hlow] at h
    obtain ⟨s', hs', rfl⟩ := Option.map_eq_some_iff.mp h
    have := ih hs'
    simp only [List.length_cons]
    omega
  | case4 high low units hhigh hlow =>
    rw [joinUnits, if_pos hhigh, if_neg hlow] at h
    cases h
  | case5 high low units hhigh hlow =>
    rw [joinUnits, if_neg hhigh, if_pos hlow] at h
    cases h
  | case6 high low units hhigh hlow ih =>
    rw [joinUnits, if_neg hhigh, if_neg hlow] at h
    obtain ⟨s', hs', rfl⟩ := Option.map_eq_some_iff.mp h
    simpa using ih hs'
  | case7 unit units hnot hsurrogate =>
    rw [joinUnits.eq_4 _ _ hnot, if_pos hsurrogate] at h
    cases h
  | case8 unit units hnot hsurrogate ih =>
    rw [joinUnits.eq_4 _ _ hnot, if_neg hsurrogate] at h
    obtain ⟨s', hs', rfl⟩ := Option.map_eq_some_iff.mp h
    simpa using ih hs'

theorem joinUnits_chars (s : List Char) : joinUnits (s.map .inl) = some s := by
  induction s with
  | nil => rfl
  | cons c s ih =>
    rw [List.map_cons, joinUnits, ih]
    rfl

theorem length_unescape {raw s : List Char} (h : unescape raw = some s) :
    s.length ≤ raw.length ∧ (s.length = raw.length → raw.all isPlain = true ∧ s = raw) := by
  obtain ⟨units, hunits, hjoin⟩ := Option.bind_eq_some_iff.mp h
  obtain ⟨hle, heq⟩ := length_readUnits hunits
  have hshort := length_joinUnits hjoin
  refine ⟨by omega, fun hlen => ?_⟩
  obtain ⟨hall, rfl⟩ := heq (by omega)
  rw [joinUnits_chars] at hjoin
  exact ⟨hall, (Option.some.inj hjoin).symm⟩

/-! ## Numbers and literals are read as they are written -/

theorem isBare_digit {c : Char} (hc : c.isDigit = true) : isBare c = true := by
  unfold isBare Char.isAlphanum
  rw [hc, Bool.or_true]
  rfl

theorem head_toDigits {n : Nat} (hn : n ≠ 0) : (Nat.toDigits 10 n).head? ≠ some '0' := by
  induction n using Nat.strong_induction_on with
  | _ n ih =>
    by_cases hlt : n < 10
    · rw [Nat.toDigits_of_lt_base hlt]
      have hall : ∀ m, m < 10 → m ≠ 0 → [m.digitChar].head? ≠ some '0' := by decide
      exact hall n hlt hn
    · have hfront := ih (n / 10) (by omega) (by omega)
      obtain ⟨c, s, hdigits⟩ :=
        List.exists_cons_of_ne_nil (Nat.toDigits_ne_nil (n := n / 10) (b := 10))
      rw [Nat.toDigits_of_base_le (by decide) (by omega), hdigits]
      rw [hdigits] at hfront
      exact hfront

theorem takeMinus_toDigits (n : Nat) :
    takeMinus (Nat.toDigits 10 n) = (false, Nat.toDigits 10 n) := by
  unfold takeMinus
  split
  · next h =>
    have hdigit := isDigit_toDigits (n := n) (c := '-') (by rw [h]; exact List.mem_cons_self ..)
    cases hdigit
  · rfl

theorem readNumber_toDigits (n : Nat) :
    readNumber (Nat.toDigits 10 n) = some (JsonNumber.ofNat n) := by
  have hall : ∀ c ∈ Nat.toDigits 10 n, c.isDigit = true := fun _ => isDigit_toDigits
  have htake : (Nat.toDigits 10 n).takeWhile Char.isDigit = Nat.toDigits 10 n :=
    List.takeWhile_eq_self_iff.mpr hall
  have hdrop : (Nat.toDigits 10 n).dropWhile Char.isDigit = [] :=
    List.dropWhile_eq_nil_iff.mpr hall
  have hzero : ¬ (Nat.toDigits 10 n = [] ∨
      (1 < (Nat.toDigits 10 n).length ∧ (Nat.toDigits 10 n).head? = some '0')) := by
    rintro (h | ⟨hlen, h⟩)
    · exact Nat.toDigits_ne_nil h
    · by_cases hn : n = 0
      · subst hn
        exact absurd hlen (by decide)
      · exact head_toDigits hn h
  unfold readNumber
  rw [takeMinus_toDigits]
  dsimp only
  rw [htake, hdrop, if_neg hzero, Nat.ofDigitChars_ten_toDigits]
  rfl

/-- A minus changes the sign only. -/
theorem readNumber_minus {s : List Char} {n : JsonNumber} (hs : takeMinus s = (false, s))
    (h : readNumber s = some n) : readNumber ('-' :: s) = some { n with negative := true } := by
  unfold readNumber at h ⊢
  have hminus : takeMinus ('-' :: s) = (true, s) := rfl
  rw [hs] at h
  rw [hminus]
  dsimp only at h ⊢
  split at h
  · cases h
  next hdigits =>
    rw [if_neg hdigits]
    obtain ⟨⟨fraction, s'⟩, hfraction, h⟩ := Option.bind_eq_some_iff.mp h
    obtain ⟨exponent, hexponent, h⟩ := Option.bind_eq_some_iff.mp h
    cases h
    refine Option.bind_eq_some_iff.mpr ⟨_, hfraction, ?_⟩
    exact Option.bind_eq_some_iff.mpr ⟨_, hexponent, rfl⟩

theorem readBare_toDigits (n : Nat) :
    readBare (Nat.toDigits 10 n) = some (.num (JsonNumber.ofNat n)) := by
  have hword : ∀ c s, c.isDigit = false → Nat.toDigits 10 n ≠ c :: s := by
    intro c s hc h
    have hdigit := isDigit_toDigits (n := n) (c := c) (by rw [h]; exact List.mem_cons_self ..)
    rw [hc] at hdigit
    cases hdigit
  unfold readBare
  rw [if_neg (hword 'n' _ (by decide)), if_neg (hword 't' _ (by decide)),
    if_neg (hword 'f' _ (by decide)), readNumber_toDigits]
  rfl

end Alpine.Lib
