import Mathlib.Data.Char
import Alpine.Lib.Json
import Alpine.Lib.Utf8

/-!
# The JSON writer

`JsonWriter` writes a document from `beginObject`, `key`, `value` and `endObject` calls; a stack of
flags and a flag that is set behind a key decide where commas go. `calls` are the calls that spell a
value: they append the text of the value, behind a comma exactly where one is due (`run_calls`), and
that text is a document of the value (`writes_value`).
-/

namespace Alpine

open Lib

structure ContainerState where
  isArray : Bool
  needsComma : Bool
  deriving DecidableEq, Repr

/-- The head of the stack is its back. -/
structure JsonWriter where
  buffer : List UInt8
  stack : List ContainerState
  afterKey : Bool
  deriving DecidableEq, Repr

/-- The calls, with the strings as bytes. -/
inductive WriterCall where
  | beginObject
  | endObject
  | beginArray
  | endArray
  | key (k : List UInt8)
  | string (v : List UInt8)
  | ulong (v : UInt64)
  | bool (v : Bool)

namespace JsonWriter

def new : JsonWriter := ⟨[], [], false⟩

def hexDigits : List UInt8 := utf8 ['0', '1', '2', '3', '4', '5', '6', '7', '8', '9', 'a', 'b', 'c',
  'd', 'e', 'f']

def escapeByte (c : UInt8) : List UInt8 :=
  if c = byte '"' then utf8 ['\\', '"']
  else if c = byte '\\' then utf8 ['\\', '\\']
  else if c = byte '\n' then utf8 ['\\', 'n']
  else if c = byte '\r' then utf8 ['\\', 'r']
  else if c = byte '\t' then utf8 ['\\', 't']
  else if c = byte '\x08' then utf8 ['\\', 'b']
  else if c = byte '\x0c' then utf8 ['\\', 'f']
  else if c < 0x20 then
    utf8 ['\\', 'u', '0', '0'] ++
      [hexDigits.getD ((c >>> 4) &&& 0x0f).toNat 0, hexDigits.getD (c &&& 0x0f).toNat 0]
  else [c]

def escapeJsonString (sv : List UInt8) : List UInt8 := sv.flatMap escapeByte

def append (w : JsonWriter) (text : List UInt8) : JsonWriter := { w with buffer := w.buffer ++ text }

def appendCommaIfNeeded (w : JsonWriter) : JsonWriter :=
  match w.stack with
  | [] => w
  | top :: _ => if top.needsComma then w.append (utf8 [',']) else w

/-- The start of a value: its comma, unless it is behind a key. -/
def beginValue (w : JsonWriter) : JsonWriter :=
  { (if w.afterKey then w else w.appendCommaIfNeeded) with afterKey := false }

/-- What is complete counts as an element of its container. -/
def completeElement (w : JsonWriter) : JsonWriter :=
  match w.stack with
  | [] => w
  | top :: stack => { w with stack := { top with needsComma := true } :: stack }

def beginContainer (w : JsonWriter) (isArray : Bool) (text : List UInt8) : JsonWriter :=
  let w := w.beginValue.append text
  { w with stack := ⟨isArray, false⟩ :: w.stack }

def endContainer (w : JsonWriter) (text : List UInt8) : JsonWriter :=
  ({ w with stack := w.stack.tail }.append text).completeElement

def writeValue (w : JsonWriter) (text : List UInt8) : JsonWriter :=
  (w.beginValue.append text).completeElement

def beginObject (w : JsonWriter) : JsonWriter := w.beginContainer false (utf8 ['{'])

def endObject (w : JsonWriter) : JsonWriter := w.endContainer (utf8 ['}'])

def beginArray (w : JsonWriter) : JsonWriter := w.beginContainer true (utf8 ['['])

def endArray (w : JsonWriter) : JsonWriter := w.endContainer (utf8 [']'])

def key (w : JsonWriter) (k : List UInt8) : JsonWriter :=
  { (w.appendCommaIfNeeded.append (utf8 ['"'] ++ escapeJsonString k ++ utf8 ['"', ':'])) with
    afterKey := true }

def valueString (w : JsonWriter) (v : List UInt8) : JsonWriter :=
  w.writeValue (utf8 ['"'] ++ escapeJsonString v ++ utf8 ['"'])

def valueUlong (w : JsonWriter) (v : UInt64) : JsonWriter :=
  w.writeValue (utf8 (Nat.toDigits 10 v.toNat))

def valueBool (w : JsonWriter) (v : Bool) : JsonWriter :=
  w.writeValue (utf8 (if v then ['t', 'r', 'u', 'e'] else ['f', 'a', 'l', 's', 'e']))

def step (w : JsonWriter) : WriterCall → JsonWriter
  | .beginObject => w.beginObject
  | .endObject => w.endObject
  | .beginArray => w.beginArray
  | .endArray => w.endArray
  | .key k => w.key k
  | .string v => w.valueString v
  | .ulong v => w.valueUlong v
  | .bool v => w.valueBool v

def run (w : JsonWriter) (calls : List WriterCall) : JsonWriter := calls.foldl step w

def result (w : JsonWriter) : List UInt8 := w.buffer

theorem run_append (w : JsonWriter) (calls calls' : List WriterCall) :
    w.run (calls ++ calls') = (w.run calls).run calls' := List.foldl_append

/-! ## Strings -/

/-- What a character is written as. -/
def escapeChar (c : Char) : List Char :=
  if c = '"' then ['\\', '"']
  else if c = '\\' then ['\\', '\\']
  else if c = '\n' then ['\\', 'n']
  else if c = '\r' then ['\\', 'r']
  else if c = '\t' then ['\\', 't']
  else if c = '\x08' then ['\\', 'b']
  else if c = '\x0c' then ['\\', 'f']
  else if c.toNat < 0x20 then
    ['\\', 'u', '0', '0', Nat.digitChar (c.toNat / 16), Nat.digitChar (c.toNat % 16)]
  else [c]

theorem escapeByte_low :
    ∀ c : Char, c.toNat ≤ 0x7f → escapeByte (byte c) = utf8 (escapeChar c) :=
  low_of_all (by decide +kernel)

theorem escapeByte_high : ∀ b : UInt8, 0x80 ≤ b.toNat → escapeByte b = [b] :=
  high_of_all (by decide +kernel)

theorem escapeChar_high (c : Char) (h : 0x7f < c.toNat) : escapeChar c = [c] := by
  have hne : ∀ d : Char, d.toNat ≤ 0x7f → c ≠ d := by
    rintro d hd rfl
    omega
  unfold escapeChar
  rw [if_neg (hne '"' (by decide)), if_neg (hne '\\' (by decide)), if_neg (hne '\n' (by decide)),
    if_neg (hne '\r' (by decide)), if_neg (hne '\t' (by decide)), if_neg (hne '\x08' (by decide)),
    if_neg (hne '\x0c' (by decide)), if_neg (by omega)]

/-- Escaping the bytes of a text is escaping its characters. -/
theorem escapeJsonString_utf8 (s : List Char) :
    escapeJsonString (utf8 s) = utf8 (s.flatMap escapeChar) :=
  flatMap_utf8 escapeByte_low escapeByte_high escapeChar_high s

theorem spells_escapeChar (c : Char) : Spells (escapeChar c) c := by
  unfold escapeChar
  by_cases hquote : c = '"'
  · rw [if_pos hquote, hquote]
    exact spells_escaped rfl
  by_cases hslash : c = '\\'
  · rw [if_neg hquote, if_pos hslash, hslash]
    exact spells_escaped rfl
  rw [if_neg hquote, if_neg hslash]
  split
  · next h => exact h ▸ spells_escaped rfl
  split
  · next h => exact h ▸ spells_escaped rfl
  split
  · next h => exact h ▸ spells_escaped rfl
  split
  · next h => exact h ▸ spells_escaped rfl
  split
  · next h => exact h ▸ spells_escaped rfl
  split
  · next hcontrol =>
    have hall : ∀ n : Fin 32,
        hexUnit '0' '0' (Nat.digitChar (n / 16)) (Nat.digitChar (n % 16)) = some n.val ∧
          unquoted false ['\\', 'u', '0', '0', Nat.digitChar (n / 16), Nat.digitChar (n % 16)] =
            some false := by
      decide +kernel
    obtain ⟨hunit, hraw⟩ := hall ⟨c.toNat, hcontrol⟩
    have hspells := spells_unit hunit (by dsimp only; omega) hraw
    rwa [Char.ofNat_toNat] at hspells
  · next hcontrol => exact spells_plain (isPlain_iff.mpr ⟨hquote, hslash, by omega⟩)

/-! ## The values and their calls -/

/-- A value that can be written. -/
inductive Value where
  | object (members : List (List Char × Value))
  | array (items : List Value)
  | string (s : List Char)
  | ulong (n : UInt64)
  | bool (b : Bool)

namespace Value

mutual

def json : Value → Json
  | object members => .object (jsonMembers members)
  | array items => .array (jsonItems items)
  | string s => .str s
  | ulong n => .num (JsonNumber.ofNat n.toNat)
  | bool b => .bool b

def jsonItems : List Value → List Json
  | [] => []
  | v :: items => json v :: jsonItems items

def jsonMembers : List (List Char × Value) → List (List Char × Json)
  | [] => []
  | (k, v) :: members => (k, json v) :: jsonMembers members

end

mutual

/-- The calls that spell a value. -/
def calls : Value → List WriterCall
  | object members => .beginObject :: (callsMembers members ++ [.endObject])
  | array items => .beginArray :: (callsItems items ++ [.endArray])
  | string s => [.string (utf8 s)]
  | ulong n => [.ulong n]
  | bool b => [.bool b]

def callsItems : List Value → List WriterCall
  | [] => []
  | v :: items => calls v ++ callsItems items

def callsMembers : List (List Char × Value) → List WriterCall
  | [] => []
  | (k, v) :: members => .key (utf8 k) :: (calls v ++ callsMembers members)

end

mutual

def text : Value → List Char
  | object members => '{' :: ([','].intercalate (textMembers members) ++ ['}'])
  | array items => '[' :: ([','].intercalate (textItems items) ++ [']'])
  | string s => '"' :: (s.flatMap escapeChar ++ ['"'])
  | ulong n => Nat.toDigits 10 n.toNat
  | bool b => if b then ['t', 'r', 'u', 'e'] else ['f', 'a', 'l', 's', 'e']

def textItems : List Value → List (List Char)
  | [] => []
  | v :: items => text v :: textItems items

def textMembers : List (List Char × Value) → List (List Char)
  | [] => []
  | (k, v) :: members =>
    ('"' :: (k.flatMap escapeChar ++ '"' :: ':' :: text v)) :: textMembers members

end

end Value

/-! ## What the calls write -/

/-- The comma that is due before the next value. -/
def comma (w : JsonWriter) : List Char :=
  match w.afterKey, w.stack with
  | false, top :: _ => if top.needsComma then [','] else []
  | _, _ => []

/-- The innermost container has an element. -/
def marked : List ContainerState → List ContainerState
  | [] => []
  | top :: stack => { top with needsComma := true } :: stack

theorem appendCommaIfNeeded_eq (buffer : List UInt8) (top : ContainerState)
    (stack : List ContainerState) (afterKey : Bool) :
    appendCommaIfNeeded ⟨buffer, top :: stack, afterKey⟩ =
      ⟨buffer ++ utf8 (if top.needsComma then [','] else []), top :: stack, afterKey⟩ := by
  unfold appendCommaIfNeeded
  cases htop : top.needsComma with
  | true => simp [htop, append]
  | false => simp [htop]

theorem beginValue_eq (w : JsonWriter) :
    w.beginValue = ⟨w.buffer ++ utf8 w.comma, w.stack, false⟩ := by
  obtain ⟨buffer, stack, afterKey⟩ := w
  unfold beginValue
  cases afterKey with
  | true => simp [comma]
  | false =>
    cases stack with
    | nil => simp [comma, appendCommaIfNeeded]
    | cons top stack =>
      dsimp only
      rw [if_neg Bool.false_ne_true, appendCommaIfNeeded_eq]
      rfl

theorem completeElement_eq (w : JsonWriter) :
    w.completeElement = { w with stack := marked w.stack } := by
  obtain ⟨buffer, stack, afterKey⟩ := w
  cases stack <;> rfl

theorem writeValue_eq (w : JsonWriter) (text : List Char) :
    w.writeValue (utf8 text) = ⟨w.buffer ++ utf8 (w.comma ++ text), marked w.stack, false⟩ := by
  unfold writeValue
  rw [completeElement_eq, beginValue_eq, utf8_append, ← List.append_assoc]
  rfl

/-- The elements with the commas between them, and one in front if it is due. -/
def joined (needsComma : Bool) (texts : List (List Char)) : List Char :=
  match texts with
  | [] => []
  | text :: texts => (if needsComma then [','] else []) ++ text ++ joined true texts

theorem joined_false (texts : List (List Char)) : joined false texts = [','].intercalate texts := by
  have hall : ∀ text texts, text ++ joined true texts = [','].intercalate (text :: texts) := by
    intro text texts
    induction texts generalizing text with
    | nil =>
      rw [List.intercalate_singleton]
      exact List.append_nil _
    | cons text' texts ih =>
      rw [List.intercalate_cons_cons, ← ih, joined, if_pos rfl, List.append_assoc, List.append_assoc]
  cases texts with
  | nil => rfl
  | cons text texts => exact hall text texts

open Value

/-- Between its braces or brackets a container is written. -/
theorem run_container (w : JsonWriter) (isArray : Bool) (before after inner : List Char)
    (calls : List WriterCall)
    (hinner : ∃ b, run ⟨w.buffer ++ utf8 (w.comma ++ before), ⟨isArray, false⟩ :: w.stack, false⟩
      calls = ⟨w.buffer ++ utf8 (w.comma ++ before) ++ utf8 inner, ⟨isArray, b⟩ :: w.stack, false⟩) :
    ((w.beginContainer isArray (utf8 before)).run calls).endContainer (utf8 after) =
      ⟨w.buffer ++ utf8 (w.comma ++ (before ++ (inner ++ after))), marked w.stack, false⟩ := by
  obtain ⟨b, hinner⟩ := hinner
  have hbegin : w.beginContainer isArray (utf8 before) =
      ⟨w.buffer ++ utf8 (w.comma ++ before), ⟨isArray, false⟩ :: w.stack, false⟩ := by
    unfold beginContainer
    rw [beginValue_eq, utf8_append, ← List.append_assoc]
    rfl
  rw [hbegin, hinner]
  unfold endContainer
  rw [completeElement_eq]
  simp only [append, List.tail_cons, utf8_append, List.append_assoc]

mutual

/-- The calls that spell a value append its text, behind the comma that is due. -/
theorem run_calls (w : JsonWriter) : ∀ v : Value,
    w.run (calls v) = ⟨w.buffer ++ utf8 (w.comma ++ text v), marked w.stack, false⟩
  | .object members => by
    rw [calls, text, ← joined_false]
    show (run w.beginObject (callsMembers members ++ [WriterCall.endObject])) = _
    rw [run_append]
    exact run_container w false ['{'] ['}'] _ _ ⟨_, run_callsMembers members _ _ _⟩
  | .array items => by
    rw [calls, text, ← joined_false]
    show (run w.beginArray (callsItems items ++ [WriterCall.endArray])) = _
    rw [run_append]
    exact run_container w true ['['] [']'] _ _ ⟨_, run_callsItems items _ _ _⟩
  | .string s => by
    rw [calls, text]
    show w.writeValue (utf8 ['"'] ++ escapeJsonString (utf8 s) ++ utf8 ['"']) = _
    rw [escapeJsonString_utf8, ← utf8_append, ← utf8_append, writeValue_eq, List.append_assoc]
    rfl
  | .ulong n => by
    rw [calls, text]
    exact writeValue_eq w _
  | .bool b => by
    rw [calls, text]
    exact writeValue_eq w _

theorem run_callsItems : ∀ (items : List Value) (buffer : List UInt8) (top : ContainerState)
    (stack : List ContainerState), run ⟨buffer, top :: stack, false⟩ (callsItems items) =
      ⟨buffer ++ utf8 (joined top.needsComma (textItems items)),
        ⟨top.isArray, top.needsComma || !items.isEmpty⟩ :: stack, false⟩
  | [], buffer, top, stack => by
    rw [callsItems, textItems, joined, utf8_nil, List.append_nil]
    simp [run]
  | v :: items, buffer, top, stack => by
    rw [callsItems, run_append, run_calls _ v, textItems, joined, marked,
      run_callsItems items _ _ _]
    simp only [comma, utf8_append, List.append_assoc, List.isEmpty_cons, Bool.not_false,
      Bool.or_true, Bool.true_or]

theorem run_callsMembers : ∀ (members : List (List Char × Value)) (buffer : List UInt8)
    (top : ContainerState) (stack : List ContainerState),
    run ⟨buffer, top :: stack, false⟩ (callsMembers members) =
      ⟨buffer ++ utf8 (joined top.needsComma (textMembers members)),
        ⟨top.isArray, top.needsComma || !members.isEmpty⟩ :: stack, false⟩
  | [], buffer, top, stack => by
    rw [callsMembers, textMembers, joined, utf8_nil, List.append_nil]
    simp [run]
  | (k, v) :: members, buffer, top, stack => by
    have hkey : (JsonWriter.mk buffer (top :: stack) false).key (utf8 k) =
        ⟨buffer ++ utf8 ((if top.needsComma then [','] else []) ++
          '"' :: (k.flatMap escapeChar ++ ['"', ':'])), top :: stack, true⟩ := by
      unfold key
      rw [escapeJsonString_utf8, ← utf8_append, ← utf8_append, appendCommaIfNeeded_eq]
      simp [append, utf8_append _ ('"' :: _)]
    rw [callsMembers]
    show run ((JsonWriter.mk buffer (top :: stack) false).key (utf8 k))
      (calls v ++ callsMembers members) = _
    rw [hkey, run_append, run_calls _ v, textMembers, joined, marked, run_callsMembers members _ _ _]
    simp [comma, utf8_append, utf8_cons]

end

/-! ## What the text says -/

theorem reads_bool (b : Bool) :
    Reads (if b then ['t', 'r', 'u', 'e'] else ['f', 'a', 'l', 's', 'e']) (.bool b) := by
  cases b <;> exact reads_literal (by decide) (List.all_eq_true.mp rfl) rfl

theorem reads_chars (s : List Char) : Reads ('"' :: (s.flatMap escapeChar ++ ['"'])) (.str s) :=
  reads_string (unquoted_flatMap fun c _ => spells_escapeChar c)
    (unescape_flatMap fun c _ => spells_escapeChar c)

mutual

theorem reads_text : ∀ v : Value, Reads (text v) v.json
  | .object members => by
    rw [text, json]
    exact reads_object (reads_textMembers members)
  | .array items => by
    rw [text, json]
    exact reads_array (reads_textItems items)
  | .string s => by
    rw [text, json]
    exact reads_chars s
  | .ulong n => by
    rw [text, json]
    exact reads_nat n.toNat
  | .bool b => by
    rw [text, json]
    exact reads_bool b

theorem reads_textItems : ∀ items : List Value,
    List.Forall₂ Reads (textItems items) (jsonItems items)
  | [] => .nil
  | v :: items => .cons (reads_text v) (reads_textItems items)

theorem reads_textMembers : ∀ members : List (List Char × Value),
    List.Forall₂ ReadsMember (textMembers members) (jsonMembers members)
  | [] => .nil
  | (_, v) :: members =>
    .cons
      (readsMember (unquoted_flatMap fun c _ => spells_escapeChar c)
        (unescape_flatMap fun c _ => spells_escapeChar c) (reads_text v))
      (reads_textMembers members)

end

/-- The calls that spell a value write a document of that value. -/
theorem writes_value (v : Value) :
    ∃ text, utf8 text = (new.run (calls v)).result ∧ parse text = some v.json := by
  refine ⟨v.text, ?_, reads_iff.mp (reads_text v)⟩
  rw [run_calls]
  rfl

end JsonWriter

end Alpine
