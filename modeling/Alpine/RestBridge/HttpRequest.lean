import Alpine.Lib.UMap
import Alpine.Lib.Utf8

/-!
# HTTP requests

`HttpRequest.parse` reads a request from the bytes it is given: the request line, the header lines
up to an empty one, and what is behind it as the body. A line that does not end is not an error: it
is taken as the body. Strings are byte strings.
-/

namespace Alpine

open Lib

structure HttpRequest where
  method : List UInt8
  path : List UInt8
  body : List UInt8
  headers : UMap (List UInt8) (List UInt8)
  queryParams : UMap (List UInt8) (List UInt8)

namespace HttpRequest

def MAX_HEADER_COUNT : Nat := 100

def MAX_HEADER_NAME_LENGTH : Nat := 256

def MAX_HEADER_VALUE_LENGTH : Nat := 8192

/-- What is before the first line end, and what is behind it. -/
def cutLine : List UInt8 → Option (List UInt8 × List UInt8)
  | [] => none
  | 13 :: 10 :: rest => some ([], rest)
  | c :: rest => (cutLine rest).map fun (line, rest) => (c :: line, rest)

/-- What is before the first `c`, and what is behind it. -/
def cutAt (c : UInt8) (s : List UInt8) : Option (List UInt8 × List UInt8) :=
  match s.dropWhile (· ≠ c) with
  | [] => none
  | _ :: rest => some (s.takeWhile (· ≠ c), rest)

def addQueryParam (params : UMap (List UInt8) (List UInt8)) (param : List UInt8) :
    UMap (List UInt8) (List UInt8) :=
  match cutAt (byte '=') param with
  | some (name, value) => params.assign name value
  | none => if param = [] then params else params.assign param []

def isTchar (c : UInt8) : Bool :=
  (48 ≤ c && c ≤ 57) || (65 ≤ c && c ≤ 90) || (97 ≤ c && c ≤ 122) || c = 96 ||
    (utf8 ['!', '#', '$', '%', '&', '\'', '*', '+', '-', '.', '^', '_', '|', '~']).contains c

def toLower (c : UInt8) : UInt8 := if 65 ≤ c ∧ c ≤ 90 then c + 32 else c

/-- A header line; `none` rejects the request, and a name with other characters is skipped. -/
def addHeader (headers : UMap (List UInt8) (List UInt8)) (line : List UInt8) :
    Option (UMap (List UInt8) (List UInt8)) :=
  match cutAt (byte ':') line with
  | none => some headers
  | some (name, value) =>
    if name.length > MAX_HEADER_NAME_LENGTH ∨ value.length > MAX_HEADER_VALUE_LENGTH then none
    else if ¬ name.all isTchar then some headers
    else some (headers.assign (name.map toLower) (value.dropWhile (· = byte ' ')))

/-- The header lines up to an empty one, and what is behind it. A line without an end is left as
what is behind. -/
def headLines (line : List UInt8) : List UInt8 → List (List UInt8) × List UInt8
  | [] => ([], line)
  | 13 :: 10 :: rest =>
    if line = [] then ([], rest)
    else (line :: (headLines [] rest).1, (headLines [] rest).2)
  | c :: rest => headLines (line ++ [c]) rest

def parse (data : List UInt8) : Option HttpRequest := do
  let (requestLine, rest) ← cutLine data
  let (method, target) ← cutAt (byte ' ') requestLine
  let (fullPath, _) ← cutAt (byte ' ') target
  let (lines, body) := headLines [] rest
  if lines.length > MAX_HEADER_COUNT then none
  else
    let headers ← lines.foldlM addHeader ∅
    match cutAt (byte '?') fullPath with
    | none => some ⟨method, fullPath, body, headers, ∅⟩
    | some (path, query) =>
      some ⟨method, path, body, headers, (query.splitOn (byte '&')).foldl addQueryParam ∅⟩

end HttpRequest

/-!
## The text of a request

What a client writes: the request line, the header lines, an empty line and the body. `decoded` is
the request that this means. The parser, given the whole head, finds the request and takes what is
behind the head as the body (`parse_head`).
-/

open HttpRequest

def crlf : List UInt8 := [13, 10]

/-- `std::from_chars` on the whole string. -/
def parseUlong (s : List UInt8) : Option Nat :=
  if s = [] ∨ ¬ s.all (fun c => 48 ≤ c && c ≤ 57) then none
  else
    let value := s.foldl (fun n c => 10 * n + (c.toNat - 48)) 0
    if value < 2 ^ 64 then some value else none

namespace RequestText

def contentLength : List UInt8 := utf8 "content-length".toList

/-- The headers by their names in small letters; values are without blanks before them, and of two
with one name the last counts. -/
def headerMap (headers : List (List UInt8 × List UInt8)) : UMap (List UInt8) (List UInt8) :=
  headers.foldl (fun index header =>
    index.assign (header.1.map toLower) (header.2.dropWhile (· = byte ' '))) ∅

end RequestText

/-- A request whose body is framed by its length. -/
structure RequestText where
  method : List UInt8
  target : List UInt8
  headers : List (List UInt8 × List UInt8)
  body : List UInt8
  method_token : method ≠ [] ∧ method.all isTchar = true
  target_plain : target ≠ [] ∧ ∀ c ∈ target, c ≠ byte ' ' ∧ c ≠ 13
  headers_plain : ∀ header ∈ headers,
    header.1 ≠ [] ∧ header.1.all isTchar = true ∧ ∀ c ∈ header.2, c ≠ 13
  framed : match (RequestText.headerMap headers).find RequestText.contentLength with
    | none => body = []
    | some text => parseUlong text = some body.length

namespace RequestText

def requestLine (r : RequestText) : List UInt8 :=
  r.method ++ byte ' ' :: (r.target ++ byte ' ' :: utf8 ['H', 'T', 'T', 'P', '/', '1', '.', '1'])

def headerLine (header : List UInt8 × List UInt8) : List UInt8 :=
  header.1 ++ byte ':' :: header.2

/-- The lines up to the empty one. -/
def headerText (headers : List (List UInt8 × List UInt8)) : List UInt8 :=
  headers.flatMap (fun header => headerLine header ++ crlf) ++ crlf

def head (r : RequestText) : List UInt8 := r.requestLine ++ crlf ++ headerText r.headers

def encode (r : RequestText) : List UInt8 := r.head ++ r.body

/-- The request that the text means. -/
def decoded (r : RequestText) : HttpRequest :=
  match cutAt (byte '?') r.target with
  | none => ⟨r.method, r.target, r.body, headerMap r.headers, ∅⟩
  | some (path, query) =>
    ⟨r.method, path, r.body, headerMap r.headers, (query.splitOn (byte '&')).foldl addQueryParam ∅⟩

/-- The limits of the parser. -/
structure WithinLimits (r : RequestText) : Prop where
  count : r.headers.length ≤ MAX_HEADER_COUNT
  lengths : ∀ header ∈ r.headers,
    header.1.length ≤ MAX_HEADER_NAME_LENGTH ∧ header.2.length ≤ MAX_HEADER_VALUE_LENGTH

/-! ### Cutting texts -/

theorem cutLine_crlf {line : List UInt8} (h : 13 ∉ line) (rest : List UInt8) :
    cutLine (line ++ crlf ++ rest) = some (line, rest) := by
  induction line with
  | nil => rfl
  | cons c line ih =>
    have hc : c ≠ 13 := fun heq => h (heq ▸ List.mem_cons_self)
    have hline := ih fun hmem => h (List.mem_cons_of_mem _ hmem)
    rw [List.cons_append, List.cons_append, cutLine, hline]
    · rfl
    · rintro t rfl
      exact absurd rfl hc

theorem cutAt_append {c : UInt8} {s : List UInt8} (h : c ∉ s) (rest : List UInt8) :
    cutAt c (s ++ c :: rest) = some (s, rest) := by
  have hall : ∀ x ∈ s, (decide (x ≠ c)) = true := by
    intro x hx
    exact decide_eq_true fun heq => h (heq ▸ hx)
  unfold cutAt
  rw [List.dropWhile_append_of_pos hall, List.takeWhile_append_of_pos hall,
    List.dropWhile_cons_of_neg (by simp), List.takeWhile_cons_of_neg (by simp)]
  simp

theorem headLines_line {line : List UInt8} (h : 13 ∉ line) (front rest : List UInt8)
    (hne : front ++ line ≠ []) :
    headLines front (line ++ crlf ++ rest) =
      ((front ++ line) :: (headLines [] rest).1, (headLines [] rest).2) := by
  induction line generalizing front with
  | nil =>
    rw [List.append_nil] at hne ⊢
    change headLines front (13 :: 10 :: rest) = _
    rw [headLines, if_neg hne]
  | cons c line ih =>
    have hc : c ≠ 13 := fun heq => h (heq ▸ List.mem_cons_self)
    have hline := ih (fun hmem => h (List.mem_cons_of_mem _ hmem)) (front ++ [c]) (by simp)
    rw [List.cons_append, List.cons_append, headLines, hline]
    · simp
    · rintro t rfl
      exact absurd rfl hc

theorem headLines_lines {lines : List (List UInt8)} (h : ∀ line ∈ lines, line ≠ [] ∧ 13 ∉ line)
    (rest : List UInt8) :
    headLines [] (lines.flatMap (fun line => line ++ crlf) ++ crlf ++ rest) = (lines, rest) := by
  induction lines with
  | nil =>
    change headLines [] (13 :: 10 :: rest) = _
    rw [headLines, if_pos rfl]
  | cons line lines ih =>
    obtain ⟨hne, hline⟩ := h line List.mem_cons_self
    have hrest := ih fun other hother => h other (List.mem_cons_of_mem _ hother)
    rw [List.flatMap_cons, List.append_assoc, List.append_assoc,
      headLines_line hline [] _ (by simpa using hne), ← List.append_assoc, hrest]
    rfl

/-! ### Reading a head -/

theorem not_mem_of_isTchar {s : List UInt8} (h : s.all isTchar = true) {c : UInt8}
    (hc : isTchar c = false) : c ∉ s := by
  intro hmem
  have hyes := List.all_eq_true.mp h c hmem
  rw [hc] at hyes
  cases hyes

theorem isTchar_blank : isTchar (byte ' ') = false := by decide

theorem isTchar_colon : isTchar (byte ':') = false := by decide

theorem isTchar_return : isTchar 13 = false := by decide

theorem addHeader_line {header : List UInt8 × List UInt8} (htoken : header.1.all isTchar = true)
    (hname : header.1.length ≤ MAX_HEADER_NAME_LENGTH)
    (hvalue : header.2.length ≤ MAX_HEADER_VALUE_LENGTH)
    (index : UMap (List UInt8) (List UInt8)) :
    addHeader index (headerLine header) =
      some (index.assign (header.1.map toLower) (header.2.dropWhile (· = byte ' '))) := by
  unfold addHeader headerLine
  rw [cutAt_append (not_mem_of_isTchar htoken isTchar_colon)]
  dsimp only
  rw [if_neg (not_or.mpr ⟨Nat.not_lt.mpr hname, Nat.not_lt.mpr hvalue⟩),
    if_neg (not_not.mpr htoken)]

theorem foldlM_addHeader {headers : List (List UInt8 × List UInt8)}
    (h : ∀ header ∈ headers, header.1.all isTchar = true ∧
      header.1.length ≤ MAX_HEADER_NAME_LENGTH ∧ header.2.length ≤ MAX_HEADER_VALUE_LENGTH)
    (index : UMap (List UInt8) (List UInt8)) :
    (headers.map headerLine).foldlM addHeader index =
      some (headers.foldl (fun index header =>
        index.assign (header.1.map toLower) (header.2.dropWhile (· = byte ' '))) index) := by
  induction headers generalizing index with
  | nil => rfl
  | cons header headers ih =>
    obtain ⟨htoken, hname, hvalue⟩ := h header List.mem_cons_self
    rw [List.map_cons, List.foldlM_cons, addHeader_line htoken hname hvalue]
    exact ih (fun other hother => h other (List.mem_cons_of_mem _ hother)) _

variable {r : RequestText}

theorem not_mem_requestLine (r : RequestText) : 13 ∉ r.requestLine := by
  have hmethod := not_mem_of_isTchar r.method_token.2 isTchar_return
  have htarget : 13 ∉ r.target := fun h => (r.target_plain.2 13 h).2 rfl
  have hversion : 13 ∉ utf8 ['H', 'T', 'T', 'P', '/', '1', '.', '1'] := by decide
  have hblank : (13 : UInt8) ≠ byte ' ' := by decide
  unfold requestLine
  simp [hmethod, htarget, hversion, hblank]

theorem headerLine_plain {header : List UInt8 × List UInt8} (h : header ∈ r.headers) :
    headerLine header ≠ [] ∧ 13 ∉ headerLine header := by
  obtain ⟨hne, htoken, hvalue⟩ := r.headers_plain header h
  have hname := not_mem_of_isTchar htoken isTchar_return
  have hcolon : (13 : UInt8) ≠ byte ':' := by decide
  have hvalue : 13 ∉ header.2 := fun h => hvalue 13 h rfl
  unfold headerLine
  simp [hname, hvalue, hcolon]

/-- The parser takes what is behind the head as the body. -/
theorem parse_head (hlimits : r.WithinLimits) (body : List UInt8) :
    HttpRequest.parse (r.head ++ body) = some { r.decoded with body := body } := by
  have hmethod := not_mem_of_isTchar r.method_token.2 isTchar_blank
  have htarget : byte ' ' ∉ r.target := fun h => (r.target_plain.2 _ h).1 rfl
  have hlines : headLines [] (headerText r.headers ++ body) = (r.headers.map headerLine, body) := by
    have hplain : ∀ line ∈ r.headers.map headerLine, line ≠ [] ∧ 13 ∉ line := by
      intro line hline
      obtain ⟨header, hheader, rfl⟩ := List.mem_map.mp hline
      exact headerLine_plain hheader
    have hlines := headLines_lines hplain body
    rw [List.flatMap_map] at hlines
    exact hlines
  have hheaders : (r.headers.map headerLine).foldlM addHeader ∅ = some (headerMap r.headers) :=
    foldlM_addHeader (fun header hheader => ⟨(r.headers_plain header hheader).2.1,
      hlimits.lengths header hheader⟩) ∅
  have hcount : ¬ (r.headers.map headerLine).length > MAX_HEADER_COUNT := by
    rw [List.length_map]
    exact Nat.not_lt.mpr hlimits.count
  unfold head HttpRequest.parse
  rw [List.append_assoc, cutLine_crlf r.not_mem_requestLine, Option.bind_eq_bind, Option.bind_some]
  unfold requestLine
  dsimp only
  rw [cutAt_append hmethod, Option.bind_eq_bind, Option.bind_some]
  dsimp only
  rw [cutAt_append htarget, Option.bind_some]
  dsimp only
  rw [hlines]
  dsimp only
  rw [if_neg hcount, hheaders, Option.bind_some]
  unfold decoded
  cases cutAt (byte '?') r.target <;> rfl

end RequestText

end Alpine
