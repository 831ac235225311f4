import Alpine.Lib.Json
import Alpine.Lib.Utf8

/-!
# The JSON reader

`JsonReader` gives the strings and numbers among the members of an object in a request. The parser
is a library's: `JsonLibrary` is what it does with a byte string and which numbers it can store, and
`JsonLibrary.Lawful` that it reads every document whose numbers it can store and throws
`out_of_range` at the others. The reader does not catch that exception.
-/

namespace Alpine

open Lib

/-- What the parser does with its input. -/
inductive ParseOutcome where
  | document (v : Json)
  | parseError
  | outOfRange

structure JsonLibrary where
  parse : List UInt8 → ParseOutcome
  fits : JsonNumber → Bool

mutual

/-- The numbers in a value. -/
def numbers : Json → List JsonNumber
  | .num n => [n]
  | .array items => numbersOfItems items
  | .object members => numbersOfMembers members
  | _ => []

def numbersOfItems : List Json → List JsonNumber
  | [] => []
  | v :: items => numbers v ++ numbersOfItems items

def numbersOfMembers : List (List Char × Json) → List JsonNumber
  | [] => []
  | (_, v) :: members => numbers v ++ numbersOfMembers members

end

structure JsonLibrary.Lawful (library : JsonLibrary) : Prop where
  reads : ∀ text v, Lib.parse text = some v → (numbers v).all library.fits = true →
    library.parse (utf8 text) = .document v
  overflows : ∀ text v, Lib.parse text = some v → (numbers v).all library.fits = false →
    library.parse (utf8 text) = .outOfRange

/-- The members of the document, if it can be used. -/
structure JsonReader where
  doc : Option (List (List Char × Json))

namespace JsonReader

def MAX_INPUT_LENGTH : Nat := 65536

def MAX_STRING_LENGTH : Nat := 4096

def MAX_NESTING_DEPTH : Nat := 32

def MAX_KEYS_PER_OBJECT : Nat := 256

/-- The members of the map that the parser makes of an object: the last of each name. -/
def lastMembers : List (List Char × Json) → List (List Char × Json)
  | [] => []
  | (key, v) :: members =>
    if members.any fun m => m.1 = key then lastMembers members
    else (key, v) :: lastMembers members

mutual

def checkDepthAndKeys : Json → Nat → Bool
  | .object members, depth =>
    depth ≤ MAX_NESTING_DEPTH && (lastMembers members).length ≤ MAX_KEYS_PER_OBJECT &&
      checkMembers members (depth + 1)
  | .array items, depth => depth ≤ MAX_NESTING_DEPTH && checkItems items (depth + 1)
  | _, depth => depth ≤ MAX_NESTING_DEPTH

def checkItems : List Json → Nat → Bool
  | [], _ => true
  | v :: items, depth => checkDepthAndKeys v depth && checkItems items depth

/-- The members of the map are checked. -/
def checkMembers : List (List Char × Json) → Nat → Bool
  | [], _ => true
  | (key, v) :: members, depth =>
    (members.any (fun m => m.1 = key) || checkDepthAndKeys v depth) && checkMembers members depth

end

/-- `none` is an exception that leaves the constructor. -/
def new (library : JsonLibrary) (json : List UInt8) : Option JsonReader :=
  if json.length > MAX_INPUT_LENGTH then some ⟨none⟩
  else
    match library.parse json with
    | .outOfRange => none
    | .parseError => some ⟨none⟩
    | .document (.object members) =>
      if checkDepthAndKeys (.object members) 0 then some ⟨some members⟩ else some ⟨none⟩
    | .document _ => some ⟨none⟩

/-- The member of the map with a name. -/
def find (members : List (List Char × Json)) (key : List Char) : Option Json :=
  (members.findRev? fun m => m.1 = key).map Prod.snd

/-- A string that is too long is cut. -/
def getString (reader : JsonReader) (key : List Char) : Option (List UInt8) := do
  match find (← reader.doc) key with
  | some (.str s) => some ((utf8 s).take MAX_STRING_LENGTH)
  | _ => none

/-- The numbers that are stored as unsigned. -/
def isUnsigned (n : JsonNumber) : Bool :=
  !n.negative && n.fraction = [] && n.exponent = none && n.integer < 2 ^ 64

def getUlong (reader : JsonReader) (key : List Char) : Option Nat := do
  match find (← reader.doc) key with
  | some (.num n) => if isUnsigned n then some n.integer else none
  | _ => none

end JsonReader

end Alpine
