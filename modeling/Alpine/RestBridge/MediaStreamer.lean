import Alpine.RestBridge.ContentStore
import Alpine.RestBridge.HttpRequest

/-!
# Media files over HTTP

`serveFile` sends a file or a range of it. `parseRange` leaves what it has read of a header that it
then refuses in `start`, and `serveFile` begins there, behind headers that announce the whole file;
and the end of a range is not compared with its start.

`Serves` says what is to be sent for a header and a file size, whatever the file and whoever takes
it; `Fits` are the headers for which that is so.
-/

namespace Alpine

open Lib HttpRequest

/-- What a file has when it is sent. -/
abbrev MediaFile := List UInt8

structure FileHeaders where
  status : Nat
  statusText : String
  mime : List Char
  contentLen : Nat
  rangeStart : Nat
  rangeEnd : Nat
  totalSize : Nat
  deriving DecidableEq, Repr

inductive MediaAnswer where
  | error (status : Nat) (statusText : String)
  /-- A file, with what of it was written, and whether no `send` of it failed. -/
  | file (headers : FileHeaders) (body : List UInt8) (complete : Bool)
  deriving DecidableEq, Repr

namespace MediaStreamer

def SEND_BUFFER_SIZE : Nat := 65536

/-- The difference of two `ulong`s. -/
def subUlong (a b : Nat) : Nat := (a + 2 ^ 64 - b) % 2 ^ 64

def addUlong (a b : Nat) : Nat := (a + b) % 2 ^ 64

/-- The calls of `send` take so many bytes, or fail if that is none; what the loop says, what it has
written, and the calls to come. -/
def sendAllBytes : List Nat → List UInt8 → Bool × List UInt8 × List Nat
  | takes, [] => (true, [], takes)
  | [], _ :: _ => (false, [], [])
  | 0 :: takes, _ :: _ => (false, [], takes)
  | (n + 1) :: takes, b :: data =>
    let (ok, sent, takes) := sendAllBytes takes (data.drop n)
    (ok, b :: data.take n ++ sent, takes)

/-- The loop of `serveFile`, over what the file has from its position on. -/
def sendContents (takes : List Nat) (remaining : Nat) (contents : List UInt8) :
    Bool × List UInt8 :=
  if remaining = 0 then (true, [])
  else
    let toRead := if remaining < SEND_BUFFER_SIZE then remaining else SEND_BUFFER_SIZE
    let buffer := contents.take toRead
    if _hbuffer : buffer = [] then (true, [])
    else
      let (ok, sent, takes) := sendAllBytes takes buffer
      if ok then
        let (ok, more) := sendContents takes (remaining - buffer.length) (contents.drop toRead)
        (ok, sent ++ more)
      else (false, sent)
termination_by contents.length
decreasing_by
  have hlength := List.length_pos_iff.mpr _hbuffer
  rw [List.length_take] at hlength
  rw [List.length_drop]
  omega

/-- The last part of `parseRange`, behind both `substr`. -/
def parseBounds (fileSize start stop : Nat) (startStr endStr : List UInt8) : Bool × Nat × Nat :=
  if startStr = [] ∧ endStr ≠ [] then
    match parseUlong endStr with
    | none => (false, start, stop)
    | some suffix =>
      let suffix := if suffix > fileSize then fileSize else suffix
      (true, subUlong fileSize suffix, subUlong fileSize 1)
  else if startStr ≠ [] then
    match parseUlong startStr with
    | none => (false, start, stop)
    | some start =>
      match if endStr = [] then some (subUlong fileSize 1) else parseUlong endStr with
      | none => (false, start, stop)
      | some stop =>
        if start ≥ fileSize then (false, start, stop)
        else (true, start, if stop ≥ fileSize then subUlong fileSize 1 else stop)
  else (false, start, stop)

/-- The result, with what is in `start` and `end` at the return. -/
def parseRange (rangeHeader : List UInt8) (fileSize start stop : Nat) : Bool × Nat × Nat :=
  if fileSize = 0 then (false, start, stop)
  else
    match cutAt (byte '=') rangeHeader with
    | none => (false, start, stop)
    | some (_, range) =>
      match cutAt (byte '-') range with
      | none => (false, start, stop)
      | some (startStr, endStr) => parseBounds fileSize start stop startStr endStr

/-- The position after `fseek`, which fails for an offset that is negative as a `long`. -/
def seek (offset : Nat) : Nat := if offset < 2 ^ 63 then offset else 0

def sendFile (mime : List Char) (fileSize : Nat) (rangeHeader : List UInt8) (file : MediaFile)
    (takes : List Nat) : MediaAnswer :=
  if fileSize = 0 then .file ⟨200, "OK", mime, 0, 0, 0, 0⟩ [] true
  else
    let range := if rangeHeader = [] then (false, 0, subUlong fileSize 1)
      else parseRange rangeHeader fileSize 0 (subUlong fileSize 1)
    let (hasRange, rangeStart, rangeEnd) := range
    let contentLen := addUlong (subUlong rangeEnd rangeStart) 1
    let headers : FileHeaders :=
      if hasRange then ⟨206, "Partial Content", mime, contentLen, rangeStart, rangeEnd, fileSize⟩
      else ⟨200, "OK", mime, fileSize, 0, 0, fileSize⟩
    let remaining := addUlong (subUlong rangeEnd rangeStart) 1
    let (complete, body) := sendContents takes remaining (file.drop (seek rangeStart))
    .file headers body complete

/-- `files` are those that can be opened. -/
def serveFile (store : ContentStore) (files : MediaPath → Option MediaFile) (takes : List Nat)
    (mediaId : MediaId) (rangeHeader : List UInt8) : Bool × MediaAnswer :=
  match store.getItem mediaId with
  | none => (false, .error 404 "Not Found")
  | some item =>
    match files item.path with
    | none => (false, .error 500 "Internal Server Error")
    | some file => (true, sendFile item.mimeType item.fileSize.toNat rangeHeader file takes)

end MediaStreamer

/-! ## What a header asks for -/

/-- The forms of a single byte range. -/
inductive RangeForm where
  | bounded (first last : Nat)
  | onwards (first : Nat)
  | suffix (length : Nat)
  deriving DecidableEq, Repr

inductive RangeDemand where
  | whole
  | part (start stop : Nat)
  | unsatisfiable
  deriving DecidableEq, Repr

namespace RangeForm

/-- A number of any length. -/
def number (s : List UInt8) : Option Nat :=
  if s = [] ∨ ¬ s.all (fun c => 48 ≤ c && c ≤ 57) then none
  else some (s.foldl (fun n c => 10 * n + (c.toNat - 48)) 0)

def isBytes (unit : List UInt8) : Bool := unit.map toLower = utf8 "bytes".toList

def ofBounds (first last : List UInt8) : Option RangeForm :=
  if first = [] then (number last).map suffix
  else
    (number first).bind fun first =>
      if last = [] then some (onwards first) else (number last).map (bounded first)

/-- The form of a header; `none` for other units, several ranges and all that is malformed. -/
def ofHeader (rangeHeader : List UInt8) : Option RangeForm := do
  let (unit, range) ← cutAt (byte '=') rangeHeader
  let (first, last) ← cutAt (byte '-') range
  if isBytes unit then ofBounds first last else none

def demand (fileSize : Nat) : RangeForm → RangeDemand
  | bounded first last =>
    if first ≤ last ∧ first < fileSize then .part first (min last (fileSize - 1))
    else .unsatisfiable
  | onwards first => if first < fileSize then .part first (fileSize - 1) else .unsatisfiable
  | suffix length =>
    if 0 < length ∧ 0 < fileSize then .part (fileSize - min length fileSize) (fileSize - 1)
    else .unsatisfiable

end RangeForm

def rangeDemand (fileSize : Nat) (rangeHeader : List UInt8) : RangeDemand :=
  (RangeForm.ofHeader rangeHeader).elim .whole (·.demand fileSize)

/-- An answer is what is asked for. Of a range that cannot be sent nothing is asked but that no
other is announced in its place with a length that is not its own. -/
def RangeDemand.Met (fileSize : Nat) (file : MediaFile) (headers : FileHeaders)
    (body : List UInt8) (complete : Bool) : RangeDemand → Prop
  | .whole => headers.status = 200 ∧ headers.contentLen = fileSize ∧
    (complete → body = file.take fileSize)
  | .part start stop => headers.status = 206 ∧ headers.rangeStart = start ∧
    headers.rangeEnd = stop ∧ headers.totalSize = fileSize ∧ start ≤ stop ∧ stop < fileSize ∧
    headers.contentLen = stop - start + 1 ∧
    (complete → body = (file.drop start).take (stop - start + 1))
  | .unsatisfiable => headers.status = 206 → headers.rangeStart ≤ headers.rangeEnd ∧
    headers.rangeEnd < fileSize ∧ headers.contentLen = headers.rangeEnd - headers.rangeStart + 1

/-- A size that `stat` may say. -/
structure FileSize where
  value : UInt64
  lt : value.toNat < 2 ^ 63

namespace MediaStreamer

/-- The difference of the bounds that `serveFile` has does not wrap. -/
def InOrder (fileSize : Nat) (rangeHeader : List UInt8) : Prop :=
  fileSize ≠ 0 → (parseRange rangeHeader fileSize 0 (fileSize - 1)).2.1 ≤
    (parseRange rangeHeader fileSize 0 (fileSize - 1)).2.2

/-- Whatever the file, if it has not become shorter, and whatever `send` takes of it, the answer to
a header is what the header asks for, and has the length that it announces. -/
def Serves (fileSize : FileSize) (rangeHeader : List UInt8) : Prop :=
  InOrder fileSize.value.toNat rangeHeader ∧
    ∀ store mediaId item files file takes, store.getItem mediaId = some item →
      item.fileSize = fileSize.value → files item.path = some file →
      fileSize.value.toNat ≤ file.length →
      ∃ headers body complete,
        serveFile store files takes mediaId rangeHeader = (true, .file headers body complete) ∧
        (rangeDemand fileSize.value.toNat rangeHeader).Met fileSize.value.toNat file headers body
          complete ∧
        (complete → body.length = headers.contentLen)

/-- The two sides of a range that are served as asked for. -/
def FitsBounds (fileSize : Nat) (bytes : Bool) (first last : List UInt8) : Prop :=
  if first = [] then
    match parseUlong last with
    | some suffix => bytes ∧ suffix ≠ 0
    | none => bytes → RangeForm.number last = none
  else
    match parseUlong first with
    | none => True
    | some start =>
      if last = [] then bytes ∧ start < fileSize
      else
        match parseUlong last with
        | some stop => (bytes ∧ start < fileSize ∧ start ≤ stop) ∨
          (2 ^ 63 ≤ start ∧ stop + 1 = start + fileSize)
        | none => start = 0 ∧ (bytes → RangeForm.number last = none)

/-- The unit is bytes where the numbers are read, they are in order and inside the file and have 64
bits, and no number is read before one that is not, except zero. (Or else `fseek` fails, and as many
bytes are to be sent as the file has.) -/
def Fits (fileSize : Nat) (rangeHeader : List UInt8) : Prop :=
  fileSize = 0 ∨
    match cutAt (byte '=') rangeHeader with
    | none => True
    | some (unit, range) =>
      match cutAt (byte '-') range with
      | none => True
      | some (first, last) => FitsBounds fileSize (RangeForm.isBytes unit) first last

end MediaStreamer

end Alpine
