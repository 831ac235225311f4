import Alpine.TransBase.DataBuffer
import Mathlib.Data.List.TakeWhile

/-!
# Query packets

`AlpineQueryPacket` is one class for the four packets of a query. What its type carries is written
to the buffer, then the extension block or the list of resources, and last a byte of priority.
Extensions come from modules of their own, `QueryOptionData`; a `std::string` is its bytes, and
only those without a NUL are modelled. The trace context never goes on the wire.

A resource that was copied without an option has an uninitialised pointer to option data in the
source. Here it has none.
-/

namespace Alpine

open Lib

def maxStringLen : Nat := 65536
def maxHits : Nat := 10000
def maxReplySetSize : Nat := 10000

/-- A string without a NUL. -/
abbrev CString := { bytes : List UInt8 // (0 : UInt8) ∉ bytes }

namespace CString

def empty : CString := ⟨[], List.not_mem_nil⟩

def size (s : CString) : Nat := s.val.length

/-- `reinterpret_cast<const char *> (curr)` as a string. -/
def ofBytes (curr : List UInt8) : CString :=
  ⟨curr.takeWhile (· != 0), fun h => by simpa using List.mem_takeWhile_imp h⟩

end CString

/-- `strcpy`, and `curr` moves on by `size () + 1`. -/
def putString (s : CString) : List UInt8 := s.val ++ [0]

/-- A null terminator among the first bytes. -/
def verifyStringData (data : List UInt8) (dataLength : Nat) : Bool :=
  (data.take (min dataLength maxStringLen)).any (· == 0)

/-- The search for it runs past the end of the buffer. -/
def scansPast (curr : List UInt8) (dataLength : Nat) : Bool :=
  curr.length < min dataLength maxStringLen && curr.all (· != 0)

/-- The string at `curr`, once verified, and `readLength` and `curr` after it. -/
def getString (bufferSize readLength : Nat) (curr : List UInt8) :
    Except ReadError (CString × Nat × List UInt8) :=
  if readLength > bufferSize then .error .failed
  else if scansPast curr (bufferSize - readLength) then .error .overRead
  else if verifyStringData curr (bufferSize - readLength) = false then .error .failed
  else
    let s := CString.ofBytes curr
    .ok (s, readLength + s.size + 1, curr.drop (s.size + 1))

/-- `static_cast<short> (ntohl (*(reinterpret_cast<short *> (curr))))`, for the word at `curr`: it
is widened to 32 bits with its sign before the bytes are reversed. -/
def ntohlShort (word : Nat) : Nat :=
  ntohl (if word < 2 ^ 15 then word else word + (2 ^ 32 - 2 ^ 16)) % 2 ^ 16

def getShortByNtohl (curr : List UInt8) : Except ReadError (Nat × List UInt8) := do
  let (word, curr) ← load sizeofShort curr
  return (ntohlShort word, curr)

/-- `AlpineQueryOptionData`, and the index that makes the data of an option id. -/
class QueryOptionData (δ : Type) where
  getOptionId : δ → Nat
  getOptionDataLength : δ → Nat
  writeData : δ → DataBuffer → Bool × DataBuffer
  readData : δ → DataBuffer → Except ReadError (δ × DataBuffer)
  /-- `AlpineExtensionIndex::getQueryOptionExt`. -/
  getQueryOptionExt : Nat → Option δ

/-- The extension named on the wire reads its data. -/
def readExtension {δ : Type} [QueryOptionData δ] (optionId : Nat) (linkBuffer : DataBuffer) :
    Except ReadError (δ × DataBuffer) :=
  match QueryOptionData.getQueryOptionExt optionId with
  | none => .error .failed
  | some optionData => QueryOptionData.readData optionData linkBuffer

/-! ## Resources -/

/-- `AlpineResourceDesc`. The option's id is that of its data; they are set together. -/
structure ResourceDesc (δ : Type) where
  matchId : Nat
  size : Nat
  locatorList : List CString
  description : CString
  optionData : Option δ
  deriving DecidableEq

namespace ResourceDesc

variable {δ : Type} [QueryOptionData δ]

def optionId (desc : ResourceDesc δ) : Nat :=
  match desc.optionData with
  | none => 0
  | some optionData => QueryOptionData.getOptionId optionData

/-- What is stored of a resource, each with a check that it fits. -/
def fields (desc : ResourceDesc δ) : List (List UInt8) :=
  [putLong desc.matchId, putLong desc.size, putShort desc.locatorList.length,
    desc.locatorList.flatMap putString, putString desc.description, putLong desc.optionId]

def optionLength (desc : ResourceDesc δ) : Nat :=
  match desc.optionData with
  | none => 0
  | some optionData =>
    if desc.optionId ≠ 0 then QueryOptionData.getOptionDataLength optionData else 0

/-- A resource's share in `calculateResourceListSize`. -/
def dataSize (desc : ResourceDesc δ) : Nat :=
  sizeofLong + sizeofLong + sizeofShort + (desc.locatorList.map fun s => s.size + 1).sum +
    (desc.description.size + 1) + sizeofLong + desc.optionLength

def writeOption (desc : ResourceDesc δ) (linkBuffer : DataBuffer) : Bool × DataBuffer :=
  match desc.optionData with
  | none => (true, linkBuffer)
  | some optionData =>
    if desc.optionId ≠ 0 then QueryOptionData.writeData optionData linkBuffer
    else (true, linkBuffer)

/-- The loop of `writeResourceListData`. -/
def writeList : List (ResourceDesc δ) → DataBuffer → Bool × DataBuffer
  | [], linkBuffer => (true, linkBuffer)
  | desc :: list, linkBuffer =>
    match linkBuffer.getWriteBuffer with
    | none => (false, linkBuffer)
    | some bufferSize =>
      match writeFields bufferSize [] desc.fields with
      | none => (false, linkBuffer)
      | some written =>
        let (status, linkBuffer) := desc.writeOption (linkBuffer.append written)
        if status = false then (false, linkBuffer) else writeList list linkBuffer

/-- The loop over the locators of a resource. -/
def readLocators (bufferSize : Nat) :
    Nat → Nat → List UInt8 → Except ReadError (List CString × Nat × List UInt8)
  | 0, readLength, curr => .ok ([], readLength, curr)
  | expected + 1, readLength, curr => do
    let (s, readLength, curr) ← getString bufferSize readLength curr
    let (locatorList, readLength, curr) ← readLocators bufferSize expected readLength curr
    return (s :: locatorList, readLength, curr)

/-- One pass of the loop of `readResourceListData`. -/
def readOne (linkBuffer : DataBuffer) : Except ReadError (ResourceDesc δ × DataBuffer) :=
  match linkBuffer.getReadBuffer with
  | none => .error .failed
  | some buffer => do
    let bufferSize := buffer.length
    let readLength := sizeofLong
    if readLength > bufferSize then .error .failed
    let (matchId, curr) ← getLong buffer
    let readLength := readLength + sizeofLong
    if readLength > bufferSize then .error .failed
    let (size, curr) ← getLong curr
    let readLength := readLength + sizeofShort
    if readLength > bufferSize then .error .failed
    let (expectedListLength, curr) ← getShort curr
    let (locatorList, readLength, curr) ←
      readLocators bufferSize expectedListLength readLength curr
    let (description, readLength, curr) ← getString bufferSize readLength curr
    let readLength := readLength + sizeofLong
    if readLength > bufferSize then .error .failed
    let (optionId, _) ← getLong curr
    let linkBuffer := linkBuffer.addReadBytes readLength
    if optionId = 0 then
      return (⟨matchId, size, locatorList, description, none⟩, linkBuffer)
    else do
      let (optionData, linkBuffer) ← readExtension optionId linkBuffer
      return (⟨matchId, size, locatorList, description, some optionData⟩, linkBuffer)

/-- The loop of `readResourceListData`: it ends when the list has `replySetSize` resources.
Every pass but the extension's part of it takes bytes off the buffer, so their number bounds the
passes. -/
def readList (replySetSize : Nat) :
    Nat → List (ResourceDesc δ) → DataBuffer → Except ReadError (List (ResourceDesc δ) × DataBuffer)
  | 0, _, _ => .error .failed
  | fuel + 1, list, linkBuffer => do
    let (desc, linkBuffer) ← readOne linkBuffer
    let list := list ++ [desc]
    if list.length = replySetSize then return (list, linkBuffer)
    else readList replySetSize fuel list linkBuffer

end ResourceDesc

/-! ## Packets -/

/-- `AlpinePacket::t_PacketType`, as far as a query packet takes it. -/
inductive QueryPacketType where
  | none | queryDiscover | queryOffer | queryRequest | queryReply
  deriving DecidableEq, Repr

structure QueryPacket (π δ : Type) where
  parent : Option π
  packetType : QueryPacketType
  queryId : Nat
  optionId : Nat
  optionData : Option δ
  queryString : CString
  numHits : Nat
  uploadSlots : Nat
  offset : Nat
  replySetSize : Nat
  priority : UInt8
  resourceList : Option (List (ResourceDesc δ))

namespace QueryPacket

variable {π δ : Type}

/-- A packet as constructed, with its type set. -/
def fresh (packetType : QueryPacketType) : QueryPacket π δ :=
  { parent := none, packetType, queryId := 0, optionId := 0, optionData := none
    queryString := .empty, numHits := 0, uploadSlots := 0, offset := 0, replySetSize := 0
    priority := 128, resourceList := none }

/-- What is stored before the option or the list. For a packet without a type the query id is
stored, and overwritten by the priority. -/
def fixedFields (p : QueryPacket π δ) : List UInt8 :=
  match p.packetType with
  | .none => []
  | .queryDiscover => putLong p.queryId ++ putString p.queryString ++ putLong p.optionId
  | .queryOffer =>
    putLong p.queryId ++ putLong p.numHits ++ putShort p.uploadSlots ++ putLong p.optionId
  | .queryRequest =>
    putLong p.queryId ++ putLong p.offset ++ putShort p.replySetSize ++ putString p.queryString ++
      putLong p.optionId
  | .queryReply => putLong p.queryId ++ putShort p.replySetSize

variable [QueryOptionData δ]

def optionLength (p : QueryPacket π δ) : Nat :=
  match p.optionData with
  | none => 0
  | some optionData =>
    if p.optionId ≠ 0 then QueryOptionData.getOptionDataLength optionData else 0

def calculateResourceListSize (p : QueryPacket π δ) : Nat :=
  match p.resourceList with
  | none => 0
  | some list => (list.map ResourceDesc.dataSize).sum

/-- The length that is checked against the room. -/
def writeLength (p : QueryPacket π δ) : Nat :=
  match p.packetType with
  | .none => 0
  | .queryDiscover => sizeofLong + sizeofLong + p.queryString.size + 1 + p.optionLength
  | .queryOffer => sizeofLong + sizeofLong + sizeofShort + sizeofLong + p.optionLength
  | .queryRequest =>
    sizeofLong + sizeofLong + sizeofShort + sizeofLong + p.queryString.size + 1 + p.optionLength
  | .queryReply => p.calculateResourceListSize + (sizeofLong + sizeofShort)

def writeOption (p : QueryPacket π δ) (linkBuffer : DataBuffer) : Bool × DataBuffer :=
  match p.optionData with
  | none => (true, linkBuffer)
  | some optionData =>
    if p.optionId ≠ 0 then QueryOptionData.writeData optionData linkBuffer else (true, linkBuffer)

def writeResourceListData (p : QueryPacket π δ) (linkBuffer : DataBuffer) : Bool × DataBuffer :=
  match p.resourceList with
  | none => (false, linkBuffer)
  | some [] => (false, linkBuffer)
  | some list => ResourceDesc.writeList list linkBuffer

/-- What follows the fixed fields. -/
def writeRest (p : QueryPacket π δ) (linkBuffer : DataBuffer) : Bool × DataBuffer :=
  match p.packetType with
  | .none => (true, linkBuffer)
  | .queryReply => p.writeResourceListData linkBuffer
  | _ => p.writeOption linkBuffer

def writeData [StackLinkInterface π] (p : QueryPacket π δ) (linkBuffer : DataBuffer) :
    Bool × DataBuffer :=
  match linkBuffer.getWriteBuffer with
  | none => (false, linkBuffer)
  | some bufferSize =>
    if p.packetType = .queryReply ∧ p.resourceList.isNone then (false, linkBuffer)
    else if bufferSize < uint p.writeLength then (false, linkBuffer)
    else
      let (status, linkBuffer) := p.writeRest (linkBuffer.append p.fixedFields)
      if status = false then (false, linkBuffer)
      else
        match linkBuffer.getWriteBuffer with
        | none => (false, linkBuffer)
        | some _ =>
          let linkBuffer := linkBuffer.append [p.priority]
          match p.parent with
          | none => (true, linkBuffer)
          | some parent =>
            -- The layer returns false with a parent set, whatever the parent reports.
            (false, (StackLinkInterface.writeData parent linkBuffer).2)

/-- The least length of a packet of this type. -/
def minimumLength : QueryPacketType → Nat
  | .none => 0
  | .queryDiscover => sizeofLong + sizeofLong + 2
  | .queryOffer => sizeofLong + sizeofLong + sizeofShort + sizeofLong
  | .queryRequest => sizeofLong + sizeofLong + sizeofShort + sizeofLong + 2
  | .queryReply => sizeofLong + sizeofShort + sizeofLong * 3 + 2 + 2

/-- The option, if the id read names one. -/
def readOption (p : QueryPacket π δ) (linkBuffer : DataBuffer) :
    Except ReadError (QueryPacket π δ × DataBuffer) :=
  if p.optionId = 0 then .ok (p, linkBuffer)
  else do
    let (optionData, linkBuffer) ← readExtension p.optionId linkBuffer
    return ({ p with optionData := some optionData }, linkBuffer)

def readDiscover (p : QueryPacket π δ) (bufferSize readLength : Nat) (curr : List UInt8)
    (linkBuffer : DataBuffer) : Except ReadError (QueryPacket π δ × DataBuffer) := do
  let (queryString, readLength, curr) ← getString bufferSize readLength curr
  if readLength + sizeofLong > bufferSize then .error .failed
  let (optionId, _) ← getLong curr
  let linkBuffer := linkBuffer.addReadBytes (readLength + sizeofLong)
  { p with queryString, optionId }.readOption linkBuffer

def readOffer (p : QueryPacket π δ) (readLength : Nat) (curr : List UInt8)
    (linkBuffer : DataBuffer) : Except ReadError (QueryPacket π δ × DataBuffer) := do
  let (numHits, curr) ← getLong curr
  if numHits > maxHits then .error .failed
  let (uploadSlots, curr) ← getShortByNtohl curr
  let (optionId, _) ← getLong curr
  let linkBuffer :=
    linkBuffer.addReadBytes (readLength + sizeofLong + sizeofShort + sizeofLong)
  { p with numHits, uploadSlots, optionId }.readOption linkBuffer

def readRequest (p : QueryPacket π δ) (bufferSize readLength : Nat) (curr : List UInt8)
    (linkBuffer : DataBuffer) : Except ReadError (QueryPacket π δ × DataBuffer) := do
  let (offset, curr) ← getLong curr
  let (replySetSize, curr) ← getShortByNtohl curr
  if replySetSize > maxReplySetSize then .error .failed
  let (queryString, readLength, curr) ←
    getString bufferSize (readLength + sizeofLong + sizeofShort) curr
  if readLength + sizeofLong > bufferSize then .error .failed
  let (optionId, _) ← getLong curr
  let linkBuffer := linkBuffer.addReadBytes (readLength + sizeofLong)
  { p with offset, replySetSize, queryString, optionId }.readOption linkBuffer

def readResourceListData (p : QueryPacket π δ) (linkBuffer : DataBuffer) :
    Except ReadError (QueryPacket π δ × DataBuffer) := do
  let (list, linkBuffer) ←
    ResourceDesc.readList p.replySetSize (linkBuffer.readRemaining + 1) [] linkBuffer
  return ({ p with resourceList := some list }, linkBuffer)

def readReply (p : QueryPacket π δ) (readLength : Nat) (curr : List UInt8)
    (linkBuffer : DataBuffer) : Except ReadError (QueryPacket π δ × DataBuffer) := do
  let (replySetSize, _) ← getShortByNtohl curr
  if replySetSize > maxReplySetSize then .error .failed
  let linkBuffer := linkBuffer.addReadBytes (readLength + sizeofShort)
  { p with replySetSize }.readResourceListData linkBuffer

/-- A packet of an older version has no priority. -/
def readPriority (p : QueryPacket π δ) (linkBuffer : DataBuffer) : QueryPacket π δ × DataBuffer :=
  match linkBuffer.getReadBuffer with
  | some (priority :: _) => ({ p with priority }, linkBuffer.addReadBytes 1)
  | _ => ({ p with priority := 128 }, linkBuffer)

/-- What follows the query id. -/
def readBody (p : QueryPacket π δ) (bufferSize : Nat) (curr : List UInt8)
    (linkBuffer : DataBuffer) : Except ReadError (QueryPacket π δ × DataBuffer) :=
  match p.packetType with
  | .none => .ok (p, linkBuffer)
  | .queryDiscover => p.readDiscover bufferSize sizeofLong curr linkBuffer
  | .queryOffer => p.readOffer sizeofLong curr linkBuffer
  | .queryRequest => p.readRequest bufferSize sizeofLong curr linkBuffer
  | .queryReply => p.readReply sizeofLong curr linkBuffer

def readData (p : QueryPacket π δ) (linkBuffer : DataBuffer) :
    Except ReadError (QueryPacket π δ × DataBuffer) :=
  match linkBuffer.getReadBuffer with
  | none => .error .failed
  | some buffer => do
    if buffer.length < minimumLength p.packetType then .error .failed
    let (queryId, curr) ← getLong buffer
    let (p, linkBuffer) ← { p with queryId }.readBody buffer.length curr linkBuffer
    return p.readPriority linkBuffer

end QueryPacket

end Alpine
