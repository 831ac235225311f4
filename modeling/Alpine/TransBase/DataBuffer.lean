import Alpine.Lib.Wire

/-!
# Data buffers and links

The buffer every packet class writes to and reads from, and what the packet classes store in
it. The host is the one the build runs on: `long` is 64 bits, low byte first, so a `ulong`
takes eight bytes of a packet (the layout comments say four) and `htonl` leaves its network
order value in the first four of them.

A read that would pass the end of the bytes handed out by `getReadBuffer` is an outcome of its
own (`ReadError.overRead`), apart from a `readData` that returns false. Bytes stored past
`dataSize` by a `writeData` that then returns false are not modelled: nothing reads them.
-/

namespace Alpine

open Lib

/-- The wrap-around of the 32-bit `uint` that holds lengths. -/
def uint (n : Nat) : Nat := n % 2 ^ 32

def htonl (v : Nat) : Nat := swap 4 v
def ntohl (v : Nat) : Nat := swap 4 v
def htons (v : Nat) : Nat := swap 2 v
def ntohs (v : Nat) : Nat := swap 2 v

def sizeofLong : Nat := 8
def sizeofShort : Nat := 2

inductive ReadError where
  /-- `readData` returned false. -/
  | failed
  /-- A load ran past the end of the buffer. -/
  | overRead
  deriving DecidableEq, Repr

/-- `*(reinterpret_cast<ulong *>(curr)) = htonl (v)`. -/
def putLong (v : Nat) : List UInt8 := storeLE sizeofLong (htonl v)

/-- `*(reinterpret_cast<ushort *>(curr)) = htons (v)`. -/
def putShort (v : Nat) : List UInt8 := storeLE sizeofShort (htons v)

/-- The word at `curr`, and `curr` after it. -/
def load (size : Nat) (curr : List UInt8) : Except ReadError (Nat × List UInt8) :=
  if curr.length < size then .error .overRead
  else .ok (loadLE (curr.take size), curr.drop size)

/-- `ntohl (*(reinterpret_cast<ulong *>(curr)))`. -/
def getLong (curr : List UInt8) : Except ReadError (Nat × List UInt8) := do
  let (v, curr) ← load sizeofLong curr
  return (ntohl v, curr)

/-- `ntohs (*(reinterpret_cast<ushort *>(curr)))`. -/
def getShort (curr : List UInt8) : Except ReadError (Nat × List UInt8) := do
  let (v, curr) ← load sizeofShort curr
  return (ntohs v, curr)

theorem load_storeLE (n v : Nat) (rest : List UInt8) :
    load n (storeLE n v ++ rest) = .ok (v % 256 ^ n, rest) := by
  have h : ¬ (storeLE n v ++ rest).length < n := by simp
  unfold load
  rw [if_neg h, List.take_left' (length_storeLE n v), List.drop_left' (length_storeLE n v),
    loadLE_storeLE]

theorem htonl_lt (v : Nat) : htonl v < 2 ^ 32 := swap_lt 4 v

theorem htons_lt (v : Nat) : htons v < 2 ^ 16 := swap_lt 2 v

@[simp] theorem length_putLong (v : Nat) : (putLong v).length = 8 := length_storeLE _ _

@[simp] theorem length_putShort (v : Nat) : (putShort v).length = 2 := length_storeLE _ _

/-- A `ulong` field keeps its low 32 bits on the wire. -/
@[simp] theorem getLong_putLong (v : Nat) (rest : List UInt8) :
    getLong (putLong v ++ rest) = .ok (v % 2 ^ 32, rest) := by
  have hlt : htonl v < 256 ^ sizeofLong := lt_trans (htonl_lt v) (by decide)
  have hswap : ntohl (htonl v) = v % 2 ^ 32 := swap_swap 4 v
  unfold getLong putLong
  rw [load_storeLE, Nat.mod_eq_of_lt hlt]
  simp only [Except.bind, bind, pure, Except.pure, hswap]

@[simp] theorem getShort_putShort (v : Nat) (rest : List UInt8) :
    getShort (putShort v ++ rest) = .ok (v % 2 ^ 16, rest) := by
  have hlt : htons v < 256 ^ sizeofShort := lt_of_lt_of_eq (htons_lt v) (by decide)
  have hswap : ntohs (htons v) = v % 2 ^ 16 := swap_swap 2 v
  unfold getShort putShort
  rw [load_storeLE, Nat.mod_eq_of_lt hlt]
  simp only [Except.bind, bind, pure, Except.pure, hswap]

/-- Store fields one after another, checking before each that it fits. -/
def writeFields (bufferSize : Nat) : List UInt8 → List (List UInt8) → Option (List UInt8)
  | written, [] => some written
  | written, field :: fields =>
    if bufferSize < written.length + field.length then none
    else writeFields bufferSize (written ++ field) fields

theorem writeFields_eq {bufferSize : Nat} : ∀ {fields : List (List UInt8)} {written : List UInt8},
    (written ++ fields.flatten).length ≤ bufferSize →
    writeFields bufferSize written fields = some (written ++ fields.flatten)
  | [], written, _ => by simp [writeFields]
  | field :: fields, written, h => by
    simp only [List.flatten_cons, List.length_append] at h
    have hfit : ¬ bufferSize < written.length + field.length := by omega
    rw [writeFields, if_neg hfit, writeFields_eq (by simp only [List.length_append]; omega)]
    simp

structure DataBuffer where
  buffer : List UInt8
  dataSize : Nat
  readOffset : Nat
  readRemaining : Nat
  writeOffset : Nat
  writeRemaining : Nat
  deriving DecidableEq, Repr

namespace DataBuffer

/-- `DataBuffer (uint bufferSize)`. -/
def ofSize (bufferSize : Nat) : DataBuffer :=
  ⟨List.replicate bufferSize 0, 0, 0, 0, 0, bufferSize⟩

/-- `DataBuffer (const byte * data, uint dataLength)`. -/
def ofData (data : List UInt8) : DataBuffer :=
  ⟨data, data.length, 0, data.length, data.length, 0⟩

def readReset (b : DataBuffer) : DataBuffer :=
  { b with readOffset := 0, readRemaining := b.dataSize }

def writeReset (b : DataBuffer) : DataBuffer :=
  { b with
    writeOffset := 0, writeRemaining := b.buffer.length, dataSize := 0
    readOffset := 0, readRemaining := 0 }

def getData (b : DataBuffer) : List UInt8 := b.buffer.take b.dataSize

def getReadBuffer (b : DataBuffer) : Option (List UInt8) :=
  if b.readRemaining = 0 then none else some ((b.buffer.drop b.readOffset).take b.readRemaining)

def addReadBytes (b : DataBuffer) (bytes : Nat) : DataBuffer :=
  if bytes > b.readRemaining then b
  else { b with readRemaining := b.readRemaining - bytes, readOffset := b.readOffset + bytes }

/-- The room left; the pointer handed out is `writeOffset`. -/
def getWriteBuffer (b : DataBuffer) : Option Nat :=
  if b.writeRemaining = 0 then none else some b.writeRemaining

def addWriteBytes (b : DataBuffer) (bytes : Nat) : DataBuffer :=
  if bytes > b.writeRemaining then b
  else
    { b with
      writeRemaining := b.writeRemaining - bytes
      writeOffset := b.writeOffset + bytes
      dataSize := b.dataSize + bytes }

/-- Store bytes from the write pointer on. -/
def poke (b : DataBuffer) (bytes : List UInt8) : DataBuffer :=
  { b with
    buffer := b.buffer.take b.writeOffset ++ bytes ++ b.buffer.drop (b.writeOffset + bytes.length) }

/-- Store bytes at the write pointer and account for them. -/
def append (b : DataBuffer) (bytes : List UInt8) : DataBuffer :=
  (b.poke bytes).addWriteBytes bytes.length

/-! ## Writing -/

/-- The write side is consistent: what is written so far is the data, the rest is room. -/
structure Writable (b : DataBuffer) : Prop where
  offset : b.writeOffset = b.dataSize
  room : b.writeOffset + b.writeRemaining = b.buffer.length
  fits : b.buffer.length < 2 ^ 32

/-- `b'` is `b` with exactly the bytes `bs` added. -/
structure Wrote (b : DataBuffer) (bs : List UInt8) (b' : DataBuffer) : Prop where
  writable : Writable b'
  data : b'.getData = b.getData ++ bs
  room : b'.writeRemaining + bs.length = b.writeRemaining

theorem Writable.wrote_nil {b : DataBuffer} (h : Writable b) : Wrote b [] b := ⟨h, by simp, by simp⟩

theorem Wrote.trans {b c d : DataBuffer} {bs cs : List UInt8} (h : Wrote b bs c)
    (h' : Wrote c cs d) : Wrote b (bs ++ cs) d := by
  refine ⟨h'.writable, ?_, ?_⟩
  · rw [h'.data, h.data, List.append_assoc]
  · have := h.room
    have := h'.room
    rw [List.length_append]
    omega

theorem Writable.wrote_append {b : DataBuffer} (h : Writable b) (bs : List UInt8)
    (hlen : bs.length ≤ b.writeRemaining) : Wrote b bs (b.append bs) := by
  obtain ⟨ho, hr, hf⟩ := h
  have hle : b.writeOffset ≤ b.buffer.length := by omega
  have hnot : ¬ bs.length > b.writeRemaining := by omega
  have hbuf : (b.append bs).buffer =
      b.buffer.take b.writeOffset ++ bs ++ b.buffer.drop (b.writeOffset + bs.length) := by
    simp [append, addWriteBytes, poke, hnot]
  have hblen : (b.append bs).buffer.length = b.buffer.length := by
    rw [hbuf]
    simp only [List.length_append, List.length_take, List.length_drop]
    omega
  have hsize : (b.append bs).dataSize = b.dataSize + bs.length := by
    simp [append, addWriteBytes, poke, hnot]
  have hoff : (b.append bs).writeOffset = b.writeOffset + bs.length := by
    simp [append, addWriteBytes, poke, hnot]
  have hrem : (b.append bs).writeRemaining = b.writeRemaining - bs.length := by
    simp [append, addWriteBytes, poke, hnot]
  refine ⟨⟨by omega, by omega, by omega⟩, ?_, by omega⟩
  have hpre : (b.buffer.take b.writeOffset ++ bs).length = b.dataSize + bs.length := by
    simp only [List.length_append, List.length_take]
    omega
  rw [getData, hbuf, hsize, List.take_left' hpre, getData, ho]

/-- Bytes are stored and more than they are accounted for. -/
theorem Writable.poke_addWriteBytes {b : DataBuffer} (h : Writable b) {l : List UInt8} {n : Nat}
    (hlen : l.length ≤ n) (hroom : n ≤ b.writeRemaining) :
    Writable ((b.poke l).addWriteBytes n) ∧
      ((b.poke l).addWriteBytes n).writeRemaining + n = b.writeRemaining := by
  obtain ⟨ho, hr, hf⟩ := h
  have hnot : ¬ n > b.writeRemaining := by omega
  have hblen : (b.poke l).buffer.length = b.buffer.length := by
    simp only [poke, List.length_append, List.length_take, List.length_drop]
    omega
  have hsame : (b.poke l).writeRemaining = b.writeRemaining := rfl
  simp only [addWriteBytes, hsame, hnot, if_false]
  refine ⟨⟨?_, ?_, ?_⟩, by omega⟩
  · show b.writeOffset + n = b.dataSize + n
    omega
  · show b.writeOffset + n + (b.writeRemaining - n) = (b.poke l).buffer.length
    omega
  · show (b.poke l).buffer.length < 2 ^ 32
    omega

theorem getWriteBuffer_of_pos {b : DataBuffer} (h : 0 < b.writeRemaining) :
    b.getWriteBuffer = some b.writeRemaining := by
  have : b.writeRemaining ≠ 0 := by omega
  simp [getWriteBuffer, this]

theorem writable_ofSize (bufferSize : Nat) (h : bufferSize < 2 ^ 32) :
    Writable (ofSize bufferSize) :=
  ⟨rfl, by simp [ofSize], by simpa [ofSize] using h⟩

/-! ## Reading -/

/-- The bytes not read yet. -/
def unread (b : DataBuffer) : List UInt8 := (b.buffer.drop b.readOffset).take b.readRemaining

/-- The read side is consistent. -/
structure Readable (b : DataBuffer) : Prop where
  room : b.readOffset + b.readRemaining ≤ b.buffer.length
  fits : b.buffer.length < 2 ^ 32

theorem Readable.length_unread {b : DataBuffer} (h : Readable b) :
    b.unread.length = b.readRemaining := by
  have := h.room
  simp only [unread, List.length_take, List.length_drop]
  omega

/-- `b'` is `b` after exactly the bytes `bs` were read. -/
structure Read (b : DataBuffer) (bs : List UInt8) (b' : DataBuffer) : Prop where
  readable : Readable b'
  data : b.unread = bs ++ b'.unread

theorem Readable.getReadBuffer {b : DataBuffer} (h : Readable b) (hne : b.unread ≠ []) :
    b.getReadBuffer = some b.unread := by
  have : b.readRemaining ≠ 0 := by
    rw [← h.length_unread]
    simpa using hne
  simp [DataBuffer.getReadBuffer, this, unread]

theorem Readable.read_addReadBytes {b : DataBuffer} (h : Readable b) {bs rest : List UInt8}
    (hb : b.unread = bs ++ rest) {n : Nat} (hn : n = bs.length) :
    Read b bs (b.addReadBytes n) ∧ (b.addReadBytes n).unread = rest := by
  subst hn
  have hlen := h.length_unread
  rw [hb, List.length_append] at hlen
  have hroom := h.room
  have hnot : ¬ bs.length > b.readRemaining := by omega
  have hun : (b.addReadBytes bs.length).unread = rest := by
    have hdrop : b.unread.drop bs.length = rest := by rw [hb, List.drop_left]
    rw [← hdrop]
    simp only [addReadBytes, hnot, if_false, unread, List.drop_take, List.drop_drop]
  refine ⟨⟨⟨?_, ?_⟩, by rw [hun]; exact hb⟩, hun⟩
  · simp only [addReadBytes, hnot, if_false]
    omega
  · simpa only [addReadBytes, hnot, if_false] using h.fits

theorem readable_ofData (data : List UInt8) (h : data.length < 2 ^ 32) :
    Readable (ofData data) := ⟨by simp [ofData], h⟩

@[simp] theorem unread_ofData (data : List UInt8) : (ofData data).unread = data := by
  simp [ofData, unread]

end DataBuffer

/-- A link of the protocol stack: what a packet writes to and reads from a buffer. -/
class StackLinkInterface (π : Type) where
  writeData : π → DataBuffer → Bool × DataBuffer
  readData : π → DataBuffer → Except ReadError (π × DataBuffer)

/-- No parent at all. -/
instance : StackLinkInterface Empty := ⟨fun e => e.elim, fun e => e.elim⟩

end Alpine
