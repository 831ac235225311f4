import Mathlib.Data.List.Infix
import Alpine.Lib.Run
import Alpine.NetUtils.SdrDemodulator

/-!
# The bits of a demodulator

`processSymbol` looks for four preamble bytes, the sync word, a length, a payload and its checksum
in a stream of bits. The preamble is looked for in a window of eight bits that moves on by one bit,
and the count of preamble bytes starts again at every window that is none; behind a window that is
one there always is one that is none (`processSymbol_hunting`). So a machine that starts new never
leaves its first state and no frame is ever taken from the stream (`Hunting.run`).
-/

namespace Alpine

open Lib Lib.Crc SdrDemodulator

inductive FrameState where
  | HUNTING_PREAMBLE
  | HUNTING_SYNC
  | READING_LENGTH
  | READING_PAYLOAD
  | READING_CRC
  deriving DecidableEq, Repr

structure GfskDemodulator where
  bitBuffer : List Bool
  state : FrameState
  preambleCount : Nat
  bitsCollected : Nat
  frameLength : BitVec 16
  frameBytes : List UInt8
  deriving DecidableEq, Repr

namespace GfskDemodulator

def new : GfskDemodulator := ⟨[], .HUNTING_PREAMBLE, 0, 0, 0, []⟩

def resetFrameState (_ : GfskDemodulator) : GfskDemodulator := ⟨[], .HUNTING_PREAMBLE, 0, 0, 0, []⟩

/-- The loops `x = (x << 1) | bit`. -/
def assemble (w : Nat) (bits : List Bool) : BitVec w :=
  bits.foldl (fun x bit => x <<< 1 ||| if bit then 1 else 0) 0

/-- `bitBuffer_.push_back(bit)` in a window of eight bits. -/
def pushWindow (bitBuffer : List Bool) (bit : Bool) : List Bool :=
  if (bitBuffer ++ [bit]).length > 8 then (bitBuffer ++ [bit]).tail else bitBuffer ++ [bit]

def lastBits (n : Nat) (bits : List Bool) : List Bool := bits.drop (bits.length - n)

def huntPreamble (m : GfskDemodulator) (bit : Bool) : GfskDemodulator :=
  let m := { m with bitBuffer := pushWindow m.bitBuffer bit }
  if m.bitBuffer.length = 8 then
    if assemble 8 m.bitBuffer = PREAMBLE_BYTE.toBitVec then
      let m := { m with preambleCount := m.preambleCount + 1 }
      if m.preambleCount ≥ PREAMBLE_LEN then
        { m with state := .HUNTING_SYNC, bitBuffer := [], bitsCollected := 0 }
      else m
    else { m with preambleCount := 0 }
  else m

def collect (m : GfskDemodulator) (bit : Bool) : GfskDemodulator :=
  { m with bitBuffer := m.bitBuffer ++ [bit], bitsCollected := m.bitsCollected + 1 }

/-- The sync word is not found within 64 bits. -/
def syncTimeout (m : GfskDemodulator) : GfskDemodulator :=
  if m.bitsCollected > 64 then m.resetFrameState else m

def huntSync (m : GfskDemodulator) (bit : Bool) : GfskDemodulator :=
  let m := m.collect bit
  if m.bitBuffer.length ≥ 16 then
    let hi := assemble 8 ((lastBits 16 m.bitBuffer).take 8)
    let lo := assemble 8 ((lastBits 16 m.bitBuffer).drop 8)
    if hi = SYNC_WORD.1.toBitVec ∧ lo = SYNC_WORD.2.toBitVec then
      { m with state := .READING_LENGTH, bitBuffer := [], bitsCollected := 0, frameLength := 0 }
    else m.syncTimeout
  else m.syncTimeout

def readLength (m : GfskDemodulator) (bit : Bool) : GfskDemodulator :=
  let m := m.collect bit
  if m.bitsCollected = 16 then
    let m := { m with frameLength := assemble 16 (m.bitBuffer.take 16) }
    if m.frameLength = 0 ∨ m.frameLength.toNat > MAX_FRAME_PAYLOAD then m.resetFrameState
    else
      { m with
        frameBytes := bytesBE m.frameLength, state := .READING_PAYLOAD, bitBuffer := []
        bitsCollected := 0 }
  else m

def readPayload (m : GfskDemodulator) (bit : Bool) : GfskDemodulator :=
  let m := m.collect bit
  let m :=
    if m.bitsCollected % 8 = 0 then
      { m with frameBytes := m.frameBytes ++ [⟨assemble 8 (lastBits 8 m.bitBuffer)⟩] }
    else m
  if m.bitsCollected = m.frameLength.toNat * 8 then
    { m with state := .READING_CRC, bitBuffer := [], bitsCollected := 0 }
  else m

def readCrc (m : GfskDemodulator) (bit : Bool) : GfskDemodulator × List (List UInt8) :=
  let m := m.collect bit
  if m.bitsCollected = 16 then
    let receivedCrc : BitVec 16 := assemble 16 (m.bitBuffer.take 16)
    let expectedCrc := crc16 m.frameBytes
    (m.resetFrameState, if expectedCrc = receivedCrc then [m.frameBytes.drop 2] else [])
  else (m, [])

/-- One bit, with the packet that it completes. -/
def processSymbol (m : GfskDemodulator) (bit : Bool) : GfskDemodulator × List (List UInt8) :=
  match m.state with
  | .HUNTING_PREAMBLE => (m.huntPreamble bit, [])
  | .HUNTING_SYNC => (m.huntSync bit, [])
  | .READING_LENGTH => (m.readLength bit, [])
  | .READING_PAYLOAD => (m.readPayload bit, [])
  | .READING_CRC => m.readCrc bit

def machine : Machine GfskDemodulator Bool (List UInt8) := ⟨processSymbol⟩

/-! ## Hunting -/

/-- What a new machine never leaves: a preamble byte is counted only in its own window. -/
structure Hunting (m : GfskDemodulator) : Prop where
  state : m.state = .HUNTING_PREAMBLE
  short : m.bitBuffer.length ≤ 8
  empty : m.frameBytes = []
  counted : m.preambleCount = 0 ∨ m.preambleCount = 1 ∧ m.bitBuffer = msbBits PREAMBLE_BYTE.toBitVec

theorem hunting_new : Hunting new := ⟨rfl, Nat.zero_le _, rfl, .inl rfl⟩

theorem length_pushWindow {bitBuffer : List Bool} (h : bitBuffer.length ≤ 8) (bit : Bool) :
    (pushWindow bitBuffer bit).length ≤ 8 := by
  unfold pushWindow
  split
  · rw [List.length_tail, List.length_append, List.length_singleton]
    omega
  · next hle => exact Nat.le_of_not_lt hle

/-- A window of eight bits is told by its value. -/
theorem assemble_eq_preamble {bits : List Bool} (hlen : bits.length = 8)
    (h : assemble 8 bits = PREAMBLE_BYTE.toBitVec) : bits = msbBits PREAMBLE_BYTE.toBitVec := by
  match bits, hlen with
  | [b0, b1, b2, b3, b4, b5, b6, b7], _ =>
    revert b0 b1 b2 b3 b4 b5 b6 b7
    decide +kernel

/-- The window behind a preamble byte is none. -/
theorem assemble_next_preamble (bit : Bool) :
    assemble 8 (pushWindow (msbBits PREAMBLE_BYTE.toBitVec) bit) ≠ PREAMBLE_BYTE.toBitVec := by
  revert bit
  decide +kernel

theorem processSymbol_hunting {m : GfskDemodulator} (h : Hunting m) (bit : Bool) :
    Hunting (processSymbol m bit).1 ∧ (processSymbol m bit).2 = [] := by
  have hstep : processSymbol m bit = (m.huntPreamble bit, []) := by
    unfold processSymbol
    rw [h.state]
  rw [hstep]
  refine ⟨?_, rfl⟩
  have hshort := length_pushWindow h.short bit
  unfold huntPreamble
  dsimp only
  by_cases hlen : (pushWindow m.bitBuffer bit).length = 8
  · rw [if_pos hlen]
    by_cases hbyte : assemble 8 (pushWindow m.bitBuffer bit) = PREAMBLE_BYTE.toBitVec
    · -- the count was zero, since the window before this one was no preamble byte
      have hcount : m.preambleCount = 0 := by
        rcases h.counted with hcount | ⟨-, hbuf⟩
        · exact hcount
        · exact absurd (hbuf ▸ hbyte) (assemble_next_preamble bit)
      have hlow : ¬ 0 + 1 ≥ PREAMBLE_LEN := by decide
      rw [if_pos hbyte, hcount, if_neg hlow]
      exact ⟨h.state, hshort, h.empty, .inr ⟨rfl, assemble_eq_preamble hlen hbyte⟩⟩
    · rw [if_neg hbyte]
      exact ⟨h.state, hshort, h.empty, .inl rfl⟩
  · rw [if_neg hlen]
    refine ⟨h.state, hshort, h.empty, .inl ?_⟩
    rcases h.counted with hcount | ⟨-, hbuf⟩
    · exact hcount
    · refine absurd ?_ hlen
      rw [hbuf]
      cases bit <;> decide +kernel

theorem Hunting.run {m : GfskDemodulator} (h : Hunting m) (bits : List Bool) :
    Hunting (machine.run m bits).1 ∧ (machine.run m bits).2 = [] := by
  induction bits generalizing m with
  | nil => exact ⟨h, rfl⟩
  | cons bit bits ih =>
    obtain ⟨hnext, hnone⟩ := processSymbol_hunting h bit
    obtain ⟨hlast, hrest⟩ := ih hnext
    refine ⟨hlast, ?_⟩
    rw [Machine.run_cons]
    show (processSymbol m bit).2 ++ _ = []
    rw [hnone]
    exact hrest

/-! ## Frames in a stream -/

/-- The bits with which a frame starts. -/
def frameStart : List Bool :=
  bitsOf (List.replicate PREAMBLE_LEN PREAMBLE_BYTE ++ [SYNC_WORD.1, SYNC_WORD.2])

/-- A payload and the bits that are on the air before its frame. -/
structure Transmission where
  gap : List Bool
  payload : List UInt8
  quiet : ¬ frameStart <:+: gap
  nonempty : 1 ≤ payload.length
  short : payload.length ≤ MAX_FRAME_PAYLOAD

def Transmission.bits (t : Transmission) : List Bool := t.gap ++ bitsOf (buildRadioFrame t.payload)

/-- The payload comes in the bits behind a preamble and in a frame with a sync word, its length and
its checksum. -/
def FramedIn (bits : List Bool) (payload : List UInt8) : Prop :=
  payload.length ≤ MAX_FRAME_PAYLOAD ∧ ∃ pre gap post : List Bool,
    bits = pre ++ bitsOf (List.replicate PREAMBLE_LEN PREAMBLE_BYTE) ++ gap ++
      bitsOf ([SYNC_WORD.1, SYNC_WORD.2] ++ lengthBytes payload.length ++ checked payload) ++ post

/-- A stream is read safely: what is taken out of it was a frame, memory is bounded, and a bit that
completes a packet leaves the machine hunting. -/
structure SafelyRead (bits : List Bool) : Prop where
  framed : ∀ payload ∈ (machine.run new bits).2, FramedIn bits payload
  bounded : (machine.run new bits).1.bitBuffer.length ≤ 8 * MAX_FRAME_PAYLOAD ∧
    (machine.run new bits).1.frameBytes.length ≤ MAX_FRAME_PAYLOAD + 2
  hunts : ∀ bit, (processSymbol (machine.run new bits).1 bit).2 ≠ [] →
    (processSymbol (machine.run new bits).1 bit).1.state = .HUNTING_PREAMBLE

/-- Every stream is read safely, and the payloads that were sent come out of it exactly if none was
sent. -/
theorem extracts_iff (sent : List Transmission) (rest : List Bool) :
    ((machine.run new (sent.flatMap Transmission.bits ++ rest)).2 =
      sent.map Transmission.payload ↔ sent = []) ∧ ∀ bits, SafelyRead bits := by
  constructor
  · rw [(hunting_new.run _).2]
    constructor
    · intro h
      exact List.map_eq_nil_iff.mp h.symm
    · rintro rfl
      rfl
  · intro bits
    obtain ⟨hhunt, hnone⟩ := hunting_new.run bits
    refine ⟨?_, ⟨?_, ?_⟩, fun bit _ => (processSymbol_hunting hhunt bit).1.state⟩
    · rw [hnone]
      exact fun payload hmem => by cases hmem
    · exact hhunt.short.trans (by decide)
    · rw [hhunt.empty]
      exact Nat.zero_le _

/-- The frame of one byte is lost. -/
theorem oneByte_not_extracted :
    ¬ ∀ (sent : List Transmission) (rest : List Bool), ¬ frameStart <:+: rest →
      (machine.run new (sent.flatMap Transmission.bits ++ rest)).2 =
        sent.map Transmission.payload := by
  intro h
  have hquiet : ¬ frameStart <:+: [] := by decide +kernel
  have := h [⟨[], [7], hquiet, by decide, by decide⟩] [] hquiet
  rw [(hunting_new.run _).2] at this
  cases this

end GfskDemodulator

end Alpine
