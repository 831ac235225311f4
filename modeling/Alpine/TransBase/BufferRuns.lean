import Alpine.Lib.Run
import Alpine.TransBase.DataBuffer

/-!
# Runs of a data buffer

The operations of a buffer in any order. The bytes that are written are stored through the pointer
that `getWriteBuffer` hands out, which is the write offset, and accounted for by `addWriteBytes`.

Writing does not touch the read side. What is there to be read is settled by the last operation that
sets the read side (`BufferLog.offered`), and reads give exactly that, in order; the two sides meet
only as long as nothing is written behind it (`accounted_run`). No counter is ever more than the
length of the buffer, which a `uint` holds.
-/

namespace Alpine

open Lib

namespace DataBuffer

def resize (b : DataBuffer) (size : Nat) : DataBuffer :=
  if size = b.buffer.length then b
  else
    { buffer := b.buffer.take size ++ List.replicate (size - b.buffer.length) 0
      dataSize := 0
      readOffset := 0
      readRemaining := 0
      writeOffset := 0
      writeRemaining := size }

def clear (b : DataBuffer) : DataBuffer :=
  { b with
    dataSize := 0
    readOffset := 0
    readRemaining := 0
    writeOffset := 0
    writeRemaining := b.buffer.length }

/-- The buffer grows if it has to, and is not written to behind the data. -/
def setData (b : DataBuffer) (data : List UInt8) : DataBuffer :=
  let buffer := b.buffer ++ List.replicate (data.length - b.buffer.length) 0
  { buffer := data ++ buffer.drop data.length
    dataSize := data.length
    readOffset := 0
    readRemaining := data.length
    writeOffset := buffer.length
    writeRemaining := 0 }

end DataBuffer

inductive BufferCall where
  /-- `getWriteBuffer`, and bytes stored from the pointer on, as far as there is room. -/
  | store (bytes : List UInt8)
  | addWriteBytes (bytes : Nat)
  /-- `getReadBuffer`, and `addReadBytes` for the bytes that were taken from there. -/
  | read (bytes : Nat)
  | readReset
  | writeReset
  | clear
  | resize (size : Nat)
  | setData (data : List UInt8)
  deriving DecidableEq

inductive BufferEvent where
  | wrote (bytes : List UInt8)
  | read (bytes : List UInt8)
  /-- The read side is set back. -/
  | rewound
  /-- Everything is set back. -/
  | emptied
  | set (data : List UInt8)
  deriving DecidableEq

/-- How a buffer is made. -/
inductive BufferStart where
  | ofSize (bufferSize : Nat)
  | ofData (data : List UInt8)

def BufferStart.buffer : BufferStart → DataBuffer
  | .ofSize bufferSize => .ofSize bufferSize
  | .ofData data => .ofData data

def BufferStart.events : BufferStart → List BufferEvent
  | .ofSize _ => [.emptied]
  | .ofData data => [.set data]

/-- What the operations say of the bytes. -/
structure BufferLog where
  /-- Written since everything was set back. -/
  written : List UInt8
  /-- What was written when the read side was set back. -/
  offered : List UInt8
  /-- Read since then. -/
  read : List UInt8

namespace BufferLog

def note (log : BufferLog) : BufferEvent → BufferLog
  | .wrote bytes => { log with written := log.written ++ bytes }
  | .read bytes => { log with read := log.read ++ bytes }
  | .rewound => ⟨log.written, log.written, []⟩
  | .emptied => ⟨[], [], []⟩
  | .set data => ⟨data, data, []⟩

def of (history : List BufferEvent) : BufferLog := history.foldl note ⟨[], [], []⟩

end BufferLog

namespace DataBuffer

def step (b : DataBuffer) : BufferCall → DataBuffer × List BufferEvent
  | .store bytes =>
    match b.getWriteBuffer with
    | none => (b, [])
    | some bufferSize => (b.poke (bytes.take bufferSize), [])
  | .addWriteBytes bytes =>
    if bytes > b.writeRemaining then (b, [])
    else (b.addWriteBytes bytes, [.wrote ((b.buffer.drop b.writeOffset).take bytes)])
  | .read bytes =>
    if bytes > b.readRemaining then (b, [])
    else (b.addReadBytes bytes, [.read (b.unread.take bytes)])
  | .readReset => (b.readReset, [.rewound])
  | .writeReset => (b.writeReset, [.emptied])
  | .clear => (b.clear, [.emptied])
  | .resize size => (b.resize size, if size = b.buffer.length then [] else [.emptied])
  | .setData data => (b.setData data, [.set data])

def bufferMachine : Machine DataBuffer BufferCall BufferEvent := ⟨step⟩

/-- The counters agree, and reads go on where they are with what is written. -/
structure CountersAgree (history : List BufferEvent) (b : DataBuffer) : Prop where
  read : b.readOffset + b.readRemaining = b.dataSize
  write : b.writeOffset + b.writeRemaining = b.buffer.length
  fits : b.dataSize ≤ b.buffer.length
  reads : (BufferLog.of history).read ++ b.unread = (BufferLog.of history).written

/-- The counters of the write side agree, those of the read side agree with what was written when
they were set, and that is what reads give. -/
structure Accounted (history : List BufferEvent) (b : DataBuffer) : Prop where
  write : b.writeOffset + b.writeRemaining = b.buffer.length
  fits : b.dataSize ≤ b.buffer.length
  data : b.getData = (BufferLog.of history).written
  read : b.readOffset + b.readRemaining = (BufferLog.of history).offered.length
  offered : (BufferLog.of history).offered <+: (BufferLog.of history).written
  reads : (BufferLog.of history).read ++ b.unread = (BufferLog.of history).offered
  agrees : b.readOffset + b.readRemaining = b.dataSize ↔
    (BufferLog.of history).offered = (BufferLog.of history).written

/-- What every operation keeps. -/
structure Kept (log : BufferLog) (b : DataBuffer) : Prop where
  write : b.writeOffset + b.writeRemaining = b.buffer.length
  /-- There is room only directly behind the data. -/
  behind : b.dataSize = b.writeOffset ∨ b.dataSize ≤ b.writeOffset ∧ b.writeRemaining = 0
  data : b.getData = log.written
  read : b.readOffset + b.readRemaining = log.offered.length
  offered : log.offered <+: log.written
  reads : log.read ++ b.unread = log.offered
  readOffset : b.readOffset = log.read.length

variable {b : DataBuffer} {log : BufferLog}

theorem Kept.fits (h : Kept log b) : b.dataSize ≤ b.writeOffset ∧ b.dataSize ≤ b.buffer.length := by
  have hwrite := h.write
  rcases h.behind with hbehind | ⟨hbehind, _⟩ <;> omega

theorem Kept.length_written (h : Kept log b) : log.written.length = b.dataSize := by
  have hfits := h.fits.2
  rw [← h.data, getData, List.length_take]
  omega

theorem Kept.accounted {history : List BufferEvent} (h : Kept (BufferLog.of history) b) :
    Accounted history b where
  write := h.write
  fits := h.fits.2
  data := h.data
  read := h.read
  offered := h.offered
  reads := h.reads
  agrees := by
    rw [h.read, ← h.length_written]
    exact ⟨fun hlen => h.offered.eq_of_length hlen, fun heq => by rw [heq]⟩

/-- What is read is part of the data. -/
theorem unread_eq_of_getData (h : b.readOffset + b.readRemaining ≤ b.dataSize) :
    b.unread = (b.getData.drop b.readOffset).take b.readRemaining := by
  unfold unread getData
  rw [List.drop_take, List.take_take, Nat.min_eq_left (by omega)]

/-- Both sides as they are after a full reset with some data. -/
theorem kept_fresh {data : List UInt8} {b : DataBuffer}
    (hwrite : b.writeOffset + b.writeRemaining = b.buffer.length)
    (hbehind : b.dataSize = b.writeOffset ∨ b.dataSize ≤ b.writeOffset ∧ b.writeRemaining = 0)
    (hdata : b.getData = data) (hoffset : b.readOffset = 0)
    (hremaining : b.readRemaining = data.length) (hsize : b.dataSize = data.length) :
    Kept ⟨data, data, []⟩ b where
  write := hwrite
  behind := hbehind
  data := hdata
  read := by rw [hoffset, hremaining, Nat.zero_add]
  offered := List.prefix_refl _
  reads := by
    rw [unread_eq_of_getData (by omega), hdata, hoffset, hremaining, List.nil_append,
      List.drop_zero, List.take_length]
  readOffset := hoffset

theorem kept_start (start : BufferStart) : Kept (BufferLog.of start.events) start.buffer := by
  cases start with
  | ofSize bufferSize =>
    exact kept_fresh (by simp [BufferStart.buffer, ofSize]) (.inl rfl) rfl rfl rfl rfl
  | ofData data =>
    exact kept_fresh rfl (.inl rfl) (List.take_length ..) rfl rfl rfl

theorem Kept.store (h : Kept log b) {bytes : List UInt8} (hroom : bytes.length ≤ b.writeRemaining) :
    Kept log (b.poke bytes) := by
  have hwrite := h.write
  have hread := h.read
  have hlen := h.length_written
  have hfits := h.fits
  have hprefix := h.offered.length_le
  have hlength : (b.poke bytes).buffer.length = b.buffer.length := by
    simp only [poke, List.length_append, List.length_take, List.length_drop]
    omega
  have hdata : (b.poke bytes).getData = b.getData := by
    unfold getData
    show List.take b.dataSize (b.buffer.take b.writeOffset ++ bytes ++
      b.buffer.drop (b.writeOffset + bytes.length)) = _
    rw [List.append_assoc, List.take_append_of_le_length (by rw [List.length_take]; omega),
      List.take_take, Nat.min_eq_left hfits.1]
  have hsame : (b.poke bytes).readOffset + (b.poke bytes).readRemaining ≤ b.dataSize := by
    show b.readOffset + b.readRemaining ≤ b.dataSize
    omega
  refine ⟨by rw [hlength]; exact hwrite, h.behind, hdata.trans h.data, hread, h.offered, ?_,
    h.readOffset⟩
  rw [unread_eq_of_getData hsame, hdata]
  have hunread := h.reads
  rw [unread_eq_of_getData (by omega)] at hunread
  exact hunread

theorem Kept.addWriteBytes (h : Kept log b) {bytes : Nat} (hroom : ¬ bytes > b.writeRemaining) :
    Kept (log.note (.wrote ((b.buffer.drop b.writeOffset).take bytes)))
      (b.addWriteBytes bytes) := by
  have hwrite := h.write
  have hread := h.read
  have hlen := h.length_written
  have hfits := h.fits
  have hprefix := h.offered.length_le
  have hdata : (b.addWriteBytes bytes).getData =
      b.getData ++ (b.buffer.drop b.writeOffset).take bytes := by
    unfold DataBuffer.addWriteBytes
    rw [if_neg hroom]
    show b.buffer.take (b.dataSize + bytes) = _
    rw [List.take_add, getData]
    rcases h.behind with hbehind | ⟨_, hfull⟩
    · rw [hbehind]
    · have hnone : bytes = 0 := by omega
      rw [hnone, List.take_zero, List.take_zero]
  have hbuffer : (b.addWriteBytes bytes).unread = b.unread ∧
      (b.addWriteBytes bytes).readOffset = b.readOffset ∧
      (b.addWriteBytes bytes).readRemaining = b.readRemaining ∧
      (b.addWriteBytes bytes).writeOffset + (b.addWriteBytes bytes).writeRemaining =
        (b.addWriteBytes bytes).buffer.length ∧
      ((b.addWriteBytes bytes).dataSize = (b.addWriteBytes bytes).writeOffset ∨
        (b.addWriteBytes bytes).dataSize ≤ (b.addWriteBytes bytes).writeOffset ∧
          (b.addWriteBytes bytes).writeRemaining = 0) := by
    unfold DataBuffer.addWriteBytes
    rw [if_neg hroom]
    have hbehind := h.behind
    refine ⟨rfl, rfl, rfl, ?_, ?_⟩ <;> dsimp only <;> omega
  obtain ⟨hunread, hoffset, hremaining, hsum, hbehind⟩ := hbuffer
  refine ⟨hsum, hbehind, ?_, ?_, h.offered.trans (List.prefix_append _ _), ?_, ?_⟩
  · rw [hdata, h.data]
    rfl
  · rw [hoffset, hremaining]
    exact hread
  · rw [hunread]
    exact h.reads
  · rw [hoffset]
    exact h.readOffset

theorem Kept.addReadBytes (h : Kept log b) {bytes : Nat} (hroom : ¬ bytes > b.readRemaining) :
    Kept (log.note (.read (b.unread.take bytes))) (b.addReadBytes bytes) := by
  have hread := h.read
  have hreads := h.reads
  have hlength : b.unread.length = b.readRemaining := by
    have := congrArg List.length hreads
    have := h.readOffset
    rw [List.length_append] at *
    omega
  unfold DataBuffer.addReadBytes
  rw [if_neg hroom]
  refine ⟨h.write, h.behind, h.data, ?_, h.offered, ?_, ?_⟩
  · show b.readOffset + bytes + (b.readRemaining - bytes) = log.offered.length
    omega
  · have hunread : (b.buffer.drop (b.readOffset + bytes)).take (b.readRemaining - bytes) =
        b.unread.drop bytes := by
      rw [unread, List.drop_take, List.drop_drop]
    show (log.read ++ b.unread.take bytes) ++
      (b.buffer.drop (b.readOffset + bytes)).take (b.readRemaining - bytes) = log.offered
    rw [hunread, List.append_assoc, List.take_append_drop, hreads]
  · show b.readOffset + bytes = (log.read ++ b.unread.take bytes).length
    rw [List.length_append, List.length_take, hlength, h.readOffset]
    omega

theorem Kept.readReset (h : Kept log b) : Kept (log.note .rewound) b.readReset :=
  kept_fresh h.write h.behind h.data rfl h.length_written.symm h.length_written.symm

theorem Kept.step (h : Kept log b) (call : BufferCall) :
    Kept ((b.step call).2.foldl BufferLog.note log) (b.step call).1 := by
  have hempty : ∀ {b : DataBuffer}, b.writeOffset + b.writeRemaining = b.buffer.length →
      b.dataSize = 0 → b.writeOffset = 0 → b.readOffset = 0 → b.readRemaining = 0 →
      Kept ⟨[], [], []⟩ b := by
    intro b hwrite hsize hoffset hread hremaining
    refine kept_fresh hwrite (.inl (by omega)) ?_ hread hremaining hsize
    rw [getData, hsize, List.take_zero]
  cases call with
  | store bytes =>
    unfold DataBuffer.step getWriteBuffer
    dsimp only
    split
    · exact h
    · next bufferSize hsome =>
      split at hsome
      · cases hsome
      · obtain rfl := Option.some.inj hsome
        exact h.store (List.length_take_le _ _)
  | addWriteBytes bytes =>
    unfold DataBuffer.step
    dsimp only
    split
    · exact h
    · next hroom => exact h.addWriteBytes hroom
  | read bytes =>
    unfold DataBuffer.step
    dsimp only
    split
    · exact h
    · next hroom => exact h.addReadBytes hroom
  | readReset => exact h.readReset
  | writeReset => exact hempty (Nat.zero_add _) rfl rfl rfl rfl
  | clear => exact hempty (Nat.zero_add _) rfl rfl rfl rfl
  | resize size =>
    unfold DataBuffer.step resize
    dsimp only
    split
    · exact h
    · refine hempty ?_ rfl rfl rfl rfl
      dsimp only
      rw [List.length_append, List.length_take, List.length_replicate]
      omega
  | setData data =>
    have hgrown : data.length ≤
        (b.buffer ++ List.replicate (data.length - b.buffer.length) 0).length := by
      rw [List.length_append, List.length_replicate]
      omega
    refine kept_fresh ?_ (.inr ⟨hgrown, rfl⟩) (List.take_left' rfl) rfl rfl rfl
    show (b.buffer ++ List.replicate (data.length - b.buffer.length) 0).length + 0 =
      (data ++ (b.buffer ++ List.replicate (data.length - b.buffer.length) 0).drop
        data.length).length
    rw [@List.length_append _ data, List.length_drop]
    omega

/-- What is accounted for as written is what was stored before. -/
theorem Kept.wrote_stored (h : Kept log b) {bytes : List UInt8}
    (hroom : bytes.length ≤ b.writeRemaining) {n : Nat} (hn : n ≤ bytes.length) :
    ((b.step (.store bytes)).1.step (.addWriteBytes n)).2 = [.wrote (bytes.take n)] := by
  have hwrite := h.write
  have hstored : (b.step (.store bytes)).1 = b.poke bytes ∨
      (b.step (.store bytes)).1 = b ∧ n = 0 := by
    unfold DataBuffer.step getWriteBuffer
    dsimp only
    split
    · next hnone =>
      refine .inr ⟨rfl, ?_⟩
      split at hnone
      · omega
      · cases hnone
    · next bufferSize hsome =>
      left
      split at hsome
      · cases hsome
      · obtain rfl := Option.some.inj hsome
        rw [List.take_of_length_le hroom]
  rcases hstored with heq | ⟨heq, rfl⟩
  · rw [heq]
    unfold DataBuffer.step
    dsimp only
    have hremaining : (b.poke bytes).writeRemaining = b.writeRemaining := rfl
    have hbehind : (b.poke bytes).buffer.drop b.writeOffset =
        bytes ++ b.buffer.drop (b.writeOffset + bytes.length) := by
      unfold poke
      dsimp only
      rw [List.append_assoc, List.drop_left' (by rw [List.length_take]; omega)]
    rw [hremaining, if_neg (by omega)]
    show [BufferEvent.wrote (((b.poke bytes).buffer.drop b.writeOffset).take n)] = _
    rw [hbehind, List.take_append_of_le_length hn]
  · rw [heq]
    unfold DataBuffer.step
    dsimp only
    rw [if_neg (Nat.not_lt_zero _), List.take_zero, List.take_zero]

/-- In every run the two sides are accounted for. -/
theorem accounted_run (start : BufferStart) (calls : List BufferCall) :
    Accounted (start.events ++ (bufferMachine.run start.buffer calls).2)
      (bufferMachine.run start.buffer calls).1 := by
  have hstep : ∀ history b call, Kept (BufferLog.of history) b →
      Kept (BufferLog.of (history ++ (bufferMachine.step b call).2))
        (bufferMachine.step b call).1 := by
    intro history b call h
    rw [BufferLog.of, List.foldl_append]
    exact h.step call
  exact (Machine.run_invariant hstep calls (kept_start start)).accounted

def oneByte : List BufferCall := [.store [7], .addWriteBytes 1]

/-- A byte that is written is not there to be read until the read side is set. -/
theorem oneByte_not_agree :
    ¬ CountersAgree
      ((BufferStart.ofSize 1).events ++ (bufferMachine.run (BufferStart.ofSize 1).buffer oneByte).2)
      (bufferMachine.run (BufferStart.ofSize 1).buffer oneByte).1 := by
  intro h
  exact absurd h.read (by decide)

end DataBuffer

end Alpine
