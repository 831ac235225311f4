import Alpine.TransBase.DataBuffer

/-!
# Readers of a buffer

A reader takes what it reads off a buffer. `Within` says that it loads no byte past the end and
leaves the bytes as they are, with the read position moved on; readers that do so compose.
`readUntil` is the loop of the list decoders, which ends when the list has the size that the packet
named.
-/

namespace Alpine

open Lib DataBuffer

abbrev Reader (α : Type) := DataBuffer → Except ReadError (α × DataBuffer)

/-- Entries are read until there are `size` of them. A pass takes bytes off the buffer, so their
number bounds the passes. -/
def readUntil {α : Type} (readOne : Reader α) (size : Nat) : Nat → List α → Reader (List α)
  | 0, _, _ => .error .failed
  | fuel + 1, list, linkBuffer => do
    let (entry, linkBuffer) ← readOne linkBuffer
    let list := list ++ [entry]
    if list.length = size then return (list, linkBuffer)
    else readUntil readOne size fuel list linkBuffer

/-! ## Staying in the buffer -/

namespace DataBuffer

/-- What is left to read lies in the buffer. -/
def InRange (b : DataBuffer) : Prop := b.readOffset + b.readRemaining ≤ b.buffer.length

/-- `b'` is `b` with the read position moved on. -/
structure Advances (b b' : DataBuffer) : Prop where
  buffer : b'.buffer = b.buffer
  dataEnd : b'.readOffset + b'.readRemaining = b.readOffset + b.readRemaining
  le : b'.readRemaining ≤ b.readRemaining

variable {b b' b'' : DataBuffer}

theorem Advances.refl (b : DataBuffer) : Advances b b := ⟨rfl, rfl, Nat.le_refl _⟩

theorem Advances.trans (h : Advances b b') (h' : Advances b' b'') : Advances b b'' where
  buffer := h'.buffer.trans h.buffer
  dataEnd := h'.dataEnd.trans h.dataEnd
  le := Nat.le_trans h'.le h.le

theorem Advances.inRange (h : Advances b b') (hb : b.InRange) : b'.InRange := by
  unfold InRange at hb ⊢
  rw [h.buffer, h.dataEnd]
  exact hb

theorem advances_addReadBytes (b : DataBuffer) (bytes : Nat) : Advances b (b.addReadBytes bytes) := by
  unfold addReadBytes
  split
  · exact Advances.refl b
  · constructor
    · rfl
    · dsimp only
      omega
    · exact Nat.sub_le _ _

theorem getReadBuffer_ofData {data : List UInt8} (hne : data ≠ []) :
    (ofData data).getReadBuffer = some data := by
  have hlen : ¬ data.length = 0 := by
    rwa [List.length_eq_zero_iff]
  simp [DataBuffer.getReadBuffer, ofData, hlen]

theorem unread_ofData_add {data : List UInt8} {bytes : Nat} (hle : bytes ≤ data.length) :
    ((ofData data).addReadBytes bytes).unread = data.drop bytes := by
  have hnot : ¬ bytes > data.length := Nat.not_lt.mpr hle
  simp only [ofData, addReadBytes, unread, hnot, if_false, Nat.zero_add]
  exact List.take_of_length_le (List.length_drop).le

theorem inRange_ofData (data : List UInt8) : (ofData data).InRange := by
  simp [InRange, ofData]

theorem InRange.getReadBuffer {buffer : List UInt8} (hb : b.InRange)
    (h : b.getReadBuffer = some buffer) : buffer.length = b.readRemaining ∧ 0 < buffer.length := by
  unfold InRange at hb
  unfold DataBuffer.getReadBuffer at h
  split at h
  · cases h
  · cases h
    simp only [List.length_take, List.length_drop]
    omega

end DataBuffer

/-- No byte past the end is loaded, and a success has moved the read position on, by `n` bytes or
more. -/
structure Within {α : Type} (n : Nat) (b : DataBuffer) (r : Except ReadError (α × DataBuffer)) :
    Prop where
  bounded : r ≠ .error .overRead
  advances : ∀ a b', r = .ok (a, b') → b.Advances b'
  taken : ∀ a b', r = .ok (a, b') → b'.readRemaining + n ≤ b.readRemaining

section Within

variable {α β : Type} {n : Nat} {b b' : DataBuffer}

theorem within_failed (n : Nat) (b : DataBuffer) :
    Within n b (.error .failed : Except ReadError (α × DataBuffer)) :=
  ⟨by simp, by simp, by simp⟩

theorem within_ok {a : α} (h : b.Advances b') : Within 0 b (.ok (a, b')) := by
  constructor
  · simp
  · rintro a' c heq
    cases heq
    exact h
  · rintro a' c heq
    cases heq
    exact h.le

/-- What goes on from a moved position. -/
theorem Within.of_advances {r : Except ReadError (α × DataBuffer)} (h : Within n b' r)
    (hadv : b.Advances b') : Within n b r where
  bounded := h.bounded
  advances a c heq := hadv.trans (h.advances a c heq)
  taken a c heq := Nat.le_trans (h.taken a c heq) hadv.le

/-- What goes on after bytes were taken. -/
theorem Within.of_taken {r : Except ReadError (α × DataBuffer)} {k : Nat}
    (h : Within 0 (b.addReadBytes k) r) (hn : n ≤ k) (hbytes : k ≤ b.readRemaining) :
    Within n b r where
  bounded := h.bounded
  advances a c heq := (advances_addReadBytes b k).trans (h.advances a c heq)
  taken a c heq := by
    have hle := h.taken a c heq
    unfold addReadBytes at hle
    rw [if_neg (by omega)] at hle
    dsimp only at hle
    omega

theorem Within.bind {r : Except ReadError (α × DataBuffer)}
    {k : α × DataBuffer → Except ReadError (β × DataBuffer)} (h : Within 0 b r)
    (hk : ∀ a b', b.Advances b' → Within n b' (k (a, b'))) : Within n b (r >>= k) := by
  cases r with
  | error e =>
    cases e with
    | failed => exact within_failed n b
    | overRead => exact absurd rfl h.bounded
  | ok x =>
    obtain ⟨a, b'⟩ := x
    have hadv := h.advances a b' rfl
    exact (hk a b' hadv).of_advances hadv

/-- A load of which it is known that it fits. -/
theorem within_load {size : Nat} {curr : List UInt8} (hfit : size ≤ curr.length)
    {k : Nat × List UInt8 → Except ReadError (α × DataBuffer)}
    (hk : ∀ v, Within n b (k (v, curr.drop size))) : Within n b (load size curr >>= k) := by
  unfold load
  rw [if_neg (by omega)]
  exact hk _

theorem within_getLong {curr : List UInt8} (hfit : sizeofLong ≤ curr.length)
    {k : Nat × List UInt8 → Except ReadError (α × DataBuffer)}
    (hk : ∀ v, Within n b (k (v, curr.drop sizeofLong))) : Within n b (getLong curr >>= k) := by
  unfold getLong
  rw [bind_assoc]
  exact within_load hfit fun v => hk (ntohl v)

theorem within_getShort {curr : List UInt8} (hfit : sizeofShort ≤ curr.length)
    {k : Nat × List UInt8 → Except ReadError (α × DataBuffer)}
    (hk : ∀ v, Within n b (k (v, curr.drop sizeofShort))) : Within n b (getShort curr >>= k) := by
  unfold getShort
  rw [bind_assoc]
  exact within_load hfit fun v => hk (ntohs v)

end Within

/-! ## The loop -/

section Loop

variable {α : Type} {readOne : Reader α}

/-- An entry stays in the buffer, and takes a byte off it. -/
def Consumes (readOne : Reader α) : Prop := ∀ b : DataBuffer, b.InRange → Within 1 b (readOne b)

theorem Consumes.within_readUntil (h : Consumes readOne) {size fuel : Nat} {list : List α}
    {b : DataBuffer} (hb : b.InRange) : Within 0 b (readUntil readOne size fuel list b) := by
  induction fuel generalizing list b with
  | zero => exact within_failed 0 b
  | succ fuel ih =>
    have hone := h b hb
    rw [readUntil]
    refine Within.bind ⟨hone.bounded, hone.advances, fun a b' heq => ?_⟩ ?_
    · exact Nat.le_of_succ_le (hone.taken a b' heq)
    · intro entry b' hadv
      dsimp only
      split
      · exact within_ok (.refl b')
      · exact ih (hadv.inRange hb)

/-- The loop ends by itself: with more fuel than there are bytes, their number does not matter. -/
theorem Consumes.readUntil_fuel (h : Consumes readOne) {size fuel fuel' : Nat} {list : List α}
    {b : DataBuffer} (hb : b.InRange) (hfuel : b.readRemaining < fuel)
    (hfuel' : b.readRemaining < fuel') :
    readUntil readOne size fuel list b = readUntil readOne size fuel' list b := by
  induction fuel generalizing fuel' list b with
  | zero => omega
  | succ fuel ih =>
    obtain ⟨fuel', rfl⟩ : ∃ n, fuel' = n + 1 := ⟨fuel' - 1, by omega⟩
    rw [readUntil, readUntil]
    cases hone : readOne b with
    | error e => rfl
    | ok x =>
      obtain ⟨entry, b'⟩ := x
      have htaken := (h b hb).taken entry b' hone
      have hadv := (h b hb).advances entry b' hone
      simp only [bind, Except.bind]
      split
      · rfl
      · exact ih (hadv.inRange hb) (by omega) (by omega)

end Loop

end Alpine
