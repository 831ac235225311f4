import Mathlib.Algebra.Ring.Nat
import Alpine.Lib.Crc

/-!
# Radio frames

`buildRadioFrame` puts preamble, sync word and length before a payload and the CRC-16 of length and
payload behind it, and `parseRadioFrame` takes such a frame from the front of a buffer. What it
accepts is what `buildRadioFrame` gives (`parseRadioFrame_eq_iff`). The CRC, which the code computes
a byte at a time, is the register of the frame's bits (`crc16_eq_feedAll`), so that a burst of at
most 16 bits behind the length is always noticed.
-/

namespace Alpine

open Lib Lib.Crc

namespace SdrDemodulator

def PREAMBLE_BYTE : UInt8 := 0xAA
def PREAMBLE_LEN : Nat := 4
def SYNC_WORD : UInt8 × UInt8 := (0xA1, 0xE1)
def MAX_FRAME_PAYLOAD : Nat := 4096

/-- One round of the inner loop. -/
def crcShift (crc : BitVec 16) : BitVec 16 :=
  if crc &&& 0x8000 ≠ 0 then crc <<< 1 ^^^ 0x1021 else crc <<< 1

def crcByte (crc : BitVec 16) (b : UInt8) : BitVec 16 :=
  crcShift^[8] (crc ^^^ b.toBitVec.setWidth 16 <<< 8)

def crc16 (data : List UInt8) : BitVec 16 := data.foldl crcByte 0xFFFF

/-- The two bytes of a 16-bit value, the high one first. -/
def bytesBE (v : BitVec 16) : List UInt8 := [⟨(v >>> 8).setWidth 8⟩, ⟨v.setWidth 8⟩]

/-- The length as it goes into the frame. -/
def lengthBytes (payloadLen : Nat) : List UInt8 := bytesBE (BitVec.ofNat 16 payloadLen)

def buildRadioFrame (payload : List UInt8) : List UInt8 :=
  List.replicate PREAMBLE_LEN PREAMBLE_BYTE ++ [SYNC_WORD.1, SYNC_WORD.2] ++
    lengthBytes payload.length ++ payload ++
    bytesBE (crc16 (lengthBytes payload.length ++ payload))

/-- The `n` bytes from `off` on; `none` is a read behind the end. -/
def bytesAt (frame : List UInt8) (off n : Nat) : Option (List UInt8) :=
  if off + n ≤ frame.length then some ((frame.drop off).take n) else none

/-- The loop over the preamble. -/
def checkPreamble (frame : List UInt8) : Nat → Nat → Option Bool
  | _, 0 => some true
  | off, n + 1 => do
    if (← frame[off]?) ≠ PREAMBLE_BYTE then return false
    checkPreamble frame (off + 1) n

/-- What is answered, with the payload; `none` is a read behind the end of the frame. -/
def parseRadioFrame (frame : List UInt8) : Option (Option (List UInt8)) := do
  if frame.length < PREAMBLE_LEN + 2 + 2 + 2 then return none
  if (← checkPreamble frame 0 PREAMBLE_LEN) = false then return none
  let off := PREAMBLE_LEN
  if (← frame[off]?) ≠ SYNC_WORD.1 then return none
  if (← frame[off + 1]?) ≠ SYNC_WORD.2 then return none
  let off := off + 2
  let payloadLen := ((← frame[off]?).toNat <<< 8) ||| (← frame[off + 1]?).toNat
  if payloadLen > MAX_FRAME_PAYLOAD then return none
  if off + 2 + payloadLen + 2 > frame.length then return none
  let expectedCrc := crc16 (← bytesAt frame off (2 + payloadLen))
  let crcOff := off + 2 + payloadLen
  let receivedCrc := (← frame[crcOff]?).toBitVec.setWidth 16 <<< 8 |||
    (← frame[crcOff + 1]?).toBitVec.setWidth 16
  if expectedCrc ≠ receivedCrc then return none
  return some (← bytesAt frame (off + 2) payloadLen)

example : parseRadioFrame (buildRadioFrame [1, 2, 3] ++ [9]) = some (some [1, 2, 3]) := by
  decide +kernel

/-! ## Two bytes -/

theorem shiftLeft_or_eq (hi lo : UInt8) :
    hi.toNat <<< 8 ||| lo.toNat = hi.toNat * 256 + lo.toNat := by
  rw [← Nat.shiftLeft_add_eq_or_of_lt lo.toNat_lt, Nat.shiftLeft_eq]

theorem toNat_shiftLeft_or (hi lo : UInt8) :
    (hi.toBitVec.setWidth 16 <<< 8 ||| lo.toBitVec.setWidth 16).toNat =
      hi.toNat * 256 + lo.toNat := by
  have hhi := hi.toNat_lt
  have hlo := lo.toNat_lt
  rw [← shiftLeft_or_eq, BitVec.toNat_or, BitVec.toNat_shiftLeft, BitVec.toNat_setWidth,
    BitVec.toNat_setWidth, UInt8.toNat_toBitVec, UInt8.toNat_toBitVec, Nat.shiftLeft_eq,
    Nat.shiftLeft_eq]
  congr 1 <;> omega

theorem bytesBE_eq_iff {v : BitVec 16} {hi lo : UInt8} :
    bytesBE v = [hi, lo] ↔ v.toNat = hi.toNat * 256 + lo.toNat := by
  have hv := v.isLt
  have hhi := hi.toNat_lt
  have hlo := lo.toNat_lt
  have h1 : ((v >>> 8).setWidth 8).toNat = v.toNat / 256 := by
    rw [BitVec.toNat_setWidth, BitVec.toNat_ushiftRight, Nat.shiftRight_eq_div_pow]
    omega
  have h2 : (v.setWidth 8).toNat = v.toNat % 256 := BitVec.toNat_setWidth ..
  unfold bytesBE
  rw [List.cons.injEq, List.cons.injEq, ← UInt8.toNat_inj, ← UInt8.toNat_inj]
  show ((v >>> 8).setWidth 8).toNat = hi.toNat ∧ (v.setWidth 8).toNat = lo.toNat ∧ [] = [] ↔ _
  rw [h1, h2]
  constructor
  · rintro ⟨h1, h2, -⟩
    omega
  · intro h
    exact ⟨by omega, by omega, rfl⟩

theorem lengthBytes_eq_iff {n : Nat} (hn : n < 2 ^ 16) {hi lo : UInt8} :
    lengthBytes n = [hi, lo] ↔ n = hi.toNat * 256 + lo.toNat := by
  rw [lengthBytes, bytesBE_eq_iff, BitVec.toNat_ofNat, Nat.mod_eq_of_lt hn]

theorem exists_bytesBE (v : BitVec 16) : ∃ hi lo : UInt8, bytesBE v = [hi, lo] := ⟨_, _, rfl⟩

/-! ## Parsing -/

/-- What is made of the bytes behind the sync word. -/
def parseBody (hi lo : UInt8) (body : List UInt8) : Option (List UInt8) :=
  let n := hi.toNat * 256 + lo.toNat
  if n > MAX_FRAME_PAYLOAD then none
  else if n + 2 > body.length then none
  else if (body.drop n).take 2 = bytesBE (crc16 (hi :: lo :: body.take n)) then some (body.take n)
  else none

theorem take_two_drop {body : List UInt8} {n : Nat} (h : n + 2 ≤ body.length) :
    ∃ c d : UInt8, body[n]? = some c ∧ body[n + 1]? = some d ∧ (body.drop n).take 2 = [c, d] := by
  refine ⟨body[n], body[n + 1], List.getElem?_eq_getElem _, List.getElem?_eq_getElem _, ?_⟩
  rw [List.drop_eq_getElem_cons (by omega), List.drop_eq_getElem_cons (by omega)]
  rfl

theorem checkPreamble_cons (a b c d : UInt8) (frame : List UInt8) :
    checkPreamble (a :: b :: c :: d :: frame) 0 PREAMBLE_LEN =
      some (decide (a = PREAMBLE_BYTE ∧ b = PREAMBLE_BYTE ∧ c = PREAMBLE_BYTE ∧
        d = PREAMBLE_BYTE)) := by
  simp only [checkPreamble, PREAMBLE_LEN, List.getElem?_cons_zero, List.getElem?_cons_succ]
  by_cases ha : a = PREAMBLE_BYTE <;> by_cases hb : b = PREAMBLE_BYTE <;>
    by_cases hc : c = PREAMBLE_BYTE <;> by_cases hd : d = PREAMBLE_BYTE <;> simp [ha, hb, hc, hd]

theorem bytesAt_cons (x : UInt8) (frame : List UInt8) (off n : Nat) :
    bytesAt (x :: frame) (off + 1) n = bytesAt frame off n := by
  unfold bytesAt
  rw [List.length_cons, List.drop_succ_cons]
  exact if_congr (by omega) rfl rfl

theorem bytesAt_zero {frame : List UInt8} {n : Nat} (h : n ≤ frame.length) :
    bytesAt frame 0 n = some (frame.take n) := by
  rw [bytesAt, if_pos (by omega), List.drop_zero]

theorem checksum_iff {v : BitVec 16} {hi lo : UInt8} :
    v ≠ hi.toBitVec.setWidth 16 <<< 8 ||| lo.toBitVec.setWidth 16 ↔ ¬ [hi, lo] = bytesBE v := by
  rw [eq_comm, not_iff_not, bytesBE_eq_iff, ← toNat_shiftLeft_or, BitVec.toNat_inj]

/-- The checks behind the length, in a frame that is long enough. -/
theorem checkBody {x1 x2 x3 x4 x5 x6 hi lo : UInt8} {body : List UInt8} {n : Nat}
    (h : n + 2 ≤ body.length) :
    ((bytesAt (hi :: lo :: body) 0 (2 + n)).bind fun data =>
      (x1 :: x2 :: x3 :: x4 :: x5 :: x6 :: hi :: lo :: body)[8 + n]?.bind fun c =>
      (x2 :: x3 :: x4 :: x5 :: x6 :: hi :: lo :: body)[8 + n]?.bind fun d =>
      if crc16 data ≠ c.toBitVec.setWidth 16 <<< 8 ||| d.toBitVec.setWidth 16 then some none
      else (bytesAt body 0 n).bind fun payload => some (some payload)) =
    some (if (body.drop n).take 2 = bytesBE (crc16 (hi :: lo :: body.take n))
      then some (body.take n) else none) := by
  obtain ⟨c, d, hc, hd, htake⟩ := take_two_drop h
  rw [bytesAt_zero (by rw [List.length_cons, List.length_cons]; omega), bytesAt_zero (by omega),
    Nat.add_comm 8, Nat.add_comm 2]
  simp only [List.getElem?_cons_succ, List.take_succ_cons, hc, hd, htake, Option.bind_some]
  by_cases hcrc : [c, d] = bytesBE (crc16 (hi :: lo :: body.take n))
  · rw [if_pos hcrc, if_neg (fun hne => checksum_iff.mp hne hcrc)]
  · rw [if_neg hcrc, if_pos (checksum_iff.mpr hcrc)]

/-- A buffer with eight bytes at least is a frame if the first six are right and what follows is. -/
theorem parseRadioFrame_cons (a b c d s t hi lo : UInt8) (body : List UInt8) :
    parseRadioFrame (a :: b :: c :: d :: s :: t :: hi :: lo :: body) =
      some (if a = PREAMBLE_BYTE ∧ b = PREAMBLE_BYTE ∧ c = PREAMBLE_BYTE ∧ d = PREAMBLE_BYTE ∧
          s = SYNC_WORD.1 ∧ t = SYNC_WORD.2
        then parseBody hi lo body else none) := by
  unfold parseRadioFrame parseBody
  rw [checkPreamble_cons]
  dsimp only [PREAMBLE_LEN]
  simp only [List.length_cons, List.getElem?_cons_zero, List.getElem?_cons_succ, bytesAt_cons,
    shiftLeft_or_eq, Option.pure_def, Option.bind_eq_bind, Option.bind_some, Nat.reduceAdd,
    decide_eq_false_iff_not]
  obtain ⟨n, hn⟩ : ∃ n, n = hi.toNat * 256 + lo.toNat := ⟨_, rfl⟩
  simp only [← hn]
  by_cases hlen : n + 2 > body.length
  · rw [if_pos hlen, if_pos (show 8 + n + 2 > _ by omega)]
    simp only [ite_self]
  · have hlong : ¬ 8 + n + 2 > body.length + 1 + 1 + 1 + 1 + 1 + 1 + 1 + 1 := by omega
    rw [if_neg (show ¬ body.length + 1 + 1 + 1 + 1 + 1 + 1 + 1 + 1 < 10 by omega), if_neg hlen,
      if_neg hlong, checkBody (by omega)]
    by_cases hs : s = SYNC_WORD.1 <;> by_cases ht : t = SYNC_WORD.2 <;>
      by_cases hmax : n > MAX_FRAME_PAYLOAD <;>
      by_cases hpre : a = PREAMBLE_BYTE ∧ b = PREAMBLE_BYTE ∧ c = PREAMBLE_BYTE ∧
        d = PREAMBLE_BYTE <;> simp [hs, ht, hmax, hpre]

theorem parseRadioFrame_short {frame : List UInt8} (h : frame.length < PREAMBLE_LEN + 2 + 2 + 2) :
    parseRadioFrame frame = some none := by
  rw [parseRadioFrame, if_pos h]
  rfl

theorem short_or_cons (frame : List UInt8) : frame.length < PREAMBLE_LEN + 2 + 2 + 2 ∨
    ∃ a b c d s t hi lo body, frame = a :: b :: c :: d :: s :: t :: hi :: lo :: body := by
  match frame with
  | a :: b :: c :: d :: s :: t :: hi :: lo :: body =>
    exact .inr ⟨a, b, c, d, s, t, hi, lo, body, rfl⟩
  | [] | [_] | [_, _] | [_, _, _] | [_, _, _, _] | [_, _, _, _, _] | [_, _, _, _, _, _]
  | [_, _, _, _, _, _, _] => exact .inl (by simp [PREAMBLE_LEN])

/-- No buffer is read behind its end. -/
theorem parseRadioFrame_total (frame : List UInt8) :
    ∃ answer, parseRadioFrame frame = some answer := by
  rcases short_or_cons frame with h | ⟨a, b, c, d, s, t, hi, lo, body, rfl⟩
  · exact ⟨none, parseRadioFrame_short h⟩
  · exact ⟨_, parseRadioFrame_cons ..⟩

theorem parseBody_eq_iff {hi lo : UInt8} {body payload : List UInt8} :
    parseBody hi lo body = some payload ↔ payload.length ≤ MAX_FRAME_PAYLOAD ∧
      lengthBytes payload.length = [hi, lo] ∧
      ∃ rest, body = payload ++ bytesBE (crc16 (lengthBytes payload.length ++ payload)) ++ rest := by
  have hbound : MAX_FRAME_PAYLOAD < 2 ^ 16 := by decide
  constructor
  · intro h
    unfold parseBody at h
    dsimp only at h
    split at h
    · cases h
    next hmax =>
    split at h
    · cases h
    next hlen =>
    split at h
    · next hcrc =>
      cases h
      have hn : (body.take (hi.toNat * 256 + lo.toNat)).length = hi.toNat * 256 + lo.toNat :=
        List.length_take_of_le (by omega)
      have hlb := (@lengthBytes_eq_iff _ (by omega) hi lo).mpr hn
      refine ⟨by omega, hlb, body.drop (hi.toNat * 256 + lo.toNat + 2), ?_⟩
      rw [hlb]
      show body = body.take _ ++ bytesBE (crc16 (hi :: lo :: body.take _)) ++ _
      rw [← hcrc, List.append_assoc, ← List.drop_drop (i := 2), List.take_append_drop,
        List.take_append_drop]
    · cases h
  · rintro ⟨hmax, hlb, rest, rfl⟩
    have hn := (lengthBytes_eq_iff (by omega)).mp hlb
    obtain ⟨c, d, hcrc⟩ := exists_bytesBE (crc16 (lengthBytes payload.length ++ payload))
    rw [hcrc]
    unfold parseBody
    dsimp only
    rw [← hn, if_neg (by omega), if_neg (by simp), List.append_assoc, List.drop_left,
      List.take_left, if_pos]
    rw [hlb] at hcrc
    exact hcrc.symm

theorem buildRadioFrame_append (payload rest : List UInt8) :
    ∃ hi lo : UInt8, lengthBytes payload.length = [hi, lo] ∧
      buildRadioFrame payload ++ rest =
        PREAMBLE_BYTE :: PREAMBLE_BYTE :: PREAMBLE_BYTE :: PREAMBLE_BYTE :: SYNC_WORD.1 ::
          SYNC_WORD.2 :: hi :: lo ::
          (payload ++ bytesBE (crc16 (lengthBytes payload.length ++ payload)) ++ rest) := by
  refine ⟨_, _, rfl, ?_⟩
  unfold buildRadioFrame
  rw [List.append_assoc, List.append_assoc, List.append_assoc, ← List.append_assoc payload]
  rfl

/-- What is accepted is a frame that `buildRadioFrame` gives, with anything behind it. -/
theorem parseRadioFrame_eq_iff {frame payload : List UInt8} :
    parseRadioFrame frame = some (some payload) ↔ payload.length ≤ MAX_FRAME_PAYLOAD ∧
      ∃ rest, frame = buildRadioFrame payload ++ rest := by
  constructor
  · intro h
    rcases short_or_cons frame with hshort | ⟨a, b, c, d, s, t, hi, lo, body, rfl⟩
    · rw [parseRadioFrame_short hshort] at h
      cases h
    · rw [parseRadioFrame_cons, Option.some.injEq] at h
      split at h
      · next hpre =>
        obtain ⟨rfl, rfl, rfl, rfl, rfl, rfl⟩ := hpre
        obtain ⟨hmax, hlb, rest, rfl⟩ := parseBody_eq_iff.mp h
        obtain ⟨hi', lo', hlb', heq⟩ := buildRadioFrame_append payload rest
        rw [hlb] at hlb'
        cases hlb'
        exact ⟨hmax, rest, heq.symm⟩
      · cases h
  · rintro ⟨hmax, rest, rfl⟩
    obtain ⟨hi, lo, hlb, heq⟩ := buildRadioFrame_append payload rest
    rw [heq, parseRadioFrame_cons, if_pos ⟨rfl, rfl, rfl, rfl, rfl, rfl⟩, Option.some.injEq]
    exact parseBody_eq_iff.mpr ⟨hmax, hlb, rest, rfl⟩

/-! ## The checksum -/

/-- The bits of bytes in the order in which they are sent. -/
def bitsOf (data : List UInt8) : List Bool := data.flatMap fun b => msbBits b.toBitVec

def POLYNOMIAL : BitVec 16 := 0x1021

theorem crcShift_eq (crc : BitVec 16) : crcShift crc = Crc.feed POLYNOMIAL crc false := by
  have hmask : (0x8000 : BitVec 16) = BitVec.twoPow 16 15 := by decide
  unfold crcShift Crc.feed
  rw [hmask, BitVec.and_twoPow, BitVec.msb_eq_getLsbD_last, Bool.xor_false]
  cases crc.getLsbD 15
  · simp
  · simp [POLYNOMIAL, ← hmask]

theorem crcByte_eq (crc : BitVec 16) (b : UInt8) :
    crcByte crc b = feedAll POLYNOMIAL crc (msbBits b.toBitVec) := by
  have hstep : crcShift = (Crc.feed POLYNOMIAL · false) := funext crcShift_eq
  have hout : b.toBitVec.setWidth 16 <<< 8 <<< 8 = 0#16 := by
    rw [← BitVec.shiftLeft_add]
    exact BitVec.shiftLeft_eq_zero (Nat.le_refl 16)
  unfold crcByte
  rw [hstep, shifts_eq_feedAll, hout, BitVec.xor_zero, msbBits]
  refine congrArg _ (List.map_congr_left fun i hi => ?_)
  have hi := List.mem_range.mp hi
  rw [BitVec.getMsbD_shiftLeft, BitVec.getMsbD_setWidth]
  simp

theorem foldl_crcByte (crc : BitVec 16) (data : List UInt8) :
    data.foldl crcByte crc = feedAll POLYNOMIAL crc (bitsOf data) := by
  induction data generalizing crc with
  | nil => rfl
  | cons b data ih =>
    rw [List.foldl_cons, ih, crcByte_eq, ← feedAll_append]
    rfl

theorem crc16_eq_feedAll (data : List UInt8) :
    crc16 data = feedAll POLYNOMIAL 0xFFFF (bitsOf data) := foldl_crcByte _ data

theorem msbBits_halves (v : BitVec 16) :
    msbBits ((v >>> 8).setWidth 8) ++ msbBits (v.setWidth 8) = msbBits v := by
  have hrange : List.range 16 = List.range 8 ++ (List.range 8).map (8 + ·) := rfl
  unfold msbBits
  rw [hrange, List.map_append, List.map_map]
  refine congrArg₂ _ (List.map_congr_left fun i hi => ?_) (List.map_congr_left fun i hi => ?_)
  · have hi := List.mem_range.mp hi
    simp [BitVec.getMsbD_ushiftRight, show i + 8 < 16 by omega]
  · have hi := List.mem_range.mp hi
    simp [Nat.add_comm]

theorem bitsOf_append (data data' : List UInt8) :
    bitsOf (data ++ data') = bitsOf data ++ bitsOf data' := List.flatMap_append

theorem bitsOf_bytesBE (v : BitVec 16) : bitsOf (bytesBE v) = msbBits v := by
  rw [← msbBits_halves]
  show msbBits _ ++ (msbBits _ ++ []) = _
  rw [List.append_nil]

theorem length_bitsOf (data : List UInt8) : (bitsOf data).length = 8 * data.length := by
  induction data with
  | nil => rfl
  | cons b data ih =>
    show (msbBits b.toBitVec ++ bitsOf data).length = _
    rw [List.length_append, ih, msbBits, List.length_map, List.length_range, List.length_cons]
    omega

/-- With its checksum behind it, data leaves zero. -/
theorem feedAll_codeword (data : List UInt8) :
    feedAll POLYNOMIAL 0xFFFF (bitsOf (data ++ bytesBE (crc16 data))) = 0 := by
  rw [bitsOf_append, bitsOf_bytesBE, feedAll_append, ← crc16_eq_feedAll, feedAll_msbBits]

/-- What is behind the length of a frame. -/
def checked (payload : List UInt8) : List UInt8 :=
  payload ++ bytesBE (crc16 (lengthBytes payload.length ++ payload))

theorem drop_buildRadioFrame (payload : List UInt8) :
    (buildRadioFrame payload).drop 8 = checked payload := by
  obtain ⟨hi, lo, -, heq⟩ := buildRadioFrame_append payload []
  rw [List.append_nil, List.append_nil] at heq
  rw [heq]
  rfl

theorem length_checked (payload : List UInt8) : (checked payload).length = payload.length + 2 :=
  List.length_append

/-- Frames of one length differ in a way that is no burst of 16 bits. -/
theorem not_burst_checked {payload payload' : List UInt8}
    (hlen : payload.length = payload'.length) :
    ¬ Burst 16 (bitsOf (checked payload)) (bitsOf (checked payload')) := by
  intro hburst
  have hpoly : POLYNOMIAL.getLsbD 0 = true := by decide
  refine feedAll_burst hpoly hburst
    (feedAll POLYNOMIAL 0xFFFF (bitsOf (lengthBytes payload.length))) ?_
  rw [← feedAll_append, ← bitsOf_append, ← feedAll_append, ← bitsOf_append, checked, checked,
    ← List.append_assoc, ← List.append_assoc, hlen]
  exact (feedAll_codeword _).trans (feedAll_codeword _).symm

/-- A frame with a burst behind its length is refused. -/
theorem parseRadioFrame_burst {payload body : List UInt8} (hmax : payload.length ≤ MAX_FRAME_PAYLOAD)
    (hburst : Burst 16 (bitsOf ((buildRadioFrame payload).drop 8)) (bitsOf body))
    (rest : List UInt8) :
    parseRadioFrame ((buildRadioFrame payload).take 8 ++ body ++ rest) = some none := by
  rw [drop_buildRadioFrame] at hburst
  have hbody : body.length = payload.length + 2 := by
    obtain ⟨pre, mid, mid', post, h, h', hlen, -⟩ := hburst
    have h := congrArg List.length h
    have h' := congrArg List.length h'
    simp only [length_bitsOf, List.length_append, length_checked] at h h'
    omega
  obtain ⟨hi, lo, hlb, heq⟩ := buildRadioFrame_append payload []
  rw [List.append_nil] at heq
  obtain ⟨answer, hanswer⟩ :=
    parseRadioFrame_total ((buildRadioFrame payload).take 8 ++ body ++ rest)
  cases answer with
  | none => exact hanswer
  | some payload' =>
    exfalso
    obtain ⟨hmax', rest', hframe⟩ := parseRadioFrame_eq_iff.mp hanswer
    obtain ⟨hi', lo', hlb', heq'⟩ := buildRadioFrame_append payload' rest'
    rw [heq', heq] at hframe
    have htail : hi = hi' ∧ lo = lo' ∧ body ++ rest = checked payload' ++ rest' := by
      simpa [checked] using hframe
    obtain ⟨rfl, rfl, htail⟩ := htail
    have hbound : MAX_FRAME_PAYLOAD < 2 ^ 16 := by decide
    have hlen : payload.length = payload'.length :=
      ((lengthBytes_eq_iff (by omega)).mp hlb).trans ((lengthBytes_eq_iff (by omega)).mp hlb').symm
    have hsame : body = checked payload' :=
      List.append_inj_left htail (by rw [hbody, length_checked, hlen])
    exact not_burst_checked hlen (hsame ▸ hburst)

/-- The codec: what is built is parsed, with anything behind it; what is accepted was built; a burst
of at most 16 bits behind the length is refused; and only bytes of the buffer are read. -/
theorem codec :
    (∀ payload rest : List UInt8, payload.length ≤ MAX_FRAME_PAYLOAD →
      parseRadioFrame (buildRadioFrame payload ++ rest) = some (some payload)) ∧
    (∀ frame payload : List UInt8, parseRadioFrame frame = some (some payload) →
      payload.length ≤ MAX_FRAME_PAYLOAD ∧ buildRadioFrame payload <+: frame) ∧
    (∀ payload body rest : List UInt8, payload.length ≤ MAX_FRAME_PAYLOAD →
      Burst 16 (bitsOf ((buildRadioFrame payload).drop 8)) (bitsOf body) →
      parseRadioFrame ((buildRadioFrame payload).take 8 ++ body ++ rest) = some none) ∧
    (∀ frame : List UInt8, ∃ answer, parseRadioFrame frame = some answer) := by
  refine ⟨fun payload rest hmax => ?_, fun frame payload h => ?_,
    fun payload body rest hmax hburst => ?_, parseRadioFrame_total⟩
  · exact parseRadioFrame_eq_iff.mpr ⟨hmax, rest, rfl⟩
  · obtain ⟨hmax, rest, rfl⟩ := parseRadioFrame_eq_iff.mp h
    exact ⟨hmax, List.prefix_append _ _⟩
  · exact parseRadioFrame_burst hmax hburst rest

end SdrDemodulator

end Alpine
