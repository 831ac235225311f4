import Mathlib.Algebra.Ring.Nat
import Mathlib.Data.List.Induction

/-!
# Data in blocks

A function over the blocks of `n` items can be fed item by item, if the items of the last block are
kept until it is full. `feed_blocks` says that this is the same.
-/

namespace Alpine.Lib

variable {α S : Type}

/-- The full blocks of `n` items. -/
def blocks (n : Nat) (xs : List α) : List (List α) :=
  (List.range (xs.length / n)).map fun i => (xs.drop (n * i)).take n

/-- One item more: the state, with the items of the block that is not full. -/
def feed (n : Nat) (f : S → List α → S) (p : S × List α) (x : α) : S × List α :=
  if p.2.length + 1 = n then (f p.1 (p.2 ++ [x]), []) else (p.1, p.2 ++ [x])

variable {n : Nat}

theorem blocks_of_lt {xs : List α} (h : xs.length < n) : blocks n xs = [] := by
  rw [blocks, Nat.div_eq_of_lt h]
  rfl

theorem blocks_append {block xs : List α} (hn : 0 < n) (hblock : block.length = n) :
    blocks n (block ++ xs) = block :: blocks n xs := by
  have hlength : (block ++ xs).length / n = xs.length / n + 1 := by
    rw [List.length_append, hblock, Nat.add_comm, Nat.add_div_right _ hn]
  rw [blocks, hlength, List.range_succ_eq_map, List.map_cons, Nat.mul_zero, List.drop_zero,
    List.take_left' hblock, List.map_map]
  congr 1
  refine List.map_congr_left fun i _ => ?_
  show ((block ++ xs).drop (n * (i + 1))).take n = _
  rw [Nat.mul_add, Nat.mul_one, Nat.add_comm, ← List.drop_drop, List.drop_left' hblock]

/-- Less than a block is kept. -/
theorem feed_rest (f : S → List α → S) (s : S) {rest xs : List α}
    (h : rest.length + xs.length < n) : xs.foldl (feed n f) (s, rest) = (s, rest ++ xs) := by
  induction xs generalizing rest with
  | nil => simp
  | cons x xs ih =>
    rw [List.length_cons] at h
    have hnot : rest.length + 1 ≠ n := by omega
    have hfeed : feed n f (s, rest) x = (s, rest ++ [x]) := if_neg hnot
    have hmore : (rest ++ [x]).length + xs.length < n := by
      rw [List.length_append, List.length_singleton]
      omega
    rw [List.foldl_cons, hfeed, ih hmore, List.append_assoc, List.singleton_append]

theorem feed_block (f : S → List α → S) (s : S) {block : List α} (hn : 0 < n)
    (hblock : block.length = n) : block.foldl (feed n f) (s, []) = (f s block, []) := by
  obtain ⟨xs, x, rfl⟩ := (List.eq_nil_or_concat block).resolve_left
    (List.ne_nil_of_length_pos (hblock ▸ hn))
  rw [List.concat_eq_append, List.length_append, List.length_singleton] at hblock
  rw [List.concat_eq_append, List.foldl_append, feed_rest f s (by rw [List.length_nil]; omega),
    List.nil_append, List.foldl_cons, List.foldl_nil, feed, if_pos hblock]

theorem feed_blocks (f : S → List α → S) (s : S) {xs : List α} (hn : 0 < n)
    (hxs : xs.length % n = 0) :
    xs.foldl (feed n f) (s, []) = ((blocks n xs).foldl f s, []) := by
  induction hlen : xs.length using Nat.strongRecOn generalizing s xs with
  | _ len ih =>
    by_cases hlt : xs.length < n
    · rw [Nat.mod_eq_of_lt hlt] at hxs
      rw [List.eq_nil_of_length_eq_zero hxs, blocks_of_lt hn]
      rfl
    · have htake : (xs.take n).length = n := by rw [List.length_take]; omega
      have hdrop : (xs.drop n).length = xs.length - n := List.length_drop
      have hrest := ih (xs.drop n).length (by omega) (f s (xs.take n))
        (by rw [hdrop, ← Nat.mod_eq_sub_mod (Nat.le_of_not_lt hlt)]; exact hxs) rfl
      rw [← List.take_append_drop n xs, List.foldl_append, feed_block f s hn htake, hrest,
        blocks_append hn htake]
      rfl

theorem length_feed (f : S → List α → S) (s : S) (hn : 0 < n) (xs : List α) :
    (xs.foldl (feed n f) (s, [])).2.length = xs.length % n := by
  induction xs using List.reverseRecOn with
  | nil => simp
  | append_singleton xs x ih =>
    have hmod : (xs.length + 1) % n = (xs.length % n + 1) % n := by rw [Nat.mod_add_mod]
    have hlt := Nat.mod_lt xs.length hn
    rw [List.foldl_append, List.foldl_cons, List.foldl_nil, feed, ih, List.length_append,
      List.length_singleton, hmod]
    split
    · next hfull =>
      rw [hfull, Nat.mod_self]
      rfl
    · next hnot =>
      rw [Nat.mod_eq_of_lt (by omega), List.length_append, ih, List.length_singleton]

/-!
## SHA-1

The hash function of FIPS 180-4, over messages of bytes. A message has less than `2 ^ 61` bytes, so
that its length in bits has 64 bits; of a longer one `hash` takes the length modulo `2 ^ 64`.
-/

namespace SecureHash

/-- Five words: a hash value, or the working variables. -/
structure Words where
  a : UInt32
  b : UInt32
  c : UInt32
  d : UInt32
  e : UInt32
  deriving DecidableEq, Repr

/-! ### Functions and constants -/

def rotl (n x : UInt32) : UInt32 := x <<< n ||| x >>> (32 - n)

def ch (x y z : UInt32) : UInt32 := (x &&& y) ^^^ (~~~x &&& z)

def parity (x y z : UInt32) : UInt32 := x ^^^ y ^^^ z

def maj (x y z : UInt32) : UInt32 := (x &&& y) ^^^ (x &&& z) ^^^ (y &&& z)

/-- The function of round `t`. -/
def f (t : Nat) : UInt32 → UInt32 → UInt32 → UInt32 :=
  if t < 20 then ch else if t < 40 then parity else if t < 60 then maj else parity

/-- The constant of round `t`. -/
def k (t : Nat) : UInt32 :=
  if t < 20 then 0x5a827999 else if t < 40 then 0x6ed9eba1 else if t < 60 then 0x8f1bbcdc
  else 0xca62c1d6

/-- The initial hash value. -/
def initial : Words := ⟨0x67452301, 0xefcdab89, 0x98badcfe, 0x10325476, 0xc3d2e1f0⟩

/-! ### Padding -/

/-- How many zero bytes are between the bit `1` and the length. -/
def zeros (length : Nat) : Nat := (119 - length % 64) % 64

/-- The eight bytes of a number, the most significant one first. -/
def lengthBytes (n : Nat) : List UInt8 :=
  (List.range 8).map fun i => UInt8.ofNat (n / 256 ^ (7 - i))

def pad (message : List UInt8) : List UInt8 :=
  message ++ 0x80 :: List.replicate (zeros message.length) 0 ++ lengthBytes (8 * message.length)

/-! ### The computation -/

/-- The words of a block are big-endian. -/
def word (block : List UInt8) (t : Nat) : UInt32 :=
  UInt32.ofNat ((block.getD (4 * t) 0).toNat * 2 ^ 24 + (block.getD (4 * t + 1) 0).toNat * 2 ^ 16 +
    (block.getD (4 * t + 2) 0).toNat * 2 ^ 8 + (block.getD (4 * t + 3) 0).toNat)

/-- The message schedule. -/
def schedule (m : Nat → UInt32) (t : Nat) : UInt32 :=
  if t < 16 then m t
  else
    rotl 1 (schedule m (t - 3) ^^^ schedule m (t - 8) ^^^ schedule m (t - 14) ^^^
      schedule m (t - 16))
termination_by t

def round (w : Nat → UInt32) (v : Words) (t : Nat) : Words where
  a := rotl 5 v.a + f t v.b v.c v.d + v.e + k t + w t
  b := v.a
  c := rotl 30 v.b
  d := v.c
  e := v.d

/-- The hash value after a block. -/
def compress (h : Words) (block : List UInt8) : Words :=
  let v := (List.range 80).foldl (round (schedule (word block))) h
  ⟨v.a + h.a, v.b + h.b, v.c + h.c, v.d + h.d, v.e + h.e⟩

def bytes (x : UInt32) : List UInt8 :=
  [UInt8.ofNat (x.toNat / 2 ^ 24), UInt8.ofNat (x.toNat / 2 ^ 16), UInt8.ofNat (x.toNat / 2 ^ 8),
    UInt8.ofNat x.toNat]

def Words.bytes (h : Words) : List UInt8 := [h.a, h.b, h.c, h.d, h.e].flatMap SecureHash.bytes

def hash (message : List UInt8) : List UInt8 :=
  ((blocks 64 (pad message)).foldl compress initial).bytes

/-! ### Rules -/

/-- A loop over bytes `1`, `0`, `0`, … stops where the length has room. -/
theorem zeros_spec (length : Nat) : (length + 1 + zeros length) % 64 = 56 := by
  unfold zeros
  omega

theorem zeros_least {length j : Nat} (h : j < zeros length) : (length + 1 + j) % 64 ≠ 56 := by
  unfold zeros at h
  omega

theorem length_lengthBytes (n : Nat) : (lengthBytes n).length = 8 := by
  rw [lengthBytes, List.length_map, List.length_range]

theorem length_pad (message : List UInt8) : (pad message).length % 64 = 0 := by
  have hzeros := zeros_spec message.length
  rw [pad, List.length_append, List.length_append, List.length_cons, List.length_replicate,
    length_lengthBytes]
  omega

theorem ch_eq_or (x y z : UInt32) : (x &&& y) ||| (~~~x &&& z) = ch x y z := by
  refine UInt32.toBitVec_inj.mp (BitVec.eq_of_getLsbD_eq fun i hi => ?_)
  simp only [ch, UInt32.toBitVec_or, UInt32.toBitVec_and, UInt32.toBitVec_xor, UInt32.toBitVec_not,
    BitVec.getLsbD_or, BitVec.getLsbD_and, BitVec.getLsbD_xor, BitVec.getLsbD_not]
  cases x.toBitVec.getLsbD i <;> simp [hi]

theorem maj_eq_or (x y z : UInt32) : (x &&& y) ||| (x &&& z) ||| (y &&& z) = maj x y z := by
  refine UInt32.toBitVec_inj.mp (BitVec.eq_of_getLsbD_eq fun i hi => ?_)
  simp only [maj, UInt32.toBitVec_or, UInt32.toBitVec_and, UInt32.toBitVec_xor, BitVec.getLsbD_or,
    BitVec.getLsbD_and, BitVec.getLsbD_xor]
  cases x.toBitVec.getLsbD i <;> cases y.toBitVec.getLsbD i <;> simp

end SecureHash

end Alpine.Lib
