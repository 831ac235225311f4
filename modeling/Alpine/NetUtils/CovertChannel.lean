import Mathlib.Algebra.Ring.Nat
import Mathlib.Data.Set.Function
import Alpine.Lib.Shuffle

/-!
# The covert channel

A buffer is obfuscated by a rotating key and a shuffle that is drawn from the key and the length of
the buffer; the other end draws the same swaps and carries them out backwards. The length of the key
is taken as 32 bits, so that a key whose length is a multiple of 2^32 is divided by as zero, and
this is the only key with which two nodes do not understand each other (`roundTrips_iff`).
-/

namespace Alpine

open Lib

structure CovertChannel where
  enabled : Bool
  key : List UInt8
  keySeed : UInt32
  deriving DecidableEq, Repr

namespace CovertChannel

def new : CovertChannel := ⟨false, [], 0⟩

def xorshift32 (state : UInt32) : UInt32 :=
  let state := state ^^^ state <<< 13
  let state := state ^^^ state >>> 17
  state ^^^ state <<< 5

/-- The FNV-1a hash of the key. -/
def hashKey (key : List UInt8) : UInt32 :=
  key.foldl (fun hash c => (hash ^^^ c.toUInt32) * 16777619) 2166136261

def initializeChannel (channel : CovertChannel) (key : List UInt8) : CovertChannel :=
  if key = [] then channel else ⟨true, key, hashKey key⟩

/-- `key_s[i % keyLen]`, with `keyLen` a `uint`; `none` is a division by zero. -/
def keyByte (key : List UInt8) (i : Nat) : Option UInt8 :=
  let keyLen := key.length % 2 ^ 32
  if keyLen = 0 then none else key[i % keyLen]?

/-- The loop over the buffer, from index `i`. -/
def applyKey (key : List UInt8) : Nat → List UInt8 → Option (List UInt8)
  | _, [] => some []
  | i, b :: data => do
    let k ← keyByte key i
    let data ← applyKey key (i + 1) data
    pure ((b ^^^ k) :: data)

/-- What the shuffle of a buffer of this length starts from. -/
def startState (channel : CovertChannel) (length : Nat) : UInt32 :=
  let state := channel.keySeed + UInt32.ofNat length
  if state = 0 then 1 else state

/-- The Fisher-Yates loop, with `i` going down to 1. -/
def shuffle : Nat → UInt32 → List UInt8 → Option (List UInt8)
  | 0, _, temp => some temp
  | i + 1, state, temp =>
    let r := xorshift32 state
    let j := r.toNat % (i + 2)
    (swapAt temp (i + 1) j).bind (shuffle i r)

def obfuscate (channel : CovertChannel) (data : List UInt8) : Option (List UInt8) :=
  if data.length = 0 then some data
  else
    (applyKey channel.key 0 data).bind
      (shuffle (data.length - 1) (channel.startState data.length))

/-- The swaps of the same loop, which `deobfuscate` only records. -/
def recordSwaps : Nat → UInt32 → List (Nat × Nat)
  | 0, _ => []
  | i + 1, state =>
    let r := xorshift32 state
    (i + 1, r.toNat % (i + 2)) :: recordSwaps i r

def deobfuscate (channel : CovertChannel) (data : List UInt8) : Option (List UInt8) :=
  if data.length = 0 then some data
  else
    let swaps := recordSwaps (data.length - 1) (channel.startState data.length)
    (swapAll swaps.reverse data).bind (applyKey channel.key 0)

/-! ## The key -/

variable {key data out : List UInt8} {channel : CovertChannel}

theorem exists_keyByte (hkey : key.length % 2 ^ 32 ≠ 0) (i : Nat) :
    ∃ k, keyByte key i = some k := by
  have hlt : i % (key.length % 2 ^ 32) < key.length :=
    lt_of_lt_of_le (Nat.mod_lt i (Nat.pos_of_ne_zero hkey)) (Nat.mod_le _ _)
  unfold keyByte
  rw [if_neg hkey, List.getElem?_eq_getElem hlt]
  exact ⟨_, rfl⟩

theorem exists_applyKey (hkey : key.length % 2 ^ 32 ≠ 0) (i : Nat) (data : List UInt8) :
    ∃ out, applyKey key i data = some out := by
  induction data generalizing i with
  | nil => exact ⟨[], rfl⟩
  | cons b data ih =>
    obtain ⟨k, hk⟩ := exists_keyByte hkey i
    obtain ⟨out, hout⟩ := ih (i + 1)
    exact ⟨(b ^^^ k) :: out, by rw [applyKey, hk, hout]; rfl⟩

/-- The key undoes itself, and the length stays. -/
theorem applyKey_undo {i : Nat} (h : applyKey key i data = some out) :
    applyKey key i out = some data ∧ out.length = data.length := by
  induction data generalizing i out with
  | nil => cases Option.some.inj h; exact ⟨rfl, rfl⟩
  | cons b data ih =>
    obtain ⟨k, hk, h⟩ := Option.bind_eq_some_iff.mp h
    obtain ⟨rest, hrest, h⟩ := Option.bind_eq_some_iff.mp h
    obtain ⟨hback, hlen⟩ := ih hrest
    cases Option.some.inj h
    refine ⟨?_, congrArg (· + 1) hlen⟩
    rw [applyKey, hk, hback]
    show some ((b ^^^ k ^^^ k) :: data) = some (b :: data)
    rw [UInt8.xor_assoc, UInt8.xor_self, UInt8.xor_zero]

theorem applyKey_none (hkey : key.length % 2 ^ 32 = 0) (i : Nat) (hne : data ≠ []) :
    applyKey key i data = none := by
  obtain ⟨b, data, rfl⟩ := List.exists_cons_of_ne_nil hne
  rw [applyKey, keyByte, if_pos hkey]
  rfl

/-! ## The shuffle -/

theorem shuffle_eq (i : Nat) (state : UInt32) (temp : List UInt8) :
    shuffle i state temp = swapAll (recordSwaps i state) temp := by
  induction i generalizing state temp with
  | zero => rfl
  | succ i ih =>
    rw [shuffle, recordSwaps, swapAll]
    exact congrArg _ (funext (ih _))

/-- The loop draws `i` and an index that is at most `i`. -/
theorem recordSwaps_inside (i : Nat) (state : UInt32) :
    SwapsInside (i + 1) (recordSwaps i state) := by
  induction i generalizing state with
  | zero => exact fun p hp => by cases hp
  | succ i ih =>
    intro p hp
    rcases List.mem_cons.mp hp with rfl | hp
    · exact ⟨Nat.lt_succ_self _, Nat.mod_lt _ (Nat.succ_pos _)⟩
    · obtain ⟨h1, h2⟩ := ih _ p hp
      exact ⟨h1.trans (Nat.lt_succ_self _), h2.trans (Nat.lt_succ_self _)⟩

/-- The swaps that both ends draw for a buffer. -/
def swapsFor (channel : CovertChannel) (length : Nat) : List (Nat × Nat) :=
  recordSwaps (length - 1) (channel.startState length)

theorem swapsFor_inside (channel : CovertChannel) (length : Nat) :
    SwapsInside length (channel.swapsFor length) := by
  cases length with
  | zero => exact fun p hp => by cases hp
  | succ n => exact recordSwaps_inside n _

/-! ## Both together -/

theorem obfuscate_eq (channel : CovertChannel) (data : List UInt8) :
    channel.obfuscate data = (applyKey channel.key 0 data).bind
      (swapAll (channel.swapsFor data.length)) := by
  unfold obfuscate
  split
  · next h => rw [List.length_eq_zero_iff.mp h]; rfl
  · exact congrArg _ (funext (shuffle_eq _ _))

theorem deobfuscate_eq (channel : CovertChannel) (data : List UInt8) :
    channel.deobfuscate data = (swapAll (channel.swapsFor data.length).reverse data).bind
      (applyKey channel.key 0) := by
  unfold deobfuscate
  split
  · next h => rw [List.length_eq_zero_iff.mp h]; rfl
  · rfl

/-- `deobfuscate` is `obfuscate` read backwards. -/
theorem deobfuscate_eq_iff (channel : CovertChannel) (data out : List UInt8) :
    channel.deobfuscate out = some data ↔ channel.obfuscate data = some out := by
  rw [obfuscate_eq, deobfuscate_eq, Option.bind_eq_some_iff, Option.bind_eq_some_iff]
  constructor
  · rintro ⟨mid, hswap, hkey⟩
    obtain ⟨hkey, hlen⟩ := applyKey_undo hkey
    rw [swapAll_reverse] at hswap
    refine ⟨mid, hkey, ?_⟩
    rwa [hlen, ← length_swapAll hswap]
  · rintro ⟨mid, hkey, hswap⟩
    obtain ⟨hkey, hlen⟩ := applyKey_undo hkey
    refine ⟨mid, ?_, hkey⟩
    rwa [swapAll_reverse, length_swapAll hswap, hlen]

theorem length_obfuscate (h : channel.obfuscate data = some out) : out.length = data.length := by
  rw [obfuscate_eq] at h
  obtain ⟨mid, hkey, hswap⟩ := Option.bind_eq_some_iff.mp h
  rw [length_swapAll hswap, (applyKey_undo hkey).2]

theorem exists_obfuscate (hkey : channel.key.length % 2 ^ 32 ≠ 0) (data : List UInt8) :
    ∃ out, channel.obfuscate data = some out := by
  obtain ⟨mid, hmid⟩ := exists_applyKey hkey 0 data
  have hinside : SwapsInside mid.length (channel.swapsFor data.length) := by
    rw [(applyKey_undo hmid).2]
    exact swapsFor_inside channel data.length
  obtain ⟨out, hout⟩ := exists_swapAll hinside
  exact ⟨out, by rw [obfuscate_eq, hmid]; exact hout⟩

theorem exists_deobfuscate (hkey : channel.key.length % 2 ^ 32 ≠ 0) (data : List UInt8) :
    ∃ out, channel.deobfuscate data = some out := by
  obtain ⟨mid, hmid⟩ := exists_swapAll (swapsFor_inside channel data.length).reverse
  obtain ⟨out, hout⟩ := exists_applyKey hkey 0 mid
  exact ⟨out, by rw [deobfuscate_eq, hmid]; exact hout⟩

/-- On the buffers of a length, each end undoes what the other did, `obfuscate` is a bijection, and
all swaps stay inside. -/
structure RoundTrips (sender receiver : CovertChannel) (length : Nat) : Prop where
  restored : ∀ data : List UInt8, data.length = length →
    (sender.obfuscate data).bind receiver.deobfuscate = some data
  undone : ∀ data : List UInt8, data.length = length →
    (receiver.deobfuscate data).bind sender.obfuscate = some data
  bijective : Set.BijOn sender.obfuscate {data | data.length = length}
    (some '' {data | data.length = length})
  inside : SwapsInside length (sender.swapsFor length)

/-- With a key whose length can be divided by. -/
theorem roundTrips_self (hkey : channel.key.length % 2 ^ 32 ≠ 0) (length : Nat) :
    RoundTrips channel channel length where
  restored data _ := by
    obtain ⟨out, hout⟩ := exists_obfuscate hkey data
    rw [hout]
    exact (deobfuscate_eq_iff channel data out).mpr hout
  undone data _ := by
    obtain ⟨out, hout⟩ := exists_deobfuscate hkey data
    rw [hout]
    exact (deobfuscate_eq_iff channel out data).mp hout
  bijective := by
    refine ⟨?_, ?_, ?_⟩
    · intro data hlen
      obtain ⟨out, hout⟩ := exists_obfuscate hkey data
      exact ⟨out, (length_obfuscate hout).trans hlen, hout.symm⟩
    · intro data _ data' _ heq
      obtain ⟨out, hout⟩ := exists_obfuscate hkey data
      have h := (deobfuscate_eq_iff channel data out).mpr hout
      have h' := (deobfuscate_eq_iff channel data' out).mpr (heq ▸ hout)
      exact Option.some.inj (h.symm.trans h')
    · rintro _ ⟨out, hlen, rfl⟩
      obtain ⟨data, hdata⟩ := exists_deobfuscate hkey out
      have hback := (deobfuscate_eq_iff channel data out).mp hdata
      exact ⟨data, (length_obfuscate hback).symm.trans hlen, hback⟩
  inside := swapsFor_inside channel length

theorem roundTrips_zero (channel : CovertChannel) : RoundTrips channel channel 0 where
  restored data hlen := by rw [List.length_eq_zero_iff.mp hlen]; rfl
  undone data hlen := by rw [List.length_eq_zero_iff.mp hlen]; rfl
  bijective := by
    have hset : {data : List UInt8 | data.length = 0} = {[]} :=
      Set.ext fun data => List.length_eq_zero_iff
    rw [hset, Set.image_singleton]
    exact Set.bijOn_singleton.mpr rfl
  inside := swapsFor_inside channel 0

/-- A key whose length is a multiple of 2^32 divides by zero. -/
theorem obfuscate_none (hkey : channel.key.length % 2 ^ 32 = 0) (hne : data ≠ []) :
    channel.obfuscate data = none := by
  rw [obfuscate_eq, applyKey_none hkey 0 hne]
  rfl

theorem initializeChannel_eq (a b : CovertChannel) (hne : key ≠ []) :
    a.initializeChannel key = b.initializeChannel key := by
  rw [initializeChannel, initializeChannel, if_neg hne, if_neg hne]

theorem initializeChannel_key (a : CovertChannel) (hne : key ≠ []) :
    (a.initializeChannel key).key = key := by
  rw [initializeChannel, if_neg hne]

/-- Two nodes with the same key understand each other on the buffers of a length exactly if the
length of the key is not a multiple of 2^32; the empty buffer is left alone. -/
theorem roundTrips_iff (a b : CovertChannel) (key : List UInt8) (hne : key ≠ []) (length : Nat)
    (_ : length < 2 ^ 32) :
    RoundTrips (a.initializeChannel key) (b.initializeChannel key) length ↔
      key.length % 2 ^ 32 ≠ 0 ∨ length = 0 := by
  rw [initializeChannel_eq b a hne]
  constructor
  · intro h
    by_contra hnot
    obtain ⟨hkey, hpos⟩ := not_or.mp hnot
    have hnone : (a.initializeChannel key).obfuscate (List.replicate length 0) = none := by
      refine obfuscate_none ?_ fun hnil => hpos ?_
      · rw [initializeChannel_key a hne]
        exact not_not.mp hkey
      · simpa using congrArg List.length hnil
    have := h.restored (List.replicate length 0) List.length_replicate
    rw [hnone] at this
    cases this
  · rintro (hkey | rfl)
    · refine roundTrips_self ?_ length
      rwa [initializeChannel_key a hne]
    · exact roundTrips_zero _

theorem roundTrips_iff_short :
    RoundTrips (new.initializeChannel [1, 2]) (new.initializeChannel [1, 2]) 5 ↔
      ([1, 2] : List UInt8).length % 2 ^ 32 ≠ 0 ∨ 5 = 0 :=
  roundTrips_iff new new [1, 2] (List.cons_ne_nil _ _) 5 (by decide)

/-- A key of 2^32 bytes is not empty, and its length is taken as zero. -/
theorem longKey_not_roundTrips :
    ¬ ∀ (a b : CovertChannel) (key : List UInt8), key ≠ [] → ∀ length < 2 ^ 32,
      RoundTrips (a.initializeChannel key) (b.initializeChannel key) length := by
  intro h
  have hlen : (List.replicate (2 ^ 32) (0 : UInt8)).length = 2 ^ 32 := List.length_replicate
  have hne : List.replicate (2 ^ 32) (0 : UInt8) ≠ [] := by
    intro hnil
    rw [hnil] at hlen
    exact absurd hlen (by decide)
  have hnone : (new.initializeChannel (List.replicate (2 ^ 32) 0)).obfuscate [0] = none := by
    refine obfuscate_none ?_ (List.cons_ne_nil _ _)
    rw [initializeChannel_key new hne, hlen, Nat.mod_self]
  have := (h new new _ hne 1 (by decide)).restored [0] rfl
  rw [hnone] at this
  cases this

end CovertChannel

end Alpine
