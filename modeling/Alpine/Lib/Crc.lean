import Mathlib.Logic.Function.Iterate

/-!
# Cyclic redundancy checks

A register that takes the bits of a message one at a time, the most significant first. If the last
bit of the polynomial is set, a step loses nothing of the register (`feed_injective`) and a change
within a window that is not longer than the register is seen in the end (`feedAll_burst`). A
message with the register behind it leaves zero (`feedAll_msbBits`), and a register that is
exclusive-ored with several bits at its top and then shifted has taken these bits
(`shifts_eq_feedAll`).
-/

namespace Alpine.Lib.Crc

variable {w : Nat} (poly : BitVec w)

def feed (c : BitVec w) (b : Bool) : BitVec w := c <<< 1 ^^^ (if c.msb ^^ b then poly else 0)

def feedAll (c : BitVec w) (bits : List Bool) : BitVec w := bits.foldl (feed poly) c

/-- The bits of a register, the most significant first. -/
def msbBits {v : Nat} (x : BitVec v) : List Bool := (List.range v).map x.getMsbD

/-- `bits'` is `bits` with a change within at most `n` consecutive bits. -/
def Burst (n : Nat) (bits bits' : List Bool) : Prop :=
  ∃ pre mid mid' post : List Bool, bits = pre ++ mid ++ post ∧ bits' = pre ++ mid' ++ post ∧
    mid.length = mid'.length ∧ mid.length ≤ n ∧ mid ≠ mid'

variable {poly}

theorem feedAll_cons (c : BitVec w) (b : Bool) (bits : List Bool) :
    feedAll poly c (b :: bits) = feedAll poly (feed poly c b) bits := rfl

theorem feedAll_append (c : BitVec w) (bits bits' : List Bool) :
    feedAll poly c (bits ++ bits') = feedAll poly (feedAll poly c bits) bits' := List.foldl_append

/-! ## Shifts -/

/-- A bit at the top of the register counts as the bit that is taken. -/
theorem feed_xor_top (c y : BitVec w) :
    feed poly (c ^^^ y) false = feed poly c y.msb ^^^ y <<< 1 := by
  unfold feed
  rw [BitVec.shiftLeft_xor_distrib, BitVec.msb_xor, Bool.xor_false, BitVec.xor_assoc,
    BitVec.xor_assoc, BitVec.xor_comm (y <<< 1)]

theorem range_map_getMsbD_succ (n : Nat) (y : BitVec w) :
    (List.range (n + 1)).map y.getMsbD = y.msb :: (List.range n).map (y <<< 1).getMsbD := by
  rw [List.range_succ_eq_map, List.map_cons, List.map_map]
  refine congrArg₂ _ rfl (List.map_congr_left fun i _ => ?_)
  rw [BitVec.getMsbD_shiftLeft, Function.comp_apply, Nat.succ_eq_add_one]

/-- `n` shifts take the `n` bits that were put at the top of the register. -/
theorem shifts_eq_feedAll (n : Nat) (c y : BitVec w) :
    (feed poly · false)^[n] (c ^^^ y) =
      feedAll poly c ((List.range n).map y.getMsbD) ^^^ y <<< n := by
  induction n generalizing c y with
  | zero =>
    rw [BitVec.shiftLeft_zero]
    rfl
  | succ n ih =>
    rw [Function.iterate_succ_apply, feed_xor_top, ih, range_map_getMsbD_succ, feedAll_cons,
      ← BitVec.shiftLeft_add, Nat.add_comm 1 n]

theorem getLsbD_shiftLeft_one {c : BitVec w} {j : Nat} (hj : j + 1 < w) :
    (c <<< 1).getLsbD (j + 1) = c.getLsbD j := by
  rw [BitVec.getLsbD_shiftLeft]
  simp [hj]

theorem feed_zero : feed poly 0 false = 0 := by
  unfold feed
  simp

/-- A register that takes its own bits is left with zero. -/
theorem feedAll_msbBits (r : BitVec w) : feedAll poly r (msbBits r) = 0 := by
  have h := @shifts_eq_feedAll w poly w r r
  rw [BitVec.xor_self, BitVec.shiftLeft_eq_zero (Nat.le_refl w), BitVec.xor_zero] at h
  exact h.symm.trans (Function.iterate_fixed feed_zero w)

/-! ## Detection -/

section Detection

variable (hpoly : poly.getLsbD 0 = true)
include hpoly

theorem getLsbD_feed_zero (c : BitVec w) (b : Bool) :
    (feed poly c b).getLsbD 0 = (c.msb ^^ b) := by
  unfold feed
  cases h : c.msb ^^ b <;> simp [hpoly]

/-- Registers that differ at a bit differ after a step, at the next bit or at the first. -/
theorem feed_ne {c d : BitVec w} {j : Nat} (hj : j + 1 < w) (hne : c.getLsbD j ≠ d.getLsbD j)
    (b b' : Bool) :
    ∃ k ≤ j + 1, (feed poly c b).getLsbD k ≠ (feed poly d b').getLsbD k := by
  by_cases h : (c.msb ^^ b) = (d.msb ^^ b')
  · refine ⟨j + 1, Nat.le_refl _, ?_⟩
    unfold feed
    rw [h, BitVec.getLsbD_xor, BitVec.getLsbD_xor, getLsbD_shiftLeft_one hj,
      getLsbD_shiftLeft_one hj]
    exact fun heq => hne (Bool.xor_left_inj.mp heq)
  · refine ⟨0, Nat.zero_le _, ?_⟩
    rwa [getLsbD_feed_zero hpoly, getLsbD_feed_zero hpoly]

/-- A difference at a low bit is still there after as many steps as there are bits above. -/
theorem feedAll_ne {bits bits' : List Bool} (hlen : bits.length = bits'.length) {c d : BitVec w}
    {j : Nat} (hj : j + bits.length < w) (hne : c.getLsbD j ≠ d.getLsbD j) :
    feedAll poly c bits ≠ feedAll poly d bits' := by
  induction bits generalizing bits' c d j with
  | nil =>
    rw [List.length_eq_zero_iff.mp hlen.symm]
    exact fun h => hne (congrArg (·.getLsbD j) h)
  | cons b bits ih =>
    obtain ⟨b', bits', rfl⟩ := List.exists_cons_of_length_eq_add_one hlen.symm
    rw [List.length_cons] at hj
    obtain ⟨k, hk, hne⟩ := feed_ne hpoly (by omega) hne b b'
    exact ih (Nat.succ.inj hlen) (by omega) hne

/-- Two windows that are not longer than the register and leave the same are the same. -/
theorem eq_of_feedAll_eq {bits bits' : List Bool} (hlen : bits.length = bits'.length)
    (hw : bits.length ≤ w) {c : BitVec w} (h : feedAll poly c bits = feedAll poly c bits') :
    bits = bits' := by
  induction bits generalizing bits' c with
  | nil => exact (List.length_eq_zero_iff.mp hlen.symm).symm
  | cons b bits ih =>
    obtain ⟨b', bits', rfl⟩ := List.exists_cons_of_length_eq_add_one hlen.symm
    rw [List.length_cons] at hw
    have hb : b = b' := by
      by_contra hne
      have hbit : (feed poly c b).getLsbD 0 ≠ (feed poly c b').getLsbD 0 := by
        rw [getLsbD_feed_zero hpoly, getLsbD_feed_zero hpoly]
        exact fun heq => hne (Bool.xor_right_inj.mp heq)
      exact feedAll_ne hpoly (Nat.succ.inj hlen) (by omega) hbit h
    subst hb
    rw [ih (Nat.succ.inj hlen) (by omega) h]

theorem feed_injective (b : Bool) : Function.Injective (feed poly · b) := by
  intro c d h
  have hmsb : c.msb = d.msb := by
    have h0 := congrArg (·.getLsbD 0) h
    simp only [getLsbD_feed_zero hpoly] at h0
    exact Bool.xor_left_inj.mp h0
  have hshift : c <<< 1 = d <<< 1 := by
    simp only [feed, hmsb] at h
    exact (BitVec.xor_left_inj _).mp h
  refine BitVec.eq_of_getLsbD_eq fun i hi => ?_
  by_cases htop : i + 1 < w
  · have hbit := congrArg (·.getLsbD (i + 1)) hshift
    simp only [getLsbD_shiftLeft_one htop] at hbit
    exact hbit
  · -- the shift only loses the top bit
    have hi' : i = w - 1 := by omega
    rw [hi', ← BitVec.msb_eq_getLsbD_last, ← BitVec.msb_eq_getLsbD_last, hmsb]

theorem feedAll_injective (bits : List Bool) : Function.Injective (feedAll poly · bits) := by
  induction bits with
  | nil => exact fun c d h => h
  | cons b bits ih => exact fun c d h => feed_injective hpoly b (ih h)

/-- A burst that is not longer than the register is seen. -/
theorem feedAll_burst {bits bits' : List Bool} (hburst : Burst w bits bits') (c : BitVec w) :
    feedAll poly c bits ≠ feedAll poly c bits' := by
  obtain ⟨pre, mid, mid', post, rfl, rfl, hlen, hw, hne⟩ := hburst
  intro h
  rw [feedAll_append, feedAll_append, feedAll_append, feedAll_append] at h
  exact hne (eq_of_feedAll_eq hpoly hlen hw (feedAll_injective hpoly post h))

end Detection

end Alpine.Lib.Crc
