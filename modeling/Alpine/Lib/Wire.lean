import Mathlib.Data.List.Basic
import Mathlib.Tactic.Ring

/-!
# Words as bytes

`storeLE n v` is the value `v` in `n` bytes, low byte first; `loadLE` reads bytes back. `swap n`
reverses the bytes of an `n`-byte word, which on a little-endian host is the conversion
between host and network byte order in either direction.

`bind_eq_ok` takes a reader that succeeded apart.
-/

namespace Alpine.Lib

/-- The low `n` bytes of `v`, low byte first. -/
def storeLE : Nat → Nat → List UInt8
  | 0, _ => []
  | n + 1, v => UInt8.ofNat v :: storeLE n (v / 256)

def loadLE : List UInt8 → Nat
  | [] => 0
  | b :: bs => b.toNat + 256 * loadLE bs

@[simp] theorem length_storeLE (n v : Nat) : (storeLE n v).length = n := by
  induction n generalizing v with
  | zero => rfl
  | succ n ih => simp [storeLE, ih]

theorem loadLE_lt (bs : List UInt8) : loadLE bs < 256 ^ bs.length := by
  induction bs with
  | nil => simp [loadLE]
  | cons b bs ih =>
    have hb := b.toNat_lt
    simp only [loadLE, List.length_cons, pow_succ]
    omega

theorem loadLE_storeLE (n v : Nat) : loadLE (storeLE n v) = v % 256 ^ n := by
  induction n generalizing v with
  | zero => simp [storeLE, loadLE, Nat.mod_one]
  | succ n ih =>
    have hb : (UInt8.ofNat v).toNat = v % 256 := UInt8.toNat_ofNat'
    rw [storeLE, loadLE, ih, hb, pow_succ', Nat.mod_mul]

theorem loadLE_storeLE_of_lt {n v : Nat} (h : v < 256 ^ n) : loadLE (storeLE n v) = v := by
  rw [loadLE_storeLE, Nat.mod_eq_of_lt h]

theorem storeLE_loadLE (bs : List UInt8) : storeLE bs.length (loadLE bs) = bs := by
  induction bs with
  | nil => rfl
  | cons b bs ih =>
    have hb := b.toNat_lt
    have hq : (b.toNat + 256 * loadLE bs) / 256 = loadLE bs := by omega
    have hr : UInt8.ofNat (b.toNat + 256 * loadLE bs) = b := by
      apply UInt8.toNat_inj.mp
      rw [UInt8.toNat_ofNat']
      omega
    simp only [List.length_cons, storeLE, loadLE, hq, hr, ih]

/-- Reverse the bytes of an `n`-byte word. -/
def swap (n v : Nat) : Nat := loadLE (storeLE n v).reverse

theorem swap_lt (n v : Nat) : swap n v < 256 ^ n := by
  have := loadLE_lt (storeLE n v).reverse
  simpa [swap] using this

theorem swap_swap (n v : Nat) : swap n (swap n v) = v % 256 ^ n := by
  have h : storeLE n (swap n v) = (storeLE n v).reverse := by
    have := storeLE_loadLE (storeLE n v).reverse
    simpa [swap] using this
  unfold swap at h ⊢
  rw [h, List.reverse_reverse, loadLE_storeLE]

/-! ## Readers -/

theorem bind_eq_ok {ε α β : Type} {x : Except ε α} {f : α → Except ε β} {r : β} :
    (x >>= f) = .ok r ↔ ∃ a, x = .ok a ∧ f a = .ok r := by
  cases x <;> simp [bind, Except.bind]

end Alpine.Lib
