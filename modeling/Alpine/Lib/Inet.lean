import Mathlib.Data.Nat.Bitwise
import Alpine.Lib.Text

/-!
# Internet addresses

A 32-bit address, its text in dotted decimals and the ranges of addresses that share a prefix.
`inetPton` is `inet_pton` for the family `AF_INET`: four decimal numbers up to 255 without leading
zeros. It reads what `dotted` writes. `prefixMask` is the mask of a prefix length, and comparing two
addresses under it is comparing their first bits (`and_prefixMask_iff`).
-/

namespace Alpine.Lib

abbrev Address := BitVec 32

def parseOctet (s : List Char) : Option Nat :=
  if s = [] ∨ ¬ s.all Char.isDigit ∨ (1 < s.length ∧ s.head? = some '0') then none
  else if Nat.ofDigitChars 10 s 0 ≤ 255 then some (Nat.ofDigitChars 10 s 0)
  else none

/-- The address of four octets. -/
def ofOctets (a b c d : Nat) : Address := BitVec.ofNat 32 (((a * 256 + b) * 256 + c) * 256 + d)

def inetPton (s : List Char) : Option Address :=
  match s.splitOn '.' with
  | [a, b, c, d] => do
    let a ← parseOctet a
    let b ← parseOctet b
    let c ← parseOctet c
    let d ← parseOctet d
    pure (ofOctets a b c d)
  | _ => none

/-- The address that a string has, as C reads it. -/
def readAddress (s : List Char) : Option Address := inetPton (cString s)

/-- Octet `i` of an address, from the left. -/
def octet (address : Address) (i : Nat) : Nat := address.toNat / 256 ^ (3 - i) % 256

/-- The text of an address. -/
def dotted (address : Address) : List Char :=
  ['.'].intercalate ((List.range 4).map fun i => Nat.toDigits 10 (octet address i))

theorem parseOctet_toDigits : ∀ n : Fin 256, parseOctet (Nat.toDigits 10 n) = some n.val := by
  decide +kernel

theorem ofOctets_octet (address : Address) :
    ofOctets (octet address 0) (octet address 1) (octet address 2) (octet address 3) = address := by
  apply BitVec.eq_of_toNat_eq
  have hlt := address.isLt
  unfold ofOctets octet
  rw [BitVec.toNat_ofNat]
  omega

theorem splitOn_dotted (address : Address) :
    (dotted address).splitOn '.' = (List.range 4).map fun i => Nat.toDigits 10 (octet address i) := by
  refine List.splitOn_intercalate '.' ?_ (List.cons_ne_nil _ _)
  intro part hpart
  obtain ⟨i, -, rfl⟩ := List.mem_map.mp hpart
  exact not_mem_toDigits (by decide)

theorem inetPton_dotted (address : Address) : inetPton (dotted address) = some address := by
  have hoctet : ∀ i, parseOctet (Nat.toDigits 10 (octet address i)) = some (octet address i) :=
    fun i => parseOctet_toDigits ⟨octet address i, Nat.mod_lt _ (by decide)⟩
  unfold inetPton
  rw [splitOn_dotted]
  show (do
    let a ← parseOctet (Nat.toDigits 10 (octet address 0))
    let b ← parseOctet (Nat.toDigits 10 (octet address 1))
    let c ← parseOctet (Nat.toDigits 10 (octet address 2))
    let d ← parseOctet (Nat.toDigits 10 (octet address 3))
    pure (ofOctets a b c d)) = _
  rw [hoctet, hoctet, hoctet, hoctet]
  exact congrArg some (ofOctets_octet address)

/-- A number as C writes it: hexadecimal, octal or decimal. -/
def cNumber : List Char → Option Nat
  | '0' :: 'x' :: s => digits 16 s
  | '0' :: 'X' :: s => digits 16 s
  | '0' :: s => if s = [] then some 0 else digits 8 s
  | s => digits 10 s
where
  /-- The value of a digit. -/
  digit (c : Char) : Nat :=
    if c.isDigit then c.toNat - '0'.toNat
    else if 'a' ≤ c ∧ c ≤ 'f' then c.toNat - 'a'.toNat + 10
    else if 'A' ≤ c ∧ c ≤ 'F' then c.toNat - 'A'.toNat + 10
    else 16
  digits (base : Nat) (s : List Char) : Option Nat :=
    if s ≠ [] ∧ s.all (fun c => digit c < base) then
      some (s.foldl (fun value c => value * base + digit c) 0)
    else none

/-- `inet_aton`: up to four numbers, the last of which fills the bytes that are left; what comes
after a blank is not read. -/
def inetAton (s : List Char) : Option Address :=
  match (((cString s).takeWhile fun c => !isSpace c).splitOn '.').map cNumber with
  | [some a] => if a < 2 ^ 32 then some (BitVec.ofNat 32 a) else none
  | [some a, some b] => if a ≤ 255 ∧ b < 2 ^ 24 then some (BitVec.ofNat 32 (a * 2 ^ 24 + b)) else none
  | [some a, some b, some c] =>
    if a ≤ 255 ∧ b ≤ 255 ∧ c < 2 ^ 16 then some (BitVec.ofNat 32 ((a * 256 + b) * 2 ^ 16 + c))
    else none
  | [some a, some b, some c, some d] =>
    if a ≤ 255 ∧ b ≤ 255 ∧ c ≤ 255 ∧ d ≤ 255 then some (ofOctets a b c d) else none
  | _ => none

theorem cNumber_toDigits : ∀ n : Fin 256, cNumber (Nat.toDigits 10 n) = some n.val := by
  decide +kernel

/-- An octet is read from its own numeral only. -/
theorem parseOctet_eq_some {s : List Char} {n : Nat} (h : parseOctet s = some n) :
    n ≤ 255 ∧ s = Nat.toDigits 10 n := by
  unfold parseOctet at h
  split at h
  · cases h
  · next hform =>
    rw [not_or, not_or, not_not, List.all_eq_true] at hform
    obtain ⟨hne, hall, hzero⟩ := hform
    split at h
    · next hle =>
      cases h
      refine ⟨hle, (toDigits_ofDigitChars hne hall fun hhead => ?_).symm⟩
      by_contra hlong
      exact hzero ⟨by omega, hhead⟩
    · cases h

theorem octet_ofOctets {a b c d : Nat} (ha : a ≤ 255) (hb : b ≤ 255) (hc : c ≤ 255)
    (hd : d ≤ 255) :
    octet (ofOctets a b c d) 0 = a ∧ octet (ofOctets a b c d) 1 = b ∧
      octet (ofOctets a b c d) 2 = c ∧ octet (ofOctets a b c d) 3 = d := by
  unfold octet ofOctets
  rw [BitVec.toNat_ofNat]
  omega

/-- An address is read from its own text only. -/
theorem inetPton_eq_some {s : List Char} {address : Address} (h : inetPton s = some address) :
    s = dotted address := by
  unfold inetPton at h
  split at h
  · next a b c d hsplit =>
    simp only [bind, Option.bind_eq_some_iff] at h
    obtain ⟨na, ha, nb, hb, nc, hc, nd, hd, heq⟩ := h
    obtain ⟨hla, rfl⟩ := parseOctet_eq_some ha
    obtain ⟨hlb, rfl⟩ := parseOctet_eq_some hb
    obtain ⟨hlc, rfl⟩ := parseOctet_eq_some hc
    obtain ⟨hld, rfl⟩ := parseOctet_eq_some hd
    obtain ⟨h0, h1, h2, h3⟩ := octet_ofOctets hla hlb hlc hld
    have haddress : ofOctets na nb nc nd = address := Option.some.inj heq
    rw [haddress] at h0 h1 h2 h3
    rw [← @List.intercalate_splitOn _ s _ _ '.', hsplit]
    unfold dotted
    rw [show List.range 4 = [0, 1, 2, 3] from rfl]
    dsimp only [List.map]
    rw [h0, h1, h2, h3]
  · cases h

/-- A dotted text has digits and dots. -/
theorem not_mem_dotted {c : Char} (hc : c.isDigit = false) (hdot : c ≠ '.') (address : Address) :
    c ∉ dotted address := by
  unfold dotted
  rw [show List.range 4 = [0, 1, 2, 3] from rfl]
  simp [List.intercalate, not_mem_toDigits hc, hdot]

theorem inetAton_dotted (address : Address) : inetAton (dotted address) = some address := by
  have hlt : ∀ i, octet address i < 256 := fun i => Nat.mod_lt _ (by decide)
  have hblank : (dotted address).takeWhile (fun c => !isSpace c) = dotted address :=
    List.takeWhile_eq_self_iff.mpr fun c hc => by
      by_contra hspace
      have hdigit : c.isDigit = false ∧ c ≠ '.' := by
        simp only [isSpace, Bool.not_eq_true, Bool.not_eq_false', Bool.or_eq_true,
          decide_eq_true_eq] at hspace
        rcases hspace with ((((rfl | rfl) | rfl) | rfl) | rfl) | rfl <;> decide
      exact not_mem_dotted hdigit.1 hdigit.2 address hc
  have hparts : ((dotted address).splitOn '.').map cNumber =
      (List.range 4).map fun i => some (octet address i) := by
    rw [splitOn_dotted, List.map_map]
    exact List.map_congr_left fun i _ => cNumber_toDigits ⟨octet address i, hlt i⟩
  unfold inetAton
  rw [cString_of_not_mem (not_mem_dotted (by decide) (by decide) address), hblank, hparts]
  show (if _ then _ else _) = _
  rw [if_pos ⟨Nat.le_of_lt_succ (hlt 0), Nat.le_of_lt_succ (hlt 1), Nat.le_of_lt_succ (hlt 2),
    Nat.le_of_lt_succ (hlt 3)⟩, ofOctets_octet]

theorem readAddress_dotted (address : Address) : readAddress (dotted address) = some address := by
  unfold readAddress
  rw [cString_of_not_mem (not_mem_dotted (by decide) (by decide) address), inetPton_dotted]

/-! ## Prefixes -/

/-- Two addresses with the same first `prefixLen` bits. -/
def SamePrefix (prefixLen : Nat) (x y : Address) : Prop :=
  x.toNat / 2 ^ (32 - prefixLen) = y.toNat / 2 ^ (32 - prefixLen)

instance (prefixLen : Nat) (x y : Address) : Decidable (SamePrefix prefixLen x y) :=
  inferInstanceAs (Decidable (_ = _))

def prefixMask (prefixLen : Nat) : Address := BitVec.allOnes 32 <<< (32 - prefixLen)

theorem and_prefixMask_iff {x y : Address} (prefixLen : Nat) :
    x &&& prefixMask prefixLen = y &&& prefixMask prefixLen ↔ SamePrefix prefixLen x y := by
  have hshift : SamePrefix prefixLen x y ↔
      x >>> (32 - prefixLen) = y >>> (32 - prefixLen) := by
    rw [← BitVec.toNat_inj, BitVec.toNat_ushiftRight, BitVec.toNat_ushiftRight,
      Nat.shiftRight_eq_div_pow, Nat.shiftRight_eq_div_pow]
    rfl
  rw [hshift]
  unfold prefixMask
  constructor
  · intro h
    apply BitVec.eq_of_getLsbD_eq
    intro i hi
    rw [BitVec.getLsbD_ushiftRight, BitVec.getLsbD_ushiftRight]
    have hbit := congrArg (fun v => v.getLsbD (32 - prefixLen + i)) h
    simp only [BitVec.getLsbD_and, BitVec.getLsbD_shiftLeft, BitVec.getLsbD_allOnes] at hbit
    by_cases hin : 32 - prefixLen + i < 32
    · have hmask : (!decide (32 - prefixLen + i < 32 - prefixLen) &&
          decide (32 - prefixLen + i - (32 - prefixLen) < 32)) = true := by
        simp only [Bool.and_eq_true, Bool.not_eq_true', decide_eq_false_iff_not, decide_eq_true_eq]
        omega
      rw [decide_eq_true hin, Bool.true_and, hmask, Bool.and_true, Bool.and_true] at hbit
      exact hbit
    · rw [BitVec.getLsbD_of_ge x _ (by omega), BitVec.getLsbD_of_ge y _ (by omega)]
  · intro h
    apply BitVec.eq_of_getLsbD_eq
    intro i hi
    simp only [BitVec.getLsbD_and, BitVec.getLsbD_shiftLeft, BitVec.getLsbD_allOnes]
    by_cases hlow : i < 32 - prefixLen
    · simp [hlow]
    · have hbit := congrArg (fun v => v.getLsbD (i - (32 - prefixLen))) h
      simp only [BitVec.getLsbD_ushiftRight] at hbit
      rw [show 32 - prefixLen + (i - (32 - prefixLen)) = i by omega] at hbit
      rw [hbit]

end Alpine.Lib
