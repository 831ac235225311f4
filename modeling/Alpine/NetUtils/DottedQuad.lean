import Mathlib.Data.BitVec
import Alpine.Lib.Text

/-!
# Dotted quads

`stringIpToLong` reads an address in two passes: the first verifies the format, the second converts.
Strings are byte strings, a character for each byte, and are read up to their first null character.
An address is an `ulong` with the octets in the order that the network has them in, on a host that
keeps the low byte first.

The first pass does not see that nothing is behind the last dot. A string is read exactly as a
dotted quad if it does not end so, and has nothing behind a null character
(`exact_iff_not_misread`).
-/

namespace Alpine

open Lib

namespace NetUtils

/-- Octet `i` of a number, from the low end. -/
def lowOctet (v i : Nat) : Nat := v / 256 ^ i % 256

/-- The bytes of a 32-bit number in the other order; `ntohl` and `htonl`. -/
def htonl (v : BitVec 64) : BitVec 64 :=
  BitVec.ofNat 64 (((lowOctet v.toNat 0 * 256 + lowOctet v.toNat 1) * 256 +
    lowOctet v.toNat 2) * 256 + lowOctet v.toNat 3)

def digitValue (c : Char) : Nat := c.toNat - '0'.toNat

/-- The loop of the first pass; the number of dots, or nothing for a bad format. -/
def verify (tempVal decimalCount : Nat) : List Char → Option Nat
  | [] => some decimalCount
  | c :: rest =>
    if c = '.' then
      if rest.head? = some '.' then none else verify 0 (decimalCount + 1) rest
    else if c.isDigit = false then none
    else
      let tempVal := tempVal * 10 + digitValue c
      if tempVal > 255 then none else verify tempVal decimalCount rest

/-- The loop of the second pass. -/
def convert (val : BitVec 64) (n : BitVec 8) : List Char → BitVec 64
  | [] => val <<< 8 + n.setWidth 64
  | c :: rest =>
    if c.isDigit then convert val (n * 10 + BitVec.ofNat 8 (digitValue c)) rest
    else if c = '.' then convert ((if val ≠ 0 then val <<< 8 else val) + n.setWidth 64) 0 rest
    else val <<< 8 + n.setWidth 64

/-- The status, and what is left in the address. -/
def inet_addr_r (strIpAddress : List Char) : Bool × BitVec 64 :=
  match strIpAddress with
  | [] => (false, 0)
  | c :: _ =>
    if c.isDigit = false then (false, 0)
    else
      match verify 0 0 strIpAddress with
      | none => (false, 0)
      | some decimalCount =>
        if decimalCount ≠ 3 then (false, 0) else (true, htonl (convert 0 0 strIpAddress))

def stringIpToLong (strIpAddress : List Char) : Bool × BitVec 64 :=
  inet_addr_r (cString strIpAddress)

/-- What `"%d.%d.%d.%d"` is printed as. -/
def canonical (a b c d : Nat) : List Char :=
  Nat.toDigits 10 a ++ '.' :: (Nat.toDigits 10 b ++ '.' :: (Nat.toDigits 10 c ++
    '.' :: Nat.toDigits 10 d))

/-- The text that `snprintf` writes; `none` if it does not fit. -/
def inet_ntoa_r (netIpAddress : BitVec 64) (outBuffLen : Nat) : Option (List Char) :=
  let tempAddr := (htonl netIpAddress).toNat
  let text := canonical (lowOctet tempAddr 0) (lowOctet tempAddr 1) (lowOctet tempAddr 2)
    (lowOctet tempAddr 3)
  if text.length > outBuffLen then none else some text

def longIpToString (longIpAddress : BitVec 64) : Option (List Char) :=
  inet_ntoa_r (htonl longIpAddress) 64

/-! ## What texts denote -/

/-- A decimal number up to 255. -/
structure IsOctet (digits : List Char) (n : Nat) : Prop where
  decimal : Decimal digits
  value : Nat.ofDigitChars 10 digits 0 = n
  le : n ≤ 255

/-- Four numbers with dots between them. -/
def Quad (s : List Char) (a b c d : Nat) : Prop :=
  ∃ pa pb pc pd, s = pa ++ '.' :: (pb ++ '.' :: (pc ++ '.' :: pd)) ∧
    IsOctet pa a ∧ IsOctet pb b ∧ IsOctet pc c ∧ IsOctet pd d

/-- Three numbers, each with a dot behind it. -/
def Trailing (s : List Char) : Prop :=
  ∃ pa pb pc a b c, s = pa ++ '.' :: (pb ++ '.' :: (pc ++ ['.'])) ∧
    IsOctet pa a ∧ IsOctet pb b ∧ IsOctet pc c

/-- The address whose first octet is `a`, in the order of the network. -/
def networkOrder (a b c d : Nat) : BitVec 64 :=
  BitVec.ofNat 64 (a + 256 * (b + 256 * (c + 256 * d)))

/-- A string is read as the address that it denotes, and refused if it denotes none. -/
structure ReadExactly (s : List Char) : Prop where
  accepted : (stringIpToLong s).1 = true ↔ ∃ a b c d, Quad s a b c d
  value : ∀ a b c d, Quad s a b c d → stringIpToLong s = (true, networkOrder a b c d)
  refused : (stringIpToLong s).1 = false → (stringIpToLong s).2 = 0

/-- The string ends with a dot, or goes on behind a null character. -/
def Misread (s : List Char) : Prop :=
  Trailing (cString s) ∨ (∃ a b c d, Quad (cString s) a b c d) ∧ '\x00' ∈ s

/-- The address is written canonically, and read back. -/
def RoundTrips (v : BitVec 64) : Prop :=
  ∃ a b c d, a ≤ 255 ∧ b ≤ 255 ∧ c ≤ 255 ∧ d ≤ 255 ∧ v = networkOrder a b c d ∧
    longIpToString v = some (canonical a b c d) ∧ stringIpToLong (canonical a b c d) = (true, v)

/-! ## The two passes -/

variable {digits rest : List Char}

theorem ofDigitChars_cons' (c : Char) (digits : List Char) (t : Nat) :
    Nat.ofDigitChars 10 (c :: digits) t = Nat.ofDigitChars 10 digits (t * 10 + digitValue c) := by
  rw [Nat.ofDigitChars_cons, Nat.mul_comm]
  rfl

theorem le_ofDigitChars (digits : List Char) (t : Nat) : t ≤ Nat.ofDigitChars 10 digits t := by
  induction digits generalizing t with
  | nil => exact le_rfl
  | cons c digits ih =>
    rw [ofDigitChars_cons']
    have := ih (t * 10 + digitValue c)
    omega

theorem ne_dot {c : Char} (hc : c.isDigit = true) : c ≠ '.' := by
  rintro rfl
  cases hc

/-- The first pass over digits. -/
theorem verify_digits (hdigits : ∀ c ∈ digits, Char.isDigit c = true) {t : Nat} (ht : t ≤ 255)
    (k : Nat) : verify t k (digits ++ rest) =
      if Nat.ofDigitChars 10 digits t ≤ 255 then verify (Nat.ofDigitChars 10 digits t) k rest
      else none := by
  induction digits generalizing t with
  | nil => rw [Nat.ofDigitChars_nil, if_pos ht, List.nil_append]
  | cons c digits ih =>
    have hc := hdigits c (List.mem_cons_self ..)
    rw [List.cons_append, verify, if_neg (ne_dot hc), hc, if_neg (by decide), ofDigitChars_cons']
    dsimp only
    split
    · next hbig =>
      have := le_ofDigitChars digits (t * 10 + digitValue c)
      rw [if_neg (by omega)]
    · next hsmall =>
      exact ih (fun x hx => hdigits x (List.mem_cons_of_mem _ hx)) (Nat.not_lt.mp hsmall)

/-- The second pass over digits. -/
theorem convert_digits (hdigits : ∀ c ∈ digits, Char.isDigit c = true) (val : BitVec 64) (t : Nat) :
    convert val (BitVec.ofNat 8 t) (digits ++ rest) =
      convert val (BitVec.ofNat 8 (Nat.ofDigitChars 10 digits t)) rest := by
  induction digits generalizing t with
  | nil => rfl
  | cons c digits ih =>
    rw [List.cons_append, convert, if_pos (hdigits c (List.mem_cons_self ..)), ofDigitChars_cons',
      ← ih fun x hx => hdigits x (List.mem_cons_of_mem _ hx)]
    rw [BitVec.ofNat_add, BitVec.ofNat_mul]
    rfl

/-- What the first pass does with the digits at the front of a text, and with what stops them. -/
theorem verify_split {k m : Nat} {s : List Char} (h : verify 0 k s = some m) :
    ∃ digits, (∀ c ∈ digits, Char.isDigit c = true) ∧ Nat.ofDigitChars 10 digits 0 ≤ 255 ∧
      ((s = digits ∧ m = k) ∨ ∃ rest, s = digits ++ '.' :: rest ∧ rest.head? ≠ some '.' ∧
        verify 0 (k + 1) rest = some m) := by
  have hs : s.takeWhile Char.isDigit ++ s.dropWhile Char.isDigit = s :=
    List.takeWhile_append_dropWhile
  have hdigits : ∀ c ∈ s.takeWhile Char.isDigit, Char.isDigit c = true := fun c hc =>
    List.mem_takeWhile_imp hc
  refine ⟨s.takeWhile Char.isDigit, hdigits, ?_⟩
  rw [← hs, verify_digits hdigits (Nat.zero_le 255)] at h
  split at h
  · next hsmall =>
    refine ⟨hsmall, ?_⟩
    cases hrest : s.dropWhile Char.isDigit with
    | nil =>
      rw [hrest, List.append_nil] at hs
      rw [hrest, verify, Option.some.injEq] at h
      exact .inl ⟨hs.symm, h.symm⟩
    | cons c rest =>
      rw [hrest, verify] at h
      split at h
      · next hdot =>
        subst hdot
        split at h
        · cases h
        · next hne => exact .inr ⟨rest, by rw [← hrest, hs], hne, h⟩
      · have hstop : c.isDigit = false := by
          have := List.head?_dropWhile_not Char.isDigit s
          rw [hrest] at this
          simpa using this
        rw [if_pos hstop] at h
        cases h
  · cases h

theorem le_of_verify {k m : Nat} {s : List Char} (h : verify 0 k s = some m) : k ≤ m := by
  induction hlen : s.length using Nat.strongRecOn generalizing s k with
  | ind n ih =>
    obtain ⟨digits, -, -, ⟨-, rfl⟩ | ⟨rest, rfl, -, hrest⟩⟩ := verify_split h
    · exact le_rfl
    · have hshort : rest.length < n := by
        rw [← hlen, List.length_append, List.length_cons]
        omega
      have := ih rest.length hshort hrest rfl
      omega

/-- A number that is not the last one. -/
theorem verify_dot {k m : Nat} {s : List Char} (h : verify 0 k s = some m) (hkm : k ≠ m)
    (hhead : s.head? ≠ some '.') : ∃ digits n rest, IsOctet digits n ∧ s = digits ++ '.' :: rest ∧
      rest.head? ≠ some '.' ∧ verify 0 (k + 1) rest = some m := by
  obtain ⟨digits, hdigits, hle, ⟨-, rfl⟩ | ⟨rest, rfl, hrest, hverify⟩⟩ := verify_split h
  · exact absurd rfl hkm
  · have hne : digits ≠ [] := by
      rintro rfl
      exact hhead rfl
    exact ⟨digits, _, rest, ⟨⟨hne, hdigits⟩, rfl, hle⟩, rfl, hrest, hverify⟩

theorem verify_octet {digits : List Char} {n : Nat} (h : IsOctet digits n) (k : Nat)
    (rest : List Char) : verify 0 k (digits ++ rest) = verify n k rest := by
  have hle : Nat.ofDigitChars 10 digits 0 ≤ 255 := h.value.symm ▸ h.le
  rw [verify_digits h.decimal.2 (Nat.zero_le 255), if_pos hle, h.value]

theorem verify_octet_dot {digits : List Char} {n : Nat} (h : IsOctet digits n) (k : Nat)
    {rest : List Char} (hrest : rest.head? ≠ some '.') :
    verify 0 k (digits ++ '.' :: rest) = verify 0 (k + 1) rest := by
  rw [verify_octet h, verify, if_pos rfl, if_neg hrest]

theorem IsOctet.head? {digits : List Char} {n : Nat} (h : IsOctet digits n) (rest : List Char) :
    ∃ c, (digits ++ rest).head? = some c ∧ c.isDigit = true := by
  obtain ⟨c, digits, rfl⟩ := List.exists_cons_of_ne_nil h.decimal.1
  exact ⟨c, rfl, h.decimal.2 c (List.mem_cons_self ..)⟩

theorem IsOctet.head?_ne_dot {digits : List Char} {n : Nat} (h : IsOctet digits n)
    (rest : List Char) : (digits ++ rest).head? ≠ some '.' := by
  obtain ⟨c, hc, hdigit⟩ := h.head? rest
  rw [hc, Ne, Option.some.injEq]
  exact ne_dot hdigit

/-- What the first pass accepts. -/
def Accepted (s : List Char) : Prop :=
  (∃ c, s.head? = some c ∧ c.isDigit = true) ∧ verify 0 0 s = some 3

theorem accepted_iff (s : List Char) : Accepted s ↔ (∃ a b c d, Quad s a b c d) ∨ Trailing s := by
  constructor
  · rintro ⟨⟨c₀, hhead, hdigit⟩, hverify⟩
    have hfirst : s.head? ≠ some '.' := by
      rw [hhead, Ne, Option.some.injEq]
      exact ne_dot hdigit
    obtain ⟨pa, a, s, ha, rfl, hs, hverify⟩ := verify_dot hverify (by decide) hfirst
    obtain ⟨pb, b, s, hb, rfl, hs, hverify⟩ := verify_dot hverify (by decide) hs
    obtain ⟨pc, c, s, hc, rfl, -, hverify⟩ := verify_dot hverify (by decide) hs
    obtain ⟨pd, hpd, hle, ⟨rfl, -⟩ | ⟨rest, -, -, hmore⟩⟩ := verify_split hverify
    · by_cases hnil : s = []
      · subst hnil
        exact .inr ⟨pa, pb, pc, a, b, c, rfl, ha, hb, hc⟩
      · exact .inl ⟨a, b, c, _, pa, pb, pc, s, rfl, ha, hb, hc, ⟨hnil, hpd⟩, rfl, hle⟩
    · have := le_of_verify hmore
      omega
  · rintro (⟨a, b, c, d, pa, pb, pc, pd, rfl, ha, hb, hc, hd⟩ |
      ⟨pa, pb, pc, a, b, c, rfl, ha, hb, hc⟩)
    · refine ⟨ha.head? _, ?_⟩
      have hlast := verify_octet hd 3 []
      rw [List.append_nil] at hlast
      have hpd : pd.head? ≠ some '.' := by
        have := hd.head?_ne_dot []
        rwa [List.append_nil] at this
      rw [verify_octet_dot ha 0 (hb.head?_ne_dot _), verify_octet_dot hb 1 (hc.head?_ne_dot _),
        verify_octet_dot hc 2 hpd, hlast]
      rfl
    · refine ⟨ha.head? _, ?_⟩
      rw [verify_octet_dot ha 0 (hb.head?_ne_dot _), verify_octet_dot hb 1 (hc.head?_ne_dot _),
        verify_octet_dot hc 2 (by simp)]
      rfl

theorem inet_addr_r_of_accepted {s : List Char} (h : Accepted s) :
    inet_addr_r s = (true, htonl (convert 0 0 s)) := by
  obtain ⟨⟨c, hhead, hdigit⟩, hverify⟩ := h
  cases s with
  | nil => cases hhead
  | cons c' s =>
    obtain rfl := Option.some.inj hhead
    unfold inet_addr_r
    dsimp only
    rw [if_neg (by rw [hdigit]; decide), hverify]
    rfl

theorem inet_addr_r_of_not_accepted {s : List Char} (h : ¬ Accepted s) :
    inet_addr_r s = (false, 0) := by
  cases s with
  | nil => rfl
  | cons c s =>
    unfold inet_addr_r
    dsimp only
    split
    · rfl
    · next hdigit =>
      rw [Bool.not_eq_false] at hdigit
      split
      · rfl
      · next decimalCount hverify =>
        rw [if_pos]
        rintro rfl
        exact h ⟨⟨c, rfl, hdigit⟩, hverify⟩

/-! ## The address -/

/-- The number that the second pass makes of four octets. -/
theorem convert_quad {s : List Char} {a b c d : Nat} (h : Quad s a b c d) :
    (convert 0 0 s).toNat = ((a * 256 + b) * 256 + c) * 256 + d := by
  obtain ⟨pa, pb, pc, pd, rfl, ha, hb, hc, hd⟩ := h
  have hdigits : ∀ {part n} (val : BitVec 64) (rest), IsOctet part n →
      convert val 0 (part ++ rest) = convert val (BitVec.ofNat 8 n) rest := fun val rest hpart => by
    have := @convert_digits _ rest hpart.decimal.2 val 0
    rwa [hpart.value] at this
  have hdot : ∀ (val : BitVec 64) (n : BitVec 8) (rest),
      convert val n ('.' :: rest) = convert (val <<< 8 + n.setWidth 64) 0 rest := by
    intro val n rest
    rw [convert, if_neg (by decide), if_pos rfl]
    by_cases hval : val = 0
    · subst hval
      rfl
    · rw [if_pos hval]
  have hoctet : ∀ {n v : Nat} (val : BitVec 64), val.toNat = v → v < 2 ^ 32 → n ≤ 255 →
      (val <<< 8 + (BitVec.ofNat 8 n).setWidth 64).toNat = v * 256 + n :=
    fun {n v} val hval hv hn => by
      rw [BitVec.toNat_add, BitVec.toNat_shiftLeft, BitVec.toNat_setWidth, BitVec.toNat_ofNat,
        Nat.shiftLeft_eq, hval]
      omega
  have hend : ∀ (val : BitVec 64), convert val 0 pd = val <<< 8 + (BitVec.ofNat 8 d).setWidth 64 :=
    fun val => by
      have := hdigits val [] hd
      rw [List.append_nil] at this
      rw [this, convert]
  have hla := ha.le
  have hlb := hb.le
  have hlc := hc.le
  rw [hdigits _ _ ha, hdot, hdigits _ _ hb, hdot, hdigits _ _ hc, hdot, hend]
  have h1 := hoctet (n := a) 0 (v := 0) rfl (by decide) hla
  have h2 := hoctet (n := b) _ h1 (by omega) hlb
  have h3 := hoctet (n := c) _ h2 (by omega) hlc
  have h4 := hoctet (n := d) _ h3 (by omega) hd.le
  rw [h4]
  omega

/-- The octets of a number. -/
theorem lowOctet_number {a b c d : Nat} (ha : a ≤ 255) (hb : b ≤ 255) (hc : c ≤ 255)
    (hd : d ≤ 255) : lowOctet (((a * 256 + b) * 256 + c) * 256 + d) 0 = d ∧
      lowOctet (((a * 256 + b) * 256 + c) * 256 + d) 1 = c ∧
      lowOctet (((a * 256 + b) * 256 + c) * 256 + d) 2 = b ∧
      lowOctet (((a * 256 + b) * 256 + c) * 256 + d) 3 = a := by
  unfold lowOctet
  refine ⟨?_, ?_, ?_, ?_⟩ <;> omega

theorem lowOctet_le (v i : Nat) : lowOctet v i ≤ 255 :=
  Nat.le_of_lt_succ (Nat.mod_lt _ (by decide))

theorem htonl_convert {s : List Char} {a b c d : Nat} (h : Quad s a b c d) :
    htonl (convert 0 0 s) = networkOrder a b c d := by
  have hnumber := convert_quad h
  obtain ⟨pa, pb, pc, pd, -, ha, hb, hc, hd⟩ := h
  obtain ⟨h0, h1, h2, h3⟩ := lowOctet_number ha.le hb.le hc.le hd.le
  unfold htonl networkOrder
  rw [hnumber, h0, h1, h2, h3]
  exact congrArg (BitVec.ofNat 64) (by omega)

theorem not_mem_quad {s : List Char} {a b c d : Nat} (h : Quad s a b c d) : '\x00' ∉ s := by
  obtain ⟨pa, pb, pc, pd, rfl, ha, hb, hc, hd⟩ := h
  have hpart : ∀ {part n}, IsOctet part n → '\x00' ∉ part := fun hp hmem =>
    absurd (hp.decimal.2 _ hmem) (by decide)
  simp [hpart ha, hpart hb, hpart hc, hpart hd]

/-- A text that ends with a dot has another number of dots than numbers. -/
theorem not_quad_of_trailing {s : List Char} (h : Trailing s) (a b c d : Nat) :
    ¬ Quad s a b c d := by
  obtain ⟨pa, pb, pc, a', b', c', rfl, -, -, -⟩ := h
  rintro ⟨qa, qb, qc, qd, hs, -, -, -, hd⟩
  have hfront : pa ++ '.' :: (pb ++ '.' :: (pc ++ ['.'])) =
      (pa ++ '.' :: (pb ++ '.' :: pc)) ++ ['.'] := by simp
  have hback : qa ++ '.' :: (qb ++ '.' :: (qc ++ '.' :: qd)) =
      (qa ++ '.' :: (qb ++ '.' :: (qc ++ ['.']))) ++ qd := by simp
  have hlast := congrArg List.getLast? hs
  rw [hfront, hback, List.getLast?_concat,
    List.getLast?_append_of_ne_nil _ hd.decimal.1] at hlast
  exact absurd (hd.decimal.2 _ (List.mem_of_getLast? hlast.symm)) (by decide)

/-! ## Reading and writing -/

theorem isOctet_toDigits {n : Nat} (h : n ≤ 255) : IsOctet (Nat.toDigits 10 n) n where
  decimal := ⟨Nat.toDigits_ne_nil, fun _ hc => isDigit_toDigits hc⟩
  value := Nat.ofDigitChars_ten_toDigits
  le := h

theorem quad_canonical {a b c d : Nat} (ha : a ≤ 255) (hb : b ≤ 255) (hc : c ≤ 255)
    (hd : d ≤ 255) : Quad (canonical a b c d) a b c d :=
  ⟨_, _, _, _, rfl, isOctet_toDigits ha, isOctet_toDigits hb, isOctet_toDigits hc,
    isOctet_toDigits hd⟩

/-- A dotted quad is read as its address. -/
theorem stringIpToLong_quad {s : List Char} {a b c d : Nat} (h : Quad s a b c d) :
    stringIpToLong s = (true, networkOrder a b c d) := by
  unfold stringIpToLong
  rw [cString_of_not_mem (not_mem_quad h),
    inet_addr_r_of_accepted ((accepted_iff s).mpr (.inl ⟨a, b, c, d, h⟩)), htonl_convert h]

theorem stringIpToLong_accepted (s : List Char) :
    (stringIpToLong s).1 = true ↔ Accepted (cString s) := by
  unfold stringIpToLong
  by_cases h : Accepted (cString s)
  · rw [inet_addr_r_of_accepted h]
    exact iff_of_true rfl h
  · rw [inet_addr_r_of_not_accepted h]
    exact iff_of_false Bool.false_ne_true h

theorem stringIpToLong_refused {s : List Char} (h : (stringIpToLong s).1 = false) :
    (stringIpToLong s).2 = 0 := by
  have hnot : ¬ Accepted (cString s) := by
    rw [← stringIpToLong_accepted, h]
    exact Bool.false_ne_true
  unfold stringIpToLong
  rw [inet_addr_r_of_not_accepted hnot]

theorem cString_eq_self_iff (s : List Char) : cString s = s ↔ '\x00' ∉ s := by
  refine ⟨fun h hmem => ?_, cString_of_not_mem⟩
  rw [← h] at hmem
  have := List.mem_takeWhile_imp hmem
  simp at this

theorem readExactly_iff (s : List Char) : ReadExactly s ↔ ¬ Misread s := by
  constructor
  · rintro ⟨haccepted, -, -⟩ hmis
    have haccept : Accepted (cString s) := by
      rw [accepted_iff]
      rcases hmis with htrail | ⟨hquad, -⟩
      · exact .inr htrail
      · exact .inl hquad
    obtain ⟨a, b, c, d, hquad⟩ := haccepted.mp ((stringIpToLong_accepted s).mpr haccept)
    have hzero := not_mem_quad hquad
    rcases hmis with htrail | ⟨-, hmem⟩
    · rw [cString_of_not_mem hzero] at htrail
      exact not_quad_of_trailing htrail a b c d hquad
    · exact hzero hmem
  · intro hmis
    simp only [Misread, not_or, not_and] at hmis
    obtain ⟨htrail, hnull⟩ := hmis
    refine ⟨⟨fun h => ?_, fun ⟨a, b, c, d, h⟩ => ?_⟩, fun a b c d => stringIpToLong_quad,
      stringIpToLong_refused⟩
    · rw [stringIpToLong_accepted, accepted_iff, or_iff_left htrail] at h
      have hself := (cString_eq_self_iff s).mpr (hnull h)
      rwa [hself] at h
    · rw [stringIpToLong_quad h]

theorem toNat_networkOrder {a b c d : Nat} (ha : a ≤ 255) (hb : b ≤ 255) (hc : c ≤ 255)
    (hd : d ≤ 255) : (networkOrder a b c d).toNat = a + 256 * (b + 256 * (c + 256 * d)) :=
  Nat.mod_eq_of_lt (by omega)

theorem lowOctets_eq (v : Nat) : lowOctet v 0 + 256 * (lowOctet v 1 + 256 * (lowOctet v 2 +
    256 * lowOctet v 3)) = v % 2 ^ 32 := by
  have h2 : v / 65536 = v / 256 / 256 := (Nat.div_div_eq_div_mul v 256 256).symm
  have h3 : v / 16777216 = v / 65536 / 256 := (Nat.div_div_eq_div_mul v 65536 256).symm
  simp only [lowOctet, Nat.reducePow, Nat.div_one]
  omega

/-- The bytes are turned around twice. -/
theorem toNat_htonl_htonl (v : BitVec 64) : (htonl (htonl v)).toNat = v.toNat % 2 ^ 32 := by
  have hle := lowOctet_le v.toNat
  have hnumber : (htonl v).toNat = ((lowOctet v.toNat 0 * 256 + lowOctet v.toNat 1) * 256 +
      lowOctet v.toNat 2) * 256 + lowOctet v.toNat 3 := Nat.mod_eq_of_lt (by
    have := hle 0
    have := hle 1
    have := hle 2
    have := hle 3
    omega)
  obtain ⟨h0, h1, h2, h3⟩ := lowOctet_number (hle 0) (hle 1) (hle 2) (hle 3)
  rw [← hnumber] at h0 h1 h2 h3
  rw [← lowOctets_eq, ← toNat_networkOrder (hle 0) (hle 1) (hle 2) (hle 3)]
  unfold htonl networkOrder at *
  rw [h0, h1, h2, h3]
  exact congrArg BitVec.toNat (congrArg (BitVec.ofNat 64) (by omega))

/-- An address is written by its low octets. -/
theorem longIpToString_eq (v : BitVec 64) : longIpToString v = some
    (canonical (lowOctet v.toNat 0) (lowOctet v.toNat 1) (lowOctet v.toNat 2)
      (lowOctet v.toNat 3)) := by
  have hlow : ∀ i < 4, lowOctet (htonl (htonl v)).toNat i = lowOctet v.toNat i := by
    intro i hi
    rw [toNat_htonl_htonl]
    unfold lowOctet
    rcases (by omega : i = 0 ∨ i = 1 ∨ i = 2 ∨ i = 3) with rfl | rfl | rfl | rfl <;> omega
  have hlen : ∀ i, (Nat.toDigits 10 (lowOctet v.toNat i)).length ≤ 3 := fun i =>
    (Nat.length_toDigits_le_iff (by decide) (by decide)).mpr
      (Nat.lt_of_le_of_lt (lowOctet_le v.toNat i) (by decide))
  unfold longIpToString inet_ntoa_r
  dsimp only
  rw [hlow 0 (by decide), hlow 1 (by decide), hlow 2 (by decide), hlow 3 (by decide)]
  rw [if_neg]
  · have := hlen 0
    have := hlen 1
    have := hlen 2
    have := hlen 3
    simp only [canonical, List.length_append, List.length_cons]
    omega

theorem number_roundTrips_iff (v : BitVec 64) : RoundTrips v ↔ v.toNat < 2 ^ 32 := by
  have hle := lowOctet_le v.toNat
  constructor
  · rintro ⟨a, b, c, d, ha, hb, hc, hd, rfl, -, -⟩
    rw [toNat_networkOrder ha hb hc hd]
    omega
  · intro hv
    have hself : v = networkOrder (lowOctet v.toNat 0) (lowOctet v.toNat 1) (lowOctet v.toNat 2)
        (lowOctet v.toNat 3) := by
      apply BitVec.eq_of_toNat_eq
      rw [toNat_networkOrder (hle 0) (hle 1) (hle 2) (hle 3), lowOctets_eq, Nat.mod_eq_of_lt hv]
    refine ⟨_, _, _, _, hle 0, hle 1, hle 2, hle 3, hself, longIpToString_eq v, ?_⟩
    rw [stringIpToLong_quad (quad_canonical (hle 0) (hle 1) (hle 2) (hle 3)), ← hself]

/-- The exact strings that are read as what they denote, and the numbers that are written as
addresses and read back. -/
theorem exact_iff_not_misread (s : List Char) (v : BitVec 64) :
    (ReadExactly s ↔ ¬ Misread s) ∧ (RoundTrips v ↔ v.toNat < 2 ^ 32) :=
  ⟨readExactly_iff s, number_roundTrips_iff v⟩

/-- A text that ends with a dot is accepted. -/
theorem trailingDot_not_exact : ¬ ReadExactly "1.2.3.".toList := by
  rw [readExactly_iff, not_not]
  exact .inl ⟨['1'], ['2'], ['3'], 1, 2, 3, rfl, isOctet_toDigits (n := 1) (by decide),
    isOctet_toDigits (n := 2) (by decide), isOctet_toDigits (n := 3) (by decide)⟩

example : stringIpToLong "1.2.3.".toList = (true, networkOrder 1 2 3 0) := by decide +kernel

end NetUtils

end Alpine
