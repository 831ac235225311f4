import Alpine.Protocol.IpFilter

/-!
# The grammar of the ranges

A range is written as an address in dotted decimals, alone or with a slash and the number of its
first bits behind it (`CidrText`); `Denotes` says which network and mask that is. `parseCidr` reads
every such text as what it denotes. It also reads texts that are none: `std::stoi` passes over
blanks, a sign and what is behind the number, and `inet_pton` ends at the first null character.
`Exact` holds of a text where this does not happen (`exact_iff`).
-/

namespace Alpine

open Lib

/-- The text of the range of the first `prefixLen` bits of an address. -/
inductive CidrText : List Char → Address → Nat → Prop
  | host (address : Address) : CidrText (dotted address) address 32
  | range (address : Address) {digits : List Char} (hdigits : Decimal digits)
      (hlen : Nat.ofDigitChars 10 digits 0 ≤ 32) :
      CidrText (dotted address ++ '/' :: digits) address (Nat.ofDigitChars 10 digits 0)

/-- The mask has the first `prefixLen` bits, and the network those bits of the address. -/
structure Denotes (entry : CidrEntry) (address : Address) (prefixLen : Nat) : Prop where
  mask : ∀ i < 32, entry.mask.getMsbD i = decide (i < prefixLen)
  network : ∀ i < 32, entry.network.getMsbD i = (address.getMsbD i && decide (i < prefixLen))

namespace IpFilter

/-- What is before the first slash. -/
def beforeSlash (cidr : List Char) : List Char := cidr.takeWhile (· ≠ '/')

/-- A text of the grammar is read as what it denotes, and no other text is read. -/
structure Exact (cidr : List Char) : Prop where
  reads : ∀ address prefixLen, CidrText cidr address prefixLen →
    ∃ entry, parseCidr cidr = some entry ∧ Denotes entry address prefixLen
  refuses : (∀ address prefixLen, ¬ CidrText cidr address prefixLen) → parseCidr cidr = none

/-- The exact condition. Where the library reads a length and an address, nothing but digits is
behind the slash, and no null character before it. -/
def NothingSkipped (cidr : List Char) : Prop :=
  parsePrefixLen (afterSlash cidr) ≠ none → readAddress (beforeSlash cidr) ≠ none →
    (∀ rest, afterSlash cidr = some rest → ∀ c ∈ rest, Char.isDigit c = true) ∧
      '\x00' ∉ beforeSlash cidr

/-! ## The texts of the grammar -/

theorem denotes_prefixMask (cidr : List Char) (address : Address) {prefixLen : Nat}
    (hlen : prefixLen ≤ 32) :
    Denotes ⟨address &&& prefixMask prefixLen, prefixMask prefixLen, cidr⟩ address prefixLen := by
  have hmask : ∀ i < 32, (prefixMask prefixLen).getMsbD i = decide (i < prefixLen) := by
    intro i hi
    unfold prefixMask
    rw [BitVec.getMsbD_shiftLeft, BitVec.getMsbD_allOnes]
    exact decide_eq_decide.mpr (by omega)
  refine ⟨hmask, fun i hi => ?_⟩
  rw [BitVec.getMsbD_and, hmask i hi]

theorem parsePrefixLen_decimal {digits : List Char} (hdigits : Decimal digits) :
    parsePrefixLen (some digits) = if Nat.ofDigitChars 10 digits 0 ≤ 32 then
      some (Nat.ofDigitChars 10 digits 0) else none := by
  unfold parsePrefixLen
  dsimp only
  rw [stoi_decimal hdigits]
  by_cases hlen : Nat.ofDigitChars 10 digits 0 ≤ 32
  · rw [if_pos (by omega), if_pos hlen]
    dsimp only
    rw [if_neg (by omega), Int.toNat_natCast]
  · rw [if_neg hlen]
    by_cases hint : Nat.ofDigitChars 10 digits 0 < 2 ^ 31
    · rw [if_pos hint]
      dsimp only
      rw [if_pos (by omega)]
    · rw [if_neg hint]

/-- A text is what is before its first slash, and the slash with what is behind it. -/
theorem split_slash (cidr : List Char) :
    (afterSlash cidr = none ∧ cidr = beforeSlash cidr) ∨
      ∃ rest, afterSlash cidr = some rest ∧ cidr = beforeSlash cidr ++ '/' :: rest := by
  have hsplit := List.takeWhile_append_dropWhile (p := (· ≠ '/')) (l := cidr)
  unfold afterSlash beforeSlash
  cases hdrop : cidr.dropWhile (· ≠ '/') with
  | nil =>
    refine .inl ⟨rfl, ?_⟩
    rw [hdrop, List.append_nil] at hsplit
    exact hsplit.symm
  | cons c rest =>
    have hslash : c = '/' := by
      have hhead := List.head?_dropWhile_not (· ≠ '/') cidr
      rw [hdrop] at hhead
      simpa using hhead
    subst hslash
    refine .inr ⟨rest, rfl, ?_⟩
    rw [hdrop] at hsplit
    exact hsplit.symm

theorem slash_not_mem_dotted (address : Address) : ∀ c ∈ dotted address, c ≠ '/' := by
  rintro c hc rfl
  exact not_mem_dotted (by decide) (by decide) address hc

theorem parts_of_range (address : Address) (digits : List Char) :
    beforeSlash (dotted address ++ '/' :: digits) = dotted address ∧
      afterSlash (dotted address ++ '/' :: digits) = some digits := by
  have hslash : ∀ c ∈ dotted address, decide (c ≠ '/') = true :=
    fun c hc => decide_eq_true (slash_not_mem_dotted address c hc)
  constructor
  · unfold beforeSlash
    rw [List.takeWhile_append_of_pos hslash]
    exact List.append_nil _
  · unfold afterSlash
    rw [List.dropWhile_append_of_pos hslash]
    rfl

/-- The grammar is read as it is written. -/
theorem readCidr_of_cidrText {cidr : List Char} {address : Address} {prefixLen : Nat}
    (h : CidrText cidr address prefixLen) :
    readCidr cidr = some (address, prefixLen) ∧ prefixLen ≤ 32 := by
  cases h with
  | host => exact ⟨readCidr_host address, le_refl 32⟩
  | range _ hdigits hlen =>
    obtain ⟨hbefore, hafter⟩ := parts_of_range address _
    refine ⟨?_, hlen⟩
    unfold beforeSlash at hbefore
    unfold readCidr
    rw [hafter, hbefore, parsePrefixLen_decimal hdigits, if_pos hlen, readAddress_dotted]
    rfl

/-- What is read without passing over anything is a text of the grammar. -/
theorem cidrText_of_readCidr {cidr : List Char} {address : Address} {prefixLen : Nat}
    (h : readCidr cidr = some (address, prefixLen)) (hall : ∀ rest, afterSlash cidr = some rest →
      ∀ c ∈ rest, Char.isDigit c = true) (hnull : '\x00' ∉ beforeSlash cidr) :
    CidrText cidr address prefixLen := by
  unfold readCidr at h
  simp only [bind, Option.bind_eq_some_iff] at h
  obtain ⟨n, hlen, base, hbase, heq⟩ := h
  obtain ⟨rfl, rfl⟩ := Prod.mk.inj (Option.some.inj heq)
  have hdotted : beforeSlash cidr = dotted base := by
    refine inetPton_eq_some ?_
    rw [← cString_of_not_mem hnull]
    exact hbase
  rcases split_slash cidr with ⟨hafter, hcidr⟩ | ⟨rest, hafter, hcidr⟩
  · rw [hafter] at hlen
    cases hlen
    rw [hcidr, hdotted]
    exact .host base
  · have hrest := hall rest hafter
    have hne : rest ≠ [] := by
      rintro rfl
      rw [hafter] at hlen
      cases hlen
    rw [hafter, parsePrefixLen_decimal ⟨hne, hrest⟩] at hlen
    split at hlen
    · next hle =>
      cases hlen
      rw [hcidr, hdotted]
      exact .range base ⟨hne, hrest⟩ hle
    · cases hlen

/-- A text of the grammar has nothing to pass over. -/
theorem nothingSkipped_of_cidrText {cidr : List Char} {address : Address} {prefixLen : Nat}
    (h : CidrText cidr address prefixLen) :
    (∀ rest, afterSlash cidr = some rest → ∀ c ∈ rest, Char.isDigit c = true) ∧
      '\x00' ∉ beforeSlash cidr := by
  have hnull : '\x00' ∉ dotted address := not_mem_dotted (by decide) (by decide) address
  cases h with
  | host =>
    rcases split_slash (dotted address) with ⟨hafter, hcidr⟩ | ⟨rest, hafter, hcidr⟩
    · refine ⟨fun rest h => ?_, ?_⟩
      · rw [hafter] at h
        cases h
      · rw [← hcidr]
        exact hnull
    · refine absurd rfl (slash_not_mem_dotted address '/' ?_)
      rw [hcidr]
      simp
  | range _ hdigits hlen =>
    obtain ⟨hbefore, hafter⟩ := parts_of_range address _
    refine ⟨fun rest h => ?_, ?_⟩
    · rw [hafter] at h
      cases h
      exact hdigits.2
    · rw [hbefore]
      exact hnull

/-! ## The parser -/

theorem reads_of_cidrText {cidr : List Char} {address : Address} {prefixLen : Nat}
    (h : CidrText cidr address prefixLen) :
    ∃ entry, parseCidr cidr = some entry ∧ Denotes entry address prefixLen := by
  obtain ⟨hread, hlen⟩ := readCidr_of_cidrText h
  refine ⟨_, ?_, denotes_prefixMask cidr address hlen⟩
  rw [parseCidr_eq, hread]
  rfl

theorem readCidr_isSome_iff {cidr : List Char} : readCidr cidr ≠ none ↔
    parsePrefixLen (afterSlash cidr) ≠ none ∧ readAddress (beforeSlash cidr) ≠ none := by
  unfold readCidr beforeSlash
  cases parsePrefixLen (afterSlash cidr) <;> cases readAddress (cidr.takeWhile (· ≠ '/')) <;> simp

/-- A text is read exactly as the grammar says if the library has nothing in it to pass over. -/
theorem exact_iff (cidr : List Char) : Exact cidr ↔ NothingSkipped cidr := by
  constructor
  · intro hexact hlen hbase
    by_cases htext : ∃ address prefixLen, CidrText cidr address prefixLen
    · obtain ⟨address, prefixLen, htext⟩ := htext
      exact nothingSkipped_of_cidrText htext
    · have hnone := hexact.refuses fun address prefixLen h => htext ⟨address, prefixLen, h⟩
      rw [parseCidr_eq, Option.map_eq_none_iff] at hnone
      exact absurd hnone (readCidr_isSome_iff.mpr ⟨hlen, hbase⟩)
  · intro hplain
    refine ⟨fun address prefixLen htext => reads_of_cidrText htext, fun hnot => ?_⟩
    rw [parseCidr_eq, Option.map_eq_none_iff]
    by_contra hread
    obtain ⟨hlen, hbase⟩ := readCidr_isSome_iff.mp hread
    obtain ⟨hall, hnull⟩ := hplain hlen hbase
    obtain ⟨⟨address, prefixLen⟩, heq⟩ := Option.ne_none_iff_exists'.mp hread
    exact hnot address prefixLen (cidrText_of_readCidr heq hall hnull)

/-- The text `10.0.0.0/8x` is read as a range. -/
theorem trailingText_not_exact : ¬ Exact "10.0.0.0/8x".toList := by
  have hread : parseCidr "10.0.0.0/8x".toList ≠ none := by decide +kernel
  have hafter : afterSlash "10.0.0.0/8x".toList = some ['8', 'x'] := by decide +kernel
  intro hexact
  refine hread (hexact.refuses fun address prefixLen htext => ?_)
  have hx := (nothingSkipped_of_cidrText htext).1 _ hafter 'x' (by simp)
  exact absurd hx (by decide)

end IpFilter

end Alpine
