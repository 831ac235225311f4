import Alpine.Lib.Inet
import Alpine.Lib.Run

/-!
# The address filter

`IpFilter` has a list of allowed and a list of blocked ranges, each with the text it was given as. A
blocked address is refused, and a list of allowed ranges that is not empty admits only what is in
it. `Rules` are the two sets of texts, `Admits` is what they say of an address, and `isAllowed`
says the same of every filter whose entries are what their texts say (`isAllowed_iff`).
-/

namespace Alpine

open Lib

structure CidrEntry where
  network : Address
  mask : Address
  original : List Char
  deriving DecidableEq, Repr

structure IpFilter where
  allowlist : List CidrEntry
  blocklist : List CidrEntry
  allowlistFile : List Char
  blocklistFile : List Char
  deriving DecidableEq, Repr

namespace IpFilter

def new : IpFilter := ⟨[], [], [], []⟩

/-! ## Rules from text -/

/-- What is behind the first slash of a text. -/
def afterSlash (cidr : List Char) : Option (List Char) :=
  match cidr.dropWhile (· ≠ '/') with
  | [] => none
  | _ :: s => some s

/-- Without a slash the range is a single host. -/
def parsePrefixLen : Option (List Char) → Option Nat
  | none => some 32
  | some s =>
    match stoi s with
    | none => none
    | some prefixLen => if prefixLen < 0 ∨ prefixLen > 32 then none else some prefixLen.toNat

def parseCidr (cidr : List Char) : Option CidrEntry := do
  let prefixLen ← parsePrefixLen (afterSlash cidr)
  let addr ← readAddress (cidr.takeWhile (· ≠ '/'))
  let mask := if prefixLen = 0 then 0 else ~~~(0 : Address) <<< (32 - prefixLen)
  pure ⟨addr &&& mask, mask, cidr⟩

def matchesCidr (ip : List Char) (entry : CidrEntry) : Bool :=
  match readAddress ip with
  | none => false
  | some ipHost => ipHost &&& entry.mask = entry.network

/-- A line of a file without the blanks around it; blank lines and comments are no rules. -/
def ruleOf (line : List Char) : Option (List Char) :=
  let line := trim [' ', '\t', '\r', '\n'] line
  if line = [] ∨ line.head? = some '#' then none else some line

/-- The rules of a file that can be read; the others are logged. -/
def fileRules (content : List Char) : List (List Char) :=
  ((getLines content).filterMap ruleOf).filter fun line => (parseCidr line).isSome

/-- `none` is a file that cannot be opened. -/
def loadFile (content : Option (List Char)) (entries : List CidrEntry) : Bool × List CidrEntry :=
  match content with
  | none => (false, entries)
  | some content => (true, entries ++ (fileRules content).filterMap parseCidr)

/-! ## The operations -/

/-- A list of which no file is configured is not loaded. -/
def loadConfigured (file : List Char) (content : Option (List Char)) (entries : List CidrEntry) :
    Bool × List CidrEntry :=
  if file = [] then (true, entries) else loadFile content entries

def initializeFilter (filter : IpFilter)
    (allowlistFile blocklistFile : List Char) (allowContent blockContent : Option (List Char)) :
    IpFilter :=
  { allowlist := (loadConfigured allowlistFile allowContent filter.allowlist).2
    blocklist := (loadConfigured blocklistFile blockContent filter.blocklist).2
    allowlistFile := allowlistFile
    blocklistFile := blocklistFile }

def isAllowed (filter : IpFilter) (ip : List Char) : Bool :=
  if filter.blocklist.any (matchesCidr ip) then false
  else if filter.allowlist.isEmpty then true
  else filter.allowlist.any (matchesCidr ip)

def allowIp (filter : IpFilter) (cidr : List Char) : Bool × IpFilter :=
  match parseCidr cidr with
  | none => (false, filter)
  | some entry => (true, { filter with allowlist := filter.allowlist ++ [entry] })

def blockIp (filter : IpFilter) (cidr : List Char) : Bool × IpFilter :=
  match parseCidr cidr with
  | none => (false, filter)
  | some entry => (true, { filter with blocklist := filter.blocklist ++ [entry] })

/-- The entries with another text; `false` if that is all of them. -/
def removeEntry (entries : List CidrEntry) (cidr : List Char) : Bool × List CidrEntry :=
  if entries.any fun e => e.original = cidr then
    (true, entries.filter fun e => e.original ≠ cidr)
  else (false, entries)

def removeAllow (filter : IpFilter) (cidr : List Char) : Bool × IpFilter :=
  ((removeEntry filter.allowlist cidr).1,
    { filter with allowlist := (removeEntry filter.allowlist cidr).2 })

def removeBlock (filter : IpFilter) (cidr : List Char) : Bool × IpFilter :=
  ((removeEntry filter.blocklist cidr).1,
    { filter with blocklist := (removeEntry filter.blocklist cidr).2 })

/-- Both lists are cleared, and both files are loaded. -/
def reload (filter : IpFilter) (allowContent blockContent : Option (List Char)) :
    Bool × IpFilter :=
  let (allowOk, allowlist) := loadConfigured filter.allowlistFile allowContent []
  let (blockOk, blocklist) := loadConfigured filter.blocklistFile blockContent []
  (allowOk && blockOk, { filter with allowlist := allowlist, blocklist := blocklist })

/-! ## What the rules say -/

/-- The address and the number of its bits that a text names. -/
def readCidr (cidr : List Char) : Option (Address × Nat) := do
  let prefixLen ← parsePrefixLen (afterSlash cidr)
  let base ← readAddress (cidr.takeWhile (· ≠ '/'))
  pure (base, prefixLen)

/-- The address is in the range that the text names. -/
def InRange (cidr : List Char) (address : Address) : Prop :=
  ∃ base prefixLen, readCidr cidr = some (base, prefixLen) ∧ SamePrefix prefixLen address base

/-- The ranges that are allowed and those that are blocked. -/
structure Rules where
  allow : Set (List Char)
  block : Set (List Char)

@[ext] theorem Rules.ext {rules rules' : Rules} (hallow : rules.allow = rules'.allow)
    (hblock : rules.block = rules'.block) : rules = rules' := by
  cases rules
  cases rules'
  cases hallow
  cases hblock
  rfl

def Admits (rules : Rules) (address : Address) : Prop :=
  (∀ cidr ∈ rules.block, ¬ InRange cidr address) ∧
    (rules.allow = ∅ ∨ ∃ cidr ∈ rules.allow, InRange cidr address)

def originals (entries : List CidrEntry) : Set (List Char) :=
  {cidr | ∃ entry ∈ entries, entry.original = cidr}

def rules (filter : IpFilter) : Rules := ⟨originals filter.allowlist, originals filter.blocklist⟩

/-- Every entry is what its text says. -/
def Faithful (entries : List CidrEntry) : Prop :=
  ∀ entry ∈ entries, parseCidr entry.original = some entry

theorem parseCidr_eq (cidr : List Char) :
    parseCidr cidr = (readCidr cidr).map fun r =>
      ⟨r.1 &&& prefixMask r.2, prefixMask r.2, cidr⟩ := by
  have hmask : ∀ prefixLen : Nat,
      (if prefixLen = 0 then 0 else ~~~(0 : Address) <<< (32 - prefixLen)) =
        prefixMask prefixLen := by
    intro prefixLen
    by_cases h : prefixLen = 0
    · subst h
      rfl
    · rw [if_neg h]
      rfl
  unfold parseCidr readCidr
  cases parsePrefixLen (afterSlash cidr) with
  | none => rfl
  | some prefixLen =>
    cases readAddress (cidr.takeWhile (· ≠ '/')) with
    | none => rfl
    | some addr =>
      show some _ = some _
      rw [hmask]

theorem parseCidr_original {cidr : List Char} {entry : CidrEntry}
    (h : parseCidr cidr = some entry) : entry.original = cidr := by
  rw [parseCidr_eq] at h
  obtain ⟨r, -, rfl⟩ := Option.map_eq_some_iff.mp h
  rfl

/-- Without a slash the text is a single address. -/
theorem readCidr_host (address : Address) : readCidr (dotted address) = some (address, 32) := by
  have hslash : ∀ c ∈ dotted address, decide (c ≠ '/') = true := by
    intro c hc
    refine decide_eq_true ?_
    rintro rfl
    exact not_mem_dotted (by decide) (by decide) address hc
  have hafter : afterSlash (dotted address) = none := by
    unfold afterSlash
    rw [List.dropWhile_eq_nil_iff.mpr hslash]
  unfold readCidr
  rw [hafter, List.takeWhile_eq_self_iff.mpr hslash, readAddress_dotted]
  rfl

/-! ## The decision -/

theorem matchesCidr_iff {ip : List Char} {address : Address} {entry : CidrEntry}
    (hip : readAddress ip = some address) (hentry : parseCidr entry.original = some entry) :
    matchesCidr ip entry = true ↔ InRange entry.original address := by
  rw [parseCidr_eq] at hentry
  obtain ⟨⟨base, prefixLen⟩, hread, heq⟩ := Option.map_eq_some_iff.mp hentry
  have hmatches : matchesCidr ip entry = true ↔ SamePrefix prefixLen address base := by
    unfold matchesCidr
    rw [hip, ← heq]
    exact decide_eq_true_iff.trans (and_prefixMask_iff prefixLen)
  rw [hmatches]
  constructor
  · intro hsame
    exact ⟨base, prefixLen, hread, hsame⟩
  · rintro ⟨base', prefixLen', hread', hsame⟩
    rw [hread] at hread'
    cases hread'
    exact hsame

theorem any_matchesCidr_iff {ip : List Char} {address : Address} {entries : List CidrEntry}
    (hip : readAddress ip = some address) (hentries : Faithful entries) :
    entries.any (matchesCidr ip) = true ↔ ∃ cidr ∈ originals entries, InRange cidr address := by
  rw [List.any_eq_true]
  constructor
  · rintro ⟨entry, hmem, hmatches⟩
    exact ⟨entry.original, ⟨entry, hmem, rfl⟩,
      (matchesCidr_iff hip (hentries entry hmem)).mp hmatches⟩
  · rintro ⟨cidr, ⟨entry, hmem, rfl⟩, hrange⟩
    exact ⟨entry, hmem, (matchesCidr_iff hip (hentries entry hmem)).mpr hrange⟩

theorem originals_eq_empty_iff {entries : List CidrEntry} :
    originals entries = ∅ ↔ entries.isEmpty = true := by
  rw [List.isEmpty_iff]
  constructor
  · intro h
    refine List.eq_nil_iff_forall_not_mem.mpr fun entry hmem => ?_
    have hin : entry.original ∈ originals entries := ⟨entry, hmem, rfl⟩
    rw [h] at hin
    exact hin
  · rintro rfl
    refine Set.eq_empty_iff_forall_notMem.mpr ?_
    rintro cidr ⟨entry, hmem, -⟩
    cases hmem

theorem isAllowed_iff {filter : IpFilter} {ip : List Char} {address : Address}
    (hallow : Faithful filter.allowlist) (hblock : Faithful filter.blocklist)
    (hip : readAddress ip = some address) :
    filter.isAllowed ip = true ↔ Admits filter.rules address := by
  have hblocked := any_matchesCidr_iff hip hblock
  have hallowed := any_matchesCidr_iff hip hallow
  unfold isAllowed Admits rules
  dsimp only
  rw [originals_eq_empty_iff, ← hallowed]
  by_cases hany : filter.blocklist.any (matchesCidr ip) = true
  · -- a blocked address is refused whatever is allowed
    obtain ⟨cidr, hmem, hrange⟩ := hblocked.mp hany
    rw [if_pos hany]
    refine ⟨fun h => (by cases h), fun h => absurd hrange (h.1 cidr hmem)⟩
  · rw [if_neg hany]
    have hnone : ∀ cidr ∈ originals filter.blocklist, ¬ InRange cidr address :=
      fun cidr hmem hrange => hany (hblocked.mpr ⟨cidr, hmem, hrange⟩)
    split
    · next hempty => exact ⟨fun _ => ⟨hnone, .inl hempty⟩, fun _ => rfl⟩
    · next hempty =>
      exact ⟨fun h => ⟨hnone, .inr h⟩, fun h => h.2.resolve_left hempty⟩

end IpFilter

end Alpine
