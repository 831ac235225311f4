import Mathlib.Data.Nat.Bitwise
import Alpine.NetUtils.MulticastDiscovery

/-!
# What an announcement is read as

An announcement is cut at its quotes. A word that the receiver looks for is found at the first part
that is this word, which is the name of the member unless the id or the address is the word; from
there the text or the number is read. So an announcement is read as its sender exactly if the
conditions of `Plain` hold.
-/

namespace Alpine

open Lib

namespace MulticastDiscovery

/-- The parts of an announcement between its quotes, up to the first name of a member that is looked
for. -/
def idParts : List (List Char) :=
  [['\x7b'], ['t', 'y', 'p', 'e'], [':', ' '], discoverName, [',', ' '],
    ['v', 'e', 'r', 's', 'i', 'o', 'n'], [':', ' '], ['1'], [',', ' '], peerIdName]

def addressParts (node : MulticastDiscovery) : List (List Char) :=
  [[':', ' '], node.peerId, [',', ' '], ipAddressName]

def portParts (node : MulticastDiscovery) : List (List Char) :=
  [[':', ' '], node.ipAddress, [',', ' '], portName,
    [':', ' '] ++ Nat.toDigits 10 node.port.toNat ++ [',', ' '], restPortName]

/-- The names in the array, with what is between them. -/
def arrayParts (query transfer media : Bool) : List (List Char) :=
  let names := (if query then [queryName] else []) ++ (if transfer then [transferName] else []) ++
    (if media then [mediaName] else [])
  (if names = [] then [[':', ' ', '[', ']', ',', ' ']]
    else [[':', ' ', '[']] ++ names.intersperse [',', ' '] ++ [[']', ',', ' ']]) ++
  [['t', 'i', 'm', 'e', 's', 't', 'a', 'm', 'p']]

def nameParts (node : MulticastDiscovery) : List (List Char) :=
  [[':', ' '] ++ Nat.toDigits 10 node.restPort.toNat ++ [',', ' '],
    ['c', 'a', 'p', 'a', 'b', 'i', 'l', 'i', 't', 'i', 'e', 's']] ++
    arrayParts (node.capabilities &&& CAP_QUERY ≠ 0) (node.capabilities &&& CAP_TRANSFER ≠ 0)
      (node.capabilities &&& CAP_MEDIA ≠ 0)

def lastPart (now : Int) : List Char := [':', ' '] ++ signed now ++ ['\x7d']

theorem names_eq (node : MulticastDiscovery) (now : Int) :
    [':', ' '] ++ (Nat.toDigits 10 node.restPort.toNat ++ (", \"capabilities\": ".toList ++
      (capStr node.capabilities ++
        (", \"timestamp\": ".toList ++ (signed now ++ ['\x7d']))))) =
      weave '"' node.nameParts (lastPart now) := by
  unfold capStr appendCapability nameParts arrayParts lastPart
  by_cases hquery : node.capabilities &&& CAP_QUERY ≠ 0 <;>
    by_cases htransfer : node.capabilities &&& CAP_TRANSFER ≠ 0 <;>
      by_cases hmedia : node.capabilities &&& CAP_MEDIA ≠ 0 <;>
        simp [hquery, htransfer, hmedia, weave, quoted, quotedBy]

theorem announcement_eq (node : MulticastDiscovery) (now : Int) :
    announcement node now = weave '"' idParts (weave '"' node.addressParts
      (weave '"' node.portParts (weave '"' node.nameParts (lastPart now)))) := by
  have hport : ", \"restPort\": ".toList = ", \"restPort\"".toList ++ [':', ' '] := rfl
  unfold announcement
  rw [← names_eq, hport]
  simp only [idParts, addressParts, portParts, weave, List.append_assoc]
  rfl

theorem takeWhile_append_quote (b t : List Char) :
    (b ++ '"' :: t).takeWhile (· ≠ '"') = b.takeWhile (· ≠ '"') := by
  induction b with
  | nil => rfl
  | cons c b ih =>
    by_cases hc : c = '"'
    · subst hc
      rfl
    · rw [List.cons_append, List.takeWhile_cons_of_pos (by simpa using hc),
        List.takeWhile_cons_of_pos (by simpa using hc), ih]

theorem textOf_append {a : List Char} (ha : '"' ∉ a) (b t : List Char) :
    textOf (some (a ++ '"' :: (b ++ '"' :: t))) = b.takeWhile (· ≠ '"') := by
  unfold textOf
  rw [Option.bind_some, behind_append ha]
  dsimp only
  rw [if_pos (List.mem_append_right _ (List.mem_cons_self ..)), takeWhile_append_quote]

variable (node : MulticastDiscovery) (now : Int)

theorem contains_discover : contains (announcement node now) discoverName = true := by
  rw [contains_eq, announcement_eq]
  exact congrArg Option.isSome (behind_weave '"' _ _ [['t', 'y', 'p', 'e'], [':', ' ']]
    [[',', ' '], ['v', 'e', 'r', 's', 'i', 'o', 'n'], [':', ' '], ['1'], [',', ' '], peerIdName] _
    (by decide) (by decide) (by decide))

/-- The parts between the first quote and the id. -/
def namedParts : List (List Char) :=
  [['t', 'y', 'p', 'e'], [':', ' '], discoverName, [',', ' '], ['v', 'e', 'r', 's', 'i', 'o', 'n'],
    [':', ' '], ['1'], [',', ' ']]

theorem textOf_peerId : textOf (behind (quoted peerIdName) (announcement node now)) =
    node.peerId.takeWhile (· ≠ '"') := by
  rw [announcement_eq]
  refine (congrArg textOf (behind_weave '"' _ _ namedParts [] _ (by decide) (by decide)
    (by decide))).trans ?_
  exact textOf_append (by decide) _ _

variable {node}

/-- Words that are no part before the id. -/
def Sought (word : List Char) : Prop :=
  ∀ b ∈ namedParts ++ [peerIdName, [':', ' '], [',', ' ']], b ≠ word

instance (word : List Char) : Decidable (Sought word) :=
  inferInstanceAs (Decidable (∀ b ∈ _, b ≠ word))

theorem parts_peerId {word : List Char} (hword : Sought word) :
    ∀ b ∈ namedParts ++ [peerIdName, [':', ' ']], '"' ∉ b ∧ b ≠ word := by
  refine fun b hb => ⟨?_, hword b (by simp at hb ⊢; tauto)⟩
  revert b
  decide

/-- An id that is a word is found in its place. -/
theorem behind_of_peerId {word : List Char} (hword : Sought word) (hquote : '"' ∉ word)
    (hpeer : node.peerId = word) :
    behind (quoted word) (announcement node now) =
      some (weave '"' [[',', ' '], ipAddressName]
        (weave '"' node.portParts (weave '"' node.nameParts (lastPart now)))) := by
  rw [announcement_eq, addressParts, hpeer]
  exact behind_weave '"' word ['\x7b'] (namedParts ++ [peerIdName, [':', ' ']]) _ _
    hquote (by decide) (parts_peerId hword)

theorem parts_address {word : List Char} (hword : Sought word) (hpeer : '"' ∉ node.peerId)
    (hne : node.peerId ≠ word) :
    ∀ b ∈ namedParts ++ [peerIdName, [':', ' '], node.peerId, [',', ' ']],
      '"' ∉ b ∧ b ≠ word := by
  intro b hb
  have hcomma : '"' ∉ [',', ' '] ∧ [',', ' '] ≠ word := ⟨by decide, hword _ (by decide)⟩
  have hfront := parts_peerId hword b
  simp only [List.mem_append, List.mem_cons, List.not_mem_nil, or_false] at hb hfront
  rcases hb with hb | rfl | rfl | rfl | rfl
  · exact hfront (.inl hb)
  · exact hfront (.inr (.inl rfl))
  · exact hfront (.inr (.inr rfl))
  · exact ⟨hpeer, hne⟩
  · exact hcomma

theorem textOf_ipAddress (hpeer : '"' ∉ node.peerId) :
    textOf (behind (quoted ipAddressName) (announcement node now)) =
      if node.peerId = ipAddressName then ipAddressName
      else node.ipAddress.takeWhile (· ≠ '"') := by
  by_cases hword : node.peerId = ipAddressName
  · rw [if_pos hword, behind_of_peerId now (by decide) (by decide) hword]
    exact textOf_append (by decide) _ _
  · rw [if_neg hword, announcement_eq]
    refine (congrArg textOf (behind_weave '"' _ _
      (namedParts ++ [peerIdName, [':', ' '], node.peerId, [',', ' ']]) [] _ (by decide)
      (by decide) (parts_address (by decide) hpeer hword))).trans (textOf_append (by decide) _ _)

/-! ## Numbers -/

theorem atoi_quote (s : List Char) : atoi ('"' :: s) = 0 := by
  unfold atoi
  rw [List.dropWhile_cons_of_neg (by decide)]
  show (max (-2 ^ 63) (min ((Nat.ofDigitChars 10 [] 0 : Nat) : Int) (2 ^ 63 - 1))).bmod (2 ^ 32) = 0
  decide

theorem numberOf_quote {a : List Char} (ha : ':' ∉ a) (t : List Char) :
    numberOf (some (a ++ ':' :: ' ' :: '"' :: t)) = 0 := by
  unfold numberOf
  rw [Option.bind_some, behind_append ha]
  dsimp only
  rw [List.dropWhile_cons_of_pos rfl, List.dropWhile_cons_of_neg (by decide), cString,
    List.takeWhile_cons_of_pos (by decide), atoi_quote]
  rfl

theorem atoi_toDigits {n : Nat} (hn : n < 2 ^ 16) (t : List Char) :
    atoi (Nat.toDigits 10 n ++ ',' :: t) = n := by
  obtain ⟨c, s, hs⟩ := List.exists_cons_of_ne_nil (Nat.toDigits_ne_nil (n := n) (b := 10))
  have hall : ∀ d ∈ c :: s, d.isDigit = true := fun d hd => isDigit_toDigits (hs ▸ hd)
  have hvalue : Nat.ofDigitChars 10 (c :: s) 0 = n := by rw [← hs, Nat.ofDigitChars_ten_toDigits]
  unfold atoi
  rw [hs, List.cons_append, takeSign_digits (hall c (List.mem_cons_self ..))]
  dsimp only
  rw [← List.cons_append, List.takeWhile_append_of_pos hall, List.takeWhile_cons_of_neg (by decide),
    List.append_nil, hvalue, if_neg Bool.false_ne_true]
  have hlimits : max (-2 ^ 63) (min (n : Int) (2 ^ 63 - 1)) = n := by omega
  rw [hlimits]
  exact Int.bmod_eq_of_le (by omega) (by omega)

theorem numberOf_toDigits {a : List Char} (ha : ':' ∉ a) {n : Nat} (hn : n < 2 ^ 16)
    (t : List Char) :
    numberOf (some (a ++ ':' :: ' ' :: (Nat.toDigits 10 n ++ ',' :: t))) = n := by
  have hdigits : ∀ d ∈ Nat.toDigits 10 n, decide (d ≠ '\x00') = true := by
    intro d hd
    refine decide_eq_true ?_
    rintro rfl
    exact not_mem_toDigits rfl hd
  obtain ⟨c, s, hs⟩ := List.exists_cons_of_ne_nil (Nat.toDigits_ne_nil (n := n) (b := 10))
  have hc : c.isDigit = true := isDigit_toDigits (n := n) (hs ▸ List.mem_cons_self ..)
  have hblank : (' ' :: (Nat.toDigits 10 n ++ ',' :: t)).dropWhile (· = ' ') =
      Nat.toDigits 10 n ++ ',' :: t := by
    rw [List.dropWhile_cons_of_pos rfl, hs, List.cons_append, List.dropWhile_cons_of_neg]
    rintro h
    rw [of_decide_eq_true h] at hc
    cases hc
  unfold numberOf
  rw [Option.bind_some, behind_append ha]
  dsimp only
  rw [hblank, cString, List.takeWhile_append_of_pos hdigits, List.takeWhile_cons_of_pos (by decide),
    atoi_toDigits hn]
  omega

theorem not_mem_number (c : Char) (hc : c.isDigit = false) (hc' : c ∉ [':', ' ', ',']) (n : Nat) :
    c ∉ [':', ' '] ++ Nat.toDigits 10 n ++ [',', ' '] := by
  have hdigits : c ∉ Nat.toDigits 10 n := not_mem_toDigits hc
  simp only [List.mem_cons, List.not_mem_nil, or_false, not_or] at hc'
  simp [hdigits, hc']

theorem number_ne {word : List Char} (hword : word.head? ≠ some ':') (n : Nat) :
    [':', ' '] ++ Nat.toDigits 10 n ++ [',', ' '] ≠ word := by
  rintro rfl
  exact hword rfl

theorem parts_ipAddress {word : List Char} (hword : Sought word)
    (haddress : ipAddressName ≠ word) (hpeer : '"' ∉ node.peerId) (hne : node.peerId ≠ word) :
    ∀ b ∈ namedParts ++ [peerIdName, [':', ' '], node.peerId, [',', ' ']] ++
      [ipAddressName, [':', ' ']], '"' ∉ b ∧ b ≠ word := by
  intro b hb
  rcases List.mem_append.mp hb with hb | hb
  · exact parts_address hword hpeer hne b hb
  · simp only [List.mem_cons, List.not_mem_nil, or_false] at hb
    rcases hb with rfl | rfl
    · exact ⟨by decide, haddress⟩
    · exact ⟨by decide, hword _ (by decide)⟩

theorem parts_port {word : List Char} (hword : Sought word)
    (haddress : ipAddressName ≠ word) (hpeer : '"' ∉ node.peerId) (hne : node.peerId ≠ word)
    (hip : '"' ∉ node.ipAddress) (hipNe : node.ipAddress ≠ word) :
    ∀ b ∈ namedParts ++ [peerIdName, [':', ' '], node.peerId, [',', ' ']] ++
      [ipAddressName, [':', ' ']] ++ [node.ipAddress, [',', ' ']], '"' ∉ b ∧ b ≠ word := by
  intro b hb
  rcases List.mem_append.mp hb with hb | hb
  · exact parts_ipAddress hword haddress hpeer hne b hb
  · simp only [List.mem_cons, List.not_mem_nil, or_false] at hb
    rcases hb with rfl | rfl
    · exact ⟨hip, hipNe⟩
    · exact ⟨by decide, hword _ (by decide)⟩

/-- An address that is a word is found in its place. -/
theorem behind_of_ipAddress {word : List Char} (hword : Sought word) (hquote : '"' ∉ word)
    (haddress : ipAddressName ≠ word) (hpeer : '"' ∉ node.peerId) (hne : node.peerId ≠ word)
    (hip : node.ipAddress = word) :
    behind (quoted word) (announcement node now) =
      some (weave '"' [[',', ' '], portName,
        [':', ' '] ++ Nat.toDigits 10 node.port.toNat ++ [',', ' '], restPortName]
        (weave '"' node.nameParts (lastPart now))) := by
  rw [announcement_eq, portParts, hip]
  exact behind_weave '"' word ['\x7b'] _ _ _ hquote (by decide)
    (parts_ipAddress hword haddress hpeer hne)

theorem numberOf_port (hpeer : '"' ∉ node.peerId) (hip : '"' ∉ node.ipAddress) :
    numberOf (behind (quoted portName) (announcement node now)) =
      if node.peerId = portName then 0 else node.port.toNat := by
  have hport : node.port.toNat < 2 ^ 16 := node.port.toNat_lt
  by_cases hword : node.peerId = portName
  · rw [if_pos hword, behind_of_peerId now (by decide) (by decide) hword]
    exact numberOf_quote (a := [',', ' '] ++ quoted ipAddressName) (by decide) _
  rw [if_neg hword]
  by_cases hipWord : node.ipAddress = portName
  · rw [behind_of_ipAddress now (by decide) (by decide) (by decide) hpeer hword hipWord]
    have hnumber := numberOf_toDigits (a := [',', ' '] ++ quoted portName) (by decide) hport
    simp only [weave, List.append_assoc]
    exact hnumber _
  · have hparts := parts_port (by decide) (by decide) hpeer hword hip hipWord
    have hnumber := numberOf_toDigits (a := []) (by decide) hport
    rw [announcement_eq]
    refine (congrArg numberOf (behind_weave '"' _ _ _ [_, _] _ (by decide) (by decide)
      hparts)).trans ?_
    simp only [weave, List.append_assoc]
    exact hnumber _

theorem numberOf_restPort (hpeer : '"' ∉ node.peerId) (hip : '"' ∉ node.ipAddress) :
    numberOf (behind (quoted restPortName) (announcement node now)) =
      if node.peerId = restPortName then 0
      else if node.ipAddress = restPortName then node.port.toNat
      else node.restPort.toNat := by
  by_cases hword : node.peerId = restPortName
  · rw [if_pos hword, behind_of_peerId now (by decide) (by decide) hword]
    exact numberOf_quote (a := [',', ' '] ++ quoted ipAddressName) (by decide) _
  rw [if_neg hword]
  by_cases hipWord : node.ipAddress = restPortName
  · rw [if_pos hipWord, behind_of_ipAddress now (by decide) (by decide) (by decide) hpeer hword
      hipWord]
    have hnumber := numberOf_toDigits (a := [',', ' '] ++ quoted portName) (by decide)
      node.port.toNat_lt
    simp only [weave, List.append_assoc]
    exact hnumber _
  · have hparts : ∀ b ∈ namedParts ++ [peerIdName, [':', ' '], node.peerId, [',', ' ']] ++
        [ipAddressName, [':', ' ']] ++ [node.ipAddress, [',', ' ']] ++ [portName,
        [':', ' '] ++ Nat.toDigits 10 node.port.toNat ++ [',', ' ']],
        '"' ∉ b ∧ b ≠ restPortName := by
      intro b hb
      rcases List.mem_append.mp hb with hb | hb
      · exact parts_port (by decide) (by decide) hpeer hword hip hipWord b hb
      · simp only [List.mem_cons, List.not_mem_nil, or_false] at hb
        rcases hb with rfl | rfl
        · decide
        · exact ⟨not_mem_number _ rfl (by decide) _, number_ne (by decide) _⟩
    have hnumber := numberOf_toDigits (a := []) (by decide) node.restPort.toNat_lt
    rw [if_neg hipWord, announcement_eq]
    refine (congrArg numberOf (behind_weave '"' _ _ _ [] _ (by decide) (by decide) hparts)).trans ?_
    simp only [weave, nameParts, List.append_assoc, List.cons_append]
    exact hnumber _

/-! ## Capabilities -/

/-- The parts between the first quote and the last. -/
theorem announcement_parts (node : MulticastDiscovery) (now : Int) : announcement node now =
    weave '"' (['\x7b'] :: (namedParts ++ [peerIdName] ++ node.addressParts ++
      node.portParts ++ node.nameParts)) (lastPart now) := by
  rw [announcement_eq, ← weave_append, ← weave_append, ← weave_append]
  rfl

theorem not_mem_lastPart (now : Int) : '"' ∉ lastPart now := by
  have hsigned : '"' ∉ signed now := not_mem_signed rfl (by decide)
  simp [lastPart, hsigned]

theorem arrayParts_spec : ∀ query transfer media,
    (∀ b ∈ arrayParts query transfer media, '"' ∉ b) ∧
      (queryName ∈ arrayParts query transfer media ↔ query = true) ∧
      (transferName ∈ arrayParts query transfer media ↔ transfer = true) ∧
      (mediaName ∈ arrayParts query transfer media ↔ media = true) := by
  decide

theorem nameParts_spec (node : MulticastDiscovery) :
    (∀ b ∈ node.nameParts, '"' ∉ b) ∧
      (queryName ∈ node.nameParts ↔ node.capabilities &&& CAP_QUERY ≠ 0) ∧
      (transferName ∈ node.nameParts ↔ node.capabilities &&& CAP_TRANSFER ≠ 0) ∧
      (mediaName ∈ node.nameParts ↔ node.capabilities &&& CAP_MEDIA ≠ 0) := by
  obtain ⟨hquotes, hquery, htransfer, hmedia⟩ := arrayParts_spec
    (node.capabilities &&& CAP_QUERY ≠ 0) (node.capabilities &&& CAP_TRANSFER ≠ 0)
    (node.capabilities &&& CAP_MEDIA ≠ 0)
  rw [decide_eq_true_iff] at hquery htransfer hmedia
  have hmem : ∀ {name : List Char}, name.head? ≠ some ':' →
      name ≠ ['c', 'a', 'p', 'a', 'b', 'i', 'l', 'i', 't', 'i', 'e', 's'] →
      (name ∈ node.nameParts ↔ name ∈ arrayParts (node.capabilities &&& CAP_QUERY ≠ 0)
        (node.capabilities &&& CAP_TRANSFER ≠ 0) (node.capabilities &&& CAP_MEDIA ≠ 0)) := by
    intro name hhead hne
    have hnumber := number_ne hhead node.restPort.toNat
    rw [nameParts, List.mem_append, List.mem_cons, List.mem_singleton]
    exact ⟨fun h => h.resolve_left fun h => h.elim (fun h => hnumber h.symm) hne, .inr⟩
  refine ⟨fun b hb => ?_, (hmem (by decide) (by decide)).trans hquery,
    (hmem (by decide) (by decide)).trans htransfer, (hmem (by decide) (by decide)).trans hmedia⟩
  rw [nameParts, List.mem_append, List.mem_cons, List.mem_singleton] at hb
  rcases hb with (rfl | rfl) | hb
  · exact not_mem_number '"' rfl (by decide) _
  · decide
  · exact hquotes b hb

/-- A name is found where it is announced, and where the id or the address is that name. -/
theorem contains_name (hpeer : '"' ∉ node.peerId) (hip : '"' ∉ node.ipAddress) {name : List Char}
    (hname : '"' ∉ name) (hword : Sought name) (hkeys : ∀ key ∈ [ipAddressName, portName,
      restPortName], key ≠ name) (hhead : name.head? ≠ some ':') :
    contains (announcement node now) name = true ↔
      node.peerId = name ∨ node.ipAddress = name ∨ name ∈ node.nameParts := by
  have hquotes : ∀ b ∈ ['\x7b'] :: (namedParts ++ [peerIdName] ++ node.addressParts ++
      node.portParts ++ node.nameParts), '"' ∉ b := by
    have hnames := (nameParts_spec node).1
    have hnumber := not_mem_number '"' rfl (by decide) node.port.toNat
    have hnamed : ∀ b ∈ namedParts, '"' ∉ b := by decide
    simp only [addressParts, portParts, List.mem_cons, List.mem_append, List.not_mem_nil, or_false]
    rintro b (rfl | ((((hb | rfl) | hb) | hb) | hb))
    · decide
    · exact hnamed b hb
    · decide
    · rcases hb with rfl | rfl | rfl | rfl
      · decide
      · exact hpeer
      · decide
      · decide
    · rcases hb with rfl | rfl | rfl | rfl | rfl | rfl
      · decide
      · exact hip
      · decide
      · decide
      · exact hnumber
      · decide
    · exact hnames b hb
  have hnamed : name ∉ namedParts := fun h => hword name (by simp [h]) rfl
  have hpeerKey : name ≠ peerIdName := fun h => hword _ (by decide) h.symm
  have hcolon : name ≠ [':', ' '] := fun h => hword _ (by decide) h.symm
  have hcomma : name ≠ [',', ' '] := fun h => hword _ (by decide) h.symm
  have hnumber := number_ne hhead node.port.toNat
  rw [contains_eq, announcement_parts]
  refine (isSome_behind_weave hname hquotes (not_mem_lastPart now)).trans ?_
  simp only [addressParts, portParts, List.mem_append, List.mem_cons, List.not_mem_nil, or_false]
  have haddress := hkeys ipAddressName (by decide)
  have hport := hkeys portName (by decide)
  have hrest := hkeys restPortName (by decide)
  constructor
  · rintro ((((h | h) | h) | h) | h)
    · exact absurd h hnamed
    · exact absurd h hpeerKey
    · rcases h with h | h | h | h
      · exact absurd h hcolon
      · exact .inl h.symm
      · exact absurd h hcomma
      · exact absurd h.symm haddress
    · rcases h with h | h | h | h | h | h
      · exact absurd h hcolon
      · exact .inr (.inl h.symm)
      · exact absurd h hcomma
      · exact absurd h.symm hport
      · exact absurd h.symm hnumber
      · exact absurd h.symm hrest
    · exact .inr (.inr h)
  · rintro (rfl | rfl | h)
    · exact .inl (.inl (.inr (.inr (.inl rfl))))
    · exact .inl (.inr (.inr (.inl rfl)))
    · exact .inr h

theorem flag_iff (capabilities : Nat) :
    (capabilities &&& CAP_QUERY ≠ 0 ↔ capabilities % 2 = 1) ∧
      (capabilities &&& CAP_TRANSFER ≠ 0 ↔ capabilities / 2 % 2 = 1) ∧
      (capabilities &&& CAP_MEDIA ≠ 0 ↔ capabilities / 4 % 2 = 1) := by
  have hbit : ∀ i, capabilities &&& 2 ^ i ≠ 0 ↔ capabilities / 2 ^ i % 2 = 1 := by
    intro i
    rw [Nat.and_two_pow, ← decide_eq_true_iff (p := capabilities / 2 ^ i % 2 = 1),
      ← Nat.testBit_eq_decide_div_mod_eq]
    cases capabilities.testBit i <;> simp
  have hzero := hbit 0
  rw [Nat.pow_zero, Nat.div_one] at hzero
  exact ⟨hzero, hbit 1, hbit 2⟩

/-- Three flags are received as they were sent if there are no others. -/
theorem receivedCapabilities_eq_iff (msg : List Char) (capabilities : Nat) :
    receivedCapabilities msg = capabilities ↔ capabilities < 8 ∧
      (contains msg queryName = true ↔ capabilities &&& CAP_QUERY ≠ 0) ∧
      (contains msg transferName = true ↔ capabilities &&& CAP_TRANSFER ≠ 0) ∧
      (contains msg mediaName = true ↔ capabilities &&& CAP_MEDIA ≠ 0) := by
  obtain ⟨hquery, htransfer, hmedia⟩ := flag_iff capabilities
  rw [hquery, htransfer, hmedia]
  unfold receivedCapabilities CAP_QUERY CAP_TRANSFER CAP_MEDIA
  cases contains msg queryName <;> cases contains msg transferName <;>
    cases contains msg mediaName <;> simp <;> omega

/-! ## The announcements of a node -/

variable (receiver : MulticastDiscovery)

theorem handleReceived_eq (msg : List Char) : receiver.handleReceived msg =
    some (if contains msg discoverName = false ∨
        textOf (behind (quoted peerIdName) msg) = [] ∨
        textOf (behind (quoted peerIdName) msg) = receiver.peerId then none
      else some ⟨textOf (behind (quoted peerIdName) msg),
        textOf (behind (quoted ipAddressName) msg),
        numberOf (behind (quoted portName) msg),
        numberOf (behind (quoted restPortName) msg), 1, receivedCapabilities msg⟩) := by
  unfold handleReceived
  rw [textAfter_eq, textAfter_eq, numberAfter_eq, numberAfter_eq]
  cases contains msg discoverName with
  | false => rfl
  | true =>
    rw [if_pos rfl]
    dsimp only [Option.bind_eq_bind, Option.bind_some]
    by_cases hid : textOf (behind (quoted peerIdName) msg) = [] ∨
        textOf (behind (quoted peerIdName) msg) = receiver.peerId
    · rw [if_pos hid, if_pos (.inr hid)]
    · rw [if_neg hid, if_neg]
      rintro (h | h)
      · cases h
      · exact hid h

theorem takeWhile_eq_self_iff {s : List Char} :
    s.takeWhile (· ≠ '"') = s ↔ '"' ∉ s := by
  rw [List.takeWhile_eq_self_iff]
  constructor
  · exact fun h hmem => of_decide_eq_true (h '"' hmem) rfl
  · exact fun h c hc => decide_eq_true fun heq => h (heq ▸ hc)

/-- What an announcement is read as, once its id and address have no quotes. -/
theorem reads_iff (hpeer : '"' ∉ node.peerId) (hip : '"' ∉ node.ipAddress)
    (hne : node.peerId ≠ []) :
    (⟨textOf (behind (quoted peerIdName) (announcement node now)),
      textOf (behind (quoted ipAddressName) (announcement node now)),
      numberOf (behind (quoted portName) (announcement node now)),
      numberOf (behind (quoted restPortName) (announcement node now)), 1,
      receivedCapabilities (announcement node now)⟩ : AnnouncedPeer) = announced node ↔
    node.Plain := by
  obtain ⟨-, hquery, htransfer, hmedia⟩ := nameParts_spec node
  unfold announced
  rw [AnnouncedPeer.mk.injEq, textOf_peerId, textOf_ipAddress now hpeer,
    numberOf_port now hpeer hip, numberOf_restPort now hpeer hip,
    takeWhile_eq_self_iff.mpr hpeer, takeWhile_eq_self_iff.mpr hip,
    receivedCapabilities_eq_iff,
    contains_name now hpeer hip (by decide) (by decide) (by decide) (by decide), hquery,
    contains_name now hpeer hip (by decide) (by decide) (by decide) (by decide), htransfer,
    contains_name now hpeer hip (by decide) (by decide) (by decide) (by decide), hmedia]
  constructor
  · rintro ⟨-, haddress, hport, hrest, -, hlt, hqueryIff, htransferIff, hmediaIff⟩
    refine ⟨⟨hne, hpeer⟩, hip, fun h => ?_, fun h => ?_, fun h => ?_, fun h h' => ?_, hlt,
      fun h => hqueryIff.mp ?_, fun h => htransferIff.mp ?_, fun h => hmediaIff.mp ?_⟩
    · rw [if_pos h] at haddress
      exact haddress.symm
    · rw [if_pos h] at hport
      exact UInt16.toNat_inj.mp hport.symm
    · rw [if_pos h] at hrest
      exact UInt16.toNat_inj.mp hrest.symm
    · rw [if_neg h, if_pos h'] at hrest
      exact UInt16.toNat_inj.mp hrest.symm
    · exact h.elim .inl fun h => .inr (.inl h)
    · exact h.elim .inl fun h => .inr (.inl h)
    · exact h.elim .inl fun h => .inr (.inl h)
  · intro h
    refine ⟨rfl, ?_, ?_, ?_, rfl, h.capabilities, ?_, ?_, ?_⟩
    · split
      · next hword => exact (h.address hword).symm
      · rfl
    · split
      · next hword => rw [h.port hword]; rfl
      · rfl
    · split
      · next hword => rw [h.restPort hword]; rfl
      · next hword =>
        split
        · next hipWord => rw [h.otherPort hword hipWord]
        · rfl
    · exact ⟨fun hor => hor.elim (fun h' => h.query (.inl h')) fun hor =>
        hor.elim (fun h' => h.query (.inr h')) id, fun h' => .inr (.inr h')⟩
    · exact ⟨fun hor => hor.elim (fun h' => h.transfer (.inl h')) fun hor =>
        hor.elim (fun h' => h.transfer (.inr h')) id, fun h' => .inr (.inr h')⟩
    · exact ⟨fun hor => hor.elim (fun h' => h.media (.inl h')) fun hor =>
        hor.elim (fun h' => h.media (.inr h')) id, fun h' => .inr (.inr h')⟩

theorem reported_eq_none_iff {p : Prop} [Decidable p] {peer : AnnouncedPeer} :
    (if p then none else some peer) = none ↔ p := by
  by_cases h : p
  · exact iff_of_true (if_pos h) h
  · rw [if_neg h]
    exact iff_of_false nofun h

theorem announces_iff : Announces node receiver now ↔ Fits node receiver := by
  unfold Announces Fits
  rw [handleReceived_eq, contains_discover, Option.some.injEq, textOf_peerId]
  by_cases hown : node.peerId = receiver.peerId
  · rw [if_pos hown, if_pos hown, ← hown]
    have hempty : node.peerId.takeWhile (· ≠ '"') = [] ↔
        node.peerId = [] ∨ node.peerId.head? = some '"' := by
      cases node.peerId with
      | nil => simp
      | cons c s => by_cases hc : c = '"' <;> simp [hc]
    refine reported_eq_none_iff.trans ?_
    rw [takeWhile_eq_self_iff, hempty]
    constructor
    · rintro (h | (h | h) | h)
      · cases h
      · exact .inl (h ▸ List.not_mem_nil)
      · exact .inr h
      · exact .inl h
    · exact fun h => .inr (h.elim .inr fun h => .inl (.inr h))
  · rw [if_neg hown, if_neg hown]
    constructor
    · intro h
      have hcond : ¬ (true = false ∨ node.peerId.takeWhile (· ≠ '"') = [] ∨
          node.peerId.takeWhile (· ≠ '"') = receiver.peerId) := by
        intro hcond
        rw [if_pos hcond] at h
        cases h
      rw [if_neg hcond, Option.some.injEq] at h
      have hpeer : '"' ∉ node.peerId :=
        takeWhile_eq_self_iff.mp (congrArg AnnouncedPeer.peerId h)
      have hip : '"' ∉ node.ipAddress := by
        have haddress := congrArg AnnouncedPeer.ipAddress h
        dsimp only at haddress
        rw [textOf_ipAddress now hpeer] at haddress
        split at haddress
        · rw [show node.ipAddress = _ from haddress.symm]
          decide
        · exact takeWhile_eq_self_iff.mp haddress
      have hne : node.peerId ≠ [] := fun hnil => hcond (.inr (.inl (by rw [hnil]; rfl)))
      refine (reads_iff now hpeer hip hne).mp ?_
      rw [textOf_peerId]
      exact h
    · intro h
      have hpeer := takeWhile_eq_self_iff.mpr h.peerId.2
      have hreads := (reads_iff now h.peerId.2 h.ipAddress h.peerId.1).mpr h
      rw [textOf_peerId] at hreads
      rw [hreads, hpeer, if_neg]
      rintro (h' | h' | h')
      · cases h'
      · exact h.peerId.1 h'
      · exact hown h'

theorem ignores_iff (msg : List Char) :
    Ignores receiver msg ↔ IsAnnouncement msg ∨ Unmarked receiver msg := by
  unfold Ignores Unmarked
  rw [handleReceived_eq, textAfter_eq, Option.some.injEq, Option.some.injEq, Option.some.injEq]
  exact (imp_congr_right fun _ => reported_eq_none_iff).trans or_iff_not_imp_left.symm

/-- A node is announced as it is exactly if its id and address are plain texts, and what is received
is read inside of the message and is ignored unless it is marked. -/
theorem announcement_codec_iff (sender receiver : MulticastDiscovery) (now : Int)
    (msg : List Char) :
    (Announces sender receiver now ↔ Fits sender receiver) ∧
      (receiver.handleReceived msg).isSome ∧
      (Ignores receiver msg ↔ IsAnnouncement msg ∨ Unmarked receiver msg) := by
  refine ⟨announces_iff now receiver, ?_, ignores_iff receiver msg⟩
  rw [handleReceived_eq]
  rfl

/-- A node whose name is that of a capability it does not have. -/
def mediaNode : MulticastDiscovery := ⟨mediaName, "10.0.0.1".toList, 5150, 8080, 1⟩

def otherNode : MulticastDiscovery := ⟨"other".toList, "10.0.0.2".toList, 5150, 8080, 7⟩

/-- A note that mentions the announcements. -/
def note : List Char :=
  "\x7b\"type\": \"note\", \"text\": \"alpine_discover\", \"peerId\": \"x\"\x7d".toList

theorem mediaNode_not_announced :
    ¬ Announces mediaNode otherNode 0 ∧ ¬ Ignores otherNode note := by
  refine ⟨fun h => ?_, fun h => ?_⟩
  · have hfits := (announces_iff 0 otherNode).mp h
    rw [Fits, if_neg (by decide +kernel)] at hfits
    exact hfits.media (.inl rfl) rfl
  · have hread : ¬ otherNode.handleReceived note = some none := by decide +kernel
    refine hread (h ?_)
    rintro ⟨members, hparse, hmem⟩
    have hnote : parse note = some (.object [(['t', 'y', 'p', 'e'], .str "note".toList),
        ("text".toList, .str discoverName), (peerIdName, .str "x".toList)]) := rfl
    rw [hnote, Option.some.injEq, Json.object.injEq] at hparse
    subst hparse
    simp [discoverName] at hmem

end MulticastDiscovery

end Alpine
