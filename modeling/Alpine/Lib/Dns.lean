import Alpine.Lib.Inet

/-!
# DNS messages

A name is a sequence of labels. It is well formed when its labels have 1 to 63 bytes (`ValidName`):
zero ends a name, and 64 and more is no length. The decoder takes names without compression, wants
the data of a record to be as long as the record says, and wants as many answers as the header says
and nothing behind them.

`recordBytes` writes a record, and `decodeRecord_recordBytes` reads it back. `encodeName` writes any
labels; what it writes is read as a name of the same text exactly if the labels are valid
(`valid_of_decodeNameFrom`).
-/

namespace Alpine.Lib.Dns

abbrev Name := List (List UInt8)

/-- The dot between the labels of a name. -/
def dot : UInt8 := 0x2E

def nameText (name : Name) : List UInt8 := [dot].intercalate name

def ValidName (name : Name) : Prop := ∀ label ∈ name, 1 ≤ label.length ∧ label.length ≤ 63

instance (name : Name) : Decidable (ValidName name) :=
  inferInstanceAs (Decidable (∀ label ∈ name, _))

def be16 (n : Nat) : List UInt8 := [UInt8.ofNat (n / 2 ^ 8), UInt8.ofNat n]

def be32 (n : Nat) : List UInt8 :=
  [UInt8.ofNat (n / 2 ^ 24), UInt8.ofNat (n / 2 ^ 16), UInt8.ofNat (n / 2 ^ 8), UInt8.ofNat n]

def fromBe16 (high low : UInt8) : Nat := high.toNat * 2 ^ 8 + low.toNat

/-! ## Names -/

def encodeName (name : Name) : List UInt8 :=
  name.flatMap (fun label => UInt8.ofNat label.length :: label) ++ [0]

/-- Each step takes a label. -/
def decodeNameFrom : Nat → List UInt8 → Option (Name × List UInt8)
  | 0, _ => none
  | _ + 1, [] => none
  | steps + 1, length :: bytes =>
    if length = 0 then some ([], bytes)
    else if length.toNat ≤ 63 ∧ length.toNat ≤ bytes.length then
      (decodeNameFrom steps (bytes.drop length.toNat)).map fun rest =>
        (bytes.take length.toNat :: rest.1, rest.2)
    else none

/-- A name, and the bytes behind it. -/
def decodeName (bytes : List UInt8) : Option (Name × List UInt8) :=
  decodeNameFrom bytes.length bytes

@[simp] theorem encodeName_nil : encodeName [] = [0] := rfl

theorem encodeName_cons (label : List UInt8) (name : Name) :
    encodeName (label :: name) = UInt8.ofNat label.length :: (label ++ encodeName name) := by
  simp [encodeName]

theorem encodeName_ne_nil (name : Name) : encodeName name ≠ [] := by
  unfold encodeName
  simp

theorem length_encodeName (name : Name) :
    (encodeName name).length = (name.map List.length).sum + name.length + 1 := by
  induction name with
  | nil => rfl
  | cons label name ih =>
    rw [encodeName_cons, List.length_cons, List.length_append, ih, List.map_cons, List.sum_cons,
      List.length_cons]
    omega

theorem toNat_ofNat_of_lt {n : Nat} (h : n < 2 ^ 8) : (UInt8.ofNat n).toNat = n := by
  rw [UInt8.toNat_ofNat', Nat.mod_eq_of_lt h]

theorem decodeNameFrom_encodeName {name : Name} (h : ValidName name) (rest : List UInt8)
    {steps : Nat} (hsteps : name.length < steps) :
    decodeNameFrom steps (encodeName name ++ rest) = some (name, rest) := by
  induction name generalizing steps with
  | nil =>
    obtain ⟨steps, rfl⟩ : ∃ n, steps = n + 1 := ⟨steps - 1, by omega⟩
    rfl
  | cons label name ih =>
    obtain ⟨steps, rfl⟩ : ∃ n, steps = n + 1 := ⟨steps - 1, by omega⟩
    obtain ⟨hpos, hle⟩ := h label (.head _)
    have hbyte := toNat_ofNat_of_lt (show label.length < 2 ^ 8 by omega)
    have hne : UInt8.ofNat label.length ≠ 0 := fun hzero => by
      rw [hzero] at hbyte
      have : (0 : UInt8).toNat = 0 := rfl
      omega
    rw [encodeName_cons, List.cons_append, decodeNameFrom, if_neg hne, hbyte, List.append_assoc,
      if_pos ⟨hle, by rw [List.length_append]; omega⟩, List.drop_left, List.take_left,
      ih (fun l hl => h l (.tail _ hl)) (by rw [List.length_cons] at hsteps; omega)]
    rfl

/-- A valid name is read as it was written. -/
theorem decodeName_encodeName {name : Name} (h : ValidName name) (rest : List UInt8) :
    decodeName (encodeName name ++ rest) = some (name, rest) := by
  refine decodeNameFrom_encodeName h rest ?_
  rw [List.length_append, length_encodeName]
  omega

theorem nameText_singleton (label : List UInt8) : nameText [label] = label := by
  simp [nameText, List.intercalate]

theorem nameText_cons_cons (label next : List UInt8) (name : Name) :
    nameText (label :: next :: name) = label ++ dot :: nameText (next :: name) := by
  simp [nameText, List.intercalate]

/-- The parts of a text between its dots have none. -/
theorem not_mem_splitOn {s label : List UInt8} (h : label ∈ s.splitOn dot) : dot ∉ label := by
  induction s generalizing label with
  | nil =>
    rw [List.splitOn_nil, List.mem_singleton] at h
    rw [h]
    exact List.not_mem_nil
  | cons c s ih =>
    rw [List.splitOn_cons_eq_if_modifyHead] at h
    split at h
    · rcases List.mem_cons.mp h with rfl | h
      · exact List.not_mem_nil
      · exact ih h
    · next hc =>
      have hne : c ≠ dot := fun heq => hc (by rw [heq]; exact beq_self_eq_true dot)
      cases hs : s.splitOn dot with
      | nil => exact absurd hs (List.splitOn_ne_nil dot s)
      | cons first rest =>
        rw [hs] at h ih
        rcases List.mem_cons.mp h with rfl | h
        · rw [List.mem_cons, not_or]
          exact ⟨hne.symm, ih (.head _)⟩
        · exact ih (.tail _ h)

theorem nameText_concat {labels : Name} (hne : labels ≠ []) (last : List UInt8) :
    nameText (labels ++ [last]) = nameText labels ++ dot :: last := by
  induction labels with
  | nil => exact absurd rfl hne
  | cons label labels ih =>
    cases labels with
    | nil =>
      show nameText [label, last] = nameText [label] ++ dot :: last
      rw [nameText_cons_cons, nameText_singleton, nameText_singleton]
    | cons next labels =>
      have hih := ih (List.cons_ne_nil _ _)
      show nameText (label :: next :: (labels ++ [last])) = _
      rw [nameText_cons_cons, nameText_cons_cons, List.append_assoc, List.cons_append, ← hih]
      rfl

theorem length_encodeName_text {labels : Name} (hne : labels ≠ []) :
    (encodeName labels).length = (nameText labels).length + 2 := by
  induction labels with
  | nil => exact absurd rfl hne
  | cons label labels ih =>
    rw [encodeName_cons, List.length_cons, List.length_append]
    cases labels with
    | nil => rw [nameText_singleton, encodeName_nil, List.length_singleton]
    | cons next labels =>
      rw [ih (List.cons_ne_nil _ _), nameText_cons_cons, List.length_append, List.length_cons]
      omega

/-- A part of a label is not a label of the same text. -/
theorem not_nameText_take {label : List UInt8} {n : Nat} (hn : n < label.length)
    (hdot : dot ∉ label) (name labels : Name) :
    nameText (label.take n :: name) ≠ nameText (label :: labels) := by
  intro htext
  obtain ⟨tail, htail⟩ : ∃ tail, nameText (label :: labels) = label ++ tail := by
    cases labels with
    | nil => exact ⟨[], by rw [nameText_singleton, List.append_nil]⟩
    | cons next labels => exact ⟨_, nameText_cons_cons label next labels⟩
  have hsplit : label ++ tail = label.take n ++ (label.drop n ++ tail) := by
    rw [← List.append_assoc, List.take_append_drop]
  rw [htail, hsplit] at htext
  cases name with
  | nil =>
    rw [nameText_singleton, List.self_eq_append_right, List.append_eq_nil_iff,
      List.drop_eq_nil_iff] at htext
    omega
  | cons other name =>
    rw [nameText_cons_cons, List.append_cancel_left_eq, List.drop_eq_getElem_cons hn] at htext
    exact hdot ((List.cons.inj htext).1 ▸ List.getElem_mem hn)

/-- Labels without dots whose bytes are read as a name of the same text are valid: a length that is
not that of its label would put a dot into it, or end the name too early. -/
theorem valid_of_decodeNameFrom {steps : Nat} {labels name : Name}
    (hdots : ∀ label ∈ labels, dot ∉ label)
    (h : decodeNameFrom steps (encodeName labels) = some (name, []))
    (htext : nameText name = nameText labels) : ValidName labels := by
  induction labels generalizing steps name with
  | nil => exact fun _ hl => nomatch hl
  | cons label labels ih =>
    cases steps with
    | zero => cases h
    | succ steps =>
      have hlabel := hdots label (.head _)
      rw [encodeName_cons, decodeNameFrom] at h
      split at h
      · -- the name ends at once, but there is more
        obtain ⟨-, hrest⟩ := Prod.mk.inj (Option.some.inj h)
        exact absurd (List.append_eq_nil_iff.mp hrest).2 (encodeName_ne_nil labels)
      · next hne =>
        split at h
        · next hfits =>
          obtain ⟨⟨name', rest'⟩, hrest, heq⟩ := Option.map_eq_some_iff.mp h
          obtain ⟨rfl, rfl⟩ := Prod.mk.inj heq
          have hbyte : (UInt8.ofNat label.length).toNat = label.length % 2 ^ 8 :=
            UInt8.toNat_ofNat'
          by_cases hshort : label.length ≤ 63
          · -- the label is read, and the rest of the name
            have hlength : (UInt8.ofNat label.length).toNat = label.length :=
              toNat_ofNat_of_lt (by omega)
            rw [hlength, List.drop_left] at hrest
            rw [hlength, List.take_left] at htext
            have hpos : 1 ≤ label.length := Nat.pos_of_ne_zero fun hzero => hne (by rw [hzero]; rfl)
            refine List.forall_mem_cons.mpr ⟨⟨hpos, hshort⟩, ?_⟩
            refine ih (fun l hl => hdots l (.tail _ hl)) hrest ?_
            cases labels with
            | nil =>
              cases name' with
              | nil => rfl
              | cons other name' =>
                rw [nameText_cons_cons, nameText_singleton] at htext
                exact absurd htext (by simp)
            | cons next labels =>
              cases name' with
              | nil =>
                rw [nameText_cons_cons, nameText_singleton] at htext
                exact absurd htext (by simp)
              | cons other name' =>
                rw [nameText_cons_cons, nameText_cons_cons] at htext
                exact (List.cons_inj_right dot).mp (List.append_cancel_left htext)
          · -- the length has lost its upper bits: less of the label is read than there is
            exfalso
            have hless : (UInt8.ofNat label.length).toNat < label.length := by omega
            rw [List.take_append_of_le_length hless.le] at htext
            exact not_nameText_take hless hlabel name' labels htext
        · cases h

/-! ## Records -/

inductive RecordData where
  | ptr (target : Name)
  | srv (priority weight port : Nat) (target : Name)
  | txt (strings : List (List UInt8))
  | a (address : Address)
  | other (recordType : Nat) (bytes : List UInt8)
  deriving DecidableEq

structure Record where
  owner : Name
  recordClass : Nat
  ttl : Nat
  data : RecordData
  deriving DecidableEq

/-- Strings with a length byte each, in as many steps at most. -/
def decodeStrings : Nat → List UInt8 → Option (List (List UInt8))
  | _, [] => some []
  | 0, _ => none
  | steps + 1, length :: bytes =>
    if length.toNat ≤ bytes.length then
      (decodeStrings steps (bytes.drop length.toNat)).map (bytes.take length.toNat :: ·)
    else none

/-- A name with nothing behind it. -/
def decodeTarget (bytes : List UInt8) : Option Name :=
  match decodeName bytes with
  | some (name, []) => some name
  | _ => none

/-- The data of a record, all of which its type must account for. -/
def decodeData (recordType : Nat) (bytes : List UInt8) : Option RecordData :=
  if recordType = 1 then
    match bytes with
    | [a, b, c, d] => some (.a (ofOctets a.toNat b.toNat c.toNat d.toNat))
    | _ => none
  else if recordType = 12 then (decodeTarget bytes).map .ptr
  else if recordType = 16 then (decodeStrings bytes.length bytes).map .txt
  else if recordType = 33 then
    match bytes with
    | p₁ :: p₂ :: w₁ :: w₂ :: q₁ :: q₂ :: target =>
      (decodeTarget target).map (.srv (fromBe16 p₁ p₂) (fromBe16 w₁ w₂) (fromBe16 q₁ q₂))
    | _ => none
  else some (.other recordType bytes)

def decodeRecord (bytes : List UInt8) : Option (Record × List UInt8) :=
  (decodeName bytes).bind fun (owner, bytes) =>
    match bytes with
    | t₁ :: t₂ :: c₁ :: c₂ :: l₁ :: l₂ :: l₃ :: l₄ :: d₁ :: d₂ :: body =>
      let dataLength := fromBe16 d₁ d₂
      if dataLength ≤ body.length then
        (decodeData (fromBe16 t₁ t₂) (body.take dataLength)).map fun data =>
          ({ owner, recordClass := fromBe16 c₁ c₂
             ttl := fromBe16 l₁ l₂ * 2 ^ 16 + fromBe16 l₃ l₄, data },
            body.drop dataLength)
      else none
    | _ => none

def decodeRecords : Nat → List UInt8 → Option (List Record × List UInt8)
  | 0, bytes => some ([], bytes)
  | count + 1, bytes =>
    (decodeRecord bytes).bind fun (record, bytes) =>
      (decodeRecords count bytes).map fun rest => (record :: rest.1, rest.2)

/-- A message that has answers only. -/
structure Message where
  id : Nat
  flags : Nat
  answers : List Record
  deriving DecidableEq

/-- The answers are as many as the header says, and nothing is left. -/
def decodeMessage : List UInt8 → Option Message
  | i₁ :: i₂ :: f₁ :: f₂ :: q₁ :: q₂ :: a₁ :: a₂ :: n₁ :: n₂ :: x₁ :: x₂ :: body =>
    if fromBe16 q₁ q₂ = 0 ∧ fromBe16 n₁ n₂ = 0 ∧ fromBe16 x₁ x₂ = 0 then
      (decodeRecords (fromBe16 a₁ a₂) body).bind fun (answers, rest) =>
        if rest = [] then some { id := fromBe16 i₁ i₂, flags := fromBe16 f₁ f₂, answers } else none
    else none
  | _ => none

/-- A record with any data. -/
def recordBytes (owner : Name) (recordType recordClass ttl : Nat) (data : List UInt8) : List UInt8 :=
  encodeName owner ++ be16 recordType ++ be16 recordClass ++ be32 ttl ++ be16 data.length ++ data

theorem fromBe16_be16 {n : Nat} (h : n < 2 ^ 16) :
    fromBe16 (UInt8.ofNat (n / 2 ^ 8)) (UInt8.ofNat n) = n := by
  unfold fromBe16
  rw [UInt8.toNat_ofNat', UInt8.toNat_ofNat']
  omega

theorem fromBe16_be32 {n : Nat} (h : n < 2 ^ 32) :
    fromBe16 (UInt8.ofNat (n / 2 ^ 24)) (UInt8.ofNat (n / 2 ^ 16)) * 2 ^ 16 +
      fromBe16 (UInt8.ofNat (n / 2 ^ 8)) (UInt8.ofNat n) = n := by
  unfold fromBe16
  rw [UInt8.toNat_ofNat', UInt8.toNat_ofNat', UInt8.toNat_ofNat', UInt8.toNat_ofNat']
  omega

/-- A record is read as it was written, if its data are what its type wants. -/
theorem decodeRecord_recordBytes {owner : Name} {recordType recordClass ttl : Nat}
    {data : List UInt8} (howner : ValidName owner) (htype : recordType < 2 ^ 16)
    (hclass : recordClass < 2 ^ 16) (httl : ttl < 2 ^ 32) (hdata : data.length < 2 ^ 16)
    (rest : List UInt8) :
    decodeRecord (recordBytes owner recordType recordClass ttl data ++ rest) =
      (decodeData recordType data).map fun data => (⟨owner, recordClass, ttl, data⟩, rest) := by
  unfold decodeRecord recordBytes
  simp only [List.append_assoc]
  rw [decodeName_encodeName howner, Option.bind_some]
  simp only [be16, be32, List.cons_append, List.nil_append]
  rw [fromBe16_be16 htype, fromBe16_be16 hclass, fromBe16_be32 httl, fromBe16_be16 hdata,
    if_pos (by rw [List.length_append]; omega), List.take_left, List.drop_left]

theorem decodeRecords_recordBytes {owner : Name} {recordType recordClass ttl : Nat}
    {data : List UInt8} (howner : ValidName owner) (htype : recordType < 2 ^ 16)
    (hclass : recordClass < 2 ^ 16) (httl : ttl < 2 ^ 32) (hdata : data.length < 2 ^ 16)
    (count : Nat) (rest : List UInt8) :
    decodeRecords (count + 1) (recordBytes owner recordType recordClass ttl data ++ rest) =
      (decodeData recordType data).bind fun data =>
        (decodeRecords count rest).map fun records =>
          (⟨owner, recordClass, ttl, data⟩ :: records.1, records.2) := by
  rw [decodeRecords, decodeRecord_recordBytes howner htype hclass httl hdata]
  cases decodeData recordType data <;> rfl

theorem decodeTarget_encodeName {name : Name} (h : ValidName name) :
    decodeTarget (encodeName name) = some name := by
  have hname := decodeName_encodeName h []
  rw [List.append_nil] at hname
  rw [decodeTarget, hname]

theorem decodeName_of_decodeTarget {bytes : List UInt8} {name : Name}
    (h : decodeTarget bytes = some name) : decodeName bytes = some (name, []) := by
  unfold decodeTarget at h
  split at h
  · next hname =>
    obtain rfl := Option.some.inj h
    exact hname
  · cases h

end Alpine.Lib.Dns
