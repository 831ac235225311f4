import Alpine.Protocol.QueryPacket

/-!
# What a query packet brings to the other side

`writeData` puts the fixed fields, the extension's bytes or the resources, and the priority into
the buffer (`FitsWire.wrote`). The reader takes them back in the same order, a piece at a time:
`getString_putString`, `RoundTrips.readExtension`, `readOne_wire`, `readList_wire`. It refuses an
offer of more than `maxHits` hits, and does not read the two fields of 16 bits the way they were
written, so that what it makes of `uploadSlots` and `replySetSize` is left open; all else is
restored (`FitsWire.restores`).
-/

namespace Alpine

open Lib DataBuffer

/-! ## Strings -/

@[simp] theorem length_putString (s : CString) : (putString s).length = s.size + 1 := by
  simp [putString, CString.size]

theorem ofBytes_putString (s : CString) (rest : List UInt8) :
    CString.ofBytes (putString s ++ rest) = s := by
  apply Subtype.ext
  show ((s.val ++ [0]) ++ rest).takeWhile (· != 0) = s.val
  rw [List.append_assoc, List.takeWhile_append_of_pos]
  · simp
  · intro byte hbyte
    have : byte ≠ 0 := by
      rintro rfl
      exact s.property hbyte
    simpa using this

theorem verify_putString {s : CString} {dataLength : Nat} (hmax : s.size < maxStringLen)
    (hlen : s.size < dataLength) (rest : List UInt8) :
    verifyStringData (putString s ++ rest) dataLength = true := by
  unfold verifyStringData
  refine List.any_eq_true.mpr ⟨0, ?_, rfl⟩
  refine List.mem_take_iff_getElem.mpr ⟨s.size, ?_, ?_⟩
  · rw [List.length_append, length_putString]
    omega
  · simp [putString, CString.size]

theorem getString_putString {s : CString} {bufferSize readLength : Nat}
    (hmax : s.size < maxStringLen) (hfit : readLength + s.size + 1 ≤ bufferSize)
    (rest : List UInt8) :
    getString bufferSize readLength (putString s ++ rest) =
      .ok (s, readLength + s.size + 1, rest) := by
  have hnot : ¬ readLength > bufferSize := by omega
  have hverify : verifyStringData (putString s ++ rest) (bufferSize - readLength) = true :=
    verify_putString hmax (by omega) rest
  have hdrop : (putString s ++ rest).drop (s.size + 1) = rest :=
    List.drop_left' (length_putString s)
  have hscan : scansPast (putString s ++ rest) (bufferSize - readLength) = false := by
    simp [scansPast, putString]
  unfold getString
  rw [if_neg hnot, hscan, hverify, ofBytes_putString]
  simp only [Bool.false_eq_true, Bool.true_eq_false, if_false, hdrop]

theorem ntohl_mod (v : Nat) : ntohl v % 2 ^ 16 = v / 2 ^ 24 % 256 + 256 * (v / 2 ^ 16 % 256) := by
  have h2 : v / 256 / 256 = v / 2 ^ 16 := Nat.div_div_eq_div_mul v 256 256
  have h3 : v / 2 ^ 16 / 256 = v / 2 ^ 24 := Nat.div_div_eq_div_mul v (2 ^ 16) 256
  simp only [ntohl, swap, storeLE, List.reverse_cons, List.reverse_nil, List.nil_append,
    List.cons_append, loadLE, UInt8.toNat_ofNat', h2, h3]
  generalize v / 2 ^ 24 = a, v / 2 ^ 16 = b, v / 256 = c
  omega

/-- The word is gone: what is left of it is its highest bit, spread over all sixteen. -/
theorem ntohlShort_eq {word : Nat} (h : word < 2 ^ 16) :
    ntohlShort word = if word < 2 ^ 15 then 0 else 2 ^ 16 - 1 := by
  unfold ntohlShort
  rw [ntohl_mod]
  split
  · omega
  · omega

theorem getShortByNtohl_putShort (v : Nat) (rest : List UInt8) :
    getShortByNtohl (putShort v ++ rest) = .ok (ntohlShort (htons v), rest) := by
  have hlt : htons v < 256 ^ sizeofShort := lt_of_lt_of_eq (htons_lt v) (by decide)
  unfold getShortByNtohl putShort
  rw [load_storeLE, Nat.mod_eq_of_lt hlt]
  rfl

theorem getLong_putLong_of_lt {v : Nat} (h : v < 2 ^ 32) (rest : List UInt8) :
    getLong (putLong v ++ rest) = .ok (v, rest) := by
  rw [getLong_putLong, Nat.mod_eq_of_lt h]

theorem getShort_putShort_of_lt {v : Nat} (h : v < 2 ^ 16) (rest : List UInt8) :
    getShort (putShort v ++ rest) = .ok (v, rest) := by
  rw [getShort_putShort, Nat.mod_eq_of_lt h]

/-! ## Extensions -/

variable {δ : Type} [QueryOptionData δ]

/-- The extension writes the bytes `bytes` for its data and takes them back. -/
structure RoundTrips (optionData : δ) (bytes : List UInt8) : Prop where
  id_ne : QueryOptionData.getOptionId optionData ≠ 0
  id_lt : QueryOptionData.getOptionId optionData < 2 ^ 32
  length : QueryOptionData.getOptionDataLength optionData = bytes.length
  writes : ∀ b : DataBuffer, Writable b → bytes.length ≤ b.writeRemaining →
    (QueryOptionData.writeData optionData b).1 = true ∧
      Wrote b bytes (QueryOptionData.writeData optionData b).2
  reads : ∃ created : δ,
    QueryOptionData.getQueryOptionExt (QueryOptionData.getOptionId optionData) = some created ∧
      ∀ (b : DataBuffer) (rest : List UInt8), Readable b → b.unread = bytes ++ rest →
        ∃ b', QueryOptionData.readData created b = .ok (optionData, b') ∧ Readable b' ∧
          b'.unread = rest

theorem RoundTrips.readExtension {optionData : δ} {bytes : List UInt8}
    (h : RoundTrips optionData bytes) {b : DataBuffer} {rest : List UInt8} (hb : Readable b)
    (hun : b.unread = bytes ++ rest) :
    ∃ b', readExtension (QueryOptionData.getOptionId optionData) b = .ok (optionData, b') ∧
      Readable b' ∧ b'.unread = rest := by
  obtain ⟨created, hcreated, hread⟩ := h.reads
  unfold Alpine.readExtension
  rw [hcreated]
  exact hread b rest hb hun

/-! ## Resources -/

namespace ResourceDesc

/-- The bytes of an option, as the extension `encode` writes it. -/
def optionWire (encode : δ → List UInt8) (desc : ResourceDesc δ) : List UInt8 :=
  match desc.optionData with
  | none => []
  | some optionData => encode optionData

def wire (encode : δ → List UInt8) (desc : ResourceDesc δ) : List UInt8 :=
  desc.fields.flatten ++ desc.optionWire encode

structure FitsWire (encode : δ → List UInt8) (desc : ResourceDesc δ) : Prop where
  matchId : desc.matchId < 2 ^ 32
  size : desc.size < 2 ^ 32
  locators : desc.locatorList.length ≤ 10000
  locator : ∀ s ∈ desc.locatorList, s.size < maxStringLen
  description : desc.description.size < maxStringLen
  option : ∀ optionData, desc.optionData = some optionData →
    RoundTrips optionData (encode optionData)

variable {encode : δ → List UInt8}

theorem length_locators (locators : List CString) :
    (locators.flatMap putString).length = (locators.map fun s => s.size + 1).sum := by
  simp [List.length_flatMap]

theorem FitsWire.dataSize_eq {desc : ResourceDesc δ} (h : desc.FitsWire encode) :
    desc.dataSize = (desc.wire encode).length := by
  have hoption : desc.optionLength = (desc.optionWire encode).length := by
    unfold optionLength optionWire optionId
    cases hd : desc.optionData with
    | none => rfl
    | some optionData =>
      have hr := h.option optionData hd
      simp only [ne_eq, hr.id_ne, not_false_eq_true, if_true]
      exact hr.length
  unfold dataSize wire
  rw [hoption]
  simp only [fields, List.flatten_cons, List.flatten_nil, List.length_append, length_putLong,
    length_putShort, length_putString, length_locators, List.length_nil, sizeofLong, sizeofShort]
  omega

theorem FitsWire.wrote {desc : ResourceDesc δ} (h : desc.FitsWire encode) {b : DataBuffer}
    (hb : Writable b) (hroom : (desc.wire encode).length ≤ b.writeRemaining) :
    (desc.writeOption (b.append desc.fields.flatten)).1 = true ∧
      Wrote b (desc.wire encode) (desc.writeOption (b.append desc.fields.flatten)).2 := by
  rw [wire, List.length_append] at hroom
  have hfields : Wrote b desc.fields.flatten (b.append desc.fields.flatten) :=
    hb.wrote_append _ (by omega)
  have hleft := hfields.room
  unfold writeOption wire optionWire optionId
  unfold optionWire at hroom
  cases hd : desc.optionData with
  | none =>
    simp only [List.append_nil]
    exact ⟨trivial, hfields⟩
  | some optionData =>
    have hr := h.option optionData hd
    rw [hd] at hroom
    simp only [ne_eq, hr.id_ne, not_false_eq_true, if_true] at hroom ⊢
    obtain ⟨hstatus, hwrote⟩ := hr.writes _ hfields.writable (by omega)
    exact ⟨hstatus, hfields.trans hwrote⟩

/-- The loop writes the resources one after another. -/
theorem wrote_list {list : List (ResourceDesc δ)} (h : ∀ desc ∈ list, desc.FitsWire encode)
    {b : DataBuffer} (hb : Writable b)
    (hroom : (list.flatMap (wire encode)).length ≤ b.writeRemaining) :
    (writeList list b).1 = true ∧ Wrote b (list.flatMap (wire encode)) (writeList list b).2 := by
  induction list generalizing b with
  | nil => exact ⟨rfl, hb.wrote_nil⟩
  | cons desc list ih =>
    rw [List.flatMap_cons, List.length_append] at hroom
    have hfields : desc.fields.flatten.length ≤ (desc.wire encode).length := by
      rw [wire, List.length_append]
      omega
    have hpos : 0 < desc.fields.flatten.length := by simp [fields]
    have hwritten : writeFields b.writeRemaining [] desc.fields = some desc.fields.flatten :=
      writeFields_eq (by rw [List.nil_append]; omega)
    obtain ⟨hstatus, hwrote⟩ := (h desc List.mem_cons_self).wrote hb (by omega)
    have hleft := hwrote.room
    obtain ⟨hrest, hwroteRest⟩ := ih (fun d hd => h d (List.mem_cons_of_mem _ hd)) hwrote.writable
      (by omega)
    rw [writeList, getWriteBuffer_of_pos (by omega)]
    simp only [hwritten, hstatus, Bool.true_eq_false, if_false]
    exact ⟨hrest, hwrote.trans hwroteRest⟩

theorem readLocators_wire {bufferSize : Nat} {locators : List CString}
    (hmax : ∀ s ∈ locators, s.size < maxStringLen) {readLength : Nat} (rest : List UInt8)
    (hfit : readLength + (locators.flatMap putString).length ≤ bufferSize) :
    readLocators bufferSize locators.length readLength (locators.flatMap putString ++ rest) =
      .ok (locators, readLength + (locators.flatMap putString).length, rest) := by
  induction locators generalizing readLength with
  | nil => rfl
  | cons s locators ih =>
    rw [List.flatMap_cons, List.length_append, length_putString] at hfit
    have hs : getString bufferSize readLength (putString s ++ (locators.flatMap putString ++ rest)) =
        .ok (s, readLength + s.size + 1, locators.flatMap putString ++ rest) :=
      getString_putString (hmax s List.mem_cons_self) (by omega) _
    have hrest : readLocators bufferSize locators.length (readLength + s.size + 1)
        (locators.flatMap putString ++ rest) =
          .ok (locators, readLength + s.size + 1 + (locators.flatMap putString).length, rest) :=
      ih (fun t ht => hmax t (List.mem_cons_of_mem _ ht)) (by omega)
    rw [List.flatMap_cons, List.append_assoc, List.length_cons, readLocators, hs]
    simp only [bind, Except.bind, hrest, pure, Except.pure, List.length_append, length_putString]
    congr 3
    omega

theorem wire_append (desc : ResourceDesc δ) (rest : List UInt8) :
    desc.wire encode ++ rest =
      putLong desc.matchId ++ (putLong desc.size ++ (putShort desc.locatorList.length ++
        (desc.locatorList.flatMap putString ++ (putString desc.description ++
          (putLong desc.optionId ++ (desc.optionWire encode ++ rest)))))) := by
  simp only [wire, fields, List.flatten_cons, List.flatten_nil, List.append_assoc, List.nil_append]

theorem wire_pos (desc : ResourceDesc δ) : 0 < (desc.wire encode).length := by
  simp [wire, fields]

theorem FitsWire.optionId_lt {desc : ResourceDesc δ} (h : desc.FitsWire encode) :
    desc.optionId < 2 ^ 32 := by
  unfold optionId
  cases hd : desc.optionData with
  | none => simp
  | some optionData => exact (h.option optionData hd).id_lt

/-- The length of what is stored of a resource before its option. -/
theorem length_fields (desc : ResourceDesc δ) :
    desc.fields.flatten.length =
      18 + (desc.locatorList.flatMap putString).length + desc.description.size + 1 + 8 := by
  simp only [fields, List.flatten_cons, List.flatten_nil, List.length_append, length_putLong,
    length_putShort, length_putString, List.length_nil]
  omega

theorem readOne_wire {desc : ResourceDesc δ} (h : desc.FitsWire encode) {b : DataBuffer}
    (hb : Readable b) {rest : List UInt8} (hun : b.unread = desc.wire encode ++ rest) :
    ∃ b', (readOne b : Except ReadError (ResourceDesc δ × DataBuffer)) = .ok (desc, b') ∧
      Readable b' ∧ b'.unread = rest := by
  have hwire : b.unread = desc.fields.flatten ++ (desc.optionWire encode ++ rest) := by
    rw [hun, wire, List.append_assoc]
  have hlen : b.unread.length =
      desc.fields.flatten.length + (desc.optionWire encode ++ rest).length := by
    rw [hwire, List.length_append]
  have hfields := desc.length_fields
  have hne : b.unread ≠ [] := by
    intro hnil
    rw [hnil, List.length_nil] at hlen
    omega
  obtain ⟨hread, hrest⟩ := hb.read_addReadBytes hwire hfields.symm
  have hloc : readLocators b.unread.length desc.locatorList.length 18
      (desc.locatorList.flatMap putString ++ (putString desc.description ++
        (putLong desc.optionId ++ (desc.optionWire encode ++ rest)))) =
      .ok (desc.locatorList, 18 + (desc.locatorList.flatMap putString).length,
        putString desc.description ++ (putLong desc.optionId ++ (desc.optionWire encode ++ rest))) :=
    readLocators_wire h.locator _ (by omega)
  have hdesc : getString b.unread.length (18 + (desc.locatorList.flatMap putString).length)
      (putString desc.description ++ (putLong desc.optionId ++ (desc.optionWire encode ++ rest))) =
      .ok (desc.description,
        18 + (desc.locatorList.flatMap putString).length + desc.description.size + 1,
        putLong desc.optionId ++ (desc.optionWire encode ++ rest)) :=
    getString_putString h.description (by omega) _
  have hmatch : getLong b.unread = .ok (desc.matchId, putLong desc.size ++
      (putShort desc.locatorList.length ++ (desc.locatorList.flatMap putString ++
        (putString desc.description ++ (putLong desc.optionId ++
          (desc.optionWire encode ++ rest)))))) := by
    rw [hun, wire_append, getLong_putLong_of_lt h.matchId]
  have hcount : desc.locatorList.length < 2 ^ 16 := lt_of_le_of_lt h.locators (by decide)
  unfold readOne
  rw [hb.getReadBuffer hne]
  generalize hN : b.unread.length = bufferSize at hlen hloc hdesc ⊢
  have h1 : ¬ 8 > bufferSize := by omega
  have h2 : ¬ 8 + 8 > bufferSize := by omega
  have h3 : ¬ 8 + 8 + 2 > bufferSize := by omega
  have h4 : ¬ 18 + (desc.locatorList.flatMap putString).length + desc.description.size + 1 + 8 >
      bufferSize := by omega
  simp only [bind, Except.bind, pure, Except.pure, sizeofLong, sizeofShort, h1, h2, h3, if_false,
    hmatch, getLong_putLong_of_lt h.size, getShort_putShort_of_lt hcount, hN,
    hloc, hdesc, h4, getLong_putLong_of_lt h.optionId_lt]
  obtain ⟨matchId, size, locatorList, description, optionData⟩ := desc
  cases optionData with
  | none =>
    refine ⟨_, if_pos rfl, hread.readable, ?_⟩
    simpa only [optionWire, List.nil_append] using hrest
  | some optionData =>
    have hr := h.option optionData rfl
    obtain ⟨b', hoption, hreadable, hleft⟩ := hr.readExtension hread.readable hrest
    refine ⟨b', ?_, hreadable, hleft⟩
    simp only [optionId, hr.id_ne, if_false, hoption]

/-- The loop takes the resources off the buffer one after another, and ends with the last. -/
theorem readList_wire {replySetSize : Nat} {todo : List (ResourceDesc δ)}
    (h : ∀ desc ∈ todo, desc.FitsWire encode) (hne : todo ≠ []) {done : List (ResourceDesc δ)}
    (hsize : done.length + todo.length = replySetSize) {fuel : Nat} (hfuel : todo.length ≤ fuel)
    {b : DataBuffer} (hb : Readable b) {rest : List UInt8}
    (hun : b.unread = todo.flatMap (wire encode) ++ rest) :
    ∃ b', readList replySetSize fuel done b = .ok (done ++ todo, b') ∧ Readable b' ∧
      b'.unread = rest := by
  induction todo generalizing done fuel b with
  | nil => exact absurd rfl hne
  | cons desc todo ih =>
    obtain ⟨fuel, rfl⟩ : ∃ n, fuel = n + 1 := by
      rw [List.length_cons] at hfuel
      exact ⟨fuel - 1, by omega⟩
    rw [List.flatMap_cons, List.append_assoc] at hun
    rw [List.length_cons] at hsize hfuel
    obtain ⟨b₁, hone, hb₁, hun₁⟩ := readOne_wire (h desc List.mem_cons_self) hb hun
    rw [readList, hone]
    simp only [bind, Except.bind, pure, Except.pure, List.length_append, List.length_singleton]
    cases todo with
    | nil =>
      have hlast : done.length + 1 = replySetSize := hsize
      exact ⟨b₁, if_pos hlast, hb₁, hun₁⟩
    | cons next todo =>
      have hmore : ¬ done.length + 1 = replySetSize := by
        rw [List.length_cons] at hsize
        omega
      have hsize' : (done ++ [desc]).length + (next :: todo).length = replySetSize := by
        rw [List.length_append, List.length_singleton]
        omega
      have hfuel' : (next :: todo).length ≤ fuel := by omega
      obtain ⟨b', hlist, hb', hleft⟩ := ih (fun d hd => h d (List.mem_cons_of_mem _ hd))
        (List.cons_ne_nil _ _) hsize' hfuel' hb₁ hun₁
      refine ⟨b', ?_, hb', hleft⟩
      rw [if_neg hmore, hlist, List.append_assoc, List.singleton_append]

theorem length_le_wire (list : List (ResourceDesc δ)) :
    list.length ≤ (list.flatMap (wire encode)).length := by
  induction list with
  | nil => exact Nat.le_refl 0
  | cons desc list ih =>
    have hpos : 0 < (desc.wire encode).length := desc.wire_pos
    rw [List.flatMap_cons, List.length_append, List.length_cons]
    omega

end ResourceDesc

/-! ## Packets -/

namespace QueryPacket

variable {π : Type}

def optionWire (encode : δ → List UInt8) (p : QueryPacket π δ) : List UInt8 :=
  match p.optionData with
  | none => []
  | some optionData => if p.optionId ≠ 0 then encode optionData else []

/-- The bytes after the fixed fields. -/
def restWire (encode : δ → List UInt8) (p : QueryPacket π δ) : List UInt8 :=
  match p.packetType with
  | .none => []
  | .queryReply => (p.resourceList.getD []).flatMap (ResourceDesc.wire encode)
  | _ => p.optionWire encode

def wire (encode : δ → List UInt8) (p : QueryPacket π δ) : List UInt8 :=
  p.fixedFields ++ (p.restWire encode ++ [p.priority])

/-- The packet's option is none, or one whose extension round-trips. -/
def OptionFits (encode : δ → List UInt8) (p : QueryPacket π δ) : Prop :=
  p.optionId = 0 ∨ ∃ optionData, p.optionData = some optionData ∧
    QueryOptionData.getOptionId optionData = p.optionId ∧
    RoundTrips optionData (encode optionData)

/-- The fields of the packet fit the wire, and the buffer has room for them. -/
structure FitsWire (encode : δ → List UInt8) (p : QueryPacket π δ) (b : DataBuffer) : Prop where
  type : p.packetType ≠ .none
  parent : p.parent = none
  queryId : p.queryId < 2 ^ 32
  optionId : p.optionId < 2 ^ 32
  numHits : p.numHits < 2 ^ 32
  offset : p.offset < 2 ^ 32
  uploadSlots : p.uploadSlots < 2 ^ 16
  replySetSize : p.replySetSize < 2 ^ 16
  queryString : p.queryString.size < maxStringLen
  option : p.packetType ≠ .queryReply → p.OptionFits encode
  resources : p.packetType = .queryReply → ∃ list, p.resourceList = some list ∧
    1 ≤ list.length ∧ list.length ≤ maxReplySetSize ∧ list.length = p.replySetSize ∧
    ∀ desc ∈ list, desc.FitsWire encode
  writable : Writable b
  room : (p.wire encode).length ≤ b.writeRemaining

/-- The option that goes with the option id. -/
def carriedOption (p : QueryPacket π δ) : Option δ :=
  if p.optionId = 0 then none else p.optionData

/-- What the packet's type carries, in a packet as constructed. -/
def carried (p : QueryPacket π δ) : QueryPacket π δ :=
  let q := { (fresh p.packetType : QueryPacket π δ) with queryId := p.queryId, priority := p.priority }
  match p.packetType with
  | .none => q
  | .queryDiscover =>
    { q with
      queryString := p.queryString, optionId := p.optionId, optionData := p.carriedOption }
  | .queryOffer =>
    { q with
      numHits := p.numHits, uploadSlots := p.uploadSlots
      optionId := p.optionId, optionData := p.carriedOption }
  | .queryRequest =>
    { q with
      offset := p.offset, replySetSize := p.replySetSize, queryString := p.queryString
      optionId := p.optionId, optionData := p.carriedOption }
  | .queryReply => { q with replySetSize := p.replySetSize, resourceList := p.resourceList }

/-- A fresh packet of the type reads `q` from these bytes, all of them. -/
def ReadsBack (data : List UInt8) (q : QueryPacket π δ) : Prop :=
  ∃ b', (fresh q.packetType : QueryPacket π δ).readData (ofData data) = .ok (q, b') ∧ b'.unread = []

/-- What is written is read back as it was. -/
structure RoundTrip [StackLinkInterface π] (p : QueryPacket π δ) (b : DataBuffer) : Prop where
  status : (p.writeData b).1 = true
  back : ∃ data, Wrote b data (p.writeData b).2 ∧ ReadsBack data p.carried

omit [QueryOptionData δ] in
@[simp] theorem packetType_fresh (packetType : QueryPacketType) :
    (fresh packetType : QueryPacket π δ).packetType = packetType := rfl

/-! ### Writing -/

variable {encode : δ → List UInt8}

theorem OptionFits.length {p : QueryPacket π δ} (h : p.OptionFits encode) :
    p.optionLength = (p.optionWire encode).length := by
  unfold optionLength optionWire
  obtain h0 | ⟨optionData, hd, hid, hr⟩ := h
  · cases p.optionData <;> simp [h0]
  · have hne : p.optionId ≠ 0 := hid ▸ hr.id_ne
    simp only [hd, ne_eq, hne, not_false_eq_true, if_true]
    exact hr.length

theorem OptionFits.wrote {p : QueryPacket π δ} (h : p.OptionFits encode) {b : DataBuffer}
    (hb : Writable b) (hroom : (p.optionWire encode).length ≤ b.writeRemaining) :
    (p.writeOption b).1 = true ∧ Wrote b (p.optionWire encode) (p.writeOption b).2 := by
  unfold writeOption optionWire
  unfold optionWire at hroom
  obtain h0 | ⟨optionData, hd, hid, hr⟩ := h
  · cases p.optionData <;> simpa [h0] using hb.wrote_nil
  · have hne : p.optionId ≠ 0 := hid ▸ hr.id_ne
    rw [hd] at hroom
    simp only [hd, ne_eq, hne, not_false_eq_true, if_true] at hroom ⊢
    exact hr.writes b hb hroom

theorem FitsWire.wroteRest {p : QueryPacket π δ} {b : DataBuffer} (h : p.FitsWire encode b)
    {c : DataBuffer} (hc : Writable c) (hroom : (p.restWire encode).length ≤ c.writeRemaining) :
    (p.writeRest c).1 = true ∧ Wrote c (p.restWire encode) (p.writeRest c).2 := by
  unfold writeRest restWire
  unfold restWire at hroom
  cases hty : p.packetType with
  | none => exact absurd hty h.type
  | queryReply =>
    obtain ⟨list, hlist, hpos, -, -, hfits⟩ := h.resources hty
    rw [hty, hlist] at hroom
    rw [writeResourceListData, hlist]
    cases list with
    | nil => exact absurd hpos (by simp)
    | cons desc list => exact ResourceDesc.wrote_list hfits hc hroom
  | queryDiscover | queryOffer | queryRequest =>
    rw [hty] at hroom
    exact (h.option (by simp [hty])).wrote hc hroom

theorem FitsWire.writeLength {p : QueryPacket π δ} {b : DataBuffer} (h : p.FitsWire encode b) :
    p.writeLength = (p.fixedFields ++ p.restWire encode).length := by
  unfold QueryPacket.writeLength fixedFields restWire
  cases hty : p.packetType with
  | none => rfl
  | queryReply =>
    obtain ⟨list, hlist, -, -, -, hfits⟩ := h.resources hty
    have hsum : list.map ResourceDesc.dataSize =
        list.map fun desc => (desc.wire encode).length :=
      List.map_congr_left fun desc hdesc => (hfits desc hdesc).dataSize_eq
    simp only [calculateResourceListSize, hlist, hsum, Option.getD_some, List.length_append,
      length_putLong, length_putShort, List.length_flatMap, sizeofLong, sizeofShort]
    omega
  | queryOffer =>
    have hoption := (h.option (by simp [hty])).length
    simp only [List.length_append, length_putLong, length_putShort, hoption, sizeofLong,
      sizeofShort]
  | queryDiscover | queryRequest =>
    have hoption := (h.option (by simp [hty])).length
    simp only [List.length_append, length_putLong, length_putShort, length_putString, hoption,
      sizeofLong, sizeofShort]
    omega

theorem FitsWire.wrote [StackLinkInterface π] {p : QueryPacket π δ} {b : DataBuffer}
    (h : p.FitsWire encode b) :
    (p.writeData b).1 = true ∧ Wrote b (p.wire encode) (p.writeData b).2 := by
  have hroom := h.room
  have hlength := h.writeLength
  rw [List.length_append] at hlength
  rw [wire, List.length_append, List.length_append, List.length_singleton] at hroom
  have hfit : ¬ b.writeRemaining < uint p.writeLength := by
    have : uint p.writeLength ≤ p.writeLength := Nat.mod_le _ _
    omega
  have hlist : ¬ (p.packetType = .queryReply ∧ p.resourceList.isNone) := by
    rintro ⟨hty, hnone⟩
    obtain ⟨list, hlist, -⟩ := h.resources hty
    simp [hlist] at hnone
  have hfixed : Wrote b p.fixedFields (b.append p.fixedFields) :=
    h.writable.wrote_append _ (by omega)
  have hleft := hfixed.room
  obtain ⟨hstatus, hrest⟩ := h.wroteRest hfixed.writable (by omega)
  have hleft' := hrest.room
  have hpriority : Wrote _ [p.priority] (DataBuffer.append _ [p.priority]) :=
    hrest.writable.wrote_append [p.priority] (by rw [List.length_singleton]; omega)
  have hwrote := hfixed.trans (hrest.trans hpriority)
  unfold writeData
  rw [getWriteBuffer_of_pos (by omega : 0 < b.writeRemaining)]
  simp only [hlist, hfit, if_false, hstatus, Bool.true_eq_false,
    getWriteBuffer_of_pos (by omega : 0 < (p.writeRest (b.append p.fixedFields)).2.writeRemaining),
    h.parent]
  exact ⟨trivial, hwrote⟩

/-! ### Reading -/

/-- A fresh packet takes the option back, or stays without one. -/
theorem OptionFits.readOption {p q : QueryPacket π δ} (h : p.OptionFits encode)
    (hid : q.optionId = p.optionId) (hnone : q.optionData = none) {b : DataBuffer}
    (hb : Readable b) {rest : List UInt8} (hun : b.unread = p.optionWire encode ++ rest) :
    ∃ b', q.readOption b = .ok ({ q with optionData := p.carriedOption }, b') ∧ Readable b' ∧
      b'.unread = rest := by
  unfold QueryPacket.readOption carriedOption
  obtain h0 | ⟨optionData, hd, hdid, hr⟩ := h
  · have hrest : b.unread = rest := by
      rw [hun, optionWire]
      cases p.optionData <;> simp [h0]
    refine ⟨b, ?_, hb, hrest⟩
    rw [if_pos (hid.trans h0), if_pos h0, ← hnone]
  · have hne : p.optionId ≠ 0 := hdid ▸ hr.id_ne
    have hbytes : b.unread = encode optionData ++ rest := by
      rw [hun, optionWire, hd]
      simp only [ne_eq, hne, not_false_eq_true, if_true]
    obtain ⟨b', hread, hb', hleft⟩ := hr.readExtension hb hbytes
    refine ⟨b', ?_, hb', hleft⟩
    rw [if_neg (hid ▸ hne), if_neg hne, hid, ← hdid, hread, hd]
    rfl

omit [QueryOptionData δ] in
theorem readPriority_eq {q : QueryPacket π δ} {b : DataBuffer} (hb : Readable b) {priority : UInt8}
    (hun : b.unread = [priority]) :
    ∃ b', q.readPriority b = ({ q with priority }, b') ∧ b'.unread = [] := by
  have hne : b.unread ≠ [] := by simp [hun]
  have hbyte : b.unread = [priority] ++ [] := hun
  obtain ⟨-, hleft⟩ := hb.read_addReadBytes hbyte (n := 1) rfl
  refine ⟨b.addReadBytes 1, ?_, hleft⟩
  unfold readPriority
  rw [hb.getReadBuffer hne, hun]

theorem readDiscover_wire {p q : QueryPacket π δ} (hoption : p.OptionFits encode)
    (hid : p.optionId < 2 ^ 32) (hstring : p.queryString.size < maxStringLen)
    (hnone : q.optionData = none) {b : DataBuffer} (hb : Readable b) {rest : List UInt8}
    (hun : b.unread = putLong p.queryId ++ putString p.queryString ++ putLong p.optionId ++
      (p.optionWire encode ++ rest)) :
    ∃ b', q.readDiscover b.unread.length sizeofLong
        (putString p.queryString ++ (putLong p.optionId ++ (p.optionWire encode ++ rest))) b =
          .ok ({ q with
            queryString := p.queryString, optionId := p.optionId
            optionData := p.carriedOption }, b') ∧
      Readable b' ∧ b'.unread = rest := by
  have hlen := congrArg List.length hun
  simp only [List.length_append, length_putLong, length_putString] at hlen
  obtain ⟨hread, hleft⟩ := hb.read_addReadBytes hun
    (n := sizeofLong + p.queryString.size + 1 + sizeofLong) (by
      simp only [List.length_append, length_putLong, length_putString, sizeofLong]
      omega)
  have hs : getString b.unread.length sizeofLong
      (putString p.queryString ++ (putLong p.optionId ++ (p.optionWire encode ++ rest))) =
      .ok (p.queryString, sizeofLong + p.queryString.size + 1,
        putLong p.optionId ++ (p.optionWire encode ++ rest)) :=
    getString_putString hstring (by unfold sizeofLong; omega) _
  have hfit : ¬ sizeofLong + p.queryString.size + 1 + sizeofLong > b.unread.length := by
    unfold sizeofLong
    omega
  simp only [readDiscover, bind, Except.bind, hs, hfit, if_false, getLong_putLong_of_lt hid]
  exact hoption.readOption
    (q := { q with queryString := p.queryString, optionId := p.optionId }) rfl hnone hread.readable
    hleft

theorem readOffer_wire {p q : QueryPacket π δ} (hoption : p.OptionFits encode)
    (hid : p.optionId < 2 ^ 32) (hhits : p.numHits < 2 ^ 32) (hmax : p.numHits ≤ maxHits)
    (hnone : q.optionData = none) {b : DataBuffer} (hb : Readable b) {rest : List UInt8}
    (hun : b.unread = putLong p.queryId ++ putLong p.numHits ++ putShort p.uploadSlots ++
      putLong p.optionId ++ (p.optionWire encode ++ rest)) :
    ∃ b', q.readOffer sizeofLong (putLong p.numHits ++ (putShort p.uploadSlots ++
        (putLong p.optionId ++ (p.optionWire encode ++ rest)))) b =
          .ok ({ q with
            numHits := p.numHits, uploadSlots := ntohlShort (htons p.uploadSlots)
            optionId := p.optionId, optionData := p.carriedOption }, b') ∧
      Readable b' ∧ b'.unread = rest := by
  obtain ⟨hread, hleft⟩ := hb.read_addReadBytes hun
    (n := sizeofLong + sizeofLong + sizeofShort + sizeofLong) (by
      simp only [List.length_append, length_putLong, length_putShort, sizeofLong, sizeofShort])
  have hfew : ¬ p.numHits > maxHits := by omega
  simp only [readOffer, bind, Except.bind, getLong_putLong_of_lt hhits, hfew, if_false,
    getShortByNtohl_putShort, getLong_putLong_of_lt hid]
  exact hoption.readOption
    (q := { q with
      numHits := p.numHits, uploadSlots := ntohlShort (htons p.uploadSlots)
      optionId := p.optionId })
    rfl hnone hread.readable hleft

theorem readOffer_refused {p q : QueryPacket π δ} (hhits : p.numHits < 2 ^ 32)
    (hmax : maxHits < p.numHits) (readLength : Nat) (rest : List UInt8) (b : DataBuffer) :
    q.readOffer readLength (putLong p.numHits ++ rest) b = .error .failed := by
  have hmany : p.numHits > maxHits := hmax
  simp only [readOffer, bind, Except.bind, getLong_putLong_of_lt hhits, hmany, if_true]

theorem readRequest_wire {p q : QueryPacket π δ} (hoption : p.OptionFits encode)
    (hid : p.optionId < 2 ^ 32) (hoffset : p.offset < 2 ^ 32)
    (hstring : p.queryString.size < maxStringLen)
    (hmax : ntohlShort (htons p.replySetSize) ≤ maxReplySetSize)
    (hnone : q.optionData = none) {b : DataBuffer} (hb : Readable b) {rest : List UInt8}
    (hun : b.unread = putLong p.queryId ++ putLong p.offset ++ putShort p.replySetSize ++
      putString p.queryString ++ putLong p.optionId ++ (p.optionWire encode ++ rest)) :
    ∃ b', q.readRequest b.unread.length sizeofLong (putLong p.offset ++
        (putShort p.replySetSize ++ (putString p.queryString ++ (putLong p.optionId ++
          (p.optionWire encode ++ rest))))) b =
          .ok ({ q with
            offset := p.offset, replySetSize := ntohlShort (htons p.replySetSize)
            queryString := p.queryString, optionId := p.optionId
            optionData := p.carriedOption }, b') ∧
      Readable b' ∧ b'.unread = rest := by
  have hlen := congrArg List.length hun
  simp only [List.length_append, length_putLong, length_putShort, length_putString] at hlen
  obtain ⟨hread, hleft⟩ := hb.read_addReadBytes hun
    (n := sizeofLong + sizeofLong + sizeofShort + p.queryString.size + 1 + sizeofLong) (by
      simp only [List.length_append, length_putLong, length_putShort, length_putString, sizeofLong,
        sizeofShort]
      omega)
  have hs : getString b.unread.length (sizeofLong + sizeofLong + sizeofShort)
      (putString p.queryString ++ (putLong p.optionId ++ (p.optionWire encode ++ rest))) =
      .ok (p.queryString, sizeofLong + sizeofLong + sizeofShort + p.queryString.size + 1,
        putLong p.optionId ++ (p.optionWire encode ++ rest)) :=
    getString_putString hstring (by unfold sizeofLong sizeofShort; omega) _
  have hfit : ¬ sizeofLong + sizeofLong + sizeofShort + p.queryString.size + 1 + sizeofLong >
      b.unread.length := by
    unfold sizeofLong sizeofShort
    omega
  have hfew : ¬ ntohlShort (htons p.replySetSize) > maxReplySetSize := by omega
  simp only [readRequest, bind, Except.bind, getLong_putLong_of_lt hoffset,
    getShortByNtohl_putShort, hfew, if_false, hs, hfit, getLong_putLong_of_lt hid]
  exact hoption.readOption
    (q := { q with
      offset := p.offset, replySetSize := ntohlShort (htons p.replySetSize)
      queryString := p.queryString, optionId := p.optionId })
    rfl hnone hread.readable hleft

theorem readResourceListData_wire {q : QueryPacket π δ} {list : List (ResourceDesc δ)}
    (hlist : ∀ desc ∈ list, desc.FitsWire encode) (hpos : 1 ≤ list.length)
    (hsize : list.length = q.replySetSize) {b : DataBuffer} (hb : Readable b) {rest : List UInt8}
    (hun : b.unread = list.flatMap (ResourceDesc.wire encode) ++ rest) :
    ∃ b', q.readResourceListData b = .ok ({ q with resourceList := some list }, b') ∧ Readable b' ∧
      b'.unread = rest := by
  have hne : list ≠ [] := by
    rintro rfl
    simp at hpos
  have hlen := hb.length_unread
  rw [hun, List.length_append] at hlen
  have hle : list.length ≤ (list.flatMap (ResourceDesc.wire encode)).length :=
    ResourceDesc.length_le_wire list
  have hsize' : ([] : List (ResourceDesc δ)).length + list.length = q.replySetSize := by
    rw [List.length_nil, Nat.zero_add, hsize]
  obtain ⟨b', hread, hb', hleft⟩ := ResourceDesc.readList_wire hlist hne hsize'
    (show list.length ≤ b.readRemaining + 1 by omega) hb hun
  refine ⟨b', ?_, hb', hleft⟩
  unfold readResourceListData
  rw [hread]
  rfl

/-- The reader takes the query id, then what its type brings, and last the priority. -/
theorem readData_ok {q r : QueryPacket π δ} {b b' : DataBuffer} (hb : Readable b) {queryId : Nat}
    (hid : queryId < 2 ^ 32) {tail : List UInt8} (hun : b.unread = putLong queryId ++ tail)
    (hmin : minimumLength q.packetType ≤ b.unread.length)
    (hbody : { q with queryId }.readBody b.unread.length tail b = .ok (r, b'))
    (hb' : Readable b') {priority : UInt8} (hlast : b'.unread = [priority]) :
    ∃ b'', q.readData b = .ok ({ r with priority }, b'') ∧ b''.unread = [] := by
  obtain ⟨b'', hpriority, hleft⟩ := readPriority_eq (q := r) hb' hlast
  have hne : b.unread ≠ [] := by simp [hun, putLong, storeLE, sizeofLong]
  have hfit : ¬ b.unread.length < minimumLength q.packetType := by omega
  have hlong : getLong b.unread = .ok (queryId, tail) := by rw [hun, getLong_putLong_of_lt hid]
  refine ⟨b'', ?_, hleft⟩
  simp only [readData, hb.getReadBuffer hne, bind, Except.bind, hfit, if_false, hlong, hbody, pure,
    Except.pure, hpriority]

theorem readData_error {q : QueryPacket π δ} {b : DataBuffer} (hb : Readable b) {queryId : Nat}
    (hid : queryId < 2 ^ 32) {tail : List UInt8} (hun : b.unread = putLong queryId ++ tail)
    (hmin : minimumLength q.packetType ≤ b.unread.length) {e : ReadError}
    (hbody : { q with queryId }.readBody b.unread.length tail b = .error e) :
    q.readData b = .error e := by
  have hne : b.unread ≠ [] := by simp [hun, putLong, storeLE, sizeofLong]
  have hfit : ¬ b.unread.length < minimumLength q.packetType := by omega
  have hlong : getLong b.unread = .ok (queryId, tail) := by rw [hun, getLong_putLong_of_lt hid]
  simp only [readData, hb.getReadBuffer hne, bind, Except.bind, hfit, if_false, hlong, hbody]

/-! ### Round trips -/

/-- What is written of every packet that fits is read back, as far as the reader goes: an offer of
more than `maxHits` hits is refused, and nothing is said of the two fields of 16 bits. For a reply
it is the list that is read, by any packet that knows its size. -/
structure Restores [StackLinkInterface π] (encode : δ → List UInt8) (p : QueryPacket π δ)
    (b : DataBuffer) : Prop where
  status : (p.writeData b).1 = true
  wrote : Wrote b (p.wire encode) (p.writeData b).2
  discover : p.packetType = .queryDiscover → ReadsBack (p.wire encode) p.carried
  offer : p.packetType = .queryOffer → p.numHits ≤ maxHits →
    ∃ uploadSlots, ReadsBack (p.wire encode) { p.carried with uploadSlots }
  refused : p.packetType = .queryOffer → maxHits < p.numHits →
    (fresh p.packetType : QueryPacket π δ).readData (ofData (p.wire encode)) = .error .failed
  request : p.packetType = .queryRequest → ntohlShort (htons p.replySetSize) ≤ maxReplySetSize →
    ∃ replySetSize, ReadsBack (p.wire encode) { p.carried with replySetSize }
  reply : p.packetType = .queryReply →
    (∃ tail, getLong (p.wire encode) = .ok (p.queryId, tail)) ∧
      ∀ q : QueryPacket π δ, q.replySetSize = p.replySetSize →
        ∃ b' b'', q.readResourceListData
            ((ofData (p.wire encode)).addReadBytes (sizeofLong + sizeofShort)) =
              .ok ({ q with resourceList := p.resourceList }, b') ∧
          { q with resourceList := p.resourceList }.readPriority b' =
            ({ q with resourceList := p.resourceList, priority := p.priority }, b'') ∧
          b''.unread = []

theorem FitsWire.readable {p : QueryPacket π δ} {b : DataBuffer} (h : p.FitsWire encode b) :
    Readable (ofData (p.wire encode)) := by
  have hroom := h.room
  have hspace := h.writable.room
  have hfits := h.writable.fits
  exact readable_ofData _ (by omega)

theorem FitsWire.readsBack_discover {p : QueryPacket π δ} {b : DataBuffer}
    (h : p.FitsWire encode b) (hty : p.packetType = .queryDiscover) :
    ReadsBack (p.wire encode) p.carried := by
  have hrest : p.restWire encode = p.optionWire encode := by rw [restWire, hty]
  have hun : (ofData (p.wire encode)).unread =
      putLong p.queryId ++ putString p.queryString ++ putLong p.optionId ++
        (p.optionWire encode ++ [p.priority]) := by
    rw [unread_ofData, wire, hrest, fixedFields, hty]
  have hmin : minimumLength .queryDiscover ≤ (ofData (p.wire encode)).unread.length := by
    rw [hun]
    simp only [List.length_append, length_putLong, length_putString, List.length_singleton]
    show 18 ≤ _
    omega
  obtain ⟨b', hbody, hb', hlast⟩ := readDiscover_wire
    (q := { (fresh .queryDiscover : QueryPacket π δ) with queryId := p.queryId })
    (h.option (by simp [hty])) h.optionId h.queryString rfl h.readable hun
  simp only [List.append_assoc] at hun
  have hback := readData_ok (q := (fresh .queryDiscover : QueryPacket π δ)) h.readable h.queryId hun
    hmin hbody hb' hlast
  simpa only [ReadsBack, carried, hty, packetType_fresh] using hback

theorem FitsWire.readsBack_offer {p : QueryPacket π δ} {b : DataBuffer}
    (h : p.FitsWire encode b) (hty : p.packetType = .queryOffer) (hmax : p.numHits ≤ maxHits) :
    ReadsBack (p.wire encode)
      { p.carried with uploadSlots := ntohlShort (htons p.uploadSlots) } := by
  have hrest : p.restWire encode = p.optionWire encode := by rw [restWire, hty]
  have hun : (ofData (p.wire encode)).unread =
      putLong p.queryId ++ putLong p.numHits ++ putShort p.uploadSlots ++ putLong p.optionId ++
        (p.optionWire encode ++ [p.priority]) := by
    rw [unread_ofData, wire, hrest, fixedFields, hty]
  have hmin : minimumLength .queryOffer ≤ (ofData (p.wire encode)).unread.length := by
    rw [hun]
    simp only [List.length_append, length_putLong, length_putShort, List.length_singleton]
    show 26 ≤ _
    omega
  obtain ⟨b', hbody, hb', hlast⟩ := readOffer_wire
    (q := { (fresh .queryOffer : QueryPacket π δ) with queryId := p.queryId })
    (h.option (by simp [hty])) h.optionId h.numHits hmax rfl h.readable hun
  simp only [List.append_assoc] at hun
  have hback := readData_ok (q := (fresh .queryOffer : QueryPacket π δ)) h.readable h.queryId hun
    hmin hbody hb' hlast
  simpa only [ReadsBack, carried, hty, packetType_fresh] using hback

/-- By design the reader takes no offer of more than `maxHits` hits. -/
theorem FitsWire.offer_refused {p : QueryPacket π δ} {b : DataBuffer}
    (h : p.FitsWire encode b) (hty : p.packetType = .queryOffer) (hmax : maxHits < p.numHits) :
    (fresh p.packetType : QueryPacket π δ).readData (ofData (p.wire encode)) = .error .failed := by
  have hun : (ofData (p.wire encode)).unread =
      putLong p.queryId ++ (putLong p.numHits ++ (putShort p.uploadSlots ++ (putLong p.optionId ++
        (p.restWire encode ++ [p.priority])))) := by
    rw [unread_ofData, wire, fixedFields, hty]
    simp only [List.append_assoc]
  have hmin : minimumLength .queryOffer ≤ (ofData (p.wire encode)).unread.length := by
    rw [hun]
    simp only [List.length_append, length_putLong, length_putShort, List.length_singleton]
    show 26 ≤ _
    omega
  rw [hty]
  exact readData_error h.readable h.queryId hun hmin (readOffer_refused h.numHits hmax _ _ _)

theorem FitsWire.readsBack_request {p : QueryPacket π δ} {b : DataBuffer}
    (h : p.FitsWire encode b) (hty : p.packetType = .queryRequest)
    (hmax : ntohlShort (htons p.replySetSize) ≤ maxReplySetSize) :
    ReadsBack (p.wire encode)
      { p.carried with replySetSize := ntohlShort (htons p.replySetSize) } := by
  have hrest : p.restWire encode = p.optionWire encode := by rw [restWire, hty]
  have hun : (ofData (p.wire encode)).unread =
      putLong p.queryId ++ putLong p.offset ++ putShort p.replySetSize ++
        putString p.queryString ++ putLong p.optionId ++
          (p.optionWire encode ++ [p.priority]) := by
    rw [unread_ofData, wire, hrest, fixedFields, hty]
  have hmin : minimumLength .queryRequest ≤ (ofData (p.wire encode)).unread.length := by
    rw [hun]
    simp only [List.length_append, length_putLong, length_putShort, length_putString,
      List.length_singleton]
    show 28 ≤ _
    omega
  obtain ⟨b', hbody, hb', hlast⟩ := readRequest_wire
    (q := { (fresh .queryRequest : QueryPacket π δ) with queryId := p.queryId })
    (h.option (by simp [hty])) h.optionId h.offset h.queryString hmax rfl h.readable hun
  simp only [List.append_assoc] at hun
  have hback := readData_ok (q := (fresh .queryRequest : QueryPacket π δ)) h.readable h.queryId hun
    hmin hbody hb' hlast
  simpa only [ReadsBack, carried, hty, packetType_fresh] using hback

/-- The list of a reply is read by any packet that knows its size, and the priority after it. -/
theorem FitsWire.readsBack_reply {p : QueryPacket π δ} {b : DataBuffer}
    (h : p.FitsWire encode b) (hty : p.packetType = .queryReply) (q : QueryPacket π δ)
    (hq : q.replySetSize = p.replySetSize) :
    ∃ b' b'', q.readResourceListData
        ((ofData (p.wire encode)).addReadBytes (sizeofLong + sizeofShort)) =
          .ok ({ q with resourceList := p.resourceList }, b') ∧
      { q with resourceList := p.resourceList }.readPriority b' =
        ({ q with resourceList := p.resourceList, priority := p.priority }, b'') ∧
      b''.unread = [] := by
  obtain ⟨list, hlist, hpos, -, hsize, hfits⟩ := h.resources hty
  have hrest : p.restWire encode = list.flatMap (ResourceDesc.wire encode) := by
    rw [restWire, hty]
    simp only [hlist, Option.getD_some]
  have hun : (ofData (p.wire encode)).unread =
      (putLong p.queryId ++ putShort p.replySetSize) ++
        (list.flatMap (ResourceDesc.wire encode) ++ [p.priority]) := by
    rw [unread_ofData, wire, hrest, fixedFields, hty]
  obtain ⟨hread, hleft⟩ := h.readable.read_addReadBytes hun (n := sizeofLong + sizeofShort) (by
    simp only [List.length_append, length_putLong, length_putShort, sizeofLong, sizeofShort])
  obtain ⟨b', hb', hreadable, hlast⟩ := readResourceListData_wire (q := q) hfits hpos
    (hsize.trans hq.symm) hread.readable hleft
  obtain ⟨b'', hpriority, hend⟩ := readPriority_eq
    (q := { q with resourceList := p.resourceList }) hreadable hlast
  exact ⟨b', b'', by rw [hb', hlist], hpriority, hend⟩

/-- The bytes written are those of `wire`, so that they are what is to be read back. -/
theorem FitsWire.roundTrip_iff [StackLinkInterface π] {p : QueryPacket π δ} {b : DataBuffer}
    (h : p.FitsWire encode b) : p.RoundTrip b ↔ ReadsBack (p.wire encode) p.carried := by
  obtain ⟨hstatus, hwrote⟩ := h.wrote
  constructor
  · rintro ⟨-, data, hdata, hback⟩
    have hsame : data = p.wire encode :=
      List.append_cancel_left (hdata.data.symm.trans hwrote.data)
    rwa [← hsame]
  · exact fun hback => ⟨hstatus, _, hwrote, hback⟩

theorem FitsWire.restores [StackLinkInterface π] {p : QueryPacket π δ} {b : DataBuffer}
    (h : p.FitsWire encode b) : p.Restores encode b := by
  obtain ⟨hstatus, hwrote⟩ := h.wrote
  exact {
    status := hstatus
    wrote := hwrote
    discover := fun hty => h.readsBack_discover hty
    offer := fun hty hmax => ⟨_, h.readsBack_offer hty hmax⟩
    refused := fun hty hmax => h.offer_refused hty hmax
    request := fun hty hmax => ⟨_, h.readsBack_request hty hmax⟩
    reply := fun hty => by
      refine ⟨⟨putShort p.replySetSize ++ (p.restWire encode ++ [p.priority]), ?_⟩,
        fun q hq => h.readsBack_reply hty q hq⟩
      rw [wire, fixedFields, hty]
      simp only [List.append_assoc]
      exact getLong_putLong_of_lt h.queryId _ }

end QueryPacket

/-! ### An extension of one byte -/

structure ByteOption where
  value : UInt8
  deriving DecidableEq

namespace ByteOption

def encode (optionData : ByteOption) : List UInt8 := [optionData.value]

instance : QueryOptionData ByteOption where
  getOptionId _ := 7
  getOptionDataLength _ := 1
  writeData optionData linkBuffer :=
    match linkBuffer.getWriteBuffer with
    | none => (false, linkBuffer)
    | some _ => (true, linkBuffer.append [optionData.value])
  readData _ linkBuffer :=
    match linkBuffer.getReadBuffer with
    | some (value :: _) => .ok (⟨value⟩, linkBuffer.addReadBytes 1)
    | _ => .error .failed
  getQueryOptionExt optionId := if optionId = 7 then some ⟨0⟩ else none

theorem roundTrips (optionData : ByteOption) : RoundTrips optionData optionData.encode where
  id_ne := show 7 ≠ 0 by decide
  id_lt := show 7 < 2 ^ 32 by decide
  length := rfl
  writes b hb hroom := by
    have hpos : 0 < b.writeRemaining := hroom
    simp only [QueryOptionData.writeData, getWriteBuffer_of_pos hpos]
    exact ⟨trivial, hb.wrote_append [optionData.value] hroom⟩
  reads := by
    refine ⟨⟨0⟩, rfl, fun b rest hb hun => ?_⟩
    have hne : b.unread ≠ [] := by simp [hun, encode]
    obtain ⟨hread, hleft⟩ := hb.read_addReadBytes hun (n := 1) rfl
    refine ⟨b.addReadBytes 1, ?_, hread.readable, hleft⟩
    simp only [QueryOptionData.readData, hb.getReadBuffer hne, hun, encode, List.cons_append]

end ByteOption

namespace QueryPacket

/-- A reply with two resources, one of them with two locators and an option. -/
def twoResources : QueryPacket Empty ByteOption :=
  { (fresh .queryReply : QueryPacket Empty ByteOption) with
    queryId := 5, replySetSize := 2, priority := 200
    resourceList := some
      [⟨1, 1000, [⟨[97], by decide⟩, ⟨[98, 99], by decide⟩], ⟨[100], by decide⟩, some ⟨42⟩⟩,
        ⟨2, 2000, [], .empty, none⟩] }

def manyHits : QueryPacket Empty ByteOption :=
  { (fresh .queryOffer : QueryPacket Empty ByteOption) with
    queryId := 5, numHits := 10001, uploadSlots := 0 }

theorem twoResources_fitsWire : twoResources.FitsWire ByteOption.encode (ofSize 1000) where
  type := by decide
  parent := rfl
  queryId := by decide
  optionId := by decide
  numHits := by decide
  offset := by decide
  uploadSlots := by decide
  replySetSize := by decide
  queryString := by decide
  option h := absurd rfl h
  resources _ := by
    refine ⟨_, rfl, by decide, by decide, rfl, ?_⟩
    intro desc hdesc
    obtain rfl | rfl : desc = _ ∨ desc = _ := by simpa using hdesc
    · exact ⟨by decide, by decide, by decide, by decide, by decide,
        fun optionData _ => optionData.roundTrips⟩
    · exact ⟨by decide, by decide, by decide, by decide, by decide,
        fun optionData _ => optionData.roundTrips⟩
  writable := writable_ofSize _ (by decide)
  room := by decide

theorem manyHits_fitsWire : manyHits.FitsWire ByteOption.encode (ofSize 100) where
  type := by decide
  parent := rfl
  queryId := by decide
  optionId := by decide
  numHits := by decide
  offset := by decide
  uploadSlots := by decide
  replySetSize := by decide
  queryString := by decide
  option _ := .inl rfl
  resources h := absurd h (by decide)
  writable := writable_ofSize _ (by decide)
  room := by decide

theorem twoResources_restores : twoResources.Restores ByteOption.encode (ofSize 1000) :=
  twoResources_fitsWire.restores

/-- The packet fits and is written, but the reader takes no offer of so many hits. -/
theorem manyHits_not_roundTrip :
    manyHits.FitsWire ByteOption.encode (ofSize 100) ∧ ¬ manyHits.RoundTrip (ofSize 100) := by
  refine ⟨manyHits_fitsWire, fun h => ?_⟩
  obtain ⟨b', hread, -⟩ := manyHits_fitsWire.roundTrip_iff.mp h
  have hrefused := manyHits_fitsWire.offer_refused rfl (by decide)
  cases hread.symm.trans hrefused

end QueryPacket

end Alpine
