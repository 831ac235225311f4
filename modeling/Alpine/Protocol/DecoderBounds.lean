import Alpine.Protocol.PeerPacketRoundTrip

/-!
# What the packet decoders read

Every load of the decoders is preceded by a check that it fits, with one exception: `readData` of a
query packet loads the query id before the type is looked at, and for a packet without a type no
least length is asked (`readData_bounded_iff`). The loops over the lists take bytes off the buffer
in each pass, so they end (`Consumes.readUntil_fuel`).

Extensions are asked to stay within the buffer themselves (`ExtensionsWithin`).
-/

namespace Alpine

open Lib DataBuffer

/-- The extensions read no byte past the end. -/
def ExtensionsWithin (δ : Type) [QueryOptionData δ] : Prop :=
  ∀ optionId (created : δ), QueryOptionData.getQueryOptionExt optionId = some created →
    ∀ b : DataBuffer, b.InRange → Within 0 b (QueryOptionData.readData created b)

section

variable {δ : Type} [QueryOptionData δ] {n : Nat} {b : DataBuffer}

theorem ExtensionsWithin.readExtension (hext : ExtensionsWithin δ) (optionId : Nat)
    (hb : b.InRange) : Within 0 b (readExtension optionId b : Except ReadError (δ × DataBuffer)) := by
  unfold Alpine.readExtension
  split
  · exact within_failed 0 b
  · next created hcreated => exact hext optionId created hcreated b hb

theorem ExtensionsWithin.readOptionBlock (hext : ExtensionsWithin δ) (optionId : Nat)
    (optionData : Option δ) (hb : b.InRange) : Within 0 b (readOptionBlock optionId optionData b) := by
  unfold Alpine.readOptionBlock
  split
  · exact within_ok (.refl b)
  · exact (hext.readExtension optionId hb).bind fun _ b' _ => within_ok (.refl b')

/-! ## Strings -/

theorem ofBytes_size_lt {curr : List UInt8} (h : (0 : UInt8) ∈ curr) :
    (CString.ofBytes curr).size < curr.length := by
  have hle := (List.takeWhile_prefix (fun byte : UInt8 => byte != 0) (l := curr)).length_le
  refine Nat.lt_of_le_of_ne hle ?_
  intro heq
  have hall : curr.takeWhile (· != 0) = curr :=
    (List.takeWhile_prefix _).eq_of_length heq
  have hnot := List.mem_takeWhile_imp (hall.symm ▸ h : (0 : UInt8) ∈ curr.takeWhile (· != 0))
  simp at hnot

/-- The search for the terminator stays in the buffer, since `curr` has what is left of it. -/
theorem within_getString {α : Type} {bufferSize readLength : Nat} {curr : List UInt8}
    (hlen : readLength + curr.length = bufferSize)
    {k : CString × Nat × List UInt8 → Except ReadError (α × DataBuffer)}
    (hk : ∀ s readLength' curr', readLength' + curr'.length = bufferSize →
      readLength ≤ readLength' → Within n b (k (s, readLength', curr'))) :
    Within n b (getString bufferSize readLength curr >>= k) := by
  have hscan : scansPast curr (bufferSize - readLength) = false := by
    unfold scansPast
    rw [Bool.and_eq_false_iff, decide_eq_false_iff_not]
    exact .inl (by omega)
  unfold getString
  split
  · exact within_failed n b
  rw [hscan]
  split
  · next htrue => cases htrue
  split
  · exact within_failed n b
  next hverify =>
  rw [Bool.not_eq_false] at hverify
  unfold verifyStringData at hverify
  obtain ⟨byte, hmem, hzero⟩ := List.any_eq_true.mp hverify
  have hsize : (CString.ofBytes curr).size < curr.length := by
    refine ofBytes_size_lt ?_
    rw [beq_iff_eq] at hzero
    exact hzero ▸ List.mem_of_mem_take hmem
  refine hk _ _ _ ?_ ?_
  · rw [List.length_drop]
    omega
  · omega

theorem within_readLocators {α : Type} {bufferSize expected readLength : Nat} {curr : List UInt8}
    (hlen : readLength + curr.length = bufferSize)
    {k : List CString × Nat × List UInt8 → Except ReadError (α × DataBuffer)}
    (hk : ∀ locatorList readLength' curr', readLength' + curr'.length = bufferSize →
      readLength ≤ readLength' → Within n b (k (locatorList, readLength', curr'))) :
    Within n b (ResourceDesc.readLocators bufferSize expected readLength curr >>= k) := by
  induction expected generalizing readLength curr k with
  | zero => exact hk _ _ _ hlen (Nat.le_refl _)
  | succ expected ih =>
    rw [ResourceDesc.readLocators, bind_assoc]
    refine within_getString hlen ?_
    intro s readLength' curr' hlen' hle
    dsimp only
    rw [bind_assoc]
    refine ih hlen' ?_
    intro locatorList readLength'' curr'' hlen'' hle'
    exact hk _ _ _ hlen'' (Nat.le_trans hle hle')

theorem within_getShortByNtohl {α : Type} {curr : List UInt8} (hfit : sizeofShort ≤ curr.length)
    {k : Nat × List UInt8 → Except ReadError (α × DataBuffer)}
    (hk : ∀ v, Within n b (k (v, curr.drop sizeofShort))) :
    Within n b (getShortByNtohl curr >>= k) := by
  unfold getShortByNtohl
  rw [bind_assoc]
  exact within_load hfit fun v => hk (ntohlShort v)

/-! ## Entries of lists -/

theorem consumes_location (hext : ExtensionsWithin δ) :
    Consumes (PeerLocation.readOne : Reader (PeerLocation δ)) := by
  intro b hb
  unfold PeerLocation.readOne
  split
  · exact within_failed 1 b
  next buffer hbuffer =>
  obtain ⟨hlen, -⟩ := hb.getReadBuffer hbuffer
  dsimp only
  split
  · exact within_failed 1 b
  refine within_getLong (by omega) ?_
  intro ipAddress
  dsimp only
  split
  · exact within_failed 1 b
  refine within_getShort (by rw [List.length_drop]; omega) ?_
  intro port
  dsimp only
  split
  · exact within_failed 1 b
  refine within_getLong (by rw [List.length_drop, List.length_drop]; omega) ?_
  intro optionId
  dsimp only
  refine Within.of_taken (k := sizeofLong + sizeofShort + sizeofLong) ?_ (by decide) (by omega)
  refine (hext.readOptionBlock optionId none ((advances_addReadBytes b _).inRange hb)).bind ?_
  exact fun _ b' _ => within_ok (.refl b')

theorem consumes_resource (hext : ExtensionsWithin δ) :
    Consumes (ResourceDesc.readOne : Reader (ResourceDesc δ)) := by
  intro b hb
  unfold ResourceDesc.readOne
  split
  · exact within_failed 1 b
  next buffer hbuffer =>
  obtain ⟨hlen, -⟩ := hb.getReadBuffer hbuffer
  dsimp only
  split
  · exact within_failed 1 b
  refine within_getLong (by omega) ?_
  intro matchId
  dsimp only
  split
  · exact within_failed 1 b
  refine within_getLong (by rw [List.length_drop]; omega) ?_
  intro size
  dsimp only
  split
  · exact within_failed 1 b
  refine within_getShort (by rw [List.length_drop, List.length_drop]; omega) ?_
  intro expectedListLength
  dsimp only
  refine within_readLocators (by simp only [List.length_drop]; omega) ?_
  intro locatorList readLength curr hlen' hle
  dsimp only
  refine within_getString hlen' ?_
  intro description readLength' curr' hlen'' hle'
  dsimp only
  split
  · exact within_failed 1 b
  refine within_getLong (by omega) ?_
  intro optionId
  dsimp only
  refine Within.of_taken (k := readLength' + sizeofLong) ?_ (by unfold sizeofLong; omega)
    (by omega)
  split
  · exact within_ok (.refl _)
  · refine (hext.readExtension optionId ((advances_addReadBytes b _).inRange hb)).bind ?_
    exact fun _ b' _ => within_ok (.refl b')

/-- The loop over the resources is the one over entries. -/
theorem readList_eq (size fuel : Nat) (list : List (ResourceDesc δ)) (b : DataBuffer) :
    ResourceDesc.readList size fuel list b = readUntil ResourceDesc.readOne size fuel list b := by
  induction fuel generalizing list b with
  | zero => rfl
  | succ fuel ih =>
    rw [ResourceDesc.readList, readUntil]
    congr
    funext x
    obtain ⟨desc, b'⟩ := x
    dsimp only
    rw [ih]

/-! ## Query packets -/

namespace QueryPacket

variable {π : Type} {p : QueryPacket π δ} {bufferSize readLength : Nat} {curr : List UInt8}

theorem within_readOption (hext : ExtensionsWithin δ) (hb : b.InRange) :
    Within 0 b (p.readOption b) := by
  unfold readOption
  split
  · exact within_ok (.refl b)
  · exact (hext.readExtension p.optionId hb).bind fun _ b' _ => within_ok (.refl b')

/-- The option after the fixed fields. -/
theorem within_readOption_add (hext : ExtensionsWithin δ) (hb : b.InRange) (bytes : Nat) :
    Within 0 b (p.readOption (b.addReadBytes bytes)) :=
  (within_readOption hext ((advances_addReadBytes b bytes).inRange hb)).of_advances
    (advances_addReadBytes b bytes)

theorem within_readDiscover (hext : ExtensionsWithin δ) (hb : b.InRange)
    (hlen : readLength + curr.length = bufferSize) :
    Within 0 b (p.readDiscover bufferSize readLength curr b) := by
  unfold readDiscover
  refine within_getString hlen ?_
  intro queryString readLength' curr' hlen' _
  dsimp only
  split
  · exact within_failed 0 b
  refine within_getLong (by omega) ?_
  exact fun optionId => within_readOption_add hext hb _

theorem within_readOffer (hext : ExtensionsWithin δ) (hb : b.InRange) (hlen : 18 ≤ curr.length) :
    Within 0 b (p.readOffer readLength curr b) := by
  have hlong : sizeofLong = 8 := rfl
  have hshort : sizeofShort = 2 := rfl
  unfold readOffer
  refine within_getLong (by omega) ?_
  intro numHits
  dsimp only
  split
  · exact within_failed 0 b
  refine within_getShortByNtohl (by rw [List.length_drop]; omega) ?_
  intro uploadSlots
  refine within_getLong (by rw [List.length_drop, List.length_drop]; omega) ?_
  exact fun optionId => within_readOption_add hext hb _

theorem within_readRequest (hext : ExtensionsWithin δ) (hb : b.InRange)
    (hlen : readLength + curr.length = bufferSize) (hfixed : 10 ≤ curr.length) :
    Within 0 b (p.readRequest bufferSize readLength curr b) := by
  have hlong : sizeofLong = 8 := rfl
  have hshort : sizeofShort = 2 := rfl
  unfold readRequest
  refine within_getLong (by omega) ?_
  intro offset
  refine within_getShortByNtohl (by rw [List.length_drop]; omega) ?_
  intro replySetSize
  dsimp only
  split
  · exact within_failed 0 b
  refine within_getString (by simp only [List.length_drop]; omega) ?_
  intro queryString readLength' curr' hlen' _
  dsimp only
  split
  · exact within_failed 0 b
  refine within_getLong (by omega) ?_
  exact fun optionId => within_readOption_add hext hb _

theorem within_readReply (hext : ExtensionsWithin δ) (hb : b.InRange) (hlen : 2 ≤ curr.length) :
    Within 0 b (p.readReply readLength curr b) := by
  unfold readReply
  refine within_getShortByNtohl hlen ?_
  intro replySetSize
  dsimp only
  split
  · exact within_failed 0 b
  have hadv := advances_addReadBytes b (readLength + sizeofShort)
  refine Within.of_advances ?_ hadv
  unfold readResourceListData
  rw [readList_eq]
  refine ((consumes_resource hext).within_readUntil (hadv.inRange hb)).bind ?_
  exact fun _ b' _ => within_ok (.refl b')

omit [QueryOptionData δ] in
theorem advances_readPriority (p : QueryPacket π δ) (b : DataBuffer) :
    b.Advances (p.readPriority b).2 := by
  unfold readPriority
  split
  · exact advances_addReadBytes b 1
  · exact .refl b

/-- What follows the query id stays in the buffer, whatever the type. -/
theorem within_readBody (hext : ExtensionsWithin δ) (hb : b.InRange)
    (hlen : sizeofLong + curr.length = bufferSize) (hmin : minimumLength p.packetType ≤ bufferSize) :
    Within 0 b (p.readBody bufferSize curr b) := by
  have hlong : sizeofLong = 8 := rfl
  have hshort : sizeofShort = 2 := rfl
  unfold readBody
  unfold minimumLength at hmin
  split
  · exact within_ok (.refl b)
  · exact within_readDiscover hext hb hlen
  · next hty =>
    rw [hty] at hmin
    dsimp only at hmin
    exact within_readOffer hext hb (by omega)
  · next hty =>
    rw [hty] at hmin
    dsimp only at hmin
    exact within_readRequest hext hb hlen (by omega)
  · next hty =>
    rw [hty] at hmin
    dsimp only at hmin
    exact within_readReply hext hb (by omega)

theorem within_readData (hext : ExtensionsWithin δ) (hb : b.InRange)
    (hid : p.packetType = .none → b.readRemaining = 0 ∨ sizeofLong ≤ b.readRemaining) :
    Within 0 b (p.readData b) := by
  unfold readData
  split
  · exact within_failed 0 b
  next buffer hbuffer =>
  obtain ⟨hlen, hpos⟩ := hb.getReadBuffer hbuffer
  dsimp only
  split
  · exact within_failed 0 b
  next hmin =>
  have hfit : sizeofLong ≤ buffer.length := by
    cases hty : p.packetType with
    | none =>
      obtain hzero | hle := hid hty
      · omega
      · omega
    | _ =>
      rw [hty] at hmin
      simp only [minimumLength, sizeofLong] at hmin ⊢
      omega
  refine within_getLong hfit ?_
  intro queryId
  have hrest : sizeofLong + (buffer.drop sizeofLong).length = buffer.length := by
    rw [List.length_drop]
    omega
  have hbody := within_readBody (p := { p with queryId }) hext hb hrest (Nat.le_of_not_lt hmin)
  exact hbody.bind fun p' b' _ => within_ok (advances_readPriority p' b')

/-- Less than a query id is loaded as one. -/
theorem readData_overRead (hb : b.InRange) (hty : p.packetType = .none)
    (hpos : 0 < b.readRemaining) (hlt : b.readRemaining < sizeofLong) :
    p.readData b = .error .overRead := by
  unfold readData
  split
  · next hnone =>
    unfold getReadBuffer at hnone
    rw [if_neg (by omega)] at hnone
    cases hnone
  next buffer hbuffer =>
  obtain ⟨hlen, -⟩ := hb.getReadBuffer hbuffer
  have hmin : ¬ buffer.length < minimumLength p.packetType := by
    rw [hty]
    exact Nat.not_lt_zero _
  have hload : getLong buffer = .error .overRead := by
    unfold getLong load
    rw [if_pos (by omega)]
    rfl
  dsimp only
  rw [if_neg hmin, hload]
  rfl

end QueryPacket

/-! ## Peer and proxy packets -/

theorem PeerPacket.within_readData {π : Type} (hext : ExtensionsWithin δ) (hb : b.InRange)
    (p : PeerPacket π δ) : Within 0 b (p.readData b) := by
  have hlong : sizeofLong = 8 := rfl
  have hshort : sizeofShort = 2 := rfl
  have hadd : ∀ bytes, (b.addReadBytes bytes).InRange := fun bytes =>
    (advances_addReadBytes b bytes).inRange hb
  unfold readData
  split
  · exact within_failed 0 b
  next buffer hbuffer =>
  dsimp only
  split
  · exact within_failed 0 b
  next hmin =>
  unfold minimumLength at hmin
  split
  · exact within_ok (.refl b)
  · next hty =>
    rw [hty] at hmin
    dsimp only at hmin
    unfold readRequest
    refine within_getLong (by omega) ?_
    intro optionId
    refine Within.bind ((hext.readOptionBlock optionId p.optionData (hadd _)).of_advances
      (advances_addReadBytes b _)) ?_
    exact fun _ b' _ => within_ok (.refl b')
  · next hty =>
    rw [hty] at hmin
    dsimp only at hmin
    unfold readOffer
    refine within_getLong (by omega) ?_
    intro numPeersAvailable
    refine within_getLong (by rw [List.length_drop]; omega) ?_
    intro offerId
    refine within_getLong (by rw [List.length_drop, List.length_drop]; omega) ?_
    intro optionId
    refine Within.bind ((hext.readOptionBlock optionId p.optionData (hadd _)).of_advances
      (advances_addReadBytes b _)) ?_
    exact fun _ b' _ => within_ok (.refl b')
  · next hty =>
    rw [hty] at hmin
    dsimp only at hmin
    unfold readGet
    refine within_getLong (by omega) ?_
    intro offerId
    refine within_getLong (by rw [List.length_drop]; omega) ?_
    intro offset
    refine within_getShort (by rw [List.length_drop, List.length_drop]; omega) ?_
    exact fun setSize => within_ok (advances_addReadBytes b _)
  · next hty =>
    rw [hty] at hmin
    dsimp only at hmin
    unfold readList
    refine within_getLong (by omega) ?_
    intro offerId
    refine within_getShort (by rw [List.length_drop]; omega) ?_
    intro setSize
    dsimp only
    split
    · exact within_failed 0 b
    refine Within.of_advances ?_ (advances_addReadBytes b (sizeofLong + sizeofShort))
    unfold readPeerListData PeerLocation.readList
    refine ((consumes_location hext).within_readUntil (hadd _)).bind ?_
    exact fun _ b' _ => within_ok (.refl b')

theorem ProxyPacket.within_readData {π : Type} (hext : ExtensionsWithin δ) (hb : b.InRange)
    (p : ProxyPacket π δ) : Within 0 b (p.readData b) := by
  unfold readData
  split
  · exact within_ok (.refl b)
  split
  · exact within_failed 0 b
  next buffer hbuffer =>
  dsimp only
  split
  · exact within_failed 0 b
  refine within_getLong (by omega) ?_
  intro optionId
  refine Within.bind ((hext.readOptionBlock optionId p.optionData
    ((advances_addReadBytes b _).inRange hb)).of_advances (advances_addReadBytes b _)) ?_
  exact fun _ b' _ => within_ok (.refl b')

end

/-! ## Datagrams -/

/-- A decoder that was given the datagram loads no byte past it and consumes no more than it has. -/
structure ReadsDatagram {α : Type} (data : List UInt8) (r : Except ReadError (α × DataBuffer)) :
    Prop where
  bounded : r ≠ .error .overRead
  consumed : ∀ a b', r = .ok (a, b') → b'.buffer = data ∧ b'.readOffset ≤ data.length

theorem Within.readsDatagram {α : Type} {data : List UInt8}
    {r : Except ReadError (α × DataBuffer)} (h : Within 0 (ofData data) r) : ReadsDatagram data r := by
  refine ⟨h.bounded, ?_⟩
  intro a b' heq
  have hadv := h.advances a b' heq
  have hend : b'.readOffset + b'.readRemaining = 0 + data.length := hadv.dataEnd
  exact ⟨hadv.buffer, by omega⟩

/-- With more fuel than there are bytes, the loop ends by itself. -/
def LoopEnds {α : Type} (loop : Nat → Reader α) : Prop :=
  ∀ (b : DataBuffer) fuel fuel', b.InRange → b.readRemaining < fuel → b.readRemaining < fuel' →
    loop fuel b = loop fuel' b

/-- The decoders read within the datagram, but for a query packet without a type and a datagram
that is shorter than a query id. -/
theorem readData_bounded_iff {π δ δ' δ'' : Type} [QueryOptionData δ] [PeerOptionData δ']
    [ProxyOptionData δ''] (hquery : ExtensionsWithin δ) (hpeer : ExtensionsWithin δ')
    (hproxy : ExtensionsWithin δ'') (data : List UInt8) :
    (∀ p : QueryPacket π δ, ReadsDatagram data (p.readData (ofData data)) ↔
      ¬ (p.packetType = .none ∧ 0 < data.length ∧ data.length < sizeofLong)) ∧
    (∀ p : PeerPacket π δ', ReadsDatagram data (p.readData (ofData data))) ∧
    (∀ p : ProxyPacket π δ'', ReadsDatagram data (p.readData (ofData data))) ∧
    (∀ size, LoopEnds fun fuel =>
      (ResourceDesc.readList size fuel [] : Reader (List (ResourceDesc δ)))) ∧
    ∀ size, LoopEnds (PeerLocation.readList size : Nat → Reader (List (PeerLocation δ'))) := by
  have hdata := inRange_ofData data
  refine ⟨?_, ?_, ?_, ?_, ?_⟩
  · intro p
    constructor
    · rintro hreads ⟨hty, hpos, hlt⟩
      exact hreads.bounded (QueryPacket.readData_overRead hdata hty hpos hlt)
    · intro hnot
      refine (QueryPacket.within_readData hquery hdata ?_).readsDatagram
      intro hty
      by_contra hshort
      rw [not_or] at hshort
      have hlen : (ofData data).readRemaining = data.length := rfl
      exact hnot ⟨hty, by omega, by omega⟩
  · exact fun p => (p.within_readData hpeer hdata).readsDatagram
  · exact fun p => (p.within_readData hproxy hdata).readsDatagram
  · intro size b fuel fuel' hb hfuel hfuel'
    dsimp only
    rw [readList_eq, readList_eq]
    exact (consumes_resource hquery).readUntil_fuel hb hfuel hfuel'
  · intro size b fuel fuel' hb hfuel hfuel'
    exact (consumes_location hpeer).readUntil_fuel hb hfuel hfuel'

theorem ByteOption.extensionsWithin : ExtensionsWithin ByteOption := by
  intro optionId created _ b _
  simp only [QueryOptionData.readData]
  split
  · exact within_ok (advances_addReadBytes b 1)
  · exact within_failed 0 b

/-- Three bytes are read as a query offer is, and as no query at all. -/
theorem threeBytes_bounded :
    ReadsDatagram [0, 0, 0]
      ((QueryPacket.fresh .queryOffer : QueryPacket Empty ByteOption).readData
        (ofData [0, 0, 0])) := by
  have hext := ByteOption.extensionsWithin
  obtain ⟨hquery, -⟩ := readData_bounded_iff (π := Empty) hext hext hext [0, 0, 0]
  exact (hquery _).mpr (by decide)

theorem threeBytes_not_bounded :
    ¬ ReadsDatagram [0, 0, 0]
      ((QueryPacket.fresh .none : QueryPacket Empty ByteOption).readData (ofData [0, 0, 0])) := by
  intro hreads
  exact hreads.bounded (QueryPacket.readData_overRead (inRange_ofData _) rfl (by decide) (by decide))

end Alpine
