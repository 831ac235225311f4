import Alpine.Protocol.PeerPacket
import Alpine.Protocol.QueryPacketRoundTrip

/-!
# What peer and proxy packets bring to the other side

A peer packet that carries no list is restored from what `writeData` put into the buffer. A
`peerListData` packet is written right, but one that has no list fails to read it. A proxy packet
accounts for the bytes of its option twice (`FitsWire.wrote_twice`), so it is restored only where
the option has none (`roundTrip_iff`).
-/

namespace Alpine

open Lib DataBuffer

variable {δ : Type} [QueryOptionData δ] {encode : δ → List UInt8}

/-! ## Option blocks -/

/-- The bytes of an extension block. -/
def optionBlock (encode : δ → List UInt8) (optionId : Nat) (optionData : Option δ) : List UInt8 :=
  match optionData with
  | none => []
  | some optionData => if optionId ≠ 0 then encode optionData else []

/-- There is no option, or one whose extension round-trips. -/
def OptionBlockFits (encode : δ → List UInt8) (optionId : Nat) (optionData : Option δ) : Prop :=
  optionId = 0 ∨ ∃ data, optionData = some data ∧ QueryOptionData.getOptionId data = optionId ∧
    RoundTrips data (encode data)

/-- The option that goes with the option id. -/
def carriedBlock (optionId : Nat) (optionData : Option δ) : Option δ :=
  if optionId = 0 then none else optionData

section Options

variable {optionId : Nat} {optionData : Option δ}

theorem OptionBlockFits.length (h : OptionBlockFits encode optionId optionData) :
    optionBlockLength optionId optionData = (optionBlock encode optionId optionData).length := by
  unfold optionBlockLength optionBlock
  obtain rfl | ⟨data, rfl, hid, hr⟩ := h
  · cases optionData <;> rfl
  · have hne : optionId ≠ 0 := hid ▸ hr.id_ne
    simp only [ne_eq, hne, not_false_eq_true, if_true]
    exact hr.length

theorem OptionBlockFits.wrote (h : OptionBlockFits encode optionId optionData) {b : DataBuffer}
    (hb : Writable b) (hroom : (optionBlock encode optionId optionData).length ≤ b.writeRemaining) :
    (writeOptionBlock optionId optionData b).1 = true ∧
      Wrote b (optionBlock encode optionId optionData)
        (writeOptionBlock optionId optionData b).2 := by
  unfold writeOptionBlock optionBlock
  unfold optionBlock at hroom
  obtain rfl | ⟨data, rfl, hid, hr⟩ := h
  · cases optionData <;> exact ⟨rfl, hb.wrote_nil⟩
  · have hne : optionId ≠ 0 := hid ▸ hr.id_ne
    simp only [ne_eq, hne, not_false_eq_true, if_true] at hroom ⊢
    exact hr.writes b hb hroom

/-- A packet without an option takes the option back, or stays without one. -/
theorem OptionBlockFits.read (h : OptionBlockFits encode optionId optionData) {b : DataBuffer}
    (hb : Readable b) {t : List UInt8}
    (hun : b.unread = optionBlock encode optionId optionData ++ t) :
    ∃ b', readOptionBlock optionId none b = .ok (carriedBlock optionId optionData, b') ∧
      Readable b' ∧ b'.unread = t := by
  unfold readOptionBlock carriedBlock
  obtain rfl | ⟨data, rfl, hid, hr⟩ := h
  · have hrest : b.unread = t := by
      rw [hun]
      cases optionData <;> rfl
    exact ⟨b, by simp only [if_true], hb, hrest⟩
  · have hne : optionId ≠ 0 := hid ▸ hr.id_ne
    have hbytes : b.unread = encode data ++ t := by
      rw [hun]
      simp only [optionBlock, ne_eq, hne, not_false_eq_true, if_true]
    obtain ⟨b', hread, hb', hleft⟩ := hr.readExtension hb hbytes
    refine ⟨b', ?_, hb', hleft⟩
    rw [if_neg hne, if_neg hne, ← hid, hread]
    rfl

end Options

/-! ## Locations -/

namespace PeerLocation

def wire (encode : δ → List UInt8) (location : PeerLocation δ) : List UInt8 :=
  location.fields ++ optionBlock encode location.optionId location.optionData

structure FitsWire (encode : δ → List UInt8) (location : PeerLocation δ) : Prop where
  ipAddress : location.ipAddress < 2 ^ 32
  port : location.port < 2 ^ 16
  option : ∀ optionData, location.optionData = some optionData →
    RoundTrips optionData (encode optionData)

theorem FitsWire.optionFits {location : PeerLocation δ} (h : location.FitsWire encode) :
    OptionBlockFits encode location.optionId location.optionData := by
  unfold optionId
  cases hd : location.optionData with
  | none => exact .inl rfl
  | some optionData => exact .inr ⟨optionData, rfl, rfl, h.option optionData hd⟩

theorem length_fields (location : PeerLocation δ) : location.fields.length = 18 := by
  simp [fields]

theorem FitsWire.dataSize_eq {location : PeerLocation δ} (h : location.FitsWire encode) :
    location.dataSize = (location.wire encode).length := by
  rw [dataSize, wire, List.length_append, length_fields, h.optionFits.length]
  rfl

/-- The loop writes the locations one after another. -/
theorem wrote_list {list : List (PeerLocation δ)} (h : ∀ l ∈ list, l.FitsWire encode)
    {b : DataBuffer} (hb : Writable b)
    (hroom : (list.flatMap (wire encode)).length ≤ b.writeRemaining) :
    (writeList list b).1 = true ∧ Wrote b (list.flatMap (wire encode)) (writeList list b).2 := by
  induction list generalizing b with
  | nil => exact ⟨rfl, hb.wrote_nil⟩
  | cons location list ih =>
    rw [List.flatMap_cons, List.length_append] at hroom
    have hlen : (location.wire encode).length = location.fields.length +
        (optionBlock encode location.optionId location.optionData).length := List.length_append
    have hfields := location.length_fields
    have hwrote : Wrote b location.fields (b.append location.fields) :=
      hb.wrote_append _ (by omega)
    have hleft := hwrote.room
    obtain ⟨hstatus, hoption⟩ :=
      (h location List.mem_cons_self).optionFits.wrote hwrote.writable (by omega)
    have hleft' := hoption.room
    obtain ⟨hrest, hwroteRest⟩ := ih (fun l hl => h l (List.mem_cons_of_mem _ hl)) hoption.writable
      (by omega)
    rw [writeList, getWriteBuffer_of_pos (by omega)]
    simp only [hstatus, Bool.true_eq_false, if_false]
    exact ⟨hrest, (hwrote.trans hoption).trans hwroteRest⟩

end PeerLocation

/-! ## Peer packets -/

namespace PeerPacket

variable {π : Type}

/-- The bytes after the fixed fields. -/
def restWire (encode : δ → List UInt8) (p : PeerPacket π δ) : List UInt8 :=
  match p.packetType with
  | .none | .peerListGet => []
  | .peerListRequest | .peerListOffer => optionBlock encode p.optionId p.optionData
  | .peerListData => (p.peerLocationList.getD []).flatMap (PeerLocation.wire encode)

def wire (encode : δ → List UInt8) (p : PeerPacket π δ) : List UInt8 :=
  p.fixedFields ++ p.restWire encode

/-- The fields of the packet fit the wire, and the buffer has room for them. -/
structure FitsWire (encode : δ → List UInt8) (p : PeerPacket π δ) (b : DataBuffer) : Prop where
  type : p.packetType ≠ .none
  parent : p.parent = none
  optionId : p.optionId < 2 ^ 32
  numPeersAvailable : p.numPeersAvailable < 2 ^ 32
  offerId : p.offerId < 2 ^ 32
  offset : p.offset < 2 ^ 32
  setSize : p.setSize < 2 ^ 16
  option : p.packetType = .peerListRequest ∨ p.packetType = .peerListOffer →
    OptionBlockFits encode p.optionId p.optionData
  locations : ∀ list, p.peerLocationList = some list → ∀ location ∈ list, location.FitsWire encode
  writable : Writable b
  room : (p.wire encode).length ≤ b.writeRemaining

/-- The packet has locations, as many as it says, if its type carries them. -/
def HasList (p : PeerPacket π δ) : Prop :=
  p.packetType = .peerListData →
    ∃ list, p.peerLocationList = some list ∧ list ≠ [] ∧ list.length = p.setSize

/-- What the packet's type carries, in a packet as constructed. -/
def carried (p : PeerPacket π δ) : PeerPacket π δ :=
  let q : PeerPacket π δ := fresh p.packetType
  match p.packetType with
  | .none => q
  | .peerListRequest =>
    { q with optionId := p.optionId, optionData := carriedBlock p.optionId p.optionData }
  | .peerListOffer =>
    { q with
      numPeersAvailable := p.numPeersAvailable, offerId := p.offerId
      optionId := p.optionId, optionData := carriedBlock p.optionId p.optionData }
  | .peerListGet => { q with offerId := p.offerId, offset := p.offset, setSize := p.setSize }
  | .peerListData =>
    { q with
      offerId := p.offerId, setSize := p.setSize, peerLocationList := p.peerLocationList }

/-- A fresh packet of the type reads `q` from these bytes, all of them. -/
def ReadsBack (data : List UInt8) (q : PeerPacket π δ) : Prop :=
  ∃ b', (fresh q.packetType : PeerPacket π δ).readData (ofData data) = .ok (q, b') ∧ b'.unread = []

/-- The packet is written as it is encoded, and read back as it was. -/
structure RoundTrip [StackLinkInterface π] (encode : δ → List UInt8) (p : PeerPacket π δ)
    (b : DataBuffer) : Prop where
  status : (p.writeData b).1 = true
  wrote : Wrote b (p.wire encode) (p.writeData b).2
  back : ReadsBack (p.wire encode) p.carried

variable {p : PeerPacket π δ} {b : DataBuffer}

/-! ### Writing -/

theorem FitsWire.writeLength (h : p.FitsWire encode b) (hhas : p.HasList) :
    p.writeLength = (p.wire encode).length := by
  unfold PeerPacket.writeLength wire fixedFields restWire
  cases hty : p.packetType with
  | none => rfl
  | peerListGet =>
    simp only [List.length_append, length_putLong, length_putShort, List.length_nil, sizeofLong,
      sizeofShort]
  | peerListRequest | peerListOffer =>
    have hoption := (h.option (by simp [hty])).length
    simp only [hoption, List.length_append, length_putLong, sizeofLong]
  | peerListData =>
    obtain ⟨list, hlist, -, -⟩ := hhas hty
    have hfits := h.locations list hlist
    have hsum : list.map PeerLocation.dataSize =
        list.map fun location => (location.wire encode).length :=
      List.map_congr_left fun location hmem => (hfits location hmem).dataSize_eq
    simp only [calculatePeerListSize, hlist, hsum, Option.getD_some, List.length_append,
      length_putLong, length_putShort, List.length_flatMap, sizeofLong, sizeofShort]
    omega

theorem FitsWire.wroteRest (h : p.FitsWire encode b) (hhas : p.HasList) {c : DataBuffer}
    (hc : Writable c) (hroom : (p.restWire encode).length ≤ c.writeRemaining) :
    (p.writeRest c).1 = true ∧ Wrote c (p.restWire encode) (p.writeRest c).2 := by
  unfold writeRest restWire
  unfold restWire at hroom
  cases hty : p.packetType with
  | none => exact absurd hty h.type
  | peerListGet => exact ⟨rfl, hc.wrote_nil⟩
  | peerListRequest | peerListOffer =>
    rw [hty] at hroom
    exact (h.option (by simp [hty])).wrote hc hroom
  | peerListData =>
    obtain ⟨list, hlist, hne, -⟩ := hhas hty
    have hfits := h.locations list hlist
    rw [hty, hlist] at hroom
    dsimp only
    rw [writePeerListData, hlist]
    cases list with
    | nil => exact absurd rfl hne
    | cons location list => exact PeerLocation.wrote_list hfits hc hroom

omit [QueryOptionData δ] in
theorem fixedFields_pos (hty : p.packetType ≠ .none) : 0 < p.fixedFields.length := by
  unfold fixedFields
  cases ht : p.packetType with
  | none => exact absurd ht hty
  | _ => simp

/-- Every packet is written right, with a list or without one. -/
theorem FitsWire.wrote [StackLinkInterface π] (h : p.FitsWire encode b) (hhas : p.HasList) :
    (p.writeData b).1 = true ∧ Wrote b (p.wire encode) (p.writeData b).2 := by
  have hroom := h.room
  have hlength := h.writeLength hhas
  have hpos := fixedFields_pos h.type
  have hsplit : (p.wire encode).length = p.fixedFields.length + (p.restWire encode).length :=
    List.length_append
  have hfit : ¬ b.writeRemaining < uint p.writeLength := by
    have : uint p.writeLength ≤ p.writeLength := Nat.mod_le _ _
    omega
  have hlist : ¬ (p.packetType = .peerListData ∧ p.peerLocationList.isNone) := by
    rintro ⟨hty, hnone⟩
    obtain ⟨list, hlist, -⟩ := hhas hty
    simp [hlist] at hnone
  have hfixed : Wrote b p.fixedFields (b.append p.fixedFields) :=
    h.writable.wrote_append _ (by omega)
  have hleft := hfixed.room
  obtain ⟨hstatus, hrest⟩ := h.wroteRest hhas hfixed.writable (by omega)
  unfold writeData
  rw [getWriteBuffer_of_pos (by omega : 0 < b.writeRemaining)]
  simp only [hlist, hfit, if_false, hstatus, Bool.true_eq_false, h.parent]
  exact ⟨trivial, hfixed.trans hrest⟩

/-! ### Reading -/

theorem FitsWire.readable (h : p.FitsWire encode b) : Readable (ofData (p.wire encode)) := by
  have hroom := h.room
  have hend := h.writable.room
  have hfits := h.writable.fits
  exact readable_ofData _ (by omega)

/-- What a packet reads when the bytes of another of its type are there. -/
theorem readData_eq {q : PeerPacket π δ} (hb : Readable b) {rest : List UInt8}
    (hun : b.unread = p.fixedFields ++ rest) (hty : p.packetType ≠ .none)
    (hq : q.packetType = p.packetType) :
    q.readData b =
      match p.packetType with
      | .none => .ok (q, b)
      | .peerListRequest => q.readRequest b.unread b
      | .peerListOffer => q.readOffer b.unread b
      | .peerListGet => q.readGet b.unread b
      | .peerListData => q.readList b.unread b := by
  have hpos := fixedFields_pos hty
  have hlen : b.unread.length = p.fixedFields.length + rest.length := by
    rw [hun, List.length_append]
  have hne : b.unread ≠ [] := by
    intro hnil
    rw [hnil, List.length_nil] at hlen
    omega
  have hmin : ¬ b.unread.length < minimumLength q.packetType := by
    rw [hlen, hq]
    unfold fixedFields minimumLength
    cases p.packetType <;>
      simp only [List.length_append, length_putLong, length_putShort, sizeofLong, sizeofShort] <;>
      omega
  unfold readData
  rw [hb.getReadBuffer hne]
  dsimp only
  rewrite [if_neg hmin, hq]
  rfl

variable {t : List UInt8} {q : PeerPacket π δ}

theorem readRequest_wire (hid : p.optionId < 2 ^ 32)
    (hoption : OptionBlockFits encode p.optionId p.optionData) (hnone : q.optionData = none)
    (hb : Readable b) (hun : b.unread =
      putLong p.optionId ++ (optionBlock encode p.optionId p.optionData ++ t)) :
    ∃ b', q.readRequest b.unread b = .ok ({ q with
        optionId := p.optionId, optionData := carriedBlock p.optionId p.optionData }, b') ∧
      Readable b' ∧ b'.unread = t := by
  obtain ⟨hread, hleft⟩ := hb.read_addReadBytes hun (n := sizeofLong) (by simp [sizeofLong])
  obtain ⟨b', hblock, hb', hrest⟩ := hoption.read hread.readable hleft
  refine ⟨b', ?_, hb', hrest⟩
  unfold readRequest
  rw [hun, hnone]
  simp only [getLong_putLong_of_lt hid, bind, Except.bind, hblock, pure, Except.pure]

theorem readOffer_wire (hnum : p.numPeersAvailable < 2 ^ 32) (hoffer : p.offerId < 2 ^ 32)
    (hid : p.optionId < 2 ^ 32) (hoption : OptionBlockFits encode p.optionId p.optionData)
    (hnone : q.optionData = none) (hb : Readable b)
    (hun : b.unread = putLong p.numPeersAvailable ++ (putLong p.offerId ++ (putLong p.optionId ++
      (optionBlock encode p.optionId p.optionData ++ t)))) :
    ∃ b', q.readOffer b.unread b = .ok ({ q with
        numPeersAvailable := p.numPeersAvailable, offerId := p.offerId
        optionId := p.optionId, optionData := carriedBlock p.optionId p.optionData }, b') ∧
      Readable b' ∧ b'.unread = t := by
  have hfixed : b.unread = (putLong p.numPeersAvailable ++ (putLong p.offerId ++
      putLong p.optionId)) ++ (optionBlock encode p.optionId p.optionData ++ t) := by
    rw [hun]
    simp only [List.append_assoc]
  obtain ⟨hread, hleft⟩ := hb.read_addReadBytes hfixed
    (n := sizeofLong + sizeofLong + sizeofLong) (by simp [sizeofLong])
  obtain ⟨b', hblock, hb', hrest⟩ := hoption.read hread.readable hleft
  refine ⟨b', ?_, hb', hrest⟩
  unfold readOffer
  rw [hun, hnone]
  simp only [getLong_putLong_of_lt hnum, getLong_putLong_of_lt hoffer, getLong_putLong_of_lt hid,
    bind, Except.bind, hblock, pure, Except.pure]

omit [QueryOptionData δ] in
theorem readGet_wire (hoffer : p.offerId < 2 ^ 32) (hoffset : p.offset < 2 ^ 32)
    (hsize : p.setSize < 2 ^ 16) (hb : Readable b)
    (hun : b.unread = (putLong p.offerId ++ (putLong p.offset ++ putShort p.setSize)) ++ t) :
    ∃ b', q.readGet b.unread b = .ok ({ q with
        offerId := p.offerId, offset := p.offset, setSize := p.setSize }, b') ∧
      Readable b' ∧ b'.unread = t := by
  obtain ⟨hread, hleft⟩ := hb.read_addReadBytes hun
    (n := sizeofLong + sizeofLong + sizeofShort) (by simp [sizeofLong, sizeofShort])
  refine ⟨_, ?_, hread.readable, hleft⟩
  unfold readGet
  rw [hun]
  simp only [List.append_assoc, getLong_putLong_of_lt hoffer, getLong_putLong_of_lt hoffset,
    getShort_putShort_of_lt hsize, bind, Except.bind, pure, Except.pure]

/-- A packet without a list reads none. -/
theorem readData_none (hty : q.packetType = .peerListData) (hnone : q.peerLocationList = none)
    (b : DataBuffer) (r : PeerPacket π δ × DataBuffer) : q.readData b ≠ .ok r := by
  intro hread
  unfold readData at hread
  split at hread
  · cases hread
  · rw [hty] at hread
    simp only [bind, Except.bind] at hread
    split at hread
    · cases hread
    unfold readList at hread
    rw [hnone] at hread
    obtain ⟨_, -, hread⟩ := bind_eq_ok.mp hread
    obtain ⟨_, -, hread⟩ := bind_eq_ok.mp hread
    cases hread

theorem FitsWire.readsBack (h : p.FitsWire encode b) (hty : p.packetType ≠ .peerListData) :
    ReadsBack (p.wire encode) p.carried := by
  have hb := h.readable
  have hun : (ofData (p.wire encode)).unread = p.fixedFields ++ p.restWire encode := by
    rw [unread_ofData, wire]
  have hcarried : p.carried.packetType = p.packetType := by
    unfold carried
    cases hp : p.packetType <;> rfl
  unfold ReadsBack
  rw [hcarried, readData_eq (q := fresh p.packetType) hb hun h.type rfl]
  unfold fixedFields restWire at hun
  unfold carried
  cases hp : p.packetType with
  | none => exact absurd hp h.type
  | peerListData => exact absurd hp hty
  | peerListRequest =>
    rw [hp] at hun
    obtain ⟨b', hread, -, hrest⟩ := readRequest_wire (q := (fresh .peerListRequest : PeerPacket π δ))
      (t := []) h.optionId (h.option (by simp [hp])) rfl hb (by simpa using hun)
    exact ⟨b', hread, hrest⟩
  | peerListOffer =>
    rw [hp] at hun
    obtain ⟨b', hread, -, hrest⟩ := readOffer_wire (q := (fresh .peerListOffer : PeerPacket π δ))
      (t := []) h.numPeersAvailable h.offerId h.optionId (h.option (by simp [hp]))
        rfl hb (by simpa using hun)
    exact ⟨b', hread, hrest⟩
  | peerListGet =>
    rw [hp] at hun
    obtain ⟨b', hread, -, hrest⟩ := readGet_wire (q := (fresh .peerListGet : PeerPacket π δ))
      (t := []) h.offerId h.offset h.setSize hb (by simpa using hun)
    exact ⟨b', hread, hrest⟩

theorem FitsWire.roundTrip_iff [StackLinkInterface π] (h : p.FitsWire encode b) :
    p.RoundTrip encode b ↔ p.packetType ≠ .peerListData := by
  constructor
  · rintro hround hty
    obtain ⟨b', hread, -⟩ := hround.back
    refine readData_none ?_ rfl _ _ hread
    unfold carried
    rw [hty]
    rfl
  · intro hty
    obtain ⟨hstatus, hwrote⟩ := h.wrote (fun hty' => absurd hty' hty)
    exact ⟨hstatus, hwrote, h.readsBack hty⟩

end PeerPacket

/-! ## Proxy packets -/

namespace ProxyPacket

variable {π : Type}

def wire (encode : δ → List UInt8) (p : ProxyPacket π δ) : List UInt8 :=
  if p.packetType = .proxyHalt then []
  else putLong p.optionId ++ optionBlock encode p.optionId p.optionData

structure FitsWire (encode : δ → List UInt8) (p : ProxyPacket π δ) (b : DataBuffer) : Prop where
  type : p.packetType ≠ .none
  parent : p.parent = none
  optionId : p.optionId < 2 ^ 32
  option : p.packetType ≠ .proxyHalt → OptionBlockFits encode p.optionId p.optionData
  /-- The extension reports a buffer without room for its data. -/
  refuses : ∀ optionData, p.optionData = some optionData → ∀ b : DataBuffer, Writable b →
    b.writeRemaining < (encode optionData).length →
      (QueryOptionData.writeData optionData b).1 = false
  writable : Writable b
  room : (p.wire encode).length ≤ b.writeRemaining

/-- What the packet's type carries, in a packet as constructed. -/
def carried (p : ProxyPacket π δ) : ProxyPacket π δ :=
  let q : ProxyPacket π δ := fresh p.packetType
  if p.packetType = .proxyHalt then q
  else { q with optionId := p.optionId, optionData := carriedBlock p.optionId p.optionData }

def ReadsBack (data : List UInt8) (q : ProxyPacket π δ) : Prop :=
  ∃ b', (fresh q.packetType : ProxyPacket π δ).readData (ofData data) = .ok (q, b') ∧ b'.unread = []

structure RoundTrip [StackLinkInterface π] (encode : δ → List UInt8) (p : ProxyPacket π δ)
    (b : DataBuffer) : Prop where
  status : (p.writeData b).1 = true
  wrote : Wrote b (p.wire encode) (p.writeData b).2
  back : ReadsBack (p.wire encode) p.carried

variable {p : ProxyPacket π δ} {b : DataBuffer}

theorem FitsWire.length_wire (h : p.FitsWire encode b) (hty : p.packetType ≠ .proxyHalt) :
    (p.wire encode).length = sizeofLong + optionBlockLength p.optionId p.optionData := by
  rw [wire, if_neg hty, List.length_append, length_putLong, (h.option hty).length]
  rfl

/-- The buffer, when the option is about to be written. -/
theorem FitsWire.writeData_eq [StackLinkInterface π] (h : p.FitsWire encode b)
    (hty : p.packetType ≠ .proxyHalt) :
    ∃ c, Writable c ∧ c.writeRemaining + (p.wire encode).length = b.writeRemaining ∧
      c = (b.poke (putLong p.optionId)).addWriteBytes (p.wire encode).length ∧
      ((p.writeData b).1, (p.writeData b).2) = writeOptionBlock p.optionId p.optionData c := by
  have hroom := h.room
  have hlen := h.length_wire hty
  have hsize : sizeofLong = 8 := rfl
  have hwrites : b.writeRemaining < 2 ^ 32 := by
    have hend := h.writable.room
    have hfits := h.writable.fits
    omega
  have huint : uint (sizeofLong + optionBlockLength p.optionId p.optionData) =
      (p.wire encode).length := by
    rw [← hlen]
    exact Nat.mod_eq_of_lt (by omega)
  obtain ⟨hwritable, hleft⟩ := h.writable.poke_addWriteBytes (l := putLong p.optionId)
    (by rw [length_putLong]; omega) hroom
  refine ⟨_, hwritable, hleft, rfl, ?_⟩
  have hfit : ¬ b.writeRemaining < (p.wire encode).length := by omega
  unfold writeData
  rw [if_neg hty, getWriteBuffer_of_pos (by omega : 0 < b.writeRemaining)]
  simp only [huint, hfit, if_false, h.parent]
  split
  · next hstatus => exact Prod.ext hstatus.symm rfl
  · next hstatus =>
    rw [Bool.not_eq_false] at hstatus
    exact Prod.ext hstatus.symm rfl

/-- The bytes of the option are accounted for twice. -/
theorem FitsWire.wrote_twice [StackLinkInterface π] (h : p.FitsWire encode b)
    (hty : p.packetType ≠ .proxyHalt) (hstatus : (p.writeData b).1 = true) :
    (p.writeData b).2.writeRemaining + (p.wire encode).length +
      (optionBlock encode p.optionId p.optionData).length = b.writeRemaining := by
  obtain ⟨c, hc, hleft, -, heq⟩ := h.writeData_eq hty
  obtain ⟨hstatus', hbuffer⟩ := Prod.ext_iff.mp heq
  dsimp only at hstatus' hbuffer
  rw [hbuffer]
  by_cases hroom : (optionBlock encode p.optionId p.optionData).length ≤ c.writeRemaining
  · have hwrote := ((h.option hty).wrote hc hroom).2.room
    omega
  · -- Without room for it the option is refused.
    refine absurd (hstatus'.symm.trans hstatus) ?_
    unfold optionBlock at hroom
    unfold writeOptionBlock
    cases hd : p.optionData with
    | none =>
      rw [hd] at hroom
      exact absurd (Nat.zero_le _) hroom
    | some optionData =>
      rw [hd] at hroom
      dsimp only at hroom ⊢
      split at hroom
      · next hne =>
        rw [if_pos hne, h.refuses optionData hd c hc (by omega)]
        exact Bool.false_ne_true
      · exact absurd (Nat.zero_le _) hroom

theorem FitsWire.readsBack (h : p.FitsWire encode b) : ReadsBack (p.wire encode) p.carried := by
  unfold ReadsBack carried wire
  by_cases hty : p.packetType = .proxyHalt
  · rw [if_pos hty, if_pos hty]
    exact ⟨ofData [], if_pos hty, rfl⟩
  rw [if_neg hty, if_neg hty]
  have hroom := h.room
  have hend := h.writable.room
  have hfits := h.writable.fits
  rw [wire, if_neg hty] at hroom
  have hb : Readable (ofData (putLong p.optionId ++ optionBlock encode p.optionId p.optionData)) :=
    readable_ofData _ (by omega)
  have hun := unread_ofData (putLong p.optionId ++ optionBlock encode p.optionId p.optionData)
  have hne : (ofData (putLong p.optionId ++
      optionBlock encode p.optionId p.optionData)).unread ≠ [] := by
    intro hnil
    have hlen := congrArg List.length (hun.symm.trans hnil)
    simp at hlen
  obtain ⟨hread, hleft⟩ := hb.read_addReadBytes hun (n := sizeofLong) (by simp [sizeofLong])
  obtain ⟨b', hblock, -, hrest⟩ := (h.option hty).read (t := []) hread.readable
    (by rw [hleft, List.append_nil])
  refine ⟨b', ?_, hrest⟩
  have hmin : ¬ (putLong p.optionId ++ optionBlock encode p.optionId p.optionData).length <
      sizeofLong := by
    simp [sizeofLong]
  unfold readData fresh
  rw [if_neg hty, hb.getReadBuffer hne, hun]
  simp only [hmin, if_false, getLong_putLong_of_lt h.optionId, bind, Except.bind, hblock, pure,
    Except.pure]

theorem FitsWire.roundTrip_halt [StackLinkInterface π] (h : p.FitsWire encode b)
    (hty : p.packetType = .proxyHalt) : p.RoundTrip encode b := by
  have hwrite : p.writeData b = (true, b) := if_pos hty
  have hwire : p.wire encode = [] := if_pos hty
  refine ⟨by rw [hwrite], ?_, h.readsBack⟩
  rw [hwrite, hwire]
  exact h.writable.wrote_nil

theorem FitsWire.roundTrip_iff [StackLinkInterface π] (h : p.FitsWire encode b) :
    p.RoundTrip encode b ↔
      p.packetType = .proxyHalt ∨ optionBlock encode p.optionId p.optionData = [] := by
  constructor
  · intro hround
    by_cases hty : p.packetType = .proxyHalt
    · exact .inl hty
    · have htwice := h.wrote_twice hty hround.status
      have hroom := hround.wrote.room
      exact .inr (List.eq_nil_of_length_eq_zero (by omega))
  · intro hor
    by_cases hty : p.packetType = .proxyHalt
    · exact h.roundTrip_halt hty
    · have hnil := hor.resolve_left hty
      obtain ⟨c, hc, hleft, hceq, heq⟩ := h.writeData_eq hty
      obtain ⟨hstatus, hbuffer⟩ := Prod.ext_iff.mp heq
      dsimp only at hstatus hbuffer
      obtain ⟨htrue, hwrote⟩ := (h.option hty).wrote hc (by rw [hnil]; exact Nat.zero_le _)
      have hwire : p.wire encode = putLong p.optionId := by
        rw [wire, if_neg hty, hnil, List.append_nil]
      have hroom := h.room
      rw [hwire] at hroom
      have hfixed : Wrote b (putLong p.optionId) c := by
        rw [hceq, hwire]
        exact h.writable.wrote_append _ hroom
      refine ⟨hstatus.trans htrue, ?_, h.readsBack⟩
      have hboth := hfixed.trans hwrote
      rw [hnil, List.append_nil] at hboth
      rw [hbuffer, hwire]
      exact hboth

end ProxyPacket

/-- A packet that fits is restored, unless it is one with a list, or one whose option has bytes and
is accounted for twice. -/
theorem packets_roundTrip_iff {π δ' : Type} [StackLinkInterface π] [ProxyOptionData δ']
    (encode : δ → List UInt8) (encode' : δ' → List UInt8) :
    (∀ (p : PeerPacket π δ) (b : DataBuffer), p.FitsWire encode b →
      (p.RoundTrip encode b ↔ p.packetType ≠ .peerListData)) ∧
    ∀ (p : ProxyPacket π δ') (b : DataBuffer), p.FitsWire encode' b →
      (p.RoundTrip encode' b ↔
        p.packetType = .proxyHalt ∨ optionBlock encode' p.optionId p.optionData = []) :=
  ⟨fun _ _ h => h.roundTrip_iff, fun _ _ h => h.roundTrip_iff⟩

/-! ### Packets with an extension of one byte -/

theorem ByteOption.refuses (optionData : ByteOption) {b : DataBuffer}
    (hroom : b.writeRemaining < (ByteOption.encode optionData).length) :
    (QueryOptionData.writeData optionData b).1 = false := by
  have hzero : b.writeRemaining = 0 := Nat.lt_one_iff.mp hroom
  simp only [QueryOptionData.writeData, getWriteBuffer, hzero, if_true]

theorem ByteOption.fits (optionData : ByteOption) :
    OptionBlockFits ByteOption.encode 7 (some optionData) :=
  .inr ⟨optionData, rfl, rfl, optionData.roundTrips⟩

/-- An offer of three peers, with an option. -/
def threePeers : PeerPacket Empty ByteOption :=
  { (PeerPacket.fresh .peerListOffer : PeerPacket Empty ByteOption) with
    numPeersAvailable := 3, offerId := 9, optionId := 7, optionData := some ⟨42⟩ }

def oneLocation : PeerPacket Empty ByteOption :=
  { (PeerPacket.fresh .peerListData : PeerPacket Empty ByteOption) with
    offerId := 9, setSize := 1, peerLocationList := some [⟨1, 2, none⟩] }

def plainProxy : ProxyPacket Empty ByteOption := ProxyPacket.fresh .proxyAccepted

def proxyWithOption : ProxyPacket Empty ByteOption :=
  { (ProxyPacket.fresh .proxyRequest : ProxyPacket Empty ByteOption) with
    optionId := 7, optionData := some ⟨42⟩ }

theorem threePeers_fitsWire : threePeers.FitsWire ByteOption.encode (ofSize 100) where
  type := by decide
  parent := rfl
  optionId := by decide
  numPeersAvailable := by decide
  offerId := by decide
  offset := by decide
  setSize := by decide
  option _ := ByteOption.fits ⟨42⟩
  locations list h := by cases h
  writable := writable_ofSize _ (by decide)
  room := by decide

theorem oneLocation_fitsWire : oneLocation.FitsWire ByteOption.encode (ofSize 100) where
  type := by decide
  parent := rfl
  optionId := by decide
  numPeersAvailable := by decide
  offerId := by decide
  offset := by decide
  setSize := by decide
  option _ := .inl rfl
  locations list h := by
    cases h
    intro location hmem
    cases List.mem_singleton.mp hmem
    exact ⟨by decide, by decide, by simp⟩
  writable := writable_ofSize _ (by decide)
  room := by decide

theorem plainProxy_fitsWire : plainProxy.FitsWire ByteOption.encode (ofSize 100) where
  type := by decide
  parent := rfl
  optionId := by decide
  option _ := .inl rfl
  refuses optionData _ _ _ := optionData.refuses
  writable := writable_ofSize _ (by decide)
  room := by decide

theorem proxyWithOption_fitsWire : proxyWithOption.FitsWire ByteOption.encode (ofSize 100) where
  type := by decide
  parent := rfl
  optionId := by decide
  option _ := ByteOption.fits ⟨42⟩
  refuses optionData _ _ _ := optionData.refuses
  writable := writable_ofSize _ (by decide)
  room := by decide

theorem samples_roundTrip :
    threePeers.RoundTrip ByteOption.encode (ofSize 100) ∧
      plainProxy.RoundTrip ByteOption.encode (ofSize 100) := by
  obtain ⟨hpeer, hproxy⟩ := packets_roundTrip_iff (π := Empty) ByteOption.encode ByteOption.encode
  exact ⟨(hpeer _ _ threePeers_fitsWire).mpr (by decide),
    (hproxy _ _ plainProxy_fitsWire).mpr (.inr rfl)⟩

/-- A list of one location is not read back, and neither is a proxy request with an option. -/
theorem samples_not_roundTrip :
    (oneLocation.FitsWire ByteOption.encode (ofSize 100) ∧
      ¬ oneLocation.RoundTrip ByteOption.encode (ofSize 100)) ∧
    proxyWithOption.FitsWire ByteOption.encode (ofSize 100) ∧
      ¬ proxyWithOption.RoundTrip ByteOption.encode (ofSize 100) := by
  refine ⟨⟨oneLocation_fitsWire, ?_⟩, proxyWithOption_fitsWire, ?_⟩
  · intro hround
    exact oneLocation_fitsWire.roundTrip_iff.mp hround rfl
  · intro hround
    obtain htype | hnil := proxyWithOption_fitsWire.roundTrip_iff.mp hround
    · cases htype
    · cases hnil

end Alpine
