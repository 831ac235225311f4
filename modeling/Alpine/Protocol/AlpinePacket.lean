import Alpine.Protocol.PeerPacketRoundTrip

/-!
# The Alpine header

`AlpinePacket` puts a version and the type before the packet chained as its parent, and hands what
follows them to it. A packet of an older version has the type alone. No bytes are of both forms
(`forms_disjoint`), and the bytes are right either way, but with a parent set both functions return
false, whatever the parent returns (`header_codec_iff`).
-/

namespace Alpine

open Lib DataBuffer

/-- `AlpinePacket::t_PacketType`. -/
inductive AlpinePacketType where
  | none | queryDiscover | queryOffer | queryRequest | queryReply
  | peerListRequest | peerListOffer | peerListGet | peerListData
  | proxyRequest | proxyAccepted | proxyHalt
  | versionHandshake | versionAccept | queryCancellation
  | unnamed (value : Nat)
  deriving DecidableEq, Repr

namespace AlpinePacketType

def toUshort : AlpinePacketType → Nat
  | none => 0 | queryDiscover => 1 | queryOffer => 2 | queryRequest => 3 | queryReply => 4
  | peerListRequest => 5 | peerListOffer => 6 | peerListGet => 7 | peerListData => 8
  | proxyRequest => 9 | proxyAccepted => 10 | proxyHalt => 11
  | versionHandshake => 12 | versionAccept => 13 | queryCancellation => 14
  | unnamed value => value

/-- `static_cast<t_PacketType>`. -/
def ofUshort : Nat → AlpinePacketType
  | 0 => none | 1 => queryDiscover | 2 => queryOffer | 3 => queryRequest | 4 => queryReply
  | 5 => peerListRequest | 6 => peerListOffer | 7 => peerListGet | 8 => peerListData
  | 9 => proxyRequest | 10 => proxyAccepted | 11 => proxyHalt
  | 12 => versionHandshake | 13 => versionAccept | 14 => queryCancellation
  | n => unnamed n

/-- A named type, or a value no name stands for that fits the wire. -/
def Canonical : AlpinePacketType → Prop
  | unnamed value => 15 ≤ value ∧ value < 2 ^ 16
  | _ => True

theorem toUshort_lt {t : AlpinePacketType} (h : t.Canonical) : t.toUshort < 2 ^ 16 := by
  cases t with
  | unnamed value => exact h.2
  | _ => simp [toUshort]

theorem ofUshort_toUshort {t : AlpinePacketType} (h : t.Canonical) : ofUshort t.toUshort = t := by
  cases t with
  | unnamed value =>
    obtain ⟨h1, -⟩ := h
    obtain ⟨k, rfl⟩ := Nat.exists_eq_add_of_le' h1
    rfl
  | _ => rfl

theorem toUshort_eq_zero {t : AlpinePacketType} (h : t.Canonical) :
    t.toUshort = 0 ↔ t = .none := by
  constructor
  · intro hzero
    rw [← ofUshort_toUshort h, hzero]
    rfl
  · rintro rfl
    rfl

end AlpinePacketType

/-! ## Bodies -/

/-- The packet classes that `dynamic_cast` looks for in a parent. -/
inductive BodyPacket (π δ δ' δ'' : Type) where
  | query (packet : QueryPacket π δ)
  | peer (packet : PeerPacket π δ')
  | proxy (packet : ProxyPacket π δ'')

namespace BodyPacket

variable {π δ δ' δ'' : Type}

def getPacketType : BodyPacket π δ δ' δ'' → AlpinePacketType
  | query packet =>
    match packet.packetType with
    | .none => .none
    | .queryDiscover => .queryDiscover
    | .queryOffer => .queryOffer
    | .queryRequest => .queryRequest
    | .queryReply => .queryReply
  | peer packet =>
    match packet.packetType with
    | .none => .none
    | .peerListRequest => .peerListRequest
    | .peerListOffer => .peerListOffer
    | .peerListGet => .peerListGet
    | .peerListData => .peerListData
  | proxy packet =>
    match packet.packetType with
    | .none => .none
    | .proxyRequest => .proxyRequest
    | .proxyAccepted => .proxyAccepted
    | .proxyHalt => .proxyHalt

/-- `setPacketType` of each class: a type that is not one of its own is refused. -/
def setPacketType (type : AlpinePacketType) : BodyPacket π δ δ' δ'' → BodyPacket π δ δ' δ''
  | query packet =>
    match type with
    | .queryDiscover => query { packet with packetType := .queryDiscover }
    | .queryOffer => query { packet with packetType := .queryOffer }
    | .queryRequest => query { packet with packetType := .queryRequest }
    | .queryReply => query { packet with packetType := .queryReply }
    | _ => query packet
  | peer packet =>
    match type with
    | .peerListRequest => peer { packet with packetType := .peerListRequest }
    | .peerListOffer => peer { packet with packetType := .peerListOffer }
    | .peerListGet => peer { packet with packetType := .peerListGet }
    | .peerListData => peer { packet with packetType := .peerListData }
    | _ => peer packet
  | proxy packet =>
    match type with
    | .proxyRequest => proxy { packet with packetType := .proxyRequest }
    | .proxyAccepted => proxy { packet with packetType := .proxyAccepted }
    | .proxyHalt => proxy { packet with packetType := .proxyHalt }
    | _ => proxy packet

variable [QueryOptionData δ] [PeerOptionData δ'] [ProxyOptionData δ'']

def writeData [StackLinkInterface π] (linkBuffer : DataBuffer) :
    BodyPacket π δ δ' δ'' → Bool × DataBuffer
  | query packet => packet.writeData linkBuffer
  | peer packet => packet.writeData linkBuffer
  | proxy packet => packet.writeData linkBuffer

def readData (linkBuffer : DataBuffer) :
    BodyPacket π δ δ' δ'' → Except ReadError (BodyPacket π δ δ' δ'' × DataBuffer)
  | query packet => do
    let (packet, linkBuffer) ← packet.readData linkBuffer
    return (query packet, linkBuffer)
  | peer packet => do
    let (packet, linkBuffer) ← packet.readData linkBuffer
    return (peer packet, linkBuffer)
  | proxy packet => do
    let (packet, linkBuffer) ← packet.readData linkBuffer
    return (proxy packet, linkBuffer)

end BodyPacket

/-! ## The header -/

def protocolVersion : Nat := 1

structure AlpinePacket (π δ δ' δ'' : Type) where
  parent : Option (BodyPacket π δ δ' δ'')
  packetType : AlpinePacketType
  protocolVersion : Nat

namespace AlpinePacket

variable {π δ δ' δ'' : Type}

def fresh : AlpinePacket π δ δ' δ'' := ⟨none, .none, Alpine.protocolVersion⟩

/-- `writeData` first takes the type from its parent. -/
def adoptParent (p : AlpinePacket π δ δ' δ'') : AlpinePacket π δ δ' δ'' :=
  match p.parent with
  | none => p
  | some parent => { p with packetType := parent.getPacketType }

def versionedHeader (version : Nat) (packetType : AlpinePacketType) : List UInt8 :=
  putShort 0 ++ putShort version ++ putShort packetType.toUshort

def header (p : AlpinePacket π δ δ' δ'') : List UInt8 :=
  versionedHeader p.protocolVersion p.adoptParent.packetType

variable [QueryOptionData δ] [PeerOptionData δ'] [ProxyOptionData δ'']

def writeData [StackLinkInterface π] (p : AlpinePacket π δ δ' δ'') (linkBuffer : DataBuffer) :
    Bool × DataBuffer :=
  match linkBuffer.getWriteBuffer with
  | none => (false, linkBuffer)
  | some bufferSize =>
    if bufferSize < sizeofShort + sizeofShort + sizeofShort then (false, linkBuffer)
    else
      let linkBuffer := linkBuffer.append p.header
      match p.parent with
      | none => (true, linkBuffer)
      | some parent =>
        -- The layer returns false with a parent set, whatever the parent reports.
        (false, (parent.writeData linkBuffer).2)

omit [QueryOptionData δ] [PeerOptionData δ'] [ProxyOptionData δ''] in
/-- Up to the parent's part: version, type, and the buffer after them. -/
def readHeader (p : AlpinePacket π δ δ' δ'') (linkBuffer : DataBuffer) :
    Except ReadError (AlpinePacket π δ δ' δ'' × DataBuffer) :=
  match linkBuffer.getReadBuffer with
  | none => .error .failed
  | some buffer => do
    let bufferSize := buffer.length
    if bufferSize < sizeofShort then .error .failed
    let (firstWord, curr) ← getShort buffer
    if firstWord ≠ 0 then
      return ({ p with protocolVersion := 0, packetType := .ofUshort firstWord },
        linkBuffer.addReadBytes sizeofShort)
    else do
      if bufferSize < sizeofShort + sizeofShort + sizeofShort then .error .failed
      let (version, curr) ← getShort curr
      let (packetType, _) ← getShort curr
      return ({ p with protocolVersion := version, packetType := .ofUshort packetType },
        linkBuffer.addReadBytes (sizeofShort + sizeofShort + sizeofShort))

def readData (p : AlpinePacket π δ δ' δ'') (linkBuffer : DataBuffer) :
    Except ReadError (AlpinePacket π δ δ' δ'' × DataBuffer) := do
  let (p, linkBuffer) ← p.readHeader linkBuffer
  match p.parent with
  | none => return (p, linkBuffer)
  | some parent => do
    let _ ← (parent.setPacketType p.packetType).readData linkBuffer
    .error .failed

/-! ## Writing -/

/-- The packet is written if its parent is: the header, and after it what the parent writes. -/
structure WritesThrough [StackLinkInterface π] (p : AlpinePacket π δ δ' δ'') (b : DataBuffer) :
    Prop where
  status : (p.writeData b).1 = true ↔ p.header.length ≤ b.writeRemaining ∧
    ∀ parent, p.parent = some parent → (parent.writeData (b.append p.header)).1 = true
  alone : (p.writeData b).1 = true → p.parent = none → Wrote b p.header (p.writeData b).2
  chained : ∀ parent bytes, (p.writeData b).1 = true → p.parent = some parent →
    Wrote (b.append p.header) bytes (parent.writeData (b.append p.header)).2 →
      Wrote b (p.header ++ bytes) (p.writeData b).2

section Writing

variable [StackLinkInterface π] {p : AlpinePacket π δ δ' δ''} {b : DataBuffer}

omit [QueryOptionData δ] [PeerOptionData δ'] [ProxyOptionData δ''] [StackLinkInterface π] in
theorem length_header (p : AlpinePacket π δ δ' δ'') : p.header.length = 6 := by
  simp [header, versionedHeader]

theorem writeData_eq (p : AlpinePacket π δ δ' δ'') (hroom : p.header.length ≤ b.writeRemaining) :
    p.writeData b =
      match p.parent with
      | none => (true, b.append p.header)
      | some parent => (false, (parent.writeData (b.append p.header)).2) := by
  rw [length_header] at hroom
  have hfit : ¬ b.writeRemaining < sizeofShort + sizeofShort + sizeofShort := by
    unfold sizeofShort
    omega
  unfold writeData
  rw [getWriteBuffer_of_pos (by omega)]
  simp only [hfit, if_false]

theorem writeData_full (p : AlpinePacket π δ δ' δ'') (hfull : b.writeRemaining < p.header.length) :
    (p.writeData b).1 = false := by
  rw [length_header] at hfull
  unfold writeData
  split
  · rfl
  next bufferSize hsize =>
  unfold getWriteBuffer at hsize
  split at hsize
  · cases hsize
  cases hsize
  rw [if_pos (by unfold sizeofShort; omega)]

/-- Behind the header the buffer holds what the parent writes, whatever is reported of it. -/
theorem wrote_chained (hb : Writable b) (hroom : p.header.length ≤ b.writeRemaining)
    {parent : BodyPacket π δ δ' δ''} (hparent : p.parent = some parent) {bytes : List UInt8}
    (hwrote : Wrote (b.append p.header) bytes (parent.writeData (b.append p.header)).2) :
    Wrote b (p.header ++ bytes) (p.writeData b).2 := by
  rw [writeData_eq p hroom, hparent]
  exact (hb.wrote_append p.header hroom).trans hwrote

theorem writesThrough_iff (hb : Writable b) :
    p.WritesThrough b ↔ ∀ parent, p.parent = some parent → p.header.length ≤ b.writeRemaining →
      (parent.writeData (b.append p.header)).1 = false := by
  constructor
  · intro hthrough parent hparent hroom
    by_contra htrue
    rw [Bool.not_eq_false] at htrue
    have hstatus := hthrough.status.mpr ⟨hroom, fun parent' hparent' => by
      rw [hparent] at hparent'
      cases hparent'
      exact htrue⟩
    rw [writeData_eq p hroom, hparent] at hstatus
    cases hstatus
  · intro hrefuses
    have hroomOf : (p.writeData b).1 = true → p.header.length ≤ b.writeRemaining := by
      intro htrue
      by_contra hfull
      rw [writeData_full p (Nat.lt_of_not_le hfull)] at htrue
      cases htrue
    refine ⟨⟨?_, ?_⟩, ?_, ?_⟩
    · intro htrue
      have hroom := hroomOf htrue
      refine ⟨hroom, ?_⟩
      intro parent hparent
      rw [writeData_eq p hroom, hparent] at htrue
      cases htrue
    · rintro ⟨hroom, hall⟩
      rw [writeData_eq p hroom]
      cases hparent : p.parent with
      | none => rfl
      | some parent =>
        have htrue := hall parent hparent
        rw [hrefuses parent hparent hroom] at htrue
        cases htrue
    · intro htrue hnone
      have hroom := hroomOf htrue
      rw [writeData_eq p hroom, hnone]
      exact hb.wrote_append p.header hroom
    · intro parent bytes htrue hparent hwrote
      exact wrote_chained hb (hroomOf htrue) hparent hwrote

end Writing

/-! ## Reading -/

omit [QueryOptionData δ] [PeerOptionData δ'] [ProxyOptionData δ''] in
theorem readHeader_versioned (p : AlpinePacket π δ δ' δ'') {version : Nat}
    (hversion : version < 2 ^ 16)
    {packetType : AlpinePacketType} (htype : packetType.Canonical) (rest : List UInt8) :
    p.readHeader (ofData (versionedHeader version packetType ++ rest)) =
      .ok ({ p with protocolVersion := version, packetType },
        (ofData (versionedHeader version packetType ++ rest)).addReadBytes 6) := by
  have hlen : (versionedHeader version packetType ++ rest).length = 6 + rest.length := by
    simp only [versionedHeader, List.length_append, length_putShort]
  have hne : versionedHeader version packetType ++ rest ≠ [] := by
    intro hnil
    rw [hnil, List.length_nil] at hlen
    omega
  have hshort : ¬ (versionedHeader version packetType ++ rest).length < 2 := by omega
  have hlong : ¬ (versionedHeader version packetType ++ rest).length < 2 + 2 + 2 := by omega
  have hmarker : getShort (versionedHeader version packetType ++ rest) =
      .ok (0, putShort version ++ (putShort packetType.toUshort ++ rest)) := by
    rw [versionedHeader, List.append_assoc, List.append_assoc,
      getShort_putShort_of_lt (by decide : 0 < 2 ^ 16)]
  unfold readHeader
  rw [getReadBuffer_ofData hne]
  simp only [sizeofShort, hshort, hlong, if_false, hmarker, bind, Except.bind, ne_eq,
    not_true_eq_false, getShort_putShort_of_lt hversion,
    getShort_putShort_of_lt (AlpinePacketType.toUshort_lt htype),
    AlpinePacketType.ofUshort_toUshort htype, pure, Except.pure]

omit [QueryOptionData δ] [PeerOptionData δ'] [ProxyOptionData δ''] in
theorem readHeader_legacy (p : AlpinePacket π δ δ' δ'') {packetType : AlpinePacketType}
    (htype : packetType.Canonical) (hnone : packetType ≠ .none) (rest : List UInt8) :
    p.readHeader (ofData (putShort packetType.toUshort ++ rest)) =
      .ok ({ p with protocolVersion := 0, packetType },
        (ofData (putShort packetType.toUshort ++ rest)).addReadBytes 2) := by
  have hlen : (putShort packetType.toUshort ++ rest).length = 2 + rest.length := by simp
  have hne : putShort packetType.toUshort ++ rest ≠ [] := by
    intro hnil
    rw [hnil, List.length_nil] at hlen
    omega
  have hshort : ¬ (putShort packetType.toUshort ++ rest).length < 2 := by omega
  have hfirst : ¬ packetType.toUshort = 0 :=
    fun hzero => hnone ((AlpinePacketType.toUshort_eq_zero htype).mp hzero)
  unfold readHeader
  rw [getReadBuffer_ofData hne]
  simp only [sizeofShort, hshort, if_false, bind, Except.bind, ne_eq, hfirst, not_false_eq_true,
    if_true, getShort_putShort_of_lt (AlpinePacketType.toUshort_lt htype),
    AlpinePacketType.ofUshort_toUshort htype, pure, Except.pure]

/-- The packet reads its type and version, hands the bytes after the header to its parent, and is
read if its parent is. -/
structure ReadsThrough (p : AlpinePacket π δ δ' δ'') (header rest : List UInt8) (version : Nat)
    (packetType : AlpinePacketType) : Prop where
  handed : ((ofData (header ++ rest)).addReadBytes header.length).unread = rest
  read : p.readHeader (ofData (header ++ rest)) =
    .ok ({ p with protocolVersion := version, packetType },
      (ofData (header ++ rest)).addReadBytes header.length)
  status : (∃ r, p.readData (ofData (header ++ rest)) = .ok r) ↔
    ∀ parent, p.parent = some parent → ∃ r, (parent.setPacketType packetType).readData
      ((ofData (header ++ rest)).addReadBytes header.length) = .ok r

theorem readData_eq {p p' : AlpinePacket π δ δ' δ''} {b b' : DataBuffer}
    (hheader : p.readHeader b = .ok (p', b')) :
    p.readData b =
      match p'.parent with
      | none => .ok (p', b')
      | some parent => (parent.setPacketType p'.packetType).readData b' >>= fun _ =>
          .error .failed := by
  unfold readData
  rw [hheader]
  rfl

theorem readsThrough_iff {p : AlpinePacket π δ δ' δ''} {header rest : List UInt8} {version : Nat}
    {packetType : AlpinePacketType}
    (hheader : p.readHeader (ofData (header ++ rest)) =
      .ok ({ p with protocolVersion := version, packetType },
        (ofData (header ++ rest)).addReadBytes header.length)) :
    p.ReadsThrough header rest version packetType ↔ ∀ parent, p.parent = some parent →
      ∀ r, (parent.setPacketType packetType).readData
        ((ofData (header ++ rest)).addReadBytes header.length) ≠ .ok r := by
  have hread := readData_eq hheader
  dsimp only at hread
  have hnever : ∀ parent, p.parent = some parent →
      ∀ r, p.readData (ofData (header ++ rest)) ≠ .ok r := by
    intro parent hparent r hok
    rw [hread, hparent] at hok
    obtain ⟨_, -, hfailed⟩ := bind_eq_ok.mp hok
    cases hfailed
  constructor
  · intro hthrough parent hparent r hok
    have hall : ∀ parent', p.parent = some parent' → ∃ r, (parent'.setPacketType packetType).readData
        ((ofData (header ++ rest)).addReadBytes header.length) = .ok r := by
      intro parent' hparent'
      rw [hparent] at hparent'
      cases hparent'
      exact ⟨r, hok⟩
    obtain ⟨r', hok'⟩ := hthrough.status.mpr hall
    exact hnever parent hparent r' hok'
  · intro hrefuses
    refine ⟨?_, hheader, ⟨?_, ?_⟩⟩
    · rw [unread_ofData_add (by simp), List.drop_left]
    · rintro ⟨r, hok⟩ parent hparent
      exact absurd hok (hnever parent hparent r)
    · intro hall
      cases hparent : p.parent with
      | none =>
        rw [hread, hparent]
        exact ⟨_, rfl⟩
      | some parent =>
        obtain ⟨r, hok⟩ := hall parent hparent
        exact absurd hok (hrefuses parent hparent r)

/-- No bytes have both forms. -/
theorem forms_disjoint {version : Nat} {packetType packetType' : AlpinePacketType}
    (htype : packetType.Canonical) (hnone : packetType ≠ .none) (rest rest' : List UInt8) :
    putShort packetType.toUshort ++ rest ≠ versionedHeader version packetType' ++ rest' := by
  intro heq
  have hfirst := congrArg getShort heq
  rw [versionedHeader, List.append_assoc, List.append_assoc,
    getShort_putShort_of_lt (AlpinePacketType.toUshort_lt htype),
    getShort_putShort_of_lt (by decide : 0 < 2 ^ 16)] at hfirst
  cases packetType with
  | unnamed value =>
    injection hfirst with hpair
    injection hpair with hzero _
    exact hnone ((AlpinePacketType.toUshort_eq_zero htype).mp hzero)
  | none => exact hnone rfl
  | _ => cases hfirst

/-- Without a parent the codec is right. With one it is where the parent's own codec fails too. -/
theorem header_codec_iff [StackLinkInterface π] (p : AlpinePacket π δ δ' δ'') :
    (∀ b, Writable b → (p.WritesThrough b ↔
      ∀ parent, p.parent = some parent → p.header.length ≤ b.writeRemaining →
        (parent.writeData (b.append p.header)).1 = false)) ∧
    (∀ version packetType rest, version < 2 ^ 16 → packetType.Canonical →
      (p.ReadsThrough (versionedHeader version packetType) rest version packetType ↔
        ∀ parent, p.parent = some parent → ∀ r, (parent.setPacketType packetType).readData
          ((ofData (versionedHeader version packetType ++ rest)).addReadBytes 6) ≠ .ok r)) ∧
    (∀ packetType rest, packetType.Canonical → packetType ≠ .none →
      (p.ReadsThrough (putShort packetType.toUshort) rest 0 packetType ↔
        ∀ parent, p.parent = some parent → ∀ r, (parent.setPacketType packetType).readData
          ((ofData (putShort packetType.toUshort ++ rest)).addReadBytes 2) ≠ .ok r)) ∧
    ∀ version (packetType packetType' : AlpinePacketType) rest rest', packetType.Canonical →
      packetType ≠ .none →
        putShort packetType.toUshort ++ rest ≠ versionedHeader version packetType' ++ rest' := by
  refine ⟨fun b hb => writesThrough_iff hb, ?_, ?_, ?_⟩
  · intro version packetType rest hversion htype
    exact readsThrough_iff (p.readHeader_versioned hversion htype rest)
  · intro packetType rest htype hnone
    exact readsThrough_iff (p.readHeader_legacy htype hnone rest)
  · exact fun version packetType packetType' rest rest' htype hnone =>
      forms_disjoint htype hnone rest rest'

/-! ### Packets with and without a parent -/

def unchained : AlpinePacket Empty ByteOption ByteOption ByteOption :=
  { (fresh : AlpinePacket Empty ByteOption ByteOption ByteOption) with packetType := .queryOffer }

/-- A request for a list of peers, chained to a header. -/
def chained : AlpinePacket Empty ByteOption ByteOption ByteOption :=
  { (fresh : AlpinePacket Empty ByteOption ByteOption ByteOption) with
    parent := some (.peer (PeerPacket.fresh .peerListRequest)) }

theorem unchained_through :
    unchained.WritesThrough (ofSize 100) ∧
      unchained.ReadsThrough (versionedHeader 1 .queryOffer) [] 1 .queryOffer ∧
      unchained.ReadsThrough (putShort AlpinePacketType.queryOffer.toUshort) [] 0 .queryOffer := by
  obtain ⟨hwrites, hversioned, hlegacy, -⟩ := header_codec_iff unchained
  refine ⟨(hwrites _ (writable_ofSize _ (by decide))).mpr ?_,
    (hversioned 1 .queryOffer [] (by decide) trivial).mpr ?_,
    (hlegacy .queryOffer [] trivial (by decide)).mpr ?_⟩ <;>
  · intro parent hparent
    cases hparent

/-- The body is written and read, but the chain fails. -/
theorem chained_not_through :
    ¬ chained.WritesThrough (ofSize 100) ∧
      ¬ chained.ReadsThrough (versionedHeader 1 .peerListRequest) (putLong 0) 1
        .peerListRequest := by
  constructor
  · rw [writesThrough_iff (writable_ofSize _ (by decide))]
    intro hrefuses
    exact absurd (hrefuses _ rfl (by decide)) (by decide)
  · have htype : AlpinePacketType.peerListRequest.Canonical := trivial
    have hread := chained.readHeader_versioned (by decide : 1 < 2 ^ 16) htype (putLong 0)
    rw [readsThrough_iff hread]
    intro hrefuses
    exact hrefuses _ rfl _ rfl

end AlpinePacket

end Alpine
