import Alpine.Dtcp.Packet

/-!
# What the DTCP link codec does with a datagram

A packet goes out as the chain `DtcpPacket` → `DtcpConnPacket` (→ `DtcpDataPacket`). The bytes
written are the header, the fields of the type and the payload (`wrote_chain`), and the two
readers the multiplexor applies, one after the other and without parent links, recover the
type, the ids as the receiver names them, and what the type carries (`readsBack`). But
`DtcpPacket::writeData` returns false whenever it has a parent, and so does its `readData`:
no chain is ever reported as written, or as read (`not_linkRoundTrip`).
-/

namespace Alpine

open Lib DataBuffer

/-- The end of a chain: a payload packet without a parent. -/
abbrev Payload := DtcpDataPacket Empty

abbrev ConnPacket := DtcpConnPacket Payload

namespace DtcpConnPacket

variable {π : Type}

/-- The bytes of the connection layer. -/
def body (p : DtcpConnPacket π) : List UInt8 := p.fields.flatten

theorem body_length_pos (p : DtcpConnPacket π) : 8 ≤ p.body.length := by
  unfold body fields
  simp only [List.flatten_cons, List.length_append]
  split <;> simp

/-- The receiver's packet after it read what `p` wrote: the ids change places. -/
def received (q p : DtcpConnPacket π) : DtcpConnPacket π :=
  let q := if p.packetType = .connRequest then { q with myId := p.peerId % 2 ^ 32 }
    else { q with peerId := p.myId % 2 ^ 32 }
  let q := if p.packetType = .connOffer then { q with myId := p.peerId % 2 ^ 32 } else q
  let q := if p.packetType = .connResume then
      { q with prevIpAddress := p.prevIpAddress % 2 ^ 32, prevPort := p.prevPort % 2 ^ 16 }
    else q
  if p.packetType = .connReliableData then { q with sequenceNum := p.sequenceNum % 2 ^ 32 } else q

variable [StackLinkInterface π]

/-- With room for its bytes the layer writes them and hands over to its parent. -/
theorem writeData_eq {p : DtcpConnPacket π} {b : DataBuffer}
    (hroom : p.body.length ≤ b.writeRemaining) :
    p.writeData b = match p.parent with
      | none => (true, b.append p.body)
      | some parent => StackLinkInterface.writeData parent (b.append p.body) := by
  have hpos := p.body_length_pos
  have hw : writeFields b.writeRemaining [] p.fields = some p.body :=
    writeFields_eq (by simpa [body] using hroom)
  cases hp : p.parent <;>
    simp only [writeData, getWriteBuffer_of_pos (by omega : 0 < b.writeRemaining), hw, hp]

theorem read_body {p q : DtcpConnPacket π} {b : DataBuffer} (hb : Readable b) {rest : List UInt8}
    (hun : b.unread = p.body ++ rest) (hq : q.packetType = p.packetType) (hnone : q.parent = none) :
    ∃ b', q.readData b = .ok (received q p, b') ∧ Read b p.body b' ∧ b'.unread = rest := by
  have hne : b.unread ≠ [] := by
    have := p.body_length_pos
    intro h
    rw [hun, List.append_eq_nil_iff] at h
    simp [h.1] at this
  obtain ⟨hr, hrest⟩ := hb.read_addReadBytes hun rfl
  refine ⟨b.addReadBytes p.body.length, ?_, hr, hrest⟩
  unfold readData
  rw [hb.getReadBuffer hne, hun]
  unfold body fields
  by_cases h1 : p.packetType = .connRequest
  · simp [h1, hq, hnone, sizeofLong, received, bind, Except.bind, pure, Except.pure]
  by_cases h2 : p.packetType = .connOffer
  · simp [h2, hq, hnone, sizeofLong, received, bind, Except.bind, pure, Except.pure]
    omega
  by_cases h3 : p.packetType = .connResume
  · simp [h3, hq, hnone, sizeofLong, sizeofShort, received, bind, Except.bind, pure, Except.pure]
    omega
  by_cases h4 : p.packetType = .connReliableData
  · simp [h4, hq, hnone, sizeofLong, received, bind, Except.bind, pure, Except.pure]
    omega
  · simp [h1, h2, h3, h4, hq, hnone, sizeofLong, received, bind, Except.bind, pure, Except.pure]

end DtcpConnPacket

namespace DtcpPacket

variable {π : Type}

/-- The bytes of the link layer for a packet of type `t`. -/
def headerOf (t : PacketType) : List UInt8 :=
  putLong magicCookie ++ putShort version ++ putShort t.toUshort

@[simp] theorem length_headerOf (t : PacketType) : (headerOf t).length = 12 := by
  simp [headerOf]

/-- The header of the chain above `conn`. -/
theorem header_adoptParent (p : DtcpPacket π) {conn : DtcpConnPacket π} (h : p.parent = some conn) :
    p.adoptParent.header = headerOf conn.packetType := by
  have hty : p.adoptParent.packetType = conn.packetType := by
    simp only [adoptParent, h]
    cases conn.getPeerLocation <;> simp only
  rw [header, headerOf, hty]

theorem parent_adoptParent (p : DtcpPacket π) : p.adoptParent.parent = p.parent := by
  unfold adoptParent
  split
  · rfl
  · split <;> rfl

variable [StackLinkInterface π]

theorem read_header {t : PacketType} (ht : t.Canonical) {q : DtcpPacket π} (hnone : q.parent = none)
    {b : DataBuffer} (hb : Readable b) {rest : List UInt8} (hun : b.unread = headerOf t ++ rest) :
    ∃ b', q.readData b = .ok ({ q with packetType := t }, b') ∧ Read b (headerOf t) b' ∧
      b'.unread = rest := by
  have hlen : b.unread.length = 12 + rest.length := by rw [hun]; simp
  have hne : b.unread ≠ [] := by
    intro h
    rw [h, List.length_nil] at hlen
    omega
  obtain ⟨hr, hrest⟩ := hb.read_addReadBytes (n := 12) hun (by simp)
  refine ⟨b.addReadBytes 12, ?_, hr, hrest⟩
  have hm : getLong b.unread =
      .ok (magicCookie, putShort version ++ (putShort t.toUshort ++ rest)) := by
    rw [hun, headerOf, List.append_assoc, List.append_assoc, getLong_putLong,
      Nat.mod_eq_of_lt (by decide)]
  have hv : getShort (putShort version ++ (putShort t.toUshort ++ rest)) =
      .ok (version, putShort t.toUshort ++ rest) := by
    rw [getShort_putShort, Nat.mod_eq_of_lt (by decide)]
  have hty : getShort (putShort t.toUshort ++ rest) = .ok (t.toUshort, rest) := by
    rw [getShort_putShort, Nat.mod_eq_of_lt (PacketType.toUshort_lt ht)]
  have hfit : ¬ b.unread.length < sizeofLong + sizeofShort + sizeofShort := by
    unfold sizeofLong sizeofShort
    omega
  simp only [readData, hb.getReadBuffer hne, hfit, if_false, bind, Except.bind, hm, hv, hty,
    ne_eq, not_true_eq_false, PacketType.ofUshort_toUshort ht, hnone]
  rfl

end DtcpPacket

/-! ## The chain -/

/-- The payload below the connection layer. -/
def ConnPacket.payload (conn : ConnPacket) : List UInt8 :=
  match conn.parent with
  | none => []
  | some data => data.setData

/-- The whole datagram of a packet. -/
def ConnPacket.datagram (conn : ConnPacket) : List UInt8 :=
  DtcpPacket.headerOf conn.packetType ++ conn.body ++ conn.payload

/-- What goes to the buffer: the packet below a fresh link packet. -/
def ConnPacket.chain (conn : ConnPacket) : DtcpPacket Payload :=
  { (DtcpPacket.fresh : DtcpPacket Payload) with parent := some conn }

/-- The packet is one the stack builds, and a buffer has room for its datagram. -/
structure ConnPacket.Sendable (conn : ConnPacket) (b : DataBuffer) : Prop where
  type : conn.packetType.Canonical
  ends : ∀ data, conn.parent = some data → data.parent = none
  writable : Writable b
  room : conn.datagram.length < b.writeRemaining

/-- Apart from the status, the writer is right: with room for it the whole datagram is added to
the buffer. -/
theorem ConnPacket.Sendable.wrote_chain {conn : ConnPacket} {b : DataBuffer}
    (h : conn.Sendable b) : Wrote b conn.datagram (conn.chain.writeData b).2 := by
  obtain ⟨-, hends, hw, hroom⟩ := h
  unfold datagram at hroom ⊢
  simp only [List.length_append, DtcpPacket.length_headerOf] at hroom
  have hpos : 0 < b.writeRemaining := by omega
  have hnot : ¬ b.writeRemaining < sizeofLong + sizeofShort + sizeofShort := by
    unfold sizeofLong sizeofShort
    omega
  have hpar : conn.chain.adoptParent.parent = some conn := conn.chain.parent_adoptParent
  have hhdr : conn.chain.adoptParent.header = DtcpPacket.headerOf conn.packetType :=
    conn.chain.header_adoptParent rfl
  have h1 : Wrote b (DtcpPacket.headerOf conn.packetType)
      (b.append (DtcpPacket.headerOf conn.packetType)) :=
    hw.wrote_append _ (by rw [DtcpPacket.length_headerOf]; omega)
  have hr1 := h1.room
  rw [DtcpPacket.length_headerOf] at hr1
  have h2 : Wrote _ conn.body (DataBuffer.append _ conn.body) :=
    h1.writable.wrote_append _ (by omega)
  have hr2 := h2.room
  have heq : (conn.chain.writeData b).2 =
      (conn.writeData (b.append (DtcpPacket.headerOf conn.packetType))).2 := by
    simp only [DtcpPacket.writeData, getWriteBuffer_of_pos hpos, hpar, hhdr, if_neg hnot]
  rw [heq, DtcpConnPacket.writeData_eq (by omega)]
  unfold payload at hroom ⊢
  cases hp : conn.parent with
  | none => simpa using h1.trans h2
  | some data =>
    rw [hp] at hroom
    simp only at hroom
    have hnone := hends data hp
    have hfit : ¬ data.setData.length >
        ((b.append (DtcpPacket.headerOf conn.packetType)).append conn.body).writeRemaining := by
      omega
    have hg := getWriteBuffer_of_pos
      (b := (b.append (DtcpPacket.headerOf conn.packetType)).append conn.body) (by omega)
    have hd : DtcpDataPacket.writeData data
        ((b.append (DtcpPacket.headerOf conn.packetType)).append conn.body) =
        (true, ((b.append (DtcpPacket.headerOf conn.packetType)).append conn.body).append
          data.setData) := by
      simp only [DtcpDataPacket.writeData, hg, if_neg hfit, hnone]
    have h3 := (h1.trans h2).trans (h2.writable.wrote_append data.setData (by omega))
    simpa only [StackLinkInterface.writeData, hd] using h3

/-! ## The receiver -/

/-- The readers of the receiving side applied in turn: the multiplexor reads the link packet, a
connection packet of the type found, and what is left is the payload. -/
structure ReadsBack (conn : ConnPacket) (datagram : List UInt8) (prevIp prevPort : Nat) : Prop where
  reads : ∃ b₁ b₂ c,
    (DtcpPacket.fresh : DtcpPacket Payload).readData (ofData datagram) =
      .ok ({ (DtcpPacket.fresh : DtcpPacket Payload) with packetType := conn.packetType }, b₁) ∧
    (DtcpConnPacket.fresh prevIp prevPort conn.packetType : ConnPacket).readData b₁ = .ok (c, b₂) ∧
    c = (DtcpConnPacket.fresh prevIp prevPort conn.packetType : ConnPacket).received conn ∧
    b₂.unread = conn.payload ∧
    ∀ data, conn.parent = some data → data.setData ≠ [] →
      ∃ d b₃, (⟨none, [], []⟩ : Payload).readData b₂ = .ok (d, b₃) ∧ d.getData = data.setData ∧
        b₃.unread = []

/-- The payload reader takes all that is left. -/
theorem DtcpDataPacket.readData_eq {π : Type} [StackLinkInterface π] {p : DtcpDataPacket π}
    (hnone : p.parent = none) {b : DataBuffer} (hb : Readable b) (hne : b.unread ≠ []) :
    ∃ b', p.readData b = .ok ({ p with getData := b.unread }, b') ∧ b'.unread = [] := by
  have hun : b.unread = b.unread ++ [] := (List.append_nil _).symm
  obtain ⟨-, hrest⟩ := hb.read_addReadBytes hun rfl
  refine ⟨b.addReadBytes b.unread.length, ?_, hrest⟩
  simp only [readData, hb.getReadBuffer hne, hnone]

theorem ConnPacket.readsBack {conn : ConnPacket} (ht : conn.packetType.Canonical)
    (hlen : conn.datagram.length < 2 ^ 32) (prevIp prevPort : Nat) :
    ReadsBack conn conn.datagram prevIp prevPort := by
  have hun : (ofData conn.datagram).unread =
      DtcpPacket.headerOf conn.packetType ++ (conn.body ++ conn.payload) := by
    rw [unread_ofData, datagram, List.append_assoc]
  obtain ⟨b₁, h₁, hr₁, hrest₁⟩ := DtcpPacket.read_header ht
    (q := (DtcpPacket.fresh : DtcpPacket Payload)) rfl (readable_ofData _ hlen) hun
  obtain ⟨b₂, h₂, hr₂, hrest₂⟩ := DtcpConnPacket.read_body
    (q := (DtcpConnPacket.fresh prevIp prevPort conn.packetType : ConnPacket)) hr₁.readable hrest₁
    rfl rfl
  refine ⟨b₁, b₂, _, h₁, h₂, rfl, hrest₂, ?_⟩
  intro data hdata hne
  have hpay : b₂.unread = data.setData := by rw [hrest₂, payload, hdata]
  obtain ⟨b₃, h₃, hrest₃⟩ := DtcpDataPacket.readData_eq (p := (⟨none, [], []⟩ : Payload)) rfl
    hr₂.readable (by rw [hpay]; exact hne)
  exact ⟨_, b₃, h₃, hpay, hrest₃⟩

namespace DtcpPacket

variable {π : Type} [StackLinkInterface π]

/-- A link packet with a parent never reports that it wrote. -/
theorem writeData_parent {p : DtcpPacket π} (hp : p.parent.isSome) (b : DataBuffer) :
    (p.writeData b).1 = false := by
  obtain ⟨conn, hconn⟩ := Option.isSome_iff_exists.mp hp
  unfold writeData
  split
  · rfl
  · simp only [parent_adoptParent, hconn]
    split <;> rfl

theorem readData_parent {p : DtcpPacket π} (hp : p.parent.isSome) (b : DataBuffer)
    (r : DtcpPacket π × DataBuffer) : p.readData b ≠ .ok r := by
  obtain ⟨conn, hconn⟩ := Option.isSome_iff_exists.mp hp
  unfold readData
  split
  · simp
  · intro h
    simp only [hconn] at h
    split at h
    · cases h
    obtain ⟨⟨cookie, curr⟩, -, h⟩ := bind_eq_ok.mp h
    dsimp only at h
    split at h
    · cases h
    obtain ⟨⟨version, curr⟩, -, h⟩ := bind_eq_ok.mp h
    dsimp only at h
    split at h
    · cases h
    obtain ⟨⟨type, curr⟩, -, h⟩ := bind_eq_ok.mp h
    obtain ⟨-, -, h⟩ := bind_eq_ok.mp h
    cases h

end DtcpPacket

/-- The round trip: the chain reports that it wrote, it wrote the whole datagram, and the
receiver takes it back. -/
structure LinkRoundTrip (conn : ConnPacket) (b : DataBuffer) (prevIp prevPort : Nat) : Prop where
  status : (conn.chain.writeData b).1 = true
  wrote : Wrote b conn.datagram (conn.chain.writeData b).2
  back : ReadsBack conn conn.datagram prevIp prevPort

/-- No packet makes the round trip: with a parent the writer returns false. With room for the
datagram that status is all that is wrong on the way out, and a receiver that leaves the
layers unlinked takes the bytes back; one that links them is told that the read failed. -/
theorem not_linkRoundTrip (conn : ConnPacket) (b : DataBuffer) (prevIp prevPort : Nat) :
    ¬ LinkRoundTrip conn b prevIp prevPort ∧
      (conn.Sendable b → (conn.chain.writeData b).1 = false ∧
        Wrote b conn.datagram (conn.chain.writeData b).2 ∧
        ReadsBack conn conn.datagram prevIp prevPort ∧
        ∀ r, conn.chain.readData (ofData conn.datagram) ≠ .ok r) := by
  have hfalse := DtcpPacket.writeData_parent (p := conn.chain) rfl b
  refine ⟨fun h => ?_, fun h => ⟨hfalse, h.wrote_chain, ?_, ?_⟩⟩
  · rw [h.status] at hfalse
    cases hfalse
  · refine conn.readsBack h.type ?_ prevIp prevPort
    have := h.room
    have := h.writable.room
    have := h.writable.fits
    omega
  · exact DtcpPacket.readData_parent rfl _

/-- A reliable packet with three bytes of payload, and a buffer with plenty of room. -/
def ConnPacket.sample : ConnPacket :=
  { (DtcpConnPacket.fresh 0 0 .connReliableData : ConnPacket) with
    parent := some ⟨none, [1, 2, 3], []⟩, peerId := 7, myId := 9, sequenceNum := 1 }

theorem sample_not_linkRoundTrip :
    ConnPacket.sample.Sendable (ofSize 64) ∧ ¬ LinkRoundTrip ConnPacket.sample (ofSize 64) 0 0 := by
  refine ⟨⟨trivial, ?_, ⟨rfl, by decide, by decide⟩, by decide⟩, fun h => ?_⟩
  · intro data hdata
    cases hdata
    rfl
  · have := h.status
    rw [DtcpPacket.writeData_parent rfl] at this
    cases this

end Alpine
