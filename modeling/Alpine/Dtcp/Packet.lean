import Alpine.TransBase.DataBuffer

/-!
# DTCP packets

The three codec layers of a DTCP datagram: `DtcpPacket` (magic cookie, version, type),
`DtcpConnPacket` (the ids and what its type adds) and `DtcpDataPacket` (payload). A layer
writes its own header and then lets its parent link write; the reader is the same the other
way round.
-/

namespace Alpine

open Lib

/-- `DtcpPacket::t_PacketType`. The reader casts any 16-bit value into the enumeration, so
values without a name are kept. -/
inductive PacketType where
  | none | connRequest | connOffer | connAccept | connSuspend | connResume
  | connData | connReliableData | connDataAck | connClose
  | poll | ack | error | natDiscover | natSource | txnData
  | unnamed (value : Nat)
  deriving DecidableEq, Repr

namespace PacketType

def toUshort : PacketType → Nat
  | none => 0 | connRequest => 1 | connOffer => 2 | connAccept => 3 | connSuspend => 4
  | connResume => 5 | connData => 6 | connReliableData => 7 | connDataAck => 8 | connClose => 9
  | poll => 10 | ack => 11 | error => 12 | natDiscover => 13 | natSource => 14 | txnData => 15
  | unnamed value => value

/-- `static_cast<t_PacketType>`. -/
def ofUshort : Nat → PacketType
  | 0 => none | 1 => connRequest | 2 => connOffer | 3 => connAccept | 4 => connSuspend
  | 5 => connResume | 6 => connData | 7 => connReliableData | 8 => connDataAck | 9 => connClose
  | 10 => poll | 11 => ack | 12 => error | 13 => natDiscover | 14 => natSource | 15 => txnData
  | n => unnamed n

/-- A named type, or a value no name stands for that fits the wire. -/
def Canonical : PacketType → Prop
  | unnamed value => 16 ≤ value ∧ value < 2 ^ 16
  | _ => True

instance : DecidablePred Canonical := fun t => by cases t <;> unfold Canonical <;> infer_instance

theorem toUshort_lt {t : PacketType} (h : t.Canonical) : t.toUshort < 2 ^ 16 := by
  cases t with
  | unnamed value => exact h.2
  | _ => simp [toUshort]

theorem ofUshort_toUshort {t : PacketType} (h : t.Canonical) : ofUshort t.toUshort = t := by
  cases t with
  | unnamed value =>
    obtain ⟨h1, -⟩ := h
    obtain ⟨k, rfl⟩ := Nat.exists_eq_add_of_le' h1
    rfl
  | _ => rfl

end PacketType

/-! ## DtcpDataPacket -/

/-- `DtcpDataPacket`: `setData` is what is sent, `getData` what was received. -/
structure DtcpDataPacket (π : Type) where
  parent : Option π
  setData : List UInt8
  getData : List UInt8
  deriving DecidableEq, Repr

namespace DtcpDataPacket

variable {π : Type} [StackLinkInterface π]

def writeData (p : DtcpDataPacket π) (linkBuffer : DataBuffer) : Bool × DataBuffer :=
  match linkBuffer.getWriteBuffer with
  | none => (false, linkBuffer)
  | some bufferSize =>
    if p.setData.length > bufferSize then (false, linkBuffer)
    else
      let linkBuffer := linkBuffer.append p.setData
      match p.parent with
      | none => (true, linkBuffer)
      | some parent =>
        -- The layer returns false with a parent set, whatever the parent reports.
        (false, (StackLinkInterface.writeData parent linkBuffer).2)

def readData (p : DtcpDataPacket π) (linkBuffer : DataBuffer) :
    Except ReadError (DtcpDataPacket π × DataBuffer) :=
  match linkBuffer.getReadBuffer with
  | none => .error .failed
  | some buffer =>
    let p := { p with getData := buffer }
    let linkBuffer := linkBuffer.addReadBytes buffer.length
    match p.parent with
    | none => .ok (p, linkBuffer)
    | some parent => do
      let _ ← StackLinkInterface.readData parent linkBuffer
      .error .failed

instance : StackLinkInterface (DtcpDataPacket π) := ⟨writeData, readData⟩

end DtcpDataPacket

/-! ## DtcpConnPacket -/

structure DtcpConnPacket (π : Type) where
  parent : Option π
  peerId : Nat
  myId : Nat
  peerIpAddress : Nat
  peerPort : Nat
  prevIpAddress : Nat
  prevPort : Nat
  sequenceNum : Nat
  packetType : PacketType
  deriving DecidableEq, Repr

namespace DtcpConnPacket

variable {π : Type} [StackLinkInterface π]

/-- A fresh packet. The constructor leaves the previous location and the type unset. -/
def fresh (prevIpAddress prevPort : Nat) (packetType : PacketType) : DtcpConnPacket π :=
  { parent := none, peerId := 0, myId := 0, peerIpAddress := 0, peerPort := 0
    prevIpAddress, prevPort, sequenceNum := 0, packetType }

/-- `getPeerLocation` fails when no address is set. -/
def getPeerLocation (p : DtcpConnPacket π) : Option (Nat × Nat) :=
  if p.peerIpAddress = 0 then none else some (p.peerIpAddress, p.peerPort)

/-- The fields of each type, in the order `writeData` stores them. -/
def fields (p : DtcpConnPacket π) : List (List UInt8) :=
  [if p.packetType = .connRequest then putLong p.peerId else putLong p.myId,
    if p.packetType = .connOffer then putLong p.peerId else [],
    if p.packetType = .connResume then putLong p.prevIpAddress ++ putShort p.prevPort else [],
    if p.packetType = .connReliableData then putLong p.sequenceNum else []]

def writeData (p : DtcpConnPacket π) (linkBuffer : DataBuffer) : Bool × DataBuffer :=
  match linkBuffer.getWriteBuffer with
  | none => (false, linkBuffer)
  | some bufferSize =>
    match writeFields bufferSize [] p.fields with
    | none => (false, linkBuffer)
    | some written =>
      let linkBuffer := linkBuffer.append written
      match p.parent with
      | none => (true, linkBuffer)
      | some parent => StackLinkInterface.writeData parent linkBuffer

def readData (p : DtcpConnPacket π) (linkBuffer : DataBuffer) :
    Except ReadError (DtcpConnPacket π × DataBuffer) :=
  match linkBuffer.getReadBuffer with
  | none => .error .failed
  | some buffer => do
    let bufferSize := buffer.length
    let readLength := sizeofLong
    if bufferSize < readLength then .error .failed
    let (id, curr) ← getLong buffer
    let p := if p.packetType = .connRequest then { p with myId := id } else { p with peerId := id }
    let (p, readLength, curr) ←
      if p.packetType = .connOffer then do
        let readLength := readLength + sizeofLong
        if bufferSize < readLength then .error .failed
        let (id, curr) ← getLong curr
        pure ({ p with myId := id }, readLength, curr)
      else pure (p, readLength, curr)
    let (p, readLength, curr) ←
      if p.packetType = .connResume then do
        let readLength := readLength + sizeofLong + sizeofShort
        if bufferSize < readLength then .error .failed
        let (ip, curr) ← getLong curr
        let (port, curr) ← getShort curr
        pure ({ p with prevIpAddress := ip, prevPort := port }, readLength, curr)
      else pure (p, readLength, curr)
    let (p, readLength, _) ←
      if p.packetType = .connReliableData then do
        let readLength := readLength + sizeofLong
        if bufferSize < readLength then .error .failed
        let (seq, curr) ← getLong curr
        pure ({ p with sequenceNum := seq }, readLength, curr)
      else pure (p, readLength, curr)
    let linkBuffer := linkBuffer.addReadBytes readLength
    match p.parent with
    | none => .ok (p, linkBuffer)
    | some parent => do
      let _ ← StackLinkInterface.readData parent linkBuffer
      .error .failed

instance : StackLinkInterface (DtcpConnPacket π) := ⟨writeData, readData⟩

end DtcpConnPacket

/-! ## DtcpPacket -/

/-- `DtcpPacket`. Its parent is always a `DtcpConnPacket` in this code base. -/
structure DtcpPacket (π : Type) where
  parent : Option (DtcpConnPacket π)
  packetType : PacketType
  peerIpAddress : Nat
  peerPort : Nat
  deriving DecidableEq, Repr

namespace DtcpPacket

variable {π : Type} [StackLinkInterface π]

/-- `(68 << 24) + (84 << 16) + (67 << 8) + 80`, the letters DTCP. -/
def magicCookie : Nat := 68 * 2 ^ 24 + 84 * 2 ^ 16 + 67 * 2 ^ 8 + 80

def version : Nat := 0x0001

def fresh : DtcpPacket π := ⟨none, .none, 0, 0⟩

/-- `writeData` first takes the destination and the type from its parent. -/
def adoptParent (p : DtcpPacket π) : DtcpPacket π :=
  match p.parent with
  | none => p
  | some conn =>
    match conn.getPeerLocation with
    | none => { p with packetType := conn.packetType }
    | some (ip, port) =>
      { p with packetType := conn.packetType, peerIpAddress := ip, peerPort := port }

def header (p : DtcpPacket π) : List UInt8 :=
  putLong magicCookie ++ putShort version ++ putShort p.packetType.toUshort

def writeData (p : DtcpPacket π) (linkBuffer : DataBuffer) : Bool × DataBuffer :=
  match linkBuffer.getWriteBuffer with
  | none => (false, linkBuffer)
  | some bufferSize =>
    let p := p.adoptParent
    if bufferSize < sizeofLong + sizeofShort + sizeofShort then (false, linkBuffer)
    else
      let linkBuffer := linkBuffer.append p.header
      match p.parent with
      | none => (true, linkBuffer)
      | some parent =>
        -- The layer returns false with a parent set, whatever the parent reports.
        (false, (parent.writeData linkBuffer).2)

def readData (p : DtcpPacket π) (linkBuffer : DataBuffer) :
    Except ReadError (DtcpPacket π × DataBuffer) :=
  match linkBuffer.getReadBuffer with
  | none => .error .failed
  | some buffer => do
    let readLength := sizeofLong + sizeofShort + sizeofShort
    if buffer.length < readLength then .error .failed
    let (readMagicCookie, curr) ← getLong buffer
    if readMagicCookie ≠ magicCookie then .error .failed
    let (readVersion, curr) ← getShort curr
    if readVersion ≠ version then .error .failed
    let (type, _) ← getShort curr
    let p := { p with packetType := .ofUshort type }
    let linkBuffer := linkBuffer.addReadBytes readLength
    match p.parent with
    | none => .ok (p, linkBuffer)
    | some conn => do
      let conn := { conn with
        peerIpAddress := p.peerIpAddress, peerPort := p.peerPort, packetType := p.packetType }
      let _ ← conn.readData linkBuffer
      .error .failed

instance : StackLinkInterface (DtcpPacket π) := ⟨writeData, readData⟩

end DtcpPacket

end Alpine
