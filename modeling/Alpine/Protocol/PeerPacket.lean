import Alpine.Protocol.QueryPacket
import Alpine.TransBase.Readers

/-!
# Peer and proxy packets

`AlpinePeerPacket` asks for and carries the locations of peers, `AlpineProxyPacket` a request to act
for another peer. Both have an extension block as query packets do, and the extensions of all
three have one interface.

What is left of a packet whose `readData` fails is not modelled.
-/

namespace Alpine

open Lib

/-- `AlpinePeerOptionData`, made by `AlpineExtensionIndex::getPeerOptionExt`. -/
abbrev PeerOptionData (δ : Type) := QueryOptionData δ

/-- `AlpineProxyOptionData`, made by `AlpineExtensionIndex::getProxyOptionExt`. -/
abbrev ProxyOptionData (δ : Type) := QueryOptionData δ

/-- `AlpinePacket::t_PacketType`, as far as a peer packet takes it. -/
inductive PeerPacketType where
  | none | peerListRequest | peerListOffer | peerListGet | peerListData
  deriving DecidableEq, Repr

/-- `AlpinePacket::t_PacketType`, as far as a proxy packet takes it. -/
inductive ProxyPacketType where
  | none | proxyRequest | proxyAccepted | proxyHalt
  deriving DecidableEq, Repr

/-! ## Option blocks -/

section Options

variable {δ : Type} [QueryOptionData δ]

/-- The length of an extension block, `if ((optionId_) && (optionData_))`. -/
def optionBlockLength (optionId : Nat) (optionData : Option δ) : Nat :=
  match optionData with
  | none => 0
  | some optionData => if optionId ≠ 0 then QueryOptionData.getOptionDataLength optionData else 0

def writeOptionBlock (optionId : Nat) (optionData : Option δ) (linkBuffer : DataBuffer) :
    Bool × DataBuffer :=
  match optionData with
  | none => (true, linkBuffer)
  | some optionData =>
    if optionId ≠ 0 then QueryOptionData.writeData optionData linkBuffer else (true, linkBuffer)

/-- The option, if the id read names one. -/
def readOptionBlock (optionId : Nat) (optionData : Option δ) (linkBuffer : DataBuffer) :
    Except ReadError (Option δ × DataBuffer) :=
  if optionId = 0 then .ok (optionData, linkBuffer)
  else do
    let (optionData, linkBuffer) ← readExtension optionId linkBuffer
    return (some optionData, linkBuffer)

end Options

/-! ## Locations -/

/-- `AlpinePeerLocation`. The option's id is that of its data; they are set together. -/
structure PeerLocation (δ : Type) where
  ipAddress : Nat
  port : Nat
  optionData : Option δ
  deriving DecidableEq

namespace PeerLocation

variable {δ : Type} [PeerOptionData δ]

def optionId (location : PeerLocation δ) : Nat :=
  match location.optionData with
  | none => 0
  | some optionData => QueryOptionData.getOptionId optionData

def fields (location : PeerLocation δ) : List UInt8 :=
  putLong location.ipAddress ++ putShort location.port ++ putLong location.optionId

/-- A location's share in `calculatePeerListSize`. -/
def dataSize (location : PeerLocation δ) : Nat :=
  sizeofLong + sizeofShort + sizeofLong +
    optionBlockLength location.optionId location.optionData

/-- The loop of `writePeerListData`. -/
def writeList : List (PeerLocation δ) → DataBuffer → Bool × DataBuffer
  | [], linkBuffer => (true, linkBuffer)
  | location :: list, linkBuffer =>
    match linkBuffer.getWriteBuffer with
    | none => (false, linkBuffer)
    | some _ =>
      let (status, linkBuffer) := writeOptionBlock location.optionId location.optionData
        (linkBuffer.append location.fields)
      if status = false then (false, linkBuffer) else writeList list linkBuffer

/-- One pass of the loop of `readPeerListData`. -/
def readOne (linkBuffer : DataBuffer) : Except ReadError (PeerLocation δ × DataBuffer) :=
  match linkBuffer.getReadBuffer with
  | none => .error .failed
  | some buffer => do
    let bufferSize := buffer.length
    let readLength := sizeofLong
    if readLength > bufferSize then .error .failed
    let (ipAddress, curr) ← getLong buffer
    let readLength := readLength + sizeofShort
    if readLength > bufferSize then .error .failed
    let (port, curr) ← getShort curr
    let readLength := readLength + sizeofLong
    if readLength > bufferSize then .error .failed
    let (optionId, _) ← getLong curr
    let (optionData, linkBuffer) ←
      readOptionBlock optionId none (linkBuffer.addReadBytes readLength)
    return (⟨ipAddress, port, optionData⟩, linkBuffer)

/-- The loop of `readPeerListData`. -/
def readList (setSize fuel : Nat) (linkBuffer : DataBuffer) :
    Except ReadError (List (PeerLocation δ) × DataBuffer) :=
  readUntil readOne setSize fuel [] linkBuffer

end PeerLocation

/-! ## Peer packets -/

structure PeerPacket (π δ : Type) where
  parent : Option π
  packetType : PeerPacketType
  optionId : Nat
  optionData : Option δ
  numPeersAvailable : Nat
  offerId : Nat
  offset : Nat
  setSize : Nat
  peerLocationList : Option (List (PeerLocation δ))

namespace PeerPacket

variable {π δ : Type}

/-- A packet as constructed, with its type set. -/
def fresh (packetType : PeerPacketType) : PeerPacket π δ :=
  { parent := none, packetType, optionId := 0, optionData := none, numPeersAvailable := 0
    offerId := 0, offset := 0, setSize := 0, peerLocationList := none }

/-- What is stored before the option or the list. -/
def fixedFields (p : PeerPacket π δ) : List UInt8 :=
  match p.packetType with
  | .none => []
  | .peerListRequest => putLong p.optionId
  | .peerListOffer => putLong p.numPeersAvailable ++ putLong p.offerId ++ putLong p.optionId
  | .peerListGet => putLong p.offerId ++ putLong p.offset ++ putShort p.setSize
  | .peerListData => putLong p.offerId ++ putShort p.setSize

variable [PeerOptionData δ]

def calculatePeerListSize (p : PeerPacket π δ) : Nat :=
  match p.peerLocationList with
  | none => 0
  | some list => (list.map PeerLocation.dataSize).sum

/-- The length that is checked against the room. -/
def writeLength (p : PeerPacket π δ) : Nat :=
  match p.packetType with
  | .none => 0
  | .peerListRequest => sizeofLong + optionBlockLength p.optionId p.optionData
  | .peerListOffer => sizeofLong + sizeofLong + sizeofLong + optionBlockLength p.optionId p.optionData
  | .peerListGet => sizeofLong + sizeofLong + sizeofShort
  | .peerListData => p.calculatePeerListSize + (sizeofLong + sizeofShort)

def writePeerListData (p : PeerPacket π δ) (linkBuffer : DataBuffer) : Bool × DataBuffer :=
  match p.peerLocationList with
  | none => (false, linkBuffer)
  | some [] => (false, linkBuffer)
  | some list => PeerLocation.writeList list linkBuffer

/-- What follows the fixed fields. -/
def writeRest (p : PeerPacket π δ) (linkBuffer : DataBuffer) : Bool × DataBuffer :=
  match p.packetType with
  | .none | .peerListGet => (true, linkBuffer)
  | .peerListRequest | .peerListOffer => writeOptionBlock p.optionId p.optionData linkBuffer
  | .peerListData => p.writePeerListData linkBuffer

def writeData [StackLinkInterface π] (p : PeerPacket π δ) (linkBuffer : DataBuffer) :
    Bool × DataBuffer :=
  match linkBuffer.getWriteBuffer with
  | none => (false, linkBuffer)
  | some bufferSize =>
    if p.packetType = .peerListData ∧ p.peerLocationList.isNone then (false, linkBuffer)
    else if bufferSize < uint p.writeLength then (false, linkBuffer)
    else
      let (status, linkBuffer) := p.writeRest (linkBuffer.append p.fixedFields)
      if status = false then (false, linkBuffer)
      else
        match p.parent with
        | none => (true, linkBuffer)
        | some parent =>
          -- The layer returns false with a parent set, whatever the parent reports.
          (false, (StackLinkInterface.writeData parent linkBuffer).2)

/-- The least length of a packet of this type. -/
def minimumLength : PeerPacketType → Nat
  | .none => 0
  | .peerListRequest => sizeofLong
  | .peerListOffer => sizeofLong + sizeofLong + sizeofLong
  | .peerListGet => sizeofLong + sizeofLong + sizeofShort
  | .peerListData => sizeofLong + sizeofShort

def readRequest (p : PeerPacket π δ) (buffer : List UInt8) (linkBuffer : DataBuffer) :
    Except ReadError (PeerPacket π δ × DataBuffer) := do
  let (optionId, _) ← getLong buffer
  let (optionData, linkBuffer) ←
    readOptionBlock optionId p.optionData (linkBuffer.addReadBytes sizeofLong)
  return ({ p with optionId, optionData }, linkBuffer)

def readOffer (p : PeerPacket π δ) (buffer : List UInt8) (linkBuffer : DataBuffer) :
    Except ReadError (PeerPacket π δ × DataBuffer) := do
  let (numPeersAvailable, curr) ← getLong buffer
  let (offerId, curr) ← getLong curr
  let (optionId, _) ← getLong curr
  let (optionData, linkBuffer) ← readOptionBlock optionId p.optionData
    (linkBuffer.addReadBytes (sizeofLong + sizeofLong + sizeofLong))
  return ({ p with numPeersAvailable, offerId, optionId, optionData }, linkBuffer)

def readGet (p : PeerPacket π δ) (buffer : List UInt8) (linkBuffer : DataBuffer) :
    Except ReadError (PeerPacket π δ × DataBuffer) := do
  let (offerId, curr) ← getLong buffer
  let (offset, curr) ← getLong curr
  let (setSize, _) ← getShort curr
  return ({ p with offerId, offset, setSize },
    linkBuffer.addReadBytes (sizeofLong + sizeofLong + sizeofShort))

def readPeerListData (p : PeerPacket π δ) (linkBuffer : DataBuffer) :
    Except ReadError (PeerPacket π δ × DataBuffer) := do
  let (list, linkBuffer) ←
    PeerLocation.readList p.setSize (linkBuffer.readRemaining + 1) linkBuffer
  return ({ p with peerLocationList := some list }, linkBuffer)

/-- A packet without a list gets one and fails. -/
def readList (p : PeerPacket π δ) (buffer : List UInt8) (linkBuffer : DataBuffer) :
    Except ReadError (PeerPacket π δ × DataBuffer) := do
  let (offerId, curr) ← getLong buffer
  let (setSize, _) ← getShort curr
  let linkBuffer := linkBuffer.addReadBytes (sizeofLong + sizeofShort)
  match p.peerLocationList with
  | none => .error .failed
  | some _ => readPeerListData { p with offerId, setSize } linkBuffer

def readData (p : PeerPacket π δ) (linkBuffer : DataBuffer) :
    Except ReadError (PeerPacket π δ × DataBuffer) :=
  match linkBuffer.getReadBuffer with
  | none => .error .failed
  | some buffer => do
    if buffer.length < minimumLength p.packetType then .error .failed
    match p.packetType with
    | .none => .ok (p, linkBuffer)
    | .peerListRequest => p.readRequest buffer linkBuffer
    | .peerListOffer => p.readOffer buffer linkBuffer
    | .peerListGet => p.readGet buffer linkBuffer
    | .peerListData => p.readList buffer linkBuffer

end PeerPacket

/-! ## Proxy packets -/

structure ProxyPacket (π δ : Type) where
  parent : Option π
  packetType : ProxyPacketType
  optionId : Nat
  optionData : Option δ
  deriving DecidableEq

namespace ProxyPacket

variable {π δ : Type}

/-- A packet as constructed, with its type set. -/
def fresh (packetType : ProxyPacketType) : ProxyPacket π δ :=
  { parent := none, packetType, optionId := 0, optionData := none }

variable [ProxyOptionData δ]

def writeData [StackLinkInterface π] (p : ProxyPacket π δ) (linkBuffer : DataBuffer) :
    Bool × DataBuffer :=
  if p.packetType = .proxyHalt then (true, linkBuffer)
  else
    match linkBuffer.getWriteBuffer with
    | none => (false, linkBuffer)
    | some bufferSize =>
      let writeLength := uint (sizeofLong + optionBlockLength p.optionId p.optionData)
      if bufferSize < writeLength then (false, linkBuffer)
      else
        -- The option is accounted for here, and again by its own `writeData`.
        let linkBuffer := (linkBuffer.poke (putLong p.optionId)).addWriteBytes writeLength
        let (status, linkBuffer) := writeOptionBlock p.optionId p.optionData linkBuffer
        if status = false then (false, linkBuffer)
        else
          match p.parent with
          | none => (true, linkBuffer)
          | some parent => (false, (StackLinkInterface.writeData parent linkBuffer).2)

def readData (p : ProxyPacket π δ) (linkBuffer : DataBuffer) :
    Except ReadError (ProxyPacket π δ × DataBuffer) :=
  if p.packetType = .proxyHalt then .ok (p, linkBuffer)
  else
    match linkBuffer.getReadBuffer with
    | none => .error .failed
    | some buffer => do
      if buffer.length < sizeofLong then .error .failed
      let (optionId, _) ← getLong buffer
      let (optionData, linkBuffer) ←
        readOptionBlock optionId p.optionData (linkBuffer.addReadBytes sizeofLong)
      return ({ p with optionId, optionData }, linkBuffer)

end ProxyPacket

end Alpine
