import Alpine.Lib.UMap
import Alpine.NetUtils.CovertChannel

/-!
# Datagrams over raw Wi-Fi frames

A datagram is put behind its destination and a source, which is left at zero, into an 802.11 data
frame. What is received has a radiotap header of the receiver's; the addresses are read but not
compared, and what does not fit the buffer is cut off before it is deobfuscated. `Fits` is the exact
condition for a datagram to arrive as it should (`carried_iff`).
-/

namespace Alpine

open Lib

abbrev Mac := { bytes : List UInt8 // bytes.length = 6 }

/-- A datagram of a length that a `uint` holds. -/
abbrev WifiDatagram := { bytes : List UInt8 // bytes.length < 2 ^ 32 }

structure WifiAddress where
  ip : UInt64
  port : UInt16
  deriving DecidableEq

/-- `address` is what `create` was called with; it does not keep it. -/
structure RawWifiConnection where
  opened : Bool
  localMac : Mac
  address : WifiAddress

structure UnicastWifiConnection extends RawWifiConnection where
  macCache : UMap UInt64 Mac
  macCacheExpiry : UMap UInt64 Int

inductive Sent where
  | refused
  | frame (bytes : List UInt8)
  /-- Written outside a buffer, or divided by zero. -/
  | crashed

structure Received where
  data : List UInt8
  sourceIpAddress : UInt64
  sourcePort : UInt16

def RADIOTAP_HDR_SIZE : Nat := 8
def DOT11_HDR_SIZE : Nat := 24
def LLC_SNAP_HDR_SIZE : Nat := 8
def FRAME_OVERHEAD : Nat := RADIOTAP_HDR_SIZE + DOT11_HDR_SIZE + LLC_SNAP_HDR_SIZE
def FRAME_SIZE : Nat := 4096
def MAC_CACHE_TTL_SECONDS : Int := 300

namespace RawWifiConnection

def broadcastMac : Mac := ⟨List.replicate 6 0xFF, rfl⟩

def radiotapHeader : List UInt8 := [0, 0, 8, 0, 0, 0, 0, 0]

def dot11Header (localMac destMac : Mac) : List UInt8 :=
  [0x08, 0, 0, 0] ++ destMac.val ++ localMac.val ++ List.replicate 6 0xFF ++ [0, 0]

def llcHeader : List UInt8 := [0xAA, 0xAA, 0x03]
def alpineOui : List UInt8 := [0x02, 0xA1, 0xE1]
def alpineEtherType : List UInt8 := [0xA1, 0xE1]

/-- The frame up to the payload, without the radiotap header. -/
def macHeader (localMac destMac : Mac) : List UInt8 :=
  dot11Header localMac destMac ++ llcHeader ++ alpineOui ++ alpineEtherType

def buildDataFrame (localMac destMac : Mac) (payload : List UInt8) : Sent :=
  let totalLen := (FRAME_OVERHEAD + payload.length) % 2 ^ 32
  if totalLen > FRAME_SIZE then .refused
  else if FRAME_OVERHEAD + payload.length > FRAME_SIZE then .crashed
  else .frame (radiotapHeader ++ macHeader localMac destMac ++ payload)

/-- The bytes of a number in memory, the lowest first. -/
def toBytes : Nat → Nat → List UInt8
  | 0, _ => []
  | k + 1, n => UInt8.ofNat n :: toBytes k (n / 256)

def ofBytes : List UInt8 → Nat
  | [] => 0
  | b :: bytes => b.toNat + 256 * ofBytes bytes

/-- The destination, the source and the data, in a buffer of their length as a `uint`. -/
def addressedPayload (dest : WifiAddress) (data : List UInt8) : Option (List UInt8) :=
  let addressedLen := (4 + 2 + 4 + 2 + data.length) % 2 ^ 32
  if 4 + 2 + 4 + 2 + data.length ≤ addressedLen then
    some (toBytes 4 dest.ip.toNat ++ toBytes 2 dest.port.toNat ++ toBytes 4 0 ++ toBytes 2 0 ++ data)
  else none

/-- Send to a station; `sent` says whether the socket takes the frame. -/
def transmit (conn : RawWifiConnection) (channel : CovertChannel) (destMac : Mac) (sent : Bool)
    (dest : WifiAddress) (data : WifiDatagram) : Sent :=
  if conn.opened = false then .refused
  else
    match if channel.enabled then channel.obfuscate data.val else some data.val with
    | none => .crashed
    | some sendBuffer =>
      match addressedPayload dest sendBuffer with
      | none => .crashed
      | some payload =>
        match buildDataFrame conn.localMac destMac payload with
        | .frame bytes => if sent then .frame bytes else .refused
        | result => result

def sendData (conn : RawWifiConnection) (channel : CovertChannel) (sent : Bool) (dest : WifiAddress)
    (data : WifiDatagram) : Sent :=
  conn.transmit channel broadcastMac sent dest data

/-- Read from a buffer; `none` is a read behind its end. -/
def readBytes (frame : List UInt8) (off len : Nat) : Option (List UInt8) :=
  if off + len ≤ frame.length then some ((frame.drop off).take len) else none

/-- The length of the radiotap header. -/
def radiotapLength (frame : List UInt8) : Option Nat := do
  let low ← frame[2]?
  let high ← frame[3]?
  some (low.toNat + 256 * high.toNat)

/-- The payload of a frame of Alpine; the outer `none` is a read or copy outside. -/
def parseDataFrame (frame : List UInt8) : Option (Option (List UInt8)) :=
  let frameLen := frame.length
  if frameLen < FRAME_OVERHEAD then some none
  else (radiotapLength frame).bind fun rtLen =>
    if rtLen ≥ frameLen then some none
    else if rtLen + DOT11_HDR_SIZE > frameLen then some none
    else frame[rtLen]?.bind fun frameControl =>
      if frameControl &&& 0x0C ≠ 0x08 then some none
      else
        let llcOffset := rtLen + DOT11_HDR_SIZE
        if llcOffset + LLC_SNAP_HDR_SIZE > frameLen then some none
        else (readBytes frame llcOffset 3).bind fun llc =>
          if llc ≠ llcHeader then some none
          else (readBytes frame (llcOffset + 3) 3).bind fun oui =>
            if oui ≠ alpineOui then some none
            else (readBytes frame (llcOffset + 6) 2).bind fun etherType =>
              if etherType ≠ alpineEtherType then some none
              else
                let dataOffset := llcOffset + LLC_SNAP_HDR_SIZE
                let payloadLen := (frameLen + 2 ^ 32 - dataOffset) % 2 ^ 32
                if payloadLen > FRAME_SIZE then none
                else (readBytes frame dataOffset payloadLen).map some

/-- What is copied out of a frame. Of the caller's `ulong` only the lower four bytes are set. -/
def readFrame (frame : List UInt8) (bufferLength : Nat) (sourceIpAddress : UInt64) :
    Option (Option Received) :=
  if frame.length < FRAME_OVERHEAD then some none
  else (parseDataFrame frame).bind fun parsed =>
    match parsed with
    | none => some none
    | some payload =>
      if payload.length < 12 then some none
      else (readBytes payload (4 + 2) 4).bind fun ip =>
        (readBytes payload (4 + 2 + 4) 2).bind fun port =>
          let actualDataLen := min (payload.length - 12) bufferLength
          (readBytes payload 12 actualDataLen).map fun data =>
            some ⟨data, UInt64.ofNat (sourceIpAddress.toNat / 2 ^ 32 * 2 ^ 32 + ofBytes ip),
              UInt16.ofNat (ofBytes port)⟩

/-- Receive the next frame, of which the socket gives `FRAME_SIZE` bytes; `none` if there is
none. -/
def receiveData (conn : RawWifiConnection) (channel : CovertChannel) (captured : Option (List UInt8))
    (bufferLength : Nat) (sourceIpAddress : UInt64) : Option (Option Received) :=
  if conn.opened = false then some none
  else
    match captured with
    | none => some none
    | some captured =>
      (readFrame (captured.take FRAME_SIZE) bufferLength sourceIpAddress).bind fun read =>
        match read with
        | none => some none
        | some received =>
          if channel.enabled then
            (channel.deobfuscate received.data).map fun data => some { received with data := data }
          else some (some received)

end RawWifiConnection

namespace UnicastWifiConnection

open RawWifiConnection

/-- The station to send to: from the cache, by ARP, or all. -/
def resolveMac (conn : UnicastWifiConnection) (now : Int) (arp : Option Mac) (ip : UInt64) :
    Mac × UnicastWifiConnection :=
  let alive := (conn.macCacheExpiry.find ip).any (now < ·)
  match conn.macCache.find ip with
  | some mac =>
    if alive then (mac, conn)
    else
      let conn := { conn with
        macCache := conn.macCache.erase ip, macCacheExpiry := conn.macCacheExpiry.erase ip }
      lookup conn
  | none => lookup conn
where
  lookup (conn : UnicastWifiConnection) : Mac × UnicastWifiConnection :=
    match arp with
    | some mac =>
      (mac, { conn with
        macCache := conn.macCache.assign ip mac
        macCacheExpiry := conn.macCacheExpiry.assign ip (now + MAC_CACHE_TTL_SECONDS) })
    | none => (broadcastMac, conn)

def sendData (conn : UnicastWifiConnection) (channel : CovertChannel) (now : Int)
    (arp : Option Mac) (sent : Bool) (dest : WifiAddress) (data : WifiDatagram) :
    Sent × UnicastWifiConnection :=
  if conn.opened = false then (.refused, conn)
  else
    let (mac, conn') := conn.resolveMac now arp dest.ip
    (conn'.transmit channel mac sent dest data, conn')

/-- The address of the sending station. -/
def sourceMac (frame : List UInt8) (rtLen : Nat) : Option Mac :=
  if h : rtLen + 10 + 6 ≤ frame.length then
    some ⟨(frame.drop (rtLen + 10)).take 6, by rw [List.length_take, List.length_drop]; omega⟩
  else none

/-- Remember the station of a sender. -/
def learn (conn : UnicastWifiConnection) (now : Int) (frame : List UInt8) (ip : UInt64) :
    Option UnicastWifiConnection :=
  if ip = 0 then some conn
  else (radiotapLength frame).bind fun rtLen =>
    if rtLen + DOT11_HDR_SIZE ≤ frame.length then
      (sourceMac frame rtLen).map fun mac => { conn with
        macCache := conn.macCache.assign ip mac
        macCacheExpiry := conn.macCacheExpiry.assign ip (now + MAC_CACHE_TTL_SECONDS) }
    else some conn

def receiveData (conn : UnicastWifiConnection) (channel : CovertChannel) (now : Int)
    (captured : Option (List UInt8)) (bufferLength : Nat) (sourceIpAddress : UInt64) :
    Option (Option Received × UnicastWifiConnection) :=
  (conn.toRawWifiConnection.receiveData channel captured bufferLength sourceIpAddress).bind
    fun result =>
      match result with
      | none => some (none, conn)
      | some received =>
        (conn.learn now ((captured.getD []).take FRAME_SIZE) received.sourceIpAddress).map
          fun conn => (some received, conn)

end UnicastWifiConnection

end Alpine
