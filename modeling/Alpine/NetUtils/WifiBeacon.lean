import Alpine.Lib.Inet
import Alpine.NetUtils.WifiLink

/-!
# Peers in Wi-Fi beacons

A node sends 802.11 beacons with a vendor element that says where it is, and reports what it finds
in the beacons of others. The parser trusts three lengths of the frame: that of the radiotap header,
those of the tagged elements and that of the peer id. Sums of offsets are 32-bit words.
-/

namespace Alpine

open Lib RawWifiConnection

structure WifiBeaconInjector where
  localMac : Mac
  peerId : List UInt8
  ipAddress : List Char
  port : UInt16
  restPort : UInt16
  capabilities : UInt32

/-- `t_DiscoveredPeer`, without the time. -/
structure DiscoveredPeer where
  peerId : List UInt8
  ipAddress : List Char
  port : UInt16
  restPort : UInt16
  protocolVersion : Nat
  capabilities : Nat
  deriving DecidableEq, Repr

namespace WifiBeaconInjector

def ALPINE_OUI : List UInt8 := [0x02, 0xA1, 0xE1]

def ALPINE_OUI_TYPE : UInt8 := 0x01

/-- The size of the buffer of `threadMain`. -/
def RECEIVE_SIZE : Nat := 4096

def uint (n : Nat) : Nat := n % 2 ^ 32

/-! ## Building -/

/-- The bytes of an address in network order. -/
def addressBytes (address : Address) : List UInt8 :=
  (List.range 4).map fun i => UInt8.ofNat (octet address i)

/-- The bytes of a port in network order. -/
def portBytes (port : UInt16) : List UInt8 :=
  [UInt8.ofNat (port.toNat / 256), UInt8.ofNat port.toNat]

/-- The length of the id as it is sent. -/
def sentIdLength (peerId : List UInt8) : Nat :=
  let peerIdLen := uint peerId.length
  if peerIdLen > 64 then 64 else peerIdLen

/-- `address` is what `inet_aton` left in its variable. -/
def vendorPayload (injector : WifiBeaconInjector) (address : Address) : List UInt8 :=
  let peerIdLen := sentIdLength injector.peerId
  ALPINE_OUI ++ [ALPINE_OUI_TYPE, 0x01, UInt8.ofNat injector.capabilities.toNat] ++
    addressBytes address ++ portBytes injector.port ++ portBytes injector.restPort ++
    [UInt8.ofNat peerIdLen] ++ injector.peerId.take peerIdLen

/-- `stack` is what was in the variable for the address before. -/
def buildVendorIE (injector : WifiBeaconInjector) (stack : Address) : List UInt8 :=
  let payloadLen := 3 + 1 + 1 + 1 + 4 + 2 + 2 + 1 + sentIdLength injector.peerId
  [0xDD, UInt8.ofNat payloadLen] ++
    injector.vendorPayload ((inetAton injector.ipAddress).getD stack)

def macHeader (injector : WifiBeaconInjector) : List UInt8 :=
  [0x80, 0x00, 0x00, 0x00] ++ List.replicate 6 0xFF ++ injector.localMac.val ++
    injector.localMac.val ++ [0x00, 0x00]

def fixedParameters : List UInt8 := List.replicate 8 0 ++ [0x64, 0x00, 0x01, 0x00]

def ssidIE : List UInt8 := [0x00, 0x00]

def buildBeaconFrame (injector : WifiBeaconInjector) (stack : Address) (bufferSize : Nat) :
    List UInt8 :=
  if bufferSize < 200 then []
  else
    radiotapHeader ++ injector.macHeader ++ fixedParameters ++ ssidIE ++
      injector.buildVendorIE stack

/-! ## Parsing -/

/-- An address from its bytes. -/
def ofAddressBytes : List UInt8 → Address
  | [a, b, c, d] => ofOctets a.toNat b.toNat c.toNat d.toNat
  | _ => 0

def ofPortBytes : List UInt8 → UInt16
  | [high, low] => UInt16.ofNat (high.toNat * 256 + low.toNat)
  | _ => 0

/-- The element that begins at `ie`. The outer `none` is a read outside of the data, the inner one
is `false`. -/
def parseVendorIE (injector : WifiBeaconInjector) (data : List UInt8) (ie ieLen : Nat) :
    Option (Option DiscoveredPeer) :=
  if ieLen < 15 then some none
  else (readBytes data ie 3).bind fun oui =>
    if oui ≠ ALPINE_OUI then some none
    else data[ie + 3]?.bind fun ouiType =>
      if ouiType ≠ ALPINE_OUI_TYPE then some none
      else data[ie + 4]?.bind fun protoVersion =>
        data[ie + 5]?.bind fun caps =>
        (readBytes data (ie + 6) 4).bind fun ip =>
        (readBytes data (ie + 10) 2).bind fun peerPort =>
        (readBytes data (ie + 12) 2).bind fun peerRestPort =>
        data[ie + 14]?.bind fun idLen =>
          if idLen.toNat > 64 ∨ 15 + idLen.toNat > ieLen then some none
          else (readBytes data (ie + 15) idLen.toNat).bind fun peerId =>
            if peerId = [] then some none
            else
              let ipStr := dotted (ofAddressBytes ip)
              let peerPort := ofPortBytes peerPort
              if ipStr = injector.ipAddress ∧ peerPort = injector.port then some none
              else
                some (some
                  { peerId, ipAddress := ipStr, port := peerPort
                    restPort := ofPortBytes peerRestPort, protocolVersion := protoVersion.toNat
                    capabilities := caps.toNat })

/-- The loop over the tagged parameters, and the peers it reports. `none` is a read outside of the
data, or that the passes do not suffice. -/
def parseTags (injector : WifiBeaconInjector) (data : List UInt8) :
    Nat → Nat → Option (List DiscoveredPeer)
  | 0, _ => none
  | passes + 1, ieOffset =>
    if uint (ieOffset + 2) ≤ data.length then
      data[ieOffset]?.bind fun tag =>
        data[uint (ieOffset + 1)]?.bind fun tagLen =>
          if uint (ieOffset + 2 + tagLen.toNat) > data.length then some []
          else
            let reported :=
              if tag = 0xDD ∧ tagLen.toNat ≥ 4 then
                injector.parseVendorIE data (ieOffset + 2) tagLen.toNat
              else some none
            reported.bind fun peer =>
              (injector.parseTags data passes (uint (ieOffset + 2 + tagLen.toNat))).map
                (peer.toList ++ ·)
    else some []

/-- The peers that are reported. -/
def parseBeaconFrame (injector : WifiBeaconInjector) (data : List UInt8) :
    Option (List DiscoveredPeer) :=
  let length := data.length
  if length < 44 then some []
  else (radiotapLength data).bind fun rtLen =>
    if rtLen ≥ length then some []
    else
      let macOffset := rtLen
      if macOffset + 24 > length then some []
      else data[macOffset]?.bind fun low =>
        data[macOffset + 1]?.bind fun high =>
          if low ≠ 0x80 ∨ high ≠ 0x00 then some []
          else
            let ieOffset := macOffset + 24 + 12
            if ieOffset ≥ length then some []
            else injector.parseTags data length ieOffset

/-- What `threadMain` does with a frame that arrives: `recv` hands over what fits its buffer. -/
def receive (injector : WifiBeaconInjector) (captured : List UInt8) :
    Option (List DiscoveredPeer) :=
  let received := captured.take RECEIVE_SIZE
  if received.length > 0 then injector.parseBeaconFrame received else some []

/-! ## Every byte string -/

variable (injector : WifiBeaconInjector) {data : List UInt8}

theorem bind_isSome {α β : Type} {x : Option α} {f : α → Option β} (hx : x.isSome)
    (hf : ∀ a, x = some a → (f a).isSome) : (x.bind f).isSome := by
  obtain ⟨a, rfl⟩ := Option.isSome_iff_exists.mp hx
  exact hf a rfl

theorem readBytes_isSome {off len : Nat} (h : off + len ≤ data.length) :
    (readBytes data off len).isSome := by
  rw [readBytes, if_pos h]
  rfl

theorem getElem?_isSome {i : Nat} (h : i < data.length) : (data[i]?).isSome := by
  rw [List.getElem?_eq_getElem h]
  rfl

theorem ite_isSome {α : Type} {p : Prop} [Decidable p] {x y : Option α} (hx : p → x.isSome)
    (hy : ¬ p → y.isSome) : (if p then x else y).isSome := by
  split
  · next h => exact hx h
  · next h => exact hy h

/-- An element that lies inside of the data is read inside. -/
theorem parseVendorIE_isSome {ie ieLen : Nat} (h : ie + ieLen ≤ data.length) :
    (injector.parseVendorIE data ie ieLen).isSome := by
  unfold parseVendorIE
  refine ite_isSome (fun _ => rfl) fun hlong => ?_
  refine bind_isSome (readBytes_isSome (by omega)) fun oui _ => ite_isSome (fun _ => rfl) fun _ => ?_
  refine bind_isSome (getElem?_isSome (by omega)) fun ouiType _ =>
    ite_isSome (fun _ => rfl) fun _ => ?_
  refine bind_isSome (getElem?_isSome (by omega)) fun protoVersion _ => ?_
  refine bind_isSome (getElem?_isSome (by omega)) fun caps _ => ?_
  refine bind_isSome (readBytes_isSome (by omega)) fun ip _ => ?_
  refine bind_isSome (readBytes_isSome (by omega)) fun peerPort _ => ?_
  refine bind_isSome (readBytes_isSome (by omega)) fun peerRestPort _ => ?_
  refine bind_isSome (getElem?_isSome (by omega)) fun idLen _ =>
    ite_isSome (fun _ => rfl) fun hid => ?_
  refine bind_isSome (readBytes_isSome (by omega)) fun peerId _ =>
    ite_isSome (fun _ => rfl) fun _ => ?_
  exact ite_isSome (fun _ => rfl) fun _ => rfl

theorem uint_of_lt {n : Nat} (h : n < 2 ^ 32) : uint n = n := Nat.mod_eq_of_lt h

/-- Each pass takes two bytes at least, so that as many passes as there are bytes left suffice. No
sum of offsets overflows in data that are shorter by 256 bytes than the longest. -/
theorem parseTags_isSome (hdata : data.length + 257 ≤ 2 ^ 32) (passes ieOffset : Nat)
    (hinside : ieOffset ≤ data.length) (hpasses : data.length < ieOffset + passes) :
    (injector.parseTags data passes ieOffset).isSome := by
  induction passes generalizing ieOffset with
  | zero => omega
  | succ passes ih =>
    unfold parseTags
    rw [uint_of_lt (by omega), uint_of_lt (by omega)]
    refine ite_isSome (fun htwo => ?_) fun _ => rfl
    refine bind_isSome (getElem?_isSome (by omega)) fun tag _ => ?_
    refine bind_isSome (getElem?_isSome (by omega)) fun tagLen _ => ?_
    have htag := tagLen.toNat_lt
    rw [uint_of_lt (by omega)]
    refine ite_isSome (fun _ => rfl) fun hfits => ?_
    dsimp only
    refine bind_isSome (ite_isSome (fun _ => parseVendorIE_isSome injector (by omega)) fun _ => rfl)
      fun peer _ => ?_
    rw [Option.isSome_map]
    exact ih _ (by omega) (by omega)

theorem parseBeaconFrame_isSome (hdata : data.length + 257 ≤ 2 ^ 32) :
    (injector.parseBeaconFrame data).isSome := by
  unfold parseBeaconFrame
  refine ite_isSome (fun _ => rfl) fun hlong => ?_
  have hradiotap : (radiotapLength data).isSome := by
    unfold radiotapLength
    rw [List.getElem?_eq_getElem (by omega), List.getElem?_eq_getElem (by omega)]
    rfl
  refine bind_isSome hradiotap fun rtLen _ => ite_isSome (fun _ => rfl) fun hrt => ?_
  refine ite_isSome (fun _ => rfl) fun hmac => ?_
  refine bind_isSome (getElem?_isSome (by omega)) fun low _ => ?_
  refine bind_isSome (getElem?_isSome (by omega)) fun high _ => ite_isSome (fun _ => rfl) fun _ => ?_
  refine ite_isSome (fun _ => rfl) fun hie => ?_
  exact parseTags_isSome injector hdata _ _ (by omega) (by omega)

theorem receive_isSome (captured : List UInt8) : (injector.receive captured).isSome := by
  unfold receive
  have hlength : (captured.take RECEIVE_SIZE).length ≤ RECEIVE_SIZE := List.length_take_le _ _
  rw [RECEIVE_SIZE] at hlength
  exact ite_isSome (fun _ => parseBeaconFrame_isSome injector (by rw [RECEIVE_SIZE]; omega))
    fun _ => rfl

/-! ## Frames that were built -/

variable {injector}

theorem length_addressBytes (address : Address) : (addressBytes address).length = 4 := rfl

theorem ofAddressBytes_addressBytes (address : Address) :
    ofAddressBytes (addressBytes address) = address := by
  have hoctet : ∀ i, (UInt8.ofNat (octet address i)).toNat = octet address i := fun i => by
    have hlt : octet address i < 2 ^ 8 := Nat.mod_lt _ (by decide)
    rw [UInt8.toNat_ofNat', Nat.mod_eq_of_lt hlt]
  show ofOctets (UInt8.ofNat (octet address 0)).toNat _ _ _ = address
  rw [hoctet, hoctet, hoctet, hoctet, ofOctets_octet]

theorem ofPortBytes_portBytes (port : UInt16) : ofPortBytes (portBytes port) = port := by
  show UInt16.ofNat _ = port
  apply UInt16.toNat_inj.mp
  have hlt := port.toNat_lt
  rw [UInt16.toNat_ofNat', UInt8.toNat_ofNat', UInt8.toNat_ofNat']
  omega

theorem sentIdLength_le (peerId : List UInt8) : sentIdLength peerId ≤ 64 := by
  unfold sentIdLength
  dsimp only
  split <;> omega

/-- The length is taken as a 32-bit word before it is compared. -/
theorem sentIdLength_eq {peerId : List UInt8} (h : peerId.length < 2 ^ 32) :
    sentIdLength peerId = min 64 peerId.length := by
  unfold sentIdLength
  rw [uint_of_lt h]
  dsimp only
  split <;> omega

theorem length_take_sent (peerId : List UInt8) :
    (peerId.take (sentIdLength peerId)).length = sentIdLength peerId := by
  rw [List.length_take, min_eq_left]
  unfold sentIdLength
  have hmod : uint peerId.length ≤ peerId.length := Nat.mod_le _ _
  dsimp only
  split <;> omega

theorem length_vendorPayload (address : Address) :
    (injector.vendorPayload address).length = 15 + sentIdLength injector.peerId := by
  unfold vendorPayload
  simp only [List.length_append, length_take_sent, length_addressBytes, portBytes, ALPINE_OUI,
    List.length_cons, List.length_nil]

theorem length_macHeader : injector.macHeader.length = 24 := by
  have hmac := injector.localMac.property
  unfold macHeader
  simp only [List.length_append, hmac, List.length_replicate, List.length_cons, List.length_nil]

theorem length_buildBeaconFrame_le (injector : WifiBeaconInjector) (stack : Address)
    (bufferSize : Nat) : (injector.buildBeaconFrame stack bufferSize).length ≤ bufferSize := by
  have hid := sentIdLength_le injector.peerId
  unfold buildBeaconFrame
  split
  · exact Nat.zero_le _
  · have hvendor := injector.length_vendorPayload ((inetAton injector.ipAddress).getD stack)
    simp only [List.length_append, length_macHeader, buildVendorIE, hvendor, radiotapHeader,
      fixedParameters, ssidIE, List.length_replicate, List.length_cons, List.length_nil]
    omega

theorem readBytes_at (before bytes after : List UInt8) {off len : Nat}
    (hdata : data = before ++ (bytes ++ after)) (hoff : off = before.length)
    (hlen : len = bytes.length) : readBytes data off len = some bytes := by
  rw [hdata]
  exact WifiLink.readBytes_append before bytes after hoff hlen

theorem getElem?_at (before after : List UInt8) (byte : UInt8) {off : Nat}
    (hdata : data = before ++ byte :: after) (hoff : off = before.length) :
    data[off]? = some byte := by
  rw [hdata, hoff, List.getElem?_append_right le_rfl, Nat.sub_self]
  rfl

/-- What an element that was built says. -/
def announced (injector : WifiBeaconInjector) (address : Address) : DiscoveredPeer where
  peerId := injector.peerId.take (sentIdLength injector.peerId)
  ipAddress := dotted address
  port := injector.port
  restPort := injector.restPort
  protocolVersion := 1
  capabilities := injector.capabilities.toNat % 256

/-- The fields of an element, one after the other. -/
theorem parseVendorIE_fields (receiver : WifiBeaconInjector)
    (before after ip port rest id : List UInt8)
    (caps : UInt8) (hip : ip.length = 4) (hport : port.length = 2) (hrest : rest.length = 2)
    (hid : id.length ≤ 64) (hne : id ≠ [])
    (hdata : data = before ++ (ALPINE_OUI ++ (ALPINE_OUI_TYPE :: 0x01 :: caps :: (ip ++ (port ++
      (rest ++ (UInt8.ofNat id.length :: (id ++ after)))))))) :
    receiver.parseVendorIE data before.length (15 + id.length) =
      if dotted (ofAddressBytes ip) = receiver.ipAddress ∧ ofPortBytes port = receiver.port then
        some none
      else
        some (some
          { peerId := id, ipAddress := dotted (ofAddressBytes ip), port := ofPortBytes port
            restPort := ofPortBytes rest, protocolVersion := 1, capabilities := caps.toNat }) := by
  have hbyte : (UInt8.ofNat id.length).toNat = id.length := by
    rw [UInt8.toNat_ofNat', Nat.mod_eq_of_lt (by omega)]
  have houi : ALPINE_OUI.length = 3 := rfl
  have h0 : readBytes data before.length 3 = some ALPINE_OUI := readBytes_at _ _ _ hdata rfl rfl
  have h3 : data[before.length + 3]? = some ALPINE_OUI_TYPE :=
    getElem?_at (before ++ ALPINE_OUI) _ _ (hdata.trans (List.append_assoc _ _ _).symm)
      (by simp [houi])
  have hhead := hdata
  rw [← List.append_assoc, List.append_cons] at hhead
  have h4 : data[before.length + 4]? = some 0x01 :=
    getElem?_at _ _ _ hhead (by simp [houi])
  rw [List.append_cons] at hhead
  have h5 : data[before.length + 5]? = some caps :=
    getElem?_at _ _ _ hhead (by simp [houi])
  rw [List.append_cons] at hhead
  have h6 : readBytes data (before.length + 6) 4 = some ip :=
    readBytes_at _ _ _ hhead (by simp [houi]) hip.symm
  rw [← List.append_assoc] at hhead
  have h10 : readBytes data (before.length + 10) 2 = some port :=
    readBytes_at _ _ _ hhead (by simp [houi, hip]) hport.symm
  rw [← List.append_assoc] at hhead
  have h12 : readBytes data (before.length + 12) 2 = some rest :=
    readBytes_at _ _ _ hhead (by simp [houi, hip, hport]) hrest.symm
  rw [← List.append_assoc] at hhead
  have h14 : data[before.length + 14]? = some (UInt8.ofNat id.length) :=
    getElem?_at _ _ _ hhead (by simp [houi, hip, hport, hrest])
  rw [List.append_cons] at hhead
  have h15 : readBytes data (before.length + 15) id.length = some id :=
    readBytes_at _ _ _ hhead (by simp [houi, hip, hport, hrest]) rfl
  unfold parseVendorIE
  rw [if_neg (by omega), h0, Option.bind_some, if_neg (by simp), h3, Option.bind_some,
    if_neg (by simp), h4, Option.bind_some, h5, Option.bind_some, h6, Option.bind_some, h10,
    Option.bind_some, h12, Option.bind_some, h14, Option.bind_some, hbyte, if_neg (by omega), h15,
    Option.bind_some, if_neg hne]
  rfl

theorem parseVendorIE_vendorPayload (receiver : WifiBeaconInjector) (before after : List UInt8)
    {address : Address} (hid : sentIdLength injector.peerId ≠ 0)
    (hother : ¬ (dotted address = receiver.ipAddress ∧ injector.port = receiver.port)) :
    receiver.parseVendorIE (before ++ (injector.vendorPayload address ++ after)) before.length
        (injector.vendorPayload address).length = some (some (injector.announced address)) := by
  have hsent := sentIdLength_le injector.peerId
  have htake := length_take_sent injector.peerId
  have hne : injector.peerId.take (sentIdLength injector.peerId) ≠ [] := fun hnil => by
    rw [hnil] at htake
    exact hid htake.symm
  have hflat : before ++ (injector.vendorPayload address ++ after) =
      before ++ (ALPINE_OUI ++ (ALPINE_OUI_TYPE :: 0x01 ::
        UInt8.ofNat injector.capabilities.toNat :: (addressBytes address ++ (portBytes injector.port ++
          (portBytes injector.restPort ++
            (UInt8.ofNat (injector.peerId.take (sentIdLength injector.peerId)).length ::
              (injector.peerId.take (sentIdLength injector.peerId) ++ after))))))) := by
    rw [htake]
    unfold vendorPayload
    simp only [List.append_assoc, List.cons_append, List.nil_append]
  have hfields := parseVendorIE_fields receiver before after _ _ _ _ _ rfl rfl rfl
    (htake.trans_le hsent) hne hflat
  rw [htake, ofAddressBytes_addressBytes, ofPortBytes_portBytes, ofPortBytes_portBytes,
    if_neg hother, UInt8.toNat_ofNat'] at hfields
  rw [length_vendorPayload]
  exact hfields

/-- Behind the element that was built the loop ends. -/
theorem parseTags_end {passes ieOffset : Nat} (hdata : data.length + 2 < 2 ^ 32)
    (hend : ieOffset = data.length) :
    injector.parseTags data (passes + 1) ieOffset = some [] := by
  unfold parseTags
  rw [uint_of_lt (by omega), if_neg (by omega)]

/-- One pass, over an element that lies inside of the data. -/
theorem parseTags_element {passes ieOffset : Nat} {tag tagLen : UInt8}
    {reported : Option DiscoveredPeer} (hdata : data.length < 2 ^ 32)
    (htag : data[ieOffset]? = some tag) (htagLen : data[ieOffset + 1]? = some tagLen)
    (hfits : ieOffset + 2 + tagLen.toNat ≤ data.length)
    (hreported : (if tag = 0xDD ∧ tagLen.toNat ≥ 4 then
      injector.parseVendorIE data (ieOffset + 2) tagLen.toNat else some none) = some reported) :
    injector.parseTags data (passes + 1) ieOffset =
      (injector.parseTags data passes (ieOffset + 2 + tagLen.toNat)).map (reported.toList ++ ·) := by
  rw [parseTags, uint_of_lt (by omega), if_pos (by omega), htag, Option.bind_some,
    uint_of_lt (by omega), htagLen, Option.bind_some, uint_of_lt (by omega), if_neg (by omega)]
  dsimp only
  rw [hreported, Option.bind_some]

/-- The tagged parameters of a beacon that was built: an empty SSID and the element. -/
theorem parseTags_build (receiver : WifiBeaconInjector) (stack : Address) {address : Address}
    (before : List UInt8) (passes : Nat) (hbefore : before.length < 2 ^ 31)
    (hip : injector.ipAddress = dotted address) (hid : sentIdLength injector.peerId ≠ 0)
    (hother : ¬ (dotted address = receiver.ipAddress ∧ injector.port = receiver.port)) :
    receiver.parseTags (before ++ (ssidIE ++ injector.buildVendorIE stack)) (passes + 3)
        before.length = some [injector.announced address] := by
  have hsent := sentIdLength_le injector.peerId
  have hvendor := injector.length_vendorPayload address
  have hbuild : injector.buildVendorIE stack =
      0xDD :: UInt8.ofNat (15 + sentIdLength injector.peerId) :: injector.vendorPayload address := by
    unfold buildVendorIE
    rw [hip, inetAton_dotted]
    rfl
  have hlen : (UInt8.ofNat (15 + sentIdLength injector.peerId)).toNat =
      15 + sentIdLength injector.peerId := by
    rw [UInt8.toNat_ofNat', Nat.mod_eq_of_lt (by omega)]
  generalize hdata : before ++ (ssidIE ++ injector.buildVendorIE stack) = data
  have hssid : data = before ++ 0x00 :: 0x00 :: 0xDD ::
      UInt8.ofNat (15 + sentIdLength injector.peerId) :: injector.vendorPayload address := by
    rw [← hdata, hbuild]
    rfl
  have hlength : data.length = before.length + 4 + (15 + sentIdLength injector.peerId) := by
    rw [hssid, List.length_append]
    simp only [List.length_cons, hvendor]
    omega
  have h0 : data[before.length]? = some 0x00 := getElem?_at _ _ _ hssid rfl
  have hhead := hssid
  rw [List.append_cons] at hhead
  have h1 : data[before.length + 1]? = some 0x00 := getElem?_at _ _ _ hhead (by simp)
  rw [List.append_cons] at hhead
  have h2 : data[before.length + 2]? = some 0xDD := getElem?_at _ _ _ hhead (by simp)
  rw [List.append_cons] at hhead
  have h3 : data[before.length + 3]? = some (UInt8.ofNat (15 + sentIdLength injector.peerId)) :=
    getElem?_at _ _ _ hhead (by simp)
  rw [List.append_cons] at hhead
  have hparse := parseVendorIE_vendorPayload receiver (before ++ [0x00] ++ [0x00] ++ [0xDD] ++
    [UInt8.ofNat (15 + sentIdLength injector.peerId)]) [] hid hother
  rw [List.append_nil, ← hhead, hvendor] at hparse
  simp only [List.length_append, List.length_singleton] at hparse
  -- the SSID, which is empty
  have hfirst : receiver.parseTags data (passes + 3) before.length =
      (receiver.parseTags data (passes + 2) (before.length + 2)).map (none.toList ++ ·) :=
    parseTags_element (by omega) h0 h1 (by show before.length + 2 + 0 ≤ _; omega) rfl
  -- the element of the vendor
  have hsecond : receiver.parseTags data (passes + 2) (before.length + 2) =
      (receiver.parseTags data (passes + 1)
        (before.length + 2 + 2 + (UInt8.ofNat (15 + sentIdLength injector.peerId)).toNat)).map
          ((some (injector.announced address)).toList ++ ·) := by
    refine parseTags_element (by omega) h2 h3 (by omega) ?_
    rw [hlen, if_pos ⟨rfl, by omega⟩]
    exact hparse
  have hlast : receiver.parseTags data (passes + 1)
      (before.length + 2 + 2 + (UInt8.ofNat (15 + sentIdLength injector.peerId)).toNat) = some [] :=
    parseTags_end (by omega) (by omega)
  rw [hfirst, hsecond, hlast]
  rfl

/-- Another node reports the peer of a beacon that was built, behind whichever radiotap header the
beacon reaches it. -/
theorem parseBeaconFrame_build (receiver : WifiBeaconInjector) (radiotap : Radiotap)
    (stack : Address) {address : Address} (hip : injector.ipAddress = dotted address)
    (hid : sentIdLength injector.peerId ≠ 0)
    (hother : ¬ (dotted address = receiver.ipAddress ∧ injector.port = receiver.port)) :
    receiver.parseBeaconFrame (radiotap.bytes ++ (injector.macHeader ++ (fixedParameters ++
      (ssidIE ++ injector.buildVendorIE stack)))) = some [injector.announced address] := by
  have hmac := injector.length_macHeader
  have hradiotap := WifiLink.radiotapLength_append radiotap
    (injector.macHeader ++ (fixedParameters ++ (ssidIE ++ injector.buildVendorIE stack)))
  have hlong := radiotap.long
  rw [RADIOTAP_HDR_SIZE] at hlong
  have hsmall : radiotap.bytes.length < 2 ^ 16 := by
    have hdeclared := radiotap.declared
    unfold radiotapLength at hdeclared
    obtain ⟨low, -, hhigh⟩ := Option.bind_eq_some_iff.mp hdeclared
    obtain ⟨high, -, hsum⟩ := Option.bind_eq_some_iff.mp hhigh
    rw [← Option.some.inj hsum]
    have hlow := low.toNat_lt
    have hhigh' := high.toNat_lt
    omega
  have hfixed : fixedParameters.length = 12 := rfl
  have hvendor : (ssidIE ++ injector.buildVendorIE stack).length =
      4 + (15 + sentIdLength injector.peerId) := by
    rw [buildVendorIE, List.length_append, List.length_append, length_vendorPayload]
    simp only [ssidIE, List.length_cons, List.length_nil]
    omega
  have hflat : radiotap.bytes ++ (injector.macHeader ++ (fixedParameters ++
      (ssidIE ++ injector.buildVendorIE stack))) =
        radiotap.bytes ++ (injector.macHeader ++ fixedParameters) ++
          (ssidIE ++ injector.buildVendorIE stack) := by
    simp only [List.append_assoc]
  generalize hdata : radiotap.bytes ++ (injector.macHeader ++ (fixedParameters ++
    (ssidIE ++ injector.buildVendorIE stack))) = data at hradiotap hflat ⊢
  have hlength : data.length = radiotap.bytes.length + 36 + 4 +
      (15 + sentIdLength injector.peerId) := by
    rw [hflat, List.length_append, List.length_append, List.length_append, hmac, hfixed, hvendor]
    omega
  have htags := parseTags_build receiver stack
    (radiotap.bytes ++ (injector.macHeader ++ fixedParameters)) (data.length - 3)
    (by simp only [List.length_append, hmac, hfixed]; omega) hip hid hother
  have hbefore : (radiotap.bytes ++ (injector.macHeader ++ fixedParameters)).length =
      radiotap.bytes.length + 24 + 12 := by
    rw [List.length_append, List.length_append, hmac, hfixed]
  rw [← hflat, hbefore, Nat.sub_add_cancel (by omega)] at htags
  have hbeacon : data = radiotap.bytes ++ 0x80 :: 0x00 :: (injector.macHeader.drop 2 ++
      (fixedParameters ++ (ssidIE ++ injector.buildVendorIE stack))) := hdata.symm
  have hlow : data[radiotap.bytes.length]? = some 0x80 := getElem?_at _ _ _ hbeacon rfl
  rw [List.append_cons] at hbeacon
  have hhigh : data[radiotap.bytes.length + 1]? = some 0x00 := getElem?_at _ _ _ hbeacon (by simp)
  unfold parseBeaconFrame
  dsimp only
  rw [if_neg (by omega), hradiotap, Option.bind_some, if_neg (by omega), if_neg (by omega), hlow,
    Option.bind_some, hhigh, Option.bind_some, if_neg (by decide), if_neg (by omega)]
  exact htags

/-- The header that `buildBeaconFrame` puts in front. -/
def ownRadiotap : Radiotap where
  bytes := radiotapHeader
  long := le_rfl
  declared := rfl

/-- A beacon tells another node who and where its sender is, and how much of a long id; no frame is
longer than the buffer; and whatever arrives is parsed to its end, inside of what was received. -/
theorem beacon_codec {sender receiver : WifiBeaconInjector} {address : Address} {stack : Address}
    {bufferSize : Nat} (hbuffer : 200 ≤ bufferSize) (hip : sender.ipAddress = dotted address)
    (hpos : 0 < sender.peerId.length) (hlength : sender.peerId.length < 2 ^ 32)
    (hother : ¬ (receiver.ipAddress = sender.ipAddress ∧ receiver.port = sender.port)) :
    receiver.parseBeaconFrame (sender.buildBeaconFrame stack bufferSize) =
        some [
          { peerId := sender.peerId.take 64, ipAddress := sender.ipAddress, port := sender.port
            restPort := sender.restPort, protocolVersion := 1
            capabilities := sender.capabilities.toNat % 256 }] ∧
      (∀ (injector : WifiBeaconInjector) (stack : Address) (bufferSize : Nat),
        (injector.buildBeaconFrame stack bufferSize).length ≤ bufferSize) ∧
      (∀ (injector : WifiBeaconInjector) (captured : List UInt8),
        (injector.receive captured).isSome) ∧
      ∀ (injector : WifiBeaconInjector) (data : List UInt8), data.length + 257 ≤ 2 ^ 32 →
        (injector.parseBeaconFrame data).isSome := by
  refine ⟨?_, length_buildBeaconFrame_le, receive_isSome, fun _ _ => parseBeaconFrame_isSome _⟩
  have hsent := sentIdLength_eq hlength
  have hparse := parseBeaconFrame_build receiver ownRadiotap stack hip (by omega)
    (fun h => hother ⟨h.1.symm.trans hip.symm, h.2.symm⟩)
  have hframe : sender.buildBeaconFrame stack bufferSize =
      ownRadiotap.bytes ++ (sender.macHeader ++ (fixedParameters ++
        (ssidIE ++ sender.buildVendorIE stack))) := by
    rw [buildBeaconFrame, if_neg (by omega)]
    simp only [List.append_assoc]
    rfl
  have hid : sender.peerId.take (min 64 sender.peerId.length) = sender.peerId.take 64 := by
    rw [List.take_eq_take_iff, min_assoc, min_self]
  rw [hframe, hparse, announced, hsent, hid, hip]

def bridgeNode : WifiBeaconInjector where
  localMac := ⟨[2, 0, 0, 0, 0, 1], rfl⟩
  peerId := "bridge-7".toUTF8.toList
  ipAddress := dotted 0xC0A80107#32
  port := 5150
  restPort := 8080
  capabilities := 3

def otherNode : WifiBeaconInjector :=
  { bridgeNode with peerId := "server-9".toUTF8.toList, ipAddress := dotted 0xC0A80109#32 }

theorem bridgeNode_reported :
    otherNode.parseBeaconFrame (bridgeNode.buildBeaconFrame 0 512) =
      some [
        { peerId := bridgeNode.peerId.take 64, ipAddress := bridgeNode.ipAddress, port := 5150
          restPort := 8080, protocolVersion := 1, capabilities := 3 % 256 }] :=
  (beacon_codec (by decide) rfl (by decide +kernel) (by decide +kernel)
    fun h => absurd h.1 (by decide +kernel)).1

end WifiBeaconInjector

end Alpine
