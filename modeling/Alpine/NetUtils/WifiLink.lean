import Alpine.NetUtils.RawWifiConnection

/-!
# What a raw Wi-Fi link carries

A frame reaches a receiver with that receiver's radiotap header (`capture`). Every byte string is
parsed inside its bounds (`parseDataFrame_inside`), and a frame of `transmit` gives its payload back
behind every radiotap header (`parseDataFrame_header`). `Carried` is what a datagram should meet;
as the source is always zero and the destination is not compared, it does so in the cases of `Fits`
only (`carried_iff`).
-/

namespace Alpine

open Lib RawWifiConnection

/-- A radiotap header, which says its own length. -/
structure Radiotap where
  bytes : List UInt8
  long : RADIOTAP_HDR_SIZE ≤ bytes.length
  declared : radiotapLength bytes = some bytes.length

/-- A frame as another station's socket shows it. -/
def capture (radiotap : Radiotap) (frame : List UInt8) : List UInt8 :=
  radiotap.bytes ++ frame.drop RADIOTAP_HDR_SIZE

/-- A datagram and what is around it; both ends use the same channel. -/
structure Exchange where
  channel : CovertChannel
  /-- The sender's socket takes the frame. -/
  sent : Bool
  dest : WifiAddress
  data : WifiDatagram
  radiotap : Radiotap
  bufferLength : Nat
  /-- What the receiver's variable for the source holds before. -/
  sourceIpAddress : UInt64

namespace WifiLink

/-- The datagram is for the receiver and fits its buffer. -/
def ForReceiver (x : Exchange) (receiver : WifiAddress) : Prop :=
  x.dest = receiver ∧ x.data.val.length ≤ x.bufferLength

/-- An accepted datagram arrives with its sender's address if it is for the receiver and fits the
buffer, and does not arrive otherwise. -/
structure Carried (send : Sent) (receive : List UInt8 → Option (Option Received))
    (sender receiver : WifiAddress) (x : Exchange) : Prop where
  whole : send ≠ .crashed
  delivered : ∀ bytes, send = .frame bytes → ForReceiver x receiver →
    receive (capture x.radiotap bytes) = some (some ⟨x.data.val, sender.ip, sender.port⟩)
  withheld : ∀ bytes, send = .frame bytes → ¬ ForReceiver x receiver →
    receive (capture x.radiotap bytes) = some none

/-- The room that is left in a receiver's frame for the data. -/
def room (x : Exchange) : Nat := FRAME_SIZE - (x.radiotap.bytes.length + 44)

/-- The receiver gets as far as the data. -/
def Reaches (receiver : RawWifiConnection) (x : Exchange) : Prop :=
  receiver.opened = true ∧ x.radiotap.bytes.length + 44 ≤ FRAME_SIZE

/-- The exact condition. A datagram that the sender takes is for the receiver, fits the buffer and
the receiver's frame, and comes from the address of which all that is received is zero. One that
the receiver does not get to must not have been for it. -/
def Fits (sender receiver : RawWifiConnection) (x : Exchange) : Prop :=
  sender.opened = true →
    (x.channel.enabled = true → x.channel.key.length % 2 ^ 32 ≠ 0 ∨ x.data.val = []) ∧
    x.data.val.length + 52 < 2 ^ 32 ∧
    (x.data.val.length + 52 ≤ FRAME_SIZE → x.sent = true →
      (Reaches receiver x → ForReceiver x receiver.address ∧
        x.data.val.length ≤ room x ∧
        sender.address = ⟨UInt64.ofNat (x.sourceIpAddress.toNat / 2 ^ 32 * 2 ^ 32), 0⟩) ∧
      (¬ Reaches receiver x → ¬ ForReceiver x receiver.address))

/-! ## Sending -/

variable {sender : RawWifiConnection} {channel : CovertChannel} {data : WifiDatagram}

theorem length_toBytes (k n : Nat) : (toBytes k n).length = k := by
  induction k generalizing n with
  | zero => rfl
  | succ k ih => rw [toBytes, List.length_cons, ih]

/-- What stands before the data. -/
def addressBytes (dest : WifiAddress) : List UInt8 :=
  toBytes 4 dest.ip.toNat ++ toBytes 2 dest.port.toNat ++ toBytes 4 0 ++ toBytes 2 0

theorem length_addressBytes (dest : WifiAddress) : (addressBytes dest).length = 12 := by
  simp only [addressBytes, List.length_append, length_toBytes]

theorem length_macHeader (localMac destMac : Mac) : (macHeader localMac destMac).length = 32 := by
  simp only [macHeader, dot11Header, llcHeader, alpineOui, alpineEtherType, List.length_append,
    List.length_cons, List.length_nil, List.length_replicate, localMac.property, destMac.property]

/-- With a key that can be divided by, what is sent is what is received, of the same length. -/
theorem exists_sendBuffer
    (h : channel.enabled = true → channel.key.length % 2 ^ 32 ≠ 0 ∨ data.val = []) :
    ∃ buffer, (if channel.enabled then channel.obfuscate data.val else some data.val) =
        some buffer ∧ buffer.length = data.val.length ∧
      (if channel.enabled then channel.deobfuscate buffer else some buffer) = some data.val := by
  by_cases henabled : channel.enabled = true
  · simp only [henabled, if_true]
    rcases h henabled with hkey | hnil
    · obtain ⟨buffer, hbuffer⟩ := CovertChannel.exists_obfuscate hkey data.val
      exact ⟨buffer, hbuffer, CovertChannel.length_obfuscate hbuffer,
        (CovertChannel.deobfuscate_eq_iff channel data.val buffer).mpr hbuffer⟩
    · rw [hnil]
      exact ⟨[], rfl, rfl, rfl⟩
  · simp only [henabled]
    exact ⟨data.val, rfl, rfl, rfl⟩

theorem addressedPayload_eq (dest : WifiAddress) {buffer : List UInt8}
    (h : buffer.length + 12 < 2 ^ 32) :
    addressedPayload dest buffer = some (addressBytes dest ++ buffer) := by
  unfold addressedPayload
  dsimp only
  rw [if_pos (by omega)]
  rfl

/-- A frame that was built is given to the socket. -/
def handOver (sent : Bool) : Sent → Sent
  | .frame bytes => if sent then .frame bytes else .refused
  | result => result

theorem transmit_of_payload {buffer payload : List UInt8} (destMac : Mac) (sent : Bool)
    (dest : WifiAddress) (hopened : sender.opened = true)
    (hbuffer : (if channel.enabled then channel.obfuscate data.val else some data.val) =
      some buffer) (hpayload : addressedPayload dest buffer = some payload) :
    sender.transmit channel destMac sent dest data =
      handOver sent (buildDataFrame sender.localMac destMac payload) := by
  rewrite [transmit, hopened, if_neg (by decide), hbuffer]
  dsimp only
  rewrite [hpayload]
  dsimp only
  unfold handOver
  cases buildDataFrame sender.localMac destMac payload <;> rfl

/-- What `transmit` does with a datagram, from an open connection. -/
theorem transmit_cases (channel : CovertChannel) (destMac : Mac) (sent : Bool) (dest : WifiAddress)
    (data : WifiDatagram) (hopened : sender.opened = true) :
    (sender.transmit channel destMac sent dest data = .crashed ∧
      ¬ ((channel.enabled = true → channel.key.length % 2 ^ 32 ≠ 0 ∨ data.val = []) ∧
        data.val.length + 52 < 2 ^ 32)) ∨
    ((channel.enabled = true → channel.key.length % 2 ^ 32 ≠ 0 ∨ data.val = []) ∧
      data.val.length + 52 < 2 ^ 32 ∧
      ((sender.transmit channel destMac sent dest data = .refused ∧
          ¬ (data.val.length + 52 ≤ FRAME_SIZE ∧ sent = true)) ∨
        (data.val.length + 52 ≤ FRAME_SIZE ∧ sent = true ∧ ∃ buffer,
          sender.transmit channel destMac sent dest data =
            .frame (radiotapHeader ++ macHeader sender.localMac destMac ++
              (addressBytes dest ++ buffer)) ∧
          buffer.length = data.val.length ∧
          (if channel.enabled then channel.deobfuscate buffer else some buffer) =
            some data.val))) := by
  by_cases hkey : channel.enabled = true → channel.key.length % 2 ^ 32 ≠ 0 ∨ data.val = []
  · obtain ⟨buffer, hbuffer, hlength, hback⟩ := exists_sendBuffer hkey
    have hshort := data.property
    by_cases hpayload : buffer.length + 12 < 2 ^ 32
    · have hsend := transmit_of_payload destMac sent dest hopened hbuffer
        (addressedPayload_eq dest hpayload)
      have htotal : (addressBytes dest ++ buffer).length = 12 + data.val.length := by
        rw [List.length_append, length_addressBytes, hlength]
      have hbuild : buildDataFrame sender.localMac destMac (addressBytes dest ++ buffer) =
          if (52 + data.val.length) % 2 ^ 32 > FRAME_SIZE then .refused
          else if 52 + data.val.length > FRAME_SIZE then .crashed
          else .frame (radiotapHeader ++ macHeader sender.localMac destMac ++
            (addressBytes dest ++ buffer)) := by
        unfold buildDataFrame
        dsimp only
        rw [htotal, show FRAME_OVERHEAD + (12 + data.val.length) = 52 + data.val.length by
          rw [FRAME_OVERHEAD, RADIOTAP_HDR_SIZE, DOT11_HDR_SIZE, LLC_SNAP_HDR_SIZE]; omega]
      rw [show FRAME_SIZE = 4096 from rfl] at *
      by_cases hlong : data.val.length + 52 < 2 ^ 32
      · refine .inr ⟨hkey, hlong, ?_⟩
        by_cases hfits : data.val.length + 52 ≤ 4096
        · rw [if_neg (by omega), if_neg (by omega)] at hbuild
          rw [hbuild] at hsend
          cases sent with
          | true => exact .inr ⟨hfits, rfl, buffer, hsend, hlength, hback⟩
          | false => exact .inl ⟨hsend, fun h => (by cases h.2)⟩
        · rw [if_pos (by omega)] at hbuild
          rw [hbuild] at hsend
          exact .inl ⟨hsend, fun h => hfits h.1⟩
      · rw [if_neg (by omega), if_pos (by omega)] at hbuild
        rw [hbuild] at hsend
        exact .inl ⟨hsend, fun h => hlong h.2⟩
    · have hnone : addressedPayload dest buffer = none := by
        unfold addressedPayload
        dsimp only
        rw [if_neg (by omega)]
      refine .inl ⟨?_, fun h => hpayload (by omega)⟩
      rw [transmit, hopened, if_neg (by decide), hbuffer]
      dsimp only
      rw [hnone]
  · obtain ⟨henabled, hnot⟩ := Classical.not_imp.mp hkey
    obtain ⟨hlen, hne⟩ := not_or.mp hnot
    refine .inl ⟨?_, fun h => hkey h.1⟩
    rw [transmit, hopened, if_neg (by decide), if_pos henabled,
      CovertChannel.obfuscate_none (not_not.mp hlen) hne]

/-! ## Parsing -/

variable {frame : List UInt8}

theorem readBytes_inside {off len : Nat} (h : off + len ≤ frame.length) :
    ∃ bytes, readBytes frame off len = some bytes ∧ bytes.length = len := by
  refine ⟨_, if_pos h, ?_⟩
  rw [List.length_take, List.length_drop]
  omega

theorem readBytes_append (a b c : List UInt8) {off len : Nat} (hoff : off = a.length)
    (hlen : len = b.length) : readBytes (a ++ (b ++ c)) off len = some b := by
  subst hoff hlen
  unfold readBytes
  rw [if_pos (by simp), List.drop_left, List.take_left]

theorem exists_radiotapLength (h : FRAME_OVERHEAD ≤ frame.length) :
    ∃ rtLen, radiotapLength frame = some rtLen := by
  rw [FRAME_OVERHEAD, RADIOTAP_HDR_SIZE, DOT11_HDR_SIZE, LLC_SNAP_HDR_SIZE] at h
  unfold radiotapLength
  rw [List.getElem?_eq_getElem (by omega), List.getElem?_eq_getElem (by omega)]
  exact ⟨_, rfl⟩

theorem radiotapLength_append (radiotap : Radiotap) (rest : List UInt8) :
    radiotapLength (radiotap.bytes ++ rest) = some radiotap.bytes.length := by
  have hlong := radiotap.long
  rw [RADIOTAP_HDR_SIZE] at hlong
  have hdeclared := radiotap.declared
  unfold radiotapLength at hdeclared ⊢
  rw [List.getElem?_append_left (by omega), List.getElem?_append_left (by omega)]
  exact hdeclared

/-- Every byte string is parsed inside its bounds, and a payload is what is left behind its
headers. -/
theorem parseDataFrame_inside (h : frame.length ≤ FRAME_SIZE) :
    ∃ parsed, parseDataFrame frame = some parsed ∧ ∀ payload, parsed = some payload →
      ∃ rtLen, radiotapLength frame = some rtLen ∧ rtLen + 32 + payload.length = frame.length := by
  have hrefused : ∃ parsed : Option (List UInt8), some none = some parsed ∧
      ∀ payload, parsed = some payload → ∃ rtLen, radiotapLength frame = some rtLen ∧
        rtLen + 32 + payload.length = frame.length :=
    ⟨none, rfl, fun _ heq => (by cases heq)⟩
  rw [FRAME_SIZE] at h
  unfold parseDataFrame
  dsimp only
  by_cases hlong : frame.length < FRAME_OVERHEAD
  · rw [if_pos hlong]
    exact hrefused
  obtain ⟨rtLen, hrt⟩ := exists_radiotapLength (Nat.not_lt.mp hlong)
  rw [if_neg hlong, hrt, Option.bind_some]
  rw [hrt] at hrefused
  by_cases hrtLen : rtLen ≥ frame.length
  · rw [if_pos hrtLen]
    exact hrefused
  rw [if_neg hrtLen]
  by_cases hdot11 : rtLen + DOT11_HDR_SIZE > frame.length
  · rw [if_pos hdot11]
    exact hrefused
  rw [if_neg hdot11, List.getElem?_eq_getElem (Nat.not_le.mp hrtLen), Option.bind_some]
  have hlt := Nat.not_le.mp hrtLen
  by_cases hcontrol : frame[rtLen] &&& 0x0C ≠ 0x08
  · rw [if_pos hcontrol]
    exact hrefused
  rw [if_neg hcontrol]
  by_cases hllc : rtLen + DOT11_HDR_SIZE + LLC_SNAP_HDR_SIZE > frame.length
  · rw [if_pos hllc]
    exact hrefused
  rw [if_neg hllc]
  rw [DOT11_HDR_SIZE, LLC_SNAP_HDR_SIZE] at hllc ⊢
  have hbounds : rtLen + 24 + 3 ≤ frame.length ∧ rtLen + 24 + 3 + 3 ≤ frame.length ∧
      rtLen + 24 + 6 + 2 ≤ frame.length ∧
      rtLen + 24 + 8 + (frame.length - (rtLen + 32)) ≤ frame.length := by omega
  obtain ⟨hllcBound, houiBound, htypeBound, hpayloadBound⟩ := hbounds
  obtain ⟨llc, hread, -⟩ := readBytes_inside hllcBound
  rw [hread, Option.bind_some]
  by_cases heq : llc ≠ llcHeader
  · rw [if_pos heq]
    exact hrefused
  obtain ⟨oui, hread, -⟩ := readBytes_inside houiBound
  rw [if_neg heq, hread, Option.bind_some]
  by_cases heq : oui ≠ alpineOui
  · rw [if_pos heq]
    exact hrefused
  obtain ⟨etherType, hread, -⟩ := readBytes_inside htypeBound
  rw [if_neg heq, hread, Option.bind_some]
  by_cases heq : etherType ≠ alpineEtherType
  · rw [if_pos heq]
    exact hrefused
  have hpayloadLen : (frame.length + 2 ^ 32 - (rtLen + 24 + 8)) % 2 ^ 32 =
      frame.length - (rtLen + 32) := by omega
  rw [if_neg heq, hpayloadLen, if_neg (by rw [FRAME_SIZE]; omega)]
  obtain ⟨payload, hread, hlength⟩ := readBytes_inside hpayloadBound
  rw [hread]
  refine ⟨_, rfl, ?_⟩
  rintro _ ⟨⟩
  exact ⟨rtLen, rfl, by rw [hlength]; omega⟩

/-- Behind any radiotap header, the payload of a frame is what was put into it. -/
theorem parseDataFrame_header (radiotap : Radiotap) (localMac destMac : Mac)
    (payload : List UInt8)
    (h : (radiotap.bytes ++ (macHeader localMac destMac ++ payload)).length ≤ FRAME_SIZE) :
    parseDataFrame (radiotap.bytes ++ (macHeader localMac destMac ++ payload)) =
      some (some payload) := by
  have hlength : (radiotap.bytes ++ (macHeader localMac destMac ++ payload)).length =
      radiotap.bytes.length + 32 + payload.length := by
    rw [List.length_append, List.length_append, length_macHeader, Nat.add_assoc]
  have hlong := radiotap.long
  rw [RADIOTAP_HDR_SIZE] at hlong
  have hrt := radiotapLength_append radiotap (macHeader localMac destMac ++ payload)
  have hdot11 : (dot11Header localMac destMac).length = 24 := by
    simp only [dot11Header, List.length_append, List.length_cons, List.length_nil,
      List.length_replicate, localMac.property, destMac.property]
  have hcontrol : (radiotap.bytes ++ (macHeader localMac destMac ++ payload))[
      radiotap.bytes.length]? = some 0x08 := by
    rw [List.getElem?_append_right (Nat.le_refl _), Nat.sub_self]
    rfl
  have hsplit : radiotap.bytes ++ (macHeader localMac destMac ++ payload) =
      (radiotap.bytes ++ dot11Header localMac destMac) ++
        (llcHeader ++ (alpineOui ++ (alpineEtherType ++ payload))) := by
    simp only [macHeader, List.append_assoc]
  have hllc : readBytes (radiotap.bytes ++ (macHeader localMac destMac ++ payload))
      (radiotap.bytes.length + 24) 3 = some llcHeader := by
    rw [hsplit]
    exact readBytes_append _ _ _ (by rw [List.length_append, hdot11]) rfl
  have houi : readBytes (radiotap.bytes ++ (macHeader localMac destMac ++ payload))
      (radiotap.bytes.length + 24 + 3) 3 = some alpineOui := by
    rw [hsplit, ← List.append_assoc _ llcHeader]
    refine readBytes_append _ _ _ ?_ rfl
    rw [List.length_append, List.length_append, hdot11]
    rfl
  have hetherType : readBytes (radiotap.bytes ++ (macHeader localMac destMac ++ payload))
      (radiotap.bytes.length + 24 + 6) 2 = some alpineEtherType := by
    rw [hsplit, ← List.append_assoc _ llcHeader, ← List.append_assoc _ alpineOui]
    refine readBytes_append _ _ _ ?_ rfl
    rw [List.length_append, List.length_append, List.length_append, hdot11]
    rfl
  have hpayload : readBytes (radiotap.bytes ++ (macHeader localMac destMac ++ payload))
      (radiotap.bytes.length + 24 + 8) payload.length = some payload := by
    have hoff : radiotap.bytes.length + 24 + 8 =
        (radiotap.bytes ++ macHeader localMac destMac).length := by
      rw [List.length_append, length_macHeader]
    have hlast := readBytes_append (radiotap.bytes ++ macHeader localMac destMac) payload [] hoff rfl
    rwa [List.append_nil, List.append_assoc] at hlast
  rw [hlength, FRAME_SIZE] at h
  unfold parseDataFrame
  dsimp only
  rw [hlength, DOT11_HDR_SIZE, LLC_SNAP_HDR_SIZE, FRAME_OVERHEAD, RADIOTAP_HDR_SIZE, DOT11_HDR_SIZE,
    LLC_SNAP_HDR_SIZE, if_neg (by omega), hrt, Option.bind_some, if_neg (by omega),
    if_neg (by omega), hcontrol, Option.bind_some, if_neg (by decide), if_neg (by omega), hllc,
    Option.bind_some, if_neg (not_not.mpr rfl), houi, Option.bind_some, if_neg (not_not.mpr rfl),
    hetherType, Option.bind_some, if_neg (not_not.mpr rfl),
    show (radiotap.bytes.length + 32 + payload.length + 2 ^ 32 - (radiotap.bytes.length + 24 + 8)) %
      2 ^ 32 = payload.length by omega, if_neg (by rw [FRAME_SIZE]; omega), hpayload]
  rfl

/-! ## Receiving -/

/-- What is copied out of a frame fits the caller's buffer, and every read is inside. -/
theorem readFrame_inside (h : frame.length ≤ FRAME_SIZE) (bufferLength : Nat)
    (sourceIpAddress : UInt64) :
    ∃ read, readFrame frame bufferLength sourceIpAddress = some read ∧
      ∀ received, read = some received →
        received.data.length ≤ bufferLength ∧ FRAME_OVERHEAD ≤ frame.length ∧
        ∃ rtLen, radiotapLength frame = some rtLen ∧ rtLen + 44 ≤ frame.length := by
  unfold readFrame
  by_cases hlong : frame.length < FRAME_OVERHEAD
  · rw [if_pos hlong]
    exact ⟨none, rfl, fun _ heq => (by cases heq)⟩
  obtain ⟨parsed, hparse, hpayload⟩ := parseDataFrame_inside h
  rw [if_neg hlong, hparse, Option.bind_some]
  cases parsed with
  | none => exact ⟨none, rfl, fun _ heq => (by cases heq)⟩
  | some payload =>
    dsimp only
    by_cases hshort : payload.length < 12
    · rw [if_pos hshort]
      exact ⟨none, rfl, fun _ heq => (by cases heq)⟩
    · obtain ⟨rtLen, hrt, htotal⟩ := hpayload payload rfl
      have hbounds : 4 + 2 + 4 ≤ payload.length ∧ 4 + 2 + 4 + 2 ≤ payload.length ∧
          12 + min (payload.length - 12) bufferLength ≤ payload.length := by omega
      obtain ⟨hip, hport, hdata⟩ := hbounds
      obtain ⟨ip, hread, -⟩ := readBytes_inside hip
      rw [if_neg hshort, hread, Option.bind_some]
      obtain ⟨port, hread, -⟩ := readBytes_inside hport
      rw [hread, Option.bind_some]
      obtain ⟨data, hread, hlength⟩ := readBytes_inside hdata
      rw [hread]
      refine ⟨_, rfl, ?_⟩
      rintro _ ⟨⟩
      refine ⟨?_, Nat.not_lt.mp hlong, rtLen, hrt, by omega⟩
      show data.length ≤ bufferLength
      rw [hlength]
      exact Nat.min_le_right _ _

/-- A frame of `transmit` that the receiver gets to is read up to where it or the buffer ends, and
its source is zero in all that is set of it. -/
theorem readFrame_header (radiotap : Radiotap) (localMac destMac : Mac) (dest : WifiAddress)
    (data : List UInt8) (h : (radiotap.bytes ++ (macHeader localMac destMac ++
      (addressBytes dest ++ data))).length ≤ FRAME_SIZE) (bufferLength : Nat)
    (sourceIpAddress : UInt64) :
    readFrame (radiotap.bytes ++ (macHeader localMac destMac ++ (addressBytes dest ++ data)))
      bufferLength sourceIpAddress = some (some ⟨data.take bufferLength,
        UInt64.ofNat (sourceIpAddress.toNat / 2 ^ 32 * 2 ^ 32), 0⟩) := by
  have hlong := radiotap.long
  have hlength : (radiotap.bytes ++ (macHeader localMac destMac ++
      (addressBytes dest ++ data))).length = radiotap.bytes.length + 44 + data.length := by
    simp only [List.length_append, length_macHeader, length_addressBytes]
    omega
  have hoverhead : ¬ (radiotap.bytes ++ (macHeader localMac destMac ++
      (addressBytes dest ++ data))).length < FRAME_OVERHEAD := by
    rw [hlength, FRAME_OVERHEAD, RADIOTAP_HDR_SIZE, DOT11_HDR_SIZE, LLC_SNAP_HDR_SIZE]
    rw [RADIOTAP_HDR_SIZE] at hlong
    omega
  have hpayload : (addressBytes dest ++ data).length = 12 + data.length := by
    rw [List.length_append, length_addressBytes]
  have hdest : (toBytes 4 dest.ip.toNat ++ toBytes 2 dest.port.toNat).length = 4 + 2 := by
    rw [List.length_append, length_toBytes, length_toBytes]
  have hip : readBytes (addressBytes dest ++ data) (4 + 2) 4 = some (toBytes 4 0) := by
    simp only [addressBytes, List.append_assoc]
    rw [← List.append_assoc]
    exact readBytes_append _ _ _ hdest.symm rfl
  have hport : readBytes (addressBytes dest ++ data) (4 + 2 + 4) 2 = some (toBytes 2 0) := by
    simp only [addressBytes, List.append_assoc]
    rw [← List.append_assoc, ← List.append_assoc]
    refine readBytes_append _ _ _ ?_ rfl
    rw [List.length_append, hdest, length_toBytes]
  have hdata : readBytes (addressBytes dest ++ data) 12 (min data.length bufferLength) =
      some (data.take bufferLength) := by
    unfold readBytes
    rw [if_pos (by rw [hpayload]; omega), List.drop_left' (length_addressBytes dest),
      Nat.min_comm, ← List.take_eq_take_min]
  unfold readFrame
  rw [if_neg hoverhead, parseDataFrame_header radiotap localMac destMac _ h, Option.bind_some]
  dsimp only
  rw [if_neg (by rw [hpayload]; omega), hip, Option.bind_some, hport, Option.bind_some, hpayload,
    Nat.add_sub_cancel_left, hdata, Option.map_some, show ofBytes (toBytes 4 0) = 0 by decide,
    show ofBytes (toBytes 2 0) = 0 by decide, Nat.add_zero]
  rfl

/-! ## The link -/

variable {receiver : RawWifiConnection} {x : Exchange} {buffer : List UInt8}

/-- What the receiver's socket gives of a frame of `transmit`. -/
theorem take_capture (radiotap : Radiotap) (localMac destMac : Mac) (dest : WifiAddress)
    (buffer : List UInt8) (h : radiotap.bytes.length + 44 ≤ FRAME_SIZE) :
    (capture radiotap (radiotapHeader ++ macHeader localMac destMac ++
        (addressBytes dest ++ buffer))).take FRAME_SIZE =
      radiotap.bytes ++ (macHeader localMac destMac ++ (addressBytes dest ++
        buffer.take (FRAME_SIZE - (radiotap.bytes.length + 44)))) := by
  have hdrop : (radiotapHeader ++ macHeader localMac destMac ++
      (addressBytes dest ++ buffer)).drop RADIOTAP_HDR_SIZE =
      macHeader localMac destMac ++ (addressBytes dest ++ buffer) := by
    rw [List.append_assoc]
    exact List.drop_left' rfl
  unfold capture
  rw [hdrop, FRAME_SIZE] at *
  rw [List.take_append, List.take_of_length_le (by omega), List.take_append,
    List.take_of_length_le (by rw [length_macHeader]; omega), List.take_append,
    List.take_of_length_le (by rw [length_macHeader, length_addressBytes]; omega),
    length_macHeader, length_addressBytes]
  congr 4

/-- Of a frame whose headers do not fit, nothing is received. -/
theorem readFrame_capture_none (radiotap : Radiotap) (bytes : List UInt8)
    (h : ¬ radiotap.bytes.length + 44 ≤ FRAME_SIZE) (bufferLength : Nat)
    (sourceIpAddress : UInt64) :
    readFrame ((capture radiotap bytes).take FRAME_SIZE) bufferLength sourceIpAddress =
      some none := by
  have hlong := radiotap.long
  rw [RADIOTAP_HDR_SIZE] at hlong
  have hle : ((capture radiotap bytes).take FRAME_SIZE).length ≤ FRAME_SIZE := by
    rw [List.length_take]
    exact Nat.min_le_left _ _
  obtain ⟨read, hread, hinside⟩ := readFrame_inside hle bufferLength sourceIpAddress
  cases read with
  | none => exact hread
  | some received =>
    obtain ⟨-, -, rtLen, hrt, htotal⟩ := hinside received rfl
    have hstart : radiotapLength ((capture radiotap bytes).take FRAME_SIZE) =
        radiotapLength radiotap.bytes := by
      unfold radiotapLength capture
      rw [FRAME_SIZE, List.getElem?_take_of_lt (by decide), List.getElem?_take_of_lt (by decide),
        List.getElem?_append_left (by omega), List.getElem?_append_left (by omega)]
    rw [hstart, radiotap.declared] at hrt
    obtain rfl := Option.some.inj hrt
    exact absurd (htotal.trans hle) h

/-- What is read of a buffer becomes data of the same length, and the data that was sent if it is
the whole buffer. -/
theorem exists_restored {cut : List UInt8}
    (hkey : x.channel.enabled = true → x.channel.key.length % 2 ^ 32 ≠ 0 ∨ x.data.val = [])
    (hlength : buffer.length = x.data.val.length)
    (hback : (if x.channel.enabled then x.channel.deobfuscate buffer else some buffer) =
      some x.data.val) (hcut : cut <+: buffer) :
    ∃ data, (if x.channel.enabled then x.channel.deobfuscate cut else some cut) = some data ∧
      data.length = cut.length ∧ (cut.length = buffer.length → data = x.data.val) := by
  have hwhole : ∀ data, (if x.channel.enabled then x.channel.deobfuscate cut else some cut) =
      some data → cut.length = buffer.length → data = x.data.val := by
    intro data hdata heq
    rw [hcut.eq_of_length heq, hback] at hdata
    exact (Option.some.inj hdata).symm
  by_cases henabled : x.channel.enabled = true
  · simp only [henabled, if_true] at hwhole ⊢
    rcases hkey henabled with hkey | hnil
    · obtain ⟨data, hdata⟩ := CovertChannel.exists_deobfuscate hkey cut
      have hobfuscate := (CovertChannel.deobfuscate_eq_iff x.channel data cut).mp hdata
      exact ⟨data, hdata, (CovertChannel.length_obfuscate hobfuscate).symm, hwhole data hdata⟩
    · have hempty : cut = [] := by
        rw [hnil] at hlength
        rw [List.length_eq_zero_iff.mp hlength] at hcut
        exact List.prefix_nil.mp hcut
      subst hempty
      exact ⟨[], rfl, rfl, hwhole [] rfl⟩
  · simp only [henabled] at hwhole ⊢
    exact ⟨cut, rfl, rfl, hwhole cut rfl⟩

/-- A receiver that gets to the data delivers what of it fits, from whoever to whomever. -/
theorem receiveData_reaches (localMac destMac : Mac) (dest : WifiAddress) (h : Reaches receiver x)
    (hkey : x.channel.enabled = true → x.channel.key.length % 2 ^ 32 ≠ 0 ∨ x.data.val = [])
    (hlength : buffer.length = x.data.val.length)
    (hback : (if x.channel.enabled then x.channel.deobfuscate buffer else some buffer) =
      some x.data.val) :
    ∃ data, receiver.receiveData x.channel (some (capture x.radiotap (radiotapHeader ++
        macHeader localMac destMac ++ (addressBytes dest ++ buffer)))) x.bufferLength
        x.sourceIpAddress =
        some (some ⟨data, UInt64.ofNat (x.sourceIpAddress.toNat / 2 ^ 32 * 2 ^ 32), 0⟩) ∧
      data.length = min x.bufferLength (min (room x) x.data.val.length) ∧
      (x.data.val.length ≤ room x → x.data.val.length ≤ x.bufferLength → data = x.data.val) := by
  obtain ⟨hopened, hroom⟩ := h
  have hstart : (buffer.take (room x)).take x.bufferLength <+: buffer :=
    (List.take_prefix _ _).trans (List.take_prefix _ _)
  have hcut : ((buffer.take (room x)).take x.bufferLength).length =
      min x.bufferLength (min (room x) x.data.val.length) := by
    rw [List.length_take, List.length_take, hlength]
  obtain ⟨data, hdata, hsize, hwhole⟩ := exists_restored hkey hlength hback hstart
  refine ⟨data, ?_, hsize.trans hcut, fun h1 h2 => hwhole ?_⟩
  · have hframe := take_capture x.radiotap localMac destMac dest buffer hroom
    have htake : ((capture x.radiotap (radiotapHeader ++ macHeader localMac destMac ++
        (addressBytes dest ++ buffer))).take FRAME_SIZE).length ≤ FRAME_SIZE := by
      rw [List.length_take]
      exact Nat.min_le_left _ _
    rw [hframe] at htake
    unfold receiveData
    rw [hopened, if_neg (by decide)]
    dsimp only
    rw [hframe, readFrame_header _ _ _ _ _ htake, Option.bind_some]
    dsimp only
    show (if x.channel.enabled = true then (x.channel.deobfuscate
        ((buffer.take (room x)).take x.bufferLength)).map _ else _) = _
    by_cases henabled : x.channel.enabled = true
    · rw [if_pos henabled] at hdata ⊢
      rw [hdata]
      rfl
    · rw [if_neg henabled] at hdata ⊢
      rw [← Option.some.inj hdata]
      rfl
  · rw [hcut, hlength]
    omega

theorem receiveData_not_reaches (h : ¬ Reaches receiver x) (bytes : List UInt8) :
    receiver.receiveData x.channel (some (capture x.radiotap bytes)) x.bufferLength
      x.sourceIpAddress = some none := by
  unfold receiveData
  by_cases hopened : receiver.opened = false
  · rw [if_pos hopened]
  · rw [if_neg hopened]
    dsimp only
    rw [readFrame_capture_none x.radiotap bytes fun hroom => h ⟨by simpa using hopened, hroom⟩]
    rfl

/-- Whatever station a datagram is sent to. -/
theorem carried_transmit_iff (sender receiver : RawWifiConnection) (destMac : Mac) (x : Exchange) :
    Carried (sender.transmit x.channel destMac x.sent x.dest x.data)
        (fun bytes => receiver.receiveData x.channel (some bytes) x.bufferLength x.sourceIpAddress)
        sender.address receiver.address x ↔
      Fits sender receiver x := by
  have hidle : ∀ {receive}, Carried .refused receive sender.address receiver.address x :=
    ⟨Sent.noConfusion, fun _ h => Sent.noConfusion h, fun _ h => Sent.noConfusion h⟩
  by_cases hopened : sender.opened = true
  · rcases transmit_cases x.channel destMac x.sent x.dest x.data hopened with
      ⟨hsend, hnot⟩ | ⟨hkey, hlong, ⟨hsend, hnot⟩ | ⟨hfits, hsent, buffer, hsend, hlength, hback⟩⟩ <;>
      rw [hsend]
    · exact ⟨fun h => absurd rfl h.whole, fun h => absurd ⟨(h hopened).1, (h hopened).2.1⟩ hnot⟩
    · exact ⟨fun _ _ => ⟨hkey, hlong, fun h1 h2 => absurd ⟨h1, h2⟩ hnot⟩, fun _ => hidle⟩
    · by_cases hreaches : Reaches receiver x
      · obtain ⟨data, hreceive, hsize, hwhole⟩ := receiveData_reaches sender.localMac destMac x.dest
          hreaches hkey hlength hback
        constructor
        · intro h _
          refine ⟨hkey, hlong, fun _ _ => ⟨fun _ => ?_, fun hnot => absurd hreaches hnot⟩⟩
          by_cases hfor : ForReceiver x receiver.address
          · have hdelivered := hreceive.symm.trans (h.delivered _ rfl hfor)
            obtain ⟨rfl, hip, hport⟩ := Received.mk.inj
              (Option.some.inj (Option.some.inj hdelivered))
            refine ⟨hfor, ?_, ?_⟩
            · omega
            · rw [hip, hport]
          · exact absurd (hreceive.symm.trans (h.withheld _ rfl hfor)) (by simp)
        · intro h
          obtain ⟨hfor, hroom, haddress⟩ := ((h hopened).2.2 hfits hsent).1 hreaches
          refine ⟨Sent.noConfusion, ?_, fun _ _ hnot => absurd hfor hnot⟩
          rintro _ ⟨⟩ -
          show receiver.receiveData _ _ _ _ = _
          rw [hreceive, hwhole hroom hfor.2, haddress]
      · have hnone := receiveData_not_reaches hreaches (radiotapHeader ++
          macHeader sender.localMac destMac ++ (addressBytes x.dest ++ buffer))
        constructor
        · intro h _
          refine ⟨hkey, hlong, fun _ _ => ⟨fun hyes => absurd hyes hreaches, fun _ hfor => ?_⟩⟩
          exact absurd (hnone.symm.trans (h.delivered _ rfl hfor)) (by simp)
        · intro h
          have hnot := ((h hopened).2.2 hfits hsent).2 hreaches
          refine ⟨Sent.noConfusion, fun _ _ hfor => absurd hfor hnot, ?_⟩
          rintro _ ⟨⟩ -
          exact hnone
  · have hsend : sender.transmit x.channel destMac x.sent x.dest x.data = .refused := by
      rw [transmit, if_pos (by simpa using hopened)]
    rw [hsend]
    exact ⟨fun _ hyes => absurd hyes hopened, fun _ => hidle⟩

/-! ## Unicast -/

variable {conn : UnicastWifiConnection}

theorem resolveMac_raw (conn : UnicastWifiConnection) (now : Int) (arp : Option Mac) (ip : UInt64) :
    (conn.resolveMac now arp ip).2.toRawWifiConnection = conn.toRawWifiConnection := by
  have hlookup : ∀ c : UnicastWifiConnection, c.toRawWifiConnection = conn.toRawWifiConnection →
      (UnicastWifiConnection.resolveMac.lookup now arp ip c).2.toRawWifiConnection =
        conn.toRawWifiConnection := by
    intro c hc
    unfold UnicastWifiConnection.resolveMac.lookup
    cases arp <;> exact hc
  unfold UnicastWifiConnection.resolveMac
  dsimp only
  cases conn.macCache.find ip with
  | none => exact hlookup conn rfl
  | some mac =>
    dsimp only
    split
    · rfl
    · exact hlookup _ rfl

/-- A unicast connection sends as a raw one does, to some station. -/
theorem unicast_sendData (conn : UnicastWifiConnection) (channel : CovertChannel) (now : Int)
    (arp : Option Mac) (sent : Bool) (dest : WifiAddress) (data : WifiDatagram) :
    ∃ mac, (conn.sendData channel now arp sent dest data).1 =
      conn.toRawWifiConnection.transmit channel mac sent dest data := by
  unfold UnicastWifiConnection.sendData
  by_cases hopened : conn.opened = false
  · refine ⟨broadcastMac, ?_⟩
    rw [if_pos hopened, transmit, if_pos hopened]
  · refine ⟨(conn.resolveMac now arp dest.ip).1, ?_⟩
    rw [if_neg hopened, ← resolveMac_raw conn now arp dest.ip]

/-- The station of a sender is read inside of the frame. -/
theorem exists_learn (conn : UnicastWifiConnection) (now : Int) (ip : UInt64)
    (h : FRAME_OVERHEAD ≤ frame.length) : ∃ conn', conn.learn now frame ip = some conn' := by
  unfold UnicastWifiConnection.learn
  by_cases hip : ip = 0
  · rw [if_pos hip]
    exact ⟨conn, rfl⟩
  · obtain ⟨rtLen, hrt⟩ := exists_radiotapLength h
    rw [if_neg hip, hrt, Option.bind_some]
    by_cases hbound : rtLen + DOT11_HDR_SIZE ≤ frame.length
    · rw [if_pos hbound, UnicastWifiConnection.sourceMac, dif_pos]
      · exact ⟨_, rfl⟩
      · rw [DOT11_HDR_SIZE] at hbound
        omega
    · rw [if_neg hbound]
      exact ⟨conn, rfl⟩

theorem length_of_receiveData {raw : RawWifiConnection} {channel : CovertChannel}
    {captured : Option (List UInt8)} {n : Nat} {ip : UInt64} {received : Received}
    (h : raw.receiveData channel captured n ip = some (some received)) :
    FRAME_OVERHEAD ≤ ((captured.getD []).take FRAME_SIZE).length := by
  unfold receiveData at h
  split at h
  · cases h
  · cases captured with
    | none => cases h
    | some captured =>
      obtain ⟨read, hread, h⟩ := Option.bind_eq_some_iff.mp h
      cases read with
      | none => cases h
      | some received' =>
        have hle : (captured.take FRAME_SIZE).length ≤ FRAME_SIZE := by
          rw [List.length_take]
          exact Nat.min_le_left _ _
        obtain ⟨read', hread', hinside⟩ := readFrame_inside hle n ip
        rw [hread] at hread'
        obtain rfl := Option.some.inj hread'
        exact (hinside received' rfl).2.1

/-- A unicast connection receives what a raw one does. -/
theorem unicast_receiveData (conn : UnicastWifiConnection) (channel : CovertChannel) (now : Int)
    (captured : Option (List UInt8)) (n : Nat) (ip : UInt64) :
    (conn.receiveData channel now captured n ip).map Prod.fst =
      conn.toRawWifiConnection.receiveData channel captured n ip := by
  unfold UnicastWifiConnection.receiveData
  cases hreceive : conn.toRawWifiConnection.receiveData channel captured n ip with
  | none => rfl
  | some result =>
    cases result with
    | none => rfl
    | some received =>
      obtain ⟨conn', hlearn⟩ := exists_learn conn now received.sourceIpAddress
        (length_of_receiveData hreceive)
      rw [Option.bind_some]
      dsimp only
      rw [hlearn]
      rfl

/-- Parsing a captured byte string: no read and no copy is outside, and no more than the buffers
hold is copied. -/
structure ParsedInside (captured : List UInt8) (bufferLength : Nat) (sourceIpAddress : UInt64) :
    Prop where
  parsed : ∃ parsed, parseDataFrame (captured.take FRAME_SIZE) = some parsed ∧
    ∀ payload, parsed = some payload → payload.length ≤ FRAME_SIZE
  read : ∃ read, readFrame (captured.take FRAME_SIZE) bufferLength sourceIpAddress = some read ∧
    ∀ received, read = some received → received.data.length ≤ bufferLength

theorem parsedInside (captured : List UInt8) (bufferLength : Nat) (sourceIpAddress : UInt64) :
    ParsedInside captured bufferLength sourceIpAddress := by
  have hle : (captured.take FRAME_SIZE).length ≤ FRAME_SIZE := by
    rw [List.length_take]
    exact Nat.min_le_left _ _
  obtain ⟨parsed, hparsed, hpayload⟩ := parseDataFrame_inside hle
  obtain ⟨read, hread, hinside⟩ := readFrame_inside hle bufferLength sourceIpAddress
  refine ⟨⟨parsed, hparsed, fun payload heq => ?_⟩, read, hread, fun received heq =>
    (hinside received heq).1⟩
  obtain ⟨rtLen, -, htotal⟩ := hpayload payload heq
  omega

/-- A datagram is carried as it should be, over a raw or a unicast connection, exactly if it `Fits`;
and every captured byte string is parsed inside its bounds. -/
theorem carried_iff (x : Exchange) (captured : List UInt8) (bufferLength : Nat)
    (sourceIpAddress : UInt64) :
    (∀ sender receiver : RawWifiConnection,
      Carried (sender.sendData x.channel x.sent x.dest x.data)
          (fun bytes => receiver.receiveData x.channel (some bytes) x.bufferLength
            x.sourceIpAddress)
          sender.address receiver.address x ↔ Fits sender receiver x) ∧
    (∀ (sender receiver : UnicastWifiConnection) (now now' : Int) (arp : Option Mac),
      Carried (sender.sendData x.channel now arp x.sent x.dest x.data).1
          (fun bytes => (receiver.receiveData x.channel now' (some bytes) x.bufferLength
            x.sourceIpAddress).map Prod.fst)
          sender.address receiver.address x ↔
        Fits sender.toRawWifiConnection receiver.toRawWifiConnection x) ∧
    ParsedInside captured bufferLength sourceIpAddress := by
  refine ⟨fun sender receiver => carried_transmit_iff sender receiver broadcastMac x,
    fun sender receiver now now' arp => ?_, parsedInside captured bufferLength sourceIpAddress⟩
  obtain ⟨mac, hsend⟩ := unicast_sendData sender x.channel now arp x.sent x.dest x.data
  rw [hsend]
  simp only [unicast_receiveData]
  exact carried_transmit_iff sender.toRawWifiConnection receiver.toRawWifiConnection mac x

/-- The frame of a datagram does not say who sent it. -/
theorem named_not_carried :
    ¬ ∀ (sender receiver : RawWifiConnection) (x : Exchange),
      Carried (sender.sendData x.channel x.sent x.dest x.data)
        (fun bytes => receiver.receiveData x.channel (some bytes) x.bufferLength x.sourceIpAddress)
        sender.address receiver.address x := by
  intro h
  have hdelivered := (h ⟨true, broadcastMac, ⟨1, 1⟩⟩ ⟨true, broadcastMac, ⟨2, 2⟩⟩
    ⟨CovertChannel.new, true, ⟨2, 2⟩, ⟨[7], by decide⟩, ⟨radiotapHeader, by decide, by decide⟩, 16,
      0⟩).delivered _ rfl ⟨rfl, by decide⟩
  have hsource := congrArg (fun result => result.map fun received =>
    received.map Received.sourceIpAddress) hdelivered
  exact absurd hsource (by decide +kernel)

end WifiLink

end Alpine
