import Alpine.Lib.Dns

/-!
# The mDNS announcement

`sendAnnouncement` writes a DNS message of five records into a buffer of 1500 bytes, at offsets that
nothing checks. `writeDnsName` cuts a name at its dots and writes the length of each label as a
byte. So the message says what it should exactly for host names of labels with 1 to 63 bytes that
are not too long for the buffer (`announced_iff`).
-/

namespace Alpine

open Lib Lib.Dns

/-- What `initialize` has stored, once the socket is open. -/
structure MdnsService where
  hostname : List UInt8
  ipAddrBinary : Address
  port : UInt16

namespace MdnsService

def PACKET_SIZE : Nat := 1500

def bytesOf (s : String) : List UInt8 := s.toUTF8.toList

def upnpService : List UInt8 := bytesOf "_upnp._tcp.local"
def httpService : List UInt8 := bytesOf "_http._tcp.local"
def instanceUpnp : List UInt8 := bytesOf "Alpine Media Server._upnp._tcp.local"
def instanceHttp : List UInt8 := bytesOf "Alpine Media Server._http._tcp.local"
def txtData : List UInt8 := bytesOf "path=/device.xml"

/-- The loop of `writeDnsName`; each pass writes a label. -/
def writeLabels : Nat → List UInt8 → List UInt8
  | 0, _ => []
  | passes + 1, name =>
    if name = [] then []
    else
      let label := name.takeWhile (· ≠ dot)
      UInt8.ofNat label.length :: (label ++ writeLabels passes (name.drop (label.length + 1)))

def writeDnsName (name : List UInt8) : List UInt8 := writeLabels name.length name ++ [0]

/-- Type, class IN with cache-flush, and time to live. -/
def writeRecordHeader (recordType ttl : Nat) : List UInt8 :=
  [UInt8.ofNat (recordType / 2 ^ 8), UInt8.ofNat recordType, 0x80, 1, UInt8.ofNat (ttl / 2 ^ 24),
    UInt8.ofNat (ttl / 2 ^ 16), UInt8.ofNat (ttl / 2 ^ 8), UInt8.ofNat ttl]

def writePtrRecord (serviceName instanceName : List UInt8) : List UInt8 :=
  let data := writeDnsName instanceName
  writeDnsName serviceName ++ writeRecordHeader 12 120 ++
    [UInt8.ofNat (data.length / 2 ^ 8), UInt8.ofNat data.length] ++ data

def writeSrvRecord (instanceName target : List UInt8) (port : UInt16) : List UInt8 :=
  let data := [0, 0, 0, 0, UInt8.ofNat (port.toNat / 2 ^ 8), UInt8.ofNat port.toNat] ++
    writeDnsName target
  writeDnsName instanceName ++ writeRecordHeader 33 120 ++
    [UInt8.ofNat (data.length / 2 ^ 8), UInt8.ofNat data.length] ++ data

def writeTxtRecord (instanceName txt : List UInt8) : List UInt8 :=
  let rdLen := 1 + txt.length
  writeDnsName instanceName ++ writeRecordHeader 16 120 ++
    [UInt8.ofNat (rdLen / 2 ^ 8), UInt8.ofNat rdLen] ++ (UInt8.ofNat txt.length :: txt)

def writeARecord (hostname : List UInt8) (ipAddr : Address) : List UInt8 :=
  writeDnsName hostname ++ writeRecordHeader 1 120 ++ [0, 4] ++
    [UInt8.ofNat (ipAddr.toNat / 2 ^ 24), UInt8.ofNat (ipAddr.toNat / 2 ^ 16),
      UInt8.ofNat (ipAddr.toNat / 2 ^ 8), UInt8.ofNat ipAddr.toNat]

variable (service : MdnsService)

def hostLocal : List UInt8 := service.hostname ++ bytesOf ".local"

/-- No identifier, flags for an authoritative response, and the number of answers. -/
def header : List UInt8 := [0, 0, 0x84, 0, 0, 0, 0, 5, 0, 0, 0, 0]

/-- All that is written, each record at the offset behind the one before. -/
def announcement : List UInt8 :=
  header ++ writePtrRecord upnpService instanceUpnp ++ writePtrRecord httpService instanceHttp ++
    writeSrvRecord instanceUpnp service.hostLocal service.port ++
    writeTxtRecord instanceUpnp txtData ++ writeARecord service.hostLocal service.ipAddrBinary

/-- The packet that is sent; `none` is a write behind the end of the buffer. -/
def sendAnnouncement : Option (List UInt8) :=
  if service.announcement.length ≤ PACKET_SIZE then some service.announcement else none

end MdnsService

/-- The port and the target of the first SRV record. -/
def firstSrv (message : Message) : Option (Nat × Name) :=
  message.answers.findSome? fun record =>
    match record.data with
    | .srv _ _ port target => some (port, target)
    | _ => none

/-- The owner and the address of the first A record. -/
def firstA (message : Message) : Option (Name × Address) :=
  message.answers.findSome? fun record =>
    match record.data with
    | .a address => some (record.owner, address)
    | _ => none

namespace MdnsService

/-- The packet is a message with as many records as its header says, valid names and data of the
lengths that are given, and nothing behind; and it says at which port of which host the service is,
and the host's address. -/
structure Announces (service : MdnsService) (packet : List UInt8) (message : Message) : Prop where
  decoded : decodeMessage packet = some message
  port : ∃ target, firstSrv message = some (service.port.toNat, target) ∧
    nameText target = service.hostLocal
  address : ∃ owner, firstA message = some (owner, service.ipAddrBinary) ∧
    nameText owner = service.hostLocal

/-- The packet is written inside of the buffer, and announces the service. -/
def Announced (service : MdnsService) : Prop :=
  ∃ packet message, service.sendAnnouncement = some packet ∧ packet.length ≤ PACKET_SIZE ∧
    service.Announces packet message

/-- Every label of the host name has 1 to 63 bytes, and the name has 603 at most. -/
def HostFits (service : MdnsService) : Prop :=
  ValidName (service.hostname.splitOn dot) ∧ service.hostname.length ≤ 603

/-! ## Names -/

theorem writeLabels_nil (passes : Nat) : writeLabels passes [] = [] := by
  cases passes <;> rfl

/-- A name is cut into its labels, unless the last one is empty. -/
theorem writeLabels_nameText {labels : Name} (hdots : ∀ label ∈ labels, dot ∉ label)
    (hlast : labels.getLast? ≠ some []) {passes : Nat} (hpasses : (nameText labels).length ≤ passes) :
    writeLabels passes (nameText labels) =
      labels.flatMap fun label => UInt8.ofNat label.length :: label := by
  induction labels generalizing passes with
  | nil => exact writeLabels_nil passes
  | cons label labels ih =>
    have hall : ∀ c ∈ label, decide (c ≠ dot) = true := fun c hc =>
      decide_eq_true fun heq => hdots label (.head _) (heq ▸ hc)
    cases labels with
    | nil =>
      have hne : label ≠ [] := fun hnil => hlast (by rw [hnil]; rfl)
      rw [nameText_singleton] at hpasses ⊢
      have hpos := List.length_pos_iff.mpr hne
      obtain ⟨passes, rfl⟩ : ∃ n, passes = n + 1 := ⟨passes - 1, by omega⟩
      have hwhile : label.takeWhile (fun c => decide (c ≠ dot)) = label :=
        List.takeWhile_eq_self_iff.mpr hall
      rw [writeLabels, if_neg hne]
      dsimp only
      rw [hwhile, List.drop_of_length_le (by omega), writeLabels_nil]
      simp
    | cons next labels =>
      rw [nameText_cons_cons, List.length_append, List.length_cons] at hpasses
      obtain ⟨passes, rfl⟩ : ∃ n, passes = n + 1 := ⟨passes - 1, by omega⟩
      have hwhile : (label ++ dot :: nameText (next :: labels)).takeWhile
          (fun c => decide (c ≠ dot)) = label := by
        rw [List.takeWhile_append_of_pos hall, List.takeWhile_cons_of_neg (by simp),
          List.append_nil]
      have hdrop : (label ++ dot :: nameText (next :: labels)).drop (label.length + 1) =
          nameText (next :: labels) := by
        rw [List.append_cons, List.drop_left' (by simp)]
      have hlast' : (next :: labels).getLast? ≠ some [] := fun heq =>
        hlast (by rw [List.getLast?_cons_cons]; exact heq)
      rw [nameText_cons_cons, writeLabels, if_neg (by simp)]
      dsimp only
      rw [hwhile, hdrop, ih (fun l hl => hdots l (.tail _ hl)) hlast' (by omega)]
      exact (List.flatMap_cons (f := fun label => UInt8.ofNat label.length :: label)).symm

theorem writeDnsName_nameText {labels : Name} (hdots : ∀ label ∈ labels, dot ∉ label)
    (hlast : labels.getLast? ≠ some []) : writeDnsName (nameText labels) = encodeName labels := by
  rw [writeDnsName, writeLabels_nameText hdots hlast le_rfl, encodeName]

/-! ## Records -/

def hostName (service : MdnsService) : Name := service.hostname.splitOn dot ++ [bytesOf "local"]

def upnpName : Name := ["_upnp", "_tcp", "local"].map bytesOf
def httpName : Name := ["_http", "_tcp", "local"].map bytesOf
def instanceUpnpName : Name := ["Alpine Media Server", "_upnp", "_tcp", "local"].map bytesOf
def instanceHttpName : Name := ["Alpine Media Server", "_http", "_tcp", "local"].map bytesOf

variable {service : MdnsService}

/-- The label that is behind the host name. -/
theorem localLabel : bytesOf ".local" = dot :: bytesOf "local" ∧ (bytesOf ".local").length = 6 ∧
    dot ∉ bytesOf "local" ∧ some (bytesOf "local") ≠ some [] ∧
    1 ≤ (bytesOf "local").length ∧ (bytesOf "local").length ≤ 63 := by
  decide +kernel

/-- The records that depend on nothing. -/
theorem fixedRecords :
    writePtrRecord upnpService instanceUpnp =
        recordBytes upnpName 12 0x8001 120 (encodeName instanceUpnpName) ∧
      writePtrRecord httpService instanceHttp =
        recordBytes httpName 12 0x8001 120 (encodeName instanceHttpName) ∧
      writeTxtRecord instanceUpnp txtData =
        recordBytes instanceUpnpName 16 0x8001 120 (UInt8.ofNat txtData.length :: txtData) ∧
      writeDnsName instanceUpnp = encodeName instanceUpnpName ∧
      (writePtrRecord upnpService instanceUpnp).length = 66 ∧
      (writePtrRecord httpService instanceHttp).length = 66 ∧
      (writeTxtRecord instanceUpnp txtData).length = 65 ∧
      (encodeName instanceUpnpName).length = 38 := by
  decide +kernel

/-- Their names and their data are read as they are written. -/
theorem fixedData :
    (ValidName upnpName ∧ ValidName httpName ∧ ValidName instanceUpnpName) ∧
      (decodeData 12 (encodeName instanceUpnpName) = some (.ptr instanceUpnpName) ∧
        decodeData 12 (encodeName instanceHttpName) = some (.ptr instanceHttpName) ∧
        decodeData 16 (UInt8.ofNat txtData.length :: txtData) = some (.txt [txtData])) ∧
      (encodeName instanceUpnpName).length < 2 ^ 16 ∧
      (encodeName instanceHttpName).length < 2 ^ 16 ∧
      (UInt8.ofNat txtData.length :: txtData).length < 2 ^ 16 := by
  decide +kernel

theorem nameText_hostName : nameText service.hostName = service.hostLocal := by
  rw [hostName, nameText_concat (List.splitOn_ne_nil _ _), nameText, List.intercalate_splitOn,
    hostLocal, localLabel.1]

theorem hostName_noDots : ∀ label ∈ service.hostName, dot ∉ label := by
  intro label hlabel
  rcases List.mem_append.mp hlabel with hlabel | hlabel
  · exact not_mem_splitOn hlabel
  · rw [List.mem_singleton.mp hlabel]
    exact localLabel.2.2.1

theorem writeDnsName_hostLocal : writeDnsName service.hostLocal = encodeName service.hostName := by
  rw [← nameText_hostName]
  refine writeDnsName_nameText hostName_noDots ?_
  rw [hostName, List.getLast?_concat]
  exact localLabel.2.2.2.1

theorem valid_hostName_iff :
    ValidName service.hostName ↔ ValidName (service.hostname.splitOn dot) := by
  constructor
  · exact fun h label hlabel => h label (List.mem_append_left _ hlabel)
  · intro h label hlabel
    rcases List.mem_append.mp hlabel with hlabel | hlabel
    · exact h label hlabel
    · rw [List.mem_singleton.mp hlabel]
      exact localLabel.2.2.2.2

theorem writeRecordHeader_eq (recordType ttl : Nat) :
    writeRecordHeader recordType ttl = be16 recordType ++ be16 0x8001 ++ be32 ttl := rfl

def srvData (service : MdnsService) : List UInt8 :=
  [0, 0, 0, 0] ++ be16 service.port.toNat ++ encodeName service.hostName

theorem writeSrvRecord_host :
    writeSrvRecord instanceUpnp service.hostLocal service.port =
      recordBytes instanceUpnpName 33 0x8001 120 service.srvData := by
  obtain ⟨-, -, -, hinstance, -⟩ := fixedRecords
  unfold writeSrvRecord recordBytes
  rw [writeDnsName_hostLocal, hinstance, writeRecordHeader_eq]
  simp only [List.append_assoc]
  rfl

def aData (service : MdnsService) : List UInt8 := be32 service.ipAddrBinary.toNat

theorem writeARecord_host :
    writeARecord service.hostLocal service.ipAddrBinary =
      recordBytes service.hostName 1 0x8001 120 service.aData := by
  unfold writeARecord recordBytes
  have hlength : be16 service.aData.length = [0, 4] := by
    show be16 4 = [0, 4]
    decide
  rw [writeDnsName_hostLocal, writeRecordHeader_eq, hlength]
  simp only [List.append_assoc]
  rfl

theorem length_announcement :
    service.announcement.length = 293 + 2 * service.hostname.length := by
  have hhost : (encodeName service.hostName).length = service.hostname.length + 8 := by
    rw [length_encodeName_text (by simp [hostName]), nameText_hostName, hostLocal, List.length_append,
      localLabel.2.1]
  obtain ⟨-, -, -, -, hptr, hptr', htxt, hinstance⟩ := fixedRecords
  unfold announcement
  rw [writeSrvRecord_host, writeARecord_host]
  unfold recordBytes srvData aData
  simp only [List.length_append, hhost, hptr, hptr', htxt, hinstance, be16, be32, header,
    List.length_cons, List.length_nil]
  omega

theorem length_srvData (h : service.hostname.length ≤ 603) : service.srvData.length < 2 ^ 16 := by
  have hlength := service.length_announcement
  unfold announcement at hlength
  rw [writeSrvRecord_host] at hlength
  unfold recordBytes at hlength
  simp only [List.length_append] at hlength
  omega

theorem decodeData_srvData :
    decodeData 33 service.srvData =
      (decodeTarget (encodeName service.hostName)).map (.srv 0 0 service.port.toNat) := by
  have hport : fromBe16 (UInt8.ofNat (service.port.toNat / 2 ^ 8)) (UInt8.ofNat service.port.toNat) =
      service.port.toNat := fromBe16_be16 service.port.toNat_lt
  show (decodeTarget (encodeName service.hostName)).map
    (RecordData.srv (fromBe16 0 0) (fromBe16 0 0) _) = _
  rw [hport]
  rfl

theorem decodeData_aData : decodeData 1 service.aData = some (.a service.ipAddrBinary) := by
  have hlt := service.ipAddrBinary.isLt
  have haddress : ofOctets (UInt8.ofNat (service.ipAddrBinary.toNat / 2 ^ 24)).toNat
      (UInt8.ofNat (service.ipAddrBinary.toNat / 2 ^ 16)).toNat
      (UInt8.ofNat (service.ipAddrBinary.toNat / 2 ^ 8)).toNat
      (UInt8.ofNat service.ipAddrBinary.toNat).toNat = service.ipAddrBinary := by
    apply BitVec.eq_of_toNat_eq
    unfold ofOctets
    rw [BitVec.toNat_ofNat, UInt8.toNat_ofNat', UInt8.toNat_ofNat', UInt8.toNat_ofNat',
      UInt8.toNat_ofNat']
    omega
  show some (RecordData.a _) = _
  rw [haddress]

def ptrUpnp : Record := ⟨upnpName, 0x8001, 120, .ptr instanceUpnpName⟩
def ptrHttp : Record := ⟨httpName, 0x8001, 120, .ptr instanceHttpName⟩
def txtUpnp : Record := ⟨instanceUpnpName, 0x8001, 120, .txt [txtData]⟩

def afterPtrs (service : MdnsService) : List UInt8 :=
  recordBytes instanceUpnpName 33 0x8001 120 service.srvData ++
    (recordBytes instanceUpnpName 16 0x8001 120 (UInt8.ofNat txtData.length :: txtData) ++
      (recordBytes service.hostName 1 0x8001 120 service.aData ++ []))

/-- The first two records are read whatever the host name is. -/
theorem decodeRecords_ptrs (count : Nat) (rest : List UInt8) :
    decodeRecords (count + 2) (recordBytes upnpName 12 0x8001 120 (encodeName instanceUpnpName) ++
        (recordBytes httpName 12 0x8001 120 (encodeName instanceHttpName) ++ rest)) =
      (decodeRecords count rest).map fun records => (ptrUpnp :: ptrHttp :: records.1, records.2) := by
  obtain ⟨⟨hvalid, hvalid', -⟩, ⟨hupnp, hhttp, -⟩, hlength, hlength', -⟩ := fixedData
  rw [decodeRecords_recordBytes hvalid (by decide) (by decide) (by decide) hlength, hupnp,
    Option.bind_some, decodeRecords_recordBytes hvalid' (by decide) (by decide) (by decide) hlength',
    hhttp, Option.bind_some, Option.map_map]
  rfl

theorem decodeMessage_header {body : List UInt8} {message : Message} :
    decodeMessage (header ++ body) = some message ↔
      decodeRecords 5 body = some (message.answers, []) ∧
        message = ⟨0, 0x8400, message.answers⟩ := by
  show decodeMessage (0 :: 0 :: 0x84 :: 0 :: 0 :: 0 :: 0 :: 5 :: 0 :: 0 :: 0 :: 0 :: body) = _ ↔ _
  have hid : fromBe16 0 0 = 0 := by decide
  have hflags : fromBe16 0x84 0 = 0x8400 := by decide
  have hcount : fromBe16 0 5 = 5 := by decide
  rw [decodeMessage, if_pos ⟨hid, hid, hid⟩, hid, hflags, hcount]
  cases decodeRecords 5 body with
  | none => simp
  | some records =>
    obtain ⟨answers, rest⟩ := records
    rw [Option.bind_some, Option.some.injEq, Prod.mk.injEq]
    dsimp only
    by_cases hrest : rest = []
    · rw [if_pos hrest, Option.some.injEq]
      constructor
      · rintro rfl
        exact ⟨⟨rfl, hrest⟩, rfl⟩
      · rintro ⟨⟨rfl, -⟩, hmessage⟩
        exact hmessage.symm
    · rw [if_neg hrest]
      constructor
      · intro h
        cases h
      · rintro ⟨⟨-, h⟩, -⟩
        exact absurd h hrest

theorem announcement_eq :
    service.announcement =
      header ++ (recordBytes upnpName 12 0x8001 120 (encodeName instanceUpnpName) ++
        (recordBytes httpName 12 0x8001 120 (encodeName instanceHttpName) ++ service.afterPtrs)) := by
  unfold announcement afterPtrs
  rw [fixedRecords.1, fixedRecords.2.1, writeSrvRecord_host, fixedRecords.2.2.1, writeARecord_host,
    List.append_nil]
  simp only [List.append_assoc]

/-- What is read behind the SRV record is read as it was written when the host name is valid. -/
theorem decodeRecords_afterPtrs (hvalid : ValidName service.hostName)
    (hlength : service.srvData.length < 2 ^ 16) :
    decodeRecords 3 service.afterPtrs =
      some ([⟨instanceUpnpName, 0x8001, 120, .srv 0 0 service.port.toNat service.hostName⟩, txtUpnp,
        ⟨service.hostName, 0x8001, 120, .a service.ipAddrBinary⟩], []) := by
  obtain ⟨⟨-, -, hinstance⟩, ⟨-, -, htxt⟩, -, -, htxtLength⟩ := fixedData
  have hdata : service.aData.length < 2 ^ 16 := show 4 < 2 ^ 16 by decide
  rw [afterPtrs, decodeRecords_recordBytes hinstance (by decide) (by decide) (by decide) hlength,
    decodeData_srvData, decodeTarget_encodeName hvalid, Option.map_some, Option.bind_some,
    decodeRecords_recordBytes hinstance (by decide) (by decide) (by decide) htxtLength, htxt,
    Option.bind_some,
    decodeRecords_recordBytes hvalid (by decide) (by decide) (by decide) hdata, decodeData_aData]
  rfl

/-- The record behind the pointers is the first SRV record, whatever follows. -/
theorem srv_of_decodeRecords {records : List Record} {rest : List UInt8}
    (hlength : service.srvData.length < 2 ^ 16)
    (h : decodeRecords 3 service.afterPtrs = some (records, rest)) :
    ∃ target, decodeTarget (encodeName service.hostName) = some target ∧
      firstSrv ⟨0, 0x8400, ptrUpnp :: ptrHttp :: records⟩ = some (service.port.toNat, target) := by
  rw [afterPtrs, decodeRecords_recordBytes fixedData.1.2.2 (by decide) (by decide) (by decide)
    hlength, decodeData_srvData] at h
  obtain ⟨data, hdata, hrest⟩ := Option.bind_eq_some_iff.mp h
  obtain ⟨target, htarget, rfl⟩ := Option.map_eq_some_iff.mp hdata
  obtain ⟨others, -, heq⟩ := Option.map_eq_some_iff.mp hrest
  obtain ⟨rfl, -⟩ := Prod.mk.inj heq
  exact ⟨target, htarget, rfl⟩

/-- The service is announced exactly when its host name fits. -/
theorem announced_iff (service : MdnsService) : service.Announced ↔ service.HostFits := by
  have hlength := service.length_announcement
  constructor
  · rintro ⟨packet, message, hsend, -, hannounces⟩
    have hfits : service.hostname.length ≤ 603 := by
      unfold sendAnnouncement PACKET_SIZE at hsend
      split at hsend
      · omega
      · cases hsend
    refine ⟨valid_hostName_iff.mp ?_, hfits⟩
    obtain rfl : service.announcement = packet := by
      unfold sendAnnouncement at hsend
      split at hsend
      · exact Option.some.inj hsend
      · cases hsend
    have hdecoded := hannounces.decoded
    rw [announcement_eq, decodeMessage_header, decodeRecords_ptrs] at hdecoded
    obtain ⟨hrecords, hmessage⟩ := hdecoded
    obtain ⟨⟨records, rest⟩, hafter, heq⟩ := Option.map_eq_some_iff.mp hrecords
    obtain ⟨target, htarget, hfirst⟩ := srv_of_decodeRecords (length_srvData hfits) hafter
    obtain ⟨hanswers, -⟩ := Prod.mk.inj heq
    rw [hanswers, ← hmessage] at hfirst
    obtain ⟨found, hfound, htext⟩ := hannounces.port
    obtain ⟨-, rfl⟩ := Prod.mk.inj (Option.some.inj (hfirst.symm.trans hfound))
    exact valid_of_decodeNameFrom hostName_noDots (decodeName_of_decodeTarget htarget)
      (htext.trans nameText_hostName.symm)
  · rintro ⟨hvalid, hfits⟩
    have hsmall : service.announcement.length ≤ PACKET_SIZE := by
      rw [hlength, PACKET_SIZE]
      omega
    refine ⟨_, ⟨0, 0x8400, [ptrUpnp, ptrHttp,
      ⟨instanceUpnpName, 0x8001, 120, .srv 0 0 service.port.toNat service.hostName⟩, txtUpnp,
      ⟨service.hostName, 0x8001, 120, .a service.ipAddrBinary⟩]⟩, if_pos hsmall, hsmall, ?_, ?_, ?_⟩
    · rw [announcement_eq, decodeMessage_header, decodeRecords_ptrs,
        decodeRecords_afterPtrs (valid_hostName_iff.mpr hvalid) (length_srvData hfits)]
      exact ⟨rfl, rfl⟩
    · exact ⟨service.hostName, rfl, nameText_hostName⟩
    · exact ⟨service.hostName, rfl, nameText_hostName⟩

/-- A host name that is written as fully qualified, with a dot at its end. -/
def qualified : MdnsService where
  hostname := bytesOf "alpine-host."
  ipAddrBinary := 0xC0A80107#32
  port := 8200

/-- The empty label ends the target of the SRV record before its data end. -/
theorem qualified_not_announced : ¬ qualified.Announced := by
  rintro ⟨packet, message, hsend, -, hannounces⟩
  have hpacket : qualified.sendAnnouncement.bind decodeMessage = none := by decide +kernel
  rw [hsend, Option.bind_some, hannounces.decoded] at hpacket
  cases hpacket

end MdnsService

end Alpine
