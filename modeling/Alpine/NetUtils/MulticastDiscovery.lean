import Alpine.Lib.Json
import Alpine.Lib.Search

/-!
# Announcements by multicast

A node announces itself with a JSON text that it puts together without escaping. A receiver does
not parse the text: it looks for the names of the members, in quotes, wherever they are first found,
and takes what is in the next quotes or behind the next colon. An id or an address that is one of
the words it looks for is taken for the name of a member. Texts are lists of characters, one for a
byte.
-/

namespace Alpine

open Lib

/-- `t_DiscoveredPeer` with the texts that were received, without the time. -/
structure AnnouncedPeer where
  peerId : List Char
  ipAddress : List Char
  port : Nat
  restPort : Nat
  protocolVersion : Nat
  capabilities : Nat
deriving DecidableEq, Repr

/-- Ports have 16 bits. -/
structure MulticastDiscovery where
  peerId : List Char
  ipAddress : List Char
  port : UInt16
  restPort : UInt16
  capabilities : Nat

namespace MulticastDiscovery

def CAP_QUERY : Nat := 0x01

def CAP_TRANSFER : Nat := 0x02

def CAP_MEDIA : Nat := 0x04

/-! The words that are looked for. -/

def discoverName : List Char :=
  ['a', 'l', 'p', 'i', 'n', 'e', '_', 'd', 'i', 's', 'c', 'o', 'v', 'e', 'r']

def peerIdName : List Char := ['p', 'e', 'e', 'r', 'I', 'd']

def ipAddressName : List Char := ['i', 'p', 'A', 'd', 'd', 'r', 'e', 's', 's']

def portName : List Char := ['p', 'o', 'r', 't']

def restPortName : List Char := ['r', 'e', 's', 't', 'P', 'o', 'r', 't']

def queryName : List Char := ['q', 'u', 'e', 'r', 'y']

def transferName : List Char := ['t', 'r', 'a', 'n', 's', 'f', 'e', 'r']

def mediaName : List Char := ['m', 'e', 'd', 'i', 'a']

def quoted (word : List Char) : List Char := quotedBy '"' word

/-! ## Sending -/

/-- The array so far, and whether the next name is the first. -/
def appendCapability (capabilities flag : Nat) (name : List Char) (capStr : List Char × Bool) :
    List Char × Bool :=
  if capabilities &&& flag ≠ 0 then
    (capStr.1 ++ (if capStr.2 then [] else [',', ' ']) ++ quoted name, false)
  else capStr

def capStr (capabilities : Nat) : List Char :=
  let capStr := appendCapability capabilities CAP_QUERY queryName (['['], true)
  let capStr := appendCapability capabilities CAP_TRANSFER transferName capStr
  (appendCapability capabilities CAP_MEDIA mediaName capStr).1 ++ [']']

/-- What `sendAnnouncement` sends at a time. -/
def announcement (node : MulticastDiscovery) (now : Int) : List Char :=
  "\x7b\"type\": \"alpine_discover\", \"version\": \"1\", \"peerId\": \"".toList ++ node.peerId ++
    "\", \"ipAddress\": \"".toList ++ node.ipAddress ++
    "\", \"port\": ".toList ++ Nat.toDigits 10 node.port.toNat ++
    ", \"restPort\": ".toList ++ Nat.toDigits 10 node.restPort.toNat ++
    ", \"capabilities\": ".toList ++ capStr node.capabilities ++
    ", \"timestamp\": ".toList ++ signed now ++ "\x7d".toList

/-! ## Receiving

`none` is a read outside of the text, or the exception of `substr`. -/

def substr (s : List Char) (pos count : Nat) : Option (List Char) :=
  if pos ≤ s.length then some ((s.drop pos).take count) else none

/-- The text of a C function that begins at a place; there is none behind the terminator. -/
def cStringAt (s : List Char) (pos : Nat) : Option (List Char) :=
  if pos ≤ s.length then some (cString (s.drop pos)) else none

/-- `strtol`, with the limits of a `long`, cut to 32 bits. -/
def atoi (s : List Char) : Int :=
  let signed := takeSign (s.dropWhile isSpace)
  let value : Int := Nat.ofDigitChars 10 (signed.2.takeWhile Char.isDigit) 0
  (max (-2 ^ 63) (min (if signed.1 then -value else value) (2 ^ 63 - 1))).bmod (2 ^ 32)

/-- The place of the first character that is not a blank, of what is left from `valStart` on. -/
def skipBlanks : List Char → Nat → Nat
  | ' ' :: s, valStart => skipBlanks s (valStart + 1)
  | _, valStart => valStart

/-- The text of a member. -/
def textAfter (msg key : List Char) : Option (List Char) :=
  match find (quoted key) msg 0 with
  | none => some []
  | some pos =>
    match find ['"'] msg (pos + (quoted key).length) with
    | none => some []
    | some quote =>
      match find ['"'] msg (quote + 1) with
      | none => some []
      | some valEnd => substr msg (quote + 1) (valEnd - (quote + 1))

/-- The number of a member. -/
def numberAfter (msg key : List Char) : Option Nat :=
  match find (quoted key) msg 0 with
  | none => some 0
  | some pos =>
    match find [':'] msg (pos + (quoted key).length) with
    | none => some 0
    | some colon => do
      let text ← cStringAt msg (skipBlanks (msg.drop (colon + 1)) (colon + 1))
      some (atoi text % 2 ^ 16).toNat

def contains (msg key : List Char) : Bool := (find (quoted key) msg 0).isSome

def receivedCapabilities (msg : List Char) : Nat :=
  (if contains msg queryName then CAP_QUERY else 0) |||
    (if contains msg transferName then CAP_TRANSFER else 0) |||
    (if contains msg mediaName then CAP_MEDIA else 0)

/-- The peer that is reported, if any. -/
def handleReceived (node : MulticastDiscovery) (msg : List Char) :
    Option (Option AnnouncedPeer) :=
  if contains msg discoverName then do
    let peerId ← textAfter msg peerIdName
    if peerId = [] ∨ peerId = node.peerId then some none
    else do
      let ipAddress ← textAfter msg ipAddressName
      let port ← numberAfter msg portName
      let restPort ← numberAfter msg restPortName
      some (some ⟨peerId, ipAddress, port, restPort, 1, receivedCapabilities msg⟩)
  else some none

/-! ## What is to be received -/

/-- The peer that a node announces. -/
def announced (node : MulticastDiscovery) : AnnouncedPeer :=
  ⟨node.peerId, node.ipAddress, node.port.toNat, node.restPort.toNat, 1, node.capabilities⟩

/-- An announcement tells the receiver who its sender is, unless that is the receiver itself. -/
def Announces (sender receiver : MulticastDiscovery) (now : Int) : Prop :=
  receiver.handleReceived (announcement sender now) =
    some (if sender.peerId = receiver.peerId then none else some (announced sender))

/-- A JSON object of the type of the announcements. -/
def IsAnnouncement (msg : List Char) : Prop :=
  ∃ members, parse msg = some (.object members) ∧
    (['t', 'y', 'p', 'e'], Json.str discoverName) ∈ members

/-- A text that is no announcement is not reported. -/
def Ignores (receiver : MulticastDiscovery) (msg : List Char) : Prop :=
  ¬ IsAnnouncement msg → receiver.handleReceived msg = some none

/-- The id and the address have no quotes, and are none of the words that are looked for, unless
what is then found is what was meant. -/
structure Plain (sender : MulticastDiscovery) : Prop where
  peerId : sender.peerId ≠ [] ∧ '"' ∉ sender.peerId
  ipAddress : '"' ∉ sender.ipAddress
  address : sender.peerId = ipAddressName → sender.ipAddress = ipAddressName
  port : sender.peerId = portName → sender.port = 0
  restPort : sender.peerId = restPortName → sender.restPort = 0
  otherPort : sender.peerId ≠ restPortName → sender.ipAddress = restPortName →
    sender.restPort = sender.port
  capabilities : sender.capabilities < 8
  query : sender.peerId = queryName ∨ sender.ipAddress = queryName →
    sender.capabilities &&& CAP_QUERY ≠ 0
  transfer : sender.peerId = transferName ∨ sender.ipAddress = transferName →
    sender.capabilities &&& CAP_TRANSFER ≠ 0
  media : sender.peerId = mediaName ∨ sender.ipAddress = mediaName →
    sender.capabilities &&& CAP_MEDIA ≠ 0

/-- A node that hears itself has no quotes in its id, or nothing before the first of them. -/
def Fits (sender receiver : MulticastDiscovery) : Prop :=
  if sender.peerId = receiver.peerId then
    '"' ∉ sender.peerId ∨ sender.peerId.head? = some '"'
  else sender.Plain

/-- A text is none of the announcements that are looked for, or has no id that is not the
receiver's. -/
def Unmarked (receiver : MulticastDiscovery) (msg : List Char) : Prop :=
  contains msg discoverName = false ∨ textAfter msg peerIdName = some [] ∨
    textAfter msg peerIdName = some receiver.peerId

/-! ## Reading in a text -/

/-- What is in the next quotes. -/
def textOf (rest : Option (List Char)) : List Char :=
  match rest.bind (behind ['"']) with
  | none => []
  | some s => if '"' ∈ s then s.takeWhile (· ≠ '"') else []

/-- The number behind the next colon. -/
def numberOf (rest : Option (List Char)) : Nat :=
  match rest.bind (behind [':']) with
  | none => 0
  | some s => (atoi (cString (s.dropWhile (· = ' '))) % 2 ^ 16).toNat

theorem contains_eq (msg key : List Char) :
    contains msg key = (behind (quoted key) msg).isSome := by
  unfold contains
  rcases find_spec (quoted key) msg (Nat.zero_le _) with ⟨hnone, hbehind⟩ |
    ⟨pos, hsome, -, -, hbehind⟩
  · rw [hnone, show behind (quoted key) msg = none from hbehind]
    rfl
  · rw [hsome, show behind (quoted key) msg = some (msg.drop (pos + (quoted key).length))
      from hbehind]
    rfl

/-- The text of a member is read inside of the message. -/
theorem textAfter_eq (msg key : List Char) :
    textAfter msg key = some (textOf (behind (quoted key) msg)) := by
  unfold textAfter textOf
  rcases find_spec (quoted key) msg (Nat.zero_le _) with ⟨hnone, hbehind⟩ |
    ⟨pos, hsome, -, hle, hbehind⟩
  · rw [hnone, show behind (quoted key) msg = none from hbehind]
    rfl
  · rw [hsome, show behind (quoted key) msg = some (msg.drop (pos + (quoted key).length))
      from hbehind, Option.bind_some]
    dsimp only
    rcases find_char_spec '"' msg hle with ⟨hnone, hmem⟩ | ⟨a, hsome, hlt, ha, hs⟩
    · rw [hnone, behind_not_mem hmem]
    · rw [hsome, hs, behind_append ha]
      dsimp only
      have hquote : pos + (quoted key).length + a.length + 1 ≤ msg.length := hlt
      rcases find_char_spec '"' msg hquote with ⟨hnone, hmem⟩ | ⟨b, hsome, hlt, hb, hs⟩
      · rw [hnone, if_neg hmem]
      · rw [hsome, hs, if_pos (List.mem_append_right _ (List.mem_cons_self ..)),
          takeWhile_append_separator hb]
        dsimp only
        unfold substr
        rw [if_pos (by omega), hs, Nat.add_sub_cancel_left, List.take_left]

theorem skipBlanks_eq (s : List Char) (valStart : Nat) :
    skipBlanks s valStart = valStart + (s.takeWhile (· = ' ')).length := by
  induction s generalizing valStart with
  | nil => rfl
  | cons c s ih =>
    by_cases hc : c = ' '
    · subst hc
      rw [skipBlanks, ih, List.takeWhile_cons_of_pos rfl, List.length_cons]
      omega
    · rw [skipBlanks, List.takeWhile_cons_of_neg (by simpa using hc)]
      · rfl
      · rintro s' h
        injection h with h
        exact hc h

/-- The number of a member is read inside of the message. -/
theorem numberAfter_eq (msg key : List Char) :
    numberAfter msg key = some (numberOf (behind (quoted key) msg)) := by
  unfold numberAfter numberOf
  rcases find_spec (quoted key) msg (Nat.zero_le _) with ⟨hnone, hbehind⟩ |
    ⟨pos, hsome, -, hle, hbehind⟩
  · rw [hnone, show behind (quoted key) msg = none from hbehind]
    rfl
  · rw [hsome, show behind (quoted key) msg = some (msg.drop (pos + (quoted key).length))
      from hbehind, Option.bind_some]
    dsimp only
    rcases find_char_spec ':' msg hle with ⟨hnone, hmem⟩ | ⟨a, hsome, hlt, ha, hs⟩
    · rw [hnone, behind_not_mem hmem]
    · have hsplit := List.takeWhile_append_dropWhile (p := (· = ' '))
        (l := msg.drop (pos + (quoted key).length + a.length + 1))
      have hlength := congrArg List.length hsplit
      rw [List.length_append, List.length_drop] at hlength
      rw [hsome, hs, behind_append ha]
      dsimp only
      unfold cStringAt
      rw [skipBlanks_eq, if_pos (by omega), ← List.drop_drop]
      nth_rewrite 2 [← hsplit]
      rw [List.drop_left]
      rfl

end MulticastDiscovery

end Alpine
