import Alpine.Lib.UMap
import Alpine.Lib.Run
import Alpine.Dtcp.Packet

/-!
# The connection map

`DtcpConnectionMap` keeps three indexes over the connections of a multiplexor: by peer id, by
address and the pending ones. A connection is created without a transport (a null entry) and
gets one from `indexConnection`. `T` is the type of transports.

`WellIndexed` says what the three indexes have to do with each other and with the connections
created so far. It holds along every run (`wellIndexed_run`), also after the counter of ids has
gone round: an address is never created twice, and that is what keeps the entries apart.
-/

namespace Alpine

open Lib

/-- `t_IpPortPair`, less its timestamp. -/
structure IpPortPair where
  ipAddress : Nat
  port : Nat
  deriving DecidableEq, Repr

structure ConnectionMap (T : Type) where
  numConnections : Nat
  currConnectionId : Nat
  peerIndex : UMap Nat (Option T)
  addressIndex : UMap Nat (UMap Nat (Option T))
  pendingIndex : UMap Nat IpPortPair

namespace ConnectionMap

variable {T : Type}

/-- The constructor; ids start at the time of day. -/
def new (now : Nat) : ConnectionMap T := ⟨0, now % 2 ^ 64, ∅, ∅, ∅⟩

/-- The entry of the port index of an address, if it has one. -/
def atAddress (m : ConnectionMap T) (a : IpPortPair) : Option (Option T) :=
  match m.addressIndex.find a.ipAddress with
  | none => none
  | some portIndex => portIndex.find a.port

/-- `exists (ipAddress, port)`. -/
def existsAt (m : ConnectionMap T) (ipAddress port : Nat) : Bool :=
  (m.atAddress ⟨ipAddress, port⟩).isSome

/-- `exists (peerId)`. -/
def existsPeer (m : ConnectionMap T) (peerId : Nat) : Bool :=
  if (m.peerIndex.find peerId).isNone then
    if (m.pendingIndex.find peerId).isNone then false else true
  else true

/-- The new id, or `none` for false. -/
def createConnection (m : ConnectionMap T) (ipAddress port : Nat) :
    Option Nat × ConnectionMap T :=
  if m.existsAt ipAddress port then (none, m)
  else
    let peerId := m.currConnectionId
    let portIndex := (m.addressIndex.find ipAddress).getD ∅
    (some peerId, {
      numConnections := (m.numConnections + 1) % 2 ^ 64
      currConnectionId := (m.currConnectionId + 1) % 2 ^ 64
      peerIndex := m.peerIndex.emplace peerId none
      addressIndex := m.addressIndex.assign ipAddress (portIndex.emplace port none)
      pendingIndex := m.pendingIndex.emplace peerId ⟨ipAddress, port⟩ })

def pendingAccept (m : ConnectionMap T) (peerId : Nat) : Bool :=
  (m.pendingIndex.find peerId).isSome

def indexConnection (m : ConnectionMap T) (peerId : Nat) (connection : T) :
    Bool × ConnectionMap T :=
  match m.pendingIndex.find peerId with
  | none => (false, m)
  | some pendingRecord =>
    if (m.peerIndex.find peerId).isNone then (false, m)
    else
      let m := { m with peerIndex := m.peerIndex.assign peerId (some connection) }
      match m.addressIndex.find pendingRecord.ipAddress with
      | none => (false, m)
      | some portIndex =>
        if (portIndex.find pendingRecord.port).isNone then (false, m)
        else
          (true, { m with
            addressIndex := m.addressIndex.assign pendingRecord.ipAddress
              (portIndex.assign pendingRecord.port (some connection))
            pendingIndex := m.pendingIndex.erase peerId })

/-- `locateConnection (peerId, connection)`: `none` is false, `some none` a null transport. -/
def locateConnection (m : ConnectionMap T) (peerId : Nat) : Option (Option T) :=
  m.peerIndex.find peerId

/-- `locateConnection (ipAddress, port, connection)`, which returns no null pointer. -/
def locateConnectionAt (m : ConnectionMap T) (ipAddress port : Nat) : Option T :=
  match m.atAddress ⟨ipAddress, port⟩ with
  | none => none
  | some connection => connection

/-- The body is `return true;`. -/
def removePendingConnection (m : ConnectionMap T) (_peerId : Nat) : Bool × ConnectionMap T :=
  (true, m)

/-- The body is `return true;`. -/
def removeConnection (m : ConnectionMap T) (_connection : T) : Bool × ConnectionMap T := (true, m)

/-! ## What the operations do to the indexes -/

theorem atAddress_assign (m : ConnectionMap T) (ip port : Nat) (portIndex : UMap Nat (Option T))
    (hport : portIndex = (m.addressIndex.find ip).getD ∅) (x : Option T)
    (index : UMap Nat (Option T))
    (hindex : ∀ q, index.find q = if q = port then some x else portIndex.find q)
    (p : UMap Nat (Option T)) (n : UMap Nat IpPortPair) (i j : Nat) (a : IpPortPair) :
    atAddress ⟨i, j, p, m.addressIndex.assign ip index, n⟩ a =
      if a = ⟨ip, port⟩ then some x else m.atAddress a := by
  obtain ⟨ip', port'⟩ := a
  unfold atAddress
  by_cases hip : ip' = ip
  · subst hip
    simp only [UMap.find_assign, if_true, hindex, IpPortPair.mk.injEq, true_and]
    split
    · rfl
    · subst hport
      cases h : m.addressIndex.find ip' <;> simp
  · simp [hip]

theorem createConnection_cases (m : ConnectionMap T) (ip port : Nat) :
    (m.existsAt ip port = true ∧ m.createConnection ip port = (none, m)) ∨
    (m.existsAt ip port = false ∧
      (m.createConnection ip port).1 = some m.currConnectionId ∧
      (m.createConnection ip port).2.peerIndex = m.peerIndex.emplace m.currConnectionId none ∧
      (m.createConnection ip port).2.pendingIndex =
        m.pendingIndex.emplace m.currConnectionId ⟨ip, port⟩ ∧
      ∀ a, (m.createConnection ip port).2.atAddress a =
        if a = ⟨ip, port⟩ then some none else m.atAddress a) := by
  by_cases hex : m.existsAt ip port
  · exact .inl ⟨hex, by simp [createConnection, hex]⟩
  · rw [Bool.not_eq_true] at hex
    refine .inr ⟨hex, ?_⟩
    have hnone : ((m.addressIndex.find ip).getD ∅).find port = none := by
      have h : m.atAddress ⟨ip, port⟩ = none := by
        unfold existsAt at hex
        simpa using hex
      unfold atAddress at h
      cases hf : m.addressIndex.find ip with
      | none => simp
      | some portIndex => simpa [hf] using h
    simp only [createConnection, hex, Bool.false_eq_true, if_false, true_and]
    intro a
    exact m.atAddress_assign ip port _ rfl none _ (fun q => by simp [hnone]) _ _ _ _ a

theorem indexConnection_cases (m : ConnectionMap T) (peerId : Nat) (t : T) {r : IpPortPair}
    (hpend : m.pendingIndex.find peerId = some r) (hpeer : (m.peerIndex.find peerId).isSome)
    (haddr : (m.atAddress r).isSome) :
    (m.indexConnection peerId t).1 = true ∧
      (m.indexConnection peerId t).2.peerIndex = m.peerIndex.assign peerId (some t) ∧
      (m.indexConnection peerId t).2.pendingIndex = m.pendingIndex.erase peerId ∧
      ∀ a, (m.indexConnection peerId t).2.atAddress a =
        if a = r then some (some t) else m.atAddress a := by
  have hpeer' : (m.peerIndex.find peerId).isNone = false := by
    cases h : m.peerIndex.find peerId <;> simp_all
  unfold atAddress at haddr
  cases hip : m.addressIndex.find r.ipAddress with
  | none => simp [hip] at haddr
  | some portIndex =>
    have hport : (portIndex.find r.port).isNone = false := by
      cases h : portIndex.find r.port <;> simp_all
    simp only [indexConnection, hpend, hpeer', hip, hport, Bool.false_eq_true, if_false, true_and]
    intro a
    exact m.atAddress_assign r.ipAddress r.port portIndex (by simp [hip]) (some t) _
      (fun q => by simp) _ _ _ _ a

theorem indexConnection_not_pending {m : ConnectionMap T} {peerId : Nat}
    (hp : m.pendingAccept peerId ≠ true) (t : T) : m.indexConnection peerId t = (false, m) := by
  unfold pendingAccept at hp
  have hnone : m.pendingIndex.find peerId = none := by simpa using hp
  simp [indexConnection, hnone]

/-! ## Runs -/

/-- The calls other code makes. -/
inductive Op (T : Type) where
  | createConnection (ipAddress port : Nat)
  | indexConnection (peerId : Nat) (connection : T)
  | removePendingConnection (peerId : Nat)
  | removeConnection (connection : T)
  deriving DecidableEq, Repr

/-- A connection that was created. -/
structure Created where
  peerId : Nat
  address : IpPortPair
  deriving DecidableEq, Repr

/-- The map under its calls; it tells which connections it created. -/
def machine : Machine (ConnectionMap T) (Op T) Created where
  step m
    | .createConnection ip port =>
      ((m.createConnection ip port).2,
        ((m.createConnection ip port).1.map fun peerId => ⟨peerId, ip, port⟩).toList)
    | .indexConnection peerId connection => ((m.indexConnection peerId connection).2, [])
    | .removePendingConnection peerId => ((m.removePendingConnection peerId).2, [])
    | .removeConnection connection => ((m.removeConnection connection).2, [])

/-- What the indexes hold of the connections `h` created so far. -/
structure WellIndexed (h : List Created) (m : ConnectionMap T) : Prop where
  /-- A connection keeps its entries for good. -/
  peer : ∀ c ∈ h, (m.peerIndex.find c.peerId).isSome
  address : ∀ c ∈ h, (m.atAddress c.address).isSome
  addressInj : ∀ c ∈ h, ∀ c' ∈ h, c.address = c'.address → c = c'
  pending : ∀ peerId a, m.pendingIndex.find peerId = some a → ⟨peerId, a⟩ ∈ h
  null : ∀ peerId, m.peerIndex.find peerId = some none → (m.pendingIndex.find peerId).isSome
  established : ∀ peerId t, m.peerIndex.find peerId = some (some t) →
    ∃ c ∈ h, c.peerId = peerId ∧ m.atAddress c.address = some (some t)

theorem wellIndexed_new (now : Nat) : WellIndexed [] (new now : ConnectionMap T) := by
  constructor <;> simp [new]

section Steps

variable {h : List Created} {m : ConnectionMap T}

theorem WellIndexed.create (hm : WellIndexed h m) {ip port : Nat}
    (hnew : m.existsAt ip port = false) :
    WellIndexed (h ++ [⟨m.currConnectionId, ip, port⟩]) (m.createConnection ip port).2 := by
  obtain ⟨hex, -⟩ | ⟨-, -, hpeer, hpend, haddr⟩ := m.createConnection_cases ip port
  · rw [hnew] at hex
    cases hex
  -- The address has not been used before; the id may have been.
  have hfresh : ∀ c ∈ h, c.address ≠ ⟨ip, port⟩ := by
    intro c hc heq
    have := hm.address c hc
    rw [heq] at this
    rw [existsAt, this] at hnew
    cases hnew
  constructor
  · intro c hc
    rw [hpeer, UMap.find_emplace]
    split
    · rfl
    · next hne =>
      rcases List.mem_append.mp hc with hc | hc
      · exact hm.peer c hc
      · rw [List.mem_singleton] at hc
        exact absurd (congrArg Created.peerId hc) hne
  · intro c hc
    rw [haddr]
    split
    · rfl
    · next hne =>
      rcases List.mem_append.mp hc with hc | hc
      · exact hm.address c hc
      · rw [List.mem_singleton] at hc
        exact absurd (congrArg Created.address hc) hne
  · intro c hc c' hc' heq
    simp only [List.mem_append, List.mem_singleton] at hc hc'
    rcases hc with hc | rfl <;> rcases hc' with hc' | rfl
    · exact hm.addressInj c hc c' hc' heq
    · exact absurd heq (hfresh c hc)
    · exact absurd heq.symm (hfresh c' hc')
    · rfl
  · intro peerId a hp
    rw [hpend, UMap.find_emplace] at hp
    split at hp
    · next heq =>
      subst heq
      cases hold : m.pendingIndex.find m.currConnectionId with
      | none =>
        rw [hold] at hp
        cases hp
        exact List.mem_append_right _ (List.mem_singleton_self _)
      | some a' =>
        rw [hold] at hp
        cases hp
        exact List.mem_append_left _ (hm.pending _ _ hold)
    · exact List.mem_append_left _ (hm.pending _ _ hp)
  · intro peerId hp
    rw [hpend, UMap.find_emplace]
    rw [hpeer, UMap.find_emplace] at hp
    split at hp
    · next heq => rw [if_pos heq]; rfl
    · next hne => rw [if_neg hne]; exact hm.null peerId hp
  · intro peerId t hp
    have hold : m.peerIndex.find peerId = some (some t) := by
      rw [hpeer, UMap.find_emplace] at hp
      split at hp
      · next heq =>
        subst heq
        cases hf : m.peerIndex.find m.currConnectionId <;> simp_all
      · exact hp
    obtain ⟨c, hc, hid, hat⟩ := hm.established peerId t hold
    exact ⟨c, List.mem_append_left _ hc, hid, by rw [haddr, if_neg (hfresh c hc)]; exact hat⟩

theorem WellIndexed.index (hm : WellIndexed h m) (peerId : Nat) (t : T) :
    WellIndexed h (m.indexConnection peerId t).2 := by
  cases hpend : m.pendingIndex.find peerId with
  | none => simpa only [indexConnection, hpend] using hm
  | some r =>
    have hr : ⟨peerId, r⟩ ∈ h := hm.pending peerId r hpend
    obtain ⟨-, hpeer, hpend', haddr⟩ :=
      m.indexConnection_cases peerId t hpend (hm.peer _ hr) (hm.address _ hr)
    constructor
    · intro c hc
      rw [hpeer, UMap.find_assign]
      split
      · rfl
      · exact hm.peer c hc
    · intro c hc
      rw [haddr]
      split
      · rfl
      · exact hm.address c hc
    · exact hm.addressInj
    · intro id a hp
      rw [hpend', UMap.find_erase] at hp
      split at hp
      · cases hp
      · exact hm.pending id a hp
    · intro id hp
      rw [hpeer, UMap.find_assign] at hp
      rw [hpend', UMap.find_erase]
      split at hp
      · cases hp
      · next hne => rw [if_neg hne]; exact hm.null id hp
    · intro id u hp
      rw [hpeer, UMap.find_assign] at hp
      split at hp
      · next heq =>
        cases hp
        exact ⟨_, hr, heq.symm, by rw [haddr, if_pos rfl]⟩
      · next hne =>
        obtain ⟨c, hc, hid, hat⟩ := hm.established id u hp
        have hca : c.address ≠ r := by
          intro heq
          have hcr := hm.addressInj c hc _ hr heq
          exact hne (by rw [← hid, hcr])
        exact ⟨c, hc, hid, by rw [haddr, if_neg hca]; exact hat⟩

/-- For a pending id `indexConnection` succeeds. -/
theorem WellIndexed.indexConnection_pending (hm : WellIndexed h m) {peerId : Nat}
    (hp : m.pendingAccept peerId = true) (t : T) : (m.indexConnection peerId t).1 = true := by
  obtain ⟨r, hr⟩ := Option.isSome_iff_exists.mp hp
  have hmem := hm.pending peerId r hr
  exact (m.indexConnection_cases peerId t hr (hm.peer _ hmem) (hm.address _ hmem)).1

theorem WellIndexed.step (hm : WellIndexed h m) (op : Op T) :
    WellIndexed (h ++ (machine.step m op).2) (machine.step m op).1 := by
  cases op with
  | createConnection ip port =>
    obtain ⟨-, hsame⟩ | ⟨hnew, hsome, -⟩ := m.createConnection_cases ip port
    · simpa only [machine, hsame, Option.map_none, Option.toList_none, List.append_nil] using hm
    · simpa only [machine, hsome, Option.map_some, Option.toList_some] using hm.create hnew
  | indexConnection peerId t => simpa only [machine, List.append_nil] using hm.index peerId t
  | removePendingConnection peerId =>
    simpa only [machine, removePendingConnection, List.append_nil] using hm
  | removeConnection t => simpa only [machine, removeConnection, List.append_nil] using hm

end Steps

/-- The indexes agree in every state a map reaches. -/
theorem wellIndexed_run (now : Nat) (ops : List (Op T)) :
    WellIndexed (machine.run (new now) ops).2 (machine.run (new now) ops).1 :=
  Machine.run_invariant (fun _ _ op hm => hm.step op) (h := []) ops (wellIndexed_new now)

/-! ## Lookups -/

/-- A connection without a transport is pending. The converse fails only where an id was handed
out a second time. -/
theorem WellIndexed.locate_null {h : List Created} {m : ConnectionMap T} (hm : WellIndexed h m)
    {peerId : Nat} (hl : m.locateConnection peerId = some none) :
    m.pendingAccept peerId = true :=
  hm.null peerId hl

/-- A pending one is located. -/
theorem WellIndexed.locate_pending {h : List Created} {m : ConnectionMap T}
    (hm : WellIndexed h m) {peerId : Nat} (hp : m.pendingAccept peerId = true) :
    (m.locateConnection peerId).isSome := by
  obtain ⟨a, ha⟩ := Option.isSome_iff_exists.mp hp
  exact hm.peer _ (hm.pending peerId a ha)

/-- An established one has its transport under its address too. -/
theorem WellIndexed.locate_established {h : List Created} {m : ConnectionMap T}
    (hm : WellIndexed h m) {peerId : Nat} {t : T}
    (hl : m.locateConnection peerId = some (some t)) :
    ∃ c ∈ h, c.peerId = peerId ∧
      m.locateConnectionAt c.address.ipAddress c.address.port = some t := by
  obtain ⟨c, hc, hid, hat⟩ := hm.established peerId t hl
  exact ⟨c, hc, hid, by unfold locateConnectionAt; simp [hat]⟩

end ConnectionMap

/-!
## From a datagram to its transport

`handleConnDataPacket`, `handleConnReliableDataPacket` and `handleConnDataAckPacket` begin alike:
parse the connection packet, locate the transport of its peer id, and use the transport. What
each does with the transport is not here. The lookup reports a connection that is still pending
as located, with a null transport, so the three handlers are right about a packet exactly when it
does not name a pending peer id (`handledSafely_iff_not_pending`).
-/

open ConnectionMap

/-- What a handler does with a packet, up to its use of the transport. -/
inductive Dispatch (T : Type) where
  | rejected
  /-- The transport is null. -/
  | null (peerId : Nat)
  | transport (peerId : Nat) (transport : T)
  deriving DecidableEq, Repr

/-- `t_IncomingMessage`: where a packet came from, its type and the bytes after its header. -/
structure IncomingMessage where
  ipAddress : Nat
  port : Nat
  packetType : PacketType
  dataBuffer : DataBuffer

/-- A new `DtcpConnPacket` of the packet's type that reads the rest of it. -/
def IncomingMessage.parse (request : IncomingMessage) : Option (DtcpConnPacket Empty) :=
  match (DtcpConnPacket.fresh 0 0 request.packetType : DtcpConnPacket Empty).readData
      request.dataBuffer with
  | .error _ => none
  | .ok (dtcpConnPacket, _) => some dtcpConnPacket

variable {T : Type}

/-- The common start of the three handlers, from `readData` to the use of the transport. -/
def dispatch (m : ConnectionMap T) (request : IncomingMessage) : Dispatch T :=
  match request.parse with
  | none => .rejected
  | some dtcpConnPacket =>
    match m.locateConnection dtcpConnPacket.peerId with
    | none => .rejected
    | some none => .null dtcpConnPacket.peerId
    | some (some transport) => .transport dtcpConnPacket.peerId transport

/-- A packet is handled right: it is rejected, or it goes to a transport that the map has both for
the peer id and for the address the connection `peerId` was created for; and a pending peer id is
not reported as located. -/
structure HandledSafely (h : List Created) (m : ConnectionMap T) (request : IncomingMessage) :
    Prop where
  notNull : ∀ peerId, dispatch m request ≠ .null peerId
  agreed : ∀ peerId transport, dispatch m request = .transport peerId transport →
    m.locateConnection peerId = some (some transport) ∧ ∃ c ∈ h, c.peerId = peerId ∧
      m.locateConnectionAt c.address.ipAddress c.address.port = some transport
  notLocated : ∀ packet, request.parse = some packet → m.pendingAccept packet.peerId = true →
    m.locateConnection packet.peerId = none

/-- The packet parses and names a peer id whose handshake is not over. -/
def NamesPending (m : ConnectionMap T) (request : IncomingMessage) : Prop :=
  ∃ packet, request.parse = some packet ∧ m.pendingAccept packet.peerId = true

theorem dispatch_null {m : ConnectionMap T} {request : IncomingMessage} {peerId : Nat}
    (h : dispatch m request = .null peerId) :
    ∃ packet, request.parse = some packet ∧ packet.peerId = peerId ∧
      m.locateConnection peerId = some none := by
  unfold dispatch at h
  cases hp : request.parse with
  | none => simp [hp] at h
  | some packet =>
    simp only [hp] at h
    split at h
    · cases h
    · next hl =>
      cases h
      exact ⟨packet, rfl, rfl, hl⟩
    · cases h

theorem dispatch_transport {m : ConnectionMap T} {request : IncomingMessage} {peerId : Nat} {t : T}
    (h : dispatch m request = .transport peerId t) :
    m.locateConnection peerId = some (some t) := by
  unfold dispatch at h
  split at h
  · cases h
  · split at h
    · cases h
    · cases h
    · next hl =>
      cases h
      exact hl

theorem ConnectionMap.WellIndexed.handledSafely_iff {h : List Created} {m : ConnectionMap T}
    (hm : WellIndexed h m) (request : IncomingMessage) :
    HandledSafely h m request ↔ ¬ NamesPending m request := by
  constructor
  · rintro ⟨-, -, hnot⟩ ⟨packet, hparse, hpend⟩
    have hloc := hm.locate_pending hpend
    rw [hnot packet hparse hpend] at hloc
    cases hloc
  · intro hnot
    refine ⟨?_, ?_, ?_⟩
    · intro peerId hnull
      obtain ⟨packet, hparse, rfl, hl⟩ := dispatch_null hnull
      exact hnot ⟨packet, hparse, hm.locate_null hl⟩
    · intro peerId t ht
      have hl := dispatch_transport ht
      exact ⟨hl, hm.locate_established hl⟩
    · intro packet hparse hpend
      exact absurd ⟨packet, hparse, hpend⟩ hnot

/-- In every state a map reaches, whatever packet arrives: the handlers do right by it exactly if
it does not name a pending peer id. -/
theorem handledSafely_iff_not_pending (now : Nat) (ops : List (Op T)) (request : IncomingMessage) :
    HandledSafely (machine.run (new now) ops).2 (machine.run (new now) ops).1 request ↔
      ¬ NamesPending (machine.run (new now) ops).1 request :=
  (wellIndexed_run now ops).handledSafely_iff request

/-- A data packet from anywhere that names peer id 1000. -/
def dataFor1000 : IncomingMessage := ⟨1, 2, .connData, DataBuffer.ofData (putLong 1000 ++ [7])⟩

/-- While the handshake is going on, the packet reaches a null transport. -/
theorem pending_reaches_null :
    dispatch (machine.run (new 1000) [Op.createConnection (T := Bool) 1 2]).1 dataFor1000 =
        .null 1000 ∧
      ¬ HandledSafely (machine.run (new 1000) [Op.createConnection (T := Bool) 1 2]).2
        (machine.run (new 1000) [Op.createConnection (T := Bool) 1 2]).1 dataFor1000 := by
  have h : dispatch (machine.run (new 1000) [Op.createConnection (T := Bool) 1 2]).1 dataFor1000 =
      .null 1000 := by decide
  exact ⟨h, fun hs => hs.notNull 1000 h⟩

end Alpine
