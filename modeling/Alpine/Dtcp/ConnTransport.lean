import Alpine.Dtcp.LinkSend
import Alpine.Dtcp.PendingAckMap
import Alpine.Lib.Run

/-!
# Transports and their reliable requests

A process has its transports, one counter of sequence numbers for all of them and one
retransmission table. The functions are those of `DtcpBaseConnTransport`, `DtcpBaseConnMux` and
`DtcpBaseUdpTransport` through which the three are used. `T` is the type of transports, by address;
a transport object is there from the start, as its constructor leaves it.

The buffer and the send queue that a packet meets are an input (`SendOutcome`); whether it is
written its `LinkWriter` says, and with that of the code no request is ever accepted
(`sendReliablePacket_fails`). The multiplexor's own requests are in the same table without a
requestor. Retransmissions go one pass of the timer loop at a time (`PendingAckMap.retry`).
-/

namespace Alpine

open Lib

structure ConnTransport where
  myId : Nat
  peerIpAddress : Nat
  peerPort : Nat
  pendingAck : Bool
  requestId : Nat
  sendSequenceNum : Nat
  recvSequenceNum : Nat
  deriving DecidableEq, Repr

namespace ConnTransport

/-- The constructor. -/
def new : ConnTransport := ⟨0, 0, 0, false, 0, 0, 0⟩

/-- The packet of a reliable send, with the number `sequenceNum`. -/
def reliablePacket (t : ConnTransport) (data : List UInt8) (sequenceNum : Nat) : ConnPacket :=
  { (DtcpConnPacket.fresh 0 0 .connReliableData : ConnPacket) with
    parent := some ⟨none, data, []⟩, peerIpAddress := t.peerIpAddress, peerPort := t.peerPort
    myId := t.myId, sequenceNum }

/-- The packet of `sendDataAck`. -/
def dataAckPacket (t : ConnTransport) : ConnPacket :=
  { (DtcpConnPacket.fresh 0 0 .connDataAck : ConnPacket) with
    peerIpAddress := t.peerIpAddress, peerPort := t.peerPort, myId := t.myId
    sequenceNum := t.recvSequenceNum }

def setRecvSequenceNum (t : ConnTransport) (recvSequenceNum : Nat) : ConnTransport :=
  { t with recvSequenceNum }

def setPeerLocation (t : ConnTransport) (peerIpAddress peerPort : Nat) : ConnTransport :=
  { t with peerIpAddress, peerPort }

/-- The part of `handleSendFailure (id)` and of `handleSendReceived (id)` that is the same. -/
def requestDone (t : ConnTransport) (id : Nat) : Bool × ConnTransport :=
  if id ≠ t.requestId then (false, t) else (true, { t with pendingAck := false })

def handleSendFailure (t : ConnTransport) (id : Nat) : Bool × ConnTransport := t.requestDone id

def handleSendReceived (t : ConnTransport) (id : Nat) : Bool × ConnTransport := t.requestDone id

end ConnTransport

structure Process (T : Type) where
  transports : T → ConnTransport
  /-- `DtcpBaseConnTransport::currSequenceNum_s`. -/
  currSequenceNum : Nat
  ackMap : PendingAckMap T

/-- What became of the reliable requests of a transport. -/
inductive TransportEvent (T : Type) where
  /-- `sendReliablePacket` returned true. -/
  | accepted (transport : T) (id : Nat)
  | received (transport : T) (id : Nat)
  | failed (transport : T) (id : Nat)
  /-- `acknowledgeTransfer` returned true. -/
  | acknowledged (transport : T) (id : Nat)
  deriving DecidableEq, Repr

namespace Process

variable {T : Type}

def new (configured : Option Int) : Process T :=
  ⟨fun _ => ConnTransport.new, 0, PendingAckMap.new configured⟩

variable [DecidableEq T]

def setTransport (p : Process T) (t : T) (transport : ConnTransport) : Process T :=
  { p with transports := Function.update p.transports t transport }

@[simp] theorem setTransport_ackMap (p : Process T) (t : T) (transport : ConnTransport) :
    (p.setTransport t transport).ackMap = p.ackMap := rfl

@[simp] theorem setTransport_self (p : Process T) (t : T) (transport : ConnTransport) :
    (p.setTransport t transport).transports t = transport := Function.update_self _ _ _

theorem setTransport_other (p : Process T) {t t' : T} (hne : t' ≠ t) (transport : ConnTransport) :
    (p.setTransport t transport).transports t' = p.transports t' := Function.update_of_ne hne _ _

/-- The packet that `t` sends next. -/
def nextPacket (p : Process T) (t : T) (data : List UInt8) : ConnPacket :=
  (p.transports t).reliablePacket data ((p.currSequenceNum + 1) % 2 ^ 64)

/-- `DtcpBaseConnTransport::sendReliablePacket`; the counter skips zero after the number was
taken. -/
def sendReliablePacket [LinkWriter] (p : Process T) (t : T) (data : List UInt8) (o : SendOutcome) :
    Bool × Process T × List (TransportEvent T) :=
  let transport := p.transports t
  if transport.pendingAck then (false, p, [])
  else
    let packet := p.nextPacket t data
    let currSequenceNum := (p.currSequenceNum + 1) % 2 ^ 64
    let transport := { transport with sendSequenceNum := currSequenceNum }
    let currSequenceNum :=
      if currSequenceNum = 0 then (currSequenceNum + 1) % 2 ^ 64 else currSequenceNum
    let p := { p with currSequenceNum }
    if o.sent packet = false then (false, p.setTransport t transport, [])
    else
      let (id, ackMap) := p.ackMap.add o.now (some t) packet.datagram packet.peerIpAddress
        packet.peerPort o.draw
      let p := { p with ackMap }
      (true, p.setTransport t { transport with requestId := id, pendingAck := true },
        [.accepted t id])

/-- `DtcpBaseConnMux::acknowledgeTransfer`. -/
def muxAcknowledgeTransfer (p : Process T) (t : T) (now : Nat) : Bool × Process T :=
  let transport := p.transports t
  if transport.pendingAck = false then (false, p)
  else
    let (status, ackMap, _) := p.ackMap.remove now transport.requestId
    (status, { p with ackMap })

/-- `DtcpBaseConnTransport::acknowledgeTransfer`: the flag is cleared before the multiplexor,
which looks at it, is asked. -/
def acknowledgeTransfer (p : Process T) (t : T) (now : Nat) :
    Bool × Process T × List (TransportEvent T) :=
  let transport := p.transports t
  if transport.pendingAck = false then (false, p, [])
  else
    let p := p.setTransport t { transport with pendingAck := false }
    (true, (p.muxAcknowledgeTransfer t now).2, [.acknowledged t transport.requestId])

/-- `handleConnDataAckPacket`, once the transport is located. -/
def handleConnDataAck (p : Process T) (t : T) (now : Nat) :
    Bool × Process T × List (TransportEvent T) :=
  let transport := p.transports t
  if transport.pendingAck = false then (true, p, [])
  else
    let requestId := transport.requestId
    let (status, ackMap, _) := p.ackMap.remove now requestId
    let p := { p with ackMap }
    if status = false then (false, p, [])
    else
      let (status, transport) := transport.handleSendReceived requestId
      (status, p.setTransport t transport, if status then [.received t requestId] else [])

/-- `handleConnReliableDataPacket` takes the packet for a repetition. It goes on from here without a
lock. -/
def isRepeat (p : Process T) (t : T) (currSequenceNum : Nat) : Bool :=
  (p.transports t).recvSequenceNum == currSequenceNum

/-- `setRecvSequenceNum` of a transport. -/
def setRecvSequenceNum (p : Process T) (t : T) (currSequenceNum : Nat) : Process T :=
  p.setTransport t ((p.transports t).setRecvSequenceNum currSequenceNum)

/-- `setPeerLocation` of a transport. -/
def setPeerLocation (p : Process T) (t : T) (ipAddress port : Nat) : Process T :=
  p.setTransport t ((p.transports t).setPeerLocation ipAddress port)

/-- The requestor of a request that was given up is told. -/
def notifyFailure (p : Process T) : AckEvent T → Process T × List (TransportEvent T)
  | .failed id (some t) =>
    let (status, transport) := (p.transports t).handleSendFailure id
    (p.setTransport t transport, if status then [.failed t id] else [])
  | _ => (p, [])

/-- A pass of the timer loop. -/
def retry (p : Process T) (now : Nat) (entry : RetryEntry) (draw : ℚ) :
    Process T × List (TransportEvent T) :=
  let (ackMap, events) := p.ackMap.retry now entry draw
  let p := { p with ackMap }
  match events with
  | [e] => p.notifyFailure e
  | _ => (p, [])

/-- A reliable packet of the multiplexor, which is no transport's request. -/
def muxSend (p : Process T) (data : List UInt8) (now ipAddress port : Nat) (draw : ℚ) : Process T :=
  { p with ackMap := (p.ackMap.add now none data ipAddress port draw).2 }

/-- `reliableRequestComplete` for such a request. -/
def muxComplete (p : Process T) (now id : Nat) : Process T :=
  match p.ackMap.recordIndex.find id with
  | some record =>
    if record.requestor.isNone then { p with ackMap := (p.ackMap.remove now id).2.1 } else p
  | none => p

inductive Input (T : Type) where
  | sendReliablePacket (t : T) (data : List UInt8) (o : SendOutcome)
  | acknowledgeTransfer (t : T) (now : Nat)
  | dataAck (t : T) (now : Nat)
  /-- A worker that handles a reliable packet stores its number. -/
  | setRecvSequenceNum (t : T) (currSequenceNum : Nat)
  | setPeerLocation (t : T) (ipAddress port : Nat)
  | retry (now : Nat) (entry : RetryEntry) (draw : ℚ)
  | muxSend (data : List UInt8) (now ipAddress port : Nat) (draw : ℚ)
  | muxComplete (now id : Nat)

def machine [LinkWriter] : Machine (Process T) (Input T) (TransportEvent T) where
  step p
    | .sendReliablePacket t data o => (p.sendReliablePacket t data o).2
    | .acknowledgeTransfer t now => (p.acknowledgeTransfer t now).2
    | .dataAck t now => (p.handleConnDataAck t now).2
    | .setRecvSequenceNum t currSequenceNum => (p.setRecvSequenceNum t currSequenceNum, [])
    | .setPeerLocation t ipAddress port => (p.setPeerLocation t ipAddress port, [])
    | .retry now entry draw => p.retry now entry draw
    | .muxSend data now ipAddress port draw => (p.muxSend data now ipAddress port draw, [])
    | .muxComplete now id => (p.muxComplete now id, [])

/-! ## The numbers -/

/-- Neither the counter nor a number received has changed. -/
structure SameNumbers (p p' : Process T) : Prop where
  counter : p'.currSequenceNum = p.currSequenceNum
  received : ∀ t, (p'.transports t).recvSequenceNum = (p.transports t).recvSequenceNum

theorem setTransport_received (p : Process T) {t : T} {transport : ConnTransport}
    (hrecv : transport.recvSequenceNum = (p.transports t).recvSequenceNum) (t' : T) :
    ((p.setTransport t transport).transports t').recvSequenceNum =
      (p.transports t').recvSequenceNum := by
  by_cases ht : t' = t
  · subst ht
    rw [setTransport_self, hrecv]
  · rw [setTransport_other _ ht]

theorem requestDone_received (transport : ConnTransport) (id : Nat) :
    (transport.requestDone id).2.recvSequenceNum = transport.recvSequenceNum := by
  unfold ConnTransport.requestDone
  split <;> rfl

theorem acknowledgeTransfer_same (p : Process T) (t : T) (now : Nat) :
    SameNumbers p (p.acknowledgeTransfer t now).2.1 := by
  unfold acknowledgeTransfer muxAcknowledgeTransfer
  dsimp only
  split
  · exact ⟨rfl, fun _ => rfl⟩
  split
  · exact ⟨rfl, setTransport_received p rfl⟩
  · exact ⟨rfl, setTransport_received p rfl⟩

theorem retry_same (p : Process T) (now : Nat) (entry : RetryEntry) (draw : ℚ) :
    SameNumbers p (p.retry now entry draw).1 := by
  unfold retry
  dsimp only
  split
  · next e _ =>
    unfold notifyFailure
    split
    · exact ⟨rfl, setTransport_received _ (requestDone_received _ _)⟩
    · exact ⟨rfl, fun _ => rfl⟩
  · exact ⟨rfl, fun _ => rfl⟩

theorem setPeerLocation_same (p : Process T) (t : T) (ipAddress port : Nat) :
    SameNumbers p (p.setPeerLocation t ipAddress port) := ⟨rfl, setTransport_received p rfl⟩

omit [DecidableEq T] in
theorem isRepeat_iff (p : Process T) (t : T) (currSequenceNum : Nat) :
    p.isRepeat t currSequenceNum = true ↔ (p.transports t).recvSequenceNum = currSequenceNum := by
  simp [isRepeat]

/-- The numbers when a worker stores one. -/
theorem setRecvSequenceNum_received (p : Process T) (t : T) (currSequenceNum : Nat) (t' : T) :
    ((p.setRecvSequenceNum t currSequenceNum).transports t').recvSequenceNum =
      if t' = t then currSequenceNum else (p.transports t').recvSequenceNum := by
  unfold setRecvSequenceNum
  split
  · next ht =>
    subst ht
    rw [setTransport_self]
    rfl
  · next ht => rw [setTransport_other _ ht]

section AnyWriter

variable [LinkWriter]

theorem sendReliablePacket_received (p : Process T) (t : T) (data : List UInt8) (o : SendOutcome)
    (t' : T) : ((p.sendReliablePacket t data o).2.1.transports t').recvSequenceNum =
      (p.transports t').recvSequenceNum := by
  unfold sendReliablePacket
  dsimp only
  split
  · rfl
  split
  · exact setTransport_received _ (by rfl) t'
  · exact setTransport_received _ (by rfl) t'

/-- Short of the end of its range the counter is the number of the packet accepted. -/
theorem sendReliablePacket_counter (p : Process T) (t : T) (data : List UInt8) (o : SendOutcome)
    (hbound : p.currSequenceNum + 1 < 2 ^ 64) :
    p.currSequenceNum ≤ (p.sendReliablePacket t data o).2.1.currSequenceNum ∧
      ((p.sendReliablePacket t data o).1 = true →
        (p.sendReliablePacket t data o).2.1.currSequenceNum = p.currSequenceNum + 1) := by
  have hmod : (p.currSequenceNum + 1) % 2 ^ 64 = p.currSequenceNum + 1 := Nat.mod_eq_of_lt hbound
  have hne : p.currSequenceNum + 1 ≠ 0 := Nat.succ_ne_zero _
  unfold sendReliablePacket
  dsimp only
  rw [hmod, if_neg hne]
  split
  · exact ⟨Nat.le_refl _, fun h => by cases h⟩
  split
  · exact ⟨Nat.le_succ _, fun h => by cases h⟩
  · exact ⟨Nat.le_succ _, fun _ => rfl⟩

end AnyWriter

/-! ## Nothing is sent -/

/-- No transport waits for an acknowledgement, and no request in the table is a transport's. -/
structure Idle (p : Process T) : Prop where
  flag : ∀ t, (p.transports t).pendingAck = false
  table : ∀ id record, p.ackMap.recordIndex.find id = some record → record.requestor = none

omit [DecidableEq T] in
theorem idle_new (configured : Option Int) : Idle (new configured : Process T) :=
  ⟨fun _ => rfl, fun _ _ h => by cases h⟩

variable {p : Process T}

theorem Idle.setTransport (hi : Idle p) {t : T} {transport : ConnTransport}
    (hflag : transport.pendingAck = false) : Idle (p.setTransport t transport) := by
  refine ⟨fun t' => ?_, hi.table⟩
  by_cases ht : t' = t
  · subst ht
    rw [setTransport_self, hflag]
  · rw [setTransport_other _ ht]
    exact hi.flag t'

/-- No reliable send succeeds. -/
theorem sendReliablePacket_fails (p : Process T) (t : T) (data : List UInt8) (o : SendOutcome) :
    (p.sendReliablePacket t data o).1 = false ∧ (p.sendReliablePacket t data o).2.2 = [] := by
  unfold sendReliablePacket
  dsimp only
  split
  · exact ⟨rfl, rfl⟩
  · rw [if_pos (SendOutcome.sent_eq_false _ _)]
    exact ⟨rfl, rfl⟩

theorem Idle.sendReliablePacket (hi : Idle p) (t : T) (data : List UInt8) (o : SendOutcome) :
    Idle (p.sendReliablePacket t data o).2.1 := by
  unfold Process.sendReliablePacket
  dsimp only
  split
  · exact hi
  · rw [if_pos (SendOutcome.sent_eq_false _ _)]
    have hcounter : ∀ counter, Idle { p with currSequenceNum := counter } :=
      fun _ => ⟨hi.flag, hi.table⟩
    exact (hcounter _).setTransport (hi.flag t)

theorem Idle.acknowledgeTransfer (hi : Idle p) (t : T) (now : Nat) :
    p.acknowledgeTransfer t now = (false, p, []) := if_pos (hi.flag t)

theorem Idle.handleConnDataAck (hi : Idle p) (t : T) (now : Nat) :
    p.handleConnDataAck t now = (true, p, []) := if_pos (hi.flag t)

theorem Idle.setRecvSequenceNum (hi : Idle p) (t : T) (currSequenceNum : Nat) :
    Idle (p.setRecvSequenceNum t currSequenceNum) := hi.setTransport (hi.flag t)

theorem Idle.setPeerLocation (hi : Idle p) (t : T) (ipAddress port : Nat) :
    Idle (p.setPeerLocation t ipAddress port) := hi.setTransport (hi.flag t)

omit [DecidableEq T] in
theorem Idle.of_index (hi : Idle p) {ackMap : PendingAckMap T}
    (hfind : ∀ id record, ackMap.recordIndex.find id = some record → record.requestor = none) :
    Idle { p with ackMap } := ⟨hi.flag, hfind⟩

omit [DecidableEq T] in
/-- A request that is removed leaves the others. -/
theorem Idle.remove (hi : Idle p) (now id : Nat) :
    Idle { p with ackMap := (p.ackMap.remove now id).2.1 } := by
  refine hi.of_index fun id' record hfind => ?_
  cases hf : p.ackMap.recordIndex.find id with
  | none =>
    rw [PendingAckMap.remove_none hf] at hfind
    exact hi.table id' record hfind
  | some old =>
    rw [(PendingAckMap.remove_some hf now).2.1, UMap.find_erase] at hfind
    split at hfind
    · cases hfind
    · exact hi.table id' record hfind

/-- A pass of the timer tells no transport. -/
theorem Idle.retry (hi : Idle p) (now : Nat) (entry : RetryEntry) (draw : ℚ) :
    Idle (p.retry now entry draw).1 ∧ (p.retry now entry draw).2 = [] := by
  unfold Process.retry
  dsimp only
  rcases p.ackMap.retry_cases now entry draw with ⟨hindex, hev⟩ | ⟨record, hf, hindex, hev⟩ |
    ⟨record, hf, hindex, hev⟩
  · rw [hev]
    exact ⟨hi.of_index (by rw [hindex]; exact hi.table), rfl⟩
  · have hnone := hi.table _ _ hf
    rw [hev, hnone]
    refine ⟨hi.of_index fun id' record' hfind => ?_, rfl⟩
    rw [hindex, UMap.find_erase] at hfind
    split at hfind
    · cases hfind
    · exact hi.table id' record' hfind
  · rw [hev]
    refine ⟨hi.of_index fun id' record' hfind => ?_, rfl⟩
    rw [hindex, UMap.find_assign] at hfind
    split at hfind
    · rw [← Option.some.inj hfind]
      exact hi.table _ record hf
    · exact hi.table id' record' hfind

omit [DecidableEq T] in
theorem Idle.muxSend (hi : Idle p) (data : List UInt8) (now ip port : Nat) (draw : ℚ) :
    Idle (p.muxSend data now ip port draw) := by
  obtain ⟨record, -, hr, hadd⟩ := p.ackMap.add_index now none data ip port draw
  refine hi.of_index fun id' record' hfind => ?_
  rw [hadd] at hfind
  obtain hold | ⟨-, -, rfl⟩ := UMap.of_find_emplace hfind
  · exact hi.table id' record' hold
  · exact hr

omit [DecidableEq T] in
theorem Idle.muxComplete (hi : Idle p) (now id : Nat) : Idle (p.muxComplete now id) := by
  unfold Process.muxComplete
  split
  · split
    · exact hi.remove now id
    · exact hi
  · exact hi

end Process

end Alpine
