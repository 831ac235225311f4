import Alpine.Dtcp.ConnMux
import Alpine.Dtcp.PendingAckMap
import Alpine.Dtcp.LinkSend
import Alpine.Lib.Heap

/-!
# The multiplexor among several threads

Here the calls of several threads interleave. A call is at a `Position` between two of its locks,
and a step takes a thread through its next section under a lock, with the code up to the one after
it.

`pendingAckIndex_` holds pointers. The records they point to are on a heap (`ackRecords`), so a
thread that kept the pointer of a record can use it when another thread has freed it. What such a
thread does then is undefined; here it stops.

An attempt is a call of `requestTransport`. Its number goes along with the records of it, for the
theorems only, and so does `sentFor`, which tells what request of the retransmission table is for
which attempt. A packet that is sent meets a buffer and a send queue (`SendOutcome`), which are
inputs, as is what the acceptor and the connectors answer; whether it is written, its layers decide.
-/

namespace Alpine

open Lib

/-- What a pending record is removed for. -/
inductive RemovalGoal where
  | offer (request : IncomingMessage)
  | accept (request : IncomingMessage)
  /-- `pendingConnAcceptComplete`, with the net id it has read. -/
  | transport (netId : Nat)
  /-- `pendingConnCloseComplete`, `pendingConnSuspendComplete`, `pendingPollComplete`. -/
  | nothing

/-- What is sent reliably. -/
inductive Errand (T C : Type) where
  | request (attempt : Nat) (requestor : C) (transport : T)
  | offer (peerId myId ipAddress port : Nat)
  /-- With the record that is indexed when the accept packet was sent. -/
  | accept (attempt : Nat) (record : PendingTransportRecord T C)
  deriving DecidableEq, Repr

def Errand.msgType {T C : Type} : Errand T C → PacketType
  | request _ _ _ => .connRequest
  | offer _ _ _ _ => .connOffer
  | accept _ _ => .connAccept

/-- Where a thread is: what it does next. -/
inductive Position (T C : Type) where
  /-- `createConnectionRequestEntry`, the connection is created. -/
  | requestEntry (attempt peerId : Nat) (requestor : C) (transport : T)
  /-- `handleConnRequestPacket`, there is no connection. -/
  | checkPending (request : IncomingMessage)
  /-- `handleConnRequestPacket`, nothing is pending. -/
  | acceptConnection (request : IncomingMessage)
  /-- `createConnectionAcceptEntry`, the connection is created. -/
  | acceptEntry (peerId myId ipAddress port : Nat)
  | send (errand : Errand T C)
  /-- The packet was sent. -/
  | index (errand : Errand T C) (netId requestId : Nat)
  /-- `handleConnOfferPacket`, the accept packet was sent. -/
  | pendingTransport (attempt : Nat) (record : PendingTransportRecord T C)
  /-- `getPendingAckRecord` has returned the record. -/
  | use (request : IncomingMessage) (record : Nat)
  | remove (record : Nat) (goal : RemovalGoal)
  /-- `removePendingAckRecord`, `erase` has looked for the entry (`found`) and is about to unlink
  it. The lock is held for reading. -/
  | unlink (record netId : Nat) (found : Bool) (goal : RemovalGoal)
  /-- `removePendingAckRecord`, the index has been changed and the lock is held for reading. -/
  | complete (record : Nat) (goal : RemovalGoal)
  | findRequest (request : IncomingMessage)
  | eraseRequest (netId peerId myId attempt : Nat) (record : ConnRequestRecord T C)
  | indexRequest (netId peerId attempt : Nat) (record : ConnRequestRecord T C)
  | findAccept (request : IncomingMessage)
  | createTransport (peerId ipAddress port : Nat) (record : PendingAcceptRecord)
  | eraseAccept (peerId : Nat) (transport : T)
  | acceptAckRetry (request : IncomingMessage)
  | findTransport (netId : Nat)

/-- The thread is in `removePendingAckRecord`. -/
def Position.readsPendingAck {T C : Type} : Position T C → Bool
  | unlink _ _ _ _ | complete _ _ => true
  | _ => false

structure SharedMux (T C : Type) where
  connectionMap : ConnectionMap T
  connRequestIndex : UMap Nat (Nat × ConnRequestRecord T C)
  pendingAcceptIndex : UMap Nat PendingAcceptRecord
  pendingTransportIndex : UMap Nat (Nat × PendingTransportRecord T C)
  pendingAckIndex : UMap Nat Nat
  ackRecords : Heap PendingAckRecord
  ackMap : PendingAckMap T
  transports : UMap T TransportInfo
  threads : UMap Nat (Position T C)
  nextAttempt : Nat
  sentFor : UMap Nat Nat

/-- What a run is judged by. -/
inductive SharedEvent (T C : Type) where
  | returned (thread : Nat) (status : Bool)
  /-- `requestTransport` returned true. -/
  | requested (attempt : Nat) (requestor : C) (transport : T)
  | freed (record : Nat)
  /-- A record was read after the lock was released under which its pointer was found. -/
  | usedUnlocked (record : Nat)
  | usedAfterFree (record : Nat)
  /-- An entry was unlinked that another thread had unlinked since it was found. -/
  | unlinkedTwice (netId : Nat)
  | acceptSent (attempt netId : Nat)
  /-- The timer gave up a packet of the multiplexor. -/
  | gaveUp (requestId : Nat)
  /-- `receiveTransport` of the connector. -/
  | received (attempt : Nat) (requestor : C) (transport : T)
  /-- `handleRequestFailure` of the connector. -/
  | requestFailed (attempt : Nat)
  | acceptorReceived (transport : T)
  /-- A member function was called on a null transport. -/
  | nullTransport
  deriving DecidableEq, Repr

/-- What the other parts answer in a step. -/
structure StepAnswers (T : Type) where
  /-- What a packet meets that is sent in the step, with the clock and the random generator. -/
  send : SendOutcome
  /-- `acceptor_->acceptConnection`. -/
  accepted : Bool
  created : CreateTransport T
  /-- `receiveTransport` of the acceptor or the connector. -/
  received : Bool

namespace SharedMux

variable {T C : Type}

abbrev Result (T C : Type) := SharedMux T C × List (SharedEvent T C)

def new (now : Nat) (configured : Option Int) : SharedMux T C :=
  { connectionMap := ConnectionMap.new now
    connRequestIndex := ∅
    pendingAcceptIndex := ∅
    pendingTransportIndex := ∅
    pendingAckIndex := ∅
    ackRecords := Heap.empty
    ackMap := PendingAckMap.new configured
    transports := ∅
    threads := ∅
    nextAttempt := 0
    sentFor := ∅ }

/-! ## Threads -/

/-- The thread goes on from there. -/
def goTo (s : SharedMux T C) (thread : Nat) (position : Position T C) : SharedMux T C :=
  { s with threads := s.threads.assign thread position }

/-- The thread has no call any more. -/
def leave (s : SharedMux T C) (thread : Nat) : SharedMux T C :=
  { s with threads := s.threads.erase thread }

def finish (s : SharedMux T C) (thread : Nat) (status : Bool) : Result T C :=
  (s.leave thread, [.returned thread status])

/-- `pendingAckLock_` may be had for writing. -/
def pendingAckWritable (s : SharedMux T C) : Bool :=
  s.threads.entries.all fun entry => !entry.2.readsPendingAck

/-! ## Reliable packets -/

section Sends

variable [DecidableEq T]

def info (s : SharedMux T C) (transport : T) : TransportInfo :=
  (s.transports.find transport).getD ⟨0, 0, 0, 0⟩

/-- The connection packet of an errand. -/
def packet (s : SharedMux T C) : Errand T C → ConnPacket
  | .request _ _ transport =>
    let info := s.info transport
    { (DtcpConnPacket.fresh 0 0 .connRequest : ConnPacket) with
      peerIpAddress := info.peerIpAddress, peerPort := info.peerPort, peerId := info.peerId }
  | .offer peerId myId ipAddress port =>
    { (DtcpConnPacket.fresh 0 0 .connOffer : ConnPacket) with
      peerIpAddress := ipAddress, peerPort := port, peerId, myId }
  | .accept _ record =>
    let info := s.info record.transport
    { (DtcpConnPacket.fresh 0 0 .connAccept : ConnPacket) with
      peerIpAddress := info.peerIpAddress, peerPort := info.peerPort, myId := info.myId }

/-- `sendAck`, up to the send: the packet for a transport. -/
def ackPacket (s : SharedMux T C) (transport : T) : ConnPacket :=
  let info := s.info transport
  { (DtcpConnPacket.fresh 0 0 .ack : ConnPacket) with
    peerIpAddress := info.peerIpAddress, peerPort := info.peerPort, myId := info.myId }

/-- What the theorems note of a packet that was sent. -/
def noteSent (s : SharedMux T C) (errand : Errand T C) (netId requestId : Nat) : Result T C :=
  match errand with
  | .request attempt _ _ => ({ s with sentFor := s.sentFor.assign requestId attempt }, [])
  | .offer _ _ _ _ => ({ s with sentFor := s.sentFor.erase requestId }, [])
  | .accept attempt _ =>
    ({ s with sentFor := s.sentFor.assign requestId attempt }, [.acceptSent attempt netId])

/-- `DtcpBaseUdpTransport::sendReliablePacket` for the multiplexor, without a requestor. -/
def sendReliablePacket (s : SharedMux T C) (thread : Nat) (errand : Errand T C)
    (answers : StepAnswers T) : Result T C :=
  let packet := s.packet errand
  if answers.send.sent packet = false then s.finish thread false
  else
    let (requestId, ackMap) := s.ackMap.add answers.send.now none packet.datagram
      packet.peerIpAddress packet.peerPort answers.send.draw
    let netId := ipPortToNetId packet.peerIpAddress packet.peerPort
    noteSent (goTo { s with ackMap } thread (.index errand netId requestId)) errand netId requestId

end Sends

/-- The end of `sendConnectionRequest`, `sendConnectionOffer` and `sendConnectionAccept`: what was
sent is indexed, if its address has nothing pending, and the caller goes on. -/
def indexPending (s : SharedMux T C) (thread : Nat) (errand : Errand T C) (netId requestId : Nat) :
    Result T C :=
  if s.pendingAckWritable = false then (s, [])
  else
    let s := { s with
      ackRecords := s.ackRecords.alloc ⟨netId, errand.msgType, requestId⟩
      pendingAckIndex := s.pendingAckIndex.emplace netId s.ackRecords.next }
    match errand with
    | .request attempt requestor transport =>
      (s.leave thread, [.requested attempt requestor transport, .returned thread true])
    | .offer _ _ _ _ => s.finish thread true
    | .accept attempt record => (s.goTo thread (.pendingTransport attempt record), [])

/-! ## Pending records -/

/-- `getPendingAckRecord` for a handler that uses the record. -/
def lookUp (s : SharedMux T C) (thread : Nat) (request : IncomingMessage) : Result T C :=
  match s.pendingAckIndex.find request.id with
  | some record => (s.goTo thread (.use request record), [])
  | none =>
    if request.packetType = .connAccept then (s.goTo thread (.acceptAckRetry request), [])
    else s.finish thread true

/-- What the handler of the packet does with a record of this type. -/
def goalOf (request : IncomingMessage) (ackRecord : PendingAckRecord) : Option RemovalGoal :=
  match request.packetType, ackRecord.msgType with
  | .connOffer, .connRequest => some (.offer request)
  | .connAccept, .connOffer => some (.accept request)
  | .ack, .connAccept => some (.transport ackRecord.netId)
  | .ack, .connClose | .ack, .connSuspend | .ack, .poll => some .nothing
  | _, _ => none

/-- The handler reads the type of the record. -/
def useRecord (s : SharedMux T C) (thread : Nat) (request : IncomingMessage) (record : Nat) :
    Result T C :=
  match s.ackRecords.get record with
  | none => (s.leave thread, [.usedAfterFree record])
  | some ackRecord =>
    match goalOf request ackRecord with
    | none => (s.leave thread, [.usedUnlocked record, .returned thread true])
    | some goal => (s.goTo thread (.remove record goal), [.usedUnlocked record])

/-- The start of `removePendingAckRecord`. The lock is taken for reading only, so other threads can
be here too while the entry is looked for and unlinked. -/
def removePendingAckRecord (s : SharedMux T C) (thread record : Nat) (goal : RemovalGoal) :
    Result T C :=
  match s.ackRecords.get record with
  | none => (s.leave thread, [.usedAfterFree record])
  | some ackRecord =>
    let found := (s.pendingAckIndex.find ackRecord.netId).isSome
    (s.goTo thread (.unlink record ackRecord.netId found goal), [])

/-- The entry that was found is taken out of the index. -/
def unlink (s : SharedMux T C) (thread record netId : Nat) (found : Bool) (goal : RemovalGoal) :
    Result T C :=
  if found = false then (s.goTo thread (.complete record goal), [])
  else
    match s.pendingAckIndex.find netId with
    | none => (s.leave thread, [.unlinkedTwice netId])
    | some _ =>
      (goTo { s with pendingAckIndex := s.pendingAckIndex.erase netId } thread
        (.complete record goal), [])

/-- What follows a removal. -/
def next (s : SharedMux T C) (thread : Nat) : RemovalGoal → Result T C
  | .offer request => (s.goTo thread (.findRequest request), [])
  | .accept request => (s.goTo thread (.findAccept request), [])
  | .transport netId => (s.goTo thread (.findTransport netId), [])
  | .nothing => s.finish thread true

/-- The rest: `reliableRequestComplete`, and the record is freed if it returns true. -/
def reliableRequestComplete (s : SharedMux T C) (thread record : Nat) (goal : RemovalGoal)
    (now : Nat) : Result T C :=
  match s.ackRecords.get record with
  | none => (s.leave thread, [.usedAfterFree record])
  | some ackRecord =>
    let (status, ackMap, _) := s.ackMap.remove now ackRecord.requestId
    if status = false then next { s with ackMap } thread goal
    else
      let (s, events) := next { s with ackMap, ackRecords := s.ackRecords.free record } thread goal
      (s, .freed record :: events)

/-! ## The handlers, section by section -/

section Handlers

variable [DecidableEq T]

/-- `requestTransport` up to the index of requests. -/
def requestTransport (s : SharedMux T C) (thread : Nat) (requestor : C) (transport : T)
    (ipAddress port : Nat) : Result T C :=
  match s.connectionMap.createConnection ipAddress port with
  | (none, _) => s.finish thread false
  | (some peerId, connectionMap) =>
    let attempt := s.nextAttempt
    let info := { s.info transport with peerId, peerIpAddress := ipAddress, peerPort := port }
    let s := { s with
      connectionMap, transports := s.transports.assign transport info, nextAttempt := attempt + 1 }
    (s.goTo thread (.requestEntry attempt peerId requestor transport), [])

/-- Parsing, `acceptConnection` and `createConnection`. -/
def acceptConnection (s : SharedMux T C) (thread : Nat) (request : IncomingMessage)
    (accepted : Bool) : Result T C :=
  match request.parse with
  | none => s.finish thread false
  | some dtcpConnPacket =>
    if accepted = false then s.finish thread true
    else
      match s.connectionMap.createConnection request.ipAddress request.port with
      | (none, _) => s.finish thread false
      | (some peerId, connectionMap) =>
        (goTo { s with connectionMap } thread
          (.acceptEntry peerId dtcpConnPacket.myId request.ipAddress request.port), [])

def findRequest (s : SharedMux T C) (thread : Nat) (request : IncomingMessage) : Result T C :=
  match request.parse with
  | none => s.finish thread false
  | some dtcpConnPacket =>
    match s.connRequestIndex.find dtcpConnPacket.peerId with
    | none => s.finish thread false
    | some (attempt, record) =>
      (s.goTo thread
        (.eraseRequest request.id dtcpConnPacket.peerId dtcpConnPacket.myId attempt record), [])

/-- `indexConnection` of an offer, and the accept packet is due. -/
def indexRequest (s : SharedMux T C) (thread netId peerId attempt : Nat)
    (record : ConnRequestRecord T C) : Result T C :=
  let indexed := s.connectionMap.indexConnection peerId record.transport
  let s := { s with connectionMap := indexed.2 }
  if indexed.1 = false then s.finish thread false
  else
    (s.goTo thread (.send (.accept attempt ⟨netId, record.transport, record.requestor⟩)), [])

def findAccept (s : SharedMux T C) (thread : Nat) (request : IncomingMessage) : Result T C :=
  match request.parse with
  | none => s.finish thread false
  | some dtcpConnPacket =>
    match s.pendingAcceptIndex.find dtcpConnPacket.peerId with
    | none => s.finish thread false
    | some record =>
      (s.goTo thread
        (.createTransport dtcpConnPacket.peerId request.ipAddress request.port record), [])

/-- `createTransport` and `indexConnection` of an accept. -/
def createTransport (s : SharedMux T C) (thread peerId ipAddress port : Nat)
    (record : PendingAcceptRecord) (created : CreateTransport T) : Result T C :=
  match created with
  | .failed | .invalid =>
    finish { s with connectionMap := (s.connectionMap.removePendingConnection peerId).2 } thread false
  | .transport transport =>
    let indexed := s.connectionMap.indexConnection peerId transport
    let s := { s with
      connectionMap := indexed.2
      transports := s.transports.assign transport ⟨record.myId, peerId, ipAddress, port⟩ }
    if indexed.1 = false then
      finish { s with connectionMap := (s.connectionMap.removePendingConnection peerId).2 } thread
        false
    else (s.goTo thread (.eraseAccept peerId transport), [])

def checkAcceptAckRetry (s : SharedMux T C) (thread : Nat) (request : IncomingMessage)
    (send : SendOutcome) : Result T C :=
  match request.parse with
  | none => s.finish thread false
  | some dtcpConnPacket =>
    match s.connectionMap.locateConnection dtcpConnPacket.peerId with
    | none => s.finish thread true
    | some none => (s.leave thread, [.nullTransport])
    | some (some transport) => s.finish thread (send.sent (s.ackPacket transport))

/-- The rest of `pendingConnAcceptComplete`. -/
def findTransport (s : SharedMux T C) (thread netId : Nat) (received : Bool) : Result T C :=
  match s.pendingTransportIndex.find netId with
  | none => s.finish thread false
  | some (attempt, record) =>
    (leave { s with pendingTransportIndex := s.pendingTransportIndex.erase netId } thread,
      [.received attempt record.requestor record.transport, .returned thread received])

/-- The next section of a call. -/
def proceed (s : SharedMux T C) (thread : Nat) (answers : StepAnswers T) :
    Position T C → Result T C
  | .requestEntry attempt peerId requestor transport =>
    let record := ⟨requestor, transport, peerId⟩
    (goTo { s with connRequestIndex := s.connRequestIndex.emplace peerId (attempt, record) } thread
      (.send (.request attempt requestor transport)), [])
  | .checkPending request =>
    if (s.pendingAckIndex.find request.id).isSome then s.finish thread true
    else (s.goTo thread (.acceptConnection request), [])
  | .acceptConnection request => s.acceptConnection thread request answers.accepted
  | .acceptEntry peerId myId ipAddress port =>
    let record := ⟨myId, peerId⟩
    (goTo { s with pendingAcceptIndex := s.pendingAcceptIndex.emplace peerId record } thread
      (.send (.offer peerId myId ipAddress port)), [])
  | .send errand => s.sendReliablePacket thread errand answers
  | .index errand netId requestId => s.indexPending thread errand netId requestId
  | .pendingTransport attempt record =>
    finish { s with
      pendingTransportIndex := s.pendingTransportIndex.emplace record.netId (attempt, record) }
      thread true
  | .use request record => s.useRecord thread request record
  | .remove record goal => s.removePendingAckRecord thread record goal
  | .unlink record netId found goal => s.unlink thread record netId found goal
  | .complete record goal => s.reliableRequestComplete thread record goal answers.send.now
  | .findRequest request => s.findRequest thread request
  | .eraseRequest netId peerId myId attempt record =>
    let transports := s.transports.assign record.transport { s.info record.transport with myId }
    (goTo { s with transports, connRequestIndex := s.connRequestIndex.erase peerId } thread
      (.indexRequest netId peerId attempt record), [])
  | .indexRequest netId peerId attempt record => s.indexRequest thread netId peerId attempt record
  | .findAccept request => s.findAccept thread request
  | .createTransport peerId ipAddress port record =>
    s.createTransport thread peerId ipAddress port record answers.created
  | .eraseAccept peerId transport =>
    -- It is `pendingAcceptIndex_` that the record was found in.
    let s := { s with connRequestIndex := s.connRequestIndex.erase peerId }
    if answers.send.sent (s.ackPacket transport) = false then s.finish thread false
    else (s.leave thread, [.acceptorReceived transport, .returned thread answers.received])
  | .acceptAckRetry request => s.checkAcceptAckRetry thread request answers.send
  | .findTransport netId => s.findTransport thread netId answers.received

/-- The first section of `processPacket`. -/
def processPacket (s : SharedMux T C) (thread : Nat) (request : IncomingMessage) : Result T C :=
  match request.packetType with
  | .connRequest =>
    if s.connectionMap.existsAt request.ipAddress request.port then s.finish thread true
    else (s.goTo thread (.checkPending request), [])
  | .connOffer | .connAccept | .ack => s.lookUp thread request
  | .connData | .connReliableData | .connDataAck =>
    match dispatch s.connectionMap request with
    | .rejected => s.finish thread false
    | .null _ => (s, [.nullTransport])
    | .transport _ _ => (s, [])
  | .connSuspend | .connResume | .connClose | .poll | .error | .natDiscover | .natSource
  | .txnData => s.finish thread true
  | .none | .unnamed _ => s.finish thread false

end Handlers

/-- `DtcpBaseUdpTransport::handleSendFailure`, which the timer calls for a packet without a
requestor: the body is `return true;`. -/
def handleSendFailure (requestId : Nat) : List (SharedEvent T C) := [.gaveUp requestId]

/-- What the timer tells of a packet it gave up. -/
def tellFailure : List (AckEvent T) → List (SharedEvent T C)
  | [.failed id none] => handleSendFailure id
  | _ => []

/-! ## The machine -/

inductive Input (T C : Type) where
  /-- An idle thread calls `requestTransport`, with the location of the transport. -/
  | requestTransport (thread : Nat) (requestor : C) (transport : T) (ipAddress port : Nat)
  /-- An idle thread gets a packet. -/
  | packet (thread : Nat) (request : IncomingMessage)
  | proceed (thread : Nat) (answers : StepAnswers T)
  /-- One pass of the loop of `processTimers`. -/
  | retry (now : Nat) (entry : RetryEntry) (draw : ℚ)
  /-- A transport sends a packet reliably, and a request of a transport is complete. -/
  | sendData (requestor : T) (packet : ConnPacket) (send : SendOutcome)
  | dataComplete (requestId now : Nat)

variable [DecidableEq T]

/-- `DtcpBaseUdpTransport::sendReliablePacket` by a transport. -/
def sendData (s : SharedMux T C) (requestor : T) (packet : ConnPacket) (send : SendOutcome) :
    SharedMux T C :=
  if send.sent packet = false then s
  else
    let (requestId, ackMap) := s.ackMap.add send.now (some requestor) packet.datagram
      packet.peerIpAddress packet.peerPort send.draw
    { s with ackMap, sentFor := s.sentFor.erase requestId }

/-- `reliableRequestComplete` by a transport, for a request of its own. -/
def dataComplete (s : SharedMux T C) (requestId now : Nat) : SharedMux T C :=
  match s.ackMap.recordIndex.find requestId with
  | none => s
  | some record =>
    if record.requestor.isNone then s
    else { s with ackMap := (s.ackMap.remove now requestId).2.1 }

def step (s : SharedMux T C) : Input T C → Result T C
  | .requestTransport thread requestor transport ipAddress port =>
    match s.threads.find thread with
    | some _ => (s, [])
    | none => s.requestTransport thread requestor transport ipAddress port
  | .packet thread request =>
    match s.threads.find thread with
    | some _ => (s, [])
    | none => s.processPacket thread request
  | .proceed thread answers =>
    match s.threads.find thread with
    | none => (s, [])
    | some position => s.proceed thread answers position
  | .retry now entry draw =>
    let (ackMap, events) := s.ackMap.retry now entry draw
    ({ s with ackMap }, tellFailure events)
  | .sendData requestor packet send => (s.sendData requestor packet send, [])
  | .dataComplete requestId now => (s.dataComplete requestId now, [])

def machine : Machine (SharedMux T C) (Input T C) (SharedEvent T C) where
  step := step

end SharedMux

end Alpine
