import Alpine.Dtcp.ConnectionMap

/-!
# The connection multiplexor's handshake

`DtcpBaseConnMux` as far as it sets up connections: its connection map, the four indexes of
requests in progress and the handlers that move a request along them. `T` is the type of
transports and `C` that of connectors, both by their addresses.

What other parts decide is an input of the step: whether the send of a packet succeeds (with the
request id it got), what the acceptor and the connector answer. Accept records are allocated and
deleted, so they live in a heap of their own (`acceptRecords`) and the index holds their addresses;
every other record is owned by the one index it is in, which holds it here.

Left out: the `initialized_` flag (set before any packet arrives), and what the packets of an
established connection do once they have reached their transport.
-/

namespace Alpine

open Lib

/-- `t_NetId`: the address in the high word, the port in the low. -/
def ipPortToNetId (ipAddress port : Nat) : Nat := (ipAddress * 2 ^ 32 + port) % 2 ^ 64

structure ConnRequestRecord (T C : Type) where
  requestor : C
  transport : T
  tempPeerId : Nat
  deriving DecidableEq, Repr

structure PendingAcceptRecord where
  myId : Nat
  tempPeerId : Nat
  deriving DecidableEq, Repr

structure PendingTransportRecord (T C : Type) where
  netId : Nat
  transport : T
  requestor : C
  deriving DecidableEq, Repr

structure PendingAckRecord where
  netId : Nat
  msgType : PacketType
  requestId : Nat
  deriving DecidableEq, Repr

/-- What the multiplexor sets and reads of a transport. -/
structure TransportInfo where
  myId : Nat
  peerId : Nat
  peerIpAddress : Nat
  peerPort : Nat
  deriving DecidableEq, Repr

structure ConnMux (T C : Type) where
  connectionMap : ConnectionMap T
  connRequestIndex : UMap Nat (ConnRequestRecord T C)
  pendingAcceptIndex : UMap Nat Nat
  acceptRecords : UMap Nat PendingAcceptRecord
  nextRecord : Nat
  pendingTransportIndex : UMap Nat (PendingTransportRecord T C)
  pendingAckIndex : UMap Nat PendingAckRecord
  transports : UMap T TransportInfo

/-- What a run is judged by. -/
inductive MuxEvent (T C : Type) where
  /-- The connection map gave out `peerId` for the address. -/
  | attempt (peerId : Nat) (address : IpPortPair)
  /-- An accept record was allocated. -/
  | allocated (peerId : Nat) (address : IpPortPair) (record : Nat)
  | deleted (record : Nat)
  /-- A deleted record was read. -/
  | usedAfterDelete (record : Nat)
  /-- The acceptor made a transport. -/
  | createdTransport
  | acceptorReceives (peerId : Nat) (address : IpPortPair) (transport : T)
  | connectorReceives (requestor : C) (transport : T)
  /-- A member function was called on a null transport. -/
  | nullTransport
  /-- The attempt at the address ended in failure. -/
  | failed (address : IpPortPair)
  deriving DecidableEq, Repr

/-- What `acceptor_->createTransport` did: returned false, made a transport of another type, or
one of the right type. -/
inductive CreateTransport (T : Type) where
  | failed | invalid
  | transport (transport : T)
  deriving DecidableEq, Repr

/-- What the other parts answer while a packet is handled. -/
structure Answers (T : Type) where
  /-- `acceptor_->acceptConnection`. -/
  accepted : Bool
  /-- `parentTransport_->sendReliablePacket`, with the request id it set. -/
  sentReliable : Option Nat
  /-- `parentTransport_->sendPacket`. -/
  sent : Bool
  created : CreateTransport T
  /-- `receiveTransport` of the acceptor or the connector. -/
  received : Bool
  deriving DecidableEq, Repr

/-- The packet's net id. -/
def IncomingMessage.id (request : IncomingMessage) : Nat :=
  ipPortToNetId request.ipAddress request.port

/-- Where the packet came from. -/
def IncomingMessage.source (request : IncomingMessage) : IpPortPair :=
  ⟨request.ipAddress, request.port⟩

/-- Status, state and events after a call. -/
abbrev MuxResult (T C : Type) := Bool × ConnMux T C × List (MuxEvent T C)

namespace ConnMux

variable {T C : Type} [DecidableEq T]

def new (now : Nat) : ConnMux T C :=
  ⟨ConnectionMap.new now, ∅, ∅, ∅, 0, ∅, ∅, ∅⟩

/-! ## Pending records -/

def getPendingAckRecord (m : ConnMux T C) (id : Nat) : Option PendingAckRecord :=
  m.pendingAckIndex.find id

/-- The status of `reliableRequestComplete` only decides whether the record is freed. -/
def removePendingAckRecord (m : ConnMux T C) (record : PendingAckRecord) : ConnMux T C :=
  { m with pendingAckIndex := m.pendingAckIndex.erase record.netId }

/-- `connectionMap_->removePendingConnection`, a failed attempt at the address `peerId` was
pending for. -/
def removePendingConnection (m : ConnMux T C) (peerId : Nat) : ConnMux T C × List (MuxEvent T C) :=
  ({ m with connectionMap := (m.connectionMap.removePendingConnection peerId).2 },
    ((m.connectionMap.pendingIndex.find peerId).map .failed).toList)

/-- `connectionMap_->removeConnection`, a failed attempt at the transport's address. -/
def removeConnection (m : ConnMux T C) (transport : T) : ConnMux T C × List (MuxEvent T C) :=
  ({ m with connectionMap := (m.connectionMap.removeConnection transport).2 },
    ((m.transports.find transport).map
      fun info => .failed ⟨info.peerIpAddress, info.peerPort⟩).toList)

/-- Set the location and the ids of a transport. -/
def setTransport (m : ConnMux T C) (transport : T) (info : TransportInfo) : ConnMux T C :=
  { m with transports := m.transports.assign transport info }

/-- `new t_PendingAcceptRecord`, indexed under the peer id. -/
def addAcceptRecord (m : ConnMux T C) (peerId : Nat) (record : PendingAcceptRecord) : ConnMux T C :=
  { m with
    acceptRecords := m.acceptRecords.assign m.nextRecord record
    nextRecord := m.nextRecord + 1
    pendingAcceptIndex := m.pendingAcceptIndex.emplace peerId m.nextRecord }

def createConnectionAcceptEntry (m : ConnMux T C) (packet : DtcpConnPacket Empty)
    (ipAddress port : Nat) : MuxResult T C :=
  match m.connectionMap.createConnection ipAddress port with
  | (none, _) => (false, m, [])
  | (some peerId, connectionMap) =>
    (true, addAcceptRecord { m with connectionMap } peerId ⟨packet.myId, peerId⟩,
      [.attempt peerId ⟨ipAddress, port⟩, .allocated peerId ⟨ipAddress, port⟩ m.nextRecord])

def createConnectionRequestEntry (m : ConnMux T C) (requestor : C) (transport : T)
    (ipAddress port : Nat) : MuxResult T C :=
  match m.connectionMap.createConnection ipAddress port with
  | (none, _) => (false, m, [])
  | (some peerId, connectionMap) =>
    (true,
      setTransport
        { m with
          connectionMap
          connRequestIndex := m.connRequestIndex.emplace peerId ⟨requestor, transport, peerId⟩ }
        transport ⟨0, peerId, ipAddress, port⟩,
      [.attempt peerId ⟨ipAddress, port⟩])

/-! ## Sends -/

/-- The end of the three reliable sends: when the packet went out under a request id, what it
waits for is indexed; when it did not, the attempt has failed. -/
def sendReliable (m : ConnMux T C) (msgType : PacketType) (ipAddress port : Nat)
    (sent : Option Nat) : MuxResult T C :=
  match sent with
  | none => (false, m, [.failed ⟨ipAddress, port⟩])
  | some requestId =>
    let netId := ipPortToNetId ipAddress port
    (true, { m with
      pendingAckIndex := m.pendingAckIndex.emplace netId ⟨netId, msgType, requestId⟩ }, [])

def sendConnectionRequest (m : ConnMux T C) (ipAddress port : Nat) (sent : Option Nat) :
    MuxResult T C := m.sendReliable .connRequest ipAddress port sent

def sendConnectionOffer (m : ConnMux T C) (ipAddress port : Nat) (sent : Option Nat) :
    MuxResult T C := m.sendReliable .connOffer ipAddress port sent

def sendConnectionAccept (m : ConnMux T C) (ipAddress port : Nat) (sent : Option Nat) :
    MuxResult T C := m.sendReliable .connAccept ipAddress port sent

/-! ## Handlers -/

def requestTransport (m : ConnMux T C) (requestor : C) (transport : T) (ipAddress port : Nat)
    (sent : Option Nat) : MuxResult T C :=
  let (status, m, events) := m.createConnectionRequestEntry requestor transport ipAddress port
  if status = false then (false, m, events)
  else
    let (status, m, more) := m.sendConnectionRequest ipAddress port sent
    (status, m, events ++ more)

def handleConnRequestPacket (m : ConnMux T C) (request : IncomingMessage) (answers : Answers T) :
    MuxResult T C :=
  if m.connectionMap.existsAt request.ipAddress request.port then (true, m, [])
  else if (m.getPendingAckRecord request.id).isSome then (true, m, [])
  else
    match request.parse with
    | none => (false, m, [])
    | some dtcpConnPacket =>
      if answers.accepted = false then (true, m, [])
      else
        let (status, m, events) :=
          m.createConnectionAcceptEntry dtcpConnPacket request.ipAddress request.port
        if status = false then (false, m, events)
        else
          let (status, m, more) :=
            m.sendConnectionOffer request.ipAddress request.port answers.sentReliable
          (status, m, events ++ more)

/-- The part of `handleConnOfferPacket` after the request record was found. -/
def completeRequest (m : ConnMux T C) (request : IncomingMessage) (peerId myId : Nat)
    (record : ConnRequestRecord T C) (sent : Option Nat) : MuxResult T C :=
  let info := (m.transports.find record.transport).getD ⟨0, 0, 0, 0⟩
  let m := m.setTransport record.transport { info with myId }
  let m := { m with connRequestIndex := m.connRequestIndex.erase peerId }
  let indexed := m.connectionMap.indexConnection peerId record.transport
  let m := { m with connectionMap := indexed.2 }
  if indexed.1 = false then (false, m, [])
  else
    let (status, m, events) := m.sendConnectionAccept info.peerIpAddress info.peerPort sent
    if status = false then (false, m, events)
    else
      (true, { m with
        pendingTransportIndex := m.pendingTransportIndex.emplace request.id
          ⟨request.id, record.transport, record.requestor⟩ }, events)

def handleConnOfferPacket (m : ConnMux T C) (request : IncomingMessage) (answers : Answers T) :
    MuxResult T C :=
  match m.getPendingAckRecord request.id with
  | none => (true, m, [])
  | some ackRecord =>
    if ackRecord.msgType ≠ .connRequest then (true, m, [])
    else
      let m := m.removePendingAckRecord ackRecord
      match request.parse with
      | none => (false, m, [])
      | some dtcpConnPacket =>
        match m.connRequestIndex.find dtcpConnPacket.peerId with
        | none => (false, m, [])
        | some record =>
          m.completeRequest request dtcpConnPacket.peerId dtcpConnPacket.myId record
            answers.sentReliable

/-- `sent` is the status of the send. -/
def sendAck (m : ConnMux T C) (transport : Option T) (sent : Bool) : MuxResult T C :=
  match transport with
  | none => (false, m, [.nullTransport])
  | some _ => (sent, m, [])

def checkAcceptAckRetry (m : ConnMux T C) (request : IncomingMessage) (sent : Bool) :
    MuxResult T C :=
  match request.parse with
  | none => (false, m, [])
  | some dtcpConnPacket =>
    match m.connectionMap.locateConnection dtcpConnPacket.peerId with
    | none => (true, m, [])
    | some transport => m.sendAck transport sent

/-- `acceptRecord->myId`. -/
def readAcceptRecord (m : ConnMux T C) (record : Nat) : Nat × List (MuxEvent T C) :=
  match m.acceptRecords.find record with
  | none => (0, [.usedAfterDelete record])
  | some acceptRecord => (acceptRecord.myId, [])

/-- The part of `handleConnAcceptPacket` after the transport was made. The record is erased from
`connRequestIndex_`, though it is `pendingAcceptIndex_` it was found in, and then deleted. -/
def completeAccept (m : ConnMux T C) (request : IncomingMessage) (peerId record : Nat)
    (transport : T) (answers : Answers T) : MuxResult T C :=
  let (myId, events) := m.readAcceptRecord record
  let m := m.setTransport transport ⟨myId, peerId, request.ipAddress, request.port⟩
  let indexed := m.connectionMap.indexConnection peerId transport
  let m := { m with connectionMap := indexed.2 }
  if indexed.1 = false then
    let (m, more) := m.removePendingConnection peerId
    (false, m, .createdTransport :: events ++ more)
  else
    let m := { m with connRequestIndex := m.connRequestIndex.erase peerId }
    let m := { m with acceptRecords := m.acceptRecords.erase record }
    if answers.sent = false then (false, m, .createdTransport :: events ++ [.deleted record])
    else
      (answers.received, m, .createdTransport :: events ++
        [.deleted record, .acceptorReceives peerId request.source transport])

def handleConnAcceptPacket (m : ConnMux T C) (request : IncomingMessage)
    (answers : Answers T) : MuxResult T C :=
  match m.getPendingAckRecord request.id with
  | none => m.checkAcceptAckRetry request answers.sent
  | some ackRecord =>
    if ackRecord.msgType ≠ .connOffer then (true, m, [])
    else
      let m := m.removePendingAckRecord ackRecord
      match request.parse with
      | none => (false, m, [])
      | some dtcpConnPacket =>
        match m.pendingAcceptIndex.find dtcpConnPacket.peerId with
        | none => (false, m, [])
        | some record =>
          match answers.created with
          | .failed =>
            let (m, events) := m.removePendingConnection dtcpConnPacket.peerId
            (false, m, events)
          | .invalid =>
            let (m, events) := m.removePendingConnection dtcpConnPacket.peerId
            (false, m, .createdTransport :: events)
          | .transport transport =>
            m.completeAccept request dtcpConnPacket.peerId record transport answers

def pendingConnAcceptComplete (m : ConnMux T C) (ackRecord : PendingAckRecord) (received : Bool) :
    MuxResult T C :=
  let netId := ackRecord.netId
  let m := m.removePendingAckRecord ackRecord
  match m.pendingTransportIndex.find netId with
  | none => (false, m, [])
  | some transportRecord =>
    (received, { m with pendingTransportIndex := m.pendingTransportIndex.erase netId },
      [.connectorReceives transportRecord.requestor transportRecord.transport])

def handleAckPacket (m : ConnMux T C) (request : IncomingMessage) (answers : Answers T) :
    MuxResult T C :=
  match m.getPendingAckRecord request.id with
  | none => (true, m, [])
  | some ackRecord =>
    match ackRecord.msgType with
    | .connAccept => m.pendingConnAcceptComplete ackRecord answers.received
    | .connClose | .connSuspend | .poll => (true, m.removePendingAckRecord ackRecord, [])
    | _ => (true, m, [])

/-- A packet of an established connection, as far as its transport. -/
def handleEstablished (m : ConnMux T C) (request : IncomingMessage) (answers : Answers T) :
    MuxResult T C :=
  match dispatch m.connectionMap request with
  | .rejected => (false, m, [])
  | .null _ => (false, m, [.nullTransport])
  | .transport _ _ => (answers.received, m, [])

def processPacket (m : ConnMux T C) (request : IncomingMessage) (answers : Answers T) :
    MuxResult T C :=
  match request.packetType with
  | .connRequest => m.handleConnRequestPacket request answers
  | .connOffer => m.handleConnOfferPacket request answers
  | .connAccept => m.handleConnAcceptPacket request answers
  | .connData | .connReliableData | .connDataAck => m.handleEstablished request answers
  | .ack => m.handleAckPacket request answers
  | .connSuspend | .connResume | .connClose | .poll | .error | .natDiscover | .natSource
  | .txnData => (true, m, [])
  | .none | .unnamed _ => (false, m, [])

/-- `DtcpBaseUdpTransport::handleSendFailure`, which gets the requests of the multiplexor when
their retransmissions are exhausted: the body is `return true;`. -/
def handleSendFailure (m : ConnMux T C) (ipAddress port : Nat) : MuxResult T C :=
  match m.getPendingAckRecord (ipPortToNetId ipAddress port) with
  | none => (true, m, [])
  | some _ => (true, m, [.failed ⟨ipAddress, port⟩])

/-! ## The machine -/

/-- What other code, the network and the timer do. -/
inductive Input (T C : Type) where
  | requestTransport (requestor : C) (transport : T) (ipAddress port : Nat) (sent : Option Nat)
  | packet (request : IncomingMessage) (answers : Answers T)
  | retriesExhausted (ipAddress port : Nat)
  | removePendingConnection (peerId : Nat)
  | removeConnection (transport : T)

def step (m : ConnMux T C) : Input T C → MuxResult T C
  | .requestTransport requestor transport ipAddress port sent =>
    m.requestTransport requestor transport ipAddress port sent
  | .packet request answers => m.processPacket request answers
  | .retriesExhausted ipAddress port => m.handleSendFailure ipAddress port
  | .removePendingConnection peerId =>
    let (m, events) := m.removePendingConnection peerId
    (true, m, events)
  | .removeConnection transport =>
    let (m, events) := m.removeConnection transport
    (true, m, events)

def machine : Machine (ConnMux T C) (Input T C) (MuxEvent T C) where
  step m input := ((m.step input).2.1, (m.step input).2.2)

end ConnMux

end Alpine
