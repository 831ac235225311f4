import Alpine.Protocol.LockedCalls

/-!
# Chains of calls

The chains that begin with the retransmission timer, with a packet or with a call of the
application: `processTimers` and whom it tells, the handlers of the multiplexor, the transports with
their queues of reliable requests and the handlers of `AlpineQueryMgr` with the result callback. A
function has the source's name, its value is the node afterwards, and its tree has the locks in the
order of the source.
-/

namespace Alpine

open Lib Traced UdpTransport

structure ReliableRequest where
  requestId : Nat
  data : List UInt8
  deriving DecidableEq, Repr

/-- `t_RequestStateIndex`: it is allocated with its first request and deleted with its last. -/
structure RequestStateIndex where
  currRequestId : Nat
  pendingRequests : List ReliableRequest
  nonempty : pendingRequests ≠ []

namespace RequestStateIndex

def front (index : RequestStateIndex) : ReliableRequest :=
  index.pendingRequests.head index.nonempty

def popFront (index : RequestStateIndex) : Option RequestStateIndex :=
  if h : index.pendingRequests.tail ≠ [] then some { index with pendingRequests := _, nonempty := h }
  else none

def pushBack (index : RequestStateIndex) (data : List UInt8) : RequestStateIndex where
  currRequestId := (index.currRequestId + 1) % 2 ^ 64
  pendingRequests := index.pendingRequests ++ [⟨index.currRequestId, data⟩]
  nonempty := by simp

/-- An index with its first request. -/
def new (requestId : Nat) (data : List UInt8) : RequestStateIndex where
  currRequestId := (requestId + 2) % 2 ^ 64
  pendingRequests := [⟨(requestId + 1) % 2 ^ 64, data⟩]
  nonempty := by simp

end RequestStateIndex

/-- What `AlpineDtcpConnTransport` adds to its base; it has a `requestId_` of its own. -/
structure AlpineTransport where
  requestId : Nat
  pendingIndex : Option RequestStateIndex

structure AlpineNode (T C : Type) where
  mux : ConnMux T C
  process : Process T
  alpine : T → AlpineTransport

namespace AlpineNode

variable {T C : Type} [DecidableEq T] [LinkWriter]

section Transport

variable (n : AlpineNode T C) (t : T)

def setTransport (transport : ConnTransport) : AlpineNode T C :=
  { n with process := n.process.setTransport t transport }

def setAlpine (transport : AlpineTransport) : AlpineNode T C :=
  { n with alpine := Function.update n.alpine t transport }

def pendingAck : Bool := (n.process.transports t).pendingAck

def clearPendingAck : AlpineNode T C :=
  n.setTransport t { n.process.transports t with pendingAck := false }

/-- `DtcpBaseConnTransport::sendReliablePacket`. -/
def baseSendReliablePacket (data : List UInt8) (o : SendOutcome) :
    Traced Lock (Bool × AlpineNode T C) :=
  if n.pendingAck t then pure (false, n)
  else do
    let _ ← UdpTransport.sendReliablePacket (n.process.nextPacket t data) o
    let (status, process, _) := n.process.sendReliablePacket t data o
    pure (status, { n with process })

def cleanUp : AlpineNode T C := n.setAlpine t { n.alpine t with pendingIndex := none }

def checkPendingRequests (o : SendOutcome) : Traced Lock (AlpineNode T C) :=
  if n.pendingAck t then pure n
  else
    match (n.alpine t).pendingIndex with
    | none => pure n
    | some index => do
      let n := n.setAlpine t ⟨index.front.requestId, index.popFront⟩
      let (status, n) ← n.baseSendReliablePacket t index.front.data o
      pure (if status = false then n.cleanUp t else n)

def sendReliableData (data : List UInt8) (o : SendOutcome) : Traced Lock (Bool × AlpineNode T C) :=
  if n.pendingAck t = false then do
    let (status, n) ← n.baseSendReliablePacket t data o
    if status = false then pure (false, n)
    else
      let transport := n.alpine t
      pure (true, n.setAlpine t
        { transport with requestId := (transport.requestId + 1) % 2 ^ 64 })
  else
    let transport := n.alpine t
    let pendingIndex := match transport.pendingIndex with
      | none => RequestStateIndex.new transport.requestId data
      | some index => index.pushBack data
    pure (true, n.setAlpine t { transport with pendingIndex := some pendingIndex })

/-- `DtcpBaseUdpTransport::reliableRequestComplete`. -/
def reliableRequestComplete (id now : Nat) : Traced Lock (Bool × AlpineNode T C) :=
  underLock .write .ackMap
    (let (status, ackMap, _) := n.process.ackMap.remove now id
    pure (status, { n with process := { n.process with ackMap } }))

/-- `DtcpBaseConnMux::acknowledgeTransfer`. -/
def muxAcknowledgeTransfer (now : Nat) : Traced Lock (Bool × AlpineNode T C) :=
  if n.pendingAck t = false then pure (false, n)
  else n.reliableRequestComplete (n.process.transports t).requestId now

/-- `DtcpBaseConnTransport::acknowledgeTransfer`. -/
def baseAcknowledgeTransfer (now : Nat) : Traced Lock (AlpineNode T C) :=
  if n.pendingAck t = false then pure n
  else do
    let (_, n) ← (n.clearPendingAck t).muxAcknowledgeTransfer t now
    pure n

def acknowledgeTransfer (requestId : Nat) (o : SendOutcome) : Traced Lock (AlpineNode T C) :=
  if n.pendingAck t = false ∨ requestId ≠ (n.alpine t).requestId then pure n
  else do
    let n ← n.baseAcknowledgeTransfer t o.now
    n.checkPendingRequests t o

/-- `handleSendFailure (id)` and `handleSendReceived (id)` of a transport, which `tell` the stack.
Its queue is looked at before and after. -/
def requestDone (id : Nat) (tell : Traced Lock Bool) (before after : SendOutcome) :
    Traced Lock (Bool × AlpineNode T C) :=
  let (status, transport) := (n.process.transports t).requestDone id
  if status = false then pure (false, n)
  else do
    let n := n.setTransport t transport
    let n ← n.checkPendingRequests t before
    let status ← tell
    if status = false then pure (false, n)
    else do
      let n ← n.checkPendingRequests t after
      pure (true, n)

end Transport

/-! ## The timer -/

/-- A pass of the loop of `processTimers`, with the sends that it can come to. -/
structure TimerPass where
  now : Nat
  entry : RetryEntry
  draw : ℚ
  resend : SendOutcome
  before : SendOutcome
  after : SendOutcome
  standing : Standing

def timerPass (n : AlpineNode T C) (pass : TimerPass) : Traced Lock (AlpineNode T C) :=
  let (ackMap, events) := n.process.ackMap.retry pass.now pass.entry pass.draw
  let n := { n with process := { n.process with ackMap } }
  match events with
  | [.failed id (some t)] => do
    let (_, n) ← n.requestDone t id pass.standing.handleSendFailure pass.before pass.after
    pure n
  | [.resent _] => do
    let _ ← sendData pass.resend
    pure n
  -- DtcpBaseUdpTransport::handleSendFailure is `return true;`
  | _ => pure n

def processTimers (n : AlpineNode T C) : List TimerPass → Traced Lock (AlpineNode T C)
  | [] => pure n
  | pass :: passes => do
    let n ← n.timerPass pass
    n.processTimers passes

/-- One round of `DtcpBaseUdpTransport::processTimedEvents`. -/
def processTimedEvents (n : AlpineNode T C) (passes : List TimerPass) :
    Traced Lock (AlpineNode T C) :=
  underLock .write .ackMap (n.processTimers passes)

/-! ## Queries -/

/-- The public operations of `AlpineQueryMgr`, with what they find. -/
inductive QueryCall where
  /-- `start` is what the new query does before it is indexed. -/
  | createQuery (start : Traced Lock Bool)
  | getQueryStatus (active past : Bool)
  | exists (active : Bool)
  | isActive
  | inProgress (active : Bool)
  | pauseQuery (active running : Bool)
  | resumeQuery (active running : Bool)
  | cancelQuery (active cancelled : Bool)
  | getAllActiveQueryIds
  | getAllPastQueryIds
  | getQueryResults
  | registerResultCallback (active : Bool)
  | getPeerActiveQueryList
  | getPeerPastQueryList

namespace QueryCall

/-- A call that only looks at an index. -/
def look (lock : Lock) : Traced Lock Unit := underLock .read lock (pure ())

def queryCall (mode : LockMode) : Traced Lock Unit := underLock mode .query (pure ())

def locks : QueryCall → Traced Lock Unit
  | createQuery start => do
    look .activeQuery
    let status ← start
    if status = false then pure ()
    else do
      underLock .write .activeQuery (pure ())
      Standing.notifyEvent
  | getQueryStatus active past => do
    underLock .read .activeQuery
      (if active then underLock .read .queryMutex (queryCall .read) else pure ())
    if active then pure ()
    else do
      underLock .read .pastQuery
        (if past then underLock .read .queryMutex (pure ()) else pure ())
  | .exists active => do
    look .activeQuery
    if active then pure () else look .pastQuery
  | inProgress active =>
    underLock .read .activeQuery (if active then queryCall .read else pure ())
  | pauseQuery active running => underLock .read .activeQuery
      (if active then do
        queryCall .read
        if running then queryCall .write else pure ()
      else pure ())
  | resumeQuery active running => underLock .read .activeQuery
      (if active then do
        queryCall .read
        if running then pure () else queryCall .write
      else pure ())
  | cancelQuery active cancelled => underLock .write .activeQuery
      (underLock .write .pastQuery
        (if active then do
          queryCall .write
          if cancelled then do
            queryCall .read
            -- the destructor cancels once more
            queryCall .write
            queryCall .write
          else pure ()
        else pure ()))
  | registerResultCallback active => underLock .read .activeQuery
      (if active then underLock .write .queryMutex (pure ()) else pure ())
  | isActive | getAllActiveQueryIds | getQueryResults | getPeerActiveQueryList => look .activeQuery
  | getAllPastQueryIds | getPeerPastQueryList => look .pastQuery

/-- The call is about past queries and nothing else. -/
def past : QueryCall → Bool
  | getAllPastQueryIds | getPeerPastQueryList => true
  | _ => false

end QueryCall

/-- A result callback, by the calls it makes. -/
abbrev ResultCallback := List QueryCall

def ResultCallback.invoke : ResultCallback → Traced Lock Unit
  | [] => pure ()
  | call :: calls => do
    call.locks
    ResultCallback.invoke calls

/-- How `verifyQueryOffer` or `verifyQueryReply` ends: the header is wrong, what is kept of the peer
does not allow the packet, the packet is a duplicate or out of range for another reason, it is
valid. -/
inductive Verdict where
  | badHeader | badState | duplicate | valid
  deriving DecidableEq, Repr

/-- What a query packet from a peer comes to: whether its query is active, how it is verified and
processed, the peer's transport in `DtcpStack`, and the fate of the answer. -/
structure Answer (T : Type) where
  located : Bool
  verdict : Verdict
  processed : Bool
  transport : Option T
  encoded : Bool
  data : List UInt8
  send : SendOutcome

section Queries

variable (n : AlpineNode T C) (k : Standing) (a : Answer T)

/-- `verifyQueryOffer` or `verifyQueryReply`; only the latter has a `badState`. -/
def verify : Traced Lock Bool :=
  match a.verdict with
  | .badHeader => do
    let _ ← k.badPacketReceived
    pure false
  | .badState => underLock .write .results do
    let _ ← k.badPacketReceived
    pure false
  | .duplicate => underLock .write .results (pure false)
  | .valid => underLock .write .results (pure true)

/-- `AlpineQueryResults::processQueryOffer` and `processQueryReply`. -/
def processResults : Traced Lock Bool := do
  let status ← verify k a
  if status = false then pure false else underLock .write .results (pure a.processed)

/-- `AlpineStack::sendReliablePacket`. -/
def stackSendReliablePacket : Traced Lock (Bool × AlpineNode T C) := do
  let transport ← underLock .read .transportIndex (pure a.transport)
  match transport with
  | none => pure (false, n)
  | some t => if a.encoded = false then pure (false, n) else n.sendReliableData t a.data a.send

/-- `AlpineStack::acknowledgeTransfer`. -/
def stackAcknowledgeTransfer (requestId : Nat) (o : SendOutcome) :
    Traced Lock (AlpineNode T C) := do
  let transport ← underLock .read .transportIndex (pure a.transport)
  match transport with
  | none => pure n
  | some t => n.acknowledgeTransfer t requestId o

/-- `handleQueryDiscover` and `handleQueryRequest`. -/
def handleQueryLook : Traced Lock (AlpineNode T C) := underLock .read .activeQuery (pure n)

def handleQueryOffer : Traced Lock (AlpineNode T C) :=
  underLock .read .activeQuery
    (if k.queryMgr = false then pure n
    else if a.located = false then do
      let _ ← k.badPacketReceived
      pure n
    else underLock .write .queryMutex do
      let status ← processResults k a
      if status = false then do
        let _ ← k.badPacketReceived
        pure n
      else do
        let (_, n) ← n.stackSendReliablePacket a
        pure n)

/-- `pending` is the request that the query has to acknowledge itself, `next` the fate of the packet
sent after it, `callback` the result callback of the query. -/
structure Reply (T : Type) extends Answer T where
  pending : Option Nat
  next : SendOutcome
  callback : Option ResultCallback

/-- The part of `handleQueryReply` after the reply was answered. -/
def notifyReply (callback : Option ResultCallback) : Traced Lock Unit := do
  let callback ← underLock .read .queryMutex (pure callback)
  match callback with
  | none => pure ()
  | some calls => calls.invoke
  Standing.notifyEvent

/-- The request that the reply answers is cleaned up before anything else is sent to the peer. -/
def acknowledgePending (r : Reply T) : Traced Lock (AlpineNode T C) :=
  match r.pending with
  | none => pure n
  | some requestId => n.stackAcknowledgeTransfer r.toAnswer requestId r.next

/-- `handleQueryReply` once the reply was processed. -/
def answerReply (r : Reply T) : Traced Lock (AlpineNode T C) := do
  let n ← n.acknowledgePending r
  let (status, n) ← n.stackSendReliablePacket r.toAnswer
  if status = false then pure n
  else do
    notifyReply r.callback
    pure n

def handleQueryReply (r : Reply T) : Traced Lock (AlpineNode T C) :=
  underLock .read .activeQuery
    (if k.queryMgr = false then pure n
    else if r.located = false then do
      let _ ← k.badPacketReceived
      pure n
    else do
      let status ← processResults k r.toAnswer
      if status = false then do
        let _ ← k.badPacketReceived
        pure n
      else n.answerReply r)

/-- What `AlpineDtcpConnTransport::handleData` finds in the data. Packets of peers and proxies are
read and dropped. -/
inductive Payload (T : Type) where
  | dropped
  | queryDiscover
  | queryOffer (answer : Answer T)
  | queryRequest
  | queryReply (reply : Reply T)

def handleData : Payload T → Traced Lock (AlpineNode T C)
  | .dropped => pure n
  | .queryDiscover | .queryRequest => n.handleQueryLook
  | .queryOffer answer => n.handleQueryOffer k answer
  | .queryReply reply => n.handleQueryReply k reply

end Queries

/-! ## The multiplexor -/

/-- A packet, with what the other classes say while it is handled. `after` is a second send of the
same chain. -/
structure Incoming (T : Type) where
  request : IncomingMessage
  /-- `acceptor_->acceptConnection` and `createTransport`. -/
  accepted : Bool
  created : CreateTransport T
  send : SendOutcome
  after : SendOutcome
  standing : Standing
  payload : Payload T

/-- A packet of the handshake, without a payload. -/
def handshakePacket (packetType : PacketType) (peerId myId ipAddress port : Nat) : ConnPacket :=
  { (DtcpConnPacket.fresh 0 0 packetType : ConnPacket) with
    peerId, myId, peerIpAddress := ipAddress, peerPort := port }

section Mux

variable (n : AlpineNode T C) (i : Incoming T)

def getPendingAckRecord : Traced Lock (Option PendingAckRecord) :=
  underLock .read .pendingAck (pure (n.mux.getPendingAckRecord i.request.id))

def removePendingAckRecord (record : PendingAckRecord) : Traced Lock (AlpineNode T C) :=
  underLock .read .pendingAck do
    let n := { n with mux := n.mux.removePendingAckRecord record }
    let (_, n) ← n.reliableRequestComplete record.requestId i.send.now
    pure n

/-- `sendConnectionRequest`, `sendConnectionOffer` and `sendConnectionAccept`. -/
def sendReliable (packet : ConnPacket) (send : SendOutcome) :
    Traced Lock (Bool × AlpineNode T C) := do
  let sent ← UdpTransport.sendReliablePacket packet send
  if sent = false then pure (false, n)
  else do
    let requestId := n.process.ackMap.currId
    let (ipAddress, port) := (packet.peerIpAddress, packet.peerPort)
    let process := n.process.muxSend packet.datagram send.now ipAddress port send.draw
    let (_, mux, _) := n.mux.sendReliable packet.packetType ipAddress port (some requestId)
    underLock .write .pendingAck (pure (true, { n with process, mux }))

def createConnectionRequestEntry (requestor : C) (transport : T) (ipAddress port : Nat) :
    Traced Lock (Bool × AlpineNode T C) := do
  let (status, mux, _) ← underLock .write .connMap
    (pure (n.mux.createConnectionRequestEntry requestor transport ipAddress port))
  if status = false then pure (false, n)
  else underLock .write .index (pure (true, { n with mux }))

/-- The connector has set the location of the transport. -/
def requestTransport (requestor : C) (transport : T) (ipAddress port : Nat) (send : SendOutcome) :
    Traced Lock (AlpineNode T C) := do
  let n := { n with process := n.process.setPeerLocation transport ipAddress port }
  let (status, n) ← n.createConnectionRequestEntry requestor transport ipAddress port
  if status = false then pure n
  else do
    let info := (n.mux.transports.find transport).getD ⟨0, 0, 0, 0⟩
    let (_, n) ← n.sendReliable
      (handshakePacket .connRequest info.peerId 0 info.peerIpAddress info.peerPort) send
    pure n

/-- The id that the connection map gives out for the offer. -/
def offeredId : Nat :=
  (n.mux.connectionMap.createConnection i.request.ipAddress i.request.port).1.getD 0

def createConnectionAcceptEntry (packet : DtcpConnPacket Empty) :
    Traced Lock (Bool × AlpineNode T C) := do
  let (status, mux, _) ← underLock .write .connMap
    (pure (n.mux.createConnectionAcceptEntry packet i.request.ipAddress i.request.port))
  if status = false then pure (false, n)
  else underLock .write .index (pure (true, { n with mux }))

def handleConnRequestPacket : Traced Lock (AlpineNode T C) := do
  let status ← underLock .read .connMap
    (pure (n.mux.connectionMap.existsAt i.request.ipAddress i.request.port))
  if status then pure n
  else do
    let ackRecord ← n.getPendingAckRecord i
    if ackRecord.isSome then pure n
    else
      match i.request.parse with
      | none => pure n
      | some dtcpConnPacket =>
        if i.accepted = false then pure n
        else do
          let offer := handshakePacket .connOffer (n.offeredId i) dtcpConnPacket.myId
            i.request.ipAddress i.request.port
          let (status, n) ← n.createConnectionAcceptEntry i dtcpConnPacket
          if status = false then pure n
          else do
            let (_, n) ← n.sendReliable offer i.send
            pure n

/-- `handleConnOfferPacket` after the request record was found. -/
def completeRequest (peerId myId : Nat) (record : ConnRequestRecord T C) :
    Traced Lock (AlpineNode T C) := do
  let info := (n.mux.transports.find record.transport).getD ⟨0, 0, 0, 0⟩
  let mux := n.mux.setTransport record.transport { info with myId }
  let mux ← underLock .write .index
    (pure { mux with connRequestIndex := mux.connRequestIndex.erase peerId })
  let (status, connectionMap) ← underLock .write .connMap
    (pure (mux.connectionMap.indexConnection peerId record.transport))
  let n := { n with mux := { mux with connectionMap } }
  if status = false then pure n
  else do
    let (status, n) ← n.sendReliable
      (handshakePacket .connAccept 0 myId info.peerIpAddress info.peerPort) i.send
    if status = false then pure n
    else do
      let record := ⟨i.request.id, record.transport, record.requestor⟩
      underLock .write .index (pure { n with mux := { n.mux with
        pendingTransportIndex := n.mux.pendingTransportIndex.emplace i.request.id record } })

def handleConnOfferPacket : Traced Lock (AlpineNode T C) := do
  let ackRecord ← n.getPendingAckRecord i
  match ackRecord with
  | none => pure n
  | some ackRecord =>
    if ackRecord.msgType ≠ .connRequest then pure n
    else do
      let n ← n.removePendingAckRecord i ackRecord
      match i.request.parse with
      | none => pure n
      | some dtcpConnPacket => do
        let record ← underLock .read .index
          (pure (n.mux.connRequestIndex.find dtcpConnPacket.peerId))
        match record with
        | none => pure n
        | some record => n.completeRequest i dtcpConnPacket.peerId dtcpConnPacket.myId record

/-- `connectionMap_->removePendingConnection`. -/
def removePendingConnection (peerId : Nat) : Traced Lock (AlpineNode T C) :=
  underLock .write .connMap (pure { n with mux := (n.mux.removePendingConnection peerId).1 })

/-- `handleConnAcceptPacket` after the transport was made. -/
def completeAccept (peerId record : Nat) (transport : T) : Traced Lock (AlpineNode T C) := do
  let (ipAddress, port) := (i.request.ipAddress, i.request.port)
  let n := { n with process := n.process.setPeerLocation transport ipAddress port }
  let (myId, _) := n.mux.readAcceptRecord record
  let mux := n.mux.setTransport transport ⟨myId, peerId, ipAddress, port⟩
  let (status, connectionMap) ← underLock .write .connMap
    (pure (mux.connectionMap.indexConnection peerId transport))
  let mux := { mux with connectionMap }
  if status = false then removePendingConnection { n with mux } peerId
  else do
    let mux ← underLock .write .index
      (pure { mux with connRequestIndex := mux.connRequestIndex.erase peerId })
    let n := { n with mux := { mux with acceptRecords := mux.acceptRecords.erase record } }
    let status ← sendPacket (handshakePacket .ack 0 myId ipAddress port) i.send
    if status = false then pure n
    else do
      let _ ← i.standing.registerTransport
      pure n

/-- A connection that is still pending has a null transport, which the code goes on to use; no lock
is taken on the way. -/
def checkAcceptAckRetry : Traced Lock (AlpineNode T C) :=
  match i.request.parse with
  | none => pure n
  | some dtcpConnPacket => do
    let transport ← underLock .write .connMap
      (pure (n.mux.connectionMap.locateConnection dtcpConnPacket.peerId))
    match transport with
    | none | some none => pure n
    | some (some transport) => do
      let info := (n.mux.transports.find transport).getD ⟨0, 0, 0, 0⟩
      let _ ← sendPacket (handshakePacket .ack 0 info.myId info.peerIpAddress info.peerPort) i.send
      pure n

def handleConnAcceptPacket : Traced Lock (AlpineNode T C) := do
  let ackRecord ← n.getPendingAckRecord i
  match ackRecord with
  | none => n.checkAcceptAckRetry i
  | some ackRecord =>
    if ackRecord.msgType ≠ .connOffer then pure n
    else do
      let n ← n.removePendingAckRecord i ackRecord
      match i.request.parse with
      | none => pure n
      | some dtcpConnPacket => do
        let record ← underLock .read .index
          (pure (n.mux.pendingAcceptIndex.find dtcpConnPacket.peerId))
        match record, i.created with
        | none, _ => pure n
        | some _, .failed | some _, .invalid => n.removePendingConnection dtcpConnPacket.peerId
        | some record, .transport transport =>
          n.completeAccept i dtcpConnPacket.peerId record transport

def pendingConnAcceptComplete (ackRecord : PendingAckRecord) : Traced Lock (AlpineNode T C) := do
  let netId := ackRecord.netId
  let n ← n.removePendingAckRecord i ackRecord
  let (record, pendingTransportIndex) ← underLock .write .index
    (pure (n.mux.pendingTransportIndex.find netId, n.mux.pendingTransportIndex.erase netId))
  let n := { n with mux := { n.mux with pendingTransportIndex } }
  if record.isNone then pure n
  else do
    let _ ← i.standing.connectorReceiveTransport
    pure n

def handleAckPacket : Traced Lock (AlpineNode T C) := do
  let ackRecord ← n.getPendingAckRecord i
  match ackRecord with
  | none => pure n
  | some ackRecord =>
    match ackRecord.msgType with
    | .connAccept => n.pendingConnAcceptComplete i ackRecord
    | .connClose | .connSuspend | .poll => n.removePendingAckRecord i ackRecord
    | _ => pure n

/-- The start of the handlers of an established connection; `use` is the rest. -/
def withTransport (use : DtcpConnPacket Empty → T → Traced Lock (AlpineNode T C)) :
    Traced Lock (AlpineNode T C) :=
  match i.request.parse with
  | none => pure n
  | some dtcpConnPacket => do
    let transport ← underLock .write .connMap
      (pure (n.mux.connectionMap.locateConnection dtcpConnPacket.peerId))
    match transport with
    | none | some none => pure n
    | some (some transport) => use dtcpConnPacket transport

def handleConnDataPacket : Traced Lock (AlpineNode T C) :=
  n.withTransport i fun _ _ => n.handleData i.standing i.payload

def sendDataAck (t : T) : Traced Lock Bool :=
  sendPacket (n.process.transports t).dataAckPacket i.send

def reliableData (packet : DtcpConnPacket Empty) (t : T) : Traced Lock (AlpineNode T C) :=
  if n.process.isRepeat t packet.sequenceNum then do
    let _ ← n.sendDataAck i t
    pure n
  else
    let n := { n with process := n.process.setRecvSequenceNum t packet.sequenceNum }
    do
      let _ ← n.sendDataAck i t
      n.handleData i.standing i.payload

def handleConnReliableDataPacket : Traced Lock (AlpineNode T C) :=
  n.withTransport i (n.reliableData i)

def dataAck (t : T) : Traced Lock (AlpineNode T C) :=
  if n.pendingAck t = false then pure n
  else do
    let requestId := (n.process.transports t).requestId
    let (status, n) ← n.reliableRequestComplete requestId i.send.now
    if status = false then pure n
    else do
      let (_, n) ← n.requestDone t requestId Standing.handleSendReceived i.send i.after
      pure n

def handleConnDataAckPacket : Traced Lock (AlpineNode T C) :=
  n.withTransport i fun _ t => n.dataAck i t

/-- `handleErrorPacket` and `handleNatSourcePacket`, which look for a record and do nothing with
it. -/
def lookForRecord : Traced Lock (AlpineNode T C) := do
  let _ ← n.getPendingAckRecord i
  pure n

def processPacket : Traced Lock (AlpineNode T C) :=
  match i.request.packetType with
  | .connRequest => n.handleConnRequestPacket i
  | .connOffer => n.handleConnOfferPacket i
  | .connAccept => n.handleConnAcceptPacket i
  | .connData => n.handleConnDataPacket i
  | .connReliableData => n.handleConnReliableDataPacket i
  | .connDataAck => n.handleConnDataAckPacket i
  | .ack => n.handleAckPacket i
  | .error | .natSource => n.lookForRecord i
  | _ => pure n

end Mux

/-- The beginning of a chain. The last three are calls of the application. -/
inductive Chain (T C : Type) where
  | timer (passes : List TimerPass)
  | packet (incoming : Incoming T)
  | requestTransport (requestor : C) (transport : T) (ipAddress port : Nat) (send : SendOutcome)
  | sendReliableData (t : T) (data : List UInt8) (send : SendOutcome)
  | acknowledgeTransfer (t : T) (requestId : Nat) (send : SendOutcome)

def runChain (n : AlpineNode T C) : Chain T C → Traced Lock (AlpineNode T C)
  | .timer passes => n.processTimedEvents passes
  | .packet incoming => n.processPacket incoming
  | .requestTransport requestor transport ipAddress port send =>
    n.requestTransport requestor transport ipAddress port send
  | .sendReliableData t data send => do
    let (_, n) ← n.sendReliableData t data send
    pure n
  | .acknowledgeTransfer t requestId send => n.acknowledgeTransfer t requestId send

end AlpineNode

end Alpine
