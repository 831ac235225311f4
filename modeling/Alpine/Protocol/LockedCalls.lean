import Alpine.Dtcp.ConnMux
import Alpine.Dtcp.ConnTransport
import Alpine.Lib.Locks

/-!
# What the calls of the stack lock

The calls that run through the retransmission table, the multiplexor, the transports of the peers,
`AlpineStack`, `AlpinePeerMgr` and `AlpineQueryMgr`, with the locks they take. An `AlpineNode` has
what these calls decide about reliable requests: the multiplexor's indexes, the retransmission table
and the transports with their queues. What the other classes know of the peer and of the query is an
input (`Standing`, `Payload`), and so are the buffer and the send queue that a packet meets
(`SendOutcome`).

There is one `Lock` for each lock of a class; no call here takes those of two objects of a class.
-/

namespace Alpine

open Lib Traced

inductive Lock where
  /-- `DtcpBaseUdpTransport::ackMapLock_` and `sendQueueLock_`, `DtcpThreadTable::recordLock_`. -/
  | ackMap | sendQueue | record
  /-- `DtcpBaseConnMux::connMapLock_`, `indexLock_` and `pendingAckLock_`. -/
  | connMap | index | pendingAck
  /-- `DtcpStack::transportIndexLock_s`, `AlpineDtcpConnConnector::backoffLock_s`. -/
  | transportIndex | backoff
  /-- `AlpineStack::eventMutex_s`. -/
  | event
  /-- `AlpineQueryMgr::activeQueryLock_s` and `pastQueryLock_s`, and the mutex of a query's state. -/
  | activeQuery | pastQuery | queryMutex
  /-- `AlpineQuery::dataLock_` and `AlpineQueryResults::dataLock_`. -/
  | query | results
  /-- `AlpinePeerMgr::dataLock_s` and `peerInfoLock_s`. -/
  | peerData | peerInfo
  /-- The locks of `CircuitBreaker`, `AlpinePeerProfileIndex` and `AlpineRatingEngine`. -/
  | circuit | profileIndex | rating
  /-- `AlpineGroupMgr::dataLock_s` and `AlpineGroup::dataLock_`. -/
  | groupMgr | group
  deriving DecidableEq, Repr

/-! ## The UDP transport -/

namespace UdpTransport

variable (packet : ConnPacket) (o : SendOutcome)

def getTempDataBuffer : Traced Lock Bool := underLock .write .record (pure o.buffer.isSome)

def releaseTempDataBuffer : Traced Lock Unit := underLock .write .record (pure ())

/-- The last part of `sendPacket` and of `sendData`; the lock is held to the end. -/
def addRequest : Traced Lock Bool :=
  underLock .write .sendQueue do
    if o.queued = false then do
      releaseTempDataBuffer
      pure false
    else pure true

def sendData : Traced Lock Bool := do
  let status ← getTempDataBuffer o
  if status = false then pure false else addRequest o

def sendPacket [LinkWriter] : Traced Lock Bool := do
  let status ← getTempDataBuffer o
  if status = false then pure false
  else if o.written packet = false then do
    releaseTempDataBuffer
    pure false
  else addRequest o

/-- The request is added to the table under the last lock. -/
def sendReliablePacket [LinkWriter] : Traced Lock Bool := do
  let status ← getTempDataBuffer o
  if status = false then pure false
  else if o.written packet = false then do
    releaseTempDataBuffer
    pure false
  else do
    let status ← underLock .write .sendQueue (pure o.queued)
    if status = false then do
      releaseTempDataBuffer
      pure false
    else underLock .write .ackMap (pure true)

def packetLocks : List Lock := [.record, .sendQueue]

def reliableLocks : List Lock := [.record, .sendQueue, .ackMap]

theorem releaseTempDataBuffer_within : Within [.record] releaseTempDataBuffer :=
  within_touch (by decide) ()

theorem addRequest_within : Within packetLocks (addRequest o) := by
  refine Within.underLock (R := [.record]) ?_ (by decide) (by decide) (by decide)
  refine Within.ite (fun _ => ?_) fun _ => within_pure _ _
  exact releaseTempDataBuffer_within.bind (within_pure _ _)

theorem sendData_within : Within packetLocks (sendData o) := by
  refine (within_touch (by decide) _).bind (Within.ite (fun _ => within_pure _ _) fun _ => ?_)
  exact addRequest_within o

variable [LinkWriter]

theorem sendPacket_within : Within packetLocks (sendPacket packet o) := by
  refine (within_touch (by decide) _).bind (Within.ite (fun _ => within_pure _ _) fun _ => ?_)
  refine Within.ite (fun _ => ?_) fun _ => addRequest_within o
  exact (releaseTempDataBuffer_within.mono (by decide)).bind (within_pure _ _)

theorem sendReliablePacket_within : Within reliableLocks (sendReliablePacket packet o) := by
  have hrelease : Within reliableLocks (releaseTempDataBuffer >>= fun _ => pure false) :=
    (releaseTempDataBuffer_within.mono (by decide)).bind (within_pure _ _)
  refine (within_touch (by decide) _).bind (Within.ite (fun _ => within_pure _ _) fun _ => ?_)
  refine Within.ite (fun _ => hrelease) fun _ => ?_
  refine (within_touch (by decide) _).bind (Within.ite (fun _ => hrelease) fun _ => ?_)
  exact within_touch (by decide) _

/-- What was written had a buffer. -/
theorem isSome_of_written (hwritten : o.written packet = true) : o.buffer.isSome = true := by
  unfold SendOutcome.written at hwritten
  split at hwritten
  · cases hwritten
  · next hbuffer => rw [hbuffer, Option.isSome_some]

@[simp] theorem value_sendReliablePacket : (sendReliablePacket packet o).value = o.sent packet := by
  unfold sendReliablePacket getTempDataBuffer SendOutcome.sent
  cases hw : o.written packet with
  | false => cases o.buffer.isSome <;> rfl
  | true =>
    rw [isSome_of_written packet o hw]
    cases o.queued <;> rfl

/-- A packet that goes out reaches the lock of the table. -/
theorem sendReliablePacket_relocks {held : List Lock} (hheld : .ackMap ∈ held)
    (hsent : o.sent packet = true) : ¬ Clean held (sendReliablePacket packet o) := by
  unfold SendOutcome.sent at hsent
  rw [Bool.and_eq_true] at hsent
  obtain ⟨hwritten, hqueued⟩ := hsent
  simp [sendReliablePacket, getTempDataBuffer, clean_bind, clean_underLock,
    isSome_of_written packet o hwritten, hwritten, hqueued, hheld]

/-- One that does not go out does not. -/
theorem sendReliablePacket_unsent (hsent : o.sent packet = false) :
    Within packetLocks (sendReliablePacket packet o) := by
  have hrelease : Within packetLocks (releaseTempDataBuffer >>= fun _ => pure false) :=
    (releaseTempDataBuffer_within.mono (by decide)).bind (within_pure _ _)
  refine (within_touch (by decide) _).bind (Within.ite (fun _ => within_pure _ _) fun hbuffer => ?_)
  refine Within.ite (fun _ => hrelease) fun hwritten => ?_
  refine (within_touch (by decide) _).bind (Within.ite (fun _ => hrelease) fun hqueued => ?_)
  simp_all [SendOutcome.sent]

end UdpTransport

/-! ## Peers -/

/-- What the managers know of a peer: they are initialized, the base index has a profile for it, the
default group was found. -/
structure Standing where
  queryMgr : Bool
  peerMgr : Bool
  profile : Bool
  defaultGroup : Bool
  deriving DecidableEq, Repr

namespace Standing

variable (k : Standing)

/-- `badPacketReceived` and `reliableTransferFailed` of `AlpinePeerMgr` do the same with locks. -/
def recordFailure : Traced Lock Bool :=
  underLock .read .peerData do
    if k.peerMgr = false then pure false
    else do
      underLock .write .circuit (pure ())
      underLock .write .profileIndex do
        if k.profile = false then pure false else underLock .write .rating (pure true)

def badPacketReceived : Traced Lock Bool := k.recordFailure

def reliableTransferFailed : Traced Lock Bool := k.recordFailure

/-- `AlpinePeerProfileIndex::create`. -/
def createProfile : Traced Lock Bool := do
  let exists? ← underLock .read .profileIndex (pure k.profile)
  if exists? then pure false else underLock .write .profileIndex (pure true)

/-- `AlpinePeerMgr::registerTransport`. -/
def registerPeer : Traced Lock Bool :=
  underLock .read .peerData do
    if k.peerMgr = false then pure false
    else do
      let status ← underLock .read .groupMgr (pure k.defaultGroup)
      if status = false then pure false
      else do
        underLock .read .group (pure ())
        underLock .write .peerInfo (pure ())
        k.createProfile

def notifyEvent : Traced Lock Unit := underLock .write .event (pure ())

/-- `AlpineStack::registerTransport`; this is also what the acceptor's `receiveTransport` does. -/
def registerTransport : Traced Lock Bool := do
  let status ← k.registerPeer
  if status then do
    notifyEvent
    pure true
  else pure false

/-- `AlpineDtcpConnConnector::receiveTransport`, which ends with `resetBackoff`. -/
def connectorReceiveTransport : Traced Lock Bool := do
  let status ← k.registerTransport
  if status = false then pure false
  else do
    underLock .write .backoff (pure ())
    pure true

def peerLocks : List Lock := [.peerData, .circuit, .profileIndex, .rating]

def registerLocks : List Lock :=
  [.peerData, .groupMgr, .group, .peerInfo, .profileIndex, .event, .backoff]

theorem recordFailure_within : Within peerLocks k.recordFailure := by
  refine Within.underLock (R := [.circuit, .profileIndex, .rating]) ?_ (by decide) (by decide)
    (by decide)
  refine Within.ite (fun _ => within_pure _ _) fun _ => ?_
  refine (within_touch (by decide) _).bind ?_
  refine Within.underLock (R := [.rating]) ?_ (by decide) (by decide) (by decide)
  exact Within.ite (fun _ => within_pure _ _) fun _ => within_touch (by decide) _

theorem createProfile_within : Within [.profileIndex] k.createProfile := by
  refine (within_touch (by decide) _).bind (Within.ite (fun _ => within_pure _ _) fun _ => ?_)
  exact within_touch (by decide) _

theorem registerPeer_within : Within registerLocks k.registerPeer := by
  refine Within.underLock (R := [.groupMgr, .group, .peerInfo, .profileIndex]) ?_ (by decide)
    (by decide) (by decide)
  refine Within.ite (fun _ => within_pure _ _) fun _ => ?_
  refine (within_touch (by decide) _).bind (Within.ite (fun _ => within_pure _ _) fun _ => ?_)
  refine (within_touch (by decide) _).bind ((within_touch (by decide) _).bind ?_)
  exact k.createProfile_within.mono (by decide)

theorem registerTransport_within : Within registerLocks k.registerTransport := by
  refine k.registerPeer_within.bind (Within.ite (fun _ => ?_) fun _ => within_pure _ _)
  exact (within_touch (by decide) _).bind (within_pure _ _)

theorem connectorReceiveTransport_within :
    Within registerLocks k.connectorReceiveTransport := by
  refine k.registerTransport_within.bind (Within.ite (fun _ => within_pure _ _) fun _ => ?_)
  exact (within_touch (by decide) _).bind (within_pure _ _)

/-! The query manager's part in the fate of a request; `removePendingRequest` takes no lock. -/

/-- `AlpineStack::handleSendReceived`, which asks `AlpineQueryMgr` and answers true. -/
def handleSendReceived : Traced Lock Bool := do
  underLock .read .activeQuery (pure ())
  pure true

def handleSendFailure : Traced Lock Bool := do
  underLock .read .activeQuery do
    if k.queryMgr = false then pure ()
    else do
      let _ ← k.reliableTransferFailed
      pure ()
  pure true

def outcomeLocks : List Lock := .activeQuery :: peerLocks

theorem handleSendReceived_within : Within outcomeLocks handleSendReceived :=
  (within_touch (by decide) _).bind (within_pure _ _)

theorem handleSendFailure_within : Within outcomeLocks k.handleSendFailure := by
  refine Within.bind ?_ (within_pure _ _)
  refine Within.underLock (R := peerLocks) ?_ (by decide) (by decide) (by decide)
  refine Within.ite (fun _ => within_pure _ _) fun _ => ?_
  exact k.recordFailure_within.bind (within_pure _ _)

end Standing

end Alpine
