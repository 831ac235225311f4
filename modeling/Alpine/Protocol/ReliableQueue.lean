import Alpine.Protocol.SelfLocking

/-!
# The queue of reliable requests

`AlpineDtcpConnTransport` takes a reliable request while another one is outstanding: it numbers the
request and queues it, and sends the first of the queue when the outstanding request is done. The
functions are the source's, over a process and what the transports add to it.

The constructor does not set `requestId_`, so the number a transport starts from is arbitrary.
-/

namespace Alpine

open Lib

/-- How a reliable transfer ends. -/
inductive TransferEnd where
  | received
  | failed
  | acknowledged
  deriving DecidableEq, Repr

inductive QueueEvent (T : Type) where
  /-- `sendReliableData` returned true. -/
  | accepted (transport : T) (request : ReliableRequest)
  /-- `DtcpBaseConnTransport::sendReliableData` did. -/
  | wired (transport : T) (request : ReliableRequest)
  /-- The request outstanding is done. -/
  | ended (transport : T) (outcome : TransferEnd)
  /-- `AlpineStack::handleSendReceived` or `handleSendFailure` was called. -/
  | told (transport : T) (requestId : Nat) (outcome : TransferEnd)
  deriving DecidableEq, Repr

structure ReliableQueues (T : Type) where
  process : Process T
  alpine : T → AlpineTransport

namespace ReliableQueues

variable {T : Type}

def new (configured : Option Int) (requestIds : T → Nat) : ReliableQueues T :=
  ⟨Process.new configured, fun t => ⟨requestIds t, none⟩⟩

def pendingAck (s : ReliableQueues T) (t : T) : Bool := (s.process.transports t).pendingAck

/-- `pendingIndex_->pendingRequests`. -/
def pendingRequests (s : ReliableQueues T) (t : T) : List ReliableRequest :=
  match (s.alpine t).pendingIndex with
  | none => []
  | some index => index.pendingRequests

variable [DecidableEq T] [LinkWriter]

def setAlpine (s : ReliableQueues T) (t : T) (transport : AlpineTransport) : ReliableQueues T :=
  { s with alpine := Function.update s.alpine t transport }

/-- `DtcpBaseConnTransport::sendReliableData`. -/
def baseSendReliableData (s : ReliableQueues T) (t : T) (data : List UInt8) (o : SendOutcome) :
    Bool × ReliableQueues T :=
  let (status, process, _) := s.process.sendReliablePacket t data o
  (status, { s with process })

def cleanUp (s : ReliableQueues T) (t : T) : ReliableQueues T :=
  s.setAlpine t { s.alpine t with pendingIndex := none }

def checkPendingRequests (s : ReliableQueues T) (t : T) (o : SendOutcome) :
    ReliableQueues T × List (QueueEvent T) :=
  if s.pendingAck t then (s, [])
  else
    match (s.alpine t).pendingIndex with
    | none => (s, [])
    | some index =>
      let s := s.setAlpine t ⟨index.front.requestId, index.popFront⟩
      let (status, s) := s.baseSendReliableData t index.front.data o
      if status = false then (s.cleanUp t, []) else (s, [.wired t index.front])

/-- A request is numbered after it was sent, or when it is queued. -/
def sendReliableData (s : ReliableQueues T) (t : T) (data : List UInt8) (o : SendOutcome) :
    Bool × ReliableQueues T × List (QueueEvent T) :=
  if s.pendingAck t = false then
    let (status, s) := s.baseSendReliableData t data o
    if status = false then (false, s, [])
    else
      let transport := s.alpine t
      let requestId := (transport.requestId + 1) % 2 ^ 64
      let request : ReliableRequest := ⟨requestId, data⟩
      (true, s.setAlpine t { transport with requestId },
        [.wired t request, .accepted t request])
  else
    let transport := s.alpine t
    let (index, request) : RequestStateIndex × ReliableRequest :=
      match transport.pendingIndex with
      | none =>
        (RequestStateIndex.new transport.requestId data,
          ⟨(transport.requestId + 1) % 2 ^ 64, data⟩)
      | some index => (index.pushBack data, ⟨index.currRequestId, data⟩)
    (true, s.setAlpine t { transport with pendingIndex := some index }, [.accepted t request])

def acknowledgeTransfer (s : ReliableQueues T) (t : T) (requestId : Nat) (o : SendOutcome) :
    Bool × ReliableQueues T × List (QueueEvent T) :=
  if s.pendingAck t = false ∨ requestId ≠ (s.alpine t).requestId then (false, s, [])
  else
    let (_, process, _) := s.process.acknowledgeTransfer t o.now
    let (s, events) := { s with process }.checkPendingRequests t o
    (true, s, .ended t .acknowledged :: events)

/-- `handleSendReceived ()` and `handleSendFailure ()`, whose texts differ in whom they tell. The
stack always answers true. -/
def handleSendEnded (s : ReliableQueues T) (t : T) (outcome : TransferEnd)
    (before after : SendOutcome) : ReliableQueues T × List (QueueEvent T) :=
  let (s, sent) := s.checkPendingRequests t before
  let requestId := (s.alpine t).requestId
  let (s, sent') := s.checkPendingRequests t after
  (s, .ended t outcome :: sent ++ .told t requestId outcome :: sent')

def handleSendReceived (s : ReliableQueues T) (t : T) (before after : SendOutcome) :
    ReliableQueues T × List (QueueEvent T) := s.handleSendEnded t .received before after

def handleSendFailure (s : ReliableQueues T) (t : T) (before after : SendOutcome) :
    ReliableQueues T × List (QueueEvent T) := s.handleSendEnded t .failed before after

/-- The base tells its transport. -/
def notify (s : ReliableQueues T) (before after : SendOutcome) :
    List (TransportEvent T) → ReliableQueues T × List (QueueEvent T)
  | [.received t _] => s.handleSendReceived t before after
  | [.failed t _] => s.handleSendFailure t before after
  | _ => (s, [])

inductive Input (T : Type) where
  | sendReliableData (t : T) (data : List UInt8) (o : SendOutcome)
  | acknowledgeTransfer (t : T) (requestId : Nat) (o : SendOutcome)
  | dataAck (t : T) (now : Nat) (before after : SendOutcome)
  | setRecvSequenceNum (t : T) (currSequenceNum : Nat)
  | setPeerLocation (t : T) (ipAddress port : Nat)
  | retry (now : Nat) (entry : RetryEntry) (draw : ℚ) (before after : SendOutcome)
  | muxSend (data : List UInt8) (now ipAddress port : Nat) (draw : ℚ)
  | muxComplete (now id : Nat)

def machine : Machine (ReliableQueues T) (Input T) (QueueEvent T) where
  step s
    | .sendReliableData t data o => (s.sendReliableData t data o).2
    | .acknowledgeTransfer t requestId o => (s.acknowledgeTransfer t requestId o).2
    | .dataAck t now before after =>
      let (_, process, events) := s.process.handleConnDataAck t now
      { s with process }.notify before after events
    | .setRecvSequenceNum t currSequenceNum =>
      ({ s with process := s.process.setRecvSequenceNum t currSequenceNum }, [])
    | .setPeerLocation t ipAddress port =>
      ({ s with process := s.process.setPeerLocation t ipAddress port }, [])
    | .retry now entry draw before after =>
      let (process, events) := s.process.retry now entry draw
      { s with process }.notify before after events
    | .muxSend data now ipAddress port draw =>
      ({ s with process := s.process.muxSend data now ipAddress port draw }, [])
    | .muxComplete now id => ({ s with process := s.process.muxComplete now id }, [])

/-! ## The property -/

def acceptedOf (t : T) : QueueEvent T → Option ReliableRequest
  | .accepted t' request => if t' = t then some request else none
  | _ => none

def wiredOf (t : T) : QueueEvent T → Option ReliableRequest
  | .wired t' request => if t' = t then some request else none
  | _ => none

def endedOf (t : T) : QueueEvent T → Option TransferEnd
  | .ended t' outcome => if t' = t then some outcome else none
  | _ => none

def toldOf (t : T) : QueueEvent T → Option (Nat × TransferEnd)
  | .told t' requestId outcome => if t' = t then some (requestId, outcome) else none
  | _ => none

/-- The requests accepted. -/
def accepted (t : T) (h : List (QueueEvent T)) : List ReliableRequest := h.filterMap (acceptedOf t)

/-- The requests that went out. -/
def wired (t : T) (h : List (QueueEvent T)) : List ReliableRequest := h.filterMap (wiredOf t)

/-- How the first of them ended. -/
def ended (t : T) (h : List (QueueEvent T)) : List TransferEnd := h.filterMap (endedOf t)

/-- What the stack was told. -/
def told (t : T) (h : List (QueueEvent T)) : List (Nat × TransferEnd) := h.filterMap (toldOf t)

/-- After the events `h`: the requests accepted are those that went out and those that wait, in this
order; their numbers differ; all that went out are done, but for one if one is outstanding; for each
that is done the stack was told its number and its end; and none waits while none is outstanding. -/
structure Sound (t : T) (h : List (QueueEvent T)) (s : ReliableQueues T) : Prop where
  order : accepted t h = wired t h ++ s.pendingRequests t
  distinct : ((accepted t h).map (·.requestId)).Nodup
  single : (wired t h).length = (ended t h).length + (s.pendingAck t).toNat
  told : told t h = ((wired t h).map (·.requestId)).zip (ended t h)
  busy : s.pendingRequests t ≠ [] → s.pendingAck t = true

instance (t : T) (h : List (QueueEvent T)) (s : ReliableQueues T) : Decidable (Sound t h s) :=
  decidable_of_iff
    (accepted t h = wired t h ++ s.pendingRequests t ∧ ((accepted t h).map (·.requestId)).Nodup ∧
      (wired t h).length = (ended t h).length + (s.pendingAck t).toNat ∧
      ReliableQueues.told t h = ((wired t h).map (·.requestId)).zip (ended t h) ∧
      (s.pendingRequests t ≠ [] → s.pendingAck t = true))
    ⟨fun ⟨h1, h2, h3, h4, h5⟩ => ⟨h1, h2, h3, h4, h5⟩,
      fun ⟨h1, h2, h3, h4, h5⟩ => ⟨h1, h2, h3, h4, h5⟩⟩

/-- The step ends no request of `t` while another one waits, is not the user's acknowledgement of
the request outstanding, and accepts a request only while a number is free. -/
def StepOk (t : T) (h : List (QueueEvent T)) (s : ReliableQueues T) : Input T → Prop
  | .sendReliableData t' data o =>
    t' = t → (s.pendingAck t = true ∨ o.sent (s.process.nextPacket t data) = true) →
      (accepted t h).length < 2 ^ 64
  | .acknowledgeTransfer t' requestId _ =>
    t' = t → ¬ (s.pendingAck t = true ∧ requestId = (s.alpine t).requestId)
  | .dataAck t' _ _ _ => t' = t → s.pendingAck t = true →
    (s.process.ackMap.recordIndex.find (s.process.transports t).requestId).isSome →
    s.pendingRequests t = []
  | .retry _ entry _ _ _ => ∀ record, AlpineNode.GivesUp s.process.ackMap entry record →
    record.requestor = some t → s.pendingRequests t = []
  | _ => True

end ReliableQueues

end Alpine
