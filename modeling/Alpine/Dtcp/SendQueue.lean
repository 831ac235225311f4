import Alpine.Dtcp.Broadcast
import Alpine.Dtcp.BroadcastStates
import Alpine.Dtcp.ThreadTable

/-!
# The send queue

`DtcpSendQueue` has the packets that a UDP transport has accepted for sending, in temporary buffers,
and sends one at a time: first those of the priority list, then those of the normal list, then those
of the broadcasts. `UdpSender` puts the queue together with the states of the broadcasts, the
buffers and what is in them. A broadcast is accepted when it is added to the states.
-/

namespace Alpine

open Lib

/-- `t_UnicastRequest`; a buffer is its place in the pool. -/
structure UnicastRequest where
  dataBuffer : Nat
  ipAddress : Nat
  port : Nat
  deriving DecidableEq, Repr

structure SendQueue where
  transferRate : Nat
  nextSendTime : Timeval
  priorityRequestList : List UnicastRequest
  normalRequestList : List UnicastRequest
  /-- `broadcastStates_` is set. -/
  located : Bool
  deriving DecidableEq, Repr

namespace SendQueue

/-- The constructor. -/
def new (transferRate : Nat) : SendQueue := ⟨transferRate, ⟨0, 0⟩, [], [], false⟩

variable (q : SendQueue)

/-- False, too, when it has just located them. -/
def locateBroadcastStates : Bool × SendQueue :=
  if q.located = false then (false, { q with located := true }) else (true, q)

def addRequest (priority : Bool) (ipAddress port dataBuffer : Nat) : Bool × SendQueue :=
  match q.locateBroadcastStates with
  | (false, q) => (false, q)
  | (true, q) =>
    let newRequest := ⟨dataBuffer, ipAddress, port⟩
    if priority then
      (true, { q with priorityRequestList := q.priorityRequestList ++ [newRequest] })
    else (true, { q with normalRequestList := q.normalRequestList ++ [newRequest] })

def setTransferRate (rate : Nat) : SendQueue :=
  { q with transferRate := if rate > 1000000 then 0 else rate }

def queueIdle (states : BroadcastStates) : Bool × SendQueue :=
  match q.locateBroadcastStates with
  | (false, q) => (false, q)
  | (true, q) =>
    (q.priorityRequestList.length = 0 && q.normalRequestList.length = 0 &&
      states.requestsPending = 0, q)

def requestsPending (states : BroadcastStates) : Option Nat × SendQueue :=
  match q.locateBroadcastStates with
  | (false, q) => (none, q)
  | (true, q) => (some (q.priorityRequestList.length + q.normalRequestList.length +
      states.requestsPending), q)

/-- The time that remains until `endTime`, if any. -/
def waitTimeRemaining (endTime currTime : Timeval) : Option Timeval :=
  if currTime.sec < endTime.sec ∨ currTime.sec = endTime.sec ∧ currTime.usec < endTime.usec then
    if endTime.usec < currTime.usec then
      some ⟨endTime.sec - currTime.sec - 1, endTime.usec + 1000000 - currTime.usec⟩
    else some ⟨endTime.sec - currTime.sec, endTime.usec - currTime.usec⟩
  else none

/-- The delay after a packet of that size, or what it was before if the size is out of range. -/
def calculateDelay (dataSize : Nat) (delay : Timeval) : Timeval :=
  if dataSize > 400000 then delay
  else if q.transferRate = 0 then ⟨0, 0⟩
  else
    let usDelay :=
      if dataSize < 4294 then dataSize * 1000000 / q.transferRate
      else dataSize * 10000 / q.transferRate * 100
    ⟨usDelay / 1000000, usDelay % 1000000⟩

/-- `nextSendTime_`, `currentDelay` after `currTime`. -/
def delayNext (currTime currentDelay : Timeval) : SendQueue :=
  let sec := currTime.sec + currentDelay.sec
  let usec := currTime.usec + currentDelay.usec
  { q with nextSendTime :=
      if usec ≥ 1000000 then ⟨sec + 1, usec - 1000000⟩ else ⟨sec, usec⟩ }

/-- The unicast request that is next, and whether it has priority. -/
def popRequest : Option (Bool × UnicastRequest) × SendQueue :=
  match q.priorityRequestList, q.normalRequestList with
  | request :: rest, _ => (some (true, request), { q with priorityRequestList := rest })
  | [], request :: rest => (some (false, request), { q with normalRequestList := rest })
  | [], [] => (none, q)

end SendQueue

/-- The buffers that are not free are these, each once. -/
def ThreadTable.Held (t : ThreadTable) (buffers : List Nat) : Prop :=
  (buffers ++ t.freeBufferIndices).Perm (List.range t.buffers)

/-! ## Sending -/

structure Datagram where
  ipAddress : Nat
  port : Nat
  data : List UInt8
  deriving DecidableEq, Repr

/-- The class of a request; a broadcast is sent to one destination at a time. -/
inductive RequestClass where
  | priority
  | normal
  | broadcast (requestId destination : Nat)
  deriving DecidableEq, Repr

/-- What the outside can see. -/
inductive SendEvent where
  | accepted (priority : Bool) (datagram : Datagram)
  | acceptedBroadcast (requestId : Nat) (destinations : List Nat)
  /-- `sendUdpPacket`. -/
  | sent (requestClass : RequestClass) (datagram : Datagram)
  /-- `currRequest` is null, and used. -/
  | nullRequest
  deriving DecidableEq, Repr

/-- What the destination and the packet of a broadcast answer. -/
structure BroadcastAnswers where
  isConnPacket : Bool
  myId : Option Nat
  peerLocation : Option (Nat × Nat)
  /-- What `writeData` writes. -/
  written : Option (List UInt8)

/-- The parts of a UDP transport that send. -/
structure UdpSender where
  queue : SendQueue
  states : BroadcastStates
  /-- The lists of destinations. -/
  lists : Heap (List Nat)
  table : ThreadTable
  /-- The data in the buffers. -/
  contents : Nat → List UInt8

namespace UdpSender

def new (transferRate maxThreads maxRecords maxBuffers : Nat) (configured : Option Nat) (now : Nat) :
    UdpSender where
  queue := .new transferRate
  states := .new
  lists := .empty
  table := .new maxThreads maxRecords maxBuffers configured now
  contents := fun _ => []

variable (s : UdpSender)

def getTempDataBuffer : Option Nat × UdpSender :=
  let (buffer, table) := s.table.allocateBuffer
  (buffer, { s with table })

def releaseTempDataBuffer (buffer : Nat) : UdpSender :=
  { s with table := (s.table.releaseBuffer (some buffer)).2 }

def writeBuffer (buffer : Nat) (data : List UInt8) : UdpSender :=
  { s with contents := Function.update s.contents buffer data }

/-- The packet of a request. -/
def datagramOf (request : UnicastRequest) : Datagram :=
  ⟨request.ipAddress, request.port, s.contents request.dataBuffer⟩

/-- `DtcpBaseUdpTransport::sendPacket` and the functions like it; `data` is what the packet
writes. -/
def sendPacket (priority : Bool) (ipAddress port : Nat) (data : Option (List UInt8)) :
    Bool × UdpSender × List SendEvent :=
  match s.getTempDataBuffer, data with
  | (none, s), _ => (false, s, [])
  | (some buffer, s), none => (false, s.releaseTempDataBuffer buffer, [])
  | (some buffer, s), some data =>
    let s := s.writeBuffer buffer data
    match s.queue.addRequest priority ipAddress port buffer with
    | (false, queue) => (false, { s with queue }.releaseTempDataBuffer buffer, [])
    | (true, queue) => (true, { s with queue }, [.accepted priority ⟨ipAddress, port, data⟩])

/-- A list of destinations is handed to the states of the transport. -/
def addBroadcast (requestId packet : Nat) (destinations : List Nat) :
    Bool × UdpSender × List SendEvent :=
  let lists := s.lists.alloc destinations
  match s.states.addState lists requestId packet s.lists.next with
  | (false, _) => (false, { s with lists }, [])
  | (true, states) =>
    (true, { s with lists, states }, [.acceptedBroadcast requestId destinations])

/-- The `request` that it is to hand back stays as it is. -/
def getBroadcastRequest (answers : BroadcastAnswers) : Bool × UdpSender :=
  if s.states.requestsPending = 0 then (false, s)
  else
    match s.states.popCurrent s.lists with
    | none => (false, s)
    | some current =>
      let s := { s with lists := current.lists, states := current.states.countDown }
      if answers.isConnPacket = false then (false, s)
      else
        match answers.myId, answers.peerLocation with
        | some _, some _ =>
          match s.getTempDataBuffer with
          | (none, s) => (false, s)
          | (some buffer, s) =>
            match answers.written with
            | none => (false, s.releaseTempDataBuffer buffer)
            | some data => (true, s.writeBuffer buffer data)
        | _, _ => (false, s)

/-- `currTime` is the time after the packet was sent, and `status` what `sendUdpPacket` returns. -/
def processEvents (now currTime currentDelay : Timeval) (status : Bool) (answers : BroadcastAnswers) :
    Bool × Timeval × UdpSender × List SendEvent :=
  match s.queue.locateBroadcastStates with
  | (false, queue) => (false, currentDelay, { s with queue }, [])
  | (true, queue) =>
    let s := { s with queue }
    match SendQueue.waitTimeRemaining s.queue.nextSendTime now with
    | some remaining => (true, remaining, s, [])
    | none =>
      match s.queue.popRequest with
      | (some (priority, currRequest), queue) =>
        let datagram := s.datagramOf currRequest
        let s := { s with queue }.releaseTempDataBuffer currRequest.dataBuffer
        let currentDelay := s.queue.calculateDelay datagram.data.length currentDelay
        (status, currentDelay, { s with queue := s.queue.delayNext currTime currentDelay },
          [.sent (if priority then .priority else .normal) datagram])
      | (none, _) =>
        if s.states.requestsPending > 0 then
          -- false in either case
          (false, currentDelay, (s.getBroadcastRequest answers).2, [])
        else (false, currentDelay, s, [.nullRequest])

inductive Input where
  | sendPacket (priority : Bool) (ipAddress port : Nat) (data : Option (List UInt8))
  | addBroadcast (requestId packet : Nat) (destinations : List Nat)
  | processEvents (now currTime currentDelay : Timeval) (status : Bool) (answers : BroadcastAnswers)
  | requestsPending
  | queueIdle
  | setTransferRate (rate : Nat)

def step (s : UdpSender) : Input → UdpSender × List SendEvent
  | .sendPacket priority ipAddress port data => (s.sendPacket priority ipAddress port data).2
  | .addBroadcast requestId packet destinations => (s.addBroadcast requestId packet destinations).2
  | .processEvents now currTime currentDelay status answers =>
    (s.processEvents now currTime currentDelay status answers).2.2
  | .requestsPending => ({ s with queue := (s.queue.requestsPending s.states).2 }, [])
  | .queueIdle => ({ s with queue := (s.queue.queueIdle s.states).2 }, [])
  | .setTransferRate rate => ({ s with queue := s.queue.setTransferRate rate }, [])

def machine : Machine UdpSender Input SendEvent where
  step := step

/-! ## The property -/

/-- The packets accepted in that class. -/
def accepted (priority : Bool) (history : List SendEvent) : List Datagram :=
  history.filterMap fun
    | .accepted p datagram => if p = priority then some datagram else none
    | _ => none

def sent (requestClass : RequestClass) (history : List SendEvent) : List Datagram :=
  history.filterMap fun
    | .sent c datagram => if c = requestClass then some datagram else none
    | _ => none

/-- The destinations that a broadcast was accepted for. -/
def acceptedFor (requestId : Nat) (history : List SendEvent) : List Nat :=
  history.flatMap fun
    | .acceptedBroadcast r destinations => if r = requestId then destinations else []
    | _ => []

/-- Those it was sent to. -/
def sentTo (requestId : Nat) (history : List SendEvent) : List Nat :=
  history.filterMap fun
    | .sent (.broadcast r destination) _ => if r = requestId then some destination else none
    | _ => none

/-- The buffers of the requests that are queued. -/
def buffersQueued (s : UdpSender) : List Nat :=
  (s.queue.priorityRequestList ++ s.queue.normalRequestList).map (·.dataBuffer)

/-- What was accepted in a class is what was sent in it, in that order, and what is queued. Each
broadcast waits for the destinations it was not sent to. The buffers that are held are those of the
requests that are queued. -/
structure Sound (history : List SendEvent) (s : UdpSender) : Prop where
  priority : accepted true history =
    sent .priority history ++ s.queue.priorityRequestList.map s.datagramOf
  normal : accepted false history =
    sent .normal history ++ s.queue.normalRequestList.map s.datagramOf
  broadcast : ∀ requestId, acceptedFor requestId history =
    sentTo requestId history ++ s.states.waiting s.lists requestId
  buffers : s.table.Held s.buffersQueued

def Idle (s : UdpSender) : Prop :=
  s.queue.priorityRequestList = [] ∧ s.queue.normalRequestList = [] ∧ s.states.requestsPending = 0

/-- The step keeps that, sends no normal packet while one with priority is queued, and does nothing
with an idle queue. -/
def StepSound (history : List SendEvent) (s : UdpSender) (input : Input) : Prop :=
  Sound (history ++ (s.step input).2) (s.step input).1 ∧
    (∀ datagram, .sent .normal datagram ∈ (s.step input).2 → s.queue.priorityRequestList = []) ∧
    (∀ now currTime currentDelay status answers,
      input = .processEvents now currTime currentDelay status answers → s.Idle → (s.step input).2 = [])

/-- `processEvents` does not get to the broadcasts: it has yet to locate them, it has to wait, or
there is another packet. -/
def StepOk (s : UdpSender) : Input → Prop
  | .processEvents now _ _ _ _ =>
    s.queue.located = true → SendQueue.waitTimeRemaining s.queue.nextSendTime now = none →
      s.queue.priorityRequestList ≠ [] ∨ s.queue.normalRequestList ≠ []
  | _ => True

end UdpSender

end Alpine
