import Alpine.Dtcp.ConnTransport

/-!
# Reliable transfer between two transports

Processes whose transports are connected in pairs, and a network that may deliver any packet ever
sent, any number of times and in any order, or never. A retransmission is the same packet again, so
its copies are all there is to it. A peer may be another program, so any packet may be brought into
the network at any time (`inject`).

The packets that arrive at a process are handled by a pool of workers, each of which takes the next
one that was received. `handleConnReliableDataPacket` and `handleConnDataAckPacket` hold no lock on
the transport, so a worker does what it does to the transport one access at a time (`Handling`), and
other workers and the senders of acknowledgements go on in between.

Requests are numbered as they are accepted; the number of its request goes along with a packet and
with the acknowledgement of it, for the theorems only. What a packet really carries is its sequence
number, of which 32 bits reach the wire, and an acknowledgement carries nothing but the ids of the
connection.
-/

namespace Alpine

open Lib

/-- A transport of a process. -/
abbrev Endpoint (N T : Type) := N × T

/-- Transports connected in pairs. -/
structure Connections (N T : Type) where
  peer : Endpoint N T → Endpoint N T
  peer_peer : ∀ e, peer (peer e) = e

/-- A `connReliableData` packet, with the transport that its peer id locates. -/
structure ReliableData (N T : Type) where
  dest : Endpoint N T
  request : Nat
  sequenceNum : Nat
  payload : List UInt8
  deriving DecidableEq, Repr

inductive LinkPacket (N T : Type) where
  | reliableData (packet : ReliableData N T)
  | dataAck (dest : Endpoint N T) (request : Nat)
  deriving DecidableEq, Repr

/-- What `handleConnReliableDataPacket` does next with the packet, once the transport is located. -/
inductive DataStage where
  | compare
  /-- The number is the one remembered. -/
  | repeated
  /-- It is another. -/
  | store
  | acknowledge
  | handOver
  deriving DecidableEq, Repr

/-- The packet is on its way to the application. -/
def DataStage.taken : DataStage → Bool
  | store | acknowledge | handOver => true
  | compare | repeated => false

/-- What `handleConnDataAckPacket` does next, once the transport is located. -/
inductive AckStage where
  | checkPending
  | readRequestId
  | complete (requestId : Nat)
  | tell (requestId : Nat)
  deriving DecidableEq, Repr

/-- Where a worker is. -/
inductive Handling (N T : Type) where
  | data (stage : DataStage) (packet : ReliableData N T)
  | ack (stage : AckStage) (e : Endpoint N T) (ackOf : Nat)
  deriving DecidableEq, Repr

structure Link (N T W : Type) where
  processes : N → Process T
  network : List (LinkPacket N T)
  workers : W → Option (Handling N T)
  nextRequest : Nat
  /-- The last request of each transport that was accepted. -/
  outstanding : Endpoint N T → Nat

inductive LinkEvent (N T : Type) where
  | accepted (e : Endpoint N T) (request : Nat) (data : List UInt8)
  /-- The packet was taken for a repetition. -/
  | dropped (packet : ReliableData N T)
  /-- Its payload was handed to the transport. -/
  | handed (packet : ReliableData N T)
  /-- The transport was told that `request` was received, when an acknowledgement of `ackOf`
  arrived. -/
  | completed (e : Endpoint N T) (request ackOf : Nat)
  | failed (e : Endpoint N T) (id : Nat)
  deriving DecidableEq, Repr

namespace Link

variable {N T W : Type}

def new (configured : Option Int) : Link N T W :=
  ⟨fun _ => Process.new configured, [], fun _ => none, 0, fun _ => 0⟩

def transport (s : Link N T W) (e : Endpoint N T) : ConnTransport := (s.processes e.1).transports e.2

inductive Input (N T W : Type) where
  | sendReliablePacket (e : Endpoint N T) (data : List UInt8) (o : SendOutcome)
  | acknowledgeTransfer (e : Endpoint N T) (now : Nat)
  | setPeerLocation (e : Endpoint N T) (ipAddress port : Nat)
  | retry (n : N) (now : Nat) (entry : RetryEntry) (draw : ℚ)
  | inject (packet : LinkPacket N T)
  /-- A worker that has nothing to do takes a copy of the packet at this place of the network. -/
  | arrive (w : W) (place : Nat)
  /-- The worker goes on. `o` is what a packet meets that it sends. -/
  | proceed (w : W) (now : Nat) (o : SendOutcome)

/-! ## Processes and workers -/

def begin : LinkPacket N T → Handling N T
  | .reliableData packet => .data .compare packet
  | .dataAck e request => .ack .checkPending e request

def setWorker [DecidableEq W] (s : Link N T W) (w : W) (handling : Option (Handling N T)) :
    Link N T W :=
  { s with workers := Function.update s.workers w handling }

variable [DecidableEq N]

def setProcess (s : Link N T W) (n : N) (p : Process T) : Link N T W :=
  { s with processes := Function.update s.processes n p }

@[simp] theorem setProcess_self (s : Link N T W) (n : N) (p : Process T) :
    (s.setProcess n p).processes n = p := Function.update_self _ _ _

theorem setProcess_other (s : Link N T W) {n n' : N} (hne : n' ≠ n) (p : Process T) :
    (s.setProcess n p).processes n' = s.processes n' := Function.update_of_ne hne _ _

theorem setProcess_received {s : Link N T W} {n : N} {p : Process T}
    (hp : ∀ t, (p.transports t).recvSequenceNum =
      ((s.processes n).transports t).recvSequenceNum) (e : Endpoint N T) :
    ((s.setProcess n p).transport e).recvSequenceNum = (s.transport e).recvSequenceNum := by
  unfold transport
  by_cases hn : e.1 = n
  · subst hn
    rw [setProcess_self]
    exact hp e.2
  · rw [setProcess_other _ hn]

theorem setProcess_counter {s : Link N T W} {n : N} {p : Process T}
    (hp : (s.processes n).currSequenceNum ≤ p.currSequenceNum) (n' : N) :
    (s.processes n').currSequenceNum ≤ ((s.setProcess n p).processes n').currSequenceNum := by
  by_cases hn : n' = n
  · subst hn
    rw [setProcess_self]
    exact hp
  · rw [setProcess_other _ hn]

section AnyWriter

variable [DecidableEq T] [LinkWriter]

/-- The application of `e` sends `data`. -/
def send (conns : Connections N T) (s : Link N T W) (e : Endpoint N T) (data : List UInt8)
    (o : SendOutcome) : Link N T W × List (LinkEvent N T) :=
  let sequenceNum := ((s.processes e.1).nextPacket e.2 data).sequenceNum
  let (status, p, _) := (s.processes e.1).sendReliablePacket e.2 data o
  let s := s.setProcess e.1 p
  if status = false then (s, [])
  else
    let packet := ⟨conns.peer e, s.nextRequest, sequenceNum % 2 ^ 32, data⟩
    ({ s with
        network := s.network ++ [.reliableData packet]
        nextRequest := s.nextRequest + 1
        outstanding := Function.update s.outstanding e s.nextRequest },
      [.accepted e s.nextRequest data])

/-- `sendDataAck`: the acknowledgement is in the send queue when it returns. -/
def sendDataAck (conns : Connections N T) (s : Link N T W) (packet : ReliableData N T)
    (o : SendOutcome) : Link N T W :=
  if o.sent (s.transport packet.dest).dataAckPacket then
    { s with network := s.network ++ [.dataAck (conns.peer packet.dest) packet.request] }
  else s

variable [DecidableEq W]

/-- The next access of a worker that handles a reliable packet. -/
def handleData (conns : Connections N T) (s : Link N T W) (w : W) (packet : ReliableData N T)
    (o : SendOutcome) : DataStage → Link N T W × List (LinkEvent N T)
  | .compare =>
    if (s.processes packet.dest.1).isRepeat packet.dest.2 packet.sequenceNum then
      (s.setWorker w (some (.data .repeated packet)), [.dropped packet])
    else (s.setWorker w (some (.data .store packet)), [])
  | .repeated => ((s.sendDataAck conns packet o).setWorker w none, [])
  | .store =>
    let p := (s.processes packet.dest.1).setRecvSequenceNum packet.dest.2 packet.sequenceNum
    ((s.setProcess packet.dest.1 p).setWorker w (some (.data .acknowledge packet)), [])
  | .acknowledge =>
    ((s.sendDataAck conns packet o).setWorker w (some (.data .handOver packet)), [])
  | .handOver => (s.setWorker w none, [.handed packet])

/-- The next access of a worker that handles an acknowledgement. -/
def handleAck (s : Link N T W) (w : W) (e : Endpoint N T) (ackOf now : Nat) :
    AckStage → Link N T W × List (LinkEvent N T)
  | .checkPending =>
    if (s.transport e).pendingAck = false then (s.setWorker w none, [])
    else (s.setWorker w (some (.ack .readRequestId e ackOf)), [])
  | .readRequestId =>
    (s.setWorker w (some (.ack (.complete (s.transport e).requestId) e ackOf)), [])
  | .complete requestId =>
    let p := s.processes e.1
    let (status, ackMap, _) := p.ackMap.remove now requestId
    ((s.setProcess e.1 { p with ackMap }).setWorker w
      (if status then some (.ack (.tell requestId) e ackOf) else none), [])
  | .tell requestId =>
    let (status, transport) := (s.transport e).handleSendReceived requestId
    ((s.setProcess e.1 ((s.processes e.1).setTransport e.2 transport)).setWorker w none,
      if status then [.completed e (s.outstanding e) ackOf] else [])

def failures (n : N) : List (TransportEvent T) → List (LinkEvent N T)
  | [.failed t id] => [.failed (n, t) id]
  | _ => []

def machine (conns : Connections N T) : Machine (Link N T W) (Input N T W) (LinkEvent N T) where
  step s
    | .sendReliablePacket e data o => s.send conns e data o
    | .acknowledgeTransfer e now =>
      (s.setProcess e.1 ((s.processes e.1).acknowledgeTransfer e.2 now).2.1, [])
    | .setPeerLocation e ipAddress port =>
      (s.setProcess e.1 ((s.processes e.1).setPeerLocation e.2 ipAddress port), [])
    | .retry n now entry draw =>
      let (p, events) := (s.processes n).retry now entry draw
      (s.setProcess n p, failures n events)
    | .inject packet => ({ s with network := s.network ++ [packet] }, [])
    | .arrive w place =>
      match s.workers w, s.network[place]? with
      | none, some packet => (s.setWorker w (some (begin packet)), [])
      | _, _ => (s, [])
    | .proceed w now o =>
      match s.workers w with
      | none => (s, [])
      | some (.data stage packet) => s.handleData conns w packet o stage
      | some (.ack stage e ackOf) => s.handleAck w e ackOf now stage

end AnyWriter

end Link

end Alpine
