import Alpine.Dtcp.Broadcast
import Alpine.Dtcp.BroadcastStates

/-!
# The manager and its broadcasts

Callers make requests and cancel them, and the UDP transports take out one destination after the
other and report it. A call of `sendPacket` reads the counter of the ids, writes it back, and hands
the destinations to the states of their UDP transports, each in a section of its own. A transport
holds the lock of its states from the time it takes a destination out until it has reported it. The
lists of destinations are in memory that `sendPacket` frees; a list that was freed keeps its
contents until its memory is used for something else.
-/

namespace Alpine

open Lib

/-- The arguments of a call of `sendPacket`, once they are checked. -/
structure SendCall where
  requestor : Nat
  packet : Nat
  destinations : BroadcastSet
  nonempty : 0 < destinations.size

/-- Between two sections of the call. -/
inductive SendPosition where
  /-- It has read the counter. -/
  | counting (requestId : Nat) (call : SendCall)
  | delegating (requestId : Nat) (call : SendCall)

/-- `t_BroadcastRequest`, with the transports whose states it is in. -/
structure DelegatedRequest extends BroadcastRequest where
  memberStatesList : List Nat
  deriving DecidableEq, Repr

/-- The destinations of a request, by UDP transport. -/
abbrev UdpTransportIndex := List (Nat × List Nat)

namespace UdpTransportIndex

def addTransport (udpTransport transport : Nat) : UdpTransportIndex → UdpTransportIndex
  | [] => [(udpTransport, [transport])]
  | item :: rest =>
    if item.1 = udpTransport then (item.1, item.2 ++ [transport]) :: rest
    else item :: addTransport udpTransport transport rest

/-- `populateTransportIndex`: the loop over the set. A gap in it is a null pointer. -/
def populate (getParent : Nat → Option Nat) (index : UdpTransportIndex) :
    List (Option Nat) → Except (Option Nat) UdpTransportIndex
  | [] => .ok index
  | none :: _ => .error none
  | some transport :: rest =>
    match getParent transport with
    | none => .error (some transport)
    | some udpTransport => populate getParent (index.addTransport udpTransport transport) rest

/-- The destinations, each with its UDP transport. -/
def pairs (index : UdpTransportIndex) : List (Nat × Nat) :=
  index.flatMap fun item => item.2.map (item.1, ·)

end UdpTransportIndex

inductive DeliveryEvent where
  | accepted (requestId : Nat) (index : UdpTransportIndex)
  /-- `getCurrentRequest` hands a destination out. -/
  | handedOut (requestId udpTransport destination : Nat)
  | completed (requestId : Nat)
  | cancelled (requestId : Nat)
  /-- A null pointer or the front of an empty list is used. -/
  | undefined
  deriving DecidableEq, Repr

structure BroadcastDelivery where
  currRequestId : Nat
  requestIdIndex : UMap Nat DelegatedRequest
  /-- The states that are not made yet are new. -/
  broadcastStatesIndex : Nat → BroadcastStates
  lists : Heap (List Nat)
  freed : List Nat
  /-- The request and the destination that a transport has taken out and not reported. -/
  reporting : UMap Nat (Nat × Nat)
  callers : UMap Nat SendPosition

namespace BroadcastDelivery

def new : BroadcastDelivery := ⟨1, ∅, fun _ => .new, .empty, [], ∅, ∅⟩

variable (s : BroadcastDelivery)

def setStates (udpTransport : Nat) (states : BroadcastStates) : BroadcastDelivery :=
  { s with broadcastStatesIndex := Function.update s.broadcastStatesIndex udpTransport states }

def leave (caller : Nat) : BroadcastDelivery := { s with callers := s.callers.erase caller }

/-- Hand the lists to the states, until one refuses. With it come the addresses of the lists and the
transports that took one. -/
def delegate (s : BroadcastDelivery) (requestId packet : Nat) :
    UdpTransportIndex → Bool × List Nat × List Nat × BroadcastDelivery
  | [] => (true, [], [], s)
  | (udpTransport, destinations) :: rest =>
    let lists := s.lists.alloc destinations
    match (s.broadcastStatesIndex udpTransport).addState lists requestId packet s.lists.next with
    | (false, _) => (false, [s.lists.next], [], { s with lists })
    | (true, states) =>
      let (status, addresses, members, s') :=
        ({ s with lists }.setStates udpTransport states).delegate requestId packet rest
      (status, s.lists.next :: addresses, udpTransport :: members, s')

def removeStates (s : BroadcastDelivery) (requestId : Nat) : List Nat → BroadcastDelivery
  | [] => s
  | udpTransport :: rest =>
    (s.setStates udpTransport
      ((s.broadcastStatesIndex udpTransport).removeState s.lists requestId).2).removeStates
        requestId rest

/-- A transport has the lock of its states. -/
def busy (udpTransports : List Nat) : Bool :=
  udpTransports.any fun udpTransport => (s.reporting.find udpTransport).isSome

/-- The last section of `sendPacket`. -/
def register (requestId : Nat) (call : SendCall) (index : UdpTransportIndex) :
    BroadcastDelivery × List DeliveryEvent :=
  match s.delegate requestId call.packet index with
  | (status, addresses, memberStatesList, s) =>
    -- the transport lists are cleaned up, and the states refer to them
    let s := { s with freed := addresses ++ s.freed }
    if status = false then (s.removeStates requestId memberStatesList, [])
    else
      ({ s with requestIdIndex := s.requestIdIndex.emplace requestId {
          requestId
          requestor := call.requestor
          totalPackets := call.destinations.size
          packetsSent := 0
          memberStatesList } }, [.accepted requestId index])

/-- The next section of a call of `sendPacket`. -/
def proceedSend (caller : Nat) (getParent : Nat → Option Nat) :
    SendPosition → BroadcastDelivery × List DeliveryEvent
  | .counting requestId call =>
    ({ s with
      currRequestId := (requestId + 1) % 2 ^ 64
      callers := s.callers.assign caller (.delegating requestId call) }, [])
  | .delegating requestId call =>
    match UdpTransportIndex.populate getParent [] call.destinations.transportArray with
    | .error none => (s.leave caller, [.undefined])
    | .error (some _) => (s.leave caller, [])
    | .ok index =>
      if s.busy (index.map Prod.fst) then (s, [])
      else (s.leave caller).register requestId call index

def cancel (requestId : Nat) : BroadcastDelivery × List DeliveryEvent :=
  match s.requestIdIndex.find requestId with
  | none => (s, [])
  | some request =>
    if s.busy request.memberStatesList then (s, [])
    else
      let s := s.removeStates requestId request.memberStatesList
      ({ s with requestIdIndex := s.requestIdIndex.erase requestId }, [.cancelled requestId])

/-- `getCurrentRequest`, up to its report. -/
def getCurrentRequest (udpTransport : Nat) : BroadcastDelivery × List DeliveryEvent :=
  if (s.reporting.find udpTransport).isSome then (s, [])
  else
    match (s.broadcastStatesIndex udpTransport).popCurrent s.lists with
    | none => (s, [])
    | some current =>
      match current.destination with
      | none => (s, [.undefined])
      | some destination =>
        ({ s with
            lists := current.lists
            reporting :=
              s.reporting.assign udpTransport (current.request.requestId, destination) }.setStates
          udpTransport current.states, [])

def packetSent (requestId : Nat) : BroadcastDelivery × List DeliveryEvent :=
  match s.requestIdIndex.find requestId with
  | none => (s, [])
  | some request =>
    let packetsSent := request.packetsSent + 1
    if packetsSent = request.totalPackets then
      ({ s with requestIdIndex := s.requestIdIndex.erase requestId }, [.completed requestId])
    else
      ({ s with requestIdIndex := s.requestIdIndex.assign requestId { request with packetsSent } }, [])

/-- The rest of `getCurrentRequest`. -/
def report (udpTransport requestId destination : Nat) : BroadcastDelivery × List DeliveryEvent :=
  let (s, events) := s.packetSent requestId
  ({ s with reporting := s.reporting.erase udpTransport }.setStates udpTransport
    (s.broadcastStatesIndex udpTransport).countDown,
    .handedOut requestId udpTransport destination :: events)

inductive Input where
  | sendPacket (caller requestor packet : Nat) (destinations : BroadcastSet)
  /-- The caller goes on; `getParent` is what the transports answer. -/
  | proceed (caller : Nat) (getParent : Nat → Option Nat)
  | cancel (requestId : Nat)
  | getCurrentRequest (udpTransport : Nat)
  /-- The transport goes on with the destination it has. -/
  | packetSent (udpTransport : Nat)
  /-- The memory of a list that was freed is used for something else. -/
  | overwrite (a : Nat) (destinations : List Nat)

def step (s : BroadcastDelivery) : Input → BroadcastDelivery × List DeliveryEvent
  | .sendPacket caller requestor packet destinations =>
    if (s.callers.find caller).isSome then (s, [])
    else if h : destinations.size = 0 then (s, [])
    else
      let call := ⟨requestor, packet, destinations, Nat.pos_of_ne_zero h⟩
      ({ s with callers := s.callers.assign caller (.counting s.currRequestId call) }, [])
  | .proceed caller getParent =>
    match s.callers.find caller with
    | none => (s, [])
    | some position => s.proceedSend caller getParent position
  | .cancel requestId => s.cancel requestId
  | .getCurrentRequest udpTransport => s.getCurrentRequest udpTransport
  | .packetSent udpTransport =>
    match s.reporting.find udpTransport with
    | none => (s, [])
    | some (requestId, destination) => s.report udpTransport requestId destination
  | .overwrite a destinations =>
    if a ∈ s.freed then ({ s with lists := s.lists.write a destinations }, []) else (s, [])

def machine : Machine BroadcastDelivery Input DeliveryEvent where
  step := step

/-! ## The property -/

/-- The destinations that a request was accepted for. -/
def accepted (requestId : Nat) (history : List DeliveryEvent) : List (Nat × Nat) :=
  history.flatMap fun
    | .accepted r index => if r = requestId then index.pairs else []
    | _ => []

/-- Those that were handed out. -/
def handedOut (requestId : Nat) (history : List DeliveryEvent) : List (Nat × Nat) :=
  history.filterMap fun
    | .handedOut r udpTransport destination =>
      if r = requestId then some (udpTransport, destination) else none
    | _ => none

def wasAccepted (requestId : Nat) (history : List DeliveryEvent) : Prop :=
  ∃ index, .accepted requestId index ∈ history

/-- The destination of the request that the transport has in its hand. -/
def inHand (s : BroadcastDelivery) (requestId udpTransport : Nat) : List Nat :=
  match s.reporting.find udpTransport with
  | none => []
  | some (r, destination) => if r = requestId then [destination] else []

def waiting (s : BroadcastDelivery) (requestId udpTransport : Nat) : List Nat :=
  (s.broadcastStatesIndex udpTransport).waiting s.lists requestId

/-- Each destination of a request that was not cancelled was handed out, is in the hand of its
transport, or waits there. -/
structure Accounted (history : List DeliveryEvent) (s : BroadcastDelivery) : Prop where
  once : ∀ requestId, .cancelled requestId ∉ history → ∀ udpTransport destination,
    (accepted requestId history).count (udpTransport, destination) =
      (handedOut requestId history).count (udpTransport, destination) +
        (s.inHand requestId udpTransport).count destination +
        (s.waiting requestId udpTransport).count destination
  dropped : ∀ requestId, .cancelled requestId ∈ history → ∀ udpTransport,
    s.inHand requestId udpTransport = [] ∧ s.waiting requestId udpTransport = []
  pending : ∀ udpTransport, (s.broadcastStatesIndex udpTransport).requestsPending =
    (s.broadcastStatesIndex udpTransport).numWaiting s.lists +
      (s.reporting.find udpTransport).toList.length
  sent : ∀ requestId request, s.requestIdIndex.find requestId = some request →
    request.packetsSent ≤ (accepted requestId history).length
  complete : ∀ requestId, .cancelled requestId ∉ history → wasAccepted requestId history →
    history.count (.completed requestId) =
      if (handedOut requestId history).length = (accepted requestId history).length then 1 else 0
  uncompleted : ∀ requestId, (.cancelled requestId ∈ history ∨ ¬ wasAccepted requestId history) →
    .completed requestId ∉ history

/-- The request refers to the list at that address. -/
def Refers (s : BroadcastDelivery) (a : Nat) : Prop :=
  ∃ udpTransport, ∃ request ∈ (s.broadcastStatesIndex udpTransport).requestList,
    request.remainingDestinations = a

/-- No list that was freed is referred to. -/
def ListsLive (s : BroadcastDelivery) : Prop := ∀ a ∈ s.freed, ¬ s.Refers a

def StepSound (history : List DeliveryEvent) (s : BroadcastDelivery) (input : Input) : Prop :=
  Accounted (history ++ (s.step input).2) (s.step input).1 ∧ (s.step input).1.ListsLive

/-- The step accepts no request. -/
def AcceptsNone (s : BroadcastDelivery) : Input → Prop
  | .proceed caller getParent =>
    ∀ requestId call, s.callers.find caller = some (.delegating requestId call) →
      ∀ index, UdpTransportIndex.populate getParent [] call.destinations.transportArray = .ok index →
        s.busy (index.map Prod.fst) = true
  | _ => True

/-- The memory of a list that was freed is not used again while a request refers to it, and a
request is registered under an id of its own, with as many transports in its set as the set says. -/
def StepIntact (history : List DeliveryEvent) (s : BroadcastDelivery) : Input → Prop
  | .proceed caller _ =>
    ∀ requestId call, s.callers.find caller = some (.delegating requestId call) →
      ¬ wasAccepted requestId history ∧
        call.destinations.size = call.destinations.transportArray.length
  | .overwrite a _ => ¬ s.Refers a
  | _ => True

end BroadcastDelivery

end Alpine
