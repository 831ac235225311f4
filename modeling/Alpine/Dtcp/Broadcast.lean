import Alpine.Lib.UMap
import Alpine.Lib.Run

/-!
# Broadcasts

A `Broadcast` is a handle on a request to send one packet to a set of transports; the manager hands
out the ids of the requests and keeps the requests by their id. Addresses stand for the objects that
are passed by pointer. How the destinations are spread over the UDP transports is left out, but for
whether it succeeds.
-/

namespace Alpine

open Lib

/-! ## Sets of transports -/

/-- `DtcpBroadcastSet`. -/
structure BroadcastSet where
  transportArray : List (Option Nat)
  transportIndex : UMap Nat Nat
  deriving DecidableEq

namespace BroadcastSet

/-- The loop of the constructor: an id without a transport leaves no gap. -/
def insertEach (locateTransport : Nat → Option Nat) (set : BroadcastSet) (currIndex : Nat) :
    List Nat → BroadcastSet
  | [] => set
  | currId :: transportIdList =>
    match locateTransport currId with
    | none => insertEach locateTransport set currIndex transportIdList
    | some transport =>
      insertEach locateTransport
        { transportArray := set.transportArray.set currIndex (some transport)
          transportIndex := set.transportIndex.emplace currId currIndex }
        (currIndex + 1) transportIdList

def ofIds (locateTransport : Nat → Option Nat) (transportIdList : List Nat) : BroadcastSet :=
  insertEach locateTransport ⟨List.replicate transportIdList.length none, ∅⟩ 0 transportIdList

def size (set : BroadcastSet) : Nat := set.transportIndex.keys.length

end BroadcastSet

/-! ## Handles -/

structure Timeval where
  sec : Int
  usec : Int
  deriving DecidableEq, Repr

namespace Timeval

/-- The microseconds are in their range. -/
def Normal (t : Timeval) : Prop := 0 ≤ t.usec ∧ t.usec < 1000000

def NonNegative (t : Timeval) : Prop := 0 ≤ t.sec * 1000000 + t.usec

/-- What `broadcastComplete` computes. -/
def duration (now startTime : Timeval) : Timeval :=
  if now.usec > startTime.usec then ⟨now.sec - startTime.sec, now.usec - startTime.usec⟩
  else ⟨now.sec - startTime.sec - 1, now.usec + 1000000 - startTime.usec⟩

end Timeval

/-- `DtcpBroadcast`; `destinations` is the address of its set. -/
structure Broadcast where
  active : Bool
  destinations : Nat
  requestId : Nat
  startTime : Timeval
  packetNotification : Bool
  deriving DecidableEq, Repr

namespace Broadcast

/-- The constructor. -/
def new (destinations : Nat) : Broadcast :=
  { active := false, destinations, requestId := 0, startTime := ⟨0, 0⟩, packetNotification := false }

def packetSendNotifications (b : Broadcast) (used : Bool) : Broadcast :=
  { b with packetNotification := used }

end Broadcast

/-! ## The manager -/

/-- `t_BroadcastRequest`. -/
structure BroadcastRequest where
  requestId : Nat
  requestor : Nat
  totalPackets : Nat
  packetsSent : Nat
  deriving DecidableEq, Repr

structure BroadcastMgr where
  currRequestId : Nat
  requestIdIndex : UMap Nat BroadcastRequest
  deriving DecidableEq

namespace BroadcastMgr

def new : BroadcastMgr := ⟨1, ∅⟩

variable (m : BroadcastMgr)

/-- `currRequestId_s++`. -/
def drawRequestId : Nat × BroadcastMgr :=
  (m.currRequestId, { m with currRequestId := (m.currRequestId + 1) % 2 ^ 64 })

/-- The last part of `sendPacket`. -/
def indexRequest (requestId requestor totalPackets : Nat) : BroadcastMgr :=
  { m with
    requestIdIndex :=
      m.requestIdIndex.emplace requestId { requestId, requestor, totalPackets, packetsSent := 0 } }

/-- `delegated` says whether the destinations could be handed to their UDP transports. The second
component is what the handle's request id is after the call. -/
def sendPacket (requestor : Nat) (destinations : BroadcastSet) (requestId : Nat)
    (delegated : Bool) : Bool × Nat × BroadcastMgr :=
  if destinations.size = 0 then (false, requestId, m)
  else
    let (requestId, m) := m.drawRequestId
    if delegated = false then (false, requestId, m)
    else (true, requestId, m.indexRequest requestId requestor destinations.size)

def getStatus (requestId : Nat) : Option Nat :=
  (m.requestIdIndex.find requestId).map (·.packetsSent)

def cancel (requestId : Nat) : Bool × BroadcastMgr :=
  match m.requestIdIndex.find requestId with
  | none => (false, m)
  | some _ => (true, { m with requestIdIndex := m.requestIdIndex.erase requestId })

end BroadcastMgr

/-!
## Handles and their manager under several threads

Calls of the member functions of `DtcpBroadcast` and notifications of `DtcpBroadcastMgr`, cut at the
locks they take: a function of a handle takes the handle's lock and asks the manager, which takes
its own; `packetSent` of the manager takes the manager's lock and reports to the handle, which takes
its own.

A call that has not taken its first lock yet has done nothing, so it is no part of the state. The
one that writes under a handle's lock is in the lock (`HandleLock`), and so are the calls that read
under it. A thread makes one call at a time, so two calls in the state are two threads. A step whose
lock is taken changes nothing. `sets` are the sets of destinations by address.

The counter of request ids is read and written under a lock for reading, which several calls may
have.
-/

/-- How far `sendPacket` has come after it looked at the handle. -/
inductive SendStage where
  /-- It waits for the manager's lock, to read. -/
  | readId
  /-- It has read the counter under that lock. -/
  | writeId (currRequestId : Nat)
  /-- It waits for the manager's lock, to write. -/
  | index (requestId : Nat)
  /-- The manager has the request. -/
  | start (requestId : Nat)
  deriving DecidableEq, Repr

/-- A call that has the lock of its handle for writing. -/
inductive LockedCall where
  | send (destinations : BroadcastSet) (stage : SendStage)
  | cancel
  | destroy
  deriving DecidableEq

namespace LockedCall

/-- The call is about to take the manager's lock. -/
def waitsForMgr : LockedCall → Bool
  | send _ .readId | send _ (.index _) | cancel | destroy => true
  | send _ (.writeId _) | send _ (.start _) => false

/-- The call has the manager's lock, for reading. -/
def readsMgr : LockedCall → Bool
  | send _ (.writeId _) => true
  | _ => false

end LockedCall

inductive HandleLock where
  | free
  /-- So many calls of `packetsSent` have it, and one more. -/
  | read (others : Nat)
  | write (call : LockedCall)
  deriving DecidableEq

/-- A call that has the lock waits for the manager's; all that read do. -/
def HandleLock.waitsForMgr : HandleLock → Bool
  | free => false
  | read _ => true
  | write call => call.waitsForMgr

def HandleLock.readsMgr : HandleLock → Bool
  | write call => call.readsMgr
  | _ => false

structure Handle where
  broadcast : Broadcast
  lock : HandleLock
  deriving DecidableEq

inductive BroadcastEvent where
  /-- A send got its request id. -/
  | requested (handle requestId : Nat)
  /-- `handlePacketSend`. -/
  | packetSend (handle requestId transportId : Nat)
  /-- `handleSendComplete`. -/
  | completed (handle requestId totalSent : Nat) (duration : Timeval)
  /-- `cancel` has gone through to the manager. -/
  | cancelled (handle requestId : Nat)
  | destroyed (handle : Nat)
  deriving DecidableEq, Repr

/-- `completing` is the handle and the request that a notification is about to report, with the
manager's lock. -/
structure Broadcasts where
  mgr : BroadcastMgr
  handles : UMap Nat Handle
  next : Nat
  completing : Option (Nat × Nat)

namespace Broadcasts

def new : Broadcasts := ⟨BroadcastMgr.new, ∅, 0, none⟩

abbrev Result : Type := Broadcasts × List BroadcastEvent

variable (s : Broadcasts)

/-- The manager's lock may be had for reading. -/
def mgrReadable : Bool := s.completing.isNone

/-- The manager's lock may be had for writing. -/
def mgrWritable : Bool :=
  s.completing.isNone && s.handles.entries.all fun entry => !entry.2.lock.readsMgr

def setHandle (handle : Nat) (x : Handle) : Broadcasts :=
  { s with handles := s.handles.assign handle x }

def construct (destinations : Nat) : Broadcasts :=
  { s with
    handles := s.handles.assign s.next ⟨Broadcast.new destinations, .free⟩
    next := s.next + 1 }

/-! ### Calls on a handle, with its lock -/

/-- `DtcpBroadcast::sendPacket` up to the manager's lock. The manager looks at its arguments
first. -/
def sendPacket (sets : Nat → Option BroadcastSet) (handle : Nat) (x : Handle) : Broadcasts :=
  if x.broadcast.active then s
  else
    match sets x.broadcast.destinations with
    | none => s
    | some destinations =>
      if destinations.size = 0 then s
      else s.setHandle handle { x with lock := .write (.send destinations .readId) }

/-- `cancel` up to the manager's lock. -/
def cancel (handle : Nat) (x : Handle) : Broadcasts :=
  if x.broadcast.active = false then s
  else s.setHandle handle { x with lock := .write .cancel }

/-- The destructor, which cancels first. -/
def destroy (handle : Nat) (x : Handle) : Result :=
  if x.broadcast.active = false then
    ({ s with handles := s.handles.erase handle }, [.destroyed handle])
  else (s.setHandle handle { x with lock := .write .destroy }, [])

def packetSendNotifications (handle : Nat) (x : Handle) (used : Bool) : Broadcasts :=
  s.setHandle handle { x with broadcast := x.broadcast.packetSendNotifications used }

/-- `packetsSent` up to the manager's lock; it shares the handle's lock with others of its kind. -/
def packetsSent (handle : Nat) (x : Handle) : Broadcasts :=
  if x.broadcast.active = false then s
  else
    match x.lock with
    | .free => s.setHandle handle { x with lock := .read 0 }
    | .read others => s.setHandle handle { x with lock := .read (others + 1) }
    | .write _ => s

/-! ### Their part with the manager -/

/-- The rest of `packetsSent`: the manager's `getStatus`, and both locks are given back. -/
def getStatus (handle : Nat) (x : Handle) : Broadcasts :=
  if s.mgrReadable = false then s
  else
    match x.lock with
    | .read 0 => s.setHandle handle { x with lock := .free }
    | .read (others + 1) => s.setHandle handle { x with lock := .read others }
    | _ => s

/-- A step of `sendPacket` from the manager's first lock on. `delegated` says whether the
destinations could be handed to their UDP transports. -/
def proceedSend (handle : Nat) (x : Handle) (destinations : BroadcastSet) (now : Timeval)
    (delegated : Bool) : SendStage → Result
  | .readId =>
    if s.mgrReadable = false then (s, [])
    else
      let stage := .writeId s.mgr.currRequestId
      (s.setHandle handle { x with lock := .write (.send destinations stage) }, [])
  | .writeId currRequestId =>
    let mgr := { s.mgr with currRequestId := (currRequestId + 1) % 2 ^ 64 }
    let broadcast := { x.broadcast with requestId := currRequestId }
    (setHandle { s with mgr } handle ⟨broadcast, .write (.send destinations (.index currRequestId))⟩,
      [.requested handle currRequestId])
  | .index requestId =>
    if s.mgrWritable = false then (s, [])
    else if delegated = false then (s.setHandle handle { x with lock := .free }, [])
    else
      let mgr := s.mgr.indexRequest requestId handle destinations.size
      let stage := .start requestId
      (setHandle { s with mgr } handle { x with lock := .write (.send destinations stage) }, [])
  | .start _ =>
    let broadcast := { x.broadcast with active := true, startTime := now }
    (s.setHandle handle ⟨broadcast, .free⟩, [])

/-- `DtcpBroadcastMgr::cancel` and the rest of `DtcpBroadcast::cancel`. -/
def mgrCancel (handle : Nat) (x : Handle) : Result :=
  let mgr := (s.mgr.cancel x.broadcast.requestId).2
  (setHandle { s with mgr } handle ⟨{ x.broadcast with active := false }, .free⟩,
    [.cancelled handle x.broadcast.requestId])

/-- The next step of the call that has the handle's lock for writing. -/
def proceed (handle : Nat) (x : Handle) (now : Timeval) (delegated : Bool) : Result :=
  match x.lock with
  | .free | .read _ => (s, [])
  | .write (.send destinations stage) => s.proceedSend handle x destinations now delegated stage
  | .write .cancel => if s.mgrWritable = false then (s, []) else s.mgrCancel handle x
  | .write .destroy =>
    if s.mgrWritable = false then (s, [])
    else
      let (s, events) := s.mgrCancel handle x
      ({ s with handles := s.handles.erase handle }, events ++ [.destroyed handle])

/-! ### Notifications -/

/-- The requestor asks for every packet. Of a handle that is no more, the flag can be anything. -/
def notifies (handle : Nat) : Bool :=
  match s.handles.find handle with
  | none => true
  | some x => x.broadcast.packetNotification

/-- `DtcpBroadcastMgr::packetSent`, up to the handle's lock when the packet is the last one. -/
def packetSent (requestId transportId : Nat) : Result :=
  if s.mgrWritable = false then (s, [])
  else
    match s.mgr.requestIdIndex.find requestId with
    | none => (s, [])
    | some request =>
      let request := { request with packetsSent := (request.packetsSent + 1) % 2 ^ 64 }
      let mgr := { s.mgr with requestIdIndex := s.mgr.requestIdIndex.assign requestId request }
      let completing :=
        if request.packetsSent = request.totalPackets then some (request.requestor, requestId)
        else none
      ({ s with mgr, completing },
        if s.notifies request.requestor then
          [.packetSend request.requestor requestId transportId]
        else [])

/-- `broadcastComplete` and the rest of `packetSent`. The handle stays active. -/
def broadcastComplete (now : Timeval) : Result :=
  match s.completing with
  | none => (s, [])
  | some (handle, requestId) =>
    match s.handles.find handle, s.mgr.requestIdIndex.find requestId with
    | some x, some request =>
      if x.lock ≠ .free then (s, [])
      else
        let mgr := { s.mgr with requestIdIndex := s.mgr.requestIdIndex.erase requestId }
        let duration := Timeval.duration now x.broadcast.startTime
        ({ s with mgr, completing := none },
          [.completed handle requestId request.packetsSent duration])
    | _, _ => (s, [])

/-! ### The machine -/

inductive HandleCall where
  | sendPacket
  | cancel
  | destroy
  | packetSendNotifications (used : Bool)
  | packetsSent
  | getStatus
  | proceed (now : Timeval) (delegated : Bool)

inductive Input where
  | construct (destinations : Nat)
  | call (handle : Nat) (call : HandleCall)
  | packetSent (requestId transportId : Nat)
  | broadcastComplete (now : Timeval)

/-- A call that takes the handle's lock for writing waits until it is free. -/
def callHandle (sets : Nat → Option BroadcastSet) (handle : Nat) (x : Handle) :
    HandleCall → Result
  | .getStatus => (s.getStatus handle x, [])
  | .proceed now delegated => s.proceed handle x now delegated
  | .packetsSent => (s.packetsSent handle x, [])
  | .sendPacket => if x.lock ≠ .free then (s, []) else (s.sendPacket sets handle x, [])
  | .cancel => if x.lock ≠ .free then (s, []) else (s.cancel handle x, [])
  | .destroy => if x.lock ≠ .free then (s, []) else s.destroy handle x
  | .packetSendNotifications used =>
    if x.lock ≠ .free then (s, []) else (s.packetSendNotifications handle x used, [])

def step (sets : Nat → Option BroadcastSet) : Input → Result
  | .construct destinations => (s.construct destinations, [])
  | .call handle call =>
    match s.handles.find handle with
    | none => (s, [])
    | some x => s.callHandle sets handle x call
  | .packetSent requestId transportId => s.packetSent requestId transportId
  | .broadcastComplete now => s.broadcastComplete now

def machine (sets : Nat → Option BroadcastSet) : Machine Broadcasts Input BroadcastEvent where
  step s := s.step sets

end Broadcasts

end Alpine
