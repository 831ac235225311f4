import Alpine.Lib.Run
import Alpine.Lib.UMap

/-!
# The connections of the HTTP server

The acceptors, the timer that drains the queue and the workers run at the same time. An acceptor and
the timer first look whether there is room and raise the count in a later step. A connection that is
dispatched is counted until the guard of its handler is destroyed, which first gives the slot of its
address back. The queue keeps the sockets only: what it has is handled by `handleConnection`, also
if the TLS acceptor put it there. A WebSocket session is started by a handler that then leaves.
-/

namespace Alpine

open Lib

abbrev ClientIp := List Char

inductive Protocol where
  | plain
  | tls
  deriving DecidableEq, Repr

/-- Where a connection is that the listening socket has given out. -/
inductive Place where
  /-- In the hands of the acceptor, which then has looked for room. -/
  | arrived
  | admitted
  | refused
  | queued
  | rejected
  /-- Dispatched: posted; with a guard; with a slot; in the destructor of the guard, with what is to
  be given back; and of a session, when the guard is gone. -/
  | posted (handler : Protocol)
  | guarded (handler : Protocol) (clientIp : ClientIp)
  | holding (handler : Protocol) (clientIp : ClientIp)
  | leaving (handler : Protocol) (clientIp : ClientIp) (slot session : Bool)
  | session (handler : Protocol) (clientIp : ClientIp)
  | finished (handler : Protocol)
  deriving DecidableEq, Repr

structure Connection where
  /-- The acceptor it came through. -/
  protocol : Protocol
  place : Place
  deriving DecidableEq, Repr

/-- The round of `drainQueue`. -/
inductive Drain where
  | idle
  | looking
  | found
  deriving DecidableEq, Repr

/-- The limits of the configuration. -/
structure HttpLimits where
  maxConnections : Nat
  maxConnectionsPerIp : Nat

structure HttpServer where
  activeConnections : Int
  counts : UMap ClientIp Int
  connectionQueue : List Nat
  connections : UMap Nat Connection
  /-- How many connections have arrived; the next one has this number. -/
  arrivals : Nat
  /-- The connection in the handler of an acceptor, which accepts the next when it is done. -/
  acceptors : Protocol → Option Nat
  drain : Drain

inductive ServerCall where
  | accept (protocol : Protocol)
  | acceptorStep (protocol : Protocol)
  | drainStep
  /-- The handler starts; `none` if the handshake fails or there is no address. -/
  | setUp (id : Nat) (clientIp : Option ClientIp)
  | acquireConnectionSlot (id : Nat)
  /-- The handler returns: no rate left, the last request, an error or an exception. -/
  | leave (id : Nat)
  | upgradeToWebSocket (id : Nat)
  /-- A step of the guard's destructor. -/
  | guardStep (id : Nat)
  | closeSession (id : Nat)

namespace HttpServer

def CONNECTION_QUEUE_CAPACITY : Nat := 128

def new : HttpServer := ⟨0, ∅, [], ∅, 0, fun _ => none, .idle⟩

variable (limits : HttpLimits) (server : HttpServer)

/-- The connection goes to another place. -/
def move (id : Nat) (connection : Connection) (place : Place) : HttpServer :=
  { server with connections := server.connections.assign id { connection with place := place } }

def accept (protocol : Protocol) : HttpServer :=
  match server.acceptors protocol with
  | some _ => server
  | none =>
    { server with
      connections := server.connections.assign server.arrivals ⟨protocol, .arrived⟩
      arrivals := server.arrivals + 1
      acceptors := Function.update server.acceptors protocol (some server.arrivals) }

/-- The acceptor is done with its connection. -/
def accepted (protocol : Protocol) : HttpServer :=
  { server with acceptors := Function.update server.acceptors protocol none }

/-- A step of the handler in `doAccept` or `doAcceptTls`. It waits for the queue's lock. -/
def acceptorStep (protocol : Protocol) : HttpServer :=
  match server.acceptors protocol with
  | none => server
  | some id =>
    match server.connections.find id with
    | none => server
    | some connection =>
      match connection.place with
      | .arrived =>
        if server.activeConnections < limits.maxConnections then
          server.move id connection .admitted
        else server.move id connection .refused
      | .admitted =>
        { (server.move id connection (.posted protocol)).accepted protocol with
          activeConnections := server.activeConnections + 1 }
      | .refused =>
        if server.drain ≠ .idle then server
        else if server.connectionQueue.length < CONNECTION_QUEUE_CAPACITY then
          { (server.move id connection .queued).accepted protocol with
            connectionQueue := server.connectionQueue ++ [id] }
        else (server.move id connection .rejected).accepted protocol
      | _ => server

/-- A step of `drainQueue`, which has the queue's lock from its first step to its last. -/
def drainStep : HttpServer :=
  match server.drain with
  | .idle => { server with drain := .looking }
  | .looking =>
    if server.connectionQueue ≠ [] ∧ server.activeConnections < limits.maxConnections then
      { server with drain := .found }
    else { server with drain := .idle }
  | .found =>
    match server.connectionQueue with
    | [] => { server with drain := .looking }
    | id :: queue =>
      match server.connections.find id with
      | none => { server with connectionQueue := queue, drain := .looking }
      | some connection =>
        { server.move id connection (.posted .plain) with
          activeConnections := server.activeConnections + 1
          connectionQueue := queue
          drain := .looking }

def setUp (id : Nat) (clientIp : Option ClientIp) : HttpServer :=
  match server.connections.find id with
  | some ⟨protocol, .posted handler⟩ =>
    match clientIp with
    | none =>
      { server.move id ⟨protocol, .posted handler⟩ (.finished handler) with
        activeConnections := server.activeConnections - 1 }
    | some clientIp => server.move id ⟨protocol, .posted handler⟩ (.guarded handler clientIp)
  | _ => server

/-- The count of an address that has none is made. -/
def acquireConnectionSlot (id : Nat) : HttpServer :=
  match server.connections.find id with
  | some ⟨protocol, .guarded handler clientIp⟩ =>
    let count := (server.counts.find clientIp).getD 0
    if limits.maxConnectionsPerIp ≤ count then
      { server.move id ⟨protocol, .guarded handler clientIp⟩
          (.leaving handler clientIp false false) with
        counts := server.counts.assign clientIp count }
    else
      { server.move id ⟨protocol, .guarded handler clientIp⟩ (.holding handler clientIp) with
        counts := server.counts.assign clientIp (count + 1) }
  | _ => server

def releaseConnectionSlot (counts : UMap ClientIp Int) (clientIp : ClientIp) : UMap ClientIp Int :=
  match counts.find clientIp with
  | none => counts
  | some count =>
    if count - 1 ≤ 0 then counts.erase clientIp else counts.assign clientIp (count - 1)

def leave (id : Nat) : HttpServer :=
  match server.connections.find id with
  | some ⟨protocol, .guarded handler clientIp⟩ =>
    server.move id ⟨protocol, .guarded handler clientIp⟩ (.leaving handler clientIp false false)
  | some ⟨protocol, .holding handler clientIp⟩ =>
    server.move id ⟨protocol, .holding handler clientIp⟩ (.leaving handler clientIp true false)
  | _ => server

/-- The session starts and the handler returns; only `handleConnection` does this. -/
def upgradeToWebSocket (id : Nat) : HttpServer :=
  match server.connections.find id with
  | some ⟨protocol, .holding .plain clientIp⟩ =>
    server.move id ⟨protocol, .holding .plain clientIp⟩ (.leaving .plain clientIp true true)
  | _ => server

/-- The slot is released, then the connection is no longer counted. -/
def guardStep (id : Nat) : HttpServer :=
  match server.connections.find id with
  | some ⟨protocol, .leaving handler clientIp slot session⟩ =>
    if slot then
      { server.move id ⟨protocol, .leaving handler clientIp slot session⟩
          (.leaving handler clientIp false session) with
        counts :=
          if clientIp ≠ [] then releaseConnectionSlot server.counts clientIp else server.counts }
    else
      { server.move id ⟨protocol, .leaving handler clientIp slot session⟩
          (if session then .session handler clientIp else .finished handler) with
        activeConnections := server.activeConnections - 1 }
  | _ => server

def closeSession (id : Nat) : HttpServer :=
  match server.connections.find id with
  | some ⟨protocol, .leaving handler clientIp slot true⟩ =>
    server.move id ⟨protocol, .leaving handler clientIp slot true⟩
      (.leaving handler clientIp slot false)
  | some ⟨protocol, .session handler clientIp⟩ =>
    server.move id ⟨protocol, .session handler clientIp⟩ (.finished handler)
  | _ => server

def step : ServerCall → HttpServer
  | .accept protocol => server.accept protocol
  | .acceptorStep protocol => server.acceptorStep limits protocol
  | .drainStep => server.drainStep limits
  | .setUp id clientIp => server.setUp id clientIp
  | .acquireConnectionSlot id => server.acquireConnectionSlot limits id
  | .leave id => server.leave id
  | .upgradeToWebSocket id => server.upgradeToWebSocket id
  | .guardStep id => server.guardStep id
  | .closeSession id => server.closeSession id

def machine : Machine HttpServer ServerCall Unit where
  step server call := (server.step limits call, [])

end HttpServer

end Alpine
