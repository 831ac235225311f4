import Alpine.Lib.Run

/-!
# The loop of a tunnel

A pass of the loop polls, may accept a connection, reads from the connections that are ready,
removes those that were closed, and may send beacons and reconnect. The connection that is accepted
has no entry in the poll array, so that the loop over the connections reads behind its end, and a
connection whose beacon fails stays without a transport until the next poll takes its descriptor.
`StepOwn` is the exact condition for a pass to look at each connection's own entry and to leave no
connection without a transport (`along_polled_iff`).
-/

namespace Alpine

open Lib

namespace TorTunnel

def BEACON_INTERVAL_SEC : Int := 30
def RECONNECT_INTERVAL_SEC : Int := 60

/-- The transport, by its descriptor; `none` when it has been reset. -/
structure PeerConnection where
  transport : Option Nat
  outbound : Bool
  deriving DecidableEq, Repr

structure PollFd where
  fd : Nat
  revents : Bool
  deriving DecidableEq, Repr

/-- What happens around a pass. What is about a connection is told by its descriptor. -/
structure Pass where
  acceptorReady : Bool
  /-- The connection that `accept` gives. -/
  accepted : Option Nat
  ready : Nat → Bool
  /-- `recvFramedMessage` fails. -/
  closes : Nat → Bool
  now : Int
  /-- The beacon cannot be sent. -/
  beaconFails : Nat → Bool
  /-- The peers that are connected to, if it is time. -/
  connected : List Nat

inductive LoopCall where
  | pass (events : Pass)
  | interrupted
  | pollError
  | stop

inductive LoopStatus where
  | active
  | finished
  /-- A null transport was used, or the poll array was read behind its end. -/
  | crashed
  deriving DecidableEq, Repr

structure TunnelLoop where
  connections : List PeerConnection
  lastBeaconTime : Int
  lastReconnectTime : Int
  status : LoopStatus

/-- A connection and the entry of the poll array that it is examined by. -/
structure Examined where
  transport : Option Nat
  entry : PollFd
  deriving DecidableEq, Repr

/-- The loop starts with the peers that it could connect to. -/
def startLoop (connected : List Nat) (now : Int) : TunnelLoop :=
  ⟨connected.map fun fd => ⟨some fd, true⟩, 0, now, .active⟩

/-- The entries for the connections; `none` is a null transport. -/
def pollArray (ready : Nat → Bool) : List PeerConnection → Option (List PollFd)
  | [] => some []
  | pc :: connections => do
    let fd ← pc.transport
    let fds ← pollArray ready connections
    pure (⟨fd, ready fd⟩ :: fds)

def acceptInboundConnection (events : Pass) (connections : List PeerConnection) :
    List PeerConnection :=
  if events.acceptorReady then
    match events.accepted with
    | some fd => connections ++ [⟨some fd, false⟩]
    | none => connections
  else connections

/-- Receive from a connection; `none` is a null transport. -/
def receiveFrom (closes : Nat → Bool) (pc : PeerConnection) : Option PeerConnection :=
  pc.transport.map fun fd => if closes fd then { pc with transport := none } else pc

/-- Look at a connection by its entry. -/
def examine (closes : Nat → Bool) (entry : PollFd) (pc : PeerConnection) : Option PeerConnection :=
  if entry.revents then receiveFrom closes pc else some pc

/-- The loop over the connections, from index `i`; `none` is a crash. -/
def checkConnections (closes : Nat → Bool) (fds : List PollFd) :
    Nat → List PeerConnection → Option (List PeerConnection × List Examined)
  | _, [] => some ([], [])
  | i, pc :: connections => do
    let entry ← fds[i + 1]?
    let pc' ← examine closes entry pc
    let (connections', examined) ← checkConnections closes fds (i + 1) connections
    pure (pc' :: connections', ⟨pc.transport, entry⟩ :: examined)

def removeDeadConnections (connections : List PeerConnection) : List PeerConnection :=
  connections.filter fun pc => pc.transport.isSome

def sendBeacon (beaconFails : Nat → Bool) (pc : PeerConnection) : PeerConnection :=
  match pc.transport with
  | some fd => if beaconFails fd then { pc with transport := none } else pc
  | none => pc

/-- The beacons and the reconnection at the end of a pass. -/
def periodic (loop : TunnelLoop) (events : Pass) (connections : List PeerConnection) : TunnelLoop :=
  let beacon := events.now - loop.lastBeaconTime ≥ BEACON_INTERVAL_SEC
  let reconnect := events.now - loop.lastReconnectTime ≥ RECONNECT_INTERVAL_SEC
  { loop with
    connections :=
      (if beacon then connections.map (sendBeacon events.beaconFails) else connections) ++
        if reconnect then events.connected.map fun fd => ⟨some fd, true⟩ else []
    lastBeaconTime := if beacon then events.now else loop.lastBeaconTime
    lastReconnectTime := if reconnect then events.now else loop.lastReconnectTime }

/-- A pass, with what it examined; `none` is a crash. -/
def runPass (loop : TunnelLoop) (events : Pass) : Option (TunnelLoop × List Examined) := do
  let fds ← pollArray events.ready loop.connections
  let fds := ⟨0, events.acceptorReady⟩ :: fds
  let connections := acceptInboundConnection events loop.connections
  let (connections, examined) ← checkConnections events.closes fds 0 connections
  pure (periodic loop events (removeDeadConnections connections), examined)

def loopStep (loop : TunnelLoop) (call : LoopCall) : TunnelLoop × List Examined :=
  if loop.status = .active then
    match call with
    | .pass events =>
      match runPass loop events with
      | some result => result
      | none => ({ loop with status := .crashed }, [])
    | .interrupted => (loop, [])
    | .pollError => ({ loop with connections := [], status := .finished }, [])
    | .stop => ({ loop with connections := [], status := .finished }, [])
  else (loop, [])

def loopMachine : Machine TunnelLoop LoopCall Examined := ⟨loopStep⟩

/-! ## What a pass is to do -/

/-- All connections have a transport. -/
def AllLive (connections : List PeerConnection) : Prop :=
  ∀ pc ∈ connections, pc.transport.isSome = true

/-- The step does not crash, each connection is examined by the entry of its own descriptor, and no
connection is left without a transport. -/
structure StepPolled (_ : List Examined) (loop : TunnelLoop) (call : LoopCall) : Prop where
  running : (loopStep loop call).1.status ≠ .crashed
  own : ∀ e ∈ (loopStep loop call).2, e.transport = some e.entry.fd
  every : ∀ events, call = .pass events → loop.status = .active →
    (loopStep loop call).2.map Examined.transport =
      (acceptInboundConnection events loop.connections).map PeerConnection.transport
  removed : AllLive (loopStep loop call).1.connections

/-- No connection is accepted, and if it is time for beacons, no beacon fails on a connection that
was not closed in this pass. -/
def StepOwn (_ : List Examined) (loop : TunnelLoop) : LoopCall → Prop
  | .pass events => loop.status = .active →
      ¬ (events.acceptorReady = true ∧ events.accepted.isSome = true) ∧
      (events.now - loop.lastBeaconTime ≥ BEACON_INTERVAL_SEC →
        ∀ pc ∈ loop.connections, ∀ fd, pc.transport = some fd →
          ¬ (events.ready fd = true ∧ events.closes fd = true) → events.beaconFails fd = false)
  | _ => True

/-- What a pass starts from. -/
structure Kept (_ : List Examined) (loop : TunnelLoop) : Prop where
  running : loop.status ≠ .crashed
  live : AllLive loop.connections

/-! ## A pass over connections that are all there -/

variable {connections : List PeerConnection} {loop : TunnelLoop} {history : List Examined}

/-- The own entry of a connection. -/
def ownEntry (ready : Nat → Bool) (pc : PeerConnection) : PollFd :=
  ⟨pc.transport.getD 0, ready (pc.transport.getD 0)⟩

theorem AllLive.cons {pc : PeerConnection} (h : AllLive (pc :: connections)) :
    (∃ fd, pc.transport = some fd) ∧ AllLive connections :=
  ⟨Option.isSome_iff_exists.mp (h pc List.mem_cons_self),
    fun q hq => h q (List.mem_cons_of_mem _ hq)⟩

theorem pollArray_live (ready : Nat → Bool) (h : AllLive connections) :
    pollArray ready connections = some (connections.map (ownEntry ready)) := by
  induction connections with
  | nil => rfl
  | cons pc connections ih =>
    obtain ⟨⟨fd, hfd⟩, hrest⟩ := h.cons
    rw [pollArray, hfd, ih hrest, List.map_cons, ownEntry, hfd]
    rfl

/-- A connection after it was looked at. -/
def afterReceive (ready closes : Nat → Bool) (pc : PeerConnection) : PeerConnection :=
  if ready (pc.transport.getD 0) = true ∧ closes (pc.transport.getD 0) = true then
    { pc with transport := none }
  else pc

theorem examine_live {pc : PeerConnection} {fd : Nat} (h : pc.transport = some fd)
    (ready closes : Nat → Bool) :
    examine closes (ownEntry ready pc) pc = some (afterReceive ready closes pc) := by
  unfold examine ownEntry receiveFrom afterReceive
  rw [h]
  by_cases hready : ready fd = true <;> by_cases hcloses : closes fd = true <;>
    simp [hready, hcloses]

/-- With an entry for each connection, the loop examines each by its own. -/
theorem checkConnections_live (ready closes : Nat → Bool) (before : List PollFd) {i : Nat}
    (hbefore : before.length = i + 1) (h : AllLive connections) :
    checkConnections closes (before ++ connections.map (ownEntry ready)) i connections =
      some (connections.map (afterReceive ready closes),
        connections.map fun pc => ⟨pc.transport, ownEntry ready pc⟩) := by
  induction connections generalizing before i with
  | nil => rfl
  | cons pc connections ih =>
    obtain ⟨⟨fd, hfd⟩, hrest⟩ := h.cons
    have hentry : (before ++ (pc :: connections).map (ownEntry ready))[i + 1]? =
        some (ownEntry ready pc) := by
      rw [← hbefore, List.getElem?_append_right (Nat.le_refl _), Nat.sub_self]
      rfl
    have hnext := ih (before ++ [ownEntry ready pc]) (i := i + 1)
      (by rw [List.length_append, hbefore]; rfl) hrest
    rw [List.append_assoc] at hnext
    rw [checkConnections, hentry]
    dsimp only [Option.bind_eq_bind, Option.bind_some]
    rw [examine_live hfd, Option.bind_some, List.map_cons]
    show (checkConnections closes (before ++ ([ownEntry ready pc] ++ _)) (i + 1) _).bind _ = _
    rw [hnext]
    rfl

/-- A connection without an entry is behind the end of the array. -/
theorem checkConnections_short (ready closes : Nat → Bool) (before : List PollFd) {i : Nat}
    (hbefore : before.length = i + 1) (pc' : PeerConnection) (h : AllLive connections) :
    checkConnections closes (before ++ connections.map (ownEntry ready)) i (connections ++ [pc']) =
      none := by
  induction connections generalizing before i with
  | nil =>
    have hnone : (before ++ [])[i + 1]? = none := by
      rw [List.append_nil, ← hbefore]
      exact List.getElem?_eq_none (Nat.le_refl _)
    rw [List.map_nil, List.nil_append, checkConnections, hnone]
    rfl
  | cons pc connections ih =>
    obtain ⟨⟨fd, hfd⟩, hrest⟩ := h.cons
    have hentry : (before ++ (pc :: connections).map (ownEntry ready))[i + 1]? =
        some (ownEntry ready pc) := by
      rw [← hbefore, List.getElem?_append_right (Nat.le_refl _), Nat.sub_self]
      rfl
    have hnext := ih (before ++ [ownEntry ready pc]) (i := i + 1)
      (by rw [List.length_append, hbefore]; rfl) hrest
    rw [List.append_assoc] at hnext
    rw [List.cons_append, checkConnections, hentry]
    dsimp only [Option.bind_eq_bind, Option.bind_some]
    rw [examine_live hfd, Option.bind_some, List.map_cons]
    show (checkConnections closes (before ++ ([ownEntry ready pc] ++ _)) (i + 1) _).bind _ = _
    rw [hnext]
    rfl

theorem allLive_removeDead (connections : List PeerConnection) :
    AllLive (removeDeadConnections connections) :=
  fun _ hpc => (List.mem_filter.mp hpc).2

theorem sendBeacon_live_iff (beaconFails : Nat → Bool) {pc : PeerConnection} {fd : Nat}
    (h : pc.transport = some fd) :
    (sendBeacon beaconFails pc).transport.isSome = true ↔ beaconFails fd = false := by
  unfold sendBeacon
  rw [h]
  dsimp only
  cases hfails : beaconFails fd
  · simp [h]
  · simp

/-- All connections are there at the end of a pass exactly if no beacon failed. -/
theorem periodic_live_iff (loop : TunnelLoop) (events : Pass) (h : AllLive connections) :
    AllLive (periodic loop events connections).connections ↔
      (events.now - loop.lastBeaconTime ≥ BEACON_INTERVAL_SEC →
        ∀ pc ∈ connections, ∀ fd, pc.transport = some fd → events.beaconFails fd = false) := by
  have hnew : AllLive (if events.now - loop.lastReconnectTime ≥ RECONNECT_INTERVAL_SEC then
      events.connected.map fun fd => ⟨some fd, true⟩ else []) := by
    split
    · intro pc hpc
      obtain ⟨fd, -, rfl⟩ := List.mem_map.mp hpc
      rfl
    · exact fun pc hpc => (by cases hpc)
  unfold periodic
  dsimp only
  by_cases hbeacon : events.now - loop.lastBeaconTime ≥ BEACON_INTERVAL_SEC
  · simp only [hbeacon, if_true, forall_const]
    constructor
    · intro hlive pc hpc fd hfd
      rw [← sendBeacon_live_iff events.beaconFails hfd]
      exact hlive _ (List.mem_append_left _ (List.mem_map_of_mem hpc))
    · intro hfails pc hpc
      rcases List.mem_append.mp hpc with hpc | hpc
      · obtain ⟨q, hq, rfl⟩ := List.mem_map.mp hpc
        obtain ⟨fd, hfd⟩ := Option.isSome_iff_exists.mp (h q hq)
        exact (sendBeacon_live_iff events.beaconFails hfd).mpr (hfails q hq fd hfd)
      · exact hnew pc hpc
  · simp only [hbeacon, if_false]
    refine ⟨fun _ hdue => False.elim hdue, fun _ pc hpc => ?_⟩
    rcases List.mem_append.mp hpc with hpc | hpc
    · exact h pc hpc
    · exact hnew pc hpc

/-- What is left of the connections when those that were closed are removed. -/
theorem mem_remaining {ready closes : Nat → Bool} {pc : PeerConnection} (h : AllLive connections) :
    pc ∈ removeDeadConnections (connections.map (afterReceive ready closes)) ↔
      pc ∈ connections ∧ ∀ fd, pc.transport = some fd →
        ¬ (ready fd = true ∧ closes fd = true) := by
  unfold removeDeadConnections
  rw [List.mem_filter, List.mem_map]
  constructor
  · rintro ⟨⟨q, hq, rfl⟩, hlive⟩
    obtain ⟨fd, hfd⟩ := Option.isSome_iff_exists.mp (h q hq)
    unfold afterReceive at hlive ⊢
    rw [hfd] at hlive ⊢
    dsimp only [Option.getD_some] at hlive ⊢
    by_cases hclosed : ready fd = true ∧ closes fd = true
    · rw [if_pos hclosed] at hlive
      cases hlive
    · rw [if_neg hclosed]
      refine ⟨hq, fun fd' hfd' => ?_⟩
      rwa [← Option.some.inj (hfd.symm.trans hfd')]
  · rintro ⟨hpc, hopen⟩
    obtain ⟨fd, hfd⟩ := Option.isSome_iff_exists.mp (h pc hpc)
    refine ⟨⟨pc, hpc, ?_⟩, h pc hpc⟩
    rw [afterReceive, hfd]
    exact if_neg (hopen fd hfd)

theorem acceptInboundConnection_none {events : Pass}
    (h : ¬ (events.acceptorReady = true ∧ events.accepted.isSome = true)) :
    acceptInboundConnection events connections = connections := by
  unfold acceptInboundConnection
  split
  · next hready =>
    split
    · next fd hfd => exact absurd ⟨hready, by rw [hfd]; rfl⟩ h
    · rfl
  · rfl

theorem runPass_quiet {events : Pass} (h : AllLive loop.connections)
    (haccept : ¬ (events.acceptorReady = true ∧ events.accepted.isSome = true)) :
    runPass loop events = some (periodic loop events (removeDeadConnections
        (loop.connections.map (afterReceive events.ready events.closes))),
      loop.connections.map fun pc => ⟨pc.transport, ownEntry events.ready pc⟩) := by
  unfold runPass
  rw [pollArray_live events.ready h, acceptInboundConnection_none haccept]
  dsimp only [Option.bind_eq_bind, Option.bind_some]
  have hcheck := checkConnections_live events.ready events.closes
    [⟨0, events.acceptorReady⟩] (i := 0) rfl h
  rw [List.singleton_append] at hcheck
  rw [hcheck]
  rfl

theorem runPass_accepts {events : Pass} (h : AllLive loop.connections)
    (haccept : events.acceptorReady = true ∧ events.accepted.isSome = true) :
    runPass loop events = none := by
  obtain ⟨hready, haccept⟩ := haccept
  obtain ⟨fd, hfd⟩ := Option.isSome_iff_exists.mp haccept
  have happend : acceptInboundConnection events loop.connections =
      loop.connections ++ [⟨some fd, false⟩] := by
    rw [acceptInboundConnection, if_pos hready, hfd]
  unfold runPass
  rw [pollArray_live events.ready h, happend]
  dsimp only [Option.bind_eq_bind, Option.bind_some]
  have hcheck := checkConnections_short events.ready events.closes
    [⟨0, events.acceptorReady⟩] (i := 0) rfl ⟨some fd, false⟩ h
  rw [List.singleton_append] at hcheck
  rw [hcheck]
  rfl

/-! ## Runs -/

theorem Kept.stepPolled_iff (h : Kept history loop) (call : LoopCall) :
    StepPolled history loop call ↔ StepOwn history loop call := by
  by_cases hactive : loop.status = .active
  · cases call with
    | pass events =>
      by_cases haccept : events.acceptorReady = true ∧ events.accepted.isSome = true
      · have hstep : loopStep loop (.pass events) = ({ loop with status := .crashed }, []) := by
          rw [loopStep, if_pos hactive]
          rw [runPass_accepts h.live haccept]
        refine ⟨fun hpolled => ?_, fun hown => absurd haccept (hown hactive).1⟩
        refine absurd ?_ hpolled.running
        rw [hstep]
      · have hpass := runPass_quiet h.live haccept
        have hstep : loopStep loop (.pass events) = (periodic loop events (removeDeadConnections
            (loop.connections.map (afterReceive events.ready events.closes))),
            loop.connections.map fun pc => ⟨pc.transport, ownEntry events.ready pc⟩) := by
          rw [loopStep, if_pos hactive]
          rw [hpass]
        have hlive := periodic_live_iff loop events
          (allLive_removeDead (loop.connections.map (afterReceive events.ready events.closes)))
        simp only [mem_remaining h.live, and_imp] at hlive
        constructor
        · intro hpolled _
          have hremoved := hpolled.removed
          rw [hstep] at hremoved
          exact ⟨haccept, fun hdue pc hpc fd hfd hopen => hlive.mp hremoved hdue pc hpc
            (fun fd' hfd' => Option.some.inj (hfd.symm.trans hfd') ▸ hopen) fd hfd⟩
        · intro hown
          refine ⟨?_, ?_, ?_, ?_⟩
          · rw [hstep]
            exact h.running
          · rw [hstep]
            intro e he
            obtain ⟨pc, hpc, rfl⟩ := List.mem_map.mp he
            obtain ⟨fd, hfd⟩ := Option.isSome_iff_exists.mp (h.live pc hpc)
            dsimp only [ownEntry]
            rw [hfd]
            rfl
          · intro events' heq _
            cases heq
            rw [hstep, acceptInboundConnection_none haccept, List.map_map]
            rfl
          · rw [hstep]
            exact hlive.mpr fun hdue pc hpc hopen fd hfd =>
              (hown hactive).2 hdue pc hpc fd hfd (hopen fd hfd)
    | interrupted =>
      refine ⟨fun _ => trivial, fun _ => ⟨?_, ?_, fun _ heq => (by cases heq), ?_⟩⟩ <;>
        rw [loopStep, if_pos hactive]
      · exact h.running
      · exact fun e he => (by cases he)
      · exact h.live
    | pollError =>
      refine ⟨fun _ => trivial, fun _ => ⟨?_, ?_, fun _ heq => (by cases heq), ?_⟩⟩ <;>
        rw [loopStep, if_pos hactive]
      · exact LoopStatus.noConfusion
      · exact fun e he => (by cases he)
      · exact fun pc hpc => (by cases hpc)
    | stop =>
      refine ⟨fun _ => trivial, fun _ => ⟨?_, ?_, fun _ heq => (by cases heq), ?_⟩⟩ <;>
        rw [loopStep, if_pos hactive]
      · exact LoopStatus.noConfusion
      · exact fun e he => (by cases he)
      · exact fun pc hpc => (by cases hpc)
  · have hstep : loopStep loop call = (loop, []) := if_neg hactive
    constructor
    · intro _
      cases call with
      | pass events => exact fun hyes => absurd hyes hactive
      | _ => trivial
    · intro _
      refine ⟨?_, ?_, fun _ _ hyes => absurd hyes hactive, ?_⟩ <;> rw [hstep]
      · exact h.running
      · exact fun e he => (by cases he)
      · exact h.live

theorem kept_startLoop (connected : List Nat) (now : Int) : Kept [] (startLoop connected now) where
  running := LoopStatus.noConfusion
  live pc hpc := by
    obtain ⟨fd, -, rfl⟩ := List.mem_map.mp hpc
    rfl

/-- In a run of the loop, every pass examines each connection by its own entry, without a crash, and
leaves no connection without a transport, exactly if no pass accepts a connection and no beacon
fails. -/
theorem along_polled_iff (connected : List Nat) (now : Int) (calls : List LoopCall) :
    loopMachine.Along StepPolled [] (startLoop connected now) calls ↔
      loopMachine.Along StepOwn [] (startLoop connected now) calls :=
  Machine.along_congr
    (fun _ _ call hkept hown =>
      have hpolled := (hkept.stepPolled_iff call).mpr hown
      ⟨hpolled.running, hpolled.removed⟩)
    (fun _ _ call hkept => hkept.stepPolled_iff call) (kept_startLoop connected now)

/-- An inbound connection on a loop without connections. -/
theorem inbound_not_polled :
    ¬ ∀ (connected : List Nat) (now : Int) (calls : List LoopCall),
      loopMachine.Along StepPolled [] (startLoop connected now) calls := by
  intro h
  have hstep := (h [] 100 [.pass ⟨true, some 7, fun _ => false, fun _ => false, 100,
    fun _ => false, []⟩]).1.running
  exact hstep (by decide +kernel)

end TorTunnel

end Alpine
