import Alpine.Dtcp.ReliableLink

/-!
# What the acknowledgements and the numbers are good for

`AckSafe`: a transport is told that its request was received only after the peer was handed that
request, and by an acknowledgement of it. `AtMostOnce`: no request is handed over twice, and one
that arrives for the first time is handed over.

The first holds of every run, since no request is ever sent (`along_ackSafe`). The second does not:
an old copy is handed over again, and so are two copies that two workers compare at once. It holds,
with any writer, along a run in which the number a receiver remembers tells repetitions from new
requests at each comparison (`along_atMostOnce`), as it does when the packets of a connection are
compared in order and one at a time, as long as their numbers fit the wire (`along_inOrder`).
-/

namespace Alpine.Link

open Lib

variable {N T W : Type}

/-! ## The history -/

section History

variable [DecidableEq N] [DecidableEq T]

def handedOf (e : Endpoint N T) : LinkEvent N T → Option Nat
  | .handed packet => if packet.dest = e then some packet.request else none
  | _ => none

/-- The requests that were handed to `e`. -/
def handedTo (h : List (LinkEvent N T)) (e : Endpoint N T) : List Nat := h.filterMap (handedOf e)

variable {h events : List (LinkEvent N T)}

@[simp] theorem handedTo_append (e : Endpoint N T) :
    handedTo (h ++ events) e = handedTo h e ++ handedTo events e := List.filterMap_append

theorem handedTo_singleton (packet : ReliableData N T) (e : Endpoint N T) :
    handedTo [.handed packet] e = if packet.dest = e then [packet.request] else [] := by
  simp only [handedTo, handedOf, List.filterMap_cons, List.filterMap_nil]
  split <;> simp_all

/-- The event is not of a reliable packet that arrived. -/
def Silent (event : LinkEvent N T) : Prop := ∀ packet, event ≠ .handed packet ∧ event ≠ .dropped packet

theorem handedTo_silent (hs : ∀ event ∈ events, Silent event) (e : Endpoint N T) :
    handedTo events e = [] := by
  refine List.filterMap_eq_nil_iff.mpr fun event hmem => ?_
  cases event with
  | handed packet => exact absurd rfl (hs _ hmem packet).1
  | _ => rfl

end History

/-- What a worker does with a reliable packet. -/
def data (s : Link N T W) (w : W) : Option (DataStage × ReliableData N T) :=
  match s.workers w with
  | some (.data stage packet) => some (stage, packet)
  | _ => none

theorem data_eq_some {s : Link N T W} {w : W} {stage : DataStage} {packet : ReliableData N T} :
    s.data w = some (stage, packet) ↔ s.workers w = some (.data stage packet) := by
  unfold data
  rcases s.workers w with _ | ⟨⟨stage', packet'⟩ | _⟩ <;> simp

/-- The packet that the worker has in one of these stages. -/
def packetIn (s : Link N T W) (stages : DataStage → Bool) (w : W) : Option (ReliableData N T) :=
  (s.data w).bind fun d => if stages d.1 then some d.2 else none

/-- The packet that the worker is about to compare. -/
def comparing (s : Link N T W) (w : W) : Option (ReliableData N T) := s.packetIn (· == .compare) w

/-- The packet that it has found to be new and not yet handed over. -/
def takenBy (s : Link N T W) (w : W) : Option (ReliableData N T) := s.packetIn DataStage.taken w

/-- The packet that it has found to be new and whose number it has not stored. -/
def storing (s : Link N T W) (w : W) : Option (ReliableData N T) := s.packetIn (· == .store) w

theorem packetIn_some {s : Link N T W} {w : W} {stage : DataStage} {packet : ReliableData N T}
    (hw : s.data w = some (stage, packet)) (stages : DataStage → Bool) :
    s.packetIn stages w = if stages stage then some packet else none := by
  rw [packetIn, hw]
  rfl

theorem packetIn_none {s : Link N T W} {w : W} (hw : s.data w = none) (stages : DataStage → Bool) :
    s.packetIn stages w = none := by
  rw [packetIn, hw]
  rfl

theorem mem_packetIn {s : Link N T W} {w : W} {stages : DataStage → Bool}
    {packet : ReliableData N T} (hmem : packet ∈ s.packetIn stages w) :
    ∃ stage, s.data w = some (stage, packet) ∧ stages stage = true := by
  unfold packetIn at hmem
  obtain ⟨⟨stage, packet'⟩, hw, hin⟩ := Option.bind_eq_some_iff.mp hmem
  split at hin
  · next hstage =>
    cases hin
    exact ⟨stage, hw, hstage⟩
  · cases hin

/-! ## What a step does -/

theorem failures_silent (n : N) (events : List (TransportEvent T)) :
    ∀ event ∈ failures n events, Silent event := by
  unfold failures
  split
  · intro event hmem packet
    obtain rfl := List.mem_singleton.mp hmem
    simp
  · simp

section SendDataAck

variable [LinkWriter]

theorem sendDataAck_data (conns : Connections N T) (s : Link N T W) (packet : ReliableData N T)
    (o : SendOutcome) : (s.sendDataAck conns packet o).data = s.data := by
  unfold sendDataAck
  split <;> rfl

theorem sendDataAck_transport (conns : Connections N T) (s : Link N T W) (packet : ReliableData N T)
    (o : SendOutcome) (e : Endpoint N T) :
    (s.sendDataAck conns packet o).transport e = s.transport e := by
  unfold sendDataAck
  split <;> rfl

end SendDataAck

section Steps

variable [DecidableEq N] [DecidableEq T]

theorem setRecvSequenceNum_transport (s : Link N T W) (e e' : Endpoint N T) (number : Nat) :
    ((s.setProcess e.1 ((s.processes e.1).setRecvSequenceNum e.2 number)).transport
      e').recvSequenceNum = if e' = e then number else (s.transport e').recvSequenceNum := by
  unfold transport
  by_cases hn : e'.1 = e.1
  · rw [hn, setProcess_self, Process.setRecvSequenceNum_received]
    simp [Prod.ext_iff, hn]
  · rw [setProcess_other _ hn, if_neg fun heq => hn (by rw [heq])]

variable [DecidableEq W]

omit [DecidableEq N] [DecidableEq T] in
theorem data_setWorker (s : Link N T W) (w : W) (handling : Option (Handling N T)) :
    (s.setWorker w handling).data = Function.update s.data w (match handling with
      | some (.data stage packet) => some (stage, packet)
      | _ => none) := by
  funext w'
  by_cases hw : w' = w
  · subst hw
    simp [data, setWorker]
  · simp [data, setWorker, hw]

omit [DecidableEq N] [DecidableEq T] in
theorem data_setWorker_other {s : Link N T W} {w : W} (hw : s.data w = none)
    {handling : Option (Handling N T)}
    (hother : ∀ stage packet, handling ≠ some (.data stage packet)) :
    (s.setWorker w handling).data = s.data := by
  rw [data_setWorker]
  refine Function.update_eq_self_iff.mpr ?_
  rw [hw]
  split
  · exact absurd rfl (hother _ _)
  · rfl

/-- What a step does to the packets that the workers handle and to the numbers remembered. -/
inductive Did (s : Link N T W) (input : Input N T W) (s' : Link N T W) :
    List (LinkEvent N T) → Prop where
  | quiet {events : List (LinkEvent N T)} (hdata : s'.data = s.data)
      (hrecv : ∀ e, (s'.transport e).recvSequenceNum = (s.transport e).recvSequenceNum)
      (hsilent : ∀ event ∈ events, Silent event) : Did s input s' events
  /-- A worker goes on to a stage in which the packet is in its hands if it was before. -/
  | moved (w : W) (stage : DataStage) (packet : ReliableData N T)
      (after : Option (DataStage × ReliableData N T)) (hw : s.data w = some (stage, packet))
      (hdata : s'.data = Function.update s.data w after)
      (hafter : (stage = .repeated ∧ after = none) ∨
        (stage = .acknowledge ∧ after = some (.handOver, packet)))
      (hrecv : ∀ e, (s'.transport e).recvSequenceNum = (s.transport e).recvSequenceNum) :
      Did s input s' []
  | arrived (w : W) (packet : ReliableData N T) (hw : s.data w = none)
      (hmem : .reliableData packet ∈ s.network)
      (hdata : s'.data = Function.update s.data w (some (.compare, packet)))
      (hrecv : ∀ e, (s'.transport e).recvSequenceNum = (s.transport e).recvSequenceNum) :
      Did s input s' []
  | dropped (w : W) (now : Nat) (o : SendOutcome) (packet : ReliableData N T)
      (hinput : input = .proceed w now o) (hw : s.data w = some (.compare, packet))
      (hsame : (s.transport packet.dest).recvSequenceNum = packet.sequenceNum)
      (hdata : s'.data = Function.update s.data w (some (.repeated, packet)))
      (hrecv : ∀ e, (s'.transport e).recvSequenceNum = (s.transport e).recvSequenceNum) :
      Did s input s' [.dropped packet]
  | taken (w : W) (now : Nat) (o : SendOutcome) (packet : ReliableData N T)
      (hinput : input = .proceed w now o) (hw : s.data w = some (.compare, packet))
      (hother : (s.transport packet.dest).recvSequenceNum ≠ packet.sequenceNum)
      (hdata : s'.data = Function.update s.data w (some (.store, packet)))
      (hrecv : ∀ e, (s'.transport e).recvSequenceNum = (s.transport e).recvSequenceNum) :
      Did s input s' []
  | stored (w : W) (packet : ReliableData N T) (hw : s.data w = some (.store, packet))
      (hdata : s'.data = Function.update s.data w (some (.acknowledge, packet)))
      (hrecv : ∀ e, (s'.transport e).recvSequenceNum =
        if e = packet.dest then packet.sequenceNum else (s.transport e).recvSequenceNum) :
      Did s input s' []
  | handed (w : W) (packet : ReliableData N T) (hw : s.data w = some (.handOver, packet))
      (hdata : s'.data = Function.update s.data w none)
      (hrecv : ∀ e, (s'.transport e).recvSequenceNum = (s.transport e).recvSequenceNum) :
      Did s input s' [.handed packet]

theorem did_handleAck (s : Link N T W) (w : W) (e : Endpoint N T) (ackOf now : Nat)
    (input : Input N T W) (stage : AckStage) (hw : s.data w = none) :
    Did s input (s.handleAck w e ackOf now stage).1 (s.handleAck w e ackOf now stage).2 := by
  cases stage with
  | checkPending =>
    simp only [handleAck]
    split
    · exact .quiet (data_setWorker_other hw (by simp)) (fun _ => rfl) (by simp)
    · exact .quiet (data_setWorker_other hw (by simp)) (fun _ => rfl) (by simp)
  | readRequestId =>
    exact .quiet (data_setWorker_other hw (by simp)) (fun _ => rfl) (by simp [handleAck])
  | complete requestId =>
    refine .quiet (data_setWorker_other hw ?_) (setProcess_received fun _ => rfl) (by simp [handleAck])
    split <;> simp
  | tell requestId =>
    refine .quiet (data_setWorker_other hw (by simp)) (setProcess_received fun t => ?_) ?_
    · exact Process.setTransport_received _ (Process.requestDone_received _ _) t
    · simp only [handleAck]
      split
      · intro event hmem packet
        obtain rfl := List.mem_singleton.mp hmem
        simp
      · simp

variable [LinkWriter]

theorem did_handleData (conns : Connections N T) (s : Link N T W) (w : W) (now : Nat)
    (o : SendOutcome) {stage : DataStage} {packet : ReliableData N T}
    (hw : s.data w = some (stage, packet)) :
    Did s (.proceed w now o) (s.handleData conns w packet o stage).1
      (s.handleData conns w packet o stage).2 := by
  cases stage with
  | compare =>
    have hrepeat := (s.processes packet.dest.1).isRepeat_iff packet.dest.2 packet.sequenceNum
    simp only [handleData]
    split
    · next hsame =>
      exact .dropped w now o packet rfl hw (hrepeat.mp hsame) (data_setWorker _ _ _) fun _ => rfl
    · next hother =>
      refine .taken w now o packet rfl hw (fun hsame => ?_) (data_setWorker _ _ _) fun _ => rfl
      exact hother (hrepeat.mpr hsame)
  | repeated =>
    refine .moved w .repeated packet none hw ?_ (.inl ⟨rfl, rfl⟩) fun e => ?_
    · rw [handleData, data_setWorker, sendDataAck_data]
    · exact congrArg _ (sendDataAck_transport conns s packet o e)
  | store =>
    refine .stored w packet hw (data_setWorker _ _ _) fun e => ?_
    exact setRecvSequenceNum_transport s packet.dest e packet.sequenceNum
  | acknowledge =>
    refine .moved w .acknowledge packet (some (.handOver, packet)) hw ?_ (.inr ⟨rfl, rfl⟩) fun e => ?_
    · rw [handleData, data_setWorker, sendDataAck_data]
    · exact congrArg _ (sendDataAck_transport conns s packet o e)
  | handOver => exact .handed w packet hw (data_setWorker _ _ _) fun _ => rfl

theorem did_send (conns : Connections N T) (s : Link N T W) (e : Endpoint N T) (data : List UInt8)
    (o : SendOutcome) : Did s (.sendReliablePacket e data o) (s.send conns e data o).1
      (s.send conns e data o).2 := by
  have hrecv := setProcess_received
    ((s.processes e.1).sendReliablePacket_received e.2 data o)
  unfold send
  dsimp only
  split
  · exact .quiet rfl hrecv (by simp)
  · refine .quiet rfl hrecv fun event hmem packet => ?_
    obtain rfl := List.mem_singleton.mp hmem
    simp

theorem did_step (conns : Connections N T) (s : Link N T W) (input : Input N T W) :
    Did s input ((machine conns).step s input).1 ((machine conns).step s input).2 := by
  cases input with
  | sendReliablePacket e data o => exact did_send conns s e data o
  | acknowledgeTransfer e now =>
    exact .quiet rfl
      (setProcess_received ((s.processes e.1).acknowledgeTransfer_same e.2 now).received)
      (by simp [machine])
  | setPeerLocation e ipAddress port =>
    exact .quiet rfl (setProcess_received ((s.processes e.1).setPeerLocation_same e.2 _ _).received)
      (by simp [machine])
  | retry n now entry draw =>
    exact .quiet rfl (setProcess_received ((s.processes n).retry_same now entry draw).received)
      (failures_silent _ _)
  | inject packet => exact .quiet rfl (fun _ => rfl) (by simp [machine])
  | arrive w place =>
    simp only [machine]
    split
    · next packet hw hplace =>
      have hidle : s.data w = none := by simp [Link.data, hw]
      cases packet with
      | reliableData packet =>
        exact .arrived w packet hidle (List.mem_of_getElem? hplace) (data_setWorker _ _ _) fun _ => rfl
      | dataAck e request =>
        exact .quiet (data_setWorker_other hidle (by simp [begin])) (fun _ => rfl) (by simp)
    · exact .quiet rfl (fun _ => rfl) (by simp)
  | proceed w now o =>
    simp only [machine]
    cases hw : s.workers w with
    | none => exact .quiet rfl (fun _ => rfl) (by simp)
    | some handling =>
      cases handling with
      | data stage packet => exact did_handleData conns s w now o (data_eq_some.mpr hw)
      | ack stage e ackOf =>
        exact did_handleAck s w e ackOf now _ stage (by simp [Link.data, hw])

end Steps

/-! ## Acknowledgements -/

section Acknowledgements

variable [DecidableEq N] [DecidableEq T] [DecidableEq W] {conns : Connections N T}
  {h : List (LinkEvent N T)} {s : Link N T W}

/-- What is reported as received was handed over, and the acknowledgement is of it. -/
def AckSafe (conns : Connections N T) (h : List (LinkEvent N T)) (s : Link N T W)
    (input : Input N T W) : Prop :=
  ∀ e request ackOf, .completed e request ackOf ∈ ((machine conns).step s input).2 →
    request ∈ handedTo h (conns.peer e) ∧ ackOf = request

omit [DecidableEq N] [DecidableEq T] [DecidableEq W] in
/-- No transport waits, so no worker gets past the question whether it does. -/
structure Untold (s : Link N T W) : Prop where
  idle : ∀ n, (s.processes n).Idle
  acks : ∀ w stage e ackOf, s.workers w = some (.ack stage e ackOf) → stage = .checkPending

omit [DecidableEq T] [DecidableEq W] in
theorem Untold.setProcess (hi : Untold s) {n : N} {p : Process T} (hp : p.Idle) :
    Untold (s.setProcess n p) := by
  refine ⟨fun n' => ?_, hi.acks⟩
  by_cases hn : n' = n
  · subst hn
    rwa [setProcess_self]
  · rw [setProcess_other _ hn]
    exact hi.idle n'

omit [DecidableEq N] [DecidableEq T] in
theorem Untold.setWorker (hi : Untold s) {w : W} {handling : Option (Handling N T)}
    (hh : ∀ stage e ackOf, handling = some (.ack stage e ackOf) → stage = .checkPending) :
    Untold (s.setWorker w handling) := by
  refine ⟨hi.idle, fun w' stage e ackOf hw' => ?_⟩
  by_cases hw : w' = w
  · subst hw
    exact hh stage e ackOf (by simpa [Link.setWorker] using hw')
  · exact hi.acks w' stage e ackOf (by simpa [Link.setWorker, hw] using hw')

omit [DecidableEq N] [DecidableEq T] [DecidableEq W] in
theorem sendDataAck_eq (conns : Connections N T) (s : Link N T W) (packet : ReliableData N T)
    (o : SendOutcome) : s.sendDataAck conns packet o = s :=
  if_neg (by simp)

theorem Untold.handleData (hi : Untold s) (w : W) (packet : ReliableData N T) (o : SendOutcome)
    (stage : DataStage) : Untold (s.handleData conns w packet o stage).1 := by
  cases stage with
  | compare =>
    simp only [Link.handleData]
    split
    · exact hi.setWorker (by simp)
    · exact hi.setWorker (by simp)
  | repeated =>
    simp only [Link.handleData, sendDataAck_eq]
    exact hi.setWorker (by simp)
  | store => exact (hi.setProcess ((hi.idle _).setRecvSequenceNum _ _)).setWorker (by simp)
  | acknowledge =>
    simp only [Link.handleData, sendDataAck_eq]
    exact hi.setWorker (by simp)
  | handOver => exact hi.setWorker (by simp)

/-- A step reports nothing as received. -/
theorem Untold.step (hi : Untold s) (input : Input N T W) :
    Untold ((machine conns).step s input).1 ∧
      ∀ e request ackOf, .completed e request ackOf ∉ ((machine conns).step s input).2 := by
  cases input with
  | sendReliablePacket e data o =>
    have hsend : s.send conns e data o =
        (s.setProcess e.1 ((s.processes e.1).sendReliablePacket e.2 data o).2.1, []) :=
      if_pos ((s.processes e.1).sendReliablePacket_fails e.2 data o).1
    simp only [machine, hsend]
    exact ⟨hi.setProcess ((hi.idle _).sendReliablePacket _ _ _), by simp⟩
  | acknowledgeTransfer e now =>
    simp only [machine, (hi.idle e.1).acknowledgeTransfer]
    exact ⟨hi.setProcess (hi.idle _), by simp⟩
  | setPeerLocation e ipAddress port =>
    exact ⟨hi.setProcess ((hi.idle _).setPeerLocation _ _ _), by simp [machine]⟩
  | retry n now entry draw =>
    obtain ⟨hidle, hevents⟩ := (hi.idle n).retry now entry draw
    simp only [machine, hevents, failures]
    exact ⟨hi.setProcess hidle, by simp⟩
  | inject packet => exact ⟨⟨hi.idle, hi.acks⟩, by simp [machine]⟩
  | arrive w place =>
    simp only [machine]
    split
    · next packet _ _ =>
      refine ⟨hi.setWorker fun stage e ackOf heq => ?_, by simp⟩
      cases packet with
      | reliableData packet => simp [begin] at heq
      | dataAck e request =>
        simp only [begin, Option.some.injEq, Handling.ack.injEq] at heq
        exact heq.1.symm
    · exact ⟨hi, by simp⟩
  | proceed w now o =>
    simp only [machine]
    cases hw : s.workers w with
    | none => exact ⟨hi, by simp⟩
    | some handling =>
      cases handling with
      | data stage packet =>
        refine ⟨hi.handleData w packet o stage, fun e request ackOf hmem => ?_⟩
        cases stage with
        | compare =>
          simp only [Link.handleData] at hmem
          split at hmem <;> simp at hmem
        | _ => simp [Link.handleData] at hmem
      | ack stage e ackOf =>
        obtain rfl := hi.acks w stage e ackOf hw
        simp only [handleAck]
        rw [if_pos (show (s.transport e).pendingAck = false from (hi.idle e.1).flag e.2)]
        exact ⟨hi.setWorker (by simp), by simp⟩

/-- Along every run what is reported as received was handed over. -/
theorem along_ackSafe (conns : Connections N T) (configured : Option Int)
    (inputs : List (Input N T W)) :
    (machine conns).Along (AckSafe conns) [] (new configured) inputs := by
  have hnew : Untold (new configured : Link N T W) :=
    ⟨fun _ => Process.idle_new configured, fun _ _ _ _ hw => by cases hw⟩
  exact Machine.run_along (I := fun _ s => Untold s) (fun _ _ input hi => (hi.step input).1)
    (fun _ _ input hi e request ackOf hmem => absurd hmem ((hi.step input).2 e request ackOf))
    inputs hnew

end Acknowledgements

/-! ## Repetitions -/

section Repetitions

variable [DecidableEq N] [DecidableEq T] {h events : List (LinkEvent N T)} {s s' : Link N T W}

/-- The worker is about to hand `request` to `e`. -/
def InHands (s : Link N T W) (w : W) (e : Endpoint N T) (request : Nat) : Prop :=
  ∃ packet ∈ s.takenBy w, packet.dest = e ∧ packet.request = request

instance (s : Link N T W) (w : W) (e : Endpoint N T) (request : Nat) :
    Decidable (InHands s w e request) :=
  inferInstanceAs (Decidable (∃ packet ∈ s.takenBy w, packet.dest = e ∧ packet.request = request))

/-- `request` was handed to `e`, or a worker is about to do so. -/
def TakenUp (h : List (LinkEvent N T)) (s : Link N T W) (e : Endpoint N T) (request : Nat) : Prop :=
  request ∈ handedTo h e ∨ ∃ w, InHands s w e request

instance [Fintype W] (h : List (LinkEvent N T)) (s : Link N T W) (e : Endpoint N T) (request : Nat) :
    Decidable (TakenUp h s e request) :=
  inferInstanceAs (Decidable (request ∈ handedTo h e ∨ ∃ w, InHands s w e request))

/-- No request is handed over twice, and what is taken for a repetition was taken up before. -/
structure AtMostOnce [DecidableEq W] [LinkWriter] (conns : Connections N T) (h : List (LinkEvent N T))
    (s : Link N T W) (input : Input N T W) : Prop where
  once : ∀ e, (handedTo (h ++ ((machine conns).step s input).2) e).Nodup
  fresh : ∀ packet, .dropped packet ∈ ((machine conns).step s input).2 →
    TakenUp h s packet.dest packet.request

/-- When a packet is compared, the number remembered is that of the packet exactly if its request
was taken up before. -/
def NumberTells (h : List (LinkEvent N T)) (s : Link N T W) : Input N T W → Prop
  | .proceed w _ _ => ∀ packet ∈ s.comparing w, TakenUp h s packet.dest packet.request ↔
      (s.transport packet.dest).recvSequenceNum = packet.sequenceNum
  | _ => True

instance [Fintype W] (h : List (LinkEvent N T)) (s : Link N T W) :
    ∀ input, Decidable (NumberTells h s input)
  | .proceed w _ _ => inferInstanceAs (Decidable (∀ packet ∈ s.comparing w,
      TakenUp h s packet.dest packet.request ↔
        (s.transport packet.dest).recvSequenceNum = packet.sequenceNum))
  | .sendReliablePacket _ _ _ | .acknowledgeTransfer _ _ | .setPeerLocation _ _ _ | .retry _ _ _ _
  | .inject _ | .arrive _ _ => isTrue trivial

omit [DecidableEq N] [DecidableEq T] in
theorem mem_comparing {w : W} {packet : ReliableData N T}
    (hw : s.data w = some (.compare, packet)) : packet ∈ s.comparing w := packetIn_some hw _

/-- A request is handed over once at most, and not while it is in the hands of a worker, of which
there is one at most. -/
structure Held (h : List (LinkEvent N T)) (s : Link N T W) : Prop where
  once : ∀ e, (handedTo h e).Nodup
  apart : ∀ w e request, InHands s w e request → request ∉ handedTo h e
  single : ∀ w w' e request, InHands s w e request → InHands s w' e request → w = w'

/-- Nothing is handed over and no worker has another packet in its hands. -/
structure SameHands (s s' : Link N T W) (events : List (LinkEvent N T)) : Prop where
  hands : ∀ w, s'.takenBy w = s.takenBy w
  events : ∀ e, handedTo events e = []

omit [DecidableEq N] [DecidableEq T] in
theorem inHands_congr {w : W} (hw : s'.takenBy w = s.takenBy w) (e : Endpoint N T) (request : Nat) :
    InHands s' w e request ↔ InHands s w e request := by
  unfold InHands
  rw [hw]

theorem SameHands.held (hs : SameHands s s' events) (hi : Held h s) : Held (h ++ events) s' where
  once e := by
    rw [handedTo_append, hs.events, List.append_nil]
    exact hi.once e
  apart w e request hin := by
    rw [handedTo_append, hs.events, List.append_nil]
    exact hi.apart w e request ((inHands_congr (hs.hands w) e request).mp hin)
  single w w' e request hin hin' :=
    hi.single w w' e request ((inHands_congr (hs.hands w) e request).mp hin)
      ((inHands_congr (hs.hands w') e request).mp hin')

theorem SameHands.takenUp (hs : SameHands s s' events) (e : Endpoint N T) (request : Nat) :
    TakenUp (h ++ events) s' e request ↔ TakenUp h s e request := by
  unfold TakenUp
  rw [handedTo_append, hs.events, List.append_nil]
  exact or_congr_right (exists_congr fun w => inHands_congr (hs.hands w) e request)

variable [DecidableEq W] {input : Input N T W}

omit [DecidableEq N] [DecidableEq T] in
theorem packetIn_update {w : W} {after : Option (DataStage × ReliableData N T)}
    (hdata : s'.data = Function.update s.data w after) {stages : DataStage → Bool}
    (hself : s'.packetIn stages w = s.packetIn stages w) (w' : W) :
    s'.packetIn stages w' = s.packetIn stages w' := by
  by_cases hw : w' = w
  · rw [hw, hself]
  · rw [packetIn, packetIn, hdata, Function.update_of_ne hw]

/-- The numbers remembered are the same, and the workers that are about to store one. -/
structure SameStores (s s' : Link N T W) : Prop where
  stores : ∀ w, s'.storing w = s.storing w
  received : ∀ e, (s'.transport e).recvSequenceNum = (s.transport e).recvSequenceNum

/-- The worker stores the number of the packet. -/
structure Stored (s s' : Link N T W) (w : W) (packet : ReliableData N T) : Prop where
  before : s.data w = some (.store, packet)
  data : s'.data = Function.update s.data w (some (.acknowledge, packet))
  received : ∀ e, (s'.transport e).recvSequenceNum =
    if e = packet.dest then packet.sequenceNum else (s.transport e).recvSequenceNum

/-- The worker finds the packet to be new. -/
structure Takes (s s' : Link N T W) (w : W) (packet : ReliableData N T) : Prop where
  before : s.data w = some (.compare, packet)
  other : (s.transport packet.dest).recvSequenceNum ≠ packet.sequenceNum
  data : s'.data = Function.update s.data w (some (.store, packet))
  received : ∀ e, (s'.transport e).recvSequenceNum = (s.transport e).recvSequenceNum

/-- The worker hands the packet over. -/
structure HandsOver (s s' : Link N T W) (w : W) (packet : ReliableData N T) : Prop where
  before : s.data w = some (.handOver, packet)
  data : s'.data = Function.update s.data w none
  received : ∀ e, (s'.transport e).recvSequenceNum = (s.transport e).recvSequenceNum

/-- What a step does to what is taken up and what is remembered. -/
theorem Did.effect (hdid : Did s input s' events) :
    (SameHands s s' events ∧ (SameStores s s' ∨ ∃ w packet, Stored s s' w packet)) ∨
      (∃ w now o packet, input = .proceed w now o ∧ Takes s s' w packet ∧ events = []) ∨
      ∃ w packet, HandsOver s s' w packet ∧ events = [.handed packet] := by
  cases hdid with
  | quiet hdata hrecv hsilent =>
    exact .inl ⟨⟨fun w => by rw [takenBy, takenBy, packetIn, packetIn, hdata],
      handedTo_silent hsilent⟩,
      .inl ⟨fun w => by rw [storing, storing, packetIn, packetIn, hdata], hrecv⟩⟩
  | moved w stage packet after hw hdata hafter hrecv =>
    have hself : s'.data w = after := by rw [hdata, Function.update_self]
    have hboth : ∀ stages : DataStage → Bool, stages .repeated = false →
        stages .acknowledge = stages .handOver → s'.packetIn stages w = s.packetIn stages w := by
      intro stages hrepeated hacknowledge
      rcases hafter with ⟨rfl, rfl⟩ | ⟨rfl, rfl⟩
      · rw [packetIn_none hself, packetIn_some hw, hrepeated]
        rfl
      · rw [packetIn_some hself, packetIn_some hw, hacknowledge]
    exact .inl ⟨⟨packetIn_update hdata (hboth _ rfl rfl), fun _ => rfl⟩,
      .inl ⟨packetIn_update hdata (hboth _ rfl rfl), hrecv⟩⟩
  | arrived w packet hw _ hdata hrecv =>
    have hself : s'.data w = some (.compare, packet) := by rw [hdata, Function.update_self]
    have hboth : ∀ stages : DataStage → Bool, stages .compare = false →
        s'.packetIn stages w = s.packetIn stages w := by
      intro stages hcompare
      rw [packetIn_some hself, packetIn_none hw, hcompare]
      rfl
    exact .inl ⟨⟨packetIn_update hdata (hboth _ rfl), fun _ => rfl⟩,
      .inl ⟨packetIn_update hdata (hboth _ rfl), hrecv⟩⟩
  | dropped w _ _ packet _ hw _ hdata hrecv =>
    have hself : s'.data w = some (.repeated, packet) := by rw [hdata, Function.update_self]
    have hboth : ∀ stages : DataStage → Bool, stages .repeated = stages .compare →
        s'.packetIn stages w = s.packetIn stages w := by
      intro stages hsame
      rw [packetIn_some hself, packetIn_some hw, hsame]
    exact .inl ⟨⟨packetIn_update hdata (hboth _ rfl), fun _ => rfl⟩,
      .inl ⟨packetIn_update hdata (hboth _ rfl), hrecv⟩⟩
  | taken w now o packet hinput hw hother hdata hrecv =>
    exact .inr (.inl ⟨w, now, o, packet, hinput, ⟨hw, hother, hdata, hrecv⟩, rfl⟩)
  | stored w packet hw hdata hrecv =>
    have hself : s'.data w = some (.acknowledge, packet) := by rw [hdata, Function.update_self]
    refine .inl ⟨⟨packetIn_update hdata ?_, fun _ => rfl⟩, .inr ⟨w, packet, hw, hdata, hrecv⟩⟩
    rw [packetIn_some hself, packetIn_some hw]
    rfl
  | handed w packet hw hdata hrecv => exact .inr (.inr ⟨w, packet, ⟨hw, hdata, hrecv⟩, rfl⟩)

omit [DecidableEq N] [DecidableEq T] in
/-- Whose hands a packet is in when the worker `w` has taken it. -/
theorem inHands_taken {w : W} {packet : ReliableData N T}
    (hw : s.data w = some (.compare, packet))
    (hdata : s'.data = Function.update s.data w (some (.store, packet))) (w' : W)
    (e : Endpoint N T) (request : Nat) :
    InHands s' w' e request ↔
      InHands s w' e request ∨ (w' = w ∧ packet.dest = e ∧ packet.request = request) := by
  unfold InHands takenBy
  by_cases hw' : w' = w
  · subst hw'
    rw [packetIn_some hw, packetIn_some (hdata ▸ Function.update_self w' _ s.data)]
    simp [DataStage.taken]
  · rw [packetIn, hdata, Function.update_of_ne hw']
    simp [hw', packetIn]

omit [DecidableEq N] [DecidableEq T] in
/-- And when it has handed it over. -/
theorem inHands_handed {w : W} (hdata : s'.data = Function.update s.data w none) (w' : W)
    (e : Endpoint N T) (request : Nat) :
    InHands s' w' e request ↔ w' ≠ w ∧ InHands s w' e request := by
  unfold InHands takenBy
  by_cases hw' : w' = w
  · subst hw'
    rw [packetIn_none (hdata ▸ Function.update_self w' _ s.data)]
    simp
  · rw [packetIn, hdata, Function.update_of_ne hw']
    simp [hw', packetIn]

omit [DecidableEq N] [DecidableEq T] [DecidableEq W] in
theorem inHands_handOver {w : W} {packet : ReliableData N T}
    (hw : s.data w = some (.handOver, packet)) : InHands s w packet.dest packet.request :=
  ⟨packet, packetIn_some hw _, rfl, rfl⟩

/-- A packet that was not taken up is. -/
theorem Held.taken (hi : Held h s) {w : W} {packet : ReliableData N T}
    (hw : s.data w = some (.compare, packet))
    (hdata : s'.data = Function.update s.data w (some (.store, packet)))
    (hfresh : ¬ TakenUp h s packet.dest packet.request) : Held h s' := by
  have hhands := inHands_taken hw hdata
  obtain ⟨hnot, hnone⟩ := not_or.mp hfresh
  refine ⟨hi.once, fun w' e request hin => ?_, fun w₁ w₂ e request hin₁ hin₂ => ?_⟩
  · rcases (hhands w' e request).mp hin with hold | ⟨-, rfl, rfl⟩
    · exact hi.apart w' e request hold
    · exact hnot
  · rcases (hhands w₁ e request).mp hin₁ with hold₁ | ⟨rfl, rfl, rfl⟩
    · rcases (hhands w₂ e request).mp hin₂ with hold₂ | ⟨-, rfl, rfl⟩
      · exact hi.single w₁ w₂ e request hold₁ hold₂
      · exact absurd ⟨w₁, hold₁⟩ hnone
    · rcases (hhands w₂ _ _).mp hin₂ with hold₂ | ⟨rfl, -, -⟩
      · exact absurd ⟨w₂, hold₂⟩ hnone
      · rfl

/-- The worker that has the packet hands it over. -/
theorem Held.handed (hi : Held h s) {w : W} {packet : ReliableData N T}
    (hw : s.data w = some (.handOver, packet)) (hdata : s'.data = Function.update s.data w none) :
    Held (h ++ [.handed packet]) s' := by
  have hhands := inHands_handed hdata
  have hin := inHands_handOver hw
  refine ⟨fun e => ?_, fun w' e request hin' hhanded => ?_, fun w₁ w₂ e request hin₁ hin₂ => ?_⟩
  · rw [handedTo_append, handedTo_singleton]
    split
    · next hdest =>
      subst hdest
      exact (hi.once _).append (List.nodup_singleton _)
        (List.disjoint_singleton.mpr (hi.apart w _ _ hin))
    · rw [List.append_nil]
      exact hi.once e
  · obtain ⟨hne, hold⟩ := (hhands w' e request).mp hin'
    rw [handedTo_append, List.mem_append, handedTo_singleton] at hhanded
    rcases hhanded with hhanded | hhanded
    · exact hi.apart w' e request hold hhanded
    · split at hhanded
      · next hdest =>
        subst hdest
        obtain rfl := List.mem_singleton.mp hhanded
        exact hne (hi.single w' w _ _ hold hin)
      · cases hhanded
  · exact hi.single w₁ w₂ e request ((hhands w₁ e request).mp hin₁).2 ((hhands w₂ e request).mp hin₂).2

theorem Held.step (hi : Held h s) (hok : NumberTells h s input) (hdid : Did s input s' events) :
    Held (h ++ events) s' := by
  rcases hdid.effect with ⟨hsame, -⟩ | ⟨w, now, o, packet, rfl, ht, rfl⟩ | ⟨w, packet, hh, rfl⟩
  · exact hsame.held hi
  · rw [List.append_nil]
    exact hi.taken ht.before ht.data fun hup =>
      ht.other ((hok packet (mem_comparing ht.before)).mp hup)
  · exact hi.handed hh.before hh.data

section AnyWriter

variable [LinkWriter] {conns : Connections N T}

theorem Held.atMostOnce (hi : Held h s) (hok : NumberTells h s input) :
    AtMostOnce conns h s input where
  once := (hi.step hok (did_step conns s input)).once
  fresh packet hmem := by
    have hdid := did_step conns s input
    revert hmem
    generalize ((machine conns).step s input).2 = events at hdid ⊢
    intro hmem
    cases hdid with
    | quiet _ _ hsilent => exact absurd rfl (hsilent _ hmem packet).2
    | dropped w now o packet' hinput hw hsame _ _ =>
      obtain rfl : packet = packet' := by simpa using hmem
      subst hinput
      exact (hok packet (mem_comparing hw)).mpr hsame
    | _ => simp at hmem

omit [DecidableEq W] [LinkWriter] in
theorem held_new (configured : Option Int) : Held [] (new configured : Link N T W) := by
  have hnone : ∀ w e request, ¬ InHands (new configured : Link N T W) w e request := by
    rintro w e request ⟨packet, hmem, -⟩
    cases hmem
  exact ⟨fun _ => List.nodup_nil, fun w e request hin => absurd hin (hnone w e request),
    fun w _ e request hin => absurd hin (hnone w e request)⟩

end AnyWriter

end Repetitions

/-- Two processes of one transport each, connected. -/
def pair : Connections Bool Unit := ⟨fun e => (!e.1, ()), fun e => by simp⟩

/-- The first packets of two requests. -/
def firstPacket : ReliableData Bool Unit := ⟨(true, ()), 0, 1, [1]⟩

def secondPacket : ReliableData Bool Unit := ⟨(true, ()), 1, 2, [2]⟩

/-- What an answer meets: a buffer, and room in the send queue. -/
def answered : SendOutcome := ⟨some (.ofSize 64), true, 0, 0⟩

/-- A worker takes the packet at this place and handles it to the end. -/
def handle (w : Bool) (place : Nat) : List (Input Bool Unit Bool) :=
  .arrive w place :: List.replicate 4 (.proceed w 0 answered)

/-- The packets of two requests arrive in order, the second one while the first is handled and then
once more. -/
def inTurn : List (Input Bool Unit Bool) :=
  [.inject (.reliableData firstPacket), .inject (.reliableData secondPacket), .arrive false 0,
    .proceed false 0 answered, .proceed false 0 answered, .arrive true 1] ++
  List.replicate 4 (.proceed true 0 answered) ++ List.replicate 2 (.proceed false 0 answered) ++
  [.arrive false 1, .proceed false 0 answered, .proceed false 0 answered]

/-- The packets of two requests in order, and then the first one once more. -/
def oldCopy : List (Input Bool Unit Bool) :=
  [.inject (.reliableData firstPacket), .inject (.reliableData secondPacket)] ++
    handle false 0 ++ handle false 1 ++ handle false 0

/-- Two workers compare copies of a packet before one of them stores its number. -/
def twoWorkers : List (Input Bool Unit Bool) :=
  [.inject (.reliableData firstPacket), .arrive false 0, .arrive true 0, .proceed false 0 answered] ++
    List.replicate 4 (.proceed true 0 answered) ++ List.replicate 3 (.proceed false 0 answered)

/-- A packet with the number that a new transport remembers. -/
def numberZero : List (Input Bool Unit Bool) :=
  [.inject (.reliableData ⟨(true, ()), 0, 0, [1]⟩), .arrive false 0, .proceed false 0 answered]

/-- Along a run in which every step meets it, nothing is handed over twice in all. -/
theorem nodup_of_along [DecidableEq N] [DecidableEq T] [DecidableEq W] {conns : Connections N T}
    {inputs : List (Input N T W)} {s : Link N T W}
    (hall : (machine conns).Along (AtMostOnce conns) [] s inputs) (e : Endpoint N T) :
    (handedTo ((machine conns).run s inputs).2 e).Nodup := by
  have := Machine.along_invariant (I := fun h _ => (handedTo h e).Nodup) (h := [])
    (fun _ _ _ _ hok => hok.once e) List.nodup_nil hall
  simpa using this

section InOrder

variable [DecidableEq N] [DecidableEq T] {h events : List (LinkEvent N T)} {s s' : Link N T W}
  {conns : Connections N T} {input : Input N T W}

/-- The counters are short of the end of what the wire carries. -/
def Short (s : Link N T W) : Prop := ∀ n, (s.processes n).currSequenceNum + 1 < 2 ^ 32

/-- The packet may be compared: no other worker is between comparison and store for the same
connection, and no packet of a later request of it was taken up. -/
structure InTurn (h : List (LinkEvent N T)) (s : Link N T W) (packet : ReliableData N T) : Prop where
  free : ∀ w, ∀ packet' ∈ s.storing w, packet'.dest ≠ packet.dest
  handed : ∀ earlier ∈ handedTo h packet.dest, earlier ≤ packet.request
  taken : ∀ w, ∀ packet' ∈ s.takenBy w, packet'.dest = packet.dest → packet'.request ≤ packet.request

instance [Fintype W] (h : List (LinkEvent N T)) (s : Link N T W) (packet : ReliableData N T) :
    Decidable (InTurn h s packet) :=
  decidable_of_iff ((∀ w, ∀ packet' ∈ s.storing w, packet'.dest ≠ packet.dest) ∧
      (∀ earlier ∈ handedTo h packet.dest, earlier ≤ packet.request) ∧
      ∀ w, ∀ packet' ∈ s.takenBy w, packet'.dest = packet.dest → packet'.request ≤ packet.request)
    ⟨fun ⟨h1, h2, h3⟩ => ⟨h1, h2, h3⟩, fun ⟨h1, h2, h3⟩ => ⟨h1, h2, h3⟩⟩

/-- All packets are of the transports of the model, and are compared in turn. -/
def InOrder (h : List (LinkEvent N T)) (s : Link N T W) : Input N T W → Prop
  | .inject _ => False
  | .proceed w _ _ => Short s ∧ ∀ packet ∈ s.comparing w, InTurn h s packet
  | _ => Short s

instance [Fintype N] [Fintype W] (h : List (LinkEvent N T)) (s : Link N T W) :
    ∀ input, Decidable (InOrder h s input)
  | .inject _ => isFalse id
  | .proceed w _ _ => inferInstanceAs (Decidable
      ((∀ n, (s.processes n).currSequenceNum + 1 < 2 ^ 32) ∧
        ∀ packet ∈ s.comparing w, InTurn h s packet))
  | .sendReliablePacket _ _ _ | .acknowledgeTransfer _ _ | .setPeerLocation _ _ _ | .retry _ _ _ _
  | .arrive _ _ =>
    inferInstanceAs (Decidable (∀ n, (s.processes n).currSequenceNum + 1 < 2 ^ 32))

theorem InOrder.short {s : Link N T W} {input : Input N T W} (hok : InOrder h s input) : Short s := by
  cases input with
  | inject _ => exact hok.elim
  | proceed _ _ _ => exact hok.1
  | _ => exact hok

theorem InTurn.le {s : Link N T W} {packet : ReliableData N T} (ht : InTurn h s packet) {earlier : Nat}
    (hup : TakenUp h s packet.dest earlier) : earlier ≤ packet.request := by
  rcases hup with hhanded | ⟨w, packet', hmem, hdest, rfl⟩
  · exact ht.handed earlier hhanded
  · exact ht.taken w packet' hmem hdest

/-- Nothing of `e` was taken up, or last the latest request, whose number it remembers. -/
def Remembers (h : List (LinkEvent N T)) (s : Link N T W) (e : Endpoint N T) : Prop :=
  ((s.transport e).recvSequenceNum = 0 ∧ ∀ request, ¬ TakenUp h s e request) ∨
    ∃ last, .reliableData last ∈ s.network ∧ last.dest = e ∧
      last.sequenceNum = (s.transport e).recvSequenceNum ∧ TakenUp h s e last.request ∧
      ∀ earlier, TakenUp h s e earlier → earlier ≤ last.request

/-- One worker is about to store the number of the latest request taken up. -/
def Stores (h : List (LinkEvent N T)) (s : Link N T W) (e : Endpoint N T) : Prop :=
  ∃ w, ∃ last ∈ s.storing w, last.dest = e ∧
    (∀ w', ∀ packet ∈ s.storing w', packet.dest = e → w' = w) ∧ TakenUp h s e last.request ∧
    ∀ earlier, TakenUp h s e earlier → earlier ≤ last.request

/-- What the numbers of `e` are good for. -/
def Known (h : List (LinkEvent N T)) (s : Link N T W) (e : Endpoint N T) : Prop :=
  Stores h s e ∨ (∀ w, ∀ packet ∈ s.storing w, packet.dest ≠ e) ∧ Remembers h s e

/-- The numbers of a connection's packets grow with their requests. -/
structure Numbered (conns : Connections N T) (h : List (LinkEvent N T)) (s : Link N T W) : Prop where
  held : Held h s
  received : ∀ w stage packet, s.data w = some (stage, packet) → .reliableData packet ∈ s.network
  bound : ∀ packet, .reliableData packet ∈ s.network → 0 < packet.sequenceNum ∧
    packet.sequenceNum ≤ (s.processes (conns.peer packet.dest).1).currSequenceNum ∧
    packet.request < s.nextRequest
  grow : ∀ packet packet', .reliableData packet ∈ s.network → .reliableData packet' ∈ s.network →
    packet.dest = packet'.dest →
      (packet.request < packet'.request → packet.sequenceNum < packet'.sequenceNum) ∧
      (packet.request = packet'.request → packet.sequenceNum = packet'.sequenceNum)
  known : ∀ e, Known h s e

theorem Numbered.numberTells (hi : Numbered conns h s) (hok : InOrder h s input) :
    NumberTells h s input := by
  cases input with
  | proceed w now o =>
    intro packet hmem
    have hturn := hok.2 packet hmem
    obtain ⟨stage, hw, -⟩ := mem_packetIn hmem
    have hnet := hi.received w stage packet hw
    rcases hi.known packet.dest with ⟨w', last, hstore, hdest, -⟩ | ⟨-, hrem⟩
    · exact absurd hdest (hturn.free w' last hstore)
    rcases hrem with ⟨hzero, hnone⟩ | ⟨last, hlast, hdest, hnumber, htaken, hle⟩
    · have hpos := (hi.bound packet hnet).1
      refine iff_of_false (hnone _) ?_
      omega
    · have hgrow := hi.grow last packet hlast hnet hdest
      have hbefore := hturn.le htaken
      rw [← hnumber]
      refine ⟨fun hup => hgrow.2 (Nat.le_antisymm hbefore (hle _ hup)), fun heq => ?_⟩
      rcases Nat.lt_or_eq_of_le hbefore with hlt | hsame
      · have := hgrow.1 hlt
        omega
      · rwa [← hsame]
  | _ => trivial

/-- The reliable packets in the network are the same. -/
structure SameNet (s s' : Link N T W) : Prop where
  network : ∀ packet, .reliableData packet ∈ s'.network ↔ .reliableData packet ∈ s.network
  nextRequest : s'.nextRequest = s.nextRequest
  counter : ∀ n, (s.processes n).currSequenceNum + 1 < 2 ^ 64 →
    (s.processes n).currSequenceNum ≤ (s'.processes n).currSequenceNum

/-- A request of `e` was accepted. -/
structure Sent (conns : Connections N T) (e : Endpoint N T) (s s' : Link N T W) (n : Nat)
    (data : List UInt8) : Prop where
  network : ∀ packet, .reliableData packet ∈ s'.network ↔ .reliableData packet ∈ s.network ∨
    packet = ⟨conns.peer e, s.nextRequest, n, data⟩
  nextRequest : s'.nextRequest = s.nextRequest + 1
  counter : ∀ n', (s.processes n').currSequenceNum + 1 < 2 ^ 64 →
    (s.processes n').currSequenceNum ≤ (s'.processes n').currSequenceNum
  number : (s.processes e.1).currSequenceNum + 1 < 2 ^ 32 →
    n = (s.processes e.1).currSequenceNum + 1 ∧
    (s'.processes e.1).currSequenceNum = (s.processes e.1).currSequenceNum + 1

omit [DecidableEq N] [DecidableEq T] in
theorem SameNet.of_eq (hnet : ∀ packet, .reliableData packet ∈ s'.network ↔
      .reliableData packet ∈ s.network) (hnext : s'.nextRequest = s.nextRequest)
    (hprocess : s'.processes = s.processes) : SameNet s s' :=
  ⟨hnet, hnext, fun n _ => by rw [hprocess]⟩

omit [DecidableEq T] in
theorem SameNet.setProcess {n : N} {p : Process T}
    (hp : p.currSequenceNum = (s.processes n).currSequenceNum) : SameNet s (s.setProcess n p) :=
  ⟨fun _ => Iff.rfl, rfl, fun n' _ => setProcess_counter (Nat.le_of_eq hp.symm) n'⟩

variable [DecidableEq W]

omit [DecidableEq N] [DecidableEq T] in
theorem SameNet.setWorker (hs : SameNet s s') (w : W) (handling : Option (Handling N T)) :
    SameNet s (s'.setWorker w handling) := ⟨hs.network, hs.nextRequest, hs.counter⟩

omit [DecidableEq N] [DecidableEq T] [DecidableEq W] in
theorem SameNet.refl (s : Link N T W) : SameNet s s := .of_eq (fun _ => Iff.rfl) rfl rfl

theorem sameNet_handleAck (s : Link N T W) (w : W) (e : Endpoint N T) (ackOf now : Nat)
    (stage : AckStage) : SameNet s (s.handleAck w e ackOf now stage).1 := by
  cases stage with
  | checkPending =>
    simp only [handleAck]
    split <;> exact (SameNet.refl s).setWorker _ _
  | readRequestId => exact (SameNet.refl s).setWorker _ _
  | complete requestId =>
    refine SameNet.setWorker (SameNet.setProcess ?_) _ _
    rfl
  | tell requestId =>
    refine SameNet.setWorker (SameNet.setProcess ?_) _ _
    rfl

variable [LinkWriter]

omit [DecidableEq N] [DecidableEq T] [DecidableEq W] in
theorem sameNet_sendDataAck (s : Link N T W) (packet : ReliableData N T) (o : SendOutcome) :
    SameNet s (s.sendDataAck conns packet o) := by
  unfold sendDataAck
  split
  · exact .of_eq (fun _ => by simp) rfl rfl
  · exact .refl s

theorem sameNet_handleData (s : Link N T W) (w : W) (packet : ReliableData N T) (o : SendOutcome)
    (stage : DataStage) : SameNet s (s.handleData conns w packet o stage).1 := by
  cases stage with
  | compare =>
    simp only [handleData]
    split <;> exact (SameNet.refl s).setWorker _ _
  | repeated => exact (sameNet_sendDataAck s packet o).setWorker _ _
  | store =>
    refine SameNet.setWorker (SameNet.setProcess ?_) _ _
    rfl
  | acknowledge => exact (sameNet_sendDataAck s packet o).setWorker _ _
  | handOver => exact (SameNet.refl s).setWorker _ _

variable (conns) in
omit [DecidableEq W] in
theorem send_cases (s : Link N T W) (e : Endpoint N T) (data : List UInt8) (o : SendOutcome) :
    SameNet s (s.send conns e data o).1 ∨ ∃ n, Sent conns e s (s.send conns e data o).1 n data := by
  have hcounter := (s.processes e.1).sendReliablePacket_counter e.2 data o
  have hmono : ∀ n, (s.processes n).currSequenceNum + 1 < 2 ^ 64 →
      (s.processes n).currSequenceNum ≤ ((s.setProcess e.1 ((s.processes e.1).sendReliablePacket e.2
        data o).2.1).processes n).currSequenceNum := by
    intro n hbound
    by_cases hn : n = e.1
    · subst hn
      exact setProcess_counter (hcounter hbound).1 _
    · exact Nat.le_of_eq (by rw [setProcess_other _ hn])
  unfold send
  dsimp only
  split
  · exact .inl ⟨fun _ => Iff.rfl, rfl, hmono⟩
  · next hstatus =>
    rw [Bool.not_eq_false] at hstatus
    refine .inr ⟨((s.processes e.1).nextPacket e.2 data).sequenceNum % 2 ^ 32,
      fun packet => by simp [setProcess], rfl, hmono, fun hbound => ⟨?_, ?_⟩⟩
    · show (((s.processes e.1).currSequenceNum + 1) % 2 ^ 64) % 2 ^ 32 = _
      omega
    · have hnumber := (hcounter (Nat.lt_trans hbound (by decide))).2 hstatus
      simpa using hnumber

variable (conns) in
theorem net_cases (s : Link N T W) (hown : ∀ packet, input ≠ .inject packet) :
    SameNet s ((machine conns).step s input).1 ∨
      ∃ e n data, Sent conns e s ((machine conns).step s input).1 n data := by
  cases input with
  | sendReliablePacket e data o =>
    rcases send_cases conns s e data o with hsame | ⟨n, hsent⟩
    · exact .inl hsame
    · exact .inr ⟨e, n, data, hsent⟩
  | acknowledgeTransfer e now =>
    exact .inl (.setProcess ((s.processes e.1).acknowledgeTransfer_same e.2 now).counter)
  | setPeerLocation e ipAddress port =>
    exact .inl (.setProcess ((s.processes e.1).setPeerLocation_same e.2 _ _).counter)
  | retry n now entry draw =>
    exact .inl (.setProcess ((s.processes n).retry_same now entry draw).counter)
  | inject packet => exact absurd rfl (hown packet)
  | arrive w place =>
    simp only [machine]
    split
    · exact .inl ((SameNet.refl s).setWorker _ _)
    · exact .inl (.refl s)
  | proceed w now o =>
    simp only [machine]
    split
    · exact .inl (.refl s)
    · exact .inl (sameNet_handleData s w _ o _)
    · exact .inl (sameNet_handleAck s w _ _ now _)

section Steps

omit [LinkWriter]

theorem takenUp_taken {w : W} {packet : ReliableData N T} (ht : Takes s s' w packet)
    (e : Endpoint N T) (request : Nat) :
    TakenUp h s' e request ↔
      TakenUp h s e request ∨ (packet.dest = e ∧ packet.request = request) := by
  have hhands := inHands_taken ht.before ht.data
  unfold TakenUp
  simp only [hhands, exists_or, exists_eq_left, or_assoc]

theorem takenUp_handed {w : W} {packet : ReliableData N T} (hh : HandsOver s s' w packet)
    (e : Endpoint N T) (request : Nat) :
    TakenUp (h ++ [.handed packet]) s' e request ↔ TakenUp h s e request := by
  have hhands := inHands_handed hh.data
  unfold TakenUp
  rw [handedTo_append, List.mem_append, or_assoc]
  refine or_congr_right ⟨?_, ?_⟩
  · rintro (hmem | ⟨w', hin⟩)
    · rw [handedTo_singleton] at hmem
      split at hmem
      · next hdest =>
        subst hdest
        obtain rfl := List.mem_singleton.mp hmem
        exact ⟨w, inHands_handOver hh.before⟩
      · cases hmem
    · exact ⟨w', ((hhands w' e request).mp hin).2⟩
  · rintro ⟨w', hin⟩
    by_cases hw : w' = w
    · subst hw
      obtain ⟨packet', hmem, rfl, rfl⟩ := hin
      rw [takenBy, packetIn_some hh.before] at hmem
      cases hmem
      exact .inl (by simp [handedTo_singleton])
    · exact .inr ⟨w', (hhands w' e request).mpr ⟨hw, hin⟩⟩

omit [DecidableEq N] [DecidableEq T] in
theorem storing_update {w : W} {after : Option (DataStage × ReliableData N T)}
    (hdata : s'.data = Function.update s.data w after) {w' : W} (hne : w' ≠ w) :
    s'.storing w' = s.storing w' := by
  rw [storing, storing, packetIn, packetIn, hdata, Function.update_of_ne hne]

omit [DecidableEq W] in
/-- What concerns the connection is the same. -/
theorem Known.congr {h' : List (LinkEvent N T)} {e : Endpoint N T} (hk : Known h s e)
    (hstores : ∀ w packet, packet.dest = e → (packet ∈ s'.storing w ↔ packet ∈ s.storing w))
    (hrecv : (s'.transport e).recvSequenceNum = (s.transport e).recvSequenceNum)
    (hup : ∀ request, TakenUp h' s' e request ↔ TakenUp h s e request)
    (hnet : ∀ packet, .reliableData packet ∈ s.network → .reliableData packet ∈ s'.network) :
    Known h' s' e := by
  rcases hk with ⟨w, last, hlast, hdest, hone, hrest⟩ | ⟨hfree, hrem⟩
  · refine .inl ⟨w, last, (hstores w last hdest).mpr hlast, hdest, fun w' packet hmem heq =>
      hone w' packet ((hstores w' packet heq).mp hmem) heq, ?_⟩
    simpa only [hup] using hrest
  · refine .inr ⟨fun w packet hmem heq => hfree w packet ((hstores w packet heq).mp hmem) heq, ?_⟩
    unfold Remembers
    simp only [hrecv, hup]
    exact hrem.imp_right fun ⟨last, hmem, hlast⟩ => ⟨last, hnet last hmem, hlast⟩

omit [DecidableEq N] [DecidableEq T] in
/-- One worker goes on with a packet of another connection. -/
theorem storing_other {w : W} {stage : DataStage} {packet : ReliableData N T} {e : Endpoint N T}
    {after : Option (DataStage × ReliableData N T)} (hw : s.data w = some (stage, packet))
    (hdata : s'.data = Function.update s.data w after)
    (hafter : ∀ stage' packet', after = some (stage', packet') → packet' = packet)
    (hdest : packet.dest ≠ e) (w' : W) (packet' : ReliableData N T) (heq : packet'.dest = e) :
    packet' ∈ s'.storing w' ↔ packet' ∈ s.storing w' := by
  by_cases hw' : w' = w
  · subst hw'
    have hself : s'.data w' = after := by rw [hdata, Function.update_self]
    refine iff_of_false (fun hmem => ?_) fun hmem => ?_
    · obtain ⟨stage', hin, -⟩ := mem_packetIn hmem
      rw [hself] at hin
      exact hdest (hafter stage' packet' hin ▸ heq)
    · obtain ⟨stage', hin, -⟩ := mem_packetIn hmem
      rw [hw] at hin
      cases hin
      exact hdest heq
  · rw [storing_update hdata hw']

/-- The number of the packet is stored. -/
theorem Known.stored {w : W} {packet : ReliableData N T} (hk : Known h s packet.dest)
    (hst : Stored s s' w packet)
    (hup : ∀ request, TakenUp (h ++ events) s' packet.dest request ↔ TakenUp h s packet.dest request)
    (hmem : .reliableData packet ∈ s'.network) : Known (h ++ events) s' packet.dest := by
  have hpacket : packet ∈ s.storing w := packetIn_some hst.before _
  rcases hk with ⟨w₀, last, hlast, -, hone, hlastUp, hle⟩ | ⟨hfree, -⟩
  · -- the only worker that was about to store a number has done so
    obtain rfl := hone w packet hpacket rfl
    obtain rfl : packet = last := Option.some.inj (hpacket.symm.trans hlast)
    refine .inr ⟨fun w' packet' hin heq => ?_, .inr ⟨packet, hmem, rfl, ?_, (hup _).mpr hlastUp,
      fun earlier hearlier => hle earlier ((hup _).mp hearlier)⟩⟩
    · by_cases hw : w' = w
      · rw [hw, storing, packetIn_some (hst.data ▸ Function.update_self w _ s.data)] at hin
        cases hin
      · rw [storing_update hst.data hw] at hin
        exact hw (hone w' packet' hin heq)
    · rw [hst.received, if_pos rfl]
  · exact absurd rfl (hfree w packet hpacket)

/-- A packet that no other worker precedes is found to be new. -/
theorem Known.taken {w : W} {packet : ReliableData N T} (ht : Takes s s' w packet)
    (hfree : ∀ w', ∀ packet' ∈ s.storing w', packet'.dest ≠ packet.dest)
    (hle : ∀ earlier, TakenUp h s packet.dest earlier → earlier ≤ packet.request) :
    Known h s' packet.dest := by
  have hup := takenUp_taken (h := h) ht packet.dest
  refine .inl ⟨w, packet, ?_, rfl, fun w' packet' hmem heq => ?_, (hup _).mpr (.inr ⟨rfl, rfl⟩),
    fun earlier hearlier => ?_⟩
  · rw [storing, packetIn_some (ht.data ▸ Function.update_self w _ s.data)]
    rfl
  · by_contra hw
    rw [storing_update ht.data hw] at hmem
    exact hfree w' packet' hmem heq
  · rcases (hup earlier).mp hearlier with hold | ⟨-, rfl⟩
    · exact hle earlier hold
    · exact Nat.le_refl _

theorem Numbered.known_step (hi : Numbered conns h s) (hok : InOrder h s input)
    (hdid : Did s input s' events)
    (hnet : ∀ packet, .reliableData packet ∈ s.network → .reliableData packet ∈ s'.network)
    (e : Endpoint N T) : Known (h ++ events) s' e := by
  have hk := hi.known e
  rcases hdid.effect with ⟨hsame, hstores | ⟨w, packet, hst⟩⟩ |
    ⟨w, now, o, packet, rfl, ht, rfl⟩ | ⟨w, packet, hh, rfl⟩
  · exact hk.congr (fun w _ _ => by rw [hstores.stores]) (hstores.received e) (hsame.takenUp e) hnet
  · by_cases hdest : packet.dest = e
    · subst hdest
      exact hk.stored hst (hsame.takenUp _) (hnet packet (hi.received w _ packet hst.before))
    · refine hk.congr (storing_other hst.before hst.data ?_ hdest) ?_ (hsame.takenUp e) hnet
      · rintro stage' packet' heq
        cases heq
        rfl
      · rw [hst.received, if_neg fun heq => hdest heq.symm]
  · have hturn := hok.2 packet (mem_comparing ht.before)
    rw [List.append_nil]
    by_cases hdest : packet.dest = e
    · subst hdest
      exact .taken ht hturn.free fun _ => hturn.le
    · refine hk.congr (storing_other ht.before ht.data ?_ hdest) (ht.received e)
        (fun request => ?_) hnet
      · rintro stage' packet' heq
        cases heq
        rfl
      · rw [takenUp_taken ht, or_iff_left fun hboth => hdest hboth.1]
  · refine hk.congr (fun w' packet' _ => ?_) (hh.received e) (takenUp_handed hh e) hnet
    have hself : s'.packetIn (· == .store) w = s.packetIn (· == .store) w := by
      rw [packetIn_none (hh.data ▸ Function.update_self w _ s.data), packetIn_some hh.before]
      rfl
    rw [storing, packetIn_update hh.data hself w', storing]

omit [DecidableEq W] in
/-- A worker has a packet in hands that was in the network. -/
theorem Did.received [DecidableEq W] (hdid : Did s input s' events) {w : W} {stage : DataStage}
    {packet : ReliableData N T} (hw : s'.data w = some (stage, packet)) :
    (∃ stage', s.data w = some (stage', packet)) ∨ .reliableData packet ∈ s.network := by
  have hupdate : ∀ {w₀ : W} {after : Option (DataStage × ReliableData N T)},
      s'.data = Function.update s.data w₀ after →
      s.data w = some (stage, packet) ∨ w = w₀ ∧ after = some (stage, packet) := by
    intro w₀ after hdata
    rw [hdata] at hw
    by_cases heq : w = w₀
    · subst heq
      rw [Function.update_self] at hw
      exact .inr ⟨rfl, hw⟩
    · rw [Function.update_of_ne heq] at hw
      exact .inl hw
  cases hdid with
  | quiet hdata _ _ => exact .inl ⟨stage, hdata ▸ hw⟩
  | moved w₀ stage₀ packet₀ after hw₀ hdata hafter _ =>
    rcases hupdate hdata with hold | ⟨rfl, heq⟩
    · exact .inl ⟨stage, hold⟩
    · rcases hafter with ⟨-, rfl⟩ | ⟨-, rfl⟩
      · cases heq
      · cases heq
        exact .inl ⟨_, hw₀⟩
  | arrived w₀ packet₀ _ hmem hdata _ =>
    rcases hupdate hdata with hold | ⟨rfl, heq⟩
    · exact .inl ⟨stage, hold⟩
    · cases heq
      exact .inr hmem
  | dropped w₀ _ _ packet₀ _ hw₀ _ hdata _ | taken w₀ _ _ packet₀ _ hw₀ _ hdata _
  | stored w₀ packet₀ hw₀ hdata _ =>
    rcases hupdate hdata with hold | ⟨rfl, heq⟩
    · exact .inl ⟨stage, hold⟩
    · cases heq
      exact .inl ⟨_, hw₀⟩
  | handed w₀ packet₀ hw₀ hdata _ =>
    rcases hupdate hdata with hold | ⟨rfl, heq⟩
    · exact .inl ⟨stage, hold⟩
    · cases heq

end Steps

omit [DecidableEq W] [LinkWriter] in
theorem Numbered.same (hi : Numbered conns h s) (hshort : Short s) (hs : SameNet s s')
    (hheld : Held (h ++ events) s')
    (hreceived : ∀ w stage packet, s'.data w = some (stage, packet) →
      .reliableData packet ∈ s'.network)
    (hknown : ∀ e, Known (h ++ events) s' e) : Numbered conns (h ++ events) s' where
  held := hheld
  received := hreceived
  bound packet hmem := by
    obtain ⟨hpos, hle, hlt⟩ := hi.bound packet ((hs.network packet).mp hmem)
    have hcounter := hs.counter (conns.peer packet.dest).1 (Nat.lt_trans (hshort _) (by decide))
    exact ⟨hpos, Nat.le_trans hle hcounter, hs.nextRequest ▸ hlt⟩
  grow packet packet' hmem hmem' :=
    hi.grow packet packet' ((hs.network packet).mp hmem) ((hs.network packet').mp hmem')
  known := hknown

omit [DecidableEq W] [LinkWriter] in
theorem Numbered.sent (hi : Numbered conns h s) (hshort : Short s) {e : Endpoint N T} {n : Nat}
    {data : List UInt8} (hs : Sent conns e s s' n data) (hheld : Held (h ++ events) s')
    (hreceived : ∀ w stage packet, s'.data w = some (stage, packet) →
      .reliableData packet ∈ s'.network)
    (hknown : ∀ e, Known (h ++ events) s' e) : Numbered conns (h ++ events) s' := by
  obtain ⟨hn, hcounter⟩ := hs.number (hshort e.1)
  have hpeer := conns.peer_peer e
  have hnext := hs.nextRequest
  refine ⟨hheld, hreceived, fun packet hmem => ?_, fun packet packet' hmem hmem' hdest => ?_, hknown⟩
  · rcases (hs.network packet).mp hmem with hold | rfl
    · obtain ⟨hpos, hle, hlt⟩ := hi.bound packet hold
      have hgrown := hs.counter (conns.peer packet.dest).1 (Nat.lt_trans (hshort _) (by decide))
      exact ⟨hpos, Nat.le_trans hle hgrown, by omega⟩
    · dsimp only
      refine ⟨by omega, ?_, by omega⟩
      rw [hpeer]
      omega
  · rcases (hs.network packet).mp hmem with hold | rfl
    · have hbound := hi.bound packet hold
      rcases (hs.network packet').mp hmem' with hold' | rfl
      · exact hi.grow packet packet' hold hold' hdest
      · -- the new packet has the number after all others of its sender
        rw [hdest, hpeer] at hbound
        dsimp only
        omega
    · rcases (hs.network packet').mp hmem' with hold' | rfl
      · have hbound := hi.bound packet' hold'
        dsimp only
        omega
      · exact ⟨fun hlt => absurd hlt (Nat.lt_irrefl _), fun _ => rfl⟩

theorem Numbered.step (hi : Numbered conns h s) (hok : InOrder h s input) :
    Numbered conns (h ++ ((machine conns).step s input).2) ((machine conns).step s input).1 := by
  have hdid := did_step conns s input
  have hown : ∀ packet, input ≠ .inject packet := by
    rintro packet rfl
    exact hok
  have hcases := net_cases conns s hown
  have hnet : ∀ packet, .reliableData packet ∈ s.network →
      .reliableData packet ∈ ((machine conns).step s input).1.network := by
    intro packet hmem
    rcases hcases with hsame | ⟨e, n, data, hsent⟩
    · exact (hsame.network packet).mpr hmem
    · exact (hsent.network packet).mpr (.inl hmem)
  have hheld := hi.held.step (hi.numberTells hok) hdid
  have hreceived : ∀ w stage packet, ((machine conns).step s input).1.data w = some (stage, packet) →
      .reliableData packet ∈ ((machine conns).step s input).1.network := by
    intro w stage packet hw
    rcases hdid.received hw with ⟨stage', hold⟩ | hmem
    · exact hnet packet (hi.received w stage' packet hold)
    · exact hnet packet hmem
  have hknown := hi.known_step hok hdid hnet
  rcases hcases with hsame | ⟨e, n, data, hsent⟩
  · exact hi.same hok.short hsame hheld hreceived hknown
  · exact hi.sent hok.short hsent hheld hreceived hknown

end InOrder

/-- A writer that writes every packet. -/
abbrev writesAll : LinkWriter := ⟨fun _ linkBuffer => (true, linkBuffer)⟩

/-- A request arrives and is acknowledged, then the next one, with an old copy of the first before
it. -/
def acknowledged : List (Input Bool Unit Bool) :=
  .setPeerLocation (false, ()) 2 80 :: .setPeerLocation (true, ()) 1 80 ::
    .sendReliablePacket (false, ()) [1] answered :: handle false 0 ++ handle true 1 ++
    .sendReliablePacket (false, ()) [2] answered :: handle true 0 ++ handle false 2

end Alpine.Link
