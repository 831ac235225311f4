import Alpine.Dtcp.SharedMux

/-!
# What becomes of handshakes and attempts

`BookKept` says of a step what the multiplexor is asked to keep of its pending acknowledgements, and
`OneOutcome` what it owes an attempt. As no packet of the multiplexor goes out, nothing is ever
pending: the threads stay in front of their sends (`Unsent`), and neither can go wrong.
-/

namespace Alpine

open Lib

/-- A handshake packet of that type to that address. -/
structure PendingRecord.IsHandshake {T : Type} (request : PendingRecord T) (msgType : PacketType)
    (netId : Nat) : Prop where
  requestor : request.requestor = none
  data : ∃ packet : ConnPacket, packet.packetType = msgType ∧ request.data = packet.datagram
  address : ipPortToNetId request.destIpAddress request.destPort = netId

namespace SharedEvent

variable {T C : Type}

def frees (record : Nat) : SharedEvent T C → Bool
  | freed record' => record' == record
  | _ => false

/-- The attempt that has its outcome. -/
def outcome : SharedEvent T C → Option Nat
  | received attempt _ _ | requestFailed attempt => some attempt
  | _ => none

/-- The event is of no packet that went out. -/
def Plain : SharedEvent T C → Prop
  | returned _ _ | nullTransport => True
  | _ => False

theorem Plain.outcome {event : SharedEvent T C} (h : event.Plain) : event.outcome = none := by
  cases event <;> first | rfl | exact h.elim

theorem Plain.frees {event : SharedEvent T C} (h : event.Plain) (record : Nat) :
    event.frees record = false := by
  cases event <;> first | rfl | exact h.elim

end SharedEvent

namespace SharedMux

variable {T C : Type}

/-! ## The pending acknowledgements -/

/-- What answers for a packet of the handshake. -/
inductive Referrer where
  | entry (netId : Nat)
  | thread (thread : Nat)
  deriving DecidableEq, Repr

/-- An entry whose record has the request's id; a thread that is about to index the request; one
that has taken its record out of the index. -/
def Refers (s : SharedMux T C) (requestId : Nat) : Referrer → Prop
  | .entry netId => ∃ record ackRecord, s.pendingAckIndex.find netId = some record ∧
      s.ackRecords.get record = some ackRecord ∧ ackRecord.requestId = requestId
  | .thread thread =>
    (∃ errand netId, s.threads.find thread = some (.index errand netId requestId)) ∨
    ∃ record goal ackRecord, s.threads.find thread = some (.complete record goal) ∧
      s.ackRecords.get record = some ackRecord ∧ ackRecord.requestId = requestId

/-- What is asked of the pending acknowledgements after the events `h` and a step to `s` with
`events`. -/
structure BookKept (h : List (SharedEvent T C)) (s : SharedMux T C) (events : List (SharedEvent T C)) :
    Prop where
  /-- An entry refers to a packet of its own type to its own address. -/
  entry : ∀ netId record, s.pendingAckIndex.find netId = some record →
    ∃ ackRecord request, s.ackRecords.get record = some ackRecord ∧ ackRecord.netId = netId ∧
      s.ackMap.recordIndex.find ackRecord.requestId = some request ∧
      request.IsHandshake ackRecord.msgType netId
  /-- A packet of the multiplexor is referred to exactly once. -/
  referred : ∀ requestId request, s.ackMap.recordIndex.find requestId = some request →
    request.requestor = none → ∃! r, s.Refers requestId r
  freedOnce : ∀ record, (h ++ events).countP (SharedEvent.frees record) ≤ 1
  unlinkedOnce : ∀ netId, .unlinkedTwice netId ∉ events
  notAfterFree : ∀ record, .usedAfterFree record ∉ events
  /-- No record is used without the lock. -/
  locked : ∀ record, .usedUnlocked record ∉ events

/-! ## The attempts -/

/-- The attempts that have had an outcome. -/
def outcomes (h : List (SharedEvent T C)) : List Nat := h.filterMap SharedEvent.outcome

/-- An accept of the attempt was sent to the address, and the attempt has had no outcome. -/
def Awaited (h : List (SharedEvent T C)) (attempt netId : Nat) : Prop :=
  .acceptSent attempt netId ∈ h ∧ attempt ∉ outcomes h

def Pending (s : SharedMux T C) (netId attempt : Nat) : Prop :=
  ∃ record, s.pendingTransportIndex.find netId = some (attempt, record)

/-- A thread gets an acknowledgement from the address, or looks for the transport of one. -/
def Acknowledges (s : SharedMux T C) (netId : Nat) : Input T C → Prop
  | .packet thread request =>
    s.threads.find thread = none ∧ request.packetType = .ack ∧ request.id = netId
  | .proceed thread _ => s.threads.find thread = some (.findTransport netId)
  | _ => False

/-- The timer finds that a packet has had its retries. -/
def Exhausts (s : SharedMux T C) (requestId : Nat) : Input T C → Prop
  | .retry _ entry _ => entry.id = requestId ∧ ∃ request ∈ s.ackMap.recordIndex.find requestId,
    request.nextRetryTime = entry.nextRetryTime ∧ s.ackMap.maxRetries ≤ request.retryCount
  | _ => False

/-- What the step on `input`, which makes `events`, owes the attempts after the events `h`. -/
structure OneOutcome (h : List (SharedEvent T C)) (s : SharedMux T C) (input : Input T C)
    (events : List (SharedEvent T C)) : Prop where
  /-- No attempt has two outcomes. -/
  once : (outcomes (h ++ events)).Nodup
  /-- The connector is told when the retries of its request or its accept are exhausted. -/
  told : ∀ requestId attempt, s.Exhausts requestId input →
    s.sentFor.find requestId = some attempt → .requestFailed attempt ∈ events
  /-- The acknowledgement of an accept finds the pending transport. -/
  found : ∀ netId attempt, s.Acknowledges netId input → Awaited h attempt netId →
    s.Pending netId attempt

/-! ## Nothing goes out -/

end SharedMux

/-- The thread has sent nothing and found nothing that was sent. -/
def Position.Unsent {T C : Type} : Position T C → Prop
  | requestEntry _ _ _ _ | checkPending _ | acceptConnection _ | acceptEntry _ _ _ _ | send _
  | acceptAckRetry _ => True
  | _ => False

namespace SharedMux

variable {T C : Type}

structure Unsent (s : SharedMux T C) : Prop where
  index : s.pendingAckIndex = ∅
  table : s.ackMap.recordIndex = ∅
  transports : s.pendingTransportIndex = ∅
  threads : ∀ thread position, s.threads.find thread = some position → position.Unsent

/-- The step leaves everything unsent. -/
structure Stays (r : Result T C) : Prop where
  unsent : Unsent r.1
  plain : ∀ event ∈ r.2, event.Plain

variable {s : SharedMux T C} {thread : Nat}

theorem unsent_new (now : Nat) (configured : Option Int) :
    Unsent (new now configured : SharedMux T C) where
  index := rfl
  table := rfl
  transports := rfl
  threads _ _ h := by cases h

theorem Unsent.of_same (hi : Unsent s) {m : SharedMux T C}
    (hindex : m.pendingAckIndex = s.pendingAckIndex := by rfl)
    (htable : m.ackMap = s.ackMap := by rfl)
    (htransports : m.pendingTransportIndex = s.pendingTransportIndex := by rfl)
    (hthreads : m.threads = s.threads := by rfl) : Unsent m where
  index := hindex ▸ hi.index
  table := htable ▸ hi.table
  transports := htransports ▸ hi.transports
  threads := hthreads ▸ hi.threads

theorem Unsent.quiet (hi : Unsent s) : Stays (s, []) := ⟨hi, by simp⟩

theorem Unsent.goTo (hi : Unsent s) {position : Position T C} (hp : position.Unsent) :
    Stays (s.goTo thread position, []) := by
  refine ⟨⟨hi.index, hi.table, hi.transports, fun thread' position' hfind => ?_⟩, by simp⟩
  rw [SharedMux.goTo, UMap.find_assign] at hfind
  split at hfind
  · cases hfind
    exact hp
  · exact hi.threads thread' position' hfind

theorem Unsent.leave (hi : Unsent s) {events : List (SharedEvent T C)}
    (hplain : ∀ event ∈ events, event.Plain) : Stays (s.leave thread, events) := by
  refine ⟨⟨hi.index, hi.table, hi.transports, fun thread' position' hfind => ?_⟩, hplain⟩
  rw [SharedMux.leave, UMap.find_erase] at hfind
  split at hfind
  · cases hfind
  · exact hi.threads thread' position' hfind

theorem Unsent.finish (hi : Unsent s) (status : Bool) : Stays (s.finish thread status) :=
  hi.leave (by simp [SharedEvent.Plain])

theorem Unsent.lookUp (hi : Unsent s) (request : IncomingMessage) :
    Stays (s.lookUp thread request) := by
  unfold SharedMux.lookUp
  rw [hi.index, UMap.find_empty]
  dsimp only
  split
  · exact hi.goTo trivial
  · exact hi.finish true

section Handlers

variable [DecidableEq T]

theorem Unsent.sendReliablePacket (hi : Unsent s) (errand : Errand T C) (answers : StepAnswers T) :
    Stays (s.sendReliablePacket thread errand answers) := by
  unfold SharedMux.sendReliablePacket
  dsimp only
  rw [if_pos (SendOutcome.sent_eq_false _ _)]
  exact hi.finish false

omit [DecidableEq T] in
theorem Unsent.acceptConnection (hi : Unsent s) (request : IncomingMessage) (accepted : Bool) :
    Stays (s.acceptConnection thread request accepted) := by
  unfold SharedMux.acceptConnection
  split
  · exact hi.finish false
  split
  · exact hi.finish true
  split
  · exact hi.finish false
  · exact Unsent.goTo hi.of_same (by trivial)

theorem Unsent.checkAcceptAckRetry (hi : Unsent s) (request : IncomingMessage) (send : SendOutcome) :
    Stays (s.checkAcceptAckRetry thread request send) := by
  unfold SharedMux.checkAcceptAckRetry
  split
  · exact hi.finish false
  split
  · exact hi.finish true
  · exact hi.leave (by simp [SharedEvent.Plain])
  · exact hi.finish _

/-- A thread in front of its send is there after its next section too, or it has returned. -/
theorem Unsent.proceed (hi : Unsent s) (answers : StepAnswers T) {position : Position T C}
    (hp : position.Unsent) : Stays (s.proceed thread answers position) := by
  cases position with
  | requestEntry attempt peerId requestor transport =>
    exact Unsent.goTo hi.of_same (by trivial)
  | checkPending request =>
    unfold SharedMux.proceed
    dsimp only
    rw [hi.index, UMap.find_empty, if_neg (by simp)]
    exact hi.goTo trivial
  | acceptConnection request => exact hi.acceptConnection request answers.accepted
  | acceptEntry peerId myId ipAddress port =>
    exact Unsent.goTo hi.of_same (by trivial)
  | send errand => exact hi.sendReliablePacket errand answers
  | acceptAckRetry request => exact hi.checkAcceptAckRetry request answers.send
  | _ => exact hp.elim

theorem Unsent.requestTransport (hi : Unsent s) (requestor : C) (transport : T)
    (ipAddress port : Nat) : Stays (s.requestTransport thread requestor transport ipAddress port) := by
  unfold SharedMux.requestTransport
  split
  · exact hi.finish false
  · exact Unsent.goTo hi.of_same (by trivial)

omit [DecidableEq T] in
theorem Unsent.processPacket (hi : Unsent s) (request : IncomingMessage) :
    Stays (s.processPacket thread request) := by
  unfold SharedMux.processPacket
  cases request.packetType with
  | connRequest =>
    dsimp only
    split
    · exact hi.finish true
    · exact hi.goTo trivial
  | connOffer | connAccept | ack => exact hi.lookUp request
  | connData | connReliableData | connDataAck =>
    dsimp only
    split
    · exact hi.finish false
    · exact ⟨hi, by simp [SharedEvent.Plain]⟩
    · exact hi.quiet
  | none | unnamed _ => exact hi.finish false
  | _ => exact hi.finish true

/-- A step leaves everything unsent, whatever it is. -/
theorem Unsent.step (hi : Unsent s) (input : Input T C) : Stays (s.step input) := by
  cases input with
  | requestTransport thread requestor transport ipAddress port =>
    unfold SharedMux.step
    dsimp only
    split
    · exact hi.quiet
    · exact hi.requestTransport requestor transport ipAddress port
  | packet thread request =>
    unfold SharedMux.step
    dsimp only
    split
    · exact hi.quiet
    · exact hi.processPacket request
  | proceed thread answers =>
    unfold SharedMux.step
    dsimp only
    split
    · exact hi.quiet
    · next position hat => exact hi.proceed answers (hi.threads thread position hat)
  | retry now entry draw =>
    have hnone : s.ackMap.retry now entry draw =
        ({ s.ackMap with retryQueue := s.ackMap.retryQueue.erase entry }, []) := by
      unfold PendingAckMap.retry
      dsimp only
      rw [hi.table, UMap.find_empty]
    unfold SharedMux.step
    dsimp only
    rw [hnone]
    exact ⟨⟨hi.index, hi.table, hi.transports, hi.threads⟩, by simp [tellFailure]⟩
  | sendData requestor packet send =>
    have hsame : s.sendData requestor packet send = s := if_pos (SendOutcome.sent_eq_false _ _)
    unfold SharedMux.step
    dsimp only
    rw [hsame]
    exact hi.quiet
  | dataComplete requestId now =>
    have hsame : s.dataComplete requestId now = s := by
      unfold SharedMux.dataComplete
      rw [hi.table, UMap.find_empty]
    unfold SharedMux.step
    dsimp only
    rw [hsame]
    exact hi.quiet

end Handlers

/-! ## Runs -/

/-- After the events `h` nothing was sent. -/
structure NothingSent (h : List (SharedEvent T C)) (s : SharedMux T C) : Prop where
  unsent : Unsent s
  plain : ∀ event ∈ h, event.Plain

variable {h events : List (SharedEvent T C)}

theorem outcomes_plain (hplain : ∀ event ∈ h, event.Plain) : outcomes h = [] :=
  List.filterMap_eq_nil_iff.mpr fun event hmem => (hplain event hmem).outcome

theorem NothingSent.append (hi : NothingSent h s) {r : Result T C} (hstays : Stays r) :
    NothingSent (h ++ r.2) r.1 where
  unsent := hstays.unsent
  plain event hmem := by
    rcases List.mem_append.mp hmem with hmem | hmem
    · exact hi.plain event hmem
    · exact hstays.plain event hmem

theorem NothingSent.bookKept (hi : NothingSent (h ++ events) s) : BookKept h s events where
  entry netId record hfind := by
    rw [hi.unsent.index] at hfind
    cases hfind
  referred requestId request hfind := by
    rw [hi.unsent.table] at hfind
    cases hfind
  freedOnce record := by
    have hnone : (h ++ events).countP (SharedEvent.frees record) = 0 :=
      List.countP_eq_zero.mpr fun event hmem => by simp [(hi.plain event hmem).frees]
    omega
  unlinkedOnce netId hmem := hi.plain _ (List.mem_append_right h hmem)
  notAfterFree record hmem := hi.plain _ (List.mem_append_right h hmem)
  locked record hmem := hi.plain _ (List.mem_append_right h hmem)

theorem NothingSent.oneOutcome (hi : NothingSent h s) (hnext : ∀ event ∈ h ++ events, event.Plain)
    (input : Input T C) : OneOutcome h s input events where
  once := by
    rw [outcomes_plain hnext]
    exact List.nodup_nil
  told := by
    intro requestId attempt hexhausts _
    cases input with
    | retry now entry draw =>
      obtain ⟨-, request, hfind, -⟩ := hexhausts
      rw [hi.unsent.table] at hfind
      cases hfind
    | _ => exact hexhausts.elim
  found _ _ _ hawaited := (hi.plain _ hawaited.1).elim

theorem nothingSent_new (now : Nat) (configured : Option Int) :
    NothingSent [] (new now configured : SharedMux T C) :=
  ⟨unsent_new now configured, by simp⟩

variable [DecidableEq T]

theorem NothingSent.step (hi : NothingSent h s) (input : Input T C) :
    NothingSent (h ++ (s.step input).2) (s.step input).1 := hi.append (hi.unsent.step input)

/-- In every run the pending acknowledgements are in order after every step. -/
theorem along_bookKept (now : Nat) (configured : Option Int) (inputs : List (Input T C)) :
    machine.Along (fun h s input => BookKept h (s.step input).1 (s.step input).2) []
      (new now configured) inputs :=
  Machine.run_along (I := NothingSent) (fun _ _ input hi => hi.step input)
    (fun _ _ input hi => (hi.step input).bookKept) inputs (nothingSent_new now configured)

/-- In every run every step does what it owes the attempts. -/
theorem along_oneOutcome (now : Nat) (configured : Option Int) (inputs : List (Input T C)) :
    machine.Along (fun h s input => OneOutcome h s input (s.step input).2) []
      (new now configured) inputs :=
  Machine.run_along (I := NothingSent) (fun _ _ input hi => hi.step input)
    (fun _ _ input hi => hi.oneOutcome (hi.step input).plain input) inputs
    (nothingSent_new now configured)

end SharedMux

end Alpine
