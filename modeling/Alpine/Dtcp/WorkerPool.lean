import Alpine.Dtcp.ThreadTable
import Alpine.Lib.Run

/-!
# The worker threads

The worker threads of a `ThreadTable` and the callers of `processRecord`, one critical section at a
time. A worker is a `DtcpStackThread`: it waits until it is resumed, works through the queue
(`DtcpBaseUdpTransport::processEvents`), enters the idle list and takes its flag `running_` down. A
caller queues a record and then wakes a worker that is idle or makes one. The id of a worker is its
number.
-/

namespace Alpine

open Lib

/-- Where a worker is: what it does next. -/
inductive WorkerPosition where
  /-- It waits to be resumed. -/
  | waiting
  /-- It puts its flag up. -/
  | starting
  /-- `getNextRecord`. -/
  | next (firstRequest : Bool)
  | indexing (recIdx : Nat)
  | freeing (recIdx oldRecIdx : Nat)
  /-- The packet is processed. -/
  | working (recIdx : Nat)
  /-- `processComplete`. -/
  | completing
  /-- `threadIdle`. -/
  | lookup
  | listing (threadObj : Nat)
  /-- It takes its flag down. -/
  | stopping
  deriving DecidableEq, Repr

/-- `AutoThread`. -/
structure Worker where
  running : Bool
  resumed : Bool
  position : WorkerPosition
  deriving DecidableEq, Repr

/-- Where a caller of `processRecord` is. -/
inductive CallerPosition where
  | checkIdle
  | wakeThread
  /-- `resume` looks at the flag. -/
  | resume (thread : Nat)
  /-- It sets `resumed_`. -/
  | signal (thread : Nat)
  | checkLimit
  | createThread
  | listThread (thread : Nat)
  | indexThread (thread : Nat)
  deriving DecidableEq, Repr

structure WorkerPool where
  table : ThreadTable
  /-- How many workers there are. -/
  created : Nat
  workers : Nat → Worker
  callers : UMap Nat CallerPosition

namespace WorkerPool

def new (maxThreads maxRecords maxBuffers : Nat) (configured : Option Nat) (now : Nat) : WorkerPool :=
  ⟨.new maxThreads maxRecords maxBuffers configured now, 0, fun _ => ⟨false, false, .waiting⟩, ∅⟩

def setWorker (s : WorkerPool) (w : Nat) (worker : Worker) : WorkerPool :=
  { s with workers := Function.update s.workers w worker }

/-- The worker goes on from there. -/
def goTo (s : WorkerPool) (w : Nat) (position : WorkerPosition) : WorkerPool :=
  s.setWorker w { s.workers w with position }

def callerTo (s : WorkerPool) (caller : Nat) (position : CallerPosition) : WorkerPool :=
  { s with callers := s.callers.assign caller position }

def leave (s : WorkerPool) (caller : Nat) : WorkerPool :=
  { s with callers := s.callers.erase caller }

/-- The next step of a worker; `status` is what processing the packet returns. -/
def workerStep (s : WorkerPool) (w now : Nat) (status : Bool) : WorkerPool :=
  match (s.workers w).position with
  | .waiting =>
    if (s.workers w).resumed then
      s.setWorker w { s.workers w with resumed := false, position := .starting }
    else s
  | .starting => s.setWorker w { s.workers w with running := true, position := .next true }
  | .next firstRequest =>
    let (recIdx, table) := s.table.popRecord
    match recIdx with
    | none => { s with table }.goTo w (if firstRequest then .lookup else .completing)
    | some recIdx => { s with table }.goTo w (.indexing recIdx)
  | .indexing recIdx =>
    let (oldRecIdx, table) := s.table.indexActive w recIdx now
    match oldRecIdx with
    | none => { s with table }.goTo w (.working recIdx)
    | some old => { s with table }.goTo w (.freeing recIdx old)
  | .freeing recIdx oldRecIdx =>
    { s with table := s.table.freeRecord oldRecIdx now }.goTo w (.working recIdx)
  | .working _ =>
    -- processEvents returns at a packet that fails, whatever is queued
    if status = false then s.goTo w .lookup else s.goTo w (.next false)
  | .completing => { s with table := (s.table.processComplete w now).2 }.goTo w .lookup
  | .lookup =>
    match s.table.threadObjectIndex.find w with
    | none => s.goTo w .stopping
    | some threadObj => s.goTo w (.listing threadObj)
  | .listing threadObj => { s with table := s.table.pushIdle threadObj }.goTo w .stopping
  | .stopping => s.setWorker w { s.workers w with running := false, position := .waiting }

/-- The next section of a call of `processRecord`. -/
def callerStep (s : WorkerPool) (caller : Nat) : CallerPosition → WorkerPool
  | .checkIdle =>
    if s.table.idleThreadList ≠ [] then s.callerTo caller .wakeThread
    else s.callerTo caller .checkLimit
  | .wakeThread =>
    let (idleThread, table) := s.table.popIdle
    match idleThread with
    | none => { s with table }.leave caller
    | some thread => { s with table }.callerTo caller (.resume thread)
  | .resume thread =>
    if (s.workers thread).running then s.leave caller else s.callerTo caller (.signal thread)
  | .signal thread =>
    (s.setWorker thread { s.workers thread with resumed := true }).leave caller
  | .checkLimit =>
    if s.table.allThreadList.length < s.table.maxThreads then s.callerTo caller .createThread
    else s.leave caller
  | .createThread =>
    ({ s with created := s.created + 1 }.setWorker s.created ⟨false, false, .waiting⟩).callerTo caller
      (.listThread s.created)
  | .listThread thread =>
    { s with table := s.table.listThread thread }.callerTo caller (.indexThread thread)
  | .indexThread thread =>
    { s with table := s.table.indexThread thread thread }.callerTo caller (.resume thread)

inductive Input where
  | processRecord (caller : Nat) (record : Option Nat) (now : Nat)
  /-- The caller goes on with its call. -/
  | proceed (caller : Nat)
  | worker (w now : Nat) (status : Bool)

def step (s : WorkerPool) : Input → WorkerPool
  | .processRecord _ none _ => s
  | .processRecord caller (some record) now =>
    if (s.callers.find caller).isSome then s
    else { s with table := s.table.enqueueRecord record now }.callerTo caller .checkIdle
  | .proceed caller =>
    match s.callers.find caller with
    | none => s
    | some position => s.callerStep caller position
  | .worker w now status => if w < s.created then s.workerStep w now status else s

def machine : Machine WorkerPool Input Empty where
  step s input := (s.step input, [])

/-! ## The property -/

/-- The worker has something to do. -/
def Enabled (s : WorkerPool) (w : Nat) : Prop :=
  (s.workers w).position ≠ .waiting ∨ (s.workers w).resumed = true

/-- The call has a worker to wake or to make, or has yet to see whether it has. -/
def WakesUp (s : WorkerPool) : CallerPosition → Prop
  | .wakeThread => s.table.idleThreadList ≠ []
  | .checkLimit => s.table.allThreadList.length < s.table.maxThreads
  | _ => True

/-- While a record is queued and there are workers, some worker has something to do or a wake-up is
pending. -/
def NoLostWakeUp (s : WorkerPool) : Prop :=
  ∀ recIdx, some recIdx ∈ s.table.recordQueue → 0 < s.created →
    (∃ w < s.created, s.Enabled w) ∨
      ∃ caller position, s.callers.find caller = some position ∧ s.WakesUp position

/-- The worker has yet to look at the queue. -/
def Looks (s : WorkerPool) (w : Nat) : Prop :=
  (s.workers w).resumed = true ∨
    match (s.workers w).position with
    | .starting | .next _ | .indexing _ | .freeing _ _ | .working _ => True
    | _ => False

/-- It has looked for the last time, and is not in the idle list yet. -/
def Leaving (s : WorkerPool) (w : Nat) : Prop :=
  match (s.workers w).position with
  | .completing | .lookup | .listing _ => True
  | _ => False

/-- A worker is not resumed while its flag is up, unless it has yet to look at the queue. A call
that can make no worker does not find the idle list empty while a worker is about to enter it, and
no packet fails while records are queued, unless another worker or another call sees to them. The
records queued are of the pool. -/
def StepOk (s : WorkerPool) : Input → Prop
  | .processRecord _ (some record) _ => record < s.table.records
  | .processRecord _ none _ => True
  | .proceed caller =>
    match s.callers.find caller with
    | some .checkIdle => s.table.idleThreadList = [] →
      s.table.maxThreads ≤ s.table.allThreadList.length →
      (∀ w < s.created, ¬ s.Leaving w) ∨ (∃ w < s.created, s.Looks w) ∨
        ∃ other position, other ≠ caller ∧ s.callers.find other = some position ∧ s.WakesUp position
    | some (.resume thread) => (s.workers thread).running = false ∨ s.Looks thread
    | _ => True
  | .worker w _ status =>
    match (s.workers w).position with
    | .working _ => status = false → s.table.recordQueue = [] ∨
      (∃ other < s.created, other ≠ w ∧ s.Looks other) ∨
        ∃ caller position, s.callers.find caller = some position ∧ s.WakesUp position
    | _ => True

end WorkerPool

end Alpine
