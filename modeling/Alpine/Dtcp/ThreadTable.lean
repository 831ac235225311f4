import Alpine.Lib.UMap

/-!
# The table of records, buffers and worker threads

`DtcpThreadTable` has a pool of IO records and a pool of buffers with a free list each, the queue of
records to process, the record each thread works on, and its worker threads. Every function is a
section under one lock; the sections of the functions that take a lock more than once have names of
their own. A record, a buffer and a worker thread are their place in the order in which they were
made, so that a pointer is in its pool if it is below the size of it. Times come from outside.
-/

namespace Alpine

open Lib

structure ThreadTable where
  maxThreads : Nat
  maxRecords : Nat
  maxBuffers : Nat
  /-- `recordPool_.size ()`. -/
  records : Nat
  /-- The back of a list is its end. -/
  freeRecordIndices : List Nat
  recordLastActivity : List Nat
  /-- An entry -1 is `none`. -/
  recordQueue : List (Option Nat)
  /-- `bufferPool_.size ()`. -/
  buffers : Nat
  freeBufferIndices : List Nat
  threadObjectIndex : UMap Nat Nat
  activeThreadIndex : UMap Nat Nat
  externalThreadIndex : UMap Nat Nat
  allThreadList : List Nat
  idleThreadList : List Nat

namespace ThreadTable

/-- The constructor; `configured` is `dtcp.maxConnections`. -/
def new (maxThreads maxRecords maxBuffers : Nat) (configured : Option Nat) (now : Nat) :
    ThreadTable where
  maxThreads := maxThreads
  maxRecords := match configured with
    | some (val + 1) => val + 1
    | _ => maxRecords
  maxBuffers := maxBuffers
  records := maxThreads
  freeRecordIndices := List.range maxThreads
  recordLastActivity := List.replicate maxThreads now
  recordQueue := []
  buffers := maxThreads
  freeBufferIndices := List.range maxThreads
  threadObjectIndex := ∅
  activeThreadIndex := ∅
  externalThreadIndex := ∅
  allThreadList := []
  idleThreadList := []

variable (t : ThreadTable)

def touch (idx now : Nat) : ThreadTable :=
  { t with recordLastActivity := t.recordLastActivity.set idx now }

/-- `freeRecordIndices_.push_back (idx)`, with the time. -/
def freeRecord (idx now : Nat) : ThreadTable :=
  { t with freeRecordIndices := t.freeRecordIndices ++ [idx] }.touch idx now

/-- `t_TimePoint::max ()`. -/
def maxTime : Nat := 2 ^ 63 - 1

/-- The loop of `evictLruRecord`, at place `i` of the free list. -/
def findOldest (recordLastActivity : List Nat) (oldestTime : Nat) (oldestPos : Option Nat) (i : Nat) :
    List Nat → Option Nat
  | [] => oldestPos
  | idx :: rest =>
    let time := recordLastActivity.getD idx 0
    if time < oldestTime then findOldest recordLastActivity time (some i) (i + 1) rest
    else findOldest recordLastActivity oldestTime oldestPos (i + 1) rest

/-- The oldest free record; the last free one takes its place in the list. -/
def evictLruRecord : Option Nat × ThreadTable :=
  match findOldest t.recordLastActivity maxTime none 0 t.freeRecordIndices with
  | none => (none, t)
  | some oldestPos =>
    match t.freeRecordIndices[oldestPos]?, t.freeRecordIndices.getLast? with
    | some idx, some back =>
      (some idx, { t with freeRecordIndices := (t.freeRecordIndices.set oldestPos back).dropLast })
    | _, _ => (none, t)

def allocateRecord (now : Nat) : Option Nat × ThreadTable :=
  match t.freeRecordIndices.getLast? with
  | some idx =>
    (some idx, { t with freeRecordIndices := t.freeRecordIndices.dropLast }.touch idx now)
  | none =>
    if t.records < t.maxRecords then
      (some t.records, { t with
        records := t.records + 1, recordLastActivity := t.recordLastActivity ++ [now] })
    else
      match t.evictLruRecord with
      | (some evicted, t) => (some evicted, t.touch evicted now)
      | (none, t) => (none, t)

def returnRecord (record : Option Nat) (now : Nat) : ThreadTable :=
  match record with
  | none => t
  | some i => if i < t.records then t.freeRecord i now else t

def allocateBuffer : Option Nat × ThreadTable :=
  match t.freeBufferIndices.getLast? with
  | some idx => (some idx, { t with freeBufferIndices := t.freeBufferIndices.dropLast })
  | none =>
    if t.buffers < t.maxBuffers then (some t.buffers, { t with buffers := t.buffers + 1 })
    else (none, t)

def releaseBuffer (buffer : Option Nat) : Bool × ThreadTable :=
  match buffer with
  | none => (false, t)
  | some i =>
    if i < t.buffers then (true, { t with freeBufferIndices := t.freeBufferIndices ++ [i] })
    else (false, t)

/-- The first section of `processRecord`: a record that is not in the pool is queued as -1. -/
def enqueueRecord (record now : Nat) : ThreadTable :=
  if record < t.records then
    { t with recordQueue := t.recordQueue ++ [some record] }.touch record now
  else { t with recordQueue := t.recordQueue ++ [none] }

def processComplete (id now : Nat) : Bool × ThreadTable :=
  match t.activeThreadIndex.find id with
  | none => (false, t)
  | some recIdx =>
    (true, { t with activeThreadIndex := t.activeThreadIndex.erase id }.freeRecord recIdx now)

/-- The first section of `locateRecord`. -/
def findRecord (threadId : Nat) : Option Nat :=
  match t.activeThreadIndex.find threadId with
  | some recIdx => some recIdx
  | none => t.externalThreadIndex.find threadId

/-- Its last section. -/
def indexExternal (threadId record : Nat) : ThreadTable :=
  if record < t.records then
    { t with externalThreadIndex := t.externalThreadIndex.emplace threadId record }
  else t

/-- The first section of `getNextRecord`: -1 if there is nothing in the queue. -/
def popRecord : Option Nat × ThreadTable :=
  match t.recordQueue with
  | [] => (none, t)
  | recIdx :: rest => (recIdx, { t with recordQueue := rest })

/-- Its second section, with the record the thread had. -/
def indexActive (threadId recIdx now : Nat) : Option Nat × ThreadTable :=
  let oldRecIdx := t.activeThreadIndex.find threadId
  let activeThreadIndex :=
    if oldRecIdx.isSome then t.activeThreadIndex.erase threadId else t.activeThreadIndex
  (oldRecIdx,
    { t with activeThreadIndex := activeThreadIndex.emplace threadId recIdx }.touch recIdx now)

/-! ## Worker threads -/

/-- The section of `createThread` under the thread lock. -/
def listThread (thread : Nat) : ThreadTable :=
  { t with allThreadList := t.allThreadList ++ [thread] }

/-- Its section under the record lock. -/
def indexThread (id thread : Nat) : ThreadTable :=
  { t with threadObjectIndex := t.threadObjectIndex.emplace id thread }

/-- The section of `wakeThread`. -/
def popIdle : Option Nat × ThreadTable :=
  match t.idleThreadList with
  | [] => (none, t)
  | idleThread :: rest => (some idleThread, { t with idleThreadList := rest })

/-- The second section of `threadIdle`, for the thread that its first section found. -/
def pushIdle (thread : Nat) : ThreadTable :=
  { t with idleThreadList := t.idleThreadList ++ [thread] }

end ThreadTable

end Alpine
