import Alpine.Lib.UMap
import Mathlib.Data.Rat.Floor

/-!
# The retransmission table

`DtcpPendingAckMap`: an index of the requests that wait for an acknowledgement and a priority
queue of the times to send them again. `R` is the type of requestors (transports), by address; a
request of the multiplexor itself has none. Times are in nanoseconds.

The estimates of `computeRto`, `applyJitter` and `updatePeerRtt` are `double` in the code and
rationals here. The draw of the random generator is an input, a number from 0 to 1 that says where
in the interval of the distribution the value lies.

A priority queue gives out some entry with the least time; which one, among equals, is left open
(`IsTop`). So one pass of the loop of `processTimers` is a function of the entry popped
(`retry`), and the loop is a relation (`Passes`, `ProcessTimers`).
-/

namespace Alpine

open Lib

structure PendingRecord (R : Type) where
  id : Nat
  requestor : Option R
  data : List UInt8
  destIpAddress : Nat
  destPort : Nat
  sendTime : Nat
  nextRetryTime : Nat
  retryCount : Nat
  currentRto : Nat
  deriving DecidableEq, Repr

structure RetryEntry where
  id : Nat
  nextRetryTime : Nat
  deriving DecidableEq, Repr

structure PeerRtt where
  srtt : ℚ
  rttvar : ℚ
  initialized : Bool
  deriving DecidableEq

structure PendingAckMap (R : Type) where
  recordIndex : UMap Nat (PendingRecord R)
  retryQueue : List RetryEntry
  peerRttIndex : UMap Nat PeerRtt
  currId : Nat
  maxRetries : Nat

/-- What a call tells others: who was sent again, whose requestor was told of the failure, and
which removal took a sample of the round trip time. -/
inductive AckEvent (R : Type) where
  | added (id : Nat)
  | removed (id : Nat) (sampled : Bool)
  | resent (id : Nat)
  | failed (id : Nat) (requestor : Option R)
  deriving DecidableEq, Repr

/-- The request an event is about. -/
def AckEvent.id {R : Type} : AckEvent R → Nat
  | added id => id
  | removed id _ => id
  | resent id => id
  | failed id _ => id

namespace PendingAckMap

variable {R : Type}

def kSrttAlpha : ℚ := 1 / 8
def kSrttBeta : ℚ := 1 / 4
def kDefaultRtoMs : ℚ := 200
def kMaxRtoMs : ℚ := 30000
def kJitterFraction : ℚ := 1 / 4
def kDefaultMaxRetries : Nat := 8

/-- `duration_cast<t_Duration>` of a number of milliseconds. -/
def ofMs (ms : ℚ) : Nat := ⌊ms * 1000000⌋₊

/-- The constructor. `configured` is the number that `dtcp.maxRetries` holds, if it holds one. -/
def new (configured : Option Int) : PendingAckMap R where
  recordIndex := ∅
  retryQueue := []
  peerRttIndex := ∅
  currId := 1
  maxRetries :=
    match configured with
    | none => kDefaultMaxRetries
    | some val => if val > 0 ∧ val ≤ 255 then val.toNat else kDefaultMaxRetries

def computeRto (m : PendingAckMap R) (destIpAddress : Nat) : Nat :=
  match m.peerRttIndex.find destIpAddress with
  | none => ofMs kDefaultRtoMs
  | some rtt =>
    if rtt.initialized then ofMs (min (max (rtt.srtt + 4 * rtt.rttvar) 10) kMaxRtoMs)
    else ofMs kDefaultRtoMs

/-- `draw` says where between the ends of the distribution the value lies. -/
def applyJitter (base : Nat) (draw : ℚ) : Nat :=
  ⌊(base : ℚ) * (1 - kJitterFraction) + draw * ((base : ℚ) * (2 * kJitterFraction))⌋₊

def updatePeerRtt (m : PendingAckMap R) (destIpAddress : Nat) (sampleMs : ℚ) : PendingAckMap R :=
  let rtt := (m.peerRttIndex.find destIpAddress).getD ⟨0, 0, false⟩
  let rtt : PeerRtt :=
    if rtt.initialized = false then ⟨sampleMs, sampleMs / 2, true⟩
    else
      let rttvar := (1 - kSrttBeta) * rtt.rttvar + kSrttBeta * |rtt.srtt - sampleMs|
      ⟨(1 - kSrttAlpha) * rtt.srtt + kSrttAlpha * sampleMs, rttvar, true⟩
  { m with peerRttIndex := m.peerRttIndex.assign destIpAddress rtt }

/-- The id of the new request, and the table with it. -/
def add (m : PendingAckMap R) (now : Nat) (requestor : Option R) (data : List UInt8)
    (destIpAddress destPort : Nat) (draw : ℚ) : Nat × PendingAckMap R :=
  let id := m.currId
  let rto := m.computeRto destIpAddress
  let nextRetry := now + applyJitter rto draw
  let newRecord : PendingRecord R :=
    { id, requestor, data, destIpAddress, destPort, sendTime := now, nextRetryTime := nextRetry
      retryCount := 0, currentRto := rto }
  (id, { m with
    currId := (m.currId + 1) % 2 ^ 64
    recordIndex := m.recordIndex.emplace id newRecord
    retryQueue := ⟨id, nextRetry⟩ :: m.retryQueue })

def remove (m : PendingAckMap R) (now id : Nat) : Bool × PendingAckMap R × List (AckEvent R) :=
  match m.recordIndex.find id with
  | none => (false, m, [])
  | some record =>
    let sampled := record.retryCount == 0
    let m := if sampled then
        m.updatePeerRtt record.destIpAddress (((now : ℚ) - record.sendTime) / 1000000)
      else m
    (true, { m with recordIndex := m.recordIndex.erase id }, [.removed id sampled])

/-- `top ()` of the priority queue. -/
def IsTop (m : PendingAckMap R) (entry : RetryEntry) : Prop :=
  entry ∈ m.retryQueue ∧ ∀ other ∈ m.retryQueue, entry.nextRetryTime ≤ other.nextRetryTime

/-- The record sent again at `now`. -/
def resend (record : PendingRecord R) (now : Nat) (draw : ℚ) : PendingRecord R :=
  let currentRto := min (record.currentRto * 2) (ofMs kMaxRtoMs)
  { record with
    retryCount := record.retryCount + 1
    currentRto
    sendTime := now
    nextRetryTime := now + applyJitter currentRto draw }

@[simp] theorem resend_id (record : PendingRecord R) (now : Nat) (draw : ℚ) :
    (resend record now draw).id = record.id := rfl

/-- One pass of the loop of `processTimers`, for the entry popped. -/
def retry (m : PendingAckMap R) (now : Nat) (entry : RetryEntry) (draw : ℚ) :
    PendingAckMap R × List (AckEvent R) :=
  let m := { m with retryQueue := m.retryQueue.erase entry }
  match m.recordIndex.find entry.id with
  | none => (m, [])
  | some record =>
    if record.nextRetryTime ≠ entry.nextRetryTime then (m, [])
    else if record.retryCount ≥ m.maxRetries then
      ({ m with recordIndex := m.recordIndex.erase entry.id },
        [.failed record.id record.requestor])
    else
      let record := resend record now draw
      ({ m with
          recordIndex := m.recordIndex.assign entry.id record
          retryQueue := ⟨record.id, record.nextRetryTime⟩ :: m.retryQueue },
        [.resent record.id])

/-- Whatever interval a pass draws for a record it sends again is positive. -/
def DrawsPositive (m : PendingAckMap R) (entry : RetryEntry) (draw : ℚ) : Prop :=
  ∀ record, m.recordIndex.find entry.id = some record →
    0 < applyJitter (min (record.currentRto * 2) (ofMs kMaxRtoMs)) draw

/-- The first `k` passes of a call of `processTimers` at `now`, each over a top entry that is
due. -/
inductive Passes (now : Nat) :
    Nat → PendingAckMap R → List (AckEvent R) → PendingAckMap R → Prop where
  | start {m : PendingAckMap R} : Passes now 0 m [] m
  | pass {k : Nat} {m m' : PendingAckMap R} {entry : RetryEntry} {draw : ℚ}
      {events : List (AckEvent R)} :
    IsTop m entry → entry.nextRetryTime ≤ now → DrawsPositive m entry draw →
    Passes now k (m.retry now entry draw).1 events m' →
    Passes now (k + 1) m ((m.retry now entry draw).2 ++ events) m'

/-- A call of `processTimers` at `now`: passes until the top entry is not due. -/
def ProcessTimers (now : Nat) (m : PendingAckMap R) (events : List (AckEvent R))
    (m' : PendingAckMap R) : Prop :=
  ∃ k, Passes now k m events m' ∧ ∀ entry ∈ m'.retryQueue, now < entry.nextRetryTime

/-- The calls of a run and what they do. -/
inductive Step : PendingAckMap R → List (AckEvent R) → PendingAckMap R → Prop where
  | add {m : PendingAckMap R} {now destIpAddress destPort : Nat} {requestor : Option R}
      {data : List UInt8} {draw : ℚ} :
    0 < applyJitter (m.computeRto destIpAddress) draw →
    Step m [.added (m.add now requestor data destIpAddress destPort draw).1]
      (m.add now requestor data destIpAddress destPort draw).2
  | remove {m : PendingAckMap R} {now id : Nat} :
    Step m (m.remove now id).2.2 (m.remove now id).2.1
  | processTimers {m m' : PendingAckMap R} {now : Nat} {events : List (AckEvent R)} :
    ProcessTimers now m events m' → Step m events m'

/-- A table and the history of its calls. -/
inductive Reaches (configured : Option Int) : List (AckEvent R) → PendingAckMap R → Prop where
  | new : Reaches configured [] (new configured)
  | step {h events : List (AckEvent R)} {m m' : PendingAckMap R} :
    Reaches configured h m → Step m events m' → Reaches configured (h ++ events) m'

/-! ## What removal and a pass do to the index -/

theorem add_index (m : PendingAckMap R) (now : Nat) (requestor : Option R) (data : List UInt8)
    (ip port : Nat) (draw : ℚ) :
    ∃ record, record.id = m.currId ∧ record.requestor = requestor ∧
      (m.add now requestor data ip port draw).2.recordIndex =
        m.recordIndex.emplace m.currId record := ⟨_, rfl, rfl, rfl⟩

theorem remove_none {m : PendingAckMap R} {id : Nat} (hf : m.recordIndex.find id = none)
    (now : Nat) : m.remove now id = (false, m, []) := by
  simp [remove, hf]

theorem remove_some {m : PendingAckMap R} {id : Nat} {record : PendingRecord R}
    (hf : m.recordIndex.find id = some record) (now : Nat) :
    (m.remove now id).1 = true ∧
      (m.remove now id).2.1.recordIndex = m.recordIndex.erase id ∧
      (m.remove now id).2.1.currId = m.currId := by
  simp only [remove, hf, true_and]
  split <;> exact ⟨rfl, rfl⟩

theorem retry_cases (m : PendingAckMap R) (now : Nat) (entry : RetryEntry) (draw : ℚ) :
    ((m.retry now entry draw).1.recordIndex = m.recordIndex ∧
      (m.retry now entry draw).2 = []) ∨
    (∃ record, m.recordIndex.find entry.id = some record ∧
      (m.retry now entry draw).1.recordIndex = m.recordIndex.erase entry.id ∧
      (m.retry now entry draw).2 = [.failed record.id record.requestor]) ∨
    (∃ record, m.recordIndex.find entry.id = some record ∧
      (m.retry now entry draw).1.recordIndex =
        m.recordIndex.assign entry.id (resend record now draw) ∧
      (m.retry now entry draw).2 = [.resent record.id]) := by
  unfold retry
  dsimp only
  cases hf : m.recordIndex.find entry.id with
  | none => exact .inl ⟨rfl, rfl⟩
  | some record =>
    dsimp only
    split
    · exact .inl ⟨rfl, rfl⟩
    split
    · exact .inr (.inl ⟨record, rfl, rfl, rfl⟩)
    · exact .inr (.inr ⟨record, rfl, rfl, rfl⟩)

/-! ## The intervals are positive -/

theorem ofMs_ge {ms : ℚ} {n : Nat} (h : (n : ℚ) ≤ ms * 1000000) : n ≤ ofMs ms :=
  Nat.le_floor h

/-- At least ten milliseconds. -/
theorem computeRto_ge (m : PendingAckMap R) (destIpAddress : Nat) :
    10000000 ≤ m.computeRto destIpAddress := by
  unfold computeRto
  split
  · exact ofMs_ge (by norm_num [kDefaultRtoMs])
  split
  · next rtt _ _ =>
    have hge : (10 : ℚ) ≤ min (max (rtt.srtt + 4 * rtt.rttvar) 10) kMaxRtoMs :=
      le_min (le_max_right _ _) (by norm_num [kMaxRtoMs])
    exact ofMs_ge (by push_cast; linarith)
  · exact ofMs_ge (by norm_num [kDefaultRtoMs])

/-- Jitter takes away a quarter at most. -/
theorem applyJitter_pos {base : Nat} {draw : ℚ} (hbase : 2 ≤ base) (hdraw : 0 ≤ draw) :
    0 < applyJitter base draw := by
  have hb : (2 : ℚ) ≤ base := by exact_mod_cast hbase
  have hd : 0 ≤ draw * ((base : ℚ) * (2 * kJitterFraction)) := by
    have : (0 : ℚ) ≤ (base : ℚ) * (2 * kJitterFraction) := by
      unfold kJitterFraction
      linarith
    exact mul_nonneg hdraw this
  refine Nat.floor_pos.mpr ?_
  unfold kJitterFraction at hd ⊢
  linarith

end PendingAckMap

end Alpine
