import Alpine.Dtcp.SendQueue
import Alpine.Lib.Checked
import Mathlib.Algebra.Order.Field.Basic
import Mathlib.Tactic.FieldSimp
import Mathlib.Tactic.Linarith

/-!
# The rate of the send queue

After a packet the queue waits for as long as the packet takes at the rate, rounded down to a
microsecond, or to a hundred of them for larger packets. The seconds and microseconds are carried by
hand; they agree with one count of microseconds (`Timeval.micros`), and no step of the computation
leaves the 64 bits of its type (`delayWord`, `nextWord`, `remainingWord`). `along_throttles` says so
for all runs of the queue.
-/

namespace Alpine

open Lib

namespace Timeval

/-- A time in microseconds, as the clock shows it. -/
def ofMicros (us : Nat) : Timeval := ⟨(us / 1000000 : Nat), (us % 1000000 : Nat)⟩

def micros (t : Timeval) : Int := t.sec * 1000000 + t.usec

theorem normal_ofMicros (us : Nat) : (ofMicros us).Normal := by
  unfold ofMicros Normal
  dsimp only
  omega

theorem micros_ofMicros (us : Nat) : (ofMicros us).micros = us := by
  unfold ofMicros micros
  dsimp only
  omega

end Timeval

/-! ## In 64 bits -/

namespace SendQueue

/-- The loop that fills `delay`. -/
def timevalWord (usDelay : Int) : Option Timeval := do
  let usec ← signed? 64 usDelay
  let carried ← carry 64 1000000 0 usec.toNat
  some ⟨carried.1, carried.2⟩

/-- `calculateDelay` of a size up to 400000. -/
def delayWord (transferRate dataSize : Nat) : Option Timeval :=
  if transferRate = 0 then some ⟨0, 0⟩
  else do
    let firstMultiplier : Int := if dataSize < 4294 then 1000000 else 10000
    let secondMultiplier : Int := if dataSize < 4294 then 1 else 100
    let dataSize ← unsigned? 64 (dataSize * firstMultiplier)
    let usDelay ← unsigned? 64 (dataSize / transferRate * secondMultiplier)
    timevalWord usDelay

/-- `nextSendTime_`, `currentDelay` after `currTime`. -/
def nextWord (currTime currentDelay : Timeval) : Option Timeval := do
  let sec ← signed? 64 (currTime.sec + currentDelay.sec)
  let usec ← signed? 64 (currTime.usec + currentDelay.usec)
  if usec ≥ 1000000 then do
    let usec ← signed? 64 (usec - 1000000)
    let sec ← signed? 64 (sec + 1)
    some ⟨sec, usec⟩
  else some ⟨sec, usec⟩

/-- `waitTimeRemaining`. -/
def remainingWord (endTime currTime : Timeval) : Option (Option Timeval) :=
  if currTime.sec < endTime.sec ∨ currTime.sec = endTime.sec ∧ currTime.usec < endTime.usec then
    if endTime.usec < currTime.usec then do
      let sec ← signed? 64 (endTime.sec - currTime.sec)
      let sec ← signed? 64 (sec - 1)
      let usec ← signed? 64 (endTime.usec + 1000000)
      let usec ← signed? 64 (usec - currTime.usec)
      some (some ⟨sec, usec⟩)
    else do
      let sec ← signed? 64 (endTime.sec - currTime.sec)
      let usec ← signed? 64 (endTime.usec - currTime.usec)
      some (some ⟨sec, usec⟩)
  else some none

/-- The delay after a packet in microseconds. -/
def usDelay (transferRate dataSize : Nat) : Nat :=
  if transferRate = 0 then 0
  else if dataSize < 4294 then dataSize * 1000000 / transferRate
  else dataSize * 10000 / transferRate * 100

/-- What the delay is rounded to. -/
def rounding (dataSize : Nat) : Nat := if dataSize < 4294 then 1 else 100

/-! ## Times and delays -/

/-- The remaining time is the exact difference, and there is one exactly before the end. -/
theorem waitTimeRemaining_spec {endTime currTime : Timeval} (hend : endTime.Normal)
    (hcurr : currTime.Normal) :
    (currTime.micros < endTime.micros ∧ ∃ remaining,
        waitTimeRemaining endTime currTime = some remaining ∧ remaining.Normal ∧
          remaining.micros = endTime.micros - currTime.micros) ∨
      (endTime.micros ≤ currTime.micros ∧ waitTimeRemaining endTime currTime = none) := by
  obtain ⟨hend0, hend1⟩ := hend
  obtain ⟨hcurr0, hcurr1⟩ := hcurr
  unfold waitTimeRemaining Timeval.micros Timeval.Normal
  by_cases hlt : currTime.sec < endTime.sec ∨
      currTime.sec = endTime.sec ∧ currTime.usec < endTime.usec
  · rw [if_pos hlt]
    refine .inl ⟨by omega, ?_⟩
    split
    · exact ⟨_, rfl, by dsimp only; omega, by dsimp only; omega⟩
    · exact ⟨_, rfl, by dsimp only; omega, by dsimp only; omega⟩
  · rw [if_neg hlt]
    exact .inr ⟨by omega, rfl⟩

theorem calculateDelay_spec (q : SendQueue) {dataSize : Nat} (hsize : dataSize ≤ 65535)
    (currentDelay : Timeval) :
    q.calculateDelay dataSize currentDelay =
      Timeval.ofMicros (usDelay q.transferRate dataSize) := by
  unfold calculateDelay usDelay
  rw [if_neg (by omega)]
  split
  · rfl
  · rfl

theorem usDelay_le (transferRate : Nat) {dataSize : Nat} (hsize : dataSize ≤ 65535) :
    usDelay transferRate dataSize ≤ 65535000000 := by
  unfold usDelay
  split
  · omega
  · split
    · have := Nat.div_le_self (dataSize * 1000000) transferRate
      omega
    · have := Nat.div_le_self (dataSize * 10000) transferRate
      omega

/-- The delay is that of the rate, up to the rounding. -/
theorem lt_usDelay {transferRate : Nat} (hrate : 0 < transferRate) (dataSize : Nat) :
    (dataSize : ℚ) * 1000000 / transferRate - rounding dataSize <
      usDelay transferRate dataSize := by
  have hrate' : (0 : ℚ) < transferRate := by exact_mod_cast hrate
  rw [sub_lt_iff_lt_add, div_lt_iff₀ hrate']
  have hnat : dataSize * 1000000 <
      (usDelay transferRate dataSize + rounding dataSize) * transferRate := by
    unfold usDelay rounding
    rw [if_neg hrate.ne']
    split
    · have hdiv := Nat.lt_div_mul_add (a := dataSize * 1000000) hrate
      rw [Nat.add_mul, Nat.one_mul]
      exact hdiv
    · have hdiv := Nat.lt_div_mul_add (a := dataSize * 10000) hrate
      nlinarith
  exact_mod_cast hnat

theorem delayNext_spec (q : SendQueue) {currTime currentDelay : Timeval} (hcurr : currTime.Normal)
    (hdelay : currentDelay.Normal) :
    (q.delayNext currTime currentDelay).nextSendTime.Normal ∧
      (q.delayNext currTime currentDelay).nextSendTime.micros =
        currTime.micros + currentDelay.micros := by
  obtain ⟨hcurr0, hcurr1⟩ := hcurr
  obtain ⟨hdelay0, hdelay1⟩ := hdelay
  unfold delayNext Timeval.micros Timeval.Normal
  dsimp only
  split
  · exact ⟨by dsimp only; omega, by dsimp only; omega⟩
  · exact ⟨by dsimp only; omega, by dsimp only; omega⟩

/-! ## Nothing wraps -/

theorem signed64 {v : Int} (h : -2 ^ 63 ≤ v ∧ v < 2 ^ 63) : signed? 64 v = some v :=
  signed?_of_mem h

theorem timevalWord_eq {us : Nat} (hus : us ≤ 65535000000) :
    timevalWord us = some (Timeval.ofMicros us) := by
  have hcarry : carry 64 1000000 0 us =
      some ((0 : Int) + ((us / 1000000 : Nat) : Int), us % 1000000) :=
    carry_eq (by decide) (by omega) (by omega) (by omega)
  unfold timevalWord Timeval.ofMicros
  rw [signed64 (by omega), Option.bind_eq_bind, Option.bind_some, Int.toNat_natCast, hcarry,
    Option.bind_eq_bind, Option.bind_some, Int.zero_add]

/-- Two scalings of a size whose product is in range. -/
theorem scaled_eq {dataSize first second transferRate us : Nat} (hfirst : dataSize * first < 2 ^ 64)
    (hus : dataSize * first / transferRate * second = us) (hle : us ≤ 65535000000) :
    (do
      let dataSize ← unsigned? 64 (dataSize * first)
      let usDelay ← unsigned? 64 (dataSize / transferRate * second)
      timevalWord usDelay) = some (Timeval.ofMicros us) := by
  have hcast : (dataSize : Int) * first / transferRate * second = (us : Int) := by
    rw [← hus]
    push_cast
    rfl
  have hfirst' : (dataSize : Int) * first < 2 ^ 64 := by exact_mod_cast hfirst
  have hpos : (0 : Int) ≤ (dataSize : Int) * first := by positivity
  rw [unsigned?_of_mem ⟨hpos, hfirst'⟩, Option.bind_eq_bind, Option.bind_some, hcast,
    unsigned?_of_mem (by omega), Option.bind_some, timevalWord_eq hle]

theorem delayWord_eq (transferRate : Nat) {dataSize : Nat} (hsize : dataSize ≤ 65535) :
    delayWord transferRate dataSize = some (Timeval.ofMicros (usDelay transferRate dataSize)) := by
  have hle := usDelay_le transferRate hsize
  unfold delayWord usDelay at *
  by_cases hrate : transferRate = 0
  · rw [if_pos hrate, if_pos hrate]
    rfl
  · rw [if_neg hrate] at hle
    rw [if_neg hrate, if_neg hrate]
    by_cases hsmall : dataSize < 4294
    · rw [if_pos hsmall] at hle
      simp only [if_pos hsmall]
      exact @scaled_eq _ 1000000 1 _ _ (by omega) (Nat.mul_one _) hle
    · rw [if_neg hsmall] at hle
      simp only [if_neg hsmall]
      exact @scaled_eq _ 10000 100 _ _ (by omega) rfl hle

theorem nextWord_eq (q : SendQueue) {currTime currentDelay : Timeval} (hcurr : currTime.Normal)
    (hdelay : currentDelay.Normal) (hsec : 0 ≤ currTime.sec ∧ 0 ≤ currentDelay.sec)
    (hlate : currTime.sec + currentDelay.sec + 1 < 2 ^ 63) :
    nextWord currTime currentDelay = some (q.delayNext currTime currentDelay).nextSendTime := by
  obtain ⟨hcurr0, hcurr1⟩ := hcurr
  obtain ⟨hdelay0, hdelay1⟩ := hdelay
  unfold nextWord delayNext
  rw [signed64 (by omega)]
  dsimp only [Option.bind_eq_bind, Option.bind_some]
  rw [signed64 (by omega)]
  dsimp only [Option.bind_eq_bind, Option.bind_some]
  split
  · rw [signed64 (by omega)]
    dsimp only [Option.bind_eq_bind, Option.bind_some]
    rw [signed64 (by omega)]
    rfl
  · rfl

theorem remainingWord_eq {endTime currTime : Timeval} (hend : endTime.Normal)
    (hcurr : currTime.Normal) (hsec : 0 ≤ currTime.sec) (hlate : endTime.sec < 2 ^ 63) :
    remainingWord endTime currTime = some (waitTimeRemaining endTime currTime) := by
  obtain ⟨hend0, hend1⟩ := hend
  obtain ⟨hcurr0, hcurr1⟩ := hcurr
  unfold remainingWord waitTimeRemaining
  split
  · next hlt =>
    split
    · rw [signed64 (by omega)]
      dsimp only [Option.bind_eq_bind, Option.bind_some]
      rw [signed64 (by omega)]
      dsimp only [Option.bind_eq_bind, Option.bind_some]
      rw [signed64 (by omega)]
      dsimp only [Option.bind_eq_bind, Option.bind_some]
      rw [signed64 (by omega)]
      rfl
    · rw [signed64 (by omega)]
      dsimp only [Option.bind_eq_bind, Option.bind_some]
      rw [signed64 (by omega)]
      rfl
  · rfl

end SendQueue

/-! ## Runs -/

namespace UdpSender

/-- A send: when the queue was asked, when the packet was sent, its size and the rate. -/
structure SendRecord where
  asked : Nat
  sentAt : Nat
  size : Nat
  transferRate : Nat
deriving DecidableEq

def Input.polls : Input → Bool
  | .processEvents .. => true
  | _ => false

/-- `processEvents`, with how long after the last reading the clock is read first, and how long
after that it is read again, or another call. -/
inductive TimedInput where
  | poll (wait wait' : Nat) (currentDelay : Timeval) (status : Bool) (answers : BroadcastAnswers)
  | call (input : {input : Input // input.polls = false})

/-- The sender, and the last reading of the clock in microseconds. -/
structure TimedSender where
  sender : UdpSender
  clock : Nat

namespace TimedSender

def recordOf (asked sentAt transferRate : Nat) : SendEvent → Option SendRecord
  | .sent _ datagram => some ⟨asked, sentAt, datagram.data.length, transferRate⟩
  | _ => none

def step (s : TimedSender) : TimedInput → TimedSender × List SendRecord
  | .poll wait wait' currentDelay status answers =>
    let asked := s.clock + wait
    let sentAt := asked + wait'
    let result := s.sender.processEvents (.ofMicros asked) (.ofMicros sentAt) currentDelay status
      answers
    (⟨result.2.2.1, sentAt⟩,
      result.2.2.2.filterMap (recordOf asked sentAt s.sender.queue.transferRate))
  | .call input => (⟨(s.sender.step input.val).1, s.clock⟩, [])

def machine : Machine TimedSender TimedInput SendRecord where
  step := step

/-- The packets have 65535 bytes at most, and the clock is a day away from the last second that a
`timeval` has. -/
def InRange (_ : List SendRecord) (s : TimedSender) (input : TimedInput) : Prop :=
  (∀ r ∈ (s.step input).2, r.size ≤ 65535) ∧
    (s.step input).1.clock + 86400000000 < 2 ^ 63 * 1000000

instance (history : List SendRecord) (s : TimedSender) (input : TimedInput) :
    Decidable (InRange history s input) := inferInstanceAs (Decidable (_ ∧ _))

/-- What `processEvents` is to do at a time. -/
structure Throttled (history : List SendRecord) (s : TimedSender) (wait wait' : Nat)
    (currentDelay : Timeval) (status : Bool) (answers : BroadcastAnswers) : Prop where
  /-- The next send is as long after the last one as that takes at its rate, up to the rounding. -/
  gap : ∀ r ∈ (s.step (.poll wait wait' currentDelay status answers)).2, ∀ last,
    history.getLast? = some last → 0 < last.transferRate →
      (last.size : ℚ) * 1000000 / last.transferRate - SendQueue.rounding last.size <
        (r.asked : ℚ) - last.sentAt ∧ r.asked ≤ r.sentAt
  /-- It reports the time that remains until then, and sends nothing before. -/
  waits : s.sender.queue.located = true →
    (s.clock + wait : Int) < s.sender.queue.nextSendTime.micros →
    ∃ remaining,
      s.sender.processEvents (.ofMicros (s.clock + wait)) (.ofMicros (s.clock + wait + wait'))
        currentDelay status answers = (true, remaining, s.sender, []) ∧
      remaining.Normal ∧
      remaining.micros = s.sender.queue.nextSendTime.micros - (s.clock + wait : Int)
  /-- The computations in 64 bits have results, which are those of the queue. -/
  remaining : SendQueue.remainingWord s.sender.queue.nextSendTime (.ofMicros (s.clock + wait)) =
    some (SendQueue.waitTimeRemaining s.sender.queue.nextSendTime (.ofMicros (s.clock + wait)))
  next : ∀ r ∈ (s.step (.poll wait wait' currentDelay status answers)).2, ∃ delay,
    SendQueue.delayWord r.transferRate r.size = some delay ∧ delay.Normal ∧
      SendQueue.nextWord (.ofMicros r.sentAt) delay =
        some (s.step (.poll wait wait' currentDelay status answers)).1.sender.queue.nextSendTime

def Throttles (history : List SendRecord) (s : TimedSender) (input : TimedInput) : Prop :=
  s.sender.queue.nextSendTime.Normal ∧ (s.step input).1.sender.queue.nextSendTime.Normal ∧
    ∀ wait wait' currentDelay status answers,
      input = .poll wait wait' currentDelay status answers →
        Throttled history s wait wait' currentDelay status answers

/-- The time of the next send is that of the last packet and its delay. -/
structure Scheduled (history : List SendRecord) (s : TimedSender) : Prop where
  normal : s.sender.queue.nextSendTime.Normal
  first : history.getLast? = none → s.sender.queue.nextSendTime.micros = 0
  last : ∀ last, history.getLast? = some last → last.sentAt ≤ s.clock ∧ last.size ≤ 65535 ∧
    s.sender.queue.nextSendTime.micros =
      last.sentAt + SendQueue.usDelay last.transferRate last.size
  clock : s.clock + 86400000000 < 2 ^ 63 * 1000000

variable {history : List SendRecord} {s : TimedSender}

/-- The broadcasts do not change the queue. -/
theorem queue_getBroadcastRequest (s : UdpSender) (answers : BroadcastAnswers) :
    (s.getBroadcastRequest answers).2.queue = s.queue := by
  unfold getBroadcastRequest
  split
  · rfl
  split
  · rfl
  dsimp only
  split
  · rfl
  split
  · unfold getTempDataBuffer
    dsimp only
    cases s.table.allocateBuffer.1 with
    | none => rfl
    | some buffer =>
      dsimp only
      split <;> rfl
  · rfl

/-- What `processEvents` does: it sends nothing and keeps the time of the next send, or sends a
packet and sets it. -/
theorem processEvents_cases (s : UdpSender) (now currTime currentDelay : Timeval) (status : Bool)
    (answers : BroadcastAnswers) :
    ((∀ requestClass datagram, .sent requestClass datagram ∉
        (s.processEvents now currTime currentDelay status answers).2.2.2) ∧
      (s.processEvents now currTime currentDelay status answers).2.2.1.queue.nextSendTime =
        s.queue.nextSendTime) ∨
    (SendQueue.waitTimeRemaining s.queue.nextSendTime now = none ∧ ∃ requestClass datagram,
      (s.processEvents now currTime currentDelay status answers).2.2.2 =
        [.sent requestClass datagram] ∧
      (s.processEvents now currTime currentDelay status answers).2.2.1.queue.nextSendTime =
        (s.queue.delayNext currTime
          (s.queue.calculateDelay datagram.data.length currentDelay)).nextSendTime) := by
  unfold UdpSender.processEvents SendQueue.locateBroadcastStates
  cases hlocated : s.queue.located with
  | false =>
    rw [if_pos rfl]
    exact .inl ⟨nofun, rfl⟩
  | true =>
    rw [if_neg nofun]
    dsimp only
    cases hwait : SendQueue.waitTimeRemaining s.queue.nextSendTime now with
    | some remaining => exact .inl ⟨nofun, rfl⟩
    | none =>
      dsimp only
      rcases hpop : s.queue.popRequest with ⟨_ | ⟨priority, request⟩, queue⟩
      · dsimp only
        split
        · exact .inl ⟨nofun, by rw [queue_getBroadcastRequest]⟩
        · exact .inl ⟨by simp, rfl⟩
      · have hrate : queue.transferRate = s.queue.transferRate := by
          unfold SendQueue.popRequest at hpop
          split at hpop <;> cases hpop <;> rfl
        refine .inr ⟨rfl, _, _, rfl, ?_⟩
        dsimp only [releaseTempDataBuffer]
        unfold SendQueue.delayNext SendQueue.calculateDelay
        rw [hrate]

/-- The other calls keep it. -/
theorem nextSendTime_step (s : UdpSender) {input : Input} (hpolls : input.polls = false) :
    (s.step input).1.queue.nextSendTime = s.queue.nextSendTime := by
  cases input with
  | processEvents => cases hpolls
  | setTransferRate rate => rfl
  | addBroadcast requestId packet destinations =>
    show (s.addBroadcast requestId packet destinations).2.1.queue.nextSendTime = _
    unfold UdpSender.addBroadcast
    dsimp only
    split <;> rfl
  | requestsPending =>
    show (s.queue.requestsPending s.states).2.nextSendTime = _
    unfold SendQueue.requestsPending SendQueue.locateBroadcastStates
    cases s.queue.located <;> rfl
  | queueIdle =>
    show (s.queue.queueIdle s.states).2.nextSendTime = _
    unfold SendQueue.queueIdle SendQueue.locateBroadcastStates
    cases s.queue.located <;> rfl
  | sendPacket priority ipAddress port data =>
    show (s.sendPacket priority ipAddress port data).2.1.queue.nextSendTime = _
    unfold UdpSender.sendPacket getTempDataBuffer
    dsimp only
    cases s.table.allocateBuffer.1 with
    | none => cases data <;> rfl
    | some buffer =>
      cases data with
      | none => rfl
      | some data =>
        dsimp only [writeBuffer]
        unfold SendQueue.addRequest SendQueue.locateBroadcastStates
        cases s.queue.located with
        | false => rfl
        | true => cases priority <;> rfl

theorem filterMap_recordOf_eq_nil {asked sentAt rate : Nat} {events : List SendEvent}
    (h : ∀ requestClass datagram, .sent requestClass datagram ∉ events) :
    events.filterMap (recordOf asked sentAt rate) = [] := by
  refine List.filterMap_eq_nil_iff.mpr fun event hevent => ?_
  cases event with
  | sent requestClass datagram => exact absurd hevent (h requestClass datagram)
  | _ => rfl

/-- The time of the next send is in range. -/
theorem Scheduled.bounds (h : Scheduled history s) : 0 ≤ s.sender.queue.nextSendTime.micros ∧
    s.sender.queue.nextSendTime.micros ≤ s.clock + 65535000000 := by
  cases hlast : history.getLast? with
  | none =>
    have := h.first hlast
    omega
  | some last =>
    obtain ⟨hsent, hsize, hnext⟩ := h.last last hlast
    have hle := SendQueue.usDelay_le last.transferRate hsize
    omega

/-- What a poll does: nothing is sent and the time of the next send is kept, or it has passed, and
is set anew. -/
theorem poll_cases (h : Scheduled history s) {wait wait' : Nat} {currentDelay : Timeval}
    {status : Bool} {answers : BroadcastAnswers}
    (hrange : InRange history s (.poll wait wait' currentDelay status answers)) :
    ((s.step (.poll wait wait' currentDelay status answers)).2 = [] ∧
      (s.step (.poll wait wait' currentDelay status answers)).1.sender.queue.nextSendTime =
        s.sender.queue.nextSendTime) ∨
    ∃ r, (s.step (.poll wait wait' currentDelay status answers)).2 = [r] ∧
      r.asked = s.clock + wait ∧ r.sentAt = s.clock + wait + wait' ∧ r.size ≤ 65535 ∧
      s.sender.queue.nextSendTime.micros ≤ r.asked ∧
      (s.step (.poll wait wait' currentDelay status answers)).1.sender.queue.nextSendTime =
        (s.sender.queue.delayNext (.ofMicros r.sentAt)
          (.ofMicros (SendQueue.usDelay r.transferRate r.size))).nextSendTime := by
  obtain ⟨hsizes, -⟩ := hrange
  rcases processEvents_cases s.sender (.ofMicros (s.clock + wait))
    (.ofMicros (s.clock + wait + wait')) currentDelay status answers with
    ⟨hsent, hnext⟩ | ⟨hwait, requestClass, datagram, hsent, hnext⟩
  · exact .inl ⟨filterMap_recordOf_eq_nil hsent, hnext⟩
  · have hrecords : (s.step (.poll wait wait' currentDelay status answers)).2 =
        [⟨s.clock + wait, s.clock + wait + wait', datagram.data.length,
          s.sender.queue.transferRate⟩] := by
      show List.filterMap _ (s.sender.processEvents _ _ _ _ _).2.2.2 = _
      rw [hsent]
      rfl
    have hsize := hsizes _ (by rw [hrecords]; exact List.mem_singleton_self _)
    refine .inr ⟨_, hrecords, rfl, rfl, hsize, ?_, ?_⟩
    · rcases SendQueue.waitTimeRemaining_spec h.normal (Timeval.normal_ofMicros _) with
        ⟨-, remaining, hsome, -⟩ | ⟨hle, -⟩
      · rw [hsome] at hwait
        cases hwait
      · rwa [Timeval.micros_ofMicros] at hle
    · rw [← SendQueue.calculateDelay_spec _ hsize currentDelay]
      exact hnext

theorem throttled (h : Scheduled history s) {wait wait' : Nat} {currentDelay : Timeval}
    {status : Bool} {answers : BroadcastAnswers}
    (hrange : InRange history s (.poll wait wait' currentDelay status answers)) :
    Throttled history s wait wait' currentDelay status answers := by
  have hcases := poll_cases h hrange
  obtain ⟨hnonneg, hle⟩ := h.bounds
  have hclock : s.clock + wait + wait' + 86400000000 < 2 ^ 63 * 1000000 := hrange.2
  have hasked := Timeval.micros_ofMicros (s.clock + wait)
  have hnormal := Timeval.normal_ofMicros (s.clock + wait)
  have hspec := SendQueue.waitTimeRemaining_spec h.normal hnormal
  rw [hasked] at hspec
  refine ⟨fun r hr last hlast hrate => ?_, fun hlocated hlt => ?_, ?_, fun r hr => ?_⟩
  · rcases hcases with ⟨hnone, -⟩ | ⟨r', hsome, hasked', hsentAt, -, hpassed, -⟩
    · rw [hnone] at hr
      cases hr
    · rw [hsome, List.mem_singleton] at hr
      subst hr
      obtain ⟨-, -, hnext⟩ := h.last last hlast
      refine ⟨lt_of_lt_of_le (SendQueue.lt_usDelay hrate last.size) ?_, by omega⟩
      rw [hnext] at hpassed
      have hpassed' : ((last.sentAt + SendQueue.usDelay last.transferRate last.size : Nat) : ℚ) ≤
          (r.asked : ℚ) := by exact_mod_cast hpassed
      push_cast at hpassed'
      linarith
  · rcases hspec with ⟨-, remaining, hwait, hremaining, hexact⟩ | ⟨hge, -⟩
    · refine ⟨remaining, ?_, hremaining, by rw [hexact]; push_cast; rfl⟩
      unfold UdpSender.processEvents SendQueue.locateBroadcastStates
      rw [hlocated, if_neg nofun]
      dsimp only
      rw [hwait]
    · push_cast at hge
      omega
  · refine SendQueue.remainingWord_eq h.normal hnormal ?_ ?_
    · unfold Timeval.ofMicros
      dsimp only
      omega
    · have hnext := h.normal
      unfold Timeval.Normal at hnext
      unfold Timeval.micros at hle
      omega
  · rcases hcases with ⟨hnone, -⟩ | ⟨r', hsome, hasked', hsentAt, hsize, -, hnext⟩
    · rw [hnone] at hr
      cases hr
    · rw [hsome, List.mem_singleton] at hr
      subst hr
      have hdelay := SendQueue.usDelay_le r.transferRate hsize
      refine ⟨_, SendQueue.delayWord_eq r.transferRate hsize, Timeval.normal_ofMicros _, ?_⟩
      rw [hnext]
      refine SendQueue.nextWord_eq _ (Timeval.normal_ofMicros _) (Timeval.normal_ofMicros _) ?_ ?_
      · unfold Timeval.ofMicros
        dsimp only
        omega
      · unfold Timeval.ofMicros
        dsimp only
        omega

theorem scheduled_step (h : Scheduled history s) {input : TimedInput}
    (hrange : InRange history s input) :
    Scheduled (history ++ (s.step input).2) (s.step input).1 := by
  have hclock := hrange.2
  cases input with
  | call input =>
    have hnext := nextSendTime_step s.sender input.property
    rw [show (s.step (.call input)).2 = [] from rfl, List.append_nil]
    refine ⟨?_, fun hnone => ?_, fun last hlast => ?_, hclock⟩
    · show (s.sender.step input.val).1.queue.nextSendTime.Normal
      rw [hnext]
      exact h.normal
    · show (s.sender.step input.val).1.queue.nextSendTime.micros = 0
      rw [hnext]
      exact h.first hnone
    · show last.sentAt ≤ s.clock ∧ _ ∧ (s.sender.step input.val).1.queue.nextSendTime.micros = _
      rw [hnext]
      exact h.last last hlast
  | poll wait wait' currentDelay status answers =>
    rcases poll_cases h hrange with ⟨hnone, hnext⟩ | ⟨r, hsome, -, hsentAt, hsize, -, hnext⟩
    · rw [hnone, List.append_nil]
      refine ⟨?_, fun hnone => ?_, fun last hlast => ?_, hclock⟩
      · rw [hnext]
        exact h.normal
      · rw [hnext]
        exact h.first hnone
      · obtain ⟨hsent, hsize, hmicros⟩ := h.last last hlast
        rw [hnext]
        exact ⟨Nat.le_trans hsent (by show _ ≤ s.clock + wait + wait'; omega), hsize, hmicros⟩
    · have hspec := SendQueue.delayNext_spec s.sender.queue (Timeval.normal_ofMicros r.sentAt)
        (Timeval.normal_ofMicros (SendQueue.usDelay r.transferRate r.size))
      rw [hsome]
      refine ⟨?_, fun hnil => ?_, fun last hlast => ?_, hclock⟩
      · rw [hnext]
        exact hspec.1
      · rw [List.getLast?_concat] at hnil
        cases hnil
      · rw [List.getLast?_concat, Option.some.injEq] at hlast
        subst hlast
        rw [hnext, hspec.2, Timeval.micros_ofMicros, Timeval.micros_ofMicros]
        exact ⟨hsentAt.le, hsize, rfl⟩

theorem throttles_step (h : Scheduled history s) {input : TimedInput}
    (hrange : InRange history s input) : Throttles history s input := by
  refine ⟨h.normal, (scheduled_step h hrange).normal, ?_⟩
  rintro wait wait' currentDelay status answers rfl
  exact throttled h hrange

/-- Every send of a run waits for as long as the one before takes at its rate. -/
theorem along_throttles (transferRate maxThreads maxRecords maxBuffers : Nat)
    (configured : Option Nat) (now : Nat) (inputs : List TimedInput)
    (hrange : machine.Along InRange []
      ⟨.new transferRate maxThreads maxRecords maxBuffers configured now, 0⟩ inputs) :
    machine.Along Throttles []
      ⟨.new transferRate maxThreads maxRecords maxBuffers configured now, 0⟩ inputs := by
  have hstart : Scheduled []
      ⟨.new transferRate maxThreads maxRecords maxBuffers configured now, 0⟩ := by
    refine ⟨⟨Int.le_refl _, ?_⟩, fun _ => rfl, nofun, ?_⟩
    · show (0 : Int) < 1000000
      decide
    · show 0 + 86400000000 < 2 ^ 63 * 1000000
      decide
  exact Machine.along_imp (I := Scheduled) (fun _ _ _ h hrange => scheduled_step h hrange)
    (fun _ _ _ h hrange => throttles_step h hrange) hstart hrange

/-- Two packets at a thousand bytes a second; the second has to wait for three milliseconds. -/
def twoPackets : List TimedInput :=
  let poll wait := .poll wait 0 ⟨0, 0⟩ true ⟨false, none, none, none⟩
  [.call ⟨.requestsPending, rfl⟩, .call ⟨.sendPacket true 1 2 (some [1, 2, 3]), rfl⟩,
    .call ⟨.sendPacket true 1 2 (some [4, 5]), rfl⟩, poll 10, poll 2999, poll 1]

theorem twoPackets_throttle :
    (machine.run ⟨.new 1000 25 100 10000 none 0, 0⟩ twoPackets).2 =
        [⟨10, 10, 3, 1000⟩, ⟨3010, 3010, 2, 1000⟩] ∧
      machine.Along Throttles [] ⟨.new 1000 25 100 10000 none 0, 0⟩ twoPackets := by
  refine ⟨by decide +kernel, along_throttles 1000 25 100 10000 none 0 twoPackets ?_⟩
  decide +kernel

end TimedSender

end UdpSender

end Alpine
