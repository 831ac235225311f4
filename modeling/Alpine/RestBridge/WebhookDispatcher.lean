import Alpine.AppUtils.AuditLog

/-!
# The webhook dispatcher

Calls of `dispatch` queue webhooks, and a thread delivers them, each again after a pause as long as
it fails and retries are left. As in the audit log a step is an action of one thread, and `shutdown`
changes the flag and notifies without the mutex. Both background threads stop as long as such a
notification does not come between a look at the flag and the wait (`along_stops`).

Times are nanoseconds; whether a delivery succeeds is an input.
-/

namespace Alpine

open Lib

structure PendingWebhook where
  callbackUrl : String
  jsonPayload : String
  eventType : String
  retryCount : Nat
  nextAttempt : Nat
  deriving DecidableEq

inductive DispatchPc where
  | idle
  | dispatching (webhook : PendingWebhook)
  /-- The webhook is in the queue. -/
  | pushed

/-- Where `workerLoop` is when it does not wait. -/
inductive WorkerPlace where
  /-- At the head of the loop. -/
  | loop
  /-- With a webhook, before the look at its time. -/
  | scheduling (webhook : PendingWebhook)
  | sleeping (webhook : PendingWebhook)
  | delivering (webhook : PendingWebhook)
  /-- With a webhook that is to be queued again. -/
  | retrying (webhook : PendingWebhook)
  deriving DecidableEq

structure WebhookDispatcher where
  running : Bool
  queue : List PendingWebhook
  worker : LoopPc WorkerPlace
  callers : Nat → DispatchPc
  stop : StopPc
  clock : Nat

inductive WebhookStep where
  | dispatch (t : Nat) (callbackUrl jsonPayload eventType : String)
  | push (t : Nat)
  | notify (t : Nat)
  | worker (success : Bool)
  /-- The wait ends without a notification. -/
  | spurious
  | shutdown
  | tick (duration : Nat)
  deriving DecidableEq

namespace WebhookDispatcher

/-- The worker has the mutex. -/
def hasLock : LoopPc WorkerPlace → Bool
  | .wait pc => pc.hasLock
  | _ => false

/-- After `initialize`. -/
def start : WebhookDispatcher where
  running := true
  queue := []
  worker := .body .loop
  callers _ := .idle
  stop := .idle
  clock := 0

def setCaller (s : WebhookDispatcher) (t : Nat) (pc : DispatchPc) : WebhookDispatcher :=
  { s with callers := Function.update s.callers t pc }

/-- One second, five, and thirty from then on. -/
def backoffSeconds (retryCount : Nat) : Nat := [1, 5, 30].getD (min (retryCount - 1) 2) 30

def retried (webhook : PendingWebhook) (now : Nat) : PendingWebhook :=
  { webhook with
    retryCount := webhook.retryCount + 1
    nextAttempt := now + backoffSeconds (webhook.retryCount + 1) * 1000000000 }

/-- What the worker does when its wait is over; it gives the mutex back. -/
def take (s : WebhookDispatcher) : WebhookDispatcher :=
  if !s.running && s.queue.isEmpty then { s with worker := .ended }
  else
    match s.queue with
    | [] => { s with worker := .body .loop }
    | webhook :: queue => { s with queue, worker := .body (.scheduling webhook) }

def workerLoop (maxRetries : Nat) (s : WebhookDispatcher) (success : Bool) : WebhookDispatcher :=
  match s.worker with
  | .body .loop => { s with worker := if s.running then .wait .locking else .ended }
  | .wait pc =>
    match pc.step (!s.running || !s.queue.isEmpty) with
    | none => s.take
    | some pc' => { s with worker := .wait pc' }
  | .body (.scheduling webhook) =>
    if webhook.nextAttempt > s.clock then { s with worker := .body (.sleeping webhook) }
    else { s with worker := .body (.delivering webhook) }
  | .body (.sleeping webhook) =>
    if webhook.nextAttempt > s.clock then s
    else { s with worker := if s.running then .body (.delivering webhook) else .ended }
  | .body (.delivering webhook) =>
    if !success && webhook.retryCount < maxRetries then
      { s with worker := .body (.retrying (retried webhook s.clock)) }
    else { s with worker := .body .loop }
  | .body (.retrying webhook) => { s with queue := s.queue ++ [webhook], worker := .body .loop }
  | .ended => s

def shutdown (s : WebhookDispatcher) : WebhookDispatcher :=
  match s.stop with
  | .idle => { s with stop := if s.running then .stopping else .done }
  | .stopping => { s with running := false, stop := .notifying }
  | .notifying => { s with worker := s.worker.notify, stop := .joining }
  | .joining => if s.worker = .ended then { s with stop := .draining } else s
  | .draining => { s with queue := [], stop := .done }
  | .done => s

def step (maxRetries : Nat) (s : WebhookDispatcher) : WebhookStep → WebhookDispatcher
  | .dispatch t callbackUrl jsonPayload eventType =>
    match s.callers t with
    | .idle => s.setCaller t (.dispatching ⟨callbackUrl, jsonPayload, eventType, 0, s.clock⟩)
    | _ => s
  | .push t =>
    match s.callers t with
    | .dispatching webhook =>
      if hasLock s.worker then s
      else { s with queue := s.queue ++ [webhook] }.setCaller t .pushed
    | _ => s
  | .notify t =>
    match s.callers t with
    | .pushed => { s with worker := s.worker.notify }.setCaller t .idle
    | _ => s
  | .worker success => s.workerLoop maxRetries success
  | .spurious => { s with worker := s.worker.notify }
  | .shutdown => s.shutdown
  | .tick duration => { s with clock := s.clock + duration }

def machine (maxRetries : Nat) : Machine WebhookDispatcher WebhookStep Empty :=
  ⟨fun s a => (s.step maxRetries a, [])⟩

/-! ## What must hold -/

/-- As for the audit log. A webhook that is dispatched later would wake the worker, but nobody who
has begun a call will. -/
def Stuck (s : WebhookDispatcher) : Prop :=
  s.stop = .joining ∧ s.worker = .wait .waiting ∧ ∀ t, s.callers t = .idle

def StepGood (maxRetries : Nat) (_ : List Empty) (s : WebhookDispatcher) (a : WebhookStep) : Prop :=
  ¬ Stuck (s.step maxRetries a)

def StepFits (_ : List Empty) (s : WebhookDispatcher) (a : WebhookStep) : Prop :=
  a = .shutdown → s.stop = .notifying → s.worker ≠ .wait .blocking

instance (history : List Empty) (s : WebhookDispatcher) (a : WebhookStep) :
    Decidable (StepFits history s a) :=
  inferInstanceAs (Decidable (_ → _ → _ ≠ _))

/-! ## Runs -/

/-- After its notification `shutdown` does not find the worker asleep. -/
structure Kept (s : WebhookDispatcher) : Prop where
  flag : s.running = decide (s.stop = .idle ∨ s.stop = .stopping)
  awake : s.stop.notified = true → ¬ s.worker.Asleep

variable {s : WebhookDispatcher}

theorem take_rest (s : WebhookDispatcher) : s.take.stop = s.stop ∧ s.take.running = s.running ∧
    ¬ s.take.worker.Asleep := by
  unfold take
  split
  · exact ⟨rfl, rfl, LoopPc.not_asleep_ended⟩
  · split
    · exact ⟨rfl, rfl, LoopPc.not_asleep_body _⟩
    · exact ⟨rfl, rfl, LoopPc.not_asleep_body _⟩

theorem Kept.worker (h : Kept s) (maxRetries : Nat) (success : Bool) :
    Kept (s.workerLoop maxRetries success) := by
  unfold workerLoop
  cases hworker : s.worker with
  | wait pc =>
    dsimp only
    cases hstep : pc.step (!s.running || !s.queue.isEmpty) with
    | none =>
      obtain ⟨hstop, hrunning, hawake⟩ := take_rest s
      refine ⟨?_, fun _ => hawake⟩
      dsimp only
      rw [hstop, hrunning]
      exact h.flag
    | some next =>
      refine ⟨h.flag, fun hnotified => ?_⟩
      have hawake := h.awake hnotified
      rw [hworker] at hawake
      rw [StopPc.not_running h.flag hnotified, Bool.not_false, Bool.true_or] at hstep
      exact LoopPc.not_asleep_wait hawake hstep
  | body place =>
    cases place with
    | loop =>
      refine ⟨h.flag, fun hnotified => ?_⟩
      dsimp only
      rw [show s.running = false from StopPc.not_running h.flag hnotified]
      exact LoopPc.not_asleep_ended
    | scheduling webhook =>
      dsimp only
      split
      · exact ⟨h.flag, fun _ => LoopPc.not_asleep_body _⟩
      · exact ⟨h.flag, fun _ => LoopPc.not_asleep_body _⟩
    | sleeping webhook =>
      dsimp only
      split
      · exact h
      · refine ⟨h.flag, fun hnotified => ?_⟩
        dsimp only
        rw [show s.running = false from StopPc.not_running h.flag hnotified]
        exact LoopPc.not_asleep_ended
    | delivering webhook =>
      dsimp only
      split
      · exact ⟨h.flag, fun _ => LoopPc.not_asleep_body _⟩
      · exact ⟨h.flag, fun _ => LoopPc.not_asleep_body _⟩
    | retrying webhook => exact ⟨h.flag, fun _ => LoopPc.not_asleep_body _⟩
  | ended => exact h

theorem Kept.shutdown (h : Kept s) (hfits : s.stop = .notifying → s.worker ≠ .wait .blocking) :
    Kept s.shutdown := by
  unfold WebhookDispatcher.shutdown
  have hflag := h.flag
  cases hstop : s.stop with
  | idle =>
    rw [hstop] at hflag
    dsimp only
    rw [hflag]
    exact ⟨rfl, fun hnotified => by cases hnotified⟩
  | stopping => exact ⟨rfl, fun hnotified => by cases hnotified⟩
  | notifying =>
    rw [hstop] at hflag
    exact ⟨hflag, fun _ => LoopPc.not_asleep_notify (hfits hstop)⟩
  | joining =>
    rw [hstop] at hflag
    dsimp only
    split
    · exact ⟨hflag, fun _ => h.awake (by rw [hstop]; rfl)⟩
    · exact h
  | draining =>
    rw [hstop] at hflag
    exact ⟨hflag, fun _ => h.awake (by rw [hstop]; rfl)⟩
  | done => exact h

theorem Kept.step (h : Kept s) (maxRetries : Nat) {history : List Empty} {a : WebhookStep}
    (hfits : StepFits history s a) : Kept (s.step maxRetries a) := by
  cases a with
  | dispatch t callbackUrl jsonPayload eventType =>
    unfold WebhookDispatcher.step
    dsimp only
    split
    · exact ⟨h.flag, h.awake⟩
    · exact h
  | push t =>
    unfold WebhookDispatcher.step
    dsimp only
    split
    · split
      · exact h
      · exact ⟨h.flag, h.awake⟩
    · exact h
  | notify t =>
    unfold WebhookDispatcher.step
    dsimp only
    split
    · exact ⟨h.flag, fun hnotified hasleep => h.awake hnotified (LoopPc.asleep_of_notify hasleep)⟩
    · exact h
  | worker success => exact h.worker maxRetries success
  | spurious =>
    exact ⟨h.flag, fun hnotified hasleep => h.awake hnotified (LoopPc.asleep_of_notify hasleep)⟩
  | shutdown => exact h.shutdown (hfits rfl)
  | tick duration => exact ⟨h.flag, h.awake⟩

theorem Kept.good (h : Kept s) (maxRetries : Nat) {history : List Empty} {a : WebhookStep}
    (hfits : StepFits history s a) : StepGood maxRetries history s a := by
  rintro ⟨hstop, hworker, -⟩
  exact (h.step maxRetries hfits).awake (by rw [hstop]; rfl) ⟨.waiting, hworker, .inr rfl⟩

theorem kept_start : Kept start := ⟨rfl, fun hnotified => by cases hnotified⟩

end WebhookDispatcher

/-- Along runs in which `shutdown` notifies at the right moment both background threads stop, and
nothing that was recorded is lost. -/
theorem along_stops (maxRetries : Nat) (log : List AuditStep) (webhooks : List WebhookStep)
    (hlog : AuditLog.machine.Along AuditLog.StepFits [] AuditLog.start log)
    (hwebhooks : (WebhookDispatcher.machine maxRetries).Along WebhookDispatcher.StepFits []
      WebhookDispatcher.start webhooks) :
    AuditLog.machine.Along AuditLog.StepGood [] AuditLog.start log ∧
      (WebhookDispatcher.machine maxRetries).Along (WebhookDispatcher.StepGood maxRetries) []
        WebhookDispatcher.start webhooks :=
  ⟨Machine.along_imp (fun _ _ _ h hfits => h.step hfits) (fun _ _ _ h hfits => h.good hfits)
      AuditLog.kept_start hlog,
    Machine.along_imp (I := fun _ => WebhookDispatcher.Kept)
      (fun _ _ _ h hfits => h.step maxRetries hfits)
      (fun _ _ _ h hfits => h.good maxRetries hfits) WebhookDispatcher.kept_start hwebhooks⟩

/-- The writer waits, is woken for one entry, and waits again when it is stopped. -/
def oneEntry : List AuditStep :=
  List.replicate 4 AuditStep.writer ++ [AuditStep.record 0 "start", .push 0, .notify 0] ++
    List.replicate 10 AuditStep.writer ++ List.replicate 3 AuditStep.shutdown ++
    List.replicate 5 AuditStep.writer ++ List.replicate 2 AuditStep.shutdown

def oneWebhook : List WebhookStep :=
  List.replicate 4 (WebhookStep.worker true) ++
    [WebhookStep.dispatch 0 "http://10.0.0.1/" "" "start", .push 0, .notify 0] ++
    List.replicate 8 (WebhookStep.worker true) ++ List.replicate 3 WebhookStep.shutdown ++
    List.replicate 4 (WebhookStep.worker true) ++ List.replicate 2 WebhookStep.shutdown

theorem oneEntry_stops : AuditLog.machine.Along AuditLog.StepGood [] AuditLog.start oneEntry ∧
    (WebhookDispatcher.machine 3).Along (WebhookDispatcher.StepGood 3) [] WebhookDispatcher.start
      oneWebhook :=
  along_stops 3 oneEntry oneWebhook (by decide +kernel) (by decide +kernel)

/-- The notification comes between the look at the flag and the wait. -/
def lateWait : List AuditStep :=
  List.replicate 3 AuditStep.writer ++ List.replicate 3 AuditStep.shutdown

def lateWebhookWait : List WebhookStep :=
  List.replicate 3 (WebhookStep.worker true) ++ List.replicate 3 WebhookStep.shutdown

/-- Each background thread waits for ever, and `shutdown` for it. -/
theorem lateWait_not_stops :
    ¬ AuditLog.machine.Along AuditLog.StepGood [] AuditLog.start (lateWait ++ [.writer]) ∧
      ¬ (WebhookDispatcher.machine 3).Along (WebhookDispatcher.StepGood 3) []
        WebhookDispatcher.start (lateWebhookWait ++ [.worker true]) := by
  constructor
  · intro h
    obtain ⟨-, hlast, -⟩ := Machine.along_append.mp h
    exact hlast.notStuck ⟨by decide +kernel, by decide +kernel, fun _ => rfl⟩
  · intro h
    obtain ⟨-, hlast, -⟩ := Machine.along_append.mp h
    exact hlast ⟨by decide +kernel, by decide +kernel, fun _ => rfl⟩

end Alpine
