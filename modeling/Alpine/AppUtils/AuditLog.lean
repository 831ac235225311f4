import Mathlib.Data.List.Infix
import Mathlib.Data.List.TakeWhile
import Alpine.Lib.CondVar
import Alpine.Lib.Run

/-!
# The audit log

Calls of `record` queue entries, and a thread writes them to the file. A step is an action of one
thread: under the mutex or, as the change of the flag and the notifications, without it. Sections of
`record` and `shutdown` under the mutex are one step each, so only the writer keeps it from one step
to the next.
-/

namespace Alpine

open Lib

/-- `t_AuditEntry`, and the thread that recorded it. -/
structure AuditEntry where
  caller : Nat
  json : String
  deriving DecidableEq

inductive RecordPc where
  | idle
  /-- The entry is formatted. -/
  | formatted (json : String)
  /-- The entry is in the queue. -/
  | pushed (json : String)

/-- Where `writerLoop` is when it does not wait. -/
inductive WriterPlace where
  /-- At the head of the outer loop. -/
  | loop
  /-- At the head of the inner loop, with the mutex. -/
  | draining
  /-- With an entry, and without the mutex. -/
  | writing (entry : AuditEntry)
  | relocking
  deriving DecidableEq

structure AuditLog where
  running : Bool
  queue : List AuditEntry
  file : List AuditEntry
  writer : LoopPc WriterPlace
  callers : Nat → RecordPc
  stop : StopPc

inductive AuditStep where
  | record (t : Nat) (json : String)
  | push (t : Nat)
  | notify (t : Nat)
  | writer
  /-- The wait ends without a notification. -/
  | spurious
  | shutdown
  deriving DecidableEq

inductive AuditEvent where
  | pushed (entry : AuditEntry)
  /-- The call that recorded the entry returns. -/
  | returned (entry : AuditEntry)
  | shutdownCalled

namespace AuditLog

/-- The writer has the mutex. -/
def hasLock : LoopPc WriterPlace → Bool
  | .wait pc => pc.hasLock
  | .body .draining => true
  | _ => false

/-- An entry that is out of the queue and not in the file. -/
def inHand : LoopPc WriterPlace → List AuditEntry
  | .body (.writing entry) => [entry]
  | _ => []

/-- After `initialize`. -/
def start : AuditLog where
  running := true
  queue := []
  file := []
  writer := .body .loop
  callers _ := .idle
  stop := .idle

def setCaller (s : AuditLog) (t : Nat) (pc : RecordPc) : AuditLog :=
  { s with callers := Function.update s.callers t pc }

def writerLoop (s : AuditLog) : AuditLog :=
  match s.writer with
  | .body .loop => { s with writer := if s.running then .wait .locking else .ended }
  | .wait pc =>
    match pc.step (!s.queue.isEmpty || !s.running) with
    | none => { s with writer := .body .draining }
    | some pc' => { s with writer := .wait pc' }
  | .body .draining =>
    match s.queue with
    | [] => { s with writer := .body .loop }
    | entry :: queue => { s with queue, writer := .body (.writing entry) }
  | .body (.writing entry) => { s with file := s.file ++ [entry], writer := .body .relocking }
  | .body .relocking => { s with writer := .body .draining }
  | .ended => s

def shutdown (s : AuditLog) : AuditLog × List AuditEvent :=
  match s.stop with
  | .idle => ({ s with stop := if s.running then .stopping else .done }, [.shutdownCalled])
  | .stopping => ({ s with running := false, stop := .notifying }, [])
  | .notifying => ({ s with writer := s.writer.notify, stop := .joining }, [])
  | .joining => (if s.writer = .ended then { s with stop := .draining } else s, [])
  | .draining => ({ s with file := s.file ++ s.queue, queue := [], stop := .done }, [])
  | .done => (s, [])

def step (s : AuditLog) : AuditStep → AuditLog × List AuditEvent
  | .record t json =>
    match s.callers t with
    | .idle => (if s.running then s.setCaller t (.formatted json) else s, [])
    | _ => (s, [])
  | .push t =>
    match s.callers t with
    | .formatted json =>
      if hasLock s.writer then (s, [])
      else
        let entry : AuditEntry := ⟨t, json⟩
        ({ s with queue := s.queue ++ [entry] }.setCaller t (.pushed json), [.pushed entry])
    | _ => (s, [])
  | .notify t =>
    match s.callers t with
    | .pushed json =>
      ({ s with writer := s.writer.notify }.setCaller t .idle, [.returned ⟨t, json⟩])
    | _ => (s, [])
  | .writer => (s.writerLoop, [])
  | .spurious => ({ s with writer := s.writer.notify }, [])
  | .shutdown => s.shutdown

def machine : Machine AuditLog AuditStep AuditEvent := ⟨step⟩

end AuditLog

/-!
## Runs of the audit log

What is in the file, in the writer's hand and in the queue is what was pushed, in this order, so the
file has the entries of a thread in the order in which it recorded them, each once; and after
`shutdown` it has all whose call returned before. `shutdown` changes the flag and notifies without
the mutex, so its notification may come between the writer's look at the flag and its wait, and the
writer is `Stuck`. `StepFits` leaves only this out.
-/

namespace AuditEvent

def pushed? : AuditEvent → Option AuditEntry
  | .pushed entry => some entry
  | _ => none

def returned? : AuditEvent → Option AuditEntry
  | .returned entry => some entry
  | _ => none

def isShutdown : AuditEvent → Bool
  | .shutdownCalled => true
  | _ => false

end AuditEvent

namespace AuditLog

/-- The entries that a thread recorded, of those of a list. -/
def ofCaller (t : Nat) (entries : List AuditEntry) : List AuditEntry :=
  entries.filter fun entry => entry.caller = t

def pushes (history : List AuditEvent) : List AuditEntry := history.filterMap AuditEvent.pushed?

def returns (history : List AuditEvent) : List AuditEntry := history.filterMap AuditEvent.returned?

/-- The entries whose call returned before `shutdown` was called. -/
def settled (history : List AuditEvent) : List AuditEntry :=
  returns (history.takeWhile fun e => !e.isShutdown)

/-- `shutdown` waits for the end of the writer, which waits for a notification, and there is no call
that still makes one; calls that begin now return at once. -/
def Stuck (s : AuditLog) : Prop :=
  s.stop = .joining ∧ s.writer = .wait .waiting ∧ ∀ t, s.callers t = .idle

/-- When `shutdown` has returned, the file has the entries of every thread in the order in which it
recorded them, each once, and at least those whose call returned before `shutdown` was called. -/
def Written (history : List AuditEvent) (s : AuditLog) : Prop :=
  s.stop = .done → ∀ t, ofCaller t (settled history) <+: ofCaller t s.file ∧
    ofCaller t s.file <+: ofCaller t (pushes history)

/-- What must hold after a step. -/
structure StepGood (history : List AuditEvent) (s : AuditLog) (a : AuditStep) : Prop where
  notStuck : ¬ Stuck (s.step a).1
  written : Written (history ++ (s.step a).2) (s.step a).1

/-- The notification of `shutdown` does not come between the writer's look at the flag and its
wait. -/
def StepFits (_ : List AuditEvent) (s : AuditLog) (a : AuditStep) : Prop :=
  a = .shutdown → s.stop = .notifying → s.writer ≠ .wait .blocking

instance (history : List AuditEvent) (s : AuditLog) (a : AuditStep) :
    Decidable (StepFits history s a) :=
  inferInstanceAs (Decidable (_ → _ → _ ≠ _))

/-! ### Order -/

/-- The entry that a call has pushed before it returns. -/
def pending (t : Nat) : RecordPc → List AuditEntry
  | .pushed json => [⟨t, json⟩]
  | _ => []

/-- What the steps keep, whatever the schedule. -/
structure Ordered (history : List AuditEvent) (s : AuditLog) : Prop where
  order : pushes history = s.file ++ inHand s.writer ++ s.queue
  calls : ∀ t, ofCaller t (pushes history) =
    ofCaller t (returns history) ++ pending t (s.callers t)
  called : s.stop ≠ .idle → ∃ e ∈ history, e.isShutdown = true
  flag : s.running = decide (s.stop = .idle ∨ s.stop = .stopping)
  joined : s.stop = .draining ∨ s.stop = .done → s.writer = .ended
  settled : s.stop = .done → ∀ t, ofCaller t (settled history) <+: ofCaller t s.file

variable {history : List AuditEvent} {s : AuditLog}

theorem pushes_append (history events : List AuditEvent) :
    pushes (history ++ events) = pushes history ++ pushes events := List.filterMap_append

theorem returns_append (history events : List AuditEvent) :
    returns (history ++ events) = returns history ++ returns events := List.filterMap_append

theorem ofCaller_append (t : Nat) (entries more : List AuditEntry) :
    ofCaller t (entries ++ more) = ofCaller t entries ++ ofCaller t more := List.filter_append ..

/-- After `shutdown` was called nothing more is settled. -/
theorem settled_append (h : ∃ e ∈ history, e.isShutdown = true) (events : List AuditEvent) :
    settled (history ++ events) = settled history := by
  unfold AuditLog.settled
  obtain ⟨e, he, hshutdown⟩ := h
  rw [List.takeWhile_append, if_neg]
  intro hlength
  rw [← (List.takeWhile_prefix _).eq_of_length hlength] at he
  have hbefore := List.mem_takeWhile_imp he
  rw [hshutdown] at hbefore
  cases hbefore

/-- Settled entries were pushed before. -/
theorem Ordered.settled_pushed (h : Ordered history s) (t : Nat) :
    ofCaller t (AuditLog.settled history) <+: ofCaller t (pushes history) := by
  have hreturned : AuditLog.settled history <+: returns history :=
    (List.takeWhile_prefix _).filterMap _
  rw [h.calls t]
  exact (hreturned.filter _).trans (List.prefix_append _ _)

/-- A step of the writer: what it takes from one place it puts at the next. -/
theorem inHand_writerLoop (s : AuditLog) :
    s.writerLoop.file ++ inHand s.writerLoop.writer ++ s.writerLoop.queue =
      s.file ++ inHand s.writer ++ s.queue := by
  unfold writerLoop
  cases hwriter : s.writer with
  | wait pc =>
    dsimp only
    split
    · rfl
    · rfl
  | body place =>
    cases place with
    | loop =>
      dsimp only
      split
      · rfl
      · rfl
    | draining =>
      dsimp only
      cases hqueue : s.queue with
      | nil => rfl
      | cons entry queue =>
        dsimp only [inHand]
        rw [List.append_nil, List.append_assoc]
        rfl
    | writing entry =>
      dsimp only [inHand]
      rw [List.append_nil]
    | relocking => rfl
  | ended =>
    dsimp only
    rw [hwriter]

theorem inHand_notify (pc : LoopPc WriterPlace) : inHand pc.notify = inHand pc := by
  cases pc <;> rfl

/-- A notification moves no entry. -/
theorem Ordered.order_notify (h : Ordered history s) :
    pushes history = s.file ++ inHand s.writer.notify ++ s.queue := by
  rw [inHand_notify]
  exact h.order

theorem ended_of_notify {pc : LoopPc WriterPlace} (h : pc = .ended) : pc.notify = .ended := by
  rw [h]
  rfl

/-- The writer's steps leave the rest alone. -/
theorem writerLoop_rest (s : AuditLog) : s.writerLoop.callers = s.callers ∧
    s.writerLoop.stop = s.stop ∧ s.writerLoop.running = s.running := by
  unfold writerLoop
  split
  · exact ⟨rfl, rfl, rfl⟩
  · split
    · exact ⟨rfl, rfl, rfl⟩
    · exact ⟨rfl, rfl, rfl⟩
  · split
    · exact ⟨rfl, rfl, rfl⟩
    · exact ⟨rfl, rfl, rfl⟩
  · exact ⟨rfl, rfl, rfl⟩
  · exact ⟨rfl, rfl, rfl⟩
  · exact ⟨rfl, rfl, rfl⟩

theorem writerLoop_of_ended (h : s.writer = .ended) : s.writerLoop = s := by
  unfold writerLoop
  rw [h]

theorem Ordered.writer (h : Ordered history s) : Ordered history s.writerLoop := by
  obtain ⟨hcallers, hstop, hrunning⟩ := writerLoop_rest s
  refine ⟨?_, ?_, ?_, ?_, ?_, ?_⟩
  · rw [h.order]
    exact (inHand_writerLoop s).symm
  · rw [hcallers]
    exact h.calls
  · rw [hstop]
    exact h.called
  · rw [hstop, hrunning]
    exact h.flag
  · rw [hstop]
    intro hend
    rw [writerLoop_of_ended (h.joined hend)]
    exact h.joined hend
  · rw [hstop]
    intro hdone
    rw [writerLoop_of_ended (h.joined (.inr hdone))]
    exact h.settled hdone

/-- A thread's place changes, and not what it has pushed. -/
theorem Ordered.setCaller (h : Ordered history s) {t : Nat} {pc : RecordPc}
    (hpc : pending t pc = pending t (s.callers t)) : Ordered history (s.setCaller t pc) := by
  refine ⟨h.order, fun t' => ?_, h.called, h.flag, h.joined, h.settled⟩
  rw [h.calls t']
  unfold AuditLog.setCaller
  dsimp only
  by_cases ht : t' = t
  · subst ht
    rw [Function.update_self, hpc]
  · rw [Function.update_of_ne ht]

theorem ofCaller_single (t : Nat) (entry : AuditEntry) :
    ofCaller t [entry] = if entry.caller = t then [entry] else [] := by
  unfold ofCaller
  rw [List.filter_singleton]
  by_cases h : entry.caller = t
  · rw [if_pos h, decide_eq_true h]
    rfl
  · rw [if_neg h, decide_eq_false h]
    rfl

/-- A call goes on to a place with these events, which are of no other thread. -/
theorem Ordered.calls_setCaller (h : Ordered history s) {t : Nat} {pc : RecordPc}
    {events : List AuditEvent}
    (hself : ofCaller t (pushes (history ++ events)) =
      ofCaller t (returns (history ++ events)) ++ pending t pc)
    (hother : ∀ t', t' ≠ t → ofCaller t' (pushes events) = [] ∧ ofCaller t' (returns events) = [])
    (t' : Nat) :
    ofCaller t' (pushes (history ++ events)) =
      ofCaller t' (returns (history ++ events)) ++ pending t' ((s.setCaller t pc).callers t') := by
  unfold AuditLog.setCaller
  dsimp only
  by_cases ht : t' = t
  · subst ht
    rw [Function.update_self]
    exact hself
  · obtain ⟨hpushes, hreturns⟩ := hother t' ht
    rw [Function.update_of_ne ht, pushes_append, returns_append, ofCaller_append, ofCaller_append,
      hpushes, hreturns, List.append_nil, List.append_nil, h.calls]

theorem Ordered.called_append (h : Ordered history s) (events : List AuditEvent)
    (hstop : s.stop ≠ .idle) : ∃ e ∈ history ++ events, e.isShutdown = true := by
  obtain ⟨e, he, hshutdown⟩ := h.called hstop
  exact ⟨e, List.mem_append_left _ he, hshutdown⟩

theorem Ordered.settled_done (h : Ordered history s) (events : List AuditEvent)
    (hdone : s.stop = .done) (t : Nat) :
    ofCaller t (AuditLog.settled (history ++ events)) <+: ofCaller t s.file := by
  rw [settled_append (h.called (by rw [hdone]; exact nofun))]
  exact h.settled hdone t

theorem ofCaller_of_ne {t t' : Nat} (ht : t' ≠ t) (json : String) :
    ofCaller t' [⟨t, json⟩] = [] := by
  rw [ofCaller_single, if_neg (Ne.symm ht)]

theorem ofCaller_self (t : Nat) (json : String) : ofCaller t [⟨t, json⟩] = [⟨t, json⟩] := by
  rw [ofCaller_single, if_pos rfl]

theorem Ordered.push (h : Ordered history s) {t : Nat} {json : String}
    (hpc : s.callers t = .formatted json) :
    Ordered (history ++ [AuditEvent.pushed ⟨t, json⟩])
      ({ s with queue := s.queue ++ [AuditEntry.mk t json] }.setCaller t (.pushed json)) := by
  have hpushes : pushes (history ++ [AuditEvent.pushed ⟨t, json⟩]) =
      pushes history ++ [⟨t, json⟩] :=
    pushes_append history _
  have hreturns : returns (history ++ [AuditEvent.pushed ⟨t, json⟩]) = returns history :=
    (returns_append history _).trans (List.append_nil _)
  refine ⟨?_, h.calls_setCaller ?_ fun t' ht => ⟨ofCaller_of_ne ht json, rfl⟩,
    h.called_append _, h.flag, h.joined, h.settled_done _⟩
  · rw [hpushes, h.order, List.append_assoc]
    rfl
  · rw [hpushes, hreturns, ofCaller_append, h.calls, hpc, ofCaller_self]
    unfold pending
    dsimp only
    rw [List.append_nil]

theorem Ordered.notify (h : Ordered history s) {t : Nat} {json : String}
    (hpc : s.callers t = .pushed json) :
    Ordered (history ++ [AuditEvent.returned ⟨t, json⟩])
      ({ s with writer := s.writer.notify }.setCaller t .idle) := by
  have hpushes : pushes (history ++ [AuditEvent.returned ⟨t, json⟩]) = pushes history :=
    (pushes_append history _).trans (List.append_nil _)
  have hreturns : returns (history ++ [AuditEvent.returned ⟨t, json⟩]) =
      returns history ++ [⟨t, json⟩] :=
    returns_append history _
  refine ⟨?_, h.calls_setCaller ?_ fun t' ht => ⟨rfl, ofCaller_of_ne ht json⟩,
    h.called_append _, h.flag, fun hend => ended_of_notify (h.joined hend), h.settled_done _⟩
  · rw [hpushes]
    exact h.order_notify
  · rw [hpushes, hreturns, ofCaller_append, h.calls, hpc, ofCaller_self]
    unfold pending
    dsimp only
    rw [List.append_nil]

theorem Ordered.shutdown (h : Ordered history s) :
    Ordered (history ++ s.shutdown.2) s.shutdown.1 := by
  unfold AuditLog.shutdown
  cases hstop : s.stop with
  | idle =>
    have hrunning : s.running = true := by rw [h.flag, hstop]; rfl
    dsimp only
    rw [hrunning, if_pos rfl]
    have hpushes : pushes (history ++ [AuditEvent.shutdownCalled]) = pushes history :=
      (pushes_append history _).trans (List.append_nil _)
    have hreturns : returns (history ++ [AuditEvent.shutdownCalled]) = returns history :=
      (returns_append history _).trans (List.append_nil _)
    refine ⟨?_, fun t => ?_, fun _ => ?_, rfl, ?_, fun hdone => by cases hdone⟩
    · rw [hpushes]
      exact h.order
    · rw [hpushes, hreturns]
      exact h.calls t
    · exact ⟨.shutdownCalled, List.mem_append_right _ List.mem_cons_self, rfl⟩
    · rintro (hend | hend) <;> cases hend
  | stopping =>
    dsimp only
    rw [List.append_nil]
    refine ⟨h.order, h.calls, fun _ => h.called (by rw [hstop]; exact nofun), rfl, ?_,
      fun hdone => by cases hdone⟩
    rintro (hend | hend) <;> cases hend
  | notifying =>
    dsimp only
    rw [List.append_nil]
    refine ⟨h.order_notify, h.calls, fun _ => h.called (by rw [hstop]; exact nofun), ?_, ?_,
      fun hdone => by cases hdone⟩
    · rw [h.flag, hstop]
      rfl
    · rintro (hend | hend) <;> cases hend
  | joining =>
    dsimp only
    rw [List.append_nil]
    split
    · next hended =>
      refine ⟨h.order, h.calls, fun _ => h.called (by rw [hstop]; exact nofun), ?_, fun _ => hended,
        fun hdone => by cases hdone⟩
      rw [h.flag, hstop]
      rfl
    · exact h
  | draining =>
    dsimp only
    rw [List.append_nil]
    have hended := h.joined (.inl hstop)
    have horder : pushes history = s.file ++ s.queue := by
      rw [h.order, hended]
      unfold inHand
      dsimp only
      rw [List.append_nil]
    refine ⟨?_, h.calls, fun _ => h.called (by rw [hstop]; exact nofun), ?_, fun _ => hended,
      fun _ t => ?_⟩
    · rw [horder, hended]
      unfold inHand
      dsimp only
      rw [List.append_nil, List.append_nil]
    · rw [h.flag, hstop]
      rfl
    · rw [← horder]
      exact h.settled_pushed t
  | done =>
    dsimp only
    rw [List.append_nil]
    exact h

theorem Ordered.step (h : Ordered history s) (a : AuditStep) :
    Ordered (history ++ (s.step a).2) (s.step a).1 := by
  cases a with
  | record t json =>
    unfold AuditLog.step
    dsimp only
    cases hpc : s.callers t with
    | idle =>
      dsimp only
      rw [List.append_nil]
      split
      · exact h.setCaller (by rw [hpc]; rfl)
      · exact h
    | _ =>
      dsimp only
      rw [List.append_nil]
      exact h
  | push t =>
    unfold AuditLog.step
    dsimp only
    cases hpc : s.callers t with
    | formatted json =>
      dsimp only
      split
      · rw [List.append_nil]
        exact h
      · exact h.push hpc
    | _ =>
      dsimp only
      rw [List.append_nil]
      exact h
  | notify t =>
    unfold AuditLog.step
    dsimp only
    cases hpc : s.callers t with
    | pushed json => exact h.notify hpc
    | _ =>
      dsimp only
      rw [List.append_nil]
      exact h
  | writer =>
    rw [show history ++ (s.step .writer).2 = history from List.append_nil history]
    exact h.writer
  | spurious =>
    rw [show history ++ (s.step .spurious).2 = history from List.append_nil history]
    exact ⟨h.order_notify, h.calls, h.called, h.flag,
      fun hend => ended_of_notify (h.joined hend), h.settled⟩
  | shutdown => exact h.shutdown

theorem ordered_start : Ordered [] start :=
  ⟨rfl, fun _ => rfl, fun h => absurd rfl h, rfl, fun h => (by rcases h with h | h <;> cases h),
    fun h => by cases h⟩

/-- The file of a log that was shut down. -/
theorem Ordered.written (h : Ordered history s) : Written history s := by
  intro hdone t
  refine ⟨h.settled hdone t, ?_⟩
  rw [h.order, List.append_assoc]
  exact (List.prefix_append _ _).filter _

/-! ### Waiting -/

/-- After its notification `shutdown` does not find the writer asleep. -/
def Awake (s : AuditLog) : Prop := s.stop.notified = true → ¬ s.writer.Asleep

theorem Awake.writer (h : Awake s) (hflag : s.stop.notified = true → s.running = false) :
    Awake s.writerLoop := by
  intro hnotified
  rw [(writerLoop_rest s).2.1] at hnotified
  have hrunning := hflag hnotified
  have hawake := h hnotified
  unfold writerLoop
  cases hwriter : s.writer with
  | wait pc =>
    rw [hwriter] at hawake
    rw [hrunning, Bool.not_false, Bool.or_true]
    dsimp only
    cases hstep : pc.step true with
    | none => exact LoopPc.not_asleep_body _
    | some next => exact LoopPc.not_asleep_wait hawake hstep
  | body place =>
    cases place with
    | loop =>
      rw [hrunning]
      exact LoopPc.not_asleep_ended
    | draining =>
      dsimp only
      split
      · exact LoopPc.not_asleep_body _
      · exact LoopPc.not_asleep_body _
    | writing entry => exact LoopPc.not_asleep_body _
    | relocking => exact LoopPc.not_asleep_body _
  | ended =>
    dsimp only
    rw [hwriter]
    exact LoopPc.not_asleep_ended

theorem Awake.shutdown (h : Awake s) (hrunning : s.stop = .idle → s.running = true)
    (hfits : s.stop = .notifying → s.writer ≠ .wait .blocking) : Awake s.shutdown.1 := by
  unfold AuditLog.shutdown
  cases hstop : s.stop with
  | idle =>
    intro hnotified
    dsimp only at hnotified
    rw [hrunning hstop] at hnotified
    cases hnotified
  | stopping => exact fun hnotified => by cases hnotified
  | notifying => exact fun _ => LoopPc.not_asleep_notify (hfits hstop)
  | joining =>
    dsimp only
    split
    · exact fun _ => h (by rw [hstop]; rfl)
    · exact h
  | draining => exact fun _ => h (by rw [hstop]; rfl)
  | done => exact h

/-- What the steps of a run that fits keep. -/
structure Kept (history : List AuditEvent) (s : AuditLog) : Prop extends Ordered history s where
  awake : Awake s

theorem Kept.step (h : Kept history s) {a : AuditStep} (hfits : StepFits history s a) :
    Kept (history ++ (s.step a).2) (s.step a).1 := by
  refine ⟨h.toOrdered.step a, ?_⟩
  cases a with
  | record t json =>
    unfold AuditLog.step
    dsimp only
    split
    · dsimp only
      split
      · exact h.awake
      · exact h.awake
    · exact h.awake
  | push t =>
    unfold AuditLog.step
    dsimp only
    split
    · split
      · exact h.awake
      · exact h.awake
    · exact h.awake
  | notify t =>
    unfold AuditLog.step
    dsimp only
    split
    · exact fun hnotified hasleep => h.awake hnotified (LoopPc.asleep_of_notify hasleep)
    · exact h.awake
  | writer => exact h.awake.writer (StopPc.not_running h.flag)
  | spurious => exact fun hnotified hasleep => h.awake hnotified (LoopPc.asleep_of_notify hasleep)
  | shutdown =>
    refine h.awake.shutdown (fun hidle => ?_) (hfits rfl)
    rw [h.flag, hidle]
    rfl

theorem Kept.notStuck (h : Kept history s) : ¬ Stuck s := by
  rintro ⟨hstop, hwriter, -⟩
  exact h.awake (by rw [hstop]; rfl) ⟨.waiting, hwriter, .inr rfl⟩

theorem Kept.good (h : Kept history s) {a : AuditStep} (hfits : StepFits history s a) :
    StepGood history s a :=
  ⟨(h.step hfits).notStuck, (h.step hfits).written⟩

theorem kept_start : Kept [] start := ⟨ordered_start, fun h => by cases h⟩

end AuditLog

end Alpine
