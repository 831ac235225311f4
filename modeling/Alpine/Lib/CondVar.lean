/-!
# Waiting on a condition variable

`WaitPc` says where a thread is in `wait(lock, predicate)`. It looks at the predicate with the lock,
and blocks in a step of its own, in which it gives the lock back: a notification that comes in
between finds nobody. `Asleep` threads are those that only a notification can bring on. A thread is
not asleep after a notification that did not come in between (`not_asleep_notify`), and once the
predicate holds it does not become so (`not_asleep_of_step`).
-/

namespace Alpine.Lib

inductive WaitPc where
  /-- It takes the lock before it waits. -/
  | locking
  /-- It has the lock and looks at the predicate. -/
  | checking
  /-- It has the lock, and the predicate did not hold. -/
  | blocking
  /-- It has given the lock back and waits. -/
  | waiting
  /-- It was woken and takes the lock. -/
  | woken
  deriving DecidableEq, Repr

namespace WaitPc

/-- The next step; with `none` the wait is over, and the thread has the lock. -/
def step (predicate : Bool) : WaitPc → Option WaitPc
  | .locking => some .checking
  | .checking => if predicate then none else some .blocking
  | .blocking => some .waiting
  | .waiting => some .waiting
  | .woken => some .checking

def notify : WaitPc → WaitPc
  | .waiting => .woken
  | pc => pc

def hasLock : WaitPc → Bool
  | .checking => true
  | .blocking => true
  | _ => false

/-- It waits, or is about to. -/
def Asleep (pc : WaitPc) : Prop := pc = .blocking ∨ pc = .waiting

theorem not_asleep_notify {pc : WaitPc} (h : pc ≠ .blocking) : ¬ Asleep pc.notify := by
  cases pc with
  | blocking => exact absurd rfl h
  | _ => rintro (hpc | hpc) <;> cases hpc

theorem asleep_of_notify {pc : WaitPc} (h : Asleep pc.notify) : Asleep pc := by
  cases pc with
  | waiting => rcases h with hpc | hpc <;> cases hpc
  | _ => exact h

theorem not_asleep_of_step {pc pc' : WaitPc} (h : ¬ Asleep pc) (hstep : pc.step true = some pc') :
    ¬ Asleep pc' := by
  cases pc with
  | blocking => exact absurd (.inl rfl) h
  | waiting => exact absurd (.inr rfl) h
  | checking => cases hstep
  | _ =>
    cases hstep
    rintro (hpc | hpc) <;> cases hpc

end WaitPc

/-- Where a background thread is, with the places in the body of its loop. -/
inductive LoopPc (β : Type) where
  | wait (pc : WaitPc)
  | body (place : β)
  | ended
  deriving DecidableEq, Repr

namespace LoopPc

variable {β : Type}

def notify : LoopPc β → LoopPc β
  | .wait pc => .wait pc.notify
  | pc => pc

def Asleep (pc : LoopPc β) : Prop := ∃ wait, pc = .wait wait ∧ wait.Asleep

theorem not_asleep_notify {pc : LoopPc β} (h : pc ≠ .wait .blocking) : ¬ Asleep pc.notify := by
  rintro ⟨wait, hwait, hasleep⟩
  cases pc with
  | wait pc =>
    cases hwait
    refine WaitPc.not_asleep_notify ?_ hasleep
    rintro rfl
    exact h rfl
  | _ => cases hwait

theorem asleep_of_notify {pc : LoopPc β} (h : Asleep pc.notify) : Asleep pc := by
  obtain ⟨wait, hwait, hasleep⟩ := h
  cases pc with
  | wait pc =>
    cases hwait
    exact ⟨pc, rfl, WaitPc.asleep_of_notify hasleep⟩
  | _ => cases hwait

theorem not_asleep_body (place : β) : ¬ Asleep (.body place) := by
  rintro ⟨wait, hwait, -⟩
  cases hwait

theorem not_asleep_ended : ¬ Asleep (.ended : LoopPc β) := by
  rintro ⟨wait, hwait, -⟩
  cases hwait

/-- A step of the wait under a predicate that holds. -/
theorem not_asleep_wait {pc pc' : WaitPc} (h : ¬ Asleep (.wait pc : LoopPc β))
    (hstep : pc.step true = some pc') : ¬ Asleep (.wait pc' : LoopPc β) := by
  rintro ⟨wait, hwait, hasleep⟩
  cases hwait
  exact WaitPc.not_asleep_of_step (fun hpc => h ⟨pc, rfl, hpc⟩) hstep hasleep

end LoopPc

/-- Where a thread is that stops a background thread and waits for its end. -/
inductive StopPc where
  | idle
  /-- It has seen that the thread runs. -/
  | stopping
  /-- The flag is set, and all are to be notified. -/
  | notifying
  | joining
  /-- The thread has ended, and what is left is to be handled. -/
  | draining
  | done
  deriving DecidableEq, Repr

namespace StopPc

/-- It has notified. -/
def notified : StopPc → Bool
  | .joining => true
  | .draining => true
  | .done => true
  | _ => false

/-- The flag is down by then. -/
theorem not_running {stop : StopPc} {running : Bool}
    (hflag : running = decide (stop = .idle ∨ stop = .stopping)) (h : stop.notified = true) :
    running = false := by
  rw [hflag]
  cases stop with
  | joining => rfl
  | draining => rfl
  | done => rfl
  | _ => cases h

end StopPc

end Alpine.Lib
