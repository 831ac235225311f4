import Alpine.Lib.Run

/-!
# A thread that is resumed again and again

The owner of an `AutoThread` calls `create` and `destroy`, any threads call `resume`, and the thread
of the object goes its way in between. A wait is a step that is taken when its predicate holds. A
`resume` counts from the time when it sets `resumed_`, since the thread may start before it has
returned. No `resume` is lost (`starts_of_resumed`), none counts twice (`starts_le_resumes`), and
nothing runs behind a `destroy` (`quiet_of_destroyed`), even if `create` is called again:
`destroyed_` is never taken down.
-/

namespace Alpine

open Lib

/-- Where the owner is: what was done last in its call. -/
inductive AutoOwner where
  | idle
  /-- In `create`: the thread is made. -/
  | launched
  /-- `created_` is set. -/
  | marked
  /-- In `destroy`: `destroyed_` is set. -/
  | destroying
  /-- The stop is requested. -/
  | requested
  /-- `resumed_` is set, and the thread notified. -/
  | notified
  /-- The thread is joined. -/
  | joined
  /-- `created_` is taken down. -/
  | unmarked
  deriving DecidableEq

/-- Where a call of `resume` is. -/
inductive ResumeCall where
  | idle
  /-- The object was created. -/
  | created
  /-- And not running. -/
  | stopped
  /-- `resumed_` is set. -/
  | resumed
  deriving DecidableEq

/-- Where the thread is. -/
inductive AutoBody where
  | none
  /-- In a wait, the first or the one in the loop. -/
  | waiting
  /-- Behind the wait. -/
  | woken
  /-- Before `running_` is set and `threadMain` called. -/
  | starting
  | main
  /-- Behind `threadMain`. -/
  | ended
  /-- `running_` is taken down. -/
  | paused
  | finished
  deriving DecidableEq

structure AutoThread where
  created : Bool
  running : Bool
  resumed : Bool
  destroyed : Bool
  /-- A stop of the thread is requested. -/
  stopRequested : Bool
  owner : AutoOwner
  callers : Nat → ResumeCall
  thread : AutoBody

inductive AutoStep where
  | create
  | destroy
  /-- The next part of the owner's call. -/
  | proceed
  /-- The next part of a caller's `resume`. -/
  | resume (caller : Nat)
  /-- The next part of the thread. -/
  | body
  deriving DecidableEq

inductive AutoEvent where
  | createReturned (status : Bool)
  | destroyReturned
  | resumeReturned (status : Bool)
  /-- A `resume` has set `resumed_`. -/
  | resumed
  | mainStarted
  deriving DecidableEq

namespace AutoThread

/-- `AutoThread ()`. -/
def new : AutoThread := ⟨false, false, false, false, false, .idle, fun _ => .idle, .none⟩

def setCaller (s : AutoThread) (caller : Nat) (place : ResumeCall) : AutoThread :=
  { s with callers := Function.update s.callers caller place }

def ownerStep (s : AutoThread) : AutoThread × List AutoEvent :=
  match s.owner with
  | .idle => (s, [])
  | .launched => ({ s with created := true, owner := .marked }, [])
  | .marked => ({ s with running := false, owner := .idle }, [.createReturned true])
  | .destroying => ({ s with stopRequested := true, owner := .requested }, [])
  | .requested => ({ s with resumed := true, owner := .notified }, [])
  | .notified =>
    -- An object without a thread has nothing to join.
    if s.thread = .none ∨ s.thread = .finished then ({ s with owner := .joined }, []) else (s, [])
  | .joined => ({ s with created := false, owner := .unmarked }, [])
  | .unmarked => ({ s with running := false, owner := .idle }, [.destroyReturned])

def resumeStep (s : AutoThread) (caller : Nat) : AutoThread × List AutoEvent :=
  match s.callers caller with
  | .idle =>
    if s.created then (s.setCaller caller .created, []) else (s, [.resumeReturned false])
  | .created =>
    if s.running then (s.setCaller caller .idle, [.resumeReturned false])
    else (s.setCaller caller .stopped, [])
  | .stopped => ({ s with resumed := true }.setCaller caller .resumed, [.resumed])
  | .resumed => (s.setCaller caller .idle, [.resumeReturned true])

/-- `threadEntry`. -/
def bodyStep (s : AutoThread) : AutoThread × List AutoEvent :=
  match s.thread with
  | .none => (s, [])
  | .waiting =>
    if s.resumed ∨ s.stopRequested then ({ s with resumed := false, thread := .woken }, [])
    else (s, [])
  | .woken =>
    ({ s with thread := if s.destroyed ∨ s.stopRequested then .finished else .starting }, [])
  | .starting => ({ s with running := true, thread := .main }, [.mainStarted])
  | .main => ({ s with thread := .ended }, [])
  | .ended => ({ s with running := false, thread := .paused }, [])
  | .paused =>
    ({ s with thread := if s.destroyed ∨ s.stopRequested then .finished else .waiting }, [])
  | .finished => (s, [])

def step (s : AutoThread) : AutoStep → AutoThread × List AutoEvent
  | .create =>
    if s.owner ≠ .idle then (s, [])
    else if s.created then (s, [.createReturned false])
    else ({ s with stopRequested := false, owner := .launched, thread := .waiting }, [])
  | .destroy =>
    if s.owner ≠ .idle then (s, []) else ({ s with destroyed := true, owner := .destroying }, [])
  | .proceed => s.ownerStep
  | .resume caller => s.resumeStep caller
  | .body => s.bodyStep

def machine : Machine AutoThread AutoStep AutoEvent := ⟨step⟩

variable {history : List AutoEvent} {s : AutoThread} {a : AutoStep}

@[grind =] theorem setCaller_callers (s : AutoThread) (caller other : Nat) (place : ResumeCall) :
    (s.setCaller caller place).callers other = if other = caller then place else s.callers other :=
  Function.update_apply ..

/-! ## An object that is not destroyed -/

/-- What holds of the object as long as `destroyed_` is not set. -/
structure Alive (s : AutoThread) : Prop where
  requested : s.stopRequested = false
  owner : s.owner = .idle ∨ s.owner = .launched ∨ s.owner = .marked ∧ s.created = true
  unfinished : s.thread ≠ .finished
  thread : s.thread = .none ↔ s.created = false ∧ s.owner = .idle
  callers : ∀ caller, s.callers caller ≠ .idle → s.created = true

theorem alive_step (h : Alive s) (hkept : (s.step a).1.destroyed = false) : Alive (s.step a).1 := by
  obtain ⟨hrequested, howner, hunfinished, hthread, hcallers⟩ := h
  cases a with
  | create =>
    rw [step]
    split_ifs <;> constructor <;> grind
  | destroy =>
    rw [step] at hkept ⊢
    constructor <;> grind
  | proceed =>
    rw [step, ownerStep]
    constructor <;> grind
  | resume caller =>
    rw [step, resumeStep]
    constructor <;> grind [setCaller]
  | body =>
    rw [step] at hkept ⊢
    unfold bodyStep at hkept ⊢
    cases ht : s.thread <;> dsimp only <;> (try split) <;> constructor <;> grind

/-- `destroyed_` is never taken down. -/
theorem destroyed_step (h : s.destroyed = true) : (s.step a).1.destroyed = true := by
  cases a <;> rw [step] <;> grind [ownerStep, resumeStep, bodyStep, setCaller]

theorem destroyed_run (steps : List AutoStep) (h : (machine.run s steps).1.destroyed = false) :
    s.destroyed = false := by
  induction steps generalizing s with
  | nil => exact h
  | cons a steps ih =>
    by_contra hs
    exact absurd (ih h) (by simp [machine, destroyed_step (s := s) (by simpa using hs)])

/-! ## An object that is destroyed -/

/-- The thread does not start `threadMain` any more. -/
def Gone (s : AutoThread) : Prop :=
  s.destroyed = true ∧
    (s.thread = .none ∨ s.thread = .waiting ∨ s.thread = .woken ∨ s.thread = .finished)

theorem gone_step (h : Gone s) : Gone (s.step a).1 ∧ .mainStarted ∉ (s.step a).2 := by
  unfold Gone at h ⊢
  cases a <;> rw [step] <;> grind [ownerStep, resumeStep, bodyStep, setCaller]

/-! ## Whole runs -/

/-- How often the thread may still start `threadMain` for the calls of `resume` so far. -/
def due (s : AutoThread) : Nat :=
  (if s.thread = .starting then 1 else 0) +
    if s.destroyed then 0 else (if s.thread = .woken then 1 else 0) + s.resumed.toNat

theorem due_step (h : s.destroyed = false → Alive s) :
    (s.step a).2.count .mainStarted + (s.step a).1.due ≤
      s.due + (s.step a).2.count .resumed := by
  cases hdestroyed : s.destroyed with
  | true => cases a <;> rw [step] <;> grind [due, ownerStep, resumeStep, bodyStep, setCaller]
  | false =>
    obtain ⟨hrequested, howner, -⟩ := h hdestroyed
    cases a <;> rw [step] <;> grind [due, ownerStep, resumeStep, bodyStep, setCaller]

structure Follows (history : List AutoEvent) (s : AutoThread) : Prop where
  alive : s.destroyed = false → Alive s
  joined : s.owner = .joined ∨ s.owner = .unmarked → s.thread = .none ∨ s.thread = .finished
  gone : .destroyReturned ∈ history → Gone s
  counted : history.count .mainStarted + s.due ≤ history.count .resumed

theorem Follows.step (h : Follows history s) (a : AutoStep) :
    Follows (history ++ (s.step a).2) (s.step a).1 where
  alive hkept := alive_step (h.alive (destroyed_run [a] hkept)) hkept
  joined := by
    have := h.joined
    cases a <;> rw [AutoThread.step] <;> grind [ownerStep, resumeStep, bodyStep, setCaller]
  gone hmem := by
    rcases List.mem_append.mp hmem with hmem | hmem
    · exact (gone_step (h.gone hmem)).1
    · have hthread := h.joined
      have howner hkept := (h.alive hkept).owner
      unfold Gone
      cases a <;> rw [AutoThread.step] at hmem ⊢ <;> grind [ownerStep, resumeStep, bodyStep]
  counted := by
    have := due_step h.alive (a := a)
    have := h.counted
    simp only [List.count_append]
    omega

theorem follows_run (steps : List AutoStep) :
    Follows (machine.run new steps).2 (machine.run new steps).1 :=
  Machine.run_invariant (fun _ _ a h => h.step a) (h := []) steps
    ⟨fun _ => ⟨rfl, .inl rfl, nofun, by simp [new], by simp [new]⟩, fun _ => .inl rfl, nofun,
      Nat.le_refl 0⟩

/-- In every run `threadMain` has been started at most once for each `resume` that has set
`resumed_`. -/
theorem starts_le_resumes (steps : List AutoStep) :
    (machine.run new steps).2.count .mainStarted ≤ (machine.run new steps).2.count .resumed :=
  Nat.le_trans (Nat.le_add_right ..) (follows_run steps).counted

/-- Once `destroy` has returned, `threadMain` neither runs nor starts again, whatever is called. -/
theorem quiet_of_destroyed (before after : List AutoStep)
    (h : .destroyReturned ∈ (machine.run new before).2) :
    (machine.run new (before ++ after)).1.thread ≠ .main ∧
      .mainStarted ∉ (machine.run (machine.run new before).1 after).2 := by
  obtain ⟨⟨-, hthread⟩, hquiet⟩ := Machine.run_invariant (M := machine)
    (I := fun events s => Gone s ∧ .mainStarted ∉ events)
    (fun _ _ _ hs => ⟨(gone_step hs.1).1, by simp [machine, hs.2, (gone_step hs.1).2]⟩) (h := [])
    after ⟨(follows_run before).gone h, nofun⟩
  rw [Machine.run_append]
  exact ⟨by grind, hquiet⟩

/-- A thread that is made and destroyed. -/
def torndown : List AutoStep :=
  [.create, .proceed, .proceed, .destroy, .proceed, .proceed, .body, .body, .proceed, .proceed,
    .proceed]

/-- The thread is made again and resumed. -/
def resumedAgain : List AutoStep :=
  [.create, .proceed, .proceed, .resume 0, .resume 0, .resume 0, .body, .body, .resume 0, .body]

theorem torndown_quiet :
    (machine.run new (torndown ++ resumedAgain)).1.thread ≠ .main ∧
      .mainStarted ∉ (machine.run (machine.run new torndown).1 resumedAgain).2 :=
  quiet_of_destroyed _ _ (by decide)

/-! ## The way to `threadMain` -/

/-- How many steps the thread is before `threadMain` starts. -/
def distance : AutoBody → Nat
  | .starting => 1
  | .woken => 2
  | .waiting => 3
  | .paused => 4
  | .ended => 5
  | _ => 6

/-- The thread does not wait before `threadMain`. -/
def Awake (s : AutoThread) : Prop := s.resumed = true ∨ s.thread = .woken ∨ s.thread = .starting

theorem awake_step (h : Alive s) (hthread : s.thread ≠ .none) (hawake : Awake s)
    (hkept : (s.step a).1.destroyed = false) (hquiet : .mainStarted ∉ (s.step a).2) :
    (s.step a).1.thread ≠ .none ∧ Awake (s.step a).1 ∧
      distance (s.step a).1.thread + [a].count .body ≤ distance s.thread := by
  obtain ⟨hrequested, howner, hunfinished, hnone, -⟩ := h
  unfold Awake at hawake ⊢
  cases a <;> rw [step] at * <;> grind [ownerStep, resumeStep, bodyStep, setCaller, distance]

theorem starts_of_awake {steps : List AutoStep} (h : Alive s) (hthread : s.thread ≠ .none)
    (hawake : Awake s) (hcount : distance s.thread ≤ steps.count .body)
    (hkept : (machine.run s steps).1.destroyed = false) :
    .mainStarted ∈ (machine.run s steps).2 := by
  induction steps generalizing s with
  | nil => cases ht : s.thread <;> simp [ht, distance] at hcount
  | cons a steps ih =>
    have hkept' : (s.step a).1.destroyed = false := destroyed_run _ hkept
    by_cases hstarted : .mainStarted ∈ (s.step a).2
    · exact List.mem_append_left _ hstarted
    · obtain ⟨hthread', hawake', hless⟩ := awake_step h hthread hawake hkept' hstarted
      refine List.mem_append_right _ (ih (s := (s.step a).1) (alive_step h hkept') hthread' hawake'
        ?_ hkept)
      rw [List.count_cons] at hcount
      simp only [List.count_cons, List.count_nil] at hless
      omega

/-- A `resume` that has set `resumed_`, and so returns true, has the thread start `threadMain` in
six steps of its own, unless the object is destroyed. -/
theorem starts_of_resumed (before : List AutoStep) (caller : Nat) (after : List AutoStep)
    (hresumed : .resumed ∈ ((machine.run new before).1.step (.resume caller)).2)
    (hcount : 6 ≤ after.count .body)
    (hkept : (machine.run new (before ++ .resume caller :: after)).1.destroyed = false) :
    .mainStarted ∈ (machine.run ((machine.run new before).1.step (.resume caller)).1 after).2 := by
  rw [Machine.run_append] at hkept
  have hafter : ((machine.run new before).1.step (.resume caller)).1.destroyed = false :=
    destroyed_run _ hkept
  have halive := (follows_run before).alive (destroyed_run _ hkept)
  have hstopped : (machine.run new before).1.callers caller = .stopped := by
    rw [step] at hresumed
    grind [resumeStep]
  have hcreated := halive.callers caller (by simp [hstopped])
  refine starts_of_awake (alive_step halive hafter) ?_ (.inl ?_) (Nat.le_trans ?_ hcount) hkept
  · simp [step, resumeStep, hstopped, setCaller, halive.thread, hcreated]
  · simp [step, resumeStep, hstopped, setCaller]
  · cases ((machine.run new before).1.step (.resume caller)).1.thread <;> decide

theorem firstResume_starts :
    .mainStarted ∈ (machine.run ((machine.run new [.create, .proceed, .resume 0, .resume 0]).1.step
      (.resume 0)).1 (List.replicate 6 .body)).2 :=
  starts_of_resumed _ _ _ (by decide) (by decide) rfl

end AutoThread
end Alpine
