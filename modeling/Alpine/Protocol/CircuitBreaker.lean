import Alpine.Lib.Run
import Alpine.Lib.UMap

/-!
# The circuit breaker

`CircuitBreaker` has a circuit for each peer that has failed. A closed circuit opens after
`failureThreshold` failures in a row, an open one is half-open when the open duration has passed,
and a half-open one lets `halfOpenMaxProbes` requests through until an outcome is recorded: a
success closes it, a failure opens it again. `BreakerState` has the time, in nanoseconds of the
steady clock, with the breaker, so that it never goes back. What was recorded of a peer is in its
`Account`, and a circuit agrees with it after every step (`Kept.step`).
-/

namespace Alpine

open Lib

inductive CircuitState where
  | Closed
  | Open
  | HalfOpen
  deriving DecidableEq, Repr

structure PeerCircuit where
  state : CircuitState
  failureCount : Int
  halfOpenProbes : Int
  openedAt : Int
  deriving DecidableEq, Repr

/-- A circuit that was just made. -/
def PeerCircuit.new : PeerCircuit := ⟨.Closed, 0, 0, 0⟩

structure CircuitBreaker where
  circuitIndex : UMap Nat PeerCircuit
  failureThreshold : Int
  halfOpenMaxProbes : Int
  openDurationSecs : Int

namespace CircuitBreaker

def new : CircuitBreaker := ⟨∅, 5, 2, 30⟩

def configure (cb : CircuitBreaker) (failureThreshold openDurationSecs : Int) : CircuitBreaker :=
  { cb with failureThreshold := failureThreshold, openDurationSecs := openDurationSecs }

/-- `std::chrono::seconds(openDurationSecs_s)` in nanoseconds. -/
def openDuration (cb : CircuitBreaker) : Int := cb.openDurationSecs * 1000000000

def evaluateState (cb : CircuitBreaker) (now : Int) (circuit : PeerCircuit) : PeerCircuit :=
  if circuit.state ≠ .Open then circuit
  else if cb.openDuration ≤ now - circuit.openedAt then
    { circuit with state := .HalfOpen, halfOpenProbes := 0 }
  else circuit

def setCircuit (cb : CircuitBreaker) (peerId : Nat) (circuit : PeerCircuit) : CircuitBreaker :=
  { cb with circuitIndex := cb.circuitIndex.assign peerId circuit }

def allowRequest (cb : CircuitBreaker) (now : Int) (peerId : Nat) : Bool × CircuitBreaker :=
  match cb.circuitIndex.find peerId with
  | none => (true, cb)
  | some circuit =>
    let circuit := cb.evaluateState now circuit
    match circuit.state with
    | .Closed => (true, cb.setCircuit peerId circuit)
    | .HalfOpen =>
      if circuit.halfOpenProbes < cb.halfOpenMaxProbes then
        (true, cb.setCircuit peerId { circuit with halfOpenProbes := circuit.halfOpenProbes + 1 })
      else (false, cb.setCircuit peerId circuit)
    | .Open => (false, cb.setCircuit peerId circuit)

def recordSuccess (cb : CircuitBreaker) (peerId : Nat) : CircuitBreaker :=
  match cb.circuitIndex.find peerId with
  | none => cb
  | some circuit =>
    cb.setCircuit peerId { circuit with state := .Closed, failureCount := 0, halfOpenProbes := 0 }

/-- The clock is read twice: `now` tells whether the circuit is half-open, `openedAt` is when it
opens. The count goes on in an open circuit, where nothing reads it. -/
def recordFailure (cb : CircuitBreaker) (now openedAt : Int) (peerId : Nat) : CircuitBreaker :=
  let circuit := cb.evaluateState now ((cb.circuitIndex.find peerId).getD .new)
  if circuit.state = .HalfOpen then
    cb.setCircuit peerId { circuit with state := .Open, openedAt := openedAt }
  else
    let circuit := { circuit with failureCount := circuit.failureCount + 1 }
    if circuit.failureCount ≥ cb.failureThreshold ∧ circuit.state = .Closed then
      cb.setCircuit peerId { circuit with state := .Open, openedAt := openedAt }
    else cb.setCircuit peerId circuit

def getState (cb : CircuitBreaker) (now : Int) (peerId : Nat) : CircuitState × CircuitBreaker :=
  match cb.circuitIndex.find peerId with
  | none => (.Closed, cb)
  | some circuit =>
    let circuit := cb.evaluateState now circuit
    (circuit.state, cb.setCircuit peerId circuit)

/-! ## One circuit -/

/-- The circuit of a peer: that of a peer without record is new. -/
def circuit (cb : CircuitBreaker) (peerId : Nat) : PeerCircuit :=
  (cb.circuitIndex.find peerId).getD .new

/-- Whether a circuit that was evaluated lets a request through. -/
def admits (cb : CircuitBreaker) (c : PeerCircuit) : Prop :=
  c.state = .Closed ∨ (c.state = .HalfOpen ∧ c.halfOpenProbes < cb.halfOpenMaxProbes)

instance (cb : CircuitBreaker) (c : PeerCircuit) : Decidable (cb.admits c) :=
  inferInstanceAs (Decidable (_ ∨ _))

/-- The circuit after a request that it lets through or not. -/
def afterRequest (cb : CircuitBreaker) (c : PeerCircuit) : PeerCircuit :=
  if c.state = .HalfOpen ∧ c.halfOpenProbes < cb.halfOpenMaxProbes then
    { c with halfOpenProbes := c.halfOpenProbes + 1 }
  else c

def closed (c : PeerCircuit) : PeerCircuit :=
  { c with state := .Closed, failureCount := 0, halfOpenProbes := 0 }

/-- The circuit after a failure, with what it was evaluated to. -/
def afterFailure (cb : CircuitBreaker) (openedAt : Int) (c : PeerCircuit) : PeerCircuit :=
  if c.state = .HalfOpen then { c with state := .Open, openedAt := openedAt }
  else if c.failureCount + 1 ≥ cb.failureThreshold ∧ c.state = .Closed then
    { c with failureCount := c.failureCount + 1, state := .Open, openedAt := openedAt }
  else { c with failureCount := c.failureCount + 1 }

/-- Two breakers with the same configuration. -/
structure SameConfig (cb cb' : CircuitBreaker) : Prop where
  failureThreshold : cb'.failureThreshold = cb.failureThreshold
  halfOpenMaxProbes : cb'.halfOpenMaxProbes = cb.halfOpenMaxProbes
  openDurationSecs : cb'.openDurationSecs = cb.openDurationSecs

variable {cb : CircuitBreaker} {now : Int} {peerId q : Nat} {c : PeerCircuit}

theorem circuit_setCircuit : (cb.setCircuit peerId c).circuit q =
    if q = peerId then c else cb.circuit q := by
  unfold circuit setCircuit
  dsimp only
  rw [UMap.find_assign]
  split <;> rfl

theorem circuit_same (h : cb.circuit peerId = c) (q : Nat) :
    cb.circuit q = if q = peerId then c else cb.circuit q := by
  split
  · next hq => rw [hq, h]
  · rfl

theorem circuit_of_none (h : cb.circuitIndex.find peerId = none) : cb.circuit peerId = .new := by
  rw [circuit, h]
  rfl

theorem circuit_of_some (h : cb.circuitIndex.find peerId = some c) : cb.circuit peerId = c := by
  rw [circuit, h]
  rfl

theorem evaluateState_new : cb.evaluateState now .new = .new := rfl

/-- What a request does to the circuits. -/
theorem allowRequest_spec (cb : CircuitBreaker) (now : Int) (peerId : Nat) :
    ((cb.allowRequest now peerId).1 = true ↔ cb.admits (cb.evaluateState now (cb.circuit peerId))) ∧
      (∀ q, (cb.allowRequest now peerId).2.circuit q =
        if q = peerId then cb.afterRequest (cb.evaluateState now (cb.circuit peerId))
        else cb.circuit q) ∧ SameConfig cb (cb.allowRequest now peerId).2 := by
  unfold allowRequest
  cases hf : cb.circuitIndex.find peerId with
  | none =>
    have hc := circuit_of_none hf
    rw [hc, evaluateState_new]
    exact ⟨iff_of_true rfl (.inl rfl), circuit_same hc, ⟨rfl, rfl, rfl⟩⟩
  | some c =>
    rw [circuit_of_some hf]
    dsimp only
    unfold admits afterRequest
    cases hstate : (cb.evaluateState now c).state with
    | Closed =>
      exact ⟨iff_of_true rfl (.inl rfl), fun q => by rw [circuit_setCircuit]; simp,
        ⟨rfl, rfl, rfl⟩⟩
    | Open =>
      exact ⟨by simp, fun q => by rw [circuit_setCircuit]; simp, ⟨rfl, rfl, rfl⟩⟩
    | HalfOpen =>
      dsimp only
      by_cases hprobes : (cb.evaluateState now c).halfOpenProbes < cb.halfOpenMaxProbes
      · rw [if_pos hprobes]
        exact ⟨iff_of_true rfl (.inr ⟨rfl, hprobes⟩),
          fun q => by rw [circuit_setCircuit]; simp [hprobes], ⟨rfl, rfl, rfl⟩⟩
      · rw [if_neg hprobes]
        exact ⟨by simp [hprobes], fun q => by rw [circuit_setCircuit]; simp [hprobes],
          ⟨rfl, rfl, rfl⟩⟩

theorem recordSuccess_spec (cb : CircuitBreaker) (peerId : Nat) :
    (∀ q, (cb.recordSuccess peerId).circuit q =
      if q = peerId then closed (cb.circuit peerId) else cb.circuit q) ∧
      SameConfig cb (cb.recordSuccess peerId) := by
  unfold recordSuccess
  cases hf : cb.circuitIndex.find peerId with
  | none =>
    have hc := circuit_of_none hf
    rw [hc]
    exact ⟨circuit_same hc, ⟨rfl, rfl, rfl⟩⟩
  | some c =>
    rw [circuit_of_some hf]
    exact ⟨fun q => circuit_setCircuit, ⟨rfl, rfl, rfl⟩⟩

/-! The four outcomes of a failure. -/

theorem afterFailure_halfOpen (h : c.state = .HalfOpen) (openedAt : Int) :
    cb.afterFailure openedAt c = { c with state := .Open, openedAt := openedAt } := if_pos h

theorem afterFailure_open (h : c.state = .Open) (openedAt : Int) :
    cb.afterFailure openedAt c = { c with failureCount := c.failureCount + 1 } := by
  unfold afterFailure
  rw [if_neg (by rw [h]; decide), if_neg fun hclosed => by rw [h] at hclosed; cases hclosed.2]

theorem afterFailure_opens (h : c.state = .Closed) (openedAt : Int)
    (hreached : c.failureCount + 1 ≥ cb.failureThreshold) :
    cb.afterFailure openedAt c =
      { c with failureCount := c.failureCount + 1, state := .Open, openedAt := openedAt } := by
  unfold afterFailure
  rw [if_neg (by rw [h]; decide), if_pos ⟨hreached, h⟩]

theorem afterFailure_closed (h : c.state = .Closed) (openedAt : Int)
    (hbelow : c.failureCount + 1 < cb.failureThreshold) :
    cb.afterFailure openedAt c = { c with failureCount := c.failureCount + 1 } := by
  unfold afterFailure
  rw [if_neg (by rw [h]; decide), if_neg fun hreached => absurd hreached.1 (not_le.mpr hbelow)]

theorem recordFailure_spec (cb : CircuitBreaker) (now openedAt : Int) (peerId : Nat) :
    (∀ q, (cb.recordFailure now openedAt peerId).circuit q =
      if q = peerId then cb.afterFailure openedAt (cb.evaluateState now (cb.circuit peerId))
      else cb.circuit q) ∧
      SameConfig cb (cb.recordFailure now openedAt peerId) := by
  unfold recordFailure afterFailure
  rw [← circuit]
  dsimp only
  split
  · exact ⟨fun q => circuit_setCircuit, ⟨rfl, rfl, rfl⟩⟩
  · split <;> exact ⟨fun q => circuit_setCircuit, ⟨rfl, rfl, rfl⟩⟩

theorem getState_spec (cb : CircuitBreaker) (now : Int) (peerId : Nat) :
    (∀ q, (cb.getState now peerId).2.circuit q =
      if q = peerId then cb.evaluateState now (cb.circuit peerId) else cb.circuit q) ∧
      SameConfig cb (cb.getState now peerId).2 := by
  unfold getState
  cases hf : cb.circuitIndex.find peerId with
  | none =>
    have hc := circuit_of_none hf
    rw [hc]
    exact ⟨circuit_same hc, ⟨rfl, rfl, rfl⟩⟩
  | some c =>
    rw [circuit_of_some hf]
    exact ⟨fun q => circuit_setCircuit, ⟨rfl, rfl, rfl⟩⟩

end CircuitBreaker

/-! ## What was recorded of a peer -/

/-- What a call has done: for a request also the time and the decision. -/
inductive BreakerEvent where
  | decided (peerId : Nat) (now : Int) (allowed : Bool)
  | succeeded (peerId : Nat)
  | failed (peerId : Nat)
  | opened (peerId : Nat) (openedAt : Int)
  deriving DecidableEq, Repr

def BreakerEvent.peer : BreakerEvent → Nat
  | .decided peerId _ _ => peerId
  | .succeeded peerId => peerId
  | .failed peerId => peerId
  | .opened peerId _ => peerId

/-- The failures since the last success, the last time the circuit opened since then, and the
requests that were let through since the last outcome. -/
structure Account where
  failures : Int
  openedAt : Option Int
  probes : Int
  deriving DecidableEq, Repr

namespace Account

def new : Account := ⟨0, none, 0⟩

def note (account : Account) : BreakerEvent → Account
  | .decided _ _ true => { account with probes := account.probes + 1 }
  | .decided _ _ false => account
  | .succeeded _ => new
  | .failed _ => { account with failures := account.failures + 1, probes := 0 }
  | .opened _ openedAt => { account with openedAt := some openedAt }

end Account

def account (history : List BreakerEvent) (peerId : Nat) : Account :=
  (history.filter fun event => event.peer = peerId).foldl Account.note .new

/-! ## Runs -/

/-- The breaker and the time. -/
structure BreakerState where
  breaker : CircuitBreaker
  now : Int

/-- Time passes between the calls, and while a failure is recorded. -/
inductive BreakerCall where
  | elapse (delay : Nat)
  | allowRequest (peerId : Nat)
  | recordSuccess (peerId : Nat)
  | recordFailure (peerId : Nat) (delay : Nat)
  | getState (peerId : Nat)
  deriving DecidableEq, Repr

namespace BreakerCall

/-- The peer that a call is about. -/
def peer : BreakerCall → Option Nat
  | .elapse _ => none
  | .allowRequest peerId => some peerId
  | .recordSuccess peerId => some peerId
  | .recordFailure peerId _ => some peerId
  | .getState peerId => some peerId

/-- The time that a call takes. -/
def delay : BreakerCall → Nat
  | .elapse delay => delay
  | .recordFailure _ delay => delay
  | _ => 0

/-- The call records a failure of the peer. -/
def Fails (peerId : Nat) (call : BreakerCall) : Prop := ∃ delay, call = .recordFailure peerId delay

end BreakerCall

namespace BreakerState

/-- A breaker with a configuration, before anything is recorded. -/
def start (failureThreshold openDurationSecs now : Int) : BreakerState :=
  ⟨CircuitBreaker.new.configure failureThreshold openDurationSecs, now⟩

def stateOf (s : BreakerState) (peerId : Nat) : CircuitState := (s.breaker.circuit peerId).state

def step (s : BreakerState) : BreakerCall → BreakerState × List BreakerEvent
  | .elapse delay => ({ s with now := s.now + delay }, [])
  | .allowRequest peerId =>
    ({ s with breaker := (s.breaker.allowRequest s.now peerId).2 },
      [.decided peerId s.now (s.breaker.allowRequest s.now peerId).1])
  | .recordSuccess peerId =>
    ({ s with breaker := s.breaker.recordSuccess peerId }, [.succeeded peerId])
  | .recordFailure peerId delay =>
    let breaker := s.breaker.recordFailure s.now (s.now + delay) peerId
    -- it has opened if it is open now and was not when it was evaluated
    let wasOpen := (s.breaker.evaluateState s.now (s.breaker.circuit peerId)).state = .Open
    (⟨breaker, s.now + delay⟩,
      .failed peerId ::
        if (breaker.circuit peerId).state = .Open ∧ ¬ wasOpen then [.opened peerId (s.now + delay)]
        else [])
  | .getState peerId => ({ s with breaker := (s.breaker.getState s.now peerId).2 }, [])

def machine : Machine BreakerState BreakerCall BreakerEvent where
  step := step

/-- What a step should do to circuits and decisions, given what was recorded. -/
structure StepSafe (history : List BreakerEvent) (s : BreakerState) (call : BreakerCall) :
    Prop where
  others : ∀ peerId, call.peer ≠ some peerId →
    (s.step call).1.breaker.circuit peerId = s.breaker.circuit peerId
  opens : ∀ peerId, s.stateOf peerId = .Closed →
    (((s.step call).1.stateOf peerId = .Open ∧ call.Fails peerId ∧
        (account (history ++ (s.step call).2) peerId).failures =
          max 1 s.breaker.failureThreshold) ∨
      ((s.step call).1.stateOf peerId = .Closed ∧
        (call.Fails peerId → (account (history ++ (s.step call).2) peerId).failures <
          max 1 s.breaker.failureThreshold)))
  refuses : ∀ peerId now allowed, .decided peerId now allowed ∈ (s.step call).2 →
    ∀ openedAt, (account history peerId).openedAt = some openedAt →
      now < openedAt + s.breaker.openDuration → allowed = false
  probes : ∀ peerId, (s.step call).1.stateOf peerId ≠ .Closed →
    (account (history ++ (s.step call).2) peerId).probes ≤ s.breaker.halfOpenMaxProbes

/-! ## What was recorded -/

variable {history : List BreakerEvent} {event : BreakerEvent} {peerId q : Nat} {s : BreakerState}

theorem account_append (history : List BreakerEvent) (event : BreakerEvent) (peerId : Nat) :
    account (history ++ [event]) peerId =
      if event.peer = peerId then (account history peerId).note event
      else account history peerId := by
  unfold account
  rw [List.filter_append, List.foldl_append]
  by_cases h : event.peer = peerId <;> simp [h]

theorem account_own (h : event.peer = peerId) :
    account (history ++ [event]) peerId = (account history peerId).note event := by
  rw [account_append, if_pos h]

theorem account_other (h : event.peer ≠ peerId) :
    account (history ++ [event]) peerId = account history peerId := by
  rw [account_append, if_neg h]

/-- What a circuit has is what was recorded of its peer. -/
structure Agrees (cb : CircuitBreaker) (now : Int) (account : Account) (c : PeerCircuit) :
    Prop where
  closed : c.state = .Closed → account.failures = c.failureCount ∧ 0 ≤ c.failureCount ∧
    c.failureCount < max 1 cb.failureThreshold ∧ account.openedAt = none
  opened : c.state ≠ .Closed → account.openedAt = some c.openedAt
  waiting : c.state = .Open → account.probes = 0
  halfOpen : c.state = .HalfOpen → c.openedAt + cb.openDuration ≤ now ∧
    account.probes = c.halfOpenProbes ∧ c.halfOpenProbes ≤ cb.halfOpenMaxProbes

/-- `Agrees` for every peer, and the limit of probes is that of the start. -/
structure Kept (history : List BreakerEvent) (s : BreakerState) : Prop where
  probes : s.breaker.halfOpenMaxProbes = 2
  circuits : ∀ peerId, Agrees s.breaker s.now (account history peerId) (s.breaker.circuit peerId)

theorem kept_start (failureThreshold openDurationSecs now : Int) :
    Kept [] (start failureThreshold openDurationSecs now) where
  probes := rfl
  circuits peerId :=
    { closed := fun _ => ⟨rfl, le_refl 0, lt_of_lt_of_le Int.zero_lt_one (le_max_left 1 _), rfl⟩
      opened := fun h => absurd rfl h
      waiting := fun h => by cases h
      halfOpen := fun h => by cases h }

/-! ## One circuit -/

section Agrees

variable {cb cb' : CircuitBreaker} {now : Int} {acc : Account} {c : PeerCircuit}

theorem Agrees.mono (h : Agrees cb now acc c) {now' : Int} (hlater : now ≤ now') :
    Agrees cb now' acc c where
  closed := h.closed
  opened := h.opened
  waiting := h.waiting
  halfOpen hstate := by
    obtain ⟨htime, hprobes⟩ := h.halfOpen hstate
    exact ⟨le_trans htime hlater, hprobes⟩

theorem Agrees.config (h : Agrees cb now acc c) (hc : cb.SameConfig cb') :
    Agrees cb' now acc c := by
  have hduration : cb'.openDuration = cb.openDuration := by
    unfold CircuitBreaker.openDuration
    rw [hc.openDurationSecs]
  constructor
  · rw [hc.failureThreshold]
    exact h.closed
  · exact h.opened
  · exact h.waiting
  · rw [hduration, hc.halfOpenMaxProbes]
    exact h.halfOpen

/-- An open circuit whose time has passed is half-open without probes. -/
theorem Agrees.evaluate (h : Agrees cb now acc c) (hmax : 0 ≤ cb.halfOpenMaxProbes) :
    Agrees cb now acc (cb.evaluateState now c) := by
  unfold CircuitBreaker.evaluateState
  split
  · exact h
  · next hopen =>
    push Not at hopen
    split
    · next htime =>
      refine ⟨fun hstate => (by cases hstate), fun _ => h.opened (by rw [hopen]; decide),
        fun hstate => (by cases hstate), fun _ => ⟨?_, h.waiting hopen, hmax⟩⟩
      show c.openedAt + cb.openDuration ≤ now
      omega
    · exact h

theorem Agrees.request (h : Agrees cb now acc c) (allowed : Bool)
    (hallowed : allowed = true ↔ cb.admits c) :
    Agrees cb now (acc.note (.decided peerId now allowed)) (cb.afterRequest c) := by
  unfold CircuitBreaker.afterRequest
  cases allowed with
  | false =>
    have hnot : ¬ cb.admits c := fun hadmits => by cases hallowed.mpr hadmits
    rw [if_neg fun hprobe => hnot (.inr hprobe)]
    exact h
  | true =>
    rcases hallowed.mp rfl with hclosed | hprobe
    · have hno : ∀ {state}, state ≠ .Closed → c.state ≠ state := by
        intro state hne hstate
        exact hne (hstate.symm.trans hclosed)
      rw [if_neg fun hprobe => hno (by decide) hprobe.1]
      exact ⟨h.closed, h.opened, fun hstate => absurd hstate (hno (by decide)),
        fun hstate => absurd hstate (hno (by decide))⟩
    · rw [if_pos hprobe]
      obtain ⟨hstate, hlt⟩ := hprobe
      obtain ⟨htime, hprobes, -⟩ := h.halfOpen hstate
      refine ⟨fun hs => ?_, h.opened, fun hs => ?_, fun _ => ⟨htime, ?_, ?_⟩⟩
      · have hs' : c.state = .Closed := hs
        rw [hstate] at hs'
        cases hs'
      · have hs' : c.state = .Open := hs
        rw [hstate] at hs'
        cases hs'
      · show acc.probes + 1 = c.halfOpenProbes + 1
        rw [hprobes]
      · show c.halfOpenProbes + 1 ≤ cb.halfOpenMaxProbes
        omega

theorem agrees_success (cb : CircuitBreaker) (now : Int) (acc : Account) (c : PeerCircuit) :
    Agrees cb now (acc.note (.succeeded peerId)) (CircuitBreaker.closed c) where
  closed _ := ⟨rfl, le_refl 0, lt_of_lt_of_le Int.zero_lt_one (le_max_left 1 _), rfl⟩
  opened h := absurd rfl h
  waiting h := by cases h
  halfOpen h := by cases h

/-- A failure is counted; the event tells when the circuit opens. -/
theorem Agrees.failure (h : Agrees cb now acc c) (openedAt : Int) :
    Agrees cb now
      (if (cb.afterFailure openedAt c).state = .Open ∧ c.state ≠ .Open then
        (acc.note (.failed peerId)).note (.opened peerId openedAt)
      else acc.note (.failed peerId))
      (cb.afterFailure openedAt c) := by
  -- an open circuit that has just opened
  have hopens : ∀ c' : PeerCircuit, c'.state = .Open → c'.openedAt = openedAt →
      Agrees cb now ((acc.note (.failed peerId)).note (.opened peerId openedAt)) c' := by
    intro c' hopen hat
    refine ⟨fun hstate => ?_, fun _ => congrArg some hat.symm, fun _ => rfl, fun hstate => ?_⟩
    · rw [hopen] at hstate
      cases hstate
    · rw [hopen] at hstate
      cases hstate
  -- one that stays as it is but for the count
  have hcounts : c.state ≠ .HalfOpen →
      (c.state = .Closed → c.failureCount + 1 < max 1 cb.failureThreshold) →
      Agrees cb now (acc.note (.failed peerId))
        { c with failureCount := c.failureCount + 1 } := by
    intro hno hbelow
    refine ⟨fun hs => ?_, h.opened, fun _ => rfl, fun hs => absurd hs hno⟩
    obtain ⟨hfailures, hcount, -, hnone⟩ := h.closed hs
    refine ⟨?_, Int.le_add_one hcount, hbelow hs, hnone⟩
    show acc.failures + 1 = c.failureCount + 1
    rw [hfailures]
  cases hstate : c.state with
  | HalfOpen =>
    rw [CircuitBreaker.afterFailure_halfOpen hstate, if_pos ⟨rfl, by decide⟩]
    exact hopens _ rfl rfl
  | Open =>
    rw [CircuitBreaker.afterFailure_open hstate, if_neg fun hopen => hopen.2 rfl]
    refine hcounts (by rw [hstate]; decide) fun hclosed => ?_
    rw [hstate] at hclosed
    cases hclosed
  | Closed =>
    by_cases hreached : c.failureCount + 1 ≥ cb.failureThreshold
    · rw [CircuitBreaker.afterFailure_opens hstate _ hreached, if_pos ⟨rfl, by decide⟩]
      exact hopens _ rfl rfl
    · have hbelow := not_le.mp hreached
      rw [CircuitBreaker.afterFailure_closed hstate _ hbelow, if_neg fun hopen => by
        have hopen' : c.state = .Open := hopen.1
        rw [hstate] at hopen'
        cases hopen']
      exact hcounts (by rw [hstate]; decide) fun _ => lt_of_lt_of_le hbelow (le_max_right _ _)

end Agrees

/-! ## Every step -/

theorem SameConfig.probes {cb cb' : CircuitBreaker} (h : cb.SameConfig cb')
    (hprobes : cb.halfOpenMaxProbes = 2) : cb'.halfOpenMaxProbes = 2 :=
  h.halfOpenMaxProbes.trans hprobes

/-- The events of a failure. -/
theorem account_failure (history : List BreakerEvent) (peerId : Nat) (openedAt : Int)
    {P : Prop} [Decidable P] :
    account (history ++ BreakerEvent.failed peerId ::
      if P then [.opened peerId openedAt] else []) q =
      if q = peerId then
        if P then ((account history q).note (.failed q)).note (.opened q openedAt)
        else (account history q).note (.failed q)
      else account history q := by
  have happend : ∀ tail, history ++ BreakerEvent.failed peerId :: tail =
      (history ++ [BreakerEvent.failed peerId]) ++ tail := by
    simp
  rw [happend]
  by_cases hq : q = peerId
  · subst hq
    have hfailed : account (history ++ [BreakerEvent.failed q]) q =
        (account history q).note (.failed q) :=
      account_own rfl
    rw [if_pos rfl]
    split
    · have hopened :
          account (history ++ [BreakerEvent.failed q] ++ [BreakerEvent.opened q openedAt]) q =
            (account (history ++ [BreakerEvent.failed q]) q).note (.opened q openedAt) :=
        account_own rfl
      rw [hopened, hfailed]
    · rw [List.append_nil, hfailed]
  · rw [if_neg hq]
    have hfailed : account (history ++ [BreakerEvent.failed peerId]) q = account history q :=
      account_other (Ne.symm hq)
    split
    · have hopened :
          account
              (history ++ [BreakerEvent.failed peerId] ++ [BreakerEvent.opened peerId openedAt]) q =
            account (history ++ [BreakerEvent.failed peerId]) q := account_other (Ne.symm hq)
      rw [hopened, hfailed]
    · rw [List.append_nil, hfailed]

theorem Kept.step (hk : Kept history s) (call : BreakerCall) :
    Kept (history ++ (s.step call).2) (s.step call).1 := by
  have hmax : 0 ≤ s.breaker.halfOpenMaxProbes := by
    rw [hk.probes]
    decide
  cases call with
  | elapse delay =>
    refine ⟨hk.probes, fun q => ?_⟩
    rw [show (s.step (.elapse delay)).2 = [] from rfl, List.append_nil]
    exact (hk.circuits q).mono (Int.le_add_of_nonneg_right (Int.natCast_nonneg delay))
  | allowRequest peerId =>
    obtain ⟨hallowed, hcircuit, hconfig⟩ := s.breaker.allowRequest_spec s.now peerId
    refine ⟨SameConfig.probes hconfig hk.probes, fun q => Agrees.config ?_ hconfig⟩
    show Agrees s.breaker s.now (account (history ++ [_]) q)
      ((s.breaker.allowRequest s.now peerId).2.circuit q)
    rw [hcircuit]
    by_cases hq : q = peerId
    · subst hq
      rw [if_pos rfl, account_append, if_pos (by rfl)]
      exact ((hk.circuits q).evaluate hmax).request _ hallowed
    · rw [if_neg hq, account_append, if_neg (fun h => hq h.symm)]
      exact hk.circuits q
  | recordSuccess peerId =>
    obtain ⟨hcircuit, hconfig⟩ := s.breaker.recordSuccess_spec peerId
    refine ⟨SameConfig.probes hconfig hk.probes, fun q => Agrees.config ?_ hconfig⟩
    show Agrees s.breaker s.now (account (history ++ [_]) q)
      ((s.breaker.recordSuccess peerId).circuit q)
    rw [hcircuit]
    by_cases hq : q = peerId
    · subst hq
      rw [if_pos rfl, account_append, if_pos (by rfl)]
      exact agrees_success _ _ _ _
    · rw [if_neg hq, account_append, if_neg (fun h => hq h.symm)]
      exact hk.circuits q
  | recordFailure peerId delay =>
    obtain ⟨hcircuit, hconfig⟩ :=
      s.breaker.recordFailure_spec s.now (s.now + delay) peerId
    refine ⟨SameConfig.probes hconfig hk.probes, fun q => Agrees.config ?_ hconfig⟩
    refine Agrees.mono ?_ (Int.le_add_of_nonneg_right (Int.natCast_nonneg delay))
    show Agrees s.breaker s.now (account (history ++ BreakerEvent.failed peerId :: _) q)
      ((s.breaker.recordFailure s.now (s.now + delay) peerId).circuit q)
    rw [account_failure, hcircuit, hcircuit, if_pos rfl]
    by_cases hq : q = peerId
    · subst hq
      rw [if_pos rfl, if_pos rfl]
      exact ((hk.circuits q).evaluate hmax).failure (s.now + delay)
    · rw [if_neg hq, if_neg hq]
      exact hk.circuits q
  | getState peerId =>
    obtain ⟨hcircuit, hconfig⟩ := s.breaker.getState_spec s.now peerId
    refine ⟨SameConfig.probes hconfig hk.probes, fun q => Agrees.config ?_ hconfig⟩
    show Agrees s.breaker s.now (account (history ++ []) q)
      ((s.breaker.getState s.now peerId).2.circuit q)
    rw [hcircuit, List.append_nil]
    by_cases hq : q = peerId
    · subst hq
      rw [if_pos rfl]
      exact (hk.circuits q).evaluate hmax
    · rw [if_neg hq]
      exact hk.circuits q

/-- The circuits of other peers stay as they are. -/
theorem circuit_step (s : BreakerState) (call : BreakerCall) (h : call.peer ≠ some peerId) :
    (s.step call).1.breaker.circuit peerId = s.breaker.circuit peerId := by
  have hne : ∀ {q : Nat}, some q ≠ some peerId → peerId ≠ q := by
    rintro q hq rfl
    exact hq rfl
  cases call with
  | elapse => rfl
  | allowRequest q =>
    obtain ⟨-, hcircuit, -⟩ := s.breaker.allowRequest_spec s.now q
    exact (hcircuit peerId).trans (if_neg (hne h))
  | recordSuccess q =>
    obtain ⟨hcircuit, -⟩ := s.breaker.recordSuccess_spec q
    exact (hcircuit peerId).trans (if_neg (hne h))
  | recordFailure q delay =>
    obtain ⟨hcircuit, -⟩ := s.breaker.recordFailure_spec s.now (s.now + delay) q
    exact (hcircuit peerId).trans (if_neg (hne h))
  | getState q =>
    obtain ⟨hcircuit, -⟩ := s.breaker.getState_spec s.now q
    exact (hcircuit peerId).trans (if_neg (hne h))

/-- A closed circuit is evaluated to itself. -/
theorem evaluateState_closed {cb : CircuitBreaker} {now : Int} {c : PeerCircuit}
    (h : c.state = .Closed) : cb.evaluateState now c = c := by
  unfold CircuitBreaker.evaluateState
  rw [if_pos (by rw [h]; decide)]

/-- Only a failure opens a closed circuit. -/
theorem stateOf_closed (hclosed : s.stateOf peerId = .Closed) {call : BreakerCall}
    (hcall : ¬ call.Fails peerId) : (s.step call).1.stateOf peerId = .Closed := by
  by_cases hpeer : call.peer = some peerId
  · have hevaluate : s.breaker.evaluateState s.now (s.breaker.circuit peerId) =
        s.breaker.circuit peerId := evaluateState_closed hclosed
    unfold stateOf
    cases call with
    | elapse => cases hpeer
    | allowRequest q =>
      obtain rfl := Option.some.inj hpeer
      obtain ⟨-, hcircuit, -⟩ := s.breaker.allowRequest_spec s.now q
      refine (congrArg PeerCircuit.state (hcircuit q)).trans ?_
      rw [if_pos rfl, hevaluate]
      unfold CircuitBreaker.afterRequest
      split <;> exact hclosed
    | recordSuccess q =>
      obtain rfl := Option.some.inj hpeer
      obtain ⟨hcircuit, -⟩ := s.breaker.recordSuccess_spec q
      refine (congrArg PeerCircuit.state (hcircuit q)).trans ?_
      rw [if_pos rfl]
      rfl
    | recordFailure q delay =>
      obtain rfl := Option.some.inj hpeer
      exact absurd ⟨delay, rfl⟩ hcall
    | getState q =>
      obtain rfl := Option.some.inj hpeer
      obtain ⟨hcircuit, -⟩ := s.breaker.getState_spec s.now q
      refine (congrArg PeerCircuit.state (hcircuit q)).trans ?_
      rw [if_pos rfl, hevaluate]
      exact hclosed
  · exact (congrArg PeerCircuit.state (circuit_step s call hpeer)).trans hclosed

/-- The failure that opens a closed circuit is the last of as many as the threshold says. -/
theorem Kept.failure_opens (hk : Kept history s) (hclosed : s.stateOf peerId = .Closed)
    (delay : Nat) :
    let next := s.step (.recordFailure peerId delay)
    (next.1.stateOf peerId = .Open ∧ (account (history ++ next.2) peerId).failures =
        max 1 s.breaker.failureThreshold) ∨
      (next.1.stateOf peerId = .Closed ∧ (account (history ++ next.2) peerId).failures <
        max 1 s.breaker.failureThreshold) := by
  obtain ⟨hfailures, hcount, hbelow, -⟩ := (hk.circuits peerId).closed hclosed
  obtain ⟨hcircuit, -⟩ := s.breaker.recordFailure_spec s.now (s.now + delay) peerId
  have hevaluate : s.breaker.evaluateState s.now (s.breaker.circuit peerId) =
      s.breaker.circuit peerId := evaluateState_closed hclosed
  have hafter := hcircuit peerId
  rw [if_pos rfl, hevaluate] at hafter
  -- the failure is counted, whether the circuit opens or not
  have hcounted : (account (history ++ (s.step (.recordFailure peerId delay)).2) peerId).failures =
      (s.breaker.circuit peerId).failureCount + 1 := by
    refine (congrArg Account.failures (account_failure history peerId (s.now + delay))).trans ?_
    rw [if_pos rfl, ← hfailures]
    split <;> rfl
  dsimp only
  rw [hcounted]
  by_cases hreached : (s.breaker.circuit peerId).failureCount + 1 ≥ s.breaker.failureThreshold
  · left
    rw [CircuitBreaker.afterFailure_opens hclosed _ hreached] at hafter
    refine ⟨congrArg PeerCircuit.state hafter, ?_⟩
    have hmax : max 1 s.breaker.failureThreshold ≤
        (s.breaker.circuit peerId).failureCount + 1 := max_le (by omega) hreached
    omega
  · right
    have hlt := not_le.mp hreached
    rw [CircuitBreaker.afterFailure_closed hclosed _ hlt] at hafter
    exact ⟨(congrArg PeerCircuit.state hafter).trans hclosed,
      lt_of_lt_of_le hlt (le_max_right _ _)⟩

theorem Kept.safe (hk : Kept history s) (call : BreakerCall) : StepSafe history s call where
  others peerId h := circuit_step s call h
  opens peerId hclosed := by
    by_cases hcall : call.Fails peerId
    · obtain ⟨delay, rfl⟩ := hcall
      rcases hk.failure_opens hclosed delay with ⟨hopen, hfailures⟩ | ⟨hstays, hfailures⟩
      · exact .inl ⟨hopen, ⟨delay, rfl⟩, hfailures⟩
      · exact .inr ⟨hstays, fun _ => hfailures⟩
    · exact .inr ⟨stateOf_closed hclosed hcall, fun h => absurd h hcall⟩
  refuses peerId now allowed hmem openedAt hopened hbefore := by
    cases call with
    | allowRequest q =>
      obtain ⟨hq, hnow, hallowed⟩ := BreakerEvent.decided.inj (List.mem_singleton.mp hmem)
      subst hq hnow hallowed
      have hagrees := hk.circuits peerId
      obtain ⟨hadmits, -⟩ := s.breaker.allowRequest_spec s.now peerId
      -- the circuit is open, and not yet half-open
      have hstate : (s.breaker.circuit peerId).state = .Open := by
        cases hc : (s.breaker.circuit peerId).state with
        | Closed =>
          obtain ⟨-, -, -, hnone⟩ := hagrees.closed hc
          rw [hnone] at hopened
          cases hopened
        | Open => rfl
        | HalfOpen =>
          have hat := hagrees.opened (by rw [hc]; decide)
          rw [hat] at hopened
          obtain rfl := Option.some.inj hopened
          have hlater := (hagrees.halfOpen hc).1
          omega
      have hat := hagrees.opened (by rw [hstate]; decide)
      rw [hat] at hopened
      obtain rfl := Option.some.inj hopened
      have hevaluate : s.breaker.evaluateState s.now (s.breaker.circuit peerId) =
          s.breaker.circuit peerId := by
        unfold CircuitBreaker.evaluateState
        rw [if_neg (fun h => h hstate), if_neg (by omega)]
      rw [hevaluate] at hadmits
      cases hdecision : (s.breaker.allowRequest s.now peerId).1 with
      | false => rfl
      | true =>
        rcases hadmits.mp hdecision with h | ⟨h, -⟩
        · rw [hstate] at h
          cases h
        · rw [hstate] at h
          cases h
    | recordFailure q delay =>
      rcases List.mem_cons.mp hmem with h | h
      · cases h
      · split at h
        · cases List.mem_singleton.mp h
        · cases h
    | recordSuccess q => cases List.mem_singleton.mp hmem
    | elapse delay => cases hmem
    | getState q => cases hmem
  probes peerId hopen := by
    have hnext := (hk.step call).circuits peerId
    have hmax : (s.step call).1.breaker.halfOpenMaxProbes = s.breaker.halfOpenMaxProbes :=
      (hk.step call).probes.trans hk.probes.symm
    cases hc : ((s.step call).1.breaker.circuit peerId).state with
    | Closed => exact absurd hc hopen
    | Open =>
      rw [hnext.waiting hc, hk.probes]
      decide
    | HalfOpen =>
      obtain ⟨-, hprobes, hle⟩ := hnext.halfOpen hc
      rw [hprobes, ← hmax]
      exact hle

end BreakerState

end Alpine
