import Alpine.Protocol.CircuitBreaker

/-!
# Recovery of the circuits

A half-open circuit whose probes are never reported refuses for ever: `Recovers` fails exactly in
a state that has such a circuit (`recovers_iff`), and a run never comes to one exactly if every step
meets `StepReported` (`along_recovers_iff`). `run_confine` says that the decisions about a peer are
those of the run without the calls about other peers.
-/

namespace Alpine

open Lib

namespace BreakerState

variable {history : List BreakerEvent} {peerId : Nat} {s : BreakerState}

/-! ## Recovery -/

/-- Some time later a request of any peer is let through. -/
def Recovers (s : BreakerState) : Prop :=
  ∀ peerId, ∃ later, s.now ≤ later ∧ (s.breaker.allowRequest later peerId).1 = true

structure StepSound (history : List BreakerEvent) (s : BreakerState) (call : BreakerCall) :
    Prop where
  safe : StepSafe history s call
  recovers : Recovers (s.step call).1

/-- A request that comes to a half-open circuit leaves it one more probe. -/
def StepReported (_ : List BreakerEvent) (s : BreakerState) : BreakerCall → Prop
  | .allowRequest peerId =>
    (s.breaker.evaluateState s.now (s.breaker.circuit peerId)).state = .HalfOpen →
      (s.breaker.evaluateState s.now (s.breaker.circuit peerId)).halfOpenProbes + 1 <
        s.breaker.halfOpenMaxProbes
  | _ => True

/-- A half-open circuit that lets nothing more through. -/
def Stuck (cb : CircuitBreaker) (c : PeerCircuit) : Prop :=
  c.state = .HalfOpen ∧ cb.halfOpenMaxProbes ≤ c.halfOpenProbes

theorem recovers_iff (hprobes : s.breaker.halfOpenMaxProbes = 2) :
    Recovers s ↔ ∀ peerId, ¬ Stuck s.breaker (s.breaker.circuit peerId) := by
  constructor
  · rintro hr peerId ⟨hstate, hfull⟩
    obtain ⟨later, -, hallowed⟩ := hr peerId
    obtain ⟨hadmits, -⟩ := s.breaker.allowRequest_spec later peerId
    have hevaluate : s.breaker.evaluateState later (s.breaker.circuit peerId) =
        s.breaker.circuit peerId := if_pos (by rw [hstate]; decide)
    rw [hevaluate] at hadmits
    rcases hadmits.mp hallowed with h | ⟨-, h⟩
    · rw [hstate] at h
      cases h
    · omega
  · intro hfree peerId
    cases hc : (s.breaker.circuit peerId).state with
    | Closed =>
      obtain ⟨hadmits, -⟩ := s.breaker.allowRequest_spec s.now peerId
      refine ⟨s.now, le_refl _, hadmits.mpr (.inl ?_)⟩
      rw [evaluateState_closed hc]
      exact hc
    | HalfOpen =>
      obtain ⟨hadmits, -⟩ := s.breaker.allowRequest_spec s.now peerId
      have hevaluate : s.breaker.evaluateState s.now (s.breaker.circuit peerId) =
          s.breaker.circuit peerId := if_pos (by rw [hc]; decide)
      refine ⟨s.now, le_refl _, hadmits.mpr (.inr ?_)⟩
      rw [hevaluate]
      exact ⟨hc, not_le.mp fun hfull => hfree peerId ⟨hc, hfull⟩⟩
    | Open =>
      -- once the open duration has passed the circuit is half-open without probes
      obtain ⟨later, hlater⟩ : ∃ later,
          later = max s.now ((s.breaker.circuit peerId).openedAt + s.breaker.openDuration) :=
        ⟨_, rfl⟩
      have hnow : s.now ≤ later := by rw [hlater]; exact le_max_left _ _
      have hpassed : (s.breaker.circuit peerId).openedAt + s.breaker.openDuration ≤ later := by
        rw [hlater]
        exact le_max_right _ _
      obtain ⟨hadmits, -⟩ := s.breaker.allowRequest_spec later peerId
      refine ⟨later, hnow, hadmits.mpr (.inr ?_)⟩
      unfold CircuitBreaker.evaluateState
      rw [if_neg (fun h => h hc), if_pos (by omega), hprobes]
      exact ⟨rfl, show (0 : Int) < 2 by decide⟩

theorem stuck_afterRequest {cb : CircuitBreaker} {c : PeerCircuit} :
    Stuck cb (cb.afterRequest c) ↔
      c.state = .HalfOpen ∧ cb.halfOpenMaxProbes ≤ c.halfOpenProbes + 1 := by
  unfold Stuck CircuitBreaker.afterRequest
  split
  · rfl
  · next hfull =>
    constructor
    · rintro ⟨hstate, hle⟩
      exact ⟨hstate, by omega⟩
    · rintro ⟨hstate, -⟩
      exact ⟨hstate, not_lt.mp fun hlt => hfull ⟨hstate, hlt⟩⟩

/-- A failure never leaves a circuit half-open. -/
theorem afterFailure_state_ne (cb : CircuitBreaker) (openedAt : Int) (c : PeerCircuit) :
    (cb.afterFailure openedAt c).state ≠ .HalfOpen := by
  unfold CircuitBreaker.afterFailure
  split
  · exact fun h => by cases h
  · next hno =>
    split
    · exact fun h => by cases h
    · exact hno

theorem Kept.recovers_step_iff (hk : Kept history s)
    (hfree : ∀ peerId, ¬ Stuck s.breaker (s.breaker.circuit peerId)) (call : BreakerCall) :
    Recovers (s.step call).1 ↔ StepReported history s call := by
  have hmax : (s.step call).1.breaker.halfOpenMaxProbes = s.breaker.halfOpenMaxProbes :=
    (hk.step call).probes.trans hk.probes.symm
  have hstuck : ∀ c, Stuck (s.step call).1.breaker c ↔ Stuck s.breaker c := by
    intro c
    unfold Stuck
    rw [hmax]
  rw [recovers_iff (hk.step call).probes]
  constructor
  · intro hnext
    cases call with
    | allowRequest peerId =>
      intro hhalf
      obtain ⟨-, hcircuit, -⟩ := s.breaker.allowRequest_spec s.now peerId
      have hafter := (hcircuit peerId).trans (if_pos rfl)
      by_contra hfull
      apply hnext peerId
      rw [hstuck]
      refine Eq.subst (motive := Stuck s.breaker) hafter.symm ?_
      exact stuck_afterRequest.mpr ⟨hhalf, not_lt.mp hfull⟩
    | _ => trivial
  · intro hreported peerId h
    rw [hstuck] at h
    by_cases hpeer : call.peer = some peerId
    · cases call with
      | elapse => cases hpeer
      | allowRequest q =>
        obtain rfl := Option.some.inj hpeer
        obtain ⟨-, hcircuit, -⟩ := s.breaker.allowRequest_spec s.now q
        have hafter := (hcircuit q).trans (if_pos rfl)
        have h' : Stuck s.breaker _ := Eq.subst (motive := Stuck s.breaker) hafter h
        obtain ⟨hhalf, hle⟩ := stuck_afterRequest.mp h'
        have hlt := hreported hhalf
        omega
      | recordSuccess q =>
        obtain rfl := Option.some.inj hpeer
        obtain ⟨hcircuit, -⟩ := s.breaker.recordSuccess_spec q
        have hafter := (hcircuit q).trans (if_pos rfl)
        have h' : Stuck s.breaker _ := Eq.subst (motive := Stuck s.breaker) hafter h
        cases h'.1
      | recordFailure q delay =>
        obtain rfl := Option.some.inj hpeer
        obtain ⟨hcircuit, -⟩ := s.breaker.recordFailure_spec s.now (s.now + delay) q
        have hafter := (hcircuit q).trans (if_pos rfl)
        have h' : Stuck s.breaker _ := Eq.subst (motive := Stuck s.breaker) hafter h
        exact absurd h'.1 (afterFailure_state_ne _ _ _)
      | getState q =>
        obtain rfl := Option.some.inj hpeer
        obtain ⟨hcircuit, -⟩ := s.breaker.getState_spec s.now q
        have hafter := (hcircuit q).trans (if_pos rfl)
        have h' : Stuck s.breaker (s.breaker.evaluateState s.now (s.breaker.circuit q)) :=
          Eq.subst (motive := Stuck s.breaker) hafter h
        unfold CircuitBreaker.evaluateState at h'
        split at h'
        · exact hfree q h'
        · split at h'
          · have hle : s.breaker.halfOpenMaxProbes ≤ 0 := h'.2
            rw [hk.probes] at hle
            exact absurd hle (by decide)
          · exact hfree q h'
    · have hsame := circuit_step s call hpeer
      exact hfree peerId (Eq.subst (motive := Stuck s.breaker) hsame h)

/-- `Kept`, and no circuit is stuck. -/
structure KeptFree (history : List BreakerEvent) (s : BreakerState) : Prop where
  kept : Kept history s
  recovers : Recovers s

theorem KeptFree.free (hk : KeptFree history s) (peerId : Nat) :
    ¬ Stuck s.breaker (s.breaker.circuit peerId) :=
  (recovers_iff hk.kept.probes).mp hk.recovers peerId

theorem KeptFree.stepSound_iff (hk : KeptFree history s) (call : BreakerCall) :
    StepSound history s call ↔ StepReported history s call := by
  rw [← hk.kept.recovers_step_iff hk.free call]
  exact ⟨StepSound.recovers, fun hrecovers => ⟨hk.kept.safe call, hrecovers⟩⟩

theorem KeptFree.step (hk : KeptFree history s) {call : BreakerCall}
    (hreported : StepReported history s call) :
    KeptFree (history ++ (s.step call).2) (s.step call).1 where
  kept := hk.kept.step call
  recovers := (hk.kept.recovers_step_iff hk.free call).mpr hreported

theorem keptFree_start (failureThreshold openDurationSecs now : Int) :
    KeptFree [] (start failureThreshold openDurationSecs now) where
  kept := kept_start failureThreshold openDurationSecs now
  recovers := by
    rw [recovers_iff rfl]
    rintro peerId ⟨h, -⟩
    cases h

/-! ## Peers do not affect each other -/

/-- A run as it is for one peer: of the other calls only the time is left. -/
def confine (peerId : Nat) (call : BreakerCall) : BreakerCall :=
  if call.peer = some peerId then call else .elapse call.delay

/-- What one peer has to do with a breaker: its circuit, the configuration and the time. -/
structure SameFor (peerId : Nat) (s s' : BreakerState) : Prop where
  circuit : s'.breaker.circuit peerId = s.breaker.circuit peerId
  config : s.breaker.SameConfig s'.breaker
  now : s'.now = s.now

theorem config_step (s : BreakerState) (call : BreakerCall) :
    s.breaker.SameConfig (s.step call).1.breaker := by
  cases call with
  | elapse => exact ⟨rfl, rfl, rfl⟩
  | allowRequest peerId => exact (s.breaker.allowRequest_spec s.now peerId).2.2
  | recordSuccess peerId => exact (s.breaker.recordSuccess_spec peerId).2
  | recordFailure peerId delay =>
    exact (s.breaker.recordFailure_spec s.now (s.now + delay) peerId).2
  | getState peerId => exact (s.breaker.getState_spec s.now peerId).2

theorem now_step (s : BreakerState) (call : BreakerCall) :
    (s.step call).1.now = s.now + call.delay := by
  cases call <;> simp [BreakerState.step, BreakerCall.delay]

/-- A call tells of its own peer only. -/
theorem peer_step (s : BreakerState) (call : BreakerCall) :
    ∀ event ∈ (s.step call).2, call.peer = some event.peer := by
  intro event h
  cases call with
  | elapse => cases h
  | allowRequest peerId =>
    rw [List.mem_singleton.mp h]
    rfl
  | recordSuccess peerId =>
    rw [List.mem_singleton.mp h]
    rfl
  | recordFailure peerId delay =>
    rcases List.mem_cons.mp h with h | h
    · rw [h]
      rfl
    · split at h
      · rw [List.mem_singleton.mp h]
        rfl
      · cases h
  | getState => cases h

theorem SameFor.step_own {s' : BreakerState} (h : SameFor peerId s s') {call : BreakerCall}
    (hpeer : call.peer = some peerId) :
    (s'.step call).2 = (s.step call).2 ∧ SameFor peerId (s.step call).1 (s'.step call).1 := by
  have hduration : s'.breaker.openDuration = s.breaker.openDuration := by
    unfold CircuitBreaker.openDuration
    rw [h.config.openDurationSecs]
  have hevaluate : ∀ c, s'.breaker.evaluateState s'.now c = s.breaker.evaluateState s.now c := by
    intro c
    unfold CircuitBreaker.evaluateState
    rw [hduration, h.now]
  have hconfig : (s.step call).1.breaker.SameConfig (s'.step call).1.breaker := by
    have hs := config_step s call
    have hs' := config_step s' call
    refine ⟨?_, ?_, ?_⟩
    · rw [hs'.failureThreshold, hs.failureThreshold, h.config.failureThreshold]
    · rw [hs'.halfOpenMaxProbes, hs.halfOpenMaxProbes, h.config.halfOpenMaxProbes]
    · rw [hs'.openDurationSecs, hs.openDurationSecs, h.config.openDurationSecs]
  have hnow : (s'.step call).1.now = (s.step call).1.now := by
    rw [now_step, now_step, h.now]
  cases call with
  | elapse => cases hpeer
  | allowRequest q =>
    obtain rfl := Option.some.inj hpeer
    obtain ⟨hadmits, hcircuit, -⟩ := s.breaker.allowRequest_spec s.now q
    obtain ⟨hadmits', hcircuit', -⟩ := s'.breaker.allowRequest_spec s'.now q
    rw [hevaluate, h.circuit] at hadmits'
    have hsame : (s'.breaker.allowRequest s'.now q).1 = (s.breaker.allowRequest s.now q).1 := by
      rw [Bool.eq_iff_iff, hadmits, hadmits']
      unfold CircuitBreaker.admits
      rw [h.config.halfOpenMaxProbes]
    refine ⟨?_, ?_, hconfig, hnow⟩
    · show [BreakerEvent.decided q s'.now _] = [BreakerEvent.decided q s.now _]
      rw [hsame, h.now]
    · refine (hcircuit' q).trans (Eq.trans ?_ (hcircuit q).symm)
      rw [if_pos rfl, if_pos rfl, hevaluate, h.circuit]
      unfold CircuitBreaker.afterRequest
      rw [h.config.halfOpenMaxProbes]
  | recordSuccess q =>
    obtain rfl := Option.some.inj hpeer
    obtain ⟨hcircuit, -⟩ := s.breaker.recordSuccess_spec q
    obtain ⟨hcircuit', -⟩ := s'.breaker.recordSuccess_spec q
    refine ⟨rfl, ?_, hconfig, hnow⟩
    refine (hcircuit' q).trans (Eq.trans ?_ (hcircuit q).symm)
    rw [if_pos rfl, if_pos rfl, h.circuit]
  | recordFailure q delay =>
    obtain rfl := Option.some.inj hpeer
    obtain ⟨hcircuit, -⟩ := s.breaker.recordFailure_spec s.now (s.now + delay) q
    obtain ⟨hcircuit', -⟩ := s'.breaker.recordFailure_spec s'.now (s'.now + delay) q
    have hsame : (s'.breaker.recordFailure s'.now (s'.now + delay) q).circuit q =
        (s.breaker.recordFailure s.now (s.now + delay) q).circuit q := by
      rw [hcircuit', hcircuit, if_pos rfl, if_pos rfl, hevaluate, h.circuit]
      unfold CircuitBreaker.afterFailure
      rw [h.config.failureThreshold, h.now]
    refine ⟨?_, hsame, hconfig, hnow⟩
    unfold BreakerState.step
    dsimp only
    rw [hsame, hevaluate, h.circuit, h.now]
  | getState q =>
    obtain rfl := Option.some.inj hpeer
    obtain ⟨hcircuit, -⟩ := s.breaker.getState_spec s.now q
    obtain ⟨hcircuit', -⟩ := s'.breaker.getState_spec s'.now q
    refine ⟨rfl, ?_, hconfig, hnow⟩
    refine (hcircuit' q).trans (Eq.trans ?_ (hcircuit q).symm)
    rw [if_pos rfl, if_pos rfl, hevaluate, h.circuit]

theorem SameFor.step_other {s' : BreakerState} (h : SameFor peerId s s') {call : BreakerCall}
    (hpeer : call.peer ≠ some peerId) :
    SameFor peerId (s.step call).1 (s'.step (.elapse call.delay)).1 where
  circuit := h.circuit.trans (circuit_step s call hpeer).symm
  config := by
    have hs := config_step s call
    refine ⟨?_, ?_, ?_⟩
    · exact h.config.failureThreshold.trans hs.failureThreshold.symm
    · exact h.config.halfOpenMaxProbes.trans hs.halfOpenMaxProbes.symm
    · exact h.config.openDurationSecs.trans hs.openDurationSecs.symm
  now := by
    rw [now_step, now_step, h.now]
    rfl

/-- What a run tells of a peer is what it tells without the calls about other peers. -/
theorem run_confine (peerId : Nat) (calls : List BreakerCall) {s s' : BreakerState}
    (h : SameFor peerId s s') :
    (machine.run s calls).2.filter (fun event => event.peer = peerId) =
      (machine.run s' (calls.map (confine peerId))).2.filter
        (fun event => event.peer = peerId) := by
  induction calls generalizing s s' with
  | nil => rfl
  | cons call calls ih =>
    rw [List.map_cons, Machine.run_cons, Machine.run_cons, List.filter_append, List.filter_append]
    by_cases hpeer : call.peer = some peerId
    · have hconfine : confine peerId call = call := if_pos hpeer
      obtain ⟨hevents, hsame⟩ := h.step_own hpeer
      rw [hconfine]
      exact congrArg₂ _ (congrArg _ hevents.symm) (ih hsame)
    · have hconfine : confine peerId call = .elapse call.delay := if_neg hpeer
      have hnone : (s.step call).2.filter (fun event => event.peer = peerId) = [] := by
        rw [List.filter_eq_nil_iff]
        intro event hmem hevent
        apply hpeer
        rw [peer_step s call event hmem, of_decide_eq_true hevent]
      rw [hconfine]
      exact congrArg₂ _ hnone (ih (h.step_other hpeer))

/-- In every run every step is safe, and the decisions about a peer are those without the calls
about others; requests are let through again after every step exactly if every step meets the
condition. -/
theorem along_recovers_iff (failureThreshold openDurationSecs now : Int)
    (calls : List BreakerCall) :
    let s := start failureThreshold openDurationSecs now
    (∀ peerId, (machine.run s calls).2.filter (fun event => event.peer = peerId) =
      (machine.run s (calls.map (confine peerId))).2.filter
        (fun event => event.peer = peerId)) ∧
    machine.Along StepSafe [] s calls ∧
    (machine.Along StepSound [] s calls ↔ machine.Along StepReported [] s calls) := by
  intro s
  refine ⟨fun peerId => run_confine peerId calls ⟨rfl, ⟨rfl, rfl, rfl⟩, rfl⟩, ?_, ?_⟩
  · exact Machine.run_along (fun _ _ call hk => hk.step call) (fun _ _ call hk => hk.safe call)
      calls (kept_start failureThreshold openDurationSecs now)
  · exact Machine.along_congr (fun _ _ _ hk hreported => hk.step hreported)
      (fun _ _ call hk => hk.stepSound_iff call)
      (keptFree_start failureThreshold openDurationSecs now)

/-- The circuit of a peer opens and becomes half-open, and two probes are sent that nothing is
heard of. -/
def twoProbes : List BreakerCall :=
  [.recordFailure 1 0, .elapse 1000000000, .allowRequest 1, .allowRequest 1]

theorem twoProbes_not_recovers :
    ¬ machine.Along StepSound [] (start 1 1 0) twoProbes := by
  rintro ⟨-, -, -, hs, -⟩
  obtain ⟨later, -, hallowed⟩ := hs.recovers 1
  have hrefused : ∀ later, ((machine.run (start 1 1 0) twoProbes).1.breaker.allowRequest
      later 1).1 = false := fun _ => rfl
  have hfalse : false = true := (hrefused later).symm.trans hallowed
  cases hfalse

end BreakerState

end Alpine
