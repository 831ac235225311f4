import Alpine.Protocol.QuerySteps

/-!
# The limit on concurrent queries

`initializeMgr` stores a limit, and no other function reads it. `running` is the set of the active
queries that are in progress. `Limited` says what the limit asks of a call: there are never more
than that many, a query is refused for the limit exactly when there are that many, and a round of
the timed events reports a complete query once. `Admits` is what that takes before the call: the
callers keep to the limit by themselves, also at the moment the query is indexed, and no complete
query is left in the active index for a second round (`along_limited_iff`).
-/

namespace Alpine

open Lib

variable {π δ : Type}

namespace QueryMgr

variable {m m' : QueryMgr δ}

/-- The active query is in progress. -/
def runs (m : QueryMgr δ) (queryId : Nat) : Bool :=
  match m.activeQueryIndex.find queryId with
  | none => false
  | some state => state.query.inProgress

def running (m : QueryMgr δ) : Finset Nat :=
  m.activeQueryIndex.keys.toFinset.filter fun queryId => m.runs queryId = true

theorem mem_running {queryId : Nat} : queryId ∈ m.running ↔ m.runs queryId = true := by
  unfold running
  rw [Finset.mem_filter, List.mem_toFinset, UMap.mem_keys]
  constructor
  · exact fun h => h.2
  · intro h
    refine ⟨?_, h⟩
    unfold runs at h
    cases hf : m.activeQueryIndex.find queryId with
    | none => rw [hf] at h; cases h
    | some state => rfl

theorem running_of_runs (h : ∀ queryId, m'.runs queryId = m.runs queryId) :
    m'.running = m.running := by
  ext queryId
  rw [mem_running, mem_running, h]

theorem running_erase_of_runs {queryId : Nat}
    (h : ∀ q, m'.runs q = if q = queryId then false else m.runs q) :
    m'.running = m.running.erase queryId := by
  ext q
  rw [mem_running, h, Finset.mem_erase, mem_running]
  by_cases hq : q = queryId
  · simp [hq]
  · simp [hq]

theorem running_empty (h : m'.activeQueryIndex = ∅) : m'.running = ∅ := by
  unfold running
  rw [h]
  rfl

/-- Only the active index counts. -/
theorem running_of_index (h : m'.activeQueryIndex = m.activeQueryIndex) :
    m'.running = m.running := by
  refine running_of_runs fun queryId => ?_
  unfold runs
  rw [h]

theorem Touched.running (h : Touched m m') : m'.running = m.running := by
  refine running_of_runs fun queryId => ?_
  unfold runs
  cases hf : m'.activeQueryIndex.find queryId with
  | some state' =>
    obtain ⟨state, hfind, hcore⟩ := h.find hf
    rw [hfind]
    exact congrArg Query.inProgress (core_query hcore.symm)
  | none =>
    cases hf' : m.activeQueryIndex.find queryId with
    | none => rfl
    | some state =>
      obtain ⟨state', hfind, -⟩ := h.find' hf'
      rw [hf] at hfind
      cases hfind

/-! ## What each call does to the running queries -/

theorem createQuery_running (m : QueryMgr δ) (options : QueryOptions) (peerIdList : List Nat)
    (startQuery : Bool) :
    (m.createQuery (π := π) options peerIdList startQuery).2.1.running = m.running ∧
      (m.createQuery (π := π) options peerIdList startQuery).2.1.maxConcurrent = m.maxConcurrent := by
  cases hinit : m.initialized with
  | false =>
    rw [createQuery_early hinit]
    exact ⟨rfl, rfl⟩
  | true =>
    cases startQuery with
    | false =>
      rw [createQuery_failed hinit]
      exact ⟨running_of_index rfl, rfl⟩
    | true =>
      rw [createQuery_started hinit]
      exact ⟨running_of_index rfl, rfl⟩

theorem release_running (m : QueryMgr δ) (a : Nat) :
    (m.release (π := π) a).1.running = m.running ∧
      (m.release (π := π) a).1.maxConcurrent = m.maxConcurrent := by
  rw [release_eq]
  exact ⟨running_of_index rfl, rfl⟩

/-- A query that is in progress when it is indexed, under an id that no active query has. -/
def Arrives (m : QueryMgr δ) (results : Nat) : Prop :=
  ∃ state, m.started.find results = some state ∧ state.query.inProgress = true ∧
    m.initialized = true ∧ m.activeQueryIndex.find state.queryId = none

theorem indexQuery_max (m : QueryMgr δ) (results : Nat) :
    (m.indexQuery (π := π) results).2.1.maxConcurrent = m.maxConcurrent := by
  cases hf : m.started.find results with
  | none => rw [indexQuery_none hf]
  | some state =>
    cases hinit : m.initialized with
    | false =>
      rw [indexQuery_early hf hinit]
      exact (release_running ..).2
    | true =>
      cases hold : m.activeQueryIndex.find state.queryId with
      | none => rw [indexQuery_new hf hinit hold]; rfl
      | some _ =>
        rw [indexQuery_duplicate hf hinit (by rw [hold]; rfl)]
        exact (release_running ..).2

/-- One more query runs exactly if it arrives. -/
theorem indexQuery_running (m : QueryMgr δ) (results : Nat) :
    (m.Arrives results →
      (m.indexQuery (π := π) results).2.1.running.card = m.running.card + 1) ∧
    (¬ m.Arrives results → (m.indexQuery (π := π) results).2.1.running = m.running) := by
  cases hf : m.started.find results with
  | none =>
    rw [indexQuery_none hf]
    refine ⟨?_, fun _ => rfl⟩
    rintro ⟨state, hfind, -⟩
    rw [hf] at hfind
    cases hfind
  | some state =>
    have hsame : ∀ state', m.started.find results = some state' → state' = state := by
      intro state' hfind
      rw [hf] at hfind
      injection hfind with hfind
      exact hfind.symm
    cases hinit : m.initialized with
    | false =>
      rw [indexQuery_early hf hinit]
      refine ⟨?_, fun _ => (release_running ..).1.trans (running_of_index rfl)⟩
      rintro ⟨_, -, -, hinit', -⟩
      rw [hinit] at hinit'
      cases hinit'
    | true =>
      cases hold : m.activeQueryIndex.find state.queryId with
      | some _ =>
        rw [indexQuery_duplicate hf hinit (by rw [hold]; rfl)]
        refine ⟨?_, fun _ => (release_running ..).1.trans (running_of_index rfl)⟩
        rintro ⟨state', hfind, -, -, hnone⟩
        rw [hsame state' hfind, hold] at hnone
        cases hnone
      | none =>
        rw [indexQuery_new hf hinit hold]
        have hruns : ∀ q, runs { (m.arrived results).listed state with
            activeQueryIndex := m.activeQueryIndex.emplace state.queryId state } q =
              if q = state.queryId then state.query.inProgress else m.runs q := by
          intro q
          unfold runs
          rw [UMap.find_emplace, hold]
          by_cases hq : q = state.queryId
          · simp [hq]
          · simp [hq]
        have hnew : m.runs state.queryId = false := by
          unfold runs
          rw [hold]
        constructor
        · rintro ⟨state', hfind, hprog, -⟩
          rw [hsame state' hfind] at hprog
          rw [← Finset.card_insert_of_notMem (a := state.queryId) (s := m.running)
            (by rw [mem_running, hnew]; decide)]
          congr 1
          ext q
          rw [mem_running, hruns, Finset.mem_insert, mem_running, hprog]
          by_cases hq : q = state.queryId
          · simp [hq]
          · simp [hq]
        · intro hn
          have hdone : state.query.inProgress = false := by
            cases hp : state.query.inProgress with
            | false => rfl
            | true => exact absurd ⟨state, hf, hp, hinit, hold⟩ hn
          refine running_of_runs fun q => ?_
          rw [hruns, hdone]
          by_cases hq : q = state.queryId
          · simp [hq, hnew]
          · simp [hq]

/-- A cancelled query frees its slot. -/
theorem cancelQuery_running (m : QueryMgr δ) (queryId : Nat) :
    (m.cancelQuery (π := π) queryId).2.1.maxConcurrent = m.maxConcurrent ∧
      (m.cancelQuery (π := π) queryId).2.1.running =
        if (m.cancelQuery (π := π) queryId).1 then m.running.erase queryId else m.running := by
  have hretired : ∀ state, (m.retired queryId state).running = m.running.erase queryId := by
    intro state
    refine running_erase_of_runs fun q => ?_
    unfold runs retired
    rw [UMap.find_erase]
    by_cases hq : q = queryId
    · simp [hq]
    · simp [hq]
  cases hinit : m.initialized with
  | false => rw [cancelQuery_early hinit]; exact ⟨rfl, rfl⟩
  | true =>
    cases hf : m.activeQueryIndex.find queryId with
    | none => rw [cancelQuery_none hf]; exact ⟨rfl, rfl⟩
    | some state =>
      cases hold : m.pastQueryIndex.find queryId with
      | none =>
        rw [cancelQuery_past hinit hf hold]
        exact ⟨rfl, (running_of_index rfl).trans (hretired state)⟩
      | some _ =>
        rw [cancelQuery_duplicate hinit hf (by rw [hold]; rfl)]
        exact ⟨(release_running ..).2, (release_running ..).1.trans (hretired state)⟩

/-- So does one that completes. -/
theorem complete_running (m : QueryMgr δ) (queryId : Nat) :
    (m.complete queryId).maxConcurrent = m.maxConcurrent ∧
      (m.complete queryId).running = m.running.erase queryId := by
  unfold complete
  cases hf : m.activeQueryIndex.find queryId with
  | none =>
    refine ⟨rfl, (Finset.erase_eq_of_notMem ?_).symm⟩
    rw [mem_running]
    unfold runs
    rw [hf]
    decide
  | some state =>
    refine ⟨rfl, running_erase_of_runs fun q => ?_⟩
    unfold runs
    rw [UMap.find_assign]
    by_cases hq : q = queryId
    · simp [hq, finished]
    · simp [hq]

theorem completeStarted_running (m : QueryMgr δ) (results : Nat) :
    (m.completeStarted results).maxConcurrent = m.maxConcurrent ∧
      (m.completeStarted results).running = m.running := by
  unfold completeStarted
  cases m.started.find results with
  | none => exact ⟨rfl, rfl⟩
  | some state => exact ⟨rfl, running_of_index rfl⟩

theorem cleanUp_running (m : QueryMgr δ) :
    m.cleanUp (π := π) = (m, []) ∨ (m.cleanUp (π := π)).1.running = ∅ := by
  cases hinit : m.initialized with
  | false => exact .inl (cleanUp_early hinit)
  | true =>
    rw [cleanUp_ready hinit]
    exact .inr (running_empty rfl)

theorem initializeMgr_running (m : QueryMgr δ) (maxConcurrent : Nat) :
    (m.initializeMgr maxConcurrent).2 = m ∨ (m.initializeMgr maxConcurrent).2.running = ∅ := by
  unfold initializeMgr
  split
  · exact .inl rfl
  · exact .inr (running_empty rfl)

/-! ## The limit along a run -/

/-- A round of the timed events returned the id. -/
def Reported (h : List (MgrEvent π δ)) (queryId : Nat) : Prop :=
  ∃ ids, .completed ids ∈ h ∧ queryId ∈ ids

/-- The active query is complete. -/
def Complete (m : QueryMgr δ) (queryId : Nat) : Prop :=
  ∃ state, m.activeQueryIndex.find queryId = some state ∧ state.query.inProgress = false

/-- What the limit asks of a call besides the number of running queries. -/
def CallLimited (h : List (MgrEvent π δ)) (m : QueryMgr δ) : Input π δ → Prop
  | .createQuery options peerIdList true => m.initialized = true →
    ((m.createQuery (π := π) options peerIdList true).1 = false ↔
      m.running.card = m.maxConcurrent)
  | .cancelQuery queryId => (m.cancelQuery (π := π) queryId).1 = true →
    (m.cancelQuery (π := π) queryId).2.1.running = m.running.erase queryId
  | .complete queryId => (m.complete queryId).running = m.running.erase queryId
  | .processTimedEvents => m.initialized = true → m.processTimedEvents.Nodup ∧
    ∀ queryId, queryId ∈ m.processTimedEvents ↔ m.Complete queryId ∧ ¬ Reported h queryId
  | _ => True

/-- The call keeps to the limit. -/
def Limited [ResourceHash] (h : List (MgrEvent π δ)) (m : QueryMgr δ) (input : Input π δ) : Prop :=
  (m.call input).2.1.running.card ≤ (m.call input).2.1.maxConcurrent ∧ CallLimited h m input

/-- There is room for the query, and no complete query was reported before. -/
def Admits (h : List (MgrEvent π δ)) (m : QueryMgr δ) : Input π δ → Prop
  | .createQuery _ _ true => m.initialized = true → m.running.card < m.maxConcurrent
  | .indexQuery results => m.Arrives results → m.running.card < m.maxConcurrent
  | .processTimedEvents => m.initialized = true →
    ∀ queryId, m.Complete queryId → ¬ Reported h queryId
  | _ => True

theorem card_le_of_erase {a : Nat} (h : m.running.card ≤ m.maxConcurrent) :
    (m.running.erase a).card ≤ m.maxConcurrent :=
  Nat.le_trans (Finset.card_le_card (Finset.erase_subset _ _)) h

/-- With the limit kept so far, a call keeps it exactly if it is admitted. -/
theorem limited_iff [ResourceHash] (h : List (MgrEvent π δ)) (m : QueryMgr δ) (input : Input π δ)
    (hle : m.running.card ≤ m.maxConcurrent) : Limited h m input ↔ Admits h m input := by
  by_cases htouch : input.Touches
  · obtain ⟨htouched, -⟩ := m.call_touched htouch
    have hcard : (m.call input).2.1.running.card ≤ (m.call input).2.1.maxConcurrent := by
      rw [htouched.running, htouched.maxConcurrent]
      exact hle
    cases input with
    | processTimedEvents =>
      refine ⟨fun hl hinit queryId hdone hrep => ?_, fun ha => ⟨hcard, fun hinit => ?_⟩⟩
      · have hmem := ((processTimedEvents_spec hinit).2 queryId).mpr hdone
        exact (((hl.2 hinit).2 queryId).mp hmem).2 hrep
      · obtain ⟨hnodup, hspec⟩ := processTimedEvents_spec hinit
        refine ⟨hnodup, fun queryId => (hspec queryId).trans ?_⟩
        exact ⟨fun hdone => ⟨hdone, ha hinit queryId hdone⟩, fun h => h.1⟩
    | cancelAll => exact ⟨fun _ => trivial, fun _ => ⟨hcard, trivial⟩⟩
    | registerResultCallback => exact ⟨fun _ => trivial, fun _ => ⟨hcard, trivial⟩⟩
    | handleQueryOffer => exact ⟨fun _ => trivial, fun _ => ⟨hcard, trivial⟩⟩
    | handleQueryReply => exact ⟨fun _ => trivial, fun _ => ⟨hcard, trivial⟩⟩
    | handleSendReceived => exact ⟨fun _ => trivial, fun _ => ⟨hcard, trivial⟩⟩
    | handleSendFailure => exact ⟨fun _ => trivial, fun _ => ⟨hcard, trivial⟩⟩
    | initializeMgr | createQuery | indexQuery | cancelQuery | cleanUp | complete | completeStarted =>
      cases htouch
  cases input with
  | createQuery options peerIdList startQuery =>
    have hcard := hle
    obtain ⟨hrun, hmax⟩ := m.createQuery_running (π := π) options peerIdList startQuery
    rw [← hrun, ← hmax] at hcard
    cases startQuery with
    | false => exact ⟨fun _ => trivial, fun _ => ⟨hcard, trivial⟩⟩
    | true =>
      have hstatus : ∀ hinit : m.initialized = true,
          (m.createQuery (π := π) options peerIdList true).1 = true := fun hinit => by
        rw [createQuery_started hinit]
      constructor
      · intro hl hinit
        refine Nat.lt_of_le_of_ne hle fun heq => ?_
        have := (hl.2 hinit).mpr heq
        rw [hstatus hinit] at this
        cases this
      · intro ha
        refine ⟨hcard, fun hinit => ?_⟩
        rw [hstatus hinit]
        exact ⟨fun h => (by cases h), fun heq => absurd heq (Nat.ne_of_lt (ha hinit))⟩
  | indexQuery results =>
    obtain ⟨harrive, hstay⟩ := m.indexQuery_running (π := π) results
    have hmax := m.indexQuery_max (π := π) results
    constructor
    · intro hl hin
      have hcard : (m.indexQuery (π := π) results).2.1.running.card ≤
        (m.indexQuery (π := π) results).2.1.maxConcurrent := hl.1
      rw [harrive hin, hmax] at hcard
      omega
    · intro ha
      refine ⟨?_, trivial⟩
      show (m.indexQuery (π := π) results).2.1.running.card ≤
        (m.indexQuery (π := π) results).2.1.maxConcurrent
      rw [hmax]
      by_cases hin : m.Arrives results
      · rw [harrive hin]
        exact ha hin
      · rw [hstay hin]
        exact hle
  | cancelQuery queryId =>
    obtain ⟨hmax, hrun⟩ := m.cancelQuery_running (π := π) queryId
    refine ⟨fun _ => trivial, fun _ => ⟨?_, fun hstatus => by rw [hrun, if_pos hstatus]⟩⟩
    show (m.cancelQuery (π := π) queryId).2.1.running.card ≤
      (m.cancelQuery (π := π) queryId).2.1.maxConcurrent
    rw [hmax, hrun]
    split
    · exact card_le_of_erase hle
    · exact hle
  | complete queryId =>
    obtain ⟨hmax, hrun⟩ := m.complete_running queryId
    refine ⟨fun _ => trivial, fun _ => ⟨?_, hrun⟩⟩
    show (m.complete queryId).running.card ≤ (m.complete queryId).maxConcurrent
    rw [hmax, hrun]
    exact card_le_of_erase hle
  | completeStarted results =>
    obtain ⟨hmax, hrun⟩ := m.completeStarted_running results
    refine ⟨fun _ => trivial, fun _ => ⟨?_, trivial⟩⟩
    show (m.completeStarted results).running.card ≤ (m.completeStarted results).maxConcurrent
    rw [hmax, hrun]
    exact hle
  | cleanUp =>
    refine ⟨fun _ => trivial, fun _ => ⟨?_, trivial⟩⟩
    show (m.cleanUp (π := π)).1.running.card ≤ (m.cleanUp (π := π)).1.maxConcurrent
    rcases m.cleanUp_running (π := π) with hsame | hempty
    · rw [hsame]
      exact hle
    · rw [hempty]
      exact Nat.zero_le _
  | initializeMgr maxConcurrent =>
    refine ⟨fun _ => trivial, fun _ => ⟨?_, trivial⟩⟩
    show (m.initializeMgr maxConcurrent).2.running.card ≤
      (m.initializeMgr maxConcurrent).2.maxConcurrent
    rcases m.initializeMgr_running maxConcurrent with hsame | hempty
    · rw [hsame]
      exact hle
    · rw [hempty]
      exact Nat.zero_le _
  | cancelAll | registerResultCallback | handleQueryOffer | handleQueryReply | handleSendReceived
  | handleSendFailure | processTimedEvents => exact absurd trivial htouch

/-- Along any run from a manager with a limit, every call keeps to the limit exactly if every call
is admitted. -/
theorem along_limited_iff [ResourceHash] (limit : Nat) (inputs : List (Input π δ)) :
    machine.Along Limited [] (new.initializeMgr limit).2 inputs ↔
      machine.Along Admits [] (new.initializeMgr limit).2 inputs := by
  refine Machine.along_congr (I := fun _ m => m.running.card ≤ m.maxConcurrent) ?_ ?_
    (Nat.zero_le _)
  · intro h m input hle hok
    exact ((limited_iff h m input hle).mpr hok).1
  · intro h m input hle
    exact limited_iff h m input hle

/-- A second query under a limit of one. -/
def twoQueries : List (Input Empty Empty) :=
  [.createQuery ⟨"default", .empty, 100, 128⟩ [] true, .indexQuery 0,
    .createQuery ⟨"default", .empty, 100, 128⟩ [] true]

/-- It is not refused. -/
theorem twoQueries_not_limited :
    ¬ (@machine Empty Empty ResourceHash.bySize).Along (@Limited _ _ ResourceHash.bySize) []
      (new.initializeMgr 1).2 twoQueries := by
  rintro ⟨-, -, ⟨-, hlimited⟩, -⟩
  have := (hlimited rfl).mpr rfl
  cases this

end QueryMgr

end Alpine
