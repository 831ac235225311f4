import Alpine.Protocol.QueryOwnership

/-!
# Reading a query through the interface

`AlpineStackInterface::getQueryStatus` and `getQueryResults` ask the manager for the results object
of a query, read it, and delete it. The manager still owns it. The one path on which the object is
left alone is the return of `getQueryResults` at a resource whose option data cannot be written. A
cancelled query exists and has a status, and the manager finds no results for it.

The fields of `AlpineQueryStatus` are never set: what a call reads there is its input.
-/

namespace Alpine

open Lib

variable {π δ : Type}

/-- The option data of a resource as a string, if it can be written. -/
class OptionText (δ : Type) where
  writeData : δ → Option (List UInt8)

namespace StackInterface

/-- `AlpineStackInterface::t_QueryStatus`. -/
structure QueryStatus where
  totalPeers : Nat
  peersQueried : Nat
  numPeerResponses : Nat
  totalHits : Nat
  deriving DecidableEq, Repr

/-- `AlpineStackInterface::t_ResourceDesc`. -/
structure ResourceText where
  resourceId : Nat
  size : Nat
  locators : List CString
  description : CString
  optionId : Nat
  optionData : List UInt8
  deriving DecidableEq

abbrev PeerResources := UMap Nat (List ResourceText)

section Read

variable [QueryOptionData δ] [OptionText δ]

/-- One resource; `none` if its option data cannot be written. -/
def readResource (desc : ResourceDesc δ) : Option ResourceText :=
  let currDesc : ResourceText :=
    { resourceId := desc.matchId, size := desc.size, locators := desc.locatorList
      description := desc.description, optionId := desc.optionId, optionData := [] }
  if desc.optionId = 0 then some currDesc
  else do
    let optionData ← desc.optionData
    let text ← OptionText.writeData optionData
    some { currDesc with optionData := text }

/-- The loop over the peers that answered. -/
def readPeers (r : QueryResults δ) : PeerResources → List Nat → Option PeerResources
  | results, [] => some results
  | results, currId :: peerIdList => do
    let state ← r.replyIndex.find currId
    let resourceDescList ← state.resourceDescSet.mapM readResource
    readPeers r (results.emplace currId resourceDescList) peerIdList

/-- What a reader is told of these results. -/
def readResults (r : QueryResults δ) : Option PeerResources := readPeers r ∅ r.getPeerList

end Read

/-- A status whose first three fields were not set. -/
abbrev Unset := Nat × Nat × Nat

def getQueryStatus (m : QueryMgr δ) (queryId : Nat) (unset : Unset) :
    Option QueryStatus × QueryMgr δ × List (MgrEvent π δ) :=
  if m.exists? queryId = false then (none, m, [])
  else if m.getQueryStatus queryId = false then (none, m, [])
  else
    match m.getQueryResults queryId with
    | none => (none, m, [])
    | some alpineQueryResults =>
      match m.heap.get alpineQueryResults with
      | none => (none, m, [.usedAfterRelease alpineQueryResults])
      | some results =>
        let status :=
          { totalPeers := unset.1, peersQueried := unset.2.1, numPeerResponses := unset.2.2
            totalHits := results.numResources }
        let (m, events) := m.release alpineQueryResults
        (some status, m, events)

def getQueryResults [QueryOptionData δ] [OptionText δ] (m : QueryMgr δ) (queryId : Nat) :
    Option PeerResources × QueryMgr δ × List (MgrEvent π δ) :=
  if m.exists? queryId = false then (none, m, [])
  else
    match m.getQueryResults queryId with
    | none => (none, m, [])
    | some alpineQueryResults =>
      match m.heap.get alpineQueryResults with
      | none => (none, m, [.usedAfterRelease alpineQueryResults])
      | some alpineResults =>
        match readResults alpineResults with
        | none => (none, m, [])
        | some results =>
          let (m, events) := m.release alpineQueryResults
          (some results, m, events)

/-- The registered query, active or past, has its results at this address. -/
def ResultsAt (m : QueryMgr δ) (queryId a : Nat) : Prop :=
  m.initialized = true ∧
    ((∃ state, m.activeQueryIndex.find queryId = some state ∧ state.results = a) ∨
      (m.activeQueryIndex.find queryId = none ∧
        ∃ state, m.pastQueryIndex.find queryId = some state ∧ state.results = a))

variable {m : QueryMgr δ} {queryId : Nat}

/-- The results of a registered query are live. -/
theorem ResultsAt.live (hs : m.Sound) {a : Nat} (h : ResultsAt m queryId a) :
    ∃ r, m.heap.get a = some r := by
  refine Option.isSome_iff_exists.mp ?_
  obtain ⟨-, ⟨state, hfind, rfl⟩ | ⟨-, state, hfind, rfl⟩⟩ := h
  · exact hs.owned.isSome (QueryMgr.owner_active hfind)
  · exact hs.owned.isSome (QueryMgr.owner_past hfind)

/-- An object that is freed was not left as it is. -/
theorem free_ne {a : Nat} {r : QueryResults δ} (hget : m.heap.get a = some r) :
    ({ m with heap := m.heap.free a } : QueryMgr δ) ≠ m := by
  intro heq
  have hheap : m.heap.free a = m.heap := congrArg QueryMgr.heap heq
  have hnone : (m.heap.free a).get a = none := by simp
  rw [hheap, hget] at hnone
  cases hnone

/-! ## The readers on the three kinds of query -/

theorem exists_of_unregistered (h : ∀ a, ¬ ResultsAt m queryId a) : m.exists? queryId = false := by
  unfold QueryMgr.exists?
  by_cases hinit : m.initialized = false
  · rw [if_pos hinit]
  rw [if_neg hinit]
  have htrue : m.initialized = true := by simpa using hinit
  cases hactive : m.activeQueryIndex.find queryId with
  | some state => exact absurd ⟨htrue, .inl ⟨state, hactive, rfl⟩⟩ (h state.results)
  | none =>
    cases hpast : m.pastQueryIndex.find queryId with
    | some state => exact absurd ⟨htrue, .inr ⟨hactive, state, hpast, rfl⟩⟩ (h state.results)
    | none => rfl

theorem getQueryStatus_unregistered (h : ∀ a, ¬ ResultsAt m queryId a) (unset : Unset) :
    getQueryStatus (π := π) m queryId unset = (none, m, []) := by
  unfold getQueryStatus
  rw [if_pos (exists_of_unregistered h)]

theorem exists_of_active (hinit : m.initialized = true) {state : QueryState}
    (hfind : m.activeQueryIndex.find queryId = some state) :
    m.exists? queryId = true ∧ m.getQueryStatus queryId = true ∧
      m.getQueryResults queryId = some state.results := by
  unfold QueryMgr.exists? QueryMgr.getQueryStatus QueryMgr.getQueryResults
  simp [hinit, hfind]

theorem exists_of_past (hinit : m.initialized = true)
    (hactive : m.activeQueryIndex.find queryId = none) {state : PastQuery}
    (hfind : m.pastQueryIndex.find queryId = some state) :
    m.exists? queryId = true ∧ m.getQueryStatus queryId = true ∧
      m.getQueryResults queryId = none := by
  unfold QueryMgr.exists? QueryMgr.getQueryStatus QueryMgr.getQueryResults
  simp [hinit, hactive, hfind]

/-- The status of an active query costs it its results. -/
theorem getQueryStatus_active (hinit : m.initialized = true) {state : QueryState}
    {r : QueryResults δ} (hfind : m.activeQueryIndex.find queryId = some state)
    (hget : m.heap.get state.results = some r) (unset : Unset) :
    (getQueryStatus (π := π) m queryId unset).2 =
      ({ m with heap := m.heap.free state.results }, [.released state.results]) := by
  obtain ⟨hexists, hstatus, hresults⟩ := exists_of_active hinit hfind
  unfold getQueryStatus
  rw [hexists, hstatus, hresults]
  simp only [Bool.true_eq_false, if_false, hget]
  rw [QueryMgr.release_live (by rw [hget]; rfl)]

theorem getQueryStatus_past (hinit : m.initialized = true)
    (hactive : m.activeQueryIndex.find queryId = none) {state : PastQuery}
    (hfind : m.pastQueryIndex.find queryId = some state) (unset : Unset) :
    getQueryStatus (π := π) m queryId unset = (none, m, []) := by
  obtain ⟨hexists, hstatus, hresults⟩ := exists_of_past hinit hactive hfind
  unfold getQueryStatus
  rw [hexists, hstatus, hresults]
  simp only [Bool.true_eq_false, if_false]

section Results

variable [QueryOptionData δ] [OptionText δ]

theorem getQueryResults_unregistered (h : ∀ a, ¬ ResultsAt m queryId a) :
    getQueryResults (π := π) m queryId = (none, m, []) := by
  unfold getQueryResults
  rw [if_pos (exists_of_unregistered h)]

theorem getQueryResults_active (hinit : m.initialized = true) {state : QueryState}
    {r : QueryResults δ} (hfind : m.activeQueryIndex.find queryId = some state)
    (hget : m.heap.get state.results = some r) :
    getQueryResults (π := π) m queryId =
      match readResults r with
      | none => (none, m, [])
      | some results => (some results, { m with heap := m.heap.free state.results },
        [.released state.results]) := by
  obtain ⟨hexists, -, hresults⟩ := exists_of_active hinit hfind
  unfold getQueryResults
  rw [hexists, hresults]
  simp only [Bool.true_eq_false, if_false, hget]
  rw [QueryMgr.release_live (by rw [hget]; rfl)]

theorem getQueryResults_past (hinit : m.initialized = true)
    (hactive : m.activeQueryIndex.find queryId = none) {state : PastQuery}
    (hfind : m.pastQueryIndex.find queryId = some state) :
    getQueryResults (π := π) m queryId = (none, m, []) := by
  obtain ⟨hexists, -, hresults⟩ := exists_of_past hinit hactive hfind
  unfold getQueryResults
  rw [hexists, hresults]
  simp only [Bool.true_eq_false, if_false]

end Results

/-! ## Runs with readers -/

section Runs

inductive Input (π δ : Type) where
  | mgr (input : QueryMgr.Input π δ)
  | getQueryStatus (queryId : Nat) (unset : Unset)
  | getQueryResults (queryId : Nat)

variable [ResourceHash] [QueryOptionData δ] [OptionText δ]

def machine : Machine (QueryMgr δ) (Input π δ) (MgrEvent π δ) where
  step m
    | .mgr input => (m.call input).2
    | .getQueryStatus queryId unset => (getQueryStatus m queryId unset).2
    | .getQueryResults queryId => (getQueryResults m queryId).2

/-- Reading leaves the manager and every results object as they are, a second reading gives the same
answer, and a registered query is read from its results. No object is used after its release. -/
def Observes (_h : List (MgrEvent π δ)) (m : QueryMgr δ) : Input π δ → Prop
  | .mgr input => QueryMgr.NoFault (m.call input).2.2
  | .getQueryStatus queryId unset =>
    (getQueryStatus (π := π) m queryId unset).2 = (m, []) ∧
      (∀ unset', (getQueryStatus (π := π) m queryId unset').1 =
        (getQueryStatus (π := π) m queryId unset).1) ∧
      ∀ a r, ResultsAt m queryId a → m.heap.get a = some r → ∃ status,
        (getQueryStatus (π := π) m queryId unset).1 = some status ∧
          status.totalHits = r.numResources
  | .getQueryResults queryId =>
    (getQueryResults (π := π) m queryId).2 = (m, []) ∧
      ∀ a r, ResultsAt m queryId a → m.heap.get a = some r →
        (getQueryResults (π := π) m queryId).1 = readResults r

/-- The reader stops before it deletes the results: the query is not registered, or the option data
of one of its resources cannot be written. -/
def Spares (_h : List (MgrEvent π δ)) (m : QueryMgr δ) : Input π δ → Prop
  | .mgr _ => True
  | .getQueryStatus queryId _ => ∀ a, ¬ ResultsAt m queryId a
  | .getQueryResults queryId => ∀ a r, ResultsAt m queryId a → m.heap.get a = some r →
    readResults r = none

theorem observes_status_iff (hs : m.Sound) (h : List (MgrEvent π δ)) (unset : Unset) :
    Observes h m (.getQueryStatus queryId unset) ↔ Spares h m (.getQueryStatus queryId unset) := by
  constructor
  · rintro ⟨hsame, -, hread⟩ a hat
    obtain ⟨r, hget⟩ := hat.live hs
    obtain ⟨status, hstatus, -⟩ := hread a r hat hget
    obtain ⟨hinit, ⟨state, hfind, rfl⟩ | ⟨hactive, state, hfind, rfl⟩⟩ := hat
    · rw [getQueryStatus_active hinit hfind hget unset] at hsame
      exact free_ne hget (congrArg Prod.fst hsame)
    · rw [getQueryStatus_past hinit hactive hfind unset] at hstatus
      cases hstatus
  · intro hnone
    have hcall := fun unset => getQueryStatus_unregistered (π := π) hnone unset
    refine ⟨by rw [hcall], fun unset' => by rw [hcall, hcall], fun a r hat => ?_⟩
    exact absurd hat (hnone a)

theorem observes_results_iff (hs : m.Sound) (h : List (MgrEvent π δ)) :
    Observes h m (.getQueryResults queryId) ↔ Spares h m (.getQueryResults queryId) := by
  constructor
  · rintro ⟨hsame, hread⟩ a r hat hget
    have hanswer := hread a r hat hget
    obtain ⟨hinit, ⟨state, hfind, rfl⟩ | ⟨hactive, state, hfind, rfl⟩⟩ := hat
    · rw [getQueryResults_active hinit hfind hget] at hsame
      cases hr : readResults r with
      | none => rfl
      | some results =>
        rw [hr] at hsame
        exact absurd (congrArg Prod.fst hsame) (free_ne hget)
    · rw [getQueryResults_past hinit hactive hfind] at hanswer
      exact hanswer.symm
  · intro hspare
    by_cases hreg : ∃ a, ResultsAt m queryId a
    · obtain ⟨a, hat⟩ := hreg
      obtain ⟨r, hget⟩ := hat.live hs
      have hr := hspare a r hat hget
      have hcall : getQueryResults (π := π) m queryId = (none, m, []) := by
        obtain ⟨hinit, ⟨state, hfind, rfl⟩ | ⟨hactive, state, hfind, rfl⟩⟩ := hat
        · rw [getQueryResults_active hinit hfind hget, hr]
        · exact getQueryResults_past hinit hactive hfind
      refine ⟨by rw [hcall], fun a' r' hat' hget' => ?_⟩
      rw [hcall]
      exact (hspare a' r' hat' hget').symm
    · have hcall := getQueryResults_unregistered (π := π) fun a hat => hreg ⟨a, hat⟩
      refine ⟨by rw [hcall], fun a r hat => ?_⟩
      exact absurd ⟨a, hat⟩ hreg

theorem observes_iff (hs : m.Sound) (h : List (MgrEvent π δ)) (input : Input π δ) :
    Observes h m input ↔ Spares h m input := by
  cases input with
  | mgr input => exact ⟨fun _ => trivial, fun _ => (hs.call input).2⟩
  | getQueryStatus queryId unset => exact observes_status_iff hs h unset
  | getQueryResults queryId => exact observes_results_iff hs h

/-- A reader that spares the results leaves the ownership as it is. -/
theorem sound_step (hs : m.Sound) (h : List (MgrEvent π δ)) (input : Input π δ)
    (hok : Spares h m input) : (machine.step m input).1.Sound := by
  have hobs := (observes_iff hs h input).mpr hok
  cases input with
  | mgr input => exact (hs.call input).1
  | getQueryStatus queryId unset =>
    have hsame : (getQueryStatus (π := π) m queryId unset).2 = (m, []) := hobs.1
    show (getQueryStatus (π := π) m queryId unset).2.1.Sound
    rw [hsame]
    exact hs
  | getQueryResults queryId =>
    have hsame : (getQueryResults (π := π) m queryId).2 = (m, []) := hobs.1
    show (getQueryResults (π := π) m queryId).2.1.Sound
    rw [hsame]
    exact hs

/-- Along any run from the start, the readers only observe exactly if each of them stops before it
deletes the results. -/
theorem along_observes_iff (inputs : List (Input π δ)) :
    machine.Along Observes [] (QueryMgr.new : QueryMgr δ) inputs ↔
      machine.Along Spares [] (QueryMgr.new : QueryMgr δ) inputs :=
  Machine.along_congr (I := fun _ m => m.Sound) (fun h _ input hs hok => sound_step hs h input hok)
    (fun h _ input hs => observes_iff hs h input) QueryMgr.sound_new

end Runs

/-! ## A status -/

/-- There is no option data. -/
instance : QueryOptionData Empty where
  getOptionId := Empty.elim
  getOptionDataLength := Empty.elim
  writeData := Empty.elim
  readData := Empty.elim
  getQueryOptionExt _ := none

instance : OptionText Empty := ⟨Empty.elim⟩

/-- The status of a query that just started. -/
def oneStatus : List (Input Empty Empty) :=
  [.mgr (.initializeMgr 10), .mgr (.createQuery ⟨"default", .empty, 100, 128⟩ [] true),
    .mgr (.indexQuery 0), .getQueryStatus 0 (0, 0, 0)]

theorem oneStatus_not_observes :
    ¬ (@machine Empty Empty ResourceHash.bySize _ _).Along
      (@Observes Empty Empty ResourceHash.bySize _ _) [] QueryMgr.new oneStatus := by
  rintro ⟨-, -, -, ⟨hsame, -⟩, -⟩
  have hevents := congrArg (fun r : _ × List (MgrEvent Empty Empty) => r.2.length) hsame
  cases hevents

end StackInterface

end Alpine
