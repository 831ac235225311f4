import Alpine.Protocol.QueryMgr

/-!
# What the operations of the query manager change

Packets, acknowledgements and the registration of a callback change a query's pending requests, its
callback and the contents of its results, and nothing else of the manager: `Touched`. Of what the
others do there is one lemma for each. `cancelAll` does nothing: it takes its list of queries from a
function that fills a copy.
-/

namespace Alpine

open Lib

variable {π δ : Type}

/-- A state without what packets and callbacks change. -/
def QueryState.core (state : QueryState) : QueryState :=
  { state with pending := none, onResultCallback := none }

namespace QueryMgr

variable {m m' m'' : QueryMgr δ}

/-- Only pending requests, callbacks and the contents of results differ. -/
structure Touched (m m' : QueryMgr δ) : Prop where
  initialized : m'.initialized = m.initialized
  maxConcurrent : m'.maxConcurrent = m.maxConcurrent
  currQueryId : m'.currQueryId = m.currQueryId
  active : ∀ queryId, (m'.activeQueryIndex.find queryId).map QueryState.core =
    (m.activeQueryIndex.find queryId).map QueryState.core
  past : m'.pastQueryIndex = m.pastQueryIndex
  activePeers : m'.activePeerQueryIndex = m.activePeerQueryIndex
  pastPeers : m'.pastPeerQueryIndex = m.pastPeerQueryIndex
  started : m'.started = m.started
  live : ∀ a, (m'.heap.get a).isSome = (m.heap.get a).isSome

theorem Touched.refl (m : QueryMgr δ) : Touched m m :=
  ⟨rfl, rfl, rfl, fun _ => rfl, rfl, rfl, rfl, rfl, fun _ => rfl⟩

theorem Touched.trans (h₁ : Touched m m') (h₂ : Touched m' m'') : Touched m m'' :=
  ⟨h₂.initialized.trans h₁.initialized, h₂.maxConcurrent.trans h₁.maxConcurrent,
    h₂.currQueryId.trans h₁.currQueryId, fun q => (h₂.active q).trans (h₁.active q),
    h₂.past.trans h₁.past, h₂.activePeers.trans h₁.activePeers, h₂.pastPeers.trans h₁.pastPeers,
    h₂.started.trans h₁.started, fun a => (h₂.live a).trans (h₁.live a)⟩

theorem touched_assign {queryId : Nat} {state state' : QueryState}
    (hfind : m.activeQueryIndex.find queryId = some state) (hcore : state'.core = state.core) :
    Touched m { m with activeQueryIndex := m.activeQueryIndex.assign queryId state' } := by
  refine ⟨rfl, rfl, rfl, fun q => ?_, rfl, rfl, rfl, rfl, fun _ => rfl⟩
  show (UMap.find _ q).map _ = _
  rw [UMap.find_assign]
  split
  · next hq => rw [hq, hfind, Option.map_some, Option.map_some, hcore]
  · rfl

theorem touched_write (m : QueryMgr δ) (a : Nat) (results : QueryResults δ) :
    Touched m { m with heap := m.heap.write a results } := by
  refine ⟨rfl, rfl, rfl, fun _ => rfl, rfl, rfl, rfl, rfl, fun b => ?_⟩
  show ((m.heap.write a results).get b).isSome = _
  rw [Heap.get_write]
  split
  · next hb => rw [hb.1, hb.2]; rfl
  · rfl

/-- A query that a manager has, up to what was touched. -/
theorem Touched.find (h : Touched m m') {queryId : Nat} {state' : QueryState}
    (hfind : m'.activeQueryIndex.find queryId = some state') :
    ∃ state, m.activeQueryIndex.find queryId = some state ∧ state.core = state'.core := by
  have hmap := h.active queryId
  rw [hfind, Option.map_some] at hmap
  obtain ⟨state, hstate, hcore⟩ := Option.map_eq_some_iff.mp hmap.symm
  exact ⟨state, hstate, hcore⟩

theorem Touched.find' (h : Touched m m') {queryId : Nat} {state : QueryState}
    (hfind : m.activeQueryIndex.find queryId = some state) :
    ∃ state', m'.activeQueryIndex.find queryId = some state' ∧ state'.core = state.core := by
  have hmap := h.active queryId
  rw [hfind, Option.map_some] at hmap
  obtain ⟨state', hstate, hcore⟩ := Option.map_eq_some_iff.mp hmap
  exact ⟨state', hstate, hcore⟩

theorem core_query {state state' : QueryState} (h : state'.core = state.core) :
    state'.query = state.query := by
  have := congrArg QueryState.query h
  exact this

/-! ## Packets and callbacks -/

/-- No event is about an object. -/
def NoObject (events : List (MgrEvent π δ)) : Prop :=
  ∀ a, .usedAfterRelease a ∉ events ∧ .released a ∉ events

/-- Every deleted object that is used is that of an active query. -/
def FaultsActive (m : QueryMgr δ) (events : List (MgrEvent π δ)) : Prop :=
  ∀ a, (.usedAfterRelease a ∈ events → ∃ queryId state,
    m.activeQueryIndex.find queryId = some state ∧ state.results = a ∧ m.heap.get a = none) ∧
    .released a ∉ events

theorem faultsActive_nil (m : QueryMgr δ) : FaultsActive m ([] : List (MgrEvent π δ)) :=
  fun a => ⟨fun h => (by cases h), List.not_mem_nil⟩

theorem faultsActive_of {events : List (MgrEvent π δ)} (h : NoObject events) :
    FaultsActive m events :=
  fun a => ⟨fun hmem => absurd hmem (h a).1, (h a).2⟩

theorem registerResultCallback_touched (m : QueryMgr δ) (queryId callback : Nat) :
    Touched m (m.registerResultCallback queryId callback).2 := by
  unfold registerResultCallback
  split
  · exact .refl m
  · cases hf : m.activeQueryIndex.find queryId with
    | none => exact .refl m
    | some state => exact touched_assign hf rfl

theorem handlePacket_touched (m : QueryMgr δ) (peerId queryId : Nat)
    (process : QueryResults δ → QueryResults.Processed π δ)
    {answer : QueryMgr δ → QueryState → QueryPacket π δ → Outcome π δ}
    (hanswer : ∀ m state packet, m.activeQueryIndex.find queryId = some state →
      Touched m (answer m state packet).2.1 ∧ NoObject (answer m state packet).2.2) :
    Touched m (m.handlePacket peerId queryId process answer).2.1 ∧
      FaultsActive m (m.handlePacket peerId queryId process answer).2.2 := by
  unfold handlePacket
  split
  · exact ⟨.refl m, faultsActive_nil m⟩
  cases hf : m.activeQueryIndex.find queryId with
  | none => exact ⟨.refl m, faultsActive_of fun a => by simp⟩
  | some state =>
    dsimp only
    cases hr : m.heap.get state.results with
    | none =>
      refine ⟨.refl m, fun a => ⟨fun ha => ?_, by simp⟩⟩
      have ha : a = state.results := by simpa using ha
      exact ⟨queryId, state, hf, ha.symm, ha ▸ hr⟩
    | some results =>
      dsimp only
      have hw := touched_write m state.results (process results).2.1
      cases (process results).2.2.2 with
      | none => exact ⟨hw, faultsActive_of fun a => by simp⟩
      | some packet =>
        dsimp only
        obtain ⟨htouched, hevents⟩ :=
          hanswer { m with heap := m.heap.write state.results (process results).2.1 } state packet hf
        refine ⟨hw.trans htouched, faultsActive_of fun a => ?_⟩
        have h₁ := (hevents a).1
        have h₂ := (hevents a).2
        simp [h₁, h₂]

theorem answerOffer_touched (peerId : Nat) {queryId : Nat} (requestId : Option Nat) {m : QueryMgr δ}
    {state : QueryState} (hf : m.activeQueryIndex.find queryId = some state)
    (packet : QueryPacket π δ) :
    Touched m (answerOffer peerId queryId requestId m state packet).2.1 ∧
      NoObject (answerOffer peerId queryId requestId m state packet).2.2 := by
  cases requestId with
  | none => exact ⟨.refl m, fun a => by simp [answerOffer]⟩
  | some requestId => exact ⟨touched_assign hf rfl, fun a => by simp [answerOffer]⟩

theorem callResult_noObject (state : QueryState) (queryId peerId : Nat) :
    NoObject (callResult state queryId peerId : List (MgrEvent π δ)) := by
  intro a
  unfold callResult
  cases state.onResultCallback <;> simp

theorem acknowledgePending_noObject (pending : UMap Nat Nat) (peerId : Nat) :
    NoObject (acknowledgePending pending peerId : _ × List (MgrEvent π δ)).2 := by
  intro a
  unfold acknowledgePending
  cases pending.find peerId <;> simp

theorem answerReply_touched (peerId : Nat) {queryId : Nat} (requestId : Option Nat) {m : QueryMgr δ}
    {state : QueryState} (hf : m.activeQueryIndex.find queryId = some state)
    (packet : QueryPacket π δ) :
    Touched m (answerReply peerId queryId requestId m state packet).2.1 ∧
      NoObject (answerReply peerId queryId requestId m state packet).2.2 := by
  unfold answerReply
  cases state.pending with
  | none => exact ⟨.refl m, fun a => by simp⟩
  | some pending =>
    have hack := acknowledgePending_noObject (π := π) (δ := δ) pending peerId
    have hcall := callResult_noObject (π := π) (δ := δ) state queryId peerId
    cases requestId with
    | none => exact ⟨touched_assign hf rfl, fun a => by simp [(hack a).1, (hack a).2]⟩
    | some requestId =>
      refine ⟨touched_assign hf rfl, fun a => ?_⟩
      simp [(hack a).1, (hack a).2, (hcall a).1, (hcall a).2]

theorem handleQueryOffer_touched (m : QueryMgr δ) (peerId queryId verifyId : Nat)
    (offerPacket : QueryPacket π δ) (requestId : Option Nat) :
    Touched m (m.handleQueryOffer peerId queryId verifyId offerPacket requestId).2.1 ∧
      FaultsActive m (m.handleQueryOffer peerId queryId verifyId offerPacket requestId).2.2 :=
  m.handlePacket_touched peerId queryId _ fun _ _ packet hf =>
    answerOffer_touched peerId requestId hf packet

theorem handleQueryReply_touched [ResourceHash] (m : QueryMgr δ) (peerId queryId verifyId : Nat)
    (replyPacket : QueryPacket π δ) (requestId : Option Nat) :
    Touched m (m.handleQueryReply peerId queryId verifyId replyPacket requestId).2.1 ∧
      FaultsActive m (m.handleQueryReply peerId queryId verifyId replyPacket requestId).2.2 :=
  m.handlePacket_touched peerId queryId _ fun _ _ packet hf =>
    answerReply_touched peerId requestId hf packet

theorem removePending_touched (m : QueryMgr δ) (peerId : Nat) (queryList : List Nat) :
    Touched m (m.removePending peerId queryList).2 := by
  induction queryList with
  | nil => exact .refl m
  | cons queryItem queryList ih =>
    unfold removePending
    cases hf : m.activeQueryIndex.find queryItem with
    | none => exact .refl m
    | some state =>
      dsimp only
      split
      · exact ih
      · split
        · exact touched_assign hf rfl
        · exact ih

theorem removePendingRequest_touched (m : QueryMgr δ) (peerId : Nat) :
    Touched m (m.removePendingRequest peerId).2 := by
  unfold removePendingRequest
  split
  · exact .refl m
  · exact m.removePending_touched peerId _

theorem handleSendReceived_touched (m : QueryMgr δ) (peerId requestId : Nat) :
    Touched m (m.handleSendReceived peerId requestId).2 := by
  unfold handleSendReceived
  split
  · exact .refl m
  · exact m.removePendingRequest_touched peerId

theorem handleSendFailure_touched (m : QueryMgr δ) (peerId requestId : Nat) :
    Touched m (m.handleSendFailure (π := π) peerId requestId).2.1 ∧
      FaultsActive m (m.handleSendFailure (π := π) peerId requestId).2.2 := by
  unfold handleSendFailure
  split
  · exact ⟨.refl m, faultsActive_nil m⟩
  · exact ⟨m.removePendingRequest_touched peerId, faultsActive_of fun a => by simp⟩

/-- Nothing is cancelled. -/
theorem cancelAll_eq (m : QueryMgr δ) (peerId : Nat) :
    m.cancelAll (π := π) peerId = (m.initialized, m, []) := by
  unfold cancelAll getAllActiveQueryIds
  by_cases hinit : m.initialized = false
  · simp [hinit]
  · have htrue : m.initialized = true := by simpa using hinit
    simp [htrue, cancelEach]

/-! ## The life of a query -/

theorem createQuery_early (hinit : m.initialized = false) (options : QueryOptions)
    (peerIdList : List Nat) (startQuery : Bool) :
    m.createQuery (π := π) options peerIdList startQuery = (false, m, []) := by
  unfold createQuery
  rw [if_pos hinit]

/-- A query that does not start takes an id with it. -/
theorem createQuery_failed (hinit : m.initialized = true) (options : QueryOptions)
    (peerIdList : List Nat) :
    m.createQuery (π := π) options peerIdList false =
      (false, { m.allocated options with heap := (m.allocated options).heap.free m.heap.next },
        [.released m.heap.next]) := by
  have hlive : ((m.allocated options).heap.get m.heap.next).isSome := by
    simp [allocated]
  unfold createQuery release
  simp [hinit, newState, hlive]

theorem createQuery_started (hinit : m.initialized = true) (options : QueryOptions)
    (peerIdList : List Nat) :
    m.createQuery (π := π) options peerIdList true =
      (true, { m.allocated options with
        started := m.started.assign m.heap.next (m.newState options peerIdList) }, []) := by
  unfold createQuery
  simp [hinit, newState, allocated]

theorem release_live {a : Nat} (hlive : (m.heap.get a).isSome) :
    m.release (π := π) a = ({ m with heap := m.heap.free a }, [.released a]) := by
  unfold release
  rw [if_pos hlive]

/-- Whatever is at the address, only the heap changes. -/
theorem release_eq (m : QueryMgr δ) (a : Nat) :
    (m.release (π := π) a).1 = { m with heap := (m.release (π := π) a).1.heap } := by
  unfold release
  split <;> rfl

/-- The manager once a query under `results` is no longer on its way. -/
def arrived (m : QueryMgr δ) (results : Nat) : QueryMgr δ :=
  { m with started := m.started.erase results }

/-- The lists of the peers once the query is among them. -/
def listed (m : QueryMgr δ) (state : QueryState) : QueryMgr δ :=
  { m with
    activePeerQueryIndex :=
      state.query.peerIdList.foldl (pushQueryId state.queryId) m.activePeerQueryIndex }

theorem indexQuery_none {results : Nat} (hfind : m.started.find results = none) :
    m.indexQuery (π := π) results = (false, m, []) := by
  unfold indexQuery
  rw [hfind]

theorem indexQuery_early {results : Nat} {state : QueryState}
    (hfind : m.started.find results = some state) (hinit : m.initialized = false) :
    m.indexQuery (π := π) results =
      (false, ((m.arrived results).release (π := π) state.results).1,
        .nullIndex state.queryId :: ((m.arrived results).release state.results).2) := by
  unfold indexQuery arrived
  rw [hfind]
  simp [hinit]

theorem indexQuery_duplicate {results : Nat} {state : QueryState}
    (hfind : m.started.find results = some state) (hinit : m.initialized = true)
    (hold : (m.activeQueryIndex.find state.queryId).isSome) :
    m.indexQuery (π := π) results =
      (true, (((m.arrived results).listed state).release (π := π) state.results).1,
        (((m.arrived results).listed state).release state.results).2) := by
  unfold indexQuery arrived listed
  rw [hfind]
  simp [hinit, hold]

theorem indexQuery_new {results : Nat} {state : QueryState}
    (hfind : m.started.find results = some state) (hinit : m.initialized = true)
    (hnew : m.activeQueryIndex.find state.queryId = none) :
    m.indexQuery (π := π) results =
      (true, { (m.arrived results).listed state with
        activeQueryIndex := m.activeQueryIndex.emplace state.queryId state }, []) := by
  unfold indexQuery arrived listed
  rw [hfind]
  simp [hinit, hnew]

/-- The indexes once the query is no longer active. -/
def retired (m : QueryMgr δ) (queryId : Nat) (state : QueryState) : QueryMgr δ :=
  { m with
    activeQueryIndex := m.activeQueryIndex.erase queryId
    activePeerQueryIndex := (state.query.peerIdList.foldl (moveQueryId queryId)
      (m.activePeerQueryIndex, m.pastPeerQueryIndex)).1
    pastPeerQueryIndex := (state.query.peerIdList.foldl (moveQueryId queryId)
      (m.activePeerQueryIndex, m.pastPeerQueryIndex)).2 }

theorem cancelQuery_early (hinit : m.initialized = false) (queryId : Nat) :
    m.cancelQuery (π := π) queryId = (false, m, []) := by
  unfold cancelQuery
  rw [if_pos hinit]

theorem cancelQuery_none {queryId : Nat} (hfind : m.activeQueryIndex.find queryId = none) :
    m.cancelQuery (π := π) queryId = (false, m, []) := by
  unfold cancelQuery
  rw [hfind]
  simp

theorem cancelQuery_duplicate {queryId : Nat} {state : QueryState} (hinit : m.initialized = true)
    (hfind : m.activeQueryIndex.find queryId = some state)
    (hold : (m.pastQueryIndex.find queryId).isSome) :
    m.cancelQuery (π := π) queryId =
      (true, ((m.retired queryId state).release (π := π) state.results).1,
        ((m.retired queryId state).release state.results).2) := by
  unfold cancelQuery retired
  simp [hinit, hfind, hold]

theorem cancelQuery_past {queryId : Nat} {state : QueryState} (hinit : m.initialized = true)
    (hfind : m.activeQueryIndex.find queryId = some state)
    (hnew : m.pastQueryIndex.find queryId = none) :
    m.cancelQuery (π := π) queryId =
      (true, { m.retired queryId state with
        pastQueryIndex := m.pastQueryIndex.emplace queryId state.toPastQuery }, []) := by
  unfold cancelQuery retired
  simp [hinit, hfind, hnew]

theorem releaseEach_eq (m : QueryMgr δ) (list : List Nat) :
    (m.releaseEach (π := π) list).1 =
      { m with heap := (m.releaseEach (π := π) list).1.heap } := by
  suffices h : ∃ heap, (m.releaseEach (π := π) list).1 = { m with heap } by
    obtain ⟨heap, h⟩ := h
    rw [h]
  induction list generalizing m with
  | nil => exact ⟨m.heap, rfl⟩
  | cons results list ih =>
    obtain ⟨heap, h⟩ := ih (m.release (π := π) results).1
    refine ⟨heap, ?_⟩
    show ((m.release (π := π) results).1.releaseEach (π := π) list).1 = _
    rw [h, release_eq]

theorem cleanUp_early (hinit : m.initialized = false) : m.cleanUp (π := π) = (m, []) := by
  unfold cleanUp
  rw [if_pos hinit]

/-- The addresses that the states of the indexes hold. -/
def held (m : QueryMgr δ) : List Nat :=
  m.activeQueryIndex.entries.map (·.2.results) ++ m.pastQueryIndex.entries.map (·.2.results)

theorem cleanUp_ready (hinit : m.initialized = true) :
    m.cleanUp (π := π) =
      ({ m with
        initialized := false
        activeQueryIndex := ∅
        pastQueryIndex := ∅
        activePeerQueryIndex := ∅
        pastPeerQueryIndex := ∅
        heap := (m.releaseEach (π := π) m.held).1.heap }, (m.releaseEach m.held).2) := by
  unfold cleanUp
  rw [if_neg (by simp [hinit])]
  show ({ (m.releaseEach (π := π) m.held).1 with
    initialized := false
    activeQueryIndex := ∅
    pastQueryIndex := ∅
    activePeerQueryIndex := ∅
    pastPeerQueryIndex := ∅ }, (m.releaseEach m.held).2) = _
  rw [releaseEach_eq]

/-- The ids returned are those of the complete queries, each once. -/
theorem processTimedEvents_spec (hinit : m.initialized = true) :
    m.processTimedEvents.Nodup ∧ ∀ queryId, queryId ∈ m.processTimedEvents ↔
      ∃ state, m.activeQueryIndex.find queryId = some state ∧ state.query.inProgress = false := by
  unfold processTimedEvents
  rw [if_neg (by simp [hinit])]
  dsimp only
  have hperm := List.mergeSort_perm m.activeQueryIndex.entries
    (fun a b => decide (a.2.priority ≥ b.2.priority))
  constructor
  · have hkeys : (m.activeQueryIndex.entries.map Sigma.fst).Nodup := m.activeQueryIndex.nodupKeys
    have hsorted := (hperm.map Sigma.fst).nodup_iff.mpr hkeys
    exact hsorted.sublist (List.filter_sublist.map _)
  · intro queryId
    simp only [List.mem_map, List.mem_filter, hperm.mem_iff, Bool.not_eq_true', Sigma.exists]
    constructor
    · rintro ⟨queryId', state, ⟨hmem, hdone⟩, rfl⟩
      exact ⟨state, UMap.mem_entries.mp hmem, hdone⟩
    · rintro ⟨state, hfind, hdone⟩
      exact ⟨queryId, state, ⟨UMap.mem_entries.mpr hfind, hdone⟩, rfl⟩

/-- The calls that only touch queries. -/
def Input.Touches : Input π δ → Prop
  | .initializeMgr _ | .createQuery _ _ _ | .indexQuery _ | .cancelQuery _ | .cleanUp | .complete _
  | .completeStarted _ => False
  | _ => True

theorem call_touched [ResourceHash] (m : QueryMgr δ) {input : Input π δ} (h : input.Touches) :
    Touched m (m.call input).2.1 ∧ FaultsActive m (m.call input).2.2 := by
  cases input with
  | cancelAll peerId =>
    simp only [call, cancelAll_eq]
    exact ⟨.refl m, faultsActive_nil m⟩
  | registerResultCallback queryId callback =>
    exact ⟨m.registerResultCallback_touched queryId callback, faultsActive_nil m⟩
  | handleQueryOffer peerId queryId verifyId offerPacket requestId =>
    exact m.handleQueryOffer_touched peerId queryId verifyId offerPacket requestId
  | handleQueryReply peerId queryId verifyId replyPacket requestId =>
    exact m.handleQueryReply_touched peerId queryId verifyId replyPacket requestId
  | handleSendReceived peerId requestId =>
    exact ⟨m.handleSendReceived_touched peerId requestId, faultsActive_nil m⟩
  | handleSendFailure peerId requestId => exact m.handleSendFailure_touched peerId requestId
  | processTimedEvents => exact ⟨.refl m, faultsActive_of fun a => by simp [call]⟩
  | initializeMgr => cases h
  | createQuery => cases h
  | indexQuery => cases h
  | cancelQuery => cases h
  | cleanUp => cases h
  | complete => cases h
  | completeStarted => cases h

end QueryMgr

end Alpine
