import Alpine.Protocol.QueryOwnership
import Alpine.Protocol.ResultsSteps

/-!
# What a packet does to the queries

An offer or a reply is for the query whose id it carries. `Confined` says what the manager may do
with it: nothing to any other query, nothing at all if that query is not active or does not have the
peer, and the results of the query grow by the resources of the packet if it is accepted. The
handlers and the verifiers take the id from variables that `getQueryId` leaves unset, and no one
looks whether the peer is one of the query's. `OfferTargets` and `ReplyTargets` say when that does
no harm (`handled_confined_iff`).
-/

namespace Alpine

open Lib

variable {π δ : Type}

def QueryState.settled (state : QueryState) : QueryState := { state with pending := none }

/-- The answer to an offer was sent. -/
def QueryState.offered (state : QueryState) (peerId requestId : Nat) : QueryState :=
  { state with pending := some ((state.pending.getD ∅).emplace peerId requestId) }

def QueryState.waiting (state : QueryState) (pending : UMap Nat Nat) : QueryState :=
  { state with pending := some pending }

namespace QueryMgr

variable {m m' : QueryMgr δ}

/-- The results object of a query state. -/
def contents (m : QueryMgr δ) (i : Holder) : Option (QueryResults δ) := (m.owner i).bind m.heap.get

/-- The request to the peer that is still pending. -/
def pendingRequest (m : QueryMgr δ) (queryId peerId : Nat) : Option Nat :=
  ((m.activeQueryIndex.find queryId).bind (·.pending)).bind (·.find peerId)

/-- Results, status and pending requests of a query are the same. -/
structure Untouched (m m' : QueryMgr δ) (queryId : Nat) : Prop where
  active : (m'.activeQueryIndex.find queryId).map QueryState.settled =
    (m.activeQueryIndex.find queryId).map QueryState.settled
  pending : ∀ p, m'.pendingRequest queryId p = m.pendingRequest queryId p
  past : m'.pastQueryIndex.find queryId = m.pastQueryIndex.find queryId
  activeResults : Option.Rel QueryResults.Same (m.contents (.active queryId))
    (m'.contents (.active queryId))
  pastResults : Option.Rel QueryResults.Same (m.contents (.past queryId))
    (m'.contents (.past queryId))

/-- The resources that an active query has from a peer. -/
def resourcesFrom (m : QueryMgr δ) (queryId p : Nat) : List (ResourceDesc δ) :=
  ((m.contents (.active queryId)).map (·.resourcesFrom p)).getD []

/-- The query is active, and the peer is one of its peers. -/
def HasMember (m : QueryMgr δ) (queryId peerId : Nat) : Prop :=
  ∃ state, m.activeQueryIndex.find queryId = some state ∧ peerId ∈ state.query.peerIdList

structure Confined (m : QueryMgr δ) (peerId : Nat) (packet : QueryPacket π δ)
    (outcome : Outcome π δ) : Prop where
  defined : ∀ q, .nullPending q ∉ outcome.2.2
  rest : Touched m outcome.2.1
  others : ∀ q, q ≠ packet.queryId → Untouched m outcome.2.1 q
  started : ∀ a, outcome.2.1.contents (.started a) = m.contents (.started a)
  nothing : ¬ m.HasMember packet.queryId peerId → ∀ q, Untouched m outcome.2.1 q
  grows : outcome.1 = true → ∀ p, outcome.2.1.resourcesFrom packet.queryId p =
    m.resourcesFrom packet.queryId p ++ if p = peerId then packet.resources else []

/-! ## One query takes the packet -/

theorem rel_same_refl (o : Option (QueryResults δ)) : Option.Rel QueryResults.Same o o := by
  cases o with
  | none => exact .none
  | some r => exact .some (QueryResults.Same.refl r)

theorem Untouched.refl (m : QueryMgr δ) (queryId : Nat) : Untouched m m queryId :=
  ⟨rfl, fun _ => rfl, rfl, rel_same_refl _, rel_same_refl _⟩

/-- Only the results and the pending requests of the query under `queryId` are written. -/
structure Writes (m m' : QueryMgr δ) (queryId : Nat) (state state' : QueryState)
    (r r' : QueryResults δ) : Prop where
  found : m.activeQueryIndex.find queryId = some state
  live : m.heap.get state.results = some r
  settled : state'.settled = state.settled
  active : ∀ q, m'.activeQueryIndex.find q =
    if q = queryId then some state' else m.activeQueryIndex.find q
  past : m'.pastQueryIndex = m.pastQueryIndex
  startedAs : m'.started = m.started
  heap : ∀ a, m'.heap.get a = if a = state.results then some r' else m.heap.get a

section Writes

variable {queryId : Nat} {state state' : QueryState} {r r' : QueryResults δ}

theorem Writes.results (hw : Writes m m' queryId state state' r r') :
    state'.results = state.results := by
  have := congrArg (fun state : QueryState => state.results) hw.settled
  exact this

theorem Writes.owner (hw : Writes m m' queryId state state' r r') (i : Holder) :
    m'.owner i = m.owner i := by
  cases i with
  | active q =>
    show (m'.activeQueryIndex.find q).map _ = (m.activeQueryIndex.find q).map _
    rw [hw.active]
    split
    · next hq =>
      rw [hq, hw.found]
      exact congrArg some hw.results
    · rfl
  | past q =>
    show (m'.pastQueryIndex.find q).map _ = _
    rw [hw.past]
    rfl
  | started a =>
    show (m'.started.find a).map _ = _
    rw [hw.startedAs]
    rfl

/-- The results of the query are `r'` now. -/
theorem Writes.contents_self (hw : Writes m m' queryId state state' r r') :
    m.contents (.active queryId) = some r ∧ m'.contents (.active queryId) = some r' := by
  have howner := owner_active hw.found
  constructor
  · unfold contents
    rw [howner]
    exact hw.live
  · unfold contents
    rw [hw.owner, howner]
    show m'.heap.get state.results = some r'
    rw [hw.heap, if_pos rfl]

/-- No other query shares its results. -/
theorem Writes.contents_other (hs : Sound m) (hw : Writes m m' queryId state state' r r')
    {i : Holder} (hi : i ≠ .active queryId) : m'.contents i = m.contents i := by
  unfold contents
  rw [hw.owner]
  cases hown : m.owner i with
  | none => rfl
  | some a =>
    have hne : a ≠ state.results := by
      rintro rfl
      exact hi (hs.owned.one _ _ _ hown (owner_active hw.found))
    show m'.heap.get a = m.heap.get a
    rw [hw.heap, if_neg hne]

theorem Writes.untouched_other (hs : Sound m) (hw : Writes m m' queryId state state' r r')
    {q : Nat} (hq : q ≠ queryId) : Untouched m m' q := by
  have hactive : m'.activeQueryIndex.find q = m.activeQueryIndex.find q := by
    rw [hw.active, if_neg hq]
  refine ⟨?_, fun p => ?_, ?_, ?_, ?_⟩
  · rw [hactive]
  · unfold pendingRequest
    rw [hactive]
  · rw [hw.past]
  · rw [hw.contents_other hs (fun h => hq (Holder.active.inj h))]
    exact rel_same_refl _
  · rw [hw.contents_other hs (fun h => by cases h)]
    exact rel_same_refl _

/-- The query's results and pending requests are as before. -/
def Unchanged (state state' : QueryState) (r r' : QueryResults δ) : Prop :=
  QueryResults.Same r r' ∧
    ∀ p, (state'.pending.bind (·.find p)) = (state.pending.bind (·.find p))

theorem Writes.untouched_self (hs : Sound m) (hw : Writes m m' queryId state state' r r') :
    Untouched m m' queryId ↔ Unchanged state state' r r' := by
  obtain ⟨hbefore, hafter⟩ := hw.contents_self
  have hself : m'.activeQueryIndex.find queryId = some state' := by rw [hw.active, if_pos rfl]
  have hpending : ∀ p, m'.pendingRequest queryId p = state'.pending.bind (·.find p) ∧
      m.pendingRequest queryId p = state.pending.bind (·.find p) := by
    intro p
    unfold pendingRequest
    rw [hself, hw.found]
    exact ⟨rfl, rfl⟩
  constructor
  · intro hu
    have hrel := hu.activeResults
    rw [hbefore, hafter] at hrel
    refine ⟨?_, fun p => ?_⟩
    · cases hrel with
      | some hsame => exact hsame
    · rw [← (hpending p).1, ← (hpending p).2]
      exact hu.pending p
  · rintro ⟨hsame, hp⟩
    refine ⟨?_, fun p => ?_, ?_, ?_, ?_⟩
    · rw [hself, hw.found]
      exact congrArg some hw.settled
    · rw [(hpending p).1, (hpending p).2]
      exact hp p
    · rw [hw.past]
    · rw [hbefore, hafter]
      exact .some hsame
    · rw [hw.contents_other hs (fun h => by cases h)]
      exact rel_same_refl _

/-- The handler does as it should if what it reads is defined and, where something changes, the
query is that of the packet and has the peer. -/
theorem Writes.confined_iff (hs : Sound m) (hw : Writes m m' queryId state state' r r')
    (ht : Touched m m') {peerId : Nat} {packet : QueryPacket π δ} {status : Bool}
    {events : List (MgrEvent π δ)}
    (hgrows : status = true → ∀ p, r'.resourcesFrom p =
      r.resourcesFrom p ++ if p = peerId then packet.resources else []) :
    Confined m peerId packet (status, m', events) ↔ (∀ q, .nullPending q ∉ events) ∧
      (¬ Unchanged state state' r r' →
        queryId = packet.queryId ∧ peerId ∈ state.query.peerIdList) := by
  constructor
  · intro hc
    refine ⟨hc.defined, fun hchange => ?_⟩
    have hself : ¬ Untouched m m' queryId := fun hu => hchange ((hw.untouched_self hs).mp hu)
    have hid : queryId = packet.queryId := by
      by_contra hne
      exact hself (hc.others queryId hne)
    refine ⟨hid, ?_⟩
    by_contra hnot
    refine hself (hc.nothing ?_ queryId)
    rintro ⟨state₁, hfind, hmem⟩
    rw [← hid, hw.found] at hfind
    exact hnot (Option.some.inj hfind ▸ hmem)
  · rintro ⟨hdefined, htarget⟩
    obtain ⟨hbefore, hafter⟩ := hw.contents_self
    refine ⟨hdefined, ht, fun q hq => ?_, fun a => ?_, fun hnot q => ?_, fun hstatus p => ?_⟩
    · by_cases he : q = queryId
      · subst he
        refine (hw.untouched_self hs).mpr ?_
        by_contra hchange
        exact hq (htarget hchange).1
      · exact hw.untouched_other hs he
    · exact hw.contents_other hs (fun h => by cases h)
    · by_cases he : q = queryId
      · subst he
        refine (hw.untouched_self hs).mpr ?_
        by_contra hchange
        obtain ⟨hid, hmem⟩ := htarget hchange
        exact hnot ⟨state, hid ▸ hw.found, hmem⟩
      · exact hw.untouched_other hs he
    · show m'.resourcesFrom _ p = m.resourcesFrom _ p ++ _
      by_cases hid : packet.queryId = queryId
      · unfold resourcesFrom
        rw [hid, hbefore, hafter]
        exact hgrows hstatus p
      · -- nothing was written, so the packet has no resources
        have hsame : Unchanged state state' r r' := by
          by_contra hchange
          exact hid (htarget hchange).1.symm
        have hnone : packet.resources = [] := by
          have hpeer := hgrows hstatus peerId
          rw [hsame.1.resourcesFrom, if_pos rfl] at hpeer
          exact List.append_right_eq_self.mp hpeer.symm
        unfold resourcesFrom
        rw [hw.contents_other hs (fun h => hid (Holder.active.inj h)),
          hnone, ite_self, List.append_nil]

end Writes

/-! ## The handlers -/

/-- The manager with new results at an address. -/
def written (m : QueryMgr δ) (a : Nat) (r : QueryResults δ) : QueryMgr δ :=
  { m with heap := m.heap.write a r }

/-- The manager with another state of an active query. -/
def assigned (m : QueryMgr δ) (queryId : Nat) (state : QueryState) : QueryMgr δ :=
  { m with activeQueryIndex := m.activeQueryIndex.assign queryId state }

section Handlers

variable {peerId queryId verifyId : Nat} {state : QueryState} {r r' : QueryResults δ}
  {process : QueryResults δ → QueryResults.Processed π δ}
  {answer : QueryMgr δ → QueryState → QueryPacket π δ → Outcome π δ} {status : Bool}
  {calls : List PeerCall}

theorem handlePacket_early (hinit : m.initialized = false) :
    m.handlePacket peerId queryId process answer = (false, m, []) := by
  unfold handlePacket
  rw [if_pos hinit]

theorem handlePacket_none (hinit : m.initialized = true)
    (hf : m.activeQueryIndex.find queryId = none) :
    m.handlePacket peerId queryId process answer =
      (false, m, [.peerMgr (.badPacketReceived peerId)]) := by
  unfold handlePacket
  simp [hinit, hf]

theorem handlePacket_invalid (hinit : m.initialized = true)
    (hf : m.activeQueryIndex.find queryId = some state) (hr : m.heap.get state.results = some r)
    (hp : process r = (status, r', calls, none)) :
    m.handlePacket peerId queryId process answer = (false, m.written state.results r',
      calls.map MgrEvent.peerMgr ++ [MgrEvent.peerMgr (.badPacketReceived peerId)]) := by
  unfold handlePacket written
  simp [hinit, hf, hr, hp]

theorem handlePacket_answered (hinit : m.initialized = true)
    (hf : m.activeQueryIndex.find queryId = some state) (hr : m.heap.get state.results = some r)
    {request : QueryPacket π δ} (hp : process r = (status, r', calls, some request)) :
    m.handlePacket peerId queryId process answer =
      ((answer (m.written state.results r') state request).1,
        (answer (m.written state.results r') state request).2.1,
        calls.map MgrEvent.peerMgr ++ (answer (m.written state.results r') state request).2.2) := by
  unfold handlePacket written
  simp [hinit, hf, hr, hp]

theorem writes_written (hf : m.activeQueryIndex.find queryId = some state)
    (hr : m.heap.get state.results = some r) (r' : QueryResults δ) :
    Writes m (m.written state.results r') queryId state state r r' := by
  refine ⟨hf, hr, rfl, fun q => ?_, rfl, rfl, fun a => ?_⟩
  · show m.activeQueryIndex.find q = _
    split
    · next hq => rw [hq, hf]
    · rfl
  · show (m.heap.write state.results r').get a = _
    rw [Heap.get_write]
    by_cases ha : a = state.results
    · subst ha
      simp [hr]
    · simp [ha]

theorem writes_assign (hf : m.activeQueryIndex.find queryId = some state)
    (hr : m.heap.get state.results = some r) (r' : QueryResults δ) {state' : QueryState}
    (hsettled : state'.settled = state.settled) :
    Writes m ((m.written state.results r').assigned queryId state') queryId state state' r r' := by
  have hw := writes_written hf hr r'
  refine ⟨hf, hr, hsettled, fun q => ?_, rfl, rfl, hw.heap⟩
  show (m.activeQueryIndex.assign queryId state').find q = _
  rw [UMap.find_assign]

theorem unchanged_refl (state : QueryState) (r : QueryResults δ) : Unchanged state state r r :=
  ⟨QueryResults.Same.refl r, fun _ => rfl⟩

/-- Nothing changes when a packet is not for an active query. -/
theorem confined_refl {packet : QueryPacket π δ} {events : List (MgrEvent π δ)}
    (hdefined : ∀ q, .nullPending q ∉ events) : Confined m peerId packet (false, m, events) :=
  ⟨hdefined, .refl m, fun q _ => .refl m q, fun _ => rfl, fun _ q => .refl m q, fun h => by cases h⟩

/-- The query that the handler finds is left as it is, unless it is the query of the packet and has
the peer. -/
def OfferTargets (m : QueryMgr δ) (peerId queryId verifyId : Nat) (offer : QueryPacket π δ) : Prop :=
  ∀ state r, m.initialized = true → m.activeQueryIndex.find queryId = some state →
    m.heap.get state.results = some r → r.OfferPasses verifyId offer →
      queryId = offer.queryId ∧ peerId ∈ state.query.peerIdList

theorem answerOffer_failed (m : QueryMgr δ) (state : QueryState) (packet : QueryPacket π δ) :
    answerOffer peerId queryId none m state packet =
      (false, m, [.sendReliablePacket peerId packet]) := rfl

theorem answerOffer_sent (m : QueryMgr δ) (state : QueryState) (packet : QueryPacket π δ)
    (requestId : Nat) :
    answerOffer peerId queryId (some requestId) m state packet =
      (true, m.assigned queryId (state.offered peerId requestId),
        [.sendReliablePacket peerId packet]) := rfl

theorem handleQueryOffer_confined_iff (hs : Sound m) (offer : QueryPacket π δ)
    (requestId : Option Nat) :
    Confined m peerId offer (m.handleQueryOffer peerId queryId verifyId offer requestId) ↔
      OfferTargets m peerId queryId verifyId offer := by
  have ht := (m.handleQueryOffer_touched peerId queryId verifyId offer requestId).1
  unfold handleQueryOffer at ht ⊢
  cases hinit : m.initialized with
  | false =>
    rw [handlePacket_early hinit]
    refine iff_of_true (confined_refl fun q => List.not_mem_nil) fun state r h => ?_
    rw [hinit] at h
    cases h
  | true =>
    cases hf : m.activeQueryIndex.find queryId with
    | none =>
      rw [handlePacket_none hinit hf]
      refine iff_of_true (confined_refl fun q => by simp) fun state r _ h => ?_
      rw [hf] at h
      cases h
    | some state =>
      obtain ⟨r, hr⟩ := Option.isSome_iff_exists.mp (hs.owned.isSome (owner_active hf))
      have htargets : OfferTargets m peerId queryId verifyId offer ↔ (r.OfferPasses verifyId offer →
          queryId = offer.queryId ∧ peerId ∈ state.query.peerIdList) := by
        constructor
        · exact fun h => h state r hinit hf hr
        · intro h state₁ r₁ _ hf₁ hr₁
          rw [hf] at hf₁
          cases hf₁
          rw [hr] at hr₁
          cases hr₁
          exact h
      rw [htargets]
      by_cases hpass : r.OfferPasses verifyId offer
      · cases hfind : r.replyIndex.find peerId with
        | some reply =>
          rw [handlePacket_invalid hinit hf hr
            (QueryResults.processQueryOffer_duplicate hpass hfind)] at ht ⊢
          have hw := writes_written hf hr (r.duplicate peerId reply).2.1
          have hchange : ¬ Unchanged state state r (r.duplicate peerId reply).2.1 :=
            fun h => (QueryResults.duplicate_changes hfind).2 h.1
          rw [hw.confined_iff hs ht (fun h => by cases h)]
          simp [hpass, hchange]
        | none =>
          obtain ⟨r', request, hp, hnew, hsame⟩ :=
            QueryResults.processQueryOffer_new hpass hfind
          rw [handlePacket_answered hinit hf hr hp] at ht ⊢
          have hnone : offer.resources = [] := by
            unfold QueryPacket.resources
            rw [hpass.1]
          have hchange : ∀ state', ¬ Unchanged state state' r r' := fun _ h => hnew h.1
          have hgrows : ∀ p, r'.resourcesFrom p =
              r.resourcesFrom p ++ if p = peerId then offer.resources else [] := by
            intro p
            rw [hnone, ite_self, List.append_nil]
            exact hsame p
          cases requestId with
          | none =>
            rw [answerOffer_failed] at ht ⊢
            rw [(writes_written hf hr r').confined_iff hs ht (fun _ => hgrows)]
            simp [hpass, hchange]
          | some requestId =>
            rw [answerOffer_sent] at ht ⊢
            have hw : Writes m _ queryId state (state.offered peerId requestId) r r' :=
              writes_assign hf hr r' rfl
            rw [hw.confined_iff hs ht (fun _ => hgrows)]
            simp [hpass, hchange]
      · rw [handlePacket_invalid hinit hf hr
          (QueryResults.processQueryOffer_refused hpass)] at ht ⊢
        rw [(writes_written hf hr r).confined_iff hs ht (fun h => by cases h)]
        simp [hpass, unchanged_refl]

/-! ## Replies -/

/-- A request that is acknowledged is no longer pending. -/
theorem find_acknowledgePending (pending : UMap Nat Nat) (peerId p : Nat) :
    ((acknowledgePending pending peerId : _ × List (MgrEvent π δ)).1.find p) =
      if p = peerId then none else pending.find p := by
  unfold acknowledgePending
  cases hf : pending.find peerId with
  | none =>
    dsimp only
    split
    · next hp => rw [hp, hf]
    · rfl
  | some requestId =>
    dsimp only
    rw [UMap.find_erase]

theorem acknowledgePending_defined (pending : UMap Nat Nat) (peerId q : Nat) :
    .nullPending q ∉ (acknowledgePending pending peerId : _ × List (MgrEvent π δ)).2 := by
  unfold acknowledgePending
  cases pending.find peerId with
  | none => simp
  | some requestId => simp

theorem callResult_defined (state : QueryState) (queryId peerId q : Nat) :
    .nullPending q ∉ (callResult state queryId peerId : List (MgrEvent π δ)) := by
  unfold callResult
  cases state.onResultCallback with
  | none => simp
  | some callback => simp

/-- What is pending once a reply was answered: for the peer, the new request, if it was sent. -/
def answeredPending (pending : UMap Nat Nat) (peerId : Nat) (requestId : Option Nat) : UMap Nat Nat :=
  let pending := (acknowledgePending pending peerId : _ × List (MgrEvent Empty Empty)).1
  match requestId with
  | none => pending
  | some requestId => pending.emplace peerId requestId

theorem find_answeredPending (pending : UMap Nat Nat) (peerId : Nat) (requestId : Option Nat)
    (p : Nat) :
    (answeredPending pending peerId requestId).find p =
      if p = peerId then requestId else pending.find p := by
  unfold answeredPending
  cases requestId with
  | none => exact find_acknowledgePending pending peerId p
  | some requestId =>
    dsimp only
    rw [UMap.find_emplace, find_acknowledgePending, if_pos rfl, find_acknowledgePending]
    split
    · rfl
    · rfl

theorem answerReply_null (m : QueryMgr δ) (hpending : state.pending = none)
    (requestId : Option Nat) (packet : QueryPacket π δ) :
    answerReply peerId queryId requestId m state packet = (false, m, [.nullPending queryId]) := by
  unfold answerReply
  rw [hpending]

theorem answerReply_answered (peerId queryId : Nat) (m : QueryMgr δ) {pending : UMap Nat Nat}
    (hpending : state.pending = some pending) (requestId : Option Nat) (packet : QueryPacket π δ) :
    ∃ events, answerReply peerId queryId requestId m state packet =
      (requestId.isSome,
        m.assigned queryId (state.waiting (answeredPending pending peerId requestId)), events) ∧
      ∀ q, .nullPending q ∉ events := by
  have hack := acknowledgePending_defined (π := π) (δ := δ) pending peerId
  have hcall := callResult_defined (π := π) (δ := δ) state queryId peerId
  have hsame : (acknowledgePending pending peerId : _ × List (MgrEvent π δ)).1 =
      (acknowledgePending pending peerId : _ × List (MgrEvent Empty Empty)).1 := by
    unfold acknowledgePending
    cases pending.find peerId <;> rfl
  unfold answerReply answeredPending
  rw [hpending]
  cases requestId with
  | none =>
    refine ⟨(acknowledgePending pending peerId).2 ++ [MgrEvent.sendReliablePacket peerId packet],
      by rw [← hsame]; rfl, fun q => ?_⟩
    simp [hack q]
  | some requestId =>
    refine ⟨(acknowledgePending pending peerId).2 ++ [MgrEvent.sendReliablePacket peerId packet] ++
      callResult state queryId peerId, by rw [← hsame]; rfl, fun q => ?_⟩
    simp [hack q, hcall q]

/-- As `OfferTargets`. A reply that is taken needs an index of pending requests; it changes nothing
if it has no resources and its answer has the id of the request that is pending. -/
def ReplyTargets (m : QueryMgr δ) (peerId queryId verifyId : Nat) (reply : QueryPacket π δ)
    (requestId : Option Nat) : Prop :=
  ∀ state r peer, m.initialized = true → m.activeQueryIndex.find queryId = some state →
    m.heap.get state.results = some r → r.ReplyMatches peerId verifyId reply peer →
      (reply.offset < peer.currOffset →
        queryId = reply.queryId ∧ peerId ∈ state.query.peerIdList) ∧
      (reply.offset = peer.currOffset → ∀ list, reply.resourceList = some list →
        ∃ pending, state.pending = some pending ∧
          (list ≠ [] ∨ pending.find peerId ≠ requestId →
            queryId = reply.queryId ∧ peerId ∈ state.query.peerIdList))

theorem unchanged_waiting_iff {pending : UMap Nat Nat} (hpending : state.pending = some pending)
    (requestId : Option Nat) :
    Unchanged state (state.waiting (answeredPending pending peerId requestId)) r r' ↔
      QueryResults.Same r r' ∧ pending.find peerId = requestId := by
  unfold Unchanged
  refine and_congr_right fun _ => ?_
  have hold : ∀ p, state.pending.bind (·.find p) = pending.find p := by
    intro p
    rw [hpending]
    rfl
  constructor
  · intro h
    have hpeer := h peerId
    rw [hold] at hpeer
    exact hpeer.symm.trans ((find_answeredPending ..).trans (if_pos rfl))
  · intro h p
    rw [hold]
    refine (find_answeredPending pending peerId requestId p).trans ?_
    split
    · next hp => rw [hp, h]
    · rfl

theorem handleQueryReply_confined_iff [ResourceHash] (hs : Sound m)
    (hall : m.All QueryResults.TotalInRange) (reply : QueryPacket π δ) (requestId : Option Nat) :
    Confined m peerId reply (m.handleQueryReply peerId queryId verifyId reply requestId) ↔
      ReplyTargets m peerId queryId verifyId reply requestId := by
  have ht := (m.handleQueryReply_touched peerId queryId verifyId reply requestId).1
  unfold handleQueryReply at ht ⊢
  cases hinit : m.initialized with
  | false =>
    rw [handlePacket_early hinit]
    refine iff_of_true (confined_refl fun q => List.not_mem_nil) fun state r peer h => ?_
    rw [hinit] at h
    cases h
  | true =>
    cases hf : m.activeQueryIndex.find queryId with
    | none =>
      rw [handlePacket_none hinit hf]
      refine iff_of_true (confined_refl fun q => by simp) fun state r peer _ h => ?_
      rw [hf] at h
      cases h
    | some state =>
      obtain ⟨r, hr⟩ := Option.isSome_iff_exists.mp (hs.owned.isSome (owner_active hf))
      have htargets : ReplyTargets m peerId queryId verifyId reply requestId ↔
          ∀ peer, r.ReplyMatches peerId verifyId reply peer →
            (reply.offset < peer.currOffset →
              queryId = reply.queryId ∧ peerId ∈ state.query.peerIdList) ∧
            (reply.offset = peer.currOffset → ∀ list, reply.resourceList = some list →
              ∃ pending, state.pending = some pending ∧
                (list ≠ [] ∨ pending.find peerId ≠ requestId →
                  queryId = reply.queryId ∧ peerId ∈ state.query.peerIdList)) := by
        constructor
        · exact fun h peer => h state r peer hinit hf hr
        · intro h state₁ r₁ peer _ hf₁ hr₁
          rw [hf] at hf₁
          cases hf₁
          rw [hr] at hr₁
          cases hr₁
          exact h peer
      rw [htargets]
      by_cases hlate : ∀ peer, r.ReplyMatches peerId verifyId reply peer →
          peer.currOffset < reply.offset
      · -- refused: no such reply is expected from the peer
        rw [handlePacket_invalid hinit hf hr (QueryResults.processQueryReply_refused hlate)] at ht ⊢
        rw [(writes_written hf hr r).confined_iff hs ht (fun h => by cases h)]
        refine iff_of_true ⟨fun q => by simp, fun h => absurd (unchanged_refl state r) h⟩ ?_
        intro peer hm
        have := hlate peer hm
        exact ⟨fun h => by omega, fun h => by omega⟩
      · push Not at hlate
        obtain ⟨peer, hm, hle⟩ := hlate
        have honly : ∀ peer₁, r.ReplyMatches peerId verifyId reply peer₁ → peer₁ = peer := by
          intro peer₁ hm₁
          have hsame := hm₁.found
          rw [hm.found] at hsame
          exact (Option.some.inj hsame).symm
        rcases Nat.lt_or_eq_of_le hle with hlt | heq
        · rw [handlePacket_invalid hinit hf hr
            (QueryResults.processQueryReply_duplicate hm hlt)] at ht ⊢
          have hw := writes_written hf hr (r.duplicate peerId peer).2.1
          have hchange : ¬ Unchanged state state r (r.duplicate peerId peer).2.1 :=
            fun h => (QueryResults.duplicate_changes hm.found).2 h.1
          rw [hw.confined_iff hs ht (fun h => by cases h)]
          constructor
          · rintro ⟨-, h⟩ peer₁ hm₁
            obtain rfl := honly peer₁ hm₁
            exact ⟨fun _ => h hchange, fun h => by omega⟩
          · intro h
            exact ⟨fun q => by simp, fun _ => (h peer hm).1 hlt⟩
        · cases hlist : reply.resourceList with
          | none =>
            rw [handlePacket_invalid hinit hf hr
              (QueryResults.processQueryReply_empty hm heq hlist)] at ht ⊢
            rw [(writes_written hf hr r).confined_iff hs ht (fun h => by cases h)]
            refine iff_of_true ⟨fun q => by simp, fun h => absurd (unchanged_refl state r) h⟩ ?_
            intro peer₁ hm₁
            obtain rfl := honly peer₁ hm₁
            exact ⟨fun h => by omega, fun _ _ h => by cases h⟩
          | some list =>
            obtain ⟨r', request, hp, hadds, hsame⟩ := QueryResults.processQueryReply_taken hm heq hlist
            have hsame := hsame (hall _ r hr)
            have hresources : reply.resources = list := by
              unfold QueryPacket.resources
              rw [hm.packetType, hlist]
              rfl
            rw [← hresources] at hadds
            rw [handlePacket_answered hinit hf hr hp] at ht ⊢
            cases hpending : state.pending with
            | none =>
              rw [answerReply_null _ hpending] at ht ⊢
              rw [(writes_written hf hr r').confined_iff hs ht (fun h => by cases h)]
              constructor
              · rintro ⟨h, -⟩
                exact absurd (List.mem_append_right _ (List.mem_singleton_self _)) (h queryId)
              · intro h
                obtain ⟨pending, hsome, -⟩ := (h peer hm).2 heq list rfl
                cases hsome
            | some pending =>
              obtain ⟨events, hanswer, hdefined⟩ := answerReply_answered peerId queryId
                (m.written state.results r') hpending requestId request
              rw [hanswer] at ht ⊢
              have hw : Writes m _ queryId state
                  (state.waiting (answeredPending pending peerId requestId)) r r' :=
                writes_assign hf hr r' rfl
              rw [hw.confined_iff hs ht (fun _ => hadds), unchanged_waiting_iff hpending, hsame]
              constructor
              · rintro ⟨-, h⟩ peer₁ hm₁
                obtain rfl := honly peer₁ hm₁
                refine ⟨fun h => by omega, fun _ list₁ hlist₁ => ?_⟩
                obtain rfl := Option.some.inj hlist₁
                refine ⟨pending, rfl, fun hchange => h ?_⟩
                rintro ⟨hnone, hreq⟩
                rcases hchange with hc | hc
                · exact hc hnone
                · exact hc hreq
              · intro h
                refine ⟨fun q => by simp [hdefined q], fun hchange => ?_⟩
                obtain ⟨pending₁, hsome, htarget⟩ := (h peer hm).2 heq list rfl
                obtain rfl := Option.some.inj hsome
                refine htarget ?_
                by_contra hnot
                push Not at hnot
                exact hchange hnot

end Handlers

theorem all_new (P : QueryResults δ → Prop) : (new : QueryMgr δ).All P := by
  intro a r hget
  cases hget

/-- In every reachable state, for every offer and every reply of a peer, whatever the unset
variables hold and whatever becomes of the answer: the handler does what it should exactly if the
query it finds is one that the packet may change. -/
theorem handled_confined_iff [ResourceHash] (inputs : List (Input π δ))
    (peerId queryId verifyId : Nat) (packet : QueryPacket π δ) (requestId : Option Nat) :
    let m := (machine.run (new : QueryMgr δ) inputs).1
    (Confined m peerId packet (m.handleQueryOffer peerId queryId verifyId packet requestId) ↔
      OfferTargets m peerId queryId verifyId packet) ∧
    (Confined m peerId packet (m.handleQueryReply peerId queryId verifyId packet requestId) ↔
      ReplyTargets m peerId queryId verifyId packet requestId) := by
  intro m
  have hinv : Sound m ∧ m.All QueryResults.TotalInRange := by
    refine machine.run_invariant (I := fun _ m => Sound m ∧ m.All QueryResults.TotalInRange)
      (fun _ m input h => ?_) (h := []) inputs ⟨sound_new, all_new _⟩
    exact ⟨(h.1.call input).1, all_call h.2 totalInRange_keptByPackets input⟩
  exact ⟨handleQueryOffer_confined_iff hinv.1 packet requestId,
    handleQueryReply_confined_iff hinv.1 hinv.2 packet requestId⟩

/-- Two queries of peer 5. -/
def twoActive : List (Input Empty Empty) :=
  [.initializeMgr 10,
    .createQuery ⟨"default", .empty, 100, 128⟩ [5] true,
    .indexQuery 0,
    .createQuery ⟨"default", .empty, 100, 128⟩ [5] true,
    .indexQuery 1]

/-- An offer for query 0, while the variables hold 1. -/
theorem twoActive_not_confined :
    let m := ((@machine Empty Empty ResourceHash.bySize).run new twoActive).1
    let offer : QueryPacket Empty Empty := { QueryPacket.fresh .queryOffer with queryId := 0 }
    ¬ Confined m 5 offer (m.handleQueryOffer 5 1 1 offer (some 77)) := by
  intro m offer hc
  have hpending := (hc.others 1 (by decide)).pending 5
  have hbefore : m.pendingRequest 1 5 = none := by decide +kernel
  have hafter : (m.handleQueryOffer 5 1 1 offer (some 77)).2.1.pendingRequest 1 5 = some 77 := by
    decide +kernel
  rw [hbefore, hafter] at hpending
  cases hpending

end QueryMgr

end Alpine
