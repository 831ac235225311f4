import Alpine.Protocol.QuerySteps

/-!
# What a packet does to the results

An offer or a reply is refused, counted as a duplicate, or taken. A refused packet leaves the
results as they are, a duplicate never does, and one that is taken adds its resources to those of
its peer. `Same` compares the contents of two results objects.

What all of this keeps holds of every results object of a manager (`all_call`).
-/

namespace Alpine

open Lib

variable {π δ : Type}

/-- The resources that a packet brings. -/
def QueryPacket.resources (packet : QueryPacket π δ) : List (ResourceDesc δ) :=
  match packet.packetType with
  | .queryReply => packet.resourceList.getD []
  | _ => []

def ReplyState.add (state : ReplyState δ) (list : List (ResourceDesc δ)) : ReplyState δ :=
  { state with resourceDescSet := state.resourceDescSet ++ list }

namespace QueryResults

variable {r r' : QueryResults δ} {peerId queryId : Nat}

/-- The same contents; in which order the index has them is left open. -/
structure Same (r r' : QueryResults δ) : Prop where
  queryId : r'.queryId = r.queryId
  expectedResourceTotal : r'.expectedResourceTotal = r.expectedResourceTotal
  currResourceTotal : r'.currResourceTotal = r.currResourceTotal
  numPeers : r'.numPeers = r.numPeers
  queryOptions : r'.queryOptions = r.queryOptions
  seenResources : r'.seenResources = r.seenResources
  replies : ∀ p, r'.replyIndex.find p = r.replyIndex.find p

theorem Same.refl (r : QueryResults δ) : Same r r := ⟨rfl, rfl, rfl, rfl, rfl, rfl, fun _ => rfl⟩

/-- What the peer has sent so far. -/
def resourcesFrom (r : QueryResults δ) (p : Nat) : List (ResourceDesc δ) :=
  ((r.replyIndex.find p).map (·.resourceDescSet)).getD []

theorem Same.resourcesFrom (hs : Same r r') (p : Nat) : r'.resourcesFrom p = r.resourcesFrom p := by
  unfold QueryResults.resourcesFrom
  rw [hs.replies]

/-! ## Offers -/

/-- The type and the id of an offer are right; `queryId` is the id that is read. -/
def OfferPasses (r : QueryResults δ) (queryId : Nat) (offer : QueryPacket π δ) : Prop :=
  offer.packetType = .queryOffer ∧ queryId = r.queryId

theorem processQueryOffer_refused {offer : QueryPacket π δ} (hp : ¬ r.OfferPasses queryId offer) :
    r.processQueryOffer peerId queryId offer = (false, r, [.badPacketReceived peerId], none) := by
  unfold processQueryOffer verifyQueryOffer
  by_cases htype : offer.packetType = .queryOffer
  · have hid : queryId ≠ r.queryId := fun h => hp ⟨htype, h⟩
    simp [htype, hid]
  · simp [htype]

/-- What belongs to the query and not to a peer. In the proofs the new values are variables, as the
kernel would compute with them. -/
structure SameQuery (r r' : QueryResults δ) : Prop where
  queryId : r'.queryId = r.queryId
  queryOptions : r'.queryOptions = r.queryOptions

theorem sameQuery_duplicate (r : QueryResults δ) (peerId : Nat) (state : ReplyState δ) :
    SameQuery r (r.duplicate peerId state).2.1 ∧
      (r.duplicate peerId state).2.1.currResourceTotal = r.currResourceTotal := by
  have hbanned : ∀ total index, SameQuery r { r with
      expectedResourceTotal := total
      replyIndex := index } ∧ ({ r with
        expectedResourceTotal := total
        replyIndex := index } : QueryResults δ).currResourceTotal = r.currResourceTotal :=
    fun _ _ => ⟨⟨rfl, rfl⟩, rfl⟩
  unfold duplicate
  dsimp only
  split
  · exact hbanned _ _
  · exact ⟨⟨rfl, rfl⟩, rfl⟩

/-- A duplicate is not valid, and never leaves the results as they are. -/
theorem duplicate_changes {state : ReplyState δ} (hfind : r.replyIndex.find peerId = some state) :
    (r.duplicate peerId state).1 = false ∧ ¬ Same r (r.duplicate peerId state).2.1 := by
  unfold duplicate
  dsimp only
  split
  · refine ⟨rfl, fun hs => ?_⟩
    have hgone := hs.replies peerId
    unfold banned at hgone
    rw [UMap.find_erase, if_pos rfl, hfind] at hgone
    cases hgone
  · refine ⟨rfl, fun hs => ?_⟩
    have hcount := hs.replies peerId
    rw [UMap.find_assign, if_pos rfl, hfind] at hcount
    have hnext : (state.duplicateCount + 1) % 2 ^ 16 = state.duplicateCount :=
      congrArg ReplyState.duplicateCount (Option.some.inj hcount)
    omega

theorem processQueryOffer_duplicate {offer : QueryPacket π δ} {state : ReplyState δ}
    (hp : r.OfferPasses queryId offer) (hfind : r.replyIndex.find peerId = some state) :
    r.processQueryOffer peerId queryId offer =
      (false, (r.duplicate peerId state).2.1, (r.duplicate peerId state).2.2, none) := by
  obtain ⟨htype, rfl⟩ := hp
  unfold processQueryOffer verifyQueryOffer
  simp [htype, hfind, (duplicate_changes hfind).1]

/-- The state of a peer after its first offer. -/
def opened (r : QueryResults δ) (peerId numHits : Nat) : ReplyState δ :=
  { peerId, expectedTotal := min numHits r.queryOptions.maxDescPerPeer, duplicateCount := 0
    resourceDescSet := [] }

def withOffer (r : QueryResults δ) (peerId numHits : Nat) : QueryResults δ :=
  { r with
    replyIndex := (r.replyIndex.emplace peerId
      { peerId, expectedTotal := 0, duplicateCount := 0, resourceDescSet := [] }).assign peerId
        (r.opened peerId numHits)
    numPeers := (r.numPeers + 1) % 2 ^ 64
    expectedResourceTotal :=
      (r.expectedResourceTotal + min numHits r.queryOptions.maxDescPerPeer) % 2 ^ 64 }

theorem find_withOffer (r : QueryResults δ) (peerId numHits p : Nat) :
    (r.withOffer peerId numHits).replyIndex.find p =
      if p = peerId then some (r.opened peerId numHits) else r.replyIndex.find p := by
  unfold withOffer
  dsimp only
  rw [UMap.find_assign]
  split
  · rfl
  · next hp => rw [UMap.find_emplace, if_neg hp]

/-- The first offer of a peer opens its state. -/
theorem processQueryOffer_opens {offer : QueryPacket π δ} (hp : r.OfferPasses queryId offer)
    (hfind : r.replyIndex.find peerId = none) :
    r.processQueryOffer peerId queryId offer = (true, r.withOffer peerId offer.numHits, [],
      some (r.populateQueryRequest (r.opened peerId offer.numHits))) := by
  obtain ⟨htype, rfl⟩ := hp
  unfold processQueryOffer verifyQueryOffer
  simp only [htype, ne_eq, not_true_eq_false, if_false, hfind, Bool.true_eq_false,
    UMap.find_emplace, if_true, Option.getD_none]
  rfl

theorem processQueryOffer_new {offer : QueryPacket π δ} (hp : r.OfferPasses queryId offer)
    (hfind : r.replyIndex.find peerId = none) :
    ∃ r' request, r.processQueryOffer peerId queryId offer = (true, r', [], some request) ∧
      ¬ Same r r' ∧ ∀ p, r'.resourcesFrom p = r.resourcesFrom p := by
  refine ⟨_, _, processQueryOffer_opens hp hfind, fun hs => ?_, fun p => ?_⟩
  · have hnew := hs.replies peerId
    rw [find_withOffer, if_pos rfl, hfind] at hnew
    cases hnew
  · unfold resourcesFrom
    rw [find_withOffer]
    split
    · next hp =>
      rw [hp, hfind]
      rfl
    · rfl

/-- The number of resources is a `ulong`. -/
def TotalInRange (r : QueryResults δ) : Prop := r.currResourceTotal < 2 ^ 64

/-! ## Replies -/

section Replies

variable [ResourceHash] {reply : QueryPacket π δ} {state : ReplyState δ}

/-- The type and the id of a reply are right, and `state` is that of its peer. -/
structure ReplyMatches (r : QueryResults δ) (peerId queryId : Nat) (reply : QueryPacket π δ)
    (state : ReplyState δ) : Prop where
  packetType : reply.packetType = .queryReply
  id : queryId = r.queryId
  found : r.replyIndex.find peerId = some state

theorem processQueryReply_refused
    (hp : ∀ state, r.ReplyMatches peerId queryId reply state → state.currOffset < reply.offset) :
    r.processQueryReply peerId queryId reply = (false, r, [.badPacketReceived peerId], none) := by
  unfold processQueryReply verifyQueryReply
  by_cases htype : reply.packetType = .queryReply
  · by_cases hid : queryId = r.queryId
    · cases hf : r.replyIndex.find peerId with
      | none => simp [htype, hid]
      | some state =>
        have hlate := hp state ⟨htype, hid, hf⟩
        simp [htype, hid, hlate]
    · simp [htype, hid]
  · simp [htype]

theorem processQueryReply_duplicate (hm : r.ReplyMatches peerId queryId reply state)
    (hlt : reply.offset < state.currOffset) :
    r.processQueryReply peerId queryId reply =
      (false, (r.duplicate peerId state).2.1, (r.duplicate peerId state).2.2, none) := by
  obtain ⟨htype, rfl, hfind⟩ := hm
  unfold processQueryReply verifyQueryReply
  simp [htype, hfind, Nat.not_lt_of_lt hlt, Nat.ne_of_lt hlt, (duplicate_changes hfind).1]

theorem processQueryReply_empty (hm : r.ReplyMatches peerId queryId reply state)
    (heq : reply.offset = state.currOffset) (hnone : reply.resourceList = none) :
    r.processQueryReply peerId queryId reply = (false, r, [], none) := by
  obtain ⟨htype, rfl, hfind⟩ := hm
  unfold processQueryReply verifyQueryReply
  simp [htype, hfind, heq, hnone]

def withReply (r : QueryResults δ) (peerId : Nat) (state : ReplyState δ)
    (list : List (ResourceDesc δ)) : QueryResults δ :=
  { r with
    replyIndex := r.replyIndex.assign peerId (state.add list)
    seenResources := (countUnique r.seenResources 0 list).1
    currResourceTotal := (r.currResourceTotal + (countUnique r.seenResources 0 list).2) % 2 ^ 64 }

theorem find_withReply (r : QueryResults δ) (peerId : Nat) (state : ReplyState δ)
    (list : List (ResourceDesc δ)) (p : Nat) :
    (r.withReply peerId state list).replyIndex.find p =
      if p = peerId then some (state.add list) else r.replyIndex.find p := by
  unfold withReply
  dsimp only
  rw [UMap.find_assign]

/-- A reply at the offset that was asked for is taken with all its resources. -/
theorem processQueryReply_adds (hm : r.ReplyMatches peerId queryId reply state)
    (heq : reply.offset = state.currOffset) {list : List (ResourceDesc δ)}
    (hlist : reply.resourceList = some list) :
    r.processQueryReply peerId queryId reply = (true, r.withReply peerId state list, [],
      some (r.populateQueryRequest (state.add list))) := by
  obtain ⟨htype, rfl, hfind⟩ := hm
  have hverify : r.verifyQueryReply peerId r.queryId reply = (true, r, []) := by
    unfold verifyQueryReply
    simp [htype, hfind, heq]
  unfold processQueryReply
  simp only [hverify, Bool.true_eq_false, if_false, hfind, hlist]
  rfl

theorem processQueryReply_taken (hm : r.ReplyMatches peerId queryId reply state)
    (heq : reply.offset = state.currOffset) {list : List (ResourceDesc δ)}
    (hlist : reply.resourceList = some list) :
    ∃ r' request, r.processQueryReply peerId queryId reply = (true, r', [], some request) ∧
      (∀ p, r'.resourcesFrom p = r.resourcesFrom p ++ if p = peerId then list else []) ∧
      (r.TotalInRange → (Same r r' ↔ list = [])) := by
  have hfind := hm.found
  refine ⟨_, _, processQueryReply_adds hm heq hlist, fun p => ?_, fun hbound => ?_⟩
  · unfold resourcesFrom
    rw [find_withReply]
    split
    · next hp =>
      rw [hp, hfind]
      rfl
    · rw [List.append_nil]
  · constructor
    · intro hs
      have hstate := hs.replies peerId
      rw [find_withReply, if_pos rfl, hfind] at hstate
      have hset : state.resourceDescSet ++ list = state.resourceDescSet :=
        congrArg ReplyState.resourceDescSet (Option.some.inj hstate)
      exact List.append_right_eq_self.mp hset
    · rintro rfl
      refine ⟨rfl, rfl, Nat.mod_eq_of_lt hbound, rfl, rfl, rfl, fun p => ?_⟩
      rw [find_withReply]
      split
      · next hp =>
        rw [hp, hfind]
        unfold ReplyState.add
        rw [List.append_nil]
      · rfl

/-- What is taken was expected. -/
theorem processQueryReply_true {r' : QueryResults δ} {calls : List PeerCall}
    {request : Option (QueryPacket π δ)}
    (h : r.processQueryReply peerId queryId reply = (true, r', calls, request)) :
    ∃ state, r.ReplyMatches peerId queryId reply state ∧ reply.offset = state.currOffset := by
  by_cases hlate : ∀ state, r.ReplyMatches peerId queryId reply state →
      state.currOffset < reply.offset
  · rw [processQueryReply_refused hlate] at h
    cases h
  · push Not at hlate
    obtain ⟨state, hm, hle⟩ := hlate
    rcases Nat.lt_or_eq_of_le hle with hlt | heq
    · rw [processQueryReply_duplicate hm hlt] at h
      cases h
    · exact ⟨state, hm, heq⟩

end Replies

end QueryResults

/-! ## All results of a manager -/

/-- New results have it, and every packet keeps it. -/
structure KeptByPackets [ResourceHash] (π : Type) (P : QueryResults δ → Prop) : Prop where
  new : ∀ queryId options, P (QueryResults.new queryId options)
  offer : ∀ r peerId queryId (offer : QueryPacket π δ), P r →
    P (r.processQueryOffer peerId queryId offer).2.1
  reply : ∀ r peerId queryId (reply : QueryPacket π δ), P r →
    P (r.processQueryReply peerId queryId reply).2.1

section Totals

variable (r : QueryResults δ) (peerId queryId : Nat)

theorem QueryResults.verifyQueryOffer_total (offer : QueryPacket π δ) :
    (r.verifyQueryOffer peerId queryId offer).2.1.currResourceTotal = r.currResourceTotal := by
  unfold verifyQueryOffer
  split
  · rfl
  · split
    · rfl
    · split
      · exact (r.sameQuery_duplicate peerId _).2
      · rfl

theorem QueryResults.verifyQueryReply_total (reply : QueryPacket π δ) :
    (r.verifyQueryReply peerId queryId reply).2.1.currResourceTotal = r.currResourceTotal := by
  unfold verifyQueryReply
  split
  · rfl
  · split
    · rfl
    · split
      · rfl
      · split
        · rfl
        · split
          · exact (r.sameQuery_duplicate peerId _).2
          · rfl

end Totals

theorem totalInRange_keptByPackets [ResourceHash] :
    KeptByPackets π (QueryResults.TotalInRange : QueryResults δ → Prop) where
  new := by
    intro queryId options
    unfold QueryResults.TotalInRange QueryResults.new
    exact Nat.two_pow_pos 64
  offer := by
    intro r peerId queryId offer hr
    have hverify := r.verifyQueryOffer_total peerId queryId offer
    unfold QueryResults.TotalInRange at hr ⊢
    unfold QueryResults.processQueryOffer
    dsimp only
    split
    · rwa [hverify]
    · split
      · rwa [hverify]
      · dsimp only
        rwa [hverify]
  reply := by
    intro r peerId queryId reply hr
    have hverify := r.verifyQueryReply_total peerId queryId reply
    unfold QueryResults.TotalInRange at hr ⊢
    unfold QueryResults.processQueryReply
    dsimp only
    split
    · rwa [hverify]
    · split
      · rwa [hverify]
      · rwa [hverify]
      · exact Nat.mod_lt _ (Nat.two_pow_pos 64)

namespace QueryMgr

variable {m m' : QueryMgr δ} {P : QueryResults δ → Prop}

/-- Every results object has it. -/
def All (m : QueryMgr δ) (P : QueryResults δ → Prop) : Prop :=
  ∀ a r, m.heap.get a = some r → P r

theorem All.of_heap (h : m.All P) (hheap : m'.heap = m.heap) : m'.All P := by
  intro a r hget
  rw [hheap] at hget
  exact h a r hget

theorem All.free (h : m.All P) {a : Nat} (hheap : m'.heap = m.heap.free a) : m'.All P := by
  intro b r hget
  rw [hheap, Heap.get_free] at hget
  split at hget
  · cases hget
  · exact h b r hget

theorem All.release (h : m.All P) (a : Nat) : (m.release (π := π) a).1.All P := by
  unfold QueryMgr.release
  split
  · exact h.free rfl
  · exact h

theorem All.releaseEach (h : m.All P) (list : List Nat) :
    (m.releaseEach (π := π) list).1.All P := by
  induction list generalizing m with
  | nil => exact h
  | cons results list ih => exact ih (h.release results)

theorem All.allocated [ResourceHash] (h : m.All P) (hP : KeptByPackets π P) (options : QueryOptions) :
    (m.allocated options).All P := by
  intro a r hget
  unfold QueryMgr.allocated at hget
  dsimp only at hget
  rw [Heap.get_alloc] at hget
  split at hget
  · rw [← Option.some.inj hget]
    exact hP.new _ _
  · exact h a r hget

theorem All.createQuery [ResourceHash] (h : m.All P) (hP : KeptByPackets π P)
    (options : QueryOptions) (peerIdList : List Nat) (startQuery : Bool) :
    (m.createQuery (π := π) options peerIdList startQuery).2.1.All P := by
  cases hinit : m.initialized with
  | false =>
    rw [createQuery_early hinit]
    exact h
  | true =>
    cases startQuery with
    | false =>
      rw [createQuery_failed hinit]
      exact (h.allocated hP options).free rfl
    | true =>
      rw [createQuery_started hinit]
      exact (h.allocated hP options).of_heap rfl

theorem All.indexQuery (h : m.All P) (results : Nat) :
    (m.indexQuery (π := π) results).2.1.All P := by
  cases hf : m.started.find results with
  | none =>
    rw [indexQuery_none hf]
    exact h
  | some state =>
    have harrived : (m.arrived results).All P := h.of_heap rfl
    have hlisted : ((m.arrived results).listed state).All P := h.of_heap rfl
    cases hinit : m.initialized with
    | false =>
      rw [indexQuery_early hf hinit]
      exact harrived.release _
    | true =>
      cases hold : m.activeQueryIndex.find state.queryId with
      | none =>
        rw [indexQuery_new hf hinit hold]
        exact hlisted.of_heap rfl
      | some old =>
        rw [indexQuery_duplicate hf hinit (by rw [hold]; rfl)]
        exact hlisted.release _

theorem All.cancelQuery (h : m.All P) (queryId : Nat) :
    (m.cancelQuery (π := π) queryId).2.1.All P := by
  cases hinit : m.initialized with
  | false =>
    rw [cancelQuery_early hinit]
    exact h
  | true =>
    cases hf : m.activeQueryIndex.find queryId with
    | none =>
      rw [cancelQuery_none hf]
      exact h
    | some state =>
      have hretired : (m.retired queryId state).All P := h.of_heap rfl
      cases hold : m.pastQueryIndex.find queryId with
      | none =>
        rw [cancelQuery_past hinit hf hold]
        exact hretired.of_heap rfl
      | some old =>
        rw [cancelQuery_duplicate hinit hf (by rw [hold]; rfl)]
        exact hretired.release _

/-- A packet changes the results of one query, if any, and then as they process it. -/
theorem All.handlePacket (h : m.All P) (peerId queryId : Nat)
    {process : QueryResults δ → QueryResults.Processed π δ}
    {answer : QueryMgr δ → QueryState → QueryPacket π δ → Outcome π δ}
    (hprocess : ∀ r, P r → P (process r).2.1)
    (hanswer : ∀ m state packet, (answer m state packet).2.1.heap = m.heap) :
    (m.handlePacket peerId queryId process answer).2.1.All P := by
  unfold QueryMgr.handlePacket
  split
  · exact h
  cases hf : m.activeQueryIndex.find queryId with
  | none => exact h
  | some state =>
    dsimp only
    cases hr : m.heap.get state.results with
    | none => exact h
    | some results =>
      dsimp only
      have hwritten : All { m with heap := m.heap.write state.results (process results).2.1 } P := by
        intro a r hget
        dsimp only at hget
        rw [Heap.get_write] at hget
        split at hget
        · rw [← Option.some.inj hget]
          exact hprocess results (h _ _ hr)
        · exact h a r hget
      cases (process results).2.2.2 with
      | none => exact hwritten
      | some packet => exact hwritten.of_heap (hanswer _ _ _)

theorem answerOffer_heap (peerId queryId : Nat) (requestId : Option Nat) (m : QueryMgr δ)
    (state : QueryState) (packet : QueryPacket π δ) :
    (answerOffer peerId queryId requestId m state packet).2.1.heap = m.heap := by
  cases requestId <;> rfl

theorem answerReply_heap (peerId queryId : Nat) (requestId : Option Nat) (m : QueryMgr δ)
    (state : QueryState) (packet : QueryPacket π δ) :
    (answerReply peerId queryId requestId m state packet).2.1.heap = m.heap := by
  unfold answerReply
  cases state.pending with
  | none => rfl
  | some pending => cases requestId <;> rfl

theorem removePendingRequest_heap (m : QueryMgr δ) (peerId : Nat) :
    (m.removePendingRequest peerId).2.heap = m.heap := by
  have hloop : ∀ queryList, (m.removePending peerId queryList).2.heap = m.heap := by
    intro queryList
    induction queryList with
    | nil => rfl
    | cons queryItem queryList ih =>
      unfold removePending
      cases m.activeQueryIndex.find queryItem with
      | none => rfl
      | some state =>
        dsimp only
        split
        · exact ih
        · split
          · rfl
          · exact ih
  unfold removePendingRequest
  split
  · rfl
  · exact hloop _

theorem all_call [ResourceHash] (h : m.All P) (hP : KeptByPackets π P) (input : Input π δ) :
    (m.call input).2.1.All P := by
  cases input with
  | initializeMgr maxConcurrent =>
    refine h.of_heap ?_
    show (m.initializeMgr maxConcurrent).2.heap = m.heap
    unfold initializeMgr
    split
    · rfl
    · rfl
  | createQuery options peerIdList startQuery => exact h.createQuery hP options peerIdList startQuery
  | indexQuery results => exact h.indexQuery results
  | cancelQuery queryId => exact h.cancelQuery queryId
  | cancelAll peerId =>
    refine h.of_heap ?_
    show (m.cancelAll (π := π) peerId).2.1.heap = m.heap
    rw [cancelAll_eq]
  | registerResultCallback queryId callback =>
    refine h.of_heap ?_
    show (m.registerResultCallback queryId callback).2.heap = m.heap
    unfold registerResultCallback
    split
    · rfl
    · cases m.activeQueryIndex.find queryId <;> rfl
  | handleQueryOffer peerId queryId verifyId offerPacket requestId =>
    exact h.handlePacket peerId queryId (fun r hr => hP.offer r peerId verifyId offerPacket hr)
      (answerOffer_heap peerId queryId requestId)
  | handleQueryReply peerId queryId verifyId replyPacket requestId =>
    exact h.handlePacket peerId queryId (fun r hr => hP.reply r peerId verifyId replyPacket hr)
      (answerReply_heap peerId queryId requestId)
  | handleSendReceived peerId requestId =>
    refine h.of_heap ?_
    show (m.handleSendReceived peerId requestId).2.heap = m.heap
    unfold handleSendReceived
    split
    · rfl
    · exact m.removePendingRequest_heap peerId
  | handleSendFailure peerId requestId =>
    refine h.of_heap ?_
    show (m.handleSendFailure (π := π) peerId requestId).2.1.heap = m.heap
    unfold handleSendFailure
    split
    · rfl
    · exact m.removePendingRequest_heap peerId
  | processTimedEvents => exact h
  | cleanUp =>
    show (m.cleanUp (π := π)).1.All P
    cases hinit : m.initialized with
    | false =>
      rw [cleanUp_early hinit]
      exact h
    | true =>
      rw [cleanUp_ready hinit]
      exact (h.releaseEach (π := π) m.held).of_heap rfl
  | complete queryId =>
    refine h.of_heap ?_
    show (m.complete queryId).heap = m.heap
    unfold complete
    cases m.activeQueryIndex.find queryId <;> rfl
  | completeStarted results =>
    refine h.of_heap ?_
    show (m.completeStarted results).heap = m.heap
    unfold completeStarted
    cases m.started.find results <;> rfl

end QueryMgr

end Alpine
