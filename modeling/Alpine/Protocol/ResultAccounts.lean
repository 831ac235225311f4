import Alpine.Lib.Totals
import Alpine.Protocol.QueryReaders
import Alpine.Protocol.ResultsSteps

/-!
# The accounts of a query's results

The totals of a results object are kept beside the states of its peers. `Accounted` says that they
agree: with the index, and with the resources accepted so far. The code counts resources by a hash,
takes whatever a reply brings, and leaves the number of peers as it is when it bans one.
`Fits` is the exact condition of a step under which the totals still agree
(`along_totals_iff`).
-/

namespace Alpine

open Lib

variable {π δ : Type}

/-- What tells resources apart: the first locator and the size. -/
def ResourceDesc.key (desc : ResourceDesc δ) : CString × Nat :=
  (desc.locatorList.head?.getD .empty, desc.size)

/-- The distinct resources of a list. -/
def keys (list : List (ResourceDesc δ)) : Finset (CString × Nat) :=
  (list.map ResourceDesc.key).toFinset

def keyHash [ResourceHash] (key : CString × Nat) : Nat := ResourceHash.hash key.1 key.2

/-- A packet from a peer, with the id that is read. -/
inductive ResultsCall (π δ : Type) where
  | offer (peerId queryId : Nat) (packet : QueryPacket π δ)
  | reply (peerId queryId : Nat) (packet : QueryPacket π δ)

namespace QueryResults

variable [ResourceHash]

/-- The events are the resources that are accepted. -/
def resultsStep (r : QueryResults δ) : ResultsCall π δ → QueryResults δ × List (ResourceDesc δ)
  | .offer peerId queryId packet => ((r.processQueryOffer peerId queryId packet).2.1, [])
  | .reply peerId queryId packet =>
    ((r.processQueryReply peerId queryId packet).2.1,
      if (r.processQueryReply peerId queryId packet).1 then packet.resourceList.getD [] else [])

def results : Machine (QueryResults δ) (ResultsCall π δ) (ResourceDesc δ) := ⟨resultsStep⟩

/-- The totals agree with the index and with what was accepted. -/
structure Accounted (accepted : List (ResourceDesc δ)) (r : QueryResults δ) : Prop where
  expected : r.expectedResourceTotal = r.replyIndex.total (·.expectedTotal)
  /-- `numPending` does not wrap. -/
  received : r.currResourceTotal ≤ r.expectedResourceTotal
  /-- The size that a request asks for does not wrap. -/
  desired : ∀ peerId state, r.replyIndex.find peerId = some state →
    state.currOffset ≤ state.expectedTotal
  peers : r.numPeers = r.replyIndex.keys.length
  distinct : r.currResourceTotal = (keys accepted).card

/-- Every step leaves the totals agreeing. -/
def StepAccounts (accepted : List (ResourceDesc δ)) (r : QueryResults δ) (call : ResultsCall π δ) :
    Prop :=
  Accounted (accepted ++ (r.resultsStep call).2) (r.resultsStep call).1

/-- One more duplicate does not ban the peer. -/
def Tolerated (state : ReplyState δ) : Prop :=
  (state.duplicateCount + 1) % 2 ^ 16 < maxDuplicateRecv

/-- The exact condition. Nobody is banned; a reply brings no more than its peer still has to send,
fewer than `2 ^ 16` of its resources are new, and no two different resources have one hash; the
numbers are small enough for their types. -/
def Fits (accepted : List (ResourceDesc δ)) (r : QueryResults δ) : ResultsCall π δ → Prop
  | .offer peerId queryId packet => r.OfferPasses queryId packet →
    (∀ state, r.replyIndex.find peerId = some state → Tolerated state) ∧
    (r.replyIndex.find peerId = none →
      r.replyIndex.total (·.expectedTotal) +
          min packet.numHits r.queryOptions.maxDescPerPeer < 2 ^ 64 ∧
        r.replyIndex.keys.length + 1 < 2 ^ 64)
  | .reply peerId queryId packet => ∀ state, r.ReplyMatches peerId queryId packet state →
    (packet.offset < state.currOffset → Tolerated state) ∧
    (packet.offset = state.currOffset → ∀ list, packet.resourceList = some list →
      state.currOffset + list.length ≤ state.expectedTotal ∧
        (keys list \ keys accepted).card < 2 ^ 16 ∧
        Set.InjOn keyHash (keys (accepted ++ list) : Set (CString × Nat)))

/-! ## Distinct resources -/

omit [ResourceHash] in
theorem keys_append (list list' : List (ResourceDesc δ)) :
    keys (list ++ list') = keys list ∪ keys list' := by
  unfold keys
  rw [List.map_append, List.toFinset_append]

omit [ResourceHash] in
theorem card_keys_append (list list' : List (ResourceDesc δ)) :
    (keys (list ++ list')).card = (keys list).card + (keys list' \ keys list).card := by
  rw [keys_append, Finset.union_comm, ← Finset.card_sdiff_add_card, Nat.add_comm]

omit [ResourceHash] in
theorem card_keys_le (list : List (ResourceDesc δ)) : (keys list).card ≤ list.length := by
  refine le_trans (List.toFinset_card_le _) ?_
  rw [List.length_map]

/-- The loop counts the hashes that were not seen before. -/
theorem countUnique_eq (seen : List Nat) (list : List (ResourceDesc δ)) (uniqueCount : Nat)
    (hlt : uniqueCount < 2 ^ 16) :
    (countUnique seen uniqueCount list).1.toFinset = seen.toFinset ∪ (keys list).image keyHash ∧
      (countUnique seen uniqueCount list).2 =
        (uniqueCount + ((keys list).image keyHash \ seen.toFinset).card) % 2 ^ 16 := by
  induction list generalizing seen uniqueCount with
  | nil =>
    refine ⟨by simp [countUnique, keys], ?_⟩
    show uniqueCount = (uniqueCount + ((∅ : Finset Nat) \ seen.toFinset).card) % 2 ^ 16
    rw [Finset.empty_sdiff, Finset.card_empty, Nat.add_zero, Nat.mod_eq_of_lt hlt]
  | cons desc list ih =>
    have himage : (keys (desc :: list)).image keyHash =
        insert (keyHash desc.key) ((keys list).image keyHash) := by
      unfold keys
      rw [List.map_cons, List.toFinset_cons, Finset.image_insert]
    unfold countUnique
    dsimp only
    rw [himage, show ResourceHash.hash (desc.locatorList.head?.getD .empty) desc.size =
      keyHash desc.key from rfl]
    split
    · next hseen =>
      have hmem : keyHash desc.key ∈ seen.toFinset := List.mem_toFinset.mpr hseen
      obtain ⟨hset, hcount⟩ := ih seen uniqueCount hlt
      rw [hset, hcount, Finset.insert_sdiff_of_mem _ hmem]
      refine ⟨?_, rfl⟩
      rw [Finset.union_insert, Finset.insert_eq_of_mem (Finset.mem_union_left _ hmem)]
    · next hnew =>
      have hmem : keyHash desc.key ∉ seen.toFinset := fun h => hnew (List.mem_toFinset.mp h)
      obtain ⟨hset, hcount⟩ := ih (keyHash desc.key :: seen)
        _ (Nat.mod_lt (uniqueCount + 1) (y := 2 ^ 16) (by decide))
      rw [hset, hcount, List.toFinset_cons]
      refine ⟨by rw [Finset.insert_union, Finset.union_insert], ?_⟩
      have hcard : (insert (keyHash desc.key) ((keys list).image keyHash) \ seen.toFinset).card =
          ((keys list).image keyHash \ insert (keyHash desc.key) seen.toFinset).card + 1 := by
        rw [Finset.insert_sdiff_of_notMem _ hmem, Finset.sdiff_insert,
          ← Finset.erase_insert_eq_erase, Finset.card_erase_add_one (Finset.mem_insert_self ..)]
      rw [hcard]
      omega

/-! ## What the steps keep -/

/-- What is kept as long as every step fits. -/
structure Kept (accepted : List (ResourceDesc δ)) (r : QueryResults δ) : Prop where
  expected : r.expectedResourceTotal = r.replyIndex.total (·.expectedTotal)
  bounded : r.expectedResourceTotal < 2 ^ 64
  desired : ∀ peerId state, r.replyIndex.find peerId = some state →
    state.currOffset ≤ state.expectedTotal
  peers : r.numPeers = r.replyIndex.total fun _ => 1
  counted : r.currResourceTotal = (keys accepted).card
  seen : r.seenResources.toFinset = (keys accepted).image keyHash
  injective : Set.InjOn keyHash (keys accepted : Set (CString × Nat))
  stored : accepted.length = r.replyIndex.total (·.currOffset)

variable {accepted : List (ResourceDesc δ)} {r : QueryResults δ}

/-- What is received was stored, and what is stored was expected. -/
theorem Kept.accounted (hk : Kept accepted r) : Accounted accepted r := by
  refine ⟨hk.expected, ?_, hk.desired, ?_, hk.counted⟩
  · calc r.currResourceTotal = (keys accepted).card := hk.counted
      _ ≤ accepted.length := card_keys_le accepted
      _ = r.replyIndex.total (·.currOffset) := hk.stored
      _ ≤ r.replyIndex.total (·.expectedTotal) := UMap.total_le_total hk.desired
      _ = r.expectedResourceTotal := hk.expected.symm
  · rw [UMap.length_keys_eq_total]
    exact hk.peers

theorem kept_new (queryId : Nat) (options : QueryOptions) :
    Kept [] (QueryResults.new queryId options : QueryResults δ) := by
  refine ⟨rfl, Nat.two_pow_pos 64, fun peerId state h => ?_, rfl, rfl, ?_, ?_, rfl⟩
  · rw [QueryResults.new, UMap.find_empty] at h
    cases h
  · simp [QueryResults.new, keys]
  · simp [keys]

/-! ## Duplicates -/

variable {peerId queryId : Nat} {state : ReplyState δ}

theorem Kept.duplicate (hk : Kept accepted r) (hfind : r.replyIndex.find peerId = some state)
    (htolerated : Tolerated state) : Kept accepted (r.duplicate peerId state).2.1 := by
  have hsame : ∀ f : ReplyState δ → Nat,
      f { state with duplicateCount := (state.duplicateCount + 1) % 2 ^ 16 } = f state →
      (r.replyIndex.assign peerId
        { state with duplicateCount := (state.duplicateCount + 1) % 2 ^ 16 }).total f =
        r.replyIndex.total f := by
    intro f hf
    have htotal := UMap.total_assign_some hfind
      { state with duplicateCount := (state.duplicateCount + 1) % 2 ^ 16 } f
    omega
  unfold QueryResults.duplicate
  dsimp only
  rw [if_neg (Nat.not_le_of_lt htolerated)]
  refine ⟨?_, hk.bounded, fun p state' h => ?_, ?_, hk.counted, hk.seen, hk.injective, ?_⟩
  · exact hk.expected.trans (hsame (·.expectedTotal) rfl).symm
  · dsimp only at h
    rw [UMap.find_assign] at h
    split at h
    · cases h
      exact hk.desired peerId state hfind
    · exact hk.desired p state' h
  · exact hk.peers.trans (hsame (fun _ => 1) rfl).symm
  · exact hk.stored.trans (hsame (·.currOffset) rfl).symm

omit [ResourceHash] in
theorem duplicate_banned (r : QueryResults δ) (peerId : Nat) (hban : ¬ Tolerated state) :
    ∃ total, (r.duplicate peerId state).2.1 =
      { r with expectedResourceTotal := total, replyIndex := r.replyIndex.erase peerId } := by
  unfold QueryResults.duplicate
  dsimp only
  rw [if_pos (Nat.le_of_not_lt hban)]
  exact ⟨_, rfl⟩

/-- A ban leaves the number of peers as it was. -/
theorem Kept.tolerated_of_accounted (hk : Kept accepted r)
    (hfind : r.replyIndex.find peerId = some state)
    (hnext : Accounted accepted (r.duplicate peerId state).2.1) : Tolerated state := by
  by_contra hban
  obtain ⟨total, hbanned⟩ := duplicate_banned r peerId hban
  have hpeers := hnext.peers
  rw [hbanned, UMap.length_keys_eq_total] at hpeers
  dsimp only at hpeers
  have hone := UMap.total_erase hfind fun _ => 1
  have := hk.peers
  omega

/-! ## Offers -/

theorem Kept.withOffer (hk : Kept accepted r) (hfind : r.replyIndex.find peerId = none)
    {numHits : Nat}
    (hexpected : r.replyIndex.total (·.expectedTotal) +
      min numHits r.queryOptions.maxDescPerPeer < 2 ^ 64)
    (hpeers : r.replyIndex.keys.length + 1 < 2 ^ 64) :
    Kept accepted (r.withOffer peerId numHits) := by
  have htotal := UMap.total_emplace_assign hfind
    { peerId, expectedTotal := 0, duplicateCount := 0, resourceDescSet := [] }
    (r.opened peerId numHits)
  rw [UMap.length_keys_eq_total, ← hk.peers] at hpeers
  rw [← hk.expected] at hexpected
  refine ⟨?_, ?_, fun p state' h => ?_, ?_, hk.counted, hk.seen, hk.injective, ?_⟩
  · exact ((Nat.mod_eq_of_lt hexpected).trans
      (congrArg (· + _) hk.expected)).trans (htotal (·.expectedTotal)).symm
  · exact Nat.mod_lt _ (by decide)
  · rw [find_withOffer] at h
    split at h
    · cases h
      exact Nat.zero_le _
    · exact hk.desired p state' h
  · exact ((Nat.mod_eq_of_lt hpeers).trans
      (congrArg (· + 1) hk.peers)).trans (htotal fun _ => 1).symm
  · exact hk.stored.trans (htotal (·.currOffset)).symm

omit [ResourceHash] in
theorem fits_of_withOffer (hfind : r.replyIndex.find peerId = none) {numHits : Nat}
    (hnext : Accounted accepted (r.withOffer peerId numHits)) :
    r.replyIndex.total (·.expectedTotal) + min numHits r.queryOptions.maxDescPerPeer < 2 ^ 64 ∧
      r.replyIndex.keys.length + 1 < 2 ^ 64 := by
  have htotal := UMap.total_emplace_assign hfind
    { peerId, expectedTotal := 0, duplicateCount := 0, resourceDescSet := [] }
    (r.opened peerId numHits)
  have hexpected := hnext.expected.trans (htotal (·.expectedTotal))
  have hpeers := hnext.peers.trans ((UMap.length_keys_eq_total _).trans (htotal fun _ => 1))
  change (r.expectedResourceTotal + min numHits r.queryOptions.maxDescPerPeer) % 2 ^ 64 =
    _ + min numHits r.queryOptions.maxDescPerPeer at hexpected
  change (r.numPeers + 1) % 2 ^ 64 = _ + 1 at hpeers
  rw [UMap.length_keys_eq_total]
  constructor
  · rw [← hexpected]
    exact Nat.mod_lt _ (by decide)
  · rw [← hpeers]
    exact Nat.mod_lt _ (by decide)

/-! ## Replies -/

variable {list : List (ResourceDesc δ)}

/-- How many of the hashes of a reply are new. -/
theorem Kept.card_image (hk : Kept accepted r) (list : List (ResourceDesc δ)) :
    ((keys (accepted ++ list)).image keyHash).card =
      (keys accepted).card + ((keys list).image keyHash \ r.seenResources.toFinset).card := by
  rw [keys_append, Finset.image_union, Finset.union_comm, ← Finset.card_sdiff_add_card, hk.seen,
    Finset.card_image_of_injOn hk.injective, Nat.add_comm]

theorem Kept.withReply (hk : Kept accepted r) (hfind : r.replyIndex.find peerId = some state)
    (hroom : state.currOffset + list.length ≤ state.expectedTotal)
    (hshort : (keys list \ keys accepted).card < 2 ^ 16)
    (hinjective : Set.InjOn keyHash (keys (accepted ++ list) : Set (CString × Nat))) :
    Kept (accepted ++ list) (r.withReply peerId state list) := by
  obtain ⟨hset, hcount⟩ := countUnique_eq r.seenResources list 0 (by decide)
  have hcard := hk.card_image list
  rw [Finset.card_image_of_injOn hinjective] at hcard
  have hnew := card_keys_append accepted list
  have htotal := UMap.total_assign_some hfind (state.add list)
  have hstored := htotal (·.currOffset)
  have hsame := htotal (·.expectedTotal)
  have hones := htotal fun _ => 1
  have hlength : (state.add list).currOffset = state.currOffset + list.length := by
    unfold ReplyState.add ReplyState.currOffset
    exact List.length_append
  have hexpected : (state.add list).expectedTotal = state.expectedTotal := rfl
  have hdesired : ∀ p state', (r.withReply peerId state list).replyIndex.find p = some state' →
      state'.currOffset ≤ state'.expectedTotal := by
    intro p state' h
    rw [find_withReply] at h
    split at h
    · cases h
      omega
    · exact hk.desired p state' h
  have hstored' : (accepted ++ list).length =
      (r.withReply peerId state list).replyIndex.total (·.currOffset) := by
    have hbefore := hk.stored
    unfold QueryResults.withReply
    dsimp only at hstored ⊢
    rw [List.length_append]
    omega
  have hexpected' : r.expectedResourceTotal =
      (r.withReply peerId state list).replyIndex.total (·.expectedTotal) := by
    have hbefore := hk.expected
    unfold QueryResults.withReply
    dsimp only at hsame ⊢
    omega
  have hsmall : (keys (accepted ++ list)).card < 2 ^ 64 := by
    calc (keys (accepted ++ list)).card ≤ (accepted ++ list).length := card_keys_le _
      _ = (r.withReply peerId state list).replyIndex.total (·.currOffset) := hstored'
      _ ≤ (r.withReply peerId state list).replyIndex.total (·.expectedTotal) :=
        UMap.total_le_total hdesired
      _ = r.expectedResourceTotal := hexpected'.symm
      _ < 2 ^ 64 := hk.bounded
  refine ⟨hexpected', hk.bounded, hdesired, ?_, ?_, ?_, hinjective, hstored'⟩
  · have hbefore := hk.peers
    unfold QueryResults.withReply
    dsimp only at hones ⊢
    omega
  · have hbefore := hk.counted
    unfold QueryResults.withReply
    dsimp only
    rw [hcount]
    omega
  · unfold QueryResults.withReply
    dsimp only
    rw [hset, hk.seen, keys_append, Finset.image_union]

theorem Kept.fits_of_withReply (hk : Kept accepted r)
    (hnext : Accounted (accepted ++ list) (r.withReply peerId state list)) :
    state.currOffset + list.length ≤ state.expectedTotal ∧
      (keys list \ keys accepted).card < 2 ^ 16 ∧
      Set.InjOn keyHash (keys (accepted ++ list) : Set (CString × Nat)) := by
  obtain ⟨-, hcount⟩ := countUnique_eq r.seenResources list 0 (by decide)
  have hcard := hk.card_image list
  have hnew := card_keys_append accepted list
  have himage : ((keys (accepted ++ list)).image keyHash).card ≤ (keys (accepted ++ list)).card :=
    Finset.card_image_le
  have hdistinct := hnext.distinct
  unfold QueryResults.withReply at hdistinct
  dsimp only at hdistinct
  rw [hcount, hk.counted] at hdistinct
  -- the hashes are at most as many as the resources, and the count is at most the hashes
  have hle := Nat.mod_le ((keys accepted).card +
    (0 + ((keys list).image keyHash \ r.seenResources.toFinset).card) % 2 ^ 16) (2 ^ 64)
  refine ⟨?_, by omega, Finset.card_image_iff.mp (by omega)⟩
  have hdesired := hnext.desired peerId (state.add list) (by rw [find_withReply, if_pos rfl])
  unfold ReplyState.add ReplyState.currOffset at hdesired
  rw [List.length_append] at hdesired
  exact hdesired

/-! ## Runs -/

theorem Kept.step (hk : Kept accepted r) {call : ResultsCall π δ} (hfits : Fits accepted r call) :
    Kept (accepted ++ (r.resultsStep call).2) (r.resultsStep call).1 := by
  cases call with
  | offer peerId queryId packet =>
    show Kept (accepted ++ []) (r.processQueryOffer peerId queryId packet).2.1
    rw [List.append_nil]
    by_cases hpasses : r.OfferPasses queryId packet
    · obtain ⟨htolerated, hroom⟩ := hfits hpasses
      cases hfind : r.replyIndex.find peerId with
      | some state =>
        rw [processQueryOffer_duplicate hpasses hfind]
        exact hk.duplicate hfind (htolerated state hfind)
      | none =>
        rw [processQueryOffer_opens hpasses hfind]
        exact hk.withOffer hfind (hroom hfind).1 (hroom hfind).2
    · rw [processQueryOffer_refused hpasses]
      exact hk
  | reply peerId queryId packet =>
    unfold resultsStep
    dsimp only
    by_cases hlate : ∀ state, r.ReplyMatches peerId queryId packet state →
        state.currOffset < packet.offset
    · rw [processQueryReply_refused hlate, if_neg Bool.false_ne_true, List.append_nil]
      exact hk
    · push Not at hlate
      obtain ⟨state, hmatches, hle⟩ := hlate
      obtain ⟨htolerated, hroom⟩ := hfits state hmatches
      rcases Nat.lt_or_eq_of_le hle with hlt | heq
      · rw [processQueryReply_duplicate hmatches hlt, if_neg Bool.false_ne_true, List.append_nil]
        exact hk.duplicate hmatches.found (htolerated hlt)
      · cases hlist : packet.resourceList with
        | none =>
          rw [processQueryReply_empty hmatches heq hlist, if_neg Bool.false_ne_true,
            List.append_nil]
          exact hk
        | some list =>
          obtain ⟨hexpected, hshort, hinjective⟩ := hroom heq list hlist
          rw [processQueryReply_adds hmatches heq hlist, if_pos rfl]
          exact hk.withReply hmatches.found hexpected hshort hinjective

theorem Kept.fits_of_accounts (hk : Kept accepted r) {call : ResultsCall π δ}
    (hnext : StepAccounts accepted r call) : Fits accepted r call := by
  unfold StepAccounts resultsStep at hnext
  cases call with
  | offer peerId queryId packet =>
    dsimp only at hnext
    rw [List.append_nil] at hnext
    intro hpasses
    refine ⟨fun state hfind => ?_, fun hfind => ?_⟩
    · rw [processQueryOffer_duplicate hpasses hfind] at hnext
      exact hk.tolerated_of_accounted hfind hnext
    · rw [processQueryOffer_opens hpasses hfind] at hnext
      exact fits_of_withOffer hfind hnext
  | reply peerId queryId packet =>
    dsimp only at hnext
    intro state hmatches
    refine ⟨fun hlt => ?_, fun heq list hlist => ?_⟩
    · rw [processQueryReply_duplicate hmatches hlt, if_neg Bool.false_ne_true,
        List.append_nil] at hnext
      exact hk.tolerated_of_accounted hmatches.found hnext
    · rw [processQueryReply_adds hmatches heq hlist, if_pos rfl, hlist] at hnext
      exact hk.fits_of_withReply hnext

/-- The totals agree after every step exactly if every step fits. -/
theorem along_totals_iff (queryId : Nat) (options : QueryOptions)
    (calls : List (ResultsCall π δ)) :
    results.Along StepAccounts [] (QueryResults.new queryId options) calls ↔
      results.Along Fits [] (QueryResults.new queryId options) calls :=
  Machine.along_congr (I := Kept)
    (fun _ _ _ hk hfits => hk.step hfits)
    (fun _ _ _ hk => ⟨hk.fits_of_accounts, fun hfits => (hk.step hfits).accounted⟩)
    (kept_new queryId options)

/-- One peer offers one resource and sends two. -/
def tooMany : List (ResultsCall Empty Empty) :=
  [.offer 1 7 { QueryPacket.fresh .queryOffer with numHits := 1 },
    .reply 1 7 { QueryPacket.fresh .queryReply with
      resourceList := some [⟨1, 10, [], .empty, none⟩, ⟨2, 20, [], .empty, none⟩] }]

end QueryResults

open QueryResults in
/-- Two resources are received where one is expected. -/
theorem tooMany_not_totals :
    ¬ (@results Empty Empty ResourceHash.bySize).Along
      (@StepAccounts Empty Empty ResourceHash.bySize) []
      (QueryResults.new 7 ⟨"default", .empty, 100, 128⟩) tooMany := by
  rintro ⟨-, hsecond, -⟩
  have hreceived := hsecond.received
  revert hreceived
  decide +kernel

end Alpine
