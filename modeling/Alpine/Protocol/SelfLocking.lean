import Alpine.Protocol.LockChains

/-!
# When a thread locks itself out

With a writer that can succeed a chain takes a lock that it holds in two places. The timer tells a
transport that its request was given up while it has the lock of the retransmission table, and the
transport sends what waits in its queue (`StartsNext`). `handleQueryReply` calls the result callback
while it has the lock of the active queries, and nearly every call of the manager takes it (`Asks`).
Everywhere else a chain is within locks that are not held (`runChain_clean_iff`).
-/

namespace Alpine

open Lib Traced UdpTransport Standing

namespace AlpineNode

variable {T C : Type} [DecidableEq T]

section AnyWriter

variable [LinkWriter]

/-! ## Transports -/

section Transport

variable (n : AlpineNode T C) (t : T) (data : List UInt8) (o : SendOutcome)

omit [LinkWriter] in
theorem setAlpine_self (transport : AlpineTransport) :
    (n.setAlpine t transport).alpine t = transport := Function.update_self _ _ _

omit [LinkWriter] in
@[simp] theorem setAlpine_pendingAck (transport : AlpineTransport) (t' : T) :
    (n.setAlpine t transport).pendingAck t' = n.pendingAck t' := rfl

omit [LinkWriter] in
@[simp] theorem setAlpine_nextPacket (transport : AlpineTransport) (t' : T) :
    (n.setAlpine t transport).process.nextPacket t' data = n.process.nextPacket t' data := rfl

omit [LinkWriter] in
@[simp] theorem cleanUp_pendingAck (t' : T) : (n.cleanUp t).pendingAck t' = n.pendingAck t' := rfl

omit [LinkWriter] in
theorem cleanUp_pendingIndex : ((n.cleanUp t).alpine t).pendingIndex = none := by
  rw [cleanUp, setAlpine_self]

omit [LinkWriter] in
@[simp] theorem clearPendingAck_pendingAck : (n.clearPendingAck t).pendingAck t = false := by
  simp [clearPendingAck, setTransport, pendingAck]

omit [LinkWriter] in
@[simp] theorem clearPendingAck_alpine : (n.clearPendingAck t).alpine = n.alpine := rfl

omit [LinkWriter] in
@[simp] theorem clearPendingAck_nextPacket :
    (n.clearPendingAck t).process.nextPacket t data = n.process.nextPacket t data := by
  simp [clearPendingAck, setTransport, Process.nextPacket, Process.setTransport,
    ConnTransport.reliablePacket]

/-- The request at the head of the queue goes out. -/
def headSent : Bool :=
  match (n.alpine t).pendingIndex with
  | none => false
  | some index => o.sent (n.process.nextPacket t index.front.data)

omit [DecidableEq T] in
theorem headSent_none (hq : (n.alpine t).pendingIndex = none) : n.headSent t o = false := by
  simp [headSent, hq]

omit [DecidableEq T] in
theorem headSent_some {index : RequestStateIndex} (hq : (n.alpine t).pendingIndex = some index) :
    n.headSent t o = o.sent (n.process.nextPacket t index.front.data) := by
  simp [headSent, hq]

theorem clearPendingAck_headSent : (n.clearPendingAck t).headSent t o = n.headSent t o := by
  simp only [headSent, clearPendingAck_alpine, clearPendingAck_nextPacket]

theorem baseSendReliablePacket_within :
    Within reliableLocks (n.baseSendReliablePacket t data o) := by
  refine Within.ite (fun _ => within_pure _ _) fun _ => ?_
  exact (sendReliablePacket_within _ o).bind (within_pure _ _)

/-- The status, what is waited for and the queue after a reliable send. -/
theorem baseSendReliablePacket_value :
    (n.baseSendReliablePacket t data o).value.1 =
      (!n.pendingAck t && o.sent (n.process.nextPacket t data)) ∧
    (n.baseSendReliablePacket t data o).value.2.pendingAck t =
      (n.pendingAck t || o.sent (n.process.nextPacket t data)) ∧
    (n.baseSendReliablePacket t data o).value.2.alpine = n.alpine := by
  unfold baseSendReliablePacket
  cases hp : n.pendingAck t with
  | true => exact ⟨rfl, hp, rfl⟩
  | false =>
    have hp' : (n.process.transports t).pendingAck = false := hp
    simp only [Bool.false_eq_true, if_false, value_bind, value_pure]
    cases hs : o.sent (n.process.nextPacket t data) with
    | true => simp [Process.sendReliablePacket, hp', hs, pendingAck]
    | false => simp [Process.sendReliablePacket, hp', hs, pendingAck]

theorem checkPendingRequests_within : Within reliableLocks (n.checkPendingRequests t o) := by
  refine Within.ite (fun _ => within_pure _ _) fun _ => ?_
  split
  · exact within_pure _ _
  · exact (baseSendReliablePacket_within _ _ _ _).bind (within_pure _ _)

theorem checkPendingRequests_pendingAck :
    (n.checkPendingRequests t o).value.pendingAck t = (n.pendingAck t || n.headSent t o) := by
  unfold checkPendingRequests
  split
  · next hp => simp [hp]
  · next hp =>
    split
    · next hq => simp [headSent_none _ _ _ hq]
    · next index hq =>
      obtain ⟨hstatus, hack, -⟩ := baseSendReliablePacket_value
        (n.setAlpine t ⟨index.front.requestId, index.popFront⟩) t index.front.data o
      rw [headSent_some _ _ _ hq]
      simp only [value_bind, value_pure]
      split
      · simpa using hack
      · simpa using hack

/-- Nothing is queued after a look at the queue that sent nothing. -/
theorem checkPendingRequests_pendingIndex (hp : n.pendingAck t = false)
    (hidle : n.headSent t o = false) :
    ((n.checkPendingRequests t o).value.alpine t).pendingIndex = none := by
  unfold checkPendingRequests
  rw [if_neg (by simp [hp])]
  split
  · next hq => exact hq
  · next index hq =>
    obtain ⟨hstatus, -, -⟩ := baseSendReliablePacket_value
      (n.setAlpine t ⟨index.front.requestId, index.popFront⟩) t index.front.data o
    have hsent : o.sent ((n.setAlpine t ⟨index.front.requestId, index.popFront⟩).process.nextPacket t
        index.front.data) = false := (headSent_some _ _ _ hq).symm.trans hidle
    simp only [value_bind, value_pure]
    rw [hsent, Bool.and_false] at hstatus
    rw [if_pos hstatus]
    exact cleanUp_pendingIndex _ _

/-- Under the lock of the table a reliable send is fine as long as nothing goes out. -/
theorem baseSendReliablePacket_clean_iff (hp : n.pendingAck t = false) :
    Clean [.ackMap] (n.baseSendReliablePacket t data o) ↔
      o.sent (n.process.nextPacket t data) = false := by
  unfold baseSendReliablePacket
  rw [if_neg (by simp [hp])]
  cases hs : o.sent (n.process.nextPacket t data) with
  | true =>
    refine iff_of_false (fun hclean => ?_) (by simp)
    exact sendReliablePacket_relocks _ o (List.mem_singleton.mpr rfl) hs (clean_bind.mp hclean).1
  | false =>
    have hsend : Clean [.ackMap] (UdpTransport.sendReliablePacket (n.process.nextPacket t data) o) :=
      (sendReliablePacket_unsent _ o hs).clean_held (by decide)
    exact iff_of_true (clean_bind.mpr ⟨hsend, clean_pure _ _⟩) rfl

/-- So is a look at the queue. -/
theorem checkPendingRequests_clean_iff (hp : n.pendingAck t = false) :
    Clean [.ackMap] (n.checkPendingRequests t o) ↔ n.headSent t o = false := by
  unfold checkPendingRequests
  rw [if_neg (by simp [hp])]
  split
  · next hq => simp [headSent_none _ _ _ hq, clean_pure]
  · next index hq =>
    have hp' : (n.setAlpine t ⟨index.front.requestId, index.popFront⟩).pendingAck t = false := hp
    rw [headSent_some _ _ _ hq, ← setAlpine_nextPacket, ← baseSendReliablePacket_clean_iff _ _ _ _ hp']
    exact clean_bind.trans (and_iff_left (clean_pure _ _))

theorem sendReliableData_within : Within reliableLocks (n.sendReliableData t data o) := by
  refine Within.ite (fun _ => ?_) fun _ => within_pure _ _
  refine (baseSendReliablePacket_within _ _ _ _).bind ?_
  exact Within.ite (fun _ => within_pure _ _) fun _ => within_pure _ _

omit [DecidableEq T] [LinkWriter] in
theorem reliableRequestComplete_within (id now : Nat) :
    Within [.ackMap] (n.reliableRequestComplete id now) := within_touch (by decide) _

omit [LinkWriter] in
theorem baseAcknowledgeTransfer_within (now : Nat) :
    Within [.ackMap] (n.baseAcknowledgeTransfer t now) := by
  refine Within.ite (fun _ => within_pure _ _) fun _ => ?_
  refine Within.bind ?_ (within_pure _ _)
  exact Within.ite (fun _ => within_pure _ _) fun _ => reliableRequestComplete_within _ _ _

theorem acknowledgeTransfer_within (requestId : Nat) :
    Within reliableLocks (n.acknowledgeTransfer t requestId o) := by
  refine Within.ite (fun _ => within_pure _ _) fun _ => ?_
  refine ((baseAcknowledgeTransfer_within _ _ _).mono (by decide)).bind ?_
  exact checkPendingRequests_within _ _ _

variable {n t} {id : Nat} {tell : Traced Lock Bool} {before after : SendOutcome}

/-- An outcome of an old request is not reported. -/
theorem requestDone_other (hid : id ≠ (n.process.transports t).requestId) :
    n.requestDone t id tell before after = pure (false, n) := by
  unfold requestDone ConnTransport.requestDone
  rw [if_pos hid]
  rfl

theorem requestDone_current (hid : id = (n.process.transports t).requestId) :
    n.requestDone t id tell before after = (do
      let n ← (n.clearPendingAck t).checkPendingRequests t before
      let status ← tell
      if status = false then pure (false, n)
      else do
        let n ← n.checkPendingRequests t after
        pure (true, n)) := by
  unfold requestDone ConnTransport.requestDone
  rw [if_neg (not_not.mpr hid)]
  rfl

theorem requestDone_within {S : List Lock} (htell : Within S tell)
    (hsub : ∀ lock ∈ reliableLocks, lock ∈ S) :
    Within S (n.requestDone t id tell before after) := by
  by_cases hid : id = (n.process.transports t).requestId
  · rw [requestDone_current hid]
    refine ((checkPendingRequests_within _ _ _).mono hsub).bind (htell.bind ?_)
    refine Within.ite (fun _ => within_pure _ _) fun _ => ?_
    exact ((checkPendingRequests_within _ _ _).mono hsub).bind (within_pure _ _)
  · rw [requestDone_other hid]
    exact within_pure _ _

end Transport

/-! ## The timer -/

/-- The pass for this entry gives the record up. -/
structure GivesUp (m : PendingAckMap T) (entry : RetryEntry) (record : PendingRecord T) : Prop where
  found : m.recordIndex.find entry.id = some record
  current : record.nextRetryTime = entry.nextRetryTime
  exhausted : m.maxRetries ≤ record.retryCount

/-- The pass gives up the request that a transport waits for, another one waits in the queue of the
transport and its packet goes out. -/
def StartsNext (n : AlpineNode T C) (pass : TimerPass) : Prop :=
  ∃ record t, GivesUp n.process.ackMap pass.entry record ∧ record.requestor = some t ∧
    record.id = (n.process.transports t).requestId ∧ n.headSent t pass.before = true

omit [DecidableEq T] [LinkWriter] in
theorem retry_events (m : PendingAckMap T) (now : Nat) (entry : RetryEntry) (draw : ℚ) :
    (∃ record, GivesUp m entry record ∧
      (m.retry now entry draw).2 = [.failed record.id record.requestor]) ∨
    (∃ id, (m.retry now entry draw).2 = [.resent id] ∧ ∀ record, ¬ GivesUp m entry record) ∨
    (m.retry now entry draw).2 = [] ∧ ∀ record, ¬ GivesUp m entry record := by
  unfold PendingAckMap.retry
  dsimp only
  split
  · next hf =>
    refine .inr (.inr ⟨rfl, fun record hg => ?_⟩)
    rw [hg.found] at hf
    cases hf
  · next record hf =>
    have hsame : ∀ record', GivesUp m entry record' → record' = record := by
      intro record' hg
      have := hg.found
      rw [hf] at this
      exact (Option.some.inj this).symm
    split
    · next hne =>
      refine .inr (.inr ⟨rfl, fun record' hg => ?_⟩)
      obtain rfl := hsame record' hg
      exact hne hg.current
    · next heq =>
      split
      · next hge => exact .inl ⟨record, ⟨hf, not_not.mp heq, hge⟩, rfl⟩
      · next hlt =>
        refine .inr (.inl ⟨_, rfl, fun record' hg => ?_⟩)
        obtain rfl := hsame record' hg
        exact hlt hg.exhausted

theorem requestDone_clean_iff (n : AlpineNode T C) (t : T) (id : Nat) (k : Standing)
    (before after : SendOutcome) :
    Clean [.ackMap] (n.requestDone t id k.handleSendFailure before after) ↔
      (id = (n.process.transports t).requestId → n.headSent t before = false) := by
  by_cases hid : id = (n.process.transports t).requestId
  · have hp := n.clearPendingAck_pendingAck t
    rw [requestDone_current hid, clean_bind, checkPendingRequests_clean_iff _ _ _ hp,
      clearPendingAck_headSent]
    refine ⟨fun h _ => h.1, fun h => ⟨h hid, ?_⟩⟩
    -- nothing was sent, so nothing is queued any more and the second look finds nothing
    have hidle : (n.clearPendingAck t).headSent t before = false := by
      rw [clearPendingAck_headSent]
      exact h hid
    have hnone := checkPendingRequests_pendingIndex _ _ before hp hidle
    have hwait : ((n.clearPendingAck t).checkPendingRequests t before).value.pendingAck t =
        false := by
      rw [checkPendingRequests_pendingAck, hp, hidle]
      rfl
    have hsecond := (checkPendingRequests_clean_iff _ t after hwait).mpr (headSent_none _ _ _ hnone)
    refine clean_bind.mpr ⟨k.handleSendFailure_within.clean_held (by decide), ?_⟩
    exact clean_bind.mpr ⟨hsecond, clean_pure _ _⟩
  · rw [requestDone_other hid]
    exact iff_of_true (clean_pure _ _) fun hcur => absurd hcur hid

theorem timerPass_clean_iff (n : AlpineNode T C) (pass : TimerPass) :
    Clean [.ackMap] (n.timerPass pass) ↔ ¬ StartsNext n pass := by
  unfold timerPass
  dsimp only
  rcases retry_events n.process.ackMap pass.now pass.entry pass.draw with
    ⟨record, hg, hev⟩ | ⟨id, hev, hnone⟩ | ⟨hev, hnone⟩
  · have hsame : ∀ record', GivesUp n.process.ackMap pass.entry record' → record' = record := by
      intro record' hg'
      have := hg'.found
      rw [hg.found] at this
      exact (Option.some.inj this).symm
    rw [hev]
    cases hr : record.requestor with
    | none =>
      refine iff_of_true (clean_pure _ _) ?_
      rintro ⟨record', t, hg', hreq, -⟩
      obtain rfl := hsame record' hg'
      rw [hr] at hreq
      cases hreq
    | some t =>
      refine (clean_bind.trans (and_iff_left (clean_pure _ _))).trans ?_
      rw [requestDone_clean_iff]
      constructor
      · rintro h ⟨record', t', hg', hreq, hid, hsent⟩
        obtain rfl := hsame record' hg'
        rw [hr] at hreq
        cases hreq
        exact Bool.false_ne_true ((h hid).symm.trans hsent)
      · intro h hid
        by_contra hsent
        rw [Bool.not_eq_false] at hsent
        exact h ⟨record, t, hg, hr, hid, hsent⟩
  · rw [hev]
    refine iff_of_true ?_ fun ⟨record, _, hg, _⟩ => hnone record hg
    exact clean_bind.mpr ⟨(sendData_within _).clean_held (by decide), clean_pure _ _⟩
  · rw [hev]
    exact iff_of_true (clean_pure _ _) fun ⟨record, _, hg, _⟩ => hnone record hg

/-- No pass of the round starts the next request of a transport. -/
def PassesSpared : AlpineNode T C → List TimerPass → Prop
  | _, [] => True
  | n, pass :: passes => ¬ StartsNext n pass ∧ PassesSpared (n.timerPass pass).value passes

theorem processTimers_clean_iff (n : AlpineNode T C) (passes : List TimerPass) :
    Clean [.ackMap] (n.processTimers passes) ↔ PassesSpared n passes := by
  induction passes generalizing n with
  | nil => exact iff_of_true (clean_pure _ _) trivial
  | cons pass passes ih => exact clean_bind.trans (and_congr (n.timerPass_clean_iff pass) (ih _))

theorem processTimedEvents_clean_iff (n : AlpineNode T C) (passes : List TimerPass) :
    Clean [] (n.processTimedEvents passes) ↔ PassesSpared n passes := by
  rw [processTimedEvents, clean_underLock, processTimers_clean_iff]
  exact and_iff_right List.not_mem_nil

/-! ## Replies -/

/-- The answer to the reply is sent or queued. -/
def answered (n : AlpineNode T C) (r : Reply T) : Bool :=
  ((n.acknowledgePending r).value.stackSendReliablePacket r.toAnswer).value.1

/-- The reply is accepted and answered, and its query has a result callback with a call that is not
about past queries. -/
structure CallsBack (n : AlpineNode T C) (k : Standing) (r : Reply T) : Prop where
  initialized : k.queryMgr = true
  located : r.located = true
  valid : r.verdict = .valid
  processed : r.processed = true
  answered : n.answered r = true
  asks : ∃ calls, r.callback = some calls ∧ ∃ call ∈ calls, call.past = false

def stackLocks : List Lock := .transportIndex :: reliableLocks

theorem stackSendReliablePacket_within (n : AlpineNode T C) (a : Answer T) :
    Within stackLocks (n.stackSendReliablePacket a) := by
  refine (within_touch (by decide) _).bind ?_
  cases h : (underLock .read .transportIndex (pure a.transport) : Traced Lock _).value with
  | none => exact within_pure _ _
  | some t =>
    refine Within.ite (fun _ => within_pure _ _) fun _ => ?_
    exact (sendReliableData_within _ _ _ _).mono (by decide)

theorem stackAcknowledgeTransfer_within (n : AlpineNode T C) (a : Answer T) (requestId : Nat)
    (o : SendOutcome) : Within stackLocks (n.stackAcknowledgeTransfer a requestId o) := by
  refine (within_touch (by decide) _).bind ?_
  cases h : (underLock .read .transportIndex (pure a.transport) : Traced Lock _).value with
  | none => exact within_pure _ _
  | some t => exact (acknowledgeTransfer_within _ _ _ _).mono (by decide)

theorem acknowledgePending_within (n : AlpineNode T C) (r : Reply T) :
    Within stackLocks (n.acknowledgePending r) := by
  unfold acknowledgePending
  cases r.pending with
  | none => exact within_pure _ _
  | some requestId => exact n.stackAcknowledgeTransfer_within _ _ _

def resultLocks : List Lock := .results :: peerLocks

omit [DecidableEq T] [LinkWriter] in
theorem verify_within (k : Standing) (a : Answer T) : Within resultLocks (verify k a) := by
  have hbad : Within peerLocks (k.badPacketReceived >>= fun _ => pure false) :=
    k.recordFailure_within.bind (within_pure _ _)
  unfold verify
  cases a.verdict with
  | badHeader => exact hbad.mono (by decide)
  | badState => exact hbad.underLock (by decide) (by decide) (by decide)
  | duplicate => exact within_touch (by decide) _
  | valid => exact within_touch (by decide) _

omit [DecidableEq T] [LinkWriter] in
theorem processResults_within (k : Standing) (a : Answer T) :
    Within resultLocks (processResults k a) := by
  refine (verify_within k a).bind (Within.ite (fun _ => within_pure _ _) fun _ => ?_)
  exact within_touch (by decide) _

omit [DecidableEq T] [LinkWriter] in
theorem processResults_value (k : Standing) (a : Answer T) :
    (processResults k a).value = true ↔ a.verdict = .valid ∧ a.processed = true := by
  unfold processResults verify
  cases a.verdict <;> simp

omit [DecidableEq T] [LinkWriter] in
/-- What each handler of a query packet does when it is dropped. -/
theorem drop_within (n : AlpineNode T C) (k : Standing) :
    Within peerLocks (k.badPacketReceived >>= fun _ => (pure n : Traced Lock (AlpineNode T C))) :=
  k.recordFailure_within.bind (within_pure _ _)

def offerLocks : List Lock :=
  [Lock.activeQuery, .queryMutex, .results, .transportIndex] ++ peerLocks ++ reliableLocks

theorem handleQueryOffer_within (n : AlpineNode T C) (k : Standing) (a : Answer T) :
    Within offerLocks (n.handleQueryOffer k a) := by
  refine Within.underLock (R := offerLocks.tail) ?_ (by decide) (by decide) (by decide)
  refine Within.ite (fun _ => within_pure _ _) fun _ => ?_
  refine Within.ite (fun _ => (drop_within n k).mono (by decide)) fun _ => ?_
  refine Within.underLock (R := offerLocks.tail.tail) ?_ (by decide) (by decide) (by decide)
  refine ((processResults_within k a).mono (by decide)).bind ?_
  refine Within.ite (fun _ => (drop_within n k).mono (by decide)) fun _ => ?_
  exact ((n.stackSendReliablePacket_within a).mono (by decide)).bind (within_pure _ _)

/-! ## Callbacks -/

omit [LinkWriter] in
/-- Under the lock of the active queries only the past ones may be asked about. -/
theorem QueryCall.locks_clean_iff (call : QueryCall) :
    Clean [.activeQuery] call.locks ↔ call.past = true := by
  cases call <;> simp [QueryCall.locks, QueryCall.past, QueryCall.look, clean_bind, clean_underLock,
    clean_pure]

omit [LinkWriter] in
theorem ResultCallback.invoke_clean_iff (calls : ResultCallback) :
    Clean [.activeQuery] (ResultCallback.invoke calls) ↔ ∀ call ∈ calls, call.past = true := by
  induction calls with
  | nil => simp [ResultCallback.invoke, clean_pure]
  | cons call calls ih =>
    rw [List.forall_mem_cons, ← ih, ← call.locks_clean_iff]
    exact clean_bind

omit [LinkWriter] in
theorem notifyReply_clean_iff (callback : Option ResultCallback) :
    Clean [.activeQuery] (notifyReply callback) ↔
      ∀ calls, callback = some calls → ∀ call ∈ calls, call.past = true := by
  have htouch : Clean [.activeQuery] (underLock .read Lock.queryMutex (pure callback)) :=
    clean_underLock.mpr ⟨by decide, clean_pure _ _⟩
  have hnotify : Clean [.activeQuery] notifyEvent := clean_underLock.mpr ⟨by decide, clean_pure _ _⟩
  unfold notifyReply
  rw [clean_bind, and_iff_right htouch, value_underLock, value_pure]
  cases callback with
  | none => exact iff_of_true (clean_bind.mpr ⟨clean_pure _ _, hnotify⟩) (by simp)
  | some calls =>
    refine (clean_bind.trans (and_iff_left hnotify)).trans ?_
    rw [ResultCallback.invoke_clean_iff]
    simp

theorem answerReply_clean_iff (n : AlpineNode T C) (r : Reply T) :
    Clean [.activeQuery] (n.answerReply r) ↔
      (n.answered r = true → ∀ calls, r.callback = some calls → ∀ call ∈ calls, call.past = true) := by
  unfold answerReply
  rw [clean_bind, and_iff_right ((n.acknowledgePending_within r).clean_held (by decide)), clean_bind,
    and_iff_right ((stackSendReliablePacket_within _ _).clean_held (by decide))]
  have hstatus : ((n.acknowledgePending r).value.stackSendReliablePacket r.toAnswer).value.1 =
      n.answered r := rfl
  dsimp only
  rw [hstatus]
  cases n.answered r with
  | false => exact iff_of_true (clean_pure _ _) (by simp)
  | true =>
    rw [if_neg (by simp), clean_bind, and_iff_left (clean_pure _ _), notifyReply_clean_iff]
    simp

theorem handleQueryReply_clean_iff (n : AlpineNode T C) (k : Standing) (r : Reply T) :
    Clean [] (n.handleQueryReply k r) ↔ ¬ CallsBack n k r := by
  unfold handleQueryReply
  rw [clean_underLock, and_iff_right List.not_mem_nil]
  have hdrop : Clean [.activeQuery] (k.badPacketReceived >>= fun _ =>
      (pure n : Traced Lock (AlpineNode T C))) := (drop_within n k).clean_held (by decide)
  split
  · next h => exact iff_of_true (clean_pure _ _) fun hcb => by simp [hcb.initialized] at h
  split
  · next h => exact iff_of_true hdrop fun hcb => by simp [hcb.located] at h
  rw [clean_bind, and_iff_right ((processResults_within k r.toAnswer).clean_held (by decide))]
  split
  · next h =>
    refine iff_of_true hdrop fun hcb => ?_
    have hok := (processResults_value k r.toAnswer).mpr ⟨hcb.valid, hcb.processed⟩
    rw [hok] at h
    cases h
  · next hmgr hloc h =>
    obtain ⟨hvalid, hprocessed⟩ := (processResults_value k r.toAnswer).mp (by simpa using h)
    rw [answerReply_clean_iff]
    constructor
    · rintro hpast hcb
      obtain ⟨calls, hcalls, call, hmem, hask⟩ := hcb.asks
      rw [hpast hcb.answered calls hcalls call hmem] at hask
      cases hask
    · intro hnot hans calls hcalls call hmem
      by_contra hask
      exact hnot ⟨by simpa using hmgr, by simpa using hloc, hvalid, hprocessed, hans, calls, hcalls,
        call, hmem, by simpa using hask⟩

/-! ## Packets -/

section Mux

variable (n : AlpineNode T C) (i : Incoming T)

def muxLocks : List Lock :=
  [Lock.connMap, .index, .pendingAck] ++ reliableLocks ++ registerLocks

omit [DecidableEq T] [LinkWriter] in
theorem getPendingAckRecord_within : Within [.pendingAck] (n.getPendingAckRecord i) :=
  within_touch (by decide) _

omit [DecidableEq T] [LinkWriter] in
theorem removePendingAckRecord_within (record : PendingAckRecord) :
    Within muxLocks (n.removePendingAckRecord i record) := by
  refine Within.underLock (R := [.ackMap]) ?_ (by decide) (by decide) (by decide)
  exact (reliableRequestComplete_within _ _ _).bind (within_pure _ _)

omit [DecidableEq T] in
theorem sendReliable_within (packet : ConnPacket) (send : SendOutcome) :
    Within muxLocks (n.sendReliable packet send) := by
  refine ((sendReliablePacket_within packet send).mono (by decide)).bind ?_
  exact Within.ite (fun _ => within_pure _ _) fun _ => within_touch (by decide) _

theorem requestTransport_within (requestor : C) (transport : T) (ipAddress port : Nat)
    (send : SendOutcome) :
    Within muxLocks (n.requestTransport requestor transport ipAddress port send) := by
  refine Within.bind ?_ (Within.ite (fun _ => within_pure _ _) fun _ => ?_)
  · refine (within_touch (by decide) _).bind ?_
    exact Within.ite (fun _ => within_pure _ _) fun _ => within_touch (by decide) _
  · exact (sendReliable_within _ _ _).bind (within_pure _ _)

omit [DecidableEq T] [LinkWriter] in
theorem createConnectionAcceptEntry_within (packet : DtcpConnPacket Empty) :
    Within muxLocks (n.createConnectionAcceptEntry i packet) := by
  refine (within_touch (by decide) _).bind ?_
  exact Within.ite (fun _ => within_pure _ _) fun _ => within_touch (by decide) _

omit [DecidableEq T] in
theorem handleConnRequestPacket_within : Within muxLocks (n.handleConnRequestPacket i) := by
  refine (within_touch (by decide) _).bind (Within.ite (fun _ => within_pure _ _) fun _ => ?_)
  refine ((getPendingAckRecord_within n i).mono (by decide)).bind ?_
  refine Within.ite (fun _ => within_pure _ _) fun _ => ?_
  cases i.request.parse with
  | none => exact within_pure _ _
  | some packet =>
    refine Within.ite (fun _ => within_pure _ _) fun _ => ?_
    refine (createConnectionAcceptEntry_within _ _ _).bind ?_
    refine Within.ite (fun _ => within_pure _ _) fun _ => ?_
    exact (sendReliable_within _ _ _).bind (within_pure _ _)

theorem completeRequest_within (peerId myId : Nat) (record : ConnRequestRecord T C) :
    Within muxLocks (n.completeRequest i peerId myId record) := by
  refine (within_touch (by decide) _).bind ((within_touch (by decide) _).bind ?_)
  refine Within.ite (fun _ => within_pure _ _) fun _ => ?_
  refine (sendReliable_within _ _ _).bind ?_
  exact Within.ite (fun _ => within_pure _ _) fun _ => within_touch (by decide) _

theorem handleConnOfferPacket_within : Within muxLocks (n.handleConnOfferPacket i) := by
  refine ((getPendingAckRecord_within n i).mono (by decide)).bind ?_
  cases (n.getPendingAckRecord i).value with
  | none => exact within_pure _ _
  | some ackRecord =>
    refine Within.ite (fun _ => within_pure _ _) fun _ => ?_
    refine (removePendingAckRecord_within _ _ _).bind ?_
    cases i.request.parse with
    | none => exact within_pure _ _
    | some packet =>
      refine (within_touch (by decide) _).bind ?_
      rw [value_underLock, value_pure]
      split
      · exact within_pure _ _
      · exact completeRequest_within _ _ _ _ _

omit [DecidableEq T] [LinkWriter] in
theorem removePendingConnection_within (peerId : Nat) :
    Within muxLocks (n.removePendingConnection peerId) := within_touch (by decide) _

theorem completeAccept_within (peerId record : Nat) (transport : T) :
    Within muxLocks (n.completeAccept i peerId record transport) := by
  refine (within_touch (by decide) _).bind ?_
  refine Within.ite (fun _ => removePendingConnection_within _ _) fun _ => ?_
  refine (within_touch (by decide) _).bind ?_
  refine ((sendPacket_within _ i.send).mono (by decide)).bind ?_
  refine Within.ite (fun _ => within_pure _ _) fun _ => ?_
  exact (i.standing.registerTransport_within.mono (by decide)).bind (within_pure _ _)

theorem checkAcceptAckRetry_within : Within muxLocks (n.checkAcceptAckRetry i) := by
  unfold checkAcceptAckRetry
  cases i.request.parse with
  | none => exact within_pure _ _
  | some packet =>
    refine (within_touch (by decide) _).bind ?_
    rw [value_underLock, value_pure]
    split
    · exact within_pure _ _
    · exact within_pure _ _
    · exact ((sendPacket_within _ i.send).mono (by decide)).bind (within_pure _ _)

theorem handleConnAcceptPacket_within : Within muxLocks (n.handleConnAcceptPacket i) := by
  refine ((getPendingAckRecord_within n i).mono (by decide)).bind ?_
  cases (n.getPendingAckRecord i).value with
  | none => exact checkAcceptAckRetry_within _ _
  | some ackRecord =>
    refine Within.ite (fun _ => within_pure _ _) fun _ => ?_
    refine (removePendingAckRecord_within _ _ _).bind ?_
    cases i.request.parse with
    | none => exact within_pure _ _
    | some packet =>
      refine (within_touch (by decide) _).bind ?_
      rw [value_underLock, value_pure]
      split
      · exact within_pure _ _
      · exact removePendingConnection_within _ _
      · exact removePendingConnection_within _ _
      · exact completeAccept_within _ _ _ _ _

omit [DecidableEq T] [LinkWriter] in
theorem handleAckPacket_within : Within muxLocks (n.handleAckPacket i) := by
  refine ((getPendingAckRecord_within n i).mono (by decide)).bind ?_
  cases (n.getPendingAckRecord i).value with
  | none => exact within_pure _ _
  | some ackRecord =>
    dsimp only
    split
    · refine (removePendingAckRecord_within _ _ _).bind ((within_touch (by decide) _).bind ?_)
      refine Within.ite (fun _ => within_pure _ _) fun _ => ?_
      exact (i.standing.connectorReceiveTransport_within.mono (by decide)).bind (within_pure _ _)
    · exact removePendingAckRecord_within _ _ _
    · exact removePendingAckRecord_within _ _ _
    · exact removePendingAckRecord_within _ _ _
    · exact within_pure _ _

theorem dataAck_within (t : T) :
    Within (reliableLocks ++ outcomeLocks) (n.dataAck i t) := by
  refine Within.ite (fun _ => within_pure _ _) fun _ => ?_
  refine ((reliableRequestComplete_within _ _ _).mono (by decide)).bind ?_
  refine Within.ite (fun _ => within_pure _ _) fun _ => ?_
  refine (requestDone_within ?_ (by decide)).bind (within_pure _ _)
  exact handleSendReceived_within.mono (by decide)

end Mux

/-- The data of the packet reaches the handler of its transport, with the node as it is then: the
packet is data, or reliable data that is not taken for a repetition. -/
inductive HandsOver (n : AlpineNode T C) (i : Incoming T) : AlpineNode T C → Prop where
  | data {packet : DtcpConnPacket Empty} {t : T} :
    i.request.packetType = .connData → i.request.parse = some packet →
      n.mux.connectionMap.locateConnection packet.peerId = some (some t) → HandsOver n i n
  | reliable {packet : DtcpConnPacket Empty} {t : T} :
    i.request.packetType = .connReliableData → i.request.parse = some packet →
      n.mux.connectionMap.locateConnection packet.peerId = some (some t) →
      n.process.isRepeat t packet.sequenceNum = false →
      HandsOver n i { n with process := n.process.setRecvSequenceNum t packet.sequenceNum }

/-- The packet is a reply whose callback asks the manager about a query that may be active. -/
def Asks (n : AlpineNode T C) (i : Incoming T) : Prop :=
  ∃ n', HandsOver n i n' ∧ ∃ r, i.payload = .queryReply r ∧ CallsBack n' i.standing r

theorem handleData_clean_iff (n : AlpineNode T C) (k : Standing) (payload : Payload T) :
    Clean [] (n.handleData k payload) ↔
      ¬ ∃ r, payload = .queryReply r ∧ CallsBack n k r := by
  cases payload with
  | dropped => exact iff_of_true (clean_pure _ _) (by simp)
  | queryDiscover => exact iff_of_true (clean_underLock.mpr ⟨by simp, clean_pure _ _⟩) (by simp)
  | queryRequest => exact iff_of_true (clean_underLock.mpr ⟨by simp, clean_pure _ _⟩) (by simp)
  | queryOffer answer => exact iff_of_true (n.handleQueryOffer_within k answer).clean (by simp)
  | queryReply reply =>
    refine (n.handleQueryReply_clean_iff k reply).trans (not_congr ?_)
    simp

omit [DecidableEq T] [LinkWriter] in
/-- The handlers of an established connection come to the rest exactly when the packet names a
transport. -/
theorem withTransport_clean_iff (n : AlpineNode T C) (i : Incoming T)
    (use : DtcpConnPacket Empty → T → Traced Lock (AlpineNode T C)) :
    Clean [] (n.withTransport i use) ↔
      ∀ packet t, i.request.parse = some packet →
        n.mux.connectionMap.locateConnection packet.peerId = some (some t) →
        Clean [] (use packet t) := by
  unfold withTransport
  cases hparse : i.request.parse with
  | none => simp [clean_pure]
  | some packet =>
    have htouch : Clean [] (underLock .write Lock.connMap
        (pure (n.mux.connectionMap.locateConnection packet.peerId))) :=
      clean_underLock.mpr ⟨List.not_mem_nil, clean_pure _ _⟩
    dsimp only
    rw [clean_bind, and_iff_right htouch, value_underLock, value_pure]
    have hone : ∀ {P : DtcpConnPacket Empty → T → Prop},
        (∀ packet' t, some packet = some packet' →
          n.mux.connectionMap.locateConnection packet'.peerId = some (some t) → P packet' t) ↔
        ∀ t, n.mux.connectionMap.locateConnection packet.peerId = some (some t) → P packet t :=
      fun {_} => ⟨fun h t => h packet t rfl, fun h packet' t hp => by cases hp; exact h t⟩
    rw [hone]
    cases n.mux.connectionMap.locateConnection packet.peerId with
    | none => simp [clean_pure]
    | some located =>
      cases located with
      | none => simp [clean_pure]
      | some t => simp

theorem reliableData_clean_iff (n : AlpineNode T C) (i : Incoming T) (packet : DtcpConnPacket Empty)
    (t : T) :
    Clean [] (n.reliableData i packet t) ↔
      (n.process.isRepeat t packet.sequenceNum = false →
        ¬ ∃ r, i.payload = .queryReply r ∧
          CallsBack { n with process := n.process.setRecvSequenceNum t packet.sequenceNum }
            i.standing r) := by
  unfold reliableData
  cases hrep : n.process.isRepeat t packet.sequenceNum with
  | true =>
    refine iff_of_true ?_ (by simp)
    exact clean_bind.mpr ⟨(sendPacket_within _ i.send).clean, clean_pure _ _⟩
  | false =>
    refine (clean_bind.trans (and_iff_right (sendPacket_within _ i.send).clean)).trans ?_
    rw [handleData_clean_iff]
    simp

theorem processPacket_clean_iff (n : AlpineNode T C) (i : Incoming T) :
    Clean [] (n.processPacket i) ↔ ¬ Asks n i := by
  have hother : ∀ (code : Traced Lock (AlpineNode T C)), Clean [] code →
      i.request.packetType ≠ .connData → i.request.packetType ≠ .connReliableData →
      (Clean [] code ↔ ¬ Asks n i) := by
    rintro code hclean hdata hreliable
    refine iff_of_true hclean ?_
    rintro ⟨n', htype | htype, -⟩
    · exact hdata (by assumption)
    · exact hreliable (by assumption)
  have hlook : Clean [] (n.lookForRecord i) :=
    clean_bind.mpr ⟨(getPendingAckRecord_within n i).clean, clean_pure _ _⟩
  unfold processPacket
  cases htype : i.request.packetType with
  | connRequest =>
    exact hother _ (handleConnRequestPacket_within n i).clean (by simp [htype]) (by simp [htype])
  | connOffer =>
    exact hother _ (handleConnOfferPacket_within n i).clean (by simp [htype]) (by simp [htype])
  | connAccept =>
    exact hother _ (handleConnAcceptPacket_within n i).clean (by simp [htype]) (by simp [htype])
  | ack => exact hother _ (handleAckPacket_within n i).clean (by simp [htype]) (by simp [htype])
  | error => exact hother _ hlook (by simp [htype]) (by simp [htype])
  | natSource => exact hother _ hlook (by simp [htype]) (by simp [htype])
  | connDataAck =>
    refine hother _ ?_ (by simp [htype]) (by simp [htype])
    exact (withTransport_clean_iff n i _).mpr fun packet t _ _ => (dataAck_within n i t).clean
  | connData =>
    refine (withTransport_clean_iff n i _).trans ?_
    simp only [handleData_clean_iff]
    constructor
    · rintro h ⟨n', hover, hreply⟩
      cases hover with
      | data _ hparse hloc => exact h _ _ hparse hloc hreply
      | reliable hreliable => simp [htype] at hreliable
    · exact fun hnot packet t hparse hloc hreply =>
        hnot ⟨n, .data htype hparse hloc, hreply⟩
  | connReliableData =>
    refine (withTransport_clean_iff n i _).trans ?_
    simp only [reliableData_clean_iff]
    constructor
    · rintro h ⟨n', hover, hreply⟩
      cases hover with
      | data hdata => simp [htype] at hdata
      | reliable _ hparse hloc hfresh => exact h _ _ hparse hloc hfresh hreply
    · exact fun hnot packet t hparse hloc hfresh hreply =>
        hnot ⟨_, .reliable htype hparse hloc hfresh, hreply⟩
  | _ => exact hother _ (clean_pure _ _) (by simp [htype]) (by simp [htype])

/-! ## Chains -/

/-- The chain neither starts the next request of a transport from the timer nor runs a callback that
asks. -/
def Spared (n : AlpineNode T C) : Chain T C → Prop
  | .timer passes => PassesSpared n passes
  | .packet incoming => ¬ Asks n incoming
  | _ => True

/-- The thread of the chain acquires a lock that it holds. -/
def LocksItselfOut (n : AlpineNode T C) (chain : Chain T C) : Prop :=
  LockTree.Relocks [] (n.runChain chain).tree.actions

/-- The chains one after the other. -/
def chains : Machine (AlpineNode T C) (Chain T C) Empty where
  step n chain := ((n.runChain chain).value, [])

theorem runChain_clean_iff (n : AlpineNode T C) (chain : Chain T C) :
    ¬ LocksItselfOut n chain ↔ Spared n chain := by
  refine LockTree.relocks_iff.trans ?_
  cases chain with
  | timer passes => exact n.processTimedEvents_clean_iff passes
  | packet incoming => exact n.processPacket_clean_iff incoming
  | requestTransport requestor transport ipAddress port send =>
    exact iff_of_true (requestTransport_within _ _ _ _ _ _).clean trivial
  | sendReliableData t data send =>
    have hwithin : Within reliableLocks (n.runChain (.sendReliableData t data send)) :=
      (sendReliableData_within _ _ _ _).bind (within_pure _ _)
    exact iff_of_true hwithin.clean trivial
  | acknowledgeTransfer t requestId send =>
    exact iff_of_true (acknowledgeTransfer_within _ _ _ _).clean trivial

/-- With any writer, from any state and in any order, the chains in which no thread locks itself out
are those spared. -/
theorem noSelfLock_iff_spared (n : AlpineNode T C) (run : List (Chain T C)) :
    chains.Along (fun _ n chain => ¬ LocksItselfOut n chain) [] n run ↔
      chains.Along (fun _ n chain => Spared n chain) [] n run :=
  Machine.along_congr (I := fun _ _ => True) (fun _ _ _ _ _ => trivial)
    (fun _ n chain _ => runChain_clean_iff n chain) trivial

end AnyWriter

end AlpineNode

end Alpine
