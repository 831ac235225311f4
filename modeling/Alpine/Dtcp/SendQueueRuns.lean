import Alpine.Dtcp.SendQueue

/-!
# Runs of the send queue

The requests with a buffer leave in order, each once, and give their buffers back. The broadcasts do
not: when it is their turn the packet is made and forgotten, its buffer is lost, and with nothing
queued at all a null pointer is used. So a run does what it should as long as `processEvents` has
other packets to send (`along_sends_iff`).
-/

namespace Alpine

open Lib

/-! ## Buffers -/

namespace ThreadTable

variable {t : ThreadTable} {held : List Nat}

theorem Held.nodup (h : t.Held held) : held.Nodup :=
  (List.nodup_append.mp (h.nodup_iff.mpr List.nodup_range)).1

theorem Held.lt (h : t.Held held) {b : Nat} (hb : b ∈ held) : b < t.buffers :=
  List.mem_range.mp (h.mem_iff.mp (List.mem_append_left _ hb))

theorem Held.perm (h : t.Held held) {held' : List Nat} (hp : held'.Perm held) : t.Held held' :=
  (hp.append_right _).trans h

theorem Held.allocateBuffer (h : t.Held held) {b : Nat} (hb : t.allocateBuffer.1 = some b) :
    t.allocateBuffer.2.Held (b :: held) := by
  unfold ThreadTable.allocateBuffer at hb ⊢
  cases hlast : t.freeBufferIndices.getLast? with
  | some idx =>
    rw [hlast] at hb
    obtain rfl := Option.some.inj hb
    have hfree := List.dropLast_append_getLast? idx hlast
    have hmove : (idx :: (held ++ t.freeBufferIndices.dropLast)).Perm
        (held ++ t.freeBufferIndices) := by
      conv_rhs => rw [← hfree, ← List.append_assoc]
      exact (List.perm_append_singleton _ _).symm
    exact hmove.trans h
  | none =>
    rw [hlast] at hb
    dsimp only at hb ⊢
    split at hb
    · next hlt =>
      rw [if_pos hlt]
      obtain rfl := Option.some.inj hb
      show (t.buffers :: (held ++ t.freeBufferIndices)).Perm (List.range (t.buffers + 1))
      rw [List.range_succ]
      exact (List.Perm.cons _ h).trans (List.perm_append_singleton _ _).symm
    · cases hb

theorem allocateBuffer_none (hb : t.allocateBuffer.1 = none) : t.allocateBuffer.2 = t := by
  unfold ThreadTable.allocateBuffer at hb ⊢
  cases hlast : t.freeBufferIndices.getLast? with
  | some idx =>
    rw [hlast] at hb
    cases hb
  | none =>
    rw [hlast] at hb
    dsimp only at hb ⊢
    split at hb
    · cases hb
    · next hge => rw [if_neg hge]

theorem Held.releaseBuffer {b : Nat} (h : t.Held (b :: held)) :
    (t.releaseBuffer (some b)).2.Held held := by
  have hlt := h.lt List.mem_cons_self
  have heq : (t.releaseBuffer (some b)).2 =
      { t with freeBufferIndices := t.freeBufferIndices ++ [b] } := by
    simp [ThreadTable.releaseBuffer, hlt]
  rw [heq]
  show (held ++ (t.freeBufferIndices ++ [b])).Perm (List.range t.buffers)
  rw [← List.append_assoc]
  exact (List.perm_append_singleton _ _).trans h

end ThreadTable

namespace UdpSender

/-! ## Histories -/

section Histories

variable (history events : List SendEvent)

@[simp] theorem accepted_append (priority : Bool) :
    accepted priority (history ++ events) = accepted priority history ++ accepted priority events :=
  List.filterMap_append

@[simp] theorem sent_append (requestClass : RequestClass) :
    sent requestClass (history ++ events) = sent requestClass history ++ sent requestClass events :=
  List.filterMap_append

@[simp] theorem acceptedFor_append (requestId : Nat) :
    acceptedFor requestId (history ++ events) =
      acceptedFor requestId history ++ acceptedFor requestId events :=
  List.flatMap_append

@[simp] theorem sentTo_append (requestId : Nat) :
    sentTo requestId (history ++ events) = sentTo requestId history ++ sentTo requestId events :=
  List.filterMap_append

end Histories

/-- The invariant of the runs. -/
structure Kept (history : List SendEvent) (s : UdpSender) : Prop where
  sound : Sound history s
  counted : s.states.Counted s.lists

theorem kept_new (transferRate maxThreads maxRecords maxBuffers : Nat) (configured : Option Nat)
    (now : Nat) : Kept [] (new transferRate maxThreads maxRecords maxBuffers configured now) where
  sound := ⟨rfl, rfl, fun _ => rfl, List.Perm.refl _⟩
  counted := ⟨⟨nofun, List.nodup_nil⟩, rfl⟩

section Steps

variable {history : List SendEvent} {s : UdpSender}

/-- The queue changes, and not what is in it. -/
theorem Kept.withQueue (hk : Kept history s) {queue : SendQueue}
    (hpriority : queue.priorityRequestList = s.queue.priorityRequestList)
    (hnormal : queue.normalRequestList = s.queue.normalRequestList) :
    Kept history { s with queue } where
  sound := by
    constructor
    · show _ = _ ++ queue.priorityRequestList.map s.datagramOf
      rw [hpriority]
      exact hk.sound.priority
    · show _ = _ ++ queue.normalRequestList.map s.datagramOf
      rw [hnormal]
      exact hk.sound.normal
    · exact hk.sound.broadcast
    · show s.table.Held ((queue.priorityRequestList ++ queue.normalRequestList).map _)
      rw [hpriority, hnormal]
      exact hk.sound.buffers
  counted := hk.counted

/-- Other buffers change, and what is in them. -/
theorem Kept.withBuffers (hk : Kept history s) {table : ThreadTable} {contents : Nat → List UInt8}
    (hheld : table.Held s.buffersQueued)
    (hsame : ∀ b ∈ s.buffersQueued, contents b = s.contents b) :
    Kept history { s with table, contents } := by
  have hdatagram : ∀ request ∈ s.queue.priorityRequestList ++ s.queue.normalRequestList,
      datagramOf { s with table, contents } request = s.datagramOf request := by
    intro request hmem
    show Datagram.mk _ _ (contents request.dataBuffer) = _
    rw [hsame _ (List.mem_map_of_mem hmem)]
    rfl
  refine ⟨⟨?_, ?_, hk.sound.broadcast, hheld⟩, hk.counted⟩
  · rw [hk.sound.priority]
    congr 1
    exact (List.map_congr_left fun request hmem =>
      hdatagram request (List.mem_append_left _ hmem)).symm
  · rw [hk.sound.normal]
    congr 1
    exact (List.map_congr_left fun request hmem =>
      hdatagram request (List.mem_append_right _ hmem)).symm

/-- A request with a new buffer is queued. -/
theorem Kept.enqueue (hk : Kept history s) {priority : Bool} {request : UnicastRequest}
    {queue : SendQueue} {table : ThreadTable} {data : List UInt8}
    (hpriority : queue.priorityRequestList =
      s.queue.priorityRequestList ++ if priority then [request] else [])
    (hnormal : queue.normalRequestList =
      s.queue.normalRequestList ++ if priority then [] else [request])
    (hheld : table.Held (request.dataBuffer :: s.buffersQueued)) :
    Kept (history ++ [SendEvent.accepted priority ⟨request.ipAddress, request.port, data⟩])
      { s with queue, table, contents := Function.update s.contents request.dataBuffer data } := by
  have hnew : request.dataBuffer ∉ s.buffersQueued := (List.nodup_cons.mp hheld.nodup).1
  have hsame : ∀ r ∈ s.queue.priorityRequestList ++ s.queue.normalRequestList,
      datagramOf { s with
        queue, table, contents := Function.update s.contents request.dataBuffer data } r =
          s.datagramOf r := by
    intro r hmem
    have hne : r.dataBuffer ≠ request.dataBuffer := fun heq =>
      hnew (heq ▸ List.mem_map_of_mem hmem)
    simp [datagramOf, hne]
  have hold : ∀ l, l ⊆ s.queue.priorityRequestList ++ s.queue.normalRequestList →
      l.map (datagramOf { s with
        queue, table, contents := Function.update s.contents request.dataBuffer data }) =
      l.map s.datagramOf :=
    fun l hl => List.map_congr_left fun r hmem => hsame r (hl hmem)
  refine ⟨⟨?_, ?_, ?_, ?_⟩, hk.counted⟩
  · rw [hpriority, List.map_append, hold _ (List.subset_append_left _ _), accepted_append,
      sent_append, hk.sound.priority]
    cases priority <;> simp [accepted, sent, datagramOf]
  · rw [hnormal, List.map_append, hold _ (List.subset_append_right _ _), accepted_append,
      sent_append, hk.sound.normal]
    cases priority <;> simp [accepted, sent, datagramOf]
  · intro requestId
    rw [acceptedFor_append, sentTo_append, hk.sound.broadcast requestId]
    simp [acceptedFor, sentTo]
  · apply hheld.perm
    show ((queue.priorityRequestList ++ queue.normalRequestList).map _).Perm _
    rw [hpriority, hnormal]
    cases priority with
    | true =>
      simp only [if_true, List.append_nil, List.map_append, List.append_assoc, List.map_cons,
        List.map_nil, buffersQueued]
      exact List.perm_middle
    | false =>
      simp only [Bool.false_eq_true, if_false, List.append_nil, ← List.append_assoc, List.map_append,
        List.map_cons, List.map_nil, buffersQueued]
      exact List.perm_append_singleton _ _

/-- The first request of a list goes out, and its buffer is released. -/
theorem Kept.dequeue (hk : Kept history s) {priority : Bool} {request : UnicastRequest}
    {queue : SendQueue} (hpop : s.queue.popRequest = (some (priority, request), queue)) :
    Kept
      (history ++
        [SendEvent.sent (if priority then .priority else .normal) (s.datagramOf request)])
      ({ s with queue }.releaseTempDataBuffer request.dataBuffer) := by
  have hheld : s.table.Held (request.dataBuffer ::
      (queue.priorityRequestList ++ queue.normalRequestList).map (·.dataBuffer)) := by
    apply hk.sound.buffers.perm
    unfold SendQueue.popRequest at hpop
    unfold buffersQueued
    split at hpop
    · next request' rest hlist =>
      cases hpop
      rw [hlist]
      exact List.Perm.refl _
    · next request' rest hnil hlist =>
      cases hpop
      rw [hnil, hlist]
      exact List.Perm.refl _
    · cases hpop
  refine ⟨⟨?_, ?_, ?_, hheld.releaseBuffer⟩, hk.counted⟩
  · rw [accepted_append, sent_append, hk.sound.priority]
    unfold SendQueue.popRequest at hpop
    split at hpop
    · next request' rest hlist =>
      cases hpop
      rw [hlist]
      simp [accepted, sent]
      rfl
    · next request' rest hnil hlist =>
      cases hpop
      simp [accepted, sent]
      rfl
    · cases hpop
  · rw [accepted_append, sent_append, hk.sound.normal]
    unfold SendQueue.popRequest at hpop
    split at hpop
    · next request' rest hlist =>
      cases hpop
      simp [accepted, sent]
      rfl
    · next request' rest hnil hlist =>
      cases hpop
      rw [hlist]
      simp [accepted, sent]
      rfl
    · cases hpop
  · intro requestId
    rw [acceptedFor_append, sentTo_append, hk.sound.broadcast requestId]
    cases priority <;> simp [acceptedFor, sentTo] <;> rfl

/-- What `addRequest` leaves of the lists if it refuses, and if it does not. -/
theorem addRequest_cases (q : SendQueue) (priority : Bool) (ipAddress port dataBuffer : Nat) :
    (q.addRequest priority ipAddress port dataBuffer).1 = false ∧
      (q.addRequest priority ipAddress port dataBuffer).2.priorityRequestList =
        q.priorityRequestList ∧
      (q.addRequest priority ipAddress port dataBuffer).2.normalRequestList = q.normalRequestList ∨
    (q.addRequest priority ipAddress port dataBuffer).1 = true ∧
      (q.addRequest priority ipAddress port dataBuffer).2.priorityRequestList =
        q.priorityRequestList ++ (if priority then [⟨dataBuffer, ipAddress, port⟩] else []) ∧
      (q.addRequest priority ipAddress port dataBuffer).2.normalRequestList =
        q.normalRequestList ++ if priority then [] else [⟨dataBuffer, ipAddress, port⟩] := by
  unfold SendQueue.addRequest SendQueue.locateBroadcastStates
  cases q.located with
  | false => exact .inl ⟨rfl, rfl, rfl⟩
  | true =>
    right
    cases priority <;> simp

theorem Kept.sendPacket (hk : Kept history s) (priority : Bool) (ipAddress port : Nat)
    (data : Option (List UInt8)) :
    Kept (history ++ (s.sendPacket priority ipAddress port data).2.2)
      (s.sendPacket priority ipAddress port data).2.1 := by
  unfold UdpSender.sendPacket getTempDataBuffer
  dsimp only
  cases halloc : s.table.allocateBuffer.1 with
  | none =>
    rw [ThreadTable.allocateBuffer_none halloc]
    simpa using hk
  | some buffer =>
    have hheld := hk.sound.buffers.allocateBuffer halloc
    cases data with
    | none =>
      simp only [List.append_nil]
      exact hk.withBuffers hheld.releaseBuffer fun _ _ => rfl
    | some data =>
      dsimp only [writeBuffer]
      have hcases := addRequest_cases s.queue priority ipAddress port buffer
      generalize s.queue.addRequest priority ipAddress port buffer = result at hcases
      obtain ⟨status, queue⟩ := result
      rcases hcases with ⟨hstatus, hpriority, hnormal⟩ | ⟨hstatus, hpriority, hnormal⟩
      · obtain rfl : status = false := hstatus
        simp only [List.append_nil]
        have hnew : buffer ∉ s.buffersQueued := (List.nodup_cons.mp hheld.nodup).1
        have hsame : ∀ b ∈ s.buffersQueued, Function.update s.contents buffer data b = s.contents b :=
          fun b hb => Function.update_of_ne (fun heq => hnew (by rw [← heq]; exact hb)) _ _
        have hkept := hk.withBuffers hheld.releaseBuffer hsame
        exact hkept.withQueue hpriority hnormal
      · obtain rfl : status = true := hstatus
        exact hk.enqueue hpriority hnormal hheld

theorem Kept.addBroadcast (hk : Kept history s) (requestId packet : Nat) (destinations : List Nat) :
    Kept (history ++ (s.addBroadcast requestId packet destinations).2.2)
      (s.addBroadcast requestId packet destinations).2.1 := by
  have hcounted := hk.counted.alloc destinations
  have halloc := BroadcastStates.waiting_congr (hk.counted.alloc_same destinations)
  have hadd := hcounted.addState requestId packet fun request hmem => hk.counted.ne_next hmem
  have hwaiting : ∀ r, (s.states.addState (s.lists.alloc destinations) requestId packet
      s.lists.next).2.waiting (s.lists.alloc destinations) r =
      s.states.waiting s.lists r ++ if requestId = r then destinations else [] := by
    intro r
    rw [BroadcastStates.waiting_addState, halloc, destinationsAt_alloc_next]
  unfold UdpSender.addBroadcast
  dsimp only
  generalize s.states.addState (s.lists.alloc destinations) requestId packet s.lists.next = result
    at hadd hwaiting
  obtain ⟨status, states⟩ := result
  cases status with
  | false =>
    refine ⟨⟨?_, ?_, fun r => ?_, hk.sound.buffers⟩, hcounted⟩
    · rw [List.append_nil]
      exact hk.sound.priority
    · rw [List.append_nil]
      exact hk.sound.normal
    · show acceptedFor r (history ++ []) = sentTo r (history ++ []) ++ s.states.waiting _ r
      rw [halloc, List.append_nil]
      exact hk.sound.broadcast r
  | true =>
    refine ⟨⟨?_, ?_, fun r => ?_, hk.sound.buffers⟩, hadd⟩
    · rw [accepted_append, sent_append, hk.sound.priority]
      simp [accepted, sent]
      exact fun _ _ => rfl
    · rw [accepted_append, sent_append, hk.sound.normal]
      simp [accepted, sent]
      exact fun _ _ => rfl
    · show acceptedFor r (history ++ [_]) = sentTo r (history ++ [_]) ++ states.waiting _ r
      rw [hwaiting r, acceptedFor_append, sentTo_append, hk.sound.broadcast r]
      simp [acceptedFor, sentTo]

theorem Kept.processEvents (hk : Kept history s) {now currTime currentDelay : Timeval} {status : Bool}
    {answers : BroadcastAnswers}
    (hok : s.StepOk (.processEvents now currTime currentDelay status answers)) :
    Kept (history ++ (s.processEvents now currTime currentDelay status answers).2.2.2)
      (s.processEvents now currTime currentDelay status answers).2.2.1 := by
  unfold UdpSender.processEvents SendQueue.locateBroadcastStates
  cases hlocated : s.queue.located with
  | false =>
    rw [if_pos rfl]
    dsimp only
    rw [List.append_nil]
    exact hk.withQueue rfl rfl
  | true =>
    rw [if_neg nofun]
    dsimp only
    cases hwait : SendQueue.waitTimeRemaining s.queue.nextSendTime now with
    | some remaining =>
      dsimp only
      rw [List.append_nil]
      exact hk
    | none =>
      dsimp only
      rcases hpop : s.queue.popRequest with ⟨_ | ⟨priority, request⟩, queue⟩
      · have hqueued := hok hlocated hwait
        unfold SendQueue.popRequest at hpop
        split at hpop
        · cases hpop
        · cases hpop
        · next hpriority hnormal =>
          rcases hqueued with h | h
          · exact absurd hpriority h
          · exact absurd hnormal h
      · exact (hk.dequeue hpop).withQueue rfl rfl

theorem Kept.step (hk : Kept history s) {input : Input} (hok : s.StepOk input) :
    Kept (history ++ (s.step input).2) (s.step input).1 := by
  cases input with
  | sendPacket priority ipAddress port data => exact hk.sendPacket priority ipAddress port data
  | addBroadcast requestId packet destinations => exact hk.addBroadcast requestId packet destinations
  | processEvents now currTime currentDelay status answers => exact hk.processEvents hok
  | requestsPending =>
    show Kept (history ++ []) _
    rw [List.append_nil]
    unfold UdpSender.step SendQueue.requestsPending SendQueue.locateBroadcastStates
    cases s.queue.located <;> exact hk.withQueue rfl rfl
  | queueIdle =>
    show Kept (history ++ []) _
    rw [List.append_nil]
    unfold UdpSender.step SendQueue.queueIdle SendQueue.locateBroadcastStates
    cases s.queue.located <;> exact hk.withQueue rfl rfl
  | setTransferRate rate =>
    show Kept (history ++ []) _
    rw [List.append_nil]
    exact hk.withQueue rfl rfl

/-- A normal packet goes out only if none with priority is queued. -/
theorem normal_last {input : Input} {datagram : Datagram}
    (hmem : .sent .normal datagram ∈ (s.step input).2) : s.queue.priorityRequestList = [] := by
  cases input with
  | sendPacket priority ipAddress port data =>
    unfold UdpSender.step UdpSender.sendPacket at hmem
    dsimp only at hmem
    split at hmem
    · cases hmem
    · cases hmem
    · split at hmem
      · cases hmem
      · have := List.mem_singleton.mp hmem
        cases this
  | addBroadcast requestId packet destinations =>
    unfold UdpSender.step UdpSender.addBroadcast at hmem
    dsimp only at hmem
    split at hmem
    · cases hmem
    · have := List.mem_singleton.mp hmem
      cases this
  | processEvents now currTime currentDelay status answers =>
    unfold UdpSender.step UdpSender.processEvents SendQueue.locateBroadcastStates at hmem
    dsimp only at hmem
    cases hlocated : s.queue.located with
    | false =>
      rw [hlocated] at hmem
      cases hmem
    | true =>
      rw [hlocated] at hmem
      rw [if_neg nofun] at hmem
      dsimp only at hmem
      split at hmem
      · cases hmem
      · unfold SendQueue.popRequest at hmem
        cases hpriority : s.queue.priorityRequestList with
        | nil => rfl
        | cons request rest =>
          rw [hpriority] at hmem
          have := List.mem_singleton.mp hmem
          cases this
  | requestsPending => cases hmem
  | queueIdle => cases hmem
  | setTransferRate rate => cases hmem

theorem Kept.stepSound (hk : Kept history s) {input : Input} (hok : s.StepOk input) :
    StepSound history s input := by
  refine ⟨(hk.step hok).sound, fun datagram hmem => normal_last hmem, ?_⟩
  rintro now currTime currentDelay status answers rfl ⟨hpriority, hnormal, -⟩
  show (s.processEvents now currTime currentDelay status answers).2.2.2 = []
  unfold UdpSender.processEvents SendQueue.locateBroadcastStates
  cases hlocated : s.queue.located with
  | false => rfl
  | true =>
    rw [if_neg nofun]
    dsimp only
    cases hwait : SendQueue.waitTimeRemaining s.queue.nextSendTime now with
    | some remaining => rfl
    | none =>
      rcases hok hlocated hwait with h | h
      · exact absurd hpriority h
      · exact absurd hnormal h

/-- What `processEvents` does when it gets to the broadcasts. -/
theorem processEvents_broadcast {now currTime currentDelay : Timeval} {status : Bool}
    {answers : BroadcastAnswers} (hlocated : s.queue.located = true)
    (hwait : SendQueue.waitTimeRemaining s.queue.nextSendTime now = none)
    (hpriority : s.queue.priorityRequestList = []) (hnormal : s.queue.normalRequestList = []) :
    (s.processEvents now currTime currentDelay status answers).2.2 =
      if s.states.requestsPending > 0 then ((s.getBroadcastRequest answers).2, [])
      else (s, [.nullRequest]) := by
  unfold UdpSender.processEvents SendQueue.locateBroadcastStates SendQueue.popRequest
  rw [hlocated, if_neg nofun]
  dsimp only
  rw [hwait, hpriority, hnormal]
  dsimp only
  split <;> rfl

/-- The states after `getBroadcastRequest`, whatever the destination and the packet answer. -/
theorem getBroadcastRequest_rest (answers : BroadcastAnswers) {current : BroadcastStates.Current}
    (hpending : s.states.requestsPending ≠ 0) (hpop : s.states.popCurrent s.lists = some current) :
    (s.getBroadcastRequest answers).2.states = current.states.countDown ∧
      (s.getBroadcastRequest answers).2.lists = current.lists := by
  unfold getBroadcastRequest
  rw [if_neg hpending, hpop]
  dsimp only
  split
  · exact ⟨rfl, rfl⟩
  · split
    · unfold getTempDataBuffer
      dsimp only
      cases s.table.allocateBuffer.1 with
      | none => exact ⟨rfl, rfl⟩
      | some buffer =>
        dsimp only
        split <;> exact ⟨rfl, rfl⟩
    · exact ⟨rfl, rfl⟩

theorem Kept.stepOk (hk : Kept history s) {input : Input} (hsound : StepSound history s input) :
    s.StepOk input := by
  cases input with
  | processEvents now currTime currentDelay status answers =>
    intro hlocated hwait
    by_contra hnone
    push Not at hnone
    obtain ⟨hpriority, hnormal⟩ := hnone
    have hstep : s.step (.processEvents now currTime currentDelay status answers) = _ :=
      processEvents_broadcast hlocated hwait hpriority hnormal
    obtain ⟨hkeeps, -, hidle⟩ := hsound
    rw [hstep] at hkeeps hidle
    by_cases hpending : s.states.requestsPending > 0
    · -- a destination is taken out, and nothing is sent to it
      rw [if_pos hpending] at hkeeps
      cases hpop : s.states.popCurrent s.lists with
      | none =>
        have hempty : s.states.requestList = [] := by
          unfold BroadcastStates.popCurrent at hpop
          split at hpop
          · assumption
          · cases hpop
        have htotal := hk.counted.total
        unfold BroadcastStates.numWaiting at htotal
        rw [hempty] at htotal
        exact absurd htotal (Nat.pos_iff_ne_zero.mp hpending)
      | some current =>
        obtain ⟨destination, -, hwaiting⟩ := hk.counted.waiting_popCurrent hpop
        have hbroadcast := hkeeps.broadcast current.request.requestId
        obtain ⟨hstates, hlists⟩ :=
          getBroadcastRequest_rest answers (Nat.pos_iff_ne_zero.mp hpending) hpop
        have hbefore := hk.sound.broadcast current.request.requestId
        have hlength := (hwaiting current.request.requestId).length_eq
        rw [if_pos rfl] at hlength
        rw [List.append_nil, hbefore, List.append_cancel_left_eq, hstates, hlists] at hbroadcast
        rw [hbroadcast] at hlength
        have : (current.states.countDown.waiting current.lists current.request.requestId).length =
            (current.states.waiting current.lists current.request.requestId).length := rfl
        simp only [List.length_append, List.length_cons, List.length_nil] at hlength
        omega
    · rw [if_neg hpending] at hidle
      have hnothing := hidle now currTime currentDelay status answers rfl
        ⟨hpriority, hnormal, Nat.eq_zero_of_not_pos hpending⟩
      cases hnothing
  | _ => trivial

end Steps

/-- In a run of the send queue every step does what it should if and only if `processEvents` never
gets to the broadcasts. -/
theorem along_sends_iff (transferRate maxThreads maxRecords maxBuffers : Nat) (configured : Option Nat)
    (now : Nat) (inputs : List Input) :
    machine.Along StepSound [] (new transferRate maxThreads maxRecords maxBuffers configured now)
        inputs ↔
      machine.Along (fun _ s input => s.StepOk input) []
        (new transferRate maxThreads maxRecords maxBuffers configured now) inputs :=
  Machine.along_congr (I := Kept) (fun _ _ _ hk hok => hk.step hok)
    (fun _ _ _ hk => ⟨hk.stepOk, hk.stepSound⟩)
    (kept_new transferRate maxThreads maxRecords maxBuffers configured now)

/-- A broadcast to one destination, and its turn to be sent. -/
def forgotten : List Input :=
  [.requestsPending, .addBroadcast 1 5 [7],
    .processEvents ⟨10, 0⟩ ⟨10, 1⟩ ⟨0, 0⟩ true ⟨true, some 3, some (1, 2), some [4, 4]⟩]

/-- The destination is gone, nothing was sent to it, and a buffer is missing. -/
theorem forgotten_not_sound :
    ¬ machine.Along StepSound [] (new 0 25 100 10000 none 0) forgotten ∧
      (machine.run (new 0 25 100 10000 none 0) forgotten).2 = [.acceptedBroadcast 1 [7]] ∧
      (machine.run (new 0 25 100 10000 none 0) forgotten).1.states.requestsPending = 0 ∧
      (machine.run (new 0 25 100 10000 none 0) forgotten).1.table.freeBufferIndices.length = 24 := by
  refine ⟨?_, by decide +kernel, by decide +kernel, by decide +kernel⟩
  rintro ⟨-, -, ⟨hsound, -⟩, -⟩
  exact absurd (hsound.broadcast 1) (by decide +kernel)

end UdpSender

end Alpine
