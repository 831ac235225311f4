import Alpine.Protocol.ReliableQueue

/-!
# Steps of the queue of reliable requests

What a step does to one transport (`Did`): nothing, or a request of it is accepted and goes out, is
accepted and waits, is acknowledged by the user, or is done. The steps of other transports and of
the multiplexor leave it as it is (`Quiet`).
-/

namespace Alpine.ReliableQueues

open Lib

variable {T : Type}

/-! ## The process -/

/-- A record of the transport is of the request it waits for, and records lie under their own id. -/
structure Tabled (t : T) (p : Process T) : Prop where
  waits : ∀ id record, p.ackMap.recordIndex.find id = some record → record.requestor = some t →
    (p.transports t).pendingAck = true ∧ id = (p.transports t).requestId
  keyed : ∀ id record, p.ackMap.recordIndex.find id = some record → record.id = id

/-- What the transport waits for is the same, and it has no new record. -/
structure Untouched (t : T) (p p' : Process T) : Prop where
  pendingAck : (p'.transports t).pendingAck = (p.transports t).pendingAck
  requestId : (p'.transports t).requestId = (p.transports t).requestId
  find : ∀ id record, p'.ackMap.recordIndex.find id = some record → record.requestor = some t →
    ∃ record', p.ackMap.recordIndex.find id = some record' ∧ record'.requestor = some t
  keyed : (∀ id record, p.ackMap.recordIndex.find id = some record → record.id = id) →
    ∀ id record, p'.ackMap.recordIndex.find id = some record → record.id = id

section Process

variable {t u : T} {p p' : Process T}

theorem Tabled.of_untouched (hp : Tabled t p) (hu : Untouched t p p') : Tabled t p' where
  waits id record hf hr := by
    obtain ⟨record', hf', hr'⟩ := hu.find id record hf hr
    rw [hu.pendingAck, hu.requestId]
    exact hp.waits id record' hf' hr'
  keyed := hu.keyed hp.keyed

/-- The flag goes down with the only record that the transport can have. -/
theorem Tabled.done (hp : Tabled t p)
    (hindex : p'.ackMap.recordIndex = p.ackMap.recordIndex.erase (p.transports t).requestId) :
    Tabled t p' where
  waits id record hf hr := by
    rw [hindex, UMap.find_erase] at hf
    split at hf
    · cases hf
    · next hne => exact absurd (hp.waits id record hf hr).2 hne
  keyed id record hf := by
    rw [hindex, UMap.find_erase] at hf
    split at hf
    · cases hf
    · exact hp.keyed id record hf

theorem untouched_of_same
    (hpend : (p'.transports t).pendingAck = (p.transports t).pendingAck)
    (hid : (p'.transports t).requestId = (p.transports t).requestId)
    (hindex : p'.ackMap.recordIndex = p.ackMap.recordIndex) : Untouched t p p' where
  pendingAck := hpend
  requestId := hid
  find id record hf hr := ⟨record, by rw [← hindex]; exact hf, hr⟩
  keyed hkey := by rw [hindex]; exact hkey

theorem Untouched.refl (t : T) (p : Process T) : Untouched t p p := untouched_of_same rfl rfl rfl

theorem Untouched.trans {p'' : Process T} (h : Untouched t p p') (h' : Untouched t p' p'') :
    Untouched t p p'' where
  pendingAck := h'.pendingAck.trans h.pendingAck
  requestId := h'.requestId.trans h.requestId
  find id record hf hr := by
    obtain ⟨record', hf', hr'⟩ := h'.find id record hf hr
    exact h.find id record' hf' hr'
  keyed hkey := h'.keyed (h.keyed hkey)

theorem untouched_erase
    (hpend : (p'.transports t).pendingAck = (p.transports t).pendingAck)
    (hid : (p'.transports t).requestId = (p.transports t).requestId) {id : Nat}
    (hindex : p'.ackMap.recordIndex = p.ackMap.recordIndex.erase id) : Untouched t p p' where
  pendingAck := hpend
  requestId := hid
  find id' record hf hr := by
    rw [hindex, UMap.find_erase] at hf
    split at hf
    · cases hf
    · exact ⟨record, hf, hr⟩
  keyed hkey id' record hf := by
    rw [hindex, UMap.find_erase] at hf
    split at hf
    · cases hf
    · exact hkey id' record hf

/-- A record of someone else is added, or none if its id is taken. -/
theorem untouched_emplace
    (hpend : (p'.transports t).pendingAck = (p.transports t).pendingAck)
    (hid : (p'.transports t).requestId = (p.transports t).requestId) {id : Nat}
    {record : PendingRecord T} (hkey : record.id = id) (hr : record.requestor ≠ some t)
    (hindex : p'.ackMap.recordIndex = p.ackMap.recordIndex.emplace id record) :
    Untouched t p p' := by
  cases hold : p.ackMap.recordIndex.find id with
  | some old =>
    rw [UMap.emplace_of_find hold] at hindex
    exact untouched_of_same hpend hid hindex
  | none =>
    refine ⟨hpend, hid, fun id' record' hf hr' => ?_, fun hkeyed id' record' hf => ?_⟩
    · rw [hindex, UMap.find_emplace, hold] at hf
      split at hf
      · cases hf
        exact absurd hr' hr
      · exact ⟨record', hf, hr'⟩
    · rw [hindex, UMap.find_emplace, hold] at hf
      split at hf
      · next heq =>
        cases hf
        rw [heq]
        exact hkey
      · exact hkeyed id' record' hf

/-- A record is replaced by one with the same id and requestor. -/
theorem untouched_assign
    (hpend : (p'.transports t).pendingAck = (p.transports t).pendingAck)
    (hid : (p'.transports t).requestId = (p.transports t).requestId) {id : Nat}
    {record record' : PendingRecord T} (hf : p.ackMap.recordIndex.find id = some record)
    (hkey : record'.id = record.id) (hr : record'.requestor = record.requestor)
    (hindex : p'.ackMap.recordIndex = p.ackMap.recordIndex.assign id record') :
    Untouched t p p' where
  pendingAck := hpend
  requestId := hid
  find id' r hf' hr' := by
    rw [hindex, UMap.find_assign] at hf'
    split at hf'
    · next heq =>
      cases hf'
      exact ⟨record, by rw [heq]; exact hf, hr.symm.trans hr'⟩
    · exact ⟨r, hf', hr'⟩
  keyed hkeyed id' r hf' := by
    rw [hindex, UMap.find_assign] at hf'
    split at hf'
    · next heq =>
      cases hf'
      rw [heq, hkey]
      exact hkeyed id record hf
    · exact hkeyed id' r hf'

variable [DecidableEq T]

theorem untouched_setTransport (hne : u ≠ t) (transport : ConnTransport) :
    Untouched t p (p.setTransport u transport) := by
  have hother := p.setTransport_other (fun h => hne h.symm) transport
  exact untouched_of_same (by rw [hother]) (by rw [hother]) rfl

theorem untouched_sendReliablePacket [LinkWriter] (hne : u ≠ t) (data : List UInt8)
    (o : SendOutcome) : Untouched t p (p.sendReliablePacket u data o).2.1 := by
  have hne' : t ≠ u := fun h => hne h.symm
  unfold Process.sendReliablePacket
  dsimp only
  split
  · exact .refl t p
  split
  · apply untouched_of_same
    · rw [Process.setTransport_other _ hne']
    · rw [Process.setTransport_other _ hne']
    · rfl
  · obtain ⟨record, hkey, hr, hindex⟩ := p.ackMap.add_index o.now (some u)
      (p.nextPacket u data).datagram (p.nextPacket u data).peerIpAddress
      (p.nextPacket u data).peerPort o.draw
    refine untouched_emplace ?_ ?_ hkey ?_ hindex
    · rw [Process.setTransport_other _ hne']
    · rw [Process.setTransport_other _ hne']
    · rw [hr]
      simpa using hne

/-- A send that fails only takes a sequence number. -/
theorem untouched_sendReliablePacket_failed [LinkWriter] {data : List UInt8} {o : SendOutcome}
    (hs : o.sent (p.nextPacket u data) = false) :
    Untouched t p (p.sendReliablePacket u data o).2.1 := by
  unfold Process.sendReliablePacket
  dsimp only
  split
  · exact .refl t p
  · by_cases hne : u = t
    · subst hne
      apply untouched_of_same
      · rw [Process.setTransport_self]
      · rw [Process.setTransport_self]
      · rfl
    · have hne' : t ≠ u := fun h => hne h.symm
      apply untouched_of_same
      · rw [Process.setTransport_other _ hne']
      · rw [Process.setTransport_other _ hne']
      · rfl

theorem sendReliablePacket_sent [LinkWriter] (hidle : (p.transports t).pendingAck = false)
    {data : List UInt8} {o : SendOutcome} (hs : o.sent (p.nextPacket t data) = true) :
    (p.sendReliablePacket t data o).1 = true ∧
      ((p.sendReliablePacket t data o).2.1.transports t).pendingAck = true := by
  simp [Process.sendReliablePacket, hidle, hs]

/-- The record of the packet is the only one of the transport. -/
theorem Tabled.sent [LinkWriter] (hp : Tabled t p) (hidle : (p.transports t).pendingAck = false)
    {data : List UInt8} {o : SendOutcome} (hs : o.sent (p.nextPacket t data) = true) :
    Tabled t (p.sendReliablePacket t data o).2.1 := by
  have hnone : ∀ id record, p.ackMap.recordIndex.find id = some record →
      record.requestor ≠ some t := by
    intro id record hf hr
    have := (hp.waits id record hf hr).1
    rw [hidle] at this
    cases this
  obtain ⟨record, hkey, hr, hindex⟩ := p.ackMap.add_index o.now (some t)
    (p.nextPacket t data).datagram (p.nextPacket t data).peerIpAddress
    (p.nextPacket t data).peerPort o.draw
  have htable : (p.sendReliablePacket t data o).2.1.ackMap.recordIndex =
      p.ackMap.recordIndex.emplace p.ackMap.currId record := by
    simpa [Process.sendReliablePacket, hidle, hs] using hindex
  have hid : ((p.sendReliablePacket t data o).2.1.transports t).requestId = p.ackMap.currId := by
    simp [Process.sendReliablePacket, hidle, hs, PendingAckMap.add]
  cases hold : p.ackMap.recordIndex.find p.ackMap.currId with
  | some old =>
    -- the id has come round: the packet has no record
    rw [UMap.emplace_of_find hold] at htable
    constructor
    · intro id record' hf hr'
      rw [htable] at hf
      exact absurd hr' (hnone id record' hf)
    · rw [htable]
      exact hp.keyed
  | none =>
    constructor
    · intro id record' hf hr'
      refine ⟨(sendReliablePacket_sent hidle hs).2, ?_⟩
      rw [htable, UMap.find_emplace] at hf
      split at hf
      · next heq => rw [heq, hid]
      · exact absurd hr' (hnone id record' hf)
    · intro id record' hf
      rw [htable, UMap.find_emplace, hold] at hf
      split at hf
      · next heq =>
        cases hf
        rw [heq]
        exact hkey
      · exact hp.keyed id record' hf

theorem untouched_acknowledgeTransfer (hne : u ≠ t) (now : Nat) :
    Untouched t p (p.acknowledgeTransfer u now).2.1 := by
  unfold Process.acknowledgeTransfer Process.muxAcknowledgeTransfer
  dsimp only
  split
  · exact .refl t p
  · rw [if_pos (by rw [Process.setTransport_self])]
    exact untouched_setTransport hne _

theorem untouched_handleConnDataAck (hne : u ≠ t) (now : Nat) :
    Untouched t p (p.handleConnDataAck u now).2.1 := by
  unfold Process.handleConnDataAck
  dsimp only
  split
  · exact .refl t p
  · cases hf : p.ackMap.recordIndex.find (p.transports u).requestId with
    | none =>
      rw [PendingAckMap.remove_none hf]
      exact .refl t p
    | some record =>
      obtain ⟨hstatus, hindex, -⟩ := PendingAckMap.remove_some hf now
      rw [hstatus, if_neg (by simp)]
      refine Untouched.trans ?_ (untouched_setTransport hne _)
      exact untouched_erase rfl rfl hindex

theorem handleConnDataAck_done (hbusy : (p.transports t).pendingAck = true)
    {record : PendingRecord T}
    (hf : p.ackMap.recordIndex.find (p.transports t).requestId = some record) (now : Nat) :
    (p.handleConnDataAck t now).2.2 = [.received t (p.transports t).requestId] ∧
      ((p.handleConnDataAck t now).2.1.transports t).pendingAck = false ∧
      (p.handleConnDataAck t now).2.1.ackMap.recordIndex =
        p.ackMap.recordIndex.erase (p.transports t).requestId := by
  obtain ⟨hstatus, hindex, -⟩ := PendingAckMap.remove_some hf now
  unfold Process.handleConnDataAck
  simp only [hbusy, Bool.true_eq_false, if_false, hstatus, ConnTransport.handleSendReceived,
    ConnTransport.requestDone, ne_eq, not_true_eq_false, if_true]
  refine ⟨trivial, ?_, hindex⟩
  rw [Process.setTransport_self]

theorem handleConnDataAck_events (p : Process T) (u : T) (now : Nat) :
    (p.handleConnDataAck u now).2.2 = [] ∨
      ∃ id, (p.handleConnDataAck u now).2.2 = [.received u id] := by
  unfold Process.handleConnDataAck
  dsimp only
  split
  · exact .inl rfl
  split
  · exact .inl rfl
  split
  · exact .inr ⟨_, rfl⟩
  · exact .inl rfl

/-- A pass of the timer for a record of the transport. -/
theorem retry_done {entry : RetryEntry} {record : PendingRecord T}
    (hg : AlpineNode.GivesUp p.ackMap entry record) (hr : record.requestor = some u) (now : Nat)
    (draw : ℚ) :
    (p.retry now entry draw).1.ackMap.recordIndex = p.ackMap.recordIndex.erase entry.id ∧
      if record.id = (p.transports u).requestId then
        (p.retry now entry draw).2 = [.failed u record.id] ∧
          ((p.retry now entry draw).1.transports u).pendingAck = false ∧
          ∀ t, t ≠ u → (p.retry now entry draw).1.transports t = p.transports t
      else (p.retry now entry draw).2 = [] ∧
        (p.retry now entry draw).1.transports = p.transports := by
  have hmap : p.ackMap.retry now entry draw = ((p.ackMap.retry now entry draw).1,
      [.failed record.id record.requestor]) ∧
      (p.ackMap.retry now entry draw).1.recordIndex = p.ackMap.recordIndex.erase entry.id := by
    unfold PendingAckMap.retry
    simp [hg.found, hg.current, hg.exhausted]
  obtain ⟨hevents, hindex⟩ := hmap
  unfold Process.retry
  rw [hevents]
  dsimp only
  rw [hr]
  unfold Process.notifyFailure ConnTransport.handleSendFailure ConnTransport.requestDone
  dsimp only
  by_cases hid : record.id = (p.transports u).requestId
  · rw [if_neg (not_not.mpr hid), if_pos hid]
    refine ⟨hindex, rfl, ?_, fun t ht => Process.setTransport_other _ ht _⟩
    rw [Process.setTransport_self]
  · rw [if_pos hid, if_neg hid]
    refine ⟨hindex, rfl, funext fun t => ?_⟩
    by_cases ht : t = u
    · rw [ht, Process.setTransport_self]
    · rw [Process.setTransport_other _ ht]

/-- A pass that gives up no request of a transport. -/
theorem retry_other {entry : RetryEntry}
    (hno : ∀ record u, AlpineNode.GivesUp p.ackMap entry record → record.requestor ≠ some u)
    (now : Nat) (draw : ℚ) :
    (p.retry now entry draw).2 = [] ∧ Untouched t p (p.retry now entry draw).1 := by
  unfold Process.retry
  dsimp only
  rcases p.ackMap.retry_cases now entry draw with ⟨hindex, hev⟩ | ⟨record, hf, hindex, hev⟩ |
    ⟨record, hf, hindex, hev⟩
  · rw [hev]
    exact ⟨rfl, untouched_of_same rfl rfl hindex⟩
  · have hr : record.requestor = none := by
      cases hr : record.requestor with
      | none => rfl
      | some u =>
        rcases AlpineNode.retry_events p.ackMap now entry draw with ⟨record', hg, hev'⟩ |
          ⟨id, hev', -⟩ | ⟨hev', -⟩
        all_goals rw [hev, hr] at hev'
        · injection hev' with hfailed
          injection hfailed with _ hr'
          exact absurd hr'.symm (hno record' u hg)
        · cases hev'
        · cases hev'
    rw [hev, hr]
    exact ⟨rfl, untouched_erase rfl rfl hindex⟩
  · rw [hev]
    exact ⟨rfl, untouched_assign rfl rfl hf (PendingAckMap.resend_id record now draw) rfl hindex⟩

/-- A transport is changed in what has nothing to do with its request. -/
theorem untouched_setTransport_same {transport : ConnTransport}
    (hpend : transport.pendingAck = (p.transports u).pendingAck)
    (hid : transport.requestId = (p.transports u).requestId) :
    Untouched t p (p.setTransport u transport) := by
  by_cases hne : u = t
  · subst hne
    refine untouched_of_same ?_ ?_ rfl
    · rw [Process.setTransport_self, hpend]
    · rw [Process.setTransport_self, hid]
  · exact untouched_setTransport hne _

omit [DecidableEq T] in
theorem untouched_muxSend (data : List UInt8) (now ipAddress port : Nat) (draw : ℚ) :
    Untouched t p (p.muxSend data now ipAddress port draw) := by
  obtain ⟨record, hkey, hr, hindex⟩ := p.ackMap.add_index now none data ipAddress port draw
  exact untouched_emplace rfl rfl hkey (by simp [hr]) hindex

omit [DecidableEq T] in
theorem untouched_muxComplete (now id : Nat) : Untouched t p (p.muxComplete now id) := by
  unfold Process.muxComplete
  split
  · next record hf =>
    split
    · exact untouched_erase rfl rfl (PendingAckMap.remove_some hf now).2.1
    · exact .refl t p
  · exact .refl t p

end Process

/-! ## Events -/

section Events

def transportOf : QueueEvent T → T
  | .accepted t _ | .wired t _ | .ended t _ | .told t _ _ => t

/-- No event is of the transport. -/
def Silent (t : T) (events : List (QueueEvent T)) : Prop := ∀ e ∈ events, transportOf e ≠ t

variable [DecidableEq T] {t : T} {h events : List (QueueEvent T)}

@[simp] theorem accepted_append : accepted t (h ++ events) = accepted t h ++ accepted t events :=
  List.filterMap_append

@[simp] theorem wired_append : wired t (h ++ events) = wired t h ++ wired t events :=
  List.filterMap_append

@[simp] theorem ended_append : ended t (h ++ events) = ended t h ++ ended t events :=
  List.filterMap_append

@[simp] theorem told_append : told t (h ++ events) = told t h ++ told t events :=
  List.filterMap_append

omit [DecidableEq T] in
theorem filterMap_cons_toList {β : Type} (f : QueueEvent T → Option β) (e : QueueEvent T) :
    (e :: events).filterMap f = (f e).toList ++ events.filterMap f := by
  rw [List.filterMap_cons]
  cases f e <;> rfl

@[simp] theorem accepted_nil : accepted t [] = [] := rfl

@[simp] theorem wired_nil : wired t [] = [] := rfl

@[simp] theorem ended_nil : ended t [] = [] := rfl

@[simp] theorem told_nil : told t [] = [] := rfl

@[simp] theorem accepted_cons (e : QueueEvent T) :
    accepted t (e :: events) = (acceptedOf t e).toList ++ accepted t events :=
  filterMap_cons_toList _ e

@[simp] theorem wired_cons (e : QueueEvent T) :
    wired t (e :: events) = (wiredOf t e).toList ++ wired t events := filterMap_cons_toList _ e

@[simp] theorem ended_cons (e : QueueEvent T) :
    ended t (e :: events) = (endedOf t e).toList ++ ended t events := filterMap_cons_toList _ e

@[simp] theorem told_cons (e : QueueEvent T) :
    told t (e :: events) = (toldOf t e).toList ++ told t events := filterMap_cons_toList _ e

theorem Silent.lists (hs : Silent t events) :
    accepted t events = [] ∧ wired t events = [] ∧ ended t events = [] ∧ told t events = [] := by
  unfold accepted wired ended told
  simp only [List.filterMap_eq_nil_iff]
  refine ⟨fun e he => ?_, fun e he => ?_, fun e he => ?_, fun e he => ?_⟩
  all_goals
    have hne := hs e he
    cases e with
    | _ => simp_all [transportOf, acceptedOf, wiredOf, endedOf, toldOf]

end Events

/-! ## Steps -/

/-- Nothing of the transport changes. -/
structure Quiet [DecidableEq T] (t : T) (s s' : ReliableQueues T) (events : List (QueueEvent T)) :
    Prop where
  alpine : s'.alpine t = s.alpine t
  process : Untouched t s.process s'.process
  silent : Silent t events

section Steps

variable [DecidableEq T] {t u : T} {s s' : ReliableQueues T} {events : List (QueueEvent T)}

theorem Quiet.trans {s'' : ReliableQueues T} {events' : List (QueueEvent T)}
    (h : Quiet t s s' events) (h' : Quiet t s' s'' events') : Quiet t s s'' (events ++ events') where
  alpine := h'.alpine.trans h.alpine
  process := h.process.trans h'.process
  silent e he := by
    rcases List.mem_append.mp he with he | he
    · exact h.silent e he
    · exact h'.silent e he

theorem quiet_process {process : Process T} (hp : Untouched t s.process process) :
    Quiet t s { s with process } [] := ⟨rfl, hp, fun e he => by cases he⟩

theorem Quiet.refl (t : T) (s : ReliableQueues T) : Quiet t s s [] := quiet_process (.refl t _)

theorem quiet_setAlpine (hne : u ≠ t) (transport : AlpineTransport) :
    Quiet t s (s.setAlpine u transport) [] where
  alpine := Function.update_of_ne (fun h => hne h.symm) _ _
  process := .refl t _
  silent e he := by cases he

theorem quiet_event (hne : u ≠ t) {e : QueueEvent T} (he : transportOf e = u) : Quiet t s s [e] where
  alpine := rfl
  process := .refl t _
  silent e' he' := by
    rw [List.mem_singleton] at he'
    rw [he', he]
    exact hne

/-- The number of the next request that is queued. -/
def nextNumber (s : ReliableQueues T) (t : T) : Nat :=
  match (s.alpine t).pendingIndex with
  | none => ((s.alpine t).requestId + 1) % 2 ^ 64
  | some index => index.currRequestId

omit [DecidableEq T] in
theorem pendingRequests_none (hq : (s.alpine t).pendingIndex = none) : s.pendingRequests t = [] := by
  simp [pendingRequests, hq]

omit [DecidableEq T] in
theorem pendingRequests_eq_nil_iff :
    s.pendingRequests t = [] ↔ (s.alpine t).pendingIndex = none := by
  unfold pendingRequests
  cases (s.alpine t).pendingIndex with
  | none => simp
  | some index => simpa using index.nonempty

theorem front_popFront (index : RequestStateIndex) :
    index.pendingRequests = index.front :: (match index.popFront with
      | none => []
      | some index => index.pendingRequests) := by
  unfold RequestStateIndex.front RequestStateIndex.popFront
  conv_lhs => rw [← List.cons_head_tail index.nonempty]
  split
  · next hnone =>
    split at hnone
    · cases hnone
    · next htail => rw [not_not.mp htail]
  · next index' hsome =>
    split at hsome
    · cases hsome
      rfl
    · cases hsome

variable [LinkWriter]

theorem quiet_baseSendReliableData (hne : u ≠ t) (data : List UInt8) (o : SendOutcome) :
    Quiet t s (s.baseSendReliableData u data o).2 [] :=
  quiet_process (untouched_sendReliablePacket hne data o)

theorem quiet_checkPendingRequests (hne : u ≠ t) (o : SendOutcome) :
    Quiet t s (s.checkPendingRequests u o).1 (s.checkPendingRequests u o).2 := by
  unfold checkPendingRequests
  split
  · exact .refl t s
  split
  · exact .refl t s
  · next index _ =>
    dsimp only
    have hsend := (quiet_setAlpine (s := s) hne ⟨index.front.requestId, index.popFront⟩).trans
      (quiet_baseSendReliableData hne index.front.data o)
    split
    · exact hsend.trans (quiet_setAlpine hne _)
    · exact hsend.trans (quiet_event hne rfl)

theorem quiet_handleSendEnded (hne : u ≠ t) (outcome : TransferEnd) (before after : SendOutcome) :
    Quiet t s (s.handleSendEnded u outcome before after).1
      (s.handleSendEnded u outcome before after).2 := by
  unfold handleSendEnded
  dsimp only
  have hended : Quiet t s s [.ended u outcome] := quiet_event hne rfl
  have hfirst := hended.trans (quiet_checkPendingRequests hne before)
  have htold := hfirst.trans (quiet_event hne
    (e := .told u ((s.checkPendingRequests u before).1.alpine u).requestId outcome) rfl)
  have hsecond := htold.trans (quiet_checkPendingRequests hne after)
  simpa using hsecond

theorem checkPendingRequests_busy (hbusy : s.pendingAck t = true) (o : SendOutcome) :
    s.checkPendingRequests t o = (s, []) := if_pos hbusy

theorem checkPendingRequests_none (hq : (s.alpine t).pendingIndex = none) (o : SendOutcome) :
    s.checkPendingRequests t o = (s, []) := by
  unfold checkPendingRequests
  rw [hq]
  split <;> rfl

/-- The first request is taken out of the queue, with all others if it cannot be sent. -/
structure Popped (t : T) (index : RequestStateIndex) (sent : Bool) (s' : ReliableQueues T)
    (events : List (QueueEvent T)) : Prop where
  requestId : (s'.alpine t).requestId = index.front.requestId
  pendingAck : s'.pendingAck t = sent
  pendingIndex : (s'.alpine t).pendingIndex = if sent then index.popFront else none
  events : events = if sent then [.wired t index.front] else []

theorem checkPendingRequests_some (hidle : s.pendingAck t = false) {index : RequestStateIndex}
    (hq : (s.alpine t).pendingIndex = some index) (o : SendOutcome) :
    Popped t index (o.sent (s.process.nextPacket t index.front.data))
      (s.checkPendingRequests t o).1 (s.checkPendingRequests t o).2 := by
  have hidle' : (s.process.transports t).pendingAck = false := hidle
  unfold checkPendingRequests
  rw [if_neg (by simp [hidle]), hq]
  dsimp only
  cases hs : o.sent (s.process.nextPacket t index.front.data) with
  | true =>
    obtain ⟨hstatus, hpend⟩ := sendReliablePacket_sent hidle' hs
    have hbase : ((s.setAlpine t ⟨index.front.requestId, index.popFront⟩).baseSendReliableData t
        index.front.data o).1 = true := by
      simpa [baseSendReliableData, setAlpine] using hstatus
    rw [if_neg (by simp [hbase])]
    refine ⟨?_, ?_, ?_, rfl⟩
    · simp [baseSendReliableData, setAlpine]
    · simpa [ReliableQueues.pendingAck, baseSendReliableData, setAlpine] using hpend
    · simp [baseSendReliableData, setAlpine]
  | false =>
    have hbase : ((s.setAlpine t ⟨index.front.requestId, index.popFront⟩).baseSendReliableData t
        index.front.data o).1 = false := by
      simp [baseSendReliableData, setAlpine, Process.sendReliablePacket, hs, hidle']
    rw [if_pos hbase]
    refine ⟨?_, ?_, ?_, rfl⟩
    · simp [cleanUp, baseSendReliableData, setAlpine]
    · simp [ReliableQueues.pendingAck, cleanUp, baseSendReliableData, setAlpine,
        Process.sendReliablePacket, hs, hidle']
    · simp [cleanUp, setAlpine]

/-- What is left to do after a look at the queue: nothing, if nothing is outstanding. -/
theorem checkPendingRequests_idle (o : SendOutcome)
    (hidle : (s.checkPendingRequests t o).1.pendingAck t = false) :
    ((s.checkPendingRequests t o).1.alpine t).pendingIndex = none := by
  cases hp : s.pendingAck t with
  | true =>
    rw [checkPendingRequests_busy hp, hp] at hidle
    cases hidle
  | false =>
    cases hq : (s.alpine t).pendingIndex with
    | none => rwa [checkPendingRequests_none hq]
    | some index =>
      obtain ⟨-, hpend, hrest, -⟩ := checkPendingRequests_some hp hq o
      rw [hidle] at hpend
      rw [hrest, ← hpend]
      rfl

/-- What goes out and what stays was queued, in this order. -/
theorem checkPendingRequests_order (o : SendOutcome) :
    (wired t (s.checkPendingRequests t o).2 ++
        (s.checkPendingRequests t o).1.pendingRequests t).Sublist (s.pendingRequests t) ∧
      accepted t (s.checkPendingRequests t o).2 = [] := by
  cases hp : s.pendingAck t with
  | true =>
    rw [checkPendingRequests_busy hp]
    exact ⟨List.Sublist.refl _, rfl⟩
  | false =>
    cases hq : (s.alpine t).pendingIndex with
    | none =>
      rw [checkPendingRequests_none hq]
      exact ⟨List.Sublist.refl _, rfl⟩
    | some index =>
      obtain ⟨-, -, hrest, hev⟩ := checkPendingRequests_some hp hq o
      have hqueue : s.pendingRequests t = index.pendingRequests := by simp [pendingRequests, hq]
      rw [hev, hqueue, front_popFront index]
      unfold pendingRequests
      rw [hrest]
      cases o.sent (s.process.nextPacket t index.front.data) with
      | true =>
        have hwired : wired t [QueueEvent.wired t index.front] = [index.front] := by
          simp [wiredOf]
        refine ⟨?_, rfl⟩
        rw [if_pos rfl, if_pos rfl, hwired]
        exact List.Sublist.refl _
      | false => exact ⟨List.nil_sublist _, rfl⟩

/-- What a step does to the transport, and when it is a good one. -/
inductive Did (t : T) (s : ReliableQueues T) (input : Input T) :
    ReliableQueues T → List (QueueEvent T) → Prop where
  | quiet {s' : ReliableQueues T} {events : List (QueueEvent T)} (hquiet : Quiet t s s' events)
      (hok : ∀ h, Tabled t s.process → StepOk t h s input) : Did t s input s' events
  /-- A request is accepted and goes out. -/
  | sent {s' : ReliableQueues T} (data : List UInt8) (hidle : s.pendingAck t = false)
      (hpend : s'.pendingAck t = true)
      (halpine : s'.alpine t =
        ⟨((s.alpine t).requestId + 1) % 2 ^ 64, (s.alpine t).pendingIndex⟩)
      (htabled : Tabled t s.process → Tabled t s'.process)
      (hok : ∀ h, StepOk t h s input ↔ (accepted t h).length < 2 ^ 64) :
      Did t s input s'
        [.wired t ⟨((s.alpine t).requestId + 1) % 2 ^ 64, data⟩,
          .accepted t ⟨((s.alpine t).requestId + 1) % 2 ^ 64, data⟩]
  /-- A request is accepted and waits. -/
  | queued {s' : ReliableQueues T} (data : List UInt8) (hbusy : s.pendingAck t = true)
      (hprocess : s'.process = s.process) (hid : (s'.alpine t).requestId = (s.alpine t).requestId)
      (hqueue : s'.pendingRequests t = s.pendingRequests t ++ [⟨s.nextNumber t, data⟩])
      (hnext : s'.nextNumber t = (s.nextNumber t + 1) % 2 ^ 64)
      (hok : ∀ h, StepOk t h s input ↔ (accepted t h).length < 2 ^ 64) :
      Did t s input s' [.accepted t ⟨s.nextNumber t, data⟩]
  /-- The user acknowledges the request outstanding. -/
  | acknowledged (s₀ : ReliableQueues T) (o : SendOutcome) (hbusy : s.pendingAck t = true)
      (halpine : s₀.alpine = s.alpine) (hidle : s₀.pendingAck t = false)
      (hok : ∀ h, ¬ StepOk t h s input) :
      Did t s input (s₀.checkPendingRequests t o).1
        (.ended t .acknowledged :: (s₀.checkPendingRequests t o).2)
  /-- The request outstanding was received, or is given up. -/
  | done (s₀ : ReliableQueues T) (outcome : TransferEnd) (before after : SendOutcome)
      (halpine : s₀.alpine = s.alpine) (hidle : s₀.pendingAck t = false)
      (hbusy : Tabled t s.process → s.pendingAck t = true)
      (htabled : Tabled t s.process → Tabled t s₀.process)
      (hok : ∀ h, StepOk t h s input ↔ s.pendingRequests t = []) :
      Did t s input (s₀.handleSendEnded t outcome before after).1
        (s₀.handleSendEnded t outcome before after).2

theorem did_sendReliableData_idle (hidle : s.pendingAck t = false) (data : List UInt8)
    (o : SendOutcome) :
    Did t s (.sendReliableData t data o) (s.sendReliableData t data o).2.1
      (s.sendReliableData t data o).2.2 := by
  have hidle' : (s.process.transports t).pendingAck = false := hidle
  unfold sendReliableData
  rw [if_pos hidle]
  cases hs : o.sent (s.process.nextPacket t data) with
  | false =>
    have hbase : (s.baseSendReliableData t data o).1 = false := by
      simp [baseSendReliableData, Process.sendReliablePacket, hs, hidle']
    dsimp only
    rw [if_pos hbase]
    refine .quiet (quiet_process ?_) fun h _ _ hacc => ?_
    · exact untouched_sendReliablePacket_failed hs
    · simp [hidle, hs] at hacc
  | true =>
    obtain ⟨hstatus, hpend⟩ := sendReliablePacket_sent hidle' hs
    have hbase : (s.baseSendReliableData t data o).1 = true := by
      simpa [baseSendReliableData] using hstatus
    dsimp only
    rw [if_neg (by simp [hbase])]
    refine .sent data hidle ?_ ?_ (fun hp => ?_) fun h => ?_
    · simpa [ReliableQueues.pendingAck, baseSendReliableData, setAlpine] using hpend
    · simp [baseSendReliableData, setAlpine]
    · have := hp.sent hidle' hs
      simpa [baseSendReliableData, setAlpine] using this
    · simp [StepOk, hs]

theorem did_sendReliableData_busy (hbusy : s.pendingAck t = true) (data : List UInt8)
    (o : SendOutcome) :
    Did t s (.sendReliableData t data o) (s.sendReliableData t data o).2.1
      (s.sendReliableData t data o).2.2 := by
  unfold sendReliableData
  rw [if_neg (by simp [hbusy])]
  have hok : ∀ h, StepOk t h s (.sendReliableData t data o) ↔ (accepted t h).length < 2 ^ 64 := by
    intro h
    simp [StepOk, hbusy]
  dsimp only
  cases hq : (s.alpine t).pendingIndex with
  | none =>
    have hnumber : s.nextNumber t = ((s.alpine t).requestId + 1) % 2 ^ 64 := by
      simp [nextNumber, hq]
    rw [← hnumber]
    refine .queued data hbusy rfl ?_ ?_ ?_ hok
    · simp [setAlpine]
    · simp [pendingRequests, setAlpine, hq, RequestStateIndex.new, hnumber]
    · simp only [nextNumber, setAlpine, Function.update_self, hq, RequestStateIndex.new]
      omega
  | some index =>
    have hnumber : s.nextNumber t = index.currRequestId := by simp [nextNumber, hq]
    dsimp only
    rw [← hnumber]
    refine .queued data hbusy rfl ?_ ?_ ?_ hok
    · simp [setAlpine]
    · simp [pendingRequests, setAlpine, hq, RequestStateIndex.pushBack, hnumber]
    · simp [nextNumber, setAlpine, hq, RequestStateIndex.pushBack]

theorem did_acknowledgeTransfer (requestId : Nat) (o : SendOutcome) :
    Did t s (.acknowledgeTransfer t requestId o) (s.acknowledgeTransfer t requestId o).2.1
      (s.acknowledgeTransfer t requestId o).2.2 := by
  unfold acknowledgeTransfer
  split
  · next h =>
    refine .quiet (.refl t s) fun _ _ _ hboth => ?_
    rcases h with h | h
    · rw [h] at hboth
      cases hboth.1
    · exact h hboth.2
  · next h =>
    obtain ⟨hbusy, hid⟩ := not_or.mp h
    rw [Bool.not_eq_false] at hbusy
    have hbusy' : (s.process.transports t).pendingAck = true := hbusy
    refine .acknowledged _ o hbusy rfl ?_ fun _ hok => hok rfl ⟨hbusy, not_not.mp hid⟩
    show ((s.process.acknowledgeTransfer t o.now).2.1.transports t).pendingAck = false
    unfold Process.acknowledgeTransfer Process.muxAcknowledgeTransfer
    simp [hbusy']

theorem did_dataAck (now : Nat) (before after : SendOutcome) :
    Did t s (.dataAck t now before after) (machine.step s (.dataAck t now before after)).1
      (machine.step s (.dataAck t now before after)).2 := by
  cases hbusy : (s.process.transports t).pendingAck with
  | false =>
    have hack : s.process.handleConnDataAck t now = (true, s.process, []) := by
      simp [Process.handleConnDataAck, hbusy]
    simp only [machine, hack, notify]
    refine .quiet (.refl t s) fun _ _ _ hpend => ?_
    rw [ReliableQueues.pendingAck, hbusy] at hpend
    cases hpend
  | true =>
    cases hf : s.process.ackMap.recordIndex.find (s.process.transports t).requestId with
    | none =>
      have hack : s.process.handleConnDataAck t now = (false, s.process, []) := by
        simp [Process.handleConnDataAck, hbusy, PendingAckMap.remove_none hf]
      simp only [machine, hack, notify]
      refine .quiet (.refl t s) fun _ _ _ _ hsome => ?_
      rw [hf] at hsome
      cases hsome
    | some record =>
      obtain ⟨hevents, hidle, hindex⟩ := handleConnDataAck_done hbusy hf now
      simp only [machine, hevents, notify, handleSendReceived]
      refine .done ⟨(s.process.handleConnDataAck t now).2.1, s.alpine⟩ .received before after
        rfl hidle (fun _ => hbusy) (fun hp => hp.done hindex) fun h => ?_
      simp [StepOk, ReliableQueues.pendingAck, hbusy, hf]

theorem did_retry (now : Nat) (entry : RetryEntry) (draw : ℚ) (before after : SendOutcome) :
    Did t s (.retry now entry draw before after)
      (machine.step s (.retry now entry draw before after)).1
      (machine.step s (.retry now entry draw before after)).2 := by
  by_cases hno : ∀ record u, AlpineNode.GivesUp s.process.ackMap entry record →
      record.requestor ≠ some u
  · obtain ⟨hevents, huntouched⟩ := retry_other (t := t) hno now draw
    simp only [machine, hevents, notify]
    exact .quiet (quiet_process huntouched) fun _ _ record hg hr => absurd hr (hno record t hg)
  push Not at hno
  obtain ⟨record, u, hg, hr⟩ := hno
  have hsame : ∀ record', AlpineNode.GivesUp s.process.ackMap entry record' → record' = record := by
    intro record' hg'
    have hfound := hg'.found
    rw [hg.found] at hfound
    exact (Option.some.inj hfound).symm
  obtain ⟨hindex, hcases⟩ := retry_done hg hr now draw
  split at hcases
  · next hid =>
    obtain ⟨hevents, hidle, hother⟩ := hcases
    simp only [machine, hevents, notify, handleSendFailure]
    by_cases hut : u = t
    · subst hut
      refine .done ⟨(s.process.retry now entry draw).1, s.alpine⟩ .failed before after
        rfl hidle (fun hp => (hp.waits _ _ hg.found hr).1) (fun hp => hp.done ?_) fun h => ?_
      · rw [hindex, (hp.waits _ _ hg.found hr).2]
      · refine ⟨fun hok => hok record hg hr, fun hq record' hg' _ => hq⟩
    · have hprocess : Untouched t s.process (s.process.retry now entry draw).1 :=
        have ht := hother t fun h => hut h.symm
        untouched_erase (by rw [ht]) (by rw [ht]) hindex
      refine .quiet ((quiet_process hprocess).trans (quiet_handleSendEnded hut _ _ _)) ?_
      intro _ _ record' hg' hr'
      rw [hsame record' hg', hr] at hr'
      exact absurd (Option.some.inj hr') hut
  · next hid =>
    obtain ⟨hevents, htransports⟩ := hcases
    simp only [machine, hevents, notify]
    refine .quiet (quiet_process (untouched_erase (by rw [htransports]) (by rw [htransports])
      hindex)) fun _ hp record' hg' hr' => ?_
    -- a record of the transport would be of the request it waits for
    obtain rfl := hsame record' hg'
    rw [hr] at hr'
    cases hr'
    exact absurd ((hp.keyed _ _ hg.found).trans (hp.waits _ _ hg.found hr).2) hid

theorem quiet_sendReliableData (hne : u ≠ t) (data : List UInt8) (o : SendOutcome) :
    Quiet t s (s.sendReliableData u data o).2.1 (s.sendReliableData u data o).2.2 := by
  have hwired := fun request => quiet_event (s := s) hne (e := .wired u request) rfl
  have haccepted := fun (s : ReliableQueues T) request =>
    quiet_event (s := s) hne (e := .accepted u request) rfl
  unfold sendReliableData
  dsimp only
  split
  · have hsend := quiet_baseSendReliableData (s := s) hne data o
    split
    · exact hsend
    · exact (hwired _).trans ((haccepted _ _).trans (hsend.trans (quiet_setAlpine hne _)))
  · exact (haccepted _ _).trans (quiet_setAlpine hne _)

theorem quiet_acknowledgeTransfer (hne : u ≠ t) (requestId : Nat) (o : SendOutcome) :
    Quiet t s (s.acknowledgeTransfer u requestId o).2.1 (s.acknowledgeTransfer u requestId o).2.2 := by
  unfold acknowledgeTransfer
  dsimp only
  split
  · exact .refl t s
  · have hended := quiet_event (s := s) hne (e := .ended u .acknowledged) rfl
    have hack : Quiet t s { s with process := (s.process.acknowledgeTransfer u o.now).2.1 } [] :=
      quiet_process (untouched_acknowledgeTransfer hne o.now)
    exact hended.trans (hack.trans (quiet_checkPendingRequests hne o))

theorem quiet_notify (hne : u ≠ t) (before after : SendOutcome) {events : List (TransportEvent T)}
    (he : events = [] ∨ ∃ id, events = [.received u id]) :
    Quiet t s (s.notify before after events).1 (s.notify before after events).2 := by
  rcases he with rfl | ⟨id, rfl⟩
  · exact .refl t s
  · exact quiet_handleSendEnded hne .received before after

theorem did_step (t : T) (s : ReliableQueues T) (input : Input T) :
    Did t s input (machine.step s input).1 (machine.step s input).2 := by
  cases input with
  | sendReliableData u data o =>
    by_cases hut : u = t
    · subst hut
      cases hp : s.pendingAck u with
      | false => exact did_sendReliableData_idle hp data o
      | true => exact did_sendReliableData_busy hp data o
    · exact .quiet (quiet_sendReliableData hut data o) fun _ _ hut' => absurd hut' hut
  | acknowledgeTransfer u requestId o =>
    by_cases hut : u = t
    · subst hut
      exact did_acknowledgeTransfer requestId o
    · exact .quiet (quiet_acknowledgeTransfer hut requestId o) fun _ _ hut' => absurd hut' hut
  | dataAck u now before after =>
    by_cases hut : u = t
    · subst hut
      exact did_dataAck now before after
    · refine .quiet ?_ fun _ _ hut' => absurd hut' hut
      exact (quiet_process (untouched_handleConnDataAck hut now)).trans
        (quiet_notify hut before after (handleConnDataAck_events s.process u now))
  | setRecvSequenceNum u currSequenceNum =>
    exact .quiet (quiet_process (untouched_setTransport_same rfl rfl)) fun _ _ => trivial
  | setPeerLocation u ipAddress port =>
    exact .quiet (quiet_process (untouched_setTransport_same rfl rfl)) fun _ _ => trivial
  | retry now entry draw before after => exact did_retry now entry draw before after
  | muxSend data now ipAddress port draw =>
    exact .quiet (quiet_process (untouched_muxSend _ _ _ _ _)) fun _ _ => trivial
  | muxComplete now id =>
    exact .quiet (quiet_process (untouched_muxComplete _ _)) fun _ _ => trivial

theorem checkPendingRequests_lists (o : SendOutcome) :
    ended t (s.checkPendingRequests t o).2 = [] ∧ told t (s.checkPendingRequests t o).2 = [] := by
  cases hp : s.pendingAck t with
  | true =>
    rw [checkPendingRequests_busy hp]
    exact ⟨rfl, rfl⟩
  | false =>
    cases hq : (s.alpine t).pendingIndex with
    | none =>
      rw [checkPendingRequests_none hq]
      exact ⟨rfl, rfl⟩
    | some index =>
      rw [(checkPendingRequests_some hp hq o).events]
      split <;> exact ⟨rfl, rfl⟩

theorem handleSendEnded_none (hq : (s.alpine t).pendingIndex = none) (outcome : TransferEnd)
    (before after : SendOutcome) :
    s.handleSendEnded t outcome before after =
      (s, [.ended t outcome, .told t (s.alpine t).requestId outcome]) := by
  unfold handleSendEnded
  rw [checkPendingRequests_none hq]
  dsimp only
  rw [checkPendingRequests_none hq]
  rfl

/-- With a request in the queue the stack is told the number of that one. -/
theorem handleSendEnded_some (hidle : s.pendingAck t = false) {index : RequestStateIndex}
    (hq : (s.alpine t).pendingIndex = some index) (outcome : TransferEnd)
    (before after : SendOutcome) :
    ended t (s.handleSendEnded t outcome before after).2 = [outcome] ∧
      told t (s.handleSendEnded t outcome before after).2 = [(index.front.requestId, outcome)] := by
  obtain ⟨hended, htold⟩ := checkPendingRequests_lists (s := s) (t := t) before
  obtain ⟨hended', htold'⟩ :=
    checkPendingRequests_lists (s := (s.checkPendingRequests t before).1) (t := t) after
  have hid := (checkPendingRequests_some hidle hq before).requestId
  unfold handleSendEnded
  dsimp only
  rw [hid]
  simp [hended, htold, hended', htold', endedOf, toldOf]

theorem handleSendEnded_order (outcome : TransferEnd) (before after : SendOutcome) :
    (wired t (s.handleSendEnded t outcome before after).2 ++
        (s.handleSendEnded t outcome before after).1.pendingRequests t).Sublist
      (s.pendingRequests t) ∧
      accepted t (s.handleSendEnded t outcome before after).2 = [] := by
  obtain ⟨horder, hacc⟩ := checkPendingRequests_order (s := s) (t := t) before
  obtain ⟨horder', hacc'⟩ :=
    checkPendingRequests_order (s := (s.checkPendingRequests t before).1) (t := t) after
  unfold handleSendEnded
  dsimp only
  constructor
  · refine List.Sublist.trans ?_ horder
    have hlist : wired t (.ended t outcome :: (s.checkPendingRequests t before).2 ++
        .told t ((s.checkPendingRequests t before).1.alpine t).requestId outcome ::
          ((s.checkPendingRequests t before).1.checkPendingRequests t after).2) =
        wired t (s.checkPendingRequests t before).2 ++
          wired t ((s.checkPendingRequests t before).1.checkPendingRequests t after).2 := by
      simp [wiredOf]
    rw [hlist, List.append_assoc]
    exact horder'.append_left _
  · simp [hacc, hacc', acceptedOf]

end Steps

end Alpine.ReliableQueues
