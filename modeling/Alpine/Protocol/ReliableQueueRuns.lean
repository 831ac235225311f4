import Alpine.Protocol.ReliableQueueSteps

/-!
# Runs of the queue of reliable requests

With any writer the requests go out in the order in which they were accepted, none of them twice,
and none waits while none is outstanding. The rest of `Sound` holds exactly if no request is done
while another one waits (`along_sound_iff`): the transport sends the next request, which gives
`requestId_` its number, and then tells the stack that `requestId_` is done. The writer of the code
has no packet sent, so no request is ever outstanding and every run is sound (`along_queueSound`).
-/

namespace Alpine.ReliableQueues

open Lib

variable {T : Type}

theorem zip_append_left {α β : Type} {l r : List α} {l' : List β} (hlen : l'.length ≤ l.length) :
    (l ++ r).zip l' = l.zip l' := by
  induction l' generalizing l with
  | nil => simp
  | cons b l' ih =>
    cases l with
    | nil => cases hlen
    | cons a l => simpa using ih (by simpa using hlen)

/-- The requests that went out and those that wait were accepted in this order, and none waits while
none is outstanding. -/
structure Ordered [DecidableEq T] (t : T) (h : List (QueueEvent T)) (s : ReliableQueues T) : Prop where
  order : (wired t h ++ s.pendingRequests t).Sublist (accepted t h)
  idle : s.pendingAck t = false → (s.alpine t).pendingIndex = none

/-- Beyond that, nothing was lost, and the numbers go on from the one the transport started with. -/
structure Kept [DecidableEq T] (t : T) (start : Nat) (h : List (QueueEvent T))
    (s : ReliableQueues T) : Prop where
  tabled : Tabled t s.process
  order : accepted t h = wired t h ++ s.pendingRequests t
  idle : s.pendingAck t = false → (s.alpine t).pendingIndex = none
  single : (wired t h).length = (ended t h).length + (s.pendingAck t).toNat
  told : told t h = ((wired t h).map (·.requestId)).zip (ended t h)
  current : s.pendingAck t = true →
    ∃ before request, wired t h = before ++ [request] ∧ request.requestId = (s.alpine t).requestId
  numbers : (accepted t h).map (·.requestId) =
    (List.range (accepted t h).length).map fun k => (start + 1 + k) % 2 ^ 64
  next : s.nextNumber t = (start + 1 + (accepted t h).length) % 2 ^ 64
  bound : (accepted t h).length ≤ 2 ^ 64

section Runs

variable {t : T} {start : Nat} {h events : List (QueueEvent T)} {s s' : ReliableQueues T}
  {input : Input T}

/-- Numbers that are fewer than `2 ^ 64` in a row differ. -/
theorem nodup_numbers (start : Nat) {n : Nat} (hn : n ≤ 2 ^ 64) :
    ((List.range n).map fun k => (start + 1 + k) % 2 ^ 64).Nodup := by
  refine List.Nodup.map_on (fun k hk j hj heq => ?_) List.nodup_range
  rw [List.mem_range] at hk hj
  omega

variable [DecidableEq T]

theorem kept_new (configured : Option Int) (requestIds : T → Nat) :
    Kept t (requestIds t) [] (new configured requestIds) where
  tabled := by constructor <;> simp [new, Process.new, PendingAckMap.new]
  order := rfl
  idle _ := rfl
  single := rfl
  told := rfl
  current hp := by cases hp
  numbers := rfl
  next := rfl
  bound := Nat.zero_le _

/-- A request with the next number is accepted. -/
theorem Kept.numbers_append (hi : Kept t start h s) (data : List UInt8) :
    (accepted t h ++ [(⟨s.nextNumber t, data⟩ : ReliableRequest)]).map (·.requestId) =
      (List.range ((accepted t h).length + 1)).map fun k => (start + 1 + k) % 2 ^ 64 := by
  rw [List.map_append, hi.numbers, List.range_succ, List.map_append, hi.next]
  rfl

/-- The pairs of those done, whatever went out after them. -/
theorem Kept.told_zip (hi : Kept t start h s) (requests : List ReliableRequest) :
    ReliableQueues.told t h = ((wired t h ++ requests).map (·.requestId)).zip (ended t h) := by
  have hlen : (ended t h).length ≤ (wired t h).length := by
    rw [hi.single]
    exact Nat.le_add_right _ _
  rw [hi.told, List.map_append]
  exact (zip_append_left (by simpa using hlen)).symm

/-- What went out is what is done and the request outstanding. -/
theorem Kept.outstanding (hi : Kept t start h s) (hbusy : s.pendingAck t = true) :
    ∃ earlier request, wired t h = earlier ++ [request] ∧
      request.requestId = (s.alpine t).requestId ∧ earlier.length = (ended t h).length ∧
      ReliableQueues.told t h = (earlier.map (·.requestId)).zip (ended t h) := by
  obtain ⟨earlier, request, hwired, hid⟩ := hi.current hbusy
  have hsingle := hi.single
  rw [hwired, hbusy, List.length_append] at hsingle
  have hlen : earlier.length = (ended t h).length := by simpa using hsingle
  refine ⟨earlier, request, hwired, hid, hlen, ?_⟩
  rw [hi.told, hwired, List.map_append]
  exact zip_append_left (by rw [List.length_map, hlen])

theorem Kept.sound (hi : Kept t start h s) : Sound t h s where
  order := hi.order
  distinct := by
    rw [hi.numbers]
    exact nodup_numbers start hi.bound
  single := hi.single
  told := hi.told
  busy hwait := by
    by_contra hidle
    rw [Bool.not_eq_true] at hidle
    exact hwait (pendingRequests_none (hi.idle hidle))

/-- When all numbers were used, the next one is used again. -/
theorem Kept.lt_of_nodup (hi : Kept t start h s) (data : List UInt8)
    (hnodup : ((accepted t h ++ [(⟨s.nextNumber t, data⟩ : ReliableRequest)]).map
      (·.requestId)).Nodup) : (accepted t h).length < 2 ^ 64 := by
  by_contra hge
  have hlen : (accepted t h).length = 2 ^ 64 := Nat.le_antisymm hi.bound (Nat.le_of_not_lt hge)
  rw [hi.numbers_append, hlen, List.range_succ, List.map_append, List.nodup_append] at hnodup
  refine hnodup.2.2 ((start + 1 + 0) % 2 ^ 64) ?_ _ (List.mem_singleton_self _) ?_
  · exact List.mem_map_of_mem (List.mem_range.mpr (by decide))
  · show (start + 1 + 0) % 2 ^ 64 = (start + 1 + 2 ^ 64) % 2 ^ 64
    omega

section AnyWriter

variable [LinkWriter]

theorem Ordered.step (hi : Ordered t h s) (hdid : Did t s input s' events) :
    Ordered t (h ++ events) s' := by
  cases hdid with
  | quiet hquiet _ =>
    obtain ⟨hacc, hwired, -, -⟩ := hquiet.silent.lists
    constructor
    · simpa [hacc, hwired, pendingRequests, hquiet.alpine] using hi.order
    · rw [ReliableQueues.pendingAck, hquiet.process.pendingAck, hquiet.alpine]
      exact hi.idle
  | sent data hidle hpend halpine _ _ =>
    have hq := hi.idle hidle
    have horder := hi.order
    rw [pendingRequests_none hq, List.append_nil] at horder
    constructor
    · rw [pendingRequests_none (by rw [halpine]; exact hq)]
      simpa [wiredOf, acceptedOf] using horder
    · intro hidle'
      rw [hpend] at hidle'
      cases hidle'
  | queued data hbusy hprocess _ hqueue _ _ =>
    constructor
    · rw [hqueue]
      simpa [wiredOf, acceptedOf, ← List.append_assoc] using hi.order
    · intro hidle
      rw [ReliableQueues.pendingAck, hprocess] at hidle
      rw [ReliableQueues.pendingAck, hidle] at hbusy
      cases hbusy
  | acknowledged s₀ o _ halpine _ _ =>
    obtain ⟨horder, hacc⟩ := checkPendingRequests_order (s := s₀) (t := t) o
    have hsame : s₀.pendingRequests t = s.pendingRequests t := by simp [pendingRequests, halpine]
    rw [hsame] at horder
    constructor
    · have := (horder.append_left (wired t h)).trans hi.order
      simpa [wiredOf, acceptedOf, hacc] using this
    · exact checkPendingRequests_idle o
  | done s₀ outcome before after halpine _ _ _ _ =>
    obtain ⟨horder, hacc⟩ := handleSendEnded_order (s := s₀) (t := t) outcome before after
    have hsame : s₀.pendingRequests t = s.pendingRequests t := by simp [pendingRequests, halpine]
    rw [hsame] at horder
    constructor
    · have := (horder.append_left (wired t h)).trans hi.order
      simpa [hacc] using this
    · exact checkPendingRequests_idle after

theorem Kept.step (hi : Kept t start h s) (hdid : Did t s input s' events)
    (hok : StepOk t h s input) : Kept t start (h ++ events) s' := by
  cases hdid with
  | quiet hquiet _ =>
    obtain ⟨hacc, hwired, hended, htold⟩ := hquiet.silent.lists
    have hpend : s'.pendingAck t = s.pendingAck t := hquiet.process.pendingAck
    refine ⟨hi.tabled.of_untouched hquiet.process, ?_, ?_, ?_, ?_, ?_, ?_, ?_, ?_⟩ <;>
      simp only [accepted_append, wired_append, ended_append, told_append, hacc, hwired, hended, htold,
        List.append_nil, hpend, hquiet.alpine, pendingRequests, nextNumber]
    · exact hi.order
    · exact hi.idle
    · exact hi.single
    · exact hi.told
    · exact hi.current
    · exact hi.numbers
    · exact hi.next
    · exact hi.bound
  | sent data hidle hpend halpine htabled hiff =>
    have hq := hi.idle hidle
    have hnumber : s.nextNumber t = ((s.alpine t).requestId + 1) % 2 ^ 64 := by
      simp [nextNumber, hq]
    have horder := hi.order
    have hsingle := hi.single
    rw [pendingRequests_none hq, List.append_nil] at horder
    rw [hidle] at hsingle
    rw [← hnumber] at halpine ⊢
    have hacc : accepted t (h ++ [QueueEvent.wired t ⟨s.nextNumber t, data⟩,
        .accepted t ⟨s.nextNumber t, data⟩]) = accepted t h ++ [⟨s.nextNumber t, data⟩] := by
      simp [acceptedOf]
    have hwired : wired t (h ++ [QueueEvent.wired t ⟨s.nextNumber t, data⟩,
        .accepted t ⟨s.nextNumber t, data⟩]) = wired t h ++ [⟨s.nextNumber t, data⟩] := by
      simp [wiredOf]
    constructor
    · exact htabled hi.tabled
    · rw [hacc, hwired, pendingRequests_none (by rw [halpine]; exact hq), horder, List.append_nil]
    · intro hidle'
      rw [hpend] at hidle'
      cases hidle'
    · rw [hwired, hpend]
      simpa [endedOf] using hsingle
    · rw [hwired]
      simpa [endedOf, toldOf] using hi.told_zip [⟨s.nextNumber t, data⟩]
    · intro _
      exact ⟨_, _, hwired, by rw [halpine]⟩
    · rw [hacc, List.length_append]
      exact hi.numbers_append data
    · have hnext := hi.next
      rw [hacc, List.length_append]
      simp only [nextNumber, halpine, hq, List.length_singleton]
      omega
    · rw [hacc, List.length_append]
      exact (hiff h).mp hok
  | queued data hbusy hprocess hid hqueue hnext hiff =>
    have hpend : s'.pendingAck t = s.pendingAck t := by
      rw [ReliableQueues.pendingAck, ReliableQueues.pendingAck, hprocess]
    have hacc : accepted t (h ++ [QueueEvent.accepted t ⟨s.nextNumber t, data⟩]) =
        accepted t h ++ [⟨s.nextNumber t, data⟩] := by
      simp [acceptedOf]
    have hwired : wired t (h ++ [QueueEvent.accepted t ⟨s.nextNumber t, data⟩]) = wired t h := by
      simp [wiredOf]
    constructor
    · rw [hprocess]
      exact hi.tabled
    · rw [hacc, hwired, hqueue, hi.order, List.append_assoc]
    · intro hidle
      rw [hpend, hbusy] at hidle
      cases hidle
    · rw [hwired, hpend]
      simpa [endedOf] using hi.single
    · rw [hwired]
      simpa [endedOf, toldOf] using hi.told
    · intro _
      rw [hwired, hid]
      exact hi.current hbusy
    · rw [hacc, List.length_append]
      exact hi.numbers_append data
    · have hnumber := hi.next
      rw [hacc, List.length_append, hnext, hnumber, List.length_singleton]
      omega
    · rw [hacc, List.length_append]
      exact (hiff h).mp hok
  | acknowledged s₀ o _ _ _ hbad => exact absurd hok (hbad h)
  | done s₀ outcome before after halpine hidle hbusy htabled hiff =>
    have hqueue := (hiff h).mp hok
    have hq : (s₀.alpine t).pendingIndex = none := by
      rw [halpine]
      exact pendingRequests_eq_nil_iff.mp hqueue
    have hbusy' := hbusy hi.tabled
    obtain ⟨earlier, request, hwired, hid, hlen, htold⟩ := hi.outstanding hbusy'
    have hsingle := hi.single
    rw [handleSendEnded_none hq, halpine]
    constructor
    · exact htabled hi.tabled
    · simpa [acceptedOf, wiredOf, pendingRequests_none hq, hqueue] using hi.order
    · exact fun _ => hq
    · rw [hbusy'] at hsingle
      simpa [wiredOf, endedOf, hidle] using hsingle
    · have hzip : (earlier.map (·.requestId) ++ [request.requestId]).zip (ended t h ++ [outcome]) =
          ReliableQueues.told t h ++ [(request.requestId, outcome)] := by
        rw [htold]
        exact List.zip_append (by rw [List.length_map, hlen])
      simpa [toldOf, wiredOf, endedOf, hwired, hid] using hzip.symm
    · intro hbusy''
      rw [hidle] at hbusy''
      cases hbusy''
    · simpa [acceptedOf] using hi.numbers
    · simpa [acceptedOf, nextNumber, halpine] using hi.next
    · simpa [acceptedOf] using hi.bound

/-- A step after which all is in order was a good one. -/
theorem Kept.ok_of_sound (hi : Kept t start h s) (hdid : Did t s input s' events)
    (hsound : Sound t (h ++ events) s') : StepOk t h s input := by
  cases hdid with
  | quiet _ hok => exact hok h hi.tabled
  | sent data hidle hpend halpine htabled hiff =>
    have hnumber : s.nextNumber t = ((s.alpine t).requestId + 1) % 2 ^ 64 := by
      simp [nextNumber, hi.idle hidle]
    rw [hiff h]
    apply hi.lt_of_nodup data
    rw [hnumber]
    simpa [acceptedOf] using hsound.distinct
  | queued data hbusy hprocess hid hqueue hnext hiff =>
    rw [hiff h]
    apply hi.lt_of_nodup data
    simpa [acceptedOf] using hsound.distinct
  | acknowledged s₀ o hbusy halpine hidle hbad =>
    -- one more is done, and the stack was not told
    obtain ⟨earlier, request, hwired, -, hlen, htold⟩ := hi.outstanding hbusy
    obtain ⟨hended', htold'⟩ := checkPendingRequests_lists (s := s₀) (t := t) o
    have hlength := congrArg List.length hsound.told
    simp [toldOf, endedOf, wiredOf, hended', htold', htold, hwired, hlen] at hlength
  | done s₀ outcome before after halpine hidle hbusy htabled hiff =>
    rw [hiff h, pendingRequests_eq_nil_iff]
    by_contra hwaits
    obtain ⟨index, hq⟩ := Option.ne_none_iff_exists'.mp hwaits
    have hq₀ : (s₀.alpine t).pendingIndex = some index := by rw [halpine, hq]
    obtain ⟨hended', htold'⟩ := handleSendEnded_some hidle hq₀ outcome before after
    obtain ⟨earlier, request, hwired, -, hlen, htold⟩ := hi.outstanding (hbusy hi.tabled)
    -- the stack was told the number of the request at the head of the queue
    have hpairs := hsound.told
    have hlen' : (earlier.map (·.requestId)).length = (ended t h).length := by
      rw [List.length_map, hlen]
    simp only [told_append, wired_append, ended_append, hended', htold', hwired, htold,
      List.map_append, List.append_assoc] at hpairs
    rw [List.zip_append hlen'] at hpairs
    have hsame : index.front.requestId = request.requestId := by
      simpa using List.append_cancel_left hpairs
    have hnodup := hi.sound.distinct
    have hqueue : s.pendingRequests t = index.pendingRequests := by simp [pendingRequests, hq]
    rw [hi.order, hwired, hqueue, front_popFront index] at hnodup
    simp [List.nodup_append, hsame] at hnodup

/-- With any writer, the requests go out in the order in which they were accepted and none waits
while none is outstanding, and all is in order after every step exactly if every step is a good
one. -/
theorem along_sound_iff (configured : Option Int) (requestIds : T → Nat) (t : T)
    (inputs : List (Input T)) :
    Ordered t (machine.run (new configured requestIds) inputs).2
        (machine.run (new configured requestIds) inputs).1 ∧
      (machine.Along (fun h s input => Sound t (h ++ (machine.step s input).2)
          (machine.step s input).1) [] (new configured requestIds) inputs ↔
        machine.Along (StepOk t) [] (new configured requestIds) inputs) := by
  constructor
  · have hnew : Ordered t [] (new configured requestIds) := ⟨List.Sublist.refl _, fun _ => rfl⟩
    have := Machine.run_invariant (M := machine) (I := Ordered t)
      (fun _ s input hi => hi.step (did_step t s input)) inputs hnew
    rwa [List.nil_append] at this
  · exact Machine.along_congr (I := Kept t (requestIds t))
      (fun _ s input hi hok => hi.step (did_step t s input) hok)
      (fun _ s input hi => ⟨hi.ok_of_sound (did_step t s input),
        fun hok => (hi.step (did_step t s input) hok).sound⟩) (kept_new configured requestIds)

end AnyWriter

/-! ## The code's writer -/

/-- Nothing was sent, so nothing waits. -/
structure Unused (s : ReliableQueues T) : Prop where
  idle : s.process.Idle
  queue : ∀ t, (s.alpine t).pendingIndex = none

omit [DecidableEq T] in
theorem Unused.pendingAck (hi : Unused s) (t : T) : s.pendingAck t = false := hi.idle.flag t

omit [DecidableEq T] in
theorem Unused.process (hi : Unused s) {process : Process T} (hidle : process.Idle) :
    Unused { s with process } := ⟨hidle, hi.queue⟩

theorem Unused.sendReliableData (hi : Unused s) (t : T) (data : List UInt8) (o : SendOutcome) :
    Unused (s.sendReliableData t data o).2.1 := by
  have hfails : (s.baseSendReliableData t data o).1 = false :=
    (s.process.sendReliablePacket_fails t data o).1
  unfold ReliableQueues.sendReliableData
  rw [if_pos (hi.pendingAck t)]
  dsimp only
  rw [if_pos hfails]
  exact hi.process (hi.idle.sendReliablePacket t data o)

theorem Unused.step (hi : Unused s) (input : Input T) : Unused (machine.step s input).1 := by
  cases input with
  | sendReliableData t data o => exact hi.sendReliableData t data o
  | acknowledgeTransfer t requestId o =>
    simp only [machine, acknowledgeTransfer, hi.pendingAck t, true_or, if_true]
    exact hi
  | dataAck t now before after =>
    simp only [machine, hi.idle.handleConnDataAck t now, notify]
    exact hi
  | setRecvSequenceNum t currSequenceNum =>
    exact hi.process (hi.idle.setRecvSequenceNum t currSequenceNum)
  | setPeerLocation t ipAddress port => exact hi.process (hi.idle.setPeerLocation t ipAddress port)
  | retry now entry draw before after =>
    obtain ⟨hidle, hevents⟩ := hi.idle.retry now entry draw
    simp only [machine, hevents, notify]
    exact hi.process hidle
  | muxSend data now ipAddress port draw =>
    exact hi.process (hi.idle.muxSend data now ipAddress port draw)
  | muxComplete now id => exact hi.process (hi.idle.muxComplete now id)

/-- While nothing is sent every step is a good one. -/
theorem Unused.stepOk (hi : Unused s) (t : T) (input : Input T) : StepOk t h s input := by
  have hempty : s.pendingRequests t = [] := pendingRequests_none (hi.queue t)
  cases input with
  | sendReliableData u data o =>
    intro hut hsent
    simp [hi.pendingAck t] at hsent
  | acknowledgeTransfer u requestId o =>
    intro hut hboth
    rw [hi.pendingAck t] at hboth
    cases hboth.1
  | dataAck u now before after => exact fun _ _ _ => hempty
  | setRecvSequenceNum u currSequenceNum => trivial
  | setPeerLocation u ipAddress port => trivial
  | retry now entry draw before after => exact fun _ _ _ => hempty
  | muxSend data now ipAddress port draw => trivial
  | muxComplete now id => trivial

/-- In every run of the code the requests go out in the order in which they were accepted, none
waits while none is outstanding, and all is in order after every step. -/
theorem along_queueSound (configured : Option Int) (requestIds : T → Nat) (t : T)
    (inputs : List (Input T)) :
    Ordered t (machine.run (new configured requestIds) inputs).2
        (machine.run (new configured requestIds) inputs).1 ∧
      machine.Along (fun h s input => Sound t (h ++ (machine.step s input).2)
        (machine.step s input).1) [] (new configured requestIds) inputs := by
  obtain ⟨hordered, hsound⟩ := along_sound_iff configured requestIds t inputs
  have hnew : Unused (new configured requestIds) := ⟨Process.idle_new configured, fun _ => rfl⟩
  exact ⟨hordered, hsound.mpr (Machine.run_along (I := fun _ s => Unused s)
    (fun _ _ input hi => hi.step input) (fun _ _ input hi => hi.stepOk t input) inputs hnew)⟩

end Runs

end Alpine.ReliableQueues
