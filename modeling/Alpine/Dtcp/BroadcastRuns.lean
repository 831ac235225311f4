import Alpine.Dtcp.Broadcast

/-!
# Runs of broadcasts

`Inv` says where a request id can be: with the send that drew it, with the manager, or nowhere any
more (`Ended`). It is kept by every step in which the counter, when it is written, is what was read
from it (`Counted`). With it no handle hears of a request that is not its own, that was completed or
that was cancelled, whether its requests complete or not (`along_addressed`).

A completion leaves its handle active, so what is asked of broadcasts holds along the runs without a
last packet (`along_sound`).
-/

namespace Alpine

open Lib

namespace Broadcasts

/-- The request ids given out so far. -/
def drawn (h : List BroadcastEvent) : List Nat :=
  h.filterMap fun
    | .requested _ requestId => some requestId
    | _ => none

/-- The handle's request is over. -/
def Ended (h : List BroadcastEvent) (handle requestId : Nat) : Prop :=
  .cancelled handle requestId ∈ h ∨
    ∃ totalSent duration, .completed handle requestId totalSent duration ∈ h

/-- A call that has the lock of a handle waits for the manager's, and the notification that has the
manager's waits for the handle's. -/
def Deadlock (s : Broadcasts) : Prop :=
  ∃ handle requestId x, s.completing = some (handle, requestId) ∧
    s.handles.find handle = some x ∧ x.lock.waitsForMgr = true

/-- What a report to a handle has to be. -/
structure Completion (h : List BroadcastEvent) (after : Broadcasts) (handle requestId : Nat)
    (duration : Timeval) : Prop where
  own : .requested handle requestId ∈ h
  once : ∀ handle' totalSent duration', .completed handle' requestId totalSent duration' ∉ h
  normal : duration.Normal
  nonNegative : duration.NonNegative
  inactive : ∀ x, after.handles.find handle = some x → x.broadcast.active = false

/-- The handle is told something about the request. -/
def Hears (events : List BroadcastEvent) (handle requestId : Nat) : Prop :=
  (∃ transportId, .packetSend handle requestId transportId ∈ events) ∨
    ∃ totalSent duration, .completed handle requestId totalSent duration ∈ events

/-- What is asked of a step after the events `h`. -/
structure Sound (sets : Nat → Option BroadcastSet) (h : List BroadcastEvent) (s : Broadcasts)
    (input : Input) : Prop where
  noDeadlock : ¬ (s.step sets input).1.Deadlock
  distinct : ∀ handle requestId,
    .requested handle requestId ∈ (s.step sets input).2 → requestId ∉ drawn h
  completion : ∀ handle requestId totalSent duration,
    .completed handle requestId totalSent duration ∈ (s.step sets input).2 →
      Completion h (s.step sets input).1 handle requestId duration
  /-- A request all of whose packets were sent is not left without a report. -/
  reported : ∀ requestId request,
    (s.step sets input).1.mgr.requestIdIndex.find requestId = some request →
    request.packetsSent = request.totalPackets →
    (s.step sets input).1.completing = some (request.requestor, requestId)
  silent : ∀ handle requestId, Hears (s.step sets input).2 handle requestId →
    .cancelled handle requestId ∉ h ∧ .destroyed handle ∉ h

/-! ## Conditions -/

/-- When the counter is written it still is what was read from it, and some id has not been given
out yet. -/
def Counted (h : List BroadcastEvent) (s : Broadcasts) : Input → Prop
  | .call handle (.proceed _ _) =>
    match s.handles.find handle with
    | some ⟨_, .write (.send _ (.writeId currRequestId))⟩ =>
      currRequestId = s.mgr.currRequestId ∧ (drawn h).length < 2 ^ 64
    | _ => True
  | _ => True

/-- The notification is the last one of its request. -/
def IsLast (s : Broadcasts) : Input → Prop
  | .packetSent requestId _ =>
    match s.mgr.requestIdIndex.find requestId with
    | some request => (request.packetsSent + 1) % 2 ^ 64 = request.totalPackets
    | none => False
  | _ => False

theorem Counted.writeId {h : List BroadcastEvent} {s : Broadcasts} {handle : Nat} {now : Timeval}
    {delegated : Bool} {x : Handle} {destinations : BroadcastSet} {currRequestId : Nat}
    (hcounted : Counted h s (.call handle (.proceed now delegated)))
    (hfind : s.handles.find handle = some x)
    (hlock : x.lock = .write (.send destinations (.writeId currRequestId))) :
    currRequestId = s.mgr.currRequestId ∧ (drawn h).length < 2 ^ 64 := by
  obtain ⟨broadcast, lock⟩ := x
  cases hlock
  unfold Counted at hcounted
  dsimp only at hcounted
  rwa [hfind] at hcounted

/-! ## The invariant -/

/-- What holds at a stage of a send. -/
def AtStage (h : List BroadcastEvent) (mgr : BroadcastMgr) (handle : Nat) (x : Handle) :
    SendStage → Prop
  | .readId | .writeId _ => True
  | .index requestId => x.broadcast.requestId = requestId ∧ .requested handle requestId ∈ h ∧
      mgr.requestIdIndex.find requestId = none ∧ ¬ Ended h handle requestId
  | .start requestId => x.broadcast.requestId = requestId ∧ .requested handle requestId ∈ h

/-- What holds of a handle. -/
structure HandleOk (h : List BroadcastEvent) (mgr : BroadcastMgr) (handle : Nat) (x : Handle) :
    Prop where
  sending : ∀ destinations stage, x.lock = .write (.send destinations stage) →
    x.broadcast.active = false ∧ destinations.size ≠ 0 ∧ AtStage h mgr handle x stage
  cancelling : x.lock = .write .cancel ∨ x.lock = .write .destroy → x.broadcast.active = true
  active : x.broadcast.active = true → .requested handle x.broadcast.requestId ∈ h

/-- The handle has the request in progress. -/
def InProgress (x : Handle) (requestId : Nat) : Prop :=
  x.broadcast.requestId = requestId ∧ (x.broadcast.active = true ∨
    ∃ destinations, x.lock = .write (.send destinations (.start requestId)))

/-- What holds of a request that the manager has. -/
structure RequestOk (h : List BroadcastEvent) (s : Broadcasts) (requestId : Nat)
    (request : BroadcastRequest) : Prop where
  own : .requested request.requestor requestId ∈ h
  open' : ¬ Ended h request.requestor requestId
  handle : ∃ x, s.handles.find request.requestor = some x ∧ InProgress x requestId
  reported : request.packetsSent = request.totalPackets →
    s.completing = some (request.requestor, requestId)

structure Inv (h : List BroadcastEvent) (s : Broadcasts) : Prop where
  counter : s.mgr.currRequestId = (1 + (drawn h).length) % 2 ^ 64
  drawn : drawn h = (List.range (drawn h).length).map fun i => (1 + i) % 2 ^ 64
  owner : ∀ handle handle' requestId, .requested handle requestId ∈ h →
    .requested handle' requestId ∈ h → handle = handle'
  handles : ∀ handle x, s.handles.find handle = some x → HandleOk h s.mgr handle x
  requests : ∀ requestId request, s.mgr.requestIdIndex.find requestId = some request →
    RequestOk h s requestId request
  ended : ∀ handle requestId, Ended h handle requestId → .requested handle requestId ∈ h
  dead : ∀ handle, .destroyed handle ∈ h → s.handles.find handle = none ∧ handle < s.next
  unused : ∀ handle, s.next ≤ handle → s.handles.find handle = none
  completing : ∀ handle requestId, s.completing = some (handle, requestId) →
    ∃ request, s.mgr.requestIdIndex.find requestId = some request ∧ request.requestor = handle

theorem mem_drawn {h : List BroadcastEvent} {requestId : Nat} :
    requestId ∈ drawn h ↔ ∃ handle, .requested handle requestId ∈ h := by
  unfold drawn
  rw [List.mem_filterMap]
  constructor
  · rintro ⟨event, hmem, heq⟩
    cases event with
    | requested handle id =>
      cases heq
      exact ⟨handle, hmem⟩
    | _ => cases heq
  · rintro ⟨handle, hmem⟩
    exact ⟨_, hmem, rfl⟩

theorem inv_new : Inv [] new where
  counter := rfl
  drawn := rfl
  owner := by simp
  handles := by simp [new]
  requests := by simp [new, BroadcastMgr.new]
  ended := by simp [Ended]
  dead := by simp
  unused := by simp [new]
  completing := by simp [new]

/-! ## Steps without events -/

section Quiet

variable {h : List BroadcastEvent} {s : Broadcasts} {handle : Nat} {x : Handle}

theorem find_setHandle (s : Broadcasts) (handle : Nat) (x : Handle) (handle' : Nat) :
    (s.setHandle handle x).handles.find handle' =
      if handle' = handle then some x else s.handles.find handle' := UMap.find_assign _ _ _ _

/-- What is written to a handle does not bring one that is no more back. -/
theorem setHandle_none (hfind : s.handles.find handle = some x) {x' : Handle} {handle' : Nat}
    (hnone : s.handles.find handle' = none) :
    (s.setHandle handle x').handles.find handle' = none := by
  rw [find_setHandle, if_neg]
  · exact hnone
  · rintro rfl
    rw [hfind] at hnone
    cases hnone

/-- A handle may become what keeps its own conditions and its request in progress. -/
theorem Inv.setHandle (hi : Inv h s) (hfind : s.handles.find handle = some x) {x' : Handle}
    (hok : HandleOk h s.mgr handle x')
    (hkeep : ∀ requestId, InProgress x requestId → InProgress x' requestId) :
    Inv h (s.setHandle handle x') where
  counter := hi.counter
  drawn := hi.drawn
  owner := hi.owner
  handles := by
    intro handle' y hy
    rw [find_setHandle] at hy
    split at hy
    · next heq =>
      cases hy
      rw [heq]
      exact hok
    · exact hi.handles handle' y hy
  requests := by
    intro requestId request hr
    obtain ⟨hown, hopen, ⟨y, hy, hprog⟩, hrep⟩ := hi.requests requestId request hr
    refine ⟨hown, hopen, ?_, hrep⟩
    rw [find_setHandle]
    split
    · next heq =>
      rw [heq, hfind] at hy
      cases hy
      exact ⟨x', rfl, hkeep requestId hprog⟩
    · exact ⟨y, hy, hprog⟩
  ended := hi.ended
  dead := by
    intro handle' hdead
    obtain ⟨hnone, hlt⟩ := hi.dead handle' hdead
    exact ⟨setHandle_none hfind hnone, hlt⟩
  unused := fun handle' hle => setHandle_none hfind (hi.unused handle' hle)
  completing := hi.completing

/-- Only the lock changes, and not to that of a send. -/
theorem Inv.setLock (hi : Inv h s) (hfind : s.handles.find handle = some x) {lock : HandleLock}
    (hlock : ∀ destinations stage, lock ≠ .write (.send destinations stage))
    (hcancel : lock = .write .cancel ∨ lock = .write .destroy → x.broadcast.active = true)
    (hidle : ∀ destinations requestId, x.lock ≠ .write (.send destinations (.start requestId))) :
    Inv h (s.setHandle handle { x with lock }) := by
  refine hi.setHandle hfind ⟨?_, hcancel, (hi.handles _ _ hfind).active⟩ ?_
  · exact fun destinations stage heq => absurd heq (hlock destinations stage)
  · rintro requestId ⟨hid, hactive | ⟨destinations, hstart⟩⟩
    · exact ⟨hid, .inl hactive⟩
    · exact absurd hstart (hidle destinations requestId)

theorem Inv.construct (hi : Inv h s) (destinations : Nat) : Inv h (s.construct destinations) where
  counter := hi.counter
  drawn := hi.drawn
  owner := hi.owner
  handles := by
    intro handle x hx
    unfold Broadcasts.construct at hx
    rw [UMap.find_assign] at hx
    split at hx
    · cases hx
      exact ⟨(by simp), (by simp), (by simp [Broadcast.new])⟩
    · exact hi.handles handle x hx
  requests := by
    intro requestId request hr
    obtain ⟨hown, hopen, ⟨x, hx, hprog⟩, hrep⟩ := hi.requests requestId request hr
    refine ⟨hown, hopen, ⟨x, ?_, hprog⟩, hrep⟩
    unfold Broadcasts.construct
    rw [UMap.find_assign, if_neg]
    · exact hx
    · intro heq
      rw [hi.unused _ (Nat.le_of_eq heq.symm)] at hx
      cases hx
  ended := hi.ended
  dead := by
    intro handle hdead
    obtain ⟨hnone, hlt⟩ := hi.dead handle hdead
    unfold Broadcasts.construct
    rw [UMap.find_assign, if_neg (Nat.ne_of_lt hlt)]
    exact ⟨hnone, Nat.lt_succ_of_lt hlt⟩
  unused := by
    intro handle hle
    have hlt : s.next < handle := hle
    unfold Broadcasts.construct
    rw [UMap.find_assign, if_neg (Nat.ne_of_gt hlt)]
    exact hi.unused handle (Nat.le_of_lt hlt)
  completing := hi.completing

end Quiet

/-! ## Histories that grow -/

theorem drawn_append (h events : List BroadcastEvent) :
    drawn (h ++ events) = drawn h ++ drawn events := List.filterMap_append

theorem ended_append {h events : List BroadcastEvent} {handle requestId : Nat} :
    Ended (h ++ events) handle requestId ↔
      Ended h handle requestId ∨ Ended events handle requestId := by
  simp only [Ended, List.mem_append]
  constructor
  · rintro ((hc | hc) | ⟨n, d, hc | hc⟩)
    · exact .inl (.inl hc)
    · exact .inr (.inl hc)
    · exact .inl (.inr ⟨n, d, hc⟩)
    · exact .inr (.inr ⟨n, d, hc⟩)
  · rintro ((hc | ⟨n, d, hc⟩) | hc | ⟨n, d, hc⟩)
    · exact .inl (.inl hc)
    · exact .inr ⟨n, d, .inl hc⟩
    · exact .inl (.inr hc)
    · exact .inr ⟨n, d, .inr hc⟩

/-- A step leaves another handle as it is: an id that the handle is about to hand to the manager
stays unused. -/
theorem HandleOk.next {h h' : List BroadcastEvent} {mgr mgr' : BroadcastMgr} {handle : Nat}
    {x : Handle} (hok : HandleOk h mgr handle x) (hsub : ∀ event ∈ h, event ∈ h')
    (hindex : ∀ destinations requestId, x.lock = .write (.send destinations (.index requestId)) →
      .requested handle requestId ∈ h → mgr.requestIdIndex.find requestId = none →
      mgr'.requestIdIndex.find requestId = none ∧
        (Ended h' handle requestId → Ended h handle requestId)) :
    HandleOk h' mgr' handle x := by
  refine ⟨?_, hok.cancelling, fun hactive => hsub _ (hok.active hactive)⟩
  intro destinations stage hlock
  obtain ⟨hidle, hsize, hstage⟩ := hok.sending destinations stage hlock
  refine ⟨hidle, hsize, ?_⟩
  cases stage with
  | readId => trivial
  | writeId currRequestId => trivial
  | index requestId =>
    obtain ⟨hid, hreq, hnone, hopen⟩ := hstage
    obtain ⟨hnone', hback⟩ := hindex destinations requestId hlock hreq hnone
    exact ⟨hid, hsub _ hreq, hnone', fun hended => hopen (hback hended)⟩
  | start requestId => exact ⟨hstage.1, hsub _ hstage.2⟩

/-- A handle whose send has not come to its start has no request in progress. -/
theorem not_inProgress {h : List BroadcastEvent} {mgr : BroadcastMgr} {handle : Nat} {x : Handle}
    {destinations : BroadcastSet} {stage : SendStage} (hok : HandleOk h mgr handle x)
    (hlock : x.lock = .write (.send destinations stage)) (hstage : ∀ id, stage ≠ .start id)
    (requestId : Nat) : ¬ InProgress x requestId := by
  rintro ⟨-, hactive | ⟨destinations', hstart⟩⟩
  · rw [(hok.sending _ _ hlock).1] at hactive
    cases hactive
  · rw [hlock] at hstart
    cases hstart
    exact hstage requestId rfl

section Steps

variable {h : List BroadcastEvent} {s : Broadcasts} {handle : Nat} {x : Handle}

/-! ## The counter -/

/-- As long as it has not gone round, the counter shows an id that was not given out. -/
theorem Inv.fresh (hi : Inv h s) (hlen : (Broadcasts.drawn h).length < 2 ^ 64) :
    s.mgr.currRequestId ∉ Broadcasts.drawn h := by
  intro hmem
  rw [hi.drawn, hi.counter, List.mem_map] at hmem
  obtain ⟨i, hlt, heq⟩ := hmem
  have hlt := List.mem_range.mp hlt
  omega

theorem Inv.draw (hi : Inv h s) (hfind : s.handles.find handle = some x)
    {destinations : BroadcastSet}
    (hlock : x.lock = .write (.send destinations (.writeId s.mgr.currRequestId)))
    (hlen : (Broadcasts.drawn h).length < 2 ^ 64) :
    Inv (h ++ [BroadcastEvent.requested handle s.mgr.currRequestId])
      (Broadcasts.setHandle
        { s with mgr := { s.mgr with currRequestId := (s.mgr.currRequestId + 1) % 2 ^ 64 } } handle
        ⟨{ x.broadcast with requestId := s.mgr.currRequestId },
          .write (.send destinations (.index s.mgr.currRequestId))⟩) := by
  have hfresh := hi.fresh hlen
  have hnew : ∀ handle', .requested handle' s.mgr.currRequestId ∉ h :=
    fun handle' hmem => hfresh (mem_drawn.mpr ⟨handle', hmem⟩)
  have hidle := not_inProgress (hi.handles _ _ hfind) hlock (by simp)
  have hended : ∀ handle' requestId,
      Ended (h ++ [BroadcastEvent.requested handle s.mgr.currRequestId]) handle' requestId →
      Ended h handle' requestId := by
    intro handle' requestId hend
    rcases ended_append.mp hend with hend | hend
    · exact hend
    · simp [Ended] at hend
  have hlength :
      (Broadcasts.drawn (h ++ [BroadcastEvent.requested handle s.mgr.currRequestId])).length =
      (Broadcasts.drawn h).length + 1 := by
    rw [drawn_append, List.length_append]
    rfl
  refine ⟨?_, ?_, ?_, ?_, ?_, ?_, ?_, ?_, ?_⟩
  · show (s.mgr.currRequestId + 1) % 2 ^ 64 = _
    rw [hlength, hi.counter]
    omega
  · rw [hlength, drawn_append, List.range_succ, List.map_append, ← hi.drawn]
    show _ ++ [s.mgr.currRequestId] = _ ++ [_]
    rw [hi.counter]
  · intro handle₁ handle₂ requestId h₁ h₂
    rcases List.mem_append.mp h₁ with h₁ | h₁ <;> rcases List.mem_append.mp h₂ with h₂ | h₂
    · exact hi.owner _ _ _ h₁ h₂
    · cases List.mem_singleton.mp h₂
      exact absurd h₁ (hnew _)
    · cases List.mem_singleton.mp h₁
      exact absurd h₂ (hnew _)
    · cases List.mem_singleton.mp h₁
      cases List.mem_singleton.mp h₂
      rfl
  · intro handle' y hy
    rw [find_setHandle] at hy
    split at hy
    · next heq =>
      cases hy
      subst heq
      obtain ⟨hinactive, hsize, -⟩ := (hi.handles _ _ hfind).sending _ _ hlock
      refine ⟨?_, by simp, fun hactive => by rw [hinactive] at hactive; cases hactive⟩
      rintro destinations' stage hstage
      cases hstage
      refine ⟨hinactive, hsize, rfl, by simp, ?_, fun hend => hnew _ (hi.ended _ _ (hended _ _ hend))⟩
      show s.mgr.requestIdIndex.find s.mgr.currRequestId = none
      cases hr : s.mgr.requestIdIndex.find s.mgr.currRequestId with
      | none => rfl
      | some request => exact absurd (hi.requests _ _ hr).own (hnew _)
    · exact (hi.handles handle' y hy).next (fun _ => List.mem_append_left _)
        fun _ requestId _ _ hnone => ⟨hnone, hended _ _⟩
  · intro requestId request hr
    obtain ⟨hown, hopen, ⟨y, hy, hprog⟩, hrep⟩ := hi.requests requestId request hr
    refine ⟨List.mem_append_left _ hown, fun hend => hopen (hended _ _ hend), ⟨y, ?_, hprog⟩, hrep⟩
    rw [find_setHandle, if_neg]
    · exact hy
    · intro heq
      rw [heq] at hy
      have hy' : s.handles.find handle = some y := hy
      rw [hfind] at hy'
      cases hy'
      exact hidle requestId hprog
  · exact fun handle' requestId hend => List.mem_append_left _ (hi.ended _ _ (hended _ _ hend))
  · intro handle' hdead
    have hdead : .destroyed handle' ∈ h := by simpa using hdead
    obtain ⟨hnone, hlt⟩ := hi.dead handle' hdead
    exact ⟨setHandle_none hfind hnone, hlt⟩
  · exact fun handle' hle => setHandle_none hfind (hi.unused handle' hle)
  · exact hi.completing

/-- A step that draws no id keeps what is said of the ids. -/
theorem Inv.next (hi : Inv h s) {s' : Broadcasts} {events : List BroadcastEvent}
    (hcounter : s'.mgr.currRequestId = s.mgr.currRequestId)
    (hevents : ∀ handle requestId, .requested handle requestId ∉ events)
    (handles : ∀ handle x, s'.handles.find handle = some x → HandleOk (h ++ events) s'.mgr handle x)
    (requests : ∀ requestId request, s'.mgr.requestIdIndex.find requestId = some request →
      RequestOk (h ++ events) s' requestId request)
    (ended : ∀ handle requestId, Ended events handle requestId → .requested handle requestId ∈ h)
    (dead : ∀ handle, .destroyed handle ∈ h ++ events →
      s'.handles.find handle = none ∧ handle < s'.next)
    (unused : ∀ handle, s'.next ≤ handle → s'.handles.find handle = none)
    (completing : ∀ handle requestId, s'.completing = some (handle, requestId) →
      ∃ request, s'.mgr.requestIdIndex.find requestId = some request ∧
        request.requestor = handle) :
    Inv (h ++ events) s' := by
  have hnone : Broadcasts.drawn events = [] := by
    rw [List.eq_nil_iff_forall_not_mem]
    intro requestId hmem
    obtain ⟨handle, hreq⟩ := mem_drawn.mp hmem
    exact hevents handle requestId hreq
  have hdrawn : Broadcasts.drawn (h ++ events) = Broadcasts.drawn h := by
    rw [drawn_append, hnone, List.append_nil]
  have hback : ∀ {handle requestId}, .requested handle requestId ∈ h ++ events →
      .requested handle requestId ∈ h := by
    intro handle requestId hmem
    rcases List.mem_append.mp hmem with hmem | hmem
    · exact hmem
    · exact absurd hmem (hevents handle requestId)
  refine ⟨?_, ?_, fun _ _ _ h₁ h₂ => hi.owner _ _ _ (hback h₁) (hback h₂), handles, requests, ?_,
    dead, unused, completing⟩
  · rw [hdrawn, hcounter, hi.counter]
  · rw [hdrawn]
    exact hi.drawn
  · intro handle requestId hend
    refine List.mem_append_left _ ?_
    rcases ended_append.mp hend with hend | hend
    · exact hi.ended _ _ hend
    · exact ended _ _ hend

/-! ## The manager's index -/

/-- The send hands its request to the manager. -/
theorem Inv.indexRequest (hi : Inv h s) (hfind : s.handles.find handle = some x)
    {destinations : BroadcastSet} {requestId : Nat}
    (hlock : x.lock = .write (.send destinations (.index requestId)))
    (hfree : s.completing = none) :
    Inv h (Broadcasts.setHandle
      { s with mgr := s.mgr.indexRequest requestId handle destinations.size } handle
      { x with lock := .write (.send destinations (.start requestId)) }) := by
  obtain ⟨hidle, hsize, hid, hreq, hnone, hopen⟩ := (hi.handles _ _ hfind).sending _ _ hlock
  have hfindId : ∀ id, (s.mgr.indexRequest requestId handle destinations.size).requestIdIndex.find
      id = if id = requestId then some ⟨requestId, handle, destinations.size, 0⟩
        else s.mgr.requestIdIndex.find id := by
    intro id
    unfold BroadcastMgr.indexRequest
    rw [UMap.find_emplace]
    by_cases heq : id = requestId
    · subst heq
      rw [if_pos rfl, if_pos rfl, hnone]
      rfl
    · rw [if_neg heq, if_neg heq]
  have hresult : Inv (h ++ []) (Broadcasts.setHandle
      { s with mgr := s.mgr.indexRequest requestId handle destinations.size } handle
      { x with lock := .write (.send destinations (.start requestId)) }) :=
    hi.next rfl (by simp) ?_ ?_ (by simp [Ended]) ?_ ?_ ?_
  · rwa [List.append_nil] at hresult
  · intro handle' y hy
    rw [List.append_nil]
    rw [find_setHandle] at hy
    split at hy
    · next heq =>
      cases hy
      subst heq
      refine ⟨?_, by simp, fun hactive => by rw [hidle] at hactive; cases hactive⟩
      rintro destinations' stage hstage
      cases hstage
      exact ⟨hidle, hsize, hid, hreq⟩
    · next hne =>
      refine (hi.handles handle' y hy).next (fun _ hmem => hmem) ?_
      intro _ id _ hreq' hnone'
      refine ⟨?_, fun hend => hend⟩
      show (s.mgr.indexRequest requestId handle destinations.size).requestIdIndex.find id = none
      rw [hfindId, if_neg]
      · exact hnone'
      · rintro rfl
        exact hne (hi.owner _ _ _ hreq' hreq)
  · intro id request hr
    rw [List.append_nil]
    have hr : (s.mgr.indexRequest requestId handle destinations.size).requestIdIndex.find id =
      some request := hr
    rw [hfindId] at hr
    split at hr
    · next heq =>
      cases hr
      subst heq
      refine ⟨hreq, hopen, ⟨{ x with lock := .write (.send destinations (.start id)) }, ?_, hid,
        .inr ⟨destinations, rfl⟩⟩, fun hzero => ?_⟩
      · rw [find_setHandle, if_pos rfl]
      · exact absurd hzero.symm hsize
    · obtain ⟨hown, hopen', ⟨y, hy, hprog⟩, hrep⟩ := hi.requests id request hr
      refine ⟨hown, hopen', ⟨y, ?_, hprog⟩, hrep⟩
      rw [find_setHandle, if_neg]
      · exact hy
      · intro heq
        rw [heq, hfind] at hy
        cases hy
        exact not_inProgress (hi.handles _ _ hfind) hlock (by simp) id hprog
  · intro handle' hdead
    rw [List.append_nil] at hdead
    obtain ⟨hnone', hlt⟩ := hi.dead handle' hdead
    exact ⟨setHandle_none hfind hnone', hlt⟩
  · exact fun handle' hle => setHandle_none hfind (hi.unused handle' hle)
  · intro handle' id heq
    have heq : s.completing = some (handle', id) := heq
    rw [hfree] at heq
    cases heq

theorem find_cancel (m : BroadcastMgr) (requestId id : Nat) :
    (m.cancel requestId).2.requestIdIndex.find id =
      if id = requestId then none else m.requestIdIndex.find id := by
  unfold BroadcastMgr.cancel
  cases hf : m.requestIdIndex.find requestId with
  | none =>
    dsimp only
    split
    · next heq => rw [heq, hf]
    · rfl
  | some request => exact UMap.find_erase _ _ _

theorem cancel_counter (m : BroadcastMgr) (requestId : Nat) :
    (m.cancel requestId).2.currRequestId = m.currRequestId := by
  unfold BroadcastMgr.cancel
  split <;> rfl

/-- The handle's request is taken from the manager. -/
theorem Inv.mgrCancel (hi : Inv h s) (hfind : s.handles.find handle = some x)
    (hactive : x.broadcast.active = true) (hfree : s.completing = none) :
    Inv (h ++ (s.mgrCancel handle x).2) (s.mgrCancel handle x).1 := by
  have hown := (hi.handles _ _ hfind).active hactive
  refine hi.next (cancel_counter _ _) (by simp [Broadcasts.mgrCancel]) ?_ ?_ ?_ ?_ ?_ ?_
  · intro handle' y hy
    unfold Broadcasts.mgrCancel at hy
    rw [find_setHandle] at hy
    split at hy
    · cases hy
      exact ⟨(by simp), (by simp), (by simp)⟩
    · next hne =>
      refine (hi.handles handle' y hy).next (fun _ => List.mem_append_left _) ?_
      intro _ requestId _ _ hnone
      constructor
      · show (s.mgr.cancel x.broadcast.requestId).2.requestIdIndex.find requestId = none
        rw [find_cancel, hnone, ite_self]
      · intro hend
        rcases ended_append.mp hend with hend | hend
        · exact hend
        · simp [Broadcasts.mgrCancel, Ended, hne] at hend
  · intro requestId request hr
    have hr : (s.mgr.cancel x.broadcast.requestId).2.requestIdIndex.find requestId =
      some request := hr
    rw [find_cancel] at hr
    split at hr
    · cases hr
    · next hne =>
      obtain ⟨hreq, hopen, ⟨y, hy, hprog⟩, hrep⟩ := hi.requests requestId request hr
      have hother : request.requestor ≠ handle := by
        intro heq
        rw [heq, hfind] at hy
        cases hy
        exact hne hprog.1.symm
      refine ⟨List.mem_append_left _ hreq, fun hend => ?_, ⟨y, ?_, hprog⟩, hrep⟩
      · rcases ended_append.mp hend with hend | hend
        · exact hopen hend
        · simp [Broadcasts.mgrCancel, Ended, hother] at hend
      · unfold Broadcasts.mgrCancel
        rw [find_setHandle, if_neg hother]
        exact hy
  · intro handle' requestId hend
    have heq : handle' = handle ∧ requestId = x.broadcast.requestId := by
      simpa [Broadcasts.mgrCancel, Ended] using hend
    rw [heq.1, heq.2]
    exact hown
  · intro handle' hdead
    have hdead : .destroyed handle' ∈ h := by simpa [Broadcasts.mgrCancel] using hdead
    obtain ⟨hnone, hlt⟩ := hi.dead handle' hdead
    exact ⟨setHandle_none hfind hnone, hlt⟩
  · exact fun handle' hle => setHandle_none hfind (hi.unused handle' hle)
  · intro handle' requestId heq
    have heq : s.completing = some (handle', requestId) := heq
    rw [hfree] at heq
    cases heq

/-- A handle that is idle has no request, and may go. -/
theorem Inv.eraseHandle (hi : Inv h s) (hfind : s.handles.find handle = some x)
    (hidle : x.broadcast.active = false) (hlock : x.lock = .free) :
    Inv (h ++ [BroadcastEvent.destroyed handle]) { s with handles := s.handles.erase handle } := by
  refine hi.next rfl (by simp) ?_ ?_ (by simp [Ended]) ?_ ?_ hi.completing
  · intro handle' y hy
    rw [UMap.find_erase] at hy
    split at hy
    · cases hy
    · refine (hi.handles handle' y hy).next (fun _ => List.mem_append_left _) ?_
      refine fun _ requestId _ _ hnone => ⟨hnone, fun hend => ?_⟩
      rcases ended_append.mp hend with hend | hend
      · exact hend
      · simp [Ended] at hend
  · intro requestId request hr
    obtain ⟨hreq, hopen, ⟨y, hy, hprog⟩, hrep⟩ := hi.requests requestId request hr
    refine ⟨List.mem_append_left _ hreq, fun hend => ?_, ⟨y, ?_, hprog⟩, hrep⟩
    · rcases ended_append.mp hend with hend | hend
      · exact hopen hend
      · simp [Ended] at hend
    · rw [UMap.find_erase, if_neg]
      · exact hy
      · intro heq
        rw [heq, hfind] at hy
        cases hy
        obtain ⟨-, hactive | ⟨destinations, hstart⟩⟩ := hprog
        · rw [hidle] at hactive
          cases hactive
        · rw [hlock] at hstart
          cases hstart
  · intro handle' hdead
    rw [UMap.find_erase]
    rcases List.mem_append.mp hdead with hdead | hdead
    · obtain ⟨hnone, hlt⟩ := hi.dead handle' hdead
      rw [hnone, ite_self]
      exact ⟨rfl, hlt⟩
    · cases List.mem_singleton.mp hdead
      refine ⟨if_pos rfl, Nat.lt_of_not_le fun hle => ?_⟩
      rw [hi.unused handle hle] at hfind
      cases hfind
  · intro handle' hle
    rw [UMap.find_erase, hi.unused handle' hle, ite_self]

/-! ## Notifications -/

theorem Inv.packetSent (hi : Inv h s) (requestId transportId : Nat) :
    Inv (h ++ (s.packetSent requestId transportId).2) (s.packetSent requestId transportId).1 := by
  unfold Broadcasts.packetSent
  split
  · rwa [List.append_nil]
  next hwritable =>
  have hfree : s.completing = none := by
    cases hc : s.completing with
    | none => rfl
    | some pair => simp [mgrWritable, hc] at hwritable
  cases hf : s.mgr.requestIdIndex.find requestId with
  | none => rwa [List.append_nil]
  | some request =>
    dsimp only
    have hquiet : ∀ (handle' id : Nat), ¬ Ended (if s.notifies request.requestor = true then
        [BroadcastEvent.packetSend request.requestor requestId transportId] else []) handle' id := by
      intro handle' id
      split <;> simp [Ended]
    have hback : ∀ handle' id, Ended (h ++ if s.notifies request.requestor = true then
        [BroadcastEvent.packetSend request.requestor requestId transportId] else []) handle' id →
        Ended h handle' id := by
      intro handle' id hend
      rcases ended_append.mp hend with hend | hend
      · exact hend
      · exact absurd hend (hquiet handle' id)
    refine hi.next rfl ?_ ?_ ?_ (fun _ _ hend => absurd hend (hquiet _ _)) ?_ hi.unused ?_
    · intro handle' id
      split <;> simp
    · intro handle' y hy
      refine (hi.handles handle' y hy).next (fun _ => List.mem_append_left _) ?_
      intro _ id _ _ hnone
      refine ⟨?_, hback _ _⟩
      rw [UMap.find_assign, if_neg]
      · exact hnone
      · rintro rfl
        rw [hf] at hnone
        cases hnone
    · intro id request' hr
      rw [UMap.find_assign] at hr
      split at hr
      · next heq =>
        cases hr
        subst heq
        obtain ⟨hown, hopen, hhandle, -⟩ := hi.requests id request hf
        refine ⟨List.mem_append_left _ hown, fun hend => hopen (hback _ _ hend), hhandle, ?_⟩
        exact fun hall => if_pos hall
      · next hne =>
        obtain ⟨hown, hopen, hhandle, hrep⟩ := hi.requests id request' hr
        refine ⟨List.mem_append_left _ hown, fun hend => hopen (hback _ _ hend), hhandle, ?_⟩
        intro hall
        rw [hfree] at hrep
        cases hrep hall
    · intro handle' hdead
      refine hi.dead handle' ?_
      rcases List.mem_append.mp hdead with hdead | hdead
      · exact hdead
      · split at hdead <;> simp at hdead
    · intro handle' id heq
      split at heq
      · cases heq
        refine ⟨{ request with packetsSent := (request.packetsSent + 1) % 2 ^ 64 }, ?_, rfl⟩
        rw [UMap.find_assign, if_pos rfl]
      · cases heq

theorem Inv.broadcastComplete (hi : Inv h s) (now : Timeval) :
    Inv (h ++ (s.broadcastComplete now).2) (s.broadcastComplete now).1 := by
  unfold Broadcasts.broadcastComplete
  split
  · rwa [List.append_nil]
  next handle requestId hcompleting =>
  split
  · next x request hfind hf =>
    split
    · rwa [List.append_nil]
    dsimp only
    obtain ⟨request', hf', hrequestor⟩ := hi.completing handle requestId hcompleting
    rw [hf] at hf'
    cases hf'
    obtain ⟨hown, hopen, -, -⟩ := hi.requests requestId request hf
    refine hi.next rfl (by simp) ?_ ?_ ?_ ?_ hi.unused (by simp)
    · intro handle' y hy
      refine (hi.handles handle' y hy).next (fun _ => List.mem_append_left _) ?_
      intro _ id _ _ hnone
      constructor
      · rw [UMap.find_erase, hnone, ite_self]
      · intro hend
        rcases ended_append.mp hend with hend | hend
        · exact hend
        · have heq : handle' = handle ∧ id = requestId := by simpa [Ended] using hend
          rw [heq.2, hf] at hnone
          cases hnone
    · intro id request' hr
      rw [UMap.find_erase] at hr
      split at hr
      · cases hr
      · next hne =>
        obtain ⟨hown', hopen', hhandle, hrep⟩ := hi.requests id request' hr
        refine ⟨List.mem_append_left _ hown', fun hend => ?_, hhandle, fun hall => ?_⟩
        · rcases ended_append.mp hend with hend | hend
          · exact hopen' hend
          · have heq : request'.requestor = handle ∧ id = requestId := by simpa [Ended] using hend
            exact hne heq.2
        · have hboth := hrep hall
          rw [hcompleting] at hboth
          cases hboth
          exact absurd rfl hne
    · intro handle' id hend
      have heq : handle' = handle ∧ id = requestId := by simpa [Ended] using hend
      rw [heq.1, heq.2, ← hrequestor]
      exact hown
    · intro handle' hdead
      exact hi.dead handle' (by simpa using hdead)
  · rwa [List.append_nil]

end Steps

/-! ## Steps -/

section Step

variable {sets : Nat → Option BroadcastSet} {h : List BroadcastEvent} {s : Broadcasts}
  {handle : Nat} {x : Handle}

theorem completing_of_writable (hwritable : ¬ s.mgrWritable = false) : s.completing = none := by
  cases hc : s.completing with
  | none => rfl
  | some pair => simp [mgrWritable, hc] at hwritable

theorem Inv.proceedSend (hi : Inv h s) (hfind : s.handles.find handle = some x)
    {destinations : BroadcastSet} {stage : SendStage}
    (hlock : x.lock = .write (.send destinations stage)) (now : Timeval) (delegated : Bool)
    (hcounted : ∀ currRequestId, stage = .writeId currRequestId →
      currRequestId = s.mgr.currRequestId ∧ (Broadcasts.drawn h).length < 2 ^ 64) :
    Inv (h ++ (s.proceedSend handle x destinations now delegated stage).2)
      (s.proceedSend handle x destinations now delegated stage).1 := by
  have hok := hi.handles _ _ hfind
  obtain ⟨hidle, hsize, hstage⟩ := hok.sending _ _ hlock
  cases stage with
  | readId =>
    unfold Broadcasts.proceedSend
    dsimp only
    split
    · rwa [List.append_nil]
    · rw [List.append_nil]
      refine hi.setHandle hfind ⟨?_, by simp, hok.active⟩ fun requestId hprog => ?_
      · rintro destinations' stage heq
        cases heq
        exact ⟨hidle, hsize, trivial⟩
      · exact absurd hprog (not_inProgress hok hlock (by simp) requestId)
  | writeId currRequestId =>
    obtain ⟨rfl, hlen⟩ := hcounted currRequestId rfl
    exact hi.draw hfind hlock hlen
  | index requestId =>
    unfold Broadcasts.proceedSend
    dsimp only
    split
    · rwa [List.append_nil]
    next hwritable =>
    split
    · rw [List.append_nil]
      exact hi.setLock hfind (by simp) (by simp) (by simp [hlock])
    · rw [List.append_nil]
      exact hi.indexRequest hfind hlock (completing_of_writable hwritable)
  | start requestId =>
    unfold Broadcasts.proceedSend
    rw [List.append_nil]
    refine hi.setHandle hfind ⟨by simp, by simp, fun _ => ?_⟩ fun id hprog => ⟨hprog.1, .inl rfl⟩
    show .requested handle x.broadcast.requestId ∈ h
    rw [hstage.1]
    exact hstage.2

theorem Inv.proceed (hi : Inv h s) (hfind : s.handles.find handle = some x) (now : Timeval)
    (delegated : Bool) (hcounted : ∀ destinations currRequestId,
      x.lock = .write (.send destinations (.writeId currRequestId)) →
      currRequestId = s.mgr.currRequestId ∧ (Broadcasts.drawn h).length < 2 ^ 64) :
    Inv (h ++ (s.proceed handle x now delegated).2) (s.proceed handle x now delegated).1 := by
  have hok := hi.handles _ _ hfind
  unfold Broadcasts.proceed
  split
  · rwa [List.append_nil]
  · rwa [List.append_nil]
  · next destinations stage hlock =>
    exact hi.proceedSend hfind hlock now delegated
      fun currRequestId heq => hcounted destinations currRequestId (heq ▸ hlock)
  · next hlock =>
    split
    · rwa [List.append_nil]
    · next hwritable =>
      exact hi.mgrCancel hfind (hok.cancelling (.inl hlock)) (completing_of_writable hwritable)
  · next hlock =>
    split
    · rwa [List.append_nil]
    · next hwritable =>
      have hcancel := hi.mgrCancel hfind (hok.cancelling (.inr hlock))
        (completing_of_writable hwritable)
      dsimp only
      rw [← List.append_assoc]
      refine hcancel.eraseHandle (x := ⟨{ x.broadcast with active := false }, .free⟩) ?_ rfl rfl
      unfold Broadcasts.mgrCancel
      rw [find_setHandle, if_pos rfl]

theorem Inv.callHandle (hi : Inv h s) (hfind : s.handles.find handle = some x) (call : HandleCall)
    (hcounted : ∀ now delegated destinations currRequestId, call = .proceed now delegated →
      x.lock = .write (.send destinations (.writeId currRequestId)) →
      currRequestId = s.mgr.currRequestId ∧ (Broadcasts.drawn h).length < 2 ^ 64) :
    Inv (h ++ (s.callHandle sets handle x call).2) (s.callHandle sets handle x call).1 := by
  have hok := hi.handles _ _ hfind
  have hstay : Inv (h ++ []) s := by rwa [List.append_nil]
  -- from a lock that is free or read under, any lock but a send's may be taken
  have hfree : ∀ {lock : HandleLock}, (∀ call, x.lock ≠ .write call) →
      (∀ destinations stage, lock ≠ .write (.send destinations stage)) →
      (lock = .write .cancel ∨ lock = .write .destroy → x.broadcast.active = true) →
      Inv (h ++ []) (s.setHandle handle { x with lock }) := by
    intro lock hx hsend hcancel
    rw [List.append_nil]
    exact hi.setLock hfind hsend hcancel fun _ _ => hx _
  cases call with
  | getStatus =>
    unfold Broadcasts.callHandle Broadcasts.getStatus
    dsimp only
    split
    · exact hstay
    split
    · next hlock => exact hfree (by simp [hlock]) (by simp) (by simp)
    · next hlock => exact hfree (by simp [hlock]) (by simp) (by simp)
    · exact hstay
  | proceed now delegated =>
    exact hi.proceed hfind now delegated fun destinations currRequestId =>
      hcounted now delegated destinations currRequestId rfl
  | packetsSent =>
    unfold Broadcasts.callHandle Broadcasts.packetsSent
    dsimp only
    split
    · exact hstay
    split
    · next hlock => exact hfree (by simp [hlock]) (by simp) (by simp)
    · next hlock => exact hfree (by simp [hlock]) (by simp) (by simp)
    · exact hstay
  | sendPacket =>
    unfold Broadcasts.callHandle Broadcasts.sendPacket
    dsimp only
    split
    · exact hstay
    next hlock =>
    split
    · exact hstay
    next hidle =>
    split
    · exact hstay
    next destinations _ =>
    split
    · exact hstay
    next hsize =>
    rw [List.append_nil]
    have hlock : x.lock = .free := not_not.mp hlock
    refine hi.setHandle hfind ⟨?_, by simp, hok.active⟩ ?_
    · rintro destinations' stage heq
      cases heq
      exact ⟨by simpa using hidle, hsize, trivial⟩
    · rintro requestId ⟨-, hactive | ⟨_, hstart⟩⟩
      · exact absurd hactive hidle
      · rw [hlock] at hstart
        cases hstart
  | cancel =>
    unfold Broadcasts.callHandle Broadcasts.cancel
    dsimp only
    split
    · exact hstay
    next hlock =>
    split
    · exact hstay
    · next hactive => exact hfree (by simp [not_not.mp hlock]) (by simp) (by simpa using hactive)
  | destroy =>
    unfold Broadcasts.callHandle Broadcasts.destroy
    dsimp only
    split
    · exact hstay
    next hlock =>
    split
    · next hidle => exact hi.eraseHandle hfind hidle (not_not.mp hlock)
    · next hactive => exact hfree (by simp [not_not.mp hlock]) (by simp) (by simpa using hactive)
  | packetSendNotifications used =>
    unfold Broadcasts.callHandle Broadcasts.packetSendNotifications
    dsimp only
    split
    · exact hstay
    next hlock =>
    rw [List.append_nil]
    refine hi.setHandle hfind ⟨?_, hok.cancelling, hok.active⟩ fun _ hprog => hprog
    intro destinations stage heq
    rw [not_not.mp hlock] at heq
    cases heq

theorem Inv.step (hi : Inv h s) {input : Input} (hcounted : Counted h s input) :
    Inv (h ++ (s.step sets input).2) (s.step sets input).1 := by
  cases input with
  | construct destinations =>
    show Inv (h ++ []) _
    rw [List.append_nil]
    exact hi.construct destinations
  | call handle call =>
    unfold Broadcasts.step
    dsimp only
    cases hfind : s.handles.find handle with
    | none => rwa [List.append_nil]
    | some x =>
      refine hi.callHandle hfind call fun now delegated destinations currRequestId heq hlock => ?_
      subst heq
      exact hcounted.writeId hfind hlock
  | packetSent requestId transportId => exact hi.packetSent requestId transportId
  | broadcastComplete now => exact hi.broadcastComplete now

/-! ## What handles hear -/

/-- A call on a handle tells no handle anything, and draws an id only when it writes the counter. -/
theorem callHandle_events (s : Broadcasts) (handle : Nat) (x : Handle) (call : HandleCall) :
    (∀ handle' requestId, ¬ Hears (s.callHandle sets handle x call).2 handle' requestId) ∧
    ∀ handle' requestId, .requested handle' requestId ∈ (s.callHandle sets handle x call).2 →
      ∃ now delegated destinations, call = .proceed now delegated ∧
        x.lock = .write (.send destinations (.writeId requestId)) := by
  cases call with
  | proceed now delegated =>
    unfold Broadcasts.callHandle Broadcasts.proceed
    dsimp only
    split
    · simp [Hears]
    · simp [Hears]
    · next destinations stage hlock =>
      cases stage with
      | writeId currRequestId => simp [Broadcasts.proceedSend, Hears, hlock]
      | readId =>
        unfold Broadcasts.proceedSend
        dsimp only
        split <;> simp [Hears]
      | index requestId =>
        unfold Broadcasts.proceedSend
        dsimp only
        split
        · simp [Hears]
        split <;> simp [Hears]
      | start requestId => simp [Broadcasts.proceedSend, Hears]
    · split <;> simp [Broadcasts.mgrCancel, Hears]
    · split <;> simp [Broadcasts.mgrCancel, Hears]
  | destroy =>
    unfold Broadcasts.callHandle Broadcasts.destroy
    dsimp only
    split
    · simp [Hears]
    split <;> simp [Hears]
  | getStatus => simp [Broadcasts.callHandle, Hears]
  | packetsSent => simp [Broadcasts.callHandle, Hears]
  | sendPacket =>
    unfold Broadcasts.callHandle
    dsimp only
    split <;> simp [Hears]
  | cancel =>
    unfold Broadcasts.callHandle
    dsimp only
    split <;> simp [Hears]
  | packetSendNotifications used =>
    unfold Broadcasts.callHandle
    dsimp only
    split <;> simp [Hears]

/-- A handle hears only of requests of its own that the manager has. -/
theorem Inv.hears (hi : Inv h s) {input : Input} {requestId : Nat}
    (hhears : Hears (s.step sets input).2 handle requestId) :
    ∃ request, s.mgr.requestIdIndex.find requestId = some request ∧
      request.requestor = handle := by
  cases input with
  | construct destinations => simp [Broadcasts.step, Hears] at hhears
  | call handle' call =>
    unfold Broadcasts.step at hhears
    dsimp only at hhears
    split at hhears
    · simp [Hears] at hhears
    · next x _ => exact absurd hhears ((callHandle_events s handle' x call).1 _ _)
  | packetSent id transportId =>
    have hhears : Hears (s.packetSent id transportId).2 handle requestId := hhears
    unfold Broadcasts.packetSent at hhears
    split at hhears
    · simp [Hears] at hhears
    split at hhears
    · simp [Hears] at hhears
    · next request hf =>
      dsimp only at hhears
      split at hhears
      · have heq : handle = request.requestor ∧ requestId = id := by simpa [Hears] using hhears
        exact ⟨request, by rw [heq.2, hf], heq.1.symm⟩
      · simp [Hears] at hhears
  | broadcastComplete now =>
    have hhears : Hears (s.broadcastComplete now).2 handle requestId := hhears
    unfold Broadcasts.broadcastComplete at hhears
    split at hhears
    · simp [Hears] at hhears
    next handle' id hcompleting =>
    split at hhears
    · split at hhears
      · simp [Hears] at hhears
      · have heq : handle = handle' ∧ requestId = id := by simpa [Hears] using hhears
        obtain ⟨request, hf, hrequestor⟩ := hi.completing _ _ hcompleting
        exact ⟨request, by rw [heq.2, hf], by rw [heq.1, hrequestor]⟩
    · simp [Hears] at hhears

/-- A step gives out a new id when the counter was not touched between its two halves. -/
theorem Inv.distinct (hi : Inv h s) {input : Input} (hcounted : Counted h s input) {requestId : Nat}
    (hreq : .requested handle requestId ∈ (s.step sets input).2) :
    requestId ∉ Broadcasts.drawn h := by
  cases input with
  | construct destinations => simp [Broadcasts.step] at hreq
  | call handle' call =>
    unfold Broadcasts.step at hreq
    dsimp only at hreq
    split at hreq
    · simp at hreq
    · next x hfind =>
      obtain ⟨now, delegated, destinations, rfl, hlock⟩ :=
        (callHandle_events s handle' x call).2 _ _ hreq
      obtain ⟨heq, hlen⟩ := hcounted.writeId hfind hlock
      rw [heq]
      exact hi.fresh hlen
  | packetSent id transportId =>
    have hreq : .requested handle requestId ∈ (s.packetSent id transportId).2 := hreq
    unfold Broadcasts.packetSent at hreq
    split at hreq
    · simp at hreq
    split at hreq
    · simp at hreq
    · dsimp only at hreq
      split at hreq <;> simp at hreq
  | broadcastComplete now =>
    have hreq : .requested handle requestId ∈ (s.broadcastComplete now).2 := hreq
    unfold Broadcasts.broadcastComplete at hreq
    split at hreq
    · simp at hreq
    split at hreq
    · split at hreq <;> simp at hreq
    · simp at hreq

/-! ## Runs -/

/-- What holds of a step whether requests complete or not: a new id is new, and what a handle hears
is about a request of its own that is not over. -/
structure Addressed (sets : Nat → Option BroadcastSet) (h : List BroadcastEvent) (s : Broadcasts)
    (input : Input) : Prop where
  distinct : ∀ handle requestId,
    .requested handle requestId ∈ (s.step sets input).2 → requestId ∉ Broadcasts.drawn h
  own : ∀ handle requestId, Hears (s.step sets input).2 handle requestId →
    .requested handle requestId ∈ h
  open' : ∀ handle requestId, Hears (s.step sets input).2 handle requestId →
    ∀ handle', ¬ Ended h handle' requestId
  alive : ∀ handle requestId, Hears (s.step sets input).2 handle requestId →
    .destroyed handle ∉ h
  reported : ∀ requestId request,
    (s.step sets input).1.mgr.requestIdIndex.find requestId = some request →
    request.packetsSent = request.totalPackets →
    (s.step sets input).1.completing = some (request.requestor, requestId)

theorem Inv.addressed (hi : Inv h s) {input : Input} (hcounted : Counted h s input) :
    Addressed sets h s input where
  distinct _ _ := hi.distinct hcounted
  own handle requestId hhears := by
    obtain ⟨request, hf, rfl⟩ := hi.hears hhears
    exact (hi.requests _ _ hf).own
  open' handle requestId hhears handle' hend := by
    obtain ⟨request, hf, rfl⟩ := hi.hears hhears
    have hrequest := hi.requests _ _ hf
    rw [hi.owner _ _ _ (hi.ended _ _ hend) hrequest.own] at hend
    exact hrequest.open' hend
  alive handle requestId hhears hdead := by
    obtain ⟨request, hf, rfl⟩ := hi.hears hhears
    obtain ⟨x, hfind, -⟩ := (hi.requests _ _ hf).handle
    rw [(hi.dead _ hdead).1] at hfind
    cases hfind
  reported requestId request hf := ((hi.step hcounted).requests requestId request hf).reported

theorem callHandle_completing (s : Broadcasts) (handle : Nat) (x : Handle) (call : HandleCall) :
    (s.callHandle sets handle x call).1.completing = s.completing := by
  cases call with
  | proceed now delegated =>
    unfold Broadcasts.callHandle Broadcasts.proceed
    dsimp only
    split
    · rfl
    · rfl
    · next stage _ =>
      cases stage with
      | writeId currRequestId => rfl
      | start requestId => rfl
      | readId =>
        unfold Broadcasts.proceedSend
        dsimp only
        split <;> rfl
      | index requestId =>
        unfold Broadcasts.proceedSend
        dsimp only
        split
        · rfl
        split <;> rfl
    · split <;> rfl
    · split <;> rfl
  | destroy =>
    unfold Broadcasts.callHandle Broadcasts.destroy
    dsimp only
    split
    · rfl
    split <;> rfl
  | getStatus =>
    unfold Broadcasts.callHandle Broadcasts.getStatus
    dsimp only
    split
    · rfl
    split <;> rfl
  | packetsSent =>
    unfold Broadcasts.callHandle Broadcasts.packetsSent
    dsimp only
    split
    · rfl
    split <;> rfl
  | sendPacket =>
    unfold Broadcasts.callHandle Broadcasts.sendPacket
    dsimp only
    split
    · rfl
    split
    · rfl
    split
    · rfl
    split <;> rfl
  | cancel =>
    unfold Broadcasts.callHandle Broadcasts.cancel
    dsimp only
    split
    · rfl
    split <;> rfl
  | packetSendNotifications used =>
    unfold Broadcasts.callHandle
    dsimp only
    split <;> rfl

/-- Without a last packet no notification is left with the manager's lock. -/
theorem step_completing {input : Input} (hfree : s.completing = none) (hlast : ¬ IsLast s input) :
    (s.step sets input).1.completing = none := by
  cases input with
  | construct destinations => exact hfree
  | call handle call =>
    unfold Broadcasts.step
    dsimp only
    split
    · exact hfree
    · rw [callHandle_completing]
      exact hfree
  | packetSent requestId transportId =>
    show (s.packetSent requestId transportId).1.completing = none
    unfold Broadcasts.packetSent
    split
    · exact hfree
    split
    · exact hfree
    · next request hf =>
      refine if_neg fun hall => hlast ?_
      unfold IsLast
      dsimp only
      rwa [hf]
  | broadcastComplete now =>
    show (s.broadcastComplete now).1.completing = none
    unfold Broadcasts.broadcastComplete
    rw [hfree]
    exact hfree

theorem Inv.sound (hi : Inv h s) (hfree : s.completing = none) {input : Input}
    (hcounted : Counted h s input) (hlast : ¬ IsLast s input) : Sound sets h s input where
  noDeadlock := by
    rintro ⟨handle, requestId, x, hcompleting, -⟩
    rw [step_completing hfree hlast] at hcompleting
    cases hcompleting
  distinct := (hi.addressed hcounted).distinct
  completion := by
    intro handle requestId totalSent duration hmem
    cases input with
    | broadcastComplete now =>
      have hmem : _ ∈ (s.broadcastComplete now).2 := hmem
      unfold Broadcasts.broadcastComplete at hmem
      rw [hfree] at hmem
      cases hmem
    | packetSent id transportId =>
      have hmem : _ ∈ (s.packetSent id transportId).2 := hmem
      unfold Broadcasts.packetSent at hmem
      split at hmem
      · cases hmem
      split at hmem
      · cases hmem
      · dsimp only at hmem
        split at hmem <;> simp at hmem
    | construct destinations => cases hmem
    | call handle' call =>
      unfold Broadcasts.step at hmem
      dsimp only at hmem
      split at hmem
      · cases hmem
      · next x _ =>
        exact absurd (.inr ⟨_, _, hmem⟩) ((callHandle_events s handle' x call).1 handle requestId)
  reported := (hi.addressed hcounted).reported
  silent handle requestId hhears :=
    ⟨fun hc => (hi.addressed hcounted).open' handle requestId hhears handle (.inl hc),
      (hi.addressed hcounted).alive handle requestId hhears⟩

/-- In a run without a last packet, in which no counter is written late, all that is asked holds. -/
theorem along_sound {inputs : List Input}
    (hok : (machine sets).Along (fun h s input => Counted h s input ∧ ¬ IsLast s input) [] new
      inputs) :
    (machine sets).Along (Sound sets) [] new inputs :=
  Machine.along_imp (I := fun h s => Inv h s ∧ s.completing = none)
    (fun _ _ _ hi hc => ⟨hi.1.step hc.1, step_completing hi.2 hc.2⟩)
    (fun _ _ _ hi hc => hi.1.sound hi.2 hc.1 hc.2) ⟨inv_new, rfl⟩ hok

/-- One destination. -/
def toOne : Nat → Option BroadcastSet := fun _ => some (BroadcastSet.ofIds some [7])

def proceeds (k : Nat) : List Input := List.replicate k (.call 0 (.proceed ⟨0, 0⟩ true))

theorem cancelled_sound :
    (machine toOne).Along (Sound toOne) [] new
      ([.construct 0, .call 0 .sendPacket] ++ proceeds 4 ++ [.call 0 .cancel] ++ proceeds 1 ++
        [.packetSent 1 7]) :=
  along_sound ⟨⟨trivial, id⟩, ⟨trivial, id⟩, ⟨trivial, id⟩, ⟨⟨rfl, by decide⟩, id⟩, ⟨trivial, id⟩,
    ⟨trivial, id⟩, ⟨trivial, id⟩, ⟨trivial, id⟩, ⟨trivial, id⟩, trivial⟩

/-- A handle hears of its own requests only, and of none that is over, whether requests complete or
not. -/
theorem along_addressed {inputs : List Input}
    (hcounted : (machine sets).Along Counted [] new inputs) :
    (machine sets).Along (Addressed sets) [] new inputs :=
  Machine.along_imp (I := Inv) (fun _ _ _ hi hc => hi.step hc) (fun _ _ _ hi hc => hi.addressed hc)
    inv_new hcounted

/-- The only packet is sent, and the completion reported. -/
theorem completed_addressed :
    (machine toOne).Along (Addressed toOne) [] new
      ([.construct 0, .call 0 .sendPacket] ++ proceeds 4 ++
        [.packetSent 1 7, .broadcastComplete ⟨1, 0⟩]) :=
  along_addressed ⟨trivial, trivial, trivial, ⟨rfl, by decide⟩, trivial, trivial, trivial, trivial,
    trivial⟩

/-- A call of `packetsSent` has the handle's lock when the notification of the last packet takes the
manager's. -/
theorem statusOfLast_deadlock :
    ¬ (machine toOne).Along (Sound toOne) [] new
      ([.construct 0, .call 0 .sendPacket] ++ proceeds 4 ++
        [.call 0 .packetsSent, .packetSent 1 7]) := by
  rintro ⟨-, -, -, -, -, -, -, hsound, -⟩
  exact hsound.noDeadlock ⟨0, 1, _, rfl, rfl, rfl⟩

end Step

end Broadcasts

end Alpine
