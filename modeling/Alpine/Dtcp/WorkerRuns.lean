import Alpine.Dtcp.WorkerPool

/-!
# Runs of the worker threads

A record that is queued is looked at if a worker has yet to look at the queue, or if a call wakes
one up. `Kept` says that one of the two is the case, and that every worker has yet to look, is on
its way to the idle list, is in it, or is held by a call that resumes it. Good steps keep it
(`along_noLostWakeUp`). A worker that is resumed between its entry in the idle list and the end of
its turn is lost (`resumedTooEarly_lost`).
-/

namespace Alpine.WorkerPool

open Lib

/-- The call is about to resume the worker. -/
def Holds (w : Nat) : CallerPosition → Prop
  | .resume thread | .signal thread | .listThread thread | .indexThread thread => thread = w
  | _ => False

def Called (s : WorkerPool) (P : CallerPosition → Prop) : Prop :=
  ∃ caller position, s.callers.find caller = some position ∧ P position

/-- Someone is going to look at the queue. -/
def Cared (s : WorkerPool) : Prop :=
  (∃ w < s.created, s.Looks w) ∨ s.Called s.WakesUp

def Covered (s : WorkerPool) (w : Nat) : Prop :=
  s.Looks w ∨ s.Leaving w ∨ w ∈ s.table.idleThreadList ∨ s.Called (Holds w)

/-- The worker is indexed under its id. -/
def Indexed (s : WorkerPool) (w : Nat) : Prop :=
  w < s.created ∧ s.table.threadObjectIndex.find w = some w

/-- What the position of a call rests on. -/
def CallerOk (s : WorkerPool) : CallerPosition → Prop
  | .resume thread | .signal thread => s.Indexed thread
  | .listThread thread | .indexThread thread => thread < s.created
  | .createThread => 0 < s.table.maxThreads
  | _ => True

structure Kept (s : WorkerPool) : Prop where
  cared : 0 < s.table.maxThreads → s.table.recordQueue ≠ [] → s.Cared
  covered : ∀ w ∈ s.table.allThreadList, s.Covered w
  enabled : ∀ w < s.created, s.Enabled w → s.Indexed w
  listing : ∀ w < s.created, ∀ threadObj, (s.workers w).position = .listing threadObj → threadObj = w
  idle : ∀ w ∈ s.table.idleThreadList, s.Indexed w
  callers : ∀ caller position, s.callers.find caller = some position → s.CallerOk position
  self : ∀ w threadObj, s.table.threadObjectIndex.find w = some threadObj → threadObj = w
  listed : ∀ w ∈ s.table.allThreadList, w < s.created
  queue : ∀ recIdx ∈ s.table.recordQueue, recIdx.isSome = true
  positive : 0 < s.created → 0 < s.table.maxThreads

theorem kept_new (maxThreads maxRecords maxBuffers : Nat) (configured : Option Nat) (now : Nat) :
    Kept (new maxThreads maxRecords maxBuffers configured now) where
  cared _ hqueue := absurd rfl hqueue
  covered w hw := by cases hw
  enabled w hw := by cases hw
  listing w hw := by cases hw
  idle w hw := by cases hw
  callers caller position hf := by cases hf
  self w threadObj hf := by cases hf
  listed w hw := by cases hw
  queue recIdx hmem := by cases hmem
  positive h := by cases h

/-! ## Steps of a worker -/

/-- A step of the worker `w`, as far as the others can see. -/
structure WorkerMove (s : WorkerPool) (w : Nat) (s' : WorkerPool) : Prop where
  created : s'.created = s.created
  callers : s'.callers = s.callers
  listed : s'.table.allThreadList = s.table.allThreadList
  limit : s'.table.maxThreads = s.table.maxThreads
  index : s'.table.threadObjectIndex = s.table.threadObjectIndex
  others : ∀ w', w' ≠ w → s'.workers w' = s.workers w'
  enabled : s.Enabled w
  idle : ∀ x ∈ s'.table.idleThreadList, x ∈ s.table.idleThreadList ∨ x = w
  kept : ∀ x ∈ s.table.idleThreadList, x ∈ s'.table.idleThreadList
  queue : ∀ x ∈ s'.table.recordQueue, x ∈ s.table.recordQueue
  listing : ∀ threadObj, (s'.workers w).position = .listing threadObj → threadObj = w
  covered : s.Looks w ∨ s.Leaving w → s'.Looks w ∨ s'.Leaving w ∨ w ∈ s'.table.idleThreadList
  looks : s'.table.recordQueue ≠ [] → s.Looks w →
    s'.Looks w ∨ (∃ w' < s.created, w' ≠ w ∧ s.Looks w') ∨ s.Called s.WakesUp

section Worker

variable {s s' : WorkerPool} {w : Nat}

theorem WorkerMove.looks_of_ne (hm : WorkerMove s w s') {w' : Nat} (hne : w' ≠ w)
    (hl : s.Looks w') : s'.Looks w' := by
  unfold Looks at hl ⊢
  rw [hm.others w' hne]
  exact hl

theorem WorkerMove.leaving_of_ne (hm : WorkerMove s w s') {w' : Nat} (hne : w' ≠ w)
    (hl : s.Leaving w') : s'.Leaving w' := by
  unfold Leaving at hl ⊢
  rw [hm.others w' hne]
  exact hl

theorem WorkerMove.wakesUp (hm : WorkerMove s w s') {position : CallerPosition}
    (hp : s.WakesUp position) : s'.WakesUp position := by
  cases position with
  | wakeThread =>
    obtain ⟨x, hx⟩ := List.exists_mem_of_ne_nil _ hp
    exact List.ne_nil_of_mem (hm.kept x hx)
  | checkLimit =>
    show s'.table.allThreadList.length < s'.table.maxThreads
    rw [hm.listed, hm.limit]
    exact hp
  | _ => trivial

theorem WorkerMove.called_wakesUp (hm : WorkerMove s w s') (hc : s.Called s.WakesUp) :
    s'.Called s'.WakesUp := by
  obtain ⟨caller, position, hf, hp⟩ := hc
  exact ⟨caller, position, by rw [hm.callers]; exact hf, hm.wakesUp hp⟩

theorem Kept.worker (hk : Kept s) (hw : w < s.created) (hm : WorkerMove s w s') : Kept s' := by
  have hindexed : ∀ w', s.Indexed w' → s'.Indexed w' := by
    intro w' hi
    unfold Indexed at hi ⊢
    rw [hm.created, hm.index]
    exact hi
  have hself := hk.enabled w hw hm.enabled
  constructor
  · intro hmax hqueue
    rw [hm.limit] at hmax
    obtain ⟨x, hx⟩ := List.exists_mem_of_ne_nil _ hqueue
    rcases hk.cared hmax (List.ne_nil_of_mem (hm.queue x hx)) with ⟨w', hw', hl⟩ | hcalled
    · by_cases hne : w' = w
      · subst hne
        rcases hm.looks hqueue hl with hl' | ⟨w'', hw'', hne, hl'⟩ | hcalled
        · exact .inl ⟨w', by rw [hm.created]; exact hw', hl'⟩
        · exact .inl ⟨w'', by rw [hm.created]; exact hw'', hm.looks_of_ne hne hl'⟩
        · exact .inr (hm.called_wakesUp hcalled)
      · exact .inl ⟨w', by rw [hm.created]; exact hw', hm.looks_of_ne hne hl⟩
    · exact .inr (hm.called_wakesUp hcalled)
  · intro w' hmem
    rw [hm.listed] at hmem
    rcases hk.covered w' hmem with hl | hl | hl | ⟨caller, position, hf, hp⟩
    · by_cases hne : w' = w
      · subst hne
        rcases hm.covered (.inl hl) with h | h | h
        · exact .inl h
        · exact .inr (.inl h)
        · exact .inr (.inr (.inl h))
      · exact .inl (hm.looks_of_ne hne hl)
    · by_cases hne : w' = w
      · subst hne
        rcases hm.covered (.inr hl) with h | h | h
        · exact .inl h
        · exact .inr (.inl h)
        · exact .inr (.inr (.inl h))
      · exact .inr (.inl (hm.leaving_of_ne hne hl))
    · exact .inr (.inr (.inl (hm.kept w' hl)))
    · exact .inr (.inr (.inr ⟨caller, position, by rw [hm.callers]; exact hf, hp⟩))
  · intro w' hw' he
    rw [hm.created] at hw'
    by_cases hne : w' = w
    · subst hne
      exact hindexed _ hself
    · unfold Enabled at he
      rw [hm.others w' hne] at he
      exact hindexed w' (hk.enabled w' hw' he)
  · intro w' hw' threadObj hp
    rw [hm.created] at hw'
    by_cases hne : w' = w
    · subst hne
      exact hm.listing threadObj hp
    · rw [hm.others w' hne] at hp
      exact hk.listing w' hw' threadObj hp
  · intro w' hmem
    rcases hm.idle w' hmem with h | rfl
    · exact hindexed w' (hk.idle w' h)
    · exact hindexed w' hself
  · intro caller position hf
    rw [hm.callers] at hf
    have hok := hk.callers caller position hf
    cases position with
    | resume thread => exact hindexed thread hok
    | signal thread => exact hindexed thread hok
    | listThread thread =>
      show thread < s'.created
      rw [hm.created]
      exact hok
    | indexThread thread =>
      show thread < s'.created
      rw [hm.created]
      exact hok
    | createThread =>
      show 0 < s'.table.maxThreads
      rw [hm.limit]
      exact hok
    | _ => trivial
  · rw [hm.index]
    exact hk.self
  · rw [hm.listed, hm.created]
    exact hk.listed
  · exact fun recIdx hmem => hk.queue recIdx (hm.queue recIdx hmem)
  · rw [hm.created, hm.limit]
    exact hk.positive

end Worker

/-- Processing a packet fails only if someone else is going to look at what is queued. -/
def WorkOk (s : WorkerPool) (w : Nat) (status : Bool) : Prop :=
  match (s.workers w).position with
  | .working _ => status = false → s.table.recordQueue = [] ∨
    (∃ other < s.created, other ≠ w ∧ s.Looks other) ∨ s.Called s.WakesUp
  | _ => True

section Moves

variable {s : WorkerPool} {w : Nat}

/-- A step that leaves the lists as they are and puts the worker somewhere else. -/
theorem workerMove_setWorker {table : ThreadTable}
    {worker : Worker} (he : s.Enabled w)
    (hlisted : table.allThreadList = s.table.allThreadList)
    (hlimit : table.maxThreads = s.table.maxThreads)
    (hindex : table.threadObjectIndex = s.table.threadObjectIndex)
    (hidle : table.idleThreadList = s.table.idleThreadList)
    (hqueue : ∀ x ∈ table.recordQueue, x ∈ s.table.recordQueue)
    (hlisting : ∀ threadObj, worker.position = .listing threadObj → threadObj = w)
    (hcovered : s.Looks w ∨ s.Leaving w →
      ({ s with table }.setWorker w worker).Looks w ∨ ({ s with table }.setWorker w worker).Leaving w ∨
        w ∈ s.table.idleThreadList)
    (hlooks : table.recordQueue ≠ [] → s.Looks w →
      ({ s with table }.setWorker w worker).Looks w ∨
        (∃ w' < s.created, w' ≠ w ∧ s.Looks w') ∨ s.Called s.WakesUp) :
    WorkerMove s w ({ s with table }.setWorker w worker) where
  created := rfl
  callers := rfl
  listed := hlisted
  limit := hlimit
  index := hindex
  others w' hne := Function.update_of_ne hne _ _
  enabled := he
  idle x hx := .inl (by rw [← hidle]; exact hx)
  kept x hx := by
    show x ∈ table.idleThreadList
    rw [hidle]
    exact hx
  queue := hqueue
  listing threadObj hp := hlisting threadObj (by
    rw [show (({ s with table } : WorkerPool).setWorker w worker).workers w = worker from
      Function.update_self _ _ _] at hp
    exact hp)
  covered h := by
    rw [show (({ s with table } : WorkerPool).setWorker w worker).table.idleThreadList =
      s.table.idleThreadList from hidle]
    exact hcovered h
  looks := hlooks

theorem popRecord_rest (t : ThreadTable) : t.popRecord.2.allThreadList = t.allThreadList ∧
    t.popRecord.2.maxThreads = t.maxThreads ∧ t.popRecord.2.threadObjectIndex = t.threadObjectIndex ∧
    t.popRecord.2.idleThreadList = t.idleThreadList ∧
    ∀ x ∈ t.popRecord.2.recordQueue, x ∈ t.recordQueue := by
  unfold ThreadTable.popRecord
  split
  · exact ⟨rfl, rfl, rfl, rfl, fun _ hx => hx⟩
  · next recIdx rest heq => exact ⟨rfl, rfl, rfl, rfl, fun x hx => by rw [heq]; exact .tail _ hx⟩

/-- If every record that is queued is of the pool, none is taken only from an empty queue. -/
theorem popRecord_none {t : ThreadTable} (hqueue : ∀ recIdx ∈ t.recordQueue, recIdx.isSome = true)
    (hpop : t.popRecord.1 = none) : t.popRecord.2.recordQueue = [] := by
  unfold ThreadTable.popRecord at hpop ⊢
  split
  · assumption
  · next recIdx rest heq =>
    rw [heq] at hpop
    have hsome := hqueue recIdx (by rw [heq]; exact .head _)
    rw [show recIdx = none from hpop] at hsome
    cases hsome

theorem processComplete_rest (t : ThreadTable) (id now : Nat) :
    (t.processComplete id now).2.allThreadList = t.allThreadList ∧
    (t.processComplete id now).2.maxThreads = t.maxThreads ∧
    (t.processComplete id now).2.threadObjectIndex = t.threadObjectIndex ∧
    (t.processComplete id now).2.idleThreadList = t.idleThreadList ∧
    (t.processComplete id now).2.recordQueue = t.recordQueue := by
  unfold ThreadTable.processComplete
  split <;> exact ⟨rfl, rfl, rfl, rfl, rfl⟩

theorem indexActive_rest (t : ThreadTable) (threadId recIdx now : Nat) :
    (t.indexActive threadId recIdx now).2.allThreadList = t.allThreadList ∧
    (t.indexActive threadId recIdx now).2.maxThreads = t.maxThreads ∧
    (t.indexActive threadId recIdx now).2.threadObjectIndex = t.threadObjectIndex ∧
    (t.indexActive threadId recIdx now).2.idleThreadList = t.idleThreadList ∧
    (t.indexActive threadId recIdx now).2.recordQueue = t.recordQueue :=
  ⟨rfl, rfl, rfl, rfl, rfl⟩

theorem freeRecord_rest (t : ThreadTable) (idx now : Nat) :
    (t.freeRecord idx now).allThreadList = t.allThreadList ∧
    (t.freeRecord idx now).maxThreads = t.maxThreads ∧
    (t.freeRecord idx now).threadObjectIndex = t.threadObjectIndex ∧
    (t.freeRecord idx now).idleThreadList = t.idleThreadList ∧
    (t.freeRecord idx now).recordQueue = t.recordQueue :=
  ⟨rfl, rfl, rfl, rfl, rfl⟩

theorem Kept.workerStep (hk : Kept s) (hw : w < s.created) (now : Nat) {status : Bool}
    (hok : s.WorkOk w status) : Kept (s.workerStep w now status) := by
  -- the new state is that of a `WorkerMove`, wherever the worker is
  unfold WorkerPool.workerStep
  cases hp : (s.workers w).position with
  | waiting =>
    dsimp only
    split
    · next hr =>
      apply hk.worker hw
      apply workerMove_setWorker (.inr hr) rfl rfl rfl rfl (fun _ hx => hx)
      · intro threadObj h
        cases h
      · exact fun _ => .inl (by simp [Looks, setWorker])
      · exact fun _ _ => .inl (by simp [Looks, setWorker])
    · exact hk
  | starting =>
    apply hk.worker hw
    apply workerMove_setWorker (.inl (by rw [hp]; exact nofun)) rfl rfl rfl rfl (fun _ hx => hx)
    · intro threadObj h
      cases h
    · exact fun _ => .inl (by simp [Looks, setWorker])
    · exact fun _ _ => .inl (by simp [Looks, setWorker])
  | next firstRequest =>
    obtain ⟨hlisted, hlimit, hindex, hidle, hqueue⟩ := popRecord_rest s.table
    have he : s.Enabled w := .inl (by rw [hp]; exact nofun)
    dsimp only
    cases hpop : s.table.popRecord.1 with
    | none =>
      have hempty := popRecord_none hk.queue hpop
      apply hk.worker hw
      apply workerMove_setWorker he hlisted hlimit hindex hidle hqueue
      · intro threadObj h
        cases firstRequest <;> cases h
      · exact fun _ => .inr (.inl (by cases firstRequest <;> simp [Leaving, setWorker]))
      · exact fun h => absurd hempty h
    | some recIdx =>
      apply hk.worker hw
      apply workerMove_setWorker he hlisted hlimit hindex hidle hqueue
      · intro threadObj h
        cases h
      · exact fun _ => .inl (by simp [Looks, setWorker])
      · exact fun _ _ => .inl (by simp [Looks, setWorker])
  | indexing recIdx =>
    have he : s.Enabled w := .inl (by rw [hp]; exact nofun)
    obtain ⟨hlisted, hlimit, hindex, hidle, hqueue⟩ := indexActive_rest s.table w recIdx now
    dsimp only
    split
    all_goals
      apply hk.worker hw
      apply workerMove_setWorker he hlisted hlimit hindex hidle
        (fun x hx => by rw [← hqueue]; exact hx)
      · intro threadObj h
        cases h
      · exact fun _ => .inl (by simp [Looks, setWorker])
      · exact fun _ _ => .inl (by simp [Looks, setWorker])
  | freeing recIdx oldRecIdx =>
    obtain ⟨hlisted, hlimit, hindex, hidle, hqueue⟩ := freeRecord_rest s.table oldRecIdx now
    apply hk.worker hw
    apply workerMove_setWorker (.inl (by rw [hp]; exact nofun)) hlisted hlimit hindex hidle
      (fun x hx => by rw [← hqueue]; exact hx)
    · intro threadObj h
      cases h
    · exact fun _ => .inl (by simp [Looks, setWorker])
    · exact fun _ _ => .inl (by simp [Looks, setWorker])
  | working recIdx =>
    have he : s.Enabled w := .inl (by rw [hp]; exact nofun)
    unfold WorkOk at hok
    rw [hp] at hok
    dsimp only at hok ⊢
    split
    · next hfail =>
      apply hk.worker hw
      apply workerMove_setWorker he rfl rfl rfl rfl (fun _ hx => hx)
      · intro threadObj h
        cases h
      · exact fun _ => .inr (.inl (by simp [Leaving, setWorker]))
      · intro hqueue _
        exact .inr ((hok hfail).resolve_left hqueue)
    · apply hk.worker hw
      apply workerMove_setWorker he rfl rfl rfl rfl (fun _ hx => hx)
      · intro threadObj h
        cases h
      · exact fun _ => .inl (by simp [Looks, setWorker])
      · exact fun _ _ => .inl (by simp [Looks, setWorker])
  | completing =>
    obtain ⟨hlisted, hlimit, hindex, hidle, hqueue⟩ := processComplete_rest s.table w now
    apply hk.worker hw
    apply workerMove_setWorker (.inl (by rw [hp]; exact nofun)) hlisted hlimit hindex hidle
      (fun x hx => by rw [← hqueue]; exact hx)
    · intro threadObj h
      cases h
    · exact fun _ => .inr (.inl (by simp [Leaving, setWorker]))
    · intro _ hl
      exact .inl (by simpa [Looks, setWorker, hp] using hl)
  | lookup =>
    have he : s.Enabled w := .inl (by rw [hp]; exact nofun)
    dsimp only
    rw [(hk.enabled w hw he).2]
    apply hk.worker hw
    apply workerMove_setWorker he rfl rfl rfl rfl (fun _ hx => hx)
    · intro threadObj h
      exact (WorkerPosition.listing.inj h).symm
    · exact fun _ => .inr (.inl (by simp [Leaving, setWorker]))
    · intro _ hl
      exact .inl (by simpa [Looks, setWorker, hp] using hl)
  | listing threadObj =>
    have hself := hk.listing w hw threadObj hp
    subst hself
    apply hk.worker hw
    refine ⟨rfl, rfl, rfl, rfl, rfl, fun w' hne => Function.update_of_ne hne _ _,
      .inl (by rw [hp]; exact nofun), ?_, ?_, fun _ hx => hx, ?_, ?_, ?_⟩
    · intro x hx
      rcases List.mem_append.mp hx with h | h
      · exact .inl h
      · exact .inr (List.mem_singleton.mp h)
    · exact fun x hx => List.mem_append_left _ hx
    · intro other h
      simp [setWorker, goTo] at h
    · exact fun _ => .inr (.inr (List.mem_append_right _ (List.mem_singleton.mpr rfl)))
    · intro _ hl
      exact .inl (by simpa [Looks, setWorker, goTo, hp] using hl)
  | stopping =>
    apply hk.worker hw
    apply workerMove_setWorker (.inl (by rw [hp]; exact nofun)) rfl rfl rfl rfl (fun _ hx => hx)
    · intro threadObj h
      cases h
    · rintro (hl | hl)
      · exact .inl (by simpa [Looks, setWorker, hp] using hl)
      · simp [Leaving, hp] at hl
    · intro _ hl
      exact .inl (by simpa [Looks, setWorker, hp] using hl)

end Moves

/-! ## Steps of a call -/

/-- A step of a call, as far as the others can see. -/
structure CallerMove (s : WorkerPool) (caller : Nat) (s' : WorkerPool) : Prop where
  others : ∀ c, c ≠ caller → s'.callers.find c = s.callers.find c
  created : s.created ≤ s'.created
  limit : s'.table.maxThreads = s.table.maxThreads
  workers : ∀ w < s.created, (s'.workers w).position = (s.workers w).position ∧
    ((s.workers w).resumed = true → (s'.workers w).resumed = true)
  fresh : ∀ w < s'.created, s.created ≤ w → s'.workers w = ⟨false, false, .waiting⟩
  enabled : ∀ w < s.created, s'.Enabled w → s.Enabled w ∨ s.Indexed w
  index : ∀ w threadObj, s.table.threadObjectIndex.find w = some threadObj →
    s'.table.threadObjectIndex.find w = some threadObj
  self : ∀ w threadObj, s'.table.threadObjectIndex.find w = some threadObj →
    s.table.threadObjectIndex.find w = some threadObj ∨ threadObj = w
  idle : ∀ w ∈ s'.table.idleThreadList, w ∈ s.table.idleThreadList
  kept : ∀ w ∈ s.table.idleThreadList, w ∈ s'.table.idleThreadList ∨ s'.Called (Holds w)
  listed : ∀ w ∈ s'.table.allThreadList, w ∈ s.table.allThreadList ∨
    w < s.created ∧ s'.Called (Holds w)
  queue : ∀ recIdx ∈ s'.table.recordQueue, recIdx ∈ s.table.recordQueue ∨ recIdx.isSome = true
  holds : ∀ position w, s.callers.find caller = some position → Holds w position →
    s'.Looks w ∨ s'.Called (Holds w)
  own : ∀ position, s'.callers.find caller = some position → s'.CallerOk position
  positive : s'.created = s.created ∨ 0 < s.table.maxThreads
  cared : 0 < s.table.maxThreads → s'.table.recordQueue ≠ [] →
    s.table.recordQueue ≠ [] ∨ s'.Cared
  wakes : ∀ c position, s.callers.find c = some position → c ≠ caller → s.WakesUp position →
    s'.WakesUp position ∨ s'.Cared
  ownWakes : ∀ position, s.callers.find caller = some position → s.WakesUp position →
    0 < s.table.maxThreads → s'.Cared

section Caller

variable {s s' : WorkerPool} {caller : Nat}

theorem CallerMove.looks (hm : CallerMove s caller s') {w : Nat} (hw : w < s.created)
    (hl : s.Looks w) : s'.Looks w := by
  obtain ⟨hposition, hresumed⟩ := hm.workers w hw
  unfold Looks at hl ⊢
  rw [hposition]
  exact hl.imp hresumed id

theorem CallerMove.leaving (hm : CallerMove s caller s') {w : Nat} (hw : w < s.created)
    (hl : s.Leaving w) : s'.Leaving w := by
  unfold Leaving at hl ⊢
  rw [(hm.workers w hw).1]
  exact hl

theorem CallerMove.indexed (hm : CallerMove s caller s') {w : Nat} (hi : s.Indexed w) :
    s'.Indexed w :=
  ⟨lt_of_lt_of_le hi.1 hm.created, hm.index w w hi.2⟩

theorem Kept.callerMove (hk : Kept s) (hm : CallerMove s caller s') : Kept s' := by
  constructor
  · intro hmax hqueue
    rw [hm.limit] at hmax
    rcases hm.cared hmax hqueue with h | h
    · rcases hk.cared hmax h with ⟨w, hw, hl⟩ | ⟨c, position, hf, hp⟩
      · exact .inl ⟨w, lt_of_lt_of_le hw hm.created, hm.looks hw hl⟩
      · by_cases hne : c = caller
        · subst hne
          exact hm.ownWakes position hf hp hmax
        · rcases hm.wakes c position hf hne hp with h | h
          · exact .inr ⟨c, position, by rw [hm.others c hne]; exact hf, h⟩
          · exact h
    · exact h
  · intro w hmem
    rcases hm.listed w hmem with h | ⟨-, h⟩
    · have hw := hk.listed w h
      rcases hk.covered w h with hl | hl | hl | ⟨c, position, hf, hp⟩
      · exact .inl (hm.looks hw hl)
      · exact .inr (.inl (hm.leaving hw hl))
      · exact .inr (.inr (hm.kept w hl))
      · by_cases hne : c = caller
        · subst hne
          rcases hm.holds position w hf hp with h | h
          · exact .inl h
          · exact .inr (.inr (.inr h))
        · exact .inr (.inr (.inr ⟨c, position, by rw [hm.others c hne]; exact hf, hp⟩))
    · exact .inr (.inr (.inr h))
  · intro w hw he
    by_cases hold : w < s.created
    · rcases hm.enabled w hold he with h | h
      · exact hm.indexed (hk.enabled w hold h)
      · exact hm.indexed h
    · unfold Enabled at he
      rw [hm.fresh w hw (not_lt.mp hold)] at he
      simp at he
  · intro w hw threadObj hp
    by_cases hold : w < s.created
    · rw [(hm.workers w hold).1] at hp
      exact hk.listing w hold threadObj hp
    · rw [hm.fresh w hw (not_lt.mp hold)] at hp
      cases hp
  · exact fun w hmem => hm.indexed (hk.idle w (hm.idle w hmem))
  · intro c position hf
    by_cases hne : c = caller
    · subst hne
      exact hm.own position hf
    · rw [hm.others c hne] at hf
      have hok := hk.callers c position hf
      cases position with
      | resume thread => exact hm.indexed hok
      | signal thread => exact hm.indexed hok
      | listThread thread => exact lt_of_lt_of_le hok hm.created
      | indexThread thread => exact lt_of_lt_of_le hok hm.created
      | createThread =>
        show 0 < s'.table.maxThreads
        rw [hm.limit]
        exact hok
      | _ => trivial
  · intro w threadObj hf
    rcases hm.self w threadObj hf with h | h
    · exact hk.self w threadObj h
    · exact h
  · intro w hmem
    rcases hm.listed w hmem with h | ⟨h, -⟩
    · exact lt_of_lt_of_le (hk.listed w h) hm.created
    · exact lt_of_lt_of_le h hm.created
  · intro recIdx hmem
    rcases hm.queue recIdx hmem with h | h
    · exact hk.queue recIdx h
    · exact h
  · intro hpos
    rw [hm.limit]
    rcases hm.positive with h | h
    · exact hk.positive (by omega)
    · exact h

/-- A call that goes on, or ends, and touches nothing. -/
theorem Kept.callersOnly (hk : Kept s) (caller : Nat) {callers : UMap Nat CallerPosition}
    (hothers : ∀ c, c ≠ caller → callers.find c = s.callers.find c)
    (hown : ∀ position, callers.find caller = some position → s.CallerOk position)
    (hholds : ∀ position w, s.callers.find caller = some position → Holds w position →
      ∃ position', callers.find caller = some position' ∧ Holds w position')
    (hwakes : ∀ position, s.callers.find caller = some position → s.WakesUp position →
      0 < s.table.maxThreads → Cared { s with callers }) :
    Kept { s with callers } := by
  refine hk.callerMove (show CallerMove s caller _ from ?_)
  constructor
  · exact hothers
  · exact le_refl _
  · rfl
  · exact fun w _ => ⟨rfl, id⟩
  · exact fun w hw hle => absurd hw (not_lt.mpr hle)
  · exact fun w _ he => .inl he
  · exact fun w threadObj hf => hf
  · exact fun w threadObj hf => .inl hf
  · exact fun w hw => hw
  · exact fun w hw => .inl hw
  · exact fun w hw => .inl hw
  · exact fun recIdx hmem => .inl hmem
  · intro position w hf hp
    obtain ⟨position', hf', hp'⟩ := hholds position w hf hp
    exact .inr ⟨caller, position', hf', hp'⟩
  · exact hown
  · exact .inl rfl
  · exact fun _ h => .inl h
  · exact fun c position _ _ hp => .inl hp
  · exact hwakes

/-- The call ends; nothing rests on it. -/
theorem Kept.leave (hk : Kept s) {position : CallerPosition}
    (hf : s.callers.find caller = some position) (hholds : ∀ w, ¬ Holds w position)
    (hwakes : ¬ s.WakesUp position) : Kept (s.leave caller) := by
  apply hk.callersOnly caller
  · intro c hne
    simp [hne]
  · intro position h
    simp at h
  · intro position' w h hp
    rw [hf] at h
    cases h
    exact absurd hp (hholds w)
  · intro position' h hp
    rw [hf] at h
    cases h
    exact absurd hp hwakes

/-- The call goes on and wakes a worker up later, if it has to. -/
theorem Kept.callerTo (hk : Kept s) {position position' : CallerPosition}
    (hf : s.callers.find caller = some position) (hok : s.CallerOk position')
    (hholds : ∀ w, Holds w position → Holds w position')
    (hwakes : s.WakesUp position → 0 < s.table.maxThreads →
      s.WakesUp position' ∨ (∃ w < s.created, s.Looks w) ∨
        ∃ c p, c ≠ caller ∧ s.callers.find c = some p ∧ s.WakesUp p) :
    Kept (s.callerTo caller position') := by
  have hthere : (s.callerTo caller position').callers.find caller = some position' := by
    simp [WorkerPool.callerTo]
  apply hk.callersOnly caller
  · intro c hne
    simp [hne]
  · intro p h
    obtain rfl := Option.some.inj (hthere.symm.trans h)
    exact hok
  · intro p w h hp
    rw [hf] at h
    cases h
    exact ⟨position', hthere, hholds w hp⟩
  · intro p h hp hmax
    rw [hf] at h
    cases h
    rcases hwakes hp hmax with hp' | ⟨w, hw, hl⟩ | ⟨c, p', hne, hf', hp'⟩
    · exact .inr ⟨caller, position', hthere, hp'⟩
    · exact .inl ⟨w, hw, hl⟩
    · exact .inr ⟨c, p', by simp [hne, hf'], hp'⟩

/-- With the idle list empty and no worker leaving, a listed worker looks or another call holds
it. -/
theorem Kept.someone (hk : Kept s) {position : CallerPosition}
    (hf : s.callers.find caller = some position) (hholds : ∀ w, ¬ Holds w position)
    (hidle : s.table.idleThreadList = []) (hlisted : s.table.allThreadList ≠ [])
    (hleaving : ∀ w < s.created, ¬ s.Leaving w) :
    (∃ w < s.created, s.Looks w) ∨
      ∃ c p, c ≠ caller ∧ s.callers.find c = some p ∧ s.WakesUp p := by
  obtain ⟨w, hmem⟩ := List.exists_mem_of_ne_nil _ hlisted
  have hw := hk.listed w hmem
  rcases hk.covered w hmem with hl | hl | hl | ⟨c, p, hf', hp⟩
  · exact .inl ⟨w, hw, hl⟩
  · exact absurd hl (hleaving w hw)
  · rw [hidle] at hl
    cases hl
  · right
    refine ⟨c, p, ?_, hf', ?_⟩
    · rintro rfl
      rw [hf] at hf'
      cases hf'
      exact hholds w hp
    · cases p with
      | wakeThread => exact hp.elim
      | checkLimit => exact hp.elim
      | _ => trivial

theorem Kept.checkIdle (hk : Kept s) (hf : s.callers.find caller = some .checkIdle)
    (hok : s.table.idleThreadList = [] → s.table.maxThreads ≤ s.table.allThreadList.length →
      (∀ w < s.created, ¬ s.Leaving w) ∨ (∃ w < s.created, s.Looks w) ∨
        ∃ other position, other ≠ caller ∧ s.callers.find other = some position ∧
          s.WakesUp position) : Kept (s.callerStep caller .checkIdle) := by
  unfold WorkerPool.callerStep
  dsimp only
  split
  · next hidle =>
    show Kept (s.callerTo caller .wakeThread)
    exact hk.callerTo hf trivial (fun w h => h.elim) (fun _ _ => .inl hidle)
  · next hidle =>
    have hempty := not_not.mp hidle
    show Kept (s.callerTo caller .checkLimit)
    refine hk.callerTo hf trivial (fun w h => h.elim) ?_
    intro _ hmax
    by_cases hlimit : s.table.allThreadList.length < s.table.maxThreads
    · exact .inl hlimit
    · right
      rcases hok hempty (not_lt.mp hlimit) with hleaving | hsomeone
      · apply hk.someone hf (fun w h => h) hempty _ hleaving
        intro hnil
        rw [hnil] at hlimit
        exact hlimit hmax
      · exact hsomeone

theorem Kept.checkLimit (hk : Kept s) (hf : s.callers.find caller = some .checkLimit) :
    Kept (s.callerStep caller .checkLimit) := by
  unfold WorkerPool.callerStep
  dsimp only
  split
  · next hlimit =>
    exact hk.callerTo hf (Nat.zero_lt_of_lt hlimit) (fun w h => h.elim) (fun _ _ => .inl trivial)
  · next hlimit => exact hk.leave hf (fun w h => h) hlimit

theorem Kept.resume (hk : Kept s) {thread : Nat} (hf : s.callers.find caller = some (.resume thread))
    (hok : (s.workers thread).running = false ∨ s.Looks thread) :
    Kept (s.callerStep caller (.resume thread)) := by
  have hindexed : s.Indexed thread := hk.callers caller _ hf
  unfold WorkerPool.callerStep
  dsimp only
  split
  · next hrunning =>
    -- the flag is up, but the worker has yet to look
    have hlooks : s.Looks thread := hok.resolve_left (by rw [hrunning]; exact nofun)
    refine hk.callerMove (show CallerMove s caller _ from ?_)
    constructor
    · intro c hne
      simp [WorkerPool.leave, hne]
    · exact le_refl _
    · rfl
    · exact fun w _ => ⟨rfl, id⟩
    · exact fun w hw hle => absurd hw (not_lt.mpr hle)
    · exact fun w _ he => .inl he
    · exact fun w threadObj h => h
    · exact fun w threadObj h => .inl h
    · exact fun w hw => hw
    · exact fun w hw => .inl hw
    · exact fun w hw => .inl hw
    · exact fun recIdx hmem => .inl hmem
    · intro position w h hp
      rw [hf] at h
      cases h
      obtain rfl : thread = w := hp
      exact .inl hlooks
    · intro position h
      simp [WorkerPool.leave] at h
    · exact .inl rfl
    · exact fun _ h => .inl h
    · exact fun c position _ _ hp => .inl hp
    · exact fun position _ _ _ => .inl ⟨thread, hindexed.1, hlooks⟩
  · exact hk.callerTo hf hindexed (fun w h => h) (fun _ _ => .inl trivial)

theorem Kept.wakeThread (hk : Kept s) (hf : s.callers.find caller = some .wakeThread) :
    Kept (s.callerStep caller .wakeThread) := by
  cases hidle : s.table.idleThreadList with
  | nil =>
    have hstep : s.callerStep caller .wakeThread = s.leave caller := by
      simp [WorkerPool.callerStep, ThreadTable.popIdle, hidle]
    rw [hstep]
    exact hk.leave hf (fun w h => h) (fun h => h hidle)
  | cons thread rest =>
    have hstep : s.callerStep caller .wakeThread =
        ({ s with table := { s.table with idleThreadList := rest } } : WorkerPool).callerTo caller
          (.resume thread) := by
      simp [WorkerPool.callerStep, ThreadTable.popIdle, hidle]
    rw [hstep]
    have hthere : (({ s with table := { s.table with idleThreadList := rest } } : WorkerPool).callerTo
        caller (.resume thread)).callers.find caller = some (.resume thread) := by
      simp [WorkerPool.callerTo]
    refine hk.callerMove (show CallerMove s caller _ from ?_)
    constructor
    · intro c hne
      simp [WorkerPool.callerTo, hne]
    · exact le_refl _
    · rfl
    · exact fun w _ => ⟨rfl, id⟩
    · exact fun w hw hle => absurd hw (not_lt.mpr hle)
    · exact fun w _ he => .inl he
    · exact fun w threadObj h => h
    · exact fun w threadObj h => .inl h
    · intro w hw
      rw [hidle]
      exact .tail _ hw
    · intro w hw
      rw [hidle] at hw
      rcases List.mem_cons.mp hw with rfl | hw
      · exact .inr ⟨caller, _, hthere, rfl⟩
      · exact .inl hw
    · exact fun w hw => .inl hw
    · exact fun recIdx hmem => .inl hmem
    · intro position w h hp
      rw [hf] at h
      cases h
      exact hp.elim
    · intro position h
      obtain rfl := Option.some.inj (hthere.symm.trans h)
      exact hk.idle thread (by rw [hidle]; exact .head _)
    · exact .inl rfl
    · exact fun _ h => .inl h
    · exact fun c position _ _ _ => .inr (.inr ⟨caller, _, hthere, trivial⟩)
    · exact fun position _ _ _ => .inr ⟨caller, _, hthere, trivial⟩

theorem Kept.createThread (hk : Kept s) (hf : s.callers.find caller = some .createThread) :
    Kept (s.callerStep caller .createThread) := by
  have hthere : (s.callerStep caller .createThread).callers.find caller =
      some (.listThread s.created) := by
    simp [WorkerPool.callerStep, WorkerPool.callerTo]
  have hold : ∀ w < s.created, (s.callerStep caller .createThread).workers w = s.workers w :=
    fun w hw => Function.update_of_ne (Nat.ne_of_lt hw) _ _
  refine hk.callerMove (show CallerMove s caller _ from ?_)
  constructor
  · intro c hne
    simp [WorkerPool.callerStep, WorkerPool.callerTo, setWorker, hne]
  · exact Nat.le_succ _
  · rfl
  · intro w hw
    rw [hold w hw]
    exact ⟨rfl, id⟩
  · intro w hw hle
    have heq : w = s.created := by
      have : w < s.created + 1 := hw
      omega
    rw [heq]
    exact Function.update_self _ _ _
  · intro w hw he
    unfold Enabled at he
    rw [hold w hw] at he
    exact .inl he
  · exact fun w threadObj h => h
  · exact fun w threadObj h => .inl h
  · exact fun w hw => hw
  · exact fun w hw => .inl hw
  · exact fun w hw => .inl hw
  · exact fun recIdx hmem => .inl hmem
  · intro position w h hp
    rw [hf] at h
    cases h
    exact hp.elim
  · intro position h
    obtain rfl := Option.some.inj (hthere.symm.trans h)
    exact Nat.lt_succ_self _
  · exact .inr (hk.callers caller _ hf)
  · exact fun _ h => .inl h
  · exact fun c position _ _ hp => .inl hp
  · exact fun position _ _ _ => .inr ⟨caller, _, hthere, trivial⟩

theorem Kept.listThread (hk : Kept s) {thread : Nat}
    (hf : s.callers.find caller = some (.listThread thread)) :
    Kept (s.callerStep caller (.listThread thread)) := by
  have hthere : (s.callerStep caller (.listThread thread)).callers.find caller =
      some (.indexThread thread) := by
    simp [WorkerPool.callerStep, WorkerPool.callerTo]
  refine hk.callerMove (show CallerMove s caller _ from ?_)
  constructor
  · intro c hne
    simp [WorkerPool.callerStep, WorkerPool.callerTo, hne]
  · exact le_refl _
  · rfl
  · exact fun w _ => ⟨rfl, id⟩
  · exact fun w hw hle => absurd hw (not_lt.mpr hle)
  · exact fun w _ he => .inl he
  · exact fun w threadObj h => h
  · exact fun w threadObj h => .inl h
  · exact fun w hw => hw
  · exact fun w hw => .inl hw
  · intro w hw
    rcases List.mem_append.mp hw with h | h
    · exact .inl h
    · obtain rfl := List.mem_singleton.mp h
      exact .inr ⟨hk.callers caller _ hf, caller, _, hthere, rfl⟩
  · exact fun recIdx hmem => .inl hmem
  · intro position w h hp
    rw [hf] at h
    cases h
    exact .inr ⟨caller, _, hthere, hp⟩
  · intro position h
    obtain rfl := Option.some.inj (hthere.symm.trans h)
    exact hk.callers caller _ hf
  · exact .inl rfl
  · exact fun _ h => .inl h
  · exact fun c position _ _ _ => .inr (.inr ⟨caller, _, hthere, trivial⟩)
  · exact fun position _ _ _ => .inr ⟨caller, _, hthere, trivial⟩

theorem Kept.indexThread (hk : Kept s) {thread : Nat}
    (hf : s.callers.find caller = some (.indexThread thread)) :
    Kept (s.callerStep caller (.indexThread thread)) := by
  have hthere : (s.callerStep caller (.indexThread thread)).callers.find caller =
      some (.resume thread) := by
    simp [WorkerPool.callerStep, WorkerPool.callerTo]
  have hindex : ∀ w, (s.callerStep caller (.indexThread thread)).table.threadObjectIndex.find w =
      if w = thread then some ((s.table.threadObjectIndex.find thread).getD thread)
      else s.table.threadObjectIndex.find w :=
    fun w => UMap.find_emplace _ _ _ _
  have hself : (s.table.threadObjectIndex.find thread).getD thread = thread := by
    cases h : s.table.threadObjectIndex.find thread with
    | none => rfl
    | some threadObj => exact hk.self thread threadObj h
  refine hk.callerMove (show CallerMove s caller _ from ?_)
  constructor
  · intro c hne
    simp [WorkerPool.callerStep, WorkerPool.callerTo, hne]
  · exact le_refl _
  · rfl
  · exact fun w _ => ⟨rfl, id⟩
  · exact fun w hw hle => absurd hw (not_lt.mpr hle)
  · exact fun w _ he => .inl he
  · intro w threadObj h
    rw [hindex w]
    split
    · next heq =>
      rw [hself, hk.self w threadObj h, heq]
    · exact h
  · intro w threadObj h
    rw [hindex w] at h
    split at h
    · next heq =>
      rw [hself] at h
      rw [heq]
      exact .inr (Option.some.inj h).symm
    · exact .inl h
  · exact fun w hw => hw
  · exact fun w hw => .inl hw
  · exact fun w hw => .inl hw
  · exact fun recIdx hmem => .inl hmem
  · intro position w h hp
    rw [hf] at h
    cases h
    exact .inr ⟨caller, _, hthere, hp⟩
  · intro position h
    obtain rfl := Option.some.inj (hthere.symm.trans h)
    refine ⟨hk.callers caller _ hf, ?_⟩
    rw [hindex thread, if_pos rfl, hself]
  · exact .inl rfl
  · exact fun _ h => .inl h
  · exact fun c position _ _ hp => .inl hp
  · exact fun position _ _ _ => .inr ⟨caller, _, hthere, trivial⟩

theorem Kept.signal (hk : Kept s) {thread : Nat}
    (hf : s.callers.find caller = some (.signal thread)) :
    Kept (s.callerStep caller (.signal thread)) := by
  have hindexed : s.Indexed thread := hk.callers caller _ hf
  have hself : (s.callerStep caller (.signal thread)).workers thread =
      { s.workers thread with resumed := true } :=
    Function.update_self _ _ _
  have hothers : ∀ w, w ≠ thread → (s.callerStep caller (.signal thread)).workers w = s.workers w :=
    fun w hne => Function.update_of_ne hne _ _
  have hlooks : (s.callerStep caller (.signal thread)).Looks thread := by
    left
    rw [hself]
  have hgone : (s.callerStep caller (.signal thread)).callers.find caller = none := by
    simp [WorkerPool.callerStep, WorkerPool.leave]
  refine hk.callerMove (show CallerMove s caller _ from ?_)
  constructor
  · intro c hne
    simp [WorkerPool.callerStep, WorkerPool.leave, setWorker, hne]
  · exact le_refl _
  · rfl
  · intro w _
    by_cases hne : w = thread
    · rw [hne, hself]
      exact ⟨rfl, fun _ => rfl⟩
    · rw [hothers w hne]
      exact ⟨rfl, id⟩
  · exact fun w hw hle => absurd hw (not_lt.mpr hle)
  · intro w _ he
    by_cases hne : w = thread
    · rw [hne]
      exact .inr hindexed
    · unfold Enabled at he
      rw [hothers w hne] at he
      exact .inl he
  · exact fun w threadObj h => h
  · exact fun w threadObj h => .inl h
  · exact fun w hw => hw
  · exact fun w hw => .inl hw
  · exact fun w hw => .inl hw
  · exact fun recIdx hmem => .inl hmem
  · intro position w h hp
    rw [hf] at h
    cases h
    obtain rfl : thread = w := hp
    exact .inl hlooks
  · intro position h
    rw [hgone] at h
    cases h
  · exact .inl rfl
  · exact fun _ h => .inl h
  · exact fun c position _ _ hp => .inl hp
  · exact fun position _ _ _ => .inl ⟨thread, hindexed.1, hlooks⟩

theorem Kept.processRecord (hk : Kept s) {record : Nat} (hf : s.callers.find caller = none)
    (hok : record < s.table.records) (now : Nat) :
    Kept ({ s with table := s.table.enqueueRecord record now }.callerTo caller .checkIdle) := by
  have hthere : (({ s with table := s.table.enqueueRecord record now } : WorkerPool).callerTo caller
      .checkIdle).callers.find caller = some .checkIdle := by
    simp [WorkerPool.callerTo]
  have htable : s.table.enqueueRecord record now =
      { s.table with recordQueue := s.table.recordQueue ++ [some record] }.touch record now :=
    if_pos hok
  rw [htable] at hthere ⊢
  refine hk.callerMove (show CallerMove s caller _ from ?_)
  constructor
  · intro c hne
    simp [WorkerPool.callerTo, hne]
  · exact le_refl _
  · rfl
  · exact fun w _ => ⟨rfl, id⟩
  · exact fun w hw hle => absurd hw (not_lt.mpr hle)
  · exact fun w _ he => .inl he
  · exact fun w threadObj h => h
  · exact fun w threadObj h => .inl h
  · exact fun w hw => hw
  · exact fun w hw => .inl hw
  · exact fun w hw => .inl hw
  · intro recIdx hmem
    rcases List.mem_append.mp hmem with h | h
    · exact .inl h
    · rw [List.mem_singleton.mp h]
      exact .inr rfl
  · intro position w h _
    rw [hf] at h
    cases h
  · intro position h
    obtain rfl := Option.some.inj (hthere.symm.trans h)
    trivial
  · exact .inl rfl
  · exact fun _ _ => .inr (.inr ⟨caller, _, hthere, trivial⟩)
  · exact fun c position _ _ hp => .inl hp
  · intro position h _ _
    rw [hf] at h
    cases h

end Caller

/-! ## Runs -/

section Runs

variable {s : WorkerPool}

theorem Kept.callerStep (hk : Kept s) {caller : Nat} {position : CallerPosition}
    (hf : s.callers.find caller = some position) (hok : s.StepOk (.proceed caller)) :
    Kept (s.callerStep caller position) := by
  unfold StepOk at hok
  dsimp only at hok
  rw [hf] at hok
  cases position with
  | checkIdle => exact hk.checkIdle hf hok
  | wakeThread => exact hk.wakeThread hf
  | resume thread => exact hk.resume hf hok
  | signal thread => exact hk.signal hf
  | checkLimit => exact hk.checkLimit hf
  | createThread => exact hk.createThread hf
  | listThread thread => exact hk.listThread hf
  | indexThread thread => exact hk.indexThread hf

theorem Kept.step (hk : Kept s) {input : Input} (hok : s.StepOk input) : Kept (s.step input) := by
  unfold WorkerPool.step
  cases input with
  | processRecord caller record now =>
    cases record with
    | none => exact hk
    | some record =>
      dsimp only
      split
      · exact hk
      · next hfree => exact hk.processRecord (Option.not_isSome_iff_eq_none.mp hfree) hok now
  | proceed caller =>
    dsimp only
    cases hf : s.callers.find caller with
    | none => exact hk
    | some position => exact hk.callerStep hf hok
  | worker w now status =>
    dsimp only
    split
    · next hw => exact hk.workerStep hw now hok
    · exact hk

theorem Looks.enabled {w : Nat} (hl : s.Looks w) : s.Enabled w := by
  unfold Looks at hl
  rcases hl with h | h
  · exact .inr h
  · left
    intro hp
    rw [hp] at h
    exact h

theorem Kept.noLostWakeUp (hk : Kept s) : s.NoLostWakeUp := by
  intro recIdx hmem hpos
  rcases hk.cared (hk.positive hpos) (List.ne_nil_of_mem hmem) with ⟨w, hw, hl⟩ | h
  · exact .inl ⟨w, hw, hl.enabled⟩
  · exact .inr h

theorem kept_along {inputs : List Input} (hk : Kept s)
    (hok : machine.Along (fun _ s input => s.StepOk input) [] s inputs) :
    Kept (machine.run s inputs).1 :=
  Machine.along_invariant (I := fun _ s => Kept s) (fun _ _ _ hk hok => hk.step hok) hk hok

end Runs

/-- A run whose steps resume no worker early, and so on, loses no wake-up. -/
theorem along_noLostWakeUp (maxThreads maxRecords maxBuffers : Nat) (configured : Option Nat)
    (now : Nat) (inputs : List Input)
    (hok : machine.Along (fun _ s input => s.StepOk input) []
      (new maxThreads maxRecords maxBuffers configured now) inputs) :
    NoLostWakeUp (machine.run (new maxThreads maxRecords maxBuffers configured now) inputs).1 :=
  (kept_along (kept_new maxThreads maxRecords maxBuffers configured now) hok).noLostWakeUp

/-- A packet arrives and is processed by a new worker, which is resumed for the next one once it
waits. -/
def resumedInTime : List Input :=
  [.processRecord 0 (some 24) 1, .proceed 0, .proceed 0, .proceed 0,
    .proceed 0, .proceed 0, .proceed 0, .proceed 0, .worker 0 2 true, .worker 0 2 true, .worker 0 2 true, .worker 0 2 true,
    .worker 0 3 true, .worker 0 3 true, .worker 0 3 true, .worker 0 3 true, .worker 0 3 true,
    .worker 0 3 true, .processRecord 0 (some 23) 4, .proceed 0, .proceed 0, .proceed 0, .proceed 0,
    .worker 0 5 true]

theorem resumedInTime_noLostWakeUp :
    NoLostWakeUp (machine.run (new 25 100 10000 none 0) resumedInTime).1 :=
  along_noLostWakeUp 25 100 10000 none 0 resumedInTime
    ⟨(by decide : 24 < 25), fun _ h => absurd h (by decide : ¬ 25 ≤ 0),
      trivial, trivial, trivial, trivial, .inl rfl, trivial, trivial, trivial, trivial, trivial,
      nofun, trivial, trivial, trivial, trivial, trivial,
      (by decide : 23 < 25), nofun, trivial, .inl rfl, trivial, trivial, trivial⟩

/-- A packet arrives and is processed by a new worker. The next one finds the worker in the idle
list, with its flag still up. -/
def resumedTooEarly : List Input :=
  [.processRecord 0 (some 24) 1, .proceed 0, .proceed 0, .proceed 0,
    .proceed 0, .proceed 0, .proceed 0, .proceed 0, .worker 0 2 true, .worker 0 2 true, .worker 0 2 true, .worker 0 2 true,
    .worker 0 3 true, .worker 0 3 true, .worker 0 3 true, .worker 0 3 true, .worker 0 3 true,
    .processRecord 0 (some 23) 4, .proceed 0, .proceed 0, .proceed 0, .worker 0 5 true]

/-- The second packet stays in the queue, and the worker waits. -/
theorem resumedTooEarly_lost :
    ¬ NoLostWakeUp (machine.run (new 25 100 10000 none 0) resumedTooEarly).1 := by
  have hqueue : (machine.run (new 25 100 10000 none 0) resumedTooEarly).1.table.recordQueue =
      [some 23] := by
    decide +kernel
  have hcreated : (machine.run (new 25 100 10000 none 0) resumedTooEarly).1.created = 1 := by
    decide +kernel
  have hworker : (machine.run (new 25 100 10000 none 0) resumedTooEarly).1.workers 0 =
      ⟨false, false, .waiting⟩ := by
    decide +kernel
  have hcallers : AList.entries (machine.run (new 25 100 10000 none 0) resumedTooEarly).1.callers =
      [] := by
    decide +kernel
  intro h
  rcases h 23 (by rw [hqueue]; exact .head _) (by rw [hcreated]; exact Nat.one_pos) with
    ⟨w, hw, he⟩ | ⟨caller, position, hf, -⟩
  · rw [hcreated] at hw
    obtain rfl : w = 0 := by omega
    unfold Enabled at he
    rw [hworker] at he
    simp at he
  · have hmem := UMap.mem_entries.mpr hf
    rw [hcallers] at hmem
    cases hmem

end Alpine.WorkerPool
