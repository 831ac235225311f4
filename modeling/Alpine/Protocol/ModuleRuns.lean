import Alpine.Protocol.ModuleSteps

/-!
# Runs of the manager of the modules

`StepSound` says that the indexes agree after a section, that a load or an unload that fails leaves
what is registered, and that the stack interface registers exactly the paths that are free.
`StepClean` is what that takes of the section: of an insertion that path and id are free, of a
load that the indexes take what it offers, and nothing new if a transport interface is missing, of
an unload that the module stops and shares no interface, of the record that `unregisterModule`
erases that it holds nothing of its own, and of the stack interface that it is asked for a path
that is there already, since its check is the wrong way round (`along_modules_iff`).
-/

namespace Alpine

open Lib

variable {A : Type} [DecidableEq A]

/-! ## Sections -/

/-- The section is not one that finds the library's file unusable. -/
def ModuleSection.FileUsable : ModuleSection A → Prop
  | .proceed _ file _ => file.usable = true
  | _ => True

namespace ModuleState

open ModuleMgr (Consistent SameEntered InsertClean EraseClean LoadClean UnloadClean Inv)

def machine : Machine (ModuleState A) (ModuleSection A) ModuleEvent where
  step := step

/-- The indexes agree after the section, a load or unload that fails leaves what is registered, and
the stack interface registers a usable library exactly if its path is free. -/
structure StepSound (_ : List ModuleEvent) (s : ModuleState A) (sec : ModuleSection A) : Prop where
  consistent : Consistent (s.step sec).1.mgr
  refused : .loadModule false ∈ (s.step sec).2 ∨ .unloadModule false ∈ (s.step sec).2 →
    SameEntered s.mgr (s.step sec).1.mgr
  stack : ∀ libraryPath status, .stackRegisterModule libraryPath status ∈ (s.step sec).2 →
    s.mgr.initialized = true → sec.FileUsable →
    (status = true ↔ s.mgr.modulePathIndex.find libraryPath = none)

/-- The condition on a section. -/
def StepClean (_ : List ModuleEvent) (s : ModuleState A) : ModuleSection A → Prop
  | .loadModule moduleId library => LoadClean s.mgr moduleId library
  | .unloadModule moduleId stop => UnloadClean s.mgr moduleId stop
  | .start call (.stackRegisterModule libraryPath _) =>
    s.pending.find call = none → s.mgr.initialized = true →
      s.mgr.modulePathIndex.find libraryPath ≠ none
  | .proceed call file stop =>
    match s.pending.find call with
    | some (.insertModule stack libraryPath _) => file.usable = true →
      InsertClean s.mgr libraryPath ∧
        (stack = true → s.mgr.modulePathIndex.find libraryPath = none)
    | some (.unloadModule moduleId) => UnloadClean s.mgr moduleId stop
    | some (.eraseModule moduleId) => EraseClean s.mgr moduleId
    | _ => True
  | _ => True

/-- What every section keeps, with the consistency of the indexes: a call that is under way has
found the manager initialised. -/
structure Kept (_ : List ModuleEvent) (s : ModuleState A) : Prop where
  consistent : Consistent s.mgr
  inv : Inv s.mgr
  ready : ∀ call next, s.pending.find call = some next → s.mgr.initialized = true

variable {s : ModuleState A} {history : List ModuleEvent} {libraryPath symbol : String}
  {call moduleId : Nat} {stack stop status : Bool} {file : LibraryFile} {next : PendingSection}
  {mgr : ModuleMgr A} {events : List ModuleEvent}

theorem kept_new : Kept [] (new : ModuleState A) where
  consistent := ModuleMgr.consistent_new
  inv := ModuleMgr.inv_new
  ready _ _ h := by cases h

/-! ## The manager is not touched, or one call of it is a section -/

omit [DecidableEq A] in
theorem mgr_checkPath : (s.checkPath call stack libraryPath symbol).1.mgr = s.mgr := by
  unfold checkPath
  split <;> rfl

omit [DecidableEq A] in
theorem mgr_checkId : (s.checkId call moduleId).1.mgr = s.mgr := by
  unfold checkId
  split <;> rfl

omit [DecidableEq A] in
theorem mgr_start (request : ModuleRequest) : (s.start call request).1.mgr = s.mgr := by
  cases request with
  | registerModule => exact mgr_checkPath
  | stackRegisterModule =>
    unfold start
    dsimp only
    split <;> rfl
  | unregisterModule => exact mgr_checkId
  | stackUnregisterModule =>
    unfold start
    dsimp only
    split <;> rfl

theorem mem_registered {event : ModuleEvent} (h : event ∈ registered stack libraryPath status) :
    stack = true ∧ event = .stackRegisterModule libraryPath status := by
  unfold registered at h
  split at h
  · next hstack => exact ⟨hstack, List.mem_singleton.mp h⟩
  · cases h

omit [DecidableEq A] in
/-- The check tells the stack interface only that a path is taken. -/
theorem mem_checkPath {event : ModuleEvent}
    (h : event ∈ (s.checkPath call stack libraryPath symbol).2) :
    event = .stackRegisterModule libraryPath false ∧
      (s.mgr.initialized = true → s.mgr.modulePathIndex.find libraryPath ≠ none) := by
  unfold checkPath at h
  split at h
  · cases h
  · next hcheck =>
    refine ⟨(mem_registered h).2, fun hinit hnone => hcheck ?_⟩
    rw [ModuleMgr.checkPath, hinit, hnone]
    rfl

omit [DecidableEq A] in
theorem mem_checkId {event : ModuleEvent} : event ∉ (s.checkId call moduleId).2 := by
  unfold checkId
  split <;> exact List.not_mem_nil

/-! ## Every section -/

theorem initialized_step (hinit : s.mgr.initialized = true) (sec : ModuleSection A) :
    (s.step sec).1.mgr.initialized = true := by
  cases sec with
  | initializeMgr =>
    show (s.mgr.initializeMgr.2).initialized = true
    rw [ModuleMgr.initializeMgr, if_pos hinit]
    exact hinit
  | initializeQueryModules => exact hinit
  | initializeExtensions => exact hinit
  | loadModule moduleId library => exact ModuleMgr.initialized_loadModule hinit
  | unloadModule moduleId stop => exact ModuleMgr.initialized_unloadModule hinit
  | start call request =>
    unfold step
    dsimp only
    cases s.pending.find call with
    | some next => exact hinit
    | none =>
      dsimp only
      rw [mgr_start]
      exact hinit
  | proceed call file stop =>
    unfold step
    dsimp only
    cases s.pending.find call with
    | none => exact hinit
    | some next =>
      cases next with
      | checkPath libraryPath symbol =>
        show ((s.checkPath call true libraryPath symbol).1.mgr).initialized = true
        rw [mgr_checkPath]
        exact hinit
      | insertModule stack libraryPath symbol =>
        unfold proceed
        dsimp only
        split <;> exact hinit
      | existsId moduleId =>
        show ((s.checkId call moduleId).1.mgr).initialized = true
        rw [mgr_checkId]
        exact hinit
      | isActive moduleId => exact hinit
      | unloadModule moduleId => exact ModuleMgr.initialized_unloadModule hinit
      | eraseModule moduleId => exact ModuleMgr.initialized_eraseModule.trans hinit

theorem inv_initializeMgr (hi : Inv s.mgr) : Inv s.mgr.initializeMgr.2 := by
  unfold ModuleMgr.initializeMgr
  split
  · exact hi
  · exact ⟨fun _ _ h => (by cases h), fun _ _ h => (by cases h), fun _ _ h => (by cases h),
      hi.query, hi.extension, fun _ => ⟨rfl, rfl⟩⟩

theorem Kept.inv_step (hk : Kept history s) (sec : ModuleSection A) :
    Inv (s.step sec).1.mgr := by
  have hi := hk.inv
  cases sec with
  | initializeMgr => exact inv_initializeMgr hi
  | initializeQueryModules =>
    exact ⟨hi.record, hi.path, hi.idle, hi.query.initializeIndex, hi.extension, hi.unused⟩
  | initializeExtensions =>
    exact ⟨hi.record, hi.path, hi.idle, hi.query, hi.extension.initializeIndex, hi.unused⟩
  | loadModule moduleId library => exact hi.loadModule moduleId library
  | unloadModule moduleId stop => exact hi.unloadModule moduleId stop
  | start call request =>
    unfold step
    dsimp only
    cases s.pending.find call with
    | some next => exact hi
    | none =>
      dsimp only
      rw [mgr_start]
      exact hi
  | proceed call file stop =>
    unfold step
    dsimp only
    cases hnext : s.pending.find call with
    | none => exact hi
    | some next =>
      cases next with
      | checkPath libraryPath symbol =>
        show Inv (s.checkPath call true libraryPath symbol).1.mgr
        rw [mgr_checkPath]
        exact hi
      | insertModule stack libraryPath symbol =>
        unfold proceed
        dsimp only
        split
        · exact hi.insertModule (hk.ready call _ hnext) libraryPath symbol
        · exact hi
      | existsId moduleId =>
        show Inv (s.checkId call moduleId).1.mgr
        rw [mgr_checkId]
        exact hi
      | isActive moduleId => exact hi
      | unloadModule moduleId => exact hi.unloadModule moduleId stop
      | eraseModule moduleId => exact hi.eraseModule moduleId

/-- A call that begins with a check goes on if the manager is initialised. -/
theorem Kept.ready_check (hk : Kept history s) {c : Nat} {check : Bool} {first : PendingSection}
    (hcheck : check = true → s.mgr.initialized = true)
    (h : (if check then s.goOn call first else s.finish call s.mgr events).1.pending.find c =
      some next) : s.mgr.initialized = true := by
  split at h
  · next hc => exact hcheck hc
  · have hf : (s.pending.erase call).find c = some next := h
    rw [UMap.find_erase] at hf
    split at hf
    · cases hf
    · exact hk.ready c next hf

theorem Kept.ready_step (hk : Kept history s) (sec : ModuleSection A) {c : Nat}
    (h : (s.step sec).1.pending.find c = some next) : s.mgr.initialized = true := by
  have hpath : ∀ libraryPath, s.mgr.checkPath libraryPath = true → s.mgr.initialized = true := by
    intro libraryPath hcheck
    simp only [ModuleMgr.checkPath, Bool.and_eq_true] at hcheck
    exact hcheck.1
  have hexists : ∀ libraryPath, s.mgr.existsPath libraryPath = true →
      s.mgr.initialized = true := by
    intro libraryPath hcheck
    simp only [ModuleMgr.existsPath, Bool.and_eq_true] at hcheck
    exact hcheck.1
  have hid : ∀ moduleId, s.mgr.existsId moduleId = true → s.mgr.initialized = true := by
    intro moduleId hcheck
    simp only [ModuleMgr.existsId, Bool.and_eq_true] at hcheck
    exact hcheck.1
  cases sec with
  | initializeMgr => exact hk.ready c next h
  | initializeQueryModules => exact hk.ready c next h
  | initializeExtensions => exact hk.ready c next h
  | loadModule => exact hk.ready c next h
  | unloadModule => exact hk.ready c next h
  | start call request =>
    unfold step at h
    dsimp only at h
    cases hnext : s.pending.find call with
    | some first => exact hk.ready call first hnext
    | none =>
      rw [hnext] at h
      cases request with
      | registerModule libraryPath symbol => exact hk.ready_check (hpath libraryPath) h
      | stackRegisterModule libraryPath symbol => exact hk.ready_check (hexists libraryPath) h
      | unregisterModule moduleId => exact hk.ready_check (hid moduleId) h
      | stackUnregisterModule moduleId => exact hk.ready_check (hid moduleId) h
  | proceed call file stop =>
    cases hnext : s.pending.find call with
    | some first => exact hk.ready call first hnext
    | none =>
      unfold step at h
      dsimp only at h
      rw [hnext] at h
      exact hk.ready c next h

/-- A section that keeps the indexes consistent keeps everything. -/
theorem Kept.step (hk : Kept history s) {sec : ModuleSection A} (hs : StepSound history s sec) :
    Kept (history ++ (s.step sec).2) (s.step sec).1 where
  consistent := hs.consistent
  inv := hk.inv_step sec
  ready _ _ h := initialized_step (hk.ready_step sec h) sec

/-! ## What is sound -/

/-- A section that leaves the manager has to tell the stack interface right. -/
theorem Kept.sound_of_same (hk : Kept history s) {sec : ModuleSection A}
    (hmgr : (s.step sec).1.mgr = s.mgr)
    (hstack : ∀ libraryPath status, .stackRegisterModule libraryPath status ∈ (s.step sec).2 →
      s.mgr.initialized = true → sec.FileUsable →
      (status = true ↔ s.mgr.modulePathIndex.find libraryPath = none)) :
    StepSound history s sec where
  consistent := by
    rw [hmgr]
    exact hk.consistent
  refused _ := by
    rw [hmgr]
    exact fun _ => ⟨Iff.rfl, Iff.rfl⟩
  stack := hstack

/-- A section that tells nothing to the stack interface, and nothing else that is refused. -/
theorem sound_of_silent {sec : ModuleSection A} (hevents : (s.step sec).2 = [])
    (hconsistent : Consistent (s.step sec).1.mgr) : StepSound history s sec where
  consistent := hconsistent
  refused h := by
    rw [hevents] at h
    rcases h with h | h <;> cases h
  stack _ _ h := by
    rw [hevents] at h
    cases h

theorem Consistent.initializeMgr (hk : Kept history s) : Consistent s.mgr.initializeMgr.2 := by
  have hc := hk.consistent
  unfold ModuleMgr.initializeMgr
  cases hinit : s.mgr.initialized with
  | true => exact hc
  | false =>
    obtain ⟨hids, hpaths⟩ := hk.inv.unused hinit
    have hquery := hc.query
    have hextension := hc.extension
    rw [hids] at hquery hextension
    exact ⟨⟨fun _ _ h => (by cases h), fun _ _ h => (by cases h),
      fun _ _ _ _ h => (by cases h)⟩, hquery, hextension⟩

theorem Kept.initializeQueryModules_sound (hk : Kept history s) :
    StepSound history s .initializeQueryModules :=
  sound_of_silent rfl
    ⟨⟨hk.consistent.oneToOne.path, hk.consistent.oneToOne.id, hk.consistent.oneToOne.sole⟩,
      fun a => (QueryModuleIndex.entered_initializeIndex hk.inv.query).trans
        (hk.consistent.query a), hk.consistent.extension⟩

theorem Kept.initializeExtensions_sound (hk : Kept history s) :
    StepSound history s .initializeExtensions :=
  sound_of_silent rfl
    ⟨⟨hk.consistent.oneToOne.path, hk.consistent.oneToOne.id, hk.consistent.oneToOne.sole⟩,
      hk.consistent.query, fun a => (ExtensionIndex.entered_initializeIndex hk.inv.extension).trans
        (hk.consistent.extension a)⟩

theorem Kept.loadModule_sound_iff (hk : Kept history s) (library : Library A) :
    StepSound history s (.loadModule moduleId library) ↔ LoadClean s.mgr moduleId library := by
  rw [← ModuleMgr.loadModule_iff hk.consistent hk.inv]
  constructor
  · intro hs
    refine ⟨hs.consistent, fun hfalse => hs.refused (.inl ?_)⟩
    exact List.mem_singleton.mpr (congrArg ModuleEvent.loadModule hfalse.symm)
  · rintro ⟨hc, hsame⟩
    refine ⟨hc, fun h => hsame ?_, fun _ _ h => ?_⟩
    · rcases h with h | h
      · exact (ModuleEvent.loadModule.inj (List.mem_singleton.mp h)).symm
      · cases List.mem_singleton.mp h
    · cases List.mem_singleton.mp h

/-- An unload is one section, by itself or in `unregisterModule`. -/
theorem Kept.unloadModule_sound_iff (hk : Kept history s) {sec : ModuleSection A}
    (hmgr : (s.step sec).1.mgr = (s.mgr.unloadModule moduleId stop).2)
    (hevents : (s.step sec).2 = [.unloadModule (s.mgr.unloadModule moduleId stop).1]) :
    StepSound history s sec ↔ UnloadClean s.mgr moduleId stop := by
  rw [← ModuleMgr.unloadModule_iff hk.consistent hk.inv, ← hmgr]
  constructor
  · intro hs
    refine ⟨hs.consistent, fun hfalse => hs.refused (.inr ?_)⟩
    rw [hevents, hfalse]
    exact List.mem_singleton_self _
  · rintro ⟨hc, hsame⟩
    refine ⟨hc, fun h => hsame ?_, fun _ _ h => ?_⟩
    · rw [hevents] at h
      rcases h with h | h
      · cases List.mem_singleton.mp h
      · exact (ModuleEvent.unloadModule.inj (List.mem_singleton.mp h)).symm
    · rw [hevents] at h
      cases List.mem_singleton.mp h

theorem Kept.start_sound_iff (hk : Kept history s) (request : ModuleRequest) :
    StepSound history s (.start call request) ↔ StepClean history s (.start call request) := by
  cases hnext : s.pending.find call with
  | some first =>
    have hstep : s.step (.start call request) = (s, []) := by
      unfold ModuleState.step
      dsimp only
      rw [hnext]
    refine iff_of_true (hk.sound_of_same (by rw [hstep]) fun _ _ h => ?_) ?_
    · rw [hstep] at h
      cases h
    · cases request with
      | stackRegisterModule =>
        intro hnone
        rw [hnext] at hnone
        cases hnone
      | _ => trivial
  | none =>
    have hstep : s.step (.start call request) = s.start call request := by
      unfold ModuleState.step
      dsimp only
      rw [hnext]
    have hmgr : (s.step (.start call request)).1.mgr = s.mgr := by
      rw [hstep]
      exact mgr_start request
    cases request with
    | registerModule libraryPath symbol =>
      refine iff_of_true (hk.sound_of_same hmgr fun path status h hinit _ => ?_) trivial
      rw [hstep] at h
      obtain ⟨hevent, htaken⟩ := mem_checkPath h
      obtain ⟨rfl, rfl⟩ := ModuleEvent.stackRegisterModule.inj hevent
      exact iff_of_false (fun h => by cases h) (htaken hinit)
    | unregisterModule moduleId =>
      refine iff_of_true (hk.sound_of_same hmgr fun path status h => ?_) trivial
      rw [hstep] at h
      exact absurd h mem_checkId
    | stackUnregisterModule moduleId =>
      refine iff_of_true (hk.sound_of_same hmgr fun path status h => ?_) trivial
      rw [hstep] at h
      unfold start at h
      dsimp only at h
      split at h <;> cases h
    | stackRegisterModule libraryPath symbol =>
      cases hexists : s.mgr.existsPath libraryPath with
      | true =>
        have htaken : s.mgr.modulePathIndex.find libraryPath ≠ none := by
          simp only [ModuleMgr.existsPath, Bool.and_eq_true] at hexists
          exact Option.isSome_iff_ne_none.mp hexists.2
        refine iff_of_true (hk.sound_of_same hmgr fun path status h => ?_) fun _ _ => htaken
        rw [hstep] at h
        unfold start at h
        dsimp only at h
        rw [if_pos hexists] at h
        cases h
      | false =>
        have hevents : (s.step (.start call (.stackRegisterModule libraryPath symbol))).2 =
            [.stackRegisterModule libraryPath false] := by
          rw [hstep]
          unfold start
          dsimp only
          rw [hexists]
          rfl
        constructor
        · intro hs _ hinit
          have hmem : ModuleEvent.stackRegisterModule libraryPath false ∈
              (s.step (.start call (.stackRegisterModule libraryPath symbol))).2 := by
            rw [hevents]
            exact List.mem_singleton_self _
          have hiff := hs.stack libraryPath false hmem hinit trivial
          intro hnone
          exact absurd (hiff.mpr hnone) (by decide)
        · intro hclean
          refine hk.sound_of_same hmgr fun path status h hinit _ => ?_
          rw [hevents] at h
          obtain ⟨rfl, rfl⟩ := ModuleEvent.stackRegisterModule.inj (List.mem_singleton.mp h)
          exact iff_of_false (fun h => by cases h) (hclean hnext hinit)

theorem Kept.insertModule_sound_iff (hk : Kept history s)
    (hnext : s.pending.find call = some (.insertModule stack libraryPath symbol))
    (hfile : file.usable = true) :
    StepSound history s (.proceed call file stop) ↔
      InsertClean s.mgr libraryPath ∧
        (stack = true → s.mgr.modulePathIndex.find libraryPath = none) := by
  have hstep : s.step (.proceed call file stop) = s.finish call
      (s.mgr.insertModule libraryPath symbol) (registered stack libraryPath true) := by
    unfold ModuleState.step
    dsimp only
    rw [hnext]
    exact if_pos hfile
  have hiff : Consistent (s.mgr.insertModule libraryPath symbol) ↔ InsertClean s.mgr libraryPath :=
    hk.consistent.insertModule_iff hk.inv
  have hmgr : (s.step (.proceed call file stop)).1.mgr = s.mgr.insertModule libraryPath symbol := by
    rw [hstep]
    rfl
  constructor
  · intro hs
    constructor
    · rw [← hiff, ← hmgr]
      exact hs.consistent
    · intro hstack
      have hmem : ModuleEvent.stackRegisterModule libraryPath true ∈
          (s.step (.proceed call file stop)).2 := by
        rw [hstep, hstack]
        exact List.mem_singleton_self _
      exact (hs.stack libraryPath true hmem (hk.ready call _ hnext) hfile).mp rfl
  · rintro ⟨hinsert, hfree⟩
    refine ⟨?_, fun h => ?_, fun path status h _ _ => ?_⟩
    · rw [hmgr]
      exact hiff.mpr hinsert
    · rw [hstep] at h
      rcases h with h | h <;> cases (mem_registered h).2
    · rw [hstep] at h
      obtain ⟨hstack, hevent⟩ := mem_registered h
      obtain ⟨rfl, rfl⟩ := ModuleEvent.stackRegisterModule.inj hevent
      exact iff_of_true rfl (hfree hstack)

theorem Kept.proceed_sound_iff (hk : Kept history s) :
    StepSound history s (.proceed call file stop) ↔
      StepClean history s (.proceed call file stop) := by
  unfold StepClean
  dsimp only
  cases hnext : s.pending.find call with
  | none =>
    have hstep : s.step (.proceed call file stop) = (s, []) := by
      unfold ModuleState.step
      dsimp only
      rw [hnext]
    refine iff_of_true (sound_of_silent (by rw [hstep]) ?_) trivial
    rw [hstep]
    exact hk.consistent
  | some next =>
    have hstep : s.step (.proceed call file stop) = s.proceed call file stop next := by
      unfold ModuleState.step
      dsimp only
      rw [hnext]
    cases next with
    | checkPath libraryPath symbol =>
      refine iff_of_true (hk.sound_of_same ?_ fun path status h hinit _ => ?_) trivial
      · rw [hstep]
        exact mgr_checkPath
      · rw [hstep] at h
        obtain ⟨hevent, htaken⟩ := mem_checkPath h
        obtain ⟨rfl, rfl⟩ := ModuleEvent.stackRegisterModule.inj hevent
        exact iff_of_false (fun h => by cases h) (htaken hinit)
    | insertModule stack libraryPath symbol =>
      dsimp only
      cases hfile : file.usable with
      | true =>
        rw [hk.insertModule_sound_iff hnext hfile]
        exact ⟨fun h _ => h, fun h => h rfl⟩
      | false =>
        refine iff_of_true (hk.sound_of_same ?_ fun path status h hinit husable => ?_)
          fun h => by cases h
        · rw [hstep]
          unfold proceed
          dsimp only
          rw [hfile]
          rfl
        · have husable' : file.usable = true := husable
          rw [hfile] at husable'
          cases husable'
    | existsId moduleId =>
      refine iff_of_true (hk.sound_of_same ?_ fun path status h => ?_) trivial
      · rw [hstep]
        exact mgr_checkId
      · rw [hstep] at h
        exact absurd h mem_checkId
    | isActive moduleId =>
      refine iff_of_true (hk.sound_of_same ?_ fun path status h => ?_) trivial
      · rw [hstep]
        rfl
      · rw [hstep] at h
        cases h
    | unloadModule moduleId =>
      refine hk.unloadModule_sound_iff ?_ ?_
      · rw [hstep]
        rfl
      · rw [hstep]
        rfl
    | eraseModule moduleId =>
      dsimp only
      rw [← hk.consistent.eraseModule_iff]
      constructor
      · intro hs
        have hc := hs.consistent
        rw [hstep] at hc
        exact hc
      · intro hc
        refine sound_of_silent ?_ ?_ <;> rw [hstep]
        · rfl
        · exact hc

theorem Kept.stepSound_iff (hk : Kept history s) (sec : ModuleSection A) :
    StepSound history s sec ↔ StepClean history s sec := by
  cases sec with
  | initializeMgr =>
    exact iff_of_true (sound_of_silent rfl (Consistent.initializeMgr hk)) trivial
  | initializeQueryModules => exact iff_of_true hk.initializeQueryModules_sound trivial
  | initializeExtensions => exact iff_of_true hk.initializeExtensions_sound trivial
  | loadModule moduleId library => exact hk.loadModule_sound_iff library
  | unloadModule moduleId stop => exact hk.unloadModule_sound_iff rfl rfl
  | start call request => exact hk.start_sound_iff request
  | proceed call file stop => exact hk.proceed_sound_iff

/-- In a run from the start every section is as it should be exactly if every section meets the
condition. -/
theorem along_modules_iff (sections : List (ModuleSection A)) :
    machine.Along StepSound [] (new : ModuleState A) sections ↔
      machine.Along StepClean [] (new : ModuleState A) sections :=
  Machine.along_congr (fun _ _ sec hk hclean => hk.step ((hk.stepSound_iff sec).mpr hclean))
    (fun _ _ sec hk => hk.stepSound_iff sec) kept_new

/-- The stack interface is asked to register the first module. -/
def firstModule : List (ModuleSection Nat) :=
  [.initializeMgr, .start 0 (.stackRegisterModule "libfirst.so" "bootstrap")]

theorem firstModule_not_registered :
    ¬ machine.Along StepSound [] (new : ModuleState Nat) firstModule := by
  rintro ⟨-, hs, -⟩
  have hiff := hs.stack "libfirst.so" false (List.mem_singleton_self _) rfl trivial
  exact absurd (hiff.mpr rfl) (by decide)

end ModuleState

end Alpine
