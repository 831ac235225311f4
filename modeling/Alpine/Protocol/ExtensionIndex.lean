import Alpine.Lib.Owners
import Alpine.Lib.Run

/-!
# The index of the extension modules

`AlpineExtensionIndex` has the modules by the option ids they extend, in one index for the query
options, one for the peer options and one for the proxy options, and what each module has declared
by the module. A removal erases the ids of the module's record, whoever is under them. `ledger` is
what the modules have declared since they were last removed, and `StepSound` what the indexes have
to be of it. It holds after every registration, and after a removal exactly if no other module has
declared an id of the record and the module is under no other id (`along_resolves_iff`).
-/

namespace Alpine

open Lib

inductive OptionKind where
  | query
  | peer
  | proxy
  deriving DecidableEq, Repr

/-- `t_ModuleOptionIdInfo`. -/
structure ModuleOptionIdInfo where
  queryIdList : List Nat
  peerIdList : List Nat
  proxyIdList : List Nat
  deriving DecidableEq, Repr

def ModuleOptionIdInfo.idList (info : ModuleOptionIdInfo) : OptionKind → List Nat
  | .query => info.queryIdList
  | .peer => info.peerIdList
  | .proxy => info.proxyIdList

/-- What the three list calls of an extension module do with the list they are passed: the list as
they leave it, or `none` for a call that fails. -/
structure ExtensionAnswers where
  getQueryOptionExtensionList : List Nat → Option (List Nat)
  getPeerOptionExtensionList : List Nat → Option (List Nat)
  getProxyOptionExtensionList : List Nat → Option (List Nat)

variable {M : Type} [DecidableEq M]

/-- The static members of `AlpineExtensionIndex`; `M` are the addresses of the modules. -/
structure ExtensionIndex (M : Type) where
  initialized : Bool
  queryOptionIdIndex : UMap Nat M
  peerOptionIdIndex : UMap Nat M
  proxyOptionIdIndex : UMap Nat M
  moduleIndex : UMap M ModuleOptionIdInfo

namespace ExtensionIndex

def new : ExtensionIndex M := ⟨false, ∅, ∅, ∅, ∅⟩

def initializeIndex (index : ExtensionIndex M) : Bool × ExtensionIndex M :=
  if index.initialized then (false, index)
  else (true, ⟨true, ∅, ∅, ∅, ∅⟩)

/-- The module that an option id is found under. -/
def findModule (index : ExtensionIndex M) (optionIdIndex : UMap Nat M) (optionId : Nat) :
    Option M :=
  if index.initialized then optionIdIndex.find optionId else none

variable {D : Type}

/-- The option data that the module of the id creates. -/
def getOptionExt (index : ExtensionIndex M) (optionIdIndex : UMap Nat M)
    (createOptionData : M → Nat → Option D) (optionId : Nat) : Option D := do
  let extensionModule ← index.findModule optionIdIndex optionId
  createOptionData extensionModule optionId

def getQueryOptionExt (index : ExtensionIndex M) (createQueryOptionData : M → Nat → Option D)
    (optionId : Nat) : Option D :=
  index.getOptionExt index.queryOptionIdIndex createQueryOptionData optionId

def getPeerOptionExt (index : ExtensionIndex M) (createPeerOptionData : M → Nat → Option D)
    (optionId : Nat) : Option D :=
  index.getOptionExt index.peerOptionIdIndex createPeerOptionData optionId

def getProxyOptionExt (index : ExtensionIndex M) (createProxyOptionData : M → Nat → Option D)
    (optionId : Nat) : Option D :=
  index.getOptionExt index.proxyOptionIdIndex createProxyOptionData optionId

/-- Only the proxy options are looked up. -/
def existsId (index : ExtensionIndex M) (optionId : Nat) : Bool :=
  (index.findModule index.proxyOptionIdIndex optionId).isSome

/-- One list is passed to the three calls, each with what the call before left in it. -/
def moduleOptionIdInfo (module : ExtensionAnswers) : Option ModuleOptionIdInfo := do
  let queryIdList ← module.getQueryOptionExtensionList []
  let peerIdList ← module.getPeerOptionExtensionList queryIdList
  let proxyIdList ← module.getProxyOptionExtensionList peerIdList
  pure ⟨queryIdList, peerIdList, proxyIdList⟩

def enterModule (index : ExtensionIndex M) (module : M) (info : ModuleOptionIdInfo) :
    ExtensionIndex M :=
  { index with
    queryOptionIdIndex := index.queryOptionIdIndex.emplaceAll info.queryIdList module
    peerOptionIdIndex := index.peerOptionIdIndex.emplaceAll info.peerIdList module
    proxyOptionIdIndex := index.proxyOptionIdIndex.emplaceAll info.proxyIdList module
    moduleIndex := index.moduleIndex.emplace module info }

/-- The module is asked for its lists before an index is touched. -/
def registerExtensionModule (index : ExtensionIndex M) (module : M) (answers : ExtensionAnswers) :
    Bool × ExtensionIndex M :=
  if !index.initialized then (false, index)
  else
    match moduleOptionIdInfo answers with
    | none => (false, index)
    | some info => (true, index.enterModule module info)

def eraseModule (index : ExtensionIndex M) (module : M) (info : ModuleOptionIdInfo) :
    ExtensionIndex M :=
  { index with
    queryOptionIdIndex := index.queryOptionIdIndex.eraseAll info.queryIdList
    peerOptionIdIndex := index.peerOptionIdIndex.eraseAll info.peerIdList
    proxyOptionIdIndex := index.proxyOptionIdIndex.eraseAll info.proxyIdList
    moduleIndex := index.moduleIndex.erase module }

def removeExtensionModule (index : ExtensionIndex M) (module : M) : Bool × ExtensionIndex M :=
  if !index.initialized then (false, index)
  else
    match index.moduleIndex.find module with
    | none => (false, index)
    | some info => (true, index.eraseModule module info)

def optionIdIndex (index : ExtensionIndex M) : OptionKind → UMap Nat M
  | .query => index.queryOptionIdIndex
  | .peer => index.peerOptionIdIndex
  | .proxy => index.proxyOptionIdIndex

/-! ## One call -/

omit [DecidableEq M] in
@[simp] theorem optionIdIndex_new (kind : OptionKind) :
    (new : ExtensionIndex M).optionIdIndex kind = ∅ := by
  cases kind <;> rfl

@[simp] theorem optionIdIndex_enterModule (index : ExtensionIndex M) (module : M)
    (info : ModuleOptionIdInfo) (kind : OptionKind) :
    (index.enterModule module info).optionIdIndex kind =
      (index.optionIdIndex kind).emplaceAll (info.idList kind) module := by
  cases kind <;> rfl

@[simp] theorem optionIdIndex_eraseModule (index : ExtensionIndex M) (module : M)
    (info : ModuleOptionIdInfo) (kind : OptionKind) :
    (index.eraseModule module info).optionIdIndex kind =
      (index.optionIdIndex kind).eraseAll (info.idList kind) := by
  cases kind <;> rfl

/-- A registration is refused, or the lists of the module are entered. -/
theorem registerExtensionModule_cases (index : ExtensionIndex M) (module : M)
    (answers : ExtensionAnswers) :
    index.registerExtensionModule module answers = (false, index) ∨
      ∃ info, index.initialized = true ∧ moduleOptionIdInfo answers = some info ∧
        index.registerExtensionModule module answers = (true, index.enterModule module info) := by
  unfold registerExtensionModule
  cases hinit : index.initialized with
  | false => exact .inl rfl
  | true =>
    cases hinfo : moduleOptionIdInfo answers with
    | none => exact .inl rfl
    | some info => exact .inr ⟨info, rfl, rfl, rfl⟩

/-- A removal is refused, or what the record of the module has is erased. -/
theorem removeExtensionModule_cases (index : ExtensionIndex M) (module : M) :
    index.removeExtensionModule module = (false, index) ∧
        (index.initialized = true → index.moduleIndex.find module = none) ∨
      ∃ info, index.initialized = true ∧ index.moduleIndex.find module = some info ∧
        index.removeExtensionModule module = (true, index.eraseModule module info) := by
  unfold removeExtensionModule
  cases hinit : index.initialized with
  | false => exact .inl ⟨rfl, fun h => by cases h⟩
  | true =>
    cases hfind : index.moduleIndex.find module with
    | none => exact .inl ⟨rfl, fun _ => rfl⟩
    | some info => exact .inr ⟨info, rfl, rfl, rfl⟩

/-- The module is registered. -/
def Entered (index : ExtensionIndex M) (module : M) : Prop :=
  (index.moduleIndex.find module).isSome

/-- A registration with these answers is not refused. -/
def Accepts (index : ExtensionIndex M) (answers : ExtensionAnswers) : Prop :=
  index.initialized = true ∧ (moduleOptionIdInfo answers).isSome

/-- Only an initialised index has modules. -/
def Ready (index : ExtensionIndex M) : Prop :=
  index.initialized = false → ∀ module, ¬ index.Entered module

section Entered

variable {index : ExtensionIndex M} {module other : M} {answers : ExtensionAnswers}

theorem entered_initializeIndex (hr : index.Ready) :
    index.initializeIndex.2.Entered module ↔ index.Entered module := by
  unfold initializeIndex
  cases hinit : index.initialized with
  | true => exact Iff.rfl
  | false => exact ⟨fun h => (by cases h), fun h => absurd h (hr hinit module)⟩

theorem entered_registerExtensionModule :
    (index.registerExtensionModule module answers).2.Entered other ↔
      index.Entered other ∨ (module = other ∧ index.Accepts answers) := by
  unfold registerExtensionModule Accepts
  cases hinit : index.initialized with
  | false => simp
  | true =>
    cases hinfo : moduleOptionIdInfo answers with
    | none => simp
    | some info =>
      show ((index.moduleIndex.emplace module info).find other).isSome ↔ _
      rw [UMap.find_emplace]
      by_cases hother : other = module
      · simp [hother]
      · simp [hother, Ne.symm hother, Entered]

theorem entered_removeExtensionModule (hr : index.Ready) :
    (index.removeExtensionModule module).2.Entered other ↔
      index.Entered other ∧ module ≠ other := by
  rcases removeExtensionModule_cases index module with ⟨h, hnone⟩ | ⟨info, -, hfind, h⟩ <;> rw [h]
  · refine ⟨fun hin => ⟨hin, ?_⟩, And.left⟩
    rintro rfl
    cases hinit : index.initialized with
    | false => exact hr hinit module hin
    | true =>
      have hfound : (index.moduleIndex.find module).isSome := hin
      rw [hnone hinit] at hfound
      cases hfound
  · show ((index.moduleIndex.erase module).find other).isSome ↔ _
    rw [UMap.find_erase]
    by_cases hother : other = module
    · simp [hother]
    · simp [hother, Ne.symm hother, Entered]

theorem ready_new : (new : ExtensionIndex M).Ready := fun _ _ h => by cases h

theorem Ready.initializeIndex (hr : index.Ready) : index.initializeIndex.2.Ready := by
  unfold ExtensionIndex.initializeIndex
  split
  · exact hr
  · intro h
    cases h

theorem Ready.registerExtensionModule (hr : index.Ready) :
    (index.registerExtensionModule module answers).2.Ready := by
  rcases registerExtensionModule_cases index module answers with h | ⟨info, hinit, -, h⟩ <;> rw [h]
  · exact hr
  · intro hfalse
    have hfalse' : index.initialized = false := hfalse
    rw [hinit] at hfalse'
    cases hfalse'

theorem Ready.removeExtensionModule (hr : index.Ready) :
    (index.removeExtensionModule module).2.Ready := by
  rcases removeExtensionModule_cases index module with ⟨h, -⟩ | ⟨info, hinit, -, h⟩ <;> rw [h]
  · exact hr
  · intro hfalse
    have hfalse' : index.initialized = false := hfalse
    rw [hinit] at hfalse'
    cases hfalse'

end Entered

end ExtensionIndex

/-! ## Runs of calls -/

inductive ExtensionCall (M : Type) where
  | initializeIndex
  | registerExtensionModule (module : M) (answers : ExtensionAnswers)
  | removeExtensionModule (module : M)

/-- What a call has done that returned true. -/
inductive ExtensionEvent (M : Type) where
  | registered (module : M) (info : ModuleOptionIdInfo)
  | removed (module : M)

namespace ModuleOptionIdInfo

def append (info more : ModuleOptionIdInfo) : ModuleOptionIdInfo :=
  ⟨info.queryIdList ++ more.queryIdList, info.peerIdList ++ more.peerIdList,
    info.proxyIdList ++ more.proxyIdList⟩

@[simp] theorem idList_append (info more : ModuleOptionIdInfo) (kind : OptionKind) :
    (info.append more).idList kind = info.idList kind ++ more.idList kind := by
  cases kind <;> rfl

end ModuleOptionIdInfo

namespace ExtensionIndex

/-- What the modules that are registered have declared, in all their registrations. -/
def ledgerStep (ledger : UMap M ModuleOptionIdInfo) :
    ExtensionEvent M → UMap M ModuleOptionIdInfo
  | .registered module info =>
    match ledger.find module with
    | none => ledger.assign module info
    | some before => ledger.assign module (before.append info)
  | .removed module => ledger.erase module

def ledger (history : List (ExtensionEvent M)) : UMap M ModuleOptionIdInfo :=
  history.foldl ledgerStep ∅

def IsRegistered (history : List (ExtensionEvent M)) (module : M) : Prop :=
  ((ledger history).find module).isSome

/-- A registered module that has declared the id. -/
def Declares (history : List (ExtensionEvent M)) (kind : OptionKind) (module : M) (id : Nat) :
    Prop :=
  ∃ info, (ledger history).find module = some info ∧ id ∈ info.idList kind

/-- The module is told from the outcome of the call, and what it declares from its answers. -/
def step (index : ExtensionIndex M) : ExtensionCall M → ExtensionIndex M × List (ExtensionEvent M)
  | .initializeIndex => (index.initializeIndex.2, [])
  | .registerExtensionModule module answers =>
    ((index.registerExtensionModule module answers).2,
      match index.registerExtensionModule module answers, moduleOptionIdInfo answers with
      | (true, _), some info => [.registered module info]
      | _, _ => [])
  | .removeExtensionModule module =>
    ((index.removeExtensionModule module).2,
      if (index.removeExtensionModule module).1 then [.removed module] else [])

def machine : Machine (ExtensionIndex M) (ExtensionCall M) (ExtensionEvent M) where
  step := step

/-- The module that is asked for the data of an option. -/
def resolve (index : ExtensionIndex M) (kind : OptionKind) (optionId : Nat) : Option M :=
  index.findModule (index.optionIdIndex kind) optionId

/-- The indexes after the call are as they should be after all that was registered and removed, and
a registration that is refused leaves them. -/
structure StepSound (history : List (ExtensionEvent M)) (index : ExtensionIndex M)
    (call : ExtensionCall M) : Prop where
  declared : ∀ kind module id, Declares (history ++ (step index call).2) kind module id →
    ∃ owner, (step index call).1.resolve kind id = some owner ∧
      Declares (history ++ (step index call).2) kind owner id
  removed : ∀ kind id owner, (step index call).1.resolve kind id = some owner →
    IsRegistered (history ++ (step index call).2) owner
  once : (step index call).1.moduleIndex.keys.Nodup ∧
    ∀ module, module ∈ (step index call).1.moduleIndex.keys ↔
      IsRegistered (history ++ (step index call).2) module
  refused : ∀ module answers, call = .registerExtensionModule module answers →
    (index.registerExtensionModule module answers).1 = false → (step index call).1 = index

/-- The ids that a removal erases are no other module's, and they are all the module is under. -/
def StepOwned (history : List (ExtensionEvent M)) (index : ExtensionIndex M) :
    ExtensionCall M → Prop
  | .removeExtensionModule module =>
    ∀ info, index.moduleIndex.find module = some info → ∀ kind,
      (∀ id ∈ info.idList kind, ∀ other, other ≠ module → ¬ Declares history kind other id) ∧
        ∀ id, index.resolve kind id = some module → id ∈ info.idList kind
  | _ => True

/-! ## The ledger -/

variable {history : List (ExtensionEvent M)} {index : ExtensionIndex M} {kind : OptionKind}
  {module other : M} {id : Nat} {info : ModuleOptionIdInfo}

theorem ledger_append (history : List (ExtensionEvent M)) (event : ExtensionEvent M) :
    ledger (history ++ [event]) = ledgerStep (ledger history) event := by
  simp [ledger]

theorem Declares.isRegistered (h : Declares history kind module id) :
    IsRegistered history module := by
  obtain ⟨info, hinfo, -⟩ := h
  exact Option.isSome_iff_exists.mpr ⟨info, hinfo⟩

theorem isRegistered_registered :
    IsRegistered (history ++ [ExtensionEvent.registered module info]) other ↔
      other = module ∨ IsRegistered history other := by
  unfold IsRegistered
  rw [ledger_append, ledgerStep]
  by_cases hother : other = module
  · subst hother
    cases (ledger history).find other <;> simp
  · cases (ledger history).find module <;> simp [hother]

theorem declares_registered :
    Declares (history ++ [ExtensionEvent.registered module info]) kind other id ↔
      Declares history kind other id ∨ (other = module ∧ id ∈ info.idList kind) := by
  unfold Declares
  rw [ledger_append, ledgerStep]
  by_cases hother : other = module
  · subst hother
    cases (ledger history).find other <;> simp
  · cases (ledger history).find module <;> simp [hother]

theorem isRegistered_removed :
    IsRegistered (history ++ [ExtensionEvent.removed module]) other ↔
      other ≠ module ∧ IsRegistered history other := by
  unfold IsRegistered
  rw [ledger_append, ledgerStep, UMap.find_erase]
  by_cases hother : other = module <;> simp [hother]

theorem declares_removed :
    Declares (history ++ [ExtensionEvent.removed module]) kind other id ↔
      other ≠ module ∧ Declares history kind other id := by
  unfold Declares
  rw [ledger_append, ledgerStep, UMap.find_erase]
  by_cases hother : other = module <;> simp [hother]

/-! ## What every call keeps -/

/-- The indexes are those of the ledger. -/
structure Kept (history : List (ExtensionEvent M)) (index : ExtensionIndex M) : Prop where
  resolves : ∀ kind, Resolves (Declares history kind) (index.optionIdIndex kind)
  modules : ∀ module, (index.moduleIndex.find module).isSome ↔ IsRegistered history module
  record : ∀ module info, index.moduleIndex.find module = some info →
    ∀ kind, ∀ id ∈ info.idList kind, Declares history kind module id
  unused : index.initialized = false → history = []

theorem kept_new : Kept [] (new : ExtensionIndex M) where
  resolves kind := by
    rw [optionIdIndex_new]
    refine Resolves.empty ?_
    rintro module id ⟨info, hinfo, -⟩
    cases hinfo
  modules _ := Iff.rfl
  record _ _ h := by cases h
  unused _ := rfl

theorem Kept.initializeIndex (hk : Kept history index) :
    Kept history index.initializeIndex.2 := by
  unfold ExtensionIndex.initializeIndex
  cases hinit : index.initialized with
  | true => exact hk
  | false =>
    obtain rfl := hk.unused hinit
    refine ⟨fun kind => ?_, fun _ => Iff.rfl, fun _ _ h => (by cases h), fun h => (by cases h)⟩
    have hnew := (kept_new (M := M)).resolves kind
    rw [optionIdIndex_new] at hnew
    cases kind <;> exact hnew

theorem Kept.enterModule (hk : Kept history index) (hinit : index.initialized = true)
    (module : M) (info : ModuleOptionIdInfo) :
    Kept (history ++ [ExtensionEvent.registered module info]) (index.enterModule module info) where
  resolves kind := by
    rw [optionIdIndex_enterModule]
    exact ((hk.resolves kind).emplaceAll (info.idList kind) module).congr
      fun _ _ => declares_registered
  modules other := by
    show ((index.moduleIndex.emplace module info).find other).isSome ↔ _
    rw [isRegistered_registered, ← hk.modules other, UMap.find_emplace]
    by_cases hother : other = module <;> simp [hother]
  record other info' hf kind id hid := by
    rw [declares_registered]
    have hf' : (index.moduleIndex.emplace module info).find other = some info' := hf
    rw [UMap.find_emplace] at hf'
    split at hf'
    · next hother =>
      subst hother
      cases hfind : index.moduleIndex.find other with
      | none =>
        rw [hfind] at hf'
        injection hf' with hinfo
        subst hinfo
        exact .inr ⟨rfl, hid⟩
      | some before =>
        rw [hfind] at hf'
        injection hf' with hinfo
        subst hinfo
        exact .inl (hk.record other _ hfind kind id hid)
    · exact .inl (hk.record other info' hf' kind id hid)
  unused h := by
    have h' : index.initialized = false := h
    rw [hinit] at h'
    cases h'

theorem Kept.resolve_eq (hk : Kept history index) (kind : OptionKind) (id : Nat) :
    index.resolve kind id = (index.optionIdIndex kind).find id := by
  unfold resolve findModule
  cases hinit : index.initialized with
  | true => rfl
  | false =>
    obtain rfl := hk.unused hinit
    cases hfind : (index.optionIdIndex kind).find id with
    | none => rfl
    | some owner =>
      obtain ⟨info, hinfo, -⟩ := (hk.resolves kind).owner id owner hfind
      cases hinfo

/-- Removing a module keeps the indexes if it is under the ids of its record only, and no other
module has declared them. -/
theorem Kept.eraseModule (hk : Kept history index) (hinit : index.initialized = true)
    (hfind : index.moduleIndex.find module = some info)
    (howned : StepOwned history index (.removeExtensionModule module)) :
    Kept (history ++ [ExtensionEvent.removed module]) (index.eraseModule module info) where
  resolves kind := by
    obtain ⟨hothers, hkeys⟩ := howned info hfind kind
    rw [optionIdIndex_eraseModule]
    refine Resolves.congr (Resolves.eraseAll (hk.resolves kind) hothers ?_)
      fun _ _ => declares_removed
    intro id hid
    exact hkeys id ((hk.resolve_eq kind id).trans hid)
  modules other := by
    show ((index.moduleIndex.erase module).find other).isSome ↔ _
    rw [isRegistered_removed, ← hk.modules other, UMap.find_erase]
    by_cases hother : other = module <;> simp [hother]
  record other info' hf kind id hid := by
    have hf' : (index.moduleIndex.erase module).find other = some info' := hf
    rw [UMap.find_erase] at hf'
    split at hf'
    · cases hf'
    · next hother =>
      exact declares_removed.mpr ⟨hother, hk.record other info' hf' kind id hid⟩
  unused h := by
    have h' : index.initialized = false := h
    rw [hinit] at h'
    cases h'

/-- What a call may do, and what it tells. -/
theorem step_cases (index : ExtensionIndex M) (call : ExtensionCall M) :
    step index call = (index, []) ∨
      (call = .initializeIndex ∧ step index call = (index.initializeIndex.2, [])) ∨
      (∃ module answers info, call = .registerExtensionModule module answers ∧
        index.initialized = true ∧
        (index.registerExtensionModule module answers).1 = true ∧
        step index call = (index.enterModule module info, [.registered module info])) ∨
      ∃ module info, call = .removeExtensionModule module ∧ index.initialized = true ∧
        index.moduleIndex.find module = some info ∧
        step index call = (index.eraseModule module info, [.removed module]) := by
  cases call with
  | initializeIndex => exact .inr (.inl ⟨rfl, rfl⟩)
  | registerExtensionModule module answers =>
    rcases registerExtensionModule_cases index module answers with h | ⟨info, hinit, hinfo, h⟩
    · left
      simp only [step, h]
    · refine .inr (.inr (.inl ⟨module, answers, info, rfl, hinit, by rw [h], ?_⟩))
      simp only [step, h, hinfo]
  | removeExtensionModule module =>
    rcases removeExtensionModule_cases index module with ⟨h, -⟩ | ⟨info, hinit, hfind, h⟩
    · left
      simp only [step, h]
      rfl
    · refine .inr (.inr (.inr ⟨module, info, rfl, hinit, hfind, ?_⟩))
      simp only [step, h]
      rfl

theorem Kept.step (hk : Kept history index) {call : ExtensionCall M}
    (howned : StepOwned history index call) :
    Kept (history ++ (step index call).2) (step index call).1 := by
  rcases step_cases index call with h | ⟨-, h⟩ | ⟨module, answers, info, -, hinit, -, h⟩ |
    ⟨module, info, rfl, hinit, hfind, h⟩ <;> rw [h]
  · rw [List.append_nil]
    exact hk
  · rw [List.append_nil]
    exact hk.initializeIndex
  · exact hk.enterModule hinit module info
  · exact hk.eraseModule hinit hfind howned

/-- The call is sound if it keeps the ledger. -/
theorem Kept.stepSound {call : ExtensionCall M}
    (hk : Kept (history ++ (ExtensionIndex.step index call).2)
      (ExtensionIndex.step index call).1) : StepSound history index call where
  declared kind module id hd := by
    obtain ⟨owner, hf⟩ := (hk.resolves kind).declared module id hd
    exact ⟨owner, (hk.resolve_eq kind id).trans hf, (hk.resolves kind).owner id owner hf⟩
  removed kind id owner hr :=
    ((hk.resolves kind).owner id owner ((hk.resolve_eq kind id).symm.trans hr)).isRegistered
  once := ⟨AList.keys_nodup _, fun module => UMap.mem_keys.trans (hk.modules module)⟩
  refused module answers hcall hfalse := by
    subst hcall
    rcases registerExtensionModule_cases index module answers with h | ⟨info, -, -, h⟩
    · show (index.registerExtensionModule module answers).2 = index
      rw [h]
    · rw [h] at hfalse
      cases hfalse

theorem Kept.stepSound_iff (hk : Kept history index) (call : ExtensionCall M) :
    StepSound history index call ↔ StepOwned history index call := by
  constructor
  · intro hs
    cases call with
    | initializeIndex => trivial
    | registerExtensionModule => trivial
    | removeExtensionModule module =>
      intro info hfind kind
      rcases removeExtensionModule_cases index module with ⟨-, hnone⟩ | ⟨info', hinit, hfind', h⟩
      · cases hinit : index.initialized with
        | true =>
          rw [hnone hinit] at hfind
          cases hfind
        | false =>
          obtain rfl := hk.unused hinit
          have hreg := (hk.modules module).mp (by rw [hfind]; rfl)
          cases hreg
      · rw [hfind] at hfind'
        injection hfind' with hinfo
        subst hinfo
        have hstep : ExtensionIndex.step index (.removeExtensionModule module) =
            (index.eraseModule module info, [.removed module]) := by
          simp only [ExtensionIndex.step, h]
          rfl
        have hresolve : ∀ id, (index.eraseModule module info).resolve kind id =
            ((index.optionIdIndex kind).eraseAll (info.idList kind)).find id := by
          intro id
          rw [← optionIdIndex_eraseModule]
          exact if_pos hinit
        have hothers : ∀ other id, other ≠ module → Declares history kind other id →
            ∃ owner, ((index.optionIdIndex kind).eraseAll (info.idList kind)).find id =
              some owner := by
          intro other id hother hd
          have hdeclared := hs.declared kind other id
          rw [hstep] at hdeclared
          obtain ⟨owner, hf, -⟩ := hdeclared (declares_removed.mpr ⟨hother, hd⟩)
          exact ⟨owner, (hresolve id).symm.trans hf⟩
        have hgone : ∀ id,
            ((index.optionIdIndex kind).eraseAll (info.idList kind)).find id ≠ some module := by
          intro id hf
          have hremoved := hs.removed kind id module
          rw [hstep] at hremoved
          exact (isRegistered_removed.mp (hremoved ((hresolve id).trans hf))).1 rfl
        obtain ⟨hids, hkeys⟩ := (hk.resolves kind).eraseAll_iff.mp ⟨hothers, hgone⟩
        exact ⟨hids, fun id hid => hkeys id ((hk.resolve_eq kind id).symm.trans hid)⟩
  · intro howned
    exact (hk.step howned).stepSound

/-- In a run from the start the indexes are right after every call exactly if every removal meets
the condition. -/
theorem along_resolves_iff (calls : List (ExtensionCall M)) :
    machine.Along StepSound [] (new : ExtensionIndex M) calls ↔
      machine.Along StepOwned [] (new : ExtensionIndex M) calls :=
  Machine.along_congr (fun _ _ _ hk howned => hk.step howned)
    (fun _ _ call hk => hk.stepSound_iff call) kept_new

/-- A module that extends the query option with the id. -/
def queryExtension (optionId : Nat) : ExtensionAnswers where
  getQueryOptionExtensionList _ := some [optionId]
  getPeerOptionExtensionList _ := some []
  getProxyOptionExtensionList _ := some []

/-- Two modules extend one option, and the second is removed. -/
def twoExtensions : List (ExtensionCall Nat) :=
  [.initializeIndex, .registerExtensionModule 0 (queryExtension 7),
    .registerExtensionModule 1 (queryExtension 7), .removeExtensionModule 1]

theorem twoExtensions_not_resolved :
    ¬ machine.Along StepSound [] (new : ExtensionIndex Nat) twoExtensions := by
  rintro ⟨-, -, -, hs, -⟩
  obtain ⟨owner, hf, -⟩ := hs.declared .query 0 7
    ⟨⟨[7], [], []⟩, by decide +kernel, by decide⟩
  have hnone : (none : Option Nat) = some owner := hf
  cases hnone

end ExtensionIndex

end Alpine
