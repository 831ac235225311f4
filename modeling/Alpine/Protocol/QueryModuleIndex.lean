import Alpine.Lib.Owners

/-!
# The index of the query modules

`AlpineQueryModuleIndex` has the query modules by address, with the option ids each has declared,
and by option id. A module is entered if the index is initialised and the module tells its list.
-/

namespace Alpine

open Lib

variable {M : Type} [DecidableEq M]

/-- The static members of `AlpineQueryModuleIndex`. -/
structure QueryModuleIndex (M : Type) where
  initialized : Bool
  optionIdIndex : UMap Nat M
  moduleIndex : UMap M (List Nat)

namespace QueryModuleIndex

def new : QueryModuleIndex M := ⟨false, ∅, ∅⟩

def initializeIndex (index : QueryModuleIndex M) : Bool × QueryModuleIndex M :=
  if index.initialized then (false, index)
  else (true, ⟨true, ∅, ∅⟩)

/-- `answer` is what the module's `getQueryOptionExtensionList` says. -/
def registerQueryModule (index : QueryModuleIndex M) (module : M) (answer : Option (List Nat)) :
    Bool × QueryModuleIndex M :=
  if !index.initialized then (false, index)
  else
    match answer with
    | none => (false, index)
    | some optionIdList =>
      (true,
        { index with
          optionIdIndex := index.optionIdIndex.emplaceAll optionIdList module
          moduleIndex := index.moduleIndex.emplace module optionIdList })

def removeQueryModule (index : QueryModuleIndex M) (module : M) : Bool × QueryModuleIndex M :=
  if !index.initialized then (false, index)
  else
    match index.moduleIndex.find module with
    | none => (false, index)
    | some optionIdList =>
      (true,
        { index with
          optionIdIndex := index.optionIdIndex.eraseAll optionIdList
          moduleIndex := index.moduleIndex.erase module })

/-- The module is registered. -/
def Entered (index : QueryModuleIndex M) (module : M) : Prop :=
  (index.moduleIndex.find module).isSome

/-- A registration with this answer is not refused. -/
def Accepts (index : QueryModuleIndex M) (answer : Option (List Nat)) : Prop :=
  index.initialized = true ∧ answer.isSome

/-- Only an initialised index has modules. -/
def Ready (index : QueryModuleIndex M) : Prop :=
  index.initialized = false → ∀ module, ¬ index.Entered module

variable {index : QueryModuleIndex M} {module other : M} {answer : Option (List Nat)}

theorem entered_initializeIndex (hr : index.Ready) :
    index.initializeIndex.2.Entered module ↔ index.Entered module := by
  unfold initializeIndex
  cases hinit : index.initialized with
  | true => exact Iff.rfl
  | false => exact ⟨fun h => (by cases h), fun h => absurd h (hr hinit module)⟩

theorem entered_registerQueryModule :
    (index.registerQueryModule module answer).2.Entered other ↔
      index.Entered other ∨ (module = other ∧ index.Accepts answer) := by
  unfold registerQueryModule Accepts
  cases hinit : index.initialized with
  | false => simp
  | true =>
    cases answer with
    | none => simp
    | some optionIdList =>
      show ((index.moduleIndex.emplace module optionIdList).find other).isSome ↔ _
      rw [UMap.find_emplace]
      by_cases hother : other = module
      · simp [hother]
      · simp [hother, Ne.symm hother, Entered]

theorem entered_removeQueryModule (hr : index.Ready) :
    (index.removeQueryModule module).2.Entered other ↔ index.Entered other ∧ module ≠ other := by
  unfold removeQueryModule
  cases hinit : index.initialized with
  | false =>
    have hnone : ¬ index.Entered other := hr hinit other
    simp [hnone]
  | true =>
    cases hfind : index.moduleIndex.find module with
    | none =>
      constructor
      · intro h
        refine ⟨h, ?_⟩
        rintro rfl
        have hin : (index.moduleIndex.find module).isSome := h
        rw [hfind] at hin
        cases hin
      · exact And.left
    | some optionIdList =>
      show ((index.moduleIndex.erase module).find other).isSome ↔ _
      rw [UMap.find_erase]
      by_cases hother : other = module
      · simp [hother]
      · simp [hother, Ne.symm hother, Entered]

theorem ready_new : (new : QueryModuleIndex M).Ready := fun _ _ h => by cases h

theorem Ready.initializeIndex (hr : index.Ready) : index.initializeIndex.2.Ready := by
  unfold QueryModuleIndex.initializeIndex
  split
  · exact hr
  · intro h
    cases h

theorem Ready.registerQueryModule (hr : index.Ready) :
    (index.registerQueryModule module answer).2.Ready := by
  unfold QueryModuleIndex.registerQueryModule
  split
  · exact hr
  · next hinit =>
    cases answer with
    | none => exact hr
    | some optionIdList =>
      intro h
      have h' : index.initialized = false := h
      simp [h'] at hinit

theorem Ready.removeQueryModule (hr : index.Ready) :
    (index.removeQueryModule module).2.Ready := by
  unfold QueryModuleIndex.removeQueryModule
  split
  · exact hr
  · next hinit =>
    cases index.moduleIndex.find module with
    | none => exact hr
    | some optionIdList =>
      intro h
      have h' : index.initialized = false := h
      simp [h'] at hinit

end QueryModuleIndex

end Alpine
