import Alpine.Lib.Heap
import Alpine.Lib.Run

/-!
# Copies of objects with option data

An `AlpineQueryOptions` and an `AlpineResourceDesc` own their option data through a pointer. The
copy constructor leaves the pointer of the copy uninitialised unless the source has option data with
an option ID other than 0, and `operator=` leaves that of the target as it is. What a member
function does is undefined (`none`) if it reads an uninitialised pointer, or uses or deletes what
was deleted before.

Each object is to be a value of its own (`OptionValue`), and each option data object to be owned by
one of them (`Agrees`).
-/

namespace Alpine

open Lib

/-- The data of an extension: its `getOptionId`, and the content that `duplicate` copies. -/
structure ExtensionData (C : Type) where
  optionId : Nat
  content : C

inductive OptionPointer where
  | null
  | address (a : Nat)
  | uninitialised

/-- An object of either class; `F` has the members that are copied one by one. -/
structure OptionObject (F : Type) where
  members : F
  optionId : Nat
  optionData : OptionPointer

/-- What an object is to be. -/
structure OptionValue (F C : Type) where
  members : F
  optionId : Nat
  optionData : Option (ExtensionData C)

structure OptionStore (F C : Type) where
  objects : UMap Nat (OptionObject F)
  heap : Heap (ExtensionData C)

/-- The calls; `change` is any of the setters of the members that are copied one by one. -/
inductive OptionCall (F C : Type) where
  | construct (id : Nat)
  | copyConstruct (id source : Nat)
  | assign (id source : Nat)
  | change (id : Nat) (setter : F → F)
  | setOptionId (id optionId : Nat)
  | setOptionData (id : Nat) (optionData : ExtensionData C)
  | getOptionData (id : Nat)
  | destroy (id : Nat)

/-- What a call returns, and the duplicate that `getOptionData` hands out. -/
abbrev OptionAnswer (C : Type) := Bool × Option (ExtensionData C)

variable {F C : Type}

namespace OptionPointer

def address? : OptionPointer → Option Nat
  | null => none
  | address a => some a
  | uninitialised => none

/-- What is behind a pointer. -/
def read (heap : Heap (ExtensionData C)) : OptionPointer → Option (Option (ExtensionData C))
  | null => some none
  | address a => (heap.get a).map some
  | uninitialised => none

/-- `delete`, if the pointer is not null. -/
def delete (heap : Heap (ExtensionData C)) : OptionPointer → Option (Heap (ExtensionData C))
  | null => some heap
  | address a => if (heap.get a).isSome then some (heap.free a) else none
  | uninitialised => none

end OptionPointer

namespace OptionObject

def construct (defaults : F) : OptionObject F := ⟨defaults, 0, .null⟩

/-- Whether the option data of a source is duplicated: the pointer is read if the option ID is not
0. -/
def duplicates (heap : Heap (ExtensionData C)) (copy : OptionObject F) :
    Option (Option (ExtensionData C)) :=
  if copy.optionId ≠ 0 then copy.optionData.read heap else some none

def copyConstruct (heap : Heap (ExtensionData C)) (copy : OptionObject F) :
    Option (OptionObject F × Heap (ExtensionData C)) := do
  match ← copy.duplicates heap with
  | some optionData =>
    some (⟨copy.members, copy.optionId, .address heap.next⟩, heap.alloc optionData)
  | none => some (⟨copy.members, copy.optionId, .uninitialised⟩, heap)

/-- `operator=` of an object that is not the target itself. -/
def assign (heap : Heap (ExtensionData C)) (target copy : OptionObject F) :
    Option (OptionObject F × Heap (ExtensionData C)) := do
  match ← copy.duplicates heap with
  | some optionData => do
    let heap ← target.optionData.delete heap
    some (⟨copy.members, copy.optionId, .address heap.next⟩, heap.alloc optionData)
  | none => some (⟨copy.members, copy.optionId, target.optionData⟩, heap)

def setOptionId (o : OptionObject F) (optionId : Nat) : Bool × OptionObject F :=
  if optionId ≠ 0 then (false, o) else (true, { o with optionId })

/-- The data that is passed is the caller's, and stays so. -/
def setOptionData (heap : Heap (ExtensionData C)) (o : OptionObject F)
    (optionData : ExtensionData C) : Option (OptionObject F × Heap (ExtensionData C)) := do
  let heap ← o.optionData.delete heap
  some (⟨o.members, optionData.optionId, .address heap.next⟩, heap.alloc optionData)

/-- The duplicate is the caller's. -/
def getOptionData (heap : Heap (ExtensionData C)) (o : OptionObject F) :
    Option (OptionAnswer C) := do
  match ← o.duplicates heap with
  | some optionData => some (true, some optionData)
  | none => some (false, none)

def destroy (heap : Heap (ExtensionData C)) (o : OptionObject F) :
    Option (Heap (ExtensionData C)) :=
  o.optionData.delete heap

/-- The value that an object represents, if its pointer can be read. -/
def value (heap : Heap (ExtensionData C)) (o : OptionObject F) : Option (OptionValue F C) :=
  (o.optionData.read heap).map (⟨o.members, o.optionId, ·⟩)

end OptionObject

/-! ## Calls -/

namespace OptionStore

def empty : OptionStore F C := ⟨∅, Heap.empty⟩

/-- A call for an object that there is not does nothing, and so does a constructor for one that
there is. -/
def call (defaults : F) (s : OptionStore F C) :
    OptionCall F C → Option (OptionAnswer C × OptionStore F C)
  | .construct id =>
    match s.objects.find id with
    | some _ => some ((false, none), s)
    | none =>
      some ((true, none), ⟨s.objects.assign id (OptionObject.construct defaults), s.heap⟩)
  | .copyConstruct id source =>
    match s.objects.find id, s.objects.find source with
    | none, some copy => do
      let made ← copy.copyConstruct s.heap
      some ((true, none), ⟨s.objects.assign id made.1, made.2⟩)
    | _, _ => some ((false, none), s)
  | .assign id source =>
    match s.objects.find id, s.objects.find source with
    | some target, some copy =>
      if id = source then some ((true, none), s)
      else do
        let made ← target.assign s.heap copy
        some ((true, none), ⟨s.objects.assign id made.1, made.2⟩)
    | _, _ => some ((false, none), s)
  | .change id setter =>
    match s.objects.find id with
    | none => some ((false, none), s)
    | some o =>
      let changed : OptionObject F := { o with members := setter o.members }
      some ((true, none), ⟨s.objects.assign id changed, s.heap⟩)
  | .setOptionId id optionId =>
    match s.objects.find id with
    | none => some ((false, none), s)
    | some o =>
      let set := o.setOptionId optionId
      some ((set.1, none), ⟨s.objects.assign id set.2, s.heap⟩)
  | .setOptionData id optionData =>
    match s.objects.find id with
    | none => some ((false, none), s)
    | some o => do
      let set ← o.setOptionData s.heap optionData
      some ((true, none), ⟨s.objects.assign id set.1, set.2⟩)
  | .getOptionData id =>
    match s.objects.find id with
    | none => some ((false, none), s)
    | some o => do
      let answer ← o.getOptionData s.heap
      some (answer, s)
  | .destroy id =>
    match s.objects.find id with
    | none => some ((false, none), s)
    | some o => do
      let heap ← o.destroy s.heap
      some ((true, none), ⟨s.objects.erase id, heap⟩)

/-- The option data object that an object owns. -/
def owner (s : OptionStore F C) (id : Nat) : Option Nat :=
  (s.objects.find id).bind fun o => o.optionData.address?

end OptionStore

/-! ## The values -/

namespace OptionValue

def setOptionId (v : OptionValue F C) (optionId : Nat) : Bool × OptionValue F C :=
  if optionId ≠ 0 then (false, v) else (true, { v with optionId })

def getOptionData (v : OptionValue F C) : OptionAnswer C :=
  if v.optionId = 0 then (false, none) else (v.optionData.isSome, v.optionData)

end OptionValue

/-- What a call is to do: a copy equals its source, a change is one of that object. -/
def callOptionValues (defaults : F) (values : UMap Nat (OptionValue F C)) :
    OptionCall F C → OptionAnswer C × UMap Nat (OptionValue F C)
  | .construct id =>
    match values.find id with
    | some _ => ((false, none), values)
    | none => ((true, none), values.assign id ⟨defaults, 0, none⟩)
  | .copyConstruct id source =>
    match values.find id, values.find source with
    | none, some copy => ((true, none), values.assign id copy)
    | _, _ => ((false, none), values)
  | .assign id source =>
    match values.find id, values.find source with
    | some _, some copy => ((true, none), values.assign id copy)
    | _, _ => ((false, none), values)
  | .change id setter =>
    match values.find id with
    | none => ((false, none), values)
    | some v => ((true, none), values.assign id { v with members := setter v.members })
  | .setOptionId id optionId =>
    match values.find id with
    | none => ((false, none), values)
    | some v => (((v.setOptionId optionId).1, none), values.assign id (v.setOptionId optionId).2)
  | .setOptionData id optionData =>
    match values.find id with
    | none => ((false, none), values)
    | some v =>
      ((true, none), values.assign id ⟨v.members, optionData.optionId, some optionData⟩)
  | .getOptionData id =>
    match values.find id with
    | none => ((false, none), values)
    | some v => (v.getOptionData, values)
  | .destroy id =>
    match values.find id with
    | none => ((false, none), values)
    | some _ => ((true, none), values.erase id)

/-- The objects are the values, and own the option data one to one. -/
structure OptionStore.Agrees (s : OptionStore F C) (values : UMap Nat (OptionValue F C)) :
    Prop where
  objects : ∀ id, (s.objects.find id).map (·.value s.heap) = (values.find id).map some
  owned : s.heap.Owned s.owner

/-- The objects after some calls, and what they are to be. -/
structure OptionRun (F C : Type) where
  store : OptionStore F C
  values : UMap Nat (OptionValue F C)

namespace OptionRun

def start : OptionRun F C := ⟨OptionStore.empty, ∅⟩

/-- After a call that is undefined the objects stay as they were. -/
def step (defaults : F) (s : OptionRun F C) (c : OptionCall F C) : OptionRun F C :=
  ⟨((s.store.call defaults c).map Prod.snd).getD s.store, (callOptionValues defaults s.values c).2⟩

def machine (defaults : F) : Machine (OptionRun F C) (OptionCall F C) Unit where
  step s c := (step defaults s c, [])

/-- The call is defined, answers as the values do, and leaves objects that are the values. -/
def Refines (defaults : F) (_ : List Unit) (s : OptionRun F C) (c : OptionCall F C) : Prop :=
  ∃ s', s.store.call defaults c = some ((callOptionValues defaults s.values c).1, s') ∧
    s'.Agrees (callOptionValues defaults s.values c).2

/-- The source has option data that is duplicated. -/
def HasData (s : OptionStore F C) (copy : OptionObject F) : Prop :=
  ∃ optionData, copy.duplicates s.heap = some (some optionData)

/-- A copy is made of an object with option data and an option ID, and one without is assigned only
to one with equal option data, or none either. -/
def Fits (_ : List Unit) (s : OptionRun F C) : OptionCall F C → Prop
  | .copyConstruct id source =>
    s.store.objects.find id = none →
      ∀ copy, s.store.objects.find source = some copy → HasData s.store copy
  | .assign id source =>
    id ≠ source → ∀ target copy, s.store.objects.find id = some target →
      s.store.objects.find source = some copy →
        HasData s.store copy ∨
          target.optionData.read s.store.heap = copy.optionData.read s.store.heap
  | _ => True

end OptionRun

/-! ## Objects and their values -/

namespace OptionObject

variable {heap heap' : Heap (ExtensionData C)} {o : OptionObject F} {v : OptionValue F C}

theorem value_eq_some : o.value heap = some v ↔
    v.members = o.members ∧ v.optionId = o.optionId ∧
      o.optionData.read heap = some v.optionData := by
  obtain ⟨members, optionId, optionData⟩ := v
  simp only [value, Option.map_eq_some_iff, OptionValue.mk.injEq]
  constructor
  · rintro ⟨d, hread, rfl, rfl, rfl⟩
    exact ⟨rfl, rfl, hread⟩
  · rintro ⟨rfl, rfl, hread⟩
    exact ⟨optionData, hread, rfl, rfl, rfl⟩

/-- The value is that of the option data behind the pointer. -/
theorem value_congr (h : ∀ a, o.optionData.address? = some a → heap'.get a = heap.get a) :
    o.value heap' = o.value heap := by
  unfold value
  cases hpointer : o.optionData with
  | null => rfl
  | uninitialised => rfl
  | address a =>
    rw [hpointer] at h
    rw [OptionPointer.read, OptionPointer.read, h a rfl]

theorem duplicates_of_value (h : o.value heap = some v) :
    o.duplicates heap = some (if v.optionId ≠ 0 then v.optionData else none) := by
  obtain ⟨-, hid, hread⟩ := value_eq_some.mp h
  rw [duplicates, hread, hid]
  split <;> rfl

end OptionObject

namespace OptionStore

variable {defaults : F} {s : OptionStore F C} {values : UMap Nat (OptionValue F C)} {id : Nat}
  {o : OptionObject F}

theorem owner_of_find (ho : s.objects.find id = some o) : s.owner id = o.optionData.address? := by
  rw [owner, ho]
  rfl

theorem owner_of_none (ho : s.objects.find id = none) : s.owner id = none := by
  rw [owner, ho]
  rfl

theorem owner_assign (id : Nat) (o : OptionObject F) (heap : Heap (ExtensionData C)) :
    owner ⟨s.objects.assign id o, heap⟩ =
      fun j => if j = id then o.optionData.address? else s.owner j := by
  funext j
  rw [owner, UMap.find_assign]
  split <;> rfl

theorem owner_erase (id : Nat) (heap : Heap (ExtensionData C)) :
    owner ⟨s.objects.erase id, heap⟩ = fun j => if j = id then none else s.owner j := by
  funext j
  rw [owner, UMap.find_erase]
  split <;> rfl

theorem agrees_empty : (empty : OptionStore F C).Agrees ∅ :=
  ⟨fun _ => rfl, Heap.owned_empty⟩

namespace Agrees

theorem value (h : s.Agrees values) (ho : s.objects.find id = some o) :
    ∃ v, values.find id = some v ∧ o.value s.heap = some v := by
  have hvalue := h.objects id
  rw [ho, Option.map_some] at hvalue
  obtain ⟨v, hv, heq⟩ := Option.map_eq_some_iff.mp hvalue.symm
  exact ⟨v, hv, heq.symm⟩

theorem value_none (h : s.Agrees values) (ho : s.objects.find id = none) :
    values.find id = none := by
  have hvalue := h.objects id
  rw [ho, Option.map_none] at hvalue
  exact Option.map_eq_none_iff.mp hvalue.symm

/-- An object is made or changed, and the option data of the others is left alone. -/
theorem assign (h : s.Agrees values) {heap : Heap (ExtensionData C)} {v : OptionValue F C}
    (hheap : ∀ j a, j ≠ id → s.owner j = some a → heap.get a = s.heap.get a)
    (hvalue : o.value heap = some v)
    (howned : heap.Owned fun j => if j = id then o.optionData.address? else s.owner j) :
    Agrees ⟨s.objects.assign id o, heap⟩ (values.assign id v) := by
  refine ⟨fun j => ?_, by rw [owner_assign]; exact howned⟩
  rw [UMap.find_assign, UMap.find_assign]
  by_cases hj : j = id
  · rw [if_pos hj, if_pos hj, Option.map_some, Option.map_some, hvalue]
  · rw [if_neg hj, if_neg hj, ← h.objects j]
    cases ho : s.objects.find j with
    | none => rfl
    | some other =>
      rw [Option.map_some, Option.map_some, OptionObject.value_congr fun a ha => ?_]
      exact hheap j a hj (by rw [owner_of_find ho, ha])

/-- An object keeps its pointer. -/
theorem assign_members (h : s.Agrees values) {old : OptionObject F}
    (hold : s.objects.find id = some old) (hpointer : o.optionData = old.optionData)
    {v : OptionValue F C} (hvalue : o.value s.heap = some v) :
    Agrees ⟨s.objects.assign id o, s.heap⟩ (values.assign id v) := by
  refine h.assign (fun _ _ _ _ => rfl) hvalue ?_
  have hown : (fun j => if j = id then o.optionData.address? else s.owner j) = s.owner := by
    funext j
    split
    · next hj => rw [hj, hpointer, owner_of_find hold]
    · rfl
  rw [hown]
  exact h.owned

/-- An object without option data gets a new one. -/
theorem assign_alloc (h : s.Agrees values) {heap : Heap (ExtensionData C)}
    (howned : heap.Owned fun j => if j = id then none else s.owner j)
    (hheap : ∀ j a, j ≠ id → s.owner j = some a → heap.get a = s.heap.get a) (members : F)
    (optionId : Nat) (d : ExtensionData C) :
    Agrees ⟨s.objects.assign id ⟨members, optionId, .address heap.next⟩, heap.alloc d⟩
      (values.assign id ⟨members, optionId, some d⟩) := by
  refine h.assign (fun j a hj ha => ?_) ?_ (howned.alloc d (i := id) (if_pos rfl) (fun j => ?_) ?_)
  · rw [Heap.get_alloc, if_neg (howned.ne_next (i := j) (by rw [if_neg hj, ha])), hheap j a hj ha]
  · refine OptionObject.value_eq_some.mpr ⟨rfl, rfl, ?_⟩
    rw [OptionPointer.read, Heap.get_alloc, if_pos rfl]
    rfl
  · by_cases hj : j = id
    · exact .inr ⟨hj, if_pos hj⟩
    · exact .inl (by rw [if_neg hj, if_neg hj])
  · exact if_pos rfl

theorem owned_without (h : s.Agrees values) (hid : s.owner id = none) :
    s.heap.Owned fun j => if j = id then none else s.owner j := by
  have hsame : (fun j => if j = id then none else s.owner j) = s.owner := by
    funext j
    split
    · next hj => rw [hj, hid]
    · rfl
  rw [hsame]
  exact h.owned

/-- The option data of an object is deleted, if there is any. -/
theorem delete (h : s.Agrees values) (ho : s.objects.find id = some o) :
    ∃ heap, o.optionData.delete s.heap = some heap ∧
      (heap.Owned fun j => if j = id then none else s.owner j) ∧
        ∀ j a, j ≠ id → s.owner j = some a → heap.get a = s.heap.get a := by
  have hown := owner_of_find ho
  obtain ⟨v, -, hvalue⟩ := h.value ho
  obtain ⟨-, -, hread⟩ := OptionObject.value_eq_some.mp hvalue
  cases hpointer : o.optionData with
  | uninitialised =>
    rw [hpointer] at hread
    cases hread
  | null =>
    rw [hpointer] at hown
    exact ⟨s.heap, rfl, h.owned_without hown, fun _ _ _ _ => rfl⟩
  | address a =>
    rw [hpointer] at hown
    refine ⟨s.heap.free a, if_pos (h.owned.isSome hown), ?_, fun j b hj hb => ?_⟩
    · exact h.owned.free hown (fun j hj => if_neg hj) (if_pos rfl)
    · rw [Heap.get_free, if_neg]
      rintro rfl
      exact hj (h.owned.one j id b hb hown)

end Agrees

end OptionStore

/-! ## Calls that fit, and calls that do not -/

namespace OptionRun

attribute [local simp] OptionStore.call callOptionValues

variable {defaults : F} {s : OptionRun F C}

theorem duplicates_eq (h : s.store.Agrees s.values) {id : Nat} {copy : OptionObject F}
    (ho : s.store.objects.find id = some copy) :
    copy.duplicates s.store.heap = some none ∨ HasData s.store copy := by
  obtain ⟨v, -, hvalue⟩ := h.value ho
  have hdup := OptionObject.duplicates_of_value hvalue
  cases hdata : (if v.optionId ≠ 0 then v.optionData else none) with
  | none => exact .inl (hdup.trans (congrArg some hdata))
  | some d => exact .inr ⟨d, hdup.trans (congrArg some hdata)⟩

/-- What is duplicated is the option data of the value. -/
theorem optionData_of_hasData {o : OptionObject F} {v : OptionValue F C}
    (hvalue : o.value s.store.heap = some v) {d : ExtensionData C}
    (hd : o.duplicates s.store.heap = some (some d)) :
    v = ⟨o.members, o.optionId, some d⟩ := by
  obtain ⟨hmembers, hid, -⟩ := OptionObject.value_eq_some.mp hvalue
  rw [OptionObject.duplicates_of_value hvalue, Option.some.injEq] at hd
  split at hd
  · rw [← hmembers, ← hid, ← hd]
  · cases hd

theorem refines_construct (h : s.store.Agrees s.values) (id : Nat) :
    Refines defaults [] s (.construct id) := by
  rw [Refines, OptionStore.call, callOptionValues]
  cases ho : s.store.objects.find id with
  | some o =>
    obtain ⟨v, hv, -⟩ := h.value ho
    rw [hv]
    exact ⟨s.store, rfl, h⟩
  | none =>
    rw [h.value_none ho]
    exact ⟨_, rfl, h.assign (fun _ _ _ _ => rfl) rfl
      (h.owned_without (OptionStore.owner_of_none ho))⟩

theorem refines_copyConstruct (h : s.store.Agrees s.values) {id source : Nat}
    (hfits : Fits [] s (.copyConstruct id source)) :
    Refines defaults [] s (.copyConstruct id source) := by
  rw [Refines, OptionStore.call, callOptionValues]
  cases ho : s.store.objects.find id with
  | some o =>
    obtain ⟨v, hv, -⟩ := h.value ho
    rw [hv]
    exact ⟨s.store, rfl, h⟩
  | none =>
    rw [h.value_none ho]
    cases hsource : s.store.objects.find source with
    | none =>
      rw [h.value_none hsource]
      exact ⟨s.store, rfl, h⟩
    | some copy =>
      obtain ⟨v, hv, hvalue⟩ := h.value hsource
      obtain ⟨d, hd⟩ := hfits ho copy hsource
      rw [hv, optionData_of_hasData hvalue hd]
      dsimp only
      rw [OptionObject.copyConstruct, hd]
      exact ⟨_, rfl, h.assign_alloc (h.owned_without (OptionStore.owner_of_none ho))
        (fun _ _ _ _ => rfl) copy.members copy.optionId d⟩

theorem refines_assign (h : s.store.Agrees s.values) {id source : Nat}
    (hfits : Fits [] s (.assign id source)) : Refines defaults [] s (.assign id source) := by
  rw [Refines, OptionStore.call, callOptionValues]
  cases ho : s.store.objects.find id with
  | none =>
    rw [h.value_none ho]
    exact ⟨s.store, rfl, h⟩
  | some target =>
    obtain ⟨u, hu, hvaluet⟩ := h.value ho
    rw [hu]
    cases hsource : s.store.objects.find source with
    | none =>
      rw [h.value_none hsource]
      exact ⟨s.store, rfl, h⟩
    | some copy =>
      obtain ⟨v, hv, hvalue⟩ := h.value hsource
      rw [hv]
      dsimp only
      by_cases hsame : id = source
      · rw [if_pos hsame]
        subst hsame
        rw [ho, Option.some.injEq] at hsource
        subst hsource
        have hthis := h.assign_members ho rfl hvalue
        refine ⟨s.store, rfl, fun j => ?_, h.owned⟩
        rw [← hthis.objects j, UMap.find_assign]
        split
        · next hj => rw [hj, ho]
        · rfl
      · rw [if_neg hsame, OptionObject.assign]
        rcases duplicates_eq h hsource with hnone | ⟨d, hd⟩
        · -- The target keeps its option data, which is that of the source.
          rw [hnone]
          have hread : target.optionData.read s.store.heap =
              copy.optionData.read s.store.heap := by
            refine (hfits hsame target copy ho hsource).resolve_left ?_
            rintro ⟨d, hd⟩
            rw [hnone] at hd
            cases hd
          obtain ⟨hmembers, hid, hreadc⟩ := OptionObject.value_eq_some.mp hvalue
          let made : OptionObject F := ⟨copy.members, copy.optionId, target.optionData⟩
          exact ⟨_, rfl, h.assign_members (o := made) ho rfl
            (OptionObject.value_eq_some.mpr ⟨hmembers, hid, hread.trans hreadc⟩)⟩
        · obtain ⟨heap, hdelete, howned, hheap⟩ := h.delete ho
          rw [hd, optionData_of_hasData hvalue hd]
          dsimp only [Option.bind_eq_bind, Option.bind_some]
          rw [hdelete]
          exact ⟨_, rfl, h.assign_alloc howned hheap copy.members copy.optionId d⟩

theorem refines_change (h : s.store.Agrees s.values) (id : Nat) (setter : F → F) :
    Refines defaults [] s (.change id setter) := by
  rw [Refines, OptionStore.call, callOptionValues]
  cases ho : s.store.objects.find id with
  | none =>
    rw [h.value_none ho]
    exact ⟨s.store, rfl, h⟩
  | some o =>
    obtain ⟨v, hv, hvalue⟩ := h.value ho
    rw [hv]
    obtain ⟨hmembers, hid, hread⟩ := OptionObject.value_eq_some.mp hvalue
    let changed : OptionObject F := { o with members := setter o.members }
    exact ⟨_, rfl, h.assign_members (o := changed) ho rfl
      (OptionObject.value_eq_some.mpr ⟨congrArg setter hmembers, hid, hread⟩)⟩

theorem refines_setOptionId (h : s.store.Agrees s.values) (id optionId : Nat) :
    Refines defaults [] s (.setOptionId id optionId) := by
  rw [Refines, OptionStore.call, callOptionValues]
  cases ho : s.store.objects.find id with
  | none =>
    rw [h.value_none ho]
    exact ⟨s.store, rfl, h⟩
  | some o =>
    obtain ⟨v, hv, hvalue⟩ := h.value ho
    rw [hv]
    dsimp only
    rw [OptionObject.setOptionId, OptionValue.setOptionId]
    by_cases hzero : optionId ≠ 0
    · rw [if_pos hzero, if_pos hzero]
      exact ⟨_, rfl, h.assign_members ho rfl hvalue⟩
    · rw [if_neg hzero, if_neg hzero]
      obtain ⟨hmembers, -, hread⟩ := OptionObject.value_eq_some.mp hvalue
      let set : OptionObject F := { o with optionId }
      exact ⟨_, rfl, h.assign_members (o := set) ho rfl
        (OptionObject.value_eq_some.mpr ⟨hmembers, rfl, hread⟩)⟩

theorem refines_setOptionData (h : s.store.Agrees s.values) (id : Nat) (d : ExtensionData C) :
    Refines defaults [] s (.setOptionData id d) := by
  rw [Refines, OptionStore.call, callOptionValues]
  cases ho : s.store.objects.find id with
  | none =>
    rw [h.value_none ho]
    exact ⟨s.store, rfl, h⟩
  | some o =>
    obtain ⟨v, hv, hvalue⟩ := h.value ho
    obtain ⟨hmembers, -, -⟩ := OptionObject.value_eq_some.mp hvalue
    obtain ⟨heap, hdelete, howned, hheap⟩ := h.delete ho
    rw [hv]
    dsimp only
    rw [OptionObject.setOptionData, hdelete, hmembers]
    exact ⟨_, rfl, h.assign_alloc howned hheap o.members d.optionId d⟩

theorem refines_getOptionData (h : s.store.Agrees s.values) (id : Nat) :
    Refines defaults [] s (.getOptionData id) := by
  rw [Refines, OptionStore.call, callOptionValues]
  cases ho : s.store.objects.find id with
  | none =>
    rw [h.value_none ho]
    exact ⟨s.store, rfl, h⟩
  | some o =>
    obtain ⟨v, hv, hvalue⟩ := h.value ho
    rw [hv]
    dsimp only
    refine ⟨s.store, ?_, h⟩
    rw [OptionObject.getOptionData, OptionObject.duplicates_of_value hvalue,
      OptionValue.getOptionData]
    by_cases hid : v.optionId = 0
    · rw [if_neg (not_not.mpr hid), if_pos hid]
      rfl
    · rw [if_pos hid, if_neg hid]
      cases v.optionData <;> rfl

theorem refines_destroy (h : s.store.Agrees s.values) (id : Nat) :
    Refines defaults [] s (.destroy id) := by
  rw [Refines, OptionStore.call, callOptionValues]
  cases ho : s.store.objects.find id with
  | none =>
    rw [h.value_none ho]
    exact ⟨s.store, rfl, h⟩
  | some o =>
    obtain ⟨v, hv, -⟩ := h.value ho
    obtain ⟨heap, hdelete, howned, hheap⟩ := h.delete ho
    rw [hv]
    dsimp only
    rw [OptionObject.destroy, hdelete]
    refine ⟨_, rfl, fun j => ?_, by rw [OptionStore.owner_erase]; exact howned⟩
    rw [UMap.find_erase, UMap.find_erase]
    by_cases hj : j = id
    · rw [if_pos hj, if_pos hj]
      rfl
    · rw [if_neg hj, if_neg hj, ← h.objects j]
      cases hother : s.store.objects.find j with
      | none => rfl
      | some other =>
        rw [Option.map_some, Option.map_some, OptionObject.value_congr fun a ha => ?_]
        exact hheap j a hj (by rw [OptionStore.owner_of_find hother, ha])

theorem refines_of_fits (h : s.store.Agrees s.values) {c : OptionCall F C} (hfits : Fits [] s c) :
    Refines defaults [] s c := by
  cases c with
  | construct id => exact refines_construct h id
  | copyConstruct id source => exact refines_copyConstruct h hfits
  | assign id source => exact refines_assign h hfits
  | change id setter => exact refines_change h id setter
  | setOptionId id optionId => exact refines_setOptionId h id optionId
  | setOptionData id d => exact refines_setOptionData h id d
  | getOptionData id => exact refines_getOptionData h id
  | destroy id => exact refines_destroy h id

/-- A copy whose pointer is uninitialised has no value. -/
theorem hasData_of_refines_copyConstruct (h : s.store.Agrees s.values) {id source : Nat}
    (hrefines : Refines defaults [] s (.copyConstruct id source)) :
    Fits [] s (.copyConstruct id source) := by
  intro ho copy hsource
  obtain ⟨s', hcall, hagrees⟩ := hrefines
  refine (duplicates_eq h hsource).resolve_left fun hnone => ?_
  obtain ⟨v, hv, hvalue⟩ := h.value hsource
  rw [callOptionValues, h.value_none ho, hv] at hcall hagrees
  rw [OptionStore.call, ho, hsource] at hcall
  dsimp only at hcall
  rw [OptionObject.copyConstruct, hnone] at hcall
  cases hcall
  have hcopy := hagrees.objects id
  rw [UMap.find_assign, UMap.find_assign, if_pos rfl, if_pos rfl] at hcopy
  cases hcopy

theorem fits_of_refines_assign (h : s.store.Agrees s.values) {id source : Nat}
    (hrefines : Refines defaults [] s (.assign id source)) : Fits [] s (.assign id source) := by
  intro hsame target copy ho hsource
  obtain ⟨s', hcall, hagrees⟩ := hrefines
  refine (duplicates_eq h hsource).symm.imp_right fun hnone => ?_
  obtain ⟨u, hu, -⟩ := h.value ho
  obtain ⟨v, hv, hvalue⟩ := h.value hsource
  rw [callOptionValues, hu, hv] at hcall hagrees
  rw [OptionStore.call, ho, hsource] at hcall
  dsimp only at hcall
  rw [if_neg hsame, OptionObject.assign, hnone] at hcall
  cases hcall
  have hcopy := hagrees.objects id
  rw [UMap.find_assign, UMap.find_assign, if_pos rfl, if_pos rfl,
    Option.map_some, Option.map_some, Option.some.injEq] at hcopy
  exact (OptionObject.value_eq_some.mp hcopy).2.2.trans
    (OptionObject.value_eq_some.mp hvalue).2.2.symm

theorem fits_of_refines (h : s.store.Agrees s.values) {c : OptionCall F C}
    (hrefines : Refines defaults [] s c) : Fits [] s c := by
  cases c with
  | copyConstruct id source => exact hasData_of_refines_copyConstruct h hrefines
  | assign id source => exact fits_of_refines_assign h hrefines
  | construct id => trivial
  | change id setter => trivial
  | setOptionId id optionId => trivial
  | setOptionData id d => trivial
  | getOptionData id => trivial
  | destroy id => trivial

theorem agrees_step (h : s.store.Agrees s.values) {c : OptionCall F C} (hfits : Fits [] s c) :
    (step defaults s c).store.Agrees (step defaults s c).values := by
  obtain ⟨s', hcall, hagrees⟩ := @refines_of_fits _ _ defaults _ h _ hfits
  show (((s.store.call defaults c).map Prod.snd).getD s.store).Agrees _
  rw [hcall]
  exact hagrees

theorem along_refines (calls : List (OptionCall F C)) :
    (machine defaults).Along (Refines defaults) [] start calls ↔
      (machine defaults).Along Fits [] start calls :=
  Machine.along_congr (M := machine defaults) (I := fun _ s => s.store.Agrees s.values)
    (fun _ _ _ h hfits => agrees_step h hfits)
    (fun _ _ _ h => ⟨fits_of_refines h, refines_of_fits h⟩) OptionStore.agrees_empty

end OptionRun

/-! ## The two classes -/

/-- The members of an `AlpineQueryOptions` that are copied one by one. -/
structure QueryOptionsMembers where
  group : String
  autoHaltLimit : Nat
  maxDescPerPeer : Nat
  query : String
  priority : UInt8

/-- The members of an `AlpineResourceDesc` that are copied one by one. -/
structure ResourceDescMembers where
  matchId : Nat
  size : Nat
  locatorList : List String
  description : String

def defaultHaltLimit : Nat := 10

def defaultMaxDescLimit : Nat := 128

namespace AlpineQueryOptions

def defaults : QueryOptionsMembers := ⟨"default", defaultHaltLimit, defaultMaxDescLimit, "", 128⟩

def machine : Machine (OptionRun QueryOptionsMembers C) (OptionCall QueryOptionsMembers C) Unit :=
  OptionRun.machine defaults

def Refines :
    List Unit → OptionRun QueryOptionsMembers C → OptionCall QueryOptionsMembers C → Prop :=
  OptionRun.Refines defaults

end AlpineQueryOptions

namespace AlpineResourceDesc

def defaults : ResourceDescMembers := ⟨0, 0, [], ""⟩

def machine : Machine (OptionRun ResourceDescMembers C) (OptionCall ResourceDescMembers C) Unit :=
  OptionRun.machine defaults

def Refines :
    List Unit → OptionRun ResourceDescMembers C → OptionCall ResourceDescMembers C → Prop :=
  OptionRun.Refines defaults

end AlpineResourceDesc

/-- The calls of a run on objects of either class do to them what they do to the values exactly if
they fit. -/
theorem optionCopies_refine_iff_fit (queryCalls : List (OptionCall QueryOptionsMembers C))
    (descCalls : List (OptionCall ResourceDescMembers C)) :
    (AlpineQueryOptions.machine.Along AlpineQueryOptions.Refines [] OptionRun.start queryCalls ↔
      AlpineQueryOptions.machine.Along OptionRun.Fits [] OptionRun.start queryCalls) ∧
    (AlpineResourceDesc.machine.Along AlpineResourceDesc.Refines [] OptionRun.start descCalls ↔
      AlpineResourceDesc.machine.Along OptionRun.Fits [] OptionRun.start descCalls) :=
  ⟨OptionRun.along_refines queryCalls, OptionRun.along_refines descCalls⟩

/-- The copy of a new object has a pointer that nothing was written to. -/
theorem plainCopy_not_refines :
    ¬ (AlpineQueryOptions.machine (C := Unit)).Along AlpineQueryOptions.Refines [] OptionRun.start
      [.construct 0, .copyConstruct 1 0] := by
  rintro ⟨-, hcopy, -⟩
  have hmade : (OptionRun.step (C := Unit) AlpineQueryOptions.defaults OptionRun.start
      (.construct 0)).store.Agrees _ := OptionRun.agrees_step OptionStore.agrees_empty trivial
  obtain ⟨d, hd⟩ := OptionRun.hasData_of_refines_copyConstruct hmade hcopy rfl _ rfl
  cases hd

end Alpine
