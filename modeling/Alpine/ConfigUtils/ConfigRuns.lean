import Alpine.ConfigUtils.Configuration

/-!
# What a configuration holds over time

A run of the configuration is a list of initializations, reloads with new files and changes of the
file's path. `StepOk` says what the documented order of the sources promises: the file first, then
the arguments, then the environment, for the whole list of elements and after each reload for the
new file. What an element takes is what the first located element of its name and kind takes, which
is an argument or, if that element has a name in the file, the last argument taken before it
(`populateFrom_spec`). A run keeps the promise exactly if these values happen to be the promised
ones (`along_configured_iff`).
-/

namespace Alpine

open Lib

inductive ConfigCall where
  | initializeConfig (start : Configuration.Start)
  | reload (contents : ConfigMap)
  | enableAutoReload (configFilePath : ConfigText)

namespace Configuration

/-- The event is the result of the call. -/
def step (config : Configuration) : ConfigCall → Configuration × List Bool
  | .initializeConfig start =>
    ((config.initializeConfig start).2, [(config.initializeConfig start).1])
  | .reload contents => ((config.reload contents).2, [(config.reload contents).1])
  | .enableAutoReload configFilePath =>
    ((config.enableAutoReload configFilePath).2, [(config.enableAutoReload configFilePath).1])

def machine : Machine Configuration ConfigCall Bool := ⟨step⟩

/-! ## What the sources promise -/

/-- The value of an element: from the file, the arguments, the environment. -/
def given (file args env : ConfigMap) (element : ConfigElement) : Option ConfigText :=
  (if element.fileOptionName = [] then none else file.find element.fileOptionName) <|>
    argGiven args element <|>
    if element.envOptionName = [] then none else env.find element.envOptionName

/-- A client that asks for the element is told `value`, or that there is none. -/
def Answers (listOf : ConfigText → List ConfigText) (data : ConfigData) (element : ConfigElement)
    (value : Option ConfigText) : Prop :=
  if element.optionType.isList then data.getValueList element.elementName = value.map listOf
  else data.getValue element.elementName = value

/-- Each required element is given somewhere. -/
def RequiredGiven (file args env : ConfigMap) (elements : List ConfigElement) : Prop :=
  ∀ element ∈ elements, element.required = true → (given file args env element).isSome

/-- What one call is meant to do; `listOf` is the format of a list in a source. -/
def StepOk (listOf : ConfigText → List ConfigText) (config : Configuration) : ConfigCall → Prop
  | .initializeConfig start =>
    let args := ArgumentMap.load start.argv
    let result := config.initializeConfig start
    if config.initFlag then result.1 = false ∧ result.2.configData = config.configData
    else
      (result.1 = true ↔ RequiredGiven start.contents args start.environ start.configElements) ∧
      (result.1 = true → ∀ element ∈ start.configElements, Answers listOf result.2.configData
        element (given start.contents args start.environ element))
  | .reload contents =>
    let result := config.reload contents
    (result.1 = true → ∀ element ∈ config.configData.elementList, Answers listOf
      result.2.configData element (given contents config.argumentMap config.environMap element)) ∧
    (result.1 = false → result.2.configData = config.configData)
  | .enableAutoReload configFilePath =>
    (config.enableAutoReload configFilePath).2.configData = config.configData

/-! ## When the code keeps the promise -/

/-- The element has a name in the file or is among the arguments. -/
def Located (args : ConfigMap) (element : ConfigElement) : Prop :=
  element.fileOptionName ≠ [] ∨ (argGiven args element).isSome

instance (args : ConfigMap) (element : ConfigElement) : Decidable (Located args element) :=
  inferInstanceAs (Decidable (_ ∨ _))

/-- The value of the element goes under this name and kind. -/
def Takes (elements : List ConfigElement) (name : ConfigText) (isList : Bool)
    (element : ConfigElement) : Prop :=
  element.elementName = name ∧ element.optionType.isList = isList ∧ Typed elements name isList

instance (elements : List ConfigElement) (name : ConfigText) (isList : Bool)
    (element : ConfigElement) : Decidable (Takes elements name isList element) :=
  inferInstanceAs (Decidable (_ ∧ _ ∧ _))

/-- The argument of an element that has no name in the file. -/
def ownArg (args : ConfigMap) (element : ConfigElement) : Option ConfigText :=
  if element.fileOptionName = [] then argGiven args element else none

/-- The last such argument, or the empty text. -/
def lastArg (args : ConfigMap) (elements : List ConfigElement) : ConfigText :=
  ((elements.filterMap (ownArg args)).getLast?).getD []

/-- The promised value is the one that the loop takes: no value if no element of this name and kind
is located; else the empty list, the argument of the first of them, or, if that has a name in the
file, the last argument before it. -/
structure ValueFits (listOf : ConfigText → List ConfigText) (args : ConfigMap)
    (elements : List ConfigElement) (element : ConfigElement) (value : Option ConfigText) :
    Prop where
  absent : (∀ other ∈ elements,
      Takes elements element.elementName element.optionType.isList other → ¬ Located args other) →
    value = none
  present : ∀ before first after, elements = before ++ first :: after →
    Takes elements element.elementName element.optionType.isList first → Located args first →
    (∀ other ∈ before,
      Takes elements element.elementName element.optionType.isList other → ¬ Located args other) →
    if element.optionType.isList then value.map listOf = some []
    else if first.fileOptionName = [] then value = argGiven args first
    else value = some (lastArg args before)

/-- Each required element is located, and of the kind of the first element of its name. -/
def RequiredLocated (args : ConfigMap) (all elements : List ConfigElement) : Prop :=
  ∀ element ∈ elements, element.required = true →
    Located args element ∧ Typed all element.elementName element.optionType.isList

instance (args : ConfigMap) (all elements : List ConfigElement) :
    Decidable (RequiredLocated args all elements) :=
  inferInstanceAs (Decidable (∀ element ∈ elements, _ → _))

/-- The condition on one call. -/
def StepFits (listOf : ConfigText → List ConfigText) (config : Configuration) :
    ConfigCall → Prop
  | .initializeConfig start =>
    let args := ArgumentMap.load start.argv
    let elements := start.configElements
    config.initFlag = false →
      (RequiredLocated args elements elements ↔
        RequiredGiven start.contents args start.environ elements) ∧
      (RequiredLocated args elements elements → ∀ element ∈ elements,
        ValueFits listOf args elements element (given start.contents args start.environ element))
  | .reload contents =>
    config.initialized = true ∧ config.configFilePath ≠ [] →
      ∀ element ∈ config.configData.elementList,
        ValueFits listOf config.argumentMap config.configData.elementList element
          (given contents config.argumentMap config.environMap element)
  | .enableAutoReload _ => True

/-! ## What the loop takes -/

/-- The value that the loop puts under a name and kind that has none. -/
def heldFrom (args : ConfigMap) (all : List ConfigElement) (name : ConfigText) (isList : Bool) :
    ConfigText → List ConfigElement → Option ConfigText
  | _, [] => none
  | currValue, element :: elements =>
    (if Takes all name isList element then taken args currValue element else none).or
      (heldFrom args all name isList ((taken args currValue element).getD currValue) elements)

section Held

variable {args : ConfigMap} {all elements before after : List ConfigElement} {name : ConfigText}
  {isList : Bool} {currValue value : ConfigText} {element first : ConfigElement}
  {config : Configuration} {data data' : ConfigData}

theorem taken_isSome (args : ConfigMap) (currValue : ConfigText) (element : ConfigElement) :
    (taken args currValue element).isSome = true ↔ Located args element := by
  unfold taken Located
  by_cases hfile : element.fileOptionName = []
  · simp [hfile]
  · simp [hfile]

theorem taken_eq_none (h : ¬ Located args element) (currValue : ConfigText) :
    taken args currValue element = none := by
  rw [← taken_isSome args currValue, Option.not_isSome_iff_eq_none] at h
  exact h

theorem taken_getD (args : ConfigMap) (currValue : ConfigText) (element : ConfigElement) :
    (taken args currValue element).getD currValue = (ownArg args element).getD currValue := by
  unfold taken ownArg
  split
  · rfl
  · rfl

/-- The variable after a part of the loop. -/
theorem foldl_taken (args : ConfigMap) (currValue : ConfigText) (elements : List ConfigElement) :
    elements.foldl (fun curr element => (taken args curr element).getD curr) currValue =
      ((elements.filterMap (ownArg args)).getLast?).getD currValue := by
  induction elements generalizing currValue with
  | nil => rfl
  | cons element elements ih =>
    rw [List.foldl_cons, ih, taken_getD]
    cases hown : ownArg args element with
    | none => rw [List.filterMap_cons_none hown]; rfl
    | some value =>
      rw [List.filterMap_cons_some hown, List.getLast?_cons]
      rfl

theorem heldFrom_eq_none (h : ∀ other ∈ elements, Takes all name isList other →
      ¬ Located args other) (currValue : ConfigText) :
    heldFrom args all name isList currValue elements = none := by
  induction elements generalizing currValue with
  | nil => rfl
  | cons element elements ih =>
    have hrest := ih (fun other hother => h other (List.mem_cons_of_mem _ hother))
    rw [heldFrom, hrest, Option.or_none]
    split
    · next htakes => exact taken_eq_none (h element List.mem_cons_self htakes) currValue
    · rfl

theorem heldFrom_first (htakes : Takes all name isList first) (hlocated : Located args first)
    (hbefore : ∀ other ∈ before, Takes all name isList other → ¬ Located args other)
    (currValue : ConfigText) :
    heldFrom args all name isList currValue (before ++ first :: after) =
      taken args (before.foldl (fun curr element => (taken args curr element).getD curr) currValue)
        first := by
  induction before generalizing currValue with
  | nil =>
    have hsome := (taken_isSome args currValue first).mpr hlocated
    obtain ⟨value, hvalue⟩ := Option.isSome_iff_exists.mp hsome
    rw [List.nil_append, heldFrom, if_pos htakes, List.foldl_nil, hvalue]
    rfl
  | cons element before ih =>
    have hnone : (if Takes all name isList element then taken args currValue element else none) =
        none := by
      split
      · next hmine => exact taken_eq_none (hbefore element List.mem_cons_self hmine) currValue
      · rfl
    rw [List.cons_append, heldFrom, hnone, Option.none_or, List.foldl_cons]
    exact ih (fun other hother => hbefore other (List.mem_cons_of_mem _ hother)) _

/-- The data with one more value. -/
def stored (element : ConfigElement) (value : ConfigText) (data : ConfigData) : ConfigData :=
  if element.optionType.isList then
    { data with valueListIndex := data.valueListIndex.emplace element.elementName [] }
  else { data with valueIndex := data.valueIndex.emplace element.elementName value }

@[simp] theorem stored_elementList (element : ConfigElement) (value : ConfigText)
    (data : ConfigData) : (stored element value data).elementList = data.elementList := by
  unfold stored
  split <;> rfl

theorem stored_value
    (htyped : Typed data.elementList element.elementName element.optionType.isList)
    (value name : ConfigText) :
    (stored element value data).valueIndex.find name = (data.valueIndex.find name).or
      (if Takes data.elementList name false element then some value else none) := by
  unfold stored
  cases hlist : element.optionType.isList with
  | true =>
    have hnot : ¬ Takes data.elementList name false element :=
      fun h => absurd (hlist.symm.trans h.2.1) (by decide)
    rw [if_pos rfl, if_neg hnot, Option.or_none]
  | false =>
    rw [if_neg (by decide), UMap.find_emplace_eq_or]
    rw [hlist] at htyped
    by_cases hname : element.elementName = name
    · subst hname
      rw [if_pos rfl, if_pos ⟨rfl, hlist, htyped⟩]
    · rw [if_neg hname, if_neg fun h => hname h.1]

theorem stored_valueList
    (htyped : Typed data.elementList element.elementName element.optionType.isList)
    (value name : ConfigText) :
    (stored element value data).valueListIndex.find name = (data.valueListIndex.find name).or
      (if Takes data.elementList name true element then some [] else none) := by
  unfold stored
  cases hlist : element.optionType.isList with
  | false =>
    have hnot : ¬ Takes data.elementList name true element :=
      fun h => absurd (hlist.symm.trans h.2.1) (by decide)
    rw [if_neg (by decide), if_neg hnot, Option.or_none]
  | true =>
    rw [if_pos rfl, UMap.find_emplace_eq_or]
    rw [hlist] at htyped
    by_cases hname : element.elementName = name
    · subst hname
      rw [if_pos rfl, if_pos ⟨rfl, hlist, htyped⟩]
    · rw [if_neg hname, if_neg fun h => hname h.1]

/-- One round of the loop. -/
theorem populateFrom_cons (config : Configuration) (currValue : ConfigText)
    (element : ConfigElement) (elements : List ConfigElement) (data : ConfigData) :
    config.populateFrom currValue (element :: elements) data =
      match taken config.argumentMap currValue element with
      | none =>
        if element.required then (false, data) else config.populateFrom currValue elements data
      | some value =>
        if Typed data.elementList element.elementName element.optionType.isList then
          config.populateFrom value elements (stored element value data)
        else if element.required then (false, data)
        else config.populateFrom value elements data := by
  rw [populateFrom, locateValue_eq]
  cases taken config.argumentMap currValue element with
  | none => simp
  | some value =>
    by_cases htyped : Typed data.elementList element.elementName element.optionType.isList
    · simp [insertValue_typed htyped, htyped, stored]
    · simp [insertValue_not_typed htyped, htyped]

/-- What the loop leaves if it gets through. -/
structure Populated (args : ConfigMap) (currValue : ConfigText) (elements : List ConfigElement)
    (data data' : ConfigData) : Prop where
  value : ∀ name, data'.valueIndex.find name = (data.valueIndex.find name).or
    (heldFrom args data.elementList name false currValue elements)
  valueList : ∀ name, data'.valueListIndex.find name = (data.valueListIndex.find name).or
    ((heldFrom args data.elementList name true currValue elements).map fun _ => [])

/-- The round of an element whose value is not inserted. -/
theorem Populated.skip {data'' : ConfigData}
    (hskip : ∀ name isList, Takes data.elementList name isList element →
      taken args currValue element = none)
    (hrest : Populated args ((taken args currValue element).getD currValue) elements data data'') :
    Populated args currValue (element :: elements) data data'' := by
  have hnone : ∀ name isList, (if Takes data.elementList name isList element then
      taken args currValue element else none) = none := by
    intro name isList
    split
    · next htakes => exact hskip name isList htakes
    · rfl
  constructor
  · intro name
    rw [hrest.value, heldFrom, hnone, Option.none_or]
  · intro name
    rw [hrest.valueList, heldFrom, hnone, Option.none_or]

theorem Populated.store
    (htyped : Typed data.elementList element.elementName element.optionType.isList)
    (hvalue : taken args currValue element = some value)
    (hrest : Populated args value elements (stored element value data) data') :
    Populated args currValue (element :: elements) data data' := by
  constructor
  · intro name
    rw [hrest.value, stored_value htyped, stored_elementList, heldFrom, hvalue, Option.or_assoc]
    rfl
  · intro name
    rw [hrest.valueList, stored_valueList htyped, stored_elementList, heldFrom, hvalue,
      Option.or_assoc]
    split <;> simp

/-- The loop gets through exactly if each required element is located and of the right kind. -/
theorem populateFrom_spec (config : Configuration) (currValue : ConfigText)
    (elements : List ConfigElement) (data : ConfigData) :
    ((config.populateFrom currValue elements data).1 = true ↔
      RequiredLocated config.argumentMap data.elementList elements) ∧
    (config.populateFrom currValue elements data).2.elementList = data.elementList ∧
    (RequiredLocated config.argumentMap data.elementList elements →
      Populated config.argumentMap currValue elements data
        (config.populateFrom currValue elements data).2) := by
  induction elements generalizing currValue data with
  | nil =>
    refine ⟨?_, rfl, fun _ => ⟨?_, ?_⟩⟩
    · simp [populateFrom, RequiredLocated]
    · simp [populateFrom, heldFrom]
    · simp [populateFrom, heldFrom]
  | cons element elements ih =>
    have hcons : RequiredLocated config.argumentMap data.elementList (element :: elements) ↔
        (element.required = true → Located config.argumentMap element ∧
          Typed data.elementList element.elementName element.optionType.isList) ∧
        RequiredLocated config.argumentMap data.elementList elements := List.forall_mem_cons
    rw [populateFrom_cons, hcons]
    cases htaken : taken config.argumentMap currValue element with
    | none =>
      have hnot : ¬ Located config.argumentMap element := by
        rw [← taken_isSome config.argumentMap currValue, htaken]
        decide
      dsimp only
      by_cases hrequired : element.required = true
      · rw [if_pos hrequired]
        exact ⟨⟨fun h => (by cases h), fun h => absurd (h.1 hrequired).1 hnot⟩, rfl,
          fun h => absurd (h.1 hrequired).1 hnot⟩
      · rw [if_neg hrequired]
        obtain ⟨hstatus, hlist, hdata⟩ := ih currValue data
        refine ⟨⟨fun h => ⟨fun hyes => absurd hyes hrequired, hstatus.mp h⟩,
          fun h => hstatus.mpr h.2⟩, hlist, fun h => ?_⟩
        exact Populated.skip (fun _ _ _ => htaken) (by rw [htaken]; exact hdata h.2)
    | some value =>
      have hlocated : Located config.argumentMap element := by
        rw [← taken_isSome config.argumentMap currValue, htaken]
        rfl
      dsimp only
      by_cases htyped : Typed data.elementList element.elementName element.optionType.isList
      · rw [if_pos htyped]
        obtain ⟨hstatus, hlist, hdata⟩ := ih value (stored element value data)
        rw [stored_elementList] at hstatus hlist hdata
        exact ⟨⟨fun h => ⟨fun _ => ⟨hlocated, htyped⟩, hstatus.mp h⟩, fun h => hstatus.mpr h.2⟩,
          hlist, fun h => Populated.store htyped htaken (hdata h.2)⟩
      · rw [if_neg htyped]
        by_cases hrequired : element.required = true
        · rw [if_pos hrequired]
          exact ⟨⟨fun h => (by cases h), fun h => absurd (h.1 hrequired).2 htyped⟩, rfl,
            fun h => absurd (h.1 hrequired).2 htyped⟩
        · rw [if_neg hrequired]
          obtain ⟨hstatus, hlist, hdata⟩ := ih value data
          refine ⟨⟨fun h => ⟨fun hyes => absurd hyes hrequired, hstatus.mp h⟩,
            fun h => hstatus.mpr h.2⟩, hlist, fun h => ?_⟩
          refine Populated.skip (fun name isList htakes => ?_) (by rw [htaken]; exact hdata h.2)
          obtain ⟨rfl, rfl, hyes⟩ := htakes
          exact absurd hyes htyped

/-! ## What the configuration answers -/

/-- The data has what the loop takes. -/
structure Holds (args : ConfigMap) (data : ConfigData) : Prop where
  value : ∀ name, data.valueIndex.find name =
    heldFrom args data.elementList name false [] data.elementList
  valueList : ∀ name, data.valueListIndex.find name =
    (heldFrom args data.elementList name true [] data.elementList).map fun _ => []

theorem Holds.of_populated (hpopulated : Populated args [] data.elementList data data')
    (hlist : data'.elementList = data.elementList)
    (hold : data.valueIndex = ∅ ∧ data.valueListIndex = ∅ ∨ Holds args data) :
    Holds args data' := by
  constructor
  · intro name
    rw [hpopulated.value, hlist]
    obtain ⟨hempty, -⟩ | hholds := hold
    · rw [hempty, UMap.find_empty, Option.none_or]
    · rw [hholds.value, Option.or_self]
  · intro name
    rw [hpopulated.valueList, hlist]
    obtain ⟨-, hempty⟩ | hholds := hold
    · rw [hempty, UMap.find_empty, Option.none_or]
    · rw [hholds.valueList, Option.or_self]

theorem Holds.answers {listOf : ConfigText → List ConfigText} (hholds : Holds args data)
    (element : ConfigElement) (value : Option ConfigText) :
    Answers listOf data element value ↔
      if element.optionType.isList then
        (heldFrom args data.elementList element.elementName element.optionType.isList []
          data.elementList).map (fun _ => []) = value.map listOf
      else heldFrom args data.elementList element.elementName element.optionType.isList []
        data.elementList = value := by
  unfold Answers ConfigData.getValue ConfigData.getValueList
  cases element.optionType.isList with
  | true => rw [if_pos rfl, if_pos rfl, hholds.valueList]
  | false => rw [if_neg (by decide), if_neg (by decide), hholds.value]

/-- The first located element of a name and kind, with what the loop takes from it. -/
theorem heldFrom_eq (htakes : Takes all name isList first) (hlocated : Located args first)
    (hbefore : ∀ other ∈ before, Takes all name isList other → ¬ Located args other)
    (hsplit : elements = before ++ first :: after) :
    heldFrom args all name isList [] elements =
      if first.fileOptionName = [] then argGiven args first else some (lastArg args before) := by
  rw [hsplit, heldFrom_first htakes hlocated hbefore, foldl_taken]
  rfl

theorem argGiven_isSome (hlocated : Located args first) (hfile : first.fileOptionName = []) :
    ∃ value, argGiven args first = some value :=
  Option.isSome_iff_exists.mp (hlocated.resolve_left fun h => h hfile)

/-- The answer is the promised one exactly if the promised value fits. -/
theorem Holds.answers_iff {listOf : ConfigText → List ConfigText} (hholds : Holds args data)
    (element : ConfigElement) (value : Option ConfigText) :
    Answers listOf data element value ↔
      ValueFits listOf args data.elementList element value := by
  rw [hholds.answers]
  constructor
  · intro hanswers
    constructor
    · intro habsent
      rw [heldFrom_eq_none habsent] at hanswers
      split at hanswers
      · exact Option.map_eq_none_iff.mp hanswers.symm
      · exact hanswers.symm
    · intro before first after hsplit htakes hlocated hbefore
      have hheld := heldFrom_eq htakes hlocated hbefore hsplit
      rw [hheld] at hanswers
      split
      · next hlist =>
        rw [if_pos hlist] at hanswers
        rw [← hanswers]
        split
        · next hfile =>
          obtain ⟨text, htext⟩ := argGiven_isSome hlocated hfile
          rw [htext]
          rfl
        · rfl
      · next hlist =>
        rw [if_neg hlist] at hanswers
        split
        · next hfile => rw [if_pos hfile] at hanswers; exact hanswers.symm
        · next hfile => rw [if_neg hfile] at hanswers; exact hanswers.symm
  · intro hfits
    cases hfind : data.elementList.find? (fun other => Takes data.elementList element.elementName
        element.optionType.isList other ∧ Located args other) with
    | none =>
      have habsent : ∀ other ∈ data.elementList, Takes data.elementList element.elementName
          element.optionType.isList other → ¬ Located args other := by
        intro other hother htakes hlocated
        exact List.find?_eq_none.mp hfind other hother (decide_eq_true ⟨htakes, hlocated⟩)
      rw [heldFrom_eq_none habsent, hfits.absent habsent]
      split <;> rfl
    | some first =>
      obtain ⟨hfirst, before, after, hsplit, hnot⟩ := List.find?_eq_some_iff_append.mp hfind
      obtain ⟨htakes, hlocated⟩ := of_decide_eq_true hfirst
      have hbefore : ∀ other ∈ before, Takes data.elementList element.elementName
          element.optionType.isList other → ¬ Located args other := by
        intro other hother hmine hyes
        have hfalse := hnot other hother
        rw [decide_eq_true (p := _ ∧ _) ⟨hmine, hyes⟩] at hfalse
        cases hfalse
      have hheld := heldFrom_eq htakes hlocated hbefore hsplit
      have hpresent := hfits.present before first after hsplit htakes hlocated hbefore
      rw [hheld]
      split
      · next hlist =>
        rw [if_pos hlist] at hpresent
        rw [hpresent]
        split
        · next hfile =>
          obtain ⟨text, htext⟩ := argGiven_isSome hlocated hfile
          rw [htext]
          rfl
        · rfl
      · next hlist =>
        rw [if_neg hlist] at hpresent
        split at hpresent
        · next hfile => rw [if_pos hfile]; exact hpresent.symm
        · next hfile => rw [if_neg hfile]; exact hpresent.symm

end Held

/-! ## Runs -/

/-- Before the first initialization there is nothing; after one that succeeded the data has what
the loop takes. -/
structure Kept (config : Configuration) : Prop where
  fresh : config.initFlag = false → config = new
  located : config.initialized = true → RequiredLocated config.argumentMap
    config.configData.elementList config.configData.elementList
  holds : config.initialized = true → Holds config.argumentMap config.configData

theorem kept_new : Kept new := ⟨fun _ => rfl, fun h => (by cases h), fun h => (by cases h)⟩

variable {config : Configuration} {listOf : ConfigText → List ConfigText}

/-- The configuration in which the first initialization looks for the values. -/
def started (start : Start) : Configuration where
  initFlag := true
  initialized := false
  configFilePath := []
  configFile := start.contents
  argumentMap := ArgumentMap.load start.argv
  environMap := start.environ
  configData := ⟨start.configElements, ∅, ∅⟩

/-- What the first initialization does. -/
theorem initializeConfig_new (start : Start) :
    new.initializeConfig start =
      if (started start).populateValues.1 then
        (true, { started start with
          configData := (started start).populateValues.2
          configFilePath := start.configFilePath
          initialized := true })
      else (false, { started start with configData := (started start).populateValues.2 }) := by
  unfold initializeConfig started
  rw [if_neg (by decide)]
  dsimp only [new]
  rw [List.nil_append]

theorem initializeConfig_again (h : config.initFlag = true) (start : Start) :
    config.initializeConfig start = (false, config) := by
  unfold initializeConfig
  rw [if_pos h]

/-- Looking for the values again finds the same. -/
theorem populateValues_spec (config : Configuration) :
    (config.populateValues.1 = true ↔ RequiredLocated config.argumentMap
      config.configData.elementList config.configData.elementList) ∧
    config.populateValues.2.elementList = config.configData.elementList ∧
    (RequiredLocated config.argumentMap config.configData.elementList
      config.configData.elementList →
      Populated config.argumentMap [] config.configData.elementList config.configData
        config.populateValues.2) :=
  populateFrom_spec config [] config.configData.elementList config.configData

/-- The first initialization, with the data that it leaves. -/
theorem started_spec (start : Start) :
    ((started start).populateValues.1 = true ↔ RequiredLocated (ArgumentMap.load start.argv)
      start.configElements start.configElements) ∧
    (started start).populateValues.2.elementList = start.configElements ∧
    ((started start).populateValues.1 = true →
      Holds (ArgumentMap.load start.argv) (started start).populateValues.2) := by
  obtain ⟨hstatus, hlist, hpopulated⟩ := populateValues_spec (started start)
  refine ⟨hstatus, hlist, fun h => ?_⟩
  exact Holds.of_populated (hpopulated (hstatus.mp h)) hlist (.inl ⟨rfl, rfl⟩)

theorem reload_refused (h : config.initialized = false ∨ config.configFilePath = [])
    (contents : ConfigMap) : config.reload contents = (false, config) := by
  unfold reload
  rw [if_pos h]

/-- A reload succeeds and looks for the values again. -/
theorem Kept.reload_spec (hkept : Kept config) (hinit : config.initialized = true)
    (hpath : config.configFilePath ≠ []) (contents : ConfigMap) :
    ∃ data, config.reload contents = (true, { config with
        configFile := contents, configData := data }) ∧
      data.elementList = config.configData.elementList ∧ Holds config.argumentMap data := by
  have hnot : ¬ (config.initialized = false ∨ config.configFilePath = []) := by
    rintro (h | h)
    · rw [hinit] at h
      cases h
    · exact hpath h
  obtain ⟨hstatus, hlist, hpopulated⟩ :=
    populateValues_spec { config with configFile := contents }
  have hlocated := hkept.located hinit
  refine ⟨_, ?_, hlist, Holds.of_populated (hpopulated hlocated) hlist
    (.inr (hkept.holds hinit))⟩
  unfold reload
  rw [if_neg hnot]
  dsimp only
  rw [hstatus.mpr hlocated]

theorem Kept.step (hkept : Kept config) (call : ConfigCall) : Kept (config.step call).1 := by
  cases call with
  | initializeConfig start =>
    change Kept (config.initializeConfig start).2
    cases hflag : config.initFlag with
    | true =>
      rw [initializeConfig_again hflag]
      exact hkept
    | false =>
      obtain ⟨hstatus, hlist, hholds⟩ := started_spec start
      rw [hkept.fresh hflag, initializeConfig_new]
      split
      · next hyes =>
        refine ⟨fun h => (by cases h), fun _ => ?_, fun _ => hholds hyes⟩
        dsimp only [started]
        change RequiredLocated _ (started start).populateValues.2.elementList
          (started start).populateValues.2.elementList
        rw [hlist]
        exact hstatus.mp hyes
      · exact ⟨fun h => (by cases h), fun h => (by cases h), fun h => (by cases h)⟩
  | reload contents =>
    change Kept (config.reload contents).2
    by_cases hrefused : config.initialized = false ∨ config.configFilePath = []
    · rw [reload_refused hrefused]
      exact hkept
    · obtain ⟨hinit, hpath⟩ := not_or.mp hrefused
      rw [Bool.not_eq_false] at hinit
      obtain ⟨data, hreload, hlist, hholds⟩ := hkept.reload_spec hinit hpath contents
      rw [hreload]
      refine ⟨fun h => ?_, fun _ => ?_, fun _ => hholds⟩
      · have hnew := hkept.fresh h
        rw [hnew] at hinit
        cases hinit
      · dsimp only
        rw [hlist]
        exact hkept.located hinit
  | enableAutoReload path =>
    change Kept (config.enableAutoReload path).2
    unfold enableAutoReload
    cases hinit : config.initialized with
    | false => exact hkept
    | true =>
      refine ⟨fun h => ?_, fun _ => hkept.located hinit, fun _ => hkept.holds hinit⟩
      have hnew := hkept.fresh h
      rw [hnew] at hinit
      cases hinit

/-- One call does what is promised exactly under the condition. -/
theorem Kept.stepOk_iff (hkept : Kept config) (call : ConfigCall) :
    StepOk listOf config call ↔ StepFits listOf config call := by
  cases call with
  | initializeConfig start =>
    unfold StepOk StepFits
    dsimp only
    cases hflag : config.initFlag with
    | true =>
      rw [initializeConfig_again hflag]
      exact ⟨fun _ h => (by cases h), fun _ => ⟨rfl, rfl⟩⟩
    | false =>
      obtain ⟨hstatus, hlist, hholds⟩ := started_spec start
      rw [hkept.fresh hflag, initializeConfig_new, ← hstatus]
      cases hyes : (started start).populateValues.1 with
      | false => simp
      | true =>
        have hanswers : ∀ element value,
            Answers listOf (started start).populateValues.2 element value ↔
              ValueFits listOf (ArgumentMap.load start.argv) start.configElements element
                value := by
          intro element value
          rw [(hholds hyes).answers_iff, hlist]
        simp [hanswers]
  | reload contents =>
    unfold StepOk StepFits
    dsimp only
    by_cases hrefused : config.initialized = false ∨ config.configFilePath = []
    · rw [reload_refused hrefused]
      refine ⟨fun _ h => ?_, fun _ => ⟨fun h => (by cases h), fun _ => rfl⟩⟩
      obtain hno | hno := hrefused
      · rw [hno] at h
        exact absurd h.1 (by decide)
      · exact absurd hno h.2
    · obtain ⟨hinit, hpath⟩ := not_or.mp hrefused
      rw [Bool.not_eq_false] at hinit
      obtain ⟨data, hreload, hlist, hholds⟩ := hkept.reload_spec hinit hpath contents
      rw [hreload]
      constructor
      · intro hok _ element helement
        rw [← hlist]
        exact (hholds.answers_iff element _).mp (hok.1 rfl element helement)
      · intro hfits
        refine ⟨fun _ element helement => ?_, fun h => (by cases h)⟩
        refine (hholds.answers_iff element _).mpr ?_
        rw [hlist]
        exact hfits ⟨hinit, hpath⟩ element helement
  | enableAutoReload path =>
    unfold StepOk StepFits enableAutoReload
    dsimp only
    rw [iff_true]
    split <;> rfl

/-- A run does what the documented order promises exactly if each promised value is the one that
the loop takes. -/
theorem along_configured_iff (listOf : ConfigText → List ConfigText) (calls : List ConfigCall) :
    machine.Along (fun _ => StepOk listOf) [] new calls ↔
      machine.Along (fun _ => StepFits listOf) [] new calls :=
  Machine.along_congr (I := fun _ => Kept) (fun _ _ call hkept _ => hkept.step call)
    (fun _ _ call hkept => hkept.stepOk_iff call) kept_new

/-- The file has the port 80; the configuration says that the port is the name from the
arguments. -/
theorem portInFile_not_configured :
    ¬ machine.Along (fun _ => StepOk fun text => [text]) [] new
      [.initializeConfig
        { argv := ["alpine".toList, "--name".toList, "x".toList]
          environ := ∅
          configElements := [
            ⟨"Name".toList, [], "name".toList, [], .string, false⟩,
            ⟨"Port".toList, "port".toList, [], [], .string, true⟩]
          configFilePath := "alpine.conf".toList
          contents := (∅ : ConfigMap).emplace "port".toList "80".toList }] := by
  rintro ⟨⟨-, hvalues⟩, -⟩
  have hport := hvalues (by decide +kernel)
    ⟨"Port".toList, "port".toList, [], [], .string, true⟩ (by simp)
  revert hport
  change ¬ (ConfigData.getValue _ _ = _)
  decide +kernel

end Configuration

end Alpine
