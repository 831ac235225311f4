import Alpine.Lib.Run
import Alpine.Lib.UMap

/-!
# The configuration

`Configuration` takes the value of each element from the configuration file, the arguments or the
environment, in this order. `ConfigFile.get` finds every name and leaves the value as it is, so that
an element with a name in the file takes the value that was located before it; the environment is
behind two returns and is not reached; and the values are inserted by `emplace`, so that a reload
changes none.
-/

namespace Alpine

open Lib

abbrev ConfigText := List Char
abbrev ConfigMap := UMap ConfigText ConfigText

inductive ElementType where
  | string
  | number
  | stringList
  | numberList
  deriving DecidableEq, Repr

namespace ElementType

def isList : ElementType → Bool
  | string | number => false
  | stringList | numberList => true

end ElementType

structure ConfigElement where
  elementName : ConfigText
  fileOptionName : ConfigText
  argOptionName : ConfigText
  envOptionName : ConfigText
  optionType : ElementType
  required : Bool
  deriving DecidableEq, Repr

structure ConfigData where
  elementList : List ConfigElement
  valueIndex : ConfigMap
  valueListIndex : UMap ConfigText (List ConfigText)

namespace ConfigData

/-- The index of the elements; of two with one name it has the first. -/
def findElement (data : ConfigData) (name : ConfigText) : Option ConfigElement :=
  data.elementList.find? fun element => element.elementName = name

def getValue (data : ConfigData) (name : ConfigText) : Option ConfigText :=
  data.valueIndex.find name

def getValueList (data : ConfigData) (name : ConfigText) : Option (List ConfigText) :=
  data.valueListIndex.find name

def setValue (data : ConfigData) (name value : ConfigText) : Bool × ConfigData :=
  match data.findElement name with
  | none => (false, data)
  | some element =>
    if element.optionType.isList then (false, data)
    else (true, { data with valueIndex := data.valueIndex.emplace name value })

def setValueList (data : ConfigData) (name : ConfigText) (valueList : List ConfigText) :
    Bool × ConfigData :=
  match data.findElement name with
  | none => (false, data)
  | some element =>
    if element.optionType.isList then
      (true, { data with valueListIndex := data.valueListIndex.emplace name valueList })
    else (false, data)

end ConfigData

namespace ConfigFile

/-- The file is not read. -/
def get (_contents : ConfigMap) (_name value : ConfigText) : Bool × ConfigText := (true, value)

end ConfigFile

namespace ArgumentMap

/-- The name of an option, behind its one or two dashes. -/
def optionName (arg : ConfigText) : ConfigText :=
  if arg[1]? = some '-' then arg.drop 2 else arg.drop 1

/-- The loop over the arguments, with the option that waits for a value. -/
def loadFrom : Option ConfigText → List ConfigText → ConfigMap → ConfigMap
  | _, [], index => index
  | waiting, arg :: args, index =>
    if arg.head? = some '-' then
      match waiting with
      | some name => loadFrom (some (optionName arg)) args (index.emplace name [])
      | none => loadFrom (some (optionName arg)) args index
    else
      match waiting with
      | some name => loadFrom none args (index.emplace name arg)
      | none => loadFrom none args index

def load (argv : List ConfigText) : ConfigMap := loadFrom none argv ∅

def get (index : ConfigMap) (name value : ConfigText) : Bool × ConfigText :=
  match index.find name with
  | some value => (true, value)
  | none => (false, value)

end ArgumentMap

structure Configuration where
  /-- `initialize` was called. -/
  initFlag : Bool
  initialized : Bool
  configFilePath : ConfigText
  configFile : ConfigMap
  argumentMap : ConfigMap
  environMap : ConfigMap
  configData : ConfigData

namespace Configuration

def new : Configuration := ⟨false, false, [], ∅, ∅, ∅, ⟨[], ∅, ∅⟩⟩

/-- Behind the arguments the function returns in any case; the environment is not asked. -/
def locateValue (config : Configuration) (element : ConfigElement) (value : ConfigText) :
    Bool × ConfigText :=
  let (status, value) :=
    if element.fileOptionName ≠ [] then
      ConfigFile.get config.configFile element.fileOptionName value
    else (false, value)
  if status then (true, value)
  else if element.argOptionName ≠ [] then
    ArgumentMap.get config.argumentMap element.argOptionName value
  else (false, value)

/-- It has no body. -/
def parseValueList (_values : ConfigText) : List ConfigText := []

/-- Insert a value that was located. -/
def insertValue (element : ConfigElement) (value : ConfigText) (data : ConfigData) :
    Bool × ConfigData :=
  if element.optionType.isList then
    data.setValueList element.elementName (parseValueList value)
  else data.setValue element.elementName value

/-- The loop over the elements, which all share one variable for the value. -/
def populateFrom (config : Configuration) :
    ConfigText → List ConfigElement → ConfigData → Bool × ConfigData
  | _, [], data => (true, data)
  | currValue, element :: elements, data =>
    let (status, currValue) := config.locateValue element currValue
    if status = false then
      if element.required then (false, data) else populateFrom config currValue elements data
    else
      let (status, data) := insertValue element currValue data
      if status = false then
        if element.required then (false, data) else populateFrom config currValue elements data
      else populateFrom config currValue elements data

def populateValues (config : Configuration) : Bool × ConfigData :=
  config.populateFrom [] config.configData.elementList config.configData

/-- What there is at the call of `initialize`: the file and the environment by what they give. -/
structure Start where
  argv : List ConfigText
  environ : ConfigMap
  configElements : List ConfigElement
  configFilePath : ConfigText
  contents : ConfigMap

/-- Loading the environment, the file and the arguments never fails. -/
def initializeConfig (config : Configuration) (start : Start) : Bool × Configuration :=
  if config.initFlag then (false, config)
  else
    let config : Configuration := { config with
      initFlag := true
      configFile := start.contents
      argumentMap := ArgumentMap.load start.argv
      environMap := start.environ
      configData :=
        { config.configData with
          elementList := config.configData.elementList ++ start.configElements } }
    let (status, data) := config.populateValues
    if status then
      (true, { config with
        configData := data, configFilePath := start.configFilePath, initialized := true })
    else (false, { config with configData := data })

def reload (config : Configuration) (contents : ConfigMap) : Bool × Configuration :=
  if config.initialized = false ∨ config.configFilePath = [] then (false, config)
  else
    let config := { config with configFile := contents }
    let (status, data) := config.populateValues
    (status, { config with configData := data })

def enableAutoReload (config : Configuration) (configFilePath : ConfigText) :
    Bool × Configuration :=
  if config.initialized = false then (false, config)
  else (true, { config with configFilePath := configFilePath })

/-! ## What is located -/

/-- What the arguments give for an element. -/
def argGiven (args : ConfigMap) (element : ConfigElement) : Option ConfigText :=
  if element.argOptionName = [] then none else args.find element.argOptionName

/-- What an element takes if the last value before it was `currValue`. -/
def taken (args : ConfigMap) (currValue : ConfigText) (element : ConfigElement) :
    Option ConfigText :=
  if element.fileOptionName = [] then argGiven args element else some currValue

variable {config : Configuration} {currValue : ConfigText} {element : ConfigElement}

theorem locateValue_eq (config : Configuration) (element : ConfigElement) (currValue : ConfigText) :
    config.locateValue element currValue =
      ((taken config.argumentMap currValue element).isSome,
        (taken config.argumentMap currValue element).getD currValue) := by
  unfold locateValue taken argGiven ConfigFile.get ArgumentMap.get
  by_cases hfile : element.fileOptionName = []
  · simp only [hfile, ne_eq, not_true_eq_false, if_false, if_true]
    by_cases harg : element.argOptionName = []
    · simp [harg]
    · simp only [harg, not_false_eq_true, if_true, if_false]
      cases config.argumentMap.find element.argOptionName <;> rfl
  · simp [hfile]

/-- The first element of the name has values of this kind. -/
def Typed (elements : List ConfigElement) (name : ConfigText) (isList : Bool) : Prop :=
  ∃ first, elements.find? (fun element => element.elementName = name) = some first ∧
    first.optionType.isList = isList

instance (elements : List ConfigElement) (name : ConfigText) (isList : Bool) :
    Decidable (Typed elements name isList) :=
  match h : elements.find? fun element => element.elementName = name with
  | none => isFalse fun ⟨_, hfirst, _⟩ => (by rw [h] at hfirst; cases hfirst)
  | some first =>
    if htype : first.optionType.isList = isList then isTrue ⟨first, h, htype⟩
    else isFalse fun ⟨_, hfirst, hyes⟩ => (by rw [h] at hfirst; cases hfirst; exact htype hyes)

theorem insertValue_typed {data : ConfigData}
    (h : Typed data.elementList element.elementName element.optionType.isList)
    (value : ConfigText) :
    insertValue element value data = (true,
      if element.optionType.isList then
        { data with valueListIndex := data.valueListIndex.emplace element.elementName [] }
      else { data with valueIndex := data.valueIndex.emplace element.elementName value }) := by
  obtain ⟨first, hfirst, htype⟩ := h
  unfold insertValue ConfigData.setValue ConfigData.setValueList ConfigData.findElement
  rw [hfirst]
  dsimp only
  rw [htype]
  cases element.optionType.isList <;> rfl

theorem insertValue_not_typed {data : ConfigData}
    (h : ¬ Typed data.elementList element.elementName element.optionType.isList)
    (value : ConfigText) : insertValue element value data = (false, data) := by
  unfold insertValue ConfigData.setValue ConfigData.setValueList ConfigData.findElement
  cases hfirst : data.elementList.find? fun other => other.elementName = element.elementName with
  | none =>
    dsimp only
    split <;> rfl
  | some first =>
    have htype : first.optionType.isList ≠ element.optionType.isList :=
      fun heq => h ⟨first, hfirst, heq⟩
    dsimp only
    cases hfirstType : first.optionType.isList <;> cases htypes : element.optionType.isList
    · exact absurd (hfirstType.trans htypes.symm) htype
    · rfl
    · rfl
    · exact absurd (hfirstType.trans htypes.symm) htype

end Configuration

end Alpine
