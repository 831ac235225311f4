import Alpine.ConfigUtils.Configuration
import Alpine.Lib.Heap

/-!
# Configuration data as objects

A `ConfigData` owns its element records and its value lists through pointers. An object has its four
containers from its construction on, so that `operator=` never gets behind the deletion of the
target's elements, and the destructor never gets behind that of its own. What a member function does
is undefined (`none`) if it reads or deletes what was deleted before.

Each object is to be a value of its own (`ConfigValue`), and each record and list to be owned by one
object (`Agrees`).
-/

namespace Alpine

open Lib

/-- A `ConfigData`, with pointers to records and lists. -/
structure ConfigObject where
  elementList : List Nat
  elementIndex : UMap ConfigText Nat
  valueIndex : ConfigMap
  valueListIndex : UMap ConfigText Nat

structure ConfigStore where
  objects : UMap Nat ConfigObject
  elements : Heap ConfigElement
  lists : Heap (List ConfigText)

inductive ConfigObjectCall where
  | construct (id : Nat)
  | constructFrom (id : Nat) (elementList : List ConfigElement)
  | copyConstruct (id source : Nat)
  | assign (id source : Nat)
  | setValue (id : Nat) (name value : ConfigText)
  | setValueList (id : Nat) (name : ConfigText) (valueList : List ConfigText)
  | destroy (id : Nat)

namespace ConfigObject

def new : ConfigObject := ⟨[], ∅, ∅, ∅⟩

end ConfigObject

namespace ConfigStore

def empty : ConfigStore := ⟨∅, Heap.empty, Heap.empty⟩

/-- The loop that fills the index of the elements. -/
def indexElements (elements : Heap ConfigElement) (index : UMap ConfigText Nat) :
    List Nat → UMap ConfigText Nat
  | [] => index
  | item :: items =>
    match elements.get item with
    | none => indexElements elements index items
    | some currElement =>
      indexElements elements (index.emplace currElement.elementName item) items

/-- The records behind pointers. -/
def readElements (elements : Heap ConfigElement) (items : List Nat) : Option (List ConfigElement) :=
  items.mapM elements.get

/-- The loop that copies the value lists of another object. -/
def copyLists (lists : Heap (List ConfigText)) (index : UMap ConfigText Nat) :
    List (Sigma fun _ : ConfigText => Nat) → Option (Heap (List ConfigText) × UMap ConfigText Nat)
  | [] => some (lists, index)
  | e :: entries => do
    let value ← lists.get e.2
    copyLists (lists.alloc value) (index.emplace e.1 lists.next) entries

/-- The loop that deletes the records. -/
def deleteElements (elements : Heap ConfigElement) : List Nat → Option (Heap ConfigElement)
  | [] => some elements
  | item :: items => if (elements.get item).isSome then deleteElements (elements.free item) items
    else none

def constructFrom (s : ConfigStore) (id : Nat) (elementList : List ConfigElement) : ConfigStore :=
  let items := List.range' s.elements.next elementList.length
  let elements := s.elements.allocEach elementList
  { s with elements, objects := s.objects.assign id ⟨items, indexElements elements ∅ items, ∅, ∅⟩ }

/-- If there are value lists the function returns before the elements are indexed. -/
def copyConstruct (s : ConfigStore) (id : Nat) (copy : ConfigObject) : Option ConfigStore := do
  let elementList ← readElements s.elements copy.elementList
  let items := List.range' s.elements.next elementList.length
  let elements := s.elements.allocEach elementList
  if copy.valueListIndex.keys.length > 0 then
    let (lists, valueListIndex) ← copyLists s.lists ∅ (AList.entries copy.valueListIndex)
    some
      { elements
        lists
        objects := s.objects.assign id ⟨items, ∅, copy.valueIndex, valueListIndex⟩ }
  else
    let o : ConfigObject := ⟨items, indexElements elements ∅ items, copy.valueIndex, ∅⟩
    some { s with elements, objects := s.objects.assign id o }

/-- `operator=` of an object that is not the target itself. -/
def assign (s : ConfigStore) (target : ConfigObject) : Option ConfigStore := do
  let elements ← deleteElements s.elements target.elementList
  some { s with elements }

def destroy (s : ConfigStore) (id : Nat) (o : ConfigObject) : Option ConfigStore := do
  let elements ← deleteElements s.elements o.elementList
  some { s with elements, objects := s.objects.erase id }

def valueIsSet (s : ConfigStore) (o : ConfigObject) (name : ConfigText) : Option Bool :=
  match o.elementIndex.find name with
  | none => some false
  | some item => do
    let currElement ← s.elements.get item
    if currElement.optionType.isList then some (o.valueListIndex.find name).isSome
    else some (o.valueIndex.find name).isSome

def getValue (o : ConfigObject) (name : ConfigText) : Option ConfigText := o.valueIndex.find name

/-- The inner option is empty if there is no list. -/
def getValueList (s : ConfigStore) (o : ConfigObject) (name : ConfigText) :
    Option (Option (List ConfigText)) :=
  match o.valueListIndex.find name with
  | none => some none
  | some item => (s.lists.get item).map some

def setValue (s : ConfigStore) (id : Nat) (o : ConfigObject) (name value : ConfigText) :
    Option (Bool × ConfigStore) :=
  match o.elementIndex.find name with
  | none => some (false, s)
  | some item => do
    let currElement ← s.elements.get item
    let o : ConfigObject := { o with valueIndex := o.valueIndex.emplace name value }
    if currElement.optionType.isList then some (false, s)
    else some (true, { s with objects := s.objects.assign id o })

def setValueList (s : ConfigStore) (id : Nat) (o : ConfigObject) (name : ConfigText)
    (valueList : List ConfigText) : Option (Bool × ConfigStore) :=
  match o.elementIndex.find name with
  | none => some (false, s)
  | some item => do
    let currElement ← s.elements.get item
    let o : ConfigObject :=
      { o with valueListIndex := o.valueListIndex.emplace name s.lists.next }
    if currElement.optionType.isList = false then some (false, s)
    else
      some (true, { s with
        lists := s.lists.alloc valueList
        objects := s.objects.assign id o })

/-- A call on an object that is not there, or that makes one that is, does nothing. -/
def call (s : ConfigStore) : ConfigObjectCall → Option (Bool × ConfigStore)
  | .construct id =>
    if (s.objects.find id).isSome then some (true, s)
    else some (true, { s with objects := s.objects.assign id ConfigObject.new })
  | .constructFrom id elementList =>
    if (s.objects.find id).isSome then some (true, s)
    else some (true, s.constructFrom id elementList)
  | .copyConstruct id source =>
    match s.objects.find id, s.objects.find source with
    | none, some copy => (s.copyConstruct id copy).map fun s => (true, s)
    | _, _ => some (true, s)
  | .assign id source =>
    if id = source then some (true, s)
    else
      match s.objects.find id, s.objects.find source with
      | some target, some _ => (s.assign target).map fun s => (true, s)
      | _, _ => some (true, s)
  | .setValue id name value =>
    match s.objects.find id with
    | none => some (true, s)
    | some o => s.setValue id o name value
  | .setValueList id name valueList =>
    match s.objects.find id with
    | none => some (true, s)
    | some o => s.setValueList id o name valueList
  | .destroy id =>
    match s.objects.find id with
    | none => some (true, s)
    | some o => (s.destroy id o).map fun s => (true, s)

end ConfigStore

/-! ## Values -/

/-- Whether a name is of list type; of two elements with one name the first counts. -/
def listType (elements : List ConfigElement) (name : ConfigText) : Option Bool :=
  (elements.find? fun element => element.elementName = name).map fun element =>
    element.optionType.isList

/-- The value of an object: a name has values of its own type only. -/
structure ConfigValue where
  elements : List ConfigElement
  values : ConfigMap
  lists : UMap ConfigText (List ConfigText)
  values_typed : ∀ name, (values.find name).isSome → listType elements name = some false
  lists_typed : ∀ name, (lists.find name).isSome → listType elements name = some true

namespace ConfigValue

def ofElements (elements : List ConfigElement) : ConfigValue :=
  ⟨elements, ∅, ∅, nofun, nofun⟩

def valueIsSet (v : ConfigValue) (name : ConfigText) : Bool :=
  match listType v.elements name with
  | none => false
  | some true => (v.lists.find name).isSome
  | some false => (v.values.find name).isSome

def setValue (v : ConfigValue) (name value : ConfigText) : Bool × ConfigValue :=
  if h : listType v.elements name = some false then
    (true, { v with
      values := v.values.assign name value
      values_typed := fun n hn => by
        rw [UMap.find_assign] at hn
        split at hn
        · next hname => rw [hname]; exact h
        · exact v.values_typed n hn })
  else (false, v)

def setValueList (v : ConfigValue) (name : ConfigText) (valueList : List ConfigText) :
    Bool × ConfigValue :=
  if h : listType v.elements name = some true then
    (true, { v with
      lists := v.lists.assign name valueList
      lists_typed := fun n hn => by
        rw [UMap.find_assign] at hn
        split at hn
        · next hname => rw [hname]; exact h
        · exact v.lists_typed n hn })
  else (false, v)

end ConfigValue

/-- What a call does to the values of the objects. -/
def callValues (values : UMap Nat ConfigValue) : ConfigObjectCall → Bool × UMap Nat ConfigValue
  | .construct id =>
    if (values.find id).isSome then (true, values)
    else (true, values.assign id (.ofElements []))
  | .constructFrom id elementList =>
    if (values.find id).isSome then (true, values)
    else (true, values.assign id (.ofElements elementList))
  | .copyConstruct id source =>
    match values.find id, values.find source with
    | none, some v => (true, values.assign id v)
    | _, _ => (true, values)
  | .assign id source =>
    match values.find id, values.find source with
    | some _, some v => (true, values.assign id v)
    | _, _ => (true, values)
  | .setValue id name value =>
    match values.find id with
    | none => (true, values)
    | some v => ((v.setValue name value).1, values.assign id (v.setValue name value).2)
  | .setValueList id name valueList =>
    match values.find id with
    | none => (true, values)
    | some v =>
      ((v.setValueList name valueList).1, values.assign id (v.setValueList name valueList).2)
  | .destroy id =>
    match values.find id with
    | none => (true, values)
    | some _ => (true, values.erase id)

namespace ConfigStore

/-- The record that an object has at a place of its list. -/
def elementOwner (s : ConfigStore) (i : Nat × Nat) : Option Nat :=
  (s.objects.find i.1).bind fun o => o.elementList[i.2]?

/-- The list that an object has for a name. -/
def listOwner (s : ConfigStore) (i : Nat × ConfigText) : Option Nat :=
  (s.objects.find i.1).bind fun o => o.valueListIndex.find i.2

/-- An object answers every question as a value does. -/
structure Answers (s : ConfigStore) (id : Nat) (o : ConfigObject) (v : ConfigValue) : Prop where
  valueIsSet : ∀ name, s.valueIsSet o name = some (v.valueIsSet name)
  getValue : ∀ name, getValue o name = v.values.find name
  getValueList : ∀ name, s.getValueList o name = some (v.lists.find name)
  setValue : ∀ name value, (s.setValue id o name value).map Prod.fst =
    some (v.setValue name value).1
  setValueList : ∀ name valueList, (s.setValueList id o name valueList).map Prod.fst =
    some (v.setValueList name valueList).1

/-- The objects are the values, and every record and every list that is not deleted is owned by one
object. -/
structure Agrees (s : ConfigStore) (values : UMap Nat ConfigValue) : Prop where
  objects : ∀ id, (s.objects.find id).isSome = (values.find id).isSome
  answers : ∀ id o v, s.objects.find id = some o → values.find id = some v → s.Answers id o v
  elements : s.elements.Owned s.elementOwner
  lists : s.lists.Owned s.listOwner

end ConfigStore

/-- The objects with the values that they are to be. -/
structure ConfigRun where
  store : ConfigStore
  values : UMap Nat ConfigValue

namespace ConfigRun

def start : ConfigRun := ⟨ConfigStore.empty, ∅⟩

/-- Objects whose call is undefined are left as they are. -/
def step (s : ConfigRun) (c : ConfigObjectCall) : ConfigRun × List Empty :=
  (⟨((s.store.call c).map Prod.snd).getD s.store, (callValues s.values c).2⟩, [])

def machine : Machine ConfigRun ConfigObjectCall Empty := ⟨step⟩

/-- The call does to the objects what it does to the values. -/
def Refines (_ : List Empty) (s : ConfigRun) (c : ConfigObjectCall) : Prop :=
  ∃ store, s.store.call c = some ((callValues s.values c).1, store) ∧
    store.Agrees (callValues s.values c).2

/-- No object with value lists is copied or destroyed, none with elements is assigned or assigned
to, and a name that has a value is not set, except to the value that it has. -/
def Fits (_ : List Empty) (s : ConfigRun) : ConfigObjectCall → Prop
  | .construct _ => True
  | .constructFrom _ _ => True
  | .copyConstruct id source => s.store.objects.find id = none →
    ∀ o, s.store.objects.find source = some o → o.valueListIndex = ∅
  | .assign id source => id ≠ source → ∀ target o, s.store.objects.find id = some target →
    s.store.objects.find source = some o → target.elementList = [] ∧ o.elementList = []
  | .setValue id name value => ∀ o, s.store.objects.find id = some o →
    ∀ old, o.valueIndex.find name = some old → old = value
  | .setValueList id name _ => ∀ o, s.store.objects.find id = some o →
    o.valueListIndex.find name = none
  | .destroy id => ∀ o, s.store.objects.find id = some o → o.valueListIndex = ∅

end ConfigRun

end Alpine
