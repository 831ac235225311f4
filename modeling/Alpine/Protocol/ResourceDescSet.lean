import Alpine.Lib.Run
import Alpine.Protocol.QueryPacket

/-!
# Sets of resource descriptions

`AlpineResourceDescSet` keeps descriptions in an array with room to spare, and a position that is
both where the next description is put and where the next page starts. A page is as many
descriptions as fit the size of a list in a packet. What was put since the last `clear` is what the
set `Holds` (`holds_filled`).

Nothing moves the position back but `clear`, which deletes the descriptions; `rewound` is the set
with its position reset.
-/

namespace Alpine

open Lib

variable {π δ : Type}

/-- `AlpineProtocol::maxResourceListSize_s`. -/
def maxResourceListSize : Nat := 4096

def defaultReserve : Nat := 256

/-- The array with its room; `none` is a null pointer. -/
structure ResourceDescSet (δ : Type) where
  resourceList : List (Option (ResourceDesc δ))
  numResources : Nat
  currOffset : Nat

namespace ResourceDescSet

def new : ResourceDescSet δ := ⟨List.replicate defaultReserve none, 0, 0⟩

def arraySize (set : ResourceDescSet δ) : Nat := set.resourceList.length

def clear (set : ResourceDescSet δ) : ResourceDescSet δ :=
  ⟨set.resourceList.map fun _ => none, 0, 0⟩

def resize (set : ResourceDescSet δ) (newSize : Nat) : ResourceDescSet δ :=
  { set with
    resourceList := set.resourceList.take set.numResources ++
      List.replicate (newSize - set.numResources) none }

def reserve (set : ResourceDescSet δ) (size : Nat) : ResourceDescSet δ :=
  if set.arraySize ≥ size then set else set.resize size

/-- A copy at the position. -/
def put (set : ResourceDescSet δ) (desc : ResourceDesc δ) : ResourceDescSet δ :=
  ⟨set.resourceList.set set.currOffset (some desc), set.numResources + 1, set.currOffset + 1⟩

def putAll (set : ResourceDescSet δ) : List (ResourceDesc δ) → ResourceDescSet δ
  | [] => set
  | item :: list => (set.put item).putAll list

/-- The position is never behind the array. -/
def addResource (set : ResourceDescSet δ) (resource : ResourceDesc δ) : ResourceDescSet δ :=
  let set :=
    if set.arraySize - set.currOffset < 1 then set.resize (set.arraySize + set.arraySize * 2)
    else set
  set.put resource

def addResourceList (set : ResourceDescSet δ) (list : List (ResourceDesc δ)) :
    ResourceDescSet δ :=
  let set :=
    if list.length > set.arraySize - set.currOffset then
      set.resize (set.arraySize + list.length * 2)
    else set
  set.putAll list

def addResourceDataPacket (set : ResourceDescSet δ) (queryPacket : QueryPacket π δ) :
    Bool × ResourceDescSet δ :=
  match queryPacket.resourceList with
  | none => (false, set)
  | some resultList => (true, set.addResourceList resultList)

/-- `none` is a null pointer that is followed. -/
def getResourceList (set : ResourceDescSet δ) : Option (List (ResourceDesc δ)) :=
  (set.resourceList.take set.numResources).mapM id

def getRemaining (set : ResourceDescSet δ) : Nat :=
  (set.numResources + 2 ^ 64 - (set.currOffset + 1) % 2 ^ 64) % 2 ^ 64

/-! ## What a set holds -/

/-- The descriptions at the start of the array, and null pointers behind them. -/
structure Holds (set : ResourceDescSet δ) (list : List (ResourceDesc δ)) : Prop where
  array : ∃ room, set.resourceList = list.map some ++ List.replicate room none
  numResources : set.numResources = list.length
  currOffset : set.currOffset = list.length
  sized : 0 < set.arraySize

inductive AddCall (π δ : Type) where
  | clear
  | reserve (size : Nat)
  | addResource (resource : ResourceDesc δ)
  | addResourceList (list : List (ResourceDesc δ))
  | addResourceDataPacket (queryPacket : QueryPacket π δ)

def addStep (set : ResourceDescSet δ) : AddCall π δ → ResourceDescSet δ
  | .clear => set.clear
  | .reserve size => set.reserve size
  | .addResource resource => set.addResource resource
  | .addResourceList list => set.addResourceList list
  | .addResourceDataPacket queryPacket => (set.addResourceDataPacket queryPacket).2

/-- The list after a call. -/
def AddCall.extend (list : List (ResourceDesc δ)) : AddCall π δ → List (ResourceDesc δ)
  | .clear => []
  | .reserve _ => list
  | .addResource resource => list ++ [resource]
  | .addResourceList added => list ++ added
  | .addResourceDataPacket queryPacket => list ++ queryPacket.resourceList.getD []

/-- A new set after the calls. -/
def filled (calls : List (AddCall π δ)) : ResourceDescSet δ := calls.foldl addStep new

/-- What the calls put. -/
def added (calls : List (AddCall π δ)) : List (ResourceDesc δ) := calls.foldl AddCall.extend []

variable {set : ResourceDescSet δ} {list : List (ResourceDesc δ)}

theorem Holds.length_le (h : set.Holds list) : list.length ≤ set.arraySize := by
  obtain ⟨room, hroom⟩ := h.array
  unfold arraySize
  rw [hroom, List.length_append, List.length_map]
  omega

theorem Holds.length_resize (h : set.Holds list) {newSize : Nat} (hsize : list.length ≤ newSize) :
    (set.resize newSize).arraySize = newSize := by
  obtain ⟨room, hroom⟩ := h.array
  unfold arraySize resize
  dsimp only
  rw [h.numResources, List.length_append, List.length_take, List.length_replicate, hroom,
    List.length_append, List.length_map]
  omega

theorem Holds.resize (h : set.Holds list) {newSize : Nat} (hsize : set.arraySize ≤ newSize) :
    (set.resize newSize).Holds list := by
  have hle := h.length_le
  have hpos := h.sized
  obtain ⟨room, hroom⟩ := h.array
  refine ⟨⟨newSize - list.length, ?_⟩, h.numResources, h.currOffset, ?_⟩
  · unfold ResourceDescSet.resize
    dsimp only
    rw [h.numResources, hroom, List.take_append_of_le_length (by simp),
      List.take_of_length_le (by simp)]
  · rw [h.length_resize (by omega)]
    omega

theorem arraySize_put (set : ResourceDescSet δ) (desc : ResourceDesc δ) :
    (set.put desc).arraySize = set.arraySize :=
  List.length_set

theorem Holds.put (h : set.Holds list) (hroom : list.length < set.arraySize)
    (desc : ResourceDesc δ) : (set.put desc).Holds (list ++ [desc]) := by
  obtain ⟨room, harray⟩ := h.array
  have hpos : room ≠ 0 := by
    rintro rfl
    unfold arraySize at hroom
    rw [harray, List.length_append, List.length_map, List.length_replicate] at hroom
    omega
  obtain ⟨room, rfl⟩ := Nat.exists_eq_succ_of_ne_zero hpos
  refine ⟨⟨room, ?_⟩, ?_, ?_, ?_⟩
  · unfold ResourceDescSet.put
    dsimp only
    rw [h.currOffset, harray, List.set_append_right _ _ (by simp), List.length_map, Nat.sub_self,
      List.replicate_succ, List.set_cons_zero, List.map_append, List.append_assoc]
    rfl
  · rw [List.length_append]
    exact congrArg (· + 1) h.numResources
  · rw [List.length_append]
    exact congrArg (· + 1) h.currOffset
  · rw [arraySize_put]
    exact h.sized

theorem Holds.putAll {items : List (ResourceDesc δ)} (h : set.Holds list)
    (hroom : list.length + items.length ≤ set.arraySize) :
    (set.putAll items).Holds (list ++ items) := by
  induction items generalizing set list with
  | nil =>
    rw [List.append_nil]
    exact h
  | cons item items ih =>
    rw [List.length_cons] at hroom
    have hput := h.put (by omega) item
    have hall := ih hput (by
      rw [arraySize_put, List.length_append, List.length_singleton]
      omega)
    rw [List.append_assoc] at hall
    exact hall

theorem Holds.addResource (h : set.Holds list) (desc : ResourceDesc δ) :
    (set.addResource desc).Holds (list ++ [desc]) := by
  have hle := h.length_le
  have hpos := h.sized
  unfold ResourceDescSet.addResource
  dsimp only
  rw [h.currOffset]
  split
  · exact (h.resize (by omega)).put (by rw [h.length_resize (by omega)]; omega) desc
  · exact h.put (by omega) desc

theorem Holds.addResourceList (h : set.Holds list) (items : List (ResourceDesc δ)) :
    (set.addResourceList items).Holds (list ++ items) := by
  have hle := h.length_le
  unfold ResourceDescSet.addResourceList
  dsimp only
  rw [h.currOffset]
  split
  · exact (h.resize (by omega)).putAll (by rw [h.length_resize (by omega)]; omega)
  · exact h.putAll (by omega)

theorem holds_new : (new : ResourceDescSet δ).Holds [] := by
  refine ⟨⟨defaultReserve, rfl⟩, rfl, rfl, ?_⟩
  unfold arraySize new
  dsimp only
  rw [List.length_replicate]
  decide

theorem Holds.clear (h : set.Holds list) : set.clear.Holds [] := by
  refine ⟨⟨set.resourceList.length, ?_⟩, rfl, rfl, ?_⟩
  · unfold ResourceDescSet.clear
    dsimp only
    rw [List.map_const']
    rfl
  · unfold arraySize ResourceDescSet.clear
    dsimp only
    rw [List.length_map]
    exact h.sized

/-- What one call puts. -/
theorem Holds.addStep (h : set.Holds list) (call : AddCall π δ) :
    (set.addStep call).Holds (call.extend list) := by
  cases call with
  | clear => exact h.clear
  | reserve size =>
    unfold ResourceDescSet.addStep reserve
    dsimp only
    split
    · exact h
    · exact h.resize (by omega)
  | addResource resource => exact h.addResource resource
  | addResourceList items => exact h.addResourceList items
  | addResourceDataPacket queryPacket =>
    unfold ResourceDescSet.addStep addResourceDataPacket AddCall.extend
    dsimp only
    cases queryPacket.resourceList with
    | none =>
      rw [Option.getD_none, List.append_nil]
      exact h
    | some resultList => exact h.addResourceList resultList

/-- A set holds what the calls put since the last `clear`. -/
theorem holds_filled (calls : List (AddCall π δ)) : (filled calls).Holds (added calls) := by
  have hrun : ∀ (set : ResourceDescSet δ) (list : List (ResourceDesc δ)), set.Holds list →
      (calls.foldl ResourceDescSet.addStep set).Holds (calls.foldl AddCall.extend list) := by
    induction calls with
    | nil => exact fun _ _ h => h
    | cons call calls ih => exact fun set list h => ih _ _ (h.addStep call)
  exact hrun new [] holds_new

/-! ## Pages -/

/-- Why the loop ends. -/
inductive PackEnd where
  | noRoom
  | nullRecord
  | tooLong
  /-- The next description is read behind the array. -/
  | pastArray
  deriving DecidableEq

variable [QueryOptionData δ]

/-- The loop from the position on: the descriptions that are taken, each off the bytes that
remain. -/
def pack : List (Option (ResourceDesc δ)) → Nat → PackEnd × List (ResourceDesc δ)
  | [], _ => (.pastArray, [])
  | none :: _, _ => (.nullRecord, [])
  | some currDesc :: rest, bytesRemaining =>
    if currDesc.dataSize > maxResourceListSize then (.tooLong, [])
    else if currDesc.dataSize > bytesRemaining then (.noRoom, [])
    else
      let (ending, resultList) := pack rest (bytesRemaining - currDesc.dataSize)
      (ending, currDesc :: resultList)

/-- The status with the set and the packet. -/
def getResourceDataPacket (set : ResourceDescSet δ) (queryPacket : QueryPacket π δ) :
    Bool × ResourceDescSet δ × QueryPacket π δ :=
  if set.numResources = 0 then (false, set, queryPacket)
  else if set.getRemaining ≤ 0 then (false, set, queryPacket)
  else
    let (ending, resultList) := pack (set.resourceList.drop set.currOffset) maxResourceListSize
    let set := { set with currOffset := set.currOffset + resultList.length }
    match ending with
    | .noRoom => (true, set, { queryPacket with resourceList := some resultList })
    | _ => (false, set, queryPacket)

/-- The set with its position reset. -/
def rewound (set : ResourceDescSet δ) : ResourceDescSet δ := { set with currOffset := 0 }

/-- The index that the loop reads last. -/
def lastRead (set : ResourceDescSet δ) : Option Nat :=
  if set.numResources = 0 ∨ set.getRemaining ≤ 0 then none
  else
    some (set.currOffset +
      (pack (set.resourceList.drop set.currOffset) maxResourceListSize).2.length)

end ResourceDescSet

end Alpine
