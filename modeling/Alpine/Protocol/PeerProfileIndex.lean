import Alpine.Lib.Run
import Alpine.Lib.UMap

/-!
# The peer profiles in the order of their quality

`AlpinePeerProfileIndex` keeps the profiles in an array, threaded by `next` and `prev` into a list
of rising quality. `linkEnd` is `none`; the array is a function, of which the slots below `size`
are there. A call that reads the array at `linkEnd`, or follows the links around forever, has no
result: the functions that may do so return an `Option`.

The scores of the rating engine are left out; what an event returns as a change of quality is kept.
-/

namespace Alpine

open Lib

/-- A value stored in a `short`. -/
def toShort (value : Int) : Int := value.bmod (2 ^ 16)

structure PeerProfile where
  peerId : Nat
  quality : Int
  queries : Nat
  responses : Nat
  deriving DecidableEq, Repr

namespace PeerProfile

def new (peerId : Nat) : PeerProfile := ⟨peerId, 0, 0, 0⟩

def modifyRelativeQuality (profile : PeerProfile) (delta : Int) : PeerProfile :=
  { profile with quality := toShort (profile.quality + delta) }

def incrTotalQueries (profile : PeerProfile) : PeerProfile :=
  { profile with queries := (profile.queries + 1) % 2 ^ 64 }

end PeerProfile

structure ProfileRecord where
  profile : Option PeerProfile
  next : Option Nat
  prev : Option Nat
  deriving DecidableEq, Repr

structure PeerProfileIndex where
  size : Nat
  numRecords : Nat
  profileArray : Nat → ProfileRecord
  freeIndexList : List Nat
  profileIndex : UMap Nat Nat
  highestQualityIndex : Option Nat
  lowestQualityIndex : Option Nat
  baseIndex : Option Nat

namespace PeerProfileIndex

def minReserve : Int := 128
def defaultReserve : Int := 1024

/-- The constructor. -/
def new (reserve : Int) : PeerProfileIndex :=
  let size := (if reserve < minReserve then defaultReserve else reserve).toNat
  { size
    numRecords := 0
    profileArray := fun _ => ⟨none, none, none⟩
    freeIndexList := List.range size
    profileIndex := ∅
    highestQualityIndex := none
    lowestQualityIndex := none
    baseIndex := none }

def update (m : PeerProfileIndex) (i : Nat) (f : ProfileRecord → ProfileRecord) :
    PeerProfileIndex :=
  { m with profileArray := Function.update m.profileArray i (f (m.profileArray i)) }

/-- Write to a record, unless the index is `linkEnd`. -/
def updateLink (m : PeerProfileIndex) (i : Option Nat) (f : ProfileRecord → ProfileRecord) :
    PeerProfileIndex :=
  match i with
  | none => m
  | some i => m.update i f

section Links

variable (m : PeerProfileIndex) (i : Option Nat) (f : ProfileRecord → ProfileRecord)

@[simp] theorem updateLink_size : (m.updateLink i f).size = m.size := by
  cases i <;> rfl

@[simp] theorem updateLink_numRecords : (m.updateLink i f).numRecords = m.numRecords := by
  cases i <;> rfl

@[simp] theorem updateLink_freeIndexList : (m.updateLink i f).freeIndexList = m.freeIndexList := by
  cases i <;> rfl

@[simp] theorem updateLink_profileIndex : (m.updateLink i f).profileIndex = m.profileIndex := by
  cases i <;> rfl

@[simp] theorem updateLink_highestQualityIndex : (m.updateLink i f).highestQualityIndex =
    m.highestQualityIndex := by
  cases i <;> rfl

@[simp] theorem updateLink_lowestQualityIndex : (m.updateLink i f).lowestQualityIndex =
    m.lowestQualityIndex := by
  cases i <;> rfl

@[simp] theorem updateLink_baseIndex : (m.updateLink i f).baseIndex = m.baseIndex := by
  cases i <;> rfl

end Links

def getRelativeQuality (m : PeerProfileIndex) (i : Nat) : Option Int :=
  (m.profileArray i).profile.map (·.quality)

/-- Called when all records are in use. -/
def resize (m : PeerProfileIndex) (size : Nat) : PeerProfileIndex :=
  { m with
    profileArray := fun i => if i < m.size then m.profileArray i else ⟨none, none, none⟩
    freeIndexList := List.range' m.size (size - m.size)
    size }

/-- The new record goes above the base. -/
def linkAfter (m : PeerProfileIndex) (currIndex baseIndex : Nat) : PeerProfileIndex :=
  let baseNext := (m.profileArray baseIndex).next
  let m := m.update currIndex fun r => { r with prev := some baseIndex, next := baseNext }
  let m := m.updateLink baseNext fun r => { r with prev := some currIndex }
  let m := m.update baseIndex fun r => { r with next := some currIndex }
  { m with
    highestQualityIndex :=
      if m.highestQualityIndex = some baseIndex then some currIndex else m.highestQualityIndex }

/-- The new record goes below the base. -/
def linkBefore (m : PeerProfileIndex) (currIndex baseIndex : Nat) : PeerProfileIndex :=
  let basePrev := (m.profileArray baseIndex).prev
  let m := m.update currIndex fun r => { r with next := some baseIndex, prev := basePrev }
  let m := m.updateLink basePrev fun r => { r with next := some currIndex }
  let m := m.update baseIndex fun r => { r with prev := some currIndex }
  { m with
    lowestQualityIndex :=
      if m.lowestQualityIndex = some baseIndex then some currIndex else m.lowestQualityIndex }

/-- The record `currIndex` comes off the free list and gets its profile. -/
def taken (m : PeerProfileIndex) (peerId currIndex : Nat) (freeIndexList : List Nat) :
    PeerProfileIndex :=
  { m with freeIndexList, profileIndex := m.profileIndex.emplace peerId currIndex }.update currIndex
    fun r => { r with profile := some (PeerProfile.new peerId) }

def linkFirst (m : PeerProfileIndex) (currIndex : Nat) : PeerProfileIndex :=
  { m.update currIndex fun r => { r with next := none, prev := none } with
    highestQualityIndex := some currIndex
    lowestQualityIndex := some currIndex
    baseIndex := some currIndex
    numRecords := m.numRecords + 1 }

def create (m : PeerProfileIndex) (peerId : Nat) : Option (Bool × PeerProfileIndex) :=
  if (m.profileIndex.find peerId).isSome then some (false, m)
  else
    let m := if m.numRecords ≥ m.size then m.resize (m.size * 2) else m
    match m.freeIndexList with
    | [] => none
    | currIndex :: freeIndexList =>
      let m := m.taken peerId currIndex freeIndexList
      if m.numRecords = 0 then some (true, m.linkFirst currIndex)
      else do
        let baseIndex ← m.baseIndex
        let quality : Int ← m.getRelativeQuality baseIndex
        let m := if quality < 0 then m.linkAfter currIndex baseIndex
          else m.linkBefore currIndex baseIndex
        some (true, { m with baseIndex := some currIndex, numRecords := m.numRecords + 1 })

/-- A record is taken out of the list. The two ends are set to `linkEnd` before they are compared
with the index. -/
def unlink (m : PeerProfileIndex) (currIndex : Nat) : PeerProfileIndex :=
  let currRecord := m.profileArray currIndex
  let m := { m with highestQualityIndex := none, lowestQualityIndex := none }
  let m := { m with
    highestQualityIndex :=
      if m.highestQualityIndex = some currIndex then currRecord.prev else m.highestQualityIndex
    lowestQualityIndex :=
      if m.lowestQualityIndex = some currIndex then currRecord.next else m.lowestQualityIndex
    baseIndex :=
      if m.baseIndex = some currIndex then
        if currRecord.prev ≠ none then currRecord.prev else currRecord.next
      else m.baseIndex }
  let m := m.updateLink currRecord.prev fun r => { r with next := currRecord.next }
  m.updateLink currRecord.next fun r => { r with prev := currRecord.prev }

def erase (m : PeerProfileIndex) (peerId : Nat) : Bool × PeerProfileIndex :=
  if m.numRecords = 0 then (false, m)
  else
    match m.profileIndex.find peerId with
    | none => (false, m)
    | some currIndex =>
      let m := { m with profileIndex := m.profileIndex.erase peerId }
      let m := m.unlink currIndex
      (true, { m with
        freeIndexList := m.freeIndexList ++ [currIndex]
        numRecords := m.numRecords - 1 })

/-! ## Relocation -/

/-- `abs` stored in a `short`. -/
def distance (quality : Int) : Int := toShort quality.natAbs

/-- The record just placed becomes the base if it was placed next to it and is closer to zero. -/
def rebase (m : PeerProfileIndex) (currIndex : Nat) (currValue : Int) (neighbour : Nat) :
    Option PeerProfileIndex := do
  let quality ← m.getRelativeQuality neighbour
  if distance currValue < distance quality then some { m with baseIndex := some currIndex }
  else some m

/-- The loop up the list: the record it stops at, and the one after that. A chain of more links
than there are records goes around. -/
def climb (m : PeerProfileIndex) (currValue : Int) : Nat → Option Nat → Option (Nat × Option Nat)
  | 0, _ => none
  | fuel + 1, nextIndex => do
    let insertIndex ← nextIndex
    let nextQuality ← m.getRelativeQuality insertIndex
    let nextIndex := (m.profileArray insertIndex).next
    if nextQuality ≥ currValue then some (insertIndex, nextIndex)
    else m.climb currValue fuel nextIndex

/-- The loop down the list. -/
def descend (m : PeerProfileIndex) (currValue : Int) : Nat → Option Nat → Option (Nat × Option Nat)
  | 0, _ => none
  | fuel + 1, prevIndex => do
    let insertIndex ← prevIndex
    let prevQuality ← m.getRelativeQuality insertIndex
    let prevIndex := (m.profileArray insertIndex).prev
    if prevQuality < currValue then some (insertIndex, prevIndex)
    else m.descend currValue fuel prevIndex

/-- The record goes to the top, above `nextRecord`. -/
def placeHighest (m : PeerProfileIndex) (currIndex : Nat) (currValue : Int) (nextRecord : Nat)
    (insertIndex : Option Nat) : Option PeerProfileIndex :=
  let m := m.update nextRecord fun r => { r with next := some currIndex }
  let m := m.update currIndex fun r => { r with next := none, prev := insertIndex }
  let m := { m with highestQualityIndex := some currIndex }
  if m.baseIndex = insertIndex then m.rebase currIndex currValue nextRecord else some m

/-- The record goes to the bottom, below `prevRecord`. -/
def placeLowest (m : PeerProfileIndex) (currIndex : Nat) (currValue : Int) (prevRecord : Nat)
    (insertIndex : Option Nat) : Option PeerProfileIndex :=
  let m := m.update prevRecord fun r => { r with prev := some currIndex }
  let m := m.update currIndex fun r => { r with prev := none, next := insertIndex }
  let m := { m with lowestQualityIndex := some currIndex }
  if m.baseIndex = insertIndex then m.rebase currIndex currValue prevRecord else some m

/-- The record goes between two others. `first` is the one whose quality decides first whether the
base moves. -/
def placeBetween (m : PeerProfileIndex) (currIndex : Nat) (currValue : Int)
    (prevIndex nextIndex first second : Nat) : Option PeerProfileIndex :=
  let m := m.update nextIndex fun r => { r with prev := some currIndex }
  let m := m.update prevIndex fun r => { r with next := some currIndex }
  let m := m.update currIndex fun r => { r with next := some nextIndex, prev := some prevIndex }
  if m.baseIndex = some first then m.rebase currIndex currValue first
  else if m.baseIndex = some second then m.rebase currIndex currValue second
  else some m

/-- The branch of an increase. When `nextRecord` is the last one the loop is skipped, and
`insertIndex` is still `linkEnd`. -/
def moveHigher (m : PeerProfileIndex) (currIndex : Nat) (currValue : Int) (nextRecord : Nat) :
    Option PeerProfileIndex :=
  match (m.profileArray nextRecord).next with
  | none => m.placeHighest currIndex currValue nextRecord none
  | some nextIndex => do
    let (insertIndex, nextIndex) ← m.climb currValue (m.size + 1) (some nextIndex)
    match nextIndex with
    | none => m.placeHighest currIndex currValue insertIndex (some insertIndex)
    | some _ => do
      let prevIndex ← (m.profileArray insertIndex).prev
      m.placeBetween currIndex currValue prevIndex insertIndex prevIndex insertIndex

/-- The branch of a decrease. -/
def moveLower (m : PeerProfileIndex) (currIndex : Nat) (currValue : Int) (prevRecord : Nat) :
    Option PeerProfileIndex :=
  match (m.profileArray prevRecord).prev with
  | none => m.placeLowest currIndex currValue prevRecord none
  | some prevIndex => do
    let (insertIndex, prevIndex) ← m.descend currValue (m.size + 1) (some prevIndex)
    match prevIndex with
    | none => m.placeLowest currIndex currValue insertIndex (some insertIndex)
    | some _ => do
      let nextIndex ← (m.profileArray insertIndex).next
      m.placeBetween currIndex currValue insertIndex nextIndex nextIndex insertIndex

/-- The quality at a link, or that of the record itself at the end of the list. -/
def qualityAt (m : PeerProfileIndex) (currValue : Int) : Option Nat → Option Int
  | none => some currValue
  | some i => m.getRelativeQuality i

def relocate (m : PeerProfileIndex) (currIndex : Nat) (currValue : Int) :
    Option PeerProfileIndex := do
  let currRecord := m.profileArray currIndex
  let nextQuality ← m.qualityAt currValue currRecord.next
  let prevQuality ← m.qualityAt currValue currRecord.prev
  if currValue ≤ nextQuality ∧ currValue ≥ prevQuality then some m
  else
    let m := m.unlink currIndex
    if currValue > nextQuality then do
      let nextRecord ← currRecord.next
      m.moveHigher currIndex currValue nextRecord
    else do
      let prevRecord ← currRecord.prev
      m.moveLower currIndex currValue prevRecord

/-! ## Changes of quality -/

/-- What the calls below have in common: the profile is changed by `f` and then by `delta`, and its
record relocated. -/
def modify (m : PeerProfileIndex) (peerId : Nat) (f : PeerProfile → PeerProfile) (delta : Int) :
    Option (Bool × PeerProfileIndex) :=
  match m.profileIndex.find peerId with
  | none => some (false, m)
  | some currIndex => do
    let profile ← (m.profileArray currIndex).profile
    let profile := (f profile).modifyRelativeQuality delta
    let m := m.update currIndex fun r => { r with profile := some profile }
    let m ← m.relocate currIndex profile.quality
    some (true, m)

def adjustQuality (m : PeerProfileIndex) (peerId : Nat) (delta : Int) :
    Option (Bool × PeerProfileIndex) := m.modify peerId id delta

/-- `AlpineRatingEngine::queryResponseEvent` returns a change of 1. -/
def responseReceived (m : PeerProfileIndex) (peerId : Nat) : Option (Bool × PeerProfileIndex) :=
  m.modify peerId PeerProfile.incrTotalQueries 1

/-- `AlpineRatingEngine::badPacketEvent` returns a change of -3. -/
def badPacketReceived (m : PeerProfileIndex) (peerId : Nat) : Option (Bool × PeerProfileIndex) :=
  m.modify peerId id (-3)

/-- `AlpineRatingEngine::transferFailureEvent` returns a change of -2. -/
def reliableTransferFailed (m : PeerProfileIndex) (peerId : Nat) :
    Option (Bool × PeerProfileIndex) := m.modify peerId id (-2)

/-- The record stays where it is. -/
def querySent (m : PeerProfileIndex) (peerId : Nat) : Option (Bool × PeerProfileIndex) :=
  match m.profileIndex.find peerId with
  | none => some (false, m)
  | some currIndex => do
    let profile ← (m.profileArray currIndex).profile
    some (true, m.update currIndex fun r => { r with profile := some profile.incrTotalQueries })

/-- The id of the profile at an end of the list, if there is one. -/
def peerAt (m : PeerProfileIndex) (index : Option Nat) : Option (Option Nat) :=
  if m.numRecords = 0 then some none
  else do
    let i ← index
    let profile ← (m.profileArray i).profile
    some (some profile.peerId)

def highestQuality (m : PeerProfileIndex) : Option (Option Nat) := m.peerAt m.highestQualityIndex

def lowestQuality (m : PeerProfileIndex) : Option (Option Nat) := m.peerAt m.lowestQualityIndex

inductive Input where
  | create (peerId : Nat)
  | erase (peerId : Nat)
  | adjustQuality (peerId : Nat) (delta : Int)
  | responseReceived (peerId : Nat)
  | badPacketReceived (peerId : Nat)
  | reliableTransferFailed (peerId : Nat)

/-- A call and its status. -/
def call (m : PeerProfileIndex) : Input → Option (Bool × PeerProfileIndex)
  | .create peerId => m.create peerId
  | .erase peerId => some (m.erase peerId)
  | .adjustQuality peerId delta => m.adjustQuality peerId delta
  | .responseReceived peerId => m.responseReceived peerId
  | .badPacketReceived peerId => m.badPacketReceived peerId
  | .reliableTransferFailed peerId => m.reliableTransferFailed peerId

/-- Runs of calls; `none` once one of them has no result. -/
def machine : Machine (Option PeerProfileIndex) Input Bool where
  step
    | none, _ => (none, [])
    | some m, input =>
      match m.call input with
      | none => (none, [])
      | some (status, m') => (some m', [status])

end PeerProfileIndex

end Alpine
