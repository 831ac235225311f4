import Alpine.Protocol.PeerProfileIndex

/-!
# Groups and peers

`AlpineGroupMgr` has the groups by their id and by their name; the one named `default` is there from
the start. `AlpinePeerMgr` has what it knows of each peer, and the base profiles. A transport is the
address of its object.

`addPeer`, `deletePeer` and `deactivatePeer` are stubs in the source: they return true.
-/

namespace Alpine

open Lib

/-! ## Groups -/

structure Group where
  groupId : Nat
  name : String
  description : String
  profileIndex : PeerProfileIndex

namespace Group

def new (groupId : Nat) (name description : String) : Group :=
  { groupId, name, description, profileIndex := PeerProfileIndex.new PeerProfileIndex.defaultReserve }

def addPeer (group : Group) (_peerId : Nat) : Bool × Group := (true, group)

end Group

structure GroupMgr where
  initialized : Bool
  defaultGroup : Nat
  groupIdIndex : UMap Nat Group
  groupNameIndex : UMap String Nat
  currGroupId : Nat

namespace GroupMgr

/-- Before `initializeGroups`. -/
def new : GroupMgr :=
  { initialized := false, defaultGroup := 0, groupIdIndex := ∅, groupNameIndex := ∅
    currGroupId := 0 }

variable (g : GroupMgr)

def initializeGroups : Bool × GroupMgr :=
  if g.initialized then (false, g)
  else
    let defaultGroupId := g.currGroupId
    let defaultGroup := Group.new defaultGroupId "default" "default peer group"
    (true, {
      initialized := true
      defaultGroup := defaultGroupId
      groupIdIndex := UMap.emplace ∅ defaultGroupId defaultGroup
      groupNameIndex := UMap.emplace ∅ "default" defaultGroupId
      currGroupId := (g.currGroupId + 1) % 2 ^ 64 })

def createGroup (name description : String) : Bool × GroupMgr :=
  if g.initialized = false then (false, g)
  else if (g.groupNameIndex.find name).isSome then (false, g)
  else
    let groupId := g.currGroupId
    (true, { g with
      groupIdIndex := g.groupIdIndex.emplace groupId (Group.new groupId name description)
      groupNameIndex := g.groupNameIndex.emplace name groupId
      currGroupId := (groupId + 1) % 2 ^ 64 })

/-- The group's id stands for the pointer to it. -/
def locateGroup (groupName : String) : Option Nat :=
  if g.initialized = false then none else g.groupNameIndex.find groupName

def getDefaultGroup : Option Nat := if g.initialized = false then none else some g.defaultGroup

/-- A call of a group through the pointer. -/
def update (groupId : Nat) (f : Group → Bool × Group) : Bool × GroupMgr :=
  match g.groupIdIndex.find groupId with
  | none => (false, g)
  | some group =>
    let (status, group) := f group
    (status, { g with groupIdIndex := g.groupIdIndex.assign groupId group })

/-- The default group has a profile of the peer. -/
def defaultHolds (peerId : Nat) : Prop :=
  ∃ group, g.groupIdIndex.find g.defaultGroup = some group ∧
    (group.profileIndex.profileIndex.find peerId).isSome

end GroupMgr

/-! ## Peers -/

structure PeerInfo where
  peerId : Nat
  transport : Nat
  peerAlias : Option String
  groupList : List Nat
  deriving DecidableEq, Repr

structure PeerMgr where
  initialized : Bool
  baseProfileIndex : PeerProfileIndex
  peerInfoIndex : UMap Nat PeerInfo

namespace PeerMgr

/-- Before `initializePeers`. -/
def new : PeerMgr :=
  { initialized := false
    baseProfileIndex := PeerProfileIndex.new PeerProfileIndex.defaultReserve
    peerInfoIndex := ∅ }

variable (m : PeerMgr)

def initializePeers : Bool × PeerMgr :=
  if m.initialized then (false, m) else (true, { new with initialized := true })

/-- The peer goes to the default group, then to the index, which keeps an entry that is there, and
last to the base profiles. -/
def registerTransport (g : GroupMgr) (peerId transport : Nat) :
    Option (Bool × PeerMgr × GroupMgr) :=
  if m.initialized = false then some (false, m, g)
  else
    match g.getDefaultGroup with
    | none => some (false, m, g)
    | some groupId =>
      let (status, g) := g.update groupId fun group => group.addPeer peerId
      if status = false then some (false, m, g)
      else do
        let peerInfo : PeerInfo :=
          { peerId, transport, peerAlias := none, groupList := [groupId] }
        let peerInfoIndex := m.peerInfoIndex.emplace peerId peerInfo
        let (status, baseProfileIndex) ← m.baseProfileIndex.create peerId
        some (status, { m with baseProfileIndex, peerInfoIndex }, g)

def deactivatePeer (_peerId : Nat) : Bool × PeerMgr := (true, m)

def deletePeer (_peerId : Nat) : Bool × PeerMgr := (true, m)

end PeerMgr

end Alpine
