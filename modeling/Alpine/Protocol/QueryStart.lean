import Alpine.Dtcp.Broadcast
import Alpine.Lib.Heap
import Alpine.Protocol.PeerMgr
import Alpine.Protocol.QueryResults

/-!
# The start of a query

`AlpineQuery` is built from the options of a query and started by `startQuery`, which builds the set
of destinations and the broadcast on it and sends the query's packet. The objects are on a heap. A
constructor that finds no group of the name returns before it sets the fields for the broadcast and
the packets, and `startQuery` deletes the set as soon as the broadcast has its address.
-/

namespace Alpine

open Lib

/-- A field that holds a pointer. -/
inductive Pointer where
  | unset
  | null
  | at (a : Nat)
  deriving DecidableEq, Repr

/-- `AlpineBroadcast`. -/
structure QueryBroadcast extends Broadcast where
  query : Option Nat
  deriving DecidableEq, Repr

inductive QueryObject where
  | broadcastSet (set : BroadcastSet)
  | broadcast (broadcast : QueryBroadcast)
  | alpinePacket (parent : Nat)
  | queryPacket

/-- What the start of a query does that its caller does not see. -/
inductive StartEvent where
  | usedAfterRelease (a : Nat)
  | usedUnset
  /-- The manager of the broadcasts takes these transports. -/
  | handedOver (transports : List (Option Nat))

/-- The objects and the manager of the broadcasts. -/
structure QueryWorld where
  heap : Heap QueryObject
  broadcastMgr : BroadcastMgr

namespace QueryWorld

variable (w : QueryWorld)

def alloc (object : QueryObject) : Nat × QueryWorld :=
  (w.heap.next, { w with heap := w.heap.alloc object })

/-- `delete`. -/
def delete : Pointer → QueryWorld × List StartEvent
  | .unset => (w, [.usedUnset])
  | .null => (w, [])
  | .at a =>
    if (w.heap.get a).isSome then ({ w with heap := w.heap.free a }, [])
    else (w, [.usedAfterRelease a])

end QueryWorld

structure AlpineQuery where
  options : QueryOptions
  queryActive : Bool
  group : Option Nat
  broadcast : Pointer
  alpinePacket : Pointer
  queryPacket : Pointer

namespace AlpineQuery

/-- The constructor. -/
def new (w : QueryWorld) (groups : GroupMgr) (options : QueryOptions) : AlpineQuery × QueryWorld :=
  match groups.locateGroup options.group with
  | none =>
    ({ options, queryActive := false, group := groups.getDefaultGroup, broadcast := .unset
       alpinePacket := .unset, queryPacket := .unset }, w)
  | some group =>
    let (queryPacket, w) := w.alloc .queryPacket
    let (alpinePacket, w) := w.alloc (.alpinePacket queryPacket)
    ({ options, queryActive := false, group := some group, broadcast := .null
       alpinePacket := .at alpinePacket, queryPacket := .at queryPacket }, w)

/-- What the world decides while a query starts. -/
structure StartAnswers where
  /-- The list that `createPeerList` yields, unless it fails. -/
  peerList : Option (List Nat)
  locateTransport : Nat → Option Nat
  /-- The destinations can be handed to their UDP transports. -/
  delegated : Bool
  /-- What comes of a packet sent to a set that was deleted. -/
  undefined : Bool
  /-- The time the packet goes out. -/
  now : Timeval

/-- `DtcpBroadcast::sendPacket`, on the broadcast at `handle`. -/
def sendPacket (w : QueryWorld) (answers : StartAnswers) (handle : Nat)
    (broadcast : QueryBroadcast) (packet : Pointer) : Bool × QueryWorld × List StartEvent :=
  if broadcast.active then (false, w, [])
  else
    let unset : List StartEvent := if packet = .unset then [.usedUnset] else []
    match w.heap.get broadcast.destinations with
    | some (.broadcastSet destinations) =>
      let (status, requestId, broadcastMgr) := w.broadcastMgr.sendPacket handle destinations
        broadcast.requestId answers.delegated
      let broadcast := { broadcast with requestId }
      let broadcast := if status then
        { broadcast with active := true, startTime := answers.now } else broadcast
      (status, { w with broadcastMgr, heap := w.heap.write handle (.broadcast broadcast) },
        unset ++ if status then [.handedOver destinations.transportArray] else [])
    | _ => (answers.undefined, w, unset ++ [.usedAfterRelease broadcast.destinations])

/-- `AlpineGroup::queryStart` returns true. -/
def startQuery (q : AlpineQuery) (w : QueryWorld) (answers : StartAnswers) :
    Bool × AlpineQuery × QueryWorld × List StartEvent :=
  if q.queryActive then (false, q, w, [])
  else
    match q.group, answers.peerList with
    | none, _ => (false, q, w, [])
    | some _, none => (false, q, w, [])
    | some _, some peerList =>
      let (broadcastSet, w) :=
        w.alloc (.broadcastSet (BroadcastSet.ofIds answers.locateTransport peerList))
      let broadcast : QueryBroadcast := { Broadcast.new broadcastSet with query := none }
      let (handle, w) := w.alloc (.broadcast broadcast)
      let q := { q with broadcast := .at handle }
      let (w, deleted) := w.delete (.at broadcastSet)
      let broadcast := { broadcast with packetNotification := true }
      let w := { w with heap := w.heap.write handle (.broadcast broadcast) }
      let (status, w, sent) := sendPacket w answers handle broadcast q.alpinePacket
      if status = false then (false, q, w, deleted ++ sent)
      else (true, { q with queryActive := true }, w, deleted ++ sent)

/-- The destructor. -/
def destroy (q : AlpineQuery) (w : QueryWorld) : QueryWorld × List StartEvent :=
  let (w, first) := w.delete q.alpinePacket
  let (w, second) := w.delete q.queryPacket
  (w, first ++ second)

/-! ## What a start should do -/

/-- A query is built and started; one that does not start is deleted, as its manager does. -/
def create (w : QueryWorld) (groups : GroupMgr) (options : QueryOptions) (answers : StartAnswers) :
    Bool × AlpineQuery × QueryWorld × List StartEvent :=
  let (q, w) := new w groups options
  let (status, q, w, events) := q.startQuery w answers
  if status = false then
    let (w, deleted) := q.destroy w
    (false, q, w, events ++ deleted)
  else (true, q, w, events)

/-- No object is used after its release, and no pointer before it is set. -/
def StartSafe (events : List StartEvent) : Prop :=
  .usedUnset ∉ events ∧ ∀ a, .usedAfterRelease a ∉ events

/-- The query is broadcast to its peer list and hears of it; a query that does not start leaves
nothing behind. `address` is that of the query. -/
structure StartsRight (address : Nat) (w : QueryWorld) (groups : GroupMgr) (options : QueryOptions)
    (answers : StartAnswers) : Prop where
  safe : StartSafe (create w groups options answers).2.2.2
  handed : (create w groups options answers).1 = true → ∃ peerList,
    answers.peerList = some peerList ∧
      .handedOver (peerList.map answers.locateTransport) ∈ (create w groups options answers).2.2.2
  valid : (create w groups options answers).1 = true → ∃ handle broadcast,
    (create w groups options answers).2.1.broadcast = .at handle ∧
      (create w groups options answers).2.2.1.heap.get handle = some (.broadcast broadcast) ∧
      ((create w groups options answers).2.2.1.heap.get broadcast.destinations).isSome ∧
      broadcast.query = some address
  /-- One whose group is unknown gets as far as one of the default group would, and does the same on
  its way. -/
  likeDefault : groups.locateGroup options.group = none →
    (create w groups options answers).1 =
        (create w groups { options with group := "default" } answers).1 ∧
      (create w groups options answers).2.2.2 =
        (create w groups { options with group := "default" } answers).2.2.2
  clean : (create w groups options answers).1 = false →
    (∀ a, (create w groups options answers).2.2.1.heap.get a = w.heap.get a) ∧
      (create w groups options answers).2.2.1.broadcastMgr = w.broadcastMgr

variable {address : Nat} {w : QueryWorld} {groups : GroupMgr} {options : QueryOptions}
  {answers : StartAnswers}

/-- The set of destinations is read when it is gone. -/
theorem startQuery_faults (q : AlpineQuery) (w : QueryWorld) (hinactive : q.queryActive = false)
    {group : Nat} (hgroup : q.group = some group) {peerList : List Nat}
    (hpeers : answers.peerList = some peerList) :
    .usedAfterRelease w.heap.next ∈ (q.startQuery w answers).2.2.2 := by
  have hnext : w.heap.next ≠ w.heap.next + 1 := by omega
  unfold startQuery
  rw [hinactive, hgroup, hpeers]
  simp only [Bool.false_eq_true, if_false, QueryWorld.alloc, QueryWorld.delete, Heap.next_alloc,
    Heap.get_alloc, if_neg hnext, if_true, Option.isSome_some]
  unfold sendPacket
  simp only [Broadcast.new, Bool.false_eq_true, if_false, Heap.get_write, Heap.get_free,
    Heap.get_alloc, Heap.next_alloc, hnext, false_and, if_true]
  split <;> simp

/-- A query that never gets as far as the broadcast does not start. -/
theorem startQuery_stops (q : AlpineQuery) (w : QueryWorld) (hinactive : q.queryActive = false)
    (hstop : q.group = none ∨ answers.peerList = none) :
    q.startQuery w answers = (false, q, w, []) := by
  unfold startQuery
  rw [hinactive]
  rcases hstop with hgroup | hpeers
  · rw [hgroup]
    rfl
  · rw [hpeers]
    cases q.group <;> rfl

/-- The events of a start are among those of the query's life. -/
theorem create_events (w : QueryWorld) {event : StartEvent}
    (h : event ∈ ((new w groups options).1.startQuery (new w groups options).2 answers).2.2.2) :
    event ∈ (create w groups options answers).2.2.2 := by
  unfold create
  dsimp only
  split
  · exact List.mem_append_left _ h
  · exact h

theorem new_inactive (w : QueryWorld) : (new w groups options).1.queryActive = false := by
  unfold new
  split <;> rfl

/-- A query without its group has nothing to delete but pointers that were never set. -/
theorem create_unknown (w : QueryWorld) (hunknown : groups.locateGroup options.group = none) :
    ¬ StartSafe (create w groups options answers).2.2.2 := by
  rintro ⟨hunset, hlive⟩
  have hnew : new w groups options =
      ({ options, queryActive := false, group := groups.getDefaultGroup, broadcast := .unset
         alpinePacket := .unset, queryPacket := .unset }, w) := by
    unfold new
    rw [hunknown]
  by_cases hstop : groups.getDefaultGroup = none ∨ answers.peerList = none
  · refine hunset ?_
    unfold create
    rw [hnew]
    dsimp only
    rw [startQuery_stops _ w rfl hstop]
    simp [destroy, QueryWorld.delete]
  · obtain ⟨hgroup, hpeers⟩ := not_or.mp hstop
    obtain ⟨group, hgroup⟩ := Option.ne_none_iff_exists'.mp hgroup
    obtain ⟨peerList, hpeers⟩ := Option.ne_none_iff_exists'.mp hpeers
    refine hlive w.heap.next (create_events w ?_)
    rw [hnew]
    exact startQuery_faults _ w rfl hgroup hpeers

/-- A query is started as it should be exactly if its group is known and yields no peer list, so
that it does not start at all. -/
theorem startsRight_iff (address : Nat) (w : QueryWorld) (groups : GroupMgr) (options : QueryOptions)
    (answers : StartAnswers) :
    StartsRight address w groups options answers ↔
      (groups.locateGroup options.group).isSome ∧ answers.peerList = none := by
  cases hlocate : groups.locateGroup options.group with
  | none =>
    refine ⟨fun hr => absurd hr.safe (create_unknown w hlocate), ?_⟩
    rintro ⟨h, -⟩
    cases h
  | some group =>
    have hgroup : (new w groups options).1.group = some group := by
      unfold new
      rw [hlocate]
    constructor
    · intro hr
      refine ⟨rfl, ?_⟩
      cases hpeers : answers.peerList with
      | none => rfl
      | some peerList =>
        exact absurd (create_events w (startQuery_faults _ _ (new_inactive w) hgroup hpeers))
          (hr.safe.2 _)
    · rintro ⟨-, hpeers⟩
      have hcreate : create w groups options answers = (false, (new w groups options).1,
          { w with heap :=
            ((((w.heap.alloc .queryPacket).alloc (.alpinePacket w.heap.next)).free
              (w.heap.next + 1)).free w.heap.next) }, []) := by
        unfold create
        dsimp only
        rw [startQuery_stops _ _ (new_inactive w) (.inr hpeers)]
        unfold new destroy
        rw [hlocate]
        simp [QueryWorld.alloc, QueryWorld.delete]
      refine ⟨?_, ?_, ?_, fun h => absurd (hlocate.symm.trans h) (by simp), fun _ => ⟨fun a => ?_, ?_⟩⟩
      · rw [hcreate]
        exact ⟨List.not_mem_nil, fun _ => List.not_mem_nil⟩
      · intro h
        rw [hcreate] at h
        cases h
      · intro h
        rw [hcreate] at h
        cases h
      · rw [hcreate]
        simp only [Heap.get_free, Heap.get_alloc, Heap.next_alloc]
        by_cases h₁ : a = w.heap.next
        · simp [h₁]
        · by_cases h₂ : a = w.heap.next + 1
          · rw [if_neg h₁, if_pos h₂]
            exact (w.heap.unused a (by omega)).symm
          · simp [h₁, h₂]
      · rw [hcreate]

/-- A query of the default group, with one peer. -/
def onePeer : StartAnswers :=
  { peerList := some [5], locateTransport := fun peerId => some (100 + peerId), delegated := true
    undefined := true, now := ⟨0, 0⟩ }

/-- Its destinations are deleted before the packet is sent to them. -/
theorem onePeer_not_startsRight :
    ¬ StartsRight 1 ⟨Heap.empty, BroadcastMgr.new⟩ GroupMgr.new.initializeGroups.2
      ⟨"default", .empty, 100, 128⟩ onePeer := by
  intro hr
  exact hr.safe.2 2 (create_events _ (startQuery_faults _ _ rfl rfl rfl))

end AlpineQuery

end Alpine
