import Mathlib.Algebra.Ring.Nat
import Alpine.Lib.Heap

/-!
# Broadcasts that wait for their turn

`DtcpBroadcastStates` has the broadcast requests that one UDP transport still has packets to send
for. A request refers to the list of its remaining destinations by address, and does not own it;
`lists` is the memory the lists are in. The requests take turns, and in its turn a request gets one
packet to its first destination sent.
-/

namespace Alpine

open Lib

/-- `t_RequestData`. -/
structure RequestData where
  requestId : Nat
  packet : Nat
  remainingDestinations : Nat
  deriving DecidableEq, Repr

structure BroadcastStates where
  totalRequests : Nat
  requestList : List RequestData
  deriving DecidableEq, Repr

/-- The list at an address. -/
def destinationsAt (lists : Heap (List Nat)) (a : Nat) : List Nat := (lists.get a).getD []

namespace BroadcastStates

def new : BroadcastStates := ⟨0, []⟩

variable (s : BroadcastStates) (lists : Heap (List Nat))

def addState (requestId packet destinations : Nat) : Bool × BroadcastStates :=
  let numDestinations := (destinationsAt lists destinations).length
  if numDestinations = 0 then (false, s)
  else (true, {
    totalRequests := s.totalRequests + numDestinations
    requestList := s.requestList ++ [⟨requestId, packet, destinations⟩] })

def removeState (requestId : Nat) : Bool × BroadcastStates :=
  match s.requestList.find? (·.requestId == requestId) with
  | none => (false, s)
  | some request => (true, {
    totalRequests := s.totalRequests - (destinationsAt lists request.remainingDestinations).length
    requestList := s.requestList.eraseP (·.requestId == requestId) })

def requestsPending : Nat := s.totalRequests

/-- What `getCurrentRequest` takes out before it reports to the manager. -/
structure Current where
  request : RequestData
  /-- `front ()` of the list, which may be empty. -/
  destination : Option Nat
  lists : Heap (List Nat)
  states : BroadcastStates

/-- The first part of `getCurrentRequest`. -/
def popCurrent : Option Current :=
  match s.requestList with
  | [] => none
  | request :: rest =>
    let destinations := destinationsAt lists request.remainingDestinations
    some {
      request
      destination := destinations.head?
      lists := lists.write request.remainingDestinations destinations.tail
      -- a request that is done is deleted, and not the list
      states := { s with
        requestList := if destinations.tail.length = 0 then rest else rest ++ [request] } }

/-- `totalRequests_--`. -/
def countDown : BroadcastStates := { s with totalRequests := s.totalRequests - 1 }

/-- The destinations that a request has yet to be sent to. -/
def waiting (requestId : Nat) : List Nat :=
  (s.requestList.filter (·.requestId == requestId)).flatMap
    fun request => destinationsAt lists request.remainingDestinations

/-- How many destinations wait. -/
def numWaiting : Nat :=
  (s.requestList.map fun request => (destinationsAt lists request.remainingDestinations).length).sum

/-- Every request has a list of its own that is not empty. -/
structure OwnLists (s : BroadcastStates) (lists : Heap (List Nat)) : Prop where
  present : ∀ request ∈ s.requestList, destinationsAt lists request.remainingDestinations ≠ []
  own : (s.requestList.map (·.remainingDestinations)).Nodup

/-- And the destinations are counted. -/
structure Counted (s : BroadcastStates) (lists : Heap (List Nat)) : Prop
    extends s.OwnLists lists where
  total : s.totalRequests = s.numWaiting lists

end BroadcastStates

/-! ## Memory -/

section Memory

variable {lists : Heap (List Nat)}

/-- A list that is not empty is in memory that is in use. -/
theorem lt_next {a : Nat} (hlive : destinationsAt lists a ≠ []) : a < lists.next := by
  by_contra hge
  apply hlive
  unfold destinationsAt Heap.get
  rw [lists.unused a (not_lt.mp hge)]
  rfl

theorem destinationsAt_alloc (destinations : List Nat) {a : Nat} (hne : a ≠ lists.next) :
    destinationsAt (lists.alloc destinations) a = destinationsAt lists a := by
  simp [destinationsAt, hne]

@[simp] theorem destinationsAt_alloc_next (destinations : List Nat) :
    destinationsAt (lists.alloc destinations) lists.next = destinations := by
  simp [destinationsAt]

theorem destinationsAt_write_of_ne (destinations : List Nat) {a b : Nat} (hne : b ≠ a) :
    destinationsAt (lists.write a destinations) b = destinationsAt lists b := by
  unfold destinationsAt
  rw [Heap.get_write, if_neg fun h => hne h.1]

theorem destinationsAt_write (destinations : List Nat) {a b : Nat}
    (hlive : destinationsAt lists a ≠ []) :
    destinationsAt (lists.write a destinations) b =
      if b = a then destinations else destinationsAt lists b := by
  by_cases hb : b = a
  · have hsome : (lists.get a).isSome := by
      cases h : lists.get a with
      | none =>
        unfold destinationsAt at hlive
        rw [h] at hlive
        exact absurd rfl hlive
      | some _ => rfl
    unfold destinationsAt
    rw [Heap.get_write, if_pos ⟨hb, hsome⟩, if_pos hb]
    rfl
  · rw [if_neg hb]
    exact destinationsAt_write_of_ne destinations hb

end Memory

/-! ## Steps of the states -/

namespace BroadcastStates

variable {s : BroadcastStates} {lists lists' : Heap (List Nat)}

section Congr

variable (hsame : ∀ request ∈ s.requestList, destinationsAt lists' request.remainingDestinations =
  destinationsAt lists request.remainingDestinations)

include hsame

theorem waiting_congr (requestId : Nat) : s.waiting lists' requestId = s.waiting lists requestId := by
  unfold waiting
  rw [List.flatMap_def, List.flatMap_def]
  congr 1
  exact List.map_congr_left fun request hmem => hsame request (List.mem_filter.mp hmem).1

theorem numWaiting_congr : s.numWaiting lists' = s.numWaiting lists := by
  unfold numWaiting
  congr 1
  exact List.map_congr_left fun request hmem => by rw [hsame request hmem]

theorem OwnLists.congr (ho : s.OwnLists lists) : s.OwnLists lists' where
  present request hmem := by
    rw [hsame request hmem]
    exact ho.present request hmem
  own := ho.own

end Congr

theorem OwnLists.ne_next (ho : s.OwnLists lists) {request : RequestData}
    (hmem : request ∈ s.requestList) : request.remainingDestinations ≠ lists.next :=
  Nat.ne_of_lt (lt_next (ho.present request hmem))

/-- A new list changes nothing for the requests there are. -/
theorem OwnLists.alloc_same (ho : s.OwnLists lists) (destinations : List Nat) :
    ∀ request ∈ s.requestList,
      destinationsAt (lists.alloc destinations) request.remainingDestinations =
        destinationsAt lists request.remainingDestinations :=
  fun _ hmem => destinationsAt_alloc destinations (ho.ne_next hmem)

theorem Counted.alloc (hc : s.Counted lists) (destinations : List Nat) :
    s.Counted (lists.alloc destinations) where
  toOwnLists := OwnLists.congr (hc.alloc_same destinations) hc.toOwnLists
  total := by rw [hc.total, numWaiting_congr (hc.alloc_same destinations)]

/-! ### addState -/

theorem addState_status (requestId packet : Nat) {a : Nat} (hlive : destinationsAt lists a ≠ []) :
    s.addState lists requestId packet a = (true, {
      totalRequests := s.totalRequests + (destinationsAt lists a).length
      requestList := s.requestList ++ [⟨requestId, packet, a⟩] }) := by
  unfold addState
  exact if_neg fun h => hlive (List.length_eq_zero_iff.mp h)

theorem OwnLists.addState (ho : s.OwnLists lists) (requestId packet : Nat) {a : Nat}
    (hnew : ∀ request ∈ s.requestList, request.remainingDestinations ≠ a) :
    (s.addState lists requestId packet a).2.OwnLists lists := by
  unfold BroadcastStates.addState
  dsimp only
  split
  · exact ho
  · next hlength =>
    constructor
    · intro request hmem
      rcases List.mem_append.mp hmem with h | h
      · exact ho.present request h
      · rw [List.mem_singleton.mp h]
        exact fun hnil => hlength (by rw [hnil]; rfl)
    · show (List.map _ (s.requestList ++ [_])).Nodup
      rw [List.map_append, List.nodup_append]
      refine ⟨ho.own, List.nodup_singleton _, ?_⟩
      intro b hb b' hb'
      obtain ⟨request, hmem, rfl⟩ := List.mem_map.mp hb
      rw [List.mem_singleton.mp hb']
      exact hnew request hmem

theorem numWaiting_addState (s : BroadcastStates) (lists : Heap (List Nat))
    (requestId packet a : Nat) :
    (s.addState lists requestId packet a).2.numWaiting lists =
      s.numWaiting lists + (destinationsAt lists a).length ∧
    (s.addState lists requestId packet a).2.totalRequests =
      s.totalRequests + (destinationsAt lists a).length := by
  unfold BroadcastStates.addState
  dsimp only
  split
  · next hlength =>
    rw [hlength]
    exact ⟨rfl, rfl⟩
  · simp [numWaiting]

theorem Counted.addState (hc : s.Counted lists) (requestId packet : Nat) {a : Nat}
    (hnew : ∀ request ∈ s.requestList, request.remainingDestinations ≠ a) :
    (s.addState lists requestId packet a).2.Counted lists where
  toOwnLists := hc.toOwnLists.addState requestId packet hnew
  total := by
    obtain ⟨hwaiting, htotal⟩ := numWaiting_addState s lists requestId packet a
    rw [hwaiting, htotal, hc.total]

theorem waiting_addState (requestId packet a r : Nat) :
    (s.addState lists requestId packet a).2.waiting lists r =
      s.waiting lists r ++ if requestId = r then destinationsAt lists a else [] := by
  unfold BroadcastStates.addState
  dsimp only
  split
  · next hlength =>
    rw [List.length_eq_zero_iff.mp hlength]
    simp
  · simp only [waiting, List.filter_append, List.flatMap_append]
    congr 1
    by_cases hr : requestId = r
    · simp [hr]
    · simp [hr]

/-! ### popCurrent -/

theorem OwnLists.countDown (ho : s.OwnLists lists) : s.countDown.OwnLists lists :=
  ⟨ho.present, ho.own⟩

/-- The list of the request in turn, and the rest of the requests. -/
theorem OwnLists.popCurrent_eq (ho : s.OwnLists lists) {current : Current}
    (hpop : s.popCurrent lists = some current) :
    ∃ destination destinations rest, s.requestList = current.request :: rest ∧
      destinationsAt lists current.request.remainingDestinations = destination :: destinations ∧
      current.destination = some destination ∧
      current.lists = lists.write current.request.remainingDestinations destinations ∧
      current.states = { s with
        requestList := if destinations.length = 0 then rest else rest ++ [current.request] } := by
  unfold popCurrent at hpop
  split at hpop
  · cases hpop
  · next request rest hlist =>
    obtain rfl := Option.some.inj hpop
    have hpresent := ho.present request (by rw [hlist]; exact .head _)
    obtain ⟨destination, destinations, hat⟩ := List.exists_cons_of_ne_nil hpresent
    refine ⟨destination, destinations, rest, hlist, hat, ?_, ?_, ?_⟩
    · show List.head? _ = _
      rw [hat]
      rfl
    · show lists.write _ _ = _
      rw [hat]
      rfl
    · show BroadcastStates.mk _ _ = _
      rw [hat]
      rfl

/-- The others in the list have lists of their own. -/
theorem OwnLists.others (ho : s.OwnLists lists) {request : RequestData} {rest : List RequestData}
    (hlist : s.requestList = request :: rest) :
    ∀ other ∈ rest, other.remainingDestinations ≠ request.remainingDestinations := by
  intro other hmem heq
  have hown := ho.own
  rw [hlist, List.map_cons] at hown
  exact (List.nodup_cons.mp hown).1 (heq ▸ List.mem_map_of_mem hmem)

/-- The requests that are left are among those there were. -/
theorem mem_of_mem_popCurrent {current : Current} (hpop : s.popCurrent lists = some current)
    {request : RequestData} (hmem : request ∈ current.states.requestList) :
    request ∈ s.requestList := by
  unfold popCurrent at hpop
  split at hpop
  · cases hpop
  · next first rest hlist =>
    obtain rfl := Option.some.inj hpop
    rw [hlist]
    dsimp only at hmem
    split at hmem
    · exact .tail _ hmem
    · rcases List.mem_append.mp hmem with h | h
      · exact .tail _ h
      · rw [List.mem_singleton.mp h]
        exact .head _

/-- A destination that was taken out waits no more, and the others wait. -/
theorem OwnLists.waiting_popCurrent (ho : s.OwnLists lists) {current : Current}
    (hpop : s.popCurrent lists = some current) :
    ∃ destination, current.destination = some destination ∧ ∀ requestId,
      (s.waiting lists requestId).Perm
        ((if current.request.requestId = requestId then [destination] else []) ++
          current.states.waiting current.lists requestId) := by
  obtain ⟨destination, destinations, rest, hlist, hat, hdestination, hlists, hstates⟩ :=
    ho.popCurrent_eq hpop
  refine ⟨destination, hdestination, fun requestId => ?_⟩
  have hlive : destinationsAt lists current.request.remainingDestinations ≠ [] := by
    rw [hat]
    exact List.cons_ne_nil _ _
  have hrest : (rest.filter (·.requestId == requestId)).flatMap
      (fun request => destinationsAt current.lists request.remainingDestinations) =
      (rest.filter (·.requestId == requestId)).flatMap
        fun request => destinationsAt lists request.remainingDestinations := by
    rw [List.flatMap_def, List.flatMap_def]
    congr 1
    refine List.map_congr_left fun request hmem => ?_
    rw [hlists, destinationsAt_write_of_ne _ (ho.others hlist request (List.mem_filter.mp hmem).1)]
  have hself : destinationsAt current.lists current.request.remainingDestinations = destinations := by
    rw [hlists, destinationsAt_write _ hlive, if_pos rfl]
  unfold waiting
  rw [hstates, hlist]
  by_cases hid : current.request.requestId = requestId
  · rw [List.filter_cons_of_pos (by simpa using hid), List.flatMap_cons, hat, if_pos hid]
    cases destinations with
    | nil => rw [if_pos List.length_nil, hrest]
    | cons next more =>
      rw [if_neg (by simp), List.filter_append, List.flatMap_append, hrest,
        List.filter_cons_of_pos (by simpa using hid), List.filter_nil, List.flatMap_cons, hself]
      simp only [List.flatMap_nil, List.append_nil]
      exact List.Perm.cons _ List.perm_append_comm
  · rw [List.filter_cons_of_neg (by simpa using hid), if_neg hid, ← hrest]
    cases destinations with
    | nil => exact List.Perm.refl _
    | cons next more =>
      rw [if_neg (by simp), List.filter_append, List.filter_cons_of_neg (by simpa using hid)]
      simp

theorem OwnLists.popCurrent (ho : s.OwnLists lists) {current : Current}
    (hpop : s.popCurrent lists = some current) : current.states.OwnLists current.lists := by
  obtain ⟨destination, destinations, rest, hlist, hat, -, hlists, hstates⟩ := ho.popCurrent_eq hpop
  have hlive : destinationsAt lists current.request.remainingDestinations ≠ [] := by
    rw [hat]
    exact List.cons_ne_nil _ _
  have hown := ho.own
  rw [hlist, List.map_cons] at hown
  have hrest : ∀ request ∈ rest, destinationsAt current.lists request.remainingDestinations ≠ [] := by
    intro request hmem
    rw [hlists, destinationsAt_write_of_ne _ (ho.others hlist request hmem)]
    exact ho.present request (by rw [hlist]; exact .tail _ hmem)
  rw [hstates]
  cases destinations with
  | nil =>
    rw [if_pos List.length_nil]
    exact ⟨hrest, (List.nodup_cons.mp hown).2⟩
  | cons next more =>
    rw [if_neg (by simp)]
    constructor
    · intro request hmem
      rcases List.mem_append.mp hmem with h | h
      · exact hrest request h
      · rw [List.mem_singleton.mp h, hlists, destinationsAt_write _ hlive, if_pos rfl]
        exact List.cons_ne_nil _ _
    · show ((rest ++ [current.request]).map _).Nodup
      rw [List.map_append]
      exact (List.perm_append_comm.nodup_iff).mp hown

theorem OwnLists.numWaiting_popCurrent (ho : s.OwnLists lists) {current : Current}
    (hpop : s.popCurrent lists = some current) :
    current.states.numWaiting current.lists + 1 = s.numWaiting lists ∧
      current.states.totalRequests = s.totalRequests := by
  obtain ⟨destination, destinations, rest, hlist, hat, -, hlists, hstates⟩ := ho.popCurrent_eq hpop
  have hlive : destinationsAt lists current.request.remainingDestinations ≠ [] := by
    rw [hat]
    exact List.cons_ne_nil _ _
  have hself : destinationsAt current.lists current.request.remainingDestinations = destinations := by
    rw [hlists, destinationsAt_write _ hlive, if_pos rfl]
  have hrest : rest.map (fun request =>
      (destinationsAt current.lists request.remainingDestinations).length) =
      rest.map fun request => (destinationsAt lists request.remainingDestinations).length := by
    refine List.map_congr_left fun request hmem => ?_
    rw [hlists, destinationsAt_write_of_ne _ (ho.others hlist request hmem)]
  refine ⟨?_, by rw [hstates]⟩
  unfold numWaiting
  rw [hlist, List.map_cons, List.sum_cons, hat, List.length_cons, hstates]
  cases destinations with
  | nil =>
    rw [if_pos List.length_nil, hrest, List.length_nil]
    omega
  | cons next more =>
    rw [if_neg (by simp), List.map_append, List.sum_append, hrest]
    simp only [List.map_cons, List.map_nil, List.sum_cons, List.sum_nil, hself]
    omega

/-! ### removeState -/

theorem removeState_requestList (requestId : Nat) :
    (s.removeState lists requestId).2.requestList =
      s.requestList.eraseP (·.requestId == requestId) := by
  unfold removeState
  split
  · next hfind =>
    symm
    apply List.eraseP_of_forall_not
    intro request hmem
    simpa using List.find?_eq_none.mp hfind request hmem
  · rfl

theorem mem_of_mem_removeState {requestId : Nat} {request : RequestData}
    (hmem : request ∈ (s.removeState lists requestId).2.requestList) : request ∈ s.requestList := by
  rw [removeState_requestList] at hmem
  exact List.mem_of_mem_eraseP hmem

theorem OwnLists.removeState (ho : s.OwnLists lists) (requestId : Nat) :
    (s.removeState lists requestId).2.OwnLists lists where
  present request hmem := ho.present request (mem_of_mem_removeState hmem)
  own := by
    rw [removeState_requestList]
    exact ho.own.sublist (List.eraseP_sublist.map _)

/-- The count goes down by the destinations that no longer wait. -/
theorem numWaiting_removeState {extra : Nat} (requestId : Nat)
    (htotal : s.totalRequests = s.numWaiting lists + extra) :
    (s.removeState lists requestId).2.totalRequests =
      (s.removeState lists requestId).2.numWaiting lists + extra := by
  have hsum : ∀ l : List RequestData,
      ((l.eraseP (·.requestId == requestId)).map fun request =>
        (destinationsAt lists request.remainingDestinations).length).sum +
        ((l.find? (·.requestId == requestId)).elim 0 fun request =>
          (destinationsAt lists request.remainingDestinations).length) =
      (l.map fun request => (destinationsAt lists request.remainingDestinations).length).sum := by
    intro l
    induction l with
    | nil => rfl
    | cons request rest ih =>
      by_cases hid : request.requestId = requestId
      · rw [List.eraseP_cons_of_pos (by simpa using hid), List.find?_cons_of_pos (by simpa using hid),
          List.map_cons, List.sum_cons]
        exact Nat.add_comm _ _
      · rw [List.eraseP_cons_of_neg (by simpa using hid), List.find?_cons_of_neg (by simpa using hid),
          List.map_cons, List.map_cons, List.sum_cons, List.sum_cons, ← ih, Nat.add_assoc]
  have hlist := hsum s.requestList
  unfold numWaiting at htotal ⊢
  rw [removeState_requestList]
  unfold removeState
  split
  · next hfind =>
    rw [hfind] at hlist
    simp only [Option.elim_none, Nat.add_zero] at hlist
    show s.totalRequests = _
    rw [hlist, htotal]
  · next request hfind =>
    rw [hfind, Option.elim_some] at hlist
    show s.totalRequests - _ = _
    omega

theorem waiting_removeState_of_ne {requestId r : Nat} (hne : r ≠ requestId) :
    (s.removeState lists requestId).2.waiting lists r = s.waiting lists r := by
  unfold waiting
  rw [removeState_requestList]
  congr 1
  induction s.requestList with
  | nil => rfl
  | cons request rest ih =>
    by_cases hid : request.requestId = requestId
    · have hr : request.requestId ≠ r := fun h => hne (h.symm.trans hid)
      rw [List.eraseP_cons_of_pos (by simpa using hid), List.filter_cons_of_neg (by simpa using hr)]
    · rw [List.eraseP_cons_of_neg (by simpa using hid), List.filter_cons, List.filter_cons, ih]

/-- A request that is in the list once is removed. -/
theorem waiting_removeState (hids : (s.requestList.map (·.requestId)).Nodup) (requestId : Nat) :
    (s.removeState lists requestId).2.waiting lists requestId = [] := by
  unfold waiting
  rw [removeState_requestList]
  have hnone : ∀ request ∈ s.requestList.eraseP (·.requestId == requestId),
      request.requestId ≠ requestId := by
    revert hids
    induction s.requestList with
    | nil => exact fun _ => nofun
    | cons first rest ih =>
      intro hids
      obtain ⟨hfirst, hrest⟩ := List.nodup_cons.mp hids
      by_cases hid : first.requestId = requestId
      · rw [List.eraseP_cons_of_pos (by simpa using hid)]
        intro request hmem heq
        exact hfirst (List.mem_map.mpr ⟨request, hmem, heq.trans hid.symm⟩)
      · rw [List.eraseP_cons_of_neg (by simpa using hid)]
        intro request hmem
        rcases List.mem_cons.mp hmem with rfl | h
        · exact hid
        · exact ih hrest request h
  rw [List.filter_eq_nil_iff.mpr fun request hmem => by simpa using hnone request hmem]
  rfl

end BroadcastStates

end Alpine
