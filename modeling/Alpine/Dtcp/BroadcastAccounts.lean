import Alpine.Dtcp.BroadcastDelivery

/-!
# The accounts of the broadcasts

A request is in the index of the manager from the time it is accepted until it is done or cancelled.
While it is there, each of its destinations was handed out, is in the hand of its transport or waits
in the states (`Kept`), as long as nobody else uses the memory of the lists. But the lists are freed
as soon as a request is accepted (`along_accounts`).
-/

namespace Alpine

open Lib

/-! ## Destinations by UDP transport -/

namespace UdpTransportIndex

/-- The destinations of one transport. -/
def destinationsOf (index : UdpTransportIndex) (udpTransport : Nat) : List Nat :=
  (index.filter (·.1 == udpTransport)).flatMap (·.2)

theorem count_map_pair (u u' d : Nat) (destinations : List Nat) :
    (destinations.map (u', ·)).count (u, d) = if u' = u then destinations.count d else 0 := by
  induction destinations with
  | nil => simp
  | cons d' rest ih =>
    rw [List.map_cons, List.count_cons, ih, List.count_cons]
    by_cases hu : u' = u
    · simp [hu]
    · simp [hu]

theorem count_pairs (index : UdpTransportIndex) (u d : Nat) :
    index.pairs.count (u, d) = (index.destinationsOf u).count d := by
  unfold pairs destinationsOf
  induction index with
  | nil => rfl
  | cons item rest ih =>
    rw [List.flatMap_cons, List.count_append, ih, count_map_pair]
    by_cases hu : item.1 = u
    · rw [if_pos hu, List.filter_cons_of_pos (by simpa using hu), List.flatMap_cons,
        List.count_append]
    · rw [if_neg hu, List.filter_cons_of_neg (by simpa using hu), Nat.zero_add]

/-- Every list has a destination, and no transport has two lists. -/
structure Formed (index : UdpTransportIndex) : Prop where
  nonempty : ∀ item ∈ index, item.2 ≠ []
  keys : (index.map Prod.fst).Nodup

theorem mem_addTransport {index : UdpTransportIndex} {u t : Nat} {item : Nat × List Nat}
    (hmem : item ∈ addTransport u t index) :
    item.2 ≠ [] ∧ (item.1 = u ∨ item.1 ∈ index.map Prod.fst) ∨ item ∈ index := by
  induction index with
  | nil =>
    rw [List.mem_singleton.mp hmem]
    exact .inl ⟨List.cons_ne_nil _ _, .inl rfl⟩
  | cons first rest ih =>
    unfold addTransport at hmem
    split at hmem
    · next heq =>
      rcases List.mem_cons.mp hmem with rfl | h
      · exact .inl ⟨by simp, .inl heq⟩
      · exact .inr (.tail _ h)
    · rcases List.mem_cons.mp hmem with rfl | h
      · exact .inr (.head _)
      · rcases ih h with ⟨h1, h2 | h2⟩ | h1
        · exact .inl ⟨h1, .inl h2⟩
        · exact .inl ⟨h1, .inr (.tail _ h2)⟩
        · exact .inr (.tail _ h1)

theorem Formed.addTransport {index : UdpTransportIndex} (hf : index.Formed) (u t : Nat) :
    (addTransport u t index).Formed := by
  constructor
  · intro item hmem
    rcases mem_addTransport hmem with ⟨h, -⟩ | h
    · exact h
    · exact hf.nonempty item h
  · have hkeys := hf.keys
    clear hf
    induction index with
    | nil => exact List.nodup_singleton _
    | cons first rest ih =>
      obtain ⟨hfirst, hrest⟩ := List.nodup_cons.mp hkeys
      unfold UdpTransportIndex.addTransport
      split
      · exact List.nodup_cons.mpr ⟨hfirst, hrest⟩
      · next hne =>
        refine List.nodup_cons.mpr ⟨fun hmem => ?_, ih hrest⟩
        obtain ⟨item, hitem, heq⟩ := List.mem_map.mp hmem
        rcases mem_addTransport hitem with ⟨-, h | h⟩ | h
        · exact hne (heq.symm.trans h)
        · exact hfirst (heq ▸ h)
        · exact hfirst (heq ▸ List.mem_map_of_mem h)

theorem length_pairs_addTransport (index : UdpTransportIndex) (u t : Nat) :
    (addTransport u t index).pairs.length = index.pairs.length + 1 := by
  induction index with
  | nil => rfl
  | cons first rest ih =>
    unfold addTransport
    split
    · simp only [pairs, List.flatMap_cons, List.length_append, List.length_map, List.length_cons,
        List.length_nil]
      omega
    · simp only [pairs, List.flatMap_cons, List.length_append] at ih ⊢
      omega

theorem Formed.populate {getParent : Nat → Option Nat} {transports : List (Option Nat)}
    {index index' : UdpTransportIndex} (hf : index.Formed)
    (hok : populate getParent index transports = .ok index') :
    index'.Formed ∧ index'.pairs.length = index.pairs.length + transports.length := by
  induction transports generalizing index with
  | nil =>
    cases hok
    exact ⟨hf, rfl⟩
  | cons transport rest ih =>
    cases transport with
    | none => cases hok
    | some transport =>
      unfold UdpTransportIndex.populate at hok
      split at hok
      · cases hok
      · next udpTransport hparent =>
        obtain ⟨hformed, hlength⟩ := ih (hf.addTransport udpTransport transport) hok
        rw [length_pairs_addTransport] at hlength
        exact ⟨hformed, by rw [hlength, List.length_cons]; omega⟩

theorem formed_nil : Formed [] := ⟨nofun, List.nodup_nil⟩

end UdpTransportIndex

namespace BroadcastDelivery

open BroadcastStates

/-! ## The states of the transports -/

/-- The lists that the states refer to are all different, and the destinations are counted. -/
structure StatesOk (s : BroadcastDelivery) : Prop where
  own : ∀ u, (s.broadcastStatesIndex u).OwnLists s.lists
  apart : ∀ u u', u ≠ u' → ∀ request ∈ (s.broadcastStatesIndex u).requestList,
    ∀ request' ∈ (s.broadcastStatesIndex u').requestList,
      request.remainingDestinations ≠ request'.remainingDestinations
  pending : ∀ u, (s.broadcastStatesIndex u).totalRequests =
    (s.broadcastStatesIndex u).numWaiting s.lists + (s.reporting.find u).toList.length
  ids : ∀ u, ((s.broadcastStatesIndex u).requestList.map (·.requestId)).Nodup

section States

variable {s s' : BroadcastDelivery}

@[simp] theorem setStates_self (s : BroadcastDelivery) (u : Nat) (states : BroadcastStates) :
    (s.setStates u states).broadcastStatesIndex u = states :=
  Function.update_self _ _ _

theorem setStates_of_ne (s : BroadcastDelivery) {u u' : Nat} (hne : u' ≠ u)
    (states : BroadcastStates) :
    (s.setStates u states).broadcastStatesIndex u' = s.broadcastStatesIndex u' :=
  Function.update_of_ne hne _ _

/-- The states have a new list. -/
def addList (s : BroadcastDelivery) (requestId packet u : Nat) (destinations : List Nat) :
    BroadcastDelivery :=
  { s with lists := s.lists.alloc destinations }.setStates u
    ((s.broadcastStatesIndex u).addState (s.lists.alloc destinations) requestId packet s.lists.next).2

theorem delegate_cons (s : BroadcastDelivery) (requestId packet u : Nat) {destinations : List Nat}
    (hne : destinations ≠ []) (rest : UdpTransportIndex) :
    s.delegate requestId packet ((u, destinations) :: rest) =
      (((s.addList requestId packet u destinations).delegate requestId packet rest).1,
        s.lists.next :: ((s.addList requestId packet u destinations).delegate requestId packet rest).2.1,
        u :: ((s.addList requestId packet u destinations).delegate requestId packet rest).2.2.1,
        ((s.addList requestId packet u destinations).delegate requestId packet rest).2.2.2) := by
  have hlive : destinationsAt (s.lists.alloc destinations) s.lists.next ≠ [] := by
    rw [destinationsAt_alloc_next]
    exact hne
  have hadd := addState_status (s := s.broadcastStatesIndex u) requestId packet hlive
  rw [delegate]
  unfold addList
  dsimp only
  rw [hadd]

theorem mem_addList {requestId packet u : Nat} {destinations : List Nat} {u' : Nat}
    {request : RequestData}
    (hmem : request ∈
      ((s.addList requestId packet u destinations).broadcastStatesIndex u').requestList) :
    request ∈ (s.broadcastStatesIndex u').requestList ∨
      u' = u ∧ request = ⟨requestId, packet, s.lists.next⟩ := by
  by_cases hu : u' = u
  · subst hu
    unfold addList at hmem
    rw [setStates_self] at hmem
    unfold addState at hmem
    dsimp only at hmem
    split at hmem
    · exact .inl hmem
    · rcases List.mem_append.mp hmem with h | h
      · exact .inl h
      · exact .inr ⟨rfl, List.mem_singleton.mp h⟩
  · unfold addList at hmem
    rw [setStates_of_ne _ hu] at hmem
    exact .inl hmem

theorem mem_addList_of_mem {requestId packet u : Nat} {destinations : List Nat} {u' : Nat}
    {request : RequestData} (hmem : request ∈ (s.broadcastStatesIndex u').requestList) :
    request ∈ ((s.addList requestId packet u destinations).broadcastStatesIndex u').requestList := by
  by_cases hu : u' = u
  · subst hu
    unfold addList
    rw [setStates_self]
    unfold addState
    dsimp only
    split
    · exact hmem
    · exact List.mem_append_left _ hmem
  · unfold addList
    rw [setStates_of_ne _ hu]
    exact hmem

theorem StatesOk.addList (hs : StatesOk s) {requestId u : Nat} (packet : Nat) (destinations : List Nat)
    (hnew : ∀ request ∈ (s.broadcastStatesIndex u).requestList, request.requestId ≠ requestId) :
    StatesOk (s.addList requestId packet u destinations) := by
  have hother : ∀ u', u' ≠ u →
      (s.addList requestId packet u destinations).broadcastStatesIndex u' =
        s.broadcastStatesIndex u' :=
    fun u' hu => setStates_of_ne _ hu _
  have hself : (s.addList requestId packet u destinations).broadcastStatesIndex u = _ :=
    setStates_self _ _ _
  have hsame := fun u' => (hs.own u').alloc_same destinations
  have hown := fun u' => OwnLists.congr (hsame u') (hs.own u')
  constructor
  · intro u'
    by_cases hu : u' = u
    · subst hu
      rw [hself]
      exact (hown u').addState requestId packet fun request hmem => (hs.own u').ne_next hmem
    · rw [hother u' hu]
      exact hown u'
  · intro u' u'' hne request hmem request' hmem'
    rcases mem_addList hmem with h | ⟨hu, rfl⟩ <;> rcases mem_addList hmem' with h' | ⟨hu', rfl⟩
    · exact hs.apart u' u'' hne request h request' h'
    · exact (hs.own u').ne_next h
    · exact ((hs.own u'').ne_next h').symm
    · exact absurd (hu.trans hu'.symm) hne
  · intro u'
    have hpending := hs.pending u'
    by_cases hu : u' = u
    · subst hu
      obtain ⟨hwaiting, htotal⟩ := numWaiting_addState (s.broadcastStatesIndex u')
        (s.lists.alloc destinations) requestId packet s.lists.next
      rw [hself, htotal]
      show _ = numWaiting _ (s.lists.alloc destinations) + (s.reporting.find u').toList.length
      rw [hwaiting, numWaiting_congr (hsame u')]
      omega
    · rw [hother u' hu, hpending]
      show _ = numWaiting _ (s.lists.alloc destinations) + (s.reporting.find u').toList.length
      rw [numWaiting_congr (hsame u')]
  · intro u'
    by_cases hu : u' = u
    · subst hu
      rw [hself]
      unfold addState
      dsimp only
      split
      · exact hs.ids u'
      · show (List.map _ (_ ++ [_])).Nodup
        rw [List.map_append, List.nodup_append]
        refine ⟨hs.ids u', List.nodup_singleton _, ?_⟩
        intro b hb b' hb'
        obtain ⟨request, hmem, rfl⟩ := List.mem_map.mp hb
        rw [List.mem_singleton.mp hb']
        exact hnew request hmem
    · rw [hother u' hu]
      exact hs.ids u'

theorem waiting_addList (hs : StatesOk s) (requestId packet u : Nat) (destinations : List Nat)
    (r u' : Nat) : (s.addList requestId packet u destinations).waiting r u' =
      s.waiting r u' ++ if requestId = r ∧ u = u' then destinations else [] := by
  have hsame := (hs.own u').alloc_same destinations
  show BroadcastStates.waiting _ (s.lists.alloc destinations) r =
    BroadcastStates.waiting _ s.lists r ++ _
  rw [← waiting_congr hsame]
  by_cases hu : u' = u
  · subst hu
    rw [show (s.addList requestId packet u' destinations).broadcastStatesIndex u' = _ from
      setStates_self _ _ _, waiting_addState, destinationsAt_alloc_next]
    simp
  · rw [show (s.addList requestId packet u destinations).broadcastStatesIndex u' = _ from
      setStates_of_ne _ hu _, if_neg fun h => hu h.2.symm, List.append_nil]

/-- What handing the lists over does. -/
structure Delegated (s : BroadcastDelivery) (requestId : Nat) (index : UdpTransportIndex)
    (result : Bool × List Nat × List Nat × BroadcastDelivery) : Prop where
  status : result.1 = true
  members : result.2.2.1 = index.map Prod.fst
  statesOk : StatesOk result.2.2.2
  waiting : ∀ r u, result.2.2.2.waiting r u =
    s.waiting r u ++ if requestId = r then index.destinationsOf u else []
  reporting : result.2.2.2.reporting = s.reporting
  requestIdIndex : result.2.2.2.requestIdIndex = s.requestIdIndex
  refers : ∀ u, ∀ request ∈ (s.broadcastStatesIndex u).requestList,
    request ∈ (result.2.2.2.broadcastStatesIndex u).requestList
  freed : index ≠ [] → ∃ a ∈ result.2.1, result.2.2.2.Refers a

theorem StatesOk.delegate (hs : StatesOk s) {requestId : Nat} (packet : Nat)
    {index : UdpTransportIndex} (hf : index.Formed)
    (hnew : ∀ u ∈ index.map Prod.fst, ∀ request ∈ (s.broadcastStatesIndex u).requestList,
      request.requestId ≠ requestId) :
    Delegated s requestId index (s.delegate requestId packet index) := by
  induction index generalizing s with
  | nil =>
    exact ⟨rfl, rfl, hs, fun r u => by simp [BroadcastDelivery.delegate,
      UdpTransportIndex.destinationsOf], rfl, rfl, fun _ _ h => h, fun h => absurd rfl h⟩
  | cons item rest ih =>
    obtain ⟨u, destinations⟩ := item
    have hne := hf.nonempty _ (.head _)
    obtain ⟨hu, hkeys⟩ := List.nodup_cons.mp hf.keys
    rw [delegate_cons s requestId packet u hne]
    have hadd := hs.addList packet destinations (hnew u (.head _))
    have hrest := ih hadd ⟨fun item hmem => hf.nonempty item (.tail _ hmem), hkeys⟩ (by
      intro u' hu' request hmem
      rcases mem_addList hmem with h | ⟨rfl, -⟩
      · exact hnew u' (.tail _ hu') request h
      · exact absurd hu' hu)
    have hmemnew : (⟨requestId, packet, s.lists.next⟩ : RequestData) ∈
        ((s.addList requestId packet u destinations).broadcastStatesIndex u).requestList := by
      unfold BroadcastDelivery.addList
      rw [setStates_self, addState_status requestId packet (by
        rw [destinationsAt_alloc_next]
        exact hne)]
      exact List.mem_append_right _ (List.mem_singleton.mpr rfl)
    constructor
    · exact hrest.status
    · rw [hrest.members]
      rfl
    · exact hrest.statesOk
    · intro r u'
      rw [hrest.waiting, waiting_addList hs, List.append_assoc]
      congr 1
      unfold UdpTransportIndex.destinationsOf
      by_cases hr : requestId = r <;> by_cases hu' : u = u' <;>
        simp [hr, hu']
    · rw [hrest.reporting]
      rfl
    · rw [hrest.requestIdIndex]
      rfl
    · exact fun u' request hmem => hrest.refers u' request (mem_addList_of_mem hmem)
    · exact fun _ => ⟨s.lists.next, .head _, u, _, hrest.refers u _ hmemnew, rfl⟩

/-- What taking a request out of the states of some transports does. -/
structure Removed (s : BroadcastDelivery) (requestId : Nat) (members : List Nat)
    (s' : BroadcastDelivery) : Prop where
  statesOk : StatesOk s'
  others : ∀ r u, r ≠ requestId → s'.waiting r u = s.waiting r u
  gone : ∀ u, u ∈ members ∨ s.waiting requestId u = [] → s'.waiting requestId u = []
  reporting : s'.reporting = s.reporting
  requestIdIndex : s'.requestIdIndex = s.requestIdIndex

theorem StatesOk.removeState (hs : StatesOk s) (requestId u : Nat) :
    Removed s requestId [u]
      (s.setStates u ((s.broadcastStatesIndex u).removeState s.lists requestId).2) := by
  have hmem : ∀ {u' request}, request ∈ ((s.setStates u ((s.broadcastStatesIndex u).removeState s.lists
      requestId).2).broadcastStatesIndex u').requestList →
      request ∈ (s.broadcastStatesIndex u').requestList := by
    intro u' request h
    by_cases hu : u' = u
    · subst hu
      rw [setStates_self] at h
      exact mem_of_mem_removeState h
    · rw [setStates_of_ne _ hu] at h
      exact h
  refine ⟨⟨?_, ?_, ?_, ?_⟩, ?_, ?_, rfl, rfl⟩
  · intro u'
    by_cases hu : u' = u
    · subst hu
      rw [setStates_self]
      exact (hs.own u').removeState requestId
    · rw [setStates_of_ne _ hu]
      exact hs.own u'
  · exact fun u' u'' hne request h request' h' =>
      hs.apart u' u'' hne request (hmem h) request' (hmem h')
  · intro u'
    by_cases hu : u' = u
    · subst hu
      rw [setStates_self]
      exact numWaiting_removeState requestId (hs.pending u')
    · rw [setStates_of_ne _ hu]
      exact hs.pending u'
  · intro u'
    by_cases hu : u' = u
    · subst hu
      rw [setStates_self, removeState_requestList]
      exact (hs.ids u').sublist (List.eraseP_sublist.map _)
    · rw [setStates_of_ne _ hu]
      exact hs.ids u'
  · intro r u' hne
    unfold BroadcastDelivery.waiting
    by_cases hu : u' = u
    · subst hu
      rw [setStates_self]
      exact waiting_removeState_of_ne hne
    · rw [setStates_of_ne _ hu]
      rfl
  · intro u' hor
    unfold BroadcastDelivery.waiting
    by_cases hu : u' = u
    · subst hu
      rw [setStates_self]
      exact waiting_removeState (hs.ids u') requestId
    · rw [setStates_of_ne _ hu]
      rcases hor with h | h
      · exact absurd (List.mem_singleton.mp h) hu
      · exact h

theorem StatesOk.removeStates (hs : StatesOk s) (requestId : Nat) (members : List Nat) :
    Removed s requestId members (s.removeStates requestId members) := by
  induction members generalizing s with
  | nil => exact ⟨hs, fun _ _ _ => rfl, fun u h => h.resolve_left List.not_mem_nil, rfl, rfl⟩
  | cons u rest ih =>
    have hfirst := hs.removeState requestId u
    have hrest := ih hfirst.statesOk
    constructor
    · exact hrest.statesOk
    · exact fun r u' hne => (hrest.others r u' hne).trans (hfirst.others r u' hne)
    · intro u' hor
      apply hrest.gone
      rcases hor with h | h
      · rcases List.mem_cons.mp h with rfl | h
        · exact .inr (hfirst.gone u' (.inl (List.mem_singleton.mpr rfl)))
        · exact .inl h
      · exact .inr (hfirst.gone u' (.inr h))
    · exact hrest.reporting.trans hfirst.reporting
    · exact hrest.requestIdIndex.trans hfirst.requestIdIndex

end States

/-! ## Histories -/

section Histories

variable (history events : List DeliveryEvent)

@[simp] theorem accepted_append (requestId : Nat) :
    accepted requestId (history ++ events) = accepted requestId history ++ accepted requestId events :=
  List.flatMap_append

@[simp] theorem handedOut_append (requestId : Nat) :
    handedOut requestId (history ++ events) =
      handedOut requestId history ++ handedOut requestId events :=
  List.filterMap_append

@[simp] theorem wasAccepted_append (requestId : Nat) :
    wasAccepted requestId (history ++ events) ↔
      wasAccepted requestId history ∨ wasAccepted requestId events := by
  unfold wasAccepted
  simp only [List.mem_append, exists_or]

variable {history events}

theorem accepted_eq_nil {requestId : Nat} (hnot : ¬ wasAccepted requestId history) :
    accepted requestId history = [] := by
  rw [accepted, List.flatMap_eq_nil_iff]
  intro event hmem
  cases event with
  | accepted r index =>
    dsimp only
    rw [if_neg]
    rintro rfl
    exact hnot ⟨index, hmem⟩
  | _ => rfl

end Histories

/-- Where the requests are. -/
structure Kept (history : List DeliveryEvent) (s : BroadcastDelivery) : Prop where
  statesOk : StatesOk s
  once : ∀ requestId, .cancelled requestId ∉ history → ∀ u destination,
    (accepted requestId history).count (u, destination) =
      (handedOut requestId history).count (u, destination) +
        (s.inHand requestId u).count destination + (s.waiting requestId u).count destination
  dropped : ∀ requestId, .cancelled requestId ∈ history → ∀ u,
    s.inHand requestId u = [] ∧ s.waiting requestId u = []
  indexed : ∀ requestId request, s.requestIdIndex.find requestId = some request →
    wasAccepted requestId history ∧ .cancelled requestId ∉ history ∧ .completed requestId ∉ history ∧
      request.packetsSent = (handedOut requestId history).length ∧
      request.totalPackets = (accepted requestId history).length ∧
      request.packetsSent < request.totalPackets
  members : ∀ requestId request, s.requestIdIndex.find requestId = some request → ∀ u,
    u ∉ request.memberStatesList → s.inHand requestId u = [] ∧ s.waiting requestId u = []
  done : ∀ requestId, wasAccepted requestId history → .cancelled requestId ∉ history →
    s.requestIdIndex.find requestId = none →
      history.count (.completed requestId) = 1 ∧
        (handedOut requestId history).length = (accepted requestId history).length
  ended : ∀ requestId, (.cancelled requestId ∈ history ∨ ¬ wasAccepted requestId history) →
    s.requestIdIndex.find requestId = none ∧ .completed requestId ∉ history
  cancelled : ∀ requestId, .cancelled requestId ∈ history → wasAccepted requestId history

theorem kept_new : Kept [] new where
  statesOk := by
    constructor
    · exact fun u => ⟨nofun, List.nodup_nil⟩
    · exact fun u u' _ request hmem => absurd hmem List.not_mem_nil
    · exact fun u => rfl
    · exact fun u => List.nodup_nil
  once _ _ u destination := rfl
  dropped _ hmem := absurd hmem List.not_mem_nil
  indexed _ _ hf := by cases hf
  members _ _ hf := by cases hf
  done _ hacc := by
    obtain ⟨index, hmem⟩ := hacc
    cases hmem
  ended _ _ := ⟨rfl, List.not_mem_nil⟩
  cancelled _ hmem := absurd hmem List.not_mem_nil

section Steps

variable {history : List DeliveryEvent} {s : BroadcastDelivery}

/-- More were accepted than handed out, while one is in a hand or waits. -/
theorem Kept.lt_accepted (hk : Kept history s) {requestId u : Nat}
    (hnot : .cancelled requestId ∉ history)
    (hsome : s.inHand requestId u ≠ [] ∨ s.waiting requestId u ≠ []) :
    (handedOut requestId history).length < (accepted requestId history).length := by
  have hsub : List.Subperm (handedOut requestId history) (accepted requestId history) := by
    rw [List.subperm_ext_iff]
    rintro ⟨u', destination⟩ -
    rw [hk.once requestId hnot u' destination]
    omega
  refine lt_of_le_of_ne hsub.length_le fun hlength => ?_
  have hperm := hsub.perm_of_length_le (le_of_eq hlength.symm)
  have hnone : ∀ destination, (s.inHand requestId u).count destination = 0 ∧
      (s.waiting requestId u).count destination = 0 := by
    intro destination
    have hcount := hk.once requestId hnot u destination
    rw [hperm.count_eq] at hcount
    omega
  rcases hsome with h | h
  · obtain ⟨destination, hmem⟩ := List.exists_mem_of_ne_nil _ h
    exact List.count_eq_zero.mp (hnone destination).1 hmem
  · obtain ⟨destination, hmem⟩ := List.exists_mem_of_ne_nil _ h
    exact List.count_eq_zero.mp (hnone destination).2 hmem

/-- A request with a destination in a hand or waiting is in the index. -/
theorem Kept.find_of_outstanding (hk : Kept history s) {requestId u : Nat}
    (hsome : s.inHand requestId u ≠ [] ∨ s.waiting requestId u ≠ []) :
    ∃ request, s.requestIdIndex.find requestId = some request := by
  have hnot : .cancelled requestId ∉ history := by
    intro hmem
    obtain ⟨h1, h2⟩ := hk.dropped requestId hmem u
    rcases hsome with h | h
    · exact h h1
    · exact h h2
  have hlt := hk.lt_accepted hnot hsome
  cases hf : s.requestIdIndex.find requestId with
  | some request => exact ⟨request, rfl⟩
  | none =>
    have hacc : wasAccepted requestId history := by
      by_contra hnever
      rw [accepted_eq_nil hnever] at hlt
      exact absurd hlt (Nat.not_lt_zero _)
    have hdone := (hk.done requestId hacc hnot hf).2
    omega

/-- A request that was never accepted is nowhere. -/
theorem Kept.idle (hk : Kept history s) {requestId : Nat} (hfresh : ¬ wasAccepted requestId history)
    (u : Nat) : s.inHand requestId u = [] ∧ s.waiting requestId u = [] := by
  by_contra hsome
  rw [not_and_or] at hsome
  obtain ⟨request, hrequest⟩ := hk.find_of_outstanding hsome
  rw [(hk.ended requestId (.inr hfresh)).1] at hrequest
  cases hrequest

theorem Kept.noRequest (hk : Kept history s) {requestId : Nat}
    (hfresh : ¬ wasAccepted requestId history) (u : Nat) :
    ∀ request ∈ (s.broadcastStatesIndex u).requestList, request.requestId ≠ requestId := by
  intro request hmem heq
  have hlist := (hk.idle hfresh u).2
  unfold BroadcastDelivery.waiting BroadcastStates.waiting at hlist
  rw [List.flatMap_eq_nil_iff] at hlist
  exact (hk.statesOk.own u).present request hmem
    (hlist request (List.mem_filter.mpr ⟨hmem, by simpa using heq⟩))

theorem Kept.handedOut_nil (hk : Kept history s) {requestId : Nat}
    (hfresh : ¬ wasAccepted requestId history) : handedOut requestId history = [] := by
  have hlist : ∀ p : Nat × Nat, (handedOut requestId history).count p = 0 := by
    rintro ⟨u, destination⟩
    have h := hk.once requestId (fun h => hfresh (hk.cancelled requestId h)) u destination
    rw [accepted_eq_nil hfresh, List.count_nil] at h
    omega
  exact List.eq_nil_iff_forall_not_mem.mpr fun p => List.count_eq_zero.mp (hlist p)

theorem Kept.accounted (hk : Kept history s) : Accounted history s := by
  constructor
  · exact hk.once
  · exact hk.dropped
  · exact hk.statesOk.pending
  · intro requestId request hf
    obtain ⟨-, -, -, -, htotal, hlt⟩ := hk.indexed requestId request hf
    rw [← htotal]
    exact Nat.le_of_lt hlt
  · intro requestId hnot hacc
    cases hf : s.requestIdIndex.find requestId with
    | some request =>
      obtain ⟨-, -, hcompleted, hsent, htotal, hlt⟩ := hk.indexed requestId request hf
      rw [if_neg (by omega), List.count_eq_zero]
      exact hcompleted
    | none =>
      obtain ⟨hcount, hlength⟩ := hk.done requestId hacc hnot hf
      rw [if_pos hlength, hcount]
  · exact fun requestId h => (hk.ended requestId h).2

/-- The counter and the callers do not matter. -/
theorem Kept.frame (hk : Kept history s) {s' : BroadcastDelivery}
    (hindex : s'.requestIdIndex = s.requestIdIndex)
    (hstates : s'.broadcastStatesIndex = s.broadcastStatesIndex) (hlists : s'.lists = s.lists)
    (hreporting : s'.reporting = s.reporting) : Kept history s' := by
  have hhand : s'.inHand = s.inHand := by
    funext requestId u
    unfold inHand
    rw [hreporting]
  have hwaiting : s'.waiting = s.waiting := by
    funext requestId u
    unfold BroadcastDelivery.waiting
    rw [hstates, hlists]
  refine ⟨⟨?_, ?_, ?_, ?_⟩, ?_, ?_, ?_, ?_, ?_, ?_, hk.cancelled⟩
  · rw [hstates, hlists]
    exact hk.statesOk.own
  · rw [hstates]
    exact hk.statesOk.apart
  · rw [hstates, hlists, hreporting]
    exact hk.statesOk.pending
  · rw [hstates]
    exact hk.statesOk.ids
  · rw [hhand, hwaiting]
    exact hk.once
  · rw [hhand, hwaiting]
    exact hk.dropped
  · rw [hindex]
    exact hk.indexed
  · rw [hindex, hhand, hwaiting]
    exact hk.members
  · rw [hindex]
    exact hk.done
  · rw [hindex]
    exact hk.ended

/-- An event that is about no request. -/
theorem Kept.undefined (hk : Kept history s) : Kept (history ++ [DeliveryEvent.undefined]) s := by
  have hacc : ∀ r,
      wasAccepted r (history ++ [DeliveryEvent.undefined]) ↔ wasAccepted r history := by
    intro r
    rw [wasAccepted_append, or_iff_left]
    rintro ⟨index, hmem⟩
    cases List.mem_singleton.mp hmem
  have hcancelled : ∀ r,
      DeliveryEvent.cancelled r ∈ history ++ [DeliveryEvent.undefined] ↔
        DeliveryEvent.cancelled r ∈ history := by
    intro r
    simp
  have hcompleted : ∀ r,
      DeliveryEvent.completed r ∈ history ++ [DeliveryEvent.undefined] ↔
        DeliveryEvent.completed r ∈ history := by
    intro r
    simp
  have haccepted : ∀ r, accepted r (history ++ [DeliveryEvent.undefined]) = accepted r history := by
    intro r
    simp [accepted]
  have hhanded : ∀ r, handedOut r (history ++ [DeliveryEvent.undefined]) = handedOut r history := by
    intro r
    simp [handedOut]
  have hcount : ∀ r, (history ++ [DeliveryEvent.undefined]).count (.completed r) =
      history.count (.completed r) := by
    intro r
    simp [List.count_append]
  refine ⟨hk.statesOk, ?_, ?_, ?_, ?_, ?_, ?_, ?_⟩
  · intro r
    rw [hcancelled, haccepted, hhanded]
    exact hk.once r
  · intro r
    rw [hcancelled]
    exact hk.dropped r
  · intro r
    rw [hcancelled, haccepted, hhanded, hacc, hcompleted]
    exact hk.indexed r
  · exact hk.members
  · intro r
    rw [hcancelled, haccepted, hhanded, hacc, hcount]
    exact hk.done r
  · intro r
    rw [hcancelled, hacc, hcompleted]
    exact hk.ended r
  · intro r
    rw [hcancelled, hacc]
    exact hk.cancelled r

theorem Kept.register (hk : Kept history s) {requestId : Nat} {call : SendCall}
    {index : UdpTransportIndex} (hf : index.Formed) (hfresh : ¬ wasAccepted requestId history)
    (hsize : call.destinations.size = index.pairs.length) :
    Kept (history ++ (s.register requestId call index).2) (s.register requestId call index).1 := by
  have hnone := (hk.ended requestId (.inr hfresh)).1
  have hidle := hk.idle hfresh
  have hd := hk.statesOk.delegate call.packet hf fun u _ => hk.noRequest hfresh u
  unfold BroadcastDelivery.register
  generalize s.delegate requestId call.packet index = result at hd
  obtain ⟨status, addresses, members, s'⟩ := result
  obtain ⟨hstatus, hmembers, hstates, hwaiting, hreporting, hindex, -, -⟩ := hd
  dsimp only at hstatus hmembers hstates hwaiting hreporting hindex ⊢
  rw [hstatus, if_neg nofun]
  dsimp only
  have hnew' : s'.requestIdIndex.emplace requestId
      ⟨⟨requestId, call.requestor, call.destinations.size, 0⟩, members⟩ =
        s'.requestIdIndex.assign requestId
          ⟨⟨requestId, call.requestor, call.destinations.size, 0⟩, members⟩ := by
    simp [UMap.emplace, hindex, hnone]
  rw [hnew']
  have hhand : ∀ r u, BroadcastDelivery.inHand { s' with
      freed := addresses ++ s'.freed
      requestIdIndex := s'.requestIdIndex.assign requestId
        ⟨⟨requestId, call.requestor, call.destinations.size, 0⟩, members⟩ } r u = s.inHand r u := by
    intro r u
    unfold inHand
    dsimp only
    rw [hreporting]
  have hacc : ∀ r, wasAccepted r (history ++ [DeliveryEvent.accepted requestId index]) ↔
      wasAccepted r history ∨ r = requestId := by
    intro r
    rw [wasAccepted_append]
    simp [wasAccepted, eq_comm]
  have haccepted : ∀ r, accepted r (history ++ [DeliveryEvent.accepted requestId index]) =
      accepted r history ++ if requestId = r then index.pairs else [] := by
    intro r
    simp [accepted]
  have hhanded : ∀ r,
      handedOut r (history ++ [DeliveryEvent.accepted requestId index]) = handedOut r history := by
    intro r
    simp [handedOut]
  have hcancelled : ∀ r,
      DeliveryEvent.cancelled r ∈ history ++ [DeliveryEvent.accepted requestId index] ↔
        DeliveryEvent.cancelled r ∈ history := by
    intro r
    simp
  have hcompleted : ∀ r,
      DeliveryEvent.completed r ∈ history ++ [DeliveryEvent.accepted requestId index] ↔
        DeliveryEvent.completed r ∈ history := by
    intro r
    simp
  have hcount : ∀ r, (history ++ [DeliveryEvent.accepted requestId index]).count (.completed r) =
      history.count (.completed r) := by
    intro r
    simp [List.count_append]
  have huncancelled : .cancelled requestId ∉ history := fun h => hfresh (hk.cancelled requestId h)
  have hhandednil := hk.handedOut_nil hfresh
  refine ⟨⟨hstates.own, hstates.apart, hstates.pending, hstates.ids⟩, ?_, ?_, ?_, ?_, ?_, ?_, ?_⟩
  · intro r hnot u destination
    rw [hcancelled] at hnot
    have hw := hwaiting r u
    rw [haccepted, hhanded, hhand, List.count_append, hk.once r hnot u destination]
    show _ = _ + (s'.waiting r u).count destination
    rw [hw, List.count_append]
    by_cases hr : requestId = r
    · rw [if_pos hr, if_pos hr, UdpTransportIndex.count_pairs]
      omega
    · rw [if_neg hr, if_neg hr, List.count_nil, List.count_nil]
      omega
  · intro r hmem u
    rw [hcancelled] at hmem
    have hne : requestId ≠ r := by
      rintro rfl
      exact huncancelled hmem
    rw [hhand]
    refine ⟨(hk.dropped r hmem u).1, ?_⟩
    show s'.waiting r u = []
    rw [hwaiting, if_neg hne, (hk.dropped r hmem u).2]
    rfl
  · intro r request hrequest
    simp only [UMap.find_assign] at hrequest
    rw [hacc, hcancelled, hcompleted, hhanded, haccepted]
    split at hrequest
    · next heq =>
      cases hrequest
      subst heq
      rw [if_pos rfl, hhandednil, accepted_eq_nil hfresh]
      exact ⟨.inr rfl, huncancelled, (hk.ended r (.inr hfresh)).2, rfl,
        by simpa using hsize, call.nonempty⟩
    · next hne =>
      rw [hindex] at hrequest
      obtain ⟨h1, h2, h3, h4, h5, h6⟩ := hk.indexed r request hrequest
      rw [if_neg (Ne.symm hne), List.append_nil]
      exact ⟨.inl h1, h2, h3, h4, h5, h6⟩
  · intro r request hrequest u hu
    simp only [UMap.find_assign] at hrequest
    rw [hhand]
    show s.inHand r u = [] ∧ s'.waiting r u = []
    rw [hwaiting]
    split at hrequest
    · next heq =>
      cases hrequest
      subst heq
      rw [hmembers] at hu
      have hnil : index.destinationsOf u = [] := by
        unfold UdpTransportIndex.destinationsOf
        rw [List.filter_eq_nil_iff.mpr, List.flatMap_nil]
        intro item hmem
        simp only [beq_iff_eq]
        rintro rfl
        exact hu (List.mem_map_of_mem hmem)
      rw [if_pos rfl, hnil, (hidle u).2]
      exact ⟨(hidle u).1, rfl⟩
    · next hne =>
      rw [hindex] at hrequest
      obtain ⟨h1, h2⟩ := hk.members r request hrequest u hu
      rw [if_neg (Ne.symm hne), h2]
      exact ⟨h1, rfl⟩
  · intro r hr hnot hrequest
    rw [hcancelled] at hnot
    simp only [UMap.find_assign] at hrequest
    split at hrequest
    · cases hrequest
    · next hne =>
      rw [hindex] at hrequest
      rw [hacc] at hr
      rw [hcount, hhanded, haccepted, if_neg (Ne.symm hne), List.append_nil]
      exact hk.done r (hr.resolve_right hne) hnot hrequest
  · intro r hor
    rw [hcancelled, hacc] at hor
    rw [hcompleted]
    have hne : r ≠ requestId := by
      rintro rfl
      rcases hor with h | h
      · exact huncancelled h
      · exact h (.inr rfl)
    have hold := hk.ended r (hor.imp id fun h hr => h (.inl hr))
    refine ⟨?_, hold.2⟩
    simp only [UMap.find_assign]
    rw [if_neg hne, hindex]
    exact hold.1
  · intro r hmem
    rw [hcancelled] at hmem
    rw [hacc]
    exact .inl (hk.cancelled r hmem)

theorem not_busy {members : List Nat} (hbusy : ¬ s.busy members = true) {u : Nat} (hmem : u ∈ members)
    (requestId : Nat) : s.inHand requestId u = [] := by
  unfold busy at hbusy
  rw [List.any_eq_true] at hbusy
  unfold inHand
  cases hr : s.reporting.find u with
  | none => rfl
  | some held => exact absurd ⟨u, hmem, by rw [hr]; rfl⟩ hbusy

theorem Kept.cancel (hk : Kept history s) (requestId : Nat) :
    Kept (history ++ (s.cancel requestId).2) (s.cancel requestId).1 := by
  unfold BroadcastDelivery.cancel
  cases hf : s.requestIdIndex.find requestId with
  | none => simpa using hk
  | some request =>
    dsimp only
    split
    · simpa using hk
    · next hbusy =>
      have hremoved := hk.statesOk.removeStates requestId request.memberStatesList
      generalize s.removeStates requestId request.memberStatesList = s' at hremoved
      obtain ⟨hstates, hothers, hgone, hreporting, hindex⟩ := hremoved
      obtain ⟨hacc, -, hcompleted, -⟩ := hk.indexed requestId request hf
      have hhand : ∀ r u, BroadcastDelivery.inHand
          { s' with requestIdIndex := s'.requestIdIndex.erase requestId } r u = s.inHand r u := by
        intro r u
        unfold inHand
        dsimp only
        rw [hreporting]
      have hwas : ∀ r,
          wasAccepted r (history ++ [DeliveryEvent.cancelled requestId]) ↔
            wasAccepted r history := by
        intro r
        rw [wasAccepted_append]
        simp [wasAccepted]
      have haccepted : ∀ r,
          accepted r (history ++ [DeliveryEvent.cancelled requestId]) = accepted r history := by
        intro r
        simp [accepted]
      have hhanded : ∀ r,
          handedOut r (history ++ [DeliveryEvent.cancelled requestId]) = handedOut r history := by
        intro r
        simp [handedOut]
      have hcancelled : ∀ r,
          DeliveryEvent.cancelled r ∈ history ++ [DeliveryEvent.cancelled requestId] ↔
            DeliveryEvent.cancelled r ∈ history ∨ r = requestId := by
        intro r
        simp
      have hcomp : ∀ r,
          DeliveryEvent.completed r ∈ history ++ [DeliveryEvent.cancelled requestId] ↔
            DeliveryEvent.completed r ∈ history := by
        intro r
        simp
      have hcount : ∀ r, (history ++ [DeliveryEvent.cancelled requestId]).count (.completed r) =
          history.count (.completed r) := by
        intro r
        simp [List.count_append]
      have hfind : ∀ r, (s'.requestIdIndex.erase requestId).find r =
          if r = requestId then none else s.requestIdIndex.find r := by
        intro r
        rw [UMap.find_erase, hindex]
      refine ⟨⟨hstates.own, hstates.apart, hstates.pending, hstates.ids⟩, ?_, ?_, ?_, ?_, ?_, ?_, ?_⟩
      · intro r hnot u destination
        rw [hcancelled, not_or] at hnot
        rw [haccepted, hhanded, hhand]
        show _ = _ + (s'.waiting r u).count destination
        rw [hothers r u hnot.2]
        exact hk.once r hnot.1 u destination
      · intro r hmem u
        rw [hhand]
        show s.inHand r u = [] ∧ s'.waiting r u = []
        by_cases hr : r = requestId
        · subst hr
          by_cases hu : u ∈ request.memberStatesList
          · exact ⟨not_busy hbusy hu r, hgone u (.inl hu)⟩
          · obtain ⟨h1, h2⟩ := hk.members r request hf u hu
            exact ⟨h1, hgone u (.inr h2)⟩
        · rw [hcancelled] at hmem
          rw [hothers r u hr]
          exact hk.dropped r (hmem.resolve_right hr) u
      · intro r request' hrequest
        rw [hfind] at hrequest
        split at hrequest
        · cases hrequest
        · next hne =>
          rw [hwas, hcancelled, hcomp, haccepted, hhanded]
          obtain ⟨h1, h2, h3⟩ := hk.indexed r request' hrequest
          exact ⟨h1, not_or.mpr ⟨h2, hne⟩, h3⟩
      · intro r request' hrequest u hu
        rw [hfind] at hrequest
        split at hrequest
        · cases hrequest
        · next hne =>
          rw [hhand]
          show s.inHand r u = [] ∧ s'.waiting r u = []
          rw [hothers r u hne]
          exact hk.members r request' hrequest u hu
      · intro r hr hnot hrequest
        rw [hcancelled, not_or] at hnot
        rw [hfind, if_neg hnot.2] at hrequest
        rw [hwas] at hr
        rw [hcount, haccepted, hhanded]
        exact hk.done r hr hnot.1 hrequest
      · intro r hor
        rw [hcancelled, hwas] at hor
        rw [hcomp, hfind]
        by_cases hr : r = requestId
        · rw [if_pos hr, hr]
          exact ⟨rfl, hcompleted⟩
        · rw [if_neg hr]
          rcases hor with (h | h) | h
          · exact hk.ended r (.inl h)
          · exact absurd h hr
          · exact hk.ended r (.inr h)
      · intro r hmem
        rw [hcancelled] at hmem
        rw [hwas]
        rcases hmem with h | rfl
        · exact hk.cancelled r h
        · exact hacc

theorem Kept.getCurrentRequest (hk : Kept history s) (u : Nat) :
    Kept (history ++ (s.getCurrentRequest u).2) (s.getCurrentRequest u).1 := by
  unfold BroadcastDelivery.getCurrentRequest
  split
  · simpa using hk
  · next hfree =>
    cases hpop : (s.broadcastStatesIndex u).popCurrent s.lists with
    | none => simpa using hk
    | some current =>
      have hown := hk.statesOk.own u
      obtain ⟨destination, hdestination, hperm⟩ := hown.waiting_popCurrent hpop
      obtain ⟨hnum, htotal⟩ := hown.numWaiting_popCurrent hpop
      have hnone : s.reporting.find u = none := Option.not_isSome_iff_eq_none.mp hfree
      dsimp only
      rw [hdestination]
      dsimp only
      rw [List.append_nil]
      set s' := ({ s with
        lists := current.lists
        reporting := s.reporting.assign u (current.request.requestId, destination) } :
          BroadcastDelivery).setStates u current.states with hs'
      have hother : ∀ u', u' ≠ u → s'.broadcastStatesIndex u' = s.broadcastStatesIndex u' :=
        fun u' hu => setStates_of_ne _ hu _
      have hself : s'.broadcastStatesIndex u = current.states := setStates_self _ _ _
      have hreporting : ∀ u', s'.reporting.find u' =
          if u' = u then some (current.request.requestId, destination) else s.reporting.find u' :=
        fun u' => UMap.find_assign _ _ _ _
      have hrequest : current.request ∈ (s.broadcastStatesIndex u).requestList := by
        obtain ⟨_, _, _, hlist, -⟩ := hown.popCurrent_eq hpop
        rw [hlist]
        exact .head _
      have hsame : ∀ u', u' ≠ u → ∀ request ∈ (s.broadcastStatesIndex u').requestList,
          destinationsAt current.lists request.remainingDestinations =
            destinationsAt s.lists request.remainingDestinations := by
        intro u' hu request hmem
        obtain ⟨_, destinations, _, -, -, -, hlists, -⟩ := hown.popCurrent_eq hpop
        rw [hlists]
        exact destinationsAt_write_of_ne _
          (hk.statesOk.apart u' u hu request hmem current.request hrequest)
      have hwaiting : ∀ r u', u' ≠ u → s'.waiting r u' = s.waiting r u' := by
        intro r u' hu
        unfold BroadcastDelivery.waiting
        rw [hother u' hu]
        exact waiting_congr (hsame u' hu) r
      have hperm' : ∀ r, (s.waiting r u).Perm
          ((if current.request.requestId = r then [destination] else []) ++ s'.waiting r u) := by
        intro r
        unfold BroadcastDelivery.waiting
        rw [hself]
        exact hperm r
      have hhandself : ∀ r, s'.inHand r u =
          if current.request.requestId = r then [destination] else [] := by
        intro r
        unfold inHand
        rw [hreporting, if_pos rfl]
      have hhandother : ∀ r u', u' ≠ u → s'.inHand r u' = s.inHand r u' := by
        intro r u' hu
        unfold inHand
        rw [hreporting, if_neg hu]
      have hhandbefore : ∀ r, s.inHand r u = [] := by
        intro r
        unfold inHand
        rw [hnone]
      have hmem : ∀ {u' request}, request ∈ (s'.broadcastStatesIndex u').requestList →
          request ∈ (s.broadcastStatesIndex u').requestList := by
        intro u' request h
        by_cases hu : u' = u
        · subst hu
          rw [hself] at h
          exact mem_of_mem_popCurrent hpop h
        · rw [hother u' hu] at h
          exact h
      have hnil : ∀ r, s.waiting r u = [] → s'.inHand r u = [] ∧ s'.waiting r u = [] := by
        intro r h
        have hp := hperm' r
        rw [h, List.nil_perm, List.append_eq_nil_iff] at hp
        rw [hhandself]
        exact hp
      refine ⟨⟨?_, ?_, ?_, ?_⟩, ?_, ?_, hk.indexed, ?_, hk.done, hk.ended, hk.cancelled⟩
      · intro u'
        by_cases hu : u' = u
        · subst hu
          rw [hself]
          exact hown.popCurrent hpop
        · rw [hother u' hu]
          exact OwnLists.congr (hsame u' hu) (hk.statesOk.own u')
      · exact fun u' u'' hne request h request' h' =>
          hk.statesOk.apart u' u'' hne request (hmem h) request' (hmem h')
      · intro u'
        have hpending := hk.statesOk.pending u'
        by_cases hu : u' = u
        · subst hu
          rw [hself, hreporting, if_pos rfl, htotal, hpending, hnone]
          show _ = numWaiting _ current.lists + 1
          rw [hnum]
          rfl
        · rw [hother u' hu, hreporting, if_neg hu, hpending]
          show _ = numWaiting _ current.lists + _
          rw [numWaiting_congr (hsame u' hu)]
      · intro u'
        by_cases hu : u' = u
        · subst hu
          obtain ⟨_, destinations, rest, hlist, -, -, -, hstates⟩ := hown.popCurrent_eq hpop
          have hids := hk.statesOk.ids u'
          rw [hlist, List.map_cons] at hids
          rw [hself, hstates]
          dsimp only
          split
          · exact (List.nodup_cons.mp hids).2
          · rw [List.map_append]
            exact (List.perm_append_comm.nodup_iff).mp hids
        · rw [hother u' hu]
          exact hk.statesOk.ids u'
      · intro r hnot u' d
        rw [hk.once r hnot u' d]
        by_cases hu : u' = u
        · subst hu
          rw [hhandbefore, hhandself, (hperm' r).count_eq, List.count_append, List.count_nil]
          omega
        · rw [hwaiting r u' hu, hhandother r u' hu]
      · intro r hcancelled u'
        obtain ⟨h1, h2⟩ := hk.dropped r hcancelled u'
        by_cases hu : u' = u
        · subst hu
          exact hnil r h2
        · rw [hwaiting r u' hu, hhandother r u' hu]
          exact ⟨h1, h2⟩
      · intro r request hf u' hu'
        obtain ⟨h1, h2⟩ := hk.members r request hf u' hu'
        by_cases hu : u' = u
        · subst hu
          exact hnil r h2
        · rw [hwaiting r u' hu, hhandother r u' hu]
          exact ⟨h1, h2⟩

/-- The manager notes that a packet of a request was sent. -/
theorem packetSent_cases {requestId : Nat} {request : DelegatedRequest}
    (hf : s.requestIdIndex.find requestId = some request) :
    request.packetsSent + 1 = request.totalPackets ∧ s.packetSent requestId =
      ({ s with requestIdIndex := s.requestIdIndex.erase requestId }, [.completed requestId]) ∨
    request.packetsSent + 1 ≠ request.totalPackets ∧ ∃ request' : DelegatedRequest,
      request'.packetsSent = request.packetsSent + 1 ∧ request'.totalPackets = request.totalPackets ∧
      request'.memberStatesList = request.memberStatesList ∧ s.packetSent requestId =
        ({ s with requestIdIndex := s.requestIdIndex.assign requestId request' }, []) := by
  unfold packetSent
  rw [hf]
  dsimp only
  by_cases hlast : request.packetsSent + 1 = request.totalPackets
  · rw [if_pos hlast]
    exact .inl ⟨hlast, rfl⟩
  · rw [if_neg hlast]
    right
    exact ⟨hlast,
      ⟨⟨request.requestId, request.requestor, request.totalPackets, request.packetsSent + 1⟩,
      request.memberStatesList⟩, rfl, rfl, rfl, rfl⟩

/-- The hand of a transport is empty after its report, and the others are as they were. -/
theorem Kept.report (hk : Kept history s) {u requestId destination : Nat}
    (hr : s.reporting.find u = some (requestId, destination)) :
    Kept (history ++ (s.report u requestId destination).2) (s.report u requestId destination).1 := by
  have hhandself : ∀ r, s.inHand r u = if requestId = r then [destination] else [] := by
    intro r
    unfold inHand
    rw [hr]
  have hsome : s.inHand requestId u ≠ [] := by
    rw [hhandself, if_pos rfl]
    exact List.cons_ne_nil _ _
  obtain ⟨request, hf⟩ := hk.find_of_outstanding (.inl hsome)
  obtain ⟨hacc, hnotcancelled, hnotcompleted, hsent, htotal, hlt⟩ := hk.indexed requestId request hf
  -- the states and the hands after the report
  have hstep : ∃ index events, s.report u requestId destination =
      (({ s with requestIdIndex := index, reporting := s.reporting.erase u } :
        BroadcastDelivery).setStates u (s.broadcastStatesIndex u).countDown,
        .handedOut requestId u destination :: events) ∧
      (request.packetsSent + 1 = request.totalPackets ∧ events = [.completed requestId] ∧
        index = s.requestIdIndex.erase requestId ∨
      request.packetsSent + 1 ≠ request.totalPackets ∧ events = [] ∧
        ∃ request' : DelegatedRequest, request'.packetsSent = request.packetsSent + 1 ∧
          request'.totalPackets = request.totalPackets ∧
          request'.memberStatesList = request.memberStatesList ∧
          index = s.requestIdIndex.assign requestId request') := by
    unfold BroadcastDelivery.report
    rcases packetSent_cases hf with ⟨hlast, heq⟩ | ⟨hmore, request', h1, h2, h3, heq⟩
    · rw [heq]
      exact ⟨_, _, rfl, .inl ⟨hlast, rfl, rfl⟩⟩
    · rw [heq]
      exact ⟨_, _, rfl, .inr ⟨hmore, rfl, request', h1, h2, h3, rfl⟩⟩
  obtain ⟨index, events, heq, hcases⟩ := hstep
  rw [heq]
  dsimp only
  set s' := ({ s with requestIdIndex := index, reporting := s.reporting.erase u } :
    BroadcastDelivery).setStates u (s.broadcastStatesIndex u).countDown with hs'
  have hother : ∀ u', u' ≠ u → s'.broadcastStatesIndex u' = s.broadcastStatesIndex u' :=
    fun u' hu => setStates_of_ne _ hu _
  have hself : s'.broadcastStatesIndex u = (s.broadcastStatesIndex u).countDown := setStates_self _ _ _
  have hlist : ∀ u', (s'.broadcastStatesIndex u').requestList =
      (s.broadcastStatesIndex u').requestList := by
    intro u'
    by_cases hu : u' = u
    · rw [hu, hself]
      rfl
    · rw [hother u' hu]
  have hreporting : ∀ u', s'.reporting.find u' = if u' = u then none else s.reporting.find u' :=
    fun u' => UMap.find_erase _ _ _
  have hwaiting : ∀ r u', s'.waiting r u' = s.waiting r u' := by
    intro r u'
    unfold BroadcastDelivery.waiting BroadcastStates.waiting
    rw [hlist]
    rfl
  have hhand : ∀ r u', s'.inHand r u' = if u' = u then [] else s.inHand r u' := by
    intro r u'
    unfold inHand
    rw [hreporting]
    by_cases hu : u' = u
    · rw [if_pos hu, if_pos hu]
    · rw [if_neg hu, if_neg hu]
  have hevents : ∀ r, (∀ i, .accepted r i ∉ events) ∧ .cancelled r ∉ events ∧
      accepted r events = [] ∧ handedOut r events = [] := by
    intro r
    rcases hcases with ⟨-, rfl, -⟩ | ⟨-, rfl, -⟩ <;> simp [accepted, handedOut]
  have hwas : ∀ r, wasAccepted r (history ++ .handedOut requestId u destination :: events) ↔
      wasAccepted r history := by
    intro r
    rw [wasAccepted_append, or_iff_left]
    rintro ⟨i, hmem⟩
    rcases List.mem_cons.mp hmem with h | h
    · cases h
    · exact (hevents r).1 i h
  have hcancelled : ∀ r, .cancelled r ∈ history ++ .handedOut requestId u destination :: events ↔
      .cancelled r ∈ history := by
    intro r
    rw [List.mem_append, or_iff_left]
    intro hmem
    rcases List.mem_cons.mp hmem with h | h
    · cases h
    · exact (hevents r).2.1 h
  have haccepted : ∀ r, accepted r (history ++ .handedOut requestId u destination :: events) =
      accepted r history := by
    intro r
    have hcons : accepted r (.handedOut requestId u destination :: events) = accepted r events := rfl
    rw [accepted_append, hcons, (hevents r).2.2.1, List.append_nil]
  have hhanded : ∀ r, handedOut r (history ++ .handedOut requestId u destination :: events) =
      handedOut r history ++ if requestId = r then [(u, destination)] else [] := by
    intro r
    have hnil := (hevents r).2.2.2
    rw [handedOut_append]
    congr 1
    unfold handedOut at hnil ⊢
    rw [List.filterMap_cons, hnil]
    by_cases hq : requestId = r
    · simp [hq]
    · simp [hq]
  have hcount : ∀ r, (history ++ .handedOut requestId u destination :: events).count (.completed r) =
      history.count (.completed r) + events.count (.completed r) := by
    intro r
    rw [List.count_append, List.count_cons_of_ne (by simp)]
  have hnotin : ∀ r, .completed r ∉ history ++ .handedOut requestId u destination :: events ↔
      .completed r ∉ history ∧ .completed r ∉ events := by
    intro r
    simp
  have hcompletedEvents : ∀ r, r ≠ requestId → .completed r ∉ events := by
    intro r hne
    rcases hcases with ⟨-, rfl, -⟩ | ⟨-, rfl, -⟩
    · simpa using hne
    · exact List.not_mem_nil
  have hfindOther : ∀ r, r ≠ requestId → s'.requestIdIndex.find r = s.requestIdIndex.find r := by
    intro r hne
    show index.find r = _
    rcases hcases with ⟨-, -, rfl⟩ | ⟨-, -, request', -, -, -, rfl⟩
    · rw [UMap.find_erase, if_neg hne]
    · rw [UMap.find_assign, if_neg hne]
  refine ⟨⟨?_, ?_, ?_, ?_⟩, ?_, ?_, ?_, ?_, ?_, ?_, ?_⟩
  · intro u'
    by_cases hu : u' = u
    · subst hu
      rw [hself]
      exact (hk.statesOk.own u').countDown
    · rw [hother u' hu]
      exact hk.statesOk.own u'
  · intro u' u'' hne request h request' h'
    rw [hlist] at h h'
    exact hk.statesOk.apart u' u'' hne request h request' h'
  · intro u'
    have hpending := hk.statesOk.pending u'
    by_cases hu : u' = u
    · subst hu
      rw [hr] at hpending
      rw [hself, hreporting, if_pos rfl]
      show (s.broadcastStatesIndex u').totalRequests - 1 =
        (s.broadcastStatesIndex u').numWaiting s.lists + 0
      simp only [Option.toList_some, List.length_cons, List.length_nil] at hpending
      omega
    · rw [hother u' hu, hreporting, if_neg hu]
      exact hpending
  · intro u'
    rw [hlist]
    exact hk.statesOk.ids u'
  · intro r hnot u' d
    rw [hcancelled] at hnot
    rw [haccepted, hhanded, hwaiting, hhand, List.count_append, hk.once r hnot u' d]
    by_cases hu : u' = u
    · subst hu
      rw [if_pos rfl, hhandself]
      by_cases hq : requestId = r
      · rw [if_pos hq, if_pos hq, List.count_nil, List.count_cons, List.count_cons]
        by_cases hd : destination = d
        · simp [hd]
        · simp [hd]
      · rw [if_neg hq, if_neg hq]
        simp
    · rw [if_neg hu]
      have hzero : (if requestId = r then [(u, destination)] else []).count (u', d) = 0 := by
        rw [List.count_eq_zero]
        split
        · simp [hu]
        · exact List.not_mem_nil
      rw [hzero]
      omega
  · intro r hmem u'
    rw [hcancelled] at hmem
    obtain ⟨h1, h2⟩ := hk.dropped r hmem u'
    rw [hwaiting, hhand, h1, ite_self]
    exact ⟨rfl, h2⟩
  · intro r request'' hrequest
    rw [hwas, hcancelled, hnotin, haccepted, hhanded]
    by_cases hne : r = requestId
    · subst hne
      rcases hcases with ⟨-, -, rfl⟩ | ⟨hmore, rfl, request', h1, h2, -, rfl⟩
      · rw [show s'.requestIdIndex.find r = none by
          show UMap.find (s.requestIdIndex.erase r) r = none
          rw [UMap.find_erase, if_pos rfl]] at hrequest
        cases hrequest
      · rw [show s'.requestIdIndex.find r = some request' by
          show UMap.find (s.requestIdIndex.assign r request') r = some request'
          rw [UMap.find_assign, if_pos rfl]] at hrequest
        cases hrequest
        rw [if_pos rfl, List.length_append, h1, h2, hsent, ← htotal]
        exact ⟨hacc, hnotcancelled, ⟨hnotcompleted, List.not_mem_nil⟩, rfl, rfl, by omega⟩
    · rw [hfindOther r hne] at hrequest
      obtain ⟨h1, h2, h3, h4⟩ := hk.indexed r request'' hrequest
      rw [if_neg (Ne.symm hne), List.append_nil]
      exact ⟨h1, h2, ⟨h3, hcompletedEvents r hne⟩, h4⟩
  · intro r request'' hrequest u' hu'
    have hmembers : s.inHand r u' = [] ∧ s.waiting r u' = [] := by
      by_cases hne : r = requestId
      · subst hne
        rcases hcases with ⟨-, -, rfl⟩ | ⟨-, -, request', -, -, h3, rfl⟩
        · rw [show s'.requestIdIndex.find r = none by
            show UMap.find (s.requestIdIndex.erase r) r = none
            rw [UMap.find_erase, if_pos rfl]] at hrequest
          cases hrequest
        · rw [show s'.requestIdIndex.find r = some request' by
            show UMap.find (s.requestIdIndex.assign r request') r = some request'
            rw [UMap.find_assign, if_pos rfl]] at hrequest
          cases hrequest
          rw [h3] at hu'
          exact hk.members r request hf u' hu'
      · rw [hfindOther r hne] at hrequest
        exact hk.members r request'' hrequest u' hu'
    rw [hwaiting, hhand, hmembers.1, ite_self]
    exact ⟨rfl, hmembers.2⟩
  · intro r hrwas hnot hnone
    rw [hwas] at hrwas
    rw [hcancelled] at hnot
    rw [hcount, haccepted, hhanded]
    by_cases hne : r = requestId
    · subst hne
      rcases hcases with ⟨hlast, rfl, rfl⟩ | ⟨-, -, request', -, -, -, rfl⟩
      · rw [if_pos rfl, List.length_append, List.count_eq_zero.mpr hnotcompleted, ← htotal, ← hsent]
        exact ⟨by simp, hlast⟩
      · rw [show s'.requestIdIndex.find r = some request' by
          show UMap.find (s.requestIdIndex.assign r request') r = some request'
          rw [UMap.find_assign, if_pos rfl]] at hnone
        cases hnone
    · rw [hfindOther r hne] at hnone
      obtain ⟨h1, h2⟩ := hk.done r hrwas hnot hnone
      rw [if_neg (Ne.symm hne), List.append_nil, List.count_eq_zero.mpr (hcompletedEvents r hne), h1]
      exact ⟨rfl, h2⟩
  · intro r hor
    rw [hcancelled, hwas] at hor
    have hne : r ≠ requestId := by
      rintro rfl
      rcases hor with h | h
      · exact hnotcancelled h
      · exact h hacc
    obtain ⟨h1, h2⟩ := hk.ended r hor
    rw [hfindOther r hne, hnotin]
    exact ⟨h1, h2, hcompletedEvents r hne⟩
  · intro r hmem
    rw [hcancelled] at hmem
    rw [hwas]
    exact hk.cancelled r hmem

/-- Memory that nobody refers to does not matter. -/
theorem Kept.overwrite (hk : Kept history s) {a : Nat} (destinations : List Nat)
    (hnot : ¬ s.Refers a) :
    Kept history { s with lists := s.lists.write a destinations } := by
  have hsame : ∀ u, ∀ request ∈ (s.broadcastStatesIndex u).requestList,
      destinationsAt (s.lists.write a destinations) request.remainingDestinations =
        destinationsAt s.lists request.remainingDestinations := by
    intro u request hmem
    exact destinationsAt_write_of_ne _ fun heq => hnot ⟨u, request, hmem, heq⟩
  have hwaiting : ∀ r u,
      BroadcastDelivery.waiting { s with lists := s.lists.write a destinations } r u =
      s.waiting r u :=
    fun r u => waiting_congr (hsame u) r
  refine ⟨⟨?_, hk.statesOk.apart, ?_, hk.statesOk.ids⟩, ?_, ?_, hk.indexed, ?_, hk.done, hk.ended,
    hk.cancelled⟩
  · exact fun u => OwnLists.congr (hsame u) (hk.statesOk.own u)
  · intro u
    rw [hk.statesOk.pending u]
    show _ = numWaiting _ (s.lists.write a destinations) + _
    rw [numWaiting_congr (hsame u)]
  · intro r hr u d
    rw [hwaiting]
    exact hk.once r hr u d
  · intro r hr u
    rw [hwaiting]
    exact hk.dropped r hr u
  · intro r request hf u hu
    rw [hwaiting]
    exact hk.members r request hf u hu

theorem Kept.proceedSend (hk : Kept history s) {caller : Nat} {position : SendPosition}
    {getParent : Nat → Option Nat} (hf : s.callers.find caller = some position)
    (hok : StepIntact history s (.proceed caller getParent)) :
    Kept (history ++ (s.proceedSend caller getParent position).2)
      (s.proceedSend caller getParent position).1 := by
  cases position with
  | counting requestId call =>
    show Kept (history ++ []) _
    rw [List.append_nil]
    exact hk.frame rfl rfl rfl rfl
  | delegating requestId call =>
    obtain ⟨hfresh, hsize⟩ := hok requestId call hf
    unfold BroadcastDelivery.proceedSend
    dsimp only
    split
    · exact Kept.undefined (hk.frame rfl rfl rfl rfl)
    · rw [List.append_nil]
      exact hk.frame rfl rfl rfl rfl
    · next index hpopulate =>
      split
      · simpa using hk
      · obtain ⟨hformed, hlength⟩ := UdpTransportIndex.formed_nil.populate hpopulate
        have hleave : Kept history (s.leave caller) := hk.frame rfl rfl rfl rfl
        apply hleave.register hformed hfresh
        rw [hsize, hlength]
        exact (Nat.zero_add _).symm

theorem Kept.step (hk : Kept history s) {input : Input} (hok : StepIntact history s input) :
    Kept (history ++ (s.step input).2) (s.step input).1 := by
  cases input with
  | sendPacket caller requestor packet destinations =>
    unfold BroadcastDelivery.step
    dsimp only
    split
    · simpa using hk
    · split
      · simpa using hk
      · rw [List.append_nil]
        exact hk.frame rfl rfl rfl rfl
  | proceed caller getParent =>
    unfold BroadcastDelivery.step
    dsimp only
    cases hf : s.callers.find caller with
    | none => simpa using hk
    | some position => exact hk.proceedSend hf hok
  | cancel requestId => exact hk.cancel requestId
  | getCurrentRequest u => exact hk.getCurrentRequest u
  | packetSent u =>
    unfold BroadcastDelivery.step
    dsimp only
    cases hr : s.reporting.find u with
    | none => simpa using hk
    | some held => exact hk.report hr
  | overwrite a destinations =>
    unfold BroadcastDelivery.step
    dsimp only
    split
    · rw [List.append_nil]
      exact hk.overwrite destinations hok
    · simpa using hk

/-! ## Runs -/

/-- No request was ever accepted. -/
structure Blank (history : List DeliveryEvent) (s : BroadcastDelivery) : Prop where
  kept : Kept history s
  fresh : ∀ requestId, ¬ wasAccepted requestId history
  freed : s.freed = []

theorem blank_new : Blank [] new where
  kept := kept_new
  fresh _ h := by
    obtain ⟨index, hmem⟩ := h
    cases hmem
  freed := rfl

/-- Nothing is taken out where nothing was accepted. -/
theorem Blank.reporting (hb : Blank history s) (u : Nat) : s.reporting.find u = none := by
  cases hr : s.reporting.find u with
  | none => rfl
  | some held =>
    have hhand := (hb.kept.idle (hb.fresh held.1) u).1
    unfold inHand at hhand
    rw [hr] at hhand
    simp at hhand

theorem Blank.frame (hb : Blank history s) {s' : BroadcastDelivery}
    (hindex : s'.requestIdIndex = s.requestIdIndex)
    (hstates : s'.broadcastStatesIndex = s.broadcastStatesIndex) (hlists : s'.lists = s.lists)
    (hreporting : s'.reporting = s.reporting) (hfreed : s'.freed = s.freed) : Blank history s' where
  kept := hb.kept.frame hindex hstates hlists hreporting
  fresh := hb.fresh
  freed := hfreed.trans hb.freed

theorem Blank.undefined (hb : Blank history s) :
    Blank (history ++ [DeliveryEvent.undefined]) s where
  kept := hb.kept.undefined
  fresh requestId h := by
    rw [wasAccepted_append] at h
    rcases h with h | ⟨index, hmem⟩
    · exact hb.fresh requestId h
    · cases List.mem_singleton.mp hmem
  freed := hb.freed

theorem Blank.step (hb : Blank history s) {input : Input} (hok : s.AcceptsNone input) :
    Blank (history ++ (s.step input).2) (s.step input).1 := by
  cases input with
  | sendPacket caller requestor packet destinations =>
    unfold BroadcastDelivery.step
    dsimp only
    split
    · simpa using hb
    · split
      · simpa using hb
      · rw [List.append_nil]
        exact hb.frame rfl rfl rfl rfl rfl
  | proceed caller getParent =>
    unfold BroadcastDelivery.step
    dsimp only
    cases hf : s.callers.find caller with
    | none => simpa using hb
    | some position =>
      cases position with
      | counting requestId call =>
        show Blank (history ++ []) _
        rw [List.append_nil]
        exact hb.frame rfl rfl rfl rfl rfl
      | delegating requestId call =>
        unfold BroadcastDelivery.proceedSend
        dsimp only
        split
        · exact Blank.undefined (hb.frame rfl rfl rfl rfl rfl)
        · rw [List.append_nil]
          exact hb.frame rfl rfl rfl rfl rfl
        · next index hpopulate =>
          rw [if_pos (hok requestId call hf index hpopulate)]
          simpa using hb
  | cancel requestId =>
    unfold BroadcastDelivery.step BroadcastDelivery.cancel
    dsimp only
    rw [(hb.kept.ended requestId (.inr (hb.fresh requestId))).1]
    simpa using hb
  | getCurrentRequest u =>
    have hempty : (s.broadcastStatesIndex u).popCurrent s.lists = none := by
      cases hpop : (s.broadcastStatesIndex u).popCurrent s.lists with
      | none => rfl
      | some current =>
        obtain ⟨_, _, _, hlist, -⟩ := (hb.kept.statesOk.own u).popCurrent_eq hpop
        exact absurd rfl (hb.kept.noRequest (hb.fresh current.request.requestId) u current.request
          (by rw [hlist]; exact .head _))
    unfold BroadcastDelivery.step BroadcastDelivery.getCurrentRequest
    dsimp only
    split
    · simpa using hb
    · rw [hempty]
      simpa using hb
  | packetSent u =>
    unfold BroadcastDelivery.step
    dsimp only
    rw [hb.reporting u]
    simpa using hb
  | overwrite a destinations =>
    unfold BroadcastDelivery.step
    dsimp only
    rw [if_neg (by rw [hb.freed]; exact List.not_mem_nil)]
    simpa using hb

theorem Blank.stepSound (hb : Blank history s) {input : Input} (hok : s.AcceptsNone input) :
    StepSound history s input := by
  have hstep := hb.step hok
  refine ⟨hstep.kept.accounted, fun a hmem => ?_⟩
  rw [hstep.freed] at hmem
  cases hmem

theorem Blank.acceptsNone (hb : Blank history s) {input : Input}
    (hsound : StepSound history s input) : s.AcceptsNone input := by
  cases input with
  | proceed caller getParent =>
    intro requestId call hf index hpopulate
    by_contra hbusy
    have hleave : Kept history (s.leave caller) := hb.kept.frame rfl rfl rfl rfl
    obtain ⟨hformed, -⟩ := UdpTransportIndex.formed_nil.populate hpopulate
    have hd := hleave.statesOk.delegate call.packet hformed
      fun u _ => hleave.noRequest (hb.fresh requestId) u
    have hstep : s.step (.proceed caller getParent) =
        (s.leave caller).register requestId call index := by
      unfold BroadcastDelivery.step
      dsimp only
      rw [hf]
      unfold BroadcastDelivery.proceedSend
      dsimp only
      rw [hpopulate]
      exact if_neg hbusy
    unfold StepSound at hsound
    rw [hstep] at hsound
    unfold BroadcastDelivery.register at hsound
    generalize (s.leave caller).delegate requestId call.packet index = result at hd hsound
    obtain ⟨status, addresses, members, s'⟩ := result
    obtain ⟨hstatus, -, -, -, -, -, -, hfreed⟩ := hd
    dsimp only at hstatus hfreed hsound
    rw [hstatus, if_neg nofun] at hsound
    obtain ⟨haccounted, hlive⟩ := hsound
    by_cases hnil : index = []
    · -- accepted, with no destination to wait for
      have huncancelled : .cancelled requestId ∉ history :=
        fun h => hb.fresh requestId (hb.kept.cancelled requestId h)
      have hcomplete := haccounted.complete requestId (by simpa using huncancelled)
        ⟨index, List.mem_append_right _ (List.mem_singleton.mpr rfl)⟩
      have hnever := (hb.kept.ended requestId (.inr (hb.fresh requestId))).2
      have hhanded := hb.kept.handedOut_nil (hb.fresh requestId)
      have haccepted := accepted_eq_nil (hb.fresh requestId)
      dsimp only at hcomplete
      rw [handedOut_append, accepted_append, hhanded, haccepted, List.count_append,
        List.count_eq_zero.mpr hnever, hnil, if_pos (by simp [handedOut, accepted,
          UdpTransportIndex.pairs])] at hcomplete
      simp at hcomplete
    · obtain ⟨a, hmem, u, request, hrequest, haddress⟩ := hfreed hnil
      exact hlive a (List.mem_append_left _ hmem) ⟨u, request, hrequest, haddress⟩
  | _ => trivial

end Steps

/-- In a run every step does what it should if and only if no request is ever accepted, since its
lists are freed while they are referred to. As long as nobody uses their memory, and the ids and the
sets are good, every step keeps the accounts of the requests. -/
theorem along_accounts (inputs : List Input) :
    (machine.Along StepSound [] new inputs ↔
      machine.Along (fun _ s input => s.AcceptsNone input) [] new inputs) ∧
    (machine.Along StepIntact [] new inputs →
      machine.Along
        (fun history s input => Accounted (history ++ (s.step input).2) (s.step input).1)
        [] new inputs) := by
  constructor
  · exact Machine.along_congr (I := Blank) (fun _ _ _ hb hok => hb.step hok)
      (fun _ _ _ hb => ⟨hb.acceptsNone, hb.stepSound⟩) blank_new
  · exact Machine.along_imp (I := Kept) (fun _ _ _ hk hok => hk.step hok)
      (fun _ _ _ hk hok => (hk.step hok).accounted) kept_new

/-- A broadcast to two destinations of one UDP transport is accepted. -/
def broadcastTwo : List Input :=
  [.sendPacket 0 3 5 (.ofIds some [7, 8]), .proceed 0 fun _ => some 1, .proceed 0 fun _ => some 1]

/-- It is sent, with all reports. -/
def broadcastTwoSent : List Input :=
  broadcastTwo ++ [Input.getCurrentRequest 1, .packetSent 1, .getCurrentRequest 1, .packetSent 1]

theorem broadcastTwoSent_accounts :
    machine.Along (fun history s input => Accounted (history ++ (s.step input).2) (s.step input).1) []
        new broadcastTwoSent ∧
      (machine.run new broadcastTwoSent).2 =
        [.accepted 1 [(1, [7, 8])], .handedOut 1 1 7, .handedOut 1 1 8, .completed 1] := by
  refine ⟨(along_accounts broadcastTwoSent).2 ⟨trivial, ?_, ?_, trivial, trivial, trivial, trivial,
    trivial⟩, by decide +kernel⟩
  · intro requestId call hf
    have hposition : (machine.run new (broadcastTwo.take 1)).1.callers.find 0 =
        some (.counting 1 ⟨3, 5, .ofIds some [7, 8], by decide⟩) := rfl
    cases hposition.symm.trans hf
  · intro requestId call hf
    have hposition : (machine.run new (broadcastTwo.take 2)).1.callers.find 0 =
        some (.delegating 1 ⟨3, 5, .ofIds some [7, 8], by decide⟩) := rfl
    cases hposition.symm.trans hf
    exact ⟨fun ⟨index, hmem⟩ => (by cases hmem), by decide⟩

/-- As soon as it is accepted its list is freed, and the states refer to it. -/
theorem broadcastTwo_not_sound : ¬ machine.Along StepSound [] new broadcastTwo := by
  rintro ⟨-, -, ⟨-, hlive⟩, -⟩
  exact hlive 0 (by decide +kernel) ⟨1, ⟨1, 5, 0⟩, by decide +kernel, rfl⟩

end BroadcastDelivery

end Alpine
