import Alpine.Protocol.Disconnect

/-!
# The registry of the queries

What the manager knows of its queries is in four indexes: the active and the past queries by their
id, and the ids of either by peer. `Registered` says what they have to be of the queries created so
far, and `StepSound` adds what a call tells its caller. `getAllActiveQueryIds` and
`getAllPastQueryIds` fill a copy of the list, so a caller has the ids exactly if they were in its
list before the call; `cancelAll` passes an empty one. `StepListed` is the condition for that, and
for the ids to be new (`along_registered_iff`).
-/

namespace Alpine

open Lib

variable {π δ : Type}

namespace QueryMgr

/-- `getAllPastQueryIds` has its list by value too. -/
def getAllPastQueryIds (m : QueryMgr δ) (queryIdList : List Nat) : Bool × List Nat :=
  (m.initialized, queryIdList)

/-! ## The lists of the peers -/

variable {queryId q peerId : Nat} {index past : UMap Nat (List Nat)}

theorem listed_of_find {idList : List Nat} (hfind : index.find peerId = some idList) :
    Listed index q peerId ↔ q ∈ idList := by
  constructor
  · rintro ⟨list, hlist, hmem⟩
    rw [hfind] at hlist
    injection hlist with hlist
    exact hlist ▸ hmem
  · intro hmem
    exact ⟨idList, hfind, hmem⟩

theorem not_listed (hfind : index.find peerId = none) : ¬ Listed index q peerId := by
  rintro ⟨list, hlist, -⟩
  rw [hfind] at hlist
  cases hlist

/-- Only the peers in the index have queries listed. -/
theorem listed_congr {index' : UMap Nat (List Nat)} (h : index'.find peerId = index.find peerId) :
    Listed index' q peerId ↔ Listed index q peerId := by
  unfold Listed
  rw [h]

theorem listed_pushQueryId (p : Nat) :
    Listed (pushQueryId queryId index peerId) q p ↔
      Listed index q p ∨ (q = queryId ∧ p = peerId) := by
  by_cases hp : p = peerId
  · subst hp
    unfold pushQueryId
    cases hf : index.find p with
    | none =>
      have hnew : (index.emplace p [queryId]).find p = some [queryId] := by simp [hf]
      rw [listed_of_find hnew]
      simp [not_listed hf]
    | some idList =>
      have hnew : (index.assign p (idList ++ [queryId])).find p = some (idList ++ [queryId]) := by
        simp
      rw [listed_of_find hnew, listed_of_find hf]
      simp
  · have hother : (pushQueryId queryId index peerId).find p = index.find p := by
      unfold pushQueryId
      cases index.find peerId with
      | none => simp [hp]
      | some idList => simp [hp]
    rw [listed_congr hother]
    simp [hp]

theorem listed_foldl_push (peerIdList : List Nat) (index : UMap Nat (List Nat)) (p : Nat) :
    Listed (peerIdList.foldl (pushQueryId queryId) index) q p ↔
      Listed index q p ∨ (q = queryId ∧ p ∈ peerIdList) := by
  induction peerIdList generalizing index with
  | nil => simp
  | cons peerId peerIdList ih =>
    rw [List.foldl_cons, ih, listed_pushQueryId, List.mem_cons, or_assoc, ← and_or_left]

/-- A query leaves the list of its peer. -/
theorem listed_moveQueryId_active (p : Nat) :
    Listed (moveQueryId queryId (index, past) peerId).1 q p ↔
      Listed index q p ∧ ¬ (q = queryId ∧ p = peerId) := by
  unfold moveQueryId
  dsimp only
  cases hf : index.find peerId with
  | none =>
    constructor
    · intro hl
      refine ⟨hl, ?_⟩
      rintro ⟨-, rfl⟩
      exact not_listed hf hl
    · exact fun hl => hl.1
  | some idList =>
    by_cases hp : p = peerId
    · subst hp
      have hnew : (index.assign p (idList.filter (· ≠ queryId))).find p =
          some (idList.filter (· ≠ queryId)) := by simp
      rw [listed_of_find hnew, listed_of_find hf]
      simp
    · have hsame : (index.assign peerId (idList.filter (· ≠ queryId))).find p = index.find p := by
        simp [hp]
      rw [listed_congr hsame]
      simp [hp]

theorem listed_moveQueryId_past (p : Nat) :
    Listed (moveQueryId queryId (index, past) peerId).2 q p ↔
      Listed past q p ∨ (q = queryId ∧ p = peerId ∧ (index.find peerId).isSome) := by
  unfold moveQueryId
  dsimp only
  cases hf : index.find peerId with
  | none => simp
  | some idList =>
    rw [listed_pushQueryId]
    simp

theorem find_moveQueryId_isSome (p : Nat) :
    ((moveQueryId queryId (index, past) peerId).1.find p).isSome = (index.find p).isSome := by
  unfold moveQueryId
  dsimp only
  cases hf : index.find peerId with
  | none => rfl
  | some idList =>
    rw [UMap.find_assign]
    split
    · next hp => rw [hp, hf]; rfl
    · rfl

theorem listed_foldl_move (queryId q : Nat) (peerIdList : List Nat)
    (index past : UMap Nat (List Nat)) (p : Nat) :
    (Listed (peerIdList.foldl (moveQueryId queryId) (index, past)).1 q p ↔
      Listed index q p ∧ ¬ (q = queryId ∧ p ∈ peerIdList)) ∧
    (Listed (peerIdList.foldl (moveQueryId queryId) (index, past)).2 q p ↔
      Listed past q p ∨ (q = queryId ∧ p ∈ peerIdList ∧ (index.find p).isSome)) := by
  induction peerIdList generalizing index past with
  | nil => simp
  | cons peerId peerIdList ih =>
    rw [List.foldl_cons]
    obtain ⟨hactive, hpast⟩ := ih (moveQueryId queryId (index, past) peerId).1
      (moveQueryId queryId (index, past) peerId).2
    rw [hactive, hpast, listed_moveQueryId_active, listed_moveQueryId_past, find_moveQueryId_isSome,
      List.mem_cons]
    have hhead : (p = peerId ∧ (index.find peerId).isSome = true) ↔
        (p = peerId ∧ (index.find p).isSome = true) :=
      and_congr_right fun hp => by rw [hp]
    constructor
    · rw [and_assoc, ← not_or, ← and_or_left]
    · rw [hhead, or_assoc, ← and_or_left, ← or_and_right]

end QueryMgr

/-! ## The machine -/

/-- The calls of the manager while it is in use, and the two that return its ids. -/
inductive RegistryCall (π δ : Type) where
  | call (input : QueryMgr.Input π δ) (inUse : input ≠ .cleanUp)
  | getAllActiveQueryIds (queryIdList : List Nat)
  | getAllPastQueryIds (queryIdList : List Nat)

/-- What the callers are told. -/
inductive RegistryEvent where
  /-- `createQuery` sets its caller's id. -/
  | drawn (queryId : Nat)
  /-- `createQuery` returns true for a query with these peers. -/
  | created (queryId : Nat) (peerIdList : List Nat)
  /-- What the caller's list has when the call returned true. -/
  | activeQueryIds (queryIdList : List Nat)
  | pastQueryIds (queryIdList : List Nat)
  deriving DecidableEq

namespace QueryRegistry

/-- `cancelAll` asks for the ids with an empty list. -/
def told (m : QueryMgr δ) : RegistryCall π δ → List RegistryEvent
  | .call (.createQuery _ _ _) _ => if m.initialized then [.drawn m.currQueryId] else []
  | .call (.indexQuery results) _ =>
    match m.started.find results with
    | none => []
    | some state =>
      if m.initialized then [.created state.queryId state.query.peerIdList] else []
  | .call (.cancelAll _) _ =>
    let (status, queryIdList) := m.getAllActiveQueryIds []
    if status then [.activeQueryIds queryIdList] else []
  | .call _ _ => []
  | .getAllActiveQueryIds queryIdList =>
    let (status, queryIdList) := m.getAllActiveQueryIds queryIdList
    if status then [.activeQueryIds queryIdList] else []
  | .getAllPastQueryIds queryIdList =>
    let (status, queryIdList) := m.getAllPastQueryIds queryIdList
    if status then [.pastQueryIds queryIdList] else []

def after [ResourceHash] (m : QueryMgr δ) : RegistryCall π δ → QueryMgr δ
  | .call input _ => (m.call input).2.1
  | .getAllActiveQueryIds _ | .getAllPastQueryIds _ => m

def machine [ResourceHash] : Machine (QueryMgr δ) (RegistryCall π δ) RegistryEvent where
  step m call := (after m call, told m call)

/-! ## The property -/

/-- The ids that `createQuery` gave its callers, in order. -/
def drawnIds (history : List RegistryEvent) : List Nat :=
  history.filterMap fun
    | .drawn queryId => some queryId
    | _ => none

/-- The query was created with the peer. -/
def HasPeer (history : List RegistryEvent) (queryId peerId : Nat) : Prop :=
  ∃ peerIdList, .created queryId peerIdList ∈ history ∧ peerId ∈ peerIdList

structure Registered (history : List RegistryEvent) (m : QueryMgr δ) : Prop where
  fresh : (drawnIds history).Nodup
  oneIndex : ∀ queryId peerIdList, .created queryId peerIdList ∈ history →
    Xor (m.activeQueryIndex.find queryId).isSome (m.pastQueryIndex.find queryId).isSome
  activePeers : ∀ queryId peerId, QueryMgr.Listed m.activePeerQueryIndex queryId peerId ↔
    ∃ state, m.activeQueryIndex.find queryId = some state ∧ peerId ∈ state.query.peerIdList
  pastPeers : ∀ queryId peerId, QueryMgr.Listed m.pastPeerQueryIndex queryId peerId ↔
    (m.pastQueryIndex.find queryId).isSome ∧ HasPeer history queryId peerId

structure StepSound [ResourceHash] (history : List RegistryEvent) (m : QueryMgr δ)
    (call : RegistryCall π δ) : Prop where
  registered : Registered (history ++ told m call) (after m call)
  refused : ∀ queryId h, call = .call (.cancelQuery queryId) h →
    (m.cancelQuery (π := π) queryId).1 = false → after m call = m
  active : ∀ queryIdList, .activeQueryIds queryIdList ∈ told m call →
    queryIdList.Perm m.activeQueryIndex.keys
  past : ∀ queryIdList, .pastQueryIds queryIdList ∈ told m call →
    queryIdList.Perm m.pastQueryIndex.keys

/-- There are ids left for `createQuery`; whoever asks for ids has them already, and there are none
for `cancelAll`. -/
def StepListed (history : List RegistryEvent) (m : QueryMgr δ) (call : RegistryCall π δ) : Prop :=
  m.initialized = true →
    match call with
    | .call (.createQuery _ _ _) _ => (drawnIds history).length < 2 ^ 64
    | .call (.cancelAll _) _ => m.activeQueryIndex.keys = []
    | .call _ _ => True
    | .getAllActiveQueryIds queryIdList => queryIdList.Perm m.activeQueryIndex.keys
    | .getAllPastQueryIds queryIdList => queryIdList.Perm m.pastQueryIndex.keys

/-! ## The invariant -/

variable {history : List RegistryEvent} {m m' : QueryMgr δ} {queryId : Nat}

/-- The states of the queries on their way, up to what the registry reads of them. -/
def startedAs (m : QueryMgr δ) (results : Nat) : Option (Nat × List Nat) :=
  (m.started.find results).map fun state => (state.queryId, state.query.peerIdList)

/-- The peers of an active query. -/
def activeAs (m : QueryMgr δ) (queryId : Nat) : Option (List Nat) :=
  (m.activeQueryIndex.find queryId).map (·.query.peerIdList)

def IsPast (m : QueryMgr δ) (queryId : Nat) : Prop := (m.pastQueryIndex.find queryId).isSome

/-- Each id is drawn, then started, created and active, and past in the end. -/
structure Kept (history : List RegistryEvent) (m : QueryMgr δ) : Prop where
  counter : m.currQueryId = (drawnIds history).length % 2 ^ 64
  bounded : (drawnIds history).length ≤ 2 ^ 64
  drawn : drawnIds history = List.range (drawnIds history).length
  early : m.initialized = false → drawnIds history = []
  createdDrawn : ∀ q peerIdList, .created q peerIdList ∈ history → q ∈ drawnIds history
  startedDrawn : ∀ a q peerIdList, startedAs m a = some (q, peerIdList) → q ∈ drawnIds history
  startedNew : ∀ a q peerIdList, startedAs m a = some (q, peerIdList) →
    ∀ created, .created q created ∉ history
  startedOnce : ∀ a a' q peerIdList peerIdList', startedAs m a = some (q, peerIdList) →
    startedAs m a' = some (q, peerIdList') → a = a'
  active : ∀ q peerIdList, activeAs m q = some peerIdList → .created q peerIdList ∈ history
  createdOnce : ∀ q peerIdList peerIdList', .created q peerIdList ∈ history →
    .created q peerIdList' ∈ history → peerIdList = peerIdList'
  past : ∀ q, IsPast m q → ∃ peerIdList, .created q peerIdList ∈ history
  oneIndex : ∀ q peerIdList, .created q peerIdList ∈ history →
    Xor ((activeAs m q).isSome = true) (IsPast m q)
  activePeers : ∀ q p, QueryMgr.Listed m.activePeerQueryIndex q p ↔
    ∃ peerIdList, activeAs m q = some peerIdList ∧ p ∈ peerIdList
  pastPeers : ∀ q p, QueryMgr.Listed m.pastPeerQueryIndex q p ↔ IsPast m q ∧ HasPeer history q p

theorem kept_new : Kept [] (QueryMgr.new : QueryMgr δ) where
  counter := rfl
  bounded := Nat.zero_le _
  drawn := rfl
  early := fun _ => rfl
  createdDrawn := fun _ _ h => by cases h
  startedDrawn := fun _ _ _ h => by cases h
  startedNew := fun _ _ _ h => by cases h
  startedOnce := fun _ _ _ _ _ h => by cases h
  active := fun _ _ h => by cases h
  createdOnce := fun _ _ _ h => by cases h
  past := fun _ h => by cases h
  oneIndex := fun _ _ h => by cases h
  activePeers := fun q p => by
    constructor
    · exact fun h => absurd h (QueryMgr.not_listed rfl)
    · rintro ⟨_, h, -⟩
      cases h
  pastPeers := fun q p => by
    constructor
    · exact fun h => absurd h (QueryMgr.not_listed rfl)
    · rintro ⟨h, -⟩
      cases h

theorem Kept.registered (hk : Kept history m) : Registered history m where
  fresh := by
    rw [hk.drawn]
    exact List.nodup_range
  oneIndex := by
    intro q peerIdList hc
    have hone := hk.oneIndex q peerIdList hc
    unfold activeAs IsPast at hone
    rwa [Option.isSome_map] at hone
  activePeers := by
    intro q p
    rw [hk.activePeers]
    unfold activeAs
    constructor
    · rintro ⟨peerIdList, hmap, hp⟩
      obtain ⟨state, hfind, rfl⟩ := Option.map_eq_some_iff.mp hmap
      exact ⟨state, hfind, hp⟩
    · rintro ⟨state, hfind, hp⟩
      exact ⟨_, by rw [hfind]; rfl, hp⟩
  pastPeers := hk.pastPeers

/-! ## One step

Most calls leave what the registry reads of the manager. -/

structure SameRegistry (m m' : QueryMgr δ) : Prop where
  initialized : m'.initialized = m.initialized
  currQueryId : m'.currQueryId = m.currQueryId
  started : ∀ a, startedAs m' a = startedAs m a
  active : ∀ q, activeAs m' q = activeAs m q
  past : ∀ q, IsPast m' q ↔ IsPast m q
  activePeers : m'.activePeerQueryIndex = m.activePeerQueryIndex
  pastPeers : m'.pastPeerQueryIndex = m.pastPeerQueryIndex

theorem Kept.same (hk : Kept history m) (hs : SameRegistry m m') : Kept history m' where
  counter := hs.currQueryId.trans hk.counter
  bounded := hk.bounded
  drawn := hk.drawn
  early := fun h => hk.early (hs.initialized.symm.trans h)
  createdDrawn := hk.createdDrawn
  startedDrawn := fun a q l h => hk.startedDrawn a q l (by rwa [hs.started] at h)
  startedNew := fun a q l h => hk.startedNew a q l (by rwa [hs.started] at h)
  startedOnce := by
    intro a a' q l l' h h'
    rw [hs.started] at h h'
    exact hk.startedOnce a a' q l l' h h'
  active := fun q l h => hk.active q l (by rwa [hs.active] at h)
  createdOnce := hk.createdOnce
  past := fun q h => hk.past q ((hs.past q).mp h)
  oneIndex := by
    intro q l h
    rw [hs.active, hs.past]
    exact hk.oneIndex q l h
  activePeers := by
    intro q p
    rw [hs.activePeers, hs.active]
    exact hk.activePeers q p
  pastPeers := by
    intro q p
    rw [hs.pastPeers, hs.past]
    exact hk.pastPeers q p

theorem sameRegistry_of_touched (ht : QueryMgr.Touched m m') : SameRegistry m m' where
  initialized := ht.initialized
  currQueryId := ht.currQueryId
  started := fun a => by unfold startedAs; rw [ht.started]
  active := by
    intro q
    have hcore := congrArg (Option.map fun state => state.query.peerIdList) (ht.active q)
    rw [Option.map_map, Option.map_map] at hcore
    exact hcore
  past := fun q => by unfold IsPast; rw [ht.past]
  activePeers := ht.activePeers
  pastPeers := ht.pastPeers

/-- The events of a call that creates nothing. -/
theorem Kept.silent (hk : Kept history m) {events : List RegistryEvent}
    (hdrawn : drawnIds events = []) (hnone : ∀ q l, .created q l ∉ events) :
    Kept (history ++ events) m := by
  have hids : drawnIds (history ++ events) = drawnIds history := by
    have happ : drawnIds (history ++ events) = drawnIds history ++ drawnIds events :=
      List.filterMap_append
    rw [happ, hdrawn, List.append_nil]
  have hcreated : ∀ q l, .created q l ∈ history ++ events ↔ .created q l ∈ history := by
    intro q l
    rw [List.mem_append]
    exact ⟨fun h => h.resolve_right (hnone q l), .inl⟩
  have hpeer : ∀ q p, HasPeer (history ++ events) q p ↔ HasPeer history q p := by
    intro q p
    unfold HasPeer
    simp only [hcreated]
  constructor
  · rw [hids]; exact hk.counter
  · rw [hids]; exact hk.bounded
  · rw [hids]; exact hk.drawn
  · rw [hids]; exact hk.early
  · simp only [hcreated, hids]; exact hk.createdDrawn
  · simp only [hids]; exact hk.startedDrawn
  · simp only [hcreated]; exact hk.startedNew
  · exact hk.startedOnce
  · simp only [hcreated]; exact hk.active
  · simp only [hcreated]; exact hk.createdOnce
  · simp only [hcreated]; exact hk.past
  · simp only [hcreated]; exact hk.oneIndex
  · exact hk.activePeers
  · simp only [hpeer]; exact hk.pastPeers

/-- `createQuery` takes the next id; a state that comes on its way has it. -/
theorem Kept.draw (hk : Kept history m)
    (hleft : (drawnIds history).length < 2 ^ 64) (hinit' : m'.initialized = true)
    (hnext : m'.currQueryId = (m.currQueryId + 1) % 2 ^ 64)
    (hactive : m'.activeQueryIndex = m.activeQueryIndex)
    (hpast : m'.pastQueryIndex = m.pastQueryIndex)
    (hactivePeers : m'.activePeerQueryIndex = m.activePeerQueryIndex)
    (hpastPeers : m'.pastPeerQueryIndex = m.pastPeerQueryIndex)
    (hstarted : ∀ a q l, startedAs m' a = some (q, l) →
      startedAs m a = some (q, l) ∨ (q = m.currQueryId ∧ a = m.heap.next)) :
    Kept (history ++ [RegistryEvent.drawn m.currQueryId]) m' := by
  have hcurr : m.currQueryId = (drawnIds history).length := by
    rw [hk.counter, Nat.mod_eq_of_lt hleft]
  have hids : drawnIds (history ++ [RegistryEvent.drawn m.currQueryId]) =
      drawnIds history ++ [m.currQueryId] := List.filterMap_append
  have hnew : m.currQueryId ∉ drawnIds history := by
    rw [hk.drawn, List.mem_range, hcurr]
    exact Nat.lt_irrefl _
  have hcreated : ∀ q l,
      RegistryEvent.created q l ∈ history ++ [RegistryEvent.drawn m.currQueryId] ↔
        RegistryEvent.created q l ∈ history := by
    intro q l
    simp
  have hpeer : ∀ q p,
      HasPeer (history ++ [RegistryEvent.drawn m.currQueryId]) q p ↔ HasPeer history q p := by
    intro q p
    unfold HasPeer
    simp only [hcreated]
  have hactiveAs : ∀ q, activeAs m' q = activeAs m q := by
    intro q
    unfold activeAs
    rw [hactive]
  have hisPast : ∀ q, IsPast m' q ↔ IsPast m q := by
    intro q
    unfold IsPast
    rw [hpast]
  constructor
  · rw [hids, hnext, hcurr, List.length_append]
    rfl
  · rw [hids, List.length_append]
    exact hleft
  · rw [hids, List.length_append, List.length_singleton, List.range_succ, ← hk.drawn, ← hcurr]
  · rw [hinit']
    exact fun h => by cases h
  · intro q l h
    rw [hids, List.mem_append]
    exact .inl (hk.createdDrawn q l ((hcreated q l).mp h))
  · intro a q l h
    rw [hids, List.mem_append]
    rcases hstarted a q l h with hold | ⟨rfl, -⟩
    · exact .inl (hk.startedDrawn a q l hold)
    · exact .inr (List.mem_singleton_self _)
  · intro a q l h created hc
    rw [hcreated] at hc
    rcases hstarted a q l h with hold | ⟨rfl, -⟩
    · exact hk.startedNew a q l hold created hc
    · exact hnew (hk.createdDrawn _ created hc)
  · intro a a' q l l' h h'
    rcases hstarted a q l h with hold | ⟨rfl, ha⟩
    · rcases hstarted a' q l' h' with hold' | ⟨rfl, -⟩
      · exact hk.startedOnce a a' q l l' hold hold'
      · exact absurd (hk.startedDrawn a _ l hold) hnew
    · rcases hstarted a' _ l' h' with hold' | ⟨-, ha'⟩
      · exact absurd (hk.startedDrawn a' _ l' hold') hnew
      · rw [ha, ha']
  · intro q l h
    rw [hcreated]
    exact hk.active q l (by rwa [hactiveAs] at h)
  · simp only [hcreated]; exact hk.createdOnce
  · intro q h
    simp only [hcreated]
    exact hk.past q ((hisPast q).mp h)
  · intro q l h
    rw [hactiveAs, hisPast]
    exact hk.oneIndex q l ((hcreated q l).mp h)
  · intro q p
    rw [hactivePeers, hactiveAs]
    exact hk.activePeers q p
  · intro q p
    rw [hpastPeers, hisPast, hpeer]
    exact hk.pastPeers q p

theorem Kept.createQuery (hk : Kept history m) (options : QueryOptions) (peerIdList : List Nat)
    (startQuery : Bool)
    (hleft : m.initialized = true → (drawnIds history).length < 2 ^ 64) :
    Kept (history ++ if m.initialized then [RegistryEvent.drawn m.currQueryId] else [])
      (m.createQuery (π := π) options peerIdList startQuery).2.1 := by
  cases hinit : m.initialized with
  | false =>
    rw [QueryMgr.createQuery_early hinit]
    exact hk.silent rfl fun q l h => by cases h
  | true =>
    cases startQuery with
    | false =>
      rw [QueryMgr.createQuery_failed hinit]
      exact hk.draw (hleft hinit) hinit rfl rfl rfl rfl rfl fun a q l h => .inl h
    | true =>
      rw [QueryMgr.createQuery_started hinit]
      refine hk.draw (hleft hinit) hinit rfl rfl rfl rfl rfl fun a q l h => ?_
      unfold startedAs at h
      rw [UMap.find_assign] at h
      split at h
      · next ha =>
        have hq : (m.newState options peerIdList).queryId = q := by
          have := Option.some.inj h
          exact congrArg Prod.fst this
        exact .inr ⟨hq.symm, ha⟩
      · exact .inl h

theorem Kept.initializeMgr (hk : Kept history m) (maxConcurrent : Nat) :
    Kept history (m.initializeMgr maxConcurrent).2 := by
  unfold QueryMgr.initializeMgr
  split
  · exact hk
  · next hinit =>
    have hnone : drawnIds history = [] := hk.early (by simpa using hinit)
    have hcreated : ∀ q l, .created q l ∉ history := by
      intro q l h
      have := hk.createdDrawn q l h
      rw [hnone] at this
      cases this
    have hpeer : ∀ q p, ¬ HasPeer history q p := by
      rintro q p ⟨l, h, -⟩
      exact hcreated q l h
    exact { hk with
      early := fun h => by cases h
      active := fun q l h => by cases h
      past := fun q h => by cases h
      oneIndex := fun q l h => absurd h (hcreated q l)
      activePeers := fun q p => by
        constructor
        · exact fun h => absurd h (QueryMgr.not_listed rfl)
        · rintro ⟨_, h, -⟩
          cases h
      pastPeers := fun q p => by
        constructor
        · exact fun h => absurd h (QueryMgr.not_listed rfl)
        · exact fun h => absurd h.2 (hpeer q p) }

/-- A query on its way is created, and active from then on. -/
theorem Kept.create (hk : Kept history m) {results : Nat} {state : QueryState}
    (hfind : m.started.find results = some state) :
    Kept (history ++ [RegistryEvent.created state.queryId state.query.peerIdList])
      { (m.arrived results).listed state with
        activeQueryIndex := m.activeQueryIndex.emplace state.queryId state } := by
  have hstarted : startedAs m results = some (state.queryId, state.query.peerIdList) := by
    unfold startedAs
    rw [hfind]
    rfl
  have hnew := hk.startedNew results _ _ hstarted
  have hnone : m.activeQueryIndex.find state.queryId = none := by
    cases hf : m.activeQueryIndex.find state.queryId with
    | none => rfl
    | some old =>
      have hold : activeAs m state.queryId = some old.query.peerIdList := by
        unfold activeAs
        rw [hf]
        rfl
      exact absurd (hk.active _ _ hold) (hnew _)
  have hnotPast : ¬ IsPast m state.queryId := by
    intro h
    obtain ⟨l, hc⟩ := hk.past _ h
    exact hnew l hc
  have hids : drawnIds (history ++ [RegistryEvent.created state.queryId state.query.peerIdList]) =
      drawnIds history := by
    have happ : drawnIds (history ++ [RegistryEvent.created state.queryId state.query.peerIdList]) =
        drawnIds history ++ [] := List.filterMap_append
    rw [happ, List.append_nil]
  have hcreated : ∀ q l, RegistryEvent.created q l ∈
      history ++ [RegistryEvent.created state.queryId state.query.peerIdList] ↔
        RegistryEvent.created q l ∈ history ∨ (q = state.queryId ∧ l = state.query.peerIdList) := by
    intro q l
    simp
  have hactiveAs : ∀ q, activeAs { (m.arrived results).listed state with
      activeQueryIndex := m.activeQueryIndex.emplace state.queryId state } q =
        if q = state.queryId then some state.query.peerIdList else activeAs m q := by
    intro q
    unfold activeAs
    rw [UMap.find_emplace, hnone]
    split
    · rfl
    · rfl
  have hstartedAs : ∀ a q l, startedAs { (m.arrived results).listed state with
      activeQueryIndex := m.activeQueryIndex.emplace state.queryId state } a = some (q, l) →
        a ≠ results ∧ startedAs m a = some (q, l) := by
    intro a q l h
    have herase : ((m.started.erase results).find a).map
        (fun state => (state.queryId, state.query.peerIdList)) = some (q, l) := h
    rw [UMap.find_erase] at herase
    split at herase
    · cases herase
    · next ha => exact ⟨ha, herase⟩
  constructor
  · rw [hids]; exact hk.counter
  · rw [hids]; exact hk.bounded
  · rw [hids]; exact hk.drawn
  · rw [hids]; exact hk.early
  · intro q l h
    rw [hids]
    rcases (hcreated q l).mp h with hold | ⟨rfl, -⟩
    · exact hk.createdDrawn q l hold
    · exact hk.startedDrawn results _ _ hstarted
  · intro a q l h
    rw [hids]
    exact hk.startedDrawn a q l (hstartedAs a q l h).2
  · intro a q l h created hc
    obtain ⟨ha, hold⟩ := hstartedAs a q l h
    rcases (hcreated q created).mp hc with hc | ⟨rfl, -⟩
    · exact hk.startedNew a q l hold created hc
    · exact ha (hk.startedOnce a results _ _ _ hold hstarted)
  · intro a a' q l l' h h'
    exact hk.startedOnce a a' q l l' (hstartedAs a q l h).2 (hstartedAs a' q l' h').2
  · intro q l h
    rw [hcreated]
    rw [hactiveAs] at h
    split at h
    · next hq => exact .inr ⟨hq, (Option.some.inj h).symm⟩
    · exact .inl (hk.active q l h)
  · intro q l l' h h'
    rcases (hcreated q l).mp h with hold | ⟨rfl, rfl⟩
    · rcases (hcreated q l').mp h' with hold' | ⟨rfl, rfl⟩
      · exact hk.createdOnce q l l' hold hold'
      · exact absurd hold (hnew l)
    · rcases (hcreated _ l').mp h' with hold' | ⟨-, rfl⟩
      · exact absurd hold' (hnew l')
      · rfl
  · intro q h
    obtain ⟨l, hc⟩ := hk.past q h
    exact ⟨l, (hcreated q l).mpr (.inl hc)⟩
  · intro q l h
    rw [hactiveAs]
    by_cases hq : q = state.queryId
    · subst hq
      rw [if_pos rfl]
      exact .inl ⟨rfl, hnotPast⟩
    · rw [if_neg hq]
      exact hk.oneIndex q l (((hcreated q l).mp h).resolve_right fun hnow => hq hnow.1)
  · intro q p
    have hlisted : QueryMgr.Listed (state.query.peerIdList.foldl
        (QueryMgr.pushQueryId state.queryId) m.activePeerQueryIndex) q p ↔ _ :=
      QueryMgr.listed_foldl_push _ _ _
    rw [hactiveAs]
    refine hlisted.trans ?_
    rw [hk.activePeers]
    by_cases hq : q = state.queryId
    · subst hq
      have hgone : activeAs m state.queryId = none := by
        unfold activeAs
        rw [hnone]
        rfl
      simp [hgone]
    · simp [hq]
  · intro q p
    have hpast : QueryMgr.Listed m.pastPeerQueryIndex q p ↔ _ := hk.pastPeers q p
    refine hpast.trans (and_congr_right fun hq => ?_)
    constructor
    · rintro ⟨l, hc, hp⟩
      exact ⟨l, (hcreated q l).mpr (.inl hc), hp⟩
    · rintro ⟨l, hc, hp⟩
      rcases (hcreated q l).mp hc with hold | ⟨rfl, -⟩
      · exact ⟨l, hold, hp⟩
      · exact absurd hq hnotPast

theorem Kept.indexQuery (hk : Kept history m) (results : Nat) :
    Kept (history ++ match m.started.find results with
      | none => []
      | some state => if m.initialized then [.created state.queryId state.query.peerIdList] else [])
      (m.indexQuery (π := π) results).2.1 := by
  cases hf : m.started.find results with
  | none =>
    rw [QueryMgr.indexQuery_none hf]
    exact hk.silent rfl fun q l h => by cases h
  | some state =>
    have hstarted : startedAs m results = some (state.queryId, state.query.peerIdList) := by
      unfold startedAs
      rw [hf]
      rfl
    cases hinit : m.initialized with
    | false =>
      -- nothing is on its way before an id was drawn
      have hdrawn := hk.startedDrawn results _ _ hstarted
      rw [hk.early hinit] at hdrawn
      cases hdrawn
    | true =>
      cases hold : m.activeQueryIndex.find state.queryId with
      | none =>
        rw [QueryMgr.indexQuery_new hf hinit hold]
        exact hk.create hf
      | some old =>
        have hactive : activeAs m state.queryId = some old.query.peerIdList := by
          unfold activeAs
          rw [hold]
          rfl
        exact absurd (hk.active _ _ hactive) (hk.startedNew results _ _ hstarted _)

/-- A query that was active is past. -/
theorem Kept.retire (hk : Kept history m) {state : QueryState}
    (hfind : m.activeQueryIndex.find queryId = some state)
    (hnew : m.pastQueryIndex.find queryId = none) :
    Kept history { m.retired queryId state with
      pastQueryIndex := m.pastQueryIndex.emplace queryId state.toPastQuery } := by
  have hactive : activeAs m queryId = some state.query.peerIdList := by
    unfold activeAs
    rw [hfind]
    rfl
  have hcreated := hk.active queryId _ hactive
  have hactiveAs : ∀ q, activeAs { m.retired queryId state with
      pastQueryIndex := m.pastQueryIndex.emplace queryId state.toPastQuery } q =
        if q = queryId then none else activeAs m q := by
    intro q
    unfold activeAs QueryMgr.retired
    rw [UMap.find_erase]
    split
    · rfl
    · rfl
  have hisPast : ∀ q, IsPast { m.retired queryId state with
      pastQueryIndex := m.pastQueryIndex.emplace queryId state.toPastQuery } q ↔
        q = queryId ∨ IsPast m q := by
    intro q
    unfold IsPast
    rw [UMap.find_emplace, hnew]
    split
    · next hq => simp [hq]
    · next hq => simp [hq]
  have hnotPast : ¬ IsPast m queryId := by
    unfold IsPast
    rw [hnew]
    exact Bool.false_ne_true
  have hlisted : ∀ p, p ∈ state.query.peerIdList → (m.activePeerQueryIndex.find p).isSome := by
    intro p hp
    obtain ⟨idList, hlist, -⟩ := (hk.activePeers queryId p).mpr ⟨_, hactive, hp⟩
    rw [hlist]
    rfl
  exact { hk with
    active := by
      intro q l h
      rw [hactiveAs] at h
      split at h
      · cases h
      · exact hk.active q l h
    past := by
      intro q h
      rcases (hisPast q).mp h with rfl | hold
      · exact ⟨_, hcreated⟩
      · exact hk.past q hold
    oneIndex := by
      intro q l h
      rw [hactiveAs, hisPast]
      by_cases hq : q = queryId
      · rw [if_pos hq]
        exact .inr ⟨.inl hq, by simp⟩
      · rw [if_neg hq]
        simpa [hq] using hk.oneIndex q l h
    activePeers := by
      intro q p
      have hmoved := (QueryMgr.listed_foldl_move queryId q state.query.peerIdList
        m.activePeerQueryIndex m.pastPeerQueryIndex p).1
      rw [hactiveAs]
      refine hmoved.trans ?_
      rw [hk.activePeers]
      by_cases hq : q = queryId
      · subst hq
        simp [hactive]
      · simp [hq]
    pastPeers := by
      intro q p
      have hmoved := (QueryMgr.listed_foldl_move queryId q state.query.peerIdList
        m.activePeerQueryIndex m.pastPeerQueryIndex p).2
      rw [hisPast]
      refine hmoved.trans ?_
      rw [hk.pastPeers]
      by_cases hq : q = queryId
      · subst hq
        have hpeer : HasPeer history q p ↔ p ∈ state.query.peerIdList := by
          constructor
          · rintro ⟨l, hc, hp⟩
            exact hk.createdOnce q l _ hc hcreated ▸ hp
          · exact fun hp => ⟨_, hcreated, hp⟩
        simp only [hnotPast, false_and, false_or, true_and, true_or, hpeer]
        exact ⟨fun h => h.1, fun h => ⟨h, hlisted p h⟩⟩
      · simp [hq] }

theorem Kept.cancelQuery (hk : Kept history m) (queryId : Nat) :
    Kept history (m.cancelQuery (π := π) queryId).2.1 := by
  cases hinit : m.initialized with
  | false =>
    rw [QueryMgr.cancelQuery_early hinit]
    exact hk
  | true =>
    cases hf : m.activeQueryIndex.find queryId with
    | none =>
      rw [QueryMgr.cancelQuery_none hf]
      exact hk
    | some state =>
      cases hold : m.pastQueryIndex.find queryId with
      | none =>
        rw [QueryMgr.cancelQuery_past hinit hf hold]
        exact hk.retire hf hold
      | some pastState =>
        have hactive : activeAs m queryId = some state.query.peerIdList := by
          unfold activeAs
          rw [hf]
          rfl
        have hpast : IsPast m queryId := by
          unfold IsPast
          rw [hold]
          rfl
        rcases hk.oneIndex queryId _ (hk.active queryId _ hactive) with ⟨-, hn⟩ | ⟨-, hn⟩
        · exact absurd hpast hn
        · rw [hactive] at hn
          exact absurd rfl hn

theorem sameRegistry_complete (m : QueryMgr δ) (queryId : Nat) :
    SameRegistry m (m.complete queryId) := by
  unfold QueryMgr.complete
  cases hf : m.activeQueryIndex.find queryId with
  | none => exact ⟨rfl, rfl, fun _ => rfl, fun _ => rfl, fun _ => Iff.rfl, rfl, rfl⟩
  | some state =>
    refine ⟨rfl, rfl, fun _ => rfl, fun q => ?_, fun _ => Iff.rfl, rfl, rfl⟩
    unfold activeAs
    rw [UMap.find_assign]
    split
    · next hq =>
      rw [hq, hf]
      rfl
    · rfl

theorem sameRegistry_completeStarted (m : QueryMgr δ) (results : Nat) :
    SameRegistry m (m.completeStarted results) := by
  unfold QueryMgr.completeStarted
  cases hf : m.started.find results with
  | none => exact ⟨rfl, rfl, fun _ => rfl, fun _ => rfl, fun _ => Iff.rfl, rfl, rfl⟩
  | some state =>
    refine ⟨rfl, rfl, fun a => ?_, fun _ => rfl, fun _ => Iff.rfl, rfl, rfl⟩
    unfold startedAs
    rw [UMap.find_assign]
    split
    · next ha =>
      rw [ha, hf]
      rfl
    · rfl

/-- A list of ids is no news of a query. -/
theorem Kept.answered (hk : Kept history m) (event : RegistryEvent) (hdrawn : drawnIds [event] = [])
    (hcreated : ∀ q l, event ≠ .created q l) (b : Bool) :
    Kept (history ++ if b then [event] else []) m := by
  cases b with
  | false => exact hk.silent rfl fun q l h => by cases h
  | true => exact hk.silent hdrawn fun q l h => hcreated q l (List.mem_singleton.mp h).symm

theorem Kept.step [ResourceHash] (hk : Kept history m) {call : RegistryCall π δ}
    (hok : StepListed history m call) : Kept (history ++ told m call) (after m call) := by
  have hsilent : ∀ {m' : QueryMgr δ}, Kept history m' → Kept (history ++ []) m' := by
    intro m' hk'
    exact hk'.silent rfl fun q l h => by cases h
  have htouched : ∀ input : QueryMgr.Input π δ, input.Touches →
      Kept history (m.call input).2.1 := fun input ht =>
    hk.same (sameRegistry_of_touched (m.call_touched ht).1)
  cases call with
  | getAllActiveQueryIds queryIdList =>
    exact hk.answered (.activeQueryIds queryIdList) rfl (fun q l h => by cases h) _
  | getAllPastQueryIds queryIdList =>
    exact hk.answered (.pastQueryIds queryIdList) rfl (fun q l h => by cases h) _
  | call input inUse =>
    cases input with
    | initializeMgr maxConcurrent => exact hsilent (hk.initializeMgr maxConcurrent)
    | createQuery options peerIdList startQuery =>
      exact hk.createQuery options peerIdList startQuery hok
    | indexQuery results => exact hk.indexQuery results
    | cancelQuery queryId => exact hsilent (hk.cancelQuery queryId)
    | cancelAll peerId =>
      have hsame : after m (.call (.cancelAll peerId : QueryMgr.Input π δ) inUse) = m := by
        show (m.cancelAll (π := π) peerId).2.1 = m
        rw [QueryMgr.cancelAll_eq]
      rw [hsame]
      exact hk.answered (.activeQueryIds []) rfl (fun q l h => by cases h) _
    | registerResultCallback queryId callback => exact hsilent (htouched _ trivial)
    | handleQueryOffer peerId queryId verifyId offerPacket requestId =>
      exact hsilent (htouched _ trivial)
    | handleQueryReply peerId queryId verifyId replyPacket requestId =>
      exact hsilent (htouched _ trivial)
    | handleSendReceived peerId requestId => exact hsilent (htouched _ trivial)
    | handleSendFailure peerId requestId => exact hsilent (htouched _ trivial)
    | processTimedEvents => exact hsilent (htouched _ trivial)
    | cleanUp => exact absurd rfl inUse
    | complete queryId => exact hsilent (hk.same (sameRegistry_complete m queryId))
    | completeStarted results => exact hsilent (hk.same (sameRegistry_completeStarted m results))

/-! ## What a caller has -/

theorem cancelQuery_refused (m : QueryMgr δ) (queryId : Nat)
    (hfalse : (m.cancelQuery (π := π) queryId).1 = false) :
    (m.cancelQuery (π := π) queryId).2.1 = m := by
  cases hinit : m.initialized with
  | false => rw [QueryMgr.cancelQuery_early hinit]
  | true =>
    cases hf : m.activeQueryIndex.find queryId with
    | none => rw [QueryMgr.cancelQuery_none hf]
    | some state =>
      cases hold : m.pastQueryIndex.find queryId with
      | none =>
        rw [QueryMgr.cancelQuery_past hinit hf hold] at hfalse
        cases hfalse
      | some pastState =>
        rw [QueryMgr.cancelQuery_duplicate hinit hf (by rw [hold]; rfl)] at hfalse
        cases hfalse

/-- Which call tells what. -/
theorem told_cases {m : QueryMgr δ} {call : RegistryCall π δ} {event : RegistryEvent}
    (h : event ∈ told m call) : m.initialized = true ∧
      ((∃ queryId, event = .drawn queryId) ∨
        (∃ queryId peerIdList, event = .created queryId peerIdList) ∨
        (event = .activeQueryIds [] ∧ ∃ peerId inUse, call = .call (.cancelAll peerId) inUse) ∨
        (∃ ids, event = .activeQueryIds ids ∧ call = .getAllActiveQueryIds ids) ∨
        ∃ ids, event = .pastQueryIds ids ∧ call = .getAllPastQueryIds ids) := by
  have honly : ∀ {e : RegistryEvent}, event ∈ (if m.initialized then [e] else []) →
      m.initialized = true ∧ event = e := by
    intro e he
    split at he
    · next hinit => exact ⟨hinit, List.mem_singleton.mp he⟩
    · cases he
  cases call with
  | getAllActiveQueryIds ids =>
    obtain ⟨hinit, hevent⟩ := honly h
    exact ⟨hinit, .inr (.inr (.inr (.inl ⟨ids, hevent, rfl⟩)))⟩
  | getAllPastQueryIds ids =>
    obtain ⟨hinit, hevent⟩ := honly h
    exact ⟨hinit, .inr (.inr (.inr (.inr ⟨ids, hevent, rfl⟩)))⟩
  | call input inUse =>
    cases input with
    | createQuery =>
      obtain ⟨hinit, hevent⟩ := honly h
      exact ⟨hinit, .inl ⟨_, hevent⟩⟩
    | indexQuery results =>
      unfold told at h
      dsimp only at h
      cases hf : m.started.find results with
      | none =>
        rw [hf] at h
        cases h
      | some state =>
        rw [hf] at h
        obtain ⟨hinit, hevent⟩ := honly h
        exact ⟨hinit, .inr (.inl ⟨_, _, hevent⟩)⟩
    | cancelAll peerId =>
      obtain ⟨hinit, hevent⟩ := honly h
      exact ⟨hinit, .inr (.inr (.inl ⟨hevent, peerId, inUse, rfl⟩))⟩
    | _ => cases h

/-- The id that comes after the last one is not new. -/
theorem Kept.ids_left (hk : Kept history m)
    (hfresh : (drawnIds (history ++ [RegistryEvent.drawn m.currQueryId])).Nodup) :
    (drawnIds history).length < 2 ^ 64 := by
  rcases Nat.lt_or_eq_of_le hk.bounded with hlt | hall
  · exact hlt
  · exfalso
    have hids : drawnIds (history ++ [RegistryEvent.drawn m.currQueryId]) =
        drawnIds history ++ [m.currQueryId] := List.filterMap_append
    have hzero : m.currQueryId = 0 := by rw [hk.counter, hall, Nat.mod_self]
    have hmem : 0 ∈ drawnIds history := by
      rw [hk.drawn, List.mem_range, hall]
      exact Nat.two_pow_pos 64
    rw [hids, hzero] at hfresh
    exact (List.nodup_append.mp hfresh).2.2 0 hmem 0 (List.mem_singleton_self 0) rfl

theorem Kept.stepSound_iff [ResourceHash] (hk : Kept history m) (call : RegistryCall π δ) :
    StepSound history m call ↔ StepListed history m call := by
  constructor
  · intro hs hinit
    have htold : ∀ e : RegistryEvent, e ∈ if m.initialized then [e] else [] := by
      intro e
      rw [if_pos hinit]
      exact List.mem_singleton_self e
    cases call with
    | getAllActiveQueryIds queryIdList => exact hs.active queryIdList (htold _)
    | getAllPastQueryIds queryIdList => exact hs.past queryIdList (htold _)
    | call input inUse =>
      cases input with
      | createQuery options peerIdList startQuery =>
        have hfresh : (drawnIds (history ++ if m.initialized then
            [RegistryEvent.drawn m.currQueryId]
          else [])).Nodup := hs.registered.fresh
        rw [if_pos hinit] at hfresh
        exact hk.ids_left hfresh
      | cancelAll peerId => exact List.nil_perm.mp (hs.active [] (htold _))
      | _ => trivial
  · intro hl
    refine ⟨(hk.step hl).registered, ?_, ?_, ?_⟩
    · rintro queryId h rfl hfalse
      exact cancelQuery_refused m queryId hfalse
    · intro queryIdList hmem
      obtain ⟨hinit, ⟨_, he⟩ | ⟨_, _, he⟩ | ⟨he, _, _, rfl⟩ | ⟨_, he, rfl⟩ | ⟨_, he, -⟩⟩ :=
        told_cases hmem <;> cases he
      · have hnone : m.activeQueryIndex.keys = [] := hl hinit
        rw [hnone]
      · exact hl hinit
    · intro queryIdList hmem
      obtain ⟨hinit, ⟨_, he⟩ | ⟨_, _, he⟩ | ⟨he, -⟩ | ⟨_, he, -⟩ | ⟨_, he, rfl⟩⟩ :=
        told_cases hmem <;> cases he
      exact hl hinit

/-- In a run from the start every step does as it should exactly if every step meets the
condition. -/
theorem along_registered_iff [ResourceHash] (calls : List (RegistryCall π δ)) :
    machine.Along StepSound [] (QueryMgr.new : QueryMgr δ) calls ↔
      machine.Along StepListed [] (QueryMgr.new : QueryMgr δ) calls :=
  Machine.along_congr (fun _ _ _ hk hl => hk.step hl) (fun _ _ call hk => hk.stepSound_iff call)
    kept_new

/-- A query is created, and its manager is asked for the ids. -/
def oneCreated : List (RegistryCall Empty Empty) :=
  [.call (.initializeMgr 10) (fun h => by cases h),
    .call (.createQuery ⟨"default", .empty, 100, 128⟩ [5] true) (fun h => by cases h),
    .call (.indexQuery 0) (fun h => by cases h),
    .getAllActiveQueryIds []]

theorem oneCreated_not_registered :
    let _ := ResourceHash.bySize
    ¬ machine.Along StepSound [] (QueryMgr.new : QueryMgr Empty) oneCreated := by
  rintro _ ⟨-, -, -, hs, -⟩
  have hperm := hs.active [] (List.mem_singleton_self _)
  exact absurd (List.nil_perm.mp hperm) (by decide)

end QueryRegistry

end Alpine
