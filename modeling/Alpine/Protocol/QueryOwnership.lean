import Alpine.Protocol.QuerySteps

/-!
# Who owns the results of a query

Every results object is owned by one query: an active one, a past one, or one on its way to the
index. `Sound` says so, and every operation of the manager keeps it and uses no object after its
release (`Sound.call`).
-/

namespace Alpine

open Lib

variable {π δ : Type}

namespace QueryMgr

/-- Where a query state is. -/
inductive Holder where
  | active (queryId : Nat)
  | past (queryId : Nat)
  | started (results : Nat)
  deriving DecidableEq

/-- The results that the state at a place holds. -/
def owner (m : QueryMgr δ) : Holder → Option Nat
  | .active queryId => (m.activeQueryIndex.find queryId).map (·.results)
  | .past queryId => (m.pastQueryIndex.find queryId).map (·.results)
  | .started results => (m.started.find results).map (·.results)

structure Sound (m : QueryMgr δ) : Prop where
  owned : Heap.Owned m.heap m.owner
  key : ∀ results state, m.started.find results = some state → state.results = results
  closed : m.initialized = false → m.activeQueryIndex = ∅ ∧ m.pastQueryIndex = ∅

/-- No object is used after its release, and none is released twice. -/
def NoFault (events : List (MgrEvent π δ)) : Prop := ∀ a, .usedAfterRelease a ∉ events

theorem noFault_nil : NoFault ([] : List (MgrEvent π δ)) := fun _ => List.not_mem_nil

theorem sound_new : Sound (new : QueryMgr δ) := by
  refine ⟨?_, fun _ _ h => (by cases h), fun _ => ⟨rfl, rfl⟩⟩
  have howner : (new : QueryMgr δ).owner = fun _ => none := by
    funext i
    cases i <;> rfl
  rw [howner]
  exact Heap.owned_empty

variable {m : QueryMgr δ}

theorem owner_active {queryId : Nat} {state : QueryState}
    (hfind : m.activeQueryIndex.find queryId = some state) :
    m.owner (.active queryId) = some state.results :=
  congrArg (Option.map _) hfind

theorem owner_past {queryId : Nat} {state : PastQuery}
    (hfind : m.pastQueryIndex.find queryId = some state) :
    m.owner (.past queryId) = some state.results :=
  congrArg (Option.map _) hfind

theorem owner_started {results : Nat} {state : QueryState}
    (hfind : m.started.find results = some state) :
    m.owner (.started results) = some state.results :=
  congrArg (Option.map _) hfind

/-! ## Each operation -/

theorem Sound.touched {m' : QueryMgr δ} (hs : Sound m) (h : Touched m m') : Sound m' := by
  have howner : m'.owner = m.owner := by
    funext i
    cases i with
    | active queryId =>
      show (m'.activeQueryIndex.find queryId).map _ = (m.activeQueryIndex.find queryId).map _
      have hactive := congrArg (Option.map fun state : QueryState => state.results) (h.active queryId)
      rw [Option.map_map, Option.map_map] at hactive
      exact hactive
    | past queryId => exact congrArg (fun index => (UMap.find index queryId).map (·.results)) h.past
    | started results =>
      exact congrArg (fun index => (UMap.find index results).map (·.results)) h.started
  refine ⟨?_, ?_, fun hinit => ?_⟩
  · rw [howner]
    exact hs.owned.congr h.live
  · rw [h.started]
    exact hs.key
  · obtain ⟨hactive, hpast⟩ := hs.closed (h.initialized ▸ hinit)
    refine ⟨?_, h.past.trans hpast⟩
    refine UMap.eq_empty_of_find fun queryId => ?_
    have hmap := h.active queryId
    rw [hactive] at hmap
    exact Option.map_eq_none_iff.mp hmap

theorem Sound.noFault {events : List (MgrEvent π δ)} (hs : Sound m) (h : FaultsActive m events) :
    NoFault events := by
  intro a hmem
  obtain ⟨queryId, state, hfind, rfl, hnone⟩ := (h a).1 hmem
  have hlive := hs.owned.isSome (owner_active hfind)
  rw [hnone] at hlive
  cases hlive

theorem Sound.initializeMgr (hs : Sound m) (maxConcurrent : Nat) :
    Sound (m.initializeMgr maxConcurrent).2 := by
  unfold QueryMgr.initializeMgr
  split
  · exact hs
  · next hinit =>
    obtain ⟨hactive, hpast⟩ := hs.closed (by simpa using hinit)
    refine ⟨?_, hs.key, fun h => (by cases h)⟩
    have hsame : owner { m with
        initialized := true
        maxConcurrent
        activeQueryIndex := ∅
        pastQueryIndex := ∅
        activePeerQueryIndex := ∅
        pastPeerQueryIndex := ∅ } = m.owner := by
      funext i
      cases i with
      | active queryId => unfold owner; rw [hactive]
      | past queryId => unfold owner; rw [hpast]
      | started results => rfl
    rw [hsame]
    exact hs.owned

/-- The address of the next object is no key of a query on its way. -/
theorem Sound.started_next (hs : Sound m) : m.started.find m.heap.next = none := by
  cases hf : m.started.find m.heap.next with
  | none => rfl
  | some state =>
    have hkey := hs.key _ state hf
    exact absurd hkey (hs.owned.ne_next (owner_started hf))

theorem Sound.createQuery (hs : Sound m) (options : QueryOptions) (peerIdList : List Nat)
    (startQuery : Bool) :
    Sound (m.createQuery (π := π) options peerIdList startQuery).2.1 ∧
      NoFault (m.createQuery (π := π) options peerIdList startQuery).2.2 := by
  cases hinit : m.initialized with
  | false =>
    rw [createQuery_early hinit]
    exact ⟨hs, noFault_nil⟩
  | true =>
    cases startQuery with
    | false =>
      rw [createQuery_failed hinit]
      refine ⟨⟨?_, hs.key, hs.closed⟩, fun a => by simp⟩
      refine hs.owned.congr fun a => ?_
      show (((m.allocated options).heap.free m.heap.next).get a).isSome = _
      rw [Heap.get_free]
      by_cases ha : a = m.heap.next
      · simp [ha]
      · simp [ha, allocated]
    | true =>
      rw [createQuery_started hinit]
      refine ⟨⟨?_, ?_, hs.closed⟩, noFault_nil⟩
      · refine hs.owned.alloc (i := .started m.heap.next) _ ?_ (fun i => ?_) ?_
        · exact congrArg (Option.map _) hs.started_next
        · cases i with
          | active queryId => exact .inl rfl
          | past queryId => exact .inl rfl
          | started results =>
            have hfind : owner { m.allocated options with
                started := m.started.assign m.heap.next (m.newState options peerIdList) }
                  (.started results) =
                if results = m.heap.next then some m.heap.next else m.owner (.started results) := by
              show (UMap.find (m.started.assign _ _) results).map _ = _
              rw [UMap.find_assign]
              split <;> rfl
            by_cases hr : results = m.heap.next
            · exact .inr ⟨by rw [hr], hfind.trans (if_pos hr)⟩
            · exact .inl (hfind.trans (if_neg hr))
        · show (UMap.find (m.started.assign _ _) m.heap.next).map _ = _
          rw [UMap.find_assign, if_pos rfl]
          rfl
      · intro results state hfind
        rw [UMap.find_assign] at hfind
        split at hfind
        · next hr =>
          injection hfind with hfind
          rw [hr, ← hfind]
          rfl
        · exact hs.key results state hfind

/-- A state is deleted with its results: it was the only owner. -/
theorem Sound.release {n : QueryMgr δ} (hs : Sound m) {i : Holder} {a : Nat}
    (hi : m.owner i = some a) (hheap : n.heap = m.heap)
    (hown : ∀ j, j ≠ i → n.owner j = m.owner j) (hnew : n.owner i = none)
    (hkey : ∀ results state, n.started.find results = some state → state.results = results)
    (hclosed : n.initialized = false → n.activeQueryIndex = ∅ ∧ n.pastQueryIndex = ∅) :
    Sound (n.release (π := π) a).1 ∧ NoFault (n.release (π := π) a).2 := by
  have hlive : (n.heap.get a).isSome := by
    rw [hheap]
    exact hs.owned.isSome hi
  rw [release_live hlive]
  refine ⟨⟨?_, hkey, hclosed⟩, fun b => by simp⟩
  show Heap.Owned (n.heap.free a) n.owner
  rw [hheap]
  exact hs.owned.free hi hown hnew

theorem key_erase (hs : Sound m) (results : Nat) : ∀ r state,
    (m.started.erase results).find r = some state → state.results = r := by
  intro r state hfind
  rw [UMap.find_erase] at hfind
  split at hfind
  · cases hfind
  · exact hs.key r state hfind

theorem owner_arrived (m : QueryMgr δ) (results : Nat) :
    (m.arrived results).owner (.started results) = none ∧
      ∀ j, j ≠ .started results → (m.arrived results).owner j = m.owner j := by
  constructor
  · show (UMap.find (m.started.erase results) results).map _ = none
    rw [UMap.find_erase, if_pos rfl]
    rfl
  · intro j hj
    cases j with
    | active queryId => rfl
    | past queryId => rfl
    | started r =>
      show (UMap.find (m.started.erase results) r).map _ = _
      rw [UMap.find_erase, if_neg (fun h => hj (by rw [h]))]
      rfl

theorem Sound.indexQuery (hs : Sound m) (results : Nat) :
    Sound (m.indexQuery (π := π) results).2.1 ∧
      NoFault (m.indexQuery (π := π) results).2.2 := by
  cases hf : m.started.find results with
  | none =>
    rw [indexQuery_none hf]
    exact ⟨hs, noFault_nil⟩
  | some state =>
    obtain ⟨hnone, hsame⟩ := m.owner_arrived results
    cases hinit : m.initialized with
    | false =>
      rw [indexQuery_early hf hinit]
      obtain ⟨hs', hevents⟩ := hs.release (π := π) (n := m.arrived results) (owner_started hf) rfl
        hsame hnone (key_erase hs results) hs.closed
      refine ⟨hs', fun a hmem => ?_⟩
      rcases List.mem_cons.mp hmem with h | h
      · cases h
      · exact hevents a h
    | true =>
      cases hold : m.activeQueryIndex.find state.queryId with
      | some _ =>
        rw [indexQuery_duplicate hf hinit (by rw [hold]; rfl)]
        exact hs.release (n := (m.arrived results).listed state) (owner_started hf) rfl hsame hnone
          (key_erase hs results) hs.closed
      | none =>
        rw [indexQuery_new hf hinit hold]
        refine ⟨⟨?_, key_erase hs results, fun h => ?_⟩, noFault_nil⟩
        · refine hs.owned.move (i := .started results) (j := .active state.queryId)
            (fun h => (by cases h)) ?_ (fun k hki hkj => ?_) hnone ?_
          · exact congrArg (Option.map _) hold
          · cases k with
            | active queryId =>
              show (UMap.find (m.activeQueryIndex.emplace _ _) queryId).map _ = _
              rw [UMap.find_emplace, if_neg (fun h => hkj (by rw [h]))]
              rfl
            | past queryId => rfl
            | started r => exact hsame _ hki
          · show (UMap.find (m.activeQueryIndex.emplace _ _) state.queryId).map _ = _
            rw [UMap.find_emplace, if_pos rfl, hold, owner_started hf]
            rfl
        · have hfalse : m.initialized = false := h
          rw [hinit] at hfalse
          cases hfalse

theorem owner_retired (m : QueryMgr δ) (queryId : Nat) (state : QueryState) :
    (m.retired queryId state).owner (.active queryId) = none ∧
      ∀ j, j ≠ .active queryId → (m.retired queryId state).owner j = m.owner j := by
  constructor
  · show (UMap.find (m.activeQueryIndex.erase queryId) queryId).map _ = none
    rw [UMap.find_erase, if_pos rfl]
    rfl
  · intro j hj
    cases j with
    | active q =>
      show (UMap.find (m.activeQueryIndex.erase queryId) q).map _ = _
      rw [UMap.find_erase, if_neg (fun h => hj (by rw [h]))]
      rfl
    | past q => rfl
    | started r => rfl

theorem Sound.cancelQuery (hs : Sound m) (queryId : Nat) :
    Sound (m.cancelQuery (π := π) queryId).2.1 ∧
      NoFault (m.cancelQuery (π := π) queryId).2.2 := by
  cases hinit : m.initialized with
  | false =>
    rw [cancelQuery_early hinit]
    exact ⟨hs, noFault_nil⟩
  | true =>
    have hready : ∀ {p : Prop}, m.initialized = false → p := fun h => by
      rw [hinit] at h
      cases h
    cases hf : m.activeQueryIndex.find queryId with
    | none =>
      rw [cancelQuery_none hf]
      exact ⟨hs, noFault_nil⟩
    | some state =>
      obtain ⟨hnone, hsame⟩ := m.owner_retired queryId state
      cases hold : m.pastQueryIndex.find queryId with
      | some _ =>
        rw [cancelQuery_duplicate hinit hf (by rw [hold]; rfl)]
        exact hs.release (n := m.retired queryId state) (owner_active hf) rfl hsame hnone hs.key
          hready
      | none =>
        rw [cancelQuery_past hinit hf hold]
        refine ⟨⟨?_, hs.key, hready⟩, noFault_nil⟩
        refine hs.owned.move (i := .active queryId) (j := .past queryId) (fun h => (by cases h)) ?_
          (fun k hki hkj => ?_) hnone ?_
        · exact congrArg (Option.map _) hold
        · cases k with
          | active q => exact hsame _ hki
          | past q =>
            show (UMap.find (m.pastQueryIndex.emplace _ _) q).map _ = _
            rw [UMap.find_emplace, if_neg (fun h => hkj (by rw [h]))]
            rfl
          | started r => rfl
        · show (UMap.find (m.pastQueryIndex.emplace _ _) queryId).map _ = _
          rw [UMap.find_emplace, if_pos rfl, hold, owner_active hf]
          rfl

/-- Only the objects at the addresses go, and all of them were there. -/
theorem releaseEach_owned {ps : List (Holder × Nat)} {own : Holder → Option Nat}
    (ho : Heap.Owned m.heap own) (hnodup : (ps.map Prod.fst).Nodup)
    (hps : ∀ p ∈ ps, own p.1 = some p.2) :
    (m.releaseEach (π := π) (ps.map Prod.snd)).1.heap = m.heap.freeEach (ps.map Prod.snd) ∧
      NoFault (m.releaseEach (π := π) (ps.map Prod.snd)).2 := by
  induction ps generalizing m own with
  | nil => exact ⟨rfl, noFault_nil⟩
  | cons p ps ih =>
    obtain ⟨hp, hnodup⟩ := List.nodup_cons.mp hnodup
    have hown := hps p List.mem_cons_self
    have hfree : (m.heap.free p.2).Owned fun j => if j = p.1 then none else own j :=
      ho.free hown (fun j hj => if_neg hj) (if_pos rfl)
    have hrelease := release_live (π := π) (ho.isSome hown)
    have hrest := ih (m := { m with heap := m.heap.free p.2 }) hfree hnodup fun q hq => by
      have hne : q.1 ≠ p.1 := fun he => hp (he ▸ List.mem_map_of_mem hq)
      rw [if_neg hne]
      exact hps q (List.mem_cons_of_mem _ hq)
    simp only [List.map_cons, releaseEach, hrelease]
    refine ⟨hrest.1, fun a hmem => ?_⟩
    rcases List.mem_append.mp hmem with h | h
    · simp at h
    · exact hrest.2 a h

/-- The states of the indexes, with the addresses they hold. -/
def holders (m : QueryMgr δ) : List (Holder × Nat) :=
  m.activeQueryIndex.entries.map (fun e => (Holder.active e.1, e.2.results)) ++
    m.pastQueryIndex.entries.map (fun e => (Holder.past e.1, e.2.results))

theorem holders_snd (m : QueryMgr δ) : m.holders.map Prod.snd = m.held := by
  simp [holders, held, Function.comp_def]

theorem holders_nodup (m : QueryMgr δ) : (m.holders.map Prod.fst).Nodup := by
  have hactive : (m.activeQueryIndex.entries.map Sigma.fst).Nodup := m.activeQueryIndex.nodupKeys
  have hpast : (m.pastQueryIndex.entries.map Sigma.fst).Nodup := m.pastQueryIndex.nodupKeys
  have hfst : m.holders.map Prod.fst = (m.activeQueryIndex.entries.map Sigma.fst).map Holder.active ++
      (m.pastQueryIndex.entries.map Sigma.fst).map Holder.past := by
    simp [holders, Function.comp_def]
  rw [hfst]
  refine List.nodup_append.mpr ⟨hactive.map fun a b h => by injection h,
    hpast.map fun a b h => by injection h, fun i hi j hj hij => ?_⟩
  obtain ⟨q, -, rfl⟩ := List.mem_map.mp hi
  obtain ⟨q', -, rfl⟩ := List.mem_map.mp hj
  cases hij

theorem mem_holders {p : Holder × Nat} :
    p ∈ m.holders ↔ m.owner p.1 = some p.2 ∧ ∀ results, p.1 ≠ .started results := by
  unfold holders
  obtain ⟨i, a⟩ := p
  simp only [List.mem_append, List.mem_map, Prod.mk.injEq, Sigma.exists, UMap.mem_entries]
  cases i with
  | active queryId => simp [owner, Option.map_eq_some_iff]
  | past queryId => simp [owner, Option.map_eq_some_iff]
  | started results => simp

theorem Sound.cleanUp (hs : Sound m) :
    Sound (m.cleanUp (π := π)).1 ∧ NoFault (m.cleanUp (π := π)).2 := by
  cases hinit : m.initialized with
  | false =>
    rw [cleanUp_early hinit]
    exact ⟨hs, noFault_nil⟩
  | true =>
    rw [cleanUp_ready hinit]
    have hps : ∀ p ∈ m.holders, m.owner p.1 = some p.2 := fun p hp => (mem_holders.mp hp).1
    obtain ⟨hheap, hevents⟩ := releaseEach_owned (π := π) hs.owned m.holders_nodup hps
    rw [holders_snd] at hheap hevents
    refine ⟨⟨?_, hs.key, fun _ => ⟨rfl, rfl⟩⟩, hevents⟩
    show Heap.Owned (m.releaseEach (π := π) m.held).1.heap _
    rw [hheap, ← holders_snd]
    refine hs.owned.freeEach m.holders_nodup hps (fun j hj => ?_) fun p hp => ?_
    · cases j with
      | started results => rfl
      | active queryId =>
        cases hown : m.owner (.active queryId) with
        | none => rfl
        | some a =>
          exact absurd (List.mem_map_of_mem (f := Prod.fst)
            ((mem_holders (p := (.active queryId, a))).mpr ⟨hown, fun _ h => by cases h⟩)) hj
      | past queryId =>
        cases hown : m.owner (.past queryId) with
        | none => rfl
        | some a =>
          exact absurd (List.mem_map_of_mem (f := Prod.fst)
            ((mem_holders (p := (.past queryId, a))).mpr ⟨hown, fun _ h => by cases h⟩)) hj
    · obtain ⟨i, a⟩ := p
      have hne := (mem_holders.mp hp).2
      cases i with
      | active queryId => rfl
      | past queryId => rfl
      | started results => exact absurd rfl (hne results)

theorem Sound.complete (hs : Sound m) (queryId : Nat) : Sound (m.complete queryId) := by
  unfold QueryMgr.complete
  cases hf : m.activeQueryIndex.find queryId with
  | none => exact hs
  | some state =>
    refine ⟨?_, hs.key, fun h => ?_⟩
    · have howner : owner { m with
          activeQueryIndex := m.activeQueryIndex.assign queryId (finished state) } = m.owner := by
        funext i
        cases i with
        | active q =>
          show (UMap.find (m.activeQueryIndex.assign queryId _) q).map _ = _
          rw [UMap.find_assign]
          split
          · next hq => rw [hq, owner_active hf]; rfl
          · rfl
        | past q => rfl
        | started r => rfl
      rw [howner]
      exact hs.owned
    · rw [(hs.closed h).1] at hf
      cases hf

theorem Sound.completeStarted (hs : Sound m) (results : Nat) : Sound (m.completeStarted results) := by
  unfold QueryMgr.completeStarted
  cases hf : m.started.find results with
  | none => exact hs
  | some state =>
    refine ⟨?_, fun r st hfind => ?_, hs.closed⟩
    · have howner : owner { m with
          started := m.started.assign results (finished state) } = m.owner := by
        funext i
        cases i with
        | active q => rfl
        | past q => rfl
        | started r =>
          show (UMap.find (m.started.assign results _) r).map _ = _
          rw [UMap.find_assign]
          split
          · next hr => rw [hr, owner_started hf]; rfl
          · rfl
      rw [howner]
      exact hs.owned
    · rw [UMap.find_assign] at hfind
      split at hfind
      · next hr =>
        injection hfind with hfind
        rw [hr, ← hs.key results state hf, ← hfind]
        rfl
      · exact hs.key r st hfind

theorem Sound.call [ResourceHash] (hs : Sound m) (input : Input π δ) :
    Sound (m.call input).2.1 ∧ NoFault (m.call input).2.2 := by
  by_cases htouch : input.Touches
  · obtain ⟨htouched, hfaults⟩ := m.call_touched htouch
    exact ⟨hs.touched htouched, hs.noFault hfaults⟩
  cases input with
  | initializeMgr maxConcurrent => exact ⟨hs.initializeMgr maxConcurrent, noFault_nil⟩
  | createQuery options peerIdList startQuery => exact hs.createQuery options peerIdList startQuery
  | indexQuery results => exact hs.indexQuery results
  | cancelQuery queryId => exact hs.cancelQuery queryId
  | cleanUp => exact hs.cleanUp
  | complete queryId => exact ⟨hs.complete queryId, noFault_nil⟩
  | completeStarted results => exact ⟨hs.completeStarted results, noFault_nil⟩
  | cancelAll | registerResultCallback | handleQueryOffer | handleQueryReply | handleSendReceived
  | handleSendFailure | processTimedEvents => exact absurd trivial htouch

/-- In every run no results object is used or released after its release, and each one that is
allocated is in one place: an active, a past or a starting query. -/
theorem owned_run [ResourceHash] (inputs : List (Input π δ)) :
    Heap.Owned (machine.run (new : QueryMgr δ) inputs).1.heap
        (machine.run (new : QueryMgr δ) inputs).1.owner ∧
      NoFault (machine.run (new : QueryMgr δ) inputs).2 := by
  have hkept := Machine.run_invariant (M := machine) (I := fun events m => Sound m ∧ NoFault events)
    (fun _ _ input h => ⟨(h.1.call input).1, fun a hmem =>
      (List.mem_append.mp hmem).elim (h.2 a) ((h.1.call input).2 a)⟩)
    (h := []) inputs ⟨sound_new, noFault_nil⟩
  exact ⟨hkept.1.owned, hkept.2⟩

end QueryMgr

end Alpine
