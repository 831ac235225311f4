import Alpine.Lib.Places
import Alpine.VfsUtils.QueryCache

/-!
# Runs of the query cache

A query that was started has a place: the node of its term, or the hand of the thread that has
started it and not yet put it into the index (`place`). `Sound` says that every query has one, since
nothing cancels a query, and that no two places have one for the same term. A run is good exactly if
nothing is ever taken out of the index, a query is started only for a term that has none, a thread
finds the node that it has a reference to, and no call takes so long that its entry grows older than
the time to live (`along_good_iff`). What is taken out is decided by the converted time to live,
which is that of the caller up to 292 years (`isExpired_eq_isOlder`).
-/

namespace Alpine

open Lib

namespace CachePc

variable {ρ σ : Type}

/-- The query that a thread has started and not yet put into the index, with its term. -/
def inHand : CachePc ρ σ → Option (String × Nat)
  | .started searchTerm _ queryId => some (searchTerm, queryId)
  | .fetched searchTerm _ entry => some (searchTerm, entry.queryId)
  | _ => none

end CachePc

namespace CacheState

variable {ρ σ : Type}

/-- The query at a term of the index or in the hand of a thread. -/
def place (s : CacheState ρ σ) : String ⊕ Nat → Option (String × Nat)
  | .inl searchTerm =>
    (s.queryIndex.find searchTerm).map fun node => (searchTerm, node.entry.queryId)
  | .inr t => (s.threads t).inHand

def termAt (s : CacheState ρ σ) (i : String ⊕ Nat) : Option String := (s.place i).map Prod.fst

/-- No two queries are started for a term while one of them has a place, and every query that was
started has one. -/
structure Sound (s : CacheState ρ σ) : Prop where
  oneQuery : Exclusive s.termAt
  kept : ∀ (queryId : Nat) searchTerm, s.started[queryId]? = some searchTerm →
    ∃ i, s.place i = some (searchTerm, queryId)

/-- Older than the seconds that the caller of `initialize` gave. -/
def isOlder (s : CacheState ρ σ) (entry : CachedQuery ρ σ) : Bool :=
  s.elapsed entry > s.ttlSeconds * 1000000000

/-- A time to live that fits is converted as it is. -/
theorem isExpired_eq_isOlder {s : CacheState ρ σ} (hfits : s.ttlSeconds * 1000000000 < 2 ^ 63)
    (entry : CachedQuery ρ σ) : s.isExpired entry = s.isOlder entry := by
  have httl : s.ttl = s.ttlSeconds * 1000000000 := Int.bmod_eq_of_le (by omega) (by omega)
  unfold isExpired isOlder
  rw [httl]

/-- The next section is under the lock for reading. -/
def isReader (s : CacheState ρ σ) : CacheStep ρ σ → Bool
  | .proceed t _ =>
    match s.threads t with
    | .evicted _ => true
    | _ => false
  | .isCached _ => true
  | .getAllTerms => true
  | _ => false

variable [Inhabited ρ] [Inhabited σ]

/-- What must hold of a step. -/
structure StepGood (_ : List (CacheEvent ρ σ)) (s : CacheState ρ σ) (a : CacheStep ρ σ) : Prop where
  live : ∀ searchTerm, .erasedUsed searchTerm ∉ (s.step a).2
  sound : Sound (s.step a).1
  fresh : ∀ cached, .returned cached ∈ (s.step a).2 → s.isOlder cached = false
  readers : s.isReader a = true → (s.step a).1.queryIndex = s.queryIndex

omit [Inhabited ρ] [Inhabited σ] in
/-- Nothing in the index passes for expired. -/
def NoneExpired (s : CacheState ρ σ) : Prop :=
  ∀ searchTerm node, s.queryIndex.find searchTerm = some node → s.isExpired node.entry = false

omit [Inhabited ρ] [Inhabited σ] in
/-- The exact condition on the next part of a thread's call. -/
def PartFits (s : CacheState ρ σ) (answers : StackAnswers ρ σ) : CachePc ρ σ → Prop
  | .evicted searchTerm => ∀ node, s.queryIndex.find searchTerm = some node →
    node.entry.complete = true → s.isOlder node.entry = false
  | .refreshing searchTerm address => ∃ node, s.queryIndex.find searchTerm = some node ∧
    node.address = address ∧ s.isOlder node.entry = false
  | .missed searchTerm _ => answers.accepted = true →
    ∀ i queryId, s.place i ≠ some (searchTerm, queryId)
  | .fetched _ creates entry => creates = true → s.isOlder entry = false
  | _ => True

omit [Inhabited ρ] [Inhabited σ] in
def StepFits (_ : List (CacheEvent ρ σ)) (s : CacheState ρ σ) : CacheStep ρ σ → Prop
  | .getOrCreateQuery t _ =>
    match s.threads t with
    | .idle => s.NoneExpired
    | _ => True
  | .refreshQuery t searchTerm =>
    match s.threads t with
    | .idle => s.queryIndex.find searchTerm = none
    | _ => True
  | .proceed t answers => s.PartFits answers (s.threads t)
  | .evictExpired => s.NoneExpired
  | .remove searchTerm => s.queryIndex.find searchTerm = none
  | .reset _ => ∀ searchTerm, s.queryIndex.find searchTerm = none
  | _ => True

/-! ## Sections -/

omit [Inhabited ρ] [Inhabited σ] in
/-- What a thread has in hand, and nothing else, changes with its place. -/
theorem place_setPc (s : CacheState ρ σ) (t : Nat) (pc : CachePc ρ σ) (i : String ⊕ Nat) :
    (s.setPc t pc).place i = if i = .inr t then pc.inHand else s.place i := by
  cases i with
  | inl searchTerm => rfl
  | inr t' =>
    unfold setPc place
    dsimp only
    by_cases ht : t' = t
    · subst ht
      rw [Function.update_self, if_pos rfl]
    · rw [Function.update_of_ne ht, if_neg fun h => ht (Sum.inr.inj h)]

omit [Inhabited ρ] [Inhabited σ] in
theorem place_setPc_self {s : CacheState ρ σ} {t : Nat} {pc : CachePc ρ σ}
    (h : pc.inHand = (s.threads t).inHand) (i : String ⊕ Nat) :
    (s.setPc t pc).place i = s.place i := by
  rw [place_setPc]
  split
  · next hi =>
    subst hi
    exact h
  · rfl

theorem subscript_of_find {s : CacheState ρ σ} {searchTerm : String} {node : CacheNode ρ σ}
    (h : s.queryIndex.find searchTerm = some node) : s.subscript searchTerm = (s, node) := by
  unfold subscript
  rw [h]

theorem lookup_of_none {s : CacheState ρ σ} {searchTerm : String}
    (h : s.queryIndex.find searchTerm = none) (t : Nat) :
    s.lookup t searchTerm = (s.setPc t (.missed searchTerm true), []) := by
  unfold lookup
  rw [h]
  rfl

/-- A section that reads does not insert. -/
theorem lookup_of_find {s : CacheState ρ σ} {searchTerm : String} {node : CacheNode ρ σ}
    (h : s.queryIndex.find searchTerm = some node) (t : Nat) :
    s.lookup t searchTerm =
      if node.entry.complete then (s.setPc t .idle, [.returned node.entry])
      else (s.setPc t (.refreshing searchTerm node.address), []) := by
  unfold lookup
  rw [subscript_of_find h, h]
  rfl

theorem isCached_fst (s : CacheState ρ σ) (searchTerm : String) :
    (s.isCached searchTerm).1 = s := by
  unfold isCached
  cases h : s.queryIndex.find searchTerm with
  | none => rfl
  | some node =>
    rw [subscript_of_find h]
    rfl

/-- After an entry was stored under a term that had none. -/
theorem find_store {s : CacheState ρ σ} {searchTerm : String}
    (h : s.queryIndex.find searchTerm = none) (entry : CachedQuery ρ σ) (term : String) :
    (s.store searchTerm entry).queryIndex.find term =
      if term = searchTerm then some ⟨s.nextAddress, entry⟩ else s.queryIndex.find term := by
  unfold store subscript
  rw [h]
  dsimp only
  rw [UMap.find_assign, UMap.find_assign]
  split
  · rfl
  · rfl

theorem store_rest (s : CacheState ρ σ) (searchTerm : String) (entry : CachedQuery ρ σ) :
    (s.store searchTerm entry).started = s.started ∧
      (s.store searchTerm entry).threads = s.threads := by
  unfold store subscript
  cases s.queryIndex.find searchTerm with
  | none => exact ⟨rfl, rfl⟩
  | some node => exact ⟨rfl, rfl⟩

/-! ## What is kept -/

omit [Inhabited ρ] [Inhabited σ] in
/-- What has a place was started for the term. -/
structure Kept (s : CacheState ρ σ) : Prop extends Sound s where
  numbered : ∀ i searchTerm queryId, s.place i = some (searchTerm, queryId) →
    s.started[queryId]? = some searchTerm

section

omit [Inhabited ρ] [Inhabited σ]

variable {s s' : CacheState ρ σ}

theorem place_of_find {searchTerm : String} {node : CacheNode ρ σ}
    (h : s.queryIndex.find searchTerm = some node) :
    s.place (.inl searchTerm) = some (searchTerm, node.entry.queryId) := by
  unfold place
  dsimp only
  rw [h]
  rfl

theorem place_of_none {searchTerm : String} (h : s.queryIndex.find searchTerm = none) :
    s.place (.inl searchTerm) = none := by
  unfold place
  dsimp only
  rw [h]
  rfl

theorem place_thread {t : Nat} {pc : CachePc ρ σ} (h : s.threads t = pc) :
    s.place (.inr t) = pc.inHand := by
  unfold place
  dsimp only
  rw [h]

theorem termAt_eq_some {i : String ⊕ Nat} {searchTerm : String} :
    s.termAt i = some searchTerm ↔ ∃ queryId, s.place i = some (searchTerm, queryId) := by
  unfold termAt
  rw [Option.map_eq_some_iff]
  constructor
  · rintro ⟨⟨term, queryId⟩, hplace, rfl⟩
    exact ⟨queryId, hplace⟩
  · rintro ⟨queryId, hplace⟩
    exact ⟨_, hplace, rfl⟩

theorem Kept.unique (h : Kept s) {i j : String ⊕ Nat} {searchTerm : String} {q q' : Nat}
    (hi : s.place i = some (searchTerm, q)) (hj : s.place j = some (searchTerm, q')) : i = j :=
  h.oneQuery i j searchTerm (termAt_eq_some.mpr ⟨q, hi⟩) (termAt_eq_some.mpr ⟨q', hj⟩)

/-- A step that changes no place. -/
theorem Kept.of_eq (h : Kept s) (hplace : ∀ i, s'.place i = s.place i)
    (hstarted : s'.started = s.started) : Kept s' := by
  have hfun : s'.place = s.place := funext hplace
  refine ⟨⟨?_, ?_⟩, ?_⟩
  · intro i j searchTerm hi hj
    unfold termAt at hi hj
    rw [hplace] at hi hj
    exact h.oneQuery i j searchTerm hi hj
  · rw [hfun, hstarted]
    exact h.kept
  · rw [hfun, hstarted]
    exact h.numbered

/-- A query whose place is emptied is lost. -/
theorem Kept.not_sound_of_lost (h : Kept s) (hle : PlacesLe s'.place s.place)
    (hstarted : s'.started = s.started) {i : String ⊕ Nat} {searchTerm : String} {queryId : Nat}
    (hi : s.place i = some (searchTerm, queryId)) (hgone : s'.place i = none) : ¬ Sound s' := by
  intro hsound
  have hnumber := h.numbered i searchTerm queryId hi
  rw [← hstarted] at hnumber
  obtain ⟨j, hj⟩ := hsound.kept queryId searchTerm hnumber
  obtain rfl := h.unique hi (hle j _ hj)
  rw [hgone] at hj
  cases hj

/-- A new query has a place of its own. -/
theorem Kept.put (h : Kept s) {i : String ⊕ Nat} {searchTerm : String}
    (hnone : ∀ j queryId, s.place j ≠ some (searchTerm, queryId)) (hfree : s.place i = none)
    (hplace : ∀ j, s'.place j = if j = i then some (searchTerm, s.started.length) else s.place j)
    (hstarted : s'.started = s.started ++ [searchTerm]) : Kept s' := by
  have hself : s'.place i = some (searchTerm, s.started.length) := (hplace i).trans (if_pos rfl)
  have hother : ∀ j, j ≠ i → s'.place j = s.place j := fun j hj => (hplace j).trans (if_neg hj)
  refine ⟨⟨h.oneQuery.put (j := i) (t := searchTerm) ?_ ?_ ?_, ?_⟩, ?_⟩
  · intro j hj term hterm
    unfold termAt at hterm ⊢
    rw [hother j hj] at hterm
    exact hterm
  · intro term hterm
    obtain ⟨queryId, hat⟩ := termAt_eq_some.mp hterm
    rw [hself] at hat
    cases hat
    rfl
  · intro j hj hterm
    obtain ⟨queryId, hat⟩ := termAt_eq_some.mp hterm
    rw [hother j hj] at hat
    exact hnone j queryId hat
  · intro queryId term hterm
    rw [hstarted] at hterm
    rcases Nat.lt_or_ge queryId s.started.length with hlt | hge
    · rw [List.getElem?_append_left hlt] at hterm
      obtain ⟨j, hj⟩ := h.kept queryId term hterm
      refine ⟨j, (hother j ?_).trans hj⟩
      rintro rfl
      rw [hfree] at hj
      cases hj
    · rw [List.getElem?_append_right hge] at hterm
      obtain rfl : queryId = s.started.length := by
        have hlast := (List.getElem?_eq_some_iff.mp hterm).1
        rw [List.length_singleton] at hlast
        omega
      rw [Nat.sub_self] at hterm
      cases hterm
      exact ⟨i, hself⟩
  · intro j term queryId hj
    rw [hstarted]
    by_cases hji : j = i
    · rw [hji, hself] at hj
      cases hj
      exact List.getElem?_concat_length
    · have hnumber := h.numbered j term queryId ((hother j hji).symm.trans hj)
      rw [List.getElem?_append_left (List.getElem?_eq_some_iff.mp hnumber).1]
      exact hnumber

/-- A query goes from one place to another. -/
theorem Kept.move (h : Kept s) {i j : String ⊕ Nat} (hij : j ≠ i) {searchTerm : String}
    {queryId : Nat} (hi : s.place i = some (searchTerm, queryId)) (hfree : s.place j = none)
    (hgone : s'.place i = none) (hnew : s'.place j = some (searchTerm, queryId))
    (hother : ∀ k, k ≠ i → k ≠ j → s'.place k = s.place k) (hstarted : s'.started = s.started) :
    Kept s' := by
  refine ⟨⟨h.oneQuery.move (i := i) (j := j) (t := searchTerm) ?_ ?_ ?_ ?_, ?_⟩, ?_⟩
  · exact termAt_eq_some.mpr ⟨queryId, hi⟩
  · unfold termAt
    rw [hgone]
    rfl
  · intro k hk term hterm
    obtain ⟨q, hat⟩ := termAt_eq_some.mp hterm
    refine termAt_eq_some.mpr ⟨q, ?_⟩
    by_cases hki : k = i
    · rw [hki, hgone] at hat
      cases hat
    · exact (hother k hki hk).symm.trans hat
  · intro term hterm
    obtain ⟨q, hat⟩ := termAt_eq_some.mp hterm
    rw [hnew] at hat
    cases hat
    rfl
  · intro q term hterm
    rw [hstarted] at hterm
    obtain ⟨k, hk⟩ := h.kept q term hterm
    by_cases hki : k = i
    · rw [hki, hi] at hk
      cases hk
      exact ⟨j, hnew⟩
    · refine ⟨k, (hother k hki ?_).trans hk⟩
      rintro rfl
      rw [hfree] at hk
      cases hk
  · intro k term q hk
    rw [hstarted]
    by_cases hki : k = i
    · rw [hki, hgone] at hk
      cases hk
    · by_cases hkj : k = j
      · rw [hkj, hnew] at hk
        cases hk
        exact h.numbered i _ _ hi
      · exact h.numbered k term q ((hother k hki hkj).symm.trans hk)

/-! ## Sections that take nodes out -/

theorem place_evictExpired (h : s.NoneExpired) (i : String ⊕ Nat) :
    s.evictExpired.place i = s.place i := by
  cases i with
  | inr t => rfl
  | inl searchTerm =>
    unfold evictExpired place
    dsimp only
    rw [UMap.find_keep]
    cases hfind : s.queryIndex.find searchTerm with
    | none => rfl
    | some node =>
      rw [Option.filter_some, if_pos]
      rw [h searchTerm node hfind]
      rfl

theorem placesLe_evictExpired (s : CacheState ρ σ) : PlacesLe s.evictExpired.place s.place := by
  intro i p hat
  cases i with
  | inr t => exact hat
  | inl searchTerm =>
    obtain ⟨node, hfind, heq⟩ := Option.map_eq_some_iff.mp hat
    unfold evictExpired at hfind
    rw [UMap.find_keep, Option.filter_eq_some_iff] at hfind
    exact Option.map_eq_some_iff.mpr ⟨node, hfind.1, heq⟩

theorem placesLe_remove (s : CacheState ρ σ) (searchTerm : String) :
    PlacesLe (s.remove searchTerm).place s.place := by
  intro i p hat
  cases i with
  | inr t => exact hat
  | inl term =>
    obtain ⟨node, hfind, heq⟩ := Option.map_eq_some_iff.mp hat
    unfold remove at hfind
    rw [UMap.find_erase] at hfind
    split at hfind
    · cases hfind
    · exact Option.map_eq_some_iff.mpr ⟨node, hfind, heq⟩

theorem place_remove {searchTerm : String} (h : s.queryIndex.find searchTerm = none)
    (i : String ⊕ Nat) : (s.remove searchTerm).place i = s.place i := by
  cases i with
  | inr t => rfl
  | inl term =>
    unfold remove place
    dsimp only
    rw [UMap.find_erase]
    split
    · next heq => rw [heq, h]
    · rfl

/-- The node of a term that has a place is lost when it is taken out. -/
theorem Kept.find_of_sound (h : Kept s) (hle : PlacesLe s'.place s.place)
    (hstarted : s'.started = s.started) (hsound : Sound s') {searchTerm : String}
    (hgone : s'.place (.inl searchTerm) = none) : s.queryIndex.find searchTerm = none := by
  cases hfind : s.queryIndex.find searchTerm with
  | none => rfl
  | some node =>
    exact absurd hsound (h.not_sound_of_lost hle hstarted (place_of_find hfind) hgone)

/-- Eviction keeps all queries exactly if nothing is expired. -/
theorem Kept.noneExpired_of_sound (h : Kept s) (hplace : ∀ i, s'.place i = s.evictExpired.place i)
    (hstarted : s'.started = s.started) (hsound : Sound s') : s.NoneExpired := by
  intro searchTerm node hfind
  by_contra hexpired
  have hgone : s'.place (.inl searchTerm) = none := by
    rw [hplace]
    unfold evictExpired place
    dsimp only
    rw [UMap.find_keep, hfind, Option.filter_some, if_neg, Option.map_none]
    rw [eq_true_of_ne_false hexpired]
    exact Bool.false_ne_true
  have hle : PlacesLe s'.place s.place := fun i p hat =>
    placesLe_evictExpired s i p ((hplace i).symm.trans hat)
  rw [h.find_of_sound hle hstarted hsound hgone] at hfind
  cases hfind

end

/-! ## Steps -/

variable {s : CacheState ρ σ} {history : List (CacheEvent ρ σ)}

/-- Sections under the lock for reading leave the index alone. -/
theorem queryIndex_of_isReader {a : CacheStep ρ σ} (h : s.isReader a = true) :
    (s.step a).1.queryIndex = s.queryIndex := by
  cases a with
  | proceed t answers =>
    unfold isReader at h
    dsimp only at h
    split at h
    · next searchTerm hpc =>
      unfold step proceed
      dsimp only
      rw [hpc]
      dsimp only
      cases hfind : s.queryIndex.find searchTerm with
      | none => rw [lookup_of_none hfind]; rfl
      | some node =>
        rw [lookup_of_find hfind]
        split
        · rfl
        · rfl
    · cases h
  | isCached searchTerm =>
    unfold step
    dsimp only
    rw [isCached_fst]
  | getAllTerms => rfl
  | _ => cases h

/-- The condition `fits` is exact for a step, and with it the step keeps what is kept. -/
structure Exact (history : List (CacheEvent ρ σ)) (s : CacheState ρ σ) (a : CacheStep ρ σ)
    (fits : Prop) : Prop where
  iff : StepGood history s a ↔ fits
  kept : fits → Kept (s.step a).1

theorem Exact.of {a : CacheStep ρ σ} {fits : Prop} (hfits : StepGood history s a → fits)
    (hkept : fits → Kept (s.step a).1)
    (hlive : fits → ∀ searchTerm, .erasedUsed searchTerm ∉ (s.step a).2)
    (hfresh : fits → ∀ cached, .returned cached ∈ (s.step a).2 → s.isOlder cached = false) :
    Exact history s a fits :=
  ⟨⟨hfits, fun h => ⟨hlive h, (hkept h).toSound, hfresh h, queryIndex_of_isReader⟩⟩, hkept⟩

/-- A step that returns no entry and uses none. -/
theorem Exact.quiet {a : CacheStep ρ σ} {fits : Prop} (hfits : Sound (s.step a).1 → fits)
    (hkept : fits → Kept (s.step a).1)
    (hlive : ∀ searchTerm, .erasedUsed searchTerm ∉ (s.step a).2)
    (hreturns : ∀ cached, .returned cached ∉ (s.step a).2) : Exact history s a fits :=
  .of (fun h => hfits h.sound) hkept (fun _ => hlive) fun _ cached hmem =>
    absurd hmem (hreturns cached)

/-- A step that changes no place. -/
theorem Exact.still {a : CacheStep ρ σ} (hkept : Kept (s.step a).1)
    (hlive : ∀ searchTerm, .erasedUsed searchTerm ∉ (s.step a).2)
    (hreturns : ∀ cached, .returned cached ∉ (s.step a).2) : Exact history s a True :=
  .quiet (fun _ => trivial) (fun _ => hkept) hlive hreturns

/-- A step that tells nothing. -/
theorem Exact.silent {a : CacheStep ρ σ} {fits : Prop} (hevents : (s.step a).2 = [])
    (hfits : Sound (s.step a).1 → fits) (hkept : fits → Kept (s.step a).1) :
    Exact history s a fits := by
  refine .quiet hfits hkept (fun term => ?_) fun cached => ?_
  · rw [hevents]
    exact List.not_mem_nil
  · rw [hevents]
    exact List.not_mem_nil

variable {t : Nat} {answers : StackAnswers ρ σ} {searchTerm : String}

theorem step_proceed (s : CacheState ρ σ) (t : Nat) (answers : StackAnswers ρ σ) :
    s.step (.proceed t answers) = s.proceed t answers := rfl

theorem Kept.evicted_exact (h : Kept s) (hpc : s.threads t = .evicted searchTerm) :
    Exact history s (.proceed t answers) (s.PartFits answers (.evicted searchTerm)) := by
  have hstep : s.step (.proceed t answers) = s.lookup t searchTerm := by
    rw [step_proceed, proceed, hpc]
  have hsame : ∀ pc : CachePc ρ σ, pc.inHand = none → Kept (s.setPc t pc) := fun pc hnone =>
    h.of_eq (place_setPc_self (by rw [hpc, hnone]; rfl)) rfl
  cases hfind : s.queryIndex.find searchTerm with
  | none =>
    rw [lookup_of_none hfind] at hstep
    refine .of (fun _ node hnode => ?_) (fun _ => ?_) (fun _ term => ?_) fun _ cached hmem => ?_
    · rw [hfind] at hnode
      cases hnode
    · rw [hstep]
      exact hsame _ rfl
    · rw [hstep]
      exact List.not_mem_nil
    · rw [hstep] at hmem
      cases hmem
  | some node =>
    rw [lookup_of_find hfind] at hstep
    refine .of (fun hgood other hother hcomplete => ?_) (fun _ => ?_) (fun _ term => ?_)
      fun hfits cached hmem => ?_
    · obtain rfl := Option.some.inj (hfind.symm.trans hother)
      refine hgood.fresh node.entry ?_
      rw [hstep, if_pos hcomplete]
      exact List.mem_singleton.mpr rfl
    · rw [hstep]
      split
      · exact hsame _ rfl
      · exact hsame _ rfl
    · rw [hstep]
      split
      · simp
      · exact List.not_mem_nil
    · rw [hstep] at hmem
      split at hmem
      · next hcomplete =>
        cases List.mem_singleton.mp hmem
        exact hfits node hfind hcomplete
      · cases hmem

theorem Kept.refreshing_exact (h : Kept s) {address : Nat}
    (hpc : s.threads t = .refreshing searchTerm address) :
    Exact history s (.proceed t answers) (s.PartFits answers (.refreshing searchTerm address)) := by
  have hstep : s.step (.proceed t answers) = s.refresh t searchTerm address answers := by
    rw [step_proceed, proceed, hpc]
  -- without the node the reference dangles
  have hdangling : (∀ node, s.queryIndex.find searchTerm = some node → node.address ≠ address) →
      s.step (.proceed t answers) = (s.setPc t .idle, [.erasedUsed searchTerm]) := by
    intro hnone
    rw [hstep]
    unfold refresh
    cases hfind : s.queryIndex.find searchTerm with
    | none => rfl
    | some node => exact if_neg (hnone node hfind)
  have hthere : ∀ node, s.queryIndex.find searchTerm = some node → node.address = address →
      s.step (.proceed t answers) =
        ({ s with
          queryIndex := s.queryIndex.assign searchTerm
            { node with entry := refreshed node.entry answers } }.setPc t .idle,
          [.returned (refreshed node.entry answers)]) := by
    intro node hfind haddress
    rw [hstep]
    unfold refresh
    rw [hfind]
    exact if_pos haddress
  refine .of (fun hgood => ?_) ?_ ?_ ?_
  · by_contra hfits
    by_cases hnone : ∀ node, s.queryIndex.find searchTerm = some node → node.address ≠ address
    · have hlive := hgood.live searchTerm
      rw [hdangling hnone] at hlive
      exact hlive (List.mem_singleton.mpr rfl)
    · obtain ⟨node, hnode⟩ := not_forall.mp hnone
      obtain ⟨hfind, hsame⟩ := Classical.not_imp.mp hnode
      have haddress : node.address = address := not_not.mp hsame
      refine hfits ⟨node, hfind, haddress, hgood.fresh (refreshed node.entry answers) ?_⟩
      rw [hthere node hfind haddress]
      exact List.mem_singleton.mpr rfl
  · rintro ⟨node, hfind, haddress, -⟩
    rw [hthere node hfind haddress]
    refine h.of_eq (fun i => (place_setPc_self (by rw [hpc]; rfl) i).trans ?_) rfl
    cases i with
    | inr t' => rfl
    | inl term =>
      unfold place
      dsimp only
      rw [UMap.find_assign]
      split
      · next heq =>
        rw [heq, hfind]
        rfl
      · rfl
  · rintro ⟨node, hfind, haddress, -⟩ term
    rw [hthere node hfind haddress]
    simp
  · rintro ⟨node, hfind, haddress, hfresh⟩ cached hmem
    rw [hthere node hfind haddress] at hmem
    cases List.mem_singleton.mp hmem
    exact hfresh

theorem Kept.missed_exact (h : Kept s) {creates : Bool}
    (hpc : s.threads t = .missed searchTerm creates) :
    Exact history s (.proceed t answers) (s.PartFits answers (.missed searchTerm creates)) := by
  have hfree : s.place (.inr t) = none := place_thread hpc
  cases haccepted : answers.accepted with
  | false =>
    have hstep : s.step (.proceed t answers) = (s.setPc t .idle, [.answered false]) := by
      rw [step_proceed, proceed, hpc]
      exact if_neg (ne_true_of_eq_false haccepted)
    refine .quiet (fun _ hyes => ?_) (fun _ => ?_) (fun term => ?_) fun cached => ?_
    · rw [haccepted] at hyes
      cases hyes
    · rw [hstep]
      exact h.of_eq (place_setPc_self (by rw [hpc]; rfl)) rfl
    · rw [hstep]
      simp
    · rw [hstep]
      simp
  | true =>
    have hstep : s.step (.proceed t answers) =
        ({ s with started := s.started ++ [searchTerm] }.setPc t
          (.started searchTerm creates s.started.length), []) := by
      rw [step_proceed, proceed, hpc]
      exact if_pos haccepted
    have hplace : ∀ i, (s.step (.proceed t answers)).1.place i =
        if i = .inr t then some (searchTerm, s.started.length) else s.place i := by
      intro i
      rw [hstep, place_setPc]
      rfl
    refine .silent (by rw [hstep]) (fun hsound _ i queryId hat => ?_) fun hfits => ?_
    · have hi : i ≠ .inr t := by
        rintro rfl
        rw [hfree] at hat
        cases hat
      have hother : (s.step (.proceed t answers)).1.place i = some (searchTerm, queryId) := by
        rw [hplace, if_neg hi]
        exact hat
      have hself : (s.step (.proceed t answers)).1.place (.inr t) =
          some (searchTerm, s.started.length) := by
        rw [hplace, if_pos rfl]
      exact hi (hsound.oneQuery _ _ searchTerm (termAt_eq_some.mpr ⟨_, hother⟩)
        (termAt_eq_some.mpr ⟨_, hself⟩))
    · exact h.put (hfits haccepted) hfree hplace (by rw [hstep]; rfl)

theorem Kept.started_exact (h : Kept s) {creates : Bool} {queryId : Nat}
    (hpc : s.threads t = .started searchTerm creates queryId) :
    Exact history s (.proceed t answers) True := by
  have hstep : s.step (.proceed t answers) =
      (s.setPc t (.fetched searchTerm creates (s.execute searchTerm queryId answers)), []) := by
    rw [step_proceed, proceed, hpc]
  refine .silent (by rw [hstep]) (fun _ => trivial) fun _ => ?_
  rw [hstep]
  exact h.of_eq (place_setPc_self (by rw [hpc]; rfl)) rfl

theorem Kept.fetched_exact (h : Kept s) {creates : Bool} {entry : CachedQuery ρ σ}
    (hpc : s.threads t = .fetched searchTerm creates entry) :
    Exact history s (.proceed t answers)
      (s.PartFits answers (.fetched searchTerm creates entry)) := by
  have hstep : s.step (.proceed t answers) = ((s.store searchTerm entry).setPc t .idle,
      [if creates then .returned entry else .answered true]) := by
    rw [step_proceed, proceed, hpc]
  have hhand : s.place (.inr t) = some (searchTerm, entry.queryId) := place_thread hpc
  -- the term has no other query
  have hnone : s.queryIndex.find searchTerm = none := by
    cases hfind : s.queryIndex.find searchTerm with
    | none => rfl
    | some node => cases h.unique (place_of_find hfind) hhand
  have hstore : ∀ term, (s.store searchTerm entry).place (.inl term) =
      if term = searchTerm then some (searchTerm, entry.queryId) else s.place (.inl term) := by
    intro term
    unfold place
    dsimp only
    rw [find_store hnone]
    split
    · next heq =>
      rw [heq]
      rfl
    · rfl
  refine .of (fun hgood hcreates => ?_) (fun _ => ?_) (fun _ term => ?_) fun hfits cached hmem => ?_
  · refine hgood.fresh entry ?_
    rw [hstep, if_pos hcreates]
    exact List.mem_singleton.mpr rfl
  · rw [hstep]
    refine h.move (i := .inr t) (j := .inl searchTerm) Sum.inl_ne_inr hhand (place_of_none hnone)
      ?_ ?_ ?_ ?_
    · rw [place_setPc, if_pos rfl]
      rfl
    · rw [place_setPc, if_neg Sum.inl_ne_inr, hstore, if_pos rfl]
    · intro k hki hkj
      rw [place_setPc, if_neg hki]
      cases k with
      | inl term =>
        rw [hstore, if_neg]
        rintro rfl
        exact hkj rfl
      | inr t' =>
        unfold place
        dsimp only
        rw [(store_rest s searchTerm entry).2]
    · exact (store_rest s searchTerm entry).1
  · rw [hstep]
    cases creates <;> simp
  · rw [hstep] at hmem
    cases hcreates : creates with
    | false =>
      rw [hcreates] at hmem
      cases List.mem_singleton.mp hmem
    | true =>
      rw [hcreates] at hmem
      cases List.mem_singleton.mp hmem
      exact hfits hcreates

/-- The section of `evictExpired`, after which a thread may be at another place. -/
theorem Kept.evict_exact (h : Kept s) {a : CacheStep ρ σ}
    (hplace : ∀ i, (s.step a).1.place i = s.evictExpired.place i)
    (hstarted : (s.step a).1.started = s.started) (hevents : (s.step a).2 = []) :
    Exact history s a s.NoneExpired :=
  .silent hevents (h.noneExpired_of_sound hplace hstarted) fun hnone =>
    h.of_eq (fun i => (hplace i).trans (place_evictExpired hnone i)) hstarted

/-- A section that erases a term, likewise. -/
theorem Kept.erase_exact (h : Kept s) {a : CacheStep ρ σ}
    (hplace : ∀ i, (s.step a).1.place i = (s.remove searchTerm).place i)
    (hstarted : (s.step a).1.started = s.started)
    (hlive : ∀ searchTerm, .erasedUsed searchTerm ∉ (s.step a).2)
    (hreturns : ∀ cached, .returned cached ∉ (s.step a).2) :
    Exact history s a (s.queryIndex.find searchTerm = none) := by
  refine .quiet (fun hsound => ?_) (fun hnone => ?_) hlive hreturns
  · refine h.find_of_sound (fun i p hat => ?_) hstarted hsound ?_
    · exact placesLe_remove s searchTerm i p ((hplace i).symm.trans hat)
    · rw [hplace]
      unfold remove place
      dsimp only
      rw [UMap.find_erase, if_pos rfl]
      rfl
  · exact h.of_eq (fun i => (hplace i).trans (place_remove hnone i)) hstarted

theorem Kept.reset_exact (h : Kept s) (ttlSeconds : Nat) :
    Exact history s (.reset ttlSeconds) (∀ searchTerm, s.queryIndex.find searchTerm = none) := by
  refine .silent rfl (fun hsound term => ?_) fun hnone => ?_
  · refine h.find_of_sound ?_ ?_ hsound ?_
    · intro i p hat
      cases i with
      | inl term => cases hat
      | inr t => exact hat
    · rfl
    · rfl
  · refine h.of_eq (fun i => ?_) rfl
    cases i with
    | inl term => exact (place_of_none (hnone term)).symm
    | inr t => rfl

theorem Kept.unchanged_exact (h : Kept s) {a : CacheStep ρ σ} (hstep : s.step a = (s, [])) :
    Exact history s a True :=
  .silent (by rw [hstep]) (fun _ => trivial) fun _ => by rw [hstep]; exact h

/-- Every step has its exact condition. -/
theorem Kept.exact (h : Kept s) (history : List (CacheEvent ρ σ)) (a : CacheStep ρ σ) :
    Exact history s a (StepFits history s a) := by
  cases a with
  | getOrCreateQuery t searchTerm =>
    unfold StepFits
    dsimp only
    cases hpc : s.threads t with
    | idle =>
      have hstep : s.step (.getOrCreateQuery t searchTerm) =
          (s.evictExpired.setPc t (.evicted searchTerm), []) := by
        unfold step
        dsimp only
        rw [hpc]
      refine h.evict_exact (fun i => ?_) ?_ ?_
      · rw [hstep]
        refine place_setPc_self ?_ i
        show none = (s.threads t).inHand
        rw [hpc]
        rfl
      · rw [hstep]
        rfl
      · rw [hstep]
    | _ =>
      refine h.unchanged_exact ?_
      unfold step
      dsimp only
      rw [hpc]
  | refreshQuery t searchTerm =>
    unfold StepFits
    dsimp only
    cases hpc : s.threads t with
    | idle =>
      have hstep : s.step (.refreshQuery t searchTerm) =
          ((s.remove searchTerm).setPc t (.missed searchTerm false), []) := by
        unfold step
        dsimp only
        rw [hpc]
      refine h.erase_exact (fun i => ?_) ?_ (fun term => ?_) fun cached => ?_
      · rw [hstep]
        refine place_setPc_self ?_ i
        show none = (s.threads t).inHand
        rw [hpc]
        rfl
      · rw [hstep]
        rfl
      · rw [hstep]
        exact List.not_mem_nil
      · rw [hstep]
        exact List.not_mem_nil
    | _ =>
      refine h.unchanged_exact ?_
      unfold step
      dsimp only
      rw [hpc]
  | proceed t answers =>
    unfold StepFits
    dsimp only
    cases hpc : s.threads t with
    | idle => exact h.unchanged_exact (by rw [step_proceed, proceed, hpc])
    | evicted searchTerm => exact h.evicted_exact hpc
    | refreshing searchTerm address => exact h.refreshing_exact hpc
    | missed searchTerm creates => exact h.missed_exact hpc
    | started searchTerm creates queryId => exact h.started_exact hpc
    | fetched searchTerm creates entry => exact h.fetched_exact hpc
  | evictExpired => exact h.evict_exact (fun _ => rfl) rfl rfl
  | remove searchTerm =>
    exact h.erase_exact (fun _ => rfl) rfl (fun _ => by simp [step]) fun _ => by simp [step]
  | reset ttlSeconds => exact h.reset_exact ttlSeconds
  | isCached searchTerm =>
    have hevents : ∃ result, (s.step (.isCached searchTerm)).2 = [.answered result] := by
      unfold step isCached
      dsimp only
      split
      · exact ⟨_, rfl⟩
      · exact ⟨_, rfl⟩
    obtain ⟨result, hevents⟩ := hevents
    refine .still ?_ (fun term => ?_) fun cached => ?_
    · rw [show (s.step (.isCached searchTerm)).1 = s from isCached_fst s searchTerm]
      exact h
    · rw [hevents]
      simp
    · rw [hevents]
      simp
  | getAllTerms => exact .still h (fun _ => by simp [step]) fun _ => by simp [step]
  | tick duration =>
    exact .silent rfl (fun _ => trivial) fun _ => h.of_eq (fun _ => rfl) rfl

/-! ## Runs -/

theorem kept_start (ρ σ : Type) (ttlSeconds : Nat) : Kept (start ttlSeconds : CacheState ρ σ) := by
  have hempty : ∀ i, (start ttlSeconds : CacheState ρ σ).place i = none := by
    intro i
    cases i with
    | inl searchTerm => rfl
    | inr t => rfl
  refine ⟨⟨fun i j searchTerm hi => ?_, fun queryId searchTerm hstarted => ?_⟩, fun i _ _ hi => ?_⟩
  · obtain ⟨queryId, hat⟩ := termAt_eq_some.mp hi
    rw [hempty] at hat
    cases hat
  · cases hstarted
  · rw [hempty] at hi
    cases hi

/-- Every step of a run is good exactly if every step fits. -/
theorem along_good_iff (ρ σ : Type) [Inhabited ρ] [Inhabited σ] (ttlSeconds : Nat)
    (steps : List (CacheStep ρ σ)) :
    (cacheMachine ρ σ).Along StepGood [] (start ttlSeconds) steps ↔
      (cacheMachine ρ σ).Along StepFits [] (start ttlSeconds) steps :=
  Machine.along_congr (I := fun _ => Kept)
    (fun history _ a h hfits => (h.exact history a).kept hfits)
    (fun history _ a h => (h.exact history a).iff) (kept_start ρ σ ttlSeconds)

end CacheState

/-- Two threads look for a term at once, and neither finds it. -/
def twoMisses : List (CacheStep Unit Unit) :=
  [.getOrCreateQuery 0 "song", .proceed 0 ⟨true, true, none, none⟩, .getOrCreateQuery 1 "song",
    .proceed 1 ⟨true, true, none, none⟩, .proceed 0 ⟨true, true, none, none⟩]

/-- A time to live of 2^34 seconds, which wraps to less than nothing, and two calls one after the
other. -/
def longLife : List (CacheStep Unit Unit) :=
  [.reset (2 ^ 34), .getOrCreateQuery 0 "song"] ++
    List.replicate 4 (.proceed 0 ⟨true, true, none, none⟩)

namespace CacheState

theorem twoMisses_not_good :
    ¬ (cacheMachine Unit Unit).Along StepGood [] (start 60)
        (twoMisses ++ [CacheStep.proceed 1 ⟨true, true, none, none⟩]) ∧
      ¬ (cacheMachine Unit Unit).Along StepGood [] (start 60)
        (longLife ++ [CacheStep.getOrCreateQuery 0 "song"]) := by
  refine ⟨fun h => ?_, fun h => ?_⟩
  · obtain ⟨-, hsecond, -⟩ := Machine.along_append.mp h
    have hsame := hsecond.sound.oneQuery (.inr 0) (.inr 1) "song" (by decide +kernel)
      (by decide +kernel)
    cases hsame
  · -- the query of the first call is lost
    obtain ⟨-, hsecond, -⟩ := Machine.along_append.mp h
    obtain ⟨i, hplace⟩ := hsecond.sound.kept 0 "song" (by decide +kernel)
    cases i with
    | inl searchTerm => cases hplace
    | inr t => cases t with
      | zero => cases hplace
      | succ t => cases hplace

end CacheState

end Alpine
