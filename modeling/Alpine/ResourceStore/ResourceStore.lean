import Alpine.Lib.Run
import Alpine.Lib.UMap

/-!
# The store of downloaded resources

`ResourceStore` has an index from canonical paths to entries and one from resources to paths. A path
that another resource takes over is overwritten in the first index only, and the test for the root
compares text, so that a sibling of the root with the same start passes. `ledger` says from the
calls what a path stands for; the store is described by it in every state of a run exactly if no
call takes over a path or is for such a sibling (`along_described_iff`).
-/

namespace Alpine

open Lib

abbrev FsPath := List Char

/-- What `weakly_canonical` makes of a path. -/
structure Canonicalizer where
  canonicalize : FsPath → FsPath
  idempotent : ∀ path, canonicalize (canonicalize path) = canonicalize path

structure StoreEntry where
  resourceId : Nat
  peerId : Nat
  fsPath : FsPath
  deriving DecidableEq, Repr

structure ResourceStore where
  root : FsPath
  byPath : UMap FsPath StoreEntry
  idToPath : UMap Nat FsPath

inductive StoreCall where
  /-- The canonical root, if there is a directory. -/
  | initializeStore (root : Option FsPath)
  | shutdown
  | registerDownload (resourceId peerId : Nat) (fsPath : FsPath)
  | unregister (resourceId : Nat)
  | resolvePath (fsPath : FsPath)

inductive StoreEvent where
  | cleared
  | registered (resourceId peerId : Nat) (path : FsPath)
  | unregistered (resourceId : Nat)

namespace ResourceStore

variable (canon : Canonicalizer)

def new : ResourceStore := ⟨[], ∅, ∅⟩

def initializeStore (store : ResourceStore) (root : Option FsPath) : Bool × ResourceStore :=
  match root with
  | none => (false, store)
  | some root => (true, ⟨root, ∅, ∅⟩)

def shutdown (store : ResourceStore) : ResourceStore := { store with byPath := ∅, idToPath := ∅ }

def registerDownload (store : ResourceStore) (resourceId peerId : Nat) (fsPath : FsPath) :
    Bool × ResourceStore :=
  if resourceId = 0 ∨ peerId = 0 ∨ fsPath = [] then (false, store)
  else
    let canonical := canon.canonicalize fsPath
    if store.root = [] ∨ ¬ store.root <+: canonical then (false, store)
    else
      let store : ResourceStore :=
        match store.idToPath.find resourceId with
        | some existing =>
          if existing ≠ canonical then
            { store with
              byPath := store.byPath.erase existing
              idToPath := store.idToPath.assign resourceId canonical }
          else store
        | none => { store with idToPath := store.idToPath.assign resourceId canonical }
      (true, { store with byPath := store.byPath.assign canonical ⟨resourceId, peerId, canonical⟩ })

def resolvePath (store : ResourceStore) (fsPath : FsPath) : Option (Nat × Nat) :=
  (store.byPath.find (canon.canonicalize fsPath)).map fun entry => (entry.resourceId, entry.peerId)

def unregister (store : ResourceStore) (resourceId : Nat) : Bool × ResourceStore :=
  match store.idToPath.find resourceId with
  | none => (false, store)
  | some path =>
    (true, { store with
      byPath := store.byPath.erase path, idToPath := store.idToPath.erase resourceId })

def size (store : ResourceStore) : Nat := store.idToPath.keys.length

/-- What a call returns; `resolvePath` does not change the store in any case. -/
def answer (store : ResourceStore) : StoreCall → Bool
  | .initializeStore root => (store.initializeStore root).1
  | .shutdown => true
  | .registerDownload resourceId peerId fsPath =>
    (store.registerDownload canon resourceId peerId fsPath).1
  | .unregister resourceId => (store.unregister resourceId).1
  | .resolvePath fsPath => (store.resolvePath canon fsPath).isSome

def step (store : ResourceStore) : StoreCall → ResourceStore × List StoreEvent
  | .initializeStore root =>
    ((store.initializeStore root).2, if (store.initializeStore root).1 then [.cleared] else [])
  | .shutdown => (store.shutdown, [.cleared])
  | .registerDownload resourceId peerId fsPath =>
    ((store.registerDownload canon resourceId peerId fsPath).2,
      if (store.registerDownload canon resourceId peerId fsPath).1 then
        [.registered resourceId peerId (canon.canonicalize fsPath)]
      else [])
  | .unregister resourceId =>
    ((store.unregister resourceId).2,
      if (store.unregister resourceId).1 then [.unregistered resourceId] else [])
  | .resolvePath _ => (store, [])

def machine : Machine ResourceStore StoreCall StoreEvent := ⟨step canon⟩

/-! ## What paths stand for -/

/-- The resource and the peer of each path. -/
abbrev Registry := FsPath → Option (Nat × Nat)

namespace Registry

/-- Take a resource out. -/
def without (registry : Registry) (resourceId : Nat) : Registry := fun path =>
  (registry path).filter fun entry => entry.1 ≠ resourceId

/-- Put a resource at a path, which is then its only one. -/
def put (registry : Registry) (resourceId peerId : Nat) (path : FsPath) : Registry :=
  Function.update (registry.without resourceId) path (some (resourceId, peerId))

def after (registry : Registry) : StoreEvent → Registry
  | .cleared => fun _ => none
  | .registered resourceId peerId path => registry.put resourceId peerId path
  | .unregistered resourceId => registry.without resourceId

end Registry

/-- What each path was last registered for, if its resource has not been taken out since. -/
def ledger (history : List StoreEvent) : Registry := history.foldl Registry.after fun _ => none

theorem ledger_append (history events : List StoreEvent) :
    ledger (history ++ events) = events.foldl Registry.after (ledger history) := List.foldl_append

/-- The root itself or a path below it. -/
def InsideRoot (root path : FsPath) : Prop :=
  path = root ∨ (if root.getLast? = some '/' then root else root ++ ['/']) <+: path

instance (root path : FsPath) : Decidable (InsideRoot root path) :=
  inferInstanceAs (Decidable (_ ∨ _))

/-- The store after a history: both indexes hold the same pairs, one resource for a path and one
path for a resource; a path resolves to what the history says; the size is the number of paths that
resolve; and all of them are inside the root. -/
structure Described (history : List StoreEvent) (store : ResourceStore) : Prop where
  linked : ∀ resourceId path, store.idToPath.find resourceId = some path ↔
    ∃ entry, store.byPath.find path = some entry ∧ entry.resourceId = resourceId
  resolves : ∀ fsPath,
    store.resolvePath canon fsPath = ledger history (canon.canonicalize fsPath)
  counted : ∃ paths : Finset FsPath, paths.card = store.size ∧ ∀ path, path ∈ paths ↔
    canon.canonicalize path = path ∧ (store.resolvePath canon path).isSome
  inside : ∀ path entry, store.byPath.find path = some entry →
    InsideRoot store.root path ∧ entry.fsPath = path

/-! ## What a call does -/

variable {canon} {store : ResourceStore} {resourceId peerId : Nat} {fsPath : FsPath}

/-- A registration that is taken. -/
def Taken (canon : Canonicalizer) (store : ResourceStore) (resourceId peerId : Nat)
    (fsPath : FsPath) : Prop :=
  resourceId ≠ 0 ∧ peerId ≠ 0 ∧ fsPath ≠ [] ∧ store.root ≠ [] ∧
    store.root <+: canon.canonicalize fsPath

instance (canon : Canonicalizer) (store : ResourceStore) (resourceId peerId : Nat)
    (fsPath : FsPath) : Decidable (Taken canon store resourceId peerId fsPath) :=
  inferInstanceAs (Decidable (_ ∧ _))

theorem registerDownload_refused (h : ¬ Taken canon store resourceId peerId fsPath) :
    store.registerDownload canon resourceId peerId fsPath = (false, store) := by
  unfold registerDownload
  split
  · rfl
  · next hargs =>
    dsimp only
    rw [if_pos]
    by_contra hroot
    obtain ⟨hid, hpeer, hpath⟩ : resourceId ≠ 0 ∧ peerId ≠ 0 ∧ fsPath ≠ [] := by
      simpa [not_or] using hargs
    obtain ⟨hne, hpre⟩ := not_or.mp hroot
    exact h ⟨hid, hpeer, hpath, hne, not_not.mp hpre⟩

/-- The indexes after a registration that is taken: the old path of the resource goes, and nothing
else does. -/
theorem registerDownload_taken (h : Taken canon store resourceId peerId fsPath) :
    ∃ store', store.registerDownload canon resourceId peerId fsPath = (true, store') ∧
      store'.root = store.root ∧
      (∀ r, store'.idToPath.find r =
        if r = resourceId then some (canon.canonicalize fsPath) else store.idToPath.find r) ∧
      ∀ path, store'.byPath.find path =
        if path = canon.canonicalize fsPath then
          some ⟨resourceId, peerId, canon.canonicalize fsPath⟩
        else if store.idToPath.find resourceId = some path then none
        else store.byPath.find path := by
  obtain ⟨hid, hpeer, hpath, hne, hpre⟩ := h
  unfold registerDownload
  rw [if_neg (by simp [hid, hpeer, hpath])]
  dsimp only
  rw [if_neg (by simp [hne, hpre])]
  cases hfind : store.idToPath.find resourceId with
  | none =>
    refine ⟨_, rfl, rfl, fun r => UMap.find_assign .., fun path => ?_⟩
    rw [UMap.find_assign]
    rfl
  | some existing =>
    dsimp only
    by_cases heq : existing = canon.canonicalize fsPath
    · rw [if_neg (not_not.mpr heq)]
      refine ⟨_, rfl, rfl, fun r => ?_, fun path => ?_⟩
      · split
        · next hr => rw [hr, hfind, heq]
        · rfl
      · rw [UMap.find_assign, heq]
        grind
    · rw [if_pos heq]
      refine ⟨_, rfl, rfl, fun r => UMap.find_assign .., fun path => ?_⟩
      rw [UMap.find_assign, UMap.find_erase]
      grind

theorem unregister_none (h : store.idToPath.find resourceId = none) :
    store.unregister resourceId = (false, store) := by
  unfold unregister
  rw [h]

theorem unregister_some {path : FsPath} (h : store.idToPath.find resourceId = some path) :
    store.unregister resourceId = (true, { store with
      byPath := store.byPath.erase path, idToPath := store.idToPath.erase resourceId }) := by
  unfold unregister
  rw [h]

/-! ## Runs -/

variable (canon) in
/-- What every run keeps as long as no call takes a path over. -/
structure Kept (history : List StoreEvent) (store : ResourceStore) : Prop where
  linked : ∀ resourceId path, store.idToPath.find resourceId = some path ↔
    ∃ entry, store.byPath.find path = some entry ∧ entry.resourceId = resourceId
  stored : ∀ path, (store.byPath.find path).map (fun entry => (entry.resourceId, entry.peerId)) =
    ledger history path
  inside : ∀ path entry, store.byPath.find path = some entry →
    InsideRoot store.root path ∧ entry.fsPath = path
  canonical : ∀ path entry, store.byPath.find path = some entry → canon.canonicalize path = path

variable {history : List StoreEvent}

theorem kept_empty (root : FsPath) (h : ledger history = fun _ => none) :
    Kept canon history ⟨root, ∅, ∅⟩ where
  linked resourceId path := by simp
  stored path := by rw [h]; rfl
  inside path entry hfind := by cases hfind
  canonical path entry hfind := by cases hfind

theorem kept_new : Kept canon [] new := kept_empty [] rfl

theorem Kept.described (h : Kept canon history store) : Described canon history store where
  linked := h.linked
  resolves fsPath := h.stored _
  inside := h.inside
  counted := by
    refine ⟨store.byPath.keys.toFinset, ?_, fun path => ?_⟩
    · rw [List.toFinset_card_of_nodup (AList.keys_nodup store.byPath)]
      refine UMap.length_keys_eq
        (fun path => ((store.byPath.find path).map StoreEntry.resourceId).getD 0)
        (fun resourceId => (store.idToPath.find resourceId).getD []) ?_ ?_
      · intro path hmem
        obtain ⟨entry, hfind⟩ := Option.isSome_iff_exists.mp (UMap.mem_keys.mp hmem)
        have hid := (h.linked entry.resourceId path).mpr ⟨entry, hfind, rfl⟩
        simp only [hfind, Option.map_some, Option.getD_some, hid, UMap.mem_keys, Option.isSome_some,
          and_self]
      · intro resourceId hmem
        obtain ⟨path, hid⟩ := Option.isSome_iff_exists.mp (UMap.mem_keys.mp hmem)
        obtain ⟨entry, hfind, hentry⟩ := (h.linked resourceId path).mp hid
        simp only [hid, Option.getD_some, hfind, Option.map_some, hentry, UMap.mem_keys,
          Option.isSome_some, and_self]
    · rw [List.mem_toFinset, UMap.mem_keys, resolvePath, Option.isSome_map]
      constructor
      · intro hsome
        obtain ⟨entry, hfind⟩ := Option.isSome_iff_exists.mp hsome
        have hcanon := h.canonical path entry hfind
        exact ⟨hcanon, by rw [hcanon]; exact hsome⟩
      · rintro ⟨hcanon, hsome⟩
        rwa [hcanon] at hsome

/-- A registration neither takes over a path nor is for a path beside the root. -/
def StepFree (canon : Canonicalizer) (_ : List StoreEvent) (store : ResourceStore) :
    StoreCall → Prop
  | .registerDownload resourceId peerId fsPath =>
    Taken canon store resourceId peerId fsPath →
      InsideRoot store.root (canon.canonicalize fsPath) ∧
      ∀ entry, store.byPath.find (canon.canonicalize fsPath) = some entry →
        entry.resourceId = resourceId
  | _ => True

/-- A call that returns false changes nothing, and the store is described by the history. -/
def StepDescribed (canon : Canonicalizer) (history : List StoreEvent) (store : ResourceStore)
    (call : StoreCall) : Prop :=
  (store.answer canon call = false → step canon store call = (store, [])) ∧
    Described canon (history ++ (step canon store call).2) (step canon store call).1

theorem step_refused {call : StoreCall} (h : store.answer canon call = false) :
    step canon store call = (store, []) := by
  cases call with
  | initializeStore root =>
    cases root with
    | none => rfl
    | some root => cases h
  | shutdown => cases h
  | registerDownload resourceId peerId fsPath =>
    have hnot : ¬ Taken canon store resourceId peerId fsPath := by
      intro htaken
      obtain ⟨store', heq, -⟩ := registerDownload_taken htaken
      rw [answer, heq] at h
      cases h
    rw [step, registerDownload_refused hnot]
    rfl
  | unregister resourceId =>
    cases hfind : store.idToPath.find resourceId with
    | none => rw [step, unregister_none hfind]; rfl
    | some path =>
      rw [answer, unregister_some hfind] at h
      cases h
  | resolvePath fsPath => rfl

theorem Kept.registered (h : Kept canon history store)
    (hfree : StepFree canon history store (.registerDownload resourceId peerId fsPath)) :
    Kept canon (history ++ (step canon store (.registerDownload resourceId peerId fsPath)).2)
      (step canon store (.registerDownload resourceId peerId fsPath)).1 := by
  by_cases htaken : Taken canon store resourceId peerId fsPath
  · obtain ⟨hinside, hfree⟩ := hfree htaken
    obtain ⟨store', heq, hroot, hids, hpaths⟩ := registerDownload_taken htaken
    rw [step, heq]
    have hcanon := canon.idempotent fsPath
    obtain ⟨c, hc⟩ : ∃ c, c = canon.canonicalize fsPath := ⟨_, rfl⟩
    rw [← hc] at hinside hfree hids hpaths hcanon
    -- what the resource leaves is its own path
    have hold : ∀ path entry, store.byPath.find path = some entry →
        (store.idToPath.find resourceId = some path ↔ entry.resourceId = resourceId) := by
      intro path entry hfind
      rw [h.linked]
      constructor
      · rintro ⟨entry', hfind', hentry⟩
        rwa [Option.some.inj (hfind.symm.trans hfind')]
      · exact fun hentry => ⟨entry, hfind, hentry⟩
    have hrest : ∀ path entry, path ≠ c → (store'.byPath.find path = some entry ↔
        store.byPath.find path = some entry ∧ entry.resourceId ≠ resourceId) := by
      intro path entry hne
      rw [hpaths, if_neg hne]
      constructor
      · intro hfind
        split at hfind
        · cases hfind
        · next hnot => exact ⟨hfind, fun hentry => hnot ((hold path entry hfind).mpr hentry)⟩
      · rintro ⟨hfind, hentry⟩
        rw [if_neg fun hid => hentry ((hold path entry hfind).mp hid), hfind]
    have hnew : store'.byPath.find c = some ⟨resourceId, peerId, c⟩ := by rw [hpaths, if_pos rfl]
    refine ⟨fun q path => ?_, fun path => ?_, fun path entry hfind => ?_,
      fun path entry hfind => ?_⟩
    · rw [hids]
      by_cases hpath : path = c
      · subst hpath
        rw [hnew]
        by_cases hq : q = resourceId
        · rw [if_pos hq]
          exact ⟨fun _ => ⟨_, rfl, hq.symm⟩, fun _ => rfl⟩
        · rw [if_neg hq, h.linked]
          constructor
          · rintro ⟨entry, hfind, rfl⟩
            exact absurd (hfree entry hfind) hq
          · rintro ⟨entry, hentry, hid⟩
            rw [← Option.some.inj hentry] at hid
            exact absurd hid.symm hq
      · simp only [hrest path _ hpath]
        by_cases hq : q = resourceId
        · rw [if_pos hq]
          constructor
          · exact fun heq => absurd (Option.some.inj heq).symm hpath
          · rintro ⟨entry, ⟨-, hne⟩, hid⟩
            exact absurd (hid.trans hq) hne
        · rw [if_neg hq, h.linked]
          constructor
          · rintro ⟨entry, hfind, rfl⟩
            exact ⟨entry, ⟨hfind, hq⟩, rfl⟩
          · rintro ⟨entry, ⟨hfind, -⟩, hid⟩
            exact ⟨entry, hfind, hid⟩
    · rw [ledger_append]
      show _ = (ledger history).put resourceId peerId (canon.canonicalize fsPath) path
      rw [← hc, Registry.put]
      by_cases hpath : path = c
      · rw [hpath, Function.update_self, hnew]
        rfl
      · rw [Function.update_of_ne hpath]
        show _ = (ledger history path).filter fun entry => entry.1 ≠ resourceId
        rw [← h.stored path, hpaths, if_neg hpath]
        cases hfind : store.byPath.find path with
        | none => simp
        | some entry =>
          have := hold path entry hfind
          grind
    · rw [hroot]
      by_cases hpath : path = c
      · rw [hpath, hnew] at hfind
        rw [hpath, ← Option.some.inj hfind]
        exact ⟨hinside, rfl⟩
      · exact h.inside path entry ((hrest path entry hpath).mp hfind).1
    · by_cases hpath : path = c
      · rw [hpath, hcanon, hc]
      · exact h.canonical path entry ((hrest path entry hpath).mp hfind).1
  · rw [step, registerDownload_refused htaken]
    simpa using h

theorem Kept.unregistered (h : Kept canon history store) :
    Kept canon (history ++ (step canon store (.unregister resourceId)).2)
      (step canon store (.unregister resourceId)).1 := by
  cases hid : store.idToPath.find resourceId with
  | none =>
    rw [step, unregister_none hid]
    simpa using h
  | some old =>
    rw [step, unregister_some hid]
    obtain ⟨entry, hold, hentry⟩ := (h.linked resourceId old).mp hid
    have hother : ∀ path entry', path ≠ old → store.byPath.find path = some entry' →
        entry'.resourceId ≠ resourceId := by
      intro path entry' hne hfind hid'
      have := (h.linked resourceId path).mpr ⟨entry', hfind, hid'⟩
      exact hne (Option.some.inj (this.symm.trans hid))
    refine ⟨fun q path => ?_, fun path => ?_, fun path entry hfind => ?_,
      fun path entry hfind => ?_⟩
    · simp only [UMap.find_erase]
      by_cases hpath : path = old
      · subst hpath
        rw [if_pos rfl]
        constructor
        · intro hq
          split at hq
          · cases hq
          · next hne =>
            obtain ⟨entry', hfind, rfl⟩ := (h.linked q path).mp hq
            exact absurd (hentry ▸ congrArg StoreEntry.resourceId
              (Option.some.inj (hfind.symm.trans hold))) hne
        · rintro ⟨entry', hfind, -⟩
          cases hfind
      · rw [if_neg hpath]
        by_cases hq : q = resourceId
        · rw [if_pos hq]
          constructor
          · intro hnone
            cases hnone
          · rintro ⟨entry', hfind, hid'⟩
            exact absurd (hid'.trans hq) (hother path entry' hpath hfind)
        · rw [if_neg hq, h.linked]
    · rw [ledger_append]
      show _ = (ledger history path).filter fun entry => entry.1 ≠ resourceId
      rw [← h.stored path, UMap.find_erase]
      by_cases hpath : path = old
      · rw [if_pos hpath, hpath, hold]
        simp [Option.filter, hentry]
      · rw [if_neg hpath]
        cases hfind : store.byPath.find path with
        | none => rfl
        | some entry' => simp [Option.filter, hother path entry' hpath hfind]
    · rw [UMap.find_erase] at hfind
      split at hfind
      · cases hfind
      · exact h.inside path entry hfind
    · rw [UMap.find_erase] at hfind
      split at hfind
      · cases hfind
      · exact h.canonical path entry hfind

theorem Kept.step {call : StoreCall} (h : Kept canon history store)
    (hfree : StepFree canon history store call) :
    Kept canon (history ++ (step canon store call).2) (step canon store call).1 := by
  have hcleared : ledger (history ++ [StoreEvent.cleared]) = fun _ => none := by
    rw [ledger_append]
    rfl
  cases call with
  | initializeStore root =>
    cases root with
    | none => simpa [ResourceStore.step, initializeStore] using h
    | some root => exact kept_empty root hcleared
  | shutdown => exact kept_empty store.root hcleared
  | registerDownload resourceId peerId fsPath => exact h.registered hfree
  | unregister resourceId => exact h.unregistered
  | resolvePath fsPath => simpa [ResourceStore.step] using h

theorem Kept.stepDescribed_iff (h : Kept canon history store) (call : StoreCall) :
    StepDescribed canon history store call ↔ StepFree canon history store call := by
  constructor
  · rintro ⟨-, hdescribed⟩
    cases call with
    | registerDownload resourceId peerId fsPath =>
      intro htaken
      obtain ⟨store', heq, hroot, hids, hpaths⟩ := registerDownload_taken htaken
      rw [ResourceStore.step, heq] at hdescribed
      have hnew := (hpaths (canon.canonicalize fsPath)).trans (if_pos rfl)
      refine ⟨?_, fun entry hfind => ?_⟩
      · rw [← hroot]
        exact (hdescribed.inside _ _ hnew).1
      · -- the resource that had the path is still linked to it
        by_contra hne
        have hlink := (h.linked entry.resourceId _).mpr ⟨entry, hfind, rfl⟩
        have hlink' : store'.idToPath.find entry.resourceId = some (canon.canonicalize fsPath) := by
          rw [hids, if_neg hne, hlink]
        obtain ⟨entry', hfind', hid⟩ := (hdescribed.linked _ _).mp hlink'
        have := Option.some.inj (hfind'.symm.trans hnew)
        rw [this] at hid
        exact hne hid.symm
    | _ => trivial
  · exact fun hfree => ⟨step_refused, (h.step hfree).described⟩

/-- The store is described by the calls in every state of a run exactly if no registration takes
over the path of another resource or is for a path beside the root. -/
theorem along_described_iff (canon : Canonicalizer) (calls : List StoreCall) :
    (machine canon).Along (StepDescribed canon) [] new calls ↔
      (machine canon).Along (StepFree canon) [] new calls :=
  Machine.along_congr (fun _ _ _ hkept hfree => hkept.step hfree)
    (fun _ _ call hkept => hkept.stepDescribed_iff call) kept_new

/-- Paths that are canonical as they are. -/
def plainPaths : Canonicalizer := ⟨id, fun _ => rfl⟩

/-- Resource 2 takes over the path of resource 1, which both then have. -/
theorem samePath_not_described :
    ¬ ∀ (canon : Canonicalizer) (calls : List StoreCall),
      (machine canon).Along (StepDescribed canon) [] new calls := by
  intro h
  have h := (h plainPaths [.initializeStore (some "/r".toList),
    .registerDownload 1 7 "/r/a".toList, .registerDownload 2 7 "/r/a".toList]).2.2.1.2
  obtain ⟨entry, hfind, hid⟩ := (h.linked 1 "/r/a".toList).mp (by decide +kernel)
  have hfind' : entry = ⟨2, 7, "/r/a".toList⟩ :=
    Option.some.inj (hfind.symm.trans (by decide +kernel))
  rw [hfind'] at hid
  cases hid

end ResourceStore

end Alpine
