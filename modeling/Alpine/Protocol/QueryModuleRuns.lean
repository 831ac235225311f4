import Alpine.Lib.Run
import Alpine.Protocol.QueryModuleIndex

/-!
# Runs of the index of the query modules

An option id that a registered module has declared is to resolve to a registered module that has
declared it. A module that is taken out takes the ids of the list of its first registration along,
whoever they resolve to, and leaves the others, so that this stays so exactly as long as no module
is taken out that shares such an id or has one besides (`StepFits`).

`processQuery` has one list for all modules, which is emptied only behind a module that succeeds, so
what a module leaves when it fails is taken for part of the answer of a later one that does not
empty the list itself (`Reaches`).
-/

namespace Alpine

open Lib

inductive ModuleIndexCall (M : Type) where
  /-- `answer` is what the module's `getQueryOptionExtensionList` says. -/
  | registerQueryModule (module : M) (answer : Option (List Nat))
  | removeQueryModule (module : M)

/-- A call that returned true. -/
inductive ModuleIndexEvent (M : Type) where
  | registered (module : M) (optionIds : List Nat)
  | removed (module : M)

/-- What a module makes of a query and a list for its results. -/
structure ModuleAnswer (R : Type) where
  status : Bool
  /-- It empties the list before it adds its results. -/
  clears : Bool
  added : List R

/-- The list behind the call. -/
def ModuleAnswer.leaves {R : Type} (answer : ModuleAnswer R) (queryResults : List R) : List R :=
  if answer.clears then answer.added else queryResults ++ answer.added

/-- The order in which an unordered map is gone through. -/
structure Iteration (K : Type) where
  order : List K → List K
  perm : ∀ keys, (order keys).Perm keys

structure ProcessedQuery (M R : Type) where
  status : Bool
  queryResults : List R
  /-- The modules that got the query, first to last. -/
  offered : List M

namespace QueryModuleIndex

variable {M R : Type}

/-! ## The results of a query -/

/-- The loop of `processQuery` over all modules. -/
def processAll (answers : M → ModuleAnswer R) :
    List M → List R → ProcessedQuery M R → ProcessedQuery M R
  | [], _, processed => processed
  | currModule :: modules, currResults, processed =>
    let left := (answers currModule).leaves currResults
    let offered := processed.offered ++ [currModule]
    if (answers currModule).status then
      processAll answers modules []
        { processed with queryResults := processed.queryResults ++ left, offered }
    else processAll answers modules left { processed with offered }

/-- A module that fails leaves results, and the next one that succeeds or empties the list is one
that succeeds without emptying it. -/
def Reaches (answers : M → ModuleAnswer R) (modules : List M) : Prop :=
  ∃ before failed between module after,
    modules = before ++ failed :: (between ++ module :: after) ∧
      (answers failed).status = false ∧ (answers failed).added ≠ [] ∧
      (∀ m ∈ between, (answers m).status = false ∧ (answers m).clears = false) ∧
      (answers module).status = true ∧ (answers module).clears = false

/-- The results of the modules that succeed. -/
def succeeded (answers : M → ModuleAnswer R) (modules : List M) : List R :=
  (modules.filter fun m => (answers m).status).flatMap fun m => (answers m).added

variable {answers : M → ModuleAnswer R}

theorem processAll_offered (modules : List M) (currResults : List R)
    (processed : ProcessedQuery M R) :
    (processAll answers modules currResults processed).offered = processed.offered ++ modules ∧
      (processAll answers modules currResults processed).status = processed.status := by
  induction modules generalizing currResults processed with
  | nil => exact ⟨(List.append_nil _).symm, rfl⟩
  | cons currModule modules ih =>
    unfold processAll
    dsimp only
    split
    · obtain ⟨hoffered, hstatus⟩ := ih [] _
      exact ⟨by rw [hoffered, List.append_assoc, List.singleton_append], hstatus⟩
    · obtain ⟨hoffered, hstatus⟩ := ih _ _
      exact ⟨by rw [hoffered, List.append_assoc, List.singleton_append], hstatus⟩

theorem succeeded_cons (m : M) (modules : List M) :
    succeeded answers (m :: modules) =
      (if (answers m).status then (answers m).added else []) ++ succeeded answers modules := by
  unfold succeeded
  rw [List.filter_cons]
  split
  · rw [List.flatMap_cons]
  · rfl

/-- The list gets to a module that succeeds without emptying it. -/
def Taken (answers : M → ModuleAnswer R) (modules : List M) : Prop :=
  ∃ between module after, modules = between ++ module :: after ∧
    (∀ m ∈ between, (answers m).status = false ∧ (answers m).clears = false) ∧
    (answers module).status = true ∧ (answers module).clears = false

theorem taken_cons {m : M} {modules : List M} :
    Taken answers (m :: modules) ↔
      (answers m).clears = false ∧ ((answers m).status = true ∨ Taken answers modules) := by
  constructor
  · rintro ⟨between, module, after, hsplit, hbetween, hstatus, hclears⟩
    cases between with
    | nil =>
      obtain ⟨rfl, _⟩ := List.cons.inj hsplit
      exact ⟨hclears, .inl hstatus⟩
    | cons first between =>
      obtain ⟨rfl, hrest⟩ := List.cons.inj hsplit
      exact ⟨(hbetween _ List.mem_cons_self).2, .inr ⟨between, module, after, hrest,
        fun m hm => hbetween m (List.mem_cons_of_mem _ hm), hstatus, hclears⟩⟩
  · rintro ⟨hclears, hor⟩
    by_cases hstatus : (answers m).status = true
    · exact ⟨[], m, modules, rfl, fun _ h => absurd h List.not_mem_nil, hstatus, hclears⟩
    · obtain ⟨between, module, after, rfl, hbetween, hrest⟩ := hor.resolve_left hstatus
      refine ⟨m :: between, module, after, rfl, fun m' hm => ?_, hrest⟩
      rcases List.mem_cons.mp hm with rfl | hm
      · exact ⟨Bool.eq_false_iff.mpr hstatus, hclears⟩
      · exact hbetween m' hm

theorem reaches_cons {m : M} {modules : List M} :
    Reaches answers (m :: modules) ↔
      ((answers m).status = false ∧ (answers m).added ≠ [] ∧ Taken answers modules) ∨
        Reaches answers modules := by
  constructor
  · rintro ⟨before, failed, between, module, after, hsplit, hstatus, hadded, hrest⟩
    cases before with
    | nil =>
      obtain ⟨rfl, htail⟩ := List.cons.inj hsplit
      exact .inl ⟨hstatus, hadded, between, module, after, htail, hrest⟩
    | cons first before =>
      obtain ⟨rfl, htail⟩ := List.cons.inj hsplit
      exact .inr ⟨before, failed, between, module, after, htail, hstatus, hadded, hrest⟩
  · rintro (⟨hstatus, hadded, between, module, after, rfl, hrest⟩ |
      ⟨before, failed, between, module, after, rfl, hrest⟩)
    · exact ⟨[], m, between, module, after, rfl, hstatus, hadded, hrest⟩
    · exact ⟨m :: before, failed, between, module, after, rfl, hrest⟩

theorem length_leaves_ge (answer : ModuleAnswer R) (queryResults : List R) :
    answer.added.length ≤ (answer.leaves queryResults).length := by
  unfold ModuleAnswer.leaves
  split
  · exact le_rfl
  · rw [List.length_append]
    exact Nat.le_add_left _ _

/-- Results are only ever too many. -/
theorem length_processAll_ge (modules : List M) (currResults : List R)
    (processed : ProcessedQuery M R) :
    processed.queryResults.length + (succeeded answers modules).length ≤
      (processAll answers modules currResults processed).queryResults.length := by
  induction modules generalizing currResults processed with
  | nil => exact le_rfl
  | cons m modules ih =>
    have hleft := length_leaves_ge (answers m) currResults
    unfold processAll
    dsimp only
    rw [succeeded_cons]
    split
    · refine le_trans ?_ (ih [] _)
      simp only [List.length_append]
      omega
    · rw [List.nil_append]
      exact ih _ { processed with offered := processed.offered ++ [m] }

theorem length_processAll_gt {modules : List M} {currResults : List R}
    {processed : ProcessedQuery M R}
    (h : currResults ≠ [] ∧ Taken answers modules ∨ Reaches answers modules) :
    processed.queryResults.length + (succeeded answers modules).length <
      (processAll answers modules currResults processed).queryResults.length := by
  induction modules generalizing currResults processed with
  | nil =>
    rcases h with ⟨_, between, module, after, hsplit, _⟩ | ⟨before, _, _, _, _, hsplit, _⟩
    · exact absurd hsplit.symm (by simp)
    · exact absurd hsplit.symm (by simp)
  | cons m modules ih =>
    rw [taken_cons, reaches_cons] at h
    unfold processAll
    dsimp only
    rw [succeeded_cons]
    split
    · next hstatus =>
      have hrest := @length_processAll_ge M R answers modules []
        { processed with
          queryResults := processed.queryResults ++ (answers m).leaves currResults
          offered := processed.offered ++ [m] }
      simp only [List.length_append] at hrest ⊢
      rcases h with ⟨hne, hclears, _⟩ | ⟨hfails, _⟩ | hreaches
      · have hcurr := List.length_pos_of_ne_nil hne
        have hleft : ((answers m).leaves currResults).length =
            currResults.length + (answers m).added.length := by
          rw [ModuleAnswer.leaves, hclears, if_neg Bool.false_ne_true, List.length_append]
        omega
      · exact absurd hstatus (by rw [hfails]; exact Bool.false_ne_true)
      · have hleft := length_leaves_ge (answers m) currResults
        have hmore := @ih []
          { processed with
            queryResults := processed.queryResults ++ (answers m).leaves currResults
            offered := processed.offered ++ [m] } (.inr hreaches)
        simp only [List.length_append] at hmore
        omega
    · next hstatus =>
      rw [List.nil_append]
      refine @ih _ { processed with offered := processed.offered ++ [m] } ?_
      rcases h with ⟨hne, hclears, htaken⟩ | ⟨_, hadded, htaken⟩ | hreaches
      · refine .inl ⟨?_, htaken.resolve_left hstatus⟩
        rw [ModuleAnswer.leaves, hclears, if_neg Bool.false_ne_true]
        exact List.append_ne_nil_of_left_ne_nil hne _
      · refine .inl ⟨fun hnil => hadded ?_, htaken⟩
        have hlen := length_leaves_ge (answers m) currResults
        rw [hnil] at hlen
        exact List.length_eq_zero_iff.mp (Nat.le_zero.mp hlen)
      · exact .inr hreaches

theorem processAll_eq {modules : List M} {currResults : List R} {processed : ProcessedQuery M R}
    (hcurr : ¬ (currResults ≠ [] ∧ Taken answers modules)) (hreaches : ¬ Reaches answers modules) :
    (processAll answers modules currResults processed).queryResults =
      processed.queryResults ++ succeeded answers modules := by
  induction modules generalizing currResults processed with
  | nil => exact (List.append_nil _).symm
  | cons m modules ih =>
    rw [taken_cons] at hcurr
    rw [reaches_cons, not_or] at hreaches
    unfold processAll
    dsimp only
    rw [succeeded_cons]
    split
    · next hstatus =>
      have hleft : (answers m).leaves currResults = (answers m).added := by
        unfold ModuleAnswer.leaves
        split
        · rfl
        · next hclears =>
          have hnil : currResults = [] := by
            by_contra hne
            exact hcurr ⟨hne, Bool.eq_false_iff.mpr hclears, .inl hstatus⟩
          rw [hnil, List.nil_append]
      rw [ih (fun h => h.1 rfl) hreaches.2, hleft, List.append_assoc]
    · next hstatus =>
      rw [List.nil_append]
      refine ih ?_ hreaches.2
      rintro ⟨hleft, htaken⟩
      have hadded : (answers m).added = [] := by
        by_contra hne
        exact hreaches.1 ⟨Bool.eq_false_iff.mpr hstatus, hne, htaken⟩
      unfold ModuleAnswer.leaves at hleft
      rw [hadded, List.append_nil] at hleft
      split at hleft
      · exact hleft rfl
      · next hclears => exact hcurr ⟨hleft, Bool.eq_false_iff.mpr hclears, .inr htaken⟩

theorem processAll_results_iff (modules : List M) :
    (processAll answers modules [] ⟨true, [], []⟩).queryResults = succeeded answers modules ↔
      ¬ Reaches answers modules := by
  constructor
  · intro heq hreaches
    have hlt := @length_processAll_gt M R answers modules [] ⟨true, [], []⟩ (.inr hreaches)
    rw [heq, List.length_nil, Nat.zero_add] at hlt
    exact lt_irrefl _ hlt
  · intro h
    rw [processAll_eq (fun hcurr => hcurr.1 rfl) h, List.nil_append]

def processQuery (iteration : Iteration M) (index : QueryModuleIndex M) (optionId : Nat)
    (answers : M → ModuleAnswer R) : ProcessedQuery M R :=
  if !index.initialized then ⟨false, [], []⟩
  else if optionId ≠ 0 then
    match index.optionIdIndex.find optionId with
    | none => ⟨false, [], []⟩
    | some queryModule =>
      ⟨(answers queryModule).status, (answers queryModule).leaves [], [queryModule]⟩
  else processAll answers (iteration.order index.moduleIndex.keys) [] ⟨true, [], []⟩

theorem processQuery_generic (iteration : Iteration M) {index : QueryModuleIndex M}
    (h : index.initialized = true) :
    processQuery iteration index 0 answers =
      processAll answers (iteration.order index.moduleIndex.keys) [] ⟨true, [], []⟩ := by
  unfold processQuery
  rw [h]
  rfl

/-! ## The calls -/

variable [DecidableEq M]

/-- The index after `initialize`. -/
def opened : QueryModuleIndex M := new.initializeIndex.2

def step (index : QueryModuleIndex M) :
    ModuleIndexCall M → QueryModuleIndex M × List (ModuleIndexEvent M)
  | .registerQueryModule module answer =>
    ((index.registerQueryModule module answer).2,
      if (index.registerQueryModule module answer).1 then [.registered module (answer.getD [])]
      else [])
  | .removeQueryModule module =>
    ((index.removeQueryModule module).2,
      if (index.removeQueryModule module).1 then [.removed module] else [])

def machine : Machine (QueryModuleIndex M) (ModuleIndexCall M) (ModuleIndexEvent M) := ⟨step⟩

/-! ## What the calls are to do -/

/-- The option ids that a module has declared since it was last removed. -/
def declared (history : List (ModuleIndexEvent M)) (module : M) : List Nat :=
  history.foldl (fun optionIds e =>
    match e with
    | .registered m ids => if m = module then optionIds ++ ids else optionIds
    | .removed m => if m = module then [] else optionIds) []

def isRegistered (history : List (ModuleIndexEvent M)) (module : M) : Bool :=
  history.foldl (fun registered e =>
    match e with
    | .registered m _ => registered || m = module
    | .removed m => registered && m ≠ module) false

/-- Every option id that a registered module has declared resolves to a registered module that has
declared it, and no id resolves to anything else. -/
structure OptionsResolve (history : List (ModuleIndexEvent M)) (index : QueryModuleIndex M) :
    Prop where
  declared : ∀ module optionId, isRegistered history module = true →
    optionId ∈ declared history module →
    ∃ owner, index.optionIdIndex.find optionId = some owner
  owner : ∀ optionId owner, index.optionIdIndex.find optionId = some owner →
    isRegistered history owner = true ∧ optionId ∈ QueryModuleIndex.declared history owner

def StepResolves (history : List (ModuleIndexEvent M)) (index : QueryModuleIndex M)
    (call : ModuleIndexCall M) : Prop :=
  OptionsResolve (history ++ (index.step call).2) (index.step call).1

/-- A module that is removed shares no option id of its list with another one, and is under no
other id. -/
def StepFits (history : List (ModuleIndexEvent M)) (index : QueryModuleIndex M) :
    ModuleIndexCall M → Prop
  | .registerQueryModule _ _ => True
  | .removeQueryModule module =>
    ∀ optionIdList, index.moduleIndex.find module = some optionIdList →
      (∀ optionId ∈ optionIdList, ∀ other, other ≠ module → optionId ∉ declared history other) ∧
        ∀ optionId, index.optionIdIndex.find optionId = some module → optionId ∈ optionIdList

/-! ## The index -/

variable {history : List (ModuleIndexEvent M)} {index : QueryModuleIndex M} {module other : M}

theorem declared_registered (optionIds : List Nat) :
    declared (history ++ [.registered module optionIds]) other =
      if module = other then declared history other ++ optionIds else declared history other := by
  rw [declared, List.foldl_append]
  rfl

theorem declared_removed :
    declared (history ++ [.removed module]) other =
      if module = other then [] else declared history other := by
  rw [declared, List.foldl_append]
  rfl

theorem isRegistered_registered (optionIds : List Nat) :
    isRegistered (history ++ [.registered module optionIds]) other =
      (isRegistered history other || decide (module = other)) := by
  rw [isRegistered, List.foldl_append]
  rfl

theorem isRegistered_removed :
    isRegistered (history ++ [.removed module]) other =
      (isRegistered history other && decide (module ≠ other)) := by
  rw [isRegistered, List.foldl_append]
  rfl

/-- What every call keeps, apart from what the ids resolve to. -/
structure Tracks (history : List (ModuleIndexEvent M)) (index : QueryModuleIndex M) : Prop where
  initialized : index.initialized = true
  registered : ∀ module, isRegistered history module = true ↔ index.Entered module
  undeclared : ∀ module, isRegistered history module = false → declared history module = []

theorem tracks_opened : Tracks [] (opened : QueryModuleIndex M) where
  initialized := rfl
  registered _ := ⟨nofun, nofun⟩
  undeclared _ _ := rfl

theorem step_register (h : index.initialized = true) (optionIds : List Nat) :
    index.step (.registerQueryModule module (some optionIds)) =
      ({ index with
        optionIdIndex := index.optionIdIndex.emplaceAll optionIds module
        moduleIndex := index.moduleIndex.emplace module optionIds },
        [.registered module optionIds]) := by
  unfold step registerQueryModule
  rw [h]
  rfl

theorem step_refused (index : QueryModuleIndex M) (module : M) :
    index.step (.registerQueryModule module none) = (index, []) := by
  unfold step registerQueryModule
  cases index.initialized <;> rfl

theorem step_unknown (h : index.moduleIndex.find module = none) :
    index.step (.removeQueryModule module) = (index, []) := by
  have hcall : index.removeQueryModule module = (false, index) := by
    unfold removeQueryModule
    split
    · rfl
    · split
      · rfl
      · next hfind => exact absurd (h.symm.trans hfind) nofun
  unfold step
  dsimp only
  rw [hcall]
  rfl

theorem step_remove (hinit : index.initialized = true) {optionIdList : List Nat}
    (h : index.moduleIndex.find module = some optionIdList) :
    index.step (.removeQueryModule module) =
      ({ index with
        optionIdIndex := index.optionIdIndex.eraseAll optionIdList
        moduleIndex := index.moduleIndex.erase module }, [.removed module]) := by
  have hcall : index.removeQueryModule module = (true, { index with
      optionIdIndex := index.optionIdIndex.eraseAll optionIdList
      moduleIndex := index.moduleIndex.erase module }) := by
    unfold removeQueryModule
    rw [hinit, if_neg (by simp)]
    split
    · next hfind => exact absurd (h.symm.trans hfind) nofun
    · next hfind => rw [Option.some.inj (h.symm.trans hfind)]
  unfold step
  dsimp only
  rw [hcall]
  rfl

theorem Tracks.step (h : Tracks history index) (call : ModuleIndexCall M) :
    Tracks (history ++ (index.step call).2) (index.step call).1 := by
  cases call with
  | registerQueryModule module answer =>
    cases answer with
    | none =>
      rw [step_refused, List.append_nil]
      exact h
    | some optionIds =>
      rw [step_register h.initialized]
      refine ⟨h.initialized, fun other => ?_, fun other hother => ?_⟩
      · rw [isRegistered_registered, Bool.or_eq_true, decide_eq_true_eq, h.registered]
        unfold Entered
        dsimp only
        rw [UMap.find_emplace]
        split
        · next heq => exact iff_of_true (.inr heq.symm) rfl
        · next hne => exact or_iff_left fun heq => hne heq.symm
      · rw [isRegistered_registered, Bool.or_eq_false_iff, decide_eq_false_iff_not] at hother
        rw [declared_registered, if_neg hother.2]
        exact h.undeclared other hother.1
  | removeQueryModule module =>
    cases hfind : index.moduleIndex.find module with
    | none =>
      rw [step_unknown hfind, List.append_nil]
      exact h
    | some optionIdList =>
      rw [step_remove h.initialized hfind]
      refine ⟨h.initialized, fun other => ?_, fun other hother => ?_⟩
      · rw [isRegistered_removed, Bool.and_eq_true, decide_eq_true_eq, h.registered]
        unfold Entered
        dsimp only
        rw [UMap.find_erase]
        split
        · next heq => exact iff_of_false (fun hin => hin.2 heq.symm) Bool.false_ne_true
        · next hne => exact and_iff_left fun heq => hne heq.symm
      · rw [declared_removed]
        split
        · rfl
        · next hne =>
          rw [isRegistered_removed, decide_eq_true hne, Bool.and_true] at hother
          exact h.undeclared other hother

/-- With what a module that is not registered has declared being nothing, the ids are as in the
general account of keys and owners. -/
theorem Tracks.optionsResolve_iff (h : Tracks history index) :
    OptionsResolve history index ↔
      Resolves (fun m optionId => optionId ∈ declared history m) index.optionIdIndex := by
  have hin : ∀ {m optionId}, optionId ∈ declared history m → isRegistered history m = true := by
    intro m optionId hmem
    by_contra hnot
    rw [h.undeclared m (Bool.eq_false_iff.mpr hnot)] at hmem
    cases hmem
  constructor
  · exact fun hr => ⟨fun m k hmem => hr.declared m k (hin hmem) hmem,
      fun k owner hfind => (hr.owner k owner hfind).2⟩
  · exact fun hr => ⟨fun m k _ hmem => hr.declared m k hmem,
      fun k owner hfind => ⟨hin (hr.owner k owner hfind), hr.owner k owner hfind⟩⟩

theorem stepResolves_iff (h : Tracks history index) (hresolve : OptionsResolve history index)
    (call : ModuleIndexCall M) : StepResolves history index call ↔ StepFits history index call := by
  have hbefore := h.optionsResolve_iff.mp hresolve
  unfold StepResolves
  rw [(h.step call).optionsResolve_iff]
  cases call with
  | registerQueryModule module answer =>
    refine iff_of_true ?_ trivial
    cases answer with
    | none =>
      rw [step_refused, List.append_nil]
      exact hbefore
    | some optionIds =>
      rw [step_register h.initialized]
      refine (hbefore.emplaceAll optionIds module).congr fun m k => ?_
      rw [declared_registered]
      split
      · next heq => rw [List.mem_append, and_iff_right heq.symm]
      · next hne => exact (or_iff_left fun hk => hne hk.1.symm).symm
  | removeQueryModule module =>
    cases hfind : index.moduleIndex.find module with
    | none =>
      rw [step_unknown hfind, List.append_nil]
      exact iff_of_true hbefore fun optionIdList hsome => by rw [hfind] at hsome; cases hsome
    | some optionIdList =>
      rw [step_remove h.initialized hfind]
      have hdeclares : ∀ m k, k ∈ declared (history ++ [.removed module]) m ↔
          m ≠ module ∧ k ∈ declared history m := by
        intro m k
        rw [declared_removed]
        split
        · next heq => exact iff_of_false (List.not_mem_nil) fun hk => hk.1 heq.symm
        · next hne => exact (and_iff_right fun heq => hne heq.symm).symm
      have hfits : StepFits history index (.removeQueryModule module) ↔
          (∀ k ∈ optionIdList, ∀ m, m ≠ module → k ∉ declared history m) ∧
            ∀ k, index.optionIdIndex.find k = some module → k ∈ optionIdList := by
        constructor
        · exact fun hall => hall optionIdList hfind
        · intro hall list hlist
          rw [hfind] at hlist
          rwa [← Option.some.inj hlist]
      rw [hfits, ← hbefore.eraseAll_iff]
      constructor
      · intro hr
        refine ⟨fun m k hne hk => hr.declared m k ((hdeclares m k).mpr ⟨hne, hk⟩), ?_⟩
        exact fun k hk => ((hdeclares module k).mp (hr.owner k module hk)).1 rfl
      · intro hboth
        obtain ⟨hothers, hkeys⟩ := hbefore.eraseAll_iff.mp hboth
        exact (hbefore.eraseAll hothers hkeys).congr hdeclares

/-! ## Queries without an option id -/

/-- What such a query is to do. -/
structure Aggregates (iteration : Iteration M) (history : List (ModuleIndexEvent M))
    (index : QueryModuleIndex M) (answers : M → ModuleAnswer R) : Prop where
  status : (processQuery iteration index 0 answers).status = true
  once : (processQuery iteration index 0 answers).offered.Nodup
  offered : ∀ module, module ∈ (processQuery iteration index 0 answers).offered ↔
    isRegistered history module = true
  queryResults : (processQuery iteration index 0 answers).queryResults =
    succeeded answers (processQuery iteration index 0 answers).offered

theorem Tracks.aggregates_iff (h : Tracks history index) (iteration : Iteration M) :
    Aggregates iteration history index answers ↔
      ¬ Reaches answers (iteration.order index.moduleIndex.keys) := by
  have hquery := @processQuery_generic M R answers iteration index h.initialized
  obtain ⟨hoffered, hstatus⟩ := @processAll_offered M R answers
    (iteration.order index.moduleIndex.keys) [] ⟨true, [], []⟩
  rw [List.nil_append] at hoffered
  have hperm := iteration.perm index.moduleIndex.keys
  constructor
  · intro hall
    have hresults := hall.queryResults
    rw [hquery, hoffered] at hresults
    exact (processAll_results_iff _).mp hresults
  · intro hnot
    refine ⟨by rw [hquery, hstatus], ?_, fun m => ?_, ?_⟩
    · rw [hquery, hoffered]
      exact hperm.nodup_iff.mpr (AList.keys_nodup _)
    · rw [hquery, hoffered, hperm.mem_iff, h.registered]
      exact UMap.mem_keys
    · rw [hquery, hoffered]
      exact (processAll_results_iff _).mpr hnot

/-- In a run of registrations and removals the option ids resolve as they are to exactly if no
module is removed that shares its ids; and a query without an option id is answered as it is to be
exactly if no module that fails leaves results to one that succeeds. -/
theorem along_optionsResolve_iff_fits (iteration : Iteration M)
    (calls : List (ModuleIndexCall M)) :
    (machine.Along StepResolves [] (opened : QueryModuleIndex M) calls ↔
        machine.Along StepFits [] (opened : QueryModuleIndex M) calls) ∧
      ∀ answers : M → ModuleAnswer R,
        Aggregates iteration (machine.run opened calls).2 (machine.run opened calls).1 answers ↔
          ¬ Reaches answers (iteration.order
            (machine.run (opened : QueryModuleIndex M) calls).1.moduleIndex.keys) := by
  have hstep : ∀ (history : List (ModuleIndexEvent M)) (index : QueryModuleIndex M)
      (call : ModuleIndexCall M), Tracks history index ∧ OptionsResolve history index →
      StepFits history index call →
      Tracks (history ++ (machine.step index call).2) (machine.step index call).1 ∧
        OptionsResolve (history ++ (machine.step index call).2) (machine.step index call).1 :=
    fun history index call hkept hfits =>
      ⟨hkept.1.step call, (stepResolves_iff hkept.1 hkept.2 call).mpr hfits⟩
  have hopened : OptionsResolve [] (opened : QueryModuleIndex M) := ⟨nofun, nofun⟩
  refine ⟨Machine.along_congr hstep (fun history index call hkept =>
    stepResolves_iff hkept.1 hkept.2 call) ⟨tracks_opened, hopened⟩, fun answers => ?_⟩
  have htracks : Tracks ([] ++ (machine.run opened calls).2)
      (machine.run (opened : QueryModuleIndex M) calls).1 :=
    Machine.run_invariant (fun _ _ call h => h.step call) calls tracks_opened
  exact htracks.aggregates_iff iteration

/-- Two modules that declare the same option id, of which the first is removed. -/
def sharedOption : List (ModuleIndexCall Nat) :=
  [.registerQueryModule 0 (some [5]), .registerQueryModule 1 (some [5]), .removeQueryModule 0]

def twoModules : List (ModuleIndexCall Nat) :=
  [.registerQueryModule 0 (some []), .registerQueryModule 1 (some [])]

/-- The first module that is asked fails and leaves a result. -/
def partialAnswer (module : Nat) : ModuleAnswer Nat := ⟨module = 0, false, [module]⟩

theorem sharedOption_not_resolved :
    ¬ machine.Along StepResolves [] (opened : QueryModuleIndex Nat) sharedOption ∧
      ¬ Aggregates ⟨id, fun _ => .refl _⟩ (machine.run opened twoModules).2
        (machine.run (opened : QueryModuleIndex Nat) twoModules).1 partialAnswer := by
  constructor
  · rintro ⟨_, _, hremoved, _⟩
    obtain ⟨owner, hfind⟩ := hremoved.declared 1 5 rfl (by decide)
    exact absurd hfind nofun
  · intro h
    exact absurd h.queryResults (by decide)

end QueryModuleIndex

end Alpine
