import Alpine.ConfigUtils.Configuration

/-!
# Command line arguments

`ArgumentMap::load` goes through the addresses in `argv` until it meets the last of them, and enters
an option when the argument behind it is read. So an option at the end is not entered, and what is
behind an earlier copy of the last address is not seen; an option that is there more than once keeps
the first value. Otherwise the options are those of the vector (`load_right_iff`).
-/

namespace Alpine

open Lib

/-- The addresses in `argv`, and the text at each of them. -/
structure ArgVector where
  addresses : List Nat
  textAt : Nat → ConfigText

namespace ArgVector

def texts (argv : ArgVector) : List ConfigText := argv.addresses.map argv.textAt

end ArgVector

namespace ArgumentMap

def IsOption (arg : ConfigText) : Prop := arg.head? = some '-'

instance (arg : ConfigText) : Decidable (IsOption arg) := inferInstanceAs (Decidable (_ = _))

/-- The option that waits for a value and the index, after an argument. -/
def takeArg (waiting : Option ConfigText) (index : ConfigMap) (arg : ConfigText) :
    Option ConfigText × ConfigMap :=
  if IsOption arg then
    match waiting with
    | some name => (some (optionName arg), index.emplace name [])
    | none => (some (optionName arg), index)
  else
    match waiting with
    | some name => (none, index.emplace name arg)
    | none => (none, index)

/-- The loop, with the addresses behind the argument that it is at. Behind the last of them it would
read outside of `argv`. -/
def loadLoop (textAt : Nat → ConfigText) (lastArg currArg : Nat) (waiting : Option ConfigText)
    (index : ConfigMap) (rest : List Nat) : Option ConfigMap :=
  let entered := takeArg waiting index (textAt currArg)
  if currArg = lastArg then some entered.2
  else
    match rest with
    | [] => none
    | next :: rest => loadLoop textAt lastArg next entered.1 entered.2 rest

/-- `argIndex_` is `none` before the first call. -/
def loadArgv (argIndex : Option ConfigMap) (argv : ArgVector) : Option ConfigMap :=
  let index := argIndex.getD ∅
  match argv.addresses with
  | [] => some index
  | currArg :: rest =>
    loadLoop argv.textAt ((currArg :: rest).getLast (List.cons_ne_nil _ _)) currArg none index rest

def exists' (argIndex : Option ConfigMap) (name : ConfigText) : Bool :=
  match argIndex with
  | none => false
  | some index => (index.find name).isSome

/-- Also what becomes of the value that is passed. -/
def get' (argIndex : Option ConfigMap) (name value : ConfigText) : Bool × ConfigText :=
  match argIndex with
  | none => (false, value)
  | some index => get index name value

/-! ## What the arguments say -/

/-- The value that directly follows. -/
def nextValue (args : List ConfigText) : Option ConfigText :=
  args.head?.filter fun arg => ¬ IsOption arg

/-- What follows each occurrence of an option. -/
def occurrences (name : ConfigText) : List ConfigText → List (Option ConfigText)
  | [] => []
  | arg :: args =>
    if IsOption arg ∧ optionName arg = name then nextValue args :: occurrences name args
    else occurrences name args

/-- The map has the options that occur, with values that follow them. -/
structure Right (args : List ConfigText) (argIndex : Option ConfigMap) : Prop where
  options : ∀ name, exists' argIndex name = true ↔ occurrences name args ≠ []
  values : ∀ name, exists' argIndex name = true → ∀ value, ∃ found,
    get' argIndex name value = (true, found) ∧
      (some found ∈ occurrences name args ∨
        found = [] ∧ ∀ o ∈ occurrences name args, o = none)

/-- The arguments up to the first that is at the address of the last. -/
def scanned (argv : ArgVector) : List ConfigText :=
  match argv.addresses.getLast? with
  | none => []
  | some lastArg =>
    (argv.addresses.take (argv.addresses.idxOf lastArg + 1)).map argv.textAt

/-- Every option is there before the end of what is scanned, and an option without a value where it
is first has none elsewhere, or an empty one. -/
structure Fits (argv : ArgVector) : Prop where
  early : ∀ arg ∈ argv.texts, IsOption arg →
    ∃ a ∈ (scanned argv).dropLast, IsOption a ∧ optionName a = optionName arg
  first : ∀ name, (occurrences name argv.texts).head? = some none →
    (∀ o ∈ occurrences name argv.texts, o = none) ∨ some [] ∈ occurrences name argv.texts

/-! ## What the loop enters -/

/-- The value that an argument gives to the option before it. -/
def valueOf (arg : ConfigText) : ConfigText := if IsOption arg then [] else arg

/-- The option that an argument is. -/
def optionOf (arg : ConfigText) : Option ConfigText :=
  if IsOption arg then some (optionName arg) else none

/-- The values that are entered for an option, in order. -/
def recorded (name : ConfigText) : Option ConfigText → List ConfigText → List ConfigText
  | _, [] => []
  | waiting, arg :: args =>
    (if waiting = some name then [valueOf arg] else []) ++ recorded name (optionOf arg) args

theorem takeArg_none (index : ConfigMap) (arg : ConfigText) :
    takeArg none index arg = (optionOf arg, index) := by
  unfold takeArg optionOf
  by_cases harg : IsOption arg
  · rw [if_pos harg, if_pos harg]
  · rw [if_neg harg, if_neg harg]

theorem takeArg_some (name : ConfigText) (index : ConfigMap) (arg : ConfigText) :
    takeArg (some name) index arg = (optionOf arg, index.emplace name (valueOf arg)) := by
  unfold takeArg optionOf valueOf
  by_cases harg : IsOption arg
  · rw [if_pos harg, if_pos harg, if_pos harg]
  · rw [if_neg harg, if_neg harg, if_neg harg]

theorem waiting_takeArg (waiting : Option ConfigText) (index : ConfigMap) (arg : ConfigText) :
    (takeArg waiting index arg).1 = optionOf arg := by
  cases waiting with
  | none => rw [takeArg_none]
  | some name => rw [takeArg_some]

theorem find_takeArg (waiting : Option ConfigText) (index : ConfigMap) (arg name : ConfigText) :
    (takeArg waiting index arg).2.find name =
      (index.find name).or (if waiting = some name then some (valueOf arg) else none) := by
  cases waiting with
  | none => rw [takeArg_none, if_neg nofun, Option.or_none]
  | some w =>
    rw [takeArg_some]
    show (UMap.emplace index w _).find name = _
    rw [UMap.find_emplace_eq_or]
    by_cases hw : w = name
    · rw [if_pos hw, if_pos (congrArg some hw)]
    · rw [if_neg hw, if_neg fun h => hw (Option.some.inj h)]

/-- The loop ends at the first copy of the last address, and enters the first value of each
option. -/
theorem loadLoop_spec (textAt : Nat → ConfigText) {lastArg currArg : Nat} {rest : List Nat}
    (hlast : lastArg ∈ currArg :: rest) (waiting : Option ConfigText) (index : ConfigMap) :
    ∃ index', loadLoop textAt lastArg currArg waiting index rest = some index' ∧
      ∀ name, index'.find name = (index.find name).or
        (recorded name waiting (((currArg :: rest).take
          ((currArg :: rest).idxOf lastArg + 1)).map textAt)).head? := by
  have hone : ∀ (currArg : Nat) (rest : List Nat) (waiting : Option ConfigText) (name : ConfigText),
      (recorded name waiting (((currArg :: rest).take (0 + 1)).map textAt)).head? =
        if waiting = some name then some (valueOf (textAt currArg)) else none := by
    intro currArg rest waiting name
    show ((if waiting = some name then [valueOf (textAt currArg)] else []) ++ []).head? = _
    split <;> rfl
  induction rest generalizing currArg waiting index with
  | nil =>
    obtain rfl := List.mem_singleton.mp hlast
    rw [loadLoop, if_pos rfl]
    refine ⟨_, rfl, fun name => ?_⟩
    rw [List.idxOf_cons_self, hone, find_takeArg]
  | cons next rest ih =>
    by_cases hcurr : currArg = lastArg
    · subst hcurr
      rw [loadLoop, if_pos rfl]
      refine ⟨_, rfl, fun name => ?_⟩
      rw [List.idxOf_cons_self, hone, find_takeArg]
    · rw [loadLoop, if_neg hcurr]
      have hlast' := (List.mem_cons.mp hlast).resolve_left fun h => hcurr h.symm
      obtain ⟨index', hload, hfind⟩ := ih hlast' (takeArg waiting index (textAt currArg)).1
        (takeArg waiting index (textAt currArg)).2
      refine ⟨index', hload, fun name => ?_⟩
      have hmore : recorded name waiting (((currArg :: next :: rest).take
          ((currArg :: next :: rest).idxOf lastArg + 1)).map textAt) =
            (if waiting = some name then [valueOf (textAt currArg)] else []) ++
              recorded name (optionOf (textAt currArg))
                (((next :: rest).take ((next :: rest).idxOf lastArg + 1)).map textAt) := by
        rw [List.idxOf_cons_ne _ hcurr]
        rfl
      rw [hfind, find_takeArg, waiting_takeArg, hmore, List.head?_append, Option.or_assoc]
      congr 1
      split <;> rfl

theorem loadArgv_spec (argv : ArgVector) : ∃ index, loadArgv none argv = some index ∧
    ∀ name, index.find name = (recorded name none (scanned argv)).head? := by
  obtain ⟨addresses, textAt⟩ := argv
  cases addresses with
  | nil => exact ⟨∅, rfl, fun name => rfl⟩
  | cons currArg rest =>
    have hne : currArg :: rest ≠ [] := List.cons_ne_nil _ _
    have hscanned : scanned ⟨currArg :: rest, textAt⟩ = ((currArg :: rest).take
        ((currArg :: rest).idxOf ((currArg :: rest).getLast hne) + 1)).map textAt := by
      unfold scanned
      rw [List.getLast?_eq_some_getLast hne]
    obtain ⟨index, hload, hfind⟩ := loadLoop_spec textAt (List.getLast_mem hne) none ∅
    refine ⟨index, hload, fun name => ?_⟩
    rw [hfind, hscanned, UMap.find_empty, Option.none_or]

/-! ## What is entered, and what the arguments say -/

/-- The values that are entered are those of the first occurrences. -/
theorem recorded_isPrefix (name : ConfigText) (waiting : Option ConfigText)
    (args more : List ConfigText) :
    recorded name waiting args <+:
      ((if waiting = some name then [nextValue (args ++ more)] else []) ++
        occurrences name (args ++ more)).map fun o => o.getD [] := by
  induction args generalizing waiting with
  | nil => exact List.nil_prefix
  | cons arg args ih =>
    have hvalue : (nextValue (arg :: args ++ more)).getD [] = valueOf arg := by
      unfold nextValue valueOf
      by_cases harg : IsOption arg <;> simp [harg, Option.filter]
    have hoccurs : occurrences name (arg :: args ++ more) =
        (if optionOf arg = some name then [nextValue (args ++ more)] else []) ++
          occurrences name (args ++ more) := by
      rw [List.cons_append, occurrences]
      unfold optionOf
      by_cases harg : IsOption arg
      · simp only [harg, true_and, if_true, Option.some.injEq]
        split <;> rfl
      · simp [harg]
    rw [recorded, hoccurs, List.map_append]
    by_cases hwaiting : waiting = some name
    · rw [if_pos hwaiting, if_pos hwaiting, List.map_singleton, hvalue]
      exact (List.prefix_append_right_inj _).mpr (ih (optionOf arg))
    · rw [if_neg hwaiting, if_neg hwaiting]
      exact ih (optionOf arg)

/-- An option is entered if something follows it. -/
theorem recorded_ne_nil_iff (name : ConfigText) (waiting : Option ConfigText)
    (args : List ConfigText) : recorded name waiting args ≠ [] ↔
      (waiting = some name ∧ args ≠ []) ∨
        ∃ a ∈ args.dropLast, IsOption a ∧ optionName a = name := by
  induction args generalizing waiting with
  | nil => simp [recorded]
  | cons arg args ih =>
    rw [recorded, ne_eq, List.append_eq_nil_iff, not_and_or, ← ne_eq (recorded _ _ _), ih]
    have hwaiting : ¬ (if waiting = some name then [valueOf arg] else []) = [] ↔
        waiting = some name := by
      split
      · next h => exact iff_of_true (List.cons_ne_nil _ _) h
      · next h => exact iff_of_false (fun hne => hne rfl) h
    have hoption : optionOf arg = some name ↔ IsOption arg ∧ optionName arg = name := by
      unfold optionOf
      split
      · next h => simp [h]
      · next h => simp [h]
    rw [hwaiting, hoption]
    cases args with
    | nil => simp
    | cons arg' args =>
      rw [List.dropLast_cons_cons]
      simp only [List.mem_cons, exists_eq_or_imp]
      simp

theorem occurrences_ne_nil_iff (name : ConfigText) (args : List ConfigText) :
    occurrences name args ≠ [] ↔ ∃ a ∈ args, IsOption a ∧ optionName a = name := by
  induction args with
  | nil => simp [occurrences]
  | cons arg args ih =>
    rw [occurrences]
    simp only [List.mem_cons, exists_eq_or_imp]
    split
    · next h => exact iff_of_true (List.cons_ne_nil _ _) (.inl h)
    · next h => rw [ih, or_iff_right h]

theorem scanned_isPrefix (argv : ArgVector) : ∃ more, argv.texts = scanned argv ++ more := by
  unfold scanned ArgVector.texts
  split
  · next h =>
    rw [List.getLast?_eq_none_iff.mp h]
    exact ⟨[], rfl⟩
  · next lastArg h =>
    refine ⟨(argv.addresses.drop (argv.addresses.idxOf lastArg + 1)).map argv.textAt, ?_⟩
    rw [← List.map_append, List.take_append_drop]

theorem mem_of_mem_dropLast_scanned {argv : ArgVector} {a : ConfigText}
    (h : a ∈ (scanned argv).dropLast) : a ∈ argv.texts := by
  obtain ⟨more, hmore⟩ := scanned_isPrefix argv
  rw [hmore]
  exact List.mem_append_left _ (List.mem_of_mem_dropLast h)

/-- Loading ends without a read outside of the vector, and what is loaded is right exactly if the
vector fits. -/
theorem load_right_iff (argv : ArgVector) : ∃ argIndex, loadArgv none argv = some argIndex ∧
    (Right argv.texts (some argIndex) ↔ Fits argv) := by
  obtain ⟨index, hload, hfind⟩ := loadArgv_spec argv
  refine ⟨index, hload, ?_⟩
  have hentered : ∀ name, exists' (some index) name = true ↔
      ∃ a ∈ (scanned argv).dropLast, IsOption a ∧ optionName a = name := by
    intro name
    have hhead : exists' (some index) name = true ↔ recorded name none (scanned argv) ≠ [] := by
      show (index.find name).isSome = true ↔ _
      rw [hfind, List.isSome_head?]
    rw [hhead, recorded_ne_nil_iff, or_iff_right fun h => nomatch h.1]
  -- What is found is what follows the first occurrence, or empty.
  have hfirst : ∀ name, exists' (some index) name = true → ∃ o,
      (occurrences name argv.texts).head? = some o ∧
        ∀ value, get' (some index) name value = (true, o.getD []) := by
    intro name hexists
    obtain ⟨more, hmore⟩ := scanned_isPrefix argv
    have hpre := recorded_isPrefix name none (scanned argv) more
    rw [if_neg nofun, List.nil_append, ← hmore] at hpre
    obtain ⟨found, hfound⟩ := Option.isSome_iff_exists.mp (show (index.find name).isSome from hexists)
    have hhead := hfound
    rw [hfind] at hhead
    obtain ⟨records, hrecords⟩ := List.head?_eq_some_iff.mp hhead
    rw [hrecords] at hpre
    cases hoccurs : occurrences name argv.texts with
    | nil =>
      rw [hoccurs] at hpre
      exact absurd (List.prefix_nil.mp hpre) (List.cons_ne_nil _ _)
    | cons o os =>
      rw [hoccurs, List.map_cons, List.cons_prefix_cons] at hpre
      refine ⟨o, rfl, fun value => ?_⟩
      show get index name value = _
      unfold get
      rw [hfound, hpre.1]
  constructor
  · rintro ⟨hoptions, hvalues⟩
    refine ⟨fun arg harg hoption => ?_, fun name hhead => ?_⟩
    · exact (hentered _).mp ((hoptions _).mpr
        ((occurrences_ne_nil_iff _ _).mpr ⟨arg, harg, hoption, rfl⟩))
    · have hne : occurrences name argv.texts ≠ [] := by
        intro hnil
        rw [hnil] at hhead
        cases hhead
      have hexists := (hoptions name).mpr hne
      obtain ⟨o, ho, hget⟩ := hfirst name hexists
      rw [hhead, Option.some.injEq] at ho
      obtain ⟨found, hfound, hright⟩ := hvalues name hexists []
      rw [hget, ← ho, Prod.mk.injEq] at hfound
      rw [← hfound.2] at hright
      exact hright.symm.imp_left And.right
  · rintro ⟨hearly, hvalue⟩
    refine ⟨fun name => ?_, fun name hexists value => ?_⟩
    · rw [hentered, occurrences_ne_nil_iff]
      constructor
      · exact fun ⟨a, ha, hname⟩ => ⟨a, mem_of_mem_dropLast_scanned ha, hname⟩
      · rintro ⟨arg, harg, hoption, rfl⟩
        exact hearly arg harg hoption
    · obtain ⟨o, ho, hget⟩ := hfirst name hexists
      refine ⟨o.getD [], hget value, ?_⟩
      cases o with
      | none => exact (hvalue name ho).symm.imp_right fun hall => ⟨rfl, hall⟩
      | some found => exact .inl (List.mem_of_mem_head? ho)

/-- An option at the end is not there. -/
theorem trailingOption_not_right : ∃ argIndex,
    loadArgv none ⟨[0, 1], fun a => if a = 0 then "alpine".toList else "-v".toList⟩ =
        some argIndex ∧
      exists' (some argIndex) "v".toList = false ∧
      ¬ Right ["alpine".toList, "-v".toList] (some argIndex) := by
  refine ⟨∅, rfl, rfl, fun h => ?_⟩
  have hoption := (h.options "v".toList).mpr (by decide)
  cases hoption

end ArgumentMap

end Alpine
