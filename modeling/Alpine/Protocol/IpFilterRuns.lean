import Alpine.Protocol.IpFilter

/-!
# Runs of the address filter

The texts that were added and not removed are the `ledger` of the events of a run, and in every run
the filter decides by them (`Kept.decided`). A reload clears the lists before it opens the files, so
one that fails may decide otherwise than before: `StepOpens` is the exact condition for it not to
(`along_decided_iff`).
-/

namespace Alpine

open Lib

inductive FilterEvent where
  | allowed (cidr : List Char)
  | blocked (cidr : List Char)
  | allowRemoved (cidr : List Char)
  | blockRemoved (cidr : List Char)
  /-- The rules of both files were added. -/
  | loaded (allow block : List (List Char))
  /-- The rules of both files took the place of what was there. -/
  | reloaded (allow block : List (List Char))

/-- A call with the contents of the files; `none` is a file that cannot be opened. -/
inductive FilterCall where
  | initializeFilter (allowlistFile blocklistFile : List Char)
      (allowContent blockContent : Option (List Char))
  | allowIp (cidr : List Char)
  | blockIp (cidr : List Char)
  | removeAllow (cidr : List Char)
  | removeBlock (cidr : List Char)
  | reload (allowContent blockContent : Option (List Char))

namespace IpFilter

/-- The rules that a file gives; a file that is not configured or cannot be opened has none. -/
def openedRules (file : List Char) : Option (List Char) → List (List Char)
  | none => []
  | some content => if file = [] then [] else fileRules content

def step (filter : IpFilter) : FilterCall → IpFilter × List FilterEvent
  | .initializeFilter allowlistFile blocklistFile allowContent blockContent =>
    (filter.initializeFilter allowlistFile blocklistFile allowContent blockContent,
      [.loaded (openedRules allowlistFile allowContent) (openedRules blocklistFile blockContent)])
  | .allowIp cidr =>
    ((filter.allowIp cidr).2, if (filter.allowIp cidr).1 then [.allowed cidr] else [])
  | .blockIp cidr =>
    ((filter.blockIp cidr).2, if (filter.blockIp cidr).1 then [.blocked cidr] else [])
  | .removeAllow cidr => ((filter.removeAllow cidr).2, [.allowRemoved cidr])
  | .removeBlock cidr => ((filter.removeBlock cidr).2, [.blockRemoved cidr])
  | .reload allowContent blockContent =>
    ((filter.reload allowContent blockContent).2,
      [.reloaded (openedRules filter.allowlistFile allowContent)
        (openedRules filter.blocklistFile blockContent)])

def machine : Machine IpFilter FilterCall FilterEvent := ⟨step⟩

/-- The rules after an event. -/
def Rules.after (rules : Rules) : FilterEvent → Rules
  | .allowed cidr => { rules with allow := insert cidr rules.allow }
  | .blocked cidr => { rules with block := insert cidr rules.block }
  | .allowRemoved cidr => { rules with allow := rules.allow \ {cidr} }
  | .blockRemoved cidr => { rules with block := rules.block \ {cidr} }
  | .loaded allow block => ⟨rules.allow ∪ {c | c ∈ allow}, rules.block ∪ {c | c ∈ block}⟩
  | .reloaded allow block => ⟨{c | c ∈ allow}, {c | c ∈ block}⟩

/-- The texts that were added and not removed. -/
def ledger (history : List FilterEvent) : Rules := history.foldl Rules.after ⟨∅, ∅⟩

theorem ledger_append (history events : List FilterEvent) :
    ledger (history ++ events) = events.foldl Rules.after (ledger history) :=
  List.foldl_append

/-! ## What the operations do to the lists -/

theorem originals_append (entries entries' : List CidrEntry) :
    originals (entries ++ entries') = originals entries ∪ originals entries' := by
  ext cidr
  simp only [originals, Set.mem_ofPred_eq, List.mem_append, Set.mem_union, or_and_right, exists_or]

theorem Faithful.append {entries entries' : List CidrEntry} (h : Faithful entries)
    (h' : Faithful entries') : Faithful (entries ++ entries') := by
  intro entry hmem
  rcases List.mem_append.mp hmem with hmem | hmem
  · exact h entry hmem
  · exact h' entry hmem

theorem faithful_filterMap (texts : List (List Char)) : Faithful (texts.filterMap parseCidr) := by
  intro entry hmem
  obtain ⟨cidr, -, hparse⟩ := List.mem_filterMap.mp hmem
  rw [parseCidr_original hparse]
  exact hparse

theorem originals_fileRules (content : List Char) :
    originals ((fileRules content).filterMap parseCidr) = {cidr | cidr ∈ fileRules content} := by
  ext cidr
  constructor
  · rintro ⟨entry, hmem, rfl⟩
    obtain ⟨cidr, hrule, hparse⟩ := List.mem_filterMap.mp hmem
    rw [parseCidr_original hparse]
    exact hrule
  · intro hrule
    -- what is no range was left out when the file was read
    obtain ⟨entry, hparse⟩ := Option.isSome_iff_exists.mp (List.mem_filter.mp hrule).2
    exact ⟨entry, List.mem_filterMap.mpr ⟨cidr, hrule, hparse⟩, parseCidr_original hparse⟩

theorem loadConfigured_spec (file : List Char) (content : Option (List Char))
    {entries : List CidrEntry} (h : Faithful entries) :
    Faithful (loadConfigured file content entries).2 ∧
      originals (loadConfigured file content entries).2 =
        originals entries ∪ {cidr | cidr ∈ openedRules file content} := by
  have hkeep : originals entries = originals entries ∪ {cidr | cidr ∈ ([] : List (List Char))} := by
    ext cidr
    simp
  unfold loadConfigured openedRules
  by_cases hfile : file = []
  · rw [if_pos hfile]
    cases content with
    | none => exact ⟨h, hkeep⟩
    | some content =>
      dsimp only
      rw [if_pos hfile]
      exact ⟨h, hkeep⟩
  · rw [if_neg hfile]
    cases content with
    | none => exact ⟨h, hkeep⟩
    | some content =>
      dsimp only
      rw [if_neg hfile]
      refine ⟨h.append (faithful_filterMap _), ?_⟩
      show originals (entries ++ _) = _
      rw [originals_append, originals_fileRules]

theorem loadConfigured_ok (file : List Char) (content : Option (List Char))
    (entries : List CidrEntry) :
    (loadConfigured file content entries).1 = true ↔ file = [] ∨ content.isSome = true := by
  unfold loadConfigured
  by_cases hfile : file = []
  · rw [if_pos hfile]
    exact ⟨fun _ => .inl hfile, fun _ => rfl⟩
  · rw [if_neg hfile]
    cases content with
    | none =>
      refine ⟨fun h => (by cases h), fun h => ?_⟩
      rcases h with h | h
      · exact absurd h hfile
      · cases h
    | some content => exact ⟨fun _ => .inr rfl, fun _ => rfl⟩

theorem removeEntry_spec (cidr : List Char) {entries : List CidrEntry} (h : Faithful entries) :
    Faithful (removeEntry entries cidr).2 ∧
      originals (removeEntry entries cidr).2 = originals entries \ {cidr} := by
  unfold removeEntry
  split
  · constructor
    · intro entry hmem
      exact h entry (List.mem_of_mem_filter hmem)
    · ext c
      constructor
      · rintro ⟨entry, hmem, rfl⟩
        obtain ⟨hmem, hne⟩ := List.mem_filter.mp hmem
        exact ⟨⟨entry, hmem, rfl⟩, of_decide_eq_true hne⟩
      · rintro ⟨⟨entry, hmem, rfl⟩, hne⟩
        exact ⟨entry, List.mem_filter.mpr ⟨hmem, decide_eq_true hne⟩, rfl⟩
  · next hany =>
    refine ⟨h, (Set.sdiff_singleton_eq_self ?_).symm⟩
    rintro ⟨entry, hmem, heq⟩
    exact hany (List.any_eq_true.mpr ⟨entry, hmem, decide_eq_true heq⟩)

theorem originals_append_one (entries : List CidrEntry) (entry : CidrEntry) :
    originals (entries ++ [entry]) = insert entry.original (originals entries) := by
  ext cidr
  simp only [originals, Set.mem_ofPred_eq, List.mem_append, List.mem_singleton, or_and_right,
    exists_or, exists_eq_left, Set.mem_insert_iff]
  exact ⟨fun h => h.symm.imp Eq.symm id, fun h => h.symm.imp id Eq.symm⟩

theorem Faithful.concat {entries : List CidrEntry} (h : Faithful entries) {cidr : List Char}
    {entry : CidrEntry} (hparse : parseCidr cidr = some entry) : Faithful (entries ++ [entry]) := by
  refine h.append fun e hmem => ?_
  rw [List.mem_singleton.mp hmem, parseCidr_original hparse]
  exact hparse

/-! ## Runs -/

/-- What holds after every run: the entries are what their texts say, and the texts are those that
were added and not removed. -/
structure Kept (history : List FilterEvent) (filter : IpFilter) : Prop where
  allow : Faithful filter.allowlist
  block : Faithful filter.blocklist
  rules : filter.rules = ledger history

variable {history : List FilterEvent} {filter : IpFilter}

theorem kept_new : Kept [] new where
  allow _ h := by cases h
  block _ h := by cases h
  rules := Rules.ext (originals_eq_empty_iff.mpr rfl) (originals_eq_empty_iff.mpr rfl)

/-- The rules of a filter after a step are those before it changed by the event. -/
theorem Kept.of_after {filter' : IpFilter} {event : FilterEvent} (hk : Kept history filter)
    (hallow : Faithful filter'.allowlist) (hblock : Faithful filter'.blocklist)
    (hrules : filter'.rules = filter.rules.after event) : Kept (history ++ [event]) filter' where
  allow := hallow
  block := hblock
  rules := by
    rw [hrules, hk.rules, ledger_append]
    rfl

theorem Kept.step (hk : Kept history filter) (call : FilterCall) :
    Kept (history ++ (filter.step call).2) (filter.step call).1 := by
  cases call with
  | initializeFilter allowlistFile blocklistFile allowContent blockContent =>
    obtain ⟨hallow, hallows⟩ := loadConfigured_spec allowlistFile allowContent hk.allow
    obtain ⟨hblock, hblocks⟩ := loadConfigured_spec blocklistFile blockContent hk.block
    exact hk.of_after hallow hblock (Rules.ext hallows hblocks)
  | allowIp cidr =>
    unfold IpFilter.step IpFilter.allowIp
    dsimp only
    cases hparse : parseCidr cidr with
    | none => simpa using hk
    | some entry =>
      refine hk.of_after (hk.allow.concat hparse) hk.block (Rules.ext ?_ rfl)
      show originals (filter.allowlist ++ [entry]) = _
      rw [originals_append_one, parseCidr_original hparse]
      rfl
  | blockIp cidr =>
    unfold IpFilter.step IpFilter.blockIp
    dsimp only
    cases hparse : parseCidr cidr with
    | none => simpa using hk
    | some entry =>
      refine hk.of_after hk.allow (hk.block.concat hparse) (Rules.ext rfl ?_)
      show originals (filter.blocklist ++ [entry]) = _
      rw [originals_append_one, parseCidr_original hparse]
      rfl
  | removeAllow cidr =>
    obtain ⟨hallow, hallows⟩ := removeEntry_spec cidr hk.allow
    exact hk.of_after hallow hk.block (Rules.ext hallows rfl)
  | removeBlock cidr =>
    obtain ⟨hblock, hblocks⟩ := removeEntry_spec cidr hk.block
    exact hk.of_after hk.allow hblock (Rules.ext rfl hblocks)
  | reload allowContent blockContent =>
    have hnone : Faithful [] := fun _ h => (by cases h)
    have hempty : originals [] = ∅ := originals_eq_empty_iff.mpr rfl
    obtain ⟨hallow, hallows⟩ := loadConfigured_spec filter.allowlistFile allowContent hnone
    obtain ⟨hblock, hblocks⟩ := loadConfigured_spec filter.blocklistFile blockContent hnone
    rw [hempty, Set.empty_union] at hallows hblocks
    exact hk.of_after hallow hblock (Rules.ext hallows hblocks)

/-- The filter decides by the rules that were added and not removed. -/
theorem Kept.decided (hk : Kept history filter) {ip : List Char} {address : Address}
    (hip : readAddress ip = some address) :
    filter.isAllowed ip = true ↔ Admits (ledger history) address := by
  rw [isAllowed_iff hk.allow hk.block hip, hk.rules]

structure StepSound (history : List FilterEvent) (filter : IpFilter) (call : FilterCall) : Prop where
  /-- What names a range is added. -/
  adds : ∀ cidr, (call = .allowIp cidr → ((filter.allowIp cidr).1 = (readCidr cidr).isSome)) ∧
    (call = .blockIp cidr → ((filter.blockIp cidr).1 = (readCidr cidr).isSome))
  decided : ∀ ip address, readAddress ip = some address →
    ((filter.step call).1.isAllowed ip = true ↔
      Admits (ledger (history ++ (filter.step call).2)) address)
  /-- A reload that fails decides as before. -/
  reload : ∀ allowContent blockContent, call = .reload allowContent blockContent →
    (filter.reload allowContent blockContent).1 = false →
    ∀ ip address, readAddress ip = some address →
      (filter.step call).1.isAllowed ip = filter.isAllowed ip

/-- A reload opens the files that are configured, or those that it opens say what was said before
of every address. -/
def StepOpens (_ : List FilterEvent) (filter : IpFilter) : FilterCall → Prop
  | .reload allowContent blockContent =>
    ((filter.allowlistFile = [] ∨ allowContent.isSome = true) ∧
      (filter.blocklistFile = [] ∨ blockContent.isSome = true)) ∨
    ∀ address, Admits ⟨{c | c ∈ openedRules filter.allowlistFile allowContent},
      {c | c ∈ openedRules filter.blocklistFile blockContent}⟩ address ↔
        Admits filter.rules address
  | _ => True

theorem reload_ok (allowContent blockContent : Option (List Char)) :
    (filter.reload allowContent blockContent).1 = true ↔
      (filter.allowlistFile = [] ∨ allowContent.isSome = true) ∧
        (filter.blocklistFile = [] ∨ blockContent.isSome = true) := by
  rw [← loadConfigured_ok filter.allowlistFile allowContent [],
    ← loadConfigured_ok filter.blocklistFile blockContent [], ← Bool.and_eq_true]
  rfl

theorem Kept.stepSound_iff (hk : Kept history filter) (call : FilterCall) :
    StepSound history filter call ↔ StepOpens history filter call := by
  have hdecided : ∀ ip address, readAddress ip = some address →
      ((filter.step call).1.isAllowed ip = true ↔
        Admits (ledger (history ++ (filter.step call).2)) address) :=
    fun ip address hip => (hk.step call).decided hip
  have hadds : ∀ cidr,
      (call = .allowIp cidr → ((filter.allowIp cidr).1 = (readCidr cidr).isSome)) ∧
        (call = .blockIp cidr → ((filter.blockIp cidr).1 = (readCidr cidr).isSome)) := by
    intro cidr
    have hparse : (parseCidr cidr).isSome = (readCidr cidr).isSome := by
      rw [parseCidr_eq, Option.isSome_map]
    unfold IpFilter.allowIp IpFilter.blockIp
    rw [← hparse]
    cases parseCidr cidr <;> exact ⟨fun _ => rfl, fun _ => rfl⟩
  constructor
  · intro hs
    cases call with
    | reload allowContent blockContent =>
      cases hok : (filter.reload allowContent blockContent).1 with
      | true => exact .inl ((reload_ok allowContent blockContent).mp hok)
      | false =>
        refine .inr fun address => ?_
        have hip := readAddress_dotted address
        have hsame := hs.reload allowContent blockContent rfl hok _ address hip
        have hafter := hdecided _ address hip
        rw [hsame, hk.decided hip, ← hk.rules] at hafter
        rw [hafter, ledger_append]
        rfl
    | _ => trivial
  · intro hopens
    refine ⟨hadds, hdecided, ?_⟩
    rintro allowContent blockContent rfl hfails ip address hip
    rcases hopens with hopened | hsame
    · rw [(reload_ok allowContent blockContent).mpr hopened] at hfails
      cases hfails
    · rw [Bool.eq_iff_iff, hdecided ip address hip, hk.decided hip, ← hk.rules, ← hsame address,
        ledger_append]
      rfl

/-- In a run the filter decides by the rules that were added and not removed, and a reload that
fails changes no decision, exactly if every reload meets the condition. -/
theorem along_decided_iff (calls : List FilterCall) :
    machine.Along StepSound [] new calls ↔ machine.Along StepOpens [] new calls :=
  Machine.along_congr (fun _ _ call hk _ => hk.step call) (fun _ _ call hk => hk.stepSound_iff call)
    kept_new

/-- One network is allowed by a file that is gone when it is loaded again. -/
def fileGone : List FilterCall :=
  [.initializeFilter ['f'] [] (some ("10.0.0.0/24".toList ++ ['\n'])) none, .reload none none]

theorem fileGone_not_decided : ¬ machine.Along StepSound [] new fileGone := by
  rintro ⟨-, hs, -⟩
  have hsame := hs.reload none none rfl (by decide +kernel) "8.8.8.8".toList 0x08080808
    (by decide +kernel)
  revert hsame
  decide +kernel

end IpFilter

end Alpine
