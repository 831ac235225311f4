import Alpine.Protocol.ModuleMgr

/-!
# What the manager of the modules keeps

`Consistent` says that the id index and the path index have the same modules, and that a query or an
extension module is in its index exactly if an active record holds it. The four operations that
change an index each keep it under a condition that is exact: `InsertClean`, `EraseClean`,
`LoadClean` and `UnloadClean`; the last two also say when a call that fails leaves what is
registered. `Inv` holds whatever they do.
-/

namespace Alpine

open Lib

variable {A : Type} [DecidableEq A]

/-- The query module of an active record. -/
def ModuleRecord.heldQuery (moduleRecord : ModuleRecord A) : Option A :=
  if moduleRecord.isActive then moduleRecord.queryModule else none

/-- The extension module of an active record. -/
def ModuleRecord.heldExtension (moduleRecord : ModuleRecord A) : Option A :=
  if moduleRecord.isActive then moduleRecord.extensionModule else none

namespace Library

/-- Everything up to the interfaces succeeds. -/
def starts (library : Library A) : Bool :=
  library.file.usable && library.load && library.getFunctionHandle &&
    library.bootstrapMethod.isSome && library.setConfiguration && library.start &&
    library.getModuleInfo

/-- Both transport interfaces are there. -/
def transports (library : Library A) : Bool :=
  library.getTransportClientInterface.isSome && library.getTransportServerInterface.isSome

def queryModule (library : Library A) : Option A := library.getQueryInterface.map Prod.fst

def extensionModule (library : Library A) : Option A := library.getExtensionInterface.map Prod.fst

/-- The query module that the library offers, with an answer that its index takes. -/
def QueryAccepted (library : Library A) (index : QueryModuleIndex A) (a : A) : Prop :=
  ∃ answer, library.getQueryInterface = some (a, answer) ∧ index.Accepts answer

def ExtensionAccepted (library : Library A) (index : ExtensionIndex A) (a : A) : Prop :=
  ∃ answers, library.getExtensionInterface = some (a, answers) ∧ index.Accepts answers

end Library

namespace ModuleMgr

/-- Every module is under its id and under its path, and no two have one path. -/
structure OneToOne (m : ModuleMgr A) : Prop where
  path : ∀ id r, m.moduleIndex.find id = some r →
    m.modulePathIndex.find r.libraryPath = some r.address
  id : ∀ libraryPath address, m.modulePathIndex.find libraryPath = some address →
    ∃ id r, m.moduleIndex.find id = some r ∧ r.libraryPath = libraryPath ∧ r.address = address
  sole : ∀ id id' r r', m.moduleIndex.find id = some r → m.moduleIndex.find id' = some r' →
    r.libraryPath = r'.libraryPath → id = id'

structure Consistent (m : ModuleMgr A) : Prop where
  oneToOne : OneToOne m
  query : Matched m.queryModules.Entered ModuleRecord.heldQuery m.moduleIndex
  extension : Matched m.extensions.Entered ModuleRecord.heldExtension m.moduleIndex

/-- What is registered is what was registered. -/
def SameEntered (m m' : ModuleMgr A) : Prop :=
  ∀ a, (m'.queryModules.Entered a ↔ m.queryModules.Entered a) ∧
    (m'.extensions.Entered a ↔ m.extensions.Entered a)

/-- What holds of the manager whatever the sections do: an address is used once, a record that is
not active holds nothing, and nothing is registered before the start. -/
structure Inv (m : ModuleMgr A) : Prop where
  record : ∀ id r, m.moduleIndex.find id = some r → r.address < m.nextAddress
  path : ∀ libraryPath address, m.modulePathIndex.find libraryPath = some address →
    address < m.nextAddress
  idle : ∀ id r, m.moduleIndex.find id = some r → r.isActive = false →
    r.queryModule = none ∧ r.extensionModule = none
  query : m.queryModules.Ready
  extension : m.extensions.Ready
  unused : m.initialized = false → m.moduleIndex = ∅ ∧ m.modulePathIndex = ∅

variable {m : ModuleMgr A} {moduleId id : Nat} {r r' : ModuleRecord A} {library : Library A}
  {stop : Bool} {libraryPath symbol : String} {a : A}

theorem Inv.initialized_of_find (hi : Inv m) (hf : m.moduleIndex.find id = some r) :
    m.initialized = true := by
  cases hinit : m.initialized with
  | true => rfl
  | false =>
    rw [(hi.unused hinit).1] at hf
    cases hf

theorem inv_new : Inv (new : ModuleMgr A) where
  record _ _ h := by cases h
  path _ _ h := by cases h
  idle _ _ h := by cases h
  query := QueryModuleIndex.ready_new
  extension := ExtensionIndex.ready_new
  unused _ := ⟨rfl, rfl⟩

theorem consistent_new : Consistent (new : ModuleMgr A) where
  oneToOne := ⟨fun _ _ h => (by cases h), fun _ _ h => (by cases h), fun _ _ _ _ h => by cases h⟩
  query _ := ⟨fun h => (by cases h), fun h => absurd h not_heldBy_empty⟩
  extension _ := ⟨fun h => (by cases h), fun h => absurd h not_heldBy_empty⟩

/-! ## One record is replaced -/

/-- A record with the library of another one. -/
structure SameLibrary (r r' : ModuleRecord A) : Prop where
  path : r'.libraryPath = r.libraryPath
  address : r'.address = r.address

omit [DecidableEq A] in
theorem find_setRecord : (m.setRecord moduleId r').moduleIndex.find id =
    if id = moduleId then some r' else m.moduleIndex.find id :=
  UMap.find_assign _ _ _ _

omit [DecidableEq A] in
theorem OneToOne.setRecord (h : OneToOne m) (hf : m.moduleIndex.find moduleId = some r)
    (hs : SameLibrary r r') : OneToOne (m.setRecord moduleId r') where
  path id w hw := by
    rw [find_setRecord] at hw
    split at hw
    · injection hw with hw
      subst hw
      show m.modulePathIndex.find r'.libraryPath = some r'.address
      rw [hs.path, hs.address]
      exact h.path moduleId r hf
    · exact h.path id w hw
  id libraryPath address hp := by
    obtain ⟨id, w, hw, hpath, haddress⟩ := h.id libraryPath address hp
    by_cases hid : id = moduleId
    · subst hid
      rw [hf] at hw
      injection hw with hw
      subst hw
      refine ⟨id, r', ?_, hs.path.trans hpath, hs.address.trans haddress⟩
      rw [find_setRecord, if_pos rfl]
    · refine ⟨id, w, ?_, hpath, haddress⟩
      rw [find_setRecord, if_neg hid]
      exact hw
  sole id id' w w' hw hw' hpath := by
    -- both records are of the map before, up to the one that was replaced
    have hback : ∀ id w, (m.setRecord moduleId r').moduleIndex.find id = some w →
        ∃ v, m.moduleIndex.find id = some v ∧ v.libraryPath = w.libraryPath := by
      intro id w hw
      rw [find_setRecord] at hw
      split at hw
      · next hid =>
        injection hw with hw
        subst hw
        rw [hid]
        exact ⟨r, hf, hs.path.symm⟩
      · exact ⟨w, hw, rfl⟩
    obtain ⟨v, hv, hvpath⟩ := hback id w hw
    obtain ⟨v', hv', hvpath'⟩ := hback id' w' hw'
    exact h.sole id id' v v' hv hv' (hvpath.trans (hpath.trans hvpath'.symm))

theorem Inv.setRecord (hi : Inv m) (hf : m.moduleIndex.find moduleId = some r)
    (hs : SameLibrary r r')
    (hidle : r'.isActive = false → r'.queryModule = none ∧ r'.extensionModule = none) :
    Inv (m.setRecord moduleId r') where
  record id w hw := by
    rw [find_setRecord] at hw
    split at hw
    · injection hw with hw
      subst hw
      show r'.address < m.nextAddress
      rw [hs.address]
      exact hi.record moduleId r hf
    · exact hi.record id w hw
  path := hi.path
  idle id w hw := by
    rw [find_setRecord] at hw
    split at hw
    · injection hw with hw
      subst hw
      exact hidle
    · exact hi.idle id w hw
  query := hi.query
  extension := hi.extension
  unused hinit := by
    have htrue := hi.initialized_of_find hf
    have hfalse : m.initialized = false := hinit
    rw [htrue] at hfalse
    cases hfalse

/-! ## A library is registered -/

/-- The record of a library that is registered. -/
def newRecord (m : ModuleMgr A) (libraryPath symbol : String) : ModuleRecord A :=
  ⟨m.nextAddress, m.currModuleId, libraryPath, symbol, false, false, none, none, none, none, none⟩

omit [DecidableEq A] in
theorem moduleIndex_insertModule : (m.insertModule libraryPath symbol).moduleIndex =
    m.moduleIndex.emplace m.currModuleId (m.newRecord libraryPath symbol) := rfl

omit [DecidableEq A] in
theorem modulePathIndex_insertModule : (m.insertModule libraryPath symbol).modulePathIndex =
    m.modulePathIndex.emplace libraryPath m.nextAddress := rfl

theorem Inv.insertModule (hi : Inv m) (hinit : m.initialized = true) (libraryPath symbol : String) :
    Inv (m.insertModule libraryPath symbol) where
  record id r hf := by
    rw [moduleIndex_insertModule] at hf
    show r.address < m.nextAddress + 1
    rcases UMap.of_find_emplace hf with hf | ⟨-, -, rfl⟩
    · exact Nat.lt_succ_of_lt (hi.record id r hf)
    · exact Nat.lt_succ_self _
  path libraryPath address hf := by
    rw [modulePathIndex_insertModule] at hf
    show address < m.nextAddress + 1
    rcases UMap.of_find_emplace hf with hf | ⟨-, -, rfl⟩
    · exact Nat.lt_succ_of_lt (hi.path libraryPath address hf)
    · exact Nat.lt_succ_self _
  idle id r hf hidle := by
    rw [moduleIndex_insertModule] at hf
    rcases UMap.of_find_emplace hf with hf | ⟨-, -, rfl⟩
    · exact hi.idle id r hf hidle
    · exact ⟨rfl, rfl⟩
  query := hi.query
  extension := hi.extension
  unused h := by
    have h' : m.initialized = false := h
    rw [hinit] at h'
    cases h'

/-- The new record goes into both indexes or into none. -/
def InsertClean (m : ModuleMgr A) (libraryPath : String) : Prop :=
  m.modulePathIndex.find libraryPath = none ↔ m.moduleIndex.find m.currModuleId = none

theorem OneToOne.insertModule_iff (h : OneToOne m) (hi : Inv m) :
    OneToOne (m.insertModule libraryPath symbol) ↔ InsertClean m libraryPath := by
  constructor
  · intro h'
    constructor
    · intro hpath
      -- the path index has the address of the new record
      obtain ⟨id, r, hf, -, haddress⟩ := h'.id libraryPath m.nextAddress
        (UMap.find_emplace_of_none hpath _)
      rcases UMap.of_find_emplace hf with hf | ⟨hnone, -, -⟩
      · have hlt := hi.record id r hf
        omega
      · exact hnone
    · intro hid
      have hp := h'.path m.currModuleId (m.newRecord libraryPath symbol)
        (UMap.find_emplace_of_none hid _)
      rcases UMap.of_find_emplace hp with hp | ⟨hnone, -, -⟩
      · have hlt : m.nextAddress < m.nextAddress := hi.path _ _ hp
        omega
      · exact hnone
  · intro hclean
    cases hid : m.moduleIndex.find m.currModuleId with
    | some w =>
      obtain ⟨address, hpath⟩ := Option.ne_none_iff_exists'.mp
        (fun hnone => by rw [hclean.mp hnone] at hid; cases hid)
      refine ⟨fun id r hf => ?_, fun path address hp => ?_, fun id id' r r' hf hf' => ?_⟩
      · rw [moduleIndex_insertModule, UMap.emplace_of_find hid] at hf
        exact UMap.find_emplace_of_some (h.path id r hf) _
      · rw [modulePathIndex_insertModule, UMap.emplace_of_find hpath] at hp
        rw [moduleIndex_insertModule, UMap.emplace_of_find hid]
        exact h.id path address hp
      · rw [moduleIndex_insertModule, UMap.emplace_of_find hid] at hf hf'
        exact h.sole id id' r r' hf hf'
    | none =>
      have hpath := hclean.mpr hid
      -- no record has the path yet
      have hfree : ∀ id r, m.moduleIndex.find id = some r → r.libraryPath ≠ libraryPath := by
        rintro id r hf rfl
        rw [h.path id r hf] at hpath
        cases hpath
      refine ⟨fun id r hf => ?_, fun path address hp => ?_, fun id id' r r' hf hf' hsame => ?_⟩
      · rcases UMap.of_find_emplace hf with hf | ⟨-, -, rfl⟩
        · exact UMap.find_emplace_of_some (h.path id r hf) _
        · exact UMap.find_emplace_of_none hpath _
      · rcases UMap.of_find_emplace hp with hp | ⟨-, rfl, rfl⟩
        · obtain ⟨id, r, hf, hr, haddress⟩ := h.id path address hp
          exact ⟨id, r, UMap.find_emplace_of_some hf _, hr, haddress⟩
        · exact ⟨m.currModuleId, _, UMap.find_emplace_of_none hid _, rfl, rfl⟩
      · rcases UMap.of_find_emplace hf with hf | ⟨-, hidr, rfl⟩ <;>
          rcases UMap.of_find_emplace hf' with hf' | ⟨-, hidr', rfl⟩
        · exact h.sole id id' r r' hf hf' hsame
        · exact absurd hsame (hfree id r hf)
        · exact absurd hsame.symm (hfree id' r' hf')
        · exact hidr.trans hidr'.symm

theorem Consistent.insertModule_iff (hc : Consistent m) (hi : Inv m) :
    Consistent (m.insertModule libraryPath symbol) ↔ InsertClean m libraryPath := by
  have hone : OneToOne (m.insertModule libraryPath symbol) ↔ InsertClean m libraryPath :=
    hc.oneToOne.insertModule_iff hi
  rw [← hone]
  refine ⟨Consistent.oneToOne, fun h => ⟨h, ?_, ?_⟩⟩
  · exact hc.query.emplace rfl
  · exact hc.extension.emplace rfl

/-! ## A record is erased -/

/-- What the record holds is held by another record too; one that is not active holds nothing. -/
def EraseClean (m : ModuleMgr A) (moduleId : Nat) : Prop :=
  ∀ r, m.moduleIndex.find moduleId = some r →
    (∀ a, r.heldQuery = some a → HeldElse ModuleRecord.heldQuery m.moduleIndex moduleId a) ∧
      ∀ a, r.heldExtension = some a →
        HeldElse ModuleRecord.heldExtension m.moduleIndex moduleId a

omit [DecidableEq A] in
theorem eraseModule_of_find (hf : m.moduleIndex.find moduleId = some r) :
    m.eraseModule moduleId =
      (true, { m with
        modulePathIndex := m.modulePathIndex.erase r.libraryPath
        moduleIndex := m.moduleIndex.erase moduleId }) := by
  rw [eraseModule, hf]

theorem Inv.eraseModule (hi : Inv m) (moduleId : Nat) : Inv (m.eraseModule moduleId).2 := by
  cases hf : m.moduleIndex.find moduleId with
  | none =>
    rw [ModuleMgr.eraseModule, hf]
    exact hi
  | some r =>
    rw [eraseModule_of_find hf]
    have hback : ∀ id w, (m.moduleIndex.erase moduleId).find id = some w →
        m.moduleIndex.find id = some w := by
      intro id w hw
      rw [UMap.find_erase] at hw
      split at hw
      · cases hw
      · exact hw
    refine ⟨fun id w hw => hi.record id w (hback id w hw), fun path address hp => ?_,
      fun id w hw => hi.idle id w (hback id w hw), hi.query, hi.extension, fun h => ?_⟩
    · have hp' : (m.modulePathIndex.erase r.libraryPath).find path = some address := hp
      rw [UMap.find_erase] at hp'
      split at hp'
      · cases hp'
      · exact hi.path path address hp'
    · have hfalse : m.initialized = false := h
      rw [hi.initialized_of_find hf] at hfalse
      cases hfalse

omit [DecidableEq A] in
theorem OneToOne.eraseModule (h : OneToOne m) (hf : m.moduleIndex.find moduleId = some r) :
    OneToOne (m.eraseModule moduleId).2 := by
  rw [eraseModule_of_find hf]
  refine ⟨fun id w hw => ?_, fun path address hp => ?_, fun id id' w w' hw hw' => ?_⟩
  · have hw' : (m.moduleIndex.erase moduleId).find id = some w := hw
    rw [UMap.find_erase] at hw'
    split at hw'
    · cases hw'
    · next hid =>
      show (m.modulePathIndex.erase r.libraryPath).find w.libraryPath = some w.address
      have hne : w.libraryPath ≠ r.libraryPath := fun he => hid (h.sole id moduleId w r hw' hf he)
      rw [UMap.find_erase, if_neg hne]
      exact h.path id w hw'
  · have hp' : (m.modulePathIndex.erase r.libraryPath).find path = some address := hp
    rw [UMap.find_erase] at hp'
    split at hp'
    · cases hp'
    · next hne =>
      obtain ⟨id, w, hw, hpath, haddress⟩ := h.id path address hp'
      refine ⟨id, w, ?_, hpath, haddress⟩
      show (m.moduleIndex.erase moduleId).find id = some w
      rw [UMap.find_erase, if_neg ?_]
      · exact hw
      · rintro rfl
        rw [hf] at hw
        injection hw with hw
        subst hw
        exact hne hpath.symm
  · have hback : ∀ id w, (m.moduleIndex.erase moduleId).find id = some w →
        m.moduleIndex.find id = some w := by
      intro id w hw
      rw [UMap.find_erase] at hw
      split at hw
      · cases hw
      · exact hw
    exact h.sole id id' w w' (hback id w hw) (hback id' w' hw')

theorem Consistent.eraseModule_iff (hc : Consistent m) :
    Consistent (m.eraseModule moduleId).2 ↔ EraseClean m moduleId := by
  cases hf : m.moduleIndex.find moduleId with
  | none =>
    rw [eraseModule, hf]
    refine ⟨fun _ r hr => ?_, fun _ => hc⟩
    rw [hf] at hr
    cases hr
  | some r =>
    have hone := hc.oneToOne.eraseModule hf
    have hquery := hc.query.erase_iff hf
    have hextension := hc.extension.erase_iff hf
    rw [eraseModule_of_find hf] at hone ⊢
    constructor
    · rintro ⟨-, hq, he⟩ r' hr'
      rw [hf] at hr'
      injection hr' with hr'
      subst hr'
      exact ⟨hquery.mp hq, hextension.mp he⟩
    · intro hclean
      obtain ⟨hq, he⟩ := hclean r hf
      exact ⟨hone, hquery.mpr hq, hextension.mpr he⟩

/-! ## A module is loaded -/

/-- The indexes once the interfaces of the library are entered. -/
def entering (m : ModuleMgr A) (library : Library A) : ModuleMgr A :=
  (m.registerQueryModule library.getQueryInterface).registerExtensionModule
    library.getExtensionInterface

theorem registerQueryModule_eq (m : ModuleMgr A) (library : Library A) :
    ∃ queryModules,
      m.registerQueryModule library.getQueryInterface = { m with queryModules := queryModules } ∧
      (∀ a, queryModules.Entered a ↔ m.queryModules.Entered a ∨
        (library.queryModule = some a ∧ library.QueryAccepted m.queryModules a)) ∧
      (m.queryModules.Ready → queryModules.Ready) := by
  unfold Library.queryModule Library.QueryAccepted
  cases library.getQueryInterface with
  | none => exact ⟨_, rfl, by simp, id⟩
  | some offer =>
    obtain ⟨queryModule, answer⟩ := offer
    refine ⟨_, rfl, fun a => ?_, QueryModuleIndex.Ready.registerQueryModule⟩
    rw [QueryModuleIndex.entered_registerQueryModule]
    by_cases ha : queryModule = a <;> simp [ha]

theorem registerExtensionModule_eq (m : ModuleMgr A) (library : Library A) :
    ∃ extensions,
      m.registerExtensionModule library.getExtensionInterface =
        { m with extensions := extensions } ∧
      (∀ a, extensions.Entered a ↔ m.extensions.Entered a ∨
        (library.extensionModule = some a ∧ library.ExtensionAccepted m.extensions a)) ∧
      (m.extensions.Ready → extensions.Ready) := by
  unfold Library.extensionModule Library.ExtensionAccepted
  cases library.getExtensionInterface with
  | none => exact ⟨_, rfl, by simp, id⟩
  | some offer =>
    obtain ⟨extensionModule, answers⟩ := offer
    refine ⟨_, rfl, fun a => ?_, ExtensionIndex.Ready.registerExtensionModule⟩
    rw [ExtensionIndex.entered_registerExtensionModule]
    by_cases ha : extensionModule = a <;> simp [ha]

/-- Only the two indexes change. -/
theorem entering_eq (m : ModuleMgr A) (library : Library A) :
    ∃ queryModules extensions,
      m.entering library = { m with queryModules := queryModules, extensions := extensions } ∧
      (∀ a, queryModules.Entered a ↔ m.queryModules.Entered a ∨
        (library.queryModule = some a ∧ library.QueryAccepted m.queryModules a)) ∧
      (∀ a, extensions.Entered a ↔ m.extensions.Entered a ∨
        (library.extensionModule = some a ∧ library.ExtensionAccepted m.extensions a)) ∧
      (m.queryModules.Ready → queryModules.Ready) ∧ (m.extensions.Ready → extensions.Ready) := by
  obtain ⟨queryModules, hquery, hqueries, hqready⟩ := registerQueryModule_eq m library
  obtain ⟨extensions, hextension, hextensions, heready⟩ :=
    registerExtensionModule_eq { m with queryModules := queryModules } library
  refine ⟨queryModules, extensions, ?_, hqueries, hextensions, hqready, heready⟩
  rw [entering, hquery, hextension]

/-- The record has what the library offers, but for the query module if a transport interface is
missing. -/
theorem takeInterfaces_eq (m : ModuleMgr A) (moduleId : Nat) (r : ModuleRecord A)
    (library : Library A) :
    ∃ r', m.takeInterfaces moduleId r library =
        (library.transports, (m.entering library).setRecord moduleId r') ∧
      SameLibrary r r' ∧ r'.isActive = r.isActive ∧
      r'.extensionModule = library.extensionModule ∧
      r'.queryModule = if library.transports then library.queryModule else none := by
  unfold takeInterfaces entering Library.transports
  cases library.getTransportClientInterface with
  | none => exact ⟨_, rfl, ⟨rfl, rfl⟩, rfl, rfl, rfl⟩
  | some transportClientModule =>
    cases library.getTransportServerInterface with
    | none => exact ⟨_, rfl, ⟨rfl, rfl⟩, rfl, rfl, rfl⟩
    | some transportServerModule => exact ⟨_, rfl, ⟨rfl, rfl⟩, rfl, rfl, rfl⟩

/-- The record of a module whose library is loaded. -/
def startedRecord (r : ModuleRecord A) (moduleInterface : A) : ModuleRecord A :=
  { r with moduleInterface := some moduleInterface, loader := true, isActive := true }

/-- The early returns of a load leave the record in two ways. -/
theorem loadModule_of_find (library : Library A) (hinit : m.initialized = true)
    (hf : m.moduleIndex.find moduleId = some r) (hidle : r.isActive = false) :
    m.loadModule moduleId library =
      if library.file.usable ∧ library.load ∧ library.getFunctionHandle then
        match library.bootstrapMethod with
        | none => (false, m.setRecord moduleId { r with moduleInterface := none })
        | some moduleInterface =>
          if library.setConfiguration ∧ library.start ∧ library.getModuleInfo then
            m.takeInterfaces moduleId (startedRecord r moduleInterface) library
          else (false, m.setRecord moduleId (startedRecord r moduleInterface))
      else (false, m) := by
  rw [loadModule, hinit, hf]
  simp only [hidle, Bool.not_true, Bool.false_eq_true, if_false, Bool.not_eq_true',
    ← Bool.not_eq_true, ite_not, ite_and]
  rfl

/-- What a load does: nothing, or it replaces the record of a module that was not active, or it gets
as far as the interfaces. -/
theorem loadModule_cases (m : ModuleMgr A) (moduleId : Nat) (library : Library A) :
    (m.loadModule moduleId library = (false, m) ∧
      (m.initialized = true → ∀ r, m.moduleIndex.find moduleId = some r → r.isActive = false →
        library.starts = false)) ∨
    ∃ r r', m.moduleIndex.find moduleId = some r ∧ r.isActive = false ∧ SameLibrary r r' ∧
      ((m.loadModule moduleId library = (false, m.setRecord moduleId r') ∧
          library.starts = false ∧ r'.queryModule = r.queryModule ∧
          r'.extensionModule = r.extensionModule) ∨
        (m.loadModule moduleId library = m.takeInterfaces moduleId r' library ∧
          library.starts = true ∧ r'.isActive = true)) := by
  cases hinit : m.initialized with
  | false =>
    rw [loadModule, hinit]
    exact .inl ⟨rfl, fun h => by cases h⟩
  | true =>
    cases hf : m.moduleIndex.find moduleId with
    | none =>
      rw [loadModule, hinit, hf]
      exact .inl ⟨rfl, fun _ r h => by cases h⟩
    | some r =>
      cases hactive : r.isActive with
      | true =>
        rw [loadModule, hinit, hf]
        refine .inl ⟨by simp [hactive], fun _ r' h hidle => ?_⟩
        injection h with h
        subst h
        rw [hactive] at hidle
        cases hidle
      | false =>
        rw [loadModule_of_find library hinit hf hactive]
        unfold Library.starts
        split
        · next hready =>
          obtain ⟨hfile, hload, hhandle⟩ := hready
          right
          cases library.bootstrapMethod with
          | none =>
            exact ⟨r, { r with moduleInterface := none }, rfl, hactive, ⟨rfl, rfl⟩,
              .inl ⟨rfl, by simp, rfl, rfl⟩⟩
          | some moduleInterface =>
            refine ⟨r, startedRecord r moduleInterface, rfl, hactive, ⟨rfl, rfl⟩, ?_⟩
            dsimp only
            split
            · next hstart =>
              obtain ⟨hconfig, hstart, hinfo⟩ := hstart
              refine .inr ⟨rfl, ?_, rfl⟩
              simp [hfile, hload, hhandle, hconfig, hstart, hinfo]
            · next hstart =>
              refine .inl ⟨rfl, ?_, rfl, rfl⟩
              simp only [hfile, hload, hhandle, Option.isSome_some, Bool.true_and]
              simpa [and_assoc] using hstart
        · next hready =>
          refine .inl ⟨rfl, fun _ _ _ _ => ?_⟩
          by_contra hstarts
          apply hready
          simp only [Bool.not_eq_false, Bool.and_eq_true] at hstarts
          exact ⟨hstarts.1.1.1.1.1.1, hstarts.1.1.1.1.1.2, hstarts.1.1.1.1.2⟩

/-- What the interfaces of a library have to be: taken by their index, and nothing new if a
transport interface is missing. -/
def InterfacesClean (m : ModuleMgr A) (library : Library A) : Prop :=
  if library.transports then
    (∀ a, library.queryModule = some a →
      m.queryModules.Entered a ∨ library.QueryAccepted m.queryModules a) ∧
    ∀ a, library.extensionModule = some a →
      m.extensions.Entered a ∨ library.ExtensionAccepted m.extensions a
  else
    (∀ a, library.queryModule = some a → library.QueryAccepted m.queryModules a →
      m.queryModules.Entered a) ∧
    ∀ a, library.extensionModule = some a → m.extensions.Entered a

def LoadClean (m : ModuleMgr A) (moduleId : Nat) (library : Library A) : Prop :=
  ∀ r, m.moduleIndex.find moduleId = some r → r.isActive = false → library.starts = true →
    InterfacesClean m library

theorem Inv.entering (hi : Inv m) (library : Library A) : Inv (m.entering library) := by
  obtain ⟨queryModules, extensions, heq, -, -, hquery, hextension⟩ := entering_eq m library
  rw [heq]
  exact ⟨hi.record, hi.path, hi.idle, hquery hi.query, hextension hi.extension, hi.unused⟩

theorem find_entering (m : ModuleMgr A) (library : Library A) (id : Nat) :
    (m.entering library).moduleIndex.find id = m.moduleIndex.find id := by
  obtain ⟨queryModules, extensions, heq, -⟩ := entering_eq m library
  rw [heq]

omit [DecidableEq A] in
theorem SameLibrary.trans {r'' : ModuleRecord A} (h : SameLibrary r r') (h' : SameLibrary r' r'') :
    SameLibrary r r'' :=
  ⟨h'.path.trans h.path, h'.address.trans h.address⟩

theorem Inv.loadModule (hi : Inv m) (moduleId : Nat) (library : Library A) :
    Inv (m.loadModule moduleId library).2 := by
  rcases loadModule_cases m moduleId library with ⟨h, -⟩ | ⟨r, r', hf, hidle, hs, h⟩
  · rw [h]
    exact hi
  · rcases h with ⟨h, -, hquery, hextension⟩ | ⟨h, -, hactive⟩
    · rw [h]
      refine hi.setRecord hf hs fun _ => ?_
      rw [hquery, hextension]
      exact hi.idle moduleId r hf hidle
    · obtain ⟨r'', htake, hs', hactive', -, -⟩ := takeInterfaces_eq m moduleId r' library
      rw [h, htake]
      refine (hi.entering library).setRecord ((find_entering m library moduleId).trans hf)
        (hs.trans hs') fun hidle' => ?_
      rw [hactive', hactive] at hidle'
      cases hidle'

omit [DecidableEq A] in
theorem heldQuery_of_active (h : r.isActive = true) : r.heldQuery = r.queryModule := if_pos h

omit [DecidableEq A] in
theorem heldExtension_of_active (h : r.isActive = true) : r.heldExtension = r.extensionModule :=
  if_pos h

omit [DecidableEq A] in
theorem heldQuery_of_none (h : r.queryModule = none) : r.heldQuery = none := by
  unfold ModuleRecord.heldQuery
  rw [h, ite_self]

omit [DecidableEq A] in
theorem heldExtension_of_none (h : r.extensionModule = none) : r.heldExtension = none := by
  unfold ModuleRecord.heldExtension
  rw [h, ite_self]

theorem takeInterfaces_iff (hc : Consistent m) (hi : Inv m)
    (hf : m.moduleIndex.find moduleId = some r) (hidle : r.isActive = false)
    (hs : SameLibrary r r') (hactive : r'.isActive = true) :
    (Consistent (m.takeInterfaces moduleId r' library).2 ∧
        ((m.takeInterfaces moduleId r' library).1 = false →
          SameEntered m (m.takeInterfaces moduleId r' library).2)) ↔
      InterfacesClean m library := by
  obtain ⟨r'', htake, hs', hactive', hextension, hquery⟩ :=
    takeInterfaces_eq m moduleId r' library
  obtain ⟨queryModules, extensions, heq, hqueries, hextensions, -, -⟩ := entering_eq m library
  obtain ⟨hq, he⟩ := hi.idle moduleId r hf hidle
  have hq := heldQuery_of_none hq
  have he := heldExtension_of_none he
  have hr'' : r''.isActive = true := hactive'.trans hactive
  have hone : OneToOne ((m.entering library).setRecord moduleId r'') := by
    have hone' : OneToOne (m.entering library) := by
      rw [heq]
      exact ⟨hc.oneToOne.path, hc.oneToOne.id, hc.oneToOne.sole⟩
    exact hone'.setRecord ((find_entering m library moduleId).trans hf) (hs.trans hs')
  have hext := hc.extension.offered_iff hf he
    ((heldExtension_of_active hr'').trans hextension) hextensions
  rw [htake]
  unfold InterfacesClean
  rw [heq] at hone ⊢
  cases htransports : library.transports with
  | true =>
    rw [htransports] at hquery
    have hquery' := hc.query.offered_iff hf hq ((heldQuery_of_active hr'').trans hquery) hqueries
    constructor
    · rintro ⟨h, -⟩
      exact ⟨hquery'.mp h.query, hext.mp h.extension⟩
    · rintro ⟨hclean, hclean'⟩
      exact ⟨⟨hone, hquery'.mpr hclean, hext.mpr hclean'⟩, fun h => by cases h⟩
  | false =>
    rw [htransports] at hquery
    have hquery' := hc.query.dropped_iff hf hq (heldQuery_of_none hquery) hqueries
    constructor
    · rintro ⟨h, hsame⟩
      refine ⟨hquery'.mp h.query, fun a ha => ?_⟩
      have hentered : extensions.Entered a := by
        rcases hext.mp h.extension a ha with hin | hok
        · exact (hextensions a).mpr (.inl hin)
        · exact (hextensions a).mpr (.inr ⟨ha, hok⟩)
      exact ((hsame rfl a).2).mp hentered
    · rintro ⟨hclean, hclean'⟩
      refine ⟨⟨hone, hquery'.mpr hclean, hext.mpr fun a ha => .inl (hclean' a ha)⟩,
        fun _ a => ⟨?_, ?_⟩⟩
      · refine (hqueries a).trans ⟨?_, .inl⟩
        rintro (h | ⟨ha, hok⟩)
        · exact h
        · exact hclean a ha hok
      · refine (hextensions a).trans ⟨?_, .inl⟩
        rintro (h | ⟨ha, -⟩)
        · exact h
        · exact hclean' a ha

theorem loadModule_iff (hc : Consistent m) (hi : Inv m) :
    (Consistent (m.loadModule moduleId library).2 ∧
        ((m.loadModule moduleId library).1 = false →
          SameEntered m (m.loadModule moduleId library).2)) ↔
      LoadClean m moduleId library := by
  rcases loadModule_cases m moduleId library with ⟨h, hno⟩ | ⟨r, r', hf, hidle, hs, h⟩
  · rw [h]
    refine ⟨fun _ r hf hidle hstarts => ?_, fun _ => ⟨hc, fun _ _ => ⟨Iff.rfl, Iff.rfl⟩⟩⟩
    rw [hno (hi.initialized_of_find hf) r hf hidle] at hstarts
    cases hstarts
  · have hclean : LoadClean m moduleId library ↔
        (library.starts = true → InterfacesClean m library) := by
      refine ⟨fun hload => hload r hf hidle, fun hload w hw _ hstarts => hload hstarts⟩
    rw [hclean]
    rcases h with ⟨h, hstarts, hquery, hextension⟩ | ⟨h, hstarts, hactive⟩
    · rw [h]
      obtain ⟨hq, he⟩ := hi.idle moduleId r hf hidle
      constructor
      · intro _ hstarts'
        rw [hstarts] at hstarts'
        cases hstarts'
      · refine fun _ => ⟨⟨hc.oneToOne.setRecord hf hs, hc.query.assign hf ?_,
          hc.extension.assign hf ?_⟩, fun _ _ => ⟨Iff.rfl, Iff.rfl⟩⟩
        · rw [heldQuery_of_none hq, heldQuery_of_none (hquery.trans hq)]
        · rw [heldExtension_of_none he, heldExtension_of_none (hextension.trans he)]
    · rw [h, takeInterfaces_iff hc hi hf hidle hs hactive]
      exact ⟨fun hclean _ => hclean, fun hclean => hclean hstarts⟩

/-! ## A module is unloaded -/

/-- A module that stops holds nothing that another one holds; one that does not stop holds
nothing. -/
def UnloadClean (m : ModuleMgr A) (moduleId : Nat) (stop : Bool) : Prop :=
  ∀ r, m.moduleIndex.find moduleId = some r → r.isActive = true →
    if stop then
      (∀ a, r.queryModule = some a →
        ¬ HeldElse ModuleRecord.heldQuery m.moduleIndex moduleId a) ∧
      ∀ a, r.extensionModule = some a →
        ¬ HeldElse ModuleRecord.heldExtension m.moduleIndex moduleId a
    else r.queryModule = none ∧ r.extensionModule = none

/-- The indexes without the interfaces of the record. -/
def leaving (m : ModuleMgr A) (r : ModuleRecord A) : ModuleMgr A :=
  (m.removeQueryModule r.queryModule).removeExtensionModule r.extensionModule

theorem removeQueryModule_eq (hr : m.queryModules.Ready) (queryModule : Option A) :
    ∃ queryModules, m.removeQueryModule queryModule = { m with queryModules := queryModules } ∧
      (∀ a, queryModules.Entered a ↔ m.queryModules.Entered a ∧ queryModule ≠ some a) ∧
      queryModules.Ready := by
  cases queryModule with
  | none => exact ⟨_, rfl, by simp, hr⟩
  | some queryModule =>
    refine ⟨_, rfl, fun a => ?_, QueryModuleIndex.Ready.removeQueryModule hr⟩
    rw [QueryModuleIndex.entered_removeQueryModule hr]
    simp

theorem removeExtensionModule_eq (hr : m.extensions.Ready) (extensionModule : Option A) :
    ∃ extensions, m.removeExtensionModule extensionModule = { m with extensions := extensions } ∧
      (∀ a, extensions.Entered a ↔ m.extensions.Entered a ∧ extensionModule ≠ some a) ∧
      extensions.Ready := by
  cases extensionModule with
  | none => exact ⟨_, rfl, by simp, hr⟩
  | some extensionModule =>
    refine ⟨_, rfl, fun a => ?_, ExtensionIndex.Ready.removeExtensionModule hr⟩
    rw [ExtensionIndex.entered_removeExtensionModule hr]
    simp

theorem leaving_eq (hi : Inv m) (r : ModuleRecord A) :
    ∃ queryModules extensions,
      m.leaving r = { m with queryModules := queryModules, extensions := extensions } ∧
      (∀ a, queryModules.Entered a ↔ m.queryModules.Entered a ∧ r.queryModule ≠ some a) ∧
      (∀ a, extensions.Entered a ↔ m.extensions.Entered a ∧ r.extensionModule ≠ some a) ∧
      queryModules.Ready ∧ extensions.Ready := by
  obtain ⟨queryModules, hquery, hqueries, hqready⟩ := removeQueryModule_eq hi.query r.queryModule
  obtain ⟨extensions, hextension, hextensions, heready⟩ :=
    removeExtensionModule_eq (m := { m with queryModules := queryModules }) hi.extension
      r.extensionModule
  refine ⟨queryModules, extensions, ?_, hqueries, hextensions, hqready, heready⟩
  rw [leaving, hquery, hextension]

/-- The record of a module that has stopped. -/
def stoppedRecord (r : ModuleRecord A) : ModuleRecord A :=
  { r with
    loader := false
    isActive := false
    moduleInterface := none
    queryModule := none
    extensionModule := none
    transportClientModule := none
    transportServerModule := none }

/-- An unload does nothing, or takes the interfaces of an active record out. -/
theorem unloadModule_cases (m : ModuleMgr A) (moduleId : Nat) (stop : Bool) :
    (m.unloadModule moduleId stop = (false, m) ∧
      (m.initialized = true → ∀ r, m.moduleIndex.find moduleId = some r → r.isActive = false)) ∨
    ∃ r, m.moduleIndex.find moduleId = some r ∧ r.isActive = true ∧
      m.unloadModule moduleId stop =
        if stop then (true, (m.leaving r).setRecord moduleId (stoppedRecord r))
        else (false, m.leaving r) := by
  cases hinit : m.initialized with
  | false =>
    rw [unloadModule, hinit]
    exact .inl ⟨rfl, fun h => by cases h⟩
  | true =>
    cases hf : m.moduleIndex.find moduleId with
    | none =>
      rw [unloadModule, hinit, hf]
      exact .inl ⟨rfl, fun _ r h => by cases h⟩
    | some r =>
      rw [unloadModule, hinit, hf]
      cases hactive : r.isActive with
      | false =>
        refine .inl ⟨by simp [hactive], fun _ r' h => ?_⟩
        injection h with h
        subst h
        exact hactive
      | true =>
        refine .inr ⟨r, rfl, hactive, ?_⟩
        cases stop with
        | false => simp [hactive, leaving]
        | true =>
          simp only [hactive]
          rfl

theorem Inv.leaving (hi : Inv m) (r : ModuleRecord A) : Inv (m.leaving r) := by
  obtain ⟨queryModules, extensions, heq, -, -, hquery, hextension⟩ := leaving_eq hi r
  rw [heq]
  exact ⟨hi.record, hi.path, hi.idle, hquery, hextension, hi.unused⟩

theorem find_leaving (hi : Inv m) (r : ModuleRecord A) (id : Nat) :
    (m.leaving r).moduleIndex.find id = m.moduleIndex.find id := by
  obtain ⟨queryModules, extensions, heq, -⟩ := leaving_eq hi r
  rw [heq]

theorem Inv.unloadModule (hi : Inv m) (moduleId : Nat) (stop : Bool) :
    Inv (m.unloadModule moduleId stop).2 := by
  rcases unloadModule_cases m moduleId stop with ⟨h, -⟩ | ⟨r, hf, -, h⟩
  · rw [h]
    exact hi
  · rw [h]
    cases stop with
    | false => exact hi.leaving r
    | true =>
      exact (hi.leaving r).setRecord ((find_leaving hi r moduleId).trans hf) ⟨rfl, rfl⟩
        fun _ => ⟨rfl, rfl⟩

theorem unloadModule_iff (hc : Consistent m) (hi : Inv m) :
    (Consistent (m.unloadModule moduleId stop).2 ∧
        ((m.unloadModule moduleId stop).1 = false →
          SameEntered m (m.unloadModule moduleId stop).2)) ↔
      UnloadClean m moduleId stop := by
  rcases unloadModule_cases m moduleId stop with ⟨h, hno⟩ | ⟨r, hf, hactive, h⟩
  · rw [h]
    refine ⟨fun _ r hf hactive => ?_, fun _ => ⟨hc, fun _ _ => ⟨Iff.rfl, Iff.rfl⟩⟩⟩
    rw [hno (hi.initialized_of_find hf) r hf] at hactive
    cases hactive
  · obtain ⟨queryModules, extensions, heq, hqueries, hextensions, -, -⟩ := leaving_eq hi r
    have hq := heldQuery_of_active hactive
    have he := heldExtension_of_active hactive
    rw [h, heq]
    rw [← hq] at hqueries
    rw [← he] at hextensions
    have hclean : UnloadClean m moduleId stop ↔
        if stop then
          (∀ a, r.heldQuery = some a →
            ¬ HeldElse ModuleRecord.heldQuery m.moduleIndex moduleId a) ∧
          ∀ a, r.heldExtension = some a →
            ¬ HeldElse ModuleRecord.heldExtension m.moduleIndex moduleId a
        else r.heldQuery = none ∧ r.heldExtension = none := by
      rw [hq, he]
      refine ⟨fun hunload => hunload r hf hactive, fun hunload w hw _ => ?_⟩
      rw [hf] at hw
      injection hw with hw
      subst hw
      exact hunload
    rw [hclean]
    cases stop with
    | true =>
      have hquery := hc.query.released_iff hf (heldQuery_of_none (r := stoppedRecord r) rfl) hqueries
      have hextension := hc.extension.released_iff hf
        (heldExtension_of_none (r := stoppedRecord r) rfl) hextensions
      have hone : OneToOne
          { m with queryModules := queryModules, extensions := extensions } :=
        ⟨hc.oneToOne.path, hc.oneToOne.id, hc.oneToOne.sole⟩
      constructor
      · rintro ⟨h, -⟩
        exact ⟨hquery.mp h.query, hextension.mp h.extension⟩
      · rintro ⟨hsole, hsole'⟩
        exact ⟨⟨hone.setRecord hf ⟨rfl, rfl⟩, hquery.mpr hsole, hextension.mpr hsole'⟩,
          fun h => by cases h⟩
    | false =>
      have hquery := hc.query.withheld_iff hf hqueries
      have hextension := hc.extension.withheld_iff hf hextensions
      constructor
      · rintro ⟨h, -⟩
        exact ⟨hquery.mp h.query, hextension.mp h.extension⟩
      · rintro ⟨hnone, hnone'⟩
        refine ⟨⟨⟨hc.oneToOne.path, hc.oneToOne.id, hc.oneToOne.sole⟩, hquery.mpr hnone,
          hextension.mpr hnone'⟩, fun _ a => ⟨?_, ?_⟩⟩
        · show queryModules.Entered a ↔ _
          rw [hqueries, hnone]
          simp
        · show extensions.Entered a ↔ _
          rw [hextensions, hnone']
          simp

/-! ## The manager stays initialised -/

theorem initialized_loadModule (hinit : m.initialized = true) :
    (m.loadModule moduleId library).2.initialized = true := by
  rcases loadModule_cases m moduleId library with ⟨h, -⟩ | ⟨r, r', -, -, -, ⟨h, -⟩ | ⟨h, -⟩⟩ <;>
    rw [h]
  · exact hinit
  · exact hinit
  · obtain ⟨r'', htake, -⟩ := takeInterfaces_eq m moduleId r' library
    obtain ⟨queryModules, extensions, heq, -⟩ := entering_eq m library
    rw [htake, heq]
    exact hinit

theorem initialized_leaving (m : ModuleMgr A) (r : ModuleRecord A) :
    (m.leaving r).initialized = m.initialized := by
  unfold leaving removeQueryModule removeExtensionModule
  cases r.queryModule <;> cases r.extensionModule <;> rfl

theorem initialized_unloadModule (hinit : m.initialized = true) :
    (m.unloadModule moduleId stop).2.initialized = true := by
  rcases unloadModule_cases m moduleId stop with ⟨h, -⟩ | ⟨r, -, -, h⟩ <;> rw [h]
  · exact hinit
  · cases stop <;> exact (initialized_leaving m r).trans hinit

omit [DecidableEq A] in
theorem initialized_eraseModule : (m.eraseModule moduleId).2.initialized = m.initialized := by
  unfold eraseModule
  cases m.moduleIndex.find moduleId <;> rfl

end ModuleMgr

end Alpine
