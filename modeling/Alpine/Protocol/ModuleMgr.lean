import Alpine.Protocol.ExtensionIndex
import Alpine.Protocol.QueryModuleIndex

/-!
# The manager of the loaded modules

`AlpineModuleMgr` has a record for each library that was registered, by id and by path. Loading a
module asks its library for the interfaces and enters the query and the extension module in their
indexes; unloading takes them out and stops the module. Whatever the file system and the library say
is in the arguments. `A` are the addresses of the interfaces; the path index has a record by its own
address, which nothing follows.
-/

namespace Alpine

open Lib

variable {A : Type} [DecidableEq A]

/-- `t_ModuleRecord`. -/
structure ModuleRecord (A : Type) where
  address : Nat
  id : Nat
  libraryPath : String
  bootstrapSymbol : String
  isActive : Bool
  loader : Bool
  moduleInterface : Option A
  queryModule : Option A
  extensionModule : Option A
  transportClientModule : Option A
  transportServerModule : Option A

/-- What `FileUtils` says of a library. -/
structure LibraryFile where
  present : Bool
  fileInfo : Option (Bool × Bool)

/-- The file is there, and can be read and executed. -/
def LibraryFile.usable (file : LibraryFile) : Bool :=
  file.present &&
    match file.fileInfo with
    | none => false
    | some (canRead, canExecute) => canRead && canExecute

/-- What a library says while it is loaded: the outcomes of the loader, of the bootstrap function
and of the calls of its interface, with what the query and the extension module answer to their
index. -/
structure Library (A : Type) where
  file : LibraryFile
  load : Bool
  getFunctionHandle : Bool
  bootstrapMethod : Option A
  setConfiguration : Bool
  start : Bool
  getModuleInfo : Bool
  getQueryInterface : Option (A × Option (List Nat))
  getExtensionInterface : Option (A × ExtensionAnswers)
  getTransportClientInterface : Option A
  getTransportServerInterface : Option A

/-- The static members of `AlpineModuleMgr`, and the two indexes it enters the interfaces in. -/
structure ModuleMgr (A : Type) where
  initialized : Bool
  currModuleId : Nat
  nextAddress : Nat
  moduleIndex : UMap Nat (ModuleRecord A)
  modulePathIndex : UMap String Nat
  queryModules : QueryModuleIndex A
  extensions : ExtensionIndex A

namespace ModuleMgr

def new : ModuleMgr A := ⟨false, 0, 0, ∅, ∅, .new, .new⟩

def initializeMgr (m : ModuleMgr A) : Bool × ModuleMgr A :=
  if m.initialized then (false, m)
  else (true, { m with initialized := true, moduleIndex := ∅, modulePathIndex := ∅ })

def existsId (m : ModuleMgr A) (moduleId : Nat) : Bool :=
  m.initialized && (m.moduleIndex.find moduleId).isSome

def existsPath (m : ModuleMgr A) (libraryPath : String) : Bool :=
  m.initialized && (m.modulePathIndex.find libraryPath).isSome

def isActive (m : ModuleMgr A) (moduleId : Nat) : Bool :=
  m.initialized &&
    match m.moduleIndex.find moduleId with
    | none => false
    | some moduleRecord => moduleRecord.isActive

/-! ## Registering a library -/

/-- The first section of `registerModule`: the path must not be defined. -/
def checkPath (m : ModuleMgr A) (libraryPath : String) : Bool :=
  m.initialized && !(m.modulePathIndex.find libraryPath).isSome

/-- The second section, after the file was looked at. -/
def insertModule (m : ModuleMgr A) (libraryPath bootstrapSymbol : String) : ModuleMgr A :=
  let moduleRecord : ModuleRecord A :=
    ⟨m.nextAddress, m.currModuleId, libraryPath, bootstrapSymbol, false, false, none, none, none,
      none, none⟩
  { m with
    currModuleId := (m.currModuleId + 1) % 2 ^ 64
    nextAddress := m.nextAddress + 1
    moduleIndex := m.moduleIndex.emplace m.currModuleId moduleRecord
    modulePathIndex := m.modulePathIndex.emplace libraryPath m.nextAddress }

/-- The last section of `unregisterModule`. -/
def eraseModule (m : ModuleMgr A) (moduleId : Nat) : Bool × ModuleMgr A :=
  match m.moduleIndex.find moduleId with
  | none => (false, m)
  | some moduleRecord =>
    (true,
      { m with
        modulePathIndex := m.modulePathIndex.erase moduleRecord.libraryPath
        moduleIndex := m.moduleIndex.erase moduleId })

/-! ## Loading and unloading -/

def setRecord (m : ModuleMgr A) (moduleId : Nat) (moduleRecord : ModuleRecord A) : ModuleMgr A :=
  { m with moduleIndex := m.moduleIndex.assign moduleId moduleRecord }

def registerQueryModule (m : ModuleMgr A) : Option (A × Option (List Nat)) → ModuleMgr A
  | none => m
  | some (queryModule, answer) =>
    { m with queryModules := (m.queryModules.registerQueryModule queryModule answer).2 }

def registerExtensionModule (m : ModuleMgr A) : Option (A × ExtensionAnswers) → ModuleMgr A
  | none => m
  | some (extensionModule, answers) =>
    { m with extensions := (m.extensions.registerExtensionModule extensionModule answers).2 }

/-- The interfaces of a module that has started. Without a transport interface it is the query
module of the record that is cleared. -/
def takeInterfaces (m : ModuleMgr A) (moduleId : Nat) (moduleRecord : ModuleRecord A)
    (library : Library A) : Bool × ModuleMgr A :=
  let m := m.registerQueryModule library.getQueryInterface
  let m := m.registerExtensionModule library.getExtensionInterface
  let moduleRecord :=
    { moduleRecord with
      queryModule := library.getQueryInterface.map Prod.fst
      extensionModule := library.getExtensionInterface.map Prod.fst }
  match library.getTransportClientInterface with
  | none => (false, m.setRecord moduleId { moduleRecord with queryModule := none })
  | some transportClientModule =>
    let moduleRecord := { moduleRecord with transportClientModule := some transportClientModule }
    match library.getTransportServerInterface with
    | none => (false, m.setRecord moduleId { moduleRecord with queryModule := none })
    | some transportServerModule =>
      (true,
        m.setRecord moduleId
          { moduleRecord with transportServerModule := some transportServerModule })

/-- A module whose configuration or start fails counts as active. -/
def loadModule (m : ModuleMgr A) (moduleId : Nat) (library : Library A) : Bool × ModuleMgr A :=
  if !m.initialized then (false, m)
  else
    match m.moduleIndex.find moduleId with
    | none => (false, m)
    | some moduleRecord =>
      if moduleRecord.isActive then (false, m)
      else if !library.file.usable then (false, m)
      else if !library.load then (false, m)
      else if !library.getFunctionHandle then (false, m)
      else
        match library.bootstrapMethod with
        | none => (false, m.setRecord moduleId { moduleRecord with moduleInterface := none })
        | some moduleInterface =>
          let moduleRecord :=
            { moduleRecord with
              moduleInterface := some moduleInterface
              loader := true
              isActive := true }
          if !library.setConfiguration then (false, m.setRecord moduleId moduleRecord)
          else if !library.start then (false, m.setRecord moduleId moduleRecord)
          else if !library.getModuleInfo then (false, m.setRecord moduleId moduleRecord)
          else m.takeInterfaces moduleId moduleRecord library

def removeQueryModule (m : ModuleMgr A) : Option A → ModuleMgr A
  | none => m
  | some queryModule => { m with queryModules := (m.queryModules.removeQueryModule queryModule).2 }

def removeExtensionModule (m : ModuleMgr A) : Option A → ModuleMgr A
  | none => m
  | some extensionModule =>
    { m with extensions := (m.extensions.removeExtensionModule extensionModule).2 }

/-- `stop` is what the module says; one that does not stop stays active. -/
def unloadModule (m : ModuleMgr A) (moduleId : Nat) (stop : Bool) : Bool × ModuleMgr A :=
  if !m.initialized then (false, m)
  else
    match m.moduleIndex.find moduleId with
    | none => (false, m)
    | some moduleRecord =>
      if !moduleRecord.isActive then (false, m)
      else
        let m := m.removeQueryModule moduleRecord.queryModule
        let m := m.removeExtensionModule moduleRecord.extensionModule
        if !stop then (false, m)
        else
          (true,
            m.setRecord moduleId
              { moduleRecord with
                loader := false
                isActive := false
                moduleInterface := none
                queryModule := none
                extensionModule := none
                transportClientModule := none
                transportServerModule := none })

end ModuleMgr

/-! ## Calls in sections -/

/-- The calls that take the lock more than once; those of `AlpineStackInterface` begin with a check
of their own. -/
inductive ModuleRequest where
  | registerModule (libraryPath bootstrapSymbol : String)
  | stackRegisterModule (libraryPath bootstrapSymbol : String)
  | unregisterModule (moduleId : Nat)
  | stackUnregisterModule (moduleId : Nat)

/-- The section that comes next in a call that is under way. -/
inductive PendingSection where
  | checkPath (libraryPath bootstrapSymbol : String)
  | insertModule (stack : Bool) (libraryPath bootstrapSymbol : String)
  | existsId (moduleId : Nat)
  | isActive (moduleId : Nat)
  | unloadModule (moduleId : Nat)
  | eraseModule (moduleId : Nat)

/-- The manager, and the next section of each call. -/
structure ModuleState (A : Type) where
  mgr : ModuleMgr A
  pending : UMap Nat PendingSection

/-- One section of some call, with what its environment says. -/
inductive ModuleSection (A : Type) where
  | initializeMgr
  | initializeQueryModules
  | initializeExtensions
  | loadModule (moduleId : Nat) (library : Library A)
  | unloadModule (moduleId : Nat) (stop : Bool)
  | start (call : Nat) (request : ModuleRequest)
  | proceed (call : Nat) (file : LibraryFile) (stop : Bool)

inductive ModuleEvent where
  | loadModule (status : Bool)
  | unloadModule (status : Bool)
  | stackRegisterModule (libraryPath : String) (status : Bool)
  deriving DecidableEq, Repr

namespace ModuleState

def new : ModuleState A := ⟨.new, ∅⟩

/-- The call goes on with another section. -/
def goOn (s : ModuleState A) (call : Nat) (next : PendingSection) :
    ModuleState A × List ModuleEvent :=
  ({ s with pending := s.pending.assign call next }, [])

def finish (s : ModuleState A) (call : Nat) (mgr : ModuleMgr A) (events : List ModuleEvent) :
    ModuleState A × List ModuleEvent :=
  (⟨mgr, s.pending.erase call⟩, events)

/-- A registration through the stack interface tells its caller. -/
def registered (stack : Bool) (libraryPath : String) (status : Bool) : List ModuleEvent :=
  if stack then [.stackRegisterModule libraryPath status] else []

def checkPath (s : ModuleState A) (call : Nat) (stack : Bool) (libraryPath symbol : String) :
    ModuleState A × List ModuleEvent :=
  if s.mgr.checkPath libraryPath then s.goOn call (.insertModule stack libraryPath symbol)
  else s.finish call s.mgr (registered stack libraryPath false)

def checkId (s : ModuleState A) (call moduleId : Nat) : ModuleState A × List ModuleEvent :=
  if s.mgr.existsId moduleId then s.goOn call (.isActive moduleId)
  else s.finish call s.mgr []

/-- The first section of a call. `AlpineStackInterface::registerModule` goes on if the path is
there. -/
def start (s : ModuleState A) (call : Nat) : ModuleRequest → ModuleState A × List ModuleEvent
  | .registerModule libraryPath symbol => s.checkPath call false libraryPath symbol
  | .stackRegisterModule libraryPath symbol =>
    if s.mgr.existsPath libraryPath then s.goOn call (.checkPath libraryPath symbol)
    else s.finish call s.mgr (registered true libraryPath false)
  | .unregisterModule moduleId => s.checkId call moduleId
  | .stackUnregisterModule moduleId =>
    if s.mgr.existsId moduleId then s.goOn call (.existsId moduleId)
    else s.finish call s.mgr []

/-- The next section of a call. A library is looked at between the two sections of its
registration. -/
def proceed (s : ModuleState A) (call : Nat) (file : LibraryFile) (stop : Bool) :
    PendingSection → ModuleState A × List ModuleEvent
  | .checkPath libraryPath symbol => s.checkPath call true libraryPath symbol
  | .insertModule stack libraryPath symbol =>
    if file.usable then
      s.finish call (s.mgr.insertModule libraryPath symbol) (registered stack libraryPath true)
    else s.finish call s.mgr (registered stack libraryPath false)
  | .existsId moduleId => s.checkId call moduleId
  | .isActive moduleId =>
    s.goOn call (if s.mgr.isActive moduleId then .unloadModule moduleId else .eraseModule moduleId)
  | .unloadModule moduleId =>
    (⟨(s.mgr.unloadModule moduleId stop).2, s.pending.assign call (.eraseModule moduleId)⟩,
      [.unloadModule (s.mgr.unloadModule moduleId stop).1])
  | .eraseModule moduleId => s.finish call (s.mgr.eraseModule moduleId).2 []

def step (s : ModuleState A) : ModuleSection A → ModuleState A × List ModuleEvent
  | .initializeMgr => ({ s with mgr := s.mgr.initializeMgr.2 }, [])
  | .initializeQueryModules =>
    ({ s with mgr := { s.mgr with queryModules := s.mgr.queryModules.initializeIndex.2 } }, [])
  | .initializeExtensions =>
    ({ s with mgr := { s.mgr with extensions := s.mgr.extensions.initializeIndex.2 } }, [])
  | .loadModule moduleId library =>
    ({ s with mgr := (s.mgr.loadModule moduleId library).2 },
      [.loadModule (s.mgr.loadModule moduleId library).1])
  | .unloadModule moduleId stop =>
    ({ s with mgr := (s.mgr.unloadModule moduleId stop).2 },
      [.unloadModule (s.mgr.unloadModule moduleId stop).1])
  | .start call request =>
    match s.pending.find call with
    | none => s.start call request
    | some _ => (s, [])
  | .proceed call file stop =>
    match s.pending.find call with
    | none => (s, [])
    | some next => s.proceed call file stop next

end ModuleState

end Alpine
