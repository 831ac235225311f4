import Alpine.Lib.Run
import Alpine.Lib.UMap

/-!
# The query cache of the virtual file system

Each call is the sequence of its sections under the lock. A step is one section, or a part of
`executeQuery`, which runs without the lock; between two steps of a thread the others go on. A node
of the index has an address, so that a reference to it that is kept from one section to the next can
be told from one to a later node of the same term.

Times are nanoseconds. The time to live is a number of seconds that `std::chrono` converts to signed
64-bit nanoseconds, so from 9223372037 seconds on it wraps around (`ttl`). `AlpineStackInterface`
numbers the queries that it starts, and what it says of them is an input.
-/

namespace Alpine

open Lib

/-- `t_CachedQuery`, for any results and any status. -/
structure CachedQuery (ρ σ : Type) where
  queryId : Nat
  queryTerm : String
  results : ρ
  status : σ
  fetchedAt : Nat
  complete : Bool

/-- `t_CachedQuery{}`. -/
def CachedQuery.value (ρ σ : Type) [Inhabited ρ] [Inhabited σ] : CachedQuery ρ σ :=
  ⟨0, "", default, default, 0, false⟩

/-- A node of the index. -/
structure CacheNode (ρ σ : Type) where
  address : Nat
  entry : CachedQuery ρ σ

/-- What the stack says of a query. -/
structure StackAnswers (ρ σ : Type) where
  /-- Whether `startQuery2` starts it. -/
  accepted : Bool
  inProgress : Bool
  status : Option σ
  results : Option ρ

inductive CachePc (ρ σ : Type) where
  | idle
  /-- In `getOrCreateQuery`, after `evictExpired`. -/
  | evicted (searchTerm : String)
  /-- With a reference to a node, between the two locks. -/
  | refreshing (searchTerm : String) (address : Nat)
  /-- Before `executeQuery`; `creates` tells `getOrCreateQuery` from `refreshQuery`. -/
  | missed (searchTerm : String) (creates : Bool)
  /-- In `executeQuery`, after `startQuery2`. -/
  | started (searchTerm : String) (creates : Bool) (queryId : Nat)
  /-- After `executeQuery`. -/
  | fetched (searchTerm : String) (creates : Bool) (entry : CachedQuery ρ σ)

structure CacheState (ρ σ : Type) where
  queryIndex : UMap String (CacheNode ρ σ)
  /-- The address of the next node. -/
  nextAddress : Nat
  ttlSeconds : Nat
  clock : Nat
  /-- The terms of the queries that were started, a query's number is its place. -/
  started : List String
  threads : Nat → CachePc ρ σ

inductive CacheStep (ρ σ : Type) where
  /-- The call begins with the section of `evictExpired`. -/
  | getOrCreateQuery (t : Nat) (searchTerm : String)
  /-- The call begins with the section that erases. -/
  | refreshQuery (t : Nat) (searchTerm : String)
  /-- The next part of a thread's call. -/
  | proceed (t : Nat) (answers : StackAnswers ρ σ)
  | evictExpired
  | remove (searchTerm : String)
  /-- `initialize`. -/
  | reset (ttlSeconds : Nat)
  | isCached (searchTerm : String)
  | getAllTerms
  | tick (duration : Nat)

inductive CacheEvent (ρ σ : Type) where
  /-- `getOrCreateQuery` returns an entry. -/
  | returned (cached : CachedQuery ρ σ)
  /-- A node is used that is not there any more. -/
  | erasedUsed (searchTerm : String)
  | answered (result : Bool)
  | terms (terms : List String)

namespace CacheState

variable {ρ σ : Type}

def start (ttlSeconds : Nat) : CacheState ρ σ where
  queryIndex := ∅
  nextAddress := 0
  ttlSeconds := ttlSeconds
  clock := 0
  started := []
  threads _ := .idle

def setPc (s : CacheState ρ σ) (t : Nat) (pc : CachePc ρ σ) : CacheState ρ σ :=
  { s with threads := Function.update s.threads t pc }

/-- `std::chrono::seconds(ttlSeconds_s)` when it is compared with a difference of two times. -/
def ttl (s : CacheState ρ σ) : Int := Int.bmod (s.ttlSeconds * 1000000000) (2 ^ 64)

def elapsed (s : CacheState ρ σ) (entry : CachedQuery ρ σ) : Int := s.clock - entry.fetchedAt

/-- What `evictExpired` takes for older than the time to live. -/
def isExpired (s : CacheState ρ σ) (entry : CachedQuery ρ σ) : Bool := s.elapsed entry > s.ttl

def evictExpired (s : CacheState ρ σ) : CacheState ρ σ :=
  { s with queryIndex := s.queryIndex.keep fun node => !s.isExpired node.entry }

def remove (s : CacheState ρ σ) (searchTerm : String) : CacheState ρ σ :=
  { s with queryIndex := s.queryIndex.erase searchTerm }

/-- `initialize`. -/
def reset (s : CacheState ρ σ) (ttlSeconds : Nat) : CacheState ρ σ :=
  { s with queryIndex := ∅, ttlSeconds }

/-- What the refresh of an entry sets. -/
def refreshed (entry : CachedQuery ρ σ) (answers : StackAnswers ρ σ) : CachedQuery ρ σ :=
  { entry with
    complete := !answers.inProgress
    status := answers.status.getD entry.status
    results := answers.results.getD entry.results }

variable [Inhabited ρ] [Inhabited σ]

/-- `operator[]`, which inserts. -/
def subscript (s : CacheState ρ σ) (searchTerm : String) : CacheState ρ σ × CacheNode ρ σ :=
  match s.queryIndex.find searchTerm with
  | some node => (s, node)
  | none =>
    ({ s with
      queryIndex := s.queryIndex.assign searchTerm ⟨s.nextAddress, .value ρ σ⟩
      nextAddress := s.nextAddress + 1 }, ⟨s.nextAddress, .value ρ σ⟩)

/-- `queryIndex_s[searchTerm] = entry`. -/
def store (s : CacheState ρ σ) (searchTerm : String) (entry : CachedQuery ρ σ) : CacheState ρ σ :=
  let (s', node) := s.subscript searchTerm
  { s' with queryIndex := s'.queryIndex.assign searchTerm { node with entry } }

/-- The section under the read lock of `getOrCreateQuery`. -/
def lookup (s : CacheState ρ σ) (t : Nat) (searchTerm : String) :
    CacheState ρ σ × List (CacheEvent ρ σ) :=
  if (s.queryIndex.find searchTerm).isSome then
    let (s', node) := s.subscript searchTerm
    if node.entry.complete then (s'.setPc t .idle, [.returned node.entry])
    else (s'.setPc t (.refreshing searchTerm node.address), [])
  else (s.setPc t (.missed searchTerm true), [])

/-- The section under the write lock that follows for a query that was in progress. -/
def refresh (s : CacheState ρ σ) (t : Nat) (searchTerm : String) (address : Nat)
    (answers : StackAnswers ρ σ) : CacheState ρ σ × List (CacheEvent ρ σ) :=
  match s.queryIndex.find searchTerm with
  | none => (s.setPc t .idle, [.erasedUsed searchTerm])
  | some node =>
    if node.address = address then
      let entry := refreshed node.entry answers
      ({ s with queryIndex := s.queryIndex.assign searchTerm { node with entry } }.setPc t .idle,
        [.returned entry])
    else (s.setPc t .idle, [.erasedUsed searchTerm])

/-- What `executeQuery` puts into the entry. -/
def execute (s : CacheState ρ σ) (searchTerm : String) (queryId : Nat)
    (answers : StackAnswers ρ σ) : CachedQuery ρ σ :=
  refreshed { CachedQuery.value ρ σ with queryId, queryTerm := searchTerm, fetchedAt := s.clock }
    answers

def isCached (s : CacheState ρ σ) (searchTerm : String) :
    CacheState ρ σ × List (CacheEvent ρ σ) :=
  if (s.queryIndex.find searchTerm).isSome then
    let (s', node) := s.subscript searchTerm
    (s', [.answered (s.elapsed node.entry < s.ttl)])
  else (s, [.answered false])

def proceed (s : CacheState ρ σ) (t : Nat) (answers : StackAnswers ρ σ) :
    CacheState ρ σ × List (CacheEvent ρ σ) :=
  match s.threads t with
  | .idle => (s, [])
  | .evicted searchTerm => s.lookup t searchTerm
  | .refreshing searchTerm address => s.refresh t searchTerm address answers
  | .missed searchTerm creates =>
    if answers.accepted then
      ({ s with started := s.started ++ [searchTerm] }.setPc t
        (.started searchTerm creates s.started.length), [])
    else (s.setPc t .idle, [.answered false])
  | .started searchTerm creates queryId =>
    (s.setPc t (.fetched searchTerm creates (s.execute searchTerm queryId answers)), [])
  | .fetched searchTerm creates entry =>
    ((s.store searchTerm entry).setPc t .idle,
      [if creates then .returned entry else .answered true])

def step (s : CacheState ρ σ) : CacheStep ρ σ → CacheState ρ σ × List (CacheEvent ρ σ)
  | .getOrCreateQuery t searchTerm =>
    match s.threads t with
    | .idle => (s.evictExpired.setPc t (.evicted searchTerm), [])
    | _ => (s, [])
  | .refreshQuery t searchTerm =>
    match s.threads t with
    | .idle => ((s.remove searchTerm).setPc t (.missed searchTerm false), [])
    | _ => (s, [])
  | .proceed t answers => s.proceed t answers
  | .evictExpired => (s.evictExpired, [])
  | .remove searchTerm =>
    (s.remove searchTerm, [.answered (s.queryIndex.find searchTerm).isSome])
  | .reset ttlSeconds => (s.reset ttlSeconds, [])
  | .isCached searchTerm => s.isCached searchTerm
  | .getAllTerms => (s, [.terms s.queryIndex.keys])
  | .tick duration => ({ s with clock := s.clock + duration }, [])

end CacheState

def cacheMachine (ρ σ : Type) [Inhabited ρ] [Inhabited σ] :
    Machine (CacheState ρ σ) (CacheStep ρ σ) (CacheEvent ρ σ) := ⟨CacheState.step⟩

end Alpine
