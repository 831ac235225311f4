import Alpine.Lib.Lru
import Alpine.Lib.Run

/-!
# The cache of query results

The entries are a list with the last used one in front, and the index holds an iterator to the node
of each key. An iterator is the address of its node; one whose node is gone dangles. Times are
nanoseconds of the steady clock. Every call holds the lock from its first line to its last, except
`evictExpired`, which takes none and is called by nobody.
-/

namespace Alpine

open Lib

/-- A node of the list: `t_CacheEntry` at its address. -/
structure RecencyNode where
  address : Nat
  queryKey : String
  results : String
  insertTime : Nat
  deriving DecidableEq, Repr

structure QueryCache where
  entries : List RecencyNode
  index : UMap String Nat
  /-- A node that is made gets an address of its own. -/
  nextAddress : Nat
  maxEntries : Nat
  ttlSeconds : Nat
  deriving DecidableEq

namespace QueryCache

def new : QueryCache where
  entries := []
  index := ∅
  nextAddress := 0
  maxEntries := 1000
  ttlSeconds := 300

def nsPerSecond : Nat := 1000000000

variable (c : QueryCache)

def configure (maxEntries ttlSeconds : Nat) : QueryCache := { c with maxEntries, ttlSeconds }

def deref (it : Nat) : Option RecencyNode := c.entries.find? fun node => node.address = it

/-- Whole seconds have passed since the entry was stored. -/
def isExpired (now : Nat) (node : RecencyNode) : Bool :=
  let seconds := (now - node.insertTime) / nsPerSecond
  decide (seconds ≥ c.ttlSeconds)

/-- `entries_s.erase` and `index_s.erase`. -/
def eraseBoth (queryKey : String) (it : Nat) : QueryCache :=
  { c with
    entries := c.entries.filter fun node => node.address ≠ it
    index := c.index.erase queryKey }

/-- `none` is the use of an iterator that dangles. -/
def lookup (queryKey : String) (now : Nat) : Option (Option String × QueryCache) :=
  match c.index.find queryKey with
  | none => some (none, c)
  | some it =>
    match c.deref it with
    | none => none
    | some entry =>
      if c.isExpired now entry then some (none, c.eraseBoth queryKey it)
      else
        -- the node is spliced to the front
        some (some entry.results,
          { c with entries := entry :: c.entries.filter fun node => node.address ≠ it })

def invalidate (queryKey : String) : Option QueryCache :=
  match c.index.find queryKey with
  | none => some c
  | some it =>
    match c.deref it with
    | none => none
    | some _ => some (c.eraseBoth queryKey it)

def pushFront (queryKey results : String) (now : Nat) : QueryCache :=
  { c with
    entries := ⟨c.nextAddress, queryKey, results, now⟩ :: c.entries
    index := c.index.assign queryKey c.nextAddress
    nextAddress := c.nextAddress + 1 }

/-- `index_s.erase(entries_s.back().queryKey)` and `entries_s.pop_back`. -/
def popBack : QueryCache :=
  match c.entries.getLast? with
  | none => c
  | some back =>
    { c with index := c.index.erase back.queryKey, entries := c.entries.dropLast }

/-- The loop of `store`; each pass takes an entry. -/
def evictLoop : Nat → QueryCache → QueryCache
  | 0, c => c
  | passes + 1, c =>
    if c.entries.length > c.maxEntries then evictLoop passes c.popBack else c

def store (queryKey results : String) (now : Nat) : Option QueryCache :=
  (c.invalidate queryKey).map fun c =>
    let c := c.pushFront queryKey results now
    evictLoop c.entries.length c

def clear : QueryCache := { c with entries := [], index := ∅ }

def size : Nat := c.entries.length

/-- The loop of `evictExpired` from one iterator on. -/
def evictExpiredFrom (now : Nat) : List RecencyNode → UMap String Nat →
    List RecencyNode × UMap String Nat
  | [], index => ([], index)
  | node :: rest, index =>
    if c.isExpired now node then evictExpiredFrom now rest (index.erase node.queryKey)
    else
      let (kept, index) := evictExpiredFrom now rest index
      (node :: kept, index)

def evictExpired (now : Nat) : QueryCache :=
  let (entries, index) := c.evictExpiredFrom now c.entries c.index
  { c with entries, index }

/-- What the call answers; only a lookup answers something. -/
def call (now : Nat) : LruCall String String → Option (Option String × QueryCache)
  | .configure maxEntries ttlSeconds => some (none, c.configure maxEntries ttlSeconds)
  | .lookup queryKey => c.lookup queryKey now
  | .store queryKey results => (c.store queryKey results now).map (none, ·)
  | .invalidate queryKey => (c.invalidate queryKey).map (none, ·)
  | .clear => some (none, c.clear)
  | .evictExpired => some (none, c.evictExpired now)

end QueryCache

inductive QueryCacheEvent where
  | answered (now : Nat) (call : LruCall String String) (answer : Option String)
  | dangling
  deriving DecidableEq

namespace QueryCache

def step (c : QueryCache) (input : Nat × LruCall String String) :
    QueryCache × List QueryCacheEvent :=
  match c.call input.1 input.2 with
  | none => (c, [QueryCacheEvent.dangling])
  | some (answer, c') => (c', [QueryCacheEvent.answered input.1 input.2 answer])

def machine : Machine QueryCache (Nat × LruCall String String) QueryCacheEvent where
  step := step

/-! ## The two containers -/

/-- The index and the list hold the same keys once each. -/
structure InStep (c : QueryCache) : Prop where
  keys : (c.entries.map (·.queryKey)).Nodup
  addresses : (c.entries.map (·.address)).Nodup
  index_iff : ∀ queryKey it, c.index.find queryKey = some it ↔
    ∃ node ∈ c.entries, node.queryKey = queryKey ∧ node.address = it
  made : ∀ node ∈ c.entries, node.address < c.nextAddress

variable {c : QueryCache}

theorem inStep_new : new.InStep where
  keys := .nil
  addresses := .nil
  index_iff queryKey it := by simp [new]
  made node hnode := by cases hnode

namespace InStep

theorem eq_of_address (h : c.InStep) {node node' : RecencyNode} (hnode : node ∈ c.entries)
    (hnode' : node' ∈ c.entries) (heq : node.address = node'.address) : node = node' :=
  List.inj_on_of_nodup_map h.addresses hnode hnode' heq

theorem eq_of_key (h : c.InStep) {node node' : RecencyNode} (hnode : node ∈ c.entries)
    (hnode' : node' ∈ c.entries) (heq : node.queryKey = node'.queryKey) : node = node' :=
  List.inj_on_of_nodup_map h.keys hnode hnode' heq

/-- No iterator of the index dangles. -/
theorem deref_of_find (h : c.InStep) {queryKey : String} {it : Nat}
    (hfind : c.index.find queryKey = some it) :
    ∃ node ∈ c.entries, node.queryKey = queryKey ∧ node.address = it ∧
      c.deref it = some node := by
  obtain ⟨node, hnode, hkey, haddress⟩ := (h.index_iff queryKey it).mp hfind
  refine ⟨node, hnode, hkey, haddress, ?_⟩
  unfold deref
  cases hfound : c.entries.find? fun node => node.address = it with
  | none =>
    have hnone := List.find?_eq_none.mp hfound node hnode
    simp [haddress] at hnone
  | some found =>
    have hat : found.address = it := by simpa using List.find?_some hfound
    rw [h.eq_of_address (List.mem_of_find?_eq_some hfound) hnode (hat.trans haddress.symm)]

/-- The node at the address of a key is the one of the key. -/
theorem filter_address (h : c.InStep) {node : RecencyNode} (hnode : node ∈ c.entries) :
    (c.entries.filter fun other => other.address ≠ node.address) =
      c.entries.filter fun other => other.queryKey ≠ node.queryKey := by
  refine List.filter_congr fun other hother => ?_
  rw [decide_eq_decide, not_iff_not]
  exact ⟨fun heq => congrArg _ (h.eq_of_address hother hnode heq),
    fun heq => congrArg _ (h.eq_of_key hother hnode heq)⟩

theorem eraseBoth (h : c.InStep) {node : RecencyNode} (hnode : node ∈ c.entries) :
    (c.eraseBoth node.queryKey node.address).InStep where
  keys := h.keys.sublist (List.filter_sublist.map _)
  addresses := h.addresses.sublist (List.filter_sublist.map _)
  index_iff queryKey it := by
    show (c.index.erase node.queryKey).find queryKey = some it ↔
      ∃ other ∈ c.entries.filter (fun other => other.address ≠ node.address),
        other.queryKey = queryKey ∧ other.address = it
    rw [UMap.find_erase, h.filter_address hnode]
    simp only [List.mem_filter, decide_eq_true_iff]
    split
    · next hkey =>
      constructor
      · intro hnone
        cases hnone
      · rintro ⟨other, ⟨-, hne⟩, hother, -⟩
        exact absurd (hother.trans hkey) hne
    · next hkey =>
      rw [h.index_iff]
      constructor
      · rintro ⟨other, hother, rfl, haddress⟩
        exact ⟨other, ⟨hother, hkey⟩, rfl, haddress⟩
      · rintro ⟨other, ⟨hother, -⟩, hboth⟩
        exact ⟨other, hother, hboth⟩
  made other hother := h.made other (List.mem_of_mem_filter hother)

theorem spliced (h : c.InStep) {node : RecencyNode} (hnode : node ∈ c.entries) :
    ({ c with
      entries := node :: c.entries.filter fun other => other.address ≠ node.address } :
        QueryCache).InStep := by
  have hmem : ∀ other, (other ∈ node :: c.entries.filter fun other =>
      other.address ≠ node.address) ↔ other ∈ c.entries := by
    intro other
    rw [List.mem_cons, List.mem_filter, decide_eq_true_iff]
    constructor
    · rintro (rfl | ⟨hother, -⟩)
      · exact hnode
      · exact hother
    · intro hother
      by_cases haddress : other.address = node.address
      · exact .inl (h.eq_of_address hother hnode haddress)
      · exact .inr ⟨hother, haddress⟩
  have hrest : ∀ other ∈ c.entries.filter (fun other => other.address ≠ node.address),
      other.address ≠ node.address := fun other hother => by
    simpa using (List.mem_filter.mp hother).2
  constructor
  · refine List.nodup_cons.mpr ⟨fun hkey => ?_, h.keys.sublist (List.filter_sublist.map _)⟩
    obtain ⟨other, hother, heq⟩ := List.mem_map.mp hkey
    have hsame := h.eq_of_key (List.mem_of_mem_filter hother) hnode heq
    exact hrest other hother (congrArg _ hsame)
  · refine List.nodup_cons.mpr ⟨fun hkey => ?_, h.addresses.sublist (List.filter_sublist.map _)⟩
    obtain ⟨other, hother, heq⟩ := List.mem_map.mp hkey
    exact hrest other hother heq
  · intro queryKey it
    rw [h.index_iff]
    simp only [hmem]
  · exact fun other hother => h.made other ((hmem other).mp hother)

theorem pushFront (h : c.InStep) {queryKey : String} (hfind : c.index.find queryKey = none)
    (results : String) (now : Nat) : (c.pushFront queryKey results now).InStep := by
  have hkey : ∀ node ∈ c.entries, node.queryKey ≠ queryKey := fun node hnode heq => by
    have hsome := (h.index_iff queryKey node.address).mpr ⟨node, hnode, heq, rfl⟩
    rw [hfind] at hsome
    cases hsome
  constructor
  · refine List.nodup_cons.mpr ⟨fun hmem => ?_, h.keys⟩
    obtain ⟨node, hnode, heq⟩ := List.mem_map.mp hmem
    exact hkey node hnode heq
  · refine List.nodup_cons.mpr ⟨fun hmem => ?_, h.addresses⟩
    obtain ⟨node, hnode, heq⟩ := List.mem_map.mp hmem
    exact absurd heq (h.made node hnode).ne
  · intro k it
    show (c.index.assign queryKey c.nextAddress).find k = some it ↔
      ∃ node ∈ (⟨c.nextAddress, queryKey, results, now⟩ : RecencyNode) :: c.entries,
        node.queryKey = k ∧ node.address = it
    simp only [List.mem_cons, exists_eq_or_imp]
    rw [UMap.find_assign]
    by_cases hk : k = queryKey
    · subst hk
      rw [if_pos rfl, Option.some.injEq]
      constructor
      · exact fun heq => .inl ⟨rfl, heq⟩
      · rintro (⟨-, heq⟩ | ⟨node, hnode, heq, -⟩)
        · exact heq
        · exact absurd heq (hkey node hnode)
    · rw [if_neg hk, h.index_iff]
      constructor
      · exact .inr
      · rintro (⟨heq, -⟩ | hnode)
        · exact absurd heq.symm hk
        · exact hnode
  · intro node hnode
    show node.address < c.nextAddress + 1
    rcases List.mem_cons.mp hnode with rfl | hnode
    · exact Nat.lt_succ_self _
    · exact (h.made node hnode).trans (Nat.lt_succ_self _)

theorem popBack (h : c.InStep) : c.popBack.InStep ∧ c.popBack.entries = c.entries.dropLast := by
  unfold QueryCache.popBack
  rcases List.eq_nil_or_concat c.entries with hnil | ⟨front, back, hback⟩
  · rw [hnil]
    exact ⟨h, hnil⟩
  · rw [List.concat_eq_append] at hback
    have hmem : back ∈ c.entries := by rw [hback]; simp
    have hlast : c.entries.getLast? = some back := by rw [hback]; simp
    have hnodup := h.addresses
    rw [hback, List.map_append, List.map_singleton, List.nodup_append] at hnodup
    have hdrop : (c.entries.filter fun node => node.address ≠ back.address) =
        c.entries.dropLast := by
      have hfront : ∀ node ∈ front, decide (node.address ≠ back.address) = true :=
        fun node hnode => decide_eq_true
          (hnodup.2.2 _ (List.mem_map_of_mem hnode) _ (List.mem_singleton_self _))
      rw [hback, List.filter_append, List.filter_eq_self.mpr hfront, List.dropLast_concat]
      simp
    have herase := h.eraseBoth hmem
    unfold QueryCache.eraseBoth at herase
    rw [hlast]
    dsimp only
    rw [hdrop] at herase
    exact ⟨herase, rfl⟩

end InStep

theorem maxEntries_popBack : c.popBack.maxEntries = c.maxEntries := by
  unfold popBack
  split <;> rfl

theorem ttlSeconds_popBack : c.popBack.ttlSeconds = c.ttlSeconds := by
  unfold popBack
  split <;> rfl

/-- With a pass for each entry the loop ends below the maximum, and it keeps the front. -/
theorem evictLoop_spec (h : c.InStep) (passes : Nat) (hpasses : c.entries.length ≤ passes) :
    (evictLoop passes c).InStep ∧
      (evictLoop passes c).entries = c.entries.take c.maxEntries ∧
      (evictLoop passes c).maxEntries = c.maxEntries ∧
      (evictLoop passes c).ttlSeconds = c.ttlSeconds := by
  induction passes generalizing c with
  | zero =>
    have hnil := List.eq_nil_of_length_eq_zero (Nat.le_zero.mp hpasses)
    exact ⟨h, by rw [hnil, List.take_nil]; exact hnil, rfl, rfl⟩
  | succ passes ih =>
    unfold evictLoop
    split
    · next hmore =>
      obtain ⟨hpop, hentries⟩ := h.popBack
      have hlength : c.popBack.entries.length ≤ passes := by
        rw [hentries, List.length_dropLast]
        omega
      obtain ⟨hkept, hfront, hmax, httl⟩ := ih hpop hlength
      refine ⟨hkept, ?_, hmax.trans maxEntries_popBack, httl.trans ttlSeconds_popBack⟩
      rw [hfront, hentries, maxEntries_popBack, List.dropLast_eq_take, List.take_take,
        min_eq_left (by omega)]
    · next hmore => exact ⟨h, (List.take_of_length_le (by omega)).symm, rfl, rfl⟩

theorem evictExpiredFrom_fst (now : Nat) (rest : List RecencyNode) (index : UMap String Nat) :
    (c.evictExpiredFrom now rest index).1 = rest.filter fun node => !c.isExpired now node := by
  induction rest generalizing index with
  | nil => rfl
  | cons node rest ih =>
    unfold evictExpiredFrom
    rw [List.filter_cons]
    cases c.isExpired now node with
    | true => exact ih _
    | false => exact congrArg (node :: ·) (ih _)

theorem find_evictExpiredFrom (now : Nat) (rest : List RecencyNode) (index : UMap String Nat)
    (queryKey : String) (it : Nat) :
    (c.evictExpiredFrom now rest index).2.find queryKey = some it ↔
      index.find queryKey = some it ∧
        ∀ node ∈ rest, c.isExpired now node = true → node.queryKey ≠ queryKey := by
  induction rest generalizing index with
  | nil => simp [evictExpiredFrom]
  | cons node rest ih =>
    unfold evictExpiredFrom
    cases hexpired : c.isExpired now node with
    | true =>
      rw [if_pos rfl, ih, UMap.find_erase]
      by_cases hkey : queryKey = node.queryKey
      · simp [hkey, hexpired]
      · have hne : node.queryKey ≠ queryKey := fun heq => hkey heq.symm
        simp [hkey, hexpired, hne]
    | false =>
      rw [if_neg Bool.false_ne_true]
      refine (ih index).trans (and_congr_right fun _ => ?_)
      simp [hexpired]

theorem InStep.evictExpired (h : c.InStep) (now : Nat) :
    (c.evictExpired now).InStep ∧
      (c.evictExpired now).entries = c.entries.filter fun node => !c.isExpired now node := by
  have hentries : (c.evictExpired now).entries =
      c.entries.filter fun node => !c.isExpired now node := c.evictExpiredFrom_fst now _ _
  refine ⟨⟨?_, ?_, fun queryKey it => ?_, fun node hnode => ?_⟩, hentries⟩
  · rw [hentries]
    exact h.keys.sublist (List.filter_sublist.map _)
  · rw [hentries]
    exact h.addresses.sublist (List.filter_sublist.map _)
  · rw [hentries]
    refine (c.find_evictExpiredFrom now c.entries c.index queryKey it).trans ?_
    rw [h.index_iff]
    constructor
    · rintro ⟨⟨node, hnode, hkey, haddress⟩, hlive⟩
      refine ⟨node, List.mem_filter.mpr ⟨hnode, ?_⟩, hkey, haddress⟩
      rw [Bool.not_eq_true', Bool.eq_false_iff]
      exact fun hexpired => hlive node hnode hexpired hkey
    · rintro ⟨node, hnode, hkey, haddress⟩
      obtain ⟨hmem, hlive⟩ := List.mem_filter.mp hnode
      refine ⟨⟨node, hmem, hkey, haddress⟩, fun other hother hexpired heq => ?_⟩
      rw [h.eq_of_key hother hmem (heq.trans hkey.symm)] at hexpired
      rw [hexpired] at hlive
      cases hlive
  · rw [hentries] at hnode
    exact h.made node (List.mem_of_mem_filter hnode)

end QueryCache

end Alpine
