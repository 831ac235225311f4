import Alpine.Protocol.QueryCache

/-!
# Runs of the query cache

Over any run at times that do not decrease the cache answers as the least-recently-used map, and its
list is a recency list of it. `configure` only sets the limits, so after a smaller maximum there
are too many entries until the next `store` takes all that are too many.
-/

namespace Alpine

open Lib

namespace QueryCacheEvent

def applyTo (l : Lru String String) : QueryCacheEvent → Lru String String
  | .answered now call _ => (l.step QueryCache.nsPerSecond now call).2
  | .dangling => l

def record (r : UseRecord String String) : QueryCacheEvent → UseRecord String String
  | .answered now call answer => r.after now call answer
  | .dangling => r

end QueryCacheEvent

/-- The map after the calls of a history. -/
def lruAfter (h : List QueryCacheEvent) : Lru String String :=
  h.foldl QueryCacheEvent.applyTo ⟨∅, 0, 1000, 300⟩

def useRecord (h : List QueryCacheEvent) : UseRecord String String :=
  h.foldl QueryCacheEvent.record UseRecord.start

def RecencyNode.recent (lastUse : String → Nat) (node : RecencyNode) : String × LruEntry String :=
  (node.queryKey, ⟨node.results, node.insertTime, lastUse node.queryKey⟩)

namespace QueryCache

/-- The list is a recency list of the map, each entry used last when the record says so. -/
structure Refines (r : UseRecord String String) (l : Lru String String) (c : QueryCache) : Prop where
  inStep : c.InStep
  room : l.room = c.maxEntries
  ttl : l.ttl = c.ttlSeconds
  described : r.Describes l
  listed : Lru.Listed l.held (c.entries.map (RecencyNode.recent r.lastUse))

/-- Nothing was stored later than `now`. -/
def StoredBy (c : QueryCache) (now : Nat) : Prop := ∀ node ∈ c.entries, node.insertTime ≤ now

variable {c c' : QueryCache} {r : UseRecord String String} {l : Lru String String} {now : Nat}

theorem filter_recent (lastUse : String → Nat) (entries : List RecencyNode) (queryKey : String) :
    ((entries.map (RecencyNode.recent lastUse)).filter fun e => decide (e.1 ≠ queryKey)) =
      (entries.filter fun node => node.queryKey ≠ queryKey).map (RecencyNode.recent lastUse) := by
  rw [List.filter_map]
  rfl

/-- A new use of one key does not concern the entries of the others. -/
theorem map_recent_congr (lastUse : String → Nat) (entries : List RecencyNode) (queryKey : String)
    (use : Nat) :
    (entries.filter fun node => node.queryKey ≠ queryKey).map (RecencyNode.recent lastUse) =
      (entries.filter fun node => node.queryKey ≠ queryKey).map
        (RecencyNode.recent fun k => if k = queryKey then use else lastUse k) := by
  refine List.map_congr_left fun node hnode => ?_
  have hne : node.queryKey ≠ queryKey := by simpa using (List.mem_filter.mp hnode).2
  simp only [RecencyNode.recent, if_neg hne]

theorem filter_not_recent {lastUse : String → Nat} {entries : List RecencyNode}
    {p : RecencyNode → Bool} {q : LruEntry String → Bool}
    (h : ∀ node ∈ entries, p node = q (RecencyNode.recent lastUse node).2) :
    ((entries.map (RecencyNode.recent lastUse)).filter fun e => !q e.2) =
      (entries.filter fun node => !p node).map (RecencyNode.recent lastUse) := by
  rw [List.filter_map]
  exact congrArg _ (List.filter_congr fun node hnode => congrArg (!·) (h node hnode).symm)

theorem recent_self (lastUse : String → Nat) (node : RecencyNode) (use : Nat) :
    RecencyNode.recent (fun k => if k = node.queryKey then use else lastUse k) node =
      (node.queryKey, ⟨node.results, node.insertTime, use⟩) := by
  simp only [RecencyNode.recent, if_true]

namespace Refines

theorem find_of_mem (h : Refines r l c) {node : RecencyNode} (hnode : node ∈ c.entries) :
    l.held.find node.queryKey =
      some ⟨node.results, node.insertTime, r.lastUse node.queryKey⟩ :=
  (h.listed.mem_iff _ _).mp (List.mem_map_of_mem hnode)

theorem find_none (h : Refines r l c) {queryKey : String}
    (hfind : c.index.find queryKey = none) : l.held.find queryKey = none := by
  cases hheld : l.held.find queryKey with
  | none => rfl
  | some e =>
    obtain ⟨node, hnode, heq⟩ := List.mem_map.mp ((h.listed.mem_iff _ _).mpr hheld)
    have hsome := (h.inStep.index_iff queryKey node.address).mpr
      ⟨node, hnode, congrArg Prod.fst heq, rfl⟩
    rw [hfind] at hsome
    cases hsome

/-- The time is up for the code when it is for the map. -/
theorem isExpired_eq (h : Refines r l c) {node : RecencyNode} (hstored : node.insertTime ≤ now)
    (used : Nat) :
    c.isExpired now node =
      Lru.expired nsPerSecond l.ttl now ⟨node.results, node.insertTime, used⟩ := by
  unfold isExpired Lru.expired
  rw [decide_eq_decide, h.ttl, ge_iff_le, Nat.le_div_iff_mul_le (by decide)]
  dsimp only
  omega

theorem listed_eraseBoth (h : Refines r l c) {node : RecencyNode} (hnode : node ∈ c.entries) :
    Lru.Listed (l.held.erase node.queryKey)
      ((c.eraseBoth node.queryKey node.address).entries.map (RecencyNode.recent r.lastUse)) := by
  have herase := h.listed.erase node.queryKey
  rw [filter_recent, ← h.inStep.filter_address hnode] at herase
  exact herase

/-- `invalidate`, which is also the first part of `store`. -/
theorem invalidate (h : Refines r l c) (queryKey : String) :
    ∃ c', c.invalidate queryKey = some c' ∧ c'.InStep ∧ c'.maxEntries = c.maxEntries ∧
      c'.ttlSeconds = c.ttlSeconds ∧ c'.index.find queryKey = none ∧
      c'.entries = (c.entries.filter fun node => node.queryKey ≠ queryKey) := by
  unfold QueryCache.invalidate
  cases hfind : c.index.find queryKey with
  | none =>
    refine ⟨c, rfl, h.inStep, rfl, rfl, hfind, (List.filter_eq_self.mpr fun node hnode => ?_).symm⟩
    rw [decide_eq_true_iff]
    intro heq
    have hsome := (h.inStep.index_iff queryKey node.address).mpr ⟨node, hnode, heq, rfl⟩
    rw [hfind] at hsome
    cases hsome
  | some it =>
    obtain ⟨node, hnode, rfl, rfl, hderef⟩ := h.inStep.deref_of_find hfind
    dsimp only
    rw [hderef]
    refine ⟨_, rfl, h.inStep.eraseBoth hnode, rfl, rfl, ?_, h.inStep.filter_address hnode⟩
    show (c.index.erase node.queryKey).find node.queryKey = none
    rw [UMap.find_erase, if_pos rfl]

theorem lookup (h : Refines r l c) (hstored : c.StoredBy now) (queryKey : String) :
    ∃ c', c.lookup queryKey now = some ((l.step nsPerSecond now (.lookup queryKey)).1, c') ∧
      Refines (r.after now (.lookup queryKey) (l.step nsPerSecond now (.lookup queryKey)).1)
        (l.step nsPerSecond now (.lookup queryKey)).2 c' ∧ c'.StoredBy now := by
  have hdescribed := h.described.step nsPerSecond now (.lookup queryKey)
  unfold QueryCache.lookup
  cases hfind : c.index.find queryKey with
  | none =>
    have hheld := h.find_none hfind
    simp only [Lru.step, hheld] at hdescribed ⊢
    exact ⟨c, rfl, ⟨h.inStep, h.room, h.ttl, hdescribed, h.listed⟩, hstored⟩
  | some it =>
    obtain ⟨node, hnode, rfl, rfl, hderef⟩ := h.inStep.deref_of_find hfind
    have hheld := h.find_of_mem hnode
    have hexpired := h.isExpired_eq (hstored node hnode) (r.lastUse node.queryKey)
    simp only [Lru.step, hheld, hderef, hexpired] at hdescribed ⊢
    split
    · next hup =>
      rw [if_pos hup] at hdescribed
      refine ⟨_, rfl, ⟨h.inStep.eraseBoth hnode, h.room, h.ttl, hdescribed,
        h.listed_eraseBoth hnode⟩, fun other hother => ?_⟩
      exact hstored other (List.mem_of_mem_filter hother)
    · next hlive =>
      rw [if_neg hlive] at hdescribed
      refine ⟨_, rfl, ⟨h.inStep.spliced hnode, h.room, h.ttl, hdescribed, ?_⟩,
        fun other hother => ?_⟩
      · have hassign := h.listed.assign node.queryKey
          ⟨node.results, node.insertTime, l.uses⟩ fun k e hk => by
            rw [h.described.uses]
            exact (h.described.entry k e hk).2.2
        rw [filter_recent, map_recent_congr _ _ _ l.uses, h.described.uses,
          ← h.inStep.filter_address hnode] at hassign
        rw [← recent_self r.lastUse node r.calls, ← List.map_cons] at hassign
        rw [h.described.uses]
        exact hassign
      · rcases List.mem_cons.mp hother with rfl | hother
        · exact hstored other hnode
        · exact hstored other (List.mem_of_mem_filter hother)

/-- `store` keeps the front of a list that has the entry first and what was there behind it. -/
theorem store_front (h : Refines r l c) (queryKey results : String) (now : Nat) :
    ∃ c' node, c.store queryKey results now = some c' ∧ c'.InStep ∧
      c'.maxEntries = c.maxEntries ∧ c'.ttlSeconds = c.ttlSeconds ∧
      node.queryKey = queryKey ∧ node.insertTime = now ∧
      c'.entries = (node :: c.entries.filter fun other => other.queryKey ≠ queryKey).take
        c.maxEntries ∧
      Lru.Listed (l.held.assign queryKey ⟨results, now, l.uses⟩)
        ((node :: c.entries.filter fun other => other.queryKey ≠ queryKey).map
          (RecencyNode.recent (r.after now (.store queryKey results) none).lastUse)) := by
  obtain ⟨erased, herased, hinStep, hmax, httl, hfind, hentries⟩ := h.invalidate queryKey
  obtain ⟨hlast, hfront, hmax', httl'⟩ :=
    evictLoop_spec (hinStep.pushFront hfind results now) _ le_rfl
  refine ⟨_, ⟨erased.nextAddress, queryKey, results, now⟩, ?_, hlast, hmax'.trans hmax,
    httl'.trans httl, rfl, rfl, ?_, ?_⟩
  · rw [QueryCache.store, herased, Option.map_some]
  · rw [hfront, ← hentries, ← hmax]
    rfl
  · have hassign := h.listed.assign queryKey ⟨results, now, l.uses⟩ fun k e hk => by
      rw [h.described.uses]
      exact (h.described.entry k e hk).2.2
    have hself := recent_self r.lastUse ⟨erased.nextAddress, queryKey, results, now⟩ r.calls
    rw [filter_recent, map_recent_congr _ _ _ l.uses, h.described.uses, ← hself,
      ← List.map_cons] at hassign
    rw [h.described.uses]
    exact hassign

theorem store (h : Refines r l c) (hstored : c.StoredBy now) (queryKey results : String) :
    ∃ c', c.store queryKey results now = some c' ∧
      Refines (r.after now (.store queryKey results) none)
        (l.step nsPerSecond now (.store queryKey results)).2 c' ∧ c'.StoredBy now := by
  obtain ⟨c', node, hc', hinStep, hmax, httl, -, htime, hentries, hlisted⟩ :=
    h.store_front queryKey results now
  refine ⟨c', hc', ⟨hinStep, h.room.trans hmax.symm, h.ttl.trans httl.symm,
    h.described.step nsPerSecond now (.store queryKey results), ?_⟩, fun other hother => ?_⟩
  · rw [hentries, List.map_take, ← h.room]
    exact hlisted.trim l.room
  · rw [hentries] at hother
    rcases List.mem_cons.mp (List.mem_of_mem_take hother) with rfl | hother
    · exact htime.le
    · exact hstored other (List.mem_of_mem_filter hother)

/-- What `store` takes away was last used before all that stays. -/
theorem store_evicts (h : Refines r l c) {queryKey results : String}
    (hstore : c.store queryKey results now = some c') {j k : String}
    (hj : j = queryKey ∨ j ∈ c.entries.map (·.queryKey))
    (hgone : j ∉ c'.entries.map (·.queryKey)) (hk : k ∈ c'.entries.map (·.queryKey)) :
    (r.after now (.store queryKey results) none).lastUse j <
      (r.after now (.store queryKey results) none).lastUse k := by
  obtain ⟨c'', node, hc'', -, -, -, hkey, -, hentries, hlisted⟩ :=
    h.store_front queryKey results now
  obtain rfl := Option.some.inj (hstore.symm.trans hc'')
  generalize (r.after now (.store queryKey results) none).lastUse = lastUse at hlisted ⊢
  have hfull : j ∈ (node :: c.entries.filter fun other => other.queryKey ≠ queryKey).map
      (·.queryKey) := by
    rw [List.map_cons, List.mem_cons, hkey]
    by_cases hjk : j = queryKey
    · exact .inl hjk
    · obtain ⟨other, hother, rfl⟩ := List.mem_map.mp (hj.resolve_left hjk)
      exact .inr (List.mem_map_of_mem (List.mem_filter.mpr ⟨hother, decide_eq_true hjk⟩))
  generalize (node :: c.entries.filter fun other => other.queryKey ≠ queryKey) = full
    at hentries hlisted hfull
  obtain ⟨old, hold, rfl⟩ := List.mem_map.mp hfull
  obtain ⟨kept, hkept, rfl⟩ := List.mem_map.mp hk
  have hsorted := hlisted.sorted
  rw [List.pairwise_map, ← List.take_append_drop c.maxEntries full, List.pairwise_append]
    at hsorted
  rw [hentries] at hkept hgone
  refine hsorted.2.2 kept hkept old ?_
  rw [← List.take_append_drop c.maxEntries full, List.mem_append] at hold
  exact hold.resolve_left fun hmem => hgone (List.mem_map_of_mem hmem)

theorem evictExpired (h : Refines r l c) (hstored : c.StoredBy now) :
    Refines (r.after now .evictExpired none) (l.step nsPerSecond now .evictExpired).2
      (c.evictExpired now) ∧ (c.evictExpired now).StoredBy now := by
  obtain ⟨hinStep, hentries⟩ := h.inStep.evictExpired now
  refine ⟨⟨hinStep, h.room, h.ttl, h.described.step nsPerSecond now .evictExpired, ?_⟩,
    fun node hnode => ?_⟩
  · have hfilter :
        Lru.Listed (l.held.keep fun e => !Lru.expired nsPerSecond l.ttl now e) _ :=
      h.listed.filter (fun e => !Lru.expired nsPerSecond l.ttl now e.2) fun k e => by
        rw [UMap.find_keep, Option.filter_eq_some_iff]
    have hlive := filter_not_recent (q := Lru.expired nsPerSecond l.ttl now)
      fun node hnode => h.isExpired_eq (hstored node hnode) (r.lastUse node.queryKey)
    rw [hlive, ← hentries] at hfilter
    exact hfilter
  · rw [hentries] at hnode
    exact hstored node (List.mem_of_mem_filter hnode)

/-- Every call answers as the map does. -/
theorem call (h : Refines r l c) (hstored : c.StoredBy now) (call : LruCall String String) :
    ∃ c', c.call now call = some ((l.step nsPerSecond now call).1, c') ∧
      Refines (r.after now call (l.step nsPerSecond now call).1) (l.step nsPerSecond now call).2 c' ∧
      c'.StoredBy now := by
  have hdescribed := h.described.step nsPerSecond now call
  cases call with
  | configure maxEntries ttlSeconds =>
    exact ⟨_, rfl, ⟨⟨h.inStep.keys, h.inStep.addresses, h.inStep.index_iff, h.inStep.made⟩, rfl, rfl,
      hdescribed, h.listed⟩, hstored⟩
  | lookup queryKey => exact h.lookup hstored queryKey
  | store queryKey results =>
    obtain ⟨c', hc', hrefines, hstored'⟩ := h.store hstored queryKey results
    exact ⟨c', by rw [QueryCache.call, hc']; rfl, hrefines, hstored'⟩
  | invalidate queryKey =>
    obtain ⟨c', hc', hinStep, hmax, httl, -, hentries⟩ := h.invalidate queryKey
    refine ⟨c', by rw [QueryCache.call, hc']; rfl, ⟨hinStep, h.room.trans hmax.symm,
      h.ttl.trans httl.symm, hdescribed, ?_⟩, fun node hnode => ?_⟩
    · have herase := h.listed.erase queryKey
      rw [filter_recent, ← hentries] at herase
      exact herase
    · rw [hentries] at hnode
      exact hstored node (List.mem_of_mem_filter hnode)
  | clear =>
    exact ⟨_, rfl, ⟨⟨.nil, .nil, fun k it => by simp [QueryCache.clear], fun _ hnode => nomatch hnode⟩,
      h.room, h.ttl, hdescribed, Lru.Listed.empty⟩, fun _ hnode => nomatch hnode⟩
  | evictExpired =>
    obtain ⟨hrefines, hstored'⟩ := h.evictExpired hstored
    exact ⟨_, rfl, hrefines, hstored'⟩

end Refines

theorem refines_new : Refines UseRecord.start ⟨∅, 0, 1000, 300⟩ new where
  inStep := inStep_new
  room := rfl
  ttl := rfl
  described := ⟨rfl, fun k _ hfind => nomatch (UMap.find_empty k).symm.trans hfind⟩
  listed := Lru.Listed.empty

/-! ## Runs -/

/-- What a call after the history `h` does. -/
structure Served (h : List QueryCacheEvent) (c : QueryCache)
    (input : Nat × LruCall String String) : Prop where
  /-- It answers as the map. -/
  answer : (machine.step c input).2 = [QueryCacheEvent.answered input.1 input.2
    ((lruAfter h).step nsPerSecond input.1 input.2).1]
  /-- What a lookup finds was stored last under the key, and is not too old. -/
  latest : ∀ queryKey results,
    QueryCacheEvent.answered input.1 (.lookup queryKey) (some results) ∈ (machine.step c input).2 →
      ∃ stored, (useRecord h).latest queryKey = some (results, stored) ∧
        input.1 < stored + c.ttlSeconds * nsPerSecond
  inStep : (machine.step c input).1.InStep
  /-- A store leaves no more entries than the maximum, and what it takes away was last used before
  all that stays. -/
  stored : ∀ queryKey results, input.2 = .store queryKey results →
    (machine.step c input).1.size ≤ (machine.step c input).1.maxEntries ∧
      ∀ j k, (j = queryKey ∨ j ∈ c.entries.map (·.queryKey)) →
        j ∉ (machine.step c input).1.entries.map (·.queryKey) →
        k ∈ (machine.step c input).1.entries.map (·.queryKey) →
          (useRecord (h ++ (machine.step c input).2)).lastUse j <
            (useRecord (h ++ (machine.step c input).2)).lastUse k
  /-- No other call adds an entry. -/
  grows : (∀ queryKey results, input.2 ≠ .store queryKey results) →
    (machine.step c input).1.size ≤ c.size

theorem size_eraseBoth_le (c : QueryCache) (queryKey : String) (it : Nat) :
    (c.eraseBoth queryKey it).size ≤ c.size := List.length_filter_le _ _

theorem size_invalidate_le {queryKey : String} (hcall : c.invalidate queryKey = some c') :
    c'.size ≤ c.size := by
  unfold invalidate at hcall
  cases hfind : c.index.find queryKey with
  | none =>
    rw [hfind] at hcall
    obtain rfl := Option.some.inj hcall
    exact le_rfl
  | some it =>
    rw [hfind] at hcall
    dsimp only at hcall
    cases hderef : c.deref it with
    | none =>
      rw [hderef] at hcall
      cases hcall
    | some node =>
      rw [hderef] at hcall
      obtain rfl := Option.some.inj hcall
      exact c.size_eraseBoth_le _ _

theorem size_lookup_le {queryKey : String} {answer : Option String}
    (hcall : c.lookup queryKey now = some (answer, c')) : c'.size ≤ c.size := by
  unfold lookup at hcall
  cases hfind : c.index.find queryKey with
  | none =>
    rw [hfind] at hcall
    obtain ⟨-, rfl⟩ := Prod.mk.inj (Option.some.inj hcall)
    exact le_rfl
  | some it =>
    rw [hfind] at hcall
    dsimp only at hcall
    cases hderef : c.deref it with
    | none =>
      rw [hderef] at hcall
      cases hcall
    | some node =>
      rw [hderef] at hcall
      dsimp only at hcall
      split at hcall
      · obtain ⟨-, rfl⟩ := Prod.mk.inj (Option.some.inj hcall)
        exact c.size_eraseBoth_le _ _
      · obtain ⟨-, rfl⟩ := Prod.mk.inj (Option.some.inj hcall)
        -- the node that comes to the front leaves its old place
        have hmem : node ∈ c.entries := List.mem_of_find?_eq_some hderef
        have haddress : node.address = it := by simpa using List.find?_some hderef
        exact List.length_filter_lt_length_iff_exists.mpr ⟨node, hmem, by simp [haddress]⟩

theorem size_call_le {call : LruCall String String} {answer : Option String}
    (hnot : ∀ queryKey results, call ≠ .store queryKey results)
    (hcall : c.call now call = some (answer, c')) : c'.size ≤ c.size := by
  cases call with
  | configure maxEntries ttlSeconds =>
    obtain ⟨-, rfl⟩ := Prod.mk.inj (Option.some.inj hcall)
    exact le_rfl
  | lookup queryKey => exact size_lookup_le hcall
  | store queryKey results => exact absurd rfl (hnot queryKey results)
  | invalidate queryKey =>
    obtain ⟨last, hlast, heq⟩ := Option.map_eq_some_iff.mp hcall
    obtain ⟨-, rfl⟩ := Prod.mk.inj heq
    exact size_invalidate_le hlast
  | clear =>
    obtain ⟨-, rfl⟩ := Prod.mk.inj (Option.some.inj hcall)
    exact Nat.zero_le _
  | evictExpired =>
    obtain ⟨-, rfl⟩ := Prod.mk.inj (Option.some.inj hcall)
    show (c.evictExpiredFrom now c.entries c.index).1.length ≤ c.entries.length
    rw [evictExpiredFrom_fst]
    exact List.length_filter_le _ _

theorem step_of_call {call : LruCall String String} {answer : Option String}
    (hcall : c.call now call = some (answer, c')) :
    machine.step c (now, call) = (c', [QueryCacheEvent.answered now call answer]) := by
  show step c (now, call) = _
  rw [step, hcall]

theorem Refines.served {h : List QueryCacheEvent}
    (hrefines : Refines (useRecord h) (lruAfter h) c) (hstored : c.StoredBy now)
    (call : LruCall String String) : Served h c (now, call) := by
  obtain ⟨c', hcall, hafter, hstored'⟩ := hrefines.call hstored call
  have hstep := step_of_call hcall
  constructor
  · rw [hstep]
  · intro queryKey results hmem
    rw [hstep] at hmem
    obtain ⟨-, rfl, hanswer⟩ := QueryCacheEvent.answered.inj (List.mem_singleton.mp hmem)
    rw [Lru.step] at hanswer
    cases hheld : (lruAfter h).held.find queryKey with
    | none =>
      rw [hheld] at hanswer
      cases hanswer
    | some e =>
      rw [hheld] at hanswer
      dsimp only at hanswer
      split at hanswer
      · cases hanswer
      · next hlive =>
        obtain rfl := Option.some.inj hanswer
        refine ⟨e.stored, (hrefines.described.entry queryKey e hheld).1, ?_⟩
        rw [← hrefines.ttl]
        unfold Lru.expired at hlive
        rw [decide_eq_true_iff] at hlive
        exact Nat.lt_of_not_le hlive
  · rw [hstep]
    exact hafter.inStep
  · rintro queryKey results rfl
    obtain ⟨last, hlast, heq⟩ := Option.map_eq_some_iff.mp hcall
    obtain ⟨hnone, rfl⟩ := Prod.mk.inj heq
    rw [hstep]
    refine ⟨?_, fun j k hj hgone hk => ?_⟩
    · obtain ⟨kept, node, hkept, -, hmax, -, -, -, hentries, -⟩ :=
        hrefines.store_front queryKey results now
      obtain rfl := Option.some.inj (hlast.symm.trans hkept)
      show last.entries.length ≤ last.maxEntries
      rw [hmax, hentries, List.length_take]
      exact min_le_left _ _
    · have hrecord : useRecord (h ++ [QueryCacheEvent.answered now (.store queryKey results) none]) =
          (useRecord h).after now (.store queryKey results) none := List.foldl_append
      rw [← hnone, hrecord]
      exact hrefines.store_evicts hlast hj hgone hk
  · intro hnot
    rw [hstep]
    exact size_call_le hnot hcall

/-- Every call of a run at times that do not decrease is served. -/
theorem along_served {inputs : List (Nat × LruCall String String)}
    (htimes : (inputs.map Prod.fst).Pairwise (· ≤ ·)) : machine.Along Served [] new inputs := by
  suffices h : ∀ (h : List QueryCacheEvent) (c : QueryCache),
      Refines (useRecord h) (lruAfter h) c → (∀ input ∈ inputs, c.StoredBy input.1) →
        machine.Along Served h c inputs from
    h [] new refines_new fun _ _ _ hnode => nomatch hnode
  induction inputs with
  | nil => exact fun _ _ _ _ => trivial
  | cons input inputs ih =>
    intro h c hrefines hstored
    obtain ⟨now, call⟩ := input
    rw [List.map_cons, List.pairwise_cons] at htimes
    have hnow := hstored _ (.head _)
    obtain ⟨c', hcall, hafter, hstored'⟩ := hrefines.call hnow call
    refine ⟨hrefines.served hnow call, ?_⟩
    rw [step_of_call hcall]
    refine ih htimes.2 _ c' ?_ fun later hlater node hnode => ?_
    · have hrecord : useRecord (h ++ [QueryCacheEvent.answered now call _]) =
          (useRecord h).after now call ((lruAfter h).step nsPerSecond now call).1 :=
        List.foldl_append
      have hlru : lruAfter (h ++ [QueryCacheEvent.answered now call
          ((lruAfter h).step nsPerSecond now call).1]) =
          ((lruAfter h).step nsPerSecond now call).2 := List.foldl_append
      rw [hrecord, hlru]
      exact hafter
    · exact (hstored' node hnode).trans (htimes.1 _ (List.mem_map_of_mem hlater))

/-- Two entries are stored and one is looked up, then the maximum is set to one. -/
def smallerMaximum : List (Nat × LruCall String String) :=
  [(0, .store "jazz" "1"), (5, .store "folk" "2"), (5, .lookup "jazz"), (9, .configure 1 300)]

theorem smallerMaximum_served : machine.Along Served [] new smallerMaximum :=
  along_served (by decide)

/-- The second entry stays though there is room for one only. -/
theorem smallerMaximum_exceeds :
    ¬ machine.Along (fun h c input => Served h c input ∧
      (machine.step c input).1.size ≤ (machine.step c input).1.maxEntries) [] new smallerMaximum :=
  fun h => absurd h.2.2.2.1.2 (by decide +kernel)

end QueryCache

end Alpine
