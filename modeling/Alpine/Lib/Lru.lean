import Alpine.Lib.UMap

/-!
# A least-recently-used map with a time to live

`Lru` says what such a cache is for: a finite map whose entries know when they were stored and, by
the number of a call, when they were last used. `trim` keeps the entries that fewer than `room`
others were used after. An entry expires `unit` clock ticks after each unit of the time to live.

A recency list of the map (`Listed`) has its entries once each, the last used one first. The rules
say which list an operation leaves, so that a program that keeps such a list is seen to implement
the map. `UseRecord` is what the history of calls says of each key.
-/

namespace Alpine.Lib

structure LruEntry (V : Type) where
  value : V
  stored : Nat
  used : Nat
  deriving DecidableEq

structure Lru (K V : Type) where
  held : UMap K (LruEntry V)
  /-- How many calls there have been. -/
  uses : Nat
  room : Nat
  ttl : Nat

inductive LruCall (K V : Type) where
  | configure (room ttl : Nat)
  | lookup (key : K)
  | store (key : K) (value : V)
  | invalidate (key : K)
  | clear
  | evictExpired
  deriving DecidableEq

namespace Lru

variable {K V : Type} [DecidableEq K]

/-- How many entries were used after `e`. -/
def usedAfter (m : UMap K (LruEntry V)) (e : LruEntry V) : Nat :=
  m.countBy fun _ e' => decide (e.used < e'.used)

/-- The `room` last used entries. -/
def trim (room : Nat) (m : UMap K (LruEntry V)) : UMap K (LruEntry V) :=
  m.keep fun e => decide (usedAfter m e < room)

def expired (unit ttl now : Nat) (e : LruEntry V) : Bool := decide (e.stored + ttl * unit ≤ now)

/-- What a call answers, and the map after it. -/
def step (unit : Nat) (l : Lru K V) (now : Nat) : LruCall K V → Option V × Lru K V
  | .configure room ttl => (none, { l with room, ttl, uses := l.uses + 1 })
  | .lookup key =>
    match l.held.find key with
    | none => (none, { l with uses := l.uses + 1 })
    | some e =>
      if expired unit l.ttl now e then
        (none, { l with held := l.held.erase key, uses := l.uses + 1 })
      else
        (some e.value,
          { l with held := l.held.assign key { e with used := l.uses }, uses := l.uses + 1 })
  | .store key value =>
    (none,
      { l with
        held := trim l.room (l.held.assign key { value, stored := now, used := l.uses })
        uses := l.uses + 1 })
  | .invalidate key => (none, { l with held := l.held.erase key, uses := l.uses + 1 })
  | .clear => (none, { l with held := ∅, uses := l.uses + 1 })
  | .evictExpired =>
    (none,
      { l with held := l.held.keep fun e => !expired unit l.ttl now e, uses := l.uses + 1 })

/-! ## Recency lists -/

/-- `entries` are those of the map once each, the last used one first. -/
structure Listed (m : UMap K (LruEntry V)) (entries : List (K × LruEntry V)) : Prop where
  mem_iff : ∀ k e, (k, e) ∈ entries ↔ m.find k = some e
  sorted : entries.Pairwise fun a b => b.2.used < a.2.used

namespace Listed

variable {m m' : UMap K (LruEntry V)} {entries : List (K × LruEntry V)} {k : K} {e : LruEntry V}

theorem empty : Listed (∅ : UMap K (LruEntry V)) [] where
  mem_iff k e := by simp
  sorted := .nil

theorem nodup_keys (h : Listed m entries) : (entries.map Prod.fst).Nodup := by
  rw [List.nodup_iff_pairwise_ne, List.pairwise_map]
  refine h.sorted.imp_of_mem fun {a b} ha hb hlt heq => ?_
  have ha' := (h.mem_iff a.1 a.2).mp ha
  have hb' := (h.mem_iff b.1 b.2).mp hb
  rw [heq, hb'] at ha'
  rw [Option.some.inj ha'] at hlt
  exact lt_irrefl _ hlt

theorem perm (h : Listed m entries) :
    (AList.entries m).Perm (entries.map fun e => ⟨e.1, e.2⟩) := by
  refine (List.perm_ext_iff_of_nodup m.nodupKeys.nodup ?_).mpr fun e => ?_
  · refine List.Nodup.of_map Sigma.fst ?_
    rw [List.map_map]
    exact h.nodup_keys
  · obtain ⟨k, e⟩ := e
    rw [UMap.mem_entries, ← h.mem_iff, List.mem_map]
    constructor
    · exact fun hmem => ⟨(k, e), hmem, rfl⟩
    · rintro ⟨e', hmem, heq⟩
      cases heq
      exact hmem

/-- Some of the entries, in the same order. -/
theorem filter (h : Listed m entries) (p : K × LruEntry V → Bool)
    (hfind : ∀ k e, m'.find k = some e ↔ m.find k = some e ∧ p (k, e) = true) :
    Listed m' (entries.filter p) where
  mem_iff k e := by rw [List.mem_filter, h.mem_iff, hfind]
  sorted := h.sorted.filter _

theorem erase (h : Listed m entries) (k : K) :
    Listed (m.erase k) (entries.filter fun e => decide (e.1 ≠ k)) := by
  refine h.filter _ fun j e => ?_
  rw [UMap.find_erase, decide_eq_true_iff]
  split
  · next hj => simp [hj]
  · next hj => simp [hj]

/-- A new entry, or a new use of an old one, comes first. -/
theorem assign (h : Listed m entries) (k : K) (e : LruEntry V)
    (hused : ∀ k' e', m.find k' = some e' → e'.used < e.used) :
    Listed (m.assign k e) ((k, e) :: entries.filter fun e' => decide (e'.1 ≠ k)) where
  mem_iff j e' := by
    rw [List.mem_cons, (h.erase k).mem_iff, UMap.find_assign, UMap.find_erase]
    by_cases hj : j = k
    · simp [hj, eq_comm]
    · simp [hj]
  sorted := by
    refine List.pairwise_cons.mpr ⟨fun e' he' => ?_, (h.erase k).sorted⟩
    exact hused e'.1 e'.2 ((h.mem_iff _ _).mp (List.mem_of_mem_filter he'))

theorem usedAfter_eq (h : Listed m entries) (e : LruEntry V) :
    usedAfter m e = entries.countP fun e' => decide (e.used < e'.2.used) := by
  unfold usedAfter UMap.countBy
  rw [h.perm.countP_eq, List.countP_map]
  rfl

omit [DecidableEq K] in
/-- In a list sorted by use, the entries before one are those used after it. -/
theorem mem_take_iff {a : K × LruEntry V} (room : Nat)
    (hsorted : entries.Pairwise fun a b => b.2.used < a.2.used) :
    a ∈ entries.take room ↔
      a ∈ entries ∧ (entries.countP fun e' => decide (a.2.used < e'.2.used)) < room := by
  induction entries generalizing room with
  | nil => simp
  | cons b entries ih =>
    obtain ⟨hb, hrest⟩ := List.pairwise_cons.mp hsorted
    cases room with
    | zero => simp
    | succ room =>
      rw [List.take_succ_cons, List.mem_cons, ih room hrest, List.mem_cons, List.countP_cons]
      constructor
      · rintro (rfl | ⟨hmem, hcount⟩)
        · have hnone : (entries.countP fun e' => decide (a.2.used < e'.2.used)) = 0 :=
            List.countP_eq_zero.mpr fun e' he' => by simpa using (hb e' he').le
          rw [hnone]
          simp
        · refine ⟨.inr hmem, ?_⟩
          have hlater := hb a hmem
          simp only [hlater, decide_true, if_true]
          omega
      · rintro ⟨rfl | hmem, hcount⟩
        · exact .inl rfl
        · have hlater := hb a hmem
          simp only [hlater, decide_true, if_true] at hcount
          exact .inr ⟨hmem, by omega⟩

/-- What `trim` keeps is the front of the list. -/
theorem trim (h : Listed m entries) (room : Nat) :
    Listed (Lru.trim room m) (entries.take room) where
  mem_iff k e := by
    rw [mem_take_iff room h.sorted, h.mem_iff, Lru.trim, UMap.find_keep,
      Option.filter_eq_some_iff, decide_eq_true_iff, h.usedAfter_eq]
  sorted := h.sorted.sublist (List.take_sublist _ _)

end Listed

end Lru

/-! ## What a history says -/

/-- The number of calls, the last value that was stored under each key and when, unless it was
taken back, and the number of the last call that used the key. -/
structure UseRecord (K V : Type) where
  calls : Nat
  latest : K → Option (V × Nat)
  lastUse : K → Nat

namespace UseRecord

variable {K V : Type} [DecidableEq K]

def start : UseRecord K V := ⟨0, fun _ => none, fun _ => 0⟩

/-- A lookup that finds nothing is not a use. -/
def after (r : UseRecord K V) (now : Nat) (call : LruCall K V) (answer : Option V) :
    UseRecord K V :=
  let r' := { r with calls := r.calls + 1 }
  match call with
  | .lookup key =>
    if answer.isSome then { r' with lastUse := fun k => if k = key then r.calls else r.lastUse k }
    else r'
  | .store key value =>
    { r' with
      latest := fun k => if k = key then some (value, now) else r.latest k
      lastUse := fun k => if k = key then r.calls else r.lastUse k }
  | .invalidate key => { r' with latest := fun k => if k = key then none else r.latest k }
  | .clear => { r' with latest := fun _ => none }
  | .configure _ _ => r'
  | .evictExpired => r'

/-- The entries are what the record says of their keys. -/
structure Describes (r : UseRecord K V) (l : Lru K V) : Prop where
  uses : l.uses = r.calls
  entry : ∀ k e, l.held.find k = some e →
    r.latest k = some (e.value, e.stored) ∧ r.lastUse k = e.used ∧ e.used < r.calls

variable {r : UseRecord K V} {l : Lru K V}

theorem Describes.part {held : UMap K (LruEntry V)} (h : r.Describes l)
    (hpart : ∀ k e, held.find k = some e → l.held.find k = some e) :
    ({ r with calls := r.calls + 1 } : UseRecord K V).Describes
      { l with held, uses := l.uses + 1 } where
  uses := congrArg (· + 1) h.uses
  entry k e hfind := by
    obtain ⟨hlatest, hlast, hlt⟩ := h.entry k e (hpart k e hfind)
    exact ⟨hlatest, hlast, by show e.used < r.calls + 1; omega⟩

/-- One call keeps the record of the entries. -/
theorem Describes.step (h : r.Describes l) (unit now : Nat) (call : LruCall K V) :
    (r.after now call (l.step unit now call).1).Describes (l.step unit now call).2 := by
  cases call with
  | configure room ttl =>
    refine ⟨congrArg (· + 1) h.uses, fun k e hfind => ?_⟩
    obtain ⟨hlatest, hlast, hlt⟩ := h.entry k e hfind
    exact ⟨hlatest, hlast, Nat.lt_succ_of_lt hlt⟩
  | lookup key =>
    rw [Lru.step]
    cases hfind : l.held.find key with
    | none => exact h.part fun _ _ hf => hf
    | some e =>
      dsimp only
      split
      · refine h.part fun k e' hf => ?_
        rw [UMap.find_erase] at hf
        split at hf
        · cases hf
        · exact hf
      · refine ⟨congrArg (· + 1) h.uses, fun k e' hf => ?_⟩
        rw [UMap.find_assign] at hf
        by_cases hk : k = key
        · subst hk
          rw [if_pos rfl] at hf
          obtain rfl := Option.some.inj hf
          refine ⟨(h.entry k e hfind).1, (if_pos rfl).trans h.uses.symm, ?_⟩
          show l.uses < r.calls + 1
          rw [h.uses]
          exact Nat.lt_succ_self _
        · rw [if_neg hk] at hf
          obtain ⟨hlatest, hlast, hlt⟩ := h.entry k e' hf
          exact ⟨hlatest, (if_neg hk).trans hlast, Nat.lt_succ_of_lt hlt⟩
  | store key value =>
    refine ⟨congrArg (· + 1) h.uses, fun k e hf => ?_⟩
    have hassign : (l.held.assign key ⟨value, now, l.uses⟩).find k = some e :=
      (Option.filter_eq_some_iff.mp ((UMap.find_keep _ _ k).symm.trans hf)).1
    rw [UMap.find_assign] at hassign
    by_cases hk : k = key
    · subst hk
      rw [if_pos rfl] at hassign
      obtain rfl := Option.some.inj hassign
      refine ⟨if_pos rfl, (if_pos rfl).trans h.uses.symm, ?_⟩
      show l.uses < r.calls + 1
      rw [h.uses]
      exact Nat.lt_succ_self _
    · rw [if_neg hk] at hassign
      obtain ⟨hlatest, hlast, hlt⟩ := h.entry k e hassign
      exact ⟨(if_neg hk).trans hlatest, (if_neg hk).trans hlast, Nat.lt_succ_of_lt hlt⟩
  | invalidate key =>
    refine ⟨congrArg (· + 1) h.uses, fun k e hf => ?_⟩
    have herase : (l.held.erase key).find k = some e := hf
    rw [UMap.find_erase] at herase
    by_cases hk : k = key
    · rw [if_pos hk] at herase
      cases herase
    · rw [if_neg hk] at herase
      obtain ⟨hlatest, hlast, hlt⟩ := h.entry k e herase
      exact ⟨(if_neg hk).trans hlatest, hlast, Nat.lt_succ_of_lt hlt⟩
  | clear =>
    refine ⟨congrArg (· + 1) h.uses, fun k e hf => ?_⟩
    cases (UMap.find_empty k).symm.trans hf
  | evictExpired =>
    exact h.part fun k e hf =>
      (Option.filter_eq_some_iff.mp ((UMap.find_keep _ _ k).symm.trans hf)).1

end UseRecord

end Alpine.Lib
