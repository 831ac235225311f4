import Mathlib.Logic.Relation
import Alpine.Lib.Run

/-!
# Locks held in scopes

A thread takes a lock at the head of a scope and gives it back at the end. `LockTree` is what a
piece of code does with its locks, scope by scope, and `actions` the sequence of acquisitions and
releases. `NoRelock` says that no lock is taken in a scope of itself, and `relocks_iff` that this is
the same as what it says of the sequence: no acquisition of a lock that is held at that moment.

`Traced` is the monad of code that returns a value and leaves its tree. `Within S` says of code that
it takes no lock twice and takes only those of `S`; its rules follow the code, so that a function
has one lemma with the locks it may take, and its caller a side condition on lists.
-/

namespace Alpine.Lib

inductive LockMode where
  | read
  | write
  deriving DecidableEq, Repr

inductive LockTree (L : Type) where
  | done
  | scope (mode : LockMode) (lock : L) (body rest : LockTree L)

inductive LockAction (L : Type) where
  | acquire (mode : LockMode) (lock : L)
  | release (lock : L)

namespace LockTree

variable {L : Type}

def append : LockTree L → LockTree L → LockTree L
  | .done, next => next
  | .scope mode lock body rest, next => .scope mode lock body (rest.append next)

def actions : LockTree L → List (LockAction L)
  | .done => []
  | .scope mode lock body rest =>
    .acquire mode lock :: (body.actions ++ .release lock :: rest.actions)

/-- No scope of a lock is inside one of the same lock, and none is of a lock that is held. -/
def NoRelock : List L → LockTree L → Prop
  | _, .done => True
  | held, .scope _ lock body rest =>
    lock ∉ held ∧ NoRelock (lock :: held) body ∧ NoRelock held rest

instance instDecidableNoRelock [DecidableEq L] :
    (held : List L) → (tree : LockTree L) → Decidable (NoRelock held tree)
  | _, .done => .isTrue trivial
  | held, .scope _ lock body rest =>
    have := instDecidableNoRelock (lock :: held) body
    have := instDecidableNoRelock held rest
    inferInstanceAs (Decidable (lock ∉ held ∧ NoRelock (lock :: held) body ∧ NoRelock held rest))

/-- The locks of the scopes. -/
def locks : LockTree L → List L
  | .done => []
  | .scope _ lock body rest => lock :: (body.locks ++ rest.locks)

theorem noRelock_append {held : List L} {tree next : LockTree L} :
    NoRelock held (tree.append next) ↔ NoRelock held tree ∧ NoRelock held next := by
  induction tree with
  | done => simp [append, NoRelock]
  | scope mode lock body rest _ ih => simp [append, NoRelock, ih, and_assoc]

theorem locks_append {tree next : LockTree L} :
    (tree.append next).locks = tree.locks ++ next.locks := by
  induction tree with
  | done => rfl
  | scope mode lock body rest _ ih => simp [append, locks, ih, List.append_assoc]

/-- With other locks held it is the same, as long as the code takes none of them. -/
theorem noRelock_iff {held : List L} {tree : LockTree L} :
    NoRelock held tree ↔ NoRelock [] tree ∧ ∀ lock ∈ tree.locks, lock ∉ held := by
  induction tree generalizing held with
  | done => simp [NoRelock, locks]
  | scope mode lock body rest ihbody ihrest =>
    have hbody := @ihbody (lock :: held)
    have hbody' := @ihbody [lock]
    have hrest := @ihrest held
    simp only [NoRelock, locks, List.mem_cons, List.mem_append, hbody, hbody', hrest,
      List.not_mem_nil, not_false_eq_true, true_and]
    constructor
    · rintro ⟨hlock, ⟨hb, hblocks⟩, hr, hrlocks⟩
      refine ⟨⟨⟨hb, fun l hl he => hblocks l hl (.inl (by simpa using he))⟩, hr⟩, ?_⟩
      rintro l (rfl | hl | hl)
      · exact hlock
      · exact fun hh => hblocks l hl (.inr hh)
      · exact hrlocks l hl
    · rintro ⟨⟨⟨hb, hblocks⟩, hr⟩, hall⟩
      refine ⟨hall lock (.inl rfl), ⟨hb, fun l hl => ?_⟩, hr, fun l hl => hall l (.inr (.inr hl))⟩
      rintro (rfl | hh)
      · exact hblocks l hl (by simp)
      · exact hall l (.inr (.inl hl)) hh

/-! ## The sequence of actions -/

variable [DecidableEq L]

/-- The locks that the thread holds after these actions. -/
def heldAfter (held : List L) : List (LockAction L) → List L
  | [] => held
  | .acquire _ lock :: actions => heldAfter (lock :: held) actions
  | .release lock :: actions => heldAfter (held.erase lock) actions

/-- A lock is acquired while the thread holds it. -/
def Relocks (held : List L) (actions : List (LockAction L)) : Prop :=
  ∃ before mode lock after, actions = before ++ .acquire mode lock :: after ∧
    lock ∈ heldAfter held before

theorem heldAfter_append (held : List L) (first second : List (LockAction L)) :
    heldAfter held (first ++ second) = heldAfter (heldAfter held first) second := by
  induction first generalizing held with
  | nil => rfl
  | cons action first ih => cases action <;> exact ih _

/-- At the end of the code the thread holds what it held before. -/
theorem heldAfter_actions (held : List L) (tree : LockTree L) :
    heldAfter held tree.actions = held := by
  induction tree generalizing held with
  | done => rfl
  | scope mode lock body rest ihbody ihrest =>
    show heldAfter (lock :: held) (body.actions ++ .release lock :: rest.actions) = held
    rw [heldAfter_append, ihbody]
    show heldAfter ((lock :: held).erase lock) rest.actions = held
    rw [List.erase_cons_head, ihrest]

theorem relocks_nil {held : List L} : ¬ Relocks held [] := by
  rintro ⟨before, mode, lock, after, heq, -⟩
  cases before <;> cases heq

theorem relocks_acquire {held : List L} {mode : LockMode} {lock : L}
    {actions : List (LockAction L)} :
    Relocks held (.acquire mode lock :: actions) ↔
      lock ∈ held ∨ Relocks (lock :: held) actions := by
  constructor
  · rintro ⟨before, mode', lock', after, heq, hmem⟩
    cases before with
    | nil =>
      injection heq with haction
      cases haction
      exact .inl hmem
    | cons action before =>
      injection heq with haction heq
      subst haction
      exact .inr ⟨before, mode', lock', after, heq, hmem⟩
  · rintro (hmem | ⟨before, mode', lock', after, rfl, hmem⟩)
    · exact ⟨[], mode, lock, actions, rfl, hmem⟩
    · exact ⟨.acquire mode lock :: before, mode', lock', after, rfl, hmem⟩

theorem relocks_release {held : List L} {lock : L} {actions : List (LockAction L)} :
    Relocks held (.release lock :: actions) ↔ Relocks (held.erase lock) actions := by
  constructor
  · rintro ⟨before, mode, lock', after, heq, hmem⟩
    cases before with
    | nil => cases heq
    | cons action before =>
      injection heq with haction heq
      subst haction
      exact ⟨before, mode, lock', after, heq, hmem⟩
  · rintro ⟨before, mode, lock', after, rfl, hmem⟩
    exact ⟨.release lock :: before, mode, lock', after, rfl, hmem⟩

theorem relocks_append {held : List L} {first second : List (LockAction L)} :
    Relocks held (first ++ second) ↔
      Relocks held first ∨ Relocks (heldAfter held first) second := by
  induction first generalizing held with
  | nil => simp [relocks_nil, heldAfter]
  | cons action first ih =>
    cases action with
    | acquire mode lock =>
      rw [List.cons_append, relocks_acquire, relocks_acquire, ih, or_assoc]
      rfl
    | release lock =>
      rw [List.cons_append, relocks_release, relocks_release, ih]
      rfl

/-- What the scopes say is what happens. -/
theorem relocks_iff {held : List L} {tree : LockTree L} :
    ¬ Relocks held tree.actions ↔ NoRelock held tree := by
  induction tree generalizing held with
  | done => exact ⟨fun _ => trivial, fun _ => relocks_nil⟩
  | scope mode lock body rest ihbody ihrest =>
    have hback : heldAfter (lock :: held) body.actions = lock :: held := heldAfter_actions _ _
    simp only [actions, NoRelock, relocks_acquire, relocks_append, relocks_release, hback,
      List.erase_cons_head, not_or, ihbody, ihrest]

end LockTree

/-! ## Code -/

/-- A value, and what was done with locks on the way to it. -/
def Traced (L α : Type) : Type := α × LockTree L

namespace Traced

variable {L α β : Type}

def value (code : Traced L α) : α := code.1

def tree (code : Traced L α) : LockTree L := code.2

instance : Monad (Traced L) where
  pure a := (a, .done)
  bind code next := ((next code.value).value, code.tree.append (next code.value).tree)

def underLock (mode : LockMode) (lock : L) (code : Traced L α) : Traced L α :=
  (code.value, .scope mode lock code.tree .done)

@[simp] theorem value_pure (a : α) : (pure a : Traced L α).value = a := rfl

@[simp] theorem value_bind (code : Traced L α) (next : α → Traced L β) :
    (code >>= next).value = (next code.value).value := rfl

@[simp] theorem value_underLock (mode : LockMode) (lock : L) (code : Traced L α) :
    (underLock mode lock code).value = code.value := rfl

/-- The code takes none of the locks held, and none twice. -/
def Clean (held : List L) (code : Traced L α) : Prop := code.tree.NoRelock held

theorem clean_pure (held : List L) (a : α) : Clean held (pure a : Traced L α) := trivial

theorem clean_bind {held : List L} {code : Traced L α} {next : α → Traced L β} :
    Clean held (code >>= next) ↔ Clean held code ∧ Clean held (next code.value) :=
  LockTree.noRelock_append

theorem clean_underLock {held : List L} {mode : LockMode} {lock : L} {code : Traced L α} :
    Clean held (underLock mode lock code) ↔ lock ∉ held ∧ Clean (lock :: held) code := by
  simp [Clean, underLock, tree, LockTree.NoRelock]

/-- The code takes only locks of `S`, and none twice. -/
structure Within (S : List L) (code : Traced L α) : Prop where
  clean : Clean [] code
  locks : ∀ lock ∈ code.tree.locks, lock ∈ S

variable {S R : List L}

/-- Code within some locks may be run with others held. -/
theorem Within.clean_held {code : Traced L α} (hw : Within S code) {held : List L}
    (hheld : ∀ lock ∈ S, lock ∉ held) : Clean held code :=
  LockTree.noRelock_iff.mpr ⟨hw.clean, fun lock hlock => hheld lock (hw.locks lock hlock)⟩

theorem Within.mono {code : Traced L α} (hw : Within S code) (hsub : ∀ lock ∈ S, lock ∈ R) :
    Within R code :=
  ⟨hw.clean, fun lock hlock => hsub lock (hw.locks lock hlock)⟩

theorem within_pure (S : List L) (a : α) : Within S (pure a : Traced L α) :=
  ⟨trivial, fun _ hlock => (by cases hlock)⟩

theorem Within.bind {code : Traced L α} {next : α → Traced L β} (hw : Within S code)
    (hnext : Within S (next code.value)) : Within S (code >>= next) := by
  refine ⟨clean_bind.mpr ⟨hw.clean, hnext.clean⟩, fun lock hlock => ?_⟩
  have hlocks : (code >>= next).tree.locks = code.tree.locks ++ (next code.value).tree.locks :=
    LockTree.locks_append
  rw [hlocks] at hlock
  rcases List.mem_append.mp hlock with h | h
  · exact hw.locks lock h
  · exact hnext.locks lock h

theorem Within.underLock {mode : LockMode} {lock : L} {code : Traced L α} (hw : Within R code)
    (hfree : lock ∉ R) (hmem : lock ∈ S) (hsub : ∀ l ∈ R, l ∈ S) :
    Within S (underLock mode lock code) := by
  refine ⟨clean_underLock.mpr ⟨List.not_mem_nil, ?_⟩, fun l hl => ?_⟩
  · refine hw.clean_held fun l hl => ?_
    rw [List.mem_singleton]
    rintro rfl
    exact hfree hl
  · have hlocks : (Traced.underLock mode lock code).tree.locks = lock :: (code.tree.locks ++ []) := rfl
    rw [hlocks, List.append_nil] at hl
    rcases List.mem_cons.mp hl with rfl | hl
    · exact hmem
    · exact hsub l (hw.locks l hl)

/-- A scope with nothing in it. -/
theorem within_touch {mode : LockMode} {lock : L} (hmem : lock ∈ S) (a : α) :
    Within S (underLock mode lock (pure a : Traced L α)) :=
  (within_pure [] a).underLock List.not_mem_nil hmem fun _ hl => (by cases hl)

theorem Within.ite {c : Prop} [Decidable c] {yes no : Traced L α} (hyes : c → Within S yes)
    (hno : ¬ c → Within S no) : Within S (if c then yes else no) := by
  split
  · next h => exact hyes h
  · next h => exact hno h

end Traced

/-!
## Threads under reader-writer locks

`LockCode` is code that reads shared data when it takes a lock and changes them when it gives one
back. Any number of threads run such code in any order, one action at a time. A lock that is free
for a thread need not be given to it at once, so a scheduler that makes readers wait behind a writer
is one of the schedulers.

`Guarded` says of code that it takes its locks in the order of their ranks as long as what it reads
is fine, and that otherwise it takes a lock twice. With such code the locks are safe (`LockSafe`)
along a run exactly if everything that is read is fine (`along_lockSafe_iff`).
-/

inductive LockCode (L D : Type) where
  | done
  /-- What comes next depends on the data. -/
  | acquire (mode : LockMode) (lock : L) (next : D → LockCode L D)
  | release (lock : L) (change : D → D) (next : LockCode L D)

/-- A thread that runs a call. -/
structure LockThread (C L D : Type) where
  call : C
  held : List (LockMode × L)
  code : LockCode L D

structure LockState (C L D : Type) where
  threads : List (LockThread C L D)
  data : D

inductive LockStep (C : Type) where
  /-- A thread begins a call. -/
  | call (call : C)
  /-- The next action of a thread. -/
  | act (k : Nat)

variable {C L D : Type} [DecidableEq L]

namespace LockCode

omit [DecidableEq L] in
/-- A section of which nothing is used later. -/
def locked (mode : LockMode) (lock : L) (change : D → D) (next : LockCode L D) : LockCode L D :=
  .acquire mode lock fun _ => .release lock change next

omit [DecidableEq L] in
/-- A section that only reads. -/
def reading (lock : L) (next : D → LockCode L D) : LockCode L D :=
  .acquire .read lock fun data => .release lock id (next data)

/-- The next action takes a lock that is held. -/
def relocks (held : List (LockMode × L)) : LockCode L D → Bool
  | .acquire _ lock _ => held.any fun h => h.2 = lock
  | _ => false

/-- Locks are taken in the order of their ranks; after a lock at which something was read that is
not fine one that is held is taken. -/
def Guarded (rank : L → Nat) (I : D → Prop) (fine : L → D → Prop) :
    List (LockMode × L) → LockCode L D → Prop
  | _, .done => True
  | held, .acquire mode lock next =>
    (∀ h ∈ held, rank h.2 < rank lock) ∧ ∀ data, I data →
      (fine lock data → Guarded rank I fine ((mode, lock) :: held) (next data)) ∧
      (¬ fine lock data → (next data).relocks ((mode, lock) :: held) = true)
  | held, .release lock change next =>
    (∀ data, I data → I (change data)) ∧
      Guarded rank I fine (held.eraseP fun h => h.2 = lock) next

variable {rank : L → Nat} {I : D → Prop} {fine : L → D → Prop} {held : List (LockMode × L)}
  {lock : L}

theorem eraseP_held (mode : LockMode) (lock : L) (held : List (LockMode × L)) :
    ((mode, lock) :: held).eraseP (fun h => h.2 = lock) = held :=
  List.eraseP_cons_of_pos (decide_eq_true rfl)

theorem guarded_reading {next : D → LockCode L D} (hrank : ∀ h ∈ held, rank h.2 < rank lock)
    (hfine : ∀ data, fine lock data)
    (hnext : ∀ data, I data → Guarded rank I fine held (next data)) :
    Guarded rank I fine held (reading lock next) := by
  refine ⟨hrank, fun data hdata => ⟨fun _ => ⟨fun _ h => h, ?_⟩, fun h => absurd (hfine data) h⟩⟩
  rw [eraseP_held]
  exact hnext data hdata

theorem guarded_locked {mode : LockMode} {change : D → D} {next : LockCode L D}
    (hrank : ∀ h ∈ held, rank h.2 < rank lock) (hfine : ∀ data, fine lock data)
    (hchange : ∀ data, I data → I (change data)) (hnext : Guarded rank I fine held next) :
    Guarded rank I fine held (locked mode lock change next) := by
  refine ⟨hrank, fun data _ => ⟨fun _ => ⟨hchange, ?_⟩, fun h => absurd (hfine data) h⟩⟩
  rw [eraseP_held]
  exact hnext

end LockCode

namespace LockState

def isFree (s : LockState C L D) (mode : LockMode) (lock : L) : Bool :=
  s.threads.all fun thread => thread.held.all fun h =>
    h.2 ≠ lock || (mode = .read && h.1 = .read)

omit [DecidableEq L] in
def put (s : LockState C L D) (k : Nat) (thread : LockThread C L D) (data : D) :
    LockState C L D :=
  { threads := s.threads.set k thread, data }

/-- A thread whose lock is not free waits. -/
def act (s : LockState C L D) (k : Nat) : LockState C L D :=
  match s.threads[k]? with
  | none => s
  | some thread =>
    match thread.code with
    | .done => s
    | .acquire mode lock next =>
      if s.isFree mode lock then
        s.put k { thread with held := (mode, lock) :: thread.held, code := next s.data } s.data
      else s
    | .release lock change next =>
      s.put k { thread with held := thread.held.eraseP fun h => h.2 = lock, code := next }
        (change s.data)

def step (program : C → LockCode L D) (s : LockState C L D) : LockStep C → LockState C L D
  | .call call => { s with threads := s.threads ++ [⟨call, [], program call⟩] }
  | .act k => s.act k

def machine (program : C → LockCode L D) : Machine (LockState C L D) (LockStep C) Empty :=
  ⟨fun s a => (s.step program a, [])⟩

/-! ### Safety -/

/-- Thread `j` is to take a lock that another thread `k` holds. -/
def Waits (s : LockState C L D) (j k : Nat) : Prop :=
  j ≠ k ∧ ∃ thread other mode lock next, s.threads[j]? = some thread ∧
    s.threads[k]? = some other ∧ thread.code = .acquire mode lock next ∧
    ∃ h ∈ other.held, h.2 = lock

/-- No thread takes a lock that it holds, and no threads wait for each other in a circle. -/
structure LockSafe (s : LockState C L D) : Prop where
  relock : ∀ thread ∈ s.threads, thread.code.relocks thread.held = false
  cycle : ∀ k, ¬ Relation.TransGen s.Waits k k

def StepSafe (program : C → LockCode L D) (_ : List Empty) (s : LockState C L D)
    (a : LockStep C) : Prop :=
  LockSafe (s.step program a)

/-- A thread that gets its lock reads what is fine for its call. -/
def StepFine (fine : C → L → D → Prop) (_ : List Empty) (s : LockState C L D) :
    LockStep C → Prop
  | .call _ => True
  | .act k => ∀ thread mode lock next, s.threads[k]? = some thread →
    thread.code = .acquire mode lock next → s.isFree mode lock = true →
    fine thread.call lock s.data

variable {program : C → LockCode L D} {rank : L → Nat} {I : D → Prop} {fine : C → L → D → Prop}
  {s : LockState C L D}

/-- What every thread has left is guarded. -/
structure Kept (rank : L → Nat) (I : D → Prop) (fine : C → L → D → Prop)
    (s : LockState C L D) : Prop where
  data : I s.data
  guarded : ∀ thread ∈ s.threads, thread.code.Guarded rank I (fine thread.call) thread.held

theorem Kept.put (h : Kept rank I fine s) {k : Nat} {thread : LockThread C L D} {data : D}
    (hdata : I data) (hthread : thread.code.Guarded rank I (fine thread.call) thread.held) :
    Kept rank I fine (s.put k thread data) := by
  refine ⟨hdata, fun other hother => ?_⟩
  rcases List.mem_or_eq_of_mem_set hother with hmem | rfl
  · exact h.guarded other hmem
  · exact hthread

/-- Along the waiting threads the ranks of their locks go up. -/
theorem Kept.rank_lt (h : Kept rank I fine s) {j k : Nat} (hpath : Relation.TransGen s.Waits j k)
    {first last : LockThread C L D} (hj : s.threads[j]? = some first)
    (hk : s.threads[k]? = some last) {mode mode' : LockMode} {lock lock' : L}
    {next next' : D → LockCode L D} (hfirst : first.code = .acquire mode lock next)
    (hlast : last.code = .acquire mode' lock' next') : rank lock < rank lock' := by
  induction hpath generalizing last mode' lock' next' with
  | single hwaits =>
    obtain ⟨-, thread, other, m, l, n, hthread, hother, hcode, held, hheld, rfl⟩ := hwaits
    obtain rfl := Option.some.inj (hj.symm.trans hthread)
    obtain rfl := Option.some.inj (hk.symm.trans hother)
    have hguarded := h.guarded last (List.mem_of_getElem? hk)
    rw [hlast] at hguarded
    rw [hfirst] at hcode
    injection hcode with _ hlock
    rw [hlock]
    exact hguarded.1 held hheld
  | tail _ hwaits ih =>
    obtain ⟨-, thread, other, m, l, n, hthread, hother, hcode, held, hheld, rfl⟩ := hwaits
    obtain rfl := Option.some.inj (hk.symm.trans hother)
    have hguarded := h.guarded last (List.mem_of_getElem? hk)
    rw [hlast] at hguarded
    exact Nat.lt_trans (ih hthread hcode) (hguarded.1 held hheld)

theorem Kept.safe (h : Kept rank I fine s) : LockSafe s := by
  constructor
  · intro thread hthread
    have hguarded := h.guarded thread hthread
    cases hcode : thread.code with
    | done => rfl
    | release lock change next => rfl
    | acquire mode lock next =>
      rw [hcode] at hguarded
      refine List.any_eq_false.mpr fun held hheld heq => ?_
      rw [← of_decide_eq_true heq] at hguarded
      exact Nat.lt_irrefl _ (hguarded.1 held hheld)
  · intro k hcycle
    obtain ⟨j, hwaits, -⟩ := Relation.TransGen.head'_iff.mp hcycle
    obtain ⟨-, thread, other, mode, lock, next, hthread, -, hcode, -⟩ := hwaits
    exact Nat.lt_irrefl _ (h.rank_lt hcycle hthread hthread hcode hcode)

theorem Kept.step (hprogram : ∀ call, (program call).Guarded rank I (fine call) [])
    (h : Kept rank I fine s) {a : LockStep C} (hfine : StepFine fine [] s a) :
    Kept rank I fine (s.step program a) := by
  cases a with
  | call call =>
    refine ⟨h.data, fun thread hthread => ?_⟩
    rcases List.mem_append.mp hthread with hmem | hmem
    · exact h.guarded thread hmem
    · rw [List.mem_singleton.mp hmem]
      exact hprogram call
  | act k =>
    unfold LockState.step act
    dsimp only
    cases hthread : s.threads[k]? with
    | none => exact h
    | some thread =>
      have hguarded := h.guarded thread (List.mem_of_getElem? hthread)
      dsimp only
      cases hcode : thread.code with
      | done => exact h
      | acquire mode lock next =>
        rw [hcode] at hguarded
        dsimp only
        split
        · next hfree =>
          refine h.put h.data ((hguarded.2 s.data h.data).1 ?_)
          exact hfine thread mode lock next hthread hcode hfree
        · exact h
      | release lock change next =>
        rw [hcode] at hguarded
        exact h.put (hguarded.1 s.data h.data) hguarded.2

/-- What is read is fine, if after the step no lock is taken twice. -/
theorem Kept.fine_of_safe (h : Kept rank I fine s) {a : LockStep C}
    (hsafe : LockSafe (s.step program a)) : StepFine fine [] s a := by
  cases a with
  | call call => trivial
  | act k =>
    intro thread mode lock next hthread hcode hfree
    have hguarded := h.guarded thread (List.mem_of_getElem? hthread)
    rw [hcode] at hguarded
    by_contra hread
    have hrelocks := (hguarded.2 s.data h.data).2 hread
    have hstep : s.step program (.act k) = s.put k
        { thread with held := (mode, lock) :: thread.held, code := next s.data } s.data := by
      unfold LockState.step act
      dsimp only
      rw [hthread]
      dsimp only
      rw [hcode]
      dsimp only
      rw [if_pos hfree]
    have hlt : k < s.threads.length := (List.getElem?_eq_some_iff.mp hthread).1
    rw [hstep] at hsafe
    rw [hsafe.relock _ (List.mem_set hlt _)] at hrelocks
    cases hrelocks

/-- The locks are safe along a run exactly if everything that is read is fine. -/
theorem along_lockSafe_iff (hprogram : ∀ call, (program call).Guarded rank I (fine call) [])
    (h : Kept rank I fine s) (steps : List (LockStep C)) :
    (machine program).Along (StepSafe program) [] s steps ↔
      (machine program).Along (StepFine fine) [] s steps :=
  Machine.along_congr (I := fun _ => Kept rank I fine)
    (fun _ _ _ hk hfine => hk.step hprogram hfine)
    (fun _ _ _ hk => ⟨hk.fine_of_safe, fun hfine => (hk.step hprogram hfine).safe⟩) h

end LockState

end Alpine.Lib
