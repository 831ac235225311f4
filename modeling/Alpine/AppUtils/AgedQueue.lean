import Alpine.Lib.AgeList
import Alpine.Lib.Links
import Alpine.Lib.Run
import Alpine.Lib.UMap

/-!
# The aged queue

References are kept in the order of their last use, as records of an array that are linked both
ways; `linkEnd` is `none`. The records that are not in use are on a free list, and a queue that is
full is doubled. What a call does is undefined (`none`) if it goes through the end of the index, or
if the new size is no `int`.

The queue is to be an `AgeList` (`Agrees`).
-/

namespace Alpine

open Lib

structure AgeRecord where
  reference : Nat
  next : Option Nat
  prev : Option Nat

structure AgedQueue where
  size : Nat
  numRecords : Nat
  recordList : Nat → AgeRecord
  freeIndexList : List Nat
  ageIndex : UMap Nat Nat
  newestIndex : Option Nat
  oldestIndex : Option Nat

inductive AgedCall where
  | add (reference : Nat)
  | touch (reference : Nat)
  | remove (reference : Nat)
  | clear
  deriving DecidableEq

namespace AgedQueue

/-- A record that was set up; the reference is null. -/
def unused : AgeRecord := ⟨0, none, none⟩

def new (reserve : Int) : AgedQueue where
  size := if reserve ≤ 0 then 1024 else reserve.toNat
  numRecords := 0
  recordList := fun _ => unused
  freeIndexList := List.range (if reserve ≤ 0 then 1024 else reserve.toNat)
  ageIndex := ∅
  newestIndex := none
  oldestIndex := none

def clear (q : AgedQueue) : AgedQueue where
  size := q.size
  numRecords := 0
  recordList := fun _ => unused
  freeIndexList := List.range q.size
  ageIndex := ∅
  newestIndex := none
  oldestIndex := none

def contains (q : AgedQueue) (reference : Nat) : Bool :=
  if q.numRecords = 0 then false else (q.ageIndex.find reference).isSome

def update (q : AgedQueue) (i : Nat) (f : AgeRecord → AgeRecord) : AgedQueue :=
  { q with recordList := Function.update q.recordList i (f (q.recordList i)) }

/-- An update through a link, if it is not the end. -/
def updateLink (q : AgedQueue) (i : Option Nat) (f : AgeRecord → AgeRecord) : AgedQueue :=
  i.elim q fun i => q.update i f

/-- Only called when the containers are full. -/
def resize (q : AgedQueue) (size : Nat) : AgedQueue :=
  { q with
    size
    recordList := fun i => if i < q.size then q.recordList i else unused
    freeIndexList := List.range' q.size (size - q.size) }

/-- Push a record to the front of the age queue. -/
def pushNewest (q : AgedQueue) (currIndex newest : Nat) : AgedQueue :=
  let q := q.update newest fun r => { r with next := some currIndex }
  let q := q.update currIndex fun r => { r with next := none, prev := some newest }
  { q with newestIndex := some currIndex }

/-- Pull a record from the list. -/
def pull (q : AgedQueue) (currIndex : Nat) : AgedQueue :=
  let currRecord := q.recordList currIndex
  let q := q.updateLink currRecord.prev fun r => { r with next := currRecord.next }
  q.updateLink currRecord.next fun r => { r with prev := currRecord.prev }

/-- A record taken from the free list for a reference. -/
def taken (q : AgedQueue) (reference currIndex : Nat) (free : List Nat) : AgedQueue :=
  { q.update currIndex fun r => { r with reference } with
    freeIndexList := free
    ageIndex := q.ageIndex.emplace reference currIndex }

def grown (q : AgedQueue) : Option AgedQueue :=
  if q.numRecords ≥ q.size then
    if q.size * 2 < 2 ^ 31 then some (q.resize (q.size * 2)) else none
  else some q

def add (q : AgedQueue) (reference : Nat) : Option (Bool × AgedQueue) :=
  if q.contains reference then some (false, q)
  else do
    let q ← q.grown
    match q.freeIndexList with
    | [] => none
    | currIndex :: free =>
      let q := q.taken reference currIndex free
      if q.numRecords = 0 then
        let q := q.update currIndex fun r => { r with next := none, prev := none }
        some (true, { q with
          newestIndex := some currIndex
          oldestIndex := some currIndex
          numRecords := q.numRecords + 1 })
      else
        let newest ← q.newestIndex
        let q := q.pushNewest currIndex newest
        some (true, { q with numRecords := q.numRecords + 1 })

def touch (q : AgedQueue) (reference : Nat) : Option (Bool × AgedQueue) :=
  if q.contains reference = false then some (false, q)
  else do
    let currIndex ← q.ageIndex.find reference
    if q.newestIndex = some currIndex then some (true, q)
    else
      let q := { q with oldestIndex :=
        if q.oldestIndex = some currIndex then (q.recordList currIndex).next else q.oldestIndex }
      let q := q.pull currIndex
      let newest ← q.newestIndex
      some (true, q.pushNewest currIndex newest)

def remove (q : AgedQueue) (reference : Nat) : Option (Bool × AgedQueue) :=
  if q.numRecords = 0 then some (false, q)
  else do
    let currIndex ← q.ageIndex.find reference
    let q := { q with
      ageIndex := q.ageIndex.erase reference
      oldestIndex :=
        if q.oldestIndex = some currIndex then (q.recordList currIndex).next else q.oldestIndex
      newestIndex :=
        if q.newestIndex = some currIndex then (q.recordList currIndex).prev else q.newestIndex }
    let q := q.pull currIndex
    some (true, { q with
      freeIndexList := q.freeIndexList ++ [currIndex]
      numRecords := q.numRecords - 1 })

def newest (q : AgedQueue) : Option Nat :=
  if q.numRecords = 0 then none else q.newestIndex.map fun i => (q.recordList i).reference

def oldest (q : AgedQueue) : Option Nat :=
  if q.numRecords = 0 then none else q.oldestIndex.map fun i => (q.recordList i).reference

def next (q : AgedQueue) (reference : Nat) : Option Nat :=
  if q.contains reference = false then none
  else do
    let currIndex ← q.ageIndex.find reference
    let nextIndex ← (q.recordList currIndex).next
    pure (q.recordList nextIndex).reference

def prev (q : AgedQueue) (reference : Nat) : Option Nat :=
  if q.contains reference = false then none
  else do
    let currIndex ← q.ageIndex.find reference
    let prevIndex ← (q.recordList currIndex).prev
    pure (q.recordList prevIndex).reference

def call (q : AgedQueue) : AgedCall → Option (Bool × AgedQueue)
  | .add reference => q.add reference
  | .touch reference => q.touch reference
  | .remove reference => q.remove reference
  | .clear => some (true, q.clear)

/-! ## What the queue is to be -/

/-- What a call does to the list. -/
def callList (l : AgeList Nat) : AgedCall → Bool × AgeList Nat
  | .add reference => l.add reference
  | .touch reference => l.touch reference
  | .remove reference => l.remove reference
  | .clear => (true, AgeList.empty)

/-- The queue answers as the list does, and has every record in use or free, once. -/
structure Agrees (q : AgedQueue) (l : AgeList Nat) : Prop where
  size : q.numRecords = l.elements.length
  contains : ∀ reference, q.contains reference = decide (reference ∈ l.elements)
  newest : q.newest = l.newest
  oldest : q.oldest = l.oldest
  next : ∀ reference, q.next reference = l.next reference
  prev : ∀ reference, q.prev reference = l.prev reference
  records : ∃ indices, (q.freeIndexList ++ indices).Perm (List.range q.size) ∧
    (indices.map fun i => (q.recordList i).reference) = l.elements

end AgedQueue

/-- A queue with the list that it is to be. -/
structure AgedRun where
  queue : AgedQueue
  list : AgeList Nat

namespace AgedRun

def start (reserve : Int) : AgedRun := ⟨AgedQueue.new reserve, AgeList.empty⟩

/-- A queue whose call is undefined is left as it is. -/
def step (s : AgedRun) (c : AgedCall) : AgedRun × List Empty :=
  (⟨((s.queue.call c).map Prod.snd).getD s.queue, (AgedQueue.callList s.list c).2⟩, [])

def machine : Machine AgedRun AgedCall Empty := ⟨step⟩

/-- The call is defined and does what it does to the list. -/
def Refines (_ : List Empty) (s : AgedRun) (c : AgedCall) : Prop :=
  ∃ q, s.queue.call c = some ((AgedQueue.callList s.list c).1, q) ∧
    q.Agrees (AgedQueue.callList s.list c).2

/-- A reference that is removed is there, unless the queue is empty; one that is added finds room,
or the queue can be doubled. -/
def Defined (_ : List Empty) (s : AgedRun) : AgedCall → Prop
  | .remove reference => s.queue.numRecords = 0 ∨ s.queue.contains reference = true
  | .add reference => s.queue.contains reference = true ∨ s.queue.numRecords < s.queue.size ∨
    s.queue.size * 2 < 2 ^ 31
  | _ => True

end AgedRun

/-!
## Runs of the aged queue

`Threaded q l`: the links run through the records `l` from the oldest to the newest, and the index
and the free list have the records that they should. A queue that is threaded agrees with the
references of `l` (`Threaded.agrees`), and every call that is defined keeps it so (`Sound.call`).
-/

namespace AgedQueue

def nextOf (q : AgedQueue) (i : Nat) : Option Nat := (q.recordList i).next

def prevOf (q : AgedQueue) (i : Nat) : Option Nat := (q.recordList i).prev

def refOf (q : AgedQueue) (i : Nat) : Nat := (q.recordList i).reference

structure Threaded (q : AgedQueue) (l : List Nat) : Prop where
  links : Linked q.nextOf q.prevOf none l none
  partition : (q.freeIndexList ++ l).Perm (List.range q.size)
  count : q.numRecords = l.length
  pos : 0 < q.size
  oldest : q.oldestIndex = l.head?
  newest : q.newestIndex = l.getLast?
  index : ∀ reference i, q.ageIndex.find reference = some i ↔ i ∈ l ∧ q.refOf i = reference

variable {q q' : AgedQueue} {l l₁ l₂ : List Nat} {list : AgeList Nat} {reference c : Nat}

theorem Threaded.nodup (h : Threaded q l) : l.Nodup :=
  (List.nodup_append.mp (h.partition.nodup_iff.mpr List.nodup_range)).2.1

theorem Threaded.not_mem_free (h : Threaded q l) (hc : c ∈ q.freeIndexList) : c ∉ l := fun hmem =>
  (List.nodup_append.mp (h.partition.nodup_iff.mpr List.nodup_range)).2.2 c hc c hmem rfl

theorem threaded_empty {size : Nat} (hpos : 0 < size) :
    Threaded ⟨size, 0, fun _ => unused, List.range size, ∅, none, none⟩ [] where
  links := trivial
  partition := by rw [List.append_nil]
  count := rfl
  pos := hpos
  oldest := rfl
  newest := rfl
  index reference i := by simp

/-! ### Queries -/

theorem Threaded.find_isSome (h : Threaded q l) (reference : Nat) :
    (q.ageIndex.find reference).isSome ↔ reference ∈ l.map q.refOf := by
  rw [Option.isSome_iff_exists, List.mem_map]
  exact exists_congr fun i => h.index reference i

theorem Threaded.contains_iff (h : Threaded q l) (reference : Nat) :
    q.contains reference = true ↔ reference ∈ l.map q.refOf := by
  rw [← h.find_isSome]
  unfold AgedQueue.contains
  by_cases hzero : q.numRecords = 0
  · rw [if_pos hzero]
    have hl : l = [] := List.length_eq_zero_iff.mp (h.count.symm.trans hzero)
    rw [h.find_isSome, hl]
    exact iff_of_false Bool.false_ne_true (List.not_mem_nil)
  · rw [if_neg hzero]

/-- A reference has one record, between those before it and those after it. -/
theorem Threaded.split (h : Threaded q l) (hmem : reference ∈ l.map q.refOf) :
    ∃ l₁ i l₂, l = l₁ ++ i :: l₂ ∧ q.ageIndex.find reference = some i ∧ q.refOf i = reference ∧
      reference ∉ l₁.map q.refOf ∧ reference ∉ l₂.map q.refOf := by
  obtain ⟨i, hi, rfl⟩ := List.mem_map.mp hmem
  obtain ⟨l₁, l₂, rfl⟩ := List.append_of_mem hi
  have hfind := (h.index (q.refOf i) i).mpr ⟨hi, rfl⟩
  have hperm : (l₁ ++ i :: l₂).Perm (i :: (l₁ ++ l₂)) := List.perm_middle
  obtain ⟨hnot, -⟩ := List.nodup_cons.mp (hperm.nodup_iff.mp h.nodup)
  have hother : ∀ j ∈ l₁ ++ l₂, q.refOf j ≠ q.refOf i := fun j hj hsame => by
    have hj' := (h.index (q.refOf i) j).mpr
      ⟨hperm.mem_iff.mpr (List.mem_cons_of_mem _ hj), hsame⟩
    rw [hfind, Option.some.injEq] at hj'
    exact hnot (hj' ▸ hj)
  refine ⟨l₁, i, l₂, rfl, hfind, rfl, fun hin => ?_, fun hin => ?_⟩
  · obtain ⟨j, hj, hsame⟩ := List.mem_map.mp hin
    exact hother j (List.mem_append_left _ hj) hsame
  · obtain ⟨j, hj, hsame⟩ := List.mem_map.mp hin
    exact hother j (List.mem_append_right _ hj) hsame

theorem Threaded.agrees (h : Threaded q l) (hlist : list.elements = l.map q.refOf) :
    q.Agrees list := by
  have hcontains : ∀ reference, q.contains reference = decide (reference ∈ list.elements) :=
    fun reference => by
      rw [hlist, Bool.eq_iff_iff, h.contains_iff, decide_eq_true_eq]
  have hend : ∀ last : Option Nat, last = l.head? ∨ last = l.getLast? →
      (if q.numRecords = 0 then none else last.map fun i => (q.recordList i).reference) =
        last.map q.refOf := by
    intro last hlast
    split
    · next hzero =>
      have hl : l = [] := List.length_eq_zero_iff.mp (h.count.symm.trans hzero)
      rw [hl] at hlast
      rcases hlast with rfl | rfl <;> rfl
    · rfl
  refine ⟨by rw [h.count, hlist, List.length_map], hcontains, ?_, ?_, fun reference => ?_,
    fun reference => ?_, l, h.partition, hlist.symm⟩
  · unfold AgedQueue.newest AgeList.newest
    rw [hend _ (.inr h.newest), h.newest, hlist, List.getLast?_map]
  · unfold AgedQueue.oldest AgeList.oldest
    rw [hend _ (.inl h.oldest), h.oldest, hlist, List.head?_map]
  · unfold AgedQueue.next AgeList.next
    by_cases hmem : reference ∈ l.map q.refOf
    · obtain ⟨l₁, i, l₂, rfl, hfind, hi, hbefore, -⟩ := h.split hmem
      have hnext : (q.recordList i).next = l₂.head? := h.links.at.2
      rw [(h.contains_iff reference).mpr hmem, if_neg (by decide), hfind, Option.bind_eq_bind,
        Option.bind_some, hnext, hlist, List.map_append, List.map_cons, hi,
        following_append hbefore, List.head?_map]
      cases l₂.head? <;> rfl
    · rw [hcontains, hlist, decide_eq_false hmem, if_pos rfl, following_eq_none hmem]
  · unfold AgedQueue.prev AgeList.prev
    by_cases hmem : reference ∈ l.map q.refOf
    · obtain ⟨l₁, i, l₂, rfl, hfind, hi, -, hafter⟩ := h.split hmem
      have hprev : (q.recordList i).prev = l₁.getLast? := h.links.at.1
      have hback : (l₁ ++ i :: l₂).map q.refOf =
          l₁.map q.refOf ++ reference :: l₂.map q.refOf := by
        rw [List.map_append, List.map_cons, hi]
      rw [(h.contains_iff reference).mpr hmem, if_neg (by decide), hfind, Option.bind_eq_bind,
        Option.bind_some, hprev, hlist, hback, List.reverse_append, List.reverse_cons,
        List.append_assoc, List.singleton_append,
        following_append (fun hin => hafter (List.mem_reverse.mp hin)), List.head?_reverse,
        List.getLast?_map]
      cases l₁.getLast? <;> rfl
    · rw [hcontains, hlist, decide_eq_false hmem, if_pos rfl,
        following_eq_none fun hin => hmem (List.mem_reverse.mp hin)]

/-! ### Writes -/

theorem update_recordList (q : AgedQueue) (i j : Nat) (f : AgeRecord → AgeRecord) :
    (q.update i f).recordList j = if j = i then f (q.recordList j) else q.recordList j := by
  unfold update
  by_cases h : j = i
  · subst h
    rw [if_pos rfl]
    exact Function.update_self ..
  · rw [if_neg h]
    exact Function.update_of_ne h ..

theorem updateLink_recordList (q : AgedQueue) (i : Option Nat) (j : Nat)
    (f : AgeRecord → AgeRecord) :
    (q.updateLink i f).recordList j =
      if i = some j then f (q.recordList j) else q.recordList j := by
  cases i with
  | none => rfl
  | some i =>
    show (q.update i f).recordList j = _
    rw [update_recordList]
    exact if_congr ⟨fun h => congrArg some h.symm, fun h => (Option.some.inj h).symm⟩ rfl rfl

structure Relinked (q q' : AgedQueue) : Prop where
  refOf : q'.refOf = q.refOf
  size : q'.size = q.size
  numRecords : q'.numRecords = q.numRecords
  freeIndexList : q'.freeIndexList = q.freeIndexList
  ageIndex : q'.ageIndex = q.ageIndex

theorem relinked_updateLink (q : AgedQueue) (i : Option Nat) (f : AgeRecord → AgeRecord)
    (hf : ∀ r, (f r).reference = r.reference) : Relinked q (q.updateLink i f) ∧
      (q.updateLink i f).newestIndex = q.newestIndex ∧
      (q.updateLink i f).oldestIndex = q.oldestIndex := by
  have href : (q.updateLink i f).refOf = q.refOf := by
    funext j
    unfold AgedQueue.refOf
    rw [updateLink_recordList]
    split
    · exact hf _
    · rfl
  cases i <;> exact ⟨⟨href, rfl, rfl, rfl, rfl⟩, rfl, rfl⟩

theorem Relinked.trans {q'' : AgedQueue} (h : Relinked q q') (h' : Relinked q' q'') :
    Relinked q q'' :=
  ⟨h'.refOf.trans h.refOf, h'.size.trans h.size, h'.numRecords.trans h.numRecords,
    h'.freeIndexList.trans h.freeIndexList, h'.ageIndex.trans h.ageIndex⟩

theorem pull_spec (q : AgedQueue) (c : Nat) : Relinked q (q.pull c) ∧
    (q.pull c).newestIndex = q.newestIndex ∧ (q.pull c).oldestIndex = q.oldestIndex := by
  obtain ⟨h, hn, ho⟩ := relinked_updateLink q (q.recordList c).prev
    (fun r => { r with next := (q.recordList c).next }) fun _ => rfl
  obtain ⟨h', hn', ho'⟩ := relinked_updateLink
    (q.updateLink (q.recordList c).prev fun r => { r with next := (q.recordList c).next })
    (q.recordList c).next (fun r => { r with prev := (q.recordList c).prev }) fun _ => rfl
  exact ⟨h.trans h', hn'.trans hn, ho'.trans ho⟩

theorem pull_nextOf (q : AgedQueue) (c j : Nat) :
    (q.pull c).nextOf j = if q.prevOf c = some j then q.nextOf c else q.nextOf j := by
  unfold nextOf prevOf pull
  dsimp only
  rw [updateLink_recordList, updateLink_recordList]
  by_cases hn : (q.recordList c).next = some j
  · rw [if_pos hn]
    dsimp only
    split <;> rfl
  · rw [if_neg hn]
    split <;> rfl

theorem pull_prevOf (q : AgedQueue) (c j : Nat) :
    (q.pull c).prevOf j = if q.nextOf c = some j then q.prevOf c else q.prevOf j := by
  unfold nextOf prevOf pull
  dsimp only
  rw [updateLink_recordList, updateLink_recordList]
  by_cases hn : (q.recordList c).next = some j
  · rw [if_pos hn, if_pos hn]
  · rw [if_neg hn, if_neg hn]
    split <;> rfl

theorem pushNewest_spec (q : AgedQueue) {c n : Nat} (hcn : c ≠ n) : Relinked q (q.pushNewest c n) ∧
    (∀ j, (q.pushNewest c n).nextOf j =
      if j = c then none else if some n = some j then some c else q.nextOf j) ∧
    ∀ j, (q.pushNewest c n).prevOf j = if j = c then some n else q.prevOf j := by
  have hrecord : ∀ j, (q.pushNewest c n).recordList j =
      { reference := (q.recordList j).reference
        next := if j = c then none else if some n = some j then some c else q.nextOf j
        prev := if j = c then some n else q.prevOf j } := by
    intro j
    unfold pushNewest nextOf prevOf
    dsimp only
    rw [update_recordList, update_recordList]
    by_cases hc : j = c
    · subst hc
      rw [if_pos rfl, if_neg hcn, if_pos rfl, if_pos rfl]
    · rw [if_neg hc, if_neg hc, if_neg hc]
      by_cases hn : j = n
      · rw [if_pos hn, if_pos (congrArg some hn.symm)]
      · rw [if_neg hn, if_neg fun h => hn (Option.some.inj h).symm]
  refine ⟨⟨funext fun j => ?_, rfl, rfl, rfl, rfl⟩, fun j => ?_, fun j => ?_⟩
  · unfold refOf
    rw [hrecord]
  · rw [nextOf, hrecord]
  · rw [prevOf, hrecord]

/-! ### The list that a write leaves -/

/-- The first of a list that a record leaves, as the oldest record is kept. -/
theorem head?_pulled (hc : c ∉ l₁) :
    (if (l₁ ++ c :: l₂).head? = some c then l₂.head? else (l₁ ++ c :: l₂).head?) =
      (l₁ ++ l₂).head? := by
  cases l₁ with
  | nil => simp
  | cons y l₁ =>
    have hy : y ≠ c := fun hy => hc (List.mem_cons.mpr (.inl hy.symm))
    simp [hy]

theorem getLast?_pulled (hc : c ∉ l₂) :
    (if (l₁ ++ c :: l₂).getLast? = some c then l₁.getLast? else (l₁ ++ c :: l₂).getLast?) =
      (l₁ ++ l₂).getLast? := by
  have hback := @head?_pulled _ l₁.reverse _ fun h => hc (List.mem_reverse.mp h)
  have hreverse : l₂.reverse ++ c :: l₁.reverse = (l₁ ++ c :: l₂).reverse := by simp
  rw [hreverse, ← List.reverse_append, List.head?_reverse, List.head?_reverse,
    List.head?_reverse] at hback
  exact hback

/-- The records are linked in another order. -/
theorem Threaded.relinked {l' : List Nat} (h : Threaded q l) (hr : Relinked q q')
    (hperm : l'.Perm l) (hlinks : Linked q'.nextOf q'.prevOf none l' none)
    (holdest : q'.oldestIndex = l'.head?) (hnewest : q'.newestIndex = l'.getLast?) :
    Threaded q' l' where
  links := hlinks
  partition := by
    rw [hr.freeIndexList, hr.size]
    exact (List.Perm.append_left _ hperm).trans h.partition
  count := by rw [hr.numRecords, h.count, hperm.length_eq]
  pos := by
    rw [hr.size]
    exact h.pos
  oldest := holdest
  newest := hnewest
  index reference i := by rw [hr.ageIndex, hr.refOf, hperm.mem_iff, h.index]

/-- The links of a list that a record was pulled from. -/
theorem pull_links (hlinks : Linked q.nextOf q.prevOf none (l₁ ++ c :: l₂) none)
    (hnodup : (l₁ ++ l₂).Nodup) :
    Linked (q.pull c).nextOf (q.pull c).prevOf none (l₁ ++ l₂) none := by
  obtain ⟨hprev, hnext⟩ := hlinks.at
  refine hlinks.remove hnodup (fun x _ => ?_) fun x _ => ?_
  · rw [pull_nextOf, hprev, hnext]
  · rw [pull_prevOf, hprev, hnext]

/-- The links of a list that a record was pushed to. -/
theorem push_links {n : Nat} (hlinks : Linked q.nextOf q.prevOf none l none) (hnodup : l.Nodup)
    (hc : c ∉ l) (hn : l.getLast? = some n) :
    Linked (q.pushNewest c n).nextOf (q.pushNewest c n).prevOf none (l ++ [c]) none := by
  have hcn : c ≠ n := fun h => hc (h ▸ List.mem_of_getLast? hn)
  obtain ⟨-, hnext, hprev⟩ := pushNewest_spec q hcn
  have hne : ∀ x ∈ l ++ [], x ≠ c := fun x hx h => by
    rw [List.append_nil] at hx
    exact hc (h ▸ hx)
  refine @Linked.insert _ q.nextOf q.prevOf _ _ _ _ _ _ (by rwa [List.append_nil])
    (by rwa [List.append_nil]) ?_ ?_ (fun x hx => ?_) fun x hx => ?_
  · rw [hnext, if_pos rfl]
    rfl
  · rw [hprev, if_pos rfl, hn]
  · rw [hnext, if_neg (hne x hx), hn]
  · rw [hprev, if_neg (hne x hx), if_neg (fun h => nomatch h)]

/-! ### Calls -/

/-- A queue that is full and can be doubled has records to spare. -/
theorem Threaded.grown (h : Threaded q l)
    (hroom : q.numRecords < q.size ∨ q.size * 2 < 2 ^ 31) :
    ∃ q₀ c free, q.grown = some q₀ ∧ Threaded q₀ l ∧ q₀.freeIndexList = c :: free ∧
      (∀ i ∈ l, q₀.refOf i = q.refOf i) := by
  have hlen := h.partition.length_eq
  rw [List.length_append, List.length_range, ← h.count] at hlen
  unfold AgedQueue.grown
  by_cases hfull : q.numRecords ≥ q.size
  · rw [if_pos hfull, if_pos (hroom.resolve_left (Nat.not_lt.mpr hfull))]
    have hfree : q.freeIndexList = [] := List.length_eq_zero_iff.mp (by omega)
    have hperm := h.partition
    rw [hfree, List.nil_append] at hperm
    have hsame : ∀ i ∈ l, (q.resize (q.size * 2)).recordList i = q.recordList i := fun i hi =>
      if_pos (List.mem_range.mp (hperm.mem_iff.mp hi))
    have hsize : q.size * 2 - q.size = q.size - 1 + 1 := by
      have := h.pos
      omega
    refine ⟨_, q.size, List.range' (q.size + 1) (q.size - 1), rfl,
      ⟨?_, ?_, h.count, Nat.mul_pos h.pos (by decide), h.oldest, h.newest, fun reference i => ?_⟩,
      ?_, fun i hi => ?_⟩
    · refine h.links.congr (fun x hx => ?_) fun x hx => ?_
      · unfold nextOf
        rw [hsame x hx]
      · unfold prevOf
        rw [hsame x hx]
    · show (List.range' q.size (q.size * 2 - q.size) ++ l).Perm (List.range (q.size * 2))
      have hsplit : List.range (q.size * 2) =
          List.range q.size ++ List.range' q.size (q.size * 2 - q.size) := by
        have hdouble : q.size * 2 - q.size = q.size := by omega
        rw [List.range_eq_range', List.range_eq_range', hdouble, Nat.mul_two]
        simpa using (List.range'_append_1 (s := 0) (m := q.size) (n := q.size)).symm
      rw [hsplit]
      exact List.perm_append_comm.trans (List.Perm.append_right _ hperm)
    · refine (h.index reference i).trans (and_congr_right fun hi => ?_)
      unfold refOf
      rw [hsame i hi]
    · show List.range' q.size (q.size * 2 - q.size) = _
      rw [hsize, List.range'_succ]
    · unfold refOf
      rw [hsame i hi]
  · rw [if_neg hfull]
    cases hfree : q.freeIndexList with
    | nil =>
      rw [hfree, List.length_nil] at hlen
      omega
    | cons c free => exact ⟨q, c, free, rfl, h, hfree, fun _ _ => rfl⟩

theorem Threaded.touch (h : Threaded q l) (hlist : list.elements = l.map q.refOf)
    (reference : Nat) : ∃ q' l', q.touch reference = some ((list.touch reference).1, q') ∧
      Threaded q' l' ∧ (list.touch reference).2.elements = l'.map q'.refOf := by
  by_cases hmem : reference ∈ l.map q.refOf
  · obtain ⟨l₁, c, l₂, rfl, hfind, hc, -, -⟩ := h.split hmem
    have hperm : (l₁ ++ c :: l₂).Perm (c :: (l₁ ++ l₂)) := List.perm_middle
    obtain ⟨hcl, hnodup⟩ := List.nodup_cons.mp (hperm.nodup_iff.mp h.nodup)
    have hc₁ : c ∉ l₁ := fun hin => hcl (List.mem_append_left _ hin)
    have hsplit : list.elements = l₁.map q.refOf ++ reference :: l₂.map q.refOf := by
      rw [hlist, List.map_append, List.map_cons, hc]
    obtain ⟨htrue, helements⟩ := AgeList.elements_touch hsplit
    have hrefs : (list.touch reference).2.elements = (l₁ ++ l₂ ++ [c]).map q.refOf := by
      rw [helements, List.map_append, List.map_append, List.map_singleton, hc]
    unfold AgedQueue.touch
    rw [(h.contains_iff reference).mpr hmem, if_neg (by decide), hfind, htrue]
    dsimp only [Option.bind_eq_bind, Option.bind_some]
    by_cases hlast : q.newestIndex = some c
    · rw [if_pos hlast]
      have hl₂ : l₂ = [] := by
        rw [h.newest] at hlast
        by_contra hne
        rw [List.append_cons, List.getLast?_append_of_ne_nil _ hne] at hlast
        exact hcl (List.mem_append_right _ (List.mem_of_getLast? hlast))
      subst hl₂
      rw [List.append_nil] at hrefs
      exact ⟨q, l₁ ++ [c], rfl, h, hrefs⟩
    · rw [if_neg hlast]
      have hl₂ : l₂ ≠ [] := by
        rintro rfl
        rw [h.newest, List.getLast?_concat] at hlast
        exact hlast rfl
      obtain ⟨n, hn⟩ := Option.ne_none_iff_exists'.mp (mt List.getLast?_eq_none_iff.mp hl₂)
      have hnl : (l₁ ++ l₂).getLast? = some n := by rw [List.getLast?_append_of_ne_nil _ hl₂, hn]
      have hnewest : q.newestIndex = some n := by
        rw [h.newest, List.append_cons, List.getLast?_append_of_ne_nil _ hl₂, hn]
      let q₁ : AgedQueue := { q with
        oldestIndex := if q.oldestIndex = some c then (q.recordList c).next else q.oldestIndex }
      have holdest : q₁.oldestIndex = (l₁ ++ l₂).head? := by
        have hnext : (q.recordList c).next = l₂.head? := h.links.at.2
        show (if q.oldestIndex = some c then _ else _) = _
        rw [hnext, h.oldest, head?_pulled hc₁]
      obtain ⟨hpull, hpullNewest, hpullOldest⟩ := pull_spec q₁ c
      have hcn : c ≠ n := fun hcn => hcl (hcn ▸ List.mem_of_getLast? hnl)
      obtain ⟨hpush, -, -⟩ := pushNewest_spec (q₁.pull c) hcn
      have hstart : Relinked q q₁ := ⟨rfl, rfl, rfl, rfl, rfl⟩
      have hrelinked := hstart.trans (hpull.trans hpush)
      refine ⟨(q₁.pull c).pushNewest c n, l₁ ++ l₂ ++ [c], ?_, ?_, ?_⟩
      · exact Option.bind_eq_some_iff.mpr ⟨n, hpullNewest.trans hnewest, rfl⟩
      · refine h.relinked hrelinked ((List.perm_append_singleton ..).trans hperm.symm)
          (push_links (pull_links (q := q₁) h.links hnodup) hnodup hcl hnl) ?_
          (List.getLast?_concat ..).symm
        show (q₁.pull c).oldestIndex = _
        have hne : l₁ ++ l₂ ≠ [] := fun hnil => hl₂ (List.append_eq_nil_iff.mp hnil).2
        rw [hpullOldest, holdest, List.head?_append_of_ne_nil _ hne]
      · rw [hrelinked.refOf, hrefs]
  · have hnot : q.contains reference = false := by
      rw [← Bool.not_eq_true, h.contains_iff]
      exact hmem
    unfold AgedQueue.touch AgeList.touch
    rw [if_pos hnot, if_neg (by rwa [hlist])]
    exact ⟨q, l, rfl, h, hlist⟩

theorem Threaded.remove (h : Threaded q l) (reference : Nat) (hlist : list.elements = l.map q.refOf)
    (hdefined : q.numRecords = 0 ∨ reference ∈ l.map q.refOf) :
    ∃ q' l', q.remove reference = some ((list.remove reference).1, q') ∧
      Threaded q' l' ∧ (list.remove reference).2.elements = l'.map q'.refOf := by
  by_cases hzero : q.numRecords = 0
  · have hl : l = [] := List.length_eq_zero_iff.mp (h.count.symm.trans hzero)
    subst hl
    have hnot : reference ∉ list.elements := by
      rw [hlist]
      exact List.not_mem_nil
    unfold AgedQueue.remove AgeList.remove
    rw [if_pos hzero, if_neg hnot]
    exact ⟨q, [], rfl, h, hlist⟩
  · obtain ⟨l₁, c, l₂, rfl, hfind, hc, -, -⟩ := h.split (hdefined.resolve_left hzero)
    have hperm : (l₁ ++ c :: l₂).Perm (c :: (l₁ ++ l₂)) := List.perm_middle
    obtain ⟨hcl, hnodup⟩ := List.nodup_cons.mp (hperm.nodup_iff.mp h.nodup)
    obtain ⟨hprev, hnext⟩ := h.links.at
    have hsplit : list.elements = l₁.map q.refOf ++ reference :: l₂.map q.refOf := by
      rw [hlist, List.map_append, List.map_cons, hc]
    obtain ⟨htrue, helements⟩ := AgeList.elements_remove hsplit
    let q₁ : AgedQueue := { q with
      ageIndex := q.ageIndex.erase reference
      oldestIndex := if q.oldestIndex = some c then (q.recordList c).next else q.oldestIndex
      newestIndex := if q.newestIndex = some c then (q.recordList c).prev else q.newestIndex }
    obtain ⟨hpull, hpullNewest, hpullOldest⟩ := pull_spec q₁ c
    refine ⟨{ q₁.pull c with
      freeIndexList := (q₁.pull c).freeIndexList ++ [c]
      numRecords := (q₁.pull c).numRecords - 1 }, l₁ ++ l₂, ?_, ?_, ?_⟩
    · unfold AgedQueue.remove
      rw [if_neg hzero, hfind, htrue]
      rfl
    · refine ⟨pull_links (q := q₁) h.links hnodup, ?_, ?_, ?_, ?_, ?_, fun other i => ?_⟩
      · show ((q₁.pull c).freeIndexList ++ [c] ++ (l₁ ++ l₂)).Perm (List.range (q₁.pull c).size)
        rw [hpull.freeIndexList, hpull.size, List.append_assoc]
        exact (List.Perm.append_left _ hperm.symm).trans h.partition
      · show (q₁.pull c).numRecords - 1 = _
        have hcount : q₁.numRecords = (l₁ ++ c :: l₂).length := h.count
        rw [hpull.numRecords, hcount, hperm.length_eq, List.length_cons, Nat.add_sub_cancel]
      · show 0 < (q₁.pull c).size
        rw [hpull.size]
        exact h.pos
      · show (q₁.pull c).oldestIndex = _
        have hnext' : (q.recordList c).next = l₂.head? := hnext
        rw [hpullOldest]
        show (if q.oldestIndex = some c then _ else _) = _
        rw [hnext', h.oldest, head?_pulled fun hin => hcl (List.mem_append_left _ hin)]
      · show (q₁.pull c).newestIndex = _
        have hprev' : (q.recordList c).prev = l₁.getLast? := hprev
        rw [hpullNewest]
        show (if q.newestIndex = some c then _ else _) = _
        rw [hprev', h.newest, getLast?_pulled fun hin => hcl (List.mem_append_right _ hin)]
      · show (q₁.pull c).ageIndex.find other = some i ↔ i ∈ l₁ ++ l₂ ∧ (q₁.pull c).refOf i = other
        rw [hpull.ageIndex, hpull.refOf]
        show (q.ageIndex.erase reference).find other = some i ↔ i ∈ l₁ ++ l₂ ∧ q.refOf i = other
        rw [UMap.find_erase]
        by_cases hother : other = reference
        · subst hother
          rw [if_pos rfl]
          refine iff_of_false (fun hf => nomatch hf) fun ⟨hi, href⟩ => ?_
          have hsame := (h.index other i).mpr ⟨hperm.mem_iff.mpr (List.mem_cons_of_mem _ hi), href⟩
          rw [hfind, Option.some.injEq] at hsame
          exact hcl (hsame ▸ hi)
        · rw [if_neg hother, h.index, hperm.mem_iff, List.mem_cons]
          refine and_congr_left fun href => or_iff_right fun hic => hother ?_
          rw [← href, hic, hc]
    · show _ = (l₁ ++ l₂).map (q₁.pull c).refOf
      rw [helements, hpull.refOf, List.map_append]
      rfl

/-- A record from the free list was put at the end for `reference`. -/
structure Added (reference c : Nat) (l : List Nat) (q q' : AgedQueue) : Prop where
  links : Linked q'.nextOf q'.prevOf none (l ++ [c]) none
  refOf : ∀ j, q'.refOf j = if j = c then reference else q.refOf j
  free : q.freeIndexList = c :: q'.freeIndexList
  size : q'.size = q.size
  index : q'.ageIndex = q.ageIndex.emplace reference c
  count : q'.numRecords = q.numRecords + 1
  oldest : q'.oldestIndex = (l ++ [c]).head?
  newest : q'.newestIndex = some c

theorem Threaded.added (h : Threaded q l) (hfind : q.ageIndex.find reference = none)
    (ha : Added reference c l q q') :
    Threaded q' (l ++ [c]) ∧ (l ++ [c]).map q'.refOf = l.map q.refOf ++ [reference] := by
  have hc : c ∉ l := h.not_mem_free (by rw [ha.free]; exact List.mem_cons_self)
  have hperm : (l ++ [c]).Perm (c :: l) := List.perm_append_singleton ..
  have href : ∀ j ∈ l, q'.refOf j = q.refOf j := fun j hj => by
    rw [ha.refOf, if_neg]
    rintro rfl
    exact hc hj
  refine ⟨⟨ha.links, ?_, ?_, ?_, ha.oldest, ?_, fun other i => ?_⟩, ?_⟩
  · rw [ha.size]
    refine List.Perm.trans ?_ h.partition
    rw [ha.free]
    exact (List.Perm.append_left _ hperm).trans List.perm_middle
  · rw [ha.count, h.count, hperm.length_eq, List.length_cons]
  · rw [ha.size]
    exact h.pos
  · rw [ha.newest, List.getLast?_concat]
  · rw [ha.index, UMap.find_emplace, hfind, hperm.mem_iff, List.mem_cons, ha.refOf]
    by_cases hother : other = reference
    · subst hother
      rw [if_pos rfl, Option.getD_none, Option.some.injEq]
      constructor
      · rintro rfl
        exact ⟨.inl rfl, if_pos rfl⟩
      · rintro ⟨hi | hi, hsame⟩
        · exact hi.symm
        · have hic : i ≠ c := fun hic => hc (hic ▸ hi)
          rw [if_neg hic] at hsame
          rw [(h.index other i).mpr ⟨hi, hsame⟩] at hfind
          cases hfind
    · rw [if_neg hother, h.index]
      by_cases hic : i = c
      · subst hic
        rw [if_pos rfl]
        exact iff_of_false (fun hi => hc hi.1) fun hi => hother hi.2.symm
      · rw [if_neg hic, or_iff_right hic]
  · rw [List.map_append, List.map_singleton, ha.refOf, if_pos rfl, List.map_congr_left href]

theorem taken_refOf (q : AgedQueue) (reference c : Nat) (free : List Nat) (j : Nat) :
    (q.taken reference c free).refOf j = if j = c then reference else q.refOf j := by
  unfold taken refOf
  dsimp only
  rw [update_recordList]
  split <;> rfl

theorem taken_links (q : AgedQueue) (reference c : Nat) (free : List Nat) :
    (q.taken reference c free).nextOf = q.nextOf ∧
      (q.taken reference c free).prevOf = q.prevOf := by
  constructor <;> funext j <;> unfold taken
  · unfold nextOf
    dsimp only
    rw [update_recordList]
    split <;> rfl
  · unfold prevOf
    dsimp only
    rw [update_recordList]
    split <;> rfl

theorem Threaded.add (h : Threaded q l) (reference : Nat) (hlist : list.elements = l.map q.refOf)
    (hdefined : reference ∈ l.map q.refOf ∨ q.numRecords < q.size ∨ q.size * 2 < 2 ^ 31) :
    ∃ q' l', q.add reference = some ((list.add reference).1, q') ∧
      Threaded q' l' ∧ (list.add reference).2.elements = l'.map q'.refOf := by
  by_cases hmem : reference ∈ l.map q.refOf
  · unfold AgedQueue.add AgeList.add
    rw [if_pos ((h.contains_iff reference).mpr hmem), dif_pos (by rwa [hlist])]
    exact ⟨q, l, rfl, h, hlist⟩
  · obtain ⟨q₀, c, free, hgrown, h₀, hfree, hsame⟩ := h.grown (hdefined.resolve_left hmem)
    have hc : c ∉ l := h₀.not_mem_free (by rw [hfree]; exact List.mem_cons_self)
    have hrefs : l.map q₀.refOf = l.map q.refOf := List.map_congr_left hsame
    have hfind : q₀.ageIndex.find reference = none := by
      rw [← Option.not_isSome_iff_eq_none, h₀.find_isSome, hrefs]
      exact hmem
    obtain ⟨htrue, helements⟩ := AgeList.elements_add (x := reference) (l := list)
      (by rwa [hlist])
    obtain ⟨hnext, hprev⟩ := taken_links q₀ reference c free
    unfold AgedQueue.add
    rw [if_neg (by rwa [h.contains_iff]), hgrown, htrue]
    dsimp only [Option.bind_eq_bind, Option.bind_some]
    rw [hfree]
    dsimp only
    by_cases hzero : (q₀.taken reference c free).numRecords = 0
    · have hl : l = [] := List.length_eq_zero_iff.mp (h₀.count.symm.trans hzero)
      rw [if_pos hzero]
      let t := (q₀.taken reference c free).update c fun r => { r with next := none, prev := none }
      have hrecord : ∀ j, t.recordList j =
          if j = c then ⟨((q₀.taken reference c free).recordList j).reference, none, none⟩
          else (q₀.taken reference c free).recordList j := fun j => update_recordList ..
      have ha : Added reference c l q₀ { t with
          newestIndex := some c
          oldestIndex := some c
          numRecords := t.numRecords + 1 } := by
        refine ⟨?_, fun j => ?_, hfree, rfl, rfl, rfl, by rw [hl]; rfl, rfl⟩
        · rw [hl]
          refine ⟨?_, ?_, trivial⟩
          · show (t.recordList c).prev = none
            rw [hrecord, if_pos rfl]
          · show (t.recordList c).next = none
            rw [hrecord, if_pos rfl]
        · rw [← taken_refOf q₀ reference c free]
          show (t.recordList j).reference = _
          rw [hrecord]
          split <;> rfl
      obtain ⟨hthreaded, hmap⟩ := h₀.added hfind ha
      exact ⟨_, l ++ [c], rfl, hthreaded, by rw [helements, hlist, hmap, hrefs]⟩
    · have hl : l ≠ [] := fun hl => hzero (h₀.count.trans (by rw [hl]; rfl))
      obtain ⟨n, hn⟩ := Option.ne_none_iff_exists'.mp (mt List.getLast?_eq_none_iff.mp hl)
      have hcn : c ≠ n := fun hcn => hc (hcn ▸ List.mem_of_getLast? hn)
      rw [if_neg hzero]
      obtain ⟨hpush, -, -⟩ := pushNewest_spec (q₀.taken reference c free) hcn
      have ha : Added reference c l q₀ { (q₀.taken reference c free).pushNewest c n with
          numRecords := ((q₀.taken reference c free).pushNewest c n).numRecords + 1 } := by
        refine ⟨push_links (q := q₀.taken reference c free) (by rw [hnext, hprev]; exact h₀.links)
          h₀.nodup hc hn, fun j => ?_, hfree, rfl, rfl, rfl, ?_, rfl⟩
        · show ((q₀.taken reference c free).pushNewest c n).refOf j = _
          rw [hpush.refOf, taken_refOf]
        · show q₀.oldestIndex = _
          rw [h₀.oldest, List.head?_append_of_ne_nil _ hl]
      obtain ⟨hthreaded, hmap⟩ := h₀.added hfind ha
      refine ⟨_, l ++ [c], Option.bind_eq_some_iff.mpr ⟨n, h₀.newest.trans hn, rfl⟩, hthreaded, ?_⟩
      rw [helements, hlist, hmap, hrefs]

end AgedQueue

namespace AgedRun

open AgedQueue

variable {s : AgedRun} {history : List Empty}

/-- The queue is threaded, with the references of the list. -/
def Sound (s : AgedRun) : Prop :=
  ∃ l, Threaded s.queue l ∧ s.list.elements = l.map s.queue.refOf

theorem sound_start (reserve : Int) : Sound (start reserve) := by
  refine ⟨[], threaded_empty ?_, rfl⟩
  split <;> omega

/-- A call that is defined does what it does to the list, and leaves the queue threaded. -/
theorem Sound.call (h : Sound s) {c : AgedCall} (hdefined : Defined history s c) :
    ∃ q, s.queue.call c = some ((callList s.list c).1, q) ∧ Sound ⟨q, (callList s.list c).2⟩ := by
  obtain ⟨l, ht, hlist⟩ := h
  cases c with
  | add reference =>
    obtain ⟨q, l', hcall, ht', hlist'⟩ := ht.add reference hlist
      (hdefined.imp_left (ht.contains_iff reference).mp)
    exact ⟨q, hcall, l', ht', hlist'⟩
  | touch reference =>
    obtain ⟨q, l', hcall, ht', hlist'⟩ := ht.touch hlist reference
    exact ⟨q, hcall, l', ht', hlist'⟩
  | remove reference =>
    obtain ⟨q, l', hcall, ht', hlist'⟩ := ht.remove reference hlist
      (hdefined.imp_right (ht.contains_iff reference).mp)
    exact ⟨q, hcall, l', ht', hlist'⟩
  | clear => exact ⟨s.queue.clear, rfl, [], threaded_empty ht.pos, rfl⟩

theorem Sound.agrees (h : Sound s) : s.queue.Agrees s.list := by
  obtain ⟨l, ht, hlist⟩ := h
  exact ht.agrees hlist

/-- A call that is not defined has no result. -/
theorem Sound.call_eq_none (h : Sound s) {c : AgedCall} (hnot : ¬ Defined history s c) :
    s.queue.call c = none := by
  obtain ⟨l, ht, hlist⟩ := h
  cases c with
  | add reference =>
    simp only [Defined, not_or] at hnot
    obtain ⟨hcontains, hfull, hsize⟩ := hnot
    show s.queue.add reference = none
    unfold AgedQueue.add AgedQueue.grown
    rw [if_neg hcontains, if_pos (Nat.not_lt.mp hfull), if_neg hsize]
    rfl
  | touch reference => exact absurd trivial hnot
  | remove reference =>
    simp only [Defined, not_or] at hnot
    obtain ⟨hzero, hcontains⟩ := hnot
    have hfind : s.queue.ageIndex.find reference = none := by
      rw [ht.contains_iff, ← ht.find_isSome, Option.not_isSome_iff_eq_none] at hcontains
      exact hcontains
    show s.queue.remove reference = none
    unfold AgedQueue.remove
    rw [if_neg hzero, hfind]
    rfl
  | clear => exact absurd trivial hnot

theorem refines_iff (h : Sound s) (c : AgedCall) : Refines history s c ↔ Defined history s c := by
  constructor
  · rintro ⟨q, hcall, -⟩
    by_contra hnot
    rw [h.call_eq_none hnot] at hcall
    cases hcall
  · intro hdefined
    obtain ⟨q, hcall, hsound⟩ := h.call hdefined
    exact ⟨q, hcall, hsound.agrees⟩

/-- Every call of a run does what it does to the list exactly if every call is defined. -/
theorem along_refines_iff (reserve : Int) (calls : List AgedCall) :
    machine.Along Refines [] (start reserve) calls ↔
      machine.Along Defined [] (start reserve) calls := by
  refine Machine.along_congr (M := machine) (I := fun _ s => Sound s) (fun _ s c h hdefined => ?_)
    (fun _ s c h => refines_iff h c) (sound_start reserve)
  obtain ⟨q, hcall, hsound⟩ := h.call hdefined
  show Sound ⟨((s.queue.call c).map Prod.snd).getD s.queue, _⟩
  rw [hcall]
  exact hsound

/-- A reference that is not there cannot be removed from a queue that has another. -/
theorem absent_not_refines :
    ¬ machine.Along Refines [] (start 4) [.add 1, .remove 2] := by
  rintro ⟨-, ⟨q, hcall, -⟩, -⟩
  have hnone := congrArg Option.isSome hcall
  rw [Option.isSome_some] at hnone
  revert hnone
  decide +kernel

end AgedRun

end Alpine
