import Alpine.Dtcp.ThreadTable
import Alpine.Lib.Run

/-!
# Where the records and buffers of the pool are

Threads call the operations of a `ThreadTable` in any order. A call of `getNextRecord` or
`locateRecord` takes a lock more than once, and between its sections the thread has a record in its
hand. `Sound` says that every record and every buffer is in one place: a free list, the queue, with
a thread, in a thread's hand, or handed out to a caller. Records and buffers that were handed out
are noted for the theorems only; the table does not know them, and frees and queues what it is
given.
-/

namespace Alpine

open Lib

/-- Between two sections of a call. -/
inductive PoolPosition where
  /-- `getNextRecord` has taken a record. -/
  | indexing (threadId recIdx : Nat)
  /-- It has to free the record that the thread had. -/
  | freeing (oldRecIdx : Nat)
  /-- `locateRecord` has found no record. -/
  | allocating (threadId : Nat)
  /-- It has allocated one. -/
  | external (threadId record : Nat)
  deriving DecidableEq, Repr

/-- The record in the thread's hand. -/
def PoolPosition.held : PoolPosition → Option Nat
  | indexing _ recIdx => some recIdx
  | freeing oldRecIdx => some oldRecIdx
  | allocating _ => none
  | external _ record => some record

/-- A table that threads share. -/
structure SharedPool where
  table : ThreadTable
  positions : UMap Nat PoolPosition
  recordsOut : List Nat
  buffersOut : List Nat

inductive PoolPlace where
  | free
  | queued
  | active (threadId : Nat)
  | external (threadId : Nat)
  | inHand (thread : Nat)
  | handedOut
  deriving DecidableEq, Repr

namespace SharedPool

def new (maxThreads maxRecords maxBuffers : Nat) (configured : Option Nat) (now : Nat) : SharedPool :=
  ⟨.new maxThreads maxRecords maxBuffers configured now, ∅, [], []⟩

inductive Input where
  | allocateRecord (now : Nat)
  | evictLruRecord
  | returnRecord (record : Option Nat) (now : Nat)
  | allocateBuffer
  | releaseBuffer (buffer : Option Nat)
  | processRecord (record : Option Nat) (now : Nat)
  | processComplete (id now : Nat)
  | getNextRecord (thread threadId : Nat)
  | locateRecord (thread threadId : Nat)
  /-- The thread goes on with its call. -/
  | proceed (thread now : Nat)

def goTo (s : SharedPool) (thread : Nat) (position : PoolPosition) : SharedPool :=
  { s with positions := s.positions.assign thread position }

def leave (s : SharedPool) (thread : Nat) : SharedPool :=
  { s with positions := s.positions.erase thread }

/-- The caller has the record. -/
def handOut (s : SharedPool) (record : Option Nat) : SharedPool :=
  { s with recordsOut := record.toList ++ s.recordsOut }

/-- The caller has given it up. -/
def takeBack (s : SharedPool) (record : Option Nat) : SharedPool :=
  { s with recordsOut := match record with
    | none => s.recordsOut
    | some i => s.recordsOut.erase i }

/-- The next section of a call. -/
def proceed (s : SharedPool) (thread now : Nat) : PoolPosition → SharedPool
  | .indexing threadId recIdx =>
    let (oldRecIdx, table) := s.table.indexActive threadId recIdx now
    match oldRecIdx with
    | none => { s with table }.leave thread
    | some old => { s with table }.goTo thread (.freeing old)
  | .freeing oldRecIdx => { s with table := s.table.freeRecord oldRecIdx now }.leave thread
  | .allocating threadId =>
    let (record, table) := s.table.allocateRecord now
    match record with
    | none => { s with table }.leave thread
    | some record => { s with table }.goTo thread (.external threadId record)
  | .external threadId record =>
    -- a thread that has a record by now just gets this one as well
    let record' := if (s.table.externalThreadIndex.find threadId).isSome then some record else none
    ({ s with table := s.table.indexExternal threadId record }.handOut record').leave thread

def step (s : SharedPool) : Input → SharedPool
  | .allocateRecord now =>
    let (record, table) := s.table.allocateRecord now
    { s with table }.handOut record
  | .evictLruRecord =>
    let (record, table) := s.table.evictLruRecord
    { s with table }.handOut record
  | .returnRecord record now => { s with table := s.table.returnRecord record now }.takeBack record
  | .allocateBuffer =>
    let (buffer, table) := s.table.allocateBuffer
    { s with table, buffersOut := buffer.toList ++ s.buffersOut }
  | .releaseBuffer buffer =>
    let (_, table) := s.table.releaseBuffer buffer
    match buffer with
    | none => { s with table }
    | some i => { s with table, buffersOut := s.buffersOut.erase i }
  | .processRecord none _ => s
  | .processRecord (some record) now =>
    { s with table := s.table.enqueueRecord record now }.takeBack (some record)
  | .processComplete id now => { s with table := (s.table.processComplete id now).2 }
  | .getNextRecord thread threadId =>
    if (s.positions.find thread).isSome then s
    else
      let (recIdx, table) := s.table.popRecord
      match recIdx with
      | none => { s with table }
      | some recIdx => { s with table }.goTo thread (.indexing threadId recIdx)
  | .locateRecord thread threadId =>
    if (s.positions.find thread).isSome then s
    else
      match s.table.findRecord threadId with
      | some _ => s
      | none => s.goTo thread (.allocating threadId)
  | .proceed thread now =>
    match s.positions.find thread with
    | none => s
    | some position => s.proceed thread now position

def machine : Machine SharedPool Input Empty where
  step s input := (s.step input, [])

/-! ## The property -/

/-- The places of a record, each as often as it is there. -/
def placesOf (s : SharedPool) (i : Nat) : List PoolPlace :=
  (s.table.freeRecordIndices.filter (· == i)).map (fun _ => PoolPlace.free) ++
    (s.table.recordQueue.filter (· == some i)).map (fun _ => PoolPlace.queued) ++
    (s.table.activeThreadIndex.entries.filter (·.2 == i)).map (fun e => PoolPlace.active e.1) ++
    (s.table.externalThreadIndex.entries.filter (·.2 == i)).map (fun e => PoolPlace.external e.1) ++
    (s.positions.entries.filter (·.2.held == some i)).map (fun e => PoolPlace.inHand e.1) ++
    (s.recordsOut.filter (· == i)).map (fun _ => PoolPlace.handedOut)

def bufferPlacesOf (s : SharedPool) (b : Nat) : List PoolPlace :=
  (s.table.freeBufferIndices.filter (· == b)).map (fun _ => PoolPlace.free) ++
    (s.buffersOut.filter (· == b)).map (fun _ => PoolPlace.handedOut)

/-- Every record and every buffer of the pools is in exactly one place, once. -/
structure Sound (s : SharedPool) : Prop where
  records : ∀ i < s.table.records, ∃ place, s.placesOf i = [place]
  buffers : ∀ b < s.table.buffers, ∃ place, s.bufferPlacesOf b = [place]

/-- A caller gives back or queues a record only when it has it, and releases a buffer only when it
has it. -/
def Owned (s : SharedPool) : Input → Prop
  | .returnRecord (some i) _ | .processRecord (some i) _ => i < s.table.records → i ∈ s.recordsOut
  | .releaseBuffer (some b) => b < s.table.buffers → b ∈ s.buffersOut
  | _ => True

/-!
## Runs on the pool

`Accounted` counts: every record and every buffer occurs once in all the places together. An
operation moves what it takes from one place to another, so the count stays, unless a caller gives
back what it does not have, which then occurs once more (`along_inOnePlace_iff`).
-/

/-- How often a record occurs in the table. -/
def tableOccurrences (t : ThreadTable) (i : Nat) : Nat :=
  t.freeRecordIndices.count i + t.recordQueue.count (some i) +
    t.activeThreadIndex.countBy (fun _ r => r == i) +
    t.externalThreadIndex.countBy (fun _ r => r == i)

/-- How often threads and callers have it. -/
def handOccurrences (s : SharedPool) (i : Nat) : Nat :=
  s.positions.countBy (fun _ position => position.held == some i) + s.recordsOut.count i

def occurrences (s : SharedPool) (i : Nat) : Nat :=
  tableOccurrences s.table i + s.handOccurrences i

def bufferOccurrences (s : SharedPool) (b : Nat) : Nat :=
  s.table.freeBufferIndices.count b + s.buffersOut.count b

theorem length_placesOf (s : SharedPool) (i : Nat) : (s.placesOf i).length = s.occurrences i := by
  simp only [placesOf, occurrences, tableOccurrences, handOccurrences, UMap.countBy, List.count,
    List.countP_eq_length_filter, List.length_append, List.length_map, Nat.add_assoc]

theorem length_bufferPlacesOf (s : SharedPool) (b : Nat) :
    (s.bufferPlacesOf b).length = s.bufferOccurrences b := by
  simp [bufferPlacesOf, bufferOccurrences, List.count, List.countP_eq_length_filter]

theorem count_singleton_toNat (r i : Nat) : [r].count i = (r == i).toNat := by
  rw [List.count_singleton]
  cases r == i <;> rfl

theorem count_held (position : PoolPosition) (i : Nat) :
    position.held.toList.count i = (position.held == some i).toNat := by
  cases position.held with
  | none => rfl
  | some record => exact count_singleton_toNat record i

/-- How often `i` is in a pool of `size` things. -/
def inPool (size i : Nat) : Nat := if i < size then 1 else 0

theorem inPool_of_lt {size i : Nat} (h : i < size) : inPool size i = 1 := if_pos h

theorem inPool_succ (size i : Nat) : inPool (size + 1) i = inPool size i + [size].count i := by
  rw [List.count_singleton]
  unfold inPool
  by_cases hi : i = size
  · subst hi
    simp
  · have hlt : i < size + 1 ↔ i < size := by omega
    have hne : ¬ size = i := fun h => hi h.symm
    simp [hlt, hne]

/-- What is in the pools occurs once, and nothing else does. -/
structure Accounted (s : SharedPool) : Prop where
  records : ∀ i, s.occurrences i = inPool s.table.records i
  buffers : ∀ b, s.bufferOccurrences b = inPool s.table.buffers b

theorem sound_iff (s : SharedPool) :
    s.Sound ↔ (∀ i < s.table.records, s.occurrences i = 1) ∧
      ∀ b < s.table.buffers, s.bufferOccurrences b = 1 := by
  constructor
  · intro hs
    refine ⟨fun i hi => ?_, fun b hb => ?_⟩
    · obtain ⟨place, hplace⟩ := hs.records i hi
      rw [← length_placesOf, hplace, List.length_singleton]
    · obtain ⟨place, hplace⟩ := hs.buffers b hb
      rw [← length_bufferPlacesOf, hplace, List.length_singleton]
  · rintro ⟨hrecords, hbuffers⟩
    constructor
    · intro i hi
      exact List.length_eq_one_iff.mp ((length_placesOf s i).trans (hrecords i hi))
    · intro b hb
      exact List.length_eq_one_iff.mp ((length_bufferPlacesOf s b).trans (hbuffers b hb))

theorem Accounted.sound {s : SharedPool} (hi : s.Accounted) : s.Sound := by
  rw [sound_iff]
  refine ⟨fun i hlt => ?_, fun b hlt => ?_⟩
  · rw [hi.records, inPool_of_lt hlt]
  · rw [hi.buffers, inPool_of_lt hlt]

/-! ### The operations of the table -/

section Lists

theorem count_dropLast {l : List Nat} {idx : Nat} (hlast : l.getLast? = some idx) (i : Nat) :
    l.dropLast.count i + [idx].count i = l.count i := by
  obtain ⟨front, rfl⟩ := List.getLast?_eq_some_iff.mp hlast
  rw [List.dropLast_concat, List.count_append]

theorem count_set_dropLast {l : List Nat} {pos idx back : Nat} (hidx : l[pos]? = some idx)
    (hlast : l.getLast? = some back) (i : Nat) :
    (l.set pos back).dropLast.count i + [idx].count i = l.count i := by
  obtain ⟨front, rfl⟩ := List.getLast?_eq_some_iff.mp hlast
  rcases Nat.lt_or_ge pos front.length with hlt | hge
  · rw [List.getElem?_append_left hlt, List.getElem?_eq_getElem hlt] at hidx
    obtain rfl := Option.some.inj hidx
    have hpos := List.count_pos_iff.mpr (List.getElem_mem hlt)
    rw [List.set_append_left _ _ hlt, List.dropLast_concat, List.count_set hlt, List.count_append]
    by_cases heq : front[pos] = i
    · subst heq
      simp [List.count_singleton]
      omega
    · simp [heq, List.count_singleton]
  · have hpos : pos = front.length := by
      have := (List.getElem?_eq_some_iff.mp hidx).1
      rw [List.length_append, List.length_singleton] at this
      omega
    subst hpos
    rw [List.getElem?_concat_length] at hidx
    obtain rfl := Option.some.inj hidx
    rw [List.set_append_right _ _ (Nat.le_refl _), Nat.sub_self, List.set_cons_zero,
      List.dropLast_concat, List.count_append]

theorem count_erase_mem {l : List Nat} {a : Nat} (hmem : a ∈ l) (i : Nat) :
    (l.erase a).count i + [a].count i = l.count i := by
  rw [List.count_singleton, (List.perm_cons_erase hmem).count_eq i, List.count_cons]

end Lists

section Table

variable (t : ThreadTable)

/-- What an operation takes out of the table and puts into it. -/
structure Moves (t : ThreadTable) (taken given : List Nat) (t' : ThreadTable) : Prop where
  records : ∀ i, tableOccurrences t' i + taken.count i + inPool t.records i =
    tableOccurrences t i + given.count i + inPool t'.records i
  buffers : t'.freeBufferIndices = t.freeBufferIndices ∧ t'.buffers = t.buffers

theorem moves_refl : Moves t [] [] t := ⟨fun _ => rfl, rfl, rfl⟩

theorem moves_evictLruRecord : Moves t t.evictLruRecord.1.toList [] t.evictLruRecord.2 := by
  unfold ThreadTable.evictLruRecord
  split
  · exact moves_refl t
  · next oldestPos _ =>
    cases hidx : t.freeRecordIndices[oldestPos]? with
    | none => exact moves_refl t
    | some idx =>
      cases hlast : t.freeRecordIndices.getLast? with
      | none => exact moves_refl t
      | some back =>
        refine ⟨fun i => ?_, rfl, rfl⟩
        have hset := count_set_dropLast hidx hlast i
        simp only [tableOccurrences, Option.toList_some, List.count_nil]
        omega

theorem moves_allocateRecord (now : Nat) :
    Moves t (t.allocateRecord now).1.toList [] (t.allocateRecord now).2 := by
  unfold ThreadTable.allocateRecord
  split
  · next idx hlast =>
    refine ⟨fun i => ?_, rfl, rfl⟩
    have hdrop := count_dropLast hlast i
    simp only [tableOccurrences, ThreadTable.touch, Option.toList_some, List.count_nil]
    omega
  split
  · refine ⟨fun i => ?_, rfl, rfl⟩
    have hsucc := inPool_succ t.records i
    simp only [tableOccurrences, Option.toList_some, List.count_nil]
    omega
  · have hevict := moves_evictLruRecord t
    cases h : t.evictLruRecord with
    | mk evicted t' =>
      rw [h] at hevict
      cases evicted with
      | none => exact hevict
      | some evicted => exact ⟨hevict.records, hevict.buffers⟩

theorem moves_freeRecord (idx now : Nat) : Moves t [] [idx] (t.freeRecord idx now) := by
  refine ⟨fun i => ?_, rfl, rfl⟩
  simp only [tableOccurrences, ThreadTable.freeRecord, ThreadTable.touch, List.count_append,
    List.count_nil]
  omega

theorem moves_returnRecord (i now : Nat) :
    Moves t [] (if i < t.records then [i] else []) (t.returnRecord (some i) now) := by
  unfold ThreadTable.returnRecord
  dsimp only
  split
  · exact moves_freeRecord t i now
  · exact moves_refl t

theorem moves_enqueueRecord (i now : Nat) :
    Moves t [] (if i < t.records then [i] else []) (t.enqueueRecord i now) := by
  unfold ThreadTable.enqueueRecord
  split
  · refine ⟨fun j => ?_, rfl, rfl⟩
    have hsome : [some i].count (some j) = [i].count j := by simp [List.count_singleton]
    simp only [tableOccurrences, ThreadTable.touch, List.count_append, List.count_nil]
    omega
  · refine ⟨fun j => ?_, rfl, rfl⟩
    have hnone : [none].count (some j) = 0 := rfl
    simp only [tableOccurrences, List.count_append, List.count_nil]
    omega

theorem moves_popRecord : Moves t t.popRecord.1.toList [] t.popRecord.2 := by
  unfold ThreadTable.popRecord
  split
  · exact moves_refl t
  · next recIdx rest hq =>
    refine ⟨fun i => ?_, rfl, rfl⟩
    have hcons : t.recordQueue.count (some i) = rest.count (some i) + recIdx.toList.count i := by
      rw [hq, List.count_cons]
      cases recIdx with
      | none => rfl
      | some r => simp [List.count_singleton]
    simp only [tableOccurrences, List.count_nil]
    omega

theorem moves_processComplete (id now : Nat) : Moves t [] [] (t.processComplete id now).2 := by
  unfold ThreadTable.processComplete
  cases hf : t.activeThreadIndex.find id with
  | none => exact moves_refl t
  | some recIdx =>
    refine ⟨fun i => ?_, rfl, rfl⟩
    have hcount := UMap.countBy_erase hf fun _ r => r == i
    have hunit := count_singleton_toNat recIdx i
    simp only [tableOccurrences, ThreadTable.freeRecord, ThreadTable.touch, List.count_append,
      List.count_nil]
    omega

theorem moves_indexActive (threadId recIdx now : Nat) :
    Moves t (t.indexActive threadId recIdx now).1.toList [recIdx]
      (t.indexActive threadId recIdx now).2 := by
  unfold ThreadTable.indexActive
  dsimp only
  refine ⟨fun i => ?_, rfl, rfl⟩
  have hunit := count_singleton_toNat recIdx i
  cases hold : t.activeThreadIndex.find threadId with
  | none =>
    have hadd := UMap.countBy_emplace_none hold recIdx fun _ r => r == i
    simp only [tableOccurrences, ThreadTable.touch, Option.isSome_none, Bool.false_eq_true, if_false,
      Option.toList_none, List.count_nil]
    omega
  | some old =>
    have herase := UMap.countBy_erase hold fun _ r => r == i
    have hgone : (t.activeThreadIndex.erase threadId).find threadId = none := by simp
    have hadd := UMap.countBy_emplace_none hgone recIdx fun _ r => r == i
    have hunit' := count_singleton_toNat old i
    simp only [tableOccurrences, ThreadTable.touch, Option.isSome_some, if_true, Option.toList_some]
    omega

theorem moves_indexExternal {record : Nat} (hlt : record < t.records) (threadId : Nat) :
    Moves t [] (if (t.externalThreadIndex.find threadId).isSome then [] else [record])
      (t.indexExternal threadId record) := by
  unfold ThreadTable.indexExternal
  rw [if_pos hlt]
  refine ⟨fun i => ?_, rfl, rfl⟩
  have hunit := count_singleton_toNat record i
  cases hold : t.externalThreadIndex.find threadId with
  | none =>
    have hadd := UMap.countBy_emplace_none hold record fun _ r => r == i
    simp only [tableOccurrences, Option.isSome_none, Bool.false_eq_true, if_false, List.count_nil]
    omega
  | some old =>
    have hsame := UMap.emplace_of_find hold record
    simp only [tableOccurrences, hsame, Option.isSome_some, if_true, List.count_nil]

end Table

/-! ### Steps -/

section Steps

variable {s : SharedPool}

theorem accounted_new (maxThreads maxRecords maxBuffers : Nat) (configured : Option Nat) (now : Nat) :
    (new maxThreads maxRecords maxBuffers configured now).Accounted := by
  have hrange : ∀ n i, (List.range n).count i = inPool n i := by
    intro n i
    unfold inPool
    rw [List.Nodup.count List.nodup_range]
    split <;> simp_all
  constructor
  · intro i
    simp [occurrences, tableOccurrences, handOccurrences, new, ThreadTable.new, hrange]
  · intro b
    simp [bufferOccurrences, new, ThreadTable.new, hrange]

/-- What is taken out of the table is in the hands of threads and callers, and what is put into it
is not any more. -/
theorem Accounted.moves (hi : s.Accounted) {taken given : List Nat} {s' : SharedPool}
    (hm : Moves s.table taken given s'.table) (hbuffers : s'.buffersOut = s.buffersOut)
    (hhands : ∀ i, s'.handOccurrences i + given.count i = s.handOccurrences i + taken.count i) :
    s'.Accounted := by
  constructor
  · intro i
    have hrec := hi.records i
    have htable := hm.records i
    have hhand := hhands i
    unfold occurrences at hrec ⊢
    omega
  · intro b
    simp only [bufferOccurrences, hbuffers, hm.buffers]
    exact hi.buffers b

theorem handOccurrences_handOut (record : Option Nat) (i : Nat) :
    (s.handOut record).handOccurrences i = s.handOccurrences i + record.toList.count i := by
  simp only [handOccurrences, handOut, List.count_append]
  omega

/-- The thread goes on with another record in its hand. -/
theorem handOccurrences_goTo {thread : Nat} {position : PoolPosition}
    (hat : s.positions.find thread = some position) (position' : PoolPosition) (i : Nat) :
    (s.goTo thread position').handOccurrences i + position.held.toList.count i =
      s.handOccurrences i + position'.held.toList.count i := by
  have hassign := UMap.countBy_assign_some hat position' fun _ position => position.held == some i
  rw [count_held, count_held]
  simp only [handOccurrences, goTo]
  omega

theorem handOccurrences_enter {thread : Nat} (hout : s.positions.find thread = none)
    (position : PoolPosition) (i : Nat) :
    (s.goTo thread position).handOccurrences i =
      s.handOccurrences i + position.held.toList.count i := by
  have hassign := UMap.countBy_assign_none hout position fun _ position => position.held == some i
  rw [count_held]
  simp only [handOccurrences, goTo]
  omega

theorem handOccurrences_leave {thread : Nat} {position : PoolPosition}
    (hat : s.positions.find thread = some position) (i : Nat) :
    (s.leave thread).handOccurrences i + position.held.toList.count i = s.handOccurrences i := by
  have herase := UMap.countBy_erase hat fun _ position => position.held == some i
  rw [count_held]
  simp only [handOccurrences, leave]
  omega

/-- A caller gives back what it has. -/
theorem Accounted.give (hi : s.Accounted) {i : Nat} {table : ThreadTable}
    (hm : Moves s.table [] (if i < s.table.records then [i] else []) table)
    (hown : i < s.table.records → i ∈ s.recordsOut) :
    ({ s with table }.takeBack (some i)).Accounted := by
  refine hi.moves hm rfl fun j => ?_
  simp only [handOccurrences, takeBack, List.count_nil]
  split
  · next hlt =>
    have herase := count_erase_mem (hown hlt) j
    omega
  · next hge =>
    -- what is not in the pool is not handed out
    have hzero : s.recordsOut.count i = 0 := by
      have := hi.records i
      simp only [occurrences, handOccurrences, inPool, if_neg hge] at this
      omega
    rw [List.erase_of_not_mem (List.count_eq_zero.mp hzero), List.count_nil]

/-- A caller gives back what it does not have, and it occurs twice. -/
theorem Accounted.not_sound_of_give (hi : s.Accounted) {i : Nat} {table : ThreadTable}
    (hm : Moves s.table [] (if i < s.table.records then [i] else []) table)
    (hrecords : table.records = s.table.records) (hlt : i < s.table.records)
    (hown : i ∉ s.recordsOut) : ¬ ({ s with table }.takeBack (some i)).Sound := by
  intro hsound
  have hone := ((sound_iff _).mp hsound).1 i (by simpa [takeBack, hrecords] using hlt)
  have hrec := hi.records i
  have htable := hm.records i
  rw [if_pos hlt, hrecords, List.count_singleton_self, List.count_nil] at htable
  rw [inPool_of_lt hlt] at hrec
  simp only [occurrences, handOccurrences, takeBack, List.erase_of_not_mem hown] at hone hrec
  omega

/-- A record in a thread's hand is of the pool. -/
theorem Accounted.held_lt (hi : s.Accounted) {thread record : Nat} {position : PoolPosition}
    (hat : s.positions.find thread = some position) (hheld : position.held = some record) :
    record < s.table.records := by
  have herase := UMap.countBy_erase hat fun _ position => position.held == some record
  have hrec := hi.records record
  by_contra hge
  simp only [occurrences, handOccurrences, inPool, if_neg hge, hheld, beq_self_eq_true,
    Bool.toNat_true] at hrec herase
  omega

theorem Accounted.proceed (hi : s.Accounted) {thread : Nat} {position : PoolPosition}
    (hat : s.positions.find thread = some position) (now : Nat) :
    (s.proceed thread now position).Accounted := by
  cases position with
  | indexing threadId recIdx =>
    have hm := moves_indexActive s.table threadId recIdx now
    unfold SharedPool.proceed
    dsimp only
    cases hold : (s.table.indexActive threadId recIdx now).1 with
    | none =>
      rw [hold] at hm
      exact hi.moves hm rfl fun i => handOccurrences_leave hat i
    | some old =>
      rw [hold] at hm
      exact hi.moves hm rfl fun i => handOccurrences_goTo hat (.freeing old) i
  | freeing oldRecIdx =>
    exact hi.moves (moves_freeRecord s.table oldRecIdx now) rfl fun i => handOccurrences_leave hat i
  | allocating threadId =>
    have hm := moves_allocateRecord s.table now
    unfold SharedPool.proceed
    dsimp only
    cases hrecord : (s.table.allocateRecord now).1 with
    | none =>
      rw [hrecord] at hm
      exact hi.moves hm rfl fun i => handOccurrences_leave hat i
    | some record =>
      rw [hrecord] at hm
      exact hi.moves hm rfl fun i => handOccurrences_goTo hat (.external threadId record) i
  | external threadId record =>
    have hm := moves_indexExternal s.table (hi.held_lt hat rfl) threadId
    unfold SharedPool.proceed
    dsimp only
    refine hi.moves hm rfl fun i => ?_
    have hleave := handOccurrences_leave (s := { s with
      table := s.table.indexExternal threadId record }.handOut
        (if (s.table.externalThreadIndex.find threadId).isSome then some record else none)) hat i
    rw [handOccurrences_handOut] at hleave
    simp only [PoolPosition.held, Option.toList_some] at hleave
    have hsame : { s with table := s.table.indexExternal threadId record }.handOccurrences i =
        s.handOccurrences i := rfl
    rw [hsame] at hleave
    cases hf : (s.table.externalThreadIndex.find threadId).isSome with
    | true =>
      rw [hf] at hleave
      simp only [if_true, Option.toList_some, List.count_nil] at hleave ⊢
      omega
    | false =>
      rw [hf] at hleave
      simp only [Bool.false_eq_true, if_false, Option.toList_none, List.count_nil] at hleave ⊢
      omega

theorem Accounted.allocateBuffer (hi : s.Accounted) : (s.step .allocateBuffer).Accounted := by
  simp only [step, ThreadTable.allocateBuffer]
  split
  · next idx hlast =>
    refine ⟨hi.records, fun b => ?_⟩
    have hdrop := count_dropLast hlast b
    have hrec := hi.buffers b
    simp only [bufferOccurrences, Option.toList_some, List.count_append] at hrec ⊢
    omega
  split
  · refine ⟨hi.records, fun b => ?_⟩
    have hrec := hi.buffers b
    simp only [bufferOccurrences, Option.toList_some, List.count_append, inPool_succ] at hrec ⊢
    omega
  · exact hi

theorem Accounted.releaseBuffer (hi : s.Accounted) {i : Nat}
    (hown : i < s.table.buffers → i ∈ s.buffersOut) :
    (s.step (.releaseBuffer (some i))).Accounted := by
  simp only [step, ThreadTable.releaseBuffer]
  split
  · next hlt =>
    refine ⟨hi.records, fun b => ?_⟩
    have hrec := hi.buffers b
    have herase := count_erase_mem (hown hlt) b
    simp only [bufferOccurrences, List.count_append] at hrec ⊢
    omega
  · next hge =>
    refine ⟨hi.records, fun b => ?_⟩
    have hzero : s.buffersOut.count i = 0 := by
      have := hi.buffers i
      simp only [bufferOccurrences, inPool, if_neg hge] at this
      omega
    simp only [bufferOccurrences, List.erase_of_not_mem (List.count_eq_zero.mp hzero)]
    exact hi.buffers b

theorem Accounted.not_sound_of_release (hi : s.Accounted) {i : Nat} (hlt : i < s.table.buffers)
    (hown : i ∉ s.buffersOut) : ¬ (s.step (.releaseBuffer (some i))).Sound := by
  intro hsound
  simp only [step, ThreadTable.releaseBuffer, if_pos hlt] at hsound
  have hone := ((sound_iff _).mp hsound).2 i hlt
  have hrec := hi.buffers i
  rw [inPool_of_lt hlt] at hrec
  simp only [bufferOccurrences, List.count_append, List.count_singleton_self,
    List.erase_of_not_mem hown] at hone hrec
  omega

theorem Accounted.step (hi : s.Accounted) {input : Input} (hown : s.Owned input) :
    (s.step input).Accounted := by
  cases input with
  | allocateRecord now =>
    exact hi.moves (moves_allocateRecord s.table now) rfl fun i => handOccurrences_handOut _ i
  | evictLruRecord =>
    exact hi.moves (moves_evictLruRecord s.table) rfl fun i => handOccurrences_handOut _ i
  | returnRecord record now =>
    cases record with
    | none => exact hi
    | some i => exact hi.give (moves_returnRecord s.table i now) hown
  | allocateBuffer => exact hi.allocateBuffer
  | releaseBuffer buffer =>
    cases buffer with
    | none => exact hi
    | some i => exact hi.releaseBuffer hown
  | processRecord record now =>
    cases record with
    | none => exact hi
    | some i => exact hi.give (moves_enqueueRecord s.table i now) hown
  | processComplete id now =>
    exact hi.moves (moves_processComplete s.table id now) rfl fun _ => rfl
  | getNextRecord thread threadId =>
    have hm := moves_popRecord s.table
    simp only [SharedPool.step]
    split
    · exact hi
    · next hout =>
      rw [Option.not_isSome_iff_eq_none] at hout
      cases hpop : s.table.popRecord.1 with
      | none =>
        rw [hpop] at hm
        exact hi.moves hm rfl fun _ => rfl
      | some recIdx =>
        rw [hpop] at hm
        exact hi.moves hm rfl fun i => handOccurrences_enter hout (.indexing threadId recIdx) i
  | locateRecord thread threadId =>
    simp only [SharedPool.step]
    split
    · exact hi
    · next hout =>
      rw [Option.not_isSome_iff_eq_none] at hout
      split
      · exact hi
      · exact hi.moves (moves_refl s.table) rfl fun i =>
          handOccurrences_enter hout (.allocating threadId) i
  | proceed thread now =>
    simp only [SharedPool.step]
    cases hat : s.positions.find thread with
    | none => exact hi
    | some position => exact hi.proceed hat now

/-- A step after which all is in one place was one of a caller that gives back what it has. -/
theorem Accounted.owned_of_sound (hi : s.Accounted) {input : Input} (hsound : (s.step input).Sound) :
    s.Owned input := by
  cases input with
  | returnRecord record now =>
    cases record with
    | none => trivial
    | some i =>
      intro hlt
      by_contra hown
      refine hi.not_sound_of_give (moves_returnRecord s.table i now) ?_ hlt hown hsound
      simp [ThreadTable.returnRecord, hlt, ThreadTable.freeRecord, ThreadTable.touch]
  | processRecord record now =>
    cases record with
    | none => trivial
    | some i =>
      intro hlt
      by_contra hown
      refine hi.not_sound_of_give (moves_enqueueRecord s.table i now) ?_ hlt hown hsound
      simp [ThreadTable.enqueueRecord, hlt, ThreadTable.touch]
  | releaseBuffer buffer =>
    cases buffer with
    | none => trivial
    | some i =>
      intro hlt
      by_contra hown
      exact hi.not_sound_of_release hlt hown hsound
  | _ => trivial

/-- After every step of a run all records and buffers are in one place, exactly if all callers give
back only what they have. -/
theorem along_inOnePlace_iff (maxThreads maxRecords maxBuffers : Nat)
    (configured : Option Nat) (now : Nat)
    (inputs : List Input) :
    machine.Along (fun _ s input => (s.step input).Sound) []
        (new maxThreads maxRecords maxBuffers configured now) inputs ↔
      machine.Along (fun _ s input => s.Owned input) []
        (new maxThreads maxRecords maxBuffers configured now) inputs :=
  Machine.along_congr (I := fun _ s => s.Accounted) (fun _ _ _ hi hown => hi.step hown)
    (fun _ _ _ hi => ⟨hi.owned_of_sound, fun hown => (hi.step hown).sound⟩)
    (accounted_new maxThreads maxRecords maxBuffers configured now)

/-- A buffer is allocated and released twice. -/
def releasedTwice : List Input :=
  [.allocateBuffer, .releaseBuffer (some 24), .releaseBuffer (some 24)]

/-- The next two callers that allocate a buffer get the same one. -/
theorem releasedTwice_not_sound :
    ¬ machine.Along (fun _ s input => (s.step input).Sound) [] (new 25 100 10000 none 0)
        releasedTwice ∧
      (machine.run (new 25 100 10000 none 0)
        (releasedTwice ++ [.allocateBuffer, .allocateBuffer])).1.buffersOut = [24, 24] := by
  refine ⟨?_, by decide⟩
  rintro ⟨-, -, hsound, -⟩
  have hone := ((sound_iff _).mp hsound).2 24 (by decide)
  exact absurd hone (by decide)

end Steps

end SharedPool

end Alpine
