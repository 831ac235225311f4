import Alpine.Protocol.ProfileRuns

/-!
# Where a relocation searches

A record whose quality no longer fits moves past its neighbour, and the search for its new place
starts behind that. `relocateReads` are the indexes with which `relocate` then reads the array, and
`Relocates` is that all of them are of records in use, and that there are no more passes of the loop
than records. The loop has no other end than a record that is accepted, so this is so exactly if the
neighbour is the last one or there is such a record behind it (`Threaded.relocates_iff`).

A record that goes past the last one gets `linkEnd` as its link back, as `insertIndex` is not set.
Where no relocation does this, and each finds a place, every relocation of the run is as it should
be (`along_relocates`).
-/

namespace Alpine.PeerProfileIndex

open Lib

/-! ## The reads of a relocation -/

section Reads

variable (m : PeerProfileIndex) (i : Nat) (value : Int)

/-- The branch of an increase is taken. -/
def movesUp : Bool := (m.next i).any fun n => m.quality n < value

/-- The branch of a decrease is taken. -/
def movesDown : Bool := !m.movesUp i value && (m.prev i).any fun p => value < m.quality p

/-- What the loop up the list reads, that starts behind `n`. -/
def climbReads (n : Nat) : List (Option Nat) :=
  if (m.next n).isNone then []
  else visits m.getRelativeQuality m.next (fun q => decide (q ≥ value)) (m.size + 1) (m.next n)

def descendReads (p : Nat) : List (Option Nat) :=
  if (m.prev p).isNone then []
  else visits m.getRelativeQuality m.prev (fun q => decide (q < value)) (m.size + 1) (m.prev p)

/-- The loop reads the links that are left without the record. -/
def searchReads : List (Option Nat) :=
  if m.movesUp i value then (m.next i).elim [] ((m.unlink i).climbReads value)
  else if m.movesDown i value then (m.prev i).elim [] ((m.unlink i).descendReads value)
  else []

/-- The record on the other side of the place between two records, if it is one between two. -/
def otherSide (link : Nat → Option Nat) (found : Option (Nat × Option Nat)) : List (Option Nat) :=
  found.elim [] fun place => if place.2.isSome then [link place.1] else []

def insertReads : List (Option Nat) :=
  let unlinked := m.unlink i
  if m.movesUp i value then
    (m.next i).elim [] fun n =>
      otherSide unlinked.prev (unlinked.climb value (m.size + 1) (unlinked.next n))
  else if m.movesDown i value then
    (m.prev i).elim [] fun p =>
      otherSide unlinked.next (unlinked.descend value (m.size + 1) (unlinked.prev p))
  else []

/-- The indexes with which `relocate` reads the array. The two links of the record are compared with
`linkEnd` first. -/
def relocateReads : List (Option Nat) :=
  [m.prev i, m.next i].filter Option.isSome ++ m.searchReads i value ++ m.insertReads i value

/-- A relocation has a result, reads records in use, and passes no more often through its loop than
there are records. -/
structure Relocates : Prop where
  result : ∃ m', m.relocate i value = some m'
  live : ∀ j ∈ m.relocateReads i value, ∃ k, j = some k ∧ m.Live k
  passes : ∃ l : List Nat, l.Nodup ∧ (∀ j, j ∈ l ↔ m.Live j) ∧
    (m.searchReads i value).length ≤ l.length

/-- A record behind another one, up or down the list. -/
def Above (j k : Nat) : Prop := Relation.TransGen (fun a b => m.next a = some b) j k

def Below (j k : Nat) : Prop := Relation.TransGen (fun a b => m.prev a = some b) j k

/-- The neighbour that is passed is the last one, or a record behind it ends the search. -/
structure Searchable : Prop where
  up : ∀ n, m.next i = some n → m.quality n < value →
    m.next n = none ∨ ∃ k, m.Above n k ∧ value ≤ m.quality k
  down : ∀ p, m.prev i = some p → value < m.quality p →
    (∀ n, m.next i = some n → value ≤ m.quality n) →
      m.prev p = none ∨ ∃ k, m.Below p k ∧ m.quality k < value

/-- A record behind the neighbour that is passed ends the search. -/
structure Rejoins : Prop where
  up : ∀ n, m.next i = some n → m.quality n < value → ∃ k, m.Above n k ∧ value ≤ m.quality k
  down : ∀ p, m.prev i = some p → value < m.quality p →
    (∀ n, m.next i = some n → value ≤ m.quality n) → ∃ k, m.Below p k ∧ m.quality k < value

end Reads

variable {m m' : PeerProfileIndex} {l : List Nat}

theorem climb_eq_search (m : PeerProfileIndex) (value : Int) (fuel : Nat) (x : Option Nat) :
    m.climb value fuel x =
      search m.getRelativeQuality m.next (fun q => decide (q ≥ value)) fuel x := by
  induction fuel generalizing x with
  | zero => rfl
  | succ fuel ih =>
    cases x with
    | none => rfl
    | some x =>
      simp only [climb, search, Option.bind_eq_bind, Option.bind_some, decide_eq_true_eq]
      cases m.getRelativeQuality x with
      | none => rfl
      | some q =>
        simp only [Option.bind_some]
        rw [ih]
        rfl

theorem descend_eq_search (m : PeerProfileIndex) (value : Int) (fuel : Nat) (x : Option Nat) :
    m.descend value fuel x =
      search m.getRelativeQuality m.prev (fun q => decide (q < value)) fuel x := by
  induction fuel generalizing x with
  | zero => rfl
  | succ fuel ih =>
    cases x with
    | none => rfl
    | some x =>
      simp only [descend, search, Option.bind_eq_bind, Option.bind_some, decide_eq_true_eq]
      cases m.getRelativeQuality x with
      | none => rfl
      | some q =>
        simp only [Option.bind_some]
        rw [ih]
        rfl

/-! ## Places -/

/-- What is left of `u` where a record was linked in: the base may be the record. -/
structure Rejoined (c : Nat) (u m' : PeerProfileIndex) : Prop where
  rewired : Rewired u m'
  base : m'.baseIndex = u.baseIndex ∨ m'.baseIndex = some c

theorem update_next (m : PeerProfileIndex) (i j : Nat) (f : ProfileRecord → ProfileRecord) :
    (m.update i f).next j = if j = i then (f (m.profileArray j)).next else m.next j := by
  unfold next
  rw [update_array]
  split <;> rfl

theorem update_prev (m : PeerProfileIndex) (i j : Nat) (f : ProfileRecord → ProfileRecord) :
    (m.update i f).prev j = if j = i then (f (m.profileArray j)).prev else m.prev j := by
  unfold prev
  rw [update_array]
  split <;> rfl

theorem Rewired.refl (m : PeerProfileIndex) : Rewired m m :=
  ⟨fun _ => rfl, rfl, rfl, rfl, rfl⟩

/-- A write to the links of a record. -/
theorem Rewired.update (h : Rewired m m') {i : Nat} {f : ProfileRecord → ProfileRecord}
    (hf : ∀ r, (f r).profile = r.profile) : Rewired m (m'.update i f) := by
  refine ⟨fun j => ?_, h.free, h.size, h.index, h.count⟩
  rw [update_array]
  split
  · exact (hf _).trans (h.profile j)
  · exact h.profile j

theorem Rewired.rebase {u w : PeerProfileIndex} {nb : Nat} {quality : Int} (c : Nat) (value : Int)
    (h : Rewired u w) (hbase : w.baseIndex = u.baseIndex)
    (hread : u.getRelativeQuality nb = some quality) :
    ∃ m', w.rebase c value nb = some m' ∧ Rejoined c u m' ∧ m'.next = w.next ∧
      m'.prev = w.prev := by
  rw [← h.getRelativeQuality] at hread
  by_cases hcloser : distance value < distance quality
  · exact ⟨_, Option.bind_eq_some_iff.mpr ⟨quality, hread, if_pos hcloser⟩,
      ⟨⟨h.profile, h.free, h.size, h.index, h.count⟩, .inr rfl⟩, rfl, rfl⟩
  · exact ⟨w, Option.bind_eq_some_iff.mpr ⟨quality, hread, if_neg hcloser⟩, ⟨h, .inl hbase⟩, rfl,
      rfl⟩

theorem placeHighest_some {u : PeerProfileIndex} {r : Nat} {quality : Int} (c : Nat) (value : Int)
    (insertIndex : Option Nat) (hread : u.getRelativeQuality r = some quality) :
    ∃ m', u.placeHighest c value r insertIndex = some m' ∧ Rejoined c u m' ∧
      (∀ j, m'.next j = if j = c then none else if j = r then some c else u.next j) ∧
      ∀ j, m'.prev j = if j = c then insertIndex else u.prev j := by
  obtain ⟨w, hw⟩ : ∃ w, w = (u.update r fun x => { x with next := some c }).update c
      fun x => { x with next := none, prev := insertIndex } := ⟨_, rfl⟩
  have hnext : ∀ j, w.next j = if j = c then none else if j = r then some c else u.next j := by
    intro j
    rw [hw, update_next, update_next]
  have hprev : ∀ j, w.prev j = if j = c then insertIndex else u.prev j := by
    intro j
    rw [hw, update_prev, update_prev]
    split
    · rfl
    · split <;> rfl
  have hrewired : Rewired u w := by
    rw [hw]
    refine .update (.update (.refl u) ?_) ?_ <;> exact fun _ => rfl
  have hends : Rewired u { w with highestQualityIndex := some c } :=
    ⟨hrewired.profile, hrewired.free, hrewired.size, hrewired.index, hrewired.count⟩
  have hbase : w.baseIndex = u.baseIndex := by
    rw [hw]
    rfl
  have hplace : u.placeHighest c value r insertIndex =
      if u.baseIndex = insertIndex then { w with highestQualityIndex := some c }.rebase c value r
      else some { w with highestQualityIndex := some c } := by
    rw [hw]
    rfl
  rw [hplace]
  split
  · obtain ⟨m', hm', hrejoined, hn, hp⟩ := hends.rebase c value hbase hread
    exact ⟨m', hm', hrejoined, fun j => by rw [hn]; exact hnext j,
      fun j => by rw [hp]; exact hprev j⟩
  · exact ⟨_, rfl, ⟨hends, .inl hbase⟩, hnext, hprev⟩

theorem placeLowest_some {u : PeerProfileIndex} {r : Nat} {quality : Int} (c : Nat) (value : Int)
    (insertIndex : Option Nat) (hread : u.getRelativeQuality r = some quality) :
    ∃ m', u.placeLowest c value r insertIndex = some m' ∧ Rejoined c u m' ∧
      (∀ j, m'.next j = if j = c then insertIndex else u.next j) ∧
      ∀ j, m'.prev j = if j = c then none else if j = r then some c else u.prev j := by
  obtain ⟨w, hw⟩ : ∃ w, w = (u.update r fun x => { x with prev := some c }).update c
      fun x => { x with prev := none, next := insertIndex } := ⟨_, rfl⟩
  have hnext : ∀ j, w.next j = if j = c then insertIndex else u.next j := by
    intro j
    rw [hw, update_next, update_next]
    split
    · rfl
    · split <;> rfl
  have hprev : ∀ j, w.prev j = if j = c then none else if j = r then some c else u.prev j := by
    intro j
    rw [hw, update_prev, update_prev]
  have hrewired : Rewired u w := by
    rw [hw]
    refine .update (.update (.refl u) ?_) ?_ <;> exact fun _ => rfl
  have hends : Rewired u { w with lowestQualityIndex := some c } :=
    ⟨hrewired.profile, hrewired.free, hrewired.size, hrewired.index, hrewired.count⟩
  have hbase : w.baseIndex = u.baseIndex := by
    rw [hw]
    rfl
  have hplace : u.placeLowest c value r insertIndex =
      if u.baseIndex = insertIndex then { w with lowestQualityIndex := some c }.rebase c value r
      else some { w with lowestQualityIndex := some c } := by
    rw [hw]
    rfl
  rw [hplace]
  split
  · obtain ⟨m', hm', hrejoined, hn, hp⟩ := hends.rebase c value hbase hread
    exact ⟨m', hm', hrejoined, fun j => by rw [hn]; exact hnext j,
      fun j => by rw [hp]; exact hprev j⟩
  · exact ⟨_, rfl, ⟨hends, .inl hbase⟩, hnext, hprev⟩

theorem placeBetween_some {u : PeerProfileIndex} {first second : Nat} {q q' : Int} (c : Nat)
    (value : Int) (p n : Nat) (hfirst : u.getRelativeQuality first = some q)
    (hsecond : u.getRelativeQuality second = some q') :
    ∃ m', u.placeBetween c value p n first second = some m' ∧ Rejoined c u m' ∧
      (∀ j, m'.next j = if j = c then some n else if j = p then some c else u.next j) ∧
      ∀ j, m'.prev j = if j = c then some p else if j = n then some c else u.prev j := by
  obtain ⟨w, hw⟩ : ∃ w, w = ((u.update n fun x => { x with prev := some c }).update p
      fun x => { x with next := some c }).update c
      fun x => { x with next := some n, prev := some p } := ⟨_, rfl⟩
  have hnext : ∀ j, w.next j = if j = c then some n else if j = p then some c else u.next j := by
    intro j
    rw [hw, update_next, update_next, update_next]
    split
    · rfl
    · split
      · rfl
      · split <;> rfl
  have hprev : ∀ j, w.prev j = if j = c then some p else if j = n then some c else u.prev j := by
    intro j
    rw [hw, update_prev, update_prev, update_prev]
    split
    · rfl
    · by_cases hj : j = p
      · rw [if_pos hj]
        show ((u.update n fun x => { x with prev := some c }).prev j) = _
        rw [update_prev]
      · rw [if_neg hj]
  have hrewired : Rewired u w := by
    rw [hw]
    refine .update (.update (.update (.refl u) ?_) ?_) ?_ <;> exact fun _ => rfl
  have hbase : w.baseIndex = u.baseIndex := by
    rw [hw]
    rfl
  have hplace : u.placeBetween c value p n first second =
      if u.baseIndex = some first then w.rebase c value first
      else if u.baseIndex = some second then w.rebase c value second else some w := by
    rw [hw]
    rfl
  rw [hplace]
  split
  · obtain ⟨m', hm', hrejoined, hn, hp⟩ := hrewired.rebase c value hbase hfirst
    exact ⟨m', hm', hrejoined, fun j => by rw [hn]; exact hnext j,
      fun j => by rw [hp]; exact hprev j⟩
  split
  · obtain ⟨m', hm', hrejoined, hn, hp⟩ := hrewired.rebase c value hbase hsecond
    exact ⟨m', hm', hrejoined, fun j => by rw [hn]; exact hnext j,
      fun j => by rw [hp]; exact hprev j⟩
  · exact ⟨w, rfl, ⟨hrewired, .inl hbase⟩, hnext, hprev⟩

/-! ## The branches of a relocation -/

section Branches

variable {u : PeerProfileIndex} {c n r x : Nat} {value : Int}

theorem moveHigher_last (hn : u.next n = none) :
    u.moveHigher c value n = u.placeHighest c value n none := by
  unfold next at hn
  unfold moveHigher
  rw [hn]

theorem moveHigher_lost (hn : u.next n = some x)
    (hclimb : u.climb value (u.size + 1) (some x) = none) : u.moveHigher c value n = none := by
  unfold next at hn
  unfold moveHigher
  rw [hn]
  dsimp only
  rw [hclimb]
  rfl

theorem moveHigher_highest (hn : u.next n = some x)
    (hclimb : u.climb value (u.size + 1) (some x) = some (r, none)) :
    u.moveHigher c value n = u.placeHighest c value r (some r) := by
  unfold next at hn
  unfold moveHigher
  rw [hn]
  dsimp only
  rw [hclimb]
  rfl

theorem moveHigher_between {p y : Nat} (hn : u.next n = some x)
    (hclimb : u.climb value (u.size + 1) (some x) = some (r, some y)) (hp : u.prev r = some p) :
    u.moveHigher c value n = u.placeBetween c value p r p r := by
  unfold next at hn
  unfold prev at hp
  unfold moveHigher
  rw [hn]
  dsimp only
  rw [hclimb]
  dsimp only [Option.bind_eq_bind, Option.bind_some]
  rw [hp]
  rfl

theorem moveLower_last (hn : u.prev n = none) :
    u.moveLower c value n = u.placeLowest c value n none := by
  unfold prev at hn
  unfold moveLower
  rw [hn]

theorem moveLower_lost (hn : u.prev n = some x)
    (hdescend : u.descend value (u.size + 1) (some x) = none) : u.moveLower c value n = none := by
  unfold prev at hn
  unfold moveLower
  rw [hn]
  dsimp only
  rw [hdescend]
  rfl

theorem moveLower_lowest (hn : u.prev n = some x)
    (hdescend : u.descend value (u.size + 1) (some x) = some (r, none)) :
    u.moveLower c value n = u.placeLowest c value r (some r) := by
  unfold prev at hn
  unfold moveLower
  rw [hn]
  dsimp only
  rw [hdescend]
  rfl

theorem moveLower_between {p y : Nat} (hn : u.prev n = some x)
    (hdescend : u.descend value (u.size + 1) (some x) = some (r, some y))
    (hp : u.next r = some p) : u.moveLower c value n = u.placeBetween c value r p p r := by
  unfold prev at hn
  unfold next at hp
  unfold moveLower
  rw [hn]
  dsimp only
  rw [hdescend]
  dsimp only [Option.bind_eq_bind, Option.bind_some]
  rw [hp]
  rfl

end Branches

section Relocate

variable {i : Nat} {value : Int}

theorem movesUp_iff : m.movesUp i value = true ↔ ∃ n, m.next i = some n ∧ m.quality n < value := by
  unfold movesUp
  simp [Option.any_eq_true]

theorem movesDown_iff : m.movesDown i value = true ↔
    m.movesUp i value = false ∧ ∃ p, m.prev i = some p ∧ value < m.quality p := by
  unfold movesDown
  simp [Option.any_eq_true]

variable (hread : ∀ j, m.next i = some j ∨ m.prev i = some j →
  m.getRelativeQuality j = some (m.quality j))

include hread

theorem relocate_up {n : Nat} (hn : m.next i = some n) (hlt : m.quality n < value) :
    m.relocate i value = (m.unlink i).moveHigher i value n := by
  have hnext : m.qualityAt value (m.profileArray i).next = some (m.quality n) := by
    rw [show (m.profileArray i).next = some n from hn]
    exact hread n (.inl hn)
  obtain ⟨q, hprev⟩ : ∃ q, m.qualityAt value (m.profileArray i).prev = some q := by
    cases hp : (m.profileArray i).prev with
    | none => exact ⟨value, rfl⟩
    | some p => exact ⟨_, hread p (.inr hp)⟩
  have hi : (m.profileArray i).next = some n := hn
  unfold relocate
  simp only [hnext, hprev, Option.bind_eq_bind, Option.bind_some]
  rw [if_neg (fun h => Int.not_le.mpr hlt h.1), if_pos hlt, hi]
  rfl

theorem relocate_down (hup : m.movesUp i value = false) {p : Nat} (hp : m.prev i = some p)
    (hlt : value < m.quality p) :
    m.relocate i value = (m.unlink i).moveLower i value p := by
  have hprev : m.qualityAt value (m.profileArray i).prev = some (m.quality p) := by
    rw [show (m.profileArray i).prev = some p from hp]
    exact hread p (.inr hp)
  obtain ⟨q, hnext, hle⟩ : ∃ q, m.qualityAt value (m.profileArray i).next = some q ∧
      value ≤ q := by
    cases hn : (m.profileArray i).next with
    | none => exact ⟨value, rfl, Int.le_refl _⟩
    | some n =>
      refine ⟨_, hread n (.inl hn), Int.not_lt.mp fun hlt' => ?_⟩
      rw [movesUp_iff.mpr ⟨n, hn, hlt'⟩] at hup
      cases hup
  have hi : (m.profileArray i).prev = some p := hp
  unfold relocate
  simp only [hnext, hprev, Option.bind_eq_bind, Option.bind_some]
  rw [if_neg (fun h => Int.not_le.mpr hlt h.2), if_neg (Int.not_lt.mpr hle), hi]
  rfl

theorem relocate_stay (hup : m.movesUp i value = false) (hdown : m.movesDown i value = false) :
    m.relocate i value = some m := by
  obtain ⟨q, hnext, hle⟩ : ∃ q, m.qualityAt value (m.profileArray i).next = some q ∧
      value ≤ q := by
    cases hn : (m.profileArray i).next with
    | none => exact ⟨value, rfl, Int.le_refl _⟩
    | some n =>
      refine ⟨_, hread n (.inl hn), Int.not_lt.mp fun hlt => ?_⟩
      rw [movesUp_iff.mpr ⟨n, hn, hlt⟩] at hup
      cases hup
  obtain ⟨q', hprev, hge⟩ : ∃ q, m.qualityAt value (m.profileArray i).prev = some q ∧
      q ≤ value := by
    cases hp : (m.profileArray i).prev with
    | none => exact ⟨value, rfl, Int.le_refl _⟩
    | some p =>
      refine ⟨_, hread p (.inr hp), Int.not_lt.mp fun hlt => ?_⟩
      rw [movesDown_iff.mpr ⟨hup, p, hp, hlt⟩] at hdown
      cases hdown
  unfold relocate
  simp only [hnext, hprev, Option.bind_eq_bind, Option.bind_some]
  exact if_pos ⟨hle, hge⟩

end Relocate

/-! ## Relocation in a linked list -/

theorem ite_some_eq {α β : Type} [DecidableEq α] (a b : α) (x y : β) :
    (if some a = some b then x else y) = if b = a then x else y :=
  if_congr (Option.some_inj.trans eq_comm) rfl rfl

section Linked

variable {l₁ l₂ : List Nat} {i : Nat} {value : Int}

/-- The links and qualities without the record at `i`. -/
theorem Threaded.unlink_read (ht : Threaded m (l₁ ++ i :: l₂)) {j : Nat} (hj : j ∈ l₁ ++ l₂) :
    (m.unlink i).getRelativeQuality j = some (m.quality j) := by
  rw [(rewired_unlink m i).getRelativeQuality]
  refine ht.read ?_
  rcases List.mem_append.mp hj with hj | hj
  · exact List.mem_append_left _ hj
  · exact List.mem_append_right _ (List.mem_cons_of_mem _ hj)

theorem Threaded.neighbours (ht : Threaded m (l₁ ++ i :: l₂)) (j : Nat)
    (hj : m.next i = some j ∨ m.prev i = some j) :
    j ∈ l₁ ++ l₂ ∧ m.getRelativeQuality j = some (m.quality j) := by
  obtain ⟨hprev, hnext⟩ := ht.links.at
  have hmem : j ∈ l₁ ++ l₂ := by
    rcases hj with hj | hj
    · exact List.mem_append_right _ (List.mem_of_head? (hnext.symm.trans hj))
    · exact List.mem_append_left _ (List.mem_of_getLast? (hprev.symm.trans hj))
  refine ⟨hmem, ?_⟩
  rw [← (rewired_unlink m i).getRelativeQuality]
  exact ht.unlink_read hmem

/-- The record is linked in again, between `k₁` and `k₂`. -/
theorem Threaded.rejoined (k₁ k₂ : List Nat) (ht : Threaded m (l₁ ++ i :: l₂))
    (hk : l₁ ++ l₂ = k₁ ++ k₂) (hne : l₁ ++ l₂ ≠ []) (hr : Rejoined i (m.unlink i) m')
    (hnexti : m'.next i = k₂.head?) (hprevi : m'.prev i = k₁.getLast?)
    (hnext : ∀ x ∈ k₁ ++ k₂,
      m'.next x = if k₁.getLast? = some x then some i else (m.unlink i).next x)
    (hprev : ∀ x ∈ k₁ ++ k₂,
      m'.prev x = if k₂.head? = some x then some i else (m.unlink i).prev x) :
    Threaded m' (k₁ ++ i :: k₂) := by
  have hperm : (k₁ ++ i :: k₂).Perm (l₁ ++ i :: l₂) := by
    refine List.perm_middle.trans ?_
    rw [← hk]
    exact List.perm_middle.symm
  have hnodup : (k₁ ++ k₂).Nodup := by
    rw [← hk]
    exact (List.nodup_cons.mp (List.perm_middle.nodup_iff.mp ht.nodup)).2
  obtain ⟨hlinks, hbase⟩ := ht.unlink
  rw [hk] at hlinks
  refine ht.rewired ((rewired_unlink m i).trans hr.rewired) hperm
    (hlinks.insert hnodup hnexti hprevi hnext hprev) ?_
  rcases hr.base with hsame | hnew
  · obtain ⟨b, hb, hbase⟩ := hbase hne
    refine ⟨b, hperm.mem_iff.mpr ?_, hsame.trans hbase⟩
    rcases List.mem_append.mp hb with hb | hb
    · exact List.mem_append_left _ hb
    · exact List.mem_append_right _ (List.mem_cons_of_mem _ hb)
  · exact ⟨i, by simp, hnew⟩

theorem Threaded.size_le (ht : Threaded m l) : l.length ≤ m.size := by
  have hlength := ht.partition.length_eq
  rw [List.length_append, List.length_range] at hlength
  omega

/-- Reads of records in the list. -/
theorem Threaded.relocates (searched : List Nat) (ht : Threaded m (l₁ ++ i :: l₂))
    (hresult : ∃ m', m.relocate i value = some m')
    (hsearch : m.searchReads i value = searched.map some) (hmem : ∀ j ∈ searched, j ∈ l₁ ++ l₂)
    (hlength : searched.length ≤ (l₁ ++ l₂).length)
    (hinsert : ∀ j ∈ m.insertReads i value, ∃ k ∈ l₁ ++ l₂, j = some k) :
    m.Relocates i value := by
  have hlive : ∀ j ∈ l₁ ++ l₂, m.Live j := by
    intro j hj
    refine (ht.live j).mp ?_
    rcases List.mem_append.mp hj with hj | hj
    · exact List.mem_append_left _ hj
    · exact List.mem_append_right _ (List.mem_cons_of_mem _ hj)
  refine ⟨hresult, fun j hj => ?_, ⟨_, ht.nodup, ht.live, ?_⟩⟩
  · rcases List.mem_append.mp hj with hj | hj
    · rcases List.mem_append.mp hj with hj | hj
      · obtain ⟨hj, hsome⟩ := List.mem_filter.mp hj
        obtain ⟨k, rfl⟩ := Option.isSome_iff_exists.mp hsome
        refine ⟨k, rfl, hlive k (ht.neighbours k ?_).1⟩
        rcases List.mem_cons.mp hj with hj | hj
        · exact .inr hj.symm
        · exact .inl (List.mem_singleton.mp hj).symm
      · rw [hsearch] at hj
        obtain ⟨k, hk, rfl⟩ := List.mem_map.mp hj
        exact ⟨k, rfl, hlive k (hmem k hk)⟩
    · obtain ⟨k, hk, rfl⟩ := hinsert j hj
      exact ⟨k, rfl, hlive k hk⟩
  · rw [hsearch, List.length_map]
    simp only [List.length_append, List.length_cons] at hlength ⊢
    omega

section Up

variable {n : Nat} {rest : List Nat} (ht : Threaded m (l₁ ++ i :: n :: rest))

include ht

theorem Threaded.unlink_next : (m.unlink i).next n = rest.head? ∧
    Linked (m.unlink i).next (m.unlink i).prev (some n) rest none := by
  obtain ⟨hlinks, -⟩ := ht.unlink
  refine ⟨hlinks.at.2, ?_⟩
  rw [linked_append, linked_cons] at hlinks
  exact hlinks.2.2.2

theorem Threaded.climb_found (h : ∃ k ∈ rest, value ≤ m.quality k) :
    ∃ r₁ r r₂, rest = r₁ ++ r :: r₂ ∧
      (m.unlink i).climb value (m.size + 1) ((m.unlink i).next n) = some (r, r₂.head?) ∧
      (m.unlink i).climbReads value n = (r₁ ++ [r]).map some := by
  obtain ⟨hnext, hlinks⟩ := ht.unlink_next
  have hread : ∀ j ∈ rest, (m.unlink i).getRelativeQuality j = some (m.quality j) :=
    fun j hj => ht.unlink_read (List.mem_append_right _ (List.mem_cons_of_mem _ hj))
  obtain ⟨k, hk, hle⟩ := h
  have hlength := ht.size_le
  obtain ⟨r₁, r, r₂, rfl, hsearch, hvisits⟩ := hlinks.search_first (fun q => decide (q ≥ value))
    hread ⟨k, hk, decide_eq_true hle⟩ (m.size + 1) (by
      simp only [List.length_append, List.length_cons] at hlength ⊢
      omega)
  refine ⟨r₁, r, r₂, rfl, ?_, ?_⟩
  · rw [climb_eq_search, hnext]
    exact hsearch
  · unfold climbReads
    rw [hnext, if_neg (by simp), (rewired_unlink m i).size]
    exact hvisits

/-- The loop comes to the end of the list. -/
theorem Threaded.climb_lost (h : ∀ k ∈ rest, m.quality k < value) :
    (m.unlink i).climb value (m.size + 1) ((m.unlink i).next n) = none := by
  obtain ⟨hnext, hlinks⟩ := ht.unlink_next
  rw [climb_eq_search, hnext]
  exact hlinks.search_eq_none _
    (fun j hj => ht.unlink_read (List.mem_append_right _ (List.mem_cons_of_mem _ hj)))
    (fun j hj => decide_eq_false (Int.not_le.mpr (h j hj))) _

theorem Threaded.up_next : m.next i = some n := ht.links.at.2

theorem Threaded.relocate_up (hlt : m.quality n < value) :
    m.relocate i value = (m.unlink i).moveHigher i value n :=
  PeerProfileIndex.relocate_up (fun j hj => (ht.neighbours j hj).2) ht.up_next hlt

/-- The neighbour is the last one. -/
theorem Threaded.relocates_last_up (hlt : m.quality n < value) (hrest : rest = []) :
    m.Relocates i value := by
  subst hrest
  have hup : m.movesUp i value = true := movesUp_iff.mpr ⟨n, ht.up_next, hlt⟩
  have hnext : (m.unlink i).next n = none := ht.unlink_next.1
  obtain ⟨m', hm', -⟩ := placeHighest_some i value none
    (ht.unlink_read (j := n) (by simp))
  refine ht.relocates [] ⟨m', ?_⟩ ?_ (fun j hj => nomatch hj) (Nat.zero_le _)
    fun j hj => ?_
  · rw [ht.relocate_up hlt, moveHigher_last hnext, hm']
  · unfold searchReads climbReads
    rw [if_pos hup, ht.up_next, Option.elim_some, hnext]
    rfl
  · unfold insertReads at hj
    dsimp only at hj
    rw [if_pos hup, ht.up_next, Option.elim_some, hnext] at hj
    cases hj

/-- A record behind the neighbour is as good. -/
theorem Threaded.relocates_found_up (hlt : m.quality n < value)
    (h : ∃ k ∈ rest, value ≤ m.quality k) :
    m.Relocates i value ∧ ∃ m' l', m.relocate i value = some m' ∧ Threaded m' l' := by
  obtain ⟨r₁, r, r₂, rfl, hclimb, hreads⟩ := ht.climb_found h
  obtain ⟨hlinks, -⟩ := ht.unlink
  have hup : m.movesUp i value = true := movesUp_iff.mpr ⟨n, ht.up_next, hlt⟩
  have hi : ∀ x ∈ l₁ ++ n :: (r₁ ++ r :: r₂), ¬ x = i := by
    have hnot := (List.nodup_cons.mp (List.perm_middle.nodup_iff.mp ht.nodup)).1
    rintro x hx rfl
    exact hnot hx
  have hread : (m.unlink i).getRelativeQuality r = some (m.quality r) :=
    ht.unlink_read (by simp)
  -- The place of the record before `r` is in the list.
  have hsplit : l₁ ++ n :: (r₁ ++ r :: r₂) = (l₁ ++ n :: r₁) ++ r :: r₂ := by simp
  obtain ⟨p, hp⟩ : ∃ p, (l₁ ++ n :: r₁).getLast? = some p :=
    Option.ne_none_iff_exists'.mp (mt List.getLast?_eq_none_iff.mp (by simp))
  have hpmem : p ∈ l₁ ++ n :: (r₁ ++ r :: r₂) := by
    rw [hsplit]
    exact List.mem_append_left _ (List.mem_of_getLast? hp)
  have hprev : (m.unlink i).prev r = some p := by
    rw [hsplit] at hlinks
    exact hlinks.at.1.trans hp
  obtain ⟨x, hx⟩ : ∃ x, (m.unlink i).next n = some x := by
    rw [ht.unlink_next.1]
    exact Option.ne_none_iff_exists'.mp (mt List.head?_eq_none_iff.mp (by simp))
  rw [hx, ← (rewired_unlink m i).size] at hclimb
  have hplaced : ∃ m' l', (m.unlink i).moveHigher i value n = some m' ∧ Threaded m' l' := by
    cases r₂ with
    | nil =>
      obtain ⟨m', hm', hrejoined, hnext', hprev'⟩ :=
        placeHighest_some i value (some r) hread
      refine ⟨m', _, (moveHigher_highest hx hclimb).trans hm',
        ht.rejoined (l₁ ++ n :: (r₁ ++ [r])) [] (List.append_nil _).symm (by simp) hrejoined
          (by rw [hnext', if_pos rfl]; rfl) ?_ (fun y hy => ?_) fun y hy => ?_⟩
      · rw [hprev', if_pos rfl, hsplit, List.getLast?_concat]
      · rw [List.append_nil] at hy
        rw [hnext', if_neg (hi y hy), hsplit, List.getLast?_concat, ite_some_eq]
      · rw [List.append_nil] at hy
        rw [hprev', if_neg (hi y hy)]
        rfl
    | cons y r₂ =>
      obtain ⟨m', hm', hrejoined, hnext', hprev'⟩ :=
        placeBetween_some i value p r (ht.unlink_read hpmem) hread
      refine ⟨m', _, (moveHigher_between hx hclimb hprev).trans hm',
        ht.rejoined _ _ hsplit (by simp) hrejoined (by rw [hnext', if_pos rfl]; rfl)
          (by rw [hprev', if_pos rfl, hp]) (fun z hz => ?_) fun z hz => ?_⟩
      · rw [hnext', if_neg (hi z (by rw [hsplit]; exact hz)), hp, ite_some_eq]
      · rw [hprev', if_neg (hi z (by rw [hsplit]; exact hz)), List.head?_cons, ite_some_eq]
  rw [← ht.relocate_up hlt] at hplaced
  refine ⟨?_, hplaced⟩
  obtain ⟨m', -, hm', -⟩ := hplaced
  refine ht.relocates (r₁ ++ [r]) ⟨m', hm'⟩ ?_ (fun j hj => ?_) ?_ fun j hj => ?_
  · unfold searchReads
    rw [if_pos hup, ht.up_next]
    exact hreads
  · rcases List.mem_append.mp hj with hj | hj
    · simp [hj]
    · simp [List.mem_singleton.mp hj]
  · simp only [List.length_append, List.length_cons, List.length_nil]
    omega
  · unfold insertReads at hj
    dsimp only at hj
    rw [if_pos hup, ht.up_next, Option.elim_some, hx, ← (rewired_unlink m i).size, hclimb] at hj
    unfold otherSide at hj
    rw [Option.elim_some] at hj
    split at hj
    · exact ⟨p, hpmem, (List.mem_singleton.mp hj).trans hprev⟩
    · cases hj

/-- The loop reads the array at `linkEnd`. -/
theorem Threaded.relocate_lost_up (hlt : m.quality n < value) (hrest : rest ≠ [])
    (h : ∀ k ∈ rest, m.quality k < value) : m.relocate i value = none := by
  obtain ⟨x, hx⟩ : ∃ x, (m.unlink i).next n = some x := by
    rw [ht.unlink_next.1]
    exact Option.ne_none_iff_exists'.mp (mt List.head?_eq_none_iff.mp hrest)
  have hclimb := ht.climb_lost h
  rw [hx, ← (rewired_unlink m i).size] at hclimb
  rw [ht.relocate_up hlt, moveHigher_lost hx hclimb]

end Up

section Down

variable {p : Nat} {rest : List Nat} (ht : Threaded m (rest ++ [p] ++ i :: l₂))

include ht

theorem Threaded.unlink_prev : (m.unlink i).prev p = rest.getLast? ∧
    Linked (m.unlink i).prev (m.unlink i).next (some p) rest.reverse none := by
  obtain ⟨hlinks, -⟩ := ht.unlink
  have hback := hlinks.reverse
  rw [List.reverse_append, List.reverse_append, List.reverse_singleton, List.singleton_append]
    at hback
  refine ⟨?_, ?_⟩
  · rw [List.append_assoc, List.singleton_append] at hlinks
    exact hlinks.at.1
  · rw [linked_append, linked_cons] at hback
    exact hback.2.2.2

theorem Threaded.descend_found (h : ∃ k ∈ rest, m.quality k < value) :
    ∃ r₁ r r₂, rest = r₁ ++ r :: r₂ ∧
      (m.unlink i).descend value (m.size + 1) ((m.unlink i).prev p) = some (r, r₁.getLast?) ∧
      (m.unlink i).descendReads value p = (r₂.reverse ++ [r]).map some := by
  obtain ⟨hprev, hlinks⟩ := ht.unlink_prev
  rw [← List.head?_reverse] at hprev
  have hread : ∀ j ∈ rest.reverse, (m.unlink i).getRelativeQuality j = some (m.quality j) :=
    fun j hj => ht.unlink_read (by simp [List.mem_reverse.mp hj])
  obtain ⟨k, hk, hlt⟩ := h
  have hlength := ht.size_le
  obtain ⟨s₁, r, s₂, hsplit, hsearch, hvisits⟩ := hlinks.search_first
    (fun q => decide (q < value)) hread ⟨k, List.mem_reverse.mpr hk, decide_eq_true hlt⟩
    (m.size + 1) (by
      simp only [List.length_append, List.length_cons, List.length_reverse] at hlength ⊢
      omega)
  refine ⟨s₂.reverse, r, s₁.reverse, ?_, ?_, ?_⟩
  · rw [← List.reverse_reverse rest, hsplit]
    simp
  · rw [descend_eq_search, hprev, List.getLast?_reverse]
    exact hsearch
  · unfold descendReads
    rw [hprev, if_neg (by rw [hsplit]; simp), (rewired_unlink m i).size, List.reverse_reverse]
    exact hvisits

theorem Threaded.descend_lost (h : ∀ k ∈ rest, value ≤ m.quality k) :
    (m.unlink i).descend value (m.size + 1) ((m.unlink i).prev p) = none := by
  obtain ⟨hprev, hlinks⟩ := ht.unlink_prev
  rw [← List.head?_reverse] at hprev
  rw [descend_eq_search, hprev]
  exact hlinks.search_eq_none _ (fun j hj => ht.unlink_read (by simp [List.mem_reverse.mp hj]))
    (fun j hj => decide_eq_false (Int.not_lt.mpr (h j (List.mem_reverse.mp hj)))) _

theorem Threaded.down_prev : m.prev i = some p := by
  rw [ht.links.at.1, List.getLast?_concat]

variable (hup : m.movesUp i value = false) (hlt : value < m.quality p)

include hup hlt

theorem Threaded.movesDown : m.movesDown i value = true :=
  movesDown_iff.mpr ⟨hup, p, ht.down_prev, hlt⟩

theorem Threaded.relocate_down :
    m.relocate i value = (m.unlink i).moveLower i value p :=
  PeerProfileIndex.relocate_down (fun j hj => (ht.neighbours j hj).2) hup ht.down_prev hlt

theorem Threaded.relocates_last_down (hrest : rest = []) : m.Relocates i value := by
  subst hrest
  have hprev : (m.unlink i).prev p = none := ht.unlink_prev.1
  obtain ⟨m', hm', -⟩ := placeLowest_some i value none (ht.unlink_read (j := p) (by simp))
  refine ht.relocates [] ⟨m', ?_⟩ ?_ (fun j hj => nomatch hj) (Nat.zero_le _) fun j hj => ?_
  · rw [ht.relocate_down hup hlt, moveLower_last hprev, hm']
  · unfold searchReads descendReads
    rw [if_neg (Bool.eq_false_iff.mp hup), if_pos (ht.movesDown hup hlt), ht.down_prev,
      Option.elim_some, hprev]
    rfl
  · unfold insertReads at hj
    dsimp only at hj
    rw [if_neg (Bool.eq_false_iff.mp hup), if_pos (ht.movesDown hup hlt), ht.down_prev,
      Option.elim_some, hprev] at hj
    cases hj

/-- A record behind the neighbour is worse. -/
theorem Threaded.relocates_found_down (h : ∃ k ∈ rest, m.quality k < value) :
    m.Relocates i value ∧ ∃ m' l', m.relocate i value = some m' ∧ Threaded m' l' := by
  obtain ⟨r₁, r, r₂, rfl, hdescend, hreads⟩ := ht.descend_found h
  obtain ⟨hlinks, -⟩ := ht.unlink
  have hi : ∀ x ∈ r₁ ++ r :: r₂ ++ [p] ++ l₂, ¬ x = i := by
    have hnot := (List.nodup_cons.mp (List.perm_middle.nodup_iff.mp ht.nodup)).1
    rintro x hx rfl
    exact hnot hx
  have hread : (m.unlink i).getRelativeQuality r = some (m.quality r) :=
    ht.unlink_read (by simp)
  -- The place of the record after `r` is in the list.
  have hsplit : r₁ ++ r :: r₂ ++ [p] ++ l₂ = (r₁ ++ [r]) ++ (r₂ ++ p :: l₂) := by simp
  obtain ⟨n, hn⟩ : ∃ n, (r₂ ++ p :: l₂).head? = some n :=
    Option.ne_none_iff_exists'.mp (mt List.head?_eq_none_iff.mp (by simp))
  have hnmem : n ∈ r₁ ++ r :: r₂ ++ [p] ++ l₂ := by
    rw [hsplit]
    exact List.mem_append_right _ (List.mem_of_head? hn)
  have hnext : (m.unlink i).next r = some n := by
    rw [hsplit, List.append_assoc, List.singleton_append] at hlinks
    exact hlinks.at.2.trans hn
  obtain ⟨x, hx⟩ : ∃ x, (m.unlink i).prev p = some x := by
    rw [ht.unlink_prev.1]
    exact Option.ne_none_iff_exists'.mp (mt List.getLast?_eq_none_iff.mp (by simp))
  rw [hx, ← (rewired_unlink m i).size] at hdescend
  have hplaced : ∃ m' l', (m.unlink i).moveLower i value p = some m' ∧ Threaded m' l' := by
    cases hlast : r₁.getLast? with
    | none =>
      obtain rfl := List.getLast?_eq_none_iff.mp hlast
      obtain ⟨m', hm', hrejoined, hnext', hprev'⟩ := placeLowest_some i value (some r) hread
      refine ⟨m', _, (moveLower_lowest hx hdescend).trans hm',
        ht.rejoined [] _ rfl (by simp) hrejoined (by rw [hnext', if_pos rfl]; rfl)
          (by rw [hprev', if_pos rfl]; rfl) (fun y hy => ?_) fun y hy => ?_⟩
      · rw [hnext', if_neg (hi y hy)]
        rfl
      · rw [hprev', if_neg (hi y hy)]
        show _ = if some r = some y then some i else (m.unlink i).prev y
        rw [ite_some_eq]
    | some y =>
      rw [hlast] at hdescend
      obtain ⟨m', hm', hrejoined, hnext', hprev'⟩ :=
        placeBetween_some i value r n (ht.unlink_read hnmem) hread
      refine ⟨m', _, (moveLower_between hx hdescend hnext).trans hm',
        ht.rejoined _ _ hsplit (by simp) hrejoined (by rw [hnext', if_pos rfl, hn])
          (by rw [hprev', if_pos rfl, List.getLast?_concat]) (fun z hz => ?_) fun z hz => ?_⟩
      · rw [hnext', if_neg (hi z (by rw [hsplit]; exact hz)), List.getLast?_concat, ite_some_eq]
      · rw [hprev', if_neg (hi z (by rw [hsplit]; exact hz)), hn, ite_some_eq]
  rw [← ht.relocate_down hup hlt] at hplaced
  refine ⟨?_, hplaced⟩
  obtain ⟨m', -, hm', -⟩ := hplaced
  refine ht.relocates (r₂.reverse ++ [r]) ⟨m', hm'⟩ ?_ (fun j hj => ?_) ?_ fun j hj => ?_
  · unfold searchReads
    rw [if_neg (Bool.eq_false_iff.mp hup), if_pos (ht.movesDown hup hlt), ht.down_prev]
    exact hreads
  · rcases List.mem_append.mp hj with hj | hj
    · simp [List.mem_reverse.mp hj]
    · simp [List.mem_singleton.mp hj]
  · simp only [List.length_append, List.length_cons, List.length_nil, List.length_reverse]
    omega
  · unfold insertReads at hj
    dsimp only at hj
    rw [if_neg (Bool.eq_false_iff.mp hup), if_pos (ht.movesDown hup hlt), ht.down_prev,
      Option.elim_some, hx, ← (rewired_unlink m i).size, hdescend] at hj
    unfold otherSide at hj
    rw [Option.elim_some] at hj
    split at hj
    · exact ⟨n, hnmem, (List.mem_singleton.mp hj).trans hnext⟩
    · cases hj

theorem Threaded.relocate_lost_down (hrest : rest ≠ []) (h : ∀ k ∈ rest, value ≤ m.quality k) :
    m.relocate i value = none := by
  obtain ⟨x, hx⟩ : ∃ x, (m.unlink i).prev p = some x := by
    rw [ht.unlink_prev.1]
    exact Option.ne_none_iff_exists'.mp (mt List.getLast?_eq_none_iff.mp hrest)
  have hdescend := ht.descend_lost h
  rw [hx, ← (rewired_unlink m i).size] at hdescend
  rw [ht.relocate_down hup hlt, moveLower_lost hx hdescend]

end Down

theorem Threaded.relocates_stay (ht : Threaded m (l₁ ++ i :: l₂))
    (hup : m.movesUp i value = false) (hdown : m.movesDown i value = false) :
    m.relocate i value = some m ∧ m.Relocates i value := by
  have hstay := relocate_stay (fun j hj => (ht.neighbours j hj).2) hup hdown
  refine ⟨hstay, ht.relocates [] ⟨m, hstay⟩ ?_ (fun j hj => nomatch hj) (Nat.zero_le _)
    fun j hj => ?_⟩
  · unfold searchReads
    rw [if_neg (Bool.eq_false_iff.mp hup), if_neg (Bool.eq_false_iff.mp hdown)]
    rfl
  · unfold insertReads at hj
    dsimp only at hj
    rw [if_neg (Bool.eq_false_iff.mp hup), if_neg (Bool.eq_false_iff.mp hdown)] at hj
    cases hj

/-- What is above the neighbour is the rest of the list. -/
theorem Threaded.above_iff {n k : Nat} {rest : List Nat}
    (ht : Threaded m (l₁ ++ i :: n :: rest)) :
    (m.next n = none ↔ rest = []) ∧ (m.Above n k ↔ k ∈ rest) := by
  have hlinks := ht.links
  rw [List.append_cons] at hlinks
  refine ⟨?_, hlinks.reaches⟩
  rw [hlinks.at.2, List.head?_eq_none_iff]

theorem Threaded.below_iff {p k : Nat} {rest : List Nat}
    (ht : Threaded m (rest ++ [p] ++ i :: l₂)) :
    (m.prev p = none ↔ rest = []) ∧ (m.Below p k ↔ k ∈ rest) := by
  have hlinks := ht.links
  rw [List.append_assoc, List.singleton_append] at hlinks
  refine ⟨by rw [hlinks.at.1, List.getLast?_eq_none_iff], ?_⟩
  have hback := hlinks.reverse
  rw [List.reverse_append, List.reverse_cons, List.append_assoc, List.singleton_append] at hback
  exact hback.reaches.trans List.mem_reverse

/-- The two ways a record can move, with the neighbour it passes, or it stays. -/
theorem Threaded.cases_move (ht : Threaded m l) (hi : i ∈ l) (value : Int) :
    (∃ l₁ n rest, l = l₁ ++ i :: n :: rest ∧ m.next i = some n ∧ m.quality n < value) ∨
      (m.movesUp i value = false ∧
        ∃ rest p l₂, l = rest ++ [p] ++ i :: l₂ ∧ m.prev i = some p ∧ value < m.quality p) ∨
      (m.movesUp i value = false ∧ m.movesDown i value = false) := by
  obtain ⟨l₁, l₂, rfl⟩ := List.append_of_mem hi
  obtain ⟨hprev, hnext⟩ := ht.links.at
  cases hup : m.movesUp i value with
  | true =>
    obtain ⟨n, hn, hlt⟩ := movesUp_iff.mp hup
    obtain ⟨rest, rfl⟩ := List.head?_eq_some_iff.mp (hnext.symm.trans hn)
    exact .inl ⟨l₁, n, rest, rfl, hn, hlt⟩
  | false =>
    cases hdown : m.movesDown i value with
    | true =>
      obtain ⟨-, p, hp, hlt⟩ := movesDown_iff.mp hdown
      obtain ⟨rest, rfl⟩ := List.getLast?_eq_some_iff.mp (hprev.symm.trans hp)
      exact .inr (.inl ⟨rfl, rest, p, l₂, rfl, hp, hlt⟩)
    | false => exact .inr (.inr ⟨rfl, rfl⟩)

theorem le_of_not_movesUp (hup : m.movesUp i value = false) (n : Nat) (hn : m.next i = some n) :
    value ≤ m.quality n := by
  by_contra hlt
  rw [movesUp_iff.mpr ⟨n, hn, Int.not_le.mp hlt⟩] at hup
  cases hup

/-- When the record stays, or moves the other way, nothing is asked of a direction. -/
theorem Threaded.relocates_iff (ht : Threaded m l) (hi : i ∈ l) (value : Int) :
    m.Relocates i value ↔ m.Searchable i value := by
  rcases ht.cases_move hi value with ⟨l₁, n, rest, rfl, hn, hlt⟩ |
    ⟨hup, rest, p, l₂, rfl, hp, hlt⟩ | ⟨hup, hdown⟩
  · constructor
    · intro hr
      refine ⟨fun n' hn' _ => ?_, fun p _ _ hle => absurd (hle n hn) (Int.not_le.mpr hlt)⟩
      rw [hn, Option.some_inj] at hn'
      subst hn'
      by_contra hnone
      obtain ⟨m', hm'⟩ := hr.result
      rw [ht.relocate_lost_up hlt] at hm'
      · cases hm'
      · exact fun hrest => hnone (.inl (ht.above_iff (k := n).1.mpr hrest))
      · intro k hk
        by_contra hle
        exact hnone (.inr ⟨k, ht.above_iff.2.mpr hk, Int.not_lt.mp hle⟩)
    · intro hs
      rcases hs.up n hn hlt with hlast | ⟨k, hk, hle⟩
      · exact ht.relocates_last_up hlt (ht.above_iff (k := n).1.mp hlast)
      · exact (ht.relocates_found_up hlt ⟨k, ht.above_iff.2.mp hk, hle⟩).1
  · constructor
    · intro hr
      refine ⟨fun n hn hlt' => absurd (le_of_not_movesUp hup n hn) (Int.not_le.mpr hlt'),
        fun p' hp' _ _ => ?_⟩
      rw [hp, Option.some_inj] at hp'
      subst hp'
      by_contra hnone
      obtain ⟨m', hm'⟩ := hr.result
      rw [ht.relocate_lost_down hup hlt] at hm'
      · cases hm'
      · exact fun hrest => hnone (.inl (ht.below_iff (k := p).1.mpr hrest))
      · intro k hk
        by_contra hle
        exact hnone (.inr ⟨k, ht.below_iff.2.mpr hk, Int.not_le.mp hle⟩)
    · intro hs
      rcases hs.down p hp hlt (le_of_not_movesUp hup) with hlast | ⟨k, hk, hlt'⟩
      · exact ht.relocates_last_down hup hlt (ht.below_iff (k := p).1.mp hlast)
      · exact (ht.relocates_found_down hup hlt ⟨k, ht.below_iff.2.mp hk, hlt'⟩).1
  · obtain ⟨l₁, l₂, rfl⟩ := List.append_of_mem hi
    refine ⟨fun _ => ⟨fun n hn hlt => ?_, fun p hp hlt _ => ?_⟩,
      fun _ => (ht.relocates_stay hup hdown).2⟩
    · exact absurd (le_of_not_movesUp hup n hn) (Int.not_le.mpr hlt)
    · rw [movesDown_iff.mpr ⟨hup, p, hp, hlt⟩] at hdown
      cases hdown

/-- A record that finds a place leaves a list. -/
theorem Threaded.rejoins (ht : Threaded m l) (hi : i ∈ l) (h : m.Rejoins i value) :
    ∃ m' l', m.relocate i value = some m' ∧ Threaded m' l' := by
  rcases ht.cases_move hi value with ⟨l₁, n, rest, rfl, hn, hlt⟩ |
    ⟨hup, rest, p, l₂, rfl, hp, hlt⟩ | ⟨hup, hdown⟩
  · obtain ⟨k, hk, hle⟩ := h.up n hn hlt
    exact (ht.relocates_found_up hlt ⟨k, ht.above_iff.2.mp hk, hle⟩).2
  · obtain ⟨k, hk, hlt'⟩ := h.down p hp hlt (le_of_not_movesUp hup)
    exact (ht.relocates_found_down hup hlt ⟨k, ht.below_iff.2.mp hk, hlt'⟩).2
  · obtain ⟨l₁, l₂, rfl⟩ := List.append_of_mem hi
    exact ⟨m, _, (ht.relocates_stay hup hdown).1, ht⟩

theorem Rejoins.searchable (h : m.Rejoins i value) : m.Searchable i value :=
  ⟨fun n hn hlt => .inr (h.up n hn hlt), fun p hp hlt hle => .inr (h.down p hp hlt hle)⟩

end Linked

end Alpine.PeerProfileIndex
