import Alpine.Lib.Links
import Alpine.Protocol.PeerProfileIndex

/-!
# The links between the profiles

`Threaded m l`: the links of the index run through the records in use, `l`, whatever their
qualities; the base is one of them, and the free list has the others. `create` links the new record
in next to the base (`Threaded.create_cases`, `placed_after`, `placed_before`) and `erase` takes one
out (`Threaded.erase`), so both keep this, in whatever order the records are.
-/

namespace Alpine.PeerProfileIndex

open Lib

def next (m : PeerProfileIndex) (i : Nat) : Option Nat := (m.profileArray i).next

def prev (m : PeerProfileIndex) (i : Nat) : Option Nat := (m.profileArray i).prev

def quality (m : PeerProfileIndex) (i : Nat) : Int := (m.getRelativeQuality i).getD 0

/-- A profile is kept at `i`. -/
def Live (m : PeerProfileIndex) (i : Nat) : Prop := ∃ peerId, m.profileIndex.find peerId = some i

structure Threaded (m : PeerProfileIndex) (l : List Nat) : Prop where
  links : Linked m.next m.prev none l none
  nodup : l.Nodup
  live : ∀ i, i ∈ l ↔ m.Live i
  base : l ≠ [] → ∃ b ∈ l, m.baseIndex = some b
  partition : (m.freeIndexList ++ l).Perm (List.range m.size)
  count : m.numRecords = l.length
  pos : 0 < m.size
  profile : ∀ peerId i, m.profileIndex.find peerId = some i →
    ∃ profile, (m.profileArray i).profile = some profile ∧ profile.peerId = peerId

variable {m m' : PeerProfileIndex} {l : List Nat}

theorem threaded_new (reserve : Int) : Threaded (new reserve) [] := by
  refine ⟨trivial, List.nodup_nil, fun i => ⟨fun h => ?_, ?_⟩, fun h => absurd rfl h, ?_, rfl, ?_,
    fun _ _ h => by cases h⟩
  · cases h
  · rintro ⟨_, h⟩
    cases h
  · rw [List.append_nil]
    exact List.Perm.refl _
  · show 0 < (if reserve < minReserve then defaultReserve else reserve).toNat
    unfold minReserve defaultReserve
    split <;> omega

/-- The quality of a record in use can be read. -/
theorem Threaded.read (ht : Threaded m l) {i : Nat} (hi : i ∈ l) :
    m.getRelativeQuality i = some (m.quality i) := by
  obtain ⟨peerId, hf⟩ := (ht.live i).mp hi
  obtain ⟨profile, hprofile, -⟩ := ht.profile peerId i hf
  simp [quality, getRelativeQuality, hprofile]

/-- The index taken from the free list is that of no record in use. -/
theorem Threaded.not_mem_free (ht : Threaded m l) {c : Nat} (hc : c ∈ m.freeIndexList) :
    c ∉ l := by
  have hnodup : (m.freeIndexList ++ l).Nodup := ht.partition.nodup_iff.mpr List.nodup_range
  exact fun hmem => (List.nodup_append.mp hnodup).2.2 c hc c hmem rfl

/-! ## Writes -/

theorem update_array (m : PeerProfileIndex) (i j : Nat) (f : ProfileRecord → ProfileRecord) :
    (m.update i f).profileArray j = if j = i then f (m.profileArray j) else m.profileArray j := by
  unfold update
  by_cases h : j = i
  · subst h
    rw [if_pos rfl]
    exact Function.update_self _ _ _
  · rw [if_neg h]
    exact Function.update_of_ne h _ _

theorem updateLink_array (m : PeerProfileIndex) (i : Option Nat) (j : Nat)
    (f : ProfileRecord → ProfileRecord) :
    (m.updateLink i f).profileArray j =
      if i = some j then f (m.profileArray j) else m.profileArray j := by
  cases i with
  | none => rfl
  | some i =>
    show (m.update i f).profileArray j = _
    rw [update_array]
    by_cases h : j = i
    · rw [if_pos h, if_pos (by rw [h])]
    · rw [if_neg h, if_neg fun h' => h (Option.some.inj h').symm]

theorem linkAfter_array {c b : Nat} (hcb : c ≠ b)
    (hn : ∀ n, m.next b = some n → n ≠ c ∧ n ≠ b) (j : Nat) :
    (m.linkAfter c b).profileArray j =
      { profile := (m.profileArray j).profile
        next := if j = c then m.next b else if b = j then some c else m.next j
        prev := if j = c then some b else if m.next b = some j then some c else m.prev j } := by
  simp only [linkAfter, update_array, updateLink_array]
  by_cases hc : j = c
  · subst hc
    have hself : ¬ (m.profileArray b).next = some j := fun h => (hn j h).1 rfl
    simp only [next, prev, hcb, if_false, hself, if_true]
  · by_cases hb : b = j
    · subst hb
      have hself : ¬ (m.profileArray b).next = some b := fun h => (hn b h).2 rfl
      simp only [next, prev, hc, hself, if_false, if_true]
    · have hb' : ¬ j = b := fun h => hb h.symm
      by_cases hnext : (m.profileArray b).next = some j
      · simp only [next, prev, hb, hb', hc, hnext, if_false, if_true]
      · simp only [next, prev, hb, hb', hc, hnext, if_false]

theorem linkBefore_array {c b : Nat} (hcb : c ≠ b)
    (hp : ∀ p, m.prev b = some p → p ≠ c ∧ p ≠ b) (j : Nat) :
    (m.linkBefore c b).profileArray j =
      { profile := (m.profileArray j).profile
        next := if j = c then some b else if m.prev b = some j then some c else m.next j
        prev := if j = c then m.prev b else if b = j then some c else m.prev j } := by
  simp only [linkBefore, update_array, updateLink_array]
  by_cases hc : j = c
  · subst hc
    have hself : ¬ (m.profileArray b).prev = some j := fun h => (hp j h).1 rfl
    simp only [next, prev, hcb, if_false, hself, if_true]
  · by_cases hb : b = j
    · subst hb
      have hself : ¬ (m.profileArray b).prev = some b := fun h => (hp b h).2 rfl
      simp only [next, prev, hc, hself, if_false, if_true]
    · have hb' : ¬ j = b := fun h => hb h.symm
      by_cases hprev : (m.profileArray b).prev = some j
      · simp only [next, prev, hb, hb', hc, hprev, if_false, if_true]
      · simp only [next, prev, hb, hb', hc, hprev, if_false]

theorem linkAfter_fields (m : PeerProfileIndex) (c b : Nat) :
    (m.linkAfter c b).size = m.size ∧ (m.linkAfter c b).numRecords = m.numRecords ∧
      (m.linkAfter c b).freeIndexList = m.freeIndexList ∧
      (m.linkAfter c b).profileIndex = m.profileIndex ∧
      (m.linkAfter c b).lowestQualityIndex = m.lowestQualityIndex ∧
      (m.linkAfter c b).highestQualityIndex =
        if m.highestQualityIndex = some b then some c else m.highestQualityIndex := by
  unfold linkAfter
  cases (m.profileArray b).next <;> exact ⟨rfl, rfl, rfl, rfl, rfl, rfl⟩

theorem linkBefore_fields (m : PeerProfileIndex) (c b : Nat) :
    (m.linkBefore c b).size = m.size ∧ (m.linkBefore c b).numRecords = m.numRecords ∧
      (m.linkBefore c b).freeIndexList = m.freeIndexList ∧
      (m.linkBefore c b).profileIndex = m.profileIndex ∧
      (m.linkBefore c b).highestQualityIndex = m.highestQualityIndex ∧
      (m.linkBefore c b).lowestQualityIndex =
        if m.lowestQualityIndex = some b then some c else m.lowestQualityIndex := by
  unfold linkBefore
  cases (m.profileArray b).prev <;> exact ⟨rfl, rfl, rfl, rfl, rfl, rfl⟩

theorem taken_array (m : PeerProfileIndex) (peerId c : Nat) (free : List Nat) (j : Nat) :
    (m.taken peerId c free).profileArray j =
      { m.profileArray j with
        profile := if j = c then some (PeerProfile.new peerId) else (m.profileArray j).profile } := by
  unfold taken
  rw [update_array]
  split <;> rfl

theorem taken_next (m : PeerProfileIndex) (peerId c : Nat) (free : List Nat) :
    (m.taken peerId c free).next = m.next := by
  funext j
  unfold next
  rw [taken_array]

theorem taken_prev (m : PeerProfileIndex) (peerId c : Nat) (free : List Nat) :
    (m.taken peerId c free).prev = m.prev := by
  funext j
  unfold prev
  rw [taken_array]

/-! ## A record is linked in -/

/-- A record for `peerId` was linked in at `c`, between the records `l₁` and `l₂`. -/
structure Placed (peerId c : Nat) (l₁ l₂ : List Nat) (m m' : PeerProfileIndex) : Prop where
  links : Linked m'.next m'.prev none (l₁ ++ c :: l₂) none
  profile : ∀ i, (m'.profileArray i).profile =
    if i = c then some (PeerProfile.new peerId) else (m.profileArray i).profile
  base : m'.baseIndex = some c
  free : m.freeIndexList = c :: m'.freeIndexList
  size : m'.size = m.size
  index : m'.profileIndex = m.profileIndex.emplace peerId c
  count : m'.numRecords = m.numRecords + 1

theorem Placed.quality {peerId c : Nat} {l₁ l₂ : List Nat} (hp : Placed peerId c l₁ l₂ m m')
    (i : Nat) : m'.quality i = if i = c then 0 else m.quality i := by
  unfold PeerProfileIndex.quality getRelativeQuality
  rw [hp.profile]
  split <;> rfl

theorem Threaded.placed {peerId c : Nat} {l₁ l₂ : List Nat} (ht : Threaded m (l₁ ++ l₂))
    (hfind : m.profileIndex.find peerId = none) (hp : Placed peerId c l₁ l₂ m m') :
    Threaded m' (l₁ ++ c :: l₂) := by
  have hc : c ∉ l₁ ++ l₂ := ht.not_mem_free (by rw [hp.free]; exact List.mem_cons_self)
  have hperm : (l₁ ++ c :: l₂).Perm (c :: (l₁ ++ l₂)) := List.perm_middle
  have hindex : ∀ peerId' i, m'.profileIndex.find peerId' = some i ↔
      (peerId' = peerId ∧ i = c) ∨ (peerId' ≠ peerId ∧ m.profileIndex.find peerId' = some i) := by
    intro peerId' i
    rw [hp.index, UMap.find_emplace, hfind]
    by_cases h : peerId' = peerId
    · simp [h, eq_comm]
    · simp [h]
  refine ⟨hp.links, ?_, fun i => ?_, fun _ => ⟨c, by simp, hp.base⟩, ?_, ?_, ?_, ?_⟩
  · exact hperm.nodup_iff.mpr (List.nodup_cons.mpr ⟨hc, ht.nodup⟩)
  · rw [hperm.mem_iff, List.mem_cons, ht.live]
    constructor
    · rintro (rfl | ⟨peerId', hf⟩)
      · exact ⟨peerId, (hindex _ _).mpr (.inl ⟨rfl, rfl⟩)⟩
      · refine ⟨peerId', (hindex _ _).mpr (.inr ⟨?_, hf⟩)⟩
        rintro rfl
        rw [hfind] at hf
        cases hf
    · rintro ⟨peerId', hf⟩
      rcases (hindex _ _).mp hf with ⟨-, rfl⟩ | ⟨-, hf⟩
      · exact .inl rfl
      · exact .inr ⟨peerId', hf⟩
  · rw [hp.size]
    refine List.Perm.trans ?_ ht.partition
    rw [hp.free]
    exact (List.Perm.append_left _ hperm).trans List.perm_middle
  · rw [hp.count, ht.count, hperm.length_eq, List.length_cons]
  · rw [hp.size]
    exact ht.pos
  · intro peerId' i hf
    rw [hp.profile]
    rcases (hindex _ _).mp hf with ⟨rfl, rfl⟩ | ⟨-, hf⟩
    · exact ⟨PeerProfile.new peerId', if_pos rfl, rfl⟩
    · rw [if_neg]
      · exact ht.profile peerId' i hf
      · rintro rfl
        exact hc ((ht.live _).mpr ⟨peerId', hf⟩)

/-- The links of a record put between `l₁` and `l₂`. -/
theorem Threaded.links_between {l₁ l₂ : List Nat} (ht : Threaded m (l₁ ++ l₂)) {c : Nat}
    (hc : c ∉ l₁ ++ l₂)
    (hnext : ∀ j, m'.next j =
      if j = c then l₂.head? else if l₁.getLast? = some j then some c else m.next j)
    (hprev : ∀ j, m'.prev j =
      if j = c then l₁.getLast? else if l₂.head? = some j then some c else m.prev j) :
    Linked m'.next m'.prev none (l₁ ++ c :: l₂) none := by
  have hne : ∀ x ∈ l₁ ++ l₂, ¬ x = c := by
    rintro x hx rfl
    exact hc hx
  refine ht.links.insert ht.nodup ?_ ?_ (fun x hx => ?_) fun x hx => ?_
  · rw [hnext, if_pos rfl]
  · rw [hprev, if_pos rfl]
  · rw [hnext, if_neg (hne x hx)]
  · rw [hprev, if_neg (hne x hx)]

theorem placed_first {peerId c : Nat} {free : List Nat} (hfree : m.freeIndexList = c :: free) :
    Placed peerId c [] [] m ((m.taken peerId c free).linkFirst c) := by
  refine ⟨⟨?_, ?_, trivial⟩, fun i => ?_, rfl, hfree, rfl, rfl, rfl⟩
  · simp [prev, linkFirst, update_array]
  · simp [next, linkFirst, update_array]
  · unfold linkFirst
    dsimp only
    rw [update_array, taken_array]
    split <;> rfl

/-- The record linked in above the base. -/
theorem placed_after {l₁ l₂ : List Nat} {b : Nat} (ht : Threaded m (l₁ ++ b :: l₂)) {peerId c : Nat}
    {free : List Nat} (hfree : m.freeIndexList = c :: free) :
    Placed peerId c (l₁ ++ [b]) l₂ m
      { (m.taken peerId c free).linkAfter c b with
        baseIndex := some c
        numRecords := ((m.taken peerId c free).linkAfter c b).numRecords + 1 } := by
  have hc : c ∉ l₁ ++ b :: l₂ := ht.not_mem_free (by rw [hfree]; exact List.mem_cons_self)
  obtain ⟨-, hnextb⟩ := ht.links.at
  have hb : b ∉ l₂ := (List.nodup_cons.mp (List.nodup_append.mp ht.nodup).2.1).1
  have hcb : c ≠ b := by
    rintro rfl
    exact hc (by simp)
  have hn : ∀ n, (m.taken peerId c free).next b = some n → n ≠ c ∧ n ≠ b := by
    rw [taken_next, hnextb]
    intro n hn
    have hmem := List.mem_of_head? hn
    refine ⟨?_, ?_⟩
    · rintro rfl
      exact hc (by simp [hmem])
    · rintro rfl
      exact hb hmem
  have harray := linkAfter_array hcb hn
  obtain ⟨hsize, hcount, hfree', hindex, -, -⟩ := (m.taken peerId c free).linkAfter_fields c b
  rw [taken_next, taken_prev, hnextb] at harray
  rw [List.append_cons] at ht hc
  refine ⟨ht.links_between hc (fun j => ?_) fun j => ?_, fun j => ?_, rfl, ?_, hsize, hindex,
    congrArg (· + 1) hcount⟩
  · show ((((m.taken peerId c free).linkAfter c b).profileArray j).next) = _
    rw [harray]
    simp
  · show ((((m.taken peerId c free).linkAfter c b).profileArray j).prev) = _
    rw [harray]
    simp
  · show ((((m.taken peerId c free).linkAfter c b).profileArray j).profile) = _
    rw [harray, taken_array]
  · show m.freeIndexList = c :: ((m.taken peerId c free).linkAfter c b).freeIndexList
    rw [hfree', hfree]
    rfl

/-- The record linked in below the base. -/
theorem placed_before {l₁ l₂ : List Nat} {b : Nat} (ht : Threaded m (l₁ ++ b :: l₂))
    {peerId c : Nat} {free : List Nat} (hfree : m.freeIndexList = c :: free) :
    Placed peerId c l₁ (b :: l₂) m
      { (m.taken peerId c free).linkBefore c b with
        baseIndex := some c
        numRecords := ((m.taken peerId c free).linkBefore c b).numRecords + 1 } := by
  have hc : c ∉ l₁ ++ b :: l₂ := ht.not_mem_free (by rw [hfree]; exact List.mem_cons_self)
  obtain ⟨hprevb, -⟩ := ht.links.at
  have hb : b ∉ l₁ := fun h => (List.nodup_append.mp ht.nodup).2.2 b h b (by simp) rfl
  have hcb : c ≠ b := by
    rintro rfl
    exact hc (by simp)
  have hp : ∀ p, (m.taken peerId c free).prev b = some p → p ≠ c ∧ p ≠ b := by
    rw [taken_prev, hprevb]
    intro p hp
    have hmem := List.mem_of_getLast? hp
    refine ⟨?_, ?_⟩
    · rintro rfl
      exact hc (by simp [hmem])
    · rintro rfl
      exact hb hmem
  have harray := linkBefore_array hcb hp
  obtain ⟨hsize, hcount, hfree', hindex, -, -⟩ := (m.taken peerId c free).linkBefore_fields c b
  rw [taken_next, taken_prev, hprevb] at harray
  refine ⟨ht.links_between hc (fun j => ?_) fun j => ?_, fun j => ?_, rfl, ?_, hsize, hindex,
    congrArg (· + 1) hcount⟩
  · show ((((m.taken peerId c free).linkBefore c b).profileArray j).next) = _
    rw [harray]
    simp
  · show ((((m.taken peerId c free).linkBefore c b).profileArray j).prev) = _
    rw [harray]
    simp
  · show ((((m.taken peerId c free).linkBefore c b).profileArray j).profile) = _
    rw [harray, taken_array]
  · show m.freeIndexList = c :: ((m.taken peerId c free).linkBefore c b).freeIndexList
    rw [hfree', hfree]
    rfl

/-! ## Creation -/

/-- A full index is doubled. -/
theorem Threaded.resize (ht : Threaded m l) (hfull : m.numRecords ≥ m.size) :
    Threaded (m.resize (m.size * 2)) l ∧ ∀ i ∈ l, (m.resize (m.size * 2)).profileArray i =
      m.profileArray i := by
  have hlen := ht.partition.length_eq
  rw [List.length_append, List.length_range] at hlen
  have hfree : m.freeIndexList = [] := by
    have := ht.count
    exact List.length_eq_zero_iff.mp (by omega)
  have hperm := ht.partition
  rw [hfree, List.nil_append] at hperm
  have harray : ∀ i ∈ l, (m.resize (m.size * 2)).profileArray i = m.profileArray i := by
    intro i hi
    have hlt : i < m.size := List.mem_range.mp (hperm.mem_iff.mp hi)
    show (if i < m.size then m.profileArray i else _) = _
    rw [if_pos hlt]
  refine ⟨⟨?_, ht.nodup, ht.live, ht.base, ?_, ht.count, ?_, fun peerId i hf => ?_⟩, harray⟩
  · refine ht.links.congr (fun x hx => ?_) fun x hx => ?_
    · unfold next
      rw [harray x hx]
    · unfold prev
      rw [harray x hx]
  · show (List.range' m.size (m.size * 2 - m.size) ++ l).Perm (List.range (m.size * 2))
    have hsplit : List.range (m.size * 2) =
        List.range m.size ++ List.range' m.size (m.size * 2 - m.size) := by
      have hdouble : m.size * 2 - m.size = m.size := by omega
      rw [List.range_eq_range', List.range_eq_range', hdouble, Nat.mul_two]
      simpa using (List.range'_append_1 (s := 0) (m := m.size) (n := m.size)).symm
    rw [hsplit]
    exact List.perm_append_comm.trans (List.Perm.append_right _ hperm)
  · show 0 < m.size * 2
    have := ht.pos
    omega
  · have hi := (ht.live i).mpr ⟨peerId, hf⟩
    rw [harray i hi]
    exact ht.profile peerId i hf

/-- The index with a record to spare, as `create` goes on with it. -/
theorem Threaded.room (ht : Threaded m l) : ∃ m₀ c free,
    m₀ = (if m.numRecords ≥ m.size then m.resize (m.size * 2) else m) ∧ Threaded m₀ l ∧
      m₀.freeIndexList = c :: free ∧ m₀.profileIndex = m.profileIndex ∧
      m₀.baseIndex = m.baseIndex ∧ ∀ i ∈ l, m₀.profileArray i = m.profileArray i := by
  by_cases hfull : m.numRecords ≥ m.size
  · obtain ⟨hthreaded, harray⟩ := ht.resize hfull
    refine ⟨m.resize (m.size * 2), m.size, List.range' (m.size + 1) (m.size - 1),
      by rw [if_pos hfull], hthreaded, ?_, rfl, rfl, harray⟩
    show List.range' m.size (m.size * 2 - m.size) = _
    have hpos := ht.pos
    rw [show m.size * 2 - m.size = (m.size - 1) + 1 by omega, List.range'_succ]
  · have hlen := ht.partition.length_eq
    rw [List.length_append, List.length_range, ← ht.count] at hlen
    cases hfree : m.freeIndexList with
    | nil =>
      rw [hfree, List.length_nil] at hlen
      omega
    | cons c free =>
      exact ⟨m, c, free, by rw [if_neg hfull], ht, hfree, rfl, rfl, fun _ _ => rfl⟩

/-- What `create` does for a new peer: the record is the first, or goes above the base, or below
it. -/
theorem Threaded.create_cases (ht : Threaded m l) {peerId : Nat}
    (hfind : m.profileIndex.find peerId = none) : ∃ m₀ c free,
    m₀ = (if m.numRecords ≥ m.size then m.resize (m.size * 2) else m) ∧ Threaded m₀ l ∧
      m₀.freeIndexList = c :: free ∧ m₀.profileIndex = m.profileIndex ∧
      (∀ i ∈ l, m₀.quality i = m.quality i) ∧
      ((l = [] ∧ m.create peerId = some (true, (m₀.taken peerId c free).linkFirst c)) ∨
        ∃ b l₁ l₂, l = l₁ ++ b :: l₂ ∧ m.baseIndex = some b ∧
          ((m.quality b < 0 ∧ m.create peerId = some (true,
              { (m₀.taken peerId c free).linkAfter c b with
                baseIndex := some c
                numRecords := ((m₀.taken peerId c free).linkAfter c b).numRecords + 1 })) ∨
            (0 ≤ m.quality b ∧ m.create peerId = some (true,
              { (m₀.taken peerId c free).linkBefore c b with
                baseIndex := some c
                numRecords := ((m₀.taken peerId c free).linkBefore c b).numRecords + 1 })))) := by
  obtain ⟨m₀, c, free, hm₀, ht₀, hfree, hindex, hbase, harray⟩ := ht.room
  have hquality : ∀ i ∈ l, m₀.quality i = m.quality i := by
    intro i hi
    unfold quality getRelativeQuality
    rw [harray i hi]
  refine ⟨m₀, c, free, hm₀, ht₀, hfree, hindex, hquality, ?_⟩
  unfold PeerProfileIndex.create
  rw [hfind, ← hm₀]
  simp only [Option.isSome_none, Bool.false_eq_true, if_false, hfree]
  by_cases hzero : (m₀.taken peerId c free).numRecords = 0
  · rw [if_pos hzero]
    exact .inl ⟨List.length_eq_zero_iff.mp (ht₀.count.symm.trans hzero), rfl⟩
  · rw [if_neg hzero]
    have hne : l ≠ [] := by
      rintro rfl
      exact hzero ht₀.count
    obtain ⟨b, hb, hbaseb⟩ := ht₀.base hne
    have hbase₁ : (m₀.taken peerId c free).baseIndex = some b := hbaseb
    have hread : (m₀.taken peerId c free).getRelativeQuality b = some (m.quality b) := by
      have hbc : b ≠ c := by
        rintro rfl
        exact ht₀.not_mem_free (by rw [hfree]; exact List.mem_cons_self) hb
      rw [← hquality b hb, ← ht₀.read hb]
      unfold getRelativeQuality
      rw [taken_array, if_neg hbc]
    simp only [hbase₁, hread, Option.bind_eq_bind, Option.bind_some]
    obtain ⟨l₁, l₂, rfl⟩ := List.append_of_mem hb
    refine .inr ⟨b, l₁, l₂, rfl, hbase.symm.trans hbaseb, ?_⟩
    by_cases hneg : m.quality b < 0
    · rw [if_pos hneg]
      exact .inl ⟨hneg, rfl⟩
    · rw [if_neg hneg]
      exact .inr ⟨Int.not_lt.mp hneg, rfl⟩

/-- `create` keeps the list. -/
theorem Threaded.create (ht : Threaded m l) (peerId : Nat) :
    ∃ status m' l', m.create peerId = some (status, m') ∧ Threaded m' l' := by
  cases hfind : m.profileIndex.find peerId with
  | some i =>
    refine ⟨false, m, l, ?_, ht⟩
    unfold PeerProfileIndex.create
    rw [hfind]
    rfl
  | none =>
    obtain ⟨m₀, c, free, -, ht₀, hfree, hindex, -, hcase⟩ := ht.create_cases hfind
    rw [← hindex] at hfind
    rcases hcase with ⟨rfl, hcreate⟩ | ⟨b, l₁, l₂, rfl, -, ⟨-, hcreate⟩ | ⟨-, hcreate⟩⟩
    · have hempty : Threaded m₀ ([] ++ []) := ht₀
      exact ⟨true, _, _, hcreate, hempty.placed hfind (placed_first hfree)⟩
    · refine ⟨true, _, _, hcreate, Threaded.placed ?_ hfind (placed_after ht₀ hfree)⟩
      rw [← List.append_cons]
      exact ht₀
    · exact ⟨true, _, _, hcreate, ht₀.placed hfind (placed_before ht₀ hfree)⟩

/-! ## Erasure -/

theorem unlink_next (m : PeerProfileIndex) (i j : Nat) :
    (m.unlink i).next j = if m.prev i = some j then m.next i else m.next j := by
  unfold next prev unlink
  dsimp only
  rw [updateLink_array, updateLink_array]
  by_cases hn : (m.profileArray i).next = some j
  · rw [if_pos hn]
    dsimp only
    split <;> rfl
  · rw [if_neg hn]
    split <;> rfl

theorem unlink_prev (m : PeerProfileIndex) (i j : Nat) :
    (m.unlink i).prev j = if m.next i = some j then m.prev i else m.prev j := by
  unfold next prev unlink
  dsimp only
  rw [updateLink_array, updateLink_array]
  by_cases hn : (m.profileArray i).next = some j
  · rw [if_pos hn, if_pos hn]
  · rw [if_neg hn, if_neg hn]
    split <;> rfl

theorem unlink_base (m : PeerProfileIndex) (i : Nat) :
    (m.unlink i).baseIndex =
      if m.baseIndex = some i then if m.prev i ≠ none then m.prev i else m.next i
      else m.baseIndex := by
  unfold unlink
  rw [updateLink_baseIndex, updateLink_baseIndex]
  rfl

/-- Only links, ends and the base differ. -/
structure Rewired (m m' : PeerProfileIndex) : Prop where
  profile : ∀ j, (m'.profileArray j).profile = (m.profileArray j).profile
  free : m'.freeIndexList = m.freeIndexList
  size : m'.size = m.size
  index : m'.profileIndex = m.profileIndex
  count : m'.numRecords = m.numRecords

theorem Rewired.trans {m'' : PeerProfileIndex} (h : Rewired m m') (h' : Rewired m' m'') :
    Rewired m m'' :=
  ⟨fun j => (h'.profile j).trans (h.profile j), h'.free.trans h.free, h'.size.trans h.size,
    h'.index.trans h.index, h'.count.trans h.count⟩

theorem Rewired.getRelativeQuality (h : Rewired m m') (j : Nat) :
    m'.getRelativeQuality j = m.getRelativeQuality j := by
  unfold PeerProfileIndex.getRelativeQuality
  rw [h.profile]

/-- The records are linked in another order. -/
theorem Threaded.rewired {l' : List Nat} (ht : Threaded m l) (h : Rewired m m') (hperm : l'.Perm l)
    (hlinks : Linked m'.next m'.prev none l' none) (hbase : ∃ b ∈ l', m'.baseIndex = some b) :
    Threaded m' l' := by
  refine ⟨hlinks, hperm.nodup_iff.mpr ht.nodup, fun i => ?_, fun _ => hbase, ?_, ?_, ?_,
    fun peerId i hf => ?_⟩
  · rw [hperm.mem_iff, ht.live]
    unfold Live
    rw [h.index]
  · rw [h.free, h.size]
    exact (List.Perm.append_left _ hperm).trans ht.partition
  · rw [h.count, ht.count, hperm.length_eq]
  · rw [h.size]
    exact ht.pos
  · rw [h.index] at hf
    rw [h.profile]
    exact ht.profile peerId i hf

theorem rewired_unlink (m : PeerProfileIndex) (i : Nat) : Rewired m (m.unlink i) := by
  refine ⟨fun j => ?_, ?_, ?_, ?_, ?_⟩
  · unfold unlink
    dsimp only
    rw [updateLink_array, updateLink_array]
    split <;> dsimp only <;> split <;> rfl
  · simp [unlink]
  · simp [unlink]
  · simp [unlink]
  · simp [unlink]

/-- The list without a record, which the base is not. -/
theorem Threaded.unlink {l₁ l₂ : List Nat} {i : Nat} (ht : Threaded m (l₁ ++ i :: l₂)) :
    Linked (m.unlink i).next (m.unlink i).prev none (l₁ ++ l₂) none ∧
      (l₁ ++ l₂ ≠ [] → ∃ b ∈ l₁ ++ l₂, (m.unlink i).baseIndex = some b) := by
  obtain ⟨hprev, hnext⟩ := ht.links.at
  have hnodup : (l₁ ++ l₂).Nodup := (List.nodup_cons.mp
    (List.perm_middle.nodup_iff.mp ht.nodup)).2
  refine ⟨ht.links.remove hnodup (fun x _ => ?_) fun x _ => ?_, fun hne => ?_⟩
  · rw [unlink_next, hprev, hnext]
  · rw [unlink_prev, hprev, hnext]
  · obtain ⟨b, hb, hbase⟩ := ht.base (by simp)
    rw [unlink_base, hprev, hnext, hbase]
    by_cases hbi : b = i
    · rw [if_pos (by rw [hbi])]
      cases hlast : l₁.getLast? with
      | some p =>
        rw [if_pos (Option.some_ne_none p)]
        exact ⟨p, List.mem_append_left _ (List.mem_of_getLast? hlast), rfl⟩
      | none =>
        rw [if_neg (fun h => h rfl)]
        rw [List.getLast?_eq_none_iff.mp hlast] at hne ⊢
        obtain ⟨n, hn⟩ := Option.ne_none_iff_exists'.mp (mt List.head?_eq_none_iff.mp hne)
        exact ⟨n, List.mem_of_head? hn, hn⟩
    · rw [if_neg (fun h => hbi (Option.some_inj.mp h))]
      refine ⟨b, ?_, rfl⟩
      rcases List.mem_append.mp hb with hb | hb
      · exact List.mem_append_left _ hb
      · exact List.mem_append_right _ (List.mem_of_ne_of_mem hbi hb)

/-- `erase` keeps the list, whichever record goes. -/
theorem Threaded.erase (ht : Threaded m l) (peerId : Nat) :
    ∃ l', Threaded (m.erase peerId).2 l' := by
  unfold PeerProfileIndex.erase
  by_cases hzero : m.numRecords = 0
  · rw [if_pos hzero]
    exact ⟨l, ht⟩
  rw [if_neg hzero]
  cases hf : m.profileIndex.find peerId with
  | none => exact ⟨l, ht⟩
  | some i =>
    obtain ⟨l₁, l₂, rfl⟩ := List.append_of_mem ((ht.live i).mpr ⟨peerId, hf⟩)
    have hperm : (l₁ ++ i :: l₂).Perm (i :: (l₁ ++ l₂)) := List.perm_middle
    obtain ⟨hi, hnodup⟩ := List.nodup_cons.mp (hperm.nodup_iff.mp ht.nodup)
    -- Two peers have different records.
    have hfind : ∀ other j, (m.profileIndex.erase peerId).find other = some j ↔
        m.profileIndex.find other = some j ∧ j ≠ i := by
      intro other j
      rw [UMap.find_erase]
      by_cases hother : other = peerId
      · subst hother
        rw [if_pos rfl, hf]
        constructor
        · intro h
          cases h
        · rintro ⟨h, hne⟩
          exact absurd (Option.some_inj.mp h).symm hne
      · rw [if_neg hother]
        refine ⟨fun h => ⟨h, ?_⟩, fun h => h.1⟩
        rintro rfl
        obtain ⟨profile, hprofile, hid⟩ := ht.profile peerId j hf
        obtain ⟨profile', hprofile', hid'⟩ := ht.profile other j h
        rw [hprofile, Option.some_inj] at hprofile'
        subst hprofile'
        exact hother (hid'.symm.trans hid)
    have hrewired := rewired_unlink { m with profileIndex := m.profileIndex.erase peerId } i
    obtain ⟨hlinks, hbase⟩ := ht.unlink
    refine ⟨l₁ ++ l₂, hlinks.congr (fun x _ => ?_) (fun x _ => ?_), hnodup, fun j => ?_,
      fun hne => ?_, ?_, ?_, ?_, fun other j hother => ?_⟩
    · show ({ m with profileIndex := m.profileIndex.erase peerId }.unlink i).next x = _
      rw [unlink_next, unlink_next]
      rfl
    · show ({ m with profileIndex := m.profileIndex.erase peerId }.unlink i).prev x = _
      rw [unlink_prev, unlink_prev]
      rfl
    · unfold Live
      dsimp only
      rw [hrewired.index]
      simp only [hfind]
      constructor
      · intro hj
        obtain ⟨other, hother⟩ := (ht.live j).mp (hperm.mem_iff.mpr (List.mem_cons_of_mem _ hj))
        refine ⟨other, hother, ?_⟩
        rintro rfl
        exact hi hj
      · rintro ⟨other, hother, hne⟩
        exact List.mem_of_ne_of_mem hne (hperm.mem_iff.mp ((ht.live j).mpr ⟨other, hother⟩))
    · obtain ⟨b, hb, hbaseb⟩ := hbase hne
      refine ⟨b, hb, ?_⟩
      rw [unlink_base] at hbaseb
      dsimp only
      rw [unlink_base]
      exact hbaseb
    · dsimp only
      rw [hrewired.free, hrewired.size]
      refine List.Perm.trans ?_ ht.partition
      rw [List.append_assoc]
      exact List.Perm.append_left _ hperm.symm
    · dsimp only
      rw [hrewired.count]
      dsimp only
      rw [ht.count, hperm.length_eq, List.length_cons, Nat.add_sub_cancel]
    · dsimp only
      rw [hrewired.size]
      exact ht.pos
    · dsimp only at hother ⊢
      rw [hrewired.index] at hother
      rw [hrewired.profile]
      exact ht.profile other j ((hfind other j).mp hother).1

end Alpine.PeerProfileIndex
