import Alpine.Protocol.ProfileLinks

/-!
# When the profiles are in order

`Ordered m l`: the links of the index run through the records in use, `l`, in rising quality; the
ends, the base and the free list are what they should be. Then the peers at the ends are the best
and the worst (`Kept.correct`). `create` puts the new record, of quality zero, right next to the
base on the side of zero. It keeps the order exactly if there is no record with the base's quality
there (`Kept.create_iff`).
-/

namespace Alpine.PeerProfileIndex

open Lib

/-! ## The order -/

structure Ordered (m : PeerProfileIndex) (l : List Nat) : Prop where
  links : Linked m.next m.prev none l none
  nodup : l.Nodup
  live : ∀ i, i ∈ l ↔ m.Live i
  sorted : l.Pairwise fun i j => m.quality i ≤ m.quality j
  lowest : m.lowestQualityIndex = l.head?
  highest : m.highestQualityIndex = l.getLast?
  /-- The base is the record closest to zero. -/
  base : l ≠ [] → ∃ b ∈ l, m.baseIndex = some b ∧
    ∀ i ∈ l, (m.quality b).natAbs ≤ (m.quality i).natAbs
  partition : (m.freeIndexList ++ l).Perm (List.range m.size)

/-- The records are in order, and the peers at the ends are the best and the worst. -/
structure Correct (m : PeerProfileIndex) : Prop where
  ordered : ∃ l, m.Ordered l
  highest : ∀ peerId i, m.profileIndex.find peerId = some i → ∃ best j,
    m.highestQuality = some (some best) ∧ m.profileIndex.find best = some j ∧
      m.quality i ≤ m.quality j
  lowest : ∀ peerId i, m.profileIndex.find peerId = some i → ∃ worst j,
    m.lowestQuality = some (some worst) ∧ m.profileIndex.find worst = some j ∧
      m.quality j ≤ m.quality i

/-- The order, and what else every call keeps. -/
structure Kept (m : PeerProfileIndex) (l : List Nat) : Prop where
  ordered : m.Ordered l
  count : m.numRecords = l.length
  pos : 0 < m.size
  profile : ∀ peerId i, m.profileIndex.find peerId = some i →
    ∃ profile, (m.profileArray i).profile = some profile ∧ profile.peerId = peerId

variable {m m' : PeerProfileIndex} {l : List Nat}

/-- The list without its order. -/
theorem Kept.threaded (hk : Kept m l) : Threaded m l where
  links := hk.ordered.links
  nodup := hk.ordered.nodup
  live := hk.ordered.live
  base hne := by
    obtain ⟨b, hb, hbase, -⟩ := hk.ordered.base hne
    exact ⟨b, hb, hbase⟩
  partition := hk.ordered.partition
  count := hk.count
  pos := hk.pos
  profile := hk.profile

theorem kept_new (reserve : Int) : Kept (new reserve) [] := by
  have ht := threaded_new reserve
  exact ⟨⟨ht.links, ht.nodup, ht.live, List.Pairwise.nil, rfl, rfl, fun h => absurd rfl h,
    ht.partition⟩, ht.count, ht.pos, ht.profile⟩

/-- The peer of the record at an end. -/
theorem Kept.peerAt (hk : Kept m l) {j : Nat} (hj : j ∈ l) {index : Option Nat}
    (hindex : index = some j) :
    ∃ best, m.peerAt index = some (some best) ∧ m.profileIndex.find best = some j := by
  obtain ⟨peerId, hf⟩ := (hk.ordered.live j).mp hj
  obtain ⟨profile, hp, rfl⟩ := hk.profile peerId j hf
  have hcount : m.numRecords ≠ 0 := by
    rw [hk.count]
    exact Nat.ne_of_gt (List.length_pos_of_mem hj)
  refine ⟨profile.peerId, ?_, hf⟩
  unfold PeerProfileIndex.peerAt
  rw [if_neg hcount, hindex]
  simp [hp]

theorem le_of_getLast? {q : Nat → Int} {l : List Nat} (hsorted : l.Pairwise fun i j => q i ≤ q j)
    {last : Nat} (hlast : l.getLast? = some last) : ∀ i ∈ l, q i ≤ q last := by
  obtain ⟨rest, rfl⟩ := List.getLast?_eq_some_iff.mp hlast
  intro i hi
  rcases List.mem_append.mp hi with hi | hi
  · exact (List.pairwise_append.mp hsorted).2.2 i hi last (by simp)
  · have hlast : i = last := List.mem_singleton.mp hi
    exact Int.le_of_eq (congrArg q hlast)

theorem le_of_head? {q : Nat → Int} {l : List Nat} (hsorted : l.Pairwise fun i j => q i ≤ q j)
    {first : Nat} (hfirst : l.head? = some first) : ∀ i ∈ l, q first ≤ q i := by
  obtain ⟨rest, rfl⟩ := List.head?_eq_some_iff.mp hfirst
  intro i hi
  rcases List.mem_cons.mp hi with rfl | hi
  · exact Int.le_refl _
  · exact List.rel_of_pairwise_cons hsorted hi

theorem Kept.correct (hk : Kept m l) : Correct m := by
  refine ⟨⟨l, hk.ordered⟩, fun peerId i hf => ?_, fun peerId i hf => ?_⟩
  · have hi := (hk.ordered.live i).mpr ⟨peerId, hf⟩
    obtain ⟨last, hlast⟩ := Option.ne_none_iff_exists'.mp
      (mt List.getLast?_eq_none_iff.mp (List.ne_nil_of_mem hi))
    obtain ⟨best, hbest, hfind⟩ := hk.peerAt (List.mem_of_getLast? hlast)
      (hk.ordered.highest.trans hlast)
    exact ⟨best, last, hbest, hfind, le_of_getLast? hk.ordered.sorted hlast i hi⟩
  · have hi := (hk.ordered.live i).mpr ⟨peerId, hf⟩
    obtain ⟨first, hfirst⟩ := Option.ne_none_iff_exists'.mp
      (mt List.head?_eq_none_iff.mp (List.ne_nil_of_mem hi))
    obtain ⟨worst, hworst, hfind⟩ := hk.peerAt (List.mem_of_head? hfirst)
      (hk.ordered.lowest.trans hfirst)
    exact ⟨worst, first, hworst, hfind, le_of_head? hk.ordered.sorted hfirst i hi⟩

/-! ## A record is added -/

/-- A record for `peerId` was linked in at `c`, between the records `l₁` and `l₂`. -/
structure Inserted (peerId c : Nat) (l₁ l₂ : List Nat) (m m' : PeerProfileIndex) : Prop where
  links : Linked m'.next m'.prev none (l₁ ++ c :: l₂) none
  profile : ∀ i, (m'.profileArray i).profile =
    if i = c then some (PeerProfile.new peerId) else (m.profileArray i).profile
  lowest : m'.lowestQualityIndex = (l₁ ++ c :: l₂).head?
  highest : m'.highestQualityIndex = (l₁ ++ c :: l₂).getLast?
  base : m'.baseIndex = some c
  free : m.freeIndexList = c :: m'.freeIndexList
  size : m'.size = m.size
  index : m'.profileIndex = m.profileIndex.emplace peerId c
  count : m'.numRecords = m.numRecords + 1

theorem Inserted.placed {peerId c : Nat} {l₁ l₂ : List Nat} (hi : Inserted peerId c l₁ l₂ m m') :
    Placed peerId c l₁ l₂ m m' :=
  ⟨hi.links, hi.profile, hi.base, hi.free, hi.size, hi.index, hi.count⟩

theorem Placed.inserted {peerId c : Nat} {l₁ l₂ : List Nat} (hp : Placed peerId c l₁ l₂ m m')
    (hlowest : m'.lowestQualityIndex = (l₁ ++ c :: l₂).head?)
    (hhighest : m'.highestQualityIndex = (l₁ ++ c :: l₂).getLast?) :
    Inserted peerId c l₁ l₂ m m' :=
  ⟨hp.links, hp.profile, hlowest, hhighest, hp.base, hp.free, hp.size, hp.index, hp.count⟩

/-- The order is kept when the records below have no positive quality and those above no negative
one. -/
theorem Kept.inserted {peerId c : Nat} {l₁ l₂ : List Nat} (hk : Kept m (l₁ ++ l₂))
    (hfind : m.profileIndex.find peerId = none) (hi : Inserted peerId c l₁ l₂ m m')
    (hbelow : ∀ x ∈ l₁, m.quality x ≤ 0) (habove : ∀ y ∈ l₂, 0 ≤ m.quality y) :
    Kept m' (l₁ ++ c :: l₂) := by
  have ht := hk.threaded.placed hfind hi.placed
  have hc : c ∉ l₁ ++ l₂ := hk.threaded.not_mem_free (by rw [hi.free]; exact List.mem_cons_self)
  have hquality : ∀ x ∈ l₁ ++ l₂, m'.quality x = m.quality x := by
    intro x hx
    rw [hi.placed.quality, if_neg]
    rintro rfl
    exact hc hx
  have hqualityc : m'.quality c = 0 := by rw [hi.placed.quality, if_pos rfl]
  refine ⟨⟨ht.links, ht.nodup, ht.live, ?_, hi.lowest, hi.highest, fun _ => ?_, ht.partition⟩,
    ht.count, ht.pos, ht.profile⟩
  · obtain ⟨hsorted₁, hsorted₂, hsorted⟩ := List.pairwise_append.mp hk.ordered.sorted
    refine List.pairwise_append.mpr ⟨?_, List.pairwise_cons.mpr ⟨?_, ?_⟩, ?_⟩
    · refine hsorted₁.imp_of_mem fun hx hy hle => ?_
      rw [hquality _ (List.mem_append_left _ hx), hquality _ (List.mem_append_left _ hy)]
      exact hle
    · intro y hy
      rw [hqualityc, hquality _ (List.mem_append_right _ hy)]
      exact habove y hy
    · refine hsorted₂.imp_of_mem fun hx hy hle => ?_
      rw [hquality _ (List.mem_append_right _ hx), hquality _ (List.mem_append_right _ hy)]
      exact hle
    · intro x hx y hy
      rw [hquality _ (List.mem_append_left _ hx)]
      rcases List.mem_cons.mp hy with rfl | hy
      · rw [hqualityc]
        exact hbelow x hx
      · rw [hquality _ (List.mem_append_right _ hy)]
        exact hsorted x hx y hy
  · refine ⟨c, by simp, hi.base, fun i _ => ?_⟩
    rw [hqualityc]
    exact Nat.zero_le _

/-- The order can only be kept if they do. -/
theorem Inserted.of_ordered {peerId c : Nat} {l₁ l₂ l' : List Nat}
    (hi : Inserted peerId c l₁ l₂ m m') (hc : c ∉ l₁ ++ l₂) (ho : m'.Ordered l') :
    (∀ x ∈ l₁, m.quality x ≤ 0) ∧ ∀ y ∈ l₂, 0 ≤ m.quality y := by
  have hl : l' = l₁ ++ c :: l₂ := ho.links.unique hi.links (ho.lowest.symm.trans hi.lowest)
  subst hl
  obtain ⟨-, hsorted₂, hsorted⟩ := List.pairwise_append.mp ho.sorted
  have hqualityc : m'.quality c = 0 := by rw [hi.placed.quality, if_pos rfl]
  constructor
  · intro x hx
    have hle := hsorted x hx c List.mem_cons_self
    rw [hqualityc, hi.placed.quality, if_neg] at hle
    · exact hle
    · rintro rfl
      exact hc (List.mem_append_left _ hx)
  · intro y hy
    have hle := List.rel_of_pairwise_cons hsorted₂ hy
    rw [hqualityc, hi.placed.quality, if_neg] at hle
    · exact hle
    · rintro rfl
      exact hc (List.mem_append_right _ hy)

theorem inserted_first {peerId c : Nat} {free : List Nat} (hfree : m.freeIndexList = c :: free) :
    Inserted peerId c [] [] m ((m.taken peerId c free).linkFirst c) :=
  (placed_first hfree).inserted rfl rfl

/-- The record linked in above the base. -/
theorem inserted_after {l₁ l₂ : List Nat} {b : Nat} (hk : Kept m (l₁ ++ b :: l₂)) {peerId c : Nat}
    {free : List Nat} (hfree : m.freeIndexList = c :: free) :
    Inserted peerId c (l₁ ++ [b]) l₂ m
      { (m.taken peerId c free).linkAfter c b with
        baseIndex := some c
        numRecords := ((m.taken peerId c free).linkAfter c b).numRecords + 1 } := by
  have hb : b ∉ l₂ := (List.nodup_cons.mp (List.nodup_append.mp hk.ordered.nodup).2.1).1
  obtain ⟨-, -, -, -, hlowest, hhighest⟩ := (m.taken peerId c free).linkAfter_fields c b
  refine (placed_after hk.threaded hfree).inserted ?_ ?_
  · show ((m.taken peerId c free).linkAfter c b).lowestQualityIndex = _
    rw [hlowest]
    refine hk.ordered.lowest.trans ?_
    simp
  · show ((m.taken peerId c free).linkAfter c b).highestQualityIndex = _
    rw [hhighest]
    show (if m.highestQualityIndex = some b then some c else m.highestQualityIndex) = _
    rw [hk.ordered.highest]
    cases hlast : l₂.getLast? with
    | none =>
      rw [List.getLast?_eq_none_iff.mp hlast]
      simp
    | some last =>
      have hne : last ≠ b := by
        rintro rfl
        exact hb (List.mem_of_getLast? hlast)
      simp [List.getLast?_append, List.getLast?_cons, hlast, hne]

/-- The record linked in below the base. -/
theorem inserted_before {l₁ l₂ : List Nat} {b : Nat} (hk : Kept m (l₁ ++ b :: l₂)) {peerId c : Nat}
    {free : List Nat} (hfree : m.freeIndexList = c :: free) :
    Inserted peerId c l₁ (b :: l₂) m
      { (m.taken peerId c free).linkBefore c b with
        baseIndex := some c
        numRecords := ((m.taken peerId c free).linkBefore c b).numRecords + 1 } := by
  have hb : b ∉ l₁ := fun h => (List.nodup_append.mp hk.ordered.nodup).2.2 b h b (by simp) rfl
  obtain ⟨-, -, -, -, hhighest, hlowest⟩ := (m.taken peerId c free).linkBefore_fields c b
  refine (placed_before hk.threaded hfree).inserted ?_ ?_
  · show ((m.taken peerId c free).linkBefore c b).lowestQualityIndex = _
    rw [hlowest]
    show (if m.lowestQualityIndex = some b then some c else m.lowestQualityIndex) = _
    rw [hk.ordered.lowest]
    cases l₁ with
    | nil => simp
    | cons first rest =>
      have hne : first ≠ b := by
        rintro rfl
        exact hb List.mem_cons_self
      simp [hne]
  · show ((m.taken peerId c free).linkBefore c b).highestQualityIndex = _
    rw [hhighest]
    refine hk.ordered.highest.trans ?_
    simp [List.getLast?_append, List.getLast?_cons]

/-- A full index is doubled. -/
theorem Kept.resize (hk : Kept m l) (hfull : m.numRecords ≥ m.size) :
    Kept (m.resize (m.size * 2)) l := by
  obtain ⟨ht, harray⟩ := hk.threaded.resize hfull
  refine ⟨⟨ht.links, ht.nodup, ht.live, ?_, hk.ordered.lowest, hk.ordered.highest, fun hne => ?_,
    ht.partition⟩, ht.count, ht.pos, ht.profile⟩
  · refine hk.ordered.sorted.imp_of_mem fun hx hy hle => ?_
    unfold quality getRelativeQuality at hle ⊢
    rw [harray _ hx, harray _ hy]
    exact hle
  · obtain ⟨b, hb, hbase, hclose⟩ := hk.ordered.base hne
    refine ⟨b, hb, hbase, fun i hi => ?_⟩
    have := hclose i hi
    unfold quality getRelativeQuality at this ⊢
    rw [harray b hb, harray i hi]
    exact this

/-- Where `create` puts the record: between `l₁` and `l₂`, next to the base. -/
theorem Kept.create (hk : Kept m l) {peerId : Nat} (hfind : m.profileIndex.find peerId = none) :
    ∃ m₀ m' c l₁ l₂, m.create peerId = some (true, m') ∧ l = l₁ ++ l₂ ∧ Kept m₀ (l₁ ++ l₂) ∧
      m₀.profileIndex = m.profileIndex ∧ (∀ i ∈ l, m₀.quality i = m.quality i) ∧
      Inserted peerId c l₁ l₂ m₀ m' ∧
      (l = [] ∨ ∃ b, m.baseIndex = some b ∧
        ((m.quality b < 0 ∧ l₁.getLast? = some b ∧ m.next b = l₂.head?) ∨
          (0 ≤ m.quality b ∧ l₂.head? = some b ∧ m.prev b = l₁.getLast?))) := by
  obtain ⟨m₀, c, free, hm₀, -, hfree, hindex, hquality, hcase⟩ := hk.threaded.create_cases hfind
  have hk₀ : Kept m₀ l := by
    rw [hm₀]
    split
    · next hfull => exact hk.resize hfull
    · exact hk
  rcases hcase with ⟨rfl, hcreate⟩ | ⟨b, l₁, l₂, rfl, hbase, ⟨hneg, hcreate⟩ | ⟨hpos, hcreate⟩⟩
  · exact ⟨m₀, _, c, [], [], hcreate, rfl, hk₀, hindex, hquality, inserted_first hfree, .inl rfl⟩
  · obtain ⟨-, hnextb⟩ := hk.ordered.links.at
    refine ⟨m₀, _, c, l₁ ++ [b], l₂, hcreate, List.append_cons .., ?_, hindex, hquality,
      inserted_after hk₀ hfree, .inr ⟨b, hbase, .inl ⟨hneg, by simp, hnextb⟩⟩⟩
    rw [← List.append_cons]
    exact hk₀
  · obtain ⟨hprevb, -⟩ := hk.ordered.links.at
    exact ⟨m₀, _, c, l₁, b :: l₂, hcreate, rfl, hk₀, hindex, hquality, inserted_before hk₀ hfree,
      .inr ⟨b, hbase, .inr ⟨hpos, rfl, hprevb⟩⟩⟩

/-- `create` may put the record next to the base: there is none with the base's quality there. -/
def CreateOk (m : PeerProfileIndex) : Prop :=
  m.numRecords ≠ 0 → ∀ b, m.baseIndex = some b →
    (m.quality b < 0 → ∀ n, m.next b = some n → 0 ≤ m.quality n) ∧
      (0 ≤ m.quality b → ∀ p, m.prev b = some p → m.quality p ≤ 0)

theorem Kept.create_iff (hk : Kept m l) {peerId : Nat}
    (hfind : m.profileIndex.find peerId = none) :
    ∃ m', m.create peerId = some (true, m') ∧ (m.CreateOk → ∃ l', Kept m' l') ∧
      (Correct m' → m.CreateOk) := by
  obtain ⟨m₀, m', c, l₁, l₂, hcreate, rfl, hk₀, hindex, hquality, hi, hplace⟩ := hk.create hfind
  obtain ⟨hsorted₁, hsorted₂, -⟩ := List.pairwise_append.mp hk.ordered.sorted
  refine ⟨m', hcreate, fun hok => ⟨l₁ ++ c :: l₂, ?_⟩, fun hcorrect hne b hb => ?_⟩
  · have hsides : (∀ x ∈ l₁, m.quality x ≤ 0) ∧ ∀ y ∈ l₂, 0 ≤ m.quality y := by
      rcases hplace with hnil | ⟨b, hbase, hside⟩
      · obtain ⟨rfl, rfl⟩ := List.append_eq_nil_iff.mp hnil
        exact ⟨by simp, by simp⟩
      have hcount : m.numRecords ≠ 0 := by
        rw [hk.count]
        rcases hside with ⟨-, h, -⟩ | ⟨-, h, -⟩
        · exact Nat.ne_of_gt (List.length_pos_of_mem
            (List.mem_append_left _ (List.mem_of_getLast? h)))
        · exact Nat.ne_of_gt (List.length_pos_of_mem
            (List.mem_append_right _ (List.mem_of_head? h)))
      obtain ⟨hnextOk, hprevOk⟩ := hok hcount b hbase
      rcases hside with ⟨hneg, hlast, hnext⟩ | ⟨hpos, hfirst, hprev⟩
      · refine ⟨fun x hx => ?_, fun y hy => ?_⟩
        · have := le_of_getLast? hsorted₁ hlast x hx
          omega
        · obtain ⟨n, hn⟩ := Option.ne_none_iff_exists'.mp
            (mt List.head?_eq_none_iff.mp (List.ne_nil_of_mem hy))
          have := le_of_head? hsorted₂ hn y hy
          have := hnextOk hneg n (hnext.trans hn)
          omega
      · refine ⟨fun x hx => ?_, fun y hy => ?_⟩
        · obtain ⟨p, hp⟩ := Option.ne_none_iff_exists'.mp
            (mt List.getLast?_eq_none_iff.mp (List.ne_nil_of_mem hx))
          have := le_of_getLast? hsorted₁ hp x hx
          have := hprevOk hpos p (hprev.trans hp)
          omega
        · have := le_of_head? hsorted₂ hfirst y hy
          omega
    refine hk₀.inserted (hindex ▸ hfind) hi (fun x hx => ?_) fun y hy => ?_
    · rw [hquality x (List.mem_append_left _ hx)]
      exact hsides.1 x hx
    · rw [hquality y (List.mem_append_right _ hy)]
      exact hsides.2 y hy
  · obtain ⟨l', ho⟩ := hcorrect.ordered
    obtain ⟨hbelow, habove⟩ := hi.of_ordered
      (hk₀.threaded.not_mem_free (by rw [hi.free]; exact List.mem_cons_self)) ho
    rcases hplace with hnil | ⟨b', hbase, hside⟩
    · exact absurd (hk.count.trans (by rw [hnil]; rfl)) hne
    rw [hbase] at hb
    cases hb
    rcases hside with ⟨hneg, hlast, hnext⟩ | ⟨hpos, hfirst, hprev⟩
    · refine ⟨fun _ n hn => ?_, fun hpos => by omega⟩
      have hmem : n ∈ l₂ := List.mem_of_head? (hnext.symm.trans hn)
      rw [← hquality n (List.mem_append_right _ hmem)]
      exact habove n hmem
    · refine ⟨fun hneg => by omega, fun _ p hp => ?_⟩
      have hmem : p ∈ l₁ := List.mem_of_getLast? (hprev.symm.trans hp)
      rw [← hquality p (List.mem_append_left _ hmem)]
      exact hbelow p hmem

end Alpine.PeerProfileIndex
