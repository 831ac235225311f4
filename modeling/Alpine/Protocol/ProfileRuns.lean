import Alpine.Protocol.ProfileOrder

/-!
# How the order of the profiles is lost

`unlink` sets both ends to `linkEnd` first and compares them with the record's index afterwards, so
they are lost whenever a record that is not the only one is erased or has to move. A record that
changes its quality without moving may leave the base to one that is closer to zero. With what
`create` needs, this is all: along a run the order is kept exactly if no step does any of it
(`along_correct_iff`).
-/

namespace Alpine.PeerProfileIndex

open Lib

variable {m m' : PeerProfileIndex} {l : List Nat}

/-! ## A record is erased -/

/-- No other record is in use. -/
def EraseOk (m : PeerProfileIndex) (peerId : Nat) : Prop :=
  ∀ i, m.profileIndex.find peerId = some i →
    ∀ other j, m.profileIndex.find other = some j → other = peerId

/-- An index with records has ends. -/
theorem Correct.ends (hcorrect : Correct m) (peerId : Nat) {i : Nat}
    (hf : m.profileIndex.find peerId = some i) :
    m.highestQualityIndex ≠ none ∧ m.lowestQualityIndex ≠ none := by
  obtain ⟨l, ho⟩ := hcorrect.ordered
  have hne : l ≠ [] := List.ne_nil_of_mem ((ho.live i).mpr ⟨peerId, hf⟩)
  rw [ho.highest, ho.lowest]
  exact ⟨mt List.getLast?_eq_none_iff.mp hne, mt List.head?_eq_none_iff.mp hne⟩

theorem unlink_fields (m : PeerProfileIndex) (i : Nat) :
    (m.unlink i).highestQualityIndex = none ∧ (m.unlink i).lowestQualityIndex = none ∧
      (m.unlink i).profileIndex = m.profileIndex := by
  simp [unlink]

theorem Kept.erase_iff (hk : Kept m l) (peerId : Nat) :
    (m.EraseOk peerId → ∃ l', Kept (m.erase peerId).2 l') ∧
      (Correct (m.erase peerId).2 → m.EraseOk peerId) := by
  unfold PeerProfileIndex.erase
  by_cases hzero : m.numRecords = 0
  · rw [if_pos hzero]
    have hnil : l = [] := List.length_eq_zero_iff.mp (hk.count.symm.trans hzero)
    refine ⟨fun _ => ⟨l, hk⟩, fun _ i hf => ?_⟩
    have hmem := (hk.ordered.live i).mpr ⟨peerId, hf⟩
    rw [hnil] at hmem
    cases hmem
  rw [if_neg hzero]
  cases hf : m.profileIndex.find peerId with
  | none => exact ⟨fun _ => ⟨l, hk⟩, fun _ i hf' => by rw [hf] at hf'; cases hf'⟩
  | some i =>
    have hi := (hk.ordered.live i).mpr ⟨peerId, hf⟩
    refine ⟨fun hok => ⟨[], ?_⟩, fun hcorrect j hj other k hk' => ?_⟩
    · -- The record is alone, so there is nothing to relink.
      have hall : ∀ j ∈ l, j = i := by
        intro j hj
        obtain ⟨other, hother⟩ := (hk.ordered.live j).mp hj
        rw [hok i hf other j hother, hf] at hother
        exact (Option.some.inj hother).symm
      have hl : l = [i] := by
        cases l with
        | nil => cases hi
        | cons first rest =>
          obtain rfl := hall first List.mem_cons_self
          cases rest with
          | nil => rfl
          | cons second rest =>
            obtain rfl := hall second (by simp)
            exact absurd List.mem_cons_self (List.nodup_cons.mp hk.ordered.nodup).1
      subst hl
      have hnone : ∀ other j, (m.profileIndex.erase peerId).find other ≠ some j := by
        intro other j
        rw [UMap.find_erase]
        split
        · simp
        · next hne => exact fun h => hne (hok i hf other j h)
      obtain ⟨hhighest, hlowest, hindex⟩ :=
        { m with profileIndex := m.profileIndex.erase peerId }.unlink_fields i
      refine ⟨⟨trivial, List.nodup_nil, fun j => ⟨by simp, ?_⟩, List.Pairwise.nil, hlowest,
        hhighest, fun h => absurd rfl h, ?_⟩, ?_, ?_, fun other j h => ?_⟩
      · rintro ⟨other, h⟩
        dsimp only at h
        rw [hindex] at h
        exact absurd h (hnone other j)
      · simp only [unlink, updateLink_freeIndexList, updateLink_size, List.append_nil]
        exact hk.ordered.partition
      · simp only [unlink, updateLink_numRecords, List.length_nil]
        have hcount : m.numRecords = 1 := hk.count
        omega
      · simp only [unlink, updateLink_size]
        exact hk.pos
      · dsimp only at h
        rw [hindex] at h
        exact absurd h (hnone other j)
    · by_contra hne
      obtain ⟨hhighest, -, hindex⟩ :=
        { m with profileIndex := m.profileIndex.erase peerId }.unlink_fields i
      refine (hcorrect.ends other (i := k) ?_).1 hhighest
      dsimp only
      rw [hindex, UMap.find_erase, if_neg hne]
      exact hk'

/-! ## A record changes its quality -/

/-- The record at `i` stays between its neighbours with the quality `value`. -/
def Stays (m : PeerProfileIndex) (i : Nat) (value : Int) : Prop :=
  (∀ p, m.prev i = some p → m.quality p ≤ value) ∧ ∀ n, m.next i = some n → value ≤ m.quality n

/-- It stays, and the base remains closest to zero. -/
def ModifyOk (m : PeerProfileIndex) (i : Nat) (value : Int) : Prop :=
  m.Stays i value ∧ ∀ b, m.baseIndex = some b →
    if i = b then ∀ j, m.Live j → j ≠ b → value.natAbs ≤ (m.quality j).natAbs
    else (m.quality b).natAbs ≤ value.natAbs

/-! Whatever a relocation does, one of the ends is lost. -/

theorem rebase_fields {c nb : Nat} {value : Int} (h : m.rebase c value nb = some m') :
    m'.highestQualityIndex = m.highestQualityIndex ∧
      m'.lowestQualityIndex = m.lowestQualityIndex ∧ m'.profileIndex = m.profileIndex := by
  simp only [rebase, Option.bind_eq_bind, Option.bind_eq_some_iff] at h
  obtain ⟨_, -, h⟩ := h
  split at h
  · cases h
    exact ⟨rfl, rfl, rfl⟩
  · cases h
    exact ⟨rfl, rfl, rfl⟩

theorem placeHighest_fields {c n : Nat} {value : Int} {insertIndex : Option Nat}
    (h : m.placeHighest c value n insertIndex = some m') :
    m'.lowestQualityIndex = m.lowestQualityIndex ∧ m'.profileIndex = m.profileIndex := by
  unfold placeHighest at h
  dsimp only at h
  split at h
  · exact (rebase_fields h).2
  · cases h
    exact ⟨rfl, rfl⟩

theorem placeLowest_fields {c p : Nat} {value : Int} {insertIndex : Option Nat}
    (h : m.placeLowest c value p insertIndex = some m') :
    m'.highestQualityIndex = m.highestQualityIndex ∧ m'.profileIndex = m.profileIndex := by
  unfold placeLowest at h
  dsimp only at h
  split at h
  · exact ⟨(rebase_fields h).1, (rebase_fields h).2.2⟩
  · cases h
    exact ⟨rfl, rfl⟩

theorem placeBetween_fields {c p n first second : Nat} {value : Int}
    (h : m.placeBetween c value p n first second = some m') :
    m'.highestQualityIndex = m.highestQualityIndex ∧
      m'.lowestQualityIndex = m.lowestQualityIndex ∧ m'.profileIndex = m.profileIndex := by
  unfold placeBetween at h
  dsimp only at h
  split at h
  · obtain ⟨h1, h2, h3⟩ := rebase_fields h
    exact ⟨h1, h2, h3⟩
  split at h
  · obtain ⟨h1, h2, h3⟩ := rebase_fields h
    exact ⟨h1, h2, h3⟩
  · cases h
    exact ⟨rfl, rfl, rfl⟩

theorem moveHigher_fields {c n : Nat} {value : Int} (h : m.moveHigher c value n = some m') :
    m'.lowestQualityIndex = m.lowestQualityIndex ∧ m'.profileIndex = m.profileIndex := by
  unfold moveHigher at h
  split at h
  · exact placeHighest_fields h
  simp only [Option.bind_eq_bind, Option.bind_eq_some_iff] at h
  obtain ⟨⟨insertIndex, nextIndex⟩, -, h⟩ := h
  dsimp only at h
  split at h
  · exact placeHighest_fields h
  · rw [Option.bind_eq_some_iff] at h
    obtain ⟨_, -, h⟩ := h
    exact (placeBetween_fields h).2

theorem moveLower_fields {c p : Nat} {value : Int} (h : m.moveLower c value p = some m') :
    m'.highestQualityIndex = m.highestQualityIndex ∧ m'.profileIndex = m.profileIndex := by
  unfold moveLower at h
  split at h
  · exact placeLowest_fields h
  simp only [Option.bind_eq_bind, Option.bind_eq_some_iff] at h
  obtain ⟨⟨insertIndex, prevIndex⟩, -, h⟩ := h
  dsimp only at h
  split at h
  · exact placeLowest_fields h
  · rw [Option.bind_eq_some_iff] at h
    obtain ⟨_, -, h⟩ := h
    exact ⟨(placeBetween_fields h).1, (placeBetween_fields h).2.2⟩

/-- The record stays where it is, or one of the ends is lost. -/
theorem relocate_cases {i : Nat} {value nextQuality prevQuality : Int}
    (hnext : m.qualityAt value (m.next i) = some nextQuality)
    (hprev : m.qualityAt value (m.prev i) = some prevQuality) :
    (value ≤ nextQuality ∧ prevQuality ≤ value → m.relocate i value = some m) ∧
      (¬ (value ≤ nextQuality ∧ prevQuality ≤ value) → ∀ m', m.relocate i value = some m' →
        (m'.highestQualityIndex = none ∨ m'.lowestQualityIndex = none) ∧
          m'.profileIndex = m.profileIndex) := by
  unfold relocate
  unfold next at hnext
  unfold prev at hprev
  simp only [hnext, hprev, Option.bind_eq_bind, Option.bind_some]
  refine ⟨fun hstay => if_pos hstay, fun hstay m' h => ?_⟩
  obtain ⟨hhighest, hlowest, hindex⟩ := m.unlink_fields i
  rw [if_neg hstay] at h
  split at h
  · rw [Option.bind_eq_some_iff] at h
    obtain ⟨_, -, h⟩ := h
    obtain ⟨hkeep, hindex'⟩ := moveHigher_fields h
    exact ⟨.inr (hkeep.trans hlowest), hindex'.trans hindex⟩
  · rw [Option.bind_eq_some_iff] at h
    obtain ⟨_, -, h⟩ := h
    obtain ⟨hkeep, hindex'⟩ := moveLower_fields h
    exact ⟨.inl (hkeep.trans hhighest), hindex'.trans hindex⟩

/-- The profile of the record at `i` was changed, and its quality is now `value`. -/
structure Modified (i : Nat) (value : Int) (m m' : PeerProfileIndex) : Prop where
  next : m'.next = m.next
  prev : m'.prev = m.prev
  profile : ∃ old new, (m.profileArray i).profile = some old ∧
    (m'.profileArray i).profile = some new ∧ new.peerId = old.peerId ∧ new.quality = value
  other : ∀ j, j ≠ i → m'.profileArray j = m.profileArray j
  lowest : m'.lowestQualityIndex = m.lowestQualityIndex
  highest : m'.highestQualityIndex = m.highestQualityIndex
  base : m'.baseIndex = m.baseIndex
  free : m'.freeIndexList = m.freeIndexList
  size : m'.size = m.size
  index : m'.profileIndex = m.profileIndex
  count : m'.numRecords = m.numRecords

section Modify

variable {i : Nat} {value : Int}

theorem Modified.quality_self (hm : Modified i value m m') : m'.quality i = value := by
  obtain ⟨-, new, -, hnew, -, rfl⟩ := hm.profile
  simp [quality, getRelativeQuality, hnew]

theorem Modified.quality_other (hm : Modified i value m m') {j : Nat} (hj : j ≠ i) :
    m'.quality j = m.quality j := by
  unfold quality getRelativeQuality
  rw [hm.other j hj]

theorem Kept.modified {l₁ l₂ : List Nat} (hk : Kept m (l₁ ++ i :: l₂)) (hm : Modified i value m m')
    (hok : m.ModifyOk i value) : Kept m' (l₁ ++ i :: l₂) := by
  obtain ⟨⟨hbelow, habove⟩, hbase⟩ := hok
  obtain ⟨hprevi, hnexti⟩ := hk.ordered.links.at
  obtain ⟨-, hnodup, hdisj⟩ := List.nodup_append.mp hk.ordered.nodup
  obtain ⟨hi₂, -⟩ := List.nodup_cons.mp hnodup
  obtain ⟨hsorted₁, hsorted, hsorted₁₂⟩ := List.pairwise_append.mp hk.ordered.sorted
  obtain ⟨-, hsorted₂⟩ := List.pairwise_cons.mp hsorted
  have hq₁ : ∀ x ∈ l₁, m'.quality x = m.quality x := by
    intro x hx
    refine hm.quality_other ?_
    rintro rfl
    exact hdisj x hx x (by simp) rfl
  have hq₂ : ∀ y ∈ l₂, m'.quality y = m.quality y := by
    intro y hy
    refine hm.quality_other ?_
    rintro rfl
    exact hi₂ hy
  refine ⟨⟨?_, hk.ordered.nodup, fun j => ?_, ?_, ?_, ?_, fun hne => ?_, ?_⟩, ?_, ?_,
    fun peerId j hf => ?_⟩
  · rw [hm.next, hm.prev]
    exact hk.ordered.links
  · rw [hk.ordered.live]
    unfold Live
    rw [hm.index]
  · refine List.pairwise_append.mpr ⟨?_, List.pairwise_cons.mpr ⟨?_, ?_⟩, ?_⟩
    · refine hsorted₁.imp_of_mem fun hx hy hle => ?_
      rw [hq₁ _ hx, hq₁ _ hy]
      exact hle
    · intro y hy
      rw [hm.quality_self, hq₂ y hy]
      obtain ⟨n, hn⟩ := Option.ne_none_iff_exists'.mp
        (mt List.head?_eq_none_iff.mp (List.ne_nil_of_mem hy))
      exact Int.le_trans (habove n (hnexti.trans hn)) (le_of_head? hsorted₂ hn y hy)
    · refine hsorted₂.imp_of_mem fun hx hy hle => ?_
      rw [hq₂ _ hx, hq₂ _ hy]
      exact hle
    · intro x hx y hy
      rw [hq₁ x hx]
      rcases List.mem_cons.mp hy with rfl | hy
      · rw [hm.quality_self]
        obtain ⟨p, hp⟩ := Option.ne_none_iff_exists'.mp
          (mt List.getLast?_eq_none_iff.mp (List.ne_nil_of_mem hx))
        exact Int.le_trans (le_of_getLast? hsorted₁ hp x hx) (hbelow p (hprevi.trans hp))
      · rw [hq₂ y hy]
        exact hsorted₁₂ x hx y (List.mem_cons_of_mem _ hy)
  · rw [hm.lowest]
    exact hk.ordered.lowest
  · rw [hm.highest]
    exact hk.ordered.highest
  · obtain ⟨b, hb, hbaseb, hclose⟩ := hk.ordered.base hne
    refine ⟨b, hb, hm.base.trans hbaseb, fun j hj => ?_⟩
    have hokb := hbase b hbaseb
    by_cases hib : i = b
    · subst hib
      rw [if_pos rfl] at hokb
      rw [hm.quality_self]
      by_cases hji : j = i
      · subst hji
        rw [hm.quality_self]
      · rw [hm.quality_other hji]
        exact hokb j ((hk.ordered.live j).mp hj) hji
    · rw [if_neg hib] at hokb
      rw [hm.quality_other fun h => hib h.symm]
      by_cases hji : j = i
      · subst hji
        rw [hm.quality_self]
        exact hokb
      · rw [hm.quality_other hji]
        exact hclose j hj
  · rw [hm.free, hm.size]
    exact hk.ordered.partition
  · rw [hm.count]
    exact hk.count
  · rw [hm.size]
    exact hk.pos
  · rw [hm.index] at hf
    obtain ⟨profile, hprofile, rfl⟩ := hk.profile peerId j hf
    by_cases hji : j = i
    · subst hji
      obtain ⟨old, new, hold, hnew, hid, -⟩ := hm.profile
      rw [hprofile] at hold
      cases hold
      exact ⟨new, hnew, hid⟩
    · rw [hm.other j hji]
      exact ⟨profile, hprofile, rfl⟩

/-- If the order is kept by a change in place, the base remains closest to zero. -/
theorem Modified.base_ok (hk : Kept m l) (hi : i ∈ l) (hm : Modified i value m m')
    (hcorrect : Correct m') : ∀ b, m.baseIndex = some b →
      if i = b then ∀ j, m.Live j → j ≠ b → value.natAbs ≤ (m.quality j).natAbs
      else (m.quality b).natAbs ≤ value.natAbs := by
  intro b hb
  obtain ⟨l', ho⟩ := hcorrect.ordered
  have hlive : ∀ j, j ∈ l' ↔ m.Live j := by
    intro j
    rw [ho.live]
    unfold Live
    rw [hm.index]
  have hi' : i ∈ l' := (hlive i).mpr ((hk.ordered.live i).mp hi)
  obtain ⟨b', -, hbase', hclose⟩ := ho.base (List.ne_nil_of_mem hi')
  rw [hm.base, hb] at hbase'
  cases hbase'
  split
  · next hib =>
    subst hib
    intro j hj hji
    have := hclose j ((hlive j).mpr hj)
    rwa [hm.quality_self, hm.quality_other hji] at this
  · next hib =>
    have := hclose i hi'
    rwa [hm.quality_self, hm.quality_other fun h => hib h.symm] at this

/-- Relocation leaves the record where it is exactly if it stays between its neighbours. -/
theorem Modified.relocate {l₁ l₂ : List Nat} (hk : Kept m (l₁ ++ i :: l₂))
    (hm : Modified i value m m') :
    (m.Stays i value → m'.relocate i value = some m') ∧
      (¬ m.Stays i value → ∀ m'', m'.relocate i value = some m'' →
        (m''.highestQualityIndex = none ∨ m''.lowestQualityIndex = none) ∧
          m''.profileIndex = m.profileIndex) := by
  obtain ⟨hprevi, hnexti⟩ := hk.ordered.links.at
  have hread : ∀ j ∈ l₁ ++ i :: l₂, j ≠ i → m'.getRelativeQuality j = some (m.quality j) := by
    intro j hj hji
    obtain ⟨peerId, hf⟩ := (hk.ordered.live j).mp hj
    obtain ⟨profile, hprofile, -⟩ := hk.profile peerId j hf
    simp [quality, getRelativeQuality, hm.other j hji, hprofile]
  obtain ⟨-, hnodup, hdisj⟩ := List.nodup_append.mp hk.ordered.nodup
  obtain ⟨hi₂, -⟩ := List.nodup_cons.mp hnodup
  obtain ⟨nextQuality, hnext, hnextiff⟩ : ∃ nextQuality,
      m'.qualityAt value (m'.next i) = some nextQuality ∧
        (value ≤ nextQuality ↔ ∀ n, m.next i = some n → value ≤ m.quality n) := by
    rw [hm.next]
    cases hn : m.next i with
    | none => exact ⟨value, rfl, by simp⟩
    | some n =>
      have hmem : n ∈ l₂ := List.mem_of_head? (hnexti.symm.trans hn)
      have hne : n ≠ i := by
        rintro rfl
        exact hi₂ hmem
      exact ⟨m.quality n, hread n (by simp [hmem]) hne, by simp⟩
  obtain ⟨prevQuality, hprev, hpreviff⟩ : ∃ prevQuality,
      m'.qualityAt value (m'.prev i) = some prevQuality ∧
        (prevQuality ≤ value ↔ ∀ p, m.prev i = some p → m.quality p ≤ value) := by
    rw [hm.prev]
    cases hp : m.prev i with
    | none => exact ⟨value, rfl, by simp⟩
    | some p =>
      have hmem : p ∈ l₁ := List.mem_of_getLast? (hprevi.symm.trans hp)
      have hne : p ≠ i := by
        rintro rfl
        exact hdisj p hmem p (by simp) rfl
      exact ⟨m.quality p, hread p (by simp [hmem]) hne, by simp⟩
  have hstays : m.Stays i value ↔ value ≤ nextQuality ∧ prevQuality ≤ value := by
    unfold Stays
    rw [hnextiff, hpreviff]
    exact And.comm
  obtain ⟨hstay, hmove⟩ := relocate_cases hnext hprev
  rw [hstays, ← hm.index]
  exact ⟨hstay, hmove⟩

end Modify

theorem Kept.modify_iff (hk : Kept m l) {peerId i : Nat}
    (hf : m.profileIndex.find peerId = some i) {f : PeerProfile → PeerProfile}
    (hkeep : ∀ profile, (f profile).peerId = profile.peerId ∧
      (f profile).quality = profile.quality) (delta : Int) :
    (m.ModifyOk i (toShort (m.quality i + delta)) →
      ∃ m', m.modify peerId f delta = some (true, m') ∧ ∃ l', Kept m' l') ∧
    (∀ status m', m.modify peerId f delta = some (status, m') → Correct m' →
      m.ModifyOk i (toShort (m.quality i + delta))) := by
  have hi := (hk.ordered.live i).mpr ⟨peerId, hf⟩
  obtain ⟨profile, hprofile, hid⟩ := hk.profile peerId i hf
  have hquality : m.quality i = profile.quality := by
    simp [quality, getRelativeQuality, hprofile]
  have hm : Modified i (toShort (m.quality i + delta)) m (m.update i fun r =>
      { r with profile := some ((f profile).modifyRelativeQuality delta) }) := by
    refine ⟨?_, ?_, ⟨profile, (f profile).modifyRelativeQuality delta, hprofile, ?_, (hkeep _).1, ?_⟩,
      fun j hj => ?_, rfl, rfl, rfl, rfl, rfl, rfl, rfl⟩
    · funext j
      unfold next
      rw [update_array]
      split <;> rfl
    · funext j
      unfold prev
      rw [update_array]
      split <;> rfl
    · rw [update_array, if_pos rfl]
    · show toShort ((f profile).quality + delta) = _
      rw [(hkeep _).2, hquality]
    · rw [update_array, if_neg hj]
  have hvalue : ((f profile).modifyRelativeQuality delta).quality =
      toShort (m.quality i + delta) := by
    show toShort ((f profile).quality + delta) = _
    rw [(hkeep _).2, hquality]
  unfold PeerProfileIndex.modify
  rw [hf]
  simp only [hprofile, Option.bind_eq_bind, Option.bind_some, hvalue]
  obtain ⟨l₁, l₂, rfl⟩ := List.append_of_mem hi
  obtain ⟨hstay, hmove⟩ := hm.relocate hk
  refine ⟨fun hok => ?_, fun status m' h hcorrect => ?_⟩
  · rw [hstay hok.1]
    exact ⟨_, rfl, _, hk.modified hm hok⟩
  · rw [Option.bind_eq_some_iff] at h
    obtain ⟨m'', h, heq⟩ := h
    cases heq
    by_cases hs : m.Stays i (toShort (m.quality i + delta))
    · rw [hstay hs] at h
      cases h
      exact ⟨hs, hm.base_ok hk hi hcorrect⟩
    · obtain ⟨hlost, hindex⟩ := hmove hs m' h
      obtain ⟨hhighest, hlowest⟩ := hcorrect.ends peerId (by rw [hindex]; exact hf)
      rcases hlost with hlost | hlost
      · exact absurd hlost hhighest
      · exact absurd hlost hlowest

/-! ## Runs -/

/-- The record of a change of quality stays in its place, and the base closest to zero. -/
def ChangeOk (m : PeerProfileIndex) (peerId : Nat) (delta : Int) : Prop :=
  ∀ i, m.profileIndex.find peerId = some i → m.ModifyOk i (toShort (m.quality i + delta))

def StepOk (_h : List Bool) : Option PeerProfileIndex → Input → Prop
  | none, _ => False
  | some m, .create peerId => m.profileIndex.find peerId = none → m.CreateOk
  | some m, .erase peerId => m.EraseOk peerId
  | some m, .adjustQuality peerId delta => m.ChangeOk peerId delta
  | some m, .responseReceived peerId => m.ChangeOk peerId 1
  | some m, .badPacketReceived peerId => m.ChangeOk peerId (-3)
  | some m, .reliableTransferFailed peerId => m.ChangeOk peerId (-2)

/-- The call has a result, and the index is correct after it. -/
def StepCorrect (_h : List Bool) (s : Option PeerProfileIndex) (input : Input) : Prop :=
  ∃ m, (machine.step s input).1 = some m ∧ Correct m

/-- `ok` is what a call with this result needs to keep the order. -/
def Decides (ok : Prop) (result : Option (Bool × PeerProfileIndex)) : Prop :=
  (ok → ∃ status m' l', result = some (status, m') ∧ Kept m' l') ∧
    ∀ status m', result = some (status, m') → Correct m' → ok

theorem Kept.create_decides (hk : Kept m l) (peerId : Nat) :
    Decides (m.profileIndex.find peerId = none → m.CreateOk) (m.create peerId) := by
  cases hf : m.profileIndex.find peerId with
  | some i =>
    have hsame : m.create peerId = some (false, m) := by
      unfold PeerProfileIndex.create
      rw [hf]
      rfl
    exact ⟨fun _ => ⟨false, m, l, hsame, hk⟩, fun _ _ _ _ h => by cases h⟩
  | none =>
    obtain ⟨m', hcreate, hkept, hok⟩ := hk.create_iff hf
    refine ⟨fun h => ?_, fun status m'' h hcorrect _ => ?_⟩
    · obtain ⟨l', hk'⟩ := hkept (h rfl)
      exact ⟨true, m', l', hcreate, hk'⟩
    · rw [hcreate] at h
      cases h
      exact hok hcorrect

theorem Kept.modify_decides (hk : Kept m l) (peerId : Nat) {f : PeerProfile → PeerProfile}
    (hkeep : ∀ profile, (f profile).peerId = profile.peerId ∧
      (f profile).quality = profile.quality) (delta : Int) :
    Decides (m.ChangeOk peerId delta) (m.modify peerId f delta) := by
  cases hf : m.profileIndex.find peerId with
  | none =>
    have hsame : m.modify peerId f delta = some (false, m) := by
      unfold PeerProfileIndex.modify
      rw [hf]
    refine ⟨fun _ => ⟨false, m, l, hsame, hk⟩, fun _ _ _ _ i hi => ?_⟩
    rw [hf] at hi
    cases hi
  | some i =>
    obtain ⟨hkept, hok⟩ := hk.modify_iff hf hkeep delta
    refine ⟨fun h => ?_, fun status m' h hcorrect j hj => ?_⟩
    · obtain ⟨m', hmodify, l', hk'⟩ := hkept (h i hf)
      exact ⟨true, m', l', hmodify, hk'⟩
    · rw [hf] at hj
      cases hj
      exact hok status m' h hcorrect

theorem Kept.decides (hk : Kept m l) (h : List Bool) (input : Input) :
    Decides (StepOk h (some m) input) (m.call input) := by
  cases input with
  | create peerId => exact hk.create_decides peerId
  | erase peerId =>
    obtain ⟨hkept, hok⟩ := hk.erase_iff peerId
    refine ⟨fun h => ?_, fun status m' h hcorrect => ?_⟩
    · obtain ⟨l', hk'⟩ := hkept h
      exact ⟨_, _, l', rfl, hk'⟩
    · have hm' : (m.erase peerId).2 = m' := congrArg Prod.snd (Option.some.inj h)
      subst hm'
      exact hok hcorrect
  | adjustQuality peerId delta => exact hk.modify_decides peerId (fun _ => ⟨rfl, rfl⟩) delta
  | responseReceived peerId =>
    exact hk.modify_decides peerId (f := PeerProfile.incrTotalQueries) (fun _ => ⟨rfl, rfl⟩) 1
  | badPacketReceived peerId => exact hk.modify_decides peerId (fun _ => ⟨rfl, rfl⟩) (-3)
  | reliableTransferFailed peerId => exact hk.modify_decides peerId (fun _ => ⟨rfl, rfl⟩) (-2)

theorem step_some {input : Input} {status : Bool} (h : m.call input = some (status, m')) :
    machine.step (some m) input = (some m', [status]) := by
  simp only [machine, h]

theorem step_eq_some {input : Input} (h : (machine.step (some m) input).1 = some m') :
    ∃ status, m.call input = some (status, m') := by
  cases hcall : m.call input with
  | none =>
    simp only [machine, hcall] at h
    cases h
  | some result =>
    obtain ⟨status, m''⟩ := result
    rw [step_some hcall] at h
    cases h
    exact ⟨status, rfl⟩

/-- A fresh index is correct, and along a run of calls it stays so exactly if no call does what it
does wrong. -/
theorem along_correct_iff (reserve : Int) (inputs : List Input) :
    Correct (new reserve) ∧
      (machine.Along StepCorrect [] (some (new reserve)) inputs ↔
        machine.Along StepOk [] (some (new reserve)) inputs) := by
  refine ⟨(kept_new reserve).correct, ?_⟩
  refine Machine.along_congr (I := fun _ s => ∃ m l, s = some m ∧ Kept m l) ?_ ?_
    ⟨_, [], rfl, kept_new reserve⟩
  · rintro h _ input ⟨m, l, rfl, hk⟩ hok
    obtain ⟨status, m', l', hcall, hk'⟩ := (hk.decides h input).1 hok
    rw [step_some hcall]
    exact ⟨m', l', rfl, hk'⟩
  · rintro h _ input ⟨m, l, rfl, hk⟩
    constructor
    · rintro ⟨m', hstep, hcorrect⟩
      obtain ⟨status, hcall⟩ := step_eq_some hstep
      exact (hk.decides h input).2 status m' hcall hcorrect
    · intro hok
      obtain ⟨status, m', l', hcall, hk'⟩ := (hk.decides h input).1 hok
      exact ⟨m', by rw [step_some hcall], hk'.correct⟩

/-- Two peers, of which the first is erased. -/
def oneErased : List Input := [.create 1, .create 2, .erase 1]

/-- The other is still there, and no longer found at the ends. -/
theorem oneErased_not_correct :
    ¬ machine.Along StepCorrect [] (some (new 128)) oneErased ∧
      ∃ m, (machine.run (some (new 128)) oneErased).1 = some m ∧
        (m.profileIndex.find 2).isSome ∧ m.highestQuality = none := by
  refine ⟨?_, _, rfl, rfl, rfl⟩
  rintro ⟨-, -, ⟨m, hm, hcorrect⟩, -⟩
  have hends := hcorrect.ends 2 (i := 1)
  cases hm
  exact (hends rfl).1 rfl

end Alpine.PeerProfileIndex
