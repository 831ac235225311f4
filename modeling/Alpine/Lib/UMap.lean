import Mathlib.Data.List.AList
import Mathlib.Algebra.Order.Group.Nat
import Mathlib.Data.Finset.Card

/-!
# Finite maps with unique keys

`UMap K V` is a finite map from `K` to `V`, an association list whose keys are distinct.
`emplace` is the insertion of a hash map that keeps an old entry: on a key that is already
there it changes nothing. `assign` replaces the value. Every proof about a map goes through
`find`; the three lemmas below compute it after each operation.
-/

namespace Alpine.Lib

/-- A finite map with unique keys. -/
abbrev UMap (K V : Type) := AList (fun _ : K => V)

namespace UMap

variable {K V : Type} [DecidableEq K]

def find (m : UMap K V) (k : K) : Option V := AList.lookup k m

/-- Replace (or add) the value of `k`. -/
def assign (m : UMap K V) (k : K) (v : V) : UMap K V := AList.insert k v m

/-- Add `k` with the value `v`; a key that is already there keeps its value. -/
def emplace (m : UMap K V) (k : K) (v : V) : UMap K V :=
  if (m.find k).isSome then m else m.assign k v

def erase (m : UMap K V) (k : K) : UMap K V := AList.erase k m

@[simp] theorem find_empty (k : K) : find (∅ : UMap K V) k = none := rfl

@[simp] theorem find_assign (m : UMap K V) (k j : K) (v : V) :
    (m.assign k v).find j = if j = k then some v else m.find j := by
  unfold find assign
  split
  · next h => subst h; exact AList.lookup_insert m
  · next h => exact AList.lookup_insert_ne h

@[simp] theorem find_erase (m : UMap K V) (k j : K) :
    (m.erase k).find j = if j = k then none else m.find j := by
  unfold find erase
  split
  · next h => subst h; exact AList.lookup_erase j m
  · next h => exact AList.lookup_erase_ne h

@[simp] theorem find_emplace (m : UMap K V) (k j : K) (v : V) :
    (m.emplace k v).find j = if j = k then some ((m.find k).getD v) else m.find j := by
  unfold emplace
  split
  · next h =>
    obtain ⟨w, hw⟩ := Option.isSome_iff_exists.mp h
    split
    · next e => subst e; simp [hw]
    · rfl
  · next h =>
    rw [Option.not_isSome_iff_eq_none] at h
    simp [h]

theorem mem_keys {m : UMap K V} {k : K} : k ∈ AList.keys m ↔ (m.find k).isSome := by
  rw [find, AList.lookup_isSome]
  exact Iff.rfl

theorem mem_entries {m : UMap K V} {k : K} {v : V} : ⟨k, v⟩ ∈ AList.entries m ↔ m.find k = some v :=
  AList.mem_lookup_iff.symm

theorem mem_values {m : UMap K V} {k : K} {v : V} (h : m.find k = some v) :
    v ∈ (AList.entries m).map fun e => e.2 :=
  List.mem_map_of_mem (f := fun e => e.2) (mem_entries.mpr h)

theorem eq_empty_of_find {m : UMap K V} (h : ∀ k, m.find k = none) : m = ∅ := by
  refine AList.ext (List.eq_nil_iff_forall_not_mem.mpr fun e he => ?_)
  have := mem_entries.mp (show (⟨e.1, e.2⟩ : Sigma fun _ : K => V) ∈ AList.entries m from he)
  rw [h] at this
  cases this

theorem emplace_of_find {m : UMap K V} {k : K} {w : V} (h : m.find k = some w) (v : V) :
    m.emplace k v = m := by
  simp [emplace, h]

theorem of_find_emplace {m : UMap K V} {k j : K} {v w : V} (h : (m.emplace k v).find j = some w) :
    m.find j = some w ∨ (m.find k = none ∧ j = k ∧ w = v) := by
  cases hk : m.find k with
  | some u =>
    rw [emplace_of_find hk] at h
    exact .inl h
  | none =>
    rw [find_emplace] at h
    split at h
    · next hj =>
      rw [hk] at h
      exact .inr ⟨rfl, hj, (Option.some.inj h).symm⟩
    · exact .inl h

theorem find_emplace_of_none {m : UMap K V} {k : K} (h : m.find k = none) (v : V) :
    (m.emplace k v).find k = some v := by
  rw [find_emplace, if_pos rfl, h]
  rfl

theorem find_emplace_of_some {m : UMap K V} {k j : K} {w : V} (h : m.find j = some w) (v : V) :
    (m.emplace k v).find j = some w := by
  rw [find_emplace]
  split
  · next hj =>
    subst hj
    rw [h]
    rfl
  · exact h

theorem find_emplace_eq_or (m : UMap K V) (k j : K) (v : V) :
    (m.emplace k v).find j = (m.find j).or (if k = j then some v else none) := by
  rw [find_emplace]
  by_cases hk : j = k
  · subst hk
    rw [if_pos rfl, if_pos rfl]
    cases m.find j <;> rfl
  · rw [if_neg hk, if_neg (fun h => hk h.symm), Option.or_none]

/-- The entries whose value meets `p`. -/
def keep (p : V → Bool) (m : UMap K V) : UMap K V :=
  ⟨(AList.entries m).filter fun e => p e.2, m.nodupKeys.sublist List.filter_sublist⟩

@[simp] theorem find_keep (p : V → Bool) (m : UMap K V) (k : K) :
    (m.keep p).find k = (m.find k).filter p := by
  apply Option.ext
  intro v
  rw [← mem_entries, Option.filter_eq_some_iff, ← mem_entries]
  exact List.mem_filter

omit [DecidableEq K] in
theorem length_keys_keep_le (p : V → Bool) (m : UMap K V) :
    (m.keep p).keys.length ≤ m.keys.length :=
  (List.filter_sublist.map Sigma.fst).length_le

/-! ## Counting entries -/

/-- How many entries meet `p`. -/
def countBy (p : K → V → Bool) (m : UMap K V) : Nat :=
  (AList.entries m).countP fun e => p e.1 e.2

variable {m : UMap K V} {k : K}

omit [DecidableEq K] in
@[simp] theorem countBy_empty (p : K → V → Bool) : countBy p (∅ : UMap K V) = 0 := rfl

theorem countBy_erase {v : V} (hf : m.find k = some v) (p : K → V → Bool) :
    (m.erase k).countBy p + (p k v).toNat = m.countBy p := by
  have hmem : k ∈ (AList.entries m).keys := mem_keys.mpr (by rw [hf]; rfl)
  obtain ⟨w, l₁, l₂, -, hl, herase⟩ := List.exists_of_kerase hmem
  have hw : m.find k = some w := mem_entries.mp (by rw [hl]; simp)
  rw [hf] at hw
  obtain rfl := Option.some.inj hw
  show (List.kerase k (AList.entries m)).countP _ + _ = (AList.entries m).countP _
  rw [herase, hl, List.countP_append, List.countP_append, List.countP_cons]
  cases p k v with
  | true =>
    simp
    omega
  | false => simp

theorem countBy_erase_none (hf : m.find k = none) (p : K → V → Bool) :
    (m.erase k).countBy p = m.countBy p := by
  have hmem : k ∉ (AList.entries m).keys := fun h => by
    have := mem_keys.mp h
    rw [hf] at this
    cases this
  show (List.kerase k (AList.entries m)).countP _ = (AList.entries m).countP _
  rw [List.kerase_of_notMem_keys hmem]

theorem countBy_assign (m : UMap K V) (k : K) (v : V) (p : K → V → Bool) :
    (m.assign k v).countBy p = (m.erase k).countBy p + (p k v).toNat := by
  show (List.kinsert k v (AList.entries m)).countP _ = (List.kerase k (AList.entries m)).countP _ + _
  rw [List.kinsert_def, List.countP_cons]
  cases p k v <;> simp

/-- The entry of a key is replaced. -/
theorem countBy_assign_some {v : V} (hf : m.find k = some v) (w : V) (p : K → V → Bool) :
    (m.assign k w).countBy p + (p k v).toNat = m.countBy p + (p k w).toNat := by
  have herase := countBy_erase hf p
  rw [countBy_assign]
  omega

theorem countBy_assign_none (hf : m.find k = none) (v : V) (p : K → V → Bool) :
    (m.assign k v).countBy p = m.countBy p + (p k v).toNat := by
  rw [countBy_assign, countBy_erase_none hf]

theorem countBy_emplace_none (hf : m.find k = none) (v : V) (p : K → V → Bool) :
    (m.emplace k v).countBy p = m.countBy p + (p k v).toNat := by
  have hemplace : m.emplace k v = m.assign k v := by simp [emplace, hf]
  rw [hemplace, countBy_assign_none hf]

omit [DecidableEq K] in
theorem countBy_le (m : UMap K V) (p : K → V → Bool) : m.countBy p ≤ m.keys.length :=
  List.countP_le_length.trans (List.length_map _).ge

omit [DecidableEq K] in
theorem length_keys_eq_countBy (m : UMap K V) : m.keys.length = m.countBy fun _ _ => true := by
  unfold countBy
  rw [List.countP_true]
  exact List.length_map _

theorem length_keys_assign_le (m : UMap K V) (k : K) (v : V) :
    (m.assign k v).keys.length ≤ m.keys.length + 1 := by
  rw [length_keys_eq_countBy, length_keys_eq_countBy]
  cases hf : m.find k with
  | none => exact Nat.le_of_eq (countBy_assign_none hf v _)
  | some w =>
    have hassign := countBy_assign_some hf v fun _ _ => true
    omega

/-- The entries of a map, counted in a part of it and apart from it. -/
theorem countBy_eq_add {W : Type} {part : UMap K W} {f : W → V}
    (h : ∀ k w, part.find k = some w → m.find k = some (f w)) (p : K → V → Bool) :
    m.countBy p = (part.countBy fun k w => p k (f w)) +
      m.countBy fun k v => (part.find k).isNone && p k v := by
  have hperm : ((AList.entries m).filter fun e => (part.find e.1).isSome).Perm
      ((AList.entries part).map fun e => ⟨e.1, f e.2⟩) := by
    refine (List.perm_ext_iff_of_nodup (m.nodupKeys.nodup.filter _) ?_).mpr fun e => ?_
    · refine part.nodupKeys.nodup.map_on fun e he e' he' heq => ?_
      obtain ⟨k, w⟩ := e
      obtain ⟨k', w'⟩ := e'
      obtain rfl : k = k' := congrArg Sigma.fst heq
      have hsame := (mem_entries.mp he).symm.trans (mem_entries.mp he')
      rw [Option.some.inj hsame]
    · rw [List.mem_filter, List.mem_map]
      constructor
      · rintro ⟨he, hsome⟩
        obtain ⟨w, hw⟩ := Option.isSome_iff_exists.mp hsome
        refine ⟨⟨e.1, w⟩, mem_entries.mpr hw, ?_⟩
        have hsame := (mem_entries.mp he).symm.trans (h e.1 w hw)
        rw [← Option.some.inj hsame]
      · rintro ⟨e', he', rfl⟩
        have hfind := mem_entries.mp he'
        exact ⟨mem_entries.mpr (h _ _ hfind), Option.isSome_iff_exists.mpr ⟨_, hfind⟩⟩
  have hcount : ∀ entries : List (Sigma fun _ : K => V), entries.countP (fun e => p e.1 e.2) =
      (entries.filter fun e => (part.find e.1).isSome).countP (fun e => p e.1 e.2) +
        entries.countP fun e => (part.find e.1).isNone && p e.1 e.2 := by
    intro entries
    induction entries with
    | nil => rfl
    | cons e entries ih =>
      rw [List.countP_cons, List.countP_cons, List.filter_cons, ih]
      cases hfind : part.find e.1 with
      | none => simp [Nat.add_assoc]
      | some w =>
        simp only [Option.isSome_some, if_true, List.countP_cons, Option.isNone_some, Bool.false_and,
          Bool.false_eq_true, if_false]
        omega
  unfold countBy
  rw [hcount, hperm.countP_eq, List.countP_map]
  rfl

/-! ## Keys of two maps -/

/-- Maps whose keys correspond to each other have equally many. -/
theorem length_keys_eq {K' V' : Type} [DecidableEq K'] {m : UMap K V} {m' : UMap K' V'}
    (i : K → K') (j : K' → K) (hi : ∀ k ∈ m.keys, i k ∈ m'.keys ∧ j (i k) = k)
    (hj : ∀ k ∈ m'.keys, j k ∈ m.keys ∧ i (j k) = k) : m.keys.length = m'.keys.length := by
  rw [← List.toFinset_card_of_nodup (AList.keys_nodup m),
    ← List.toFinset_card_of_nodup (AList.keys_nodup m')]
  refine Finset.card_nbij' i j ?_ ?_ ?_ ?_
  · exact fun k hk => List.mem_toFinset.mpr (hi k (List.mem_toFinset.mp hk)).1
  · exact fun k hk => List.mem_toFinset.mpr (hj k (List.mem_toFinset.mp hk)).1
  · exact fun k hk => (hi k (List.mem_toFinset.mp hk)).2
  · exact fun k hk => (hj k (List.mem_toFinset.mp hk)).2

end UMap

end Alpine.Lib
