import Alpine.Lib.UMap

/-!
# Keys and the owners that declare them

An index has one owner for a key. `emplaceAll` enters an owner under
the keys it declares where there is none yet, and `eraseAll` takes keys out whoever their owner is.
`Resolves` is what an index should be of the keys that are declared. Entering an owner keeps it,
and taking an owner out keeps it exactly if no one else declares what is erased and the owner is
under no other key (`Resolves.eraseAll_iff`).
-/

namespace Alpine.Lib

namespace UMap

variable {K V : Type} [DecidableEq K]

def emplaceAll (keys : List K) (v : V) (m : UMap K V) : UMap K V :=
  keys.foldl (fun m k => m.emplace k v) m

def eraseAll (keys : List K) (m : UMap K V) : UMap K V :=
  keys.foldl (fun m k => m.erase k) m

@[simp] theorem find_emplaceAll (keys : List K) (v : V) (m : UMap K V) (k : K) :
    (m.emplaceAll keys v).find k = if k ∈ keys then some ((m.find k).getD v) else m.find k := by
  induction keys generalizing m with
  | nil => rfl
  | cons key keys ih =>
    show ((m.emplace key v).emplaceAll keys v).find k = _
    rw [ih, find_emplace]
    by_cases hkey : k = key
    · subst hkey
      simp
    · simp [hkey]

@[simp] theorem find_eraseAll (keys : List K) (m : UMap K V) (k : K) :
    (m.eraseAll keys).find k = if k ∈ keys then none else m.find k := by
  induction keys generalizing m with
  | nil => rfl
  | cons key keys ih =>
    show ((m.erase key).eraseAll keys).find k = _
    rw [ih, find_erase]
    by_cases hkey : k = key
    · subst hkey
      simp
    · simp [hkey]

end UMap

variable {K V : Type} [DecidableEq K] {declares : V → K → Prop} {index : UMap K V}

/-- A key that is declared has an owner, and an owner declares its keys. -/
structure Resolves (declares : V → K → Prop) (index : UMap K V) : Prop where
  declared : ∀ v k, declares v k → ∃ owner, index.find k = some owner
  owner : ∀ k owner, index.find k = some owner → declares owner k

namespace Resolves

theorem empty (hnone : ∀ v k, ¬ declares v k) : Resolves declares (∅ : UMap K V) where
  declared v k h := absurd h (hnone v k)
  owner _ _ h := by cases h

theorem congr {declares' : V → K → Prop} (h : Resolves declares index)
    (hiff : ∀ v k, declares' v k ↔ declares v k) : Resolves declares' index where
  declared v k hd := h.declared v k ((hiff v k).mp hd)
  owner k owner hf := (hiff owner k).mpr (h.owner k owner hf)

theorem emplaceAll (h : Resolves declares index) (keys : List K) (v : V) :
    Resolves (fun w k => declares w k ∨ (w = v ∧ k ∈ keys)) (index.emplaceAll keys v) where
  declared w k hd := by
    rw [UMap.find_emplaceAll]
    split
    · exact ⟨_, rfl⟩
    · next hk =>
      rcases hd with hd | ⟨-, hmem⟩
      · exact h.declared w k hd
      · exact absurd hmem hk
  owner k owner hf := by
    rw [UMap.find_emplaceAll] at hf
    split at hf
    · next hk =>
      cases hfind : index.find k with
      | none =>
        rw [hfind] at hf
        exact .inr ⟨(Option.some.inj hf).symm, hk⟩
      | some w =>
        rw [hfind] at hf
        injection hf with hf
        subst hf
        exact .inl (h.owner k _ hfind)
    · exact .inl (h.owner k owner hf)

variable {keys : List K} {v : V}

theorem eraseAll (h : Resolves declares index) (hothers : ∀ k ∈ keys, ∀ w, w ≠ v → ¬ declares w k)
    (hkeys : ∀ k, index.find k = some v → k ∈ keys) :
    Resolves (fun w k => w ≠ v ∧ declares w k) (index.eraseAll keys) where
  declared w k hd := by
    have hk : k ∉ keys := fun hk => hothers k hk w hd.1 hd.2
    rw [UMap.find_eraseAll, if_neg hk]
    exact h.declared w k hd.2
  owner k owner hf := by
    rw [UMap.find_eraseAll] at hf
    split at hf
    · cases hf
    · next hk =>
      refine ⟨?_, h.owner k owner hf⟩
      rintro rfl
      exact hk (hkeys k hf)

/-- What taking an owner out asks of the keys that are erased. -/
theorem eraseAll_iff (h : Resolves declares index) :
    ((∀ w k, w ≠ v → declares w k → ∃ owner, (index.eraseAll keys).find k = some owner) ∧
        ∀ k, (index.eraseAll keys).find k ≠ some v) ↔
      (∀ k ∈ keys, ∀ w, w ≠ v → ¬ declares w k) ∧ ∀ k, index.find k = some v → k ∈ keys := by
  constructor
  · rintro ⟨hdeclared, hgone⟩
    constructor
    · intro k hk w hw hd
      obtain ⟨owner, hf⟩ := hdeclared w k hw hd
      rw [UMap.find_eraseAll, if_pos hk] at hf
      cases hf
    · intro k hf
      by_contra hk
      apply hgone k
      rw [UMap.find_eraseAll, if_neg hk]
      exact hf
  · rintro ⟨hothers, hkeys⟩
    have hr := h.eraseAll hothers hkeys
    exact ⟨fun w k hw hd => hr.declared w k ⟨hw, hd⟩, fun k hf => (hr.owner k v hf).1 rfl⟩

end Resolves

/-!
## Entries that hold something

Each entry of a map holds at most one value, and what is held should be exactly what is entered
somewhere else: `Matched`. The rules say what is left to show when one entry is replaced or erased
while values are entered or taken out.
-/

variable {A : Type} {entered entered' : A → Prop} {holds : V → Option A}
  {m : UMap K V} {k : K} {v v' : V} {a : A}

/-- Some entry holds `a`. -/
def HeldBy (holds : V → Option A) (m : UMap K V) (a : A) : Prop :=
  ∃ k v, m.find k = some v ∧ holds v = some a

/-- Some entry other than that of `k` holds `a`. -/
def HeldElse (holds : V → Option A) (m : UMap K V) (k : K) (a : A) : Prop :=
  ∃ k' v, k' ≠ k ∧ m.find k' = some v ∧ holds v = some a

theorem not_heldBy_empty : ¬ HeldBy holds (∅ : UMap K V) a := by
  rintro ⟨k, v, hf, -⟩
  cases hf

theorem heldBy_of_find (hf : m.find k = some v) :
    HeldBy holds m a ↔ holds v = some a ∨ HeldElse holds m k a := by
  constructor
  · rintro ⟨k', w, hk', hw⟩
    by_cases hk : k' = k
    · subst hk
      rw [hf] at hk'
      injection hk' with hv
      subst hv
      exact .inl hw
    · exact .inr ⟨k', w, hk, hk', hw⟩
  · rintro (hv | ⟨k', w, -, hk', hw⟩)
    · exact ⟨k, v, hf, hv⟩
    · exact ⟨k', w, hk', hw⟩

theorem heldBy_of_none (hf : m.find k = none) : HeldBy holds m a ↔ HeldElse holds m k a := by
  constructor
  · rintro ⟨k', w, hk', hw⟩
    refine ⟨k', w, ?_, hk', hw⟩
    rintro rfl
    rw [hf] at hk'
    cases hk'
  · rintro ⟨k', w, -, hk', hw⟩
    exact ⟨k', w, hk', hw⟩

theorem heldElse_assign : HeldElse holds (m.assign k v') k a ↔ HeldElse holds m k a := by
  have hfind : ∀ k', k' ≠ k → (m.assign k v').find k' = m.find k' := by
    intro k' hk'
    rw [UMap.find_assign, if_neg hk']
  constructor
  · rintro ⟨k', w, hk', hf, hw⟩
    exact ⟨k', w, hk', (hfind k' hk').symm.trans hf, hw⟩
  · rintro ⟨k', w, hk', hf, hw⟩
    exact ⟨k', w, hk', (hfind k' hk').trans hf, hw⟩

theorem heldBy_assign :
    HeldBy holds (m.assign k v') a ↔ holds v' = some a ∨ HeldElse holds m k a := by
  rw [heldBy_of_find (k := k) (by rw [UMap.find_assign, if_pos rfl]), heldElse_assign]

theorem heldBy_erase : HeldBy holds (m.erase k) a ↔ HeldElse holds m k a := by
  constructor
  · rintro ⟨k', w, hf, hw⟩
    rw [UMap.find_erase] at hf
    split at hf
    · cases hf
    · next hk' => exact ⟨k', w, hk', hf, hw⟩
  · rintro ⟨k', w, hk', hf, hw⟩
    refine ⟨k', w, ?_, hw⟩
    rw [UMap.find_erase, if_neg hk']
    exact hf

/-- What is entered is what is held. -/
def Matched (entered : A → Prop) (holds : V → Option A) (m : UMap K V) : Prop :=
  ∀ a, entered a ↔ HeldBy holds m a

namespace Matched

/-- An entry that holds what it held. -/
theorem assign (h : Matched entered holds m) (hf : m.find k = some v) (hv : holds v' = holds v) :
    Matched entered holds (m.assign k v') := by
  intro a
  rw [h a, heldBy_of_find hf, heldBy_assign, hv]

/-- A new entry that holds nothing. -/
theorem emplace (h : Matched entered holds m) (hv : holds v = none) :
    Matched entered holds (m.emplace k v) := by
  cases hf : m.find k with
  | some w =>
    rw [UMap.emplace_of_find hf]
    exact h
  | none =>
    have hnew : m.emplace k v = m.assign k v := by simp [UMap.emplace, hf]
    intro a
    rw [h a, hnew, heldBy_assign, hv, heldBy_of_none hf]
    simp

/-- The entry takes what it is offered, which is entered if `ok`. -/
theorem offered_iff {offered : Option A} {ok : A → Prop} (h : Matched entered holds m)
    (hf : m.find k = some v) (hv : holds v = none) (hv' : holds v' = offered)
    (hentered : ∀ a, entered' a ↔ entered a ∨ (offered = some a ∧ ok a)) :
    Matched entered' holds (m.assign k v') ↔ ∀ a, offered = some a → entered a ∨ ok a := by
  have helse : ∀ a, entered a ↔ HeldElse holds m k a := by
    intro a
    rw [h a, heldBy_of_find hf, hv]
    simp
  constructor
  · intro h' a ha
    have hheld := (h' a).mpr (heldBy_assign.mpr (.inl (hv'.trans ha)))
    rcases (hentered a).mp hheld with he | ⟨-, hok⟩
    · exact .inl he
    · exact .inr hok
  · intro hok a
    rw [hentered, heldBy_assign, hv', ← helse]
    constructor
    · rintro (he | ⟨ha, -⟩)
      · exact .inr he
      · exact .inl ha
    · rintro (ha | he)
      · rcases hok a ha with he | ho
        · exact .inl he
        · exact .inr ⟨ha, ho⟩
      · exact .inl he

/-- The entry does not take what it is offered. -/
theorem dropped_iff {offered : Option A} {ok : A → Prop} (h : Matched entered holds m)
    (hf : m.find k = some v) (hv : holds v = none) (hv' : holds v' = none)
    (hentered : ∀ a, entered' a ↔ entered a ∨ (offered = some a ∧ ok a)) :
    Matched entered' holds (m.assign k v') ↔ ∀ a, offered = some a → ok a → entered a := by
  have hsame : Matched entered holds (m.assign k v') := h.assign hf (hv'.trans hv.symm)
  constructor
  · intro h' a ha hok
    exact (hsame a).mpr ((h' a).mp ((hentered a).mpr (.inr ⟨ha, hok⟩)))
  · intro hok a
    rw [hentered, ← hsame a]
    constructor
    · rintro (he | ⟨ha, ho⟩)
      · exact he
      · exact hok a ha ho
    · exact .inl

/-- The entry gives up what it holds, which is taken out. -/
theorem released_iff (h : Matched entered holds m) (hf : m.find k = some v)
    (hv' : holds v' = none) (hentered : ∀ a, entered' a ↔ entered a ∧ holds v ≠ some a) :
    Matched entered' holds (m.assign k v') ↔ ∀ a, holds v = some a → ¬ HeldElse holds m k a := by
  constructor
  · intro h' a ha helse
    have hout := (h' a).mpr (heldBy_assign.mpr (.inr helse))
    exact ((hentered a).mp hout).2 ha
  · intro hsole a
    rw [hentered, h a, heldBy_of_find hf, heldBy_assign, hv']
    constructor
    · rintro ⟨ha | helse, hne⟩
      · exact absurd ha hne
      · exact .inr helse
    · rintro (ha | helse)
      · cases ha
      · exact ⟨.inr helse, fun ha => hsole a ha helse⟩

/-- The entry still holds what is taken out. -/
theorem withheld_iff (h : Matched entered holds m) (hf : m.find k = some v)
    (hentered : ∀ a, entered' a ↔ entered a ∧ holds v ≠ some a) :
    Matched entered' holds m ↔ holds v = none := by
  constructor
  · intro h'
    cases ha : holds v with
    | none => rfl
    | some a =>
      have hin := (h' a).mpr ⟨k, v, hf, ha⟩
      exact absurd ha ((hentered a).mp hin).2
  · intro hnone a
    rw [hentered, h a, hnone]
    simp

/-- The entry is erased while what it holds stays. -/
theorem erase_iff (h : Matched entered holds m) (hf : m.find k = some v) :
    Matched entered holds (m.erase k) ↔ ∀ a, holds v = some a → HeldElse holds m k a := by
  constructor
  · intro h' a ha
    exact heldBy_erase.mp ((h' a).mp ((h a).mpr ⟨k, v, hf, ha⟩))
  · intro helse a
    rw [h a, heldBy_of_find hf, heldBy_erase]
    constructor
    · rintro (ha | he)
      · exact helse a ha
      · exact he
    · exact .inr

end Matched

end Alpine.Lib
