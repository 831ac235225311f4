import Alpine.Lib.UMap

/-!
# Objects at addresses

A `Heap` has the live objects at their addresses. An address is given out once: `alloc` takes one
that no object ever had, and `free` does not bring it back; `allocEach` and `freeEach` do so for
several objects. A caller that reads, writes or frees an address where `get` finds nothing uses an
object after its release.

`Owned h own` says that the owners `own` hold the live objects one to one. Its rules say what is
left of it when an owner gets a new object, gives one up, or hands it on.
-/

namespace Alpine.Lib

structure Heap (V : Type) where
  objects : UMap Nat V
  next : Nat
  /-- The addresses from `next` on are unused. -/
  unused : ∀ a, next ≤ a → objects.find a = none

namespace Heap

variable {V : Type}

def empty : Heap V := ⟨∅, 0, fun _ _ => rfl⟩

def get (h : Heap V) (a : Nat) : Option V := h.objects.find a

/-- A new object, at the address `h.next`. -/
def alloc (h : Heap V) (v : V) : Heap V where
  objects := h.objects.assign h.next v
  next := h.next + 1
  unused a ha := by
    rw [UMap.find_assign, if_neg (by omega)]
    exact h.unused a (by omega)

/-- Write to a live object. -/
def write (h : Heap V) (a : Nat) (v : V) : Heap V where
  objects := if (h.get a).isSome then h.objects.assign a v else h.objects
  next := h.next
  unused b hb := by
    split
    · next hs =>
      have hne : b ≠ a := by
        rintro rfl
        simp [get, h.unused b hb] at hs
      rw [UMap.find_assign, if_neg hne]
      exact h.unused b hb
    · exact h.unused b hb

def free (h : Heap V) (a : Nat) : Heap V where
  objects := h.objects.erase a
  next := h.next
  unused b hb := by
    rw [UMap.find_erase, h.unused b hb, ite_self]

/-- Free the objects at these addresses. -/
def freeEach (h : Heap V) : List Nat → Heap V
  | [] => h
  | a :: as => (h.free a).freeEach as

/-- New objects, at the addresses from `h.next` on. -/
def allocEach (h : Heap V) : List V → Heap V
  | [] => h
  | v :: vs => (h.alloc v).allocEach vs

@[simp] theorem get_empty (a : Nat) : (empty : Heap V).get a = none := rfl

@[simp] theorem get_next (h : Heap V) : h.get h.next = none := h.unused _ (Nat.le_refl _)

@[simp] theorem get_alloc (h : Heap V) (v : V) (a : Nat) :
    (h.alloc v).get a = if a = h.next then some v else h.get a := by
  simp [get, alloc]

@[simp] theorem get_write (h : Heap V) (a b : Nat) (v : V) :
    (h.write a v).get b = if b = a ∧ (h.get a).isSome then some v else h.get b := by
  unfold write get
  by_cases hs : (UMap.find h.objects a).isSome
  · simp [hs]
  · simp [hs]

@[simp] theorem get_free (h : Heap V) (a b : Nat) :
    (h.free a).get b = if b = a then none else h.get b := by
  simp [get, free]

@[simp] theorem next_alloc (h : Heap V) (v : V) : (h.alloc v).next = h.next + 1 := rfl

@[simp] theorem next_write (h : Heap V) (a : Nat) (v : V) : (h.write a v).next = h.next := rfl

@[simp] theorem next_free (h : Heap V) (a : Nat) : (h.free a).next = h.next := rfl

@[simp] theorem next_allocEach (h : Heap V) (vs : List V) :
    (h.allocEach vs).next = h.next + vs.length := by
  induction vs generalizing h with
  | nil => rfl
  | cons v vs ih =>
    rw [allocEach, ih, next_alloc, List.length_cons]
    omega

theorem lt_next_of_get {h : Heap V} {a : Nat} (hget : (h.get a).isSome) : a < h.next := by
  by_contra hge
  rw [get, h.unused a (Nat.not_lt.mp hge)] at hget
  cases hget

theorem get_allocEach_of_lt {h : Heap V} {a : Nat} (ha : a < h.next) (vs : List V) :
    (h.allocEach vs).get a = h.get a := by
  induction vs generalizing h with
  | nil => rfl
  | cons v vs ih =>
    rw [allocEach, ih (Nat.lt_succ_of_lt ha), get_alloc, if_neg (Nat.ne_of_lt ha)]

theorem get_freeEach_of_not_mem {a : Nat} {as : List Nat} (ha : a ∉ as) (h : Heap V) :
    (h.freeEach as).get a = h.get a := by
  induction as generalizing h with
  | nil => rfl
  | cons b bs ih =>
    have hb : a ≠ b := fun heq => ha (heq ▸ List.mem_cons_self)
    rw [freeEach, ih fun hbs => ha (List.mem_cons_of_mem _ hbs), get_free, if_neg hb]

theorem get_allocEach_add (h : Heap V) (vs : List V) (k : Nat) :
    (h.allocEach vs).get (h.next + k) = vs[k]? := by
  induction vs generalizing h k with
  | nil => exact h.unused _ (Nat.le_add_right ..)
  | cons v vs ih =>
    rw [allocEach]
    cases k with
    | zero =>
      rw [Nat.add_zero, get_allocEach_of_lt (Nat.lt_succ_self _), get_alloc, if_pos rfl]
      rfl
    | succ k =>
      have hnext := ih (h.alloc v) k
      rw [next_alloc, Nat.add_assoc, Nat.add_comm 1] at hnext
      exact hnext

/-! ## Owners -/

section Owners

variable {ι : Type}

/-- Every live object has an owner, only live ones are owned, and none has two owners. -/
structure Owned (h : Heap V) (own : ι → Option Nat) : Prop where
  live : ∀ a, (h.get a).isSome ↔ ∃ i, own i = some a
  one : ∀ i j a, own i = some a → own j = some a → i = j

theorem owned_empty : Owned (empty : Heap V) (fun _ : ι => none) :=
  ⟨fun a => by simp, fun i j a hi => by cases hi⟩

namespace Owned

variable {h : Heap V} {own own' : ι → Option Nat}

theorem isSome (ho : Owned h own) {i : ι} {a : Nat} (hi : own i = some a) : (h.get a).isSome :=
  (ho.live a).mpr ⟨i, hi⟩

theorem ne_next (ho : Owned h own) {i : ι} {a : Nat} (hi : own i = some a) : a ≠ h.next := by
  rintro rfl
  have := ho.isSome hi
  simp at this

/-- The same objects are live, whatever their contents. -/
theorem congr (ho : Owned h own) {h' : Heap V}
    (hget : ∀ a, (h'.get a).isSome = (h.get a).isSome) : Owned h' own :=
  ⟨fun a => by rw [hget]; exact ho.live a, ho.one⟩

theorem write (ho : Owned h own) (a : Nat) (v : V) : Owned (h.write a v) own := by
  refine ho.congr fun b => ?_
  rw [get_write]
  split
  · next hb => rw [hb.1, hb.2]; rfl
  · rfl

/-- A new object for `i`. -/
theorem alloc (ho : Owned h own) {i : ι} (v : V) (hi : own i = none)
    (hown : ∀ j, own' j = own j ∨ j = i ∧ own' j = some h.next)
    (hnew : own' i = some h.next) : Owned (h.alloc v) own' := by
  have hold : ∀ j a, own' j = some a → own j = some a ∨ j = i ∧ a = h.next := by
    intro j a hj
    rcases hown j with he | ⟨rfl, he⟩
    · exact .inl (he ▸ hj)
    · rw [he] at hj; exact .inr ⟨rfl, by injection hj with hj; exact hj.symm⟩
  constructor
  · intro a
    rw [get_alloc]
    split
    · next ha => exact ⟨fun _ => ⟨i, by rw [hnew, ha]⟩, fun _ => rfl⟩
    · next ha =>
      constructor
      · intro hs
        obtain ⟨j, hj⟩ := (ho.live a).mp hs
        refine ⟨j, ?_⟩
        rcases hown j with he | ⟨rfl, -⟩
        · rw [he, hj]
        · rw [hi] at hj; cases hj
      · rintro ⟨j, hj⟩
        rcases hold j a hj with hj | ⟨-, rfl⟩
        · exact ho.isSome hj
        · exact absurd rfl ha
  · intro j k a hj hk
    rcases hold j a hj with hj | ⟨rfl, rfl⟩ <;> rcases hold k _ hk with hk | ⟨rfl, ha⟩
    · exact ho.one j k a hj hk
    · exact absurd ha (ho.ne_next hj)
    · exact absurd rfl (ho.ne_next hk)
    · rfl

/-- New objects for several owners. -/
theorem allocEach (ho : Owned h own) (vs : List V) {f : Nat → ι}
    (hnone : ∀ k < vs.length, own (f k) = none)
    (hnew : ∀ k < vs.length, own' (f k) = some (h.next + k))
    (hown : ∀ j, (∀ k < vs.length, j ≠ f k) → own' j = own j) :
    Owned (h.allocEach vs) own' := by
  induction vs generalizing h own f with
  | nil =>
    have heq : own' = own := funext fun j => hown j fun k hk => absurd hk (Nat.not_lt_zero k)
    rw [heq]
    exact ho
  | cons v vs ih =>
    have hdistinct : ∀ k < vs.length, f (k + 1) ≠ f 0 := fun k hk heq => by
      have h0 := hnew 0 (Nat.succ_pos _)
      have hk' := hnew (k + 1) (Nat.succ_lt_succ hk)
      rw [heq, h0, Option.some.injEq] at hk'
      omega
    classical
    have hfirst : Owned (h.alloc v) fun j => if j = f 0 then some h.next else own j :=
      ho.alloc v (hnone 0 (Nat.succ_pos _))
        (fun j => by
          by_cases hj : j = f 0
          · exact .inr ⟨hj, if_pos hj⟩
          · exact .inl (if_neg hj)) (if_pos rfl)
    refine ih hfirst (f := fun k => f (k + 1)) (fun k hk => ?_) (fun k hk => ?_) fun j hj => ?_
    · rw [if_neg (hdistinct k hk)]
      exact hnone (k + 1) (Nat.succ_lt_succ hk)
    · rw [hnew (k + 1) (Nat.succ_lt_succ hk), next_alloc]
      congr 1
      omega
    · by_cases hj0 : j = f 0
      · rw [if_pos hj0, hj0, hnew 0 (Nat.succ_pos _)]
        rfl
      · rw [if_neg hj0]
        refine hown j fun k hk => ?_
        cases k with
        | zero => exact hj0
        | succ k => exact hj k (Nat.lt_of_succ_lt_succ hk)

/-- `i` releases its object. -/
theorem free (ho : Owned h own) {i : ι} {a : Nat} (hi : own i = some a)
    (hown : ∀ j, j ≠ i → own' j = own j) (hnew : own' i = none) : Owned (h.free a) own' := by
  have hold : ∀ j b, own' j = some b → j ≠ i ∧ own j = some b := by
    intro j b hj
    have hne : j ≠ i := by rintro rfl; rw [hnew] at hj; cases hj
    exact ⟨hne, by rw [← hown j hne]; exact hj⟩
  constructor
  · intro b
    rw [get_free]
    split
    · next hb =>
      subst hb
      refine ⟨(by simp), ?_⟩
      rintro ⟨j, hj⟩
      obtain ⟨hne, hj⟩ := hold j b hj
      exact absurd (ho.one j i b hj hi) hne
    · next hb =>
      constructor
      · intro hs
        obtain ⟨j, hj⟩ := (ho.live b).mp hs
        have hne : j ≠ i := by rintro rfl; rw [hi] at hj; injection hj with hj; exact hb hj.symm
        exact ⟨j, by rw [hown j hne]; exact hj⟩
      · rintro ⟨j, hj⟩
        exact ho.isSome (hold j b hj).2
  · intro j k b hj hk
    exact ho.one j k b (hold j b hj).2 (hold k b hk).2

/-- Several owners release their objects. -/
theorem freeEach {ps : List (ι × Nat)} (ho : Owned h own) (hnodup : (ps.map Prod.fst).Nodup)
    (hps : ∀ p ∈ ps, own p.1 = some p.2) (hown : ∀ j, j ∉ ps.map Prod.fst → own' j = own j)
    (hnew : ∀ p ∈ ps, own' p.1 = none) : Owned (h.freeEach (ps.map Prod.snd)) own' := by
  induction ps generalizing h own with
  | nil =>
    have heq : own' = own := funext fun j => hown j (by simp)
    rw [heq]
    exact ho
  | cons p ps ih =>
    obtain ⟨hp, hnodup⟩ := List.nodup_cons.mp hnodup
    classical
    have hfree : Owned (h.free p.2) fun j => if j = p.1 then none else own j :=
      ho.free (hps p List.mem_cons_self) (fun j hj => if_neg hj) (if_pos rfl)
    refine ih hfree hnodup (fun q hq => ?_) (fun j hj => ?_) fun q hq =>
      hnew q (List.mem_cons_of_mem _ hq)
    · have hne : q.1 ≠ p.1 := fun he => hp (he ▸ List.mem_map_of_mem hq)
      rw [if_neg hne]
      exact hps q (List.mem_cons_of_mem _ hq)
    · by_cases he : j = p.1
      · rw [if_pos he, he]
        exact hnew p List.mem_cons_self
      · rw [if_neg he]
        refine hown j fun hmem => ?_
        rcases List.mem_cons.mp hmem with h | h
        · exact he h
        · exact hj h

/-- `i` hands its object to `j`, which has none. -/
theorem move (ho : Owned h own) {i j : ι} (hij : i ≠ j) (hj : own j = none)
    (hown : ∀ k, k ≠ i → k ≠ j → own' k = own k) (hi' : own' i = none) (hj' : own' j = own i) :
    Owned h own' := by
  have hold : ∀ k a, own' k = some a → (k ≠ i ∧ k ≠ j ∧ own k = some a) ∨ k = j ∧ own i = some a := by
    intro k a hk
    have hne : k ≠ i := by rintro rfl; rw [hi'] at hk; cases hk
    by_cases hkj : k = j
    · exact .inr ⟨hkj, by rw [← hj', ← hkj]; exact hk⟩
    · exact .inl ⟨hne, hkj, by rw [← hown k hne hkj]; exact hk⟩
  constructor
  · intro a
    rw [ho.live a]
    constructor
    · rintro ⟨k, hk⟩
      by_cases hki : k = i
      · exact ⟨j, by rw [hj', ← hki]; exact hk⟩
      · have hkj : k ≠ j := by rintro rfl; rw [hj] at hk; cases hk
        exact ⟨k, by rw [hown k hki hkj]; exact hk⟩
    · rintro ⟨k, hk⟩
      rcases hold k a hk with ⟨-, -, hk⟩ | ⟨-, hk⟩
      · exact ⟨k, hk⟩
      · exact ⟨i, hk⟩
  · intro k l a hk hl
    rcases hold k a hk with ⟨h1, h2, hk⟩ | ⟨rfl, hk⟩ <;>
      rcases hold l a hl with ⟨h3, h4, hl⟩ | ⟨rfl, hl⟩
    · exact ho.one k l a hk hl
    · exact absurd (ho.one k i a hk hl) h1
    · exact absurd (ho.one l i a hl hk) h3
    · rfl

end Owned

end Owners

end Heap

end Alpine.Lib
