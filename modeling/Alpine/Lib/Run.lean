import Mathlib.Data.List.Basic

/-!
# Machines that run on a list of inputs

A `Machine` is a total step function: the input carries whatever the environment decides
(which message arrives, whether a send succeeds, what the clock says), so one machine covers
every interleaving. `Along ok` says that every step of a run meets a condition on the history of
events, the state before the step and the input. The rules at the end carry an invariant along
such a run (`along_invariant`) and turn an implication or an equivalence that holds of each step
under the invariant into one about runs (`along_imp`, `along_congr`, `along_congr_of`).
-/

namespace Alpine.Lib

/-- States `S`, inputs `A`, events `E`. -/
structure Machine (S A E : Type) where
  step : S → A → S × List E

namespace Machine

variable {S A E : Type} (M : Machine S A E)

/-- The state after the inputs, and the events in order. -/
def run (s : S) : List A → S × List E
  | [] => (s, [])
  | a :: as => ((run (M.step s a).1 as).1, (M.step s a).2 ++ (run (M.step s a).1 as).2)

@[simp] theorem run_nil (s : S) : M.run s [] = (s, []) := rfl

@[simp] theorem run_cons (s : S) (a : A) (as : List A) :
    M.run s (a :: as) =
      ((M.run (M.step s a).1 as).1, (M.step s a).2 ++ (M.run (M.step s a).1 as).2) := rfl

theorem run_append (s : S) (as bs : List A) :
    M.run s (as ++ bs) =
      ((M.run (M.run s as).1 bs).1, (M.run s as).2 ++ (M.run (M.run s as).1 bs).2) := by
  induction as generalizing s with
  | nil => simp
  | cons a as ih => simp [ih, List.append_assoc]

/-- Every step of the run meets `ok` of the events so far, the state and the input. -/
def Along (ok : List E → S → A → Prop) : List E → S → List A → Prop
  | _, _, [] => True
  | h, s, a :: as => ok h s a ∧ Along ok (h ++ (M.step s a).2) (M.step s a).1 as

@[simp] theorem along_nil (ok : List E → S → A → Prop) (h : List E) (s : S) :
    M.Along ok h s [] := trivial

@[simp] theorem along_cons (ok : List E → S → A → Prop) (h : List E) (s : S) (a : A)
    (as : List A) :
    M.Along ok h s (a :: as) ↔
      ok h s a ∧ M.Along ok (h ++ (M.step s a).2) (M.step s a).1 as := Iff.rfl

/-- A run can be tested step by step. -/
instance decidableAlong (ok : List E → S → A → Prop) [∀ h s a, Decidable (ok h s a)] :
    ∀ h s as, Decidable (M.Along ok h s as)
  | _, _, [] => isTrue trivial
  | h, s, a :: as =>
    let _ := decidableAlong ok (h ++ (M.step s a).2) (M.step s a).1 as
    inferInstanceAs (Decidable (ok h s a ∧ M.Along ok _ _ as))

variable {M} {ok ok' : List E → S → A → Prop} {I : List E → S → Prop}

theorem along_append {h : List E} {s : S} {as bs : List A} :
    M.Along ok h s (as ++ bs) ↔
      M.Along ok h s as ∧ M.Along ok (h ++ (M.run s as).2) (M.run s as).1 bs := by
  induction as generalizing h s with
  | nil => simp
  | cons a as ih => simp [ih, and_assoc, List.append_assoc]

/-- What every step preserves, the run preserves. -/
theorem along_invariant (hstep : ∀ h s a, I h s → ok h s a → I (h ++ (M.step s a).2) (M.step s a).1)
    {h : List E} {s : S} {as : List A} (hI : I h s) (hok : M.Along ok h s as) :
    I (h ++ (M.run s as).2) (M.run s as).1 := by
  induction as generalizing h s with
  | nil => simpa using hI
  | cons a as ih =>
    have := ih (hstep h s a hI hok.1) hok.2
    simpa [List.append_assoc] using this

/-- An invariant of every step, whatever the input. -/
theorem run_invariant (hstep : ∀ h s a, I h s → I (h ++ (M.step s a).2) (M.step s a).1)
    {h : List E} {s : S} (as : List A) (hI : I h s) :
    I (h ++ (M.run s as).2) (M.run s as).1 := by
  induction as generalizing h s with
  | nil => simpa using hI
  | cons a as ih =>
    have := ih (hstep h s a hI)
    simpa [List.append_assoc] using this

/-- What holds of every step from a state of the invariant holds along the run. -/
theorem run_along (hstep : ∀ h s a, I h s → I (h ++ (M.step s a).2) (M.step s a).1)
    (hok : ∀ h s a, I h s → ok h s a) {h : List E} {s : S} (as : List A) (hI : I h s) :
    M.Along ok h s as := by
  induction as generalizing h s with
  | nil => trivial
  | cons a as ih => exact ⟨hok h s a hI, ih (hstep h s a hI)⟩

/-- A condition that implies another on every step from a state of the invariant does so on runs, if
a step that meets it keeps the invariant. -/
theorem along_imp (hstep : ∀ h s a, I h s → ok h s a → I (h ++ (M.step s a).2) (M.step s a).1)
    (himp : ∀ h s a, I h s → ok h s a → ok' h s a) {h : List E} {s : S} {as : List A}
    (hI : I h s) (hok : M.Along ok h s as) : M.Along ok' h s as := by
  induction as generalizing h s with
  | nil => trivial
  | cons a as ih => exact ⟨himp h s a hI hok.1, ih (hstep h s a hI hok.1) hok.2⟩

/-- Two conditions that agree on every step from a state of the invariant agree on runs, if a
step that meets the second keeps the invariant. -/
theorem along_congr (hstep : ∀ h s a, I h s → ok' h s a → I (h ++ (M.step s a).2) (M.step s a).1)
    (hiff : ∀ h s a, I h s → (ok h s a ↔ ok' h s a)) {h : List E} {s : S} {as : List A}
    (hI : I h s) : M.Along ok h s as ↔ M.Along ok' h s as := by
  induction as generalizing h s with
  | nil => simp
  | cons a as ih =>
    simp only [along_cons]
    constructor
    · rintro ⟨h1, h2⟩
      have h1' := (hiff h s a hI).mp h1
      exact ⟨h1', (ih (hstep h s a hI h1')).mp h2⟩
    · rintro ⟨h1, h2⟩
      exact ⟨(hiff h s a hI).mpr h1, (ih (hstep h s a hI h1)).mpr h2⟩

/-- Two conditions that agree on every step that meets a third one agree on runs that do. -/
theorem along_congr_of {pre : List E → S → A → Prop}
    (hstep : ∀ h s a, I h s → I (h ++ (M.step s a).2) (M.step s a).1)
    (hiff : ∀ h s a, I h s → pre h s a → (ok h s a ↔ ok' h s a)) {h : List E} {s : S} {as : List A}
    (hI : I h s) (hpre : M.Along pre h s as) : M.Along ok h s as ↔ M.Along ok' h s as := by
  induction as generalizing h s with
  | nil => exact Iff.rfl
  | cons a as ih => exact and_congr (hiff h s a hI hpre.1) (ih (hstep h s a hI) hpre.2)

end Machine

end Alpine.Lib
