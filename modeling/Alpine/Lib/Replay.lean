import Mathlib.Data.List.Induction

/-!
# Histories against an automaton

`replay δ p es` runs a partial automaton over a history: `δ` gives the next phase, or `none` for an
event that must not happen in a phase. A history is what the automaton allows if the replay ends
in some phase. What it allows can then be read off the automaton, one event at a time:
`replay_split` cuts a replay at any event of the history, `replay_invariant` carries a property of
phase and history along, and `replay_final` says what can no longer happen.
-/

namespace Alpine.Lib

variable {P E : Type} {δ : P → E → Option P}

/-- Run a partial automaton over a history. -/
def replay (δ : P → E → Option P) (p : P) : List E → Option P
  | [] => some p
  | e :: es => (δ p e).bind fun q => replay δ q es

@[simp] theorem replay_nil (p : P) : replay δ p [] = some p := rfl

@[simp] theorem replay_cons (p : P) (e : E) (es : List E) :
    replay δ p (e :: es) = (δ p e).bind fun q => replay δ q es := rfl

theorem replay_append (p : P) (es fs : List E) :
    replay δ p (es ++ fs) = (replay δ p es).bind fun q => replay δ q fs := by
  induction es generalizing p with
  | nil => simp
  | cons e es ih => simp [ih, Option.bind_assoc]

theorem replay_append_of_eq {p q : P} {es : List E} (h : replay δ p es = some q) (fs : List E) :
    replay δ p (es ++ fs) = replay δ q fs := by
  rw [replay_append, h]
  rfl

/-- The phases right before and right after an event of an allowed history. -/
theorem replay_split {p r : P} {es fs : List E} {e : E}
    (h : replay δ p (es ++ e :: fs) = some r) :
    ∃ q q', replay δ p es = some q ∧ δ q e = some q' ∧ replay δ q' fs = some r := by
  rw [replay_append] at h
  obtain ⟨q, hq, h⟩ := Option.bind_eq_some_iff.mp h
  rw [replay_cons] at h
  obtain ⟨q', hq', h⟩ := Option.bind_eq_some_iff.mp h
  exact ⟨q, q', hq, hq', h⟩

/-- What holds of the first phase and no events, and is kept by every event the automaton allows,
holds at the end of a replay. -/
theorem replay_invariant {J : P → List E → Prop} {p r : P} (h0 : J p [])
    (hstep : ∀ q q' es e, J q es → δ q e = some q' → J q' (es ++ [e])) {es : List E}
    (h : replay δ p es = some r) : J r es := by
  induction es using List.reverseRecOn generalizing r with
  | nil =>
    rw [replay_nil] at h
    cases h
    exact h0
  | append_singleton es e ih =>
    obtain ⟨q, q', hq, he, hr⟩ := replay_split h
    rw [replay_nil] at hr
    cases hr
    exact hstep q r es e (ih hq) he

/-- Once in a phase that refuses every event of a kind and that no other event leaves, no event of
the kind follows. -/
theorem replay_final {p r : P} {K : E → Prop} (hfinal : ∀ e, K e → δ p e = none)
    (hidle : ∀ e, ¬ K e → δ p e = some p) {es : List E} (h : replay δ p es = some r) :
    ∀ e ∈ es, ¬ K e := by
  induction es with
  | nil => simp
  | cons e es ih =>
    rw [replay_cons] at h
    by_cases hk : K e
    · rw [hfinal e hk] at h
      cases h
    · rw [hidle e hk, Option.bind_some] at h
      intro x hx
      rcases List.mem_cons.mp hx with rfl | hx
      · exact hk
      · exact ih h x hx

end Alpine.Lib
