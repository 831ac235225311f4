import Mathlib.Algebra.Order.Field.Basic
import Mathlib.Data.List.Count
import Mathlib.Tactic.Linarith
import Mathlib.Tactic.Ring

/-!
# Token buckets

A bucket fills at a constant rate up to `burst` and is full when it is first used. A request spends
a token if there is one. `requests` are the decisions on requests at the given times.

What a bucket admits up to a time is at most what it holds and what flows in until then
(`count_le_level`), so that a window admits at most `burst` and what flows in during it
(`count_window_le`); the first `burst` requests are admitted whenever they come (`admits_first`).
-/

namespace Alpine.Lib

/-- What a bucket holds at a time. -/
structure Bucket (K : Type) where
  level : K
  time : K

namespace Bucket

variable {K : Type} [Field K] [LinearOrder K] (rate burst : K)

def refill (b : Bucket K) (now : K) : Bucket K :=
  ⟨min burst (b.level + rate * (now - b.time)), now⟩

/-- Spend a token; a request is refused if there is none. -/
def spend (b : Bucket K) : Bucket K × Bool :=
  if 1 ≤ b.level then ({ b with level := b.level - 1 }, true) else (b, false)

def request (b : Bucket K) (now : K) : Bucket K × Bool := (b.refill rate burst now).spend

/-- The bucket after the requests, and the decisions with their times. -/
def requests (b : Bucket K) : List K → Bucket K × List (K × Bool)
  | [] => (b, [])
  | now :: times =>
    ((requests (b.request rate burst now).1 times).1,
      (now, (b.request rate burst now).2) :: (requests (b.request rate burst now).1 times).2)

/-- The decisions on all requests; the bucket is full before the first. -/
def decisions : List K → List (K × Bool)
  | [] => []
  | now :: times => (requests rate burst ⟨burst, now⟩ (now :: times)).2

/-- The bucket after all requests, if there was one. -/
def after : List K → Option (Bucket K)
  | [] => none
  | now :: times => some (requests rate burst ⟨burst, now⟩ (now :: times)).1

theorem requests_append (b : Bucket K) (xs ys : List K) :
    b.requests rate burst (xs ++ ys) =
      (((b.requests rate burst xs).1.requests rate burst ys).1,
        (b.requests rate burst xs).2 ++
          ((b.requests rate burst xs).1.requests rate burst ys).2) := by
  induction xs generalizing b with
  | nil => rfl
  | cons x xs ih =>
    rw [List.cons_append, requests, ih]
    rfl

/-- The bucket that a request finds: a full one, if it is the first. -/
def found (b : Option (Bucket K)) (now : K) : Bucket K := b.getD ⟨burst, now⟩

theorem after_concat (xs : List K) (now : K) :
    after rate burst (xs ++ [now]) =
      some ((found burst (after rate burst xs) now).request rate burst now).1 := by
  cases xs with
  | nil => rfl
  | cons x xs =>
    show some (requests rate burst _ (x :: xs ++ [now])).1 = _
    rw [requests_append]
    rfl

theorem decisions_concat (xs : List K) (now : K) :
    decisions rate burst (xs ++ [now]) = decisions rate burst xs ++
      [(now, ((found burst (after rate burst xs) now).request rate burst now).2)] := by
  cases xs with
  | nil => rfl
  | cons x xs =>
    show (requests rate burst _ (x :: xs ++ [now])).2 = _
    rw [requests_append]
    rfl

variable {rate burst} {b : Bucket K}

@[simp] theorem time_request (now : K) : (b.request rate burst now).1.time = now := by
  unfold request spend
  split <;> rfl

/-- A request takes a token exactly if it is admitted. -/
theorem level_request (rate burst : K) (b : Bucket K) (now : K) :
    (b.request rate burst now).1.level + (if (b.request rate burst now).2 then 1 else 0) =
      (b.refill rate burst now).level := by
  unfold request spend
  split
  · simp
  · simp

theorem request_admitted_iff (now : K) :
    (b.request rate burst now).2 = true ↔ 1 ≤ (b.refill rate burst now).level := by
  unfold request spend
  split
  · next h => exact iff_of_true rfl h
  · next h => exact iff_of_false Bool.false_ne_true h

variable [IsStrictOrderedRing K]

theorem refill_level_nonneg (hburst : 0 ≤ burst) (hrate : 0 ≤ rate) (hlevel : 0 ≤ b.level)
    {now : K} (hnow : b.time ≤ now) : 0 ≤ (b.refill rate burst now).level :=
  le_min hburst (add_nonneg hlevel (mul_nonneg hrate (sub_nonneg.mpr hnow)))

theorem request_level_nonneg (hburst : 0 ≤ burst) (hrate : 0 ≤ rate) (hlevel : 0 ≤ b.level)
    {now : K} (hnow : b.time ≤ now) : 0 ≤ (b.request rate burst now).1.level := by
  have hfilled := refill_level_nonneg hburst hrate hlevel hnow
  unfold request spend
  split
  · next h => exact sub_nonneg.mpr h
  · exact hfilled

/-- How many requests are admitted up to a time. -/
def countUntil (v : K) (decided : List (K × Bool)) : Nat :=
  decided.countP fun d => decide (d.1 ≤ v) && d.2

/-- How many requests are admitted in a window. -/
def countIn (u v : K) (decided : List (K × Bool)) : Nat :=
  decided.countP fun d => decide (u ≤ d.1) && decide (d.1 ≤ v) && d.2

omit [IsStrictOrderedRing K] in
theorem time_mem_requests (b : Bucket K) {times : List K} {d : K × Bool}
    (h : d ∈ (b.requests rate burst times).2) : d.1 ∈ times := by
  induction times generalizing b with
  | nil => cases h
  | cons now times ih =>
    rcases List.mem_cons.mp h with rfl | h
    · exact List.mem_cons_self ..
    · exact List.mem_cons_of_mem _ (ih _ h)

omit [IsStrictOrderedRing K] in
/-- Nothing is admitted until `v` if the first request comes later. -/
theorem countUntil_eq_zero {v now : K} {times : List K} (hsorted : (now :: times).Pairwise (· ≤ ·))
    (hin : v < now) (b : Bucket K) :
    countUntil v (b.requests rate burst (now :: times)).2 = 0 := by
  refine List.countP_eq_zero.mpr fun d hd => ?_
  have hlater : now ≤ d.1 := by
    rcases List.mem_cons.mp (time_mem_requests b hd) with h | h
    · exact h.ge
    · exact List.rel_of_pairwise_cons hsorted h
  rw [decide_eq_false (not_le.mpr (hin.trans_le hlater)), Bool.false_and]
  exact Bool.false_ne_true

omit [IsStrictOrderedRing K] in
theorem countUntil_cons {v now : K} (times : List K) (hin : now ≤ v) (b : Bucket K) :
    (countUntil v (b.requests rate burst (now :: times)).2 : K) =
      countUntil v ((b.request rate burst now).1.requests rate burst times).2 +
        if (b.request rate burst now).2 then 1 else 0 := by
  rw [requests, countUntil, List.countP_cons, decide_eq_true hin, Bool.true_and]
  push_cast
  rfl

/-- What is admitted until `v` is at most what the bucket holds and what flows in until then. -/
theorem count_le_level (hburst : 0 ≤ burst) (hrate : 0 ≤ rate) {v : K} {times : List K}
    (hsorted : times.Pairwise (· ≤ ·)) (hafter : ∀ now ∈ times, b.time ≤ now) (hlevel : 0 ≤ b.level)
    (hv : b.time ≤ v) :
    (countUntil v (b.requests rate burst times).2 : K) ≤ b.level + rate * (v - b.time) := by
  have hheld := add_nonneg hlevel (mul_nonneg hrate (sub_nonneg.mpr hv))
  induction times generalizing b with
  | nil => simpa only [requests, countUntil, List.countP_nil, Nat.cast_zero] using hheld
  | cons now times ih =>
    have hnow := hafter now (List.mem_cons_self ..)
    rcases lt_or_ge v now with hlater | hin
    · rwa [countUntil_eq_zero hsorted hlater, Nat.cast_zero]
    · have hnonneg := request_level_nonneg hburst hrate hlevel hnow
      have hrest := ih (b := (b.request rate burst now).1) hsorted.of_cons
        (fun x hx => by rw [time_request]; exact List.rel_of_pairwise_cons hsorted hx)
        hnonneg (by rwa [time_request])
        (add_nonneg hnonneg (mul_nonneg hrate (sub_nonneg.mpr (by rwa [time_request]))))
      have htaken := level_request rate burst b now
      have hfilled : (b.refill rate burst now).level ≤ b.level + rate * (now - b.time) :=
        min_le_right _ _
      have hflow : rate * (now - b.time) + rate * (v - now) = rate * (v - b.time) := by ring
      rw [time_request] at hrest
      rw [countUntil_cons times hin]
      linarith

/-- No window admits more than a full bucket and what flows in during it. -/
theorem count_window_le (hburst : 0 ≤ burst) (hrate : 0 ≤ rate) {u v : K} (huv : u ≤ v)
    {times : List K} (hsorted : times.Pairwise (· ≤ ·)) (hafter : ∀ now ∈ times, b.time ≤ now)
    (hlevel : 0 ≤ b.level) :
    (countIn u v (b.requests rate burst times).2 : K) ≤ burst + rate * (v - u) := by
  have hbound := add_nonneg hburst (mul_nonneg hrate (sub_nonneg.mpr huv))
  induction times generalizing b with
  | nil => simpa only [requests, countIn, List.countP_nil, Nat.cast_zero] using hbound
  | cons now times ih =>
    have hnow := hafter now (List.mem_cons_self ..)
    have hnonneg := request_level_nonneg hburst hrate hlevel hnow
    have hlater : ∀ x ∈ times, (b.request rate burst now).1.time ≤ x := fun x hx => by
      rw [time_request]
      exact List.rel_of_pairwise_cons hsorted hx
    rcases lt_or_ge now u with hbefore | hin
    · have hskip : countIn u v (b.requests rate burst (now :: times)).2 =
          countIn u v ((b.request rate burst now).1.requests rate burst times).2 := by
        rw [requests, countIn, List.countP_cons, decide_eq_false (not_le.mpr hbefore),
          Bool.false_and, Bool.false_and]
        rfl
      rw [hskip]
      exact ih hsorted.of_cons hlater hnonneg
    · -- From the first request in the window on, all that counts is what is admitted until `v`.
      have hcount : countIn u v (b.requests rate burst (now :: times)).2 ≤
          countUntil v (b.requests rate burst (now :: times)).2 :=
        List.countP_mono_left fun d _ hd => by
          simp only [Bool.and_eq_true] at hd ⊢
          exact ⟨hd.1.2, hd.2⟩
      have hcount : (countIn u v (b.requests rate burst (now :: times)).2 : K) ≤
          countUntil v (b.requests rate burst (now :: times)).2 := Nat.cast_le.mpr hcount
      rcases lt_or_ge v now with hafterv | hinv
      · rw [countUntil_eq_zero hsorted hafterv, Nat.cast_zero] at hcount
        exact hcount.trans hbound
      · have hrest := count_le_level hburst hrate hsorted.of_cons hlater hnonneg
          (v := v) (by rwa [time_request])
        have htaken := level_request rate burst b now
        have hfull : (b.refill rate burst now).level ≤ burst := min_le_left _ _
        have hflow : rate * (v - now) ≤ rate * (v - u) :=
          mul_le_mul_of_nonneg_left (sub_le_sub_left hin v) hrate
        rw [time_request] at hrest
        rw [countUntil_cons times hinv] at hcount
        linarith

/-- As many requests as the bucket holds are admitted, whenever they come. -/
theorem requests_admitted (hrate : 0 ≤ rate) {n : Nat} (hn : (n : K) ≤ burst) {times : List K}
    (hsorted : times.Pairwise (· ≤ ·)) (hafter : ∀ now ∈ times, b.time ≤ now)
    (hlevel : (n : K) ≤ b.level) :
    ∀ d ∈ (b.requests rate burst times).2.take n, d.2 = true := by
  induction times generalizing b n with
  | nil => simp [requests]
  | cons now times ih =>
    cases n with
    | zero => simp
    | succ n =>
      have hflow : 0 ≤ rate * (now - b.time) :=
        mul_nonneg hrate (sub_nonneg.mpr (hafter now (List.mem_cons_self ..)))
      have hfilled : ((n + 1 : Nat) : K) ≤ (b.refill rate burst now).level :=
        le_min hn (by linarith)
      have hzero : (0 : K) ≤ n := Nat.cast_nonneg n
      push_cast at hn hfilled
      have hadmitted : (b.request rate burst now).2 = true :=
        (request_admitted_iff now).mpr (by linarith)
      have htaken := level_request rate burst b now
      rw [if_pos hadmitted] at htaken
      rw [requests, List.take_succ_cons, List.forall_mem_cons]
      refine ⟨hadmitted, ih (by linarith) hsorted.of_cons (fun x hx => ?_) (by linarith)⟩
      rw [time_request]
      exact List.rel_of_pairwise_cons hsorted hx

/-! ## From the first request on -/

theorem decisions_window_le (hburst : 0 ≤ burst) (hrate : 0 ≤ rate) {u v : K} (huv : u ≤ v)
    {times : List K} (hsorted : times.Pairwise (· ≤ ·)) :
    (countIn u v (decisions rate burst times) : K) ≤ burst + rate * (v - u) := by
  cases times with
  | nil => exact count_window_le (b := ⟨burst, u⟩) hburst hrate huv .nil nofun hburst
  | cons now times =>
    refine count_window_le hburst hrate huv hsorted (fun x hx => ?_) hburst
    rcases List.mem_cons.mp hx with h | h
    · exact h.ge
    · exact List.rel_of_pairwise_cons hsorted h

theorem admits_first (hrate : 0 ≤ rate) {n : Nat} (hn : (n : K) ≤ burst) {times : List K}
    (hsorted : times.Pairwise (· ≤ ·)) :
    ∀ d ∈ (decisions rate burst times).take n, d.2 = true := by
  cases times with
  | nil => simp [decisions]
  | cons now times =>
    refine requests_admitted hrate hn hsorted (fun x hx => ?_) hn
    rcases List.mem_cons.mp hx with h | h
    · exact h.ge
    · exact List.rel_of_pairwise_cons hsorted h

end Bucket

end Alpine.Lib
