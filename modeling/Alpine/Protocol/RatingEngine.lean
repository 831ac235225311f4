import Alpine.Lib.Run
import Alpine.Lib.UMap
import Mathlib.Analysis.Convex.Basic
import Mathlib.Analysis.SpecialFunctions.Pow.Real

/-!
# The rating engine

Each peer has a score between zero and one. Events move it, time takes it back towards one half, and
the scores of another node are merged into it, weighted by how many interactions either node has
had. Scores are exact numbers of an ordered field, with the power function as a parameter; counters
have 64 bits. Times are nanoseconds, and the readings of the clock within one call are one.
-/

namespace Alpine

open Lib

/-- `t_PeerRating`. -/
structure PeerRating (K : Type) where
  score : K
  successCount : Nat
  failureCount : Nat
  lastUpdate : Nat

/-- `t_ScoreEntry`. -/
structure ScoreEntry (K : Type) where
  peerId : Nat
  score : K
  interactions : Nat

/-- `t_ResourceRating`. -/
inductive ResourceRating where
  | low
  | average
  | high
  deriving DecidableEq, Repr

inductive RatingEvent where
  | queryResponse
  | badPacket
  | transferFailure
  | naResource
  | deceptiveResource
  | clientResourceEvaluation (rating : ResourceRating)
  deriving DecidableEq, Repr

/-- The calls that change a score. -/
inductive RatingInput (K : Type) where
  | rate (event : RatingEvent) (profile : Option Nat) (now : Nat)
  | merge (remoteScores : List (ScoreEntry K)) (minInteractions now : Nat)
  | load (entries : List (Nat × K × Nat × Nat)) (now : Nat)

structure RatingEngine (K : Type) where
  ratings : UMap Nat (PeerRating K)

namespace RatingEngine

variable {K : Type} [Field K] [LinearOrder K]

def kInitialScore : K := 1 / 2

def kAlpha : K := 1 / 10

def kMinScore : K := 0

def kMaxScore : K := 1

def kDecayTarget : K := 1 / 2

def kDecayRatePerHr : K := 1 / 100

def nsPerHour : K := 3600000000000

/-- The counters have 64 bits. -/
def ulong (n : Nat) : Nat := n % 2 ^ 64

def new : RatingEngine K := ⟨∅⟩

def clampScore (score : K) : K := max kMinScore (min score kMaxScore)

/-- A default `t_PeerRating`. -/
def initialRating (now : Nat) : PeerRating K := ⟨kInitialScore, 0, 0, now⟩

def hoursSince (now lastUpdate : Nat) : K := ((now - lastUpdate : Nat) : K) / nsPerHour

/-- `pow` is `std::pow`. -/
def applyDecay (pow : K → K → K) (now : Nat) (rating : PeerRating K) : PeerRating K :=
  let hours : K := hoursSince now rating.lastUpdate
  if 0 < hours then
    let decayFactor := pow (1 - kDecayRatePerHr) hours
    { rating with
      score := kDecayTarget + (rating.score - kDecayTarget) * decayFactor
      lastUpdate := now }
  else rating

def applyDelta (pow : K → K → K) (now : Nat) (rating : PeerRating K) (delta : K)
    (isSuccess : Bool) : PeerRating K :=
  let rating := applyDecay pow now rating
  let score := clampScore (rating.score + kAlpha * delta)
  if isSuccess then
    { rating with score, successCount := ulong (rating.successCount + 1), lastUpdate := now }
  else
    { rating with score, failureCount := ulong (rating.failureCount + 1), lastUpdate := now }

/-- What an event is worth: the change of the score, whether it counts as a success, and the
`qualityDelta` that is handed back. -/
def impact : RatingEvent → K × Bool × Int
  | .queryResponse => (1 / 10, true, 1)
  | .badPacket => (-(3 / 10), false, -3)
  | .transferFailure => (-(2 / 10), false, -2)
  | .naResource => (-(5 / 100), false, -1)
  | .deceptiveResource => (-(5 / 10), false, -5)
  | .clientResourceEvaluation .low => (-(2 / 10), false, -2)
  | .clientResourceEvaluation .average => (0, true, 0)
  | .clientResourceEvaluation .high => (15 / 100, true, 1)

variable (s : RatingEngine K)

/-- `ratings_s[peerId]`. -/
def rating (now peerId : Nat) : PeerRating K :=
  (s.ratings.find peerId).getD (initialRating now)

/-- The event methods; `profile` is the peer id of the profile, unless that is null. The first
component is the quality delta, when the call succeeds. -/
def rate (pow : K → K → K) (now : Nat) (event : RatingEvent) (profile : Option Nat) :
    Option Int × RatingEngine K :=
  match profile with
  | none => (none, s)
  | some peerId =>
    let (delta, isSuccess, qualityDelta) := impact (K := K) event
    (some qualityDelta,
      ⟨s.ratings.assign peerId (applyDelta pow now (s.rating now peerId) delta isSuccess)⟩)

def localInteractions (rating : PeerRating K) : Nat :=
  ulong (rating.successCount + rating.failureCount)

/-- The weighted average of the local and the remote score. -/
def averageScore (rating : PeerRating K) (remote : ScoreEntry K) : K :=
  let totalWeight : K := (ulong (localInteractions rating + remote.interactions) : Nat)
  let localWeight := (localInteractions rating : K) / totalWeight
  let remoteWeight := (remote.interactions : K) / totalWeight
  clampScore (rating.score * localWeight + remote.score * remoteWeight)

/-- One pass of the loop of `mergeRemoteScores`. -/
def mergeEntry (minInteractions now : Nat) (remote : ScoreEntry K) : RatingEngine K :=
  if remote.interactions < minInteractions then s
  else
    match s.ratings.find remote.peerId with
    | none => ⟨s.ratings.assign remote.peerId ⟨clampScore remote.score, 0, 0, now⟩⟩
    | some rating =>
      let score :=
        if localInteractions rating < minInteractions then
          clampScore (rating.score * (1 / 2) + remote.score * (1 / 2))
        else averageScore rating remote
      ⟨s.ratings.assign remote.peerId { rating with score, lastUpdate := now }⟩

def mergeRemoteScores (remoteScores : List (ScoreEntry K)) (minInteractions now : Nat) :
    RatingEngine K :=
  remoteScores.foldl (fun s remote => s.mergeEntry minInteractions now remote) s

/-- The entries that `mergeRemoteScores` does not pass over. -/
def mergedEntries (remoteScores : List (ScoreEntry K)) (minInteractions : Nat) :
    List (ScoreEntry K) :=
  remoteScores.filter fun remote => minInteractions ≤ remote.interactions

/-- The rating of a peer that takes an entry in. A peer without a rating gets the score of it, with
less than ten interactions both scores count one half, and then each by its interactions. -/
def takenIn (now : Nat) (entry : ScoreEntry K) : Option (PeerRating K) → PeerRating K
  | none => ⟨clampScore entry.score, 0, 0, now⟩
  | some rating =>
    let score :=
      if localInteractions rating < 10 then
        clampScore (rating.score * (1 / 2) + entry.score * (1 / 2))
      else averageScore rating entry
    { rating with score, lastUpdate := now }

/-- The table that `load` fills with the records it could read: peer id, score and both
counters. -/
def load (now : Nat) (entries : List (Nat × K × Nat × Nat)) : RatingEngine K :=
  ⟨entries.foldl (fun ratings entry => ratings.assign entry.1
    ⟨clampScore entry.2.1, ulong entry.2.2.1, ulong entry.2.2.2, now⟩) ∅⟩

def getScore (pow : K → K → K) (now peerId : Nat) : K :=
  match s.ratings.find peerId with
  | none => kInitialScore
  | some rating =>
    let hours : K := hoursSince now rating.lastUpdate
    if 0 < hours then
      clampScore (kDecayTarget + (rating.score - kDecayTarget) * pow (1 - kDecayRatePerHr) hours)
    else rating.score

/-! ## Scores -/

section Scores

variable [IsStrictOrderedRing K]

theorem clampScore_mem (score : K) : clampScore score ∈ Set.Icc (0 : K) 1 :=
  ⟨le_max_left _ _, max_le zero_le_one (min_le_right _ _)⟩

omit [IsStrictOrderedRing K] in
theorem clampScore_of_mem {score : K} (h : score ∈ Set.Icc (0 : K) 1) : clampScore score = score := by
  unfold clampScore kMinScore kMaxScore
  rw [min_eq_left h.2, max_eq_right h.1]

omit [IsStrictOrderedRing K] in
/-- A score between a stored one and another stays between them when it is clamped. -/
theorem clampScore_mem_uIcc {stored other score : K} (hstored : stored ∈ Set.Icc (0 : K) 1)
    (hscore : score ∈ Set.uIcc stored other) : clampScore score ∈ Set.uIcc stored other := by
  have hmono : Monotone (clampScore : K → K) := fun a b hab =>
    max_le_max le_rfl (min_le_min hab le_rfl)
  suffices hclamp : clampScore score ∈ Set.uIcc stored score from
    Set.uIcc_subset_uIcc Set.left_mem_uIcc hscore hclamp
  rcases le_total stored score with hle | hle
  · have hlow := hmono hle
    rw [clampScore_of_mem hstored] at hlow
    rw [Set.uIcc_of_le hle]
    exact ⟨hlow, max_le (hstored.1.trans hle) (min_le_left _ _)⟩
  · have hhigh := hmono hle
    rw [clampScore_of_mem hstored] at hhigh
    rw [Set.uIcc_of_ge hle]
    exact ⟨le_max_of_le_right (le_min le_rfl (hle.trans hstored.2)), hhigh⟩

/-- A mean of two scores with weights that add up to one. -/
theorem mean_mem_uIcc {a b v w : K} (hv : 0 ≤ v) (hw : 0 ≤ w) (hsum : v + w = 1) :
    a * v + b * w ∈ Set.uIcc a b := by
  have hmem := convex_uIcc (𝕜 := K) a b Set.left_mem_uIcc Set.right_mem_uIcc hv hw hsum
  rw [smul_eq_mul, smul_eq_mul, mul_comm v, mul_comm w] at hmem
  exact hmem

/-- Time moves a score towards one half. -/
theorem applyDecay_mem {pow : K → K → K}
    (hpow : ∀ h, 0 < h → pow (1 - kDecayRatePerHr) h ∈ Set.Icc (0 : K) 1) (now : Nat)
    {rating : PeerRating K} (hrating : rating.score ∈ Set.Icc (0 : K) 1) :
    (applyDecay pow now rating).score ∈ Set.Icc (0 : K) 1 := by
  unfold applyDecay
  dsimp only
  split
  · next hhours =>
    obtain ⟨hnonneg, hle⟩ := hpow _ hhours
    have htarget : (kDecayTarget : K) ∈ Set.Icc (0 : K) 1 := by
      constructor <;> norm_num [kDecayTarget]
    have hmean := mean_mem_uIcc (a := kDecayTarget) (b := rating.score) (sub_nonneg.mpr hle) hnonneg
      (sub_add_cancel _ _)
    have hsub : Set.uIcc kDecayTarget rating.score ⊆ Set.Icc (0 : K) 1 :=
      Set.uIcc_subset_Icc htarget hrating
    have heq : ∀ f : K, kDecayTarget + (rating.score - kDecayTarget) * f =
        kDecayTarget * (1 - f) + rating.score * f := fun f => by ring
    rw [heq]
    exact hsub hmean
  · exact hrating

theorem applyDelta_mem (pow : K → K → K) (now : Nat) (rating : PeerRating K) (delta : K)
    (isSuccess : Bool) : (applyDelta pow now rating delta isSuccess).score ∈ Set.Icc (0 : K) 1 := by
  cases isSuccess <;> exact clampScore_mem _

/-- The weights are those of the interactions when the sum does not overflow. -/
theorem averageScore_mem_uIcc {rating : PeerRating K} {remote : ScoreEntry K}
    (hrating : rating.score ∈ Set.Icc (0 : K) 1)
    (hpos : 0 < localInteractions rating + remote.interactions)
    (hlt : localInteractions rating + remote.interactions < 2 ^ 64) :
    averageScore rating remote ∈ Set.uIcc rating.score remote.score := by
  refine clampScore_mem_uIcc hrating (mean_mem_uIcc ?_ ?_ ?_)
  · positivity
  · positivity
  · have htotal : ((localInteractions rating + remote.interactions : Nat) : K) ≠ 0 :=
      Nat.cast_ne_zero.mpr hpos.ne'
    rw [ulong, Nat.mod_eq_of_lt hlt, ← add_div, ← Nat.cast_add, div_self htotal]

end Scores

/-! ## Runs -/

/-- Every stored score is between zero and one. -/
def InRange (s : RatingEngine K) : Prop :=
  ∀ peerId rating, s.ratings.find peerId = some rating → rating.score ∈ Set.Icc (0 : K) 1

/-- The remote score is averaged with the local one of `rating`, by the interactions. -/
structure Averages (s : RatingEngine K) (minInteractions : Nat) (remote : ScoreEntry K)
    (rating : PeerRating K) : Prop where
  found : s.ratings.find remote.peerId = some rating
  remotely : minInteractions ≤ remote.interactions
  locally : minInteractions ≤ localInteractions rating

/-- What one pass of the loop of `mergeRemoteScores` is to do. -/
structure EntrySound (s : RatingEngine K) (minInteractions now : Nat) (remote : ScoreEntry K) :
    Prop where
  inRange : (s.mergeEntry minInteractions now remote).InRange
  /-- What is stored is between the local score, that of a new peer if there is none, and the
  remote one. -/
  between : minInteractions ≤ remote.interactions → ∀ merged,
    (s.mergeEntry minInteractions now remote).ratings.find remote.peerId = some merged →
      merged.score ∈ Set.uIcc (s.rating now remote.peerId).score remote.score
  /-- The divisor is not zero. -/
  divisor : ∀ rating, s.Averages minInteractions remote rating →
    ulong (localInteractions rating + remote.interactions) ≠ 0
  /-- Neither sum of counters overflows. -/
  weights : ∀ rating, s.Averages minInteractions remote rating →
    localInteractions rating = rating.successCount + rating.failureCount ∧
      ulong (localInteractions rating + remote.interactions) =
        localInteractions rating + remote.interactions

/-- The counters of an averaged entry have a sum that is not zero and fits into 64 bits. -/
def EntryFits (s : RatingEngine K) (minInteractions : Nat) (remote : ScoreEntry K) : Prop :=
  ∀ rating, s.Averages minInteractions remote rating →
    rating.successCount + rating.failureCount < 2 ^ 64 ∧
      0 < rating.successCount + rating.failureCount + remote.interactions ∧
      rating.successCount + rating.failureCount + remote.interactions < 2 ^ 64

/-- A condition on every pass of the loop. -/
def AlongEntries (ok : RatingEngine K → ScoreEntry K → Prop) (minInteractions now : Nat) :
    RatingEngine K → List (ScoreEntry K) → Prop
  | _, [] => True
  | s, remote :: remoteScores =>
    ok s remote ∧
      AlongEntries ok minInteractions now (s.mergeEntry minInteractions now remote) remoteScores

def machine (pow : K → K → K) : Machine (RatingEngine K) (RatingInput K) Empty where
  step
    | s, .rate event profile now => ((s.rate pow now event profile).2, [])
    | s, .merge remoteScores minInteractions now =>
      (s.mergeRemoteScores remoteScores minInteractions now, [])
    | _, .load entries now => (load now entries, [])

/-- What a call is to do. -/
def Sound (pow : K → K → K) (_ : List Empty) (s : RatingEngine K) : RatingInput K → Prop
  | .rate event profile now =>
    (s.rate pow now event profile).2.InRange ∧
      ∀ peerId, profile = some peerId →
        -- the score on the way, when time has been taken into account
        (applyDecay pow now (s.rating now peerId)).score ∈ Set.Icc (0 : K) 1 ∧
          -- one more interaction
          ∃ rated, (s.rate pow now event profile).2.ratings.find peerId = some rated ∧
            rated.successCount + rated.failureCount =
              (s.rating now peerId).successCount + (s.rating now peerId).failureCount + 1
  | .merge remoteScores minInteractions now =>
    AlongEntries (fun s remote => s.EntrySound minInteractions now remote) minInteractions now s
      remoteScores
  | .load entries now => (load now entries : RatingEngine K).InRange

/-- No counter is at its maximum when it is incremented, and the counters that are weights fit. -/
def Fits (_ : List Empty) (s : RatingEngine K) : RatingInput K → Prop
  | .rate event profile now =>
    ∀ peerId, profile = some peerId →
      (if (impact (K := K) event).2.1 then (s.rating now peerId).successCount
        else (s.rating now peerId).failureCount) + 1 < 2 ^ 64
  | .merge remoteScores minInteractions now =>
    AlongEntries (fun s remote => s.EntryFits minInteractions remote) minInteractions now s
      remoteScores
  | .load _ _ => True

variable {s : RatingEngine K}

theorem ulong_eq_self {n : Nat} : ulong n = n ↔ n < 2 ^ 64 :=
  ⟨fun h => by rw [← h]; exact Nat.mod_lt _ (Nat.two_pow_pos 64), Nat.mod_eq_of_lt⟩

theorem InRange.assign (h : s.InRange) {peerId : Nat} {rating : PeerRating K}
    (hrating : rating.score ∈ Set.Icc (0 : K) 1) :
    InRange ⟨s.ratings.assign peerId rating⟩ := by
  intro j r hfind
  have hassign : (s.ratings.assign peerId rating).find j = some r := hfind
  rw [UMap.find_assign] at hassign
  split at hassign
  · obtain rfl := Option.some.inj hassign
    exact hrating
  · exact h j r hassign

section Ordered

variable [IsStrictOrderedRing K]

theorem InRange.rating (h : s.InRange) (now peerId : Nat) :
    (s.rating now peerId).score ∈ Set.Icc (0 : K) 1 := by
  unfold RatingEngine.rating
  cases hfind : s.ratings.find peerId with
  | none =>
    show (kInitialScore : K) ∈ Set.Icc (0 : K) 1
    constructor <;> norm_num [kInitialScore]
  | some rating => exact h peerId rating hfind

theorem inRange_load (now : Nat) (entries : List (Nat × K × Nat × Nat)) :
    (load now entries).InRange := by
  suffices h : ∀ ratings : UMap Nat (PeerRating K), InRange ⟨ratings⟩ →
      InRange ⟨entries.foldl (fun ratings entry => ratings.assign entry.1
        ⟨clampScore entry.2.1, ulong entry.2.2.1, ulong entry.2.2.2, now⟩) ratings⟩ from
    h ∅ fun j r hfind => nomatch (UMap.find_empty j).symm.trans hfind
  induction entries with
  | nil => exact fun _ h => h
  | cons entry entries ih => exact fun ratings h => ih _ (h.assign (clampScore_mem _))

theorem InRange.mergeEntry (h : s.InRange) (minInteractions now : Nat) (remote : ScoreEntry K) :
    (s.mergeEntry minInteractions now remote).InRange := by
  unfold RatingEngine.mergeEntry
  split
  · exact h
  · cases s.ratings.find remote.peerId with
    | none => exact h.assign (clampScore_mem _)
    | some rating =>
      refine h.assign ?_
      dsimp only
      split
      · exact clampScore_mem _
      · exact clampScore_mem _

/-- One pass of the loop does what it is to do exactly when the counters fit. -/
theorem InRange.entrySound_iff (h : s.InRange) (minInteractions now : Nat)
    (remote : ScoreEntry K) :
    s.EntrySound minInteractions now remote ↔ s.EntryFits minInteractions remote := by
  constructor
  · intro hsound rating haverages
    obtain ⟨hlocal, htotal⟩ := hsound.weights rating haverages
    have hdivisor := hsound.divisor rating haverages
    rw [htotal] at hdivisor
    rw [ulong_eq_self] at htotal
    have hsum : rating.successCount + rating.failureCount < 2 ^ 64 := ulong_eq_self.mp hlocal
    rw [hlocal] at hdivisor htotal
    exact ⟨hsum, Nat.pos_of_ne_zero hdivisor, htotal⟩
  · intro hfits
    have hlocal : ∀ rating, s.Averages minInteractions remote rating →
        localInteractions rating = rating.successCount + rating.failureCount :=
      fun rating haverages => ulong_eq_self.mpr (hfits rating haverages).1
    refine ⟨h.mergeEntry _ _ _, fun hremote merged hmerged => ?_, fun rating haverages => ?_,
      fun rating haverages => ?_⟩
    · unfold RatingEngine.mergeEntry at hmerged
      rw [if_neg (by omega)] at hmerged
      unfold RatingEngine.rating
      cases hfind : s.ratings.find remote.peerId with
      | none =>
        rw [hfind] at hmerged
        have hassign := (UMap.find_assign _ _ _ _).symm.trans hmerged
        rw [if_pos rfl] at hassign
        obtain rfl := Option.some.inj hassign
        refine clampScore_mem_uIcc ?_ Set.right_mem_uIcc
        show (kInitialScore : K) ∈ Set.Icc (0 : K) 1
        constructor <;> norm_num [kInitialScore]
      | some rating =>
        rw [hfind] at hmerged
        have hassign := (UMap.find_assign _ _ _ _).symm.trans hmerged
        rw [if_pos rfl] at hassign
        obtain rfl := Option.some.inj hassign
        have hrating := h _ _ hfind
        show (if localInteractions rating < minInteractions then _ else _) ∈ _
        split
        · exact clampScore_mem_uIcc hrating
            (mean_mem_uIcc (by norm_num) (by norm_num) (by norm_num))
        · next hlocally =>
          have haverages : s.Averages minInteractions remote rating :=
            ⟨hfind, hremote, by omega⟩
          obtain ⟨-, hpos, hlt⟩ := hfits rating haverages
          rw [← hlocal rating haverages] at hpos hlt
          exact averageScore_mem_uIcc hrating hpos hlt
    · obtain ⟨-, hpos, hlt⟩ := hfits rating haverages
      rw [← hlocal rating haverages] at hpos hlt
      rw [ulong_eq_self.mpr hlt]
      exact hpos.ne'
    · obtain ⟨-, -, hlt⟩ := hfits rating haverages
      rw [← hlocal rating haverages] at hlt
      exact ⟨hlocal rating haverages, ulong_eq_self.mpr hlt⟩

theorem InRange.alongEntries_iff (h : s.InRange) (minInteractions now : Nat)
    (remoteScores : List (ScoreEntry K)) :
    AlongEntries (fun s remote => s.EntrySound minInteractions now remote) minInteractions now s
        remoteScores ↔
      AlongEntries (fun s remote => s.EntryFits minInteractions remote) minInteractions now s
        remoteScores := by
  induction remoteScores generalizing s with
  | nil => exact Iff.rfl
  | cons remote remoteScores ih =>
    exact and_congr (h.entrySound_iff _ _ _) (ih (h.mergeEntry _ _ _))

theorem InRange.mergeRemoteScores (h : s.InRange) (remoteScores : List (ScoreEntry K))
    (minInteractions now : Nat) :
    (s.mergeRemoteScores remoteScores minInteractions now).InRange := by
  induction remoteScores generalizing s with
  | nil => exact h
  | cons remote remoteScores ih => exact ih (h.mergeEntry _ _ _)

theorem InRange.rate (h : s.InRange) (pow : K → K → K) (now : Nat) (event : RatingEvent)
    (profile : Option Nat) : (s.rate pow now event profile).2.InRange := by
  cases profile with
  | none => exact h
  | some peerId => exact h.assign (applyDelta_mem _ _ _ _ _)

omit [IsStrictOrderedRing K] in
theorem counts_applyDecay (pow : K → K → K) (now : Nat) (rating : PeerRating K) :
    (applyDecay pow now rating).successCount = rating.successCount ∧
      (applyDecay pow now rating).failureCount = rating.failureCount := by
  unfold applyDecay
  dsimp only
  split <;> exact ⟨rfl, rfl⟩

omit [IsStrictOrderedRing K] in
/-- The interactions are one more exactly when the counter is not at its maximum. -/
theorem counts_applyDelta_iff (pow : K → K → K) (now : Nat) (rating : PeerRating K) (delta : K)
    (isSuccess : Bool) :
    (applyDelta pow now rating delta isSuccess).successCount +
        (applyDelta pow now rating delta isSuccess).failureCount =
          rating.successCount + rating.failureCount + 1 ↔
      (if isSuccess then rating.successCount else rating.failureCount) + 1 < 2 ^ 64 := by
  obtain ⟨hsuccess, hfailure⟩ := counts_applyDecay pow now rating
  rw [← ulong_eq_self]
  unfold applyDelta
  cases isSuccess with
  | true =>
    simp only [if_true, hsuccess, hfailure]
    omega
  | false =>
    simp only [Bool.false_eq_true, if_false, hsuccess, hfailure]
    omega

theorem InRange.sound_iff {pow : K → K → K}
    (hpow : ∀ h, 0 < h → pow (1 - kDecayRatePerHr) h ∈ Set.Icc (0 : K) 1) (h : s.InRange)
    (input : RatingInput K) : Sound pow [] s input ↔ Fits [] s input := by
  cases input with
  | merge remoteScores minInteractions now => exact h.alongEntries_iff _ _ _
  | load entries now => exact iff_of_true (inRange_load now entries) trivial
  | rate event profile now =>
    refine (and_iff_right (h.rate pow now event profile)).trans
      (forall₂_congr fun peerId hprofile => ?_)
    subst hprofile
    refine (and_iff_right (applyDecay_mem hpow now (h.rating now peerId))).trans ?_
    have hfind : (s.rate pow now event (some peerId)).2.ratings.find peerId =
        some (applyDelta pow now (s.rating now peerId) (impact event).1 (impact (K := K) event).2.1) :=
      (UMap.find_assign _ _ _ _).trans (if_pos rfl)
    rw [hfind]
    simp only [Option.some.injEq, exists_eq_left']
    exact counts_applyDelta_iff _ _ _ _ _

theorem InRange.step (h : s.InRange) (pow : K → K → K) (input : RatingInput K) :
    ((machine pow).step s input).1.InRange := by
  cases input with
  | rate event profile now => exact h.rate pow now event profile
  | merge remoteScores minInteractions now => exact h.mergeRemoteScores _ _ _
  | load entries now => exact inRange_load now entries

omit [IsStrictOrderedRing K] in
theorem inRange_new : (new : RatingEngine K).InRange :=
  fun peerId _ hfind => nomatch (UMap.find_empty peerId).symm.trans hfind

theorem InRange.along_iff {pow : K → K → K}
    (hpow : ∀ h, 0 < h → pow (1 - kDecayRatePerHr) h ∈ Set.Icc (0 : K) 1) (h : s.InRange)
    (inputs : List (RatingInput K)) :
    (machine pow).Along (Sound pow) [] s inputs ↔ (machine pow).Along Fits [] s inputs :=
  Machine.along_congr (I := fun _ s => s.InRange) (fun _ _ input hI _ => hI.step pow input)
    (fun _ _ input hI => hI.sound_iff hpow input) h

end Ordered

/-! ## Exact reals -/

theorem rpow_decay_mem (h : ℝ) (hh : 0 < h) :
    (1 - kDecayRatePerHr : ℝ) ^ h ∈ Set.Icc (0 : ℝ) 1 := by
  have hbase : (0 : ℝ) ≤ 1 - kDecayRatePerHr ∧ (1 - kDecayRatePerHr : ℝ) ≤ 1 := by
    constructor <;> norm_num [kDecayRatePerHr]
  exact ⟨Real.rpow_nonneg hbase.1 h, Real.rpow_le_one hbase.1 hbase.2 hh.le⟩

/-- In every run each call is sound exactly when the counters it increments and adds fit. -/
theorem along_sound_iff_fits (inputs : List (RatingInput ℝ)) :
    (machine (· ^ ·)).Along (Sound (· ^ ·)) [] new inputs ↔
      (machine (· ^ ·)).Along Fits [] (new : RatingEngine ℝ) inputs :=
  inRange_new.along_iff rpow_decay_mem inputs

/-- A peer with ten interactions, about which another node says that it has had as many as a counter
can hold. -/
noncomputable def hugeRemote : List (RatingInput ℝ) :=
  [.load [(7, 1 / 2, 10, 0)] 0, .merge [⟨7, 1, 2 ^ 64 - 1⟩] 10 0]

/-- The total weight is nine. -/
theorem hugeRemote_not_sound :
    ¬ (machine (· ^ ·)).Along (Sound (· ^ ·)) [] (new : RatingEngine ℝ) hugeRemote := by
  rintro ⟨-, ⟨hsound, -⟩, -⟩
  have haverages : Averages (load 0 [(7, (1 / 2 : ℝ), 10, 0)]) 10 ⟨7, 1, 2 ^ 64 - 1⟩
      ⟨clampScore (1 / 2), 10, 0, 0⟩ := ⟨rfl, by norm_num, by decide⟩
  have htotal := (hsound.weights _ haverages).2
  exact absurd htotal (by decide)

end RatingEngine

end Alpine
