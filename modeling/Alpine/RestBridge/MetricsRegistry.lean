import Mathlib.Data.BitVec
import Alpine.Lib.Numerals
import Alpine.Lib.UMap

/-!
# The metrics of the bridge

Counters, gauges and histograms are kept by name, each in an unordered map whose order `serialize`
follows. A bucket counts what is at most its boundary, and the text is to say so (`Lawful`).

Recording already counts a value in every bucket that it is below, and printing adds the buckets
up once more. The text is right exactly if no value is at most the last boundary but one
(`exposed_iff`).
-/

namespace Alpine

open Lib

/-- A `double`; the sign of a zero is left out. -/
inductive Double where
  | nan
  | finite (x : ℚ)
  | infinite (negative : Bool)
  deriving DecidableEq

/-- `value <= boundary`. -/
def Double.atMost (value : Double) (boundary : ℚ) : Bool :=
  match value with
  | nan => false
  | finite x => x ≤ boundary
  | infinite negative => negative

theorem Double.atMost_mono {value : Double} {a b : ℚ} (hab : a ≤ b) (h : value.atMost a = true) :
    value.atMost b = true := by
  cases value with
  | nan => exact h
  | finite x =>
    exact decide_eq_true (le_trans (of_decide_eq_true (show decide (x ≤ a) = true from h)) hab)
  | infinite negative => exact h

/-- What the library makes of doubles. -/
structure DoubleOps where
  add : Double → Double → Double
  /-- As a fresh stream writes it. -/
  text : Double → List Char
  /-- With `std::fixed` and a precision of 1. -/
  fixed1 : Double → List Char

structure AtomicHistogram where
  /-- The last bucket is the one without a boundary. -/
  bucketCounts : List (BitVec 64)
  sum : Double
  count : BitVec 64

namespace AtomicHistogram

/-- The doubles closest to 0.005, 0.01, 0.025, 0.05, 0.1, 0.25, 0.5, 1, 2.5, 5 and 10. -/
def boundaries : List ℚ :=
  [5764607523034235 / 2 ^ 60, 5764607523034235 / 2 ^ 59, 7205759403792794 / 2 ^ 58,
    7205759403792794 / 2 ^ 57, 7205759403792794 / 2 ^ 56, 1 / 4, 1 / 2, 1, 5 / 2, 5, 10]

def new : AtomicHistogram where
  bucketCounts := List.replicate 12 0
  sum := .finite 0
  count := 0

/-- The loop over the buckets; the last one takes every value. -/
def countValue (value : Double) : List ℚ → List (BitVec 64) → List (BitVec 64)
  | boundary :: boundaries, c :: counts =>
    (if value.atMost boundary then c + 1 else c) :: countValue value boundaries counts
  | _, counts => counts.map (· + 1)

def record (ops : DoubleOps) (h : AtomicHistogram) (value : Double) : AtomicHistogram where
  bucketCounts := countValue value boundaries h.bucketCounts
  sum := ops.add h.sum value
  count := h.count + 1

def bucketLine (name label : List Char) (count : Int) : List Char :=
  name ++ "_bucket\x7ble=\"".toList ++ label ++ "\"\x7d ".toList ++ signed count ++ ['\n']

/-- The loop over the boundaries; what is left behind it is the last bucket. -/
def bucketText (name : List Char) (cumulative : BitVec 64) :
    List ℚ → List (BitVec 64) → List Char
  | boundary :: boundaries, c :: counts =>
    bucketLine name (fixed 3 boundary) (cumulative + c).toInt ++
      bucketText name (cumulative + c) boundaries counts
  | _, counts => counts.flatMap fun total => bucketLine name "+Inf".toList total.toInt

def histogramText (ops : DoubleOps) (name : List Char) (h : AtomicHistogram) : List Char :=
  "# TYPE ".toList ++ name ++ " histogram\n".toList ++
    bucketText name 0 boundaries h.bucketCounts ++ name ++ "_sum ".toList ++ ops.fixed1 h.sum ++
    ['\n'] ++ name ++ "_count ".toList ++ signed h.count.toInt ++ ['\n']

end AtomicHistogram

inductive MetricLabel where
  | httpRequestGet
  | httpRequestPost
  | httpRequestPut
  | httpRequestDelete
  | httpRequestOther
  | queryStarted
  | queryCompleted
  | queryFailed
  | peerConnected
  | peerDisconnected
  | rateLimited
  | webSocketOpened
  | webSocketClosed
  deriving DecidableEq

namespace MetricLabel

def all : List MetricLabel :=
  [httpRequestGet, httpRequestPost, httpRequestPut, httpRequestDelete, httpRequestOther,
    queryStarted, queryCompleted, queryFailed, peerConnected, peerDisconnected, rateLimited,
    webSocketOpened, webSocketClosed]

/-- `labelNames_s`. -/
def text : MetricLabel → List Char
  | httpRequestGet => "http_requests_total\x7bmethod=\"GET\"\x7d".toList
  | httpRequestPost => "http_requests_total\x7bmethod=\"POST\"\x7d".toList
  | httpRequestPut => "http_requests_total\x7bmethod=\"PUT\"\x7d".toList
  | httpRequestDelete => "http_requests_total\x7bmethod=\"DELETE\"\x7d".toList
  | httpRequestOther => "http_requests_total\x7bmethod=\"OTHER\"\x7d".toList
  | queryStarted => "queries_total\x7bstatus=\"started\"\x7d".toList
  | queryCompleted => "queries_total\x7bstatus=\"completed\"\x7d".toList
  | queryFailed => "queries_total\x7bstatus=\"failed\"\x7d".toList
  | peerConnected => "peers_total\x7bevent=\"connected\"\x7d".toList
  | peerDisconnected => "peers_total\x7bevent=\"disconnected\"\x7d".toList
  | rateLimited => "rate_limited_total\x7b\x7d".toList
  | webSocketOpened => "websocket_sessions_total\x7bevent=\"opened\"\x7d".toList
  | webSocketClosed => "websocket_sessions_total\x7bevent=\"closed\"\x7d".toList

end MetricLabel

structure MetricsRegistry where
  counters : UMap (List Char) (BitVec 64)
  gauges : UMap (List Char) Double
  labeledCounters : UMap (List Char) (BitVec 64)
  histograms : UMap (List Char) AtomicHistogram
  labelArray : MetricLabel → BitVec 64

/-- A call that records something. -/
inductive MetricCall where
  | incrementCounter (name : List Char) (delta : BitVec 64)
  | setGauge (name : List Char) (value : Double)
  | incrementLabeledCounter (name labels : List Char) (delta : BitVec 64)
  | incrementLabel (label : MetricLabel) (delta : BitVec 64)
  | recordHistogram (name : List Char) (value : Double)

/-- The value that a call records for a histogram. -/
def MetricCall.valueFor (name : List Char) : MetricCall → Option Double
  | recordHistogram name' value => if name' = name then some value else none
  | _ => none

namespace MetricsRegistry

def new : MetricsRegistry where
  counters := ∅
  gauges := ∅
  labeledCounters := ∅
  histograms := ∅
  labelArray := fun _ => 0

variable (ops : DoubleOps)

/-- What is not there is created first. -/
def call (s : MetricsRegistry) : MetricCall → MetricsRegistry
  | .incrementCounter name delta =>
    { s with counters := s.counters.assign name ((s.counters.find name).getD 0 + delta) }
  | .setGauge name value => { s with gauges := s.gauges.assign name value }
  | .incrementLabeledCounter name labels delta =>
    let key := name ++ "\x7b".toList ++ labels ++ "\x7d".toList
    { s with labeledCounters :=
        s.labeledCounters.assign key ((s.labeledCounters.find key).getD 0 + delta) }
  | .incrementLabel label delta =>
    { s with labelArray := Function.update s.labelArray label (s.labelArray label + delta) }
  | .recordHistogram name value =>
    { s with histograms :=
        s.histograms.assign name (((s.histograms.find name).getD .new).record ops value) }

def run (calls : List MetricCall) : MetricsRegistry := calls.foldl (call ops) new

def counterText (name : List Char) (value : BitVec 64) : List Char :=
  "# TYPE ".toList ++ name ++ " counter\n".toList ++ name ++ [' '] ++ signed value.toInt ++ ['\n']

def gaugeText (name : List Char) (value : Double) : List Char :=
  "# TYPE ".toList ++ name ++ " gauge\n".toList ++ name ++ [' '] ++ ops.text value ++ ['\n']

def labeledText (key : List Char) (value : BitVec 64) : List Char :=
  key ++ [' '] ++ signed value.toInt ++ ['\n']

def serialize (s : MetricsRegistry) : List Char :=
  (AList.entries s.counters).flatMap (fun e => counterText e.1 e.2) ++
    (AList.entries s.gauges).flatMap (fun e => gaugeText ops e.1 e.2) ++
    (AList.entries s.labeledCounters).flatMap (fun e => labeledText e.1 e.2) ++
    (AList.entries s.histograms).flatMap (fun e => e.2.histogramText ops e.1) ++
    MetricLabel.all.flatMap fun label =>
      if s.labelArray label ≠ 0 then labeledText label.text (s.labelArray label) else []

end MetricsRegistry

/-!
## What the text of a histogram says

Between calls the buckets hold what `Counts` says, whatever calls for other metrics there are in
between. The text is `exposition` with the sums of these counts (`histogramText_eq`), and its
numbers can be read back from it (`exposition_inj`), so that it says one thing only.
-/

namespace AtomicHistogram

/-- How many values a bucket is to count. -/
def below (values : List Double) (boundary : ℚ) : Nat := values.countP fun v => v.atMost boundary

theorem below_mono (values : List Double) {a b : ℚ} (hab : a ≤ b) :
    below values a ≤ below values b :=
  List.countP_mono_left fun _ _ h => Double.atMost_mono hab h

theorem below_concat (values : List Double) (v : Double) (b : ℚ) :
    below (values ++ [v]) b = below values b + if v.atMost b then 1 else 0 := by
  simp [below, List.countP_singleton]

/-- The lines of the buckets with a boundary. -/
def bucketLines (name : List Char) (boundaries : List ℚ) (counts : List Int) : List Char :=
  (boundaries.zip counts).flatMap fun e => bucketLine name (fixed 3 e.1) e.2

/-- The text of a histogram with these numbers. -/
def exposition (name : List Char) (counts : List Int) (total : Int) (sum : List Char)
    (count : Int) : List Char :=
  "# TYPE ".toList ++ name ++ " histogram\n".toList ++ bucketLines name boundaries counts ++
    bucketLine name "+Inf".toList total ++ name ++ "_sum ".toList ++ sum ++ ['\n'] ++
    name ++ "_count ".toList ++ signed count ++ ['\n']

/-- What the text of a histogram is to say of the values recorded. -/
structure Says (values : List Double) (counts : List Int) (total count : Int) : Prop where
  counts_eq : counts = boundaries.map fun b => (below values b : Int)
  mono : counts.Pairwise (· ≤ ·)
  le_total : ∀ c ∈ counts, c ≤ total
  total_eq : total = count

def Lawful (name : List Char) (values : List Double) (text : List Char) : Prop :=
  ∃ counts total sum count, text = exposition name counts total sum count ∧
    Says values counts total count

/-- What the buckets hold. -/
structure Counts (values : List Double) (h : AtomicHistogram) : Prop where
  buckets : h.bucketCounts =
    (boundaries.map fun b => BitVec.ofNat 64 (below values b)) ++ [BitVec.ofNat 64 values.length]
  count : h.count = BitVec.ofNat 64 values.length

theorem counts_new : Counts [] new := ⟨rfl, rfl⟩

theorem countValue_map (v : Double) (bs : List ℚ) (f : ℚ → BitVec 64) (total : BitVec 64) :
    countValue v bs (bs.map f ++ [total]) =
      (bs.map fun b => if v.atMost b then f b + 1 else f b) ++ [total + 1] := by
  induction bs with
  | nil => rfl
  | cons b bs ih =>
    rw [List.map_cons, List.cons_append, countValue, ih]
    rfl

theorem Counts.record {values : List Double} {h : AtomicHistogram} (hc : Counts values h)
    (ops : DoubleOps) (v : Double) : Counts (values ++ [v]) (h.record ops v) := by
  refine ⟨?_, ?_⟩
  · show countValue v boundaries h.bucketCounts = _
    rw [hc.buckets, countValue_map]
    refine congrArg₂ _ (List.map_congr_left fun b _ => ?_) ?_
    · rw [below_concat]
      split
      · exact (BitVec.ofNat_add _ _).symm
      · rfl
    · rw [List.length_append, BitVec.ofNat_add]
      rfl
  · show h.count + 1 = _
    rw [hc.count, List.length_append, BitVec.ofNat_add]
    rfl

/-! ### The numbers of the text -/

theorem bucketText_eq (name : List Char) (sum total : BitVec 64) {bs : List ℚ}
    {cs : List (BitVec 64)} (hlen : cs.length = bs.length) :
    bucketText name sum bs (cs ++ [total]) =
      bucketLines name bs ((partialSums sum cs).map BitVec.toInt) ++
        bucketLine name "+Inf".toList total.toInt := by
  induction bs generalizing sum cs with
  | nil =>
    obtain rfl := List.length_eq_zero_iff.mp hlen
    exact List.append_nil _
  | cons b bs ih =>
    cases cs with
    | nil => cases hlen
    | cons c cs =>
      rw [List.cons_append, bucketText, ih _ (Nat.succ.inj hlen)]
      exact (List.append_assoc ..).symm

theorem histogramText_eq (ops : DoubleOps) (name : List Char) {values : List Double}
    {h : AtomicHistogram} (hc : Counts values h) :
    h.histogramText ops name = exposition name
      ((partialSums 0 (boundaries.map fun b => BitVec.ofNat 64 (below values b))).map BitVec.toInt)
      (BitVec.ofNat 64 values.length).toInt (ops.fixed1 h.sum)
      (BitVec.ofNat 64 values.length).toInt := by
  unfold histogramText exposition
  rw [hc.buckets, bucketText_eq name 0 _ (List.length_map _), hc.count]
  simp only [List.append_assoc]

theorem bucketLine_append_inj {name label s t : List Char} {m n : Int}
    (h : bucketLine name label m ++ s = bucketLine name label n ++ t) : m = n ∧ s = t := by
  unfold bucketLine at h
  have hassoc : ∀ (number rest : List Char),
      name ++ "_bucket\x7ble=\"".toList ++ label ++ "\"\x7d ".toList ++ number ++ ['\n'] ++ rest =
        name ++ "_bucket\x7ble=\"".toList ++ label ++ "\"\x7d ".toList ++
          (number ++ '\n' :: rest) := fun number rest => by
    rw [List.append_assoc, List.append_assoc]
    rfl
  rw [hassoc, hassoc] at h
  exact signed_append_inj (by decide) (by decide) (List.append_cancel_left h)

theorem bucketLines_append_inj {name : List Char} {bs : List ℚ} {cs ds : List Int} {s t : List Char}
    (hcs : cs.length = bs.length) (hds : ds.length = bs.length)
    (h : bucketLines name bs cs ++ s = bucketLines name bs ds ++ t) : cs = ds ∧ s = t := by
  induction bs generalizing cs ds with
  | nil =>
    obtain rfl := List.length_eq_zero_iff.mp hcs
    obtain rfl := List.length_eq_zero_iff.mp hds
    exact ⟨rfl, h⟩
  | cons b bs ih =>
    cases cs with
    | nil => cases hcs
    | cons c cs =>
      cases ds with
      | nil => cases hds
      | cons d ds =>
        have hlines : ∀ e es, bucketLines name (b :: bs) (e :: es) =
            bucketLine name (fixed 3 b) e ++ bucketLines name bs es := fun _ _ => rfl
        rw [hlines, hlines, List.append_assoc, List.append_assoc] at h
        obtain ⟨rfl, hrest⟩ := bucketLine_append_inj h
        obtain ⟨rfl, hst⟩ := ih (Nat.succ.inj hcs) (Nat.succ.inj hds) hrest
        exact ⟨rfl, hst⟩

/-- The numbers are read back from the text. -/
theorem exposition_inj {name sum sum' : List Char} {cs ds : List Int}
    {total total' count count' : Int}
    (hcs : cs.length = boundaries.length) (hds : ds.length = boundaries.length)
    (h : exposition name cs total sum count = exposition name ds total' sum' count') :
    cs = ds ∧ total = total' ∧ count = count' := by
  have hback : count = count' := by
    unfold exposition at h
    have hcount : "_count ".toList = "_count".toList ++ [' '] := rfl
    rw [hcount, ← List.append_assoc _ "_count".toList, ← List.append_assoc _ "_count".toList,
      List.append_assoc _ [' '], List.append_assoc _ [' ']] at h
    exact append_signed_inj (by decide) (by decide) (List.append_cancel_right h)
  have hfront : cs = ds ∧ total = total' := by
    unfold exposition at h
    simp only [List.append_assoc] at h
    replace h := List.append_cancel_left (List.append_cancel_left (List.append_cancel_left h))
    obtain ⟨rfl, hrest⟩ := bucketLines_append_inj hcs hds h
    exact ⟨rfl, (bucketLine_append_inj hrest).1⟩
  exact ⟨hfront.1, hfront.2, hback⟩

/-! ### When the text is right -/

theorem toInt_ofNat_of_lt {n : Nat} (h : n < 2 ^ 63) : (BitVec.ofNat 64 n).toInt = n := by
  have hnat : (BitVec.ofNat 64 n).toNat = n := Nat.mod_eq_of_lt (by omega)
  rw [BitVec.toInt_eq_toNat_of_lt (by omega), hnat]

theorem boundaries_sorted : boundaries.Pairwise (· ≤ ·) ∧ 5 ∈ boundaries.dropLast ∧
    (∀ b ∈ boundaries.dropLast, b ≤ 5) ∧ 10 ∈ boundaries ∧ ∀ b ∈ boundaries, b ≤ 10 := by
  decide +kernel

/-- The sums of the counts are the counts themselves exactly if only the last one is not zero. -/
theorem sums_eq_iff {values : List Double} (hfit : below values 10 < 2 ^ 63) :
    (partialSums 0 (boundaries.map fun b => BitVec.ofNat 64 (below values b))).map BitVec.toInt =
      (boundaries.map fun b => (below values b : Int)) ↔ below values 5 = 0 := by
  obtain ⟨-, hfive, hfront, -, hten⟩ := boundaries_sorted
  have hlt : ∀ b ∈ boundaries, below values b < 2 ^ 63 := fun b hb =>
    Nat.lt_of_le_of_lt (below_mono values (hten b hb)) hfit
  have hcounts : (boundaries.map fun b => (below values b : Int)) =
      (boundaries.map fun b => BitVec.ofNat 64 (below values b)).map BitVec.toInt := by
    rw [List.map_map]
    exact List.map_congr_left fun b hb => (toInt_ofNat_of_lt (hlt b hb)).symm
  have hinj : Function.Injective (BitVec.toInt : BitVec 64 → Int) := fun _ _ h =>
    BitVec.eq_of_toInt_eq h
  rw [hcounts, (List.map_injective_iff.mpr hinj).eq_iff, partialSums_eq_self (by simp [boundaries])]
  constructor
  · rintro ⟨-, hzero⟩
    have h5 : BitVec.ofNat 64 (below values 5) = 0 :=
      hzero _ (by rw [← List.map_dropLast]; exact List.mem_map_of_mem hfive)
    have hvalue := toInt_ofNat_of_lt (hlt 5 (List.mem_of_mem_dropLast hfive))
    rw [h5] at hvalue
    exact Int.ofNat.inj hvalue.symm
  · intro h5
    refine ⟨rfl, fun x hx => ?_⟩
    rw [← List.map_dropLast, List.mem_map] at hx
    obtain ⟨b, hb, rfl⟩ := hx
    have hle := below_mono values (hfront b hb)
    rw [h5] at hle
    rw [Nat.le_zero.mp hle]
    rfl

theorem lawful_histogramText (ops : DoubleOps) (name : List Char) {values : List Double}
    {h : AtomicHistogram} (hc : Counts values h) :
    Lawful name values (h.histogramText ops name) ↔
      below values 5 = 0 ∧ (below values 10 : Int) ≤ (BitVec.ofNat 64 values.length).toInt := by
  rw [histogramText_eq ops name hc]
  have hbound := BitVec.toInt_lt (x := BitVec.ofNat 64 values.length)
  obtain ⟨hsorted, -, -, htenMem, hten⟩ := boundaries_sorted
  constructor
  · rintro ⟨counts, total, sum, count, htext, hshown⟩
    have hlen : counts.length = boundaries.length := by rw [hshown.counts_eq, List.length_map]
    obtain ⟨hcounts, rfl, -⟩ := exposition_inj
      (by rw [List.length_map, length_partialSums, List.length_map]) hlen htext
    have hle : (below values 10 : Int) ≤ (BitVec.ofNat 64 values.length).toInt :=
      hshown.le_total _ (by
        rw [hshown.counts_eq]
        exact List.mem_map_of_mem (f := fun b => (below values b : Int)) htenMem)
    exact ⟨(sums_eq_iff (by omega)).mp (hcounts.trans hshown.counts_eq), hle⟩
  · rintro ⟨h5, hle⟩
    refine ⟨_, _, _, _, rfl, (sums_eq_iff (by omega)).mpr h5, ?_, ?_, rfl⟩
    · rw [(sums_eq_iff (by omega)).mpr h5]
      exact List.pairwise_map.mpr
        (hsorted.imp fun hab => Int.ofNat_le.mpr (below_mono values hab))
    · rw [(sums_eq_iff (by omega)).mpr h5]
      intro c hmem
      obtain ⟨b, hb, rfl⟩ := List.mem_map.mp hmem
      have := below_mono values (hten b hb)
      omega

end AtomicHistogram

namespace MetricsRegistry

open AtomicHistogram

/-- The values that calls record for a histogram. -/
def recorded (name : List Char) (calls : List MetricCall) : List Double :=
  calls.filterMap (MetricCall.valueFor name)

variable (ops : DoubleOps)

theorem run_concat (calls : List MetricCall) (c : MetricCall) :
    run ops (calls ++ [c]) = call ops (run ops calls) c := by
  rw [run, List.foldl_append]
  rfl

theorem recorded_concat (name : List Char) (calls : List MetricCall) (c : MetricCall) :
    recorded name (calls ++ [c]) = recorded name calls ++ (c.valueFor name).toList := by
  unfold recorded
  rw [List.filterMap_append]
  cases h : c.valueFor name <;> simp [h]

/-- A histogram holds what was recorded under its name, and is there if something was. -/
theorem counts_run (calls : List MetricCall) (name : List Char) :
    Counts (recorded name calls) (((run ops calls).histograms.find name).getD .new) ∧
      (((run ops calls).histograms.find name).isSome ↔ recorded name calls ≠ []) := by
  induction calls using List.reverseRecOn with
  | nil => exact ⟨counts_new, by simp [run, new, recorded]⟩
  | append_singleton calls c ih =>
    rw [run_concat, recorded_concat]
    cases c with
    | recordHistogram name' value =>
      dsimp only [call, MetricCall.valueFor]
      rw [UMap.find_assign]
      by_cases hname : name' = name
      · subst hname
        rw [if_pos rfl, if_pos rfl]
        exact ⟨ih.1.record ops value, by simp⟩
      · rw [if_neg hname, if_neg fun h => hname h.symm, Option.toList_none, List.append_nil]
        exact ih
    | _ =>
      dsimp only [call, MetricCall.valueFor, Option.toList_none]
      rw [List.append_nil]
      exact ih

theorem serialize_histogram (s : MetricsRegistry) {name : List Char} {h : AtomicHistogram}
    (hfind : s.histograms.find name = some h) :
    ∃ before after, serialize ops s = before ++ h.histogramText ops name ++ after := by
  obtain ⟨front, back, hentries⟩ := List.append_of_mem (UMap.mem_entries.mpr hfind)
  unfold serialize
  rw [hentries, List.flatMap_append, List.flatMap_cons]
  have hcut : ∀ a b t c d : List Char, ∃ before after,
      a ++ (b ++ (t ++ c)) ++ d = before ++ t ++ after := fun a b t c d =>
    ⟨a ++ b, c ++ d, by simp only [List.append_assoc]⟩
  exact hcut ..

/-- The text has a section for each histogram, which is lawful exactly if no value is at most 5 and
the number of values fits what is printed. -/
theorem exposed_iff (calls : List MetricCall) (name : List Char)
    (hrecorded : recorded name calls ≠ []) :
    ∃ h before after, (run ops calls).histograms.find name = some h ∧
      serialize ops (run ops calls) = before ++ h.histogramText ops name ++ after ∧
      (Lawful name (recorded name calls) (h.histogramText ops name) ↔
        (∀ v ∈ recorded name calls, v.atMost 5 = false) ∧
          ((recorded name calls).countP (·.atMost 10) : Int) ≤
            (BitVec.ofNat 64 (recorded name calls).length).toInt) := by
  obtain ⟨hcounts, hsome⟩ := counts_run ops calls name
  obtain ⟨h, hfind⟩ := Option.isSome_iff_exists.mp (hsome.mpr hrecorded)
  obtain ⟨before, after, htext⟩ := serialize_histogram ops (run ops calls) hfind
  rw [hfind] at hcounts
  refine ⟨h, before, after, hfind, htext, (lawful_histogramText ops name hcounts).trans ?_⟩
  refine and_congr_left' ?_
  unfold below
  rw [List.countP_eq_zero]
  exact forall₂_congr fun v _ => Bool.not_eq_true _ ▸ Iff.rfl

/-- Doubles whose sums need no rounding. -/
def wholeOps : DoubleOps where
  add
    | .finite x, .finite y => .finite (x + y)
    | _, _ => .nan
  text
    | .finite x => signed x.num
    | _ => "nan".toList
  fixed1
    | .finite x => fixed 1 x
    | _ => "nan".toList

def secondCalls : List MetricCall := [.recordHistogram "latency".toList (.finite 1)]

theorem exposed_second : recorded "latency".toList secondCalls ≠ [] ∧
    ∃ h before after, (run wholeOps secondCalls).histograms.find "latency".toList = some h ∧
      serialize wholeOps (run wholeOps secondCalls) =
        before ++ h.histogramText wholeOps "latency".toList ++ after ∧
      (Lawful "latency".toList (recorded "latency".toList secondCalls)
          (h.histogramText wholeOps "latency".toList) ↔
        (∀ v ∈ recorded "latency".toList secondCalls, v.atMost 5 = false) ∧
          ((recorded "latency".toList secondCalls).countP (·.atMost 10) : Int) ≤
            (BitVec.ofNat 64 (recorded "latency".toList secondCalls).length).toInt) :=
  ⟨List.cons_ne_nil _ _, exposed_iff wholeOps secondCalls "latency".toList (List.cons_ne_nil _ _)⟩

/-- One second is counted in four buckets, and printed as 1, 2, 3 and 4. -/
theorem second_not_lawful : ¬ Lawful "latency".toList [.finite 1]
    ((((run wholeOps secondCalls).histograms.find "latency".toList).getD .new).histogramText
      wholeOps "latency".toList) := by
  intro h
  have hcounts := (counts_run wholeOps secondCalls "latency".toList).1
  have h5 := ((lawful_histogramText wholeOps "latency".toList hcounts).mp h).1
  revert h5
  decide +kernel

end MetricsRegistry

end Alpine
