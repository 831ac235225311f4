import Alpine.RestBridge.MediaStreamer

/-!
# Ranges that are served as asked for

A file without bytes is served for every header. For another the answer is what is asked for if and
only if `parseRange` has the range that is asked for, or has refused the header and left the bounds
of the whole file, and that is so for the headers that fit
(`right_iff_fits`).
-/

namespace Alpine

open Lib HttpRequest

namespace MediaStreamer

theorem subUlong_of_le {a b : Nat} (h : b ≤ a) (ha : a < 2 ^ 64) : subUlong a b = a - b := by
  unfold subUlong
  omega

/-- The length of a range in order. -/
theorem length_of_le {start stop : Nat} (h : start ≤ stop) (hstop : stop < 2 ^ 64) :
    addUlong (subUlong stop start) 1 = (stop - start + 1) % 2 ^ 64 := by
  rw [subUlong_of_le h hstop, addUlong]

/-! ## Sending -/

theorem sendAllBytes_of_ok {takes : List Nat} {data : List UInt8}
    (h : (sendAllBytes takes data).1 = true) : (sendAllBytes takes data).2.1 = data := by
  fun_induction sendAllBytes takes data with
  | case1 takes => rfl
  | case2 b data => cases h
  | case3 takes b data => cases h
  | case4 n takes b data ok sent rest hrest ih =>
    rw [hrest] at ih
    dsimp only at h ih ⊢
    rw [ih h, List.cons_append, List.take_append_drop]

/-- One call takes it all. -/
theorem sendAllBytes_cons {n : Nat} {data : List UInt8} (takes : List Nat) (hpos : data ≠ [])
    (hlength : data.length ≤ n) : sendAllBytes (n :: takes) data = (true, data, takes) := by
  cases data with
  | nil => exact absurd rfl hpos
  | cons b data =>
    cases n with
    | zero => cases hlength
    | succ n =>
      have hrest : data.length ≤ n := Nat.le_of_succ_le_succ hlength
      rw [sendAllBytes, List.drop_of_length_le hrest, List.take_of_length_le hrest]
      cases takes <;> simp [sendAllBytes]

theorem take_append_take_drop {m remaining : Nat} {contents : List UInt8} (h : m ≤ remaining) :
    contents.take m ++ (contents.drop m).take (remaining - (contents.take m).length) =
      contents.take remaining := by
  by_cases hm : m ≤ contents.length
  · rw [List.length_take, Nat.min_eq_left hm, ← List.take_add, Nat.add_sub_cancel' h]
  · have hle : contents.length ≤ m := by omega
    rw [List.drop_of_length_le hle, List.take_nil, List.append_nil, List.take_of_length_le hle,
      List.take_of_length_le (by omega)]

theorem min_sendBuffer (remaining : Nat) :
    (if remaining < SEND_BUFFER_SIZE then remaining else SEND_BUFFER_SIZE) =
      min remaining SEND_BUFFER_SIZE := by
  split <;> omega

/-- What is written if no call fails. -/
theorem sendContents_of_ok {takes : List Nat} {remaining : Nat} {contents : List UInt8}
    (h : (sendContents takes remaining contents).1 = true) :
    (sendContents takes remaining contents).2 = contents.take remaining := by
  induction hlength : contents.length using Nat.strongRecOn
    generalizing takes remaining contents with
  | _ length ih =>
    rw [sendContents, min_sendBuffer] at h ⊢
    by_cases hzero : remaining = 0
    · rw [if_pos hzero, hzero, List.take_zero]
    · rw [if_neg hzero] at h ⊢
      dsimp only at h ⊢
      have hpos : 0 < min remaining SEND_BUFFER_SIZE := by unfold SEND_BUFFER_SIZE; omega
      by_cases hempty : contents.take (min remaining SEND_BUFFER_SIZE) = []
      · have hcontents : contents = [] :=
          (List.take_eq_nil_iff.mp hempty).resolve_left (Nat.ne_of_gt hpos)
        rw [dif_pos hempty, hcontents, List.take_nil]
      · rw [dif_neg hempty] at h ⊢
        cases hok : (sendAllBytes takes (contents.take (min remaining SEND_BUFFER_SIZE))).1 with
        | false =>
          rw [hok] at h
          cases h
        | true =>
          have hsent := sendAllBytes_of_ok hok
          rw [hok, if_pos rfl] at h
          rw [if_pos rfl]
          have htake : 0 < (contents.take (min remaining SEND_BUFFER_SIZE)).length :=
            List.length_pos_iff.mpr hempty
          have hdrop : (contents.drop (min remaining SEND_BUFFER_SIZE)).length < length := by
            rw [List.length_take] at htake
            rw [List.length_drop]
            omega
          dsimp only
          rw [ih _ hdrop h rfl, hsent, take_append_take_drop (Nat.min_le_left ..)]

/-- With calls that take what the buffer has, none fails. -/
theorem sendContents_replicate {k remaining : Nat} {contents : List UInt8}
    (hk : contents.length ≤ k) :
    (sendContents (List.replicate k SEND_BUFFER_SIZE) remaining contents).1 = true := by
  induction k generalizing remaining contents with
  | zero =>
    have hcontents : contents = [] := List.eq_nil_of_length_eq_zero (Nat.le_zero.mp hk)
    rw [sendContents]
    simp [hcontents]
  | succ k ih =>
    rw [sendContents, min_sendBuffer]
    by_cases hzero : remaining = 0
    · rw [if_pos hzero]
    · rw [if_neg hzero]
      dsimp only
      by_cases hempty : contents.take (min remaining SEND_BUFFER_SIZE) = []
      · rw [dif_pos hempty]
      · have hpos : 0 < min remaining SEND_BUFFER_SIZE := by unfold SEND_BUFFER_SIZE; omega
        have hlength : (contents.take (min remaining SEND_BUFFER_SIZE)).length ≤
            SEND_BUFFER_SIZE := by
          rw [List.length_take]
          omega
        rw [dif_neg hempty, List.replicate_succ, sendAllBytes_cons _ hempty hlength]
        dsimp only
        rw [if_pos rfl]
        exact ih (by rw [List.length_drop]; omega)

/-! ## Headers -/

theorem parseUlong_some {s : List UInt8} {n : Nat} (h : parseUlong s = some n) :
    RangeForm.number s = some n := by
  unfold parseUlong at h
  unfold RangeForm.number
  split at h
  · cases h
  · next hdigits =>
    rw [if_neg hdigits]
    dsimp only at h
    split at h
    · exact h
    · cases h

theorem parseUlong_none {s : List UInt8} {n : Nat} (h : parseUlong s = none)
    (hn : RangeForm.number s = some n) : 2 ^ 64 ≤ n := by
  unfold RangeForm.number at hn
  split at hn
  · cases hn
  · next hdigits =>
    unfold parseUlong at h
    rw [if_neg hdigits] at h
    dsimp only at h
    split at h
    · cases h
    · next hlarge =>
      cases hn
      exact Nat.le_of_not_lt hlarge

/-- A refused header leaves bounds that are those of the whole file. -/
def AllOf (fileSize : Nat) (range : Bool × Nat × Nat) : Prop :=
  range.1 = false ∧ seek range.2.1 = 0 ∧ range.2.2 + 1 = range.2.1 + fileSize

/-- What `parseRange` is to leave for a header. -/
def Right (fileSize : Nat) (demand : RangeDemand) (range : Bool × Nat × Nat) : Prop :=
  range.2.1 ≤ range.2.2 ∧
    match demand with
    | .whole => AllOf fileSize range
    | .part start stop => range = (true, start, stop)
    | .unsatisfiable => range.1 = false → AllOf fileSize range

/-- The demand of two bounds. -/
def demandBounds (fileSize : Nat) (bytes : Bool) (first last : List UInt8) : RangeDemand :=
  (if bytes then RangeForm.ofBounds first last else none).elim .whole (·.demand fileSize)

theorem demandBounds_eq {fileSize : Nat} {first last : List UInt8} {form : Option RangeForm}
    (h : RangeForm.ofBounds first last = form) :
    demandBounds fileSize true first last = form.elim .whole (·.demand fileSize) := by
  rw [demandBounds, if_pos rfl, h]

theorem not_right_other {range : Bool × Nat × Nat} {first last : List UInt8}
    (h : range.1 = true) : ¬ Right fileSize (demandBounds fileSize false first last) range := by
  rintro ⟨-, hall, -⟩
  rw [h] at hall
  cases hall

section Bounds

variable {fileSize : Nat} (h0 : fileSize ≠ 0)
include h0

theorem allOf_start {start : Nat} :
    AllOf fileSize (false, start, fileSize - 1) ↔ start = 0 := by
  unfold AllOf seek
  dsimp only
  constructor
  · rintro ⟨-, hseek, hstop⟩
    omega
  · rintro rfl
    exact ⟨rfl, rfl, by omega⟩

/-- A header that is refused, with nothing left of it. -/
theorem right_refused (bytes : Bool) {first last : List UInt8} :
    Right fileSize (demandBounds fileSize bytes first last) (false, 0, fileSize - 1) ↔
      (bytes → ∀ form, RangeForm.ofBounds first last = some form →
        ∀ start stop, form.demand fileSize ≠ .part start stop) := by
  have hall : AllOf fileSize (false, 0, fileSize - 1) := (allOf_start h0).mpr rfl
  cases bytes with
  | false => exact iff_of_true ⟨Nat.zero_le _, hall⟩ nofun
  | true =>
    cases hform : RangeForm.ofBounds first last with
    | none =>
      rw [demandBounds_eq hform]
      exact iff_of_true ⟨Nat.zero_le _, hall⟩ fun _ _ h => nomatch h
    | some form =>
      rw [demandBounds_eq hform, Option.elim_some]
      cases hdemand : form.demand fileSize with
      | whole => simp [Right, hdemand, hall]
      | part start stop => simp [Right, hdemand]
      | unsatisfiable => simp [Right, hdemand, hall]

theorem right_suffix (bytes : Bool) {last : List UInt8} {suffix : Nat}
    (hlast : parseUlong last = some suffix) :
    Right fileSize (demandBounds fileSize bytes [] last)
      (true, fileSize - min suffix fileSize, fileSize - 1) ↔ bytes ∧ suffix ≠ 0 := by
  cases bytes with
  | false => exact iff_of_false (not_right_other rfl) nofun
  | true =>
    have hform : RangeForm.ofBounds [] last = some (.suffix suffix) := by
      rw [RangeForm.ofBounds, if_pos rfl, parseUlong_some hlast]
      rfl
    rw [demandBounds_eq hform, Option.elim_some, RangeForm.demand]
    by_cases hzero : suffix = 0
    · rw [if_neg (by omega)]
      refine iff_of_false (fun h => ?_) fun h => h.2 hzero
      have hle := h.1
      dsimp only at hle
      omega
    · rw [if_pos ⟨Nat.pos_of_ne_zero hzero, Nat.pos_of_ne_zero h0⟩]
      exact iff_of_true ⟨by dsimp only; omega, rfl⟩ ⟨rfl, hzero⟩

theorem right_onwards (bytes : Bool) {first : List UInt8} {start : Nat} (hne : first ≠ [])
    (hfirst : parseUlong first = some start) :
    Right fileSize (demandBounds fileSize bytes first [])
      (if start ≥ fileSize then (false, start, fileSize - 1) else (true, start, fileSize - 1)) ↔
      bytes ∧ start < fileSize := by
  by_cases hge : start ≥ fileSize
  · rw [if_pos hge]
    refine iff_of_false (fun h => ?_) (by omega)
    have hle := h.1
    dsimp only at hle
    omega
  · rw [if_neg hge]
    cases bytes with
    | false => exact iff_of_false (not_right_other rfl) nofun
    | true =>
      have hform : RangeForm.ofBounds first [] = some (.onwards start) := by
        rw [RangeForm.ofBounds, if_neg hne, parseUlong_some hfirst, Option.bind_some, if_pos rfl]
      rw [demandBounds_eq hform, Option.elim_some, RangeForm.demand, if_pos (by omega)]
      exact iff_of_true ⟨by dsimp only; omega, rfl⟩ ⟨rfl, by omega⟩

theorem right_bounded (h63 : fileSize < 2 ^ 63) (bytes : Bool) {first last : List UInt8}
    {start stop : Nat} (hne : first ≠ []) (hlne : last ≠ [])
    (hfirst : parseUlong first = some start) (hlast : parseUlong last = some stop) :
    Right fileSize (demandBounds fileSize bytes first last)
      (if start ≥ fileSize then (false, start, stop)
        else (true, start, min stop (fileSize - 1))) ↔
      (bytes ∧ start < fileSize ∧ start ≤ stop) ∨
        (2 ^ 63 ≤ start ∧ stop + 1 = start + fileSize) := by
  have hform : RangeForm.ofBounds first last = some (.bounded start stop) := by
    rw [RangeForm.ofBounds, if_neg hne, parseUlong_some hfirst, Option.bind_some, if_neg hlne,
      parseUlong_some hlast]
    rfl
  by_cases hge : start ≥ fileSize
  · rw [if_pos hge]
    have hall : AllOf fileSize (false, start, stop) ↔
        2 ^ 63 ≤ start ∧ stop + 1 = start + fileSize := by
      unfold AllOf seek
      dsimp only
      constructor
      · rintro ⟨-, hseek, hstop⟩
        split at hseek <;> omega
      · rintro ⟨hlarge, hstop⟩
        exact ⟨rfl, if_neg (by omega), hstop⟩
    rw [or_iff_right (by omega), ← hall]
    cases bytes with
    | false =>
      constructor
      · exact And.right
      · intro h
        exact ⟨by have := h.2.2; dsimp only at this ⊢; omega, h⟩
    | true =>
      rw [demandBounds_eq hform, Option.elim_some, RangeForm.demand, if_neg (by omega)]
      constructor
      · exact fun h => h.2 rfl
      · intro h
        exact ⟨by have := h.2.2; dsimp only at this ⊢; omega, fun _ => h⟩
  · rw [if_neg hge, or_iff_left (by omega)]
    cases bytes with
    | false => exact iff_of_false (not_right_other rfl) nofun
    | true =>
      rw [demandBounds_eq hform, Option.elim_some, RangeForm.demand]
      by_cases hle : start ≤ stop
      · rw [if_pos ⟨hle, by omega⟩]
        exact iff_of_true ⟨by dsimp only; omega, rfl⟩ ⟨rfl, by omega, hle⟩
      · rw [if_neg (by omega)]
        refine iff_of_false (fun h => ?_) (by omega)
        have hle' := h.1
        dsimp only at hle'
        omega

/-- The first number is left in `start` by a header that is refused for the second. -/
theorem right_leftover (h63 : fileSize < 2 ^ 63) (bytes : Bool) {first last : List UInt8}
    {start : Nat} (hne : first ≠ []) (hlne : last ≠ []) (hfirst : parseUlong first = some start)
    (hlast : parseUlong last = none) :
    Right fileSize (demandBounds fileSize bytes first last) (false, start, fileSize - 1) ↔
      start = 0 ∧ (bytes → RangeForm.number last = none) := by
  have hform : RangeForm.ofBounds first last =
      (RangeForm.number last).map (RangeForm.bounded start) := by
    rw [RangeForm.ofBounds, if_neg hne, parseUlong_some hfirst, Option.bind_some, if_neg hlne]
  have hwhole : (start ≤ fileSize - 1 ∧ AllOf fileSize (false, start, fileSize - 1)) ↔
      start = 0 := by
    rw [allOf_start h0]
    omega
  cases bytes with
  | false =>
    rw [and_iff_left nofun]
    exact hwhole
  | true =>
    cases hnumber : RangeForm.number last with
    | none =>
      rw [hnumber, Option.map_none] at hform
      rw [demandBounds_eq hform, and_iff_left fun _ => rfl]
      exact hwhole
    | some stop =>
      have hstop := parseUlong_none hlast hnumber
      rw [hnumber, Option.map_some] at hform
      rw [demandBounds_eq hform, Option.elim_some]
      refine iff_of_false (fun h => ?_) (fun h => by cases h.2 rfl)
      have hle := h.1
      dsimp only at hle
      rw [RangeForm.demand, if_pos (by omega)] at h
      cases h.2

theorem right_bounds (h63 : fileSize < 2 ^ 63) (bytes : Bool) (first last : List UInt8) :
    Right fileSize (demandBounds fileSize bytes first last)
        (parseBounds fileSize 0 (fileSize - 1) first last) ↔
      FitsBounds fileSize bytes first last := by
  have hone : subUlong fileSize 1 = fileSize - 1 := subUlong_of_le (by omega) (by omega)
  have hmin : ∀ stop, (if stop ≥ fileSize then fileSize - 1 else stop) = min stop (fileSize - 1) :=
    fun stop => by split <;> omega
  unfold parseBounds FitsBounds
  rw [hone]
  by_cases hfirst : first = []
  · rw [if_pos hfirst, hfirst]
    cases hlast : parseUlong last with
    | none =>
      have hrefused :
          Right fileSize (demandBounds fileSize bytes [] last) (false, 0, fileSize - 1) ↔
            (bytes → RangeForm.number last = none) := by
        rw [right_refused h0, RangeForm.ofBounds, if_pos rfl]
        refine imp_congr Iff.rfl ?_
        cases hnumber : RangeForm.number last with
        | none => simp
        | some suffix =>
          have hlarge := parseUlong_none hlast hnumber
          refine iff_of_false (fun h => ?_) nofun
          refine h (.suffix suffix) rfl (fileSize - min suffix fileSize) (fileSize - 1) ?_
          rw [RangeForm.demand, if_pos ⟨by omega, by omega⟩]
      by_cases hempty : last = []
      · rw [if_neg fun h => h.2 hempty, if_neg fun h => h rfl]
        exact hrefused
      · rw [if_pos ⟨rfl, hempty⟩]
        exact hrefused
    | some suffix =>
      have hempty : last ≠ [] := by
        rintro rfl
        cases hlast
      have hclamp : (if suffix > fileSize then fileSize else suffix) = min suffix fileSize := by
        split <;> omega
      rw [if_pos ⟨rfl, hempty⟩]
      dsimp only
      rw [hclamp, subUlong_of_le (Nat.min_le_right ..) (by omega)]
      exact right_suffix h0 bytes hlast
  · rw [if_neg fun h => hfirst h.1, if_pos hfirst, if_neg hfirst]
    cases hstart : parseUlong first with
    | none =>
      dsimp only
      refine iff_of_true ((right_refused h0 bytes).mpr fun _ form hform start stop => ?_) trivial
      rw [RangeForm.ofBounds, if_neg hfirst] at hform
      obtain ⟨large, hlarge, hform⟩ := Option.bind_eq_some_iff.mp hform
      have hle := parseUlong_none hstart hlarge
      split at hform
      · cases hform
        rw [RangeForm.demand, if_neg (by omega)]
        nofun
      · obtain ⟨last', -, rfl⟩ := Option.map_eq_some_iff.mp hform
        rw [RangeForm.demand, if_neg (by omega)]
        nofun
    | some start =>
      dsimp only
      by_cases hempty : last = []
      · rw [if_pos hempty, if_pos hempty, hempty]
        have honwards := right_onwards h0 bytes hfirst hstart
        dsimp only
        rw [if_neg (show ¬ fileSize - 1 ≥ fileSize by omega)]
        exact honwards
      · rw [if_neg hempty, if_neg hempty]
        cases hlast : parseUlong last with
        | none => exact right_leftover h0 h63 bytes hfirst hempty hstart hlast
        | some stop =>
          dsimp only
          rw [hmin]
          exact right_bounded h0 h63 bytes hfirst hempty hstart hlast

end Bounds

/-- No range of a file without bytes can be sent. -/
theorem demand_zero (form : RangeForm) : form.demand 0 = .unsatisfiable := by
  cases form <;> simp [RangeForm.demand]

/-- The range of a header that fits is the one that is asked for. -/
theorem right_iff_fits {fileSize : Nat} (h0 : fileSize ≠ 0) (h63 : fileSize < 2 ^ 63)
    (rangeHeader : List UInt8) :
    Right fileSize (rangeDemand fileSize rangeHeader)
      (parseRange rangeHeader fileSize 0 (fileSize - 1)) ↔ Fits fileSize rangeHeader := by
  have hwhole : Right fileSize .whole (false, 0, fileSize - 1) :=
    ⟨Nat.zero_le _, (allOf_start h0).mpr rfl⟩
  unfold parseRange Fits rangeDemand RangeForm.ofHeader
  rw [if_neg h0, or_iff_right h0]
  cases cutAt (byte '=') rangeHeader with
  | none => exact iff_of_true hwhole trivial
  | some unitRange =>
    obtain ⟨unit, range⟩ := unitRange
    rw [Option.bind_eq_bind, Option.bind_some]
    dsimp only
    cases cutAt (byte '-') range with
    | none => exact iff_of_true hwhole trivial
    | some bounds =>
      obtain ⟨first, last⟩ := bounds
      exact right_bounds h0 h63 (RangeForm.isBytes unit) first last

/-! ## Answers -/

theorem parseUlong_lt {s : List UInt8} {n : Nat} (h : parseUlong s = some n) : n < 2 ^ 64 := by
  unfold parseUlong at h
  split at h
  · cases h
  · dsimp only at h
    split at h
    · next hlt =>
      cases h
      exact hlt
    · cases h

theorem parseBounds_stop {fileSize : Nat} (h0 : fileSize ≠ 0) (h63 : fileSize < 2 ^ 63)
    (first last : List UInt8) :
    (parseBounds fileSize 0 (fileSize - 1) first last).2.2 < 2 ^ 64 ∧
      ((parseBounds fileSize 0 (fileSize - 1) first last).1 = true →
        (parseBounds fileSize 0 (fileSize - 1) first last).2.2 < fileSize) := by
  have hone : subUlong fileSize 1 = fileSize - 1 := subUlong_of_le (by omega) (by omega)
  have hlt : fileSize - 1 < 2 ^ 64 := by omega
  unfold parseBounds
  rw [hone]
  split
  · split
    · exact ⟨hlt, nofun⟩
    · exact ⟨hlt, fun _ => Nat.sub_one_lt h0⟩
  · split
    · split
      · exact ⟨hlt, nofun⟩
      · split
        · exact ⟨hlt, nofun⟩
        · next stop hstop =>
          have hstop64 : stop < 2 ^ 64 := by
            split at hstop
            · cases hstop
              exact hlt
            · exact parseUlong_lt hstop
          split
          · exact ⟨hstop64, nofun⟩
          · dsimp only
            split
            · exact ⟨hlt, fun _ => Nat.sub_one_lt h0⟩
            · next hge => exact ⟨hstop64, fun _ => Nat.lt_of_not_ge hge⟩
    · exact ⟨hlt, nofun⟩

theorem parseRange_stop {fileSize : Nat} (h0 : fileSize ≠ 0) (h63 : fileSize < 2 ^ 63)
    (rangeHeader : List UInt8) :
    (parseRange rangeHeader fileSize 0 (fileSize - 1)).2.2 < 2 ^ 64 ∧
      ((parseRange rangeHeader fileSize 0 (fileSize - 1)).1 = true →
        (parseRange rangeHeader fileSize 0 (fileSize - 1)).2.2 < fileSize) := by
  have hlt : fileSize - 1 < 2 ^ 64 := by omega
  unfold parseRange
  rw [if_neg h0]
  split
  · exact ⟨hlt, nofun⟩
  · split
    · exact ⟨hlt, nofun⟩
    · exact parseBounds_stop h0 h63 _ _

/-- The answer, by the bounds that `parseRange` has left. -/
def answer (mime : List Char) (fileSize : Nat) (file : MediaFile) (takes : List Nat)
    (range : Bool × Nat × Nat) : MediaAnswer :=
  let remaining := addUlong (subUlong range.2.2 range.2.1) 1
  let sent := sendContents takes remaining (file.drop (seek range.2.1))
  .file (if range.1 then ⟨206, "Partial Content", mime, remaining, range.2.1, range.2.2, fileSize⟩
    else ⟨200, "OK", mime, fileSize, 0, 0, fileSize⟩) sent.2 sent.1

theorem sendFile_eq (mime : List Char) {fileSize : Nat} (h0 : fileSize ≠ 0)
    (h63 : fileSize < 2 ^ 63) (rangeHeader : List UInt8) (file : MediaFile) (takes : List Nat) :
    sendFile mime fileSize rangeHeader file takes =
      answer mime fileSize file takes (parseRange rangeHeader fileSize 0 (fileSize - 1)) := by
  have hone : subUlong fileSize 1 = fileSize - 1 := subUlong_of_le (by omega) (by omega)
  have hempty : (if rangeHeader = [] then (false, 0, fileSize - 1)
      else parseRange rangeHeader fileSize 0 (fileSize - 1)) =
      parseRange rangeHeader fileSize 0 (fileSize - 1) := by
    split
    · next h =>
      rw [h, parseRange, if_neg h0]
      rfl
    · rfl
  unfold sendFile
  rw [if_neg h0, hone, hempty]
  rfl

/-- The part of a file between bounds that are inside it. -/
theorem sent_part {fileSize start stop : Nat} (h63 : fileSize < 2 ^ 63) (hle : start ≤ stop)
    (hstop : stop < fileSize) {file : MediaFile} {takes : List Nat}
    (hok : (sendContents takes (addUlong (subUlong stop start) 1)
      (file.drop (seek start))).1 = true) :
    (sendContents takes (addUlong (subUlong stop start) 1) (file.drop (seek start))).2 =
      (file.drop start).take (stop - start + 1) := by
  have hseek : seek start = start := if_pos (by omega)
  rw [sendContents_of_ok hok, hseek, length_of_le hle (by omega), Nat.mod_eq_of_lt (by omega)]

/-- The whole file, behind a refused header. -/
theorem sent_whole {fileSize start stop : Nat} (h0 : fileSize ≠ 0) (h63 : fileSize < 2 ^ 63)
    (hstop : stop < 2 ^ 64) (hall : AllOf fileSize (false, start, stop)) {file : MediaFile}
    {takes : List Nat}
    (hok : (sendContents takes (addUlong (subUlong stop start) 1)
      (file.drop (seek start))).1 = true) :
    (sendContents takes (addUlong (subUlong stop start) 1) (file.drop (seek start))).2 =
      file.take fileSize := by
  obtain ⟨-, hseek, hlength⟩ := hall
  dsimp only at hseek hlength
  have hsize : (stop - start + 1) % 2 ^ 64 = fileSize := by omega
  rw [sendContents_of_ok hok, hseek, length_of_le (by omega) hstop, hsize, List.drop_zero]

theorem serveFile_eq {store : ContentStore} {mediaId : MediaId} {item : MediaItem}
    {files : MediaPath → Option MediaFile} {file : MediaFile}
    (hitem : store.getItem mediaId = some item) (hfile : files item.path = some file)
    (takes : List Nat) (rangeHeader : List UInt8) :
    serveFile store files takes mediaId rangeHeader =
      (true, sendFile item.mimeType item.fileSize.toNat rangeHeader file takes) := by
  rw [serveFile, hitem]
  dsimp only
  rw [hfile]

/-- What is asked for is sent. -/
theorem met_of_right {fileSize : Nat} (h0 : fileSize ≠ 0) (h63 : fileSize < 2 ^ 63)
    {rangeHeader : List UInt8}
    (h : Right fileSize (rangeDemand fileSize rangeHeader)
      (parseRange rangeHeader fileSize 0 (fileSize - 1)))
    (mime : List Char) (file : MediaFile) (hfile : fileSize ≤ file.length) (takes : List Nat) :
    ∃ headers body complete,
      sendFile mime fileSize rangeHeader file takes = .file headers body complete ∧
      (rangeDemand fileSize rangeHeader).Met fileSize file headers body complete ∧
      (complete → body.length = headers.contentLen) := by
  have hstops := parseRange_stop h0 h63 rangeHeader
  rw [sendFile_eq mime h0 h63]
  refine ⟨_, _, _, rfl, ?_⟩
  generalize parseRange rangeHeader fileSize 0 (fileSize - 1) = range at h hstops
  obtain ⟨hasRange, start, stop⟩ := range
  obtain ⟨hstop64, hstop⟩ := hstops
  obtain ⟨hle, hdemand⟩ := h
  dsimp only at hle hstop hstop64 ⊢
  cases hasRange with
  | true =>
    have hlt := hstop rfl
    have hlength : addUlong (subUlong stop start) 1 = stop - start + 1 := by
      rw [length_of_le hle hstop64, Nat.mod_eq_of_lt (by omega)]
    rw [if_pos rfl]
    refine ⟨?_, fun hok => ?_⟩
    · cases hform : rangeDemand fileSize rangeHeader with
      | whole =>
        rw [hform] at hdemand
        cases hdemand.1
      | part start' stop' =>
        rw [hform] at hdemand
        cases hdemand
        exact ⟨rfl, rfl, rfl, rfl, hle, hlt, hlength, fun hok => sent_part h63 hle hlt hok⟩
      | unsatisfiable => exact fun _ => ⟨hle, hlt, hlength⟩
    · rw [sent_part h63 hle hlt hok, List.length_take, List.length_drop]
      dsimp only
      omega
  | false =>
    rw [if_neg Bool.false_ne_true]
    have hall : AllOf fileSize (false, start, stop) := by
      cases hform : rangeDemand fileSize rangeHeader with
      | whole =>
        rw [hform] at hdemand
        exact hdemand
      | part start' stop' =>
        rw [hform] at hdemand
        cases hdemand
      | unsatisfiable =>
        rw [hform] at hdemand
        exact hdemand rfl
    refine ⟨?_, fun hok => ?_⟩
    · cases hform : rangeDemand fileSize rangeHeader with
      | whole => exact ⟨rfl, rfl, fun hok => sent_whole h0 h63 hstop64 hall hok⟩
      | part start' stop' =>
        rw [hform] at hdemand
        cases hdemand
      | unsatisfiable => exact fun hstatus => by cases hstatus
    · rw [sent_whole h0 h63 hstop64 hall hok, List.length_take]
      exact Nat.min_eq_left hfile

/-- A store with one item. -/
def singleItem (fileSize : UInt64) : MediaItem := ⟨[], [], [], [], [], fileSize⟩

def singleStore (fileSize : UInt64) : ContentStore :=
  ⟨[], (∅ : UMap MediaPath MediaItem).assign [] (singleItem fileSize),
    (∅ : UMap MediaId MediaPath).assign [] [], 1, 1⟩

theorem getItem_singleStore (fileSize : UInt64) :
    (singleStore fileSize).getItem [] = some (singleItem fileSize) := by
  rw [ContentStore.getItem, singleStore, UMap.find_assign, if_pos rfl, Option.bind_some,
    UMap.find_assign, if_pos rfl]

/-- What is sent of a file to a client that takes it all. -/
theorem answered_of_serves {fileSize : FileSize} (h0 : fileSize.value.toNat ≠ 0)
    {rangeHeader : List UInt8} (h : Serves fileSize rangeHeader) {hasRange : Bool}
    {start stop : Nat}
    (hrange : parseRange rangeHeader fileSize.value.toNat 0 (fileSize.value.toNat - 1) =
      (hasRange, start, stop)) {file : MediaFile} (hfile : fileSize.value.toNat ≤ file.length) :
    ∃ headers : FileHeaders, ∃ body,
      headers = (if hasRange then ⟨206, "Partial Content", [], addUlong (subUlong stop start) 1,
        start, stop, fileSize.value.toNat⟩
      else ⟨200, "OK", [], fileSize.value.toNat, 0, 0, fileSize.value.toNat⟩) ∧
      (rangeDemand fileSize.value.toNat rangeHeader).Met fileSize.value.toNat file headers body
        true ∧
      headers.contentLen = min (addUlong (subUlong stop start) 1) (file.length - seek start) := by
  obtain ⟨headers, body, complete, hserve, hmet, hlength⟩ := h.2 (singleStore fileSize.value) []
    (singleItem fileSize.value) (fun _ => some file) file
    (List.replicate file.length SEND_BUFFER_SIZE) (getItem_singleStore _) rfl rfl hfile
  have hsend : sendFile [] fileSize.value.toNat rangeHeader file
      (List.replicate file.length SEND_BUFFER_SIZE) = .file headers body complete := by
    rw [serveFile_eq (getItem_singleStore _) rfl] at hserve
    exact congrArg Prod.snd hserve
  rw [sendFile_eq [] h0 fileSize.lt, hrange, answer, MediaAnswer.file.injEq] at hsend
  obtain ⟨hheaders, hbody, hcomplete⟩ := hsend
  dsimp only at hheaders hbody hcomplete
  have hok : (sendContents (List.replicate file.length SEND_BUFFER_SIZE)
      (addUlong (subUlong stop start) 1) (file.drop (seek start))).1 = true :=
    sendContents_replicate (by rw [List.length_drop]; exact Nat.sub_le ..)
  rw [hok] at hcomplete
  rw [← hcomplete] at hmet hlength
  refine ⟨headers, body, hheaders.symm, hmet, ?_⟩
  rw [← hlength rfl, ← hbody, sendContents_of_ok hok, List.length_take, List.length_drop]

theorem right_of_serves {fileSize : FileSize} (h0 : fileSize.value.toNat ≠ 0)
    {rangeHeader : List UInt8} (h : Serves fileSize rangeHeader) :
    Right fileSize.value.toNat (rangeDemand fileSize.value.toNat rangeHeader)
      (parseRange rangeHeader fileSize.value.toNat 0 (fileSize.value.toNat - 1)) := by
  have h63 := fileSize.lt
  have hle := h.1 h0
  have hstop := (parseRange_stop h0 h63 rangeHeader).1
  rcases hrange : parseRange rangeHeader fileSize.value.toNat 0 (fileSize.value.toNat - 1) with
    ⟨hasRange, start, stop⟩
  rw [hrange] at hle hstop
  dsimp only at hle hstop
  have hanswered := fun (file : MediaFile) (hfile : fileSize.value.toNat ≤ file.length) =>
    answered_of_serves h0 h hrange hfile
  -- A file of this size shows where the contents begin, and one that has grown where they end.
  have hall : hasRange = false → AllOf fileSize.value.toNat (hasRange, start, stop) := by
    intro hfalse
    have hlengths : ∀ n, fileSize.value.toNat ≤ n →
        fileSize.value.toNat = min (addUlong (subUlong stop start) 1) (n - seek start) :=
      fun n hn => by
        obtain ⟨headers, body, hheaders, -, hlength⟩ := hanswered (List.replicate n 0)
          (by rw [List.length_replicate]; exact hn)
        rw [hheaders, hfalse, List.length_replicate] at hlength
        exact hlength
    have hsame := hlengths fileSize.value.toNat (Nat.le_refl _)
    have hgrown := hlengths (fileSize.value.toNat + 1) (Nat.le_succ _)
    rw [length_of_le hle hstop] at hsame hgrown
    exact ⟨hfalse, by dsimp only; omega, by dsimp only; omega⟩
  obtain ⟨headers, body, hheaders, hmet, -⟩ := hanswered
    (List.replicate fileSize.value.toNat 0) (by rw [List.length_replicate])
  refine ⟨hle, ?_⟩
  cases hdemand : rangeDemand fileSize.value.toNat rangeHeader with
  | whole =>
    rw [hdemand] at hmet
    refine hall ?_
    cases hasRange with
    | false => rfl
    | true =>
      rw [hheaders] at hmet
      cases hmet.1
  | part start' stop' =>
    rw [hdemand, hheaders] at hmet
    cases hasRange with
    | false => cases hmet.1
    | true =>
      obtain ⟨-, hstart, hstop', -⟩ := hmet
      rw [← hstart, ← hstop']
      rfl
  | unsatisfiable => exact hall

/-- A header is served as it asks for, whatever the file, exactly if it fits. -/
theorem serves_iff_fits (fileSize : FileSize) (rangeHeader : List UInt8) :
    Serves fileSize rangeHeader ↔ Fits fileSize.value.toNat rangeHeader := by
  by_cases h0 : fileSize.value.toNat = 0
  · refine iff_of_true ⟨fun h => absurd h0 h, fun store mediaId item files file takes hitem hsize
      hfile _ => ⟨⟨200, "OK", item.mimeType, 0, 0, 0, 0⟩, [], true, ?_, ?_, fun _ => rfl⟩⟩ (.inl h0)
    · rw [serveFile_eq hitem hfile, hsize, sendFile, if_pos h0]
    · rw [h0, rangeDemand]
      cases RangeForm.ofHeader rangeHeader with
      | none => exact ⟨rfl, rfl, fun _ => rfl⟩
      | some form =>
        rw [Option.elim_some, demand_zero]
        exact fun hstatus => by cases hstatus
  · constructor
    · exact fun h => (right_iff_fits h0 fileSize.lt rangeHeader).mp (right_of_serves h0 h)
    · intro h
      have hright := (right_iff_fits h0 fileSize.lt rangeHeader).mpr h
      refine ⟨fun _ => hright.1, ?_⟩
      intro store mediaId item files file takes hitem hsize hfile hlength
      obtain ⟨headers, body, complete, hsend, hmet, hbody⟩ :=
        met_of_right h0 fileSize.lt hright item.mimeType file hlength takes
      refine ⟨headers, body, complete, ?_, hmet, hbody⟩
      rw [serveFile_eq hitem hfile, hsize, hsend]

/-- The end of a range before its start, in a file of ten bytes. -/
theorem inverted_not_serves :
    ¬ Serves ⟨10, by decide⟩ (utf8 "bytes=5-2".toList) := by
  intro h
  have hle := h.1 (by decide)
  revert hle
  decide +kernel

end MediaStreamer

end Alpine
