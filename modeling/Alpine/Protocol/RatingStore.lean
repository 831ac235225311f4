import Alpine.ConfigUtils.Configuration
import Alpine.Lib.Numerals
import Alpine.Protocol.RatingEngine

/-!
# The stored ratings

`persist` writes the table of the ratings as one text and hands it to the configuration, whose
`setValue` has no body; `load` reads the text that the configuration holds. Scores are doubles.

The text itself is right: a configuration that held it would restore the table
(`shows_load_serialize`). The entries of a text are read with `std::stoul` and `std::stod`, so that
an entry with blanks, signs or anything behind a number is not skipped.
-/

namespace Alpine

open Lib

namespace Configuration

def getValue (config : Configuration) (name : ConfigText) : Option ConfigText :=
  config.configData.getValue name

/-- It has no body. -/
def setValue (config : Configuration) (_name _value : ConfigText) : Bool × Configuration :=
  (true, config)

end Configuration

namespace RatingStore

/-- `std::fixed` with six decimals; the sign of what is no number is not modelled. -/
def scoreText : Double → ConfigText
  | .nan => ['n', 'a', 'n']
  | .infinite negative => if negative then ['-', 'i', 'n', 'f'] else ['i', 'n', 'f']
  | .finite x => if x < 0 then '-' :: fixed 6 (-x) else fixed 6 x

/-- `clampScore`; what is no number stays as it is. -/
def clampScore : Double → Double
  | .nan => .nan
  | .infinite negative => if negative then .finite 0 else .finite 1
  | .finite x => .finite (RatingEngine.clampScore x)

/-! ## `persist` -/

def peerScores : ConfigText := "rating.peerScores".toList

def entryText (peerId : Nat) (rating : PeerRating Double) : ConfigText :=
  Nat.toDigits 10 peerId ++ ':' :: (scoreText rating.score ++
    ':' :: (Nat.toDigits 10 rating.successCount ++ ':' :: Nat.toDigits 10 rating.failureCount))

/-- The loop over the table, in the order that it has. -/
def serialize (s : RatingEngine Double) : ConfigText :=
  (AList.entries s.ratings).foldl (fun serialized entry =>
    (if serialized = [] then serialized else serialized ++ [';']) ++ entryText entry.1 entry.2) []

def persist (s : RatingEngine Double) (config : Configuration) : Bool × Configuration :=
  config.setValue peerScores (serialize s)

/-! ## `load` -/

structure Reading where
  peerId : Nat
  score : Double
  successCount : Nat
  failureCount : Nat

/-- The texts between the separators; an empty one at the end is not looked at. -/
def segments (separator : Char) (s : ConfigText) : List ConfigText :=
  let parts := s.splitOn separator
  if parts.getLast? = some [] then parts.dropLast else parts

/-- Before the first separator, and behind it. -/
def cut (separator : Char) (s : ConfigText) : Option (ConfigText × ConfigText) :=
  if separator ∈ s then
    some (s.takeWhile (· ≠ separator), (s.dropWhile (· ≠ separator)).drop 1)
  else none

/-- The four fields of an entry; the last one has the further colons. -/
def fields (entry : ConfigText) :
    Option (ConfigText × ConfigText × ConfigText × ConfigText) := do
  let first ← cut ':' entry
  let second ← cut ':' first.2
  let third ← cut ':' second.2
  some (first.1, second.1, third.1, third.2)

/-- `none`, too, for an exception. -/
def readEntry (entry : ConfigText) : Option Reading := do
  let texts ← fields entry
  let peerId ← stoul texts.1
  let score ← stod texts.2.1
  let successCount ← stoul texts.2.2.1
  let failureCount ← stoul texts.2.2.2
  some ⟨peerId, score, successCount, failureCount⟩

def Reading.rating (now : Nat) (r : Reading) : PeerRating Double :=
  ⟨clampScore r.score, r.successCount, r.failureCount, now⟩

def enter (now : Nat) (s : RatingEngine Double) (r : Reading) : RatingEngine Double :=
  ⟨s.ratings.assign r.peerId (r.rating now)⟩

/-- One pass of the loop. -/
def loadEntry (now : Nat) (s : RatingEngine Double) (entry : ConfigText) : RatingEngine Double :=
  match readEntry entry with
  | none => s
  | some r => enter now s r

def fresh : RatingEngine Double := ⟨∅⟩

def load (config : Configuration) (now : Nat) (s : RatingEngine Double) :
    Bool × RatingEngine Double :=
  match config.getValue peerScores with
  | none => (false, s)
  | some serialized =>
    if serialized = [] then (true, s)
    else (true, (segments ';' serialized).foldl (loadEntry now) fresh)

/-! ## What is to be restored -/

/-- What the engine holds: its numbers have 64 bits and its scores are clamped. -/
structure HeldRatings where
  engine : RatingEngine Double
  held : ∀ peerId rating, engine.ratings.find peerId = some rating → peerId < 2 ^ 64 ∧
    clampScore rating.score = rating.score ∧ rating.successCount < 2 ^ 64 ∧
    rating.failureCount < 2 ^ 64

/-- What is written of a rating. -/
def shown (rating : PeerRating Double) : ConfigText × Nat × Nat :=
  (scoreText rating.score, rating.successCount, rating.failureCount)

/-- The same peers have the same counts, and scores with the same six decimals. -/
def Shows (s loaded : RatingEngine Double) : Prop :=
  ∀ peerId, (loaded.ratings.find peerId).map shown = (s.ratings.find peerId).map shown

def RoundTrips (config : Configuration) (s : RatingEngine Double) : Prop :=
  (persist s config).1 = true ∧ ∀ now, Shows s (load (persist s config).2 now fresh).2

/-- The last entry of a peer that can be read. -/
def lastReading (peerId : Nat) : List ConfigText → Option Reading
  | [] => none
  | entry :: entries =>
    (lastReading peerId entries).or ((readEntry entry).filter fun r => r.peerId = peerId)

/-- The configuration held the ratings of the table before. -/
def Holds (config : Configuration) (s : RatingEngine Double) : Prop :=
  ∀ peerId, (lastReading peerId (segments ';' ((config.getValue peerScores).getD []))).map
    (fun r => shown (r.rating 0)) = (s.ratings.find peerId).map shown

/-- An entry of the format, and what it says; its numbers fit their types. -/
def Denotes (entry : ConfigText) (r : Reading) : Prop :=
  ∃ peerId whole fraction successCount failureCount : ConfigText,
    entry = peerId ++ ':' :: (pointed whole fraction ++
      ':' :: (successCount ++ ':' :: failureCount)) ∧
    Decimal peerId ∧ Decimal whole ∧ (∀ c ∈ fraction, c.isDigit = true) ∧
    Decimal successCount ∧ Decimal failureCount ∧
    Nat.ofDigitChars 10 peerId 0 = r.peerId ∧ r.peerId < 2 ^ 64 ∧
    rangeError (valueOf whole fraction) = false ∧
    .finite (nearest (valueOf whole fraction)) = r.score ∧
    Nat.ofDigitChars 10 successCount 0 = r.successCount ∧ r.successCount < 2 ^ 64 ∧
    Nat.ofDigitChars 10 failureCount 0 = r.failureCount ∧ r.failureCount < 2 ^ 64

/-- The entries of the format are entered as they say, and the others are skipped. -/
structure Skips (text : ConfigText) : Prop where
  reads : ∀ entry ∈ segments ';' text, ∀ r, Denotes entry r →
    ∀ now s, loadEntry now s entry = enter now s r
  skips : ∀ entry ∈ segments ';' text, (∀ r, ¬ Denotes entry r) →
    ∀ now s, loadEntry now s entry = s

/-- The library converts all fields. -/
def Converts (entry : ConfigText) : Prop :=
  ∃ texts, fields entry = some texts ∧ (stoul texts.1).isSome ∧ (stod texts.2.1).isSome ∧
    (stoul texts.2.2.1).isSome ∧ (stoul texts.2.2.2).isSome

/-- No entry that is not of the format begins its fields with numbers. -/
def Separable (text : ConfigText) : Prop :=
  ∀ entry ∈ segments ';' text, (∀ r, ¬ Denotes entry r) → ¬ Converts entry

/-! ## Reading an entry -/

theorem cut_append {separator : Char} {a s : ConfigText} (ha : separator ∉ a) :
    cut separator (a ++ separator :: s) = some (a, s) := by
  unfold cut
  rw [if_pos (List.mem_append_right _ (List.mem_cons_self ..)), takeWhile_append_separator ha,
    dropWhile_append_separator ha]
  rfl

theorem fields_eq {a b c d : ConfigText} (ha : ':' ∉ a) (hb : ':' ∉ b) (hc : ':' ∉ c) :
    fields (a ++ ':' :: (b ++ ':' :: (c ++ ':' :: d))) = some (a, b, c, d) := by
  unfold fields
  rw [cut_append ha]
  dsimp only [Option.bind_eq_bind, Option.bind_some]
  rw [cut_append hb]
  dsimp only [Option.bind_eq_bind, Option.bind_some]
  rw [cut_append hc]
  rfl

theorem readEntry_eq {entry : ConfigText}
    {texts : ConfigText × ConfigText × ConfigText × ConfigText} {r : Reading}
    (hfields : fields entry = some texts)
    (hpeer : stoul texts.1 = some r.peerId) (hscore : stod texts.2.1 = some r.score)
    (hsuccess : stoul texts.2.2.1 = some r.successCount)
    (hfailure : stoul texts.2.2.2 = some r.failureCount) : readEntry entry = some r := by
  unfold readEntry
  rw [hfields]
  dsimp only [Option.bind_eq_bind, Option.bind_some]
  rw [hpeer, hscore, hsuccess, hfailure]
  rfl

theorem isSome_readEntry_iff (entry : ConfigText) :
    (readEntry entry).isSome ↔ Converts entry := by
  constructor
  · intro h
    obtain ⟨r, hr⟩ := Option.isSome_iff_exists.mp h
    unfold readEntry at hr
    obtain ⟨texts, htexts, hr⟩ := Option.bind_eq_some_iff.mp hr
    obtain ⟨peerId, hpeer, hr⟩ := Option.bind_eq_some_iff.mp hr
    obtain ⟨score, hscore, hr⟩ := Option.bind_eq_some_iff.mp hr
    obtain ⟨successCount, hsuccess, hr⟩ := Option.bind_eq_some_iff.mp hr
    obtain ⟨failureCount, hfailure, -⟩ := Option.bind_eq_some_iff.mp hr
    exact ⟨texts, htexts, by rw [hpeer]; rfl, by rw [hscore]; rfl, by rw [hsuccess]; rfl,
      by rw [hfailure]; rfl⟩
  · rintro ⟨texts, htexts, hpeer, hscore, hsuccess, hfailure⟩
    obtain ⟨peerId, hpeer⟩ := Option.isSome_iff_exists.mp hpeer
    obtain ⟨score, hscore⟩ := Option.isSome_iff_exists.mp hscore
    obtain ⟨successCount, hsuccess⟩ := Option.isSome_iff_exists.mp hsuccess
    obtain ⟨failureCount, hfailure⟩ := Option.isSome_iff_exists.mp hfailure
    have hread : readEntry entry = some ⟨peerId, score, successCount, failureCount⟩ :=
      readEntry_eq htexts hpeer hscore hsuccess hfailure
    rw [hread]
    rfl

theorem not_mem_decimal {c : Char} (hc : c.isDigit = false) {digits : ConfigText}
    (hdigits : ∀ d ∈ digits, d.isDigit = true) : c ∉ digits := by
  intro h
  rw [hdigits c h] at hc
  cases hc

theorem not_mem_pointed {c : Char} (hc : c.isDigit = false) (hpoint : c ≠ '.')
    {whole fraction : ConfigText} (hwhole : ∀ d ∈ whole, d.isDigit = true)
    (hfraction : ∀ d ∈ fraction, d.isDigit = true) : c ∉ pointed whole fraction := by
  unfold pointed
  rw [List.mem_append, not_or]
  refine ⟨not_mem_decimal hc hwhole, ?_⟩
  split
  · exact List.not_mem_nil
  · rw [List.mem_cons, not_or]
    exact ⟨hpoint, not_mem_decimal hc hfraction⟩

/-- An entry of the format is read as what it says. -/
theorem readEntry_of_denotes {entry : ConfigText} {r : Reading} (h : Denotes entry r) :
    readEntry entry = some r := by
  obtain ⟨peerId, whole, fraction, successCount, failureCount, rfl, hpeer, hwhole, hfraction,
    hsuccess, hfailure, hpeerValue, hpeerLt, hrange, hscore, hsuccessValue, hsuccessLt,
    hfailureValue, hfailureLt⟩ := h
  have hfields := fields_eq (d := failureCount) (not_mem_decimal (c := ':') rfl hpeer.2)
    (not_mem_pointed rfl (by decide) hwhole.2 hfraction) (not_mem_decimal rfl hsuccess.2)
  refine readEntry_eq hfields ?_ ?_ ?_ ?_
  · rw [← hpeerValue]
    exact stoul_decimal hpeer (lt_of_eq_of_lt hpeerValue hpeerLt)
  · rw [← hscore]
    dsimp only
    rw [stod_pointed hwhole hfraction, hrange, if_neg Bool.false_ne_true]
  · rw [← hsuccessValue]
    exact stoul_decimal hsuccess (lt_of_eq_of_lt hsuccessValue hsuccessLt)
  · rw [← hfailureValue]
    exact stoul_decimal hfailure (lt_of_eq_of_lt hfailureValue hfailureLt)

theorem skips_iff_separable (text : ConfigText) : Skips text ↔ Separable text := by
  constructor
  · intro h entry hentry hnone hconverts
    obtain ⟨r, hr⟩ := Option.isSome_iff_exists.mp ((isSome_readEntry_iff entry).mpr hconverts)
    have hskip := h.skips entry hentry hnone 0 fresh
    unfold loadEntry at hskip
    rw [hr] at hskip
    -- the peer of the entry is in the table now
    have hfind : (enter 0 fresh r).ratings.find r.peerId = fresh.ratings.find r.peerId :=
      congrArg (fun s => s.ratings.find r.peerId) hskip
    unfold enter fresh at hfind
    rw [UMap.find_assign, if_pos rfl] at hfind
    cases hfind
  · intro h
    refine ⟨fun entry _ r hr now s => ?_, fun entry hentry hnone now s => ?_⟩
    · unfold loadEntry
      rw [readEntry_of_denotes hr]
    · have hread : readEntry entry = none := by
        rw [← Option.not_isSome_iff_eq_none, isSome_readEntry_iff]
        exact h entry hentry hnone
      unfold loadEntry
      rw [hread]

/-! ## Reading a text -/

/-- The table has what the last entry of each peer says. -/
theorem find_foldl_loadEntry (now : Nat) (entries : List ConfigText) (s : RatingEngine Double)
    (peerId : Nat) : (entries.foldl (loadEntry now) s).ratings.find peerId =
      ((lastReading peerId entries).map (·.rating now)).or (s.ratings.find peerId) := by
  induction entries generalizing s with
  | nil => rfl
  | cons entry entries ih =>
    rw [List.foldl_cons, ih, lastReading]
    have hone : (loadEntry now s entry).ratings.find peerId =
        (((readEntry entry).filter fun r => r.peerId = peerId).map (·.rating now)).or
          (s.ratings.find peerId) := by
      unfold loadEntry
      cases hread : readEntry entry with
      | none => rfl
      | some r =>
        unfold enter
        dsimp only
        rw [UMap.find_assign]
        by_cases hpeer : r.peerId = peerId
        · rw [if_pos hpeer.symm, Option.filter_some_pos (by simpa using hpeer)]
          rfl
        · rw [if_neg (Ne.symm hpeer), Option.filter_some_neg (by simpa using hpeer)]
          rfl
    rw [hone]
    cases lastReading peerId entries <;> rfl

theorem find_load (config : Configuration) (now peerId : Nat) :
    (load config now fresh).2.ratings.find peerId =
      (lastReading peerId (segments ';' ((config.getValue peerScores).getD []))).map
        (·.rating now) := by
  unfold load
  cases config.getValue peerScores with
  | none => rfl
  | some serialized =>
    dsimp only
    split
    · next hnil =>
      subst hnil
      rfl
    · rw [find_foldl_loadEntry]
      exact Option.or_none

theorem engine_roundTrips_iff (config : Configuration) (s : RatingEngine Double) :
    RoundTrips config s ↔ Holds config s := by
  have hshown : ∀ now peerId, ((load config now fresh).2.ratings.find peerId).map shown =
      (lastReading peerId (segments ';' ((config.getValue peerScores).getD []))).map
        fun r => shown (r.rating 0) := by
    intro now peerId
    rw [find_load, Option.map_map]
    rfl
  constructor
  · intro h peerId
    rw [← hshown 0]
    exact h.2 0 peerId
  · refine fun h => ⟨rfl, fun now peerId => ?_⟩
    rw [← h peerId, ← hshown now]
    rfl

/-! ## What was written -/

theorem not_mem_scoreText {c : Char} (hc : c ∉ ['-', '.', 'i', 'n', 'f', 'a'])
    (hdigit : c.isDigit = false) (score : Double) : c ∉ scoreText score := by
  have hfixed : ∀ x, c ∉ fixed 6 x := by
    intro x
    obtain ⟨whole, fraction, htext, hwhole, hfraction, -⟩ := fixed_eq_pointed x
    rw [htext]
    exact not_mem_pointed hdigit (by rintro rfl; exact hc (by decide)) hwhole.2 hfraction
  unfold scoreText
  split
  · exact fun h => hc (List.Subset.trans (by decide) (List.Subset.refl _) h)
  · split
    · exact fun h => hc (List.Subset.trans (by decide) (List.Subset.refl _) h)
    · exact fun h => hc (List.Subset.trans (by decide) (List.Subset.refl _) h)
  · split
    · rw [List.mem_cons, not_or]
      exact ⟨by rintro rfl; exact hc (by decide), hfixed _⟩
    · exact hfixed _

theorem not_mem_entryText (peerId : Nat) (rating : PeerRating Double) :
    ';' ∉ entryText peerId rating := by
  have hnat : ∀ n, ';' ∉ Nat.toDigits 10 n := fun n => not_mem_toDigits rfl
  have hscore : ';' ∉ scoreText rating.score := not_mem_scoreText (by decide) rfl _
  simp [entryText, hnat, hscore]

theorem entryText_ne_nil (peerId : Nat) (rating : PeerRating Double) :
    entryText peerId rating ≠ [] := by
  unfold entryText
  exact List.append_ne_nil_of_right_ne_nil _ (List.cons_ne_nil _ _)

/-- A clamped score is read with the same six decimals. -/
theorem stod_scoreText {score : Double} (hclamped : clampScore score = score) :
    ∃ score', stod (scoreText score) = some score' ∧
      scoreText (clampScore score') = scoreText score := by
  cases score with
  | nan => exact ⟨.nan, by decide, rfl⟩
  | infinite negative => cases negative <;> cases hclamped
  | finite x =>
    have hmem := RatingEngine.clampScore_mem x
    injection hclamped with hclamped
    rw [hclamped] at hmem
    obtain ⟨y, hread, hnonneg, hle, hsame⟩ := stod_fixed hmem.1 hmem.2
    refine ⟨.finite y, ?_, ?_⟩
    · rw [scoreText, if_neg (not_lt.mpr hmem.1), hread]
    · rw [clampScore, RatingEngine.clampScore_of_mem ⟨hnonneg, hle⟩, scoreText, scoreText,
        if_neg (not_lt.mpr hnonneg), if_neg (not_lt.mpr hmem.1), hsame]

theorem readEntry_entryText {peerId : Nat} {rating : PeerRating Double} (hpeer : peerId < 2 ^ 64)
    (hclamped : clampScore rating.score = rating.score) (hsuccess : rating.successCount < 2 ^ 64)
    (hfailure : rating.failureCount < 2 ^ 64) :
    ∃ r, readEntry (entryText peerId rating) = some r ∧ r.peerId = peerId ∧
      shown (r.rating 0) = shown rating := by
  obtain ⟨score, hread, hsame⟩ := stod_scoreText hclamped
  refine ⟨⟨peerId, score, rating.successCount, rating.failureCount⟩, ?_, rfl, ?_⟩
  · exact readEntry_eq (fields_eq (not_mem_toDigits rfl) (not_mem_scoreText (by decide) rfl _)
      (not_mem_toDigits rfl)) (stoul_toDigits hpeer) hread (stoul_toDigits hsuccess)
      (stoul_toDigits hfailure)
  · unfold shown Reading.rating
    rw [hsame]

theorem intercalate_concat {α : Type} {separator : List α} {xs : List (List α)} (hne : xs ≠ [])
    (x : List α) :
    separator.intercalate (xs ++ [x]) = separator.intercalate xs ++ separator ++ x := by
  induction xs with
  | nil => exact absurd rfl hne
  | cons y ys ih =>
    cases ys with
    | nil => simp
    | cons z zs =>
      rw [List.cons_append, List.cons_append, List.intercalate_cons_cons, ← List.cons_append,
        ih (List.cons_ne_nil z zs), List.intercalate_cons_cons]
      simp only [List.append_assoc]

theorem intercalate_ne_nil {α : Type} (separator : List α) {x : List α} (hx : x ≠ [])
    (xs : List (List α)) : separator.intercalate (x :: xs) ≠ [] := by
  obtain ⟨a, x, rfl⟩ := List.exists_cons_of_ne_nil hx
  rw [List.intercalate_cons_cons_left]
  exact List.cons_ne_nil _ _

def entryTexts (s : RatingEngine Double) : List ConfigText :=
  (AList.entries s.ratings).map fun entry => entryText entry.1 entry.2

theorem serialize_eq (s : RatingEngine Double) :
    serialize s = [';'].intercalate (entryTexts s) := by
  unfold serialize entryTexts
  induction AList.entries s.ratings using List.reverseRecOn with
  | nil => rfl
  | append_singleton entries entry ih =>
    rw [List.foldl_concat, ih, List.map_append, List.map_singleton]
    cases entries with
    | nil => simp
    | cons first entries =>
      rw [List.map_cons, if_neg (intercalate_ne_nil _ (entryText_ne_nil _ _) _),
        intercalate_concat (List.cons_ne_nil _ _)]

theorem serialize_eq_nil_iff (s : RatingEngine Double) : serialize s = [] ↔ entryTexts s = [] := by
  rw [serialize_eq]
  unfold entryTexts
  cases AList.entries s.ratings with
  | nil => exact iff_of_true rfl rfl
  | cons first entries =>
    exact iff_of_false (intercalate_ne_nil _ (entryText_ne_nil _ _) _) (List.cons_ne_nil _ _)

theorem segments_serialize {s : RatingEngine Double} (hne : entryTexts s ≠ []) :
    segments ';' (serialize s) = entryTexts s := by
  have hsplit : (serialize s).splitOn ';' = entryTexts s := by
    rw [serialize_eq]
    refine List.splitOn_intercalate ';' (fun text htext => ?_) hne
    obtain ⟨entry, -, rfl⟩ := List.mem_map.mp htext
    exact not_mem_entryText entry.1 entry.2
  unfold segments
  dsimp only
  rw [hsplit, if_neg]
  intro hlast
  obtain ⟨entry, -, hnil⟩ := List.mem_map.mp (List.mem_of_getLast? hlast)
  exact entryText_ne_nil _ _ hnil

/-- Among the entries of a table the last one of a peer is the only one. -/
theorem lastReading_entries (entries : List (Sigma fun _ : Nat => PeerRating Double))
    (hnodup : (entries.map Sigma.fst).Nodup)
    (hread : ∀ entry ∈ entries, ∃ r, readEntry (entryText entry.1 entry.2) = some r ∧
      r.peerId = entry.1 ∧ shown (r.rating 0) = shown entry.2) (peerId : Nat) :
    (lastReading peerId (entries.map fun entry => entryText entry.1 entry.2)).map
        (fun r => shown (r.rating 0)) = (entries.dlookup peerId).map shown := by
  induction entries with
  | nil => rfl
  | cons entry entries ih =>
    obtain ⟨r, hr, hpeer, hshown⟩ := hread entry (List.mem_cons_self ..)
    rw [List.map_cons, List.nodup_cons] at hnodup
    have hrest := ih hnodup.2 fun other hother => hread other (List.mem_cons_of_mem _ hother)
    rw [List.map_cons, lastReading, hr]
    by_cases heq : entry.1 = peerId
    · subst heq
      have hnone : entries.dlookup entry.1 = none := List.dlookup_eq_none.mpr hnodup.1
      rw [hnone, Option.map_none, Option.map_eq_none_iff] at hrest
      rw [hrest, Option.none_or, Option.filter_some_pos (by simpa using hpeer), Option.map_some,
        hshown]
      exact (congrArg (Option.map shown) (List.dlookup_cons_eq entries entry.1 entry.2)).symm
    · rw [Option.filter_some_neg (by simpa [hpeer] using heq), Option.or_none, hrest]
      exact (congrArg (Option.map shown) (List.dlookup_cons_ne entries entry (Ne.symm heq))).symm

/-- The text is right: a configuration that held it would restore the table. -/
theorem shows_load_serialize (s : HeldRatings) {config : Configuration}
    (hholds : config.getValue peerScores = some (serialize s.engine)) (now : Nat) :
    Shows s.engine (load config now fresh).2 := by
  refine fun peerId => ?_
  have hlast := lastReading_entries (AList.entries s.engine.ratings) s.engine.ratings.nodupKeys
    (fun entry hentry => by
      have hfind : s.engine.ratings.find entry.1 = some entry.2 := UMap.mem_entries.mp hentry
      obtain ⟨hpeer, hclamped, hsuccess, hfailure⟩ := s.held _ _ hfind
      exact readEntry_entryText hpeer hclamped hsuccess hfailure) peerId
  rw [find_load, hholds, Option.getD_some, Option.map_map]
  by_cases hne : entryTexts s.engine = []
  · rw [(serialize_eq_nil_iff s.engine).mpr hne]
    rw [show (AList.entries s.engine.ratings).map (fun entry => entryText entry.1 entry.2) = []
      from hne] at hlast
    exact hlast
  · rw [segments_serialize hne]
    exact hlast

/-- A table is given back exactly if the configuration held its ratings before, though the text that
was written would do; and of a text the entries that are not of the format are skipped exactly if
none of them begins its fields with numbers. -/
theorem persistence_iff (config : Configuration) (s : HeldRatings) (text : ConfigText) :
    (RoundTrips config s.engine ↔ Holds config s.engine) ∧ (Skips text ↔ Separable text) ∧
      (config.getValue peerScores = some (serialize s.engine) → RoundTrips config s.engine) :=
  ⟨engine_roundTrips_iff config s.engine, skips_iff_separable text,
    fun hholds => ⟨rfl, fun now => shows_load_serialize s hholds now⟩⟩

/-- One peer with a score of one half. -/
def onePeer : HeldRatings where
  engine := ⟨UMap.assign ∅ 7 ⟨.finite (1 / 2), 3, 1, 0⟩⟩
  held := by
    intro peerId rating hfind
    rw [UMap.find_assign] at hfind
    split at hfind
    · next heq =>
      cases hfind
      subst heq
      refine ⟨by decide, ?_, by decide, by decide⟩
      rw [clampScore, RatingEngine.clampScore_of_mem (by constructor <;> norm_num)]
    · cases hfind

/-- An entry with a letter behind its first number. -/
def badEntry : ConfigText := "7x:0.5:3:1".toList

theorem not_denotes_badEntry (r : Reading) : ¬ Denotes badEntry r := by
  rintro ⟨peerId, whole, fraction, successCount, failureCount, htext, hpeer, hwhole, hfraction,
    hsuccess, -⟩
  have hfields := fields_eq (d := failureCount) (not_mem_decimal (c := ':') rfl hpeer.2)
    (not_mem_pointed rfl (by decide) hwhole.2 hfraction) (not_mem_decimal rfl hsuccess.2)
  rw [← htext, show fields badEntry = some ("7x".toList, "0.5".toList, ['3'], ['1']) by decide,
    Option.some.injEq, Prod.mk.injEq] at hfields
  have hletter := hpeer.2 'x' (hfields.1 ▸ by decide)
  cases hletter

theorem onePeer_not_persisted : ¬ RoundTrips .new onePeer.engine ∧ ¬ Skips badEntry := by
  refine ⟨fun h => ?_, fun h => ?_⟩
  · have hpeer := h.2 0 7
    cases hpeer
  · have hread : (readEntry badEntry).isSome = true := by decide +kernel
    have hsep := (skips_iff_separable badEntry).mp h badEntry (by decide) not_denotes_badEntry
    exact hsep ((isSome_readEntry_iff badEntry).mp hread)

/-- A configuration that holds the text of the peer. -/
def onePeerHeld : Configuration :=
  { Configuration.new with
    configData := ⟨[], UMap.assign ∅ peerScores (serialize onePeer.engine), ∅⟩ }

theorem getValue_onePeerHeld :
    onePeerHeld.getValue peerScores = some (serialize onePeer.engine) := by
  show UMap.find (UMap.assign ∅ peerScores (serialize onePeer.engine)) peerScores = _
  rw [UMap.find_assign, if_pos rfl]

theorem onePeerHeld_roundTrips : RoundTrips onePeerHeld onePeer.engine :=
  (persistence_iff onePeerHeld onePeer []).2.2 getValue_onePeerHeld

end RatingStore

end Alpine
