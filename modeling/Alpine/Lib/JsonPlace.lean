import Alpine.Lib.JsonFront

/-!
# The place of a value in a document

What a reader has read stays where it is: a document of which it has read a part has this part in
the containers that it is in (`completes_of_read`). So a text that is put between quotes as it is
comes back at its place only if it needs no escaping (`plain_of_member`).
-/

namespace Alpine.Lib

open TextReader Expect

/-- The document has a value with `P` at the place that the containers lead to. -/
def Within : List JsonFrame → (Json → Prop) → Json → Prop
  | [], P, v => P v
  | .array items :: stack, P, v =>
    Within stack (fun a => ∃ w rest, P w ∧ a = .array (items ++ w :: rest)) v
  | .object members name :: stack, P, v =>
    Within stack (fun o => ∃ w rest, P w ∧ o = .object (members ++ (name, w) :: rest)) v

theorem Within.mono {stack : List JsonFrame} {P Q : Json → Prop} {v : Json}
    (h : Within stack P v) (hPQ : ∀ w, P w → Q w) : Within stack Q v := by
  induction stack generalizing P Q with
  | nil => exact hPQ v h
  | cons frame stack ih =>
    cases frame with
    | array items => exact ih h fun a ⟨w, rest, hw, ha⟩ => ⟨w, rest, hPQ w hw, ha⟩
    | object members name => exact ih h fun o ⟨w, rest, hw, ho⟩ => ⟨w, rest, hPQ w hw, ho⟩

namespace Expect

/-- The document may be what is expected, completed. -/
def Completes : Expect → Json → Prop
  | value [], _ => True
  | value (.array items :: stack), v =>
    Within stack (fun a => ∃ rest, a = .array (items ++ rest)) v
  | value (.object members name :: stack), v =>
    Within stack (fun o => ∃ w rest, o = .object (members ++ (name, w) :: rest)) v
  | afterItem items stack, v => Within stack (fun a => ∃ rest, a = .array (items ++ rest)) v
  | member members stack, v => Within stack (fun o => ∃ rest, o = .object (members ++ rest)) v
  | separator members name stack, v =>
    Within stack (fun o => ∃ w rest, o = .object (members ++ (name, w) :: rest)) v
  | afterMember members stack, v => Within stack (fun o => ∃ rest, o = .object (members ++ rest)) v
  | done w, v => v = w

theorem within_of_deliver {w : Json} {stack : List JsonFrame} {v : Json}
    (h : (deliver w stack).Completes v) : Within stack (· = w) v := by
  cases stack with
  | nil => exact h
  | cons frame stack =>
    cases frame with
    | array items =>
      have hitem : Within stack (fun a => ∃ rest, a = .array (items ++ [w] ++ rest)) v := h
      refine hitem.mono fun a ⟨rest, ha⟩ => ⟨w, rest, rfl, ?_⟩
      rw [ha, List.append_assoc, List.singleton_append]
    | object members name =>
      have hmember : Within stack (fun o => ∃ rest, o = .object (members ++ [(name, w)] ++ rest))
          v := h
      refine hmember.mono fun o ⟨rest, ho⟩ => ⟨w, rest, rfl, ?_⟩
      rw [ho, List.append_assoc, List.singleton_append]

/-- A value that is there completes the one that is expected. -/
theorem completes_value {P : Json → Prop} {stack : List JsonFrame} {v : Json}
    (h : Within stack P v) : (value stack).Completes v := by
  cases stack with
  | nil => trivial
  | cons frame stack =>
    cases frame with
    | array items =>
      exact Within.mono (show Within stack _ v from h) fun a ⟨w, rest, _, ha⟩ => ⟨w :: rest, ha⟩
    | object members name =>
      exact Within.mono (show Within stack _ v from h) fun o ⟨w, rest, _, ho⟩ => ⟨w, rest, ho⟩

theorem completes_step {e e' : Expect} {token : JsonToken} {v : Json}
    (h : e.step token = some e') (he' : e'.Completes v) : e.Completes v := by
  unfold step at h
  split at h <;> cases h
  · exact completes_value he'
  · exact completes_value he'
  · exact completes_value (within_of_deliver he')
  · exact completes_value (within_of_deliver he')
  · exact completes_value (within_of_deliver he')
  · exact Within.mono (within_of_deliver he') fun a ha => ⟨[], ha⟩
  · exact he'
  · exact Within.mono (within_of_deliver he') fun a ha => ⟨[], by rw [List.append_nil]; exact ha⟩
  · exact Within.mono he' fun o ⟨w, rest, ho⟩ => ⟨_, ho⟩
  · exact Within.mono (within_of_deliver he') fun o ho => ⟨[], ho⟩
  · exact he'
  · exact he'
  · exact Within.mono (within_of_deliver he') fun o ho => ⟨[], by rw [List.append_nil]; exact ho⟩

/-- What is read of a document is in it. -/
theorem completes_of_read {r : TextReader} {text : List Char} {v : Json}
    (h : (r.read text).bind close = some v) : r.expect.Completes v := by
  by_contra hnot
  have hdone := done_of_invariant (P := fun e => ¬ e.Completes v)
    (fun e token e' he hstep he' => he (completes_step hstep he')) h hnot
  exact hdone rfl

end Expect

/-! ## Quotes inside a string -/

/-- A text without a quote is in front of the first one. -/
theorem append_eq_quote {l r x y : List Char} (h : l ++ r = x ++ '"' :: y) (hl : '"' ∉ l) :
    ∃ x', x = l ++ x' ∧ r = x' ++ '"' :: y := by
  induction l generalizing x with
  | nil => exact ⟨x, rfl, h⟩
  | cons c l ih =>
    rw [List.mem_cons, not_or] at hl
    cases x with
    | nil => exact absurd (List.cons.inj h).1.symm hl.1
    | cons d x =>
      obtain ⟨hc, htail⟩ := List.cons.inj h
      obtain ⟨x', rfl, hr⟩ := ih htail hl.2
      exact ⟨x', by rw [hc]; rfl, hr⟩

/-- The first quote of a text that stands for something is escaped. -/
theorem quote_of_readUnits {raw x y : List Char} {units : List (Char ⊕ Nat)}
    (hraw : raw = x ++ '"' :: y) (h : readUnits raw = some units) :
    ∃ front rest, units = front ++ .inl '"' :: rest ∧ front.length < x.length := by
  induction raw using readUnits.induct generalizing x units with
  | case1 => simp at hraw
  | case2 a b c d raw ih =>
    rw [readUnits] at h
    obtain ⟨unit, hunit, h⟩ := Option.bind_eq_some_iff.mp h
    obtain ⟨units', hunits, h⟩ := Option.bind_eq_some_iff.mp h
    cases h
    have hdigits : '"' ∉ ['\\', 'u', a, b, c, d] := by
      have hquote : hexDigit '"' = none := rfl
      simp only [List.mem_cons, List.not_mem_nil, or_false]
      rintro (h | h | rfl | rfl | rfl | rfl)
      · cases h
      · cases h
      all_goals simp [hexUnit, hquote] at hunit
    obtain ⟨x', rfl, hraw'⟩ := append_eq_quote (l := ['\\', 'u', a, b, c, d]) hraw hdigits
    obtain ⟨front, rest, rfl, hlength⟩ := ih hraw' hunits
    refine ⟨.inr unit :: front, rest, rfl, ?_⟩
    simp only [List.length_append, List.length_cons]
    omega
  | case3 c raw hnot ih =>
    rw [readUnits.eq_3 _ _ hnot] at h
    obtain ⟨e, he, h⟩ := Option.bind_eq_some_iff.mp h
    obtain ⟨units', hunits, h⟩ := Option.bind_eq_some_iff.mp h
    cases h
    by_cases hquote : c = '"'
    · subst hquote
      cases he
      cases x with
      | nil => cases (List.cons.inj hraw).1
      | cons d x => exact ⟨[], units', rfl, Nat.succ_pos _⟩
    · have hpair : '"' ∉ ['\\', c] := by
        simp only [List.mem_cons, List.not_mem_nil, or_false, not_or]
        exact ⟨by decide, fun heq => hquote heq.symm⟩
      obtain ⟨x', rfl, hraw'⟩ := append_eq_quote (l := ['\\', c]) hraw hpair
      obtain ⟨front, rest, rfl, hlength⟩ := ih hraw' hunits
      refine ⟨.inl e :: front, rest, rfl, ?_⟩
      simp only [List.length_append, List.length_cons]
      omega
  | case4 c raw hnot hnot' hplain ih =>
    rw [readUnits_plain hplain] at h
    obtain ⟨units', hunits, rfl⟩ := Option.map_eq_some_iff.mp h
    have hc : '"' ∉ [c] := by
      rw [List.mem_singleton]
      exact fun heq => (isPlain_iff.mp hplain).1 heq.symm
    obtain ⟨x', rfl, hraw'⟩ := append_eq_quote (l := [c]) hraw hc
    obtain ⟨front, rest, rfl, hlength⟩ := ih hraw' hunits
    refine ⟨.inl c :: front, rest, rfl, ?_⟩
    simp only [List.length_append, List.length_cons]
    omega
  | case5 c raw hnot hnot' hplain =>
    rw [readUnits.eq_4 _ _ hnot hnot', if_neg hplain] at h
    cases h

theorem quote_of_joinUnits {units front rest : List (Char ⊕ Nat)} {s : List Char}
    (hunits : units = front ++ .inl '"' :: rest) (h : joinUnits units = some s) :
    ∃ s₁ s₂, s = s₁ ++ '"' :: s₂ ∧ s₁.length ≤ front.length := by
  induction units using joinUnits.induct generalizing front s with
  | case1 => simp at hunits
  | case2 c units ih =>
    rw [joinUnits] at h
    obtain ⟨s', hs', rfl⟩ := Option.map_eq_some_iff.mp h
    cases front with
    | nil =>
      obtain ⟨hc, -⟩ := List.cons.inj hunits
      cases hc
      exact ⟨[], s', rfl, Nat.le_refl _⟩
    | cons u front =>
      obtain ⟨s₁, s₂, rfl, hlength⟩ := ih (List.cons.inj hunits).2 hs'
      exact ⟨c :: s₁, s₂, rfl, Nat.succ_le_succ hlength⟩
  | case3 high low units hhigh hlow ih =>
    rw [joinUnits, if_pos hhigh, if_pos hlow] at h
    obtain ⟨s', hs', rfl⟩ := Option.map_eq_some_iff.mp h
    cases front with
    | nil => cases (List.cons.inj hunits).1
    | cons u front =>
      cases front with
      | nil => cases (List.cons.inj (List.cons.inj hunits).2).1
      | cons u' front =>
        obtain ⟨s₁, s₂, rfl, hlength⟩ := ih (List.cons.inj (List.cons.inj hunits).2).2 hs'
        refine ⟨_ :: s₁, s₂, rfl, ?_⟩
        simp only [List.length_cons]
        omega
  | case4 high low units hhigh hlow =>
    rw [joinUnits, if_pos hhigh, if_neg hlow] at h
    cases h
  | case5 high low units hhigh hlow =>
    rw [joinUnits, if_neg hhigh, if_pos hlow] at h
    cases h
  | case6 high low units hhigh hlow ih =>
    rw [joinUnits, if_neg hhigh, if_neg hlow] at h
    obtain ⟨s', hs', rfl⟩ := Option.map_eq_some_iff.mp h
    cases front with
    | nil => cases (List.cons.inj hunits).1
    | cons u front =>
      obtain ⟨s₁, s₂, rfl, hlength⟩ := ih (List.cons.inj hunits).2 hs'
      exact ⟨_ :: s₁, s₂, rfl, Nat.succ_le_succ hlength⟩
  | case7 unit units hnot hsurrogate =>
    rw [joinUnits.eq_4 _ _ hnot, if_pos hsurrogate] at h
    cases h
  | case8 unit units hnot hsurrogate ih =>
    rw [joinUnits.eq_4 _ _ hnot, if_neg hsurrogate] at h
    obtain ⟨s', hs', rfl⟩ := Option.map_eq_some_iff.mp h
    cases front with
    | nil => cases (List.cons.inj hunits).1
    | cons u front =>
      obtain ⟨s₁, s₂, rfl, hlength⟩ := ih (List.cons.inj hunits).2 hs'
      exact ⟨_ :: s₁, s₂, rfl, Nat.succ_le_succ hlength⟩

/-- The first quote of a text that has one behind it. -/
theorem first_quote (d y : List Char) : ∃ x more z, '"' ∉ x ∧ d = x ++ more ∧
    d ++ '"' :: y = x ++ '"' :: z := by
  induction d with
  | nil => exact ⟨[], [], y, List.not_mem_nil, rfl, rfl⟩
  | cons c d ih =>
    by_cases hc : c = '"'
    · subst hc
      exact ⟨[], '"' :: d, d ++ '"' :: y, List.not_mem_nil, rfl, rfl⟩
    · obtain ⟨x, more, z, hx, hd, hsplit⟩ := ih
      refine ⟨c :: x, more, z, ?_, by rw [hd]; rfl, by rw [List.cons_append, hsplit]; rfl⟩
      rw [List.mem_cons, not_or]
      exact ⟨fun heq => hc heq.symm, hx⟩

/-- The text up to a quote behind it does not stand for the text. -/
theorem unescape_quote_ne {d y : List Char} : unescape (d ++ '"' :: y) ≠ some d := by
  intro h
  obtain ⟨units, hunits, hjoin⟩ := Option.bind_eq_some_iff.mp h
  obtain ⟨x, more, z, hx, rfl, hsplit⟩ := first_quote d y
  obtain ⟨front, rest, rfl, hfront⟩ := quote_of_readUnits hsplit hunits
  obtain ⟨s₁, s₂, hd, hs₁⟩ := quote_of_joinUnits rfl hjoin
  obtain ⟨x', rfl, -⟩ := append_eq_quote hd hx
  rw [List.length_append] at hs₁
  omega

/-- A text that is put between quotes as it is. It is read as itself only if it needs no
escaping. -/
theorem plain_of_read {d rest : List Char} {e : Expect} {v : Json}
    (h : ((next e).read ('"' :: (d ++ '"' :: rest))).bind close = some v)
    (hplace : ∀ s e', e.step (.str s) = some e' → e'.Completes v → s = d) :
    d.all isPlain = true := by
  have hopen : (next e).feed '"' = some ⟨.string [] false, e⟩ := rfl
  rw [read_cons, hopen, Option.bind_some] at h
  obtain ⟨r, hread, hclose⟩ := Option.bind_eq_some_iff.mp h
  rcases read_open_string hread with
    ⟨raw, escape, rfl⟩ | ⟨inner, rest', s, e', hsplit, hs, he, hrest⟩
  · cases hclose
  · have hdoc : ((next e').read rest').bind close = some v := by
      rw [hrest]
      exact hclose
    obtain rfl := hplace s e' he (completes_of_read hdoc)
    rw [List.nil_append] at hs
    -- The string ends at the quote behind the text, or goes on behind it.
    rcases List.append_eq_append_iff.mp hsplit with ⟨more, hinner, hquote⟩ | ⟨more, hd, hquote⟩
    · cases more with
      | nil =>
        rw [List.append_nil] at hinner
        rw [hinner] at hs
        exact ((length_unescape hs).2 rfl).1
      | cons c more =>
        obtain rfl := (List.cons.inj hquote).1
        rw [hinner] at hs
        exact absurd hs unescape_quote_ne
    · have hlength := (length_unescape hs).1
      rw [hd, List.length_append] at hlength
      have hnil : more = [] := List.eq_nil_of_length_eq_zero (by omega)
      rw [hnil, List.append_nil] at hd
      rw [← hd] at hs
      exact ((length_unescape hs).2 rfl).1

/-! ## Members whose texts are put between quotes as they are -/

def rawMember (m : List Char × List Char) : List Char :=
  '"' :: (m.1 ++ '"' :: ':' :: '"' :: (m.2 ++ ['"']))

def strMember (m : List Char × List Char) : List Char × Json := (m.1, .str m.2)

/-- Neither text of a member needs escaping. -/
def PlainMember (m : List Char × List Char) : Prop :=
  m.1.all isPlain = true ∧ m.2.all isPlain = true

theorem Within.exists {stack : List JsonFrame} {P : Json → Prop} {v : Json}
    (h : Within stack P v) : ∃ w, P w ∧ Within stack (· = w) v := by
  induction stack generalizing P with
  | nil => exact ⟨v, h, rfl⟩
  | cons frame stack ih =>
    cases frame with
    | array items =>
      obtain ⟨a, ⟨w, rest, hw, rfl⟩, hplace⟩ := ih h
      exact ⟨w, hw, hplace.mono fun b hb => ⟨w, rest, rfl, hb⟩⟩
    | object members name =>
      obtain ⟨o, ⟨w, rest, hw, rfl⟩, hplace⟩ := ih h
      exact ⟨w, hw, hplace.mono fun b hb => ⟨w, rest, rfl, hb⟩⟩

theorem readsMember_raw {m : List Char × List Char} (h : PlainMember m) :
    ReadsMember (rawMember m) (strMember m) :=
  readsMember_plain m.1 h.1 (reads_plain m.2 h.2)

theorem plain_of_member {members more : List (List Char × Json)} {stack : List JsonFrame}
    {m : List Char × List Char} {rest : List Char} {v : Json}
    (h : ((next (.member members stack)).read (rawMember m ++ rest)).bind close = some v)
    (hplace : ∀ w, Within stack (· = w) v → w = .object (members ++ strMember m :: more)) :
    PlainMember m := by
  have htext : rawMember m ++ rest =
      '"' :: (m.1 ++ '"' :: ':' :: '"' :: (m.2 ++ '"' :: rest)) := by
    simp [rawMember]
  rw [htext] at h
  have hname : m.1.all isPlain = true := by
    refine plain_of_read h fun s e' hstep hcomplete => ?_
    have he' : e' = .separator members s stack := by
      cases members <;> cases hstep <;> rfl
    subst he'
    obtain ⟨w, ⟨u, rest', hw⟩, hw'⟩ := Within.exists (show Within stack _ v from hcomplete)
    rw [hplace w hw', Json.object.injEq, List.append_cancel_left_eq, List.cons.injEq,
      strMember, Prod.mk.injEq] at hw
    exact hw.1.1.symm
  refine ⟨hname, ?_⟩
  rw [next_name members hname] at h
  refine plain_of_read h fun s e' hstep hcomplete => ?_
  cases hstep
  obtain ⟨w, ⟨rest', hw⟩, hw'⟩ := Within.exists (show Within stack _ v from hcomplete)
  rw [hplace w hw', Json.object.injEq, List.append_assoc, List.append_cancel_left_eq,
    List.singleton_append, List.cons.injEq, strMember, Prod.mk.injEq, Json.str.injEq] at hw
  exact hw.1.2.symm

/-- The members of an object that is at its place in a document. -/
theorem plain_of_members {ms : List (List Char × List Char)} {members : List (List Char × Json)}
    {stack : List JsonFrame} {rest : List Char} {v : Json}
    (h : ((next (.member members stack)).read
      ([','].intercalate (ms.map rawMember) ++ '}' :: rest)).bind close = some v)
    (hplace : ∀ w, Within stack (· = w) v → w = .object (members ++ ms.map strMember)) :
    ∀ m ∈ ms, PlainMember m := by
  induction ms generalizing members with
  | nil => exact fun m hm => nomatch hm
  | cons m ms ih =>
    cases ms with
    | nil =>
      rw [List.map_singleton, List.intercalate_singleton] at h
      intro m' hm'
      rw [List.mem_singleton.mp hm']
      exact plain_of_member h hplace
    | cons m' ms =>
      rw [List.map_cons, List.map_cons, List.intercalate_cons_cons, List.append_assoc,
        List.append_assoc, List.singleton_append] at h
      have hm := plain_of_member h hplace
      rw [(readsMember_raw hm).read _ _ (by decide), next_comma] at h
      have hrest := ih h fun w hw => by
        rw [hplace w hw, List.map_cons, List.append_assoc, List.singleton_append]
      intro m'' hm''
      rcases List.mem_cons.mp hm'' with rfl | hm''
      · exact hm
      · exact hrest m'' hm''

end Alpine.Lib
