import Mathlib.Data.List.Basic

/-!
# UTF-8

`utf8` is the byte string of a text. Byte strings with a text have only one (`utf8_injective`).
A function on bytes that leaves the bytes of the other characters alone works on a text as on its
bytes (`flatMap_utf8`).
-/

namespace Alpine.Lib

def utf8 (text : List Char) : List UInt8 := text.flatMap String.utf8EncodeChar

/-- The byte of a character below 128. -/
def byte (c : Char) : UInt8 := UInt8.ofNat c.toNat

@[simp] theorem utf8_nil : utf8 [] = [] := rfl

theorem utf8_append (s t : List Char) : utf8 (s ++ t) = utf8 s ++ utf8 t := List.flatMap_append

theorem utf8_cons (c : Char) (s : List Char) :
    utf8 (c :: s) = String.utf8EncodeChar c ++ utf8 s := List.flatMap_cons

theorem utf8_injective : Function.Injective utf8 := by
  intro s t h
  have hs := List.utf8Decode?_utf8Encode (l := s)
  have ht := List.utf8Decode?_utf8Encode (l := t)
  have heq : s.utf8Encode = t.utf8Encode := congrArg List.toByteArray h
  rw [heq, ht] at hs
  exact (List.toArray_inj (Option.some.inj hs)).symm

theorem utf8EncodeChar_low {c : Char} (h : c.toNat ≤ 0x7f) : String.utf8EncodeChar c = [byte c] :=
  if_pos h

theorem le_of_mem_high {c : Char} (h : 0x7f < c.toNat) {b : UInt8}
    (hb : b ∈ String.utf8EncodeChar c) : 0x80 ≤ b.toNat := by
  have hval : c.val.toNat = c.toNat := rfl
  unfold String.utf8EncodeChar at hb
  dsimp only at hb
  rw [hval, if_neg (by omega)] at hb
  split at hb
  · simp only [List.mem_cons, List.not_mem_nil, or_false] at hb
    rcases hb with rfl | rfl <;> (rw [UInt8.toNat_ofNat']; omega)
  · split at hb
    · simp only [List.mem_cons, List.not_mem_nil, or_false] at hb
      rcases hb with rfl | rfl | rfl <;> (rw [UInt8.toNat_ofNat']; omega)
    · simp only [List.mem_cons, List.not_mem_nil, or_false] at hb
      rcases hb with rfl | rfl | rfl | rfl <;> (rw [UInt8.toNat_ofNat']; omega)

/-- What holds of every character of ASCII, one after the other. -/
theorem low_of_all {p : Char → Prop} (h : ∀ n : Fin 128, p (Char.ofNat n)) (c : Char)
    (hc : c.toNat ≤ 0x7f) : p c := by
  have hat := h ⟨c.toNat, by omega⟩
  rwa [Char.ofNat_toNat] at hat

theorem high_of_all {p : UInt8 → Prop} (h : ∀ n : Fin 256, 0x80 ≤ n.val → p (UInt8.ofNat n))
    (b : UInt8) (hb : 0x80 ≤ b.toNat) : p b := by
  have hat := h ⟨b.toNat, b.toNat_lt⟩ hb
  rwa [UInt8.ofNat_toNat] at hat

/-- What a function does to the bytes of a text, if the text has other characters left alone. -/
theorem flatMap_utf8 {f : UInt8 → List UInt8} {g : Char → List Char}
    (hlow : ∀ c : Char, c.toNat ≤ 0x7f → f (byte c) = utf8 (g c))
    (hbyte : ∀ b : UInt8, 0x80 ≤ b.toNat → f b = [b])
    (hhigh : ∀ c : Char, 0x7f < c.toNat → g c = [c]) (text : List Char) :
    (utf8 text).flatMap f = utf8 (text.flatMap g) := by
  induction text with
  | nil => rfl
  | cons c text ih =>
    rw [utf8_cons, List.flatMap_append, List.flatMap_cons, utf8_append, ih]
    congr 1
    by_cases hc : c.toNat ≤ 0x7f
    · rw [utf8EncodeChar_low hc, List.flatMap_singleton, hlow c hc]
    · have hall : ∀ b ∈ String.utf8EncodeChar c, f b = [b] :=
        fun b hb => hbyte b (le_of_mem_high (by omega) hb)
      rw [hhigh c (by omega), List.flatMap_congr hall, List.flatMap_singleton']
      exact (List.append_nil _).symm

/-! ## Cutting byte strings -/

theorem prefix_of_utf8 {s t : List Char} {bytes : List UInt8} (h : utf8 s ++ bytes = utf8 t) :
    s <+: t := by
  refine List.isPrefix_of_utf8Encode_append_eq_utf8Encode bytes.toByteArray ?_
  rw [List.utf8Encode, List.utf8Encode, ← List.toByteArray_append]
  exact congrArg List.toByteArray h

/-- Behind the bytes of a text is the rest of the text. -/
theorem utf8_cancel {s t : List Char} {bytes : List UInt8} (h : utf8 s ++ bytes = utf8 t) :
    ∃ rest, t = s ++ rest ∧ bytes = utf8 rest := by
  obtain ⟨rest, rfl⟩ := prefix_of_utf8 h
  rw [utf8_append] at h
  exact ⟨rest, rfl, List.append_cancel_left h⟩

/-- A byte below 128 is a character of its own. -/
theorem utf8_split {d : Char} (hd : d.toNat ≤ 0x7f) {front back : List UInt8} {t : List Char}
    (h : front ++ byte d :: back = utf8 t) :
    ∃ s rest, t = s ++ d :: rest ∧ front = utf8 s ∧ back = utf8 rest := by
  have hbyte : (byte d).toNat < 0x80 := by
    unfold byte
    rw [UInt8.toNat_ofNat']
    omega
  induction t generalizing front with
  | nil => exact absurd h (by simp)
  | cons c t ih =>
    rw [utf8_cons] at h
    by_cases hc : c.toNat ≤ 0x7f
    · rw [utf8EncodeChar_low hc] at h
      cases front with
      | nil =>
        obtain ⟨hfirst, hrest⟩ := List.cons.inj h
        have hsame : c = d := by
          have := congrArg UInt8.toNat hfirst
          unfold byte at this
          rw [UInt8.toNat_ofNat', UInt8.toNat_ofNat'] at this
          exact Char.toNat_inj.mp (by omega)
        exact ⟨[], t, by rw [hsame]; rfl, rfl, hrest⟩
      | cons b front =>
        obtain ⟨rfl, hrest⟩ := List.cons.inj h
        obtain ⟨s, rest, rfl, rfl, rfl⟩ := ih hrest
        refine ⟨c :: s, rest, rfl, ?_, rfl⟩
        rw [utf8_cons, utf8EncodeChar_low hc]
        rfl
    · -- the byte is not inside the bytes of another character
      have hle : (String.utf8EncodeChar c).length ≤ front.length := by
        by_contra hlt
        have hmem : byte d ∈ String.utf8EncodeChar c := by
          have hget := congrArg (fun l => l[front.length]?) h
          simp only [List.getElem?_append_right (Nat.le_refl front.length), Nat.sub_self,
            List.getElem?_cons_zero, List.getElem?_append_left (Nat.lt_of_not_le hlt)] at hget
          exact List.mem_of_getElem? hget.symm
        have := le_of_mem_high (by omega) hmem
        omega
      obtain ⟨front', rfl⟩ : ∃ front', front = String.utf8EncodeChar c ++ front' := by
        have hpre : String.utf8EncodeChar c <+: front ++ byte d :: back := ⟨_, h.symm⟩
        obtain ⟨front', hfront⟩ := List.prefix_of_prefix_length_le hpre
          (List.prefix_append front (byte d :: back)) hle
        exact ⟨front', hfront.symm⟩
      rw [List.append_assoc] at h
      obtain ⟨s, rest, rfl, rfl, rfl⟩ := ih (List.append_cancel_left h)
      exact ⟨c :: s, rest, rfl, (utf8_cons c s).symm, rfl⟩

/-- The start of a byte string is a text with the start of one character behind it. -/
theorem utf8_take (t : List Char) (n : Nat) :
    ∃ s part, (utf8 t).take n = utf8 s ++ part ∧
      (part = [] ∨ ∃ c, 0x7f < c.toNat ∧ part <+: String.utf8EncodeChar c ∧
        part.length < (String.utf8EncodeChar c).length) := by
  induction t generalizing n with
  | nil => exact ⟨[], [], by simp, .inl rfl⟩
  | cons c t ih =>
    rw [utf8_cons, List.take_append]
    by_cases hn : (String.utf8EncodeChar c).length ≤ n
    · obtain ⟨s, part, htake, hpart⟩ := ih (n - (String.utf8EncodeChar c).length)
      refine ⟨c :: s, part, ?_, hpart⟩
      rw [List.take_of_length_le hn, htake, utf8_cons, List.append_assoc]
    · rw [show n - (String.utf8EncodeChar c).length = 0 by omega, List.take_zero, List.append_nil]
      by_cases hc : c.toNat ≤ 0x7f
      · rw [utf8EncodeChar_low hc] at hn ⊢
        refine ⟨[], [], ?_, .inl rfl⟩
        rw [show n = 0 by simpa using hn]
        rfl
      · refine ⟨[], (String.utf8EncodeChar c).take n, rfl, .inr ⟨c, by omega, ?_, ?_⟩⟩
        · exact List.take_prefix _ _
        · rw [List.length_take]
          omega

/-- The start of a character is no text. -/
theorem not_utf8_part {part : List UInt8} {c : Char} (hne : part ≠ [])
    (hpart : part <+: String.utf8EncodeChar c)
    (hlt : part.length < (String.utf8EncodeChar c).length) (s : List Char) : part ≠ utf8 s := by
  rintro rfl
  obtain ⟨rest, hrest⟩ := hpart
  have hchar : utf8 [c] = String.utf8EncodeChar c := List.append_nil _
  have hpre : s <+: [c] := prefix_of_utf8 (hrest.trans hchar.symm)
  cases s with
  | nil => exact hne rfl
  | cons d s =>
    obtain ⟨t, ht⟩ := hpre
    obtain ⟨rfl, hnil⟩ := List.cons.inj ht
    obtain ⟨rfl, -⟩ := List.append_eq_nil_iff.mp hnil
    rw [hchar] at hlt
    omega

end Alpine.Lib
