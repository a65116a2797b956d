import WasmJit.Proofs.Format.Grammar
import WasmJit.Text.Utf8

/-!
# Texts in the binary format

`Utf8.valid` accepts exactly the bytes of texts (`Utf8.valid_iff`). Both sides take characters off
the front: `Utf8.CharBytes` says which bytes one character may have, by ranges of single bytes, and
these are the encodings of the characters (`Utf8.charBytes_iff`).
-/

namespace WasmJit.Utf8

/-- The bytes of one character, by ranges. -/
inductive CharBytes : List UInt8 → Prop where
  | one {a : UInt8} (first : a.toNat < 0x80) : CharBytes [a]
  | two {a b : UInt8} (first : within 0xc2 0xdf a) (second : continues b) : CharBytes [a, b]
  | three {a b c : UInt8} (start : startsThree a b) (third : continues c) : CharBytes [a, b, c]
  | four {a b c d : UInt8} (start : startsFour a b) (third : continues c) (fourth : continues d) :
      CharBytes [a, b, c, d]

/-! ### Ranges -/

/-- Ranges of bytes as ranges of numbers, on which all arithmetic below is done. -/
theorem within_iff {lo hi b : UInt8} :
    within lo hi b = true ↔ lo.toNat ≤ b.toNat ∧ b.toNat ≤ hi.toNat := by
  simp [within, UInt8.le_iff_toNat_le]

theorem continues_iff {b : UInt8} : continues b = true ↔ 0x80 ≤ b.toNat ∧ b.toNat ≤ 0xbf :=
  within_iff

/-- The first two bytes of a character of three bytes. After the first of them, smaller numbers have
a shorter form, and after `0xed` come the surrogates. -/
theorem startsThree_iff {a b : UInt8} :
    startsThree a b = true ↔
      (0xe0 ≤ a.toNat ∧ a.toNat ≤ 0xef) ∧ (0x80 ≤ b.toNat ∧ b.toNat ≤ 0xbf) ∧
        (a.toNat = 0xe0 → 0xa0 ≤ b.toNat) ∧ (a.toNat = 0xed → b.toNat ≤ 0x9f) := by
  simp only [startsThree, ← UInt8.toNat_inj, UInt8.reduceToNat]
  split
  · simp only [within_iff, UInt8.reduceToNat]
    omega
  · split
    · simp only [within_iff, UInt8.reduceToNat]
      omega
    · simp only [Bool.and_eq_true, within_iff, continues_iff, UInt8.reduceToNat]
      omega

/-- The first two bytes of a character of four bytes. Here the upper bound is that of all
characters. -/
theorem startsFour_iff {a b : UInt8} :
    startsFour a b = true ↔
      (0xf0 ≤ a.toNat ∧ a.toNat ≤ 0xf4) ∧ (0x80 ≤ b.toNat ∧ b.toNat ≤ 0xbf) ∧
        (a.toNat = 0xf0 → 0x90 ≤ b.toNat) ∧ (a.toNat = 0xf4 → b.toNat ≤ 0x8f) := by
  simp only [startsFour, ← UInt8.toNat_inj, UInt8.reduceToNat]
  split
  · simp only [within_iff, UInt8.reduceToNat]
    omega
  · split
    · simp only [within_iff, UInt8.reduceToNat]
      omega
    · simp only [Bool.and_eq_true, within_iff, continues_iff, UInt8.reduceToNat]
      omega

/-! ### Characters -/

theorem exists_char {n : Nat} (h : n.isValidChar) : ∃ c : Char, c.val.toNat = n :=
  ⟨Char.ofNatAux n h, rfl⟩

/-- **The bytes of a character determine it**: every byte adds the bits that its range leaves open.
The ranges of the second byte are just what makes the resulting number a character with this length.
-/
theorem CharBytes.exists_char {w : List UInt8} (h : CharBytes w) :
    ∃ c, w = String.utf8EncodeChar c := by
  cases h with
  | @one a first =>
    -- its number is the byte itself
    obtain ⟨c, hc⟩ := Utf8.exists_char (n := a.toNat) (by omega)
    refine ⟨c, ?_⟩
    simp only [String.utf8EncodeChar, hc]
    rw [if_pos (by omega), UInt8.ofNat_toNat]
  | @two a b first second =>
    -- the number is put together from the bits of the bytes, from the upper ones down
    have ha := within_iff.mp first
    have hb := continues_iff.mp second
    simp only [UInt8.reduceToNat] at ha
    obtain ⟨c, hc⟩ := Utf8.exists_char (n := (a.toNat - 0xc0) * 64 + (b.toNat - 0x80)) (by omega)
    refine ⟨c, ?_⟩
    simp only [String.utf8EncodeChar, hc]
    rw [if_neg (by omega), if_pos (by omega)]
    simp only [List.cons.injEq, ← UInt8.toNat_inj, UInt8.toNat_ofNat', and_true]
    omega
  | @three a b c start third =>
    -- the second byte keeps it clear of the surrogates
    have hab := startsThree_iff.mp start
    have hc := continues_iff.mp third
    obtain ⟨d, hd⟩ := Utf8.exists_char
      (n := (a.toNat - 0xe0) * 4096 + (b.toNat - 0x80) * 64 + (c.toNat - 0x80)) (by omega)
    refine ⟨d, ?_⟩
    simp only [String.utf8EncodeChar, hd]
    rw [if_neg (by omega), if_neg (by omega), if_pos (by omega)]
    simp only [List.cons.injEq, ← UInt8.toNat_inj, UInt8.toNat_ofNat', and_true]
    omega
  | @four a b c d start third fourth =>
    -- here it keeps it below the greatest number of a character
    have hab := startsFour_iff.mp start
    have hc := continues_iff.mp third
    have hd := continues_iff.mp fourth
    obtain ⟨e, he⟩ := Utf8.exists_char
      (n := (a.toNat - 0xf0) * 262144 + (b.toNat - 0x80) * 4096 + (c.toNat - 0x80) * 64
        + (d.toNat - 0x80)) (by omega)
    refine ⟨e, ?_⟩
    simp only [String.utf8EncodeChar, he]
    rw [if_neg (by omega), if_neg (by omega), if_neg (by omega)]
    simp only [List.cons.injEq, ← UInt8.toNat_inj, UInt8.toNat_ofNat', and_true]
    omega

/-- **The encoding of a character is in the ranges.** The cases are the four lengths, by the bounds
on the number of the character. -/
theorem charBytes_utf8EncodeChar (c : Char) : CharBytes (String.utf8EncodeChar c) := by
  have hvalid : c.val.toNat < 0xd800 ∨ 0xdfff < c.val.toNat ∧ c.val.toNat < 0x110000 := c.valid
  unfold String.utf8EncodeChar
  dsimp only
  -- surrogates would take three bytes and too large numbers four, but no character is one of them
  split
  · refine .one ?_
    simp only [UInt8.toNat_ofNat']
    omega
  · split
    · refine .two (within_iff.mpr ?_) (continues_iff.mpr ?_)
      · simp only [UInt8.toNat_ofNat', UInt8.reduceToNat]
        omega
      · simp only [UInt8.toNat_ofNat']
        omega
    · split
      · refine .three (startsThree_iff.mpr ?_) (continues_iff.mpr ?_)
        · simp only [UInt8.toNat_ofNat']
          omega
        · simp only [UInt8.toNat_ofNat']
          omega
      · refine .four (startsFour_iff.mpr ?_) (continues_iff.mpr ?_) (continues_iff.mpr ?_)
        · simp only [UInt8.toNat_ofNat']
          omega
        · simp only [UInt8.toNat_ofNat']
          omega
        · simp only [UInt8.toNat_ofNat']
          omega

/-- **The ranges are those of characters**: in shortest form, without surrogates, and below
`0x110000`. -/
theorem charBytes_iff {w : List UInt8} : CharBytes w ↔ ∃ c, w = String.utf8EncodeChar c :=
  ⟨CharBytes.exists_char, fun ⟨c, hc⟩ => hc ▸ charBytes_utf8EncodeChar c⟩

/-! ### Texts -/

theorem within_eq_false {lo hi b : UInt8} (h : hi.toNat < b.toNat) : within lo hi b = false := by
  rw [← Bool.not_eq_true, within_iff]
  omega

/-- The test for a single byte, on numbers. -/
theorem not_lt_iff {a : UInt8} : ¬ a < 0x80 ↔ 0x80 ≤ a.toNat := by
  rw [UInt8.lt_iff_toNat_lt, Nat.not_lt]
  rfl

/-- The bytes of a character in front of others do not change whether they are valid. The ranges of
the first byte exclude each other, so they decide how many bytes are taken off. -/
theorem CharBytes.valid_append {w : List UInt8} (h : CharBytes w) (rest : List UInt8) :
    valid (w ++ rest) = valid rest := by
  -- one case per length; the earlier branches of `valid` are ruled out by the first byte
  cases h with
  | @one a first =>
    have hlt : a < 0x80 := first
    rw [List.singleton_append, valid.eq_def]
    simp [hlt]
  | @two a b first second =>
    have hge : ¬ a < 0x80 := not_lt_iff.mpr (Nat.le_trans (by decide) (within_iff.mp first).1)
    rw [List.cons_append, List.singleton_append, valid.eq_def]
    simp [hge, first, second]
  | @three a b c start third =>
    have hab := (startsThree_iff.mp start).1
    have hge : ¬ a < 0x80 := not_lt_iff.mpr (by omega)
    have htwo : within 0xc2 0xdf a = false := within_eq_false hab.1
    have hthree : within 0xe0 0xef a := within_iff.mpr hab
    rw [List.cons_append, List.cons_append, List.singleton_append, valid.eq_def]
    simp [hge, htwo, hthree, start, third]
  | @four a b c d start third fourth =>
    have hab := (startsFour_iff.mp start).1
    have hge : ¬ a < 0x80 := not_lt_iff.mpr (by omega)
    have htwo : within 0xc2 0xdf a = false := within_eq_false (Nat.le_trans (by decide) hab.1)
    have hthree : within 0xe0 0xef a = false := within_eq_false hab.1
    rw [List.cons_append, List.cons_append, List.cons_append, List.singleton_append, valid.eq_def]
    simp [hge, htwo, hthree, start, third, fourth]

/-- A text with one more character in front. -/
theorem CharBytes.exists_text {w rest : List UInt8} (h : CharBytes w)
    (hrest : ∃ text, Format.Utf8 rest text) : ∃ text, Format.Utf8 (w ++ rest) text := by
  obtain ⟨c, rfl⟩ := charBytes_iff.mp h
  obtain ⟨text, rfl⟩ := hrest
  exact ⟨c :: text, List.flatMap_cons.symm⟩

/-- **Valid bytes are a text**, character by character along the recursion of the check. -/
theorem exists_text_of_valid (bytes : List UInt8) (h : valid bytes = true) :
    ∃ text, Format.Utf8 bytes text := by
  -- the cases are the lengths of the first character, or there is no room for it
  fun_induction valid bytes with
  | case1 => exact ⟨[], rfl⟩
  | case2 a rest hlt ih => exact (CharBytes.one hlt).exists_text (ih h)
  | case4 a _ b rest hfirst ih =>
    rw [Bool.and_eq_true] at h
    exact (CharBytes.two hfirst h.1).exists_text (ih h.2)
  | case6 a _ b _ c rest _ ih =>
    simp only [Bool.and_eq_true] at h
    exact (CharBytes.three h.1.1 h.1.2).exists_text (ih h.2)
  | case8 a _ b _ c _ d rest ih =>
    simp only [Bool.and_eq_true] at h
    exact (CharBytes.four h.1.1.1 h.1.1.2 h.1.2).exists_text (ih h.2)
  | case3 | case5 | case7 => cases h

/-- **Valid bytes are the bytes of texts.** -/
theorem valid_iff (bytes : List UInt8) :
    valid bytes = true ↔ ∃ text, Format.Utf8 bytes text := by
  refine ⟨exists_text_of_valid bytes, ?_⟩
  rintro ⟨text, rfl⟩
  induction text with
  | nil => rfl
  | cons c text ih =>
    rw [List.flatMap_cons, (charBytes_utf8EncodeChar c).valid_append]
    exact ih

end WasmJit.Utf8
