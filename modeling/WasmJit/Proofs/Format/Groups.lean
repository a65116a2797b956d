import Mathlib.Algebra.BigOperators.Fin
import Mathlib.Order.Bounds.Defs
import WasmJit.Proofs.Format.Bodies

/-!
# Numbers as sums of groups

`Format.Unsigned` says byte by byte which words write a number. Here a word is looked at as a whole:
every byte but the last goes on (`Varint.Terminated`), and the number is the sum of the groups, each
with the weight of its place (`Varint.groupSum`). Both readers accept exactly the words of at most
five bytes whose sum fits in 32 bits, and this leaves two ways to fail: there are five bytes without
such a word at their head, or there are fewer, all of which go on.

* `Varint.unsigned_iff` joins the two views.
* `Varint.readGroups_eq_endOfInput_iff` and `Varint.length_of_readGroups_overflow` say when reading
  fails.
* `Varint.unsigned_numbers_exact` is the whole picture, with the shortest word for a number.
-/

namespace WasmJit.Varint

open Format (Unsigned U32)

/-- **A word that ends**: every byte but the last has its high bit set, and the last has not. -/
def Terminated (w : List UInt8) : Prop :=
  (∀ b ∈ w.dropLast, 128 ≤ b.toNat) ∧ ∃ b ∈ w.getLast?, b.toNat < 128

-- it looks at the bytes of the word, not at all bytes that there are
instance : DecidablePred Terminated := fun w =>
  @instDecidableAnd _ _ (List.decidableBAll _ w.dropLast) (Option.decidableExistsMem w.getLast?)

/-- **The number that the groups of a word make up**: group `i` has the weight `2 ^ (7 * i)`. -/
def groupSum (w : List UInt8) : Nat :=
  ∑ i : Fin w.length, (w.get i).toNat % 128 * 2 ^ (7 * i.val)

/-- **A word encodes a number** of 32 bits: it ends within five bytes, and no bit of the sum of its
groups is lost. -/
def Encodes (w : List UInt8) (v : UInt32) : Prop :=
  Terminated w ∧ w.length ≤ 5 ∧ groupSum w = v.toNat

instance (w : List UInt8) (v : UInt32) : Decidable (Encodes w v) :=
  inferInstanceAs (Decidable (_ ∧ _))

/-! ### Byte by byte -/

theorem not_terminated_nil : ¬ Terminated [] := by
  rintro ⟨-, b, hb, -⟩
  cases hb

/-- A word ends with its first byte, or its first byte goes on and the others end. -/
theorem terminated_cons_iff {b : UInt8} {w : List UInt8} :
    Terminated (b :: w) ↔ w = [] ∧ b.toNat < 128 ∨ 128 ≤ b.toNat ∧ Terminated w := by
  cases w with
  | nil => simp [Terminated]
  | cons c w =>
    have hlast : (b :: c :: w).getLast? = (c :: w).getLast? := List.getLast?_cons_cons
    simp only [Terminated, List.dropLast_cons_cons, List.forall_mem_cons, hlast, reduceCtorEq,
      false_and, false_or, and_assoc]

theorem groupSum_nil : groupSum [] = 0 := rfl

/-- The groups after the first one have the weights of one place higher, so the sum can be taken
from the last group backwards, as `Format.Unsigned` does it. -/
theorem groupSum_cons (b : UInt8) (w : List UInt8) :
    groupSum (b :: w) = b.toNat % 128 + 128 * groupSum w := by
  have hplace : ∀ i : Fin w.length, (w.get i).toNat % 128 * 2 ^ (7 * (i.val + 1)) =
      128 * ((w.get i).toNat % 128 * 2 ^ (7 * i.val)) := by
    intro i
    calc (w.get i).toNat % 128 * 2 ^ (7 * (i.val + 1))
        = (w.get i).toNat % 128 * (2 ^ (7 * i.val) * 128) := by rw [Nat.mul_succ, Nat.pow_add]
      _ = 128 * ((w.get i).toNat % 128 * 2 ^ (7 * i.val)) := by rw [← Nat.mul_assoc, Nat.mul_comm]
  -- the group at the front has the weight one
  have hsum : groupSum (b :: w) = b.toNat % 128 * 2 ^ (7 * 0) +
      ∑ i : Fin w.length, (w.get i).toNat % 128 * 2 ^ (7 * (i.val + 1)) :=
    Fin.sum_univ_succ fun i : Fin (w.length + 1) =>
      ((b :: w).get i).toNat % 128 * 2 ^ (7 * i.val)
  rw [hsum, Finset.sum_congr rfl fun i _ => hplace i, ← Finset.mul_sum, Nat.mul_zero, Nat.pow_zero,
    Nat.mul_one]
  rfl

/-- **A number is the sum of its groups**, the last of which starts below its width. The format
bounds each byte by the width that is left in front of it; looked at as a whole, this is one bound
on the length and one on the sum. By induction on the word, with the width going down by seven. -/
theorem unsigned_iff {bits n : Nat} {w : List UInt8} (hbits : 0 < bits) :
    Unsigned bits w n ↔
      Terminated w ∧ 7 * (w.length - 1) < bits ∧ groupSum w = n ∧ n < 2 ^ bits := by
  -- one byte after the other, with the width that is left
  induction w generalizing bits n with
  | nil =>
    refine ⟨nofun, ?_⟩
    rintro ⟨hends, -⟩
    exact absurd hends not_terminated_nil
  | cons b w ih =>
    rw [terminated_cons_iff, groupSum_cons, List.length_cons, Nat.add_sub_cancel]
    constructor
    · intro h
      have hlt := h.lt_two_pow
      cases h with
      | last isLast fits =>
        refine ⟨.inl ⟨rfl, isLast⟩, hbits, ?_, fits⟩
        rw [groupSum_nil, Nat.mod_eq_of_lt isLast]
        rfl
      | @more _ _ _ n goesOn room rest =>
        obtain ⟨hends, hlength, hsum, -⟩ := (ih (by omega)).mp rest
        have hpos := rest.length_pos
        have hbyte := b.toNat_lt
        refine ⟨.inr ⟨goesOn, hends⟩, by omega, ?_, hlt⟩
        rw [hsum]
        omega
    · -- a word that ends with its first byte, or one that goes on
      rintro ⟨⟨rfl, hlast⟩ | ⟨hmore, hends⟩, hlength, rfl, hlt⟩
      · rw [groupSum_nil, Nat.mul_zero, Nat.add_zero, Nat.mod_eq_of_lt hlast] at hlt ⊢
        exact .last hlast hlt
      · have hbyte := b.toNat_lt
        have hpos : 0 < w.length := by
          refine List.length_pos_iff.mpr ?_
          rintro rfl
          exact not_terminated_nil hends
        -- the groups after the first one fit in what is left of the width
        have hrest : groupSum w < 2 ^ (bits - 7) := by
          have hsplit : 2 ^ bits = 128 * 2 ^ (bits - 7) := by
            rw [show (128 : Nat) = 2 ^ 7 from rfl, ← Nat.pow_add, Nat.add_sub_cancel' (by omega)]
          omega
        have htail := (ih (show 0 < bits - 7 by omega)).mpr ⟨hends, by omega, rfl, hrest⟩
        have hvalue : b.toNat % 128 + 128 * groupSum w = b.toNat - 128 + 128 * groupSum w := by
          omega
        rw [hvalue]
        exact .more hmore (by omega) htail

/-- The words of a number of 32 bits. -/
theorem u32_iff_encodes {w : List UInt8} {v : UInt32} : U32 w v ↔ Encodes w v := by
  rw [U32, unsigned_iff (by decide), Encodes]
  refine and_congr_right fun _ => ?_
  have hlt := v.toNat_lt
  have hlength : 7 * (w.length - 1) < 32 ↔ w.length ≤ 5 := by omega
  rw [hlength]
  refine and_congr_right fun _ => ?_
  -- a number of 32 bits fits in 32 bits
  rw [and_iff_left hlt]

example : Encodes [0xe5, 0x8e, 0xa6, 0x80, 0x00] 624485 := by decide

/-! ### Failures -/

variable {groups : Nat} {shift acc : UInt32} {bytes : List UInt8}

/-- **Reading ends inside a number** if there is room for more bytes and all that there are go on.
What was read before does not matter, so `shift` and `acc` are arbitrary. -/
theorem readGroups_eq_endOfInput_iff :
    readGroups groups shift acc bytes = .error .endOfInput ↔
      bytes.length < groups ∧ ∀ b ∈ bytes, 128 ≤ b.toNat := by
  induction groups generalizing shift acc bytes with
  | zero => simp [readGroups]
  | succ left ih =>
    cases bytes with
    | nil => simp [readGroups]
    | cons b bytes =>
      rw [readGroups, List.length_cons, Nat.succ_lt_succ_iff, List.forall_mem_cons]
      split
      · next hlast =>
        have hlast : b.toNat < 128 := hlast
        -- a byte that ends a number settles the matter
        constructor
        · intro h
          split at h <;> cases h
        · rintro ⟨-, hb, -⟩
          omega
      · next hmore =>
        have hmore : ¬ b.toNat < 128 := hmore
        rw [ih, and_iff_right (Nat.not_lt.mp hmore)]

/-- A number that does not fit takes all the bytes it may take: an overflow is noticed at the last
of them or behind it. -/
theorem length_of_readGroups_overflow {bits : Nat}
    (h : readGroups groups shift acc bytes = .error (.overflow bits)) :
    bits = 32 ∧ groups ≤ bytes.length := by
  induction groups generalizing shift acc bytes with
  | zero =>
    cases h
    exact ⟨rfl, Nat.zero_le _⟩
  | succ left ih =>
    cases bytes with
    | nil => cases h
    | cons b bytes =>
      rw [readGroups] at h
      split at h
      · split at h
        · next hspills =>
          cases h
          -- only the last group can be too wide
          cases left with
          | zero => exact ⟨rfl, Nat.succ_le_succ (Nat.zero_le _)⟩
          | succ left => cases hspills
        · cases h
      -- the byte goes on, so the groups after it decide
      · obtain ⟨hbits, hle⟩ := ih h
        exact ⟨hbits, Nat.succ_le_succ hle⟩

/-- Reading a number, without looking at what is left over. -/
theorem exists_readU32_iff_encodes {v : UInt32} :
    (∃ rest, readU32 bytes = .ok (v, rest)) ↔ ∃ w, w <+: bytes ∧ Encodes w v := by
  constructor
  · rintro ⟨rest, hread⟩
    obtain ⟨w, hw, hv⟩ := (readBy_readU32 bytes v rest).mp hread
    exact ⟨w, ⟨rest, hw.symm⟩, u32_iff_encodes.mp hv⟩
  · rintro ⟨w, ⟨rest, hw⟩, hv⟩
    exact ⟨rest, (readBy_readU32 bytes v rest).mpr ⟨w, hw.symm, u32_iff_encodes.mpr hv⟩⟩

/-- **Numbers that do not fit**: there are five bytes, and no word at their head is a number. The
converse is by exclusion: a number would be a word at the head, and the input does not end among
five bytes. -/
theorem readU32_eq_overflow_iff :
    readU32 bytes = .error (.overflow 32) ↔
      5 ≤ bytes.length ∧ ∀ w v, w <+: bytes.take 5 → ¬ Encodes w v := by
  constructor
  · intro h
    -- a word for a number would have been read
    refine ⟨(length_of_readGroups_overflow h).2, ?_⟩
    intro w v hw hv
    obtain ⟨rest, hread⟩ :=
      exists_readU32_iff_encodes.mpr ⟨w, hw.trans (List.take_prefix 5 bytes), hv⟩
    cases h.symm.trans hread
  · rintro ⟨hlength, hnone⟩
    cases hread : readU32 bytes with
    | ok result =>
      obtain ⟨w, hw, hv⟩ := exists_readU32_iff_encodes.mp ⟨result.2, hread⟩
      -- a number takes five bytes at most
      exact absurd hv (hnone w result.1 (List.prefix_take_iff.mpr ⟨hw, hv.2.1⟩))
    | error e =>
      cases e with
      | endOfInput =>
        have := (readGroups_eq_endOfInput_iff.mp hread).1
        omega
      | overflow bits =>
        obtain ⟨rfl, -⟩ := length_of_readGroups_overflow hread
        rfl

/-! ### Both readers -/

/-- **Looking up a number** gives the number and the bytes that it takes. -/
theorem loadU32_eq_ok_iff {v : UInt32} {n : Nat} :
    loadU32 bytes = .ok (v, n) ↔ ∃ w, w <+: bytes ∧ w.length = n ∧ Encodes w v := by
  rw [loadU32_eq, Except.map_eq_ok]
  constructor
  · rintro ⟨⟨v, rest⟩, hread, hresult⟩
    cases hresult
    obtain ⟨w, rfl, hv⟩ := (readBy_readU32 bytes v rest).mp hread
    refine ⟨w, List.prefix_append w rest, ?_, u32_iff_encodes.mp hv⟩
    rw [List.length_append, Nat.add_sub_cancel]
  · rintro ⟨w, ⟨rest, rfl⟩, rfl, hv⟩
    refine ⟨(v, rest), (readBy_readU32 _ v rest).mpr ⟨w, rfl, u32_iff_encodes.mpr hv⟩, ?_⟩
    show (v, (w ++ rest).length - rest.length) = (v, w.length)
    rw [List.length_append, Nat.add_sub_cancel]

/-- What is looked up fails as what is read. -/
theorem loadU32_eq_error_iff {e : Error} :
    loadU32 bytes = .error e ↔ readU32 bytes = .error e := by
  rw [loadU32_eq]
  cases readU32 bytes <;> simp [Except.map]

/-- Reading leaves the bytes behind those that are counted when a number is looked up, so the two
readers determine each other. -/
theorem readU32_eq_map_loadU32 (bytes : List UInt8) :
    readU32 bytes = (loadU32 bytes).map fun (v, n) => (v, bytes.drop n) := by
  rw [loadU32_eq]
  cases hread : readU32 bytes with
  | error e => rfl
  | ok result =>
    obtain ⟨v, rest⟩ := result
    obtain ⟨w, rfl, -⟩ := (readBy_readU32 bytes v rest).mp hread
    simp [Except.map]

/-- **The written word is the shortest.** It is one of the words for the number, and
`Format.Unsigned.lt_pow` bounds all of them from below. -/
theorem isLeast_length_encodeU32 (v : UInt32) :
    IsLeast {n | ∃ bytes, loadU32 bytes = .ok (v, n)} (encodeU32 v).length := by
  constructor
  · exact ⟨encodeU32 v, loadU32_eq_ok_iff.mpr
      ⟨_, List.prefix_rfl, rfl, u32_iff_encodes.mp (unsigned_encodeU32 v)⟩⟩
  · rintro n ⟨bytes, hload⟩
    obtain ⟨w, -, rfl, hv⟩ := loadU32_eq_ok_iff.mp hload
    have hword : Unsigned 32 w v.toNat := u32_iff_encodes.mpr hv
    exact length_encodeGroups_le 5 hword.length_pos hword.lt_pow

/-- **Unsigned numbers are exact.** Both readers give the same answer: a number and the bytes it
takes exactly if these encode it, an overflow exactly if there are five bytes and none of their
words encodes a number, and the end of the input exactly if there are fewer bytes, all of which go
on. What was written is read again, whatever follows it, and no other word for the number is
shorter. -/
theorem unsigned_numbers_exact :
    (∀ bytes : List UInt8,
      (loadU32 bytes = (readU32 bytes).map fun (v, rest) => (v, bytes.length - rest.length)) ∧
      (readU32 bytes = (loadU32 bytes).map fun (v, n) => (v, bytes.drop n)) ∧
      (∀ v n, loadU32 bytes = .ok (v, n) ↔ ∃ w, w <+: bytes ∧ w.length = n ∧ Encodes w v) ∧
      (loadU32 bytes = .error (.overflow 32) ↔
        5 ≤ bytes.length ∧ ∀ w v, w <+: bytes.take 5 → ¬ Encodes w v) ∧
      (loadU32 bytes = .error .endOfInput ↔ bytes.length < 5 ∧ ∀ b ∈ bytes, 128 ≤ b.toNat)) ∧
    ∀ v : UInt32,
      (∀ rest, loadU32 (encodeU32 v ++ rest) = .ok (v, (encodeU32 v).length) ∧
        readU32 (encodeU32 v ++ rest) = .ok (v, rest)) ∧
      IsLeast {n | ∃ bytes, loadU32 bytes = .ok (v, n)} (encodeU32 v).length := by
  constructor
  · intro bytes
    refine ⟨loadU32_eq bytes, readU32_eq_map_loadU32 bytes, fun v n => loadU32_eq_ok_iff, ?_, ?_⟩
    · rw [loadU32_eq_error_iff, readU32_eq_overflow_iff]
    · rw [loadU32_eq_error_iff]
      exact readGroups_eq_endOfInput_iff
  · intro v
    have hencodes : Encodes (encodeU32 v) v := u32_iff_encodes.mp (unsigned_encodeU32 v)
    refine ⟨fun rest => ⟨?_, readU32_encodeU32 v rest⟩, isLeast_length_encodeU32 v⟩
    exact loadU32_eq_ok_iff.mpr ⟨_, List.prefix_append _ rest, rfl, hencodes⟩

end WasmJit.Varint
