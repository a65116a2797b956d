import WasmJit.Proofs.Format.Groups

/-!
# Signed numbers as sums of groups

`Varint.signedSum` is what a word stands for in two's complement: the sum of its groups, less the
weight of the place after the last one if the last byte has the bit of the sign. Reading a signed
number gives exactly this sum, as long as the word ends within five bytes and the sum fits in 33
bits; there are three ways for the bytes to begin (`Varint.ends_or_goesOn`), and each of them
settles what reading gives.

The number is put together in 64 bits by shifts. That these lose nothing is the invariant of the
reader: after `k` bytes that go on, the bits that were read are the sum of `k` groups as it is
(`Varint.Exact`), so the next group and the sign still have room.

* `Varint.exists_readSignedGroups_append` is the invariant, over any number of bytes that go on.
* `Varint.readI33_of_terminated`, `Varint.readI33_of_unended` and `Varint.readI33_of_short` are the
  three ways to end.
* `Varint.signed_numbers_exact` is the whole picture.
-/

namespace WasmJit.Varint

open Format (lastGroup)

/-- **The number that a word stands for in two's complement.** -/
def signedSum (w : List UInt8) : Int :=
  groupSum w - if ∃ b ∈ w.getLast?, b.toNat.testBit 6 then 2 ^ (7 * w.length) else 0

/-- Whether a number has 33 bits, one of which is the sign. -/
def InI33 (v : Int) : Prop :=
  -2 ^ 32 ≤ v ∧ v < 2 ^ 32

instance : DecidablePred InI33 := fun v =>
  inferInstanceAs (Decidable (-2 ^ 32 ≤ v ∧ v < 2 ^ 32))

/-- **A word encodes a signed number** of 33 bits: it ends within five bytes, and stands for it in
two's complement. -/
def EncodesSigned (w : List UInt8) (v : Int) : Prop :=
  Terminated w ∧ w.length ≤ 5 ∧ signedSum w = v ∧ InI33 v

instance (w : List UInt8) (v : Int) : Decidable (EncodesSigned w v) :=
  inferInstanceAs (Decidable (_ ∧ _))

/-- **Nothing was lost and nothing will be**: `acc` holds the groups of `w` as they are, and the
shift by `shift` keeps all bits of another group, as the one after it does for the sign. -/
structure Exact (w : List UInt8) (shift acc : UInt64) : Prop where
  shift_eq : shift.toNat = 7 * w.length
  acc_eq : acc.toNat = groupSum w
  group : ∀ b : UInt8,
    ((b &&& 0x7f).toUInt64 <<< shift).toNat = b.toNat % 128 * 2 ^ (7 * w.length)
  sign : (0xffffffffffffffff <<< (shift + 7) : UInt64).toInt64.toInt = -2 ^ (7 * (w.length + 1))

/-! ### Words from their last byte -/

/-- A word that ends is some bytes that go on, and one that does not. -/
theorem terminated_iff_exists {w : List UInt8} :
    Terminated w ↔ ∃ u b, w = u ++ [b] ∧ (∀ c ∈ u, 128 ≤ c.toNat) ∧ b.toNat < 128 := by
  constructor
  · rintro ⟨hmore, b, hb, hlast⟩
    exact ⟨w.dropLast, b, (List.dropLast_append_getLast? b hb).symm, hmore, hlast⟩
  · rintro ⟨u, b, rfl, hmore, hlast⟩
    refine ⟨?_, b, ?_, hlast⟩
    · rwa [List.dropLast_concat]
    · rw [List.getLast?_concat]
      rfl

/-- The last group has the weight of its place. The sum is taken from its first group on, so this is
by induction. -/
theorem groupSum_concat (u : List UInt8) (b : UInt8) :
    groupSum (u ++ [b]) = groupSum u + 2 ^ (7 * u.length) * (b.toNat % 128) := by
  induction u with
  | nil => simp [groupSum_cons, groupSum_nil]
  | cons c u ih =>
    have hplace : 2 ^ (7 * (u.length + 1)) = 128 * 2 ^ (7 * u.length) := by
      rw [Nat.mul_succ, Nat.pow_add, Nat.mul_comm]
    rw [List.cons_append, groupSum_cons, groupSum_cons, ih, List.length_cons, hplace, Nat.mul_add,
      Nat.mul_assoc, Nat.add_assoc]

/-- Of the seven bits of a group, the highest one is the sign. -/
theorem testBit_six_iff {b : UInt8} (hb : b.toNat < 128) :
    b.toNat.testBit 6 = true ↔ 64 ≤ b.toNat := by
  rw [Nat.testBit_eq_decide_div_mod_eq, decide_eq_true_iff]
  omega

/-- **The sign counts in the last group only**: subtracting the weight of the place after the last
one turns the last group into a number between -64 and 63, and leaves the others alone. -/
theorem signedSum_concat (u : List UInt8) {b : UInt8} (hb : b.toNat < 128) :
    signedSum (u ++ [b]) = groupSum u + 2 ^ (7 * u.length) * lastGroup b := by
  have hsign : (∃ c ∈ (u ++ [b]).getLast?, c.toNat.testBit 6) ↔ 64 ≤ b.toNat := by
    rw [List.getLast?_concat, ← testBit_six_iff hb]
    simp
  have hweight : (2 : Int) ^ (7 * (u ++ [b]).length) = 2 ^ (7 * u.length) * 128 := by
    rw [List.length_append, List.length_singleton, Nat.mul_succ, Int.pow_add]
    rfl
  rw [signedSum, groupSum_concat, Nat.mod_eq_of_lt hb, lastGroup, hweight]
  simp only [hsign]
  push_cast
  -- with or without the sign, on both sides
  by_cases hneg : 64 ≤ b.toNat
  · rw [if_pos hneg, if_neg (by omega), Int.mul_sub]
    omega
  · rw [if_neg hneg, if_pos (by omega)]
    omega

/-! ### The invariant of the reader -/

/-- **Bytes that go on** leave their groups behind as they are, on top of what was read before. This
is the invariant of the reader, by induction on the bytes: the bits so far are below the weight of
the next group, so no bit is written twice, and the weight of that group is at most `2 ^ 35`, so
none is shifted out. -/
theorem exists_readSignedGroups_append {w : List UInt8} (hmore : ∀ b ∈ w, 128 ≤ b.toNat)
    {left : Nat} {shift acc : UInt64} (hshift : shift.toNat + 7 * w.length ≤ 35)
    (hacc : acc.toNat < 2 ^ shift.toNat) :
    ∃ shift' acc' : UInt64,
      (∀ rest, readSignedGroups (left + w.length) shift acc (w ++ rest) =
        readSignedGroups left shift' acc' rest) ∧
      shift'.toNat = shift.toNat + 7 * w.length ∧
      acc'.toNat = acc.toNat + 2 ^ shift.toNat * groupSum w ∧ acc'.toNat < 2 ^ shift'.toNat := by
  induction w generalizing shift acc with
  | nil => exact ⟨shift, acc, fun _ => rfl, rfl, rfl, hacc⟩
  | cons b w ih =>
    rw [List.length_cons] at hshift
    -- one byte: the group goes on top of the bits that are there
    have hb : 128 ≤ b.toNat := hmore b List.mem_cons_self
    have hstep := toNat_add_seven (show shift.toNat ≤ 28 by omega)
    have hvalue := toNat_or_shiftLeft_group (show shift.toNat ≤ 28 by omega) hacc b
    have hacc' := add_group_lt hacc b
    rw [← hvalue, ← hstep] at hacc'
    obtain ⟨shift', acc', hread, hshift', hsum, hlt⟩ :=
      ih (fun c hc => hmore c (List.mem_cons_of_mem b hc)) (by omega) hacc'
    refine ⟨shift', acc', fun rest => ?_, by rw [List.length_cons]; omega, ?_, hlt⟩
    · rw [← hread, List.length_cons, ← Nat.add_assoc, List.cons_append, readSignedGroups]
      dsimp only
      rw [if_neg (mt (and_more_eq_zero_iff b).mp (by omega))]
    · rw [hsum, hvalue, hstep, groupSum_cons, Nat.mul_add, ← Nat.mul_assoc, ← Nat.add_assoc,
        Nat.pow_add]

/-- The same from the start on: the groups of `w` are all there is, and the reader has as many
groups left as are missing to five. -/
theorem exists_readI33_append {w : List UInt8} (hmore : ∀ b ∈ w, 128 ≤ b.toNat)
    (hlength : w.length ≤ 5) :
    ∃ shift acc : UInt64,
      (∀ rest, readI33 (w ++ rest) = readSignedGroups (5 - w.length) shift acc rest) ∧
      shift.toNat = 7 * w.length ∧ acc.toNat = groupSum w ∧ acc.toNat < 2 ^ shift.toNat := by
  obtain ⟨shift, acc, hread, hshift, hacc, hlt⟩ :=
    @exists_readSignedGroups_append w hmore (5 - w.length) 0 0 (by simp; omega) (by decide)
  rw [Nat.sub_add_cancel hlength] at hread
  refine ⟨shift, acc, hread, ?_, ?_, hlt⟩
  · simpa using hshift
  · simpa using hacc

/-- The shift of a group keeps all its bits while there is room for seven more. -/
theorem toNat_group_shiftLeft {shift : UInt64} (hshift : shift.toNat ≤ 28) (b : UInt8) :
    ((b &&& 0x7f).toUInt64 <<< shift).toNat = b.toNat % 128 * 2 ^ shift.toNat := by
  have h := @toNat_or_shiftLeft_group 0 shift hshift (Nat.two_pow_pos _) b
  rw [UInt64.zero_or] at h
  rw [h, Nat.mul_comm]
  exact Nat.zero_add _

/-- The shift of the sign gives the negative weight of its place. -/
theorem toInt_ones_shiftLeft {shift : UInt64} (hshift : shift.toNat ≤ 35) :
    (0xffffffffffffffff <<< shift : UInt64).toInt64.toInt = -2 ^ shift.toNat := by
  have h := @toInt_or_shiftLeft_ones 0 shift hshift (Nat.two_pow_pos _)
  rw [UInt64.zero_or] at h
  rw [h]
  exact Int.zero_sub _

/-- **No bit is lost** in front of any of the five groups. The last of them is shifted by 28 and the
sign after it by 35, both of which are far from 64. -/
theorem exists_exact {w : List UInt8} (hmore : ∀ b ∈ w, 128 ≤ b.toNat) (hlength : w.length < 5) :
    ∃ shift acc : UInt64,
      (∀ rest, readI33 (w ++ rest) = readSignedGroups (5 - w.length) shift acc rest) ∧
        Exact w shift acc := by
  obtain ⟨shift, acc, hread, hshift, hacc, -⟩ :=
    exists_readI33_append hmore (Nat.le_of_lt hlength)
  have hroom : shift.toNat ≤ 28 := by omega
  refine ⟨shift, acc, hread, hshift, hacc, fun b => ?_, ?_⟩
  · rw [toNat_group_shiftLeft hroom, hshift]
  · have hnext := toNat_add_seven hroom
    rw [toInt_ones_shiftLeft (by omega), hnext, hshift, Nat.mul_succ]

/-! ### The three ways to begin -/

/-- **The three ways to begin**: bytes begin with a word that ends within `limit` bytes, or with
`limit` bytes that go on, or there are fewer bytes and they all go on. These exclude each other, but
that is never needed: each of them says what is read. -/
theorem ends_or_goesOn (limit : Nat) (bytes : List UInt8) :
    (∃ w, w <+: bytes ∧ Terminated w ∧ w.length ≤ limit) ∨
      (limit ≤ bytes.length ∧ ∀ b ∈ bytes.take limit, 128 ≤ b.toNat) ∨
      (bytes.length < limit ∧ ∀ b ∈ bytes, 128 ≤ b.toNat) := by
  induction limit generalizing bytes with
  | zero => exact .inr (.inl ⟨Nat.zero_le _, nofun⟩)
  | succ limit ih =>
    cases bytes with
    | nil => exact .inr (.inr ⟨Nat.succ_pos _, nofun⟩)
    | cons b bytes =>
      by_cases hb : b.toNat < 128
      · refine .inl ⟨[b], ⟨bytes, rfl⟩, ?_, Nat.succ_le_succ (Nat.zero_le _)⟩
        exact terminated_cons_iff.mpr (.inl ⟨rfl, hb⟩)
      · have hb : 128 ≤ b.toNat := Nat.not_lt.mp hb
        -- the first byte goes on, so the others decide
        rcases ih bytes with ⟨w, hw, hends, hlength⟩ | ⟨hlength, hmore⟩ | ⟨hlength, hmore⟩
        · refine .inl ⟨b :: w, (List.cons_prefix_cons.mpr ⟨rfl, hw⟩), ?_,
            Nat.succ_le_succ hlength⟩
          exact terminated_cons_iff.mpr (.inr ⟨hb, hends⟩)
        · refine .inr (.inl ⟨Nat.succ_le_succ hlength, ?_⟩)
          rw [List.take_succ_cons]
          exact List.forall_mem_cons.mpr ⟨hb, hmore⟩
        · exact .inr (.inr ⟨Nat.succ_lt_succ hlength, List.forall_mem_cons.mpr ⟨hb, hmore⟩⟩)

/-- The check that is made at the end, and the 33 bits. -/
theorem fitsI33_eq_true_iff (v : Int) : fitsI33 v = true ↔ InI33 v := by
  rw [fitsI33, Bool.and_eq_true, decide_eq_true_iff, decide_eq_true_iff]
  rfl

/-- **A word that ends** is read as the number it stands for, if this fits. Up to its last byte the
invariant says what was read, and `signed_eq` is about the last byte. -/
theorem readI33_of_terminated {w : List UInt8} (hends : Terminated w) (hlength : w.length ≤ 5)
    (rest : List UInt8) :
    readI33 (w ++ rest) =
      if InI33 (signedSum w) then .ok (signedSum w, rest) else .error (.overflow 33) := by
  obtain ⟨u, b, rfl, hmore, hlast⟩ := terminated_iff_exists.mp hends
  rw [List.length_append, List.length_singleton] at hlength
  obtain ⟨shift, acc, hread, hshift, hacc, hlt⟩ :=
    exists_readI33_append hmore (show u.length ≤ 5 by omega)
  -- one more group is read, and it is the last one
  obtain ⟨left, hleft⟩ : ∃ left, 5 - u.length = left + 1 := ⟨4 - u.length, by omega⟩
  have hvalue := signed_eq (show shift.toNat ≤ 28 by omega) hlt hlast
  rw [hshift, hacc, ← signedSum_concat u hlast] at hvalue
  rw [List.append_assoc, List.singleton_append, hread, hleft, readSignedGroups]
  dsimp only
  rw [if_pos ((and_more_eq_zero_iff b).mpr hlast), hvalue]
  simp only [fitsI33_eq_true_iff]

/-- **Five bytes that go on** are too many, whatever comes after them. -/
theorem readI33_of_unended {bytes : List UInt8} (hlength : 5 ≤ bytes.length)
    (hmore : ∀ b ∈ bytes.take 5, 128 ≤ b.toNat) : readI33 bytes = .error (.overflow 33) := by
  have htake : (bytes.take 5).length = 5 := List.length_take_of_le hlength
  obtain ⟨shift, acc, hread, -⟩ := exists_readI33_append hmore (Nat.le_of_eq htake)
  have hread := hread (bytes.drop 5)
  rw [List.take_append_drop, htake] at hread
  exact hread

/-- **Fewer bytes that go on** are too few: the reader has room for another one and finds none. -/
theorem readI33_of_short {bytes : List UInt8} (hlength : bytes.length < 5)
    (hmore : ∀ b ∈ bytes, 128 ≤ b.toNat) : readI33 bytes = .error .endOfInput := by
  obtain ⟨shift, acc, hread, -⟩ := exists_readI33_append hmore (Nat.le_of_lt hlength)
  have hread := hread []
  obtain ⟨left, hleft⟩ : ∃ left, 5 - bytes.length = left + 1 := ⟨4 - bytes.length, by omega⟩
  rw [List.append_nil, hleft] at hread
  exact hread

/-! ### All signed numbers -/

variable {bytes : List UInt8}

/-- **What is read** is what the first bytes encode. The three ways to begin are gone through, and
only the first of them can lead to a number. -/
theorem readI33_eq_ok_iff {v : Int} {rest : List UInt8} :
    readI33 bytes = .ok (v, rest) ↔ ∃ w, bytes = w ++ rest ∧ EncodesSigned w v := by
  constructor
  · intro hread
    -- the number ends within five bytes, goes on after them, or the bytes end before it does
    rcases ends_or_goesOn 5 bytes with ⟨w, ⟨rest', rfl⟩, hends, hlength⟩ | ⟨hlength, hmore⟩ |
      ⟨hlength, hmore⟩
    · rw [readI33_of_terminated hends hlength] at hread
      split at hread
      · next hfits =>
        cases hread
        exact ⟨w, rfl, hends, hlength, rfl, hfits⟩
      · cases hread
    · cases hread.symm.trans (readI33_of_unended hlength hmore)
    · cases hread.symm.trans (readI33_of_short hlength hmore)
  · rintro ⟨w, rfl, hends, hlength, rfl, hfits⟩
    rw [readI33_of_terminated hends hlength, if_pos hfits]

/-- **What does not fit**: five bytes that go on, or a word for a number outside the 33 bits. -/
theorem readI33_eq_overflow_iff :
    readI33 bytes = .error (.overflow 33) ↔
      (5 ≤ bytes.length ∧ ∀ b ∈ bytes.take 5, 128 ≤ b.toNat) ∨
        ∃ w, w <+: bytes ∧ Terminated w ∧ w.length ≤ 5 ∧ ¬ InI33 (signedSum w) := by
  constructor
  · intro hread
    -- the same three cases, with the sum out of range in the first
    rcases ends_or_goesOn 5 bytes with ⟨w, ⟨rest, rfl⟩, hends, hlength⟩ | hunended |
      ⟨hlength, hmore⟩
    · rw [readI33_of_terminated hends hlength] at hread
      split at hread
      · cases hread
      · next hfits => exact .inr ⟨w, List.prefix_append w rest, hends, hlength, hfits⟩
    · exact .inl hunended
    · cases hread.symm.trans (readI33_of_short hlength hmore)
  · rintro (⟨hlength, hmore⟩ | ⟨w, ⟨rest, rfl⟩, hends, hlength, hfits⟩)
    · exact readI33_of_unended hlength hmore
    · rw [readI33_of_terminated hends hlength, if_neg hfits]

/-- **What ends too early**: fewer than five bytes, all of which go on. -/
theorem readI33_eq_endOfInput_iff :
    readI33 bytes = .error .endOfInput ↔ bytes.length < 5 ∧ ∀ b ∈ bytes, 128 ≤ b.toNat := by
  constructor
  · intro hread
    rcases ends_or_goesOn 5 bytes with ⟨w, ⟨rest, rfl⟩, hends, hlength⟩ | ⟨hlength, hmore⟩ | hshort
    · rw [readI33_of_terminated hends hlength] at hread
      split at hread <;> cases hread
    · cases hread.symm.trans (readI33_of_unended hlength hmore)
    · exact hshort
  · rintro ⟨hlength, hmore⟩
    exact readI33_of_short hlength hmore

/-- There is no third way to fail, since each of the three ways to begin has only these errors. -/
theorem eq_of_readI33_error {e : Error} (hread : readI33 bytes = .error e) :
    e = .overflow 33 ∨ e = .endOfInput := by
  rcases ends_or_goesOn 5 bytes with ⟨w, ⟨rest, rfl⟩, hends, hlength⟩ | ⟨hlength, hmore⟩ |
    ⟨hlength, hmore⟩
  · rw [readI33_of_terminated hends hlength] at hread
    split at hread
    · cases hread
    · cases hread
      exact .inl rfl
  · cases hread.symm.trans (readI33_of_unended hlength hmore)
    exact .inl rfl
  · cases hread.symm.trans (readI33_of_short hlength hmore)
    exact .inr rfl

/-- **Signed numbers are exact.** Reading gives a number and the bytes after it exactly if the bytes
in front of these encode it in two's complement, an overflow exactly if five bytes go on or a word
that ends within them stands for a number outside the 33 bits, and the end of the input exactly if
there are fewer bytes, all of which go on; it does not fail otherwise. While bytes go on, no shift
loses a bit. -/
theorem signed_numbers_exact (bytes : List UInt8) :
    (∀ v rest, readI33 bytes = .ok (v, rest) ↔ ∃ w, bytes = w ++ rest ∧ EncodesSigned w v) ∧
      (readI33 bytes = .error (.overflow 33) ↔
        (5 ≤ bytes.length ∧ ∀ b ∈ bytes.take 5, 128 ≤ b.toNat) ∨
          ∃ w, w <+: bytes ∧ Terminated w ∧ w.length ≤ 5 ∧ ¬ InI33 (signedSum w)) ∧
      (readI33 bytes = .error .endOfInput ↔ bytes.length < 5 ∧ ∀ b ∈ bytes, 128 ≤ b.toNat) ∧
      (∀ e, readI33 bytes = .error e → e = .overflow 33 ∨ e = .endOfInput) ∧
      ∀ w, w <+: bytes → w.length < 5 → (∀ b ∈ w, 128 ≤ b.toNat) →
        ∃ shift acc : UInt64,
          (∀ rest, readI33 (w ++ rest) = readSignedGroups (5 - w.length) shift acc rest) ∧
            Exact w shift acc := by
  refine ⟨fun v rest => readI33_eq_ok_iff, readI33_eq_overflow_iff, readI33_eq_endOfInput_iff,
    fun e => eq_of_readI33_error, ?_⟩
  intro w _ hlength hmore
  exact exists_exact hmore hlength

/-- The least number in five bytes, of which the first four go on. -/
theorem signed_numbers_exact_least :
    readI33 [0x80, 0x80, 0x80, 0x80, 0x70, 0x0b] = .ok (-4294967296, [0x0b]) ∧
      ∃ shift acc : UInt64,
        (∀ rest, readI33 ([0x80, 0x80, 0x80, 0x80] ++ rest) =
          readSignedGroups 1 shift acc rest) ∧ Exact [0x80, 0x80, 0x80, 0x80] shift acc := by
  obtain ⟨hok, -, -, -, hexact⟩ :=
    signed_numbers_exact [0x80, 0x80, 0x80, 0x80, 0x70, 0x0b]
  constructor
  · exact (hok _ _).mpr ⟨[0x80, 0x80, 0x80, 0x80, 0x70], rfl, by decide⟩
  · exact hexact [0x80, 0x80, 0x80, 0x80] ⟨[0x70, 0x0b], rfl⟩ (by decide) (by simp)

end WasmJit.Varint
