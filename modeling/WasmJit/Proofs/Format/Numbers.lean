import WasmJit.Proofs.Format.Grammar
import WasmJit.Varint

/-!
# Numbers in the binary format

Reading a variable-length number accepts exactly the words of `Format.Unsigned 32`, and writing one
gives a word of that format that no other word for the same number is shorter than. Signed numbers
are only read; what is accepted are the words of `Format.Signed 33`.

* `Varint.readBy_readU32` and `Varint.readBy_readI33` are what reading accepts.
* `Varint.unsigned_encodeU32` says that the written word is one for the number.
* `Varint.length_encodeLength_le` bounds the length of the written word. That it is the shortest,
  and how its length grows, follows from it and from `Format.Unsigned.lt_pow`.
-/

namespace WasmJit

/-- **A reader accepts exactly a format** if it succeeds on the bytes that start with a word of the
format, with what the word writes and the bytes after it. -/
def Format.ReadBy {ε α : Type} (G : Format α)
    (read : List UInt8 → Except ε (α × List UInt8)) : Prop :=
  ∀ bytes x rest, read bytes = .ok (x, rest) ↔ ∃ w, bytes = w ++ rest ∧ G w x

namespace Format.Unsigned

variable {bits n : Nat} {w : List UInt8}

theorem length_pos (h : Unsigned bits w n) : 0 < w.length := by
  cases h <;> simp

/-- A number fits in its width. -/
theorem lt_two_pow (h : Unsigned bits w n) : n < 2 ^ bits := by
  induction h with
  | last _ fits => exact fits
  -- the first group has seven bits, and the others have the width that is left
  | @more bits b w n _ room _ ih =>
    have hb := b.toNat_lt
    calc b.toNat - 128 + 128 * n < 2 ^ 7 * (n + 1) := by omega
      _ ≤ 2 ^ 7 * 2 ^ (bits - 7) := Nat.mul_le_mul_left _ ih
      _ = 2 ^ bits := by rw [← Nat.pow_add, Nat.add_sub_cancel' (by omega)]

/-- Every byte of a word contributes seven bits at most. -/
theorem lt_pow (h : Unsigned bits w n) : n < 128 ^ w.length := by
  induction h with
  | last isLast _ => simpa using isLast
  | @more bits b w n _ _ _ ih =>
    have hb := b.toNat_lt
    rw [List.length_cons, Nat.pow_succ']
    omega

end Format.Unsigned

namespace Varint

open Format (Unsigned Signed U32 lastGroup)

/-! ### Bits -/

/-- The bits up to the end of a group. -/
theorem add_group_lt {acc shift : Nat} (hacc : acc < 2 ^ shift) (b : UInt8) :
    acc + 2 ^ shift * (b.toNat % 128) < 2 ^ (shift + 7) :=
  calc acc + 2 ^ shift * (b.toNat % 128) < 2 ^ shift * (b.toNat % 128 + 1) := by
        rw [Nat.mul_succ]
        omega
    _ ≤ 2 ^ shift * 2 ^ 7 := Nat.mul_le_mul_left _ (Nat.mod_lt _ (by decide))
    _ = 2 ^ (shift + 7) := (Nat.pow_add _ _ _).symm

/-- Adding bits above those that are there already: as long as none of them is shifted out, a
bitwise or is a sum. -/
theorem toNat_or_shiftLeft {acc x shift : UInt32} (hshift : shift.toNat < 32)
    (hacc : acc.toNat < 2 ^ shift.toNat) (hx : x.toNat * 2 ^ shift.toNat < 2 ^ 32) :
    (acc ||| (x <<< shift)).toNat = acc.toNat + 2 ^ shift.toNat * x.toNat := by
  rw [UInt32.toNat_or, UInt32.toNat_shiftLeft, Nat.mod_eq_of_lt hshift, Nat.shiftLeft_eq,
    Nat.mod_eq_of_lt hx, Nat.or_comm, Nat.mul_comm, ← Nat.two_pow_add_eq_or_of_lt hacc,
    Nat.add_comm]

/-- The group of a byte is its low seven bits. -/
theorem toNat_group (b : UInt8) : (b.toUInt32 &&& 0x7f).toNat = b.toNat % 128 := by
  rw [UInt32.toNat_and, UInt8.toNat_toUInt32]
  exact Nat.and_two_pow_sub_one_eq_mod b.toNat 7

/-- A byte that goes on is its group with the high bit set. -/
theorem toNat_continued (v : UInt32) : (v.toUInt8 ||| 0x80).toNat = 128 + v.toNat % 128 := by
  -- 128 is not a mask of low bits, so this is checked for all bytes
  have hbyte : ∀ i : Fin 256, i.val ||| 128 = 128 + i.val % 128 := by decide +kernel
  rw [UInt8.toNat_or, UInt32.toNat_toUInt8]
  have := hbyte ⟨v.toNat % 2 ^ 8, Nat.mod_lt _ (by decide)⟩
  simp only [UInt8.reduceToNat] at this ⊢
  omega

theorem toNat_shiftRight_seven (v : UInt32) : (v >>> 7).toNat = v.toNat / 128 := by
  rw [UInt32.toNat_shiftRight]
  exact Nat.shiftRight_eq_div_pow v.toNat 7

/-- The last byte of a number with room for `left` more groups spills exactly if it does not fit in
what is left of the 32 bits. -/
theorem spillsU32_eq_false_iff {left : Nat} {b : UInt8} (hb : b.toNat < 128) :
    spillsU32 left b = false ↔ b.toNat < 2 ^ (7 * left + 4) := by
  cases left with
  | zero =>
    have hbyte : ∀ i : Fin 256, i.val &&& 0xf0 = 0 ↔ i.val < 16 := by decide +kernel
    have hzero : (b &&& 0xf0 != 0) = false ↔ b.toNat &&& 0xf0 = 0 := by
      rw [bne_eq_false_iff_eq, ← UInt8.toNat_inj, UInt8.toNat_and]
      rfl
    simpa [spillsU32] using hzero.trans (hbyte ⟨b.toNat, b.toNat_lt⟩)
  | succ left =>
    have hpow : 2 ^ 7 ≤ 2 ^ (7 * (left + 1) + 4) := Nat.pow_le_pow_right (by decide) (by omega)
    -- with room for another group, a byte that ends a number always fits
    refine ⟨fun _ => by omega, fun _ => rfl⟩

/-! ### Reading -/

/-- **Reading a byte that ends a number**, on top of the lower bits `acc`. Of the 32 bits, `shift`
are taken and `7 * left + 4` are still free: only in the fifth byte, where four are free, can a
group be too wide. -/
theorem readGroups_last {left : Nat} {shift acc : UInt32}
    (hshift : shift.toNat + (7 * left + 4) = 32) (hacc : acc.toNat < 2 ^ shift.toNat)
    {b : UInt8} (hb : b.toNat < 128) (bytes : List UInt8) (v : UInt32) (rest : List UInt8) :
    readGroups (left + 1) shift acc (b :: bytes) = .ok (v, rest) ↔
      b.toNat < 2 ^ (7 * left + 4) ∧ bytes = rest ∧
        v.toNat = acc.toNat + 2 ^ shift.toNat * b.toNat := by
  have hlt : b < 0x80 := hb
  rw [readGroups, if_pos hlt]
  by_cases hspills : spillsU32 left b = false
  · have hfits := (spillsU32_eq_false_iff hb).mp hspills
    -- the group and its weight stay within 32 bits
    have hweight : b.toUInt32.toNat * 2 ^ shift.toNat < 2 ^ 32 := by
      rw [← hshift, Nat.pow_add, Nat.mul_comm, UInt8.toNat_toUInt32]
      exact Nat.mul_lt_mul_of_pos_left hfits (Nat.two_pow_pos _)
    have hvalue := toNat_or_shiftLeft (x := b.toUInt32) (by omega) hacc hweight
    rw [UInt8.toNat_toUInt32] at hvalue
    rw [hspills, ← hvalue, UInt32.toNat_inj]
    simp only [Bool.false_eq_true, if_false, Except.ok.injEq, Prod.mk.injEq, hfits, true_and]
    exact ⟨fun ⟨hv, hrest⟩ => ⟨hrest, hv.symm⟩, fun ⟨hrest, hv⟩ => ⟨hv.symm, hrest⟩⟩
  · -- a group that does not fit is refused on both sides
    rw [Bool.not_eq_false] at hspills
    rw [hspills, ← spillsU32_eq_false_iff hb, hspills]
    simp

/-- The lower bits after one more group, whatever number `n` the groups after it add. The weight of
the next group is the one at which the reader goes on, so this carries the accumulated value from
one byte to the next. -/
theorem addGroup {left : Nat} {shift acc : UInt32}
    (hshift : shift.toNat + (7 * (left + 1) + 4) = 32) (hacc : acc.toNat < 2 ^ shift.toNat)
    (b : UInt8) :
    (acc ||| ((b.toUInt32 &&& 0x7f) <<< shift)).toNat < 2 ^ (shift.toNat + 7) ∧
      ∀ n, (acc ||| ((b.toUInt32 &&& 0x7f) <<< shift)).toNat + 2 ^ (shift.toNat + 7) * n =
        acc.toNat + 2 ^ shift.toNat * (b.toNat % 128 + 128 * n) := by
  have hsum := add_group_lt hacc b
  have hweight : (b.toUInt32 &&& 0x7f).toNat * 2 ^ shift.toNat < 2 ^ 32 :=
    calc (b.toUInt32 &&& 0x7f).toNat * 2 ^ shift.toNat
        = 2 ^ shift.toNat * (b.toNat % 128) := by rw [toNat_group, Nat.mul_comm]
      _ < 2 ^ (shift.toNat + 7) := by omega
      _ ≤ 2 ^ 32 := Nat.pow_le_pow_right (by decide) (by omega)
  rw [toNat_or_shiftLeft (by omega) hacc hweight, toNat_group]
  refine ⟨hsum, fun n => ?_⟩
  rw [Nat.mul_add, ← Nat.mul_assoc, ← Nat.add_assoc, Nat.pow_add]

/-- **Reading groups** on top of the lower bits `acc`, by recursion over the groups that are left.
The reader keeps the bits it has seen in `acc`, while a word of the format is read from its last
byte backwards; the invariant `acc < 2 ^ shift` makes the two agree. -/
theorem readGroups_eq_ok_iff {left : Nat} {shift acc : UInt32}
    (hshift : shift.toNat + (7 * left + 4) = 32) (hacc : acc.toNat < 2 ^ shift.toNat)
    (bytes : List UInt8) (v : UInt32) (rest : List UInt8) :
    readGroups (left + 1) shift acc bytes = .ok (v, rest) ↔
      ∃ w n, bytes = w ++ rest ∧ Unsigned (7 * left + 4) w n ∧
        v.toNat = acc.toNat + 2 ^ shift.toNat * n := by
  cases bytes with
  | nil =>
    -- a word has at least one byte
    refine ⟨nofun, fun ⟨w, n, hw, hn, _⟩ => ?_⟩
    have := hn.length_pos
    simp_all
  | cons b bytes =>
    by_cases hb : b.toNat < 128
    · -- the byte ends the number, so a word of the format can only be this byte
      rw [readGroups_last hshift hacc hb]
      constructor
      · rintro ⟨hfits, rfl, hv⟩
        exact ⟨[b], b.toNat, rfl, .last hb hfits, hv⟩
      · rintro ⟨w, n, hw, hn, hv⟩
        cases hn with
        | last _ fits =>
          cases hw
          exact ⟨fits, rfl, hv⟩
        | more goesOn =>
          cases hw
          omega
    · have hlt : ¬ b < 0x80 := hb
      rw [readGroups, if_neg hlt]
      cases left with
      | zero =>
        -- there is no room for a sixth byte
        refine ⟨nofun, fun ⟨w, n, hw, hn, _⟩ => ?_⟩
        cases hn with
        | last isLast =>
          cases hw
          omega
        | more _ room => omega
      | succ left =>
        -- neither the shift nor the bits wrap around, as the free bits show
        have hstep : (shift + 7).toNat = shift.toNat + 7 := by
          rw [UInt32.toNat_add]
          simp only [UInt32.reduceToNat]
          omega
        have hmod : b.toNat % 128 = b.toNat - 128 := by
          have := b.toNat_lt
          omega
        obtain ⟨hacc', hvalue⟩ := addGroup hshift hacc b
        rw [readGroups_eq_ok_iff (by omega) (hstep ▸ hacc')]
        constructor
        · rintro ⟨w, n, rfl, hn, hv⟩
          refine ⟨b :: w, _, rfl, .more (by omega) (by omega) hn, ?_⟩
          rw [hv, hstep, hvalue, hmod]
        · rintro ⟨w, n, hw, hn, hv⟩
          cases hn with
          | last isLast =>
            cases hw
            omega
          | @more _ _ w n _ _ hn =>
            cases hw
            refine ⟨w, n, rfl, hn, ?_⟩
            rw [hv, hstep, hvalue, hmod]

/-- **Reading a number** accepts exactly the numbers of 32 bits. -/
theorem readBy_readU32 : U32.ReadBy readU32 := by
  intro bytes v rest
  have h := @readGroups_eq_ok_iff 4 0 0 rfl (by decide) bytes v rest
  rw [readU32, h]
  simp only [UInt32.reduceToNat, Nat.pow_zero, Nat.one_mul, Nat.zero_add, U32]
  exact ⟨fun ⟨w, n, hw, hn, hv⟩ => ⟨w, hw, hv ▸ hn⟩, fun ⟨w, hw, hn⟩ => ⟨w, _, hw, hn, rfl⟩⟩

/-- The same in terms of natural numbers, for sizes and counts. Whatever a word writes is a number
of 32 bits, so nothing is lost. -/
theorem exists_readU32_iff {bytes rest : List UInt8} {n : Nat} :
    (∃ v, readU32 bytes = .ok (v, rest) ∧ v.toNat = n) ↔
      ∃ w, bytes = w ++ rest ∧ Unsigned 32 w n := by
  constructor
  · rintro ⟨v, hread, rfl⟩
    exact (readBy_readU32 _ _ _).mp hread
  · rintro ⟨w, hw, hn⟩
    have hv : (UInt32.ofNat n).toNat = n := UInt32.toNat_ofNat_of_lt' hn.lt_two_pow
    refine ⟨UInt32.ofNat n, (readBy_readU32 _ _ _).mpr ⟨w, hw, ?_⟩, hv⟩
    rwa [U32, hv]

/-! ### Reading signed numbers -/

theorem toNat_add_seven {shift : UInt64} (hshift : shift.toNat ≤ 28) :
    (shift + 7).toNat = shift.toNat + 7 := by
  rw [UInt64.toNat_add]
  simp only [UInt64.reduceToNat]
  omega

/-- Adding a group above the bits that are there already. -/
theorem toNat_or_shiftLeft_group {acc shift : UInt64} (hshift : shift.toNat ≤ 28)
    (hacc : acc.toNat < 2 ^ shift.toNat) (b : UInt8) :
    (acc ||| ((b &&& 0x7f).toUInt64 <<< shift)).toNat =
      acc.toNat + 2 ^ shift.toNat * (b.toNat % 128) := by
  have hgroup : (b &&& 0x7f).toUInt64.toNat = b.toNat % 128 := by
    rw [UInt8.toNat_toUInt64, UInt8.toNat_and]
    exact Nat.and_two_pow_sub_one_eq_mod b.toNat 7
  -- with at most 28 bits below it, the group is not shifted out
  have hweight : b.toNat % 128 * 2 ^ shift.toNat < 2 ^ 64 :=
    calc b.toNat % 128 * 2 ^ shift.toNat
        < 2 ^ 7 * 2 ^ shift.toNat :=
          Nat.mul_lt_mul_of_pos_right (Nat.mod_lt _ (by decide)) (Nat.two_pow_pos _)
      _ = 2 ^ (7 + shift.toNat) := (Nat.pow_add _ _ _).symm
      _ ≤ 2 ^ 64 := Nat.pow_le_pow_right (by decide) (by omega)
  -- the group stands above all bits that are set, so it is added
  rw [UInt64.toNat_or, UInt64.toNat_shiftLeft, Nat.mod_eq_of_lt (by omega : shift.toNat < 64),
    hgroup, Nat.shiftLeft_eq, Nat.mod_eq_of_lt hweight, Nat.or_comm, Nat.mul_comm,
    ← Nat.two_pow_add_eq_or_of_lt hacc, Nat.add_comm]

/-- A word of 64 bits as a signed number, in two's complement. -/
theorem toInt_toInt64 (x : UInt64) :
    x.toInt64.toInt = if 2 * x.toNat < 2 ^ 64 then (x.toNat : Int) else x.toNat - 2 ^ 64 :=
  BitVec.toInt_eq_toNat_cond x.toBitVec

/-- Copying the sign into the bits from `shift` on subtracts the weight of the first of them. -/
theorem toInt_or_shiftLeft_ones {acc shift : UInt64} (hshift : shift.toNat ≤ 35)
    (hacc : acc.toNat < 2 ^ shift.toNat) :
    (acc ||| (0xffffffffffffffff <<< shift)).toInt64.toInt = acc.toNat - 2 ^ shift.toNat := by
  -- the bits from `shift` on are all ones, which is 2 ^ 64 - 2 ^ shift
  have hle : 2 ^ shift.toNat ≤ 2 ^ 35 := Nat.pow_le_pow_right (by decide) hshift
  have hones : (0xffffffffffffffff <<< shift : UInt64).toNat =
      2 ^ shift.toNat * (2 ^ (64 - shift.toNat) - 1) := by
    have hsplit : 2 ^ shift.toNat * 2 ^ (64 - shift.toNat) = 2 ^ 64 := by
      rw [← Nat.pow_add, Nat.add_sub_cancel' (by omega)]
    rw [UInt64.toNat_shiftLeft, Nat.mod_eq_of_lt (by omega : shift.toNat < 64), Nat.shiftLeft_eq,
      Nat.mul_sub, hsplit]
    simp only [UInt64.reduceToNat]
    omega
  have hvalue : (acc ||| (0xffffffffffffffff <<< shift)).toNat + 2 ^ shift.toNat =
      2 ^ 64 + acc.toNat := by
    rw [UInt64.toNat_or, hones, Nat.or_comm, ← Nat.two_pow_add_eq_or_of_lt hacc, Nat.mul_sub,
      ← Nat.pow_add, Nat.add_sub_cancel' (by omega), Nat.mul_one]
    omega
  rw [toInt_toInt64, if_neg (by omega)]
  have hcast : ((acc ||| (0xffffffffffffffff <<< shift)).toNat : Int) + 2 ^ shift.toNat =
      2 ^ 64 + acc.toNat := mod_cast hvalue
  omega

/-- The sign of a number is the highest bit of its last group. -/
theorem and_sign_ne_zero_iff (b : UInt8) : (b &&& 0x40 != 0) = true ↔ 64 ≤ b.toNat % 128 := by
  have hbyte : ∀ i : Fin 256, ((UInt8.ofNat i.val &&& 0x40 != 0) = true ↔ 64 ≤ i.val % 128) := by
    decide +kernel
  simpa using hbyte ⟨b.toNat, b.toNat_lt⟩

/-- **What the bits read up to the last group stand for.** If the sign is set, all higher bits are
set as well. In terms of groups, this only turns the last group into a negative number. -/
theorem signed_eq {acc shift : UInt64} (hshift : shift.toNat ≤ 28)
    (hacc : acc.toNat < 2 ^ shift.toNat) {b : UInt8} (hb : b.toNat < 128) :
    signed (acc ||| ((b &&& 0x7f).toUInt64 <<< shift)) (shift + 7) b =
      acc.toNat + 2 ^ shift.toNat * lastGroup b := by
  have hnext := toNat_add_seven hshift
  have hvalue := toNat_or_shiftLeft_group hshift hacc b
  rw [Nat.mod_eq_of_lt hb] at hvalue
  have hlt := add_group_lt hacc b
  rw [Nat.mod_eq_of_lt hb] at hlt
  -- after five groups there are still bits to spare for the sign
  have hfit : 2 ^ (shift.toNat + 7) ≤ 2 ^ 35 := Nat.pow_le_pow_right (by decide) (by omega)
  rw [signed, lastGroup]
  -- the two cases are those of the sign, on both sides
  split
  · next hsign =>
    have hsign : 64 ≤ b.toNat := by
      have := (and_sign_ne_zero_iff b).mp hsign
      omega
    rw [toInt_or_shiftLeft_ones (by omega) (by rw [hnext, hvalue]; exact hlt), hvalue, hnext,
      if_neg (by omega), Int.mul_sub, Int.pow_add]
    push_cast
    omega
  · next hsign =>
    have hsign : b.toNat < 64 := by
      have := mt (and_sign_ne_zero_iff b).mpr hsign
      omega
    rw [toInt_toInt64, hvalue, if_pos (by omega), if_pos hsign]
    push_cast
    rfl

/-- **A number fits in 33 bits if its last group fits** in what is left of them. The lower groups
are not negative and stay below the weight of the next one, so they cannot take a number over either
bound. -/
theorem fitsI33_iff {left acc : Nat} {shift : Nat} (hshift : shift + 7 * left = 28)
    (hacc : acc < 2 ^ shift) (n : Int) :
    fitsI33 (acc + 2 ^ shift * n) = true ↔ -2 ^ (7 * left + 4) ≤ n ∧ n < 2 ^ (7 * left + 4) := by
  have hsplit : (2 : Int) ^ shift * 2 ^ (7 * left + 4) = 4294967296 := by
    rw [← Int.pow_add, show shift + (7 * left + 4) = 32 by omega]
    rfl
  have hacc' : (acc : Int) < 2 ^ shift := mod_cast hacc
  have hmono : ∀ {x y : Int}, x ≤ y → (2 : Int) ^ shift * x ≤ 2 ^ shift * y := fun h =>
    Int.mul_le_mul_of_nonneg_left h (Int.le_of_lt (Int.pow_pos (by decide)))
  have hbounds : fitsI33 (acc + 2 ^ shift * n) = true ↔
      -4294967296 ≤ acc + 2 ^ shift * n ∧ acc + 2 ^ shift * n < 4294967296 := by
    simp [fitsI33]
  rw [hbounds]
  -- both bounds are multiples of the weight, so a number beyond one of them is a whole weight
  -- beyond
  constructor
  · rintro ⟨hlower, hupper⟩
    constructor
    · by_contra hn
      have := hmono (show n ≤ -2 ^ (7 * left + 4) - 1 by omega)
      rw [Int.mul_sub, Int.mul_neg, hsplit] at this
      omega
    · by_contra hn
      have := hmono (show (2 : Int) ^ (7 * left + 4) ≤ n by omega)
      omega
  · rintro ⟨hlower, hupper⟩
    have hle := hmono hlower
    have hlt := hmono (show n ≤ 2 ^ (7 * left + 4) - 1 by omega)
    rw [Int.mul_neg, hsplit] at hle
    rw [Int.mul_sub, hsplit] at hlt
    omega

/-- A byte goes on if its high bit is set. -/
theorem and_more_eq_zero_iff (b : UInt8) : (b &&& 0x80 == 0) = true ↔ b.toNat < 128 := by
  have hbyte : ∀ i : Fin 256, ((UInt8.ofNat i.val &&& 0x80 == 0) = true ↔ i.val < 128) := by
    decide +kernel
  simpa using hbyte ⟨b.toNat, b.toNat_lt⟩

/-- Reading a byte that ends a signed number, on top of the lower bits `acc`. -/
theorem readSignedGroups_last {left : Nat} {shift acc : UInt64}
    (hshift : shift.toNat + 7 * left = 28) (hacc : acc.toNat < 2 ^ shift.toNat) {b : UInt8}
    (hb : b.toNat < 128) (bytes : List UInt8) (v : Int) (rest : List UInt8) :
    readSignedGroups (left + 1) shift acc (b :: bytes) = .ok (v, rest) ↔
      Signed (7 * left + 5) [b] (lastGroup b) ∧ bytes = rest ∧
        v = acc.toNat + 2 ^ shift.toNat * lastGroup b := by
  -- that the whole number fits, as it is checked, is that the last group does, as the format asks
  have hfits := fitsI33_iff hshift hacc (lastGroup b)
  have hlast : Signed (7 * left + 5) [b] (lastGroup b) ↔
      fitsI33 (acc.toNat + 2 ^ shift.toNat * lastGroup b) = true := by
    rw [hfits]
    constructor
    · -- a single byte is the last one of its word
      generalize hn : lastGroup b = n
      intro h
      cases h with
      | last _ lower upper => exact ⟨lower, upper⟩
      | more _ _ rest => cases rest
    · rintro ⟨hlower, hupper⟩
      exact .last hb hlower hupper
  rw [hlast, readSignedGroups]
  dsimp only
  rw [if_pos ((and_more_eq_zero_iff b).mpr hb), signed_eq (by omega) hacc hb]
  split
  · next h =>
    rw [h, Except.ok.injEq, Prod.mk.injEq]
    exact ⟨fun ⟨hv, hrest⟩ => ⟨rfl, hrest, hv.symm⟩, fun ⟨_, hrest, hv⟩ => ⟨hv.symm, hrest⟩⟩
  · next h => exact ⟨nofun, fun ⟨h', _⟩ => absurd h' h⟩

/-- **Reading groups of a signed number** on top of the lower bits `acc`, as for unsigned ones. The
difference is in the last byte: its group is signed, and the reader checks the whole number instead
of the byte. -/
theorem readSignedGroups_eq_ok_iff {left : Nat} {shift acc : UInt64}
    (hshift : shift.toNat + 7 * left = 28) (hacc : acc.toNat < 2 ^ shift.toNat)
    (bytes : List UInt8) (v : Int) (rest : List UInt8) :
    readSignedGroups (left + 1) shift acc bytes = .ok (v, rest) ↔
      ∃ w n, bytes = w ++ rest ∧ Signed (7 * left + 5) w n ∧
        v = acc.toNat + 2 ^ shift.toNat * n := by
  cases bytes with
  | nil =>
    -- no word of the format is empty
    refine ⟨nofun, fun ⟨w, n, hw, hn, _⟩ => ?_⟩
    obtain ⟨rfl, -⟩ := List.append_eq_nil_iff.mp hw.symm
    cases hn
  | cons b bytes =>
    by_cases hb : b.toNat < 128
    · -- the last byte: the word is this byte alone
      rw [readSignedGroups_last hshift hacc hb]
      constructor
      · rintro ⟨hlast, rfl, hv⟩
        exact ⟨[b], lastGroup b, rfl, hlast, hv⟩
      · rintro ⟨w, n, hw, hn, hv⟩
        cases hn with
        | last isLast lower upper =>
          cases hw
          exact ⟨.last isLast lower upper, rfl, hv⟩
        | more goesOn =>
          cases hw
          omega
    · -- the number goes on behind this byte
      rw [readSignedGroups]
      dsimp only
      rw [if_neg (mt (and_more_eq_zero_iff b).mp hb)]
      cases left with
      | zero =>
        -- there is no room for a sixth byte
        refine ⟨nofun, fun ⟨w, n, hw, hn, _⟩ => ?_⟩
        cases hn with
        | last isLast =>
          cases hw
          omega
        | more _ room => omega
      | succ left =>
        have hstep := toNat_add_seven (show shift.toNat ≤ 28 by omega)
        have hvalue := toNat_or_shiftLeft_group (by omega) hacc b
        have hacc' := add_group_lt hacc b
        rw [← hvalue, ← hstep] at hacc'
        -- the groups after this one are counted from its upper end on
        have hcarry : ∀ n : Int,
            ((acc ||| ((b &&& 0x7f).toUInt64 <<< shift)).toNat : Int) + 2 ^ (shift + 7).toNat * n =
              acc.toNat + 2 ^ shift.toNat * (b.toNat - 128 + 128 * n) := by
          intro n
          have hmod : (b.toNat % 128 : Nat) = (b.toNat : Int) - 128 := by
            have := b.toNat_lt
            omega
          rw [hvalue, hstep, Int.pow_add]
          push_cast at hmod ⊢
          rw [hmod, Int.mul_add, Int.mul_assoc, Int.add_assoc]
        rw [readSignedGroups_eq_ok_iff (by omega) hacc']
        constructor
        · rintro ⟨w, n, rfl, hn, hv⟩
          exact ⟨b :: w, _, rfl, .more (by omega) (by omega) hn, hv.trans (hcarry n)⟩
        · rintro ⟨w, n, hw, hn, hv⟩
          cases hn with
          | last isLast =>
            cases hw
            omega
          | @more _ _ w n _ _ hn =>
            cases hw
            exact ⟨w, n, rfl, hn, hv.trans (hcarry n).symm⟩

/-- **Reading a signed number** accepts exactly the numbers of 33 bits. -/
theorem readBy_readI33 : Format.ReadBy (Signed 33) readI33 := by
  intro bytes v rest
  rw [readI33, @readSignedGroups_eq_ok_iff 4 0 0 rfl (by decide) bytes v rest]
  simp only [UInt64.reduceToNat, Int.pow_zero, Int.one_mul, Int.natCast_zero, Int.zero_add]
  exact ⟨fun ⟨w, n, hw, hn, hv⟩ => ⟨w, hw, hv ▸ hn⟩, fun ⟨w, hw, hn⟩ => ⟨w, _, hw, hn, rfl⟩⟩

/-! ### Writing -/

/-- **Writing groups** gives a word for the number, if it fits in the bits that the groups have. By
recursion over the groups; the last one has room for four bits, which is why the number ends there.
-/
theorem unsigned_encodeGroups {left : Nat} {v : UInt32} (hv : v.toNat < 2 ^ (7 * left + 4)) :
    Unsigned (7 * left + 4) (encodeGroups (left + 1) v) v.toNat := by
  rw [encodeGroups]
  split
  · next hlast =>
    have hlast : v.toNat < 128 := hlast
    -- the number fits in one byte, so it is not cut off
    have hbyte : v.toUInt8.toNat = v.toNat := by
      rw [UInt32.toNat_toUInt8]
      omega
    rw [← hbyte] at hlast hv ⊢
    exact .last hlast hv
  · next hmore =>
    have hmore : ¬ v.toNat < 128 := hmore
    cases left with
    | zero => omega
    | succ left =>
      -- what is left after seven bits fits in the groups that are left
      have hrest := toNat_shiftRight_seven v
      have hfits : (v >>> 7).toNat < 2 ^ (7 * left + 4) := by
        rw [Nat.mul_succ, Nat.add_right_comm, Nat.pow_add] at hv
        omega
      have hfirst := toNat_continued v
      have hvalue : v.toNat = (v.toUInt8 ||| 0x80).toNat - 128 + 128 * (v >>> 7).toNat := by
        omega
      rw [hvalue]
      exact .more (by omega) (by omega) (unsigned_encodeGroups hfits)

/-- **The written word** is one for the number. -/
theorem unsigned_encodeU32 (v : UInt32) : Unsigned 32 (encodeU32 v) v.toNat :=
  @unsigned_encodeGroups 4 v v.toNat_lt

/-- A length is written as it is, as long as it fits in 32 bits. -/
theorem unsigned_encodeLength {n : Nat} (hn : n < 2 ^ 32) : Unsigned 32 (encodeLength n) n := by
  have h := unsigned_encodeU32 (UInt32.ofNat n)
  rwa [UInt32.toNat_ofNat_of_lt' hn] at h

/-- What was written is read again, whatever follows it. -/
theorem readU32_encodeU32 (v : UInt32) (rest : List UInt8) :
    readU32 (encodeU32 v ++ rest) = .ok (v, rest) :=
  (readBy_readU32 _ _ _).mpr ⟨_, rfl, unsigned_encodeU32 v⟩

/-- The same for lengths, which are read as natural numbers. -/
theorem readU32_encodeLength {n : Nat} (hn : n < 2 ^ 32) (rest : List UInt8) :
    ∃ v, readU32 (encodeLength n ++ rest) = .ok (v, rest) ∧ v.toNat = n :=
  exists_readU32_iff.mpr ⟨_, rfl, unsigned_encodeLength hn⟩

/-! ### Lengths -/

/-- Every byte but the last takes seven bits off a number, so `k` bytes are enough for one below
`128 ^ k`. This needs no bound on the number of groups that may be written. -/
theorem length_encodeGroups_le (groups : Nat) {v : UInt32} {k : Nat} (hk : 0 < k)
    (hv : v.toNat < 128 ^ k) : (encodeGroups groups v).length ≤ k := by
  induction groups generalizing v k with
  | zero => exact Nat.zero_le k
  | succ groups ih =>
    rw [encodeGroups]
    split
    · exact hk
    · next hmore =>
      have hmore : ¬ v.toNat < 128 := hmore
      obtain ⟨k, rfl⟩ : ∃ j, k = j + 1 := ⟨k - 1, by omega⟩
      have hrest := toNat_shiftRight_seven v
      rw [Nat.pow_succ] at hv
      -- a number that does not end here needs another byte
      have hpos : 0 < k := by
        refine Nat.pos_of_ne_zero fun hzero => ?_
        rw [hzero, Nat.pow_zero] at hv
        omega
      exact Nat.succ_le_succ (ih hpos (by omega))

/-- **A written length is short**: `k` bytes are enough for a number below `128 ^ k`. -/
theorem length_encodeLength_le {n k : Nat} (hk : 0 < k) (hn : n < 128 ^ k) :
    (encodeLength n).length ≤ k := by
  refine length_encodeGroups_le 5 hk (Nat.lt_of_le_of_lt ?_ hn)
  rw [UInt32.toNat_ofNat']
  exact Nat.mod_le _ _

/-- No word for a number, or for a larger one, is shorter than the written one. -/
theorem length_encodeLength_le_of_unsigned {bits n m : Nat} {w : List UInt8} (h : Unsigned bits w m)
    (hle : n ≤ m) : (encodeLength n).length ≤ w.length :=
  length_encodeLength_le h.length_pos (Nat.lt_of_le_of_lt hle h.lt_pow)

end Varint

end WasmJit
