import Mathlib.Data.List.Infix
import WasmJit.Proofs.Format.Bodies

/-!
# Block types

By the format, the types that have a name are written in one byte: no type at all, `i32`, and the
three value types that are not compiled. Every number that is not negative refers to a signature,
and everything else is malformed (`BlockType.FollowsFormat`). Reading goes by the number alone,
which may be padded. So a name in more than one byte (`BlockType.Padded`) is still taken for that
name, and for all other bytes reading follows the format.

* `Instruction.fetch_construct_eq_ok_iff`, `Instruction.fetch_construct_unsupported_iff` and
  `Instruction.fetch_construct_refused` say what becomes of a construct, by the number.
* `BlockType.followsFormat_iff` compares this with the format.
-/

namespace WasmJit

open Format (Signed lastGroup)

/-! ### Numbers in one byte -/

namespace Varint

variable {bits : Nat} {w w' bytes : List UInt8} {n n' : Int} {b : UInt8}

/-- A byte that ends a number is the last group of it. -/
theorem signed_singleton (hb : b.toNat < 128) : Signed 33 [b] (lastGroup b) := by
  have hbounds : -64 ≤ lastGroup b ∧ lastGroup b < 64 := by
    unfold lastGroup
    split <;> omega
  exact .last hb (by omega) (by omega)

/-- A number in one byte is its last group: a longer word is one that goes on, and then its rest
would be empty. -/
theorem exists_byte_of_signed (h : Signed bits w n) (hlength : w.length ≤ 1) :
    ∃ b : UInt8, w = [b] ∧ b.toNat < 128 ∧ n = lastGroup b := by
  cases h with
  | last isLast => exact ⟨_, rfl, isLast, rfl⟩
  | @more _ _ w _ _ _ rest =>
    have hempty : w = [] := by
      simpa using hlength
    rw [hempty] at rest
    cases rest

/-- **At most one number stands at the head of bytes**, since reading has only one result. -/
theorem signed_unique (hw : w <+: bytes) (hn : Signed 33 w n) (hw' : w' <+: bytes)
    (hn' : Signed 33 w' n') : w = w' ∧ n = n' := by
  obtain ⟨rest, hrest⟩ := hw
  obtain ⟨rest', hrest'⟩ := hw'
  have hread := (readBy_readI33 bytes n rest).mpr ⟨w, hrest.symm, hn⟩
  have hread' := (readBy_readI33 bytes n' rest').mpr ⟨w', hrest'.symm, hn'⟩
  obtain ⟨rfl, rfl⟩ := Prod.mk.inj (Except.ok.inj (hread.symm.trans hread'))
  exact ⟨List.append_cancel_right (hrest.trans hrest'.symm), rfl⟩

end Varint

/-! ### The format -/

namespace BlockType

/-- The numbers of the value types that are not compiled. -/
def foreign : List Int := [-2, -3, -4]

/-- The bytes that write them. -/
def foreignBytes : List UInt8 := [0x7e, 0x7d, 0x7c]

/-- Whether a signature is referred to: a number that is not negative stands at the head. -/
def RefersToSignature (bytes : List UInt8) : Prop :=
  ∃ w n, w <+: bytes ∧ Signed 33 w n ∧ 0 ≤ n

/-- Whether the number of a type that has a name stands at the head, in more than one byte. -/
def Padded (bytes : List UInt8) : Prop :=
  ∃ w n, w <+: bytes ∧ Signed 33 w n ∧ 1 < w.length ∧ (n ∈ foreign ∨ ∃ t : BlockType, n = t.code)

/-- **The rule of the format** for the construct of kind `k` at position `pc` of a body. -/
structure FollowsFormat (k : Instruction.Kind) (body : List UInt8) (pc : Nat) : Prop where
  /-- It is accepted with the byte of a block type after its opcode, and spans these two bytes. -/
  accepted : ∀ i n, Instruction.fetch body pc = .ok (i, n) ↔
    i.kind = k ∧ n = 2 ∧ ∃ t : BlockType, body[pc + 1]? = some t.byte ∧ i.arity = t.arity
  /-- Other value types, and signatures, are not supported. -/
  unsupported :
    (∃ e, Instruction.fetch body pc = .error e ∧ e.kind = .unsupportedFeature) ↔
      (∃ b ∈ foreignBytes, body[pc + 1]? = some b) ∨ RefersToSignature (body.drop (pc + 1))
  /-- Everything else is malformed. -/
  malformed :
    (∃ e, Instruction.fetch body pc = .error e ∧ e.kind = .malformedInput) ↔
      (∀ t : BlockType, body[pc + 1]? ≠ some t.byte) ∧
      (∀ b ∈ foreignBytes, body[pc + 1]? ≠ some b) ∧ ¬ RefersToSignature (body.drop (pc + 1))

/-- In one byte, a block type has its number exactly if the byte is the one that writes it. There is
no other byte for the same number, because one byte has no room for padding. -/
theorem lastGroup_eq_code_iff {b : UInt8} (hb : b.toNat < 128) (t : BlockType) :
    lastGroup b = t.code ↔ b = t.byte := by
  rw [← UInt8.toNat_inj]
  unfold lastGroup
  cases t with
  | empty =>
    show _ = (-64 : Int) ↔ b.toNat = 64
    split <;> omega
  | i32 =>
    show _ = (-1 : Int) ↔ b.toNat = 127
    split <;> omega

/-- The same for the types that are not compiled. -/
theorem lastGroup_mem_foreign_iff {b : UInt8} (hb : b.toNat < 128) :
    lastGroup b ∈ foreign ↔ b ∈ foreignBytes := by
  -- three numbers and three bytes, so this is checked for all bytes
  have hbyte : ∀ i : Fin 256, i.val < 128 →
      (lastGroup (UInt8.ofNat i.val) ∈ foreign ↔ UInt8.ofNat i.val ∈ foreignBytes) := by
    decide +kernel
  simpa using hbyte ⟨b.toNat, b.toNat_lt⟩ hb

/-- A block type is determined by whether it has a result. -/
theorem arity_injective {t t' : BlockType} (h : t.arity = t'.arity) : t = t' := by
  cases t <;> cases t' <;> cases h <;> rfl

theorem byte_lt (t : BlockType) : t.byte.toNat < 128 := by
  cases t <;> decide

theorem lt_of_mem_foreignBytes {b : UInt8} (h : b ∈ foreignBytes) : b.toNat < 128 := by
  simp only [foreignBytes, List.mem_cons, List.not_mem_nil, or_false] at h
  rcases h with rfl | rfl | rfl <;> decide

/-! ### What is read -/

/-- **The types that are known but not supported**: the value types with a name, and everything that
refers to a signature. The reader asks for the supported types first, so the cases that are left
have to be told apart by their numbers. -/
theorem read_unsupported_iff {bytes : List UInt8} :
    (∃ cause, read bytes = .error cause ∧ cause.kind = .unsupportedFeature) ↔
      ∃ w n, w <+: bytes ∧ Signed 33 w n ∧ (n ∈ foreign ∨ 0 ≤ n) := by
  have hforeign : ∀ n : Int, n ∈ foreign ↔ n = -2 ∨ n = -3 ∨ n = -4 := by
    intro n
    simp [foreign]
  constructor
  · rintro ⟨cause, hread, hkind⟩
    rw [read] at hread
    -- no number, a supported type twice, a name, a signature, or none of these
    split at hread
    · cases hread
      cases hkind
    · next n rest hnumber =>
      obtain ⟨w, hw, hn⟩ := (Varint.readBy_readI33 bytes n rest).mp hnumber
      refine ⟨w, n, ⟨rest, hw.symm⟩, hn, ?_⟩
      split at hread
      · cases hread
      · split at hread
        · cases hread
        · split at hread
          · next h => exact .inl ((hforeign n).mpr h)
          · split at hread
            · next h => exact .inr h
            · cases hread
              cases hkind
  · rintro ⟨w, n, ⟨rest, hw⟩, hn, hcases⟩
    have hnumber := (Varint.readBy_readI33 bytes n rest).mpr ⟨w, hw.symm, hn⟩
    rw [hforeign] at hcases
    rw [read, hnumber]
    dsimp only
    -- neither of the supported types has such a number
    rw [if_neg (by omega), if_neg (by omega)]
    split
    · exact ⟨_, rfl, rfl⟩
    · rw [if_pos (by omega)]
      exact ⟨_, rfl, rfl⟩

end BlockType

namespace Instruction

variable {k : Kind} {body : List UInt8} {pc : Nat}

/-- What stands at a position is the immediate after the opcode. -/
theorem fetch_of_opcode (hop : body[pc]? = some k.opcode) :
    fetch body pc = (readImmediate k pc (body.drop (pc + 1))).map
      fun (i, rest) => (i, body.length - pc - rest.length) := by
  obtain ⟨hpc, hbyte⟩ := List.getElem?_eq_some_iff.mp hop
  rw [fetch, decodeAt, List.drop_eq_getElem_cons hpc, hbyte, decode, Kind.ofOpcode?_opcode]

/-- The instructions that open a construct, by their kinds and their types. -/
theorem exists_construct (hk : k = .block ∨ k = .if_) (t : BlockType) :
    ∃ i : Instruction, i.kind = k ∧ i.arity = t.arity := by
  rcases hk with rfl | rfl
  · exact ⟨.block t, rfl, rfl⟩
  · exact ⟨.if_ t, rfl, rfl⟩

/-- The immediate of a construct, in terms of its arity, which is what the compiler uses of it. -/
theorem paddedImmediate_construct (hk : k = .block ∨ k = .if_) {i : Instruction} (hi : i.kind = k)
    (w : List UInt8) :
    i.PaddedImmediate w ↔ ∃ t : BlockType, i.arity = t.arity ∧ Signed 33 w t.code := by
  rcases hk with rfl | rfl
  all_goals
    cases i <;> cases hi
    rename_i type
    refine ⟨fun h => ⟨type, rfl, h⟩, ?_⟩
    rintro ⟨t, ht, h⟩
    cases BlockType.arity_injective ht
    exact h

/-- **A construct is accepted** if its block type is one of the two numbers. -/
theorem fetch_construct_eq_ok_iff (hk : k = .block ∨ k = .if_) (hop : body[pc]? = some k.opcode)
    (i : Instruction) (n : Nat) :
    fetch body pc = .ok (i, n) ↔ i.kind = k ∧ ∃ (t : BlockType) (w : List UInt8),
      w <+: body.drop (pc + 1) ∧ Signed 33 w t.code ∧ i.arity = t.arity ∧ n = 1 + w.length := by
  have hpc : pc < body.length := (List.getElem?_eq_some_iff.mp hop).1
  rw [fetch_of_opcode hop, Except.map_eq_ok]
  constructor
  · rintro ⟨⟨i, rest⟩, himmediate, hresult⟩
    cases hresult
    obtain ⟨hi, w, hw, hpadded⟩ := readImmediate_eq_ok_iff.mp himmediate
    obtain ⟨t, harity, hcode⟩ := (paddedImmediate_construct hk hi w).mp hpadded
    refine ⟨hi, t, w, ⟨rest, hw.symm⟩, hcode, harity, ?_⟩
    -- the opcode and the word are what lies between the position and the rest
    have hlength := congrArg List.length hw
    rw [List.length_drop, List.length_append] at hlength
    omega
  · rintro ⟨hi, t, w, ⟨rest, hw⟩, hcode, harity, rfl⟩
    -- a word of the block type is read, however it is padded
    have hpadded := (paddedImmediate_construct hk hi w).mpr ⟨t, harity, hcode⟩
    refine ⟨(i, rest), readImmediate_eq_ok_iff.mpr ⟨hi, w, hw.symm, hpadded⟩, ?_⟩
    have hlength := congrArg List.length hw
    rw [List.length_drop, List.length_append] at hlength
    show (i, body.length - pc - rest.length) = (i, 1 + w.length)
    congr 1
    omega

/-- A construct is refused for its block type, and for nothing else: its opcode is known, and the
error of the block type is only put in context. -/
theorem fetch_construct_eq_error_iff (hk : k = .block ∨ k = .if_)
    (hop : body[pc]? = some k.opcode) (e : DecodeError) :
    fetch body pc = .error e ↔
      ∃ cause, BlockType.read (body.drop (pc + 1)) = .error cause ∧ e = .blockType k pc cause := by
  rw [fetch_of_opcode hop]
  rcases hk with rfl | rfl
  -- both constructs read their block type in the same way
  all_goals
    rw [readImmediate, readBlockType]
    cases BlockType.read (body.drop (pc + 1)) with
    | error cause =>
      constructor
      · intro h
        cases h
        exact ⟨cause, rfl, rfl⟩
      · rintro ⟨_, h, rfl⟩
        cases h
        rfl
    | ok result =>
      constructor
      · intro h
        cases h
      · rintro ⟨_, h, -⟩
        cases h

/-- **A construct is not supported** if its block type is the number of another value type or refers
to a signature. -/
theorem fetch_construct_unsupported_iff (hk : k = .block ∨ k = .if_)
    (hop : body[pc]? = some k.opcode) :
    (∃ e, fetch body pc = .error e ∧ e.kind = .unsupportedFeature) ↔
      ∃ w n, w <+: body.drop (pc + 1) ∧ Signed 33 w n ∧ (n ∈ BlockType.foreign ∨ 0 ≤ n) := by
  rw [← BlockType.read_unsupported_iff]
  constructor
  · rintro ⟨e, he, hkind⟩
    obtain ⟨cause, hcause, rfl⟩ := (fetch_construct_eq_error_iff hk hop e).mp he
    exact ⟨cause, hcause, hkind⟩
  · rintro ⟨cause, hcause, hkind⟩
    exact ⟨_, (fetch_construct_eq_error_iff hk hop _).mpr ⟨cause, hcause, rfl⟩, hkind⟩

/-- A construct that is refused is either not supported or malformed. -/
theorem fetch_construct_refused (hk : k = .block ∨ k = .if_) (hop : body[pc]? = some k.opcode)
    {e : DecodeError} (h : fetch body pc = .error e) :
    e.kind = .unsupportedFeature ∨ e.kind = .malformedInput := by
  obtain ⟨cause, -, rfl⟩ := (fetch_construct_eq_error_iff hk hop e).mp h
  cases cause with
  | unreadable | invalid => exact .inr rfl
  | valueType | typeIndex => exact .inl rfl

end Instruction

/-! ### Comparison with the format -/

namespace BlockType

open Instruction (fetch)

variable {k : Instruction.Kind} {body : List UInt8} {pc : Nat}

/-- A byte that ends a number is the number at the head. -/
theorem singleton_prefix_drop {b : UInt8} (h : body[pc + 1]? = some b) :
    [b] <+: body.drop (pc + 1) := by
  obtain ⟨hpc, rfl⟩ := List.getElem?_eq_some_iff.mp h
  exact ⟨body.drop (pc + 1 + 1), (List.drop_eq_getElem_cons hpc).symm⟩

/-- A number in one byte at the head is the next byte. -/
theorem getElem?_of_singleton_prefix {b : UInt8} (h : [b] <+: body.drop (pc + 1)) :
    body[pc + 1]? = some b := by
  obtain ⟨rest, hrest⟩ := h
  rw [← List.head?_drop, ← hrest]
  rfl

/-- What is not padded and has a name is written in the next byte. This is the only place where it
is used that nothing is padded. -/
theorem exists_byte_of_not_padded {w : List UInt8} {n : Int}
    (hplain : ¬ Padded (body.drop (pc + 1))) (hw : w <+: body.drop (pc + 1)) (hn : Signed 33 w n)
    (hname : n ∈ foreign ∨ ∃ t : BlockType, n = t.code) :
    ∃ b : UInt8, b.toNat < 128 ∧ n = lastGroup b ∧ body[pc + 1]? = some b ∧ w.length = 1 := by
  have hlength : w.length ≤ 1 := by
    by_contra hlong
    exact hplain ⟨w, n, hw, hn, by omega, hname⟩
  obtain ⟨b, rfl, hb, rfl⟩ := Varint.exists_byte_of_signed hn hlength
  exact ⟨b, hb, rfl, getElem?_of_singleton_prefix hw, rfl⟩

/-- **What is malformed is what is left**, so two of the three rules are enough: a construct is
accepted, not supported or malformed, and never two of these at once. -/
theorem followsFormat_of (hk : k = .block ∨ k = .if_) (hop : body[pc]? = some k.opcode)
    (haccepted : ∀ i n, fetch body pc = .ok (i, n) ↔
      i.kind = k ∧ n = 2 ∧ ∃ t : BlockType, body[pc + 1]? = some t.byte ∧ i.arity = t.arity)
    (hunsupported : (∃ e, fetch body pc = .error e ∧ e.kind = .unsupportedFeature) ↔
      (∃ b ∈ foreignBytes, body[pc + 1]? = some b) ∨ RefersToSignature (body.drop (pc + 1))) :
    FollowsFormat k body pc := by
  refine ⟨haccepted, hunsupported, ?_, ?_⟩
  · rintro ⟨e, he, hkind⟩
    -- an instruction is not refused for two reasons
    have hsupported : ¬ ((∃ b ∈ foreignBytes, body[pc + 1]? = some b) ∨
        RefersToSignature (body.drop (pc + 1))) := by
      intro h
      obtain ⟨e', he', hkind'⟩ := hunsupported.mpr h
      cases he.symm.trans he'
      cases hkind.symm.trans hkind'
    refine ⟨fun t hnext => ?_, fun b hb hnext => hsupported (.inl ⟨b, hb, hnext⟩),
      fun hrefers => hsupported (.inr hrefers)⟩
    -- nor is it refused with a block type that is accepted
    obtain ⟨i, hi, harity⟩ := Instruction.exists_construct hk t
    cases he.symm.trans ((haccepted i 2).mpr ⟨hi, rfl, t, hnext, harity⟩)
  · rintro ⟨htypes, hforeign, hrefers⟩
    cases hfetch : fetch body pc with
    | ok result =>
      obtain ⟨-, -, t, hnext, -⟩ := (haccepted result.1 result.2).mp hfetch
      exact absurd hnext (htypes t)
    | error e =>
      rcases Instruction.fetch_construct_refused hk hop hfetch with hkind | hkind
      · rcases hunsupported.mp ⟨e, hfetch, hkind⟩ with ⟨b, hb, hnext⟩ | h
        · exact absurd hnext (hforeign b hb)
        · exact absurd h hrefers
      · exact ⟨e, rfl, hkind⟩

/-- Without padding, the number of a block type is the byte that writes it, so a construct that is
accepted takes two bytes. -/
theorem accepted_of_not_padded (hk : k = .block ∨ k = .if_) (hop : body[pc]? = some k.opcode)
    (hplain : ¬ Padded (body.drop (pc + 1))) (i : Instruction) (n : Nat) :
    fetch body pc = .ok (i, n) ↔
      i.kind = k ∧ n = 2 ∧ ∃ t : BlockType, body[pc + 1]? = some t.byte ∧ i.arity = t.arity := by
  rw [Instruction.fetch_construct_eq_ok_iff hk hop]
  refine and_congr_right fun _ => ?_
  constructor
  · rintro ⟨t, w, hw, hcode, harity, rfl⟩
    -- without padding the number has one byte, and it is the byte of the type
    obtain ⟨b, hb, hgroup, hnext, hlength⟩ :=
      exists_byte_of_not_padded hplain hw hcode (.inr ⟨t, rfl⟩)
    rw [(lastGroup_eq_code_iff hb t).mp hgroup.symm] at hnext
    exact ⟨by omega, t, hnext, harity⟩
  · rintro ⟨rfl, t, hnext, harity⟩
    have hcode := Varint.signed_singleton t.byte_lt
    rw [(lastGroup_eq_code_iff t.byte_lt t).mpr rfl] at hcode
    exact ⟨t, [t.byte], singleton_prefix_drop hnext, hcode, harity, rfl⟩

/-- Without padding, the number of another value type is the byte that writes it. A reference to a
signature may have any length, so nothing has to be known about it. -/
theorem unsupported_of_not_padded (hk : k = .block ∨ k = .if_) (hop : body[pc]? = some k.opcode)
    (hplain : ¬ Padded (body.drop (pc + 1))) :
    (∃ e, fetch body pc = .error e ∧ e.kind = .unsupportedFeature) ↔
      (∃ b ∈ foreignBytes, body[pc + 1]? = some b) ∨ RefersToSignature (body.drop (pc + 1)) := by
  rw [Instruction.fetch_construct_unsupported_iff hk hop]
  constructor
  · rintro ⟨w, n, hw, hn, hforeign | hindex⟩
    · obtain ⟨b, hb, rfl, hnext, -⟩ := exists_byte_of_not_padded hplain hw hn (.inl hforeign)
      exact .inl ⟨b, (lastGroup_mem_foreign_iff hb).mp hforeign, hnext⟩
    · exact .inr ⟨w, n, hw, hn, hindex⟩
  · rintro (⟨b, hb, hnext⟩ | ⟨w, n, hw, hn, hindex⟩)
    · have hlt := lt_of_mem_foreignBytes hb
      exact ⟨[b], _, singleton_prefix_drop hnext, Varint.signed_singleton hlt,
        .inl ((lastGroup_mem_foreign_iff hlt).mpr hb)⟩
    · exact ⟨w, n, hw, hn, .inr hindex⟩

/-- **A name in more than one byte is still taken for that name**, while the format has no such
type. For a type that is not compiled this shows in the reason, for a block type in the size. -/
theorem not_followsFormat_of_padded (hk : k = .block ∨ k = .if_) (hop : body[pc]? = some k.opcode)
    (hpadded : Padded (body.drop (pc + 1))) : ¬ FollowsFormat k body pc := by
  intro hformat
  obtain ⟨w, n, hw, hn, hlong, hforeign | ⟨t, rfl⟩⟩ := hpadded
  · have hrefused := (Instruction.fetch_construct_unsupported_iff hk hop).mpr
      ⟨w, n, hw, hn, .inl hforeign⟩
    rcases hformat.unsupported.mp hrefused with ⟨b, hb, hnext⟩ | ⟨w', n', hw', hn', hindex⟩
    · -- the next byte alone would be a number
      have hbyte := Varint.signed_singleton (lt_of_mem_foreignBytes hb)
      obtain ⟨rfl, -⟩ := Varint.signed_unique hw hn (singleton_prefix_drop hnext) hbyte
      exact Nat.lt_irrefl 1 hlong
    · -- the number would refer to a signature and be negative
      obtain ⟨-, rfl⟩ := Varint.signed_unique hw hn hw' hn'
      simp only [foreign, List.mem_cons, List.not_mem_nil, or_false] at hforeign
      omega
  · -- the construct is accepted, but it is longer than two bytes
    obtain ⟨i, hi, harity⟩ := Instruction.exists_construct hk t
    have hfetch := (Instruction.fetch_construct_eq_ok_iff hk hop i _).mpr
      ⟨hi, t, w, hw, hn, harity, rfl⟩
    obtain ⟨-, hsize, -⟩ := (hformat.accepted i _).mp hfetch
    omega

/-- **Block types follow the format unless they are padded**: a construct is accepted in two bytes,
refused as unsupported or refused as malformed just as the format says, exactly if no type that has
a name stands after its opcode in more than one byte. In general it is the number that counts, in
any of its forms: the numbers of the two block types are accepted in the bytes they take, those of
other value types and of signatures are not supported, and everything else is malformed. -/
theorem followsFormat_iff (hk : k = .block ∨ k = .if_) (hop : body[pc]? = some k.opcode) :
    (FollowsFormat k body pc ↔ ¬ Padded (body.drop (pc + 1))) ∧
      (∀ i n, fetch body pc = .ok (i, n) ↔ i.kind = k ∧ ∃ (t : BlockType) (w : List UInt8),
        w <+: body.drop (pc + 1) ∧ Signed 33 w t.code ∧ i.arity = t.arity ∧ n = 1 + w.length) ∧
      ((∃ e, fetch body pc = .error e ∧ e.kind = .unsupportedFeature) ↔
        ∃ w n, w <+: body.drop (pc + 1) ∧ Signed 33 w n ∧ (n ∈ foreign ∨ 0 ≤ n)) ∧
      ∀ e, fetch body pc = .error e → e.kind = .unsupportedFeature ∨ e.kind = .malformedInput := by
  refine ⟨⟨fun hformat hpadded => ?_, fun hplain => ?_⟩, ?_, ?_, ?_⟩
  · exact not_followsFormat_of_padded hk hop hpadded hformat
  · exact followsFormat_of hk hop (accepted_of_not_padded hk hop hplain)
      (unsupported_of_not_padded hk hop hplain)
  · exact Instruction.fetch_construct_eq_ok_iff hk hop
  · exact Instruction.fetch_construct_unsupported_iff hk hop
  · intro e he
    exact Instruction.fetch_construct_refused hk hop he

/-- An `if` with a result, behind another byte, and a block whose type is `-2` in two bytes. -/
theorem followsFormat_iff_result :
    FollowsFormat .if_ [0x0b, 0x04, 0x7f] 1 ∧ ¬ FollowsFormat .block [0x02, 0xfe, 0x7f] 0 := by
  constructor
  · refine (followsFormat_iff (.inr rfl) rfl).1.mpr ?_
    rintro ⟨w, n, hw, -, hlong, -⟩
    exact absurd hw.length_le (Nat.not_le.mpr hlong)
  · intro hformat
    refine (followsFormat_iff (.inl rfl) rfl).1.mp hformat ?_
    obtain ⟨w, hw, hn⟩ := (Varint.readBy_readI33 [0xfe, 0x7f] (-2) []).mp (by decide)
    rw [List.append_nil] at hw
    exact ⟨w, -2, hw ▸ List.prefix_rfl, hn, hw ▸ by decide, .inl (by decide)⟩

/-- A block without a type is accepted with its type in two bytes, which the format does not allow.
-/
theorem fetch_padded_empty :
    fetch [0x02, 0xc0, 0x7f, 0x0b] 0 = .ok (.block .empty, 3) ∧
      ¬ FollowsFormat .block [0x02, 0xc0, 0x7f, 0x0b] 0 := by
  have hfetch : fetch [0x02, 0xc0, 0x7f, 0x0b] 0 = .ok (.block .empty, 3) := by decide
  refine ⟨hfetch, fun hformat => ?_⟩
  obtain ⟨-, hsize, -⟩ := (hformat.accepted _ _).mp hfetch
  exact absurd hsize (by decide)

end BlockType

end WasmJit
