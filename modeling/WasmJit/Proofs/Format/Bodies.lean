import WasmJit.Instruction.Decoding
import WasmJit.Proofs.Format.Entries

/-!
# Function bodies in the binary format

An instruction is written as its opcode and its immediate: a number of 32 bits, which may be padded,
or the one byte of a block type. A body is a sequence of instructions, and decoding it from left to
right gives back these instructions. Block types are numbers as well, and are accepted with padding.

* `Instruction.Written` is the format of instructions, `Instruction.Spelled` the same format with
  padded block types.
* `Varint.loadU32_eq`: looking a number up is the same as reading it.
* `Instruction.readBy_decode`: decoding accepts exactly the instructions that are spelled.
* `Instruction.fetch_eq_ok_iff`: at a position of a body stands what is spelled there, whatever is
  around it.
* `disassemble_written` is about the instructions of a body, `disassemble_respelled` about two
  bodies that spell the same instructions differently.
-/

namespace WasmJit

/-- The byte that writes a block type. -/
def BlockType.byte : BlockType → UInt8
  | .empty => 0x40
  | .i32 => 0x7f

namespace Instruction

/-- What follows the opcode. -/
def Immediate (w : List UInt8) : Instruction → Prop
  | localGet index => Format.U32 w index
  | br depth | brIf depth => Format.U32 w depth
  | block type | if_ type => w = [type.byte]
  | _ => w = []

/-- **Instructions**: the opcode and the immediate. -/
def Written : Format Instruction := fun w i =>
  ∃ immediate, w = i.kind.opcode :: immediate ∧ i.Immediate immediate

end Instruction

/-- The number that stands for a block type. -/
def BlockType.code : BlockType → Int
  | .empty => -64
  | .i32 => -1

namespace Instruction

/-- What follows the opcode, where block types may be padded as other numbers are. -/
def PaddedImmediate (w : List UInt8) : Instruction → Prop
  | localGet index => Format.U32 w index
  | br depth | brIf depth => Format.U32 w depth
  | block type | if_ type => Format.Signed 33 w type.code
  | _ => w = []

/-- **All spellings of an instruction.** -/
def Spelled : Format Instruction := fun w i =>
  ∃ immediate, w = i.kind.opcode :: immediate ∧ i.PaddedImmediate immediate

/-- What is written without padding is one of the spellings: the one byte of a block type is a
signed number on its own. -/
theorem Written.spelled {w : List UInt8} {i : Instruction} (h : Written w i) : Spelled w i := by
  obtain ⟨immediate, rfl, himmediate⟩ := h
  refine ⟨immediate, rfl, ?_⟩
  cases i with
  | block type | if_ type =>
    cases himmediate
    cases type with
    | empty => exact .last (b := 0x40) (by decide) (by decide) (by decide)
    | i32 => exact .last (b := 0x7f) (by decide) (by decide) (by decide)
  | _ => exact himmediate

end Instruction

/-! ### Immediates -/

namespace Varint

/-- **Looking groups up by position is the same as reading them**, by induction on the groups that
are left. Nothing is taken off the list here, so the bytes that are consumed are counted as the
difference of two lengths. -/
theorem loadGroups_eq (bytes : List UInt8) (groups pos : Nat) (shift acc : UInt32) :
    loadGroups bytes groups pos shift acc =
      (readGroups groups shift acc (bytes.drop pos)).map
        fun (v, rest) => (v, bytes.length - rest.length) := by
  induction groups generalizing pos shift acc with
  | zero => rfl
  | succ left ih =>
    rw [loadGroups]
    cases hb : bytes[pos]? with
    -- the position is behind the last byte, so there is nothing to read there either
    | none =>
      have hnil : bytes.drop pos = [] := List.drop_eq_nil_iff.mpr (List.getElem?_eq_none_iff.mp hb)
      rw [hnil]
      rfl
    | some b =>
      obtain ⟨hpos, rfl⟩ := List.getElem?_eq_some_iff.mp hb
      rw [List.drop_eq_getElem_cons hpos, readGroups]
      dsimp only
      split
      · split
        · rfl
        · -- the rest starts behind this position
          simp only [Except.map, List.length_drop]
          congr 2
          omega
      · exact ih _ _ _

/-- **Looking a number up** gives the number that is read, and the bytes that are consumed. -/
theorem loadU32_eq (bytes : List UInt8) :
    loadU32 bytes = (readU32 bytes).map fun (v, rest) => (v, bytes.length - rest.length) :=
  loadGroups_eq bytes 5 0 0 0

end Varint

/-- A reader whose result is changed, such as the reader of an index that makes an instruction of
it. -/
theorem Format.ReadBy.map_eq_ok_iff {ε α β : Type} {G : Format α}
    {read : List UInt8 → Except ε (α × List UInt8)} (h : G.ReadBy read) {f : α → β}
    {bytes rest : List UInt8} {b : β} :
    ((read bytes).map fun (a, rest) => (f a, rest)) = .ok (b, rest) ↔
      ∃ a, f a = b ∧ ∃ w, bytes = w ++ rest ∧ G w a := by
  rw [Except.map_eq_ok]
  constructor
  · rintro ⟨⟨a, r⟩, hread, hresult⟩
    cases hresult
    exact ⟨a, rfl, (h bytes a rest).mp hread⟩
  · rintro ⟨a, rfl, ha⟩
    exact ⟨(a, rest), (h bytes a rest).mpr ha, rfl⟩

namespace BlockType

/-- **Reading a block type** accepts its number, in any spelling. The other numbers are refused with
errors of different kinds, but all of them are refused. -/
theorem readBy_read : Format.ReadBy (fun w (type : BlockType) => Format.Signed 33 w type.code)
    read := by
  intro bytes type rest
  rw [← Varint.readBy_readI33, read]
  cases Varint.readI33 bytes with
  | error e => exact ⟨nofun, nofun⟩
  | ok result =>
    obtain ⟨code, rest'⟩ := result
    dsimp only
    constructor
    · intro h
      -- only the two codes of a block type are accepted
      split at h
      · next hcode =>
        cases h
        rw [hcode, BlockType.code]
      · split at h
        · next hcode =>
          cases h
          rw [hcode, BlockType.code]
        · split at h
          · cases h
          · split at h <;> cases h
    · intro h
      cases h
      cases type <;> rfl

end BlockType

namespace Instruction

/-- **Reading an index** is reading a number of 32 bits. -/
theorem readBy_readIndex (k : Kind) (pc : Nat) : Format.U32.ReadBy (readIndex k pc) := by
  intro bytes index rest
  rw [← Varint.readBy_readU32, readIndex, Varint.loadU32_eq]
  cases hread : Varint.readU32 bytes with
  | error e => exact ⟨nofun, nofun⟩
  | ok result =>
    obtain ⟨v, r⟩ := result
    -- what is dropped are the bytes of the number
    obtain ⟨w, rfl, -⟩ := (Varint.readBy_readU32 bytes v r).mp hread
    simp [Except.map]

/-- Every kind has an opcode of its own. -/
theorem Kind.ofOpcode?_opcode (k : Kind) : ofOpcode? k.opcode = some k := by
  cases k <;> rfl

/-- Opcodes are found in a table, so what is found has the opcode that was looked for. -/
theorem Kind.opcode_of_ofOpcode? {op : UInt8} {k : Kind} (h : ofOpcode? op = some k) :
    k.opcode = op := by
  simpa using List.find?_some h

/-- **What follows the opcode** of an instruction of kind `k`. There are three sorts of immediates,
and the kinds that share one are treated together. -/
theorem readImmediate_eq_ok_iff {k : Kind} {pc : Nat} {bytes rest : List UInt8} {i : Instruction} :
    readImmediate k pc bytes = .ok (i, rest) ↔
      i.kind = k ∧ ∃ w, bytes = w ++ rest ∧ i.PaddedImmediate w := by
  cases k with
  | localGet | br | brIf =>
    -- an index, or a block type below, is all that there is
    rw [readImmediate, (readBy_readIndex _ pc).map_eq_ok_iff]
    constructor
    · rintro ⟨index, rfl, hindex⟩
      exact ⟨rfl, hindex⟩
    · rintro ⟨hkind, hindex⟩
      cases i <;> cases hkind
      exact ⟨_, rfl, hindex⟩
  | block | if_ =>
    rw [readImmediate, readBlockType, (BlockType.readBy_read.mapError _).map_eq_ok_iff]
    constructor
    · rintro ⟨type, rfl, htype⟩
      exact ⟨rfl, htype⟩
    · rintro ⟨hkind, htype⟩
      cases i <;> cases hkind
      exact ⟨_, rfl, htype⟩
  -- no immediate: nothing is read, and the word is empty
  | _ =>
    constructor
    · intro h
      cases h
      exact ⟨rfl, [], rfl, rfl⟩
    · rintro ⟨hkind, w, rfl, hw⟩
      cases i <;> cases hkind
      cases hw
      rfl

/-- **Decoding accepts exactly the instructions that are spelled.** The position only matters for
error messages. -/
theorem readBy_decode (pc : Nat) : Spelled.ReadBy (decode pc) := by
  intro bytes i rest
  cases bytes with
  | nil =>
    refine ⟨nofun, fun ⟨w, hw, immediate, hspelled, _⟩ => ?_⟩
    rw [hspelled] at hw
    cases hw
  | cons op bytes =>
    rw [decode]
    constructor
    · intro h
      -- the first byte decides what kind of instruction it is, and the immediate follows
      split at h
      · cases h
      · next k hk =>
        obtain ⟨rfl, w, rfl, hw⟩ := readImmediate_eq_ok_iff.mp h
        exact ⟨op :: w, rfl, w, by rw [Kind.opcode_of_ofOpcode? hk], hw⟩
    · rintro ⟨_, hw, immediate, rfl, himmediate⟩
      cases hw
      rw [Kind.ofOpcode?_opcode]
      exact readImmediate_eq_ok_iff.mpr ⟨rfl, immediate, rfl, himmediate⟩

end Instruction

/-! ### Bodies -/

/-- An instruction takes at least its opcode, so walking through a body comes to an end. -/
theorem Instruction.Spelled.length_pos {w : List UInt8} {i : Instruction} (h : Spelled w i) :
    0 < w.length := by
  obtain ⟨immediate, rfl, -⟩ := h
  exact Nat.succ_pos _

namespace Instruction

/-- **The instruction at position `pc`** of a body, with the number of bytes it takes. -/
def fetch (body : List UInt8) (pc : Nat) : Except DecodeError (Instruction × Nat) :=
  (decodeAt body pc).map fun (i, rest) => (i, body.length - pc - rest.length)

/-- **An instruction is found where a spelling of it stands**, whatever is around it. So the size
that is reported is the length of a word, and neither the bytes before it nor those after it matter.
-/
theorem fetch_eq_ok_iff {body : List UInt8} {pc n : Nat} {i : Instruction} :
    fetch body pc = .ok (i, n) ↔ ∃ before word after, body = before ++ word ++ after ∧
      before.length = pc ∧ word.length = n ∧ Spelled word i := by
  rw [fetch, Except.map_eq_ok]
  constructor
  · rintro ⟨⟨i, rest⟩, hdecode, hresult⟩
    cases hresult
    obtain ⟨word, hword, hspelled⟩ := (readBy_decode pc (body.drop pc) i rest).mp hdecode
    -- an empty word would fit behind the end of the body as well
    have hpos := hspelled.length_pos
    have hlength : body.length - pc = word.length + rest.length := by
      rw [← List.length_drop, hword, List.length_append]
    refine ⟨body.take pc, word, rest, ?_, ?_, ?_, hspelled⟩
    · rw [List.append_assoc, ← hword, List.take_append_drop]
    · rw [List.length_take]
      omega
    · omega
  · rintro ⟨before, word, after, rfl, rfl, rfl, hspelled⟩
    -- what stands in front is dropped, and what stands behind is not looked at
    have hdrop : (before ++ word ++ after).drop before.length = word ++ after := by
      rw [List.append_assoc, List.drop_left]
    refine ⟨(i, after), (readBy_decode before.length _ i after).mpr ⟨word, hdrop, hspelled⟩, ?_⟩
    show (i, (before ++ word ++ after).length - before.length - after.length) = (i, word.length)
    rw [List.length_append, List.length_append]
    congr 1
    omega

/-- A position is faulty for the same reason whether sizes are asked for or not. -/
theorem fetch_eq_error_iff {body : List UInt8} {pc : Nat} {e : DecodeError} :
    fetch body pc = .error e ↔ decodeAt body pc = .error e := by
  rw [fetch]
  cases decodeAt body pc <;> simp [Except.map]

end Instruction

namespace Disassembly

/-- **One instruction at the head of a body** is the first one of the disassembly; the others are
those of the rest, from its position on. -/
theorem scan_append {v : List UInt8} {i : Instruction} (h : Instruction.Spelled v i)
    (fuel pc : Nat) (w : List UInt8) :
    scan (fuel + 1) pc (v ++ w) =
      ⟨⟨pc, i, v.length⟩ :: (scan fuel (pc + v.length) w).instructions,
        (scan fuel (pc + v.length) w).fault⟩ := by
  -- the word is read, and its length is what is left out
  have hdecode := (Instruction.readBy_decode pc (v ++ w) i w).mpr ⟨v, rfl, h⟩
  have hsize : (v ++ w).length - w.length = v.length := by
    rw [List.length_append, Nat.add_sub_cancel]
  obtain ⟨immediate, rfl, -⟩ := h
  rw [List.cons_append] at hdecode hsize ⊢
  simp only [scan, hdecode, hsize]

/-- The instructions of a sequence of words, wherever it stands. There is an instruction for every
byte at most, so a limit of as many instructions as there are bytes is never reached. -/
theorem scan_written {w : List UInt8} {is : List Instruction}
    (h : Format.Sequence Instruction.Written w is) {fuel : Nat} (hfuel : w.length ≤ fuel)
    (pc : Nat) :
    (scan fuel pc w).instructions.map (·.instruction) = is ∧ (scan fuel pc w).fault = none := by
  induction h generalizing fuel pc with
  | nil => cases fuel <;> exact ⟨rfl, rfl⟩
  | @cons v w i is head tail ih =>
    -- the first word takes at least one byte, so one step is left for it
    have hpos := head.spelled.length_pos
    rw [List.length_append] at hfuel
    obtain ⟨fuel, rfl⟩ : ∃ n, fuel = n + 1 := ⟨fuel - 1, by omega⟩
    rw [scan_append head.spelled]
    obtain ⟨his, hfault⟩ := ih (by omega : w.length ≤ fuel) (pc + v.length)
    exact ⟨congrArg (i :: ·) his, hfault⟩

/-- **The same instructions**, wherever they stand: both bodies decode to their ends, or neither
does. -/
def Agrees (d d' : Disassembly) : Prop :=
  d.instructions.map (·.instruction) = d'.instructions.map (·.instruction) ∧
    (d.fault = none ↔ d'.fault = none)

variable {fuel fuel' : Nat} {v v' w w' : List UInt8} {i : Instruction}

theorem agrees_scan_nil (fuel fuel' pc pc' : Nat) :
    (scan fuel pc []).Agrees (scan fuel' pc' []) := by
  cases fuel <;> cases fuel' <;> exact ⟨rfl, Iff.rfl⟩

/-- Two spellings of an instruction, in front of code that agrees. They may have different lengths,
so all positions and limits behind them are different. -/
theorem agrees_scan_append (h : Instruction.Spelled v i) (h' : Instruction.Spelled v' i)
    (hfuel : (v ++ w).length ≤ fuel) (hfuel' : (v' ++ w').length ≤ fuel') (pc pc' : Nat)
    (tail : ∀ fuel fuel' pc pc', w.length ≤ fuel → w'.length ≤ fuel' →
      (scan fuel pc w).Agrees (scan fuel' pc' w')) :
    (scan fuel pc (v ++ w)).Agrees (scan fuel' pc' (v' ++ w')) := by
  have hpos := h.length_pos
  have hpos' := h'.length_pos
  rw [List.length_append] at hfuel hfuel'
  obtain ⟨fuel, rfl⟩ : ∃ n, fuel = n + 1 := ⟨fuel - 1, by omega⟩
  obtain ⟨fuel', rfl⟩ : ∃ n, fuel' = n + 1 := ⟨fuel' - 1, by omega⟩
  rw [scan_append h, scan_append h']
  obtain ⟨his, hfault⟩ :=
    tail fuel fuel' (pc + v.length) (pc' + v'.length) (by omega) (by omega)
  exact ⟨congrArg (i :: ·) his, hfault⟩

/-- The position of the bytes, and how many instructions are allowed, make no difference, as long as
there is one for every byte. -/
theorem agrees_scan (bytes : List UInt8) : ∀ fuel fuel' pc pc', bytes.length ≤ fuel →
    bytes.length ≤ fuel' → (scan fuel pc bytes).Agrees (scan fuel' pc' bytes) := by
  -- by induction on the number of bytes that are left
  induction hn : bytes.length using Nat.strongRecOn generalizing bytes with
  | ind n ih =>
    intro fuel fuel' pc pc' hfuel hfuel'
    subst hn
    cases bytes with
    | nil => exact agrees_scan_nil fuel fuel' pc pc'
    | cons b bytes =>
      obtain ⟨fuel, rfl⟩ : ∃ n, fuel = n + 1 := ⟨fuel - 1, by simp at hfuel; omega⟩
      obtain ⟨fuel', rfl⟩ : ∃ n, fuel' = n + 1 := ⟨fuel' - 1, by simp at hfuel'; omega⟩
      -- decode at the first position; what is spelled there is spelled at the other one, too
      cases hdecode : Instruction.decode pc (b :: bytes) with
      | ok result =>
        obtain ⟨i, rest⟩ := result
        obtain ⟨v, hv, hspelled⟩ := (Instruction.readBy_decode pc _ i rest).mp hdecode
        have hpos := hspelled.length_pos
        rw [hv] at hfuel hfuel' ih ⊢
        refine agrees_scan_append hspelled hspelled hfuel hfuel' pc pc' ?_
        exact ih rest.length (by rw [List.length_append]; omega) rest rfl
      | error e =>
        -- it cannot be decoded at the other position either
        cases hdecode' : Instruction.decode pc' (b :: bytes) with
        | ok result =>
          have hspelled := (Instruction.readBy_decode pc' _ _ _).mp hdecode'
          rw [(Instruction.readBy_decode pc _ _ _).mpr hspelled] at hdecode
          cases hdecode
        | error e' =>
          simp only [scan, hdecode, hdecode']
          exact ⟨rfl, ⟨nofun, nofun⟩⟩

end Disassembly

/-- **Bodies that spell the same instructions**, with or without padding, up to some point. -/
inductive Respelled : List UInt8 → List UInt8 → Prop
  | rest (bytes : List UInt8) : Respelled bytes bytes
  | cons {v v' w w' : List UInt8} {i : Instruction} (head : Instruction.Spelled v i)
      (head' : Instruction.Spelled v' i) (tail : Respelled w w') : Respelled (v ++ w) (v' ++ w')

/-- Bodies that spell the same instructions agree, by induction on where their words were replaced.
-/
theorem Respelled.agrees_scan {bytes bytes' : List UInt8} (h : Respelled bytes bytes') :
    ∀ fuel fuel' pc pc', bytes.length ≤ fuel → bytes'.length ≤ fuel' →
      (Disassembly.scan fuel pc bytes).Agrees (Disassembly.scan fuel' pc' bytes') := by
  induction h with
  | rest bytes => exact Disassembly.agrees_scan bytes
  | cons head head' _ ih =>
    intro fuel fuel' pc pc' hfuel hfuel'
    exact Disassembly.agrees_scan_append head head' hfuel hfuel' pc pc' ih

/-- **A body is decoded** to the instructions that it writes. -/
theorem disassemble_written {body : List UInt8} {is : List Instruction}
    (h : Format.Sequence Instruction.Written body is) :
    (disassemble body).instructions.map (·.instruction) = is ∧ (disassemble body).fault = none :=
  Disassembly.scan_written h (Nat.le_refl _) 0

/-- **Padding makes no difference** to the instructions of a body. -/
theorem disassemble_respelled {body body' : List UInt8} (h : Respelled body body') :
    (disassemble body).Agrees (disassemble body') :=
  h.agrees_scan _ _ 0 0 (Nat.le_refl _) (Nat.le_refl _)

end WasmJit
