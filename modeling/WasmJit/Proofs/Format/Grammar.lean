import Mathlib.Algebra.Ring.Int.Defs
import Mathlib.Algebra.Ring.Nat
import WasmJit.Module
import WasmJit.Module.Section

/-!
# The grammar of the binary format

A format relates words, which are lists of bytes, to what they write. Nothing in this module reads
or writes: the relations say which words are allowed, from numbers up to modules.

* `Format.Unsigned` and `Format.Signed` are numbers of bounded width; padding is allowed as far as
  it fits the width.
* `Format.Sequence`, `Format.Counted` and `Format.Sized` put words together.
* `FunctionType.Written`, `Code.Written` and `Section.Written` are the entries and the frames of
  sections.
* `Module.Written` is the format of modules.
-/

namespace WasmJit

/-- **A format**: which words write which values. -/
abbrev Format (α : Type) := List UInt8 → α → Prop

namespace Format

variable {α : Type}

/-- **Numbers of at most `bits` bits**, in groups of seven bits, lowest group first. Every byte but
the last is at least 128; what does not fit in the last group has to be zero. -/
inductive Unsigned : (bits : Nat) → List UInt8 → Nat → Prop where
  | last {bits : Nat} {b : UInt8} (isLast : b.toNat < 128) (fits : b.toNat < 2 ^ bits) :
      Unsigned bits [b] b.toNat
  | more {bits : Nat} {b : UInt8} {w : List UInt8} {n : Nat} (goesOn : 128 ≤ b.toNat)
      (room : 7 < bits) (rest : Unsigned (bits - 7) w n) :
      Unsigned bits (b :: w) (b.toNat - 128 + 128 * n)

/-- The last group of a signed number, of which bit 6 is the sign. -/
def lastGroup (b : UInt8) : Int :=
  if b.toNat < 64 then b.toNat else b.toNat - 128

/-- **Signed numbers of at most `bits` bits**, in groups of seven bits, lowest group first. What
does not fit in the last group has to repeat the sign. -/
inductive Signed : (bits : Nat) → List UInt8 → Int → Prop where
  | last {bits : Nat} {b : UInt8} (isLast : b.toNat < 128)
      (lower : -2 ^ (bits - 1) ≤ lastGroup b) (upper : lastGroup b < 2 ^ (bits - 1)) :
      Signed bits [b] (lastGroup b)
  | more {bits : Nat} {b : UInt8} {w : List UInt8} {n : Int} (goesOn : 128 ≤ b.toNat)
      (room : 7 < bits) (rest : Signed (bits - 7) w n) :
      Signed bits (b :: w) (b.toNat - 128 + 128 * n)

/-- Numbers of 32 bits, which take at most five bytes. -/
def U32 : Format UInt32 := fun w v => Unsigned 32 w v.toNat

/-- Any number of words, one after the other. -/
inductive Sequence (G : Format α) : List UInt8 → List α → Prop where
  | nil : Sequence G [] []
  | cons {v w : List UInt8} {x : α} {xs : List α} (head : G v x) (tail : Sequence G w xs) :
      Sequence G (v ++ w) (x :: xs)

/-- A sequence after the number of its words. -/
def Counted (G : Format α) : Format (List α) := fun w xs =>
  ∃ count words, w = count ++ words ∧ Unsigned 32 count xs.length ∧ Sequence G words xs

/-- A word after the number of its bytes. -/
def Sized (G : Format α) : Format α := fun w x =>
  ∃ size content, w = size ++ content ∧ Unsigned 32 size content.length ∧ G content x

/-- A text in UTF-8. -/
def Utf8 : Format (List Char) := fun w text => w = text.flatMap String.utf8EncodeChar

end Format

/-! ### Entries of sections -/

/-- The only type that is read. -/
def ValueType.Written : Format ValueType := fun w t => w = [0x7f] ∧ t = .i32

/-- **Signatures**: counted parameters and counted results, of which there is at most one. -/
def FunctionType.Written : Format FunctionType := fun w t =>
  ∃ params results, w = 0x60 :: (params ++ results) ∧
    Format.Counted ValueType.Written params t.params ∧
    Format.Counted ValueType.Written results t.results ∧ t.results.length ≤ 1

/-- A declaration of a number of locals. -/
def Code.Declaration : Format Nat := fun w n =>
  ∃ count, w = count ++ [0x7f] ∧ Format.Unsigned 32 count n

/-- Counted declarations of at most 65536 locals in all, and then the instructions, the last byte of
which is `end`. -/
def Code.Content : Format Code := fun w c =>
  ∃ declarations counts, w = declarations ++ c.body ∧
    Format.Counted Code.Declaration declarations counts ∧
    c.numLocals.toNat = counts.sum ∧ counts.sum ≤ 65536 ∧ c.body.getLast? = some 0x0b

/-- **Bodies**, each after its size. -/
def Code.Written : Format Code := Format.Sized Code.Content

/-! ### Sections -/

/-- A section that is not read any further. -/
structure Section where
  id : SectionId
  content : List UInt8
deriving DecidableEq, Repr

namespace Section

/-- **Sections**: a byte that says what it holds, and the content after its size. -/
def Written : Format Section := fun w s =>
  ∃ size, w = s.id.byte :: (size ++ s.content) ∧ Format.Unsigned 32 size s.content.length

/-- Whether the content starts with a name; what follows the name is free. -/
def Named (s : Section) : Prop :=
  ∃ name free text, s.content = name ++ free ∧ Format.Sized Format.Utf8 name text

/-- What the sections `id` hold, all of which are counted lists of the format `G`. Without such a
section, it is `absent`. -/
def Hold {α : Type} (sections : List Section) (id : SectionId) (G : Format α) (absent xs : List α) :
    Prop :=
  (∀ s ∈ sections, s.id = id → Format.Counted G s.content xs) ∧
    ((∀ s ∈ sections, s.id ≠ id) → xs = absent)

/-- **What sections make of the module `m`.** Custom sections only have to have a name. -/
structure Fill (sections : List Section) (m m' : Module) : Prop where
  known : ∀ s ∈ sections, s.id.byte ∈ [0, 1, 3, 10]
  named : ∀ s ∈ sections, s.id.byte = 0 → s.Named
  types : Hold sections ⟨1⟩ FunctionType.Written m.types m'.types
  functionTypes : Hold sections ⟨3⟩ Format.U32 m.functionTypes m'.functionTypes
  code : Hold sections ⟨10⟩ Code.Written m.code m'.code

/-- The bytes of the sections that are not custom ones. -/
def order (sections : List Section) : List UInt8 :=
  (sections.map (·.id.byte)).filter (· ≠ 0)

end Section

/-! ### Modules -/

/-- **Modules**: eight bytes that are always the same, and then sections. Those that are not custom
ones come in strictly ascending order, so there is at most one for each list of the module; there
are as many bodies as functions, and every function refers to a signature. -/
def Module.Written : Format Module := fun w m =>
  ∃ words sections, w = [0x00, 0x61, 0x73, 0x6d, 0x01, 0x00, 0x00, 0x00] ++ words ∧
    Format.Sequence Section.Written words sections ∧
    (Section.order sections).Pairwise (· < ·) ∧ Section.Fill sections .empty m ∧
    m.functionTypes.length = m.code.length ∧ ∀ t ∈ m.functionTypes, t.toNat < m.types.length

end WasmJit
