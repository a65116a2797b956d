import WasmJit.Machine.Instr

/-!
# Machine code of single instructions

Every instruction is an optional byte that extends the register fields, an operation of one or two
bytes, and its operands. Numbers are written in two's complement, lowest byte first. A jump is
short, with a displacement of one byte, or long, with one of four.

Some instructions have no machine code and take no space: labels, those that operate on no register
or on a constant that is too wide, and those that set a register to an unknown condition. These, and
those whose offset is too wide, are faults (`Instr.isFaulty`) unless they are labels.
-/

namespace WasmJit

namespace Register

/-- The number of the register in machine code. -/
def encoding (r : Register) : UInt8 :=
  r.number - 1

/-- The three bits that stand in the operand byte. -/
def low (r : Register) : UInt8 :=
  r.encoding &&& 7

/-- The bit that stands in the extension byte; no register has none. -/
def high (r : Register) : UInt8 :=
  if r = .nil then 0 else (r.encoding >>> 3) &&& 1

end Register

namespace Encoding

/-- The lowest `count` bytes of `v`. -/
def littleEndian : (count : Nat) → (v : Int) → List UInt8
  | 0, _ => []
  | count + 1, v => UInt8.ofNat (v % 256).toNat :: littleEndian count (v / 256)

/-- The extension byte: operand width, and the fourth bits of the two register fields. -/
def extension (wide reg rm : UInt8) : UInt8 :=
  (0x40 : UInt8) ||| (wide <<< 3) ||| (reg <<< 2) ||| rm

/-- The extension byte of a 64-bit operation. -/
def extension64 (reg rm : Register) : UInt8 :=
  extension 1 reg.high rm.high

/-- An operand byte that names two registers. -/
def registers (reg rm : UInt8) : UInt8 :=
  (0xc0 : UInt8) ||| (reg <<< 3) ||| rm

/-- Whether `v` fits in a signed byte. -/
def fitsByte (v : Int) : Bool :=
  -128 ≤ v && v ≤ 127

/-- Whether `v` fits in four bytes, with or without a sign. -/
def fitsLong (v : Int) : Bool :=
  -2147483648 ≤ v && v < 4294967296

/-- Whether an offset of 64 bits is the same with 32 bits. -/
def fitsOffset (offset : Int) : Bool :=
  offset.bmod 18446744073709551616 = narrow offset

/-- The operand `offset(base)` next to the register field `reg`, for an offset of 32 bits. The
displacement is left out, or takes one or four bytes; base `4` needs a second operand byte, and base
`5` a displacement. Without a base the offset is the address. -/
def memory (reg : UInt8) (base : Register) (offset : Int) : List UInt8 :=
  let b := base.low
  let index : List UInt8 := if b = 4 then [0x24] else []
  let field := (reg <<< 3) ||| b
  if base = .nil then ((reg <<< 3) ||| 4) :: 0x25 :: littleEndian 4 offset
  else if offset = 0 ∧ b ≠ 5 then field :: index
  else if fitsByte offset then (0x40 ||| field) :: (index ++ littleEndian 1 offset)
  else (0x80 ||| field) :: (index ++ littleEndian 4 offset)

/-- A 64-bit operation on a register and a constant. `field` selects the operation; it has a form
`short` of its own for the first register and constants of four bytes. -/
def immediate (field short : UInt8) (r : Register) (v : Int) : List UInt8 :=
  if fitsByte v then
    [extension 1 0 r.high, 0x83, registers field r.low] ++ littleEndian 1 v
  else if !fitsLong v then []
  else if r = .ax then [extension 1 0 0, short] ++ littleEndian 4 v
  else [extension 1 0 r.high, 0x81, registers field r.low] ++ littleEndian 4 v

/-- The operation byte of a register that is set to a condition: nothing for an unknown one. -/
def setOperation (c : Condition) : Option UInt8 :=
  if c = .equal then some 0x94 else if c = .notEqual then some 0x95 else none

end Encoding

namespace Branch

/-- The operation bytes of a jump. -/
def operation (short : Bool) : Branch → List UInt8
  | .always => if short then [0xeb] else [0xe9]
  | .ifEqual => if short then [0x74] else [0x0f, 0x84]
  | .ifNotEqual => if short then [0x75] else [0x0f, 0x85]

/-- The size of a jump. -/
def size (b : Branch) (short : Bool) : Nat :=
  (b.operation short).length + if short then 1 else 4

end Branch

open Encoding in
/-- The machine code of an instruction whose operands are registers and whose offset has 32 bits. -/
def Instr.encodeOperands {τ : Type} (short : Bool) (displacement : Int) : Instr τ → List UInt8
  | load base offset dst => extension64 dst base :: 0x8b :: memory dst.low base offset
  | store src base offset => extension64 src base :: 0x89 :: memory src.low base offset
  | storeByte value base offset =>
    if fitsLong value then
      (if base.high = 0 then [] else [0x41])
        ++ 0xc6 :: (memory 0 base offset ++ littleEndian 1 value)
    else []
  | add src dst => [extension64 src dst, 0x01, registers src.low dst.low]
  | compare src dst => [extension64 dst src, 0x39, registers dst.low src.low]
  | compareConst src value => immediate 7 0x3d src value
  | andConst value dst => immediate 4 0x25 dst value
  | setIf condition dst =>
    match setOperation condition with
    | none => []
    | some op =>
      (if dst.encoding < 4 then [] else [extension 0 0 dst.high]) ++ [0x0f, op, 0xc0 ||| dst.low]
  | jump branch _ => branch.operation short ++ littleEndian (if short then 1 else 4) displacement
  | label => []
  | ret => [0xc3]

open Encoding in
/-- Whether something the instruction mentions cannot be written down: a register that is none, a
constant or an offset that does not fit, or an unknown condition. Offsets have 64 bits, of which the
machine code takes over the lower half. -/
def Instr.isFaulty {τ : Type} (i : Instr τ) : Bool :=
  i.operands.contains .nil ||
    match i with
    | load _ offset _ | store _ _ offset => !fitsOffset offset
    | storeByte value _ offset => !fitsLong value || !fitsOffset offset
    | compareConst _ value | andConst value _ => !fitsLong value
    | setIf condition _ => (setOperation condition).isNone
    | _ => false

/-- **The machine code of an instruction.** A jump is `short` or long and goes `displacement` bytes
beyond its end. -/
def Instr.encode {τ : Type} (short : Bool) (displacement : Int) (i : Instr τ) : List UInt8 :=
  if i.operands.contains .nil then []
  else (i.mapOffset narrow).encodeOperands short displacement

end WasmJit
