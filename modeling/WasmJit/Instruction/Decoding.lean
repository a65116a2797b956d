import WasmJit.ErrorKind
import WasmJit.Instruction
import WasmJit.ValueType
import WasmJit.Varint

/-!
# Decoding function bodies

`Instruction.decode` reads one instruction from the head of the bytes that remain of a body; the
position `pc` of those bytes is used in messages only. `disassemble` decodes a whole body from left
to right and stops at the first instruction that cannot be decoded, so a body is turned into a list
of located instructions, followed by a fault if it does not decode to its end.
-/

namespace WasmJit

/-! ### Block types -/

inductive BlockType.Error where
  /-- The number that encodes it cannot be read. -/
  | unreadable (cause : Varint.Error)
  /-- A known value type that is not compiled, by the first byte of its encoding. -/
  | valueType (type : ValueType)
  /-- A reference to a signature. -/
  | typeIndex (index : Int)
  /-- A negative number without a meaning. -/
  | invalid (code : Int)
deriving DecidableEq, Repr

def BlockType.Error.kind : BlockType.Error → ErrorKind
  | .unreadable _ | .invalid _ => .malformedInput
  | .valueType _ | .typeIndex _ => .unsupportedFeature

def BlockType.Error.message (e : BlockType.Error) : String :=
  e.kind.describe <|
    match e with
    | .unreadable cause => cause.message
    | .valueType t => "block type " ++ t.name
    | .typeIndex i => s!"block type index {i}"
    | .invalid c => s!"invalid block type {c}"

/-- Reads a block type: a signed 33-bit number that is `-64` for none and `-1` for `i32`. -/
def BlockType.read (bytes : List UInt8) : Except BlockType.Error (BlockType × List UInt8) :=
  match Varint.readI33 bytes with
  | .error e => .error (.unreadable e)
  | .ok (code, rest) =>
    if code = -64 then .ok (.empty, rest)
    else if code = -1 then .ok (.i32, rest)
    -- the first byte names the type, unless the number is padded
    else if code = -2 ∨ code = -3 ∨ code = -4 then .error (.valueType ⟨bytes.headD 0⟩)
    else if 0 ≤ code then .error (.typeIndex code)
    else .error (.invalid code)

/-! ### Instructions -/

namespace Instruction

/-- Why no instruction could be decoded at position `pc`. -/
inductive DecodeError where
  /-- There are no bytes left. -/
  | endOfBody (pc : Nat)
  /-- The index or depth cannot be read. -/
  | immediate (kind : Kind) (pc : Nat) (cause : Varint.Error)
  /-- The block type is refused. -/
  | blockType (kind : Kind) (pc : Nat) (cause : BlockType.Error)
  /-- The opcode is not one of the ten. -/
  | opcode (op : UInt8) (pc : Nat)
deriving DecidableEq, Repr

def DecodeError.kind : DecodeError → ErrorKind
  | .endOfBody _ | .immediate .. => .malformedInput
  | .blockType _ _ cause => cause.kind
  | .opcode .. => .unsupportedOpcode

def DecodeError.message : DecodeError → String
  | .endOfBody pc =>
    ErrorKind.malformedInput.describe ("unexpected end of function body at " ++ Numeral.hex pc)
  | .immediate k pc cause =>
    ErrorKind.malformedInput.describe
      ("read immediate of " ++ k.name ++ " at " ++ Numeral.hex pc ++ ": " ++ cause.message)
  | .blockType k pc cause =>
    "read block type of " ++ k.name ++ " at " ++ Numeral.hex pc ++ ": " ++ cause.message
  | .opcode op pc =>
    ErrorKind.unsupportedOpcode.describe (Kind.nameOfOpcode op ++ " at " ++ Numeral.hex pc)

/-- The position at which decoding failed. -/
def DecodeError.pc : DecodeError → Nat
  | .endOfBody pc | .immediate _ pc _ | .blockType _ pc _ | .opcode _ pc => pc

/-- Reads the index or depth that follows an opcode. -/
def readIndex (k : Kind) (pc : Nat) (bytes : List UInt8) :
    Except DecodeError (UInt32 × List UInt8) :=
  match Varint.loadU32 bytes with
  | .error e => .error (.immediate k pc e)
  | .ok (i, n) => .ok (i, bytes.drop n)

/-- Reads the block type that follows an opcode. -/
def readBlockType (k : Kind) (pc : Nat) (bytes : List UInt8) :
    Except DecodeError (BlockType × List UInt8) :=
  (BlockType.read bytes).mapError (.blockType k pc)

/-- Reads what follows the opcode of an instruction of kind `k` at position `pc`. -/
def readImmediate (k : Kind) (pc : Nat) (bytes : List UInt8) :
    Except DecodeError (Instruction × List UInt8) :=
  match k with
  | .unreachable => .ok (unreachable, bytes)
  | .else_ => .ok (else_, bytes)
  | .end_ => .ok (end_, bytes)
  | .add => .ok (add, bytes)
  | .eq => .ok (eq, bytes)
  | .block => (readBlockType k pc bytes).map fun (t, rest) => (block t, rest)
  | .if_ => (readBlockType k pc bytes).map fun (t, rest) => (if_ t, rest)
  | .localGet => (readIndex k pc bytes).map fun (i, rest) => (localGet i, rest)
  | .br => (readIndex k pc bytes).map fun (i, rest) => (br i, rest)
  | .brIf => (readIndex k pc bytes).map fun (i, rest) => (brIf i, rest)

/-- **Decodes one instruction** at the head of `bytes`, which stand at position `pc`, and returns it
with the bytes after it. -/
def decode (pc : Nat) : List UInt8 → Except DecodeError (Instruction × List UInt8)
  | [] => .error (.endOfBody pc)
  | op :: rest =>
    match Kind.ofOpcode? op with
    | none => .error (.opcode op pc)
    | some k => readImmediate k pc rest

/-- Decodes the instruction at position `pc` of a whole body. -/
def decodeAt (body : List UInt8) (pc : Nat) : Except DecodeError (Instruction × List UInt8) :=
  decode pc (body.drop pc)

end Instruction

/-! ### Bodies -/

/-- An instruction of a body with the bytes it occupies. -/
structure Located where
  pc : Nat
  instruction : Instruction
  size : Nat
deriving DecidableEq, Repr

/-- A body decoded from left to right. -/
structure Disassembly where
  /-- The instructions up to the end of the body or to the first fault. -/
  instructions : List Located
  /-- What stopped the decoding before the end of the body. -/
  fault : Option Instruction.DecodeError
deriving DecidableEq, Repr

/-- Decodes at most `fuel` instructions from `bytes`, which stand at position `pc`. -/
def Disassembly.scan : (fuel pc : Nat) → List UInt8 → Disassembly
  | _, _, [] => ⟨[], none⟩
  | 0, _, _ => ⟨[], none⟩
  | fuel + 1, pc, bytes =>
    match Instruction.decode pc bytes with
    | .error e => ⟨[], some e⟩
    | .ok (i, rest) =>
      let size := bytes.length - rest.length
      let tail := scan fuel (pc + size) rest
      ⟨⟨pc, i, size⟩ :: tail.instructions, tail.fault⟩

/-- **Decodes a whole body.** An instruction spans at least one byte, so there are never more
instructions than bytes. -/
def disassemble (body : List UInt8) : Disassembly :=
  Disassembly.scan body.length 0 body

end WasmJit
