import WasmJit.Text.Numeral

/-!
# Instructions

The ten instructions that are compiled, their kinds, opcodes and texts. Constructs may leave no
value or one `i32`, which is what a `BlockType` says.
-/

namespace WasmJit

/-- What a construct leaves behind when it is left: nothing, or one value. -/
inductive BlockType where
  | empty
  | i32
deriving DecidableEq, Repr

/-- The number of values a construct of this type leaves behind. -/
def BlockType.arity : BlockType → Nat
  | .empty => 0
  | .i32 => 1

/-- An instruction with its immediate. -/
inductive Instruction where
  /-- Pushes the value of a local. -/
  | localGet (index : UInt32)
  /-- Pops two values and pushes their sum. -/
  | add
  /-- Pops two values and pushes one if they are equal and zero otherwise. -/
  | eq
  /-- Opens a construct. -/
  | block (type : BlockType)
  /-- Pops a condition and opens a construct, skipped on zero up to its `else_` or `end_`. -/
  | if_ (type : BlockType)
  /-- Separates the two arms of an `if_`. -/
  | else_
  /-- Closes the innermost construct, or the function body. -/
  | end_
  /-- Leaves the construct `depth` levels out. -/
  | br (depth : UInt32)
  /-- Pops a condition and leaves the construct `depth` levels out unless it is zero. -/
  | brIf (depth : UInt32)
  /-- Traps. -/
  | unreachable
deriving DecidableEq, Repr

namespace Instruction

/-- An instruction without its immediate. -/
inductive Kind where
  | localGet | add | eq | block | if_ | else_ | end_ | br | brIf | unreachable
deriving DecidableEq, Repr

namespace Kind

/-- The name in the text format. -/
def name : Kind → String
  | .localGet => "local.get"
  | .add => "i32.add"
  | .eq => "i32.eq"
  | .block => "block"
  | .if_ => "if"
  | .else_ => "else"
  | .end_ => "end"
  | .br => "br"
  | .brIf => "br_if"
  | .unreachable => "unreachable"

/-- All kinds, in the order in which they are numbered from zero. -/
def all : List Kind :=
  [.localGet, .add, .eq, .block, .if_, .else_, .end_, .br, .brIf, .unreachable]

/-- The name of the kind numbered `code`. -/
def nameOfCode (code : Nat) : String :=
  match all[code]? with
  | some k => k.name
  | none => s!"unknown({code})"

/-- The byte that starts an instruction of this kind. -/
def opcode : Kind → UInt8
  | .unreachable => 0x00
  | .block => 0x02
  | .if_ => 0x04
  | .else_ => 0x05
  | .end_ => 0x0b
  | .br => 0x0c
  | .brIf => 0x0d
  | .localGet => 0x20
  | .eq => 0x46
  | .add => 0x6a

/-- The kind whose opcode is `op`. -/
def ofOpcode? (op : UInt8) : Option Kind :=
  all.find? (·.opcode = op)

/-- The name of the instruction with opcode `op`, or the byte itself. -/
def nameOfOpcode (op : UInt8) : String :=
  match ofOpcode? op with
  | some k => k.name
  | none => "0x" ++ Numeral.hexPadded 2 op.toNat

end Kind

/-- The instruction without its immediate. -/
def kind : Instruction → Kind
  | localGet _ => .localGet
  | add => .add
  | eq => .eq
  | block _ => .block
  | if_ _ => .if_
  | else_ => .else_
  | end_ => .end_
  | br _ => .br
  | brIf _ => .brIf
  | unreachable => .unreachable

/-- The local index or relative depth, zero where there is none. -/
def index : Instruction → UInt32
  | localGet i | br i | brIf i => i
  | _ => 0

/-- The number of results a construct declares, zero where none is opened. -/
def arity : Instruction → Nat
  | block t | if_ t => t.arity
  | _ => 0

/-- The instruction in the text format. -/
def text : Instruction → String
  | localGet i => s!"local.get {i}"
  | br d => s!"br {d}"
  | brIf d => s!"br_if {d}"
  | block .i32 => "block (result i32)"
  | if_ .i32 => "if (result i32)"
  | i => i.kind.name

end Instruction

end WasmJit
