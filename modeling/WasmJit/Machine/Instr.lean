import WasmJit.Machine.Register

/-!
# Machine instructions

`Instr τ` is an instruction of the machine in one of the few operand shapes that are emitted. A jump
carries a target of type `τ`: while code is emitted this is the number of a pending jump, in a
finished program the position of the instruction jumped to, if there is one (`Program`).
-/

namespace WasmJit

/-- When a jump is taken. -/
inductive Branch where
  | always
  | ifEqual
  | ifNotEqual
deriving DecidableEq, Repr

/-- An instruction with jump targets of type `τ`. -/
inductive Instr (τ : Type) where
  /-- Loads the eight bytes at `base + offset` into `dst`. -/
  | load (base : Register) (offset : Int) (dst : Register)
  /-- Stores `src` in the eight bytes at `base + offset`. -/
  | store (src base : Register) (offset : Int)
  /-- Stores a constant in the byte at `base + offset`. -/
  | storeByte (value : Int) (base : Register) (offset : Int)
  /-- Adds `src` to `dst`. -/
  | add (src dst : Register)
  /-- Compares `src` with `dst`. -/
  | compare (src dst : Register)
  /-- Compares `src` with a constant. -/
  | compareConst (src : Register) (value : Int)
  /-- Clears the bits of `dst` that are not set in a constant. -/
  | andConst (value : Int) (dst : Register)
  /-- Sets the low byte of `dst` to one if the condition holds and to zero otherwise; does nothing
  for an unknown condition. -/
  | setIf (condition : Condition) (dst : Register)
  /-- Jumps. -/
  | jump (branch : Branch) (target : τ)
  /-- Marks a position; it takes no space. -/
  | label
  /-- Returns to the caller. -/
  | ret
deriving DecidableEq, Repr

/-- The same instruction with another target. -/
def Instr.mapTarget {τ σ : Type} (f : τ → σ) : Instr τ → Instr σ
  | load base offset dst => .load base offset dst
  | store src base offset => .store src base offset
  | storeByte value base offset => .storeByte value base offset
  | add src dst => .add src dst
  | compare src dst => .compare src dst
  | compareConst src value => .compareConst src value
  | andConst value dst => .andConst value dst
  | setIf condition dst => .setIf condition dst
  | jump branch target => .jump branch (f target)
  | label => .label
  | ret => .ret

/-- The registers an instruction operates on, other than as an address. -/
def Instr.operands {τ : Type} : Instr τ → List Register
  | load _ _ dst => [dst]
  | store src _ _ => [src]
  | add src dst | compare src dst => [src, dst]
  | compareConst src _ => [src]
  | andConst _ dst | setIf _ dst => [dst]
  | storeByte .. | jump .. | label | ret => []

/-- The register an instruction takes an address from. -/
def Instr.base? {τ : Type} : Instr τ → Option Register
  | load base _ _ | store _ base _ | storeByte _ base _ => some base
  | _ => none

/-- Whether every register the instruction mentions has a name. -/
def Instr.isNamed {τ : Type} (i : Instr τ) : Bool :=
  i.operands.all Register.isNamed && i.base?.all Register.isNamed

/-- The same instruction with another offset. -/
def Instr.mapOffset {τ : Type} (f : Int → Int) : Instr τ → Instr τ
  | load base offset dst => .load base (f offset) dst
  | store src base offset => .store src base (f offset)
  | storeByte value base offset => .storeByte value base (f offset)
  | i => i

/-- An offset as the machine reads it: of 32 bits, with a sign. -/
def narrow (offset : Int) : Int :=
  offset.bmod 4294967296

/-- A program: jumps go to positions in the list. -/
abbrev Program := Array (Instr (Option Nat))

/-- The program with offsets as the machine reads them. -/
def Program.narrow (p : Program) : Program :=
  p.map (·.mapOffset WasmJit.narrow)

/-! ### Names -/

/-- The names of the operations of the machine. -/
inductive Mnemonic where
  | none | addq | andq | cmpq | jeq | jne | jmp | movb | movq | nop | ret | seteq | setne
deriving DecidableEq, Repr

namespace Mnemonic

/-- All operations, in the order in which they are numbered from zero. -/
def all : List Mnemonic :=
  [.none, .addq, .andq, .cmpq, .jeq, .jne, .jmp, .movb, .movq, .nop, .ret, .seteq, .setne]

/-- The written form. -/
def name : Mnemonic → String
  | .none => "NONE"
  | .addq => "ADDQ"
  | .andq => "ANDQ"
  | .cmpq => "CMPQ"
  | .jeq => "JEQ"
  | .jne => "JNE"
  | .jmp => "JMP"
  | .movb => "MOVB"
  | .movq => "MOVQ"
  | .nop => "NOP"
  | .ret => "RET"
  | .seteq => "SETEQ"
  | .setne => "SETNE"

/-- The name of the operation numbered `code`. -/
def nameOfCode (code : Nat) : String :=
  match all[code]? with
  | some m => m.name
  | Option.none => s!"UNKNOWN({code})"

end Mnemonic

/-- The operation of a jump. -/
def Branch.mnemonic : Branch → Mnemonic
  | .always => .jmp
  | .ifEqual => .jeq
  | .ifNotEqual => .jne

end WasmJit
