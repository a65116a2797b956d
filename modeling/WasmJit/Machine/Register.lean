/-!
# Registers and conditions

The registers of the machine, numbered from one in the order of their encoding; number zero stands
for no register. Ten of them are handed out to operands (`Register.pool`). Two are reserved: one
holds the call record for the whole call, the other the first slot of the value stack.
-/

namespace WasmJit

/-- A register, by its number. -/
structure Register where
  number : UInt8
deriving DecidableEq, Repr

namespace Register

/-- No register. -/
def nil : Register := ⟨0⟩

def ax : Register := ⟨1⟩
def cx : Register := ⟨2⟩
def dx : Register := ⟨3⟩
def bx : Register := ⟨4⟩
def sp : Register := ⟨5⟩
def si : Register := ⟨7⟩
def di : Register := ⟨8⟩
def r8 : Register := ⟨9⟩
def r9 : Register := ⟨10⟩
def r10 : Register := ⟨11⟩
def r11 : Register := ⟨12⟩
def r12 : Register := ⟨13⟩
def r13 : Register := ⟨14⟩

/-- The names of the registers, by their numbers from zero on. -/
def names : List String :=
  ["nil", "AX", "CX", "DX", "BX", "SP", "BP", "SI", "DI", "R8", "R9", "R10", "R11", "R12", "R13",
    "R14", "R15"]

/-- The name of a register; a number that is no register has the name of none. -/
def name (r : Register) : String :=
  names.getD r.number.toNat "nil"

/-- Whether the number stands for a register or for none. -/
def isNamed (r : Register) : Bool :=
  r.number.toNat < names.length

/-- The registers handed out to operands, in the order in which they are tried. -/
def pool : List Register :=
  [ax, cx, dx, bx, si, di, r8, r9, r10, r11]

/-- Whether the register is handed out to operands. -/
def isAllocatable (r : Register) : Bool :=
  pool.contains r

/-- Holds the address of the call record during a call. -/
def callRecord : Register := r13

/-- Holds the address of the first slot of the value stack during a call. -/
def valueStack : Register := r12

end Register

/-- A condition of the flags, by its number; number zero stands for no condition. -/
structure Condition where
  number : UInt8
deriving DecidableEq, Repr

namespace Condition

/-- No condition. -/
def unset : Condition := ⟨0⟩

/-- The last comparison found its operands equal. -/
def equal : Condition := ⟨1⟩

/-- The last comparison found its operands different. -/
def notEqual : Condition := ⟨2⟩

end Condition

end WasmJit
