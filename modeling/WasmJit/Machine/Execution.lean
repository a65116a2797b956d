import WasmJit.Machine.Instr

/-!
# Running programs

The machine has registers, a zero flag, the slots of the value stack and the status byte of the
call record. Addresses are kept apart from numbers (`Value`): a register holds a 64-bit number, or
points to the call record or to the first slot. An access outside of these, or arithmetic on an
address, has no successor state.

* `Machine.step` executes one instruction.
* `Program.run` executes a program from its first instruction until it returns.
-/

namespace WasmJit

/-- What a register holds. -/
inductive Value where
  | word (w : UInt64)
  /-- The address of the call record. -/
  | callRecord
  /-- The address of the first slot. -/
  | valueStack
deriving DecidableEq, Repr

/-- The state of the machine. -/
structure Machine where
  registers : Vector Value 256
  /-- Whether the last arithmetic result was zero. -/
  zero : Bool
  slots : Array UInt64
  status : UInt8
deriving DecidableEq, Repr

namespace Machine

def get (m : Machine) (r : Register) : Value :=
  m.registers.get r.number.toFin

def set (m : Machine) (r : Register) (v : Value) : Machine :=
  { m with registers := m.registers.set r.number.toNat v r.number.toNat_lt }

def word? (m : Machine) (r : Register) : Option UInt64 :=
  match m.get r with
  | .word w => some w
  | _ => none

/-- The slot at `offset` bytes from the first one. -/
def slotAt? (m : Machine) (offset : Int) : Option Nat :=
  if 0 ≤ offset ∧ offset % 8 = 0 ∧ (offset / 8).toNat < m.slots.size then
    some (offset / 8).toNat
  else none

/-- The machine at the start of a call on the given slots. -/
def start (slots : Array UInt64) : Machine :=
  { registers := Vector.replicate 256 (.word 0), zero := false, slots, status := 0 : Machine }.set
    .callRecord .callRecord

/-- A constant as an operand of 64 bits, by extension of the sign of its four bytes. -/
def constant (v : Int) : UInt64 :=
  UInt64.ofInt (v.bmod 4294967296)

/-- Whether a jump is taken. -/
def taken (m : Machine) : Branch → Bool
  | .always => true
  | .ifEqual => m.zero
  | .ifNotEqual => !m.zero

/-- Whether a condition holds, if it is a known one. -/
def holds? (m : Machine) (c : Condition) : Option Bool :=
  if c = .equal then some m.zero else if c = .notEqual then some !m.zero else none

/-- Where execution goes on. -/
inductive Flow where
  | next
  | goto (position : Nat)
  | halt
deriving DecidableEq, Repr

/-- Where in the call record the address of the first slot stands. -/
def slotsOffset : Int := 0

/-- Where in the call record the status byte stands. -/
def statusOffset : Int := 8

def load (m : Machine) (base : Register) (offset : Int) (dst : Register) : Option Machine :=
  match m.get base with
  | .callRecord => if offset = slotsOffset then some (m.set dst .valueStack) else none
  | .valueStack => do
    let i ← m.slotAt? offset
    let w ← m.slots[i]?
    return m.set dst (.word w)
  | .word _ => none

def store (m : Machine) (src base : Register) (offset : Int) : Option Machine :=
  match m.get base with
  | .valueStack => do
    let w ← m.word? src
    let i ← m.slotAt? offset
    return { m with slots := m.slots.setIfInBounds i w }
  | _ => none

def storeByte (m : Machine) (value : Int) (base : Register) (offset : Int) : Option Machine :=
  if m.get base = .callRecord ∧ offset = statusOffset then
    some { m with status := UInt8.ofInt value }
  else none

/-- Sets a register to the result of an operation, and the flag with it. -/
def setResult (m : Machine) (dst : Register) (w : UInt64) : Machine :=
  { m.set dst (.word w) with zero := w = 0 }

/-- **Executes one instruction.** -/
def step (m : Machine) : Instr (Option Nat) → Option (Machine × Flow)
  | .load base offset dst => (m.load base offset dst).map (·, .next)
  | .store src base offset => (m.store src base offset).map (·, .next)
  | .storeByte value base offset => (m.storeByte value base offset).map (·, .next)
  | .add src dst => do
    let a ← m.word? src
    let b ← m.word? dst
    return (m.setResult dst (b + a), .next)
  | .compare src dst => do
    let a ← m.word? src
    let b ← m.word? dst
    return ({ m with zero := a = b }, .next)
  | .compareConst src value => do
    let a ← m.word? src
    return ({ m with zero := a = constant value }, .next)
  | .andConst value dst => do
    let b ← m.word? dst
    return (m.setResult dst (b &&& constant value), .next)
  | .setIf condition dst =>
    match m.holds? condition with
    -- without a known condition there is no machine code
    | none => some (m, .next)
    | some holds => do
      -- only the low byte of the register changes
      let b ← m.word? dst
      let bit : UInt64 := if holds then 1 else 0
      return (m.set dst (.word ((b &&& 0xffffffffffffff00) ||| bit)), .next)
  | .jump branch target =>
    if m.taken branch then target.map fun t => (m, .goto t) else some (m, .next)
  | .label => some (m, .next)
  | .ret => some (m, .halt)

end Machine

/-- Executes the program from position `pc` on, for at most `fuel` instructions. -/
def Program.exec (p : Program) : (fuel pc : Nat) → Machine → Option Machine
  | 0, _, _ => none
  | fuel + 1, pc, m =>
    match p[pc]? with
    | none => none
    | some i =>
      match m.step i with
      | none => none
      | some (m, .next) => p.exec fuel (pc + 1) m
      | some (m, .goto t) => p.exec fuel t m
      | some (m, .halt) => some m

/-- **Executes a program whose jumps go forward**: each instruction is executed at most once. -/
def Program.run (p : Program) (m : Machine) : Option Machine :=
  p.exec p.size 0 m

end WasmJit
