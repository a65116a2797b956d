import WasmJit.Fixup
import WasmJit.Machine.Assembly
import WasmJit.Machine.Status
import WasmJit.OperandStack
import WasmJit.Text.Numeral

/-!
# Emitting code

An `Emitter` is a function whose code is being emitted: the operands, the instructions so far and
the pending jumps. Instructions are only ever appended; a jump refers to its pending jump by
number, and `Emitter.program` resolves these references when all of them are settled.

Every step of code generation is an `Emit` action. When one fails, what it has done so far stays
done.

* `Emitter.localGet`, `add`, `eq` follow the straight-line instructions; operands are moved into
  registers only when they are needed, and results stay in registers or flags.
* `Emitter.jumpIfZero`, `jump`, `label`, `patch` are the branches. Before a branch all operands are
  moved to their slots, so that both ways agree on where they are.
* `Emitter.carry` moves the results of a construct to where its end expects them.
* `Emitter.exit` leaves the code with a status.
-/

namespace WasmJit

/-- A jump that has been emitted. -/
structure EmittedJump where
  branch : Branch
  /-- Its position among the instructions. -/
  position : Nat
deriving DecidableEq, Repr

/-- A function whose code is being emitted. -/
structure Emitter where
  stack : OperandStack
  code : Array (Instr Nat)
  fixups : Array (Fixup EmittedJump Nat)
  /-- Where the instructions lay when the code was last assembled. -/
  extents : Array Extent
deriving DecidableEq, Repr

namespace Emitter

def empty : Emitter := ⟨.empty, #[], #[], #[]⟩

/-- Why a step failed. All of these are internal: no function of a module leads to them. -/
inductive Fault where
  /-- An operand, a pending jump, a register or one to take away does not exist. -/
  | missing
  /-- No register is free and none can be taken away. -/
  | noSpill (stack : OperandStack)
  /-- No register is free to move results through. -/
  | noCarryRegister
  /-- The flags are to be tested for an unknown condition. -/
  | unknownCondition (c : Condition)
  /-- A jump would be pointed at a second label; the text names it. -/
  | patchedTwice (complaint : String)
  /-- Some jumps have no label; the text lists them. -/
  | unpatched (complaints : String)
  /-- The code cannot be assembled. -/
  | assembly (cause : AssemblyError)
deriving DecidableEq, Repr

def Fault.message : Fault → String
  | .missing => "BUG: access out of range"
  | .noSpill s => "BUG: no register to spill in " ++ s.text
  | .noCarryRegister => "BUG: no free register to carry results"
  | .unknownCondition c => s!"BUG: unknown conditional register state {c.number}"
  | .patchedTwice complaint => complaint
  | .unpatched complaints => complaints
  | .assembly cause => cause.message

/-- A step of code generation. -/
abbrev Emit := EStateM Fault Emitter

/-! ### Access -/

def emit (i : Instr Nat) : Emit Unit :=
  modify fun e => { e with code := e.code.push i }

def modifyStack (f : OperandStack → OperandStack) : Emit Unit :=
  modify fun e => { e with stack := f e.stack }

/-- The value of an option that has to be there. -/
def require {α : Type} : Option α → Emit α
  | some a => pure a
  | none => throw .missing

/-- The operand at a position, live or not. -/
def operand (position : Nat) : Emit Operand := do
  require (← get).stack.entries[position]?

/-- The register that holds the operand at a position. -/
def registerOf (position : Nat) : Emit Register :=
  return (← operand position).placement.heldIn

/-- Pops an operand and returns its position. -/
def pop : Emit Nat := do
  let (position, stack) ← require (← get).stack.pop?
  modifyStack fun _ => stack
  return position

/-- The byte offset of a slot from the first one. -/
def slotOffset (slot : Nat) : Int :=
  8 * slot

def loadSlot (slot : Nat) (r : Register) : Emit Unit :=
  emit (.load .valueStack (slotOffset slot) r)

def storeSlot (r : Register) (slot : Nat) : Emit Unit :=
  emit (.store r .valueStack (slotOffset slot))

/-! ### Moving operands -/

/-- Moves the operand at a position from its register to its slot. -/
def spill (position : Nat) : Emit Unit := do
  let o ← operand position
  storeSlot o.placement.heldIn o.slot
  modifyStack (·.release position)

/-- Takes the register of the operand at a position away from it. -/
def steal (position : Nat) : Emit Register := do
  let r ← registerOf position
  spill position
  return r

/-- A register for an operand: a free one, or the one of the deepest operand that holds one. -/
def allocate : Emit Register := do
  let s := (← get).stack
  match s.freeRegister? with
  | some r => return r
  | none =>
    match s.victim? with
    | some position => steal position
    | none => throw (.noSpill s)

/-- Records that the operand at a position was moved into register `r`. -/
def settle (position : Nat) (r : Register) : Emit Unit :=
  modifyStack fun s => (s.place position r).markUsed r

/-- Moves the operand at a position from the flags under condition `c` into a register. Moving
another operand out of the way leaves the flags as they are. -/
def materialise (position : Nat) (c : Condition) : Emit Unit := do
  let s := (← get).stack
  let r ← match s.freeRegister? with
    | some r => pure r
    | none => do steal (← require s.victim?)
  -- the condition sets the low byte only, and the bytes above it are cleared with the mask
  emit (.setIf c r)
  emit (.andConst 1 r)
  settle position r

/-- Moves the operand at a position into a register, unless it is in one. -/
def ensure (position : Nat) : Emit Unit := do
  let o ← operand position
  match o.placement with
  | .register _ => pure ()
  | .flags c => materialise position c
  | .slot | .ofLocal _ =>
    let r ← allocate
    loadSlot o.sourceSlot r
    settle position r

/-- Moves the operand at a position out of registers and flags into its slot. -/
def flush (position : Nat) : Emit Unit := do
  let o ← operand position
  match o.placement with
  | .register _ => spill position
  | .flags c =>
    materialise position c
    spill position
  | _ => pure ()

/-- Moves all live operands out of registers and flags into their slots. -/
def flushAll : Emit Unit := do
  (List.range (← get).stack.height).forM flush

/-! ### Instructions -/

/-- What is emitted in front of the first instruction of a function with `numLocals` parameters and
locals, whose slots the caller has filled. -/
def preamble (numLocals : Nat) : Emit Unit := do
  modifyStack (·.pushSlots numLocals)
  emit (.load .callRecord 0 .valueStack)

/-- Moves the topmost operand out of the flags, so that they can be used again. -/
def freeFlags : Emit Unit := do
  match (← get).stack.top? with
  | none => pure ()
  | some position =>
    match (← operand position).placement with
    | .flags c => materialise position c
    | _ => pure ()

/-- Pushes a copy of a local. Locals never change, so it is read only when it is needed. -/
def localGet (index : Nat) : Emit Unit := do
  freeFlags
  modifyStack (·.push (.ofLocal index))

/-- Replaces the two topmost operands by their sum, in place of the lower one. -/
def add : Emit Unit := do
  let rhs ← pop
  ensure rhs
  -- the popped operand is not live, so its register is not taken away for the other one
  let lhs ← require (← get).stack.top?
  ensure lhs
  emit (.add (← registerOf rhs) (← registerOf lhs))
  modifyStack (·.release rhs)

/-- Replaces the two topmost operands by whether they are equal, which stays in the flags. -/
def eq : Emit Unit := do
  let rhs ← pop
  ensure rhs
  let lhs ← pop
  ensure lhs
  emit (.compare (← registerOf rhs) (← registerOf lhs))
  modifyStack fun s => ((s.release lhs).release rhs).push (.flags .equal)

/-! ### Branches -/

/-- Where the instruction at a position lay when the code was last assembled; at the start if it was
not there yet. -/
def offsetOf (e : Emitter) (position : Nat) : Nat :=
  ((e.extents[position]?).map (·.offset)).getD 0

/-- The listing of a jump: its offset, no line number, its operation, and the offset of its target.
It goes nowhere until it has one. -/
def listing (e : Emitter) (j : EmittedJump) (target : Option Nat) : String :=
  Numeral.padded 5 (e.offsetOf j.position) ++ " (<unknown line number>)\t" ++ j.branch.mnemonic.name
    ++ match target with
      | some t => s!"\t{e.offsetOf t}"
      | none => "\t0(PC)"

/-- Emits a pending jump and returns its number. -/
def addJump (kind : JumpKind) (b : Branch) : Emit Nat := do
  let number := (← get).fixups.size
  modify fun e => { e with fixups := e.fixups.push (.pending kind ⟨b, e.code.size⟩) }
  emit (.jump b number)
  return number

def jump : Emit Nat :=
  addJump .unconditional .always

/-- The jump that is taken when a condition of the flags does not hold. -/
def branchUnless (c : Condition) : Emit Branch :=
  if c = .equal then return .ifNotEqual
  else if c = .notEqual then return .ifEqual
  else throw (.unknownCondition c)

/-- Tests the popped operand at a position, which is not in the flags. -/
def testOperand (position : Nat) : Emit Branch := do
  ensure position
  -- the operand is not live any more, so it stays in its register
  flushAll
  emit (.compareConst (← registerOf position) 0)
  modifyStack (·.release position)
  return .ifEqual

/-- Pops a condition and emits the jump that is taken when it is zero; returns its number. -/
def jumpIfZero : Emit Nat := do
  let position ← pop
  let b ← match (← operand position).placement with
    | .flags c => do
      let b ← branchUnless c
      -- stores leave the flags as they are
      flushAll
      pure b
    | _ => testOperand position
  addJump .ifZero b

/-- Marks the current position and returns it. -/
def label : Emit Nat := do
  let position := (← get).code.size
  emit .label
  return position

/-- Points the pending jump with a number at a label. -/
def patch (number label : Nat) : Emit Unit := do
  let e ← get
  let f ← require e.fixups[number]?
  match f.patch? label with
  | none => throw (.patchedTwice (f.patchedTwice e.listing))
  | some f => modify fun e => { e with fixups := e.fixups.setIfInBounds number f }

/-! ### Leaving constructs -/

/-- Copies a slot to another one through a register. -/
def copySlot (src dst : Nat) (through : Register) : Emit Unit :=
  if src = dst then pure ()
  else do
    loadSlot src through
    storeSlot through dst

/-- Moves the topmost `arity` operands into the slots that `slot` gives, the lowest first. The
operand stack stays as it is. -/
def carryTo (slot : Nat → Nat) (arity : Int) : Emit Unit := do
  flushAll
  if arity = 0 then
    return
  -- nothing is in a register now, so any of them will do
  let s := (← get).stack
  let some r := s.freeRegister? | throw .noCarryRegister
  let count := arity.toNat
  if s.height < count then
    throw .missing
  (List.range count).forM fun i => do
    let o ← operand (s.height - count + i)
    copySlot o.sourceSlot (slot i) r

/-- Moves the topmost `arity` operands into the slots from `entry` on. No operand lies below its
destination, so copying upwards overwrites none that is still needed. -/
def carry (entry : Nat) (arity : Int) : Emit Unit :=
  carryTo (entry + ·) arity

/-- The same where slots are numbered with 64 bits: after the last number comes the first one. -/
def carryWord (entry : UInt64) (arity : Int) : Emit Unit :=
  carryTo (fun i => (entry + UInt64.ofNat i).toNat) arity

/-- Leaves the code with a status. -/
def exit (s : Status) : Emit Unit := do
  emit (.storeByte s.code.toNat .callRecord 8)
  emit .ret

/-! ### The finished code -/

/-- **The program**, once every pending jump has a label. -/
def program (e : Emitter) : Except Fault Program :=
  match Fixup.unpatched? e.listing e.fixups.toList with
  | some complaints => .error (.unpatched complaints)
  | none => .ok (e.code.map (·.mapTarget fun number => (e.fixups[number]?).bind (·.target)))

/-- **Assembles the program**; returns it in instructions and in machine code. -/
def finishWith (assembler : Assembler) : Emit (Program × List UInt8) := do
  let e ← get
  match e.program with
  | .error f => throw f
  | .ok p =>
    if p.isEmpty then
      throw (.assembly .noInstructions)
    let a := assembler e.extents p
    set { e with extents := a.extents }
    if a.code.isEmpty then
      throw (.assembly .noCode)
    return (p, a.code)

/-- The same with the assembler of this library. -/
def finish : Emit (Program × List UInt8) :=
  finishWith Program.assembleAfter

/-- Carries out a step on its own. It fails if it has emitted a register that does not exist. -/
def attempt {α : Type} (action : Emit α) : Emit α := fun e =>
  let result := action e
  let after := match result with
    | .ok _ e => e
    | .error _ e => e
  -- what was emitted stays emitted, so the check comes after the step
  if after.code.all (·.isNamed) then result else .error .missing after

end Emitter

end WasmJit
