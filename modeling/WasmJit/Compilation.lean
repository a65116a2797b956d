import WasmJit.Emitter
import WasmJit.Frame
import WasmJit.Instruction.Decoding
import WasmJit.Log
import WasmJit.Module

/-!
# Compiling functions

A function is compiled in one pass over its decoded body. A `Compilation` follows the open
constructs while its emitter follows the operands and emits code. After a branch or a trap nothing
is emitted up to the `else` or `end` of the construct it stands in: such dead code is only
decoded, and the constructs opened in it are only counted.

* `Compilation.step` compiles one instruction.
* `Function.compileWith` compiles a function with any assembler, `Function.compile` with the one of
  this library.
* `Function.compileLog` is what a compilation reports, instruction by instruction.
-/

namespace WasmJit

/-- A function whose body is being compiled. -/
structure Compilation where
  /-- The number of parameters and locals. -/
  numLocals : Nat
  emitter : Emitter
  /-- The open constructs, innermost first. -/
  frames : List Frame
  /-- In dead code, the number of constructs opened since it began. -/
  dead : Option Nat
deriving DecidableEq, Repr

namespace Compilation

inductive StepError where
  /-- There is no such local. -/
  | localIndex (index : UInt32) (numLocals : Nat)
  /-- There are fewer operands in the innermost construct than required. -/
  | operands (required : Int) (available : Nat)
  /-- There is no such construct to leave. -/
  | branch (cause : Frame.BranchError)
  /-- An `else` that belongs to no `if`. -/
  | elseInside (kind : FrameKind)
  /-- An `if` with results needs an `else`. -/
  | elseMissing
  /-- A construct ends with the wrong number of values. -/
  | exit (cause : Frame.ExitError)
  /-- Code generation failed. -/
  | internal (cause : Emitter.Fault)
deriving DecidableEq, Repr

def StepError.kind? : StepError → Option ErrorKind
  | .localIndex .. | .branch _ | .elseInside _ | .elseMissing => some .malformedInput
  | .operands .. => some .stackUnderflow
  | .exit cause => some cause.errorKind
  | .internal _ => none

def StepError.message : StepError → String
  | .localIndex i n =>
    ErrorKind.malformedInput.describe s!"local index {i} out of range of {n} locals"
  | .operands required available =>
    ErrorKind.stackUnderflow.describe s!"requires {required} operands but {available} available"
  | .branch cause => cause.message
  | .elseInside kind => ErrorKind.malformedInput.describe ("else inside " ++ kind.name)
  | .elseMissing => ErrorKind.malformedInput.describe "if without else must not have results"
  | .exit cause => cause.message
  | .internal cause => cause.message

/-- A step of the compilation of a body. -/
abbrev Step := EStateM StepError Compilation

/-! ### Access -/

def emitting {α : Type} (action : Emitter.Emit α) : Step α :=
  fun ⟨numLocals, emitter, frames, dead⟩ =>
    match action emitter with
    | .ok a emitter => .ok a ⟨numLocals, emitter, frames, dead⟩
    | .error e emitter => .error (.internal e) ⟨numLocals, emitter, frames, dead⟩

def modifyFrames (f : List Frame → List Frame) : Step Unit :=
  modify fun t => { t with frames := f t.frames }

def height : Step Nat :=
  return (← get).emitter.stack.height

def top : Step Frame := do
  match (← get).frames with
  | f :: _ => return f
  | [] => throw (.internal .missing)

/-- Opens a construct at the current height. -/
def openFrame (kind : FrameKind) (type : BlockType) (otherwise : Option Nat) : Step Unit := do
  let h ← height
  modifyFrames ({ Frame.opened kind type.arity h with otherwise } :: ·)

def enterDead : Step Unit :=
  modify fun t => { t with dead := some 0 }

def leaveDead : Step Unit :=
  modify fun t => { t with dead := none }

/-! ### Checks -/

/-- Requires `n` operands in the innermost construct. -/
def requireOperands (n : Int) : Step Unit := do
  let available := (← top).above (← height)
  if available < asWord n then
    throw (.operands n available)

/-- The construct that a branch leaves. -/
def branchTarget (depth : UInt32) : Step Frame := do
  match Frame.target (← get).frames depth.toNat with
  | .ok f => return f
  | .error e => throw (.branch e)

/-- Requires that an `else` may stand in the construct. -/
def requireThen (f : Frame) : Step Unit :=
  if f.kind = .ifThen then pure () else throw (.elseInside f.kind)

/-- Requires that exactly its results are left in the construct. -/
def requireExit (f : Frame) : Step Unit := do
  match f.checkExit (← height) with
  | .ok () => pure ()
  | .error e => throw (.exit e)

/-! ### Constructs -/

/-- Jumps to the end of the construct `depth` levels out, with its results in place. -/
def branchInto (depth : UInt32) (target : Frame) : Step Unit := do
  let jump ← emitting do
    Emitter.carry target.entry target.arity
    Emitter.jump
  modifyFrames (·.modify depth.toNat (·.addExit jump))

/-- Starts the `else` of the innermost construct `f` with the operands its `if` started with. -/
def enterElse (f : Frame) : Step Unit := do
  emitting do
    let here ← Emitter.label
    Emitter.patch (← Emitter.require f.otherwise) here
    Emitter.modifyStack (·.truncate f.entry)
  modifyFrames (·.modify 0 fun f => { f with kind := .ifElse, otherwise := none })

/-- Points all pending jumps to the end of a construct at the current position. -/
def patchExits (f : Frame) : Emitter.Emit Unit :=
  -- without an `else`, the jump past the first arm comes here as well
  match f.exits ++ f.otherwise.toList with
  | [] => pure ()
  | jumps => do
    let here ← Emitter.label
    jumps.forM (Emitter.patch · here)

/-- Closes the innermost construct and leaves exactly its results on the operand stack, in the slots
from its entry height on. -/
def exitFrame : Step Unit := do
  let f ← top
  modifyFrames List.tail
  if f.kind = .ifThen ∧ 0 < f.arity then
    throw .elseMissing
  -- in dead code the operand stack is anything, so it is built up again from the entry height
  emitting do
    patchExits f
    Emitter.modifyStack fun s => (s.truncate f.entry).pushSlots f.arity.toNat
    if f.kind = .function then
      Emitter.exit .returned

/-! ### Instructions -/

/-- Compiles an instruction in live code. -/
def stepLive : Instruction → Step Unit
  | .localGet index => do
    let n := (← get).numLocals
    if n ≤ index.toNat then
      throw (.localIndex index n)
    emitting (Emitter.localGet index.toNat)
  | .add => do
    requireOperands 2
    emitting Emitter.add
  | .eq => do
    requireOperands 2
    emitting Emitter.eq
  | .block type => openFrame .block type none
  | .if_ type => do
    requireOperands 1
    let jump ← emitting Emitter.jumpIfZero
    openFrame .ifThen type (some jump)
  | .else_ => do
    let f ← top
    requireThen f
    requireExit f
    branchInto 0 f
    enterElse f
  | .end_ => do
    let f ← top
    requireExit f
    emitting (Emitter.carry f.entry f.arity)
    exitFrame
  | .br depth => do
    let target ← branchTarget depth
    requireOperands target.arity
    branchInto depth target
    enterDead
  | .brIf depth => do
    let target ← branchTarget depth
    requireOperands (1 + target.arity)
    let skip ← emitting Emitter.jumpIfZero
    branchInto depth target
    -- if the branch is not taken, all operands are still where they were before it
    emitting do Emitter.patch skip (← Emitter.label)
  | .unreachable => do
    emitting (Emitter.exit .unreachable)
    enterDead

/-- Follows an instruction in dead code, with `depth` constructs opened since it began. -/
def stepDead (depth : Nat) : Instruction → Step Unit
  | .block _ | .if_ _ => modify fun t => { t with dead := some (depth + 1) }
  | .else_ =>
    -- it belongs to a construct that is dead as a whole, or starts live code again
    if 0 < depth then pure ()
    else do
      let f ← top
      requireThen f
      leaveDead
      enterElse f
  | .end_ =>
    if 0 < depth then modify fun t => { t with dead := some (depth - 1) }
    else do
      leaveDead
      exitFrame
  | _ => pure ()

/-- **Compiles one instruction.** -/
def step (i : Instruction) : Step Unit := do
  match (← get).dead with
  | none => stepLive i
  | some depth => stepDead depth i

end Compilation

/-! ### Functions -/

structure CompiledFunction where
  source : Function
  /-- The instructions. -/
  program : Program
  /-- The instructions in machine code. -/
  machineCode : List UInt8
  /-- The greatest height of the operand stack. -/
  ceiling : Nat
deriving DecidableEq, Repr

inductive CompileError where
  /-- There are bytes after the `end` of the function. -/
  | trailing (count : Nat)
  /-- An instruction cannot be decoded. -/
  | decode (cause : Instruction.DecodeError)
  /-- An instruction is refused. -/
  | step (instruction : Instruction) (pc : Nat) (cause : Compilation.StepError)
  /-- The body ends inside constructs. -/
  | unfinished (constructs : Nat)
  /-- The code cannot be finished. -/
  | finish (cause : Emitter.Fault)
deriving DecidableEq, Repr

def CompileError.kind? : CompileError → Option ErrorKind
  | .trailing _ | .unfinished _ => some .malformedInput
  | .decode cause => some cause.kind
  | .step _ _ cause => cause.kind?
  | .finish _ => none

def CompileError.message : CompileError → String
  | .trailing n =>
    ErrorKind.malformedInput.describe s!"{n} bytes after the end of the function body"
  | .decode cause => cause.message
  | .step i pc cause =>
    "failed to compile " ++ i.text ++ " at " ++ Numeral.hex pc ++ ": " ++ cause.message
  | .unfinished n =>
    ErrorKind.malformedInput.describe s!"function body ended inside {n} constructs"
  | .finish cause => "failed to compile: " ++ cause.message

namespace Compilation

/-- The start of the compilation of a function: the preamble is emitted and its body is open. -/
def start (f : Function) : Compilation :=
  let emitter := match Emitter.preamble f.numLocals Emitter.empty with
    | .ok _ e => e
    | .error _ e => e
  ⟨f.numLocals, emitter, [.opened .function f.type.results.length f.numLocals], none⟩

/-- Compiles the instruction `l` of a body of `length` bytes. -/
def advance (length : Nat) (t : Compilation) (l : Located) : Except CompileError Compilation :=
  -- the function has ended already
  if t.frames.isEmpty then .error (.trailing (length - l.pc))
  else
    match step l.instruction t with
    | .ok () t => .ok t
    | .error e _ => .error (.step l.instruction l.pc e)

/-- Ends the compilation of a body of `length` bytes after its last decodable instruction. -/
def close (length : Nat) (fault : Option Instruction.DecodeError) (t : Compilation) :
    Except CompileError Compilation :=
  match fault with
  | some e => if t.frames.isEmpty then .error (.trailing (length - e.pc)) else .error (.decode e)
  | none => if t.frames.isEmpty then .ok t else .error (.unfinished t.frames.length)

def body (f : Function) : Except CompileError Compilation := do
  let d := disassemble f.code.body
  let t ← d.instructions.foldlM (advance f.code.body.length) (start f)
  close f.code.body.length d.fault t

end Compilation

/-- **Compiles a function with an assembler**, which is asked once, after the whole body. -/
def Function.compileWith (f : Function) (assembler : Assembler) :
    Except CompileError CompiledFunction := do
  let t ← Compilation.body f
  match Emitter.finishWith assembler t.emitter with
  | .ok (program, machineCode) _ => return ⟨f, program, machineCode, t.emitter.stack.ceiling⟩
  | .error e _ => throw (.finish e)

/-- **Compiles a function.** -/
def Function.compile (f : Function) : Except CompileError CompiledFunction :=
  f.compileWith Program.assembleAfter

/-! ### Reports -/

/-- What is reported before an instruction is compiled. -/
def Compilation.report (t : Compilation) (l : Located) : Log.Entry :=
  .debug "compiling instruction"
    [Log.nat "pc" l.pc, Log.text "instruction" l.instruction.text,
      ("unreachable", .bool t.dead.isSome), Log.text "stack" t.emitter.stack.text]

/-- What is reported while the instructions `ls` of a body of `length` bytes are compiled. -/
def Compilation.reports (length : Nat) : Compilation → List Located → List Log.Entry
  | _, [] => []
  | t, l :: ls =>
    if t.frames.isEmpty then []
    else
      t.report l ::
        match t.advance length l with
        | .ok t => t.reports length ls
        | .error _ => []

/-- What is reported about a compiled function. -/
def CompiledFunction.report (c : CompiledFunction) : Log.Entry :=
  .debug "compiled function"
    [Log.nat "index" c.source.index, Log.nat "code_size" c.machineCode.length,
      Log.nat "stack_pointer_ceil" c.ceiling]

/-- **What the compilation of a function reports.** -/
def Function.compileLog (f : Function) : List Log.Entry :=
  (Compilation.start f).reports f.code.body.length (disassemble f.code.body).instructions
    ++ match f.compile with
      | .ok c => [c.report]
      | .error _ => []

end WasmJit
