import WasmJit.Compilation

/-!
# Heights of the operand stack

Whether a function is accepted, and how many slots its operands need, depends on the heights of the
operand stack only. `Heights` is what such an analysis has to remember: the open constructs with
their entry heights, the current height, the greatest height so far, and in dead code how many
constructs were opened in it. No operand has a place, and no code is emitted.

* `Heights.step` follows one instruction. Live code is checked; dead code is only counted through.
* `Function.analyse` follows a whole function and returns the greatest height, or the reason why the
  function is refused.
-/

namespace WasmJit

/-- An open construct, as far as heights are concerned. -/
structure Scope where
  kind : FrameKind
  /-- The number of values it leaves behind. -/
  arity : Nat
  /-- The height below it. -/
  entry : Nat
deriving DecidableEq, Repr

/-- **What is known about heights** in front of an instruction. -/
structure Heights where
  /-- The open constructs, innermost first. -/
  scopes : List Scope
  height : Nat
  /-- The greatest height so far. -/
  maximum : Nat
  /-- In dead code, the number of constructs opened since it began. -/
  dead : Option Nat
deriving DecidableEq, Repr

namespace Heights

open Compilation (StepError)

/-- Reaches a height. -/
def raise (a : Heights) (height : Nat) : Heights :=
  { a with height, maximum := max a.maximum height }

/-- Requires `n` operands above the entry height of a construct. -/
def require (a : Heights) (scope : Scope) (n : Nat) : Except StepError Unit :=
  if a.height - scope.entry < n then .error (.operands n (a.height - scope.entry)) else .ok ()

/-- Requires that an `else` may stand in a construct. -/
def requireThen (scope : Scope) : Except StepError Unit :=
  if scope.kind = .ifThen then .ok () else .error (.elseInside scope.kind)

/-- Requires exactly the results of a construct above its entry height. -/
def requireExit (a : Heights) (scope : Scope) : Except StepError Unit :=
  if a.height - scope.entry = scope.arity then .ok ()
  else .error (.exit ⟨scope.kind, scope.arity, a.height - scope.entry⟩)

/-- The construct that a branch leaves. -/
def target (a : Heights) (depth : UInt32) : Except StepError Scope :=
  match a.scopes[depth.toNat]? with
  | some scope => .ok scope
  | none => .error (.branch ⟨depth.toNat, a.scopes.length⟩)

/-- Goes on with the `else` of an `if`. -/
def enterElse (a : Heights) (scope : Scope) (outer : List Scope) : Heights :=
  { a with
    scopes := { scope with kind := .ifElse } :: outer
    height := scope.entry
    dead := none }

/-- Goes on after the end of a construct, which leaves its results. -/
def leave (a : Heights) (scope : Scope) (outer : List Scope) : Except StepError Heights :=
  if scope.kind = .ifThen ∧ 0 < scope.arity then .error .elseMissing
  else .ok ({ a with scopes := outer, dead := none }.raise (scope.entry + scope.arity))

/-- Follows an instruction in live code inside of `scope`. -/
def stepLive (numLocals : Nat) (a : Heights) (scope : Scope) (outer : List Scope) :
    Instruction → Except StepError Heights
  | .localGet index =>
    if numLocals ≤ index.toNat then .error (.localIndex index numLocals)
    else .ok (a.raise (a.height + 1))
  | .add | .eq => do
    a.require scope 2
    return { a with height := a.height - 1 }
  | .block type => .ok { a with scopes := ⟨.block, type.arity, a.height⟩ :: a.scopes }
  | .if_ type => do
    a.require scope 1
    return { a with
      scopes := ⟨.ifThen, type.arity, a.height - 1⟩ :: a.scopes
      height := a.height - 1 }
  | .else_ => do
    requireThen scope
    a.requireExit scope
    return a.enterElse scope outer
  | .end_ => do
    a.requireExit scope
    a.leave scope outer
  | .br depth => do
    let target ← a.target depth
    a.require scope target.arity
    -- what follows up to the end of the construct is dead, and its height does not matter
    return { a with dead := some 0 }
  | .brIf depth => do
    let target ← a.target depth
    a.require scope (1 + target.arity)
    return { a with height := a.height - 1 }
  | .unreachable => .ok { a with dead := some 0 }

/-- Follows an instruction in dead code inside of `scope`, with `depth` constructs opened since the
code became dead. -/
def stepDead (a : Heights) (scope : Scope) (outer : List Scope) :
    (depth : Nat) → Instruction → Except StepError Heights
  -- constructs in dead code are counted, so that their ends are told apart from that of `scope`
  | depth, .block _ | depth, .if_ _ => .ok { a with dead := some (depth + 1) }
  | 0, .else_ => do
    requireThen scope
    return a.enterElse scope outer
  | 0, .end_ => a.leave scope outer
  | depth + 1, .end_ => .ok { a with dead := some depth }
  | _, _ => .ok a

/-- **Follows one instruction** inside of the construct `scope`. -/
def step (numLocals : Nat) (a : Heights) (scope : Scope) (outer : List Scope) (i : Instruction) :
    Except StepError Heights :=
  match a.dead with
  | none => a.stepLive numLocals scope outer i
  | some depth => a.stepDead scope outer depth i

/-- Follows the instruction `l` of a body of `length` bytes. -/
def advance (numLocals length : Nat) (a : Heights) (l : Located) : Except CompileError Heights :=
  match a.scopes with
  | [] => .error (.trailing (length - l.pc))
  | scope :: outer =>
    (a.step numLocals scope outer l.instruction).mapError (.step l.instruction l.pc)

/-- Ends a body of `length` bytes after its last decodable instruction. -/
def close (length : Nat) (fault : Option Instruction.DecodeError) (a : Heights) :
    Except CompileError Nat :=
  match a.scopes, fault with
  | [], some e => .error (.trailing (length - e.pc))
  | _ :: _, some e => .error (.decode e)
  | [], none => .ok a.maximum
  | _ :: _, none => .error (.unfinished a.scopes.length)

/-- What is known in front of the first instruction of a function: its parameters and locals are on
the stack. -/
def start (f : Function) : Heights :=
  ⟨[⟨.function, f.type.results.length, f.numLocals⟩], f.numLocals, f.numLocals, none⟩

end Heights

/-- **The height analysis of a function**: its greatest height, or why it is refused. -/
def Function.analyse (f : Function) : Except CompileError Nat := do
  let d := disassemble f.code.body
  let a ← d.instructions.foldlM (Heights.advance f.numLocals f.code.body.length) (Heights.start f)
  a.close f.code.body.length d.fault

end WasmJit
