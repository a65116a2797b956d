import WasmJit.ErrorKind

/-!
# Open constructs

A `Frame` is a construct that is being compiled: the function body, a block or an `if`. Its
results end up in the slots from its entry height on, whichever way it is left. The open
constructs form a list, innermost first.

* `Frame.checkExit` is the contract at the end of a construct: exactly its results lie above its
  entry height.
* `Frame.target` finds the construct a branch leaves.
-/

namespace WasmJit

/-- An integer as an unsigned 64-bit number: negative ones count down from `2 ^ 64`. -/
def asWord (i : Int) : Nat :=
  if 0 ≤ i then i.toNat else (i + 0x10000000000000000).toNat

/-- The kinds of constructs. -/
inductive FrameKind where
  | function
  | block
  /-- An `if` whose `else` has not been reached. -/
  | ifThen
  /-- An `if` whose `else` has been reached. -/
  | ifElse
  /-- Any other construct, which has no name. -/
  | unnamed
deriving DecidableEq, Repr

namespace FrameKind

def name : FrameKind → String
  | .function => "function"
  | .block => "block"
  | .ifThen => "if"
  | .ifElse => "if_with_else"
  | .unnamed => ""

/-- The construct numbered `code`. -/
def ofCode : Nat → FrameKind
  | 0 => .function
  | 1 => .block
  | 2 => .ifThen
  | 3 => .ifElse
  | _ => .unnamed

end FrameKind

/-- A construct that is being compiled. -/
structure Frame where
  kind : FrameKind
  /-- The number of values it leaves behind. -/
  arity : Int
  /-- The height of the operand stack below it. -/
  entry : Nat
  /-- The pending jumps to its end. -/
  exits : List Nat
  /-- The pending jump to its `else`, taken when the condition is zero. -/
  otherwise : Option Nat
deriving DecidableEq, Repr

namespace Frame

/-- A construct that was just opened. -/
def opened (kind : FrameKind) (arity entry : Nat) : Frame :=
  ⟨kind, arity, entry, [], none⟩

def text (f : Frame) : String :=
  f.kind.name ++ s!" (arity={f.arity}, entry={f.entry}, exits={f.exits.length})"

/-- The number of operands above the entry height. -/
def above (f : Frame) (height : Nat) : Nat :=
  asWord ((height : Int) - f.entry)

/-- Why a construct cannot end: it has `found` values instead of its results. -/
structure ExitError where
  kind : FrameKind
  arity : Int
  found : Nat
deriving DecidableEq, Repr

/-- Too few values are an underflow, too many are malformed. -/
def ExitError.errorKind (e : ExitError) : ErrorKind :=
  if e.found < asWord e.arity then .stackUnderflow else .malformedInput

def ExitError.message (e : ExitError) : String :=
  e.errorKind.describe (e.kind.name ++ s!" must exit with {e.arity} values but has {e.found}")

/-- **The contract at the end of a construct**, with the operand stack at `height`. -/
def checkExit (f : Frame) (height : Nat) : Except ExitError Unit :=
  if f.above height = asWord f.arity then .ok () else .error ⟨f.kind, f.arity, f.above height⟩

/-- A branch out of more constructs than there are. -/
structure BranchError where
  depth : Nat
  constructs : Nat
deriving DecidableEq, Repr

/-- The text of the failure, which is always of the kind `malformedInput`. -/
def BranchError.message (e : BranchError) : String :=
  ErrorKind.malformedInput.describe
    s!"branch depth {e.depth} exceeds the {e.constructs} enclosing constructs"

/-- The construct that a branch of the given depth leaves. -/
def target (frames : List Frame) (depth : Nat) : Except BranchError Frame :=
  match frames[depth]? with
  | some f => .ok f
  | none => .error ⟨depth, frames.length⟩

/-- Records a pending jump to the end of the construct. -/
def addExit (f : Frame) (jump : Nat) : Frame :=
  { f with exits := f.exits ++ [jump] }

end Frame

end WasmJit
