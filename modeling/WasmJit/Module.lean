import WasmJit.ErrorKind
import WasmJit.ValueType

/-!
# Modules

A module is three lists: signatures, one signature index per function, and one body per function.
`Module.functions` joins them; it fails if the last two lists differ in length or an index refers to
no signature.
-/

namespace WasmJit

/-- The body of a function. -/
structure Code where
  /-- The number of zero-initialised locals after the parameters. -/
  numLocals : UInt32
  /-- The instructions, not decoded yet. -/
  body : List UInt8
deriving DecidableEq, Repr

/-- A module. Function `i` has the signature `types[functions[i]]` and the body `code[i]`. -/
structure Module where
  types : List FunctionType
  functionTypes : List UInt32
  code : List Code
deriving DecidableEq, Repr

/-- A function of a module. -/
structure Function where
  /-- The position among the functions of the module. -/
  index : Nat
  type : FunctionType
  code : Code
deriving DecidableEq, Repr

/-- The number of parameters and declared locals. -/
def Function.numLocals (f : Function) : Nat :=
  f.type.params.length + f.code.numLocals.toNat

namespace Module

/-- The module without signatures and functions. -/
def empty : Module := ⟨[], [], []⟩

/-- Why the lists of a module cannot be joined. -/
inductive JoinError where
  /-- There are not as many bodies as functions. -/
  | lengths
  /-- Function `function` refers to a signature that does not exist. -/
  | typeIndex (function : Nat) (type : UInt32)
deriving DecidableEq, Repr

/-- The text of a failed join, which is always of the kind `malformedInput`. -/
def JoinError.message : JoinError → String
  | .lengths =>
    ErrorKind.malformedInput.describe "function and code section have inconsistent lengths"
  | .typeIndex i t =>
    ErrorKind.malformedInput.describe s!"function[{i}] has invalid type index {t}"

/-- Joins signature indices with bodies, counting the functions from `index` on. -/
def join (types : List FunctionType) : (index : Nat) → List UInt32 → List Code →
    Except JoinError (List Function)
  | index, t :: ts, c :: cs =>
    match types[t.toNat]? with
    | none => .error (.typeIndex index t)
    | some type => (join types (index + 1) ts cs).map (⟨index, type, c⟩ :: ·)
  | _, _, _ => .ok []

/-- **The functions of the module**, in order. -/
def functions (m : Module) : Except JoinError (List Function) :=
  if m.functionTypes.length ≠ m.code.length then .error .lengths
  else join m.types 0 m.functionTypes m.code

end Module

end WasmJit
