import WasmJit.CompiledModule
import WasmJit.Module.Decoding

/-!
# Sessions

The public face of the library: `Session.load` compiles a binary into a `Session`, on which
functions of two arguments and one result can be executed until it is closed.
-/

namespace WasmJit

inductive LoadError where
  /-- It is no module. -/
  | decode (cause : Module.DecodeError)
  /-- Its functions are refused. -/
  | compile (cause : ModuleError)
deriving DecidableEq, Repr

def LoadError.kind? : LoadError → Option ErrorKind
  | .decode cause => some cause.kind
  | .compile cause => cause.kind?

def LoadError.message : LoadError → String
  | .decode cause => "decode: " ++ cause.message
  | .compile cause => "translate: " ++ cause.message

/-- A compiled binary, until it is closed. -/
structure Session where
  compiled : CompiledModule
  isClosed : Bool
deriving DecidableEq, Repr

/-- **Compiles a binary**: all functions or none. -/
def Session.load (source : List UInt8) : Except LoadError Session := do
  let m ← (Module.decode source).mapError .decode
  let compiled ← m.compile.mapError .compile
  return ⟨compiled, false⟩

/-- **What the compilation of a binary reports.** -/
def Session.loadLog (source : List UInt8) : List Log.Entry :=
  match Module.decode source with
  | .error _ => []
  | .ok m =>
    m.compileLog
      ++ match m.compile with
        | .ok c =>
          [.debug "translated module"
            [Log.nat "functions" c.numFunctions, Log.nat "size" source.length]]
        | .error _ => []

inductive ExecuteError where
  /-- The session is closed. -/
  | closed
  /-- There is no such function. -/
  | functionIndex (index numFunctions : Nat)
  /-- The function does not take two arguments to one result. -/
  | signature (index : Nat) (type : FunctionType)
  /-- The call failed. -/
  | call (cause : CallError)
deriving DecidableEq, Repr

def ExecuteError.kind? : ExecuteError → Option ErrorKind
  | .closed => some .moduleClosed
  | .functionIndex .. => some .invalidFunctionIndex
  | .signature .. => some .signatureMismatch
  | .call cause => cause.kind?

def ExecuteError.message : ExecuteError → String
  | .closed => ErrorKind.moduleClosed.phrase
  | .functionIndex i n =>
    ErrorKind.invalidFunctionIndex.describe s!"{i} out of range of {n} functions"
  | .signature i t =>
    ErrorKind.signatureMismatch.describe (s!"function[{i}] is " ++ t.text)
  | .call cause => cause.message

/-- What a failed execution of the function numbered `index` reports. -/
def ExecuteError.log (index : Nat) : ExecuteError → List Log.Entry
  | .call cause => cause.log index
  | _ => []

namespace Session

/-- The number of functions; none after closing. -/
def numFunctions (s : Session) : Nat :=
  if s.isClosed then 0 else s.compiled.numFunctions

/-- The signature of a function; none after closing. -/
def functionType? (s : Session) (index : Nat) : Option FunctionType :=
  if s.isClosed then none else s.compiled.functionType? index

/-- **Executes a function of two arguments.** -/
def execute (s : Session) (index : Nat) (a b : UInt64) : Except ExecuteError UInt64 :=
  if s.isClosed then .error .closed
  else
    match s.compiled.functionType? index with
    | none => .error (.functionIndex index s.compiled.numFunctions)
    | some t =>
      if t ≠ .binary then .error (.signature index t)
      else
        match s.compiled.call index [a, b] with
        | .error e => .error (.call e)
        | .ok results => .ok (results.headD 0)

/-- Releases the native code; closing again changes nothing. -/
def close (_ : Session) : Session :=
  ⟨.closed, true⟩

end Session

end WasmJit
