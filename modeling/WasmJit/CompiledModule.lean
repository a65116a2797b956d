import WasmJit.CodeSegment
import WasmJit.Machine.Execution
import WasmJit.Compilation

/-!
# Compiled modules

`Module.compile` compiles all functions of a module or, at the first one that is refused, none. A
`CompiledModule` can be called any number of times: every call has a value stack of its own, with
the arguments in the first slots and zeros everywhere else.
-/

namespace WasmJit

inductive ModuleError where
  /-- Its lists cannot be joined. -/
  | join (cause : Module.JoinError)
  /-- A function is refused. -/
  | function (index : Nat) (cause : CompileError)
  /-- The machine code has no place. -/
  | segment
deriving DecidableEq, Repr

def ModuleError.kind? : ModuleError → Option ErrorKind
  | .join _ => some .malformedInput
  | .function _ cause => cause.kind?
  | .segment => none

def ModuleError.message : ModuleError → String
  | .join cause => cause.message
  | .function i cause => s!"function[{i}]: " ++ cause.message
  | .segment => CodeSegment.emptyComplaint

/-- The native code of the functions of a module. -/
structure CompiledModule where
  functions : List CompiledFunction
  segment : CodeSegment
deriving DecidableEq, Repr

/-- Compiles a list of functions, up to the first one that is refused. -/
def Function.compileAll : List Function → Except ModuleError (List CompiledFunction)
  | [] => .ok []
  | f :: fs =>
    match f.compile with
    | .error e => .error (.function f.index e)
    | .ok c => (Function.compileAll fs).map (c :: ·)

/-- **Compiles a module.** -/
def Module.compile (m : Module) : Except ModuleError CompiledModule := do
  let fs ← m.functions.mapError .join
  let functions ← Function.compileAll fs
  match CodeSegment.build (functions.map (·.machineCode)) with
  | some segment => return ⟨functions, segment⟩
  | none => throw .segment

/-! ### Calls -/

namespace CompiledFunction

/-- The number of parameters and locals, which is also the slot of the first result. -/
def numLocals (f : CompiledFunction) : Nat :=
  f.source.numLocals

/-- The number of slots of a call: one more than the locals at least. -/
def numSlots (f : CompiledFunction) : Nat :=
  if f.ceiling ≤ f.numLocals then f.numLocals + 1 else f.ceiling

/-- The first slots of a value stack of `size` slots hold `args`, the others zero. -/
def slots (size : Nat) (args : List UInt64) : Array UInt64 :=
  ((args ++ List.replicate (size - args.length) 0).take size).toArray

/-- The state of the machine at the start of a call. -/
def entry (f : CompiledFunction) (args : List UInt64) : Machine :=
  .start (slots f.numSlots args)

/-- The results in the slots of a finished call; slots that do not exist count as zero. -/
def results (f : CompiledFunction) (slots : Array UInt64) : List UInt64 :=
  (List.range f.source.type.results.length).map fun i => slots.getD (f.numLocals + i) 0

end CompiledFunction

inductive CallError where
  /-- There is no such function. -/
  | functionIndex (index numFunctions : Nat)
  /-- The number of arguments is wrong. -/
  | arguments (expected passed : Nat)
  /-- The code ended with another status than `returned`. -/
  | fault (status : Status)
  /-- The code cannot be executed. -/
  | stuck
deriving DecidableEq, Repr

def CallError.kind? : CallError → Option ErrorKind
  | .functionIndex .. => some .invalidFunctionIndex
  | .arguments .. => some .signatureMismatch
  | .fault s => if s = .unreachable then some .unreachable else none
  | .stuck => none

def CallError.message : CallError → String
  | .functionIndex i n =>
    ErrorKind.invalidFunctionIndex.describe s!"{i} out of range of {n} functions"
  | .arguments expected passed =>
    ErrorKind.signatureMismatch.describe s!"expected {expected} params, but passed {passed}"
  | .fault s => "wasm runtime error: " ++ s.fault
  | .stuck => "wasm runtime error: invalid access"

namespace CompiledModule

/-- The module after its native code was released. -/
def closed : CompiledModule := ⟨[], .empty⟩

def numFunctions (m : CompiledModule) : Nat :=
  m.functions.length

def functionType? (m : CompiledModule) (index : Nat) : Option FunctionType :=
  m.functions[index]?.map (·.source.type)

/-- Executes a function on arguments of the right number. -/
def execute (f : CompiledFunction) (args : List UInt64) : Except CallError (List UInt64) :=
  match f.program.run (f.entry args) with
  | none => .error .stuck
  | some m =>
    if m.status = Status.returned.code then .ok (f.results m.slots)
    else .error (.fault ⟨m.status⟩)

/-- **Calls a function** and returns its results. -/
def call (m : CompiledModule) (index : Nat) (args : List UInt64) :
    Except CallError (List UInt64) :=
  match m.functions[index]? with
  | none => .error (.functionIndex index m.numFunctions)
  | some f =>
    let expected := f.source.type.params.length
    if args.length = expected then execute f args
    else .error (.arguments expected args.length)

end CompiledModule

/-! ### Reports -/

/-- What is reported while a list of functions is compiled. -/
def Function.compileAllLog : List Function → List Log.Entry
  | [] => []
  | f :: fs =>
    f.compileLog.map (·.withField "function" (.int f.index))
      ++ match f.compile with
        | .ok _ => Function.compileAllLog fs
        | .error _ => []

/-- What is reported about the native code of a module. -/
def CompiledModule.report (m : CompiledModule) : Log.Entry :=
  .debug "mapped native code"
    [Log.nat "functions" m.numFunctions, Log.nat "size" m.segment.bytes.length]

/-- **What the compilation of a module reports.** -/
def Module.compileLog (m : Module) : List Log.Entry :=
  match m.functions with
  | .error _ => []
  | .ok fs =>
    Function.compileAllLog fs
      ++ match m.compile with
        | .ok c => [c.report]
        | .error _ => []

/-- **What a call of the function numbered `index` reports**: a fault, if its code ended with one.
-/
def CallError.log (index : Nat) : CallError → List Log.Entry
  | .functionIndex .. | .arguments .. => []
  | e =>
    [.debug "function faulted" [Log.nat "function" index, Log.text "error" e.message]]

end WasmJit
