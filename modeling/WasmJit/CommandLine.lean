import WasmJit.CommandLine.Files
import WasmJit.CommandLine.Options
import WasmJit.Config
import WasmJit.Session

/-!
# The command line

`Request.parse` reads the arguments, `Request.answer` carries the request out on the contents of the
files it names, and `CommandLine.outcome` joins the two. An outcome is the exit code and what is
written: 1 stands for a request that cannot be carried out, 2 for a module that was refused or an
execution that failed. Only a success writes to standard output.
-/

namespace WasmJit

/-- What a run of the program leaves behind. -/
structure Outcome where
  exitCode : Nat
  /-- What is written to standard output. -/
  out : String
  /-- What is written to standard error. -/
  err : String
deriving DecidableEq, Repr

/-! ### Usage -/

namespace Usage

def program : String :=
  "lightjit CLI\n\nUsage:\n  lightjit <command>\n\nCommands:\n"
    ++ "  run\t\tExecutes a function of a WebAssembly binary with two arguments\n"
    ++ "  describe\tPrints the signature of each function of a WebAssembly binary\n"

def options (known : List Flag) : String :=
  String.join (known.map Flag.listing)

def command (synopsis : String) (known : List Flag) : String :=
  s!"lightjit CLI\n\nUsage:\n  lightjit {synopsis}\n\nOptions:\n" ++ options known

/-- What is written when the options after `name` are refused. -/
def refusal (name : String) (known : List Flag) (e : OptionError) : String :=
  e.message ++ s!"Usage of {name}:\n" ++ options known

end Usage

/-! ### Requests -/

/-- What is asked of a module. -/
inductive Command where
  /-- Execute a function on two arguments. -/
  | run (func : Nat) (a b : UInt64)
  /-- List the signatures. -/
  | describe
deriving DecidableEq, Repr

/-- A command and the files it concerns. -/
structure Request where
  /-- The path of the configuration file; empty for none. -/
  config : String
  /-- The path of the binary. -/
  binary : String
  command : Command
deriving DecidableEq, Repr

namespace Request

/-- The options of the program itself. -/
def programFlags : List Flag := [.help]

def runFlags : List Flag := [.config, .func, .help]

def describeFlags : List Flag := [.config, .help]

def runUsage : String :=
  Usage.command "run <options> <path to wasm file> <arg0> <arg1>" runFlags

def describeUsage : String :=
  Usage.command "describe <options> <path to wasm file>" describeFlags

/-- The exit code when the options of the program itself are refused. -/
def programCode : OptionError → Nat
  | .helpRequested => 0
  | _ => 2

/-- An argument of the executed function. -/
def argument (s : String) : Except Outcome UInt64 :=
  match UnsignedLiteral.parse 64 s with
  | .ok n => .ok (UInt64.ofNat n)
  | .error f => .error ⟨1, "", "invalid argument " ++ Quoted.quote s ++ ": " ++ f.message s ++ "\n"⟩

def parseRun (args : List String) : Except Outcome Request :=
  match Options.parse runFlags args with
  | .error e => .error ⟨1, "", Usage.refusal "run" runFlags e⟩
  | .ok (o, rest) =>
    if o.help then .error ⟨0, "", runUsage⟩
    else
      match rest with
      | [] => .error ⟨1, "", "missing path to wasm file\n" ++ runUsage⟩
      | [binary, a, b] => do
        let a ← argument a
        let b ← argument b
        return ⟨o.config, binary, .run o.func a b⟩
      | _ => .error ⟨1, "", "expected exactly two arguments\n" ++ runUsage⟩

def parseDescribe (args : List String) : Except Outcome Request :=
  match Options.parse describeFlags args with
  | .error e => .error ⟨1, "", Usage.refusal "describe" describeFlags e⟩
  | .ok (o, rest) =>
    if o.help then .error ⟨0, "", describeUsage⟩
    else
      match rest with
      | [binary] => .ok ⟨o.config, binary, .describe⟩
      | _ => .error ⟨1, "", "missing path to wasm file\n" ++ describeUsage⟩

/-- **Reads the arguments of the program**: a request, or the outcome if there is nothing to carry
out. -/
def parse (args : List String) : Except Outcome Request :=
  match Options.parse programFlags args with
  | .error e => .error ⟨programCode e, "", Usage.refusal "lightjit" programFlags e⟩
  | .ok (o, rest) =>
    if o.help then .error ⟨0, "", Usage.program⟩
    else
      match rest with
      | [] => .error ⟨0, "", Usage.program⟩
      | "run" :: args => parseRun args
      | "describe" :: args => parseDescribe args
      | _ => .error ⟨1, "", "invalid command\n" ++ Usage.program⟩

end Request

/-! ### Carrying out requests -/

namespace Request

/-- The settings of a request. Without a path there is no file to read. -/
def settings (r : Request) (config : Content) : Except String Config :=
  if r.config.isEmpty then .ok .default
  else
    match config with
    | .error e => .error (e.message r.config)
    | .ok bytes => (Config.parse bytes).mapError Config.Error.message

def logger (r : Request) (config : Content) : Except Outcome Log.Logger :=
  match r.settings config with
  | .error e => .error ⟨1, "", s!"error reading config: {e}\n"⟩
  | .ok c =>
    match c.logger with
    | .error e => .error ⟨1, "", s!"invalid config: {e.message}\n"⟩
    | .ok l => .ok l

/-- What is written about a refused module: where the cause is a limit of the compiler, also what is
within it. -/
def refusal (e : LoadError) : String :=
  s!"error translating wasm binary: {e.message}\n"
    ++ if e.kind? = some .unsupportedFeature ∨ e.kind? = some .unsupportedOpcode then
        "only local.get, i32.add, i32.eq, block, if, else, end, br, br_if and unreachable are "
          ++ "supported\n"
      else ""

/-- One line per function. -/
def signatures (s : Session) : String :=
  String.join ((List.range s.numFunctions).map fun i =>
    s!"function[{i}]: " ++ ((s.functionType? i).map FunctionType.text).getD "" ++ "\n")

/-- Carries out a command on a compiled binary; `write` writes log entries. -/
def perform (write : List Log.Entry → String) (s : Session) : Command → Outcome
  | .describe => ⟨0, signatures s, ""⟩
  | .run func a b =>
    match s.execute func a b with
    | .ok result => ⟨0, toString result.toNat ++ "\n", ""⟩
    | .error e =>
      let failed := Log.Entry.debug "execution failed"
        [Log.nat "function" func, Log.text "error" e.message]
      ⟨2, "", write (e.log func ++ [failed])
        ++ s!"error executing function[{func}]: {e.message}\n"⟩

/-- **Carries out a request** on the contents of its files. -/
def answer (stamp : Log.Stamp) (r : Request) (config binary : Content) : Outcome :=
  match r.logger config with
  | .error o => o
  | .ok logger =>
    match binary with
    | .error e => ⟨1, "", s!"error reading wasm binary: {e.message r.binary}\n"⟩
    | .ok source =>
      let write := logger.write stamp
      let report := write (Session.loadLog source)
      match Session.load source with
      | .error e => ⟨2, "", report ++ refusal e⟩
      | .ok s =>
        let o := perform write s r.command
        { o with err := report ++ o.err }

end Request

/-- **The outcome of the program** on arguments and files. -/
def CommandLine.outcome (stamp : Log.Stamp) (files : String → Content) (args : List String) :
    Outcome :=
  match Request.parse args with
  | .error o => o
  | .ok r => r.answer stamp (files r.config) (files r.binary)

end WasmJit
