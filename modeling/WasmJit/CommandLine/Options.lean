import WasmJit.Text.UnsignedLiteral

/-!
# Command line options

Options stand in front of the other arguments, as `-name`, `-name=value` or, if the option needs a
value, `-name value`; two dashes do as well. They end at the first argument that is no option, or
after `--`. `Options.parse` reads them for a command that knows the options `known`.
-/

namespace WasmJit

/-- The options of all commands. -/
inductive Flag where
  | config | func | help
deriving DecidableEq, Repr

namespace Flag

/-- The name after the dash. -/
def name : Flag → String
  | .config => "config"
  | .func => "func"
  | .help => "h"

/-- How the option is listed. -/
def listing : Flag → String
  | .config => "  -config string\n    \tpath to a TOML file configuring the log level and format\n"
  | .func => "  -func value\n    \tindex of the function to execute\n"
  | .help => "  -h\tprint usage\n"

end Flag

/-- The values of the options; where one is repeated, the last counts. -/
structure Options where
  /-- The path of the configuration file; empty for none. -/
  config : String
  /-- The index of the function to execute. -/
  func : Nat
  /-- Whether the usage is asked for. -/
  help : Bool
deriving DecidableEq, Repr

inductive OptionError where
  /-- There is no name after the dashes. -/
  | badSyntax (argument : String)
  /-- There is no such option. -/
  | undefined (name : String)
  /-- The value is missing. -/
  | missingValue (flag : Flag)
  /-- The value is no truth value. -/
  | invalidBoolean (flag : Flag) (value : String)
  /-- The value is no number that fits. -/
  | invalidNumber (flag : Flag) (value : String) (fault : UnsignedLiteral.Fault)
  /-- The usage is asked for by an option that is not defined. -/
  | helpRequested
deriving DecidableEq, Repr

/-- The line that describes the failure, if there is one. -/
def OptionError.message : OptionError → String
  | .badSyntax argument => s!"bad flag syntax: {argument}\n"
  | .undefined name => s!"flag provided but not defined: -{name}\n"
  | .missingValue flag => s!"flag needs an argument: -{flag.name}\n"
  | .invalidBoolean flag value =>
    "invalid boolean value " ++ Quoted.quote value ++ s!" for -{flag.name}: parse error\n"
  | .invalidNumber flag value fault =>
    "invalid value " ++ Quoted.quote value ++ s!" for flag -{flag.name}: " ++ fault.message value
      ++ "\n"
  | .helpRequested => ""

namespace Options

/-- The values of options that are not given. -/
def default : Options := ⟨"", 0, false⟩

/-- A truth value. -/
def boolean? (s : String) : Option Bool :=
  if s ∈ ["1", "t", "T", "true", "TRUE", "True"] then some true
  else if s ∈ ["0", "f", "F", "false", "FALSE", "False"] then some false
  else none

/-- Gives an option a value. -/
def set (o : Options) (value : String) : Flag → Except OptionError Options
  | .config => .ok { o with config := value }
  | .func =>
    match UnsignedLiteral.parse 32 value with
    | .ok n => .ok { o with func := n }
    | .error fault => .error (.invalidNumber .func value fault)
  | .help =>
    match boolean? value with
    | some b => .ok { o with help := b }
    | none => .error (.invalidBoolean .help value)

/-- An argument as an option. -/
inductive Shape where
  /-- It is no option, so the options end in front of it. -/
  | other
  /-- The options end after it. -/
  | terminator
  /-- It has dashes but no name. -/
  | nameless
  /-- A name, and a value if there is an equals sign. -/
  | named (name : String) (value : Option String)
deriving DecidableEq, Repr

/-- The name and the value of an option, after its dashes. -/
def splitValue (cs : List Char) : Shape :=
  match cs with
  | [] => .nameless
  | c :: _ =>
    if c = '-' || c = '=' then .nameless
    else
      let value := match cs.dropWhile (· ≠ '=') with
        | [] => none
        | _ :: value => some (String.ofList value)
      .named (String.ofList (cs.takeWhile (· ≠ '='))) value

def shape (argument : String) : Shape :=
  match argument.toList with
  | ['-', '-'] => .terminator
  | '-' :: '-' :: cs => splitValue cs
  | '-' :: c :: cs => splitValue (c :: cs)
  | _ => .other

/-- The failure for an option that is not known: some such options ask for the usage. -/
def unknown (name : String) : OptionError :=
  if name = "help" || name = "h" then .helpRequested else .undefined name

/-- Reads options on top of `o`; returns their values and the other arguments. -/
def parseOnto (known : List Flag) :
    Options → List String → Except OptionError (Options × List String)
  | o, [] => .ok (o, [])
  | o, argument :: rest =>
    match shape argument with
    | .other => .ok (o, argument :: rest)
    | .terminator => .ok (o, rest)
    | .nameless => .error (.badSyntax argument)
    | .named name value =>
      match known.find? (·.name = name), value, rest with
      | none, _, _ => .error (unknown name)
      | some flag, some value, rest => do parseOnto known (← o.set value flag) rest
      | some .help, none, rest => do parseOnto known (← o.set "true" .help) rest
      | some flag, none, [] => .error (.missingValue flag)
      | some flag, none, value :: rest => do parseOnto known (← o.set value flag) rest

/-- **Reads the options of a command** that knows the options `known`; returns their values and the
other arguments. -/
def parse (known : List Flag) (args : List String) : Except OptionError (Options × List String) :=
  parseOnto known default args

end Options

end WasmJit
