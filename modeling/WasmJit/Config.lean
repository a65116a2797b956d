import WasmJit.Log.Rendering
import WasmJit.Text.Quoted
import WasmJit.Toml.Document

/-!
# Configuration

The optional configuration file says what is logged and how:

    [log]
    level = "debug"
    format = "json"

Names match in either case. `Config.parse` reads a file over the defaults and refuses settings it
does not know; `Config.logger` checks that level and format exist.
-/

namespace WasmJit

namespace Log

/-- The lower case of a character, as far as it is an ASCII letter. Outside ASCII that concerns two
characters: the dotted capital I and the Kelvin sign. -/
def lower (c : Char) : Char :=
  if c = '\u0130' then 'i' else if c = '\u212a' then 'k' else c.toLower

/-- The levels by name; an empty name is the default. -/
def levels : List (String × Level) :=
  [("debug", .debug), ("info", .info), ("", .info), ("warn", .warn), ("warning", .warn),
    ("error", .error), ("dpanic", .dpanic), ("panic", .panic), ("fatal", .fatal)]

/-- The level of a name, in either case. -/
def Level.ofName? (name : String) : Option Level :=
  levels.lookup (String.ofList (name.toList.map lower))

/-- The format of a name. -/
def Format.ofName? : String → Option Format
  | "console" => some .console
  | "json" => some .json
  | _ => none

end Log

/-- The settings as they are written. -/
structure Config where
  level : String
  format : String
deriving DecidableEq, Repr

namespace Config

/-- The settings without a file. -/
def default : Config := ⟨"info", "console"⟩

inductive Error where
  /-- It is no document, or a setting has a value of the wrong type. -/
  | malformed
  /-- It holds paths that are no settings. -/
  | unknown (paths : List Toml.Path)
deriving DecidableEq, Repr

def Error.message : Error → String
  | .malformed => "toml error"
  | .unknown paths => "unknown keys [" ++ " ".intercalate (paths.map Toml.pathText) ++ "]"

/-- Whether two names are the same in either case. -/
def sameName (a b : String) : Bool :=
  a.toLower = b.toLower

/-- Whether a path is the table of settings or a setting. -/
def isKnown : Toml.Path → Bool
  | [table] => sameName table "log"
  | [table, name] => sameName table "log" && (sameName name "level" || sameName name "format")
  | _ => false

/-- Takes over what one path of the document holds, if it is a setting. -/
def apply (c : Config) : Toml.Path × Toml.Node → Except Error Config
  | (path, node) =>
    if !isKnown path then .ok c
    else
      match path, node with
      | [_], .table => .ok c
      | [_, name], .value (.string s) =>
        .ok (if sameName name "level" then { c with level := s } else { c with format := s })
      | _, _ => .error .malformed

/-- The paths the document mentions without holding a setting there, in the order in which they were
written. A setting that was replaced later counts among them. -/
def unused (d : Toml.Document) : List Toml.Path :=
  d.keys.filter fun path => !(isKnown path && (d.find? path).isSome)

/-- **Reads a configuration file** over the defaults. -/
def parse (bytes : List UInt8) : Except Error Config :=
  match Toml.Document.parse bytes with
  | none => .error .malformed
  | some d => do
    let c ← d.nodes.foldlM apply default
    match unused d with
    | [] => return c
    | unknown => throw (.unknown unknown)

inductive SettingError where
  | level (name : String)
  | format (name : String)
deriving DecidableEq, Repr

def SettingError.message : SettingError → String
  | .level name => "unrecognized level: " ++ Quoted.quote name
  | .format name => "invalid log format " ++ Quoted.quote name

/-- **The logger of the settings.** -/
def logger (c : Config) : Except SettingError Log.Logger :=
  match Log.Level.ofName? c.level, Log.Format.ofName? c.format with
  | none, _ => .error (.level c.level)
  | _, none => .error (.format c.format)
  | some level, some format => .ok ⟨level, format⟩

end Config

end WasmJit
