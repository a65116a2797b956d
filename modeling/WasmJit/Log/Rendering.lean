import WasmJit.Log
import WasmJit.Text.Numeral

/-!
# Written log entries

A `Logger` writes the entries that are important enough, one per line, for readers (`console`) or
for programs (`json`). The time of an entry is not part of it: the writer supplies it as a
`Stamp`.
-/

namespace WasmJit.Log

/-- The shapes of log lines. -/
inductive Format where
  | console | json
deriving DecidableEq, Repr

/-- The time of an entry, as each format writes it. -/
structure Stamp where
  console : String
  json : String
deriving DecidableEq, Repr

/-- A character inside a string literal: only the quotation mark, the backslash and control
characters are escaped. -/
def escape (c : Char) : String :=
  match c with
  | '"' => "\\\""
  | '\\' => "\\\\"
  | '\n' => "\\n"
  | '\r' => "\\r"
  | '\t' => "\\t"
  | c => if c.toNat < 0x20 then "\\u" ++ Numeral.hexPadded 4 c.toNat else c.toString

/-- A string literal. -/
def literal (s : String) : String :=
  "\"" ++ String.join (s.toList.map escape) ++ "\""

/-- The value of a field, written. -/
def Datum.render : Datum → String
  | .int i => toString i
  | .bool true => "true"
  | .bool false => "false"
  | .text s => literal s

/-- Fields between braces, with the given texts after each name and between fields. -/
def object (colon comma : String) (fields : List (String × String)) : String :=
  "\x7b" ++ comma.intercalate (fields.map fun (name, value) => literal name ++ colon ++ value)
    ++ "\x7d"

namespace Entry

/-- The fields with their values written. -/
def written (e : Entry) : List (String × String) :=
  e.fields.map fun (name, d) => (name, d.render)

/-- The line for readers: time, level and message, then the fields, if any. -/
def console (time : String) (e : Entry) : String :=
  let context := if e.fields.isEmpty then [] else [object ": " ", " e.written]
  "\t".intercalate ([time, e.level.name.toUpper, e.message] ++ context) ++ "\n"

/-- The line for programs: one object, which also holds level, time and message. -/
def json (time : String) (e : Entry) : String :=
  object ":" ","
    ([("level", literal e.level.name), ("ts", time), ("msg", literal e.message)] ++ e.written)
    ++ "\n"

/-- The line of an entry. -/
def render (stamp : Stamp) (e : Entry) : Format → String
  | .console => e.console stamp.console
  | .json => e.json stamp.json

end Entry

/-- What is written, and how. -/
structure Logger where
  level : Level
  format : Format
deriving DecidableEq, Repr

/-- **The lines of the entries that are important enough**, in order. -/
def Logger.write (l : Logger) (stamp : Stamp) (entries : List Entry) : String :=
  String.join ((entries.filter (l.level.enabled ·.level)).map (·.render stamp l.format))

end WasmJit.Log
