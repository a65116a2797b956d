/-!
# Log entries

What the compiler and the command line report about their work: a level, a message and named fields.
How entries are written is a matter of the reporting side.
-/

namespace WasmJit.Log

/-- How important an entry is, in ascending order. -/
inductive Level where
  | debug | info | warn | error | dpanic | panic | fatal
deriving DecidableEq, Repr

namespace Level

/-- The position in the order. -/
def rank : Level → Nat
  | .debug => 0
  | .info => 1
  | .warn => 2
  | .error => 3
  | .dpanic => 4
  | .panic => 5
  | .fatal => 6

/-- The name in lower case. -/
def name : Level → String
  | .debug => "debug"
  | .info => "info"
  | .warn => "warn"
  | .error => "error"
  | .dpanic => "dpanic"
  | .panic => "panic"
  | .fatal => "fatal"

/-- Whether entries of level `l` are written when `least` is the least important level wanted. -/
def enabled (least l : Level) : Bool :=
  least.rank ≤ l.rank

end Level

/-- The value of a field. -/
inductive Datum where
  | int (i : Int)
  | bool (b : Bool)
  | text (s : String)
deriving DecidableEq, Repr

/-- A log entry; its fields keep their order. -/
structure Entry where
  level : Level
  message : String
  fields : List (String × Datum)
deriving DecidableEq, Repr

namespace Entry

/-- An entry of the least important level. -/
def debug (message : String) (fields : List (String × Datum)) : Entry :=
  ⟨.debug, message, fields⟩

/-- The entry with a field in front. -/
def withField (name : String) (d : Datum) (e : Entry) : Entry :=
  { e with fields := (name, d) :: e.fields }

end Entry

/-- A field that is a natural number. -/
def nat (name : String) (n : Nat) : String × Datum :=
  (name, .int n)

/-- A field that is a text. -/
def text (name s : String) : String × Datum :=
  (name, .text s)

end WasmJit.Log
