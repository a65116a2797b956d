/-!
# Kinds of failure

Every failure a caller may want to tell apart belongs to one `ErrorKind`. A failure of no kind is
an internal one: it reports a broken invariant of the compiler itself, or a text that only makes
sense inside a larger message. Each error type of the library has a function `kind?` into
`Option ErrorKind` beside its `message`.
-/

namespace WasmJit

/-- The kinds of failure callers distinguish. -/
inductive ErrorKind where
  /-- The framing, the lengths or the nesting of the input are inconsistent. -/
  | malformedInput
  /-- A section or a type outside the supported surface. -/
  | unsupportedFeature
  /-- An instruction outside the supported set. -/
  | unsupportedOpcode
  /-- An instruction or a construct needs more operands than there are. -/
  | stackUnderflow
  /-- A function index at or beyond the number of functions. -/
  | invalidFunctionIndex
  /-- A function called with a signature it does not have. -/
  | signatureMismatch
  /-- The program reached an `unreachable` instruction. -/
  | unreachable
  /-- The module was closed before the call. -/
  | moduleClosed
deriving DecidableEq, Repr

/-- The phrase that stands for the kind at the head of a message. -/
def ErrorKind.phrase : ErrorKind → String
  | .malformedInput => "malformed input"
  | .unsupportedFeature => "unsupported feature"
  | .unsupportedOpcode => "unsupported opcode"
  | .stackUnderflow => "stack underflow"
  | .invalidFunctionIndex => "invalid function index"
  | .signatureMismatch => "signature mismatch"
  | .unreachable => "unreachable"
  | .moduleClosed => "module closed"

/-- A message that opens with the phrase of its kind. -/
def ErrorKind.describe (k : ErrorKind) (details : String) : String :=
  k.phrase ++ ": " ++ details

end WasmJit
