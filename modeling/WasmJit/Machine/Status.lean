import WasmJit.ErrorKind

/-!
# Status of a call

Compiled code reports how it ended by a byte of the call record.
-/

namespace WasmJit

/-- How compiled code ended, by the byte it stores. -/
structure Status where
  code : UInt8
deriving DecidableEq, Repr

namespace Status

/-- The end of the function was reached. -/
def returned : Status := ⟨0⟩

/-- An `unreachable` instruction was reached. -/
def unreachable : Status := ⟨1⟩

/-- The status in text. -/
def name (s : Status) : String :=
  if s = returned then "returned"
  else if s = unreachable then "unreachable"
  else s!"unknown({s.code})"

/-- The text of the fault that a status other than `returned` stands for. -/
def fault (s : Status) : String :=
  if s = unreachable then ErrorKind.unreachable.phrase else "BUG: unknown status " ++ s.name

end Status

end WasmJit
