import WasmJit.Text.Numeral

/-!
# Value types and signatures

A value type is one byte. Only `i32` is compiled; the other three numeric types are known by name so
that they can be reported as unsupported rather than malformed. A signature lists the types of the
parameters and of the results.
-/

namespace WasmJit

/-- A value type, by the byte that encodes it. -/
structure ValueType where
  byte : UInt8
deriving DecidableEq, Repr

namespace ValueType

def i32 : ValueType := ⟨0x7f⟩
def i64 : ValueType := ⟨0x7e⟩
def f32 : ValueType := ⟨0x7d⟩
def f64 : ValueType := ⟨0x7c⟩

/-- The keyword of the type, or its byte if it has none. -/
def name (t : ValueType) : String :=
  if t = i32 then "i32"
  else if t = i64 then "i64"
  else if t = f32 then "f32"
  else if t = f64 then "f64"
  else "unknown(" ++ Numeral.hex t.byte.toNat ++ ")"

/-- Whether the type is known without being compiled. -/
def knownUnsupported (t : ValueType) : Bool :=
  t = i64 || t = f32 || t = f64

end ValueType

structure FunctionType where
  params : List ValueType
  results : List ValueType
deriving DecidableEq, Repr

namespace FunctionType

/-- The names of a list of types, separated by commas. -/
def names (ts : List ValueType) : String :=
  ", ".intercalate (ts.map ValueType.name)

/-- The signature in text, for instance `(i32, i32) -> (i32)`. -/
def text (t : FunctionType) : String :=
  "(" ++ names t.params ++ ") -> (" ++ names t.results ++ ")"

/-- The one signature that can be executed with two arguments: `(i32, i32) -> (i32)`. -/
def binary : FunctionType :=
  ⟨[.i32, .i32], [.i32]⟩

end FunctionType

end WasmJit
