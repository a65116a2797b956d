/-!
# Sections of the binary format

A section starts with a byte that says what it holds. Custom, type, function and code sections are
read; the other known ones are named so that they can be reported as unsupported.
-/

namespace WasmJit

/-- What a section holds, by its byte. -/
structure SectionId where
  byte : UInt8
deriving DecidableEq, Repr

namespace SectionId

def custom : SectionId := ⟨0⟩
def type : SectionId := ⟨1⟩
def function : SectionId := ⟨3⟩
def code : SectionId := ⟨10⟩

/-- The names of the known sections, by their bytes from zero on. -/
def names : List String :=
  ["custom", "type", "import", "function", "table", "memory", "global", "export", "start",
    "element", "code", "data", "data_count"]

/-- The name of the section, or its number if it has none. -/
def name (s : SectionId) : String :=
  match names[s.byte.toNat]? with
  | some n => n
  | none => s!"unknown({s.byte})"

/-- Whether the section is one of the known ones. -/
def known (s : SectionId) : Bool :=
  s.byte.toNat < names.length

end SectionId

end WasmJit
