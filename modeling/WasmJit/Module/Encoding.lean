import WasmJit.Module
import WasmJit.Module.Section
import WasmJit.Varint

/-!
# Writing modules

`Module.encode` writes a module in the binary format: the header, then a section for each of its
lists that is not empty. Nothing is checked, and lengths are written modulo `2 ^ 32`.
-/

namespace WasmJit

/-- The four bytes every module starts with. -/
def Module.magic : List UInt8 := [0x00, 0x61, 0x73, 0x6d]

/-- The format version, which follows the magic number. -/
def Module.version : List UInt8 := [0x01, 0x00, 0x00, 0x00]

/-- The byte every signature starts with. -/
def FunctionType.form : UInt8 := 0x60

/-- A counted list of value types. -/
def FunctionType.encodeTypes (ts : List ValueType) : List UInt8 :=
  Varint.encodeLength ts.length ++ ts.map ValueType.byte

/-- A signature: its form, its parameters, its results. -/
def FunctionType.encode (t : FunctionType) : List UInt8 :=
  FunctionType.form :: (FunctionType.encodeTypes t.params ++ FunctionType.encodeTypes t.results)

/-- The declarations of `n` locals, all in one declaration of type `i32`. -/
def Code.encodeLocals (n : UInt32) : List UInt8 :=
  if n = 0 then [0] else 1 :: (Varint.encodeU32 n ++ [ValueType.i32.byte])

/-- A body preceded by its locals and by their common size. -/
def Code.encode (c : Code) : List UInt8 :=
  let content := Code.encodeLocals c.numLocals ++ c.body
  Varint.encodeLength content.length ++ content

namespace Module

/-- A section: what it holds, the size of its content, its content. -/
def encodeSection (id : SectionId) (content : List UInt8) : List UInt8 :=
  id.byte :: (Varint.encodeLength content.length ++ content)

/-- The content of a section that is a counted list. -/
def encodeVector {α : Type} (encode : α → List UInt8) (xs : List α) : List UInt8 :=
  Varint.encodeLength xs.length ++ xs.flatMap encode

/-- The section of the signatures. -/
def encodeTypeSection (types : List FunctionType) : List UInt8 :=
  encodeSection .type (encodeVector FunctionType.encode types)

/-- The section of the signature indices. -/
def encodeFunctionSection (indices : List UInt32) : List UInt8 :=
  encodeSection .function (encodeVector Varint.encodeU32 indices)

/-- The section of the bodies. -/
def encodeCodeSection (code : List Code) : List UInt8 :=
  encodeSection .code (encodeVector Code.encode code)

/-- A section that is left out when its list is empty. -/
def encodeNonempty {α : Type} (encode : List α → List UInt8) (xs : List α) : List UInt8 :=
  if xs.isEmpty then [] else encode xs

/-- **The module in the binary format.** -/
def encode (m : Module) : List UInt8 :=
  magic ++ version ++ encodeNonempty encodeTypeSection m.types
    ++ encodeNonempty encodeFunctionSection m.functionTypes
    ++ encodeNonempty encodeCodeSection m.code

end Module

end WasmJit
