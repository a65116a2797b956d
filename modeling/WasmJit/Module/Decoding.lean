import WasmJit.Instruction
import WasmJit.Module.Encoding
import WasmJit.Text.Utf8

/-!
# Reading modules

`Module.decode` reads the binary format, restricted to custom, type, function and code sections.
Every reader consumes bytes from the front of a list and returns what is left; a section is read
from its own content, which has to be consumed exactly.

The errors are causes, one type per level of nesting:

* `ValueType.ReadError` and `Code.ReadError`, `FunctionType.ReadError` for the entries of a section;
* `Module.ContentError` for the content of a section;
* `Module.DecodeError` for the module.

A cause that belongs to no kind of its own is malformed input once it is reported with its section.
-/

namespace WasmJit

/-! ### Value types -/

inductive ValueType.ReadError where
  /-- There are fewer bytes than types. -/
  | truncated
  /-- A known type that is not compiled. -/
  | unsupported (type : ValueType)
  /-- A byte that is no type. -/
  | invalid (type : ValueType)
deriving DecidableEq, Repr

def ValueType.ReadError.kind? : ValueType.ReadError → Option ErrorKind
  | .truncated => none
  | .unsupported _ => some .unsupportedFeature
  | .invalid _ => some .malformedInput

def ValueType.ReadError.message : ValueType.ReadError → String
  | .truncated => "unexpected EOF"
  | .unsupported t => ErrorKind.unsupportedFeature.describe ("value type " ++ t.name)
  | .invalid t =>
    ErrorKind.malformedInput.describe ("invalid value type: " ++ Numeral.hex t.byte.toNat)

/-- Accepts `i32` only. -/
def ValueType.check (t : ValueType) : Except ValueType.ReadError Unit :=
  if t = .i32 then .ok ()
  else if t.knownUnsupported then .error (.unsupported t)
  else .error (.invalid t)

/-- Reads `count` value types, all of which have to be `i32`. -/
def ValueType.readMany (count : Nat) (bytes : List UInt8) :
    Except ValueType.ReadError (List ValueType × List UInt8) :=
  if bytes.length < count then .error .truncated
  else
    let types := (bytes.take count).map ValueType.mk
    match types.forM ValueType.check with
    | .error e => .error e
    | .ok () => .ok (types, bytes.drop count)

/-! ### Signatures -/

inductive FunctionType.ReadError where
  /-- There is no byte left for the form. -/
  | formMissing
  /-- The form is another byte. -/
  | form (byte : UInt8)
  /-- The number of parameters cannot be read. -/
  | paramCount (cause : Varint.Error)
  /-- The parameters are refused. -/
  | paramTypes (cause : ValueType.ReadError)
  /-- The number of results cannot be read. -/
  | resultCount (cause : Varint.Error)
  /-- There is more than one result. -/
  | multipleResults
  /-- The result is refused. -/
  | resultTypes (cause : ValueType.ReadError)
deriving DecidableEq, Repr

def FunctionType.ReadError.kind? : FunctionType.ReadError → Option ErrorKind
  | .formMissing | .paramCount _ | .resultCount _ => none
  | .form _ => some .malformedInput
  | .paramTypes cause | .resultTypes cause => cause.kind?
  | .multipleResults => some .unsupportedFeature

def FunctionType.ReadError.message : FunctionType.ReadError → String
  | .formMissing => "read form: EOF"
  | .form b =>
    ErrorKind.malformedInput.describe
      ("invalid byte " ++ Numeral.hex b.toNat ++ " != " ++ Numeral.hex FunctionType.form.toNat)
  | .paramCount cause => "read param count: " ++ cause.message
  | .paramTypes cause => "read param types: " ++ cause.message
  | .resultCount cause => "read result count: " ++ cause.message
  | .multipleResults => ErrorKind.unsupportedFeature.describe "multiple result types"
  | .resultTypes cause => "read result types: " ++ cause.message

/-- Reads the counted parameters and the counted results of a signature. -/
def FunctionType.readLists (bytes : List UInt8) :
    Except FunctionType.ReadError (FunctionType × List UInt8) := do
  let (numParams, bytes) ← (Varint.readU32 bytes).mapError .paramCount
  let (params, bytes) ← (ValueType.readMany numParams.toNat bytes).mapError .paramTypes
  let (numResults, bytes) ← (Varint.readU32 bytes).mapError .resultCount
  if 1 < numResults then
    throw .multipleResults
  let (results, bytes) ← (ValueType.readMany numResults.toNat bytes).mapError .resultTypes
  return (⟨params, results⟩, bytes)

/-- Reads a signature with at most one result. -/
def FunctionType.read : List UInt8 → Except FunctionType.ReadError (FunctionType × List UInt8)
  | [] => .error .formMissing
  | form :: bytes =>
    if form ≠ FunctionType.form then .error (.form form) else FunctionType.readLists bytes

/-! ### Bodies -/

inductive Code.ReadError where
  /-- Its size cannot be read. -/
  | unreadableSize (cause : Varint.Error)
  /-- It is larger than what is left of the section. -/
  | tooLong (size : UInt32) (remaining : Nat)
  /-- The number of local declarations cannot be read. -/
  | declarationCount (cause : Varint.Error)
  /-- The number of locals of a declaration cannot be read. -/
  | localCount (declaration : Nat) (cause : Varint.Error)
  /-- There is no byte left for the type of a declaration. -/
  | localTypeMissing (declaration : Nat)
  /-- The type of a declaration is refused. -/
  | localType (cause : ValueType.ReadError)
  /-- There are more locals than allowed. -/
  | tooManyLocals (total : Nat)
  /-- The last byte of the body is not the `end` of the function. -/
  | unterminated
deriving DecidableEq, Repr

def Code.ReadError.kind? : Code.ReadError → Option ErrorKind
  | .localType cause => cause.kind?
  | .tooManyLocals _ => some .unsupportedFeature
  | _ => some .malformedInput

def Code.ReadError.message : Code.ReadError → String
  | .unreadableSize cause => ErrorKind.malformedInput.describe ("read code size: " ++ cause.message)
  | .tooLong size remaining =>
    ErrorKind.malformedInput.describe s!"code size {size} exceeds remaining {remaining} bytes"
  | .declarationCount cause =>
    ErrorKind.malformedInput.describe ("read local declaration count: " ++ cause.message)
  | .localCount i cause =>
    ErrorKind.malformedInput.describe
      (s!"read count of local declaration[{i}]: " ++ cause.message)
  | .localTypeMissing i =>
    ErrorKind.malformedInput.describe s!"read type of local declaration[{i}]: EOF"
  | .localType cause => "local type: " ++ cause.message
  | .tooManyLocals total =>
    ErrorKind.unsupportedFeature.describe s!"too many locals: {total}"
  | .unterminated => ErrorKind.malformedInput.describe "body does not end with end"

/-- The most locals a function may declare beyond its parameters. -/
def Code.maxLocals : Nat := 65536

/-- Reads `count` local declarations, numbered from `i` on, on top of `total` locals. -/
def Code.readLocals : (count i total : Nat) → List UInt8 →
    Except Code.ReadError (Nat × List UInt8)
  | 0, _, total, bytes => .ok (total, bytes)
  | count + 1, i, total, bytes =>
    match Varint.readU32 bytes with
    | .error e => .error (.localCount i e)
    | .ok (_, []) => .error (.localTypeMissing i)
    | .ok (n, t :: rest) =>
      match ValueType.check ⟨t⟩ with
      | .error e => .error (.localType e)
      | .ok () =>
        let total := total + n.toNat
        -- checked after each declaration, so the total stays far below the limit of its type
        if Code.maxLocals < total then .error (.tooManyLocals total)
        else Code.readLocals count (i + 1) total rest

/-- Reads the declarations and the instructions of a body, which take up all of `content`. -/
def Code.readContent (content : List UInt8) : Except Code.ReadError Code := do
  let (declarations, rest) ← (Varint.readU32 content).mapError .declarationCount
  let (total, body) ← Code.readLocals declarations.toNat 0 0 rest
  if body.getLast? ≠ some Instruction.Kind.end_.opcode then
    throw .unterminated
  return ⟨UInt32.ofNat total, body⟩

/-- Reads a body with its size. -/
def Code.read (bytes : List UInt8) : Except Code.ReadError (Code × List UInt8) := do
  let (size, bytes) ← (Varint.readU32 bytes).mapError .unreadableSize
  if bytes.length < size.toNat then
    throw (.tooLong size bytes.length)
  let code ← Code.readContent (bytes.take size.toNat)
  return (code, bytes.drop size.toNat)

namespace Module

/-! ### Contents of sections -/

inductive EntryError where
  | type (cause : FunctionType.ReadError)
  | typeIndex (cause : Varint.Error)
  | code (cause : Code.ReadError)
deriving DecidableEq, Repr

def EntryError.kind? : EntryError → Option ErrorKind
  | .type cause => cause.kind?
  | .typeIndex _ => none
  | .code cause => cause.kind?

def EntryError.message : EntryError → String
  | .type cause => cause.message
  | .typeIndex cause => cause.message
  | .code cause => cause.message

inductive ContentError where
  /-- The length of the name of a custom section cannot be read. -/
  | nameSize (cause : Varint.Error)
  /-- The name of a custom section is longer than the section. -/
  | nameTooLong (size : UInt32)
  /-- The name of a custom section is not UTF-8. -/
  | nameEncoding
  /-- The number of entries, called `what`, cannot be read. -/
  | count (what : String) (cause : Varint.Error)
  /-- An entry, called `what`, is refused. -/
  | entry (what : String) (index : Nat) (cause : EntryError)
  /-- A known section that is not read. -/
  | unsupported (id : SectionId)
  /-- A byte that starts no section. -/
  | invalidId (id : SectionId)
  /-- Only `used` of the `size` bytes belong to the section. -/
  | length (size used : Nat)
deriving DecidableEq, Repr

def ContentError.kind? : ContentError → Option ErrorKind
  | .entry _ _ cause => cause.kind?
  | .unsupported _ => some .unsupportedFeature
  | .invalidId _ => some .malformedInput
  | _ => none

def ContentError.message : ContentError → String
  | .nameSize cause => "read name size: " ++ cause.message
  | .nameTooLong size => s!"name size {size} exceeds section"
  | .nameEncoding => "name is not valid utf8"
  | .count what cause => s!"read {what} count: " ++ cause.message
  | .entry what i cause => s!"read {what}[{i}]: " ++ cause.message
  | .unsupported id => ErrorKind.unsupportedFeature.describe (id.name ++ " section")
  | .invalidId id => ErrorKind.malformedInput.describe s!"invalid section id {id.byte}"
  | .length size used => s!"invalid section length: expected to be {size} but got {used}"

/-- Checks the name of a custom section; the rest of its content is free. -/
def checkCustom (content : List UInt8) : Except ContentError Unit :=
  match Varint.readU32 content with
  | .error e => .error (.nameSize e)
  | .ok (size, rest) =>
    if rest.length < size.toNat then .error (.nameTooLong size)
    else if Utf8.valid (rest.take size.toNat) then .ok ()
    else .error .nameEncoding

/-- Reads `count` entries, called `what` and numbered from `i` on. -/
def readEntries {α : Type} (what : String)
    (read : List UInt8 → Except EntryError (α × List UInt8)) :
    (count i : Nat) → List UInt8 → Except ContentError (List α × List UInt8)
  | 0, _, bytes => .ok ([], bytes)
  | count + 1, i, bytes =>
    match read bytes with
    | .error e => .error (.entry what i e)
    | .ok (x, rest) =>
      (readEntries what read count (i + 1) rest).map fun (xs, rest) => (x :: xs, rest)

/-- Reads a content that is a counted list of entries, called `what`, and nothing else. -/
def readVector {α : Type} (what : String)
    (read : List UInt8 → Except EntryError (α × List UInt8)) (content : List UInt8) :
    Except ContentError (List α) := do
  let (count, bytes) ← (Varint.readU32 content).mapError (.count what)
  let (xs, rest) ← readEntries what read count.toNat 0 bytes
  if !rest.isEmpty then
    throw (.length content.length (content.length - rest.length))
  return xs

/-- Reads the content of a section into the module. -/
def readContent (id : SectionId) (content : List UInt8) (m : Module) :
    Except ContentError Module :=
  if id = .custom then (checkCustom content).map fun _ => m
  else if id = .type then
    (readVector "type" (fun b => (FunctionType.read b).mapError .type) content).map
      fun types => { m with types }
  else if id = .function then
    (readVector "type index" (fun b => (Varint.readU32 b).mapError .typeIndex) content).map
      fun functionTypes => { m with functionTypes }
  else if id = .code then
    (readVector "code" (fun b => (Code.read b).mapError .code) content).map
      fun code => { m with code }
  else if id.known then .error (.unsupported id)
  else .error (.invalidId id)

/-! ### Modules -/

/-- Why the bytes are no module. -/
inductive DecodeError where
  /-- They do not start with the magic number. -/
  | magic
  /-- The format version is another one. -/
  | version
  /-- The size of a section cannot be read. -/
  | sectionSize (id : SectionId) (cause : Varint.Error)
  /-- A section is larger than what is left of the module. -/
  | sectionTooLong (id : SectionId) (size : UInt32) (remaining : Nat)
  /-- A section does not come after the one before it. -/
  | sectionOrder (id : SectionId)
  /-- The content of a section is refused. -/
  | sectionContent (id : SectionId) (cause : ContentError)
  /-- The lists of the module cannot be joined. -/
  | join (cause : JoinError)
deriving DecidableEq, Repr

/-- The kind of the failure. A refused content without a kind of its own is malformed. -/
def DecodeError.kind : DecodeError → ErrorKind
  | .sectionContent _ cause => cause.kind?.getD .malformedInput
  | _ => .malformedInput

def DecodeError.message : DecodeError → String
  | .magic => ErrorKind.malformedInput.describe "invalid magic number"
  | .version => ErrorKind.malformedInput.describe "invalid version header"
  | .sectionSize id cause =>
    ErrorKind.malformedInput.describe ("get size of section " ++ id.name ++ ": " ++ cause.message)
  | .sectionTooLong id size remaining =>
    ErrorKind.malformedInput.describe
      ("section " ++ id.name ++ s!" size {size} exceeds remaining {remaining} bytes")
  | .sectionOrder id =>
    ErrorKind.malformedInput.describe ("section " ++ id.name ++ " is out of order or duplicated")
  | .sectionContent id cause =>
    let text := "section " ++ id.name ++ ": " ++ cause.message
    if cause.kind?.isSome then text else ErrorKind.malformedInput.describe text
  | .join cause => cause.message

/-- Reads one section after its byte `id`: its size and its content. Sections other than custom ones
have to come in ascending order, after the section `last`. -/
def readSection (id last : SectionId) (bytes : List UInt8) (m : Module) :
    Except DecodeError (Module × List UInt8) := do
  let (size, bytes) ← (Varint.readU32 bytes).mapError (.sectionSize id)
  if bytes.length < size.toNat then
    throw (.sectionTooLong id size bytes.length)
  -- the order is checked before the content, also for sections that are not supported
  if id ≠ .custom ∧ id.byte ≤ last.byte then
    throw (.sectionOrder id)
  let m ← (readContent id (bytes.take size.toNat) m).mapError (.sectionContent id)
  return (m, bytes.drop size.toNat)

/-- Reads at most `fuel` sections into the module, the last of which, custom ones apart, was
`last`. -/
def readSections : (fuel : Nat) → (last : SectionId) → Module → List UInt8 →
    Except DecodeError Module
  | _, _, m, [] => .ok m
  | 0, _, m, _ => .ok m
  | fuel + 1, last, m, id :: bytes =>
    match readSection ⟨id⟩ last bytes m with
    | .error e => .error e
    | .ok (m, rest) => readSections fuel (if id = SectionId.custom.byte then last else ⟨id⟩) m rest

/-- **Reads a module.** A section spans at least two bytes, so there are never more sections than
bytes. -/
def decode (bytes : List UInt8) : Except DecodeError Module := do
  if bytes.take 4 ≠ magic then
    throw .magic
  if (bytes.drop 4).take 4 ≠ version then
    throw .version
  let m ← readSections bytes.length .custom .empty (bytes.drop 8)
  let _ ← m.functions.mapError .join
  return m

end Module

end WasmJit
