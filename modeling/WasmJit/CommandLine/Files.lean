/-!
# Files

Why a file cannot be read, and what a path leads to. A path is followed name by name: every name but
the last has to lead to a directory, `.` and an empty name stay there, and `..` goes back.

* `Directory.read` gives the contents of the file a path leads to.
-/

namespace WasmJit

/-- Why a file cannot be read. -/
inductive FileError where
  | notFound
  | isDirectory
  /-- The path goes on behind a file. -/
  | notDirectory
  /-- The path or a name in it is too long. -/
  | nameTooLong
  /-- The text is no path. -/
  | invalidPath
  | other (reason : String)
deriving DecidableEq, Repr

def FileError.message (path : String) : FileError → String
  | .notFound => s!"open {path}: no such file or directory"
  | .isDirectory => s!"read {path}: is a directory"
  | .notDirectory => s!"open {path}: not a directory"
  | .nameTooLong => s!"open {path}: file name too long"
  | .invalidPath => s!"open {path}: invalid argument"
  | .other reason => s!"open {path}: {reason}"

abbrev Content := Except FileError (List UInt8)

/-- What stands at a place in a directory. -/
inductive Entry where
  | file (bytes : List UInt8)
  | directory
deriving DecidableEq, Repr

/-- A directory with all that is in it, by the names that lead there. -/
structure Directory where
  entries : List (List String × Entry)
deriving DecidableEq, Repr

namespace Directory

/-- The directory in which nothing can be found. -/
def empty : Directory := ⟨[]⟩

/-- The names in a path. -/
def components (path : String) : List String :=
  path.splitOn "/"

/-- Whether a name in a path stays where it is. -/
def stays (name : String) : Bool :=
  name.isEmpty || name = "."

/-- What the file at a path adds to a directory: the directories that lead to it, and the file. A
path that ends in a slash is the one of a directory. -/
def entriesOf (path : String) (bytes : List UInt8) : List (List String × Entry) :=
  let names := (components path).filter (!stays ·)
  let parents := (List.range (names.length - 1)).map fun i => (names.take (i + 1), Entry.directory)
  parents ++ [(names, if path.endsWith "/" then .directory else .file bytes)]

def ofFiles (files : List (String × List UInt8)) : Directory :=
  ⟨files.flatMap fun (path, bytes) => entriesOf path bytes⟩

/-- What names lead to; none lead to the directory itself. -/
def find? (d : Directory) (names : List String) : Option Entry :=
  if names.isEmpty then some .directory else d.entries.lookup names

/-- The longest name, in bytes. -/
def longestName : Nat := 255

/-- The longest path, in bytes. -/
def longestPath : Nat := 4095

/-- Follows a name from the place `here` in a directory that lies in `outer`. -/
def follow (outer : Directory) : Directory × List String → String →
    Except FileError (Directory × List String)
  | (d, here), name =>
    if d.find? here ≠ some .directory then .error .notDirectory
    else if stays name then .ok (d, here)
    else if name = ".." then .ok (if here.isEmpty then (outer, []) else (d, here.dropLast))
    else if longestName < name.utf8ByteSize then .error .nameTooLong
    else if (d.find? (here ++ [name])).isNone then .error .notFound
    else .ok (d, here ++ [name])

/-- **The contents of the file a path leads to**, from the directory `working` or, if the path
starts with a slash, from `root`. Outside of `working` its surroundings have no names. -/
def read (working root : Directory) (path : String) : Content :=
  if path.toList.contains '\x00' then .error .invalidPath
  else if path.isEmpty then .error .notFound
  else if longestPath < path.utf8ByteSize then .error .nameTooLong
  else do
    let (start, outer) := if path.startsWith "/" then (root, root) else (working, empty)
    let (d, here) ← (components path).foldlM (follow outer) (start, [])
    match d.find? here with
    | some (.file bytes) => return bytes
    | some .directory => throw .isDirectory
    | none => throw .notFound

end Directory

end WasmJit
