import WasmJit.Text.Numeral
import WasmJit.Toml.Reading

/-!
# TOML documents

What the statements of a configuration file mean together: which paths hold tables and values
(`Document.nodes`), and the paths in the order in which they were written (`Document.keys`).

A path may be defined once. A table that exists only because a longer key passes through it is
*implied*, and what is implied may still be defined, once. Defining it keeps what it holds, unless
it is noted as an array: then the definition takes the place of the array.
-/

namespace WasmJit.Toml

/-- What a path holds. -/
inductive Node where
  | table
  /-- An array of tables; longer paths lead into its last element. -/
  | tables
  | value (e : Expr)
deriving Repr

/-- Whether longer paths may lead through the node. -/
def Node.isTable : Node → Bool
  | .value _ => false
  | _ => true

/-- What paths hold. -/
abbrev Nodes := List (Path × Node)

namespace Nodes

/-- One node at the place the paths start from. -/
def single (n : Node) : Nodes := [([], n)]

/-- What a path holds. -/
def find? (ns : Nodes) (path : Path) : Option Node :=
  ns.lookup path

/-- Lets a path hold `content`, whose paths start there, and forgets what was there. -/
def put (ns : Nodes) (path : Path) (content : Nodes) : Nodes :=
  ns.filter (fun p => !path.isPrefixOf p.1) ++ content.map fun (p, n) => (path ++ p, n)

/-- The paths of the tables that lead to a name behind `parents`, the outermost first. -/
def leading (parents : Path) : List Path :=
  (List.range parents.length).map fun i => parents.take (i + 1)

def isTable (ns : Nodes) (path : Path) : Bool :=
  ((ns.find? path).map Node.isTable).getD false

/-- Puts `content` at the place of a key. Tables it passes through are made where nothing is. -/
def insert? (ns : Nodes) (key : Key) (content : Nodes) : Option Nodes := do
  let ns ← (leading key.parents).foldlM (fun (ns : Nodes) parent =>
    match ns.find? parent with
    | none => some (ns.put parent (single .table))
    | some n => if n.isTable then some ns else none) ns
  return ns.put key.path content

end Nodes

/-- The meaning of the statements read so far. -/
structure Document where
  nodes : Nodes
  /-- Paths that may still be defined. -/
  implied : List Path
  /-- Paths that are noted as arrays. -/
  arrays : List Path
  /-- The paths of headers and assignments, as written. -/
  keys : List Path
deriving Repr

namespace Document

def empty : Document := ⟨[], [], [], []⟩

/-- What a path holds. -/
def find? (d : Document) (path : Path) : Option Node :=
  d.nodes.find? path

/-- Lets a path hold `content`. -/
def put (d : Document) (path : Path) (content : Nodes) : Document :=
  { d with nodes := d.nodes.put path content }

/-- Marks a path as implied. -/
def imply (d : Document) (path : Path) : Document :=
  { d with implied := path :: d.implied }

/-- Marks a path as defined. -/
def settle (d : Document) (path : Path) : Document :=
  { d with implied := d.implied.filter (· ≠ path) }

/-- Notes whether a path holds an array. -/
def setArray (d : Document) (path : Path) (isArray : Bool) : Document :=
  { d with arrays := if isArray then path :: d.arrays else d.arrays.filter (· ≠ path) }

/-- Where a note about a name is kept. One about the empty name in a table is kept at the table. -/
def notePath (context : Path) (name : String) : Path :=
  if name.isEmpty && !context.isEmpty then context else context ++ [name]

/-- Notes that a path was written. -/
def mention (d : Document) (path : Path) : Document :=
  { d with keys := d.keys ++ [path] }

/-- **Defines a name in a table**, if it is free or implied. What is implied is settled by that, and
keeps what it holds unless it is noted as an array. -/
def define (d : Document) (context : Path) (name : String) (content : Nodes) : Option Document :=
  let path := context ++ [name]
  if !(Nodes.leading context).all d.nodes.isTable then none
  else if (d.find? path).isNone then some (d.put path content)
  else if path ∉ d.implied then none
  else if path ∈ d.arrays then some ((d.settle path).put path content)
  else some (d.settle path)

/-- Makes a path lead through tables; those that do not exist are implied. -/
def passThrough (d : Document) (path : Path) : Option Document :=
  (Nodes.leading path).foldlM (fun d parent =>
    match d.find? parent with
    | none => some ((d.imply parent).put parent (.single .table))
    | some n => if n.isTable then some d else none) d

/-- Opens the table of a name: a new element if `element`, else the table itself. -/
def enter (d : Document) (context : Path) (name : String) (element : Bool) : Option Document := do
  let d ← d.passThrough context
  let path := context ++ [name]
  if element then
    match d.find? path with
    | none | some .tables => return d.put path (.single .tables)
    | _ => none
  else d.define context name (.single .table)

/-- Opens the tables a dotted key passes through; returns the path of the last one. -/
def descend (d : Document) (context : Path) : List String → Option (Document × Path)
  | [] => some (d, context)
  | name :: names => do
    let path := context ++ [name]
    let d ← (d.imply path).enter context name false
    d.descend path names

/-- Gives a key a value in a table; `value` evaluates it in the table the key leads to. Returns what
the key holds by that. -/
def assignBy (d : Document) (context : Path) (key : Key) (isArray : Bool)
    (value : Document → Path → Option (Document × Nodes)) : Option (Document × Nodes) := do
  let (d, context) ← d.descend context key.parents
  let (d, content) ← value (d.mention (context ++ [key.name])) context
  let d ← d.define context key.name content
  return (d.setArray (notePath context key.name) isArray, content)

mutual

/-- Evaluates the value of a name: tables inside it are opened and filled. -/
def evaluate (d : Document) (context : Path) (name : String) (element : Bool) :
    Expr → Option (Document × Nodes)
  | .array es => do
    let d ← evaluateAll (d.setArray (notePath context name) true) context name es
    return (d, .single (.value (.array es)))
  | .table entries => do
    let path := context ++ [name]
    let d ← (d.imply path).enter context name element
    assignAll d path (.single .table) entries
  | e => some (d, .single (.value e))

/-- Evaluates the elements of an array. -/
def evaluateAll (d : Document) (context : Path) (name : String) : List Expr → Option Document
  | [] => some d
  | e :: es => do
    let (d, _) ← evaluate d context name true e
    evaluateAll d context name es

/-- Assigns the entries of a table that is one value and collects what they hold. -/
def assignAll (d : Document) (context : Path) (content : Nodes) :
    List (Key × Expr) → Option (Document × Nodes)
  | [] => some (d, content)
  | (key, e) :: entries => do
    let (d, held) ← d.assignBy context key e.isArray fun d path => evaluate d path key.name false e
    assignAll d context (← content.insert? key held) entries

end

/-- Gives a key a value in a table. -/
def assign (d : Document) (context : Path) (key : Key) (e : Expr) : Option Document := do
  let (d, _) ← d.assignBy context key e.isArray fun d path => d.evaluate path key.name false e
  return d

/-- Adds statements to a document; keys belong to the table at `context`. -/
def extend (d : Document) (context : Path) : List Statement → Option Document
  | [] => some d
  | .assign key e :: ss => do
    let d ← d.assign context key e
    d.extend context ss
  | .table key :: ss => do
    let d ← d.enter key.parents key.name false
    ((d.setArray key.path false).mention key.path).extend key.path ss
  | .element key :: ss => do
    let d ← d.enter key.parents key.name true
    ((d.setArray key.path false).mention key.path).extend key.path ss

/-- **The document of a configuration file**, if there is one. -/
def parse (bytes : List UInt8) : Option Document := do
  empty.extend [] (← readText bytes)

end Document

/-! ### Written paths -/

/-- A character of a name between quotation marks. -/
def escapeInName (c : Char) : String :=
  match [('"', "\\\""), ('\\', "\\\\"), ('\x08', "\\b"), ('\t', "\\t"), ('\n', "\\n"),
    ('\x0c', "\\f"), ('\r', "\\r")].lookup c with
  | some s => s
  | none =>
    if c.toNat < 0x20 || c.toNat = 0x7f then "\\u" ++ Numeral.hexPadded 4 c.toNat else c.toString

/-- A name in a path: bare if it can be. -/
def nameText (name : String) : String :=
  if !name.isEmpty && name.toList.all isBare then name
  else "\"" ++ String.join (name.toList.map escapeInName) ++ "\""

/-- A path as it is written. -/
def pathText (path : Path) : String :=
  ".".intercalate (path.map nameText)

end WasmJit.Toml
