/-!
# TOML statements

A configuration file is a list of statements. `Toml.Statement` is what the grammar sees of them,
before anything is said about what the keys mean together.
-/

namespace WasmJit.Toml

/-- The place of a value: the names that lead to it from the top. -/
abbrev Path := List String

/-- A key as it is written: the tables it passes through and the name in the last one. -/
structure Key where
  parents : List String
  name : String
deriving DecidableEq, Repr

/-- The path of a key, seen from where it is written. -/
def Key.path (k : Key) : Path :=
  k.parents ++ [k.name]

/-- A value as it is written. -/
inductive Expr where
  | string (s : String)
  | integer (i : Int)
  /-- A numeral with a fraction or an exponent, as written. -/
  | float (numeral : String)
  | boolean (b : Bool)
  /-- A date or a time, as written. -/
  | moment (text : String)
  | array (elements : List Expr)
  /-- A table in one value. -/
  | table (entries : List (Key × Expr))
deriving Repr

def Expr.isArray : Expr → Bool
  | .array _ => true
  | _ => false

inductive Statement where
  /-- The following keys belong to this table. -/
  | table (key : Key)
  /-- The following keys belong to a new element of this array of tables. -/
  | element (key : Key)
  /-- A key gets a value. -/
  | assign (key : Key) (value : Expr)
deriving Repr

/-- Whether the character may stand in a name without quotation marks. -/
def isBare (c : Char) : Bool :=
  c.isAlphanum || c = '_' || c = '-'

end WasmJit.Toml
