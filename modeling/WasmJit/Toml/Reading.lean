import WasmJit.Toml.Moment
import WasmJit.Toml.Number
import WasmJit.Toml.Strings

/-!
# Reading TOML

The grammar of configuration files. Every reader takes the characters in front of it and returns
what it read and what is left, or `none` if the text does not follow the grammar. Readers of
nested values take a bound on the number of their steps; the length of the text bounds it, because
every round reads at least one character.
-/

namespace WasmJit.Toml

/-! ### Blanks -/

/-- What follows the blanks. -/
def skipBlanks (cs : List Char) : List Char :=
  cs.dropWhile isBlank

/-- What follows blanks, line breaks and comments. The flag says whether a comment is being read. -/
def skipLines : Bool → List Char → List Char
  | _, [] => []
  | comment, c :: cs =>
    if isBreak c then skipLines false cs
    else if comment || isBlank c then skipLines comment cs
    else if c = '#' then skipLines true cs
    else c :: cs

/-- What follows a statement on its line: blanks, a comment, and the end of the line or the text. -/
def finishLine (cs : List Char) : Option (List Char) :=
  match skipBlanks cs with
  | [] => some []
  | c :: cs => if c = '#' || isBreak c then some (skipLines (c = '#') cs) else none

/-! ### Keys -/

/-- Reads a name: between quotation marks, or bare and then not empty. -/
def readName : List Char → Option (String × List Char)
  | '"' :: cs => (readBasic .none cs).map fun (name, rest) => (String.ofList name, rest)
  | '\'' :: cs => (readLiteral cs).map fun (name, rest) => (String.ofList name, rest)
  | cs =>
    let name := cs.takeWhile isBare
    if name.isEmpty then none else some (String.ofList name, cs.dropWhile isBare)

/-- Reads a key and the blanks around its parts, after the names in `parents`. -/
def readKeyAfter : Nat → List String → List Char → Option (Key × List Char)
  | 0, _, _ => none
  | bound + 1, parents, cs => do
    let (name, rest) ← readName (skipBlanks cs)
    match skipBlanks rest with
    | '.' :: rest => readKeyAfter bound (parents ++ [name]) rest
    | rest => return (⟨parents, name⟩, rest)

/-- **Reads a key.** -/
def readKey (cs : List Char) : Option (Key × List Char) :=
  readKeyAfter (cs.length + 1) [] cs

/-! ### Values -/

/-- Whether the character may stand in a number or a truth value. -/
def isWord (c : Char) : Bool :=
  isBare c || c = '+' || c = '.'

/-- The value of a word. -/
def word? (cs : List Char) : Option Expr :=
  if cs = "true".toList then some (.boolean true)
  else if cs = "false".toList then some (.boolean false)
  else
    match Number.integer? cs with
    | some i => some (.integer i)
    | none => if Number.isFloat cs then some (.float (String.ofList cs)) else none

/-- Reads a value that is neither between quotation marks nor in brackets. -/
def readScalar (cs : List Char) : Option (Expr × List Char) :=
  if Moment.starts cs then
    (Moment.read cs).map fun (written, rest) => (.moment (String.ofList written), rest)
  else (word? (cs.takeWhile isWord)).map fun e => (e, cs.dropWhile isWord)

/-- What a comma after an element or the closing bracket `close` leaves to read, and whether the
bracket was reached. -/
def readSeparator (close : Char) (cs : List Char) : Option (Bool × List Char) :=
  match skipLines false cs with
  | [] => none
  | c :: cs =>
    if c = close then some (true, cs) else if c = ',' then some (false, cs) else none

mutual

def readValue : Nat → List Char → Option (Expr × List Char)
  | 0, _ => none
  | bound + 1, cs =>
    match readString? cs with
    | some found => found.map fun (text, rest) => (.string (String.ofList text), rest)
    | none =>
      match cs with
      | '[' :: cs => (readElements bound cs).map fun (es, rest) => (.array es, rest)
      | '\x7b' :: cs => (readEntries bound cs).map fun (es, rest) => (.table es, rest)
      | cs => readScalar cs

/-- Reads the elements of an array up to its closing bracket. -/
def readElements : Nat → List Char → Option (List Expr × List Char)
  | 0, _ => none
  | bound + 1, cs =>
    match skipLines false cs with
    | ']' :: rest => some ([], rest)
    | cs => do
      let (e, rest) ← readValue bound cs
      let (closed, rest) ← readSeparator ']' rest
      if closed then return ([e], rest)
      let (es, rest) ← readElements bound rest
      return (e :: es, rest)

/-- Reads the entries of a table in one value up to its closing brace. -/
def readEntries : Nat → List Char → Option (List (Key × Expr) × List Char)
  | 0, _ => none
  | bound + 1, cs =>
    match skipLines false cs with
    | '\x7d' :: rest => some ([], rest)
    | cs => do
      let (entry, rest) ← readAssignment bound cs
      let (closed, rest) ← readSeparator '\x7d' rest
      if closed then return ([entry], rest)
      let (entries, rest) ← readEntries bound rest
      return (entry :: entries, rest)

/-- Reads a key, the equals sign and a value. -/
def readAssignment : Nat → List Char → Option ((Key × Expr) × List Char)
  | 0, _ => none
  | bound + 1, cs => do
    match ← readKey cs with
    | (key, '=' :: rest) =>
      let (value, rest) ← readValue bound (skipBlanks rest)
      return ((key, value), rest)
    | _ => none

end

/-! ### Statements -/

def readStatement (bound : Nat) : List Char → Option (Statement × List Char)
  | '[' :: '[' :: cs => do
    match ← readKey cs with
    | (key, ']' :: ']' :: rest) => return (.element key, rest)
    | _ => none
  | '[' :: cs => do
    match ← readKey cs with
    | (key, ']' :: rest) => return (.table key, rest)
    | _ => none
  | cs => do
    let ((key, value), rest) ← readAssignment bound cs
    return (.assign key value, rest)

/-- Reads statements up to the end of the text. Between two of them the line ends. -/
def readStatements (depth : Nat) : Nat → List Char → Option (List Statement)
  | _, [] => some []
  | 0, _ => none
  | bound + 1, cs => do
    let (s, rest) ← readStatement depth cs
    let rest ← finishLine rest
    let ss ← readStatements depth bound (skipLines false rest)
    return s :: ss

/-- The steps a text may take in nested values: each character is read in at most three steps. -/
def depthOf (cs : List Char) : Nat :=
  3 * cs.length + 3

/-- Whether no character is a control character other than a blank or a line break, and no carriage
return stands alone. -/
def isClean : List Char → Bool
  | [] => true
  | '\r' :: cs => cs.head? = some '\n' && isClean cs
  | c :: cs => (isBlank c || isBreak c || (0x20 ≤ c.toNat && c.toNat ≠ 0x7f)) && isClean cs

/-- The text without a byte order mark in front. -/
def dropMark : List UInt8 → List UInt8
  | 0xff :: 0xfe :: bytes => bytes
  | 0xfe :: 0xff :: bytes => bytes
  | 0xef :: 0xbb :: 0xbf :: bytes => bytes
  | bytes => bytes

/-- **Reads the statements of a configuration file**, or nothing if it is no text or does not follow
the grammar. -/
def readText (bytes : List UInt8) : Option (List Statement) := do
  let text ← String.fromUTF8? ⟨(dropMark bytes).toArray⟩
  let cs := text.toList
  if isClean cs then readStatements (depthOf cs) (cs.length + 1) (skipLines false cs) else none

end WasmJit.Toml
