import WasmJit.Toml.Statement

/-!
# TOML strings

The four kinds of strings. Each reader takes the characters after the opening quotation marks and
returns the text and what follows the closing ones; all go through the characters once, so that
escapes are states of the reader (`Escape`).
-/

namespace WasmJit.Toml

def isBlank (c : Char) : Bool :=
  c = ' ' || c = '\t'

/-- Whether the character belongs to a line break. -/
def isBreak (c : Char) : Bool :=
  c = '\n' || c = '\r'

/-- What was read of an escape. -/
inductive Escape where
  /-- The reader is not inside an escape. -/
  | none
  /-- The backslash. -/
  | started
  /-- The start of a code point: digits still missing, and the value so far. -/
  | code (missing value : Nat)
  /-- A backslash and blanks after it, and whether a line break was among them. -/
  | gap (broken : Bool)
  /-- The reader is right behind an escaped backslash. -/
  | slash
deriving DecidableEq, Repr

namespace Escape

/-- The character a single letter stands for. -/
def letter? (c : Char) : Option Char :=
  [('b', '\x08'), ('t', '\t'), ('n', '\n'), ('f', '\x0c'), ('r', '\r'), ('e', '\x1b'), ('"', '"'),
    ('\\', '\\')].lookup c

/-- The number of hexadecimal digits after a letter that announces a code point. -/
def width? (c : Char) : Option Nat :=
  [('x', 2), ('u', 4), ('U', 8)].lookup c

def hexDigit? (c : Char) : Option Nat :=
  "0123456789abcdef".toList.findIdx? (· = c.toLower)

/-- The character of a code point. -/
def char? (n : Nat) : Option Char :=
  if n.isValidChar then some (Char.ofNat n) else Option.none

/-- The character after the backslash: a finished character, or the next state. -/
def start (c : Char) : Option (Char ⊕ Escape) :=
  match letter? c with
  | some d => some (.inl d)
  | Option.none => (width? c).map fun w => .inr (.code w 0)

def digit (missing value : Nat) (c : Char) : Option (Char ⊕ Escape) := do
  let value := 16 * value + (← hexDigit? c)
  if missing ≤ 1 then (char? value).map .inl else return .inr (.code (missing - 1) value)

end Escape

/-- Puts a character in front of what a reader found. -/
def before (c : Char) (found : Option (List Char × List Char)) : Option (List Char × List Char) :=
  found.map fun (text, rest) => (c :: text, rest)

/-- Reads a string on one line, with escapes. -/
def readBasic : Escape → List Char → Option (List Char × List Char)
  | _, [] => none
  | state, c :: cs =>
    let next : Option (Char ⊕ Escape) → Option (List Char × List Char)
      | none => none
      | some (.inl d) => before d (readBasic .none cs)
      | some (.inr state) => readBasic state cs
    match state with
    | .started => next (Escape.start c)
    | .code missing value => next (Escape.digit missing value c)
    | _ =>
      if c = '"' then some ([], cs)
      else if c = '\\' then readBasic .started cs
      else if isBreak c then none
      else before c (readBasic .none cs)

/-- Reads a string on one line, without escapes. -/
def readLiteral : List Char → Option (List Char × List Char)
  | [] => none
  | c :: cs =>
    if c = '\'' then some ([], cs)
    else if isBreak c then none
    else before c (readLiteral cs)

/-- What follows the first of a row of quotation marks `q`: three of them close the string, and up
to `most` more in front of these belong to it. `none` if the string goes on. -/
def closing? (most : Nat) (q : Char) : List Char → Option (Option (List Char × List Char))
  | a :: b :: rest =>
    if a = q ∧ b = q then
      let extra := rest.takeWhile (· = q)
      some (if extra.length ≤ most then some (extra, rest.drop extra.length) else none)
    else none
  | _ => none

/-- Reads a string over several lines, with escapes. A backslash at the end of a line joins it with
the next characters that are not blank. Behind an escaped backslash one more quotation mark may
stand in front of the closing ones. -/
def readMultiline : Escape → List Char → Option (List Char × List Char)
  | _, [] => none
  | state, c :: cs =>
    let next : Option (Char ⊕ Escape) → Option (List Char × List Char)
      | none => none
      | some (.inl d) => before d (readMultiline .none cs)
      | some (.inr state) => readMultiline state cs
    let plain (most : Nat) : Option (List Char × List Char) :=
      if c = '"' then
        match closing? most c cs with
        | some closed => closed
        | none => before c (readMultiline .none cs)
      else if c = '\\' then readMultiline .started cs
      else before c (readMultiline .none cs)
    match state with
    | .none => plain 2
    | .slash => plain 3
    | .started =>
      if isBlank c || isBreak c then readMultiline (.gap (isBreak c)) cs
      else if c = '\\' then before c (readMultiline .slash cs)
      else next (Escape.start c)
    | .code missing value => next (Escape.digit missing value c)
    | .gap broken =>
      if isBlank c || isBreak c then readMultiline (.gap (broken || isBreak c)) cs
      else if broken then plain 2
      else none

/-- Reads a string over several lines, without escapes. -/
def readMultilineLiteral : List Char → Option (List Char × List Char)
  | [] => none
  | c :: cs =>
    if c = '\'' then
      match closing? 2 c cs with
      | some closed => closed
      | none => before c (readMultilineLiteral cs)
    else before c (readMultilineLiteral cs)

/-- A line break right after the opening quotation marks does not belong to the string. -/
def dropBreak : List Char → List Char
  | '\n' :: cs => cs
  | '\r' :: '\n' :: cs => cs
  | cs => cs

/-- **Reads a string**, if one starts here: `none` if none does, `some none` if it is malformed. -/
def readString? : List Char → Option (Option (List Char × List Char))
  | '"' :: '"' :: '"' :: cs => some (readMultiline .none (dropBreak cs))
  | '"' :: cs => some (readBasic .none cs)
  | '\'' :: '\'' :: '\'' :: cs => some (readMultilineLiteral (dropBreak cs))
  | '\'' :: cs => some (readLiteral cs)
  | _ => none

end WasmJit.Toml
