import WasmJit.Text.Quoted

/-!
# Unsigned integer literals

Numbers on the command line are written in the base their first characters announce: `0b`, `0o` and
`0x` in either case, a leading `0` for octal, and decimal otherwise. Single underscores may separate
digits, also from the announcement of the base. There is no sign.
-/

namespace WasmJit.UnsignedLiteral

/-- Why a text is no literal. -/
inductive Fault where
  /-- It does not follow the grammar. -/
  | invalidSyntax
  /-- Its value does not fit the width. -/
  | outOfRange
deriving DecidableEq, Repr

/-- The description of a fault in the literal `s`. -/
def Fault.message (s : String) (f : Fault) : String :=
  "strconv.ParseUint: parsing " ++ Quoted.quote s ++ ": "
    ++ match f with
      | .invalidSyntax => "invalid syntax"
      | .outOfRange => "value out of range"

/-- A literal taken apart: its base and what follows the announcement of the base. -/
structure Parts where
  base : Nat
  /-- Whether the announcement stands before the digits, where an underscore may follow it. -/
  announced : Bool
  digits : List Char
deriving DecidableEq, Repr

/-- The base a letter after the first zero announces. -/
def announcedBase? (c : Char) : Option Nat :=
  [('b', 2), ('o', 8), ('x', 16)].lookup c.toLower

/-- Takes a literal apart. A letter announces a base only if something follows it. -/
def split : List Char → Parts
  | '0' :: c :: d :: rest =>
    match announcedBase? c with
    | some base => ⟨base, true, d :: rest⟩
    | none => ⟨8, true, c :: d :: rest⟩
  | '0' :: rest => ⟨8, true, rest⟩
  | cs => ⟨10, false, cs⟩

/-- The value of a digit or letter. -/
def digit? (c : Char) : Option Nat :=
  if c.isDigit then some (c.toNat - '0'.toNat)
  else if c.isAlpha then some (c.toLower.toNat - 'a'.toNat + 10)
  else none

/-- The value of a digit of the given base. -/
def digitIn? (base : Nat) (c : Char) : Option Nat :=
  (digit? c).filter (· < base)

/-- Reads digits from left to right on top of the value `n`, and stops at the first one that is no
digit of the base or leads above `most`. Underscores are passed over. -/
def accumulate (base most : Nat) : Nat → List Char → Except Fault Nat
  | n, [] => .ok n
  | n, c :: cs =>
    if c = '_' then accumulate base most n cs
    else
      match digitIn? base c with
      | none => .error .invalidSyntax
      | some d =>
        if n * base + d ≤ most then accumulate base most (n * base + d) cs
        else .error .outOfRange

/-- Whether every underscore follows a digit and is followed by one. `afterDigit` says what stands
in front. -/
def separated : Bool → List Char → Bool
  | _, [] => true
  | afterDigit, c :: cs =>
    if c = '_' then afterDigit && !cs.isEmpty && separated false cs
    else separated true cs

/-- **Reads a literal** whose value fits `bits` bits. -/
def parse (bits : Nat) (s : String) : Except Fault Nat :=
  if s.isEmpty then .error .invalidSyntax
  else
    let parts := split s.toList
    match accumulate parts.base (Nat.pow 2 bits - 1) 0 parts.digits with
    | .error f => .error f
    | .ok n => if separated parts.announced parts.digits then .ok n else .error .invalidSyntax

end WasmJit.UnsignedLiteral
