import WasmJit.Text.UnsignedLiteral
import WasmJit.Toml.Statement

/-!
# TOML numbers

Integers fit 64 bits with sign and are written in decimal with an optional sign and no leading
zeros, or after `0x`, `0o` or `0b` without a sign. Floats have a fraction, an exponent or both.
Single underscores may separate digits. Floats are recognised and kept as written; their magnitude
must not be rounded beyond the largest finite one of 64 bits.
-/

namespace WasmJit.Toml.Number

/-- The value of a row of digits, at most `most`. -/
def digits? (base most : Nat) (cs : List Char) : Option Nat :=
  if !cs.isEmpty && UnsignedLiteral.separated false cs then
    (UnsignedLiteral.accumulate base most 0 cs).toOption
  else none

/-- Whether a row of digits has a zero in front of other digits. -/
def padded : List Char → Bool
  | '0' :: _ :: _ => true
  | _ => false

/-- The value of a row of decimal digits that is not padded, at most `most`. -/
def decimal? (most : Nat) (cs : List Char) : Option Nat :=
  if padded cs then none else digits? 10 most cs

def largest : Nat := 0x7fffffffffffffff

/-- **An integer.** -/
def integer? : List Char → Option Int
  | '0' :: 'x' :: cs => (digits? 16 largest cs).map Int.ofNat
  | '0' :: 'o' :: cs => (digits? 8 largest cs).map Int.ofNat
  | '0' :: 'b' :: cs => (digits? 2 largest cs).map Int.ofNat
  | '-' :: cs => (decimal? (largest + 1) cs).map fun n => -Int.ofNat n
  | '+' :: cs => (decimal? largest cs).map Int.ofNat
  | cs => (decimal? largest cs).map Int.ofNat

/-- The characters without a sign in front. -/
def unsigned : List Char → List Char
  | '-' :: cs => cs
  | '+' :: cs => cs
  | cs => cs

/-- Whether the characters are a row of digits. -/
def isRow (cs : List Char) : Bool :=
  !cs.isEmpty && UnsignedLiteral.separated false cs && cs.all fun c => c.isDigit || c = '_'

/-- Whether the character starts an exponent. -/
def isExponent (c : Char) : Bool :=
  c = 'e' || c = 'E'

/-- Whether the characters are a fraction, or nothing. -/
def isFraction : List Char → Bool
  | [] => true
  | c :: cs => c = '.' && isRow cs

/-- The least magnitude that is rounded to infinity: half a unit above the largest finite one. -/
def infinite : Nat :=
  Nat.pow 2 1024 - Nat.pow 2 970

/-- Whether `m` times ten to the power of `e` is rounded to infinity. -/
def overflows (m : Nat) (e : Int) : Bool :=
  if 0 ≤ e then infinite ≤ m * Nat.pow 10 e.toNat
  else infinite * Nat.pow 10 (-e).toNat ≤ m

def digitsOf (cs : List Char) : List Nat :=
  (cs.filter Char.isDigit).map fun c => c.toNat - '0'.toNat

def valueOf (cs : List Char) : Nat :=
  (digitsOf cs).foldl (fun n d => 10 * n + d) 0

/-- The value of the digits of an exponent. Once it is beyond every magnitude it stops growing. -/
def boundedValueOf (cs : List Char) : Nat :=
  (digitsOf cs).foldl (fun n d => if n < 10000 then 10 * n + d else n) 0

/-- The value of an exponent and its letter, or of nothing. -/
def exponentOf : List Char → Int
  | _ :: '-' :: cs => -(boundedValueOf cs : Int)
  | cs => boundedValueOf cs

/-- **Whether the characters are a float.** -/
def isFloat (cs : List Char) : Bool :=
  let cs := unsigned cs
  if cs = "inf".toList || cs = "nan".toList then true
  else
    let mantissa := cs.takeWhile (!isExponent ·)
    let whole := mantissa.takeWhile (· ≠ '.')
    let fraction := mantissa.dropWhile (· ≠ '.')
    let exponent := cs.dropWhile (!isExponent ·)
    isRow whole && !padded whole && isFraction fraction
      && (match exponent with
        | [] => !fraction.isEmpty
        | _ :: cs => isRow (unsigned cs))
      && !overflows (valueOf mantissa) (exponentOf exponent - (digitsOf fraction).length)

end WasmJit.Toml.Number
