/-!
# Numerals

Positions and bytes appear in diagnostics in lower-case hexadecimal, either as short as possible
(`Numeral.hex`) or padded with zeros to a fixed number of digits (`Numeral.hexPadded`), offsets in
listings in padded decimal (`Numeral.padded`).
-/

namespace WasmJit.Numeral

/-- The lower-case hexadecimal digits of `n`, without leading zeros; zero is `"0"`. -/
def hexDigits (n : Nat) : String :=
  String.ofList (Nat.toDigits 16 n)

/-- `n` as a hexadecimal numeral marked by `0x`, as short as possible. -/
def hex (n : Nat) : String :=
  "0x" ++ hexDigits n

/-- The hexadecimal digits of `n`, filled up with zeros on the left to `width` digits. -/
def hexPadded (width n : Nat) : String :=
  String.ofList ((Nat.toDigits 16 n).leftpad width '0')

/-- The decimal digits of `n`, filled up with zeros on the left to `width` digits. -/
def padded (width n : Nat) : String :=
  String.ofList ((Nat.toDigits 10 n).leftpad width '0')

end WasmJit.Numeral
