import WasmJit.Text.Numeral
import WasmJit.Text.Printable

/-!
# Quoted texts

Diagnostics show user input between double quotes. `Quoted.quote` keeps printable characters and
writes every other one as an escape, so that the quoted text stays on one line: a letter for the
common blanks and signals, `\xhh` for the rest of ASCII, and `\uhhhh` or `\Uhhhhhhhh` by the size
of the code point.
-/

namespace WasmJit.Quoted

/-- The letter of a character that is escaped by a letter. -/
def letter? (c : Char) : Option Char :=
  [('\x07', 'a'), ('\x08', 'b'), ('\x0c', 'f'), ('\n', 'n'), ('\r', 'r'), ('\t', 't'),
    ('\x0b', 'v'), ('\\', '\\'), ('"', '"')].lookup c

/-- The escape of a character that is neither printable nor escaped by a letter. -/
def numeric (c : Char) : String :=
  if c.toNat < 0x80 then "\\x" ++ Numeral.hexPadded 2 c.toNat
  else if c.toNat < 0x10000 then "\\u" ++ Numeral.hexPadded 4 c.toNat
  else "\\U" ++ Numeral.hexPadded 8 c.toNat

/-- A character inside quotation marks. -/
def escape (c : Char) : String :=
  match letter? c with
  | some l => String.ofList ['\\', l]
  | none => if Printable.test c then c.toString else numeric c

/-- **A text between quotation marks.** -/
def quote (s : String) : String :=
  "\"" ++ String.join (s.toList.map escape) ++ "\""

end WasmJit.Quoted
