/-!
# TOML dates and times

A moment is a date, a time of day, or both, and in the last case a zone may follow. A date and a
time are separated by a `T` or a blank, the seconds of a time and their fraction may be left out,
and letters stand in either case. Moments are recognised and kept as written.
-/

namespace WasmJit.Toml.Moment

/-- Whether the character may stand in a moment. -/
def isPart (c : Char) : Bool :=
  c.isDigit || "-:Tt .Zz+".toList.contains c

/-- Whether a moment starts here: a row of digits and one of the marks that separate such rows. -/
def starts (cs : List Char) : Bool :=
  match cs.takeWhile Char.isDigit, cs.dropWhile Char.isDigit with
  | _ :: _, c :: _ => c = '-' || c = ':'
  | _, _ => false

/-- The value of the next `count` characters, if they are digits, and what follows them. -/
def number? (count : Nat) (cs : List Char) : Option (Nat × List Char) :=
  let ds := cs.take count
  if ds.length = count && ds.all Char.isDigit then
    some (ds.foldl (fun n c => 10 * n + (c.toNat - '0'.toNat)) 0, cs.drop count)
  else none

/-- What follows a number of two digits that is at most `most`. -/
def pair? (most : Nat) (cs : List Char) : Option (List Char) :=
  match number? 2 cs with
  | some (n, rest) => if n ≤ most then some rest else none
  | none => none

/-- What follows the mark `c`. -/
def mark? (c : Char) : List Char → Option (List Char)
  | [] => none
  | d :: cs => if d = c then some cs else none

def isLeap (year : Nat) : Bool :=
  year % 4 = 0 && (year % 100 ≠ 0 || year % 400 = 0)

def daysIn (year month : Nat) : Nat :=
  if month = 2 then if isLeap year then 29 else 28
  else if [4, 6, 9, 11].contains month then 30
  else 31

/-- What follows a date. -/
def date? (cs : List Char) : Option (List Char) := do
  let (year, cs) ← number? 4 cs
  let (month, cs) ← number? 2 (← mark? '-' cs)
  let (day, cs) ← number? 2 (← mark? '-' cs)
  if 1 ≤ month && month ≤ 12 && 1 ≤ day && day ≤ daysIn year month then some cs else none

/-- What follows a fraction, if one starts here. -/
def skipFraction : List Char → List Char
  | '.' :: c :: cs => if c.isDigit then cs.dropWhile Char.isDigit else '.' :: c :: cs
  | cs => cs

/-- What follows a time of day. -/
def time? (cs : List Char) : Option (List Char) := do
  let cs ← pair? 23 cs
  let cs ← pair? 59 (← mark? ':' cs)
  match cs with
  | ':' :: cs => return skipFraction (← pair? 59 cs)
  | cs => return cs

/-- What follows a zone: its distance from the standard may reach a day and an hour. -/
def zone? : List Char → Option (List Char)
  | 'Z' :: cs => some cs
  | c :: cs =>
    if c = '+' || c = '-' then do
      let cs ← pair? 24 cs
      pair? 60 (← mark? ':' cs)
    else none
  | [] => none

/-- Whether the characters are a moment, with a `T` between date and time and capital letters. -/
def isCanonical (cs : List Char) : Bool :=
  match date? cs with
  | none => time? cs = some []
  | some ('T' :: cs) =>
    match time? cs with
    | none => false
    | some rest => rest.isEmpty || zone? rest = some []
  | some rest => rest.isEmpty

/-- The canonical form of a character. -/
def canonical (c : Char) : Char :=
  if c = 't' || c = ' ' then 'T' else if c = 'z' then 'Z' else c

/-- The characters without the blanks at their end. -/
def trimEnd (cs : List Char) : List Char :=
  (cs.reverse.dropWhile (· = ' ')).reverse

/-- **Reads a moment**, together with the blanks after it. -/
def read (cs : List Char) : Option (List Char × List Char) :=
  let written := trimEnd (cs.takeWhile isPart)
  if isCanonical (written.map canonical) then some (written, cs.dropWhile isPart) else none

end WasmJit.Toml.Moment
