/-!
# Variable-length integers

A number is written in groups of seven bits, lowest group first, one byte per group; every byte but
the last has its high bit set. Two families are read:

* unsigned 32-bit numbers, in at most five groups, the fifth of which has only four bits
  (`Varint.readU32` consumes the bytes, `Varint.loadU32` looks them up by position and counts them);
* signed 33-bit numbers, in at most five groups, whose sign is bit 6 of the last group
  (`Varint.readI33`).

Padding with empty groups is allowed up to those limits. `Varint.encodeU32` writes the shortest
form.
-/

namespace WasmJit.Varint

/-- Why no number could be read. -/
inductive Error where
  /-- The bytes end inside a number. -/
  | endOfInput
  /-- The number does not fit in the given number of bits. -/
  | overflow (bits : Nat)
deriving DecidableEq, Repr

def Error.message : Error → String
  | .endOfInput => "readByte failed: EOF"
  | .overflow bits => s!"overflows a {bits}-bit integer"

/-! ### Writing -/

/-- The groups of `v`, at most `groups` of them. -/
def encodeGroups : (groups : Nat) → UInt32 → List UInt8
  | 0, _ => []
  | groups + 1, v =>
    if v < 0x80 then [v.toUInt8]
    else (v.toUInt8 ||| 0x80) :: encodeGroups groups (v >>> 7)

/-- **The shortest encoding of `v`.** Five groups hold 35 bits, so none is ever missing. -/
def encodeU32 (v : UInt32) : List UInt8 :=
  encodeGroups 5 v

/-- A length or a count, written modulo `2 ^ 32`. -/
def encodeLength (n : Nat) : List UInt8 :=
  encodeU32 (UInt32.ofNat n)

/-! ### Reading unsigned numbers -/

/-- Whether byte `b`, which ends a number with `left` groups still allowed after it, carries bits
that do not fit: only the fifth group is too wide, by its upper four bits. -/
def spillsU32 (left : Nat) (b : UInt8) : Bool :=
  left == 0 && b &&& 0xf0 != 0

/-- Reads up to `groups` groups, the first of which has weight `2 ^ shift`, on top of `acc`. -/
def readGroups : (groups : Nat) → (shift acc : UInt32) → List UInt8 →
    Except Error (UInt32 × List UInt8)
  | 0, _, _, _ => .error (.overflow 32)
  | _ + 1, _, _, [] => .error .endOfInput
  | left + 1, shift, acc, b :: rest =>
    if b < 0x80 then
      if spillsU32 left b then .error (.overflow 32)
      else .ok (acc ||| (b.toUInt32 <<< shift), rest)
    else readGroups left (shift + 7) (acc ||| ((b.toUInt32 &&& 0x7f) <<< shift)) rest

/-- **Reads an unsigned 32-bit number** and returns it with the bytes after it. -/
def readU32 (bytes : List UInt8) : Except Error (UInt32 × List UInt8) :=
  readGroups 5 0 0 bytes

/-- Looks up groups from position `pos` of `bytes` on, as `readGroups` reads them. -/
def loadGroups (bytes : List UInt8) : (groups pos : Nat) → (shift acc : UInt32) →
    Except Error (UInt32 × Nat)
  | 0, _, _, _ => .error (.overflow 32)
  | left + 1, pos, shift, acc =>
    match bytes[pos]? with
    | none => .error .endOfInput
    | some b =>
      if b < 0x80 then
        if spillsU32 left b then .error (.overflow 32)
        else .ok (acc ||| (b.toUInt32 <<< shift), pos + 1)
      else loadGroups bytes left (pos + 1) (shift + 7) (acc ||| ((b.toUInt32 &&& 0x7f) <<< shift))

/-- **Looks up an unsigned 32-bit number** at the head of `bytes` and returns it with the number of
bytes it spans. -/
def loadU32 (bytes : List UInt8) : Except Error (UInt32 × Nat) :=
  loadGroups bytes 5 0 0 0

/-! ### Reading signed numbers -/

/-- The 64-bit pattern `acc`, whose groups end below bit `shift`, read as a signed number: bit 6 of
the last group `b` is copied into all the bits above. -/
def signed (acc shift : UInt64) (b : UInt8) : Int :=
  (if b &&& 0x40 != 0 then acc ||| (0xffffffffffffffff <<< shift) else acc).toInt64.toInt

/-- Whether `v` fits in 33 bits, one of which is the sign. -/
def fitsI33 (v : Int) : Bool :=
  -4294967296 ≤ v && v < 4294967296

/-- Reads up to `groups` groups of a signed number, the first of which has weight `2 ^ shift`, on
top of `acc`. -/
def readSignedGroups : (groups : Nat) → (shift acc : UInt64) → List UInt8 →
    Except Error (Int × List UInt8)
  | 0, _, _, _ => .error (.overflow 33)
  | _ + 1, _, _, [] => .error .endOfInput
  | left + 1, shift, acc, b :: rest =>
    let acc := acc ||| ((b &&& 0x7f).toUInt64 <<< shift)
    -- the range is checked at the end only, after the sign was copied
    if b &&& 0x80 == 0 then
      let v := signed acc (shift + 7) b
      if fitsI33 v then .ok (v, rest) else .error (.overflow 33)
    else readSignedGroups left (shift + 7) acc rest

/-- **Reads a signed 33-bit number** and returns it with the bytes after it. -/
def readI33 (bytes : List UInt8) : Except Error (Int × List UInt8) :=
  readSignedGroups 5 0 0 bytes

end WasmJit.Varint
