import WasmJit.Operand

/-!
# The stack of operands

`OperandStack` follows the operand stack of the program while a function is compiled. Only the
first `height` entries are live; entries above are kept until a push replaces them, so that an
operand that was just popped can still be moved into a register. Operands are addressed by their
position, which is also their slot.

* `push`, `pop?`, `truncate` change the height; `ceiling` is the greatest height so far.
* `place`, `release` change the placement of one operand.
* `freeRegister?` and `victim?` choose the register for the next operand.
-/

namespace WasmJit

/-- The operands of a function while it is compiled. -/
structure OperandStack where
  /-- The operands, live ones first. -/
  entries : Array Operand
  /-- The number of live operands. -/
  height : Nat
  /-- The registers in use. -/
  used : List Register
  /-- The greatest height so far. -/
  ceiling : Nat
deriving DecidableEq, Repr

namespace OperandStack

def empty : OperandStack := ⟨#[], 0, [], 0⟩

/-- The live operands, lowest first. -/
def live (s : OperandStack) : List Operand :=
  s.entries.toList.take s.height

/-- The numbers of the registers in use, in the order of their texts. -/
def usedText (s : OperandStack) : String :=
  ",".intercalate
    ((s.used.map fun r => toString r.number).mergeSort fun a b => decide (a < b) || a == b)

def text (s : OperandStack) : String :=
  s!"sp={s.height}, stack=[" ++ ",".intercalate (s.live.map Operand.text)
    ++ "], used_registers=[" ++ s.usedText ++ "]"

/-! ### Registers -/

def markUsed (s : OperandStack) (r : Register) : OperandStack :=
  { s with used := s.used.insert r }

def markUnused (s : OperandStack) (r : Register) : OperandStack :=
  { s with used := s.used.filter (· ≠ r) }

/-- The first register of the pool that is not used; it is not marked. -/
def freeRegister? (s : OperandStack) : Option Register :=
  Register.pool.find? (!s.used.contains ·)

/-- Whether the operand holds a register that is handed out to operands. -/
def stealable (o : Operand) : Bool :=
  match o.placement with
  | .register r => r.isAllocatable
  | _ => false

/-- The position of the deepest live operand whose register can be taken away: deep operands are the
last to be needed again. -/
def victim? (s : OperandStack) : Option Nat :=
  s.live.findIdx? stealable

/-! ### Height -/

def push (s : OperandStack) (p : Placement) : OperandStack :=
  let o : Operand := ⟨p, s.height⟩
  { s with
    -- the entry of an operand that was popped is used again
    entries := if s.height < s.entries.size then s.entries.setIfInBounds s.height o
      else s.entries.push o
    height := s.height + 1
    ceiling := max s.ceiling (s.height + 1) }

/-- Pushes an operand that is held in a register, which is then used. -/
def pushRegister (s : OperandStack) (r : Register) : OperandStack :=
  (s.markUsed r).push (.inRegister r)

/-- Pushes `count` operands that are in their slots. -/
def pushSlots (s : OperandStack) : (count : Nat) → OperandStack
  | 0 => s
  | count + 1 => (s.push .slot).pushSlots count

/-- Pops an operand and returns its position, at which it remains accessible. -/
def pop? (s : OperandStack) : Option (Nat × OperandStack) :=
  match s.height with
  | 0 => none
  | h + 1 => some (h, { s with height := h })

/-- The position of the topmost operand. -/
def top? (s : OperandStack) : Option Nat :=
  match s.height with
  | 0 => none
  | h + 1 => some h

/-! ### Placements -/

/-- Records that the operand at `position` is now in register `r`; the register is not marked. -/
def place (s : OperandStack) (position : Nat) (r : Register) : OperandStack :=
  { s with entries := s.entries.modify position fun o => { o with placement := .inRegister r } }

/-- Gives up the register or the flags that hold the operand at `position`. -/
def release (s : OperandStack) (position : Nat) : OperandStack :=
  match s.entries[position]? with
  | none => s
  | some o =>
    let s := s.markUnused o.placement.heldIn
    { s with
      entries := s.entries.modify position fun o => { o with placement := o.placement.released } }

/-- Drops the topmost operand and frees its register. -/
def drop (s : OperandStack) : OperandStack :=
  match s.pop? with
  | none => s
  | some (position, s) =>
    match s.entries[position]? with
    | none => s
    | some o => if o.placement.onRegister then s.release position else s

/-- Drops the operands above `height` and frees their registers. -/
def truncate (s : OperandStack) (height : Nat) : OperandStack :=
  Nat.repeat drop (s.height - height) s

end OperandStack

end WasmJit
