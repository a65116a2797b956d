import WasmJit.Machine.Register

/-!
# Operands

While a function is compiled, every operand of the program has a slot reserved for it on the value
stack, and a `Placement` that says where its value really is at run time: in a register, in the
flags, still in the slot of a local, or in the slot reserved for it.
-/

namespace WasmJit

/-- Where the value of an operand is at run time. -/
inductive Placement where
  /-- In a register. -/
  | register (r : Register)
  /-- In the flags: the operand is one if the condition holds and zero otherwise. -/
  | flags (c : Condition)
  /-- In the slot of a local that has not been copied yet. -/
  | ofLocal (index : Nat)
  /-- In the slot reserved for the operand. -/
  | slot
deriving DecidableEq, Repr

namespace Placement

/-- In the given register; no register leaves only the slot. -/
def inRegister (r : Register) : Placement :=
  if r = .nil then .slot else .register r

/-- In the flags under the given condition; no condition leaves only the slot. -/
def inFlags (c : Condition) : Placement :=
  if c = .unset then .slot else .flags c

/-- The register that holds the value, or none. -/
def heldIn : Placement → Register
  | .register r => r
  | _ => .nil

def onRegister : Placement → Bool
  | .register _ => true
  | _ => false

def onFlags : Placement → Bool
  | .flags _ => true
  | _ => false

/-- Whether the value is in the slot of a local. -/
def onLocal : Placement → Bool
  | .ofLocal _ => true
  | _ => false

/-- Whether the value is in the slot reserved for it. -/
def onSlot : Placement → Bool
  | .slot => true
  | _ => false

/-- The placement after register and flags are given up: a copy of a local stays one. -/
def released : Placement → Placement
  | .ofLocal i => .ofLocal i
  | _ => .slot

end Placement

structure Operand where
  placement : Placement
  /-- The slot reserved for it, which is written only when it is spilled. -/
  slot : Nat
deriving DecidableEq, Repr

namespace Operand

/-- The slot to read when the value is in memory. -/
def sourceSlot (o : Operand) : Nat :=
  match o.placement with
  | .ofLocal i => i
  | _ => o.slot

/-- Where the value is, in text. -/
def whereabouts (o : Operand) : String :=
  match o.placement with
  | .ofLocal i => s!"local({i})"
  | .slot => s!"stack({o.slot})"
  | .flags c => s!"conditional({c.number})"
  | .register r => s!"register({r.number})"

def text (o : Operand) : String :=
  "\x7bsp=" ++ toString o.slot ++ ",location=" ++ o.whereabouts ++ "\x7d"

end Operand

end WasmJit
