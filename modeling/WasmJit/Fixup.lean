/-!
# Pending jumps

A jump forward is emitted before the position it goes to exists. Until then it is a `Fixup`: the
jump, and the label it will be pointed at exactly once.
-/

namespace WasmJit

/-- What a pending jump is for. -/
inductive JumpKind where
  | unconditional
  /-- Taken when a condition is zero. -/
  | ifZero
  /-- Any other purpose, which has no name. -/
  | unnamed
deriving DecidableEq, Repr

namespace JumpKind

def name : JumpKind → String
  | .unconditional => "unconditional"
  | .ifZero => "if_zero"
  | .unnamed => ""

/-- The purpose numbered `code`. -/
def ofCode : Nat → JumpKind
  | 0 => .unconditional
  | 1 => .ifZero
  | _ => .unnamed

end JumpKind

/-- A jump `jump` that waits for its label. -/
structure Fixup (Jump Label : Type) where
  kind : JumpKind
  jump : Jump
  /-- The label the jump has been pointed at. -/
  target : Option Label
deriving DecidableEq, Repr

namespace Fixup

variable {Jump Label : Type}

/-- A jump that has not been pointed at a label. -/
def pending (kind : JumpKind) (jump : Jump) : Fixup Jump Label :=
  ⟨kind, jump, none⟩

/-- Whether the jump has been pointed at a label. -/
def patched (f : Fixup Jump Label) : Bool :=
  f.target.isSome

/-- Points the jump at a label, unless it has one. -/
def patch? (f : Fixup Jump Label) (label : Label) : Option (Fixup Jump Label) :=
  if f.patched then none else some { f with target := some label }

/-- The fixup in text; `describe` gives the text of a jump, which may depend on the label it has
been given. -/
def text (describe : Jump → Option Label → String) (f : Fixup Jump Label) : String :=
  f.kind.name ++ " jump " ++ describe f.jump f.target ++ s!" (patched={f.patched})"

/-- The complaint about a jump that would be pointed at a second label. -/
def patchedTwice (describe : Jump → Option Label → String) (f : Fixup Jump Label) : String :=
  "BUG: " ++ f.text describe ++ " patched twice"

/-- The complaints about the jumps among `fixups` without a label, one per line; `none` if all have
one. -/
def unpatched? (describe : Jump → Option Label → String) (fixups : List (Fixup Jump Label)) :
    Option String :=
  match fixups.filter (!·.patched) with
  | [] => none
  | fs => some ("\n".intercalate (fs.map fun f => "BUG: unpatched " ++ f.text describe))

end Fixup

end WasmJit
