import WasmJit.Machine.Encoding

/-!
# Laying out machine code

The size of a jump depends on its distance, and where an instruction starts depends on the sizes
before it, so a program is laid out in passes: each pass places the instructions one after the
other with what the passes before it found out (`Layout.pass`), then widens the short jumps that
turned out too far (`Layout.widen`). Passes are repeated until nothing changes, or until one finds a
fault in an instruction: what it has placed by then stays as it is, and a jump that turned out too
far keeps only the lowest byte of its displacement. The low byte of the stack register can be set to
a condition in the first pass only (`Layout.afterPass`).

A jump or a return must not touch the end of a 32-byte line, and neither must a comparison together
with the conditional jump it is fused with; they are moved to the next line by padding.

A program may be laid out again after instructions were appended to it. The passes then start from
where its instructions lay before (`Extent`). A jump to one of those takes the place of its target
as it is known and is encoded at once, like a jump backward, whichever way it goes.

How programs are laid out is none of the business of code generation, which takes any `Assembler`.
The one of this module has no limit on the number of passes, other than that a program settles after
twice as many as it has instructions. An assembler that gives up earlier has no code for a program
that takes more passes, such as one with many jumps each of which makes the next one too far.

* `Assembler` is what code generation asks for.
* `Program.assembleAfter` is the assembler that is described above.
* `Program.assemble` gives the machine code and the extent of each instruction of a program that
  has not been laid out before.
-/

namespace WasmJit

/-- Where an instruction lies in machine code. -/
structure Extent where
  offset : Nat
  size : Nat
deriving DecidableEq, Repr

namespace Layout

/-- An instruction with what is known about its place. -/
structure Placed where
  instr : Instr (Option Nat)
  /-- Where it starts. -/
  offset : Nat
  /-- The size it had when it was last placed. -/
  size : Nat
  /-- Whether it may still be a short jump. -/
  short : Bool
  /-- For a jump that is encoded at once, how far it goes beyond its end. -/
  reach : Int
deriving DecidableEq, Repr

/-- An instruction about whose place `extent` is known. -/
def Placed.init (i : Instr (Option Nat)) (extent : Option Extent) : Placed :=
  let known := extent.getD ⟨0, 0⟩
  ⟨i, known.offset, known.size, true, 0⟩

def Placed.extent (p : Placed) : Extent :=
  ⟨p.offset, p.size⟩

/-- Whether the instruction jumps on a condition. -/
def isConditionalJump : Instr (Option Nat) → Bool
  | .jump .always _ => false
  | .jump _ _ => true
  | _ => false

/-- Whether the instruction can be fused with a conditional jump after it. -/
def setsFlags : Instr (Option Nat) → Bool
  | .add .. | .compare .. | .compareConst .. | .andConst .. => true
  | _ => false

/-- Whether the instruction leaves the straight line. -/
def isTransfer : Instr (Option Nat) → Bool
  | .jump .. | .ret => true
  | _ => false

/-- The joint size of `p` and the conditional jump it is fused with, if it is: the next instruction
that is not a label. -/
def fusedSize (p : Placed) (rest : List Placed) : Option Nat :=
  if setsFlags p.instr then
    match rest.find? (·.instr ≠ .label) with
    | some q => if isConditionalJump q.instr then some (p.size + q.size) else none
    | none => none
  else none

/-- The size that has to stay within a line, if the instruction is subject to that. -/
def lineSize (p : Placed) (rest : List Placed) : Option Nat :=
  match fusedSize p rest with
  | some n => some n
  | none => if isTransfer p.instr then some p.size else none

/-- The padding in front of an instruction at offset `c`. -/
def padding (c : Nat) : Option Nat → Nat
  -- the last byte of a line is out of bounds as well
  | some n => if 32 ≤ c % 32 + n then 32 - c % 32 else 0
  | none => 0

/-- The distance from offset `src` to offset `dst`. -/
def distance (src dst : Nat) : Int :=
  (dst : Int) - (src : Int)

/-- Whether a jump at position `index` to position `t` is encoded at once: it goes backward or to
itself, or its target is one of the first `laid` instructions, which were laid out before. -/
def isSettled (laid index t : Nat) : Bool :=
  t ≤ index || t < laid

/-- Where position `t` starts, as far as is known when the position after `done` is placed at offset
`c` and `rest` comes behind it. -/
def startOf (done : Array Placed) (c : Nat) (rest : List Placed) (t : Nat) : Nat :=
  let known := if t < done.size then done[t]? else if t = done.size then none
    else rest[t - done.size - 1]?
  (known.map (·.offset)).getD c

/-- Places the instruction `p` at offset `c`, after `done` and in front of `rest`. A jump that is
encoded at once is as short as its distance allows, another one is as long as its mark says. A jump
without a target goes to itself. -/
def placeAt (laid : Nat) (done : Array Placed) (c : Nat) (rest : List Placed) (p : Placed) :
    Placed :=
  match p.instr with
  | .jump branch target =>
    let t := target.getD done.size
    if isSettled laid done.size t then
      let start := startOf done c rest t
      -- the distance counts from the end of the jump, which has two bytes if it is short
      let size := branch.size (-128 ≤ distance (c + 2) start)
      { p with offset := c, size, reach := distance (c + size) start }
    else { p with offset := c, size := branch.size p.short }
  | i => { p with offset := c, size := (i.encode true 0).length }

/-- Places the instructions that remain, from position `done.size` and offset `c` on. `changed`
tells whether a size has changed that the padding depends on. -/
def place (laid : Nat) : (done : Array Placed) → (c : Nat) → (changed : Bool) → List Placed →
    Array Placed × Bool
  | done, _, changed, [] => (done, changed)
  | done, c, changed, p :: rest =>
    let c := c + padding c (lineSize p rest)
    let q := placeAt laid done c rest p
    let changed := changed ||
      (q.size ≠ p.size && (isTransfer p.instr || (fusedSize p rest).isSome))
    place laid (done.push q) (c + q.size) changed rest

/-- How far the jump at position `index` goes beyond its end; zero for other instructions. -/
def displacement (laid : Nat) (placed : Array Placed) (index : Nat) (p : Placed) : Int :=
  match p.instr with
  | .jump _ target =>
    let t := target.getD index
    if isSettled laid index t then p.reach
    else
      match placed[t]? with
      | some q => distance (p.offset + p.size) q.offset
      | none => 0
  | _ => 0

/-- Whether the short jump forward at position `index` goes too far. -/
def tooFar (laid : Nat) (placed : Array Placed) (index : Nat) (p : Placed) : Bool :=
  match p.instr with
  | .jump _ (some t) =>
    !isSettled laid index t && p.short && 127 < displacement laid placed index p
  | _ => false

/-- Makes the jumps that go too far long. -/
def widen (laid : Nat) (placed : Array Placed) : Array Placed :=
  placed.mapIdx fun index p => if tooFar laid placed index p then { p with short := false } else p

/-- Whether some jump goes too far. -/
def anyTooFar (laid : Nat) (placed : Array Placed) : Bool :=
  placed.toList.zipIdx.any fun (p, index) => tooFar laid placed index p

/-- What is left of an instruction after a pass. One that sets the low byte of the stack register to
a condition keeps its place but has no machine code from the second pass on. -/
def afterPass : Instr (Option Nat) → Instr (Option Nat)
  | .setIf c dst => .setIf (if dst = .sp then .unset else c) dst
  | i => i

/-- What a pass leaves to the next one. -/
def next (laid : Nat) (placed : Array Placed) : Array Placed :=
  (widen laid placed).map fun p => { p with instr := afterPass p.instr }

/-- Whether some instruction has a fault. -/
def anyFaulty (placed : Array Placed) : Bool :=
  placed.any (·.instr.isFaulty)

/-- Repeats passes, at most `fuel` of them, until one changes nothing or finds a fault. -/
def settle (laid : Nat) : (fuel : Nat) → Array Placed → Array Placed
  | 0, placed => placed
  | fuel + 1, before =>
    let (placed, changed) := place laid #[] 0 false before.toList
    if (changed || anyTooFar laid placed) && !anyFaulty placed then
      settle laid fuel (next laid placed)
    else placed

/-- Instructions without effect that fill `k ≤ 9` bytes. -/
def fillerOf : (k : Nat) → List UInt8
  | 0 => []
  | 1 => [0x90]
  | 2 => [0x66, 0x90]
  | 3 => [0x0f, 0x1f, 0x00]
  | 4 => [0x0f, 0x1f, 0x40, 0x00]
  | 5 => [0x0f, 0x1f, 0x44, 0x00, 0x00]
  | 6 => [0x66, 0x0f, 0x1f, 0x44, 0x00, 0x00]
  | 7 => [0x0f, 0x1f, 0x80, 0x00, 0x00, 0x00, 0x00]
  | 8 => [0x0f, 0x1f, 0x84, 0x00, 0x00, 0x00, 0x00, 0x00]
  | _ => [0x66, 0x0f, 0x1f, 0x84, 0x00, 0x00, 0x00, 0x00, 0x00]

/-- Instructions without effect that fill `k` bytes: as many of nine bytes as fit, then one. -/
def filler (k : Nat) : List UInt8 :=
  (List.replicate (k / 9) (fillerOf 9)).flatten ++ fillerOf (k % 9)

/-- The bytes of the placed instructions, with padding where one starts beyond the end of the one
before it. -/
def render (laid : Nat) (placed : Array Placed) : Array UInt8 :=
  placed.toList.zipIdx.foldl
    (fun out (p, index) =>
      out ++ filler (p.offset - out.size)
        ++ p.instr.encode (p.size = 2) (displacement laid placed index p))
    #[]

end Layout

/-- Why a program has no machine code. -/
inductive AssemblyError where
  /-- There are no instructions. -/
  | noInstructions
  /-- There are only labels. -/
  | noCode
deriving DecidableEq, Repr

/-- The text of the failure, which is internal. -/
def AssemblyError.message : AssemblyError → String
  | .noInstructions => "nothing to assemble"
  | .noCode => "assembler produced no code"

/-- A program in machine code. -/
structure Assembled where
  code : List UInt8
  /-- Where the instructions lie. -/
  extents : Array Extent
deriving DecidableEq, Repr

/-- Where each instruction starts. -/
def Assembled.offsets (a : Assembled) : List Nat :=
  a.extents.toList.map (·.offset)

/-- **An assembler** puts a program in machine code, given where its first instructions lay before.
It returns no code for a program that it gives up on. -/
abbrev Assembler := (earlier : Array Extent) → Program → Assembled

/-- **The machine code of a program** whose first instructions lay in `earlier` before. A pass that
changes something widens a jump or settles the size of one, so twice as many passes as instructions
are enough. -/
def Program.assembleAfter (earlier : Array Extent) (p : Program) : Assembled :=
  let placed := Layout.settle earlier.size (2 * p.size + 8)
    (p.mapIdx fun index i => .init i earlier[index]?)
  ⟨(Layout.render earlier.size placed).toList, placed.map (·.extent)⟩

/-- **The machine code of a program.** -/
def Program.assemble (p : Program) : Except AssemblyError Assembled :=
  if p.isEmpty then .error .noInstructions
  else
    let a := p.assembleAfter #[]
    if a.code.isEmpty then .error .noCode else .ok a

end WasmJit
