/-!
# Code segments

The machine code of all functions of a module lies in one segment, each function at the next
multiple of sixteen after the end of the one before it. Gaps are filled with zeros.

* `CodeSegment.offsets` and `CodeSegment.total` lay out functions of given sizes.
* `CodeSegment.build` puts their machine code in place; a function without code has no place in a
  segment that has some.
-/

namespace WasmJit

/-- Machine code in one piece. -/
structure CodeSegment where
  bytes : List UInt8
  /-- Where the functions start, and their sizes. -/
  spans : List (Nat × Nat)
deriving DecidableEq, Repr

namespace CodeSegment

/-- The boundary each function starts at. -/
def alignment : Nat := 16

/-- The least multiple of the alignment that is not below `offset`. -/
def align (offset : Int) : Int :=
  (offset + (alignment - 1)) / alignment * alignment

/-- The same for an offset of 64 bits with a sign: beyond the largest one, it wraps around. -/
def alignWord (offset : Int) : Int :=
  (align offset).bmod 18446744073709551616

/-- Where functions of the given sizes start, if the first one comes after `used` bytes. -/
def offsets : (used : Nat) → List Nat → List Nat
  | _, [] => []
  | used, size :: sizes =>
    let start := (align used).toNat
    start :: offsets (start + size) sizes

/-- The end of the last function. -/
def total (sizes : List Nat) : Nat :=
  match (offsets 0 sizes).getLast?, sizes.getLast? with
  | some start, some size => start + size
  | _, _ => 0

/-- The complaint about a segment without code. -/
def emptyComplaint : String :=
  "BUG: empty code segment"

def empty : CodeSegment := ⟨[], []⟩

/-- The bytes up to `start`, filled up with zeros, followed by `code`. -/
def append (bytes : List UInt8) (start : Nat) (code : List UInt8) : List UInt8 :=
  bytes ++ List.replicate (start - bytes.length) 0 ++ code

/-- **Places the machine code of functions in a segment.** There is no segment for no code, and none
at all if only some functions have code. -/
def build (codes : List (List UInt8)) : Option CodeSegment :=
  let sizes := codes.map List.length
  if total sizes = 0 then some empty
  else if sizes.contains 0 then none
  else
    let starts := offsets 0 sizes
    some ⟨(starts.zip codes).foldl (fun bytes (start, code) => append bytes start code) [],
      starts.zip sizes⟩

/-- The machine code of the function numbered `i`. -/
def codeOf (s : CodeSegment) (i : Nat) : List UInt8 :=
  match s.spans[i]? with
  | some (start, size) => (s.bytes.drop start).take size
  | none => []

end CodeSegment

end WasmJit
