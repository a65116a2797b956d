import WasmJit.Instruction
import Mathlib.Data.List.Basic
import Mathlib.Logic.Function.Basic

/-!
# The reference interpreter

What a function body means, without registers, slots or code: a stack of operands, a stack of labels
for the open constructs, and the instructions read one after the other. A branch drops the operands
to the height at which the construct it leaves was entered, keeps the results of that construct on
top, and skips everything up to its end.

The interpreter does not depend on how wide values are: it asks for an addition, for zero and one,
and whether two values are equal. Compiled code has values of 64 bits.

* `Reference.State.step` executes one instruction.
* `Reference.run` executes a body. It has no outcome if an operand, a local or a label is missing,
  or if a construct is left open.
* `Reference.additions` lists the additions that are executed on the way.
-/

namespace WasmJit

namespace Reference

variable {α : Type}

/-- The label of an open construct. -/
structure Label where
  /-- The number of its results. -/
  arity : Nat
  /-- The number of operands below it. -/
  below : Nat
deriving DecidableEq, Repr

/-- What is left of the operands, topmost first, when the construct is left. -/
def Label.keep (l : Label) (operands : List α) : List α :=
  operands.take l.arity ++ operands.drop (operands.length - l.below)

/-- What happens to the next instruction. -/
inductive Mode where
  | running
  /-- It is skipped: inside of `nested` further constructs, up to the end of the innermost labelled
  one or, with `toElse`, up to its `else_` if there is one. -/
  | skipping (nested : Nat) (toElse : Bool)
  /-- Nothing happens any more. -/
  | trapped
deriving DecidableEq, Repr

/-- The state of the interpreter, with the topmost operand and the innermost label first. -/
structure State (α : Type) where
  operands : List α
  labels : List Label
  mode : Mode
deriving DecidableEq, Repr

namespace State

/-- Leaves the construct `depth` levels out. -/
def branch (s : State α) (depth : Nat) : Option (State α) :=
  match s.labels.drop depth with
  | [] => none
  | l :: outer => some ⟨l.keep s.operands, l :: outer, .skipping depth false⟩

section

variable [Add α] [OfNat α 0] [OfNat α 1] [DecidableEq α]

/-- Executes an instruction. -/
def execute (locals : List α) (s : State α) : Instruction → Option (State α)
  | .localGet index => (locals[index.toNat]?).map fun v => { s with operands := v :: s.operands }
  | .add =>
    match s.operands with
    | b :: a :: rest => some { s with operands := (a + b) :: rest }
    | _ => none
  | .eq =>
    match s.operands with
    | b :: a :: rest => some { s with operands := (if a = b then 1 else 0) :: rest }
    | _ => none
  | .block type => some { s with labels := ⟨type.arity, s.operands.length⟩ :: s.labels }
  | .if_ type =>
    match s.operands with
    | c :: rest =>
      some ⟨rest, ⟨type.arity, rest.length⟩ :: s.labels,
        if c = 0 then .skipping 0 true else .running⟩
    | [] => none
  -- the first arm is complete, so the second one is left out
  | .else_ => s.branch 0
  | .end_ =>
    match s.labels with
    | l :: outer => some { s with operands := l.keep s.operands, labels := outer }
    | [] => none
  | .br depth => s.branch depth.toNat
  | .brIf depth =>
    match s.operands with
    | c :: rest =>
      if c = 0 then some { s with operands := rest }
      else { s with operands := rest }.branch depth.toNat
    | [] => none
  -- nothing is left of the state
  | .unreachable => some ⟨[], [], .trapped⟩

end

/-- Skips an instruction. -/
def skip (s : State α) (nested : Nat) (toElse : Bool) : Instruction → State α
  | .block _ | .if_ _ => { s with mode := .skipping (nested + 1) toElse }
  -- after a branch the `else_` of the construct is passed as well
  | .else_ => if nested = 0 ∧ toElse = true then { s with mode := .running } else s
  | .end_ =>
    match nested with
    | 0 => { s with labels := s.labels.tail, mode := .running }
    | nested + 1 => { s with mode := .skipping nested toElse }
  | _ => s

/-- **Executes or skips one instruction.** -/
def step [Add α] [OfNat α 0] [OfNat α 1] [DecidableEq α] (locals : List α) (s : State α)
    (i : Instruction) : Option (State α) :=
  match s.mode with
  | .running => s.execute locals i
  | .skipping nested toElse => some (s.skip nested toElse i)
  | .trapped => some s

/-- The operands of the addition that is executed, if the instruction is one and is executed. -/
def addends? (s : State α) (i : Instruction) : Option (α × α) :=
  match s.mode, i, s.operands with
  | .running, .add, b :: a :: _ => some (a, b)
  | _, _, _ => none

end State

/-- How the execution of a body ends. -/
inductive Outcome (α : Type) where
  | returned (values : List α)
  | trapped
deriving DecidableEq, Repr

/-- The outcome at the end of a body. -/
def State.outcome? (s : State α) : Option (Outcome α) :=
  match s.mode, s.labels with
  | .trapped, _ => some .trapped
  | .running, [] => some (.returned s.operands.reverse)
  | _, _ => none

section

variable [Add α] [OfNat α 0] [OfNat α 1] [DecidableEq α]

/-- **Executes the body** of a function with `results` results. -/
def run (results : Nat) (locals : List α) (body : List Instruction) : Option (Outcome α) :=
  (body.foldlM (State.step locals) ⟨[], [⟨results, 0⟩], .running⟩).bind State.outcome?

/-- **The additions that are executed**, by their operands, until something is missing. Those that
are skipped do not count. -/
def additions (locals : List α) : State α → List Instruction → List (α × α)
  | _, [] => []
  | s, i :: is =>
    (s.addends? i).toList ++
      match s.step locals i with
      | some s => additions locals s is
      | none => []

end

/-- Most instructions are skipped without a trace. The exceptions open or close a construct, or
separate its arms. -/
theorem State.skip_eq_self (s : State α) {nested : Nat} (toElse : Bool) {i : Instruction}
    (hopens : ∀ type, i ≠ .block type ∧ i ≠ .if_ type) (hcloses : i ≠ .end_)
    (hseparates : i = .else_ → 0 < nested) : s.skip nested toElse i = s := by
  cases i with
  | block type => exact absurd rfl (hopens type).1
  | if_ type => exact absurd rfl (hopens type).2
  | end_ => exact absurd rfl hcloses
  | else_ =>
    have hpos := hseparates rfl
    exact if_neg fun h => by omega
  | _ => rfl

/-! ### Values by position -/

/-- The locals and, above them, the operands, by position from the bottom. -/
def valueAt (locals operands : List UInt64) (i : Nat) : UInt64 :=
  (locals ++ operands.reverse).getD i 0

section ValueAt

variable {locals operands : List UInt64} {v : UInt64} {i : Nat} {l : Label}

/-- The locals come first. -/
theorem valueAt_local (h : locals[i]? = some v) : valueAt locals operands i = v := by
  have hi : i < locals.length := (List.getElem?_eq_some_iff.mp h).1
  rw [valueAt, List.getD_eq_getElem?_getD, List.getElem?_append_left hi, h]
  rfl

/-- The value that was pushed is on top. -/
theorem valueAt_cons (locals operands : List UInt64) (v : UInt64) :
    valueAt locals (v :: operands) (locals.length + operands.length) = v := by
  rw [valueAt, List.reverse_cons, ← List.append_assoc, List.getD_eq_getElem?_getD,
    List.getElem?_append_right (by simp)]
  simp

theorem valueAt_cons_of_lt (v : UInt64) (h : i < locals.length + operands.length) :
    valueAt locals (v :: operands) i = valueAt locals operands i := by
  rw [valueAt, List.reverse_cons, ← List.append_assoc, List.getD_eq_getElem?_getD,
    List.getElem?_append_left (by simpa using h), ← List.getD_eq_getElem?_getD]
  rfl

/-- Pushing a value changes one position. In this form it meets what the generated code does to the
machine. -/
theorem valueAt_cons_eq_update {values : Nat → UInt64}
    (h : ∀ i, i < locals.length + operands.length → valueAt locals operands i = values i)
    (hi : i < locals.length + operands.length + 1) :
    valueAt locals (v :: operands) i =
      Function.update values (locals.length + operands.length) v i := by
  by_cases hlt : i < locals.length + operands.length
  · rw [valueAt_cons_of_lt v hlt, h i hlt, Function.update_of_ne (Nat.ne_of_lt hlt)]
  · obtain rfl : i = locals.length + operands.length := by omega
    rw [valueAt_cons, Function.update_self]

/-- The topmost operand exists, as there are more operands than locals. -/
theorem exists_one {k : Nat} (h : locals.length + operands.length = k + 1)
    (hk : locals.length ≤ k) :
    ∃ a rest, operands = a :: rest ∧ locals.length + rest.length = k ∧
      valueAt locals operands k = a ∧
      ∀ i, i < k → valueAt locals rest i = valueAt locals operands i := by
  cases operands with
  | nil =>
    rw [List.length_nil] at h
    omega
  | cons a rest =>
    obtain rfl : locals.length + rest.length = k := Nat.succ.inj h
    exact ⟨a, rest, rfl, rfl, valueAt_cons locals rest a,
      fun i hi => (valueAt_cons_of_lt a hi).symm⟩

/-- The two topmost operands exist. -/
theorem exists_two {k : Nat} (h : locals.length + operands.length = k + 2)
    (hk : locals.length ≤ k) :
    ∃ a b rest, operands = b :: a :: rest ∧ locals.length + rest.length = k ∧
      valueAt locals operands k = a ∧ valueAt locals operands (k + 1) = b ∧
      ∀ i, i < locals.length + rest.length → valueAt locals rest i = valueAt locals operands i := by
  obtain ⟨b, rest', rfl, hrest', hb, hsame'⟩ := exists_one h (Nat.le_succ_of_le hk)
  obtain ⟨a, rest, rfl, hrest, ha, hsame⟩ := exists_one hrest' hk
  exact ⟨a, b, rest, rfl, hrest, (hsame' k (Nat.lt_succ_self k)).symm.trans ha, hb,
    fun i hi => (hsame i (by omega)).trans (hsame' i (by omega))⟩

/-- Leaving a construct leaves its results on top of what was below it. -/
theorem Label.length_keep (h : l.below + l.arity ≤ operands.length) :
    (l.keep operands).length = l.below + l.arity := by
  rw [keep, List.length_append, List.length_take, List.length_drop]
  omega

/-- The operands that are left, bottommost first. Positions are counted in this order. -/
theorem Label.reverse_keep (h : l.below + l.arity ≤ operands.length) :
    (l.keep operands).reverse =
      operands.reverse.take l.below ++ operands.reverse.drop (operands.length - l.arity) := by
  have hbelow : operands.length - (operands.length - l.below) = l.below := by omega
  rw [keep, List.reverse_append, List.reverse_take, List.reverse_drop, hbelow]

/-- Leaving a construct keeps what is below it, at the same positions. -/
theorem valueAt_keep_of_lt (h : l.below + l.arity ≤ operands.length)
    (hi : i < locals.length + l.below) :
    valueAt locals (l.keep operands) i = valueAt locals operands i := by
  simp only [valueAt, List.getD_eq_getElem?_getD]
  congr 1
  rw [Label.reverse_keep h, ← List.append_assoc, List.getElem?_append_left]
  · by_cases hlocal : i < locals.length
    · rw [List.getElem?_append_left hlocal, List.getElem?_append_left hlocal]
    · have hle : locals.length ≤ i := by omega
      rw [List.getElem?_append_right hle, List.getElem?_append_right hle,
        List.getElem?_take_of_lt (by omega)]
  · rw [List.length_append, List.length_take, List.length_reverse]
    omega

/-- Leaving a construct moves its results down, from the top of the operands to where it was
entered. -/
theorem valueAt_keep (h : l.below + l.arity ≤ operands.length) (hi : i < l.arity) :
    valueAt locals (l.keep operands) (locals.length + l.below + i) =
      valueAt locals operands (locals.length + operands.length - l.arity + i) := by
  simp only [valueAt, List.getD_eq_getElem?_getD]
  congr 1
  have hlength : (locals ++ operands.reverse.take l.below).length = locals.length + l.below := by
    rw [List.length_append, List.length_take, List.length_reverse]
    omega
  -- counted from where the construct was entered, both are the `i`-th of the results
  rw [Label.reverse_keep h, ← List.append_assoc, List.getElem?_append_right (by omega), hlength,
    Nat.add_sub_cancel_left, List.getElem?_drop, List.getElem?_append_right (by omega)]
  congr 1
  omega

end ValueAt

end Reference

end WasmJit
