import WasmJit.Proofs.Correctness.Reference

/-!
# Structured code

The reference interpreter reads a body from left to right and skips what a branch leaves out. Where
the constructs of a body are properly nested, the body can be read as a tree instead, and evaluated
by recursion over it: a branch then is a result that is passed on from construct to construct until
it has left as many as it says.

* `Reference.Code.eval` evaluates structured code, `Reference.Code.flatten` lists its instructions.
* `Reference.run_flatten`: the interpreter computes what structured evaluation does.
-/

namespace WasmJit

namespace Reference

/-- **Structured code**: a sequence of instructions, in which a construct holds the code inside. -/
inductive Code where
  | empty
  | localGet (index : UInt32) (rest : Code)
  | add (rest : Code)
  | eq (rest : Code)
  | block (type : BlockType) (body rest : Code)
  /-- An `if_` without an `else_`. -/
  | ifThen (type : BlockType) (first rest : Code)
  | ifElse (type : BlockType) (first second rest : Code)
  | br (depth : UInt32) (rest : Code)
  | brIf (depth : UInt32) (rest : Code)
  | unreachable (rest : Code)
deriving DecidableEq, Repr

/-- How code ends. -/
inductive Result where
  /-- It is complete. -/
  | done (operands : List UInt64)
  /-- It leaves the construct `depth` levels out. -/
  | left (depth : Nat) (operands : List UInt64)
  | trapped
deriving DecidableEq, Repr

namespace Result

/-- What the end of a construct makes of the result of the code inside. -/
def leave (l : Label) : Result → Result
  | done operands => .done (l.keep operands)
  | left 0 operands => .done (l.keep operands)
  | left (depth + 1) operands => .left depth operands
  | trapped => .trapped

/-- Goes on if the code is complete. -/
def andThen (next : List UInt64 → Option Result) : Result → Option Result
  | done operands => next operands
  | r => some r

/-- The outcome of a body, outside of all constructs. -/
def outcome? : Result → Option (Outcome UInt64)
  | done operands => some (.returned operands.reverse)
  | left _ _ => none
  | trapped => some .trapped

/-- The state of the interpreter after the code, with the given labels around it. -/
def resume (labels : List Label) : Result → Option (State UInt64)
  | done operands => some ⟨operands, labels, .running⟩
  | left depth operands => State.branch ⟨operands, labels, .running⟩ depth
  | trapped => some ⟨[], [], .trapped⟩

end Result

namespace Code

/-- **Evaluates structured code** by recursion on it, from the operands in front of it. There is no
result where an operand or a local is missing. -/
def eval (locals : List UInt64) : Code → List UInt64 → Option Result
  | empty, operands => some (.done operands)
  | localGet index rest, operands =>
    (locals[index.toNat]?).bind fun v => rest.eval locals (v :: operands)
  | add rest, b :: a :: operands => rest.eval locals ((a + b) :: operands)
  | eq rest, b :: a :: operands => rest.eval locals ((if a = b then 1 else 0) :: operands)
  | block type body rest, operands =>
    (body.eval locals operands).bind fun r =>
      (r.leave ⟨type.arity, operands.length⟩).andThen (rest.eval locals)
  | ifThen type first rest, c :: operands =>
    if c = 0 then rest.eval locals operands
    else
      (first.eval locals operands).bind fun r =>
        (r.leave ⟨type.arity, operands.length⟩).andThen (rest.eval locals)
  | ifElse type first second rest, c :: operands =>
    (if c = 0 then second.eval locals operands else first.eval locals operands).bind fun r =>
      (r.leave ⟨type.arity, operands.length⟩).andThen (rest.eval locals)
  | br depth _, operands => some (.left depth.toNat operands)
  | brIf depth rest, c :: operands =>
    if c = 0 then rest.eval locals operands else some (.left depth.toNat operands)
  | unreachable _, _ => some .trapped
  | _, _ => none

/-- The outcome of the body of a function with `results` results. -/
def outcome? (results : Nat) (locals : List UInt64) (code : Code) :
    Option (Outcome UInt64) :=
  (code.eval locals []).bind fun r => (r.leave ⟨results, 0⟩).outcome?

/-- The instructions of structured code. -/
def flatten : Code → List Instruction
  | empty => []
  | localGet index rest => .localGet index :: rest.flatten
  | add rest => .add :: rest.flatten
  | eq rest => .eq :: rest.flatten
  | block type body rest => .block type :: body.flatten ++ .end_ :: rest.flatten
  | ifThen type first rest => .if_ type :: first.flatten ++ .end_ :: rest.flatten
  | ifElse type first second rest =>
    .if_ type :: first.flatten ++ .else_ :: second.flatten ++ .end_ :: rest.flatten
  | br depth rest => .br depth :: rest.flatten
  | brIf depth rest => .brIf depth :: rest.flatten
  | unreachable rest => .unreachable :: rest.flatten

end Code

variable {locals operands : List UInt64} {labels : List Label}

/-- What is read first leads to the state from which the rest is read. -/
theorem foldlM_append_of_eq {α β : Type} {f : β → α → Option β} {xs ys : List α} {b b' : β}
    (h : xs.foldlM f b = some b') : (xs ++ ys).foldlM f b = ys.foldlM f b' := by
  rw [List.foldlM_append, h]
  rfl

/-- **Structured code is skipped without a trace**, since it closes every construct that it opens.
By induction on the code, at any depth. -/
theorem foldlM_skip (code : Code) (nested : Nat) (toElse : Bool) :
    code.flatten.foldlM (State.step locals) ⟨operands, labels, .skipping nested toElse⟩ =
      some ⟨operands, labels, .skipping nested toElse⟩ := by
  induction code generalizing nested with
  | empty => rfl
  | localGet _ rest ih => exact ih nested
  | add rest ih => exact ih nested
  | eq rest ih => exact ih nested
  | br _ rest ih => exact ih nested
  | brIf _ rest ih => exact ih nested
  | unreachable rest ih => exact ih nested
  | block type body rest ihb ihr =>
    exact (foldlM_append_of_eq (ihb (nested + 1))).trans (ihr nested)
  | ifThen type first rest ihf ihr =>
    exact (foldlM_append_of_eq (ihf (nested + 1))).trans (ihr nested)
  | ifElse type first second rest ihf ihs ihr =>
    -- one more construct is open, so its `else_` is skipped as well
    have hsecond : (.else_ :: second.flatten).foldlM (State.step locals)
        ⟨operands, labels, .skipping (nested + 1) toElse⟩ =
          some ⟨operands, labels, .skipping (nested + 1) toElse⟩ := ihs (nested + 1)
    have harms := (foldlM_append_of_eq (ihf (nested + 1))).trans hsecond
    exact (foldlM_append_of_eq harms).trans (ihr nested)

/-- After a trap nothing happens any more. -/
theorem foldlM_trapped (is : List Instruction) :
    is.foldlM (State.step locals) ⟨operands, labels, .trapped⟩ =
      some ⟨operands, labels, .trapped⟩ := by
  induction is with
  | nil => rfl
  | cons i is ih => exact ih

/-! ### Evaluation -/

/-- The end of a construct does to the state of the interpreter what leaving it does to the result.
-/
theorem step_end_resume (l : Label) (r : Result) :
    (r.resume (l :: labels)).bind (State.step locals · .end_) = (r.leave l).resume labels := by
  cases r with
  | done operands => rfl
  | trapped => rfl
  | left depth operands =>
    cases depth with
    | zero => rfl
    | succ depth =>
      -- one construct less is left to pass
      simp only [Result.resume, Result.leave, State.branch, List.drop_succ_cons]
      cases labels.drop depth <;> rfl

/-- What follows code is executed if the code is complete, and skipped otherwise. After a branch it
is structured code that is skipped, so the skipping ends behind it. -/
theorem foldlM_resume {rest : Code} (r : Result)
    (h : ∀ operands, rest.flatten.foldlM (State.step locals) ⟨operands, labels, .running⟩ =
      (rest.eval locals operands).bind (Result.resume labels)) :
    (r.resume labels).bind (rest.flatten.foldlM (State.step locals)) =
      (r.andThen (rest.eval locals)).bind (Result.resume labels) := by
  cases r with
  | done operands => exact h operands
  | left depth operands =>
    simp only [Result.resume, Result.andThen, State.branch, Option.bind_some]
    cases labels.drop depth with
    | nil => rfl
    | cons l outer => exact foldlM_skip rest depth false
  | trapped => exact foldlM_trapped rest.flatten

/-- A construct, from the code inside of it to what follows. The three kinds of constructs differ
only in what is inside. -/
theorem foldlM_construct {inside : List Instruction} {rest : Code} {s : State UInt64}
    {result : Option Result} {l : Label}
    (hinside : inside.foldlM (State.step locals) s = result.bind (Result.resume (l :: labels)))
    (hrest : ∀ operands, rest.flatten.foldlM (State.step locals) ⟨operands, labels, .running⟩ =
      (rest.eval locals operands).bind (Result.resume labels)) :
    (inside ++ .end_ :: rest.flatten).foldlM (State.step locals) s =
      (result.bind fun r => (r.leave l).andThen (rest.eval locals)).bind
        (Result.resume labels) := by
  rw [List.foldlM_append, hinside]
  cases result with
  | none => rfl
  | some r =>
    change (r.resume (l :: labels)).bind (fun s => (State.step locals s .end_).bind
      (rest.flatten.foldlM (State.step locals))) = _
    rw [← Option.bind_assoc, step_end_resume]
    exact foldlM_resume _ hrest

/-- The second arm of an `if` is skipped after the first one, however that one ended. -/
theorem exists_foldlM_else (second : Code) (l : Label) (r : Result) :
    ∃ r' : Result, (r.resume (l :: labels)).bind
        ((.else_ :: second.flatten).foldlM (State.step locals)) = r'.resume (l :: labels) ∧
      r'.leave l = r.leave l := by
  cases r with
  -- at the `else_` a complete arm leaves the construct, which has the same effect at its end
  | done operands => exact ⟨.left 0 operands, foldlM_skip second 0 false, rfl⟩
  | trapped => exact ⟨.trapped, foldlM_trapped (.else_ :: second.flatten), rfl⟩
  | left depth operands =>
    refine ⟨.left depth operands, ?_, rfl⟩
    simp only [Result.resume, State.branch]
    cases (l :: labels).drop depth with
    | nil => rfl
    | cons l' outer =>
      have helse : State.step locals ⟨l'.keep operands, l' :: outer, .skipping depth false⟩ .else_ =
          some ⟨l'.keep operands, l' :: outer, .skipping depth false⟩ := by
        simp [State.step, State.skip]
      rw [Option.bind_some, List.foldlM_cons, helse]
      exact foldlM_skip second depth false

/-- **The interpreter computes the result of structured code.** By induction on the code: a
construct is its inside and what follows it (`foldlM_construct`), and arms that are not taken are
skipped (`foldlM_skip`). -/
theorem foldlM_flatten (code : Code) (operands : List UInt64) (labels : List Label) :
    code.flatten.foldlM (State.step locals) ⟨operands, labels, .running⟩ =
      (code.eval locals operands).bind (Result.resume labels) := by
  induction code generalizing operands labels with
  | empty => rfl
  | localGet index rest ih =>
    simp only [Code.flatten, Code.eval, List.foldlM_cons, State.step, State.execute]
    cases locals[index.toNat]? with
    | none => rfl
    | some v => exact ih (v :: operands) labels
  -- where operands are missing, neither has a result
  | add rest ih =>
    match operands with
    | b :: a :: operands => exact ih _ labels
    | [_] => rfl
    | [] => rfl
  | eq rest ih =>
    match operands with
    | b :: a :: operands => exact ih _ labels
    | [_] => rfl
    | [] => rfl
  | block type body rest ihb ihr =>
    exact foldlM_construct (ihb operands (⟨type.arity, operands.length⟩ :: labels))
      fun operands => ihr operands labels
  | ifThen type first rest ihf ihr =>
    cases operands with
    | nil => rfl
    | cons c operands =>
      simp only [Code.flatten, Code.eval, List.cons_append, List.foldlM_cons, State.step,
        State.execute]
      by_cases hc : c = 0
      · -- without an `else_` the end of the construct is where skipping ends
        rw [if_pos hc, if_pos hc]
        exact (foldlM_append_of_eq (foldlM_skip first 0 true)).trans (ihr operands labels)
      · rw [if_neg hc, if_neg hc]
        exact foldlM_construct (ihf operands (⟨type.arity, operands.length⟩ :: labels))
          fun operands => ihr operands labels
  | ifElse type first second rest ihf ihs ihr =>
    cases operands with
    | nil => rfl
    | cons c operands =>
      have hrest := fun operands => ihr operands labels
      simp only [Code.flatten, Code.eval, List.cons_append, List.foldlM_cons, State.step,
        State.execute]
      by_cases hc : c = 0
      · -- the first arm is skipped, up to the `else_`
        rw [if_pos hc, if_pos hc, List.append_assoc]
        exact (foldlM_append_of_eq (foldlM_skip first 0 true)).trans
          (foldlM_construct (ihs operands (⟨type.arity, operands.length⟩ :: labels)) hrest)
      · rw [if_neg hc, if_neg hc]
        have hfirst := ihf operands (⟨type.arity, operands.length⟩ :: labels)
        cases hr : first.eval locals operands with
        | none =>
          rw [hr] at hfirst
          change List.foldlM _ _ ((first.flatten ++ _) ++ _) = _
          rw [List.append_assoc, List.foldlM_append, hfirst]
          rfl
        | some r =>
          -- the first arm has its result, and the second one is passed
          obtain ⟨r', hsecond, hleave⟩ := exists_foldlM_else second
            ⟨type.arity, operands.length⟩ r
          rw [hr] at hfirst
          have harms : (first.flatten ++ .else_ :: second.flatten).foldlM (State.step locals)
              ⟨operands, ⟨type.arity, operands.length⟩ :: labels, .running⟩ =
              (some r').bind (Result.resume (⟨type.arity, operands.length⟩ :: labels)) := by
            rw [List.foldlM_append, hfirst]
            exact hsecond
          have hconstruct := foldlM_construct harms hrest
          rw [Option.bind_some, hleave] at hconstruct
          exact hconstruct
  -- what follows the branch is skipped, up to the end of the construct it leaves
  | br depth rest ih => exact foldlM_resume (.left depth.toNat operands) fun o => ih o labels
  | brIf depth rest ih =>
    cases operands with
    | nil => rfl
    | cons c operands =>
      simp only [Code.flatten, Code.eval, List.foldlM_cons, State.step, State.execute]
      by_cases hc : c = 0
      · rw [if_pos hc, if_pos hc]
        exact ih operands labels
      · rw [if_neg hc, if_neg hc]
        exact foldlM_resume (.left depth.toNat operands) fun o => ih o labels
  | unreachable rest ih => exact foldlM_trapped rest.flatten

/-- **The body of a function**: the interpreter comes to the outcome of structured evaluation. A
body is a construct of its own, with nothing behind its end. -/
theorem run_flatten (results : Nat) (locals : List UInt64) (code : Code) :
    run results locals (code.flatten ++ [.end_]) = code.outcome? results locals := by
  have hrest : ∀ operands, Code.empty.flatten.foldlM (State.step locals) ⟨operands, [], .running⟩ =
      (Code.empty.eval locals operands).bind (Result.resume []) := fun _ => rfl
  have hbody := foldlM_construct (foldlM_flatten code [] [⟨results, 0⟩]) hrest
  rw [run, Code.outcome?, show [Instruction.end_] = .end_ :: Code.empty.flatten from rfl, hbody]
  cases code.eval locals [] with
  | none => rfl
  | some r =>
    simp only [Option.bind_some]
    -- a branch out of more constructs than there are has no outcome on either side
    cases r.leave ⟨results, 0⟩ with
    | done operands => rfl
    | trapped => rfl
    | left depth operands => simp [Result.andThen, Result.resume, State.branch, Result.outcome?]

end Reference

end WasmJit
