import WasmJit.Proofs.Compilation.Invariant

/-!
# Compiling refines the height analysis

Code generation never fails by itself: compiling a function succeeds exactly when the analysis of
its heights does, and fails with the same error at the same instruction. The analysis has no
operands to place and no jumps to resolve, so it cannot run out of registers or leave a jump without
a label, and none of its errors is internal (`Heights.step_error`, `Function.analyse_error`).

* `Function.compile_refines_analyse` is the refinement, with the heights along the way.
-/

namespace WasmJit

/-! ### The errors of the analysis -/

/-- A computation fails in its first part, or in the second after the first has succeeded. -/
theorem Except.bind_eq_error {ε α β : Type} {x : Except ε α} {f : α → Except ε β} {err : ε}
    (h : (x >>= f) = .error err) : x = .error err ∨ ∃ a, x = .ok a ∧ f a = .error err := by
  cases x with
  | error e =>
    cases h
    exact .inl rfl
  | ok a => exact .inr ⟨a, rfl, h⟩

/-- What a test finds out about the result of a computation that succeeds. -/
theorem Except.exists_ok_of_any {ε α : Type} {x : Except ε α} {p : α → Bool}
    (h : x.toOption.any p = true) : ∃ a, x = .ok a ∧ p a = true := by
  cases x with
  | error e => cases h
  | ok a => exact ⟨a, rfl, h⟩

namespace Heights

open Compilation (StepError)

variable {a : Heights} {scope : Scope} {outer : List Scope} {err : StepError}

/-- An error that is the fault of the function: its body is malformed, or takes operands that are
not there. Internal errors have no kind. -/
def Blames (err : StepError) : Prop :=
  err.kind? = some .malformedInput ∨ err.kind? = some .stackUnderflow

/-- Missing operands are an underflow. -/
theorem require_error {n : Nat} (h : a.require scope n = .error err) : Blames err := by
  unfold require at h
  split at h
  · cases h
    exact .inr rfl
  · cases h

/-- An `else` outside of an `if` is malformed. -/
theorem requireThen_error (h : requireThen scope = .error err) : Blames err := by
  unfold requireThen at h
  split at h
  · cases h
  · cases h
    exact .inl rfl

/-- An arm ends with the wrong number of results. -/
theorem requireExit_error (h : a.requireExit scope = .error err) : Blames err := by
  unfold requireExit at h
  split at h
  · cases h
  · cases h
    -- too few results are an underflow, too many are malformed
    simp only [Blames, StepError.kind?, Frame.ExitError.errorKind]
    split
    · exact .inr rfl
    · exact .inl rfl

/-- A branch out of more constructs than are open is malformed. -/
theorem target_error {depth : UInt32} (h : a.target depth = .error err) : Blames err := by
  unfold target at h
  split at h
  · cases h
  · cases h
    exact .inl rfl

/-- An `if` without `else` that has results is malformed. -/
theorem leave_error (h : a.leave scope outer = .error err) : Blames err := by
  unfold leave at h
  split at h
  · cases h
    exact .inl rfl
  · cases h

/-- Live instructions fail only in their checks. By cases on the instruction, along the checks it
makes. -/
theorem stepLive_error {numLocals : Nat} {i : Instruction}
    (h : a.stepLive numLocals scope outer i = .error err) : Blames err := by
  -- an instruction fails in the first of its checks that does
  cases i with
  | localGet index =>
    simp only [stepLive] at h
    split at h
    · cases h
      exact .inl rfl
    · cases h
  | add | eq | if_ type =>
    rcases Except.bind_eq_error h with h | ⟨_, -, h⟩
    · exact require_error h
    · cases h
  | block type => cases h
  | else_ =>
    rcases Except.bind_eq_error h with h | ⟨_, -, h⟩
    · exact requireThen_error h
    · rcases Except.bind_eq_error h with h | ⟨_, -, h⟩
      · exact requireExit_error h
      · cases h
  | end_ =>
    -- the results are counted before the construct is left
    rcases Except.bind_eq_error h with h | ⟨_, -, h⟩
    · exact requireExit_error h
    · exact leave_error h
  | br depth | brIf depth =>
    rcases Except.bind_eq_error h with h | ⟨_, -, h⟩
    · exact target_error h
    · rcases Except.bind_eq_error h with h | ⟨_, -, h⟩
      · exact require_error h
      · cases h
  | unreachable => cases h

/-- Dead instructions are hardly checked: only an `else` or `end` of the construct in which the code
became dead can fail. -/
theorem stepDead_error {depth : Nat} {i : Instruction}
    (h : a.stepDead scope outer depth i = .error err) : Blames err := by
  cases i with
  -- deeper down everything is passed over
  | else_ =>
    cases depth with
    | zero =>
      rcases Except.bind_eq_error h with h | ⟨_, -, h⟩
      · exact requireThen_error h
      · cases h
    | succ depth => cases h
  | end_ =>
    cases depth with
    | zero => exact leave_error h
    | succ depth => cases h
  | _ => cases h

/-- Following an instruction fails only for a reason in the function, whether the code is live or
dead. -/
theorem step_error {numLocals : Nat} {i : Instruction}
    (h : a.step numLocals scope outer i = .error err) : Blames err := by
  unfold step at h
  split at h
  · exact stepLive_error h
  · exact stepDead_error h

end Heights

/-- **A step fails only for a reason in the function**, never internally. The error of the
compilation is the one of the analysis (`Sound.step`), and these are known from
`Heights.step_error`. -/
theorem Compilation.Sound.step_error {numLocals results : Nat} {t t' : Compilation}
    {i : Instruction} {err : StepError} (h : t.Sound numLocals results) (hne : t.frames ≠ [])
    (hstep : Compilation.step i t = .error err t') : Heights.Blames err := by
  obtain ⟨f, fs, hframes⟩ := List.exists_cons_of_ne_nil hne
  have hacc := h.step hframes i
  -- what the analysis accepts, the compilation would have accepted as well
  cases ha : t.heights.step numLocals f.scope (fs.map Frame.scope) i with
  | ok a =>
    rw [ha] at hacc
    obtain ⟨t₁, ht₁, -⟩ := hacc
    rw [hstep] at ht₁
    cases ht₁
  | error err₁ =>
    rw [ha] at hacc
    obtain ⟨t₁, ht₁⟩ := hacc
    rw [hstep] at ht₁
    cases ht₁
    exact Heights.step_error ha

/-- The kinds of the errors with which a function is refused. -/
def CompileError.refusals : List ErrorKind :=
  [.malformedInput, .unsupportedFeature, .unsupportedOpcode, .stackUnderflow]

/-- A body that does not decode is refused with one of these kinds as well. -/
theorem Instruction.DecodeError.kind_mem (e : DecodeError) :
    e.kind ∈ CompileError.refusals := by
  cases e with
  | blockType k pc cause =>
    cases cause <;> simp [kind, BlockType.Error.kind, CompileError.refusals]
  | _ => simp [kind, CompileError.refusals]

namespace Heights

/-- Following one instruction of a body fails with one of these kinds: it comes after the end of the
body, or is at fault itself. -/
theorem advance_error {numLocals length : Nat} {a : Heights} {l : Located} {err : CompileError}
    (h : a.advance numLocals length l = .error err) :
    ∃ kind, err.kind? = some kind ∧ kind ∈ CompileError.refusals := by
  unfold advance at h
  split at h
  · cases h
    exact ⟨_, rfl, by decide⟩
  · next scope outer _ =>
    -- the error of the step is passed on with its position, which does not change its kind
    cases hstep : a.step numLocals scope outer l.instruction with
    | ok a' =>
      rw [hstep] at h
      cases h
    | error cause =>
      rw [hstep] at h
      cases h
      rcases step_error hstep with hkind | hkind
      · exact ⟨_, hkind, by decide⟩
      · exact ⟨_, hkind, by decide⟩

/-- Following a body fails with one of these kinds, by induction on the instructions. -/
theorem foldlM_advance_error {numLocals length : Nat} {ls : List Located} {a : Heights}
    {err : CompileError} (h : ls.foldlM (advance numLocals length) a = .error err) :
    ∃ kind, err.kind? = some kind ∧ kind ∈ CompileError.refusals := by
  induction ls generalizing a with
  | nil => cases h
  | cons l ls ih =>
    rw [List.foldlM_cons] at h
    rcases Except.bind_eq_error h with h | ⟨a', -, h⟩
    · exact advance_error h
    · exact ih h

/-- Ending a body fails with one of these kinds: a construct is still open, or the body does not
decode to its end. -/
theorem close_error {length : Nat} {fault : Option Instruction.DecodeError} {a : Heights}
    {err : CompileError} (h : a.close length fault = .error err) :
    ∃ kind, err.kind? = some kind ∧ kind ∈ CompileError.refusals := by
  unfold close at h
  -- trailing bytes, a fault, the proper end, or an open construct
  split at h
  · cases h
    exact ⟨_, rfl, by decide⟩
  · cases h
    exact ⟨_, rfl, Instruction.DecodeError.kind_mem _⟩
  · cases h
  · cases h
    exact ⟨_, rfl, by decide⟩

end Heights

/-- No error of the analysis is internal: all are of the kinds with which a function is refused. -/
theorem Function.analyse_error {f : Function} {err : CompileError} (h : f.analyse = .error err) :
    ∃ kind, err.kind? = some kind ∧ kind ∈ CompileError.refusals := by
  rcases Except.bind_eq_error h with h | ⟨a, -, h⟩
  · exact Heights.foldlM_advance_error h
  · exact Heights.close_error h

/-! ### The refinement -/

/-- Compiling gives the result of the analysis: the same greatest height, or the same error. -/
theorem Function.map_ceiling_compile (f : Function) : f.compile.map (·.ceiling) = f.analyse := by
  have h := f.compile_spec
  cases ha : f.analyse with
  | error err =>
    rw [ha] at h
    rw [h]
    rfl
  | ok n =>
    rw [ha] at h
    obtain ⟨c, t, hc, -, hn⟩ := h
    rw [hc, ← hn]
    rfl

/-- **Code generation never fails by itself.** A function is compiled exactly when the analysis of
its heights accepts it, and then needs as many slots as the analysis says; otherwise both report the
same error at the same instruction, and it is never an internal one. After any instructions that are
accepted, all open constructs start at or below the height of the operand stack, and all operands up
to this height exist. -/
theorem Function.compile_refines_analyse (f : Function) :
    f.compile.map (·.ceiling) = f.analyse ∧
      (∀ err, f.compile = .error err →
        ∃ kind, err.kind? = some kind ∧ kind ∈ CompileError.refusals) ∧
      ∀ (ls : List Located) (t : Compilation),
        ls.foldlM (Compilation.advance f.code.body.length) (Compilation.start f) = .ok t →
        t.emitter.stack.height ≤ t.emitter.stack.entries.size ∧
          ∀ g, g ∈ t.frames → f.numLocals ≤ g.entry ∧ g.entry ≤ t.emitter.stack.height := by
  refine ⟨f.map_ceiling_compile, fun err herr => ?_, fun ls t ht => ?_⟩
  · -- an error of the compilation is one of the analysis
    have hmap := f.map_ceiling_compile
    rw [herr] at hmap
    exact Function.analyse_error hmap.symm
  · -- the compilation is sound after every prefix of the body
    have hsound := (Compilation.sound_start f).of_foldlM ht
    refine ⟨hsound.consistent.active_le_size, fun g hg => ?_⟩
    -- the constructs from `g` outwards are nested like all of them
    obtain ⟨d, hd⟩ := List.getElem?_of_mem hg
    obtain ⟨_, _, -, hnested⟩ := hsound.nested.drop hd
    cases hframes : t.frames with
    | nil => simp [hframes] at hg
    | cons f' fs =>
      have houter := hframes ▸ hsound.nested
      exact ⟨hnested.locals_le,
        Nat.le_trans (houter.entry_le_of_mem (hframes ▸ hg)) houter.entry_le⟩

end WasmJit
