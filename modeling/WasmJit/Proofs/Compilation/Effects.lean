import WasmJit.Proofs.Compilation.Frames
import WasmJit.Proofs.Compilation.HeightAnalysis
import WasmJit.Proofs.Emission.Linking

/-!
# What one step of a compilation can do

`Compilation.Effect numLocals i t t'` lists, case by case, everything that compiling the instruction
`i` can do to a compilation that is sound (`Compilation.Sound`): which code it appends and what that
code means, which jumps it leaves pending or lands, and how the open constructs change. All later
results about compilations are derived from this list and never look into `Compilation.step` again.

* `Compilation.Sound.step` : a step succeeds exactly when the height analysis accepts the
  instruction; if it does, it has one of the listed effects, and otherwise both report the same
  error. In particular no step fails internally.
-/

namespace WasmJit

/-- The construct as far as heights are concerned. -/
def Frame.scope (f : Frame) : Scope :=
  ⟨f.kind, f.arity.toNat, f.entry⟩

namespace Emitter

/-- The emitter at the start of the `else` of the construct `f`. -/
def startElse (e : Emitter) (f : Frame) : Emitter :=
  { e.land f.otherwise.toList with stack := e.stack.truncate f.entry }

/-- The emitter after all pending jumps to the end of the construct `f` have landed. -/
def landExits (e : Emitter) (f : Frame) : Emitter :=
  if f.jumps = [] then e else e.land f.jumps

/-- The emitter after the end of the construct `f`, whose results are in their slots. -/
def afterEnd (e : Emitter) (f : Frame) : Emitter :=
  { e.landExits f with stack := (e.stack.truncate f.entry).pushSlots f.arity.toNat }

/-- The emitter after the end of the construct `f`, where the function body also returns. -/
def close (e : Emitter) (f : Frame) : Emitter :=
  if f.kind = .function then (e.afterEnd f).extend (e.afterEnd f).stack (exitCode .returned)
  else e.afterEnd f

section Stacks

variable {e : Emitter} {f : Frame} {numLocals : Nat}

@[simp] theorem stack_landExits (e : Emitter) (f : Frame) : (e.landExits f).stack = e.stack := by
  unfold landExits
  split <;> rfl

/-- The function body returns at its end, but this does not change the operands. -/
theorem stack_close (e : Emitter) (f : Frame) :
    (e.close f).stack = (e.stack.truncate f.entry).pushSlots f.arity.toNat := by
  unfold close
  split <;> rfl

/-- The operands at the start of an `else`. -/
theorem consistent_startElse (h : e.stack.Consistent numLocals e.stack.height)
    (hl : numLocals ≤ f.entry) (he : f.entry ≤ e.stack.height) :
    (e.startElse f).stack.Consistent numLocals f.entry ∧ (e.startElse f).stack.height = f.entry ∧
      (e.startElse f).stack.ceiling = e.stack.ceiling ∧
      ∀ i, i < f.entry → (e.startElse f).stack.placement? i = e.stack.placement? i :=
  h.truncate hl he

/-- **The operands after the end of a construct**: its results lie in their slots, whatever the
operands above its entry height were. In dead code these are the operands of a place that is not
reached, which is why nothing is said about their values. -/
theorem consistent_close (h : e.stack.Consistent numLocals e.stack.height)
    (hl : numLocals ≤ f.entry) (he : f.entry ≤ e.stack.height) :
    (e.close f).stack.Consistent numLocals (f.entry + f.arity.toNat) ∧
      (e.close f).stack.height = f.entry + f.arity.toNat ∧
      (e.close f).stack.ceiling = max e.stack.ceiling (f.entry + f.arity.toNat) ∧
      (∀ i, i < f.entry → (e.close f).stack.placement? i = e.stack.placement? i) ∧
      ∀ i, f.entry ≤ i → i < f.entry + f.arity.toNat →
        (e.close f).stack.placement? i = some .slot := by
  obtain ⟨hc, hheight, hceil, hkeep⟩ := h.truncate hl he
  rw [stack_close]
  have hpush := OperandStack.Consistent.pushSlots f.arity.toNat (hheight.symm ▸ hc :
    (e.stack.truncate f.entry).Consistent numLocals (e.stack.truncate f.entry).height)
  rw [hheight, hceil] at hpush
  obtain ⟨hc', hheight', hceil', hkeep', hslots⟩ := hpush
  exact ⟨hc', hheight', hceil', fun i hi => (hkeep' i hi).trans (hkeep i hi), hslots⟩

end Stacks

end Emitter

namespace Compilation

open Emitter (operation? Operation Transforms Tested Carried exitCode)

/-- The heights of a compilation. -/
def heights (t : Compilation) : Heights :=
  ⟨t.frames.map Frame.scope, t.emitter.stack.height, t.emitter.stack.ceiling, t.dead⟩

/-- **A sound compilation**: what holds in front of every instruction, in live code and in dead
code, of a function with `numLocals` parameters and locals and `results` results. None of the fields
is about values; they are what makes every step succeed that the analysis accepts. -/
structure Sound (numLocals results : Nat) (t : Compilation) : Prop where
  numLocals_eq : t.numLocals = numLocals
  consistent : t.emitter.stack.Consistent numLocals t.emitter.stack.height
  nested : Frame.Nested numLocals results t.emitter.stack.height t.frames
  linked : t.emitter.Linked (Frame.pending t.frames)
  guarded : t.emitter.Guarded numLocals
  /-- The function body ends with a return. -/
  ended : t.frames = [] → t.emitter.code.back? = some .ret

/-- **The effect of one instruction.** There is one constructor for each way in which an instruction
can be compiled, with what the code it appends means (`Transforms`, `Tested`, `Carried`) and the
heights at which it may stand. The last four are about dead code, where no code is appended but at
the ends of constructs. -/
inductive Effect (numLocals : Nat) : Instruction → Compilation → Compilation → Prop
  /-- A straight-line instruction takes its operands from above the innermost construct. -/
  | operation {i : Instruction} {op : Operation} {e : Emitter} {f : Frame} {fs : List Frame}
      {k : Nat} {s : OperandStack} {code : List (Instr Nat)} (operation : operation? i = some op)
      (index : ∀ x, i = .localGet x → x.toNat < numLocals) (height : e.stack.height = k + op.pops)
      (floor : f.entry ≤ k)
      (transforms : Transforms numLocals f.entry e.stack.height e.stack (k + 1) s code
        fun values => Function.update values k (op.result values k))
      (height_eq : s.height = k + 1) (ceiling_eq : s.ceiling = max e.stack.ceiling (k + 1)) :
      Effect numLocals i ⟨numLocals, e, f :: fs, none⟩ ⟨numLocals, e.extend s code, f :: fs, none⟩
  | block {type : BlockType} {e : Emitter} {f : Frame} {fs : List Frame} :
      Effect numLocals (.block type) ⟨numLocals, e, f :: fs, none⟩
        ⟨numLocals, e, .opened .block type.arity e.stack.height :: f :: fs, none⟩
  /-- An `if` pops its condition and jumps when it is zero. -/
  | if_ {type : BlockType} {e : Emitter} {f : Frame} {fs : List Frame} {k : Nat}
      {s : OperandStack} {code : List (Instr Nat)} {b : Branch} (height : e.stack.height = k + 1)
      (floor : f.entry ≤ k) (tested : Tested numLocals k e.stack s code b) :
      Effect numLocals (.if_ type) ⟨numLocals, e, f :: fs, none⟩
        ⟨numLocals, (e.extend s code).withJump .ifZero b,
          { Frame.opened .ifThen type.arity k with otherwise := some e.fixups.size } :: f :: fs,
          none⟩
  /-- At an `else` in live code the results of the first arm are carried, and the second arm is
  jumped over. -/
  | else_ {e : Emitter} {f : Frame} {fs : List Frame} {s : OperandStack} {code : List (Instr Nat)}
      (kind : f.kind = .ifThen) (height : e.stack.height = f.entry + f.arity.toNat)
      (carried : Carried numLocals f.entry f.arity.toNat e.stack s code) :
      Effect numLocals .else_ ⟨numLocals, e, f :: fs, none⟩
        ⟨numLocals, ((e.extend s code).withJump .unconditional .always).startElse f,
          { f with kind := .ifElse, exits := f.exits ++ [e.fixups.size], otherwise := none } :: fs,
          none⟩
  /-- At the end of a construct in live code its results are carried. -/
  | end_ {e : Emitter} {f : Frame} {fs : List Frame} {s : OperandStack} {code : List (Instr Nat)}
      (arity : f.kind = .ifThen → f.arity.toNat = 0)
      (height : e.stack.height = f.entry + f.arity.toNat)
      (carried : Carried numLocals f.entry f.arity.toNat e.stack s code) :
      Effect numLocals .end_ ⟨numLocals, e, f :: fs, none⟩
        ⟨numLocals, (e.extend s code).close f, fs, none⟩
  /-- A branch carries the results of the construct that it leaves. -/
  | br {depth : UInt32} {e : Emitter} {f g : Frame} {fs : List Frame} {s : OperandStack}
      {code : List (Instr Nat)} (target : (f :: fs)[depth.toNat]? = some g)
      (floor : f.entry + g.arity.toNat ≤ e.stack.height)
      (carried : Carried numLocals g.entry g.arity.toNat e.stack s code) :
      Effect numLocals (.br depth) ⟨numLocals, e, f :: fs, none⟩
        ⟨numLocals, (e.extend s code).withJump .unconditional .always,
          (f :: fs).modify depth.toNat (·.addExit e.fixups.size), some 0⟩
  /-- A conditional branch jumps over a branch when its condition is zero. -/
  | brIf {depth : UInt32} {e : Emitter} {f g : Frame} {fs : List Frame} {k : Nat}
      {s : OperandStack} {code code' : List (Instr Nat)} {b : Branch}
      (target : (f :: fs)[depth.toNat]? = some g) (height : e.stack.height = k + 1)
      (floor : f.entry + g.arity.toNat ≤ k) (tested : Tested numLocals k e.stack s code b)
      (carried : Carried numLocals g.entry g.arity.toNat s s code') :
      Effect numLocals (.brIf depth) ⟨numLocals, e, f :: fs, none⟩
        ⟨numLocals, ((((e.extend s code).withJump .ifZero b).extend s code').withJump .unconditional
            .always).land [e.fixups.size],
          (f :: fs).modify depth.toNat (·.addExit (e.fixups.size + 1)), none⟩
  | unreachable {e : Emitter} {fs : List Frame} :
      Effect numLocals .unreachable ⟨numLocals, e, fs, none⟩
        ⟨numLocals, e.extend e.stack (exitCode .unreachable), fs, some 0⟩
  /-- Constructs opened in dead code are counted. -/
  | deadOpen {i : Instruction} {e : Emitter} {fs : List Frame} {depth : Nat}
      (opens : ∃ type, i = .block type ∨ i = .if_ type) :
      Effect numLocals i ⟨numLocals, e, fs, some depth⟩ ⟨numLocals, e, fs, some (depth + 1)⟩
  | deadClose {e : Emitter} {fs : List Frame} {depth : Nat} :
      Effect numLocals .end_ ⟨numLocals, e, fs, some (depth + 1)⟩ ⟨numLocals, e, fs, some depth⟩
  /-- Everything else in dead code is passed over. -/
  | deadSkip {i : Instruction} {e : Emitter} {fs : List Frame} {depth : Nat}
      (opens : ∀ type, i ≠ .block type ∧ i ≠ .if_ type) (closes : i ≠ .end_)
      (separates : i = .else_ → 0 < depth) :
      Effect numLocals i ⟨numLocals, e, fs, some depth⟩ ⟨numLocals, e, fs, some depth⟩
  | deadElse {e : Emitter} {f : Frame} {fs : List Frame} (kind : f.kind = .ifThen) :
      Effect numLocals .else_ ⟨numLocals, e, f :: fs, some 0⟩
        ⟨numLocals, e.startElse f, { f with kind := .ifElse, otherwise := none } :: fs, none⟩
  | deadEnd {e : Emitter} {f : Frame} {fs : List Frame}
      (arity : f.kind = .ifThen → f.arity.toNat = 0) :
      Effect numLocals .end_ ⟨numLocals, e, f :: fs, some 0⟩ ⟨numLocals, e.close f, fs, none⟩

/-! ### Running the parts of a step -/

section Parts

variable {α β : Type} {numLocals results : Nat} {t t' : Compilation} {e e' : Emitter}
  {f g : Frame} {fs frames : List Frame} {dead : Option Nat}

/-- The parts of a step, one after the other. A step that has failed is not continued. -/
theorem run_bind {action : Step α} {next : α → Step β} {a : α} (h : action t = .ok a t') :
    (action >>= next) t = next a t' := by
  change EStateM.bind action next t = _
  unfold EStateM.bind
  rw [h]

theorem run_bind_error {action : Step α} {next : α → Step β} {err : StepError}
    (h : action t = .error err t') : (action >>= next) t = .error err t' := by
  change EStateM.bind action next t = _
  unfold EStateM.bind
  rw [h]

/-- An action of the emitter is a step that leaves the constructs alone. -/
theorem emitting_eq {action : Emitter.Emit α} {a : α} (h : action e = .ok a e') :
    emitting action ⟨numLocals, e, frames, dead⟩ = .ok a ⟨numLocals, e', frames, dead⟩ := by
  simp only [emitting, h]

/-- What a check does: it changes nothing, and either passes or fails. -/
def checked (t : Compilation) : Except StepError α → EStateM.Result StepError Compilation α
  | .ok a => .ok a t
  | .error err => .error err t

/-- How many operands are above a construct. The emitter computes it in 64 bits. -/
theorem above_eq (h : f.entry ≤ e.stack.height) :
    f.above e.stack.height = e.stack.height - f.entry := by
  -- no height is below the entry height, so the difference does not wrap around
  unfold Frame.above asWord
  rw [if_pos (by omega)]
  omega

theorem asWord_natCast (n : Nat) : asWord n = n := by
  simp [asWord]

/-- **Every check of the compilation is the check of the analysis** on its heights. This lemma and
the next three say so for each of them; they are what makes both report the same error. -/
theorem requireOperands_eq (h : f.entry ≤ e.stack.height) {n : Int} {k : Nat} (hn : n = k) :
    requireOperands n ⟨numLocals, e, f :: fs, dead⟩ =
      checked ⟨numLocals, e, f :: fs, dead⟩
        ((heights ⟨numLocals, e, f :: fs, dead⟩).require f.scope k) := by
  subst hn
  change (if f.above e.stack.height < asWord k then _ else _ : Step Unit) _ = _
  rw [above_eq h, asWord_natCast]
  change _ = checked _ (if e.stack.height - f.entry < k then _ else _)
  split <;> rfl

theorem requireThen_eq (t : Compilation) :
    requireThen f t = checked t (Heights.requireThen f.scope) := by
  unfold requireThen Heights.requireThen
  change _ = checked t (if f.kind = .ifThen then _ else _)
  split <;> rfl

/-- The check at the end of a construct. The number of its results is an integer in the error, and
the same one. -/
theorem requireExit_eq (h : f.entry ≤ e.stack.height) (harity : 0 ≤ f.arity) :
    requireExit f ⟨numLocals, e, f :: fs, dead⟩ =
      checked ⟨numLocals, e, f :: fs, dead⟩
        ((heights ⟨numLocals, e, f :: fs, dead⟩).requireExit f.scope) := by
  refine (run_bind rfl).trans ?_
  unfold Frame.checkExit
  have hword : asWord f.arity = f.arity.toNat := by simp [asWord, harity]
  have hcast : ((f.arity.toNat : Nat) : Int) = f.arity := Int.toNat_of_nonneg harity
  rw [above_eq h, hword]
  change _ = checked _ (if e.stack.height - f.entry = f.arity.toNat then _ else _)
  split
  · rfl
  · simp only [Frame.scope, hcast]
    rfl

/-- Looking up the construct that a branch leaves. -/
theorem branchTarget_eq (numLocals : Nat) (e : Emitter) (frames : List Frame) (dead : Option Nat)
    (depth : UInt32) :
    branchTarget depth ⟨numLocals, e, frames, dead⟩ =
      match frames[depth.toNat]? with
      | some g => .ok g ⟨numLocals, e, frames, dead⟩
      | none => .error (.branch ⟨depth.toNat, frames.length⟩) ⟨numLocals, e, frames, dead⟩ := by
  refine (run_bind rfl).trans ?_
  unfold Frame.target
  cases frames[depth.toNat]? <;> rfl

/-- A branch carries the results of the construct that it leaves, and adds a jump to it. -/
theorem branchInto_eq (numLocals : Nat) (frames : List Frame) (dead : Option Nat)
    {s : OperandStack} {code : List (Instr Nat)}
    (h : Emitter.Emits (Emitter.carry g.entry g.arity) e.stack () s code) (depth : UInt32) :
    branchInto depth g ⟨numLocals, e, frames, dead⟩ =
      .ok () ⟨numLocals, (e.extend s code).withJump .unconditional .always,
        frames.modify depth.toNat (·.addExit e.fixups.size), dead⟩ := by
  have hemit : (do Emitter.carry g.entry g.arity; Emitter.jump) e =
      .ok e.fixups.size ((e.extend s code).withJump .unconditional .always) :=
    (h.run_bind rfl).trans rfl
  exact (run_bind (emitting_eq hemit)).trans rfl

/-- The pending jumps of the open constructs can be pointed at a label. -/
theorem exists_fixup (h : e.Linked (Frame.pending frames)) (hf : f ∈ frames) {j : Nat}
    (hj : j ∈ f.jumps) : ∃ x, e.fixups[j]? = some x ∧ x.target = none :=
  (h.mem_pending j).mp (List.mem_flatMap.mpr ⟨f, hf, hj⟩)

/-- The start of an `else`. The jump to it is there and still pending, so it can be patched. -/
theorem enterElse_eq {j : Nat} {x : Fixup EmittedJump Nat} (hj : f.otherwise = some j)
    (hx : e.fixups[j]? = some x) (hnone : x.target = none) (dead : Option Nat) :
    enterElse f ⟨numLocals, e, g :: fs, dead⟩ =
      .ok () ⟨numLocals, e.startElse f, { g with kind := .ifElse, otherwise := none } :: fs,
        dead⟩ := by
  have hemit : (do
      let here ← Emitter.label
      Emitter.patch (← Emitter.require f.otherwise) here
      Emitter.modifyStack (·.truncate f.entry)) e = .ok () (e.startElse f) := by
    unfold Emitter.startElse
    rw [hj]
    -- the jump is patched behind the label, which touches no pending jump
    have hpatch := Emitter.patch_eq (e := { e with code := e.code.push .label }) hx hnone
      e.code.size
    change EStateM.bind (Emitter.patch j e.code.size) _ { e with code := e.code.push .label } = _
    unfold EStateM.bind
    rw [hpatch]
    rfl
  exact (run_bind (emitting_eq hemit)).trans rfl

/-- The end of a construct: all its pending jumps land at one label. -/
theorem patchExits_eq (h : e.Linked (Frame.pending (f :: fs))) :
    patchExits f e = .ok () (e.landExits f) := by
  unfold patchExits Emitter.landExits
  -- a label is set only if some jump goes there
  have hnodup : f.jumps.Nodup := (List.nodup_append.mp h.nodup).1
  have hland := Emitter.label_forM_patch hnodup fun j hj => exists_fixup h List.mem_cons_self hj
  rw [show f.exits ++ f.otherwise.toList = f.jumps from rfl]
  cases hjumps : f.jumps with
  | nil => rfl
  | cons j jumps =>
    rw [hjumps] at hland
    exact hland

/-- Closing a construct, unless it is an `if` that has a result but no `else`. -/
theorem exitFrame_eq (h : e.Linked (Frame.pending (f :: fs))) :
    exitFrame ⟨numLocals, e, f :: fs, dead⟩ =
      if f.kind = .ifThen ∧ 0 < f.arity then .error .elseMissing ⟨numLocals, e, fs, dead⟩
      else .ok () ⟨numLocals, e.close f, fs, dead⟩ := by
  have hemit : (do
      patchExits f
      Emitter.modifyStack fun s => (s.truncate f.entry).pushSlots f.arity.toNat
      if f.kind = .function then
        Emitter.exit .returned : Emitter.Emit Unit) e = .ok () (e.close f) := by
    change EStateM.bind (patchExits f) _ e = _
    unfold EStateM.bind
    rw [patchExits_eq h]
    change (if f.kind = .function then Emitter.exit .returned else pure () : Emitter.Emit Unit)
      { e.landExits f with
        stack := ((e.landExits f).stack.truncate f.entry).pushSlots f.arity.toNat } = _
    rw [Emitter.stack_landExits]
    unfold Emitter.close
    -- only the function body returns
    split
    · exact Emitter.emits_exit .returned _ _ rfl
    · rfl
  -- the construct is closed before the check for a missing `else`
  have hrun : exitFrame ⟨numLocals, e, f :: fs, dead⟩ =
      (do
        if f.kind = .ifThen ∧ 0 < f.arity then
          throw .elseMissing
        emitting (do
          patchExits f
          Emitter.modifyStack fun s => (s.truncate f.entry).pushSlots f.arity.toNat
          if f.kind = .function then
            Emitter.exit .returned) : Step Unit) ⟨numLocals, e, fs, dead⟩ := rfl
  rw [hrun]
  by_cases hc : f.kind = .ifThen ∧ 0 < f.arity
  · simp only [if_pos hc]
    rfl
  · simp only [if_neg hc]
    exact emitting_eq hemit

end Parts

/-! ### Steps -/

/-- **An action does what the analysis says**: it succeeds with one of the effects of `i`, or it
fails with the same error. -/
def Accounted (numLocals : Nat) (i : Instruction) (t : Compilation) (action : Step Unit) :
    Except StepError Heights → Prop
  | .ok a => ∃ t', action t = .ok () t' ∧ Effect numLocals i t t' ∧ t'.heights = a
  | .error err => ∃ t', action t = .error err t'

/-- Only what the action does in the given state matters, so a step may be rewritten before it is
accounted for. -/
theorem Accounted.congr {numLocals : Nat} {i : Instruction} {t : Compilation}
    {action action' : Step Unit} {r : Except StepError Heights}
    (h : Accounted numLocals i t action r) (he : action' t = action t) :
    Accounted numLocals i t action' r := by
  cases r with
  | error err =>
    obtain ⟨t', ht'⟩ := h
    exact ⟨t', he.trans ht'⟩
  | ok a =>
    obtain ⟨t', ht', heffect⟩ := h
    exact ⟨t', he.trans ht', heffect⟩

/-- **Both make the same check first.** If it fails, both fail with the same error, and otherwise
they go on; so only what comes after all checks has to be looked at. -/
theorem Accounted.check {numLocals : Nat} {i : Instruction} {t : Compilation} {α : Type}
    {action : Step α} {next : α → Step Unit} {c : Except StepError α}
    {cont : α → Except StepError Heights} (hc : action t = checked t c)
    (hnext : ∀ a, c = .ok a → Accounted numLocals i t (next a) (cont a)) :
    Accounted numLocals i t (action >>= next) (c >>= cont) := by
  cases c with
  | error err => exact ⟨t, run_bind_error hc⟩
  | ok a => exact (hnext a rfl).congr (run_bind hc)

namespace Sound

variable {numLocals results : Nat} {e : Emitter} {f : Frame} {fs : List Frame} {dead : Option Nat}

theorem entry_le (h : Sound numLocals results ⟨numLocals, e, f :: fs, dead⟩) :
    f.entry ≤ e.stack.height :=
  h.nested.entry_le

theorem locals_le (h : Sound numLocals results ⟨numLocals, e, f :: fs, dead⟩) :
    numLocals ≤ f.entry :=
  h.nested.locals_le

theorem height_le (h : Sound numLocals results ⟨numLocals, e, f :: fs, dead⟩) :
    e.stack.height ≤ e.stack.ceiling :=
  h.consistent.active_le_ceiling

/-- **The operands a straight-line instruction needs are there, so it is emitted.** The analysis
only follows how many there are. -/
theorem accounted_emission (h : Sound numLocals results ⟨numLocals, e, f :: fs, none⟩)
    {i : Instruction} {op : Operation} (hop : operation? i = some op)
    (hindex : ∀ x, i = .localGet x → x.toNat < numLocals)
    (hpops : op.pops ≤ e.stack.height - f.entry) :
    Accounted numLocals i ⟨numLocals, e, f :: fs, none⟩ (emitting (Emitter.emission i))
      (.ok ((heights ⟨numLocals, e, f :: fs, none⟩).raise (e.stack.height - op.pops + 1))) := by
  have hentry := h.entry_le
  have hlocals := h.locals_le
  obtain ⟨s, code, hemits, htr, hheight, hceil⟩ := Emitter.exists_emission
    h.consistent hop hindex f.entry (k := e.stack.height - op.pops)
    (by change e.stack.height = _; omega) (by omega) (by omega)
  refine ⟨_, emitting_eq (hemits e rfl),
    .operation hop hindex (by omega) (by omega) htr hheight hceil, ?_⟩
  simp only [heights, Heights.raise, Emitter.stack_extend, hheight, hceil]

/-- A copy of a local, if there is such a local. -/
theorem accounted_localGet (h : Sound numLocals results ⟨numLocals, e, f :: fs, none⟩)
    (index : UInt32) :
    Accounted numLocals (.localGet index) ⟨numLocals, e, f :: fs, none⟩
      (stepLive (.localGet index))
      ((heights ⟨numLocals, e, f :: fs, none⟩).stepLive numLocals f.scope (fs.map Frame.scope)
        (.localGet index)) := by
  change Accounted numLocals _ _ _ (if numLocals ≤ index.toNat then _ else _)
  by_cases hindex : numLocals ≤ index.toNat
  · -- both refuse the index before anything is emitted
    rw [if_pos hindex]
    have hrun : stepLive (.localGet index) ⟨numLocals, e, f :: fs, none⟩ =
        .error (.localIndex index numLocals) ⟨numLocals, e, f :: fs, none⟩ := by
      change (ite (numLocals ≤ index.toNat) _ _ : Step Unit) _ = _
      rw [if_pos hindex]
      rfl
    exact ⟨_, hrun⟩
  · rw [if_neg hindex]
    have hrun : stepLive (.localGet index) ⟨numLocals, e, f :: fs, none⟩ =
        emitting (Emitter.localGet index.toNat) ⟨numLocals, e, f :: fs, none⟩ := by
      change (ite (numLocals ≤ index.toNat) _ _ : Step Unit) _ = _
      rw [if_neg hindex]
    have hemit := h.accounted_emission (i := .localGet index) rfl
      (fun x hx => by cases hx; omega) (Nat.zero_le _)
    exact hemit.congr hrun

/-- What a passed check of the operands says. -/
theorem le_of_require {a : Heights} {scope : Scope} {n : Nat} {u : Unit}
    (h : a.require scope n = .ok u) : n ≤ a.height - scope.entry := by
  unfold Heights.require at h
  split at h
  · cases h
  · omega

theorem eq_of_requireThen {scope : Scope} {u : Unit} (h : Heights.requireThen scope = .ok u) :
    scope.kind = .ifThen := by
  unfold Heights.requireThen at h
  split at h
  · assumption
  · cases h

theorem eq_of_requireExit {a : Heights} {scope : Scope} {u : Unit}
    (h : a.requireExit scope = .ok u) : a.height - scope.entry = scope.arity := by
  unfold Heights.requireExit at h
  split at h
  · assumption
  · cases h

/-- Sums and comparisons, which take two operands. -/
theorem accounted_binary (h : Sound numLocals results ⟨numLocals, e, f :: fs, none⟩)
    {i : Instruction} {op : Operation} (hop : operation? i = some op) (hpops : op.pops = 2)
    (hindex : ∀ x, i ≠ .localGet x) :
    Accounted numLocals i ⟨numLocals, e, f :: fs, none⟩
      (do requireOperands 2; emitting (Emitter.emission i)) (do
        (heights ⟨numLocals, e, f :: fs, none⟩).require f.scope 2
        return { heights ⟨numLocals, e, f :: fs, none⟩ with height := e.stack.height - 1 }) := by
  refine Accounted.check (requireOperands_eq h.entry_le rfl) fun _ hle => ?_
  replace hle : 2 ≤ e.stack.height - f.entry := le_of_require hle
  have hceil := h.height_le
  -- two operands are replaced by one, so no new height is reached
  have hraise : (heights ⟨numLocals, e, f :: fs, none⟩).raise (e.stack.height - op.pops + 1) =
      { heights ⟨numLocals, e, f :: fs, none⟩ with height := e.stack.height - 1 } := by
    simp only [Heights.raise, heights, Heights.mk.injEq, true_and, and_true]
    omega
  have hemit := h.accounted_emission hop (fun x hx => absurd hx (hindex x)) (by omega)
  rw [hraise] at hemit
  exact hemit

/-- An `if` tests its condition and opens a construct below it. -/
theorem accounted_if (h : Sound numLocals results ⟨numLocals, e, f :: fs, none⟩)
    (type : BlockType) :
    Accounted numLocals (.if_ type) ⟨numLocals, e, f :: fs, none⟩ (stepLive (.if_ type))
      ((heights ⟨numLocals, e, f :: fs, none⟩).stepLive numLocals f.scope (fs.map Frame.scope)
        (.if_ type)) := by
  refine Accounted.check (requireOperands_eq h.entry_le rfl) fun _ hle => ?_
  replace hle : 1 ≤ e.stack.height - f.entry := le_of_require hle
  have hlocals := h.locals_le
  -- the construct starts at the height below its condition
  obtain ⟨s, code, b, htested, hjump⟩ := Emitter.exists_jumpIfZero h.consistent.toCoherent
    (k := e.stack.height - 1) (by change e.stack.height = _; omega) (by omega)
  have hheight : s.height = e.stack.height - 1 := htested.height_eq
  refine ⟨_, (run_bind (emitting_eq (hjump e rfl))).trans ?_, .if_ (by omega) (by omega) htested,
    ?_⟩
  · rw [← hheight]
    rfl
  · have hceil : s.ceiling = e.stack.ceiling := htested.ceiling_eq
    simp only [heights, List.map_cons, Frame.scope, Frame.opened, Emitter.stack_withJump,
      Emitter.stack_extend, hheight, hceil]
    rfl

/-- The heights at the start of an `else`. -/
theorem heights_startElse (h : Sound numLocals results ⟨numLocals, e, f :: fs, dead⟩)
    (e' : Emitter) (hheight : e'.stack.height = e.stack.height)
    (hceil : e'.stack.ceiling = e.stack.ceiling)
    (hc : e'.stack.Consistent numLocals e.stack.height) (exits : List Nat) :
    heights ⟨numLocals, e'.startElse f,
        { f with kind := .ifElse, exits, otherwise := none } :: fs, none⟩ =
      (heights ⟨numLocals, e, f :: fs, dead⟩).enterElse f.scope (fs.map Frame.scope) := by
  obtain ⟨-, hheight', hceil', -⟩ := Emitter.consistent_startElse (hheight.symm ▸ hc) h.locals_le
    (hheight ▸ h.entry_le)
  simp only [heights, Heights.enterElse, hheight', hceil', hceil, List.map_cons, Frame.scope]

/-- **Where a construct may end, its results are on top** and can be carried into their slots. This
is common to `else` and `end`, which go on differently. -/
theorem accounted_results (h : Sound numLocals results ⟨numLocals, e, f :: fs, none⟩)
    {i : Instruction} {next : Unit → Step Unit} {cont : Unit → Except StepError Heights}
    (hnext : ∀ u s code, e.stack.height = f.entry + f.arity.toNat →
      Emitter.Emits (Emitter.carry f.entry f.arity) e.stack () s code →
      Carried numLocals f.entry f.arity.toNat e.stack s code →
      Accounted numLocals i ⟨numLocals, e, f :: fs, none⟩ (next u) (cont u)) :
    Accounted numLocals i ⟨numLocals, e, f :: fs, none⟩ (requireExit f >>= next)
      ((heights ⟨numLocals, e, f :: fs, none⟩).requireExit f.scope >>= cont) := by
  refine Accounted.check (requireExit_eq h.entry_le h.nested.arity_nonneg) fun u hexit => ?_
  replace hexit : e.stack.height - f.entry = f.arity.toNat := eq_of_requireExit hexit
  have hentry := h.entry_le
  have hheight : e.stack.height = f.entry + f.arity.toNat := by omega
  obtain ⟨s, code, hemits, hcarried⟩ := Emitter.exists_carry h.consistent.toCoherent f.entry f.arity
    h.locals_le (Nat.le_of_eq hheight.symm)
  exact hnext u s code hheight hemits hcarried

/-- The jump to the `else` of an `if` is pending until its `else` is reached, so there is something
to patch. -/
theorem exists_otherwise (h : Sound numLocals results ⟨numLocals, e, f :: fs, dead⟩)
    (hkind : f.kind = .ifThen) :
    ∃ j x, f.otherwise = some j ∧ e.fixups[j]? = some x ∧ x.target = none := by
  obtain ⟨j, hj⟩ := Option.isSome_iff_exists.mp (h.nested.otherwise_isSome.mpr hkind)
  have hlinked : e.Linked (Frame.pending (f :: fs)) := h.linked
  obtain ⟨x, hx, hnone⟩ := exists_fixup hlinked List.mem_cons_self
    (j := j) (by simp [Frame.jumps, hj])
  exact ⟨j, x, hj, hx, hnone⟩

/-- An `else` in live code: carry the results, jump over the second arm, and start it. -/
theorem accounted_else (h : Sound numLocals results ⟨numLocals, e, f :: fs, none⟩) :
    Accounted numLocals .else_ ⟨numLocals, e, f :: fs, none⟩ (stepLive .else_)
      ((heights ⟨numLocals, e, f :: fs, none⟩).stepLive numLocals f.scope (fs.map Frame.scope)
        .else_) := by
  refine Accounted.check (requireThen_eq _) fun _ hkind => ?_
  replace hkind : f.kind = .ifThen := eq_of_requireThen hkind
  refine h.accounted_results fun _ s code hheight hemits hcarried => ?_
  -- the jump over the second arm is a new one, so the jump to the `else` is still pending
  obtain ⟨j, x, hj, hx, hnone⟩ := h.exists_otherwise hkind
  have hx' : ((e.extend s code).withJump .unconditional .always).fixups[j]? = some x := by
    have := (Array.getElem?_eq_some_iff.mp hx).1
    simp only [Emitter.withJump, Emitter.fixups_extend]
    rw [Array.getElem?_push, if_neg (by omega), hx]
  refine ⟨_, (run_bind (branchInto_eq _ _ _ hemits 0)).trans (enterElse_eq hj hx' hnone none),
    .else_ hkind hheight hcarried, ?_⟩
  exact h.heights_startElse ((e.extend s code).withJump .unconditional .always)
    hcarried.height_eq hcarried.ceiling_eq (hcarried.consistent h.consistent) _

/-- The heights after the end of a construct. -/
theorem heights_close (h : Sound numLocals results ⟨numLocals, e, f :: fs, dead⟩)
    {e' : Emitter} (hheight : e'.stack.height = e.stack.height)
    (hceil : e'.stack.ceiling = e.stack.ceiling)
    (hc : e'.stack.Consistent numLocals e.stack.height) :
    heights ⟨numLocals, e'.close f, fs, none⟩ =
      { heights ⟨numLocals, e, f :: fs, dead⟩ with
        scopes := fs.map Frame.scope, dead := none }.raise (f.entry + f.arity.toNat) := by
  obtain ⟨-, hheight', hceil', -⟩ := Emitter.consistent_close (hheight.symm ▸ hc) h.locals_le
    (hheight ▸ h.entry_le)
  simp only [heights, Heights.raise, hheight', hceil', hceil]

/-- **Closing a construct**, after live code or after dead code. The two differ in what was emitted
before, which is `e'`. -/
theorem accounted_exitFrame (h : Sound numLocals results ⟨numLocals, e, f :: fs, dead⟩)
    (e' : Emitter) (hheight : e'.stack.height = e.stack.height)
    (hceil : e'.stack.ceiling = e.stack.ceiling)
    (hc : e'.stack.Consistent numLocals e.stack.height)
    (hlinked : e'.Linked (Frame.pending (f :: fs))) {action : Step Unit}
    (hrun : action ⟨numLocals, e, f :: fs, dead⟩ = exitFrame ⟨numLocals, e', f :: fs, none⟩)
    (heffect : (f.kind = .ifThen → f.arity.toNat = 0) →
      Effect numLocals .end_ ⟨numLocals, e, f :: fs, dead⟩ ⟨numLocals, e'.close f, fs, none⟩) :
    Accounted numLocals .end_ ⟨numLocals, e, f :: fs, dead⟩ action
      ((heights ⟨numLocals, e, f :: fs, dead⟩).leave f.scope (fs.map Frame.scope)) := by
  rw [exitFrame_eq hlinked] at hrun
  -- the analysis counts results with a natural number
  have hpos : 0 < f.arity ↔ 0 < f.arity.toNat := by omega
  simp only [hpos] at hrun
  change Accounted numLocals _ _ _ (if f.kind = .ifThen ∧ 0 < f.arity.toNat then _ else _)
  split at hrun
  · next hmissing =>
    rw [if_pos hmissing]
    exact ⟨_, hrun⟩
  · next harity =>
    rw [if_neg harity]
    refine ⟨_, hrun, heffect fun hkind => ?_, h.heights_close hheight hceil hc⟩
    by_contra hne
    exact harity ⟨hkind, by omega⟩

/-- An `end` in live code: carry the results and close the construct. -/
theorem accounted_end (h : Sound numLocals results ⟨numLocals, e, f :: fs, none⟩) :
    Accounted numLocals .end_ ⟨numLocals, e, f :: fs, none⟩ (stepLive .end_)
      ((heights ⟨numLocals, e, f :: fs, none⟩).stepLive numLocals f.scope (fs.map Frame.scope)
        .end_) := by
  refine h.accounted_results fun _ s code hheight hemits hcarried => ?_
  -- carrying emits no jumps, so the same ones are pending
  have hlinked : e.Linked (Frame.pending (f :: fs)) := h.linked
  exact h.accounted_exitFrame (e.extend s code) hcarried.height_eq hcarried.ceiling_eq
    (hcarried.consistent h.consistent)
    (hlinked.extend s fun i hi b j he => by
      subst he
      exact hcarried.computes h.consistent.tested _ hi)
    (run_bind (emitting_eq (hemits e rfl))) fun harity => .end_ harity hheight hcarried

/-- The construct that a branch leaves is found by both or by neither. -/
theorem accounted_target (h : Sound numLocals results ⟨numLocals, e, f :: fs, none⟩)
    {i : Instruction} (depth : UInt32) {next : Frame → Step Unit}
    {cont : Scope → Except StepError Heights}
    (hnext : ∀ g, (f :: fs)[depth.toNat]? = some g → numLocals ≤ g.entry → g.entry ≤ f.entry →
      0 ≤ g.arity → Accounted numLocals i ⟨numLocals, e, f :: fs, none⟩ (next g) (cont g.scope)) :
    Accounted numLocals i ⟨numLocals, e, f :: fs, none⟩ (branchTarget depth >>= next)
      ((heights ⟨numLocals, e, f :: fs, none⟩).target depth >>= cont) := by
  have hrun := branchTarget_eq numLocals e (f :: fs) none depth
  have hscope : (heights ⟨numLocals, e, f :: fs, none⟩).scopes[depth.toNat]? =
      ((f :: fs)[depth.toNat]?).map Frame.scope := List.getElem?_map
  have hlength : (heights ⟨numLocals, e, f :: fs, none⟩).scopes.length = (f :: fs).length :=
    List.length_map _
  unfold Heights.target
  rw [hscope, hlength]
  cases hg : (f :: fs)[depth.toNat]? with
  | none =>
    -- both count the same open constructs in their error
    rw [hg] at hrun
    exact ⟨_, run_bind_error hrun⟩
  | some g =>
    rw [hg] at hrun
    obtain ⟨_, gs, -, hnested⟩ := h.nested.drop hg
    exact (hnext g hg hnested.locals_le (h.nested.entry_le_of_mem (List.mem_of_getElem? hg))
      hnested.arity_nonneg).congr (run_bind hrun)

/-- The heights of the constructs do not depend on the jumps that leave them. -/
theorem map_scope_modify (frames : List Frame) (d j : Nat) :
    (frames.modify d (·.addExit j)).map Frame.scope = frames.map Frame.scope := by
  induction frames generalizing d with
  | nil => simp
  | cons f frames ih =>
    cases d with
    | zero => rfl
    | succ d => exact congrArg (f.scope :: ·) (ih d)

/-- A branch, after which the code is dead. -/
theorem accounted_br (h : Sound numLocals results ⟨numLocals, e, f :: fs, none⟩)
    (depth : UInt32) :
    Accounted numLocals (.br depth) ⟨numLocals, e, f :: fs, none⟩ (stepLive (.br depth))
      ((heights ⟨numLocals, e, f :: fs, none⟩).stepLive numLocals f.scope (fs.map Frame.scope)
        (.br depth)) := by
  refine h.accounted_target depth fun g hg hl hle harity => ?_
  refine Accounted.check (requireOperands_eq h.entry_le (Int.toNat_of_nonneg harity).symm)
    fun _ hn => ?_
  replace hn : g.arity.toNat ≤ e.stack.height - f.entry := le_of_require hn
  have hentry := h.entry_le
  -- the operands of the innermost construct are enough to carry the results out of `g`
  obtain ⟨s, code, hemits, hcarried⟩ := Emitter.exists_carry h.consistent.toCoherent g.entry
    g.arity hl (by change _ ≤ e.stack.height; omega)
  refine ⟨_, (run_bind (branchInto_eq _ _ _ hemits depth)).trans rfl,
    .br hg (by omega) hcarried, ?_⟩
  have hheight : s.height = e.stack.height := hcarried.height_eq
  have hceil : s.ceiling = e.stack.ceiling := hcarried.ceiling_eq
  simp only [heights, map_scope_modify, Emitter.stack_withJump, Emitter.stack_extend, hheight,
    hceil]

/-- A conditional branch is a branch behind a jump over it. Two jumps are added; the second one
leaves the construct, and the first one lands right behind it. -/
theorem accounted_brIf (h : Sound numLocals results ⟨numLocals, e, f :: fs, none⟩)
    (depth : UInt32) :
    Accounted numLocals (.brIf depth) ⟨numLocals, e, f :: fs, none⟩ (stepLive (.brIf depth))
      ((heights ⟨numLocals, e, f :: fs, none⟩).stepLive numLocals f.scope (fs.map Frame.scope)
        (.brIf depth)) := by
  refine h.accounted_target depth fun g hg hl hle harity => ?_
  have hcount : 1 + g.arity = ((1 + g.arity.toNat : Nat) : Int) := by omega
  refine Accounted.check (requireOperands_eq h.entry_le hcount) fun _ hn => ?_
  replace hn : 1 + g.arity.toNat ≤ e.stack.height - f.entry := le_of_require hn
  have hentry := h.entry_le
  have hlocals := h.locals_le
  have hcons : e.stack.Consistent numLocals e.stack.height := h.consistent
  obtain ⟨s, code, b, htested, hjump⟩ := Emitter.exists_jumpIfZero hcons.toCoherent
    (k := e.stack.height - 1) (by omega) (by omega)
  have hheight : s.height = e.stack.height - 1 := htested.height_eq
  -- everything is in memory already, so carrying moves no operand
  obtain ⟨s', code', hemits, hcarried⟩ := Emitter.exists_carry (hheight ▸ htested.coherent)
    g.entry g.arity hl (by omega)
  obtain rfl := hcarried.eq_of_settled (hheight ▸ htested.settled)
  have hbranch := branchInto_eq numLocals (f :: fs) none
    (e := (e.extend s' code).withJump .ifZero b) hemits depth
  -- the first of the two new jumps lands behind the branch
  have hpatch := Emitter.label_patch (j := e.fixups.size)
    (e := (((e.extend s' code).withJump .ifZero b).extend s' code').withJump .unconditional .always)
    (x := .pending .ifZero ⟨b, (e.extend s' code).code.size⟩)
    (by
      simp only [Emitter.withJump, Emitter.fixups_extend]
      rw [Array.getElem?_push, if_neg (by rw [Array.size_push]; omega), Array.getElem?_push,
        if_pos rfl])
    rfl
  refine ⟨_, (run_bind (emitting_eq (hjump e rfl))).trans ((run_bind hbranch).trans
    (emitting_eq hpatch)), ?_, ?_⟩
  · have hsize : ((e.extend s' code).withJump .ifZero b).fixups.size = e.fixups.size + 1 := by
      simp [Emitter.withJump]
    rw [hsize]
    exact .brIf hg (by omega) (by omega) htested hcarried
  · have hceil : s'.ceiling = e.stack.ceiling := htested.ceiling_eq
    simp only [heights, map_scope_modify, Emitter.stack_land, Emitter.stack_withJump,
      Emitter.stack_extend, hheight, hceil]

/-- **Live code**, one instruction after the other. -/
theorem accounted_live (h : Sound numLocals results ⟨numLocals, e, f :: fs, none⟩)
    (i : Instruction) :
    Accounted numLocals i ⟨numLocals, e, f :: fs, none⟩ (stepLive i)
      ((heights ⟨numLocals, e, f :: fs, none⟩).stepLive numLocals f.scope (fs.map Frame.scope)
        i) := by
  -- each instruction has its own lemma, apart from those that are not checked
  cases i with
  | localGet index => exact h.accounted_localGet index
  | add => exact h.accounted_binary rfl rfl (by simp)
  | eq => exact h.accounted_binary rfl rfl (by simp)
  | block type => exact ⟨_, rfl, .block, rfl⟩
  | if_ type => exact h.accounted_if type
  | else_ => exact h.accounted_else
  | end_ => exact h.accounted_end
  | br depth => exact h.accounted_br depth
  | brIf depth => exact h.accounted_brIf depth
  | unreachable =>
    exact ⟨_, (run_bind (emitting_eq (Emitter.emits_exit .unreachable e.stack e rfl))).trans rfl,
      .unreachable, rfl⟩

/-- **Dead code**: nothing is emitted, and only the ends of constructs matter. An `else` or `end` is
that of the construct in which the code became dead only at depth zero. -/
theorem accounted_dead {depth : Nat}
    (h : Sound numLocals results ⟨numLocals, e, f :: fs, some depth⟩) (i : Instruction) :
    Accounted numLocals i ⟨numLocals, e, f :: fs, some depth⟩ (stepDead depth i)
      ((heights ⟨numLocals, e, f :: fs, some depth⟩).stepDead f.scope (fs.map Frame.scope) depth
        i) := by
  cases i with
  | block type => exact ⟨_, rfl, .deadOpen ⟨type, .inl rfl⟩, rfl⟩
  | if_ type => exact ⟨_, rfl, .deadOpen ⟨type, .inr rfl⟩, rfl⟩
  -- at depth zero the construct is the one in which the code became dead, and is checked
  | else_ =>
    cases depth with
    | succ depth =>
      exact ⟨_, rfl, .deadSkip (by simp) (by simp) fun _ => Nat.succ_pos depth, rfl⟩
    | zero =>
      refine Accounted.check (requireThen_eq _) fun _ hkind => ?_
      replace hkind : f.kind = .ifThen := eq_of_requireThen hkind
      obtain ⟨j, x, hj, hx, hnone⟩ := h.exists_otherwise hkind
      exact ⟨_, enterElse_eq hj hx hnone none, .deadElse hkind,
        h.heights_startElse e rfl rfl h.consistent f.exits⟩
  | end_ =>
    cases depth with
    | succ depth => exact ⟨_, rfl, .deadClose, rfl⟩
    | zero =>
      exact h.accounted_exitFrame e rfl rfl h.consistent h.linked rfl .deadEnd
  -- anything else is passed over, without a look at its immediates
  | _ => exact ⟨_, rfl, .deadSkip (by simp) (by simp) (by simp), rfl⟩

end Sound

/-- **A step does what the height analysis says.** This is the only result about `Compilation.step`;
everything that follows goes by the effects. -/
theorem Sound.step {numLocals results : Nat} {t : Compilation} {f : Frame} {fs : List Frame}
    (h : Sound numLocals results t) (ht : t.frames = f :: fs) (i : Instruction) :
    Accounted numLocals i t (step i)
      (t.heights.step numLocals f.scope (fs.map Frame.scope) i) := by
  obtain ⟨n, e, frames, dead⟩ := t
  obtain rfl : n = numLocals := h.numLocals_eq
  obtain rfl : frames = f :: fs := ht
  cases dead with
  | none => exact (h.accounted_live i).congr rfl
  | some depth => exact (h.accounted_dead i).congr rfl

end Compilation

end WasmJit
