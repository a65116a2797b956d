import WasmJit.Proofs.Compilation.Effects
import WasmJit.Proofs.Machine.Assembly

/-!
# Compilations stay sound

Every effect of an instruction leads from a sound compilation to a sound one (`Effect.sound`), so
the compilation of a body stays sound from its start to its end.

* `Compilation.Steps numLocals is t t'` : the instructions `is` lead from `t` to `t'`, one effect
  after the other, and a construct is open in front of each of them.
* `Function.body_spec`: translating a body and analysing its heights either both succeed, with the
  same greatest height, or both fail with the same error.
* `Assembler.Covers` is all that compiling a function asks of the assembler on top of that
  (`Function.compileWith_spec`). The assembler of this library covers every function
  (`Assembler.covers_assembleAfter`), so `Function.compile` fails only where the analysis does
  (`Function.compile_spec`).
* `CompiledFunction.From` is what is known about a compiled function and its compilation.
-/

namespace WasmJit

namespace Emitter

variable {e : Emitter} {numLocals : Nat} {f : Frame} {fs : List Frame} {s : OperandStack}
  {code : List (Instr Nat)} {pending : List Nat}

/-! ### Landing at constructs -/

/-- Straight-line code has no jumps, so emitting it leaves the pending jumps as they are. -/
theorem Linked.extend_computes {size : Nat} (h : e.Linked pending) (s : OperandStack)
    (hcode : ∀ i, i ∈ code → i.Computes numLocals size) : (e.extend s code).Linked pending :=
  h.extend s fun i hi b j he => by
    subst he
    exact hcode _ hi

/-- Starting an `else` lands the jump over the first arm. Of the jumps of the construct only those
that leave it stay pending. -/
theorem Linked.startElse (h : e.Linked (Frame.pending (f :: fs))) :
    (e.startElse f).Linked (f.exits ++ Frame.pending fs) :=
  (h.perm (f.pending_perm_otherwise fs)).land.congr rfl rfl

/-- A conditional branch leaves two jumps behind, the one that jumps over the branch first: it is
pending until the branch has been emitted (`Effect.sound` lands it right away), the branch itself
until its construct ends. -/
theorem Linked.jumpOver {k entry count : Nat} {s : OperandStack} {b : Branch}
    {code' : List (Instr Nat)} (h : e.Linked pending) (ht : Tested numLocals k e.stack s code b)
    (hc : Carried numLocals entry count s s code') (hequal : e.stack.OnlyEqual (k + 1)) :
    ((((e.extend s code).withJump .ifZero b).extend s code').withJump .unconditional .always).Linked
      ([e.fixups.size] ++ (e.fixups.size + 1) :: pending) := by
  -- emitting the test, the jump over, the moves and the branch puts the newest jump first
  have hjumps := (((h.extend_computes s (ht.computes hequal)).withJump .ifZero b).extend_computes s
    (hc.computes (ht.height_eq.symm ▸ ht.settled.onlyEqual))).withJump .unconditional .always
  have hsize : (((e.extend s code).withJump .ifZero b).extend s code').fixups.size =
      e.fixups.size + 1 := by
    simp [Emitter.withJump]
  rw [hsize] at hjumps
  exact hjumps.perm (List.Perm.swap _ _ _)

/-- At the end of a construct all of its jumps land. If it has none, no label is placed, and nothing
changes. -/
theorem Linked.landExits (h : e.Linked (Frame.pending (f :: fs))) :
    (e.landExits f).Linked (Frame.pending fs) := by
  unfold Emitter.landExits
  split
  · next hnil =>
    rw [Frame.pending_cons, hnil] at h
    exact h
  · exact h.land

/-- Closing a construct lands its jumps and nothing else; what the function body emits on top is the
exit sequence, which has no jump. -/
theorem Linked.close (h : e.Linked (Frame.pending (f :: fs))) :
    (e.close f).Linked (Frame.pending fs) := by
  have hend : (e.afterEnd f).Linked (Frame.pending fs) := h.landExits.congr rfl rfl
  unfold Emitter.close
  split
  · refine hend.extend _ fun i hi b j he => ?_
    subst he
    simp [exitCode] at hi
  · exact hend

/-- A label in front of the `else` arm keeps the compilation guarded: the operands of the first arm
are dropped, and the greatest height stays. -/
theorem Guarded.startElse (h : e.Guarded numLocals)
    (hc : e.stack.Consistent numLocals e.stack.height) (hl : numLocals ≤ f.entry)
    (he : f.entry ≤ e.stack.height) : (e.startElse f).Guarded numLocals := by
  obtain ⟨-, -, hceil, -⟩ := consistent_startElse hc hl he
  exact (h.land f.otherwise.toList).congr rfl (Nat.le_of_eq hceil.symm)

/-- Closing a construct keeps the compilation guarded. The results may bring the greatest height up
to their own, never down, and the function body exits with the successful status. -/
theorem Guarded.close (h : e.Guarded numLocals)
    (hc : e.stack.Consistent numLocals e.stack.height) (hl : numLocals ≤ f.entry)
    (he : f.entry ≤ e.stack.height) : (e.close f).Guarded numLocals := by
  -- first the label, then the results, then the exit sequence of the function body
  have hland : (e.landExits f).Guarded numLocals := by
    unfold Emitter.landExits
    split
    · exact h
    · exact h.land f.jumps
  have hend : (e.afterEnd f).Guarded numLocals := by
    refine hland.congr rfl ?_
    obtain ⟨-, -, hceil, -⟩ := consistent_close hc hl he
    rw [stack_close] at hceil
    simp only [stack_landExits, afterEnd, hceil]
    exact Nat.le_max_left _ _
  unfold Emitter.close
  split
  · exact hend.exit (.inl rfl)
  · exact hend

end Emitter

namespace Compilation

open Emitter (Transforms Tested Carried exitCode)

/-! ### One instruction -/

section Effects

variable {numLocals results : Nat} {i : Instruction} {t t' : Compilation}

/-- Starting an `else` keeps a compilation sound, after live code or after dead code: only the
innermost construct and its pending jumps are touched. -/
theorem Sound.startElse {e : Emitter} {f : Frame} {fs : List Frame} {dead dead' : Option Nat}
    (h : Sound numLocals results ⟨numLocals, e, f :: fs, dead⟩) (hkind : f.kind = .ifThen) :
    Sound numLocals results
      ⟨numLocals, e.startElse f, { f with kind := .ifElse, otherwise := none } :: fs, dead'⟩ := by
  obtain ⟨hcons, hheight, -, -⟩ := Emitter.consistent_startElse h.consistent h.locals_le h.entry_le
  refine ⟨rfl, hheight.symm ▸ hcons, hheight.symm ▸ h.nested.enter_else hkind f.exits, ?_,
    h.guarded.startElse h.consistent h.locals_le h.entry_le, by simp⟩
  simpa [Frame.jumps] using Emitter.Linked.startElse h.linked

/-- Closing a construct keeps a compilation sound, after live code or after dead code: its results
take its place on the operand stack, and its jumps land. -/
theorem Sound.close {e : Emitter} {f : Frame} {fs : List Frame} {dead dead' : Option Nat}
    (h : Sound numLocals results ⟨numLocals, e, f :: fs, dead⟩) :
    Sound numLocals results ⟨numLocals, e.close f, fs, dead'⟩ := by
  obtain ⟨hcons, hheight, -, -⟩ := Emitter.consistent_close h.consistent h.locals_le h.entry_le
  refine ⟨rfl, hheight.symm ▸ hcons, hheight.symm ▸ h.nested.leave, Emitter.Linked.close h.linked,
    h.guarded.close h.consistent h.locals_le h.entry_le, fun hnil => ?_⟩
  -- only the function body has nothing around it
  have hkind := h.nested.kind_eq_function.mpr hnil
  simp [Emitter.close, hkind, Emitter.extend, exitCode]

/-- Carrying results moves operands, and leaves no jump behind. -/
theorem Sound.carry {e : Emitter} {frames : List Frame} {dead : Option Nat} {entry count : Nat}
    {s : OperandStack} {code : List (Instr Nat)}
    (h : Sound numLocals results ⟨numLocals, e, frames, dead⟩) (hne : frames ≠ [])
    (hc : Carried numLocals entry count e.stack s code) :
    Sound numLocals results ⟨numLocals, e.extend s code, frames, dead⟩ where
  numLocals_eq := rfl
  consistent := hc.height_eq.symm ▸ hc.consistent h.consistent
  nested := hc.height_eq.symm ▸ h.nested
  linked := Emitter.Linked.extend_computes h.linked s (hc.computes h.consistent.tested)
  guarded := h.guarded.extend_computes (Nat.le_of_eq hc.ceiling_eq.symm)
    (hc.computes h.consistent.tested)
  ended hnil := absurd hnil hne

/-- A branch leaves a jump behind at the construct that it leaves. -/
theorem Sound.branch {e : Emitter} {frames : List Frame} {dead : Option Nat} {d : Nat}
    (h : Sound numLocals results ⟨numLocals, e, frames, dead⟩) (hd : d < frames.length)
    (dead' : Option Nat) :
    Sound numLocals results ⟨numLocals, e.withJump .unconditional .always,
      frames.modify d (·.addExit e.fixups.size), dead'⟩ where
  numLocals_eq := rfl
  consistent := h.consistent
  nested := h.nested.modify d _
  linked := (Emitter.Linked.withJump h.linked _ _).perm (Frame.pending_modify frames d _ hd).symm
  guarded := h.guarded.withJump _ _
  ended hnil := by
    have hlength : (frames.modify d (·.addExit e.fixups.size)).length = 0 :=
      congrArg List.length hnil
    rw [List.length_modify] at hlength
    omega

/-- **Every effect keeps a compilation sound.** By cases on the effect: each of them is made of
straight-line code (`Linked.extend_computes`, `Guarded.extend_computes`), jumps and labels, and the
parts of soundness follow from what these do. -/
theorem Effect.sound (he : Effect numLocals i t t') (h : Sound numLocals results t) :
    Sound numLocals results t' := by
  cases he with
  | @operation _ op e f fs k s code hop hindex hheight hfloor htr hheight' hceil =>
    -- an operation never digs below its construct, so the constructs stay nested as they are
    have hentry : f.entry ≤ s.height := by omega
    have hcomputes := htr.computes h.consistent.tested
    exact ⟨rfl, hheight'.symm ▸ htr.consistent h.consistent h.locals_le, h.nested.at_height hentry,
      Emitter.Linked.extend_computes h.linked _ hcomputes,
      h.guarded.extend_computes htr.ceiling_le hcomputes, by simp⟩
  | block =>
    exact ⟨rfl, h.consistent, h.nested.enter (by simp [Frame.opened]) (by simp [Frame.opened])
      (by simp [Frame.opened]) rfl, h.linked, h.guarded, by simp⟩
  | @if_ type e f fs k s code b hheight hfloor htested =>
    -- the construct is entered below the condition, with one pending jump to its `else`
    have hs : s.height = k := htested.height_eq
    have hcons : e.stack.Consistent numLocals (k + 1) := hheight ▸ h.consistent
    have hcomputes := htested.computes hcons.tested
    refine ⟨rfl, hs.symm ▸ htested.consistent hcons (Nat.le_trans h.locals_le hfloor), ?_, ?_, ?_,
      by simp⟩
    · exact (h.nested.at_height (hs ▸ hfloor)).enter (by simp [Frame.opened])
        (by simp [Frame.opened]) (by simp [Frame.opened]) hs.symm
    · exact (Emitter.Linked.extend_computes h.linked s hcomputes).withJump _ _
    · exact (h.guarded.extend_computes (Nat.le_of_eq htested.ceiling_eq.symm)
        hcomputes).withJump _ _
  | else_ hkind hheight hcarried =>
    -- the jump over the second arm is a branch out of the innermost construct
    exact ((h.carry (by simp) hcarried).branch (d := 0) (by simp) none).startElse hkind
  | end_ harity hheight hcarried => exact (h.carry (by simp) hcarried).close
  | br htarget hfloor hcarried =>
    exact (h.carry (by simp) hcarried).branch (List.getElem?_eq_some_iff.mp htarget).1 (some 0)
  | @brIf depth e f g fs k s code code' b htarget hheight hfloor htested hcarried =>
    have hs : s.height = k := htested.height_eq
    have hd := (List.getElem?_eq_some_iff.mp htarget).1
    have hceil := Nat.le_of_eq htested.ceiling_eq.symm
    have hcons : e.stack.Consistent numLocals (k + 1) := hheight ▸ h.consistent
    have hlocals : numLocals ≤ f.entry := h.locals_le
    have hcomputes := htested.computes hcons.tested
    have hcomputes' := hcarried.computes (hs.symm ▸ htested.settled.onlyEqual)
    refine ⟨rfl, hs.symm ▸ htested.consistent hcons (by omega), ?_, ?_, ?_, fun hnil => ?_⟩
    · -- the branch may leave any open construct, of which only the exits change
      have hentry : f.entry ≤ s.height := by omega
      exact (h.nested.at_height hentry).modify _ _
    · -- the jump over the branch lands, the branch itself stays pending
      have hland := (Emitter.Linked.jumpOver h.linked htested hcarried hcons.tested).land
      exact hland.perm (Frame.pending_modify (f :: fs) depth.toNat _ hd).symm
    · exact ((((h.guarded.extend_computes hceil hcomputes).withJump _ _).extend_computes
        (Nat.le_refl _) hcomputes').withJump _ _).land _
    · have hlength := congrArg List.length hnil
      simp at hlength
  | @unreachable e fs =>
    -- a trap emits an exit sequence and leaves the operands where they are
    refine ⟨rfl, h.consistent, h.nested, ?_, h.guarded.exit (.inr rfl), ?_⟩
    · refine Emitter.Linked.extend h.linked _ fun i hi b j he => ?_
      subst he
      simp [exitCode] at hi
    · simp [Emitter.extend, exitCode]
  | deadOpen => exact ⟨rfl, h.consistent, h.nested, h.linked, h.guarded, h.ended⟩
  | deadClose => exact ⟨rfl, h.consistent, h.nested, h.linked, h.guarded, h.ended⟩
  | deadSkip => exact h
  -- nothing was carried here, as execution never arrives
  | deadElse hkind => exact h.startElse hkind
  | deadEnd harity => exact h.close

end Effects

/-! ### Whole bodies -/

/-- **The instructions of a body**, one effect after the other; a construct is open in front of each
of them. -/
inductive Steps (numLocals : Nat) : List Instruction → Compilation → Compilation → Prop
  | nil (t : Compilation) : Steps numLocals [] t t
  | cons {i : Instruction} {is : List Instruction} {t t₁ t' : Compilation}
      (frames : t.frames ≠ []) (effect : Effect numLocals i t t₁)
      (steps : Steps numLocals is t₁ t') : Steps numLocals (i :: is) t t'

variable {numLocals results : Nat}

/-- The compilation of a function starts sound: the locals are in their slots, the function body is
the only open construct, and the one instruction emitted so far sets up the base of the slots. -/
theorem sound_start (f : Function) : Sound f.numLocals f.type.results.length (start f) := by
  obtain ⟨hcons, hheight, -, -⟩ := OperandStack.Consistent.start f.numLocals
  have hstack : (start f).emitter.stack = OperandStack.empty.pushSlots f.numLocals := rfl
  -- there is one instruction, and no jump
  have hfix : ∀ j : Nat, (start f).emitter.fixups[j]? = none := fun j => rfl
  have hcode : ∀ (q : Nat) i, (start f).emitter.code[q]? = some i →
      q = 0 ∧ i = .load .callRecord 0 .valueStack := by
    intro q i hi
    change #[_][q]? = some i at hi
    cases q with
    | zero => exact ⟨rfl, (Option.some.inj hi).symm⟩
    | succ q => simp at hi
  refine ⟨rfl, ?_, ?_, ?_, ?_, fun hnil => by cases hnil⟩
  -- in turn: the operands, the constructs, the jumps and the exits
  · rw [hstack, hheight]
    exact hcons
  · rw [hstack, hheight]
    exact .body rfl rfl rfl rfl (Nat.le_refl _)
  · refine ⟨List.nodup_nil, fun j => ⟨fun hj => ?_, ?_⟩, fun q b j hq => ?_, ?_, ?_⟩
    · cases hj
    · rintro ⟨x, hx, -⟩
      rw [hfix] at hx
      cases hx
    · cases (hcode q _ hq).2
    · intro j x hx
      rw [hfix] at hx
      cases hx
    · intro j x _ hx
      rw [hfix] at hx
      cases hx
  · refine ⟨rfl, fun q i hq hi => ?_, fun q hq => ?_⟩
    · have := (hcode q i hi).1
      omega
    · cases (hcode q _ hq).2

/-- The analysis starts where the compilation does, at the height of the locals. -/
theorem heights_start (f : Function) : (start f).heights = Heights.start f := by
  obtain ⟨-, hheight, hceil, -⟩ := OperandStack.Consistent.start f.numLocals
  have hstack : (start f).emitter.stack = OperandStack.empty.pushSlots f.numLocals := rfl
  simp only [heights, hstack, hheight, hceil]
  rfl

/-- Following one instruction of a body, the compilation and the analysis both go on or both stop
with the same error. That they agree on the instruction itself is `Sound.step`; here the position is
added to its error, and instructions after the end of the body are refused. -/
theorem Sound.advance {t : Compilation} (h : Sound numLocals results t) (length : Nat)
    (l : Located) :
    match t.heights.advance numLocals length l with
    | .ok a => ∃ t', t.advance length l = .ok t' ∧ t'.heights = a ∧ t.frames ≠ [] ∧
        Effect numLocals l.instruction t t'
    | .error err => t.advance length l = .error err := by
  unfold Compilation.advance Heights.advance
  cases hframes : t.frames with
  | nil =>
    -- the body is over, and both refuse what comes after it
    simp only [heights, hframes, List.map_nil]
    rfl
  | cons f fs =>
    have hscopes : t.heights.scopes = f.scope :: fs.map Frame.scope := by
      simp only [heights, hframes, List.map_cons]
    simp only [hscopes, List.isEmpty_cons, Bool.false_eq_true, if_false]
    have hacc := h.step hframes l.instruction
    cases hstep : t.heights.step numLocals f.scope (fs.map Frame.scope) l.instruction with
    | error err =>
      rw [hstep] at hacc
      obtain ⟨t', ht'⟩ := hacc
      simp only [Except.mapError, ht']
    | ok a =>
      rw [hstep] at hacc
      obtain ⟨t', ht', heffect, ha⟩ := hacc
      simp only [Except.mapError, ht']
      exact ⟨t', rfl, ha, by simp, heffect⟩

/-- **Following a body**: the compilation and the analysis go side by side. By induction on the
instructions, with soundness as the invariant, since `Sound.advance` needs it in front of each of
them. -/
theorem Sound.foldlM_advance {t : Compilation} (h : Sound numLocals results t) (length : Nat)
    (ls : List Located) :
    match ls.foldlM (Heights.advance numLocals length) t.heights with
    | .ok a => ∃ t', ls.foldlM (Compilation.advance length) t = .ok t' ∧ t'.heights = a ∧
        Sound numLocals results t' ∧ Steps numLocals (ls.map (·.instruction)) t t'
    | .error err => ls.foldlM (Compilation.advance length) t = .error err := by
  induction ls generalizing t with
  | nil => exact ⟨t, rfl, rfl, h, .nil t⟩
  | cons l ls ih =>
    have hadvance := h.advance length l
    simp only [List.foldlM_cons]
    cases hl : t.heights.advance numLocals length l with
    | error err =>
      rw [hl] at hadvance
      simp only [hadvance]
      rfl
    | ok a =>
      rw [hl] at hadvance
      obtain ⟨t₁, ht₁, rfl, hframes, heffect⟩ := hadvance
      -- the compilation is sound again in front of the next instruction
      have hrest := ih (heffect.sound h)
      rw [ht₁]
      change match ls.foldlM (Heights.advance numLocals length) t₁.heights with
        | .ok a => ∃ t', ls.foldlM (Compilation.advance length) t₁ = .ok t' ∧ _
        | .error err => ls.foldlM (Compilation.advance length) t₁ = .error err
      cases hls : ls.foldlM (Heights.advance numLocals length) t₁.heights with
      | error err =>
        rw [hls] at hrest
        exact hrest
      | ok a =>
        rw [hls] at hrest
        obtain ⟨t', ht', ha, hsound, hsteps⟩ := hrest
        exact ⟨t', ht', ha, hsound, .cons hframes heffect hsteps⟩

/-- Accepted instructions have their effects, one after the other. What the analysis found is
forgotten here; properties of the generated code are proved by induction on the steps alone. -/
theorem Sound.steps_of_foldlM {t t' : Compilation} {length : Nat} {ls : List Located}
    (h : Sound numLocals results t) (ht : ls.foldlM (Compilation.advance length) t = .ok t') :
    Steps numLocals (ls.map (·.instruction)) t t' := by
  -- the analysis must have accepted them too, or the compilation would have failed with its error
  have hfold := h.foldlM_advance length ls
  cases hls : ls.foldlM (Heights.advance numLocals length) t.heights with
  | error err =>
    rw [hls, ht] at hfold
    cases hfold
  | ok a =>
    rw [hls] at hfold
    obtain ⟨t₁, ht₁, -, -, hsteps⟩ := hfold
    rw [ht] at ht₁
    cases ht₁
    exact hsteps

/-- **Soundness lasts**: any number of steps lead from a sound compilation to a sound one. -/
theorem Steps.sound {is : List Instruction} {t t' : Compilation} (hs : Steps numLocals is t t')
    (h : Sound numLocals results t) : Sound numLocals results t' := by
  induction hs with
  | nil => exact h
  | cons _ effect _ ih => exact ih (effect.sound h)

/-- Accepted instructions lead to a sound compilation. -/
theorem Sound.of_foldlM {t t' : Compilation} {length : Nat} {ls : List Located}
    (h : Sound numLocals results t) (ht : ls.foldlM (Compilation.advance length) t = .ok t') :
    Sound numLocals results t' :=
  (h.steps_of_foldlM ht).sound h

end Compilation

/-! ### Finished code -/

/-- Where a jump goes, once it has a label. -/
def Emitter.resolve (e : Emitter) (j : Nat) : Option Nat :=
  (e.fixups[j]?).bind (·.target)

/-- The emitted instructions with their jumps resolved. -/
def Emitter.resolved (e : Emitter) : Program :=
  e.code.map (·.mapTarget e.resolve)

/-- An instruction of the program is the emitted one at the same position, with its jump resolved.
-/
theorem Emitter.getElem?_resolved (e : Emitter) (q : Nat) :
    e.resolved[q]? = (e.code[q]?).map (·.mapTarget e.resolve) :=
  Array.getElem?_map

/-- Finishing assembles the program, unless there is nothing to assemble; an assembler without code
for it is an error as well. -/
theorem Emitter.finishWith_eq (assembler : Assembler) (e : Emitter) :
    finishWith assembler e = match e.program with
      | .error fault => .error fault e
      | .ok p =>
        if p.isEmpty then .error (.assembly .noInstructions) e
        else if (assembler e.extents p).code.isEmpty then
          .error (.assembly .noCode) { e with extents := (assembler e.extents p).extents }
        else
          .ok (p, (assembler e.extents p).code)
            { e with extents := (assembler e.extents p).extents } := by
  have hget : EStateM.get e = (.ok e e : EStateM.Result Fault Emitter Emitter) := rfl
  unfold finishWith
  change EStateM.bind EStateM.get _ e = _
  simp only [EStateM.bind, hget]
  -- no program, no instructions, no code, or both
  cases e.program with
  | error fault => rfl
  | ok p =>
    dsimp only
    split
    · rfl
    · change (if (assembler e.extents p).code.isEmpty then _ else _ :
        Emit (Program × List UInt8)) _ = _
      split
      · rfl
      · rfl

/-- Once all jumps have landed, the program is what was emitted, with the jumps resolved. -/
theorem Emitter.program_eq {e : Emitter} (h : e.Linked []) : e.program = .ok e.resolved := by
  -- a jump without a label would be pending, and none is
  have hfilter : e.fixups.toList.filter (!·.patched) = [] := by
    rw [List.filter_eq_nil_iff]
    intro x hx
    obtain ⟨j, hj, rfl⟩ := List.getElem_of_mem hx
    have hget : e.fixups[j]? = some e.fixups.toList[j] := by
      rw [← Array.getElem?_toList, List.getElem?_eq_getElem hj]
    have hpending := fun hnone => (h.mem_pending j).mpr ⟨_, hget, hnone⟩
    cases htarget : e.fixups.toList[j].target with
    | none => cases hpending htarget
    | some label =>
      rw [Fixup.patched, htarget]
      simp
  have hpatched : Fixup.unpatched? e.listing e.fixups.toList = none := by
    unfold Fixup.unpatched?
    rw [hfilter]
  unfold program
  rw [hpatched]
  rfl

/-- The last emitted instruction, a return, is still in the program. -/
theorem Emitter.ret_mem_resolved {e : Emitter} (h : e.code.back? = some .ret) :
    .ret ∈ e.resolved := by
  have hlast : e.resolved[e.code.size - 1]? = some .ret := by
    rw [getElem?_resolved, ← Array.back?_eq_getElem?, h]
    rfl
  exact Array.mem_of_getElem? hlast

/-- **Finishing does not fail by itself**: once all jumps have landed and there is a return, it is
only left to the assembler to have code for the program. -/
theorem Emitter.finishWith_eq_ok {assembler : Assembler} {e : Emitter} (h : e.Linked [])
    (hret : e.code.back? = some .ret) (hcode : (assembler e.extents e.resolved).code ≠ []) :
    finishWith assembler e = .ok (e.resolved, (assembler e.extents e.resolved).code)
      { e with extents := (assembler e.extents e.resolved).extents } := by
  have hempty : e.resolved.isEmpty = false := by
    have hmem := ret_mem_resolved hret
    simpa using fun hnil : e.resolved = #[] => by simp [hnil] at hmem
  have hcode : (assembler e.extents e.resolved).code.isEmpty = false := by simpa using hcode
  rw [finishWith_eq, program_eq h]
  dsimp only
  rw [hempty, hcode]
  rfl

/-- What finishing returns is the program, with code for it. Here nothing is known about the emitter
or the assembler. -/
theorem Emitter.of_finishWith_eq_ok {assembler : Assembler} {e e' : Emitter} {p : Program}
    {code : List UInt8} (h : finishWith assembler e = .ok (p, code) e') :
    e.program = .ok p ∧ code ≠ [] := by
  rw [finishWith_eq] at h
  -- every other way through `finishWith` is an error
  split at h
  · cases h
  · next p' hp =>
    split at h
    · cases h
    · split at h
      · cases h
      · next hcode =>
        cases h
        exact ⟨hp, mt List.isEmpty_iff.mpr hcode⟩

/-! ### Compiled functions -/

/-- The instructions of the body, as far as it decodes. -/
def Function.instructions (f : Function) : List Instruction :=
  (disassemble f.code.body).instructions.map (·.instruction)

/-- How a function was translated: `t` is the compilation of its body, from start to end. Nothing
has been assembled yet. -/
structure Function.Translates (f : Function) (t : Compilation) : Prop where
  sound : t.Sound f.numLocals f.type.results.length
  closed : t.frames = []
  decoded : (disassemble f.code.body).fault = none
  steps : Compilation.Steps f.numLocals f.instructions (Compilation.start f) t

/-- How a function was compiled: `c` holds what its body was translated to, whatever the assembler
made of it. -/
structure CompiledFunction.From (c : CompiledFunction) (f : Function) (t : Compilation) : Prop
    extends f.Translates t where
  source : c.source = f
  ceiling : c.ceiling = t.emitter.stack.ceiling
  program : c.program = t.emitter.resolved

/-- **An assembler covers a function** if it has code for the program that the body is translated
to. Of a body that is not translated this says nothing. An assembler that encodes every instruction
covers all functions, since a translated body ends with a return. -/
def Assembler.Covers (assembler : Assembler) (f : Function) : Prop :=
  ∀ t p, Compilation.body f = .ok t → t.emitter.program = .ok p →
    (assembler t.emitter.extents p).code ≠ []

/-- Ending a body: the analysis refuses a body with an open construct, or one that does not decode
to its end, with the error of the compilation, and otherwise returns its greatest height. -/
theorem Compilation.close_eq (length : Nat) (fault : Option Instruction.DecodeError)
    (t : Compilation) :
    t.heights.close length fault =
      (t.close length fault).map fun t => t.emitter.stack.ceiling := by
  unfold Heights.close Compilation.close heights
  cases hframes : t.frames <;> cases fault <;> simp [Except.map]

/-- Ending a body changes nothing. It succeeds if no construct is open and the body decoded to its
end. -/
theorem Compilation.eq_of_close {length : Nat} {fault : Option Instruction.DecodeError}
    {t t' : Compilation} (h : t.close length fault = .ok t') :
    t' = t ∧ t'.frames = [] ∧ fault = none := by
  unfold Compilation.close at h
  -- with a fault it is an error in any case
  cases fault with
  | some err =>
    simp only at h
    split at h <;> cases h
  | none =>
    simp only at h
    split at h
    · next hempty =>
      cases h
      exact ⟨rfl, List.isEmpty_iff.mp hempty, rfl⟩
    · cases h

/-- **Translating a body** and analysing its heights: either both succeed, with the same greatest
height, or both fail with the same error. -/
theorem Function.body_spec (f : Function) :
    match f.analyse with
    | .ok n => ∃ t, Compilation.body f = .ok t ∧ f.Translates t ∧ t.emitter.stack.ceiling = n
    | .error err => Compilation.body f = .error err := by
  -- both run over the same decoded instructions, side by side
  have hfold := (Compilation.sound_start f).foldlM_advance f.code.body.length
    (disassemble f.code.body).instructions
  rw [Compilation.heights_start] at hfold
  unfold Function.analyse Compilation.body
  dsimp only
  cases hls : (disassemble f.code.body).instructions.foldlM
      (Heights.advance f.numLocals f.code.body.length) (Heights.start f) with
  | error err =>
    rw [hls] at hfold
    simp only [hfold]
    rfl
  | ok a =>
    rw [hls] at hfold
    obtain ⟨t, ht, rfl, hsound, hsteps⟩ := hfold
    rw [ht]
    change match t.heights.close f.code.body.length (disassemble f.code.body).fault with
      | .ok n => ∃ t', t.close f.code.body.length (disassemble f.code.body).fault = .ok t' ∧ _
      | .error err => t.close f.code.body.length (disassemble f.code.body).fault = .error err
    rw [Compilation.close_eq]
    cases hclose : t.close f.code.body.length (disassemble f.code.body).fault with
    | error err => rfl
    | ok t' =>
      -- a body that can be closed has no open construct left
      obtain ⟨rfl, hframes, hfault⟩ := Compilation.eq_of_close hclose
      exact ⟨t', rfl, ⟨hsound, hframes, hfault, hsteps⟩, rfl⟩

/-- A body that is translated at all is translated soundly, from its start to its end. -/
theorem Function.translates_of_body {f : Function} {t : Compilation}
    (h : Compilation.body f = .ok t) : f.Translates t := by
  have hspec := f.body_spec
  cases ha : f.analyse with
  | error err =>
    rw [ha, h] at hspec
    cases hspec
  | ok n =>
    rw [ha] at hspec
    obtain ⟨t', ht', htranslates, -⟩ := hspec
    cases h.symm.trans ht'
    exact htranslates

namespace Function.Translates

variable {f : Function} {t : Compilation}

/-- When no construct is open any more, all jumps have landed. -/
theorem linked (h : f.Translates t) : t.emitter.Linked [] := by
  have hlinked := h.sound.linked
  rwa [h.closed] at hlinked

/-- The program exists: no jump of it lacks a label. -/
theorem program_eq (h : f.Translates t) : t.emitter.program = .ok t.emitter.resolved :=
  Emitter.program_eq h.linked

/-- The program returns, since the function body has emitted its exit sequence. -/
theorem ret_mem (h : f.Translates t) : .ret ∈ t.emitter.resolved :=
  Emitter.ret_mem_resolved (h.sound.ended h.closed)

end Function.Translates

/-- The assembler of this library covers all functions. -/
theorem Assembler.covers_assembleAfter (f : Function) : Covers Program.assembleAfter f := by
  intro t p hbody hp
  have htranslates := Function.translates_of_body hbody
  -- the program of a translated body is what was emitted, and it has a return to be encoded
  cases htranslates.program_eq.symm.trans hp
  exact Program.code_assembleAfter_ne_nil htranslates.ret_mem t.emitter.extents

/-- **Compiling a function** with an assembler that covers it, and analysing its heights: either
both succeed, with the same greatest height, or both fail with the same error. -/
theorem Function.compileWith_spec {assembler : Assembler} {f : Function}
    (hcovers : assembler.Covers f) :
    match f.analyse with
    | .ok n => ∃ c t, f.compileWith assembler = .ok c ∧ c.From f t ∧ c.ceiling = n
    | .error err => f.compileWith assembler = .error err := by
  have hspec := f.body_spec
  cases ha : f.analyse with
  | error err =>
    rw [ha] at hspec
    unfold Function.compileWith
    rw [hspec]
    rfl
  | ok n =>
    rw [ha] at hspec
    obtain ⟨t, hbody, htranslates, hceiling⟩ := hspec
    -- the assembler has code for the program, so finishing succeeds
    have hcode := hcovers t _ hbody htranslates.program_eq
    have hfinish := Emitter.finishWith_eq_ok htranslates.linked
      (htranslates.sound.ended htranslates.closed) hcode
    refine ⟨⟨f, t.emitter.resolved, (assembler t.emitter.extents t.emitter.resolved).code,
      t.emitter.stack.ceiling⟩, t, ?_, ⟨htranslates, rfl, rfl, rfl⟩, hceiling⟩
    unfold Function.compileWith
    simp only [hbody, bind, Except.bind, hfinish]
    rfl

/-- The same with the assembler of this library, which covers all functions. Nothing is left to
assume. -/
theorem Function.compile_spec (f : Function) :
    match f.analyse with
    | .ok n => ∃ c t, f.compile = .ok c ∧ c.From f t ∧ c.ceiling = n
    | .error err => f.compile = .error err :=
  Function.compileWith_spec (Assembler.covers_assembleAfter f)

/-- **Every compiled function comes from the translation of its body** and has machine code. Here
nothing is asked of the assembler: if it had no code, the function would not have been compiled. -/
theorem Function.body_of_compileWith {assembler : Assembler} {f : Function} {c : CompiledFunction}
    (h : f.compileWith assembler = .ok c) :
    ∃ t, Compilation.body f = .ok t ∧ c.From f t ∧ c.machineCode ≠ [] := by
  unfold Function.compileWith at h
  cases hbody : Compilation.body f with
  | error err =>
    rw [hbody] at h
    cases h
  | ok t =>
    rw [hbody] at h
    have htranslates := Function.translates_of_body hbody
    simp only [bind, Except.bind] at h
    split at h
    · next p code e' hfinish =>
      cases h
      -- the program that was assembled is that of the translation
      obtain ⟨hp, hcode⟩ := Emitter.of_finishWith_eq_ok hfinish
      cases htranslates.program_eq.symm.trans hp
      exact ⟨t, rfl, ⟨htranslates, rfl, rfl, rfl⟩, hcode⟩
    · cases h

/-- Every function that is compiled was translated. The properties of compiled functions start here.
-/
theorem Function.exists_from {f : Function} {c : CompiledFunction} (h : f.compile = .ok c) :
    ∃ t, c.From f t := by
  obtain ⟨t, -, hfrom, -⟩ := Function.body_of_compileWith h
  exact ⟨t, hfrom⟩

/-- A function that the analysis accepts is compiled, if the assembler covers it. -/
theorem Function.exists_compileWith {assembler : Assembler} {f : Function} {n : Nat}
    (hcovers : assembler.Covers f) (h : f.analyse = .ok n) :
    ∃ c, f.compileWith assembler = .ok c := by
  have hspec := Function.compileWith_spec hcovers
  rw [h] at hspec
  obtain ⟨c, -, hc, -⟩ := hspec
  exact ⟨c, hc⟩

/-- A function that the analysis accepts is compiled. -/
theorem Function.exists_compile {f : Function} {n : Nat} (h : f.analyse = .ok n) :
    ∃ c, f.compile = .ok c :=
  Function.exists_compileWith (Assembler.covers_assembleAfter f) h

/-- A function of two parameters and a local whose block is left by a conditional branch, by a
branch out of an `if`, or by a trap. Witnesses about compiled functions use it. -/
def Function.leaving : Function where
  index := 0
  type := .binary
  code :=
    ⟨1, [0x02, 0x7f, 0x20, 0x00, 0x20, 0x01, 0x20, 0x00, 0x46, 0x0d, 0x00, 0x04, 0x40, 0x20, 0x01,
      0x0c, 0x01, 0x05, 0x00, 0x0b, 0x00, 0x0b, 0x0b]⟩

/-- The analysis accepts it, with room for six values. -/
theorem Function.exists_compile_leaving : ∃ c, Function.leaving.compile = .ok c :=
  Function.exists_compile (n := 6) (by decide)

end WasmJit
