import WasmJit.Proofs.Compilation.ControlFlow
import WasmJit.Proofs.Compilation.HeightRefinement
import WasmJit.Proofs.Correctness.Simulation
import WasmJit.Proofs.Format.Entries

/-!
# Operands in the flags

A comparison leaves its result in the flags, and code that changes the flags is emitted without
looking below the topmost operand. So at most the topmost operand may be in the flags. Every
instruction keeps to this but one: the `end` of a construct that traps pushes the results of the
construct without moving what lies below them (`Function.flags_below_results`).

No harm comes from it. Where this happens the code is severed: a return has been emitted and no
label since, so nothing that is appended is executed until there is a label; and wherever a label is
set, all operands are in memory.

* `Compilation.Effect.settled_or_quiet` is what one instruction does: it moves all operands to
  memory, or it sets no label.
* `Compilation.Cautious` is the invariant that follows; `Compilation.Steps.cautious` has it after a
  whole body.
* `Function.flags_on_top_unless_severed` is the result.
-/

namespace WasmJit

/-! ### Severed code -/

namespace Emitter

variable {e e' : Emitter} {s : OperandStack} {code : List (Instr Nat)} {f : Frame} {k k' : Nat}

/-- **Severed code**: there is no label behind some return, so what is appended is not executed. -/
def Severed (e : Emitter) : Prop :=
  ∃ q : Nat, e.code[q]? = some .ret ∧ ∀ q' : Nat, q < q' → e.code[q']? ≠ some .label

/-- What was appended to the code has no label. Unlike severed code, this is about what was emitted
between two points. -/
def Quiet (e e' : Emitter) : Prop :=
  ∀ q : Nat, e.code.size ≤ q → e'.code[q]? ≠ some .label

theorem Quiet.refl (e : Emitter) : e.Quiet e := by
  intro q hq hlabel
  have := (Array.getElem?_eq_some_iff.mp hlabel).1
  omega

theorem Quiet.extend (e : Emitter) (s : OperandStack) (hcode : .label ∉ code) :
    e.Quiet (e.extend s code) := by
  intro q hq hlabel
  rcases getElem?_code_extend hlabel with hq' | ⟨j, -, hj⟩
  · exact Quiet.refl e q hq hq'
  · exact hcode (List.mem_of_getElem? hj)

/-- The end of a construct that nothing jumps to has no label. -/
theorem Quiet.close (e : Emitter) (hjumps : f.jumps = []) : e.Quiet (e.close f) := by
  -- no label is placed for a construct that nothing jumps to
  have hland : e.landExits f = e := if_pos hjumps
  have hend : e.Quiet (e.afterEnd f) := by
    rw [afterEnd, hland]
    exact Quiet.refl e
  unfold Emitter.close
  split
  · intro q hq
    refine Quiet.extend (e.afterEnd f) _ (by simp [exitCode]) q ?_
    rw [afterEnd, hland]
    exact hq
  · exact hend

/-- After an exit sequence the code is severed, as its last instruction is a return. -/
theorem severed_exit (e : Emitter) (s : OperandStack) (status : Status) :
    (e.extend s (exitCode status)).Severed := by
  refine ⟨e.code.size + 1, (getElem?_exit (Continues.refl _)).2, fun q hq hlabel => ?_⟩
  have := (Array.getElem?_eq_some_iff.mp hlabel).1
  rw [size_code_extend] at this
  change q < e.code.size + 2 at this
  omega

/-- What has been emitted stays as it is. -/
theorem Continues.getElem?_code_eq (h : e.Continues e') {q : Nat} (hq : q < e.code.size) :
    e'.code[q]? = e.code[q]? := by
  have hget := Array.getElem?_eq_getElem hq
  rw [hget]
  exact h.code q _ hget

/-- Code stays severed until there is a label: it keeps its return, and no label comes after it. -/
theorem Severed.of_quiet (h : e.Severed) (hc : e.Continues e') (hq : e.Quiet e') :
    e'.Severed := by
  obtain ⟨q, hret, hno⟩ := h
  refine ⟨q, hc.code q _ hret, fun q' hlt hlabel => ?_⟩
  by_cases hold : q' < e.code.size
  · rw [hc.getElem?_code_eq hold] at hlabel
    exact hno q' hlt hlabel
  · exact hq q' (Nat.le_of_not_lt hold) hlabel

theorem Settled.mono (h : Settled k s) (hk : k' ≤ k) : Settled k' s :=
  fun i hi => h i (Nat.lt_of_lt_of_le hi hk)

/-- With everything below a construct in memory, everything is at the start of its `else`, where the
operands inside of it are gone. -/
theorem settled_startElse {numLocals : Nat} (hc : e.stack.Consistent numLocals e.stack.height)
    (hl : numLocals ≤ f.entry) (he : f.entry ≤ e.stack.height) (hs : Settled f.entry e.stack) :
    Settled (e.startElse f).stack.height (e.startElse f).stack := by
  obtain ⟨-, hheight, -, hbelow⟩ := consistent_startElse hc hl he
  rw [hheight]
  intro i hi
  rw [hbelow i hi]
  exact hs i hi

/-- The same at its end, where its results are in memory too. -/
theorem settled_height_close {numLocals : Nat} (hc : e.stack.Consistent numLocals e.stack.height)
    (hl : numLocals ≤ f.entry) (he : f.entry ≤ e.stack.height) (hs : Settled f.entry e.stack) :
    Settled (e.close f).stack.height (e.close f).stack := by
  obtain ⟨-, hheight, -⟩ := consistent_close hc hl he
  rw [hheight]
  exact settled_close hc hl he hs

end Emitter

/-- Operands that are taken from the top do no harm. -/
theorem OperandStack.FlagsOnTop.mono {s s' : OperandStack} {k k' : Nat} (h : s.FlagsOnTop k)
    (hk : k' ≤ k) (hkeep : ∀ i, i < k' → s'.placement? i = s.placement? i) :
    s'.FlagsOnTop k' := by
  intro i hi c hc
  rw [hkeep i hi] at hc
  have := h i (Nat.lt_of_lt_of_le hi hk) c hc
  omega

/-! ### One instruction -/

namespace Compilation

open Emitter (Settled Quiet Severed)

variable {numLocals results : Nat} {i : Instruction} {is : List Instruction} {t t' : Compilation}

/-- **Below a construct that is jumped to, all operands are in memory.** -/
def Sheltered (t : Compilation) : Prop :=
  ∀ g ∈ t.frames, g.jumps ≠ [] → Settled g.entry t.emitter.stack

/-- The instruction ends a construct with results in dead code, and nothing jumps to its end. -/
def EndsUnreached (i : Instruction) (t : Compilation) : Prop :=
  i = .end_ ∧ t.dead = some 0 ∧ ∃ f fs, t.frames = f :: fs ∧ f.jumps = [] ∧ 0 < f.arity

/-- **The invariant**: at most the topmost operand is in the flags, unless the code is severed. The
other two parts are needed to keep it: they say where operands were moved to memory before. -/
structure Cautious (t : Compilation) : Prop where
  sheltered : t.Sheltered
  /-- Dead code starts behind a branch, for which all operands are moved, or behind a trap. -/
  dead : t.dead ≠ none → Settled t.emitter.stack.height t.emitter.stack ∨ t.emitter.Severed
  flags : t.emitter.stack.FlagsOnTop t.emitter.stack.height ∨ t.emitter.Severed

/-- What an instruction does that sets no label. -/
structure Quietly (i : Instruction) (t t' : Compilation) : Prop where
  quiet : t.emitter.Quiet t'.emitter
  sheltered : t'.Sheltered
  dead : t'.dead ≠ none → t'.emitter.Severed ∨ t.dead ≠ none ∧ t'.emitter = t.emitter
  flags : t.emitter.stack.FlagsOnTop t.emitter.stack.height →
    t'.emitter.stack.FlagsOnTop t'.emitter.stack.height ∨ EndsUnreached i t ∧ t.emitter.Severed

/-- If all operands are in memory, those below any construct are. -/
theorem Sheltered.of_settled (h : t.Sound numLocals results)
    (hs : Settled t.emitter.stack.height t.emitter.stack) : t.Sheltered :=
  fun _ hg _ => hs.mono (h.nested.entry_le_height hg)

/-- What is emitted inside of a construct leaves those around it sheltered, as it keeps the
placement of what is in memory below it (`Effect.keeps`). -/
theorem Sheltered.of_effect {f : Frame} {fs : List Frame} (ht : t.Sheltered)
    (he : Effect numLocals i t t') (h : t.Sound numLocals results) (hf : t.frames = f :: fs)
    (hsub : t'.frames ⊆ t.frames) : t'.Sheltered := by
  intro g hg hjumps
  have hkeeps := he.keeps h hf
  have hmem := hsub hg
  have hle : g.entry ≤ f.entry := (hf ▸ h.nested).entry_le_of_mem (hf ▸ hmem)
  exact (hkeeps.mono hle).settled (ht g hmem hjumps)

/-- The end of a construct that traps, and to the end of which nothing jumps. Its results are pushed
on operands that were never moved to memory; this is the only way for the flags to get below the
top. -/
theorem Quietly.deadEnd {e : Emitter} {f : Frame} {fs : List Frame}
    (h : Sound numLocals results ⟨numLocals, e, f :: fs, some 0⟩)
    (hs : Sheltered ⟨numLocals, e, f :: fs, some 0⟩)
    (harity : f.kind = .ifThen → f.arity.toNat = 0) (hjumps : f.jumps = []) (hsev : e.Severed) :
    Quietly .end_ ⟨numLocals, e, f :: fs, some 0⟩ ⟨numLocals, e.close f, fs, none⟩ where
  quiet := .close e hjumps
  sheltered := hs.of_effect (.deadEnd harity) h rfl (List.subset_cons_self f fs)
  dead hdead := absurd rfl hdead
  flags htop := by
    by_cases hpos : 0 < f.arity
    · exact .inr ⟨⟨rfl, rfl, f, fs, rfl, hjumps, hpos⟩, hsev⟩
    · -- without results the stack is only cut down
      obtain ⟨-, hheight, -, hbelow, -⟩ :=
        Emitter.consistent_close h.consistent h.locals_le h.entry_le
      refine .inl ?_
      show (e.close f).stack.FlagsOnTop (e.close f).stack.height
      rw [hheight, show f.arity.toNat = 0 by omega]
      exact htop.mono h.entry_le hbelow

/-- **An instruction moves all operands to memory, or it sets no label.** By cases on the effect.
Tests and branches move all operands, and so does the end of an arm; operations and traps set no
label. In dead code it depends on whether something jumps to the label. -/
theorem Effect.settled_or_quiet (he : Effect numLocals i t t') (h : t.Sound numLocals results)
    (hc : t.Cautious) :
    Settled t'.emitter.stack.height t'.emitter.stack ∨ Quietly i t t' := by
  cases id he with
  | @operation _ op e f fs k s code hop hindex hheight hfloor htr hheight' hceil =>
    refine .inr ⟨.extend e s fun hlabel => htr.computes h.consistent.tested _ hlabel, ?_,
      fun hdead => absurd rfl hdead, fun htop => .inl ?_⟩
    · exact hc.sheltered.of_effect he h rfl (List.Subset.refl _)
    · show s.FlagsOnTop s.height
      rw [hheight']
      exact htr.flagsOnTop htop
  | @block type e f fs =>
    refine .inr ⟨.refl e, fun g hg hjumps => ?_, fun hdead => absurd rfl hdead, .inl⟩
    -- nothing jumps to the end of the new construct yet
    rcases List.mem_cons.mp hg with rfl | hg
    · exact absurd rfl hjumps
    · exact hc.sheltered g hg hjumps
  | @if_ type e f fs k s code b hheight hfloor htested =>
    -- the test has moved all operands below the condition
    refine .inl ?_
    show Settled s.height s
    rw [htested.height_eq]
    exact htested.settled
  | @else_ e f fs s code hkind hheight hcarried =>
    have hsound := (h.carry (by simp) hcarried).branch (d := 0) (by simp) none
    refine .inl (Emitter.settled_startElse hsound.consistent hsound.locals_le hsound.entry_le ?_)
    exact hcarried.settled.mono h.entry_le
  | @end_ e f fs s code harity hheight hcarried =>
    have hsound := h.carry (by simp) hcarried
    refine .inl (Emitter.settled_height_close hsound.consistent hsound.locals_le hsound.entry_le ?_)
    exact hcarried.settled.mono h.entry_le
  | @br depth e f g fs s code htarget hfloor hcarried =>
    refine .inl ?_
    show Settled s.height s
    rw [hcarried.height_eq]
    exact hcarried.settled
  | @brIf depth e f g fs k s code code' b htarget hheight hfloor htested hcarried =>
    refine .inl ?_
    show Settled s.height s
    rw [htested.height_eq]
    exact htested.settled
  | @unreachable e fs =>
    exact .inr ⟨.extend e _ (by simp [Emitter.exitCode]), hc.sheltered,
      fun _ => .inl (Emitter.severed_exit e _ _), .inl⟩
  | deadOpen | deadClose | deadSkip =>
    exact .inr ⟨.refl _, hc.sheltered, fun _ => .inr ⟨Option.some_ne_none _, rfl⟩, .inl⟩
  | @deadElse e f fs hkind =>
    -- the jump to the `else` is still pending
    have hjumps : f.jumps ≠ [] := by
      intro hnil
      have hnone : f.otherwise.toList = [] := (List.append_eq_nil_iff.mp hnil).2
      have hsome := h.nested.otherwise_isSome.mpr hkind
      rw [Option.toList_eq_nil_iff.mp hnone] at hsome
      cases hsome
    exact .inl (Emitter.settled_startElse h.consistent h.locals_le h.entry_le
      (hc.sheltered f List.mem_cons_self hjumps))
  | @deadEnd e f fs harity =>
    -- where something jumps to the end, all operands were moved for that jump
    by_cases hjumps : f.jumps = []
    · rcases hc.dead (Option.some_ne_none _) with hsettled | hsev
      · exact .inl (Emitter.settled_height_close h.consistent h.locals_le h.entry_le
          (hsettled.mono h.entry_le))
      · exact .inr (.deadEnd h hc.sheltered harity hjumps hsev)
    · exact .inl (Emitter.settled_height_close h.consistent h.locals_le h.entry_le
        (hc.sheltered f List.mem_cons_self hjumps))

/-- **Every instruction keeps the invariant.** If all operands are in memory, nothing is left to
show; otherwise severed code stays severed. -/
theorem Effect.cautious (he : Effect numLocals i t t') (h : t.Sound numLocals results)
    (hc : t.Cautious) : t'.Cautious := by
  rcases he.settled_or_quiet h hc with hsettled | hquiet
  · exact ⟨.of_settled (he.sound h) hsettled, fun _ => .inl hsettled, .inl hsettled.flagsOnTop⟩
  -- without a label the code stays severed if it was
  · have hstay : t.emitter.Severed → t'.emitter.Severed := fun hsev =>
      hsev.of_quiet (he.continues h) hquiet.quiet
    refine ⟨hquiet.sheltered, fun hdead => ?_, ?_⟩
    · rcases hquiet.dead hdead with hsev | ⟨hold, hsame⟩
      · exact .inr hsev
      · rw [hsame]
        exact hc.dead hold
    · rcases hc.flags with htop | hsev
      · exact (hquiet.flags htop).imp id fun hends => hstay hends.2
      · exact .inr (hstay hsev)

/-- Only the end of a construct that traps lets the flags get below the top. -/
theorem Effect.endsUnreached (he : Effect numLocals i t t') (h : t.Sound numLocals results)
    (hc : t.Cautious) (htop : t.emitter.stack.FlagsOnTop t.emitter.stack.height)
    (hnot : ¬ t'.emitter.stack.FlagsOnTop t'.emitter.stack.height) : EndsUnreached i t := by
  rcases he.settled_or_quiet h hc with hsettled | hquiet
  · exact absurd hsettled.flagsOnTop hnot
  · rcases hquiet.flags htop with htop' | hends
    · exact absurd htop' hnot
    · exact hends.1

/-! ### Whole bodies -/

/-- At the start all operands are locals in their slots. -/
theorem cautious_start (f : Function) : (start f).Cautious := by
  have hstack : (start f).emitter.stack = OperandStack.empty.pushSlots f.numLocals := rfl
  obtain ⟨-, hheight, -, hslots⟩ := OperandStack.Consistent.start f.numLocals
  have hsettled : Settled (start f).emitter.stack.height (start f).emitter.stack := by
    rw [hstack, hheight]
    exact fun i hi => ⟨.slot, hslots i hi, trivial⟩
  exact ⟨.of_settled (sound_start f) hsettled, fun hdead => absurd rfl hdead,
    .inl hsettled.flagsOnTop⟩

/-- **The invariant holds throughout a body**, by induction on its steps. -/
theorem Steps.cautious (hs : Steps numLocals is t t') (h : t.Sound numLocals results)
    (hc : t.Cautious) : t'.Cautious := by
  induction hs with
  | nil => exact hc
  | cons _ effect _ ih => exact ih (effect.sound h) (effect.cautious h hc)

end Compilation

/-! ### Execution -/

/-- Execution gets past a return only by a jump, which goes to a label. By induction on the run: it
is at the return, in front of it, or has jumped over it. -/
theorem Program.Runs.exists_label {p : Program} {n pc pc' q : Nat} {m m' : Machine}
    (h : p.Runs n pc m pc' m') (hp : p.JumpsForward) (hret : p[q]? = some .ret) (hpc : pc ≤ q)
    (hpc' : q < pc') : ∃ l, q < l ∧ l ≤ pc' ∧ p[l]? = some .label := by
  induction h with
  | refl => omega
  | @next n pc _ _ _ _ i fetch step rest ih =>
    -- a return is not followed by what stands behind it
    have hne : pc ≠ q := by
      rintro rfl
      rw [hret] at fetch
      cases fetch
      cases step
    exact ih (by omega) hpc'
  | @goto n _ _ target _ _ _ i fetch step rest ih =>
    obtain ⟨b, rfl⟩ := Machine.eq_jump_of_step step
    obtain ⟨l, hl, -, hlabel⟩ := hp _ b _ fetch
    cases hl
    by_cases hle : target ≤ q
    · exact ih hle hpc'
    · have := rest.add_le hp
      exact ⟨target, by omega, by omega, hlabel⟩

/-- What is appended to severed code is executed only from a label on. -/
theorem Emitter.Severed.exists_label {e e' : Emitter} {n pc : Nat} {m m' : Machine}
    (h : e.Severed) (hc : e.Continues e') (hp : e'.resolved.JumpsForward)
    (hrun : e'.resolved.Runs n 0 m pc m') (hpc : e.code.size ≤ pc) :
    ∃ l, e.code.size ≤ l ∧ l ≤ pc ∧ e'.resolved[l]? = some .label := by
  obtain ⟨q, hret, hno⟩ := h
  have hq : q < e.code.size := (Array.getElem?_eq_some_iff.mp hret).1
  have hret' : e'.resolved[q]? = some .ret := by
    rw [getElem?_resolved, hc.code q _ hret]
    rfl
  obtain ⟨l, hlt, hle, hlabel⟩ := hrun.exists_label hp hret' (Nat.zero_le q) (by omega)
  refine ⟨l, ?_, hle, hlabel⟩
  by_contra hold
  -- the label would have been there before
  obtain ⟨i, hi, htarget⟩ := exists_of_resolved hlabel
  rw [hc.getElem?_code_eq (by omega)] at hi
  cases i with
  | label => exact hno l hlt hi
  | _ => cases htarget

/-- The instructions of a compiled function lead to its program, and closing the body adds nothing
to it. -/
theorem Function.exists_foldlM {f : Function} {c : CompiledFunction} (h : f.compile = .ok c) :
    ∃ t, (disassemble f.code.body).instructions.foldlM
        (Compilation.advance f.code.body.length) (Compilation.start f) = .ok t ∧
      c.program = t.emitter.resolved := by
  obtain ⟨t, hbody, hfrom, -⟩ := Function.body_of_compileWith h
  obtain ⟨t', hfold, hclose⟩ := Except.bind_eq_ok.mp hbody
  obtain ⟨rfl, -, -⟩ := Compilation.eq_of_close hclose
  exact ⟨t, hfold, hfrom.program⟩

/-- **The flags hold at most the topmost operand, unless the code is severed.** After any accepted
instructions, an operand in the flags is the topmost one, or a return has been emitted and no label
since. An operand gets below the top only at the `end`, in dead code, of a construct with results to
the end of which nothing jumps. And what is appended to severed code is not executed before there is
a label. -/
theorem Function.flags_on_top_unless_severed (f : Function) {ls : List Located} {t : Compilation}
    (h : ls.foldlM (Compilation.advance f.code.body.length) (Compilation.start f) = .ok t) :
    (t.emitter.stack.FlagsOnTop t.emitter.stack.height ∨ t.emitter.Severed) ∧
      (∀ l t', t.advance f.code.body.length l = .ok t' →
        t.emitter.stack.FlagsOnTop t.emitter.stack.height →
        ¬ t'.emitter.stack.FlagsOnTop t'.emitter.stack.height →
        Compilation.EndsUnreached l.instruction t) ∧
      (t.emitter.Severed → ∀ rest c, (disassemble f.code.body).instructions = ls ++ rest →
        f.compile = .ok c → ∀ n m pc m', c.program.Runs n 0 m pc m' → t.emitter.code.size ≤ pc →
        ∃ l, t.emitter.code.size ≤ l ∧ l ≤ pc ∧ c.program[l]? = some .label) := by
  have hsound := (Compilation.sound_start f).of_foldlM h
  have hcautious := ((Compilation.sound_start f).steps_of_foldlM h).cautious
    (Compilation.sound_start f) (Compilation.cautious_start f)
  refine ⟨hcautious.flags, fun l t' ht' htop hnot => ?_,
    fun hsev rest c his hc n m pc m' hrun hpc => ?_⟩
  · -- one more instruction is a step of its own
    have hfold : [l].foldlM (Compilation.advance f.code.body.length) t = .ok t' := by
      rw [List.foldlM_cons, ht']
      rfl
    cases hsound.steps_of_foldlM hfold with
    | cons _ effect rest =>
      cases rest
      exact effect.endsUnreached hsound hcautious htop hnot
  · obtain ⟨t', hfold, hprogram⟩ := Function.exists_foldlM hc
    obtain ⟨_, hfrom⟩ := Function.exists_from hc
    have hforward := hfrom.forward.jumps
    -- the rest of the body appends to what has been emitted so far
    rw [his, List.foldlM_append, h] at hfold
    have hcont := (hsound.steps_of_foldlM hfold).continues hsound
    rw [hprogram] at hforward hrun ⊢
    exact hsev.exists_label hcont hforward hrun hpc

/-- A function that compares its parameter with itself in front of a block that traps, and adds the
result of the comparison to that of the block. -/
def Function.trapping : Function where
  index := 0
  type := ⟨[.i32], [.i32]⟩
  code := ⟨0, [0x20, 0x00, 0x20, 0x00, 0x46, 0x02, 0x7f, 0x00, 0x0b, 0x6a, 0x0b]⟩

/-- Behind the block, the result of the comparison is in the flags, below the block's result. -/
theorem Function.exists_trapping :
    ∃ t, ((disassemble Function.trapping.code.body).instructions.take 6).foldlM
        (Compilation.advance Function.trapping.code.body.length)
        (Compilation.start Function.trapping) = .ok t ∧
      t.emitter.stack.live.map (·.placement) = [.slot, .flags .equal, .slot] ∧
      ¬ t.emitter.stack.FlagsOnTop t.emitter.stack.height := by
  obtain ⟨t, ht, htest⟩ := Except.exists_ok_of_any
    (x := ((disassemble Function.trapping.code.body).instructions.take 6).foldlM
      (Compilation.advance Function.trapping.code.body.length)
      (Compilation.start Function.trapping))
    (p := fun t => t.emitter.stack.live.map (·.placement) = [.slot, .flags .equal, .slot] ∧
      t.emitter.stack.height = 3 ∧ t.emitter.stack.placement? 1 = some (.flags .equal))
    (by decide +kernel)
  obtain ⟨hlive, hheight, hflags⟩ := of_decide_eq_true htest
  refine ⟨t, ht, hlive, fun htop => ?_⟩
  have := htop 1 (by omega) _ hflags
  omega

/-- **An operand in the flags below the top**: the function is accepted, although the block pushes
its result on top of the comparison. -/
theorem Function.flags_below_results :
    ∃ t c, Function.trapping.compile = .ok c ∧
      ((disassemble Function.trapping.code.body).instructions.take 6).foldlM
        (Compilation.advance Function.trapping.code.body.length)
        (Compilation.start Function.trapping) = .ok t ∧
      t.emitter.stack.live.map (·.placement) = [.slot, .flags .equal, .slot] ∧
      ¬ t.emitter.stack.FlagsOnTop t.emitter.stack.height := by
  obtain ⟨t, ht, hlive, hnot⟩ := Function.exists_trapping
  obtain ⟨c, hc⟩ := Function.exists_compile (f := Function.trapping) (n := 3) (by decide)
  exact ⟨t, c, hc, ht, hlive, hnot⟩

/-- In the same place the code is severed: the addition that follows is not executed. -/
theorem Function.flags_on_top_unless_severed_trapping :
    ∃ t c, Function.trapping.compile = .ok c ∧
      ((disassemble Function.trapping.code.body).instructions.take 6).foldlM
        (Compilation.advance Function.trapping.code.body.length)
        (Compilation.start Function.trapping) = .ok t ∧
      t.emitter.Severed ∧
      ∀ n m pc m', c.program.Runs n 0 m pc m' → t.emitter.code.size ≤ pc →
        ∃ l, t.emitter.code.size ≤ l ∧ l ≤ pc ∧ c.program[l]? = some .label := by
  obtain ⟨t, ht, -, hnot⟩ := Function.exists_trapping
  obtain ⟨c, hc⟩ := Function.exists_compile (f := Function.trapping) (n := 3) (by decide)
  obtain ⟨hflags, -, hruns⟩ := Function.trapping.flags_on_top_unless_severed ht
  have hsev := hflags.resolve_left hnot
  exact ⟨t, c, hc, ht, hsev, hruns hsev _ c (List.take_append_drop 6 _).symm hc⟩

end WasmJit
