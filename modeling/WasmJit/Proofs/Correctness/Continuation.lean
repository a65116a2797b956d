import WasmJit.Proofs.Compilation.Invariant
import WasmJit.Proofs.Machine.Runs

/-!
# Code that goes on

Code is only ever appended to, and a jump that has landed stays where it is. So what is known about
the code in front of some instruction still holds of the finished program. `Emitter.Continues e e'`
says that `e'` has gone on from `e`; `Compilation.Steps.continues` is the result for compilations.

The second half follows the execution of the finished program through the pieces that were appended:
straight-line code (`runs_extend`), a jump that is taken or not (`runs_jump`, `runs_pass`) and a
label (`runs_label`).
-/

namespace WasmJit

namespace Emitter

variable {e e' e'' : Emitter} {s : OperandStack} {code : List (Instr Nat)} {jumps rest : List Nat}
  {numLocals j q n : Nat} {m m' : Machine} {b : Branch} {kind : JumpKind}

/-- **The emitter `e'` has gone on from `e`**: it has the same instructions at the same positions,
and maybe more after them. -/
structure Continues (e e' : Emitter) : Prop where
  code : ∀ (q : Nat) i, e.code[q]? = some i → e'.code[q]? = some i
  /-- A jump that has landed stays where it is. -/
  resolve : ∀ j label, e.resolve j = some label → e'.resolve j = some label
  ceiling : e.stack.ceiling ≤ e'.stack.ceiling

namespace Continues

theorem refl (e : Emitter) : e.Continues e :=
  ⟨fun _ _ h => h, fun _ _ h => h, Nat.le_refl _⟩

theorem trans (h : e.Continues e') (h' : e'.Continues e'') : e.Continues e'' :=
  ⟨fun q i hq => h'.code q i (h.code q i hq), fun j l hj => h'.resolve j l (h.resolve j l hj),
    Nat.le_trans h.ceiling h'.ceiling⟩

theorem extend (e : Emitter) (hceil : e.stack.ceiling ≤ s.ceiling) (code : List (Instr Nat)) :
    e.Continues (e.extend s code) where
  code q i hq := by
    rw [getElem?_code_extend_of_lt (Array.getElem?_eq_some_iff.mp hq).1, hq]
  resolve _ _ h := h
  ceiling := hceil

/-- A jump is appended, with a number that no jump had before. -/
theorem withJump (e : Emitter) (kind : JumpKind) (b : Branch) :
    e.Continues (e.withJump kind b) where
  code q i hq := by
    rw [Emitter.withJump, getElem?_push_of_lt (Array.getElem?_eq_some_iff.mp hq).1, hq]
  resolve j label hj := by
    obtain ⟨x, hx, hlabel⟩ := Option.bind_eq_some_iff.mp hj
    have := (Array.getElem?_eq_some_iff.mp hx).1
    rw [Emitter.resolve, Emitter.withJump, Array.getElem?_push, if_neg (by omega), hx]
    exact hlabel
  ceiling := Nat.le_refl _

/-- Only pending jumps land, so no jump changes its label. Landing a jump twice would move it. -/
theorem land_of_pending (h : ∀ j, j ∈ jumps → e.resolve j = none) :
    e.Continues (e.land jumps) where
  code q i hq := by
    rw [code_land, getElem?_push_of_lt (Array.getElem?_eq_some_iff.mp hq).1, hq]
  resolve j label hj := by
    -- the jumps that land are pending ones, and this one is not
    have hmem : j ∉ jumps := fun hmem => by
      rw [h j hmem] at hj
      cases hj
    obtain ⟨x, hx, hlabel⟩ := Option.bind_eq_some_iff.mp hj
    have hat := getElem?_fixups_pointAt { e with code := e.code.push .label } jumps e.code.size j
    rw [Emitter.resolve]
    change ((e.land jumps).fixups[j]?).bind _ = _
    rw [show (e.land jumps).fixups[j]? = _ from hat, hx, Option.map_some, if_neg hmem]
    exact hlabel
  ceiling := Nat.le_refl _

/-- The jumps of which the emitter keeps record are pending. -/
theorem land (h : e.Linked (jumps ++ rest)) : e.Continues (e.land jumps) := by
  refine land_of_pending fun j hmem => ?_
  obtain ⟨y, hy, hnone⟩ := (h.mem_pending j).mp (List.mem_append_left _ hmem)
  rw [Emitter.resolve, hy]
  exact hnone

/-- Only the code, the jumps and the ceiling matter. -/
theorem congr {e₁ : Emitter} (h : e.Continues e') (hcode : e₁.code = e'.code)
    (hfixups : e₁.fixups = e'.fixups) (hceil : e'.stack.ceiling ≤ e₁.stack.ceiling) :
    e.Continues e₁ where
  code := hcode ▸ h.code
  resolve j label hj := by
    rw [Emitter.resolve, hfixups]
    exact h.resolve j label hj
  ceiling := Nat.le_trans h.ceiling hceil

end Continues

/-- The jumps that land at a label are resolved to its position. -/
theorem resolve_land (hj : j ∈ jumps) (hx : ∃ x, e.fixups[j]? = some x) :
    (e.land jumps).resolve j = some e.code.size := by
  obtain ⟨x, hx⟩ := hx
  have hat := getElem?_fixups_pointAt { e with code := e.code.push .label } jumps e.code.size j
  change ((e.land jumps).fixups[j]?).bind _ = _
  rw [show (e.land jumps).fixups[j]? = _ from hat, hx, Option.map_some, if_pos hj]
  rfl

/-! ### Landing at constructs -/

section Constructs

variable {f : Frame} {fs : List Frame}

/-- Behind the label of an `else` the operands of the first arm are dropped, without code. -/
theorem Continues.land_startElse (hc : e.stack.Consistent numLocals e.stack.height)
    (hl : numLocals ≤ f.entry) (he : f.entry ≤ e.stack.height) :
    (e.land f.otherwise.toList).Continues (e.startElse f) := by
  obtain ⟨-, -, hceil, -⟩ := consistent_startElse hc hl he
  exact (Continues.refl (e.land f.otherwise.toList)).congr rfl rfl (Nat.le_of_eq hceil.symm)

/-- Starting an `else`, whose pending jump lands. -/
theorem Continues.startElse (h : e.Linked (Frame.pending (f :: fs)))
    (hc : e.stack.Consistent numLocals e.stack.height) (hl : numLocals ≤ f.entry)
    (he : f.entry ≤ e.stack.height) : e.Continues (e.startElse f) :=
  (Continues.land (h.perm (f.pending_perm_otherwise fs))).trans (.land_startElse hc hl he)

theorem Continues.landExits (h : e.Linked (Frame.pending (f :: fs))) :
    e.Continues (e.landExits f) := by
  unfold Emitter.landExits
  split
  · exact .refl e
  · exact .land h

/-- Behind the label at the end of a construct there is at most the code that returns. -/
theorem Continues.landExits_close (hc : e.stack.Consistent numLocals e.stack.height)
    (hl : numLocals ≤ f.entry) (he : f.entry ≤ e.stack.height) :
    (e.landExits f).Continues (e.close f) := by
  obtain ⟨-, -, hceil, -⟩ := consistent_close hc hl he
  -- the results are pushed without code, which can only raise the ceiling
  have hend : (e.landExits f).Continues (e.afterEnd f) := by
    refine (Continues.refl (e.landExits f)).congr rfl rfl ?_
    rw [stack_close] at hceil
    rw [stack_landExits, Emitter.afterEnd, hceil]
    exact Nat.le_max_left _ _
  unfold Emitter.close
  split
  · exact hend.trans (.extend _ (Nat.le_refl _) _)
  · exact hend

theorem Continues.close (h : e.Linked (Frame.pending (f :: fs)))
    (hc : e.stack.Consistent numLocals e.stack.height) (hl : numLocals ≤ f.entry)
    (he : f.entry ≤ e.stack.height) : e.Continues (e.close f) :=
  (Continues.landExits h).trans (.landExits_close hc hl he)

end Constructs

/-! ### Running appended code -/

section Runs

open Machine (runCode)

/-- Straight-line code is executed wherever it stands in the program, since it has no jumps to
resolve. -/
theorem runs_code {base : Nat} {m : Machine}
    (h : ∀ (k : Nat) i, code[k]? = some i → e.code[base + k]? = some i)
    (hrun : runCode code m = some m') :
    e.resolved.Runs code.length base m (base + code.length) m' := by
  -- by induction on the code, one instruction at a time from position `base` on
  induction code generalizing base m with
  | nil =>
    cases hrun
    exact .refl base _
  | cons i code ih =>
    unfold runCode at hrun
    split at hrun
    · next m₁ hstep =>
      have hfetch : e.resolved[base]? = some (i.mapTarget e.resolve) := by
        rw [getElem?_resolved, show e.code[base]? = some i from h 0 i rfl]
        rfl
      have htail : ∀ (k : Nat) i', code[k]? = some i' → e.code[base + 1 + k]? = some i' := by
        intro k i' hk
        rw [Nat.add_assoc, Nat.add_comm 1 k]
        exact h (k + 1) i' hk
      have hrest := ih htail hrun
      rw [Nat.add_assoc, Nat.add_comm 1 code.length] at hrest
      exact .next hfetch (Machine.step_mapTarget e.resolve hstep) hrest
    · cases hrun

@[simp] theorem size_code_extend (e : Emitter) (s : OperandStack) (code : List (Instr Nat)) :
    (e.extend s code).code.size = e.code.size + code.length := by
  simp [extend]

@[simp] theorem size_code_withJump (e : Emitter) (kind : JumpKind) (b : Branch) :
    (e.withJump kind b).code.size = e.code.size + 1 := by
  simp [withJump]

@[simp] theorem size_code_land (e : Emitter) (jumps : List Nat) :
    (e.land jumps).code.size = e.code.size + 1 := by
  simp

/-- **Straight-line code** that was appended is executed from its start to its end. -/
theorem runs_extend (h : (e.extend s code).Continues e') (hrun : runCode code m = some m') :
    e'.resolved.Runs code.length e.code.size m (e.extend s code).code.size m' := by
  rw [size_code_extend]
  refine runs_code (fun k i hk => h.code _ i ?_) hrun
  change (e.code ++ code.toArray)[_]? = _
  rw [Array.getElem?_append_right (Nat.le_add_right _ _), Nat.add_sub_cancel_left,
    List.getElem?_toArray]
  exact hk

/-- The jump that was appended is found in the finished code. -/
theorem getElem?_withJump (h : (e.withJump kind b).Continues e') :
    e'.code[e.code.size]? = some (.jump b e.fixups.size) :=
  h.code _ _ (by simp [withJump])

theorem getElem?_exit {status : Status} (h : (e.extend s (exitCode status)).Continues e') :
    e'.code[e.code.size]? = some (.storeByte status.code.toNat .callRecord 8) ∧
      e'.code[e.code.size + 1]? = some .ret :=
  ⟨h.code _ _ (by simp [extend, exitCode]), h.code _ _ (by simp [extend, exitCode])⟩

/-- A jump that is taken goes to its label. -/
theorem runs_jump (hq : e.code[q]? = some (.jump b j)) (htaken : m.taken b = true) {label : Nat}
    (hj : e.resolve j = some label) : e.resolved.Runs 1 q m label m := by
  refine .goto (i := .jump b (some label)) ?_ ?_ (.refl label m)
  · rw [getElem?_resolved, hq, ← hj]
    rfl
  · simp only [Machine.step, htaken, if_true]
    rfl

/-- A jump that is not taken is passed, wherever it would go. -/
theorem runs_pass (hq : e.code[q]? = some (.jump b j)) (htaken : m.taken b = false) :
    e.resolved.Runs 1 q m (q + 1) m := by
  refine .next (i := .jump b (e.resolve j)) ?_ ?_ (.refl (q + 1) m)
  · rw [getElem?_resolved, hq]
    rfl
  · simp [Machine.step, htaken]

theorem runs_label (hq : e.code[q]? = some .label) : e.resolved.Runs 1 q m (q + 1) m := by
  refine .next (i := .label) ?_ rfl (.refl (q + 1) m)
  rw [getElem?_resolved, hq]
  rfl

/-- A jump to a label at which it landed is followed by what comes after that label. Where the jump
stands does not matter, as long as it was emitted before. -/
theorem runs_land (h : (e.land jumps).Continues e') (hj : j ∈ jumps)
    (hx : ∃ x, e.fixups[j]? = some x) (hq : e'.code[q]? = some (.jump b j))
    (htaken : m.taken b = true) : e'.resolved.Runs 2 q m (e.land jumps).code.size m := by
  -- the jump goes to the label, and the label is passed
  have hjump := runs_jump hq htaken (h.resolve j _ (resolve_land hj hx))
  have hlabel : e'.code[e.code.size]? = some .label := h.code _ _ (by simp)
  rw [size_code_land]
  exact hjump.trans (runs_label hlabel)

end Runs

end Emitter

namespace Compilation

variable {numLocals results : Nat} {i : Instruction} {is : List Instruction} {t t' : Compilation}

/-- **Every effect appends to the code.** By cases on the effect, along the pieces of code it is
made of; soundness is needed where jumps land, to know that they are pending. -/
theorem Effect.continues (he : Effect numLocals i t t') (h : Sound numLocals results t) :
    t.emitter.Continues t'.emitter := by
  cases he with
  | @operation _ op e f fs k s code hop hindex hheight hfloor htr hheight' hceil =>
    exact .extend e htr.ceiling_le code
  | block => exact .refl _
  | @if_ type e f fs k s code b hheight hfloor htested =>
    exact (Emitter.Continues.extend e (Nat.le_of_eq htested.ceiling_eq.symm) code).trans
      (.withJump _ _ _)
  | @else_ e f fs s code hkind hheight hcarried =>
    -- the jump to the `else` is pending until the label is set
    have hsound := (h.carry (by simp) hcarried).branch (d := 0) (by simp) none
    have helse := Emitter.Continues.startElse hsound.linked hsound.consistent hsound.locals_le
      hsound.entry_le
    exact ((Emitter.Continues.extend e (Nat.le_of_eq hcarried.ceiling_eq.symm) code).trans
      (.withJump _ _ _)).trans helse
  | @end_ e f fs s code harity hheight hcarried =>
    have hsound := h.carry (by simp) hcarried
    exact (Emitter.Continues.extend e (Nat.le_of_eq hcarried.ceiling_eq.symm) code).trans
      (.close hsound.linked hsound.consistent hsound.locals_le hsound.entry_le)
  | @br depth e f g fs s code htarget hfloor hcarried =>
    exact (Emitter.Continues.extend e (Nat.le_of_eq hcarried.ceiling_eq.symm) code).trans
      (.withJump _ _ _)
  | @brIf depth e f g fs k s code code' b htarget hheight hfloor htested hcarried =>
    -- the jump that lands behind the branch is one of the two new ones
    have hcons : e.stack.Consistent numLocals (k + 1) := hheight ▸ h.consistent
    have hlinked := Emitter.Linked.jumpOver h.linked htested hcarried hcons.tested
    exact ((((Emitter.Continues.extend e (Nat.le_of_eq htested.ceiling_eq.symm) code).trans
      (.withJump _ _ _)).trans (.extend _ (Nat.le_refl _) code')).trans (.withJump _ _ _)).trans
      (.land hlinked)
  | unreachable => exact .extend _ (Nat.le_refl _) _
  | deadOpen => exact .refl _
  | deadClose => exact .refl _
  | deadSkip => exact .refl _
  | deadElse hkind => exact .startElse h.linked h.consistent h.locals_le h.entry_le
  | deadEnd harity => exact .close h.linked h.consistent h.locals_le h.entry_le

/-- **Compiling a body appends to the code.** By induction on the steps. What was emitted after any
of its instructions is still there in the finished program. -/
theorem Steps.continues (hs : Steps numLocals is t t') (h : Sound numLocals results t) :
    t.emitter.Continues t'.emitter := by
  induction hs with
  | nil => exact .refl _
  | cons _ effect _ ih => exact (effect.continues h).trans (ih (effect.sound h))

end Compilation

end WasmJit
