import WasmJit.Proofs.Compilation.HeightRefinement
import WasmJit.Proofs.Correctness.Continuation

/-!
# Registers and pending jumps are accounted for

A compilation keeps two records beside the operands and the constructs that it follows: the
registers in use, and the jumps that wait for a label. Both are updated by hand at every push, pop,
spill, branch and end, and nothing but these two results says that no update is missing.

* `OperandStack.Tidy` : the registers in use are those of the live operands, one operand for each,
  and every live operand has one place. `Function.registers_follow_operands` has it after any
  accepted instructions.
* `Compilation.Orderly` : the open constructs are nested, and the jumps without a label are those
  that they wait for, each of them once. `Function.jumps_follow_constructs` has it after any
  accepted instructions, and concludes that every jump is given exactly one label.

Both are read off `Compilation.Sound`, which speaks about operands by position and about jumps by
number.
-/

namespace WasmJit

/-! ### Registers -/

namespace OperandStack

variable {s : OperandStack} {numLocals : Nat}

/-- **The records about the live operands agree**: the list of the registers in use, and the
placements of the operands up to the height of the stack. -/
structure Tidy (numLocals : Nat) (s : OperandStack) : Prop where
  length_live : s.live.length = s.height
  /-- Every live operand has the slot with its own number. -/
  indexed : ∀ (i : Nat) o, s.live[i]? = some o → o.slot = i
  /-- A live operand is in one place only. -/
  placed : ∀ o ∈ s.live, [o.placement.onRegister, o.placement.onFlags, o.placement.onLocal,
    o.placement.onSlot].count true = 1
  /-- The registers in use are those of the live operands. -/
  mem_used : ∀ r, r ∈ s.used ↔ ∃ o ∈ s.live, o.placement = .register r
  pooled : ∀ o ∈ s.live, ∀ r, o.placement = .register r → r ∈ Register.pool
  /-- No two live operands share a register. -/
  unshared : ∀ (i j : Nat) o o' r, s.live[i]? = some o → s.live[j]? = some o' →
    o.placement = .register r → o'.placement = .register r → i = j
  /-- Parameters and locals stay in their slots. -/
  of_local : ∀ i, i < numLocals → s.live[i]? = some ⟨.slot, i⟩
  alias_lt : ∀ o ∈ s.live, ∀ k, o.placement = .ofLocal k → k < numLocals

namespace Consistent

/-- The live operands are those below the height, with the placements that are recorded for them.
The entries above the height are left over and do not count. -/
theorem getElem?_live_iff (h : s.Consistent numLocals s.height) (i : Nat) (o : Operand) :
    s.live[i]? = some o ↔ i < s.height ∧ o.slot = i ∧ s.placement? i = some o.placement := by
  rw [live, List.getElem?_take, Array.getElem?_toList]
  -- below the height an entry is live, and from there on it is not
  split
  · next hi =>
    constructor
    · intro ho
      refine ⟨hi, h.indexed i o ho, ?_⟩
      rw [placement?, ho, Option.map_some]
    · rintro ⟨-, rfl, hp⟩
      exact h.exists_entry hp
  · next hi =>
    constructor
    · intro ho
      cases ho
    · intro ho
      exact absurd ho.1 hi

/-- A live operand is found at the position that is the number of its slot. -/
theorem mem_live_iff (h : s.Consistent numLocals s.height) (o : Operand) :
    o ∈ s.live ↔ o.slot < s.height ∧ s.placement? o.slot = some o.placement := by
  rw [List.mem_iff_getElem?]
  constructor
  · rintro ⟨i, ho⟩
    obtain ⟨hi, rfl, hp⟩ := (h.getElem?_live_iff i o).mp ho
    exact ⟨hi, hp⟩
  · rintro ⟨hi, hp⟩
    exact ⟨o.slot, (h.getElem?_live_iff o.slot o).mpr ⟨hi, rfl, hp⟩⟩

/-- A register is in use exactly when a live operand holds it. Consistency says this by position. -/
theorem mem_used_iff_live (h : s.Consistent numLocals s.height) (r : Register) :
    r ∈ s.used ↔ ∃ o ∈ s.live, o.placement = .register r := by
  rw [h.mem_used]
  constructor
  · rintro ⟨i, hi, hp⟩
    exact ⟨⟨.register r, i⟩, (h.mem_live_iff _).mpr ⟨hi, hp⟩, rfl⟩
  · rintro ⟨o, ho, hr⟩
    obtain ⟨hi, hp⟩ := (h.mem_live_iff o).mp ho
    exact ⟨o.slot, hi, hr ▸ hp⟩

/-- **A consistent stack of live operands is tidy.** Every field is one of consistency, with the
positions replaced by the operands found there. -/
theorem tidy (h : s.Consistent numLocals s.height) : s.Tidy numLocals where
  length_live := by
    rw [live, List.length_take, Array.length_toList]
    exact Nat.min_eq_left h.active_le_size
  indexed i o ho := ((h.getElem?_live_iff i o).mp ho).2.1
  placed o _ := by
    cases o.placement <;> rfl
  -- the registers, by the operands that hold them
  mem_used := h.mem_used_iff_live
  pooled o ho r hr := by
    obtain ⟨hi, hp⟩ := (h.mem_live_iff o).mp ho
    exact h.pooled o.slot hi r (hr ▸ hp)
  unshared i j o o' r ho ho' hr hr' := by
    obtain ⟨hi, -, hp⟩ := (h.getElem?_live_iff i o).mp ho
    obtain ⟨hj, -, hp'⟩ := (h.getElem?_live_iff j o').mp ho'
    exact h.unshared i j hi hj r (hr ▸ hp) (hr' ▸ hp')
  of_local i hi :=
    (h.getElem?_live_iff i _).mpr ⟨Nat.lt_of_lt_of_le hi h.locals_le, rfl, h.of_local i hi⟩
  alias_lt o ho k hk := by
    obtain ⟨hi, hp⟩ := (h.mem_live_iff o).mp ho
    exact h.alias_lt o.slot hi k (hk ▸ hp)

end Consistent

/-- No register is free exactly when all of them are held by live operands, so `freeRegister?` fails
for want of registers only, and spilling an operand always helps. -/
theorem Tidy.freeRegister?_eq_none_iff (h : s.Tidy numLocals) :
    s.freeRegister? = none ↔
      ∀ r ∈ Register.pool, ∃ o ∈ s.live, o.placement = .register r := by
  constructor
  · intro hnone r hr
    exact (h.mem_used r).mp (mem_used_of_freeRegister?_eq_none hnone hr)
  · intro hheld
    cases hfree : s.freeRegister? with
    | none => rfl
    | some r =>
      obtain ⟨hr, hunused⟩ := freeRegister?_eq_some hfree
      exact absurd ((h.mem_used r).mpr (hheld r hr)) hunused

end OperandStack

/-- **Registers follow the operands.** After any accepted instructions, of live or of dead code,
the registers in use are exactly those that hold live operands, one operand for each, and every live
operand is in exactly one place. So a register that is handed out holds no live operand, and none is
lost: if no register can be handed out, all of them hold live operands. -/
theorem Function.registers_follow_operands (f : Function) {ls : List Located} {t : Compilation}
    (h : ls.foldlM (Compilation.advance f.code.body.length) (Compilation.start f) = .ok t) :
    t.emitter.stack.Tidy f.numLocals ∧
      (∀ r, t.emitter.stack.freeRegister? = some r →
        r ∈ Register.pool ∧ ∀ o ∈ t.emitter.stack.live, o.placement ≠ .register r) ∧
      (t.emitter.stack.freeRegister? = none ↔
        ∀ r ∈ Register.pool, ∃ o ∈ t.emitter.stack.live, o.placement = .register r) := by
  have htidy := ((Compilation.sound_start f).of_foldlM h).consistent.tidy
  refine ⟨htidy, fun r hr => ?_, htidy.freeRegister?_eq_none_iff⟩
  -- a register that is handed out is unused, so by tidiness no live operand holds it
  obtain ⟨hpool, hunused⟩ := OperandStack.freeRegister?_eq_some hr
  exact ⟨hpool, fun o ho he => hunused ((htidy.mem_used r).mpr ⟨o, ho, he⟩)⟩

/-- A function that keeps more sums at a time than there are registers, and one of them in front of
a construct that traps. -/
def Function.crowded : Function where
  index := 0
  type := .binary
  code := ⟨0, (List.replicate 12 [0x20, 0x00, 0x20, 0x01, 0x6a]).flatten ++
    [0x02, 0x40, 0x00, 0x0b, 0x20, 0x00, 0x6a, 0x00, 0x0b]⟩

/-- Its operands in the middle of the last sum, behind the trap: the registers of three of the
twelve sums were taken away. -/
theorem Function.registers_follow_operands_crowded :
    ∃ t, ((disassemble Function.crowded.code.body).instructions.take 40).foldlM
        (Compilation.advance Function.crowded.code.body.length)
        (Compilation.start Function.crowded) = .ok t ∧
      t.emitter.stack.height = 15 ∧ t.emitter.stack.used.length = 9 ∧
      t.emitter.stack.Tidy Function.crowded.numLocals := by
  -- the compilation is run up to there by evaluation
  obtain ⟨t, ht, htest⟩ := Except.exists_ok_of_any
    (x := ((disassemble Function.crowded.code.body).instructions.take 40).foldlM
      (Compilation.advance Function.crowded.code.body.length)
      (Compilation.start Function.crowded))
    (p := fun t => t.emitter.stack.height = 15 ∧ t.emitter.stack.used.length = 9)
    (by decide +kernel)
  obtain ⟨hheight, hused⟩ := of_decide_eq_true htest
  exact ⟨t, ht, hheight, hused, (Function.crowded.registers_follow_operands ht).1⟩

/-! ### Pending jumps -/

namespace Emitter

variable {e : Emitter} {pending : List Nat}

/-- The numbers of the jumps that have no label yet. -/
def unpatched (e : Emitter) : List Nat :=
  (List.range e.fixups.size).filter fun j => (e.fixups[j]?).any (!·.patched)

/-- Which jumps these are, by their fixups. -/
theorem mem_unpatched (e : Emitter) (j : Nat) :
    j ∈ e.unpatched ↔ ∃ x, e.fixups[j]? = some x ∧ x.target = none := by
  rw [unpatched, List.mem_filter, List.mem_range, Option.any_eq_true]
  constructor
  · rintro ⟨-, x, hx, hpatched⟩
    exact ⟨x, hx, by simpa [Fixup.patched] using hpatched⟩
  · rintro ⟨x, hx, hnone⟩
    refine ⟨(Array.getElem?_eq_some_iff.mp hx).1, x, hx, ?_⟩
    rw [Fixup.patched, hnone]
    rfl

/-- They are listed by their numbers, so none occurs twice. -/
theorem nodup_unpatched (e : Emitter) : e.unpatched.Nodup :=
  List.nodup_range.filter _

/-- The jumps that are waited for are those without a label, each of them once. Both lists are
without repetition and have the same members. -/
theorem Linked.perm_unpatched (h : e.Linked pending) : pending.Perm e.unpatched := by
  rw [List.perm_ext_iff_of_nodup h.nodup e.nodup_unpatched]
  intro j
  rw [h.mem_pending, mem_unpatched]

end Emitter

namespace Compilation

variable {numLocals results : Nat} {t : Compilation}

/-- **The open constructs are in order**, and so are the jumps that they wait for. Constructs are
listed from the innermost one outwards. -/
structure Orderly (numLocals : Nat) (t : Compilation) : Prop where
  /-- The outermost construct, and no other, is the function body. -/
  function_iff : ∀ (d : Nat) g, t.frames[d]? = some g →
    (g.kind = .function ↔ d + 1 = t.frames.length)
  entry_eq : ∀ (d : Nat) g, t.frames[d]? = some g → d + 1 = t.frames.length → g.entry = numLocals
  /-- No construct starts below the one around it. -/
  entries : (t.frames.map Frame.entry).Pairwise (· ≥ ·)
  entry_le : ∀ g, t.frames.head? = some g → g.entry ≤ t.emitter.stack.height
  /-- A jump to an `else` is pending in the first arms of `if`s, and nowhere else. -/
  otherwise_iff : ∀ g ∈ t.frames, g.otherwise.isSome ↔ g.kind = .ifThen
  /-- The jumps without a label, each once, are those to the ends and to the `else`s of the open
  constructs. -/
  pending : (t.frames.flatMap fun g => g.exits ++ g.otherwise.toList).Perm t.emitter.unpatched

/-- **A sound compilation is in order.** What it says about nested constructs is `Frame.Nested`, by
position. -/
theorem Sound.orderly (h : t.Sound numLocals results) : t.Orderly numLocals where
  function_iff _ _ hg := h.nested.kind_eq_function_iff hg
  entry_eq _ _ hg hd := h.nested.entry_eq_of_bottom hg hd
  entries := List.pairwise_map.mpr h.nested.pairwise_entry
  entry_le g hg := by
    obtain ⟨fs, hframes⟩ := List.head?_eq_some_iff.mp hg
    exact (hframes ▸ h.nested).entry_le
  otherwise_iff _ hg := h.nested.otherwise_isSome_of_mem hg
  pending := h.linked.perm_unpatched

/-- When no construct is open any more, every jump has a label: one without would be pending, and
nothing is waited for. -/
theorem Sound.patched (h : t.Sound numLocals results) (hclosed : t.frames = []) :
    ∀ x ∈ t.emitter.fixups, x.patched = true := by
  intro x hx
  obtain ⟨j, hj⟩ := Array.getElem?_of_mem hx
  have hnone : x.target ≠ none := by
    intro hnone
    have hmem := (h.linked.mem_pending j).mpr ⟨x, hj, hnone⟩
    rw [hclosed] at hmem
    cases hmem
  exact Option.isSome_iff_ne_none.mpr hnone

end Compilation

/-- **Pending jumps follow the open constructs.** After any accepted instructions, of live or of
dead code, the open constructs are in order, and the jumps without a label are exactly those that
they wait for, each of them once. So no instruction is ever refused because it would give a jump a
second label or because a jump is missing, no jump changes its label, and when the function body
ends every jump has one. -/
theorem Function.jumps_follow_constructs (f : Function) {ls : List Located} {t : Compilation}
    (h : ls.foldlM (Compilation.advance f.code.body.length) (Compilation.start f) = .ok t) :
    t.Orderly f.numLocals ∧
      (t.frames ≠ [] → ∀ i err t', Compilation.step i t = .error err t' →
        ∀ fault, err ≠ .internal fault) ∧
      (∀ (ls' : List Located) (t' : Compilation),
        ls'.foldlM (Compilation.advance f.code.body.length) t = .ok t' →
        ∀ j label, t.emitter.resolve j = some label → t'.emitter.resolve j = some label) ∧
      (t.frames = [] → ∀ x ∈ t.emitter.fixups, x.patched = true) := by
  have hsound := (Compilation.sound_start f).of_foldlM h
  refine ⟨hsound.orderly, fun hne i err t' hstep fault => ?_, fun ls' t' ht' => ?_, hsound.patched⟩
  · -- what is refused is the fault of the function, so it has a kind
    rintro rfl
    rcases hsound.step_error hne hstep with hkind | hkind
    · cases hkind
    · cases hkind
  · -- labels are only ever added by later instructions
    exact ((hsound.steps_of_foldlM ht').continues hsound).resolve

/-- Behind the branch in the first arm of its `if`: two jumps wait for the end of the block around
it and one for the `else`, and the jump over the conditional branch has landed. -/
theorem Function.jumps_follow_constructs_leaving :
    ∃ t, ((disassemble Function.leaving.code.body).instructions.take 9).foldlM
        (Compilation.advance Function.leaving.code.body.length)
        (Compilation.start Function.leaving) = .ok t ∧
      t.frames.map (·.kind) = [.ifThen, .block, .function] ∧
      t.emitter.unpatched = [1, 2, 3] ∧ t.Orderly Function.leaving.numLocals := by
  obtain ⟨t, ht, htest⟩ := Except.exists_ok_of_any
    (x := ((disassemble Function.leaving.code.body).instructions.take 9).foldlM
      (Compilation.advance Function.leaving.code.body.length)
      (Compilation.start Function.leaving))
    (p := fun t => t.frames.map (·.kind) = [.ifThen, .block, .function] ∧
      t.emitter.unpatched = [1, 2, 3])
    (by decide +kernel)
  obtain ⟨hkinds, hunpatched⟩ := of_decide_eq_true htest
  exact ⟨t, ht, hkinds, hunpatched, (Function.leaving.jumps_follow_constructs ht).1⟩

end WasmJit
