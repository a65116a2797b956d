import WasmJit.Instruction
import WasmJit.Proofs.Emission.Moves

/-!
# Emitting operations

The three instructions that compute: `Emitter.localGet`, `Emitter.add` and `Emitter.eq`. Each is put
together from moves of operands and one instruction of its own, and each is described by one
`Transforms`: what the new topmost operand is worth, with all others unchanged.

The floor is the entry height of the innermost construct. An operation takes its operands from above
the floor, which is why operands below it stay where they are once they are in memory.
-/

namespace WasmJit

namespace Emitter

open Machine (runCode Represents)

variable {numLocals floor : Nat} {s : OperandStack}

/-! ### Copies of locals -/

/-- With the topmost operand out of the flags, a copy of a local may be pushed. Otherwise that
operand would be in the flags without being topmost, where the next arithmetic instruction destroys
it. -/
theorem flagsOnTop_pushLocal (hsize : s.height ≤ s.entries.size) (index : Nat)
    (htop : ∀ i, i + 1 = s.height → ∀ c, s.placement? i ≠ some (.flags c))
    (hf : s.FlagsOnTop s.height) : (s.push (.ofLocal index)).FlagsOnTop (s.height + 1) := by
  intro i hi c hc
  rw [OperandStack.placement?_push hsize] at hc
  split at hc
  · cases hc
  · -- an operand in the flags would have been on top before
    next hne => exact absurd hc (htop i (hf i (by omega) c hc) c)

/-- **Pushing a copy of a local**, on top of operands of which none is in the flags. No code is
needed: the copy is read from the slot of the local, which does not change while the function runs.
-/
theorem transforms_pushLocal (h : s.Coherent numLocals s.height) {index : Nat}
    (hindex : index < numLocals) (hslot : s.placement? index = some .slot)
    (hfloor : floor ≤ s.height)
    (htop : ∀ i, i + 1 = s.height → ∀ c, s.placement? i ≠ some (.flags c)) :
    Transforms numLocals floor s.height s (s.height + 1) (s.push (.ofLocal index)) []
      (fun values => Function.update values s.height (values index)) := by
  have hat := OperandStack.placement?_push h.active_le_size (.ofLocal index)
  refine
    { coherent := h.push (by simp) (by simpa using hindex) (by simp),
      active_le := h.active_le_ceiling, ceiling_le := Nat.le_max_left _ _, onlyEqual := ?_,
      computes := by simp, frozen := ?_,
      flagsOnTop := flagsOnTop_pushLocal h.active_le_size index htop, runs := ?_ }
  · intro he i hi c hc
    -- the new operand is in no flag, and the others are where they were
    rw [hat] at hc
    split at hc
    · cases hc
    · exact he i (by omega) c hc
  · intro i hi p _ hp
    rw [hat, if_neg (by omega), hp]
  · intro m values _ hrep _
    -- the new operand is read from the slot of the local, without any code
    have hw := hrep.reads index (Nat.lt_of_lt_of_le hindex h.locals_le) .slot hslot
    exact ⟨m, rfl, hrep.pushLocal h.active_le_size hw, .of_slots_eq rfl⟩

/-- If there is a topmost operand, it decides what to do. This only unfolds the action, so that the
cases below can be about the operand. -/
theorem emits_freeFlags {k : Nat} (hk : s.height = k + 1) {s' : OperandStack}
    {code : List (Instr Nat)}
    (h : Emits (operand k >>= fun o => match o.placement with
      | .flags c => materialise k c
      | _ => pure ()) s () s' code) : Emits freeFlags s () s' code := by
  refine emits_get fun e he => ?_
  simp only [he, OperandStack.top?, hk]
  exact h e he

/-- **Freeing the flags**: the topmost operand is brought out of them. It may be below the floor,
for it is not in memory. -/
theorem exists_freeFlags (h : s.Coherent numLocals s.height) :
    ∃ s' code, Emits freeFlags s () s' code ∧
      (∀ floor, Transforms numLocals floor s.height s s.height s' code id) ∧
      s'.height = s.height ∧ s'.ceiling = s.ceiling ∧
      ∀ i, i + 1 = s.height → ∀ c, s'.placement? i ≠ some (.flags c) := by
  cases hh : s.height with
  | zero =>
    -- on an empty stack there is nothing in the flags
    refine ⟨s, [], emits_get fun e he => ?_, fun _ => Transforms.refl (hh ▸ h), hh, rfl, by omega⟩
    simp only [he, OperandStack.top?, hh]
    exact Emits.pure () s e he
  | succ k =>
    rw [← hh]
    have hk : k < s.height := by omega
    obtain ⟨p, hp⟩ := h.exists_placement hk
    have hoperand := emits_operand (h.exists_entry hp)
    -- an operand that is not in the flags stays where it is
    have hstay : (∀ c, p ≠ .flags c) → ∀ i, i + 1 = s.height → ∀ c,
        s.placement? i ≠ some (.flags c) := by
      intro hne i hi c hc
      rw [show i = k by omega, hp] at hc
      exact hne c (Option.some.inj hc)
    cases p with
    | flags c =>
      -- the condition becomes a number in a register, for which another operand may have to go
      obtain ⟨s', code, hemits, hens⟩ := exists_materialise h (by omega) hk hp
      refine ⟨s', code, emits_freeFlags hh (hoperand.bind hemits),
        fun floor => hens.transforms floor ?_, hens.height_eq, hens.ceiling_eq, ?_⟩
      · intro q hq hm
        rw [hp] at hq
        cases hq
        exact hm.elim
      · intro i hi c hc
        obtain ⟨r, hr⟩ := hens.held
        rw [show i = k by omega, hr] at hc
        cases hc
    | register r =>
      exact ⟨s, [], emits_freeFlags hh (hoperand.bind (Emits.pure () s)),
        fun _ => Transforms.refl h, rfl, rfl, hstay (by simp)⟩
    | ofLocal j =>
      exact ⟨s, [], emits_freeFlags hh (hoperand.bind (Emits.pure () s)),
        fun _ => Transforms.refl h, rfl, rfl, hstay (by simp)⟩
    | slot =>
      exact ⟨s, [], emits_freeFlags hh (hoperand.bind (Emits.pure () s)),
        fun _ => Transforms.refl h, rfl, rfl, hstay (by simp)⟩

/-- **A copy of a local** is pushed, after the flags were freed. -/
theorem exists_localGet (h : s.Coherent numLocals s.height) {index : Nat}
    (hindex : index < numLocals) (hslot : s.placement? index = some .slot)
    (hfloor : floor ≤ s.height) :
    ∃ s' code, Emits (localGet index) s () s' code ∧
      Transforms numLocals floor s.height s (s.height + 1) s' code
        (fun values => Function.update values s.height (values index)) ∧
      s'.height = s.height + 1 ∧ s'.ceiling = max s.ceiling (s.height + 1) := by
  obtain ⟨s₁, code, hemits, htr, hheight, hceil, htop⟩ := exists_freeFlags h
  -- with nothing in the flags, the copy may be pushed on top
  have hcoh := (htr 0).coherent
  have hslot₁ := (htr (index + 1)).frozen index (Nat.lt_succ_self _) .slot trivial hslot
  rw [← hheight] at hcoh hfloor htop
  have hpush := transforms_pushLocal hcoh hindex hslot₁ hfloor htop
  rw [hheight] at hpush
  refine ⟨_, code ++ [], hemits.bind (emits_modifyStack _ s₁), (htr floor).trans hpush, ?_, ?_⟩
  · change s₁.height + 1 = _
    rw [hheight]
  · change max s₁.ceiling (s₁.height + 1) = _
    rw [hheight, hceil]

/-! ### Sums -/

/-- **The last step of an addition**: both operands are in registers, and the upper one has been
popped. The lower one keeps its register, which now holds the sum, and the upper one gives up its
own. -/
theorem transforms_add {k : Nat} {r r' : Register} (h : s.Coherent numLocals (k + 2))
    (hh : s.height = k + 1) (hr : s.placement? (k + 1) = some (.register r))
    (hr' : s.placement? k = some (.register r')) :
    Transforms numLocals floor (k + 2) s (k + 1) (s.release (k + 1)) [.add r r']
      (fun values => Function.update values k (values k + values (k + 1))) := by
  -- below the upper operand nothing moves, and the upper one is released
  have hkeep : ∀ i, i < k + 1 → (s.release (k + 1)).placement? i = s.placement? i := by
    intro i hi
    rw [OperandStack.placement?_release, if_neg (by omega)]
  have hnone : ∀ q, (s.release (k + 1)).placement? (k + 1) = some q → q = .slot := by
    intro q hq
    rw [OperandStack.placement?_release, if_pos rfl, hr] at hq
    exact (Option.some.inj hq).symm
  refine
    { coherent := (h.release (by omega) hr).shrink (by simp [hh])
        (fun _ he => by cases hnone _ he),
      active_le := h.active_le_ceiling, ceiling_le := by simp,
      onlyEqual := fun he i hi => he.release (k + 1) i (by omega), computes := ?_,
      frozen := (transforms_spill h (by omega) hr).frozen, flagsOnTop := ?_, runs := ?_ }
  · intro _ i hi
    rw [List.mem_singleton] at hi
    subst hi
    exact ⟨h.pooled _ (by omega) r hr, h.pooled _ (by omega) r' hr'⟩
  · -- the flags could only have held the upper operand, which is in a register
    intro hf i hi c hc
    rw [hkeep i hi] at hc
    have := hf i (by omega) c hc
    omega
  · intro m values hf hrep _
    have ha := hrep.word? (by omega) hr
    have hb := hrep.word? (by omega) hr'
    refine ⟨_, Machine.runCode_cons (Machine.step_add ha hb), ?_, .of_slots_eq rfl⟩
    have hpool := h.pooled k (by omega) r' hr'
    refine ⟨(hrep.ready.set hpool _).congr rfl, fun i hi p hp => ?_⟩
    rw [hkeep i hi] at hp
    by_cases hik : i = k
    · -- the lower operand is read from the register that holds the sum
      subst hik
      rw [hr'] at hp
      cases hp
      rw [Function.update_self]
      exact Machine.word?_set_self m r' _
    · rw [Function.update_of_ne hik]
      have hread := hrep.reads i (by omega) p hp
      -- the sum overwrites register `r'`, which no other operand holds, and the flags
      cases p with
      | register q =>
        have hne : q ≠ r' := fun he => hik (h.unshared i k (by omega) (by omega) r' (he ▸ hp) hr')
        exact (Machine.word?_set_of_ne hne m _).trans hread
      | flags c =>
        have := hf i (by omega) c hp
        omega
      | ofLocal j => exact hread
      | slot => exact hread

/-- Popping returns the position of the topmost operand. -/
theorem emits_pop {k : Nat} (hh : s.height = k + 1) :
    Emits pop s k { s with height := k } [] := by
  refine emits_get fun e he => ?_
  have hpop : e.stack.pop? = some (k, { s with height := k }) := by
    simp only [he, OperandStack.pop?, hh]
  exact (emits_require hpop s).bind ((emits_modifyStack _ s).bind (Emits.pure k _)) e he

/-- An action that first looks at the position of the topmost operand. -/
theorem emits_top {β : Type} {next : Nat → Emit β} {k : Nat} {b : β} {s' : OperandStack}
    {code : List (Instr Nat)} (hh : s.height = k + 1) (h : Emits (next k) s b s' code) :
    Emits (do next (← require (← get).stack.top?)) s b s' code := by
  refine emits_get fun e he => ?_
  have htop : e.stack.top? = some k := by
    simp only [he, OperandStack.top?, hh]
  exact (emits_require htop s).bind h e he

/-- **A sum** replaces the two topmost operands. The steps are those of the emitter: pop the upper
operand, bring both into registers one after the other, add, and release the upper one. -/
theorem exists_add (h : s.Coherent numLocals s.height) {k : Nat} (hh : s.height = k + 2)
    (hl : numLocals ≤ k) (hfloor : floor ≤ k) :
    ∃ s' code, Emits add s () s' code ∧
      Transforms numLocals floor (k + 2) s (k + 1) s' code
        (fun values => Function.update values k (values k + values (k + 1))) ∧
      s'.height = k + 1 ∧ s'.ceiling = s.ceiling := by
  rw [hh] at h
  -- the upper operand is popped and brought into a register, then the lower one
  have hpop : Transforms numLocals floor (k + 2) s (k + 2) { s with height := k + 1 } [] id :=
    Transforms.lower h (by omega) (by omega)
  obtain ⟨s₁, code₁, hemits₁, hens₁⟩ :=
    exists_ensure hpop.coherent (Nat.le_succ _) (i := k + 1) (by omega) (by omega)
  have htr₁ := hens₁.transforms floor fun _ _ _ => by omega
  have hh₁ : s₁.height = k + 1 := hens₁.height_eq
  obtain ⟨s₂, code₂, hemits₂, hens₂⟩ :=
    exists_ensure htr₁.coherent (by omega) (i := k) (by omega) hl
  have htr₂ := hens₂.transforms floor fun _ _ _ => hfloor
  have hh₂ : s₂.height = k + 1 := hens₂.height_eq.trans hh₁
  -- the upper operand is popped, so the lower one cannot take its register away
  obtain ⟨r, hr⟩ := hens₁.held
  rw [← hens₂.placement?_of_height_le (by omega) (by omega)] at hr
  obtain ⟨r', hr'⟩ := hens₂.held
  have hadd := htr₂.trans (transforms_add htr₂.coherent hh₂ hr hr')
  refine ⟨_, _, ?_, hpop.trans (htr₁.trans hadd), by simp [hh₂], ?_⟩
  · exact (emits_pop hh).bind <| hemits₁.bind <| emits_top hh₁ <| hemits₂.bind <|
      (emits_registerOf htr₂.coherent hr).bind <| (emits_registerOf htr₂.coherent hr').bind <|
      (emits_emit _ s₂).bind (emits_modifyStack _ s₂)
  · simp only [OperandStack.ceiling_release]
    rw [hens₂.ceiling_eq, hens₁.ceiling_eq]

/-! ### Comparisons -/

/-- **The last step of a comparison**: both operands are in registers and have been popped, and what
replaces them is in the flags. No register holds the result, so both are given up. -/
theorem transforms_compare {k : Nat} {r r' : Register} (h : s.Coherent numLocals (k + 2))
    (hh : s.height = k) (hfloor : floor ≤ k) (hr : s.placement? (k + 1) = some (.register r))
    (hr' : s.placement? k = some (.register r')) :
    Transforms numLocals floor (k + 2) s (k + 1)
      (((s.release k).release (k + 1)).push (.flags .equal)) [.compare r r']
      (fun values => Function.update values k (if values k = values (k + 1) then 1 else 0)) := by
  -- both registers are given up before the result is pushed
  have hrel : ((s.release k).release (k + 1)).Coherent numLocals k := by
    have h₁ := h.release (by omega) hr'
    have hr₁ : (s.release k).placement? (k + 1) = some (.register r) := by
      rw [OperandStack.placement?_release, if_neg (by omega), hr]
    have h₂ := h₁.release (by omega) hr₁
    refine (h₂.shrink (by simp [hh]) fun q hq => ?_).shrink (by simp [hh]) fun q hq => ?_
    · rw [OperandStack.placement?_release, if_pos rfl, hr₁] at hq
      cases hq
    · rw [OperandStack.placement?_release, if_neg (by omega), OperandStack.placement?_release,
        if_pos rfl, hr'] at hq
      cases hq
  have hheight : ((s.release k).release (k + 1)).height = k := by simp [hh]
  -- the result stands where the lower operand was, and nothing below has changed
  have hat : ∀ i, i < k + 1 →
      (((s.release k).release (k + 1)).push (.flags .equal)).placement? i =
        if i = k then some (.flags .equal) else s.placement? i := by
    intro i hi
    rw [OperandStack.placement?_push (by rw [hheight]; exact hrel.active_le_size), hheight]
    by_cases hik : i = k
    · rw [if_pos hik, if_pos hik]
    · rw [if_neg hik, if_neg hik, OperandStack.placement?_release, if_neg (by omega),
        OperandStack.placement?_release, if_neg hik]
  have hpush := (hheight.symm ▸ hrel : ((s.release k).release (k + 1)).Coherent numLocals
    ((s.release k).release (k + 1)).height).push (p := .flags .equal) (by simp) (by simp)
    (by simp [Condition.Known])
  rw [hheight] at hpush
  refine
    { coherent := hpush, active_le := h.active_le_ceiling, ceiling_le := ?_, onlyEqual := ?_,
      computes := ?_, frozen := ?_, flagsOnTop := ?_, runs := ?_ }
  · change s.ceiling ≤ max ((s.release k).release (k + 1)).ceiling _
    simp only [OperandStack.ceiling_release]
    exact Nat.le_max_left _ _
  · intro he i hi c hc
    rw [hat i hi] at hc
    split at hc
    · cases hc
      rfl
    · exact he i (by omega) c hc
  · intro _ i hi
    -- the comparison reads the two registers and writes none
    rw [List.mem_singleton] at hi
    subst hi
    exact ⟨h.pooled _ (by omega) r hr, h.pooled _ (by omega) r' hr'⟩
  · intro i hi p _ hp
    rw [hat i (by omega), if_neg (by omega), hp]
  · intro hf i hi c hc
    rw [hat i hi] at hc
    split at hc
    · next he => rw [he]
    · -- below the two operands nothing was in the flags
      have := hf i (by omega) c hc
      omega
  · intro m values hf hrep _
    -- the flag now says whether the two words are equal
    have ha := hrep.word? (by omega) hr
    have hb := hrep.word? (by omega) hr'
    refine ⟨_, Machine.runCode_cons (Machine.step_compare ha hb), ?_, .of_slots_eq rfl⟩
    refine ⟨hrep.ready.congr rfl, fun i hi p hp => ?_⟩
    rw [hat i hi] at hp
    split at hp
    · next he =>
      cases hp
      subst he
      simp [Machine.read, Machine.holds?, eq_comm]
    · next hne =>
      rw [Function.update_of_ne hne]
      have hread := hrep.reads i (by omega) p hp
      cases p with
      | register q => exact hread
      | flags c =>
        have := hf i (by omega) c hp
        omega
      | ofLocal j => exact hread
      | slot => exact hread

/-- **A comparison** replaces the two topmost operands and stays in the flags. In contrast to a sum,
both operands are popped before the lower one is brought into a register, so neither of them can be
spilled to make room for the other. -/
theorem exists_eq (h : s.Coherent numLocals s.height) {k : Nat} (hh : s.height = k + 2)
    (hl : numLocals ≤ k) (hfloor : floor ≤ k) :
    ∃ s' code, Emits eq s () s' code ∧
      Transforms numLocals floor (k + 2) s (k + 1) s' code
        (fun values => Function.update values k (if values k = values (k + 1) then 1 else 0)) ∧
      s'.height = k + 1 ∧ s'.ceiling = s.ceiling := by
  rw [hh] at h
  have hpop : Transforms numLocals floor (k + 2) s (k + 2) { s with height := k + 1 } [] id :=
    Transforms.lower h (by omega) (by omega)
  obtain ⟨s₁, code₁, hemits₁, hens₁⟩ :=
    exists_ensure hpop.coherent (Nat.le_succ _) (i := k + 1) (by omega) (by omega)
  have htr₁ := hens₁.transforms floor fun _ _ _ => by omega
  have hh₁ : s₁.height = k + 1 := hens₁.height_eq
  -- the lower operand is popped as well, so that nothing is live above position `k`
  have hpop₁ : Transforms numLocals floor (k + 2) s₁ (k + 2) { s₁ with height := k } [] id :=
    Transforms.lower htr₁.coherent (by omega) hl
  obtain ⟨s₂, code₂, hemits₂, hens₂⟩ :=
    exists_ensure hpop₁.coherent (Nat.le_refl _) (i := k) (by omega) hl
  have htr₂ := hens₂.transforms floor fun _ _ _ => hfloor
  have hh₂ : s₂.height = k := hens₂.height_eq
  -- both operands are popped, so neither takes the register of the other away
  obtain ⟨r, hr⟩ := hens₁.held
  have hkeep := hens₂.placement?_of_height_le (j := k + 1) (by omega) (Nat.le_succ k)
  rw [show ({ s₁ with height := k } : OperandStack).placement? (k + 1) = _ from hr] at hkeep
  obtain ⟨r', hr'⟩ := hens₂.held
  have hcmp := htr₂.trans (transforms_compare htr₂.coherent hh₂ hfloor hkeep hr')
  refine ⟨_, _, ?_, hpop.trans (htr₁.trans (hpop₁.trans hcmp)), ?_, ?_⟩
  · exact (emits_pop hh).bind <| hemits₁.bind <| (emits_pop hh₁).bind <| hemits₂.bind <|
      (emits_registerOf htr₂.coherent hkeep).bind <|
      (emits_registerOf htr₂.coherent hr').bind <|
      (emits_emit _ s₂).bind (emits_modifyStack _ s₂)
  · change ((s₂.release k).release (k + 1)).height + 1 = k + 1
    simp [hh₂]
  · change max ((s₂.release k).release (k + 1)).ceiling
      (((s₂.release k).release (k + 1)).height + 1) = s.ceiling
    -- the result lies below the two operands it replaces, so the ceiling stays
    have := h.active_le_ceiling
    have hceil₂ : s₂.ceiling = s₁.ceiling := hens₂.ceiling_eq
    have hceil₁ : s₁.ceiling = s.ceiling := hens₁.ceiling_eq
    simp only [OperandStack.ceiling_release, OperandStack.height_release]
    omega

/-! ### Straight-line instructions -/

/-- A straight-line instruction: it replaces the `pops` operands from position `k` on by
`result values k`. -/
structure Operation where
  pops : Nat
  result : (Nat → UInt64) → Nat → UInt64

/-- What a straight-line instruction computes. -/
def operation? : Instruction → Option Operation
  | .localGet index => some ⟨0, fun values _ => values index.toNat⟩
  | .add => some ⟨2, fun values k => values k + values (k + 1)⟩
  | .eq => some ⟨2, fun values k => if values k = values (k + 1) then 1 else 0⟩
  | _ => none

/-- How a straight-line instruction is emitted. -/
def emission : Instruction → Emit Unit
  | .localGet index => localGet index.toNat
  | .add => add
  | .eq => eq
  | _ => pure ()

/-- **A straight-line instruction** replaces the operands it pops by its result. This is the common
form in which later modules use the three operations; the ceiling rises for copies of locals only,
since the results of the other two lie below their operands. -/
theorem exists_emission (h : s.Consistent numLocals s.height) {i : Instruction} {op : Operation}
    (hop : operation? i = some op) (hindex : ∀ x, i = .localGet x → x.toNat < numLocals)
    (floor : Nat) {k : Nat} (hh : s.height = k + op.pops) (hl : numLocals ≤ k)
    (hfloor : floor ≤ k) :
    ∃ s' code, Emits (emission i) s () s' code ∧
      Transforms numLocals floor s.height s (k + 1) s' code
        (fun values => Function.update values k (op.result values k)) ∧
      s'.height = k + 1 ∧ s'.ceiling = max s.ceiling (k + 1) := by
  have hceil := h.active_le_ceiling
  -- each operation has its own lemma; here they are brought to the same form
  cases i with
  | localGet x =>
    cases hop
    obtain rfl : s.height = k := hh
    exact exists_localGet h.toCoherent (hindex x rfl) (h.of_local _ (hindex x rfl)) hfloor
  | add =>
    cases hop
    replace hh : s.height = k + 2 := hh
    obtain ⟨s', code, hemits, htr, hheight, hc⟩ := exists_add h.toCoherent hh hl hfloor
    exact ⟨s', code, hemits, hh ▸ htr, hheight, by omega⟩
  | eq =>
    cases hop
    replace hh : s.height = k + 2 := hh
    obtain ⟨s', code, hemits, htr, hheight, hc⟩ := exists_eq h.toCoherent hh hl hfloor
    exact ⟨s', code, hemits, hh ▸ htr, hheight, by omega⟩
  | _ => cases hop

end Emitter

end WasmJit
