import WasmJit.Proofs.Machine.Sandbox
import WasmJit.Proofs.Operands.Representation

/-!
# Moving operands

Most steps of code generation append straight-line code and change the operand stack, and depend on
nothing else. `Emitter.Emits action s a s' code` says this of a single action: on an operand stack
`s` it succeeds with `a`, leaves `s'` and appends `code`.

What such a step means is collected in `Emitter.Transforms`. The operand stack stays coherent, the
code keeps to its sandbox, operands below a floor stay in their slots, and executing the code leads
from a machine that represents `s` to one that represents `s'`, where the values change as the
function `f` says and the slots of parameters and locals do not. Steps compose (`Emits.bind`,
`Transforms.trans`), so the theorem about an instruction is put together from theorems about its
parts.

* `exists_allocate`: there always is a register for an operand, spilled if need be.
* `exists_materialise`, `exists_ensure`: an operand is brought into a register.
* `exists_flushAll`: all live operands are brought into memory, and an operand that was popped stays
  where it is; this is what makes both ways of a branch agree.
-/

namespace WasmJit

namespace Emitter

open Machine (runCode Represents)

/-! ### Emission as a relation -/

/-- The emitter after operands were moved and code was appended. -/
def extend (e : Emitter) (s : OperandStack) (code : List (Instr Nat)) : Emitter :=
  { e with stack := s, code := e.code ++ code.toArray }

@[simp] theorem stack_extend (e : Emitter) (s : OperandStack) (code : List (Instr Nat)) :
    (e.extend s code).stack = s := rfl

@[simp] theorem fixups_extend (e : Emitter) (s : OperandStack) (code : List (Instr Nat)) :
    (e.extend s code).fixups = e.fixups := rfl

theorem extend_self (e : Emitter) : e.extend e.stack [] = e := by
  simp [extend]

theorem extend_extend (e : Emitter) (s s' : OperandStack) (code code' : List (Instr Nat)) :
    (e.extend s code).extend s' code' = e.extend s' (code ++ code') := by
  simp [extend]

/-- **The action succeeds** on the operand stack `s`: it returns `a`, leaves `s'` and appends
`code`. It depends on the operand stack of the emitter only, and keeps everything else of it. -/
def Emits {α : Type} (action : Emit α) (s : OperandStack) (a : α) (s' : OperandStack)
    (code : List (Instr Nat)) : Prop :=
  ∀ e : Emitter, e.stack = s → action e = .ok a (e.extend s' code)

section Emits

variable {α β : Type} {s s₁ s₂ : OperandStack} {code₁ code₂ : List (Instr Nat)}

theorem Emits.pure (a : α) (s : OperandStack) : Emits (pure a) s a s [] := by
  intro e he
  rw [← he, extend_self]
  rfl

/-- What comes after the action goes on from where it ended. Also what comes after may fail or
depend on more than the operand stack, so this is not only about two actions of this kind. -/
theorem Emits.run_bind {action : Emit α} {next : α → Emit β} {a : α}
    (h : Emits action s a s₁ code₁) {e : Emitter} (he : e.stack = s) :
    (action >>= next) e = next a (e.extend s₁ code₁) := by
  change EStateM.bind action next e = _
  unfold EStateM.bind
  rw [h e he]

/-- **Actions compose**, and so do the pieces of code that they append. -/
theorem Emits.bind {action : Emit α} {next : α → Emit β} {a : α} {b : β}
    (h : Emits action s a s₁ code₁) (h' : Emits (next a) s₁ b s₂ code₂) :
    Emits (action >>= next) s b s₂ (code₁ ++ code₂) := by
  intro e he
  rw [h.run_bind he, h' _ rfl, extend_extend]

/-- Appending an instruction leaves the operand stack alone. -/
theorem emits_emit (i : Instr Nat) (s : OperandStack) : Emits (emit i) s () s [i] := by
  intro e he
  subst he
  change EStateM.Result.ok () _ = _
  simp [extend]

/-- Changing the operand stack appends nothing. -/
theorem emits_modifyStack (f : OperandStack → OperandStack) (s : OperandStack) :
    Emits (modifyStack f) s () (f s) [] := by
  intro e he
  subst he
  change EStateM.Result.ok () _ = _
  simp [extend]

theorem emits_require {o : Option α} {a : α} (h : o = some a) (s : OperandStack) :
    Emits (require o) s a s [] :=
  h ▸ Emits.pure a s

theorem emits_operand {i : Nat} {o : Operand} (h : s.entries[i]? = some o) :
    Emits (operand i) s o s [] := by
  intro e he
  subst he
  exact emits_require h e.stack e rfl

/-- An action that first looks at the operand stack. -/
theorem emits_get {next : Emitter → Emit β} {b : β}
    (h : ∀ e : Emitter, e.stack = s → next e e = .ok b (e.extend s₁ code₁)) :
    Emits (get >>= next) s b s₁ code₁ :=
  h

end Emits

/-! ### The meaning of a step -/

/-- Spilling is all that happened: an operand that moved was live and gave up its register. -/
def OnlySpills (s s' : OperandStack) : Prop :=
  ∀ i, s'.placement? i = s.placement? i ∨
    i < s.height ∧ (∃ r, s.placement? i = some (.register r)) ∧ s'.placement? i = some .slot

/-- **The meaning of a step** from the operand stack `s` to `s'` that appends `code`. Operands below
`floor` that are in memory stay there; the values of the operands change as `f` says. The fields are
what later steps ask for: those about the operand stack hold unconditionally, and `runs` is about
any machine that represents it. -/
structure Transforms (numLocals floor active : Nat) (s : OperandStack) (active' : Nat)
    (s' : OperandStack) (code : List (Instr Nat)) (f : (Nat → UInt64) → Nat → UInt64) : Prop where
  coherent : s'.Coherent numLocals active'
  active_le : active ≤ s.ceiling
  ceiling_le : s.ceiling ≤ s'.ceiling
  onlyEqual : s.OnlyEqual active → s'.OnlyEqual active'
  /-- The sandbox of a function admits no other condition than equality. -/
  computes : s.OnlyEqual active → ∀ i, i ∈ code → i.Computes numLocals s'.ceiling
  frozen : ∀ i, i < floor → ∀ p, p.InMemory → s.placement? i = some p → s'.placement? i = some p
  flagsOnTop : s.FlagsOnTop active → s'.FlagsOnTop active'
  runs : ∀ m values, s.FlagsOnTop active → Represents m s active values →
    active ≤ m.slots.size →
      ∃ m', runCode code m = some m' ∧ Represents m' s' active' (f values) ∧
        m.KeepsLocals numLocals m'

section Transforms

variable {numLocals floor active active₁ : Nat} {s s' s₁ s₂ : OperandStack}
  {code code₁ code₂ : List (Instr Nat)} {f f₁ f₂ : (Nat → UInt64) → Nat → UInt64}
  {i : Nat} {r : Register} {p : Placement} {c : Condition}

/-- Doing nothing. -/
theorem Transforms.refl (h : s.Coherent numLocals active) :
    Transforms numLocals floor active s active s [] id where
  coherent := h
  active_le := h.active_le_ceiling
  ceiling_le := Nat.le_refl _
  onlyEqual := id
  computes _ _ hi := absurd hi List.not_mem_nil
  frozen _ _ _ _ hp := hp
  flagsOnTop := id
  runs m _ _ hrep _ := ⟨m, rfl, hrep, .of_slots_eq rfl⟩

/-- **Steps compose**, with the changes of values one after the other. The first one must not change
how many operands are active, or the floor of the second one would be about other operands. -/
theorem Transforms.trans (h₁ : Transforms numLocals floor active s active s₁ code₁ f₁)
    (h₂ : Transforms numLocals floor active s₁ active₁ s₂ code₂ f₂) :
    Transforms numLocals floor active s active₁ s₂ (code₁ ++ code₂) (f₂ ∘ f₁) where
  coherent := h₂.coherent
  active_le := h₁.active_le
  ceiling_le := Nat.le_trans h₁.ceiling_le h₂.ceiling_le
  onlyEqual he := h₂.onlyEqual (h₁.onlyEqual he)
  computes he i hi := by
    -- the first piece of code was bounded by a lower ceiling
    rcases List.mem_append.mp hi with hi | hi
    · exact (h₁.computes he i hi).mono h₂.ceiling_le
    · exact h₂.computes (h₁.onlyEqual he) i hi
  frozen i hi p hm hp := h₂.frozen i hi p hm (h₁.frozen i hi p hm hp)
  flagsOnTop hf := h₂.flagsOnTop (h₁.flagsOnTop hf)
  runs m values hf hrep hsize := by
    obtain ⟨m₁, hrun₁, hrep₁, hkeeps₁⟩ := h₁.runs m values hf hrep hsize
    -- there are as many slots as before
    obtain ⟨m₂, hrun₂, hrep₂, hkeeps₂⟩ :=
      h₂.runs m₁ (f₁ values) (h₁.flagsOnTop hf) hrep₁ (hkeeps₁.size_eq ▸ hsize)
    exact ⟨m₂, (Machine.runCode_append hrun₁).trans hrun₂, hrep₂, hkeeps₁.trans hkeeps₂⟩

/-- Popping changes the height only; the operand stays active until it is released. -/
theorem Transforms.lower (h : s.Coherent numLocals active) {k : Nat} (hk : k ≤ s.height)
    (hl : numLocals ≤ k) :
    Transforms numLocals floor active s active { s with height := k } [] id where
  coherent := h.lower hk hl
  active_le := h.active_le_ceiling
  ceiling_le := Nat.le_refl _
  onlyEqual := id
  computes _ _ hi := absurd hi List.not_mem_nil
  frozen _ _ _ _ hp := hp
  flagsOnTop := id
  runs m _ _ hrep _ := ⟨m, rfl, hrep.congr fun _ _ => rfl, .of_slots_eq rfl⟩

/-- **A step keeps what holds while a function is compiled**, if it may move operands only above the
parameters and locals. -/
theorem Transforms.consistent (h : Transforms numLocals floor active s active₁ s₁ code f)
    (hs : s.Consistent numLocals active) (hfloor : numLocals ≤ floor) :
    s₁.Consistent numLocals active₁ where
  toCoherent := h.coherent
  of_local i hi := h.frozen i (by omega) .slot trivial (hs.of_local i hi)
  tested := h.onlyEqual hs.tested

theorem OnlySpills.refl (s : OperandStack) : OnlySpills s s := fun _ => .inl rfl

/-- What is not in a register is not spilled. -/
theorem OnlySpills.placement?_eq (h : OnlySpills s s') (hp : s.placement? i = some p)
    (hne : ∀ r, p ≠ .register r) : s'.placement? i = some p := by
  rcases h i with he | ⟨-, ⟨r, hr⟩, -⟩
  · rw [he, hp]
  · rw [hp] at hr
    exact absurd (Option.some.inj hr) (hne r)

/-! ### Spilling -/

/-- What spilling emits: a store to the slot of the operand. -/
theorem emits_spill (h : s.Coherent numLocals active)
    (hp : s.placement? i = some (.register r)) :
    Emits (spill i) s () (s.release i) [.store r .valueStack (slotOffset i)] :=
  (emits_operand (h.exists_entry hp)).bind
    ((emits_emit _ s).bind (emits_modifyStack (·.release i) s))

theorem emits_registerOf (h : s.Coherent numLocals active)
    (hp : s.placement? i = some (.register r)) : Emits (registerOf i) s r s [] :=
  (emits_operand (h.exists_entry hp)).bind (Emits.pure r s)

/-- Taking a register away from an operand is spilling it. -/
theorem emits_steal (h : s.Coherent numLocals active)
    (hp : s.placement? i = some (.register r)) :
    Emits (steal i) s r (s.release i) [.store r .valueStack (slotOffset i)] :=
  (emits_registerOf h hp).bind ((emits_spill h hp).bind (Emits.pure r _))

/-- Spilling a live operand is all that happens. -/
theorem onlySpills_release (hi : i < s.height) (hp : s.placement? i = some (.register r)) :
    OnlySpills s (s.release i) := by
  intro j
  rw [OperandStack.placement?_release]
  by_cases hj : j = i
  · subst hj
    exact .inr ⟨hi, ⟨r, hp⟩, by rw [if_pos rfl, hp]; rfl⟩
  · exact .inl (if_neg hj)

/-- **Spilling any active operand.** No value changes: the operand is read from its slot afterwards.
The store stays in the sandbox because the operand is no local and lies below the ceiling. -/
theorem transforms_spill (h : s.Coherent numLocals active) (hi : i < active)
    (hp : s.placement? i = some (.register r)) :
    Transforms numLocals floor active s active (s.release i)
      [.store r .valueStack (slotOffset i)] id where
  coherent := h.release hi hp
  active_le := h.active_le_ceiling
  ceiling_le := by simp
  onlyEqual he := he.release i
  computes _ j hj := by
    -- the slot of the operand is above the locals and within the value stack
    rw [List.mem_singleton] at hj
    subst hj
    refine ⟨rfl, h.pooled i hi r hp, i, h.locals_le_of_not_inMemory hp id, ?_, rfl⟩
    have := h.active_le_ceiling
    simp only [OperandStack.ceiling_release]
    omega
  frozen j _ q hm hq := by
    rw [OperandStack.placement?_release]
    by_cases hj : j = i
    · -- what is spilled was not in memory
      subst hj
      rw [hp] at hq
      cases hq
      exact hm.elim
    · rw [if_neg hj, hq]
  flagsOnTop hf j hj c hq := by
    rw [OperandStack.placement?_release] at hq
    split at hq
    · next he =>
      subst he
      rw [hp] at hq
      cases hq
    · exact hf j hj c hq
  runs m values _ hrep hsize := by
    -- what was in the register is then read from the slot
    have hlt : i < m.slots.size := Nat.lt_of_lt_of_le hi hsize
    refine ⟨_, Machine.runCode_cons (Machine.step_store hrep.ready hlt (hrep.word? hi hp)),
      hrep.store h hi hp hlt, .store (h.locals_le_of_not_inMemory hp id) _⟩

/-! ### Choosing a register -/

/-- What is known about a register that was chosen for an operand: it is free, and at most spilling
was needed to make it so. Where operands are in memory they stay there, whatever the floor is. -/
structure Chosen (numLocals active : Nat) (s : OperandStack) (r : Register) (s' : OperandStack)
    (code : List (Instr Nat)) : Prop where
  transforms : ∀ floor, Transforms numLocals floor active s active s' code id
  onlySpills : OnlySpills s s'
  height_eq : s'.height = s.height
  ceiling_eq : s'.ceiling = s.ceiling
  pooled : r ∈ Register.pool
  free : r ∉ s'.used

/-- A register that is free already. -/
theorem chosen_free (h : s.Coherent numLocals active) (hr : s.freeRegister? = some r) :
    Chosen numLocals active s r s [] where
  transforms _ := Transforms.refl h
  onlySpills := OnlySpills.refl s
  height_eq := rfl
  ceiling_eq := rfl
  pooled := (OperandStack.freeRegister?_eq_some hr).1
  free := (OperandStack.freeRegister?_eq_some hr).2

/-- A register that is taken away from a live operand. That it is free afterwards is because no
other operand shares it. -/
theorem chosen_steal (h : s.Coherent numLocals active) (hi : i < s.height)
    (hp : s.placement? i = some (.register r)) :
    Chosen numLocals active s r (s.release i) [.store r .valueStack (slotOffset i)] := by
  have hia : i < active := Nat.lt_of_lt_of_le hi h.height_le
  exact
    { transforms := fun _ => transforms_spill h hia hp
      onlySpills := onlySpills_release hi hp
      height_eq := by simp
      ceiling_eq := by simp
      pooled := h.pooled i hia r hp
      free := fun hr => ((OperandStack.mem_used_release hp r).mp hr).2 rfl }

/-- **Allocation never fails**: a register is free, or a live operand can be spilled. -/
theorem exists_allocate (h : s.Coherent numLocals active) (hactive : active ≤ s.height + 2) :
    ∃ r s' code, Emits allocate s r s' code ∧ Chosen numLocals active s r s' code := by
  cases hr : s.freeRegister? with
  | some r =>
    refine ⟨r, s, [], emits_get fun e he => ?_, chosen_free h hr⟩
    simp only [he, hr]
    exact Emits.pure r s e he
  | none =>
    -- all registers are in use, so the bottommost operand that has one is spilled
    obtain ⟨i, hv⟩ := h.exists_victim hactive hr
    obtain ⟨hi, r, hp⟩ := h.placement?_of_victim? hv
    refine ⟨r, _, _, emits_get fun e he => ?_, chosen_steal h hi hp⟩
    simp only [he, hr, hv]
    exact emits_steal h hp e he

/-! ### Into a register -/

/-- Recording where an operand is now. -/
theorem emits_settle (i : Nat) (r : Register) (s : OperandStack) :
    Emits (settle i r) s () ((s.place i r).markUsed r) [] :=
  emits_modifyStack _ s

/-- The slot an operand in memory is read from lies below the ceiling. -/
theorem read_of_inMemory (h : s.Coherent numLocals active) (hi : i < active)
    (hp : s.placement? i = some p) (hm : p.InMemory) :
    (⟨p, i⟩ : Operand).sourceSlot < s.ceiling ∧
      ∀ m : Machine, m.read i p = m.slots[(⟨p, i⟩ : Operand).sourceSlot]? := by
  have hceil := h.active_le_ceiling
  have hheight := h.height_le
  have hlocals := h.locals_le
  cases p with
  | slot => exact ⟨by simp only [Operand.sourceSlot]; omega, fun _ => rfl⟩
  | ofLocal j =>
    have := h.alias_lt i hi j hp
    exact ⟨by simp only [Operand.sourceSlot]; omega, fun _ => rfl⟩
  | register r => exact hm.elim
  | flags c => exact hm.elim

/-- An operand other than the one that was moved into a register is where it was, so if one is in
the flags it is still the topmost. -/
theorem flagsOnTop_settle (h : s.Coherent numLocals active) (hi : i < active)
    (hr : r ∈ Register.pool) (hf : s.FlagsOnTop active) :
    ((s.place i r).markUsed r).FlagsOnTop active := by
  intro j hj c hq
  by_cases hji : j = i
  · subst hji
    rw [h.placement?_settle_self hi hr] at hq
    cases hq
  · rw [OperandStack.placement?_settle_of_ne hji] at hq
    exact hf j hj c hq

/-- **Loading** an operand from memory into a free register. It leaves memory, so it has to be above
the floor. -/
theorem transforms_load (h : s.Coherent numLocals active) (hi : i < active)
    (hl : numLocals ≤ i) (hfloor : floor ≤ i) (hp : s.placement? i = some p) (hm : p.InMemory)
    (hr : r ∈ Register.pool) (hfree : r ∉ s.used) :
    Transforms numLocals floor active s active ((s.place i r).markUsed r)
      [.load .valueStack (slotOffset (⟨p, i⟩ : Operand).sourceSlot) r] id := by
  obtain ⟨hsource, hread⟩ := read_of_inMemory h hi hp hm
  have hnot : ∀ r, s.placement? i ≠ some (.register r) := by
    intro r' he
    rw [hp] at he
    cases he
    exact hm
  refine
    { coherent := h.settle hi hl hnot hr hfree, active_le := h.active_le_ceiling,
      ceiling_le := Nat.le_refl _, onlyEqual := fun he => he.settle i r, computes := ?_,
      frozen := ?_, flagsOnTop := flagsOnTop_settle h hi hr, runs := ?_ }
  · intro _ j hj
    -- the load reads a slot of the value stack
    rw [List.mem_singleton] at hj
    subst hj
    exact ⟨rfl, hr, _, hsource, rfl⟩
  · -- position `i` is above the floor, so nothing below it moves
    intro j hj q _ hq
    rwa [OperandStack.placement?_settle_of_ne (by omega)]
  · intro m values _ hrep hsize
    have hw := hrep.reads i hi p hp
    rw [hread] at hw
    exact ⟨_, Machine.runCode_cons (Machine.step_load hrep.ready hw r), hrep.load h hi hr hfree,
      .of_slots_eq rfl⟩

/-- **Moving** an operand out of the flags into a free register. It may be below the floor, since
only what is in memory has to stay there. -/
theorem transforms_setIf (h : s.Coherent numLocals active) (hi : i < active)
    (hp : s.placement? i = some (.flags c)) (hr : r ∈ Register.pool) (hfree : r ∉ s.used) :
    Transforms numLocals floor active s active ((s.place i r).markUsed r)
      [.setIf c r, .andConst 1 r] id := by
  have hnot : ∀ r, s.placement? i ≠ some (.register r) := fun r' he => by
    rw [hp] at he
    cases he
  refine
    { coherent := h.settle hi (h.locals_le_of_not_inMemory hp id) hnot hr hfree,
      active_le := h.active_le_ceiling, ceiling_le := Nat.le_refl _,
      onlyEqual := fun he => he.settle i r, computes := ?_, frozen := ?_,
      flagsOnTop := flagsOnTop_settle h hi hr, runs := ?_ }
  · intro he j hj
    -- two instructions: the flag becomes a byte, of which the lowest bit is kept
    simp only [List.mem_cons, List.not_mem_nil, or_false] at hj
    rcases hj with rfl | rfl
    · exact ⟨he i hi c hp, hr⟩
    · exact hr
  · -- position `i` may be below the floor, but it was in the flags and not in memory
    intro j _ q hm hq
    have hji : j ≠ i := by
      rintro rfl
      rw [hp] at hq
      cases hq
      exact hm
    rwa [OperandStack.placement?_settle_of_ne hji]
  · intro m values hf hrep _
    obtain ⟨m', hrun, hrep', hslots⟩ := hrep.setIf h hf hi hp hr hfree
    exact ⟨m', hrun, hrep', .of_slots_eq hslots⟩

/-- What is known after the operand at position `i` was brought into a register, whether it was in
one already or had to be moved there. -/
structure Ensured (numLocals active i : Nat) (s s' : OperandStack) (code : List (Instr Nat)) :
    Prop where
  /-- Below the floor only an operand in the flags may be moved. -/
  transforms : ∀ floor, (∀ p, s.placement? i = some p → p.InMemory → floor ≤ i) →
    Transforms numLocals floor active s active s' code id
  height_eq : s'.height = s.height
  ceiling_eq : s'.ceiling = s.ceiling
  held : ∃ r, s'.placement? i = some (.register r)
  /-- All others are where they were, or were spilled. -/
  others : ∀ j, j ≠ i → s'.placement? j = s.placement? j ∨
    j < s.height ∧ (∃ r, s.placement? j = some (.register r)) ∧ s'.placement? j = some .slot

/-- Operands that were popped are not spilled, so they are where they were. -/
theorem Ensured.placement?_of_height_le {j : Nat} (h : Ensured numLocals active i s s' code)
    (hne : j ≠ i) (hj : s.height ≤ j) : s'.placement? j = s.placement? j := by
  rcases h.others j hne with he | ⟨hlt, -⟩
  · exact he
  · omega

/-- After a register was chosen, an operand may move into it. The code that chose the register comes
first. -/
theorem Chosen.ensured (hc : Chosen numLocals active s r s₁ code₁) (hi : i < active)
    (h : ∀ floor, (∀ p, s.placement? i = some p → p.InMemory → floor ≤ i) →
      Transforms numLocals floor active s₁ active ((s₁.place i r).markUsed r) code₂ id) :
    Ensured numLocals active i s ((s₁.place i r).markUsed r) (code₁ ++ code₂) where
  transforms floor hfloor := (hc.transforms floor).trans (h floor hfloor)
  height_eq := hc.height_eq
  ceiling_eq := hc.ceiling_eq
  held := ⟨r, (hc.transforms 0).coherent.placement?_settle_self hi hc.pooled⟩
  others j hj := by
    rw [OperandStack.placement?_settle_of_ne hj]
    exact hc.onlySpills j

/-- **Materialising**: an operand in the flags is brought into a register. This is written out twice
in the emitter, for a register that is free and for one that has to be taken away; `hsettle` and
`hensured` are what the two have in common. -/
theorem exists_materialise (h : s.Coherent numLocals active) (hactive : active ≤ s.height + 2)
    (hi : i < active) (hp : s.placement? i = some (.flags c)) :
    ∃ s' code, Emits (materialise i c) s () s' code ∧
      Ensured numLocals active i s s' code := by
  -- once a register is chosen, the rest is the same whether it was free or not
  have hsettle : ∀ r s₁, Emits (do emit (.setIf c r); emit (.andConst 1 r); settle i r)
      s₁ () ((s₁.place i r).markUsed r) [.setIf c r, .andConst 1 r] := fun r s₁ =>
    (emits_emit _ s₁).bind ((emits_emit _ s₁).bind (emits_settle i r s₁))
  have hensured : ∀ {r s₁ code₁}, Chosen numLocals active s r s₁ code₁ →
      Ensured numLocals active i s ((s₁.place i r).markUsed r)
        (code₁ ++ [.setIf c r, .andConst 1 r]) := fun hc =>
    hc.ensured hi fun floor _ => transforms_setIf (hc.transforms 0).coherent hi
      (hc.onlySpills.placement?_eq hp (by simp)) hc.pooled hc.free
  cases hr : s.freeRegister? with
  | some r =>
    refine ⟨_, _, emits_get fun e he => ?_, hensured (chosen_free h hr)⟩
    simp only [he, hr]
    exact hsettle r s e he
  | none =>
    -- no register is free, so some other operand gives up its own
    obtain ⟨v, hv⟩ := h.exists_victim hactive hr
    obtain ⟨hlt, r, hpv⟩ := h.placement?_of_victim? hv
    refine ⟨_, _, emits_get fun e he => ?_, hensured (chosen_steal h hlt hpv)⟩
    simp only [he, hr]
    exact (emits_require hv s).bind ((emits_steal h hpv).bind (hsettle r _)) e he

/-- **Ensuring**: an operand that is no parameter or local itself is brought into a register,
wherever it is. The cases are its placements, of which the two in memory are treated together. -/
theorem exists_ensure (h : s.Coherent numLocals active) (hactive : active ≤ s.height + 2)
    (hi : i < active) (hl : numLocals ≤ i) :
    ∃ s' code, Emits (ensure i) s () s' code ∧ Ensured numLocals active i s s' code := by
  obtain ⟨p, hp⟩ := h.exists_placement hi
  have hoperand := emits_operand (h.exists_entry hp)
  -- the two placements in memory are loaded in the same way
  have hload : p.InMemory → ∃ s' code,
      Emits (do let r ← allocate; loadSlot (⟨p, i⟩ : Operand).sourceSlot r; settle i r) s () s' code
        ∧ Ensured numLocals active i s s' code := by
    intro hm
    obtain ⟨r, s₁, code₁, hemits, hc⟩ := exists_allocate h hactive
    -- making room spills operands in registers, and this one is in memory
    have hp₁ : s₁.placement? i = some p := hc.onlySpills.placement?_eq hp fun r he => by
      subst he
      exact hm
    exact ⟨_, _, hemits.bind ((emits_emit _ s₁).bind (emits_settle i r s₁)),
      hc.ensured hi fun floor hfloor => transforms_load (hc.transforms 0).coherent hi hl
        (hfloor p hp hm) hp₁ hm hc.pooled hc.free⟩
  cases p with
  | register r =>
    exact ⟨s, [], hoperand.bind (Emits.pure () s),
      { transforms := fun _ _ => Transforms.refl h, height_eq := rfl, ceiling_eq := rfl,
        held := ⟨r, hp⟩, others := fun _ _ => .inl rfl }⟩
  | flags c =>
    obtain ⟨s', code, hemits, hensured⟩ := exists_materialise h hactive hi hp
    exact ⟨s', code, hoperand.bind hemits, hensured⟩
  | ofLocal j =>
    obtain ⟨s', code, hemits, hensured⟩ := hload trivial
    exact ⟨s', code, hoperand.bind hemits, hensured⟩
  | slot =>
    obtain ⟨s', code, hemits, hensured⟩ := hload trivial
    exact ⟨s', code, hoperand.bind hemits, hensured⟩

/-! ### Into memory -/

/-- What is known after some operands were brought into memory: those below `k`. This is the
invariant of the loop that flushes all of them, and it holds for any floor, as nothing is taken out
of memory. -/
structure Flushed (numLocals active k : Nat) (s s' : OperandStack) (code : List (Instr Nat)) :
    Prop where
  transforms : ∀ floor, Transforms numLocals floor active s active s' code id
  height_eq : s'.height = s.height
  ceiling_eq : s'.ceiling = s.ceiling
  settled : ∀ j, j < k → ∃ p, s'.placement? j = some p ∧ p.InMemory
  popped : ∀ j, s.height ≤ j → s'.placement? j = s.placement? j

/-- An operand that is in memory already is left alone. So a copy of a local stays one and is not
stored. -/
theorem Flushed.skip {k : Nat} (h : Flushed numLocals active k s s₁ code₁)
    (hp : s₁.placement? k = some p) (hm : p.InMemory) :
    Flushed numLocals active (k + 1) s s₁ (code₁ ++ []) := by
  rw [List.append_nil]
  refine
    { transforms := h.transforms, height_eq := h.height_eq, ceiling_eq := h.ceiling_eq,
      settled := fun j hj => ?_, popped := h.popped }
  by_cases hjk : j = k
  · exact ⟨p, hjk ▸ hp, hm⟩
  · exact h.settled j (by omega)

/-- An operand in a register is spilled, also if it has just been moved there. What happened in
between, from `s₁` to `s₂`, must not take anything out of memory. -/
theorem Flushed.spill {k : Nat} (h : Flushed numLocals active k s s₁ code₁) (hk : k < s.height)
    (htr : ∀ floor, Transforms numLocals floor active s₁ active s₂ code₂ id)
    (hheight : s₂.height = s₁.height) (hceil : s₂.ceiling = s₁.ceiling)
    (hr : s₂.placement? k = some (.register r))
    (hpopped : ∀ j, s₁.height ≤ j → s₂.placement? j = s₁.placement? j) :
    Flushed numLocals active (k + 1) s (s₂.release k)
      (code₁ ++ (code₂ ++ [.store r .valueStack (slotOffset k)])) := by
  have hheight₁ := h.height_eq
  have hka : k < active := by
    have := (h.transforms 0).coherent.height_le
    omega
  refine
    { transforms := fun floor => (h.transforms floor).trans
        ((htr floor).trans (transforms_spill (htr 0).coherent hka hr)),
      height_eq := by simp [hheight, hheight₁], ceiling_eq := by simp [hceil, h.ceiling_eq],
      settled := ?_, popped := ?_ }
  · intro j hj
    rw [OperandStack.placement?_release]
    by_cases hjk : j = k
    · subst hjk
      exact ⟨.slot, by rw [if_pos rfl, hr]; rfl, trivial⟩
    · -- those below are in memory, and stay there whatever the floor is
      obtain ⟨q, hq, hm⟩ := h.settled j (by omega)
      exact ⟨q, by rw [if_neg hjk, (htr (j + 1)).frozen j (by omega) q hm hq], hm⟩
  · intro j hj
    rw [OperandStack.placement?_release, if_neg (by omega), hpopped j (by omega), h.popped j hj]

/-- **Flushing the operand at position `k`** once those below it are in memory. This is one step of
the loop, with one case per placement. -/
theorem exists_flush {k : Nat} (h : Flushed numLocals active k s s₁ code₁)
    (hactive : active ≤ s.height + 2) (hk : k < s.height) :
    ∃ s' code, Emits (flush k) s₁ () s' code ∧
      Flushed numLocals active (k + 1) s s' (code₁ ++ code) := by
  have hcons := (h.transforms 0).coherent
  have hheight := h.height_eq
  have hka : k < active := by
    have := hcons.height_le
    omega
  obtain ⟨p, hp⟩ := hcons.exists_placement hka
  have hoperand := emits_operand (hcons.exists_entry hp)
  cases p with
  | register r =>
    -- a register is stored to the slot of the operand
    exact ⟨_, _, hoperand.bind (emits_spill hcons hp),
      h.spill hk (fun _ => Transforms.refl hcons) rfl rfl hp fun _ _ => rfl⟩
  | flags c =>
    -- out of the flags into a register, and from there into memory
    obtain ⟨s₂, code₂, hemits, hens⟩ := exists_materialise hcons (by omega) hka hp
    obtain ⟨r, hr⟩ := hens.held
    have htr : ∀ floor, Transforms numLocals floor active s₁ active s₂ code₂ id := fun floor =>
      hens.transforms floor fun q hq hm => by
        rw [hp] at hq
        cases hq
        exact hm.elim
    exact ⟨_, _, hoperand.bind (hemits.bind (emits_spill (htr 0).coherent hr)),
      h.spill hk htr hens.height_eq hens.ceiling_eq hr fun j hj =>
        hens.placement?_of_height_le (by omega) hj⟩
  | ofLocal j => exact ⟨s₁, [], hoperand.bind (Emits.pure () s₁), h.skip hp trivial⟩
  | slot => exact ⟨s₁, [], hoperand.bind (Emits.pure () s₁), h.skip hp trivial⟩

/-- The loops of the emitter go over positions from the bottom up, so the last one can be split off.
-/
theorem forM_range_succ (k : Nat) (action : Nat → Emit Unit) :
    (List.range (k + 1)).forM action = (do (List.range k).forM action; action k) := by
  rw [List.range_succ]
  change forM (List.range k ++ [k]) action = _
  rw [List.forM_append]
  simp only [List.forM_cons, List.forM_nil, bind_pure_unit]
  rfl

/-- Loops that do the same at every position are the same. -/
theorem forM_range_congr {k : Nat} {action action' : Nat → Emit Unit}
    (h : ∀ i, i < k → action i = action' i) :
    (List.range k).forM action = (List.range k).forM action' := by
  induction k with
  | zero => rfl
  | succ k ih =>
    rw [forM_range_succ, forM_range_succ, ih fun i hi => h i (by omega), h k (Nat.lt_succ_self k)]

/-- **Flushing**: all live operands are brought into memory. A popped operand is not touched, which
is what a branch on its value relies on. -/
theorem exists_flushAll (h : s.Coherent numLocals active) (hactive : active ≤ s.height + 2) :
    ∃ s' code, Emits flushAll s () s' code ∧ Flushed numLocals active s.height s s' code := by
  -- by induction on the number of operands that have been flushed, from the bottom up
  have hpart : ∀ k, k ≤ s.height → ∃ s' code,
      Emits ((List.range k).forM flush) s () s' code ∧ Flushed numLocals active k s s' code := by
    intro k
    induction k with
    | zero =>
      exact fun _ => ⟨s, [], Emits.pure () s,
        { transforms := fun _ => Transforms.refl h, height_eq := rfl, ceiling_eq := rfl,
          settled := fun _ hj => absurd hj (Nat.not_lt_zero _), popped := fun _ _ => rfl }⟩
    | succ k ih =>
      intro hk
      obtain ⟨s₁, code₁, hemits₁, hflushed₁⟩ := ih (by omega)
      obtain ⟨s₂, code₂, hemits₂, hflushed₂⟩ := exists_flush hflushed₁ hactive (by omega)
      rw [forM_range_succ]
      exact ⟨s₂, _, hemits₁.bind hemits₂, hflushed₂⟩
  obtain ⟨s', code, hemits, hflushed⟩ := hpart s.height (Nat.le_refl _)
  refine ⟨s', code, emits_get fun e he => ?_, hflushed⟩
  rw [he]
  exact hemits e he

/-- A stack without live operands in registers or flags is left alone, and no code is emitted for
it. -/
theorem emits_flushAll_of_settled (h : s.Coherent numLocals active)
    (hs : ∀ j, j < s.height → ∃ p, s.placement? j = some p ∧ p.InMemory) :
    Emits flushAll s () s [] := by
  -- flushing the first operands, one more at a time
  have hpart : ∀ k, k ≤ s.height → Emits ((List.range k).forM flush) s () s [] := by
    intro k
    induction k with
    | zero => exact fun _ => Emits.pure () s
    | succ k ih =>
      intro hk
      obtain ⟨p, hp, hm⟩ := hs k (by omega)
      have hoperand := emits_operand (h.exists_entry hp)
      rw [forM_range_succ]
      refine (ih (by omega)).bind ?_
      cases p with
      | slot => exact hoperand.bind (Emits.pure () s)
      | ofLocal j => exact hoperand.bind (Emits.pure () s)
      | register r => exact hm.elim
      | flags c => exact hm.elim
  refine emits_get fun e he => ?_
  rw [he]
  exact hpart s.height (Nat.le_refl _) e he

end Transforms

end Emitter

end WasmJit
