import WasmJit.Proofs.Machine.StraightLine
import WasmJit.Proofs.Operands.Consistency
import Mathlib.Logic.Function.Basic

/-!
# What a machine state says about the operands

An operand stack says where each operand is; a machine state then gives it a value
(`Machine.read`). `Machine.Represents m s active values` says that the first `active` operands of
`s`, read from `m`, have the values `values 0`, `values 1` and so on.

The flags are shared by everything that is left in them and are overwritten by almost every
arithmetic instruction, so a representation survives only while at most the topmost operand is in
the flags (`OperandStack.FlagsOnTop`).

Emitted code never writes below the slots of the operands that it moves; that it keeps the slots of
the parameters and locals is `Machine.KeepsLocals`.

The lemmas `Represents.store`, `Represents.load` and `Represents.setIf` follow the instructions by
which operands move: executing them and recording their effect on the operand stack leads from a
representation to a representation.
-/

namespace WasmJit

/-- The value of the operand at position `i` under a placement, as the machine has it. -/
def Machine.read (m : Machine) (i : Nat) : Placement → Option UInt64
  | .register r => m.word? r
  | .flags c => (m.holds? c).map fun holds => if holds then 1 else 0
  | .ofLocal j => m.slots[j]?
  | .slot => m.slots[i]?

/-- At most the topmost of the first `active` operands is in the flags. -/
def OperandStack.FlagsOnTop (active : Nat) (s : OperandStack) : Prop :=
  ∀ i, i < active → ∀ c, s.placement? i = some (.flags c) → i + 1 = active

instance (active : Nat) : DecidablePred (OperandStack.FlagsOnTop active) := fun s =>
  decidable_of_iff (∀ i < active, ∀ p ∈ s.placement? i, p.onFlags → i + 1 = active) <| by
    constructor
    · exact fun h i hi c hc => h i hi _ hc rfl
    · intro h i hi p hp hflags
      cases p with
      | flags c => exact h i hi c hp
      | register r => cases hflags
      | ofLocal j => cases hflags
      | slot => cases hflags

namespace Machine

/-- The slots of parameters and locals are as they were, and there are as many slots. -/
structure KeepsLocals (numLocals : Nat) (m m' : Machine) : Prop where
  size_eq : m'.slots.size = m.slots.size
  getElem?_eq : ∀ j, j < numLocals → m'.slots[j]? = m.slots[j]?

namespace KeepsLocals

variable {m m₁ m₂ : Machine} {numLocals : Nat}

/-- Code that stores nothing keeps everything. -/
theorem of_slots_eq (h : m₁.slots = m.slots) : m.KeepsLocals numLocals m₁ :=
  ⟨by rw [h], fun _ _ => by rw [h]⟩

theorem trans (h₁ : m.KeepsLocals numLocals m₁) (h₂ : m₁.KeepsLocals numLocals m₂) :
    m.KeepsLocals numLocals m₂ :=
  ⟨h₂.size_eq.trans h₁.size_eq, fun j hj => (h₂.getElem?_eq j hj).trans (h₁.getElem?_eq j hj)⟩

/-- Storing above the locals. -/
theorem store {i : Nat} (hi : numLocals ≤ i) (w : UInt64) :
    m.KeepsLocals numLocals { m with slots := m.slots.setIfInBounds i w } where
  size_eq := by simp
  getElem?_eq j hj := by
    rw [Array.getElem?_setIfInBounds_ne (show i ≠ j by omega)]

end KeepsLocals

/-- **Representation**: the machine can execute emitted code, and each active operand has its value
where the operand stack says. What the values are is not said here; they are those of the operands
of the program that is compiled. -/
structure Represents (m : Machine) (s : OperandStack) (active : Nat) (values : Nat → UInt64) :
    Prop where
  ready : m.Ready
  reads : ∀ i, i < active → ∀ p, s.placement? i = some p → m.read i p = some (values i)

instance (m : Machine) (s : OperandStack) (active : Nat) (values : Nat → UInt64) :
    Decidable (m.Represents s active values) :=
  decidable_of_iff
    (m.Ready ∧ ∀ i < active, ∀ p ∈ s.placement? i, m.read i p = some (values i))
    ⟨fun h => ⟨h.1, h.2⟩, fun h => ⟨h.ready, h.reads⟩⟩

namespace Represents

variable {m : Machine} {s s' : OperandStack} {numLocals active i j : Nat} {r r' : Register}
  {p : Placement} {c : Condition} {values : Nat → UInt64}

/-- Fewer operands are represented as well. -/
theorem shrink (h : m.Represents s (active + 1) values) : m.Represents s active values :=
  ⟨h.ready, fun i hi => h.reads i (by omega)⟩

/-- Only the placements of the active operands matter. -/
theorem congr (h : m.Represents s active values)
    (he : ∀ i, i < active → s'.placement? i = s.placement? i) : m.Represents s' active values :=
  ⟨h.ready, fun i hi p hp => h.reads i hi p (he i hi ▸ hp)⟩

/-- Only the values of the active operands matter. -/
theorem congr_values {values' : Nat → UInt64} (h : m.Represents s active values)
    (he : ∀ i, i < active → values' i = values i) : m.Represents s active values' :=
  ⟨h.ready, fun i hi p hp => by rw [he i hi]; exact h.reads i hi p hp⟩

/-- An operand in a register, in the form in which instructions ask for it. -/
theorem word? (h : m.Represents s active values) (hi : i < active)
    (hp : s.placement? i = some (.register r)) : m.word? r = some (values i) :=
  h.reads i hi _ hp

/-- The flags decide the value of an operand that was left in them. -/
theorem holds (h : m.Represents s active values) (hi : i < active)
    (hp : s.placement? i = some (.flags c)) :
    ∃ holds, m.holds? c = some holds ∧ values i = if holds then 1 else 0 := by
  obtain ⟨holds, hholds, hvalue⟩ := Option.map_eq_some_iff.mp (h.reads i hi _ hp)
  exact ⟨holds, hholds, hvalue.symm⟩

/-- Without operands in the flags, changing the flag changes nothing. This is what arithmetic
instructions need: they change the flag whether somebody looks at it or not. -/
theorem withZero (h : m.Represents s active values)
    (hflags : ∀ i, i < active → ∀ c, s.placement? i ≠ some (.flags c)) (b : Bool) :
    ({ m with zero := b } : Machine).Represents s active values := by
  refine ⟨h.ready.congr rfl, fun i hi p hp => ?_⟩
  have hread := h.reads i hi p hp
  -- the flag is read for operands in the flags only
  cases p with
  | flags c => exact absurd hp (hflags i hi c)
  | register r => exact hread
  | ofLocal j => exact hread
  | slot => exact hread

/-- **Giving a register that no operand holds a new value.** It does not matter whether the register
is marked as used: operands that are not active may still name it. -/
theorem set (h : m.Represents s active values) (hr : r ∈ Register.pool)
    (hfree : ∀ i, i < active → s.placement? i ≠ some (.register r)) (w : UInt64) :
    (m.set r (.word w)).Represents s active values := by
  refine ⟨h.ready.set hr w, fun i hi p hp => ?_⟩
  have hread := h.reads i hi p hp
  cases p with
  | register r' =>
    have hne : r' ≠ r := fun he => hfree i hi (he ▸ hp)
    exact (word?_set_of_ne hne m _).trans hread
  | flags c => exact hread
  | ofLocal j => exact hread
  | slot => exact hread

/-- **Storing an operand in its slot.** Afterwards it is read from there, so nothing is lost when
its register is taken away. Copies of locals are not affected, because their slots lie below. -/
theorem store (h : m.Represents s active values) (hc : s.Coherent numLocals active)
    (hi : i < active) (hp : s.placement? i = some (.register r)) (hsize : i < m.slots.size) :
    ({ m with slots := m.slots.setIfInBounds i (values i) } : Machine).Represents
      (s.release i) active values := by
  have hil : numLocals ≤ i := hc.locals_le_of_not_inMemory hp id
  refine ⟨h.ready.congr rfl, fun j hj q hq => ?_⟩
  rw [OperandStack.placement?_release] at hq
  by_cases hji : j = i
  · -- the operand itself is read back from where it was stored
    subst hji
    rw [if_pos rfl, hp] at hq
    cases hq
    simp [read, Placement.released, hsize]
  · rw [if_neg hji] at hq
    have hread := h.reads j hj q hq
    cases q with
    | register r' => exact hread
    | flags c => exact hread
    | ofLocal k =>
      -- the slots of locals lie below every slot that is stored to
      have hk := hc.alias_lt j hj k hq
      simpa [read, Array.getElem?_setIfInBounds_ne (show i ≠ k by omega)] using hread
    | slot => simpa [read, Array.getElem?_setIfInBounds_ne (Ne.symm hji)] using hread

/-- Recording that an operand has been copied into a register that nobody holds. The machine is not
changed by this, only what is known about it. -/
theorem settle (h : m.Represents s active values) (hc : s.Coherent numLocals active)
    (hi : i < active) (hr : r ∈ Register.pool) (hw : m.word? r = some (values i)) :
    m.Represents ((s.place i r).markUsed r) active values := by
  refine ⟨h.ready, fun j hj q hq => ?_⟩
  by_cases hji : j = i
  · subst hji
    rw [hc.placement?_settle_self hi hr] at hq
    cases hq
    exact hw
  · rw [OperandStack.placement?_settle_of_ne hji] at hq
    exact h.reads j hj q hq

/-- Loading an operand from memory into a register that nobody holds. -/
theorem load (h : m.Represents s active values) (hc : s.Coherent numLocals active)
    (hi : i < active) (hr : r ∈ Register.pool) (hfree : r ∉ s.used) :
    (m.set r (.word (values i))).Represents ((s.place i r).markUsed r) active values :=
  (h.set hr (fun _ hj => hc.notMem_used hfree hj) _).settle hc hi hr (by simp)

/-- Pushing a copy of a local: it is read from the slot of the local, so no code is needed. -/
theorem pushLocal (h : m.Represents s s.height values) (hsize : s.height ≤ s.entries.size)
    {index : Nat} {w : UInt64} (hw : m.slots[index]? = some w) :
    m.Represents (s.push (.ofLocal index)) (s.height + 1) (Function.update values s.height w) := by
  refine ⟨h.ready, fun i hi p hp => ?_⟩
  rw [OperandStack.placement?_push hsize] at hp
  split at hp
  · next he =>
    cases hp
    rw [he, Function.update_self]
    exact hw
  · next hne =>
    rw [Function.update_of_ne hne]
    exact h.reads i (by omega) p hp

/-- What is left of a register whose lowest byte was replaced by a condition, when only its lowest
bit is kept. The other seven bytes may have held anything. -/
theorem and_one (w : UInt64) (b : Bool) :
    ((w &&& 0xffffffffffffff00) ||| (if b then 1 else 0)) &&& constant 1 = if b then 1 else 0 := by
  have hone : constant 1 = 1 := by decide
  have hclear : (w &&& 0xffffffffffffff00) &&& 1 = 0 := by
    rw [UInt64.and_assoc, show (0xffffffffffffff00 : UInt64) &&& 1 = 0 by decide, UInt64.and_zero]
  have hdistrib : ∀ x y : UInt64, (x ||| y) &&& 1 = (x &&& 1) ||| (y &&& 1) := fun x y =>
    UInt64.toBitVec_inj.mp BitVec.and_or_distrib_right
  rw [hone, hdistrib, hclear]
  cases b <;> simp

/-- **Moving an operand out of the flags** into a register that nobody holds. The second instruction
clears the rest of the register and destroys the flag; since at most the topmost operand is in the
flags, no other operand is lost with it. -/
theorem setIf (h : m.Represents s active values) (hc : s.Coherent numLocals active)
    (hflags : s.FlagsOnTop active) (hi : i < active)
    (hp : s.placement? i = some (.flags c)) (hr : r ∈ Register.pool) (hfree : r ∉ s.used) :
    ∃ m', runCode [.setIf c r, .andConst 1 r] m = some m' ∧
      m'.Represents ((s.place i r).markUsed r) active values ∧ m'.slots = m.slots := by
  obtain ⟨w, hw⟩ := h.ready.words r hr
  obtain ⟨holds, hholds, hval⟩ := h.holds hi hp
  -- the low byte is the flag, the rest of the register is cleared
  have hstep := step_setIf hholds hw
  have hvalue := (and_one w holds).trans hval.symm
  generalize (w &&& 0xffffffffffffff00) ||| (if holds then 1 else 0) = w' at hstep hvalue
  have hand := step_andConst (word?_set_self m r w') 1
  rw [hvalue] at hand
  refine ⟨_, (runCode_cons hstep).trans (runCode_cons hand), ?_, rfl⟩
  -- both instructions write the same register, and nobody holds it
  have hone : ((m.set r (.word w')).set r (.word (values i))).Represents
      ((s.place i r).markUsed r) active values :=
    ((h.set hr (fun _ hj => hc.notMem_used hfree hj) _).set hr
      (fun _ hj => hc.notMem_used hfree hj) _).settle hc hi hr (by simp)
  refine hone.withZero (fun j hj c hq => ?_) _
  -- the only operand that may have been in the flags has just left them
  by_cases hji : j = i
  · subst hji
    rw [hc.placement?_settle_self hi hr] at hq
    cases hq
  · rw [OperandStack.placement?_settle_of_ne hji] at hq
    have h1 := hflags i hi _ hp
    have h2 := hflags j hj c hq
    omega

end Represents

end Machine

end WasmJit
