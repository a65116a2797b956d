import WasmJit.OperandStack
import Mathlib.Tactic.Common

/-!
# Consistency of the operand stack

While code is emitted, three records have to agree: where each operand is, which registers are in
use, and how high the stack is. `OperandStack.Coherent numLocals active s` says that they do for the
first `active` operands of `s`, and this is all that the steps of code generation rely on.
`OperandStack.Consistent numLocals active s` is what they do have to do with while a function is
compiled: parameters and locals are in their own slots, and nothing but equality is in the flags.

The number `active` is the height of the stack most of the time. In the middle of an instruction it
is larger: an operand that was popped is no longer live but may still hold the register it is about
to be read from, so it has to be counted until it is released. Everything above `active` is left
over from earlier pushes and says nothing.

* `Coherent.release`, `Coherent.settle` and `Coherent.push` carry coherence through the operations
  of the stack; `Consistent.truncate` and `Consistent.pushSlots` are about those of constructs.
* `coherent_iff` makes coherence a check that can be run.
* `Coherent.exists_victim` is the one place where the size of the pool matters: with all ten
  registers in use and at most two operands popped, some live operand holds a register that can be
  taken away.
-/

namespace WasmJit

/-- Whether the value is in a slot, its own one or that of a local. -/
def Placement.InMemory : Placement → Prop
  | .slot | .ofLocal _ => True
  | .register _ | .flags _ => False

instance : DecidablePred Placement.InMemory
  | .slot | .ofLocal _ => isTrue trivial
  | .register _ | .flags _ => isFalse id

/-- Whether the condition is one that the machine can test. -/
def Condition.Known (c : Condition) : Prop :=
  c = .equal ∨ c = .notEqual

instance : DecidablePred Condition.Known :=
  fun c => inferInstanceAs (Decidable (c = .equal ∨ c = .notEqual))

/-- Whether an operand may be there, given the registers in use. -/
def Placement.Fits (numLocals : Nat) (used : List Register) : Placement → Prop
  | .register r => r ∈ Register.pool ∧ r ∈ used
  | .flags c => c.Known
  | .ofLocal j => j < numLocals
  | .slot => True

instance (numLocals : Nat) (used : List Register) : DecidablePred (Placement.Fits numLocals used)
  | .register r => inferInstanceAs (Decidable (r ∈ Register.pool ∧ r ∈ used))
  | .flags c => inferInstanceAs (Decidable c.Known)
  | .ofLocal j => inferInstanceAs (Decidable (j < numLocals))
  | .slot => isTrue trivial

namespace OperandStack

/-! ### Placements by position -/

/-- The placement of the operand at a position, live or not. -/
def placement? (s : OperandStack) (i : Nat) : Option Placement :=
  (s.entries[i]?).map (·.placement)

variable {s : OperandStack} {i j : Nat} {r : Register} {p : Placement}

@[simp] theorem placement?_markUsed (s : OperandStack) (r : Register) (i : Nat) :
    (s.markUsed r).placement? i = s.placement? i := rfl

@[simp] theorem placement?_markUnused (s : OperandStack) (r : Register) (i : Nat) :
    (s.markUnused r).placement? i = s.placement? i := rfl

/-- Putting an operand into a register changes its own placement only. -/
theorem placement?_place (s : OperandStack) (i : Nat) (r : Register) (j : Nat) :
    (s.place i r).placement? j =
      if j = i then (s.placement? j).map fun _ => .inRegister r else s.placement? j := by
  unfold placement? place
  rw [Array.getElem?_modify]
  by_cases h : j = i
  · subst h
    cases s.entries[j]? <;> simp
  · simp [h, Ne.symm h]

/-- The two steps by which an operand moves into a register, for the others. -/
theorem placement?_settle_of_ne (h : j ≠ i) :
    ((s.place i r).markUsed r).placement? j = s.placement? j := by
  rw [placement?_markUsed, placement?_place, if_neg h]

/-- What a release leaves behind: the operand itself gives up its register, all others stay. -/
theorem placement?_release (s : OperandStack) (i j : Nat) :
    (s.release i).placement? j =
      if j = i then (s.placement? j).map Placement.released else s.placement? j := by
  unfold release
  cases h : s.entries[i]? with
  | none =>
    -- there is nothing at position `i`, before or after
    by_cases hj : j = i
    · subst hj
      simp [placement?, h]
    · simp [hj]
  | some o =>
    unfold placement? markUnused
    simp only [Array.getElem?_modify]
    by_cases hj : j = i
    · subst hj
      cases s.entries[j]? <;> simp
    · simp [hj, Ne.symm hj]

/-- A push writes one position. Entries above the height are left over from earlier pushes and are
written over. -/
theorem placement?_push (h : s.height ≤ s.entries.size) (p : Placement) (j : Nat) :
    (s.push p).placement? j = if j = s.height then some p else s.placement? j := by
  unfold push placement?
  -- the entry is written over one left from an earlier push, or appended
  split
  · rw [Array.getElem?_setIfInBounds]
    by_cases hj : j = s.height
    · subst hj
      simp [*]
    · simp [hj, Ne.symm hj]
  · have heq : s.height = s.entries.size := by omega
    rw [Array.getElem?_push, heq]
    by_cases hj : j = s.entries.size <;> simp [hj]

@[simp] theorem height_release (s : OperandStack) (i : Nat) : (s.release i).height = s.height := by
  unfold release
  split <;> rfl

@[simp] theorem ceiling_release (s : OperandStack) (i : Nat) :
    (s.release i).ceiling = s.ceiling := by
  unfold release
  split <;> rfl

@[simp] theorem size_entries_release (s : OperandStack) (i : Nat) :
    (s.release i).entries.size = s.entries.size := by
  unfold release
  split <;> simp [markUnused]

/-- Which registers are in use after a release. -/
theorem mem_used_release (h : s.placement? i = some (.register r)) (r' : Register) :
    r' ∈ (s.release i).used ↔ r' ∈ s.used ∧ r' ≠ r := by
  obtain ⟨o, ho, hp⟩ := Option.map_eq_some_iff.mp h
  unfold release
  simp [ho, hp, markUnused, Placement.heldIn]

theorem mem_used_markUsed (s : OperandStack) (r r' : Register) :
    r' ∈ (s.markUsed r).used ↔ r' = r ∨ r' ∈ s.used := by
  simp [markUsed]

/-- A register of the pool is a register, and not the one that stands for none. -/
theorem inRegister_of_mem_pool (hr : r ∈ Register.pool) :
    Placement.inRegister r = .register r := by
  have : r ≠ .nil := by
    rintro rfl
    revert hr
    decide
  simp [Placement.inRegister, this]

/-! ### The invariant -/

/-- **Coherence** of the first `active` operands, of which the first `numLocals` stand for the
parameters and locals of the function. -/
structure Coherent (numLocals active : Nat) (s : OperandStack) : Prop where
  /-- Every operand, live or not, has the slot with its own number. -/
  indexed : ∀ (i : Nat) (o : Operand), s.entries[i]? = some o → o.slot = i
  active_le_size : active ≤ s.entries.size
  height_le : s.height ≤ active
  locals_le : numLocals ≤ s.height
  active_le_ceiling : active ≤ s.ceiling
  /-- Parameters and locals are neither in registers nor in the flags. -/
  locals_inMemory : ∀ i, i < numLocals → ∃ p, s.placement? i = some p ∧ p.InMemory
  alias_lt : ∀ i, i < active → ∀ j, s.placement? i = some (.ofLocal j) → j < numLocals
  /-- A register is in use exactly when an active operand holds it. -/
  mem_used : ∀ r, r ∈ s.used ↔ ∃ i, i < active ∧ s.placement? i = some (.register r)
  pooled : ∀ i, i < active → ∀ r, s.placement? i = some (.register r) → r ∈ Register.pool
  /-- No register is handed out twice. -/
  unshared : ∀ i j, i < active → j < active → ∀ r,
    s.placement? i = some (.register r) → s.placement? j = some (.register r) → i = j
  known : ∀ i, i < active → ∀ c, s.placement? i = some (.flags c) → c.Known

/-- Whichever of the first `active` operands are in the flags, equality is what was tested. -/
def OnlyEqual (active : Nat) (s : OperandStack) : Prop :=
  ∀ i, i < active → ∀ c, s.placement? i = some (.flags c) → c = .equal

/-- **Consistency** of the first `active` operands: what holds while a function is compiled. -/
structure Consistent (numLocals active : Nat) (s : OperandStack) : Prop
    extends Coherent numLocals active s where
  /-- Parameters and locals stay in their slots. -/
  of_local : ∀ i, i < numLocals → s.placement? i = some .slot
  /-- Only equality is ever left in the flags. -/
  tested : s.OnlyEqual active

/-- Releasing an operand puts nothing into the flags. -/
theorem OnlyEqual.release {active : Nat} (h : s.OnlyEqual active) (i : Nat) :
    (s.release i).OnlyEqual active := by
  intro j hj c hc
  rw [placement?_release] at hc
  split at hc
  · -- nothing is in the flags after it was released
    obtain ⟨q, -, hq⟩ := Option.map_eq_some_iff.mp hc
    cases q <;> cases hq
  · exact h j hj c hc

theorem OnlyEqual.settle {active : Nat} (h : s.OnlyEqual active) (i : Nat) (r : Register) :
    ((s.place i r).markUsed r).OnlyEqual active := by
  intro j hj c hc
  rw [placement?_markUsed, placement?_place] at hc
  split at hc
  · -- the operand that moves is in a register now
    obtain ⟨_, -, hq⟩ := Option.map_eq_some_iff.mp hc
    unfold Placement.inRegister at hq
    split at hq <;> cases hq
  · exact h j hj c hc

namespace Coherent

variable {numLocals active : Nat}

/-- Every active operand is somewhere. -/
theorem exists_placement (h : s.Coherent numLocals active) (hi : i < active) :
    ∃ p, s.placement? i = some p := by
  have hlt : i < s.entries.size := Nat.lt_of_lt_of_le hi h.active_le_size
  exact ⟨s.entries[i].placement, by simp [placement?, hlt]⟩

/-- An operand is determined by its position and its placement. -/
theorem exists_entry (h : s.Coherent numLocals active) (hp : s.placement? i = some p) :
    s.entries[i]? = some ⟨p, i⟩ := by
  obtain ⟨o, ho, rfl⟩ := Option.map_eq_some_iff.mp hp
  rw [ho, ← h.indexed i o ho]

/-- Whatever is in a register or in the flags is no parameter and no local. So locals never have to
be excluded by hand where something is moved or spilled. -/
theorem locals_le_of_not_inMemory (h : s.Coherent numLocals active)
    (hp : s.placement? i = some p) (hm : ¬ p.InMemory) : numLocals ≤ i := by
  by_contra hlt
  obtain ⟨q, hq, hq'⟩ := h.locals_inMemory i (by omega)
  rw [hp] at hq
  cases hq
  exact hm hq'

/-- Where the operand itself is after it moved. -/
theorem placement?_settle_self (h : s.Coherent numLocals active) (hi : i < active)
    (hr : r ∈ Register.pool) : ((s.place i r).markUsed r).placement? i = some (.register r) := by
  obtain ⟨p, hp⟩ := h.exists_placement hi
  rw [placement?_markUsed, placement?_place, if_pos rfl, hp, Option.map_some,
    inRegister_of_mem_pool hr]

/-- A register that is not in use is held by no active operand. -/
theorem notMem_used (h : s.Coherent numLocals active) (hr : r ∉ s.used) (hi : i < active) :
    s.placement? i ≠ some (.register r) :=
  fun hp => hr ((h.mem_used r).mpr ⟨i, hi, hp⟩)

/-- **Lowering the height**: the popped operands remain active, with whatever they hold. -/
theorem lower (h : s.Coherent numLocals active) {k : Nat} (hk : k ≤ s.height)
    (hl : numLocals ≤ k) : ({ s with height := k } : OperandStack).Coherent numLocals active where
  indexed := h.indexed
  active_le_size := h.active_le_size
  height_le := Nat.le_trans hk h.height_le
  locals_le := hl
  active_le_ceiling := h.active_le_ceiling
  locals_inMemory := h.locals_inMemory
  alias_lt := h.alias_lt
  mem_used := h.mem_used
  pooled := h.pooled
  unshared := h.unshared
  known := h.known

/-- **Giving up the last active operand**, once it holds no register and is not live. If it held
one, that register would be in use with nobody holding it. -/
theorem shrink (h : s.Coherent numLocals (active + 1)) (hh : s.height ≤ active)
    (hp : ∀ r, s.placement? active ≠ some (.register r)) : s.Coherent numLocals active where
  indexed := h.indexed
  active_le_size := Nat.le_of_succ_le h.active_le_size
  height_le := hh
  locals_le := h.locals_le
  active_le_ceiling := Nat.le_of_succ_le h.active_le_ceiling
  locals_inMemory := h.locals_inMemory
  alias_lt i hi := h.alias_lt i (by omega)
  mem_used r := by
    rw [h.mem_used]
    constructor
    · -- whoever holds the register is not the operand that is given up
      rintro ⟨i, hi, hr⟩
      have : i ≠ active := fun he => hp r (he ▸ hr)
      exact ⟨i, by omega, hr⟩
    · rintro ⟨i, hi, hr⟩
      exact ⟨i, by omega, hr⟩
  pooled i hi := h.pooled i (by omega)
  unshared i j hi hj := h.unshared i j (by omega) (by omega)
  known i hi := h.known i (by omega)

/-- **Releasing** an operand that holds a register frees exactly this register. The other fields say
something about placements that are still there, which is `hback`; only for the registers in use is
there an argument. -/
theorem release (h : s.Coherent numLocals active) (hi : i < active)
    (hp : s.placement? i = some (.register r)) : (s.release i).Coherent numLocals active := by
  have hil : numLocals ≤ i := h.locals_le_of_not_inMemory hp id
  -- what remains of a placement other than `slot` after the release was there before
  have hback : ∀ j q, (s.release i).placement? j = some q → q ≠ .slot →
      j ≠ i ∧ s.placement? j = some q := by
    intro j q hq hne
    rw [placement?_release] at hq
    by_cases hj : j = i
    · subst hj
      simp only [if_true, hp, Option.map_some, Option.some.injEq] at hq
      exact absurd hq.symm hne
    · exact ⟨hj, by simpa [hj] using hq⟩
  refine
    { indexed := ?_, active_le_size := by simpa using h.active_le_size,
      height_le := by simpa using h.height_le, locals_le := by simpa using h.locals_le,
      active_le_ceiling := by simpa using h.active_le_ceiling, locals_inMemory := ?_,
      alias_lt := ?_, mem_used := ?_, pooled := ?_, unshared := ?_, known := ?_ }
  · -- a release changes placements, never slots
    intro j o ho
    unfold OperandStack.release at ho
    split at ho
    · exact h.indexed j o ho
    · simp only [markUnused, Array.getElem?_modify] at ho
      split at ho
      · obtain ⟨o', ho', rfl⟩ := Option.map_eq_some_iff.mp ho
        exact h.indexed j o' ho'
      · exact h.indexed j o ho
  · intro j hj
    rw [placement?_release, if_neg (by omega)]
    exact h.locals_inMemory j hj
  · intro j hj k hk
    exact h.alias_lt j hj k (hback j _ hk (by simp)).2
  · -- register `r` is given up, and by `unshared` nobody else holds it
    intro r'
    rw [mem_used_release hp, h.mem_used]
    constructor
    · rintro ⟨⟨j, hj, hr⟩, hne⟩
      have hji : j ≠ i := by
        rintro rfl
        rw [hp] at hr
        simp at hr
        exact hne hr.symm
      exact ⟨j, hj, by rw [placement?_release, if_neg hji]; exact hr⟩
    · rintro ⟨j, hj, hr⟩
      obtain ⟨hji, hr⟩ := hback j _ hr (by simp)
      refine ⟨⟨j, hj, hr⟩, ?_⟩
      rintro rfl
      exact hji (h.unshared j i hj hi _ hr hp)
  · intro j hj r' hr
    exact h.pooled j hj r' (hback j _ hr (by simp)).2
  · intro j k hj hk r' hr hr'
    exact h.unshared j k hj hk r' (hback j _ hr (by simp)).2 (hback k _ hr' (by simp)).2
  · intro j hj c hc
    exact h.known j hj c (hback j _ hc (by simp)).2

/-- **Moving** an operand into a register that nobody holds, which is then in use. It must not hold
one already, or that register would stay in use with nobody holding it. -/
theorem settle (h : s.Coherent numLocals active) (hi : i < active) (hil : numLocals ≤ i)
    (hp : ∀ r, s.placement? i ≠ some (.register r)) (hr : r ∈ Register.pool) (hfree : r ∉ s.used) :
    ((s.place i r).markUsed r).Coherent numLocals active := by
  have hself := placement?_settle_self h hi hr
  have hother : ∀ j, j ≠ i → ((s.place i r).markUsed r).placement? j = s.placement? j :=
    fun j hj => placement?_settle_of_ne hj
  -- whatever is not in register `r` at position `i` was there before
  have hback : ∀ j q, ((s.place i r).markUsed r).placement? j = some q →
      j = i ∧ q = .register r ∨ j ≠ i ∧ s.placement? j = some q := by
    intro j q hq
    by_cases hj : j = i
    · subst hj
      rw [hself] at hq
      exact .inl ⟨rfl, (Option.some.inj hq).symm⟩
    · exact .inr ⟨hj, hother j hj ▸ hq⟩
  refine
    { indexed := ?_, active_le_size := by simpa [place, markUsed] using h.active_le_size,
      height_le := h.height_le, locals_le := h.locals_le,
      active_le_ceiling := h.active_le_ceiling, locals_inMemory := ?_,
      alias_lt := ?_, mem_used := ?_, pooled := ?_, unshared := ?_, known := ?_ }
  · intro j o ho
    -- the slot of an operand does not change with its placement
    simp only [markUsed, place, Array.getElem?_modify] at ho
    split at ho
    · obtain ⟨o', ho', rfl⟩ := Option.map_eq_some_iff.mp ho
      exact h.indexed j o' ho'
    · exact h.indexed j o ho
  · intro j hj
    rw [hother j (by omega)]
    exact h.locals_inMemory j hj
  · intro j hj k hk
    rcases hback j _ hk with ⟨-, hq⟩ | ⟨-, hq⟩
    · cases hq
    · exact h.alias_lt j hj k hq
  · -- register `r` is now held at position `i`, which held none before
    intro r'
    rw [mem_used_markUsed]
    change r' = r ∨ r' ∈ s.used ↔ _
    rw [h.mem_used]
    constructor
    · rintro (rfl | ⟨j, hj, hq⟩)
      · exact ⟨i, hi, hself⟩
      · have hji : j ≠ i := fun he => hp r' (he ▸ hq)
        exact ⟨j, hj, hother j hji ▸ hq⟩
    · rintro ⟨j, hj, hq⟩
      rcases hback j _ hq with ⟨-, hq⟩ | ⟨-, hq⟩
      · exact .inl (by cases hq; rfl)
      · exact .inr ⟨j, hj, hq⟩
  · intro j hj r' hq
    rcases hback j _ hq with ⟨-, hq⟩ | ⟨-, hq⟩
    · cases hq
      exact hr
    · exact h.pooled j hj r' hq
  · -- the only new holder of a register is position `i`, and its register was free
    intro j k hj hk r' hq hq'
    rcases hback j _ hq with ⟨hji, he⟩ | ⟨-, hold⟩ <;>
      rcases hback k _ hq' with ⟨hki, he'⟩ | ⟨-, hold'⟩
    · rw [hji, hki]
    · cases he
      exact absurd hold' (h.notMem_used hfree hk)
    · cases he'
      exact absurd hold (h.notMem_used hfree hj)
    · exact h.unshared j k hj hk r' hold hold'
  · intro j hj c hq
    rcases hback j _ hq with ⟨-, hq⟩ | ⟨-, hq⟩
    · cases hq
    · exact h.known j hj c hq

/-- **Pushing** an operand that holds no register. New operands never start in a register: they are
in their slot, in the flags or copies of locals, and are moved later. -/
theorem push (h : s.Coherent numLocals s.height) (hreg : ∀ r, p ≠ .register r)
    (hlocal : ∀ j, p = .ofLocal j → j < numLocals) (hflags : ∀ c, p = .flags c → c.Known) :
    (s.push p).Coherent numLocals (s.height + 1) := by
  have hat := placement?_push h.active_le_size p
  -- an operand is the new one or one of the old ones
  have hback : ∀ j q, j < s.height + 1 → (s.push p).placement? j = some q →
      q = p ∨ j < s.height ∧ s.placement? j = some q := by
    intro j q hj hq
    rw [hat] at hq
    split at hq
    · exact .inl (Option.some.inj hq).symm
    · exact .inr ⟨by omega, hq⟩
  have hkeep : ∀ j, j < s.height → (s.push p).placement? j = s.placement? j := by
    intro j hj
    rw [hat, if_neg (by omega)]
  refine
    { indexed := ?_, active_le_size := ?_, height_le := Nat.le_refl _,
      locals_le := Nat.le_succ_of_le h.locals_le, active_le_ceiling := Nat.le_max_right _ _,
      locals_inMemory := ?_, alias_lt := ?_, mem_used := ?_, pooled := ?_, unshared := ?_,
      known := ?_ }
  · -- the slot of the new entry is its position, whether it is written over or appended
    intro j o ho
    unfold OperandStack.push at ho
    simp only at ho
    split at ho
    · rw [Array.getElem?_setIfInBounds] at ho
      split at ho
      · simp only [Option.some.injEq] at ho
        subst ho
        assumption
      · exact h.indexed j o ho
    · -- there were no leftovers, so the height is the number of entries
      rw [Array.getElem?_push] at ho
      split at ho
      · cases ho
        have := h.active_le_size
        simp only
        omega
      · exact h.indexed j o ho
  · -- the new entry is counted in both cases
    have := h.active_le_size
    unfold OperandStack.push
    simp only
    split
    · rw [Array.size_setIfInBounds]
      omega
    · rw [Array.size_push]
      omega
  · intro j hj
    have := h.locals_le
    rw [hkeep j (by omega)]
    exact h.locals_inMemory j hj
  · intro j hj k hk
    rcases hback j _ hj hk with hq | ⟨hj, hq⟩
    · exact hlocal k hq.symm
    · exact h.alias_lt j hj k hq
  · -- no register changes hands
    intro r
    change r ∈ s.used ↔ _
    rw [h.mem_used]
    constructor
    · rintro ⟨j, hj, hq⟩
      exact ⟨j, by omega, hkeep j hj ▸ hq⟩
    · rintro ⟨j, hj, hq⟩
      rcases hback j _ hj hq with hq | hq
      · exact absurd hq.symm (hreg r)
      · exact ⟨j, hq⟩
  · intro j hj r hq
    rcases hback j _ hj hq with hq | ⟨hj, hq⟩
    · exact absurd hq.symm (hreg r)
    · exact h.pooled j hj r hq
  · intro j k hj hk r hq hq'
    rcases hback j _ hj hq with hq | ⟨hj, hq⟩
    · exact absurd hq.symm (hreg r)
    · rcases hback k _ hk hq' with hq' | ⟨hk, hq'⟩
      · exact absurd hq'.symm (hreg r)
      · exact h.unshared j k hj hk r hq hq'
  · intro j hj c hq
    rcases hback j _ hj hq with hq | ⟨hj, hq⟩
    · exact hflags c hq.symm
    · exact h.known j hj c hq

/-! ### Height -/

/-- **Dropping** the topmost operand frees the register it may hold, and nothing else. It is popped
first and released then, so in between it is active without being live. -/
theorem drop (h : s.Coherent numLocals s.height) (hlt : numLocals < s.height) :
    s.drop.Coherent numLocals (s.height - 1) ∧ s.drop.height = s.height - 1 ∧
      s.drop.ceiling = s.ceiling ∧
      ∀ i, i < s.height - 1 → s.drop.placement? i = s.placement? i := by
  obtain ⟨k, hk⟩ : ∃ k, s.height = k + 1 := ⟨s.height - 1, by omega⟩
  obtain ⟨p, hp⟩ := h.exists_placement (i := k) (by omega)
  -- after the pop the operand is still active, and may hold a register
  have hlow : ({ s with height := k } : OperandStack).Coherent numLocals (k + 1) :=
    hk ▸ h.lower (by omega) (by omega)
  have hdrop : s.drop =
      if p.onRegister then ({ s with height := k } : OperandStack).release k
      else { s with height := k } := by
    simp only [OperandStack.drop, pop?, hk, h.exists_entry hp]
  rw [hdrop, hk, Nat.add_sub_cancel]
  -- only a register has to be given up before the operand stops being active
  by_cases hreg : ∃ r, p = .register r
  · obtain ⟨r, rfl⟩ := hreg
    have hp' : ({ s with height := k } : OperandStack).placement? k = some (.register r) := hp
    simp only [Placement.onRegister, if_true]
    refine ⟨(hlow.release (by omega) hp').shrink (by simp) ?_, by simp, by simp, fun i hi => ?_⟩
    · intro r'
      rw [placement?_release, if_pos rfl, hp']
      simp [Placement.released]
    · rw [placement?_release, if_neg (by omega)]
      rfl
  · have hoff : p.onRegister = false := by
      cases p with
      | register r => exact absurd ⟨r, rfl⟩ hreg
      | flags c => rfl
      | ofLocal j => rfl
      | slot => rfl
    simp only [hoff, Bool.false_eq_true, if_false]
    refine ⟨hlow.shrink (Nat.le_refl k) (fun r he => ?_), trivial, trivial, fun _ _ => rfl⟩
    exact hreg ⟨r, Option.some.inj (hp.symm.trans he)⟩

/-- Truncating is dropping one operand after the other, by induction on how many are dropped. -/
theorem repeat_drop (h : s.Coherent numLocals s.height) :
    ∀ d, d ≤ s.height - numLocals →
      (Nat.repeat OperandStack.drop d s).Coherent numLocals (s.height - d) ∧
        (Nat.repeat OperandStack.drop d s).height = s.height - d ∧
        (Nat.repeat OperandStack.drop d s).ceiling = s.ceiling ∧
        ∀ i, i < s.height - d →
          (Nat.repeat OperandStack.drop d s).placement? i = s.placement? i := by
  intro d
  induction d with
  | zero => exact fun _ => ⟨h, rfl, rfl, fun _ _ => rfl⟩
  | succ d ih =>
    intro hd
    have := h.locals_le
    obtain ⟨hc, hh, hceil, hkeep⟩ := ih (by omega)
    -- one more: the height is now that after `d` drops
    obtain ⟨hc', hh', hceil', hkeep'⟩ := (hh ▸ hc).drop (by omega)
    rw [hh, Nat.sub_sub] at hc' hh' hkeep'
    refine ⟨hc', hh', hceil'.trans hceil, fun i hi => ?_⟩
    exact (hkeep' i (by omega)).trans (hkeep i (by omega))

/-- **Truncating** to a height above the locals keeps everything below it as it is. -/
theorem truncate (h : s.Coherent numLocals s.height) {k : Nat} (hl : numLocals ≤ k)
    (hk : k ≤ s.height) :
    (s.truncate k).Coherent numLocals k ∧ (s.truncate k).height = k ∧
      (s.truncate k).ceiling = s.ceiling ∧
      ∀ i, i < k → (s.truncate k).placement? i = s.placement? i := by
  have := h.repeat_drop (s.height - k) (by omega)
  rwa [show s.height - (s.height - k) = k by omega] at this

/-- **Pushing operands that are in their slots**, by induction on their number. The statement is for
all stacks, since the first push changes the stack that the others go on. -/
theorem pushSlots (count : Nat) : ∀ {s : OperandStack}, s.Coherent numLocals s.height →
    (s.pushSlots count).Coherent numLocals (s.height + count) ∧
      (s.pushSlots count).height = s.height + count ∧
      (s.pushSlots count).ceiling = max s.ceiling (s.height + count) ∧
      (∀ i, i < s.height → (s.pushSlots count).placement? i = s.placement? i) ∧
      ∀ i, s.height ≤ i → i < s.height + count → (s.pushSlots count).placement? i = some .slot := by
  induction count with
  | zero =>
    intro s h
    have := h.active_le_ceiling
    exact ⟨h, rfl, by simp only [OperandStack.pushSlots]; omega, fun _ _ => rfl, by omega⟩
  | succ count ih =>
    intro s h
    have hat := placement?_push h.active_le_size .slot
    have hpush : (s.push .slot).Coherent numLocals (s.push .slot).height :=
      h.push (by simp) (by simp) (by simp)
    have hheight : (s.push .slot).height = s.height + 1 := rfl
    -- the others are pushed on top of the first one
    obtain ⟨hc, hh, hceil, hkeep, hnew⟩ := ih hpush
    have hsum : s.height + 1 + count = s.height + (count + 1) := by omega
    rw [hheight, hsum] at hc hh hceil hnew
    rw [hheight] at hkeep
    refine ⟨hc, hh, ?_, ?_, ?_⟩
    · have hmax : (s.push .slot).ceiling = max s.ceiling (s.height + 1) := rfl
      simp only [OperandStack.pushSlots]
      omega
    · intro i hi
      simp only [OperandStack.pushSlots]
      rw [hkeep i (by omega), hat, if_neg (by omega)]
    · intro i hi hi'
      simp only [OperandStack.pushSlots]
      -- the first of the new slots, or one of those on top of it
      by_cases he : i = s.height
      · rw [hkeep i (by omega), hat, if_pos he]
      · exact hnew i (by omega) (by omega)

end Coherent

namespace Consistent

variable {numLocals active : Nat}

/-- **What coherence does not say is kept where operands stay in place or come into their slots.**
This is all that happens to operands when a construct is entered or left. -/
theorem of_coherent (h : s.Consistent numLocals active) {s' : OperandStack} {active' : Nat}
    (hc : s'.Coherent numLocals active')
    (hkept : ∀ j, j < active' → j < active ∧ s'.placement? j = s.placement? j ∨
      s'.placement? j = some .slot) : s'.Consistent numLocals active' where
  toCoherent := hc
  of_local j hj := by
    rcases hkept j (Nat.lt_of_lt_of_le hj (Nat.le_trans hc.locals_le hc.height_le)) with
      ⟨-, he⟩ | he
    · rw [he, h.of_local j hj]
    · exact he
  tested j hj c hp := by
    rcases hkept j hj with ⟨hlt, he⟩ | he
    · exact h.tested j hlt c (he ▸ hp)
    · rw [he] at hp
      cases hp

/-- Dropping everything above `k`. -/
theorem truncate (h : s.Consistent numLocals s.height) {k : Nat} (hl : numLocals ≤ k)
    (hk : k ≤ s.height) :
    (s.truncate k).Consistent numLocals k ∧ (s.truncate k).height = k ∧
      (s.truncate k).ceiling = s.ceiling ∧
      ∀ i, i < k → (s.truncate k).placement? i = s.placement? i := by
  obtain ⟨hc, hheight, hceil, hkeep⟩ := h.toCoherent.truncate hl hk
  exact ⟨h.of_coherent hc fun j hj => .inl ⟨by omega, hkeep j hj⟩, hheight, hceil, hkeep⟩

/-- Pushing operands that are in their slots. -/
theorem pushSlots (count : Nat) (h : s.Consistent numLocals s.height) :
    (s.pushSlots count).Consistent numLocals (s.height + count) ∧
      (s.pushSlots count).height = s.height + count ∧
      (s.pushSlots count).ceiling = max s.ceiling (s.height + count) ∧
      (∀ i, i < s.height → (s.pushSlots count).placement? i = s.placement? i) ∧
      ∀ i, s.height ≤ i → i < s.height + count → (s.pushSlots count).placement? i = some .slot := by
  obtain ⟨hc, hheight, hceil, hkeep, hnew⟩ := Coherent.pushSlots count h.toCoherent
  refine ⟨h.of_coherent hc fun j hj => ?_, hheight, hceil, hkeep, hnew⟩
  by_cases hlt : j < s.height
  · exact .inl ⟨hlt, hkeep j hlt⟩
  · exact .inr (hnew j (by omega) hj)

/-- The operands in front of the first instruction: only parameters and locals, in their slots. -/
theorem start (numLocals : Nat) :
    (OperandStack.empty.pushSlots numLocals).Consistent numLocals numLocals ∧
      (OperandStack.empty.pushSlots numLocals).height = numLocals ∧
      (OperandStack.empty.pushSlots numLocals).ceiling = numLocals ∧
      ∀ i, i < numLocals → (OperandStack.empty.pushSlots numLocals).placement? i = some .slot := by
  -- the slots are pushed as operands first, and only then count as locals
  have hempty : OperandStack.empty.Coherent 0 OperandStack.empty.height := by
    refine ⟨?_, Nat.le_refl _, Nat.le_refl _, Nat.le_refl _, Nat.le_refl _, ?_, ?_, ?_, ?_, ?_, ?_⟩
      <;> simp [OperandStack.empty]
  obtain ⟨hc, hh, hceil, -, hslot⟩ := Coherent.pushSlots numLocals hempty
  have hzero : OperandStack.empty.height = 0 ∧ OperandStack.empty.ceiling = 0 := ⟨rfl, rfl⟩
  rw [hzero.1, Nat.zero_add] at hc hh hceil hslot
  replace hslot := fun i (hi : i < numLocals) => hslot i (Nat.zero_le i) hi
  -- no operand is a copy of a local or in the flags yet
  have hne : ∀ i, i < numLocals → ∀ p, (OperandStack.empty.pushSlots numLocals).placement? i =
      some p → p = .slot := fun i hi p hp => Option.some.inj (hp.symm.trans (hslot i hi))
  refine ⟨⟨⟨hc.indexed, hc.active_le_size, hc.height_le, Nat.le_of_eq hh.symm,
    hc.active_le_ceiling, fun i hi => ⟨.slot, hslot i hi, trivial⟩, fun i hi j hj => ?_,
    hc.mem_used, hc.pooled, hc.unshared, hc.known⟩, hslot, fun i hi c hp => ?_⟩, hh, ?_, hslot⟩
  · cases hne i hi _ hj
  · cases hne i hi _ hp
  · rw [hceil, hzero.2]
    omega

end Consistent

/-! ### Checking coherence -/

/-- **Coherence as a check** of the entries one by one, and of the registers in use one by one. The
definition quantifies over all registers and all positions; here everything is bounded by the stack,
so it can be decided. -/
theorem coherent_iff {numLocals active : Nat} : s.Coherent numLocals active ↔
    (active ≤ s.entries.size ∧ s.height ≤ active ∧ numLocals ≤ s.height ∧ active ≤ s.ceiling) ∧
    (∀ i < s.entries.size, ∀ o ∈ s.entries[i]?, o.slot = i) ∧
    (∀ i < numLocals, ∃ p ∈ s.placement? i, p.InMemory) ∧
    (∀ i < active, ∀ p ∈ s.placement? i, p.Fits numLocals s.used) ∧
    (∀ r ∈ s.used, ∃ i, i < active ∧ s.placement? i = some (.register r)) ∧
    ∀ i < active, ∀ j < active, s.placement? i = s.placement? j →
      (∃ p ∈ s.placement? i, p.onRegister) → i = j := by
  constructor
  · intro h
    -- what is said about each kind of placement is collected in `Fits`
    refine ⟨⟨h.active_le_size, h.height_le, h.locals_le, h.active_le_ceiling⟩,
      fun i _ o ho => h.indexed i o ho, h.locals_inMemory, fun i hi p hp => ?_,
      fun r hr => (h.mem_used r).mp hr, ?_⟩
    · cases p with
      | register r => exact ⟨h.pooled i hi r hp, (h.mem_used r).mpr ⟨i, hi, hp⟩⟩
      | flags c => exact h.known i hi c hp
      | ofLocal j => exact h.alias_lt i hi j hp
      | slot => trivial
    · rintro i hi j hj he ⟨p, hp, hreg⟩
      cases p with
      | register r => exact h.unshared i j hi hj r hp (he ▸ hp)
      | flags c => cases hreg
      | ofLocal j => cases hreg
      | slot => cases hreg
  · rintro ⟨⟨hsize, hheight, hlocals, hceil⟩, hindexed, hmemory, hfits, hused, hunshared⟩
    -- and taken apart again, one kind of placement at a time
    refine ⟨fun i o ho => ?_, hsize, hheight, hlocals, hceil, hmemory,
      fun i hi j hp => hfits i hi _ hp,
      fun r => ⟨hused r, fun ⟨i, hi, hp⟩ => (hfits i hi _ hp).2⟩,
      fun i hi r hp => (hfits i hi _ hp).1, fun i j hi hj r hp hq => ?_,
      fun i hi c hp => hfits i hi _ hp⟩
    · exact hindexed i (Array.getElem?_eq_some_iff.mp ho).1 o ho
    · exact hunshared i hi j hj (hp.trans hq.symm) ⟨_, hp, rfl⟩

instance (numLocals active : Nat) : DecidablePred (Coherent numLocals active) :=
  fun _ => decidable_of_iff _ coherent_iff.symm

/-! ### Choosing registers -/

/-- A register that is chosen belongs to the pool and is not in use. -/
theorem freeRegister?_eq_some (h : s.freeRegister? = some r) : r ∈ Register.pool ∧ r ∉ s.used := by
  unfold freeRegister? at h
  exact ⟨List.mem_of_find?_eq_some h, by simpa using List.find?_some h⟩

/-- If no register can be chosen, the whole pool is in use. -/
theorem mem_used_of_freeRegister?_eq_none (h : s.freeRegister? = none) (hr : r ∈ Register.pool) :
    r ∈ s.used := by
  unfold freeRegister? at h
  simpa using List.find?_eq_none.mp h r hr

/-- What is chosen to be spilled is live and holds a register. -/
theorem Coherent.placement?_of_victim? {numLocals active : Nat}
    (h : s.Coherent numLocals active) (hv : s.victim? = some i) :
    i < s.height ∧ ∃ r, s.placement? i = some (.register r) := by
  unfold victim? live at hv
  obtain ⟨hi, hsteal, -⟩ := List.findIdx?_eq_some_iff_getElem.mp hv
  have hlt : i < s.height := by
    have := hi
    rw [List.length_take] at this
    omega
  have hsize : i < s.entries.size :=
    Nat.lt_of_lt_of_le hlt (Nat.le_trans h.height_le h.active_le_size)
  -- of the placements only a register can be taken away
  rw [List.getElem_take, Array.getElem_toList] at hsteal
  refine ⟨hlt, ?_⟩
  cases hp : (s.entries[i]).placement with
  | register r => exact ⟨r, by simp [placement?, hsize, hp]⟩
  | flags c => simp [stealable, hp] at hsteal
  | ofLocal j => simp [stealable, hp] at hsteal
  | slot => simp [stealable, hp] at hsteal

/-- **There is always something to spill.** If all registers of the pool are in use, at most two of
them are held by popped operands, so a live operand holds one. Two is the number of operands that an
instruction takes; with three registers in the pool this would already be enough. -/
theorem Coherent.exists_victim {numLocals active : Nat} (h : s.Coherent numLocals active)
    (hactive : active ≤ s.height + 2) (hfree : s.freeRegister? = none) :
    ∃ i, s.victim? = some i := by
  by_contra hno
  have hnone : s.victim? = none := by
    cases hv : s.victim? with
    | none => rfl
    | some i => exact absurd ⟨i, hv⟩ hno
  -- so every register of the pool is held at one of the two popped positions
  have hpopped : ∀ r, r ∈ Register.pool →
      ∃ i, s.height ≤ i ∧ i < active ∧ s.placement? i = some (.register r) := by
    intro r hr
    obtain ⟨i, hi, hp⟩ := (h.mem_used r).mp (mem_used_of_freeRegister?_eq_none hfree hr)
    refine ⟨i, ?_, hi, hp⟩
    by_contra hlt
    -- below the height it would be live, and could be spilled
    unfold victim? live at hnone
    have hmem : (⟨.register r, i⟩ : Operand) ∈ s.entries.toList.take s.height := by
      have hget := h.exists_entry hp
      rw [← Array.getElem?_toList] at hget
      exact List.mem_of_getElem? ((List.getElem?_take_of_lt (by omega)).trans hget)
    have := List.findIdx?_eq_none_iff.mp hnone _ hmem
    simp [stealable, Register.isAllocatable, hr] at this
  -- three registers do not fit into two positions
  obtain ⟨a, ha, ha', hax⟩ := hpopped .ax (by decide)
  obtain ⟨b, hb, hb', hbx⟩ := hpopped .cx (by decide)
  obtain ⟨c, hc, hc', hcx⟩ := hpopped .dx (by decide)
  have hdistinct : ∀ {i j r r'}, s.placement? i = some (.register r) →
      s.placement? j = some (.register r') → r ≠ r' → i ≠ j := by
    rintro i _ r r' hr hr' hne rfl
    rw [hr] at hr'
    cases hr'
    exact hne rfl
  have hab : a ≠ b := hdistinct hax hbx (by decide)
  have hac : a ≠ c := hdistinct hax hcx (by decide)
  have hbc : b ≠ c := hdistinct hbx hcx (by decide)
  omega

end OperandStack

end WasmJit
