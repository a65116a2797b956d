import WasmJit.Emitter
import WasmJit.Machine.Execution
import Mathlib.Tactic.Common

/-!
# Executing straight-line code

Between two branches the emitter only appends instructions that fall through. `Machine.runCode`
executes such a piece of code on its own, before it is known where its jumps go: a jump in it must
not be taken.

* `Machine.Ready` is what every emitted instruction relies on: the two reserved registers hold
  their addresses, and the registers of the pool hold numbers.
* `Machine.step_load`, `step_store` and their neighbours say what the emitted instructions do to a
  machine that is ready.
* `Machine.runCode_append` composes pieces of code.
-/

namespace WasmJit

namespace Machine

variable {m m' : Machine} {r r' : Register} {v : Value} {w : UInt64}

/-! ### Registers -/

/-- Register numbers are bytes and there are 256 places, so every register has one. -/
theorem get_eq_getElem (m : Machine) (r : Register) (h : r.number.toNat < 256) :
    m.get r = m.registers[r.number.toNat] := rfl

@[simp] theorem get_set_self (m : Machine) (r : Register) (v : Value) : (m.set r v).get r = v := by
  simp [get_eq_getElem _ r r.number.toNat_lt, set]

/-- Writing a register leaves the others alone. -/
theorem get_set_of_ne (h : r' ≠ r) (m : Machine) (v : Value) : (m.set r v).get r' = m.get r' := by
  -- registers are numbered, so different ones lie at different places
  have hne : r.number.toNat ≠ r'.number.toNat := by
    intro he
    apply h
    cases r
    cases r'
    simpa using (UInt8.toNat_inj.mp he).symm
  simp [get_eq_getElem _ r' r'.number.toNat_lt, set, hne]

@[simp] theorem slots_set (m : Machine) (r : Register) (v : Value) : (m.set r v).slots = m.slots :=
  rfl

@[simp] theorem zero_set (m : Machine) (r : Register) (v : Value) : (m.set r v).zero = m.zero := rfl

@[simp] theorem status_set (m : Machine) (r : Register) (v : Value) :
    (m.set r v).status = m.status := rfl

/-- The same for numbers, which are all that emitted code computes with. -/
@[simp] theorem word?_set_self (m : Machine) (r : Register) (w : UInt64) :
    (m.set r (.word w)).word? r = some w := by
  simp [word?]

theorem word?_set_of_ne (h : r' ≠ r) (m : Machine) (v : Value) :
    (m.set r v).word? r' = m.word? r' := by
  simp [word?, get_set_of_ne h]

/-- The pool leaves out the two reserved registers, so code that writes to the pool never loses an
address. -/
theorem callRecord_ne_of_mem_pool (h : r ∈ Register.pool) : Register.callRecord ≠ r := by
  rintro rfl
  revert h
  decide

theorem valueStack_ne_of_mem_pool (h : r ∈ Register.pool) : Register.valueStack ≠ r := by
  rintro rfl
  revert h
  decide

/-! ### What emitted code relies on -/

/-- **A machine that can execute emitted code**: the reserved registers hold their addresses, on
which loads and stores rely, and the registers of the pool hold numbers, on which additions and
comparisons do. Which numbers these are does not matter here. -/
structure Ready (m : Machine) : Prop where
  record : m.get .callRecord = .callRecord
  base : m.get .valueStack = .valueStack
  words : ∀ r, r ∈ Register.pool → ∃ w, m.word? r = some w

instance (m : Machine) : Decidable m.Ready :=
  decidable_of_iff (m.get .callRecord = .callRecord ∧ m.get .valueStack = .valueStack ∧
      ∀ r ∈ Register.pool, (m.word? r).isSome)
    ⟨fun h => ⟨h.1, h.2.1, fun r hr => Option.isSome_iff_exists.mp (h.2.2 r hr)⟩,
      fun h => ⟨h.record, h.base, fun r hr => Option.isSome_iff_exists.mpr (h.words r hr)⟩⟩

namespace Ready

/-- Writing a number to a register of the pool keeps a machine ready. Nothing else is ever written:
emitted code neither copies addresses nor touches the reserved registers after its first
instruction. -/
theorem set (h : m.Ready) (hr : r ∈ Register.pool) (w : UInt64) : (m.set r (.word w)).Ready where
  record := by rw [get_set_of_ne (callRecord_ne_of_mem_pool hr), h.record]
  base := by rw [get_set_of_ne (valueStack_ne_of_mem_pool hr), h.base]
  words r' hr' := by
    by_cases he : r' = r
    · subst he
      exact ⟨w, by simp⟩
    · rw [word?_set_of_ne he]
      exact h.words r' hr'

/-- Whether a machine is ready depends on its registers only: slots, flag and status do not matter.
-/
theorem congr (h : m.Ready) (he : m'.registers = m.registers) : m'.Ready := by
  have hget : ∀ r, m'.get r = m.get r := fun r => by simp only [get, he]
  refine ⟨hget _ ▸ h.record, hget _ ▸ h.base, fun r hr => ?_⟩
  simpa only [word?, hget] using h.words r hr

end Ready

/-! ### Single instructions -/

/-- **The offset of a slot leads to the slot.** Offsets are multiples of eight, so the three checks
of an access hold: it is not negative, not between two slots and not behind the last one. -/
theorem slotAt?_slotOffset {i : Nat} (hi : i < m.slots.size) :
    m.slotAt? (Emitter.slotOffset i) = some i := by
  have hdiv : (Emitter.slotOffset i / 8).toNat = i := by
    unfold Emitter.slotOffset
    omega
  have hcond : 0 ≤ Emitter.slotOffset i ∧ Emitter.slotOffset i % 8 = 0 ∧
      (Emitter.slotOffset i / 8).toNat < m.slots.size := by
    refine ⟨?_, ?_, by rwa [hdiv]⟩ <;> unfold Emitter.slotOffset <;> omega
  rw [slotAt?, if_pos hcond, hdiv]

/-- Loading a slot. The destination may be any register, also one that holds an operand. -/
theorem step_load (h : m.Ready) {i : Nat} (hw : m.slots[i]? = some w) (r : Register) :
    m.step (.load .valueStack (Emitter.slotOffset i) r) = some (m.set r (.word w), .next) := by
  have hi : i < m.slots.size := (Array.getElem?_eq_some_iff.mp hw).1
  simp [step, load, h.base, slotAt?_slotOffset hi, hw]

theorem step_store (h : m.Ready) {i : Nat} (hi : i < m.slots.size) (hw : m.word? r = some w) :
    m.step (.store r .valueStack (Emitter.slotOffset i)) =
      some ({ m with slots := m.slots.setIfInBounds i w }, .next) := by
  simp [step, store, h.base, slotAt?_slotOffset hi, hw]

/-- Storing the status. Where it is in the record does not depend on the machine. -/
theorem step_storeByte (h : m.Ready) (value : Int) :
    m.step (.storeByte value .callRecord 8) =
      some ({ m with status := UInt8.ofInt value }, .next) := by
  simp [step, storeByte, h.record, statusOffset]

/-- Adding, with the sum in the second register. The flag changes as well, which is why operands in
the flags have to be moved out of the way first. -/
theorem step_add {a b : UInt64} (ha : m.word? r = some a) (hb : m.word? r' = some b) :
    m.step (.add r r') = some (m.setResult r' (b + a), .next) := by
  simp [step, ha, hb]

/-- Comparing two registers changes the flag only. -/
theorem step_compare {a b : UInt64} (ha : m.word? r = some a) (hb : m.word? r' = some b) :
    m.step (.compare r r') = some ({ m with zero := a = b }, .next) := by
  simp [step, ha, hb]

theorem step_compareConst (ha : m.word? r = some w) (value : Int) :
    m.step (.compareConst r value) = some ({ m with zero := w = constant value }, .next) := by
  simp [step, ha]

/-- Masking, which keeps the low bit of a condition that was brought into a register. -/
theorem step_andConst (hb : m.word? r = some w) (value : Int) :
    m.step (.andConst value r) = some (m.setResult r (w &&& constant value), .next) := by
  simp [step, hb]

/-- Writing a condition changes the lowest byte of a register and keeps the other seven, so it does
not make a number of its own. -/
theorem step_setIf {c : Condition} {holds : Bool} (hc : m.holds? c = some holds)
    (hb : m.word? r = some w) :
    m.step (.setIf c r) =
      some (m.set r (.word ((w &&& 0xffffffffffffff00) ||| if holds then 1 else 0)), .next) := by
  simp [step, hc, hb]

/-! ### Pieces of code -/

/-- **Executes a piece of code** that falls through to its end. Its jumps have no targets yet, so
the execution has no result if one of them is taken. -/
def runCode : List (Instr Nat) → Machine → Option Machine
  | [], m => some m
  | i :: code, m =>
    match m.step (i.mapTarget fun _ => none) with
    | some (m, .next) => runCode code m
    | _ => none

@[simp] theorem runCode_nil (m : Machine) : runCode [] m = some m := rfl

/-- The first instruction of a piece of code. -/
theorem runCode_cons {i : Instr Nat} {code : List (Instr Nat)}
    (h : m.step (i.mapTarget fun _ => none) = some (m', .next)) :
    runCode (i :: code) m = runCode code m' := by
  simp [runCode, h]

/-- **Pieces of code compose**: what follows is executed on the machine that the first piece leaves.
By induction on the first piece, so that code may be put together in any way. -/
theorem runCode_append {code code' : List (Instr Nat)} (h : runCode code m = some m') :
    runCode (code ++ code') m = runCode code' m' := by
  induction code generalizing m with
  | nil => rw [List.nil_append, Option.some.inj h]
  | cons i code ih =>
    unfold runCode at h
    split at h
    · next hstep =>
      rw [List.cons_append, runCode_cons hstep]
      exact ih h
    · cases h

/-- **Where a jump goes does not matter as long as it is not taken.** So what is known of a piece of
code on its own stays true when its jumps get their targets. -/
theorem step_mapTarget {i : Instr Nat} (f : Nat → Option Nat)
    (h : m.step (i.mapTarget fun _ => none) = some (m', .next)) :
    m.step (i.mapTarget f) = some (m', .next) := by
  cases i with
  | jump b j =>
    simp only [Instr.mapTarget, step] at h ⊢
    -- without a target a taken jump has no successor, so this one is not taken
    split at h
    · cases h
    · next hb => rwa [if_neg hb]
  | _ => exact h

end Machine

end WasmJit
