import Mathlib.Algebra.Ring.Nat
import WasmJit.Proofs.Compilation.ControlFlow

/-!
# The sandbox of compiled functions

Compiled code runs beside the memory of its caller and must not touch it. `Instr.Contained` bounds
the memory operand of an instruction: the load of the address of the first slot, a known status in
the status byte, or a slot of the value stack of the call, which is written only above the
parameters and locals. `Instr.writes` lists the registers an instruction changes.

* `Machine.get_of_step`, `Machine.slots_of_step` : an instruction changes no other register and no
  other slot than these say, so no run does.
* `CompiledFunction.program_contained` is the result about compiled functions.
* `CompiledFunction.narrow_program` follows from the bounds: the 32 bits that machine code has for
  an offset are enough for the slots of a call.
-/

namespace WasmJit

namespace Instr

variable {τ : Type}

/-- **The memory operand stays in the sandbox** of a function with `numLocals` parameters and locals
on `size` slots; `position` is where the instruction stands. -/
def Contained (position numLocals size : Nat) : Instr τ → Prop
  | load base offset dst =>
    position = 0 ∧ base = .callRecord ∧ offset = 0 ∧ dst = .valueStack ∨
      base = .valueStack ∧ ∃ k, k < size ∧ offset = 8 * (k : Int)
  | store _ base offset =>
    base = .valueStack ∧ ∃ k, numLocals ≤ k ∧ k < size ∧ offset = 8 * (k : Int)
  | storeByte value base offset =>
    base = .callRecord ∧ offset = 8 ∧
      (value = Status.returned.code.toNat ∨ value = Status.unreachable.code.toNat)
  | add .. | compare .. | compareConst .. | andConst .. | setIf .. | jump .. | label | ret => True

/-- The registers an instruction changes. -/
def writes : Instr τ → List Register
  | load _ _ dst | add _ dst | andConst _ dst | setIf _ dst => [dst]
  | store .. | storeByte .. | compare .. | compareConst .. | jump .. | label | ret => []

/-- What is sandboxed stays in the sandbox and writes registers of the pool only. By cases on the
instruction. -/
theorem Sandboxed.contained {i : Instr τ} {numLocals size : Nat} (h : i.Sandboxed numLocals size)
    (position : Nat) :
    i.Contained position numLocals size ∧ ∀ r, r ∈ i.writes → r ∈ Register.pool := by
  -- those that access memory first, then those that only write a register
  cases i with
  | load base offset dst =>
    obtain ⟨hb, hd, hk⟩ := h
    exact ⟨.inr ⟨hb, hk⟩, fun r hr => List.mem_singleton.mp hr ▸ hd⟩
  | store src base offset =>
    obtain ⟨hb, -, hk⟩ := h
    exact ⟨⟨hb, hk⟩, fun r hr => by cases hr⟩
  | storeByte value base offset => exact ⟨h, fun r hr => by cases hr⟩
  | add src dst => exact ⟨trivial, fun r hr => List.mem_singleton.mp hr ▸ h.2⟩
  | andConst value dst => exact ⟨trivial, fun r hr => List.mem_singleton.mp hr ▸ h⟩
  | setIf condition dst => exact ⟨trivial, fun r hr => List.mem_singleton.mp hr ▸ h.2⟩
  | _ => exact ⟨trivial, fun r hr => by cases hr⟩

/-- The value stack ends below `2 ^ 31` bytes if it has at most `2 ^ 28` slots, and up to there an
offset is the same with 32 bits and a sign. -/
theorem Contained.mapOffset_narrow {i : Instr τ} {position numLocals size : Nat}
    (h : i.Contained position numLocals size) (hsize : size ≤ 2 ^ 28) :
    i.mapOffset narrow = i := by
  -- slot `k` starts at byte `8 * k`, which is below half of the range
  have hnarrow : ∀ k, k < size → narrow (8 * (k : Int)) = 8 * (k : Int) := fun k hk =>
    Int.bmod_eq_of_le (by omega) (by omega)
  cases i with
  | load base offset dst =>
    rcases h with ⟨-, -, rfl, -⟩ | ⟨-, k, hk, rfl⟩
    · rfl
    · rw [mapOffset, hnarrow k hk]
  | store src base offset =>
    obtain ⟨-, k, -, hk, rfl⟩ := h
    rw [mapOffset, hnarrow k hk]
  | storeByte value base offset =>
    obtain ⟨-, rfl, -⟩ := h
    rfl
  | _ => rfl

end Instr

namespace Machine

variable {m m' : Machine} {i : Instr (Option Nat)} {flow : Flow} {r : Register}

/-- What an instruction can change: one of the registers it writes, or one slot if it is a store.
The frame lemmas below follow from this one case analysis. -/
theorem changes_of_step (h : m.step i = some (m', flow)) :
    (m'.registers = m.registers ∨
        ∃ dst v, dst ∈ i.writes ∧ m'.registers = (m.set dst v).registers) ∧
      (m'.slots = m.slots ∨ ∃ src base offset k w, i = .store src base offset ∧
        m.slotAt? offset = some k ∧ m'.slots = m.slots.setIfInBounds k w) := by
  -- one case per instruction, each opened as far as it can succeed
  cases i with
  | load base offset dst =>
    obtain ⟨m₁, hload, he⟩ := Option.map_eq_some_iff.mp h
    cases he
    unfold load at hload
    -- through the call record the address of the first slot is read, else a slot
    split at hload
    · split at hload
      · cases hload
        exact ⟨.inr ⟨dst, _, List.mem_singleton_self dst, rfl⟩, .inl rfl⟩
      · cases hload
    · obtain ⟨k, -, hload⟩ := Option.bind_eq_some_iff.mp hload
      obtain ⟨w, -, hload⟩ := Option.bind_eq_some_iff.mp hload
      cases hload
      exact ⟨.inr ⟨dst, _, List.mem_singleton_self dst, rfl⟩, .inl rfl⟩
    · cases hload
  | store src base offset =>
    obtain ⟨m₁, hstore, he⟩ := Option.map_eq_some_iff.mp h
    cases he
    unfold store at hstore
    split at hstore
    · obtain ⟨w, -, hstore⟩ := Option.bind_eq_some_iff.mp hstore
      obtain ⟨k, hk, hstore⟩ := Option.bind_eq_some_iff.mp hstore
      cases hstore
      exact ⟨.inl rfl, .inr ⟨src, base, offset, k, w, rfl, hk, rfl⟩⟩
    · cases hstore
  -- the status is neither a register nor a slot
  | storeByte value base offset =>
    obtain ⟨m₁, hstore, he⟩ := Option.map_eq_some_iff.mp h
    cases he
    unfold storeByte at hstore
    split at hstore
    · cases hstore
      exact ⟨.inl rfl, .inl rfl⟩
    · cases hstore
  | add src dst =>
    obtain ⟨a, -, h⟩ := Option.bind_eq_some_iff.mp h
    obtain ⟨b, -, h⟩ := Option.bind_eq_some_iff.mp h
    cases h
    exact ⟨.inr ⟨dst, _, List.mem_singleton_self dst, rfl⟩, .inl rfl⟩
  | compare src dst =>
    obtain ⟨a, -, h⟩ := Option.bind_eq_some_iff.mp h
    obtain ⟨b, -, h⟩ := Option.bind_eq_some_iff.mp h
    cases h
    exact ⟨.inl rfl, .inl rfl⟩
  | compareConst src value =>
    obtain ⟨a, -, h⟩ := Option.bind_eq_some_iff.mp h
    cases h
    exact ⟨.inl rfl, .inl rfl⟩
  | andConst value dst =>
    obtain ⟨a, -, h⟩ := Option.bind_eq_some_iff.mp h
    cases h
    exact ⟨.inr ⟨dst, _, List.mem_singleton_self dst, rfl⟩, .inl rfl⟩
  | setIf condition dst =>
    simp only [step] at h
    split at h
    · cases h
      exact ⟨.inl rfl, .inl rfl⟩
    · obtain ⟨b, -, h⟩ := Option.bind_eq_some_iff.mp h
      cases h
      exact ⟨.inr ⟨dst, _, List.mem_singleton_self dst, rfl⟩, .inl rfl⟩
  -- jumps, labels and returns only say where execution goes on
  | jump branch target =>
    simp only [step] at h
    split at h
    · obtain ⟨t, -, he⟩ := Option.map_eq_some_iff.mp h
      cases he
      exact ⟨.inl rfl, .inl rfl⟩
    · cases h
      exact ⟨.inl rfl, .inl rfl⟩
  | label =>
    cases h
    exact ⟨.inl rfl, .inl rfl⟩
  | ret =>
    cases h
    exact ⟨.inl rfl, .inl rfl⟩

/-- An instruction changes no register but those it writes, so in a sandbox none outside of the
pool. -/
theorem get_of_step (h : m.step i = some (m', flow)) (hr : r ∉ i.writes) :
    m'.get r = m.get r := by
  have hget : ∀ {m₁ m₂ : Machine}, m₁.registers = m₂.registers → m₁.get r = m₂.get r :=
    fun he => by simp only [get, he]
  rcases (changes_of_step h).1 with he | ⟨dst, v, hdst, he⟩
  · -- no register is changed at all
    exact hget he
  · have hne : r ≠ dst := fun hrd => hr (hrd ▸ hdst)
    rw [hget he, get_set_of_ne hne]

/-- An instruction in the sandbox changes no slot of a parameter or local: what it stores goes to a
slot above them. -/
theorem slots_of_step {position numLocals size k : Nat} (h : m.step i = some (m', flow))
    (hi : i.Contained position numLocals size) (hk : k < numLocals) :
    m'.slots[k]? = m.slots[k]? := by
  rcases (changes_of_step h).2 with he | ⟨src, base, offset, k', w, rfl, hat, he⟩
  · rw [he]
  · -- the slot that is stored to lies above the locals
    obtain ⟨-, j, hj, -, rfl⟩ := hi
    unfold slotAt? at hat
    split at hat
    · have hk' := Option.some.inj hat
      rw [he, Array.getElem?_setIfInBounds_ne (by omega)]
    · cases hat

end Machine

/-! ### Compiled functions -/

namespace CompiledFunction.From

variable {c : CompiledFunction} {f : Function} {t : Compilation}

/-- **The instructions of a compiled function are contained**, wherever they stand. The first one
sets up the address of the slots; all others are sandboxed. -/
theorem contained (h : c.From f t) {q : Nat} {i : Instr (Option Nat)}
    (hi : c.program[q]? = some i) : i.Contained q c.numLocals c.numSlots ∧
      ∀ r, r ∈ i.writes → r ∈ Register.pool ∨ q = 0 ∧ r = .valueStack := by
  have hlocals : c.numLocals = f.numLocals := by rw [numLocals, h.source]
  rw [hlocals]
  rcases Nat.eq_zero_or_pos q with rfl | hq
  · -- only the first instruction is not sandboxed
    rw [h.forward.first] at hi
    cases hi
    exact ⟨.inl ⟨rfl, rfl, rfl, rfl⟩, fun r hr => .inr ⟨rfl, List.mem_singleton.mp hr⟩⟩
  · obtain ⟨hcontained, hwrites⟩ := (h.forward.sandboxed q i hq hi).contained q
    exact ⟨hcontained, fun r hr => .inl (hwrites r hr)⟩

/-- A run changes no register outside of the pool and no slot of a parameter or local. By induction
on the run, from what one instruction changes. -/
theorem frame (h : c.From f t) {n pc pc' : Nat} {m m' : Machine}
    (hruns : c.program.Runs n pc m pc' m') :
    (∀ r, r ∉ Register.pool → r ≠ .valueStack → m'.get r = m.get r) ∧
      ∀ k, k < c.numLocals → m'.slots[k]? = m.slots[k]? := by
  have hstep : ∀ {pc : Nat} {i} {m m₁ : Machine} {flow}, c.program[pc]? = some i →
      m.step i = some (m₁, flow) →
      (∀ r, r ∉ Register.pool → r ≠ .valueStack → m₁.get r = m.get r) ∧
        ∀ k, k < c.numLocals → m₁.slots[k]? = m.slots[k]? := by
    -- every instruction keeps them, by where it stands in the code
    intro pc i m m₁ flow hi hs
    obtain ⟨hcontained, hwrites⟩ := h.contained hi
    refine ⟨fun r hr hne => Machine.get_of_step hs fun hw => ?_,
      fun k hk => Machine.slots_of_step hs hcontained hk⟩
    rcases hwrites r hw with hp | ⟨-, he⟩
    · exact hr hp
    · exact hne he
  -- a run keeps what each of its instructions keeps
  induction hruns with
  | refl => exact ⟨fun _ _ _ => rfl, fun _ _ => rfl⟩
  | next fetch step _ ih =>
    obtain ⟨hreg, hslots⟩ := hstep fetch step
    exact ⟨fun r hr hne => (ih.1 r hr hne).trans (hreg r hr hne),
      fun k hk => (ih.2 k hk).trans (hslots k hk)⟩
  | goto fetch step _ ih =>
    obtain ⟨hreg, hslots⟩ := hstep fetch step
    exact ⟨fun r hr hne => (ih.1 r hr hne).trans (hreg r hr hne),
      fun k hk => (ih.2 k hk).trans (hslots k hk)⟩

/-- The results fit on the value stack, as its size is at least the greatest height of the operand
stack. -/
theorem results_le (h : c.From f t) :
    c.numLocals + c.source.type.results.length ≤ c.numSlots := by
  have hnested := h.sound.nested
  rw [h.closed] at hnested
  -- at the end exactly the results are above the locals, and all heights are below the ceiling
  have hheight : t.emitter.stack.height = f.numLocals + f.type.results.length := hnested.height_eq
  have hceil := h.sound.consistent.active_le_ceiling
  have hslots := c.ceiling_le_numSlots
  rw [h.ceiling] at hslots
  rw [numLocals, h.source]
  omega

end CompiledFunction.From

/-- **The machine reads the offsets that were emitted.** Machine code has 32 bits for an offset,
while runs go by the whole offset. On at most `2 ^ 28` slots there is no difference: the program is
what the machine reads of it, and so is every run of it. -/
theorem CompiledFunction.narrow_program {f : Function} {c : CompiledFunction}
    (h : f.compile = .ok c) (hslots : c.numSlots ≤ 2 ^ 28) : c.program.narrow = c.program := by
  obtain ⟨t, hfrom⟩ := Function.exists_from h
  refine Array.ext_getElem? fun q => ?_
  rw [Program.narrow, Array.getElem?_map]
  cases hi : c.program[q]? with
  | none => rfl
  | some i => exact congrArg some ((hfrom.contained hi).1.mapOffset_narrow hslots)

/-- **Compiled code stays in its sandbox**, whether it is reached or not. Every memory operand is
the address of the first slot (loaded by the first instruction only), the status byte, or a slot
inside of the value stack of a call, which is stored to only above the parameters and locals.
Registers outside of the pool are not written, except for the one with the address of the first slot
by the first instruction. So no run changes a parameter, a local or one of these registers. Every
call has a value stack of this size, and it holds all results. -/
theorem CompiledFunction.program_contained {f : Function} {c : CompiledFunction}
    (h : f.compile = .ok c) :
    (∀ (q : Nat) i, c.program[q]? = some i → i.Contained q c.numLocals c.numSlots ∧
        ∀ r, r ∈ i.writes → r ∈ Register.pool ∨ q = 0 ∧ r = .valueStack) ∧
      (∀ n m q m', c.program.Runs n 0 m q m' →
        (∀ r, r ∉ Register.pool → r ≠ .valueStack → m'.get r = m.get r) ∧
          ∀ k, k < c.numLocals → m'.slots[k]? = m.slots[k]?) ∧
      (∀ args, (c.entry args).slots.size = c.numSlots) ∧
      c.numLocals + c.source.type.results.length ≤ c.numSlots := by
  obtain ⟨t, hfrom⟩ := Function.exists_from h
  exact ⟨fun q i hi => hfrom.contained hi, fun n m q m' hruns => hfrom.frame hruns,
    c.size_slots_entry, hfrom.results_le⟩

/-- A function with three parameters and locals and one result. -/
theorem CompiledFunction.program_contained_leaving :
    ∃ c, Function.leaving.compile = .ok c ∧
      (∀ (q : Nat) i, c.program[q]? = some i → i.Contained q 3 c.numSlots) ∧ 4 ≤ c.numSlots := by
  obtain ⟨c, hc⟩ := Function.exists_compile_leaving
  obtain ⟨hcontained, -, -, hresults⟩ := CompiledFunction.program_contained hc
  obtain ⟨t, hfrom⟩ := Function.exists_from hc
  rw [CompiledFunction.numLocals, hfrom.source] at hcontained hresults
  exact ⟨c, hc, fun q i hi => (hcontained q i hi).1, hresults⟩

end WasmJit
