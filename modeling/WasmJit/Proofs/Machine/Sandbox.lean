import WasmJit.Proofs.Machine.StraightLine

/-!
# What emitted instructions may touch

`Instr.Sandboxed numLocals size` bounds what a single instruction reads and writes, for a function
with `numLocals` parameters and locals on a value stack of `size` slots: it accesses the value stack
inside its bounds and stores above the locals only, it writes the status byte with a known status,
and it computes with registers of the pool.

The point of the bound is progress (`Machine.Ready.step_sandboxed`): on a machine that is ready and
has enough slots, a sandboxed instruction is always executed, and the machine stays ready. So code
all of whose instructions are sandboxed never gets stuck, whatever is in the slots and registers.
-/

namespace WasmJit

/-- What an instruction may touch that computes and goes on with the next one. Storing the status
and leaving the code are for the ends of functions and constructs only, so they are not among these.
-/
def Instr.Computes {τ : Type} (numLocals size : Nat) : Instr τ → Prop
  | load base offset dst =>
    base = .valueStack ∧ dst ∈ Register.pool ∧ ∃ i, i < size ∧ offset = Emitter.slotOffset i
  | store src base offset =>
    base = .valueStack ∧ src ∈ Register.pool ∧
      ∃ i, numLocals ≤ i ∧ i < size ∧ offset = Emitter.slotOffset i
  | add src dst | compare src dst => src ∈ Register.pool ∧ dst ∈ Register.pool
  | compareConst src _ => src ∈ Register.pool
  | andConst _ dst => dst ∈ Register.pool
  | setIf condition dst => condition = .equal ∧ dst ∈ Register.pool
  | storeByte .. | jump .. | label | ret => False

/-- **The sandbox of an instruction**: what computes, and what ends a function or a construct. Where
a jump goes is not its business, so this can be asked before targets are known. -/
def Instr.Sandboxed {τ : Type} (numLocals size : Nat) : Instr τ → Prop
  | storeByte value base offset =>
    base = .callRecord ∧ offset = Machine.statusOffset ∧ (value = 0 ∨ value = 1)
  | jump .. | label | ret => True
  | i => i.Computes numLocals size

namespace Instr

variable {τ σ : Type} {numLocals size size' : Nat} {i : Instr τ}

/-- Computing is one way of keeping to the sandbox. -/
theorem Computes.sandboxed (h : i.Computes numLocals size) : i.Sandboxed numLocals size := by
  cases i with
  | storeByte | jump | label | ret => exact h.elim
  | _ => exact h

/-- The sandbox grows with the value stack. While code is emitted the stack may become higher still,
so everything that was emitted is asked for the size at the end. -/
theorem Computes.mono (h : i.Computes numLocals size) (hle : size ≤ size') :
    i.Computes numLocals size' := by
  cases i with
  | load base offset dst =>
    obtain ⟨hb, hd, k, hk, ho⟩ := h
    exact ⟨hb, hd, k, Nat.lt_of_lt_of_le hk hle, ho⟩
  | store src base offset =>
    obtain ⟨hb, hs, k, hl, hk, ho⟩ := h
    exact ⟨hb, hs, k, hl, Nat.lt_of_lt_of_le hk hle, ho⟩
  | _ => exact h

theorem Sandboxed.mono (h : i.Sandboxed numLocals size) (hle : size ≤ size') :
    i.Sandboxed numLocals size' := by
  cases i with
  -- for these two the sandbox is what computing is
  | load base offset dst =>
    have hc : (load base offset dst : Instr τ).Computes numLocals size := h
    exact hc.mono hle
  | store src base offset =>
    have hc : (store src base offset : Instr τ).Computes numLocals size := h
    exact hc.mono hle
  | _ => exact h

/-- Targets do not matter, so the sandbox is the same before and after jumps are linked. -/
theorem sandboxed_mapTarget (f : τ → σ) :
    (i.mapTarget f).Sandboxed numLocals size ↔ i.Sandboxed numLocals size := by
  cases i <;> exact Iff.rfl

end Instr

namespace Machine

variable {m : Machine} {numLocals size : Nat} {i : Instr (Option Nat)}

/-- **A sandboxed instruction is executed.** A jump needs a target; every other instruction that is
not a return goes on with the next one. The machine stays ready, so this can be used over and over.
One case per instruction; in each of them, what the sandbox allows is just what the step asks for.
-/
theorem Ready.step_sandboxed (h : m.Ready) (hi : i.Sandboxed numLocals size)
    (hsize : size ≤ m.slots.size) (hjump : ∀ b t, i = .jump b t → t.isSome) :
    ∃ m' flow, m.step i = some (m', flow) ∧ m'.Ready ∧ m'.slots.size = m.slots.size ∧
      (flow = .halt → i = .ret ∧ m' = m) ∧ ∀ t, flow = .goto t → ∃ b, i = .jump b (some t) := by
  cases i with
  | load base offset dst =>
    -- the slot exists, since the value stack is as large as the sandbox
    obtain ⟨rfl, hd, k, hk, rfl⟩ := hi
    obtain ⟨w, hw⟩ : ∃ w, m.slots[k]? = some w :=
      ⟨m.slots[k], Array.getElem?_eq_getElem (Nat.lt_of_lt_of_le hk hsize)⟩
    exact ⟨_, _, step_load h hw dst, h.set hd w, rfl, by simp, by simp⟩
  | store src base offset =>
    obtain ⟨rfl, hs, k, -, hk, rfl⟩ := hi
    obtain ⟨w, hw⟩ := h.words src hs
    exact ⟨_, _, step_store h (Nat.lt_of_lt_of_le hk hsize) hw, h.congr rfl, by simp, by simp,
      by simp⟩
  | storeByte value base offset =>
    obtain ⟨rfl, rfl, -⟩ := hi
    exact ⟨_, _, step_storeByte h value, h.congr rfl, rfl, by simp, by simp⟩
  | add src dst =>
    -- registers of the pool hold numbers
    obtain ⟨a, ha⟩ := h.words src hi.1
    obtain ⟨b, hb⟩ := h.words dst hi.2
    exact ⟨_, _, step_add ha hb, (h.set hi.2 (b + a)).congr rfl, rfl, by simp, by simp⟩
  | compare src dst =>
    obtain ⟨a, ha⟩ := h.words src hi.1
    obtain ⟨b, hb⟩ := h.words dst hi.2
    exact ⟨_, _, step_compare ha hb, h.congr rfl, rfl, by simp, by simp⟩
  | compareConst src value =>
    obtain ⟨a, ha⟩ := h.words src hi
    exact ⟨_, _, step_compareConst ha value, h.congr rfl, rfl, by simp, by simp⟩
  | andConst value dst =>
    obtain ⟨b, hb⟩ := h.words dst hi
    exact ⟨_, _, step_andConst hb value, (h.set hi (b &&& constant value)).congr rfl, rfl, by simp,
      by simp⟩
  | setIf condition dst =>
    obtain ⟨rfl, hd⟩ := hi
    obtain ⟨b, hb⟩ := h.words dst hd
    -- only equality is ever written, and the machine always knows whether it holds
    have hholds : m.holds? .equal = some m.zero := rfl
    exact ⟨_, _, step_setIf hholds hb, h.set hd _, rfl, by simp, by simp⟩
  | jump branch target =>
    obtain ⟨t, rfl⟩ := Option.isSome_iff_exists.mp (hjump branch target rfl)
    by_cases hb : m.taken branch = true
    · exact ⟨m, .goto t, by simp [step, hb], h, rfl, by simp, by simp⟩
    · exact ⟨m, .next, by simp [step, hb], h, rfl, by simp, by simp⟩
  | label => exact ⟨m, .next, rfl, h, rfl, by simp, by simp⟩
  | ret => exact ⟨m, .halt, rfl, h, rfl, by simp, by simp⟩

end Machine

end WasmJit
