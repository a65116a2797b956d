import WasmJit.Proofs.Correctness.Continuation

/-!
# Code generation under register pressure

What a step of code generation emits depends on where the operands are and on how many of the ten
registers are in use: an operand may be loaded, moved out of the flags, or have its register taken
away for another one. None of this changes what the code means. The theorems of this module say so
for every operand stack that is coherent and has at most its topmost operand in the flags, and for
every machine that represents it, whatever the operands are and whichever registers they hold. They
do not ask how the operands got there.

* `Emitter.operations_compute`: a copy of a local, a sum and a comparison.
* `Emitter.jumpIfZero_branches_on_value`: a jump on a condition, which is in the flags or not.
* `Emitter.carry_moves_results`: results that are copied into slots which may overlap with theirs.

Execution is that of any program that goes on from the emitted code (`Emitter.Continues`).
-/

namespace WasmJit

namespace Emitter

open Machine (runCode)

variable {e e' : Emitter} {s : OperandStack} {code : List (Instr Nat)} {m m' : Machine}
  {numLocals : Nat}

/-- Straight-line code runs from where it was appended to its end, one instruction after the other.
-/
theorem runs_appended (h : (e.extend s code).Continues e') (hrun : runCode code m = some m') :
    e'.resolved.Runs ((e.extend s code).code.size - e.code.size) e.code.size m
      (e.extend s code).code.size m' := by
  have hlength : (e.extend s code).code.size - e.code.size = code.length := by
    rw [size_code_extend]
    omega
  rw [hlength]
  exact runs_extend h hrun

/-! ### Operations -/

/-- **The code between `e` and `e₁` yields** `result`, which replaces the operands from position
`k` on. The operands below and the locals are what they were. -/
structure Yields (numLocals : Nat) (e e₁ : Emitter) (k : Nat)
    (result : Machine → (Nat → UInt64) → Option UInt64) : Prop where
  height_eq : e₁.stack.height = k + 1
  coherent : e₁.stack.Coherent numLocals (k + 1)
  flagsOnTop : e₁.stack.FlagsOnTop (k + 1)
  /-- Every operand has to have a slot, as it may be spilled. -/
  runs : ∀ m values, m.Represents e.stack e.stack.height values →
    e.stack.height ≤ m.slots.size → ∃ m' w, result m values = some w ∧
      m'.Represents e₁.stack (k + 1) (Function.update values k w) ∧ m.KeepsLocals numLocals m' ∧
      ∀ e', e₁.Continues e' →
        e'.resolved.Runs (e₁.code.size - e.code.size) e.code.size m e₁.code.size m'

/-- An operation that computes from the values of its operands alone. What it does to stack and
machine is `Transforms`, for any positions; here its result is the topmost operand. -/
theorem Transforms.yields {floor k : Nat} {f : (Nat → UInt64) → UInt64}
    (h : Transforms numLocals floor e.stack.height e.stack (k + 1) s code
      fun values => Function.update values k (f values))
    (hheight : s.height = k + 1) (hf : e.stack.FlagsOnTop e.stack.height) :
    Yields numLocals e (e.extend s code) k fun _ values => some (f values) where
  height_eq := hheight
  coherent := h.coherent
  flagsOnTop := h.flagsOnTop hf
  runs m values hrep hsize := by
    obtain ⟨m', hrun, hrep', hkeeps⟩ := h.runs m values hf hrep hsize
    exact ⟨m', f values, rfl, hrep', hkeeps, fun _ h => runs_appended h hrun⟩

/-- A copy of a local, which is read from the slot of the local. Nothing is emitted for the copy
itself, only to make the flags free if the topmost operand is in them. -/
theorem exists_localGet_yields (hc : e.stack.Coherent numLocals e.stack.height)
    (hf : e.stack.FlagsOnTop e.stack.height) {index : Nat} (hindex : index < numLocals) :
    ∃ e₁, localGet index e = .ok () e₁ ∧
      Yields numLocals e e₁ e.stack.height fun m _ => m.slots[index]? := by
  obtain ⟨s, code, hemits, htr, hheight, -, htop⟩ := exists_freeFlags hc
  have hcoh := (htr 0).coherent
  have hflags := (htr 0).flagsOnTop hf
  rw [← hheight] at hcoh hflags htop
  refine ⟨_, hemits.bind (emits_modifyStack _ s) e rfl,
    { height_eq := congrArg (· + 1) hheight, coherent := ?_, flagsOnTop := ?_, runs := ?_ }⟩
  · -- the new operand stands for the local, and needs no place of its own
    rw [← hheight]
    exact hcoh.push (by simp) (by simpa using hindex) (by simp)
  · rw [← hheight]
    exact flagsOnTop_pushLocal hcoh.active_le_size index htop hflags
  · -- freeing the flags has not touched the local
    intro m values hrep hslots
    obtain ⟨m', hrun, hrep', hkeeps⟩ := (htr 0).runs m values hf hrep hslots
    have hlt : index < m.slots.size := by
      have := hc.locals_le
      omega
    have hw : m'.slots[index]? = some m.slots[index] := by
      rw [hkeeps.getElem?_eq index hindex, Array.getElem?_eq_getElem hlt]
    refine ⟨m', m.slots[index], Array.getElem?_eq_getElem hlt, ?_, hkeeps,
      fun e' h => runs_appended h ?_⟩
    · rw [← hheight] at hrep' ⊢
      exact hrep'.pushLocal hcoh.active_le_size hw
    · rwa [List.append_nil]

/-- **Operations compute what they should, whatever the register pressure is.** They succeed on all
operands, leave a coherent stack, and push the value of the local, the sum or the outcome of the
comparison on top of operands that are what they were. -/
theorem operations_compute (hc : e.stack.Coherent numLocals e.stack.height)
    (hf : e.stack.FlagsOnTop e.stack.height) :
    (∀ index, index < numLocals → ∃ e₁, localGet index e = .ok () e₁ ∧
      Yields numLocals e e₁ e.stack.height fun m _ => m.slots[index]?) ∧
    ∀ k, e.stack.height = k + 2 → numLocals ≤ k →
      (∃ e₁, add e = .ok () e₁ ∧
        Yields numLocals e e₁ k fun _ values => some (values k + values (k + 1))) ∧
      ∃ e₁, eq e = .ok () e₁ ∧
        Yields numLocals e e₁ k fun _ values =>
          some (if values k = values (k + 1) then 1 else 0) := by
  refine ⟨fun index hindex => exists_localGet_yields hc hf hindex, fun k hk hl => ⟨?_, ?_⟩⟩
  · obtain ⟨s, code, hemits, htr, hheight, -⟩ := exists_add hc hk hl (Nat.zero_le k)
    exact ⟨_, hemits e rfl, Transforms.yields (hk ▸ htr) hheight hf⟩
  · obtain ⟨s, code, hemits, htr, hheight, -⟩ := exists_eq hc hk hl (Nat.zero_le k)
    exact ⟨_, hemits e rfl, Transforms.yields (hk ▸ htr) hheight hf⟩

/-- One local, ten operands that hold all the registers of the pool, and more operands on top. -/
def full (top : List Placement) : Emitter :=
  { empty with
    stack := top.foldl OperandStack.push
      (Register.pool.foldl OperandStack.pushRegister (OperandStack.empty.pushSlots 1)) }

/-- A machine with a number in every register of the pool. Its slots all hold the same. -/
def occupied (zero : Bool) : Machine :=
  { Register.pool.foldl (fun m r => m.set r (.word r.number.toUInt64))
      ((Machine.start (Array.replicate 13 7)).set .valueStack .valueStack) with zero }

/-- With all registers in use and the topmost operand in the flags, an operation first has to take a
register away from another operand. -/
theorem operations_compute_full :
    let values := fun i => ([7, 1, 2, 3, 4, 7, 8, 9, 10, 11, 12, 1] : List UInt64).getD i 0
    (occupied false).Represents (full [.flags .notEqual]).stack 12 values ∧
    (∃ e₁ m', localGet 0 (full [.flags .notEqual]) = .ok () e₁ ∧
      e₁.resolved.Runs e₁.code.size 0 (occupied false) e₁.code.size m' ∧
      m'.Represents e₁.stack 13 (Function.update values 12 7)) ∧
    (∃ e₁ m', add (full [.flags .notEqual]) = .ok () e₁ ∧
      e₁.resolved.Runs e₁.code.size 0 (occupied false) e₁.code.size m' ∧
      m'.Represents e₁.stack 11 (Function.update values 10 13)) ∧
    ∃ e₁ m', eq (full [.flags .notEqual]) = .ok () e₁ ∧
      e₁.resolved.Runs e₁.code.size 0 (occupied false) e₁.code.size m' ∧
      m'.Represents e₁.stack 11 (Function.update values 10 0) := by
  intro values
  have hrep : (occupied false).Represents (full [.flags .notEqual]).stack 12 values := by
    decide +kernel
  have hsize : (full [.flags .notEqual]).stack.height ≤ (occupied false).slots.size := by
    decide +kernel
  have hc : (full [.flags .notEqual]).stack.Coherent 1 (full [.flags .notEqual]).stack.height := by
    decide +kernel
  obtain ⟨hget, htwo⟩ := operations_compute hc (by decide +kernel)
  obtain ⟨⟨e₂, hadd, hadd'⟩, e₃, heq, heq'⟩ := htwo 10 (by decide +kernel) (by decide)
  obtain ⟨e₁, hget, hget'⟩ := hget 0 (by decide)
  -- the value of each result is found by evaluation
  refine ⟨hrep, ?_, ?_, ?_⟩
  · obtain ⟨m', w, hw, hrep', -, hrun⟩ := hget'.runs _ values hrep hsize
    obtain rfl : w = 7 := (Option.some.inj hw).symm
    exact ⟨e₁, m', hget, hrun e₁ (.refl e₁), hrep'⟩
  · obtain ⟨m', w, hw, hrep', -, hrun⟩ := hadd'.runs _ values hrep hsize
    obtain rfl : w = 13 := (Option.some.inj hw).symm
    exact ⟨e₂, m', hadd, hrun e₂ (.refl e₂), hrep'⟩
  · obtain ⟨m', w, hw, hrep', -, hrun⟩ := heq'.runs _ values hrep hsize
    obtain rfl : w = 0 := (Option.some.inj hw).symm
    exact ⟨e₃, m', heq, hrun e₃ (.refl e₃), hrep'⟩

/-! ### Branches -/

/-- **A jump on zero is taken exactly when the value of its operand is zero**, whether that is in
the flags, in a register or in memory. On both ways the operands that remain are in memory and have
the values they had. -/
theorem jumpIfZero_branches_on_value (hc : e.stack.Coherent numLocals e.stack.height)
    (hf : e.stack.FlagsOnTop e.stack.height) (hl : numLocals < e.stack.height) :
    ∃ e₁, jumpIfZero e = .ok e.fixups.size e₁ ∧ e₁.stack.height + 1 = e.stack.height ∧
      e₁.stack.Coherent numLocals e₁.stack.height ∧ Settled e₁.stack.height e₁.stack ∧
      e₁.stack.used = [] ∧
      ∀ m values, m.Represents e.stack e.stack.height values → e.stack.height ≤ m.slots.size →
        ∃ m', m'.Represents e₁.stack e₁.stack.height values ∧ m.KeepsLocals numLocals m' ∧
          ∀ e', e₁.Continues e' → ∀ target, e'.resolve e.fixups.size = some target →
            e'.resolved.Runs (e₁.code.size - e.code.size) e.code.size m
              (if values e₁.stack.height = 0 then target else e₁.code.size) m' := by
  obtain ⟨k, hk⟩ : ∃ k, e.stack.height = k + 1 := ⟨e.stack.height - 1, by omega⟩
  obtain ⟨s, code, b, htested, hok⟩ := exists_jumpIfZero hc hk (by omega)
  obtain rfl : s.height = k := htested.height_eq
  refine ⟨_, hok e rfl, hk.symm, htested.coherent, htested.settled,
    htested.settled.used_eq_nil htested.coherent, fun m values hrep hsize => ?_⟩
  rw [hk] at hf hrep
  obtain ⟨m', hrun, hrep', hkeeps, htaken⟩ :=
    htested.runs m values hf hrep (by omega)
  refine ⟨m', hrep', hkeeps, fun e' hcont target htarget => ?_⟩
  -- first what is emitted in front of the jump, then the jump
  have hstraight := runs_extend ((Continues.withJump _ .ifZero b).trans hcont) hrun
  have hjump := getElem?_withJump hcont
  have hlength : ((e.extend s code).withJump .ifZero b).code.size - e.code.size =
      code.length + 1 := by
    rw [size_code_withJump, size_code_extend]
    omega
  rw [hlength]
  change e'.resolved.Runs _ _ m (if values s.height = 0 then _ else _) m'
  -- the condition as it was tested decides where the jump goes
  by_cases hzero : values s.height = 0
  · rw [if_pos hzero]
    rw [decide_eq_true hzero] at htaken
    exact hstraight.trans (runs_jump hjump htaken htarget)
  · rw [if_neg hzero, size_code_withJump]
    rw [decide_eq_false hzero] at htaken
    exact hstraight.trans (runs_pass hjump htaken)

/-- The condition, that two numbers differ, is still in the flags and does not hold: all registers
are spilled, and the jump is taken over a return to the label behind it. -/
theorem jumpIfZero_branches_on_value_full :
    let values := fun i => ([7, 1, 2, 3, 4, 7, 8, 9, 10, 11, 12, 0] : List UInt64).getD i 0
    (occupied true).Represents (full [.flags .notEqual]).stack 12 values ∧
    ∃ e₁ m', jumpIfZero (full [.flags .notEqual]) = .ok 0 e₁ ∧ e₁.stack.used = [] ∧
      ((e₁.extend e₁.stack [.ret]).land [0]).resolved.Runs e₁.code.size 0 (occupied true)
        (e₁.code.size + 1) m' ∧
      m'.Represents e₁.stack 11 values := by
  intro values
  have hrep : (occupied true).Represents (full [.flags .notEqual]).stack 12 values := by
    decide +kernel
  have hc : (full [.flags .notEqual]).stack.Coherent 1 (full [.flags .notEqual]).stack.height := by
    decide +kernel
  obtain ⟨e₁, hok, hheight, -, -, hused, hruns⟩ :=
    jumpIfZero_branches_on_value hc (by decide +kernel) (by decide +kernel)
  -- where the jump goes is said for any program that lands it
  obtain ⟨m', hrep', -, hrun⟩ := hruns _ values hrep (by decide +kernel)
  replace hheight : e₁.stack.height = 11 := Nat.succ.inj (hheight.trans (by decide +kernel))
  -- the new jump is the only one, and has no label yet
  have hpending : (match jumpIfZero (full [.flags .notEqual]) with
      | .ok _ e₁ => (e₁.fixups[0]?).map (·.target)
      | .error _ _ => none) = some none := by decide +kernel
  rw [hok] at hpending
  obtain ⟨x, hx, hnone⟩ := Option.map_eq_some_iff.mp hpending
  have hcont : e₁.Continues ((e₁.extend e₁.stack [.ret]).land [0]) :=
    (Continues.extend e₁ (Nat.le_refl _) [.ret]).trans <| .land_of_pending fun j hj => by
      rw [List.mem_singleton.mp hj, resolve, fixups_extend, hx]
      exact hnone
  have hland : ((e₁.extend e₁.stack [.ret]).land [0]).resolve 0 = some _ :=
    resolve_land List.mem_cons_self ⟨x, hx⟩
  rw [size_code_extend] at hland
  replace hrun := hrun _ hcont _ hland
  rw [hheight] at hrep' hrun
  exact ⟨hrep, e₁, m', hok, hused, hrun, hrep'⟩

/-! ### Results -/

/-- **Results are carried into the slots from `entry` on**, in order, also when these are slots of
other results or a result is a copy of a local. The operands below `entry` have the values they had,
and all operands are in memory. It makes no difference if slots are numbered with 64 bits. -/
theorem carry_moves_results (hc : e.stack.Coherent numLocals e.stack.height)
    (hf : e.stack.FlagsOnTop e.stack.height) {entry arity : Nat} (hl : numLocals ≤ entry)
    (hle : entry + arity ≤ e.stack.height) :
    ∃ e₁, carry entry arity e = .ok () e₁ ∧
      (∀ word : UInt64, word.toNat = entry → entry + arity ≤ UInt64.size →
        carryWord word arity e = .ok () e₁) ∧
      e₁.stack.height = e.stack.height ∧ e₁.stack.Coherent numLocals e₁.stack.height ∧
      Settled e₁.stack.height e₁.stack ∧ e₁.stack.used = [] ∧
      ∀ m values, m.Represents e.stack e.stack.height values → e.stack.height ≤ m.slots.size →
        ∃ m', (∀ i, i < arity →
            m'.slots[entry + i]? = some (values (e.stack.height - arity + i))) ∧
          m'.Represents e₁.stack entry values ∧ m.KeepsLocals numLocals m' ∧
          ∀ e', e₁.Continues e' →
            e'.resolved.Runs (e₁.code.size - e.code.size) e.code.size m e₁.code.size m' := by
  obtain ⟨s, code, hemits, hcarried⟩ := exists_carry hc entry arity hl (by simpa using hle)
  rw [Int.toNat_natCast] at hcarried
  have hcoh := hcarried.coherent
  have hsettled := hcarried.settled
  rw [← hcarried.height_eq] at hcoh hsettled
  refine ⟨_, hemits e rfl, ?_, hcarried.height_eq, hcoh, hsettled, hsettled.used_eq_nil hcoh,
    fun m values hrep hsize => ?_⟩
  · -- the numbers of the slots are too small to wrap around
    rintro word rfl hlast
    rw [carryWord_eq_carry hlast]
    exact hemits e rfl
  · obtain ⟨m', hrun, hrep', hkeeps, hslots⟩ := hcarried.runs m values hf hrep hsize
    exact ⟨m', hslots, hrep', hkeeps, fun e' h => runs_appended h hrun⟩

/-- Ten results move down by one slot each. They are in eight of the registers, in the slot of
the local and in the flags. -/
theorem carry_moves_results_full :
    let values := fun i => ([7, 1, 2, 3, 4, 7, 8, 9, 10, 11, 12, 7, 1] : List UInt64).getD i 0
    (occupied false).Represents (full [.ofLocal 0, .flags .notEqual]).stack 13 values ∧
    ∃ e₁ m', carry 2 10 (full [.ofLocal 0, .flags .notEqual]) = .ok () e₁ ∧ e₁.stack.used = [] ∧
      e₁.resolved.Runs e₁.code.size 0 (occupied false) e₁.code.size m' ∧
      (List.range 10).map (fun i => m'.slots[2 + i]?) =
        ([3, 4, 7, 8, 9, 10, 11, 12, 7, 1] : List UInt64).map some := by
  intro values
  have hrep : (occupied false).Represents (full [.ofLocal 0, .flags .notEqual]).stack 13 values :=
    by decide +kernel
  have hc : (full [.ofLocal 0, .flags .notEqual]).stack.Coherent 1
      (full [.ofLocal 0, .flags .notEqual]).stack.height := by decide +kernel
  have hle : 2 + 10 ≤ (full [.ofLocal 0, .flags .notEqual]).stack.height := by decide +kernel
  obtain ⟨e₁, hok, -, -, -, -, hused, hruns⟩ :=
    carry_moves_results hc (by decide +kernel) (by decide) hle
  obtain ⟨m', hslots, -, -, hrun⟩ := hruns _ values hrep (by decide +kernel)
  refine ⟨hrep, e₁, m', hok, hused, hrun e₁ (.refl e₁), ?_⟩
  rw [List.map_congr_left fun i hi => hslots i (List.mem_range.mp hi)]
  decide +kernel

end Emitter

end WasmJit
