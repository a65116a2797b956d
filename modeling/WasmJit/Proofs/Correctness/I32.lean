import Mathlib.Algebra.Ring.Nat
import WasmJit.Proofs.Correctness.Calls

/-!
# Values of 32 bits

Compiled code computes with 64 bits, while the values of a function are 32 bits wide. The reference
interpreter takes values of any width, so the same body can be executed with values of 32 bits, on
which addition wraps around at `2 ^ 32`.

The two executions are compared by a map of the values of one to those of the other. A map that
keeps zero and one and tells values apart (`Reference.Embeds`) takes every step of an execution to a
step of the other, except that a sum may come out differently. So it takes whole executions to each
other if it respects the sums of those additions that are executed, and no others.

* `Reference.State.step_map` follows one instruction, `Reference.foldlM_step_map` a list of them.
* `Function.interpret_map` is about the meaning of a function.
* `CompiledFunction.agrees_with_i32` says that calls return what the execution with 32 bits does, if
  the sums of all additions that it executes are below `2 ^ 32`.
-/

namespace WasmJit

namespace Reference

variable {α β : Type}

/-! ### Other values -/

/-- The state with other values. -/
def State.map (φ : α → β) (s : State α) : State β :=
  ⟨s.operands.map φ, s.labels, s.mode⟩

/-- The outcome with other values. -/
def Outcome.map (φ : α → β) : Outcome α → Outcome β
  | .returned values => .returned (values.map φ)
  | .trapped => .trapped

/-- **A map that branches do not notice**: a condition is zero in both executions or in neither, and
two operands are equal in both or in neither. -/
structure Embeds [OfNat α 0] [OfNat α 1] [OfNat β 0] [OfNat β 1] (φ : α → β) : Prop where
  zero : φ 0 = 0
  one : φ 1 = 1
  injective : Function.Injective φ

/-- The map respects a sum. -/
def RespectsSum [Add α] [Add β] (φ : α → β) (p : α × α) : Prop :=
  φ (p.1 + p.2) = φ p.1 + φ p.2

/-- Conditions that are zero. -/
theorem Embeds.eq_zero_iff [OfNat α 0] [OfNat α 1] [OfNat β 0] [OfNat β 1] {φ : α → β}
    (h : Embeds φ) {c : α} : φ c = 0 ↔ c = 0 := by
  rw [← h.zero]
  exact h.injective.eq_iff

/-- Which operands are kept depends on their number only. -/
theorem Label.keep_map (φ : α → β) (l : Label) (operands : List α) :
    l.keep (operands.map φ) = (l.keep operands).map φ := by
  simp only [Label.keep, List.map_append, List.map_take, List.map_drop, List.length_map]

/-- A branch goes to the same label. -/
theorem State.branch_map (φ : α → β) (s : State α) (depth : Nat) :
    (s.map φ).branch depth = (s.branch depth).map (State.map φ) := by
  obtain ⟨operands, labels, mode⟩ := s
  simp only [State.branch, State.map]
  cases labels.drop depth with
  | nil => rfl
  | cons l outer => simp only [Label.keep_map, Option.map_some, State.map]

/-- Skipping looks at no value. -/
theorem State.skip_map (φ : α → β) (s : State α) (nested : Nat) (toElse : Bool) (i : Instruction) :
    (s.map φ).skip nested toElse i = (s.skip nested toElse i).map φ := by
  cases i with
  | else_ =>
    simp only [State.skip]
    split <;> rfl
  | end_ => cases nested <;> rfl
  | _ => rfl

theorem State.outcome?_map (φ : α → β) (s : State α) :
    (s.map φ).outcome? = s.outcome?.map (Outcome.map φ) := by
  obtain ⟨operands, labels, mode⟩ := s
  cases mode with
  | running =>
    cases labels with
    | nil => simp [State.outcome?, State.map, Outcome.map, List.map_reverse]
    | cons l outer => rfl
  | skipping nested toElse => rfl
  | trapped => rfl

section

variable [Add α] [OfNat α 0] [OfNat α 1] [DecidableEq α]
  [Add β] [OfNat β 0] [OfNat β 1] [DecidableEq β] {φ : α → β} {locals : List α} {s : State α}

/-- An instruction that is executed. Of all instructions, only an addition makes a value that is not
there yet and is neither zero nor one; the others move values, compare them or test for zero. -/
theorem State.execute_map (h : Embeds φ) (hmode : s.mode = .running) {i : Instruction}
    (hsum : ∀ p ∈ s.addends? i, RespectsSum φ p) :
    (s.map φ).execute (locals.map φ) i = (s.execute locals i).map (State.map φ) := by
  obtain ⟨operands, labels, mode⟩ := s
  cases hmode
  cases i with
  | localGet index =>
    simp only [State.execute, List.getElem?_map, Option.map_map]
    rfl
  -- where too few operands are there, both executions get stuck
  | add =>
    rcases operands with _ | ⟨b, _ | ⟨a, rest⟩⟩
    · rfl
    · rfl
    · have hrespects : φ (a + b) = φ a + φ b := hsum (a, b) rfl
      simp only [State.execute, State.map, List.map_cons, Option.map_some, hrespects]
  | eq =>
    rcases operands with _ | ⟨b, _ | ⟨a, rest⟩⟩
    · rfl
    · rfl
    · have heq : (if φ a = φ b then 1 else 0) = φ (if a = b then 1 else 0) := by
        simp only [h.injective.eq_iff, apply_ite φ, h.zero, h.one]
      simp only [State.execute, State.map, List.map_cons, Option.map_some, heq]
  | block type => simp only [State.execute, State.map, List.length_map, Option.map_some]
  -- a condition is tested for zero, with both kinds of values
  | if_ type =>
    cases operands with
    | nil => rfl
    | cons c rest =>
      simp only [State.execute, State.map, List.map_cons, List.length_map, Option.map_some,
        h.eq_zero_iff]
  -- what leaves a construct keeps operands by their positions
  | else_ => exact State.branch_map φ _ 0
  | end_ =>
    cases labels with
    | nil => rfl
    | cons l outer => simp only [State.execute, State.map, Option.map_some, Label.keep_map]
  | br depth => exact State.branch_map φ _ depth.toNat
  | brIf depth =>
    cases operands with
    | nil => rfl
    | cons c rest =>
      simp only [State.execute, State.map, List.map_cons, h.eq_zero_iff]
      split
      · rfl
      · exact State.branch_map φ ⟨rest, labels, .running⟩ depth.toNat
  | unreachable => rfl

/-- **One instruction**: if the map respects the sum, both executions go on in the same way. Where
instructions are skipped, or nothing happens any more, there is no sum to respect. -/
theorem State.step_map (h : Embeds φ) {i : Instruction}
    (hsum : ∀ p ∈ s.addends? i, RespectsSum φ p) :
    (s.map φ).step (locals.map φ) i = (s.step locals i).map (State.map φ) := by
  cases hmode : s.mode with
  | running =>
    have hrunning : (s.map φ).mode = .running := hmode
    simp only [State.step, hmode, hrunning]
    exact State.execute_map h hmode hsum
  | skipping nested toElse =>
    have hskipping : (s.map φ).mode = .skipping nested toElse := hmode
    simp only [State.step, hmode, hskipping, Option.map_some, State.skip_map]
  | trapped =>
    have htrapped : (s.map φ).mode = .trapped := hmode
    simp only [State.step, hmode, htrapped, Option.map_some]

/-- **A list of instructions**, by induction. Only the sums of executed additions matter, and where
the execution gets stuck, it does so with both kinds of values. -/
theorem foldlM_step_map (h : Embeds φ) {is : List Instruction}
    (hsums : ∀ p ∈ additions locals s is, RespectsSum φ p) :
    is.foldlM (State.step (locals.map φ)) (s.map φ) =
      (is.foldlM (State.step locals) s).map (State.map φ) := by
  induction is generalizing s with
  | nil => rfl
  | cons i is ih =>
    rw [additions] at hsums
    -- the first instruction adds what it adds, and the others add the rest
    have hstep : (s.map φ).step (locals.map φ) i = (s.step locals i).map (State.map φ) :=
      State.step_map h fun p hp => hsums p (List.mem_append_left _ (Option.mem_toList.mpr hp))
    rw [List.foldlM_cons, List.foldlM_cons, hstep]
    cases hs : s.step locals i with
    | none => rfl
    | some s' =>
      rw [hs] at hsums
      exact ih fun p hp => hsums p (List.mem_append_right _ hp)

end

end Reference

/-! ### Functions -/

namespace Function

variable {α β : Type} [Add α] [OfNat α 0] [OfNat α 1] [DecidableEq α]
  [Add β] [OfNat β 0] [OfNat β 1] [DecidableEq β] {φ : α → β}

/-- The additions that are executed when the function is called with `args`, by their operands. -/
def additions (f : Function) (args : List α) : List (α × α) :=
  Reference.additions (f.initialLocals args) ⟨[], [⟨f.type.results.length, 0⟩], .running⟩
    f.instructions

/-- **A function means the same with other values**, if the sums of the additions it executes are
respected. Its locals start as arguments and zeros, with both kinds of values. -/
theorem interpret_map (h : Reference.Embeds φ) (f : Function) (args : List α)
    (hsums : ∀ p ∈ f.additions args, Reference.RespectsSum φ p) :
    f.interpret (args.map φ) = (f.interpret args).map (Reference.Outcome.map φ) := by
  have hlocals : f.initialLocals (args.map φ) = (f.initialLocals args).map φ := by
    simp only [initialLocals, List.map_append, List.map_replicate, h.zero]
  unfold interpret
  cases (disassemble f.code.body).fault with
  | some e => rfl
  | none =>
    -- no operands are there at the start, so it is the same with all values
    have hfold : f.instructions.foldlM (Reference.State.step ((f.initialLocals args).map φ))
        ⟨[], [⟨f.type.results.length, 0⟩], .running⟩ = _ := Reference.foldlM_step_map h hsums
    dsimp only
    rw [Reference.run, Reference.run, hlocals, hfold, Option.bind_map, Option.map_bind]
    exact congrArg _ (funext fun s => Reference.State.outcome?_map φ s)

end Function

/-! ### From 32 bits to 64 -/

namespace I32

/-- No value of 32 bits is lost with 64 bits, so values that differ stay different. -/
theorem embeds_toUInt64 : Reference.Embeds UInt32.toUInt64 where
  zero := rfl
  one := rfl
  injective _ _ := UInt32.toUInt64_inj.mp

/-- A sum below `2 ^ 32` is the same with 32 bits and with 64. This is where the bound is needed:
beyond it the sum wraps around with 32 bits, and does not with 64. -/
theorem respectsSum_toUInt64 {p : UInt32 × UInt32} (h : p.1.toNat + p.2.toNat < 2 ^ 32) :
    Reference.RespectsSum UInt32.toUInt64 p := by
  apply UInt64.toNat_inj.mp
  rw [UInt32.toNat_toUInt64, UInt32.toNat_add, UInt64.toNat_add, UInt32.toNat_toUInt64,
    UInt32.toNat_toUInt64, Nat.mod_eq_of_lt h, Nat.mod_eq_of_lt (by omega)]

/-- Values below `2 ^ 32` lose nothing with 32 bits and come back as they were. -/
theorem map_toUInt64_map_toUInt32 {values : List UInt64} (h : ∀ v ∈ values, v.toNat < 2 ^ 32) :
    (values.map UInt64.toUInt32).map UInt32.toUInt64 = values := by
  rw [List.map_map]
  refine (List.map_congr_left fun v hv => ?_).trans (List.map_id values)
  apply UInt64.toNat_inj.mp
  rw [Function.comp_apply, UInt32.toNat_toUInt64, UInt64.toNat_toUInt32, Nat.mod_eq_of_lt (h v hv),
    id_eq]

end I32

/-- A function of two parameters that adds them and compares the sum with the first one: it traps if
they are equal, and returns the sum otherwise. -/
def Function.adding : Function where
  index := 0
  type := .binary
  code :=
    ⟨0, [0x20, 0x00, 0x20, 0x01, 0x6a, 0x20, 0x00, 0x46, 0x04, 0x7f, 0x00, 0x05, 0x20, 0x00, 0x20,
      0x01, 0x6a, 0x0b, 0x0b]⟩

namespace CompiledFunction

/-- **Compiled functions agree with values of 32 bits.** If the arguments are below `2 ^ 32` and no
addition that is executed with values of 32 bits has an exact sum of `2 ^ 32` or more, that
execution has an outcome, and a call ends in the same way: it returns the same values, all of which
are below `2 ^ 32`, or it fails with `unreachable` where the execution traps. -/
theorem agrees_with_i32 {f : Function} {c : CompiledFunction} (h : f.compile = .ok c)
    (args : List UInt64) (hargs : args.length = f.type.params.length)
    (hsmall : ∀ a ∈ args, a.toNat < 2 ^ 32)
    (hsums : ∀ p ∈ f.additions (args.map UInt64.toUInt32), p.1.toNat + p.2.toNat < 2 ^ 32) :
    ∃ outcome, f.interpret (args.map UInt64.toUInt32) = some outcome ∧
      ∀ (compiled : CompiledModule) index, compiled.functions[index]? = some c →
        (∀ values, outcome = .returned values →
          compiled.call index args = .ok (values.map UInt32.toUInt64)) ∧
        (outcome = .trapped → ∃ err, compiled.call index args = .error err ∧
          err.kind? = some .unreachable) := by
  obtain ⟨t, hfrom⟩ := Function.exists_from h
  obtain ⟨wide, -, hwide, -, -⟩ := hfrom.run_agrees hargs (c.entered_entry args) rfl
  -- with 64 bits there is an outcome, and it is that of the execution with 32 bits
  have hmap := f.interpret_map I32.embeds_toUInt64 (args.map UInt64.toUInt32)
    fun p hp => I32.respectsSum_toUInt64 (hsums p hp)
  rw [I32.map_toUInt64_map_toUInt32 hsmall, hwide] at hmap
  obtain ⟨outcome, houtcome, rfl⟩ := Option.map_eq_some_iff.mp hmap.symm
  refine ⟨outcome, houtcome, fun compiled index hc => ?_⟩
  -- what the call answers is the outcome with 64 bits, that is, the other one with wider values
  obtain ⟨wide', hwide', hcall⟩ := hfrom.call_eq hargs hc
  cases hwide.symm.trans hwide'
  rw [hcall]
  constructor
  · rintro values rfl
    rfl
  · rintro rfl
    exact ⟨_, rfl, rfl⟩

/-- A sum just below `2 ^ 32` is returned, and a sum that equals the first argument traps. -/
theorem agrees_with_i32_adding :
    ∃ c, Function.adding.compile = .ok c ∧
      (∀ a ∈ [0xfffffff0, 4], UInt64.toNat a < 2 ^ 32) ∧
      Function.adding.additions [(0xfffffff0 : UInt32), 4] = [(0xfffffff0, 4), (0xfffffff0, 4)] ∧
      (⟨[c], .empty⟩ : CompiledModule).call 0 [0xfffffff0, 4] = .ok [0xfffffff4] ∧
      ∃ err, (⟨[c], .empty⟩ : CompiledModule).call 0 [3, 0] = .error err ∧
        err.kind? = some .unreachable := by
  obtain ⟨c, hc⟩ := Function.exists_compile (f := Function.adding) (n := 4) (by decide)
  have hsmall : ∀ a ∈ [0xfffffff0, 4], UInt64.toNat a < 2 ^ 32 := by simp
  -- the additions are evaluated first, so that the bounds are about numbers only
  have hadded : Function.adding.additions [(0xfffffff0 : UInt32), 4] =
      [(0xfffffff0, 4), (0xfffffff0, 4)] := by decide
  have hadded' : Function.adding.additions [(3 : UInt32), 0] = [(3, 0)] := by decide
  have hreturned := agrees_with_i32 hc [0xfffffff0, 4] rfl hsmall (by simp [hadded])
  have htrapped := agrees_with_i32 hc [3, 0] rfl (by simp) (by simp [hadded'])
  obtain ⟨_, houtcome, hcall⟩ := hreturned
  obtain ⟨_, houtcome', hcall'⟩ := htrapped
  have hreturn : Function.adding.interpret [(0xfffffff0 : UInt32), 4] =
      some (.returned [0xfffffff4]) := by decide
  have htrap : Function.adding.interpret [(3 : UInt32), 0] = some .trapped := by decide
  cases hreturn.symm.trans houtcome
  cases htrap.symm.trans houtcome'
  exact ⟨c, hc, hsmall, hadded, (hcall ⟨[c], .empty⟩ 0 rfl).1 _ rfl,
    (hcall' ⟨[c], .empty⟩ 0 rfl).2 rfl⟩

end CompiledFunction

end WasmJit
