import WasmJit.Proofs.Compilation.ControlFlow
import WasmJit.Proofs.Correctness.Simulation
import WasmJit.Proofs.Correctness.Structured

/-!
# Calls return what the reference interpreter computes

A function means what the reference interpreter makes of its decoded body, with the arguments and
then zeros as locals (`Function.interpret`). The code of a compiled function, executed on a value
stack that starts with the arguments, ends in the same way: it stores the status that belongs to the
outcome and leaves the results in the slots above the locals. Flags and registers may hold anything
at the start.

* `CompiledFunction.agrees_with_interpret` is the correctness of compiled functions and of calls.
-/

namespace WasmJit

namespace Function

variable {α : Type} [OfNat α 0]

/-- The parameters and locals at the start of a call. -/
def initialLocals (f : Function) (args : List α) : List α :=
  args ++ List.replicate f.code.numLocals.toNat 0

/-- **The meaning of a function** on values of any width: the outcome of its body, if it decodes. -/
def interpret [Add α] [OfNat α 1] [DecidableEq α] (f : Function) (args : List α) :
    Option (Reference.Outcome α) :=
  match (disassemble f.code.body).fault with
  | some _ => none
  | none => Reference.run f.type.results.length (f.initialLocals args) f.instructions

end Function

/-- What a call answers when its function comes to an outcome. -/
def Reference.Outcome.answer : Reference.Outcome UInt64 → Except CallError (List UInt64)
  | .returned values => .ok values
  | .trapped => .error (.fault .unreachable)

namespace Reference.Outcome

variable {outcome : Outcome UInt64}

/-- A call returns values only if its function does, and then the same ones. -/
theorem answer_eq_ok_iff {values : List UInt64} :
    outcome.answer = .ok values ↔ outcome = .returned values := by
  cases outcome <;> simp [answer]

/-- A call reports a trap only if its function traps: no other outcome is an error. -/
theorem exists_answer_eq_error_iff :
    (∃ err, outcome.answer = .error err ∧ err.kind? = some .unreachable) ↔ outcome = .trapped := by
  cases outcome with
  | returned values => simp [answer]
  | trapped => simp [answer, CallError.kind?, Status.unreachable]

end Reference.Outcome

namespace CompiledFunction

/-- The outcome that a machine shows after its code was executed. -/
def outcome? (c : CompiledFunction) (m : Machine) : Option (Reference.Outcome UInt64) :=
  if m.status = Status.returned.code then some (.returned (c.results m.slots))
  else if m.status = Status.unreachable.code then some .trapped
  else none

/-! ### The start of a call -/

variable {f : Function} {c : CompiledFunction} {t : Compilation} {args : List UInt64} {m : Machine}

/-- The first slots hold the parameters and locals: the arguments as they are, then zeros. The slots
above the locals are zeros, too, but nothing depends on it. -/
theorem getElem?_slots {size i : Nat} (hi : i < (f.initialLocals args).length)
    (hsize : (f.initialLocals args).length ≤ size) :
    (slots size args)[i]? = (f.initialLocals args)[i]? := by
  rw [Function.initialLocals, List.length_append, List.length_replicate] at hi hsize
  rw [slots, Function.initialLocals, List.getElem?_toArray, List.getElem?_take_of_lt (by omega)]
  -- an argument, or a zero from both sides
  by_cases hlt : i < args.length
  · rw [List.getElem?_append_left hlt, List.getElem?_append_left hlt]
  · have hle : args.length ≤ i := by omega
    rw [List.getElem?_append_right hle, List.getElem?_append_right hle,
      List.getElem?_replicate_of_lt (by omega), List.getElem?_replicate_of_lt (by omega)]

/-- With the right number of arguments there is a value for each parameter and local. -/
theorem length_initialLocals (hargs : args.length = f.type.params.length) :
    (f.initialLocals args).length = f.numLocals := by
  rw [Function.initialLocals, List.length_append, List.length_replicate, hargs, Function.numLocals]

theorem From.numLocals_le (h : c.From f t) : f.numLocals ≤ c.numSlots := by
  have hsource : c.numLocals = f.numLocals := by rw [CompiledFunction.numLocals, h.source]
  unfold numSlots
  rw [hsource]
  split <;> omega

/-- At the start the parameters and locals are in their slots, and nothing else is on the stack. So
the call simulates the interpreter in front of its first instruction, which is where
`Simulates.steps` takes over. -/
theorem From.simulates_start (h : c.From f t) (hargs : args.length = f.type.params.length)
    (hm : m.Entered c.numSlots) (hslots : m.slots = slots c.numSlots args) :
    (⟨t.emitter, m, f.initialLocals args⟩ : Call).Simulates
      (Compilation.start f) ⟨[], [⟨f.type.results.length, 0⟩], .running⟩ := by
  have hlocals := length_initialLocals hargs
  obtain ⟨-, hheight, -, hplaced⟩ := OperandStack.Consistent.start f.numLocals
  have hstack : (Compilation.start f).emitter.stack =
      OperandStack.empty.pushSlots f.numLocals := rfl
  have hsize : t.emitter.stack.ceiling ≤ m.slots.size := by
    rw [hm.size_eq, ← h.ceiling]
    exact c.ceiling_le_numSlots
  -- the first instruction has loaded the address of the value stack
  have hfirst : t.emitter.resolved[0]? = some (.load .callRecord 0 .valueStack) := by
    rw [Emitter.getElem?_resolved, h.sound.guarded.first]
    rfl
  have hrun := Program.Runs.next hfirst hm.step_first (.refl 1 _)
  refine .running (by simp) (.cons ⟨rfl, hlocals.symm⟩ .nil) (?_ : Call.Running _
    (Compilation.start f).emitter [])
  rw [← hstack] at hheight hplaced
  refine ⟨hheight.trans hlocals.symm, fun i hi k hk => ?_, _, ⟨⟨1, hrun⟩, hsize⟩, hm.ready,
    fun i hi p hp => ?_⟩
  · -- no operand stands for a local, as they are all in slots
    rw [hheight] at hi
    rw [hplaced i hi] at hk
    cases hk
  · rw [hheight] at hi
    rw [hplaced i hi] at hp
    cases hp
    have hlt : i < (f.initialLocals args).length := hlocals.symm ▸ hi
    have hread := getElem?_slots hlt (hlocals.symm ▸ h.numLocals_le)
    rw [← hslots, List.getElem?_eq_getElem hlt] at hread
    rw [Reference.valueAt_local (List.getElem?_eq_getElem hlt)]
    exact hread

/-! ### The end of a call -/

/-- A status that is stored as a number is read back. -/
theorem ofInt_toNat (b : UInt8) : UInt8.ofInt (b.toNat : Int) = b := by
  have hlt : b.toNat < 2 ^ 8 := b.toNat_lt
  have hmod : ((b.toNat : Int) % 2 ^ 8).toNat = b.toNat := by omega
  rw [UInt8.ofInt, hmod, UInt8.ofNat_toNat]

/-- Code that leaves with a status is executed to its end, which stores the status and returns. The
slots stay as they are. -/
theorem From.run_of_leaves (h : c.From f t) {locals values : List UInt64} {status : Status}
    (hleaves : (⟨t.emitter, m, locals⟩ : Call).Leaves status values) :
    ∃ m', c.program.run m = some m' ∧ m'.status = status.code ∧
      ∀ i v, values[i]? = some v → m'.slots[locals.length + i]? = some v := by
  obtain ⟨q, m', ⟨⟨n, hruns⟩, -⟩, hready, hstore, hret, hvalues⟩ := hleaves
  -- the exit sequence is the same after the jumps were resolved
  have hprogram := h.program
  have hstore' : c.program[q]? = some (.storeByte status.code.toNat .callRecord 8) := by
    rw [hprogram, Emitter.getElem?_resolved, hstore]
    rfl
  have hret' : c.program[q + 1]? = some .ret := by
    rw [hprogram, Emitter.getElem?_resolved, hret]
    rfl
  obtain ⟨-, hrun⟩ := Program.run_eq h.forward.jumps (hprogram ▸ hruns) hready hstore' hret'
  exact ⟨_, hrun, ofInt_toNat status.code, hvalues⟩

/-- The results of a call are the values that were left in the slots above the locals, one by one.
-/
theorem From.results_eq (h : c.From f t) {slots : Array UInt64} {values : List UInt64}
    (hlength : values.length = f.type.results.length)
    (hvalues : ∀ i v, values[i]? = some v → slots[f.numLocals + i]? = some v) :
    c.results slots = values := by
  have hsource := h.source
  refine List.ext_getElem (by simp [results, hsource, hlength]) fun i _ hi => ?_
  have hslot := hvalues i _ (List.getElem?_eq_getElem hi)
  simp only [results, List.getElem_map, List.getElem_range, CompiledFunction.numLocals, hsource,
    Array.getD_eq_getD_getElem?, hslot, Option.getD_some]

/-- **The code of a function and the interpreter come to the same outcome.** The simulation is
followed from the start of the call through all instructions of the body; at its end the code has
left, with the results if it was not trapped before. -/
theorem From.run_agrees (h : c.From f t) (hargs : args.length = f.type.params.length)
    (hm : m.Entered c.numSlots) (hslots : m.slots = slots c.numSlots args) :
    ∃ outcome m', f.interpret args = some outcome ∧ c.program.run m = some m' ∧
      c.outcome? m' = some outcome := by
  have hlocals := length_initialLocals hargs
  -- the interpreter never gets stuck on the instructions of an accepted body
  obtain ⟨r, hfold, hsim⟩ := (h.simulates_start hargs hm hslots).steps
    (hlocals.symm ▸ Compilation.sound_start f) (hlocals.symm ▸ h.steps) (.refl _)
  have hinterpret : f.interpret args = r.outcome? := by
    unfold Function.interpret Reference.run
    rw [h.decoded]
    dsimp only at hfold ⊢
    rw [hfold]
    rfl
  rw [hinterpret]
  rcases hsim.outcome h.closed with ⟨values, hvalues, hleaves, hheight⟩ | ⟨htrapped, hleaves⟩
  · obtain ⟨m', hrun, hstatus, hslots'⟩ := h.run_of_leaves hleaves
    dsimp only at hheight
    rw [hlocals] at hslots' hheight
    -- at the end of the body nothing but the results is above the locals
    have hlength : values.length = f.type.results.length := by
      have hnested := h.sound.nested
      rw [h.closed] at hnested
      have := hnested.height_eq
      omega
    refine ⟨_, m', hvalues, hrun, ?_⟩
    rw [outcome?, if_pos hstatus, h.results_eq hlength hslots']
  · -- after a trap no results are looked at
    obtain ⟨m', hrun, hstatus, -⟩ := h.run_of_leaves hleaves
    refine ⟨_, m', htrapped, hrun, ?_⟩
    rw [outcome?, hstatus]
    rfl

/-- **A call answers with the outcome of the interpreter.** The number of arguments is checked
first, and is right. -/
theorem From.call_eq (h : c.From f t) (hargs : args.length = f.type.params.length)
    {compiled : CompiledModule} {index : Nat} (hc : compiled.functions[index]? = some c) :
    ∃ outcome, f.interpret args = some outcome ∧ compiled.call index args = outcome.answer := by
  obtain ⟨outcome, m, hinterpret, hrun, hout⟩ := h.run_agrees hargs (c.entered_entry args) rfl
  refine ⟨outcome, hinterpret, ?_⟩
  rw [← h.source] at hargs
  -- the function exists and has the right number of arguments, so it is executed
  simp only [CompiledModule.call, hc, hargs, if_true, CompiledModule.execute, hrun]
  unfold outcome? at hout
  -- the status decides between the two outcomes, as it does between the two answers
  split at hout
  · next hstatus =>
    cases hout
    exact if_pos hstatus
  · next hne =>
    rw [if_neg hne]
    split at hout
    · next hstatus =>
      cases hout
      rw [hstatus]
      rfl
    · cases hout

/-- A call returns as many values as the function has results, whatever its arguments are. -/
theorem From.length_of_call (h : c.From f t) {compiled : CompiledModule} {index : Nat}
    (hc : compiled.functions[index]? = some c) {values : List UInt64}
    (hcall : compiled.call index args = .ok values) :
    values.length = f.type.results.length := by
  simp only [CompiledModule.call, hc] at hcall
  -- only the last of these cases is a success
  split at hcall
  · unfold CompiledModule.execute at hcall
    split at hcall
    · cases hcall
    · split at hcall
      · cases hcall
        rw [results, List.length_map, List.length_range, h.source]
      · cases hcall
  · cases hcall

/-- **Compiled functions are correct.** Called with as many arguments as it has parameters, an
accepted function has a meaning, which is that of structured evaluation if its constructs are
properly nested. From any machine at the start of a call, with the arguments in the first slots and
zeros in the others, its code comes to the same outcome. So a call returns exactly the values that
the interpreter returns, and fails with `unreachable` exactly when the interpreter traps. -/
theorem agrees_with_interpret (h : f.compile = .ok c) (args : List UInt64)
    (hargs : args.length = f.type.params.length) :
    ∃ outcome, f.interpret args = some outcome ∧
      (∀ code : Reference.Code, f.instructions = code.flatten ++ [.end_] →
        code.outcome? f.type.results.length (f.initialLocals args) = some outcome) ∧
      (∀ m : Machine, m.Entered c.numSlots → m.slots = slots c.numSlots args →
        ∃ m', c.program.run m = some m' ∧ c.outcome? m' = some outcome) ∧
      ∀ (compiled : CompiledModule) index, compiled.functions[index]? = some c →
        (∀ values, compiled.call index args = .ok values ↔ outcome = .returned values) ∧
        ((∃ err, compiled.call index args = .error err ∧ err.kind? = some .unreachable) ↔
          outcome = .trapped) := by
  obtain ⟨t, hfrom⟩ := Function.exists_from h
  obtain ⟨outcome, -, hinterpret, -, -⟩ := hfrom.run_agrees hargs (c.entered_entry args) rfl
  refine ⟨outcome, hinterpret, fun code hcode => ?_, fun m' hm' hslots => ?_,
    fun compiled index hc => ?_⟩
  · rw [Function.interpret, hfrom.decoded] at hinterpret
    -- the interpreter reads the instructions of structured code
    rw [← Reference.run_flatten, ← hcode]
    exact hinterpret
  · -- the outcome is that of the interpreter, which knows no machine
    obtain ⟨outcome', m'', hinterpret', hrun', hout'⟩ := hfrom.run_agrees hargs hm' hslots
    obtain rfl : outcome = outcome' := Option.some.inj (hinterpret.symm.trans hinterpret')
    exact ⟨m'', hrun', hout'⟩
  · -- and so is the outcome that a call answers with
    obtain ⟨outcome', hinterpret', hcall⟩ := hfrom.call_eq hargs hc
    obtain rfl : outcome = outcome' := Option.some.inj (hinterpret.symm.trans hinterpret')
    rw [hcall]
    exact ⟨fun _ => Reference.Outcome.answer_eq_ok_iff,
      Reference.Outcome.exists_answer_eq_error_iff⟩

/-- Called with different arguments, the function returns from its block, or traps. -/
theorem agrees_with_interpret_leaving :
    ∃ c, Function.leaving.compile = .ok c ∧
      [3, 4].length = Function.leaving.type.params.length ∧
      [0, 4].length = Function.leaving.type.params.length ∧
      (∃ code : Reference.Code, Function.leaving.instructions = code.flatten ++ [.end_] ∧
        code.outcome? 1 [3, 4, 0] = some (.returned [4])) ∧
      (c.entry [3, 4]).Entered c.numSlots ∧
      (∃ m, c.program.run (c.entry [3, 4]) = some m ∧ c.outcome? m = some (.returned [4])) ∧
      (⟨[c], .empty⟩ : CompiledModule).call 0 [3, 4] = .ok [4] ∧
      ∃ err, (⟨[c], .empty⟩ : CompiledModule).call 0 [0, 4] = .error err ∧
        err.kind? = some .unreachable := by
  obtain ⟨c, hc⟩ := Function.exists_compile_leaving
  have hreturned : Function.leaving.interpret [3, 4] = some (.returned [(4 : UInt64)]) := by decide
  have htrapped : Function.leaving.interpret [(0 : UInt64), 4] = some .trapped := by decide
  obtain ⟨_, houtcome, hcode, hruns, hcalls⟩ := agrees_with_interpret hc [3, 4] rfl
  obtain ⟨_, houtcome', -, -, hcalls'⟩ := agrees_with_interpret hc [0, 4] rfl
  cases hreturned.symm.trans houtcome
  cases htrapped.symm.trans houtcome'
  have hbody : Function.leaving.instructions =
      (Reference.Code.block .i32 (.localGet 0 <| .localGet 1 <| .localGet 0 <| .eq <| .brIf 0 <|
        .ifElse .empty (.localGet 1 <| .br 1 .empty) (.unreachable .empty) <|
        .unreachable .empty) .empty).flatten ++ [.end_] := by decide
  have hentered := c.entered_entry [3, 4]
  exact ⟨c, hc, rfl, rfl, ⟨_, hbody, hcode _ hbody⟩, hentered, hruns _ hentered rfl,
    ((hcalls ⟨[c], .empty⟩ 0 rfl).1 [4]).mpr rfl, (hcalls' ⟨[c], .empty⟩ 0 rfl).2.mpr rfl⟩

end CompiledFunction

end WasmJit
