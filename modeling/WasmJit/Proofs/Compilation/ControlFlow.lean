import WasmJit.CompiledModule
import WasmJit.Proofs.Compilation.Invariant
import WasmJit.Proofs.Machine.Runs

/-!
# Control flow of compiled functions

In the code of a compiled function every jump goes forward to a label, and the last instruction is a
return. So each instruction is executed at most once, and whatever the slots, the flags and the
registers hold at the start, every run ends: it arrives at a return, and the instruction it executed
right before stored a known status.

* `CompiledFunction.From.forward` collects what is known about the code of a compiled function.
* `CompiledFunction.halts_with_status` is the result about its runs.
-/

namespace WasmJit

open Emitter

/-! ### The start of a call -/

/-- **A machine at the start of a call** on `size` slots. Its slots, its flag, its status and all
registers but one are arbitrary; those of the pool hold numbers. -/
structure Machine.Entered (size : Nat) (m : Machine) : Prop where
  record : m.get .callRecord = .callRecord
  words : ∀ r, r ∈ Register.pool → ∃ w, m.word? r = some w
  size_eq : m.slots.size = size

namespace Machine.Entered

variable {m : Machine} {size : Nat}

/-- The first instruction finds the slots through the call record. -/
theorem step_first (h : m.Entered size) :
    m.step (.load .callRecord 0 .valueStack) = some (m.set .valueStack .valueStack, .next) := by
  simp [step, load, h.record, slotsOffset]

/-- After the first instruction, emitted code can be executed. -/
theorem ready (h : m.Entered size) : (m.set .valueStack .valueStack).Ready where
  record := by rw [get_set_of_ne (by decide), h.record]
  base := get_set_self m _ _
  words r hr := by
    rw [word?_set_of_ne (Ne.symm (valueStack_ne_of_mem_pool hr))]
    exact h.words r hr

end Machine.Entered

/-! ### The code -/

/-- There are at least as many slots as the greatest height of the operand stack. -/
theorem CompiledFunction.ceiling_le_numSlots (c : CompiledFunction) : c.ceiling ≤ c.numSlots := by
  unfold numSlots
  split <;> omega

/-- A call starts on all slots: the arguments, and zeros for the rest. -/
theorem CompiledFunction.size_slots_entry (c : CompiledFunction) (args : List UInt64) :
    (c.entry args).slots.size = c.numSlots := by
  change ((args ++ List.replicate (c.numSlots - args.length) 0).take c.numSlots).toArray.size = _
  simp only [List.size_toArray, List.length_take, List.length_append, List.length_replicate]
  omega

/-- A call starts on a machine whose registers are cleared, apart from the one that holds the call
record. -/
theorem CompiledFunction.entered_entry (c : CompiledFunction) (args : List UInt64) :
    (c.entry args).Entered c.numSlots where
  record := Machine.get_set_self _ _ _
  words r hr := by
    refine ⟨0, ?_⟩
    have hne : r ≠ .callRecord := Ne.symm (Machine.callRecord_ne_of_mem_pool hr)
    change (Machine.set _ _ _).word? r = _
    rw [Machine.word?_set_of_ne hne, Machine.word?,
      Machine.get_eq_getElem _ r r.number.toNat_lt, Vector.getElem_replicate]
  size_eq := c.size_slots_entry args

/-- The position behind a jump that is not pending: it is that of a label further on, since a jump
is emitted before the label it is given. -/
theorem Emitter.Linked.exists_resolve {e : Emitter} (h : e.Linked []) {q j : Nat} {b : Branch}
    (hq : e.code[q]? = some (.jump b j)) :
    ∃ label, e.resolve j = some label ∧ q < label ∧ e.code[label]? = some .label := by
  obtain ⟨x, hx, rfl⟩ := h.jumps q b j hq
  cases htarget : x.target with
  | none => cases (h.mem_pending j).mpr ⟨x, hx, htarget⟩
  | some label =>
    refine ⟨label, ?_, h.targets j x label hx htarget⟩
    rw [resolve, hx, Option.bind_some, htarget]

/-- The emitted instruction behind an instruction of the program. -/
theorem Emitter.exists_of_resolved {e : Emitter} {q : Nat} {i : Instr (Option Nat)}
    (h : e.resolved[q]? = some i) :
    ∃ i', e.code[q]? = some i' ∧ i'.mapTarget e.resolve = i := by
  rw [getElem?_resolved] at h
  exact Option.map_eq_some_iff.mp h

namespace CompiledFunction.From

variable {c : CompiledFunction} {f : Function} {t : Compilation}

/-- **The code of a compiled function keeps to its sandbox and goes forward.** Each part is known of
the emitted code from soundness; resolving the jumps changes neither the positions nor any other
instruction. -/
theorem forward (h : c.From f t) : c.program.Forward f.numLocals c.numSlots := by
  have hceil : t.emitter.stack.ceiling ≤ c.numSlots := by
    rw [← h.ceiling]
    exact c.ceiling_le_numSlots
  have hguarded := h.sound.guarded
  rw [h.program]
  refine ⟨fun q b target hq => ?_, ?_, fun q i hpos hq => ?_, fun q hq => ?_, ?_⟩
  · -- a jump of the program is one of the emitted jumps, all of which have landed
    obtain ⟨i, hi, he⟩ := exists_of_resolved hq
    cases i with
    | jump b' j =>
      cases he
      obtain ⟨label, hresolve, hlt, hlabel⟩ := h.linked.exists_resolve hi
      refine ⟨label, hresolve, hlt, ?_⟩
      rw [getElem?_resolved, hlabel]
      rfl
    | _ => cases he
  · rw [getElem?_resolved, hguarded.first]
    rfl
  · -- the sandbox of the emitted code has room up to the greatest height
    obtain ⟨i', hi', rfl⟩ := exists_of_resolved hq
    rw [Instr.sandboxed_mapTarget]
    exact (hguarded.sandboxed q i' hpos hi').mono hceil
  · -- a return was emitted together with the store of the status
    obtain ⟨i, hi, he⟩ := exists_of_resolved hq
    cases i with
    | ret =>
      obtain ⟨q', v, rfl, hq'⟩ := hguarded.returns q hi
      refine ⟨q', v, rfl, ?_⟩
      rw [getElem?_resolved, hq']
      rfl
    | _ => cases he
  · -- the function body has ended, with the code that returns
    rw [Array.back?_eq_getElem?, getElem?_resolved]
    have hback := h.sound.ended h.closed
    rw [Array.back?_eq_getElem?] at hback
    simp only [resolved, Array.size_map, hback]
    rfl

end CompiledFunction.From

/-! ### Runs -/

/-- Storing the status and returning, once execution has arrived there. Its fuel lets a run have as
many instructions as the program, which is enough for one that only goes forward. -/
theorem Program.run_eq {p : Program} {n q : Nat} {v : Int} {m m' : Machine} (hp : p.JumpsForward)
    (h : p.Runs n 0 m q m') (hm : m'.Ready) (hstore : p[q]? = some (.storeByte v .callRecord 8))
    (hret : p[q + 1]? = some .ret) :
    n + 2 ≤ p.size ∧ p.run m = some { m' with status := UInt8.ofInt v } := by
  have hle := h.add_le hp
  have hlt : q + 1 < p.size := (Array.getElem?_eq_some_iff.mp hret).1
  refine ⟨by omega, ?_⟩
  -- positions only grow, so the run and the two last instructions fit into the fuel
  obtain ⟨fuel, hfuel⟩ : ∃ fuel, p.size = n + (fuel + 2) := ⟨p.size - n - 2, by omega⟩
  unfold run
  rw [hfuel, h.exec_eq]
  simp only [exec, hstore, hret, Machine.step_storeByte hm v]
  rfl

/-- **Every run of a compiled function ends properly.** All jumps go forward to labels and the last
instruction is a return, so on no machine at all can a run leave the code or be longer than it. From
any machine at the start of a call, `n` instructions lead to one that stores the status, which is
`returned` or `unreachable`; the next one returns, within as many instructions as there are. -/
theorem CompiledFunction.halts_with_status {f : Function} {c : CompiledFunction}
    (h : f.compile = .ok c) :
    c.program.JumpsForward ∧ c.program.back? = some .ret ∧
      (∀ n m q m', c.program.Runs n 0 m q m' → n ≤ q ∧ q < c.program.size) ∧
      ∀ m : Machine, m.Entered c.numSlots → ∃ n q m₁ m₂, ∃ s : Status,
        c.program.Runs n 0 m q m₁ ∧
          c.program[q]? = some (.storeByte s.code.toNat .callRecord 8) ∧
          m₁.step (.storeByte s.code.toNat .callRecord 8) = some (m₂, .next) ∧
          c.program[q + 1]? = some .ret ∧ n + 2 ≤ c.program.size ∧
          c.program.run m = some m₂ ∧ m₂.status = s.code ∧ (s = .returned ∨ s = .unreachable) := by
  obtain ⟨t, hfrom⟩ := Function.exists_from h
  have hp := hfrom.forward
  have hpos : 0 < c.program.size := (Array.getElem?_eq_some_iff.mp hp.first).1
  refine ⟨hp.jumps, hp.last, fun n m q m' hruns => ⟨hruns.add_le hp.jumps, hp.lt_size hruns hpos⟩,
    fun m hm => ?_⟩
  -- the first instruction makes the machine ready, and what follows it is no return
  obtain ⟨i, hi⟩ := hp.exists_next hp.first (by simp)
  have hne : i ≠ .ret := by
    rintro rfl
    obtain ⟨q, v, hq, hstore⟩ := hp.returns 1 hi
    obtain rfl : q = 0 := by omega
    rw [hp.first] at hstore
    cases hstore
  obtain ⟨n, q, v, m₁, hruns, hready, hstore, hret⟩ :=
    hp.exists_runs (Nat.succ_pos 0) hi hne hm.ready (Nat.le_of_eq hm.size_eq.symm)
  -- put in front of it, the first instruction gives a run from the start
  have hrun := Program.Runs.next hp.first hm.step_first hruns
  obtain ⟨hsize, hend⟩ := Program.run_eq hp.jumps hrun hready hstore hret
  have hq : 0 < q := by
    have := hruns.add_le hp.jumps
    omega
  -- the sandbox knows two values for the status byte
  obtain ⟨-, -, hv⟩ := hp.sandboxed q _ hq hstore
  rcases hv with rfl | rfl
  · exact ⟨_, q, m₁, _, .returned, hrun, hstore, Machine.step_storeByte hready 0, hret, hsize, hend,
      rfl, .inl rfl⟩
  · exact ⟨_, q, m₁, _, .unreachable, hrun, hstore, Machine.step_storeByte hready 1, hret, hsize,
      hend, rfl, .inr rfl⟩

/-- A call of a function whose block can be left in several ways. -/
theorem CompiledFunction.halts_with_status_leaving :
    ∃ c m, Function.leaving.compile = .ok c ∧ (c.entry [3, 4]).Entered c.numSlots ∧
      c.program.run (c.entry [3, 4]) = some m ∧
      (m.status = Status.returned.code ∨ m.status = Status.unreachable.code) := by
  obtain ⟨c, hc⟩ := Function.exists_compile_leaving
  obtain ⟨-, -, -, hruns⟩ := CompiledFunction.halts_with_status hc
  have hentered := c.entered_entry [3, 4]
  obtain ⟨-, -, -, m, s, -, -, -, -, -, hrun, hstatus, hs⟩ := hruns _ hentered
  refine ⟨c, m, hc, hentered, hrun, ?_⟩
  rw [hstatus]
  exact hs.imp (congrArg Status.code) (congrArg Status.code)

end WasmJit
