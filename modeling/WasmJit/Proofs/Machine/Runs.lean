import WasmJit.Proofs.Machine.Sandbox

/-!
# Runs of a program

`Program.Runs p n pc m pc' m'` says that `n` instructions of `p`, executed one after the other from
position `pc` and machine `m` on, lead to position `pc'` and machine `m'`; none of them returns.
Runs compose, and what is left to be executed after a run does not depend on how it went
(`Program.Runs.exec_eq`).

If every jump goes forward, a run never visits a position twice (`Program.Runs.add_le`), so a
program has enough fuel if it has as much as it has instructions. If it also ends with a return,
no run goes past its end (`Program.Forward.lt_size`). A program all of whose instructions are
sandboxed and whose jumps go forward to labels always arrives at a return, and the last instruction
before it stores the status (`Program.Forward.exists_runs`).
-/

namespace WasmJit

/-- **Only a jump goes anywhere but to the next instruction.** All others either fall through or get
stuck, and a return halts. -/
theorem Machine.eq_jump_of_step {m m' : Machine} {i : Instr (Option Nat)} {t : Nat}
    (h : m.step i = some (m', .goto t)) : ∃ b, i = .jump b (some t) := by
  -- only a jump that is taken goes anywhere else than to the next instruction
  cases i with
  | jump b target =>
    simp only [step] at h
    split at h
    · obtain ⟨t', rfl, ht'⟩ := Option.map_eq_some_iff.mp h
      cases ht'
      exact ⟨b, rfl⟩
    · cases h
  | setIf condition dst =>
    simp only [step] at h
    split at h
    · cases h
    · simp [Option.bind_eq_some_iff] at h
  | _ => simp [step, Option.bind_eq_some_iff] at h

namespace Program

/-- **A run**: `n` instructions lead from position `pc` and machine `m` to position `pc'` and
machine `m'`. It is a relation and not the execution itself, so a run can be cut anywhere and there
is no need to say how much fuel is left. -/
inductive Runs (p : Program) : (n pc : Nat) → Machine → (pc' : Nat) → Machine → Prop
  | refl (pc : Nat) (m : Machine) : Runs p 0 pc m pc m
  | next {n pc pc' : Nat} {m m₁ m' : Machine} {i : Instr (Option Nat)} (fetch : p[pc]? = some i)
      (step : m.step i = some (m₁, .next)) (rest : Runs p n (pc + 1) m₁ pc' m') :
      Runs p (n + 1) pc m pc' m'
  | goto {n pc pc' target : Nat} {m m₁ m' : Machine} {i : Instr (Option Nat)}
      (fetch : p[pc]? = some i) (step : m.step i = some (m₁, .goto target))
      (rest : Runs p n target m₁ pc' m') : Runs p (n + 1) pc m pc' m'

namespace Runs

variable {p : Program} {n k pc pc' pc'' : Nat} {m m' m'' : Machine}

/-- Runs compose, and so do the numbers of their instructions. -/
theorem trans (h : p.Runs n pc m pc' m') (h' : p.Runs k pc' m' pc'' m'') :
    p.Runs (n + k) pc m pc'' m'' := by
  induction h with
  | refl => simpa using h'
  | next fetch step _ ih =>
    rw [Nat.succ_add]
    exact .next fetch step (ih h')
  | goto fetch step _ ih =>
    rw [Nat.succ_add]
    exact .goto fetch step (ih h')

/-- **What is left to be executed after a run does not depend on how it went.** This is how runs are
turned into executions: a run to a return is followed by one step that halts. -/
theorem exec_eq (h : p.Runs n pc m pc' m') (fuel : Nat) :
    p.exec (n + fuel) pc m = p.exec fuel pc' m' := by
  induction h with
  | refl => rw [Nat.zero_add]
  | next fetch step _ ih =>
    rw [Nat.succ_add]
    simp only [exec, fetch, step]
    exact ih
  | goto fetch step _ ih =>
    rw [Nat.succ_add]
    simp only [exec, fetch, step]
    exact ih

end Runs

/-! ### Forward programs -/

/-- **Every jump goes forward to a label.** -/
def JumpsForward (p : Program) : Prop :=
  ∀ (q : Nat) b target, p[q]? = some (.jump b target) →
    ∃ t, target = some t ∧ q < t ∧ p[t]? = some .label

/-- **If jumps go forward, no position is visited twice**: every instruction leads to a later
position, so a run of `n` instructions ends at least `n` positions further on. -/
theorem Runs.add_le {p : Program} {n pc pc' : Nat} {m m' : Machine} (hp : p.JumpsForward)
    (h : p.Runs n pc m pc' m') : n + pc ≤ pc' := by
  induction h with
  | refl => omega
  | next => omega
  | goto fetch step _ ih =>
    obtain ⟨b, rfl⟩ := Machine.eq_jump_of_step step
    obtain ⟨t, ht, hlt, -⟩ := hp _ b _ fetch
    cases ht
    omega

/-- **A program that keeps to its sandbox and goes forward.** After its first instruction, all are
sandboxed for a value stack of `size` slots, and a return stands behind the instruction that stores
the status and at the end. -/
structure Forward (p : Program) (numLocals size : Nat) : Prop where
  jumps : p.JumpsForward
  first : p[0]? = some (.load .callRecord 0 .valueStack)
  sandboxed : ∀ (q : Nat) i, 0 < q → p[q]? = some i → i.Sandboxed numLocals size
  returns : ∀ q : Nat, p[q]? = some .ret →
    ∃ q' v, q = q' + 1 ∧ p[q']? = some (.storeByte v .callRecord 8)
  last : p.back? = some .ret

namespace Forward

variable {p : Program} {numLocals size pc : Nat} {m : Machine} {i : Instr (Option Nat)}

/-- An instruction that does not return is followed by another one, since the last one returns. -/
theorem exists_next (hp : p.Forward numLocals size) (hi : p[pc]? = some i) (hne : i ≠ .ret) :
    ∃ i', p[pc + 1]? = some i' := by
  have hpc : pc < p.size := (Array.getElem?_eq_some_iff.mp hi).1
  -- the last instruction is a return
  have hlast : pc ≠ p.size - 1 := by
    rintro rfl
    have := hp.last
    rw [Array.back?_eq_getElem?, hi] at this
    exact hne (Option.some.inj this)
  exact ⟨p[pc + 1], Array.getElem?_eq_getElem (by omega)⟩

/-- **A run does not leave the program**, on whatever machine. Falling through leads to the next
instruction and a jump to a label, both of which exist. -/
theorem lt_size {n pc' : Nat} {m' : Machine} (hp : p.Forward numLocals size)
    (h : p.Runs n pc m pc' m') (hpc : pc < p.size) : pc' < p.size := by
  induction h with
  | refl => exact hpc
  | @next _ _ _ _ _ _ i fetch step _ ih =>
    -- a return has no successor
    have hne : i ≠ .ret := by
      rintro rfl
      cases step
    obtain ⟨i', hi'⟩ := hp.exists_next fetch hne
    exact ih (Array.getElem?_eq_some_iff.mp hi').1
  | goto fetch step _ ih =>
    obtain ⟨b, rfl⟩ := Machine.eq_jump_of_step step
    obtain ⟨t, ht, -, hlabel⟩ := hp.jumps _ b _ fetch
    cases ht
    exact ih (Array.getElem?_eq_some_iff.mp hlabel).1

/-- **Wherever execution stands, it arrives in front of a return**, at an instruction that stores
the status. A sandboxed instruction is always executed, and execution only goes forward, so it
cannot but end; and the only way to end is a return, in front of which the status is stored. -/
theorem exists_runs (hp : p.Forward numLocals size) (hpc : 0 < pc) (hi : p[pc]? = some i)
    (hne : i ≠ .ret) (hm : m.Ready) (hsize : size ≤ m.slots.size) :
    ∃ n q v m', p.Runs n pc m q m' ∧ m'.Ready ∧ p[q]? = some (.storeByte v .callRecord 8) ∧
      p[q + 1]? = some .ret := by
  -- execution goes forward, so the rest of the program gets smaller
  induction hk : p.size - pc using Nat.strongRecOn generalizing pc m i with
  | ind k ih =>
    have hlt : pc < p.size := (Array.getElem?_eq_some_iff.mp hi).1
    -- the instruction is executed: jumps have targets, and nothing else can go wrong
    obtain ⟨m₁, flow, hstep, hready, hsize₁, hhalt, hgoto⟩ :=
      hm.step_sandboxed (hp.sandboxed pc i hpc hi) hsize fun b target he => by
        subst he
        obtain ⟨t, rfl, -⟩ := hp.jumps pc b target hi
        rfl
    cases flow with
    | halt => exact absurd (hhalt rfl).1 hne
    | next =>
      obtain ⟨i', hi'⟩ := hp.exists_next hi hne
      by_cases hret : i' = .ret
      · -- a return follows, so this instruction is the one that stores the status
        subst hret
        obtain ⟨q, v, hq, hstore⟩ := hp.returns (pc + 1) hi'
        obtain rfl : pc = q := by omega
        exact ⟨0, pc, v, m, .refl pc m, hm, hstore, hi'⟩
      · obtain ⟨n, q, v, m', hruns, hend⟩ := ih (p.size - (pc + 1)) (by omega) (by omega) hi' hret
          hready (by omega) rfl
        exact ⟨n + 1, q, v, m', .next hi hstep hruns, hend⟩
    | goto t =>
      obtain ⟨b, rfl⟩ := hgoto t rfl
      obtain ⟨t', ht', hpt, hlabel⟩ := hp.jumps pc b _ hi
      cases ht'
      obtain ⟨n, q, v, m', hruns, hend⟩ := ih (p.size - t) (by omega) (by omega) hlabel (by simp)
        hready (by omega) rfl
      exact ⟨n + 1, q, v, m', .goto hi hstep hruns, hend⟩

end Forward

end Program

end WasmJit
