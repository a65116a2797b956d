import WasmJit.Proofs.Emission.Operations

/-!
# Emitting branches

Where code branches or comes together, all operands have to be in memory: only then do the ways that
meet at a label agree on where every operand is.

* `exists_jumpIfZero`: the condition is popped, the operands below it are flushed, and the emitted
  jump is taken exactly when the condition is zero (`Tested`).
* `exists_carry`: the topmost operands are copied into the result slots of a construct (`Carried`).
  No source lies below its destination, so copying upwards never overwrites an operand that is still
  to be copied. `carryWord_eq_carry` says when slots may be numbered with 64 bits.
-/

namespace WasmJit

namespace Emitter

open Machine (runCode Represents)

variable {numLocals : Nat} {s s' : OperandStack} {code : List (Instr Nat)}

/-! ### Jumps and labels -/

/-- The emitter after a pending jump was appended. -/
def withJump (e : Emitter) (kind : JumpKind) (b : Branch) : Emitter :=
  { e with
    fixups := e.fixups.push (.pending kind ⟨b, e.code.size⟩)
    code := e.code.push (.jump b e.fixups.size) }

@[simp] theorem stack_withJump (e : Emitter) (kind : JumpKind) (b : Branch) :
    (e.withJump kind b).stack = e.stack := rfl

/-! ### Conditions -/

/-- All operands below `height` are in memory. -/
def Settled (height : Nat) (s : OperandStack) : Prop :=
  ∀ i, i < height → ∃ p, s.placement? i = some p ∧ p.InMemory

/-- What is in memory is not in the flags, so most conditions on the flags hold by themselves. -/
theorem Settled.ne_flags {k i : Nat} (h : Settled k s) (hi : i < k) (c : Condition) :
    s.placement? i ≠ some (.flags c) := by
  intro hc
  obtain ⟨p, hp, hm⟩ := h i hi
  rw [hc] at hp
  cases hp
  exact hm

theorem Settled.flagsOnTop {k : Nat} (h : Settled k s) : s.FlagsOnTop k :=
  fun _ hi c hc => absurd hc (h.ne_flags hi c)

theorem Settled.onlyEqual {k : Nat} (h : Settled k s) : s.OnlyEqual k :=
  fun _ hi c hc => absurd hc (h.ne_flags hi c)

/-- With all operands in memory, no register is in use. -/
theorem Settled.used_eq_nil (h : Settled s.height s) (hc : s.Coherent numLocals s.height) :
    s.used = [] := by
  refine List.eq_nil_iff_forall_not_mem.mpr fun r hr => ?_
  -- a register that is in use would be held by an operand that is not in memory
  obtain ⟨i, hi, hp⟩ := (hc.mem_used r).mp hr
  obtain ⟨p, hp', hm⟩ := h i hi
  rw [hp] at hp'
  cases hp'
  exact hm

/-- So a register for copying is always free. -/
theorem Settled.exists_free (h : Settled s.height s) (hc : s.Coherent numLocals s.height) :
    ∃ r, s.freeRegister? = some r :=
  ⟨.ax, by rw [OperandStack.freeRegister?, h.used_eq_nil hc]; rfl⟩

/-- What is known after the condition at position `k`, the topmost operand of `s`, was tested: the
flags are such that branch `b` is taken exactly when it is zero. -/
structure Tested (numLocals k : Nat) (s s' : OperandStack) (code : List (Instr Nat)) (b : Branch) :
    Prop where
  coherent : s'.Coherent numLocals k
  height_eq : s'.height = k
  lt_ceiling : k < s.ceiling
  ceiling_eq : s'.ceiling = s.ceiling
  settled : Settled k s'
  computes : s.OnlyEqual (k + 1) → ∀ i, i ∈ code → i.Computes numLocals s'.ceiling
  frozen : ∀ i, i < k → ∀ p, p.InMemory → s.placement? i = some p → s'.placement? i = some p
  runs : ∀ m values, s.FlagsOnTop (k + 1) → Represents m s (k + 1) values → k < m.slots.size →
      ∃ m', runCode code m = some m' ∧ Represents m' s' k values ∧
        m.KeepsLocals numLocals m' ∧ m'.taken b = decide (values k = 0)

/-- What holds while a function is compiled still holds after a condition was tested: locals stay in
memory, and nothing is left in the flags. -/
theorem Tested.consistent {k : Nat} {b : Branch} (h : Tested numLocals k s s' code b)
    (hs : s.Consistent numLocals (k + 1)) (hl : numLocals ≤ k) : s'.Consistent numLocals k where
  toCoherent := h.coherent
  of_local i hi := h.frozen i (by omega) .slot trivial (hs.of_local i hi)
  tested := h.settled.onlyEqual

/-- The jump that is taken when a condition does not hold. There are two conditions, and each is
tested by the jump of the other. -/
theorem exists_branchUnless {c : Condition} (hc : c.Known) :
    ∃ b, (∀ s, Emits (branchUnless c) s b s []) ∧
      ∀ (m : Machine) holds, m.holds? c = some holds → m.taken b = !holds := by
  rcases hc with rfl | rfl
  · refine ⟨.ifNotEqual, Emits.pure _, fun m holds h => ?_⟩
    cases h
    rfl
  · refine ⟨.ifEqual, Emits.pure _, fun m holds h => ?_⟩
    cases h
    exact (Bool.not_not m.zero).symm

/-- **Testing a condition that is in the flags**: it is zero if what was tested does not hold. The
flags are kept while the operands below are stored, so the comparison need not be made again. -/
theorem exists_tested_flags (h : s.Coherent numLocals s.height) {k : Nat}
    (hh : s.height = k + 1) (hl : numLocals ≤ k) {c : Condition}
    (hp : s.placement? k = some (.flags c)) {b : Branch}
    (hb : ∀ (m : Machine) holds, m.holds? c = some holds → m.taken b = !holds) :
    ∃ s' code, Emits flushAll { s with height := k } () s' code ∧
      Tested numLocals k s s' code b := by
  rw [hh] at h
  have hpop : ∀ floor, Transforms numLocals floor (k + 1) s (k + 1) { s with height := k } [] id :=
    fun _ => Transforms.lower h (by omega) hl
  obtain ⟨s', code, hemits, hfl⟩ := exists_flushAll (hpop 0).coherent (Nat.le_succ _)
  have hh' : s'.height = k := hfl.height_eq
  have hcoh := (hfl.transforms 0).coherent
  -- flushing does not touch the condition: it was popped, and storing leaves the flags alone
  have hp' : s'.placement? k = some (.flags c) := (hfl.popped k (Nat.le_refl k)).trans hp
  refine ⟨s', code, hemits,
    { coherent := hcoh.shrink (by omega) fun r he => ?_, height_eq := hh',
      lt_ceiling := h.active_le_ceiling, ceiling_eq := hfl.ceiling_eq, settled := hfl.settled,
      computes := (hfl.transforms 0).computes,
      frozen := fun i hi => (hfl.transforms k).frozen i hi, runs := ?_ }⟩
  · rw [hp'] at he
    cases he
  · intro m values hf hrep hsize
    obtain ⟨m', hrun, hrep', hkeeps⟩ := ((hpop 0).trans (hfl.transforms 0)).runs m values hf hrep
      hsize
    refine ⟨m', hrun, hrep'.shrink, hkeeps, ?_⟩
    -- the flags still say what the condition is
    obtain ⟨holds, hholds, hvalue⟩ := hrep'.holds (Nat.lt_succ_self k) hp'
    rw [hb m' holds hholds, show values k = _ from hvalue]
    cases holds <;> simp

/-- **Testing a condition that is anywhere else**: it is brought into a register and compared with
zero, after the operands below were stored. -/
theorem exists_testOperand (h : s.Coherent numLocals s.height) {k : Nat}
    (hh : s.height = k + 1) (hl : numLocals ≤ k) :
    ∃ s' code, Emits (testOperand k) { s with height := k } .ifEqual s' code ∧
      Tested numLocals k s s' code .ifEqual := by
  rw [hh] at h
  have hpop : ∀ floor, Transforms numLocals floor (k + 1) s (k + 1) { s with height := k } [] id :=
    fun _ => Transforms.lower h (by omega) hl
  obtain ⟨s₁, code₁, hemits₁, hens⟩ :=
    exists_ensure (hpop 0).coherent (Nat.le_succ _) (i := k) (by omega) hl
  -- the condition may leave memory, and nothing below it does
  have htr₁ := hens.transforms k fun _ _ _ => Nat.le_refl k
  have hh₁ : s₁.height = k := hens.height_eq
  obtain ⟨s₂, code₂, hemits₂, hfl⟩ := exists_flushAll htr₁.coherent (by omega)
  have hh₂ : s₂.height = k := hfl.height_eq.trans hh₁
  have hcoh := (hfl.transforms 0).coherent
  -- the condition was popped, so flushing leaves it in its register
  obtain ⟨r, hr⟩ := hens.held
  rw [← hfl.popped k (by omega)] at hr
  have hkeep : ∀ i, i < k → (s₂.release k).placement? i = s₂.placement? i := fun i hi => by
    rw [OperandStack.placement?_release, if_neg (by omega)]
  have hsettled : Settled k (s₂.release k) := fun i hi => by
    rw [hkeep i hi]
    exact hfl.settled i (by omega)
  have hceil : s₂.ceiling = s.ceiling := hfl.ceiling_eq.trans hens.ceiling_eq
  refine ⟨s₂.release k, _, hemits₁.bind <| hemits₂.bind <| (emits_registerOf hcoh hr).bind <|
      (emits_emit _ s₂).bind <| (emits_modifyStack _ s₂).bind (Emits.pure _ _),
    { coherent := (hcoh.release (by omega) hr).shrink (by simp [hh₂]) fun q hq => ?_,
      height_eq := by simp [hh₂], lt_ceiling := h.active_le_ceiling,
      ceiling_eq := by simp [hceil], settled := hsettled, computes := ?_, frozen := ?_,
      runs := ?_ }⟩
  · rw [OperandStack.placement?_release, if_pos rfl, hr] at hq
    cases hq
  · intro he i hi
    have htest : (Instr.compareConst r 0 : Instr Nat).Computes numLocals s₂.ceiling :=
      hcoh.pooled k (by omega) r hr
    rw [OperandStack.ceiling_release]
    rw [← List.append_assoc] at hi
    rcases List.mem_append.mp hi with hi | hi
    · exact (htr₁.trans (hfl.transforms k)).computes he i hi
    · rwa [List.mem_singleton.mp hi]
  · intro i hi p hm hp
    rw [hkeep i hi]
    exact (hfl.transforms k).frozen i hi p hm (htr₁.frozen i hi p hm hp)
  · intro m values hf hrep hsize
    obtain ⟨m₂, hrun, hrep₂, hkeeps⟩ :=
      ((hpop k).trans (htr₁.trans (hfl.transforms k))).runs m values hf hrep hsize
    have hstep := Machine.step_compareConst (hrep₂.word? (by omega) hr) 0
    refine ⟨{ m₂ with zero := decide (values k = Machine.constant 0) }, ?_, ?_,
      hkeeps.trans (.of_slots_eq rfl), ?_⟩
    · rw [← List.append_assoc]
      exact (Machine.runCode_append hrun).trans (Machine.runCode_cons hstep)
    · -- the comparison changes the flags, in which no operand is left
      exact (hrep₂.shrink.congr hkeep).withZero (fun i hi c => hsettled.ne_flags hi c) _
    · simp [Machine.taken, show Machine.constant 0 = 0 by decide]

/-- **A jump on zero** pops the condition and flushes the operands below it. Afterwards all operands
are in memory, on both ways of the branch. -/
theorem exists_jumpIfZero (h : s.Coherent numLocals s.height) {k : Nat}
    (hh : s.height = k + 1) (hl : numLocals ≤ k) :
    ∃ s' code b, Tested numLocals k s s' code b ∧ ∀ e : Emitter, e.stack = s →
      jumpIfZero e = .ok e.fixups.size ((e.extend s' code).withJump .ifZero b) := by
  obtain ⟨p, hp⟩ := h.exists_placement (i := k) (by omega)
  have hoperand : Emits (operand k) { s with height := k } ⟨p, k⟩ { s with height := k } [] :=
    emits_operand (h.exists_entry hp)
  -- a comparison that is still in the flags is not tested a second time
  by_cases hflags : ∃ c, p = .flags c
  · obtain ⟨c, rfl⟩ := hflags
    obtain ⟨b, hbranch, htaken⟩ := exists_branchUnless (h.known k (by omega) c hp)
    obtain ⟨s', code, hemits, htested⟩ := exists_tested_flags h hh hl hp htaken
    refine ⟨s', code, b, htested, fun e he => ?_⟩
    unfold jumpIfZero
    rw [(emits_pop hh).run_bind he, hoperand.run_bind rfl]
    refine ((hbranch _).run_bind rfl).trans ((hemits.run_bind rfl).trans ?_)
    simp only [extend_extend, List.nil_append]
    rfl
  · obtain ⟨s', code, hemits, htested⟩ := exists_testOperand h hh hl
    refine ⟨s', code, .ifEqual, htested, fun e he => ?_⟩
    unfold jumpIfZero
    rw [(emits_pop hh).run_bind he, hoperand.run_bind rfl]
    -- the other placements are treated alike
    cases p with
    | flags c => exact absurd ⟨c, rfl⟩ hflags
    | register r =>
      exact (hemits.run_bind rfl).trans (by simp only [extend_extend, List.nil_append]; rfl)
    | ofLocal j =>
      exact (hemits.run_bind rfl).trans (by simp only [extend_extend, List.nil_append]; rfl)
    | slot =>
      exact (hemits.run_bind rfl).trans (by simp only [extend_extend, List.nil_append]; rfl)

/-! ### Results -/

/-- The code that copies a slot to another one. -/
def copyCode (src dst : Nat) (r : Register) : List (Instr Nat) :=
  if src = dst then []
  else [.load .valueStack (slotOffset src) r, .store r .valueStack (slotOffset dst)]

/-- Copying a slot onto itself emits nothing. -/
theorem emits_copySlot (src dst : Nat) (r : Register) (s : OperandStack) :
    Emits (copySlot src dst r) s () s (copyCode src dst r) := by
  unfold copySlot copyCode
  split
  · exact Emits.pure () s
  · exact (emits_emit _ s).bind (emits_emit _ s)

/-- Copying keeps to the sandbox if the destination is no local. -/
theorem computes_copyCode {src dst size : Nat} {r : Register} (hr : r ∈ Register.pool)
    (hsrc : src < size) (hl : numLocals ≤ dst) (hdst : dst < size) :
    ∀ i, i ∈ copyCode src dst r → i.Computes numLocals size := by
  intro i hi
  unfold copyCode at hi
  split at hi
  · cases hi
  · rcases List.mem_cons.mp hi with rfl | hi
    · exact ⟨rfl, hr, src, hsrc, rfl⟩
    · rw [List.mem_singleton.mp hi]
      exact ⟨rfl, hr, dst, hl, hdst, rfl⟩

/-- Copying changes the destination and nothing else in memory. The register it goes through is
free, so what it held does not matter. -/
theorem runs_copyCode {m : Machine} (h : m.Ready) {src : Nat} {r : Register} {w : UInt64}
    (hr : r ∈ Register.pool) (hw : m.slots[src]? = some w) (dst : Nat) (hdst : dst < m.slots.size) :
    ∃ m', runCode (copyCode src dst r) m = some m' ∧ m'.Ready ∧
      m'.slots.size = m.slots.size ∧
      ∀ i, m'.slots[i]? = if i = dst then some w else m.slots[i]? := by
  unfold copyCode
  split
  · -- the slot is where it has to be, and no code is emitted
    next he =>
    subst he
    refine ⟨m, rfl, h, rfl, fun i => ?_⟩
    split
    · next hi => rw [hi, hw]
    · rfl
  · have hready := h.set hr w
    have hstore := Machine.step_store hready hdst (Machine.word?_set_self m r w)
    refine ⟨_, (Machine.runCode_cons (Machine.step_load h hw r)).trans
      (Machine.runCode_cons hstore), hready.congr rfl, by simp, fun i => ?_⟩
    by_cases hi : i = dst
    · subst hi
      simp [hdst]
    · simp [hi, Array.getElem?_setIfInBounds_ne (Ne.symm hi)]

/-- **Copying the first `k` of the topmost `count` operands** into the slots from `entry` on. The
sources and the destinations may overlap; that a source is not overwritten before it is copied is
`hout`. -/
theorem exists_copies (h : s.Coherent numLocals s.height) (hs : Settled s.height s)
    {r : Register} (hr : r ∈ Register.pool) (entry count : Nat) (hl : numLocals ≤ entry)
    (hcount : entry + count ≤ s.height) :
    ∀ k, k ≤ count → ∃ code,
      Emits ((List.range k).forM fun i => do
        let o ← operand (s.height - count + i)
        copySlot o.sourceSlot (entry + i) r) s () s code ∧
      (∀ i, i ∈ code → i.Computes numLocals s.ceiling) ∧
      ∀ m values, Represents m s s.height values → s.height ≤ m.slots.size →
        ∃ m', runCode code m = some m' ∧ m'.Ready ∧ m'.slots.size = m.slots.size ∧
          ∀ i, m'.slots[i]? = if entry ≤ i ∧ i < entry + k then
            some (values (s.height - count + (i - entry))) else m.slots[i]? := by
  have hceil := h.active_le_ceiling
  -- by induction on the number of copies; the slots from `entry + k` on still hold what they held
  intro k
  induction k with
  | zero =>
    refine fun _ => ⟨[], Emits.pure () s, by simp, fun m values hrep _ =>
      ⟨m, rfl, hrep.ready, rfl, fun i => ?_⟩⟩
    rw [if_neg (by omega)]
  | succ k ih =>
    intro hk
    obtain ⟨code, hemits, hcomp, hruns⟩ := ih (by omega)
    obtain ⟨p, hp, hm⟩ := hs (s.height - count + k) (by omega)
    obtain ⟨hsource, hread⟩ := read_of_inMemory h (by omega) hp hm
    -- the source is a local, or lies above everything that has been overwritten
    have hout : ¬(entry ≤ (⟨p, s.height - count + k⟩ : Operand).sourceSlot ∧
        (⟨p, s.height - count + k⟩ : Operand).sourceSlot < entry + k) := by
      cases p with
      | slot =>
        simp only [Operand.sourceSlot]
        omega
      | ofLocal j =>
        have := h.alias_lt _ (by omega) j hp
        simp only [Operand.sourceSlot]
        omega
      | register q => exact hm.elim
      | flags c => exact hm.elim
    have hoperand := emits_operand (h.exists_entry hp)
    refine ⟨code ++ copyCode (⟨p, s.height - count + k⟩ : Operand).sourceSlot (entry + k) r, ?_,
      fun i hi => ?_, fun m values hrep hsize => ?_⟩
    · rw [forM_range_succ]
      exact hemits.bind (hoperand.bind (emits_copySlot _ _ r s))
    · rcases List.mem_append.mp hi with hi | hi
      · exact hcomp i hi
      · exact computes_copyCode hr hsource (by omega) (by omega) i hi
    · -- the copies so far have left the source alone, so it is read as at the start
      obtain ⟨m₁, hrun₁, hready₁, hsize₁, hslots₁⟩ := hruns m values hrep hsize
      have hw : m₁.slots[(⟨p, s.height - count + k⟩ : Operand).sourceSlot]? =
          some (values (s.height - count + k)) := by
        rw [hslots₁, if_neg hout, ← hread m]
        exact hrep.reads _ (by omega) p hp
      obtain ⟨m₂, hrun₂, hready₂, hsize₂, hslots₂⟩ :=
        runs_copyCode hready₁ hr hw (entry + k) (by omega)
      refine ⟨m₂, (Machine.runCode_append hrun₁).trans hrun₂, hready₂, hsize₂.trans hsize₁,
        fun i => ?_⟩
      rw [hslots₂, hslots₁]
      by_cases hi : i = entry + k
      · rw [if_pos hi, if_pos (by omega), show i - entry = k by omega]
      · rw [if_neg hi]
        by_cases hi' : entry ≤ i ∧ i < entry + k
        · rw [if_pos hi', if_pos (by omega)]
        · rw [if_neg hi', if_neg (by omega)]

/-- What is known after the topmost `count` operands were copied into the slots from `entry` on. The
operands themselves are then in memory and otherwise where they were; below `entry` the values are
the same, and above there are the results. -/
structure Carried (numLocals entry count : Nat) (s s' : OperandStack) (code : List (Instr Nat)) :
    Prop where
  coherent : s'.Coherent numLocals s.height
  height_eq : s'.height = s.height
  ceiling_eq : s'.ceiling = s.ceiling
  settled : Settled s.height s'
  /-- Operands that are all in memory are left alone. -/
  eq_of_settled : Settled s.height s → s' = s
  computes : s.OnlyEqual s.height → ∀ i, i ∈ code → i.Computes numLocals s'.ceiling
  frozen : ∀ i p, p.InMemory → s.placement? i = some p → s'.placement? i = some p
  runs : ∀ m values, s.FlagsOnTop s.height → Represents m s s.height values →
    s.height ≤ m.slots.size →
      ∃ m', runCode code m = some m' ∧ Represents m' s' entry values ∧
        m.KeepsLocals numLocals m' ∧
        ∀ i, i < count → m'.slots[entry + i]? = some (values (s.height - count + i))

/-- Results are copied above the locals, so what holds while a function is compiled still does. -/
theorem Carried.consistent {entry count : Nat} (h : Carried numLocals entry count s s' code)
    (hs : s.Consistent numLocals s.height) : s'.Consistent numLocals s.height where
  toCoherent := h.coherent
  of_local i hi := h.frozen i .slot trivial (hs.of_local i hi)
  tested := h.settled.onlyEqual

/-- Flushing, where a stack whose operands are all in memory is left alone. In the code after a
branch this is so, and the two ways then have the same operand stack. -/
theorem exists_flushAll_eq (h : s.Coherent numLocals s.height) :
    ∃ s' code, Emits flushAll s () s' code ∧ Flushed numLocals s.height s.height s s' code ∧
      (Settled s.height s → s' = s) := by
  by_cases hs : Settled s.height s
  · exact ⟨s, [], emits_flushAll_of_settled h hs,
      { transforms := fun _ => Transforms.refl h, height_eq := rfl, ceiling_eq := rfl,
        settled := hs, popped := fun _ _ => rfl }, fun _ => rfl⟩
  · obtain ⟨s', code, hemits, hfl⟩ := exists_flushAll h (by omega)
    exact ⟨s', code, hemits, hfl, fun hs' => absurd hs' hs⟩

/-- **Carrying results** into the slots from `entry` on. First all operands are flushed, which frees
all registers, and then the results are copied through one of them. Without results no register is
asked for. -/
theorem exists_carry (h : s.Coherent numLocals s.height) (entry : Nat) (arity : Int)
    (hl : numLocals ≤ entry) (hcount : entry + arity.toNat ≤ s.height) :
    ∃ s' code, Emits (carry entry arity) s () s' code ∧
      Carried numLocals entry arity.toNat s s' code := by
  obtain ⟨s₁, code₁, hemits₁, hfl, hsame⟩ := exists_flushAll_eq h
  have hh₁ : s₁.height = s.height := hfl.height_eq
  have htr := hfl.transforms 0
  have hcoh : s₁.Coherent numLocals s₁.height := by rw [hh₁]; exact htr.coherent
  have hset : Settled s₁.height s₁ := by rw [hh₁]; exact hfl.settled
  obtain ⟨r, hr⟩ := hset.exists_free hcoh
  -- all results are copied, one after the other
  obtain ⟨code₂, hemits₂, hcomp₂, hruns₂⟩ := exists_copies hcoh hset
    (OperandStack.freeRegister?_eq_some hr).1 entry arity.toNat hl (by omega) arity.toNat
    (Nat.le_refl _)
  refine ⟨s₁, code₁ ++ (if arity = 0 then [] else code₂), hemits₁.bind ?_,
    { coherent := htr.coherent, height_eq := hh₁, ceiling_eq := hfl.ceiling_eq,
      settled := hfl.settled, eq_of_settled := hsame, computes := fun he i hi => ?_,
      frozen := fun i p hm hp => (hfl.transforms (i + 1)).frozen i (Nat.lt_succ_self i) p hm hp,
      runs := fun m values hf hrep hsize => ?_ }⟩
  · split
    · exact Emits.pure () s₁
    · refine emits_get fun e he => ?_
      simp only [he, hr]
      rw [if_neg (by omega)]
      exact hemits₂ e he
  · rcases List.mem_append.mp hi with hi | hi
    · exact htr.computes he i hi
    · split at hi
      · cases hi
      · exact hcomp₂ i hi
  · obtain ⟨m₁, hrun₁, hrep₁, hkeeps₁⟩ := htr.runs m values hf hrep hsize
    split
    · -- there is nothing to copy
      next hzero =>
      refine ⟨m₁, (Machine.runCode_append hrun₁).trans rfl, ?_, hkeeps₁, fun i hi => by omega⟩
      exact ⟨hrep₁.ready, fun i hi => hrep₁.reads i (by omega)⟩
    · obtain ⟨m₂, hrun₂, hready₂, hsize₂, hslots₂⟩ :=
        hruns₂ m₁ values (by rw [hh₁]; exact hrep₁) (by rw [hkeeps₁.size_eq, hh₁]; exact hsize)
      have hkeeps₂ : m₁.KeepsLocals numLocals m₂ :=
        ⟨hsize₂, fun j hj => (hslots₂ j).trans (if_neg (by omega))⟩
      refine ⟨m₂, (Machine.runCode_append hrun₁).trans hrun₂, ⟨hready₂, fun i hi p hp => ?_⟩,
        hkeeps₁.trans hkeeps₂, fun i hi => ?_⟩
      · -- an operand in memory below the results is read from a slot below them
        obtain ⟨q, hq, hm⟩ := hset i (by omega)
        obtain rfl : q = p := Option.some.inj (hq.symm.trans hp)
        have hread := hrep₁.reads i (by omega) q hp
        cases q with
        | slot => exact ((hslots₂ i).trans (if_neg (by omega))).trans hread
        | ofLocal j =>
          have := hcoh.alias_lt i (by omega) j hp
          exact ((hslots₂ j).trans (if_neg (by omega))).trans hread
        | register r => exact hm.elim
        | flags c => exact hm.elim
      · rw [hslots₂, if_pos (by omega), hh₁, Nat.add_sub_cancel_left]

/-- With 64 bits for the number of a slot it is the same, as long as the numbers do not run out. The
difference is in the destinations only, so the two loops are compared position by position. -/
theorem carryWord_eq_carry {entry : UInt64} {arity : Nat} (h : entry.toNat + arity ≤ UInt64.size) :
    carryWord entry arity = carry entry.toNat arity := by
  have hslot : ∀ i, i < arity → (entry + UInt64.ofNat i).toNat = entry.toNat + i := by
    intro i hi
    rw [UInt64.toNat_add, UInt64.toNat_ofNat_of_lt' (by omega)]
    exact Nat.mod_eq_of_lt (by change _ < UInt64.size; omega)
  -- the two differ in the slot of each copy only
  have hloop : ∀ (s : OperandStack) (r : Register),
      (List.range arity).forM (fun i => do
        let o ← operand (s.height - arity + i)
        copySlot o.sourceSlot (entry + UInt64.ofNat i).toNat r) =
      (List.range arity).forM (fun i => do
        let o ← operand (s.height - arity + i)
        copySlot o.sourceSlot (entry.toNat + i) r) := by
    intro s r
    refine forM_range_congr fun i hi => ?_
    rw [hslot i hi]
  unfold carryWord carry carryTo
  simp only [Int.toNat_natCast, hloop]

end Emitter

end WasmJit
