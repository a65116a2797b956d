import WasmJit.Proofs.Emission.Branches

/-!
# Pending jumps and the shape of the code

The code that has been emitted so far is described by two invariants, neither of which looks at what
the operands are.

* `Emitter.Linked pending e`: the jumps without a label are exactly those numbered in `pending`,
  each of them once; every other jump goes forward to a label.
* `Emitter.Guarded numLocals e`: after the load of the first slot, every instruction keeps to its
  sandbox, and every return stands right after the instruction that stores the status.

Emitting consists of four operations only: straight-line code (`extend`), a pending jump
(`withJump`), a label at which pending jumps land (`land`), and leaving the code (`exitCode`). There
is one lemma for each of them and each invariant.
-/

namespace WasmJit

namespace Emitter

variable {e : Emitter} {numLocals j q : Nat} {jumps rest pending : List Nat}
  {x : Fixup EmittedJump Nat} {s : OperandStack} {code : List (Instr Nat)}

/-! ### Landing -/

/-- The emitter after the pending jumps `jumps` were pointed at a label. -/
def pointAt (e : Emitter) (jumps : List Nat) (label : Nat) : Emitter :=
  { e with
    fixups := e.fixups.mapIdx fun j x =>
      if j ∈ jumps then { x with target := some label } else x }

/-- The emitter after a label was appended and pending jumps were pointed at it. -/
def land (e : Emitter) (jumps : List Nat) : Emitter :=
  { e with code := e.code.push .label }.pointAt jumps e.code.size

@[simp] theorem stack_land (e : Emitter) (jumps : List Nat) : (e.land jumps).stack = e.stack := rfl

@[simp] theorem code_land (e : Emitter) (jumps : List Nat) :
    (e.land jumps).code = e.code.push .label := rfl

theorem getElem?_fixups_pointAt (e : Emitter) (jumps : List Nat) (label j : Nat) :
    (e.pointAt jumps label).fixups[j]? =
      (e.fixups[j]?).map fun x => if j ∈ jumps then { x with target := some label } else x := by
  simp [pointAt]

/-- Emitters that differ in their pending jumps at most. -/
theorem ext_fixups {e' : Emitter} (hs : e'.stack = e.stack) (hc : e'.code = e.code)
    (hx : e'.extents = e.extents) (hf : ∀ j : Nat, e'.fixups[j]? = e.fixups[j]?) : e' = e := by
  cases e
  cases e'
  simp only [mk.injEq]
  exact ⟨hs, hc, Array.ext_getElem? hf, hx⟩

theorem pointAt_nil (e : Emitter) (label : Nat) : e.pointAt [] label = e := by
  refine ext_fixups rfl rfl rfl fun j => ?_
  simp [getElem?_fixups_pointAt]

/-- Jumps are pointed at a label one after the other or all at once. -/
theorem pointAt_cons (e : Emitter) (j : Nat) (jumps : List Nat) (label : Nat) :
    (e.pointAt [j] label).pointAt jumps label = e.pointAt (j :: jumps) label := by
  refine ext_fixups rfl rfl rfl fun k => ?_
  simp only [getElem?_fixups_pointAt, Option.map_map]
  congr 1
  funext x
  by_cases hj : k = j <;> by_cases hk : k ∈ jumps <;> simp [hj, hk]

/-- **Pointing a pending jump at a label** succeeds because it has no target yet. -/
theorem patch_eq (hx : e.fixups[j]? = some x) (hnone : x.target = none) (label : Nat) :
    patch j label e = .ok () (e.pointAt [j] label) := by
  have hpatch : x.patch? label = some { x with target := some label } := by
    simp [Fixup.patch?, Fixup.patched, hnone]
  have hset : patch j label e =
      .ok () { e with fixups := e.fixups.setIfInBounds j { x with target := some label } } := by
    change EStateM.bind (require e.fixups[j]?) _ e = _
    rw [hx]
    change EStateM.bind (pure x) _ e = _
    simp only [EStateM.bind, pure, EStateM.pure, hpatch]
    rfl
  rw [hset]
  congr 1
  -- setting one entry is the same as changing it wherever it stands
  refine ext_fixups rfl rfl rfl fun k => ?_
  rw [Array.getElem?_setIfInBounds, getElem?_fixups_pointAt]
  by_cases hk : j = k
  · subst hk
    rw [hx, if_pos rfl, if_pos (Array.getElem?_eq_some_iff.mp hx).1]
    simp
  · simp [hk, Ne.symm hk]

/-- **Pointing several pending jumps at a label.** They must be different ones, or the second time
one of them would have a target already. -/
theorem forM_patch (hnodup : jumps.Nodup) (label : Nat)
    (h : ∀ j, j ∈ jumps → ∃ x, e.fixups[j]? = some x ∧ x.target = none) :
    jumps.forM (patch · label) e = .ok () (e.pointAt jumps label) := by
  induction jumps generalizing e with
  | nil =>
    rw [pointAt_nil]
    rfl
  | cons j jumps ih =>
    obtain ⟨hj, hnodup⟩ := List.nodup_cons.mp hnodup
    obtain ⟨x, hx, hnone⟩ := h j List.mem_cons_self
    change EStateM.bind (patch j label) (fun _ => jumps.forM (patch · label)) e = _
    unfold EStateM.bind
    rw [patch_eq hx hnone, ← pointAt_cons e j jumps]
    -- the other jumps are different ones, so they are still pending
    refine ih hnodup fun k hk => ?_
    obtain ⟨y, hy, hnone'⟩ := h k (List.mem_cons_of_mem _ hk)
    refine ⟨y, ?_, hnone'⟩
    have hne : k ≠ j := fun he => hj (he ▸ hk)
    rw [getElem?_fixups_pointAt, hy]
    simp [hne]

/-- Setting a label and pointing pending jumps at it. The label comes first, so it lies behind all
of them. -/
theorem label_forM_patch (hnodup : jumps.Nodup)
    (h : ∀ j, j ∈ jumps → ∃ x, e.fixups[j]? = some x ∧ x.target = none) :
    (do let here ← label; jumps.forM (patch · here)) e = .ok () (e.land jumps) :=
  forM_patch (e := { e with code := e.code.push .label }) hnodup e.code.size h

/-- The same for a single jump, as at the end of the first arm of an `if`. -/
theorem label_patch (hx : e.fixups[j]? = some x) (hnone : x.target = none) :
    (do patch j (← label)) e = .ok () (e.land [j]) :=
  patch_eq (e := { e with code := e.code.push .label }) hx hnone e.code.size

/-! ### Leaving the code -/

/-- The code that leaves with a status. -/
def exitCode (s : Status) : List (Instr Nat) :=
  [.storeByte s.code.toNat .callRecord 8, .ret]

theorem emits_exit (status : Status) (s : OperandStack) :
    Emits (exit status) s () s (exitCode status) :=
  (emits_emit _ s).bind (emits_emit _ s)

/-! ### The code grows -/

theorem getElem?_code_extend_of_lt (hq : q < e.code.size) :
    (e.extend s code).code[q]? = e.code[q]? :=
  Array.getElem?_append_left hq

/-- An instruction of the longer code is one of the old ones or one of the new ones. -/
theorem getElem?_code_extend {i : Instr Nat} (h : (e.extend s code).code[q]? = some i) :
    e.code[q]? = some i ∨ ∃ k, q = e.code.size + k ∧ code[k]? = some i := by
  by_cases hq : q < e.code.size
  · exact .inl ((getElem?_code_extend_of_lt hq).symm.trans h)
  · refine .inr ⟨q - e.code.size, by omega, ?_⟩
    rw [← h]
    change _ = (e.code ++ code.toArray)[q]?
    rw [Array.getElem?_append_right (by omega)]
    simp

theorem getElem?_push_of_lt {i : Instr Nat} {code : Array (Instr Nat)} (hq : q < code.size) :
    (code.push i)[q]? = code[q]? := by
  rw [Array.getElem?_push, if_neg (by omega)]

/-- The same for a single instruction. -/
theorem getElem?_push_eq_some {i i' : Instr Nat} {code : Array (Instr Nat)}
    (h : (code.push i)[q]? = some i') : code[q]? = some i' ∨ q = code.size ∧ i' = i := by
  rw [Array.getElem?_push] at h
  split at h
  · next hq => exact .inr ⟨hq, (Option.some.inj h).symm⟩
  · exact .inl h

/-! ### Jumps -/

/-- **Every pending jump is known, and every other jump goes forward to a label.** Jumps are
numbered, and the code refers to them by their numbers; `jumps` and `positions` tie the numbers to
places in the code. -/
structure Linked (pending : List Nat) (e : Emitter) : Prop where
  nodup : pending.Nodup
  mem_pending : ∀ j, j ∈ pending ↔ ∃ x, e.fixups[j]? = some x ∧ x.target = none
  jumps : ∀ (q : Nat) b j, e.code[q]? = some (.jump b j) →
    ∃ x, e.fixups[j]? = some x ∧ x.jump.position = q
  positions : ∀ (j : Nat) x, e.fixups[j]? = some x → x.jump.position < e.code.size
  targets : ∀ (j : Nat) x label, e.fixups[j]? = some x → x.target = some label →
    x.jump.position < label ∧ e.code[label]? = some .label

namespace Linked

/-- The order of the pending jumps does not matter. -/
theorem perm (h : Linked pending e) (hp : pending.Perm rest) : Linked rest e where
  nodup := hp.nodup_iff.mp h.nodup
  mem_pending j := hp.mem_iff.symm.trans (h.mem_pending j)
  jumps := h.jumps
  positions := h.positions
  targets := h.targets

/-- Only the code and the pending jumps matter. -/
theorem congr {e' : Emitter} (h : Linked pending e) (hc : e'.code = e.code)
    (hf : e'.fixups = e.fixups) : Linked pending e' := by
  cases e
  cases e'
  cases hc
  cases hf
  exact ⟨h.nodup, h.mem_pending, h.jumps, h.positions, h.targets⟩

/-- **Straight-line code** has no jumps, so all are where they were, and so are the labels. -/
theorem extend (h : Linked pending e) (s : OperandStack)
    (hcode : ∀ i, i ∈ code → ∀ b j, i ≠ .jump b j) : Linked pending (e.extend s code) where
  nodup := h.nodup
  mem_pending := h.mem_pending
  jumps q b j hq := by
    -- the new code has no jump, so this is an old one
    rcases getElem?_code_extend hq with hq | ⟨k, -, hk⟩
    · exact h.jumps q b j hq
    · exact absurd rfl (hcode _ (List.mem_of_getElem? hk) b j)
  positions j x hx := by
    have := h.positions j x hx
    simp only [Emitter.extend, Array.size_append]
    omega
  targets j x label hx ht := by
    obtain ⟨hlt, hlabel⟩ := h.targets j x label hx ht
    refine ⟨hlt, ?_⟩
    rw [getElem?_code_extend_of_lt (Array.getElem?_eq_some_iff.mp hlabel).1, hlabel]

/-- **A new jump** is pending, and the others are as before. It gets the next free number. -/
theorem withJump (h : Linked pending e) (kind : JumpKind) (b : Branch) :
    Linked (e.fixups.size :: pending) (e.withJump kind b) := by
  -- a jump is the new one or one of the old ones
  have hback : ∀ (j : Nat) x, (e.withJump kind b).fixups[j]? = some x →
      e.fixups[j]? = some x ∨ j = e.fixups.size ∧ x = .pending kind ⟨b, e.code.size⟩ := by
    intro j x hx
    rw [Emitter.withJump, Array.getElem?_push] at hx
    split at hx
    · next hj => exact .inr ⟨hj, (Option.some.inj hx).symm⟩
    · exact .inl hx
  -- and the old ones keep their numbers
  have hforth : ∀ (j : Nat) x, e.fixups[j]? = some x → (e.withJump kind b).fixups[j]? = some x := by
    intro j x hx
    have := (Array.getElem?_eq_some_iff.mp hx).1
    rw [Emitter.withJump, Array.getElem?_push, if_neg (by omega), hx]
  have hnew : (e.withJump kind b).fixups[e.fixups.size]? =
      some (.pending kind ⟨b, e.code.size⟩) := by
    simp [Emitter.withJump]
  -- its number has not been given out yet
  have hfresh : e.fixups.size ∉ pending := by
    intro hmem
    obtain ⟨x, hx, -⟩ := (h.mem_pending _).mp hmem
    simp at hx
  refine ⟨List.nodup_cons.mpr ⟨hfresh, h.nodup⟩, fun j => ⟨fun hj => ?_, ?_⟩, fun q b' j hq => ?_,
    fun j x hx => ?_, fun j x label hx ht => ?_⟩
  · rcases List.mem_cons.mp hj with rfl | hj
    · exact ⟨_, hnew, rfl⟩
    · obtain ⟨x, hx, hnone⟩ := (h.mem_pending j).mp hj
      exact ⟨x, hforth j x hx, hnone⟩
  · rintro ⟨x, hx, hnone⟩
    rcases hback j x hx with hx | ⟨rfl, -⟩
    · exact List.mem_cons_of_mem _ ((h.mem_pending j).mpr ⟨x, hx, hnone⟩)
    · exact List.mem_cons_self
  · rcases getElem?_push_eq_some hq with hq | ⟨rfl, hi⟩
    · obtain ⟨x, hx, hpos⟩ := h.jumps q b' j hq
      exact ⟨x, hforth j x hx, hpos⟩
    · cases hi
      exact ⟨_, hnew, rfl⟩
  · simp only [Emitter.withJump, Array.size_push]
    rcases hback j x hx with hx | ⟨-, rfl⟩
    · have := h.positions j x hx
      omega
    · exact Nat.lt_succ_self _
  · rcases hback j x hx with hx | ⟨-, rfl⟩
    · obtain ⟨hlt, hlabel⟩ := h.targets j x label hx ht
      refine ⟨hlt, ?_⟩
      rw [Emitter.withJump, getElem?_push_of_lt (Array.getElem?_eq_some_iff.mp hlabel).1, hlabel]
    · cases ht

/-- **A label** at which pending jumps land. They go forward, because the label is set behind
everything that was emitted; the jumps that do not land stay pending. -/
theorem land (h : Linked (jumps ++ rest) e) : Linked rest (e.land jumps) := by
  obtain ⟨-, hrest, hdisjoint⟩ := List.nodup_append.mp h.nodup
  have hat : ∀ j : Nat, (e.land jumps).fixups[j]? = (e.fixups[j]?).map fun x =>
      if j ∈ jumps then { x with target := some e.code.size } else x :=
    getElem?_fixups_pointAt _ jumps e.code.size
  -- landing changes the target of a jump and nothing else about it
  have hback : ∀ (j : Nat) x, (e.land jumps).fixups[j]? = some x →
      ∃ y, e.fixups[j]? = some y ∧ y.jump = x.jump ∧
        x.target = if j ∈ jumps then some e.code.size else y.target := by
    intro j x hx
    rw [hat] at hx
    obtain ⟨y, hy, rfl⟩ := Option.map_eq_some_iff.mp hx
    refine ⟨y, hy, ?_, ?_⟩ <;> split <;> rfl
  -- the code only grows, so labels stay where they are
  have hkeep : ∀ q : Nat, q < e.code.size → (e.land jumps).code[q]? = e.code[q]? := fun q hq =>
    getElem?_push_of_lt hq
  refine ⟨hrest, fun j => ⟨fun hj => ?_, ?_⟩, fun q b j hq => ?_, fun j x hx => ?_,
    fun j x label hx ht => ?_⟩
  · -- a jump that does not land stays pending
    obtain ⟨x, hx, hnone⟩ := (h.mem_pending j).mp (List.mem_append_right _ hj)
    refine ⟨x, ?_, hnone⟩
    rw [hat, hx, Option.map_some, if_neg fun hj' => hdisjoint j hj' j hj rfl]
  · -- a jump without a target has not landed, so it was pending before
    rintro ⟨x, hx, hnone⟩
    obtain ⟨y, hy, -, htarget⟩ := hback j x hx
    rw [hnone] at htarget
    split at htarget
    · cases htarget
    · next hj =>
      have hmem := (h.mem_pending j).mpr ⟨y, hy, htarget.symm⟩
      exact (List.mem_append.mp hmem).resolve_left hj
  · rcases getElem?_push_eq_some hq with hq | ⟨-, hi⟩
    · obtain ⟨x, hx, hpos⟩ := h.jumps q b j hq
      refine ⟨_, (hat j).trans (by rw [hx]; rfl), ?_⟩
      split <;> exact hpos
    · cases hi
  · obtain ⟨y, hy, hjump, -⟩ := hback j x hx
    have := h.positions j y hy
    simp only [code_land, Array.size_push, ← hjump]
    omega
  · obtain ⟨y, hy, hjump, htarget⟩ := hback j x hx
    rw [ht] at htarget
    rw [← hjump]
    split at htarget
    · -- the label is set behind everything emitted so far, the jump included
      cases htarget
      exact ⟨h.positions j y hy, by simp⟩
    · obtain ⟨hlt, hlabel⟩ := h.targets j y label hy htarget.symm
      exact ⟨hlt, (hkeep label (Array.getElem?_eq_some_iff.mp hlabel).1).trans hlabel⟩

end Linked

/-! ### Sandboxed code -/

/-- **The code keeps to its sandbox**: the first instruction loads the address of the first slot,
all others are sandboxed, and a return follows the instruction that stores the status. The sandbox
is as large as the ceiling, which may still rise while code is emitted. -/
structure Guarded (numLocals : Nat) (e : Emitter) : Prop where
  first : e.code[0]? = some (.load .callRecord 0 .valueStack)
  sandboxed : ∀ (q : Nat) i, 0 < q → e.code[q]? = some i →
    i.Sandboxed numLocals e.stack.ceiling
  returns : ∀ q : Nat, e.code[q]? = some .ret →
    ∃ q' v, q = q' + 1 ∧ e.code[q']? = some (.storeByte v .callRecord 8)

namespace Guarded

theorem size_pos (h : Guarded numLocals e) : 0 < e.code.size :=
  (Array.getElem?_eq_some_iff.mp h.first).1

/-- Only the code and the ceiling matter. -/
theorem congr {e' : Emitter} (h : Guarded numLocals e) (hc : e'.code = e.code)
    (hs : e.stack.ceiling ≤ e'.stack.ceiling) : Guarded numLocals e' where
  first := hc ▸ h.first
  sandboxed q i hq hi := (h.sandboxed q i hq (hc ▸ hi)).mono hs
  returns := hc ▸ h.returns

/-- **Appending code** that is sandboxed and has no return without a status in front of it. -/
theorem extend (h : Guarded numLocals e) (hceil : e.stack.ceiling ≤ s.ceiling)
    (hcode : ∀ i, i ∈ code → i.Sandboxed numLocals s.ceiling)
    (hret : ∀ k : Nat, code[k]? = some .ret →
      ∃ k' v, k = k' + 1 ∧ code[k']? = some (.storeByte v .callRecord 8)) :
    Guarded numLocals (e.extend s code) where
  first := by rw [getElem?_code_extend_of_lt h.size_pos, h.first]
  sandboxed q i hq hi := by
    rcases getElem?_code_extend hi with hi | ⟨k, -, hk⟩
    · exact (h.sandboxed q i hq hi).mono hceil
    · exact hcode i (List.mem_of_getElem? hk)
  returns q hi := by
    rcases getElem?_code_extend hi with hi | ⟨k, rfl, hk⟩
    · obtain ⟨q', v, rfl, hq'⟩ := h.returns q hi
      refine ⟨q', v, rfl, ?_⟩
      rw [getElem?_code_extend_of_lt (Array.getElem?_eq_some_iff.mp hq').1, hq']
    · -- the instruction in front of a new return is a new one, too
      obtain ⟨k', v, rfl, hk'⟩ := hret k hk
      refine ⟨e.code.size + k', v, rfl, ?_⟩
      simp only [Emitter.extend]
      rw [Array.getElem?_append_right (by omega)]
      simpa using hk'

/-- Straight-line code returns nowhere. -/
theorem extend_computes (h : Guarded numLocals e) (hceil : e.stack.ceiling ≤ s.ceiling)
    (hcode : ∀ i, i ∈ code → i.Computes numLocals s.ceiling) :
    Guarded numLocals (e.extend s code) :=
  h.extend hceil (fun i hi => (hcode i hi).sandboxed) fun _ hk =>
    (hcode _ (List.mem_of_getElem? hk)).elim

/-- A jump is sandboxed wherever it goes. -/
theorem withJump (h : Guarded numLocals e) (kind : JumpKind) (b : Branch) :
    Guarded numLocals (e.withJump kind b) := by
  have hext : Guarded numLocals (e.extend e.stack [.jump b e.fixups.size]) :=
    h.extend (Nat.le_refl _) (by simp [Instr.Sandboxed]) fun k hk => by
      cases k <;> simp at hk
  exact hext.congr (by simp [Emitter.withJump, Emitter.extend]) (Nat.le_refl _)

theorem land (h : Guarded numLocals e) (jumps : List Nat) : Guarded numLocals (e.land jumps) := by
  have hext : Guarded numLocals (e.extend e.stack [.label]) :=
    h.extend (Nat.le_refl _) (by simp [Instr.Sandboxed]) fun k hk => by
      cases k <;> simp at hk
  exact hext.congr (by simp [Emitter.extend]) (Nat.le_refl _)

/-- **Leaving the code** with one of the two statuses that a function may have. -/
theorem exit (h : Guarded numLocals e) {status : Status}
    (hs : status = .returned ∨ status = .unreachable) :
    Guarded numLocals (e.extend e.stack (exitCode status)) := by
  refine h.extend (Nat.le_refl _) (fun i hi => ?_) fun k hk => ?_
  · rcases List.mem_cons.mp hi with rfl | hi
    · refine ⟨rfl, rfl, ?_⟩
      rcases hs with rfl | rfl
      · exact .inl rfl
      · exact .inr rfl
    · rw [List.mem_singleton.mp hi]
      trivial
  -- the second of the two instructions is the return, and the first one stores the status
  · match k with
    | 0 => simp [exitCode] at hk
    | 1 => exact ⟨0, _, rfl, rfl⟩
    | k + 2 => simp [exitCode] at hk

end Guarded

end Emitter

end WasmJit
