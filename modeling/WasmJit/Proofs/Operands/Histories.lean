import Mathlib.Data.List.Infix
import Mathlib.Order.Bounds.Basic
import WasmJit.Proofs.Operands.Consistency

/-!
# Histories of an operand stack

`OperandStack.Coherent` is about a stack on which code generation works. This module makes no
assumption on who works on it: `OperandStack.Operation` lists all that can be done to a stack, and
`OperandStack.after? ops` is what any sequence of operations makes of an empty one. It exists as
long as no operation asks for an operand that is not there (`OperandStack.Grounded`), by popping or
peeking at an empty stack or by naming a slot that was never used.

The number of slots of a call is taken from the ceiling, so the ceiling has to be the greatest
height there ever was, whatever was popped and pushed again in between. The invariant that carries
this is `OperandStack.Aligned`: there are as many entries as the ceiling says, and each entry stands
at its slot. Only a push raises the height, and it overwrites the entry at the height or appends
one; all other operations keep the frame of the stack (`OperandStack.Frames`).

* `Operation.eq_push_or_frames` says what one operation can do, and
  `Operation.perform?_eq_none_iff` when it cannot do it.
* `Aligned.step` is preservation by one operation, `aligned_after?` by a history.
* `trims_truncate` says what is dropped by truncating.
* `OperandStack.history_aligned` is the result.
-/

namespace WasmJit.OperandStack

/-! ### Operations -/

/-- **What can be done to a stack**, with all the arguments it can be done with: positions need not
exist and registers need not be in the pool. -/
inductive Operation where
  | pushRegister (r : Register)
  | pushSlot
  | pushFlags (c : Condition)
  | pushLocal (index : Nat)
  | pop
  | peek
  | truncate (height : Nat)
  | release (position : Nat)
  | place (position : Nat) (r : Register)
  | markUsed (registers : List Register)
  | markUnused (registers : List Register)
  /-- Chooses a register that is not in use. -/
  | chooseFree
  /-- Chooses an operand to take the register away from. -/
  | chooseVictim
deriving DecidableEq, Repr

namespace Operation

/-- What an operation makes of a stack, if the operand is there that it asks for. -/
def perform? (s : OperandStack) : Operation → Option OperandStack
  | .pushRegister r => some (s.pushRegister r)
  | .pushSlot => some (s.push .slot)
  | .pushFlags c => some (s.push (.inFlags c))
  | .pushLocal index => some (s.push (.ofLocal index))
  | .pop => s.pop?.map Prod.snd
  | .peek => s.top?.map fun _ => s
  | .truncate height => some (s.truncate height)
  | .release position => if position < s.entries.size then some (s.release position) else none
  | .place position r => if position < s.entries.size then some (s.place position r) else none
  | .markUsed registers => some (registers.foldl OperandStack.markUsed s)
  | .markUnused registers => some (registers.foldl OperandStack.markUnused s)
  -- `freeRegister?` and `victim?` look at the stack and leave it as it is
  | .chooseFree | .chooseVictim => some s

/-- Whether the operand that an operation asks for is not there. -/
def Missing (s : OperandStack) : Operation → Prop
  | .pop | .peek => s.height = 0
  | .release position | .place position _ => s.entries.size ≤ position
  | _ => False

end Operation

/-- **What a history makes of an empty stack.** -/
def after? (ops : List Operation) : Option OperandStack :=
  ops.foldlM Operation.perform? empty

/-- **A history in which no operand is missing**, at any point of it. What is missing depends on the
stack, so this is about the stack after each beginning of the history. -/
def Grounded (ops : List Operation) : Prop :=
  ∀ earlier op s, earlier ++ [op] <+: ops → after? earlier = some s → ¬ op.Missing s

/-- **The invariant**: the entries reach up to the ceiling, live or not, and each of them stands at
its slot. -/
structure Aligned (s : OperandStack) : Prop where
  height_le : s.height ≤ s.entries.size
  size_eq : s.entries.size = s.ceiling
  slot_eq : ∀ (i : Nat) (o : Operand), s.entries[i]? = some o → o.slot = i

/-- The slot of the entry at a position, live or not. -/
def slot? (s : OperandStack) (i : Nat) : Option Nat :=
  (s.entries[i]?).map (·.slot)

/-- **The frame stays**: no height is gained, and there are the same entries with the same slots. -/
structure Frames (s s' : OperandStack) : Prop where
  height_le : s'.height ≤ s.height
  ceiling_eq : s'.ceiling = s.ceiling
  size_eq : s'.entries.size = s.entries.size
  slot?_eq : ∀ i, s'.slot? i = s.slot? i

/-- **What is dropped**: `s'` is `s` without the operands from position `k` on. Their entries stay
where they are, above the height, until they are written over. -/
structure Trims (k : Nat) (s s' : OperandStack) : Prop extends Frames s s' where
  height_eq : s'.height = k
  /-- The entries below are the same. -/
  getElem?_eq : ∀ i, i < k → s'.entries[i]? = s.entries[i]?
  /-- The registers of the dropped operands are not in use, and all others are if they were. -/
  mem_used : ∀ r, r ∈ s'.used ↔
    r ∈ s.used ∧ ∀ i, k ≤ i → i < s.height → s.placement? i ≠ some (.register r)

variable {s s' s'' : OperandStack} {op : Operation} {ops : List Operation}

/-! ### The frame of a stack -/

/-- Slots stay, whatever placements become. -/
theorem slot?_modify (s : OperandStack) (position : Nat) (f : Placement → Placement) (i : Nat) :
    ({ s with
      entries := s.entries.modify position fun o => { o with placement := f o.placement } } :
        OperandStack).slot? i = s.slot? i := by
  unfold slot?
  rw [Array.getElem?_modify]
  split
  · cases s.entries[i]? <;> rfl
  · rfl

namespace Frames

theorem refl (s : OperandStack) : Frames s s :=
  ⟨Nat.le_refl _, rfl, rfl, fun _ => rfl⟩

theorem trans (h : Frames s s') (h' : Frames s' s'') : Frames s s'' :=
  ⟨h'.height_le.trans h.height_le, h'.ceiling_eq.trans h.ceiling_eq, h'.size_eq.trans h.size_eq,
    fun i => (h'.slot?_eq i).trans (h.slot?_eq i)⟩

theorem lower {k : Nat} (hk : k ≤ s.height) : Frames s { s with height := k } :=
  ⟨hk, rfl, rfl, fun _ => rfl⟩

theorem markUsed (s : OperandStack) (r : Register) : Frames s (s.markUsed r) :=
  ⟨Nat.le_refl _, rfl, rfl, fun _ => rfl⟩

theorem markUnused (s : OperandStack) (r : Register) : Frames s (s.markUnused r) :=
  ⟨Nat.le_refl _, rfl, rfl, fun _ => rfl⟩

theorem place (s : OperandStack) (position : Nat) (r : Register) :
    Frames s (s.place position r) where
  height_le := Nat.le_refl _
  ceiling_eq := rfl
  size_eq := Array.size_modify
  slot?_eq := slot?_modify s position fun _ => .inRegister r

/-- A release changes a placement and which registers are in use, but no slot. -/
theorem release (s : OperandStack) (position : Nat) : Frames s (s.release position) where
  height_le := (height_release s position).le
  ceiling_eq := ceiling_release s position
  size_eq := size_entries_release s position
  slot?_eq i := by
    unfold OperandStack.release
    split
    · rfl
    · exact slot?_modify (s.markUnused _) position Placement.released i

/-- What every step keeps is kept by all of them. -/
theorem foldl {f : OperandStack → Register → OperandStack} (hf : ∀ s r, Frames s (f s r))
    (registers : List Register) (s : OperandStack) : Frames s (registers.foldl f s) := by
  induction registers generalizing s with
  | nil => exact refl s
  | cons r registers ih => exact (hf s r).trans (ih (f s r))

end Frames

/-! ### Truncating -/

/-- Nothing is dropped if all operands are below. -/
theorem Trims.refl (s : OperandStack) : Trims s.height s s where
  toFrames := Frames.refl s
  height_eq := rfl
  getElem?_eq _ _ := rfl
  mem_used r := by
    refine (and_iff_left ?_).symm
    intro i hle hlt
    omega

/-- An operand in a register gives it up when it is dropped. -/
theorem drop_of_register {k : Nat} {r : Register} (hk : s.height = k + 1)
    (hr : s.placement? k = some (.register r)) :
    s.drop = ({ s with height := k } : OperandStack).release k := by
  obtain ⟨o, ho, hplacement⟩ := Option.map_eq_some_iff.mp hr
  simp only [OperandStack.drop, pop?, hk, ho, hplacement, Placement.onRegister, if_true]

/-- Any other operand is dropped by lowering the height. -/
theorem drop_of_ne_register {k : Nat} (hk : s.height = k + 1)
    (hr : ∀ r, s.placement? k ≠ some (.register r)) : s.drop = { s with height := k } := by
  simp only [OperandStack.drop, pop?, hk]
  cases ho : s.entries[k]? with
  | none => rfl
  | some o =>
    have hoff : o.placement.onRegister = false := by
      cases hplacement : o.placement with
      | register r => exact absurd (by rw [placement?, ho, ← hplacement]; rfl) (hr r)
      | flags c => rfl
      | ofLocal j => rfl
      | slot => rfl
    simp only [hoff, Bool.false_eq_true, if_false]

/-- Only the entry itself changes when it gives up its register. So entries below the dropped ones
stay the same even if they name the same register. -/
theorem getElem?_release_of_ne {position i : Nat} (h : position ≠ i) :
    (s.release position).entries[i]? = s.entries[i]? := by
  unfold OperandStack.release
  split
  · rfl
  · rw [Array.getElem?_modify, if_neg h]
    rfl

/-- The registers of the operands from `k` on are the one of the operand at `k`, and those of the
operands above it. -/
theorem forall_placement?_ne_iff {k : Nat} (hk : k < s.height) (r : Register) :
    (∀ i, k ≤ i → i < s.height → s.placement? i ≠ some (.register r)) ↔
      s.placement? k ≠ some (.register r) ∧
        ∀ i, k + 1 ≤ i → i < s.height → s.placement? i ≠ some (.register r) := by
  constructor
  · intro hall
    exact ⟨hall k (Nat.le_refl k) hk, fun i hi => hall i (by omega)⟩
  · rintro ⟨htop, hall⟩ i hle hi
    rcases Nat.eq_or_lt_of_le hle with rfl | hgt
    · exact htop
    · exact hall i hgt hi

/-- **One operand less.** What was dropped before is above it, so the registers that are freed are
its own and those that were freed before. -/
theorem Trims.drop {k : Nat} (h : Trims (k + 1) s s') : Trims k s s'.drop := by
  have hlower : Frames s { s' with height := k } :=
    h.toFrames.trans (.lower (by rw [h.height_eq]; omega))
  have hlt : k < s.height := by
    have hle := h.toFrames.height_le
    rw [h.height_eq] at hle
    omega
  have htop : s.placement? k = s'.placement? k := by
    rw [placement?, placement?, h.getElem?_eq k (Nat.lt_succ_self k)]
  -- only an operand in a register has something to give up
  by_cases hreg : ∃ r, s'.placement? k = some (.register r)
  · obtain ⟨r, hr⟩ := hreg
    rw [drop_of_register h.height_eq hr]
    refine ⟨hlower.trans (.release _ k), height_release _ k, fun i hi => ?_, fun r' => ?_⟩
    · rw [getElem?_release_of_ne (by omega)]
      exact h.getElem?_eq i (by omega)
    · -- the register of the dropped operand goes, on top of those that went before
      have hheld : ({ s' with height := k } : OperandStack).placement? k = some (.register r) := hr
      have hused : r' ∈ s'.used ↔ _ := h.mem_used r'
      have hne : some (Placement.register r) ≠ some (.register r') ↔ r' ≠ r := by
        simp [eq_comm]
      rw [mem_used_release hheld, forall_placement?_ne_iff hlt, htop, hr, hne, hused, and_assoc,
        and_comm (a := r' ≠ r)]
  · rw [drop_of_ne_register h.height_eq fun r hr => hreg ⟨r, hr⟩]
    refine ⟨hlower, rfl, fun i hi => h.getElem?_eq i (by omega), fun r => ?_⟩
    rw [forall_placement?_ne_iff hlt, htop, and_iff_right fun hr => hreg ⟨r, hr⟩]
    exact h.mem_used r

/-- **Truncating drops what is above**, one operand after the other. By induction on how many are
dropped; the operand that goes next is the topmost one that is left. -/
theorem trims_truncate {k : Nat} (hk : k ≤ s.height) : Trims k s (s.truncate k) := by
  have hrepeat : ∀ d, d ≤ s.height → Trims (s.height - d) s (Nat.repeat drop d s) := by
    intro d
    induction d with
    | zero => exact fun _ => .refl s
    | succ d ih =>
      intro hd
      have hstep := ih (by omega)
      rw [show s.height - d = s.height - (d + 1) + 1 by omega] at hstep
      exact hstep.drop
  have h := hrepeat (s.height - k) (Nat.sub_le _ _)
  rwa [Nat.sub_sub_self hk] at h

/-- At or above the height there is nothing to drop. -/
theorem truncate_of_le {k : Nat} (hk : s.height ≤ k) : s.truncate k = s := by
  rw [truncate, Nat.sub_eq_zero_of_le hk]
  rfl

/-- Truncating to any height keeps the frame, also to one that is not reached. -/
theorem Frames.truncate (s : OperandStack) (k : Nat) : Frames s (s.truncate k) := by
  by_cases hk : k ≤ s.height
  · exact (trims_truncate hk).toFrames
  · rw [truncate_of_le (by omega)]
    exact .refl s

/-! ### One operation -/

/-- **What an operation can do**: it pushes, after marking registers at most, or the frame stays.
Everything about histories below is derived from this and not from the operations themselves. -/
theorem Operation.eq_push_or_frames (h : op.perform? s = some s') :
    (∃ s₁ p, s' = s₁.push p ∧ Frames s s₁ ∧ s₁.height = s.height) ∨ Frames s s' := by
  cases op with
  -- the four ways to push, the first of which takes its register first
  | pushRegister r =>
    cases h
    exact .inl ⟨s.markUsed r, _, rfl, .markUsed s r, rfl⟩
  | pushSlot | pushFlags | pushLocal =>
    cases h
    exact .inl ⟨s, _, rfl, .refl s, rfl⟩
  -- everything else changes at most the height, a placement or the registers in use
  | pop =>
    obtain ⟨⟨position, s₁⟩, hpop, rfl⟩ := Option.map_eq_some_iff.mp h
    rw [pop?] at hpop
    split at hpop
    · cases hpop
    · next k hk =>
      cases hpop
      exact .inr (.lower (by omega))
  | peek =>
    obtain ⟨position, -, rfl⟩ := Option.map_eq_some_iff.mp h
    exact .inr (.refl s)
  | truncate k =>
    cases h
    exact .inr (.truncate s k)
  | release position =>
    obtain ⟨-, h⟩ := Option.ite_none_right_eq_some.mp h
    cases h
    exact .inr (.release s position)
  | place position r =>
    obtain ⟨-, h⟩ := Option.ite_none_right_eq_some.mp h
    cases h
    exact .inr (.place s position r)
  | markUsed registers =>
    cases h
    exact .inr (.foldl Frames.markUsed registers s)
  | markUnused registers =>
    cases h
    exact .inr (.foldl Frames.markUnused registers s)
  | chooseFree | chooseVictim =>
    cases h
    exact .inr (.refl s)

/-- An operation fails only if an operand is missing. The four that can fail ask for the topmost
operand or for an entry. -/
theorem Operation.perform?_eq_none_iff (s : OperandStack) (op : Operation) :
    op.perform? s = none ↔ op.Missing s := by
  -- only those that need an operand can be impossible
  cases op with
  | pop =>
    simp only [perform?, Missing, pop?, Option.map_eq_none_iff]
    cases s.height <;> simp
  | peek =>
    simp only [perform?, Missing, top?, Option.map_eq_none_iff]
    cases s.height <;> simp
  | release position => simp [perform?, Missing]
  | place position r => simp [perform?, Missing]
  | pushRegister | pushSlot | pushFlags | pushLocal | truncate | markUsed | markUnused | chooseFree
  | chooseVictim => simp [perform?, Missing]

/-! ### The invariant -/

theorem aligned_empty : Aligned empty :=
  ⟨Nat.le_refl _, rfl, nofun⟩

/-- **The invariant holds as long as the frame does.** Entries are not compared, only their slots,
so placements may change. -/
theorem Aligned.frames (h : s.Aligned) (hf : Frames s s') : s'.Aligned where
  height_le := by
    rw [hf.size_eq]
    exact hf.height_le.trans h.height_le
  size_eq := by rw [hf.size_eq, hf.ceiling_eq, h.size_eq]
  slot_eq i o ho := by
    have hslot : s.slot? i = some o.slot := by
      rw [← hf.slot?_eq, slot?, ho]
      rfl
    obtain ⟨o', ho', hslot⟩ := Option.map_eq_some_iff.mp hslot
    rw [← hslot, h.slot_eq i o' ho']

/-- **A push** uses the entry at the height again, or adds one when the ceiling is reached. In the
first case the ceiling is higher than the height already; in the second the two are the same, so
both rise by one. -/
theorem Aligned.push (h : s.Aligned) (p : Placement) : (s.push p).Aligned := by
  have hle := h.height_le
  have hsize := h.size_eq
  unfold OperandStack.push
  split
  · -- below the ceiling, which stays
    next hlt =>
    refine ⟨?_, ?_, fun i o ho => ?_⟩
    · rw [Array.size_setIfInBounds]
      exact hlt
    · rw [Array.size_setIfInBounds, hsize]
      exact (Nat.max_eq_left (by omega)).symm
    · simp only [Array.getElem?_setIfInBounds] at ho
      split at ho
      · next he =>
        cases ho
        exact he
      · exact h.slot_eq i o ho
  · -- at the ceiling, which rises
    next hge =>
    have heq : s.height = s.entries.size := by omega
    refine ⟨?_, ?_, fun i o ho => ?_⟩
    · rw [Array.size_push]
      exact Nat.succ_le_succ hle
    · rw [Array.size_push, ← heq]
      exact (Nat.max_eq_right (by omega)).symm
    · simp only [Array.getElem?_push] at ho
      split at ho
      · next he =>
        cases ho
        exact heq.trans he.symm
      · exact h.slot_eq i o ho

/-- **Preservation by one operation**, which raises the ceiling to the new height at most. This is
the step of the induction over histories. -/
theorem Aligned.step (h : s.Aligned) (hop : op.perform? s = some s') :
    s'.Aligned ∧ s'.ceiling = max s.ceiling s'.height := by
  rcases Operation.eq_push_or_frames hop with ⟨s₁, p, rfl, hf, -⟩ | hf
  · refine ⟨(h.frames hf).push p, ?_⟩
    show max s₁.ceiling (s₁.height + 1) = max s.ceiling (s₁.height + 1)
    rw [hf.ceiling_eq]
  · refine ⟨h.frames hf, ?_⟩
    -- no height is gained, so the new one was reached before
    have hle : s'.height ≤ s.ceiling := by
      rw [← h.size_eq]
      exact hf.height_le.trans h.height_le
    rw [hf.ceiling_eq, Nat.max_eq_left hle]

/-! ### Histories -/

/-- The heights that a history leads through. -/
def heights (ops : List Operation) : Set Nat :=
  {k | ∃ earlier s, earlier <+: ops ∧ after? earlier = some s ∧ s.height = k}

/-- Histories are carried out from the left, so the last operation can be split off. -/
theorem after?_concat (ops : List Operation) (op : Operation) :
    after? (ops ++ [op]) = (after? ops).bind op.perform? := by
  rw [after?, List.foldlM_append, after?]
  refine Option.bind_congr fun s _ => ?_
  simp

/-- **A history can be carried out** exactly if no operand is missing. By induction on the history
from its end, since what an operation asks for depends on all that went before. -/
theorem exists_after?_iff : (∃ s, after? ops = some s) ↔ Grounded ops := by
  constructor
  · rintro ⟨s, h⟩ earlier op s₁ ⟨rest, rfl⟩ hearlier hmissing
    -- an operation that is not possible would have ended the history there
    rw [after?, List.foldlM_append] at h
    obtain ⟨s₂, hnext, -⟩ := Option.bind_eq_some_iff.mp h
    rw [← after?, after?_concat, hearlier, Option.bind_some,
      (Operation.perform?_eq_none_iff s₁ op).mpr hmissing] at hnext
    cases hnext
  · intro h
    -- by induction from the end, so that the last operation is the one to look at
    induction ops using List.reverseRecOn with
    | nil => exact ⟨empty, rfl⟩
    | append_singleton ops op ih =>
      obtain ⟨s, hbefore⟩ := ih fun earlier op' s hinit =>
        h earlier op' s (hinit.trans (List.prefix_append ops [op]))
      have hthere : op.perform? s ≠ none :=
        mt (Operation.perform?_eq_none_iff s op).mp (h ops op s List.prefix_rfl hbefore)
      obtain ⟨s', hlast⟩ := Option.ne_none_iff_exists'.mp hthere
      refine ⟨s', ?_⟩
      rw [after?_concat, hbefore, Option.bind_some, hlast]

/-- One more operation adds the height it leads to, and no other. -/
theorem heights_concat (h : after? (ops ++ [op]) = some s) :
    heights (ops ++ [op]) = insert s.height (heights ops) := by
  ext k
  constructor
  · rintro ⟨earlier, s₁, hinit, hafter, rfl⟩
    rcases List.prefix_concat_iff.mp hinit with rfl | hinit
    · cases hafter.symm.trans h
      exact .inl rfl
    · exact .inr ⟨earlier, s₁, hinit, hafter, rfl⟩
  · rintro (rfl | ⟨earlier, s₁, hinit, hafter, rfl⟩)
    · exact ⟨_, s, List.prefix_rfl, h, rfl⟩
    · exact ⟨earlier, s₁, hinit.trans (List.prefix_append ops [op]), hafter, rfl⟩

/-- **Preservation by a history**: the ceiling is the greatest height it leads through. By induction
on the history from its end; the heights of the longer history are those of the shorter one and the
last one. -/
theorem aligned_after? (h : after? ops = some s) :
    s.Aligned ∧ IsGreatest (heights ops) s.ceiling := by
  induction ops using List.reverseRecOn generalizing s with
  | nil =>
    cases h
    refine ⟨aligned_empty, ⟨[], empty, List.prefix_rfl, rfl, rfl⟩, ?_⟩
    rintro k ⟨earlier, s, hinit, hafter, rfl⟩
    cases List.prefix_nil.mp hinit
    cases hafter
    exact Nat.le_refl _
  | append_singleton ops op ih =>
    -- the last operation adds one height to those that were reached before
    obtain ⟨s₁, hbefore, hlast⟩ := Option.bind_eq_some_iff.mp (after?_concat ops op ▸ h)
    obtain ⟨haligned, hgreatest⟩ := ih hbefore
    obtain ⟨haligned', hceiling⟩ := haligned.step hlast
    refine ⟨haligned', ?_⟩
    rw [heights_concat h, hceiling, max_comm]
    exact hgreatest.insert s.height

/-- **Every history keeps the stack aligned.** Whatever is done to an empty stack, as long as no
operand is missing: the height stays below the number of entries, which is the ceiling, which is the
greatest height so far, and every entry, live or not, stands at its slot. Truncating leaves the
smaller of the two heights and all the entries below, and frees the registers of the operands it
drops and no others. -/
theorem history_aligned {ops : List Operation} (h : Grounded ops) :
    ∃ s, after? ops = some s ∧ s.height ≤ s.entries.size ∧ s.entries.size = s.ceiling ∧
      IsGreatest (heights ops) s.ceiling ∧
      (∀ (i : Nat) (o : Operand), s.entries[i]? = some o → o.slot = i) ∧
      ∀ k, (s.truncate k).height = min s.height k ∧
        (∀ i, i < k → (s.truncate k).entries[i]? = s.entries[i]?) ∧
        ∀ r, r ∈ (s.truncate k).used ↔ r ∈ s.used ∧
          ¬ ∃ i, k ≤ i ∧ i < s.height ∧ s.placement? i = some (.register r) := by
  obtain ⟨s, hafter⟩ := exists_after?_iff.mpr h
  obtain ⟨haligned, hgreatest⟩ := aligned_after? hafter
  refine ⟨s, hafter, haligned.height_le, haligned.size_eq, hgreatest, haligned.slot_eq,
    fun k => ?_⟩
  -- truncating below the height drops operands, and otherwise it does nothing
  rcases Nat.le_total k s.height with hk | hk
  · have htrims := trims_truncate hk
    refine ⟨by rw [htrims.height_eq, Nat.min_eq_right hk], htrims.getElem?_eq, fun r => ?_⟩
    rw [htrims.mem_used]
    simp only [not_exists, not_and, ne_eq]
  · rw [truncate_of_le hk]
    refine ⟨(Nat.min_eq_left hk).symm, fun _ _ => rfl, fun r => ?_⟩
    refine (and_iff_left ?_).symm
    rintro ⟨i, hle, hlt, -⟩
    omega

/-- Two operands hold the same register; one of them is dropped, and its place is used again. -/
theorem history_aligned_shared :
    Grounded [.pushRegister .ax, .pushSlot, .place 1 .ax, .pushRegister .cx, .truncate 1,
        .pushLocal 0] ∧
      after? [.pushRegister .ax, .pushSlot, .place 1 .ax, .pushRegister .cx, .truncate 1,
        .pushLocal 0] = some ⟨#[⟨.register .ax, 0⟩, ⟨.ofLocal 0, 1⟩, ⟨.slot, 2⟩], 2, [], 3⟩ ∧
      IsGreatest (heights [.pushRegister .ax, .pushSlot, .place 1 .ax, .pushRegister .cx,
        .truncate 1, .pushLocal 0]) 3 := by
  have hafter : after? [.pushRegister .ax, .pushSlot, .place 1 .ax, .pushRegister .cx, .truncate 1,
      .pushLocal 0] = some ⟨#[⟨.register .ax, 0⟩, ⟨.ofLocal 0, 1⟩, ⟨.slot, 2⟩], 2, [], 3⟩ := by
    decide
  have hgrounded := exists_after?_iff.mp ⟨_, hafter⟩
  obtain ⟨s, hs, -, -, hgreatest, -⟩ := history_aligned hgrounded
  cases hafter.symm.trans hs
  exact ⟨hgrounded, hafter, hgreatest⟩

end WasmJit.OperandStack
