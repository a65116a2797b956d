import WasmJit.Frame
import Mathlib.Tactic.Common
import Mathlib.Data.List.Perm.Basic

/-!
# Nesting of the open constructs

`Frame.Nested numLocals results height frames` is the shape of the open constructs of a function at
some height of the operand stack. The outermost one is the function body, which starts above the
parameters and locals; every other one starts at or above the construct around it, and none starts
above the current height. So no distance between two heights is ever negative. When no construct is
open any more, exactly the results of the function are left above its locals.

* `Frame.Nested.leave`: closing the innermost construct.
* `Frame.pending`: the pending jumps of all constructs; `Frame.pending_modify` follows a branch.
-/

namespace WasmJit

namespace Frame

/-! ### Pending jumps -/

/-- The pending jumps to the end of a construct. -/
def jumps (f : Frame) : List Nat :=
  f.exits ++ f.otherwise.toList

/-- The pending jumps of all open constructs. -/
def pending (frames : List Frame) : List Nat :=
  frames.flatMap jumps

@[simp] theorem pending_cons (f : Frame) (frames : List Frame) :
    pending (f :: frames) = f.jumps ++ pending frames := rfl

/-- One more jump to the end of a construct. The order in which jumps are listed does not matter, so
this and the next lemmas are up to permutation. -/
theorem jumps_addExit (f : Frame) (j : Nat) : (f.addExit j).jumps.Perm (j :: f.jumps) := by
  simp only [jumps, addExit, List.append_assoc]
  exact List.perm_middle

/-- At the start of an `else` the jump to it lands, and the jumps to the end stay pending. -/
theorem pending_perm_otherwise (f : Frame) (frames : List Frame) :
    (pending (f :: frames)).Perm (f.otherwise.toList ++ (f.exits ++ pending frames)) := by
  rw [pending_cons, jumps, ← List.append_assoc]
  exact List.perm_append_comm.append_right _

/-- **A branch adds its jump to the construct that it leaves**, which may be any of the open ones.
By induction on how far out it is. -/
theorem pending_modify (frames : List Frame) (d j : Nat) (hd : d < frames.length) :
    (pending (frames.modify d (·.addExit j))).Perm (j :: pending frames) := by
  induction frames generalizing d with
  | nil => exact absurd hd (Nat.not_lt_zero d)
  | cons f frames ih =>
    cases d with
    | zero => exact (f.jumps_addExit j).append_right _
    | succ d =>
      have := ih d (Nat.lt_of_succ_lt_succ hd)
      exact (this.append_left f.jumps).trans List.perm_middle

/-! ### Nesting -/

/-- **The open constructs are nested**, with the operand stack at `height`. The height below a
construct is the height of the stack as far as the constructs around it are concerned, so the
relation goes down from the innermost construct to the function body. -/
inductive Nested (numLocals results : Nat) : (height : Nat) → List Frame → Prop
  | closed : Nested numLocals results (numLocals + results) []
  | body {height : Nat} {f : Frame} (kind : f.kind = .function) (arity : f.arity = results)
      (entry : f.entry = numLocals) (otherwise : f.otherwise = none) (le : f.entry ≤ height) :
      Nested numLocals results height [f]
  | inner {height : Nat} {f g : Frame} {fs : List Frame} (kind : f.kind ≠ .function)
      (arity : 0 ≤ f.arity) (otherwise : f.otherwise.isSome ↔ f.kind = .ifThen)
      (le : f.entry ≤ height) (outer : Nested numLocals results f.entry (g :: fs)) :
      Nested numLocals results height (f :: g :: fs)

namespace Nested

variable {numLocals results height height' : Nat} {f g : Frame} {fs frames : List Frame}

/-- The innermost construct does not start above the current height. -/
theorem entry_le (h : Nested numLocals results height (f :: fs)) : f.entry ≤ height := by
  cases h with
  | body _ _ _ _ le => exact le
  | inner _ _ _ le _ => exact le

/-- Numbers of results are integers in the emitter, but never negative. -/
theorem arity_nonneg (h : Nested numLocals results height (f :: fs)) : 0 ≤ f.arity := by
  cases h with
  | body _ arity => omega
  | inner _ arity => exact arity

/-- What is recorded about a jump to an `else` fits the kind of the construct. -/
theorem otherwise_isSome (h : Nested numLocals results height (f :: fs)) :
    f.otherwise.isSome ↔ f.kind = .ifThen := by
  cases h with
  | body kind _ _ otherwise => simp [kind, otherwise]
  | inner _ _ otherwise => exact otherwise

/-- All constructs start above the parameters and locals. -/
theorem locals_le (h : Nested numLocals results height (f :: fs)) : numLocals ≤ f.entry := by
  -- by induction from the innermost construct outwards, down to the function body
  generalize hfs : f :: fs = frames at h
  induction h generalizing f fs with
  | closed => cases hfs
  | body _ _ entry =>
    cases hfs
    omega
  | inner _ _ _ _ outer ih =>
    cases hfs
    exact Nat.le_trans (ih rfl) outer.entry_le

/-- **Only the entry height of the innermost construct bounds the height.** So operands may come and
go above it without a look at the constructs further out. -/
theorem at_height (h : Nested numLocals results height (f :: fs)) (hle : f.entry ≤ height') :
    Nested numLocals results height' (f :: fs) := by
  cases h with
  | body kind arity entry otherwise _ => exact .body kind arity entry otherwise hle
  | inner kind arity otherwise _ outer => exact .inner kind arity otherwise hle outer

/-- No construct starts above the innermost one. By induction outwards, where the entry heights go
down. -/
theorem entry_le_of_mem (h : Nested numLocals results height (f :: fs)) (hg : g ∈ f :: fs) :
    g.entry ≤ f.entry := by
  generalize hfs : f :: fs = frames at h hg
  induction h generalizing f fs with
  | closed => cases hfs
  | body =>
    cases hfs
    exact Nat.le_of_eq (congrArg Frame.entry (List.mem_singleton.mp hg))
  | inner _ _ _ _ outer ih =>
    cases hfs
    rcases List.mem_cons.mp hg with rfl | hg
    · exact Nat.le_refl _
    · exact Nat.le_trans (ih rfl hg) outer.entry_le

/-- No construct starts above the current height. -/
theorem entry_le_height (h : Nested numLocals results height frames) (hg : g ∈ frames) :
    g.entry ≤ height := by
  cases frames with
  | nil => cases hg
  | cons f fs => exact Nat.le_trans (h.entry_le_of_mem hg) h.entry_le

/-- In the form in which a branch finds the construct it leaves. -/
theorem entry_le_of_drop (h : Nested numLocals results height (f :: fs)) {d : Nat}
    {gs : List Frame} (hd : (f :: fs).drop d = g :: gs) : g.entry ≤ f.entry :=
  h.entry_le_of_mem (List.mem_of_mem_drop (hd ▸ List.mem_cons_self))

/-- **Every open construct is itself the innermost one of those around it**, at the height at which
the next one was opened. So what is known of the innermost construct is known of all. -/
theorem drop (h : Nested numLocals results height frames) {d : Nat} (hg : frames[d]? = some g) :
    ∃ height fs, frames.drop d = g :: fs ∧ Nested numLocals results height (g :: fs) := by
  induction h generalizing d with
  | closed => cases hg
  | @body height f kind arity entry otherwise le =>
    obtain ⟨rfl, rfl⟩ : d = 0 ∧ f = g := by
      -- dropping nothing, or what is dropped from the constructs around it
      cases d with
      | zero => exact ⟨rfl, Option.some.inj hg⟩
      | succ d => cases hg
    exact ⟨height, [], rfl, .body kind arity entry otherwise le⟩
  | @inner height f g' fs kind arity otherwise le outer ih =>
    cases d with
    | zero =>
      cases hg
      exact ⟨height, g' :: fs, rfl, .inner kind arity otherwise le outer⟩
    | succ d => exact ih hg

/-- Opening a construct at the current height. -/
theorem enter (h : Nested numLocals results height (g :: fs)) (kind : f.kind ≠ .function)
    (arity : 0 ≤ f.arity) (otherwise : f.otherwise.isSome ↔ f.kind = .ifThen)
    (entry : f.entry = height) : Nested numLocals results height (f :: g :: fs) :=
  .inner kind arity otherwise (by omega) (entry ▸ h)

/-- **Closing the innermost construct** leaves its results, for which there is room above the
construct around it. When the function body is closed, no construct is left and the height is that
of the results. -/
theorem leave (h : Nested numLocals results height (f :: fs)) :
    Nested numLocals results (f.entry + f.arity.toNat) fs := by
  cases h with
  | body _ arity entry =>
    -- only the results of the function are left above its locals
    rw [arity, entry]
    exact .closed
  | inner _ _ _ _ outer => exact outer.at_height (Nat.le_trans outer.entry_le (Nat.le_add_right ..))

/-- The outermost construct is the function, and it is the only one. -/
theorem kind_eq_function (h : Nested numLocals results height (f :: fs)) :
    f.kind = .function ↔ fs = [] := by
  cases h with
  | body kind => simp [kind]
  | inner kind => simp [kind]

/-- After the end of a function its results are all that is there. -/
theorem height_eq (h : Nested numLocals results height []) : height = numLocals + results := by
  cases h with
  | closed => rfl

/-- The function body starts above the parameters and locals. -/
theorem entry_eq (h : Nested numLocals results height [f]) : f.entry = numLocals := by
  cases h with
  | body _ _ entry => exact entry

/-- The function body is at the bottom of the open constructs, and nowhere else. -/
theorem kind_eq_function_iff (h : Nested numLocals results height frames) {d : Nat}
    (hg : frames[d]? = some g) : g.kind = .function ↔ d + 1 = frames.length := by
  obtain ⟨_, fs, hdrop, hnested⟩ := h.drop hg
  -- how many constructs are further out is what is left of the list
  have hlength : frames.length - d = fs.length + 1 := by
    rw [← List.length_drop, hdrop, List.length_cons]
  rw [hnested.kind_eq_function, ← List.length_eq_zero_iff]
  omega

/-- The construct at the bottom starts right above the parameters and locals. -/
theorem entry_eq_of_bottom (h : Nested numLocals results height frames) {d : Nat}
    (hg : frames[d]? = some g) (hd : d + 1 = frames.length) : g.entry = numLocals := by
  obtain ⟨_, fs, hdrop, hnested⟩ := h.drop hg
  obtain rfl : fs = [] :=
    hnested.kind_eq_function.mp ((h.kind_eq_function_iff hg).mpr hd)
  exact hnested.entry_eq

/-- No construct starts below one that it stands in. -/
theorem pairwise_entry (h : Nested numLocals results height frames) :
    frames.Pairwise fun inner outer => outer.entry ≤ inner.entry := by
  induction h with
  | closed => exact .nil
  | body => exact List.pairwise_singleton _ _
  | inner kind arity otherwise le outer ih =>
    refine List.pairwise_cons.mpr ⟨fun g hg => ?_, ih⟩
    exact Nat.le_trans (outer.entry_le_of_mem hg) outer.entry_le

/-- A jump to an `else` is pending exactly while the first arm of an `if` is open. -/
theorem otherwise_isSome_of_mem (h : Nested numLocals results height frames) (hg : g ∈ frames) :
    g.otherwise.isSome ↔ g.kind = .ifThen := by
  obtain ⟨d, hd⟩ := List.getElem?_of_mem hg
  obtain ⟨_, _, -, hnested⟩ := h.drop hd
  exact hnested.otherwise_isSome

/-- **An `if` goes on with its `else`**, possibly left by one more jump. It starts again at its
entry height. -/
theorem enter_else (h : Nested numLocals results height (f :: fs)) (hk : f.kind = .ifThen)
    (exits : List Nat) : Nested numLocals results f.entry
      ({ f with kind := .ifElse, exits, otherwise := none } :: fs) := by
  cases h with
  | body kind =>
    -- the function body is no `if`
    rw [hk] at kind
    cases kind
  | inner _ arity _ _ outer => exact .inner (by simp) arity (by simp) (Nat.le_refl _) outer

/-- A branch out of a construct does not change how constructs are nested. -/
theorem modify (h : Nested numLocals results height frames) (d j : Nat) :
    Nested numLocals results height (frames.modify d (·.addExit j)) := by
  induction h generalizing d with
  | closed => simpa using .closed
  | body kind arity entry otherwise le =>
    cases d with
    | zero => exact .body kind arity entry otherwise le
    | succ d => simpa using .body kind arity entry otherwise le
  | inner kind arity otherwise le outer ih =>
    cases d with
    | zero => exact .inner kind arity otherwise le outer
    | succ d =>
      -- whether it is the next construct that changes or a later one, its entry stays
      have := ih d
      cases d with
      | zero => exact .inner kind arity otherwise le this
      | succ d => exact .inner kind arity otherwise le this

end Nested

end Frame

end WasmJit
