import WasmJit.Proofs.Compilation.Invariant
import WasmJit.Proofs.Format.Bodies
import Mathlib.Data.List.Forall2

/-!
# Validation

Whether a body is valid is decided by types: `Validation.State` holds the types of the operands and
the open constructs. After a branch or a trap the rest of a construct cannot be reached, and there
any operand may be taken from below what is known of the stack. So dead code is checked like live
code, construct by construct, while the height analysis only counts through it.

* `Validation.State.step` checks one instruction; `Function.Valid` is about a whole body.
* `Validation.Tracks` relates a check to the height analysis. In dead code the constructs of the
  analysis are those that were open when the code became dead, and the innermost one of them is the
  only one whose rest cannot be reached.
* `Validation.Tracks.step` follows one instruction, `Function.compile_of_valid` a valid body.
-/

namespace WasmJit

/-- The types of what a construct leaves behind. -/
def BlockType.types : BlockType → List ValueType
  | .empty => []
  | .i32 => [.i32]

/-- A construct leaves behind as many values as its block type says. -/
theorem BlockType.length_types (type : BlockType) : type.types.length = type.arity := by
  cases type <;> rfl

namespace Validation

/-- An open construct. There are no loops, so a branch out of it takes along its results. -/
structure Control where
  kind : FrameKind
  results : List ValueType
  /-- The number of operands below it. -/
  height : Nat
  /-- Whether the rest of it cannot be reached. -/
  unreachable : Bool
deriving DecidableEq, Repr

/-- What is known in front of an instruction, with the topmost operand and the innermost construct
first. -/
structure State where
  operands : List ValueType
  controls : List Control
deriving DecidableEq, Repr

namespace State

def push (s : State) (type : ValueType) : State :=
  { s with operands := type :: s.operands }

/-- Pushes values of the given types, the first one first. -/
def pushAll (s : State) (types : List ValueType) : State :=
  types.foldl push s

/-- Pops an operand of the innermost construct. -/
def pop (s : State) (type : ValueType) : Option State :=
  match s.controls with
  | [] => none
  | c :: _ =>
    if s.operands.length = c.height then
      -- what cannot be reached may assume any operand
      if c.unreachable then some s else none
    else
      match s.operands with
      | [] => none
      | top :: rest => if top = type then some { s with operands := rest } else none

/-- Pops values of the given types, the last one first. -/
def popAll (s : State) (types : List ValueType) : Option State :=
  types.reverse.foldlM pop s

/-- Opens a construct. -/
def enter (s : State) (kind : FrameKind) (results : List ValueType) : State :=
  { s with controls := ⟨kind, results, s.operands.length, false⟩ :: s.controls }

/-- Closes the innermost construct, which has to have exactly its results left. -/
def leave (s : State) : Option (Control × State) :=
  match s.controls with
  | [] => none
  | c :: outer => do
    let s ← s.popAll c.results
    if s.operands.length = c.height then some (c, { s with controls := outer }) else none

/-- The rest of the innermost construct cannot be reached. Its operands are forgotten. -/
def abandon (s : State) : Option State :=
  match s.controls with
  | [] => none
  | c :: outer =>
    some ⟨s.operands.drop (s.operands.length - c.height), { c with unreachable := true } :: outer⟩

/-- Goes on with the `else` of an `if`. -/
def separate (s : State) : Option State := do
  let (c, s) ← s.leave
  if c.kind = .ifThen then some (s.enter .ifElse c.results) else none

/-- An `if` without an `else` stands for one whose `else` is empty. -/
def complete (s : State) : Option State :=
  match s.controls with
  | [] => none
  | c :: _ => if c.kind = .ifThen then s.separate else some s

/-- Checks an instruction inside of some construct. -/
def check (locals : List ValueType) (s : State) : Instruction → Option State
  | .localGet index => (locals[index.toNat]?).map s.push
  | .add | .eq => do
    let s ← s.popAll [.i32, .i32]
    return s.push .i32
  | .block type => some (s.enter .block type.types)
  | .if_ type => do
    let s ← s.pop .i32
    return s.enter .ifThen type.types
  | .else_ => s.separate
  | .end_ => do
    let s ← s.complete
    let (c, s) ← s.leave
    return s.pushAll c.results
  | .br depth => do
    let c ← s.controls[depth.toNat]?
    let s ← s.popAll c.results
    s.abandon
  | .brIf depth => do
    let c ← s.controls[depth.toNat]?
    let s ← s.pop .i32
    let s ← s.popAll c.results
    return s.pushAll c.results
  | .unreachable => s.abandon

/-- **Checks one instruction**; nothing may follow the end of the function. -/
def step (locals : List ValueType) (s : State) (i : Instruction) : Option State :=
  if s.controls.isEmpty then none else s.check locals i

end State

/-- What is known in front of the first instruction of a function. -/
def start (results : List ValueType) : State :=
  ⟨[], [⟨.function, results, 0, false⟩]⟩

end Validation

/-- The types of the parameters and locals. -/
def Function.localTypes (f : Function) : List ValueType :=
  f.type.params ++ List.replicate f.code.numLocals.toNat .i32

/-- **A valid body**: all instructions are checked, and the last one closes the function. -/
def Function.Valid (f : Function) (body : List Instruction) : Prop :=
  (body.foldlM (Validation.State.step f.localTypes) (Validation.start f.type.results)).map
    (·.controls) = some []

namespace Validation

namespace State

variable {s s' s'' : State} {c : Control} {outer : List Control}

/-! ### Operands and constructs -/

/-- Constructs start at or above the ones around them, and none above the operands. -/
def Nested (s : State) : Prop :=
  (s.operands.length :: s.controls.map (·.height)).Pairwise (· ≥ ·)

/-- Only the innermost construct has to be compared with the operands, as the others start at or
below it. -/
theorem nested_iff (hcontrols : s.controls = c :: outer) :
    s.Nested ↔ c.height ≤ s.operands.length ∧
      (c.height :: outer.map (·.height)).Pairwise (· ≥ ·) := by
  unfold Nested
  rw [hcontrols, List.map_cons]
  constructor
  · intro h
    obtain ⟨hhead, htail⟩ := List.pairwise_cons.mp h
    exact ⟨hhead _ List.mem_cons_self, htail⟩
  · rintro ⟨hle, htail⟩
    refine List.pairwise_cons.mpr ⟨fun n hn => ?_, htail⟩
    rcases List.mem_cons.mp hn with rfl | hn
    · exact hle
    · exact Nat.le_trans ((List.pairwise_cons.mp htail).1 n hn) hle

/-- More operands do no harm: no construct starts above them. -/
theorem Nested.grow (h : s.Nested) (hcontrols : s'.controls = s.controls)
    (hle : s.operands.length ≤ s'.operands.length) : s'.Nested := by
  unfold Nested at h ⊢
  obtain ⟨hhead, htail⟩ := List.pairwise_cons.mp h
  rw [hcontrols]
  exact List.pairwise_cons.mpr ⟨fun n hn => Nat.le_trans (hhead n hn) hle, htail⟩

/-- A construct that is opened starts at the operands that are there. -/
theorem Nested.enter (h : s.Nested) (kind : FrameKind) (results : List ValueType) :
    (s.enter kind results).Nested := by
  have hcontrols : (s.enter kind results).controls =
      ⟨kind, results, s.operands.length, false⟩ :: s.controls := rfl
  exact (nested_iff hcontrols).mpr ⟨Nat.le_refl _, h⟩

/-- **Popping `n` operands**: where the innermost construct can be reached, there were that many.
Where it cannot, nothing is known about their number. -/
structure Pops (n : Nat) (s s' : State) : Prop where
  controls : s'.controls = s.controls
  nested : s.Nested → s'.Nested
  length : s.Nested → ∀ c ∈ s.controls.head?, c.unreachable = false →
    s.operands.length = s'.operands.length + n

theorem Pops.refl (s : State) : Pops 0 s s :=
  ⟨rfl, id, fun _ _ _ _ => rfl⟩

theorem Pops.trans {n n' : Nat} (h : Pops n s s') (h' : Pops n' s' s'') :
    Pops (n + n') s s'' := by
  refine ⟨h'.controls.trans h.controls, h'.nested ∘ h.nested, fun hnested c hc hreach => ?_⟩
  have hfirst := h.length hnested c hc hreach
  have hsecond := h'.length (h.nested hnested) c (h.controls ▸ hc) hreach
  omega

/-- Popping one operand, which is there unless it is assumed. -/
theorem pops_pop {type : ValueType} (h : s.pop type = some s') : Pops 1 s s' := by
  unfold pop at h
  split at h
  · cases h
  · next c outer hcontrols =>
    split at h
    · -- nothing is left of the innermost construct, so this operand is assumed
      split at h
      · next hunreach =>
        cases h
        refine ⟨rfl, id, fun _ c' hc' hreach => ?_⟩
        rw [hcontrols] at hc'
        cases hc'
        cases hunreach.symm.trans hreach
      · cases h
    -- an operand is there, and the innermost construct starts at or below the rest
    · next hne =>
      split at h
      · cases h
      · next top rest hoperands =>
        split at h
        · cases h
          rw [hoperands, List.length_cons] at hne
          refine ⟨rfl, fun hnested => ?_, fun _ _ _ _ => by rw [hoperands]; rfl⟩
          obtain ⟨hle, houter⟩ := (nested_iff hcontrols).mp hnested
          rw [hoperands, List.length_cons] at hle
          have hle' : c.height ≤ rest.length := by omega
          exact (nested_iff (s := { s with operands := rest }) hcontrols).mpr ⟨hle', houter⟩
        · cases h

theorem pops_foldlM {types : List ValueType} (h : types.foldlM pop s = some s') :
    Pops types.length s s' := by
  induction types generalizing s with
  | nil =>
    cases h
    exact .refl _
  | cons type types ih =>
    rw [List.foldlM_cons] at h
    obtain ⟨s₁, hpop, h⟩ := Option.bind_eq_some_iff.mp h
    have hpops := (pops_pop hpop).trans (ih h)
    rwa [Nat.add_comm] at hpops

/-- Popping operands in the order in which they were pushed. -/
theorem pops_popAll {types : List ValueType} (h : s.popAll types = some s') :
    Pops types.length s s' := by
  have hpops := pops_foldlM h
  rwa [List.length_reverse] at hpops

@[simp] theorem controls_pushAll (s : State) (types : List ValueType) :
    (s.pushAll types).controls = s.controls := by
  induction types generalizing s with
  | nil => rfl
  | cons type types ih => exact ih (s.push type)

@[simp] theorem length_pushAll (s : State) (types : List ValueType) :
    (s.pushAll types).operands.length = s.operands.length + types.length := by
  induction types generalizing s with
  | nil => rfl
  | cons type types ih =>
    rw [pushAll, List.foldl_cons]
    exact (ih (s.push type)).trans (by simp only [push, List.length_cons]; omega)

theorem Nested.pushAll (h : s.Nested) (types : List ValueType) : (s.pushAll types).Nested :=
  h.grow (controls_pushAll s types) (by simp)

/-- **The end of a construct**, with its results left if it can be reached. -/
structure Exits (s : State) (c : Control) (outer : List Control) : Prop where
  controls : s.controls = c :: outer
  length : c.unreachable = false → s.operands.length = c.height + c.results.length

/-- **A construct that can be left** is at its end, and what is left starts where it did. That the
heights are nested is known from the constructs around it. -/
theorem exits_of_leave (h : s.leave = some (c, s')) (hnested : s.Nested) :
    ∃ outer, s.Exits c outer ∧ s'.controls = outer ∧ s'.operands.length = c.height ∧
      s'.Nested := by
  unfold leave at h
  split at h
  · cases h
  · next c' outer hcontrols =>
    obtain ⟨s₁, hpop, h⟩ := Option.bind_eq_some_iff.mp h
    have hpops := pops_popAll hpop
    split at h
    · next hheight =>
      cases h
      -- what is left has the height of the construct, and those around it start at or below it
      obtain ⟨-, houter⟩ := (nested_iff hcontrols).mp hnested
      refine ⟨outer, ⟨hcontrols, fun hreach => ?_⟩, rfl, hheight, ?_⟩
      · rw [← hheight]
        exact hpops.length hnested c (by rw [hcontrols]; rfl) hreach
      · unfold Nested
        rw [hheight]
        exact houter
    · cases h

/-- Going on with an `else`: the `if` is at the end of its first arm, and its second starts with the
same operands below it. -/
theorem exits_of_separate (h : s.separate = some s') (hnested : s.Nested) :
    ∃ c outer, s.Exits c outer ∧ c.kind = .ifThen ∧
      s'.controls = ⟨.ifElse, c.results, c.height, false⟩ :: outer ∧
      s'.operands.length = c.height ∧ s'.Nested := by
  obtain ⟨⟨c, s₁⟩, hleave, h⟩ := Option.bind_eq_some_iff.mp h
  obtain ⟨outer, hexits, rfl, hheight, hnested'⟩ := exits_of_leave hleave hnested
  dsimp only at h
  split at h
  · next hkind =>
    cases h
    exact ⟨c, _, hexits, hkind, by rw [enter, hheight], hheight, hnested'.enter _ _⟩
  · cases h

/-- Going on after an `end`. An `if` without an `else` has no results, since its `else` is empty. -/
theorem exits_of_end {locals : List ValueType} (h : s.check locals .end_ = some s')
    (hnested : s.Nested) :
    ∃ c outer, s.Exits c outer ∧ (c.kind = .ifThen → c.results = []) ∧ s'.controls = outer ∧
      s'.operands.length = c.height + c.results.length ∧ s'.Nested := by
  obtain ⟨s₁, hcomplete, h⟩ := Option.bind_eq_some_iff.mp h
  obtain ⟨⟨c', s₂⟩, hleave, h⟩ := Option.bind_eq_some_iff.mp h
  cases h
  unfold complete at hcomplete
  split at hcomplete
  · cases hcomplete
  · next c outer hcontrols =>
    split at hcomplete
    -- an empty `else` is checked in its place
    · next hkind =>
      obtain ⟨c, outer, hexits, -, hcontrols₁, hheight₁, hnested₁⟩ :=
        exits_of_separate hcomplete hnested
      obtain ⟨outer', hexits₁, rfl, hheight, hnested₂⟩ := exits_of_leave hleave hnested₁
      cases hcontrols₁.symm.trans hexits₁.controls
      -- nothing was pushed in the `else`, so there are no results
      have hresults : c.results = [] := by
        have hlength := hexits₁.length rfl
        dsimp only at hlength
        exact List.eq_nil_of_length_eq_zero (by omega)
      exact ⟨c, _, hexits, fun _ => hresults, by simp, by simp [hheight], hnested₂.pushAll _⟩
    · next hkind =>
      cases hcomplete
      obtain ⟨outer', hexits, rfl, hheight, hnested'⟩ := exits_of_leave hleave hnested
      cases hcontrols.symm.trans hexits.controls
      exact ⟨c', _, hexits, fun h => absurd h hkind, by simp, by simp [hheight],
        hnested'.pushAll _⟩

/-- The rest of the innermost construct is given up, and with it the operands above its start. -/
theorem controls_of_abandon (h : s.abandon = some s') :
    ∃ c outer, s.controls = c :: outer ∧
      s'.controls = { c with unreachable := true } :: outer ∧ (s.Nested → s'.Nested) := by
  unfold abandon at h
  split at h
  · cases h
  · next c outer hcontrols =>
    cases h
    refine ⟨c, outer, hcontrols, rfl, fun hnested => ?_⟩
    -- exactly the operands above the start of the construct are dropped
    obtain ⟨hle, houter⟩ := (nested_iff hcontrols).mp hnested
    have hcontrols' : (⟨s.operands.drop (s.operands.length - c.height),
        { c with unreachable := true } :: outer⟩ : State).controls = _ :: _ := rfl
    refine (nested_iff hcontrols').mpr ⟨?_, houter⟩
    rw [List.length_drop]
    exact Nat.le_of_eq (by dsimp only; omega)

/-- Straight-line instructions and branches do not change the constructs, but may give up the rest
of the innermost one. -/
def Stays (s s' : State) : Prop :=
  s'.controls = s.controls ∨
    ∃ c outer, s.controls = c :: outer ∧ s'.controls = { c with unreachable := true } :: outer

/-- A construct that was given up, and those around it, stay the same. The innermost construct may
change at most in that it is given up, and this one is given up already. -/
theorem Stays.drop_eq (h : s.Stays s') {depth : Nat}
    (hcontrols : s.controls.drop depth = c :: outer) (hunreach : c.unreachable = true) :
    s'.controls.drop depth = c :: outer := by
  rcases h with heq | ⟨c', outer', heq, heq'⟩
  · rw [heq]
    exact hcontrols
  · rw [heq] at hcontrols
    rw [heq']
    cases depth with
    | zero =>
      cases hcontrols
      -- it was given up before
      obtain ⟨kind, results, height, unreachable⟩ := c
      cases hunreach
      rfl
    | succ depth => exact hcontrols

/-- What is neither the start nor the end of an arm stays in its construct. By cases on the
instruction, along what it pops and pushes. -/
theorem stays_of_check {locals : List ValueType} {i : Instruction}
    (h : s.check locals i = some s') (hopens : ∀ type, i ≠ .block type ∧ i ≠ .if_ type)
    (helse : i ≠ .else_) (hend : i ≠ .end_) (hnested : s.Nested) : s.Stays s' ∧ s'.Nested := by
  cases i with
  | block type => exact absurd rfl (hopens type).1
  | if_ type => exact absurd rfl (hopens type).2
  | else_ => exact absurd rfl helse
  | end_ => exact absurd rfl hend
  -- what is popped and pushed again leaves the constructs as they are
  | localGet index =>
    obtain ⟨type, -, rfl⟩ := Option.map_eq_some_iff.mp h
    exact ⟨.inl rfl, hnested.grow rfl (Nat.le_succ _)⟩
  | add | eq =>
    obtain ⟨s₁, hpop, h⟩ := Option.bind_eq_some_iff.mp h
    cases h
    have hpops := pops_popAll hpop
    exact ⟨.inl hpops.controls, (hpops.nested hnested).grow rfl (Nat.le_succ _)⟩
  -- a branch and a trap also give up the rest of the innermost one
  | br depth =>
    obtain ⟨c, -, h⟩ := Option.bind_eq_some_iff.mp h
    obtain ⟨s₁, hpop, h⟩ := Option.bind_eq_some_iff.mp h
    have hpops := pops_popAll hpop
    obtain ⟨c, outer, hcontrols, hcontrols', hnested'⟩ := controls_of_abandon h
    exact ⟨.inr ⟨c, outer, hpops.controls ▸ hcontrols, hcontrols'⟩,
      hnested' (hpops.nested hnested)⟩
  | brIf depth =>
    obtain ⟨c, -, h⟩ := Option.bind_eq_some_iff.mp h
    obtain ⟨s₁, hpop, h⟩ := Option.bind_eq_some_iff.mp h
    obtain ⟨s₂, hpopAll, h⟩ := Option.bind_eq_some_iff.mp h
    cases h
    have hpops := (pops_pop hpop).trans (pops_popAll hpopAll)
    exact ⟨.inl (by rw [controls_pushAll, hpops.controls]),
      (hpops.nested hnested).pushAll _⟩
  | unreachable =>
    obtain ⟨c, outer, hcontrols, hcontrols', hnested'⟩ := controls_of_abandon h
    exact ⟨.inr ⟨c, outer, hcontrols, hcontrols'⟩, hnested' hnested⟩

end State

/-! ### Checking and counting -/

/-- The same construct, in the check and in the height analysis. The analysis counts the locals
among the operands, and of the results it only knows the number. -/
structure Control.Matches (numLocals : Nat) (c : Control) (scope : Scope) : Prop where
  kind : scope.kind = c.kind
  arity : scope.arity = c.results.length
  entry : scope.entry = numLocals + c.height

/-- **A check and the height analysis of the same code.** This is the invariant that a valid body
keeps, instruction by instruction. -/
inductive Tracks (numLocals : Nat) (s : State) (a : Heights) : Prop
  /-- In live code they know the same constructs and the same operands. -/
  | live (dead : a.dead = none) (scopes : List.Forall₂ (·.Matches numLocals) s.controls a.scopes)
      (reachable : ∀ c ∈ s.controls, c.unreachable = false)
      (height : a.height = numLocals + s.operands.length) (nested : s.Nested)
  /-- In dead code the analysis only counts the constructs opened in it. -/
  | dead {depth : Nat} {c : Control} {outer : List Control} (dead : a.dead = some depth)
      (controls : s.controls.drop depth = c :: outer)
      (scopes : List.Forall₂ (·.Matches numLocals) (c :: outer) a.scopes)
      (unreachable : c.unreachable = true) (reachable : ∀ c ∈ outer, c.unreachable = false)
      (nested : s.Nested)

section Steps

variable {numLocals : Nat} {s s' : State} {a : Heights} {c : Control} {outer : List Control}
  {scope : Scope} {scopes : List Scope} {locals : List ValueType} {i : Instruction}

/-- The construct that a branch leaves is known to the analysis under the same depth. -/
theorem exists_scope {controls : List Control}
    (h : List.Forall₂ (·.Matches numLocals) controls scopes) {depth : Nat}
    (hc : controls[depth]? = some c) : ∃ scope, scopes[depth]? = some scope ∧
      c.Matches numLocals scope := by
  obtain ⟨hlt, rfl⟩ := List.getElem?_eq_some_iff.mp hc
  have hlt' : depth < scopes.length := h.length_eq ▸ hlt
  exact ⟨_, List.getElem?_eq_getElem hlt', h.get hlt hlt'⟩

/-- Operands that the check pops are there for the analysis as well: in code that can be reached,
both know the same number of them. -/
theorem require_eq_ok {n : Nat} (h : State.Pops n s s') (hcontrols : s.controls = c :: outer)
    (hreach : c.unreachable = false) (hmatches : c.Matches numLocals scope)
    (hheight : a.height = numLocals + s.operands.length) (hnested : s.Nested) :
    a.require scope n = .ok () ∧ a.height = numLocals + s'.operands.length + n := by
  have hlength := h.length hnested c (by rw [hcontrols]; rfl) hreach
  have hle := ((State.nested_iff (h.controls.trans hcontrols)).mp (h.nested hnested)).1
  have hentry := hmatches.entry
  refine ⟨if_neg ?_, by omega⟩
  omega

/-- The results of a construct that the check closes are there for the analysis as well, and no
other operands are. -/
theorem requireExit_eq_ok (h : s.Exits c outer) (hreach : c.unreachable = false)
    (hmatches : c.Matches numLocals scope)
    (hheight : a.height = numLocals + s.operands.length) : a.requireExit scope = .ok () := by
  have hlength := h.length hreach
  have hentry := hmatches.entry
  have harity := hmatches.arity
  refine if_pos ?_
  omega

/-- The analysis goes on after a construct, since an `if` without `else` that passes the check has
no results. -/
theorem leave_eq_ok (hmatches : c.Matches numLocals scope)
    (hresults : c.kind = .ifThen → c.results = []) :
    a.leave scope scopes =
      .ok ({ a with scopes, dead := none }.raise (scope.entry + scope.arity)) := by
  refine if_neg ?_
  rintro ⟨hkind, hpos⟩
  rw [hmatches.arity, hresults (hmatches.kind.symm.trans hkind)] at hpos
  exact Nat.lt_irrefl 0 hpos

/-- After the end of a construct the code is live, with its results on top of what was there before
it. -/
theorem Tracks.of_leave (hmatches : c.Matches numLocals scope)
    (hscopes : List.Forall₂ (·.Matches numLocals) s'.controls scopes)
    (hreach : ∀ c ∈ s'.controls, c.unreachable = false)
    (hlength : s'.operands.length = c.height + c.results.length) (hnested : s'.Nested) :
    Tracks numLocals s' ({ a with scopes, dead := none }.raise (scope.entry + scope.arity)) := by
  refine .live rfl hscopes hreach ?_ hnested
  have hentry := hmatches.entry
  have harity := hmatches.arity
  simp only [Heights.raise]
  omega

/-- In the `else` of a construct the code is live, however the first arm ended. -/
theorem Tracks.of_separate (hmatches : c.Matches numLocals scope)
    (hscopes : List.Forall₂ (·.Matches numLocals) outer scopes)
    (hreach : ∀ c ∈ outer, c.unreachable = false)
    (hcontrols : s'.controls = ⟨.ifElse, c.results, c.height, false⟩ :: outer)
    (hlength : s'.operands.length = c.height) (hnested : s'.Nested) :
    Tracks numLocals s' (a.enterElse scope scopes) := by
  refine .live rfl ?_ ?_ ?_ hnested
  · rw [hcontrols]
    exact .cons ⟨rfl, hmatches.arity, hmatches.entry⟩ hscopes
  · rw [hcontrols]
    exact List.forall_mem_cons.mpr ⟨rfl, hreach⟩
  · rw [hlength]
    exact hmatches.entry

/-- After a branch or a trap the code is dead. The analysis keeps its constructs, the innermost of
which is now the one that was given up. -/
theorem Tracks.of_abandon (h : s.abandon = some s') (hcontrols : s.controls = c :: outer)
    (hscopes : List.Forall₂ (·.Matches numLocals) (c :: outer) a.scopes)
    (hreach : ∀ c ∈ outer, c.unreachable = false) (hnested : s.Nested) :
    Tracks numLocals s' { a with dead := some 0 } := by
  obtain ⟨c', outer', hcontrols', hgiven, hnested'⟩ := State.controls_of_abandon h
  cases hcontrols.symm.trans hcontrols'
  obtain ⟨scope, scopes, hinner, houter, hscopes⟩ := List.forall₂_cons_left_iff.mp hscopes
  refine .dead rfl hgiven ?_ rfl hreach (hnested' hnested)
  rw [hscopes]
  exact .cons ⟨hinner.kind, hinner.arity, hinner.entry⟩ houter

/-- **An instruction in live code.** By cases on the instruction: each check that the analysis makes
is implied by one of the validation (`require_eq_ok`, `requireExit_eq_ok`, `leave_eq_ok`), and the
heights change by as much as there are operands pushed and popped. -/
theorem Tracks.step_live (hlocals : locals.length = numLocals) (hdead : a.dead = none)
    (hscopes : a.scopes = scope :: scopes) (hcontrols : s.controls = c :: outer)
    (hmatches : List.Forall₂ (·.Matches numLocals) (c :: outer) (scope :: scopes))
    (hreach : ∀ c' ∈ c :: outer, c'.unreachable = false)
    (hheight : a.height = numLocals + s.operands.length) (hnested : s.Nested)
    (h : s.check locals i = some s') :
    ∃ a', a.stepLive numLocals scope scopes i = .ok a' ∧ Tracks numLocals s' a' := by
  obtain ⟨hinner, houter⟩ := List.forall₂_cons.mp hmatches
  obtain ⟨hreachInner, hreachOuter⟩ := List.forall_mem_cons.mp hreach
  have hsame : List.Forall₂ (·.Matches numLocals) s.controls a.scopes := by
    rw [hcontrols, hscopes]
    exact hmatches
  cases i with
  | localGet index =>
    obtain ⟨type, htype, rfl⟩ := Option.map_eq_some_iff.mp h
    have hlt : index.toNat < numLocals := hlocals ▸ (List.getElem?_eq_some_iff.mp htype).1
    refine ⟨_, if_neg (Nat.not_le.mpr hlt), .live hdead hsame (hcontrols ▸ hreach) ?_ ?_⟩
    · simp only [Heights.raise, State.push, List.length_cons]
      omega
    · exact hnested.grow rfl (Nat.le_succ _)
  -- two operands are popped for one that is pushed
  | add | eq =>
    obtain ⟨s₁, hpop, h⟩ := Option.bind_eq_some_iff.mp h
    cases h
    have hpops := State.pops_popAll hpop
    obtain ⟨hrequire, hlength⟩ :=
      require_eq_ok hpops hcontrols hreachInner hinner hheight hnested
    refine ⟨{ a with height := a.height - 1 }, ?_, .live hdead ?_ ?_ ?_ ?_⟩
    · exact congrArg (· >>= fun _ => _) hrequire
    · exact hpops.controls ▸ hsame
    · exact hpops.controls ▸ hcontrols ▸ hreach
    · simp only [State.push, List.length_cons, List.length_nil] at hlength ⊢
      omega
    · exact (hpops.nested hnested).grow rfl (Nat.le_succ _)
  -- the construct that is opened starts at the same height for both
  | block type =>
    cases h
    refine ⟨_, rfl, .live hdead (.cons ⟨rfl, type.length_types.symm, hheight⟩ hsame) ?_ hheight
      (hnested.enter _ _)⟩
    exact List.forall_mem_cons.mpr ⟨rfl, hcontrols ▸ hreach⟩
  | if_ type =>
    obtain ⟨s₁, hpop, h⟩ := Option.bind_eq_some_iff.mp h
    cases h
    have hpops := State.pops_pop hpop
    obtain ⟨hrequire, hlength⟩ :=
      require_eq_ok hpops hcontrols hreachInner hinner hheight hnested
    have hheight' : a.height - 1 = numLocals + s₁.operands.length := by omega
    refine ⟨_, congrArg (· >>= fun _ => _) hrequire, .live hdead
      (.cons ⟨rfl, type.length_types.symm, hheight'⟩ (hpops.controls ▸ hsame)) ?_ hheight'
      ((hpops.nested hnested).enter _ _)⟩
    exact List.forall_mem_cons.mpr ⟨rfl, hpops.controls ▸ hcontrols ▸ hreach⟩
  -- the arm has its results and no other operands, for the check and so for the analysis
  | else_ =>
    obtain ⟨c', outer', hexits, hkind, hcontrols', hlength, hnested'⟩ :=
      State.exits_of_separate h hnested
    cases hcontrols.symm.trans hexits.controls
    have hthen : Heights.requireThen scope = .ok () := if_pos (hinner.kind.trans hkind)
    have hexit := requireExit_eq_ok hexits hreachInner hinner hheight
    refine ⟨a.enterElse scope scopes, ?_,
      .of_separate hinner houter hreachOuter hcontrols' hlength hnested'⟩
    simp only [Heights.stepLive, hthen, hexit]
    rfl
  | end_ =>
    obtain ⟨c', outer', hexits, hresults, rfl, hlength, hnested'⟩ :=
      State.exits_of_end h hnested
    cases hcontrols.symm.trans hexits.controls
    have hexit := requireExit_eq_ok hexits hreachInner hinner hheight
    refine ⟨_, ?_, .of_leave (a := a) hinner houter hreachOuter hlength hnested'⟩
    simp only [Heights.stepLive, hexit]
    exact leave_eq_ok hinner hresults
  | br depth =>
    -- the operands above the results are dropped with the construct, so only the check matters
    obtain ⟨g, hg, h⟩ := Option.bind_eq_some_iff.mp h
    obtain ⟨s₁, hpop, h⟩ := Option.bind_eq_some_iff.mp h
    obtain ⟨target, htarget, hmatch⟩ := exists_scope hsame hg
    have hpops := State.pops_popAll hpop
    obtain ⟨hrequire, -⟩ := require_eq_ok hpops hcontrols hreachInner hinner hheight hnested
    refine ⟨{ a with dead := some 0 }, ?_, .of_abandon h (hpops.controls.trans hcontrols)
      (hcontrols ▸ hsame) hreachOuter (hpops.nested hnested)⟩
    rw [← hmatch.arity] at hrequire
    simp only [Heights.stepLive, Heights.target, htarget]
    exact congrArg (· >>= fun _ => _) hrequire
  -- the condition and the results are popped, and the results are pushed again
  | brIf depth =>
    obtain ⟨g, hg, h⟩ := Option.bind_eq_some_iff.mp h
    obtain ⟨s₁, hpop, h⟩ := Option.bind_eq_some_iff.mp h
    obtain ⟨s₂, hpopAll, h⟩ := Option.bind_eq_some_iff.mp h
    cases h
    obtain ⟨target, htarget, hmatch⟩ := exists_scope hsame hg
    have hpops := (State.pops_pop hpop).trans (State.pops_popAll hpopAll)
    obtain ⟨hrequire, hlength⟩ :=
      require_eq_ok hpops hcontrols hreachInner hinner hheight hnested
    refine ⟨{ a with height := a.height - 1 }, ?_, .live hdead ?_ ?_ ?_
      ((hpops.nested hnested).pushAll _)⟩
    · rw [← hmatch.arity] at hrequire
      simp only [Heights.stepLive, Heights.target, htarget]
      exact congrArg (· >>= fun _ => _) hrequire
    · rw [State.controls_pushAll, hpops.controls]
      exact hsame
    · rw [State.controls_pushAll, hpops.controls, hcontrols]
      exact hreach
    · rw [State.length_pushAll]
      dsimp only
      omega
  | unreachable =>
    exact ⟨_, rfl, .of_abandon h hcontrols (hcontrols ▸ hsame) hreachOuter hnested⟩

/-- **An instruction in dead code**, with `depth` constructs opened in it. The analysis only counts;
the constructs that the check opens and closes are dropped from its list again, up to the one in
which the code became dead. -/
theorem Tracks.step_dead {depth : Nat} (hdead : a.dead = some depth)
    (hcontrols : s.controls.drop depth = c :: outer) (hscopes : a.scopes = scope :: scopes)
    (hmatches : List.Forall₂ (·.Matches numLocals) (c :: outer) (scope :: scopes))
    (hunreach : c.unreachable = true) (hreach : ∀ c ∈ outer, c.unreachable = false)
    (hnested : s.Nested) (h : s.check locals i = some s') :
    ∃ a', a.stepDead scope scopes depth i = .ok a' ∧ Tracks numLocals s' a' := by
  obtain ⟨hinner, houter⟩ := List.forall₂_cons.mp hmatches
  have hsame : List.Forall₂ (·.Matches numLocals) (c :: outer) a.scopes := hscopes ▸ hmatches
  cases i with
  | block type =>
    cases h
    exact ⟨_, rfl, .dead rfl hcontrols hsame hunreach hreach (hnested.enter _ _)⟩
  | if_ type =>
    obtain ⟨s₁, hpop, h⟩ := Option.bind_eq_some_iff.mp h
    cases h
    have hpops := State.pops_pop hpop
    have hcontrols' : s₁.controls.drop depth = c :: outer := hpops.controls ▸ hcontrols
    exact ⟨_, rfl, .dead rfl hcontrols' hsame hunreach hreach ((hpops.nested hnested).enter _ _)⟩
  | else_ =>
    obtain ⟨c', outer', hexits, hkind, hcontrols', hlength, hnested'⟩ :=
      State.exits_of_separate h hnested
    rw [hexits.controls] at hcontrols
    cases depth with
    | zero =>
      -- the `else` belongs to the construct in which the code became dead
      cases hcontrols
      have hthen : Heights.requireThen scope = .ok () := if_pos (hinner.kind.trans hkind)
      refine ⟨a.enterElse scope scopes, ?_,
        .of_separate hinner houter hreach hcontrols' hlength hnested'⟩
      simp only [Heights.stepDead, hthen]
      rfl
    | succ depth =>
      -- the check passes it too, but does not leave the constructs of dead code
      exact ⟨a, rfl, .dead hdead (by rw [hcontrols']; exact hcontrols) hsame hunreach hreach
        hnested'⟩
  | end_ =>
    obtain ⟨c', outer', hexits, hresults, rfl, hlength, hnested'⟩ :=
      State.exits_of_end h hnested
    rw [hexits.controls] at hcontrols
    cases depth with
    | zero =>
      -- so does the `end`, and what follows it is live
      cases hcontrols
      exact ⟨_, leave_eq_ok hinner hresults, .of_leave hinner houter hreach hlength hnested'⟩
    | succ depth => exact ⟨_, rfl, .dead rfl hcontrols hsame hunreach hreach hnested'⟩
  | _ =>
    -- anything else is passed over by the analysis, and stays in its construct for the check
    obtain ⟨hstays, hnested'⟩ := State.stays_of_check h (by simp) (by simp) (by simp) hnested
    exact ⟨a, by cases depth <;> rfl,
      .dead hdead (hstays.drop_eq hcontrols hunreach) hsame hunreach hreach hnested'⟩

/-- **One instruction** that passes the check is accepted by the height analysis, in live code and
in dead code. -/
theorem Tracks.step (h : Tracks numLocals s a) (hlocals : locals.length = numLocals)
    (hstep : s.step locals i = some s') :
    ∃ scope scopes a', a.scopes = scope :: scopes ∧
      a.step numLocals scope scopes i = .ok a' ∧ Tracks numLocals s' a' := by
  unfold State.step at hstep
  split at hstep
  · cases hstep
  · next hopen =>
    cases h with
    -- both know the same constructs, so the innermost one of the analysis is that of the check
    | live hdead hscopes hreach hheight hnested =>
      cases hcontrols : s.controls with
      | nil => exact absurd (List.isEmpty_iff.mpr hcontrols) hopen
      | cons c outer =>
        rw [hcontrols] at hscopes hreach
        obtain ⟨scope, scopes, hinner, houter, heq⟩ := List.forall₂_cons_left_iff.mp hscopes
        obtain ⟨a', ha', htracks⟩ := Tracks.step_live hlocals hdead heq hcontrols
          (.cons hinner houter) hreach hheight hnested hstep
        refine ⟨scope, scopes, a', heq, ?_, htracks⟩
        rw [Heights.step, hdead]
        exact ha'
    -- the analysis is in the construct in which the code became dead
    | dead hdead hcontrols hscopes hunreach hreach hnested =>
      obtain ⟨scope, scopes, hinner, houter, heq⟩ := List.forall₂_cons_left_iff.mp hscopes
      obtain ⟨a', ha', htracks⟩ := Tracks.step_dead hdead hcontrols heq (.cons hinner houter)
        hunreach hreach hnested hstep
      refine ⟨scope, scopes, a', heq, ?_, htracks⟩
      rw [Heights.step, hdead]
      exact ha'

/-- **A body** that passes the check is accepted by the height analysis. By induction on its
instructions, with `Tracks` as the invariant. -/
theorem Tracks.steps (h : Tracks numLocals s a) (hlocals : locals.length = numLocals)
    (length : Nat) {ls : List Located}
    (hsteps : (ls.map (·.instruction)).foldlM (State.step locals) s = some s') :
    ∃ a', ls.foldlM (Heights.advance numLocals length) a = .ok a' ∧ Tracks numLocals s' a' := by
  induction ls generalizing s a with
  | nil =>
    cases hsteps
    exact ⟨a, rfl, h⟩
  | cons l ls ih =>
    rw [List.map_cons, List.foldlM_cons] at hsteps
    obtain ⟨s₁, hstep, hsteps⟩ := Option.bind_eq_some_iff.mp hsteps
    obtain ⟨scope, scopes, a₁, hscopes, ha₁, htracks⟩ := h.step hlocals hstep
    obtain ⟨a', ha', htracks'⟩ := ih htracks hsteps
    refine ⟨a', ?_, htracks'⟩
    -- a construct is open, so the analysis does not refuse the instruction as trailing
    have hadvance : a.advance numLocals length l = .ok a₁ := by
      simp only [Heights.advance, hscopes, ha₁]
      rfl
    rw [List.foldlM_cons, hadvance]
    exact ha'

/-- When the check has closed the function, the analysis has. In dead code some construct would
still be open. -/
theorem Tracks.scopes_eq_nil (h : Tracks numLocals s a) (hcontrols : s.controls = []) :
    a.scopes = [] := by
  cases h with
  | live _ hscopes =>
    rw [hcontrols] at hscopes
    exact List.forall₂_nil_left_iff.mp hscopes
  | dead _ hdrop =>
    rw [hcontrols, List.drop_nil] at hdrop
    cases hdrop

end Steps

end Validation

/-- The parameters and locals, counted by their types. -/
theorem Function.length_localTypes (f : Function) : f.localTypes.length = f.numLocals := by
  simp [localTypes, numLocals]

/-- At the start both know the function body, and no operands but the locals. -/
theorem Validation.tracks_start (f : Function) :
    Tracks f.numLocals (start f.type.results) (Heights.start f) :=
  .live rfl (.cons ⟨rfl, rfl, rfl⟩ .nil) (by simp [start]) rfl
    (by simp [State.Nested, start])

/-- The height analysis accepts a valid function: its bytes decode to the written instructions, the
analysis follows the check through them, and in the end no construct is open. -/
theorem Function.exists_analyse_of_valid (f : Function) {body : List Instruction}
    (hwritten : Format.Sequence Instruction.Written f.code.body body) (hvalid : f.Valid body) :
    ∃ n, f.analyse = .ok n := by
  obtain ⟨hbody, hfault⟩ := disassemble_written hwritten
  obtain ⟨s, hsteps, hclosed⟩ := Option.map_eq_some_iff.mp hvalid
  rw [← hbody] at hsteps
  obtain ⟨a, ha, htracks⟩ := (Validation.tracks_start f).steps f.length_localTypes
    f.code.body.length hsteps
  refine ⟨a.maximum, ?_⟩
  unfold analyse
  dsimp only
  rw [ha, hfault]
  simp only [bind, Except.bind, Heights.close, htracks.scopes_eq_nil hclosed]

/-- **No valid function is refused.** If the bytes of a body write instructions that are valid for
the signature and the locals of the function, in dead code as well as in live code, then the body is
translated to a program with a return in it, all of whose jumps have targets. With any assembler
that has code for this program, the function is compiled. -/
theorem Function.compile_of_valid (f : Function) {body : List Instruction}
    (hwritten : Format.Sequence Instruction.Written f.code.body body) (hvalid : f.Valid body) :
    (∃ t p, Compilation.body f = .ok t ∧ t.emitter.program = .ok p ∧ .ret ∈ p) ∧
      ∀ assembler : Assembler, assembler.Covers f → ∃ c, f.compileWith assembler = .ok c := by
  -- what remains to be refused after the analysis is a program without code
  obtain ⟨n, hanalyse⟩ := f.exists_analyse_of_valid hwritten hvalid
  refine ⟨?_, fun assembler hcovers => Function.exists_compileWith hcovers hanalyse⟩
  have hspec := f.body_spec
  rw [hanalyse] at hspec
  obtain ⟨t, hbody, htranslates, -⟩ := hspec
  exact ⟨t, t.emitter.resolved, hbody, htranslates.program_eq, htranslates.ret_mem⟩

/-- A function whose dead code assumes operands, has an `if` of its own and branches out of it; the
index of the first `local.get` is padded. -/
def Function.assuming : Function where
  index := 0
  type := .binary
  code :=
    ⟨0, [0x02, 0x7f, 0x20, 0x80, 0x00, 0x0c, 0x00, 0x6a, 0x04, 0x7f, 0x00, 0x05, 0x20, 0x01, 0x0c,
      0x01, 0x0b, 0x46, 0x0b, 0x0b]⟩

/-- The layout of this library is an assembler that covers the function. -/
theorem Function.compile_of_valid_assuming :
    ∃ body, Format.Sequence Instruction.Written Function.assuming.code.body body ∧
      Function.assuming.Valid body ∧ Assembler.Covers Program.assembleAfter Function.assuming ∧
      ∃ c, Function.assuming.compile = .ok c := by
  have hzero : Format.U32 [0x00] 0 := .last (by decide) (by decide)
  have hone : Format.U32 [0x01] 1 := .last (by decide) (by decide)
  have hpadded : Format.U32 [0x80, 0x00] 0 :=
    .more (b := 0x80) (by decide) (by decide) (.last (by decide) (by decide))
  have hwritten : Format.Sequence Instruction.Written
      ([0x02, 0x7f] ++ ([0x20, 0x80, 0x00] ++ ([0x0c, 0x00] ++ ([0x6a] ++ ([0x04, 0x7f] ++
        ([0x00] ++ ([0x05] ++ ([0x20, 0x01] ++ ([0x0c, 0x01] ++ ([0x0b] ++ ([0x46] ++
          ([0x0b] ++ ([0x0b] ++ [])))))))))))))
      [.block .i32, .localGet 0, .br 0, .add, .if_ .i32, .unreachable, .else_, .localGet 1, .br 1,
        .end_, .eq, .end_, .end_] :=
    .cons ⟨_, rfl, rfl⟩ <| .cons ⟨_, rfl, hpadded⟩ <| .cons ⟨_, rfl, hzero⟩ <|
      .cons ⟨_, rfl, rfl⟩ <| .cons ⟨_, rfl, rfl⟩ <| .cons ⟨_, rfl, rfl⟩ <| .cons ⟨_, rfl, rfl⟩ <|
      .cons ⟨_, rfl, hone⟩ <| .cons ⟨_, rfl, hone⟩ <| .cons ⟨_, rfl, rfl⟩ <|
      .cons ⟨_, rfl, rfl⟩ <| .cons ⟨_, rfl, rfl⟩ <| .cons ⟨_, rfl, rfl⟩ .nil
  have hvalid : Function.assuming.Valid [.block .i32, .localGet 0, .br 0, .add, .if_ .i32,
      .unreachable, .else_, .localGet 1, .br 1, .end_, .eq, .end_, .end_] := by
    unfold Function.Valid
    decide
  have hcovers := Assembler.covers_assembleAfter Function.assuming
  exact ⟨_, hwritten, hvalid, hcovers,
    (Function.assuming.compile_of_valid hwritten hvalid).2 Program.assembleAfter hcovers⟩

end WasmJit
