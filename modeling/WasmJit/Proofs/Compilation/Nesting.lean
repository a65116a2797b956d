import WasmJit.Proofs.Compilation.Loading
import WasmJit.Proofs.Correctness.Structured

/-!
# The constructs of accepted bodies

In live code an `else` is accepted only between the two arms of an `if`. In dead code constructs are
counted, and what opened them is not remembered: inside of them an `else` is passed over wherever it
stands. So the bodies that are accepted are properly nested up to the constructs that are opened in
dead code, of which only the ends are known.

* `Nesting.Arm` is the grammar of such code. It leaves open what may stand inside of a construct
  that is opened in dead code; where this is properly nested as well, so is the whole
  (`Nesting.exists_arm_iff`).
* `Nesting.Read` is the invariant: what has been read when certain constructs are open.
  `Compilation.Effect.reads` is the step, `Compilation.Steps.reads` a whole body.
* `Function.compile_nests` is the result; by `Function.compile_strayElse`, a block with an `else` in
  it is indeed accepted in dead code.
-/

namespace WasmJit

namespace Instruction

/-- The instructions that open a construct. -/
def Opens (i : Instruction) : Prop :=
  ∃ type, i = .block type ∨ i = .if_ type

/-- The instructions that have no part in the nesting of constructs. -/
def Plain : Instruction → Prop
  | block _ | if_ _ | else_ | end_ => False
  | _ => True

/-- Whether what follows in the same construct is dead. -/
def diverts : Instruction → Bool
  | br _ | unreachable => true
  | _ => false

/-- What neither opens nor closes a construct is plain, or an `else`. -/
theorem plain_or_else {i : Instruction} (hopens : ∀ type, i ≠ .block type ∧ i ≠ .if_ type)
    (hend : i ≠ .end_) : i.Plain ∨ i = .else_ := by
  cases i with
  | block type => exact absurd rfl (hopens type).1
  | if_ type => exact absurd rfl (hopens type).2
  | else_ => exact .inr rfl
  | end_ => exact absurd rfl hend
  | _ => exact .inl trivial

end Instruction

namespace Reference.Code

/-- Structured code followed by other. -/
def append : Code → Code → Code
  | empty, next => next
  | localGet index rest, next => .localGet index (rest.append next)
  | add rest, next => .add (rest.append next)
  | eq rest, next => .eq (rest.append next)
  | block type body rest, next => .block type body (rest.append next)
  | ifThen type first rest, next => .ifThen type first (rest.append next)
  | ifElse type first second rest, next => .ifElse type first second (rest.append next)
  | br depth rest, next => .br depth (rest.append next)
  | brIf depth rest, next => .brIf depth (rest.append next)
  | unreachable rest, next => .unreachable (rest.append next)

/-- The instructions of code come before those of what is appended to it. -/
@[simp] theorem flatten_append (code next : Code) :
    (code.append next).flatten = code.flatten ++ next.flatten := by
  induction code with
  | empty => rfl
  | _ => simp [append, flatten, *]

end Reference.Code

namespace Nesting

/-! ### Grammars -/

/-- **Properly nested code**: every construct has its end, and every `else` separates the two arms
of an `if`. -/
def Structured (is : List Instruction) : Prop :=
  ∃ code : Reference.Code, is = code.flatten

/-- What may stand between the instruction that opens a construct and its end. -/
def Arms : Instruction → List Instruction → Prop
  | .if_ _, inside =>
    Structured inside ∨
      ∃ first second, Structured first ∧ Structured second ∧ inside = first ++ .else_ :: second
  | _, inside => Structured inside

/-- Code in which every construct has its end, and an `else` may stand anywhere. This is what is
known about the inside of constructs in dead code. -/
inductive Balanced : List Instruction → Prop
  | nil : Balanced []
  | plain {is : List Instruction} {i : Instruction} (front : Balanced is) (plain : i.Plain) :
      Balanced (is ++ [i])
  | else_ {is : List Instruction} (front : Balanced is) : Balanced (is ++ [.else_])
  | construct {is inside : List Instruction} {i : Instruction} (front : Balanced is)
      (opens : i.Opens) (body : Balanced inside) : Balanced (is ++ i :: inside ++ [.end_])

/-- **The code of one arm** of a construct, or of a function. The flag says whether its end is dead,
and `Inside i` which code may stand inside of a construct that `i` opens in dead code. -/
inductive Arm (Inside : Instruction → List Instruction → Prop) : Bool → List Instruction → Prop
  | nil : Arm Inside false []
  | plain {dead : Bool} {is : List Instruction} {i : Instruction} (front : Arm Inside dead is)
      (plain : i.Plain) : Arm Inside (dead || i.diverts) (is ++ [i])
  | block (type : BlockType) {dead : Bool} {is body : List Instruction}
      (front : Arm Inside false is) (arm : Arm Inside dead body) :
      Arm Inside false (is ++ .block type :: body ++ [.end_])
  | ifThen (type : BlockType) {dead : Bool} {is first : List Instruction}
      (front : Arm Inside false is) (arm : Arm Inside dead first) :
      Arm Inside false (is ++ .if_ type :: first ++ [.end_])
  | ifElse (type : BlockType) {dead dead' : Bool} {is first second : List Instruction}
      (front : Arm Inside false is) (arm : Arm Inside dead first)
      (other : Arm Inside dead' second) :
      Arm Inside false (is ++ .if_ type :: first ++ .else_ :: second ++ [.end_])
  | construct {is inside : List Instruction} {i : Instruction} (front : Arm Inside true is)
      (opens : i.Opens) (body : Inside i inside) :
      Arm Inside true (is ++ i :: inside ++ [.end_])

/-- Properly nested code may follow on properly nested code. -/
theorem Structured.append {is is' : List Instruction} (h : Structured is) (h' : Structured is') :
    Structured (is ++ is') := by
  obtain ⟨code, rfl⟩ := h
  obtain ⟨next, rfl⟩ := h'
  exact ⟨code.append next, by simp⟩

/-- A plain instruction by itself is properly nested. -/
theorem structured_plain {i : Instruction} (h : i.Plain) : Structured [i] := by
  cases i with
  | localGet index => exact ⟨.localGet index .empty, rfl⟩
  | add => exact ⟨.add .empty, rfl⟩
  | eq => exact ⟨.eq .empty, rfl⟩
  | br depth => exact ⟨.br depth .empty, rfl⟩
  | brIf depth => exact ⟨.brIf depth .empty, rfl⟩
  | unreachable => exact ⟨.unreachable .empty, rfl⟩
  | block | if_ | else_ | end_ => cases h

/-- A construct with proper arms and its end is properly nested. -/
theorem structured_construct {i : Instruction} {inside : List Instruction} (hopens : i.Opens)
    (h : Arms i inside) : Structured (i :: inside ++ [.end_]) := by
  obtain ⟨type, rfl | rfl⟩ := hopens
  · obtain ⟨code, rfl⟩ := h
    exact ⟨.block type code .empty, rfl⟩
  · rcases h with ⟨code, rfl⟩ | ⟨_, _, ⟨first, rfl⟩, ⟨second, rfl⟩, rfl⟩
    · exact ⟨.ifThen type code .empty, rfl⟩
    · exact ⟨.ifElse type first second .empty, by simp [Reference.Code.flatten]⟩

/-- If constructs in dead code have proper arms, then all constructs have. By induction on the code
of the arm. -/
theorem Arm.structured {dead : Bool} {is : List Instruction} (h : Arm Arms dead is) :
    Structured is := by
  -- each construct is put together from arms that are known to be structured
  induction h with
  | nil => exact ⟨.empty, rfl⟩
  | plain _ hplain ih => exact ih.append (structured_plain hplain)
  | block type _ _ ih iharm =>
    rw [List.append_assoc]
    exact ih.append (structured_construct ⟨type, .inl rfl⟩ iharm)
  | ifThen type _ _ ih iharm =>
    rw [List.append_assoc]
    exact ih.append (structured_construct ⟨type, .inr rfl⟩ (.inl iharm))
  | ifElse type _ _ _ ih iharm ihother =>
    have hconstruct := structured_construct ⟨type, .inr rfl⟩ (.inr ⟨_, _, iharm, ihother, rfl⟩)
    simpa using ih.append hconstruct
  | construct _ hopens hbody ih =>
    rw [List.append_assoc]
    exact ih.append (structured_construct hopens hbody)

/-- A construct with proper arms may follow in dead code, and in live code if it may there. In an
`Arm` these are different constructors, as only in live code the arms are followed. -/
theorem Arm.append_construct {dead : Bool} {is inside : List Instruction} {i : Instruction}
    (h : Arm Arms dead is) (hopens : i.Opens) (harms : Arms i inside)
    (hlive : Arm Arms false is → Arm Arms false (is ++ i :: inside ++ [.end_])) :
    Arm Arms dead (is ++ i :: inside ++ [.end_]) := by
  cases dead with
  | false => exact hlive h
  | true => exact h.construct hopens harms

/-- Structured code may follow in any arm, whether it is dead there or not. By induction on the
code: its own arms start live, what follows them is as dead as what came before. -/
theorem Arm.append_flatten {dead : Bool} {is : List Instruction} (h : Arm Arms dead is)
    (code : Reference.Code) : ∃ dead', Arm Arms dead' (is ++ code.flatten) := by
  induction code generalizing dead is with
  | empty => exact ⟨dead, by simpa [Reference.Code.flatten] using h⟩
  | block type body rest ihb ihr =>
    obtain ⟨_, hbody⟩ := ihb .nil
    have hclosed := h.append_construct ⟨type, .inl rfl⟩ ⟨body, rfl⟩ (·.block type hbody)
    simpa [Reference.Code.flatten] using ihr hclosed
  | ifThen type first rest ihf ihr =>
    obtain ⟨_, hfirst⟩ := ihf .nil
    have hclosed := h.append_construct ⟨type, .inr rfl⟩ (.inl ⟨first, rfl⟩) (·.ifThen type hfirst)
    simpa [Reference.Code.flatten] using ihr hclosed
  | ifElse type first second rest ihf ihs ihr =>
    obtain ⟨_, hfirst⟩ := ihf .nil
    obtain ⟨_, hsecond⟩ := ihs .nil
    have harms : Arms (.if_ type) (first.flatten ++ .else_ :: second.flatten) :=
      .inr ⟨_, _, ⟨first, rfl⟩, ⟨second, rfl⟩, rfl⟩
    have hclosed := h.append_construct ⟨type, .inr rfl⟩ harms
      fun hfront => by simpa using hfront.ifElse type hfirst hsecond
    simpa [Reference.Code.flatten] using ihr hclosed
  | localGet | add | eq | br | brIf | unreachable =>
    -- the flag may change here, at a branch or a trap
    rename_i rest ih
    rw [Reference.Code.flatten, List.append_cons]
    exact ih (h.plain trivial)

/-- **Properly nested code** is the code of an arm whose constructs in dead code have proper arms.
-/
theorem exists_arm_iff {is : List Instruction} : (∃ dead, Arm Arms dead is) ↔ Structured is := by
  constructor
  · rintro ⟨dead, h⟩
    exact h.structured
  · rintro ⟨code, rfl⟩
    exact Arm.nil.append_flatten code

/-! ### What has been read -/

/-- The code of an arm, up to the constructs in dead code. -/
abbrev Loose : Bool → List Instruction → Prop :=
  Arm fun _ => Balanced

/-- What stands in front of the innermost arm, with these constructs open. -/
inductive Before : List FrameKind → List Instruction → Prop
  | function : Before [.function] []
  | block (type : BlockType) {kinds : List FrameKind} {is inside : List Instruction}
      (front : Before kinds is) (arm : Loose false inside) :
      Before (.block :: kinds) (is ++ inside ++ [.block type])
  | ifThen (type : BlockType) {kinds : List FrameKind} {is inside : List Instruction}
      (front : Before kinds is) (arm : Loose false inside) :
      Before (.ifThen :: kinds) (is ++ inside ++ [.if_ type])
  | ifElse (type : BlockType) {kinds : List FrameKind} {is inside first : List Instruction}
      {dead : Bool} (front : Before kinds is) (arm : Loose false inside)
      (other : Loose dead first) :
      Before (.ifElse :: kinds) (is ++ inside ++ .if_ type :: first ++ [.else_])

/-- **What has been read** of a body when these constructs are open, and in dead code this number of
constructs has been opened since it began. -/
inductive Read : List FrameKind → Option Nat → List Instruction → Prop
  | live {kinds : List FrameKind} {is inside : List Instruction} (front : Before kinds is)
      (arm : Loose false inside) : Read kinds none (is ++ inside)
  | dead {kinds : List FrameKind} {is inside : List Instruction} (front : Before kinds is)
      (arm : Loose true inside) : Read kinds (some 0) (is ++ inside)
  | within {kinds : List FrameKind} {depth : Nat} {is inside : List Instruction}
      {i : Instruction} (front : Read kinds (some depth) is) (opens : i.Opens)
      (body : Balanced inside) : Read kinds (some (depth + 1)) (is ++ i :: inside)
  /-- The whole body. -/
  | closed {dead : Bool} {body : List Instruction} (arm : Loose dead body) :
      Read [] none (body ++ [.end_])

section Steps

variable {kind : FrameKind} {kinds : List FrameKind} {depth : Nat} {dead : Bool}
  {is inside : List Instruction} {i : Instruction}

/-- At the start of a function nothing has been read. -/
theorem read_start : Read [.function] none [] :=
  .live .function .nil

/-- The second arm of an `if` starts, and is live whether the first ended dead or not. -/
theorem Before.read_else (h : Before (.ifThen :: kinds) is) (harm : Loose dead inside) :
    Read (.ifElse :: kinds) none (is ++ inside ++ [.else_]) := by
  cases h with
  | ifThen type hfront hinside =>
    have hread := Read.live (hfront.ifElse type hinside harm) .nil
    simpa using hread

/-- The innermost construct ends, and becomes part of the arm around it; with the function
everything has been read. -/
theorem Before.read_end (h : Before (kind :: kinds) is) (harm : Loose dead inside) :
    Read kinds none (is ++ inside ++ [.end_]) := by
  -- the construct, with what stands in front of it, extends the arm around it
  cases h with
  | function => exact .closed harm
  | block type hfront hinside =>
    have hread := Read.live hfront (hinside.block type harm)
    simpa using hread
  | ifThen type hfront hinside =>
    have hread := Read.live hfront (hinside.ifThen type harm)
    simpa using hread
  | ifElse type hfront hinside hother =>
    have hread := Read.live hfront (hinside.ifElse type hother harm)
    simpa using hread

/-- A block is opened in live code. -/
theorem Read.block (h : Read (kind :: kinds) none is) (type : BlockType) :
    Read (.block :: kind :: kinds) none (is ++ [.block type]) := by
  cases h with
  | live hfront harm =>
    have hread := Read.live (hfront.block type harm) .nil
    simpa using hread

/-- An `if` is opened in live code. -/
theorem Read.if_ (h : Read (kind :: kinds) none is) (type : BlockType) :
    Read (.ifThen :: kind :: kinds) none (is ++ [.if_ type]) := by
  cases h with
  | live hfront harm =>
    have hread := Read.live (hfront.ifThen type harm) .nil
    simpa using hread

/-- Live code goes on, unless the instruction diverts: then what follows is dead. -/
theorem Read.plain (h : Read (kind :: kinds) none is) (hplain : i.Plain) :
    Read (kind :: kinds) (bif i.diverts then some 0 else none) (is ++ [i]) := by
  cases h with
  | live hfront harm =>
    have harm' := harm.plain hplain
    rw [List.append_assoc]
    -- after a branch or a trap the same arm goes on as dead
    cases hdiverts : i.diverts with
    | false =>
      rw [hdiverts] at harm'
      exact .live hfront harm'
    | true =>
      rw [hdiverts] at harm'
      exact .dead hfront harm'

/-- What neither opens nor closes a construct is passed over in dead code. An `else` is, too, inside
of constructs that were opened there. -/
theorem Read.skip (h : Read kinds (some depth) is)
    (hopens : ∀ type, i ≠ .block type ∧ i ≠ .if_ type) (hend : i ≠ .end_)
    (helse : i = .else_ → 0 < depth) : Read kinds (some depth) (is ++ [i]) := by
  rcases Instruction.plain_or_else hopens hend with hplain | rfl
  · cases h with
    | dead hfront harm =>
      rw [List.append_assoc]
      exact .dead hfront (harm.plain hplain)
    | within hread hopened hbody =>
      rw [List.append_assoc]
      exact .within hread hopened (hbody.plain hplain)
  · -- an `else` that is not the one of the innermost open construct
    cases h with
    | dead _ _ => exact absurd (helse rfl) (Nat.lt_irrefl 0)
    | within hread hopened hbody =>
      rw [List.append_assoc]
      exact .within hread hopened hbody.else_

/-- A construct that was opened in dead code ends, and becomes part of what is around it. -/
theorem Read.leave (h : Read kinds (some (depth + 1)) is) :
    Read kinds (some depth) (is ++ [.end_]) := by
  cases h with
  | within hread hopened hbody =>
    -- it belongs to the arm that is dead, or to a construct around it that was opened there too
    cases hread with
    | dead hfront harm =>
      have hread' := Read.dead hfront (harm.construct hopened hbody)
      simpa using hread'
    | within hread hopened' hbody' =>
      have hread' := Read.within hread hopened' (hbody'.construct hopened hbody)
      simpa using hread'

theorem Before.ne_nil (h : Before kinds is) : kinds ≠ [] := by
  cases h <;> simp

/-- Code is dead only inside of constructs, of which the outermost is the function. By induction on
the depth. -/
theorem Read.ne_nil (h : Read kinds (some depth) is) : kinds ≠ [] := by
  induction depth generalizing is with
  | zero =>
    cases h with
    | dead hfront _ => exact hfront.ne_nil
  | succ depth ih =>
    cases h with
    | within hread _ _ => exact ih hread

/-- When no construct is open, a whole body has been read. -/
theorem Read.exists_arm {dead : Option Nat} (h : Read [] dead is) :
    ∃ dead body, Loose dead body ∧ is = body ++ [.end_] := by
  cases dead with
  | none =>
    cases h with
    | live hfront _ => exact absurd rfl hfront.ne_nil
    | closed harm => exact ⟨_, _, harm, rfl⟩
  | some depth => exact absurd rfl h.ne_nil

end Steps

end Nesting

namespace Compilation

open Nesting

/-- What has been read, as far as a compilation knows: it keeps the kinds of the open constructs,
and in dead code a count. -/
def Reads (t : Compilation) (is : List Instruction) : Prop :=
  Read (t.frames.map (·.kind)) t.dead is

/-- Noting a jump at a construct does not change its kind. -/
theorem kinds_addExit (frames : List Frame) (depth jump : Nat) :
    (frames.modify depth (·.addExit jump)).map (·.kind) = frames.map (·.kind) := by
  have hscopes := congrArg (List.map (·.kind)) (Sound.map_scope_modify frames depth jump)
  rw [List.map_map, List.map_map] at hscopes
  exact hscopes

/-- Operations have no part in nesting, and the code after them is live. -/
theorem plain_of_operation {i : Instruction} {op : Emitter.Operation}
    (h : Emitter.operation? i = some op) : i.Plain ∧ i.diverts = false := by
  cases i with
  | localGet | add | eq => exact ⟨trivial, rfl⟩
  | _ => cases h

section Effects

variable {numLocals : Nat} {i : Instruction} {t t' : Compilation} {is read : List Instruction}

/-- **One instruction** is read, whichever effect it has. By cases on the effect, each of which is a
step of what has been read. -/
theorem Effect.reads (he : Effect numLocals i t t') (hopen : t.frames ≠ []) (h : t.Reads read) :
    t'.Reads (read ++ [i]) := by
  unfold Reads at h ⊢
  cases he with
  | operation hop =>
    obtain ⟨hplain, hdiverts⟩ := plain_of_operation hop
    have hread := h.plain hplain
    rw [hdiverts] at hread
    exact hread
  | block => exact h.block _
  | if_ => exact h.if_ _
  -- the arm is live here, so what has been read is a whole arm
  | else_ hkind =>
    cases h with
    | live hfront harm => exact Before.read_else (hkind ▸ hfront) harm
  | end_ =>
    cases h with
    | live hfront harm => exact hfront.read_end harm
  -- a branch notes its jump at a construct, which stays of the same kind
  | br =>
    rw [kinds_addExit]
    exact h.plain (i := .br _) trivial
  | brIf =>
    rw [kinds_addExit]
    exact h.plain (i := .brIf _) trivial
  | unreachable =>
    obtain ⟨f, fs, rfl⟩ := List.exists_cons_of_ne_nil hopen
    exact h.plain (i := .unreachable) trivial
  | deadOpen hopens => exact .within h hopens .nil
  | deadClose => exact h.leave
  | deadSkip hopens hend helse => exact h.skip hopens hend helse
  -- in dead code the same, at the depth at which it began
  | deadElse hkind =>
    cases h with
    | dead hfront harm => exact Before.read_else (hkind ▸ hfront) harm
  | deadEnd =>
    cases h with
    | dead hfront harm => exact hfront.read_end harm

/-- **A sequence of instructions** is read. By induction on the steps. -/
theorem Steps.reads (hs : Steps numLocals is t t') (h : t.Reads read) :
    t'.Reads (read ++ is) := by
  induction hs generalizing read with
  | nil t => simpa using h
  | cons hopen he _ ih =>
    rw [List.append_cons]
    exact ih (he.reads hopen h)

end Effects

/-! ### Refused bodies -/

/-- **A body goes wrong** in front of the instructions that are left and the fault after them. -/
inductive Misplaced (t : Compilation) : List Located → Option Instruction.DecodeError → Prop
  /-- There is more after the end of the function. -/
  | trailing {ls : List Located} {fault : Option Instruction.DecodeError} (closed : t.frames = [])
      (more : ls ≠ [] ∨ fault ≠ none) : Misplaced t ls fault
  /-- An end is missing. -/
  | unfinished (opened : t.frames ≠ []) : Misplaced t [] none
  /-- An `else` stands in a construct that is no `if` or has its `else` already, and that was not
  opened in dead code. -/
  | else_ {l : Located} {ls : List Located} {fault : Option Instruction.DecodeError} {f : Frame}
      {fs : List Frame} (frames : t.frames = f :: fs) (kind : f.kind ≠ .ifThen)
      (dead : t.dead = none ∨ t.dead = some 0) (separates : l.instruction = .else_) :
      Misplaced t (l :: ls) fault

/-- An `else` in a construct that has no place for it is refused. -/
theorem step_else_refused {t : Compilation} {f : Frame} {fs : List Frame}
    (hframes : t.frames = f :: fs) (hkind : f.kind ≠ .ifThen)
    (hdead : t.dead = none ∨ t.dead = some 0) : step .else_ t = .error (.elseInside f.kind) t := by
  obtain ⟨numLocals, e, frames, dead⟩ := t
  dsimp only at hframes hdead
  subst hframes
  have hthen (t : Compilation) : requireThen f t = .error (.elseInside f.kind) t := by
    unfold requireThen
    rw [if_neg hkind]
    rfl
  -- the kind of the construct is checked first, in live and in dead code
  rcases hdead with rfl | rfl
  · exact (run_bind rfl).trans ((run_bind rfl).trans (run_bind_error (hthen _)))
  · exact (run_bind rfl).trans ((run_bind rfl).trans (run_bind_error (hthen _)))

/-- **Bodies that go wrong are refused** as malformed, by cases on what is wrong with them. -/
theorem Misplaced.refused {t : Compilation} {ls : List Located}
    {fault : Option Instruction.DecodeError} (h : t.Misplaced ls fault) (length : Nat) :
    ∃ err, (ls.foldlM (advance length) t >>= close length fault) = .error err ∧
      err.kind? = some .malformedInput := by
  cases h with
  | trailing hclosed hmore =>
    -- the instruction, or the fault, that comes next is too many
    have hempty : t.frames.isEmpty = true := List.isEmpty_iff.mpr hclosed
    cases ls with
    | nil =>
      obtain ⟨e, rfl⟩ := Option.ne_none_iff_exists'.mp (hmore.resolve_left (by simp))
      exact ⟨.trailing (length - e.pc), if_pos hempty, rfl⟩
    | cons l ls =>
      have hadvance : t.advance length l = .error (.trailing (length - l.pc)) := if_pos hempty
      refine ⟨.trailing (length - l.pc), ?_, rfl⟩
      rw [List.foldlM_cons, hadvance]
      rfl
  | unfinished hopen =>
    have hempty : ¬ t.frames.isEmpty = true := fun h => hopen (List.isEmpty_iff.mp h)
    exact ⟨.unfinished t.frames.length, if_neg hempty, rfl⟩
  | @else_ l ls _ f fs hframes hkind hdead helse =>
    have hadvance : t.advance length l = .error (.step .else_ l.pc (.elseInside f.kind)) := by
      simp [advance, hframes, helse, step_else_refused hframes hkind hdead]
    refine ⟨.step .else_ l.pc (.elseInside f.kind), ?_, rfl⟩
    rw [List.foldlM_cons, hadvance]
    rfl

end Compilation

open Nesting

/-- **A body is nested** if it is the code of an arm with an end after it. -/
def Function.Nests (f : Function) (Inside : Instruction → List Instruction → Prop) : Prop :=
  (disassemble f.code.body).fault = none ∧
    ∃ dead body, Arm Inside dead body ∧ f.instructions = body ++ [.end_]

/-- Everything has been read when the body is closed, so the body is the code of an arm with an end.
-/
theorem CompiledFunction.From.nests {c : CompiledFunction} {f : Function} {t : Compilation}
    (h : c.From f t) : f.Nests fun _ => Balanced := by
  have hread : Read (t.frames.map (·.kind)) t.dead f.instructions := h.steps.reads read_start
  rw [h.closed, List.map_nil] at hread
  obtain ⟨dead, body, harm, hbody⟩ := hread.exists_arm
  exact ⟨h.decoded, dead, body, harm, hbody⟩

/-- A body in which constructs have proper arms everywhere is structured code and an end. -/
theorem Function.nests_arms_iff (f : Function) :
    f.Nests Arms ↔ (disassemble f.code.body).fault = none ∧
      ∃ code : Reference.Code, f.instructions = code.flatten ++ [.end_] := by
  refine and_congr_right fun _ => ⟨?_, ?_⟩
  · rintro ⟨dead, body, harm, hbody⟩
    obtain ⟨code, rfl⟩ := harm.structured
    exact ⟨code, hbody⟩
  · rintro ⟨code, hbody⟩
    obtain ⟨dead, harm⟩ := exists_arm_iff.mpr ⟨code, rfl⟩
    exact ⟨dead, code.flatten, harm, hbody⟩

/-- A body that goes wrong after accepted instructions is refused. What was accepted does not matter
any more. -/
theorem Function.compile_misplaced {f : Function} {ls rest : List Located} {t : Compilation}
    (hbody : (disassemble f.code.body).instructions = ls ++ rest)
    (ht : ls.foldlM (Compilation.advance f.code.body.length) (Compilation.start f) = .ok t)
    (h : t.Misplaced rest (disassemble f.code.body).fault) :
    ∃ err, f.compile = .error err ∧ err.kind? = some .malformedInput := by
  obtain ⟨err, herr, hkind⟩ := h.refused f.code.body.length
  refine ⟨err, ?_, hkind⟩
  -- the body fails after the accepted instructions, so nothing is assembled
  have hfailed : Compilation.body f = .error err := by
    unfold Compilation.body
    dsimp only
    rw [hbody, List.foldlM_append, ht]
    exact herr
  unfold Function.compile Function.compileWith
  rw [hfailed]
  rfl

/-- **Accepted bodies are nested**, up to the constructs that are opened in dead code: those have
their ends, but inside of them an `else` may stand anywhere. If their arms are proper too, then the
body is structured code and an `end`. Every body that is not nested is refused; where more follows
the end of the function, an end is missing, or an `else` stands in an open construct that has no
place for it, it is malformed. -/
theorem Function.compile_nests (f : Function) :
    (∀ c, f.compile = .ok c → f.Nests fun _ => Balanced) ∧
      (f.Nests Arms ↔ (disassemble f.code.body).fault = none ∧
        ∃ code : Reference.Code, f.instructions = code.flatten ++ [.end_]) ∧
      ((¬ f.Nests fun _ => Balanced) →
        ∃ err, f.compile = .error err ∧ ∃ kind ∈ CompileError.refusals, err.kind? = some kind) ∧
      ∀ (ls rest : List Located) (t : Compilation),
        (disassemble f.code.body).instructions = ls ++ rest →
        ls.foldlM (Compilation.advance f.code.body.length) (Compilation.start f) = .ok t →
        t.Misplaced rest (disassemble f.code.body).fault →
        ∃ err, f.compile = .error err ∧ err.kind? = some .malformedInput := by
  have hnests (c : CompiledFunction) (hc : f.compile = .ok c) : f.Nests fun _ => Balanced := by
    obtain ⟨t, hfrom⟩ := Function.exists_from hc
    exact hfrom.nests
  refine ⟨hnests, f.nests_arms_iff, fun hnot => ?_, fun ls rest t hbody ht h =>
    Function.compile_misplaced hbody ht h⟩
  cases hc : f.compile with
  | ok c => exact absurd (hnests c hc) hnot
  | error err => exact ⟨err, rfl, Function.compile_error hc⟩

/-- A function without parameters and results whose body is a trap and, after it, a block with an
`else`. -/
def Function.strayElse : Function where
  index := 0
  type := ⟨[], []⟩
  code := ⟨0, [0x00, 0x02, 0x40, 0x05, 0x0b, 0x0b]⟩

/-- A function whose body starts with an `else`. -/
def Function.leadingElse : Function where
  index := 0
  type := ⟨[], []⟩
  code := ⟨0, [0x05, 0x0b]⟩

/-- The first of these is accepted, the second is refused. -/
theorem Function.compile_nests_else :
    (Function.strayElse.Nests fun _ => Balanced) ∧
      ∃ err, Function.leadingElse.compile = .error err ∧ err.kind? = some .malformedInput := by
  obtain ⟨c, hc⟩ := Function.exists_compile (f := Function.strayElse) (n := 0) (by decide)
  refine ⟨Function.strayElse.compile_nests.1 c hc, ?_⟩
  have hbody : (disassemble Function.leadingElse.code.body).instructions =
      [] ++ [⟨0, .else_, 1⟩, ⟨1, .end_, 1⟩] := by decide
  exact Function.leadingElse.compile_nests.2.2.2 _ _ _ hbody rfl
    (.else_ rfl (by decide) (.inl rfl) rfl)

/-- A block with an `else` in dead code is accepted, although it is not properly nested. -/
theorem Function.compile_strayElse :
    (∃ c, Function.strayElse.compile = .ok c) ∧
      Function.strayElse.instructions = [.unreachable, .block .empty, .else_, .end_, .end_] ∧
      ¬ ∃ code : Reference.Code, Function.strayElse.instructions = code.flatten ++ [.end_] := by
  have hbody : Function.strayElse.instructions =
      [.unreachable, .block .empty, .else_, .end_, .end_] := by decide
  refine ⟨Function.exists_compile (n := 0) (by decide), hbody, ?_⟩
  rintro ⟨code, hcode⟩
  rw [hbody] at hcode
  -- the code is a trap and a block, and no code starts with the `else` inside of it
  cases code with
  | unreachable rest =>
    cases rest with
    | block type body rest => cases body <;> simp [Reference.Code.flatten] at hcode
    | _ => simp [Reference.Code.flatten] at hcode
  | _ => simp [Reference.Code.flatten] at hcode

end WasmJit
