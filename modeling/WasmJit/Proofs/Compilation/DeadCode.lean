import WasmJit.Proofs.Compilation.Nesting
import WasmJit.Proofs.Format.Bodies

/-!
# Dead code has no effect

After a branch or a trap, what follows up to the end of the construct is only counted through. So
code that is dead as a whole can be taken out of a body, or put into it: it is accepted whatever its
indices, depths and operands are, and it changes neither the emitted code nor the number of slots.
Nor does it matter how the immediates of a body are padded, since only its instructions are looked
at.

* `Compilation.follow` is a step of the compilation without the position of the instruction, which
  is used in messages only; `Function.emitted?_eq` reduces what a function is compiled to to it.
* `Nesting.Enclosed` is the code in question. `Nesting.Enclosed.foldlM_follow`: following it leaves
  the compilation as it is.
* `Function.dead_code_emits_nothing` compares a function with and without dead code, and with other
  spellings of its body.
-/

namespace WasmJit

namespace Nesting

/-- **Balanced code in which every `else` stands inside of a construct.** A lone `else` would end
the dead code if the construct around it is an `if`. -/
inductive Enclosed : List Instruction → Prop
  | nil : Enclosed []
  | plain {is : List Instruction} {i : Instruction} (front : Enclosed is) (plain : i.Plain) :
      Enclosed (is ++ [i])
  | construct {is inside : List Instruction} {i : Instruction} (front : Enclosed is)
      (opens : i.Opens) (body : Balanced inside) : Enclosed (is ++ i :: inside ++ [.end_])

end Nesting

/-! ### Following instructions -/

/-- Whether a computation succeeds, forgetting its error. -/
theorem Except.toOption_bind {ε α β : Type} (x : Except ε α) (f : α → Except ε β) :
    (x >>= f).toOption = x.toOption.bind fun a => (f a).toOption := by
  cases x <;> rfl

namespace Compilation

/-- Compiles an instruction, wherever it stands. Nothing can be compiled after the end of the
function body. -/
def follow (t : Compilation) (i : Instruction) : Option Compilation :=
  if t.frames.isEmpty then none
  else
    match step i t with
    | .ok () t => some t
    | .error _ _ => none

/-- Without the error and its position, this is a step of the compilation of a body. -/
theorem toOption_advance (length : Nat) (t : Compilation) (l : Located) :
    (t.advance length l).toOption = t.follow l.instruction := by
  rw [advance, follow]
  split
  · rfl
  · cases step l.instruction t <;> rfl

/-- The positions of the instructions make no difference to what is compiled. By induction on the
instructions. -/
theorem toOption_foldlM_advance (length : Nat) (ls : List Located) (t : Compilation) :
    (ls.foldlM (advance length) t).toOption = (ls.map (·.instruction)).foldlM follow t := by
  induction ls generalizing t with
  | nil => rfl
  | cons l ls ih =>
    rw [List.map_cons, List.foldlM_cons, List.foldlM_cons, Except.toOption_bind, toOption_advance]
    exact congrArg (Option.bind (t.follow l.instruction)) (funext ih)

/-- A body ends if it decodes to its end and no construct is open. -/
theorem toOption_close (length : Nat) (fault : Option Instruction.DecodeError) (t : Compilation) :
    (t.close length fault).toOption =
      if fault = none ∧ t.frames.isEmpty then some t else none := by
  cases fault with
  | some e =>
    rw [if_neg (fun h => nomatch h.1), close]
    split <;> rfl
  | none =>
    rw [close]
    cases t.frames.isEmpty <;> rfl

/-- Instructions that are accepted at their positions are accepted anywhere. -/
theorem foldlM_follow_of_foldlM_advance {length : Nat} {ls : List Located} {t t' : Compilation}
    (h : ls.foldlM (advance length) t = .ok t') :
    (ls.map (·.instruction)).foldlM follow t = some t' := by
  rw [← toOption_foldlM_advance length, h]
  rfl

theorem foldlM_follow_singleton (t : Compilation) (i : Instruction) :
    [i].foldlM follow t = t.follow i := by
  rw [List.foldlM_cons]
  exact bind_pure (t.follow i)

/-! ### Dead code -/

section Dead

open Reference (foldlM_append_of_eq)

variable {n k : Nat} {e : Emitter} {f : Frame} {fs : List Frame} {i : Instruction}

/-- In dead code nothing is emitted for an instruction, and no index of it is looked at. -/
theorem follow_plain (h : i.Plain) :
    follow ⟨n, e, f :: fs, some k⟩ i = some ⟨n, e, f :: fs, some k⟩ := by
  cases i with
  | block | if_ | else_ | end_ => cases h
  | _ => rfl

/-- A construct that is opened in dead code is counted, not opened. -/
theorem follow_opens (h : i.Opens) :
    follow ⟨n, e, f :: fs, some k⟩ i = some ⟨n, e, f :: fs, some (k + 1)⟩ := by
  obtain ⟨type, rfl | rfl⟩ := h
  · rfl
  · rfl

/-- An `else` inside of such a construct is passed over. -/
theorem follow_else : follow ⟨n, e, f :: fs, some (k + 1)⟩ .else_ =
    some ⟨n, e, f :: fs, some (k + 1)⟩ := rfl

theorem follow_end : follow ⟨n, e, f :: fs, some (k + 1)⟩ .end_ =
    some ⟨n, e, f :: fs, some k⟩ := rfl

/-- A construct that is opened in dead code is left as many levels deep as it was entered. -/
theorem foldlM_follow_construct {inside : List Instruction} (hopens : i.Opens)
    (hinside : inside.foldlM follow ⟨n, e, f :: fs, some (k + 1)⟩ =
      some ⟨n, e, f :: fs, some (k + 1)⟩) :
    (i :: inside ++ [Instruction.end_]).foldlM follow ⟨n, e, f :: fs, some k⟩ =
      some ⟨n, e, f :: fs, some k⟩ := by
  -- the depth goes up by one at the start, stays so inside, and comes back at the end
  have hopen := (foldlM_follow_singleton ⟨n, e, f :: fs, some k⟩ i).trans (follow_opens hopens)
  show ([i] ++ (inside ++ [Instruction.end_])).foldlM follow _ = _
  rw [foldlM_append_of_eq hopen, foldlM_append_of_eq hinside, foldlM_follow_singleton]
  exact follow_end

end Dead

end Compilation

namespace Nesting

open Compilation
open Reference (foldlM_append_of_eq)

variable {n : Nat} {e : Emitter} {f : Frame} {fs : List Frame} {is : List Instruction}

/-- The inside of a construct is passed over, whatever its `else`s belong to. By induction on
balanced code, at any depth above zero. -/
theorem Balanced.foldlM_follow (h : Balanced is) (k : Nat) :
    is.foldlM follow ⟨n, e, f :: fs, some (k + 1)⟩ = some ⟨n, e, f :: fs, some (k + 1)⟩ := by
  induction h generalizing k with
  | nil => rfl
  | plain _ plain ih =>
    rw [foldlM_append_of_eq (ih k), foldlM_follow_singleton]
    exact follow_plain plain
  | else_ _ ih =>
    rw [foldlM_append_of_eq (ih k), foldlM_follow_singleton]
    exact follow_else
  -- inside of a construct the depth is one more, so the induction is over all depths
  | construct _ opens _ ih ihbody =>
    rw [List.append_assoc, foldlM_append_of_eq (ih k)]
    exact foldlM_follow_construct opens (ihbody (k + 1))

/-- **Dead code leaves the compilation as it is.** By induction on its constructs: at the depth at
which it starts there is no `else`, and deeper down it is balanced. -/
theorem Enclosed.foldlM_follow (h : Enclosed is) (k : Nat) :
    is.foldlM follow ⟨n, e, f :: fs, some k⟩ = some ⟨n, e, f :: fs, some k⟩ := by
  induction h with
  | nil => rfl
  | plain _ plain ih =>
    rw [foldlM_append_of_eq ih, foldlM_follow_singleton]
    exact follow_plain plain
  | construct _ opens body ih =>
    rw [List.append_assoc, foldlM_append_of_eq ih]
    exact foldlM_follow_construct opens (body.foldlM_follow k)

end Nesting

namespace Compilation

variable {numLocals : Nat} {i : Instruction} {is : List Instruction} {t t' : Compilation}

/-- The end of the function is not dead, so in dead code some construct is open. By cases on the
effect: code becomes dead, or stays so, without closing a construct. -/
theorem Effect.frames_ne_nil (he : Effect numLocals i t t') (hne : t.frames ≠ [])
    (hdead : t'.dead ≠ none) : t'.frames ≠ [] := by
  cases he with
  | br =>
    intro hnil
    have hlength := congrArg List.length hnil
    rw [List.length_modify] at hlength
    cases hlength
  | unreachable | deadOpen | deadClose | deadSkip => exact hne
  | _ => exact absurd rfl hdead

/-- So after any instructions, by induction on the steps. -/
theorem Steps.frames_ne_nil (hs : Steps numLocals is t t') (h : t.dead ≠ none → t.frames ≠ [])
    (hdead : t'.dead ≠ none) : t'.frames ≠ [] := by
  induction hs with
  | nil => exact h hdead
  | cons hne effect _ ih => exact ih (effect.frames_ne_nil hne) hdead

/-- What the compilation of a body emits, once no construct is open any more. -/
def emitted? (t : Compilation) : Option (Program × List UInt8 × Nat) :=
  if t.frames.isEmpty then
    match Emitter.finish t.emitter with
    | .ok (program, machineCode) _ => some (program, machineCode, t.emitter.stack.ceiling)
    | .error _ _ => none
  else none

end Compilation

/-! ### Functions -/

namespace Function

/-- **What a function is compiled to**, if it is accepted: the instructions, their machine code and
the greatest height of the operand stack. -/
def emitted? (f : Function) : Option (Program × List UInt8 × Nat) :=
  f.compile.toOption.map fun c => (c.program, c.machineCode, c.ceiling)

/-- The function with another body. -/
def withBody (f : Function) (body : List UInt8) : Function :=
  { f with code := { f.code with body } }

/-- **Only the instructions matter**, not where they stand. Positions and the length of the body
occur in errors only, which are forgotten here. -/
theorem emitted?_eq (f : Function) :
    f.emitted? =
      if (disassemble f.code.body).fault = none then
        (f.instructions.foldlM Compilation.follow (Compilation.start f)).bind Compilation.emitted?
      else none := by
  rw [emitted?, compile, compileWith, Except.toOption_bind, Compilation.body, Except.toOption_bind,
    Compilation.toOption_foldlM_advance, instructions]
  cases (disassemble f.code.body).instructions.map (·.instruction) |>.foldlM Compilation.follow
      (Compilation.start f) with
  | none => split <;> rfl
  | some t =>
    show ((t.close _ _).toOption.bind _).map _ = _
    rw [Compilation.toOption_close]
    -- the body must decode to its end, whatever was compiled of it
    by_cases hfault : (disassemble f.code.body).fault = none
    · rw [if_pos hfault]
      show _ = t.emitted?
      rw [Compilation.emitted?, Emitter.finish]
      cases t.frames.isEmpty with
      | false => rw [if_neg nofun, if_neg nofun]; rfl
      | true =>
        rw [if_pos ⟨hfault, rfl⟩, if_pos rfl]
        show Option.map _ (Except.toOption _) = _
        cases Emitter.finishWith Program.assembleAfter t.emitter <;> rfl
    · rw [if_neg hfault, if_neg fun h => hfault h.1]
      rfl

/-- Bodies are compiled to the same if their instructions lead to the same end, and both of them
decode or both do not. -/
theorem emitted?_withBody (f : Function) {body : List UInt8}
    (hfold : (f.withBody body).instructions.foldlM Compilation.follow (Compilation.start f) =
      f.instructions.foldlM Compilation.follow (Compilation.start f))
    (hfault : (disassemble body).fault = none ↔ (disassemble f.code.body).fault = none) :
    (f.withBody body).emitted? = f.emitted? := by
  rw [emitted?_eq, emitted?_eq, ← hfold]
  show (if (disassemble body).fault = none then _ else none) = _
  simp only [hfault]
  rfl

/-- **Dead code has no effect.** If the code that follows the instructions `ls` is dead, then
balanced code `ds` may be taken out after them, whatever its indices, depths and operands are: the
function is accepted exactly if it is accepted without it, and is compiled to the same instructions,
the same machine code and the same number of slots. Nor does padding the immediates of a body change
what it is compiled to. -/
theorem dead_code_emits_nothing (f : Function) :
    (∀ (ls ds rest : List Located) (t : Compilation),
      (disassemble f.code.body).instructions = ls ++ ds ++ rest →
      ls.foldlM (Compilation.advance f.code.body.length) (Compilation.start f) = .ok t →
      t.dead = some 0 →
      Nesting.Enclosed (ds.map (·.instruction)) →
      ∀ body, (disassemble body).instructions.map (·.instruction) =
          (ls ++ rest).map (·.instruction) →
        ((disassemble body).fault = none ↔ (disassemble f.code.body).fault = none) →
        (f.withBody body).emitted? = f.emitted?) ∧
      ∀ body, Respelled f.code.body body → (f.withBody body).emitted? = f.emitted? := by
  refine ⟨fun ls ds rest t his ht hdead hds body hbody hfault => ?_, fun body hbody => ?_⟩
  · have hfront := Compilation.foldlM_follow_of_foldlM_advance ht
    -- the code `ds` is dead as a whole, so following it leads nowhere
    have hskip : (ds.map (·.instruction)).foldlM Compilation.follow t = some t := by
      have hne := ((Compilation.sound_start f).steps_of_foldlM ht).frames_ne_nil
        (fun h => absurd rfl h) (hdead ▸ nofun)
      obtain ⟨numLocals, emitter, frames, dead⟩ := t
      obtain ⟨g, fs, rfl⟩ := List.exists_cons_of_ne_nil hne
      subst hdead
      exact hds.foldlM_follow 0
    -- both bodies lead through `t` to the same end
    refine f.emitted?_withBody ?_ hfault
    calc (f.withBody body).instructions.foldlM Compilation.follow (Compilation.start f)
        = (rest.map (·.instruction)).foldlM Compilation.follow t := by
          rw [show (f.withBody body).instructions = _ from hbody, List.map_append,
            Reference.foldlM_append_of_eq hfront]
      _ = f.instructions.foldlM Compilation.follow (Compilation.start f) := by
          rw [instructions, his, List.map_append, List.map_append,
            Reference.foldlM_append_of_eq ((Reference.foldlM_append_of_eq hfront).trans hskip)]
  · obtain ⟨his, hfault⟩ := disassemble_respelled hbody
    refine f.emitted?_withBody ?_ hfault.symm
    rw [instructions, instructions, his]
    rfl

/-- A function whose block is left at once. What follows the branch is dead: it refers to a
construct and a local that do not exist, and adds values that are not there. -/
def abandoning : Function where
  index := 0
  type := .binary
  code :=
    ⟨0, [0x02, 0x40, 0x0c, 0x00, 0x04, 0x7f, 0x0c, 0x07, 0x05, 0x20, 0x63, 0x0b, 0x6a, 0x0b, 0x20,
      0x00, 0x0b]⟩

/-- It is accepted, and is compiled to the same as without its dead code, and as with a block type
that takes two bytes. -/
theorem dead_code_emits_nothing_abandoning :
    (∃ c, abandoning.compile = .ok c) ∧
      (abandoning.withBody [0x02, 0x40, 0x0c, 0x00, 0x0b, 0x20, 0x00, 0x0b]).emitted? =
        abandoning.emitted? ∧
      (abandoning.withBody
        [0x02, 0xc0, 0x7f, 0x0c, 0x00, 0x04, 0x7f, 0x0c, 0x07, 0x05, 0x20, 0x63, 0x0b, 0x6a, 0x0b,
          0x20, 0x00, 0x0b]).emitted? = abandoning.emitted? := by
  obtain ⟨hdead, hpadded⟩ := abandoning.dead_code_emits_nothing
  refine ⟨exists_compile (n := 3) (by decide), ?_, hpadded _ ?_⟩
  · obtain ⟨t, ht, htest⟩ := Except.exists_ok_of_any
      (x := ((disassemble abandoning.code.body).instructions.take 2).foldlM
        (Compilation.advance abandoning.code.body.length) (Compilation.start abandoning))
      (p := fun t => t.dead = some 0) (by decide +kernel)
    have hinside : Nesting.Balanced [.br 7, .else_, .localGet 99] :=
      .plain (i := .localGet 99) (.else_ (.plain (i := .br 7) .nil trivial)) trivial
    have hds : Nesting.Enclosed [.if_ .i32, .br 7, .else_, .localGet 99, .end_, .add] :=
      .plain (i := .add) (.construct .nil ⟨.i32, .inr rfl⟩ hinside) trivial
    exact hdead ((disassemble abandoning.code.body).instructions.take 2)
      (((disassemble abandoning.code.body).instructions.drop 2).take 6)
      ((disassemble abandoning.code.body).instructions.drop 8) t (by decide) ht
      (of_decide_eq_true htest) hds _ (by decide) (by decide)
  · -- the first byte of the block type says that there is a second one, which repeats the sign
    have hshort : Instruction.Spelled [0x02, 0x40] (.block .empty) :=
      ⟨[0x40], rfl, .last (b := 0x40) (by decide) (by decide) (by decide)⟩
    have hsign : Format.Signed 26 [0x7f] (-1) :=
      .last (b := 0x7f) (by decide) (by decide) (by decide)
    have hnumber : Format.Signed 33 [0xc0, 0x7f] (0xc0 - 128 + 128 * -1) :=
      .more (b := 0xc0) (by decide) (by decide) hsign
    have hlong : Instruction.Spelled [0x02, 0xc0, 0x7f] (.block .empty) :=
      ⟨[0xc0, 0x7f], rfl, hnumber⟩
    exact .cons hshort hlong (.rest _)

end Function

end WasmJit
