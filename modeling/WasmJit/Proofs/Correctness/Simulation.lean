import WasmJit.Proofs.Correctness.Continuation
import WasmJit.Proofs.Correctness.Reference
import Mathlib.Data.List.Forall2

/-!
# The finished code simulates the reference interpreter

While a body is compiled, the reference interpreter reads the same instructions and the finished
code is executed. `Call.Simulates x t r` relates the three: in front of an instruction, `t` is the
state of the compilation, `r` that of the interpreter, and the execution of the finished code has
arrived somewhere.

* If the interpreter is running, execution has arrived at the end of what is emitted so far, and
  every operand has its value where the operand stack of the compilation says.
* If the interpreter is skipping, execution stands at a jump that is taken and that leaves the same
  construct (`Call.Poised`). What is emitted in the meantime is not executed. It does not move the
  operands below that construct either, since they are in memory; so they are still where the code
  behind the label expects them.
* If the interpreter has trapped or has come to its end, execution stands at the code that leaves
  with the status for it (`Call.Leaves`).

`Call.Simulates.step` follows one instruction, `Call.Simulates.steps` a whole body.
-/

namespace WasmJit

open Reference (valueAt)

/-! ### Constructs and labels -/

/-- The label `l` belongs to the construct `f`. -/
structure Frame.Labelled (numLocals : Nat) (f : Frame) (l : Reference.Label) : Prop where
  arity : l.arity = f.arity.toNat
  entry : f.entry = numLocals + l.below

/-- The construct `f'` is `f`, left by more jumps. -/
structure Frame.Grows (f f' : Frame) : Prop where
  entry : f'.entry = f.entry
  arity : f'.arity = f.arity
  otherwise : f'.otherwise = f.otherwise
  exits : f.exits ⊆ f'.exits

namespace Frame

variable {f f' : Frame} {l : Reference.Label} {numLocals : Nat}

theorem Grows.refl (f : Frame) : f.Grows f :=
  ⟨rfl, rfl, rfl, List.Subset.refl _⟩

theorem Grows.addExit (f : Frame) (j : Nat) : f.Grows (f.addExit j) :=
  ⟨rfl, rfl, rfl, List.subset_append_left _ _⟩

/-- A construct keeps its label when more jumps leave it. -/
theorem Grows.labelled (h : f.Grows f') (hl : f.Labelled numLocals l) : f'.Labelled numLocals l :=
  ⟨h.arity ▸ hl.arity, h.entry ▸ hl.entry⟩

/-- A construct that grows is still found at its place. -/
theorem exists_drop_of_grows {frames frames' : List Frame} {fs : List Frame}
    (h : List.Forall₂ Grows frames frames') {d : Nat} (hd : frames.drop d = f :: fs) :
    ∃ f' fs', frames'.drop d = f' :: fs' ∧ f.Grows f' ∧ List.Forall₂ Grows fs fs' := by
  have hdrop := List.forall₂_drop d h
  rw [hd] at hdrop
  -- as many constructs are open as before
  cases hls : frames'.drop d with
  | nil =>
    rw [hls] at hdrop
    cases hdrop
  | cons f' fs' =>
    rw [hls] at hdrop
    obtain ⟨hf, hfs⟩ := List.forall₂_cons.mp hdrop
    exact ⟨f', fs', rfl, hf, hfs⟩

theorem labelled_of_grows {frames frames' : List Frame} {labels : List Reference.Label}
    (h : List.Forall₂ Grows frames frames')
    (hl : List.Forall₂ (Labelled numLocals) frames labels) :
    List.Forall₂ (Labelled numLocals) frames' labels := by
  induction h generalizing labels with
  | nil => exact hl
  | cons hf _ ih =>
    cases hl with
    | cons hl hls => exact .cons (hf.labelled hl) (ih hls)

/-- A branch adds a jump to the construct it leaves, and to no other. -/
theorem grows_modify (frames : List Frame) (d j : Nat) :
    List.Forall₂ Grows frames (frames.modify d (·.addExit j)) := by
  induction frames generalizing d with
  | nil => simp
  | cons f frames ih =>
    cases d with
    | zero => exact .cons (.addExit f j) (List.forall₂_same.mpr fun g _ => .refl g)
    | succ d => exact .cons (.refl f) (ih d)

/-- The pending jumps to the `else` of a construct or to its end. -/
def jumpsTo (f : Frame) (toElse : Bool) : List Nat :=
  if toElse then f.otherwise.toList else f.exits

/-- The number of values that such a jump takes along. -/
def carries (f : Frame) (toElse : Bool) : Nat :=
  if toElse then 0 else f.arity.toNat

/-- Jumps that were pending still are. -/
theorem Grows.jumpsTo (h : f.Grows f') (toElse : Bool) : f.jumpsTo toElse ⊆ f'.jumpsTo toElse := by
  cases toElse with
  | true =>
    change f.otherwise.toList ⊆ f'.otherwise.toList
    rw [h.otherwise]
    exact List.Subset.refl _
  | false => exact h.exits

/-- Both kinds of jumps are pending at the construct. -/
theorem mem_jumps_of_mem_jumpsTo {j : Nat} {toElse : Bool} (h : j ∈ f.jumpsTo toElse) :
    j ∈ f.jumps := by
  cases toElse with
  | true => exact List.mem_append_right _ h
  | false => exact List.mem_append_left _ h

end Frame

/-! ### Operands below a construct -/

/-- Operands below `height` that are in memory stay where they are. -/
def OperandStack.Keeps (height : Nat) (s s' : OperandStack) : Prop :=
  ∀ i, i < height → ∀ p, p.InMemory → s.placement? i = some p → s'.placement? i = some p

namespace OperandStack.Keeps

variable {height : Nat} {s s' s'' : OperandStack}

theorem trans (h : Keeps height s s') (h' : Keeps height s' s'') : Keeps height s s'' :=
  fun i hi p hm hp => h' i hi p hm (h i hi p hm hp)

theorem mono (h : Keeps height s s') {height' : Nat} (hle : height' ≤ height) :
    Keeps height' s s' :=
  fun i hi => h i (Nat.lt_of_lt_of_le hi hle)

theorem of_eq (h : ∀ i, i < height → s'.placement? i = s.placement? i) : Keeps height s s' :=
  fun i hi _ _ hp => (h i hi).trans hp

/-- If all operands are in memory, all stay there. -/
theorem settled (h : Keeps height s s') (hs : Emitter.Settled height s) :
    Emitter.Settled height s' := by
  intro i hi
  obtain ⟨p, hp, hm⟩ := hs i hi
  exact ⟨p, h i hi p hm hp, hm⟩

/-- If all operands are in memory, no placement changes. -/
theorem placement?_eq (h : Keeps height s s') (hs : Emitter.Settled height s) {i : Nat}
    (hi : i < height) : s'.placement? i = s.placement? i := by
  obtain ⟨p, hp, hm⟩ := hs i hi
  rw [hp, h i hi p hm hp]

end OperandStack.Keeps

/-- **The machine delivers** `count` values to the slots from `entry` on, and has the operands below
where the operand stack says. -/
structure Machine.Delivers (m : Machine) (s : OperandStack) (entry count : Nat)
    (values : Nat → UInt64) : Prop where
  below : m.Represents s entry values
  results : ∀ i, i < count → m.slots[entry + i]? = some (values (entry + i))

namespace Machine.Delivers

variable {m : Machine} {s s' : OperandStack} {entry count numLocals : Nat} {values : Nat → UInt64}

/-- Values stay delivered while other code is emitted, since the operands below are in memory. -/
theorem keep (h : m.Delivers s entry count values) (hs : Emitter.Settled entry s)
    (hk : OperandStack.Keeps entry s s') : m.Delivers s' entry count values :=
  ⟨h.below.congr fun _ hi => hk.placement?_eq hs hi, h.results⟩

/-- What is delivered at the end of a construct are its results. -/
theorem close {e : Emitter} {f : Frame} (h : m.Delivers e.stack f.entry f.arity.toNat values)
    (hc : e.stack.Consistent numLocals e.stack.height) (hl : numLocals ≤ f.entry)
    (he : f.entry ≤ e.stack.height) :
    m.Represents (e.close f).stack (f.entry + f.arity.toNat) values := by
  obtain ⟨-, -, -, hbelow, hslots⟩ := Emitter.consistent_close hc hl he
  refine ⟨h.below.ready, fun i hi p hp => ?_⟩
  by_cases hlt : i < f.entry
  · exact h.below.reads i hlt p (hbelow i hlt ▸ hp)
  · -- above the entry height there are only results, each in its slot
    rw [hslots i (by omega) hi] at hp
    cases hp
    have := h.results (i - f.entry) (by omega)
    rwa [Nat.add_sub_cancel' (by omega)] at this

end Machine.Delivers

/-- With everything below a construct in memory, everything is after its end, where its results are
in their slots. -/
theorem Emitter.settled_close {e : Emitter} {f : Frame} {numLocals : Nat}
    (hc : e.stack.Consistent numLocals e.stack.height) (hl : numLocals ≤ f.entry)
    (he : f.entry ≤ e.stack.height) (hs : Settled f.entry e.stack) :
    Settled (f.entry + f.arity.toNat) (e.close f).stack := by
  obtain ⟨-, -, -, hbelow, hslots⟩ := consistent_close hc hl he
  intro i hi
  by_cases hlt : i < f.entry
  · rw [hbelow i hlt]
    exact hs i hlt
  · exact ⟨.slot, hslots i (by omega) hi, trivial⟩

/-- **What is emitted inside of a construct keeps the operands below it.** By cases on the effect.
This is why execution can wait at a jump while other code is emitted: the operands below the target
are found where they were. -/
theorem Compilation.Effect.keeps {numLocals results : Nat} {i : Instruction} {t t' : Compilation}
    {f : Frame} {fs : List Frame} (he : Effect numLocals i t t') (h : Sound numLocals results t)
    (hf : t.frames = f :: fs) : OperandStack.Keeps f.entry t.emitter.stack t'.emitter.stack := by
  cases he with
  | @operation _ op e f' fs' k s code hop hindex hheight hfloor htr hheight' hceil =>
    cases hf
    exact htr.frozen
  | block => exact fun _ _ _ _ hp => hp
  | @if_ type e f' fs' k s code b hheight hfloor htested =>
    -- the condition lies above the entry height
    cases hf
    exact fun i hi => htested.frozen i (by omega)
  | @else_ e f' fs' s code hkind hheight hcarried =>
    -- truncating to the entry height keeps everything below
    cases hf
    have hsound := (h.carry (by simp) hcarried).branch (d := 0) (by simp) none
    obtain ⟨-, -, -, hbelow⟩ := Emitter.consistent_startElse hsound.consistent hsound.locals_le
      hsound.entry_le
    exact .trans (fun i _ => hcarried.frozen i) (.of_eq hbelow)
  | @end_ e f' fs' s code harity hheight hcarried =>
    cases hf
    have hsound := h.carry (by simp) hcarried
    obtain ⟨-, -, -, hbelow, -⟩ := Emitter.consistent_close hsound.consistent hsound.locals_le
      hsound.entry_le
    exact .trans (fun i _ => hcarried.frozen i) (.of_eq hbelow)
  | br htarget hfloor hcarried => exact fun i _ => hcarried.frozen i
  | @brIf depth e f' g fs' k s code code' b htarget hheight hfloor htested hcarried =>
    cases hf
    exact fun i hi => htested.frozen i (by omega)
  | unreachable => exact fun _ _ _ _ hp => hp
  | deadOpen => exact fun _ _ _ _ hp => hp
  | deadClose => exact fun _ _ _ _ hp => hp
  | deadSkip => exact fun _ _ _ _ hp => hp
  | deadElse hkind =>
    cases hf
    obtain ⟨-, -, -, hbelow⟩ := Emitter.consistent_startElse h.consistent h.locals_le h.entry_le
    exact .of_eq hbelow
  | deadEnd harity =>
    cases hf
    obtain ⟨-, -, -, hbelow, -⟩ := Emitter.consistent_close h.consistent h.locals_le h.entry_le
    exact .of_eq hbelow

/-! ### The relation -/

/-- **The execution of finished code**, from a machine at its start, with the values of the
parameters and locals. -/
structure Call where
  code : Emitter
  start : Machine
  locals : List UInt64

namespace Call

/-- Execution arrives at position `q` with machine `m`. -/
def Reaches (x : Call) (q : Nat) (m : Machine) : Prop :=
  (∃ n, x.code.resolved.Runs n 0 x.start q m) ∧ x.code.stack.ceiling ≤ m.slots.size

/-- **Execution has arrived at the end of what is emitted**, with the operands of the interpreter
where the operand stack says. -/
structure Running (x : Call) (e : Emitter) (operands : List UInt64) : Prop where
  height_eq : e.stack.height = x.locals.length + operands.length
  flagsOnTop : e.stack.FlagsOnTop e.stack.height
  arrived : ∃ m, x.Reaches e.code.size m ∧
    m.Represents e.stack e.stack.height (valueAt x.locals operands)

/-- **Execution stands at a jump that is taken**: it leaves the construct `f` with its results, or
goes to its `else`. -/
structure Poised (x : Call) (s : OperandStack) (f : Frame) (toElse : Bool)
    (operands : List UInt64) : Prop where
  length_eq : x.locals.length + operands.length = f.entry + f.carries toElse
  settled : Emitter.Settled f.entry s
  jump : ∃ q b j m, x.Reaches q m ∧ x.code.code[q]? = some (.jump b j) ∧ m.taken b = true ∧
    j ∈ f.jumpsTo toElse ∧ m.Delivers s f.entry (f.carries toElse) (valueAt x.locals operands)

/-- **Execution leaves with a status**, with the given values above the locals. -/
def Leaves (x : Call) (status : Status) (values : List UInt64) : Prop :=
  ∃ q m, x.Reaches q m ∧ m.Ready ∧
    x.code.code[q]? = some (.storeByte status.code.toNat .callRecord 8) ∧
    x.code.code[q + 1]? = some .ret ∧
    ∀ i v, values[i]? = some v → m.slots[x.locals.length + i]? = some v

/-- **The finished code simulates the interpreter.** There is one case for each mode of the
interpreter; running with no construct open is the end of the body. -/
inductive Simulates (x : Call) : Compilation → Reference.State UInt64 → Prop
  | running {n : Nat} {e : Emitter} {frames : List Frame} {operands : List UInt64}
      {labels : List Reference.Label} (opened : frames ≠ [])
      (labelled : List.Forall₂ (Frame.Labelled x.locals.length) frames labels)
      (running : x.Running e operands) :
      Simulates x ⟨n, e, frames, none⟩ ⟨operands, labels, .running⟩
  /-- Of the open constructs, those inside of the one that is left count as nested, and so do those
  opened in dead code. -/
  | skipping {n d nested : Nat} {e : Emitter} {f : Frame} {frames fs : List Frame}
      {dead : Option Nat} {operands : List UInt64} {labels : List Reference.Label} {toElse : Bool}
      (target : frames.drop d = f :: fs) (nested_eq : nested = d + dead.getD 0)
      (labelled : List.Forall₂ (Frame.Labelled x.locals.length) (f :: fs) labels)
      (poised : x.Poised e.stack f toElse operands) :
      Simulates x ⟨n, e, frames, dead⟩ ⟨operands, labels, .skipping nested toElse⟩
  | finished {n : Nat} {e : Emitter} {operands : List UInt64}
      (height_eq : e.stack.height = x.locals.length + operands.length)
      (leaves : x.Leaves .returned operands.reverse) :
      Simulates x ⟨n, e, [], none⟩ ⟨operands, [], .running⟩
  | trapped {t : Compilation} {operands : List UInt64} {labels : List Reference.Label}
      (leaves : x.Leaves .unreachable []) : Simulates x t ⟨operands, labels, .trapped⟩

variable {x : Call} {e : Emitter} {f f' : Frame} {fs frames : List Frame} {dead : Option Nat}
  {operands : List UInt64} {labels : List Reference.Label} {toElse : Bool} {results : Nat}
  {m m' : Machine} {q q' : Nat}

/-- Execution goes on from where it has arrived. Slots are never added or removed. -/
theorem Reaches.run (h : x.Reaches q m) {n : Nat} (hrun : x.code.resolved.Runs n q m q' m')
    (hsize : m'.slots.size = m.slots.size) : x.Reaches q' m' := by
  obtain ⟨⟨k, hruns⟩, hceil⟩ := h
  exact ⟨⟨k + n, hruns.trans hrun⟩, hsize ▸ hceil⟩

/-- Appended straight-line code is executed, once execution has arrived in front of it. -/
theorem Reaches.extend (h : x.Reaches e.code.size m) {s : OperandStack} {code : List (Instr Nat)}
    (hc : (e.extend s code).Continues x.code) (hrun : Machine.runCode code m = some m')
    (hsize : m'.slots.size = m.slots.size) : x.Reaches (e.extend s code).code.size m' :=
  h.run (Emitter.runs_extend hc hrun) hsize

/-- While instructions are skipped, execution stays poised: code is emitted behind the jump, and the
construct that it leaves may be left by more jumps. -/
theorem Poised.mono {s s' : OperandStack} (h : x.Poised s f toElse operands)
    (hk : OperandStack.Keeps f.entry s s') (hentry : f'.entry = f.entry)
    (harity : f'.arity = f.arity) (hjumps : f.jumpsTo toElse ⊆ f'.jumpsTo toElse) :
    x.Poised s' f' toElse operands := by
  have hcarries : f'.carries toElse = f.carries toElse := by
    rw [Frame.carries, harity]
    rfl
  obtain ⟨hlength, hsettled, q, b, j, m, hreach, hq, htaken, hj, hdel⟩ := h
  -- it is the same jump, at the same place, with the same values
  refine ⟨by rw [hentry, hcarries, hlength], hentry ▸ hk.settled hsettled, q, b, j, m, hreach, hq,
    htaken, hjumps hj, ?_⟩
  rw [hentry, hcarries]
  exact hdel.keep hsettled hk

/-! ### Ends of constructs -/

/-- Execution falls through to the end of a construct, over the label if there is one. -/
theorem Reaches.landExits (h : x.Reaches e.code.size m)
    (hc : (e.landExits f).Continues x.code) : x.Reaches (e.landExits f).code.size m := by
  unfold Emitter.landExits at hc ⊢
  split
  · exact h
  · next hne =>
    rw [if_neg hne] at hc
    have hlabel : x.code.code[e.code.size]? = some .label := hc.code _ _ (by simp)
    rw [Emitter.size_code_land]
    exact h.run (Emitter.runs_label hlabel) rfl

/-- Execution jumps to the end of a construct, where one of its pending jumps lands. -/
theorem Reaches.jumpToEnd (h : x.Reaches q m) {b : Branch} {j : Nat}
    (hq : x.code.code[q]? = some (.jump b j)) (htaken : m.taken b = true) (hj : j ∈ f.jumps)
    (hx : ∃ y, e.fixups[j]? = some y) (hc : (e.landExits f).Continues x.code) :
    x.Reaches (e.landExits f).code.size m := by
  have hne : f.jumps ≠ [] := List.ne_nil_of_mem hj
  unfold Emitter.landExits at hc ⊢
  rw [if_neg hne] at hc ⊢
  exact h.run (Emitter.runs_land hc hj hx hq htaken) rfl

/-- **After the end of a construct**, whether execution fell through or jumped: either it goes on
with the results of the construct, or the function returns them. -/
theorem simulates_close
    (hs : Compilation.Sound x.locals.length results ⟨x.locals.length, e, f :: fs, dead⟩)
    (hc : (e.close f).Continues x.code)
    (hlabels : List.Forall₂ (Frame.Labelled x.locals.length) fs labels)
    (hlength : x.locals.length + operands.length = f.entry + f.arity.toNat)
    (hsettled : Emitter.Settled f.entry e.stack)
    (hreach : x.Reaches (e.landExits f).code.size m)
    (hdel : m.Delivers e.stack f.entry f.arity.toNat (valueAt x.locals operands)) :
    x.Simulates ⟨x.locals.length, e.close f, fs, none⟩ ⟨operands, labels, .running⟩ := by
  have hcons : e.stack.Consistent x.locals.length e.stack.height := hs.consistent
  obtain ⟨-, hheight, -, -, -⟩ := Emitter.consistent_close hcons hs.locals_le hs.entry_le
  have hrep := hdel.close hcons hs.locals_le hs.entry_le
  by_cases hkind : f.kind = .function
  · -- the body of the function has nothing around it, and returns its results
    obtain rfl := hs.nested.kind_eq_function.mp hkind
    cases hlabels
    have hentry : f.entry = x.locals.length := hs.nested.entry_eq
    rw [Emitter.close, if_pos hkind] at hc
    obtain ⟨hstore, hret⟩ := Emitter.getElem?_exit hc
    refine .finished (by omega) ⟨_, m, hreach, hrep.ready, hstore, hret, fun i v hv => ?_⟩
    have hi : i < operands.length := by simpa using (List.getElem?_eq_some_iff.mp hv).1
    rw [← hentry, hdel.results i (by omega), hentry, Reference.valueAt,
      List.getD_eq_getElem?_getD, List.getElem?_append_right (Nat.le_add_right _ _),
      Nat.add_sub_cancel_left, hv]
    rfl
  · -- another construct ends inside of those around it, and everything is in memory
    have hclose : e.close f = e.afterEnd f := by rw [Emitter.close, if_neg hkind]
    have hset := Emitter.settled_close hcons hs.locals_le hs.entry_le hsettled
    have hne : fs ≠ [] := fun hnil => hkind (hs.nested.kind_eq_function.mpr hnil)
    refine .running hne hlabels
      ⟨by omega, hheight ▸ hset.flagsOnTop, m, ?_, hheight ▸ hrep⟩
    rw [hclose]
    exact hreach

/-- **A jump to the end of a construct.** It was poised with the results, and goes on behind the
label. -/
theorem Poised.close
    (h : x.Poised e.stack f toElse operands)
    (hs : Compilation.Sound x.locals.length results ⟨x.locals.length, e, f :: fs, dead⟩)
    (hc : (e.close f).Continues x.code) (harity : f.kind = .ifThen → f.arity.toNat = 0)
    (hlabels : List.Forall₂ (Frame.Labelled x.locals.length) fs labels) :
    x.Simulates ⟨x.locals.length, e.close f, fs, none⟩ ⟨operands, labels, .running⟩ := by
  obtain ⟨hlength, hsettled, q, b, j, m, hreach, hq, htaken, hj, hdel⟩ := h
  -- a jump to an `else` that does not exist carries nothing, as the construct has no results
  have hcarries : f.carries toElse = f.arity.toNat := by
    cases toElse with
    | false => rfl
    | true =>
      have hsome : f.otherwise.isSome := by
        rw [Option.isSome_iff_exists]
        exact ⟨j, Option.mem_toList.mp hj⟩
      exact (harity (hs.nested.otherwise_isSome.mp hsome)).symm
  rw [hcarries] at hlength hdel
  have hmem := Frame.mem_jumps_of_mem_jumpsTo hj
  obtain ⟨y, hy, -⟩ := Compilation.exists_fixup hs.linked List.mem_cons_self hmem
  have hland : (e.landExits f).Continues x.code :=
    (Emitter.Continues.landExits_close hs.consistent hs.locals_le hs.entry_le).trans hc
  exact simulates_close hs hc hlabels hlength hsettled
    (hreach.jumpToEnd hq htaken hmem ⟨y, hy⟩ hland) hdel

/-- **A jump to the `else` of a construct.** It was poised when the condition was tested, and
nothing is carried along. -/
theorem Poised.startElse
    (h : x.Poised e.stack f true operands)
    (hs : Compilation.Sound x.locals.length results ⟨x.locals.length, e, f :: fs, dead⟩)
    (hc : (e.startElse f).Continues x.code)
    (hlabels : List.Forall₂ (Frame.Labelled x.locals.length) (f :: fs) labels) :
    x.Simulates
      ⟨x.locals.length, e.startElse f, { f with kind := .ifElse, otherwise := none } :: fs, none⟩
      ⟨operands, labels, .running⟩ := by
  obtain ⟨hlength, hsettled, q, b, j, m, hreach, hq, htaken, hj, hdel⟩ := h
  have hcons : e.stack.Consistent x.locals.length e.stack.height := hs.consistent
  obtain ⟨-, hheight, -, hbelow⟩ :=
    Emitter.consistent_startElse hcons hs.locals_le hs.entry_le
  obtain ⟨y, hy, -⟩ := Compilation.exists_fixup hs.linked List.mem_cons_self
    (Frame.mem_jumps_of_mem_jumpsTo hj)
  have hkeep : OperandStack.Keeps f.entry e.stack (e.startElse f).stack := .of_eq hbelow
  -- the label at the start of the `else` is where the jump has landed
  have hland : (e.land f.otherwise.toList).Continues x.code :=
    (Emitter.Continues.land_startElse hcons hs.locals_le hs.entry_le).trans hc
  have hstart := hreach.run (Emitter.runs_land hland hj ⟨y, hy⟩ hq htaken) rfl
  cases hlabels with
  | cons hl hls =>
    refine .running (by simp) (.cons ⟨hl.arity, hl.entry⟩ hls)
      ⟨by rw [hheight]; exact hlength.symm, ?_, m, hstart, ?_⟩
    · rw [hheight]
      exact (hkeep.settled hsettled).flagsOnTop
    · rw [hheight]
      exact (hdel.keep hsettled hkeep).below

/-! ### Executing an instruction -/

/-- A straight-line instruction replaces the operands that it pops by its result. The result is the
one with which the generated code is specified (`Emitter.Operation.result`). -/
theorem exists_execute {i : Instruction} {op : Emitter.Operation} {locals : List UInt64} {k : Nat}
    (hop : Emitter.operation? i = some op) (hindex : ∀ y, i = .localGet y → y.toNat < locals.length)
    (hk : locals.length ≤ k) (hheight : locals.length + operands.length = k + op.pops)
    (labels : List Reference.Label) :
    ∃ operands', Reference.State.execute locals ⟨operands, labels, .running⟩ i =
        some ⟨operands', labels, .running⟩ ∧
      locals.length + operands'.length = k + 1 ∧
      ∀ n, n < k + 1 → valueAt locals operands' n =
        Function.update (valueAt locals operands) k (op.result (valueAt locals operands) k) n := by
  -- each instruction names its operands and pushes one value in their place
  cases i with
  | localGet y =>
    cases hop
    obtain rfl : locals.length + operands.length = k := hheight
    obtain ⟨v, hv⟩ : ∃ v, locals[y.toNat]? = some v :=
      ⟨_, List.getElem?_eq_getElem (hindex y rfl)⟩
    refine ⟨v :: operands, by simp [Reference.State.execute, hv], rfl, fun n hn => ?_⟩
    dsimp only
    rw [Reference.valueAt_cons_eq_update (fun _ _ => rfl) hn, Reference.valueAt_local hv]
  | add =>
    cases hop
    obtain ⟨a, b, rest, rfl, rfl, ha, hb, hsame⟩ := Reference.exists_two hheight hk
    refine ⟨(a + b) :: rest, rfl, rfl, fun n hn => ?_⟩
    dsimp only
    rw [Reference.valueAt_cons_eq_update hsame hn, ha, hb]
  | eq =>
    cases hop
    obtain ⟨a, b, rest, rfl, rfl, ha, hb, hsame⟩ := Reference.exists_two hheight hk
    refine ⟨(if a = b then 1 else 0) :: rest, rfl, rfl, fun n hn => ?_⟩
    dsimp only
    rw [Reference.valueAt_cons_eq_update hsame hn, ha, hb]
  | _ => cases hop

/-- **A straight-line instruction** is executed by both: the interpreter changes one operand, and
the code leaves the machine with the same value at that position. -/
theorem Running.operation {i : Instruction} {op : Emitter.Operation} {k : Nat} {s : OperandStack}
    {code : List (Instr Nat)} (h : x.Running e operands) (hop : Emitter.operation? i = some op)
    (hindex : ∀ y, i = .localGet y → y.toNat < x.locals.length) (hk : x.locals.length ≤ k)
    (hheight : e.stack.height = k + op.pops) {floor : Nat}
    (htr : Emitter.Transforms x.locals.length floor e.stack.height e.stack (k + 1) s code
      fun values => Function.update values k (op.result values k))
    (hs : s.height = k + 1) (hc : (e.extend s code).Continues x.code)
    (labels : List Reference.Label) :
    ∃ operands', Reference.State.execute x.locals ⟨operands, labels, .running⟩ i =
        some ⟨operands', labels, .running⟩ ∧ x.Running (e.extend s code) operands' := by
  obtain ⟨hlength, hflags, m, hreach, hrep⟩ := h
  obtain ⟨operands', hexec, hlength', hvalues⟩ :=
    exists_execute hop hindex hk (hlength.symm.trans hheight) labels
  -- there are slots for everything that is ever pushed
  have hsize : s.ceiling ≤ m.slots.size := Nat.le_trans hc.ceiling hreach.2
  obtain ⟨m', hrun, hrep', hkeeps⟩ := htr.runs m _ hflags hrep
    (Nat.le_trans htr.active_le (Nat.le_trans htr.ceiling_le hsize))
  refine ⟨operands', hexec, hs.trans hlength'.symm, ?_, m', hreach.extend hc hrun hkeeps.size_eq,
    ?_⟩
  · rw [Emitter.stack_extend, hs]
    exact htr.flagsOnTop hflags
  · rw [Emitter.stack_extend, hs]
    exact hrep'.congr_values hvalues

/-- **Testing a condition**: the jump behind it is taken exactly when it is zero. The condition is
popped, and the operands below it are in memory. -/
theorem Running.tested {k : Nat} {s : OperandStack} {code : List (Instr Nat)} {b : Branch}
    (h : x.Running e operands) (hk : x.locals.length ≤ k) (hheight : e.stack.height = k + 1)
    (ht : Emitter.Tested x.locals.length k e.stack s code b)
    (hc : (e.extend s code).Continues x.code) :
    ∃ c rest m, operands = c :: rest ∧ x.locals.length + rest.length = k ∧
      x.Reaches (e.extend s code).code.size m ∧ m.Represents s k (valueAt x.locals rest) ∧
      m.taken b = decide (c = 0) := by
  -- the condition is the topmost operand of the interpreter
  obtain ⟨hlength, hflags, m, hreach, hrep⟩ := h
  obtain ⟨c, rest, rfl, hrest, hvalue, hsame⟩ :=
    Reference.exists_one (hlength.symm.trans hheight) hk
  have hsize : s.ceiling ≤ m.slots.size := Nat.le_trans hc.ceiling hreach.2
  rw [hheight] at hflags hrep
  obtain ⟨m', hrun, hrep', hkeeps, htaken⟩ := ht.runs m _ hflags hrep
    (Nat.lt_of_lt_of_le ht.lt_ceiling (ht.ceiling_eq ▸ hsize))
  refine ⟨c, rest, m', rfl, hrest, hreach.extend hc hrun hkeeps.size_eq, hrep'.congr_values hsame,
    ?_⟩
  rw [htaken, hvalue]

/-- **Carrying results** out of a construct leaves execution in front of a jump, with the operands
that the interpreter keeps: those below the construct, and its results moved down to them. -/
theorem Running.carried {g : Frame} {l : Reference.Label} {s : OperandStack}
    {code : List (Instr Nat)} (h : x.Running e operands)
    (hl : g.Labelled x.locals.length l) (hcount : g.entry + g.arity.toNat ≤ e.stack.height)
    (hcarried : Emitter.Carried x.locals.length g.entry g.arity.toNat e.stack s code)
    (hc : (e.extend s code).Continues x.code) :
    ∃ m, x.Reaches (e.extend s code).code.size m ∧
      m.Delivers s g.entry g.arity.toNat (valueAt x.locals (l.keep operands)) ∧
      x.locals.length + (l.keep operands).length = g.entry + g.arity.toNat := by
  obtain ⟨hlength, hflags, m, hreach, hrep⟩ := h
  -- the results stand above everything that is dropped with the construct
  have hkeep : l.below + l.arity ≤ operands.length := by
    have := hl.arity
    have := hl.entry
    omega
  have hsize : s.ceiling ≤ m.slots.size := Nat.le_trans hc.ceiling hreach.2
  obtain ⟨m', hrun, hrep', hkeeps, hresults⟩ := hcarried.runs m _ hflags hrep
    (Nat.le_trans hcarried.coherent.active_le_ceiling hsize)
  refine ⟨m', hreach.extend hc hrun hkeeps.size_eq,
    ⟨hrep'.congr_values fun i hi => ?_, fun i hi => ?_⟩, ?_⟩
  · exact Reference.valueAt_keep_of_lt hkeep (hl.entry ▸ hi)
  · rw [hresults i hi, hl.entry, Reference.valueAt_keep hkeep (hl.arity ▸ hi), hlength, hl.arity]
  · rw [Reference.Label.length_keep hkeep, hl.arity, hl.entry, Nat.add_assoc]

/-- **A branch.** What is emitted behind it matters only in that operands stay where they are. -/
theorem Running.branch {g : Frame} {d : Nat} {s : OperandStack} {code : List (Instr Nat)}
    (h : x.Running e operands)
    (hlabels : List.Forall₂ (Frame.Labelled x.locals.length) frames labels)
    (htarget : frames[d]? = some g) (hcount : g.entry + g.arity.toNat ≤ e.stack.height)
    (hcarried : Emitter.Carried x.locals.length g.entry g.arity.toNat e.stack s code)
    (hc : ((e.extend s code).withJump .unconditional .always).Continues x.code) (e' : Emitter)
    (he' : e'.stack = s) (dead : Option Nat) (hdead : dead.getD 0 = 0) :
    ∃ operands' labels', Reference.State.branch ⟨operands, labels, .running⟩ d =
        some ⟨operands', labels', .skipping d false⟩ ∧
      x.Simulates ⟨x.locals.length, e', frames.modify d (·.addExit e.fixups.size), dead⟩
        ⟨operands', labels', .skipping d false⟩ := by
  subst he'
  have hc' := (Emitter.Continues.withJump (e.extend e'.stack code) .unconditional .always).trans hc
  -- the construct that is left, and its label
  have hd : d < frames.length := (List.getElem?_eq_some_iff.mp htarget).1
  have htarget' : (frames.modify d (·.addExit e.fixups.size))[d]? =
      some (g.addExit e.fixups.size) := by
    rw [List.getElem?_modify_eq, htarget]
    rfl
  have hdrop := List.forall₂_drop d
    (Frame.labelled_of_grows (Frame.grows_modify frames d e.fixups.size) hlabels)
  obtain ⟨gs, hgs⟩ : ∃ gs, (frames.modify d (·.addExit e.fixups.size)).drop d =
      g.addExit e.fixups.size :: gs :=
    ⟨_, (List.drop_eq_getElem_cons (by simpa using hd)).trans
      (by rw [(List.getElem?_eq_some_iff.mp htarget').2])⟩
  rw [hgs] at hdrop
  unfold Reference.State.branch
  dsimp only
  cases hls : labels.drop d with
  | nil =>
    rw [hls] at hdrop
    cases hdrop
  | cons l outer =>
    rw [hls] at hdrop
    obtain ⟨hl, -⟩ := List.forall₂_cons.mp hdrop
    have hg : g.Labelled x.locals.length l := ⟨hl.arity, hl.entry⟩
    have hentry : g.entry ≤ e.stack.height := by omega
    -- execution stands at the jump, with the results carried to the start of the construct
    obtain ⟨m, hreach, hdel, hlength⟩ := h.carried hg hcount hcarried hc'
    exact ⟨_, _, rfl, .skipping hgs (by rw [hdead]; rfl) hdrop
      ⟨hlength, fun i hi => hcarried.settled i (Nat.lt_of_lt_of_le hi hentry), _, .always, _, m,
        hreach, Emitter.getElem?_withJump hc, rfl,
        List.mem_append_right _ List.mem_cons_self, hdel⟩⟩

/-! ### Skipping an instruction -/

/-- What is emitted while instructions are skipped, with jumps that leave open constructs, does not
disturb the jump at which execution stands. -/
theorem Simulates.grow {n nested height : Nat} {frames' : List Frame}
    (h : x.Simulates ⟨n, e, f :: fs, dead⟩ ⟨operands, labels, .skipping nested toElse⟩)
    (e' : Emitter) (dead' : Option Nat)
    (hn : Frame.Nested x.locals.length results height (f :: fs))
    (hk : OperandStack.Keeps f.entry e.stack e'.stack)
    (hg : List.Forall₂ Frame.Grows (f :: fs) frames') (hdead : dead'.getD 0 = dead.getD 0) :
    x.Simulates ⟨n, e', frames', dead'⟩ ⟨operands, labels, .skipping nested toElse⟩ := by
  cases h with
  | @skipping _ d _ _ g _ gs _ _ _ _ htarget hnested hlabels hpoised =>
    obtain ⟨g', gs', htarget', hgrows, hrest⟩ := Frame.exists_drop_of_grows hg htarget
    -- the construct that is left starts at or below the innermost one
    have hkeep := hk.mono (hn.entry_le_of_drop htarget)
    exact .skipping htarget' (hdead ▸ hnested)
      (Frame.labelled_of_grows (.cons hgrows hrest) hlabels)
      (hpoised.mono hkeep hgrows.entry hgrows.arity (hgrows.jumpsTo toElse))

/-- A construct that is opened while instructions are skipped is one more to be passed. -/
theorem Simulates.open_ {n nested : Nat} (f : Frame)
    (h : x.Simulates ⟨n, e, frames, dead⟩ ⟨operands, labels, .skipping nested toElse⟩) :
    x.Simulates ⟨n, e, f :: frames, dead⟩ ⟨operands, labels, .skipping (nested + 1) toElse⟩ := by
  cases h with
  | skipping htarget hnested hlabels hpoised =>
    exact .skipping (d := _ + 1) htarget (by omega) hlabels hpoised

/-- The `else` of the innermost construct is where skipping ends, or it is skipped. It ends there if
the jump goes to this `else`, as the condition was zero. -/
theorem Simulates.skip_else {nested : Nat}
    (h : x.Simulates ⟨x.locals.length, e, f :: fs, dead⟩
      ⟨operands, labels, .skipping nested toElse⟩)
    (hs : Compilation.Sound x.locals.length results ⟨x.locals.length, e, f :: fs, dead⟩)
    (hdead : dead.getD 0 = 0) (hc : (e.startElse f).Continues x.code) :
    x.Simulates
      ⟨x.locals.length, e.startElse f, { f with kind := .ifElse, otherwise := none } :: fs, none⟩
      (Reference.State.skip ⟨operands, labels, .skipping nested toElse⟩ nested toElse .else_) := by
  obtain ⟨-, -, -, hbelow⟩ := Emitter.consistent_startElse hs.consistent hs.locals_le hs.entry_le
  have hkeep : OperandStack.Keeps f.entry e.stack (e.startElse f).stack := .of_eq hbelow
  cases h with
  | @skipping _ d _ _ g _ gs _ _ _ _ htarget hnested hlabels hpoised =>
    obtain rfl : nested = d := by omega
    cases nested with
    | zero =>
      cases htarget
      cases toElse with
      | true => exact hpoised.startElse hs hc hlabels
      | false =>
        -- a branch out of the first arm passes the second one too
        obtain ⟨l, ls, hl, hls, rfl⟩ := List.forall₂_cons_left_iff.mp hlabels
        exact .skipping (d := 0) rfl rfl (.cons ⟨hl.arity, hl.entry⟩ hls)
          (hpoised.mono hkeep rfl rfl (List.Subset.refl _))
    | succ d =>
      -- the `else` of a construct inside of the one that is left
      have hkeep' := hkeep.mono (hs.nested.entry_le_of_drop htarget)
      exact .skipping (d := d + 1) htarget rfl hlabels
        (hpoised.mono hkeep' rfl rfl (List.Subset.refl _))

/-- The end of the innermost construct is where skipping ends, or one less is nested. It ends there
if the jump leaves this construct. -/
theorem Simulates.skip_end {nested : Nat}
    (h : x.Simulates ⟨x.locals.length, e, f :: fs, dead⟩
      ⟨operands, labels, .skipping nested toElse⟩)
    (hs : Compilation.Sound x.locals.length results ⟨x.locals.length, e, f :: fs, dead⟩)
    (hdead : dead.getD 0 = 0) (harity : f.kind = .ifThen → f.arity.toNat = 0)
    (hc : (e.close f).Continues x.code) :
    x.Simulates ⟨x.locals.length, e.close f, fs, none⟩
      (Reference.State.skip ⟨operands, labels, .skipping nested toElse⟩ nested toElse .end_) := by
  obtain ⟨-, -, -, hbelow, -⟩ := Emitter.consistent_close hs.consistent hs.locals_le hs.entry_le
  have hkeep : OperandStack.Keeps f.entry e.stack (e.close f).stack := .of_eq hbelow
  cases h with
  | @skipping _ d _ _ g _ gs _ _ _ _ htarget hnested hlabels hpoised =>
    obtain rfl : nested = d := by omega
    cases nested with
    | zero =>
      cases htarget
      obtain ⟨l, ls, -, hls, rfl⟩ := List.forall₂_cons_left_iff.mp hlabels
      exact hpoised.close hs hc harity hls
    | succ d =>
      -- the end of a construct inside of the one that is left
      have hkeep' := hkeep.mono (hs.nested.entry_le_of_drop htarget)
      exact .skipping htarget rfl hlabels (hpoised.mono hkeep' rfl rfl (List.Subset.refl _))

theorem skip_operation {i : Instruction} {op : Emitter.Operation}
    (hop : Emitter.operation? i = some op) (r : Reference.State UInt64) (nested : Nat)
    (toElse : Bool) : r.skip nested toElse i = r := by
  cases i with
  | localGet | add | eq => rfl
  | _ => cases hop

open Compilation (Effect Sound) in
/-- **While the interpreter skips**, execution stays in front of its jump until the construct that
the jump leaves has come to its end. By cases on the effect: the compilation knows nothing of the
jump and may take the code to be live. -/
theorem Simulates.skip {i : Instruction} {t t' : Compilation} {nested : Nat}
    (h : x.Simulates t ⟨operands, labels, .skipping nested toElse⟩)
    (hs : Sound x.locals.length results t) (he : Effect x.locals.length i t t')
    (hframes : t.frames ≠ []) (hc : t'.emitter.Continues x.code) :
    x.Simulates t' (Reference.State.skip ⟨operands, labels, .skipping nested toElse⟩ nested toElse
      i) := by
  have hsame : ∀ frames : List Frame, List.Forall₂ Frame.Grows frames frames := fun frames =>
    List.forall₂_same.mpr fun g _ => .refl g
  cases he with
  | @operation _ op e f fs k s code hop hindex hheight hfloor htr hheight' hceil =>
    rw [skip_operation hop]
    exact h.grow _ _ hs.nested htr.frozen (hsame _) rfl
  | block => exact h.open_ _
  | @if_ type e f fs k s code b hheight hfloor htested =>
    have hkeep : OperandStack.Keeps f.entry e.stack s := fun i hi => htested.frozen i (by omega)
    exact (h.grow ((e.extend s code).withJump .ifZero b) none hs.nested hkeep (hsame _)
      rfl).open_ _
  | @else_ e f fs s code hkind hheight hcarried =>
    -- the compilation takes the first arm to be live, so it carries its results and jumps
    have hs' := (hs.carry (by simp) hcarried).branch (d := 0) (by simp) none
    have hg := Frame.grows_modify (f :: fs) 0 e.fixups.size
    exact (h.grow ((e.extend s code).withJump .unconditional .always) none hs.nested
      (fun i _ => hcarried.frozen i) hg rfl).skip_else hs' rfl hc
  | @end_ e f fs s code harity hheight hcarried =>
    have hs' := hs.carry (by simp) hcarried
    exact (h.grow (e.extend s code) none hs.nested (fun i _ => hcarried.frozen i) (hsame _)
      rfl).skip_end hs' rfl harity hc
  | br htarget hfloor hcarried =>
    exact h.grow _ _ hs.nested (fun i _ => hcarried.frozen i) (Frame.grows_modify _ _ _) rfl
  | brIf htarget hheight hfloor htested hcarried =>
    exact h.grow _ _ hs.nested (fun i hi => htested.frozen i (by omega)) (Frame.grows_modify _ _ _)
      rfl
  | @unreachable e fs =>
    -- the exit sequence stands behind the jump and is not reached from it
    obtain ⟨f, fs, rfl⟩ := List.exists_cons_of_ne_nil hframes
    exact h.grow _ _ hs.nested (fun _ _ _ _ hp => hp) (hsame _) rfl
  | deadOpen hopens =>
    -- the interpreter and the compilation count the same constructs
    cases h with
    | skipping htarget hnested hlabels hpoised =>
      obtain ⟨type, rfl | rfl⟩ := hopens
      · exact .skipping htarget (by simp at hnested ⊢; omega) hlabels hpoised
      · exact .skipping htarget (by simp at hnested ⊢; omega) hlabels hpoised
  | deadClose =>
    cases h with
    | @skipping _ d _ _ _ _ _ _ _ _ _ htarget hnested hlabels hpoised =>
      subst hnested
      exact .skipping htarget rfl hlabels hpoised
  | @deadSkip _ e fs depth hopens hcloses hseparates =>
    -- an `else` that is skipped belongs to a construct opened in dead code
    have hnested : i = .else_ → 0 < nested := by
      intro helse
      have hpos := hseparates helse
      cases h with
      | skipping _ hnested =>
        rw [Option.getD_some] at hnested
        omega
    rw [Reference.State.skip_eq_self _ toElse hopens hcloses hnested]
    exact h
  | deadElse hkind => exact h.skip_else hs rfl hc
  | deadEnd harity => exact h.skip_end hs rfl harity hc

/-! ### One instruction -/

/-- A jump that is not taken is passed, and execution goes on behind it. -/
theorem Running.pass {b : Branch} {kind : JumpKind}
    (hreach : x.Reaches e.code.size m) (hc : (e.withJump kind b).Continues x.code)
    (htaken : m.taken b = false) (hlength : x.locals.length + operands.length = e.stack.height)
    (hsettled : Emitter.Settled e.stack.height e.stack)
    (hrep : m.Represents e.stack e.stack.height (valueAt x.locals operands)) :
    x.Running (e.withJump kind b) operands := by
  refine ⟨hlength.symm, hsettled.flagsOnTop, m, ?_, hrep⟩
  rw [Emitter.size_code_withJump]
  exact hreach.run (Emitter.runs_pass (Emitter.getElem?_withJump hc) htaken) rfl

/-- An `if` goes on with its first arm, or jumps to its `else`. In both cases the condition is gone
and the construct is open. -/
theorem Running.if_ {k : Nat} {s : OperandStack} {code : List (Instr Nat)} {b : Branch}
    {type : BlockType} (h : x.Running e operands)
    (hlabels : List.Forall₂ (Frame.Labelled x.locals.length) frames labels)
    (hk : x.locals.length ≤ k) (hheight : e.stack.height = k + 1)
    (ht : Emitter.Tested x.locals.length k e.stack s code b)
    (hc : ((e.extend s code).withJump .ifZero b).Continues x.code) :
    ∃ r, Reference.State.execute x.locals ⟨operands, labels, .running⟩ (.if_ type) = some r ∧
      x.Simulates ⟨x.locals.length, (e.extend s code).withJump .ifZero b,
        { Frame.opened .ifThen type.arity k with otherwise := some e.fixups.size } :: frames,
        none⟩ r := by
  have hc' := (Emitter.Continues.withJump (e.extend s code) .ifZero b).trans hc
  obtain ⟨c, rest, m, rfl, hrest, hreach, hrep, htaken⟩ := h.tested hk hheight ht hc'
  have hs : s.height = k := ht.height_eq
  -- the interpreter opens the construct either way
  refine ⟨_, rfl, ?_⟩
  have hlabels' : List.Forall₂ (Frame.Labelled x.locals.length)
      ({ Frame.opened .ifThen type.arity k with otherwise := some e.fixups.size } :: frames)
      (⟨type.arity, rest.length⟩ :: labels) := .cons ⟨rfl, hrest.symm⟩ hlabels
  by_cases hzero : c = 0
  · -- the jump is taken, and execution stays in front of it until its `else` comes
    rw [if_pos hzero]
    exact .skipping (d := 0) rfl rfl hlabels' ⟨hrest, ht.settled, _, b, _, m, hreach,
      Emitter.getElem?_withJump hc, by rw [htaken, decide_eq_true hzero],
      List.mem_singleton.mpr rfl, hrep, fun i hi => absurd hi (Nat.not_lt_zero i)⟩
  · -- the jump is not taken, and execution goes on behind it
    rw [if_neg hzero]
    refine .running (by simp) hlabels' (Running.pass hreach hc ?_ ?_ ?_ ?_)
    · rw [htaken, decide_eq_false hzero]
    · exact hrest.trans hs.symm
    · exact hs.symm ▸ ht.settled
    · exact hs.symm ▸ hrep

/-- A conditional branch is jumped over, or is a branch. It is emitted as a jump over an
unconditional branch, so the jump is taken if the branch is not. -/
theorem Running.brIf {depth : UInt32} {g : Frame} {k : Nat} {s : OperandStack}
    {code code' : List (Instr Nat)} {b : Branch} {pending : List Nat} (h : x.Running e operands)
    (hlabels : List.Forall₂ (Frame.Labelled x.locals.length) frames labels)
    (htarget : frames[depth.toNat]? = some g) (hk : x.locals.length ≤ k)
    (hheight : e.stack.height = k + 1) (hcount : g.entry + g.arity.toNat ≤ k)
    (ht : Emitter.Tested x.locals.length k e.stack s code b)
    (hcarried : Emitter.Carried x.locals.length g.entry g.arity.toNat s s code')
    (hlinked : e.Linked pending) (hequal : e.stack.OnlyEqual (k + 1))
    (hc : (((((e.extend s code).withJump .ifZero b).extend s code').withJump .unconditional
      .always).land [e.fixups.size]).Continues x.code) :
    ∃ r, Reference.State.execute x.locals ⟨operands, labels, .running⟩ (.brIf depth) = some r ∧
      x.Simulates ⟨x.locals.length,
        ((((e.extend s code).withJump .ifZero b).extend s code').withJump .unconditional
          .always).land [e.fixups.size],
        frames.modify depth.toNat (·.addExit (e.fixups.size + 1)), none⟩ r := by
  -- where the finished code still is what was emitted after each of the pieces
  have hjumps := hlinked.jumpOver ht hcarried hequal
  have hbranch := (Emitter.Continues.land hjumps).trans hc
  have hover : ((e.extend s code).withJump .ifZero b).Continues x.code :=
    ((Emitter.Continues.extend _ (Nat.le_refl _) code').trans (.withJump _ _ _)).trans hbranch
  have htest := (Emitter.Continues.withJump (e.extend s code) .ifZero b).trans hover
  obtain ⟨c, rest, m, rfl, hrest, hreach, hrep, htaken⟩ := h.tested hk hheight ht htest
  have hs : s.height = k := ht.height_eq
  unfold Reference.State.execute
  dsimp only
  by_cases hzero : c = 0
  · -- the condition is zero, and execution goes on behind the branch
    rw [if_pos hzero]
    obtain ⟨y, hy, -⟩ := (hjumps.mem_pending e.fixups.size).mp List.mem_cons_self
    have hend := hreach.run (Emitter.runs_land hc (List.mem_singleton.mpr rfl) ⟨y, hy⟩
      (Emitter.getElem?_withJump hover) (by rw [htaken, decide_eq_true hzero])) rfl
    have hd : depth.toNat < frames.length := (List.getElem?_eq_some_iff.mp htarget).1
    refine ⟨_, rfl, .running ?_ (Frame.labelled_of_grows (Frame.grows_modify _ _ _) hlabels)
      ⟨hs.trans hrest.symm, hs.symm ▸ ht.settled.flagsOnTop, m, hend, hs.symm ▸ hrep⟩⟩
    exact List.ne_nil_of_length_pos (by rw [List.length_modify]; omega)
  · -- the condition is not zero, and what follows the jump is a branch
    rw [if_neg hzero]
    have hpass : x.Running ((e.extend s code).withJump .ifZero b) rest :=
      Running.pass hreach hover (by rw [htaken, decide_eq_false hzero]) (hrest.trans hs.symm)
        (hs.symm ▸ ht.settled) (hs.symm ▸ hrep)
    have hsize : ((e.extend s code).withJump .ifZero b).fixups.size = e.fixups.size + 1 := by
      simp [Emitter.withJump]
    obtain ⟨operands', labels', hbr, hsim⟩ := hpass.branch hlabels htarget
      (Nat.le_trans hcount (Nat.le_of_eq hs.symm)) hcarried hbranch
      (((((e.extend s code).withJump .ifZero b).extend s code').withJump .unconditional
        .always).land [e.fixups.size]) rfl none rfl
    rw [hsize] at hsim
    exact ⟨_, hbr, hsim⟩

open Compilation (Effect Sound Steps)

/-- At the end of a construct its results are delivered, and execution falls through, past the label
at which the jumps out of it land. -/
theorem Running.end_ {s : OperandStack} {code : List (Instr Nat)} (h : x.Running e operands)
    (hlabels : List.Forall₂ (Frame.Labelled x.locals.length) (f :: fs) labels)
    (hs : Sound x.locals.length results ⟨x.locals.length, e, f :: fs, none⟩)
    (hheight : e.stack.height = f.entry + f.arity.toNat)
    (hcarried : Emitter.Carried x.locals.length f.entry f.arity.toNat e.stack s code)
    (hc : ((e.extend s code).close f).Continues x.code) :
    ∃ r, Reference.State.execute x.locals ⟨operands, labels, .running⟩ .end_ = some r ∧
      x.Simulates ⟨x.locals.length, (e.extend s code).close f, fs, none⟩ r := by
  have hs' := hs.carry (by simp) hcarried
  have hland : ((e.extend s code).landExits f).Continues x.code :=
    (Emitter.Continues.landExits_close hs'.consistent hs'.locals_le hs'.entry_le).trans hc
  obtain ⟨l, ls, hl, hls, rfl⟩ := List.forall₂_cons_left_iff.mp hlabels
  obtain ⟨m, hreach, hdel, hlength⟩ := h.carried hl (Nat.le_of_eq hheight.symm) hcarried
    ((Emitter.Continues.landExits hs'.linked).trans hland)
  refine ⟨_, rfl, simulates_close hs' hc hls hlength (fun i hi => ?_) (hreach.landExits hland) hdel⟩
  exact hcarried.settled i (by omega)

/-- The first arm of an `if` is complete, and execution jumps over the second one. The interpreter
leaves the construct and skips it. -/
theorem Running.else_ {s : OperandStack} {code : List (Instr Nat)} (h : x.Running e operands)
    (hlabels : List.Forall₂ (Frame.Labelled x.locals.length) (f :: fs) labels)
    (hs : Sound x.locals.length results ⟨x.locals.length, e, f :: fs, none⟩)
    (hheight : e.stack.height = f.entry + f.arity.toNat)
    (hcarried : Emitter.Carried x.locals.length f.entry f.arity.toNat e.stack s code)
    (hc : (((e.extend s code).withJump .unconditional .always).startElse f).Continues x.code) :
    ∃ r, Reference.State.execute x.locals ⟨operands, labels, .running⟩ .else_ = some r ∧
      x.Simulates ⟨x.locals.length,
        ((e.extend s code).withJump .unconditional .always).startElse f,
        { f with kind := .ifElse, exits := f.exits ++ [e.fixups.size], otherwise := none } :: fs,
        none⟩ r := by
  -- a branch out of the construct itself, followed by the `else`, which it skips
  have hs' := (hs.carry (by simp) hcarried).branch (d := 0) (by simp) none
  have hjump := (Emitter.Continues.startElse hs'.linked hs'.consistent hs'.locals_le
    hs'.entry_le).trans hc
  obtain ⟨operands', labels', hbr, hsim⟩ := h.branch hlabels (d := 0) rfl
    (Nat.le_of_eq hheight.symm) hcarried hjump ((e.extend s code).withJump .unconditional .always)
    rfl none rfl
  exact ⟨_, hbr, hsim.skip_else hs' rfl hc⟩

/-- **While the interpreter runs**, the code emitted for an instruction does what the interpreter
does. By cases on the effect; as execution arrives here, the code is live. -/
theorem Simulates.execute {i : Instruction} {t t' : Compilation}
    (h : x.Simulates t ⟨operands, labels, .running⟩) (hs : Sound x.locals.length results t)
    (he : Effect x.locals.length i t t') (hframes : t.frames ≠ [])
    (hc : t'.emitter.Continues x.code) :
    ∃ r, Reference.State.execute x.locals ⟨operands, labels, .running⟩ i = some r ∧
      x.Simulates t' r := by
  cases h with
  | finished => exact absurd rfl hframes
  | @running _ e frames _ _ hopened hlabels hrunning =>
    cases he with
    | @operation _ op _ f fs k s code hop hindex hheight hfloor htr hheight' hceil =>
      have hk : x.locals.length ≤ k := Nat.le_trans hs.locals_le hfloor
      obtain ⟨operands', hexec, hrunning'⟩ :=
        hrunning.operation hop hindex hk hheight htr hheight' hc labels
      exact ⟨_, hexec, .running (by simp) hlabels hrunning'⟩
    | block =>
      exact ⟨_, rfl, .running (by simp) (.cons ⟨rfl, hrunning.height_eq⟩ hlabels) hrunning⟩
    | if_ hheight hfloor htested =>
      exact hrunning.if_ hlabels (Nat.le_trans hs.locals_le hfloor) hheight htested hc
    | else_ hkind hheight hcarried => exact hrunning.else_ hlabels hs hheight hcarried hc
    | end_ harity hheight hcarried => exact hrunning.end_ hlabels hs hheight hcarried hc
    | @br depth _ f g fs s code htarget hfloor hcarried =>
      -- there are enough operands above the innermost construct, and so above the one that is left
      have hle := hs.nested.entry_le_of_mem (List.mem_of_getElem? htarget)
      obtain ⟨operands', labels', hbr, hsim⟩ :=
        hrunning.branch hlabels htarget (by omega) hcarried hc
          ((e.extend s code).withJump .unconditional .always) rfl (some 0) rfl
      exact ⟨_, hbr, hsim⟩
    | @brIf depth _ f g fs k s code code' b htarget hheight hfloor htested hcarried =>
      have hle := hs.nested.entry_le_of_mem (List.mem_of_getElem? htarget)
      have hlocals : x.locals.length ≤ f.entry := hs.locals_le
      exact hrunning.brIf hlabels htarget (by omega) hheight (by omega) htested hcarried
        hs.linked (hheight ▸ hs.consistent.tested) hc
    | unreachable =>
      obtain ⟨-, -, m, hreach, hrep⟩ := hrunning
      obtain ⟨hstore, hret⟩ := Emitter.getElem?_exit hc
      exact ⟨_, rfl, .trapped ⟨_, m, hreach, hrep.ready, hstore, hret, by simp⟩⟩

/-- **One instruction**: whatever the compilation does, the interpreter can follow. It has a next
state in every mode, so it never gets stuck on an accepted body. -/
theorem Simulates.step {i : Instruction} {t t' : Compilation} {r : Reference.State UInt64}
    (h : x.Simulates t r) (hs : Sound x.locals.length results t)
    (he : Effect x.locals.length i t t') (hframes : t.frames ≠ [])
    (hc : t'.emitter.Continues x.code) :
    ∃ r', r.step x.locals i = some r' ∧ x.Simulates t' r' := by
  obtain ⟨operands, labels, mode⟩ := r
  cases mode with
  | running => exact h.execute hs he hframes hc
  | skipping nested toElse => exact ⟨_, rfl, h.skip hs he hframes hc⟩
  | trapped =>
    -- execution has left, whatever is emitted after that
    refine ⟨_, rfl, ?_⟩
    cases h with
    | trapped hleaves => exact .trapped hleaves

/-- **At the end of a body** no construct is open any more, so the interpreter has an outcome, and
execution leaves with the status for it. -/
theorem Simulates.outcome {t : Compilation} {r : Reference.State UInt64} (h : x.Simulates t r)
    (hclosed : t.frames = []) :
    (∃ values, r.outcome? = some (.returned values) ∧ x.Leaves .returned values ∧
        t.emitter.stack.height = x.locals.length + values.length) ∨
      r.outcome? = some .trapped ∧ x.Leaves .unreachable [] := by
  cases h with
  | running hopened => exact absurd hclosed hopened
  | @skipping _ d _ _ _ frames _ _ _ _ _ htarget =>
    -- the construct that is left would still be open
    have hdrop : frames.drop d = [] := by rw [show frames = [] from hclosed, List.drop_nil]
    rw [hdrop] at htarget
    cases htarget
  | finished hheight hleaves =>
    exact .inl ⟨_, rfl, hleaves, by rw [List.length_reverse]; exact hheight⟩
  | trapped hleaves => exact .inr ⟨rfl, hleaves⟩

/-- **A whole body**, by induction over its instructions. The simulation is kept together with
soundness, which is needed in front of every instruction. -/
theorem Simulates.steps {is : List Instruction} {t t' : Compilation} {r : Reference.State UInt64}
    (h : x.Simulates t r) (hs : Sound x.locals.length results t)
    (hsteps : Steps x.locals.length is t t') (hc : t'.emitter.Continues x.code) :
    ∃ r', is.foldlM (Reference.State.step x.locals) r = some r' ∧ x.Simulates t' r' := by
  induction hsteps generalizing r with
  | nil => exact ⟨r, rfl, h⟩
  | cons hframes effect steps ih =>
    -- what is emitted later does not change the code so far
    have hs' := effect.sound hs
    obtain ⟨r₁, hstep, hsim⟩ := h.step hs effect hframes ((steps.continues hs').trans hc)
    obtain ⟨r', hfold, hsim'⟩ := ih hsim hs' hc
    refine ⟨r', ?_, hsim'⟩
    rw [List.foldlM_cons, hstep]
    exact hfold

end Call

end WasmJit
