import Mathlib.Order.Bounds.Defs
import WasmJit.Proofs.Correctness.Sessions

/-!
# Where functions are placed

Functions are placed in a segment one after the other, each at the least aligned offset behind the
one before it; what is left free between them is zero. However many there are, each of them finds
its own machine code again (`CodeSegment.Holds`). So a function is called in a module of many as in
a module of its own, also if it is the bytes of the segment that are executed.

* `CodeSegment.Holds.cons` places one function in front of others, and `CodeSegment.holds_place`
  places all of them.
* `Function.compile_congr`: a function is compiled to the same code under any number.
* `CompiledModule.calls_as_if_alone` is the whole picture.
-/

namespace WasmJit

namespace CodeSegment

/-! ### Alignment -/

/-- Rounding up to the next multiple of 16, in closed form. -/
theorem toNat_align (used : Nat) : (align used).toNat = (used + 15) / 16 * 16 := by
  unfold align alignment
  omega

/-- Functions start at the least aligned offset that is free. -/
theorem isLeast_align (used : Nat) :
    IsLeast {offset | alignment ∣ offset ∧ used ≤ offset} (align used).toNat := by
  rw [toNat_align]
  constructor
  · show 16 ∣ _ ∧ used ≤ _
    omega
  · rintro offset ⟨hdvd, hle⟩
    have hdvd : 16 ∣ offset := hdvd
    omega

/-- Less than the alignment is left free. -/
theorem align_lt (used : Nat) : (align used).toNat < used + alignment := by
  rw [toNat_align]
  show _ < used + 16
  omega

/-! ### Segments -/

/-- The end of the last of `spans`, or `used` if there is none. -/
def finish (used : Nat) (spans : List (Nat × Nat)) : Nat :=
  spans.foldl (fun _ span => span.1 + span.2) used

/-- **A segment holds functions**, behind the bytes `before`. -/
structure Holds (s : CodeSegment) (before : List UInt8) (codes : List (List UInt8)) : Prop where
  /-- The bytes in front are still there. -/
  kept : before <+: s.bytes
  /-- Every function has a span of the size of its code. -/
  sizes : s.spans.map (·.2) = codes.map List.length
  /-- It starts at the least aligned offset behind the function in front of it. -/
  starts : ∀ i start size, s.spans[i]? = some (start, size) →
    IsLeast {offset | alignment ∣ offset ∧ finish before.length (s.spans.take i) ≤ offset} start
  /-- Less than the alignment is left free in front of it, and filled with zeros. -/
  gaps : ∀ i start size, s.spans[i]? = some (start, size) →
    start < finish before.length (s.spans.take i) + alignment ∧
      ∀ offset, finish before.length (s.spans.take i) ≤ offset → offset < start →
        s.bytes[offset]? = some 0
  /-- No function reaches into a later one, or into what is in front. -/
  apart : s.spans.Pairwise fun a b => a.1 + a.2 ≤ b.1
  behind : ∀ span ∈ s.spans, before.length ≤ span.1
  /-- The segment ends with the last function. -/
  ends : s.bytes.length = finish before.length s.spans
  /-- Every function finds its own code. -/
  code : ∀ i code, codes[i]? = some code → s.codeOf i = code

variable {bytes before code : List UInt8} {codes : List (List UInt8)} {spans : List (Nat × Nat)}
  {start : Nat}

/-- The bytes up to the end of a function. -/
theorem length_append (h : before.length ≤ start) (code : List UInt8) :
    (append before start code).length = start + code.length := by
  rw [append, List.length_append, List.length_append, List.length_replicate]
  omega

/-- What was left free in front of a function is zero, also when more is placed behind it. -/
theorem getElem?_append_gap (h : append before start code <+: bytes) {offset : Nat}
    (hle : before.length ≤ offset) (hlt : offset < start) : bytes[offset]? = some 0 := by
  obtain ⟨rest, rfl⟩ := h
  rw [append, List.append_assoc, List.append_assoc, List.getElem?_append_right hle,
    List.getElem?_append_left (by rw [List.length_replicate]; omega),
    List.getElem?_replicate_of_lt (by omega)]

/-- The code of a function stands where it starts, also when more is placed behind it. -/
theorem take_drop_append (h : append before start code <+: bytes) (hle : before.length ≤ start) :
    (bytes.drop start).take code.length = code := by
  obtain ⟨rest, rfl⟩ := h
  have hlength : (before ++ List.replicate (start - before.length) 0).length = start := by
    rw [List.length_append, List.length_replicate]
    omega
  rw [append, List.append_assoc, List.drop_left' hlength, List.take_left]

/-- **One function in front of others.** The others are placed behind the bytes that end with this
one, so each part of `Holds` is that of the others for later positions, and that of the first
placement for the first. -/
theorem Holds.cons
    (h : Holds ⟨bytes, spans⟩ (append before (align before.length).toNat code) codes) :
    Holds ⟨bytes, ((align before.length).toNat, code.length) :: spans⟩ before (code :: codes) := by
  have hle : before.length ≤ (align before.length).toNat := (isLeast_align before.length).1.2
  -- what is in front of the others ends with the code of this function, so all that is known of
  -- them is about offsets from there on
  have hlength := length_append hle code
  have hstarts := h.starts
  have hgaps := h.gaps
  have hbehind := h.behind
  have hends := h.ends
  rw [hlength] at hstarts hgaps hbehind hends
  refine ⟨?_, ?_, ?_, ?_, ?_, ?_, hends, ?_⟩
  · refine List.IsPrefix.trans ?_ h.kept
    rw [append, List.append_assoc]
    exact List.prefix_append _ _
  · -- the first span is that of the new function, the others follow
    exact congrArg (code.length :: ·) h.sizes
  · intro i start size hspan
    cases i with
    | zero =>
      cases hspan
      exact isLeast_align before.length
    | succ i => exact hstarts i start size hspan
  · intro i start size hspan
    cases i with
    | zero =>
      cases hspan
      exact ⟨align_lt before.length, fun offset => getElem?_append_gap h.kept⟩
    | succ i => exact hgaps i start size hspan
  · -- the others start behind this one
    exact List.pairwise_cons.mpr ⟨hbehind, h.apart⟩
  · intro span hspan
    rcases List.mem_cons.mp hspan with rfl | hspan
    · exact hle
    · exact Nat.le_trans (Nat.le_add_right_of_le hle) (hbehind span hspan)
  · intro i code' hcode
    cases i with
    | zero =>
      cases hcode
      exact take_drop_append h.kept hle
    | succ i => exact h.code i code' hcode

/-! ### Placing functions -/

/-- The spans of functions behind `used` bytes. -/
def spansAfter (used : Nat) (codes : List (List UInt8)) : List (Nat × Nat) :=
  (offsets used (codes.map List.length)).zip (codes.map List.length)

/-- The bytes `before`, with functions placed behind them. -/
def place (before : List UInt8) (codes : List (List UInt8)) : List UInt8 :=
  ((offsets before.length (codes.map List.length)).zip codes).foldl
    (fun bytes (start, code) => append bytes start code) before

/-- The first function is placed first, and the others behind it. -/
theorem place_cons (before code : List UInt8) (codes : List (List UInt8)) :
    place before (code :: codes) =
      place (append before (align before.length).toNat code) codes := by
  rw [place, place, length_append (isLeast_align before.length).1.2]
  rfl

/-- **Functions are held where they are placed.** By induction on the functions, for any bytes in
front. -/
theorem holds_place (before : List UInt8) (codes : List (List UInt8)) :
    Holds ⟨place before codes, spansAfter before.length codes⟩ before codes := by
  induction codes generalizing before with
  | nil => exact ⟨List.prefix_rfl, rfl, nofun, nofun, .nil, nofun, rfl, nofun⟩
  | cons code codes ih =>
    -- the first function goes to the bytes in front of the others
    have htail := ih (append before (align before.length).toNat code)
    rw [length_append (isLeast_align before.length).1.2] at htail
    rw [place_cons]
    exact htail.cons

/-- There is something to place if there are functions, none of which is empty. -/
theorem total_ne_zero {sizes : List Nat} (hne : sizes ≠ []) (h : ∀ size ∈ sizes, size ≠ 0) :
    total sizes ≠ 0 := by
  have hoffsets : offsets 0 sizes ≠ [] := by
    cases sizes with
    | nil => exact absurd rfl hne
    | cons size sizes => exact List.cons_ne_nil _ _
  -- the segment reaches to the end of the last function, which is not empty
  have hlast := h _ (List.getLast_mem hne)
  rw [total, List.getLast?_eq_some_getLast hoffsets, List.getLast?_eq_some_getLast hne]
  dsimp only
  omega

/-- Functions with code are placed from the start on. With these, `build` fails in none of its
checks. -/
theorem build_eq (h : ∀ code ∈ codes, code ≠ []) :
    build codes = some ⟨place [] codes, spansAfter 0 codes⟩ := by
  cases codes with
  | nil => rfl
  | cons code codes =>
    -- neither of the two checks of `build` applies
    have hsizes : ∀ size ∈ (code :: codes).map List.length, size ≠ 0 := by
      intro size hsize
      obtain ⟨code', hcode', rfl⟩ := List.mem_map.mp hsize
      exact mt List.length_eq_zero_iff.mp (h code' hcode')
    have htotal : total ((code :: codes).map List.length) ≠ 0 :=
      total_ne_zero (List.cons_ne_nil _ _) hsizes
    have hzero : ¬ ((code :: codes).map List.length).contains 0 := by
      intro hmem
      exact hsizes 0 (List.contains_iff_mem.mp hmem) rfl
    unfold build
    dsimp only
    rw [if_neg htotal, if_neg hzero]
    rfl

/-- **The layout of a segment**: functions with code are placed, and the segment holds them. -/
theorem exists_build_holds (h : ∀ code ∈ codes, code ≠ []) :
    ∃ s, build codes = some s ∧ s.Holds [] codes :=
  ⟨_, build_eq h, holds_place [] codes⟩

example : (build [[1, 2, 3], List.replicate 16 0, [4]]).map (·.spans) =
    some [(0, 3), (16, 16), (32, 1)] := by decide

end CodeSegment

/-! ### The same function in another module -/

/-- The number of a function makes no difference to its code. -/
theorem Function.compile_congr {f g : Function} (htype : g.type = f.type)
    (hcode : g.code = f.code) :
    g.compile = f.compile.map fun c => { c with source := g } := by
  obtain ⟨i, type, code⟩ := f
  obtain ⟨j, _, _⟩ := g
  cases htype
  cases hcode
  -- the number is not looked at before the code is finished
  have hbody : Compilation.body ⟨j, type, code⟩ = Compilation.body ⟨i, type, code⟩ := rfl
  unfold Function.compile Function.compileWith
  rw [hbody]
  cases Compilation.body ⟨i, type, code⟩ with
  | error e => rfl
  | ok t =>
    simp only [bind, Except.bind]
    cases Emitter.finishWith Program.assembleAfter t.emitter <;> rfl

namespace CompiledFunction

/-- What a call answers when the machine code of the function has been executed. -/
def answer (f : CompiledFunction) : Option Machine → Except CallError (List UInt64)
  | none => .error .stuck
  | some m =>
    if m.status = Status.returned.code then .ok (f.results m.slots)
    else .error (.fault ⟨m.status⟩)

/-- Executing a function, with what happens in the machine taken apart from what is made of it. -/
theorem execute_eq_answer (f : CompiledFunction) (args : List UInt64) :
    CompiledModule.execute f args = f.answer (f.program.run (f.entry args)) := by
  unfold CompiledModule.execute answer
  cases f.program.run (f.entry args) <;> rfl

variable {c : CompiledFunction} {g : Function}

/-- The number of locals depends on the type and the code of a function only. -/
theorem numLocals_withSource (htype : g.type = c.source.type) (hcode : g.code = c.source.code) :
    g.numLocals = c.source.numLocals := by
  rw [Function.numLocals, htype, hcode, Function.numLocals]

/-- So a call starts on the same machine under any number. -/
theorem entry_withSource (htype : g.type = c.source.type) (hcode : g.code = c.source.code)
    (args : List UInt64) :
    ({ c with source := g } : CompiledFunction).entry args = c.entry args := by
  have hslots : ({ c with source := g } : CompiledFunction).numSlots = c.numSlots := by
    show (if c.ceiling ≤ g.numLocals then g.numLocals + 1 else c.ceiling) = c.numSlots
    rw [numLocals_withSource htype hcode]
    rfl
  rw [entry, hslots, entry]

theorem answer_withSource (htype : g.type = c.source.type) (hcode : g.code = c.source.code)
    (m : Option Machine) :
    ({ c with source := g } : CompiledFunction).answer m = c.answer m := by
  cases m with
  | none => rfl
  | some m =>
    simp only [answer, results, numLocals, numLocals_withSource htype hcode, htype]

end CompiledFunction

/-! ### Calls that execute the bytes of the segment -/

/-- **A processor**: what machine code makes of a machine, if it comes to an end. -/
abbrev Processor := List UInt8 → Machine → Option Machine

namespace CompiledModule

/-- **Calls a function** on a processor, which executes the bytes of the segment that belong to it.
-/
def callOn (processor : Processor) (m : CompiledModule) (index : Nat) (args : List UInt64) :
    Except CallError (List UInt64) :=
  match m.functions[index]? with
  | none => .error (.functionIndex index m.numFunctions)
  | some f =>
    let expected := f.source.type.params.length
    if args.length = expected then
      f.answer (processor (m.segment.codeOf index) (f.entry args))
    else .error (.arguments expected args.length)

variable {m : CompiledModule}

/-- Every function of a module finds its own machine code in a segment that holds it. -/
theorem codeOf_eq (h : m.segment.Holds [] (m.functions.map (·.machineCode))) {index : Nat}
    {f : CompiledFunction} (hf : m.functions[index]? = some f) :
    m.segment.codeOf index = f.machineCode := by
  refine h.code index f.machineCode ?_
  rw [List.getElem?_map, hf]
  rfl

/-- **A call executes the program** of a function if the processor does so with the machine code of
that program: the bytes that the segment has for it are its machine code, and no others. -/
theorem callOn_eq_call (h : m.segment.Holds [] (m.functions.map (·.machineCode)))
    {processor : Processor}
    (hprocessor : ∀ f ∈ m.functions, ∀ machine,
      processor f.machineCode machine = f.program.run machine)
    (index : Nat) (args : List UInt64) : m.callOn processor index args = m.call index args := by
  unfold callOn call
  cases hf : m.functions[index]? with
  | none => rfl
  | some f =>
    dsimp only
    rw [codeOf_eq h hf, hprocessor f (List.mem_of_getElem? hf), CompiledFunction.execute_eq_answer]

/-- Functions that differ in their numbers only are called in the same way. -/
theorem call_withSource {m' : CompiledModule} {c : CompiledFunction} {g : Function}
    {index index' : Nat} (hc : m.functions[index]? = some c)
    (hc' : m'.functions[index']? = some { c with source := g }) (htype : g.type = c.source.type)
    (hcode : g.code = c.source.code) (args : List UInt64) :
    m.call index args = m'.call index' args := by
  simp only [call, hc, hc', htype, CompiledFunction.execute_eq_answer,
    CompiledFunction.entry_withSource htype hcode, CompiledFunction.answer_withSource htype hcode]

/-- The same on a processor, if they have the same bytes in their segments. -/
theorem callOn_withSource {m' : CompiledModule} {c : CompiledFunction} {g : Function}
    {index index' : Nat} (hc : m.functions[index]? = some c)
    (hc' : m'.functions[index']? = some { c with source := g }) (htype : g.type = c.source.type)
    (hcode : g.code = c.source.code) (hsame : m.segment.codeOf index = m'.segment.codeOf index')
    (processor : Processor) (args : List UInt64) :
    m.callOn processor index args = m'.callOn processor index' args := by
  simp only [callOn, hc, hc', htype, hsame, CompiledFunction.entry_withSource htype hcode,
    CompiledFunction.answer_withSource htype hcode]

end CompiledModule

/-! ### Modules -/

namespace Module

variable {m : Module} {fs : List Function} {c : CompiledModule}

/-- What it takes to compile a module. -/
theorem compile_eq_ok_iff :
    m.compile = .ok c ↔ ∃ fs, m.functions = .ok fs ∧ Function.compileAll fs = .ok c.functions ∧
      CodeSegment.build (c.functions.map (·.machineCode)) = some c.segment := by
  constructor
  · intro h
    -- the three stages, each of which has to succeed
    obtain ⟨fs, hfs, h⟩ := Except.bind_eq_ok.mp h
    obtain ⟨cs, hcs, h⟩ := Except.bind_eq_ok.mp h
    split at h
    · next segment hsegment =>
      cases h
      exact ⟨fs, Except.mapError_eq_ok.mp hfs, hcs, hsegment⟩
    · cases h
  · rintro ⟨fs, hfs, hcs, hsegment⟩
    unfold compile
    simp only [hfs, Except.mapError, bind, Except.bind, hcs, hsegment]
    rfl

/-- A module is compiled if its functions are, and its segment holds them. -/
theorem compile_of_compileAll {cs : List CompiledFunction} (hfs : m.functions = .ok fs)
    (hcs : Function.compileAll fs = .ok cs) :
    ∃ s, m.compile = .ok ⟨cs, s⟩ ∧ s.Holds [] (cs.map (·.machineCode)) := by
  have hcode : ∀ code ∈ cs.map (·.machineCode), code ≠ [] := by
    intro code hmem
    obtain ⟨c, hc, rfl⟩ := List.mem_map.mp hmem
    obtain ⟨f, hf⟩ := Function.exists_compile_of_mem hcs hc
    exact Function.machineCode_ne_nil hf
  obtain ⟨s, hs, hholds⟩ := CodeSegment.exists_build_holds hcode
  exact ⟨s, compile_eq_ok_iff.mpr ⟨fs, hfs, hcs, hs⟩, hholds⟩

/-- The functions of a compiled module are compiled one by one, and its segment holds their machine
code. -/
theorem exists_of_compile (h : m.compile = .ok c) :
    ∃ fs, m.functions = .ok fs ∧ List.Forall₂ (fun f c => f.compile = .ok c) fs c.functions ∧
      c.segment.Holds [] (c.functions.map (·.machineCode)) := by
  obtain ⟨functions, segment⟩ := c
  obtain ⟨fs, hfs, hcs, -⟩ := compile_eq_ok_iff.mp h
  obtain ⟨s, hs, hholds⟩ := compile_of_compileAll hfs hcs
  -- this is the same segment
  cases h.symm.trans hs
  exact ⟨fs, hfs, Function.forall₂_of_compileAll hcs, hholds⟩

/-- A module of a single function is compiled if the function is. -/
theorem compile_single {g : Function} {c : CompiledFunction} (hm : m.functions = .ok [g])
    (hg : g.compile = .ok c) :
    ∃ s, m.compile = .ok ⟨[c], s⟩ ∧ s.Holds [] [c.machineCode] := by
  refine compile_of_compileAll hm ?_
  rw [Function.compileAll, hg]
  rfl

end Module

namespace CompiledModule

/-- **Functions are called as if they were alone.** Machine code is laid out in a segment as
`CodeSegment.Holds` says, and this is so for the functions of every compiled module. So a call on a
processor that executes the machine code of programs as these programs is a call. Every function of
the module is also compiled in any module in which it is the only one, and a call of it has the same
outcome there, on any processor. -/
theorem calls_as_if_alone :
    (∀ codes : List (List UInt8), (∀ code ∈ codes, code ≠ []) →
      ∃ s, CodeSegment.build codes = some s ∧ s.Holds [] codes) ∧
    ∀ (m : Module) (c : CompiledModule), m.compile = .ok c →
      ∃ fs, m.functions = .ok fs ∧ fs.length = c.numFunctions ∧
        c.segment.Holds [] (c.functions.map (·.machineCode)) ∧
        (∀ processor : Processor,
          (∀ f ∈ c.functions, ∀ machine,
            processor f.machineCode machine = f.program.run machine) →
          ∀ i args, c.callOn processor i args = c.call i args) ∧
        ∀ i f, fs[i]? = some f → ∀ (m' : Module) (g : Function), m'.functions = .ok [g] →
          g.type = f.type → g.code = f.code →
          ∃ c', m'.compile = .ok c' ∧ ∀ args, c.call i args = c'.call 0 args ∧
            ∀ processor, c.callOn processor i args = c'.callOn processor 0 args := by
  -- the layout is known; it remains to compare a module with one of a single function
  refine ⟨fun codes => CodeSegment.exists_build_holds, fun m c h => ?_⟩
  obtain ⟨fs, hfs, hcompiled, hholds⟩ := Module.exists_of_compile h
  refine ⟨fs, hfs, hcompiled.length_eq, hholds, fun _ => callOn_eq_call hholds, ?_⟩
  intro i f hf m' g hm' htype hcode
  obtain ⟨hi, rfl⟩ := List.getElem?_eq_some_iff.mp hf
  have hi' : i < c.functions.length := hcompiled.length_eq ▸ hi
  have hcompile : (fs[i]).compile = .ok c.functions[i] := hcompiled.get hi hi'
  obtain ⟨t, hfrom⟩ := Function.exists_from hcompile
  -- alone, the function is compiled to the same code under another number
  have hg : g.compile = .ok { c.functions[i] with source := g } := by
    rw [Function.compile_congr htype hcode, hcompile]
    rfl
  rw [← hfrom.source] at htype hcode
  obtain ⟨s, hm', hholds'⟩ := Module.compile_single hm' hg
  have hc := List.getElem?_eq_getElem hi'
  refine ⟨_, hm', fun args => ⟨call_withSource hc rfl htype hcode args, fun processor => ?_⟩⟩
  have hsame : c.segment.codeOf i = s.codeOf 0 :=
    (codeOf_eq hholds hc).trans (hholds'.code 0 _ rfl).symm
  exact callOn_withSource hc rfl htype hcode hsame processor args

/-- Two functions in one module, the second of which is also called alone. -/
theorem calls_as_if_alone_leaving :
    (∃ s, CodeSegment.build [[1, 2, 3], [4]] = some s ∧ s.Holds [] [[1, 2, 3], [4]]) ∧
      ∃ c c', Module.compile ⟨[.binary], [0, 0],
          [⟨0, [0x20, 0x00, 0x20, 0x01, 0x6a, 0x0b]⟩, Function.leaving.code]⟩ = .ok c ∧
        Module.compile ⟨[.binary], [0], [Function.leaving.code]⟩ = .ok c' ∧
        c.call 1 [3, 4] = c'.call 0 [3, 4] ∧
        ∃ processor : Processor, c'.callOn processor 0 [3, 4] = c'.call 0 [3, 4] ∧
          c.callOn processor 1 [3, 4] = c'.callOn processor 0 [3, 4] := by
  obtain ⟨a, ha⟩ := Function.exists_compile
    (f := ⟨0, .binary, ⟨0, [0x20, 0x00, 0x20, 0x01, 0x6a, 0x0b]⟩⟩) (n := 4) (by decide)
  obtain ⟨b, hb⟩ := Function.exists_compile
    (f := ⟨1, .binary, Function.leaving.code⟩) (n := 6) (by decide)
  obtain ⟨d, hd⟩ := Function.exists_compile_leaving
  have hall : Function.compileAll [⟨0, .binary, ⟨0, [0x20, 0x00, 0x20, 0x01, 0x6a, 0x0b]⟩⟩,
      ⟨1, .binary, Function.leaving.code⟩] = .ok [a, b] := by
    rw [Function.compileAll, ha, Function.compileAll, hb]
    rfl
  obtain ⟨s, hs, -⟩ := Module.compile_of_compileAll (m := ⟨[.binary], [0, 0],
    [⟨0, [0x20, 0x00, 0x20, 0x01, 0x6a, 0x0b]⟩, Function.leaving.code]⟩) rfl hall
  obtain ⟨hlayout, hmodules⟩ := calls_as_if_alone
  obtain ⟨fs, hfs, -, -, -, halone⟩ := hmodules _ _ hs
  cases hfs
  obtain ⟨c', hc', hcalls⟩ := halone 1 _ rfl ⟨[.binary], [0], [Function.leaving.code]⟩
    Function.leaving rfl rfl rfl
  obtain ⟨s', hs', -⟩ := Module.compile_single
    (m := ⟨[.binary], [0], [Function.leaving.code]⟩) rfl hd
  cases hc'.symm.trans hs'
  obtain ⟨_, -, -, -, hprocessor, -⟩ := hmodules _ _ hs'
  refine ⟨hlayout [[1, 2, 3], [4]] (by decide), _, _, hs, hs', (hcalls [3, 4]).1,
    fun _ => d.program.run, hprocessor _ ?_ 0 [3, 4], (hcalls [3, 4]).2 _⟩
  intro f hf machine
  cases List.mem_singleton.mp hf
  rfl

end CompiledModule

end WasmJit
