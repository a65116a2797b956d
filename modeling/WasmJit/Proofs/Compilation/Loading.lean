import WasmJit.Proofs.Compilation.HeightRefinement
import WasmJit.Proofs.Format.Recognition
import WasmJit.Session

/-!
# Loading binaries

A binary that cannot be loaded is refused for a reason a caller can tell apart: its bytes are
malformed or outside the supported surface, or one of its functions is refused. Nothing else goes
wrong, neither when the functions of a module are joined, which was checked when it was read, nor
when their code is put in place, since no function is without code.

* `Module.DecodeError.kind_mem` is about the errors of reading.
* `Function.compileAll_eq_error_iff` says which function an error is about.
* `Session.load_classifies` is the whole picture.
-/

namespace WasmJit

/-! ### The errors of reading -/

/-- The kinds of the errors with which bytes are refused. -/
def Module.DecodeError.refusals : List ErrorKind :=
  [.malformedInput, .unsupportedFeature]

open Module.DecodeError (refusals)

/-- A value type that cannot be read. Where the bytes end there is no kind yet; the module has one
for this (`Module.DecodeError.kind_mem`), as for all the errors without a kind below. -/
theorem ValueType.ReadError.kind_mem {e : ReadError} {kind : ErrorKind}
    (h : e.kind? = some kind) : kind ∈ refusals := by
  cases e with
  | truncated => cases h
  | unsupported | invalid =>
    cases h
    decide

/-- A function type that cannot be read, by itself or because of one of its value types. -/
theorem FunctionType.ReadError.kind_mem {e : ReadError} {kind : ErrorKind}
    (h : e.kind? = some kind) : kind ∈ refusals := by
  cases e with
  | formMissing | paramCount | resultCount => cases h
  | form | multipleResults =>
    cases h
    decide
  | paramTypes cause | resultTypes cause => exact cause.kind_mem h

/-- The code of a function that cannot be read; a group of locals may have a type that is refused.
-/
theorem Code.ReadError.kind_mem {e : ReadError} {kind : ErrorKind}
    (h : e.kind? = some kind) : kind ∈ refusals := by
  cases e with
  | localType cause => exact cause.kind_mem h
  | _ =>
    cases h
    decide

namespace Module

/-- An entry of a section passes on the kind of what it holds. -/
theorem EntryError.kind_mem {e : EntryError} {kind : ErrorKind} (h : e.kind? = some kind) :
    kind ∈ refusals := by
  cases e with
  | type cause => exact cause.kind_mem h
  | typeIndex => cases h
  | code cause => exact cause.kind_mem h

/-- The contents of a section pass on the kind of the entry that cannot be read. -/
theorem ContentError.kind_mem {e : ContentError} {kind : ErrorKind} (h : e.kind? = some kind) :
    kind ∈ refusals := by
  cases e with
  | entry _ _ cause => exact cause.kind_mem h
  | unsupported | invalidId =>
    cases h
    decide
  | _ => cases h

/-- **Bytes that are no module** are malformed or outside the supported surface. An error that has
no kind of its own counts as malformed. -/
theorem DecodeError.kind_mem (e : DecodeError) : e.kind ∈ refusals := by
  cases e with
  | sectionContent id cause =>
    change cause.kind?.getD .malformedInput ∈ refusals
    cases hkind : cause.kind? with
    | none => decide
    | some kind => exact cause.kind_mem hkind
  | _ => exact List.mem_cons_self

end Module

/-! ### The code of functions -/

/-- No function is without code: where the assembler has none, the function is not compiled. -/
theorem Function.machineCode_ne_nil {f : Function} {c : CompiledFunction}
    (h : f.compile = .ok c) : c.machineCode ≠ [] := by
  obtain ⟨t, -, -, hcode⟩ := Function.body_of_compileWith h
  exact hcode

/-- Functions with code can be put in place. The segment refuses empty code, which it could not tell
from the code behind it. -/
theorem CodeSegment.exists_build {codes : List (List UInt8)} (h : ∀ code ∈ codes, code ≠ []) :
    ∃ s, build codes = some s := by
  unfold build
  dsimp only
  split
  · exact ⟨_, rfl⟩
  · split
    · next hzero =>
      -- a function of length zero would be one without code
      simp only [List.contains_iff_mem, List.mem_map, List.length_eq_zero_iff] at hzero
      obtain ⟨code, hmem, hnil⟩ := hzero
      exact absurd hnil (h code hmem)
    · exact ⟨_, rfl⟩

/-! ### Functions one after the other -/

/-- An error of the compilation is an error of the analysis, and those have a kind with which a
function is refused. -/
theorem Function.compile_error {f : Function} {e : CompileError} (h : f.compile = .error e) :
    ∃ kind ∈ CompileError.refusals, e.kind? = some kind := by
  have hmap := f.map_ceiling_compile
  rw [h] at hmap
  obtain ⟨kind, hkind, hmem⟩ := analyse_error hmap.symm
  exact ⟨kind, hmem, hkind⟩

namespace Function

/-- **The first function that is refused** is the one at position `i`, with the error `e`. -/
structure FirstRefused (fs : List Function) (i : Nat) (e : CompileError) : Prop where
  refused : ∃ f, fs[i]? = some f ∧ f.compile = .error e
  accepted : ∀ j < i, ∀ f, fs[j]? = some f → ∃ c, f.compile = .ok c

variable {f : Function} {fs : List Function} {i : Nat} {e : CompileError}

/-- The first function of a list is refused. -/
theorem firstRefused_zero_iff : FirstRefused (f :: fs) 0 e ↔ f.compile = .error e := by
  constructor
  · rintro ⟨⟨_, hget, he⟩, -⟩
    cases hget
    exact he
  · intro he
    exact ⟨⟨f, rfl, he⟩, nofun⟩

/-- A later one is the first to be refused if the first function of the list is accepted. -/
theorem firstRefused_succ_iff :
    FirstRefused (f :: fs) (i + 1) e ↔ (∃ c, f.compile = .ok c) ∧ FirstRefused fs i e := by
  constructor
  · rintro ⟨hrefused, haccepted⟩
    refine ⟨haccepted 0 (Nat.succ_pos i) f rfl, hrefused, fun j hj g hg => ?_⟩
    exact haccepted (j + 1) (Nat.succ_lt_succ hj) g hg
  · rintro ⟨hf, hrefused, haccepted⟩
    refine ⟨hrefused, fun j hj g hg => ?_⟩
    -- every function in front of it is accepted, the first one included
    cases j with
    | zero =>
      cases hg
      exact hf
    | succ j => exact haccepted j (Nat.lt_of_succ_lt_succ hj) g hg

/-- If some function is refused, there is a first one. By induction on the functions, up to the
first that is not accepted. -/
theorem exists_firstRefused_iff :
    (∃ i e, FirstRefused fs i e) ↔ ∃ f ∈ fs, ∃ e, f.compile = .error e := by
  constructor
  · rintro ⟨i, e, ⟨f, hget, he⟩, -⟩
    exact ⟨f, List.mem_of_getElem? hget, e, he⟩
  · rintro ⟨f, hf, e, he⟩
    induction fs with
    | nil => cases hf
    | cons g fs ih =>
      -- the first function is it, or it is accepted and the search goes on
      cases hg : g.compile with
      | error e' => exact ⟨0, e', firstRefused_zero_iff.mpr hg⟩
      | ok c =>
        rcases List.mem_cons.mp hf with rfl | hf
        · cases hg.symm.trans he
        · obtain ⟨i, e, hfirst⟩ := ih hf
          exact ⟨i + 1, e, firstRefused_succ_iff.mpr ⟨⟨c, hg⟩, hfirst⟩⟩

/-- **Compiling functions** fails with the first one that is refused, under its number. By induction
on the functions, the first of which has the number `n`. -/
theorem compileAll_eq_error_iff {n : Nat} (hindex : ∀ i f, fs[i]? = some f → f.index = n + i)
    (err : ModuleError) :
    compileAll fs = .error err ↔ ∃ i e, FirstRefused fs i e ∧ err = .function (n + i) e := by
  induction fs generalizing n with
  | nil => exact ⟨nofun, fun ⟨_, _, ⟨⟨_, hget, _⟩, _⟩, _⟩ => nomatch hget⟩
  | cons f fs ih =>
    have htail : ∀ i g, fs[i]? = some g → g.index = (n + 1) + i := fun i g hg => by
      rw [hindex (i + 1) g hg]
      omega
    rw [compileAll]
    split
    · next cause hcause =>
      rw [hindex 0 f rfl]
      -- this function is the first to be refused, and no other one is
      constructor
      · rintro h
        cases h
        exact ⟨0, cause, firstRefused_zero_iff.mpr hcause, rfl⟩
      · rintro ⟨i, e, hfirst, rfl⟩
        cases i with
        | zero =>
          cases hcause.symm.trans (firstRefused_zero_iff.mp hfirst)
          rfl
        | succ i =>
          obtain ⟨⟨c, hc⟩, -⟩ := firstRefused_succ_iff.mp hfirst
          cases hcause.symm.trans hc
    · next c hc =>
      -- the others are numbered from one higher on
      have hmap : (compileAll fs).map (c :: ·) = .error err ↔ compileAll fs = .error err := by
        cases compileAll fs <;> simp [Except.map]
      rw [hmap, ih htail]
      constructor
      · rintro ⟨i, e, hfirst, rfl⟩
        refine ⟨i + 1, e, firstRefused_succ_iff.mpr ⟨⟨c, hc⟩, hfirst⟩, ?_⟩
        rw [Nat.add_right_comm]
        rfl
      · rintro ⟨i, e, hfirst, rfl⟩
        cases i with
        | zero => cases hc.symm.trans (firstRefused_zero_iff.mp hfirst)
        | succ i =>
          refine ⟨i, e, (firstRefused_succ_iff.mp hfirst).2, ?_⟩
          rw [Nat.add_right_comm]
          rfl

/-- The results of compiling functions are compiled functions. -/
theorem exists_compile_of_mem {cs : List CompiledFunction} (h : compileAll fs = .ok cs)
    {c : CompiledFunction} (hc : c ∈ cs) : ∃ f : Function, f.compile = .ok c := by
  induction fs generalizing cs with
  | nil =>
    cases h
    cases hc
  | cons f fs ih =>
    rw [compileAll] at h
    split at h
    · cases h
    · next c' hc' =>
      obtain ⟨cs, hcs, rfl⟩ := Except.map_eq_ok.mp h
      -- the first function, or one of the others
      rcases List.mem_cons.mp hc with rfl | hc
      · exact ⟨f, hc'⟩
      · exact ih hcs hc

end Function

namespace Module

/-- Functions are numbered by their positions. By induction on the type indices, which are joined
with the bodies one by one. -/
theorem index_of_join {types : List FunctionType} {n : Nat} {ts : List UInt32} {cs : List Code}
    {fs : List Function} (h : join types n ts cs = .ok fs) {i : Nat} {f : Function}
    (hf : fs[i]? = some f) : f.index = n + i := by
  induction ts generalizing n cs fs i with
  | nil =>
    cases h
    cases hf
  | cons t ts ih =>
    cases cs with
    | nil =>
      cases h
      cases hf
    | cons c cs =>
      rw [join] at h
      split at h
      · cases h
      -- the first function has the number `n`, the others are counted from the next one on
      · obtain ⟨gs, hgs, rfl⟩ := Except.map_eq_ok.mp h
        cases i with
        | zero =>
          cases hf
          rfl
        | succ i =>
          rw [ih hgs hf]
          omega

theorem index_of_functions {m : Module} {fs : List Function} (h : m.functions = .ok fs) {i : Nat}
    {f : Function} (hf : fs[i]? = some f) : f.index = i := by
  unfold functions at h
  split at h
  · cases h
  · rw [index_of_join h hf, Nat.zero_add]

/-- **Compiling a module** fails only if compiling its functions does. That their code cannot be put
in place does not happen. -/
theorem compile_eq_error_iff {m : Module} {fs : List Function} (h : m.functions = .ok fs)
    (err : ModuleError) : m.compile = .error err ↔ Function.compileAll fs = .error err := by
  unfold compile
  rw [h]
  change (Function.compileAll fs >>= _) = _ ↔ _
  cases hcs : Function.compileAll fs with
  | error cause =>
    constructor
    · intro h
      cases h
      rfl
    · intro h
      cases h
      rfl
  | ok cs =>
    -- there is a place for every function, since none is without code
    have hcode : ∀ code ∈ cs.map (·.machineCode), code ≠ [] := by
      intro code hmem
      obtain ⟨c, hc, rfl⟩ := List.mem_map.mp hmem
      obtain ⟨f, hf⟩ := Function.exists_compile_of_mem hcs hc
      exact Function.machineCode_ne_nil hf
    obtain ⟨segment, hsegment⟩ := CodeSegment.exists_build hcode
    simp only [bind, Except.bind, hsegment]
    exact ⟨nofun, nofun⟩

end Module

/-! ### Binaries -/

namespace Session

theorem load_of_decode_error {source : List UInt8} {e : Module.DecodeError}
    (h : Module.decode source = .error e) : load source = .error (.decode e) := by
  unfold load
  rw [h]
  rfl

/-- A binary that was read fails to load as its module fails to compile. -/
theorem load_eq_error_iff {source : List UInt8} {m : Module} (h : Module.decode source = .ok m)
    (err : LoadError) :
    load source = .error err ↔ ∃ cause, m.compile = .error cause ∧ err = .compile cause := by
  unfold load
  rw [h]
  -- after the bytes were read, loading fails only if compiling does
  change (m.compile.mapError LoadError.compile >>= _) = _ ↔ _
  cases m.compile with
  | error cause =>
    constructor
    · intro h
      cases h
      exact ⟨cause, rfl, rfl⟩
    · rintro ⟨_, hcause, rfl⟩
      cases hcause
      rfl
  | ok compiled => exact ⟨nofun, nofun⟩

/-- A binary that was read fails to load with the first function that is refused, under its position
in the module. -/
theorem load_eq_error_iff_firstRefused {source : List UInt8} {m : Module} {fs : List Function}
    (h : Module.decode source = .ok m) (hfs : m.functions = .ok fs) (err : LoadError) :
    load source = .error err ↔
      ∃ i e, Function.FirstRefused fs i e ∧ err = .compile (.function i e) := by
  have hindex : ∀ i f, fs[i]? = some f → f.index = 0 + i := fun i f hf =>
    (Module.index_of_functions hfs hf).trans (Nat.zero_add i).symm
  -- from the bytes to the module, and from there to the functions
  simp only [load_eq_error_iff h, Module.compile_eq_error_iff hfs,
    Function.compileAll_eq_error_iff hindex, Nat.zero_add]
  constructor
  · rintro ⟨_, ⟨i, e, hfirst, rfl⟩, rfl⟩
    exact ⟨i, e, hfirst, rfl⟩
  · rintro ⟨i, e, hfirst, rfl⟩
    exact ⟨_, ⟨i, e, hfirst, rfl⟩, rfl⟩

/-- **Loading classifies every failure.** Bytes that are no module are refused as malformed or
unsupported. A module that was read is refused if and only if one of its functions is on its own,
and then with the error of the first such function, under its number and never an internal one. -/
theorem load_classifies (source : List UInt8) :
    match Module.decode source with
    | .error e => load source = .error (.decode e) ∧ e.kind ∈ Module.DecodeError.refusals
    | .ok m => ∃ fs, m.functions = .ok fs ∧
        ((∃ err, load source = .error err) ↔ ∃ f ∈ fs, ∃ e, f.compile = .error e) ∧
        ∀ err, load source = .error err →
          ∃ i e, Function.FirstRefused fs i e ∧ err = .compile (.function i e) ∧
            ∃ kind ∈ CompileError.refusals, err.kind? = some kind := by
  cases h : Module.decode source with
  | error e => exact ⟨load_of_decode_error h, e.kind_mem⟩
  | ok m =>
    -- that the functions can be joined was checked when the module was read
    obtain ⟨_, _, _, hjoin⟩ := (Module.decode_eq_ok_iff source m).mp h
    obtain ⟨fs, hfs⟩ := Module.exists_functions_iff.mpr hjoin
    have herror := load_eq_error_iff_firstRefused h hfs
    refine ⟨fs, hfs, ?_, fun err herr => ?_⟩
    · -- some function is refused exactly if there is a first one
      rw [← Function.exists_firstRefused_iff]
      constructor
      · rintro ⟨err, herr⟩
        obtain ⟨i, e, hfirst, -⟩ := (herror err).mp herr
        exact ⟨i, e, hfirst⟩
      · rintro ⟨i, e, hfirst⟩
        exact ⟨_, (herror _).mpr ⟨i, e, hfirst, rfl⟩⟩
    · obtain ⟨i, e, hfirst, rfl⟩ := (herror err).mp herr
      obtain ⟨f, -, he⟩ := hfirst.refused
      exact ⟨i, e, hfirst, rfl, Function.compile_error he⟩

end Session

end WasmJit
