import WasmJit.Proofs.Compilation.Loading
import WasmJit.Proofs.Correctness.Calls

/-!
# Sessions

Callers make requests to a loaded binary, one after the other, and may close it at some point. Until
then every request is answered from the functions of the module alone: which ones there are, which
signatures they have, and what the interpreter makes of them. Nothing that was asked before matters,
not even a call that failed. From then on the session answers that it is closed.

* `Session.next` and `Session.answer` are one request; `Session.openAnswer` and
  `Session.closedAnswer` are the answers that are expected before and after closing.
* `Session.Offers` holds as long as the session is open (`Session.Offers.answer_eq`).
* `Session.answers_any_request` is about requests after any others.
-/

namespace WasmJit

namespace Session

/-! ### Requests and answers -/

inductive Request where
  | execute (index : Nat) (a b : UInt64)
  | numFunctions
  | functionType (index : Nat)
  | close
deriving DecidableEq, Repr

/-- What a caller is told. Failures are told apart by their kinds, and one without a kind is a fault
of the library. -/
inductive Answer where
  | executed (result : Except (Option ErrorKind) UInt64)
  | count (functions : Nat)
  | signature (text : Option String)
  | closed
deriving DecidableEq, Repr

/-- **The answer to a request.** -/
def answer (s : Session) : Request → Answer
  | .execute index a b => .executed ((s.execute index a b).mapError ExecuteError.kind?)
  | .numFunctions => .count s.numFunctions
  | .functionType index => .signature ((s.functionType? index).map FunctionType.text)
  | .close => .closed

/-- **The session after a request.** -/
def next (s : Session) : Request → Session
  | .close => s.close
  | _ => s

/-- The session after requests, one after the other. -/
def after (s : Session) (requests : List Request) : Session :=
  requests.foldl next s

/-! ### Expected answers -/

/-- **What it means to execute** the function numbered `index`: its number is checked before its
signature, and its signature before it is interpreted. -/
def meaning (fs : List Function) (index : Nat) (a b : UInt64) : Except (Option ErrorKind) UInt64 :=
  match fs[index]? with
  | none => .error (some .invalidFunctionIndex)
  | some f =>
    if f.type ≠ ⟨[.i32, .i32], [.i32]⟩ then .error (some .signatureMismatch)
    else
      match f.interpret [a, b] with
      | some (.returned [v]) => .ok v
      | some .trapped => .error (some .unreachable)
      -- there is no outcome, or another number of results
      | _ => .error none

/-- The answer of an open session with the functions `fs`. -/
def openAnswer (fs : List Function) : Request → Answer
  | .execute index a b => .executed (meaning fs index a b)
  | .numFunctions => .count fs.length
  | .functionType index => .signature ((fs[index]?).map (·.type.text))
  | .close => .closed

/-- The answer of a closed session. -/
def closedAnswer : Request → Answer
  | .execute .. => .executed (.error (some .moduleClosed))
  | .numFunctions => .count 0
  | .functionType _ => .signature none
  | .close => .closed

/-! ### Open sessions -/

/-- **The session is open** and has the functions `fs`. -/
structure Offers (s : Session) (fs : List Function) : Prop where
  isOpen : s.isClosed = false
  compiled : List.Forall₂ (fun f c => f.compile = .ok c) fs s.compiled.functions

end Session

namespace Function

/-- Functions are compiled one by one, and the results are in the same order. -/
theorem forall₂_of_compileAll {fs : List Function} {cs : List CompiledFunction}
    (h : compileAll fs = .ok cs) : List.Forall₂ (fun f c => f.compile = .ok c) fs cs := by
  induction fs generalizing cs with
  | nil =>
    cases h
    exact .nil
  | cons f fs ih =>
    rw [compileAll] at h
    split at h
    · cases h
    · next c hc =>
      obtain ⟨cs, hcs, rfl⟩ := Except.map_eq_ok.mp h
      exact .cons hc (ih hcs)

end Function

namespace Session

variable {s : Session} {fs : List Function}

/-- A binary that was loaded offers the functions of its module. Nothing of the bytes is looked at
again after that. -/
theorem exists_offers_of_load {source : List UInt8} (h : load source = .ok s) :
    ∃ m fs, Module.decode source = .ok m ∧ m.functions = .ok fs ∧ s.Offers fs := by
  obtain ⟨m, hm, h⟩ := Except.bind_eq_ok.mp h
  obtain ⟨compiled, hcompiled, h⟩ := Except.bind_eq_ok.mp h
  -- loading reads the bytes, joins the functions, compiles them and puts their code in place
  obtain ⟨fs, hfs, hcompiled⟩ := Except.bind_eq_ok.mp (Except.mapError_eq_ok.mp hcompiled)
  obtain ⟨cs, hcs, hcompiled⟩ := Except.bind_eq_ok.mp hcompiled
  refine ⟨m, fs, Except.mapError_eq_ok.mp hm, Except.mapError_eq_ok.mp hfs, ?_⟩
  split at hcompiled
  · cases hcompiled
    cases h
    exact ⟨rfl, Function.forall₂_of_compileAll hcs⟩
  · cases hcompiled

/-- A module whose functions are all accepted is loaded: what would keep it from being loaded is a
function that is refused. -/
theorem exists_load {source : List UInt8} {m : Module} (hm : Module.decode source = .ok m)
    (hfs : m.functions = .ok fs) (hcompile : ∀ f ∈ fs, ∃ c, f.compile = .ok c) :
    ∃ s, load source = .ok s := by
  cases hload : load source with
  | ok s => exact ⟨s, rfl⟩
  | error err =>
    obtain ⟨i, e, hfirst, -⟩ := (load_eq_error_iff_firstRefused hm hfs err).mp hload
    obtain ⟨f, hf, hrefused⟩ := hfirst.refused
    obtain ⟨c, hc⟩ := hcompile f (List.mem_of_getElem? hf)
    cases hrefused.symm.trans hc

namespace Offers

theorem numFunctions_eq (h : s.Offers fs) : s.compiled.numFunctions = fs.length :=
  h.compiled.length_eq.symm

/-- Every function of an open session was compiled. -/
theorem exists_from (h : s.Offers fs) {index : Nat} {f : Function} (hf : fs[index]? = some f) :
    ∃ c t, s.compiled.functions[index]? = some c ∧ c.From f t := by
  obtain ⟨hi, rfl⟩ := List.getElem?_eq_some_iff.mp hf
  have hi' : index < s.compiled.functions.length := h.compiled.length_eq ▸ hi
  obtain ⟨t, hfrom⟩ := Function.exists_from (h.compiled.get hi hi')
  exact ⟨_, t, List.getElem?_eq_getElem hi', hfrom⟩

/-- Signatures are those of the functions of the module. -/
theorem functionType?_eq (h : s.Offers fs) (index : Nat) :
    s.compiled.functionType? index = (fs[index]?).map (·.type) := by
  unfold CompiledModule.functionType?
  -- there are as many compiled functions as functions
  cases hf : fs[index]? with
  | none =>
    have hle : fs.length ≤ index := List.getElem?_eq_none_iff.mp hf
    rw [List.getElem?_eq_none (h.compiled.length_eq ▸ hle)]
    rfl
  | some f =>
    obtain ⟨c, t, hc, hfrom⟩ := h.exists_from hf
    rw [hc, Option.map_some, Option.map_some, hfrom.source]

/-- A function with the required signature returns one value, since compiled functions return as
many as their type says. -/
theorem length_results (h : s.Offers fs) {index : Nat} {f : Function} (hf : fs[index]? = some f)
    (htype : f.type = .binary) {args results : List UInt64}
    (hcall : s.compiled.call index args = .ok results) : results.length = 1 := by
  obtain ⟨c, t, hc, hfrom⟩ := h.exists_from hf
  rw [hfrom.length_of_call hc hcall, htype]
  rfl

/-- **Executing a function** of an open session does what it means, and the failures have kinds. By
cases along the checks: the number of the function, its signature, and then the outcome of the
interpreter (`From.call_eq`). -/
theorem execute_eq (h : s.Offers fs) (index : Nat) (a b : UInt64) :
    (s.execute index a b).mapError ExecuteError.kind? = meaning fs index a b ∧
      meaning fs index a b ≠ .error none := by
  unfold execute meaning
  rw [h.isOpen, h.functionType?_eq]
  cases hf : fs[index]? with
  | none => exact ⟨rfl, nofun⟩
  | some f =>
    rw [if_neg Bool.false_ne_true, Option.map_some]
    dsimp only
    by_cases htype : f.type = .binary
    · have hsignature : f.type = ⟨[.i32, .i32], [.i32]⟩ := htype
      rw [if_neg (not_not.mpr htype), if_neg (not_not.mpr hsignature)]
      obtain ⟨c, t, hc, hfrom⟩ := h.exists_from hf
      have hargs : [a, b].length = f.type.params.length := by
        rw [htype]
        rfl
      obtain ⟨outcome, hinterpret, hcall⟩ := hfrom.call_eq hargs hc
      rw [hcall, hinterpret]
      -- it returns one value or traps, and nothing else
      cases outcome with
      | trapped => exact ⟨rfl, nofun⟩
      | returned values =>
        obtain ⟨v, rfl⟩ := List.length_eq_one_iff.mp (h.length_results hf htype hcall)
        exact ⟨rfl, nofun⟩
    · have hsignature : f.type ≠ ⟨[.i32, .i32], [.i32]⟩ := htype
      rw [if_pos htype, if_pos hsignature]
      exact ⟨rfl, nofun⟩

/-- **An open session answers from its functions.** By cases on the request. -/
theorem answer_eq (h : s.Offers fs) (r : Request) :
    s.answer r = openAnswer fs r ∧ s.answer r ≠ .executed (.error none) := by
  cases r with
  | execute index a b =>
    obtain ⟨hexecute, hkind⟩ := h.execute_eq index a b
    rw [answer, hexecute]
    exact ⟨rfl, fun heq => hkind (Answer.executed.inj heq)⟩
  -- these two look at the functions without executing any
  | numFunctions =>
    refine ⟨?_, nofun⟩
    rw [answer, numFunctions, h.isOpen, h.numFunctions_eq]
    rfl
  | functionType index =>
    refine ⟨?_, nofun⟩
    rw [answer, functionType?, h.isOpen, h.functionType?_eq]
    simp only [Bool.false_eq_true, if_false, Option.map_map]
    rfl
  | close => exact ⟨rfl, nofun⟩

end Offers

/-! ### Requests one after the other -/

/-- No other request changes a session. -/
theorem next_of_ne (s : Session) {r : Request} (h : r ≠ .close) : s.next r = s := by
  cases r with
  | close => exact absurd rfl h
  | _ => rfl

/-- Only closing changes a session. By induction on the requests. -/
theorem after_of_notMem {requests : List Request} (h : .close ∉ requests) :
    s.after requests = s := by
  induction requests with
  | nil => rfl
  | cons r requests ih =>
    obtain ⟨hne, hnotMem⟩ := not_or.mp (mt List.mem_cons.mpr h)
    exact (congrArg (after · requests) (s.next_of_ne (Ne.symm hne))).trans (ih hnotMem)

/-- A closed session stays closed, whatever is asked of it, and also if it is closed again. -/
theorem after_close (s : Session) (requests : List Request) :
    s.close.after requests = s.close := by
  induction requests with
  | nil => rfl
  | cons r requests ih =>
    have hnext : s.close.next r = s.close := by cases r <;> rfl
    exact (congrArg (after · requests) hnext).trans ih

/-- After it was closed once, it does not matter what came before and what after. By induction on
the requests, up to the first that closes. -/
theorem after_of_mem {requests : List Request} (h : .close ∈ requests) :
    s.after requests = s.close := by
  induction requests with
  | nil => cases h
  | cons r requests ih =>
    by_cases hr : r = .close
    · subst hr
      exact after_close s requests
    · have hmem : .close ∈ requests := (List.mem_cons.mp h).resolve_left (Ne.symm hr)
      exact (congrArg (after · requests) (s.next_of_ne hr)).trans (ih hmem)

/-- A closed session answers that it is closed, whatever its functions are. -/
theorem answer_close (s : Session) (r : Request) : s.close.answer r = closedAnswer r := by
  cases r <;> rfl

/-- **Sessions answer any requests.** The module of a binary that was loaded has functions, and
until the session is closed, every request is answered from these functions, whatever was asked
before: their number, their signatures, and what the interpreter makes of them. After it was closed,
the session answers that it is closed, and closing it again changes nothing. No answer is a fault of
the library, and where a call of a function with the required signature returns, there is the one
value that is passed on. -/
theorem answers_any_request {source : List UInt8} (h : load source = .ok s) :
    ∃ m fs, Module.decode source = .ok m ∧ m.functions = .ok fs ∧
      (∀ (earlier : List Request) (r : Request),
        (.close ∉ earlier → (s.after earlier).answer r = openAnswer fs r) ∧
        (.close ∈ earlier → (s.after earlier).answer r = closedAnswer r ∧
          (s.after earlier).close = s.after earlier) ∧
        (s.after earlier).answer r ≠ .executed (.error none)) ∧
      ∀ index f args results, fs[index]? = some f → f.type = .binary →
        s.compiled.call index args = .ok results → results.length = 1 := by
  obtain ⟨m, fs, hm, hfs, hoffers⟩ := exists_offers_of_load h
  refine ⟨m, fs, hm, hfs, fun earlier r => ?_, fun index f args results hf htype hcall =>
    hoffers.length_results hf htype hcall⟩
  -- the session is closed or as it was loaded, and these are the only two cases
  by_cases hclose : .close ∈ earlier
  · rw [after_of_mem hclose, answer_close]
    refine ⟨absurd hclose, fun _ => ⟨rfl, rfl⟩, ?_⟩
    cases r <;> exact nofun
  · rw [after_of_notMem hclose]
    obtain ⟨hanswer, hkind⟩ := hoffers.answer_eq r
    exact ⟨fun _ => hanswer, fun hmem => absurd hmem hclose, hkind⟩

/-- Three functions: a sum, a trap, and one with another signature. -/
theorem answers_any_request_three :
    ∃ source s, source = Module.magic ++ Module.version ++
          [1, 12, 2, 0x60, 2, 0x7f, 0x7f, 1, 0x7f, 0x60, 1, 0x7f, 1, 0x7f] ++ [3, 4, 3, 0, 0, 1] ++
          [10, 18, 3, 7, 0, 0x20, 0, 0x20, 1, 0x6a, 0x0b, 3, 0, 0, 0x0b, 4, 0, 0x20, 0, 0x0b] ∧
      load source = .ok s ∧
      (s.after [.execute 1 3 4, .numFunctions]).answer (.execute 0 3 4) = .executed (.ok 7) ∧
      (s.after [.execute 0 3 4]).answer (.execute 1 3 4) =
        .executed (.error (some .unreachable)) ∧
      s.answer (.execute 2 3 4) = .executed (.error (some .signatureMismatch)) ∧
      s.answer (.execute 3 3 4) = .executed (.error (some .invalidFunctionIndex)) ∧
      (s.after [.execute 1 3 4, .close, .close]).answer (.execute 3 3 4) =
        .executed (.error (some .moduleClosed)) := by
  have hm : Module.decode (Module.magic ++ Module.version ++
      [1, 12, 2, 0x60, 2, 0x7f, 0x7f, 1, 0x7f, 0x60, 1, 0x7f, 1, 0x7f] ++ [3, 4, 3, 0, 0, 1] ++
      [10, 18, 3, 7, 0, 0x20, 0, 0x20, 1, 0x6a, 0x0b, 3, 0, 0, 0x0b, 4, 0, 0x20, 0, 0x0b]) =
      .ok ⟨[.binary, ⟨[.i32], [.i32]⟩], [0, 0, 1],
        [⟨0, [0x20, 0, 0x20, 1, 0x6a, 0x0b]⟩, ⟨0, [0, 0x0b]⟩, ⟨0, [0x20, 0, 0x0b]⟩]⟩ := rfl
  obtain ⟨s, hs⟩ := exists_load hm rfl (by
    simp only [List.forall_mem_cons]
    exact ⟨Function.exists_compile (n := 4) (by decide),
      Function.exists_compile (n := 3) (by decide),
      Function.exists_compile (n := 2) (by decide), nofun⟩)
  -- the answers are found by evaluating what is expected of the three functions
  obtain ⟨m, fs, hm', hfs, hany, -⟩ := answers_any_request hs
  cases hm.symm.trans hm'
  cases hfs
  exact ⟨_, s, rfl, hs, (hany _ _).1 (by decide), (hany _ _).1 (by decide),
    (hany [] _).1 (by decide), (hany [] _).1 (by decide), ((hany _ _).2.1 (by decide)).1⟩

end Session

end WasmJit
