import WasmJit.CommandLine
import WasmJit.Proofs.CommandLine.OptionSyntax
import WasmJit.Proofs.Correctness.Sessions

/-!
# Exit codes

Scripts tell by the exit code whether the command line was wrong (1) or the module (2). There are
four kinds of arguments: those that make a request (`CommandLine.Requests`), that ask for the usage
(`CommandLine.AsksForUsage`), that do not fit the command (`CommandLine.Misused`), and those that do
not get as far as a command, because an option in front of it is refused (`CommandLine.Unreadable`).

A request is refused if its settings or its file cannot be read. Otherwise it is undertaken
(`CommandLine.Undertakes`), and then the module decides: it is refused or its execution fails
(`CommandLine.Fails`), or the result is printed (`CommandLine.Prints`).

`CommandLine.Contract` is what scripts rely on. It is kept except for the fourth kind of arguments,
which ends with the code of a failed module although there is no module.

* `CommandLine.kind_of_args` says that there is no fifth kind of arguments, and
  `CommandLine.ending_outcome` that there are five ways to end.
* `Request.parse_of_requests`, `Request.parse_of_asksForUsage`, `Request.parse_of_misused` and
  `Request.parse_of_unreadable` tell the kinds apart.
* `CommandLine.exit_codes` says when the contract is kept.
-/

namespace WasmJit

/-! ### Numbers on the command line -/

namespace UnsignedLiteral

/-- Digits are added only as long as the number stays in range. By induction on the digits. -/
theorem le_of_accumulate {base most n m : Nat} {cs : List Char} (hn : n ≤ most)
    (h : accumulate base most n cs = .ok m) : m ≤ most := by
  induction cs generalizing n with
  | nil =>
    cases h
    exact hn
  | cons c cs ih =>
    rw [accumulate] at h
    -- an underscore is passed over, and a digit is added if the sum stays in range
    split at h
    · exact ih hn h
    · split at h
      · cases h
      · split at h
        · next hle => exact ih hle h
        · cases h

/-- A literal fits its width, or is not read. -/
theorem lt_two_pow {bits n : Nat} {s : String} (h : parse bits s = .ok n) : n < 2 ^ bits := by
  have hpos := Nat.two_pow_pos bits
  rw [parse] at h
  split at h
  · cases h
  · dsimp only at h
    split at h
    · cases h
    · next m hm =>
      split at h
      · cases h
        -- the largest number of this width is the limit of the accumulation
        have := le_of_accumulate (Nat.zero_le _) hm
        change n ≤ 2 ^ bits - 1 at this
        omega
      · cases h

/-- A literal of 64 bits is the number of a word, so nothing is lost when it is passed on as one. -/
theorem exists_word {n : Nat} {s : String} (h : parse 64 s = .ok n) :
    ∃ a : UInt64, parse 64 s = .ok a.toNat := by
  refine ⟨UInt64.ofNat n, ?_⟩
  rw [h, UInt64.toNat_ofNat_of_lt' (lt_two_pow h)]

end UnsignedLiteral

/-! ### Kinds of arguments -/

namespace CommandLine

open Request (programFlags runFlags describeFlags)

/-- The commands, with their options and the number of their operands. -/
def commands : List (String × List Flag × Nat) :=
  [("run", runFlags, 3), ("describe", describeFlags, 1)]

/-- **A command is invoked**: its name is the first operand of the program, and no help is asked
for before it. -/
def Invokes (args : List String) (name : String) (rest : List String) : Prop :=
  ∃ o : Options, Options.Reads programFlags args o (name :: rest) ∧ o.help = false

/-- **Arguments that make a request.** -/
inductive Requests (args : List String) : Request → Prop where
  | run {rest : List String} {o : Options} {binary x y : String} {a b : UInt64}
      (invoked : Invokes args "run" rest) (options : Options.Reads runFlags rest o [binary, x, y])
      (noHelp : o.help = false) (first : UnsignedLiteral.parse 64 x = .ok a.toNat)
      (second : UnsignedLiteral.parse 64 y = .ok b.toNat) :
      Requests args ⟨o.config, binary, .run o.func a b⟩
  | describe {rest : List String} {o : Options} {binary : String}
      (invoked : Invokes args "describe" rest)
      (options : Options.Reads describeFlags rest o [binary]) (noHelp : o.help = false) :
      Requests args ⟨o.config, binary, .describe⟩

/-- **Arguments that ask for the usage.** -/
inductive AsksForUsage (args : List String) : Prop where
  | switch {o : Options} {operands : List String}
      (options : Options.Reads programFlags args o operands) (help : o.help = true)
  | unknown (asks : Options.AsksForHelp programFlags args)
  /-- There is no command. -/
  | nothing {o : Options} (options : Options.Reads programFlags args o [])
  | command {name : String} {rest operands : List String} {known : List Flag} {count : Nat}
      {o : Options} (invoked : Invokes args name rest) (isCommand : (name, known, count) ∈ commands)
      (options : Options.Reads known rest o operands) (help : o.help = true)

/-- **Arguments that do not fit the command.** -/
inductive Misused (args : List String) : Prop where
  /-- There is no such command. -/
  | command {name : String} {rest : List String} (invoked : Invokes args name rest)
      (unknown : ∀ known count, (name, known, count) ∉ commands)
  /-- An option is not known, has no name, or has no value or a wrong one. -/
  | options {name : String} {rest : List String} {known : List Flag} {count : Nat}
      (invoked : Invokes args name rest) (isCommand : (name, known, count) ∈ commands)
      (refused : ∀ o operands, ¬ Options.Reads known rest o operands)
  /-- There are too few operands or too many. -/
  | operands {name : String} {rest operands : List String} {known : List Flag} {count : Nat}
      {o : Options} (invoked : Invokes args name rest) (isCommand : (name, known, count) ∈ commands)
      (options : Options.Reads known rest o operands) (noHelp : o.help = false)
      (wrong : operands.length ≠ count)
  /-- An argument of the executed function is no number of 64 bits. -/
  | argument {rest : List String} {o : Options} {binary x y z : String}
      (invoked : Invokes args "run" rest) (options : Options.Reads runFlags rest o [binary, x, y])
      (noHelp : o.help = false) (isArgument : z ∈ [x, y])
      (wrong : ∀ n, UnsignedLiteral.parse 64 z ≠ .ok n)

/-- **Arguments that do not get as far as a command**: an option in front of it is refused. -/
def Unreadable (args : List String) : Prop :=
  (∀ o operands, ¬ Options.Reads programFlags args o operands) ∧
    ¬ Options.AsksForHelp programFlags args

/-! ### Requests and files -/

/-- **The settings of a request are valid**: the defaults or those of a file, with a level and a
format that exist. -/
def Configured (files : String → Content) (r : Request) : Prop :=
  ∃ (c : Config) (logger : Log.Logger),
    (r.config = "" ∧ c = .default ∨
      r.config ≠ "" ∧ ∃ bytes, files r.config = .ok bytes ∧ Config.parse bytes = .ok c) ∧
    c.logger = .ok logger

/-- **A request is undertaken** on a binary. -/
structure Undertakes (files : String → Content) (args : List String) (r : Request)
    (source : List UInt8) : Prop where
  requested : Requests args r
  configured : Configured files r
  readable : files r.binary = .ok source

/-- **What is refused** before a binary is looked at. -/
inductive Refused (files : String → Content) (args : List String) : Prop where
  | misused (misused : Misused args)
  | config {r : Request} (requested : Requests args r) (invalid : ¬ Configured files r)
  | binary {r : Request} {e : FileError} (requested : Requests args r)
      (configured : Configured files r) (unreadable : files r.binary = .error e)

/-- **A command fails** on a binary. -/
def Fails (source : List UInt8) : Command → Prop
  | .describe => ∃ e, Session.load source = .error e
  | .run func a b => (∃ e, Session.load source = .error e) ∨
      ∃ s e, Session.load source = .ok s ∧ s.execute func a b = .error e

/-- The line about the function numbered `i`. -/
def line (i : Nat) (f : Function) : String :=
  s!"function[{i}]: " ++ f.type.text ++ "\n"

/-- **What a command prints**: the result in decimal, or one line per function, in their order. -/
def Prints (source : List UInt8) (out : String) : Command → Prop
  | .describe => ∃ m fs, Module.decode source = .ok m ∧ m.functions = .ok fs ∧
      out = String.join (fs.mapIdx line)
  | .run func a b => ∃ s v, Session.load source = .ok s ∧ s.execute func a b = .ok v ∧
      out = toString v.toNat ++ "\n"

/-- **How a run ends**, and with which outcome. -/
inductive Ending (files : String → Content) (args : List String) : Outcome → Prop where
  | usage {err : String} (asks : AsksForUsage args) : Ending files args ⟨0, "", err⟩
  | refused {err : String} (refused : Refused files args) : Ending files args ⟨1, "", err⟩
  | unreadable {err : String} (unreadable : Unreadable args) : Ending files args ⟨2, "", err⟩
  | failed {err : String} {r : Request} {source : List UInt8}
      (undertaken : Undertakes files args r source) (fails : Fails source r.command) :
      Ending files args ⟨2, "", err⟩
  | printed {out err : String} {r : Request} {source : List UInt8}
      (undertaken : Undertakes files args r source) (succeeds : ¬ Fails source r.command)
      (prints : Prints source out r.command) : Ending files args ⟨0, out, err⟩

/-- **What scripts rely on.** -/
structure Contract (files : String → Content) (args : List String) (o : Outcome) : Prop where
  code : o.exitCode = 0 ∨ o.exitCode = 1 ∨ o.exitCode = 2
  /-- Two means that a module was refused or its execution failed. -/
  failed : o.exitCode = 2 ↔
    ∃ r source, Undertakes files args r source ∧ Fails source r.command
  /-- Every other error gives one, also an option that is refused in front of the command. -/
  refused : o.exitCode = 1 ↔ Refused files args ∨ Unreadable args
  /-- Zero means success, or that the usage was asked for. -/
  succeeded : o.exitCode = 0 ↔
    AsksForUsage args ∨ ∃ r source, Undertakes files args r source ∧ ¬ Fails source r.command
  /-- Nothing is printed along with an error. -/
  silent : o.exitCode ≠ 0 → o.out = ""
  /-- What a request is for is printed. -/
  printed : ∀ r, Requests args r → o.exitCode = 0 →
    ∃ source, files r.binary = .ok source ∧ Prints source o.out r.command

end CommandLine

/-! ### Reading the arguments -/

namespace Request

open CommandLine

variable {args rest operands : List String} {name : String} {o : Options} {r : Request}

/-- The two commands, one by one. -/
theorem mem_commands_iff {known : List Flag} {count : Nat} :
    (name, known, count) ∈ commands ↔
      name = "run" ∧ known = runFlags ∧ count = 3 ∨
        name = "describe" ∧ known = describeFlags ∧ count = 1 := by
  simp only [commands, List.mem_cons, Prod.mk.injEq, List.not_mem_nil, or_false]

/-- Every command has the option that asks for its usage. The grammar of options needs it. -/
theorem help_mem_of_commands {known : List Flag} {count : Nat}
    (h : (name, known, count) ∈ commands) : .help ∈ known := by
  rcases mem_commands_iff.mp h with ⟨-, rfl, -⟩ | ⟨-, rfl, -⟩ <;> decide

/-- What is done after the options of the program: the name of the command decides. From here on
`Request.parse` is not unfolded for a command any more. -/
theorem parse_of_invokes (h : Invokes args name rest) :
    parse args =
      if name = "run" then parseRun rest
      else if name = "describe" then parseDescribe rest
      else .error ⟨1, "", "invalid command\n" ++ Usage.program⟩ := by
  obtain ⟨o, hreads, hhelp⟩ := h
  rw [parse, (Options.reads_iff (by decide)).mp hreads]
  simp only [hhelp, Bool.false_eq_true, if_false]
  -- no command, one of the two, or another name
  split
  · next h => cases h
  · next h =>
    cases h
    rfl
  · next h =>
    cases h
    rfl
  · next _ hrun hdescribe =>
    rw [if_neg, if_neg]
    · rintro rfl
      exact hdescribe rest rfl
    · rintro rfl
      exact hrun rest rfl

theorem argument_of_parse {s : String} {a : UInt64} (h : UnsignedLiteral.parse 64 s = .ok a.toNat) :
    argument s = .ok a := by
  rw [argument, h]
  exact congrArg Except.ok (UInt64.ofNat_toNat)

/-- A literal that is not read is refused, as a wrong use of the command. -/
theorem argument_of_not_parse {s : String} (h : ∀ n, UnsignedLiteral.parse 64 s ≠ .ok n) :
    ∃ err, argument s = .error ⟨1, "", err⟩ := by
  rw [argument]
  cases hs : UnsignedLiteral.parse 64 s with
  | ok n => exact absurd hs (h n)
  | error fault => exact ⟨_, rfl⟩

/-- **A request is read** from any arguments that make it, however its options are written. -/
theorem parse_of_requests (h : Requests args r) : parse args = .ok r := by
  -- each command reads its options and then its operands
  cases h with
  | run invoked options noHelp first second =>
    rw [parse_of_invokes invoked, if_pos rfl, parseRun,
      (Options.reads_iff (by decide)).mp options]
    simp only [noHelp, Bool.false_eq_true, if_false, argument_of_parse first,
      argument_of_parse second]
    rfl
  | describe invoked options noHelp =>
    rw [parse_of_invokes invoked, if_neg (by decide), if_pos rfl, parseDescribe,
      (Options.reads_iff (by decide)).mp options]
    simp only [noHelp, Bool.false_eq_true, if_false]

/-- **Arguments that ask for the usage** end without an error, wherever they ask. -/
theorem parse_of_asksForUsage (h : AsksForUsage args) :
    ∃ err, parse args = .error ⟨0, "", err⟩ := by
  cases h with
  | switch options help =>
    rw [parse, (Options.reads_iff (by decide)).mp options]
    simp only [help, if_true]
    exact ⟨_, rfl⟩
  | unknown asks =>
    rw [parse, (Options.asksForHelp_iff (by decide)).mp asks]
    exact ⟨_, rfl⟩
  | nothing options =>
    rw [parse, (Options.reads_iff (by decide)).mp options]
    dsimp only
    split <;> exact ⟨_, rfl⟩
  -- each command answers a question for its own usage
  | command invoked isCommand options help =>
    have hoptions := (Options.reads_iff (help_mem_of_commands isCommand)).mp options
    rw [parse_of_invokes invoked]
    rcases mem_commands_iff.mp isCommand with ⟨rfl, rfl, -⟩ | ⟨rfl, rfl, -⟩
    · rw [if_pos rfl, parseRun, hoptions]
      simp only [help, if_true]
      exact ⟨_, rfl⟩
    · rw [if_neg (by decide), if_pos rfl, parseDescribe, hoptions]
      simp only [help, if_true]
      exact ⟨_, rfl⟩

/-- What is not in the grammar of options is refused. -/
theorem exists_error_of_not_reads {known : List Flag} (hhelp : .help ∈ known)
    (h : ∀ o operands, ¬ Options.Reads known rest o operands) :
    ∃ e, Options.parse known rest = .error e := by
  cases hparse : Options.parse known rest with
  | ok result => exact absurd ((Options.reads_iff hhelp).mpr hparse) (h result.1 result.2)
  | error e => exact ⟨e, rfl⟩

/-- **Arguments that do not fit the command** are refused. By cases on what is wrong, each of which
is found by one of the checks of the command. -/
theorem parse_of_misused (h : Misused args) : ∃ err, parse args = .error ⟨1, "", err⟩ := by
  cases h with
  | @command name rest invoked unknown =>
    rw [parse_of_invokes invoked, if_neg, if_neg]
    · exact ⟨_, rfl⟩
    · rintro rfl
      exact unknown describeFlags 1 (by decide)
    · rintro rfl
      exact unknown runFlags 3 (by decide)
  -- what the options of a command are refused for does not matter
  | options invoked isCommand refused =>
    obtain ⟨e, he⟩ := exists_error_of_not_reads (help_mem_of_commands isCommand) refused
    rw [parse_of_invokes invoked]
    rcases mem_commands_iff.mp isCommand with ⟨rfl, rfl, -⟩ | ⟨rfl, rfl, -⟩
    · rw [if_pos rfl, parseRun, he]
      exact ⟨_, rfl⟩
    · rw [if_neg (by decide), if_pos rfl, parseDescribe, he]
      exact ⟨_, rfl⟩
  -- with another number of operands no case of the command fits
  | operands invoked isCommand options noHelp wrong =>
    have hoptions := (Options.reads_iff (help_mem_of_commands isCommand)).mp options
    rw [parse_of_invokes invoked]
    rcases mem_commands_iff.mp isCommand with ⟨rfl, rfl, rfl⟩ | ⟨rfl, rfl, rfl⟩
    · rw [if_pos rfl, parseRun, hoptions]
      simp only [noHelp, Bool.false_eq_true, if_false]
      split
      · exact ⟨_, rfl⟩
      · exact absurd rfl wrong
      · exact ⟨_, rfl⟩
    · rw [if_neg (by decide), if_pos rfl, parseDescribe, hoptions]
      simp only [noHelp, Bool.false_eq_true, if_false]
      split
      · exact absurd rfl wrong
      · exact ⟨_, rfl⟩
  | @argument rest o binary x y z invoked options noHelp isArgument wrong =>
    rw [parse_of_invokes invoked, if_pos rfl, parseRun, (Options.reads_iff (by decide)).mp options]
    simp only [noHelp, Bool.false_eq_true, if_false]
    -- the first argument is looked at first
    by_cases hx : ∃ n, UnsignedLiteral.parse 64 x = .ok n
    · obtain ⟨n, hn⟩ := hx
      obtain ⟨a, ha⟩ := UnsignedLiteral.exists_word hn
      have hz : z = y := by
        rcases List.mem_cons.mp isArgument with rfl | hmem
        · exact absurd hn (wrong n)
        · exact List.mem_singleton.mp hmem
      obtain ⟨err, herr⟩ := argument_of_not_parse (hz ▸ wrong)
      simp only [argument_of_parse ha, herr]
      exact ⟨err, rfl⟩
    · obtain ⟨err, herr⟩ := argument_of_not_parse (not_exists.mp hx)
      simp only [herr]
      exact ⟨err, rfl⟩

/-- **An option that is refused in front of the command** ends with the code of a failed module,
since the program itself reads its options in another way than its commands do. -/
theorem parse_of_unreadable (h : Unreadable args) : ∃ err, parse args = .error ⟨2, "", err⟩ := by
  obtain ⟨hreads, hhelp⟩ := h
  obtain ⟨e, he⟩ := exists_error_of_not_reads (by decide) hreads
  rw [parse, he]
  cases e with
  | helpRequested => exact absurd ((Options.asksForHelp_iff (by decide)).mpr he) hhelp
  | badSyntax | undefined | missingValue | invalidBoolean | invalidNumber => exact ⟨_, rfl⟩

end Request

namespace CommandLine

open Request (programFlags runFlags describeFlags)

variable {args rest : List String} {name : String}

/-- What an invoked command is given: a request, a question for its usage, or something else. By
cases along its checks; what makes a request of it differs from command to command and is left as a
hypothesis. -/
theorem kind_of_command {known : List Flag} {count : Nat} (hinvoked : Invokes args name rest)
    (hcommand : (name, known, count) ∈ commands)
    (hrequests : ∀ o operands, Options.Reads known rest o operands → o.help = false →
      operands.length = count → (∃ r, Requests args r) ∨ Misused args) :
    (∃ r, Requests args r) ∨ AsksForUsage args ∨ Misused args := by
  by_cases hreads : ∃ o operands, Options.Reads known rest o operands
  · obtain ⟨o, operands, hreads⟩ := hreads
    cases hhelp : o.help with
    | true => exact .inr (.inl (.command hinvoked hcommand hreads hhelp))
    | false =>
      -- the options are read, so the number of operands is looked at
      by_cases hcount : operands.length = count
      · rcases hrequests o operands hreads hhelp hcount with hrequests | hmisused
        · exact .inl hrequests
        · exact .inr (.inr hmisused)
      · exact .inr (.inr (.operands hinvoked hcommand hreads hhelp hcount))
  · simp only [not_exists] at hreads
    exact .inr (.inr (.options hinvoked hcommand hreads))

/-- An invoked name is one of the two commands, or is misused. -/
theorem kind_of_invokes (hinvoked : Invokes args name rest) :
    (∃ r, Requests args r) ∨ AsksForUsage args ∨ Misused args := by
  by_cases hrun : name = "run"
  · subst hrun
    refine kind_of_command hinvoked (Request.mem_commands_iff.mpr (.inl ⟨rfl, rfl, rfl⟩)) ?_
    intro o operands hreads hhelp hcount
    obtain ⟨binary, x, y, rfl⟩ := List.length_eq_three.mp hcount
    -- both arguments have to be numbers
    by_cases hx : ∃ n, UnsignedLiteral.parse 64 x = .ok n
    · by_cases hy : ∃ n, UnsignedLiteral.parse 64 y = .ok n
      · obtain ⟨_, hx⟩ := hx
        obtain ⟨_, hy⟩ := hy
        obtain ⟨a, ha⟩ := UnsignedLiteral.exists_word hx
        obtain ⟨b, hb⟩ := UnsignedLiteral.exists_word hy
        exact .inl ⟨_, .run hinvoked hreads hhelp ha hb⟩
      · exact .inr (.argument hinvoked hreads hhelp (by simp) (not_exists.mp hy))
    · exact .inr (.argument hinvoked hreads hhelp (by simp) (not_exists.mp hx))
  · by_cases hdescribe : name = "describe"
    · subst hdescribe
      refine kind_of_command hinvoked (Request.mem_commands_iff.mpr (.inr ⟨rfl, rfl, rfl⟩)) ?_
      intro o operands hreads hhelp hcount
      obtain ⟨binary, rfl⟩ := List.length_eq_one_iff.mp hcount
      exact .inl ⟨_, .describe hinvoked hreads hhelp⟩
    · -- neither of the commands has this name
      refine .inr (.inr (.command hinvoked fun known count hmem => ?_))
      rcases Request.mem_commands_iff.mp hmem with ⟨hname, -⟩ | ⟨hname, -⟩
      · exact hrun hname
      · exact hdescribe hname

/-- **There are four kinds of arguments.** By cases along the reading of the arguments, from the
options in front of the command to the operands of the command. -/
theorem kind_of_args (args : List String) :
    (∃ r, Requests args r) ∨ AsksForUsage args ∨ Misused args ∨ Unreadable args := by
  by_cases hreads : ∃ o operands, Options.Reads programFlags args o operands
  · obtain ⟨o, operands, hreads⟩ := hreads
    cases hhelp : o.help with
    | true => exact .inr (.inl (.switch hreads hhelp))
    | false =>
      cases operands with
      | nil => exact .inr (.inl (.nothing hreads))
      | cons name rest =>
        rcases kind_of_invokes ⟨o, hreads, hhelp⟩ with hrequests | husage | hmisused
        · exact .inl hrequests
        · exact .inr (.inl husage)
        · exact .inr (.inr (.inl hmisused))
  · simp only [not_exists] at hreads
    -- options that are not read may still ask for the usage
    by_cases hasks : Options.AsksForHelp programFlags args
    · exact .inr (.inl (.unknown hasks))
    · exact .inr (.inr (.inr ⟨hreads, hasks⟩))

end CommandLine

/-! ### Carrying out requests -/

namespace Request

open CommandLine

variable {files : String → Content} {r : Request} {source : List UInt8}

/-- The settings are the defaults or what a file says. The file is looked at only if one is given.
-/
theorem settings_eq_ok_iff {c : Config} :
    r.settings (files r.config) = .ok c ↔
      r.config = "" ∧ c = .default ∨
        r.config ≠ "" ∧ ∃ bytes, files r.config = .ok bytes ∧ Config.parse bytes = .ok c := by
  unfold settings
  -- without a path no file is looked at
  by_cases hpath : r.config = ""
  · rw [if_pos (String.isEmpty_iff.mpr hpath), Except.ok.injEq]
    simp only [hpath, ne_eq, not_true, false_and, or_false, true_and]
    exact eq_comm
  · rw [if_neg (mt String.isEmpty_iff.mp hpath)]
    simp only [hpath, ne_eq, not_false_iff, false_and, false_or, true_and]
    cases files r.config with
    | error e => exact ⟨nofun, nofun⟩
    | ok bytes => simp only [Except.mapError_eq_ok, Except.ok.injEq, exists_eq_left']

/-- With valid settings there is a logger, and otherwise the request is refused. A file can be
well-formed and still have a level or a format that does not exist. -/
theorem logger_cases (files : String → Content) (r : Request) :
    (Configured files r ∧ ∃ logger, r.logger (files r.config) = .ok logger) ∨
      (¬ Configured files r ∧ ∃ err, r.logger (files r.config) = .error ⟨1, "", err⟩) := by
  -- valid settings are those that are read and have a logger
  simp only [Configured, ← settings_eq_ok_iff, logger]
  cases r.settings (files r.config) with
  | error e =>
    refine .inr ⟨?_, _, rfl⟩
    rintro ⟨c, logger, hc, -⟩
    cases hc
  | ok c =>
    dsimp only
    cases hlogger : c.logger with
    | ok logger => exact .inl ⟨⟨c, logger, rfl, hlogger⟩, logger, rfl⟩
    | error e =>
      refine .inr ⟨?_, _, rfl⟩
      rintro ⟨c', logger, hc, hlogger'⟩
      cases hc
      cases hlogger.symm.trans hlogger'

/-- The signatures of an open session, one line for each of its functions. -/
theorem signatures_eq {s : Session} {fs : List Function} (h : s.Offers fs) :
    signatures s = String.join (fs.mapIdx line) := by
  rw [signatures, Session.numFunctions, h.isOpen, if_neg Bool.false_ne_true, h.numFunctions_eq]
  congr 1
  refine List.ext_getElem (by simp) fun i hi hi' => ?_
  have hlt : i < fs.length := by simpa using hi
  simp [Session.functionType?, h.isOpen, h.functionType?_eq, line, hlt]

/-- A command prints or fails, and then nothing else is printed. Describing a module that was loaded
does not fail. -/
theorem perform_cases (write : List Log.Entry → String) (s : Session) (c : Command)
    (hload : Session.load source = .ok s) :
    (Fails source c ∧ ∃ err, perform write s c = ⟨2, "", err⟩) ∨
      (¬ Fails source c ∧ ∃ out err, perform write s c = ⟨0, out, err⟩ ∧ Prints source out c) := by
  have hloaded : ¬ ∃ e, Session.load source = .error e := by
    rintro ⟨e, he⟩
    cases hload.symm.trans he
  cases c with
  | describe =>
    obtain ⟨m, fs, hm, hfs, hoffers⟩ := Session.exists_offers_of_load hload
    exact .inr ⟨hloaded, _, _, rfl, m, fs, hm, hfs, signatures_eq hoffers⟩
  -- the result of the execution is printed, or it is the failure
  | run func a b =>
    cases hexecute : s.execute func a b with
    | ok v =>
      refine .inr ⟨?_, toString v.toNat ++ "\n", "", ?_, s, v, hload, hexecute, rfl⟩
      · rintro (hrefused | ⟨s', e, hload', hfails⟩)
        · exact hloaded hrefused
        · cases hload.symm.trans hload'
          cases hexecute.symm.trans hfails
      · simp only [perform, hexecute]
    | error e =>
      refine .inl ⟨.inr ⟨s, e, hload, hexecute⟩, ?_⟩
      simp only [perform, hexecute]
      exact ⟨_, rfl⟩

/-- Settings that cannot be read are refused, whatever the binary is. -/
theorem answer_of_not_configured (stamp : Log.Stamp) (h : ¬ Configured files r)
    (binary : Content) : ∃ err, r.answer stamp (files r.config) binary = ⟨1, "", err⟩ := by
  rcases logger_cases files r with ⟨hconfigured, -⟩ | ⟨-, err, herr⟩
  · exact absurd hconfigured h
  · rw [answer, herr]
    exact ⟨err, rfl⟩

/-- A binary that cannot be read is refused, once the settings are read. -/
theorem answer_of_unreadable (stamp : Log.Stamp) (h : Configured files r) (e : FileError) :
    ∃ err, r.answer stamp (files r.config) (.error e) = ⟨1, "", err⟩ := by
  rcases logger_cases files r with ⟨-, logger, hlogger⟩ | ⟨hnot, -⟩
  · rw [answer, hlogger]
    exact ⟨_, rfl⟩
  · exact absurd h hnot

/-- **What becomes of a request** whose settings and whose binary are read: the module is refused,
its execution fails, or the result is printed. -/
theorem answer_cases (stamp : Log.Stamp) (h : Configured files r) (source : List UInt8) :
    (Fails source r.command ∧
      ∃ err, r.answer stamp (files r.config) (.ok source) = ⟨2, "", err⟩) ∨
    (¬ Fails source r.command ∧ ∃ out err,
      r.answer stamp (files r.config) (.ok source) = ⟨0, out, err⟩ ∧
        Prints source out r.command) := by
  rcases logger_cases files r with ⟨-, logger, hlogger⟩ | ⟨hnot, -⟩
  · rw [answer, hlogger]
    dsimp only
    cases hload : Session.load source with
    | error e =>
      -- a binary that is not loaded fails either command
      have hfails : Fails source r.command := by
        cases r.command with
        | describe => exact ⟨e, hload⟩
        | run func a b => exact .inl ⟨e, hload⟩
      exact .inl ⟨hfails, _, rfl⟩
    | ok s =>
      rcases perform_cases (logger.write stamp) s r.command hload with
        ⟨hfails, err, herr⟩ | ⟨hsucceeds, out, err, herr, hprints⟩
      · refine .inl ⟨hfails, ?_⟩
        simp only [herr]
        exact ⟨_, rfl⟩
      · refine .inr ⟨hsucceeds, out, ?_⟩
        simp only [herr]
        exact ⟨_, rfl, hprints⟩
  · exact absurd h hnot

end Request

/-! ### The contract -/

namespace CommandLine

variable {files : String → Content} {args : List String} {r : Request} {source : List UInt8}

theorem outcome_of_requests (stamp : Log.Stamp) (files : String → Content)
    (h : Requests args r) :
    outcome stamp files args = r.answer stamp (files r.config) (files r.binary) := by
  rw [outcome, Request.parse_of_requests h]

/-- Arguments that ask for the usage look at no file. -/
theorem outcome_of_asksForUsage (stamp : Log.Stamp) (files : String → Content)
    (h : AsksForUsage args) :
    ∃ err, outcome stamp files args = ⟨0, "", err⟩ := by
  obtain ⟨err, herr⟩ := Request.parse_of_asksForUsage h
  exact ⟨err, by rw [outcome, herr]⟩

/-- Neither do arguments that do not get as far as a command. -/
theorem outcome_of_unreadable (stamp : Log.Stamp) (files : String → Content)
    (h : Unreadable args) :
    ∃ err, outcome stamp files args = ⟨2, "", err⟩ := by
  obtain ⟨err, herr⟩ := Request.parse_of_unreadable h
  exact ⟨err, by rw [outcome, herr]⟩

/-- What is refused ends with the code one, at whichever point. -/
theorem outcome_of_refused (stamp : Log.Stamp) (h : Refused files args) :
    ∃ err, outcome stamp files args = ⟨1, "", err⟩ := by
  -- the arguments, the settings and the binary, in the order in which they are looked at
  cases h with
  | misused misused =>
    obtain ⟨err, herr⟩ := Request.parse_of_misused misused
    exact ⟨err, by rw [outcome, herr]⟩
  | config requested invalid =>
    rw [outcome_of_requests stamp files requested]
    exact Request.answer_of_not_configured stamp invalid _
  | binary requested configured unreadable =>
    rw [outcome_of_requests stamp files requested, unreadable]
    exact Request.answer_of_unreadable stamp configured _

/-- What is undertaken fails or is printed. -/
theorem outcome_of_undertakes (stamp : Log.Stamp) (h : Undertakes files args r source) :
    (Fails source r.command ∧ ∃ err, outcome stamp files args = ⟨2, "", err⟩) ∨
      (¬ Fails source r.command ∧ ∃ out err,
        outcome stamp files args = ⟨0, out, err⟩ ∧ Prints source out r.command) := by
  rw [outcome_of_requests stamp files h.requested, h.readable]
  exact Request.answer_cases stamp h.configured source

/-- **There are five ways to end.** From the four kinds of arguments; a request then is refused,
fails or is printed. -/
theorem ending_outcome (stamp : Log.Stamp) (files : String → Content) (args : List String) :
    Ending files args (outcome stamp files args) := by
  rcases kind_of_args args with ⟨r, hrequests⟩ | husage | hmisused | hunreadable
  -- the settings are looked at before the binary
  · by_cases hconfigured : Configured files r
    · cases hbinary : files r.binary with
      | error e =>
        have hrefused : Refused files args := .binary hrequests hconfigured hbinary
        obtain ⟨err, herr⟩ := outcome_of_refused stamp hrefused
        exact herr ▸ .refused hrefused
      | ok source =>
        have hundertakes : Undertakes files args r source := ⟨hrequests, hconfigured, hbinary⟩
        rcases outcome_of_undertakes stamp hundertakes with
          ⟨hfails, err, herr⟩ | ⟨hsucceeds, out, err, herr, hprints⟩
        · exact herr ▸ .failed hundertakes hfails
        · exact herr ▸ .printed hundertakes hsucceeds hprints
    · have hrefused : Refused files args := .config hrequests hconfigured
      obtain ⟨err, herr⟩ := outcome_of_refused stamp hrefused
      exact herr ▸ .refused hrefused
  · obtain ⟨err, herr⟩ := outcome_of_asksForUsage stamp files husage
    exact herr ▸ .usage husage
  · have hrefused : Refused files args := .misused hmisused
    obtain ⟨err, herr⟩ := outcome_of_refused stamp hrefused
    exact herr ▸ .refused hrefused
  · obtain ⟨err, herr⟩ := outcome_of_unreadable stamp files hunreadable
    exact herr ▸ .unreadable hunreadable

/-- **The code two** belongs to failed modules, and to options that are refused in front of the
command. -/
theorem exitCode_eq_two_iff (stamp : Log.Stamp) (files : String → Content) (args : List String) :
    (outcome stamp files args).exitCode = 2 ↔
      Unreadable args ∨ ∃ r source, Undertakes files args r source ∧ Fails source r.command := by
  constructor
  · -- of the five ways to end, two have this code
    have hending := ending_outcome stamp files args
    generalize outcome stamp files args = o at hending
    intro h
    cases hending with
    | unreadable unreadable => exact .inl unreadable
    | failed undertaken fails => exact .inr ⟨_, _, undertaken, fails⟩
    | usage | refused | printed => cases h
  · rintro (hunreadable | ⟨r, source, hundertakes, hfails⟩)
    · obtain ⟨err, herr⟩ := outcome_of_unreadable stamp files hunreadable
      rw [herr]
    · rcases outcome_of_undertakes stamp hundertakes with ⟨-, err, herr⟩ | ⟨hsucceeds, -⟩
      · rw [herr]
      · exact absurd hfails hsucceeds

/-- **The code one** belongs to what is refused, and to nothing else. -/
theorem exitCode_eq_one_iff (stamp : Log.Stamp) (files : String → Content) (args : List String) :
    (outcome stamp files args).exitCode = 1 ↔ Refused files args := by
  constructor
  -- of the five ways to end, one has this code
  · have hending := ending_outcome stamp files args
    generalize outcome stamp files args = o at hending
    intro h
    cases hending with
    | refused refused => exact refused
    | usage | unreadable | failed | printed => cases h
  · intro hrefused
    obtain ⟨err, herr⟩ := outcome_of_refused stamp hrefused
    rw [herr]

/-- **The code zero** belongs to success and to the usage. -/
theorem exitCode_eq_zero_iff (stamp : Log.Stamp) (files : String → Content) (args : List String) :
    (outcome stamp files args).exitCode = 0 ↔
      AsksForUsage args ∨
        ∃ r source, Undertakes files args r source ∧ ¬ Fails source r.command := by
  constructor
  -- of the five ways to end, two have this code
  · have hending := ending_outcome stamp files args
    generalize outcome stamp files args = o at hending
    intro h
    cases hending with
    | usage asks => exact .inl asks
    | printed undertaken succeeds => exact .inr ⟨_, _, undertaken, succeeds⟩
    | refused | unreadable | failed => cases h
  · rintro (husage | ⟨r, source, hundertakes, hsucceeds⟩)
    · obtain ⟨err, herr⟩ := outcome_of_asksForUsage stamp files husage
      rw [herr]
    · rcases outcome_of_undertakes stamp hundertakes with ⟨hfails, -⟩ | ⟨-, out, err, herr, -⟩
      · exact absurd hfails hsucceeds
      · rw [herr]

/-- Arguments make one request at most, since they are read in one way. -/
theorem Requests.eq {r' : Request} (h : Requests args r) (h' : Requests args r') : r = r' :=
  Except.ok.inj ((Request.parse_of_requests h).symm.trans (Request.parse_of_requests h'))

/-- Arguments that make a request do not ask for the usage, as they are read as a request. -/
theorem Requests.not_asksForUsage (h : Requests args r) : ¬ AsksForUsage args := by
  intro husage
  obtain ⟨err, herr⟩ := Request.parse_of_asksForUsage husage
  cases (Request.parse_of_requests h).symm.trans herr

/-- Arguments that make a request get as far as a command, as they are read as a request. -/
theorem Requests.not_unreadable (h : Requests args r) : ¬ Unreadable args := by
  intro hunreadable
  obtain ⟨err, herr⟩ := Request.parse_of_unreadable hunreadable
  cases (Request.parse_of_requests h).symm.trans herr

/-- The contract is kept if the options in front of the command are read. Then the codes have the
meaning that `exitCode_eq_two_iff` and the others say, and the rest is known from the way it ends.
-/
theorem contract_of_readable (stamp : Log.Stamp) (files : String → Content)
    (h : ¬ Unreadable args) : Contract files args (outcome stamp files args) := by
  have htwo := (exitCode_eq_two_iff stamp files args).trans (or_iff_right h)
  have hone := (exitCode_eq_one_iff stamp files args).trans (or_iff_left h).symm
  have hzero := exitCode_eq_zero_iff stamp files args
  have hending := ending_outcome stamp files args
  generalize outcome stamp files args = o at hending htwo hone hzero ⊢
  -- what is left to say about the codes is that there is no fourth one
  refine ⟨?_, htwo, hone, hzero, ?_, ?_⟩
  · cases hending with
    | usage | printed => exact .inl rfl
    | refused => exact .inr (.inl rfl)
    | unreadable | failed => exact .inr (.inr rfl)
  · intro hcode
    cases hending with
    | usage | refused | unreadable | failed => rfl
    | printed => exact absurd rfl hcode
  · intro r hrequests hcode
    cases hending with
    | usage asks => exact absurd asks hrequests.not_asksForUsage
    | @printed out err r' source undertaken succeeds prints =>
      cases hrequests.eq undertaken.requested
      exact ⟨source, undertaken.readable, prints⟩
    | refused | unreadable | failed => cases hcode

/-- **The contract is kept except in front of the command**: an option of the program itself that is
refused ends with the code of a failed module, whatever the arguments after it are, and nothing is
printed then either. -/
theorem exit_codes (stamp : Log.Stamp) (files : String → Content) (args : List String) :
    (Contract files args (outcome stamp files args) ↔ ¬ Unreadable args) ∧
      (Unreadable args → ∃ err, outcome stamp files args = ⟨2, "", err⟩) := by
  refine ⟨⟨?_, contract_of_readable stamp files⟩, outcome_of_unreadable stamp files⟩
  intro hcontract hunreadable
  obtain ⟨err, herr⟩ := outcome_of_unreadable stamp files hunreadable
  -- the contract asks for the code one, and it is two
  have hcode := hcontract.refused.mpr (.inr hunreadable)
  rw [herr] at hcode
  cases hcode

/-- A sum, with an option in two arguments and a number in hexadecimal. -/
theorem exit_codes_addition :
    ∃ source, source = Module.magic ++ Module.version ++
          [1, 7, 1, 0x60, 2, 0x7f, 0x7f, 1, 0x7f] ++ [3, 2, 1, 0] ++
          [10, 9, 1, 7, 0, 0x20, 0, 0x20, 1, 0x6a, 0x0b] ∧
      Contract (fun _ => .ok source) ["run", "--func", "0", "add.wasm", "0x10", "1"]
        (outcome ⟨"", ""⟩ (fun _ => .ok source)
          ["run", "--func", "0", "add.wasm", "0x10", "1"]) ∧
      (outcome ⟨"", ""⟩ (fun _ => .ok source)
        ["run", "--func", "0", "add.wasm", "0x10", "1"]).out = "17\n" := by
  have hm : Module.decode (Module.magic ++ Module.version ++
      [1, 7, 1, 0x60, 2, 0x7f, 0x7f, 1, 0x7f] ++ [3, 2, 1, 0] ++
      [10, 9, 1, 7, 0, 0x20, 0, 0x20, 1, 0x6a, 0x0b]) =
      .ok ⟨[.binary], [0], [⟨0, [0x20, 0, 0x20, 1, 0x6a, 0x0b]⟩]⟩ := rfl
  generalize Module.magic ++ Module.version ++ [1, 7, 1, 0x60, 2, 0x7f, 0x7f, 1, 0x7f] ++
    [3, 2, 1, 0] ++ [10, 9, 1, 7, 0, 0x20, 0, 0x20, 1, 0x6a, 0x0b] = source at hm
  obtain ⟨s, hs⟩ := Session.exists_load hm rfl (by
    simp only [List.forall_mem_cons]
    exact ⟨Function.exists_compile (n := 4) (by decide), nofun⟩)
  obtain ⟨m, fs, hm', hfs, hoffers⟩ := Session.exists_offers_of_load hs
  cases hm.symm.trans hm'
  cases hfs
  have hexecute : s.execute 0 16 1 = .ok 17 :=
    Except.mapError_eq_ok.mp ((hoffers.execute_eq 0 16 1).1.trans rfl)
  -- what is asked for, and that it can be undertaken
  have hrequests : Requests ["run", "--func", "0", "add.wasm", "0x10", "1"]
      ⟨"", "add.wasm", .run 0 16 1⟩ :=
    .run (o := ⟨"", 0, false⟩) ⟨.default, (Options.reads_iff (by decide)).mpr rfl, rfl⟩
      ((Options.reads_iff (by decide)).mpr rfl) rfl (by decide) (by decide)
  have hcontract := (exit_codes ⟨"", ""⟩ (fun _ => .ok source) _).1.mpr hrequests.not_unreadable
  have hundertakes : Undertakes (fun _ => .ok source)
      ["run", "--func", "0", "add.wasm", "0x10", "1"] ⟨"", "add.wasm", .run 0 16 1⟩ source :=
    ⟨hrequests, ⟨.default, ⟨.info, .console⟩, .inl ⟨rfl, rfl⟩, by decide⟩, rfl⟩
  have hsucceeds : ¬ Fails source (.run 0 16 1) := by
    rintro (⟨e, he⟩ | ⟨s', e, hs', he⟩)
    · cases hs.symm.trans he
    · cases hs.symm.trans hs'
      cases hexecute.symm.trans he
  have hcode := hcontract.succeeded.mpr (.inr ⟨_, source, hundertakes, hsucceeds⟩)
  obtain ⟨source', hsource, s', v, hs', hv, hout⟩ := hcontract.printed _ hrequests hcode
  cases hsource
  cases hs.symm.trans hs'
  cases hexecute.symm.trans hv
  exact ⟨source, rfl, hcontract, hout.trans (by decide)⟩

/-- An option that the program does not have ends as if a module had failed. -/
theorem undefined_option_breaks_contract :
    (outcome ⟨"", ""⟩ (fun _ => .error .notFound) ["-x"]).exitCode = 2 ∧
      (¬ ∃ r, Requests ["-x"] r) ∧
      ¬ Contract (fun _ => .error .notFound) ["-x"]
        (outcome ⟨"", ""⟩ (fun _ => .error .notFound) ["-x"]) := by
  have hcode : (outcome ⟨"", ""⟩ (fun _ => .error .notFound) ["-x"]).exitCode = 2 := by decide
  refine ⟨hcode, ?_, fun hcontract => ?_⟩
  · rintro ⟨r, hrequests⟩
    cases (Request.parse_of_requests hrequests).symm.trans rfl
  · obtain ⟨r, source, hundertakes, -⟩ := hcontract.failed.mp hcode
    cases hundertakes.readable

end CommandLine

end WasmJit
