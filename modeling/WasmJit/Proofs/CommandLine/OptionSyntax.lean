import Mathlib.Data.List.TakeWhile
import WasmJit.CommandLine.Options

/-!
# The syntax of options

Options stand in front of the operands of a command: `-name=value`, `-name value` or, for a switch,
`-name` alone, with one dash or two. They end at the first argument that does not start with a dash,
at a single dash, or after `--`; what follows are the operands. Where an option is given more than
once, the last value counts.

`Options.Reads` says this without a reader, and `Options.reads_iff` that reading accepts exactly
these arguments. What is refused is then everything else; `Options.asksForHelp_iff` singles out one
reason, the option `-help` that no command has.

Reading takes one option after the other off the arguments (`Options.parseOnto_written`), until none
is left that can be taken (`Options.Stuck`), and then one look at the next argument decides
(`Options.parseOnto_of_stuck`).
-/

namespace WasmJit

namespace Options

/-! ### The grammar -/

/-- What announces an option. -/
def dashes : List String := ["-", "--"]

/-- **An argument spells an option**: dashes, a name, and perhaps a value after an equals sign. -/
def Spells (name : String) (value : Option String) (argument : String) : Prop :=
  ∃ dash ∈ dashes, argument = dash ++ name ++ (value.map ("=" ++ ·)).getD ""

/-- **An option as it is written.** A switch that stands alone is turned on. -/
inductive Written : Flag → String → List String → Prop where
  | joined {flag : Flag} {value argument : String}
      (spelled : Spells flag.name (some value) argument) : Written flag value [argument]
  | apart {flag : Flag} {value argument : String} (takesValue : flag ≠ .help)
      (spelled : Spells flag.name none argument) : Written flag value [argument, value]
  | alone {argument : String} (spelled : Spells Flag.help.name none argument) :
      Written .help "true" [argument]

/-- Options one after the other. -/
inductive Words : List (Flag × String) → List String → Prop where
  | nil : Words [] []
  | cons {flag : Flag} {value : String} {given : List (Flag × String)} {first rest : List String}
      (head : Written flag value first) (tail : Words given rest) :
      Words ((flag, value) :: given) (first ++ rest)

/-- An argument that does not start with a dash, or is nothing but a dash. -/
def IsOperand (argument : String) : Prop :=
  argument = "-" ∨ argument.toList.head? ≠ some '-'

/-- **The end of the options**, and the operands after it. -/
inductive Ends : (args operands : List String) → Prop where
  | nothing : Ends [] []
  | operand {first : String} {rest : List String} (isOperand : IsOperand first) :
      Ends (first :: rest) (first :: rest)
  | terminator {rest : List String} : Ends ("--" :: rest) rest

/-- Whether a text is a value for an option. -/
def Accepts : Flag → String → Prop
  | .config, _ => True
  | .func, value => ∃ n, UnsignedLiteral.parse 32 value = .ok n
  | .help, value => ∃ b, boolean? value = some b

/-- The values of the options after one of them was given. -/
def assign (o : Options) : Flag × String → Options
  | (.config, value) => { o with config := value }
  | (.func, value) => { o with func := (UnsignedLiteral.parse 32 value).toOption.getD o.func }
  | (.help, value) => { o with help := (boolean? value).getD o.help }

/-- The options that are given are known, and their values are accepted. -/
def Valid (known : List Flag) (given : List (Flag × String)) : Prop :=
  ∀ g ∈ given, g.1 ∈ known ∧ Accepts g.1 g.2

/-- **Arguments with the options `o`**: valid ones, and then the operands. -/
def Reads (known : List Flag) (args : List String) (o : Options) (operands : List String) : Prop :=
  ∃ given words tail, args = words ++ tail ∧ Words given words ∧ Valid known given ∧
    Ends tail operands ∧ o = given.foldl assign default

/-- **Arguments that ask for help** by an option that is not known, after valid ones. -/
def AsksForHelp (known : List Flag) (args : List String) : Prop :=
  ∃ given words argument value rest, args = words ++ argument :: rest ∧ Words given words ∧
    Valid known given ∧ Spells "help" value argument

/-- No valid option can be taken off the arguments. -/
def Stuck (known : List Flag) (args : List String) : Prop :=
  ∀ flag value words rest, flag ∈ known → Accepts flag value → Written flag value words →
    args ≠ words ++ rest

/-! ### Arguments one at a time -/

/-- Whether a text can be the name of an option. -/
def IsName (name : String) : Prop :=
  '=' ∉ name.toList ∧ ∃ c cs, name.toList = c :: cs ∧ c ≠ '-'

variable {name argument value : String} {value? : Option String} {flag : Flag} {known : List Flag}
  {given : List (Flag × String)} {o o' : Options} {args words operands tail rest : List String}

/-- The known options have such names. -/
theorem isName_name (flag : Flag) : IsName flag.name := by
  cases flag <;> exact ⟨by decide, _, _, rfl, by decide⟩

theorem isName_help : IsName "help" :=
  ⟨by decide, _, _, rfl, by decide⟩

/-- The characters after a name. -/
def valueChars (value : Option String) : List Char :=
  (value.map fun v => '=' :: v.toList).getD []

/-- What is left of characters from the first equals sign on is a value, or nothing. -/
theorem valueChars_dropWhile (cs : List Char) :
    valueChars (match cs.dropWhile fun x => decide (x ≠ '=') with
      | [] => none
      | _ :: value => some (String.ofList value)) = cs.dropWhile fun x => decide (x ≠ '=') := by
  cases hrest : cs.dropWhile fun x => decide (x ≠ '=') with
  | nil => rfl
  | cons d value =>
    have hd := List.head?_dropWhile_not (fun x => decide (x ≠ '=')) cs
    rw [hrest] at hd
    have hd : d = '=' := by simpa using hd
    simp [valueChars, hd]

/-- After the dashes there are a name, up to the first equals sign, and a value. The value may have
equals signs of its own. -/
theorem splitValue_eq_named_iff {cs : List Char} :
    splitValue cs = .named name value? ↔ IsName name ∧ cs = name.toList ++ valueChars value? := by
  constructor
  -- what is cut off at the first equals sign is a name, and the rest a value
  · intro h
    cases cs with
    | nil => cases h
    | cons c cs =>
      rw [splitValue] at h
      split at h
      · cases h
      · next hc =>
        simp only [Bool.or_eq_true, decide_eq_true_eq, not_or] at hc
        have hhead : (c :: cs).takeWhile (fun x => decide (x ≠ '=')) =
            c :: cs.takeWhile fun x => decide (x ≠ '=') :=
          List.takeWhile_cons_of_pos (by simpa using hc.2)
        cases h
        rw [IsName, String.toList_ofList]
        refine ⟨⟨fun hmem => ?_, c, _, hhead, hc.1⟩, ?_⟩
        · simpa using List.mem_takeWhile_imp hmem
        · exact List.takeWhile_append_dropWhile.symm.trans
            (congrArg (_ ++ ·) (valueChars_dropWhile (c :: cs)).symm)
  · rintro ⟨⟨hnot, c, cs', hname, hdash⟩, rfl⟩
    have hall : ∀ x ∈ name.toList, decide (x ≠ '=') = true := by
      intro x hx
      rw [decide_eq_true_eq]
      rintro rfl
      exact hnot hx
    -- the name has no equals sign, so the first one, if any, is that in front of the value
    have hc : c ≠ '=' := by
      rintro rfl
      exact hnot (hname ▸ List.mem_cons_self)
    have htake : (name.toList ++ valueChars value?).takeWhile (fun x => decide (x ≠ '=')) =
        name.toList := by
      rw [List.takeWhile_append_of_pos hall]
      cases value? <;> simp [valueChars]
    have hdrop : (name.toList ++ valueChars value?).dropWhile (fun x => decide (x ≠ '=')) =
        valueChars value? := by
      rw [List.dropWhile_append_of_pos hall]
      cases value? <;> simp [valueChars]
    have hcons : name.toList ++ valueChars value? = c :: (cs' ++ valueChars value?) := by
      rw [hname]
      rfl
    rw [hcons] at htake hdrop ⊢
    rw [splitValue, if_neg (by simp [hdash, hc])]
    simp only [htake, hdrop, String.ofList_toList]
    cases value? <;> simp [valueChars]

/-- **The shape of an option** is how it is spelled. Strings are compared by their characters. -/
theorem shape_eq_named_iff :
    shape argument = .named name value? ↔ IsName name ∧ Spells name value? argument := by
  have hchars : (argument = "-" ++ name ++ (value?.map ("=" ++ ·)).getD "" ↔
        argument.toList = '-' :: (name.toList ++ valueChars value?)) ∧
      (argument = "--" ++ name ++ (value?.map ("=" ++ ·)).getD "" ↔
        argument.toList = '-' :: '-' :: (name.toList ++ valueChars value?)) := by
    rw [← String.toList_inj, ← String.toList_inj]
    cases value? <;> simp [valueChars]
  have hspells : Spells name value? argument ↔
      argument.toList = '-' :: (name.toList ++ valueChars value?) ∨
        argument.toList = '-' :: '-' :: (name.toList ++ valueChars value?) := by
    rw [← hchars.1, ← hchars.2]
    simp [Spells, dashes]
  rw [hspells, shape]
  constructor
  · intro h
    split at h
    · cases h
    · next heq =>
      obtain ⟨hname, rfl⟩ := splitValue_eq_named_iff.mp h
      exact ⟨hname, .inr heq⟩
    · next heq =>
      obtain ⟨hname, hcs⟩ := splitValue_eq_named_iff.mp h
      exact ⟨hname, .inl (heq.trans (congrArg _ hcs))⟩
    · cases h
  · rintro ⟨hname, heq⟩
    have hsplit : splitValue (name.toList ++ valueChars value?) = .named name value? :=
      splitValue_eq_named_iff.mpr ⟨hname, rfl⟩
    obtain ⟨-, c, cs, hcons, hdash⟩ := hname
    rw [hcons, List.cons_append] at heq hsplit
    -- a name does not start with a dash, so it is clear how many dashes there are
    rcases heq with heq | heq <;> rw [heq]
    · simp [hdash, hsplit]
    · simp [hsplit]

theorem shape_of_spells (hname : IsName name) (h : Spells name value? argument) :
    shape argument = .named name value? :=
  shape_eq_named_iff.mpr ⟨hname, h⟩

/-- After its dashes, an argument has a name or lacks one. -/
theorem splitValue_cases (cs : List Char) :
    splitValue cs = .nameless ∨ ∃ name value?, splitValue cs = .named name value? := by
  unfold splitValue
  split
  · exact .inl rfl
  · split
    · exact .inl rfl
    · exact .inr ⟨_, _, rfl⟩

/-- After its dashes, an argument is no operand. -/
theorem splitValue_ne_other (cs : List Char) : splitValue cs ≠ .other := by
  rcases splitValue_cases cs with h | ⟨_, _, h⟩ <;> rw [h] <;> exact nofun

theorem splitValue_ne_terminator (cs : List Char) : splitValue cs ≠ .terminator := by
  rcases splitValue_cases cs with h | ⟨_, _, h⟩ <;> rw [h] <;> exact nofun

/-- What does not look like an option is an operand: it has no dash in front, or nothing after it.
-/
theorem shape_eq_other_iff : shape argument = .other ↔ IsOperand argument := by
  have hdash : argument = "-" ↔ argument.toList = ['-'] := by
    rw [← String.toList_inj]
    rfl
  rw [shape, IsOperand, hdash]
  split
  · next h => simp [h]
  · next h => simp [h, splitValue_ne_other]
  · next h => simp [h, splitValue_ne_other]
  · next hnot =>
    -- no two characters of which the first is a dash
    refine iff_of_true rfl ?_
    cases hchars : argument.toList with
    | nil => exact .inr nofun
    | cons c cs =>
      by_cases hc : c = '-'
      · subst hc
        cases cs with
        | nil => exact .inl rfl
        | cons d cs => exact absurd hchars (hnot d cs)
      · exact .inr (by simpa using hc)

/-- Only `--` ends the options. -/
theorem shape_eq_terminator_iff : shape argument = .terminator ↔ argument = "--" := by
  have hdashes : argument = "--" ↔ argument.toList = ['-', '-'] := by
    rw [← String.toList_inj]
    rfl
  rw [hdashes, shape]
  split
  · next h => simp [h]
  · next hnot h => simpa [h, splitValue_ne_terminator] using hnot
  · next hnot _ h => simpa [h, splitValue_ne_terminator] using hnot
  · next hnot _ _ => simpa using hnot

/-! ### One option at a time -/

/-- No two options have the same name. -/
theorem name_injective {flag flag' : Flag} (h : flag.name = flag'.name) : flag = flag' := by
  cases flag <;> cases flag' <;> simp_all [Flag.name]

/-- So a known option is found by its name. -/
theorem find?_name (h : flag ∈ known) : known.find? (·.name = flag.name) = some flag := by
  have hsome : (known.find? (·.name = flag.name)).isSome :=
    List.find?_isSome.mpr ⟨flag, h, by simp⟩
  obtain ⟨flag', hflag'⟩ := Option.isSome_iff_exists.mp hsome
  have hname : flag'.name = flag.name := by simpa using List.find?_some hflag'
  rw [hflag', name_injective hname]

/-- A value that is accepted is assigned, as the grammar says. -/
theorem set_of_accepts (h : Accepts flag value) :
    o.set value flag = .ok (o.assign (flag, value)) := by
  cases flag with
  | config => rfl
  | func =>
    obtain ⟨n, hn⟩ := h
    simp [set, assign, hn, Except.toOption]
  | help =>
    obtain ⟨b, hb⟩ := h
    simp [set, assign, hb]

/-- A value that is not accepted is refused, and not because help was asked for. -/
theorem set_of_not_accepts (h : ¬ Accepts flag value) :
    ∃ e, o.set value flag = .error e ∧ e ≠ .helpRequested := by
  -- any text is a path, so only the other two can be refused
  cases flag with
  | config => exact absurd trivial h
  | func =>
    cases hn : UnsignedLiteral.parse 32 value with
    | ok n => exact absurd ⟨n, hn⟩ h
    | error fault => exact ⟨.invalidNumber .func value fault, by rw [set, hn], nofun⟩
  | help =>
    cases hb : boolean? value with
    | some b => exact absurd ⟨b, hb⟩ h
    | none => exact ⟨.invalidBoolean .help value, by rw [set, hb], nofun⟩

/-- **An option is taken off**, in any of the ways to write it: its value is set, and the arguments
after it are read. Whether the value is accepted does not matter yet. -/
theorem parseOnto_written (hknown : flag ∈ known) (h : Written flag value words)
    (rest : List String) :
    parseOnto known o (words ++ rest) = o.set value flag >>= (parseOnto known · rest) := by
  cases h with
  | joined spelled =>
    rw [List.singleton_append, parseOnto, shape_of_spells (isName_name flag) spelled]
    simp only [find?_name hknown]
  | apart takesValue spelled =>
    rw [List.cons_append, List.singleton_append, parseOnto,
      shape_of_spells (isName_name flag) spelled]
    -- `takesValue` rules out the case of the switch
    simp only [find?_name hknown]
  | alone spelled =>
    rw [List.singleton_append, parseOnto, shape_of_spells (isName_name .help) spelled]
    simp only [find?_name hknown]

/-- An argument that spells an option has its value with it, or there is no argument left. -/
theorem exists_written_or_missing (h : Spells flag.name value? argument) (rest : List String) :
    (∃ value words rest', argument :: rest = words ++ rest' ∧ Written flag value words) ∨
      value? = none ∧ flag ≠ .help ∧ rest = [] := by
  cases value? with
  | some value => exact .inl ⟨value, [argument], rest, rfl, .joined h⟩
  | none =>
    -- without an equals sign, a switch stands alone and any other option takes the next argument
    by_cases hswitch : flag = .help
    · subst hswitch
      exact .inl ⟨"true", [argument], rest, rfl, .alone h⟩
    · cases rest with
      | nil => exact .inr ⟨rfl, hswitch, rfl⟩
      | cons value rest => exact .inl ⟨value, [argument, value], rest, rfl, .apart hswitch h⟩

/-- An option that needs a value is refused as the last argument. -/
theorem parseOnto_missing (hknown : flag ∈ known) (hvalue : flag ≠ .help)
    (h : Spells flag.name none argument) :
    parseOnto known o [argument] = .error (.missingValue flag) := by
  rw [parseOnto, shape_of_spells (isName_name flag) h]
  simp only [find?_name hknown]

/-- Options one after the other are taken off. By induction on the options, which are assigned from
left to right, so that the last value counts. -/
theorem parseOnto_words (h : Words given words) (hvalid : Valid known given) (rest : List String) :
    parseOnto known o (words ++ rest) = parseOnto known (given.foldl assign o) rest := by
  induction h generalizing o with
  | nil => rfl
  | @cons flag value given first others head tail ih =>
    obtain ⟨⟨hknown, haccepts⟩, hvalid⟩ := List.forall_mem_cons.mp hvalid
    rw [List.append_assoc, parseOnto_written hknown head, set_of_accepts haccepts]
    exact ih hvalid

/-- The end of the options is recognised, and the operands after it are not looked at. -/
theorem parseOnto_of_ends (h : Ends tail operands) :
    parseOnto known o tail = .ok (o, operands) := by
  cases h with
  | nothing => rfl
  | operand isOperand => rw [parseOnto, shape_eq_other_iff.mpr isOperand]
  | terminator => rw [parseOnto, shape_eq_terminator_iff.mpr rfl]

/-- No option is called `help`, so it asks for help. -/
theorem parseOnto_of_help (h : Spells "help" value? argument) (rest : List String) :
    parseOnto known o (argument :: rest) = .error .helpRequested := by
  have hnone : known.find? (·.name = "help") = none := by
    refine List.find?_eq_none.mpr fun flag _ => ?_
    cases flag <;> decide
  rw [parseOnto, shape_of_spells isName_help h]
  simp only [hnone]
  rfl

/-! ### All options -/

theorem Written.length_pos (h : Written flag value words) : 0 < words.length := by
  cases h <;> simp

/-- Valid options can be taken off until none is left. By recursion on the number of arguments, of
which each option takes at least one. -/
theorem exists_words (known : List Flag) (args : List String) :
    ∃ given words tail, args = words ++ tail ∧ Words given words ∧ Valid known given ∧
      Stuck known tail := by
  by_cases hstuck : Stuck known args
  · exact ⟨[], [], args, rfl, .nil, nofun, hstuck⟩
  · simp only [Stuck, not_forall, not_not] at hstuck
    obtain ⟨flag, value, first, rest, hknown, haccepts, hfirst, hargs⟩ := hstuck
    -- fewer arguments are left, so the recursion ends
    have hlt : rest.length < args.length := by
      have hpos := hfirst.length_pos
      rw [hargs, List.length_append]
      omega
    obtain ⟨given, words, tail, hrest, hwords, hvalid, hstuck⟩ := exists_words known rest
    refine ⟨(flag, value) :: given, first ++ words, tail, ?_, .cons hfirst hwords, ?_, hstuck⟩
    · rw [hargs, hrest, List.append_assoc]
    · exact List.forall_mem_cons.mpr ⟨⟨hknown, haccepts⟩, hvalid⟩
termination_by args.length

/-- **Where no valid option is left**, the options end, help is asked for, or something else is
wrong with the next argument. By cases on its shape. -/
theorem parseOnto_of_stuck (hhelp : .help ∈ known) (h : Stuck known tail) :
    (∃ operands, Ends tail operands) ∨
      (∃ argument rest value?, tail = argument :: rest ∧ Spells "help" value? argument) ∨
      ∀ o, ∃ e, parseOnto known o tail = .error e ∧ e ≠ .helpRequested := by
  cases tail with
  | nil => exact .inl ⟨[], .nothing⟩
  | cons argument rest =>
    cases hshape : shape argument with
    | other => exact .inl ⟨_, .operand (shape_eq_other_iff.mp hshape)⟩
    | terminator =>
      cases shape_eq_terminator_iff.mp hshape
      exact .inl ⟨rest, .terminator⟩
    | nameless => exact .inr (.inr fun o => ⟨.badSyntax argument, by rw [parseOnto, hshape], nofun⟩)
    | named name value? =>
      obtain ⟨-, hspells⟩ := shape_eq_named_iff.mp hshape
      cases hfind : known.find? (·.name = name) with
      | none =>
        by_cases hname : name = "help"
        · subst hname
          exact .inr (.inl ⟨argument, rest, value?, rfl, hspells⟩)
        -- the switch is known, so this name is not a question for help either
        · have hswitch : name ≠ "h" := by
            rintro rfl
            exact List.find?_eq_none.mp hfind .help hhelp rfl
          refine .inr (.inr fun o => ⟨.undefined name, ?_, nofun⟩)
          rw [parseOnto, hshape]
          simp [hfind, unknown, hname, hswitch]
      | some flag =>
        have hknown : flag ∈ known := List.mem_of_find?_eq_some hfind
        obtain rfl : flag.name = name := by simpa using List.find?_some hfind
        -- a known option is left because there is no value for it, or a wrong one
        refine .inr (.inr fun o => ?_)
        rcases exists_written_or_missing hspells rest with
          ⟨value, words, rest', hargs, hwritten⟩ | ⟨rfl, hvalue, rfl⟩
        · have hwrong : ¬ Accepts flag value := fun haccepts =>
            h flag value words rest' hknown haccepts hwritten hargs
          obtain ⟨e, he, hne⟩ := set_of_not_accepts (o := o) hwrong
          refine ⟨e, ?_, hne⟩
          rw [hargs, parseOnto_written hknown hwritten, he]
          rfl
        · exact ⟨.missingValue flag, parseOnto_missing hknown hvalue hspells, nofun⟩

/-- **Reading accepts exactly the grammar.** In one direction the options are taken off as they are
written; in the other, those that can be taken off are, and what is left decides. -/
theorem reads_iff (hhelp : .help ∈ known) :
    Reads known args o operands ↔ parse known args = .ok (o, operands) := by
  constructor
  · rintro ⟨given, words, tail, rfl, hwords, hvalid, hends, rfl⟩
    rw [parse, parseOnto_words hwords hvalid, parseOnto_of_ends hends]
  · intro h
    obtain ⟨given, words, tail, rfl, hwords, hvalid, hstuck⟩ := exists_words known args
    rw [parse, parseOnto_words hwords hvalid] at h
    -- of the three ways to get stuck, only the end of the options is accepted
    rcases parseOnto_of_stuck hhelp hstuck with ⟨operands', hends⟩ | ⟨_, _, _, rfl, hasks⟩ | herror
    · rw [parseOnto_of_ends hends] at h
      cases h
      exact ⟨given, words, tail, rfl, hwords, hvalid, hends, rfl⟩
    · rw [parseOnto_of_help hasks] at h
      cases h
    · obtain ⟨e, he, -⟩ := herror (given.foldl assign default)
      cases he.symm.trans h

/-- **Help is asked for** by the unknown option and by nothing else. The argument is that of
`reads_iff`, for another of the three ways to get stuck. -/
theorem asksForHelp_iff (hhelp : .help ∈ known) :
    AsksForHelp known args ↔ parse known args = .error .helpRequested := by
  constructor
  · rintro ⟨given, words, argument, value?, rest, rfl, hwords, hvalid, hasks⟩
    rw [parse, parseOnto_words hwords hvalid, parseOnto_of_help hasks]
  · intro h
    obtain ⟨given, words, tail, rfl, hwords, hvalid, hstuck⟩ := exists_words known args
    rw [parse, parseOnto_words hwords hvalid] at h
    -- and only the unknown option asks for help
    rcases parseOnto_of_stuck hhelp hstuck with ⟨operands, hends⟩ |
      ⟨argument, rest, value?, rfl, hasks⟩ | herror
    · rw [parseOnto_of_ends hends] at h
      cases h
    · exact ⟨given, words, argument, value?, rest, rfl, hwords, hvalid, hasks⟩
    · obtain ⟨e, he, hne⟩ := herror (given.foldl assign default)
      cases he.symm.trans h
      exact absurd rfl hne

end Options

end WasmJit
