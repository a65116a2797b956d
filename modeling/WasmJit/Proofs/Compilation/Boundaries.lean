import Mathlib.Data.List.Infix
import WasmJit.Compilation
import WasmJit.Proofs.Format.Groups

/-!
# The boundaries of instructions

Where the instructions of a body start and end is a matter of its bytes alone. An instruction at a
position takes at least one byte, ends within the body, and depends neither on the bytes in front of
it nor on those behind it (`Instruction.fetch_eq_ok_iff`). So walking through a body from position
to position comes to an end, and written instructions are found again where they were put.

* `Disassembly.walk` goes from position to position, and is what `disassemble` computes.
* `Compilation.walk` does the same with a compilation in hand, checks at every position whether the
  function has ended already, and stops at the first instruction that is refused. Its outcome is
  that of `Compilation.body`, and it stops at no other positions than `Disassembly.walk`.
* `Instruction.streams_disassemble_uniquely` puts these together.
-/

namespace WasmJit

namespace Instruction

/-- An instruction takes at least one byte and ends within the body. Walking goes forward by the
first, and stops by the second. -/
theorem bounds_of_fetch {body : List UInt8} {pc n : Nat} {i : Instruction}
    (h : fetch body pc = .ok (i, n)) : 1 ≤ n ∧ pc + n ≤ body.length := by
  obtain ⟨before, word, after, rfl, rfl, rfl, hspelled⟩ := fetch_eq_ok_iff.mp h
  have hpos := hspelled.length_pos
  rw [List.length_append, List.length_append]
  omega

/-- **The bytes around an instruction make no difference.** What counts are the bytes of its own
word, wherever they stand. -/
theorem fetch_surrounded {body : List UInt8} {pc n : Nat} {i : Instruction}
    (h : fetch body pc = .ok (i, n)) (before after : List UInt8) :
    fetch (before ++ (body.drop pc).take n ++ after) before.length = .ok (i, n) := by
  obtain ⟨before', word, after', rfl, rfl, rfl, hspelled⟩ := fetch_eq_ok_iff.mp h
  refine fetch_eq_ok_iff.mpr ⟨before, word, after, ?_, rfl, rfl, hspelled⟩
  rw [List.append_assoc before', List.drop_left, List.take_left]

/-- What cannot be decoded is reported at its position. By cases on the opcode, since each reads its
immediates in its own way. -/
theorem pc_of_decode_error {pc : Nat} {bytes : List UInt8} {e : DecodeError}
    (h : decode pc bytes = .error e) : e.pc = pc := by
  cases bytes with
  | nil =>
    cases h
    rfl
  | cons op bytes =>
    rw [decode] at h
    split at h
    · cases h
      rfl
    · next k _ =>
      -- every reader of immediates reports the position it was given
      cases k with
      | localGet | br | brIf =>
        rw [readImmediate, readIndex] at h
        split at h
        · cases h
          rfl
        · cases h
      | block | if_ =>
        rw [readImmediate, readBlockType] at h
        cases hread : BlockType.read bytes with
        | error cause =>
          rw [hread] at h
          cases h
          rfl
        | ok result =>
          rw [hread] at h
          cases h
      | _ => cases h

end Instruction

/-! ### Walking through a body -/

namespace Disassembly

open Instruction (fetch bounds_of_fetch)

variable {body : List UInt8} {pc : Nat}

/-- **Walks through a body** from position `pc` on: the next instruction starts where the one before
it ends. -/
def walk (body : List UInt8) (pc : Nat) : Disassembly :=
  if pc < body.length then
    match h : fetch body pc with
    | .error e => ⟨[], some e⟩
    | .ok (i, size) =>
      -- the walk ends, since it goes forward and stays within the body
      have := bounds_of_fetch h
      let tail := walk body (pc + size)
      ⟨⟨pc, i, size⟩ :: tail.instructions, tail.fault⟩
  else ⟨[], none⟩
termination_by body.length - pc

/-- At the end of the body there is nothing left to decode. -/
theorem walk_of_length_le (h : body.length ≤ pc) : walk body pc = ⟨[], none⟩ := by
  rw [walk, if_neg (Nat.not_lt.mpr h)]

/-- What cannot be decoded ends the walk. -/
theorem walk_of_error {e : Instruction.DecodeError} (hpc : pc < body.length)
    (h : fetch body pc = .error e) : walk body pc = ⟨[], some e⟩ := by
  rw [walk, if_pos hpc]
  split
  · next e' he =>
    cases h.symm.trans he
    rfl
  · next hok => cases h.symm.trans hok

/-- The instruction at a position comes first, and the walk goes on behind it. From here on `walk`
is not unfolded any more. -/
theorem walk_of_ok {i : Instruction} {size : Nat} (h : fetch body pc = .ok (i, size)) :
    walk body pc =
      ⟨⟨pc, i, size⟩ :: (walk body (pc + size)).instructions, (walk body (pc + size)).fault⟩ := by
  have hbounds := bounds_of_fetch h
  rw [walk, if_pos (by omega)]
  split
  · next he => cases h.symm.trans he
  · next hok =>
    cases h.symm.trans hok
    rfl

/-- Decoding what is left of a body is walking on from its position. By induction on the fuel, of
which each instruction uses one; as it takes at least one byte, the length of what is left is
enough. -/
theorem scan_eq_walk {fuel : Nat} (hfuel : body.length - pc ≤ fuel) :
    scan fuel pc (body.drop pc) = walk body pc := by
  induction fuel generalizing pc with
  | zero =>
    have hle : body.length ≤ pc := by omega
    rw [walk_of_length_le hle, List.drop_eq_nil_of_le hle]
    rfl
  | succ fuel ih =>
    by_cases hpc : pc < body.length
    · cases hfetch : fetch body pc with
      | error e =>
        have hdecode : Instruction.decode pc (body.drop pc) = .error e :=
          Instruction.fetch_eq_error_iff.mp hfetch
        rw [walk_of_error hpc hfetch]
        rw [List.drop_eq_getElem_cons hpc] at hdecode ⊢
        simp only [scan, hdecode]
      | ok result =>
        obtain ⟨i, size⟩ := result
        have hbounds := bounds_of_fetch hfetch
        have htail : scan fuel (pc + size) (body.drop (pc + size)) = walk body (pc + size) :=
          ih (by omega)
        rw [walk_of_ok hfetch, ← htail]
        -- the instruction stands at the head of what is left
        obtain ⟨before, word, after, rfl, rfl, rfl, hspelled⟩ :=
          Instruction.fetch_eq_ok_iff.mp hfetch
        have hdrop : (before ++ word ++ after).drop before.length = word ++ after := by
          rw [List.append_assoc, List.drop_left]
        have hdrop' : (before ++ word ++ after).drop (before.length + word.length) = after := by
          rw [← List.length_append, List.drop_left]
        rw [hdrop, hdrop', scan_append hspelled]
    · have hle : body.length ≤ pc := Nat.not_lt.mp hpc
      rw [walk_of_length_le hle, List.drop_eq_nil_of_le hle]
      rfl

/-- **A body is decoded** by walking through it from its start. -/
theorem disassemble_eq_walk (body : List UInt8) : disassemble body = walk body 0 :=
  scan_eq_walk (Nat.le_refl _)

end Disassembly

/-! ### Written instructions -/

/-- **An instruction and the word that writes it**, with its index in any allowed form. -/
@[ext]
structure WrittenInstruction where
  instruction : Instruction
  word : List UInt8
  written : Instruction.Written word instruction

namespace WrittenInstruction

/-- The words of instructions, one after the other. -/
def bytes (is : List WrittenInstruction) : List UInt8 :=
  is.flatMap (·.word)

/-- Where instructions stand whose words come one after the other from position `pc` on. -/
def locate : (pc : Nat) → List WrittenInstruction → List Located
  | _, [] => []
  | pc, i :: is => ⟨pc, i.instruction, i.word.length⟩ :: locate (pc + i.word.length) is

/-- The first word comes first. -/
theorem bytes_cons (i : WrittenInstruction) (is : List WrittenInstruction) :
    bytes (i :: is) = i.word ++ bytes is :=
  List.flatMap_cons

/-- A word has at least one byte, so instructions are never written with none. -/
theorem bytes_cons_ne_nil (i : WrittenInstruction) (is : List WrittenInstruction) :
    bytes (i :: is) ≠ [] := by
  have hpos := i.written.spelled.length_pos
  rw [bytes_cons]
  exact List.append_ne_nil_of_left_ne_nil (List.length_pos_iff.mp hpos) _

theorem map_instruction_locate (pc : Nat) (is : List WrittenInstruction) :
    (locate pc is).map (·.instruction) = is.map (·.instruction) := by
  induction is generalizing pc with
  | nil => rfl
  | cons i is ih => exact congrArg (i.instruction :: ·) (ih _)

/-- The size of an instruction is the length of its word. -/
theorem map_size_locate (pc : Nat) (is : List WrittenInstruction) :
    (locate pc is).map (·.size) = is.map (·.word.length) := by
  induction is generalizing pc with
  | nil => rfl
  | cons i is ih => exact congrArg (i.word.length :: ·) (ih _)

theorem length_bytes (is : List WrittenInstruction) :
    (bytes is).length = (is.map (·.word.length)).sum :=
  List.length_flatMap

/-- Walking through written instructions, behind any bytes, finds all of them. By induction on the
instructions. -/
theorem walk_bytes (is : List WrittenInstruction) (before : List UInt8) :
    Disassembly.walk (before ++ bytes is) before.length = ⟨locate before.length is, none⟩ := by
  -- the instructions that were walked through go to the bytes in front
  induction is generalizing before with
  | nil => exact Disassembly.walk_of_length_le (by simp [bytes])
  | cons i is ih =>
    have hsplit : before ++ bytes (i :: is) = before ++ i.word ++ bytes is := by
      rw [bytes_cons, List.append_assoc]
    have hfetch : Instruction.fetch (before ++ i.word ++ bytes is) before.length =
        .ok (i.instruction, i.word.length) :=
      Instruction.fetch_eq_ok_iff.mpr ⟨before, i.word, bytes is, rfl, rfl, rfl, i.written.spelled⟩
    have htail := ih (before ++ i.word)
    rw [List.length_append] at htail
    rw [hsplit, Disassembly.walk_of_ok hfetch, htail]
    rfl

/-- A written instruction is decoded from the head of any bytes, and leaves the rest of them. -/
theorem decode_word (i : WrittenInstruction) (rest : List UInt8) :
    Instruction.decode 0 (i.word ++ rest) = .ok (i.instruction, rest) :=
  (Instruction.readBy_decode 0 _ _ _).mpr ⟨i.word, rfl, i.written.spelled⟩

/-- No bytes write two different lists of instructions: decoding gives the first instruction and the
bytes behind it, and so by induction all of them. -/
theorem bytes_injective {is is' : List WrittenInstruction} (h : bytes is = bytes is') :
    is = is' := by
  induction is generalizing is' with
  | nil =>
    cases is' with
    | nil => rfl
    | cons i' is' => exact absurd h.symm (bytes_cons_ne_nil i' is')
  | cons i is ih =>
    cases is' with
    | nil => exact absurd h (bytes_cons_ne_nil i is)
    | cons i' is' =>
      rw [bytes_cons, bytes_cons] at h
      -- each of the first words is what is decoded first
      have hdecode := i.decode_word (bytes is)
      rw [h, i'.decode_word] at hdecode
      obtain ⟨hinstruction, hrest⟩ := Prod.mk.inj (Except.ok.inj hdecode)
      have hword : i.word = i'.word := by
        rw [hrest] at h
        exact List.append_cancel_right h
      rw [WrittenInstruction.ext hinstruction.symm hword, ih hrest.symm]

end WrittenInstruction

/-! ### Compiling a body -/

namespace Compilation

open Instruction (fetch bounds_of_fetch)

/-- **Compiles a body from position `pc` on**, and tells which instructions were compiled. -/
def walk (body : List UInt8) (pc : Nat) (t : Compilation) :
    List Located × Except CompileError Compilation :=
  if pc < body.length then
    if t.frames.isEmpty then ([], .error (.trailing (body.length - pc)))
    else
      match h : fetch body pc with
      | .error e => ([], .error (.decode e))
      | .ok (i, size) =>
        have := bounds_of_fetch h
        match step i t with
        | .error e _ => ([⟨pc, i, size⟩], .error (.step i pc e))
        | .ok () t =>
          let tail := walk body (pc + size) t
          (⟨pc, i, size⟩ :: tail.1, tail.2)
  else ([], if t.frames.isEmpty then .ok t else .error (.unfinished t.frames.length))
termination_by body.length - pc

/-- Compiles the decoded instructions of a body of `length` bytes. -/
def conclude (length : Nat) (d : Disassembly) (t : Compilation) :
    Except CompileError Compilation := do
  let t ← d.instructions.foldlM (advance length) t
  t.close length d.fault

/-- Compiling decoded instructions, the first one first. -/
theorem conclude_cons (length : Nat) (l : Located) (d : Disassembly) (t : Compilation) :
    conclude length ⟨l :: d.instructions, d.fault⟩ t =
      (advance length t l).bind (conclude length d) := by
  rw [conclude, List.foldlM_cons]
  cases advance length t l <;> rfl

/-- **Decoding and compiling can take turns**: the outcome is that of compiling what was decoded
before, and the instructions that are compiled come first among those that are decoded. By the
recursion of `walk`, one case for each way to stop and one for going on. -/
theorem walk_spec (body : List UInt8) (pc : Nat) (t : Compilation) :
    (walk body pc t).2 = conclude body.length (Disassembly.walk body pc) t ∧
      (walk body pc t).1 <+: (Disassembly.walk body pc).instructions ∧
      ∀ t', (walk body pc t).2 = .ok t' →
        (walk body pc t).1 = (Disassembly.walk body pc).instructions := by
  fun_induction walk body pc t with
  | case1 pc t hpc hclosed =>
    -- the function has ended: whether an instruction follows makes no difference
    refine ⟨?_, List.nil_prefix, nofun⟩
    cases hfetch : fetch body pc with
    | error e =>
      have hposition : e.pc = pc :=
        Instruction.pc_of_decode_error (Instruction.fetch_eq_error_iff.mp hfetch)
      rw [Disassembly.walk_of_error hpc hfetch]
      show _ = t.close body.length (some e)
      rw [close, if_pos hclosed, hposition]
    | ok result =>
      rw [Disassembly.walk_of_ok hfetch, conclude_cons, advance, if_pos hclosed]
      rfl
  | case2 pc t hpc hopen e hfetch =>
    -- what cannot be decoded ends both walks
    refine ⟨?_, List.nil_prefix, nofun⟩
    rw [Disassembly.walk_of_error hpc hfetch]
    show _ = t.close body.length (some e)
    rw [close, if_neg hopen]
  | case3 pc t hpc hopen i size hfetch _ e t' hstep =>
    -- the instruction is refused, and the disassembler may go on
    rw [Disassembly.walk_of_ok hfetch, conclude_cons, advance, if_neg hopen, hstep]
    refine ⟨rfl, ?_, nofun⟩
    exact List.prefix_append [Located.mk pc i size] _
  | case4 pc t hpc hopen i size hfetch _ t' hstep _ ih =>
    obtain ⟨hresult, hvisited, hall⟩ := ih
    rw [Disassembly.walk_of_ok hfetch, conclude_cons, advance, if_neg hopen, hstep]
    refine ⟨hresult, ?_, fun t'' ht'' => ?_⟩
    · exact List.cons_prefix_cons.mpr ⟨rfl, hvisited⟩
    · exact congrArg (List.cons (Located.mk pc i size)) (hall t'' ht'')
  | case5 pc t hpc =>
    -- at the end of the body both walks stop
    rw [Disassembly.walk_of_length_le (Nat.not_lt.mp hpc)]
    exact ⟨rfl, List.prefix_rfl, fun _ _ => rfl⟩

/-- Compiling a body first decodes all of it. -/
theorem body_eq_conclude (f : Function) :
    Compilation.body f = conclude f.code.body.length (disassemble f.code.body) (start f) := rfl

/-- The compilation of a body stops at positions at which it is decoded, and at all of them if the
function is compiled. -/
theorem walk_start (f : Function) :
    (walk f.code.body 0 (start f)).2 = Compilation.body f ∧
      (walk f.code.body 0 (start f)).1 <+: (disassemble f.code.body).instructions ∧
      ∀ c, f.compile = .ok c →
        (walk f.code.body 0 (start f)).1 = (disassemble f.code.body).instructions := by
  obtain ⟨hresult, hvisited, hall⟩ := walk_spec f.code.body 0 (start f)
  rw [← Disassembly.disassemble_eq_walk] at hresult hvisited hall
  rw [← body_eq_conclude] at hresult
  refine ⟨hresult, hvisited, fun c hc => ?_⟩
  -- a function is only compiled if its body was
  obtain ⟨t, ht, -⟩ := Except.bind_eq_ok.mp hc
  exact hall t (hresult.trans ht)

end Compilation

/-! ### Streams of instructions -/

/-- **Instruction streams disassemble uniquely.** Written instructions, with their indices in any
allowed form, are found again by walking through their bytes, each with the size of its word; these
sizes add up to the length of the body, and the same bytes write no other instructions. Wherever an
instruction is found, it takes at least one byte of those that are there, and it is found as well
with any other bytes around it. So every walk through a body comes to an end: that of the
disassembler, and that of the compilation, which stops at the same positions. -/
theorem Instruction.streams_disassemble_uniquely :
    (∀ is : List WrittenInstruction,
      Disassembly.walk (WrittenInstruction.bytes is) 0 = ⟨WrittenInstruction.locate 0 is, none⟩ ∧
      (WrittenInstruction.locate 0 is).map (·.instruction) = is.map (·.instruction) ∧
      (WrittenInstruction.locate 0 is).map (·.size) = is.map (·.word.length) ∧
      ((WrittenInstruction.locate 0 is).map (·.size)).sum = (WrittenInstruction.bytes is).length ∧
      ∀ is', WrittenInstruction.bytes is' = WrittenInstruction.bytes is → is' = is) ∧
    (∀ body pc i n, fetch body pc = .ok (i, n) → 1 ≤ n ∧ pc + n ≤ body.length ∧
      ∀ before after,
        fetch (before ++ (body.drop pc).take n ++ after) before.length = .ok (i, n)) ∧
    (∀ body, disassemble body = Disassembly.walk body 0) ∧
    ∀ f : Function,
      (Compilation.walk f.code.body 0 (Compilation.start f)).2 = Compilation.body f ∧
      (Compilation.walk f.code.body 0 (Compilation.start f)).1 <+:
        (disassemble f.code.body).instructions ∧
      ∀ c, f.compile = .ok c →
        (Compilation.walk f.code.body 0 (Compilation.start f)).1 =
          (disassemble f.code.body).instructions := by
  refine ⟨fun is => ⟨?_, ?_, ?_, ?_, ?_⟩, fun body pc i n h => ?_, ?_, ?_⟩
  · exact WrittenInstruction.walk_bytes is []
  · exact WrittenInstruction.map_instruction_locate 0 is
  · exact WrittenInstruction.map_size_locate 0 is
  · rw [WrittenInstruction.map_size_locate, WrittenInstruction.length_bytes]
  · intro is' h
    exact WrittenInstruction.bytes_injective h
  · -- its word is one of the body's, so it has at least one byte and ends within the body
    obtain ⟨hpos, hle⟩ := bounds_of_fetch h
    exact ⟨hpos, hle, fetch_surrounded h⟩
  · exact Disassembly.disassemble_eq_walk
  · exact Compilation.walk_start

/-- A local with a padded index, and an end. -/
theorem Instruction.streams_disassemble_uniquely_padded :
    disassemble [0x20, 0x81, 0x80, 0x00, 0x0b] =
        ⟨[⟨0, .localGet 1, 4⟩, ⟨4, .end_, 1⟩], none⟩ ∧
      fetch [0x20, 0x81, 0x80, 0x00, 0x0b] 0 = .ok (.localGet 1, 4) ∧
      fetch [0x05, 0x05, 0x20, 0x81, 0x80, 0x00, 0xff] 2 = .ok (.localGet 1, 4) := by
  have hindex : Format.U32 [0x81, 0x80, 0x00] 1 := Varint.u32_iff_encodes.mpr (by decide)
  obtain ⟨hwritten, hfetch, hwalk, -⟩ := streams_disassemble_uniquely
  have hget : fetch [0x20, 0x81, 0x80, 0x00, 0x0b] 0 = .ok (.localGet 1, 4) := by decide
  refine ⟨(hwalk _).trans ?_, hget, (hfetch _ _ _ _ hget).2.2 [0x05, 0x05] [0xff]⟩
  exact (hwritten [⟨.localGet 1, 0x20 :: [0x81, 0x80, 0x00], _, rfl, hindex⟩,
    ⟨.end_, [0x0b], _, rfl, rfl⟩]).1

end WasmJit
