import WasmJit.Module.Decoding
import WasmJit.Proofs.Format.Numbers
import WasmJit.Proofs.Format.Texts

/-!
# Entries of sections

Every reader of an entry of a section accepts exactly the words of its format and leaves the bytes
after the word (`Format.ReadBy`), and so do the readers of counted and of sized contents that are
built on them.

* `FunctionType.readBy_read` and `Code.readBy_read` are the entries.
* `Module.readVector_eq_ok_iff` is the content of a section that is a counted list.
-/

namespace WasmJit

/-! ### Computations that may fail -/

namespace Except

variable {ε ε' α β : Type}

/-- **Inverting a sequence of readers.** A sequence succeeds iff both parts do. This equivalence and
the next four turn a reader that is written in steps into the conjunction of what its steps ask for,
so that no proof below unfolds the monad. -/
theorem bind_eq_ok {x : Except ε α} {f : α → Except ε β} {b : β} :
    (x >>= f) = .ok b ↔ ∃ a, x = .ok a ∧ f a = .ok b := by
  cases x with
  | error e => exact ⟨nofun, nofun⟩
  | ok a => exact ⟨fun h => ⟨a, rfl, h⟩, fun ⟨_, rfl, h⟩ => h⟩

/-- Rewording an error does not make a reading succeed or fail, so the contexts that readers add to
the errors of their parts can be dropped. -/
theorem mapError_eq_ok {x : Except ε α} {f : ε → ε'} {a : α} :
    x.mapError f = .ok a ↔ x = .ok a := by
  cases x with
  | error e => exact ⟨nofun, nofun⟩
  | ok a' => simp [Except.mapError]

/-- Mapping the result, in the form in which the readers of lists put the first entry in front of
the others. -/
theorem map_eq_ok {x : Except ε α} {f : α → β} {b : β} :
    x.map f = .ok b ↔ ∃ a, x = .ok a ∧ f a = b := by
  cases x with
  | error e => exact ⟨nofun, nofun⟩
  | ok a => simp [Except.map]

/-- A check in front of a computation, as `unless` leaves it: the check has to fail for the rest to
be reached. -/
theorem check_eq_ok {c : Prop} [Decidable c] {e : ε} {f : α → Except ε β} {x : Except ε β} {b : β} :
    (if c then throw e >>= f else x) = .ok b ↔ ¬ c ∧ x = .ok b := by
  split
  · next hc => exact ⟨nofun, fun h => absurd hc h.1⟩
  · next hc => exact ⟨fun h => ⟨hc, h⟩, fun h => h.2⟩

theorem pure_eq_ok {a b : α} : (pure a : Except ε α) = .ok b ↔ a = b :=
  Except.ok.injEq a b ▸ Iff.rfl

end Except

namespace Format

variable {ε ε' α : Type} {G : Format α} {read : List UInt8 → Except ε (α × List UInt8)}
  {bytes content rest w : List UInt8}

/-- A reader keeps its format when its errors are reworded, since the format only says what is
accepted. -/
theorem ReadBy.mapError (h : G.ReadBy read) (f : ε → ε') :
    G.ReadBy fun bytes => (read bytes).mapError f := by
  intro bytes x rest
  rw [Except.mapError_eq_ok, h]

/-- **Sized contents**: reading a size and splitting off as many bytes is to find a size, then as
many bytes as it says, then the rest. The size may be padded, so it is not determined by the
content. -/
theorem exists_sized_iff :
    (∃ n b, Varint.readU32 bytes = .ok (n, b) ∧ n.toNat ≤ b.length ∧ b.take n.toNat = content ∧
        b.drop n.toNat = rest) ↔
      ∃ size, bytes = size ++ (content ++ rest) ∧ Unsigned 32 size content.length := by
  rw [← Varint.exists_readU32_iff]
  constructor
  · rintro ⟨n, b, hread, hle, rfl, rfl⟩
    -- not more bytes are taken than there are, so the content has exactly the size
    exact ⟨n, by rwa [List.take_append_drop], by rw [List.length_take, Nat.min_eq_left hle]⟩
  · rintro ⟨n, hread, hn⟩
    refine ⟨n, content ++ rest, hread, ?_, ?_, ?_⟩
    · rw [hn, List.length_append]
      exact Nat.le_add_right _ _
    · rw [hn, List.take_left]
    · rw [hn, List.drop_left]

/-- **Counted contents**: reading a count and as many words is to find a word of a counted list,
then the rest. On the left the count decides how many words are read; on the right the words decide
the count. -/
theorem exists_counted_iff {xs : List α} :
    (∃ n b, Varint.readU32 bytes = .ok (n, b) ∧
        ∃ words, b = words ++ rest ∧ xs.length = n.toNat ∧ Sequence G words xs) ↔
      ∃ w, bytes = w ++ rest ∧ Counted G w xs := by
  constructor
  · rintro ⟨n, _, hread, words, rfl, hlength, hwords⟩
    obtain ⟨count, rfl, hcount⟩ := Varint.exists_readU32_iff.mp ⟨n, hread, hlength.symm⟩
    exact ⟨count ++ words, (List.append_assoc ..).symm, count, words, rfl, hcount, hwords⟩
  · rintro ⟨_, rfl, count, words, rfl, hcount, hwords⟩
    obtain ⟨n, hread, hn⟩ := Varint.exists_readU32_iff.mpr ⟨count, rfl, hcount⟩
    exact ⟨n, words ++ rest, List.append_assoc count words rest ▸ hread, words, rfl, hn.symm,
      hwords⟩

end Format

/-! ### Value types and signatures -/

namespace ValueType

/-- The only value type that is supported. -/
theorem check_eq_ok_iff {t : ValueType} : t.check = .ok () ↔ t = .i32 := by
  unfold check
  split
  · simp_all
  · split <;> simp_all

theorem forM_check_eq_ok_iff {ts : List ValueType} :
    ts.forM check = .ok () ↔ ∀ t ∈ ts, t = .i32 := by
  induction ts with
  | nil => exact ⟨fun _ => nofun, fun _ => rfl⟩
  | cons t ts ih =>
    -- the loop checks the first type and goes on with the others
    change (t.check >>= fun _ => ts.forM check) = .ok () ↔ _
    rw [Except.bind_eq_ok, List.forall_mem_cons, ← check_eq_ok_iff, ← ih]
    exact ⟨fun ⟨_, h⟩ => h, fun h => ⟨(), h⟩⟩

/-- A sequence of types is one byte for each of them, so that it can be split by its length alone.
This is not so for other entries, whose words have different lengths. -/
theorem sequence_iff {w : List UInt8} {ts : List ValueType} :
    Format.Sequence Written w ts ↔ w = ts.map byte ∧ ∀ t ∈ ts, t = .i32 := by
  constructor
  · intro h
    -- along the word in one direction, along the types in the other
    induction h with
    | nil => exact ⟨rfl, nofun⟩
    | cons head _ ih =>
      obtain ⟨rfl, rfl⟩ := head
      exact ⟨by rw [ih.1]; rfl, List.forall_mem_cons.mpr ⟨rfl, ih.2⟩⟩
  · rintro ⟨rfl, h⟩
    induction ts with
    | nil => exact .nil
    | cons t ts ih =>
      obtain ⟨rfl, hts⟩ := List.forall_mem_cons.mp h
      exact .cons ⟨rfl, rfl⟩ (ih hts)

/-- Splitting off `n` bytes as types: since every byte is a type, only their number can fail. -/
theorem map_byte_append_iff {n : Nat} {bytes rest : List UInt8} {ts : List ValueType}
    (hle : n ≤ bytes.length) :
    (bytes.take n).map mk = ts ∧ bytes.drop n = rest ↔
      bytes = ts.map byte ++ rest ∧ ts.length = n := by
  constructor
  · rintro ⟨rfl, rfl⟩
    refine ⟨?_, ?_⟩
    · rw [List.map_map, show byte ∘ mk = id from rfl, List.map_id, List.take_append_drop]
    · rw [List.length_map, List.length_take, Nat.min_eq_left hle]
  · rintro ⟨rfl, rfl⟩
    rw [← List.length_map (f := byte), List.take_left, List.drop_left, List.map_map,
      show mk ∘ byte = id from rfl, List.map_id]
    exact ⟨rfl, rfl⟩

/-- **Reading `n` types** accepts exactly sequences of `n` types. The reader splits off `n` bytes at
once and only then checks them, while the format goes type by type; `sequence_iff` and
`map_byte_append_iff` bring the two together. -/
theorem readMany_eq_ok_iff (n : Nat) (bytes : List UInt8) (ts : List ValueType)
    (rest : List UInt8) :
    readMany n bytes = .ok (ts, rest) ↔
      ∃ w, bytes = w ++ rest ∧ ts.length = n ∧ Format.Sequence Written w ts := by
  -- the same words, split as the reader does it
  have hwords : (∃ w, bytes = w ++ rest ∧ ts.length = n ∧ Format.Sequence Written w ts) ↔
      (bytes = ts.map byte ++ rest ∧ ts.length = n) ∧ ∀ t ∈ ts, t = .i32 := by
    simp only [sequence_iff]
    exact ⟨fun ⟨_, hbytes, hlength, hw, hall⟩ => ⟨⟨hw ▸ hbytes, hlength⟩, hall⟩,
      fun ⟨⟨hbytes, hlength⟩, hall⟩ => ⟨_, hbytes, hlength, rfl, hall⟩⟩
  rw [hwords]
  unfold readMany
  split
  · next hlt =>
    -- too few bytes are left
    refine ⟨nofun, ?_⟩
    rintro ⟨⟨rfl, rfl⟩, -⟩
    simp only [List.length_append, List.length_map] at hlt
    omega
  · next hle =>
    rw [← map_byte_append_iff (by omega)]
    dsimp only
    split
    · next e he =>
      -- enough bytes, but one of them is no supported type
      refine ⟨nofun, ?_⟩
      rintro ⟨⟨rfl, -⟩, hall⟩
      rw [forM_check_eq_ok_iff.mpr hall] at he
      cases he
    · next hok =>
      have hall := forM_check_eq_ok_iff.mp hok
      simp only [Except.ok.injEq, Prod.mk.injEq]
      exact ⟨fun h => ⟨h, h.1 ▸ hall⟩, fun h => h.1⟩

end ValueType

namespace FunctionType

/-- The parameters and the results of a signature, with at most one result. -/
theorem readLists_eq_ok_iff (bytes : List UInt8) (t : FunctionType) (rest : List UInt8) :
    readLists bytes = .ok (t, rest) ↔
      ∃ params results, bytes = params ++ (results ++ rest) ∧
        Format.Counted ValueType.Written params t.params ∧
        Format.Counted ValueType.Written results t.results ∧ t.results.length ≤ 1 := by
  unfold readLists
  simp only [Except.bind_eq_ok, Except.mapError_eq_ok, Except.check_eq_ok, Except.pure_eq_ok,
    Prod.exists, ValueType.readMany_eq_ok_iff, UInt32.lt_iff_toNat_lt, Nat.not_lt]
  constructor
  · rintro ⟨n, b, hn, ps, b', hps, k, b'', hk, hle, rs, _, hrs, heq⟩
    -- the two lists lie one after the other: what is left of the first one is read as the second
    cases heq
    obtain ⟨params, rfl, hparams⟩ := Format.exists_counted_iff.mp ⟨n, b, hn, hps⟩
    obtain ⟨results, rfl, hresults⟩ := Format.exists_counted_iff.mp ⟨k, b'', hk, hrs⟩
    obtain ⟨_, _, hlength, _⟩ := hrs
    exact ⟨params, results, rfl, hparams, hresults, Nat.le_trans (Nat.le_of_eq hlength) hle⟩
  · rintro ⟨params, results, rfl, hparams, hresults, hle⟩
    obtain ⟨n, b, hn, hps⟩ := Format.exists_counted_iff.mpr ⟨params, rfl, hparams⟩
    obtain ⟨k, b', hk, hrs⟩ := Format.exists_counted_iff.mpr ⟨results, rfl, hresults⟩
    obtain ⟨_, _, hlength, _⟩ := id hrs
    exact ⟨n, b, hn, _, _, hps, k, b', hk, Nat.le_trans (Nat.le_of_eq hlength.symm) hle, _, _, hrs,
      rfl⟩

/-- **Reading a signature** accepts exactly signatures. They start with a tag, so the cases are no
byte at all, a wrong tag, and the tag followed by the two lists. -/
theorem readBy_read : Written.ReadBy read := by
  intro bytes t rest
  cases bytes with
  -- the word starts with the byte that announces a function type, so neither side has it here
  | nil =>
    refine ⟨nofun, ?_⟩
    rintro ⟨_, hw, _, _, rfl, -⟩
    cases hw
  | cons b bytes =>
    rw [read]
    split
    · next hne =>
      refine ⟨nofun, ?_⟩
      rintro ⟨_, hw, _, _, rfl, -⟩
      cases hw
      exact absurd rfl hne
    · next heq =>
      -- after it come the two lists, as the grammar has them
      rw [readLists_eq_ok_iff, Classical.not_not.mp heq]
      constructor
      · rintro ⟨params, results, rfl, h⟩
        refine ⟨0x60 :: (params ++ results), ?_, params, results, rfl, h⟩
        rw [List.cons_append, List.append_assoc]
        rfl
      · rintro ⟨_, hw, params, results, rfl, h⟩
        cases hw
        exact ⟨params, results, List.append_assoc .., h⟩

end FunctionType

/-! ### Bodies -/

namespace Code

/-- A declaration is a count and the byte of its type. With the type as the first byte after the
count, this is what the reader finds when it takes the count. -/
theorem exists_declaration_iff {bytes rest : List UInt8} {k : Nat} :
    (∃ w, bytes = w ++ rest ∧ Declaration w k) ↔
      ∃ n, Varint.readU32 bytes = .ok (n, 0x7f :: rest) ∧ n.toNat = k := by
  rw [Varint.exists_readU32_iff]
  constructor
  · rintro ⟨_, rfl, count, rfl, hcount⟩
    exact ⟨count, by rw [List.append_assoc, List.singleton_append], hcount⟩
  · rintro ⟨count, rfl, hcount⟩
    exact ⟨count ++ [0x7f], by rw [List.append_assoc, List.singleton_append], count, rfl, hcount⟩

/-- **One more declaration.** The reader stops at a missing or malformed count, at a type that is
not supported, and at the first declaration that takes the locals over the bound; in all other cases
it goes on with the sum. -/
theorem readLocals_succ_eq_ok_iff {count i total : Nat} {bytes : List UInt8} {sum : Nat}
    {rest : List UInt8} :
    readLocals (count + 1) i total bytes = .ok (sum, rest) ↔
      ∃ k b, (∃ w, bytes = w ++ b ∧ Declaration w k) ∧ total + k ≤ maxLocals ∧
        readLocals count (i + 1) (total + k) b = .ok (sum, rest) := by
  simp only [exists_declaration_iff]
  rw [readLocals]
  -- the first two cases are a count that cannot be read and a missing type
  split
  · next hread =>
    rw [hread]
    exact ⟨nofun, fun ⟨_, _, ⟨_, h, _⟩, _⟩ => nomatch h⟩
  · next hread =>
    rw [hread]
    exact ⟨nofun, fun ⟨_, _, ⟨_, h, _⟩, _⟩ => nomatch h⟩
  · next n t b hread =>
    rw [hread]
    split
    · next hcheck =>
      -- the type is refused, but a declaration has one that is supported
      refine ⟨nofun, ?_⟩
      rintro ⟨k, b', ⟨n', heq, -⟩, -⟩
      cases heq
      have hok : ValueType.check ⟨0x7f⟩ = .ok () := ValueType.check_eq_ok_iff.mpr rfl
      rw [hok] at hcheck
      cases hcheck
    · next hcheck =>
      cases ValueType.check_eq_ok_iff.mp hcheck
      dsimp only
      split
      · next hlt =>
        refine ⟨nofun, ?_⟩
        rintro ⟨k, b', ⟨n', heq, rfl⟩, hle, -⟩
        cases heq
        omega
      · next hle =>
        refine ⟨fun h => ⟨n.toNat, b, ⟨n, rfl, rfl⟩, by omega, h⟩, ?_⟩
        rintro ⟨k, b', ⟨n', heq, rfl⟩, -, h⟩
        cases heq
        exact h

/-- **Reading declarations** on top of `total` locals, by induction on their number. The bound is
checked after each declaration but stated once, for the last sum: sums only grow, so if the last one
is in bounds, all are. -/
theorem readLocals_eq_ok_iff (count i : Nat) {total : Nat} (htotal : total ≤ maxLocals)
    (bytes : List UInt8) (sum : Nat) (rest : List UInt8) :
    readLocals count i total bytes = .ok (sum, rest) ↔
      ∃ w counts, bytes = w ++ rest ∧ counts.length = count ∧ Format.Sequence Declaration w counts ∧
        sum = total + counts.sum ∧ sum ≤ maxLocals := by
  induction count generalizing i total bytes with
  | zero =>
    simp only [readLocals, Except.ok.injEq, Prod.mk.injEq]
    constructor
    · rintro ⟨rfl, rfl⟩
      exact ⟨[], [], rfl, rfl, .nil, rfl, htotal⟩
    · rintro ⟨w, counts, rfl, hlength, hwords, rfl, -⟩
      cases List.length_eq_zero_iff.mp hlength
      cases hwords
      exact ⟨rfl, rfl⟩
  | succ count ih =>
    rw [readLocals_succ_eq_ok_iff]
    constructor
    · rintro ⟨k, b, ⟨v, rfl, hv⟩, hle, h⟩
      -- the count of the first declaration is added to the total before the others are read
      obtain ⟨w, counts, rfl, hlength, hwords, rfl, hsum⟩ := (ih (i + 1) hle b).mp h
      refine ⟨v ++ w, k :: counts, (List.append_assoc ..).symm, ?_, .cons hv hwords, ?_, hsum⟩
      · rw [List.length_cons, hlength]
      · rw [List.sum_cons, Nat.add_assoc]
    · rintro ⟨_, counts, rfl, hlength, hwords, hsum, hmax⟩
      cases hwords with
      | nil => cases hlength
      | @cons v w k counts head tail =>
        rw [List.sum_cons, ← Nat.add_assoc] at hsum
        -- the bound on the whole sum gives the bound that is checked here
        have hle : total + k ≤ maxLocals := by omega
        refine ⟨k, w ++ rest, ⟨v, List.append_assoc .., head⟩, hle, ?_⟩
        exact (ih (i + 1) hle _).mpr ⟨w, counts, rfl, Nat.succ.inj hlength, tail, hsum, hmax⟩

/-- The content of a body, between its size and the next body. The number of locals is kept in 32
bits, where nothing is lost because of the bound. -/
theorem readContent_eq_ok_iff (content : List UInt8) (c : Code) :
    readContent content = .ok c ↔ Content content c := by
  unfold readContent
  simp only [Except.bind_eq_ok, Except.mapError_eq_ok, Except.check_eq_ok, Except.pure_eq_ok,
    Prod.exists, readLocals_eq_ok_iff _ _ (Nat.zero_le maxLocals), Nat.zero_add, Classical.not_not]
  constructor
  · rintro ⟨n, b, hn, sum, body, ⟨words, counts, hb, hlength, hwords, rfl, hle⟩, hlast, rfl⟩
    -- the count and the declarations make up the list of the grammar
    obtain ⟨declarations, rfl, hdeclarations⟩ :=
      Format.exists_counted_iff.mp ⟨n, b, hn, words, hb, hlength, hwords⟩
    refine ⟨declarations, counts, rfl, hdeclarations, ?_, hle, hlast⟩
    -- within the limit the number of locals is not cut off
    exact UInt32.toNat_ofNat_of_lt' (Nat.lt_of_le_of_lt hle (by decide))
  · rintro ⟨declarations, counts, rfl, hdeclarations, hsum, hle, hlast⟩
    obtain ⟨n, b, hn, words, hb, hlength, hwords⟩ :=
      Format.exists_counted_iff.mpr ⟨declarations, rfl, hdeclarations⟩
    refine ⟨n, b, hn, counts.sum, c.body, ⟨words, counts, hb, hlength, hwords, rfl, hle⟩, hlast, ?_⟩
    rw [← hsum, UInt32.ofNat_toNat]

/-- **Reading a body** accepts exactly bodies. The content is cut out by its size first and then has
to be used up, so a body cannot reach into the next one. -/
theorem readBy_read : Written.ReadBy read := by
  intro bytes c rest
  unfold read
  simp only [Except.bind_eq_ok, Except.mapError_eq_ok, Except.check_eq_ok, Except.pure_eq_ok,
    Prod.exists, readContent_eq_ok_iff, Nat.not_lt]
  constructor
  · rintro ⟨n, b, hn, hle, c, hc, heq⟩
    cases heq
    -- the size says how many of the bytes are the content
    obtain ⟨size, rfl, hsize⟩ := Format.exists_sized_iff.mp ⟨n, b, hn, hle, rfl, rfl⟩
    exact ⟨size ++ b.take n.toNat, (List.append_assoc ..).symm, size, _, rfl, hsize, hc⟩
  · rintro ⟨_, rfl, size, content, rfl, hsize, hc⟩
    obtain ⟨n, b, hn, hle, htake, hdrop⟩ :=
      Format.exists_sized_iff.mpr ⟨size, List.append_assoc size content rest, hsize⟩
    exact ⟨n, b, hn, hle, c, htake ▸ hc, by rw [hdrop]⟩

end Code

/-! ### Contents of sections -/

namespace Module

variable {α : Type} {G : Format α} {read : List UInt8 → Except EntryError (α × List UInt8)}

/-- **Reading entries** accepts exactly sequences of words, if the reader of an entry accepts
exactly words. By induction on the number of entries; the index is only there for error messages, so
it is generalised. -/
theorem readEntries_eq_ok_iff (h : G.ReadBy read) (what : String) (count i : Nat)
    (bytes : List UInt8) (xs : List α) (rest : List UInt8) :
    readEntries what read count i bytes = .ok (xs, rest) ↔
      ∃ w, bytes = w ++ rest ∧ xs.length = count ∧ Format.Sequence G w xs := by
  induction count generalizing i bytes xs with
  | zero =>
    simp only [readEntries, Except.ok.injEq, Prod.mk.injEq]
    constructor
    · rintro ⟨rfl, rfl⟩
      exact ⟨[], rfl, rfl, .nil⟩
    · rintro ⟨_, rfl, hlength, hwords⟩
      cases List.length_eq_zero_iff.mp hlength
      cases hwords
      exact ⟨rfl, rfl⟩
  | succ count ih =>
    constructor
    · intro hread
      rw [readEntries] at hread
      -- either the first entry or one of the others may fail
      split at hread
      · cases hread
      · next x b hx =>
        obtain ⟨⟨ys, _⟩, hys, heq⟩ := Except.map_eq_ok.mp hread
        cases heq
        obtain ⟨v, rfl, hv⟩ := (h _ _ _).mp hx
        obtain ⟨w, rfl, rfl, hw⟩ := (ih _ _ _).mp hys
        exact ⟨v ++ w, (List.append_assoc ..).symm, rfl, .cons hv hw⟩
    · rintro ⟨_, rfl, hlength, hwords⟩
      cases hwords with
      | nil => cases hlength
      | @cons v w x xs head tail =>
        -- the first word is read, and then the others behind it
        have hx := (h (v ++ w ++ rest) x (w ++ rest)).mpr ⟨v, List.append_assoc .., head⟩
        have hxs := (ih (i + 1) (w ++ rest) xs).mpr ⟨w, rfl, Nat.succ.inj hlength, tail⟩
        rw [readEntries, hx]
        exact Except.map_eq_ok.mpr ⟨_, hxs, rfl⟩

/-- **The content of a section** that is a counted list: the entries use up all of it. The entries
are read by any reader that accepts a format, so this is about the sections of types, functions and
bodies alike. -/
theorem readVector_eq_ok_iff (h : G.ReadBy read) (what : String) (content : List UInt8)
    (xs : List α) :
    readVector what read content = .ok xs ↔ Format.Counted G content xs := by
  unfold readVector
  simp only [Except.bind_eq_ok, Except.mapError_eq_ok, Except.check_eq_ok, Except.pure_eq_ok,
    Prod.exists, readEntries_eq_ok_iff h]
  constructor
  · rintro ⟨n, b, hn, xs, rest, hwords, hrest, rfl⟩
    obtain ⟨w, rfl, hw⟩ := Format.exists_counted_iff.mp ⟨n, b, hn, hwords⟩
    -- nothing may be left over after the last entry
    simp only [Bool.not_eq_true', Bool.not_eq_false, List.isEmpty_iff] at hrest
    rwa [hrest, List.append_nil]
  · intro hcontent
    obtain ⟨n, b, hn, hwords⟩ :=
      Format.exists_counted_iff.mpr ⟨content, (List.append_nil content).symm, hcontent⟩
    exact ⟨n, b, hn, xs, [], hwords, by simp, rfl⟩

end Module

end WasmJit
