import Mathlib.Algebra.BigOperators.Group.List.Basic
import WasmJit.Proofs.Format.Recognition

/-!
# Reading undoes writing

Writing checks nothing, so a module that could not have been read can be written as well. Reading
what was written gives back the module if it is well-formed and fails otherwise
(`Module.decode_encode_eq_ok_iff`), provided that all sizes can be written in 32 bits. Every level
of the format has a lemma of this kind: reading what was written for `x` succeeds exactly if `x` is
well-formed, and then with `x` and the bytes that come after it.

* `Module.decode_undoes_encode` is the round trip of modules.
-/

namespace WasmJit

/-! ### Well-formed modules -/

/-- A signature of `i32` only, with at most one result. -/
structure FunctionType.WellFormed (t : FunctionType) : Prop where
  params : ∀ p ∈ t.params, p = .i32
  results : ∀ r ∈ t.results, r = .i32
  single : t.results.length ≤ 1

/-- A body with not too many locals, the last byte of which is `end`. -/
structure Code.WellFormed (c : Code) : Prop where
  locals : c.numLocals.toNat ≤ 65536
  ended : c.body.getLast? = some 0x0b

namespace Module

/-- **A module that can be read**: each entry is well-formed on its own, and the lists fit together.
-/
structure WellFormed (m : Module) : Prop where
  types : ∀ t ∈ m.types, t.WellFormed
  code : ∀ c ∈ m.code, c.WellFormed
  lengths : m.functionTypes.length = m.code.length
  indices : ∀ t ∈ m.functionTypes, t.toNat < m.types.length

/-- **A module whose sections can be written**: the content of each is shorter than `2 ^ 32` bytes.
No entry is longer than the content it stands in, and there are no more entries than bytes, so this
bounds the sizes of all entries and the lengths of all lists as well. -/
structure Fits (m : Module) : Prop where
  types : (encodeVector FunctionType.encode m.types).length < 2 ^ 32
  functionTypes : (encodeVector Varint.encodeU32 m.functionTypes).length < 2 ^ 32
  code : (encodeVector Code.encode m.code).length < 2 ^ 32

end Module

/-! ### Entries -/

/-- **Reading undoes writing** for the values with the property `P`, and fails for all others. The
bytes that follow are arbitrary, so an entry can be read in front of any others, and nothing is said
about a value whose bytes are too many to be counted. -/
structure Undoes {ε α : Type} (read : List UInt8 → Except ε (α × List UInt8))
    (encode : α → List UInt8) (P : α → Prop) : Prop where
  length_pos : ∀ x, 0 < (encode x).length
  read_encode : ∀ x rest r, (encode x).length < 2 ^ 32 →
    (read (encode x ++ rest) = .ok r ↔ P x ∧ r = (x, rest))

/-- As for `Format.ReadBy`, the words of an error do not matter. -/
theorem Undoes.mapError {ε ε' α : Type} {read : List UInt8 → Except ε (α × List UInt8)}
    {encode : α → List UInt8} {P : α → Prop} (h : Undoes read encode P) (f : ε → ε') :
    Undoes (fun bytes => (read bytes).mapError f) encode P where
  length_pos := h.length_pos
  read_encode x rest r hx := by rw [Except.mapError_eq_ok, h.read_encode x rest r hx]

/-- Types that were written. Writing does not check them, so any byte may stand here. -/
theorem ValueType.readMany_map_byte (ts : List ValueType) (rest : List UInt8)
    (r : List ValueType × List UInt8) :
    readMany ts.length (ts.map byte ++ rest) = .ok r ↔ (∀ t ∈ ts, t = .i32) ∧ r = (ts, rest) := by
  obtain ⟨ts', rest'⟩ := r
  rw [readMany_eq_ok_iff]
  simp only [sequence_iff]
  constructor
  · rintro ⟨_, heq, hlength, rfl, hall⟩
    -- every type is one byte, so there is only one way to split off as many
    obtain ⟨hmap, rfl⟩ := List.append_inj heq (by simp [hlength])
    obtain rfl := List.map_inj_right (fun a b h => by cases a; cases b; cases h; rfl) |>.mp hmap
    exact ⟨hall, rfl⟩
  · rintro ⟨hall, heq⟩
    cases heq
    exact ⟨_, rfl, rfl, rfl, hall⟩

/-- Reading the lists of a signature that was written. What the reader refuses, in the order in
which it looks, is exactly what makes a signature ill-formed. -/
theorem FunctionType.readLists_encodeTypes {t : FunctionType} (hparams : t.params.length < 2 ^ 32)
    (hresults : t.results.length < 2 ^ 32) (rest : List UInt8) (r : FunctionType × List UInt8) :
    readLists (encodeTypes t.params ++ (encodeTypes t.results ++ rest)) = .ok r ↔
      t.WellFormed ∧ r = (t, rest) := by
  obtain ⟨n, hn, hnum⟩ := Varint.readU32_encodeLength hparams
    (t.params.map ValueType.byte ++ (encodeTypes t.results ++ rest))
  obtain ⟨k, hk, hknum⟩ := Varint.readU32_encodeLength hresults
    (t.results.map ValueType.byte ++ rest)
  -- a list is its length and its types, so the lengths are what is read first
  rw [← List.append_assoc, ← encodeTypes] at hn hk
  unfold readLists
  -- run the reader on what was written: every number is known, so only its checks are left
  simp only [Except.bind_eq_ok, Except.mapError_eq_ok, Except.check_eq_ok, Except.pure_eq_ok,
    hn, Except.ok.injEq, exists_eq_left', hnum, ValueType.readMany_map_byte, and_assoc,
    exists_and_left, exists_eq_left, hk, hknum, UInt32.lt_iff_toNat_lt, Nat.not_lt]
  constructor
  · rintro ⟨hp, hle, hr, rfl⟩
    exact ⟨⟨hp, hr, hle⟩, rfl⟩
  · rintro ⟨⟨hp, hr, hle⟩, rfl⟩
    exact ⟨hp, hle, hr, rfl⟩

/-- **Signatures** that were written are read again. Both lists are shorter than the signature, so
their lengths can be written. -/
theorem FunctionType.undoes_encode : Undoes read encode WellFormed where
  length_pos _ := Nat.succ_pos _
  read_encode t rest r hsize := by
    simp only [encode, encodeTypes, List.length_cons, List.length_append, List.length_map] at hsize
    have hform : encode t ++ rest =
        form :: (encodeTypes t.params ++ (encodeTypes t.results ++ rest)) :=
      congrArg (form :: ·) (List.append_assoc ..)
    rw [hform, read, if_neg (by simp), readLists_encodeTypes (by omega) (by omega)]

/-- **Indices** that were written are read again. -/
theorem Varint.undoes_encodeU32 : Undoes readU32 encodeU32 fun _ => True where
  length_pos v := (unsigned_encodeU32 v).length_pos
  read_encode v rest r _ := by
    rw [readU32_encodeU32, Except.ok.injEq, true_and]
    exact eq_comm

namespace Code

/-- **The declarations that were written** are read again. There is one at most, which counts all
locals; the number of declarations that were read is not part of a body, so this is enough. -/
theorem readLocals_encodeLocals (n : UInt32) (body : List UInt8) :
    ∃ count b, Varint.readU32 (encodeLocals n ++ body) = .ok (count, b) ∧
      ∀ r, readLocals count.toNat 0 0 b = .ok r ↔ n.toNat ≤ maxLocals ∧ r = (n.toNat, body) := by
  unfold encodeLocals
  split
  · -- without locals, there is no declaration
    next hn =>
    subst hn
    refine ⟨0, body, rfl, fun r => ?_⟩
    constructor
    · intro h
      cases h
      exact ⟨by decide, rfl⟩
    · rintro ⟨-, rfl⟩
      rfl
  · -- otherwise there is one for all of them, and only their number is checked
    refine ⟨1, Varint.encodeU32 n ++ ([0x7f] ++ body), ?_, fun r => ?_⟩
    · rw [List.cons_append, List.append_assoc]
      rfl
    · rw [show (1 : UInt32).toNat = 0 + 1 from rfl, readLocals, Varint.readU32_encodeU32]
      have hcheck : ValueType.check ⟨0x7f⟩ = .ok () := rfl
      simp only [List.singleton_append, hcheck, readLocals, Nat.zero_add]
      split
      · next hlt =>
        constructor
        · intro h
          cases h
        · rintro ⟨hle, -⟩
          omega
      · next hle =>
        constructor
        · intro h
          cases h
          exact ⟨Nat.not_lt.mp hle, rfl⟩
        · rintro ⟨-, rfl⟩
          rfl

/-- The content of a body that was written. -/
theorem readContent_encodeLocals (c c' : Code) :
    readContent (encodeLocals c.numLocals ++ c.body) = .ok c' ↔ c.WellFormed ∧ c' = c := by
  obtain ⟨count, b, hread, hlocals⟩ := readLocals_encodeLocals c.numLocals c.body
  unfold readContent
  simp only [Except.bind_eq_ok, Except.mapError_eq_ok, Except.check_eq_ok, Except.pure_eq_ok,
    hread, Except.ok.injEq, exists_eq_left', hlocals, and_assoc, exists_and_left, exists_eq_left,
    UInt32.ofNat_toNat, Classical.not_not]
  constructor
  · rintro ⟨hle, hlast, rfl⟩
    exact ⟨⟨hle, hlast⟩, rfl⟩
  · rintro ⟨⟨hle, hlast⟩, rfl⟩
    exact ⟨hle, hlast, rfl⟩

/-- **Bodies** that were written are read again. -/
theorem undoes_encode : Undoes read encode WellFormed where
  length_pos c := by
    -- even without locals their count takes a byte
    have hlocals : 0 < (encodeLocals c.numLocals).length := by
      unfold encodeLocals
      split <;> exact Nat.succ_pos _
    simp only [encode, List.length_append]
    omega
  read_encode c rest r hsize := by
    simp only [encode, List.length_append] at hsize
    -- the size is that of the content, so it is cut out as it was written
    obtain ⟨n, hn, hnum⟩ :=
      Varint.readU32_encodeLength (n := (encodeLocals c.numLocals ++ c.body).length)
        (by rw [List.length_append]; omega) ((encodeLocals c.numLocals ++ c.body) ++ rest)
    rw [← List.append_assoc] at hn
    unfold read encode
    simp only [Except.bind_eq_ok, Except.mapError_eq_ok, Except.check_eq_ok, Except.pure_eq_ok,
      hn, Except.ok.injEq, exists_eq_left', hnum, List.take_left, List.drop_left,
      readContent_encodeLocals, and_assoc, exists_and_left, exists_eq_left]
    refine ⟨fun ⟨_, hc, hr⟩ => ⟨hc, hr.symm⟩, fun ⟨hc, hr⟩ => ⟨?_, hc, hr.symm⟩⟩
    exact Nat.not_lt.mpr (List.sublist_append_left _ _).length_le

end Code

/-! ### Sections -/

namespace Module

section

variable {α : Type} {read : List UInt8 → Except EntryError (α × List UInt8)}
  {encode : α → List UInt8} {P : α → Prop}

/-- **Entries that were written** are read again, by induction on the list. The first entry that is
not well-formed stops the reader, and so any of them does. -/
theorem readEntries_flatMap (h : Undoes read encode P) (what : String) {xs : List α}
    (hsize : ∀ x ∈ xs, (encode x).length < 2 ^ 32) (i : Nat) (rest : List UInt8)
    (r : List α × List UInt8) :
    readEntries what read xs.length i (xs.flatMap encode ++ rest) = .ok r ↔
      (∀ x ∈ xs, P x) ∧ r = (xs, rest) := by
  induction xs generalizing i r with
  | nil =>
    constructor
    · intro h
      cases h
      exact ⟨List.forall_mem_nil _, rfl⟩
    · rintro ⟨-, rfl⟩
      rfl
  | cons x xs ih =>
    obtain ⟨hx, hxs⟩ := List.forall_mem_cons.mp hsize
    rw [List.length_cons, readEntries, List.flatMap_cons, List.append_assoc, List.forall_mem_cons]
    split
    -- an entry that has the property is read back, so this one has not
    · next e he =>
      constructor
      · intro h
        cases h
      · rintro ⟨⟨hPx, -⟩, -⟩
        rw [(h.read_encode x _ _ hx).mpr ⟨hPx, rfl⟩] at he
        cases he
    · next y b hy =>
      -- the entry is read back, and what is left are the others
      obtain ⟨hPx, heq⟩ := (h.read_encode x _ _ hx).mp hy
      cases heq
      rw [Except.map_eq_ok]
      simp only [ih hxs, and_assoc, exists_and_left, exists_eq_left, hPx, true_and]
      exact and_congr_right fun _ => eq_comm

/-- **Counted lists** that were written are read again. That the content fits in 32 bits is all that
has to be assumed: the number of entries and the size of each follow from it. -/
theorem readVector_encodeVector (h : Undoes read encode P) (what : String) {xs : List α}
    (hsize : (encodeVector encode xs).length < 2 ^ 32) (ys : List α) :
    readVector what read (encodeVector encode xs) = .ok ys ↔ (∀ x ∈ xs, P x) ∧ ys = xs := by
  -- every entry takes a byte at least, so the number of entries fits if the content does
  have hcount : xs.length ≤ (xs.flatMap encode).length := by
    rw [List.length_flatMap, ← List.length_map (f := fun x => (encode x).length)]
    refine List.length_le_sum_of_one_le _ fun n hn => ?_
    obtain ⟨x, -, rfl⟩ := List.mem_map.mp hn
    exact h.length_pos x
  have hentry : ∀ x ∈ xs, (encode x).length ≤ (xs.flatMap encode).length := fun x hx => by
    rw [List.flatMap_def]
    exact (List.sublist_flatten_of_mem (List.mem_map_of_mem hx)).length_le
  simp only [encodeVector, List.length_append] at hsize
  -- the number of entries is read back, and so are the entries
  obtain ⟨n, hn, hnum⟩ := Varint.readU32_encodeLength (n := xs.length) (by omega)
    (xs.flatMap encode)
  have hentries := readEntries_flatMap h what
    (fun x hx => Nat.lt_of_le_of_lt (hentry x hx) (by omega)) 0 []
  rw [List.append_nil] at hentries
  unfold readVector encodeVector
  simp only [Except.bind_eq_ok, Except.mapError_eq_ok, Except.check_eq_ok, Except.pure_eq_ok,
    hn, Except.ok.injEq, exists_eq_left', hnum, hentries, and_assoc, exists_and_left,
    exists_eq_left]
  exact ⟨fun ⟨hP, _, hxs⟩ => ⟨hP, hxs.symm⟩, fun ⟨hP, hxs⟩ => ⟨hP, by simp, hxs.symm⟩⟩

/-- The same where the list is put into a module. -/
theorem map_readVector_encodeVector (h : Undoes read encode P) (what : String) {xs : List α}
    (hsize : (encodeVector encode xs).length < 2 ^ 32) (put : List α → Module) (m' : Module) :
    (readVector what read (encodeVector encode xs)).map put = .ok m' ↔
      (∀ x ∈ xs, P x) ∧ m' = put xs := by
  simp only [Except.map_eq_ok, readVector_encodeVector h what hsize, and_assoc, exists_and_left,
    exists_eq_left]
  exact and_congr_right fun _ => eq_comm

end

/-- Reading one section that was written, if it is in order. Its frame is complete, so only its
content decides. -/
theorem readSection_encodeLength {id last : SectionId} {content rest : List UInt8}
    (hsize : content.length < 2 ^ 32) (horder : last.byte < id.byte) (m : Module)
    (r : Module × List UInt8) :
    readSection id last (Varint.encodeLength content.length ++ content ++ rest) m = .ok r ↔
      ∃ m₁, readContent id content m = .ok m₁ ∧ r = (m₁, rest) := by
  obtain ⟨n, hn, hnum⟩ := Varint.readU32_encodeLength hsize (content ++ rest)
  rw [← List.append_assoc] at hn
  unfold readSection
  simp only [Except.bind_eq_ok, Except.mapError_eq_ok, Except.check_eq_ok, Except.pure_eq_ok,
    hn, Except.ok.injEq, exists_eq_left', hnum, List.take_left, List.drop_left]
  constructor
  · rintro ⟨-, -, m₁, hm₁, rfl⟩
    exact ⟨m₁, hm₁, rfl⟩
  · rintro ⟨m₁, hm₁, rfl⟩
    exact ⟨Nat.not_lt.mpr (List.sublist_append_left _ _).length_le,
      fun h => UInt8.not_le.mpr horder h.2, m₁, hm₁, rfl⟩

/-- Enough fuel is as good as any, since what is accepted does not depend on it. -/
theorem readSections_fuel {fuel fuel' : Nat} {bytes : List UInt8} (h : bytes.length ≤ fuel)
    (h' : bytes.length ≤ fuel') (last : SectionId) (m m' : Module) :
    readSections fuel last m bytes = .ok m' ↔ readSections fuel' last m bytes = .ok m' :=
  (readSections_eq_ok_iff last m m' h).trans (readSections_eq_ok_iff last m m' h').symm

/-- Reading one more section that was written, if it is in order. -/
theorem readSections_encodeSection {fuel : Nat} {id last : SectionId} {content rest : List UInt8}
    (hfuel : (encodeSection id content ++ rest).length ≤ fuel) (hsize : content.length < 2 ^ 32)
    (horder : last.byte < id.byte) (m m' : Module) :
    readSections fuel last m (encodeSection id content ++ rest) = .ok m' ↔
      ∃ m₁, readContent id content m = .ok m₁ ∧ readSections fuel id m₁ rest = .ok m' := by
  simp only [encodeSection, List.length_append, List.length_cons] at hfuel
  obtain ⟨fuel, rfl⟩ : ∃ k, fuel = k + 1 := ⟨fuel - 1, by omega⟩
  -- only custom sections have the number zero, and they come after nothing
  have hid : id.byte ≠ SectionId.custom.byte := fun hid => UInt8.not_lt_zero (hid ▸ horder)
  rw [encodeSection, List.cons_append, readSections, if_neg hid]
  split
  · next e he =>
    constructor
    · intro h
      cases h
    · rintro ⟨m₁, hm₁, -⟩
      rw [(readSection_encodeLength hsize horder m _).mpr ⟨m₁, hm₁, rfl⟩] at he
      cases he
  · next m₁ b hsection =>
    obtain ⟨m₁, hm₁, heq⟩ := (readSection_encodeLength hsize horder m _).mp hsection
    cases heq
    rw [readSections_fuel (by omega) (by omega : rest.length ≤ fuel + 1)]
    simp only [hm₁, Except.ok.injEq, exists_eq_left']

/-- **A section that is left out if its list is empty**, and then the sections after it. What comes
after the section also comes after the one that was the last before it, so it does not matter for
the others whether it is there. -/
theorem readSections_encodeNonempty {α : Type} {write : List α → List UInt8}
    {encode : α → List UInt8} {P : α → Prop} {id : SectionId} {xs : List α} {m m₁ : Module}
    (hwrite : write xs = encodeSection id (encodeVector encode xs))
    (hcontent : ∀ m', readContent id (encodeVector encode xs) m = .ok m' ↔
      (∀ x ∈ xs, P x) ∧ m' = m₁)
    (habsent : xs = [] → m₁ = m) (hsize : (encodeVector encode xs).length < 2 ^ 32)
    (last : SectionId) (horder : last.byte < id.byte) {fuel : Nat} {rest : List UInt8}
    (hfuel : (encodeNonempty write xs ++ rest).length ≤ fuel) :
    ∃ last', last'.byte ≤ id.byte ∧ ∀ m',
      readSections fuel last m (encodeNonempty write xs ++ rest) = .ok m' ↔
        (∀ x ∈ xs, P x) ∧ readSections fuel last' m₁ rest = .ok m' := by
  cases xs with
  | nil =>
    -- there is no section, and the list is empty without it
    refine ⟨last, UInt8.le_of_lt horder, fun m' => ?_⟩
    rw [habsent rfl]
    exact ⟨fun h => ⟨nofun, h⟩, fun h => h.2⟩
  | cons x xs =>
    refine ⟨id, UInt8.le_refl _, fun m' => ?_⟩
    rw [encodeNonempty, if_neg (by simp), hwrite] at hfuel ⊢
    rw [readSections_encodeSection hfuel hsize horder]
    simp only [hcontent, and_assoc, exists_and_left, exists_eq_left]

/-- The content of a section of signatures that was written. This and the next two lemmas are
`readVector_encodeVector` for the three lists of a module. -/
theorem readContent_types {types : List FunctionType}
    (hsize : (encodeVector FunctionType.encode types).length < 2 ^ 32) (m m' : Module) :
    readContent .type (encodeVector FunctionType.encode types) m = .ok m' ↔
      (∀ t ∈ types, t.WellFormed) ∧ m' = { m with types } := by
  rw [readContent, if_neg (by decide), if_pos rfl]
  exact map_readVector_encodeVector (FunctionType.undoes_encode.mapError _) _ hsize _ _

theorem readContent_functionTypes {functionTypes : List UInt32}
    (hsize : (encodeVector Varint.encodeU32 functionTypes).length < 2 ^ 32) (m m' : Module) :
    readContent .function (encodeVector Varint.encodeU32 functionTypes) m = .ok m' ↔
      (∀ t ∈ functionTypes, True) ∧ m' = { m with functionTypes } := by
  rw [readContent, if_neg (by decide), if_neg (by decide), if_pos rfl]
  exact map_readVector_encodeVector (Varint.undoes_encodeU32.mapError _) _ hsize _ _

theorem readContent_code {code : List Code}
    (hsize : (encodeVector Code.encode code).length < 2 ^ 32) (m m' : Module) :
    readContent .code (encodeVector Code.encode code) m = .ok m' ↔
      (∀ c ∈ code, c.WellFormed) ∧ m' = { m with code } := by
  rw [readContent, if_neg (by decide), if_neg (by decide), if_neg (by decide), if_pos rfl]
  exact map_readVector_encodeVector (Code.undoes_encode.mapError _) _ hsize _ _

/-! ### Modules -/

/-- **The sections of a module that was written** are read again, one list after the other. Every
step leaves a module with one more of the lists, and what is left of the bytes. -/
theorem readSections_encode {m : Module} (h : m.Fits) {fuel : Nat}
    (hfuel : (encodeNonempty encodeTypeSection m.types ++
      (encodeNonempty encodeFunctionSection m.functionTypes ++
        (encodeNonempty encodeCodeSection m.code ++ []))).length ≤ fuel) (m' : Module) :
    readSections fuel .custom .empty (encodeNonempty encodeTypeSection m.types ++
        (encodeNonempty encodeFunctionSection m.functionTypes ++
          (encodeNonempty encodeCodeSection m.code ++ []))) = .ok m' ↔
      (∀ t ∈ m.types, t.WellFormed) ∧ (∀ c ∈ m.code, c.WellFormed) ∧ m' = m := by
  have hfuel' : (encodeNonempty encodeFunctionSection m.functionTypes ++
      (encodeNonempty encodeCodeSection m.code ++ [])).length ≤ fuel :=
    Nat.le_trans (List.sublist_append_right _ _).length_le hfuel
  have hfuel'' : (encodeNonempty encodeCodeSection m.code ++ []).length ≤ fuel :=
    Nat.le_trans (List.sublist_append_right _ _).length_le hfuel'
  -- a section that is left out does not count as the last one, but those after it come later anyway
  obtain ⟨last, hlast, htypes⟩ := readSections_encodeNonempty rfl
    (readContent_types h.types .empty) (fun h => by rw [h]; rfl) h.types .custom (by decide) hfuel
  obtain ⟨last', hlast', hfunctions⟩ := readSections_encodeNonempty rfl
    (readContent_functionTypes h.functionTypes ⟨m.types, [], []⟩) (fun h => by rw [h])
    h.functionTypes last (UInt8.lt_of_le_of_lt hlast (by decide)) hfuel'
  obtain ⟨last'', -, hcode⟩ := readSections_encodeNonempty rfl
    (readContent_code h.code ⟨m.types, m.functionTypes, []⟩) (fun h => by rw [h]) h.code
    last' (UInt8.lt_of_le_of_lt hlast' (by decide)) hfuel''
  -- after the three sections the bytes are used up
  have hnil : readSections fuel last'' m [] = .ok m := by cases fuel <;> rfl
  constructor
  · intro hread
    obtain ⟨ht, hread⟩ := (htypes m').mp hread
    obtain ⟨-, hread⟩ := (hfunctions m').mp hread
    obtain ⟨hc, hread⟩ := (hcode m').mp hread
    exact ⟨ht, hc, Except.ok.inj (hread.symm.trans hnil)⟩
  · rintro ⟨ht, hc, rfl⟩
    exact (htypes m').mpr ⟨ht, (hfunctions m').mpr ⟨fun _ _ => trivial, (hcode m').mpr ⟨hc, hnil⟩⟩⟩

/-- **Reading a module that was written** succeeds if it is well-formed, and gives it back. What the
sections do not check is how the lists fit together, which is checked at the end. -/
theorem decode_encode_eq_ok_iff {m : Module} (h : m.Fits) (m' : Module) :
    decode m.encode = .ok m' ↔ m.WellFormed ∧ m' = m := by
  have hencode : m.encode = [0x00, 0x61, 0x73, 0x6d, 0x01, 0x00, 0x00, 0x00] ++
      (encodeNonempty encodeTypeSection m.types ++
        (encodeNonempty encodeFunctionSection m.functionTypes ++
          (encodeNonempty encodeCodeSection m.code ++ []))) := by
    simp only [encode, List.append_assoc, List.append_nil]
    rfl
  -- the sections are read back, which gives the module; the final check is the same on both sides
  have hread := readSections_encode h
    (hencode ▸ (List.sublist_append_right _ _).length_le : _ ≤ m.encode.length)
  rw [decode_eq_ok_iff]
  constructor
  · rintro ⟨words, hwords, hsections, hlengths, hindices⟩
    obtain rfl := List.append_cancel_left (hencode.symm.trans hwords)
    obtain ⟨htypes, hcode, rfl⟩ := (hread m').mp hsections
    exact ⟨⟨htypes, hcode, hlengths, hindices⟩, rfl⟩
  · rintro ⟨⟨htypes, hcode, hlengths, hindices⟩, rfl⟩
    exact ⟨_, hencode, (hread m').mpr ⟨htypes, hcode, rfl⟩, hlengths, hindices⟩

/-- **Reading undoes writing, exactly on well-formed modules**: what was written can be read if and
only if the module is well-formed, and nothing but the module is ever read from it. -/
theorem decode_undoes_encode {m : Module} (h : m.Fits) :
    ((∃ m', decode m.encode = .ok m') ↔ m.WellFormed) ∧
      ∀ m', decode m.encode = .ok m' → m' = m := by
  simp only [decode_encode_eq_ok_iff h]
  exact ⟨⟨fun ⟨_, hm, _⟩ => hm, fun hm => ⟨m, hm, rfl⟩⟩, fun _ hm => hm.2⟩

/-- The sum of two arguments, with more locals than one byte can count. -/
theorem decode_undoes_encode_addition :
    Fits ⟨[.binary], [0], [⟨200, [0x20, 0, 0x20, 1, 0x6a, 0x0b]⟩]⟩ ∧
      decode (encode ⟨[.binary], [0], [⟨200, [0x20, 0, 0x20, 1, 0x6a, 0x0b]⟩]⟩) =
        .ok ⟨[.binary], [0], [⟨200, [0x20, 0, 0x20, 1, 0x6a, 0x0b]⟩]⟩ := by
  have hfits : Fits ⟨[.binary], [0], [⟨200, [0x20, 0, 0x20, 1, 0x6a, 0x0b]⟩]⟩ :=
    ⟨by decide, by decide, by decide⟩
  obtain ⟨hread, hunique⟩ := decode_undoes_encode hfits
  obtain ⟨m', hm'⟩ := hread.mpr
    { types := List.forall_mem_singleton.mpr ⟨by decide, by decide, by decide⟩
      code := List.forall_mem_singleton.mpr ⟨by decide, by decide⟩
      lengths := rfl
      indices := List.forall_mem_singleton.mpr (by decide) }
  exact ⟨hfits, hunique m' hm' ▸ hm'⟩

end Module

end WasmJit
