import WasmJit.Proofs.Format.Entries

/-!
# Reading accepts exactly the grammar

Reading a module keeps the number of the last section and the module as far as it is read. What a
list of sections makes of a module (`Section.Fill`) is what the first makes of it and then what the
others make of the result, as long as no two of them are about the same list; this is what the
ascending order of sections is for.

* `Module.readSections_eq_ok_iff` is what reading the sections of a module accepts.
* `Module.decode_accepts_grammar` is what reading a module accepts.
-/

namespace WasmJit

/-! ### Sections one after the other -/

namespace Section

variable {α : Type} {G : Format α} {s : Section} {ss : List Section} {id : SectionId}
  {absent xs : List α} {m m' : Module} {last : SectionId}

/-- Without a section for it, a list stays as it was. -/
theorem hold_of_absent (h : ∀ s ∈ ss, s.id ≠ id) : Hold ss id G absent xs ↔ xs = absent :=
  ⟨fun hold => hold.2 h, fun hxs => ⟨fun s hs hid => absurd hid (h s hs), fun _ => hxs⟩⟩

/-- The only section for a list decides what it holds, whatever it held before. -/
theorem hold_cons_of_eq (hid : s.id = id) (h : ∀ t ∈ ss, t.id ≠ id) :
    Hold (s :: ss) id G absent xs ↔ Format.Counted G s.content xs := by
  refine ⟨fun hold => hold.1 s List.mem_cons_self hid, fun hs => ?_⟩
  refine ⟨fun t ht hid' => ?_, fun hne => ?_⟩
  · rcases List.mem_cons.mp ht with rfl | ht
    · exact hs
    · exact absurd hid' (h t ht)
  · exact absurd hid (hne s List.mem_cons_self)

/-- Sections for other lists do not matter. -/
theorem hold_cons_of_ne (hid : s.id ≠ id) :
    Hold (s :: ss) id G absent xs ↔ Hold ss id G absent xs := by
  simp [Hold, hid]

/-- **The first section and then the others say what a list holds**, if they do not both do. If they
both did, the second one would replace what the first one says on the right, while on the left both
would have to say the same. -/
theorem hold_cons_iff (h : s.id = id → ∀ t ∈ ss, t.id ≠ id) :
    Hold (s :: ss) id G absent xs ↔ ∃ ys, Hold [s] id G absent ys ∧ Hold ss id G ys xs := by
  by_cases hid : s.id = id
  · simp only [hold_cons_of_eq hid (h hid), hold_cons_of_eq hid (List.forall_mem_nil _),
      hold_of_absent (h hid), exists_eq_right']
  · simp only [hold_cons_of_ne hid, hold_of_absent (List.forall_mem_nil _), exists_eq_left]

/-- Sections that are not custom ones are about lists of their own. -/
def Distinct (s : Section) (ss : List Section) : Prop :=
  s.id.byte ≠ 0 → ∀ t ∈ ss, t.id ≠ s.id

/-- The form in which the lists of a module use it. -/
theorem Distinct.ne (h : s.Distinct ss) (hid : id.byte ≠ 0) :
    s.id = id → ∀ t ∈ ss, t.id ≠ id := by
  rintro rfl
  exact h hid

theorem fill_nil_iff : Fill [] m m' ↔ m' = m := by
  constructor
  · rintro ⟨-, -, ⟨-, htypes⟩, ⟨-, hfunctions⟩, ⟨-, hcode⟩⟩
    cases m
    cases m'
    simp_all
  · rintro rfl
    exact ⟨nofun, nofun, ⟨nofun, fun _ => rfl⟩, ⟨nofun, fun _ => rfl⟩, ⟨nofun, fun _ => rfl⟩⟩

/-- **Sections fill a module one after the other.** Both sides are about three lists, each of which
goes by `hold_cons_iff`. -/
theorem fill_cons_iff (h : s.Distinct ss) :
    Fill (s :: ss) m m' ↔ ∃ m₁, Fill [s] m m₁ ∧ Fill ss m₁ m' := by
  constructor
  · rintro ⟨hknown, hnamed, htypes, hfunctions, hcode⟩
    -- the module in between has the lists that the first section leaves
    obtain ⟨types, htypes, htypes'⟩ := (hold_cons_iff (h.ne (by decide))).mp htypes
    obtain ⟨functions, hfunctions, hfunctions'⟩ := (hold_cons_iff (h.ne (by decide))).mp hfunctions
    obtain ⟨code, hcode, hcode'⟩ := (hold_cons_iff (h.ne (by decide))).mp hcode
    rw [List.forall_mem_cons] at hknown hnamed
    refine ⟨⟨types, functions, code⟩, ⟨?_, ?_, htypes, hfunctions, hcode⟩,
      ⟨hknown.2, hnamed.2, htypes', hfunctions', hcode'⟩⟩
    · exact List.forall_mem_singleton.mpr hknown.1
    · exact List.forall_mem_singleton.mpr hnamed.1
  · rintro ⟨m₁, hs, hss⟩
    refine ⟨?_, ?_, ?_, ?_, ?_⟩
    · exact List.forall_mem_cons.mpr ⟨hs.known s List.mem_cons_self, hss.known⟩
    · exact List.forall_mem_cons.mpr ⟨hs.named s List.mem_cons_self, hss.named⟩
    · exact (hold_cons_iff (h.ne (by decide))).mpr ⟨_, hs.types, hss.types⟩
    · exact (hold_cons_iff (h.ne (by decide))).mpr ⟨_, hs.functionTypes, hss.functionTypes⟩
    · exact (hold_cons_iff (h.ne (by decide))).mpr ⟨_, hs.code, hss.code⟩

/-! ### The order of sections -/

/-- The last section that is not a custom one, if it was `last` before the section `s`. -/
def after (s : Section) (last : SectionId) : SectionId :=
  if s.id.byte = 0 then last else s.id

theorem mem_order {b : UInt8} : b ∈ order ss ↔ b ≠ 0 ∧ ∃ s ∈ ss, s.id.byte = b := by
  simp [order, and_comm]

/-- **Sections are in order** if the first comes after the last one before them, and the others
after the first. A custom section has no place in the order: it is passed over, and what was last
stays so. -/
theorem ascending_cons_iff :
    (last.byte :: order (s :: ss)).Pairwise (· < ·) ↔
      (s.id.byte = 0 ∨ last.byte < s.id.byte) ∧
        ((s.after last).byte :: order ss).Pairwise (· < ·) := by
  unfold after
  by_cases hid : s.id.byte = 0
  · have horder : order (s :: ss) = order ss := by simp [order, hid]
    rw [horder, if_pos hid]
    simp [hid]
  · have horder : order (s :: ss) = s.id.byte :: order ss := by simp [order, hid]
    rw [horder, if_neg hid, List.pairwise_cons, List.forall_mem_cons]
    constructor
    · rintro ⟨⟨hlt, -⟩, hrest⟩
      exact ⟨.inr hlt, hrest⟩
    · rintro ⟨hlt, hrest⟩
      have hlt := hlt.resolve_left hid
      refine ⟨⟨hlt, fun b hb => ?_⟩, hrest⟩
      -- the order is transitive, so it is enough to compare neighbours
      exact UInt8.lt_trans hlt ((List.pairwise_cons.mp hrest).1 b hb)

/-- In ascending order no two sections have the same number, so no two are about the same list. -/
theorem distinct_of_ascending (h : ((s.after last).byte :: order ss).Pairwise (· < ·)) :
    s.Distinct ss := by
  intro hid t ht heq
  rw [after, if_neg hid] at h
  have hmem : s.id.byte ∈ order ss := mem_order.mpr ⟨hid, t, ht, congrArg SectionId.byte heq⟩
  exact UInt8.lt_irrefl _ ((List.pairwise_cons.mp h).1 _ hmem)

/-! ### One section -/

theorem Written.length_pos {w : List UInt8} (h : Written w s) : 0 < w.length := by
  obtain ⟨size, rfl, -⟩ := h
  exact Nat.succ_pos _

/-- What a single section has to satisfy. The next four lemmas say this for each section that is
read. -/
theorem fill_singleton_iff :
    Fill [s] m m' ↔ s.id.byte ∈ [0, 1, 3, 10] ∧ (s.id.byte = 0 → s.Named) ∧
      Hold [s] ⟨1⟩ FunctionType.Written m.types m'.types ∧
      Hold [s] ⟨3⟩ Format.U32 m.functionTypes m'.functionTypes ∧
      Hold [s] ⟨10⟩ Code.Written m.code m'.code := by
  constructor
  · rintro ⟨hknown, hnamed, htypes, hfunctions, hcode⟩
    exact ⟨hknown s List.mem_cons_self, hnamed s List.mem_cons_self, htypes, hfunctions, hcode⟩
  · rintro ⟨hknown, hnamed, htypes, hfunctions, hcode⟩
    exact ⟨List.forall_mem_singleton.mpr hknown, List.forall_mem_singleton.mpr hnamed, htypes,
      hfunctions, hcode⟩

/-- A section that is not a custom one only has to hold its list. -/
theorem fill_singleton_iff_hold (hs : s.id.byte ∈ [1, 3, 10]) :
    Fill [s] m m' ↔ Hold [s] ⟨1⟩ FunctionType.Written m.types m'.types ∧
      Hold [s] ⟨3⟩ Format.U32 m.functionTypes m'.functionTypes ∧
      Hold [s] ⟨10⟩ Code.Written m.code m'.code := by
  rw [fill_singleton_iff]
  have hcustom : s.id.byte ≠ 0 := fun hzero => by
    rw [hzero] at hs
    exact absurd hs (by decide)
  exact ⟨fun h => h.2.2, fun h => ⟨List.mem_cons_of_mem 0 hs, fun hzero => absurd hzero hcustom, h⟩⟩

theorem hold_singleton_of_eq (hid : s.id = id) :
    Hold [s] id G absent xs ↔ Format.Counted G s.content xs :=
  hold_cons_of_eq hid (List.forall_mem_nil _)

theorem hold_singleton_of_ne (hid : s.id ≠ id) : Hold [s] id G absent xs ↔ xs = absent := by
  rw [hold_cons_of_ne hid, hold_of_absent (List.forall_mem_nil _)]

variable {content : List UInt8}

/-- A custom section has to have a name, and leaves the module as it is. -/
theorem fill_custom_iff :
    Fill [⟨.custom, content⟩] m m' ↔ Named ⟨.custom, content⟩ ∧ m' = m := by
  rw [fill_singleton_iff, hold_singleton_of_ne (by decide : SectionId.custom ≠ ⟨1⟩),
    hold_singleton_of_ne (by decide : SectionId.custom ≠ ⟨3⟩),
    hold_singleton_of_ne (by decide : SectionId.custom ≠ ⟨10⟩)]
  constructor
  · rintro ⟨-, hnamed, htypes, hfunctions, hcode⟩
    -- all three lists are as before, so the module is
    cases m'
    cases htypes
    cases hfunctions
    cases hcode
    exact ⟨hnamed rfl, rfl⟩
  · rintro ⟨hnamed, rfl⟩
    exact ⟨List.mem_cons_self, fun _ => hnamed, rfl, rfl, rfl⟩

/-- A section of signatures replaces the signatures. -/
theorem fill_type_iff :
    Fill [⟨.type, content⟩] m m' ↔
      ∃ types, Format.Counted FunctionType.Written content types ∧ { m with types } = m' := by
  rw [fill_singleton_iff_hold (by decide : SectionId.type.byte ∈ [1, 3, 10]),
    hold_singleton_of_eq (rfl : SectionId.type = ⟨1⟩),
    hold_singleton_of_ne (by decide : SectionId.type ≠ ⟨3⟩),
    hold_singleton_of_ne (by decide : SectionId.type ≠ ⟨10⟩)]
  constructor
  · rintro ⟨htypes, hfunctions, hcode⟩
    exact ⟨m'.types, htypes, by rw [← hfunctions, ← hcode]⟩
  · rintro ⟨types, htypes, rfl⟩
    exact ⟨htypes, rfl, rfl⟩

/-- A section of functions replaces the list of their signatures. -/
theorem fill_function_iff :
    Fill [⟨.function, content⟩] m m' ↔
      ∃ functionTypes, Format.Counted Format.U32 content functionTypes ∧
        { m with functionTypes } = m' := by
  rw [fill_singleton_iff_hold (by decide : SectionId.function.byte ∈ [1, 3, 10]),
    hold_singleton_of_ne (by decide : SectionId.function ≠ ⟨1⟩),
    hold_singleton_of_eq (rfl : SectionId.function = ⟨3⟩),
    hold_singleton_of_ne (by decide : SectionId.function ≠ ⟨10⟩)]
  constructor
  · rintro ⟨htypes, hfunctions, hcode⟩
    exact ⟨m'.functionTypes, hfunctions, by rw [← htypes, ← hcode]⟩
  · rintro ⟨functionTypes, hfunctions, rfl⟩
    exact ⟨rfl, hfunctions, rfl⟩

/-- A section of bodies replaces the bodies. -/
theorem fill_code_iff :
    Fill [⟨.code, content⟩] m m' ↔
      ∃ code, Format.Counted Code.Written content code ∧ { m with code } = m' := by
  rw [fill_singleton_iff_hold (by decide : SectionId.code.byte ∈ [1, 3, 10]),
    hold_singleton_of_ne (by decide : SectionId.code ≠ ⟨1⟩),
    hold_singleton_of_ne (by decide : SectionId.code ≠ ⟨3⟩),
    hold_singleton_of_eq (rfl : SectionId.code = ⟨10⟩)]
  constructor
  · rintro ⟨htypes, hfunctions, hcode⟩
    exact ⟨m'.code, hcode, by rw [← htypes, ← hfunctions]⟩
  · rintro ⟨code, hcode, rfl⟩
    exact ⟨rfl, rfl, hcode⟩

end Section

/-! ### Reading one section -/

namespace Module

/-- A name, in the steps in which it is read: a size, as many bytes, and the check that they are a
text. What follows the name is left over in both forms. -/
theorem named_iff {s : Section} :
    s.Named ↔ ∃ n b, Varint.readU32 s.content = .ok (n, b) ∧ n.toNat ≤ b.length ∧
      Utf8.valid (b.take n.toNat) = true := by
  constructor
  · rintro ⟨_, free, text, hcontent, size, name, rfl, hsize, htext⟩
    obtain ⟨n, b, hn, hle, rfl, -⟩ :=
      Format.exists_sized_iff.mpr ⟨size, hcontent.trans (List.append_assoc ..), hsize⟩
    exact ⟨n, b, hn, hle, (Utf8.valid_iff _).mpr ⟨text, htext⟩⟩
  · rintro ⟨n, b, hn, hle, hvalid⟩
    obtain ⟨size, hcontent, hsize⟩ := Format.exists_sized_iff.mp ⟨n, b, hn, hle, rfl, rfl⟩
    obtain ⟨text, htext⟩ := (Utf8.valid_iff _).mp hvalid
    exact ⟨_, _, text, hcontent.trans (List.append_assoc ..).symm, size, _, rfl, hsize, htext⟩

/-- **A custom section is accepted if it has a name.** -/
theorem checkCustom_eq_ok_iff {content : List UInt8} :
    checkCustom content = .ok () ↔ Section.Named ⟨.custom, content⟩ := by
  rw [named_iff]
  unfold checkCustom
  -- its length cannot be read, is too large for the content, or is that of the name
  split
  · next hread =>
    rw [hread]
    exact ⟨nofun, fun ⟨_, _, h, _⟩ => nomatch h⟩
  · next size rest hread =>
    -- the number that was read is the only one at the head, so there is nothing to choose
    have hname : (∃ n b, Varint.readU32 content = .ok (n, b) ∧ n.toNat ≤ b.length ∧
        Utf8.valid (b.take n.toNat) = true) ↔
        size.toNat ≤ rest.length ∧ Utf8.valid (rest.take size.toNat) = true := by
      rw [hread]
      refine ⟨?_, fun h => ⟨size, rest, rfl, h⟩⟩
      rintro ⟨_, _, heq, h⟩
      cases heq
      exact h
    rw [hname]
    split
    · next hlt => exact ⟨nofun, fun h => absurd hlt (Nat.not_lt.mpr h.1)⟩
    · next hle =>
      split
      · next hvalid => exact ⟨fun _ => ⟨Nat.not_lt.mp hle, hvalid⟩, fun _ => rfl⟩
      · next hinvalid => exact ⟨nofun, fun h => absurd h.2 hinvalid⟩

/-- **Reading the content of a section** fills the module with it. The cases follow the reader: it
asks for the four numbers one after the other. -/
theorem readContent_eq_ok_iff (s : Section) (m m' : Module) :
    readContent s.id s.content m = .ok m' ↔ Section.Fill [s] m m' := by
  obtain ⟨id, content⟩ := s
  unfold readContent
  dsimp only
  -- a custom section is checked and dropped, the next three fill in their part of the module
  split
  · next hid =>
    subst hid
    rw [Except.map_eq_ok, Section.fill_custom_iff, ← checkCustom_eq_ok_iff]
    exact ⟨fun ⟨_, h, hm⟩ => ⟨h, hm.symm⟩, fun ⟨h, hm⟩ => ⟨(), h, hm.symm⟩⟩
  split
  · next hid =>
    subst hid
    simp only [Except.map_eq_ok, Section.fill_type_iff,
      readVector_eq_ok_iff (FunctionType.readBy_read.mapError EntryError.type)]
  split
  · next hid =>
    subst hid
    simp only [Except.map_eq_ok, Section.fill_function_iff,
      readVector_eq_ok_iff (Varint.readBy_readU32.mapError EntryError.typeIndex)]
  split
  · next hid =>
    subst hid
    simp only [Except.map_eq_ok, Section.fill_code_iff,
      readVector_eq_ok_iff (Code.readBy_read.mapError EntryError.code)]
  · -- no other section is read, whether it is known or not
    next hcustom htype hfunction hcode =>
    constructor
    · intro h
      split at h <;> cases h
    · intro h
      have hknown := h.known _ List.mem_cons_self
      obtain ⟨byte⟩ := id
      simp_all [SectionId.custom, SectionId.type, SectionId.function, SectionId.code]

/-- **Reading a section** takes its word off and fills the module with it, if it is in order. The
order is checked after the frame, but as both have to hold, this does not show in what is accepted.
-/
theorem readSection_eq_ok_iff (id last : SectionId) (bytes : List UInt8) (m m' : Module)
    (rest : List UInt8) :
    readSection id last bytes m = .ok (m', rest) ↔
      ∃ content, (∃ w, id.byte :: bytes = w ++ rest ∧ Section.Written w ⟨id, content⟩) ∧
        (id.byte = 0 ∨ last.byte < id.byte) ∧ Section.Fill [⟨id, content⟩] m m' := by
  -- what is refused, and what the order of the format asks for
  have horder : ¬ (id ≠ .custom ∧ id.byte ≤ last.byte) ↔ id.byte = 0 ∨ last.byte < id.byte := by
    obtain ⟨byte⟩ := id
    rw [Classical.not_and_iff_not_or_not, Classical.not_not, UInt8.not_le, SectionId.custom,
      SectionId.mk.injEq]
  unfold readSection
  simp only [Except.bind_eq_ok, Except.mapError_eq_ok, Except.check_eq_ok, Except.pure_eq_ok,
    Prod.exists, Nat.not_lt, horder]
  constructor
  · rintro ⟨n, b, hn, hle, hord, m₁, hm₁, heq⟩
    cases heq
    -- the bytes of the section are its identifier, its size and its content
    obtain ⟨size, rfl, hsize⟩ := Format.exists_sized_iff.mp ⟨n, b, hn, hle, rfl, rfl⟩
    refine ⟨b.take n.toNat, ⟨_, ?_, size, rfl, hsize⟩, hord, (readContent_eq_ok_iff _ _ _).mp hm₁⟩
    rw [List.cons_append, List.append_assoc]
  · rintro ⟨content, ⟨_, hw, size, rfl, hsize⟩, hord, hfill⟩
    cases hw
    obtain ⟨n, b, hn, hle, htake, hdrop⟩ :=
      Format.exists_sized_iff.mpr ⟨size, List.append_assoc size content rest, hsize⟩
    refine ⟨n, b, hn, hle, hord, m', ?_, by rw [hdrop]⟩
    rw [htake]
    exact (readContent_eq_ok_iff ⟨id, content⟩ m m').mpr hfill

/-! ### Reading all sections -/

/-- No bytes are no sections. -/
theorem eq_nil_of_sequence_nil {sections : List Section}
    (h : Format.Sequence Section.Written [] sections) : sections = [] := by
  -- the word has to be a variable for the case distinction
  generalize hw : ([] : List UInt8) = w at h
  cases h with
  | nil => rfl
  | cons head _ =>
    obtain ⟨_, rfl, -⟩ := head
    cases hw

/-- **Reading sections** accepts sections in order, and fills the module with them. By recursion
over the bytes: the state of the reader is the last section and the module so far, and
`Section.ascending_cons_iff` and `Section.fill_cons_iff` say how the format takes the first section
off in the same way. -/
theorem readSections_eq_ok_iff {fuel : Nat} (last : SectionId) (m : Module) {bytes : List UInt8}
    (m' : Module) (hfuel : bytes.length ≤ fuel) :
    readSections fuel last m bytes = .ok m' ↔
      ∃ sections, Format.Sequence Section.Written bytes sections ∧
        (last.byte :: Section.order sections).Pairwise (· < ·) ∧ Section.Fill sections m m' := by
  cases bytes with
  | nil =>
    -- nothing is left, and nothing is filled in
    have hread : readSections fuel last m [] = .ok m := by cases fuel <;> rfl
    rw [hread]
    constructor
    · rintro h
      cases h
      exact ⟨[], .nil, List.pairwise_singleton .., Section.fill_nil_iff.mpr rfl⟩
    · rintro ⟨sections, hwords, -, hfill⟩
      cases eq_nil_of_sequence_nil hwords
      rw [Section.fill_nil_iff.mp hfill]
  | cons id bytes =>
    obtain ⟨fuel, rfl⟩ : ∃ k, fuel = k + 1 := ⟨fuel - 1, by rw [List.length_cons] at hfuel; omega⟩
    rw [readSections]
    constructor
    · intro h
      split at h
      · cases h
      · next m₁ rest hsection =>
        obtain ⟨content, ⟨w, hw, hs⟩, hordered, hfill⟩ :=
          (readSection_eq_ok_iff _ _ _ _ _ _).mp hsection
        -- a section takes at least one byte, so the limit is enough for the others
        have hrest : rest.length ≤ fuel := by
          have := hs.length_pos
          have := congrArg List.length hw
          simp only [List.length_append, List.length_cons] at this hfuel
          omega
        obtain ⟨sections, hwords, hascending, hfill'⟩ :=
          (readSections_eq_ok_iff (Section.after ⟨⟨id⟩, content⟩ last) m₁ m' hrest).mp h
        refine ⟨⟨⟨id⟩, content⟩ :: sections, hw ▸ .cons hs hwords,
          Section.ascending_cons_iff.mpr ⟨hordered, hascending⟩, ?_⟩
        exact (Section.fill_cons_iff (Section.distinct_of_ascending hascending)).mpr
          ⟨m₁, hfill, hfill'⟩
    · rintro ⟨sections, hwords, hascending, hfill⟩
      generalize hw : id :: bytes = w at hwords
      cases hwords with
      | nil => cases hw
      | @cons v rest s sections head tail =>
        obtain ⟨hordered, hascending⟩ := Section.ascending_cons_iff.mp hascending
        obtain ⟨m₁, hfill, hfill'⟩ :=
          (Section.fill_cons_iff (Section.distinct_of_ascending hascending)).mp hfill
        -- the word of the first section starts with its byte
        obtain ⟨⟨byte⟩, content⟩ := s
        obtain rfl : byte = id := by
          obtain ⟨size, rfl, -⟩ := head
          cases hw
          rfl
        have hrest : rest.length ≤ fuel := by
          have := head.length_pos
          have := congrArg List.length hw
          simp only [List.length_append, List.length_cons] at this hfuel
          omega
        rw [(readSection_eq_ok_iff _ _ _ _ m₁ rest).mpr
          ⟨content, ⟨v, hw, head⟩, hordered, hfill⟩]
        exact (readSections_eq_ok_iff _ m₁ m' hrest).mpr ⟨sections, tail, hascending, hfill'⟩

/-! ### Modules -/

/-- **Functions can be joined** if there are as many bodies and all their signatures exist. By
induction on the signatures; the index only says which function is at fault. -/
theorem exists_join_iff {types : List FunctionType} (index : Nat) {ts : List UInt32}
    {cs : List Code} (h : ts.length = cs.length) :
    (∃ fs, join types index ts cs = .ok fs) ↔ ∀ t ∈ ts, t.toNat < types.length := by
  induction ts generalizing index cs with
  | nil => exact ⟨fun _ => nofun, fun _ => ⟨[], by cases cs <;> rfl⟩⟩
  | cons t ts ih =>
    cases cs with
    | nil => cases h
    | cons c cs =>
      rw [List.forall_mem_cons, ← ih (index + 1) (Nat.succ.inj h), join]
      cases htype : types[t.toNat]? with
      -- the type index is out of range, or the rest has to be joined
      | none =>
        have := List.getElem?_eq_none_iff.mp htype
        exact ⟨nofun, fun ⟨hlt, _⟩ => absurd hlt (Nat.not_lt.mpr this)⟩
      | some type =>
        obtain ⟨hlt, -⟩ := List.getElem?_eq_some_iff.mp htype
        simp only [Except.map_eq_ok]
        exact ⟨fun ⟨_, fs, hfs, _⟩ => ⟨hlt, fs, hfs⟩, fun ⟨_, fs, hfs⟩ => ⟨_, fs, hfs, rfl⟩⟩

/-- The functions of a module exist if its lists fit together. -/
theorem exists_functions_iff {m : Module} :
    (∃ fs, m.functions = .ok fs) ↔
      m.functionTypes.length = m.code.length ∧ ∀ t ∈ m.functionTypes, t.toNat < m.types.length := by
  unfold functions
  split
  · next hne => exact ⟨nofun, fun h => absurd h.1 hne⟩
  · next heq =>
    have heq := Classical.not_not.mp heq
    rw [exists_join_iff 0 heq]
    exact ⟨fun h => ⟨heq, h⟩, fun h => h.2⟩

/-- The first eight bytes. They are compared in two parts of four, which is one comparison if both
have to succeed. -/
theorem header_iff {b words : List UInt8} :
    (b.take 4 = magic ∧ (b.drop 4).take 4 = version) ∧ b.drop 8 = words ↔
      b = [0x00, 0x61, 0x73, 0x6d, 0x01, 0x00, 0x00, 0x00] ++ words := by
  constructor
  · rintro ⟨⟨hmagic, hversion⟩, rfl⟩
    calc b = b.take 4 ++ ((b.drop 4).take 4 ++ (b.drop 4).drop 4) := by
          rw [List.take_append_drop, List.take_append_drop]
      _ = magic ++ (version ++ b.drop 8) := by rw [hmagic, hversion, List.drop_drop]
  · rintro rfl
    exact ⟨⟨rfl, rfl⟩, rfl⟩

/-- Reading a module reads its sections after the first eight bytes, and joins its lists. -/
theorem decode_eq_ok_iff (b : List UInt8) (m : Module) :
    decode b = .ok m ↔
      ∃ words, b = [0x00, 0x61, 0x73, 0x6d, 0x01, 0x00, 0x00, 0x00] ++ words ∧
        readSections b.length .custom .empty words = .ok m ∧
        m.functionTypes.length = m.code.length ∧
        ∀ t ∈ m.functionTypes, t.toNat < m.types.length := by
  unfold decode
  simp only [Except.bind_eq_ok, Except.mapError_eq_ok, Except.check_eq_ok, Except.pure_eq_ok,
    Classical.not_not, ne_eq, ← exists_functions_iff]
  constructor
  · rintro ⟨hmagic, hversion, m, hread, fs, hfs, rfl⟩
    exact ⟨b.drop 8, header_iff.mp ⟨⟨hmagic, hversion⟩, rfl⟩, hread, fs, hfs⟩
  · rintro ⟨words, hb, hread, fs, hfs⟩
    obtain ⟨⟨hmagic, hversion⟩, rfl⟩ := header_iff.mpr hb
    exact ⟨hmagic, hversion, m, hread, fs, hfs, rfl⟩

/-- **Reading a module accepts exactly the grammar**, and gives what the grammar says. -/
theorem decode_accepts_grammar (b : List UInt8) (m : Module) :
    decode b = .ok m ↔ Written b m := by
  rw [decode_eq_ok_iff]
  constructor
  · rintro ⟨words, rfl, hread, hjoin⟩
    rw [readSections_eq_ok_iff .custom .empty m (by rw [List.length_append]; omega)] at hread
    obtain ⟨sections, hwords, hascending, hfill⟩ := hread
    exact ⟨words, sections, rfl, hwords, (List.pairwise_cons.mp hascending).2, hfill, hjoin⟩
  · rintro ⟨words, sections, rfl, hwords, hascending, hfill, hjoin⟩
    refine ⟨words, rfl, ?_, hjoin⟩
    rw [readSections_eq_ok_iff .custom .empty m (by rw [List.length_append]; omega)]
    -- every section that is not a custom one comes after the number zero
    refine ⟨sections, hwords, List.pairwise_cons.mpr ⟨fun byte hbyte => ?_, hascending⟩, hfill⟩
    exact UInt8.pos_iff_ne_zero.mpr (Section.mem_order.mp hbyte).1

end Module

end WasmJit
