import WasmJit.Proofs.Format.RoundTrip

/-!
# The canonical form of a module

The same module can be written in many ways: numbers can be padded, locals can be declared bit by
bit, empty lists can have sections, and custom sections are free. What `Module.encode` writes is
never longer than any of them (`Format.Shortest` at every level of the format), so all sizes of a
module that was read still fit when it is written again.

* `Code.mul_sum_lt_pow` is why one declaration takes no more bytes than many.
* `Module.length_encode_le_of_fill` is what the sections of a module add to the bytes it is written
  in.
* `Module.reencode_canonical` says that writing what was read is a canonical form.
-/

namespace WasmJit

/-! ### The shortest words -/

/-- **A writer of shortest words**: no word of the format for the same value is shorter. -/
def Format.Shortest {α : Type} (G : Format α) (encode : α → List UInt8) : Prop :=
  ∀ w x, G w x → (encode x).length ≤ w.length

namespace Format.Shortest

variable {α : Type} {G : Format α} {encode : α → List UInt8}

/-- The bound holds word by word, so it holds of sequences. -/
theorem length_flatMap_le (h : G.Shortest encode) {w : List UInt8} {xs : List α}
    (hw : Sequence G w xs) : (xs.flatMap encode).length ≤ w.length := by
  induction hw with
  | nil => exact Nat.le_refl 0
  | cons head _ ih =>
    rw [List.flatMap_cons, List.length_append, List.length_append]
    exact Nat.add_le_add (h _ _ head) ih

/-- **Counted lists** are written shortest: no count for the same number of words is shorter than
the one that is written. -/
theorem counted (h : G.Shortest encode) : (Counted G).Shortest (Module.encodeVector encode) := by
  rintro _ xs ⟨count, words, rfl, hcount, hwords⟩
  rw [Module.encodeVector, List.length_append, List.length_append]
  exact Nat.add_le_add (Varint.length_encodeLength_le_of_unsigned hcount (Nat.le_refl _))
    (h.length_flatMap_le hwords)

/-- **Sized contents** are written shortest. The content may get shorter, and then so may its size,
which is why sizes are compared for numbers that differ. -/
theorem sized (h : G.Shortest encode) :
    (Sized G).Shortest fun x => Varint.encodeLength (encode x).length ++ encode x := by
  rintro _ x ⟨size, content, rfl, hsize, hcontent⟩
  have hle := h _ _ hcontent
  rw [List.length_append, List.length_append]
  exact Nat.add_le_add (Varint.length_encodeLength_le_of_unsigned hsize hle) hle

end Format.Shortest

/-- Padding is the only thing that makes a number longer. -/
theorem Varint.shortest_encodeU32 : Format.U32.Shortest encodeU32 := by
  intro w v hw
  have hle := length_encodeLength_le_of_unsigned hw (Nat.le_refl _)
  rwa [encodeLength, UInt32.ofNat_toNat] at hle

/-- The types of a signature have no other words, so only their count can be padded. -/
theorem FunctionType.shortest_encodeTypes :
    (Format.Counted ValueType.Written).Shortest encodeTypes := by
  rintro _ ts ⟨count, words, rfl, hcount, hwords⟩
  obtain ⟨rfl, -⟩ := ValueType.sequence_iff.mp hwords
  rw [encodeTypes, List.length_append, List.length_append]
  exact Nat.add_le_add_right (Varint.length_encodeLength_le_of_unsigned hcount (Nat.le_refl _)) _

theorem FunctionType.shortest_encode : Written.Shortest encode := by
  rintro _ t ⟨params, results, rfl, hparams, hresults, -⟩
  rw [encode, List.length_cons, List.length_cons, List.length_append, List.length_append]
  have := shortest_encodeTypes _ _ hparams
  have := shortest_encodeTypes _ _ hresults
  omega

namespace Code

/-- **Every declaration takes a byte more than its number**, which leaves room for the sum of all.
This is the induction behind one declaration being no longer than many: a sum may need one bit more
than its largest part, and there is a byte for each part. -/
theorem mul_sum_lt_pow {w : List UInt8} {counts : List Nat}
    (h : Format.Sequence Declaration w counts) : 128 * counts.sum < 128 ^ w.length := by
  induction h with
  | nil => exact Nat.one_pos
  | @cons _ w k counts head _ ih =>
    obtain ⟨count, rfl, hcount⟩ := head
    have hpos : 0 < 128 ^ w.length := Nat.pow_pos (by decide)
    have hpow : 128 ^ (count ++ [0x7f] ++ w).length =
        128 * 128 ^ count.length * 128 ^ w.length := by
      rw [List.length_append, List.length_append, List.length_singleton, Nat.pow_add, Nat.pow_succ']
    rw [List.sum_cons, hpow]
    -- the byte of the type makes up for what the sum may carry over
    calc 128 * (k + counts.sum) < 128 * k + 128 ^ w.length := by omega
      _ ≤ 128 * k * 128 ^ w.length + 128 * 128 ^ w.length :=
        Nat.add_le_add (Nat.le_mul_of_pos_right _ hpos) (Nat.le_mul_of_pos_left _ (by decide))
      _ = 128 * (k + 1) * 128 ^ w.length := by rw [← Nat.add_mul, Nat.mul_succ]
      _ ≤ 128 * 128 ^ count.length * 128 ^ w.length :=
        Nat.mul_le_mul_right _ (Nat.mul_le_mul_left _ hcount.lt_pow)

/-- **One declaration of all locals takes no more bytes than many.** The strict bound leaves room
for the byte of the type in the one declaration that is written. -/
theorem length_encodeLength_sum_lt {w : List UInt8} {counts : List Nat}
    (h : Format.Sequence Declaration w counts) (hsum : 0 < counts.sum) :
    (Varint.encodeLength counts.sum).length < w.length := by
  -- divide by 128, which is the byte of the type
  have hlt := mul_sum_lt_pow h
  obtain ⟨k, hk⟩ : ∃ k, w.length = k + 1 := by
    refine Nat.exists_eq_succ_of_ne_zero fun hzero => ?_
    rw [hzero, Nat.pow_zero] at hlt
    omega
  rw [hk, Nat.pow_succ'] at hlt
  have hlt := Nat.lt_of_mul_lt_mul_left hlt
  have hpos : 0 < k := by
    refine Nat.pos_of_ne_zero fun hzero => ?_
    rw [hzero, Nat.pow_zero] at hlt
    omega
  rw [hk, Nat.lt_succ_iff]
  exact Varint.length_encodeLength_le hpos hlt

/-- The declarations that are written are no longer than those that were read: none at all without
locals, and one otherwise. -/
theorem length_encodeLocals_le {w : List UInt8} {counts : List Nat} {n : UInt32}
    (hw : Format.Counted Declaration w counts) (hn : n.toNat = counts.sum) :
    (encodeLocals n).length ≤ w.length := by
  obtain ⟨count, words, rfl, hcount, hwords⟩ := hw
  have hpos := hcount.length_pos
  rw [List.length_append]
  unfold encodeLocals
  split
  · -- without locals there is a count of zero
    rw [List.length_singleton]
    omega
  · next hne =>
    have hsum : 0 < counts.sum := by
      rw [← hn]
      exact Nat.pos_of_ne_zero fun hzero => hne (UInt32.toNat_inj.mp hzero)
    have hlt := length_encodeLength_sum_lt hwords hsum
    rw [← hn, Varint.encodeLength, UInt32.ofNat_toNat] at hlt
    rw [List.length_cons, List.length_append, List.length_singleton]
    omega

/-- Instructions are written as they were read, so only the declarations matter. -/
theorem shortest_content : Content.Shortest fun c => encodeLocals c.numLocals ++ c.body := by
  rintro _ c ⟨declarations, counts, rfl, hdeclarations, hlocals, -, -⟩
  dsimp only
  rw [List.length_append, List.length_append]
  exact Nat.add_le_add_right (length_encodeLocals_le hdeclarations hlocals) _

theorem shortest_encode : Written.Shortest encode :=
  shortest_content.sized

end Code

/-! ### Entries of modules that were read -/

/-- Each value of a sequence has a word of its own. -/
theorem Format.Sequence.exists_of_mem {α : Type} {G : Format α} {w : List UInt8} {xs : List α}
    (h : Sequence G w xs) {x : α} (hx : x ∈ xs) : ∃ v, G v x := by
  induction h with
  | nil => cases hx
  | @cons v _ y _ head _ ih =>
    rcases List.mem_cons.mp hx with rfl | hx
    · exact ⟨v, head⟩
    · exact ih hx

/-- What a signature has to satisfy to be written is part of its format. -/
theorem FunctionType.Written.wellFormed {w : List UInt8} {t : FunctionType} (h : Written w t) :
    t.WellFormed := by
  obtain ⟨_, _, _, ⟨_, _, _, _, hparams⟩, ⟨_, _, _, _, hresults⟩, hle⟩ := h
  exact ⟨(ValueType.sequence_iff.mp hparams).2, (ValueType.sequence_iff.mp hresults).2, hle⟩

theorem Code.Written.wellFormed {w : List UInt8} {c : Code} (h : Written w c) : c.WellFormed := by
  obtain ⟨_, _, _, _, _, _, _, _, hlocals, hle, hlast⟩ := h
  exact ⟨hlocals ▸ hle, hlast⟩

namespace Section

variable {α : Type} {G : Format α} {sections : List Section} {id : SectionId} {xs : List α}

/-- A section holds less than `2 ^ 32` bytes, because its size is a number of 32 bits. -/
theorem Written.length_content_lt {w : List UInt8} {s : Section} (h : Written w s) :
    s.content.length < 2 ^ 32 := by
  obtain ⟨_, _, hsize⟩ := h
  exact hsize.lt_two_pow

/-- A list that was empty stays so or is the content of a section: there is no third way to come by
a list. -/
theorem Hold.eq_nil_or_exists (h : Hold sections id G [] xs) :
    xs = [] ∨ ∃ s ∈ sections, Format.Counted G s.content xs := by
  by_cases habsent : ∀ s ∈ sections, s.id ≠ id
  · exact .inl (h.2 habsent)
  · simp only [Classical.not_forall, Classical.not_not] at habsent
    obtain ⟨s, hs, hid⟩ := habsent
    exact .inr ⟨s, hs, h.1 s hs hid⟩

/-- Each entry of a list that was read has a word. -/
theorem Hold.exists_of_mem (h : Hold sections id G [] xs) {x : α} (hx : x ∈ xs) : ∃ v, G v x := by
  rcases h.eq_nil_or_exists with rfl | ⟨s, -, _, _, _, _, hwords⟩
  · cases hx
  · exact hwords.exists_of_mem hx

/-- **A list that was read fits in a section when it is written again.** It was the content of one,
and it is written shortest. -/
theorem Hold.length_encodeVector_lt {encode : α → List UInt8} {words : List UInt8}
    (h : Hold sections id G [] xs) (hG : G.Shortest encode)
    (hwords : Format.Sequence Written words sections) :
    (Module.encodeVector encode xs).length < 2 ^ 32 := by
  rcases h.eq_nil_or_exists with rfl | ⟨s, hs, hcontent⟩
  · -- an empty list has a section of one byte
    have hlength : (Module.encodeVector encode []).length = 1 := rfl
    omega
  · obtain ⟨_, hs⟩ := hwords.exists_of_mem hs
    exact Nat.lt_of_le_of_lt (hG.counted _ _ hcontent) hs.length_content_lt

end Section

namespace Module

/-! ### The bytes of sections -/

/-- The length of a written module, list by list, so that a section only changes one part of it. -/
theorem length_encode (m : Module) :
    m.encode.length = 8 + (encodeNonempty encodeTypeSection m.types).length +
      (encodeNonempty encodeFunctionSection m.functionTypes).length +
      (encodeNonempty encodeCodeSection m.code).length := by
  simp only [encode, List.length_append]
  rfl

/-- A section is not longer if it is written again. -/
theorem length_encodeNonempty_le {α : Type} {G : Format α} {encode : α → List UInt8}
    {write : List α → List UInt8} {w : List UInt8} {s : Section} {xs : List α} {id : SectionId}
    (hwrite : write xs = encodeSection id (encodeVector encode xs)) (hG : G.Shortest encode)
    (hw : Section.Written w s) (hcontent : Format.Counted G s.content xs) :
    (encodeNonempty write xs).length ≤ w.length := by
  unfold encodeNonempty
  split
  · -- empty lists have no section at all
    exact Nat.zero_le _
  · obtain ⟨size, rfl, hsize⟩ := hw
    have hle := hG.counted _ _ hcontent
    have hlength := Varint.length_encodeLength_le_of_unsigned hsize hle
    simp only [hwrite, encodeSection, List.length_cons, List.length_append]
    omega

/-- **One section** adds at most its own bytes to those the module is written in. The cases are the
four sections that are read; each of the last three replaces one list of the module. -/
theorem length_encode_le_of_fill_singleton {w : List UInt8} {s : Section} {m m' : Module}
    (hw : Section.Written w s) (hfill : Section.Fill [s] m m') :
    m'.encode.length ≤ m.encode.length + w.length := by
  have hid := hfill.known s List.mem_cons_self
  obtain ⟨⟨byte⟩, content⟩ := s
  simp only [List.mem_cons, List.not_mem_nil, or_false] at hid
  rcases hid with rfl | rfl | rfl | rfl
  · -- what is in a custom section is lost
    obtain ⟨-, rfl⟩ := Section.fill_custom_iff.mp hfill
    exact Nat.le_add_right _ _
  · obtain ⟨types, hcontent, rfl⟩ := Section.fill_type_iff.mp hfill
    -- the encoding is the shortest way to write this section, and the others stay as they are
    have hle : (encodeNonempty encodeTypeSection types).length ≤ w.length :=
      length_encodeNonempty_le rfl FunctionType.shortest_encode hw hcontent
    simp only [length_encode]
    omega
  · obtain ⟨functionTypes, hcontent, rfl⟩ := Section.fill_function_iff.mp hfill
    have hle : (encodeNonempty encodeFunctionSection functionTypes).length ≤ w.length :=
      length_encodeNonempty_le rfl Varint.shortest_encodeU32 hw hcontent
    simp only [length_encode]
    omega
  · obtain ⟨code, hcontent, rfl⟩ := Section.fill_code_iff.mp hfill
    have hle : (encodeNonempty encodeCodeSection code).length ≤ w.length :=
      length_encodeNonempty_le rfl Code.shortest_encode hw hcontent
    simp only [length_encode]
    omega

/-- **All sections** add at most their own bytes to those the module is written in, by induction on
the sections. That they are in order is what allows to fill them in one after the other. -/
theorem length_encode_le_of_fill {words : List UInt8} {sections : List Section}
    (hwords : Format.Sequence Section.Written words sections) {last : SectionId} {m m' : Module}
    (hascending : (last.byte :: Section.order sections).Pairwise (· < ·))
    (hfill : Section.Fill sections m m') :
    m'.encode.length ≤ m.encode.length + words.length := by
  induction hwords generalizing last m with
  | nil =>
    rw [Section.fill_nil_iff.mp hfill]
    exact Nat.le_add_right _ _
  | cons head _ ih =>
    obtain ⟨-, hascending⟩ := Section.ascending_cons_iff.mp hascending
    -- the first section fills in its part, and the others fill in theirs after it
    obtain ⟨m₁, hfill, hfill'⟩ :=
      (Section.fill_cons_iff (Section.distinct_of_ascending hascending)).mp hfill
    have hhead := length_encode_le_of_fill_singleton head hfill
    have htail := ih hascending hfill'
    rw [List.length_append]
    omega

/-! ### Reading, writing and reading again -/

/-- **Reads a module and writes it again.** -/
def reencode (b : List UInt8) : Except DecodeError (List UInt8) :=
  (decode b).map encode

/-- What was read fits in sections again. -/
theorem fits_of_fill {words : List UInt8} {sections : List Section} {m : Module}
    (hwords : Format.Sequence Section.Written words sections)
    (hfill : Section.Fill sections .empty m) : m.Fits where
  types := hfill.types.length_encodeVector_lt FunctionType.shortest_encode hwords
  functionTypes := hfill.functionTypes.length_encodeVector_lt Varint.shortest_encodeU32 hwords
  code := hfill.code.length_encodeVector_lt Code.shortest_encode hwords

/-- What was read can be written: the format says of each entry what `Module.WellFormed` asks for,
and joining the lists has checked the rest. -/
theorem wellFormed_of_fill {sections : List Section} {m : Module}
    (hfill : Section.Fill sections .empty m) (hlengths : m.functionTypes.length = m.code.length)
    (hindices : ∀ t ∈ m.functionTypes, t.toNat < m.types.length) : m.WellFormed where
  types t ht := by
    obtain ⟨_, hwritten⟩ := hfill.types.exists_of_mem ht
    exact hwritten.wellFormed
  code c hc := by
    obtain ⟨_, hwritten⟩ := hfill.code.exists_of_mem hc
    exact hwritten.wellFormed
  lengths := hlengths
  indices := hindices

/-- **Writing what was read is a canonical form**: all of it can be written, it is at most as long
as what was read, it is read as the same module, and writing it again changes nothing. -/
theorem reencode_canonical {b : List UInt8} {m : Module} (h : decode b = .ok m) :
    m.Fits ∧ m.encode.length ≤ b.length ∧ decode m.encode = .ok m ∧
      reencode b = .ok m.encode ∧ reencode m.encode = .ok m.encode := by
  have hreencode : reencode b = .ok m.encode := by rw [reencode, h]; rfl
  -- look at the sections that were read
  obtain ⟨words, rfl, hread, hlengths, hindices⟩ := (decode_eq_ok_iff b m).mp h
  rw [readSections_eq_ok_iff .custom .empty m (List.sublist_append_right _ _).length_le] at hread
  obtain ⟨sections, hwords, hascending, hfill⟩ := hread
  have hfits := fits_of_fill hwords hfill
  have hagain : decode m.encode = .ok m :=
    (decode_encode_eq_ok_iff hfits m).mpr ⟨wellFormed_of_fill hfill hlengths hindices, rfl⟩
  refine ⟨hfits, ?_, hagain, hreencode, by rw [reencode, hagain]; rfl⟩
  -- the module without any section is written in the first eight bytes
  rw [List.length_append]
  exact length_encode_le_of_fill hwords hascending hfill

/-- A custom section, a padded size and a padded count, and three locals in two declarations. -/
theorem reencode_canonical_padded :
    ∃ b m, b = magic ++ version ++ [0, 4, 2, 0x68, 0x69, 0xff] ++
          [1, 0x86, 0x00, 0x81, 0x00, 0x60, 0, 1, 0x7f] ++ [3, 2, 1, 0] ++
          [10, 0x0a, 1, 8, 2, 2, 0x7f, 1, 0x7f, 0x41, 7, 0x0b] ∧ decode b = .ok m ∧
      m.Fits ∧ m.encode.length ≤ b.length ∧ decode m.encode = .ok m ∧
      reencode b = .ok m.encode ∧ reencode m.encode = .ok m.encode := by
  have h : decode (magic ++ version ++ [0, 4, 2, 0x68, 0x69, 0xff] ++
      [1, 0x86, 0x00, 0x81, 0x00, 0x60, 0, 1, 0x7f] ++ [3, 2, 1, 0] ++
      [10, 0x0a, 1, 8, 2, 2, 0x7f, 1, 0x7f, 0x41, 7, 0x0b]) =
      .ok ⟨[⟨[], [.i32]⟩], [0], [⟨3, [0x41, 7, 0x0b]⟩]⟩ := rfl
  exact ⟨_, _, rfl, h, reencode_canonical h⟩

end Module

end WasmJit
