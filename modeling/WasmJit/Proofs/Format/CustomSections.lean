import WasmJit.Proofs.Format.Recognition

/-!
# Custom sections

A custom section has a name and may hold anything else. Wherever such sections stand among the
others, and however many there are, reading the module gives what it gives without them. This is so
for modules that are accepted and for those that are refused: an error never depends on them.

`FramedSection` is a section together with the word that writes it. A sequence of these is read one
section at a time, without a look at the bytes that follow (`Module.readSections_bytes`). What is
kept from one section to the next is the last section that was not a custom one and the module so
far, and a custom section changes neither (`Module.advance_custom`).
-/

namespace WasmJit

/-- **A section and the word that writes it**: its byte, the size of its content in any allowed
form, and its content. -/
structure FramedSection extends Section where
  word : List UInt8
  written : Section.Written word toSection

namespace FramedSection

/-- The words of sections, one after the other. -/
def bytes (fs : List FramedSection) : List UInt8 :=
  fs.flatMap (·.word)

/-- A section in the form in which it is encoded. -/
def encode (id : SectionId) (content : List UInt8) (h : content.length < 2 ^ 32) :
    FramedSection where
  id := id
  content := content
  word := Module.encodeSection id content
  written := ⟨_, rfl, Varint.unsigned_encodeLength h⟩

end FramedSection

namespace Module

variable {last : SectionId} {m : Module} {s : Section} {f : FramedSection}

/-- Reads a section of which the frame is known, after the section `last`. -/
def readFramed (last : SectionId) (m : Module) (s : Section) : Except DecodeError Module :=
  if s.id ≠ .custom ∧ s.id.byte ≤ last.byte then .error (.sectionOrder s.id)
  else (readContent s.id s.content m).mapError (.sectionContent s.id)

/-- **With a complete frame, only the order and the content can be refused.** The size is there and
there are enough bytes, so the two errors about the frame do not occur, and the bytes behind the
section do not matter. -/
theorem readSection_framed {size : List UInt8} (h : Format.Unsigned 32 size s.content.length)
    (last : SectionId) (m : Module) (rest : List UInt8) :
    readSection s.id last (size ++ (s.content ++ rest)) m =
      (readFramed last m s).map fun m' => (m', rest) := by
  obtain ⟨n, b, hn, hle, htake, hdrop⟩ := Format.exists_sized_iff.mpr ⟨size, rfl, h⟩
  unfold readSection readFramed
  rw [hn]
  change (if b.length < n.toNat then _ else _) = _
  rw [if_neg (Nat.not_lt.mpr hle), htake, hdrop]
  split
  · rfl
  · cases readContent s.id s.content m <;> rfl

/-- **Reading one more section**: what is kept is the last section that was not a custom one and the
module so far. -/
def advance (state : SectionId × Module) (f : FramedSection) :
    Except DecodeError (SectionId × Module) :=
  (readFramed state.1 state.2 f.toSection).map fun m => (f.after state.1, m)

/-- **Framed sections are read one after the other**, by induction on the sections. Errors are part
of the equation, so it also says that reading stops at the first section that is refused. -/
theorem readSections_bytes (fs : List FramedSection) {fuel : Nat}
    (hfuel : (FramedSection.bytes fs).length ≤ fuel) (last : SectionId) (m : Module) :
    readSections fuel last m (FramedSection.bytes fs) =
      (fs.foldlM advance (last, m)).map (·.2) := by
  induction fs generalizing fuel last m with
  | nil => cases fuel <;> rfl
  | cons f fs ih =>
    obtain ⟨size, hword, hsize⟩ := f.written
    have hbytes : FramedSection.bytes (f :: fs) =
        f.id.byte :: (size ++ (f.content ++ FramedSection.bytes fs)) := by
      rw [FramedSection.bytes, List.flatMap_cons, hword, List.cons_append, List.append_assoc]
      rfl
    rw [hbytes] at hfuel ⊢
    simp only [List.length_cons, List.length_append] at hfuel
    -- every section takes at least one byte, so the limit on their number is not reached
    obtain ⟨fuel, rfl⟩ : ∃ k, fuel = k + 1 := ⟨fuel - 1, by omega⟩
    rw [readSections, List.foldlM_cons, advance,
      show (⟨f.id.byte⟩ : SectionId) = f.toSection.id from rfl, readSection_framed hsize]
    cases readFramed last m f.toSection with
    | error e => rfl
    | ok m₁ => exact ih (by omega) (f.after last) m₁

instance : DecidablePred Section.Named :=
  fun _ => decidable_of_iff _ checkCustom_eq_ok_iff

/-- **A custom section with a name changes nothing**: it has no place in the order, and nothing of
its content is kept. -/
theorem advance_custom (hid : f.id = .custom) (hname : f.Named) (state : SectionId × Module) :
    advance state f = .ok state := by
  have hcheck : checkCustom f.content = .ok () := checkCustom_eq_ok_iff.mpr hname
  have hafter : f.after state.1 = state.1 := by
    rw [Section.after, hid]
    rfl
  rw [advance, readFramed, if_neg (fun h => h.1 hid), readContent, if_pos hid, hcheck, hafter]
  rfl

/-- So it may be left out, wherever it stands. By induction on the sections, for any state in front
of them. -/
theorem foldlM_advance_filter (fs : List FramedSection)
    (h : ∀ f ∈ fs, f.id = .custom → f.Named) (state : SectionId × Module) :
    (fs.filter (·.id ≠ .custom)).foldlM advance state = fs.foldlM advance state := by
  induction fs generalizing state with
  | nil => rfl
  | cons f fs ih =>
    obtain ⟨hf, hfs⟩ := List.forall_mem_cons.mp h
    by_cases hid : f.id = .custom
    · rw [List.filter_cons_of_neg (by simpa using hid), List.foldlM_cons,
        advance_custom hid (hf hid)]
      exact ih hfs state
    · -- a section that stays may fail, and then the others do not matter
      rw [List.filter_cons_of_pos (by simpa using hid), List.foldlM_cons, List.foldlM_cons]
      exact bind_congr fun state => ih hfs state

/-- Reading a module whose sections are framed. The limit on the number of sections is the length of
the whole input, so it does not change when sections are left out. -/
theorem decode_framed (fs : List FramedSection) :
    decode (magic ++ version ++ FramedSection.bytes fs) = do
      let m ← (fs.foldlM advance (.custom, .empty)).map (·.2)
      let _ ← m.functions.mapError .join
      return m := by
  have hfuel : (FramedSection.bytes fs).length ≤
      (magic ++ version ++ FramedSection.bytes fs).length := by
    rw [List.length_append]
    omega
  rw [← readSections_bytes fs hfuel]
  rfl

/-- **Custom sections are transparent.** Sections that are completely framed, of which the custom
ones have a name, give the same module or the same error as the sections without the custom ones. -/
theorem decode_ignores_custom_sections (fs : List FramedSection)
    (h : ∀ f ∈ fs, f.id = .custom → f.Named) :
    decode (magic ++ version ++ FramedSection.bytes fs) =
      decode (magic ++ version ++ FramedSection.bytes (fs.filter (·.id ≠ .custom))) := by
  rw [decode_framed, decode_framed, foldlM_advance_filter fs h]

/-- Sections that are out of order are refused as such, with custom sections on all sides. -/
theorem decode_ignores_custom_sections_out_of_order :
    let custom := FramedSection.encode .custom [1, 0x6e, 0xff] (by decide)
    let function := FramedSection.encode .function [0] (by decide)
    let type := FramedSection.encode .type [0] (by decide)
    decode (magic ++ version ++ FramedSection.bytes [custom, function, custom, type, custom]) =
        decode (magic ++ version ++ FramedSection.bytes [function, type]) ∧
      decode (magic ++ version ++ FramedSection.bytes [function, type]) =
        .error (.sectionOrder .type) := by
  intro custom function type
  refine ⟨?_, by decide +kernel⟩
  exact decode_ignores_custom_sections [custom, function, custom, type, custom] (by decide +kernel)

end Module

end WasmJit
