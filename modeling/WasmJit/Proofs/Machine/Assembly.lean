import WasmJit.Machine.Assembly
import Mathlib.Tactic.Common

/-!
# Laying out never loses a return

However often instructions are placed again, and whatever is found out about jumps on the way, a
return stays a return and has machine code. So a program with a return in it has machine code
(`Program.code_assembleAfter_ne_nil`).
-/

namespace WasmJit

namespace Layout

/-! ### Passes -/

/-- Placing an instruction does not change it. -/
@[simp] theorem instr_placeAt (laid : Nat) (done : Array Placed) (c : Nat) (rest : List Placed)
    (p : Placed) :
    (placeAt laid done c rest p).instr = p.instr := by
  unfold placeAt
  split
  · dsimp only
    split <;> rfl
  · rfl

/-- A pass keeps all instructions and their order, whatever it finds out about them. -/
theorem map_instr_place (laid : Nat) (done : Array Placed) (c : Nat) (changed : Bool)
    (rest : List Placed) :
    (place laid done c changed rest).1.toList.map (·.instr) =
      done.toList.map (·.instr) ++ rest.map (·.instr) := by
  induction rest generalizing done c changed with
  | nil => simp [place]
  | cons p rest ih => simp [place, ih]

/-- The returns of a program are still there when a pass is over. What is noted about jumps between
two passes changes jumps only, and a return is none. -/
theorem ret_mem_next (laid : Nat) {placed : Array Placed} (h : .ret ∈ placed.toList.map (·.instr)) :
    .ret ∈ (next laid placed).toList.map (·.instr) := by
  obtain ⟨p, hp, hret⟩ := List.mem_map.mp h
  obtain ⟨index, hindex, rfl⟩ := List.getElem_of_mem hp
  have hlt : index < (next laid placed).size := by simpa [next, widen] using hindex
  refine List.mem_map.mpr ⟨(next laid placed)[index], by simp, ?_⟩
  simp only [next, widen, Array.getElem_map, Array.getElem_mapIdx]
  split <;> simp_all [afterPass]

/-- **Any number of passes** keeps the returns, by induction on the limit. How many passes are made
does not matter, so nothing here depends on when the layout settles. -/
theorem ret_mem_settle (laid fuel : Nat) {before : Array Placed}
    (h : .ret ∈ before.toList.map (·.instr)) :
    .ret ∈ (settle laid fuel before).toList.map (·.instr) := by
  induction fuel generalizing before with
  | zero => exact h
  | succ fuel ih =>
    have hplace : .ret ∈ (place laid #[] 0 false before.toList).1.toList.map (·.instr) := by
      rw [map_instr_place]
      simpa using h
    unfold settle
    dsimp only
    split
    · -- another pass is made only if the last one changed something
      exact ih (ret_mem_next laid hplace)
    · exact hplace

/-! ### Machine code -/

/-- Appends an instruction to the machine code in front of it. -/
def renderNext (laid : Nat) (placed : Array Placed) (out : Array UInt8) (p : Placed × Nat) :
    Array UInt8 :=
  out ++ filler (p.1.offset - out.size)
    ++ p.1.instr.encode (p.1.size = 2) (displacement laid placed p.2 p.1)

/-- Rendering appends one instruction after the other. -/
theorem render_eq (laid : Nat) (placed : Array Placed) :
    render laid placed = placed.toList.zipIdx.foldl (renderNext laid placed) #[] := rfl

/-- An instruction adds at least its own bytes. There may be a filler in front of it. -/
theorem size_renderNext (laid : Nat) (placed : Array Placed) (out : Array UInt8)
    (p : Placed × Nat) :
    out.size + (p.1.instr.encode (p.1.size = 2) (displacement laid placed p.2 p.1)).length ≤
      (renderNext laid placed out p).size := by
  have happend : ∀ (a : Array UInt8) (l : List UInt8), (a ++ l).size = a.size + l.length := by
    intro a l
    rw [← Array.length_toList, Array.toList_appendList, List.length_append, Array.length_toList]
  unfold renderNext
  rw [happend, happend]
  omega

/-- What has been rendered stays: nothing is ever taken off again. -/
theorem size_le_foldl (laid : Nat) (placed : Array Placed) (ps : List (Placed × Nat))
    (out : Array UInt8) :
    out.size ≤ (ps.foldl (renderNext laid placed) out).size := by
  induction ps generalizing out with
  | nil => exact Nat.le_refl _
  | cons p ps ih =>
    have := size_renderNext laid placed out p
    exact Nat.le_trans (by omega) (ih _)

/-- A return anywhere among the instructions makes some machine code. -/
theorem size_foldl_pos (laid : Nat) (placed : Array Placed) {ps : List (Placed × Nat)}
    {p : Placed × Nat} (hp : p ∈ ps) (hret : p.1.instr = .ret) (out : Array UInt8) :
    0 < (ps.foldl (renderNext laid placed) out).size := by
  induction ps generalizing out with
  | nil => cases hp
  | cons q ps ih =>
    rcases List.mem_cons.mp hp with rfl | hp
    · -- a return has one byte, and what comes after it removes nothing
      have hnext := size_renderNext laid placed out p
      rw [hret] at hnext
      have hlength : ((.ret : Instr (Option Nat)).encode (decide (p.1.size = 2))
          (displacement laid placed p.2 p.1)).length = 1 := rfl
      have hrest := size_le_foldl laid placed ps (renderNext laid placed out p)
      simp only [List.foldl_cons]
      omega
    · exact ih hp _

end Layout

/-- **A program with a return has machine code.** This is the only thing about the layout that
compilation relies on, and it holds for any extents that the program had before. -/
theorem Program.code_assembleAfter_ne_nil {p : Program} (h : .ret ∈ p) (earlier : Array Extent) :
    (p.assembleAfter earlier).code ≠ [] := by
  -- the return is placed, settled and then rendered
  have hmem : .ret ∈ (p.mapIdx fun index i => Layout.Placed.init i earlier[index]?).toList.map
      (·.instr) := by
    obtain ⟨index, hindex, hret⟩ := Array.getElem_of_mem h
    refine List.mem_map.mpr ⟨.init p[index] earlier[index]?, ?_, hret⟩
    rw [Array.mem_toList_iff, Array.mem_iff_getElem]
    exact ⟨index, by simpa using hindex, by simp⟩
  obtain ⟨q, hq, hret⟩ :=
    List.mem_map.mp (Layout.ret_mem_settle earlier.size (2 * p.size + 8) hmem)
  obtain ⟨index, hindex, rfl⟩ := List.getElem_of_mem hq
  -- its encoding is part of the rendered bytes, so there is at least one
  have hpos := Layout.size_foldl_pos earlier.size
    (Layout.settle earlier.size (2 * p.size + 8)
      (p.mapIdx fun index i => Layout.Placed.init i earlier[index]?))
    (List.mk_mem_zipIdx_iff_getElem?.mpr (List.getElem?_eq_getElem hindex)) hret #[]
  rw [← Layout.render_eq] at hpos
  intro hnil
  have hsize : (Layout.render earlier.size (Layout.settle earlier.size (2 * p.size + 8)
      (p.mapIdx fun index i => Layout.Placed.init i earlier[index]?))).toList.length = 0 :=
    congrArg List.length hnil
  rw [Array.length_toList] at hsize
  omega

end WasmJit
