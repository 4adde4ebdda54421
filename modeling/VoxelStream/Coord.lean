import Std.Data.ExtTreeMap
import VoxelStream.Vec3
import VoxelStream.Word

/-!
# Chunk coordinates

Integer positions on the chunk grid, with checked sum and difference and the lexicographic order
on `(x, y, z)`, which is lawful (`Coord.lawfulEqOrd`), so coordinates key the ordered maps.
-/

namespace VoxelStream

/-- The number of voxels along each edge of a chunk. -/
def chunkEdge : Nat := 16

/-- A position on the chunk grid. -/
structure Coord where
  x : Int32
  y : Int32
  z : Int32
deriving DecidableEq, Repr, Inhabited

namespace Coord

/-- The coordinate with one value on all three axes. -/
def splat (v : Int32) : Coord := ⟨v, v, v⟩

def zero : Coord := splat 0

/-- The exact sum on each axis, if all three are words. -/
def add (a b : Coord) : Checked Coord := do
  return ⟨← Word.add a.x b.x, ← Word.add a.y b.y, ← Word.add a.z b.z⟩

/-- The exact difference on each axis, if all three are words. -/
def sub (a b : Coord) : Checked Coord := do
  return ⟨← Word.sub a.x b.x, ← Word.sub a.y b.y, ← Word.sub a.z b.z⟩

/-- The chunk that holds a point given in chunk units: each component rounded down and clamped to
a word, zero for a NaN. -/
def ofPosition (p : Vec3) : Coord := ⟨p.x.floor.toInt32, p.y.floor.toInt32, p.z.floor.toInt32⟩

/-- The coordinate as a point, each component rounded to the nearest float. -/
def toVec3 (c : Coord) : Vec3 := ⟨Word.toFloat32 c.x, Word.toFloat32 c.y, Word.toFloat32 c.z⟩

/-! ## The lexicographic order -/

/-- The first axis on which two coordinates differ decides. -/
def lexOrder : Coord → Coord → Ordering :=
  compareLex (compareOn Coord.x) (compareLex (compareOn Coord.y) (compareOn Coord.z))

instance : Ord Coord := ⟨lexOrder⟩

instance transOrd : Std.TransOrd Coord :=
  inferInstanceAs (Std.TransCmp
    (compareLex (compareOn Coord.x) (compareLex (compareOn Coord.y) (compareOn Coord.z))))

instance lawfulEqOrd : Std.LawfulEqOrd Coord where
  eq_of_compare {a b} h := by
    have h : (compare a.x b.x).then ((compare a.y b.y).then (compare a.z b.z)) = .eq := h
    rw [Ordering.then_eq_eq, Ordering.then_eq_eq] at h
    cases a
    cases b
    rw [Coord.mk.injEq]
    exact ⟨Std.LawfulEqOrd.eq_of_compare h.1, Std.LawfulEqOrd.eq_of_compare h.2.1,
      Std.LawfulEqOrd.eq_of_compare h.2.2⟩

/-! ## Laws of the checked operations -/

/-- A checked sum is exact on every axis. -/
theorem add_eq_ok_iff {a b c : Coord} : a.add b = .ok c ↔
    c.x.toInt = a.x.toInt + b.x.toInt ∧ c.y.toInt = a.y.toInt + b.y.toInt ∧
      c.z.toInt = a.z.toInt + b.z.toInt := by
  rw [← Word.add_eq_ok_iff, ← Word.add_eq_ok_iff, ← Word.add_eq_ok_iff]
  cases c
  unfold add
  cases Word.add a.x b.x <;> cases Word.add a.y b.y <;> cases Word.add a.z b.z <;>
    simp [bind, Except.bind, pure, Except.pure]

/-- A checked difference is exact on every axis. -/
theorem sub_eq_ok_iff {a b c : Coord} : a.sub b = .ok c ↔
    c.x.toInt = a.x.toInt - b.x.toInt ∧ c.y.toInt = a.y.toInt - b.y.toInt ∧
      c.z.toInt = a.z.toInt - b.z.toInt := by
  rw [← Word.sub_eq_ok_iff, ← Word.sub_eq_ok_iff, ← Word.sub_eq_ok_iff]
  cases c
  unfold sub
  cases Word.sub a.x b.x <;> cases Word.sub a.y b.y <;> cases Word.sub a.z b.z <;>
    simp [bind, Except.bind, pure, Except.pure]

end Coord
end VoxelStream
