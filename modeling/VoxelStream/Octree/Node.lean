import VoxelStream.Coord
import VoxelStream.Vec3

/-!
# Octree cells

A node is a cube of `2 ^ level` chunks an edge, named by its least corner and its level; nothing
else is stored, so a tree is never built. `Node.children` cuts a cell into its eight octants. The
arithmetic is checked: a level of 32 or more has no size, and an octant may leave the words.
`Node.mem_children` and `Node.length_children` say all that a descent needs to end.
-/

namespace VoxelStream

/-- One of the eight halves-of-halves of a cube: on each axis, whether it is the upper half. -/
structure Octant where
  x : Bool
  y : Bool
  z : Bool
deriving DecidableEq, Repr

namespace Octant

/-- The octants, with `x` changing fastest and `z` slowest. -/
def all : List Octant :=
  [⟨false, false, false⟩, ⟨true, false, false⟩, ⟨false, true, false⟩, ⟨true, true, false⟩,
    ⟨false, false, true⟩, ⟨true, false, true⟩, ⟨false, true, true⟩, ⟨true, true, true⟩]

/-- Where the octant starts, from its cube's least corner, if half an edge is `half`. -/
def offset (o : Octant) (half : Int32) : Coord :=
  ⟨if o.x then half else 0, if o.y then half else 0, if o.z then half else 0⟩

end Octant

/-- The cell of `2 ^ level` chunks an edge whose least corner is `origin`. -/
structure Node where
  origin : Coord
  level : UInt32
deriving DecidableEq, Repr, Inhabited

namespace Node

/-- The cell of a single chunk. -/
def leaf (origin : Coord) : Node := ⟨origin, 0⟩

def isLeaf (n : Node) : Bool := n.level == 0

/-- The word that stands for the edge length: a one shifted by the level, with no regard to
whether the level is that of a cell at all. -/
def edge (n : Node) : Int32 := 1 <<< n.level.toInt32

/-- The edge length in chunks. A word holds shifts below its width only. -/
def size (n : Node) : Checked Int32 := if n.level < 32 then .ok n.edge else .error .overflow

/-- The midpoint of the cell that `edge` describes. -/
def middle (n : Node) : Vec3 := n.origin.toVec3 + Vec3.splat (Word.toFloat32 n.edge * 0.5)

/-- The sphere through the corners of the cell that `edge` describes. -/
def ball (n : Node) : Sphere := ⟨n.middle, Word.toFloat32 n.edge * (3 : Float32).sqrt * 0.5⟩

def center (n : Node) : Checked Vec3 := do
  let _ ← n.size
  return n.middle

/-- The sphere around the cell. It is never smaller than the cell, so that no part of a cell is
lost by a test on its sphere. -/
def boundingSphere (n : Node) : Checked Sphere := do
  let _ ← n.size
  return n.ball

/-- The octant `o` of a cell, where half an edge is `half`. -/
def child (n : Node) (half : Int32) (o : Octant) : Checked Node := do
  return ⟨← n.origin.add (o.offset half), n.level - 1⟩

/-- The eight octants of a cell, none for a leaf. -/
def children (n : Node) : Checked (List Node) :=
  if n.isLeaf then .ok []
  else do
    let half := (← n.size) / 2
    Octant.all.mapM (n.child half)

/-! ## The order of nodes -/

/-- By origin, then by level. -/
def lexOrder : Node → Node → Ordering := compareLex (compareOn Node.origin) (compareOn Node.level)

instance : Ord Node := ⟨lexOrder⟩

instance transOrd : Std.TransOrd Node :=
  inferInstanceAs (Std.TransCmp (compareLex (compareOn Node.origin) (compareOn Node.level)))

instance lawfulEqOrd : Std.LawfulEqOrd Node where
  eq_of_compare {a b} h := by
    have h : (compare a.origin b.origin).then (compare a.level b.level) = .eq := h
    rw [Ordering.then_eq_eq] at h
    cases a
    cases b
    rw [Node.mk.injEq]
    exact ⟨Std.LawfulEqOrd.eq_of_compare h.1, Std.LawfulEqOrd.eq_of_compare h.2⟩

/-! ## Children -/

/-- A child is one level down. -/
theorem level_of_child {n c : Node} {half : Int32} {o : Octant} (h : n.child half o = .ok c) :
    c.level = n.level - 1 := by
  unfold child at h
  cases ho : n.origin.add (o.offset half) with
  | error e => simp [ho, bind, Except.bind] at h
  | ok p =>
    simp only [ho, bind, Except.bind, pure, Except.pure] at h
    injection h with h
    exact h ▸ rfl

/-- A leaf has no children. -/
theorem children_leaf {n : Node} (hn : n.isLeaf = true) : n.children = .ok [] := by
  simp [children, hn]

/-- The children of a cell that is not a leaf are its eight octants, in their order. -/
theorem children_eq_ok_iff {n : Node} {cs : List Node} (hn : n.isLeaf = false) :
    n.children = .ok cs ↔
      n.level < 32 ∧ Octant.all.map (n.child (n.edge / 2)) = cs.map Except.ok := by
  rw [← Checked.mapM_eq_ok_iff]
  unfold children size
  by_cases hl : n.level < 32 <;> simp [hn, hl, bind, Except.bind]

/-- There are eight children at most. -/
theorem length_children {n : Node} {cs : List Node} (h : n.children = .ok cs) : cs.length ≤ 8 := by
  cases hn : n.isLeaf with
  | true =>
    rw [children_leaf hn] at h
    injection h with h
    simp [← h]
  | false =>
    have hlen := congrArg List.length ((children_eq_ok_iff hn).1 h).2
    rw [List.length_map, List.length_map] at hlen
    exact Nat.le_of_eq hlen.symm

/-- Children are one level below. -/
theorem mem_children {n c : Node} {cs : List Node} (h : n.children = .ok cs) (hc : c ∈ cs) :
    c.level.toNat + 1 = n.level.toNat := by
  cases hn : n.isLeaf with
  | true =>
    rw [children_leaf hn] at h
    injection h with h
    simp [← h] at hc
  | false =>
    have hmem : (Except.ok c : Checked Node) ∈ cs.map Except.ok := List.mem_map_of_mem hc
    rw [← ((children_eq_ok_iff hn).1 h).2] at hmem
    obtain ⟨o, _, ho⟩ := List.mem_map.1 hmem
    have hz : n.level ≠ 0 := by simpa [isLeaf] using hn
    have hp : n.level.toNat ≠ 0 := fun e => hz (UInt32.toNat_inj.1 (by simpa using e))
    rw [level_of_child ho, UInt32.toNat_sub_of_le _ _ (UInt32.le_iff_toNat_le.2 (by simp; omega))]
    simp
    omega

end Node
end VoxelStream
