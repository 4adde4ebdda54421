import Mathlib
import VoxelStream.Proofs.Octree.Cut

/-!
# What pruning leaves out

A search drops a cell with all that is in it if the cell's sphere does not meet the view volume or
is beyond the range. Nothing is lost by it as long as the tests are hereditary on the tree
(`Tree.Hereditary`): what meets the volume lies only in cells that do, and what is in range lies
only in cells that are not beyond it. Then no cell on the way down to a leaf in view is dropped, and
every position of the root is the end of such a way, so the leaves found are those that a look at
every position of the root would find (`Tree.findNodes_flat`).
-/

namespace VoxelStream

namespace Tree

variable {t : Tree} {viewer : Vec3} {frustum : Frustum} {maxRadius : Float32} {a n : Node}

/-- The two pruning tests never speak against a cell of the tree in which there is something to
find. -/
structure Hereditary (t : Tree) (viewer : Vec3) (frustum : Frustum) (maxRadius : Float32) :
    Prop where
  /-- A cell meets the view volume if one of its octants does. -/
  meets : ∀ n c, t.root.Holds n → n.HasChild c → frustum.intersects c.ball = true →
    frustum.intersects n.ball = true
  /-- Neither a leaf whose centre is in range nor a cell above it is beyond the range. -/
  reaches : ∀ n, t.root.Holds n → n.level = 0 → n.ball.center.distance viewer ≤ maxRadius →
    ∀ a, t.root.Holds a → a.Holds n → ¬ a.ball.center.distance viewer - a.ball.radius > maxRadius

/-- What holds a cell that meets the view volume meets it as well. -/
theorem Hereditary.intersects_of_holds (h : t.Hereditary viewer frustum maxRadius)
    (ha : t.root.Holds a) (han : a.Holds n) (hn : frustum.intersects n.ball = true) :
    frustum.intersects a.ball = true := by
  -- From the cell that meets the volume up to the one that holds it, an octant at a time.
  suffices hup : t.root.Holds a → frustum.intersects a.ball = true from hup ha
  induction han using Relation.ReflTransGen.head_induction_on with
  | refl => exact fun _ => hn
  | @head b c hbc hcn ih =>
    intro hb
    exact h.meets b c hb hbc (ih (hb.trans hbc.holds) (hb.trans hbc.holds))

/-- A leaf of the tree that is in view and in range answers the query for leaves: no test prunes a
cell that holds it. -/
theorem Hereditary.answers (h : t.Hereditary viewer frustum maxRadius) (hroot : t.root.Holds n)
    (hn : n.level = 0) (hmeets : frustum.intersects n.ball = true)
    (hrange : n.ball.center.distance viewer ≤ maxRadius) :
    t.Answers viewer frustum { maxRadius } n := by
  have hadmits : ∀ a, t.root.Holds a → a.Holds n →
      NodeQuery.Admits { maxRadius } viewer frustum a := fun a ha han =>
    ⟨h.intersects_of_holds ha han hmeets, h.reaches n hroot hn hrange a ha han⟩
  refine ⟨hroot, hadmits n hroot (.refl n), .inl ⟨hn, hrange⟩, ?_⟩
  intro a ha han
  exact ⟨hadmits a ha han.holds, NodeQuery.not_keepsWhole rfl⟩

/-- Pruning with hereditary tests leaves out nothing: the leaves found are those at the positions of
the root whose sphere meets the view volume and whose centre is in range. -/
theorem findNodes_flat (h : t.Hereditary viewer frustum maxRadius) :
    ∃ found, t.findNodes viewer frustum maxRadius = .ok found ∧
      ∀ n, n ∈ found ↔ n.level = 0 ∧
        (∀ a, -2 ^ (t.rootLevel.toNat - 1) ≤ n.origin.along a ∧
          n.origin.along a < 2 ^ (t.rootLevel.toNat - 1)) ∧
        frustum.intersects n.ball = true ∧ n.ball.center.distance viewer ≤ maxRadius := by
  obtain ⟨found, hfound⟩ := t.exists_query viewer frustum { maxRadius }
  refine ⟨found, hfound, ?_⟩
  intro n
  rw [mem_query_iff hfound, ← root_covers_iff]
  constructor
  · intro hans
    obtain ⟨hn, hrange⟩ := hans.showsLeaf (.inr rfl)
    exact ⟨hn, (t.fits_root.holds_leaf_iff hn).1 hans.1, (hans.admits hans.1 (.refl n)).1, hrange⟩
  · rintro ⟨hn, hcovers, hmeets, hrange⟩
    exact h.answers ((t.fits_root.holds_leaf_iff hn).2 hcovers) hn hmeets hrange

end Tree

/-! ## A look at the smallest tree -/

/-- What is seen from `position` down the z axis, through a square window a quarter turn wide. -/
def Frustum.square (position : Vec3) : Frustum where
  lens := ⟨1.5707964, 1, 0.125, 8⟩
  left := .through ((Vec3.ahead - ⟨1, 0, 0⟩).cross Vec3.upward) position
  right := .through (Vec3.upward.cross (Vec3.ahead + ⟨1, 0, 0⟩)) position
  bottom := .through (Vec3.cross ⟨1, 0, 0⟩ (Vec3.ahead - Vec3.upward)) position
  top := .through ((Vec3.ahead + Vec3.upward).cross ⟨1, 0, 0⟩) position
  nearest := .through Vec3.ahead (position + Vec3.ahead * (0.125 : Float32))
  farthest := .through (-Vec3.ahead) (position + Vec3.ahead * (8 : Float32))

namespace Tree

/-- The tree of eight leaves. -/
def smallest : Tree := ⟨1, by decide, by decide⟩

/-- A place left of the tree, from where two of the leaves are out of view. -/
def beside : Vec3 := ⟨-1.5, -0.5, 0.5⟩

/-- The smallest tree is its root and the leaves in it. -/
theorem holds_smallest {n : Node} (h : smallest.root.Holds n) :
    n = smallest.root ∨ n.level = 0 ∧ smallest.root.HasChild n := by
  rcases h.eq_or_exists_child with rfl | ⟨c, hc, hcn⟩
  · exact .inl rfl
  · have hlevel : c.level.toNat + 1 = 1 := hc.level
    rcases hcn.eq_or_above with rfl | habove
    · exact .inr ⟨UInt32.toNat_inj.1 (by rw [UInt32.toNat_zero]; omega), hc⟩
    · have := habove.level_lt
      omega

/-- In the tree of eight leaves, seen from beside it, the pruning tests speak against no cell in
which there is something to find. -/
theorem hereditary_smallest : smallest.Hereditary beside (.square beside) 2 := by
  obtain ⟨cs, hcs, hnear⟩ : ∃ cs, smallest.root.children = .ok cs ∧
      ∀ n ∈ cs, ¬ n.ball.center.distance beside - n.ball.radius > 2 := ⟨_, rfl, by decide +kernel⟩
  have hroot : (Frustum.square beside).intersects smallest.root.ball = true ∧
      ¬ smallest.root.ball.center.distance beside - smallest.root.ball.radius > 2 := by
    decide +kernel
  refine ⟨?_, ?_⟩
  · intro n c hn hc _
    rcases holds_smallest hn with rfl | ⟨hz, -⟩
    · exact hroot.1
    · have := hc.level
      rw [hz, UInt32.toNat_zero] at this
      omega
  · intro n hn hleaf _ a ha han
    rcases holds_smallest ha with rfl | ⟨-, cs', hcs', hmem⟩
    · exact hroot.2
    · rw [hcs] at hcs'
      injection hcs' with hcs'
      exact hnear a (hcs' ▸ hmem)

/-- Of the leaves of the smallest tree the nearest one is found from beside it; the one to the right
of that is in range but not in view, and the opposite one is in view but not in range. -/
theorem findNodes_flat_smallest : smallest.Hereditary beside (.square beside) 2 ∧
    ∃ found, smallest.findNodes beside (.square beside) 2 = .ok found ∧
      .leaf ⟨-1, -1, 0⟩ ∈ found ∧ .leaf ⟨0, -1, 0⟩ ∉ found ∧ .leaf ⟨0, 0, -1⟩ ∉ found := by
  obtain ⟨found, hfound, hmem⟩ := findNodes_flat hereditary_smallest
  refine ⟨hereditary_smallest, found, hfound, (hmem _).2 ⟨rfl, ?_, by decide +kernel⟩,
    ?_, ?_⟩
  · intro a
    cases a <;> decide
  · intro hn
    exact absurd ((hmem _).1 hn).2.2.1 (by decide +kernel)
  · intro hn
    exact absurd ((hmem _).1 hn).2.2.2 (by decide +kernel)

end Tree
end VoxelStream
