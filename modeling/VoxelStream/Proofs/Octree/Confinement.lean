import Mathlib
import VoxelStream.Proofs.Octree.Answer

/-!
# The cells that a search can come to

All cells of a tree lie in the cube that the tree spans, and all but the root are aligned: their
origins are multiples of their edges (`Tree.Confines`). The root starts half its edge below the
origin of the world; but half its edge is the edge of its octants, and from there on alignment goes
down with the levels (`Node.HasChild.pow_dvd_along`). What is computed of such a cell are words, and
they are exact (`Node.Exact`): the edge and half of it, and where the octants start. A search takes
no other cells, in whatever order it takes them, so no query overflows (`Tree.query_confined`).
-/

namespace VoxelStream

/-- What a search computes of a cell has a value, and an exact one: the edge is the power of two of
the level, and the octants of a cell that is not a leaf are one level down and half an edge apart. -/
structure Node.Exact (n : Node) : Prop where
  size : n.size = .ok n.edge ∧ n.edge.toInt = 2 ^ n.level.toNat
  center : n.center = .ok n.middle
  boundingSphere : n.boundingSphere = .ok n.ball
  children : ∃ cs, n.children = .ok cs ∧ cs.length = if n.isLeaf then 0 else 8
  child : n.isLeaf = false → ∀ o, ∃ c, n.child (n.edge / 2) o = .ok c ∧
    c.level.toNat + 1 = n.level.toNat ∧
    ∀ a, c.origin.along a = n.origin.along a + if o.upper a then 2 ^ c.level.toNat else 0

/-- The cell is no larger than the tree, lies in the cube that the tree spans around the origin of
the world, and is aligned unless it is of the root's level. -/
structure Tree.Confines (t : Tree) (n : Node) : Prop where
  level_le : n.level ≤ t.rootLevel
  bounded : ∀ p, n.Covers p →
    ∀ a, -2 ^ (t.rootLevel.toNat - 1) ≤ p a ∧ p a < 2 ^ (t.rootLevel.toNat - 1)
  aligned : n.level < t.rootLevel → ∀ a, 2 ^ n.level.toNat ∣ n.origin.along a

namespace Node

/-- Nothing that is computed of a cell that fits leaves the words. -/
theorem Fits.exact {n : Node} (h : n.Fits) : n.Exact where
  size := ⟨h.size, toInt_edge h.level_le⟩
  center := by
    rw [Node.center, h.size]
    rfl
  boundingSphere := by
    rw [Node.boundingSphere, h.size]
    rfl
  children := by
    obtain ⟨cs, hcs⟩ := h.children
    cases hn : n.isLeaf with
    | true => exact ⟨[], children_leaf hn, rfl⟩
    | false => exact ⟨cs, hcs, length_children_eq hn hcs⟩
  child hn o := by
    obtain ⟨k, hk⟩ := exists_level_succ hn
    obtain ⟨c, hc⟩ := h.exists_child hn o
    obtain ⟨hlevel, horigin⟩ := child_spec h.level_le hk hc
    rw [← hlevel] at hk horigin
    exact ⟨c, hc, hk, horigin⟩

/-- A child is aligned if its parent starts at a multiple of the child's edge. -/
theorem HasChild.pow_dvd_along {n c : Node} {a : Axis} (h : n.HasChild c) (hn : n.level.toNat ≤ 30)
    (hdvd : 2 ^ c.level.toNat ∣ n.origin.along a) : 2 ^ c.level.toNat ∣ c.origin.along a := by
  obtain ⟨-, o, ho⟩ := h.exists_octant
  rw [(child_spec hn h.level ho).2 a]
  split
  · exact dvd_add hdvd dvd_rfl
  · rwa [add_zero]

end Node

namespace Tree

variable {t : Tree} {n : Node}

/-- A cell of the tree starts at a multiple of its edge, but the root only at one of half its
edge. -/
theorem pow_dvd_along (h : t.root.Holds n) (a : Axis) :
    2 ^ min n.level.toNat (t.rootLevel.toNat - 1) ∣ n.origin.along a := by
  induction h with
  | refl =>
    have hroot : t.root.level.toNat = t.rootLevel.toNat := rfl
    rw [along_root, hroot, min_eq_right (Nat.sub_le _ _), dvd_neg]
  | @tail b c hb hbc ih =>
    have hle : b.level.toNat ≤ t.rootLevel.toNat := Node.Holds.level_le hb
    have hlevel := hbc.level
    rw [min_eq_left (by omega)]
    exact hbc.pow_dvd_along (Node.Holds.fits hb t.fits_root).level_le
      (dvd_trans (pow_dvd_pow 2 (by omega)) ih)

/-- The cells that the root holds are within the bounds of the tree. -/
theorem confines (h : t.root.Holds n) : t.Confines n where
  level_le := UInt32.le_iff_toNat_le.2 h.level_le
  bounded _ hp := root_covers_iff.1 (h.covers t.fits_root hp)
  aligned hlt a := by
    have hdvd := pow_dvd_along h a
    have hlt' := UInt32.lt_iff_toNat_lt.1 hlt
    rwa [min_eq_left (by omega)] at hdvd

/-- No query overflows. Its search comes to its end, and so does every search of its kind; whatever
cell such a search ever has before or behind it is within the bounds of the tree, and all that is
computed of the cell is exact. -/
theorem query_confined (t : Tree) (viewer : Vec3) (frustum : Frustum) (q : NodeQuery) :
    ∃ seen found, (Sight.ofView viewer frustum q).explore [t.root] [] = .ok seen ∧
      t.query viewer frustum q = .ok found ∧
      (Sight.ofView viewer frustum q).Run ⟨[t.root], []⟩ ⟨[], seen⟩ ∧
      ∀ p, (Sight.ofView viewer frustum q).Run ⟨[t.root], []⟩ p →
        ∀ n ∈ p.pending ++ p.seen.map Prod.fst, t.Confines n ∧ n.Exact := by
  obtain ⟨found, hfound⟩ := t.exists_query viewer frustum q
  obtain ⟨seen, hseen, -⟩ := query_eq_ok_iff.1 hfound
  refine ⟨seen, found, hseen, hfound, Sight.explore_run hseen, fun p hp n hn => ?_⟩
  have hsound := (Sight.Sound.start _ t.root).run t.fits_root hp
  have hholds : t.root.Holds n := by
    rcases List.mem_append.1 hn with hn | hn
    · exact (hsound.comes_pending n hn).1
    · obtain ⟨x, hx, rfl⟩ := List.mem_map.1 hn
      exact (hsound.comes_seen x hx).2.1
  exact ⟨confines hholds, (hholds.fits t.fits_root).exact⟩

end Tree
end VoxelStream
