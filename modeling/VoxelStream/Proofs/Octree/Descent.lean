import Mathlib
import VoxelStream.Proofs.Octree.Cell

/-!
# Descent through the octants

A cell holds itself and whatever lies below it (`Node.Holds`), and is above the latter
(`Node.Above`). Two cells reached from one are apart unless one of them holds the other
(`Node.Holds.apart_or_holds`), so in the tree of a cell that fits a cell has one parent
(`Node.Holds.parent_unique`) and its ancestors form a chain. The leaves that a cell that fits holds
are those of its positions (`Node.Fits.holds_leaf_iff`).
-/

namespace VoxelStream.Node

/-- `n` is `a` or an octant of an octant of it, to any depth. -/
def Holds (a n : Node) : Prop := Relation.ReflTransGen HasChild a n

/-- `a` is a proper ancestor of `n`. -/
def Above (a n : Node) : Prop := Relation.TransGen HasChild a n

/-- A node holds itself. -/
theorem Holds.refl (n : Node) : n.Holds n := Relation.ReflTransGen.refl

/-- What is held by a node that is held is held. -/
theorem Holds.trans {a b c : Node} (h : a.Holds b) (h' : b.Holds c) : a.Holds c :=
  Relation.ReflTransGen.trans h h'

/-- A proper ancestor is an ancestor. -/
theorem Above.holds {a n : Node} (h : a.Above n) : a.Holds n := Relation.TransGen.to_reflTransGen h

/-- A node holds its octants. -/
theorem HasChild.holds {a n : Node} (h : a.HasChild n) : a.Holds n := Relation.ReflTransGen.single h

/-- What a cell holds is the cell itself, or is held by one of its octants. -/
theorem Holds.eq_or_exists_child {a n : Node} (h : a.Holds n) :
    a = n ∨ ∃ c, a.HasChild c ∧ c.Holds n := Relation.ReflTransGen.cases_head h

/-- A cell above another holds its parent. -/
theorem Above.exists_parent {a n : Node} (h : a.Above n) : ∃ p, a.Holds p ∧ p.HasChild n := by
  obtain ⟨p, hp, hn⟩ := Relation.TransGen.tail'_iff.1 h
  exact ⟨p, hp, hn⟩

/-- The cells that a cell holds are itself and those it is above. -/
theorem Holds.eq_or_above {a n : Node} (h : a.Holds n) : a = n ∨ a.Above n :=
  (Relation.reflTransGen_iff_eq_or_transGen.1 h).imp_left Eq.symm

/-- A proper ancestor is of a greater level. -/
theorem Above.level_lt {a n : Node} (h : a.Above n) : n.level.toNat < a.level.toNat := by
  induction h with
  | single hc =>
    have := hc.level
    omega
  | tail _ hc ih =>
    have := hc.level
    omega

/-- No node holds one of a greater level. -/
theorem Holds.level_le {a n : Node} (h : a.Holds n) : n.level.toNat ≤ a.level.toNat := by
  rcases h.eq_or_above with rfl | h
  · exact le_rfl
  · exact h.level_lt.le

/-- Something above another cell is not a leaf. -/
theorem Above.isLeaf {a n : Node} (h : a.Above n) : a.isLeaf = false := by
  obtain ⟨c, hc, -⟩ := Relation.TransGen.head'_iff.1 h
  exact hc.exists_octant.1

/-- All that a cell that fits holds fits. -/
theorem Holds.fits {a n : Node} (h : a.Holds n) (ha : a.Fits) : n.Fits := by
  induction h with
  | refl => exact ha
  | tail _ hc ih => exact hc.fits ih

/-- All that a cell holds lies in it if its edge is a positive word. -/
theorem Holds.covers_of_level_le {a n : Node} (h : a.Holds n) (ha : a.level.toNat ≤ 30)
    {p : Axis → Int} (hp : n.Covers p) : a.Covers p := by
  induction h with
  | refl => exact hp
  | tail hb hc ih => exact ih (hc.covers_of_level_le ((Holds.level_le hb).trans ha) hp)

/-- All that a cell that fits holds lies in it. -/
theorem Holds.covers {a n : Node} (h : a.Holds n) (ha : a.Fits) {p : Axis → Int}
    (hp : n.Covers p) : a.Covers p := h.covers_of_level_le ha.level_le hp

/-- A node has positions in common with all it holds. -/
theorem Holds.not_apart {a n : Node} (h : a.Holds n) (ha : a.Fits) : ¬ a.Apart n := fun hn =>
  hn _ (h.covers ha n.covers_origin) n.covers_origin

/-- Different octants of a cell are apart. -/
theorem HasChild.apart {n c d : Node} (hc : n.HasChild c) (hd : n.HasChild d) (hne : c ≠ d) :
    c.Apart d := by
  obtain ⟨-, o, ho⟩ := hc.exists_octant
  obtain ⟨-, q, hq⟩ := hd.exists_octant
  refine apart_of_child hc.level_lt hc.level (fun hoq => hne ?_) ho hq
  rw [hoq, hq] at ho
  injection ho with ho
  exact ho.symm

/-- Two cells reached from one are apart unless one of them holds the other. Nothing is asked of the
cell that they are reached from: what matters are its octants, whose edges are positive words. -/
theorem Holds.apart_or_holds {r m n : Node} (hm : r.Holds m) (hn : r.Holds n) :
    m.Apart n ∨ m.Holds n ∨ n.Holds m := by
  -- The paths to both cells are followed down to where they part.
  induction hm using Relation.ReflTransGen.head_induction_on with
  | refl => exact .inr (.inl hn)
  | @head a c hac hcm ih =>
    rcases hn.eq_or_exists_child with rfl | ⟨d, had, hdn⟩
    · exact .inr (.inr (.trans hac.holds hcm))
    · by_cases hcd : c = d
      · subst hcd
        exact ih hdn
      · exact .inl ((hac.apart had hcd).mono (fun p => Holds.covers_of_level_le hcm hac.level_le)
          (fun p => Holds.covers_of_level_le hdn had.level_le))

/-- A cell of a tree has one parent in it. -/
theorem Holds.parent_unique {r m n c : Node} (hm : r.Holds m) (hr : r.Fits) (hn : r.Holds n)
    (hmc : m.HasChild c) (hnc : n.HasChild c) : m = n := by
  have hlm := hmc.level
  have hln := hnc.level
  rcases hm.apart_or_holds hn with h | h | h
  · exact absurd (hnc.covers (hn.fits hr) c.covers_origin)
      (h _ (hmc.covers (hm.fits hr) c.covers_origin))
  · rcases h.eq_or_above with h | h
    · exact h
    · have := h.level_lt
      omega
  · rcases h.eq_or_above with h | h
    · exact h.symm
    · have := h.level_lt
      omega

/-- A cell that fits holds the leaf of each of its positions. -/
theorem Fits.holds_of_covers {a n : Node} (ha : a.Fits) (hn : n.level = 0)
    (hp : a.Covers n.origin.along) : a.Holds n := by
  -- Going down, the octant that covers the position is the only way.
  induction hk : a.level.toNat generalizing a with
  | zero =>
    have hlevel : a.level = n.level := UInt32.toNat_inj.1 (by rw [hk, hn]; rfl)
    have horigin : a.origin = n.origin := Coord.ext_along fun d => by
      have := hp d
      rw [hk, pow_zero] at this
      omega
    have he : a = n := by
      cases a
      cases n
      rw [Node.mk.injEq]
      exact ⟨horigin, hlevel⟩
    exact he ▸ .refl a
  | succ k ih =>
    have hleaf : a.isLeaf = false := by
      rw [isLeaf, beq_eq_false_iff_ne]
      intro hz
      rw [hz] at hk
      cases hk
    obtain ⟨c, hc, hcp⟩ := ha.exists_child_covers hleaf hp
    have hlevel := hc.level
    exact hc.holds.trans (ih (hc.fits ha) hcp (by omega))

/-- The leaves that a cell holds are those of its positions. -/
theorem Fits.holds_leaf_iff {a n : Node} (ha : a.Fits) (hn : n.level = 0) :
    a.Holds n ↔ a.Covers n.origin.along :=
  ⟨fun h => h.covers ha n.covers_origin, ha.holds_of_covers hn⟩

end VoxelStream.Node
