import Mathlib
import VoxelStream.Proofs.Octree.Descent

/-!
# Subdivision

A cell that fits is cut into its octants, these into theirs, and so on down to any level
(`Node.subdivide`). After every cut the cells there are partition the first one
(`Node.Partition`): they are apart from each other and leave out no position of it. A cut makes
eight cells of each and ends one level further down (`Node.Subdivision`), so what is left in the end
are all cells of one level that the first one holds, and as many as the power of eight says
(`Node.Fits.subdivide_partitions`).
-/

namespace VoxelStream

/-- Checked results taken along a list have values exactly if each of them has. -/
theorem Checked.mapM_eq_ok_iff_forall₂ {α β : Type} {f : α → Checked β} {l : List α} {r : List β} :
    l.mapM f = .ok r ↔ List.Forall₂ (fun a b => f a = .ok b) l r := by
  rw [mapM_eq_ok_iff, ← List.forall₂_eq_eq_eq, List.forall₂_map_left_iff, List.forall₂_map_right_iff]

namespace Node

/-- The octants of some cells, in the order of the cells. -/
def octants (cells : List Node) : Checked (List Node) := do
  return (← cells.mapM children).flatten

/-- The cells that are left after a cell was cut into octants a number of times. -/
def subdivide (n : Node) : Nat → Checked (List Node)
  | 0 => .ok [n]
  | times + 1 => do octants (← n.subdivide times)

/-- The cells are apart from each other, and together they cover what `n` covers. -/
structure Partition (n : Node) (cells : List Node) : Prop where
  apart : cells.Pairwise Apart
  covers_iff : ∀ p, n.Covers p ↔ ∃ c ∈ cells, c.Covers p

variable {n : Node} {cells : List Node} {parts : List (List Node)}

/-! ## Partitions -/

/-- A cell is its own partition. -/
theorem Partition.refl (n : Node) : n.Partition [n] where
  apart := List.pairwise_singleton _ _
  covers_iff p := by simp

/-- The octants of a cell that fits partition it. -/
theorem Fits.partition_children {cs : List Node} (h : n.Fits) (hn : n.isLeaf = false)
    (hcs : n.children = .ok cs) : n.Partition cs where
  apart := h.apart_children hcs
  covers_iff p := by
    constructor
    · intro hp
      obtain ⟨c, ⟨cs', hcs', hc⟩, hcp⟩ := h.exists_child_covers hn hp
      rw [hcs] at hcs'
      injection hcs' with hcs'
      exact ⟨c, hcs' ▸ hc, hcp⟩
    · rintro ⟨c, hc, hcp⟩
      exact HasChild.covers ⟨cs, hcs, hc⟩ h hcp

/-- What the parts of some cells cover is what the cells cover. -/
theorem exists_covers_flatten_iff (h : List.Forall₂ Partition cells parts) (p : Axis → Int) :
    (∃ c ∈ parts.flatten, c.Covers p) ↔ ∃ c ∈ cells, c.Covers p := by
  induction h with
  | nil => simp
  | @cons c cs _ _ hc _ ih =>
    rw [List.flatten_cons, List.exists_mem_cons_iff, ← ih, hc.covers_iff p]
    simp only [List.mem_append, or_and_right, exists_or]

/-- The parts of cells that are apart are apart. -/
theorem pairwise_apart_flatten (h : List.Forall₂ Partition cells parts)
    (hcells : cells.Pairwise Apart) : parts.flatten.Pairwise Apart := by
  induction h with
  | nil => exact .nil
  | @cons c cs rest _ hc hrest ih =>
    obtain ⟨hfirst, hothers⟩ := List.pairwise_cons.1 hcells
    refine List.pairwise_append.2 ⟨hc.apart, ih hothers, fun d hd e he p hdp hep => ?_⟩
    obtain ⟨f, hf, hfp⟩ := (exists_covers_flatten_iff hrest p).1 ⟨e, he, hep⟩
    exact hfirst f hf p ((hc.covers_iff p).2 ⟨d, hd, hdp⟩) hfp

/-- A partition of each part of a partition is a partition of the whole. -/
theorem Partition.flatten (h : n.Partition cells) (hparts : List.Forall₂ Partition cells parts) :
    n.Partition parts.flatten where
  apart := pairwise_apart_flatten hparts h.apart
  covers_iff p := (h.covers_iff p).trans (exists_covers_flatten_iff hparts p).symm

/-- A position of the whole is in one part and no other. -/
theorem Partition.existsUnique_covers (h : n.Partition cells) {p : Axis → Int} (hp : n.Covers p) :
    ∃! c, c ∈ cells ∧ c.Covers p := by
  have : Std.Symm Apart := ⟨fun _ _ hab => hab.symm⟩
  obtain ⟨c, hc, hcp⟩ := (h.covers_iff p).1 hp
  refine ⟨c, ⟨hc, hcp⟩, fun d ⟨hd, hdp⟩ => ?_⟩
  by_contra hne
  exact h.apart.forall hd hc hne p hdp hcp

/-- No part is there twice: a part covers its own origin. -/
theorem Partition.nodup (h : n.Partition cells) : cells.Nodup := by
  refine h.apart.imp fun {c d} hcd he => ?_
  subst he
  exact hcd _ c.covers_origin c.covers_origin

/-! ## Cutting -/

/-- Cells that fit have children, each of them its own. -/
theorem exists_forall₂_children (h : ∀ c ∈ cells, c.Fits) :
    ∃ parts, List.Forall₂ (fun c cs => c.children = .ok cs) cells parts := by
  induction cells with
  | nil => exact ⟨[], .nil⟩
  | cons c rest ih =>
    obtain ⟨parts, hparts⟩ := ih fun d hd => h d (List.mem_cons_of_mem _ hd)
    obtain ⟨cs, hcs⟩ := (h c List.mem_cons_self).children
    exact ⟨cs :: parts, .cons hcs hparts⟩

/-- The octants of some cells are the children of each of them. -/
theorem mem_flatten_children_iff (h : List.Forall₂ (fun c cs => c.children = .ok cs) cells parts)
    {d : Node} : d ∈ parts.flatten ↔ ∃ c ∈ cells, c.HasChild d := by
  induction h with
  | nil => simp
  | @cons c cs _ _ hc _ ih =>
    have hchild : c.HasChild d ↔ d ∈ cs := by simp [HasChild, hc]
    rw [List.flatten_cons, List.mem_append, List.exists_mem_cons_iff, ih, hchild]

/-- Cells that are no leaves have eight octants each. -/
theorem length_flatten_children (h : List.Forall₂ (fun c cs => c.children = .ok cs) cells parts)
    (hcells : ∀ c ∈ cells, c.isLeaf = false) : parts.flatten.length = 8 * cells.length := by
  induction h with
  | nil => rfl
  | cons hc _ ih =>
    have hfirst := length_children_eq (hcells _ List.mem_cons_self) hc
    have hrest := ih fun d hd => hcells d (List.mem_cons_of_mem _ hd)
    rw [List.flatten_cons, List.length_append, List.length_cons, hfirst, hrest]
    omega

/-- The cells are what a cell is cut into by a number of cuts, one after the other. -/
structure Subdivision (n : Node) (times : Nat) (cells : List Node) : Prop where
  partition : n.Partition cells
  holds : ∀ c ∈ cells, n.Holds c
  level : ∀ c ∈ cells, c.level.toNat + times = n.level.toNat
  length : cells.length = 8 ^ times

/-- A cell that was not cut is itself. -/
theorem Subdivision.zero (n : Node) : n.Subdivision 0 [n] where
  partition := .refl n
  holds c hc := by
    rw [List.mem_singleton.1 hc]
    exact .refl n
  level c hc := by
    rw [List.mem_singleton.1 hc]
    rfl
  length := rfl

/-- As long as the cells there are no leaves, they can be cut once more. -/
theorem Subdivision.exists_octants {times : Nat} (h : n.Subdivision times cells) (hn : n.Fits)
    (htimes : times < n.level.toNat) :
    ∃ next, octants cells = .ok next ∧ n.Subdivision (times + 1) next := by
  have hfits : ∀ c ∈ cells, c.Fits := fun c hc => (h.holds c hc).fits hn
  -- There are levels left below the cells.
  have hleaf : ∀ c ∈ cells, c.isLeaf = false := by
    intro c hc
    have hlevel := h.level c hc
    rw [isLeaf, beq_eq_false_iff_ne]
    intro hz
    rw [hz, UInt32.toNat_zero] at hlevel
    omega
  obtain ⟨parts, hparts⟩ := exists_forall₂_children hfits
  have hpartition : List.Forall₂ Partition cells parts :=
    ((List.forall₂_and_left _ _).2 ⟨fun c hc => And.intro (hfits c hc) (hleaf c hc), hparts⟩).imp
      fun _ _ hcut => hcut.1.1.partition_children hcut.1.2 hcut.2
  refine ⟨parts.flatten, ?_, h.partition.flatten hpartition, fun d hd => ?_, fun d hd => ?_, ?_⟩
  · rw [octants, Checked.mapM_eq_ok_iff_forall₂.2 hparts]
    rfl
  · obtain ⟨c, hc, hcd⟩ := (mem_flatten_children_iff hparts).1 hd
    exact (h.holds c hc).trans hcd.holds
  · obtain ⟨c, hc, hcd⟩ := (mem_flatten_children_iff hparts).1 hd
    have := h.level c hc
    have := hcd.level
    omega
  · rw [length_flatten_children hparts hleaf, h.length, pow_succ']

/-- A cell that fits can be cut down to its leaves. -/
theorem Fits.exists_subdivide {times : Nat} (h : n.Fits) (htimes : times ≤ n.level.toNat) :
    ∃ cells, n.subdivide times = .ok cells ∧ n.Subdivision times cells := by
  induction times with
  | zero => exact ⟨[n], rfl, .zero n⟩
  | succ times ih =>
    obtain ⟨cells, hcells, hsub⟩ := ih (Nat.le_of_succ_le htimes)
    obtain ⟨next, hnext, hsub'⟩ := hsub.exists_octants h htimes
    refine ⟨next, ?_, hsub'⟩
    rw [subdivide, hcells]
    exact hnext

/-- Cutting leaves all the cells of a level that the cell holds. -/
theorem Subdivision.mem_iff {times : Nat} (h : n.Subdivision times cells) (hn : n.Fits) {c : Node} :
    c ∈ cells ↔ n.Holds c ∧ c.level.toNat + times = n.level.toNat := by
  refine ⟨fun hc => ⟨h.holds c hc, h.level c hc⟩, fun ⟨hc, hlevel⟩ => ?_⟩
  -- The part that covers the origin is the cell: neither is above the other.
  obtain ⟨d, hd, hdp⟩ := (h.partition.covers_iff _).1 (hc.covers hn c.covers_origin)
  have hdlevel := h.level d hd
  rcases (h.holds d hd).apart_or_holds hc with hapart | hdc | hcd
  · exact absurd c.covers_origin (hapart _ hdp)
  · rcases hdc.eq_or_above with he | habove
    · exact he ▸ hd
    · have := habove.level_lt
      omega
  · rcases hcd.eq_or_above with he | habove
    · exact he ▸ hd
    · have := habove.level_lt
      omega

/-- A cell whose positions are all words, cut down to a level again and again, falls without an
overflow into all its cells of that level. They are different and as many as the power of eight of
the number of cuts, each position of the cell lies in one of them, and no other position does. And
whatever is reached from one cell is apart, unless it is the same cell or one is above the other. -/
theorem Fits.subdivide_partitions {k : UInt32} (h : n.Fits) (hk : k ≤ n.level) :
    (∃ cells, n.subdivide (n.level.toNat - k.toNat) = .ok cells ∧
      cells.length = 8 ^ (n.level.toNat - k.toNat) ∧ cells.Nodup ∧
      (∀ c, c ∈ cells ↔ n.Holds c ∧ c.level = k) ∧
      (∀ p, n.Covers p → ∃! c, c ∈ cells ∧ c.Covers p) ∧
      ∀ p, ¬ n.Covers p → ∀ c ∈ cells, ¬ c.Covers p) ∧
    ∀ r a b : Node, r.Holds a → r.Holds b → a = b ∨ a.Above b ∨ b.Above a ∨ a.Apart b := by
  have hk' : k.toNat ≤ n.level.toNat := UInt32.le_iff_toNat_le.1 hk
  obtain ⟨cells, hcells, hsub⟩ := h.exists_subdivide (Nat.sub_le n.level.toNat k.toNat)
  refine ⟨⟨cells, hcells, hsub.length, hsub.partition.nodup, fun c => ?_,
    fun p => hsub.partition.existsUnique_covers,
    fun p hp c hc hcp => hp ((hsub.partition.covers_iff p).2 ⟨c, hc, hcp⟩)⟩, fun r a b ha hb => ?_⟩
  · rw [hsub.mem_iff h, ← UInt32.toNat_inj]
    refine and_congr_right fun _ => ?_
    omega
  · rcases ha.apart_or_holds hb with hapart | hab | hba
    · exact .inr (.inr (.inr hapart))
    · exact hab.eq_or_above.imp_right .inl
    · rcases hba.eq_or_above with he | habove
      · exact .inl he.symm
      · exact .inr (.inr (.inl habove))

/-- The cell of the greatest size whose last positions are the greatest words. -/
def farthest : Node := ⟨.splat 0x40000000, 30⟩

/-- The farthest cell fits. -/
theorem fits_farthest : farthest.Fits := by
  refine ⟨by decide, fun a => ?_⟩
  cases a <;> decide

/-- Cut three times, the farthest cell falls into 512 cells, and the last of its positions, up to
which no sum may overflow, is in one of them. -/
theorem farthest_subdivide_partitions : farthest.Fits ∧ (27 : UInt32) ≤ farthest.level ∧
    ∃ cells, farthest.subdivide 3 = .ok cells ∧ cells.length = 512 ∧ cells.Nodup ∧
      ∃! c, c ∈ cells ∧ c.Covers fun _ => 0x7fffffff := by
  obtain ⟨⟨cells, hcells, hlength, hnodup, -, hcovers, -⟩, -⟩ :=
    fits_farthest.subdivide_partitions (k := 27) (by decide)
  refine ⟨fits_farthest, by decide, cells, hcells, hlength, hnodup, hcovers _ fun a => ?_⟩
  cases a <;> decide

end Node
end VoxelStream
