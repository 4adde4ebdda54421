import Mathlib
import VoxelStream.Proofs.Octree.Answer

/-!
# Answers as cuts of the octree

The cells of an answer cut the octree: no two of them share a position, so none is above another
(`Tree.query_antichain`). Two queries of one range cut it at different depths when they have
different factors, and what one of them shows the other one shows as well, whole or as a part of a
larger cell (`Tree.Answers.exists_holds`). So a query that keeps far cells whole loses no leaf that
is in view and shows none twice (`Tree.leaf_in_one_cell`).

The search that keeps less goes on below the cells where the other one ends. What is followed is
therefore the path from the root to a leaf, down to the first cell on it that is kept
(`Sight.Comes.exists_keep`).
-/

namespace VoxelStream

/-- All of `n` lies in `m`. -/
def Node.Within (n m : Node) : Prop := ∀ p, n.Covers p → m.Covers p

/-- A cell that lies in another one is not apart from it. -/
theorem Node.Within.not_apart {m n : Node} (h : n.Within m) : ¬ n.Apart m := fun hapart =>
  hapart _ n.covers_origin (h _ n.covers_origin)

namespace Sight

variable {s : Sight} {r b n : Node}

/-- A cell that passes the tests and is larger than a leaf is not dropped. -/
theorem verdict_ne_drop (hp : s.passes b) (hb : b.isLeaf = false) : s.verdict b ≠ .drop := by
  unfold verdict
  rw [hp, hb]
  cases s.accepts b <;> simp

/-- On the way down to a cell that can be kept, past cells that all pass the tests, the search keeps
one. -/
theorem Comes.exists_keep (hb : s.Comes r b) (hr : r.Fits) (hbn : b.Holds n)
    (hpasses : ∀ a, r.Holds a → a.Holds n → s.passes a) (haccepts : s.accepts n) :
    ∃ m, m.Holds n ∧ s.Comes r m ∧ s.verdict m = .keep := by
  induction hbn using Relation.ReflTransGen.head_induction_on with
  | refl =>
    exact ⟨n, .refl n, hb, verdict_eq_keep_iff.2 ⟨hpasses n hb.1 (.refl n), haccepts⟩⟩
  | @head b c hbc hcn ih =>
    have hbn : b.Holds n := .head hbc hcn
    cases hv : s.verdict b with
    | keep => exact ⟨b, hbn, hb, hv⟩
    | split => exact ih (hb.child hr hv hbc)
    | drop => exact absurd hv (verdict_ne_drop (hpasses b hb.1 hbn) hbc.exists_octant.1)

/-- Every search comes to the cell that it starts with. -/
theorem comes_start (s : Sight) (r : Node) : s.Comes r r :=
  (Sound.start s r).comes_pending r (List.mem_singleton_self r)

end Sight

namespace NodeQuery

variable {q q' : NodeQuery} {viewer : Vec3} {frustum : Frustum} {n : Node}

/-- Whether a cell is admitted is a matter of the range. -/
theorem Admits.of_maxRadius_eq (h : q.Admits viewer frustum n) (hq : q'.maxRadius = q.maxRadius) :
    q'.Admits viewer frustum n := by
  unfold Admits
  rw [hq]
  exact h

/-- Which leaves are shown depends on the radius of the query alone. -/
theorem ShowsLeaf.of_maxRadius_eq (h : q.ShowsLeaf viewer n) (hq : q'.maxRadius = q.maxRadius) :
    q'.ShowsLeaf viewer n := by
  unfold ShowsLeaf
  rw [hq]
  exact h

/-- Without a factor no cell is kept whole. -/
theorem not_keepsWhole (hq : q.lodFactor = none) : ¬ q.KeepsWhole viewer n := by
  rintro ⟨factor, hf, -⟩
  rw [hq] at hf
  cases hf

/-- A leaf is never kept whole; it is shown. -/
theorem not_keepsWhole_leaf (hn : n.level = 0) : ¬ q.KeepsWhole viewer n := by
  rintro ⟨factor, -, hpos, -⟩
  rw [hn] at hpos
  exact absurd hpos (UInt32.lt_irrefl 0)

end NodeQuery

namespace Tree

variable {t : Tree} {viewer : Vec3} {frustum : Frustum} {q q' : NodeQuery} {m n : Node}

/-- A cell that answers a query is admitted, and so is all that is above it. -/
theorem Answers.admits (h : t.Answers viewer frustum q n) {a : Node} (ha : t.root.Holds a)
    (han : a.Holds n) : q.Admits viewer frustum a := by
  obtain ⟨-, hadmits, -, habove⟩ := h
  rcases han.eq_or_above with rfl | han
  · exact hadmits
  · exact (habove a ha han).1

/-- A leaf that answers is shown as one, and without a factor there are no other answers. -/
theorem Answers.showsLeaf (h : t.Answers viewer frustum q n)
    (hn : n.level = 0 ∨ q.lodFactor = none) : q.ShowsLeaf viewer n := by
  obtain ⟨-, -, hleaf | hkeeps, -⟩ := h
  · exact hleaf
  · rcases hn with hn | hq
    · exact absurd hkeeps (NodeQuery.not_keepsWhole_leaf hn)
    · exact absurd hkeeps (NodeQuery.not_keepsWhole hq)

/-- What answers one query and could answer another one of the same range is part of a cell that
does answer the other one. -/
theorem Answers.exists_holds (h : t.Answers viewer frustum q n)
    (hq : q'.maxRadius = q.maxRadius)
    (hn : q'.ShowsLeaf viewer n ∨ q'.KeepsWhole viewer n) :
    ∃ m, m.Holds n ∧ t.Answers viewer frustum q' m := by
  have hpasses : ∀ a, t.root.Holds a → a.Holds n → (Sight.ofView viewer frustum q').passes a :=
    fun a ha han => Sight.passes_ofView_iff.2 ((h.admits ha han).of_maxRadius_eq hq)
  obtain ⟨m, hmn, hcomes, hkeep⟩ := (Sight.comes_start _ t.root).exists_keep t.fits_root h.1
    hpasses (Sight.accepts_ofView_iff.2 hn)
  exact ⟨m, hmn, Sight.comes_and_keep_iff.1 ⟨hcomes, hkeep⟩⟩

/-- A leaf that answers one query answers every query of the same range that has no factor. -/
theorem Answers.of_leaf (h : t.Answers viewer frustum q n) (hn : n.level = 0)
    (hq : q'.maxRadius = q.maxRadius) (hnone : q'.lodFactor = none) :
    t.Answers viewer frustum q' n := by
  refine ⟨h.1, (h.admits h.1 (.refl n)).of_maxRadius_eq hq,
    .inl ((h.showsLeaf (.inl hn)).of_maxRadius_eq hq), ?_⟩
  intro a ha han
  exact ⟨(h.admits ha han.holds).of_maxRadius_eq hq, NodeQuery.not_keepsWhole hnone⟩

/-- The cells of the result of a query share no position, so none of them is above another, and
without a factor they are leaves. -/
theorem query_antichain (t : Tree) (viewer : Vec3) (frustum : Frustum) (q : NodeQuery) :
    ∃ found, t.query viewer frustum q = .ok found ∧
      (∀ m ∈ found, ∀ n ∈ found, m ≠ n → m.Apart n ∧ ¬ m.Above n ∧ ¬ n.Above m) ∧
      (q.lodFactor = none → ∀ n ∈ found, n.level = 0) := by
  obtain ⟨found, hfound⟩ := t.exists_query viewer frustum q
  refine ⟨found, hfound, ?_, ?_⟩
  · intro m hm n hn hne
    have ham := (mem_query_iff hfound).1 hm
    have han := (mem_query_iff hfound).1 hn
    exact ⟨ham.apart han hne, ham.not_above han, han.not_above ham⟩
  · intro hq n hn
    exact (((mem_query_iff hfound).1 hn).showsLeaf (.inr hq)).1

/-- Each leaf that is in view and in range lies in exactly one cell that a query of the same range
shows, whatever its factor is, and is apart from the others; and the leaves that such a query shows
are among the former. -/
theorem leaf_in_one_cell (t : Tree) (viewer : Vec3) (frustum : Frustum)
    (maxRadius factor : Float32) :
    ∃ leaves coarse, t.findNodes viewer frustum maxRadius = .ok leaves ∧
      t.query viewer frustum ⟨maxRadius, some factor⟩ = .ok coarse ∧
      (∀ n ∈ leaves, (∃! m, m ∈ coarse ∧ n.Within m) ∧
        ∀ m ∈ coarse, n.Within m ∨ n.Apart m) ∧
      ∀ n ∈ coarse, n.level = 0 → n ∈ leaves := by
  obtain ⟨leaves, hleaves⟩ := t.exists_query viewer frustum { maxRadius }
  obtain ⟨coarse, hcoarse⟩ := t.exists_query viewer frustum ⟨maxRadius, some factor⟩
  refine ⟨leaves, coarse, hleaves, hcoarse, ?_, ?_⟩
  · intro n hn
    have hans := (mem_query_iff hleaves).1 hn
    have hshows : NodeQuery.ShowsLeaf ⟨maxRadius, some factor⟩ viewer n :=
      (hans.showsLeaf (.inr rfl)).of_maxRadius_eq rfl
    obtain ⟨m, hmn, hm⟩ := hans.exists_holds (by rfl) (.inl hshows)
    have hwithin : n.Within m := fun p => hmn.covers (hm.1.fits t.fits_root)
    -- What is apart from the cell that holds the leaf is apart from the leaf.
    have hothers : ∀ m' ∈ coarse, m' ≠ m → n.Apart m' := fun m' hm' hne =>
      (((mem_query_iff hcoarse).1 hm').apart hm hne).symm.mono hwithin fun _ => id
    refine ⟨⟨m, ⟨(mem_query_iff hcoarse).2 hm, hwithin⟩, ?_⟩, ?_⟩
    · rintro m' ⟨hm', hwithin'⟩
      by_contra hne
      exact hwithin'.not_apart (hothers m' hm' hne)
    · intro m' hm'
      by_cases he : m' = m
      · exact .inl (he ▸ hwithin)
      · exact .inr (hothers m' hm' he)
  · intro n hn hleaf
    exact (mem_query_iff hleaves).2 (((mem_query_iff hcoarse).1 hn).of_leaf hleaf rfl rfl)

end Tree
end VoxelStream
