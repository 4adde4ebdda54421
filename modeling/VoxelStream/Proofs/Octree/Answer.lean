import Mathlib
import VoxelStream.Proofs.Octree.Search

/-!
# The answer to a query

What a query is meant to find is said without a search: `Tree.Answers` speaks of one cell and its
ancestors, in the words of the tests on floats. `Tree.query_answers` is the agreement of the two. It
holds for every viewer, view volume and query, whatever the floats are, for the tests are functions
of a cell and nothing is asked of them; a comparison with a NaN fails in both. The cells of one
answer are apart (`Tree.Answers.apart`).
-/

namespace VoxelStream

namespace NodeQuery

variable (q : NodeQuery) (viewer : Vec3) (frustum : Frustum) (n : Node)

/-- The sphere around the cell meets the view volume, and it is not, as a whole, farther away than
the range. -/
def Admits : Prop :=
  frustum.intersects n.ball = true ∧
    ¬ n.ball.center.distance viewer - n.ball.radius > q.maxRadius

/-- The cell is a leaf whose centre is in range. -/
def ShowsLeaf : Prop := n.level = 0 ∧ n.ball.center.distance viewer ≤ q.maxRadius

/-- The cell is kept whole: it is larger than a leaf, its centre is far away for its size, by the
factor there is, and in range. -/
def KeepsWhole : Prop :=
  ∃ factor, q.lodFactor = some factor ∧ 0 < n.level ∧
    n.ball.center.distance viewer ≥ factor * Word.toFloat32 n.edge ∧
    n.ball.center.distance viewer ≤ q.maxRadius

end NodeQuery

/-- A cell of the tree answers the query: it is admitted and is a leaf to show or kept whole, and
its ancestors are admitted and not kept whole. -/
def Tree.Answers (t : Tree) (viewer : Vec3) (frustum : Frustum) (q : NodeQuery) (n : Node) : Prop :=
  t.root.Holds n ∧ q.Admits viewer frustum n ∧ (q.ShowsLeaf viewer n ∨ q.KeepsWhole viewer n) ∧
    ∀ a, t.root.Holds a → a.Above n → q.Admits viewer frustum a ∧ ¬ q.KeepsWhole viewer a

namespace Sight

section
variable {viewer : Vec3} {frustum : Frustum} {q : NodeQuery} {n : Node}

/-- A cell passes the two pruning tests just if the query admits it. -/
theorem passes_ofView_iff : (ofView viewer frustum q).passes n ↔ q.Admits viewer frustum n := by
  unfold passes ofView NodeQuery.Admits
  rw [Bool.and_eq_true, Bool.not_eq_true', decide_eq_false_iff_not]

/-- A cell is distant if there is a factor and it is as far away as that many of its edges. -/
theorem distant_ofView_iff : (ofView viewer frustum q).distant n ↔
    ∃ factor, q.lodFactor = some factor ∧
      n.ball.center.distance viewer ≥ factor * Word.toFloat32 n.edge := by
  unfold ofView
  cases q.lodFactor with
  | none => simp
  | some factor => simp

/-- Leaves are the nodes of level zero. -/
theorem isLeaf_iff : n.isLeaf = true ↔ n.level = 0 := by simp [Node.isLeaf]

/-- A cell is accepted as a leaf that is shown or as a whole that is kept. -/
theorem accepts_ofView_iff : (ofView viewer frustum q).accepts n ↔
    q.ShowsLeaf viewer n ∨ q.KeepsWhole viewer n := by
  have hrange : (ofView viewer frustum q).inRange n ↔
      n.ball.center.distance viewer ≤ q.maxRadius := by
    unfold ofView
    rw [decide_eq_true_iff]
  unfold accepts
  rw [Bool.and_eq_true, Bool.or_eq_true, hrange, distant_ofView_iff, isLeaf_iff]
  constructor
  · rintro ⟨hleaf | ⟨factor, hf, hd⟩, hr⟩
    · exact .inl ⟨hleaf, hr⟩
    · by_cases hz : n.level = 0
      · exact .inl ⟨hz, hr⟩
      · exact .inr ⟨factor, hf, UInt32.pos_iff_ne_zero.2 hz, hd, hr⟩
  · rintro (⟨hleaf, hr⟩ | ⟨factor, hf, -, hd, hr⟩)
    · exact ⟨.inl hleaf, hr⟩
    · exact ⟨.inr ⟨factor, hf, hd⟩, hr⟩

/-- A cell above another one is split if it is admitted and not kept whole. -/
theorem verdict_ofView_eq_split_iff (hn : n.isLeaf = false) :
    (ofView viewer frustum q).verdict n = .split ↔
      q.Admits viewer frustum n ∧ ¬ q.KeepsWhole viewer n := by
  have hz : ¬ q.ShowsLeaf viewer n := fun h => by simp [isLeaf_iff.2 h.1] at hn
  rw [verdict_eq_split_iff, passes_ofView_iff, accepts_ofView_iff]
  simp [hn, hz]

/-- The cells that a search comes to and keeps are those that answer the query. -/
theorem comes_and_keep_iff {t : Tree} :
    (ofView viewer frustum q).Comes t.root n ∧ (ofView viewer frustum q).verdict n = .keep ↔
      t.Answers viewer frustum q n := by
  have habove : (∀ a, t.root.Holds a → a.Above n → (ofView viewer frustum q).verdict a = .split) ↔
      ∀ a, t.root.Holds a → a.Above n →
        q.Admits viewer frustum a ∧ ¬ q.KeepsWhole viewer a := by
    constructor
    · exact fun h a ha han => (verdict_ofView_eq_split_iff han.isLeaf).1 (h a ha han)
    · exact fun h a ha han => (verdict_ofView_eq_split_iff han.isLeaf).2 (h a ha han)
  rw [verdict_eq_keep_iff, passes_ofView_iff, accepts_ofView_iff, Comes, habove, Tree.Answers]
  tauto

end

/-- However a search of `r` goes about it: it takes no cell twice and no more cells than the root's
weight, it can take any pending cell next, and in the end it has kept what `found` holds. -/
structure Settles (s : Sight) (r : Node) (found : NodeSet) : Prop where
  nodup : ∀ q, s.Run ⟨[r], []⟩ q → (q.seen.map Prod.fst).Nodup
  length_le : ∀ q, s.Run ⟨[r], []⟩ q → q.seen.length ≤ weight r
  goes_on : ∀ q, s.Run ⟨[r], []⟩ q → ∀ n ∈ q.pending,
    ∃ q', s.Step q q' ∧ q'.seen = (n, s.verdict n) :: q.seen
  mem_kept : ∀ q, s.Run ⟨[r], []⟩ q → q.pending = [] → ∀ n, n ∈ kept q.seen ↔ n ∈ found

/-- Searches of a cell that fits settle on the cells that they come to and keep. -/
theorem settles {s : Sight} {r : Node} {found : NodeSet} (hr : r.Fits)
    (hfound : ∀ n, n ∈ found ↔ s.Comes r n ∧ s.verdict n = .keep) : s.Settles r found := by
  have hsound : ∀ {q}, s.Run ⟨[r], []⟩ q → s.Sound r q := fun h => (Sound.start s r).run hr h
  refine ⟨fun q h => (hsound h).nodup_seen, fun q h => ?_, fun q h n hn =>
    (hsound h).exists_step hr hn, fun q h he n => ?_⟩
  · have := h.length_seen_le
    dsimp only [List.length_nil, load, List.foldr] at this
    omega
  · obtain ⟨pending, seen⟩ := q
    dsimp only at he
    subst he
    exact (hsound h).mem_kept.trans (hfound n).symm

/-- The set that `explore` gives rise to holds the cells that it comes to and keeps. -/
theorem mem_ofList_kept {s : Sight} {r : Node} {seen : List (Node × Verdict)} (hr : r.Fits)
    (h : s.explore [r] [] = .ok seen) {n : Node} :
    n ∈ (Std.ExtTreeSet.ofList (kept seen) : NodeSet) ↔ s.Comes r n ∧ s.verdict n = .keep := by
  rw [Std.ExtTreeSet.mem_ofList, List.contains_iff_mem]
  exact ((Sound.start s r).run hr (explore_run h)).mem_kept

end Sight

namespace Tree

variable {t : Tree} {viewer : Vec3} {frustum : Frustum} {q : NodeQuery}

/-- A query is a search from the root to its end. -/
theorem query_eq_ok_iff {found : NodeSet} : t.query viewer frustum q = .ok found ↔
    ∃ seen, (Sight.ofView viewer frustum q).explore [t.root] [] = .ok seen ∧
      found = .ofList (Sight.kept seen) := by
  unfold query Sight.search
  cases (Sight.ofView viewer frustum q).explore [t.root] [] with
  | error f => simp [bind, Except.bind]
  | ok seen => simp [bind, Except.bind, pure, Except.pure, eq_comm]

/-- Every query has a result. -/
theorem exists_query (t : Tree) (viewer : Vec3) (frustum : Frustum) (q : NodeQuery) :
    ∃ found, t.query viewer frustum q = .ok found := by
  have hfits : ∀ n ∈ [t.root], n.Fits := fun n hn => List.mem_singleton.1 hn ▸ t.fits_root
  obtain ⟨seen, hseen⟩ := (Sight.ofView viewer frustum q).exists_explore [] hfits
  exact ⟨_, query_eq_ok_iff.2 ⟨seen, hseen, rfl⟩⟩

/-- The result of a query holds the cells that answer it. -/
theorem mem_query_iff {found : NodeSet} (h : t.query viewer frustum q = .ok found) {n : Node} :
    n ∈ found ↔ t.Answers viewer frustum q n := by
  obtain ⟨seen, hseen, rfl⟩ := query_eq_ok_iff.1 h
  exact (Sight.mem_ofList_kept t.fits_root hseen).trans Sight.comes_and_keep_iff

/-- No cell that answers a query is above another one: it is a leaf or kept whole, and what is above
an answer is neither. -/
theorem Answers.not_above {m n : Node} (hm : t.Answers viewer frustum q m)
    (hn : t.Answers viewer frustum q n) : ¬ m.Above n := by
  intro h
  obtain ⟨hroot, -, haccepts, -⟩ := hm
  obtain ⟨-, -, -, habove⟩ := hn
  rcases haccepts with hleaf | hkeeps
  · have hsplit := h.isLeaf
    rw [Sight.isLeaf_iff.2 hleaf.1] at hsplit
    cases hsplit
  · exact (habove m hroot h).2 hkeeps

/-- Different cells that answer a query are apart. -/
theorem Answers.apart {m n : Node} (hm : t.Answers viewer frustum q m)
    (hn : t.Answers viewer frustum q n) (hne : m ≠ n) : m.Apart n := by
  rcases hm.1.apart_or_holds hn.1 with h | h | h
  · exact h
  · rcases h.eq_or_above with h | h
    · exact absurd h hne
    · exact absurd h (hm.not_above hn)
  · rcases h.eq_or_above with h | h
    · exact absurd h.symm hne
    · exact absurd h (hn.not_above hm)

/-- A query ends with just the cells that answer it, and so does every search of its kind, in
whatever order it takes the pending cells and each cell at most once. -/
theorem query_answers (t : Tree) (viewer : Vec3) (frustum : Frustum) (q : NodeQuery) :
    ∃ seen found, (Sight.ofView viewer frustum q).explore [t.root] [] = .ok seen ∧
      (Sight.ofView viewer frustum q).Run ⟨[t.root], []⟩ ⟨[], seen⟩ ∧
      t.query viewer frustum q = .ok found ∧
      (∀ n, n ∈ found ↔ t.Answers viewer frustum q n) ∧
      (Sight.ofView viewer frustum q).Settles t.root found := by
  obtain ⟨found, hfound⟩ := t.exists_query viewer frustum q
  obtain ⟨seen, hseen, -⟩ := query_eq_ok_iff.1 hfound
  refine ⟨seen, found, hseen, Sight.explore_run hseen, hfound, fun n => mem_query_iff hfound,
    Sight.settles t.fits_root fun n => ?_⟩
  rw [mem_query_iff hfound, Sight.comes_and_keep_iff]

end Tree
end VoxelStream
