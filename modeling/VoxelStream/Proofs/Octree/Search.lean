import Mathlib
import VoxelStream.Octree.Query
import VoxelStream.Proofs.Octree.Descent

/-!
# What a search finds

`Sight.Step` is a search that takes any pending cell next and leaves the pending cells in any
order; `Sight.explore` is one such search (`Sight.explore_run`). Whatever the order, a search of a
cell that fits comes exactly to the cells all of whose ancestors were split (`Sight.Comes`), and to
each of them once: this is the invariant `Sight.Sound`. The pending list gets lighter with every
step (`Sight.Step.load_lt`), so every search ends.

`Tree.query_answers` says what is found in the words of the tests themselves: the cells of
`Tree.Answers`, in whatever order the cells were taken.
-/

namespace VoxelStream

namespace Sight

variable {s : Sight} {r n : Node}

/-- The octants of a cell that is split, nothing in the place of another one. -/
def successors (s : Sight) (n : Node) : Checked (List Node) :=
  match n.size, s.verdict n with
  | .error f, _ => .error f
  | .ok _, .split => n.children
  | .ok _, _ => .ok []

/-- How far a search has come. -/
structure Search where
  pending : List Node
  /-- The cells taken so far, each with its verdict. -/
  seen : List (Node × Verdict) := []

/-- A step of a search takes a pending cell, whichever it is, and puts its successors among the
others, wherever it likes. -/
inductive Step (s : Sight) : Search → Search → Prop
  | take {pending rest next pending' : List Node} {seen : List (Node × Verdict)} {n : Node} :
      pending.Perm (n :: rest) → s.successors n = .ok next → pending'.Perm (next ++ rest) →
      Step s ⟨pending, seen⟩ ⟨pending', (n, s.verdict n) :: seen⟩

/-- Any number of steps. -/
def Run (s : Sight) : Search → Search → Prop := Relation.ReflTransGen s.Step

/-- The cells that a search of `r` comes to: those below nothing but split cells. -/
def Comes (s : Sight) (r n : Node) : Prop :=
  r.Holds n ∧ ∀ a, r.Holds a → a.Above n → s.verdict a = .split

/-! ## The three verdicts -/

/-- A cell is kept if it passes and is accepted. -/
theorem verdict_eq_keep_iff : s.verdict n = .keep ↔ s.passes n ∧ s.accepts n := by
  unfold verdict
  cases s.passes n <;> cases s.accepts n <;> cases n.isLeaf <;> simp

/-- A cell is split if it passes, is not accepted and is no leaf. -/
theorem verdict_eq_split_iff :
    s.verdict n = .split ↔ s.passes n ∧ ¬ s.accepts n ∧ n.isLeaf = false := by
  unfold verdict
  cases s.passes n <;> cases s.accepts n <;> cases n.isLeaf <;> simp

/-! ## Successors -/

/-- A successor is an octant of a cell that is split. -/
theorem hasChild_of_mem_successors {next : List Node} {c : Node} (h : s.successors n = .ok next)
    (hc : c ∈ next) : n.HasChild c ∧ s.verdict n = .split := by
  unfold successors at h
  split at h
  · cases h
  · next hv => exact ⟨⟨next, h, hc⟩, hv⟩
  · injection h with h
    rw [← h] at hc
    cases hc

/-- Every octant of a cell that is split is a successor. -/
theorem mem_successors_of_hasChild {next : List Node} {c : Node} (h : s.successors n = .ok next)
    (hv : s.verdict n = .split) (hc : n.HasChild c) : c ∈ next := by
  obtain ⟨cs, hcs, hmem⟩ := hc
  unfold successors at h
  rw [hv] at h
  split at h
  · cases h
  · rw [hcs] at h
    injection h with h
    exact h ▸ hmem
  · next hv' => exact absurd rfl hv'

/-- The successors of a cell are apart. -/
theorem pairwise_successors {next : List Node} (hn : n.Fits) (h : s.successors n = .ok next) :
    next.Pairwise Node.Apart := by
  unfold successors at h
  split at h
  · cases h
  · exact hn.apart_children h
  · injection h with h
    rw [← h]
    exact .nil

/-- A cell that fits has successors, be it none. -/
theorem exists_successors (s : Sight) (hn : n.Fits) : ∃ next, s.successors n = .ok next := by
  unfold successors
  rw [hn.size]
  cases s.verdict n with
  | drop => exact ⟨[], rfl⟩
  | keep => exact ⟨[], rfl⟩
  | split => exact hn.children

/-! ## Every search ends -/

/-- The order of the pending cells has no part in their load. -/
theorem load_perm {a b : List Node} (h : a.Perm b) : load a = load b := by
  induction h with
  | nil => rfl
  | cons n _ ih => rw [load_cons, load_cons, ih]
  | swap m n l => rw [load_cons, load_cons, load_cons, load_cons, Nat.add_left_comm]
  | trans _ _ ih ih' => exact ih.trans ih'

/-- A step makes the pending list lighter. -/
theorem Step.load_lt {q q' : Search} (h : s.Step q q') : load q'.pending < load q.pending := by
  cases h with
  | @take pending rest next pending' seen n hp hs hp' =>
    rw [load_perm hp, load_perm hp']
    unfold successors at hs
    split at hs
    · cases hs
    · exact load_children_lt hs rest
    · injection hs with hs
      rw [← hs]
      exact load_lt_cons n rest

/-- A step sees one cell. -/
theorem Step.length_seen {q q' : Search} (h : s.Step q q') :
    q'.seen.length = q.seen.length + 1 := by
  cases h
  rfl

/-- The weight of the pending list at first bounds the number of steps. -/
theorem Run.length_seen_le {q q' : Search} (h : s.Run q q') :
    q'.seen.length + load q'.pending ≤ q.seen.length + load q.pending := by
  induction h with
  | refl => exact le_rfl
  | tail _ hstep ih =>
    have := hstep.load_lt
    have := hstep.length_seen
    omega

/-! ## The invariant -/

/-- What holds of a search of `r` at any time: the pending cells are apart and none of them holds a
cell seen before; and the search comes to what is pending or seen, and to nothing else but what is
below pending cells. -/
structure Sound (s : Sight) (r : Node) (q : Search) : Prop where
  comes_pending : ∀ n ∈ q.pending, s.Comes r n
  apart_pending : q.pending.Pairwise Node.Apart
  comes_seen : ∀ x ∈ q.seen, x.2 = s.verdict x.1 ∧ s.Comes r x.1
  fresh : ∀ n ∈ q.pending, ∀ x ∈ q.seen, ¬ n.Holds x.1
  nodup_seen : (q.seen.map Prod.fst).Nodup
  covered : ∀ n, s.Comes r n → n ∈ q.seen.map Prod.fst ∨ ∃ p ∈ q.pending, p.Holds n

/-- A search begins with its root and nothing seen. -/
theorem Sound.start (s : Sight) (r : Node) : s.Sound r ⟨[r], []⟩ where
  comes_pending := by
    intro n hn
    rw [List.mem_singleton] at hn
    subst hn
    -- Nothing that the cell holds is above it.
    refine ⟨.refl n, fun a ha han => ?_⟩
    have := ha.level_le
    have := han.level_lt
    omega
  apart_pending := List.pairwise_singleton _ _
  comes_seen := nofun
  fresh := nofun
  nodup_seen := List.nodup_nil
  covered := fun n hn => .inr ⟨r, List.mem_singleton_self r, hn.1⟩

/-- An octant of a cell that the search splits is a cell that it comes to. -/
theorem Comes.child {c : Node} (hr : r.Fits) (h : s.Comes r n) (hv : s.verdict n = .split)
    (hc : n.HasChild c) : s.Comes r c := by
  refine ⟨h.1.trans hc.holds, fun a ha hac => ?_⟩
  obtain ⟨p, hap, hpc⟩ := hac.exists_parent
  have hpn := Node.Holds.parent_unique (ha.trans hap) hr h.1 hpc hc
  subst hpn
  rcases hap.eq_or_above with rfl | hab
  · exact hv
  · exact h.2 a ha hab

/-- The order of the pending cells does not matter. -/
theorem Sound.perm {pending pending' : List Node} {seen : List (Node × Verdict)}
    (h : s.Sound r ⟨pending, seen⟩) (hp : pending.Perm pending') : s.Sound r ⟨pending', seen⟩ where
  comes_pending n hn := h.comes_pending n (hp.mem_iff.2 hn)
  apart_pending := (hp.pairwise_iff fun hab => hab.symm).1 h.apart_pending
  comes_seen := h.comes_seen
  fresh n hn := h.fresh n (hp.mem_iff.2 hn)
  nodup_seen := h.nodup_seen
  covered n hn := by
    rcases h.covered n hn with hseen | ⟨p, hmem, hpn⟩
    · exact .inl hseen
    · exact .inr ⟨p, hp.mem_iff.1 hmem, hpn⟩

section
variable {rest next : List Node} {seen : List (Node × Verdict)}

/-- What is pending after a cell was taken does not hold that cell: it is apart from it or below
it. -/
theorem Sound.not_holds_taken {m : Node} (hr : r.Fits) (h : s.Sound r ⟨n :: rest, seen⟩)
    (hs : s.successors n = .ok next) (hm : m ∈ next ++ rest) : ¬ m.Holds n := by
  intro hmn
  rcases List.mem_append.1 hm with hm | hm
  · have := (hasChild_of_mem_successors hs hm).1.level
    have := hmn.level_le
    omega
  · have hmf : m.Fits := (h.comes_pending m (List.mem_cons_of_mem _ hm)).1.fits hr
    exact hmn.not_apart hmf ((List.pairwise_cons.1 h.apart_pending).1 m hm).symm

/-- What a taken cell holds is the cell or below one that is pending now. -/
theorem Sound.covered_taken {m : Node} (h : s.Sound r ⟨n :: rest, seen⟩)
    (hs : s.successors n = .ok next) (hm : s.Comes r m) (hnm : n.Holds m) :
    n = m ∨ ∃ p ∈ next ++ rest, p.Holds m := by
  have hn := h.comes_pending n List.mem_cons_self
  rcases hnm.eq_or_exists_child with he | ⟨c, hc, hcm⟩
  · exact .inl he
  · have habove : n.Above m := Relation.TransGen.head' hc hcm
    have hnext := mem_successors_of_hasChild hs (hm.2 n hn.1 habove) hc
    exact .inr ⟨c, List.mem_append_left _ hnext, hcm⟩

/-- Taking the first of the pending cells keeps the invariant. -/
theorem Sound.take (hr : r.Fits) (h : s.Sound r ⟨n :: rest, seen⟩)
    (hs : s.successors n = .ok next) :
    s.Sound r ⟨next ++ rest, (n, s.verdict n) :: seen⟩ where
  comes_pending := by
    intro m hm
    rcases List.mem_append.1 hm with hm | hm
    · obtain ⟨hchild, hsplit⟩ := hasChild_of_mem_successors hs hm
      exact (h.comes_pending n List.mem_cons_self).child hr hsplit hchild
    · exact h.comes_pending m (List.mem_cons_of_mem _ hm)
  apart_pending := by
    have hnf : n.Fits := (h.comes_pending n List.mem_cons_self).1.fits hr
    obtain ⟨hnrest, hrest⟩ := List.pairwise_cons.1 h.apart_pending
    refine List.pairwise_append.2 ⟨pairwise_successors hnf hs, hrest, fun c hc m hm => ?_⟩
    have hchild := (hasChild_of_mem_successors hs hc).1
    exact (hnrest m hm).mono (fun p => hchild.covers hnf) (fun p hp => hp)
  comes_seen := by
    intro x hx
    rcases List.mem_cons.1 hx with rfl | hx
    · exact ⟨rfl, h.comes_pending n List.mem_cons_self⟩
    · exact h.comes_seen x hx
  fresh := by
    intro m hm x hx hmx
    rcases List.mem_cons.1 hx with rfl | hx
    · exact h.not_holds_taken hr hs hm hmx
    rcases List.mem_append.1 hm with hm | hm
    · have hchild := (hasChild_of_mem_successors hs hm).1
      exact h.fresh n List.mem_cons_self x hx (hchild.holds.trans hmx)
    · exact h.fresh m (List.mem_cons_of_mem _ hm) x hx hmx
  nodup_seen := by
    refine List.nodup_cons.2 ⟨fun hseen => ?_, h.nodup_seen⟩
    obtain ⟨x, hx, hxn⟩ := List.mem_map.1 hseen
    exact h.fresh n List.mem_cons_self x hx (hxn ▸ .refl n)
  covered := by
    intro m hm
    rcases h.covered m hm with hseen | ⟨p, hp, hpm⟩
    · exact .inl (List.mem_cons_of_mem _ hseen)
    rcases List.mem_cons.1 hp with rfl | hp
    · rcases h.covered_taken hs hm hpm with rfl | hcovered
      · exact .inl List.mem_cons_self
      · exact .inr hcovered
    · exact .inr ⟨p, List.mem_append_right _ hp, hpm⟩

end

/-- A step keeps the invariant. -/
theorem Sound.step {q q' : Search} (hr : r.Fits) (h : s.Sound r q) (hstep : s.Step q q') :
    s.Sound r q' := by
  cases hstep with
  | take hp hs hp' => exact ((h.perm hp).take hr hs).perm hp'.symm

/-- A search is sound at any time. -/
theorem Sound.run {q q' : Search} (hr : r.Fits) (h : s.Sound r q) (hrun : s.Run q q') :
    s.Sound r q' := by
  induction hrun with
  | refl => exact h
  | tail _ hstep ih => exact ih.step hr hstep

/-- Every pending cell can be taken next. -/
theorem Sound.exists_step {q : Search} (hr : r.Fits) (h : s.Sound r q) (hn : n ∈ q.pending) :
    ∃ q', s.Step q q' ∧ q'.seen = (n, s.verdict n) :: q.seen := by
  obtain ⟨next, hnext⟩ := s.exists_successors ((h.comes_pending n hn).1.fits hr)
  exact ⟨⟨next ++ q.pending.erase n, (n, s.verdict n) :: q.seen⟩,
    .take (List.perm_cons_erase hn) hnext (.refl _), rfl⟩

/-- Kept cells are those seen with this verdict. -/
theorem mem_kept_iff {seen : List (Node × Verdict)} : n ∈ kept seen ↔ (n, Verdict.keep) ∈ seen := by
  rw [kept, List.mem_filterMap]
  constructor
  · rintro ⟨⟨m, v⟩, hm, he⟩
    dsimp only at he
    split at he
    · next hv =>
      injection he with he
      rwa [← he, ← hv]
    · cases he
  · exact fun h => ⟨_, h, rfl⟩

/-- A search that has ended kept just what it came to and did not drop or split. -/
theorem Sound.mem_kept {seen : List (Node × Verdict)} (h : s.Sound r ⟨[], seen⟩) :
    n ∈ kept seen ↔ s.Comes r n ∧ s.verdict n = .keep := by
  rw [mem_kept_iff]
  constructor
  · intro hn
    obtain ⟨hv, hc⟩ := h.comes_seen _ hn
    exact ⟨hc, hv.symm⟩
  · rintro ⟨hc, hv⟩
    rcases h.covered n hc with hn | ⟨p, hp, -⟩
    · obtain ⟨⟨m, v⟩, hx, rfl⟩ := List.mem_map.1 hn
      have := (h.comes_seen _ hx).1
      rw [hv] at this
      exact this ▸ hx
    · cases hp

/-! ## `explore` is one of the searches -/

/-- What `explore` takes, it takes from the front, and it puts successors in front. -/
theorem explore_run {pending : List Node} {seen result : List (Node × Verdict)}
    (h : s.explore pending seen = .ok result) : s.Run ⟨pending, seen⟩ ⟨[], result⟩ := by
  fun_induction explore s pending seen with
  | case1 seen =>
    injection h with h
    rw [h]
    exact .refl
  | case2 => cases h
  | case3 => cases h
  | case4 seen n rest e hsize hv octants hcs ih =>
    have hs : s.successors n = .ok octants := by rw [successors, hsize, hv]; exact hcs
    exact .head (hv ▸ .take (.refl _) hs (.refl _)) (ih h)
  | case5 seen n rest e hsize hv ih =>
    have hs : s.successors n = .ok [] := by
      unfold successors
      rw [hsize]
      cases hv' : s.verdict n with
      | drop => rfl
      | keep => rfl
      | split => exact absurd hv' hv
    exact .head (.take (.refl _) hs (.refl _)) (ih h)

/-- Cells that fit are explored to the end. -/
theorem exists_explore (s : Sight) {pending : List Node} (seen : List (Node × Verdict))
    (hp : ∀ n ∈ pending, n.Fits) : ∃ result, s.explore pending seen = .ok result := by
  fun_induction explore s pending seen with
  | case1 seen => exact ⟨seen, rfl⟩
  | case2 seen n rest f hsize =>
    rw [(hp n List.mem_cons_self).size] at hsize
    cases hsize
  | case3 seen n rest e hsize hv f hcs =>
    obtain ⟨cs, hcs'⟩ := (hp n List.mem_cons_self).children
    rw [hcs'] at hcs
    cases hcs
  | case4 seen n rest e hsize hv octants hcs ih =>
    refine ih fun m hm => ?_
    rcases List.mem_append.1 hm with hm | hm
    · exact Node.HasChild.fits ⟨octants, hcs, hm⟩ (hp n List.mem_cons_self)
    · exact hp m (List.mem_cons_of_mem _ hm)
  | case5 seen n rest e hsize hv ih => exact ih fun m hm => hp m (List.mem_cons_of_mem _ hm)

end Sight
end VoxelStream
