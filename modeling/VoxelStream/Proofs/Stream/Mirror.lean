import VoxelStream.Proofs.Render.Retained
import VoxelStream.Proofs.Stream.Course
import VoxelStream.Proofs.Stream.Plan

/-!
# The retained set mirrors the visible set

A retained set mirrors a visible set if it holds, of each of its nodes, the chunk that the cache has
for it, and nothing else (`Retained.Mirrors`). Along the course of a streamer that has a retained
set to itself this is so except between the two calls of a pass, when what is held is the part that
the old and the new visible set have in common; `Course.Mirrored` says so for every place and
`Course.Mirrored.step` that each step keeps it. It says also that the visible set is part of what
some view shows, and that this is still so of what is left behind by a streamer that was lost.
-/

namespace VoxelStream

variable {γ : Type} {G : Generator γ} {c : Config}

/-- The retained set holds the cached chunks of the visible nodes and no others. -/
structure Retained.Mirrors (r : Retained) (visible : NodeSet) (cache : Cache) : Prop where
  of_mem : ∀ n ∈ visible, ∃ chunk, cache.find? n = some chunk ∧ r.chunkOf n = some chunk
  of_not_mem : ∀ n, n ∉ visible → r.chunkOf n = none

namespace Retained.Mirrors

variable {r : Retained} {visible old : NodeSet} {cache cache' : Cache} {next : Streamer}
  {removed added : List Chunk}

/-- The empty set mirrors that nothing is visible. -/
theorem empty (cache : Cache) : Retained.empty.Mirrors ∅ cache where
  of_mem n hn := by simp at hn
  of_not_mem n _ := chunkOf_empty n

/-- A cache that has more chunks does as well. -/
theorem mono (h : r.Mirrors visible cache)
    (hkeep : ∀ {n chunk}, cache.find? n = some chunk → cache'.find? n = some chunk) :
    r.Mirrors visible cache' where
  of_mem n hn := by
    obtain ⟨chunk, hc, hr⟩ := h.of_mem n hn
    exact ⟨chunk, hkeep hc, hr⟩
  of_not_mem := h.of_not_mem

/-- A node has a chunk in the retained set just if it is visible. -/
theorem isSome_iff (h : r.Mirrors visible cache) {n : Node} :
    (r.chunkOf n).isSome ↔ n ∈ visible := by
  by_cases hn : n ∈ visible
  · obtain ⟨chunk, -, hr⟩ := h.of_mem n hn
    simp [hr, hn]
  · simp [h.of_not_mem n hn, hn]

/-- What is retained of a node is what the cache has for it, if it is visible. -/
theorem chunkOf_eq (h : r.Mirrors visible cache) (n : Node) :
    r.chunkOf n = if n ∈ visible then cache.find? n else none := by
  split
  · next hn =>
    obtain ⟨chunk, hcached, hretained⟩ := h.of_mem n hn
    rw [hretained, hcached]
  · next hn => exact h.of_not_mem n hn

/-- After the first call of a pass what the visible sets have in common is left. -/
theorem remove (h : r.Mirrors old cache) (ht : Streamer.Turn old next removed added) :
    (r.remove removed).Mirrors (old ∩ next.visible) cache where
  of_mem n hn := by
    obtain ⟨ho, hv⟩ := Std.ExtTreeSet.mem_inter_iff.1 hn
    have hkept : n ∉ removed.map Chunk.node := fun hr => ((ht.mem_removed_iff n).1 hr).2 hv
    rw [chunkOf_remove, if_neg hkept]
    exact h.of_mem n ho
  of_not_mem n hn := by
    rw [chunkOf_remove]
    split
    · rfl
    · next hkept =>
      refine h.of_not_mem n fun ho => ?_
      have hv : n ∈ next.visible := by
        by_contra hv
        exact hkept ((ht.mem_removed_iff n).2 ⟨ho, hv⟩)
      exact hn (Std.ExtTreeSet.mem_inter_iff.2 ⟨ho, hv⟩)

/-- After the second call of a pass there is the new visible set. -/
theorem add (h : r.Mirrors (old ∩ next.visible) next.cache)
    (ht : Streamer.Turn old next removed added) :
    (r.add added).Mirrors next.visible next.cache where
  of_mem n hn := by
    by_cases ho : n ∈ old
    · have hkept : n ∉ added.map Chunk.node := fun ha => ((ht.mem_added_iff n).1 ha).2 ho
      rw [chunkOf_add_of_not_mem r hkept]
      exact h.of_mem n (Std.ExtTreeSet.mem_inter_iff.2 ⟨ho, hn⟩)
    · obtain ⟨chunk, hmem, hnode, hr⟩ := r.exists_chunkOf_add ((ht.mem_added_iff n).2 ⟨hn, ho⟩)
      exact ⟨chunk, hnode ▸ ht.cached chunk hmem, hr⟩
  of_not_mem n hn := by
    have hkept : n ∉ added.map Chunk.node := fun ha => hn ((ht.mem_added_iff n).1 ha).1
    rw [chunkOf_add_of_not_mem r hkept]
    exact h.of_not_mem n fun hi => hn (Std.ExtTreeSet.mem_inter_iff.1 hi).2

end Retained.Mirrors

/-! ## Streamers of a configuration -/

/-- What holds of a streamer of a configuration at any time: it has the configuration's tree and
query and a cache for that tree, and its visible nodes are among those that some view shows. -/
structure Streamer.Serves (c : Config) (s : Streamer) : Prop where
  tree_eq : Tree.ofLevel c.rootLevel = .ok s.tree
  query_eq : s.query = c.query
  sound : s.cache.Sound
  maxLevel_eq : s.cache.maxLevel = s.tree.rootLevel
  shown : ∃ v nodes, s.inView v = .ok nodes ∧ ∀ n ∈ s.visible, n ∈ nodes

namespace Streamer.Serves

variable {s next : Streamer}

/-- A new streamer serves its configuration and has nothing visible. -/
theorem ofConfig (h : Streamer.ofConfig c = .ok s) : s.Serves c ∧ s.visible = ∅ := by
  unfold Streamer.ofConfig at h
  split at h
  · next tree ht =>
    cases h
    obtain ⟨nodes, hnodes⟩ := Streamer.exists_inView
      { tree, query := c.query, cache := .ofMaxLevel tree.rootLevel } {}
    exact ⟨⟨ht, rfl, Cache.sound_ofMaxLevel _, rfl, {}, nodes, hnodes, by simp⟩, rfl⟩
  · cases h

/-- Figures do not matter. -/
theorem of_eq (h : s.Serves c) (ht : next.tree = s.tree) (hq : next.query = s.query)
    (hc : next.cache = s.cache) (hv : next.visible = s.visible) : next.Serves c := by
  obtain ⟨v, nodes, hnodes, hsub⟩ := h.shown
  refine ⟨ht ▸ h.tree_eq, hq ▸ h.query_eq, hc ▸ h.sound, ?_, v, nodes, ?_, hv ▸ hsub⟩
  · rw [hc, ht]
    exact h.maxLevel_eq
  · rw [inView, ht, hq]
    exact hnodes

/-- What a view shows is of the levels of the cache. -/
theorem level_lt {v : View} {nodes : NodeSet} {n : Node} (h : s.Serves c)
    (hv : s.inView v = .ok nodes) (hn : n ∈ nodes) :
    n.level.toNat < s.cache.maxLevel.toNat + 1 := by
  have hholds := ((Tree.mem_query_iff hv).1 hn).1
  rw [h.maxLevel_eq]
  exact Nat.lt_succ_of_le hholds.level_le

/-- A plan that changes something leads to a streamer of the same configuration, with the new
visible set and, until that is taken over, with the old one. -/
theorem planned {nodes : NodeSet} {v : View} {removed added : List Chunk} {g g' : γ}
    (h : s.Serves c) (hv : s.inView v = .ok nodes)
    (hp : Planned G s nodes g (.change next removed added) g') :
    next.Serves c ∧ Serves c { next with visible := s.visible } := by
  have hn := hp.succeeds h.sound
  have htree : Tree.ofLevel c.rootLevel = .ok next.tree := hn.tree_eq ▸ h.tree_eq
  have hquery : next.query = c.query := hn.query_eq.trans h.query_eq
  have hmax : next.cache.maxLevel = next.tree.rootLevel := by
    rw [hn.maxLevel_eq, hn.tree_eq, h.maxLevel_eq]
  have hview : ∀ v, next.inView v = s.inView v := fun v => by
    rw [inView, inView, hn.tree_eq, hn.query_eq]
  obtain ⟨v₀, nodes₀, hnodes₀, hsub₀⟩ := h.shown
  exact ⟨⟨htree, hquery, hn.sound, hmax, v, nodes, (hview v).trans hv, hn.subset⟩,
    ⟨htree, hquery, hn.sound, hmax, v₀, nodes₀, (hview v₀).trans hnodes₀, hsub₀⟩⟩

end Streamer.Serves

/-! ## The invariant of a course -/

/-- The streamer is one of the configuration and the retained set mirrors its visible set. -/
def Streamer.Mirrored (c : Config) (r : Retained) (s : Streamer) : Prop :=
  s.Serves c ∧ r.Mirrors s.visible s.cache

/-- What holds of the retained set wherever the streamer is. -/
def Place.Mirrored (c : Config) (r : Retained) : Place → Prop
  | .lost => ∃ s : Streamer, s.Mirrored c r
  | .resting s | .passing _ (.begun s) | .passing _ (.ended s _) => s.Mirrored c r
  | .passing _ (.resolved old next removed added) =>
    Streamer.Mirrored c r { next with visible := old } ∧ next.Serves c ∧
      Streamer.Turn old next removed added
  | .passing _ (.withdrawn next removed added) =>
    next.Serves c ∧ ∃ old : NodeSet, r.Mirrors (old ∩ next.visible) next.cache ∧
      Streamer.Turn old next removed added

/-- The retained set is as it should be for the place of the streamer. -/
def Course.Mirrored (c : Config) (x : Course γ Retained) : Prop := x.place.Mirrored c x.sink

/-- The part of a pass that plans keeps the retained set as it should be. -/
theorem Place.Mirrored.plan {s : Streamer} {v : View} {r r' : Retained} {g g' : γ}
    {o : Option Pass} (h : s.Mirrored c r)
    (hp : Pass.step G Retained.sink v (.begun s) g r = (o, g', r')) :
    (Place.ofPass v o).Mirrored c r' := by
  obtain ⟨nodes, hv⟩ := s.exists_inView v
  have hplanned := Streamer.plan_planned G g hv
  obtain ⟨hserves, hmirrors⟩ := h
  rw [Pass.step] at hp
  rcases hplan : s.plan G v g with ⟨_ | s' | ⟨next, removed, added⟩, g₁⟩
  all_goals
    rw [hplan] at hp hplanned
    cases hp
  · exact ⟨s, hserves, hmirrors⟩
  · cases hplanned with
    | same _ => exact ⟨hserves.of_eq rfl rfl rfl rfl, hmirrors⟩
  · obtain ⟨hnext, hold⟩ := hserves.planned hv hplanned
    have hsucc := hplanned.succeeds hserves.sound
    have hcached : ∀ n ∈ s.visible, ∃ chunk, s.cache.find? n = some chunk := fun n hn => by
      obtain ⟨chunk, hc, -⟩ := hmirrors.of_mem n hn
      exact ⟨chunk, hc⟩
    exact ⟨⟨hold, hmirrors.mono hsucc.keeps⟩, hnext, hplanned.turn hserves.sound hcached⟩

/-- Each step of a course keeps the retained set as it should be. -/
theorem Course.Mirrored.step {x y : Course γ Retained} (hstep : Course.Step G Retained.sink c x y)
    (h : x.Mirrored c) : y.Mirrored c := by
  cases hstep with
  | renew hs =>
    obtain ⟨hserves, hvisible⟩ := Streamer.Serves.ofConfig hs
    refine ⟨hserves, ?_⟩
    rw [hvisible]
    exact .empty _
  | enter v => exact h
  | leave => exact h
  | @drop s g r => exact ⟨s, h⟩
  | @pass v p o g g' r r' hp =>
    cases p with
    | begun s => exact Place.Mirrored.plan h hp
    | resolved old next removed added =>
      cases hp
      obtain ⟨⟨-, hmirrors⟩, hnext, hturn⟩ := h
      exact ⟨hnext, old, hmirrors.remove hturn, hturn⟩
    | withdrawn next removed added =>
      cases hp
      obtain ⟨hnext, old, hmirrors, hturn⟩ := h
      exact ⟨hnext.of_eq rfl rfl rfl rfl, hmirrors.add hturn⟩
    | ended s changed =>
      cases hp
      exact h

end VoxelStream
