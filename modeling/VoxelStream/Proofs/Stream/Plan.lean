import VoxelStream.Proofs.Octree.Answer
import VoxelStream.Proofs.Octree.Difference
import VoxelStream.Proofs.Store.Cache
import VoxelStream.Stream.Settle

/-!
# What a plan changes

The first half of a pass, in terms of sets of nodes and the map of the cache. Resolving nodes only
adds to the map, and the chunks had are those that the map then has for the nodes that did not fail
(`Resolution.Resolved`). A plan that changes something hands out what the sink needs to go from the
old visible set to the new one (`Streamer.Turn`): the chunks to remove are those of the nodes that
leave, though some of them may have been stored many passes ago, and the chunks to add are the
cached ones of the nodes that come. A failed node is in neither.
-/

namespace VoxelStream

variable {γ : Type} {G : Generator γ}

namespace Resolution

/-- What has become of a resolution when the nodes of `l` were resolved and the chunks `new` had. -/
structure Resolved (r : Resolution) (l : List Node) (r' : Resolution) (new : List Chunk) :
    Prop where
  sound : r'.cache.Sound
  maxLevel_eq : r'.cache.maxLevel = r.cache.maxLevel
  keeps : ∀ {n c}, r.cache.find? n = some c → r'.cache.find? n = some c
  chunks_eq : r'.chunks.toList = r.chunks.toList ++ new
  cached : ∀ c ∈ new, r'.cache.find? c.node = some c
  failed_mono : ∀ {n}, n ∈ r.failed → n ∈ r'.failed
  nodes_eq : l.Nodup → (∀ n ∈ l, n ∉ r.failed) →
    new.map Chunk.node = l.filter (!r'.failed.contains ·)

section
variable {r r' : Resolution} {rest : List Node} {m : Node} {cache : Cache} {new : List Chunk}

/-- A node was had, and then the others are resolved. -/
theorem Resolved.cons_had {chunk : Chunk}
    (h : Resolved { r with cache, chunks := r.chunks.push chunk } rest r' new)
    (hmax : cache.maxLevel = r.cache.maxLevel)
    (hkeeps : ∀ {n c}, r.cache.find? n = some c → cache.find? n = some c)
    (hnode : chunk.node = m) (hcached : cache.find? m = some chunk)
    (hfailed : ∀ n ∈ r'.failed, n ∈ r.failed ∨ n ∈ rest) :
    r.Resolved (m :: rest) r' (chunk :: new) where
  sound := h.sound
  maxLevel_eq := h.maxLevel_eq.trans hmax
  keeps hn := h.keeps (hkeeps hn)
  chunks_eq := by
    rw [h.chunks_eq, Array.toList_push, List.append_assoc]
    rfl
  cached := by
    intro d hd
    rcases List.mem_cons.1 hd with rfl | hd
    · rw [hnode]
      exact h.keeps hcached
    · exact h.cached d hd
  failed_mono := h.failed_mono
  nodes_eq := by
    intro hl hfree
    obtain ⟨hm, hrest⟩ := List.nodup_cons.1 hl
    -- A node that was had once does not fail later, since it is not asked for again.
    have hmf : m ∉ r'.failed := by
      intro hmem
      rcases hfailed m hmem with hr | hr
      · exact hfree m List.mem_cons_self hr
      · exact hm hr
    have hnew := h.nodes_eq hrest fun n hn => hfree n (List.mem_cons_of_mem _ hn)
    rw [List.map_cons, hnode, hnew,
      List.filter_cons_of_pos (by simpa [← Bool.not_eq_true] using hmf)]

/-- A node failed, and then the others are resolved. -/
theorem Resolved.cons_failed
    (h : Resolved { r with cache, failed := r.failed.insert m } rest r' new)
    (hmax : cache.maxLevel = r.cache.maxLevel)
    (hkeeps : ∀ {n c}, r.cache.find? n = some c → cache.find? n = some c) :
    r.Resolved (m :: rest) r' new where
  sound := h.sound
  maxLevel_eq := h.maxLevel_eq.trans hmax
  keeps hn := h.keeps (hkeeps hn)
  chunks_eq := h.chunks_eq
  cached := h.cached
  failed_mono hn := h.failed_mono (Std.ExtTreeSet.mem_insert.2 (.inr hn))
  nodes_eq := by
    intro hl hfree
    obtain ⟨hm, hrest⟩ := List.nodup_cons.1 hl
    have hmf : m ∈ r'.failed := h.failed_mono (by simp)
    rw [List.filter_cons_of_neg (by simpa using hmf)]
    exact h.nodes_eq hrest (NodeSet.not_mem_insert hm fun n hn =>
      hfree n (List.mem_cons_of_mem _ hn))

end

/-- A resolution that gets to its end has resolved its nodes. -/
theorem resolve_resolved {r r' : Resolution} {l : List Node} {g g' : γ} (hc : r.cache.Sound)
    (h : r.resolve G l g = (some r', g')) : ∃ new, r.Resolved l r' new := by
  induction l generalizing r g with
  | nil =>
    cases h
    exact ⟨[], hc, rfl, id, (List.append_nil _).symm, nofun, id, fun _ _ => rfl⟩
  | cons m rest ih =>
    have hf := Cache.fetch_fetched hc G m g
    have hc' := hc.fetch G m g
    have hmax := r.cache.maxLevel_fetch G m g
    rw [resolve] at h
    split at h
    · next c cache g₁ heq =>
      rw [heq] at hf hc' hmax
      obtain ⟨hnode, hcached⟩ := hf.ok hc
      obtain ⟨new, hnew⟩ := ih (r := { r with cache, chunks := r.chunks.push c }) hc' h
      have hfailed : ∀ n ∈ r'.failed, n ∈ r.failed ∨ n ∈ rest := by
        intro n hn
        exact (mem_of_mem_failed h hn :)
      exact ⟨c :: new, hnew.cons_had hmax hf.keeps hnode hcached hfailed⟩
    · next e cache g₁ heq =>
      rw [heq] at hf hc' hmax
      split at h
      · cases h
      · obtain ⟨new, hnew⟩ := ih (r := { r with cache, failed := r.failed.insert m }) hc' h
        exact ⟨new, hnew.cons_failed hmax hf.keeps⟩

end Resolution

/-- A generator that never fails on a node of the tree: whatever came before, it makes the node's
own chunk. -/
def Generator.ServesTree (G : Generator γ) (t : Tree) : Prop :=
  ∀ n, t.root.Holds n → ∀ g, ∃ c g', G.generate n g = (.ok c, g') ∧ c.node = n

/-- With a generator that never fails, no node of the tree does. -/
theorem Resolution.resolve_of_servesTree {t : Tree} (hG : G.ServesTree t) {r : Resolution}
    {l : List Node} (g : γ) (hc : r.cache.Sound) (hmax : r.cache.maxLevel = t.rootLevel)
    (hl : ∀ n ∈ l, t.root.Holds n) :
    ∃ r' g', r.resolve G l g = (some r', g') ∧ r'.failed = r.failed := by
  induction l generalizing r g with
  | nil => exact ⟨r, g, rfl, rfl⟩
  | cons m rest ih =>
    have hm := hl m List.mem_cons_self
    have hf := Cache.fetch_fetched hc G m g
    have hc' := hc.fetch G m g
    have hmax' := (r.cache.maxLevel_fetch G m g).trans hmax
    have hrest : ∀ n ∈ rest, t.root.Holds n := fun n hn => hl n (List.mem_cons_of_mem _ hn)
    obtain ⟨c, g₁, hgen, hnode⟩ := hG m hm g
    rcases heq : r.cache.fetch G m g with ⟨result, cache, g₂⟩
    rw [heq] at hf hc' hmax'
    cases hf with
    | hit _ _ | made _ _ _ _ =>
      rw [resolve, heq]
      exact ih _ hc' hmax' hrest
    | refused _ hg _ =>
      rw [hgen] at hg
      cases hg
    | wrong _ hg hw _ =>
      rw [hgen] at hg
      cases hg
      exact absurd hnode hw
    | outside hlevel =>
      have hle : m.level.toNat ≤ t.rootLevel.toNat := hm.level_le
      rw [hmax] at hlevel
      omega

namespace Streamer

/-- A query of a streamer always has a result. -/
theorem exists_inView (s : Streamer) (v : View) : ∃ nodes, s.inView v = .ok nodes :=
  s.tree.exists_query _ _ _

/-- What a plan comes to, if a view shows `nodes`. -/
inductive Planned (G : Generator γ) (s : Streamer) (nodes : NodeSet) (g : γ) : Plan → γ → Prop
  | same : nodes = s.visible → Planned G s nodes g (.unchanged s.countIteration) g
  | lost {g' : γ} :
      Resolution.resolve G ⟨s.cache, #[], ∅⟩ (NodeDiff.between s.visible nodes).toAdd g =
        (none, g') → Planned G s nodes g .lost g'
  | change {r : Resolution} {removed : List Chunk} {g' : γ} : nodes ≠ s.visible →
      Resolution.resolve G ⟨s.cache, #[], ∅⟩ (NodeDiff.between s.visible nodes).toAdd g =
        (some r, g') →
      removed = (NodeDiff.between s.visible nodes).toRemove.filterMap r.cache.find? →
      Planned G s nodes g (.change (s.countIteration.adopt nodes removed r) removed r.chunks.toList)
        g'

/-- What a plan comes to depends on the nodes in view, and on what resolving the new ones gives. -/
theorem plan_planned {s : Streamer} {v : View} {nodes : NodeSet} (G : Generator γ) (g : γ)
    (hv : s.inView v = .ok nodes) : Planned G s nodes g (s.plan G v g).1 (s.plan G v g).2 := by
  unfold plan
  rw [hv]
  dsimp only
  split
  · next he => exact .same (NodeDiff.isEmpty_between_iff.1 he).symm
  · next he =>
    have hne : nodes ≠ s.visible := fun h => he (NodeDiff.isEmpty_between_iff.2 h.symm)
    rcases hr : Resolution.resolve G ⟨s.cache, #[], ∅⟩
      (NodeDiff.between s.visible nodes).toAdd g with ⟨_ | r, g'⟩
    · exact .lost hr
    · exact .change hne hr rfl

/-- A view that shows what is visible already leaves everything as it is. -/
theorem plan_of_inView_eq {s : Streamer} {v : View} (G : Generator γ) (g : γ)
    (hv : s.inView v = .ok s.visible) : s.plan G v g = (.unchanged s.countIteration, g) := by
  unfold plan
  rw [hv]
  dsimp only
  rw [if_pos (NodeDiff.isEmpty_between_iff.2 rfl)]

/-- What takes a sink from the visible set `old` to that of `next`: the chunks to remove are of the
nodes that leave, and the chunks to add are the cached ones of the nodes that come. -/
structure Turn (old : NodeSet) (next : Streamer) (removed added : List Chunk) : Prop where
  mem_removed_iff : ∀ n, n ∈ removed.map Chunk.node ↔ n ∈ old ∧ n ∉ next.visible
  mem_added_iff : ∀ n, n ∈ added.map Chunk.node ↔ n ∈ next.visible ∧ n ∉ old
  cached : ∀ c ∈ added, next.cache.find? c.node = some c

section
variable {s next : Streamer} {nodes : NodeSet} {removed added : List Chunk} {g g' : γ}

/-- A plan takes the sink from the visible set that there was to the new one, provided that the
cache has all the chunks that the sink may have to give back. -/
theorem Planned.turn (hc : s.cache.Sound) (hold : ∀ n ∈ s.visible, ∃ c, s.cache.find? n = some c)
    (h : Planned G s nodes g (.change next removed added) g') :
    Turn s.visible next removed added := by
  cases h with
  | @change r removed g' _ hr hrem =>
    obtain ⟨new, hres⟩ := Resolution.resolve_resolved hc hr
    have hadd : r.chunks.toList = new := hres.chunks_eq
    have hfailed : ∀ n ∈ r.failed, n ∉ s.visible := fun n hn => by
      rcases Resolution.mem_of_mem_failed hr hn with h | h
      · simp at h
      · exact (NodeDiff.mem_toAdd.1 h).2
    have hnext : ∀ n, n ∈ nodes \ r.failed ↔ n ∈ nodes ∧ n ∉ r.failed := fun n =>
      Std.ExtTreeSet.mem_diff_iff
    refine ⟨fun n => ?_, fun n => ?_, fun c hcm => hres.cached c (hadd ▸ hcm)⟩
    · have hleft : n ∈ removed.map Chunk.node ↔
          n ∈ (NodeDiff.between s.visible nodes).toRemove := by
        rw [hrem, List.mem_map]
        constructor
        · rintro ⟨c, hcm, rfl⟩
          obtain ⟨m, hm, hmc⟩ := List.mem_filterMap.1 hcm
          exact (hres.sound.node_eq hmc) ▸ hm
        · intro hn
          obtain ⟨c, hcn⟩ := hold n (NodeDiff.mem_toRemove.1 hn).1
          have hcn' := hres.keeps hcn
          exact ⟨c, List.mem_filterMap.2 ⟨n, hn, hcn'⟩, hres.sound.node_eq hcn'⟩
      rw [hleft, NodeDiff.mem_toRemove]
      constructor
      · exact fun hn => ⟨hn.1, fun hm => hn.2 ((hnext n).1 hm).1⟩
      · exact fun hn => ⟨hn.1, fun hm => hn.2 ((hnext n).2 ⟨hm, fun hf => hfailed n hf hn.1⟩)⟩
    · have hnodes := hres.nodes_eq NodeDiff.nodup_toAdd (by simp)
      rw [hadd, hnodes, List.mem_filter, NodeDiff.mem_toAdd]
      have hbool : (!r.failed.contains n) = true ↔ n ∉ r.failed := by
        simp [← Bool.not_eq_true]
      rw [hbool]
      constructor
      · exact fun hn => ⟨(hnext n).2 ⟨hn.1.1, hn.2⟩, hn.1.2⟩
      · exact fun hn => ⟨⟨((hnext n).1 hn.1).1, hn.2⟩, ((hnext n).1 hn.1).2⟩

/-- The plan of a change keeps what a streamer is made for and every chunk it has, and the new
visible set is part of what is in view. -/
structure Succeeds (s next : Streamer) (nodes : NodeSet) : Prop where
  tree_eq : next.tree = s.tree
  query_eq : next.query = s.query
  sound : next.cache.Sound
  maxLevel_eq : next.cache.maxLevel = s.cache.maxLevel
  keeps : ∀ {n chunk}, s.cache.find? n = some chunk → next.cache.find? n = some chunk
  subset : ∀ n ∈ next.visible, n ∈ nodes

/-- The streamer of a planned change succeeds the one that planned it. -/
theorem Planned.succeeds (hc : s.cache.Sound)
    (h : Planned G s nodes g (.change next removed added) g') : Succeeds s next nodes := by
  cases h with
  | change _ hr _ =>
    obtain ⟨new, hres⟩ := Resolution.resolve_resolved hc hr
    exact ⟨rfl, rfl, hres.sound, hres.maxLevel_eq, hres.keeps, fun n hn =>
      (Std.ExtTreeSet.mem_diff_iff.1 hn).1⟩

/-- With a generator that never fails all new nodes are resolved. -/
theorem exists_resolve (hc : s.cache.Sound) (hmax : s.cache.maxLevel = s.tree.rootLevel) {v : View}
    (hv : s.inView v = .ok nodes) (hG : G.ServesTree s.tree) (g : γ) :
    ∃ r g', Resolution.resolve G ⟨s.cache, #[], ∅⟩ (NodeDiff.between s.visible nodes).toAdd g =
      (some r, g') ∧ r.failed = ∅ :=
  Resolution.resolve_of_servesTree hG (r := ⟨s.cache, #[], ∅⟩) g hc hmax fun _ hn =>
    ((Tree.mem_query_iff hv).1 (NodeDiff.mem_toAdd.1 hn).1).1

/-- With a generator that never fails a plan takes over all that is in view. -/
theorem Planned.visible_eq (hc : s.cache.Sound) (hmax : s.cache.maxLevel = s.tree.rootLevel)
    {v : View} (hv : s.inView v = .ok nodes) (hG : G.ServesTree s.tree)
    (h : Planned G s nodes g (.change next removed added) g') : next.visible = nodes := by
  cases h with
  | @change r _ _ _ hr _ =>
    obtain ⟨r', g₁, hr', hfailed⟩ := exists_resolve hc hmax hv hG g
    rw [hr, Prod.mk.injEq, Option.some.injEq] at hr'
    obtain ⟨rfl, -⟩ := hr'
    show nodes \ r.failed = nodes
    rw [hfailed]
    exact Std.ExtTreeSet.ext_mem fun n => by simp

end

end Streamer
end VoxelStream
