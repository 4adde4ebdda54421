import VoxelStream.Proofs.Stream.Convergence

/-!
# Faults of a generator stay apart

Two generators do the same, but one of them comes to nothing for some nodes: it refuses them, or it
hands out a chunk of another node (`Generator.Falters`). Two passes from the same streamer under the
same view, one with each of them, differ in these nodes only, as far as they are to be added and are
not cached (`Streamer.missing`): the pass with faults lacks them and is like the other one in all
else (`Session.isolates_faults`).

The nodes are resolved in the same order by both. After each of them the one cache lacks of the
other what failed so far, and their counts are the same (`Cache.Lacks`), since a fetch is counted
before it is known what comes of it.
-/

namespace VoxelStream

variable {γ φ : Type} {G : Generator γ} {F : Generator φ} {R : γ → φ → Prop} {bad : Node → Bool}
  {g : γ} {f : φ}

namespace Generator

/-- A call for a node came to nothing: it was refused, though the caller lives, or it handed out a
chunk of another node. -/
def Botched (n : Node) : Checked Chunk → Prop
  | .ok chunk => chunk.node ≠ n
  | .error e => e.isFatal = false

/-- The generator `G` makes the chunk of every node, and `F` does the same except for the bad nodes,
for which its calls come to nothing. What they do may depend on their states, and `R` is of those
that come of the same calls. -/
structure Falters (F : Generator φ) (bad : Node → Bool) (R : γ → φ → Prop) (G : Generator γ) :
    Prop where
  serves : ∀ {g f}, R g f → ∀ n, ∃ chunk, (G.generate n g).1 = .ok chunk ∧ chunk.node = n
  agrees : ∀ {g f}, R g f → ∀ n, bad n = false → (F.generate n f).1 = (G.generate n g).1
  botches : ∀ {g f}, R g f → ∀ n, bad n = true → Botched n (F.generate n f).1
  keeps : ∀ {g f}, R g f → ∀ n, R (G.generate n g).2 (F.generate n f).2

end Generator

/-! ## Fetches -/

namespace Cache

variable {c c' : Cache} {n : Node} {lost lost' : NodeSet}

section
variable {chunk : Chunk} {g' : γ} {result : Except FetchError Chunk}

/-- What is cached is had without a call. -/
theorem Fetched.of_cached (h : Fetched G c n g result c' g')
    (hlevel : n.level.toNat < c.maxLevel.toNat + 1) (hc : c.find? n = some chunk) :
    result = .ok chunk ∧ g' = g := by
  cases h with
  | hit hc' _ =>
    rw [hc] at hc'
    cases hc'
    exact ⟨rfl, rfl⟩
  | made hfree _ _ _ | refused hfree _ _ | wrong hfree _ _ _ =>
    rw [hc] at hfree
    cases hfree
  | outside hout => exact absurd hlevel hout

/-- What is not cached is had if the generator makes it. -/
theorem Fetched.of_served (h : Fetched G c n g result c' g')
    (hlevel : n.level.toNat < c.maxLevel.toNat + 1) (hfree : c.find? n = none)
    (hgen : (G.generate n g).1 = .ok chunk) (hnode : chunk.node = n) :
    result = .ok chunk ∧ g' = (G.generate n g).2 := by
  cases h with
  | hit hc _ =>
    rw [hfree] at hc
    cases hc
  | made _ hg _ _ =>
    rw [hg] at hgen ⊢
    cases hgen
    exact ⟨rfl, rfl⟩
  | refused _ hg _ =>
    rw [hg] at hgen
    cases hgen
  | wrong _ hg hwrong _ =>
    rw [hg] at hgen
    cases hgen
    exact absurd hnode hwrong
  | outside hout => exact absurd hlevel hout

/-- It is not had if the call comes to nothing. -/
theorem Fetched.of_botched (h : Fetched G c n g result c' g')
    (hlevel : n.level.toNat < c.maxLevel.toNat + 1) (hfree : c.find? n = none)
    (hgen : Generator.Botched n (G.generate n g).1) :
    (∃ e, result = .error e ∧ e.isFatal = false) ∧ g' = (G.generate n g).2 := by
  cases h with
  | hit hc _ =>
    rw [hfree] at hc
    cases hc
  | made _ hg hnode _ =>
    rw [hg] at hgen
    exact absurd hnode hgen
  | refused _ hg _ =>
    rw [hg] at hgen ⊢
    exact ⟨⟨_, rfl, hgen⟩, rfl⟩
  | wrong _ hg _ _ =>
    rw [hg]
    exact ⟨⟨_, rfl, rfl⟩, rfl⟩
  | outside hout => exact absurd hlevel hout

end

/-- The cache has the counts of the other one and its chunks, except for those of the lost nodes. -/
structure Lacks (c' : Cache) (lost : NodeSet) (c : Cache) : Prop where
  sound : c.Sound
  sound' : c'.Sound
  maxLevel_eq : c'.maxLevel = c.maxLevel
  stats_eq : c'.stats = c.stats
  statsOf?_eq : ∀ level, c'.statsOf? level = c.statsOf? level
  find?_eq : ∀ n, c'.find? n = if n ∈ lost then none else c.find? n

namespace Lacks

/-- A cache lacks nothing of itself. -/
theorem refl (h : c.Sound) : c.Lacks ∅ c :=
  ⟨h, h, rfl, rfl, fun _ => rfl, fun n => by simp⟩

/-- The chunks of nodes that were not lost are there. -/
theorem find?_of_not_mem (h : c'.Lacks lost c) (hn : n ∉ lost) : c'.find? n = c.find? n := by
  rw [h.find?_eq, if_neg hn]

/-- Two fetches of a node that is not lost yet are counted alike, whatever they come to. -/
theorem fetch (h : c'.Lacks lost c) (hn : n ∉ lost) (hlevel : n.level.toNat < c.maxLevel.toNat + 1)
    (hfind : ∀ o, (c'.fetch F n f).2.1.find? o =
      if o ∈ lost' then none else (c.fetch G n g).2.1.find? o) :
    (c'.fetch F n f).2.1.Lacks lost' (c.fetch G n g).2.1 := by
  have hfound : c'.find? n = c.find? n := h.find?_of_not_mem hn
  have hlevel' : n.level.toNat < c'.maxLevel.toNat + 1 := h.maxLevel_eq ▸ hlevel
  refine ⟨h.sound.fetch G n g, h.sound'.fetch F n f, ?maxLevel, ?stats, fun level => ?statsOf?,
    hfind⟩
  case maxLevel => rw [maxLevel_fetch, maxLevel_fetch, h.maxLevel_eq]
  case stats => rw [stats_fetch F f hlevel', stats_fetch G g hlevel, h.stats_eq, hfound]
  case statsOf? => rw [statsOf?_fetch, statsOf?_fetch, h.statsOf?_eq, hfound]

/-- A node that is cached or that no generator fails is had by both. -/
theorem fetch_had (hF : F.Falters bad R G) (hR : R g f) (h : c'.Lacks lost c) (hn : n ∉ lost)
    (hlevel : n.level.toNat < c.maxLevel.toNat + 1)
    (hgood : ¬ (bad n = true ∧ c.find? n = none)) :
    ∃ chunk, (c.fetch G n g).1 = .ok chunk ∧ (c'.fetch F n f).1 = .ok chunk ∧
      R (c.fetch G n g).2.2 (c'.fetch F n f).2.2 ∧
      (c'.fetch F n f).2.1.Lacks lost (c.fetch G n g).2.1 := by
  have hfound : c'.find? n = c.find? n := h.find?_of_not_mem hn
  have hlevel' : n.level.toNat < c'.maxLevel.toNat + 1 := h.maxLevel_eq ▸ hlevel
  have hfetched := fetch_fetched h.sound G n g
  have hfetched' := fetch_fetched h.sound' F n f
  have hhad : ∃ chunk, (c.fetch G n g).1 = .ok chunk ∧ (c'.fetch F n f).1 = .ok chunk ∧
      R (c.fetch G n g).2.2 (c'.fetch F n f).2.2 := by
    cases hc : c.find? n with
    | some chunk =>
      obtain ⟨hok, hg⟩ := hfetched.of_cached hlevel hc
      obtain ⟨hok', hf⟩ := hfetched'.of_cached hlevel' (hfound.trans hc)
      exact ⟨chunk, hok, hok', by rwa [hg, hf]⟩
    | none =>
      have hbad : bad n = false := by
        rw [← Bool.not_eq_true]
        exact fun hbad => hgood ⟨hbad, hc⟩
      obtain ⟨chunk, hgen, hnode⟩ := hF.serves hR n
      obtain ⟨hok, hg⟩ := hfetched.of_served hlevel hc hgen hnode
      obtain ⟨hok', hf⟩ := hfetched'.of_served hlevel' (hfound.trans hc)
        ((hF.agrees hR n hbad).trans hgen) hnode
      rw [hg, hf]
      exact ⟨chunk, hok, hok', hF.keeps hR n⟩
  obtain ⟨chunk, hok, hok', hR'⟩ := hhad
  refine ⟨chunk, hok, hok', hR', h.fetch hn hlevel fun o => ?_⟩
  rw [hfetched'.find?_eq, hfetched.find?_eq, hok, hok', h.find?_eq]
  split
  · next ho =>
    have hne : n ≠ o := fun he => hn (he ▸ ho)
    rw [if_neg hne, Option.or_none]
  · rfl

/-- A bad node that is not cached is had by the one and lost by the other. -/
theorem fetch_lost (hF : F.Falters bad R G) (hR : R g f) (h : c'.Lacks lost c) (hn : n ∉ lost)
    (hlevel : n.level.toNat < c.maxLevel.toNat + 1) (hbad : bad n = true)
    (hfree : c.find? n = none) :
    ∃ chunk e, (c.fetch G n g).1 = .ok chunk ∧ (c'.fetch F n f).1 = .error e ∧
      e.isFatal = false ∧ R (c.fetch G n g).2.2 (c'.fetch F n f).2.2 ∧
      (c'.fetch F n f).2.1.Lacks (lost.insert n) (c.fetch G n g).2.1 := by
  have hfree' : c'.find? n = none := (h.find?_of_not_mem hn).trans hfree
  have hlevel' : n.level.toNat < c'.maxLevel.toNat + 1 := h.maxLevel_eq ▸ hlevel
  have hfetched := fetch_fetched h.sound G n g
  have hfetched' := fetch_fetched h.sound' F n f
  obtain ⟨chunk, hgen, hnode⟩ := hF.serves hR n
  obtain ⟨hok, hg⟩ := hfetched.of_served hlevel hfree hgen hnode
  obtain ⟨⟨e, herror, hcaught⟩, hf⟩ := hfetched'.of_botched hlevel' hfree' (hF.botches hR n hbad)
  refine ⟨chunk, e, hok, herror, hcaught, ?_, h.fetch hn hlevel fun o => ?_⟩
  · rw [hg, hf]
    exact hF.keeps hR n
  · rw [hfetched'.find?_eq, hfetched.find?_eq, hok, herror]
    by_cases ho : n = o
    · subst ho
      rw [hfree', if_pos rfl, if_pos Std.ExtTreeSet.mem_insert_self]
      rfl
    · have hmem : o ∈ lost.insert n ↔ o ∈ lost := by
        rw [NodeSet.mem_insert, or_iff_right (Ne.symm ho)]
      rw [if_neg ho, if_neg ho, Option.or_none, Option.or_none, h.find?_eq]
      simp only [hmem]

end Lacks
end Cache

/-! ## Passes -/

namespace Resolution

variable {r q : Resolution} {l : List Node}

/-- Resolving the same nodes with both generators sets aside the bad ones that are not cached, and
the caches differ in what was set aside. -/
theorem resolve_lacks (hF : F.Falters bad R G) (hR : R g f) (hl : l.Nodup)
    (hfree : ∀ n ∈ l, n ∉ q.failed)
    (hlevel : ∀ n ∈ l, n.level.toNat < r.cache.maxLevel.toNat + 1)
    (h : q.cache.Lacks q.failed r.cache) :
    ∃ s s' g₁ f₁, r.resolve G l g = (some s, g₁) ∧ q.resolve F l f = (some s', f₁) ∧
      R g₁ f₁ ∧ s.failed = r.failed ∧ s'.cache.Lacks s'.failed s.cache ∧
      ∀ n, n ∈ s'.failed ↔ n ∈ q.failed ∨ n ∈ l ∧ bad n = true ∧ r.cache.find? n = none := by
  induction l generalizing r q g f with
  | nil => exact ⟨r, q, g, f, rfl, rfl, hR, rfl, h, by simp⟩
  | cons m rest ih =>
    obtain ⟨hm, hrest⟩ := List.nodup_cons.1 hl
    have hmf : m ∉ q.failed := hfree m List.mem_cons_self
    have hmlevel := hlevel m List.mem_cons_self
    have hfreerest : ∀ n ∈ rest, n ∉ q.failed := fun n hn => hfree n (List.mem_cons_of_mem _ hn)
    have hlevelrest : ∀ n ∈ rest, n.level.toNat < (r.cache.fetch G m g).2.1.maxLevel.toNat + 1 := by
      intro n hn
      rw [Cache.maxLevel_fetch]
      exact hlevel n (List.mem_cons_of_mem _ hn)
    -- What is cached of the other nodes stays as it is.
    have hothers : ∀ n, n ∈ rest ∧ bad n = true ∧ (r.cache.fetch G m g).2.1.find? n = none ↔
        n ∈ rest ∧ bad n = true ∧ r.cache.find? n = none := by
      intro n
      refine and_congr_right fun hn => and_congr_right fun _ => ?_
      have hne : m ≠ n := fun he => hm (he ▸ hn)
      rw [(Cache.fetch_fetched h.sound G m g).find?_eq, if_neg hne, Option.or_none]
    by_cases hbad : bad m = true ∧ r.cache.find? m = none
    · obtain ⟨chunk, e, hok, herror, hcaught, hR', hlacks⟩ :=
        h.fetch_lost hF hR hmf hmlevel hbad.1 hbad.2
      have hfree' : ∀ n ∈ rest, n ∉ q.failed.insert m := NodeSet.not_mem_insert hm hfreerest
      obtain ⟨s, s', g₁, f₁, hs, hs', hR₁, hfailed, hs₁, hmem⟩ := ih hR' hrest
        (r := { r with cache := (r.cache.fetch G m g).2.1, chunks := r.chunks.push chunk })
        (q := { q with cache := (q.cache.fetch F m f).2.1, failed := q.failed.insert m })
        hfree' hlevelrest hlacks
      refine ⟨s, s', g₁, f₁, (resolve_cons_of_ok hok).trans hs,
        (resolve_cons_of_error herror hcaught).trans hs', hR₁, hfailed, hs₁, fun n => ?_⟩
      have hhead : n = m ∧ bad n = true ∧ r.cache.find? n = none ↔ n = m := by
        refine and_iff_left_of_imp ?_
        rintro rfl
        exact hbad
      rw [hmem, hothers, NodeSet.mem_insert, List.mem_cons, or_and_right, hhead, or_assoc,
        or_left_comm]
    · obtain ⟨chunk, hok, hok', hR', hlacks⟩ := h.fetch_had hF hR hmf hmlevel hbad
      obtain ⟨s, s', g₁, f₁, hs, hs', hR₁, hfailed, hs₁, hmem⟩ := ih hR' hrest
        (r := { r with cache := (r.cache.fetch G m g).2.1, chunks := r.chunks.push chunk })
        (q := { q with cache := (q.cache.fetch F m f).2.1, chunks := q.chunks.push chunk })
        hfreerest hlevelrest hlacks
      refine ⟨s, s', g₁, f₁, (resolve_cons_of_ok hok).trans hs,
        (resolve_cons_of_ok hok').trans hs', hR₁, hfailed, hs₁, fun n => ?_⟩
      have hhead : ¬ (n = m ∧ bad n = true ∧ r.cache.find? n = none) := by
        rintro ⟨rfl, hbad'⟩
        exact hbad hbad'
      rw [hmem, hothers, List.mem_cons, or_and_right, or_iff_right hhead]

end Resolution

/-- The nodes that a streamer asks for in vain under a view of `nodes`: the bad ones that are new
and that it has no chunk for. -/
def Streamer.missing (s : Streamer) (nodes : NodeSet) (bad : Node → Bool) : NodeSet :=
  (nodes \ s.visible).filter fun n => bad n && (s.cache.find? n).isNone

/-- A node is missing if it is new, bad and not in the cache. -/
theorem Streamer.mem_missing {s : Streamer} {nodes : NodeSet} {n : Node} :
    n ∈ s.missing nodes bad ↔
      n ∈ (NodeDiff.between s.visible nodes).toAdd ∧ bad n = true ∧ s.cache.find? n = none := by
  unfold missing
  simp only [Std.ExtTreeSet.mem_filter, Std.ExtTreeSet.get_eq, Std.ExtTreeSet.mem_diff_iff,
    NodeDiff.mem_toAdd, Bool.and_eq_true, Option.isNone_iff_eq_none, exists_prop]

namespace Stage

variable {v : View} {nodes : NodeSet} {c : Config} {a : Stage γ} {r : Resolution} {g' : γ}

/-- The chunks that a pass under the view withdraws from the sink, in order. -/
def withdrawn (G : Generator γ) (v : View) (a : Stage γ) : List Chunk :=
  match (a.streamer.plan G v a.generator).1 with
  | .change _ removed _ => removed
  | .lost | .unchanged _ => []

/-- What the sink is to give back when the new nodes have come to `r`. -/
def leaving (a : Stage γ) (nodes : NodeSet) (r : Resolution) : List Chunk :=
  (NodeDiff.between a.streamer.visible nodes).toRemove.filterMap r.cache.find?

/-- The stage after a pass whose new nodes have come to `r`. -/
def adopted (a : Stage γ) (nodes : NodeSet) (r : Resolution) (g' : γ) : Stage γ :=
  ⟨(a.streamer.countIteration.adopt nodes (a.leaving nodes r) r).refresh, g',
    (a.sink.remove (a.leaving nodes r)).add r.chunks.toList⟩

section
variable (hv : a.streamer.inView v = .ok nodes) (hne : nodes ≠ a.streamer.visible)
  (hr : Resolution.resolve G ⟨a.streamer.cache, #[], ∅⟩
    (NodeDiff.between a.streamer.visible nodes).toAdd a.generator = (some r, g'))
include hv hne hr

/-- A pass whose new nodes were resolved plans to withdraw what leaves and to add what was had. -/
theorem plan_eq : a.streamer.plan G v a.generator =
    (.change (a.streamer.countIteration.adopt nodes (a.leaving nodes r) r) (a.leaving nodes r)
      r.chunks.toList, g') := by
  have hdiff : ¬ (NodeDiff.between a.streamer.visible nodes).isEmpty = true := fun h =>
    hne (NodeDiff.isEmpty_between_iff.1 h).symm
  unfold Streamer.plan
  rw [hv]
  dsimp only
  rw [if_neg hdiff, hr]
  rfl

/-- A pass whose new nodes were resolved withdraws what leaves. -/
theorem withdrawn_eq : a.withdrawn G v = a.leaving nodes r := by
  rw [withdrawn, plan_eq hv hne hr]

/-- A pass whose new nodes were resolved adopts what was had, and changes something if anything
leaves or comes. -/
theorem passes_adopted : a.Passes G v (a.adopted nodes r g')
    (!(a.leaving nodes r).isEmpty || !r.chunks.toList.isEmpty) := by
  unfold Passes Streamer.pass
  rw [plan_eq hv hne hr]
  rfl

/-- A pass whose new nodes were resolved makes an advance with the nodes that failed. -/
theorem advance_adopted {failed : NodeSet} (ha : a.streamer.Mirrored c a.sink)
    (hfailed : r.failed = failed) : Advance c v nodes failed a (a.adopted nodes r g')
      (!(a.leaving nodes r).isEmpty || !r.chunks.toList.isEmpty) := by
  rw [← hfailed, ← failing_eq hv hr]
  exact advance_change ha hv (.change hne hr rfl)

end

/-- Chunks of nodes that leave are had whatever failed, since only nodes that come can fail. -/
theorem leaving_eq_of_lacks {a' : Stage φ} {r' : Resolution} {lost : NodeSet}
    (hlacks : r'.cache.Lacks lost r.cache) (hlost : ∀ n ∈ lost, n ∈ nodes)
    (hstart : a'.streamer = a.streamer) : a'.leaving nodes r' = a.leaving nodes r := by
  unfold leaving
  rw [hstart]
  refine List.filterMap_congr fun n hn => ?_
  exact hlacks.find?_of_not_mem fun h => (NodeDiff.mem_toRemove.1 hn).2 (hlost n h)

/-- The second stage is like the first one, but it lacks the lost nodes. Those the first one has. -/
structure Lacks (b' : Stage φ) (lost : NodeSet) (b : Stage γ) : Prop where
  had : ∀ n ∈ lost, n ∈ b.streamer.visible ∧
    ∃ chunk, b.streamer.cache.find? n = some chunk ∧ b.sink.chunkOf n = some chunk
  visible_eq : b'.streamer.visible = b.streamer.visible \ lost
  chunkOf_eq : ∀ n, b'.sink.chunkOf n = if n ∈ lost then none else b.sink.chunkOf n
  cache : b'.streamer.cache.Lacks lost b.streamer.cache
  removed_eq : b'.streamer.stats.removed = b.streamer.stats.removed
  counted_eq : b'.streamer.stats.cache = b.streamer.stats.cache
  failures_eq : b'.streamer.stats.failures = b.streamer.stats.failures + lost.size

/-- Two stages that differ in their generators only lack nothing of each other. -/
theorem Lacks.refl {s : Streamer} (hs : s.cache.Sound) (g : γ) (f : φ) (k : Retained) :
    (⟨s, f, k⟩ : Stage φ).Lacks ∅ (⟨s, g, k⟩ : Stage γ) := by
  refine ⟨by simp, ?visible, by simp, .refl hs, rfl, rfl, rfl⟩
  case visible => exact Std.ExtTreeSet.ext_mem fun n => by simp

/-- Two passes from one streamer lead to stages that lack of each other what their caches do. -/
theorem Advance.lacks {a : Stage γ} {a' : Stage φ} {b : Stage γ} {b' : Stage φ} {lost : NodeSet}
    {changed changed' : Bool} (h : Advance c v nodes ∅ a b changed)
    (h' : Advance c v nodes lost a' b' changed') (hstart : a'.streamer = a.streamer)
    (hcache : b'.streamer.cache.Lacks lost b.streamer.cache)
    (hremoved : b'.streamer.stats.removed = b.streamer.stats.removed)
    (hcounted : b'.streamer.stats.cache = b.streamer.stats.cache) : b'.Lacks lost b := by
  have hvisible : b.streamer.visible = nodes := (h.pass_of_failed_eq_empty).1
  have hvisible' : b'.streamer.visible = b.streamer.visible \ lost := by
    rw [h'.visible_eq, hvisible]
  refine ⟨fun n hn => ?had, hvisible', fun n => ?chunkOf, hcache, hremoved, hcounted, ?failures⟩
  case had =>
    have hmem : n ∈ b.streamer.visible := hvisible ▸ (h'.failed_new n hn).1
    exact ⟨hmem, h.mirrored.2.of_mem n hmem⟩
  case chunkOf =>
    rw [h'.mirrored.2.chunkOf_eq, h.mirrored.2.chunkOf_eq, hcache.find?_eq, hvisible']
    by_cases hn : n ∈ lost
    · simp [hn]
    · simp [hn]
  case failures =>
    have hfailures := h.failures_eq
    rw [Std.ExtTreeSet.size_empty] at hfailures
    rw [h'.failures_eq, hfailures, hstart, Nat.add_zero]

/-- One pass with each of the generators, from a streamer whose visible set is mirrored. -/
theorem exists_passes_lacks (hF : F.Falters bad R G) (hR : R g f) {s : Streamer} {k : Retained}
    (hs : s.Mirrored c k) (hv : s.inView v = .ok nodes) :
    ∃ (b : Stage γ) (b' : Stage φ) (changed changed' : Bool),
      Passes G v ⟨s, g, k⟩ b changed ∧ Passes F v ⟨s, f, k⟩ b' changed' ∧
      R b.generator b'.generator ∧ b.streamer.visible = nodes ∧
      withdrawn F v ⟨s, f, k⟩ = withdrawn G v ⟨s, g, k⟩ ∧ b'.Lacks (s.missing nodes bad) b := by
  by_cases hsame : nodes = s.visible
  · -- Nothing is to be done, and nothing is asked for in vain.
    rw [hsame] at hv
    have hmissing : s.missing nodes bad = ∅ := by
      refine Std.ExtTreeSet.ext_mem fun n => ?_
      rw [Streamer.mem_missing, NodeDiff.mem_toAdd, hsame]
      simp
    have hpasses : Passes G v ⟨s, g, k⟩ ⟨s.countIteration, g, k⟩ false := by
      unfold Passes Streamer.pass
      rw [Streamer.plan_of_inView_eq G g hv]
    have hpasses' : Passes F v ⟨s, f, k⟩ ⟨s.countIteration, f, k⟩ false := by
      unfold Passes Streamer.pass
      rw [Streamer.plan_of_inView_eq F f hv]
    refine ⟨_, _, _, _, hpasses, hpasses', hR, hsame.symm, ?_, ?_⟩
    · unfold withdrawn
      rw [Streamer.plan_of_inView_eq G g hv, Streamer.plan_of_inView_eq F f hv]
    · rw [hmissing]
      exact .refl (s := s.countIteration) hs.1.sound g f k
  · obtain ⟨r, r', g', f', hr, hr', hR', hnone, hlacks, hmem⟩ :=
      Resolution.resolve_lacks (r := ⟨s.cache, #[], ∅⟩) (q := ⟨s.cache, #[], ∅⟩) hF hR
        NodeDiff.nodup_toAdd (by simp)
        (fun n hn => hs.1.level_lt hv (NodeDiff.mem_toAdd.1 hn).1) (.refl hs.1.sound)
    have hmissing : r'.failed = s.missing nodes bad := by
      refine Std.ExtTreeSet.ext_mem fun n => ?_
      rw [hmem, Streamer.mem_missing, or_iff_right Std.ExtTreeSet.not_mem_empty]
    have hleaving : leaving ⟨s, f, k⟩ nodes r' = leaving ⟨s, g, k⟩ nodes r :=
      leaving_eq_of_lacks hlacks (fun n hn =>
        (NodeDiff.mem_toAdd.1 (Streamer.mem_missing.1 (hmissing ▸ hn)).1).1) rfl
    have hadvance := advance_adopted (a := ⟨s, g, k⟩) hv hsame hr hs hnone
    have hadvance' := advance_adopted (a := ⟨s, f, k⟩) hv hsame hr' hs hmissing
    rw [hmissing] at hlacks
    have hlike := hadvance.lacks hadvance' rfl hlacks
      (congrArg (s.stats.removed + List.length ·) hleaving) hlacks.stats_eq
    refine ⟨adopted ⟨s, g, k⟩ nodes r g', adopted ⟨s, f, k⟩ nodes r' f', _, _,
      passes_adopted hv hsame hr, passes_adopted hv hsame hr', hR',
      hadvance.pass_of_failed_eq_empty.1, ?_, hlike⟩
    rw [withdrawn_eq (a := ⟨s, g, k⟩) hv hsame hr, withdrawn_eq (a := ⟨s, f, k⟩) hv hsame hr',
      hleaving]

end Stage

/-- From wherever a run of a session has brought the streamer, a pass with a generator that fails
some nodes goes as one with a generator that fails none, but for the nodes among them that are asked
for in vain. Nothing else is skipped or exchanged: the visible set, the retained chunks and the
cache lack just these nodes, the same chunks are withdrawn from the sink, hits and misses are
counted alike, at every level, and there are as many failures more as nodes are missing. -/
theorem Session.isolates_faults {η : Type} {H : Generator η} {e : η} {c : Config}
    {events : List Event} {x : Session η Retained} {s : Streamer} (hF : F.Falters bad R G)
    (hR : R g f) (h : x.Reached H Retained.sink c e .empty events)
    (hs : x.place.settled? = some s) (v : View) :
    ∃ (nodes : NodeSet) (b : Stage γ) (b' : Stage φ) (changed changed' : Bool),
      s.inView v = .ok nodes ∧
      Stage.Passes G v ⟨s, g, x.shared.sink⟩ b changed ∧
      Stage.Passes F v ⟨s, f, x.shared.sink⟩ b' changed' ∧
      R b.generator b'.generator ∧ b.streamer.visible = nodes ∧
      Stage.withdrawn F v ⟨s, f, x.shared.sink⟩ = Stage.withdrawn G v ⟨s, g, x.shared.sink⟩ ∧
      b'.Lacks (s.missing nodes bad) b := by
  obtain ⟨nodes, hv⟩ := s.exists_inView v
  have hmirrored : s.Mirrored c x.shared.sink := Place.Mirrored.settled h.mirrored.2.2 hs
  obtain ⟨b, b', changed, changed', hpasses, hpasses', hrest⟩ :=
    Stage.exists_passes_lacks hF hR hmirrored hv
  exact ⟨nodes, b, b', changed, changed', hv, hpasses, hpasses', hrest⟩

/-- Refuses the bad nodes and gives every other one an empty chunk. -/
def Generator.refusing (bad : Node → Bool) : Generator Unit :=
  ⟨fun n g => (if bad n then .error .refused else .ok ⟨n, default⟩, g)⟩

/-- Who refuses the bad nodes falters at these and no others. -/
theorem Generator.falters_refusing (bad : Node → Bool) :
    (refusing bad).Falters bad (fun _ _ => True) .blank where
  serves _ n := ⟨_, rfl, rfl⟩
  agrees _ n hn := by
    unfold refusing
    dsimp only
    rw [hn]
    rfl
  botches _ n hn := by
    unfold refusing
    dsimp only
    rw [hn]
    exact rfl
  keeps _ _ := trivial

/-- A new session under the standard view, with a generator that refuses the nodes at the origin. -/
theorem Session.isolates_faults_refusing : ∃ (s : Streamer) (nodes : NodeSet) (b b' : Stage Unit)
    (changed changed' : Bool), Streamer.ofConfig {} = .ok s ∧ s.inView {} = .ok nodes ∧
      Stage.Passes .blank {} ⟨s, (), .empty⟩ b changed ∧
      Stage.Passes (.refusing (·.origin == .zero)) {} ⟨s, (), .empty⟩ b' changed' ∧
      b.streamer.visible = nodes ∧ b'.Lacks (s.missing nodes (·.origin == .zero)) b := by
  obtain ⟨s, hs⟩ : ∃ s, Streamer.ofConfig {} = .ok s := ⟨_, rfl⟩
  have hnew : Reached .blank Retained.sink {} () .empty []
      { config := {}, shared := { generator := (), sink := .empty }, idle := some s } := by
    refine ⟨_, ?_, rfl⟩
    rw [ofConfig, hs]
    rfl
  obtain ⟨nodes, b, b', changed, changed', hv, hpasses, hpasses', -, hvisible, -, hlacks⟩ :=
    isolates_faults (g := ()) (f := ()) (Generator.falters_refusing (·.origin == .zero)) trivial
      hnew rfl {}
  exact ⟨s, nodes, b, b', changed, changed', hs, hv, hpasses, hpasses', hvisible, hlacks⟩

end VoxelStream
