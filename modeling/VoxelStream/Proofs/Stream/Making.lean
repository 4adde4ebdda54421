import VoxelStream.Proofs.Stream.Recording
import VoxelStream.Proofs.Stream.Retention

/-!
# What a session makes

A session asks its generator for cells of its tree alone, whatever happens. And as long as no
streamer is lost, it makes the chunk of each node at most once: the one cache there is goes with the
streamer from hand to hand and never forgets, so once the chunk of a node was made, the generator is
not asked for it again, and all that the sink is ever handed for the node is that chunk
(`Session.makes_once`).

Both are shown of recorded sessions, along the course of the streamer. `Course.Confined` holds of
every course; `Course.Accounted` is kept by each step that does not lose the streamer.
-/

namespace VoxelStream

open Generator (Made Once)

variable {γ σ : Type} {G : Generator γ} {K : Sink σ} {c : Config}

/-! ## The calls of a plan -/

/-- Resolving goes on after the first node, with what its fetch left, or it ends there. -/
theorem Resolution.of_resolve_cons {r : Resolution} {m : Node} {rest : List Node}
    {o : Option Resolution} {g g' : γ} (h : r.resolve G (m :: rest) g = (o, g')) :
    ∃ result cache g₁, r.cache.fetch G m g = (result, cache, g₁) ∧
      (o = none ∧ g' = g₁ ∨ ∃ r₁ : Resolution, r₁.cache = cache ∧
        r₁.resolve G rest g₁ = (o, g')) := by
  rw [resolve] at h
  rcases hfetch : r.cache.fetch G m g with ⟨e | chunk, cache, g₁⟩
  all_goals
    rw [hfetch] at h
    dsimp only at h
    refine ⟨_, cache, g₁, rfl, ?_⟩
  · split at h
    · cases h
      exact .inl ⟨rfl, rfl⟩
    · exact .inr ⟨_, rfl, h⟩
  · exact .inr ⟨_, rfl, h⟩

section
variable {a a' : γ × List Generator.Call}

/-- Resolving nodes asks for no others. -/
theorem Resolution.resolve_extends {r : Resolution} {l : List Node} {o : Option Resolution}
    (hc : r.cache.Sound) (h : r.resolve G.recording l a = (o, a')) :
    Generator.Extends (· ∈ l) a.2 a'.2 := by
  induction l generalizing r a with
  | nil =>
    cases h
    exact .refl _ _
  | cons m rest ih =>
    have hf := Cache.fetch_fetched hc G.recording m a
    have hc' := hc.fetch G.recording m a
    obtain ⟨result, cache, a₁, hfetch, hrest⟩ := of_resolve_cons h
    rw [hfetch] at hf hc'
    have hfirst : Generator.Extends (· ∈ m :: rest) a.2 a₁.2 :=
      hf.extends.mono fun n hn => hn ▸ List.mem_cons_self
    rcases hrest with ⟨-, rfl⟩ | ⟨r₁, rfl, hr₁⟩
    · exact hfirst
    · exact hfirst.trans ((ih hc' hr₁).mono fun n => List.mem_cons_of_mem m)

/-- A resolution that gets to its end has in its cache what was made. -/
theorem Resolution.resolve_reflects {r r' : Resolution} {l : List Node} (hc : r.cache.Sound)
    (hr : r.cache.Reflects a.2) (h : r.resolve G.recording l a = (some r', a')) :
    r'.cache.Reflects a'.2 := by
  induction l generalizing r a with
  | nil =>
    cases h
    exact hr
  | cons m rest ih =>
    have hf := Cache.fetch_fetched hc G.recording m a
    have hc' := hc.fetch G.recording m a
    obtain ⟨result, cache, a₁, hfetch, ⟨hnone, -⟩ | ⟨r₁, rfl, hr₁⟩⟩ := of_resolve_cons h
    · cases hnone
    · rw [hfetch] at hf hc'
      exact ih hc' (hr.fetched hf) hr₁

namespace Streamer

variable {s next : Streamer} {nodes : NodeSet} {removed added : List Chunk} {plan : Plan}

/-- A plan asks for nodes in view only. -/
theorem Planned.extends (hc : s.cache.Sound) (h : Planned G.recording s nodes a plan a') :
    Generator.Extends (· ∈ nodes) a.2 a'.2 := by
  cases h with
  | same _ => exact .refl _ _
  | lost hr | change _ hr _ =>
    exact (Resolution.resolve_extends hc hr).mono fun n hn => (NodeDiff.mem_toAdd.1 hn).1

/-- After a plan the cache has what was made, and so is all that the sink is to be handed. -/
theorem Planned.reflects (hc : s.cache.Sound) (hr : s.cache.Reflects a.2)
    (h : Planned G.recording s nodes a (.change next removed added) a') :
    next.cache.Reflects a'.2 ∧ ∀ chunk ∈ removed ++ added, Made a'.2 chunk := by
  cases h with
  | @change r _ _ _ hres hremoved =>
    have hr' : r.cache.Reflects a'.2 := Resolution.resolve_reflects hc hr hres
    obtain ⟨new, hnew⟩ := Resolution.resolve_resolved hc hres
    have hadded : r.chunks.toList = new := hnew.chunks_eq
    refine ⟨hr', List.forall_mem_append.2 ⟨?_, ?_⟩⟩
    · intro chunk hmem
      rw [hremoved] at hmem
      obtain ⟨n, -, hn⟩ := List.mem_filterMap.1 hmem
      exact (hr'.find?_eq_some_iff.1 hn).2
    · intro chunk hmem
      exact (hr'.find?_eq_some_iff.1 (hnew.cached chunk (hadded ▸ hmem))).2

end Streamer

end

/-! ## Streamers on their way -/

/-- The streamer of a pass, also between the two calls. -/
def Pass.holder : Pass → Streamer
  | .begun s | .ended s _ => s
  | .resolved _ next _ _ | .withdrawn next _ _ => next

/-- The chunks that a pass still has to hand over. -/
def Pass.parcel : Pass → List Chunk
  | .begun _ | .ended _ _ => []
  | .resolved _ _ removed added => removed ++ added
  | .withdrawn _ _ added => added

/-- The streamer, if it is not lost. -/
def Place.holder? : Place → Option Streamer
  | .lost => none
  | .resting s => some s
  | .passing _ p => some p.holder

/-- A streamer that is not lost is somewhere. -/
theorem Place.ne_lost_iff {p : Place} : p ≠ .lost ↔ ∃ s, p.holder? = some s := by
  cases p with
  | lost => simp [holder?]
  | resting s => simp [holder?]
  | passing v p => simp [holder?]

/-- The chunks that are still to be handed over. -/
def Place.parcel : Place → List Chunk
  | .lost | .resting _ => []
  | .passing _ p => p.parcel

/-- After a call to the sink a pass has the same streamer, but for the figures, and nothing new to
hand over. -/
structure Pass.Hands (p p' : Pass) : Prop where
  tree_eq : p'.holder.tree = p.holder.tree
  query_eq : p'.holder.query = p.holder.query
  cache_eq : p'.holder.cache = p.holder.cache
  visible_eq : p'.holder.visible = p.holder.visible
  parcel_subset : ∀ chunk ∈ p'.parcel, chunk ∈ p.parcel

/-- What remains of a pass of `s` that has planned. -/
def Pass.ofPlan (s : Streamer) : Streamer.Plan → Option Pass
  | .lost => none
  | .unchanged s => some (.ended s false)
  | .change next removed added => some (.resolved s.visible next removed added)

/-- What a part of a pass comes to: it plans, it calls the sink, or the pass is over. -/
inductive Pass.Goes (G : Generator γ) (v : View) (p : Pass) (g : γ) (b : σ × List Sink.Call) :
    Option Pass → γ → σ × List Sink.Call → Prop
  | plan {s : Streamer} {nodes : NodeSet} {plan : Streamer.Plan} {g' : γ} : p = .begun s →
      s.inView v = .ok nodes → Streamer.Planned G s nodes g plan g' →
      Goes G v p g b (ofPlan s plan) g' b
  | call {call : Sink.Call} {o : Option Pass} {b' : σ × List Sink.Call} : b'.2 = b.2 ++ [call] →
      (∀ chunk ∈ call.chunks, chunk ∈ p.parcel) → (∀ p' ∈ o, p.Hands p') → Goes G v p g b o g b'
  | ended : Goes G v p g b (some p) g b

namespace Pass

/-- All that remains of a pass that was cut short is a failure counted. -/
theorem eq_of_mem_cutShort {s : Streamer} {f : Fault} {p : Pass}
    (h : p ∈ ofOutcome (s.cutShort f)) : p = .ended s.countFailure false := by
  unfold Streamer.cutShort at h
  split at h
  · cases h
  · cases h
    rfl

/-- At its end a pass has nothing more to hand over. -/
theorem Hands.ended {p : Pass} {s : Streamer} {changed : Bool} (ht : s.tree = p.holder.tree)
    (hq : s.query = p.holder.query) (hc : s.cache = p.holder.cache)
    (hv : s.visible = p.holder.visible) : p.Hands (.ended s changed) where
  tree_eq := ht
  query_eq := hq
  cache_eq := hc
  visible_eq := hv
  parcel_subset := by
    intro chunk hchunk
    cases hchunk

/-- Whatever a part of a pass comes to is one of the cases. -/
theorem goes {v : View} {p : Pass} {o : Option Pass} {g g' : γ} {b b' : σ × List Sink.Call}
    (h : p.step G K.recording v g b = (o, g', b')) : Goes G v p g b o g' b' := by
  cases p with
  | begun s =>
    obtain ⟨nodes, hv⟩ := s.exists_inView v
    have hplanned := Streamer.plan_planned G g hv
    have hstep : Pass.step G K.recording v (.begun s) g b =
        (ofPlan s (s.plan G v g).1, (s.plan G v g).2, b) := by
      rw [Pass.step]
      rcases s.plan G v g with ⟨_ | _ | _, g₁⟩ <;> rfl
    rw [hstep] at h
    cases h
    exact .plan rfl hv hplanned
  | resolved old next removed added =>
    rw [Pass.step, Sink.recording_remove] at h
    rcases hk : K.remove removed b.1 with ⟨f | _, k₁⟩
    all_goals
      rw [hk] at h
      cases h
      refine .call rfl (fun chunk => List.mem_append_left added) ?_
      intro p' hp'
    · rw [eq_of_mem_cutShort hp']
      exact .ended rfl rfl rfl rfl
    · cases hp'
      exact ⟨rfl, rfl, rfl, rfl, fun chunk => List.mem_append_right removed⟩
  | withdrawn next removed added =>
    rw [Pass.step, Sink.recording_add] at h
    rcases hk : K.add added b.1 with ⟨f | _, k₁⟩
    all_goals
      rw [hk] at h
      cases h
      refine .call rfl (fun chunk => id) ?_
      intro p' hp'
    · rw [eq_of_mem_cutShort hp']
      exact .ended rfl rfl rfl rfl
    · cases hp'
      exact .ended rfl rfl rfl rfl
  | ended s changed =>
    cases h
    exact .ended

end Pass

/-! ## Cells of the tree -/

/-- Only nodes of the tree were asked for, and the streamer, unless it is lost, is one of the
configuration. -/
structure Course.Confined (c : Config) (t : Tree)
    (x : Course (γ × List Generator.Call) (σ × List Sink.Call)) : Prop where
  asked : ∀ call ∈ x.generator.2, t.root.Holds call.node
  serves : ∀ s ∈ x.place.holder?, s.Serves c

/-- Whatever a step does, the generator is asked for nodes of the tree only. -/
theorem Course.Confined.step {t : Tree}
    {x y : Course (γ × List Generator.Call) (σ × List Sink.Call)}
    (ht : Tree.ofLevel c.rootLevel = .ok t)
    (hstep : Course.Step G.recording K.recording c x y) (h : x.Confined c t) : y.Confined c t := by
  cases hstep with
  | renew hs =>
    refine ⟨h.asked, ?_⟩
    intro s hs'
    cases hs'
    exact (Streamer.Serves.ofConfig hs).1
  | enter _ | leave => exact ⟨h.asked, h.serves⟩
  | drop => exact ⟨h.asked, nofun⟩
  | @pass v p o a a' b b' hp =>
    have hserves : p.holder.Serves c := h.serves _ rfl
    cases Pass.goes hp with
    | @plan s nodes plan _ hbegun hv hplanned =>
      subst hbegun
      have hs : s.Serves c := hserves
      have htree : s.tree = t := Except.ok.inj (hs.tree_eq.symm.trans ht)
      have hview : ∀ n, n ∈ nodes → t.root.Holds n := fun n hn =>
        htree ▸ ((Tree.mem_query_iff hv).1 hn).1
      refine ⟨((hplanned.extends hs.sound).mono hview).forall_mem h.asked, ?_⟩
      intro s' hs'
      cases hplanned with
      | same _ =>
        cases hs'
        exact hs.of_eq rfl rfl rfl rfl
      | lost _ => cases hs'
      | change hne hr hrem =>
        cases hs'
        exact (hs.planned hv (.change hne hr hrem)).1
    | call _ _ hhands =>
      refine ⟨h.asked, ?_⟩
      intro s hs
      cases o with
      | none => cases hs
      | some p' =>
        have hsame := hhands p' rfl
        cases hs
        exact hserves.of_eq hsame.tree_eq hsame.query_eq hsame.cache_eq hsame.visible_eq
    | ended => exact h

/-! ## Chunks made once -/

/-- The streamer has in its cache what was made, and what was handed over and is to be was made. -/
structure Course.Accounted (x : Course (γ × List Generator.Call) (σ × List Sink.Call)) : Prop where
  reflects : ∀ s ∈ x.place.holder?, s.cache.Reflects x.generator.2
  parcel : ∀ chunk ∈ x.place.parcel, Made x.generator.2 chunk
  handed : ∀ call ∈ x.sink.2, ∀ chunk ∈ call.chunks, Made x.generator.2 chunk

/-- As long as the streamer is not lost, only what was made once is handed over. -/
theorem Course.Accounted.step {t : Tree}
    {x y : Course (γ × List Generator.Call) (σ × List Sink.Call)}
    (hstep : Course.Step G.recording K.recording c x y) (hx : x.place ≠ .lost)
    (hy : y.place ≠ .lost) (hc : x.Confined c t) (h : x.Accounted) : y.Accounted := by
  cases hstep with
  | renew _ => exact absurd rfl hx
  | enter _ | leave => exact ⟨h.reflects, h.parcel, h.handed⟩
  | drop => exact absurd rfl hy
  | @pass v p o a a' b b' hp =>
    have hserves : p.holder.Serves c := hc.serves _ rfl
    have hreflects : p.holder.cache.Reflects a.2 := h.reflects _ rfl
    cases Pass.goes hp with
    | @plan s nodes plan _ hbegun hv hplanned =>
      subst hbegun
      have hext := hplanned.extends hserves.sound
      have hhanded : ∀ call ∈ b.2, ∀ chunk ∈ call.chunks, Made a'.2 chunk :=
        fun call hcall chunk hchunk => hext.made (h.handed call hcall chunk hchunk)
      cases plan with
      | lost => exact absurd rfl hy
      | unchanged s' =>
        cases hplanned with
        | same _ =>
          refine ⟨?_, nofun, hhanded⟩
          intro s hs
          cases hs
          exact hreflects
      | change next removed added =>
        obtain ⟨hnext, hparcel⟩ := hplanned.reflects hserves.sound hreflects
        refine ⟨?_, hparcel, hhanded⟩
        intro s hs
        cases hs
        exact hnext
    | @call call _ _ hrecord hchunks hhands =>
      have hhanded : ∀ call ∈ b'.2, ∀ chunk ∈ call.chunks, Made a.2 chunk := by
        rw [hrecord]
        refine List.forall_mem_append.2 ⟨h.handed, ?_⟩
        intro last hlast chunk hchunk
        rw [List.mem_singleton.1 hlast] at hchunk
        exact h.parcel chunk (hchunks chunk hchunk)
      cases o with
      | none => exact absurd rfl hy
      | some p' =>
        have hsame := hhands p' rfl
        refine ⟨?_, ?_, hhanded⟩
        · intro s hs
          cases hs
          rw [hsame.cache_eq]
          exact hreflects
        · intro chunk hchunk
          exact h.parcel chunk (hsame.parcel_subset chunk hchunk)
    | ended => exact h

/-! ## Sessions -/

/-- A new streamer has no chunks. -/
theorem Streamer.reflects_ofConfig {s : Streamer} (h : Streamer.ofConfig c = .ok s) :
    s.cache.Reflects [] := by
  unfold Streamer.ofConfig at h
  split at h
  · cases h
    exact Cache.reflects_ofMaxLevel _
  · cases h

namespace Session

variable {g : γ} {k : σ} {events : List Event} {x : Session γ σ}

/-- At every moment of the run there was a streamer. -/
def Lasting (G : Generator γ) (K : Sink σ) (c : Config) (g : γ) (k : σ) (events : List Event) :
    Prop :=
  ∀ (l : List Event) (x : Session γ σ), l <+: events → x.Reached G K c g k l → x.place ≠ .lost

/-- What lasts to the end lasts to every earlier moment. -/
theorem Lasting.of_prefix {l : List Event} (h : Lasting G K c g k events) (hl : l <+: events) :
    Lasting G K c g k l :=
  fun l' x hl' => h l' x (hl'.trans hl)

namespace Recorded

variable {y : Recorded γ σ}

/-- The chunk of each node was made once at most, it alone was handed over for the node, and it is
in the cache wherever the streamer is. -/
structure MakesOnce (y : Recorded γ σ) : Prop where
  once : Once y.shared.generator.2
  handed : ∀ call ∈ y.shared.sink.2, ∀ chunk ∈ call.chunks, Made y.shared.generator.2 chunk
  same : ∀ call ∈ y.shared.sink.2, ∀ chunk ∈ call.chunks, ∀ made, Made y.shared.generator.2 made →
    made.node = chunk.node → made = chunk
  cached : ∀ s ∈ y.place.holder?, ∀ n chunk, s.cache.find? n = some chunk ↔
    chunk.node = n ∧ Made y.shared.generator.2 chunk

/-- Only nodes of the tree were asked for, and the streamer is one of the configuration. -/
theorem Reached.confined (h : y.Reached G K c g k events) :
    ∃ t, Tree.ofLevel c.rootLevel = .ok t ∧ y.course.Confined c t := by
  obtain ⟨s, hs, hfollows⟩ := Session.Reached.follows h
  have hserves := (Streamer.Serves.ofConfig hs).1
  refine ⟨s.tree, hserves.tree_eq, hfollows.run.invariant ?_
    (Course.Confined.step hserves.tree_eq)⟩
  refine ⟨nofun, ?_⟩
  intro s' hs'
  cases hs'
  exact hserves

/-- A streamer that is there at each of the first moments of a history was there along the run. -/
theorem lasting_take {i : Nat}
    (h : ∀ y ∈ (history G.recording K.recording c (g, []) (k, []) events).take (i + 1),
      y.place ≠ .lost) : Lasting G K c g k (events.take i) := by
  intro l x hl hx
  obtain ⟨y, hy, rfl⟩ := reached_erase_iff.1 hx
  have hle : l.length ≤ i := hl.length_le.trans (List.length_take_le i events)
  have hpre : l <+: events := hl.trans (List.take_prefix i events)
  rw [List.prefix_iff_eq_take.1 hpre] at hy
  have hmoment := getElem?_history.2 ⟨hpre.length_le, hy⟩
  refine h y (List.mem_of_getElem? (i := l.length) ?_)
  rw [List.getElem?_take_of_lt (Nat.lt_succ_of_le hle)]
  exact hmoment

/-- As long as no streamer is lost, only what was made once is handed over. -/
theorem Reached.accounted (h : y.Reached G K c g k events)
    (hlast : Lasting G K c g k events) : y.course.Accounted := by
  -- By the last event first: the invariant goes from one moment to the next only while there is a
  -- streamer at both, so it is not one of all courses.
  induction events using List.reverseRecOn generalizing y with
  | nil =>
    obtain ⟨y₀, h₀, hrun⟩ := h
    obtain ⟨s, hs, rfl⟩ := ofConfig_eq_ok h₀
    cases hrun
    refine ⟨?_, nofun, nofun⟩
    intro s' hs'
    cases hs'
    exact Streamer.reflects_ofConfig hs
  | append_singleton l e ih =>
    obtain ⟨z, hz, hstep⟩ : ∃ z : Recorded γ σ, z.Reached G K c g k l ∧
        z.step G.recording K.recording e = some y := Session.Reached.of_snoc h
    have hbefore := ih hz (hlast.of_prefix (List.prefix_append l [e]))
    obtain ⟨t, -, hconfined⟩ := hz.confined
    have hzplace : z.place ≠ .lost :=
      hlast l z.erase (List.prefix_append l [e]) (reached_erase_iff.2 ⟨z, hz, rfl⟩)
    have hyplace : y.place ≠ .lost :=
      hlast (l ++ [e]) y.erase List.prefix_rfl (reached_erase_iff.2 ⟨y, h, rfl⟩)
    obtain ⟨s, hs, hfollows⟩ := Session.Reached.follows hz
    have hconfig : z.config = c := hfollows.config_eq
    have hgoes := hfollows.orderly.step (hconfig.symm ▸ hs) hstep
    rcases (Relation.reflGen_iff _ _ _).1 hgoes.move with heq | hmove
    · rwa [heq]
    · exact hbefore.step (hconfig ▸ hmove) hzplace hyplace hconfined

/-- Who accounts for the chunks has made each of them once. -/
theorem makesOnce_of_accounted (h : y.course.Accounted) (hplace : y.place ≠ .lost) :
    y.MakesOnce := by
  obtain ⟨s, hs⟩ := Place.ne_lost_iff.1 hplace
  have honce : Once y.shared.generator.2 := (h.reflects s hs).once
  refine ⟨honce, h.handed, ?_, ?_⟩
  · intro call hcall chunk hchunk made hmade hnode
    exact honce.eq_of_node_eq hmade (h.handed call hcall chunk hchunk) hnode
  · intro s' hs' n chunk
    exact (h.reflects s' hs').find?_eq_some_iff

end Recorded

/-- The calls of every run can be recorded; of them, the generator was asked for nodes of the tree
only, and if no streamer was lost, then it made the chunk of each node once at most, was not asked
for the node again, and this chunk was all that the sink was handed for the node. -/
theorem makes_once (h : x.Reached G K c g k events) :
    ∃ (y : Recorded γ σ) (t : Tree), y.Reached G K c g k events ∧ y.erase = x ∧
      Tree.ofLevel c.rootLevel = .ok t ∧
      (∀ call ∈ y.shared.generator.2, t.root.Holds call.node ∧ call.node.level ≤ t.rootLevel ∧
        ∀ p, call.node.Covers p → t.root.Covers p) ∧
      (Lasting G K c g k events → y.MakesOnce) := by
  obtain ⟨y, hy, rfl⟩ := Recorded.reached_erase_iff.1 h
  obtain ⟨t, ht, hconfined⟩ := hy.confined
  refine ⟨y, t, hy, rfl, ht, ?_, ?_⟩
  · intro call hcall
    have hholds := hconfined.asked call hcall
    exact ⟨hholds, hholds.level_le, fun p => hholds.covers t.fits_root⟩
  · intro hlast
    exact Recorded.makesOnce_of_accounted (hy.accounted hlast) (hlast events _ List.prefix_rfl h)

/-- Until the second worker goes down, no streamer is lost: the chunks of the close view are made,
two of their nodes after a failure, then those of the view from further back, and after the start
the close view is handed over again with no call to the generator. -/
theorem makes_once_tour : ∃ (y : Recorded Nat Retained) (t : Tree),
    y.Reached .erratic Retained.sink .small 0 .empty (Event.tour.take 38) ∧ y.MakesOnce ∧
    Tree.ofLevel 2 = .ok t ∧ (∀ call ∈ y.shared.generator.2, t.root.Holds call.node) ∧
    y.shared.generator.2.map (·.node) =
      [⟨⟨-2, 0, -2⟩, 1⟩, ⟨⟨-1, 1, 0⟩, 0⟩, ⟨⟨-1, 1, 1⟩, 0⟩, ⟨⟨0, 0, -2⟩, 1⟩, ⟨⟨0, 1, 0⟩, 0⟩,
        ⟨⟨0, 1, 1⟩, 0⟩, ⟨⟨-1, 1, 0⟩, 0⟩, ⟨⟨-1, 1, 1⟩, 0⟩, ⟨⟨-2, 0, 0⟩, 1⟩, ⟨⟨0, 0, 0⟩, 1⟩] ∧
    y.shared.sink.2.map (·.chunks.map (·.node)) =
      [[],
        [⟨⟨-2, 0, -2⟩, 1⟩, ⟨⟨0, 0, -2⟩, 1⟩, ⟨⟨0, 1, 0⟩, 0⟩, ⟨⟨0, 1, 1⟩, 0⟩],
        [],
        [⟨⟨-1, 1, 0⟩, 0⟩, ⟨⟨-1, 1, 1⟩, 0⟩],
        [⟨⟨-1, 1, 0⟩, 0⟩, ⟨⟨-1, 1, 1⟩, 0⟩, ⟨⟨0, 1, 0⟩, 0⟩, ⟨⟨0, 1, 1⟩, 0⟩],
        [⟨⟨-2, 0, 0⟩, 1⟩, ⟨⟨0, 0, 0⟩, 1⟩],
        [⟨⟨-2, 0, 0⟩, 1⟩, ⟨⟨0, 0, 0⟩, 1⟩],
        [⟨⟨-1, 1, 0⟩, 0⟩, ⟨⟨-1, 1, 1⟩, 0⟩, ⟨⟨0, 1, 0⟩, 0⟩, ⟨⟨0, 1, 1⟩, 0⟩]] := by
  obtain ⟨-, hlasts, hasked, hhanded⟩ := tour_eq
  obtain ⟨y, hy, hasked⟩ := Option.map_eq_some_iff.1 hasked
  rw [hy, Option.map_some, Option.some.injEq] at hhanded
  have hreached := reached_of_tour hy
  have hlast : Lasting .erratic Retained.sink .small 0 .empty (Event.tour.take 38) :=
    Recorded.lasting_take fun z hz hlost =>
      absurd (Place.isLost_iff.2 hlost) (by simpa using List.all_eq_true.1 hlasts z hz)
  obtain ⟨z, t, hz, -, ht, hcalls, honce⟩ :=
    makes_once (Recorded.reached_erase_iff.2 ⟨y, hreached, rfl⟩)
  obtain rfl : z = y := Session.Reached.unique hz hreached
  exact ⟨z, t, hreached, honce hlast, ht, fun call hcall => (hcalls call hcall).1, hasked,
    hhanded⟩

end Session

end VoxelStream
