import VoxelStream.Proofs.Stream.Retention
import VoxelStream.Proofs.Store.Count

/-!
# The figures of a streamer

A streamer counts some figures on the way and takes others anew at the end of a pass that has called
the sink. The ones balance as soon as a pass is planned (`Streamer.Planned.balances`): each node
that comes into view was fetched once and is counted as added or as failed, and each that leaves it
is counted as removed. The others lag behind while a pass is under way and are right again at its
end. `Place.Balanced` says so for every place of the streamer.

What the threads share is a copy of the figures. It is that of the streamer from the end of one pass
to the begin of the next, whoever has the streamer then (`Session.Posts`).
-/

namespace VoxelStream

variable {γ : Type} {G : Generator γ} {c : Config}

/-! ## Passes -/

namespace Resolution

/-- From one resolution to another so many nodes were asked for, and so many of them failed. -/
structure Counts (r r' : Resolution) (asked failed : Nat) : Prop where
  cache : Cache.Counts r.cache r'.cache asked failed
  failed_eq : r'.failed.size = r.failed.size + failed
  chunks_eq : r'.chunks.size + failed = r.chunks.size + asked

/-- What two resolutions in a row asked for, and what of it failed, adds up. -/
theorem Counts.trans {r r' r'' : Resolution} {asked failed asked' failed' : Nat}
    (h : Counts r r' asked failed) (h' : Counts r' r'' asked' failed') :
    Counts r r'' (asked + asked') (failed + failed') := by
  obtain ⟨hcache, hfailed, hchunks⟩ := h
  obtain ⟨hcache', hfailed', hchunks'⟩ := h'
  exact ⟨hcache.trans hcache', by omega, by omega⟩

/-- Nodes that are resolved are each asked for once, and each of them is had or fails. -/
theorem resolve_counts {r r' : Resolution} {l : List Node} {g g' : γ}
    (h : r.resolve G l g = (some r', g')) (hl : l.Nodup) (hfree : ∀ n ∈ l, n ∉ r.failed)
    (hlevel : ∀ n ∈ l, n.level.toNat < r.cache.maxLevel.toNat + 1) :
    ∃ failed, Counts r r' l.length failed := by
  induction l generalizing r g with
  | nil =>
    cases h
    exact ⟨0, .refl _, rfl, rfl⟩
  | cons m rest ih =>
    obtain ⟨hm, hrest⟩ := List.nodup_cons.1 hl
    have hcounts := Cache.fetch_counts G g (hlevel m List.mem_cons_self)
    have hlevel' : ∀ n ∈ rest, n.level.toNat < (r.cache.fetch G m g).2.1.maxLevel.toNat + 1 := by
      intro n hn
      rw [Cache.maxLevel_fetch]
      exact hlevel n (List.mem_cons_of_mem _ hn)
    rw [resolve] at h
    rw [List.length_cons, Nat.add_comm]
    split at h
    · next chunk cache g₁ heq =>
      rw [heq] at hcounts hlevel'
      have hhad : Counts r { r with cache, chunks := r.chunks.push chunk } 1 0 :=
        ⟨hcounts, rfl, by simp⟩
      obtain ⟨failed, hothers⟩ :=
        ih h hrest (fun n hn => hfree n (List.mem_cons_of_mem _ hn)) hlevel'
      exact ⟨0 + failed, hhad.trans hothers⟩
    · next e cache g₁ heq =>
      rw [heq] at hcounts hlevel'
      split at h
      · cases h
      · have hnew : r.failed.contains m = false := by
          simpa [← Bool.not_eq_true] using hfree m List.mem_cons_self
        have hmiss : Counts r { r with cache, failed := r.failed.insert m } 1 1 :=
          ⟨hcounts, by simp [Std.ExtTreeSet.size_insert, hnew], rfl⟩
        -- A node that failed fails once, since it is asked for only once.
        have hfree' : ∀ n ∈ rest, n ∉ r.failed.insert m :=
          NodeSet.not_mem_insert hm fun n hn => hfree n (List.mem_cons_of_mem _ hn)
        obtain ⟨failed, hothers⟩ := ih h hrest hfree' hlevel'
        exact ⟨1 + failed, hmiss.trans hothers⟩

end Resolution

namespace Streamer

/-- The figures that a streamer counts agree with each other and with what it has. -/
structure Balances (s : Streamer) : Prop where
  added_eq : s.stats.added = s.stats.removed + s.visible.size
  missed_eq : s.cache.stats.misses = s.cache.size + s.stats.failures
  asked_eq : s.cache.stats.hits + s.cache.stats.misses = s.stats.added + s.stats.failures

/-- The figures that a streamer takes anew are those of what it has. -/
structure Current (s : Streamer) : Prop where
  visible_eq : s.stats.visible = s.visible.size
  cached_eq : s.stats.cached = s.cache.size
  cache_eq : s.stats.cache = s.cache.stats

variable {s next : Streamer} {nodes : NodeSet} {removed added : List Chunk} {g g' : γ}

/-- A new streamer has counted nothing. -/
theorem stats_ofConfig (h : Streamer.ofConfig c = .ok s) : s.stats = {} := by
  unfold Streamer.ofConfig at h
  split at h
  · cases h
    rfl
  · cases h

/-- A new streamer has nothing and has counted nothing. -/
theorem Balances.ofConfig (h : Streamer.ofConfig c = .ok s) : s.Balances ∧ s.Current := by
  unfold Streamer.ofConfig at h
  split at h
  · next tree _ =>
    cases h
    have hsize := Cache.size_ofMaxLevel tree.rootLevel
    have hstats := Cache.stats_ofMaxLevel tree.rootLevel
    exact ⟨⟨rfl, by simp [hstats, hsize], by simp [hstats]⟩, ⟨rfl, hsize.symm, hstats.symm⟩⟩
  · cases h

/-- A plan that changes something keeps the balance, provided that the cache has all the chunks that
the sink may have to give back. -/
theorem Planned.balances {v : View} (hs : s.Serves c) (hv : s.inView v = .ok nodes)
    (hold : ∀ n ∈ s.visible, ∃ chunk, s.cache.find? n = some chunk) (hb : s.Balances)
    (h : Planned G s nodes g (.change next removed added) g') : next.Balances := by
  cases h with
  | @change r _ _ _ hr hrem =>
    obtain ⟨new, hres⟩ := Resolution.resolve_resolved hs.sound hr
    have hlevel : ∀ n ∈ (NodeDiff.between s.visible nodes).toAdd,
        n.level.toNat < s.cache.maxLevel.toNat + 1 :=
      fun n hn => hs.level_lt hv (NodeDiff.mem_toAdd.1 hn).1
    obtain ⟨failed, ⟨hasked', hmissed'⟩, hfailed, hchunks⟩ :=
      Resolution.resolve_counts hr NodeDiff.nodup_toAdd (by simp) hlevel
    have hleft : removed.length = (NodeDiff.between s.visible nodes).toRemove.length := by
      rw [hrem]
      refine List.filterMap_length_eq_length.2 fun n hn => ?_
      obtain ⟨chunk, hn⟩ := hold n (NodeDiff.mem_toRemove.1 hn).1
      exact Option.isSome_of_eq_some (hres.keeps hn)
    have hstay : (nodes \ r.failed).size + r.failed.size = nodes.size := by
      refine NodeDiff.size_diff_add_size fun n hn => ?_
      rcases Resolution.mem_of_mem_failed hr hn with hn | hn
      · simp at hn
      · exact (NodeDiff.mem_toAdd.1 hn).1
    have hturn := NodeDiff.size_add_length_toRemove s.visible nodes
    obtain ⟨hadded, hmissed, hasked⟩ := hb
    simp only [Std.ExtTreeSet.size_empty, Array.size_empty, Nat.zero_add] at hfailed hchunks
    dsimp only at hasked' hmissed'
    constructor
    all_goals
      simp only [adopt, countIteration]
      omega

end Streamer

/-! ## The invariant of a course -/

/-- What holds of the figures wherever the streamer is: between the planning of a pass and its end
those taken anew may be out of date. -/
def Place.Balanced : Place → Prop
  | .lost => True
  | .resting s | .passing _ (.begun s) | .passing _ (.ended s _) => s.Balances ∧ s.Current
  | .passing _ (.resolved _ next _ _) | .passing _ (.withdrawn next _ _) => next.Balances

/-- The part of a pass that plans keeps the balance. -/
theorem Place.Balanced.plan {s : Streamer} {v : View} {r r' : Retained} {g g' : γ} {o : Option Pass}
    (hm : s.Mirrored c r) (hb : s.Balances) (hcurrent : s.Current)
    (hp : Pass.step G Retained.sink v (.begun s) g r = (o, g', r')) :
    (Place.ofPass v o).Balanced := by
  obtain ⟨nodes, hv⟩ := s.exists_inView v
  have hplanned := Streamer.plan_planned G g hv
  obtain ⟨hserves, hmirrors⟩ := hm
  rw [Pass.step] at hp
  rcases hplan : s.plan G v g with ⟨_ | s' | ⟨next, removed, added⟩, g₁⟩
  all_goals
    rw [hplan] at hp hplanned
    cases hp
  · trivial
  · cases hplanned with
    | same _ =>
      obtain ⟨hadded, hmissed, hasked⟩ := hb
      obtain ⟨hvisible, hcached, hcache⟩ := hcurrent
      exact ⟨⟨hadded, hmissed, hasked⟩, hvisible, hcached, hcache⟩
  · have hcached : ∀ n ∈ s.visible, ∃ chunk, s.cache.find? n = some chunk := by
      intro n hn
      obtain ⟨chunk, hc, -⟩ := hmirrors.of_mem n hn
      exact ⟨chunk, hc⟩
    exact hplanned.balances hserves hv hcached hb

/-- Each step of a course keeps the balance. -/
theorem Place.Balanced.step {x y : Course γ Retained} (hm : x.Mirrored c) (h : x.place.Balanced)
    (hstep : Course.Step G Retained.sink c x y) : y.place.Balanced := by
  cases hstep with
  | renew hs => exact Streamer.Balances.ofConfig hs
  | enter v => exact h
  | leave => exact h
  | drop => trivial
  | @pass v p o g g' r r' hp =>
    cases p with
    | begun s => exact Place.Balanced.plan hm h.1 h.2 hp
    | resolved old next removed added =>
      cases hp
      exact h
    | withdrawn next removed added =>
      cases hp
      obtain ⟨hadded, hmissed, hasked⟩ := h
      exact ⟨⟨hadded, hmissed, hasked⟩, rfl, rfl, rfl⟩
    | ended s changed =>
      cases hp
      exact h

/-- The streamer of a place at which no pass is halfway through. -/
def Place.settled? : Place → Option Streamer
  | .resting s | .passing _ (.begun s) | .passing _ (.ended s _) => some s
  | .lost | .passing _ (.resolved _ _ _ _) | .passing _ (.withdrawn _ _ _) => none

/-! ## The figures that are shared -/

/-- The streamer of a worker that is in no pass. -/
def Worker.posted? : Worker → Option Streamer
  | .checking s | .pausing s _ _ | .asleep s _ _ | .finished s => some s
  | .passing _ _ _ | .died | .joined => none

section
variable {σ : Type} {K : Sink σ} {s : Streamer}

/-- A worker that wakes is in no pass. -/
theorem Worker.posted?_wake (s : Streamer) (c : Control) : (wake s c).posted? = some s := by
  unfold wake
  split <;> rfl

/-- A worker that may have to doze is in no pass. -/
theorem Worker.posted?_doze (s : Streamer) (v : View) (rev : UInt64) (c : Control) :
    (doze s v rev c).posted? = some s := by
  unfold doze
  split
  · rfl
  · exact posted?_wake s c

/-- A worker between two parts of a pass is in a pass. -/
theorem Worker.posted?_ofPass (v : View) (rev : UInt64) (o : Option Pass) :
    (ofPass v rev o).posted? = none := by
  cases o with
  | none => rfl
  | some p => rfl

/-- A worker that is in no pass after its step has just made the figures known, or it was in none
before and the figures are as they were. -/
theorem Worker.posted?_of_step {w w' : Worker} {m m' : Shared γ σ}
    (h : w.step G K m = some (w', m')) (hs : w'.posted? = some s) :
    m'.stats = s.stats ∨ w.posted? = some s ∧ m'.stats = m.stats := by
  cases w with
  | checking s' =>
    rw [step] at h
    split at h
    · cases h
      exact .inr ⟨hs, rfl⟩
    · cases h
      cases hs
  | passing p v rev =>
    cases p with
    | ended s' changed =>
      cases h
      cases changed with
      | true | false =>
        cases hs
        exact .inl rfl
    | begun _ | resolved _ _ _ _ | withdrawn _ _ _ =>
      cases h
      rw [posted?_ofPass] at hs
      cases hs
  | pausing s' v rev | asleep s' v rev =>
    cases h
    rw [posted?_doze] at hs
    exact .inr ⟨hs, rfl⟩
  | finished _ | died | joined => cases h

namespace Session

variable {x y : Session γ σ} {e : Event} {i : Nat}

/-- The streamer of a session whose figures are known: it is kept, it is about to get a worker, or
it has one that is in no pass. -/
def posted? (x : Session γ σ) : Option Streamer :=
  match x.worker? with
  | some i => (x.threads[i]?).bind Worker.posted?
  | none =>
    match x.owner with
    | .free => x.idle
    | .spawning s => some s
    | .storing _ _ | .passing _ _ | .stopping _ | .joining _ => none

/-- While there is a worker, the figures are known if it is in no pass. -/
theorem posted?_of_worker {w : Worker} (hi : x.worker? = some i) (hw : x.threads[i]? = some w) :
    x.posted? = w.posted? := by
  rw [posted?, hi]
  dsimp only
  rw [hw]
  rfl

/-- The figures of a streamer at rest are known. -/
theorem Rests.posted?_eq (h : x.Rests s) : x.posted? = some s := by
  cases h with
  | idle hworker howner hidle =>
    rw [posted?, hworker, howner]
    exact hidle
  | asleep hworker hi => exact posted?_of_worker hworker hi

/-- From one moment to the next the figures of a streamer were made known, or they were known
before. -/
def Posts (x y : Session γ σ) : Prop := ∀ s, y.posted? = some s →
  y.shared.stats = s.stats ∨ x.posted? = some s ∧ y.shared.stats = x.shared.stats

/-- Who neither takes a pass up nor ends one need not make the figures known. -/
theorem Posts.of_eq (hp : y.posted? = x.posted?) (hstats : y.shared.stats = x.shared.stats) :
    Posts x y := fun _ hs => .inr ⟨hp ▸ hs, hstats⟩

/-- In a pass nothing need be known of the figures. -/
theorem Posts.of_none (hp : y.posted? = none) : Posts x y := by
  intro s hs
  rw [hp] at hs
  cases hs

/-- A start makes known no figures, and those it takes over were known. -/
theorem Starts.posts {v : View} (h : Starts K x v y) : Posts x y := by
  cases h with
  | refused _ => exact .of_eq rfl rfl
  | taken hhandle _ => exact .of_none (by simp [posted?, worker?, hhandle])
  | renewed hhandle _ _ => exact .of_none (by simp [posted?, worker?, hhandle])
  | failed _ _ _ => exact .of_eq rfl rfl

/-- A stop makes known no figures, and those it takes over were known. -/
theorem posts_stop (x : Session γ σ) (ho : x.owner = .free) : Posts x x.stop := by
  unfold Session.stop
  split
  · exact .of_eq rfl rfl
  · next i hi => exact .of_eq (by simp [posted?, worker?, ho, hi]) rfl

/-- An owner that goes on makes the figures known when its pass is over. -/
theorem Orderly.posts_proceed (h : x.Orderly) (hy : Proceeds G K x y) : Posts x y := by
  have hhandle : x.owner ≠ .free → x.handle = none := h.handle_eq
  have hidle : x.owner ≠ .free → x.idle = none := fun hne => h.idle_eq (.inl hne)
  cases hy with
  | store ho =>
    have hnone := hhandle (by simp [ho])
    exact .of_none (by simp [posted?, worker?, hnone])
  | @pass p v ho =>
    have hnone := hhandle (by simp [ho])
    have hlost := hidle (by simp [ho])
    refine .of_none ?_
    cases hp : (x.shared.pass G K v p).1 with
    | none => simp [posted?, worker?, Owner.ofPass, hnone, hlost]
    | some p' => simp [posted?, worker?, Owner.ofPass, hnone]
  | @publish s _ _ ho =>
    have hnone := hhandle (by simp [ho])
    intro s' hs'
    obtain rfl : s = s' := by simpa [posted?, worker?, hnone] using hs'
    exact .inl rfl
  | @spawn s ho =>
    have hnone := hhandle (by simp [ho])
    exact .of_eq (by simp [posted?, worker?, ho, hnone, Worker.posted?]) rfl
  | ask ho => exact .of_eq (by simp [posted?, worker?, ho]) rfl
  | join ho hw =>
    have hnone := hhandle (by simp [ho])
    exact .of_eq (by simp [posted?, worker?, ho, hw, hnone, Worker.posted?]) rfl
  | bury ho hw =>
    have hnone := hhandle (by simp [ho])
    have hlost := hidle (by simp [ho])
    exact .of_none (by simp [posted?, worker?, hnone, hlost])

/-- Whatever happens next, the figures stay known until the next pass. -/
theorem Orderly.posts (h : x.Orderly) (hy : x.step G K e = some y) : Posts x y := by
  cases e with
  | start v =>
    obtain ⟨-, rfl⟩ := of_step_start hy
    exact (x.starts v).posts
  | update v =>
    obtain ⟨-, rfl⟩ := of_step_update hy
    exact .of_eq rfl rfl
  | stop =>
    obtain ⟨ho, rfl⟩ := of_step_stop hy
    exact x.posts_stop ho
  | proceed => exact h.posts_proceed (proceeds hy)
  | refuse =>
    obtain ⟨s, ho, rfl⟩ := of_step_refuse hy
    have hnone := h.handle_eq (by simp [ho])
    have hlost := h.idle_eq (.inl (by simp [ho]))
    exact .of_none (by simp [posted?, worker?, hnone, hlost])
  | work i =>
    obtain ⟨w, w', m, hw, hstep, rfl⟩ := of_step_work hy
    have hi := h.worker_eq hw (Worker.goes (c := x.config) hstep).ne_joined
    have hw' : (x.put i w' m).threads[i]? = some w' := getElem?_threads_put hw w' m
    intro s hs
    rw [posted?_of_worker (x := x.put i w' m) hi hw'] at hs
    rw [posted?_of_worker hi hw]
    exact Worker.posted?_of_step hstep hs
  | timeOut i =>
    obtain ⟨w, w', hw, hstep, rfl⟩ := of_step_timeOut hy
    have hi := h.worker_eq hw (Worker.timeOut_eq_some hstep).2.1
    have hw' : (x.put i w' x.shared).threads[i]? = some w' := getElem?_threads_put hw w' _
    refine .of_eq ?_ rfl
    rw [posted?_of_worker (x := x.put i w' x.shared) hi hw', posted?_of_worker hi hw]
    cases w with
    | asleep s v rev =>
      cases hstep
      exact Worker.posted?_wake s _
    | checking _ | passing _ _ _ | pausing _ _ _ | finished _ | died | joined => cases hstep

end Session
end

/-! ## The laws -/

/-- The laws of the figures of a streamer and the retained set that it keeps. -/
structure Streamer.Conserves (s : Streamer) (r : Retained) : Prop where
  added_eq : s.stats.added = s.stats.removed + s.stats.visible
  visible_eq : s.stats.visible = s.visible.size
  count_eq : s.visible.size = r.count
  cached_eq : s.stats.cached = s.cache.size
  cache_eq : s.stats.cache = s.cache.stats
  missed_eq : s.stats.cache.misses = s.stats.cached + s.stats.failures
  asked_eq : s.stats.cache.hits + s.stats.cache.misses = s.stats.added + s.stats.failures

/-- Between two passes the laws hold. -/
theorem Place.Balanced.conserves {p : Place} {s : Streamer} {r : Retained} (h : p.Balanced)
    (hm : p.Mirrored c r) (hs : p.settled? = some s) : s.Conserves r := by
  have hsettled : (s.Balances ∧ s.Current) ∧ s.Mirrored c r := by
    cases p with
    | lost => cases hs
    | resting s' =>
      cases hs
      exact ⟨h, hm⟩
    | passing v p =>
      cases p with
      | begun s' | ended s' changed =>
        cases hs
        exact ⟨h, hm⟩
      | resolved _ _ _ _ | withdrawn _ _ _ => cases hs
  obtain ⟨⟨⟨hadded, hmissed, hasked⟩, hvisible, hcached, hcache⟩, -, hmirrors⟩ := hsettled
  have hcount : r.count = s.visible.size := Retained.count_eq_size fun n => hmirrors.isSome_iff
  exact ⟨by omega, hvisible, hcount.symm, hcached, hcache, by rw [hcache]; omega,
    by rw [hcache]; omega⟩

namespace Session

section
variable {g : γ} {events : List Event} {x : Session γ Retained} {s : Streamer}

/-- Along every run of a session the laws hold whenever no pass is halfway through. -/
theorem Reached.conserves (h : x.Reached G Retained.sink c g .empty events)
    (hs : x.place.settled? = some s) : s.Conserves x.shared.sink := by
  obtain ⟨s₀, hs₀, hfollows⟩ := h.follows
  have hall : x.course.Mirrored c ∧ x.place.Balanced := by
    refine hfollows.run.invariant (P := fun y => y.Mirrored c ∧ y.place.Balanced) ⟨?_, ?_⟩
      fun hstep hy => ⟨hy.1.step hstep, hy.2.step hy.1 hstep⟩
    · obtain ⟨hserves, hvisible⟩ := Streamer.Serves.ofConfig hs₀
      refine ⟨hserves, ?_⟩
      rw [hvisible]
      exact .empty _
    · exact Streamer.Balances.ofConfig hs₀
  exact hall.2.conserves hall.1 hs

/-- Along every run of a session the figures shared are those of the streamer whenever these are
known. -/
theorem Reached.stats_eq {σ : Type} {K : Sink σ} {k : σ} {x : Session γ σ}
    (h : x.Reached G K c g k events) (hs : x.posted? = some s) : x.shared.stats = s.stats := by
  obtain ⟨x₀, h₀, hrun⟩ := h
  obtain ⟨s₀, hs₀, rfl⟩ := ofConfig_eq_ok h₀
  have hall : x.Orderly ∧ x.config = c ∧ ∀ s, x.posted? = some s → x.shared.stats = s.stats := by
    refine run_invariant (P := fun y => y.Orderly ∧ y.config = c ∧
      ∀ s, y.posted? = some s → y.shared.stats = s.stats)
      ⟨orderly_new c g k s₀, rfl, fun s hs => ?_⟩ hrun fun {a b e} ha hb => ?_
    · cases hs
      rw [Streamer.stats_ofConfig hs₀]
    · obtain ⟨horderly, hconfig, hstats⟩ := ha
      have hgoes := horderly.step (hconfig ▸ hs₀) hb
      refine ⟨hgoes.orderly, hgoes.config_eq.trans hconfig, fun s hs => ?_⟩
      rcases horderly.posts hb s hs with hnew | ⟨hold, hsame⟩
      · exact hnew
      · exact hsame.trans (hstats s hold)
  exact hall.2.2 s hs

/-- Whatever the views, whatever failed and however often the worker was started again, the figures
obey the laws between any two passes, and they are known whenever the worker sleeps or the streamer
was handed back. -/
theorem figures_conserved (h : x.Reached G Retained.sink c g .empty events) :
    (∀ s, x.place.settled? = some s → s.Conserves x.shared.sink) ∧
      (∀ (i : Nat) s v rev, x.threads[i]? = some (.asleep s v rev) →
        x.place.settled? = some s ∧ x.shared.stats = s.stats) ∧
      ∀ s, x.idle = some s → x.place.settled? = some s ∧ x.shared.stats = s.stats := by
  have horderly := h.mirrored.1
  have hrests : ∀ s, x.Rests s → x.place.settled? = some s ∧ x.shared.stats = s.stats := by
    intro s hs
    exact ⟨by rw [hs.place_eq]; rfl, h.stats_eq hs.posted?_eq⟩
  refine ⟨fun s => h.conserves, fun i s v rev hi => ?_, fun s hs => ?_⟩
  · exact hrests s (.asleep (horderly.worker_eq hi nofun) hi)
  · exact hrests s (horderly.rests_of_idle hs)

/-- The figures obey the laws after two failures while the first worker sleeps, when it is joined
after a pass that removed and added, and while the second one sleeps, with chunks that were had from
the cache. -/
theorem figures_conserved_tour :
    (∃ (x : Session Nat Retained) (s : Streamer),
      x.Reached .erratic Retained.sink .small 0 .empty (Event.tour.take 16) ∧
      s.Conserves x.shared.sink ∧ x.shared.sink.nodes = Node.close ∧ x.shared.stats = s.stats ∧
      s.stats =
        { iterations := 3, added := 6, failures := 2, visible := 6, cached := 6
          cache := { misses := 8 } }) ∧
    (∃ (x : Session Nat Retained) (s : Streamer),
      x.Reached .erratic Retained.sink .small 0 .empty (Event.tour.take 27) ∧ x.idle = some s ∧
      s.Conserves x.shared.sink ∧ x.shared.sink.nodes = Node.back ∧ x.shared.stats = s.stats ∧
      s.stats =
        { iterations := 4, added := 8, removed := 4, failures := 2, visible := 4, cached := 8
          cache := { misses := 10 } }) ∧
    ∃ (x : Session Nat Retained) (s : Streamer),
      x.Reached .erratic Retained.sink .small 0 .empty (Event.tour.take 38) ∧
      s.Conserves x.shared.sink ∧ x.shared.sink.nodes = Node.close ∧ x.shared.stats = s.stats ∧
      s.stats =
        { iterations := 6, added := 12, removed := 6, failures := 2, visible := 6, cached := 8
          cache := { hits := 4, misses := 10 } } := by
  have hasleep {i j : Nat} {v : Glimpse} (h : (i, v) ∈ Glimpse.tour) (hj : v.sleeper = some j) :
      ∃ (x : Session Nat Retained) (s : Streamer),
        x.Reached .erratic Retained.sink .small 0 .empty (Event.tour.take i) ∧
        s.Conserves x.shared.sink ∧ x.shared.sink.nodes = v.retained ∧ x.shared.stats = s.stats ∧
        s.stats = v.stats := by
    obtain ⟨x, hx, rfl⟩ := exists_reached h
    obtain ⟨s, w, rev, hs⟩ := exists_asleep hj
    obtain ⟨hlaws, hasleep, -⟩ := figures_conserved hx
    obtain ⟨hsettled, hstats⟩ := hasleep j s w rev hs
    exact ⟨x, s, hx, hlaws s hsettled, rfl, hstats, hstats.symm⟩
  refine ⟨hasleep (v := .asleep) (by simp [Glimpse.tour]) rfl, ?_,
    hasleep (v := .restarted) (by simp [Glimpse.tour]) rfl⟩
  obtain ⟨x, hx, hstopped⟩ := exists_reached (i := 27) (v := .stopped) (by simp [Glimpse.tour])
  obtain ⟨s, hs⟩ := Option.isSome_iff_exists.1 (congrArg Glimpse.isIdle hstopped)
  obtain ⟨hlaws, -, hidle⟩ := figures_conserved hx
  obtain ⟨hsettled, hstats⟩ := hidle s hs
  exact ⟨x, s, hx, hs, hlaws s hsettled, congrArg Glimpse.retained hstopped, hstats,
    hstats.symm.trans (congrArg Glimpse.stats hstopped)⟩

end

end Session

/-- After whatever calls the figures of a world are those of its streamer and obey the laws. -/
theorem World.stats_conserved {g : γ} {w : World γ Retained}
    (h : World.ofConfig c g .empty = .ok w) (l : List Call) {s : Streamer}
    (hs : (w.calls G Retained.sink l).lifecycle.streamer? = some s) :
    s.Conserves (w.calls G Retained.sink l).sink ∧
      (w.calls G Retained.sink l).stats = s.stats := by
  obtain ⟨events, x, hx, hdepicts⟩ := Session.exists_calls (G := G) (K := Retained.sink) h l
  have hrests := hdepicts.rests hx.mirrored.1 hs
  rw [← hdepicts.sink_eq, ← hdepicts.stats_eq]
  exact ⟨hx.conserves (by rw [hrests.place_eq]; rfl), hx.stats_eq hrests.posted?_eq⟩

end VoxelStream
