import VoxelStream.Proofs.Stream.Mirror
import VoxelStream.Proofs.Stream.Recording
import VoxelStream.Proofs.Stream.Schedule

/-!
# What a session retains

A session over a retained set that nobody else writes to, whatever the generator does and however
the threads take turns. As long as the streamer is not between the two calls of a pass, the retained
set holds the cached chunks of its visible nodes and no others (`Session.sink_shows_streamer`), and
at every moment whatsoever the retained chunks are of cells of the tree that are apart from each
other (`Session.retained_apart`), since all of them are of one answer to a query.

One run goes through much of what can happen (`Event.tour`): a worker retains leaves and coarser
nodes after two failures, is stopped in the middle of a pass, and is followed by one that goes down
in a pass and leaves its chunks behind. What is seen at some of its moments is computed once
(`Session.tour_eq`).
-/

namespace VoxelStream

variable {γ : Type} {G : Generator γ} {c : Config} {r : Retained}

/-! ## Streamers outside the two calls -/

/-- The streamer of a pass that is not between the two calls. Its visible set is the old one until
the first call. -/
def Pass.streamer? : Pass → Option Streamer
  | .begun s | .ended s _ => some s
  | .resolved old next _ _ => some { next with visible := old }
  | .withdrawn _ _ _ => none

/-- The streamer, if there is one and it is not between the two calls. -/
def Place.streamer? : Place → Option Streamer
  | .lost => none
  | .resting s => some s
  | .passing _ p => p.streamer?

/-- All streamers that a session keeps, that its owner has or that its threads have, if they are not
between the two calls. -/
def Session.streamers {σ : Type} (x : Session γ σ) : List Streamer :=
  x.idle.toList ++ (x.owner.place?.bind Place.streamer?).toList ++
    x.threads.filterMap (·.place.streamer?)

/-- A streamer that is in place is mirrored. -/
theorem Place.Mirrored.streamer {p : Place} {s : Streamer} (h : p.Mirrored c r)
    (hs : p.streamer? = some s) : s.Mirrored c r := by
  cases p with
  | lost => cases hs
  | resting s' =>
    cases hs
    exact h
  | passing v p =>
    cases p with
    | begun s' | ended s' changed =>
      cases hs
      exact h
    | resolved old next removed added =>
      cases hs
      exact h.1
    | withdrawn next removed added => cases hs

/-- The streamer of a session is kept, or the worker that has it sleeps. -/
inductive Session.Rests {σ : Type} (x : Session γ σ) (s : Streamer) : Prop
  | idle : x.worker? = none → x.owner = .free → x.idle = some s → Rests x s
  | asleep {i : Nat} {v : View} {rev : UInt64} : x.worker? = some i →
      x.threads[i]? = some (.asleep s v rev) → Rests x s

section
variable {σ : Type} {x : Session γ σ} {s : Streamer}

/-- A streamer rests in its place. -/
theorem Session.Rests.place_eq (h : x.Rests s) : x.place = .resting s := by
  cases h with
  | idle hworker howner hidle =>
    rw [place, hworker, howner, hidle]
    rfl
  | asleep hworker hi => exact place_of_worker hworker hi

/-- A streamer that is kept rests. -/
theorem Session.Orderly.rests_of_idle (h : x.Orderly) (hs : x.idle = some s) : x.Rests s := by
  have howner : x.owner = .free := by
    by_contra hne
    rw [h.idle_eq (.inl hne)] at hs
    cases hs
  have hhandle : x.handle = none := by
    by_contra hne
    rw [h.idle_eq (.inr hne)] at hs
    cases hs
  exact .idle (by rw [worker?, howner]; exact hhandle) howner hs

end

/-- There is at most one streamer. -/
theorem Session.Orderly.place_of_mem {σ : Type} {x : Session γ σ} (h : x.Orderly) {s : Streamer}
    (hs : s ∈ x.streamers) : x.place.streamer? = some s := by
  unfold streamers at hs
  rw [List.mem_append, List.mem_append, Option.mem_toList, Option.mem_toList,
    List.mem_filterMap] at hs
  rcases hs with (hs | hs) | ⟨w, hw, hs⟩
  · rw [(h.rests_of_idle hs).place_eq]
    rfl
  · obtain ⟨p, hp, hps⟩ := Option.bind_eq_some_iff.1 hs
    have hworker : x.worker? = none := h.worker_eq_none hp
    rw [place, hworker, hp]
    exact hps
  · obtain ⟨i, hi⟩ := List.mem_iff_getElem?.1 hw
    have hne : w ≠ .joined := fun he => by
      rw [he] at hs
      cases hs
    rw [place_of_worker (h.worker_eq hi hne) hi]
    exact hs

/-- Along every run of a session the retained set is as it should be for the place of the
streamer. -/
theorem Session.Reached.mirrored {g : γ} {events : List Event} {x : Session γ Retained}
    (h : x.Reached G Retained.sink c g .empty events) :
    x.Orderly ∧ x.config = c ∧ x.course.Mirrored c := by
  obtain ⟨s, hs, hfollows⟩ := h.follows
  refine ⟨hfollows.orderly, hfollows.config_eq, hfollows.run.invariant ?_ Course.Mirrored.step⟩
  obtain ⟨hserves, hvisible⟩ := Streamer.Serves.ofConfig hs
  refine ⟨hserves, ?_⟩
  rw [hvisible]
  exact .empty _

/-! ## A run

A camera on a line moves away from a small tree and back while the worker comes and goes, asked to
stop in the middle of a pass or taken down by its generator. The lens has no angle, so no tangent is
taken, and all floats of the run can be computed. -/

/-- Gives every node a chunk with nothing in it. -/
def Generator.blank : Generator Unit := ⟨fun n g => (.ok ⟨n, default⟩, g)⟩

/-- Counts its calls and gives every node a chunk with nothing in it, but for three of them: the
second call is refused, the third is answered with the chunk of another node, and the eleventh takes
the streamer along. -/
def Generator.erratic : Generator Nat where
  generate n calls :=
    (match calls with
      | 1 => .error .refused
      | 2 => .ok ⟨.leaf .zero, default⟩
      | 10 => .error .fatal
      | _ => .ok ⟨n, default⟩, calls + 1)

/-- A tree of few levels in which all but the nearest nodes are kept whole. -/
def Config.small : Config := { rootLevel := 2, lodFactor := some 1 }

/-- What a camera shows that looks along a line from `z` on it. -/
def View.along (z : Float32) : View := { camera := { position := ⟨0, 1.5, z⟩, fovY := 0 } }

/-- Shows four leaves and two nodes behind them. -/
def View.close : View := .along 1

/-- Shows four nodes, of which two take the place of the leaves. -/
def View.back : View := .along 3

/-- Shows the root. -/
def View.away : View := .along 5

/-- The nodes that the close view shows, by level. -/
def Node.close : List Node :=
  [⟨⟨-1, 1, 0⟩, 0⟩, ⟨⟨-1, 1, 1⟩, 0⟩, ⟨⟨0, 1, 0⟩, 0⟩, ⟨⟨0, 1, 1⟩, 0⟩, ⟨⟨-2, 0, -2⟩, 1⟩,
    ⟨⟨0, 0, -2⟩, 1⟩]

/-- The nodes that the view from further back shows. -/
def Node.back : List Node :=
  [⟨⟨-2, 0, -2⟩, 1⟩, ⟨⟨-2, 0, 0⟩, 1⟩, ⟨⟨0, 0, -2⟩, 1⟩, ⟨⟨0, 0, 0⟩, 1⟩]

/-- The nodes that both views show. -/
def Node.kept : List Node := [⟨⟨-2, 0, -2⟩, 1⟩, ⟨⟨0, 0, -2⟩, 1⟩]

/-- A whole start: the view is stored, the pass planned, its two calls made and its figures made
known, and there is a worker. -/
def Event.opening (v : View) : List Event := .start v :: List.replicate 6 .proceed

/-- The worker passes until it sleeps, begins a pass under another view and is asked to stop; the
next one sleeps and is taken down by its pass; then there is a third one. -/
def Event.tour : List Event :=
  opening .close ++ List.replicate 9 (.work 0) ++
    .update .back :: List.replicate 3 (.work 0) ++ [.stop, .proceed] ++
    List.replicate 4 (.work 0) ++ [.proceed] ++
    opening .close ++ List.replicate 4 (.work 1) ++
    .update .away :: List.replicate 3 (.work 1) ++ [.stop, .proceed, .proceed] ++
    opening .back

/-- The run, moment by moment, with the calls it makes. -/
def Session.tour : List (Recorded Nat Retained) :=
  history Generator.erratic.recording Retained.sink.recording .small (0, []) (.empty, [])
    Event.tour

def Worker.isAsleep : Worker → Bool
  | .asleep _ _ _ => true
  | .checking _ | .passing _ _ _ | .pausing _ _ _ | .finished _ | .died | .joined => false

def Owner.isFree : Owner → Bool
  | .free => true
  | .storing _ _ | .passing _ _ | .spawning _ | .stopping _ | .joining _ => false

/-- The thread that the owner waits for. -/
def Owner.joins? : Owner → Option Nat
  | .joining i => some i
  | .free | .storing _ _ | .passing _ _ | .spawning _ | .stopping _ => none

def Place.isLost : Place → Bool
  | .lost => true
  | .resting _ | .passing _ _ => false

/-- The check finds just the workers that sleep. -/
theorem Worker.isAsleep_iff {w : Worker} : w.isAsleep ↔ ∃ s v rev, w = .asleep s v rev := by
  cases w <;> simp [isAsleep]

/-- The check finds just the owner that is in no call. -/
theorem Owner.isFree_iff {o : Owner} : o.isFree ↔ o = .free := by
  cases o <;> simp [isFree]

/-- The check finds just the thread that the owner waits for. -/
theorem Owner.joins?_eq_some_iff {o : Owner} {i : Nat} : o.joins? = some i ↔ o = .joining i := by
  cases o <;> simp [joins?]

/-- The check finds just the place of a lost streamer. -/
theorem Place.isLost_iff {p : Place} : p.isLost ↔ p = .lost := by
  cases p <;> simp [isLost]

/-- What can be seen of a session at a glance. -/
structure Glimpse where
  /-- The nodes of the retained chunks, by level. -/
  retained : List Node
  /-- How many nodes are visible, if the streamer is not between the two calls. -/
  shown : List Nat := []
  stats : StreamStats
  isFree : Bool := true
  joins : Option Nat := none
  handle : Option Nat := none
  isIdle : Bool := false
  sleeper : Option Nat := none
  stop : Bool := false
deriving DecidableEq

def Session.glimpse (x : Session γ Retained) : Glimpse where
  retained := x.shared.sink.nodes
  shown := x.streamers.map (·.visible.size)
  stats := x.shared.stats
  isFree := x.owner.isFree
  joins := x.owner.joins?
  handle := x.handle
  isIdle := x.idle.isSome
  sleeper := x.threads.findIdx? (·.isAsleep)
  stop := x.shared.control.stop

/-- Thread `i` of a session sleeps if it is seen to. -/
theorem Session.exists_asleep {x : Session γ Retained} {i : Nat}
    (h : x.glimpse.sleeper = some i) : ∃ s v rev, x.threads[i]? = some (.asleep s v rev) := by
  obtain ⟨hi, hasleep, -⟩ := List.findIdx?_eq_some_iff_getElem.1 h
  obtain ⟨s, v, rev, hw⟩ := Worker.isAsleep_iff.1 hasleep
  exact ⟨s, v, rev, List.getElem?_eq_some_iff.2 ⟨hi, hw⟩⟩

namespace Glimpse

/-- The first worker has brought the close view into the retained set and sleeps. Two nodes failed
at first. -/
def asleep : Glimpse where
  retained := Node.close
  shown := [6]
  stats :=
    { iterations := 3, added := 6, failures := 2, visible := 6, cached := 6
      cache := { misses := 8 } }
  handle := some 0
  sleeper := some 0

/-- The worker has planned for the view from further back, and the owner waits for it. -/
def awaited : Glimpse :=
  { asleep with isFree := false, joins := some 0, handle := none, sleeper := none, stop := true }

/-- The worker has handed over what to remove. -/
def between : Glimpse := { awaited with retained := Node.kept, shown := [] }

/-- The worker has come to the end of its pass and is joined. -/
def stopped : Glimpse where
  retained := Node.back
  shown := [4]
  stats :=
    { iterations := 4, added := 8, removed := 4, failures := 2, visible := 4, cached := 8
      cache := { misses := 10 } }
  isIdle := true
  stop := true

/-- The second worker sleeps, and the close view is back in the retained set. -/
def restarted : Glimpse where
  retained := Node.close
  shown := [6]
  stats :=
    { iterations := 6, added := 12, removed := 6, failures := 2, visible := 6, cached := 8
      cache := { hits := 4, misses := 10 } }
  handle := some 1
  sleeper := some 1

/-- The second worker was taken down in a pass. -/
def died : Glimpse := { restarted with shown := [], sleeper := none }

/-- The second worker is joined, and there is no streamer. -/
def lost : Glimpse := { died with handle := none, stop := true }

/-- The third worker has a new streamer, to which the view from further back is visible. -/
def renewed : Glimpse where
  retained := Node.back
  shown := [4]
  stats := { iterations := 1, added := 4, visible := 4, cached := 4, cache := { misses := 4 } }
  handle := some 2

/-- Some moments of the run, with what is seen then. -/
def tour : List (Nat × Glimpse) :=
  [(16, asleep), (22, awaited), (23, between), (27, stopped), (38, restarted), (42, died),
    (45, lost), (52, renewed)]

end Glimpse

namespace Session

/-- What is seen of the run, that its streamer is not lost before the second worker goes down, and
the nodes of its calls up to then. They are computed together, since it takes a while. -/
theorem tour_eq :
    (∀ p ∈ Glimpse.tour, tour[p.1]?.map (·.erase.glimpse) = some p.2) ∧
      ((tour.take 39).all fun y => !y.place.isLost) ∧
      tour[38]?.map (·.shared.generator.2.map (·.node)) =
        some [⟨⟨-2, 0, -2⟩, 1⟩, ⟨⟨-1, 1, 0⟩, 0⟩, ⟨⟨-1, 1, 1⟩, 0⟩, ⟨⟨0, 0, -2⟩, 1⟩, ⟨⟨0, 1, 0⟩, 0⟩,
          ⟨⟨0, 1, 1⟩, 0⟩, ⟨⟨-1, 1, 0⟩, 0⟩, ⟨⟨-1, 1, 1⟩, 0⟩, ⟨⟨-2, 0, 0⟩, 1⟩, ⟨⟨0, 0, 0⟩, 1⟩] ∧
      tour[38]?.map (·.shared.sink.2.map (·.chunks.map (·.node))) =
        some [[],
          [⟨⟨-2, 0, -2⟩, 1⟩, ⟨⟨0, 0, -2⟩, 1⟩, ⟨⟨0, 1, 0⟩, 0⟩, ⟨⟨0, 1, 1⟩, 0⟩],
          [],
          [⟨⟨-1, 1, 0⟩, 0⟩, ⟨⟨-1, 1, 1⟩, 0⟩],
          [⟨⟨-1, 1, 0⟩, 0⟩, ⟨⟨-1, 1, 1⟩, 0⟩, ⟨⟨0, 1, 0⟩, 0⟩, ⟨⟨0, 1, 1⟩, 0⟩],
          [⟨⟨-2, 0, 0⟩, 1⟩, ⟨⟨0, 0, 0⟩, 1⟩],
          [⟨⟨-2, 0, 0⟩, 1⟩, ⟨⟨0, 0, 0⟩, 1⟩],
          [⟨⟨-1, 1, 0⟩, 0⟩, ⟨⟨-1, 1, 1⟩, 0⟩, ⟨⟨0, 1, 0⟩, 0⟩, ⟨⟨0, 1, 1⟩, 0⟩]] := by
  decide +kernel

/-- A moment of the run has come of its first events. -/
theorem reached_of_tour {i : Nat} {y : Recorded Nat Retained} (h : tour[i]? = some y) :
    y.Reached .erratic Retained.sink .small 0 .empty (Event.tour.take i) :=
  (getElem?_history.1 h).2

/-- What is seen of the run at a moment is seen of a session that it has reached. -/
theorem exists_reached {i : Nat} {v : Glimpse} (h : (i, v) ∈ Glimpse.tour) :
    ∃ x : Session Nat Retained,
      x.Reached .erratic Retained.sink .small 0 .empty (Event.tour.take i) ∧ x.glimpse = v := by
  obtain ⟨y, hy, hv⟩ := Option.map_eq_some_iff.1 (tour_eq.1 _ h)
  exact ⟨y.erase, Recorded.reached_erase_iff.2 ⟨y, reached_of_tour hy, rfl⟩, hv⟩

end Session

/-! ## The retained set and the visible set -/

/-- The retained set has the chunks of the streamer's visible nodes, as they are in its cache, and
no others. -/
structure Retained.Shows (r : Retained) (s : Streamer) : Prop where
  contains_iff : ∀ n, r.contains n.level n.origin ↔ n ∈ s.visible
  cached : ∀ n ∈ s.visible, ∃ chunk, s.cache.find? n = some chunk ∧ chunk.node = n ∧
    r.find? n.level n.origin = some chunk

/-- A retained set that mirrors a streamer shows it. -/
theorem Streamer.Mirrored.shows {s : Streamer} (h : s.Mirrored c r) : r.Shows s where
  contains_iff n := by
    rw [Retained.contains_eq_isSome]
    exact h.2.isSome_iff
  cached n hn := by
    obtain ⟨chunk, hc, hr⟩ := h.2.of_mem n hn
    exact ⟨chunk, hc, h.1.sound.node_eq hc, hr⟩

/-- Whatever has happened, the retained set shows the streamer that there is, unless that is between
the two calls of a pass. If it was lost and the worker is joined, then the next start clears the
retained set and has a streamer to which nothing is visible. -/
theorem Session.sink_shows_streamer {g : γ} {events : List Event} {x : Session γ Retained}
    (h : x.Reached G Retained.sink c g .empty events) :
    (∀ s ∈ x.streamers, x.shared.sink.Shows s) ∧
      (x.owner = .free → x.handle = none → x.idle = none → ∀ v, ∃ s,
        Streamer.ofConfig c = .ok s ∧ s.visible = ∅ ∧
        x.step G Retained.sink (.start v) =
          some { x with shared.sink := .empty, owner := .storing s v }) := by
  obtain ⟨horderly, hconfig, hmirrored⟩ := h.mirrored
  refine ⟨fun s hs => ?_, fun hfree hhandle hidle v => ?_⟩
  · exact (hmirrored.streamer (horderly.place_of_mem hs)).shows
  · obtain ⟨x₀, h₀, -⟩ := h
    obtain ⟨s, hs, -⟩ := ofConfig_eq_ok h₀
    refine ⟨s, hs, (Streamer.Serves.ofConfig hs).2, ?_⟩
    unfold step
    rw [hfree]
    dsimp only
    rw [start, takeStreamer, hhandle, hidle, hconfig, hs]
    rfl

/-- What the first worker has brought into the retained set when it sleeps is shown. The chunks that
the second one leaves when it goes down are stale, and the next start clears them; the new streamer
is shown again, and the leaves are gone. -/
theorem Session.sink_shows_tour :
    (∃ (x : Session Nat Retained) (s : Streamer),
      x.Reached .erratic Retained.sink .small 0 .empty (Event.tour.take 16) ∧ s ∈ x.streamers ∧
      s.visible.size = 6 ∧ x.shared.sink.nodes = Node.close ∧ x.shared.sink.Shows s) ∧
    (∃ (x : Session Nat Retained) (s : Streamer),
      x.Reached .erratic Retained.sink .small 0 .empty (Event.tour.take 45) ∧ x.streamers = [] ∧
      x.shared.sink.nodes = Node.close ∧ s.visible = ∅ ∧
      x.step .erratic Retained.sink (.start .back) =
        some { x with shared.sink := .empty, owner := .storing s .back }) ∧
    ∃ (x : Session Nat Retained) (s : Streamer),
      x.Reached .erratic Retained.sink .small 0 .empty (Event.tour.take 52) ∧ s ∈ x.streamers ∧
      s.visible.size = 4 ∧ x.shared.sink.nodes = Node.back ∧ x.shared.sink.Shows s := by
  have hshown {i n : Nat} {v : Glimpse} (h : (i, v) ∈ Glimpse.tour) (hn : v.shown = [n]) :
      ∃ (x : Session Nat Retained) (s : Streamer),
        x.Reached .erratic Retained.sink .small 0 .empty (Event.tour.take i) ∧ s ∈ x.streamers ∧
        s.visible.size = n ∧ x.shared.sink.nodes = v.retained ∧ x.shared.sink.Shows s := by
    obtain ⟨x, hx, rfl⟩ := exists_reached h
    obtain ⟨s, hs, hsize⟩ := List.map_eq_singleton_iff.1 hn
    have hmem : s ∈ x.streamers := hs ▸ List.mem_singleton_self s
    exact ⟨x, s, hx, hmem, hsize, rfl, (sink_shows_streamer hx).1 s hmem⟩
  refine ⟨hshown (v := .asleep) (by simp [Glimpse.tour]) rfl, ?_,
    hshown (v := .renewed) (by simp [Glimpse.tour]) rfl⟩
  obtain ⟨x, hx, hlost⟩ := exists_reached (i := 45) (v := .lost) (by simp [Glimpse.tour])
  have hfree : x.owner = .free := Owner.isFree_iff.1 (congrArg Glimpse.isFree hlost)
  have hidle : x.idle = none :=
    Option.isNone_iff_eq_none.1 (Option.isSome_eq_false_iff.1 (congrArg Glimpse.isIdle hlost))
  obtain ⟨s, -, hvisible, hstart⟩ :=
    (sink_shows_streamer hx).2 hfree (congrArg Glimpse.handle hlost) hidle .back
  exact ⟨x, s, hx, List.map_eq_nil_iff.1 (congrArg Glimpse.shown hlost),
    congrArg Glimpse.retained hlost, hvisible, hstart⟩

/-- The streamer of a world, unless it is lost. -/
def Lifecycle.streamer? : Lifecycle → Option Streamer
  | .stopped s | .running s => some s
  | .lost | .dead => none

/-- Between its calls a world has its streamer at rest. -/
theorem Session.Depicts.rests {σ : Type} {x : Session γ σ} {w : World γ σ} {s : Streamer}
    (h : x.Depicts w) (ho : x.Orderly) (hs : w.lifecycle.streamer? = some s) : x.Rests s := by
  have hat := h.lifecycle
  cases hl : w.lifecycle with
  | stopped s' =>
    rw [hl] at hs hat
    cases hs
    exact ho.rests_of_idle hat.2
  | running s' =>
    rw [hl] at hs hat
    cases hs
    obtain ⟨-, i, -, hi, -⟩ := hat
    exact .asleep (ho.worker_eq hi nofun) hi
  | lost | dead =>
    rw [hl] at hs
    cases hs

/-- After whatever calls the retained set of a world shows its streamer. -/
theorem World.sink_shows {g : γ} {w : World γ Retained} (h : World.ofConfig c g .empty = .ok w)
    (l : List Call) {s : Streamer}
    (hs : (w.calls G Retained.sink l).lifecycle.streamer? = some s) :
    (w.calls G Retained.sink l).sink.Shows s := by
  obtain ⟨events, x, hx, hdepicts⟩ := Session.exists_calls (G := G) (K := Retained.sink) h l
  obtain ⟨horderly, -, hmirrored⟩ := hx.mirrored
  have hplace := (hdepicts.rests horderly hs).place_eq
  unfold Course.Mirrored Session.course at hmirrored
  rw [hplace, hdepicts.sink_eq] at hmirrored
  exact Streamer.Mirrored.shows hmirrored

/-! ## Overlap -/

/-- All chunks retained are of one answer to a query of the configuration, each in the place of its
node. -/
def Retained.OfAnswer (r : Retained) (c : Config) : Prop :=
  ∃ t viewer frustum, Tree.ofLevel c.rootLevel = .ok t ∧ ∀ n chunk, r.chunkOf n = some chunk →
    chunk.node = n ∧ t.Answers viewer frustum c.query n

/-- What mirrors a part of a visible set is of an answer, since a visible set is part of one. -/
theorem Retained.Mirrors.ofAnswer {s : Streamer} {visible : NodeSet}
    (h : r.Mirrors visible s.cache) (hs : s.Serves c) (hsub : ∀ n ∈ visible, n ∈ s.visible) :
    r.OfAnswer c := by
  obtain ⟨v, nodes, hnodes, hshown⟩ := hs.shown
  rw [Streamer.inView, hs.query_eq] at hnodes
  refine ⟨s.tree, v.camera.position, v.camera.frustum, hs.tree_eq, fun n chunk hn => ?_⟩
  have hmem : n ∈ visible := h.isSome_iff.1 (by rw [hn]; rfl)
  obtain ⟨chunk', hcached, hr⟩ := h.of_mem n hmem
  obtain rfl : chunk = chunk' := Option.some.inj (hn.symm.trans hr)
  exact ⟨hs.sound.node_eq hcached, (Tree.mem_query_iff hnodes).1 (hshown n (hsub n hmem))⟩

/-- Wherever the streamer is, also between the two calls, what is retained is of an answer. -/
theorem Place.Mirrored.ofAnswer {p : Place} (h : p.Mirrored c r) : r.OfAnswer c := by
  cases p with
  | lost =>
    obtain ⟨s, hs, hr⟩ := h
    exact hr.ofAnswer hs fun _ => id
  | resting s => exact h.2.ofAnswer h.1 fun _ => id
  | passing v p =>
    cases p with
    | begun s | ended s changed => exact h.2.ofAnswer h.1 fun _ => id
    | resolved old next removed added => exact h.1.2.ofAnswer h.1.1 fun _ => id
    | withdrawn next removed added =>
      obtain ⟨hnext, old, hr, -⟩ := h
      exact hr.ofAnswer hnext fun n hn => (Std.ExtTreeSet.mem_inter_iff.1 hn).2

/-- At every moment, also between the two calls of a pass and after a worker went down, each
retained chunk is in the place of its node, its cell lies in the root's, and the cells of two of
them are apart; so none is above another. -/
theorem Session.retained_apart {g : γ} {events : List Event} {x : Session γ Retained}
    (h : x.Reached G Retained.sink c g .empty events) :
    ∃ t, Tree.ofLevel c.rootLevel = .ok t ∧
      (∀ n chunk, x.shared.sink.find? n.level n.origin = some chunk →
        chunk.node = n ∧ t.root.Holds n ∧ ∀ p, n.Covers p → t.root.Covers p) ∧
      ∀ m n : Node, x.shared.sink.contains m.level m.origin →
        x.shared.sink.contains n.level n.origin → m ≠ n → m.Apart n ∧ ¬ m.Above n := by
  obtain ⟨-, -, hmirrored⟩ := h.mirrored
  obtain ⟨t, viewer, frustum, ht, hanswers⟩ := hmirrored.ofAnswer
  refine ⟨t, ht, fun n chunk hn => ?_, fun m n hm hn hne => ?_⟩
  · obtain ⟨hnode, ha⟩ := hanswers n chunk hn
    exact ⟨hnode, ha.1, fun p => ha.1.covers t.fits_root⟩
  · obtain ⟨cm, hcm⟩ := Option.isSome_iff_exists.1 hm
    obtain ⟨cn, hcn⟩ := Option.isSome_iff_exists.1 hn
    have ham := (hanswers m cm hcm).2
    have han := (hanswers n cn hcn).2
    exact ⟨ham.apart han hne, ham.not_above han⟩

/-- The cells of what is retained are apart while the first worker sleeps, with leaves and coarser
nodes, between the two calls of its last pass, and after the second one went down in a pass. -/
theorem Session.retained_apart_tour : ∃ (x y z : Session Nat Retained) (t : Tree),
    x.Reached .erratic Retained.sink .small 0 .empty (Event.tour.take 16) ∧
    y.Reached .erratic Retained.sink .small 0 .empty (Event.tour.take 23) ∧
    z.Reached .erratic Retained.sink .small 0 .empty (Event.tour.take 42) ∧
    Tree.ofLevel 2 = .ok t ∧
    x.shared.sink.nodes = Node.close ∧ x.shared.sink.nodes.Pairwise Node.Apart ∧
    y.shared.sink.nodes = Node.kept ∧ y.shared.sink.nodes.Pairwise Node.Apart ∧
    z.shared.sink.nodes = Node.close ∧ z.shared.sink.nodes.Pairwise Node.Apart ∧
    ∀ n ∈ Node.close, t.root.Holds n := by
  have hapart {i : Nat} {x : Session Nat Retained}
      (h : x.Reached .erratic Retained.sink .small 0 .empty (Event.tour.take i)) :
      ∃ t, Tree.ofLevel 2 = .ok t ∧ x.shared.sink.nodes.Pairwise Node.Apart ∧
        ∀ n ∈ x.shared.sink.nodes, t.root.Holds n := by
    obtain ⟨t, ht, hholds, h⟩ := retained_apart h
    refine ⟨t, ht, (Retained.nodup_nodes _).pairwise_of_forall_ne fun m hm n hn hne => ?_,
      fun n hn => ?_⟩
    · exact (h m n ((Retained.mem_nodes _).1 hm) ((Retained.mem_nodes _).1 hn) hne).1
    · obtain ⟨chunk, hchunk⟩ := Option.isSome_iff_exists.1 ((Retained.mem_nodes _).1 hn)
      exact (hholds n chunk hchunk).2.1
  obtain ⟨x, hx, hasleep⟩ := exists_reached (i := 16) (v := .asleep) (by simp [Glimpse.tour])
  obtain ⟨y, hy, hbetween⟩ := exists_reached (i := 23) (v := .between) (by simp [Glimpse.tour])
  obtain ⟨z, hz, hdied⟩ := exists_reached (i := 42) (v := .died) (by simp [Glimpse.tour])
  have hclose : x.shared.sink.nodes = Node.close := congrArg Glimpse.retained hasleep
  obtain ⟨t, ht, hapartx, hholds⟩ := hapart hx
  obtain ⟨-, -, haparty, -⟩ := hapart hy
  obtain ⟨-, -, hapartz, -⟩ := hapart hz
  exact ⟨x, y, z, t, hx, hy, hz, ht, hclose, hapartx, congrArg Glimpse.retained hbetween, haparty,
    congrArg Glimpse.retained hdied, hapartz, hclose ▸ hholds⟩

end VoxelStream
