import VoxelStream.Proofs.Stream.Session

/-!
# The operations of a world as schedules

A world says what comes of a call whose caller waits until the worker sleeps. In a session that is
one of many orders of events: the owner's steps up to the end of the call, and then steps of the
worker alone. So whatever can be made of a world can be made of a session (`Session.exists_calls`),
and what holds of every session holds of the world.

A pass is the thread that both follow. `Pass.Leads` is a pass done step by step to its end,
`Streamer.pass_leads` says that it gives what the pass of a world gives, and the owner and the
workers each walk along it (`Session.comes_of_owner`, `Session.comes_of_worker`).
-/

namespace VoxelStream

variable {γ σ : Type} {G : Generator γ} {K : Sink σ}

/-! ## Passes -/

/-- A pass that is not over yet. -/
def Pass.isEnded : Pass → Bool
  | .ended _ _ => true
  | .begun _ | .resolved _ _ _ _ | .withdrawn _ _ _ => false

/-- From here a pass under the view, done alone, comes to this end. -/
inductive Pass.Leads (G : Generator γ) (K : Sink σ) (v : View) :
    Pass → Shared γ σ → Option Pass → Shared γ σ → Prop
  | done {s : Streamer} {changed : Bool} {m : Shared γ σ} :
      Leads G K v (.ended s changed) m (some (.ended s changed)) m
  | lost {p : Pass} {m m' : Shared γ σ} : p.isEnded = false → m.pass G K v p = (none, m') →
      Leads G K v p m none m'
  | next {p p' : Pass} {o : Option Pass} {m m' m'' : Shared γ σ} : p.isEnded = false →
      m.pass G K v p = (some p', m') → Leads G K v p' m' o m'' → Leads G K v p m o m''

/-- A part of a pass with which the pass is over leads to its end. -/
theorem Pass.Leads.of_outcome {v : View} {p : Pass} {m m' : Shared γ σ} {o : Streamer.Outcome}
    (hp : p.isEnded = false) (h : m.pass G K v p = (ofOutcome o, m')) :
    Leads G K v p m (ofOutcome o) m' := by
  cases o with
  | none => exact .lost hp h
  | some r => exact .next hp h .done

/-- The two calls of a pass, one after the other. -/
theorem Streamer.publish_leads {next : Streamer} {old : NodeSet} {removed added : List Chunk}
    {v : View} {m : Shared γ σ} {o : Streamer.Outcome} {k : σ}
    (h : next.publish K removed added m.sink = (o, k)) :
    Pass.Leads G K v (.resolved old next removed added) m (Pass.ofOutcome o)
      { m with sink := k } := by
  unfold publish at h
  rcases hr : K.remove removed m.sink with ⟨f | _, k₁⟩
  all_goals
    rw [hr] at h
    dsimp only at h
  · cases h
    refine .of_outcome rfl ?_
    rw [Shared.pass, Pass.step, hr]
  · have hremove : m.pass G K v (.resolved old next removed added) =
        (some (.withdrawn next removed added), { m with sink := k₁ }) := by
      rw [Shared.pass, Pass.step, hr]
    refine .next rfl hremove (.of_outcome rfl ?_)
    rcases ha : K.add added k₁ with ⟨f | _, k₂⟩
    · rw [ha] at h
      cases h
      rw [Shared.pass, Pass.step, ha]
    · rw [ha] at h
      cases h
      rw [Shared.pass, Pass.step, ha]
      rfl

/-- A pass done step by step comes to the same end as a pass done at once. -/
theorem Streamer.pass_leads {s : Streamer} {v : View} {m : Shared γ σ} {o : Streamer.Outcome}
    {g : γ} {k : σ} (h : s.pass G K v m.generator m.sink = (o, g, k)) :
    Pass.Leads G K v (.begun s) m (Pass.ofOutcome o) { m with generator := g, sink := k } := by
  unfold pass at h
  rcases hp : s.plan G v m.generator with ⟨_ | s' | ⟨next, removed, added⟩, g₁⟩
  all_goals
    rw [hp] at h
    dsimp only at h
  · cases h
    refine .of_outcome rfl ?_
    rw [Shared.pass, Pass.step, hp]
    rfl
  · cases h
    refine .of_outcome rfl ?_
    rw [Shared.pass, Pass.step, hp]
    rfl
  · have hplan : m.pass G K v (.begun s) = (some (.resolved s.visible next removed added),
        { m with generator := g₁ }) := by
      rw [Shared.pass, Pass.step, hp]
    rcases hpub : next.publish K removed added m.sink with ⟨o', k'⟩
    rw [hpub] at h
    cases h
    exact .next rfl hplan (publish_leads (m := { m with generator := g }) hpub)

/-- A worker in a pass that is not over does the next part of it. -/
theorem Worker.step_passing {p : Pass} {m : Shared γ σ} (hp : p.isEnded = false) (v : View)
    (rev : UInt64) : Worker.step G K (.passing p v rev) m =
      some (ofPass v rev (m.pass G K v p).1, (m.pass G K v p).2) := by
  cases p with
  | begun _ | resolved _ _ _ _ | withdrawn _ _ _ => rfl
  | ended _ _ => cases hp

/-- An owner in a pass that is not over does the next part of it. -/
theorem Session.step_passing {p : Pass} {v : View} {x : Session γ σ} (hp : p.isEnded = false)
    (ho : x.owner = .passing p v) : x.step G K .proceed = some { x with
      shared := (x.shared.pass G K v p).2
      owner := .ofPass v (x.shared.pass G K v p).1 } := by
  unfold step proceed
  rw [ho]
  cases p with
  | begun _ | resolved _ _ _ _ | withdrawn _ _ _ => rfl
  | ended _ _ => cases hp

/-- How a worker ends that is left alone: it sleeps, or it is down. -/
def Worker.ofSettled (v : View) (rev : UInt64) : Option Streamer → Worker
  | some s => .asleep s v rev
  | none => .died

namespace Session

/-! ## Steps in a row -/

/-- Some events lead from one session to the other. -/
def Comes (G : Generator γ) (K : Sink σ) (x y : Session γ σ) : Prop :=
  ∃ events, x.run G K events = some y

section
variable {x y z : Session γ σ}

/-- Without an event a session stays as it is. -/
theorem Comes.refl (x : Session γ σ) : x.Comes G K x := ⟨[], rfl⟩

/-- An event may come before those that lead on. -/
theorem Comes.head {e : Event} (h : x.step G K e = some y) (hyz : y.Comes G K z) :
    x.Comes G K z := by
  obtain ⟨events, hrun⟩ := hyz
  exact ⟨e :: events, run_of_step h hrun⟩

/-- Events may come after one another. -/
theorem Comes.trans (hxy : x.Comes G K y) (hyz : y.Comes G K z) : x.Comes G K z := by
  obtain ⟨l, hl⟩ := hxy
  obtain ⟨l', hl'⟩ := hyz
  refine ⟨l ++ l', ?_⟩
  rw [run_append, hl]
  exact hl'

/-- The thread that has gone on is in its place. -/
theorem getElem?_threads_put {i : Nat} {w : Worker} (hi : x.threads[i]? = some w) (w' : Worker)
    (m : Shared γ σ) : (x.put i w' m).threads[i]? = some w' :=
  List.getElem?_set_self (List.getElem?_eq_some_iff.1 hi).1

/-- Of two steps of one thread the second leaves its mark. -/
theorem put_put (x : Session γ σ) (i : Nat) (w w' : Worker) (m m' : Shared γ σ) :
    (x.put i w m).put i w' m' = x.put i w' m' := by
  unfold put
  rw [List.set_set]

/-- A worker that is alone does its pass to the end. -/
theorem comes_of_worker {v : View} {rev : UInt64} {i : Nat} {p : Pass} {o : Option Pass}
    {m m' : Shared γ σ} (h : Pass.Leads G K v p m o m')
    (hi : x.threads[i]? = some (.passing p v rev)) (hm : x.shared = m) :
    x.Comes G K (x.put i (.ofPass v rev o) m') := by
  induction h generalizing x with
  | @done s changed m =>
    obtain ⟨hlt, hget⟩ := List.getElem?_eq_some_iff.1 hi
    have hsame : x.threads.set i (.ofPass v rev (some (.ended s changed))) = x.threads := by
      rw [Worker.ofPass, ← hget, List.set_getElem_self]
    rw [put, hsame, ← hm]
    exact .refl x
  | @lost p m m' hp hpass =>
    have hstep := Worker.step_passing (G := G) (K := K) (m := m) hp v rev
    rw [hpass] at hstep
    exact .head (step_work hi (hm ▸ hstep)) (.refl _)
  | @next p p' o m m' m'' hp hpass _ ih =>
    have hstep := Worker.step_passing (G := G) (K := K) (m := m) hp v rev
    rw [hpass] at hstep
    have hrest := ih (getElem?_threads_put hi _ m') rfl
    rw [put_put] at hrest
    exact .head (step_work hi (hm ▸ hstep)) hrest

/-- An owner in its own pass does it to the end. -/
theorem comes_of_owner {v : View} {p : Pass} {o : Option Pass} {m m' : Shared γ σ}
    (h : Pass.Leads G K v p m o m') (ho : x.owner = .passing p v) (hm : x.shared = m) :
    x.Comes G K { x with shared := m', owner := .ofPass v o } := by
  induction h generalizing x with
  | done =>
    rw [Owner.ofPass, ← ho, ← hm]
    exact .refl x
  | lost hp hpass =>
    have hstep := step_passing (G := G) (K := K) hp ho
    rw [hm, hpass] at hstep
    exact .head hstep (.refl _)
  | @next p p' o m m' m'' hp hpass _ ih =>
    have hstep := step_passing (G := G) (K := K) hp ho
    rw [hm, hpass] at hstep
    exact .head hstep (ih (x := { x with shared := m', owner := .passing p' v }) rfl rfl)

/-- A worker at the head of its loop reads the control and passes under the view. -/
theorem comes_of_checking {s : Streamer} {i : Nat} {v : View} {rev : UInt64} {stats : StreamStats}
    {o : Streamer.Outcome} {g g' : γ} {k k' : σ} (hi : x.threads[i]? = some (.checking s))
    (hm : x.shared = ⟨⟨v, rev, false⟩, stats, g, k⟩) (hp : s.pass G K v g k = (o, g', k')) :
    x.Comes G K (x.put i (.ofPass v rev (Pass.ofOutcome o)) ⟨⟨v, rev, false⟩, stats, g', k'⟩) := by
  have hstep : Worker.step G K (.checking s) x.shared =
      some (.passing (.begun s) v rev, x.shared) := by
    rw [hm]
    rfl
  have hleads : Pass.Leads G K v (.begun s) ⟨⟨v, rev, false⟩, stats, g, k⟩ (Pass.ofOutcome o)
      ⟨⟨v, rev, false⟩, stats, g', k'⟩ := Streamer.pass_leads hp
  have hpass := comes_of_worker hleads
    (getElem?_threads_put hi (.passing (.begun s) v rev) x.shared) hm
  rw [put_put] at hpass
  exact .head (step_work hi hstep) hpass

/-- A worker that is left alone passes until nothing changes, and then it sleeps. -/
theorem comes_of_settle {s : Streamer} {i : Nat} {v : View} {rev : UInt64} {stats : StreamStats}
    {g : γ} {k : σ} (hi : x.threads[i]? = some (.checking s))
    (hm : x.shared = ⟨⟨v, rev, false⟩, stats, g, k⟩) :
    x.Comes G K (x.put i (.ofSettled v rev (s.settle G K v stats g k).1)
      ⟨⟨v, rev, false⟩, (s.settle G K v stats g k).2.1, (s.settle G K v stats g k).2.2.1,
        (s.settle G K v stats g k).2.2.2⟩) := by
  fun_induction Streamer.settle G K s v stats g k generalizing x with
  | case1 s stats g k g' k' hp => exact comes_of_checking hi hm hp
  | case2 s stats g k s' g' k' hp =>
    refine (comes_of_checking hi hm hp).trans ?_
    refine .head (step_work (getElem?_threads_put hi _ _) rfl) ?_
    rw [put_put]
    refine .head (step_work (getElem?_threads_put hi _ _) rfl) ?_
    rw [put_put]
    have hquiet : Worker.doze s' v rev ⟨v, rev, false⟩ = .asleep s' v rev :=
      if_pos (beq_self_eq_true rev)
    show Comes G K (x.put i (Worker.doze s' v rev ⟨v, rev, false⟩) _) _
    rw [hquiet]
    exact .refl _
  | case3 s stats g k s' g' k' hp ih =>
    refine (comes_of_checking hi hm hp).trans ?_
    refine .head (step_work (getElem?_threads_put hi _ _) rfl) ?_
    rw [put_put]
    have hrest := ih (getElem?_threads_put hi _ _) rfl
    rw [put_put] at hrest
    exact hrest

end

end Session

/-! ## The operations of a world -/

namespace World

/-- What the owner of a world can do. -/
inductive Call where
  | start (v : View)
  | update (v : View)
  | stop

/-- The world after a call of its owner. -/
def call (G : Generator γ) (K : Sink σ) (w : World γ σ) : Call → World γ σ
  | .start v => (w.start G K v).2
  | .update v => w.update G K v
  | .stop => w.stop

/-- The world after calls of its owner, one after the other. -/
def calls (G : Generator γ) (K : Sink σ) (w : World γ σ) (l : List Call) : World γ σ :=
  l.foldl (call G K) w

end World

namespace Session

/-- The streamer of the session is where the lifecycle says: it is kept, it is lost, the worker has
it and sleeps, or the worker is down and not joined yet. -/
def At (x : Session γ σ) : Lifecycle → Prop
  | .stopped s => x.handle = none ∧ x.idle = some s
  | .lost => x.handle = none ∧ x.idle = none
  | .running s => x.idle = none ∧ ∃ i, x.handle = some i ∧
      x.threads[i]? = some (.asleep s x.shared.control.view x.shared.control.revision) ∧
      x.shared.control.stop = false
  | .dead => x.idle = none ∧ ∃ i, x.handle = some i ∧ x.threads[i]? = some .died

/-- The owner of the session is in no call, and what there is is what the world has. -/
structure Depicts (x : Session γ σ) (w : World γ σ) : Prop where
  owner_eq : x.owner = .free
  config_eq : x.config = w.config
  view_eq : x.shared.control.view = w.view
  stats_eq : x.shared.stats = w.stats
  generator_eq : x.shared.generator = w.generator
  sink_eq : x.shared.sink = w.sink
  lifecycle : x.At w.lifecycle

section
variable {x : Session γ σ} {w : World γ σ}

/-- Joining a worker that has ended brings its streamer back. -/
theorem step_join_finished {i : Nat} {s : Streamer} (ho : x.owner = .joining i)
    (hi : x.threads[i]? = some (.finished s)) : x.step G K .proceed =
      some { x with idle := some s, threads := x.threads.set i .joined, owner := .free } := by
  unfold step proceed
  rw [ho]
  dsimp only
  rw [hi]

/-- Joining a worker that has died brings nothing back. -/
theorem step_join_died {i : Nat} (ho : x.owner = .joining i) (hi : x.threads[i]? = some .died) :
    x.step G K .proceed = some { x with threads := x.threads.set i .joined, owner := .free } := by
  unfold step proceed
  rw [ho]
  dsimp only
  rw [hi]

/-- A stop ends the worker and takes the streamer back. -/
theorem Depicts.stop (h : x.Depicts w) : ∃ y, x.Comes G K y ∧ y.Depicts w.stop := by
  obtain ⟨config, ⟨⟨view, rev, stop⟩, stats, g, k⟩, idle, handle, threads, owner⟩ := x
  obtain ⟨config', view', stats', lifecycle, g', k'⟩ := w
  obtain ⟨rfl, rfl, rfl, rfl, rfl, rfl, hat⟩ := id h
  cases lifecycle with
  | stopped s | lost => exact ⟨_, .refl _, h⟩
  | running s =>
    obtain ⟨rfl, i, rfl, hi, rfl⟩ := hat
    have hdoze : Worker.step G K (.asleep s view rev) ⟨⟨view, rev, true⟩, stats, g, k⟩ =
        some (.finished s, ⟨⟨view, rev, true⟩, stats, g, k⟩) := rfl
    have hfinished : (threads.set i (.finished s))[i]? = some (.finished s) :=
      List.getElem?_set_self (List.getElem?_eq_some_iff.1 hi).1
    exact ⟨_, .head (e := .stop) rfl (.head (e := .proceed) rfl (.head (step_work hi hdoze)
      (.head (step_join_finished rfl hfinished) (.refl _)))),
      ⟨rfl, rfl, rfl, rfl, rfl, rfl, rfl, rfl⟩⟩
  | dead =>
    obtain ⟨rfl, i, rfl, hi⟩ := hat
    exact ⟨_, .head (e := .stop) rfl (.head (e := .proceed) rfl (.head (step_join_died rfl hi)
      (.refl _))),
      ⟨rfl, rfl, rfl, rfl, rfl, rfl, rfl, rfl⟩⟩

/-- A worker that was just made or woken settles as the worker of the world does. -/
theorem depicts_of_settle (config : Config) (v : View) (rev : UInt64) (stats : StreamStats) (g : γ)
    (k : σ) {threads : List Worker} {i : Nat} {s : Streamer}
    (hi : threads[i]? = some (.checking s)) :
    ∃ y, Comes G K ⟨config, ⟨⟨v, rev, false⟩, stats, g, k⟩, none, some i, threads, .free⟩ y ∧
      y.Depicts (World.settle G K ⟨config, v, stats, .running s, g, k⟩) := by
  have hcomes := comes_of_settle (G := G) (K := K) (x := ⟨config, ⟨⟨v, rev, false⟩, stats, g, k⟩,
    none, some i, threads, .free⟩) hi rfl
  refine ⟨_, hcomes, ?_⟩
  unfold World.settle
  dsimp only
  rcases s.settle G K v stats g k with ⟨_ | s', stats', g', k'⟩
  · exact ⟨rfl, rfl, rfl, rfl, rfl, rfl, rfl, i, rfl, getElem?_threads_put hi _ _⟩
  · exact ⟨rfl, rfl, rfl, rfl, rfl, rfl, rfl, i, rfl, getElem?_threads_put hi _ _, rfl⟩

/-- Another view wakes the worker. -/
theorem Depicts.update (h : x.Depicts w) (v : View) :
    ∃ y, x.Comes G K y ∧ y.Depicts (w.update G K v) := by
  obtain ⟨config, ⟨⟨view, rev, stop⟩, stats, g, k⟩, idle, handle, threads, owner⟩ := x
  obtain ⟨config', view', stats', lifecycle, g', k'⟩ := w
  obtain ⟨rfl, rfl, rfl, rfl, rfl, rfl, hat⟩ := id h
  unfold World.update
  dsimp only
  by_cases hsame : view.same v
  · have htell : Control.tell ⟨view, rev, stop⟩ v = ⟨view, rev, stop⟩ := if_pos hsame
    rw [if_pos hsame]
    refine ⟨_, .head (e := .update v) rfl (.refl _), ?_⟩
    rw [htell]
    exact h
  · have htell : Control.tell ⟨view, rev, stop⟩ v = ⟨v, rev + 1, stop⟩ := if_neg hsame
    rw [if_neg hsame]
    have hupdate : step G K
        ⟨config, ⟨⟨view, rev, stop⟩, stats, g, k⟩, idle, handle, threads, .free⟩ (.update v) = some
        ⟨config, ⟨⟨v, rev + 1, stop⟩, stats, g, k⟩, idle, handle, threads, .free⟩ := by
      rw [← htell]
      rfl
    cases lifecycle with
    | stopped s | lost | dead =>
      exact ⟨_, .head hupdate (.refl _), ⟨rfl, rfl, rfl, rfl, rfl, rfl, hat⟩⟩
    | running s =>
      obtain ⟨rfl, i, rfl, hi, rfl⟩ := hat
      have hloud : ¬ Control.isQuiet ⟨v, rev + 1, false⟩ rev := by simp [Control.isQuiet]
      have hwake : Worker.step G K (.asleep s view rev) ⟨⟨v, rev + 1, false⟩, stats, g, k⟩ =
          some (.checking s, ⟨⟨v, rev + 1, false⟩, stats, g, k⟩) := by
        rw [Worker.step, Worker.doze, if_neg hloud]
        rfl
      have hchecking : (threads.set i (.checking s))[i]? = some (.checking s) :=
        List.getElem?_set_self (List.getElem?_eq_some_iff.1 hi).1
      obtain ⟨y, hcomes, hdepicts⟩ :=
        depicts_of_settle (G := G) (K := K) config v (rev + 1) stats g k hchecking
      exact ⟨y, .head hupdate (.head (step_work hi hwake) hcomes), hdepicts⟩

/-- A start that has the streamer passes once, and then there is a worker or the streamer is
lost. -/
theorem depicts_of_storing (config : Config) (control : Control) (stats : StreamStats)
    (threads : List Worker) {g g' : γ} {k k' : σ} {s : Streamer} {v : View} {o : Streamer.Outcome}
    (hp : s.pass G K v g k = (o, g', k')) :
    ∃ y, Comes G K ⟨config, ⟨control, stats, g, k⟩, none, none, threads, .storing s v⟩ y ∧
      y.Depicts (match o with
        | none => ⟨config, v, stats, .lost, g', k'⟩
        | some (s', _) => World.settle G K ⟨config, v, s'.stats, .running s', g', k'⟩) := by
  have hleads : Pass.Leads G K v (.begun s) ⟨control.restart v, stats, g, k⟩ (Pass.ofOutcome o)
      ⟨control.restart v, stats, g', k'⟩ := Streamer.pass_leads hp
  have hpass := comes_of_owner (x := ⟨config, ⟨control.restart v, stats, g, k⟩, none, none, threads,
    .passing (.begun s) v⟩) hleads rfl rfl
  cases o with
  | none => exact ⟨_, .head (e := .proceed) rfl hpass, ⟨rfl, rfl, rfl, rfl, rfl, rfl, rfl, rfl⟩⟩
  | some r =>
    obtain ⟨s', changed⟩ := r
    have hchecking : (threads ++ [.checking s'])[threads.length]? = some (.checking s') :=
      List.getElem?_concat_length
    obtain ⟨y, hcomes, hdepicts⟩ :=
      depicts_of_settle (G := G) (K := K) config v (control.revision + 1) s'.stats g' k' hchecking
    exact ⟨y, .head (e := .proceed) rfl (hpass.trans (.head (e := .proceed) rfl
      (.head (e := .proceed) rfl hcomes))), hdepicts⟩

/-- A start after the streamer was lost clears the sink, and it goes on if there is a new one. -/
theorem step_start_lost (config : Config) (shared : Shared γ σ) (threads : List Worker) (v : View) :
    step G K ⟨config, shared, none, none, threads, .free⟩ (.start v) =
      some ⟨config, { shared with sink := K.clear shared.sink }, none, none, threads,
        match Streamer.ofConfig config with
        | .error _ => .free
        | .ok s => .storing s v⟩ := by
  unfold step Session.start takeStreamer
  dsimp only
  cases Streamer.ofConfig config with
  | error e => rfl
  | ok s => rfl

/-- A start of a world is one of a session. -/
theorem Depicts.start (h : x.Depicts w) (v : View) :
    ∃ y, x.Comes G K y ∧ y.Depicts (w.start G K v).2 := by
  obtain ⟨config, ⟨control, stats, g, k⟩, idle, handle, threads, owner⟩ := x
  obtain ⟨config', view', stats', lifecycle, g', k'⟩ := w
  obtain ⟨rfl, rfl, rfl, rfl, rfl, rfl, hat⟩ := id h
  unfold World.start World.launch World.takeStreamer
  cases lifecycle with
  | stopped s =>
    obtain ⟨rfl, rfl⟩ := hat
    dsimp only
    rcases hp : s.pass G K v g k with ⟨_ | ⟨s', changed⟩, g', k'⟩
    all_goals
      obtain ⟨y, hcomes, hdepicts⟩ := depicts_of_storing config control stats threads hp
      exact ⟨y, .head (e := .start v) rfl hcomes, hdepicts⟩
  | lost =>
    obtain ⟨rfl, rfl⟩ := hat
    dsimp only
    have hstart := step_start_lost (G := G) (K := K) config ⟨control, stats, g, k⟩ threads v
    cases hc : Streamer.ofConfig config with
    | error e =>
      rw [hc] at hstart
      exact ⟨_, .head hstart (.refl _), ⟨rfl, rfl, rfl, rfl, rfl, rfl, rfl, rfl⟩⟩
    | ok s =>
      rw [hc] at hstart
      dsimp only [Except.mapError]
      rcases hp : s.pass G K v g (K.clear k) with ⟨_ | ⟨s', changed⟩, g', k'⟩
      all_goals
        obtain ⟨y, hcomes, hdepicts⟩ := depicts_of_storing config control stats threads hp
        exact ⟨y, .head hstart hcomes, hdepicts⟩
  | running s =>
    obtain ⟨rfl, i, rfl, hi, hstop⟩ := hat
    exact ⟨_, .head (e := .start v) rfl (.refl _), h⟩
  | dead =>
    obtain ⟨rfl, i, rfl, hi⟩ := hat
    exact ⟨_, .head (e := .start v) rfl (.refl _), h⟩

/-- Whatever the owner of a world calls, a session can come to what the world comes to. -/
theorem Depicts.call (h : x.Depicts w) (o : World.Call) :
    ∃ y, x.Comes G K y ∧ y.Depicts (w.call G K o) := by
  cases o with
  | start v => exact h.start v
  | update v => exact h.update v
  | stop => exact h.stop

/-- What an owner can do to a world, events can do to a session. -/
theorem Depicts.calls (h : x.Depicts w) (l : List World.Call) :
    ∃ y, x.Comes G K y ∧ y.Depicts (w.calls G K l) := by
  induction l generalizing x w with
  | nil => exact ⟨x, .refl x, h⟩
  | cons o l ih =>
    obtain ⟨y, hxy, hy⟩ := h.call (G := G) (K := K) o
    obtain ⟨z, hyz, hz⟩ := ih hy
    exact ⟨z, hxy.trans hyz, hz⟩

end

/-- What can be made of a new world can be made of a new session. -/
theorem exists_calls {c : Config} {g : γ} {k : σ} {w : World γ σ}
    (h : World.ofConfig c g k = .ok w) (l : List World.Call) :
    ∃ events x, Reached G K c g k events x ∧ x.Depicts (w.calls G K l) := by
  unfold World.ofConfig at h
  split at h
  · cases h
  · cases h
  · next s hvalid hs =>
    cases h
    have hnew : ofConfig c g k =
        .ok { config := c, shared := { generator := g, sink := k }, idle := some s } := by
      rw [ofConfig, hvalid, hs]
    have hdepicts : Depicts { config := c, shared := { generator := g, sink := k }, idle := some s }
        { config := c, lifecycle := .stopped s, generator := g, sink := k } :=
      ⟨rfl, rfl, rfl, rfl, rfl, rfl, rfl, rfl⟩
    obtain ⟨x, ⟨events, hrun⟩, hx⟩ := hdepicts.calls (G := G) (K := K) l
    exact ⟨events, x, ⟨_, hnew, hrun⟩, hx⟩

end Session
end VoxelStream
