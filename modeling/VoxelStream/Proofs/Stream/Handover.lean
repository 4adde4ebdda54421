import VoxelStream.Proofs.Stream.Session

/-!
# The streamer of a session

However the threads take turns, at most one of them has the streamer, and no other ever comes by
another one: the owner has it, or it is kept for a later start, or the one thread that is not joined
yet has it (`Session.Orderly`). So it makes sense to speak of the place of the streamer in a session
(`Session.place`), and every step of the session leaves the streamer alone or is a step of its
course (`Session.Orderly.step`). What holds along courses holds therefore of sessions, whatever the
order of events (`Session.Reached.follows`).
-/

namespace VoxelStream

variable {γ σ : Type} {G : Generator γ} {K : Sink σ}

/-! ## Threads -/

namespace Worker

/-- Where the streamer of a worker is. -/
def place : Worker → Place
  | .checking s | .pausing s _ _ | .asleep s _ _ | .finished s => .resting s
  | .passing p v _ => .passing v p
  | .died | .joined => .lost

/-- A worker that wakes has the streamer at rest. -/
theorem place_wake (s : Streamer) (c : Control) : (wake s c).place = .resting s := by
  unfold wake
  split <;> rfl

/-- A worker that may have to doze has the streamer at rest. -/
theorem place_doze (s : Streamer) (v : View) (rev : UInt64) (c : Control) :
    (doze s v rev c).place = .resting s := by
  unfold doze
  split
  · rfl
  · exact place_wake s c

/-- A worker between two parts of a pass has the streamer where the pass has it. -/
theorem place_ofPass (v : View) (rev : UInt64) (o : Option Pass) :
    (ofPass v rev o).place = .ofPass v o := by
  cases o with
  | none => rfl
  | some p => rfl

/-- Only a join makes a worker one that was joined. -/
theorem wake_ne_joined (s : Streamer) (c : Control) : wake s c ≠ .joined := by
  unfold wake
  split <;> exact nofun

/-- Dozing is no join. -/
theorem doze_ne_joined (s : Streamer) (v : View) (rev : UInt64) (c : Control) :
    doze s v rev c ≠ .joined := by
  unfold doze
  split
  · exact nofun
  · exact wake_ne_joined s c

/-- Going on with a pass is no join. -/
theorem ofPass_ne_joined (v : View) (rev : UInt64) (o : Option Pass) :
    ofPass v rev o ≠ .joined := by
  cases o with
  | none => exact nofun
  | some p => exact nofun

/-- What a step of a worker comes to: it is in the course of the streamer, and the control and the
worker's being there are as before. -/
structure Goes (G : Generator γ) (K : Sink σ) (c : Config) (w w' : Worker) (m m' : Shared γ σ) :
    Prop where
  move : Course.Move G K c ⟨w.place, m.generator, m.sink⟩ ⟨w'.place, m'.generator, m'.sink⟩
  control_eq : m'.control = m.control
  ne_joined : w ≠ .joined
  ne_joined' : w' ≠ .joined

/-- The part of a pass that a worker does next. -/
theorem goes_pass (c : Config) (p : Pass) (v : View) (rev : UInt64) (m : Shared γ σ) :
    Goes G K c (.passing p v rev) (ofPass v rev (m.pass G K v p).1) m (m.pass G K v p).2 where
  move := by
    rw [place_ofPass]
    exact .single (.pass rfl)
  control_eq := rfl
  ne_joined := nofun
  ne_joined' := ofPass_ne_joined v rev _

/-- Every step of a worker is in the course of the streamer. -/
theorem goes {c : Config} {w w' : Worker} {m m' : Shared γ σ}
    (h : w.step G K m = some (w', m')) : Goes G K c w w' m m' := by
  cases w with
  | checking s =>
    rw [step] at h
    split at h
    · cases h
      exact ⟨.refl, rfl, nofun, nofun⟩
    · cases h
      exact ⟨.single (.enter _), rfl, nofun, nofun⟩
  | passing p v rev =>
    cases p with
    | ended s changed =>
      cases h
      refine ⟨.single ?_, rfl, nofun, ?_⟩
      · cases changed with
        | true => exact .leave
        | false => exact .leave
      · cases changed with
        | true => exact nofun
        | false => exact nofun
    | begun _ | resolved _ _ _ _ | withdrawn _ _ _ =>
      cases h
      exact goes_pass c _ v rev m
  | pausing s v rev | asleep s v rev =>
    cases h
    refine ⟨?_, rfl, nofun, doze_ne_joined s v rev _⟩
    rw [place_doze]
    exact .refl
  | finished _ | died | joined => cases h

/-- A worker whose time is over has the streamer before and after. -/
theorem timeOut_eq_some {w w' : Worker} {c : Control} (h : w.timeOut c = some w') :
    w'.place = w.place ∧ w ≠ .joined ∧ w' ≠ .joined := by
  cases w with
  | asleep s v rev =>
    cases h
    exact ⟨place_wake s c, nofun, wake_ne_joined s c⟩
  | checking _ | passing _ _ _ | pausing _ _ _ | finished _ | died | joined => cases h

end Worker

/-- Where the streamer is that the owner has. -/
def Owner.place? : Owner → Option Place
  | .storing s _ | .spawning s => some (.resting s)
  | .passing p v => some (.passing v p)
  | .free | .stopping _ | .joining _ => none

/-- An owner between two parts of a pass has the streamer where the pass has it. -/
theorem Owner.ofPass_place (v : View) (o : Option Pass) :
    (Owner.ofPass v o).place?.getD .lost = .ofPass v o := by
  cases o with
  | none => rfl
  | some p => rfl

/-- After a part of a pass the owner still has the streamer, or its call is over. -/
theorem Owner.ofPass_cases (v : View) (o : Option Pass) :
    (Owner.ofPass v o).place?.isSome ∨ Owner.ofPass v o = .free := by
  cases o with
  | none => exact .inr rfl
  | some p => exact .inl rfl

namespace Session

/-! ## The place of the streamer -/

/-- The number of the thread that is not joined yet, if there is one. -/
def worker? (x : Session γ σ) : Option Nat :=
  match x.owner with
  | .stopping i | .joining i => some i
  | .free | .storing _ _ | .passing _ _ | .spawning _ => x.handle

/-- Where the streamer of a session is. -/
def place (x : Session γ σ) : Place :=
  match x.worker? with
  | some i => (x.threads[i]?).elim .lost Worker.place
  | none => x.owner.place?.getD (x.idle.elim .lost .resting)

/-- The streamer of a session with what its passes use and change. -/
def course (x : Session γ σ) : Course γ σ := ⟨x.place, x.shared.generator, x.shared.sink⟩

/-- At most one has the streamer: an owner in a call has no handle, a streamer is kept only while
there is no worker and the owner is in no call, and of all threads only one is not joined. -/
structure Orderly (x : Session γ σ) : Prop where
  handle_eq : x.owner ≠ .free → x.handle = none
  idle_eq : x.owner ≠ .free ∨ x.handle ≠ none → x.idle = none
  worker_lt : ∀ {i}, x.worker? = some i → i < x.threads.length
  joined_iff : ∀ {i w}, x.threads[i]? = some w → (w = .joined ↔ x.worker? ≠ some i)

section
variable {x : Session γ σ} {i : Nat} {w : Worker}

/-- While there is a worker, the streamer is where the worker has it. -/
theorem place_of_worker (hi : x.worker? = some i) (hw : x.threads[i]? = some w) :
    x.place = w.place := by
  rw [place, hi]
  dsimp only
  rw [hw]
  rfl

/-- A thread that is not joined is the worker. -/
theorem Orderly.worker_eq (h : x.Orderly) (hw : x.threads[i]? = some w) (hne : w ≠ .joined) :
    x.worker? = some i :=
  Decidable.byContradiction fun hi => hne ((h.joined_iff hw).2 hi)

/-- A worker may go on, and it has no effect on who has the streamer. -/
theorem Orderly.put (h : x.Orderly) (hi : x.worker? = some i) (hw : w ≠ .joined)
    (m : Shared γ σ) : (x.put i w m).Orderly where
  handle_eq := h.handle_eq
  idle_eq := h.idle_eq
  worker_lt hj := by
    rw [Session.put, List.length_set]
    exact h.worker_lt hj
  joined_iff {j w'} hj := by
    rw [Session.put] at hj
    by_cases hij : i = j
    · subst hij
      rw [List.getElem?_set_self (h.worker_lt hi), Option.some.injEq] at hj
      subst hj
      exact ⟨fun he => absurd he hw, fun hne => absurd hi hne⟩
    · rw [List.getElem?_set_ne hij] at hj
      exact h.joined_iff hj

/-- Once the worker has gone on, the course is at the place it now has. -/
theorem course_put (hi : x.worker? = some i) (hlt : i < x.threads.length) (w : Worker)
    (m : Shared γ σ) : (x.put i w m).course = ⟨w.place, m.generator, m.sink⟩ := by
  have hw : (x.put i w m).threads[i]? = some w := List.getElem?_set_self hlt
  have hplace : (x.put i w m).place = w.place := place_of_worker hi hw
  rw [course, hplace]
  rfl

/-- No thread has the streamer while the owner has it. -/
theorem Orderly.worker_eq_none {p : Place} (h : x.Orderly) (hp : x.owner.place? = some p) :
    x.worker? = none := by
  cases ho : x.owner with
  | free | stopping _ | joining _ =>
    rw [ho] at hp
    cases hp
  | storing _ _ | passing _ _ | spawning _ =>
    rw [worker?, ho]
    exact h.handle_eq (by rw [ho]; exact nofun)

/-- Nothing but the threads, the worker among them and who has a streamer matters to the order. -/
theorem Orderly.of_eq {y : Session γ σ} (h : x.Orderly) (hw : y.worker? = x.worker?)
    (ht : y.threads = x.threads) (hhandle : y.owner ≠ .free → y.handle = none)
    (hidle : y.owner ≠ .free ∨ y.handle ≠ none → y.idle = none) : y.Orderly where
  handle_eq := hhandle
  idle_eq := hidle
  worker_lt hi := by
    rw [ht]
    exact h.worker_lt (hw ▸ hi)
  joined_iff hi := by
    rw [hw]
    exact h.joined_iff (ht ▸ hi)

end

/-! ## Steps -/

/-- What a step of a session comes to. -/
structure Goes (G : Generator γ) (K : Sink σ) (x y : Session γ σ) : Prop where
  orderly : y.Orderly
  config_eq : y.config = x.config
  move : Course.Move G K x.config x.course y.course

section
variable {x y : Session γ σ} {s₀ : Streamer}

/-- A call of start keeps the order, whether it is refused or takes the streamer. -/
theorem Orderly.start (h : x.Orderly) (ho : x.owner = .free)
    (hc : Streamer.ofConfig x.config = .ok s₀) (v : View) : Goes G K x (x.start K v) := by
  obtain ⟨config, shared, idle, handle, threads, owner⟩ := x
  dsimp only at ho hc
  subst ho
  unfold Session.start takeStreamer
  dsimp only
  cases handle with
  | some i => exact ⟨h, rfl, .refl⟩
  | none =>
    cases idle with
    | some s => exact ⟨h.of_eq rfl rfl (fun _ => rfl) (fun _ => rfl), rfl, .refl⟩
    | none =>
      rw [hc]
      exact ⟨h.of_eq rfl rfl (fun _ => rfl) (fun _ => rfl), rfl, .single (.renew hc)⟩

/-- A call of stop keeps the order, whether there is a worker to ask or not. -/
theorem Orderly.stop (h : x.Orderly) (ho : x.owner = .free) : Goes G K x x.stop := by
  obtain ⟨config, shared, idle, handle, threads, owner⟩ := x
  dsimp only at ho
  subst ho
  unfold Session.stop
  dsimp only
  cases handle with
  | none => exact ⟨h, rfl, .refl⟩
  | some i =>
    have hidle : idle = none := h.idle_eq (.inr nofun)
    exact ⟨h.of_eq rfl rfl (fun _ => rfl) (fun _ => hidle), rfl, .refl⟩

/-- The owner goes on with the streamer that it has, keeps it or loses it. -/
theorem Orderly.goes_on {p : Place} {o : Owner} {m : Shared γ σ} (h : x.Orderly)
    (hp : x.owner.place? = some p) (ho : o.place?.isSome ∨ o = .free)
    (hmove : Course.Move G K x.config ⟨p, x.shared.generator, x.shared.sink⟩
      ⟨o.place?.getD .lost, m.generator, m.sink⟩) :
    Goes G K x { x with shared := m, owner := o } := by
  obtain ⟨config, shared, idle, handle, threads, owner⟩ := x
  have hne : owner ≠ .free := fun he => by
    rw [he] at hp
    cases hp
  obtain rfl : handle = none := h.handle_eq hne
  obtain rfl : idle = none := h.idle_eq (.inl hne)
  have hx := h.worker_eq_none hp
  have hy : Session.worker? ⟨config, m, none, none, threads, o⟩ = none := by
    cases o with
    | free | storing _ _ | passing _ _ | spawning _ => rfl
    | stopping _ | joining _ => simp [Owner.place?] at ho
  refine ⟨h.of_eq (hy.trans hx.symm) rfl (fun _ => rfl) (fun _ => rfl), rfl, ?_⟩
  rw [course, course, place, place, hx, hy]
  dsimp only at hp ⊢
  rw [hp]
  exact hmove

/-- A streamer goes to a new thread. -/
theorem Orderly.spawn {s : Streamer} (h : x.Orderly) (ho : x.owner = .spawning s) :
    Goes G K x { x with
      threads := x.threads ++ [.checking s]
      handle := some x.threads.length
      owner := .free } := by
  obtain ⟨config, shared, idle, handle, threads, owner⟩ := x
  dsimp only at ho
  subst ho
  obtain rfl : handle = none := h.handle_eq nofun
  obtain rfl : idle = none := h.idle_eq (.inl nofun)
  refine ⟨⟨fun hne => absurd rfl hne, fun _ => rfl, fun hi => ?_, fun {i w} hi => ?_⟩, rfl, ?_⟩
  · cases hi
    rw [List.length_append]
    exact Nat.lt_succ_self _
  · rcases Nat.lt_trichotomy i threads.length with hlt | heq | hgt
    · rw [List.getElem?_append_left hlt] at hi
      have hjoined : w = .joined := (h.joined_iff hi).2 nofun
      refine ⟨fun _ he => ?_, fun _ => hjoined⟩
      cases he
      exact Nat.lt_irrefl _ hlt
    · subst heq
      rw [List.getElem?_concat_length, Option.some.injEq] at hi
      subst hi
      exact ⟨nofun, fun hne => absurd rfl hne⟩
    · rw [List.getElem?_eq_none (by rw [List.length_append]; exact hgt)] at hi
      cases hi
  · have hplace : Session.place
        { config, shared, idle := none, handle := some threads.length,
          threads := threads ++ [.checking s] } = .resting s :=
      place_of_worker (i := threads.length) (w := .checking s) rfl List.getElem?_concat_length
    rw [course, course, hplace]
    exact .refl

/-- The worker is asked to stop. -/
theorem Orderly.ask {i : Nat} (h : x.Orderly) (ho : x.owner = .stopping i) :
    Goes G K x { x with shared.control.stop := true, owner := .joining i } := by
  obtain ⟨config, shared, idle, handle, threads, owner⟩ := x
  dsimp only at ho
  subst ho
  obtain rfl : handle = none := h.handle_eq nofun
  obtain rfl : idle = none := h.idle_eq (.inl nofun)
  exact ⟨h.of_eq rfl rfl (fun _ => rfl) (fun _ => rfl), rfl, .refl⟩

/-- The worker is joined and what it had comes back. -/
theorem Orderly.join {i : Nat} {w : Worker} (h : x.Orderly) (ho : x.owner = .joining i)
    (hw : x.threads[i]? = some w) (idle : Option Streamer)
    (hplace : idle.elim .lost .resting = w.place) :
    Goes G K x { x with idle := idle, threads := x.threads.set i .joined, owner := .free } := by
  obtain ⟨config, shared, idle, handle, threads, owner⟩ := x
  dsimp only at ho hw
  subst ho
  obtain rfl : handle = none := h.handle_eq nofun
  refine ⟨⟨fun _ => rfl, fun hne => ?_, nofun, fun {j w'} hj => ⟨fun _ => nofun, fun _ => ?_⟩⟩,
    rfl, ?_⟩
  · rcases hne with hne | hne
    · exact absurd rfl hne
    · exact absurd rfl hne
  · by_cases hij : i = j
    · subst hij
      rw [List.getElem?_set_self (h.worker_lt rfl), Option.some.injEq] at hj
      exact hj.symm
    · rw [List.getElem?_set_ne hij] at hj
      exact (h.joined_iff hj).2 fun he => hij (Option.some.inj he)
  · rw [course, course, place_of_worker rfl hw, ← hplace]
    exact .refl

/-- An owner that goes on with its call keeps the order. -/
theorem Orderly.proceed (h : x.Orderly) (hy : x.proceed G K = some y) : Goes G K x y := by
  cases proceeds hy with
  | @store s v ho => exact h.goes_on (by rw [ho]; rfl) (.inl rfl) (.single (.enter v))
  | publish ho => exact h.goes_on (by rw [ho]; rfl) (.inl rfl) (.single .leave)
  | @pass p v ho =>
    refine h.goes_on (p := .passing v p) (by rw [ho]; rfl) (Owner.ofPass_cases v _) ?_
    rw [Owner.ofPass_place]
    exact .single (.pass rfl)
  | spawn ho => exact h.spawn ho
  | ask ho => exact h.ask ho
  | @join i s ho hw => exact h.join ho hw (some s) rfl
  | bury ho hw =>
    have hidle : x.idle = none := h.idle_eq (.inl (by rw [ho]; exact nofun))
    exact h.join ho hw x.idle (by rw [hidle]; rfl)

/-- A thread that takes a step keeps the order. -/
theorem Orderly.work {i : Nat} (h : x.Orderly) (hy : x.step G K (.work i) = some y) :
    Goes G K x y := by
  obtain ⟨w, w', m, hw, hstep, rfl⟩ := of_step_work hy
  have hgoes := Worker.goes (c := x.config) hstep
  have hi := h.worker_eq hw hgoes.ne_joined
  refine ⟨h.put hi hgoes.ne_joined' m, rfl, ?_⟩
  rw [course_put hi (h.worker_lt hi), course, place_of_worker hi hw]
  exact hgoes.move

/-- A thread whose time is over keeps the order. -/
theorem Orderly.timeOut {i : Nat} (h : x.Orderly) (hy : x.step G K (.timeOut i) = some y) :
    Goes G K x y := by
  obtain ⟨w, w', hw, hstep, rfl⟩ := of_step_timeOut hy
  obtain ⟨hplace, hne, hne'⟩ := Worker.timeOut_eq_some hstep
  have hi := h.worker_eq hw hne
  refine ⟨h.put hi hne' x.shared, rfl, ?_⟩
  rw [course_put hi (h.worker_lt hi), course, place_of_worker hi hw, hplace]
  exact .refl

/-- A thread that is refused keeps the order. -/
theorem Orderly.refuse (h : x.Orderly) (hy : x.step G K .refuse = some y) : Goes G K x y := by
  obtain ⟨s, ho, rfl⟩ := of_step_refuse hy
  exact h.goes_on (by rw [ho]; rfl) (.inr rfl) (.single .drop)

/-- Whatever happens next, the session stays in order and keeps its configuration, and the streamer
takes its course. -/
theorem Orderly.step {e : Event} (h : x.Orderly) (hc : Streamer.ofConfig x.config = .ok s₀)
    (hy : x.step G K e = some y) : Goes G K x y := by
  cases e with
  | start v =>
    obtain ⟨ho, rfl⟩ := of_step_start hy
    exact h.start ho hc v
  | update v =>
    obtain ⟨-, rfl⟩ := of_step_update hy
    exact ⟨h.of_eq rfl rfl h.handle_eq h.idle_eq, rfl, .refl⟩
  | stop =>
    obtain ⟨ho, rfl⟩ := of_step_stop hy
    exact h.stop ho
  | proceed => exact h.proceed hy
  | refuse => exact h.refuse hy
  | work i => exact h.work hy
  | timeOut i => exact h.timeOut hy

end

/-! ## Runs -/

section
variable {x y : Session γ σ} {s₀ : Streamer} {events : List Event}

/-- What survives every event survives a run. -/
theorem run_invariant {P : Session γ σ → Prop} (h : P x) (hrun : x.run G K events = some y)
    (hstep : ∀ {a b e}, P a → a.step G K e = some b → P b) : P y := by
  induction events generalizing x with
  | nil =>
    cases hrun
    exact h
  | cons e rest ih =>
    rw [run] at hrun
    split at hrun
    · next z hz => exact ih (hstep h hz) hrun
    · cases hrun

/-- What a run of a session comes to. -/
structure Follows (G : Generator γ) (K : Sink σ) (x y : Session γ σ) : Prop where
  orderly : y.Orderly
  config_eq : y.config = x.config
  run : Course.Run G K x.config x.course y.course

/-- Along a run the session stays in order and the streamer takes its course. -/
theorem Orderly.run (h : x.Orderly) (hc : Streamer.ofConfig x.config = .ok s₀)
    (hrun : x.run G K events = some y) : Follows G K x y := by
  refine run_invariant (P := Follows G K x) ⟨h, rfl, .refl⟩ hrun fun {a b e} ha hb => ?_
  have hgoes := ha.orderly.step (ha.config_eq ▸ hc) hb
  have hconf : b.config = x.config := hgoes.config_eq.trans ha.config_eq
  have hmove : Course.Move G K x.config a.course b.course := ha.config_eq ▸ hgoes.move
  exact ⟨hgoes.orderly, hconf, ha.run.trans hmove.to_reflTransGen⟩

/-- A new session is in order. -/
theorem orderly_new (c : Config) (g : γ) (k : σ) (s : Streamer) :
    Orderly { config := c, shared := { generator := g, sink := k }, idle := some s } where
  handle_eq _ := rfl
  idle_eq hne := by simp at hne
  worker_lt := nofun
  joined_iff := nofun

/-- A session that was reached has followed a new one. -/
theorem Reached.follows {c : Config} {g : γ} {k : σ} (h : x.Reached G K c g k events) :
    ∃ s, Streamer.ofConfig c = .ok s ∧ Follows G K
      { config := c, shared := { generator := g, sink := k }, idle := some s } x := by
  obtain ⟨x₀, h₀, hrun⟩ := h
  obtain ⟨s, hs, rfl⟩ := ofConfig_eq_ok h₀
  exact ⟨s, hs, (orderly_new c g k s).run hs hrun⟩

end

end Session
end VoxelStream
