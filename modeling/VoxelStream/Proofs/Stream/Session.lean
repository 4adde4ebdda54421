import VoxelStream.Proofs.Stream.Course
import VoxelStream.Stream.World

/-!
# Sessions

A session is a world with nothing left out of how its owner and its workers take turns. A step is
what happens between two points at which another thread may come in: a section under a lock, or work
on data of one's own. So the owner may tell a view between any two steps of the worker, and whoever
draws may look at the sink between any two steps at all. `Session.step` says what each step does and
`Session.run` follows a list of them; whatever the threads do is such a list.

The worker reads the view together with its revision, passes, publishes its figures, and sleeps if
nothing changed and the control is still quiet. It may wake at any time: because it is told
something, because its time is over, or for no reason.
-/

namespace VoxelStream

/-- What the owner has to say to the worker. -/
structure Control where
  view : View := {}
  /-- How often the view was replaced, as far as a word can count. -/
  revision : UInt64 := 0
  stop : Bool := false

namespace Control

/-- Another view replaces the one there is; the same view is ignored. -/
def tell (c : Control) (v : View) : Control :=
  if c.view.same v then c else { c with view := v, revision := c.revision + 1 }

/-- The control as a start leaves it. -/
def restart (c : Control) (v : View) : Control := ⟨v, c.revision + 1, false⟩

/-- Nothing is asked of a worker that has read the revision `rev`. -/
def isQuiet (c : Control) (rev : UInt64) : Bool := !c.stop && c.revision == rev

end Control

/-- What the threads share. -/
structure Shared (γ σ : Type) where
  control : Control := {}
  stats : StreamStats := {}
  generator : γ
  sink : σ

variable {γ σ : Type}

/-- The next part of a pass under a view. -/
def Shared.pass (G : Generator γ) (K : Sink σ) (m : Shared γ σ) (v : View) (p : Pass) :
    Option Pass × Shared γ σ :=
  let (o, g, k) := p.step G K v m.generator m.sink
  (o, { m with generator := g, sink := k })

/-- How far a worker thread is. -/
inductive Worker where
  /-- It is at the head of its loop and about to read the control. -/
  | checking (s : Streamer)
  /-- It is in a pass under the view that it read, together with the revision. -/
  | passing (p : Pass) (v : View) (rev : UInt64)
  /-- Its pass under the view changed nothing, and it is about to look whether it may sleep. -/
  | pausing (s : Streamer) (v : View) (rev : UInt64)
  /-- It sleeps. -/
  | asleep (s : Streamer) (v : View) (rev : UInt64)
  /-- It has left its loop and keeps the streamer for who joins it. -/
  | finished (s : Streamer)
  /-- A fault took it down. -/
  | died
  /-- It is gone, and what it had is handed over. -/
  | joined

namespace Worker

/-- How a worker goes on that sleeps no longer. -/
def wake (s : Streamer) (c : Control) : Worker := if c.stop then .finished s else .checking s

/-- A worker that may sleep does, and one that may not goes on. -/
def doze (s : Streamer) (v : View) (rev : UInt64) (c : Control) : Worker :=
  if c.isQuiet rev then .asleep s v rev else wake s c

/-- How a worker goes on after a part of its pass under a view. -/
def ofPass (v : View) (rev : UInt64) : Option Pass → Worker
  | some p => .passing p v rev
  | none => .died

/-- The next step of a worker, if it has one left. -/
def step (G : Generator γ) (K : Sink σ) (w : Worker) (m : Shared γ σ) :
    Option (Worker × Shared γ σ) :=
  match w with
  | .checking s =>
    if m.control.stop then some (.finished s, m)
    else some (.passing (.begun s) m.control.view m.control.revision, m)
  | .passing (.ended s changed) v rev =>
    some (if changed then .checking s else .pausing s v rev, { m with stats := s.stats })
  | .passing p v rev => some (ofPass v rev (m.pass G K v p).1, (m.pass G K v p).2)
  | .pausing s v rev | .asleep s v rev => some (doze s v rev m.control, m)
  | .finished _ | .died | .joined => none

/-- The time of a worker that sleeps is over. -/
def timeOut (w : Worker) (c : Control) : Option Worker :=
  match w with
  | .asleep s _ _ => some (wake s c)
  | _ => none

end Worker

/-- How far the owner is in a call. -/
inductive Owner where
  /-- It is in no call. -/
  | free
  /-- It has taken the streamer and is about to store the view. -/
  | storing (s : Streamer) (v : View)
  /-- It is in its own pass, before there is a worker. -/
  | passing (p : Pass) (v : View)
  /-- It has published its figures and is about to make a worker. -/
  | spawning (s : Streamer)
  /-- It has taken the handle of thread `i` and is about to ask it to stop. -/
  | stopping (i : Nat)
  /-- It waits for thread `i`. -/
  | joining (i : Nat)

/-- How the owner goes on after a part of its pass under a view. A fault that takes the streamer
along ends the call. -/
def Owner.ofPass (v : View) : Option Pass → Owner
  | some p => .passing p v
  | none => .free

/-- A world with all its threads. -/
structure Session (γ σ : Type) where
  config : Config
  shared : Shared γ σ
  /-- The streamer of a stopped world. -/
  idle : Option Streamer
  /-- The number of the worker's thread. -/
  handle : Option Nat := none
  /-- The threads made so far, by their numbers. -/
  threads : List Worker := []
  owner : Owner := .free

/-- What can happen next. -/
inductive Event where
  /-- The owner calls for a start. -/
  | start (v : View)
  /-- The owner tells a view. -/
  | update (v : View)
  /-- The owner calls for a stop. -/
  | stop
  /-- The owner takes its next step in a call. -/
  | proceed
  /-- The owner gets no thread for a worker, and the streamer is lost. -/
  | refuse
  /-- Thread `i` takes its next step. -/
  | work (i : Nat)
  /-- The time of thread `i`, which sleeps, is over. -/
  | timeOut (i : Nat)

namespace Session

/-- A stopped session of a usable configuration. -/
def ofConfig (c : Config) (g : γ) (k : σ) : Except StreamError (Session γ σ) :=
  match c.validate, Streamer.ofConfig c with
  | .error e, _ | _, .error e => .error (.config e)
  | .ok _, .ok s => .ok { config := c, shared := { generator := g, sink := k }, idle := some s }

/-- Takes the streamer of a session without a worker; if it was lost, the sink is cleared and a new
one made. -/
def takeStreamer (K : Sink σ) (x : Session γ σ) : Except StreamError Streamer × Session γ σ :=
  match x.handle, x.idle with
  | some _, _ => (.error .alreadyRunning, x)
  | none, some s => (.ok s, { x with idle := none })
  | none, none =>
    ((Streamer.ofConfig x.config).mapError .config,
      { x with shared.sink := K.clear x.shared.sink })

/-- The begin of a start. One that is refused is over at once. -/
def start (K : Sink σ) (x : Session γ σ) (v : View) : Session γ σ :=
  match x.takeStreamer K with
  | (.error _, x) => x
  | (.ok s, x) => { x with owner := .storing s v }

/-- The begin of a stop. Without a worker it is over at once. -/
def stop (x : Session γ σ) : Session γ σ :=
  match x.handle with
  | none => x
  | some i => { x with handle := none, owner := .stopping i }

/-- The next step of a call under way. A join waits until its thread is through. -/
def proceed (G : Generator γ) (K : Sink σ) (x : Session γ σ) : Option (Session γ σ) :=
  match x.owner with
  | .free => none
  | .storing s v =>
    some { x with
      shared.control := x.shared.control.restart v
      owner := .passing (.begun s) v }
  | .passing (.ended s _) _ => some { x with shared.stats := s.stats, owner := .spawning s }
  | .passing p v =>
    some { x with
      shared := (x.shared.pass G K v p).2
      owner := .ofPass v (x.shared.pass G K v p).1 }
  | .spawning s =>
    some { x with
      threads := x.threads ++ [.checking s]
      handle := some x.threads.length
      owner := .free }
  | .stopping i => some { x with shared.control.stop := true, owner := .joining i }
  | .joining i =>
    match x.threads[i]? with
    | some (.finished s) =>
      some { x with idle := some s, threads := x.threads.set i .joined, owner := .free }
    | some .died => some { x with threads := x.threads.set i .joined, owner := .free }
    | _ => none

/-- Thread `i` and what is shared are now as given. -/
def put (x : Session γ σ) (i : Nat) (w : Worker) (m : Shared γ σ) : Session γ σ :=
  { x with threads := x.threads.set i w, shared := m }

/-- What comes of an event, if it can happen. -/
def step (G : Generator γ) (K : Sink σ) (x : Session γ σ) (e : Event) : Option (Session γ σ) :=
  match e, x.owner with
  | .start v, .free => some (x.start K v)
  | .update v, .free => some { x with shared.control := x.shared.control.tell v }
  | .stop, .free => some x.stop
  | .proceed, _ => x.proceed G K
  | .refuse, .spawning _ => some { x with owner := .free }
  | .work i, _ => do
    let (w, m) ← (← x.threads[i]?).step G K x.shared
    return x.put i w m
  | .timeOut i, _ => do
    let w ← (← x.threads[i]?).timeOut x.shared.control
    return x.put i w x.shared
  | _, _ => none

/-- What comes of events, one after the other, if they can happen in this order. -/
def run (G : Generator γ) (K : Sink σ) (x : Session γ σ) : List Event → Option (Session γ σ)
  | [] => some x
  | e :: rest =>
    match x.step G K e with
    | some y => y.run G K rest
    | none => none

/-- The session has come of a new one of the configuration, with this generator and this sink,
through the events. -/
def Reached (G : Generator γ) (K : Sink σ) (c : Config) (g : γ) (k : σ) (events : List Event)
    (x : Session γ σ) : Prop :=
  ∃ x₀, ofConfig c g k = .ok x₀ ∧ x₀.run G K events = some x

/-! ## What can happen, and when -/

section
variable {G : Generator γ} {K : Sink σ} {x y : Session γ σ}

/-- What a step of the owner in a call comes to. -/
inductive Proceeds (G : Generator γ) (K : Sink σ) (x : Session γ σ) : Session γ σ → Prop
  | store {s : Streamer} {v : View} : x.owner = .storing s v →
      Proceeds G K x { x with
        shared.control := x.shared.control.restart v
        owner := .passing (.begun s) v }
  | pass {p : Pass} {v : View} : x.owner = .passing p v →
      Proceeds G K x { x with
        shared := (x.shared.pass G K v p).2
        owner := .ofPass v (x.shared.pass G K v p).1 }
  | publish {s : Streamer} {changed : Bool} {v : View} : x.owner = .passing (.ended s changed) v →
      Proceeds G K x { x with shared.stats := s.stats, owner := .spawning s }
  | spawn {s : Streamer} : x.owner = .spawning s →
      Proceeds G K x { x with
        threads := x.threads ++ [.checking s]
        handle := some x.threads.length
        owner := .free }
  | ask {i : Nat} : x.owner = .stopping i →
      Proceeds G K x { x with shared.control.stop := true, owner := .joining i }
  | join {i : Nat} {s : Streamer} : x.owner = .joining i → x.threads[i]? = some (.finished s) →
      Proceeds G K x { x with
        idle := some s
        threads := x.threads.set i .joined
        owner := .free }
  | bury {i : Nat} : x.owner = .joining i → x.threads[i]? = some .died →
      Proceeds G K x { x with threads := x.threads.set i .joined, owner := .free }

/-- Whatever the owner goes on with is one of the cases. -/
theorem proceeds (h : x.proceed G K = some y) : Proceeds G K x y := by
  unfold proceed at h
  split at h
  · cases h
  · next s v ho =>
    cases h
    exact .store ho
  · next s changed v ho =>
    cases h
    exact .publish ho
  · next p v _ ho =>
    cases h
    exact .pass ho
  · next s ho =>
    cases h
    exact .spawn ho
  · next i ho =>
    cases h
    exact .ask ho
  · next i ho =>
    split at h
    · next s hw =>
      cases h
      exact .join ho hw
    · next hw =>
      cases h
      exact .bury ho hw
    · cases h

/-- What the begin of a start comes to. -/
inductive Starts (K : Sink σ) (x : Session γ σ) (v : View) : Session γ σ → Prop
  | refused {i : Nat} : x.handle = some i → Starts K x v x
  | taken {s : Streamer} : x.handle = none → x.idle = some s →
      Starts K x v { x with idle := none, owner := .storing s v }
  | renewed {s : Streamer} : x.handle = none → x.idle = none →
      Streamer.ofConfig x.config = .ok s →
      Starts K x v { x with shared.sink := K.clear x.shared.sink, owner := .storing s v }
  | failed {e : ConfigError} : x.handle = none → x.idle = none →
      Streamer.ofConfig x.config = .error e →
      Starts K x v { x with shared.sink := K.clear x.shared.sink }

/-- Whatever a call of start comes to is one of the cases. -/
theorem starts (x : Session γ σ) (v : View) : Starts K x v (x.start K v) := by
  obtain ⟨config, shared, idle, handle, threads, owner⟩ := x
  unfold start takeStreamer
  cases handle with
  | some i => exact .refused rfl
  | none =>
    cases idle with
    | some s => exact .taken rfl rfl
    | none =>
      dsimp only
      cases hnew : Streamer.ofConfig config with
      | error e => exact .failed rfl rfl hnew
      | ok s => exact .renewed rfl rfl hnew

/-- Only an owner in no call starts. -/
theorem of_step_start {v : View} (h : x.step G K (.start v) = some y) :
    x.owner = .free ∧ y = x.start K v := by
  unfold step at h
  cases ho : x.owner with
  | free =>
    rw [ho] at h
    exact ⟨rfl, (Option.some.inj h).symm⟩
  | storing _ _ | passing _ _ | spawning _ | stopping _ | joining _ =>
    rw [ho] at h
    cases h

/-- A view is told by an owner in no other call. -/
theorem of_step_update {v : View} (h : x.step G K (.update v) = some y) :
    x.owner = .free ∧ y = { x with shared.control := x.shared.control.tell v } := by
  unfold step at h
  cases ho : x.owner with
  | free =>
    rw [ho] at h
    exact ⟨rfl, by rw [← Option.some.inj h]⟩
  | storing _ _ | passing _ _ | spawning _ | stopping _ | joining _ =>
    rw [ho] at h
    cases h

/-- A stop is called by an owner in no other call. -/
theorem of_step_stop (h : x.step G K .stop = some y) : x.owner = .free ∧ y = x.stop := by
  unfold step at h
  cases ho : x.owner with
  | free =>
    rw [ho] at h
    exact ⟨rfl, (Option.some.inj h).symm⟩
  | storing _ _ | passing _ _ | spawning _ | stopping _ | joining _ =>
    rw [ho] at h
    cases h

/-- A thread is refused to an owner that is about to have one. -/
theorem of_step_refuse (h : x.step G K .refuse = some y) :
    ∃ s, x.owner = .spawning s ∧ y = { x with owner := .free } := by
  unfold step at h
  cases ho : x.owner with
  | spawning s =>
    rw [ho] at h
    exact ⟨s, rfl, (Option.some.inj h).symm⟩
  | free | storing _ _ | passing _ _ | stopping _ | joining _ =>
    rw [ho] at h
    cases h

/-- A thread that takes a step is there and can. -/
theorem of_step_work {i : Nat} (h : x.step G K (.work i) = some y) :
    ∃ w w' m, x.threads[i]? = some w ∧ w.step G K x.shared = some (w', m) ∧
      y = x.put i w' m := by
  simp only [step, Option.bind_eq_bind, Option.bind_eq_some_iff, Option.pure_def,
    Option.some.injEq] at h
  obtain ⟨w, hw, ⟨w', m⟩, hstep, rfl⟩ := h
  exact ⟨w, w', m, hw, hstep, rfl⟩

/-- A thread that has a step left can take it at any time. -/
theorem step_work {i : Nat} {w w' : Worker} {m : Shared γ σ} (hw : x.threads[i]? = some w)
    (h : w.step G K x.shared = some (w', m)) :
    x.step G K (.work i) = some (x.put i w' m) := by
  simp only [step, hw, h, Option.bind_eq_bind, Option.bind_some, Option.pure_def]

/-- A thread whose time is over is there and sleeps. -/
theorem of_step_timeOut {i : Nat} (h : x.step G K (.timeOut i) = some y) :
    ∃ w w', x.threads[i]? = some w ∧ w.timeOut x.shared.control = some w' ∧
      y = x.put i w' x.shared := by
  simp only [step, Option.bind_eq_bind, Option.bind_eq_some_iff, Option.pure_def,
    Option.some.injEq] at h
  obtain ⟨w, hw, w', hstep, rfl⟩ := h
  exact ⟨w, w', hw, hstep, rfl⟩

/-- A run goes on from where its first step leads. -/
theorem run_of_step {z : Session γ σ} {e : Event} {rest : List Event}
    (h : x.step G K e = some y) (hrest : y.run G K rest = some z) :
    x.run G K (e :: rest) = some z := by
  rw [run, h]
  exact hrest

/-- A run is made one event after the other, so it may be cut anywhere. -/
theorem run_append (x : Session γ σ) (l l' : List Event) :
    x.run G K (l ++ l') = (x.run G K l).bind (run G K · l') := by
  induction l generalizing x with
  | nil => rfl
  | cons e rest ih =>
    rw [List.cons_append, run, run]
    cases x.step G K e with
    | none => rfl
    | some y => exact ih y

/-- A new session is stopped and has a new streamer. -/
theorem ofConfig_eq_ok {c : Config} {g : γ} {k : σ} (h : ofConfig c g k = .ok x) :
    ∃ s, Streamer.ofConfig c = .ok s ∧
      x = { config := c, shared := { generator := g, sink := k }, idle := some s } := by
  unfold ofConfig at h
  split at h
  · cases h
  · cases h
  · next s _ hs =>
    cases h
    exact ⟨s, hs, rfl⟩

/-- What comes next has come of a new session as well. -/
theorem Reached.step {c : Config} {g : γ} {k : σ} {events : List Event} {e : Event}
    (h : x.Reached G K c g k events) (hy : x.step G K e = some y) :
    y.Reached G K c g k (events ++ [e]) := by
  obtain ⟨x₀, h₀, hrun⟩ := h
  refine ⟨x₀, h₀, ?_⟩
  rw [run_append, hrun]
  exact run_of_step hy rfl

/-- What has come of events has come of the later ones of them. -/
theorem Reached.of_append {c : Config} {g : γ} {k : σ} {events rest : List Event}
    (h : y.Reached G K c g k (events ++ rest)) :
    ∃ x : Session γ σ, x.Reached G K c g k events ∧ x.run G K rest = some y := by
  obtain ⟨x₀, h₀, hrun⟩ := h
  rw [run_append, Option.bind_eq_some_iff] at hrun
  obtain ⟨x, hx, hrest⟩ := hrun
  exact ⟨x, ⟨x₀, h₀, hx⟩, hrest⟩

/-- A run of one event is a step. -/
theorem run_singleton (x : Session γ σ) (e : Event) : x.run G K [e] = x.step G K e := by
  rw [run]
  cases x.step G K e with
  | none => rfl
  | some y => rfl

/-- What has come of events has come of the last one of them. -/
theorem Reached.of_snoc {c : Config} {g : γ} {k : σ} {events : List Event} {e : Event}
    (h : y.Reached G K c g k (events ++ [e])) :
    ∃ x : Session γ σ, x.Reached G K c g k events ∧ x.step G K e = some y := by
  obtain ⟨x, hx, hlast⟩ := h.of_append
  exact ⟨x, hx, (run_singleton x e).symm.trans hlast⟩

/-- The same events lead to the same session. -/
theorem Reached.unique {c : Config} {g : γ} {k : σ} {events : List Event}
    (h : x.Reached G K c g k events) (h' : y.Reached G K c g k events) : x = y := by
  obtain ⟨x₀, h₀, hrun⟩ := h
  obtain ⟨y₀, h₀', hrun'⟩ := h'
  obtain rfl : x₀ = y₀ := Except.ok.inj (h₀.symm.trans h₀')
  exact Option.some.inj (hrun.symm.trans hrun')

end

/-! ## The moments of a run -/

/-- The sessions that a run goes through, from the first one on, as long as its events can
happen. -/
def moments (G : Generator γ) (K : Sink σ) (x : Session γ σ) : List Event → List (Session γ σ)
  | [] => [x]
  | e :: rest =>
    match x.step G K e with
    | some y => x :: y.moments G K rest
    | none => [x]

/-- The sessions that a run of a new one goes through. -/
def history (G : Generator γ) (K : Sink σ) (c : Config) (g : γ) (k : σ) (events : List Event) :
    List (Session γ σ) :=
  match ofConfig c g k with
  | .ok x => x.moments G K events
  | .error _ => []

section
variable {G : Generator γ} {K : Sink σ} {x y : Session γ σ} {events : List Event} {i : Nat}

/-- At moment `i` a run has come as far as its first `i` events lead. -/
theorem getElem?_moments : (x.moments G K events)[i]? = some y ↔
    i ≤ events.length ∧ x.run G K (events.take i) = some y := by
  induction events generalizing x i with
  | nil => cases i <;> simp [moments, run]
  | cons e rest ih =>
    cases i with
    | zero => cases hx : x.step G K e <;> simp [moments, run, hx]
    | succ i => cases hx : x.step G K e <;> simp [moments, run, hx, ih]

/-- What was reached by the first events of a run is what its history has at that moment. -/
theorem getElem?_history {c : Config} {g : γ} {k : σ} :
    (history G K c g k events)[i]? = some x ↔
      i ≤ events.length ∧ x.Reached G K c g k (events.take i) := by
  unfold history Reached
  cases ofConfig c g k with
  | error e => simp
  | ok x₀ => simp [getElem?_moments]

end

end Session
end VoxelStream
