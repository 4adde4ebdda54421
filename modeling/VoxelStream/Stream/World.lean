import VoxelStream.Stream.Settle

/-!
# The streaming world

A world streams to one sink. Its owner starts and stops a worker and tells it the view; the worker
has the streamer while it runs and gives it back when it stops, so that a world started again knows
what it had. A world whose worker went down begins anew, with a cleared sink.

The operations here are those of an owner who waits after each until the worker sleeps. The worker
sleeps once a pass changed nothing, and another view wakes it.
-/

namespace VoxelStream

/-- Why a world is not made or not started. -/
inductive StreamError where
  | config (e : ConfigError)
  | alreadyRunning
deriving DecidableEq

/-- What the error says to a user. -/
def StreamError.message : StreamError → String
  | .config e => s!"invalid stream config: {e.message}"
  | .alreadyRunning => "streaming worker already running"

/-- Why a start failed: it was refused, or its first pass ended with a fault. -/
inductive StartError where
  | stream (e : StreamError)
  | fault (f : Fault)
deriving DecidableEq

/-- Where the streamer is. -/
inductive Lifecycle where
  /-- The world is stopped and has it. -/
  | stopped (s : Streamer)
  /-- The world is stopped, and the streamer is lost. -/
  | lost
  /-- The worker has it. -/
  | running (s : Streamer)
  /-- The worker went down with it and has not been stopped yet. -/
  | dead

/-- Whether there is a worker to stop, alive or not. -/
def Lifecycle.hasWorker : Lifecycle → Bool
  | .stopped _ | .lost => false
  | .running _ | .dead => true

/-- A world with its generator and its sink. -/
structure World (γ σ : Type) where
  config : Config
  /-- The view told last. -/
  view : View := {}
  /-- The figures that the streamer published last. -/
  stats : StreamStats := {}
  lifecycle : Lifecycle
  generator : γ
  sink : σ

namespace World

variable {γ σ : Type}

/-- A stopped world of a usable configuration. -/
def ofConfig (c : Config) (g : γ) (k : σ) : Except StreamError (World γ σ) :=
  match c.validate, Streamer.ofConfig c with
  | .error e, _ | _, .error e => .error (.config e)
  | .ok _, .ok s => .ok { config := c, lifecycle := .stopped s, generator := g, sink := k }

def isRunning (w : World γ σ) : Bool := w.lifecycle.hasWorker

/-- Lets the worker pass until it sleeps. -/
def settle (G : Generator γ) (K : Sink σ) (w : World γ σ) : World γ σ :=
  match w.lifecycle with
  | .running s =>
    let (s, stats, g, k) := s.settle G K w.view w.stats w.generator w.sink
    { w with
      lifecycle := match s with
        | some s => .running s
        | none => .dead
      stats, generator := g, sink := k }
  | _ => w

/-- Takes the streamer of a stopped world, or makes one and clears the sink if it was lost. -/
def takeStreamer (K : Sink σ) (w : World γ σ) : Except StreamError Streamer × World γ σ :=
  match w.lifecycle with
  | .stopped s => (.ok s, { w with lifecycle := .lost })
  | .lost => ((Streamer.ofConfig w.config).mapError .config, { w with sink := K.clear w.sink })
  | _ => (.error .alreadyRunning, w)

/-- Makes one pass under a view and hands the streamer to a worker. -/
def launch (G : Generator γ) (K : Sink σ) (w : World γ σ) (v : View) :
    Except StartError Unit × World γ σ :=
  match w.takeStreamer K with
  | (.error e, w) => (.error (.stream e), w)
  | (.ok s, w) =>
    match s.pass G K v w.generator w.sink with
    | (none, g, k) => (.error (.fault .fatal), { w with view := v, generator := g, sink := k })
    | (some (s, _), g, k) =>
      (.ok (), { w with
        view := v, lifecycle := .running s, stats := s.stats, generator := g, sink := k })

/-- Starts to stream a view. -/
def start (G : Generator γ) (K : Sink σ) (w : World γ σ) (v : View) :
    Except StartError Unit × World γ σ :=
  match w.launch G K v with
  | (.ok (), w) => (.ok (), w.settle G K)
  | (.error e, w) => (.error e, w)

/-- Tells a view. Another one than before wakes the worker. -/
def update (G : Generator γ) (K : Sink σ) (w : World γ σ) (v : View) : World γ σ :=
  if w.view.same v then w else { w with view := v }.settle G K

/-- Ends the worker and takes the streamer back. -/
def stop (w : World γ σ) : World γ σ :=
  match w.lifecycle with
  | .running s => { w with lifecycle := .stopped s }
  | .dead => { w with lifecycle := .lost }
  | _ => w

end World
end VoxelStream
