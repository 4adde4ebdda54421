import Mathlib.Logic.Relation
import VoxelStream.Stream.Streamer

/-!
# The course of a streamer

There is one streamer at a time, and all that touches the generator and the sink of a world happens
in its passes. `Course.Step` is what can become of it, whoever has it: a pass is entered under some
view and goes on call by call (`Pass.step`), the streamer may be lost, and one that was lost is
replaced after the sink was cleared. Between any two steps others may look at the sink, so the
moment between the two calls of a pass is a state of its own (`Pass.withdrawn`).

What holds along every course (`Course.Run.invariant`) holds of whatever goes about it like that.
-/

namespace VoxelStream

variable {γ σ : Type} {G : Generator γ} {K : Sink σ} {c : Config}

/-- A pass under way, at the points where others may look. -/
inductive Pass where
  /-- Nothing is done yet. -/
  | begun (s : Streamer)
  /-- The nodes are resolved and the sink is to be called. The streamer takes over its visible set
  as it makes the first call and has the set `old` until then. -/
  | resolved (old : NodeSet) (next : Streamer) (removed added : List Chunk)
  /-- The sink has been handed what to remove, but not what to add. -/
  | withdrawn (next : Streamer) (removed added : List Chunk)
  /-- The pass is over, and it changed something or not. -/
  | ended (s : Streamer) (changed : Bool)

namespace Pass

/-- The end of a pass; nothing remains of it if the streamer is lost. -/
def ofOutcome (o : Streamer.Outcome) : Option Pass := o.map fun (s, changed) => .ended s changed

/-- The next part of a pass under a view. -/
def step (G : Generator γ) (K : Sink σ) (v : View) (p : Pass) (g : γ) (k : σ) :
    Option Pass × γ × σ :=
  match p with
  | .begun s =>
    match s.plan G v g with
    | (.lost, g) => (none, g, k)
    | (.unchanged s, g) => (some (.ended s false), g, k)
    | (.change next removed added, g) => (some (.resolved s.visible next removed added), g, k)
  | .resolved _ next removed added =>
    match K.remove removed k with
    | (.error f, k) => (ofOutcome (next.cutShort f), g, k)
    | (.ok (), k) => (some (.withdrawn next removed added), g, k)
  | .withdrawn next removed added =>
    match K.add added k with
    | (.error f, k) => (ofOutcome (next.cutShort f), g, k)
    | (.ok (), k) => (some (.ended next.refresh (!removed.isEmpty || !added.isEmpty)), g, k)
  | .ended s changed => (some (.ended s changed), g, k)

end Pass

/-- Where the streamer is. -/
inductive Place where
  /-- There is none. -/
  | lost
  /-- It is in no pass. -/
  | resting (s : Streamer)
  /-- It is in a pass under a view, or the pass just ended. -/
  | passing (v : View) (p : Pass)

/-- Where the streamer is when of a pass under `v` there remains this. -/
def Place.ofPass (v : View) : Option Pass → Place
  | none => .lost
  | some p => .passing v p

/-- The streamer together with what its passes use and change. -/
structure Course (γ σ : Type) where
  place : Place
  generator : γ
  sink : σ

namespace Course

/-- What can happen to the streamer of a configuration. -/
inductive Step (G : Generator γ) (K : Sink σ) (c : Config) : Course γ σ → Course γ σ → Prop
  | renew {s : Streamer} {g : γ} {k : σ} : Streamer.ofConfig c = .ok s →
      Step G K c ⟨.lost, g, k⟩ ⟨.resting s, g, K.clear k⟩
  | enter (v : View) {s : Streamer} {g : γ} {k : σ} :
      Step G K c ⟨.resting s, g, k⟩ ⟨.passing v (.begun s), g, k⟩
  | pass {v : View} {p : Pass} {o : Option Pass} {g g' : γ} {k k' : σ} :
      p.step G K v g k = (o, g', k') →
      Step G K c ⟨.passing v p, g, k⟩ ⟨.ofPass v o, g', k'⟩
  | leave {v : View} {s : Streamer} {changed : Bool} {g : γ} {k : σ} :
      Step G K c ⟨.passing v (.ended s changed), g, k⟩ ⟨.resting s, g, k⟩
  | drop {s : Streamer} {g : γ} {k : σ} : Step G K c ⟨.resting s, g, k⟩ ⟨.lost, g, k⟩

/-- Nothing happens to the streamer, or one step does. -/
def Move (G : Generator γ) (K : Sink σ) (c : Config) : Course γ σ → Course γ σ → Prop :=
  Relation.ReflGen (Step G K c)

/-- Any number of steps. -/
def Run (G : Generator γ) (K : Sink σ) (c : Config) : Course γ σ → Course γ σ → Prop :=
  Relation.ReflTransGen (Step G K c)

/-- What holds at the start and survives every step holds all along. -/
theorem Run.invariant {P : Course γ σ → Prop} {x y : Course γ σ} (h : Run G K c x y) (hx : P x)
    (hstep : ∀ {a b}, Step G K c a b → P a → P b) : P y := by
  induction h with
  | refl => exact hx
  | tail _ hab ih => exact hstep hab ih

end Course

end VoxelStream
