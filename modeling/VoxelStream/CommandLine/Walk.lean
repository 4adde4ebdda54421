import VoxelStream.CommandLine.Command
import VoxelStream.Render.Frame
import VoxelStream.Stream.World
import VoxelStream.Terrain

/-!
# Walks

A walk streams terrain while the camera goes forward, a step for each frame, and draws every frame
from scratch. A frame is drawn at once, with what is retained when the camera arrives; the worker
catches up before the next one.
-/

namespace VoxelStream.CommandLine

/-- Why a walk has no end: it was refused, or a fault cut it short. -/
inductive WalkError where
  | stream (e : StreamError)
  | fault (f : Fault)
deriving DecidableEq

/-- What there is between two frames of a walk. -/
structure Walk where
  world : World Unit Retained
  camera : Camera
  /-- What was drawn for the last frame. -/
  recorder : Recorder := .empty

namespace Walk

/-- The camera that a walk starts with; it sees as far as chunks are streamed. -/
def startCamera (c : Config) : Camera :=
  { Camera.lookingAt ⟨0.5, 0.5, 0.5⟩ ⟨0.5, 0, -10⟩ with far := c.maxRadius }

/-- A walk before its first frame. -/
def start (t : Terrain) (c : Config) : Except WalkError Walk :=
  match World.ofConfig c () .empty with
  | .error e => .error (.stream e)
  | .ok world =>
    let camera := startCamera c
    match world.start t.generator Retained.sink (.ofCamera camera) with
    | (.ok (), world) => .ok { world, camera }
    | (.error (.stream e), _) => .error (.stream e)
    | (.error (.fault f), _) => .error (.fault f)

/-- A step, and the frame after it. -/
def step (t : Terrain) (filter : ChunkFilter) (speed : Float32) (w : Walk) : Checked Walk := do
  let camera := w.camera.advance speed
  let frame ← w.world.sink.render Recorder.painter filter camera.referential .empty
  return ⟨w.world.update t.generator Retained.sink (.ofCamera camera), camera, frame.painter⟩

/-- A number of steps. -/
def steps (t : Terrain) (filter : ChunkFilter) (speed : Float32) : Nat → Walk → Checked Walk
  | 0, w => .ok w
  | n + 1, w => do steps t filter speed n (← w.step t filter speed)

/-- The walk that the options ask for. -/
def ofOptions (c : Config) (o : RunOptions) : Except WalkError Walk := do
  let t ← (Terrain.ofSettings { seed := o.seed }).mapError .fault
  let filter := match o.layer with
    | some y => ChunkFilter.layer y
    | none => .all
  ((← start t c).steps t filter o.speed o.frames.toNat).mapError .fault

end Walk
end VoxelStream.CommandLine
