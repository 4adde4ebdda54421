import VoxelStream.Camera
import VoxelStream.Render.Retained
import VoxelStream.Stream.Config
import VoxelStream.Stream.Resolution

/-!
# The streamer

The streamer keeps a sink in step with a view. A pass queries the octree, resolves what came into
view, and hands the sink the difference: first what to remove, then what to add. A node without a
chunk is left out of the visible set, so that the next pass asks for it again.

A pass has two halves, and others may look at the sink between any two of its calls. The first half,
`Streamer.plan`, ends before the sink is touched; the second, `Streamer.publish`, is the two calls.
-/

namespace VoxelStream

/-- What the streamer follows: a camera, and the chunk that drawing is relative to. -/
structure View where
  camera : Camera := {}
  referential : Coord := .zero
deriving DecidableEq

namespace View

/-- The view of a camera, relative to the chunk that it is in. -/
def ofCamera (c : Camera) : View := ⟨c, c.referential⟩

/-- The cameras compare equal as floats and the referentials are equal. -/
def same (a b : View) : Bool := a.camera.same b.camera && a.referential == b.referential

end View

/-- What a streamer has done since it was made. -/
structure StreamStats where
  /-- Passes that got a query result. -/
  iterations : Nat := 0
  /-- Chunks resolved for the sink. -/
  added : Nat := 0
  /-- Chunks withdrawn from the sink. -/
  removed : Nat := 0
  /-- Nodes without a chunk and passes that were cut short. -/
  failures : Nat := 0
  /-- The size of the visible set. -/
  visible : Nat := 0
  /-- The number of chunks in the cache. -/
  cached : Nat := 0
  cache : StorageStats := {}
deriving DecidableEq, Repr

/-- What a streamer keeps from one pass to the next. -/
structure Streamer where
  tree : Tree
  query : NodeQuery
  cache : Cache
  /-- The nodes whose chunks the sink holds. -/
  visible : NodeSet := ∅
  stats : StreamStats := {}

namespace Streamer

variable {γ σ : Type}

/-- A streamer that has done nothing yet. -/
def ofConfig (c : Config) : Except ConfigError Streamer :=
  match Tree.ofLevel c.rootLevel with
  | .ok tree => .ok { tree, query := c.query, cache := .ofMaxLevel tree.rootLevel }
  | .error e => .error (.tree e)

/-- The nodes that a view shows. -/
def inView (s : Streamer) (v : View) : Checked NodeSet :=
  s.tree.query v.camera.position v.camera.frustum s.query

def countIteration (s : Streamer) : Streamer :=
  { s with stats.iterations := s.stats.iterations + 1 }

def countFailure (s : Streamer) : Streamer := { s with stats.failures := s.stats.failures + 1 }

/-- The first half of a pass: the streamer, and what there is to publish. -/
inductive Plan where
  /-- A fatal fault took the streamer along. -/
  | lost
  /-- The sink is left alone. -/
  | unchanged (s : Streamer)
  /-- The sink has something to remove and something to add, though one or both may be empty. -/
  | change (s : Streamer) (removed added : List Chunk)

/-- Takes over what came of the nodes to add. -/
def adopt (s : Streamer) (nodes : NodeSet) (removed : List Chunk) (r : Resolution) : Streamer :=
  { s with
    cache := r.cache
    visible := nodes \ r.failed
    stats := { s.stats with
      added := s.stats.added + r.chunks.size
      removed := s.stats.removed + removed.length
      failures := s.stats.failures + r.failed.size } }

/-- Finds out what a view asks to remove and to add. -/
def plan (G : Generator γ) (s : Streamer) (v : View) (g : γ) : Plan × γ :=
  match s.inView v with
  | .error f => (if f.isFatal then .lost else .unchanged s.countFailure, g)
  | .ok nodes =>
    let diff := NodeDiff.between s.visible nodes
    if diff.isEmpty then (.unchanged s.countIteration, g)
    else
      match Resolution.resolve G ⟨s.cache, #[], ∅⟩ diff.toAdd g with
      | (none, g) => (.lost, g)
      | (some r, g) =>
        let removed := diff.toRemove.filterMap r.cache.find?
        (.change (s.countIteration.adopt nodes removed r) removed r.chunks.toList, g)

/-- The figures that are taken anew when the sink has accepted a change. -/
def refresh (s : Streamer) : Streamer :=
  { s with stats := { s.stats with
      visible := s.visible.size
      cached := s.cache.size
      cache := s.cache.stats } }

/-- The end of a pass: the streamer, and whether it changed anything; or it is lost. -/
abbrev Outcome : Type := Option (Streamer × Bool)

/-- The end of a pass that was cut short. -/
def cutShort (s : Streamer) (f : Fault) : Outcome :=
  if f.isFatal then none else some (s.countFailure, false)

/-- The second half of a pass: hands the sink what to remove, then what to add. -/
def publish (K : Sink σ) (s : Streamer) (removed added : List Chunk) (k : σ) : Outcome × σ :=
  match K.remove removed k with
  | (.error f, k) => (s.cutShort f, k)
  | (.ok (), k) =>
    match K.add added k with
    | (.error f, k) => (s.cutShort f, k)
    | (.ok (), k) => (some (s.refresh, !removed.isEmpty || !added.isEmpty), k)

/-- One pass. -/
def pass (G : Generator γ) (K : Sink σ) (s : Streamer) (v : View) (g : γ) (k : σ) :
    Outcome × γ × σ :=
  match s.plan G v g with
  | (.lost, g) => (none, g, k)
  | (.unchanged s, g) => (some (s, false), g, k)
  | (.change s removed added, g) =>
    let (outcome, k) := s.publish K removed added k
    (outcome, g, k)

end Streamer
end VoxelStream
