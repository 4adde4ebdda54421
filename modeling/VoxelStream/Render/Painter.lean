import VoxelStream.Geometry.Vertex
import VoxelStream.Matrix

/-!
# Painters

A painter takes a material for each level of detail and draws chunks with the one bound last. It
may refuse a draw. Whoever renders knows no more of it than that: it is any state machine with
these two inputs. `Recorder` is the painter that writes down what it is asked for.
-/

namespace VoxelStream

/-- Why a painter refuses a draw. -/
inductive PaintError where
  | resourceUnavailable (what : String)
  | backend (what : String)
deriving DecidableEq, Repr

/-- What the error says to a user. -/
def PaintError.message : PaintError → String
  | .resourceUnavailable what => s!"geometry resource unavailable: {what}"
  | .backend what => s!"backend error: {what}"

/-- A state machine that draws. -/
structure Painter (π : Type) where
  /-- Binds the material of all chunks of a level of detail. -/
  bind : UInt32 → π → π
  /-- Draws a chunk's geometry under a transform. -/
  draw : Geometry → Matrix → π → Except PaintError Unit × π

/-- A draw as it was asked for. -/
structure DrawCall where
  lod : UInt32
  model : Matrix
  triangles : Nat
deriving DecidableEq

/-- What a recording painter remembers: the level bound last, all binds and all draws, in order. -/
structure Recorder where
  current : Option UInt32 := none
  binds : Array UInt32 := #[]
  draws : Array DrawCall := #[]
deriving DecidableEq

namespace Recorder

/-- Nothing is remembered, as at the start of a frame. -/
def empty : Recorder := {}

/-- Forgets everything. -/
def clear (r : Recorder) : Recorder := { r with current := none, binds := #[], draws := #[] }

def bind (r : Recorder) (lod : UInt32) : Recorder :=
  { r with current := some lod, binds := r.binds.push lod }

/-- Records a draw. There must have been a bind. -/
def draw (r : Recorder) (geometry : Geometry) (model : Matrix) :
    Except PaintError Unit × Recorder :=
  match r.current with
  | none => (.error (.backend "draw before material bind"), r)
  | some lod => (.ok (), { r with draws := r.draws.push ⟨lod, model, geometry.triangleCount⟩ })

/-- The recorder as a painter. -/
def painter : Painter Recorder := ⟨fun lod r => r.bind lod, fun g m r => r.draw g m⟩

/-- The number of draws of a level. -/
def countOf (r : Recorder) (lod : UInt32) : Nat := r.draws.countP (·.lod == lod)

/-- The number of triangles drawn. -/
def triangles (r : Recorder) : Nat := r.draws.foldl (fun n d => n + d.triangles) 0

/-- The lines of the summary: the totals, then the number of draws for each bind. -/
def summaryLines (r : Recorder) : List String :=
  s!"binds={r.binds.size} draws={r.draws.size} triangles={r.triangles}" ::
    r.binds.toList.map fun lod => s!"  lod {lod.toNat}: {r.countOf lod} chunks"

/-- The summary as a text of lines. -/
def summary (r : Recorder) : String := .join (r.summaryLines.map (· ++ "\n"))

end Recorder
end VoxelStream
