import VoxelStream.Render.Painter
import VoxelStream.Render.Retained

/-!
# Frames

A frame draws the retained set from the coarsest level to the finest. The material of a level is
bound once, just before its first draw, and not at all if there is none. A filter may keep chunks
out. A draw that the painter refuses is counted and the frame goes on. Frames are defined on lists
of levels, so that the order of the chunks of a level, which nobody relies on, is open.
-/

namespace VoxelStream

/-- Which chunks of the retained set are drawn. -/
inductive ChunkFilter where
  | all
  /-- Those that span a horizontal layer, counted from the referential. -/
  | layer (y : Int32)
deriving DecidableEq, Repr, Inhabited

/-- Whether a chunk of the given size passes that starts at `relative`, counted from the
referential. Its upper end is not looked at if it starts above the layer. -/
def ChunkFilter.passes (filter : ChunkFilter) (relative : Coord) (size : Int32) : Checked Bool :=
  match filter with
  | .all => .ok true
  | .layer y => do
    if y < relative.y then return false
    else return y < (← Word.add relative.y size)

/-- The place of a chunk in a frame: first scaled by its size, then moved by its offset from the
referential, in voxels. -/
def modelMatrix (relative : Coord) (size : Int32) : Matrix :=
  Matrix.translation (relative.toVec3 * Float32.ofNat chunkEdge) *
    Matrix.scaling (.splat (Word.toFloat32 size))

/-- What became of the chunks of a frame. -/
structure FrameStats where
  /-- Materials bound. -/
  binds : Nat := 0
  /-- Chunks drawn. -/
  draws : Nat := 0
  /-- Chunks that the filter kept out. -/
  filtered : Nat := 0
  /-- Chunks without triangles. -/
  empty : Nat := 0
  /-- Draws that the painter refused. -/
  failed : Nat := 0
deriving DecidableEq, Repr

/-- What a frame has to know and what it has done so far. -/
structure Frame (π : Type) where
  stats : FrameStats
  painter : π

namespace Frame

variable {π : Type}

/-- Asks for one draw and counts it. -/
def submit (P : Painter π) (f : Frame π) (geometry : Geometry) (model : Matrix) : Frame π :=
  match P.draw geometry model f.painter with
  | (.ok (), painter) => ⟨{ f.stats with draws := f.stats.draws + 1 }, painter⟩
  | (.error _, painter) => ⟨{ f.stats with failed := f.stats.failed + 1 }, painter⟩

/-- Binds the material of a level unless it is bound already. -/
def bindOnce (P : Painter π) (lod : UInt32) (bound : Bool) (f : Frame π) : Frame π :=
  if bound then f
  else ⟨{ f.stats with binds := f.stats.binds + 1 }, P.bind lod f.painter⟩

/-- Draws the chunks of a level; `bound` says whether its material is bound. -/
def drawLevel (P : Painter π) (filter : ChunkFilter) (referential : Coord) (lod : UInt32) :
    Bool → Frame π → List Chunk → Checked (Frame π)
  | _, f, [] => .ok f
  | bound, f, c :: rest => do
    let relative ← c.origin.sub referential
    let size ← c.size
    if !(← filter.passes relative size) then
      drawLevel P filter referential lod bound
        { f with stats.filtered := f.stats.filtered + 1 } rest
    else if c.geometry.isEmpty then
      drawLevel P filter referential lod bound { f with stats.empty := f.stats.empty + 1 } rest
    else
      drawLevel P filter referential lod true
        ((f.bindOnce P lod bound).submit P c.geometry (modelMatrix relative size)) rest

/-- Draws levels in the order given. -/
def drawLevels (P : Painter π) (filter : ChunkFilter) (referential : Coord) :
    Frame π → List (UInt32 × List Chunk) → Checked (Frame π)
  | f, [] => .ok f
  | f, (lod, chunks) :: rest => do
    drawLevels P filter referential (← drawLevel P filter referential lod false f chunks) rest

end Frame

/-- Draws the retained set as seen from a referential. -/
def Retained.render {π : Type} (r : Retained) (P : Painter π) (filter : ChunkFilter)
    (referential : Coord) (painter : π) : Checked (Frame π) :=
  Frame.drawLevels P filter referential ⟨{}, painter⟩ r.levels.reverse

end VoxelStream
