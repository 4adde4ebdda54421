import VoxelStream.Geometry.Vertex
import VoxelStream.Octree.Node

/-!
# Chunks

A chunk is the geometry of a node. It never changes.
-/

namespace VoxelStream

/-- The geometry of a cell. -/
structure Chunk where
  node : Node
  geometry : Geometry
deriving DecidableEq, Inhabited

namespace Chunk

/-- The least corner of the chunk's cell. -/
def origin (c : Chunk) : Coord := c.node.origin

/-- The level of detail, which is the level of the cell. -/
def lod (c : Chunk) : UInt32 := c.node.level

/-- The edge length in chunk widths. -/
def size (c : Chunk) : Checked Int32 := c.node.size

end Chunk
end VoxelStream
