import VoxelStream.Geometry.Mesh
import VoxelStream.Vec3

/-!
# Geometry

What is drawn of a chunk is a mesh over vertices, and both of its tables go to buffers of bytes. A
vertex holds its floats by their bits: as a value a NaN is like any other, but a buffer takes each
as it is.
-/

namespace VoxelStream

/-- A vector by the bits of its components. -/
structure Vec3.Bits where
  x : UInt32
  y : UInt32
  z : UInt32
deriving DecidableEq, Inhabited

/-- The bits of a vector. -/
def Vec3.bits (v : Vec3) : Vec3.Bits := ⟨v.x.toBits, v.y.toBits, v.z.toBits⟩

/-- A corner of a triangle as it is drawn. -/
structure Vertex where
  position : Vec3.Bits
  normal : Vec3.Bits
deriving DecidableEq, Inhabited

/-- The words of a vertex, position first. -/
def Vertex.words (v : Vertex) : List UInt32 :=
  [v.position.x, v.position.y, v.position.z, v.normal.x, v.normal.y, v.normal.z]

/-- What is drawn of one chunk, in voxel units. -/
abbrev Geometry : Type := Mesh Vertex

/-- The bytes of a word, the least significant first. -/
def littleEndian (w : UInt32) : List UInt8 :=
  [w.toUInt8, (w >>> 8).toUInt8, (w >>> 16).toUInt8, (w >>> 24).toUInt8]

namespace Geometry

/-- Appends the bytes of a word. -/
def pushWord (bytes : ByteArray) (w : UInt32) : ByteArray :=
  (littleEndian w).foldl ByteArray.push bytes

/-- The table of vertices as a vertex buffer takes it. -/
def vertexBytes (g : Geometry) : ByteArray :=
  g.vertices.foldl (fun bytes v => v.words.foldl pushWord bytes) .empty

/-- The indices as an index buffer takes them. -/
def indexBytes (g : Geometry) : ByteArray := g.indices.foldl pushWord .empty

end Geometry
end VoxelStream
