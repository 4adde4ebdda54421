/-!
# Triangle meshes

A mesh is a table of vertices and a list of indices into it, three a triangle. The table may hold
anything: integer corners, for which sums can be taken exactly, or vertices ready to draw.
-/

namespace VoxelStream

/-- A flat piece of surface with four corners in order around it. -/
structure Quad (α : Type) where
  a : α
  b : α
  c : α
  d : α
deriving DecidableEq, Repr

namespace Quad

def toList {α : Type} (q : Quad α) : List α := [q.a, q.b, q.c, q.d]

def map {α β : Type} (f : α → β) (q : Quad α) : Quad β := ⟨f q.a, f q.b, f q.c, f q.d⟩

end Quad

/-- Triangles over a table of vertices. -/
structure Mesh (α : Type) where
  vertices : Array α
  indices : Array UInt32
deriving DecidableEq, Inhabited

namespace Mesh

variable {α β : Type}

def empty : Mesh α := ⟨#[], #[]⟩

/-- There is nothing to draw. -/
def isEmpty (m : Mesh α) : Bool := m.indices.isEmpty

/-- The number of whole triangles. -/
def triangleCount (m : Mesh α) : Nat := m.indices.size / 3

/-- The same triangles over other vertices. -/
def map (f : α → β) (m : Mesh α) : Mesh β := ⟨m.vertices.map f, m.indices⟩

/-- Adds the corners of a quad to the table and its two triangles, which share the first and the
third corner, to the list. -/
def addQuad (m : Mesh α) (q : Quad α) : Mesh α :=
  let start := m.vertices.size.toUInt32
  ⟨m.vertices.push q.a |>.push q.b |>.push q.c |>.push q.d,
    m.indices.push start |>.push (start + 1) |>.push (start + 2)
      |>.push start |>.push (start + 2) |>.push (start + 3)⟩

/-- The mesh of some quads, in their order. -/
def ofQuads (quads : List (Quad α)) : Mesh α := quads.foldl addQuad empty

end Mesh

end VoxelStream
