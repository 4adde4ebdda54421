import VoxelStream.Geometry.Vertex
import VoxelStream.Voxel.Grid

/-!
# The surface of a voxel grid

The surface has one quad for every side of a solid voxel on which there is no solid voxel; what
lies outside the grid counts as empty. Corners and normals are integer points first (`surface`) and
become floats, exactly, in a last step (`geometry`). Seen from outside its voxel, each quad winds
counter-clockwise.
-/

namespace VoxelStream

inductive Axis where
  | x
  | y
  | z
deriving DecidableEq, Repr

namespace Axis

/-- The three axes in order. -/
def all : List Axis := [.x, .y, .z]

/-- The next axis, after the last one the first. -/
def next : Axis → Axis
  | .x => .y
  | .y => .z
  | .z => .x

end Axis

namespace Point

def zero : Point := ⟨0, 0, 0⟩

/-- The point `d` further along an axis. -/
def step (p : Point) (axis : Axis) (d : Int) : Point :=
  match axis with
  | .x => { p with x := p.x + d }
  | .y => { p with y := p.y + d }
  | .z => { p with z := p.z + d }

/-- The point as floats. -/
def toVec3 (p : Point) : Vec3 := ⟨.ofInt p.x, .ofInt p.y, .ofInt p.z⟩

end Point

/-- A side of a voxel: the one in the positive or the negative direction of an axis. -/
structure Face where
  voxel : Voxel
  axis : Axis
  positive : Bool
deriving DecidableEq, Repr

/-- A corner of a surface with the direction that the surface faces there. -/
structure Corner where
  position : Point
  normal : Point
deriving DecidableEq, Repr

namespace Face

/-- One step outwards along the axis. -/
def outward (f : Face) : Int := if f.positive then 1 else -1

/-- The position on the other side. -/
def neighbour (f : Face) : Point := f.voxel.toPoint.step f.axis f.outward

/-- The unit vector that points away from the voxel. -/
def normal (f : Face) : Point := Point.zero.step f.axis f.outward

/-- The axes along the face, such that the first times the second is the normal. -/
def tangents (f : Face) : Axis × Axis :=
  if f.positive then (f.axis.next, f.axis.next.next) else (f.axis.next.next, f.axis.next)

/-- The corner of the face nearest to the origin. -/
def base (f : Face) : Point :=
  if f.positive then f.voxel.toPoint.step f.axis 1 else f.voxel.toPoint

/-- The corners of the face, counter-clockwise seen from outside. -/
def quad (f : Face) : Quad Corner :=
  let (u, v) := f.tangents
  Quad.map (fun p => ⟨p, f.normal⟩)
    ⟨f.base, f.base.step u 1, (f.base.step u 1).step v 1, f.base.step v 1⟩

/-- The six sides of a voxel, axis by axis and the negative side first. -/
def around (v : Voxel) : List Face :=
  Axis.all.flatMap fun axis => [⟨v, axis, false⟩, ⟨v, axis, true⟩]

end Face

/-- The corner as a vertex to draw. -/
def Corner.toVertex (c : Corner) : Vertex := ⟨c.position.toVec3.bits, c.normal.toVec3.bits⟩

namespace Grid

/-- The sides of solid voxels that no solid voxel covers, voxel by voxel. -/
def faces (g : Grid) : List Face :=
  Voxel.all.flatMap fun v =>
    if g.get v then (Face.around v).filter fun f => !g.isSolid f.neighbour else []

/-- The surface over integer corners. -/
def surface (g : Grid) : Mesh Corner := .ofQuads (g.faces.map Face.quad)

/-- The surface to draw. -/
def geometry (g : Grid) : Geometry := g.surface.map Corner.toVertex

end Grid
end VoxelStream
