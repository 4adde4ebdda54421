import VoxelStream.Fault
import VoxelStream.Vec3

/-!
# View volumes

A view volume is what lies on the inner side of six planes. `Lens` holds the projection, which is
fixed; `Frustum.look` lays the planes for a position and an orientation. The sphere test is
conservative: it fails only for a sphere that lies wholly outside one of the planes.
-/

namespace VoxelStream

/-- A plane by its inward unit normal `n` and the offset `d`: the inner side is `n · p + d ≥ 0`. -/
structure Plane where
  normal : Vec3
  offset : Float32
deriving DecidableEq, Inhabited

namespace Plane

/-- The plane through `point` that faces along `direction`. -/
def through (direction point : Vec3) : Plane :=
  let n := direction.normalize
  ⟨n, -(n.dot point)⟩

/-- The signed distance of a point, positive on the inner side. -/
def distance (plane : Plane) (p : Vec3) : Float32 := plane.normal.dot p + plane.offset

end Plane

/-- A perspective projection: the vertical field of view in radians, the ratio of width to height,
and the distances of the near and far planes. -/
structure Lens where
  fovY : Float32
  ratio : Float32
  near : Float32
  far : Float32
deriving DecidableEq, Inhabited

/-- The tangent of half the vertical field of view: half the height of what is seen at distance one.
That of a zero is the zero itself; any other is rounded as the platform rounds it, which need not be
to the nearest float. -/
def Lens.rise (lens : Lens) : Float32 :=
  let angle := lens.fovY * 0.5
  if angle == 0 then angle else angle.tan

/-- A view volume. -/
structure Frustum where
  lens : Lens
  left : Plane
  right : Plane
  bottom : Plane
  top : Plane
  nearest : Plane
  farthest : Plane
deriving DecidableEq, Inhabited

namespace Frustum

/-- The volume of `lens` at `position`, facing `front`. The true upward direction is derived from
`up`, which need only not be parallel to `front`. -/
def look (lens : Lens) (position front up : Vec3) : Frustum :=
  let front := front.normalize
  let right := (front.cross up).normalize
  let up := right.cross front
  let rise := lens.rise
  let run := rise * lens.ratio
  { lens
    left := .through ((front - right * run).cross up) position
    right := .through (up.cross (front + right * run)) position
    bottom := .through (right.cross (front - up * rise)) position
    top := .through ((front + up * rise).cross right) position
    nearest := .through front (position + front * lens.near)
    farthest := .through (-front) (position + front * lens.far) }

/-- The volume of `lens` at the origin, facing down the z axis. -/
def initial (lens : Lens) : Frustum := look lens .zero .ahead .upward

/-- The planes by their numbers. -/
def planes (f : Frustum) : List Plane :=
  [f.left, f.right, f.bottom, f.top, f.nearest, f.farthest]

/-- The signed distance of a point from plane number `i`. -/
def distance (f : Frustum) (i : Nat) (p : Vec3) : Checked Float32 :=
  match f.planes[i]? with
  | some plane => .ok (plane.distance p)
  | none => .error .index

/-- The point lies on the inner side of every plane. -/
def contains (f : Frustum) (p : Vec3) : Bool := f.planes.all fun plane => 0 ≤ plane.distance p

/-- No plane has the whole sphere on its outer side; a sphere that touches a plane counts as in. -/
def intersects (f : Frustum) (s : Sphere) : Bool :=
  f.planes.all fun plane => -s.radius ≤ plane.distance s.center

end Frustum
end VoxelStream
