import VoxelStream.Coord
import VoxelStream.Frustum

/-!
# Cameras

A camera is a plain description of a view. Positions are in chunk units. The camera moves only by
its owner's hand: everything here reads a copy.
-/

namespace VoxelStream

/-- A view of the world. -/
structure Camera where
  position : Vec3 := .zero
  front : Vec3 := .ahead
  up : Vec3 := .upward
  /-- The vertical field of view in radians, a quarter of a half turn unless said otherwise. -/
  fovY : Float32 := Float32.ofBits 0x3f490fdb
  ratio : Float32 := 4 / 3
  near : Float32 := 0.005
  far : Float32 := 30
deriving DecidableEq, Inhabited

namespace Camera

/-- The standard camera, moved to `position` and turned towards `target`. -/
def lookingAt (position target : Vec3) : Camera :=
  { position, front := (target - position).normalize }

def lens (c : Camera) : Lens := ⟨c.fovY, c.ratio, c.near, c.far⟩

/-- What the camera sees. -/
def frustum (c : Camera) : Frustum := .look c.lens c.position c.front c.up

/-- The chunk that the camera is in. -/
def referential (c : Camera) : Coord := .ofPosition c.position

/-- The camera moved by `v`. -/
def move (c : Camera) (v : Vec3) : Camera := { c with position := c.position + v }

/-- The camera moved along its front by `s`. -/
def advance (c : Camera) (s : Float32) : Camera := c.move (c.front * s)

/-- All parts compare equal as floats; a camera with a NaN is the same as no camera. -/
def same (a b : Camera) : Bool :=
  a.position.same b.position && a.front.same b.front && a.up.same b.up && a.fovY == b.fovY &&
    a.ratio == b.ratio && a.near == b.near && a.far == b.far

end Camera
end VoxelStream
