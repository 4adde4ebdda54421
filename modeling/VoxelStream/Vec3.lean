/-!
# Vectors and balls

Vectors of three single-precision floats. Every operation fixes the order in which its parts are
rounded, since a result is compared bit by bit: no reassociation, no fused product and sum. Balls
are the bounding volumes that visibility tests are made on.
-/

namespace VoxelStream

/-- A point or a direction in space. -/
structure Vec3 where
  x : Float32
  y : Float32
  z : Float32
deriving DecidableEq, Inhabited

namespace Vec3

/-- The vector with one value on all three axes. -/
def splat (v : Float32) : Vec3 := ⟨v, v, v⟩

def zero : Vec3 := splat 0

/-- The direction in which a view faces at first: down the z axis. Its zeros are positive, unlike
those of a negated unit vector. -/
def ahead : Vec3 := ⟨0, 0, -1⟩

/-- The direction that is up at first. -/
def upward : Vec3 := ⟨0, 1, 0⟩

def add (a b : Vec3) : Vec3 := ⟨a.x + b.x, a.y + b.y, a.z + b.z⟩

def sub (a b : Vec3) : Vec3 := ⟨a.x - b.x, a.y - b.y, a.z - b.z⟩

def neg (a : Vec3) : Vec3 := ⟨-a.x, -a.y, -a.z⟩

/-- Each component times `s`. -/
def scale (a : Vec3) (s : Float32) : Vec3 := ⟨a.x * s, a.y * s, a.z * s⟩

instance : Add Vec3 := ⟨add⟩
instance : Sub Vec3 := ⟨sub⟩
instance : Neg Vec3 := ⟨neg⟩
instance : HMul Vec3 Float32 Vec3 := ⟨scale⟩

def dot (a b : Vec3) : Float32 := a.x * b.x + a.y * b.y + a.z * b.z

def cross (a b : Vec3) : Vec3 :=
  ⟨a.y * b.z - b.y * a.z, a.z * b.x - b.z * a.x, a.x * b.y - b.x * a.y⟩

def length (a : Vec3) : Float32 := (a.dot a).sqrt

/-- The vector times the reciprocal of its length; NaN where the length is zero. -/
def normalize (a : Vec3) : Vec3 := a * (1 / a.length)

def distance (a b : Vec3) : Float32 := (a - b).length

/-- Component by component the comparison of floats: zeros of both signs agree, a NaN agrees with
nothing. -/
def same (a b : Vec3) : Bool := a.x == b.x && a.y == b.y && a.z == b.z

end Vec3

/-- A ball in chunk units. -/
structure Sphere where
  center : Vec3
  radius : Float32
deriving DecidableEq, Inhabited

end VoxelStream
