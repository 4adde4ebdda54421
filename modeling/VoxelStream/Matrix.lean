import VoxelStream.Vec3

/-!
# Transforms

Four-by-four matrices by columns. A product applies its left factor to each column of the right
one, adding the four terms from left to right.
-/

namespace VoxelStream

/-- A column of a matrix. -/
structure Vec4 where
  x : Float32
  y : Float32
  z : Float32
  w : Float32
deriving DecidableEq, Inhabited

namespace Vec4

def add (a b : Vec4) : Vec4 := ⟨a.x + b.x, a.y + b.y, a.z + b.z, a.w + b.w⟩

def scale (a : Vec4) (s : Float32) : Vec4 := ⟨a.x * s, a.y * s, a.z * s, a.w * s⟩

instance : Add Vec4 := ⟨add⟩
instance : HMul Vec4 Float32 Vec4 := ⟨scale⟩

def toList (a : Vec4) : List Float32 := [a.x, a.y, a.z, a.w]

end Vec4

/-- A transform, one field a column. -/
structure Matrix where
  x : Vec4
  y : Vec4
  z : Vec4
  w : Vec4
deriving DecidableEq, Inhabited

namespace Matrix

def identity : Matrix := ⟨⟨1, 0, 0, 0⟩, ⟨0, 1, 0, 0⟩, ⟨0, 0, 1, 0⟩, ⟨0, 0, 0, 1⟩⟩

/-- The transform that adds `v`. -/
def translation (v : Vec3) : Matrix :=
  ⟨⟨1, 0, 0, 0⟩, ⟨0, 1, 0, 0⟩, ⟨0, 0, 1, 0⟩, ⟨v.x, v.y, v.z, 1⟩⟩

/-- The transform that stretches each axis by the component of `v`. -/
def scaling (v : Vec3) : Matrix :=
  ⟨⟨v.x, 0, 0, 0⟩, ⟨0, v.y, 0, 0⟩, ⟨0, 0, v.z, 0⟩, ⟨0, 0, 0, 1⟩⟩

/-- The image of a column. -/
def apply (m : Matrix) (c : Vec4) : Vec4 := m.x * c.x + m.y * c.y + m.z * c.z + m.w * c.w

/-- First `b`, then `a`. -/
def mul (a b : Matrix) : Matrix := ⟨a.apply b.x, a.apply b.y, a.apply b.z, a.apply b.w⟩

instance : Mul Matrix := ⟨mul⟩

/-- The sixteen entries, column by column. -/
def toList (m : Matrix) : List Float32 := m.x.toList ++ m.y.toList ++ m.z.toList ++ m.w.toList

end Matrix
end VoxelStream
