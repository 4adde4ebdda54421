import VoxelStream.Noise.Lattice

/-!
# Gradient noise

Smooth noise on the plane. Each corner of the lattice cell around a point contributes the product
of its gradient with the way to the point, and the four products are blended by a quintic curve.
The value lies in `[-1, 1]`. All arithmetic is in double precision, in the order written.
-/

namespace VoxelStream.Noise

/-- The value of an integer of at most 64 bits as a float. -/
def floatOfInt (n : Int) : Float :=
  let magnitude := n.natAbs.toUInt64.toFloat
  if n < 0 then -magnitude else magnitude

/-- The lower corner of the cell that holds a component: the whole part, less one unless the
component is positive. A component that is no 64-bit integer has no cell. -/
def cellOf (p : Float) : Checked Int :=
  if -9223372036854775808 ≤ p && p < 9223372036854775808 then
    let whole := p.toInt64.toInt
    if 0 < p then .ok whole
    else if whole = -0x8000000000000000 then .error .overflow
    else .ok (whole - 1)
  else .error .lattice

/-- The product of the gradient that a byte selects with the vector `(x, y)`. -/
def gradient (hash : UInt8) (x y : Float) : Float :=
  match hash &&& 3 with
  | 0 => x + y
  | 1 => -x + y
  | 2 => x - y
  | _ => -x - y

/-- The nearest value in `[low, high]`; a NaN stays. -/
def clamp (low high v : Float) : Float := if v < low then low else if high < v then high else v

/-- The quintic that is flat at zero and at one. -/
def blendCurve (t : Float) : Float :=
  let t := clamp 0 1 t
  t * t * t * (t * (t * 6 - 15) + 10)

/-- The value at part `t` of the way from `a` to `b`. -/
def blend (a b t : Float) : Float := b * t + a * (1 - t)

/-- The square root of two. -/
def sqrtTwo : Float := Float.ofBits 0x3ff6a09e667f3bcd

/-- The noise at a point. -/
def plane (table : Table) (x y : Float) : Checked Float := do
  let cx ← cellOf x
  let cy ← cellOf y
  let dx := x - floatOfInt cx
  let dy := y - floatOfInt cy
  let corner (ox oy : Int) : Float :=
    gradient (table.hash (cx + ox) (cy + oy)) (dx - floatOfInt ox) (dy - floatOfInt oy)
  let tx := blendCurve dx
  let ty := blendCurve dy
  let low := blend (corner 0 0) (corner 0 1) ty
  let high := blend (corner 1 0) (corner 1 1) ty
  return clamp (-1) 1 (blend low high tx * (2 / sqrtTwo))

end VoxelStream.Noise
