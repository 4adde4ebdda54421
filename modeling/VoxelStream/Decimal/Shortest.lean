/-!
# The shortest decimal of a float

Every finite float is the nearest one to a whole interval of numbers. Its shortest decimal is the
point of that interval on the coarsest decimal grid that has one; of two points on that grid it is
the nearer. If a grid has any point in the interval, then one of the two around the float is in it,
so only those are looked at. All arithmetic is on natural numbers and exact.
-/

namespace VoxelStream.Decimal

/-- Which of two points that are equally near is taken. -/
inductive Tie where
  /-- The one with the even last digit. -/
  | even
  /-- The greater one. -/
  | up
deriving DecidableEq, Repr

/-- The positive number `mantissa * 2 ^ exponent` among its neighbours: the next greater float is
one unit of the mantissa away, the next smaller one too, or half a unit if `narrow`. -/
structure Magnitude where
  mantissa : Nat
  exponent : Int
  narrow : Bool
deriving DecidableEq, Repr

namespace Magnitude

/-- The magnitude of a finite float, without its sign. -/
def ofFloat32 (x : Float32) : Magnitude :=
  let bits := x.toBits.toNat
  let field : Nat := bits / 0x800000 % 0x100
  let fraction : Nat := bits % 0x800000
  if field = 0 then ⟨fraction, -149, false⟩
  else ⟨0x800000 + fraction, (field : Int) - 150, fraction == 0 && field != 1⟩

/-- The power of a base as a numerator and a denominator. -/
def power (base : Nat) (e : Int) : Nat × Nat :=
  if 0 ≤ e then (base.pow e.toNat, 1) else (1, base.pow (-e).toNat)

/-- The point of the grid of multiples of `10 ^ k` that stands for the magnitude, as a multiple, if
the grid has one. Lengths are in quarters of a unit of the mantissa. -/
def onGrid (v : Magnitude) (tie : Tie) (k : Int) : Option Nat :=
  let (ten, tenth) := power 10 k
  let (two, half) := power 2 (v.exponent - 2)
  let step := ten * half
  let unit := two * tenth
  let centre := 4 * v.mantissa * unit
  let low := (4 * v.mantissa - if v.narrow then 1 else 2) * unit
  let high := (4 * v.mantissa + 2) * unit
  let inside (d : Nat) : Bool :=
    if v.mantissa % 2 = 0 then low ≤ d * step && d * step ≤ high
    else low < d * step && d * step < high
  let below := centre / step
  match inside below, inside (below + 1) with
  | false, false => none
  | true, false => some below
  | false, true => some (below + 1)
  | true, true =>
    let past := centre - below * step
    let left := (below + 1) * step - centre
    if past < left then some below
    else if left < past then some (below + 1)
    else match tie with
      | .up => some (below + 1)
      | .even => some (below + below % 2)

/-- The multiple and the exponent of the first of the grids from `10 ^ k` down that has a point for
the magnitude. -/
def search (v : Magnitude) (tie : Tie) : Nat → Int → Nat × Int
  | 0, k => (0, k)
  | grids + 1, k =>
    match v.onGrid tie k with
    | some d => (d, k)
    | none => search v tie grids (k - 1)

/-- The shortest decimal, as digits and the power of ten of the last one. Single-precision floats
lie below `10 ^ 39`, and their shortest decimals end above `10 ^ -50`. -/
def shortest (v : Magnitude) (tie : Tie) : Nat × Int := v.search tie 90 39

end Magnitude
end VoxelStream.Decimal
