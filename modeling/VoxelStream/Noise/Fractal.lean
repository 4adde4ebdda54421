import VoxelStream.Noise.Gradient

/-!
# Layered noise

Three layers of gradient noise, each of about twice the frequency and half the strength of the one
before, scaled so that their strengths add up to one.
-/

namespace VoxelStream.Noise

/-- Layers of noise at a base frequency. -/
structure Fractal where
  layers : List Table
  frequency : Float

namespace Fractal

/-- The ratio of the frequencies of neighbouring layers: two thirds of a half turn. -/
def lacunarity : Float := Float.ofBits 0x400921fb54442d18 * 2 / 3

/-- The ratio of the strengths of neighbouring layers. -/
def persistence : Float := 0.5

/-- One over the sum of the strengths of three layers. -/
def scaleFactor : Float := 1 / (0.5 + 0.25 + 0.125)

/-- The noise of a seed. Six seeds in a row have to be words, though only three are used. -/
def ofSeed (seed : UInt32) (frequency : Float) : Checked Fractal :=
  if seed.toNat + 5 < UInt32.size then .ok ⟨[seed, seed + 1, seed + 2].map .ofSeed, frequency⟩
  else .error .overflow

/-- Adds the layers at a point to `total`, the first with the strength `strength`. -/
def sum (x y strength total : Float) : List Table → Checked Float
  | [] => .ok total
  | table :: rest => do
    let v ← plane table x y
    sum (x * lacunarity) (y * lacunarity) (strength * persistence) (total + v * strength) rest

/-- The noise at a point. -/
def value (f : Fractal) (x y : Float) : Checked Float := do
  return (← sum (x * f.frequency) (y * f.frequency) persistence 0 f.layers) * scaleFactor

end Fractal
end VoxelStream.Noise
