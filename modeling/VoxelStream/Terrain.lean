import VoxelStream.Decimal.Layout
import VoxelStream.Geometry.Chunk
import VoxelStream.Noise.Fractal
import VoxelStream.Voxel.Surface

/-!
# Generators and terrain

A generator makes the chunk of a node. It should always make the same one, and the one of that very
node, but it may also give up or hand out a chunk of another node. It is a state machine, so that
its calls can be counted and its faults can depend on what came before.

The generator there is turns a height field into voxels: a voxel is solid when its sample lies below
the surface of its column. Coarse cells sample the same field at wider spacing, so that all levels
of detail agree on the silhouette. Which numbers samples are made of is left open (`Scale`), and so
is the height field (`columnGrid`): what is said of the columns holds for any of both.
-/

namespace VoxelStream

/-- A source of chunks with a state of its own. -/
structure Generator (γ : Type) where
  generate : Node → γ → Checked Chunk × γ

/-- Numbers in which samples are placed and compared. -/
structure Scale (α : Type) where
  ofInt : Int32 → α
  half : α
  add : α → α → α
  mul : α → α → α
  below : α → α → Bool

namespace Scale

variable {α : Type}

/-- Samples in single precision. -/
def float32 : Scale Float32 := ⟨Word.toFloat32, 0.5, (· + ·), (· * ·), fun a b => a < b⟩

/-- Where sample `i` of a cell lies on an axis, if the cell starts at `origin` chunks and is `edge`
chunks long: in the middle of the `i`-th of sixteen equal parts. -/
def sample (s : Scale α) (origin edge : Int32) (i : Fin 16) : α :=
  s.add (s.mul (s.ofInt origin) (s.ofInt 16))
    (s.mul (s.add (s.ofInt (.ofNat i)) s.half) (s.ofInt edge))

/-- The voxels of a cell under a height field: those whose sample is below the height of their
column. The columns are looked up row by row. -/
def columnGrid (s : Scale α) (height : α → α → Checked α) (n : Node) : Checked Grid := do
  let edge ← n.size
  let heights : Vector α 256 ← Vector.ofFnM fun column =>
    height (s.sample n.origin.x edge ⟨column % 16, by omega⟩)
      (s.sample n.origin.z edge ⟨column / 16, by omega⟩)
  return .ofFn fun v =>
    s.below (s.sample n.origin.y edge v.y) (heights.get ⟨v.x + 16 * v.z, by omega⟩)

end Scale

/-- What shapes a terrain: the seed of its noise, and in voxels the mean height of the surface, the
greatest deviation from it, and the horizontal size of its features. -/
structure TerrainSettings where
  seed : UInt64 := 0
  baseHeight : Float32 := -8
  amplitude : Float32 := 12
  scale : Float32 := 96
deriving DecidableEq

/-- The settings as a line of text. -/
def TerrainSettings.description (s : TerrainSettings) : String :=
  let number := Decimal.descriptiveLayout.text
  s!"TerrainSettings \x7b seed: {s.seed.toNat}, base_height: {number s.baseHeight}, " ++
    s!"amplitude: {number s.amplitude}, scale: {number s.scale} \x7d"

/-- Mixes the bits of a seed, so that neighbouring seeds give unrelated words. -/
def mixSeed (seed : UInt64) : UInt64 :=
  let z := seed + 0x9e3779b97f4a7c15
  let z := (z ^^^ (z >>> 30)) * 0xbf58476d1ce4e5b9
  let z := (z ^^^ (z >>> 27)) * 0x94d049bb133111eb
  z ^^^ (z >>> 31)

/-- Seeded terrain over layered noise. -/
structure Terrain where
  settings : TerrainSettings
  noise : Noise.Fractal

namespace Terrain

/-- The terrain of some settings. -/
def ofSettings (settings : TerrainSettings) : Checked Terrain := do
  let seed := (mixSeed settings.seed).toUInt32
  return ⟨settings, ← Noise.Fractal.ofSeed seed (1 / settings.scale.toFloat)⟩

/-- The terrain as a line of text: its settings, and that there is more to it. -/
def description (t : Terrain) : String :=
  s!"TerrainGenerator \x7b settings: {t.settings.description}, .. \x7d"

/-- The height of the surface at a position in voxels. -/
def heightAt (t : Terrain) (x z : Float32) : Checked Float32 := do
  let n ← t.noise.value x.toFloat z.toFloat
  return t.settings.baseHeight + t.settings.amplitude * narrow (Noise.clamp (-1) 1 n)

/-- The voxels of a cell. -/
def voxels (t : Terrain) (n : Node) : Checked Grid := Scale.float32.columnGrid t.heightAt n

/-- The chunk of a cell. -/
def chunk (t : Terrain) (n : Node) : Checked Chunk := do
  return ⟨n, (← t.voxels n).geometry⟩

/-- Terrain as a generator; it has no state. -/
def generator (t : Terrain) : Generator Unit := ⟨fun n s => (t.chunk n, s)⟩

end Terrain
end VoxelStream
