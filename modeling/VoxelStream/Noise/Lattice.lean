import VoxelStream.Fault
import VoxelStream.Noise.Xorshift

/-!
# Lattice hashing

A table of the bytes in shuffled order gives each point of the integer lattice a byte that looks
random. Points are hashed by their low bytes, so the pattern repeats every 256 cells.
-/

namespace VoxelStream.Noise

/-- The bytes in some order. -/
abbrev Table : Type := Vector UInt8 256

namespace Table

/-- The bytes in their own order. -/
def sorted : Table := .ofFn fun i => i.val.toUInt8

/-- Exchanges each entry, from number `i` down to the second, with one drawn from those up to it. -/
def shuffle : Nat → Xorshift → Table → Table
  | 0, _, table => table
  | i + 1, g, table =>
    let (j, g) := g.below (i + 2).toUInt32
    shuffle i g (table.swapIfInBounds (i + 1) j.toNat)

/-- The table of a seed. -/
def ofSeed (seed : UInt32) : Table := shuffle 255 (.ofSeed seed) sorted

/-- The entry of a byte. -/
def entry (table : Table) (b : UInt8) : UInt8 := table.get ⟨b.toNat, b.toNat_lt⟩

/-- The low byte of an integer. -/
def lowByte (n : Int) : UInt8 := (n % 256).toNat.toUInt8

/-- The byte of a lattice point. -/
def hash (table : Table) (x y : Int) : UInt8 := table.entry (table.entry (lowByte x) ^^^ lowByte y)

end Table
end VoxelStream.Noise
