/-!
# A small generator of random words

Four words of state, shifted and combined at each draw. `Xorshift.below` draws a number below a
bound without bias, by drawing again when a word falls into the part of the range that does not
divide evenly.
-/

namespace VoxelStream

/-- The last four words drawn, the latest one in `w`. -/
structure Xorshift where
  x : UInt32
  y : UInt32
  z : UInt32
  w : UInt32
deriving DecidableEq, Repr

namespace Xorshift

/-- The state that a seed stands for. -/
def ofSeed (seed : UInt32) : Xorshift := ⟨1, seed, seed, seed⟩

/-- The state after the next draw, which is its last word. -/
def next (g : Xorshift) : Xorshift :=
  let t := g.x ^^^ (g.x <<< 11)
  ⟨g.y, g.z, g.w, g.w ^^^ (g.w >>> 19) ^^^ t ^^^ (t >>> 8)⟩

/-- The greatest low half of a product that is taken when a number below `bound` is drawn. -/
def zone (bound : UInt32) : UInt32 := (bound <<< (31 - bound.log2)) - 1

/-- Draws until a word is taken, or until the attempts are used up, and then the last word. The
number is the high half of the word times the bound. -/
def draw (bound : UInt32) : Nat → Xorshift → UInt32 × Xorshift
  | 0, g => (((g.w.toUInt64 * bound.toUInt64) >>> 32).toUInt32, g)
  | attempts + 1, g =>
    let g := g.next
    let product := g.w.toUInt64 * bound.toUInt64
    if product.toUInt32 ≤ zone bound then ((product >>> 32).toUInt32, g)
    else draw bound attempts g

/-- A number below a positive bound. Each word is taken with more than even odds, so the attempts
do not run out. -/
def below (g : Xorshift) (bound : UInt32) : UInt32 × Xorshift := draw bound 4096 g

end Xorshift
end VoxelStream
