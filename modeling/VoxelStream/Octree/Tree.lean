import VoxelStream.Octree.Node

/-!
# The octree of the world

A tree is only its depth: a root cube centred on the world's origin. The depth is bounded, so the
sizes of all cells are words with room to spare.
-/

namespace VoxelStream

/-- The deepest tree there is. -/
def maxRootLevel : UInt32 := 24

/-- Why there is no tree of a given depth. -/
inductive TreeError where
  | invalidRootLevel (level : UInt32)
deriving DecidableEq, Repr

/-- What the error says to a user. -/
def TreeError.message : TreeError → String
  | .invalidRootLevel level =>
    s!"invalid root level {level.toNat}: must be in 1..={maxRootLevel.toNat}"

/-- The depth of an octree. -/
structure Tree where
  rootLevel : UInt32
  rootLevel_pos : 1 ≤ rootLevel
  rootLevel_le : rootLevel ≤ maxRootLevel
deriving DecidableEq

namespace Tree

/-- The tree of a given depth, if there is one. -/
def ofLevel (level : UInt32) : Except TreeError Tree :=
  if h : 1 ≤ level ∧ level ≤ maxRootLevel then .ok ⟨level, h.1, h.2⟩
  else .error (.invalidRootLevel level)

/-- The cube of `2 ^ rootLevel` chunks an edge around the origin. -/
def root (t : Tree) : Node := ⟨.splat (-(1 <<< (t.rootLevel - 1).toInt32)), t.rootLevel⟩

end Tree
end VoxelStream
