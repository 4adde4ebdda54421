import Std.Data.ExtTreeSet
import VoxelStream.Octree.Node

/-!
# Sets of nodes and their differences

Sets of nodes are ordered, and two with the same members are equal. The difference of two sets is
a pair of lists in strictly increasing order: what to add to the first and what to remove from it
to get the second.
-/

namespace VoxelStream

/-- A set of nodes in increasing order. -/
abbrev NodeSet : Type := Std.ExtTreeSet Node

/-- A node that is put in is there, next to those there were. -/
theorem NodeSet.mem_insert {s : NodeSet} {m n : Node} : n ∈ s.insert m ↔ n = m ∨ n ∈ s := by
  rw [Std.ExtTreeSet.mem_insert, Std.LawfulEqCmp.compare_eq_iff_eq, eq_comm]

/-- What is not in a set is not in it after something else was inserted. -/
theorem NodeSet.not_mem_insert {s : NodeSet} {m : Node} {l : List Node} (hm : m ∉ l)
    (hl : ∀ n ∈ l, n ∉ s) : ∀ n ∈ l, n ∉ s.insert m := by
  intro n hn hi
  rcases mem_insert.1 hi with rfl | hi
  · exact hm hn
  · exact hl n hn hi

/-- The number of nodes at each level that has any, from the finest level to the coarsest. -/
def NodeSet.levelCounts (s : NodeSet) : List (UInt32 × Nat) :=
  let count (m : Std.ExtTreeMap UInt32 Nat) (n : Node) := m.insert n.level (m.getD n.level 0 + 1)
  (s.toList.foldl count ∅).toList

/-- The change from one set of nodes to another. -/
structure NodeDiff where
  toAdd : List Node
  toRemove : List Node
deriving DecidableEq, Repr

namespace NodeDiff

/-- Nothing changes. -/
def isEmpty (d : NodeDiff) : Bool := d.toAdd.isEmpty && d.toRemove.isEmpty

/-- The number of nodes that change. -/
def size (d : NodeDiff) : Nat := d.toAdd.length + d.toRemove.length

/-- The change from `previous` to `current`. -/
def between (previous current : NodeSet) : NodeDiff :=
  ⟨current.toList.filter (!previous.contains ·), previous.toList.filter (!current.contains ·)⟩

/-- To be added are the nodes that are new. -/
theorem mem_toAdd {previous current : NodeSet} {n : Node} :
    n ∈ (between previous current).toAdd ↔ n ∈ current ∧ n ∉ previous := by
  simp [between, ← Bool.not_eq_true]

/-- To be removed are the nodes that are no longer there. -/
theorem mem_toRemove {previous current : NodeSet} {n : Node} :
    n ∈ (between previous current).toRemove ↔ n ∈ previous ∧ n ∉ current := by
  simp [between, ← Bool.not_eq_true]

end NodeDiff
end VoxelStream
