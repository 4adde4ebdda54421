import Mathlib
import VoxelStream.Proofs.Render.Flat

/-!
# Walks from set to set

Whoever hands a retained set the chunks of a difference takes it from the one set of nodes to the
other (`Retained.Retains.leg`): the chunks that are removed are there, the chunks that are added are
not, and no other node is touched. So a walk over any number of sets is replayed by its differences
(`Retained.Retains.walk`), whatever geometry comes with the nodes.
-/

namespace VoxelStream

/-! ## Walks -/

/-- A step of a walk: the set of nodes that it goes to, and the geometry of the chunks that are
handed over for it. -/
structure Leg where
  next : NodeSet
  /-- The geometry of the chunks to remove, which may be another one than when they were added. -/
  gone : Node → Geometry
  /-- The geometry of the chunks to add. -/
  come : Node → Geometry

namespace Leg

/-- The step to a set of nodes, with nothing to draw. -/
def bare (next : NodeSet) : Leg := ⟨next, fun _ => .empty, fun _ => .empty⟩

/-- The chunks to remove on the way from a set of nodes. -/
def removed (l : Leg) (s : NodeSet) : List Chunk :=
  (NodeDiff.between s l.next).toRemove.map fun n => ⟨n, l.gone n⟩

/-- The chunks to add on the way from a set of nodes. -/
def added (l : Leg) (s : NodeSet) : List Chunk :=
  (NodeDiff.between s l.next).toAdd.map fun n => ⟨n, l.come n⟩

/-- The calls that replay a walk from a set of nodes. -/
def calls : NodeSet → List Leg → List Sink.Call
  | _, [] => []
  | s, l :: rest => .remove (l.removed s) :: .add (l.added s) :: calls l.next rest

/-- Where a walk from a set of nodes ends. -/
def last : NodeSet → List Leg → NodeSet
  | s, [] => s
  | _, l :: rest => last l.next rest

variable {l : Leg} {s : NodeSet}

/-- The chunks to remove are of the nodes to remove. -/
theorem map_node_removed : (l.removed s).map Chunk.node = (NodeDiff.between s l.next).toRemove := by
  unfold removed
  rw [List.map_map]
  exact List.map_id _

/-- The chunks to add are of the nodes to add. -/
theorem map_node_added : (l.added s).map Chunk.node = (NodeDiff.between s l.next).toAdd := by
  unfold added
  rw [List.map_map]
  exact List.map_id _

end Leg

namespace Retained

variable {r r' : Retained} {s : NodeSet} {nodes : List Node}

/-! ## One batch -/

/-- The first set has chunks for the given nodes, which the second one lacks, and there is no other
difference. -/
structure Exceeds (r r' : Retained) (nodes : List Node) : Prop where
  contains_fst : ∀ n ∈ nodes, r.contains n.level n.origin = true
  contains_snd : ∀ n ∈ nodes, r'.contains n.level n.origin = false
  chunkOf_eq : ∀ n, n ∉ nodes → r.chunkOf n = r'.chunkOf n

/-- The greater set has the given nodes and those of the lesser one. -/
theorem Exceeds.contains_fst_iff (h : r.Exceeds r' nodes) (n : Node) :
    r.contains n.level n.origin = true ↔ n ∈ nodes ∨ r'.contains n.level n.origin = true := by
  by_cases hn : n ∈ nodes
  · simp only [h.contains_fst n hn, hn, true_or]
  · simp only [contains_eq_isSome, h.chunkOf_eq n hn, hn, false_or]

/-- The lesser set has the nodes of the greater one but the given ones. -/
theorem Exceeds.contains_snd_iff (h : r.Exceeds r' nodes) (n : Node) :
    r'.contains n.level n.origin = true ↔ r.contains n.level n.origin = true ∧ n ∉ nodes := by
  by_cases hn : n ∈ nodes
  · simp [h.contains_snd n hn, hn]
  · simp only [contains_eq_isSome, h.chunkOf_eq n hn, hn, not_false_iff, and_true]

/-- Removing chunks that are all there takes away just those. -/
theorem exceeds_remove {chunks : List Chunk}
    (h : ∀ n ∈ chunks.map Chunk.node, r.contains n.level n.origin = true) :
    r.Exceeds (r.remove chunks) (chunks.map Chunk.node) where
  contains_fst := h
  contains_snd n hn := by rw [contains_eq_isSome, chunkOf_remove, if_pos hn, Option.isSome_none]
  chunkOf_eq n hn := by rw [chunkOf_remove, if_neg hn]

/-- Adding chunks of nodes that have none brings just those. -/
theorem exceeds_add {chunks : List Chunk}
    (h : ∀ n ∈ chunks.map Chunk.node, r.contains n.level n.origin = false) :
    (r.add chunks).Exceeds r (chunks.map Chunk.node) where
  contains_fst n hn := by
    obtain ⟨c, -, -, hc⟩ := exists_chunkOf_add r hn
    rw [contains_eq_isSome, hc, Option.isSome_some]
  contains_snd := h
  chunkOf_eq _ hn := chunkOf_add_of_not_mem r hn

/-! ## One leg -/

/-- There are chunks for the nodes of a set and no others. -/
def Retains (r : Retained) (s : NodeSet) : Prop :=
  ∀ n : Node, r.contains n.level n.origin = true ↔ n ∈ s

/-- The empty set has a chunk for no node. -/
theorem retains_empty : Retains .empty ∅ := by
  intro n
  rw [contains_eq_isSome, chunkOf_empty]
  simp

namespace Retains

variable (h : r.Retains s) (l : Leg)
include h

/-- There are as many chunks as nodes. -/
theorem count_eq : r.count = s.size :=
  count_eq_size h

/-- The chunks to remove are there. -/
theorem exceeds_removed :
    r.Exceeds (r.remove (l.removed s)) (NodeDiff.between s l.next).toRemove := by
  rw [← Leg.map_node_removed]
  refine exceeds_remove fun n hn => (h n).2 ?_
  rw [Leg.map_node_removed, NodeDiff.mem_toRemove] at hn
  exact hn.1

/-- What stays has chunks when the others are removed. -/
theorem contains_remove_removed (n : Node) :
    (r.remove (l.removed s)).contains n.level n.origin = true ↔ n ∈ s ∧ n ∈ l.next := by
  rw [(h.exceeds_removed l).contains_snd_iff, h n, NodeDiff.mem_toRemove]
  tauto

/-- The chunks to add are not there. -/
theorem exceeds_added : ((r.remove (l.removed s)).add (l.added s)).Exceeds
    (r.remove (l.removed s)) (NodeDiff.between s l.next).toAdd := by
  rw [← Leg.map_node_added]
  refine exceeds_add fun n hn => ?_
  rw [Leg.map_node_added, NodeDiff.mem_toAdd] at hn
  rw [← Bool.not_eq_true, h.contains_remove_removed]
  exact fun hboth => hn.2 hboth.1

/-- The difference takes the retained set from the one set of nodes to the other. -/
theorem leg : ((r.remove (l.removed s)).add (l.added s)).Retains l.next := by
  intro n
  rw [(h.exceeds_added l).contains_fst_iff, h.contains_remove_removed, NodeDiff.mem_toAdd]
  tauto

/-- The differences take the retained set along the walk. -/
theorem walk (legs : List Leg) : (sink.calls r (Leg.calls s legs)).Retains (Leg.last s legs) := by
  induction legs generalizing r s with
  | nil => exact h
  | cons l rest ih => exact ih (h.leg l)

end Retains

/-! ## All legs -/

/-- The batches of a leg from a set of nodes touch only the nodes that change. -/
structure Touches (r : Retained) (s : NodeSet) (l : Leg) : Prop where
  removed : r.Exceeds (r.remove (l.removed s)) (NodeDiff.between s l.next).toRemove
  added : ((r.remove (l.removed s)).add (l.added s)).Exceeds (r.remove (l.removed s))
    (NodeDiff.between s l.next).toAdd

/-- Differences are the only ones in order. A retained set that has chunks for just the nodes of a
set has them for just the nodes of the last one after the differences of any walk were handed to it,
and the batches of a leg that goes on from there touch only the nodes that change. -/
theorem differences_replay {r : Retained} {s : NodeSet} (h : r.Retains s) (legs : List Leg)
    (l : Leg) :
    (∀ previous current, (NodeDiff.between previous current).Canonical previous current) ∧
      (sink.calls r (Leg.calls s legs)).Retains (Leg.last s legs) ∧
      (sink.calls r (Leg.calls s legs)).count = (Leg.last s legs).size ∧
      (sink.calls r (Leg.calls s legs)).Touches (Leg.last s legs) l := by
  have hwalk := h.walk legs
  exact ⟨NodeDiff.canonical_between, hwalk, hwalk.count_eq,
    hwalk.exceeds_removed l, hwalk.exceeds_added l⟩

/-- The leaves at some places of the x axis. -/
def leaves (xs : List Int32) : NodeSet := .ofList (xs.map fun x => Node.leaf ⟨x, 0, 0⟩)

/-- The retained set of the leaves at 0, 1 and 2, with nothing to draw. -/
def trio : Retained := sink.calls .empty (Leg.calls ∅ [.bare (leaves [0, 1, 2])])

/-- The difference of two sets of three leaves takes the retained set from the one to the other. -/
theorem differences_replay_leaves :
    trio.Retains (leaves [0, 1, 2]) ∧
      (sink.calls trio (Leg.calls (leaves [0, 1, 2]) [.bare (leaves [1, 2, -3])])).Retains
        (leaves [1, 2, -3]) ∧
      (sink.calls trio (Leg.calls (leaves [0, 1, 2]) [.bare (leaves [1, 2, -3])])).count = 3 := by
  have htrio : trio.Retains (leaves [0, 1, 2]) := retains_empty.walk [.bare (leaves [0, 1, 2])]
  obtain ⟨-, hwalk, hcount, -⟩ :=
    differences_replay htrio [.bare (leaves [1, 2, -3])] (.bare (leaves []))
  exact ⟨htrio, hwalk, hcount⟩

end Retained
end VoxelStream
