import Mathlib.Data.List.Perm.Basic
import VoxelStream.Octree.NodeSet

/-!
# Differences of sets of nodes

A set lists its nodes in the order of `x`, `y`, `z` and the level (`Node.Precedes`), and so do the
lists of a change. There is one change from a set to another whose lists are in this order
(`NodeDiff.Exact.eq`): it is what sorting gives, however the sets are gone through
(`Node.mergeSort_eq`). The change back has the same lists (`NodeDiff.swap_between`).

What two sets of nodes have in common is listed alike in both, so the change from one to the other
adds and removes as many nodes as their sizes tell (`NodeDiff.size_add_length_toRemove`).
-/

namespace VoxelStream

/-! ## The order of nodes -/

namespace Node

variable {m n : Node}

/-- The first of `x`, `y`, `z` and the level on which two nodes differ says which one comes
first. -/
def Precedes (m n : Node) : Prop :=
  m.origin.x.toInt < n.origin.x.toInt ∨ m.origin.x = n.origin.x ∧
    (m.origin.y.toInt < n.origin.y.toInt ∨ m.origin.y = n.origin.y ∧
      (m.origin.z.toInt < n.origin.z.toInt ∨ m.origin.z = n.origin.z ∧
        m.level.toNat < n.level.toNat))

/-- The comparison of nodes is by `x`, `y`, `z` and the level, in this order. -/
theorem compare_eq_lt_iff : compare m n = .lt ↔ m.Precedes n := by
  have hlex : compare m n = ((compare m.origin.x n.origin.x).then
      ((compare m.origin.y n.origin.y).then (compare m.origin.z n.origin.z))).then
        (compare m.level n.level) := rfl
  rw [hlex]
  simp only [Ordering.then_eq_lt, Ordering.then_eq_eq, Std.compare_eq_lt, Std.compare_eq_iff_eq,
    Int32.lt_iff_toInt_lt, UInt32.lt_iff_toNat_lt]
  unfold Precedes
  tauto

/-- No node comes before itself. -/
theorem Precedes.ne (h : m.Precedes n) : m ≠ n := by
  rintro rfl
  have heq : compare m m = .eq := Std.ReflCmp.compare_self
  rw [compare_eq_lt_iff.2 h] at heq
  cases heq

/-- The order as sorting takes it. -/
def sortOrder (m n : Node) : Bool := (compare m n).isLE

/-- Of two nodes one may stand before the other. -/
theorem sortOrder_total (m n : Node) : (sortOrder m n || sortOrder n m) = true := by
  have hback : (compare n m).isLE = (compare m n).isGE := Std.OrientedCmp.isGE_eq_isLE.symm
  rw [sortOrder, sortOrder, hback]
  cases compare m n <;> rfl

/-- Sorting brings nodes into this order, in whatever order they come. -/
theorem mergeSort_eq {l l' : List Node} (h : l.Pairwise Precedes) (hperm : l'.Perm l) :
    l'.mergeSort sortOrder = l := by
  have hsorted : (l'.mergeSort sortOrder).Pairwise fun m n => sortOrder m n = true :=
    List.pairwise_mergeSort (fun _ _ _ => Std.TransCmp.isLE_trans) sortOrder_total l'
  refine List.Perm.eq_of_pairwise (fun m n _ _ hmn hnm => ?_) hsorted (h.imp fun hmn =>
    Ordering.isLE_of_eq_lt (compare_eq_lt_iff.2 hmn)) ((l'.mergeSort_perm _).trans hperm)
  exact Std.LawfulEqOrd.eq_of_compare (Std.OrientedCmp.isLE_antisymm hmn hnm)

/-- A list in this order is determined by its members. -/
theorem eq_of_pairwise_precedes {l l' : List Node} (h : l.Pairwise Precedes)
    (h' : l'.Pairwise Precedes) (hmem : ∀ n, n ∈ l ↔ n ∈ l') : l = l' := by
  have hperm : l.Perm l' :=
    (List.perm_ext_iff_of_nodup (h.imp Precedes.ne) (h'.imp Precedes.ne)).2 hmem
  rw [← mergeSort_eq h (.refl l), mergeSort_eq h' hperm]

end Node

/-- A set lists its nodes in order. -/
theorem NodeSet.pairwise_toList (s : NodeSet) : s.toList.Pairwise Node.Precedes :=
  Std.ExtTreeSet.ordered_toList.imp Node.compare_eq_lt_iff.1

/-- A set lists no node twice. -/
theorem NodeSet.nodup_toList (s : NodeSet) : s.toList.Nodup := s.pairwise_toList.imp Node.Precedes.ne

namespace NodeDiff

variable {previous current : NodeSet} {d : NodeDiff}

/-! ## The one change in order -/

/-- The lists have the nodes that change, in order. -/
structure Exact (d : NodeDiff) (previous current : NodeSet) : Prop where
  mem_toAdd_iff : ∀ n, n ∈ d.toAdd ↔ n ∈ current ∧ n ∉ previous
  mem_toRemove_iff : ∀ n, n ∈ d.toRemove ↔ n ∈ previous ∧ n ∉ current
  pairwise_toAdd : d.toAdd.Pairwise Node.Precedes
  pairwise_toRemove : d.toRemove.Pairwise Node.Precedes

/-- The change between two sets has the nodes that change, in order. -/
theorem exact_between (previous current : NodeSet) :
    (between previous current).Exact previous current where
  mem_toAdd_iff _ := mem_toAdd
  mem_toRemove_iff _ := mem_toRemove
  pairwise_toAdd := current.pairwise_toList.filter _
  pairwise_toRemove := previous.pairwise_toList.filter _

namespace Exact

/-- No node is added twice. -/
theorem nodup_toAdd (h : d.Exact previous current) : d.toAdd.Nodup :=
  h.pairwise_toAdd.imp Node.Precedes.ne

/-- No node is removed twice. -/
theorem nodup_toRemove (h : d.Exact previous current) : d.toRemove.Nodup :=
  h.pairwise_toRemove.imp Node.Precedes.ne

/-- No node is both added and removed. -/
theorem disjoint (h : d.Exact previous current) : d.toAdd.Disjoint d.toRemove := fun n ha hr =>
  ((h.mem_toRemove_iff n).1 hr).2 ((h.mem_toAdd_iff n).1 ha).1

/-- There is one such change between two sets. -/
theorem eq (h : d.Exact previous current) : d = between previous current := by
  have hadd : d.toAdd = (between previous current).toAdd :=
    Node.eq_of_pairwise_precedes h.pairwise_toAdd (exact_between previous current).pairwise_toAdd
      fun n => by rw [h.mem_toAdd_iff, mem_toAdd]
  have hremove : d.toRemove = (between previous current).toRemove :=
    Node.eq_of_pairwise_precedes h.pairwise_toRemove
      (exact_between previous current).pairwise_toRemove
      fun n => by rw [h.mem_toRemove_iff, mem_toRemove]
  cases d
  rw [NodeDiff.mk.injEq]
  exact ⟨hadd, hremove⟩

end Exact

/-- Nothing changes between a set and itself only. -/
theorem isEmpty_between_iff : (between previous current).isEmpty = true ↔ previous = current := by
  unfold isEmpty
  rw [Bool.and_eq_true, List.isEmpty_iff, List.isEmpty_iff, List.eq_nil_iff_forall_not_mem,
    List.eq_nil_iff_forall_not_mem]
  simp only [mem_toAdd, mem_toRemove, not_and_not_right]
  constructor
  · rintro ⟨hadd, hremove⟩
    exact Std.ExtTreeSet.ext_mem fun n => ⟨hremove n, hadd n⟩
  · rintro rfl
    exact ⟨fun _ => id, fun _ => id⟩

/-- The change back. -/
def swap (d : NodeDiff) : NodeDiff := ⟨d.toRemove, d.toAdd⟩

/-- The change back is the change between the sets the other way around. -/
theorem swap_between (previous current : NodeSet) :
    (between previous current).swap = between current previous := rfl

/-- The change between two sets, told from all others. -/
structure Canonical (d : NodeDiff) (previous current : NodeSet) : Prop extends
    Exact d previous current where
  nodup_toAdd : d.toAdd.Nodup
  nodup_toRemove : d.toRemove.Nodup
  disjoint : d.toAdd.Disjoint d.toRemove
  eq_of_exact : ∀ d' : NodeDiff, d'.Exact previous current → d' = d
  mergeSort_toAdd : ∀ l : List Node, l.Perm d.toAdd → l.mergeSort Node.sortOrder = d.toAdd
  mergeSort_toRemove : ∀ l : List Node, l.Perm d.toRemove → l.mergeSort Node.sortOrder = d.toRemove
  isEmpty_iff : d.isEmpty = true ↔ previous = current
  swap_eq : d.swap = between current previous

/-- The change between two sets is canonical. -/
theorem canonical_between (previous current : NodeSet) :
    (between previous current).Canonical previous current where
  toExact := exact_between previous current
  nodup_toAdd := (exact_between previous current).nodup_toAdd
  nodup_toRemove := (exact_between previous current).nodup_toRemove
  disjoint := (exact_between previous current).disjoint
  eq_of_exact _ h := h.eq
  mergeSort_toAdd _ := Node.mergeSort_eq (exact_between previous current).pairwise_toAdd
  mergeSort_toRemove _ := Node.mergeSort_eq (exact_between previous current).pairwise_toRemove
  isEmpty_iff := isEmpty_between_iff
  swap_eq := swap_between previous current

/-! ## Sizes -/

/-- The nodes that stay are as many in the one list as in the other. -/
theorem length_filter_contains (a b : NodeSet) :
    (a.toList.filter b.contains).length = (b.toList.filter a.contains).length := by
  refine ((List.perm_ext_iff_of_nodup (a.nodup_toList.filter _)
    (b.nodup_toList.filter _)).2 fun n => ?_).length_eq
  simp only [List.mem_filter, Std.ExtTreeSet.mem_toList, Std.ExtTreeSet.contains_iff_mem]
  exact and_comm

/-- The change makes up for the difference in size. -/
theorem size_add_length_toRemove (previous current : NodeSet) :
    current.size + (between previous current).toRemove.length =
      previous.size + (between previous current).toAdd.length := by
  have hstay := length_filter_contains current previous
  have hcurrent := List.length_eq_length_filter_add (l := current.toList) previous.contains
  have hprevious := List.length_eq_length_filter_add (l := previous.toList) current.contains
  rw [Std.ExtTreeSet.length_toList] at hcurrent hprevious
  unfold between
  dsimp only
  omega

/-- What is left of a set are the nodes that another one lacks. -/
theorem size_diff (a b : NodeSet) : (a \ b).size = (between b a).toAdd.length := by
  have hnodup : (between b a).toAdd.Nodup := a.nodup_toList.filter _
  rw [← Std.ExtTreeSet.length_toList]
  refine ((List.perm_ext_iff_of_nodup (a \ b).nodup_toList hnodup).2 fun n => ?_).length_eq
  simp [mem_toAdd]

/-- Without a part a set is smaller by the size of the part. -/
theorem size_diff_add_size {a b : NodeSet} (h : ∀ n ∈ b, n ∈ a) :
    (a \ b).size + b.size = a.size := by
  have hnone : (between b a).toRemove = [] :=
    List.eq_nil_iff_forall_not_mem.2 fun n hn => (mem_toRemove.1 hn).2 (h n (mem_toRemove.1 hn).1)
  have hsize := size_add_length_toRemove b a
  rw [hnone, List.length_nil] at hsize
  rw [size_diff]
  omega

/-- A part of a set is smaller than it or equal to it. -/
theorem size_lt_iff_ne {a b : NodeSet} (h : ∀ n ∈ a, n ∈ b) : a.size < b.size ↔ b ≠ a := by
  have hsize := size_diff_add_size h
  constructor
  · rintro hlt rfl
    exact Nat.lt_irrefl _ hlt
  · intro hne
    by_contra hge
    have hempty : b \ a = ∅ := Std.ExtTreeSet.eq_empty_iff_size_eq_zero.2 (by omega)
    refine hne (Std.ExtTreeSet.ext_mem fun n => ⟨fun hn => ?_, h n⟩)
    by_contra hna
    have hmem : n ∈ b \ a := Std.ExtTreeSet.mem_diff_iff.2 ⟨hn, hna⟩
    simp [hempty] at hmem

end NodeDiff
end VoxelStream
