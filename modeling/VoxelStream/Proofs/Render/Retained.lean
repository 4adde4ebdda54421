import Mathlib.Data.List.Nodup
import VoxelStream.Proofs.Octree.Difference
import VoxelStream.Render.Retained

/-!
# The retained set as one map

The buckets of a retained set are read through one function of a node, `Retained.chunkOf`. Inserting
and erasing a chunk change it at the chunk's node only (`Retained.chunkOf_insert`,
`Retained.chunkOf_erase`), and the batches follow: after `Retained.remove` nothing is left of the
nodes removed, and after `Retained.add` there are the chunks added. The number of chunks is that of
the nodes that have one (`Retained.count_eq_size`).

A frame reads the set level by level. The levels hold the chunk of every node that has one
(`Retained.map_some_chunks`), at the node's own level and once if the set has come of batches
(`Retained.Built`). All of it is shown for every order of the chunks within a level
(`Retained.Order`).
-/

namespace VoxelStream.Retained

/-- The chunk retained in the place of a node. -/
def chunkOf (r : Retained) (n : Node) : Option Chunk := r.find? n.level n.origin

/-- A node is contained just if it has a chunk. -/
theorem contains_eq_isSome (r : Retained) (n : Node) :
    r.contains n.level n.origin = (r.chunkOf n).isSome := rfl

/-- The empty set has a chunk for no node. -/
theorem chunkOf_empty (n : Node) : empty.chunkOf n = none := by
  unfold chunkOf find? empty
  rw [Std.ExtTreeMap.getElem?_empty]

/-- What there is at a level and an origin after an insertion. -/
theorem find?_insert (r : Retained) (c : Chunk) (lod : UInt32) (origin : Coord) :
    (r.insert c).find? lod origin =
      if c.lod = lod ∧ c.origin = origin then some c else r.find? lod origin := by
  unfold find? insert
  by_cases hl : c.lod = lod
  · subst hl
    by_cases ho : c.origin = origin
    · subst ho
      simp
    · cases r.buckets[c.lod]? <;> simp [Std.ExtTreeMap.getElem?_insert, ho]
  · simp [Std.ExtTreeMap.getElem?_insert, hl]

/-- What there is at a level and an origin after a chunk was taken away. -/
theorem find?_erase (r : Retained) (c : Chunk) (lod : UInt32) (origin : Coord) :
    (r.erase c).find? lod origin =
      if c.lod = lod ∧ c.origin = origin then none else r.find? lod origin := by
  unfold erase
  cases hb : r.buckets[c.lod]? with
  | none =>
    dsimp only
    split
    · next h => rw [find?, ← h.1, hb]
    · rfl
  | some bucket =>
    dsimp only
    split
    · next he =>
      -- The bucket goes away, and it held no other chunk.
      have hlast : ∀ o : Coord, (bucket.erase c.origin)[o]? = none := by
        rw [Std.ExtTreeMap.isEmpty_iff.1 he]
        exact fun _ => Std.ExtTreeMap.getElem?_empty
      unfold find?
      by_cases hl : c.lod = lod
      · subst hl
        by_cases ho : c.origin = origin
        · simp [ho]
        · have := hlast origin
          rw [Std.ExtTreeMap.getElem?_erase] at this
          simp [ho] at this
          simp [hb, ho, this]
      · simp [Std.ExtTreeMap.getElem?_erase, hl]
    · unfold find?
      by_cases hl : c.lod = lod
      · subst hl
        by_cases ho : c.origin = origin
        · subst ho
          simp
        · simp [Std.ExtTreeMap.getElem?_erase, ho, hb]
      · simp [Std.ExtTreeMap.getElem?_insert, hl]

/-- The node of a chunk is its level and its origin. -/
theorem node_eq_iff {c : Chunk} {n : Node} :
    c.node = n ↔ c.lod = n.level ∧ c.origin = n.origin := by
  cases c with
  | mk m g =>
    cases m
    cases n
    rw [Node.mk.injEq]
    exact and_comm

/-- A chunk that is put in has the place of its node, and the other places are as before. -/
theorem chunkOf_insert (r : Retained) (c : Chunk) (n : Node) :
    (r.insert c).chunkOf n = if c.node = n then some c else r.chunkOf n := by
  simp only [chunkOf, find?_insert, node_eq_iff]

/-- The place of a chunk that is taken out is empty, and the other places are as before. -/
theorem chunkOf_erase (r : Retained) (c : Chunk) (n : Node) :
    (r.erase c).chunkOf n = if c.node = n then none else r.chunkOf n := by
  simp only [chunkOf, find?_erase, node_eq_iff]

/-! ## Batches -/

section
variable {chunks : List Chunk} {n : Node}

/-- Removing chunks empties the places of their nodes and no others. -/
theorem chunkOf_remove (r : Retained) (chunks : List Chunk) (n : Node) :
    (r.remove chunks).chunkOf n = if n ∈ chunks.map Chunk.node then none else r.chunkOf n := by
  induction chunks generalizing r with
  | nil => rfl
  | cons c rest ih =>
    have hstep : r.remove (c :: rest) = (r.erase c).remove rest := rfl
    rw [hstep, ih, chunkOf_erase, List.map_cons]
    by_cases hr : n ∈ rest.map Chunk.node
    · rw [if_pos hr, if_pos (List.mem_cons_of_mem _ hr)]
    · simp only [hr, List.mem_cons, or_false, if_false, eq_comm (a := c.node)]

/-- Adding chunks leaves the places of other nodes alone. -/
theorem chunkOf_add_of_not_mem (r : Retained) (hn : n ∉ chunks.map Chunk.node) :
    (r.add chunks).chunkOf n = r.chunkOf n := by
  induction chunks generalizing r with
  | nil => rfl
  | cons c rest ih =>
    have hstep : r.add (c :: rest) = (r.insert c).add rest := rfl
    rw [List.map_cons, List.mem_cons, not_or] at hn
    rw [hstep, ih _ hn.2, chunkOf_insert, if_neg (Ne.symm hn.1)]

/-- Adding chunks puts one of them in the place of each of their nodes. -/
theorem exists_chunkOf_add (r : Retained) (hn : n ∈ chunks.map Chunk.node) :
    ∃ c ∈ chunks, c.node = n ∧ (r.add chunks).chunkOf n = some c := by
  induction chunks generalizing r with
  | nil => cases hn
  | cons c rest ih =>
    have hstep : r.add (c :: rest) = (r.insert c).add rest := rfl
    by_cases hr : n ∈ rest.map Chunk.node
    · obtain ⟨d, hd, hdn, hadd⟩ := ih (r.insert c) hr
      exact ⟨d, List.mem_cons_of_mem _ hd, hdn, by rw [hstep, hadd]⟩
    · have hcn : c.node = n := by
        rw [List.map_cons, List.mem_cons] at hn
        rcases hn with hn | hn
        · exact hn.symm
        · exact absurd hn hr
      refine ⟨c, List.mem_cons_self, hcn, ?_⟩
      rw [hstep, chunkOf_add_of_not_mem _ hr, chunkOf_insert, if_pos hcn]

end

/-! ## Counting -/

/-- The nodes that have a chunk, level by level. -/
def nodes (r : Retained) : List Node :=
  r.buckets.toList.flatMap fun (lod, bucket) => bucket.toList.map fun (origin, _) => ⟨origin, lod⟩

/-- A set counts one for each of its nodes. -/
theorem count_eq_length (r : Retained) : r.count = r.nodes.length := by
  unfold count lodCounts nodes
  generalize r.buckets.toList = l
  induction l with
  | nil => rfl
  | cons p rest ih =>
    rw [List.map_cons, List.foldr_cons, List.flatMap_cons, List.length_append, ih,
      List.length_map, Std.ExtTreeMap.length_toList]

/-- The nodes of a set are those that have a chunk. -/
theorem mem_nodes (r : Retained) {n : Node} : n ∈ r.nodes ↔ (r.chunkOf n).isSome := by
  unfold nodes chunkOf find?
  rw [List.mem_flatMap]
  constructor
  · rintro ⟨⟨lod, bucket⟩, hb, hn⟩
    obtain ⟨⟨origin, c⟩, hc, rfl⟩ := List.mem_map.1 hn
    dsimp only
    rw [Std.ExtTreeMap.mem_toList_iff_getElem?_eq_some.1 hb]
    dsimp only
    rw [Std.ExtTreeMap.mem_toList_iff_getElem?_eq_some.1 hc]
    rfl
  · intro hn
    cases hb : r.buckets[n.level]? with
    | none =>
      rw [hb] at hn
      cases hn
    | some bucket =>
      rw [hb] at hn
      obtain ⟨c, hc⟩ := Option.isSome_iff_exists.1 hn
      exact ⟨(n.level, bucket), Std.ExtTreeMap.mem_toList_iff_getElem?_eq_some.2 hb,
        List.mem_map.2 ⟨(n.origin, c), Std.ExtTreeMap.mem_toList_iff_getElem?_eq_some.2 hc, rfl⟩⟩

/-- No node is listed twice. -/
theorem nodup_nodes (r : Retained) : r.nodes.Nodup := by
  unfold nodes
  rw [List.nodup_flatMap]
  constructor
  · rintro ⟨lod, bucket⟩ -
    refine List.Pairwise.map _ ?_ (Std.ExtTreeMap.distinct_keys_toList (t := bucket))
    rintro ⟨o, c⟩ ⟨o', c'⟩ h he
    obtain ⟨ho, -⟩ := Node.mk.inj he
    exact h (by simp [ho])
  · refine (Std.ExtTreeMap.distinct_keys_toList (t := r.buckets)).imp ?_
    rintro ⟨lod, bucket⟩ ⟨lod', bucket'⟩ h n hn hn'
    obtain ⟨p, -, rfl⟩ := List.mem_map.1 hn
    obtain ⟨p', -, he⟩ := List.mem_map.1 hn'
    obtain ⟨-, hlod⟩ := Node.mk.inj he
    exact h (by simp [hlod])

/-- A retained set with chunks for the nodes of a set and no others has as many as that. -/
theorem count_eq_size {r : Retained} {s : NodeSet} (h : ∀ n, (r.chunkOf n).isSome ↔ n ∈ s) :
    r.count = s.size := by
  rw [count_eq_length, ← Std.ExtTreeSet.length_toList]
  refine ((List.perm_ext_iff_of_nodup r.nodup_nodes s.nodup_toList).2 fun n => ?_).length_eq
  rw [mem_nodes, h, Std.ExtTreeSet.mem_toList]

/-! ## Sets that batches make -/

/-- The retained sets that batches can make of the empty one. -/
inductive Built : Retained → Prop
  | empty : Built .empty
  | add {r : Retained} (h : Built r) (chunks : List Chunk) : Built (r.add chunks)
  | remove {r : Retained} (h : Built r) (chunks : List Chunk) : Built (r.remove chunks)

/-- Every chunk is in the place of its own node. -/
theorem Built.node_eq {r : Retained} (h : r.Built) {n : Node} {c : Chunk}
    (hc : r.chunkOf n = some c) : c.node = n := by
  induction h with
  | empty =>
    rw [chunkOf_empty] at hc
    cases hc
  | @add r _ chunks ih =>
    by_cases hn : n ∈ chunks.map Chunk.node
    · obtain ⟨d, -, hd, hadd⟩ := exists_chunkOf_add r hn
      rw [hadd] at hc
      injection hc with hc
      exact hc ▸ hd
    · rw [chunkOf_add_of_not_mem r hn] at hc
      exact ih hc
  | @remove r _ chunks ih =>
    rw [chunkOf_remove] at hc
    split at hc
    · cases hc
    · exact ih hc

/-! ## Levels -/

/-- The retained chunks, level by level. -/
def chunks (r : Retained) : List Chunk := r.levels.flatMap Prod.snd

/-- The values of a bucket are in the order of their origins. -/
theorem values_eq (bucket : Bucket) : bucket.values = bucket.toList.map Prod.snd := by
  have hfold : bucket.values = bucket.foldr (fun _ c cs => c :: cs) [] := by
    obtain ⟨⟨⟨t⟩⟩⟩ := bucket
    rfl
  rw [hfold, Std.ExtTreeMap.foldr_eq_foldr_toList, List.map_eq_foldr]

/-- A bucket holds the chunks in the places of its origins. -/
theorem chunkOf_of_mem_toList {r : Retained} {lod : UInt32} {bucket : Bucket} {origin : Coord}
    {c : Chunk} (hb : (lod, bucket) ∈ r.buckets.toList) (hc : (origin, c) ∈ bucket.toList) :
    r.chunkOf ⟨origin, lod⟩ = some c := by
  unfold chunkOf find?
  dsimp only
  rw [Std.ExtTreeMap.mem_toList_iff_getElem?_eq_some.1 hb]
  exact Std.ExtTreeMap.mem_toList_iff_getElem?_eq_some.1 hc

/-- The retained chunks are those in the places of the nodes, in the same order. -/
theorem map_some_chunks (r : Retained) : r.chunks.map some = r.nodes.map r.chunkOf := by
  unfold chunks levels nodes
  rw [List.flatMap_map, List.map_flatMap, List.map_flatMap]
  refine List.flatMap_congr ?_
  rintro ⟨lod, bucket⟩ hb
  dsimp only
  rw [values_eq, List.map_map, List.map_map]
  exact List.map_congr_left fun p hp => (chunkOf_of_mem_toList hb hp).symm

/-- The chunks of a set are those that some node has. -/
theorem mem_chunks {r : Retained} {c : Chunk} : c ∈ r.chunks ↔ ∃ n, r.chunkOf n = some c := by
  have hmem : c ∈ r.chunks ↔ some c ∈ r.chunks.map some := by simp
  rw [hmem, map_some_chunks, List.mem_map]
  constructor
  · rintro ⟨n, -, hn⟩
    exact ⟨n, hn⟩
  · rintro ⟨n, hn⟩
    exact ⟨n, r.mem_nodes.2 (by rw [hn]; rfl), hn⟩

/-- A set lists as many chunks as it counts. -/
theorem length_chunks (r : Retained) : r.chunks.length = r.count := by
  have hlen := congrArg List.length r.map_some_chunks
  rw [List.length_map, List.length_map] at hlen
  rw [hlen, count_eq_length]

/-- The levels ascend. -/
theorem pairwise_levels (r : Retained) : r.levels.Pairwise fun l m => l.1 < m.1 := by
  unfold levels
  rw [List.pairwise_map]
  exact (Std.ExtTreeMap.ordered_keys_toList (t := r.buckets)).imp Std.compare_eq_lt.1

namespace Built

variable {r : Retained} {c : Chunk}

/-- In a set made by batches a chunk is found at its own node. -/
theorem mem_chunks (h : r.Built) : c ∈ r.chunks ↔ r.chunkOf c.node = some c := by
  rw [Retained.mem_chunks]
  constructor
  · rintro ⟨n, hn⟩
    rwa [h.node_eq hn]
  · exact fun hc => ⟨c.node, hc⟩

/-- No chunk is retained twice. -/
theorem nodup_chunks (h : r.Built) : r.chunks.Nodup := by
  have hnodes : r.nodes.map (Option.map Chunk.node ∘ r.chunkOf) = r.nodes.map some := by
    refine List.map_congr_left fun n hn => ?_
    obtain ⟨c, hc⟩ := Option.isSome_iff_exists.1 (r.mem_nodes.1 hn)
    rw [Function.comp_apply, hc, Option.map_some, h.node_eq hc]
  have hchunks : r.chunks.map (some ∘ Chunk.node) = r.nodes.map some := by
    have hmap := congrArg (List.map (Option.map Chunk.node)) r.map_some_chunks
    rw [List.map_map, List.map_map, hnodes] at hmap
    exact hmap
  refine List.Nodup.of_map (some ∘ Chunk.node) ?_
  rw [hchunks]
  exact r.nodup_nodes.map fun _ _ he => Option.some.inj he

/-- The chunks of a level are of that level. -/
theorem lod_eq (h : r.Built) {l : UInt32 × List Chunk} (hl : l ∈ r.levels) (hc : c ∈ l.2) :
    c.lod = l.1 := by
  obtain ⟨⟨lod, bucket⟩, hb, rfl⟩ := List.mem_map.1 hl
  dsimp only at hc
  rw [values_eq] at hc
  obtain ⟨⟨origin, d⟩, hd, rfl⟩ := List.mem_map.1 hc
  exact congrArg Node.level (h.node_eq (chunkOf_of_mem_toList hb hd))

end Built

/-! ## The order of a frame -/

/-- The same levels, the chunks of each in any order. -/
abbrev SameLevels : List (UInt32 × List Chunk) → List (UInt32 × List Chunk) → Prop :=
  List.Forall₂ fun l m => l.1 = m.1 ∧ l.2.Perm m.2

namespace SameLevels

variable {ls ms : List (UInt32 × List Chunk)}

/-- Lists with the same levels name them in the same order. -/
theorem map_fst (h : SameLevels ls ms) : ls.map Prod.fst = ms.map Prod.fst := by
  induction h with
  | nil => rfl
  | cons hl _ ih => rw [List.map_cons, List.map_cons, hl.1, ih]

/-- Lists with the same levels hold the same chunks altogether. -/
theorem perm_flatMap (h : SameLevels ls ms) :
    (ls.flatMap Prod.snd).Perm (ms.flatMap Prod.snd) := by
  induction h with
  | nil => exact .refl _
  | cons hl _ ih =>
    rw [List.flatMap_cons, List.flatMap_cons]
    exact hl.2.append ih

/-- Each level of the one list is matched in the other by the same level with the same chunks. -/
theorem exists_of_mem (h : SameLevels ls ms) {l : UInt32 × List Chunk} (hl : l ∈ ls) :
    ∃ m ∈ ms, l.1 = m.1 ∧ l.2.Perm m.2 := by
  induction h with
  | nil => cases hl
  | @cons a b _ _ hab _ ih =>
    rcases List.mem_cons.1 hl with rfl | hl
    · exact ⟨b, List.mem_cons_self, hab⟩
    · obtain ⟨m, hm, hlm⟩ := ih hl
      exact ⟨m, List.mem_cons_of_mem _ hm, hlm⟩

end SameLevels

/-- The levels from the coarsest to the finest, the chunks of each in any order. -/
def Order (r : Retained) (levels : List (UInt32 × List Chunk)) : Prop :=
  SameLevels levels r.levels.reverse

/-- The order that `Retained.render` takes is one of them. -/
theorem order_reverse_levels (r : Retained) : r.Order r.levels.reverse :=
  List.forall₂_same.2 fun _ _ => ⟨rfl, .refl _⟩

namespace Order

variable {r : Retained} {levels : List (UInt32 × List Chunk)} (h : r.Order levels)
include h

/-- The levels descend. -/
theorem pairwise : (levels.map Prod.fst).Pairwise (· > ·) := by
  rw [SameLevels.map_fst h, List.map_reverse, List.pairwise_reverse, List.pairwise_map]
  exact r.pairwise_levels

/-- Whatever the order, the levels have the retained chunks. -/
theorem perm_chunks : (levels.flatMap Prod.snd).Perm r.chunks :=
  (SameLevels.perm_flatMap h).trans (r.levels.reverse_perm.flatMap_right _)

/-- The chunks of a level are of that level. -/
theorem lod_eq (hr : r.Built) {l : UInt32 × List Chunk} {c : Chunk} (hl : l ∈ levels)
    (hc : c ∈ l.2) : c.lod = l.1 := by
  obtain ⟨m, hm, he, hperm⟩ := SameLevels.exists_of_mem h hl
  rw [he]
  exact hr.lod_eq (List.mem_reverse.1 hm) (hperm.mem_iff.1 hc)

end Order

end VoxelStream.Retained
