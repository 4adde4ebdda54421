import Mathlib
import VoxelStream.Proofs.Render.Retained

/-!
# One flat map in place of buckets

A retained set keeps a bucket for each level, and a bucket comes and goes with its chunks. Whoever
uses the set cannot tell that from a single map whose keys are whole nodes (`ChunkMap`): the same
calls have made both, so what either has for a node is the same (`Retained.Flattens.call`).

No bucket is ever empty (`Retained.Built.tight`), and that is why the set is more than alike. Two sets
without empty buckets that have the same chunk for each node are equal (`Retained.Tight.ext`), so a
map can be put into buckets in one way only (`Retained.ofMap`), whatever was added and removed to
come to it.
-/

namespace VoxelStream

/-! ## Calls of a sink -/

/-- A call of a sink. -/
inductive Sink.Call where
  | add (chunks : List Chunk)
  | remove (chunks : List Chunk)
  | clear

/-- The chunks that a call hands over. -/
def Sink.Call.chunks : Call → List Chunk
  | .add chunks | .remove chunks => chunks
  | .clear => []

/-- The state of a sink after a call, whatever came of it. -/
def Sink.call {σ : Type} (K : Sink σ) (k : σ) : Call → σ
  | .add chunks => (K.add chunks k).2
  | .remove chunks => (K.remove chunks k).2
  | .clear => K.clear k

/-- The state of a sink after calls, one after the other. -/
def Sink.calls {σ : Type} (K : Sink σ) (k : σ) (calls : List Call) : σ := calls.foldl K.call k

/-- Calls are made one after the other, so a sequence of them may be cut anywhere. -/
theorem Sink.calls_append {σ : Type} (K : Sink σ) (k : σ) (calls rest : List Call) :
    K.calls k (calls ++ rest) = K.calls (K.calls k calls) rest := List.foldl_append

/-! ## The flat map -/

/-- Chunks by their whole nodes. -/
abbrev ChunkMap : Type := Std.ExtTreeMap Node Chunk

namespace ChunkMap

/-- Puts chunks in the places of their nodes, one after the other. -/
def add (m : ChunkMap) (chunks : List Chunk) : ChunkMap :=
  chunks.foldl (fun m c => m.insert c.node c) m

/-- Empties the places of the nodes of chunks. -/
def remove (m : ChunkMap) (chunks : List Chunk) : ChunkMap :=
  chunks.foldl (fun m c => m.erase c.node) m

/-- The flat map as a sink. -/
def sink : Sink ChunkMap where
  add chunks m := (.ok (), m.add chunks)
  remove chunks m := (.ok (), m.remove chunks)
  clear _ := ∅

end ChunkMap

namespace Retained

variable {r r' : Retained} {m : ChunkMap} {c : Chunk} {lod : UInt32} {origin : Coord}
  {bucket : Bucket}

/-! ## Sets without empty buckets -/

/-- No bucket is empty. -/
def Tight (r : Retained) : Prop :=
  ∀ (lod : UInt32) (bucket : Bucket), r.buckets[lod]? = some bucket → bucket ≠ ∅

/-- Where a level has a bucket, the chunk is looked up in that bucket. -/
theorem find?_of_getElem?_eq_some (hb : r.buckets[lod]? = some bucket) (origin : Coord) :
    r.find? lod origin = bucket[origin]? := by
  rw [find?, hb]

/-- Where a level has no bucket, nothing is retained for it. -/
theorem find?_of_getElem?_eq_none (hb : r.buckets[lod]? = none) (origin : Coord) :
    r.find? lod origin = none := by
  rw [find?, hb]

namespace Tight

/-- The empty set has no bucket at all. -/
theorem empty : Tight .empty := by
  intro lod bucket hb
  rw [show (Retained.empty.buckets)[lod]? = none from Std.ExtTreeMap.getElem?_empty] at hb
  cases hb

/-- The bucket that takes a chunk is not empty afterwards. -/
theorem insert (h : r.Tight) (c : Chunk) : (r.insert c).Tight := by
  intro lod bucket hb
  unfold Retained.insert at hb
  dsimp only at hb
  rw [Std.ExtTreeMap.getElem?_insert] at hb
  split at hb
  · cases hb
    exact Std.ExtTreeMap.insert_ne_empty
  · exact h _ _ hb

/-- The bucket of the chunk that is taken away goes with its last chunk. -/
theorem erase (h : r.Tight) (c : Chunk) : (r.erase c).Tight := by
  intro lod bucket hb
  unfold Retained.erase at hb
  split at hb
  · exact h _ _ hb
  · next rest hrest =>
    dsimp only at hb
    split at hb
    · rw [Std.ExtTreeMap.getElem?_erase] at hb
      split at hb
      · cases hb
      · exact h _ _ hb
    · next hne =>
      rw [Std.ExtTreeMap.getElem?_insert] at hb
      split at hb
      · cases hb
        exact fun he => hne (Std.ExtTreeMap.isEmpty_iff.2 he)
      · exact h _ _ hb

/-- Adding a batch leaves no empty bucket behind. -/
theorem add (h : r.Tight) (chunks : List Chunk) : (r.add chunks).Tight :=
  List.foldlRecOn chunks Retained.insert (motive := Tight) h fun _ hb c _ => hb.insert c

/-- Removing a batch leaves no empty bucket behind. -/
theorem remove (h : r.Tight) (chunks : List Chunk) : (r.remove chunks).Tight :=
  List.foldlRecOn chunks Retained.erase (motive := Tight) h fun _ hb c _ => hb.erase c

/-- There is a bucket for a level just if there is a chunk of that level. -/
theorem getElem?_eq_none_iff (h : r.Tight) :
    r.buckets[lod]? = none ↔ ∀ origin, r.find? lod origin = none := by
  constructor
  · exact find?_of_getElem?_eq_none
  · intro hnone
    cases hb : r.buckets[lod]? with
    | none => rfl
    | some bucket =>
      refine absurd (Std.ExtTreeMap.eq_empty_iff_forall_not_mem.2 fun origin hmem => ?_) (h _ _ hb)
      rw [Std.ExtTreeMap.mem_iff_isSome_getElem?, ← find?_of_getElem?_eq_some hb, hnone] at hmem
      cases hmem

/-- What there is for each node is all there is to know of a set without empty buckets. -/
theorem ext (h : r.Tight) (h' : r'.Tight) (heq : ∀ n, r.chunkOf n = r'.chunkOf n) : r = r' := by
  have hfind : ∀ lod origin, r.find? lod origin = r'.find? lod origin :=
    fun lod origin => heq ⟨origin, lod⟩
  have hbuckets : r.buckets = r'.buckets := by
    refine Std.ExtTreeMap.ext_getElem? fun lod => ?_
    have hnone : r.buckets[lod]? = none ↔ r'.buckets[lod]? = none := by
      rw [h.getElem?_eq_none_iff, h'.getElem?_eq_none_iff]
      simp only [hfind]
    cases hb : r.buckets[lod]? with
    | none => rw [hnone.1 hb]
    | some bucket =>
      obtain ⟨bucket', hb'⟩ := Option.ne_none_iff_exists'.1 fun hn => by
        rw [hnone.2 hn] at hb
        cases hb
      rw [hb', Option.some.injEq]
      refine Std.ExtTreeMap.ext_getElem? fun origin => ?_
      rw [← find?_of_getElem?_eq_some hb, hfind, find?_of_getElem?_eq_some hb']
  cases r
  cases r'
  rw [Retained.mk.injEq]
  exact hbuckets

end Tight

/-- Batches leave no empty bucket behind. -/
theorem Built.tight (h : r.Built) : r.Tight := by
  induction h with
  | empty => exact .empty
  | add _ chunks ih => exact ih.add chunks
  | remove _ chunks ih => exact ih.remove chunks

/-! ## A set and the map it is kept for -/

/-- Chunks are added alike to both. -/
theorem chunkOf_add_eq_getElem? (h : ∀ n, r.chunkOf n = m[n]?) (chunks : List Chunk) (n : Node) :
    (r.add chunks).chunkOf n = (m.add chunks)[n]? := by
  induction chunks generalizing r m with
  | nil => exact h n
  | cons c rest ih =>
    refine ih (r := r.insert c) (m := m.insert c.node c) fun n => ?_
    rw [chunkOf_insert, Std.ExtTreeMap.getElem?_insert, h]
    simp

/-- Chunks are removed alike from both. -/
theorem chunkOf_remove_eq_getElem? (h : ∀ n, r.chunkOf n = m[n]?) (chunks : List Chunk)
    (n : Node) : (r.remove chunks).chunkOf n = (m.remove chunks)[n]? := by
  induction chunks generalizing r m with
  | nil => exact h n
  | cons c rest ih =>
    refine ih (r := r.erase c) (m := m.erase c.node) fun n => ?_
    rw [chunkOf_erase, Std.ExtTreeMap.getElem?_erase, h]
    simp

/-- The map has the chunks of the set, each under its node. -/
structure Flattens (r : Retained) (m : ChunkMap) : Prop where
  built : r.Built
  chunkOf_eq : ∀ n, r.chunkOf n = m[n]?

namespace Flattens

/-- The empty set flattens to the empty map. -/
theorem empty : Flattens .empty ∅ where
  built := .empty
  chunkOf_eq n := by rw [chunkOf_empty, Std.ExtTreeMap.getElem?_empty]

/-- A call does the same to both. -/
theorem call (h : r.Flattens m) (e : Sink.Call) :
    (sink.call r e).Flattens (ChunkMap.sink.call m e) := by
  cases e with
  | add chunks =>
    exact ⟨h.built.add chunks, chunkOf_add_eq_getElem? h.chunkOf_eq chunks⟩
  | remove chunks =>
    exact ⟨h.built.remove chunks, chunkOf_remove_eq_getElem? h.chunkOf_eq chunks⟩
  | clear => exact .empty

/-- A set and its flat map go through the same calls together. -/
theorem calls (h : r.Flattens m) (calls : List Sink.Call) :
    (sink.calls r calls).Flattens (ChunkMap.sink.calls m calls) := by
  induction calls generalizing r m with
  | nil => exact h
  | cons e rest ih => exact ih (h.call e)

/-- Every chunk of the map is under its own node. -/
theorem node_eq (h : r.Flattens m) {n : Node} (hc : m[n]? = some c) : c.node = n :=
  h.built.node_eq ((h.chunkOf_eq n).trans hc)

/-- A node has a chunk just if it is a key of the flat map. -/
theorem isSome_chunkOf_iff (h : r.Flattens m) {n : Node} : (r.chunkOf n).isSome ↔ n ∈ m := by
  rw [h.chunkOf_eq, Std.ExtTreeMap.mem_iff_isSome_getElem?]

/-- A bucket has the chunks of its level, each at its origin. -/
theorem lod_eq_and_origin_eq (h : r.Flattens m) (hb : r.buckets[lod]? = some bucket)
    (hc : bucket[origin]? = some c) : c.lod = lod ∧ c.origin = origin := by
  have hn : r.chunkOf ⟨origin, lod⟩ = some c := (find?_of_getElem?_eq_some hb origin).trans hc
  exact node_eq_iff.1 (h.built.node_eq hn)

end Flattens

/-! ## Putting a map into buckets -/

/-- The chunks of a map in buckets. -/
def ofMap (m : ChunkMap) : Retained := empty.add (m.toList.map Prod.snd)

/-- The values of the flat map are the chunks that stand in the places of their own nodes. -/
theorem Flattens.mem_map_snd_iff (h : r.Flattens m) :
    c ∈ m.toList.map Prod.snd ↔ m[c.node]? = some c := by
  rw [List.mem_map]
  constructor
  · rintro ⟨⟨n, d⟩, hd, rfl⟩
    have hn := Std.ExtTreeMap.mem_toList_iff_getElem?_eq_some.1 hd
    rwa [h.node_eq hn]
  · intro hc
    exact ⟨(c.node, c), Std.ExtTreeMap.mem_toList_iff_getElem?_eq_some.2 hc, rfl⟩

/-- A set that is built anew out of a flat map flattens to it. -/
theorem Flattens.flattens_ofMap (h : r.Flattens m) : (ofMap m).Flattens m where
  built := .add .empty _
  chunkOf_eq n := by
    unfold ofMap
    by_cases hn : n ∈ (m.toList.map Prod.snd).map Chunk.node
    · obtain ⟨c, hc, rfl, hadd⟩ := exists_chunkOf_add .empty hn
      rw [hadd, h.mem_map_snd_iff.1 hc]
    · rw [chunkOf_add_of_not_mem _ hn, chunkOf_empty]
      cases hm : m[n]? with
      | none => rfl
      | some c =>
        have hc : c ∈ m.toList.map Prod.snd := h.mem_map_snd_iff.2 (by rw [h.node_eq hm, hm])
        exact absurd (List.mem_map.2 ⟨c, hc, h.node_eq hm⟩) hn

/-- There is one way to put a map into buckets. -/
theorem Flattens.eq_ofMap (h : r.Flattens m) : r = ofMap m :=
  h.built.tight.ext h.flattens_ofMap.built.tight fun n => by
    rw [h.chunkOf_eq, h.flattens_ofMap.chunkOf_eq]

/-! ## Counting -/

namespace Flattens

/-- The nodes of a set are the keys of its flat map, each as often. -/
theorem perm_keys (h : r.Flattens m) : r.nodes.Perm m.keys :=
  (List.perm_ext_iff_of_nodup r.nodup_nodes Std.ExtTreeMap.nodup_keys).2 fun n => by
    rw [mem_nodes, h.isSome_chunkOf_iff, Std.ExtTreeMap.mem_keys]

/-- A set counts as many chunks as its flat map has entries. -/
theorem count_eq (h : r.Flattens m) : r.count = m.size := by
  rw [count_eq_length, h.perm_keys.length_eq, Std.ExtTreeMap.length_keys]

/-- A bucket has as many chunks as the map has nodes of its level. -/
theorem size_bucket (h : r.Flattens m) (hb : r.buckets[lod]? = some bucket) :
    bucket.size = m.keys.countP (·.level == lod) := by
  have hnodup : (bucket.keys.map fun origin => (⟨origin, lod⟩ : Node)).Nodup :=
    Std.ExtTreeMap.nodup_keys.map fun _ _ he => (Node.mk.inj he).1
  have hperm : (bucket.keys.map fun origin => (⟨origin, lod⟩ : Node)).Perm
      (m.keys.filter (·.level == lod)) := by
    refine (List.perm_ext_iff_of_nodup hnodup (Std.ExtTreeMap.nodup_keys.filter _)).2 fun n => ?_
    rw [List.mem_map, List.mem_filter, Std.ExtTreeMap.mem_keys, ← h.isSome_chunkOf_iff, beq_iff_eq]
    constructor
    · rintro ⟨origin, ho, rfl⟩
      refine ⟨?_, rfl⟩
      rw [Std.ExtTreeMap.mem_keys, Std.ExtTreeMap.mem_iff_isSome_getElem?] at ho
      rwa [chunkOf, find?_of_getElem?_eq_some hb]
    · rintro ⟨hn, rfl⟩
      rw [chunkOf, find?_of_getElem?_eq_some hb, ← Std.ExtTreeMap.mem_iff_isSome_getElem?] at hn
      exact ⟨n.origin, Std.ExtTreeMap.mem_keys.2 hn, rfl⟩
  rw [List.countP_eq_length_filter, ← hperm.length_eq, List.length_map,
    Std.ExtTreeMap.length_keys]

/-- The counts are those of the levels that the map has nodes of. -/
theorem mem_lodCounts_iff (h : r.Flattens m) {k : Nat} :
    (lod, k) ∈ r.lodCounts ↔ k = m.keys.countP (·.level == lod) ∧ k ≠ 0 := by
  have hmem : (lod, k) ∈ r.lodCounts ↔ ∃ bucket, r.buckets[lod]? = some bucket ∧ bucket.size = k := by
    unfold lodCounts
    simp [Std.ExtTreeMap.mem_toList_iff_getElem?_eq_some]
  rw [hmem]
  constructor
  · rintro ⟨bucket, hb, rfl⟩
    exact ⟨h.size_bucket hb, fun hz =>
      h.built.tight _ _ hb (Std.ExtTreeMap.eq_empty_iff_size_eq_zero.2 hz)⟩
  · rintro ⟨rfl, hk⟩
    obtain ⟨n, hn, hlod⟩ := List.countP_pos_iff.1 (Nat.pos_of_ne_zero hk)
    rw [Std.ExtTreeMap.mem_keys, ← h.isSome_chunkOf_iff, chunkOf, beq_iff_eq.1 hlod] at hn
    cases hb : r.buckets[lod]? with
    | none =>
      rw [find?_of_getElem?_eq_none hb] at hn
      cases hn
    | some bucket => exact ⟨bucket, rfl, h.size_bucket hb⟩

end Flattens

/-- The counts of the levels add up to the count of the set. -/
theorem sum_lodCounts (r : Retained) : (r.lodCounts.map Prod.snd).sum = r.count := by
  rw [List.sum_eq_foldr, List.foldr_map]
  rfl

/-! ## Runs -/

/-- The set has the chunks of the map in the buckets of their levels, and nothing besides. -/
structure Groups (r : Retained) (m : ChunkMap) : Prop where
  eq_ofMap : r = ofMap m
  find?_eq : ∀ lod origin, r.find? lod origin = m[(⟨origin, lod⟩ : Node)]?
  contains_iff : ∀ lod origin, r.contains lod origin = true ↔ (⟨origin, lod⟩ : Node) ∈ m
  bucket_ne_empty : ∀ {lod : UInt32} {bucket : Bucket}, r.buckets[lod]? = some bucket → bucket ≠ ∅
  lod_eq_and_origin_eq : ∀ {lod : UInt32} {bucket : Bucket} {origin : Coord} {c : Chunk},
    r.buckets[lod]? = some bucket → bucket[origin]? = some c → c.lod = lod ∧ c.origin = origin
  mem_lodCounts_iff : ∀ lod k,
    (lod, k) ∈ r.lodCounts ↔ k = m.keys.countP (·.level == lod) ∧ k ≠ 0
  sum_lodCounts : (r.lodCounts.map Prod.snd).sum = r.count
  count_eq : r.count = m.size

/-- A set without empty buckets is its flat map, put into buckets by level. -/
theorem Flattens.groups (h : r.Flattens m) : r.Groups m where
  eq_ofMap := h.eq_ofMap
  find?_eq lod origin := h.chunkOf_eq ⟨origin, lod⟩
  contains_iff lod origin := h.isSome_chunkOf_iff (n := ⟨origin, lod⟩)
  bucket_ne_empty hb := h.built.tight _ _ hb
  lod_eq_and_origin_eq := h.lod_eq_and_origin_eq
  mem_lodCounts_iff _ _ := h.mem_lodCounts_iff
  sum_lodCounts := r.sum_lodCounts
  count_eq := h.count_eq

/-- A batch may be handed over in parts. -/
theorem calls_map_add (r : Retained) (parts : List (List Chunk)) :
    sink.calls r (parts.map .add) = r.add parts.flatten := by
  unfold Sink.calls Retained.add
  rw [List.foldl_map, List.foldl_flatten]
  rfl

/-- Removing parts one after the other removes all of them at once. -/
theorem calls_map_remove (r : Retained) (parts : List (List Chunk)) :
    sink.calls r (parts.map .remove) = r.remove parts.flatten := by
  unfold Sink.calls Retained.remove
  rw [List.foldl_map, List.foldl_flatten]
  rfl

/-- However a retained set is used, it has in its buckets the chunks of the flat map that is used
alike, and it is the same if batches are handed over in parts. -/
theorem calls_groups (calls : List Sink.Call) :
    (sink.calls .empty calls).Groups (ChunkMap.sink.calls ∅ calls) ∧
      ∀ (parts : List (List Chunk)) (rest : List Sink.Call),
        sink.calls .empty (calls ++ .add parts.flatten :: rest) =
            sink.calls .empty (calls ++ parts.map .add ++ rest) ∧
          sink.calls .empty (calls ++ .remove parts.flatten :: rest) =
            sink.calls .empty (calls ++ parts.map .remove ++ rest) := by
  refine ⟨(Flattens.empty.calls calls).groups, fun parts rest => ⟨?adds, ?removes⟩⟩
  case adds =>
    rw [List.append_assoc, Sink.calls_append, Sink.calls_append, Sink.calls_append, calls_map_add]
    rfl
  case removes =>
    rw [List.append_assoc, Sink.calls_append, Sink.calls_append, Sink.calls_append,
      calls_map_remove]
    rfl

end Retained
end VoxelStream
