import VoxelStream.Octree.NodeSet
import VoxelStream.Store.Cache

/-!
# Resolving nodes

Nodes that come into view are looked up in the cache one after the other, and the chunks that it
lacks are made. A node whose chunk cannot be had is set aside and the others go on, unless the
generator takes its caller down: then there is no resolution at all. Only the nodes asked for are
set aside (`mem_of_mem_failed`), and if any chunk was had then not all of them are
(`exists_not_mem_failed`).
-/

namespace VoxelStream

/-- Whether the error takes down whoever asked for the chunk. -/
def FetchError.isFatal : FetchError → Bool
  | .storage _ => false
  | .fault f => f.isFatal

/-- What has become of the nodes so far. -/
structure Resolution where
  cache : Cache
  /-- The chunks had, in the order of their nodes. -/
  chunks : Array Chunk := #[]
  /-- The nodes without a chunk. -/
  failed : NodeSet := ∅

namespace Resolution

variable {γ : Type} {G : Generator γ}

/-- Resolves nodes in order; there is no result if one of them takes its caller down. -/
def resolve (G : Generator γ) (r : Resolution) : List Node → γ → Option Resolution × γ
  | [], g => (some r, g)
  | n :: rest, g =>
    match r.cache.fetch G n g with
    | (.ok c, cache, g) => resolve G { r with cache, chunks := r.chunks.push c } rest g
    | (.error e, cache, g) =>
      if e.isFatal then (none, g)
      else resolve G { r with cache, failed := r.failed.insert n } rest g

section
variable {r : Resolution} {n : Node} {rest : List Node} {g : γ}

/-- A node is had, and the others are resolved. -/
theorem resolve_cons_of_ok {c : Chunk} (h : (r.cache.fetch G n g).1 = .ok c) :
    r.resolve G (n :: rest) g = resolve G
      { r with cache := (r.cache.fetch G n g).2.1, chunks := r.chunks.push c } rest
      (r.cache.fetch G n g).2.2 := by
  rcases heq : r.cache.fetch G n g with ⟨result, cache, g'⟩
  rw [heq] at h
  cases h
  rw [resolve, heq]

/-- A node is set aside, and the others are resolved. -/
theorem resolve_cons_of_error {e : FetchError} (h : (r.cache.fetch G n g).1 = .error e)
    (he : e.isFatal = false) : r.resolve G (n :: rest) g = resolve G
      { r with cache := (r.cache.fetch G n g).2.1, failed := r.failed.insert n } rest
      (r.cache.fetch G n g).2.2 := by
  rcases heq : r.cache.fetch G n g with ⟨result, cache, g'⟩
  rw [heq] at h
  cases h
  rw [resolve, heq]
  dsimp only
  rw [he]
  rfl

end

/-- Only nodes of the list can newly fail. -/
theorem mem_of_mem_failed {r r' : Resolution} {l : List Node} {g g' : γ} {n : Node}
    (h : r.resolve G l g = (some r', g')) (hn : n ∈ r'.failed) : n ∈ r.failed ∨ n ∈ l := by
  induction l generalizing r g with
  | nil => cases h; exact .inl hn
  | cons m rest ih =>
    rw [resolve] at h
    split at h
    · rcases ih h with hr | hr
      · exact .inl hr
      · exact .inr (.tail _ hr)
    · split at h
      · cases h
      · rcases ih h with hr | hr
        · rcases NodeSet.mem_insert.1 hr with rfl | hr
          · exact .inr (.head _)
          · exact .inl hr
        · exact .inr (.tail _ hr)

/-- If a chunk was had, some node of the list did not fail. -/
theorem exists_not_mem_failed {r r' : Resolution} {l : List Node} {g g' : γ}
    (h : r.resolve G l g = (some r', g')) (hl : l.Nodup) (hr : ∀ n ∈ l, n ∉ r.failed)
    (hc : r.chunks.size < r'.chunks.size) : ∃ n ∈ l, n ∉ r'.failed := by
  induction l generalizing r g with
  | nil => cases h; omega
  | cons m rest ih =>
    rw [List.nodup_cons] at hl
    rw [resolve] at h
    split at h
    · refine ⟨m, .head _, fun hm => ?_⟩
      rcases mem_of_mem_failed h hm with hm | hm
      · exact hr m (.head _) hm
      · exact hl.1 hm
    · split at h
      · cases h
      · obtain ⟨n, hn, hnf⟩ := ih h hl.2
          (NodeSet.not_mem_insert hl.1 fun n hn => hr n (.tail _ hn)) hc
        exact ⟨n, .tail _ hn, hnf⟩

end Resolution
end VoxelStream
