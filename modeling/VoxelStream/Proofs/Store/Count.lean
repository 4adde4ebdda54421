import VoxelStream.Proofs.Store.Cache

/-!
# What fetches count

A cache counts its fetches by storage, and its figures are sums over the storages
(`Cache.total`). A fetch touches one storage, so each figure changes there as it changes in that one
(`Cache.total_setStorage`). Every fetch of a node of the cache's levels is a hit or a miss, and a
miss leaves one chunk more unless the fetch fails; `Cache.Counts` says so of any number of fetches.
-/

namespace VoxelStream

variable {γ : Type} {G : Generator γ}

/-- One, if a fetch failed. -/
def FetchError.count : Except FetchError Chunk → Nat
  | .ok _ => 0
  | .error _ => 1

attribute [ext] StorageStats

/-- The counts after one fetch more, which found its chunk or did not. -/
def StorageStats.tally (t : StorageStats) (found : Bool) : StorageStats :=
  if found then { t with hits := t.hits + 1 } else { t with misses := t.misses + 1 }

/-- A fetch that found its chunk is a hit. -/
theorem StorageStats.hits_tally (t : StorageStats) (found : Bool) :
    (t.tally found).hits = t.hits + found.toNat := by
  cases found <;> rfl

/-- A fetch that did not find its chunk is a miss. -/
theorem StorageStats.misses_tally (t : StorageStats) (found : Bool) :
    (t.tally found).misses = t.misses + (!found).toNat := by
  cases found <;> rfl

namespace Storage

/-- Whether a fetch is a hit or a miss depends on what was there, and not on what comes of it. -/
theorem Fetched.stats_eq {s s' : Storage} {coord : Coord} {g g' : γ}
    {result : Except FetchError Chunk} (h : Fetched G s coord g result s' g') :
    s'.stats = s.stats.tally (s.find? coord).isSome := by
  cases h with
  | hit hc => rw [hc]; rfl
  | made hfree _ _ | refused hfree _ | wrong hfree _ _ => rw [hfree]; rfl

/-- A fetch is a hit or a miss, and a miss leaves one chunk more unless the fetch fails. -/
theorem Fetched.counts {s s' : Storage} {coord : Coord} {g g' : γ}
    {result : Except FetchError Chunk} (h : Fetched G s coord g result s' g') :
    s'.stats.hits + s'.stats.misses = s.stats.hits + s.stats.misses + 1 ∧
      s'.stats.misses + s.size = s.stats.misses + s'.size + FetchError.count result := by
  cases h with
  | hit _ => exact ⟨Nat.add_right_comm .., rfl⟩
  | refused _ _ | wrong _ _ _ => exact ⟨rfl, Nat.add_right_comm ..⟩
  | @made c g' hnone _ _ =>
    have hfree : s.chunks.contains coord = false := by
      rw [show s.chunks.contains coord = _ from s.contains_eq_isSome coord, hnone]
      rfl
    have hsize : (s.chunks.insert coord c).size = s.chunks.size + 1 := by
      rw [Std.ExtTreeMap.size_insert, hfree]
      rfl
    refine ⟨rfl, ?_⟩
    show s.stats.misses + 1 + s.chunks.size = s.stats.misses + (s.chunks.insert coord c).size + 0
    omega

end Storage

namespace Cache

variable {c c' c'' : Cache} {n : Node}

/-! ## Sums over the storages -/

/-- The sum of a figure over all storages. -/
def total (f : Storage → Nat) (c : Cache) : Nat := c.slots.toList.foldr (fun s n => f s + n) 0

/-- Replacing one summand by another. -/
theorem foldr_add_set {α : Type} (f : α → Nat) {l : List α} {i : Nat} {a : α} (b : α)
    (h : l[i]? = some a) : (l.set i b).foldr (fun s n => f s + n) 0 + f a =
      l.foldr (fun s n => f s + n) 0 + f b := by
  induction l generalizing i with
  | nil => cases h
  | cons d rest ih =>
    cases i with
    | zero =>
      cases h
      rw [List.set_cons_zero, List.foldr_cons, List.foldr_cons]
      omega
    | succ i =>
      have hrest := ih (i := i) h
      rw [List.set_cons_succ, List.foldr_cons, List.foldr_cons]
      omega

/-- A storage that takes the place of another one changes a sum by the difference between the
two. -/
theorem total_setStorage (f : Storage → Nat) {level : UInt32} {s₀ : Storage} (s : Storage)
    (h : level.toNat < c.maxLevel.toNat + 1) (hs : c.storage? level = some s₀) :
    (c.setStorage level s h).total f + f s₀ = c.total f + f s := by
  unfold total setStorage
  rw [Vector.toList_set]
  refine foldr_add_set f s ?_
  rw [← hs, storage?, Vector.getElem?_toList]

/-- A cache is as large as its storages together. -/
theorem size_eq_total (c : Cache) : c.size = c.total Storage.size := rfl

/-- Hits are summed up from either end. -/
theorem hits_foldl (l : List StorageStats) (t : StorageStats) :
    (l.foldl (· + ·) t).hits = t.hits + l.foldr (fun s n => s.hits + n) 0 := by
  induction l generalizing t with
  | nil => rfl
  | cons s rest ih =>
    rw [List.foldl_cons, List.foldr_cons, ih]
    exact Nat.add_assoc ..

/-- Misses are summed up from either end. -/
theorem misses_foldl (l : List StorageStats) (t : StorageStats) :
    (l.foldl (· + ·) t).misses = t.misses + l.foldr (fun s n => s.misses + n) 0 := by
  induction l generalizing t with
  | nil => rfl
  | cons s rest ih =>
    rw [List.foldl_cons, List.foldr_cons, ih]
    exact Nat.add_assoc ..

/-- The hits of a cache are those of its storages together. -/
theorem hits_eq_total (c : Cache) : c.stats.hits = c.total (·.stats.hits) := by
  unfold stats total
  rw [hits_foldl, List.foldr_map]
  exact Nat.zero_add _

/-- The misses of a cache are those of its storages together. -/
theorem misses_eq_total (c : Cache) : c.stats.misses = c.total (·.stats.misses) := by
  unfold stats total
  rw [misses_foldl, List.foldr_map]
  exact Nat.zero_add _

/-! ## Fetches -/

/-- From one cache to another there were so many fetches, and so many of them failed. -/
structure Counts (c c' : Cache) (asked failed : Nat) : Prop where
  asked_eq : c'.stats.hits + c'.stats.misses = c.stats.hits + c.stats.misses + asked
  missed_eq : c'.stats.misses + c.size = c.stats.misses + c'.size + failed

/-- From a cache to itself there was no fetch. -/
theorem Counts.refl (c : Cache) : Counts c c 0 0 := ⟨rfl, rfl⟩

/-- What two caches in a row were asked for, and what of it failed, adds up. -/
theorem Counts.trans {asked failed asked' failed' : Nat} (h : Counts c c' asked failed)
    (h' : Counts c' c'' asked' failed') : Counts c c'' (asked + asked') (failed + failed') := by
  obtain ⟨hasked, hmissed⟩ := h
  obtain ⟨hasked', hmissed'⟩ := h'
  exact ⟨by omega, by omega⟩

/-- A fetch from a level of the cache is counted. -/
theorem fetch_counts (G : Generator γ) (g : γ) (h : n.level.toNat < c.maxLevel.toNat + 1) :
    Counts c (c.fetch G n g).2.1 1 (FetchError.count (c.fetch G n g).1) := by
  have hs : c.storage? n.level = some (c.slots.get ⟨n.level.toNat, h⟩) :=
    Vector.getElem?_eq_getElem h
  unfold fetch
  rw [dif_pos h]
  dsimp only
  generalize c.slots.get ⟨n.level.toNat, h⟩ = s at hs
  obtain ⟨hasked, hmissed⟩ := (Storage.fetch_fetched G s n.origin g).counts
  generalize (s.fetch G n.origin g).2.1 = s' at hasked hmissed
  have hhits := total_setStorage (·.stats.hits) s' h hs
  have hmisses := total_setStorage (·.stats.misses) s' h hs
  have hsize := total_setStorage Storage.size s' h hs
  rw [← hits_eq_total, ← hits_eq_total] at hhits
  rw [← misses_eq_total, ← misses_eq_total] at hmisses
  rw [← size_eq_total, ← size_eq_total] at hsize
  unfold setStorage at hhits hmisses hsize
  exact ⟨by omega, by omega⟩

/-- The counts of a level. -/
def statsOf? (c : Cache) (level : UInt32) : Option StorageStats :=
  (c.storage? level).map Storage.stats

/-- A fetch is counted at the level of its node. -/
theorem statsOf?_fetch (c : Cache) (G : Generator γ) (n : Node) (g : γ) (level : UInt32) :
    (c.fetch G n g).2.1.statsOf? level = if n.level = level then
      (c.statsOf? level).map (·.tally (c.find? n).isSome) else c.statsOf? level := by
  unfold statsOf?
  rw [storage?_fetch]
  split
  · next hlevel =>
    cases hs : c.storage? level with
    | none => rfl
    | some s =>
      have hfind : c.find? n = s.find? n.origin := by
        rw [find?_eq, hlevel, hs]
        rfl
      rw [hfind]
      exact congrArg some (Storage.fetch_fetched G s n.origin g).stats_eq
  · rfl

/-- All counts together go up by one, as those of the node's level do. -/
theorem stats_fetch (G : Generator γ) (g : γ) (h : n.level.toNat < c.maxLevel.toNat + 1) :
    (c.fetch G n g).2.1.stats = c.stats.tally (c.find? n).isSome := by
  have hs : c.storage? n.level = some (c.slots.get ⟨n.level.toNat, h⟩) :=
    Vector.getElem?_eq_getElem h
  have hfind : c.find? n = (c.slots.get ⟨n.level.toNat, h⟩).find? n.origin := by
    rw [find?_eq, hs]
    rfl
  unfold fetch
  rw [dif_pos h, hfind]
  dsimp only
  generalize c.slots.get ⟨n.level.toNat, h⟩ = s at hs
  have hstats := (Storage.fetch_fetched G s n.origin g).stats_eq
  generalize (s.fetch G n.origin g).2.1 = s' at hstats
  have hhits := total_setStorage (·.stats.hits) s' h hs
  have hmisses := total_setStorage (·.stats.misses) s' h hs
  rw [← hits_eq_total, ← hits_eq_total] at hhits
  rw [← misses_eq_total, ← misses_eq_total] at hmisses
  unfold setStorage at hhits hmisses
  rw [hstats, StorageStats.hits_tally] at hhits
  rw [hstats, StorageStats.misses_tally] at hmisses
  refine StorageStats.ext ?hits ?misses
  case hits =>
    rw [StorageStats.hits_tally]
    omega
  case misses =>
    rw [StorageStats.misses_tally]
    omega

/-- A new cache has nothing and has counted nothing. -/
theorem total_ofMaxLevel {f : Storage → Nat} (hf : ∀ level, f (.ofLevel level) = 0)
    (max : UInt32) : (ofMaxLevel max).total f = 0 := by
  have hzero : ∀ l : List Storage, (∀ s ∈ l, f s = 0) → l.foldr (fun s n => f s + n) 0 = 0 := by
    intro l hl
    induction l with
    | nil => rfl
    | cons s rest ih =>
      rw [List.foldr_cons, hl s List.mem_cons_self,
        ih fun s hs => hl s (List.mem_cons_of_mem _ hs)]
  refine hzero _ fun s hs => ?_
  rw [ofMaxLevel, Vector.mem_toList_iff] at hs
  obtain ⟨i, rfl⟩ := Vector.mem_ofFn.1 hs
  exact hf _

/-- A new cache is empty. -/
theorem size_ofMaxLevel (max : UInt32) : (ofMaxLevel max).size = 0 :=
  total_ofMaxLevel (fun _ => rfl) max

/-- A new cache has counted nothing. -/
theorem stats_ofMaxLevel (max : UInt32) : (ofMaxLevel max).stats = {} := by
  refine StorageStats.ext ?hits ?misses
  case hits =>
    rw [hits_eq_total]
    exact total_ofMaxLevel (fun _ => rfl) max
  case misses =>
    rw [misses_eq_total]
    exact total_ofMaxLevel (fun _ => rfl) max

end Cache
end VoxelStream
