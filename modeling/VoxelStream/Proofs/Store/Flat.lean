import VoxelStream.Proofs.Store.Count
import VoxelStream.Proofs.Store.Dialogue

/-!
# One flat map in place of a storage for each level

A cache keeps a storage for each level, but whoever uses it cannot tell that from a single map whose
keys are whole nodes (`FlatCache`). The two answer alike, and they have as many chunks and the same
counts (`Cache.Flattens`): a fetch does to both what its node and the generator call for
(`Cache.Flattens.fetch`). What either has for a node is what the first successful fetch of that node
got (`Cache.recalls_run`).
-/

namespace VoxelStream

variable {γ : Type} {G : Generator γ}

/-- Chunks by their whole nodes, and the counts of all fetches. -/
structure FlatCache where
  maxLevel : UInt32
  chunks : Std.ExtTreeMap Node Chunk := ∅
  stats : StorageStats := {}

namespace FlatCache

/-- Nothing is stored yet. -/
def ofMaxLevel (maxLevel : UInt32) : FlatCache := { maxLevel }

/-- The chunk stored for a node. -/
def find? (m : FlatCache) (n : Node) : Option Chunk := m.chunks[n]?

/-- Counts a fetch that found its chunk or did not. -/
def count (m : FlatCache) (found : Bool) : FlatCache := { m with stats := m.stats.tally found }

/-- The chunk of a node, made and stored if it was not there. -/
def fetch (G : Generator γ) (m : FlatCache) (n : Node) (g : γ) :
    Except FetchError Chunk × FlatCache × γ :=
  if m.maxLevel < n.level then (.error (.storage (.levelOutOfRange n.level m.maxLevel)), m, g)
  else
    match m.find? n with
    | some c => (.ok c, m.count true, g)
    | none =>
      match G.generate n g with
      | (.error f, g) => (.error (.fault f), m.count false, g)
      | (.ok c, g) =>
        if c.node = n then
          (.ok c, { m.count false with chunks := m.chunks.insert n c }, g)
        else (.error (.storage (.nodeMismatch n c.node)), m.count false, g)

end FlatCache

namespace Cache

/-- What can be asked of a cache. Every fetch may come with a generator of its own. -/
inductive Request (γ : Type) where
  | fetch (G : Generator γ) (n : Node)
  | find (n : Node)

/-- What was asked of a cache, and what it answered. -/
inductive Exchange where
  | fetch (n : Node) (result : Except FetchError Chunk)
  | find (n : Node) (result : Option Chunk)

/-- The chunk of a node that was fetched successfully. -/
def Exchange.got? (n : Node) : Exchange → Option Chunk
  | .fetch m result => if m = n then result.toOption else none
  | .find _ _ => none

/-- Answers a request. -/
def ask (t : Cache × γ) : Request γ → Exchange × Cache × γ
  | .fetch G n => (.fetch n (t.1.fetch G n t.2).1, (t.1.fetch G n t.2).2)
  | .find n => (.find n (t.1.find? n), t)

end Cache

/-- Answers a request as a cache does. -/
def FlatCache.ask (t : FlatCache × γ) : Cache.Request γ → Cache.Exchange × FlatCache × γ
  | .fetch G n => (.fetch n (t.1.fetch G n t.2).1, (t.1.fetch G n t.2).2)
  | .find n => (.find n (t.1.find? n), t)

namespace Cache

variable {c c' : Cache} {m : FlatCache} {n : Node} {g g' : γ}

/-! ## Sizes -/

/-- A cache is empty just if it has no chunk. -/
theorem isEmpty_eq_true_iff (c : Cache) : c.isEmpty = true ↔ c.size = 0 := by
  have hlist : ∀ l : List Storage,
      l.all Storage.isEmpty = true ↔ l.foldr (fun s n => s.size + n) 0 = 0 := by
    intro l
    induction l with
    | nil => simp
    | cons s rest ih =>
      have hs : s.isEmpty = true ↔ s.size = 0 := by
        rw [Storage.isEmpty, Std.ExtTreeMap.isEmpty_iff, Std.ExtTreeMap.eq_empty_iff_size_eq_zero]
        rfl
      rw [List.all_cons, Bool.and_eq_true, List.foldr_cons, ih, hs, Nat.add_eq_zero_iff]
  exact hlist c.slots.toList

/-- A fetch that misses makes the cache larger by one, unless it fails. -/
theorem size_fetch_add (G : Generator γ) (g : γ) (h : n.level.toNat < c.maxLevel.toNat + 1) :
    (c.fetch G n g).2.1.size + FetchError.count (c.fetch G n g).1 =
      c.size + (!(c.find? n).isSome).toNat := by
  have hmissed := (fetch_counts G g h).missed_eq
  rw [stats_fetch G g h, StorageStats.misses_tally] at hmissed
  omega

/-! ## The flat map -/

/-- The flat map has the same chunks and the same counts. -/
structure Flattens (c : Cache) (m : FlatCache) : Prop where
  sound : c.Sound
  maxLevel_eq : m.maxLevel = c.maxLevel
  find?_eq : m.find? = c.find?
  size_eq : m.chunks.size = c.size
  stats_eq : m.stats = c.stats

namespace Flattens

/-- A new cache and a new flat map agree. -/
theorem ofMaxLevel (max : UInt32) : (ofMaxLevel max).Flattens (.ofMaxLevel max) where
  sound := sound_ofMaxLevel max
  maxLevel_eq := rfl
  find?_eq := by
    funext n
    rw [find?_ofMaxLevel]
    exact Std.ExtTreeMap.getElem?_empty
  size_eq := (size_ofMaxLevel max).symm
  stats_eq := (stats_ofMaxLevel max).symm

/-- A cache is empty just if its flat map is. -/
theorem isEmpty_eq (h : c.Flattens m) : c.isEmpty = m.chunks.isEmpty := by
  rw [Bool.eq_iff_iff, isEmpty_eq_true_iff, ← h.size_eq, Std.ExtTreeMap.isEmpty_iff,
    Std.ExtTreeMap.eq_empty_iff_size_eq_zero]

/-- A fetch that stores nothing is counted. -/
theorem count {found : Bool} (h : c.Flattens m) (hsound : c'.Sound)
    (hmax : c'.maxLevel = c.maxLevel) (hfind : c'.find? = c.find?) (hsize : c'.size = c.size)
    (hstats : c'.stats = c.stats.tally found) : c'.Flattens (m.count found) where
  sound := hsound
  maxLevel_eq := h.maxLevel_eq.trans hmax.symm
  find?_eq := h.find?_eq.trans hfind.symm
  size_eq := h.size_eq.trans hsize.symm
  stats_eq := by
    rw [hstats, ← h.stats_eq]
    rfl

/-- A fetch that stores a chunk is counted as a miss. -/
theorem insert {chunk : Chunk} (h : c.Flattens m) (hsound : c'.Sound)
    (hmax : c'.maxLevel = c.maxLevel) (hfree : c.find? n = none)
    (hfind : ∀ o, c'.find? o = if n = o then some chunk else c.find? o)
    (hsize : c'.size = c.size + 1) (hstats : c'.stats = c.stats.tally false) :
    c'.Flattens { m.count false with chunks := m.chunks.insert n chunk } where
  sound := hsound
  maxLevel_eq := h.maxLevel_eq.trans hmax.symm
  find?_eq := by
    funext o
    rw [hfind, ← h.find?_eq]
    unfold FlatCache.find?
    rw [Std.ExtTreeMap.getElem?_insert]
    simp
  size_eq := by
    have hnew : m.chunks.contains n = false := by
      rw [Std.ExtTreeMap.contains_eq_isSome_getElem?, show m.chunks[n]? = c.find? n from
        congrFun h.find?_eq n, hfree]
      rfl
    rw [hsize, ← h.size_eq, Std.ExtTreeMap.size_insert, hnew]
    rfl
  stats_eq := by
    rw [hstats, ← h.stats_eq]
    rfl

/-- A fetch goes alike from both. -/
theorem fetch (h : c.Flattens m) (G : Generator γ) (n : Node) (g : γ) :
    (m.fetch G n g).1 = (c.fetch G n g).1 ∧ (m.fetch G n g).2.2 = (c.fetch G n g).2.2 ∧
      (c.fetch G n g).2.1.Flattens (m.fetch G n g).2.1 := by
  by_cases hlevel : c.maxLevel < n.level
  · rw [fetch_of_lt G g hlevel, FlatCache.fetch, h.maxLevel_eq, if_pos hlevel]
    exact ⟨rfl, rfl, h⟩
  have hslot : n.level.toNat < c.maxLevel.toNat + 1 := by
    rw [UInt32.lt_iff_toNat_lt] at hlevel
    omega
  have hfetched := fetch_fetched h.sound G n g
  have hsound := h.sound.fetch G n g
  have hmax := c.maxLevel_fetch G n g
  have hsize := size_fetch_add G g hslot
  have hstats := stats_fetch G g hslot
  rw [FlatCache.fetch, h.maxLevel_eq, if_neg hlevel, h.find?_eq]
  generalize (c.fetch G n g).1 = result at hfetched hsize ⊢
  generalize (c.fetch G n g).2.1 = c' at hfetched hsound hmax hsize hstats ⊢
  generalize (c.fetch G n g).2.2 = g' at hfetched ⊢
  cases hfetched with
  | hit hc hfind =>
    rw [hc] at hsize hstats ⊢
    exact ⟨rfl, rfl, h.count hsound hmax hfind hsize hstats⟩
  | made hfree hgen hnode hfind =>
    rw [hfree] at hsize hstats ⊢
    simp only [hgen, if_pos hnode]
    exact ⟨trivial, trivial, h.insert hsound hmax hfree hfind hsize hstats⟩
  | refused hfree hgen hfind =>
    rw [hfree] at hsize hstats ⊢
    simp only [hgen]
    exact ⟨trivial, trivial, h.count hsound hmax hfind (Nat.add_right_cancel hsize) hstats⟩
  | wrong hfree hgen hnode hfind =>
    rw [hfree] at hsize hstats ⊢
    simp only [hgen, if_neg hnode]
    exact ⟨trivial, trivial, h.count hsound hmax hfind (Nat.add_right_cancel hsize) hstats⟩
  | outside hout => exact absurd hslot hout

/-- A cache and its flat map answer alike, and agree afterwards. -/
theorem ask {t : Cache × γ} {t' : FlatCache × γ} (h : t.1.Flattens t'.1) (hg : t'.2 = t.2)
    (r : Request γ) : (FlatCache.ask t' r).1 = (Cache.ask t r).1 ∧
      (Cache.ask t r).2.1.Flattens (FlatCache.ask t' r).2.1 ∧
      (FlatCache.ask t' r).2.2 = (Cache.ask t r).2.2 := by
  cases r with
  | fetch G n =>
    obtain ⟨hresult, hstate, hnext⟩ := h.fetch G n t.2
    rw [FlatCache.ask, Cache.ask, hg, hresult]
    exact ⟨rfl, hnext, hstate⟩
  | find n =>
    rw [FlatCache.ask, Cache.ask, h.find?_eq]
    exact ⟨rfl, h, hg⟩

end Flattens

/-! ## The history of a cache -/

/-- The cache has for each node what the first successful fetch of the node got. -/
structure Recalls (max : UInt32) (past : List Exchange) (c : Cache) : Prop where
  sound : c.Sound
  maxLevel_eq : c.maxLevel = max
  find?_eq : ∀ n, c.find? n = past.findSome? (·.got? n)

/-- A new cache has nothing to recall. -/
theorem recalls_ofMaxLevel (max : UInt32) : Recalls max [] (ofMaxLevel max) where
  sound := sound_ofMaxLevel max
  maxLevel_eq := rfl
  find?_eq := find?_ofMaxLevel max

/-- A cache and its history go on together. -/
theorem Recalls.ask {max : UInt32} {past : List Exchange} {t : Cache × γ}
    (h : Recalls max past t.1) (r : Request γ) :
    Recalls max (past ++ [(Cache.ask t r).1]) (Cache.ask t r).2.1 := by
  cases r with
  | fetch G n =>
    refine ⟨h.sound.fetch G n t.2, (t.1.maxLevel_fetch G n t.2).trans h.maxLevel_eq, fun o => ?_⟩
    rw [List.findSome?_append, ← h.find?_eq, List.findSome?_singleton]
    exact (fetch_fetched h.sound G n t.2).find?_eq o
  | find n =>
    refine ⟨h.sound, h.maxLevel_eq, fun o => ?_⟩
    rw [List.findSome?_append, ← h.find?_eq, List.findSome?_singleton]
    exact Option.or_none.symm

/-- However a new cache is used, it has for each node what the first successful fetch got. -/
theorem recalls_run (max : UInt32) (requests : List (Request γ)) (g : γ) :
    Recalls max (Dialogue.run ask (ofMaxLevel max, g) requests).1
      (Dialogue.run ask (ofMaxLevel max, g) requests).2.1 :=
  Dialogue.run_history (fun past (t : Cache × γ) => Recalls max past t.1) (fun r h => h.ask r)
    (recalls_ofMaxLevel max) requests

/-- However a new cache is used, a new flat map answers alike. -/
theorem flattens_run (max : UInt32) (requests : List (Request γ)) (g : γ) :
    (Dialogue.run FlatCache.ask (.ofMaxLevel max, g) requests).1 =
        (Dialogue.run ask (ofMaxLevel max, g) requests).1 ∧
      (Dialogue.run ask (ofMaxLevel max, g) requests).2.1.Flattens
        (Dialogue.run FlatCache.ask (.ofMaxLevel max, g) requests).2.1 ∧
      (Dialogue.run FlatCache.ask (.ofMaxLevel max, g) requests).2.2 =
        (Dialogue.run ask (ofMaxLevel max, g) requests).2.2 := by
  have hnew : (ofMaxLevel max, g).1.Flattens (FlatCache.ofMaxLevel max, g).1 ∧
      (FlatCache.ofMaxLevel max, g).2 = (ofMaxLevel max, g).2 := ⟨.ofMaxLevel max, rfl⟩
  have h := Dialogue.run_alike (f := id)
    (R := fun (t : Cache × γ) (t' : FlatCache × γ) => t.1.Flattens t'.1 ∧ t'.2 = t.2)
    (fun r h => h.1.ask h.2 r) hnew requests
  rw [List.map_id] at h
  exact h

/-- However a new cache is used, answers and counts are those of a flat map that is used alike, and
for each node there is what the first successful fetch of the node got. Each slot up to the greatest
level has the storage of its level. A fetch leaves all storages but that of the node's level as they
are, and beyond the greatest level it calls nobody and changes nothing. -/
theorem refines_flat (max : UInt32) (requests : List (Request γ)) (g : γ) :
    ∃ past c m g', Dialogue.run ask (ofMaxLevel max, g) requests = (past, c, g') ∧
      Dialogue.run FlatCache.ask (.ofMaxLevel max, g) requests = (past, m, g') ∧
      (∀ n, c.find? n = m.find? n ∧ c.find? n = past.findSome? (·.got? n)) ∧
      c.size = m.chunks.size ∧ c.isEmpty = m.chunks.isEmpty ∧ c.stats = m.stats ∧
      (∀ level, (∃ s, c.storage? level = some s) ↔ level ≤ max) ∧
      (∀ level s, c.storage? level = some s → s.level = level) ∧
      ∀ {φ : Type} (F : Generator φ) (n : Node) (f : φ),
        (∀ level, level ≠ n.level → (c.fetch F n f).2.1.storage? level = c.storage? level) ∧
        (max < n.level →
          c.fetch F n f = (.error (.storage (.levelOutOfRange n.level max)), c, f)) := by
  have hrecalls := recalls_run max requests g
  obtain ⟨hpast, hflat, hstate⟩ := flattens_run max requests g
  generalize Dialogue.run FlatCache.ask (.ofMaxLevel max, g) requests = flat at hpast hflat hstate
  generalize Dialogue.run ask (ofMaxLevel max, g) requests = outcome at hrecalls hpast hflat hstate
  obtain ⟨past, c, g'⟩ := outcome
  obtain ⟨past', m, g''⟩ := flat
  cases hpast
  cases hstate
  have hmax : c.maxLevel = max := hrecalls.maxLevel_eq
  have hfind : ∀ n, c.find? n = m.find? n := congrFun hflat.find?_eq.symm
  refine ⟨past, c, m, g', rfl, rfl, fun n => ⟨hfind n, hrecalls.find?_eq n⟩,
    hflat.size_eq.symm, hflat.isEmpty_eq, hflat.stats_eq.symm, fun level => ?slots,
    fun level s hs => hrecalls.sound.level_eq hs, fun F n f => ⟨fun level hne => ?others, ?beyond⟩⟩
  case slots =>
    rw [← Option.ne_none_iff_exists', ne_eq, storage?_eq_none_iff, hmax, UInt32.not_lt]
  case others => rw [storage?_fetch, if_neg hne.symm]
  case beyond =>
    rw [← hmax]
    exact fetch_of_lt F f

end Cache
end VoxelStream
