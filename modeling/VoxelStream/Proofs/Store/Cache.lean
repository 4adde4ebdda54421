import VoxelStream.Store.Cache

/-!
# The cache as one map

`Storage.Fetched` lists the four ways in which a fetch from one storage can go. A cache is sound if
each slot has the storage of its level and every chunk is stored under its own node (`Cache.Sound`).
A sound cache is one map from nodes to chunks (`Cache.find?`), and a fetch does to it what
`Cache.Fetched` says: it leaves the map as it is if it fails, and otherwise the map has the chunk
fetched under the node asked for. `Cache.fetch_fetched` is the agreement.
-/

namespace VoxelStream

variable {γ : Type} {G : Generator γ}

namespace Storage

/-- A place is contained just if it has a chunk. -/
theorem contains_eq_isSome (s : Storage) (coord : Coord) :
    s.contains coord = (s.find? coord).isSome :=
  Std.ExtTreeMap.contains_eq_isSome_getElem?

/-- What becomes of a fetch: its result, the storage and the generator's state after it. -/
inductive Fetched (G : Generator γ) (s : Storage) (coord : Coord) (g : γ) :
    Except FetchError Chunk → Storage → γ → Prop
  | hit {c : Chunk} : s.find? coord = some c → Fetched G s coord g (.ok c) s.countHit g
  | made {c : Chunk} {g' : γ} : s.find? coord = none →
      G.generate ⟨coord, s.level⟩ g = (.ok c, g') → c.node = ⟨coord, s.level⟩ →
      Fetched G s coord g (.ok c) { s.countMiss with chunks := s.chunks.insert coord c } g'
  | refused {f : Fault} {g' : γ} : s.find? coord = none →
      G.generate ⟨coord, s.level⟩ g = (.error f, g') →
      Fetched G s coord g (.error (.fault f)) s.countMiss g'
  | wrong {c : Chunk} {g' : γ} : s.find? coord = none →
      G.generate ⟨coord, s.level⟩ g = (.ok c, g') → c.node ≠ ⟨coord, s.level⟩ →
      Fetched G s coord g (.error (.storage (.nodeMismatch ⟨coord, s.level⟩ c.node))) s.countMiss g'

/-- A fetch goes one of the four ways: a chunk made in a fetch is never a second one. -/
theorem fetch_fetched (G : Generator γ) (s : Storage) (coord : Coord) (g : γ) :
    Fetched G s coord g (s.fetch G coord g).1 (s.fetch G coord g).2.1 (s.fetch G coord g).2.2 := by
  unfold fetch
  cases hf : s.find? coord with
  | some c => exact .hit hf
  | none =>
    dsimp only
    have hlevel : s.countMiss.level = s.level := rfl
    rw [hlevel]
    have hfree : s.countMiss.contains coord = false := by
      rw [contains_eq_isSome, show s.countMiss.find? coord = none from hf]
      rfl
    cases hg : G.generate ⟨coord, s.level⟩ g with
    | mk result g' =>
      cases result with
      | error f => exact .refused hf hg
      | ok c =>
        dsimp only
        unfold store
        rw [hlevel]
        by_cases hn : c.node = ⟨coord, s.level⟩
        · rw [if_neg (not_not_intro hn), hfree]
          exact .made hf hg hn
        · rw [if_pos hn]
          exact .wrong hf hg hn

/-- A storage keeps its level. -/
theorem Fetched.level {s s' : Storage} {coord : Coord} {g g' : γ}
    {result : Except FetchError Chunk} (h : Fetched G s coord g result s' g') :
    s'.level = s.level := by
  cases h <;> rfl

end Storage

namespace Cache

variable {c : Cache} {n : Node}

/-- Every slot has the storage of its level, and every chunk is stored under its own node. -/
structure Sound (c : Cache) : Prop where
  level_eq : ∀ {level s}, c.storage? level = some s → s.level = level
  node_eq : ∀ {n chunk}, c.find? n = some chunk → chunk.node = n

/-- The chunk of a node is looked up in the storage of its level. -/
theorem find?_eq (c : Cache) (n : Node) :
    c.find? n = (c.storage? n.level).bind (·.find? n.origin) := rfl

/-- The storages of a new cache are new. -/
theorem storage?_ofMaxLevel {max level : UInt32} {s : Storage}
    (h : (ofMaxLevel max).storage? level = some s) : s = .ofLevel level := by
  unfold storage? ofMaxLevel at h
  obtain ⟨hlt, hs⟩ := Vector.getElem?_eq_some_iff.1 h
  rw [Vector.getElem_ofFn] at hs
  rw [← hs, UInt32.ofNat_toNat]

/-- There are storages for the levels up to the greatest one. -/
theorem storage?_eq_none_iff {level : UInt32} : c.storage? level = none ↔ c.maxLevel < level := by
  unfold storage?
  rw [Vector.getElem?_eq_none_iff, UInt32.lt_iff_toNat_lt]
  exact Iff.rfl

/-- A new cache has no chunk. -/
theorem find?_ofMaxLevel (max : UInt32) (n : Node) : (ofMaxLevel max).find? n = none := by
  rw [find?_eq]
  cases hs : (ofMaxLevel max).storage? n.level with
  | none => rfl
  | some s =>
    rw [storage?_ofMaxLevel hs]
    exact Std.ExtTreeMap.getElem?_empty

/-- A new cache is sound. -/
theorem sound_ofMaxLevel (max : UInt32) : (ofMaxLevel max).Sound where
  level_eq h := by rw [storage?_ofMaxLevel h]; rfl
  node_eq h := by rw [find?_ofMaxLevel] at h; cases h

/-! ## Replacing one storage -/

/-- The cache with another storage in the slot of a level. -/
def setStorage (c : Cache) (level : UInt32) (s : Storage)
    (h : level.toNat < c.maxLevel.toNat + 1) : Cache :=
  { c with slots := c.slots.set level.toNat s h }

section
variable {level : UInt32} {s : Storage} (h : level.toNat < c.maxLevel.toNat + 1)

/-- A storage takes the place of one level, and the other levels have theirs as before. -/
theorem storage?_setStorage (m : UInt32) :
    (c.setStorage level s h).storage? m = if level = m then some s else c.storage? m := by
  unfold setStorage storage?
  rw [Vector.getElem?_set]
  by_cases hm : level = m
  · rw [if_pos hm, if_pos (congrArg _ hm)]
  · rw [if_neg hm, if_neg (mt UInt32.toNat_inj.1 hm)]

/-- The map after a storage was replaced. -/
theorem find?_setStorage (n : Node) :
    (c.setStorage level s h).find? n = if level = n.level then s.find? n.origin else c.find? n := by
  rw [find?_eq, storage?_setStorage]
  by_cases hm : level = n.level
  · rw [if_pos hm, if_pos hm]
    rfl
  · rw [if_neg hm, if_neg hm]
    rfl

/-- A storage with the chunks of the old one makes for the same map. -/
theorem find?_setStorage_of_eq {s₀ : Storage} (hs : c.storage? level = some s₀)
    (hf : s.find? = s₀.find?) : (c.setStorage level s h).find? = c.find? := by
  funext m
  rw [find?_setStorage]
  split
  · next hm =>
    rw [hf, find?_eq, ← hm, hs]
    rfl
  · rfl

/-- A storage with one chunk more makes for a map with one chunk more. -/
theorem find?_setStorage_of_insert {s₀ : Storage} {n : Node} {chunk : Chunk}
    (hn : n.level.toNat < c.maxLevel.toNat + 1) (hs : c.storage? n.level = some s₀)
    (hf : ∀ o, s.find? o = if n.origin = o then some chunk else s₀.find? o) (m : Node) :
    (c.setStorage n.level s hn).find? m = if n = m then some chunk else c.find? m := by
  rw [find?_setStorage, hf]
  by_cases hm : n.level = m.level
  · rw [if_pos hm]
    by_cases ho : n.origin = m.origin
    · have he : n = m := by
        cases n
        cases m
        exact congr (congrArg _ ho) hm
      rw [if_pos ho, if_pos he]
    · rw [if_neg ho, if_neg (fun he => ho (congrArg _ he)), find?_eq, ← hm, hs]
      rfl
  · rw [if_neg hm, if_neg (fun he => hm (congrArg _ he))]

end

/-- What becomes of a fetch, as far as the map of the cache tells: its result, the cache and the
generator's state after it. -/
inductive Fetched (G : Generator γ) (c : Cache) (n : Node) (g : γ) :
    Except FetchError Chunk → Cache → γ → Prop
  | hit {chunk : Chunk} {c' : Cache} : c.find? n = some chunk → c'.find? = c.find? →
      Fetched G c n g (.ok chunk) c' g
  | made {chunk : Chunk} {c' : Cache} {g' : γ} : c.find? n = none →
      G.generate n g = (.ok chunk, g') → chunk.node = n →
      (∀ m, c'.find? m = if n = m then some chunk else c.find? m) →
      Fetched G c n g (.ok chunk) c' g'
  | refused {f : Fault} {c' : Cache} {g' : γ} : c.find? n = none →
      G.generate n g = (.error f, g') → c'.find? = c.find? →
      Fetched G c n g (.error (.fault f)) c' g'
  | wrong {chunk : Chunk} {c' : Cache} {g' : γ} : c.find? n = none →
      G.generate n g = (.ok chunk, g') → chunk.node ≠ n → c'.find? = c.find? →
      Fetched G c n g (.error (.storage (.nodeMismatch n chunk.node))) c' g'
  | outside : ¬ n.level.toNat < c.maxLevel.toNat + 1 →
      Fetched G c n g (.error (.storage (.levelOutOfRange n.level c.maxLevel))) c g

/-- A fetch from the slot of a node's level is a fetch of the node. -/
theorem fetched_setStorage (hc : c.Sound) {g g' : γ} {s s' : Storage}
    {result : Except FetchError Chunk} (h : n.level.toNat < c.maxLevel.toNat + 1)
    (hs : c.storage? n.level = some s) (hf : Storage.Fetched G s n.origin g result s' g') :
    Fetched G c n g result (c.setStorage n.level s' h) g' := by
  have hlevel : s.level = n.level := hc.level_eq hs
  have hnode : (⟨n.origin, s.level⟩ : Node) = n := by rw [hlevel]
  have hfind : c.find? n = s.find? n.origin := by rw [find?_eq, hs]; rfl
  cases hf with
  | hit ho => exact .hit (hfind.trans ho) (find?_setStorage_of_eq h hs rfl)
  | refused ho hg =>
    rw [hnode] at hg
    exact .refused (hfind.trans ho) hg (find?_setStorage_of_eq h hs rfl)
  | wrong ho hg hw =>
    rw [hnode] at hg hw ⊢
    exact .wrong (hfind.trans ho) hg hw (find?_setStorage_of_eq h hs rfl)
  | @made chunk g' ho hg hw =>
    rw [hnode] at hg hw
    refine .made (hfind.trans ho) hg hw (find?_setStorage_of_insert h hs fun o => ?_)
    unfold Storage.find? Storage.countMiss
    simp [Std.ExtTreeMap.getElem?_insert]

/-- Whatever is fetched of a cache is out of range, found, made and stored, or failed. -/
theorem fetch_fetched (hc : c.Sound) (G : Generator γ) (n : Node) (g : γ) :
    Fetched G c n g (c.fetch G n g).1 (c.fetch G n g).2.1 (c.fetch G n g).2.2 := by
  unfold fetch
  split
  · next h =>
    have hs : c.storage? n.level = some (c.slots.get ⟨n.level.toNat, h⟩) :=
      Vector.getElem?_eq_getElem h
    exact fetched_setStorage hc h hs (Storage.fetch_fetched G _ n.origin g)
  · next h => exact .outside h

/-- After a fetch there is for a node what was there, or else what the fetch got for it. -/
theorem Fetched.find?_eq {c' : Cache} {g g' : γ} {result : Except FetchError Chunk}
    (h : Fetched G c n g result c' g') (o : Node) :
    c'.find? o = (c.find? o).or (if n = o then result.toOption else none) := by
  cases h with
  | @hit chunk c' hc hfind =>
    rw [hfind]
    split
    · next ho => rw [← ho, hc]; rfl
    · rw [Option.or_none]
  | made hfree _ _ hfind =>
    rw [hfind]
    split
    · next ho => rw [← ho, hfree]; rfl
    · rw [Option.or_none]
  | refused _ _ hfind | wrong _ _ _ hfind =>
    rw [hfind]
    split <;> exact Option.or_none.symm
  | outside _ => split <;> exact Option.or_none.symm

/-- A fetch leaves every chunk that there is in its place. -/
theorem Fetched.keeps {c' : Cache} {g g' : γ} {result : Except FetchError Chunk} {m : Node}
    {chunk : Chunk} (h : Fetched G c n g result c' g') (hm : c.find? m = some chunk) :
    c'.find? m = some chunk := by
  cases h with
  | hit _ he | refused _ _ he | wrong _ _ _ he => rw [he, hm]
  | outside _ => exact hm
  | made ho _ _ he =>
    rw [he]
    split
    · next hn => rw [← hn, ho] at hm; cases hm
    · exact hm

/-- The chunk fetched is that of the node, and the cache has it then. -/
theorem Fetched.ok {c' : Cache} {g g' : γ} {chunk : Chunk} (hc : c.Sound)
    (h : Fetched G c n g (.ok chunk) c' g') : chunk.node = n ∧ c'.find? n = some chunk := by
  cases h with
  | hit ho he => exact ⟨hc.node_eq ho, by rw [he, ho]⟩
  | made _ _ hw he => exact ⟨hw, by rw [he, if_pos rfl]⟩

/-- A fetch touches the storage of the node's level only, and that as a fetch from it does. -/
theorem storage?_fetch (c : Cache) (G : Generator γ) (n : Node) (g : γ) (level : UInt32) :
    (c.fetch G n g).2.1.storage? level = if n.level = level then
      (c.storage? level).map fun s => (s.fetch G n.origin g).2.1 else c.storage? level := by
  unfold fetch
  split
  · next h =>
    have hs : c.storage? n.level = some (c.slots.get ⟨n.level.toNat, h⟩) :=
      Vector.getElem?_eq_getElem h
    refine (storage?_setStorage h level).trans ?_
    split
    · next hl =>
      rw [← hl, hs]
      rfl
    · rfl
  · next h =>
    split
    · next hl =>
      have hnone : c.storage? level = none := by
        rw [← hl, storage?_eq_none_iff, UInt32.lt_iff_toNat_lt]
        omega
      rw [hnone]
      rfl
    · rfl

/-- Beyond the levels of the cache nothing happens. -/
theorem fetch_of_lt (G : Generator γ) (g : γ) (h : c.maxLevel < n.level) :
    c.fetch G n g = (.error (.storage (.levelOutOfRange n.level c.maxLevel)), c, g) := by
  rw [UInt32.lt_iff_toNat_lt] at h
  unfold fetch
  rw [dif_neg (by omega)]

/-- A fetch leaves the greatest level as it is. -/
theorem maxLevel_fetch (c : Cache) (G : Generator γ) (n : Node) (g : γ) :
    (c.fetch G n g).2.1.maxLevel = c.maxLevel := by
  unfold fetch
  split
  · rfl
  · rfl

/-- A fetch keeps a cache sound. -/
theorem Sound.fetch (hc : c.Sound) (G : Generator γ) (n : Node) (g : γ) :
    (c.fetch G n g).2.1.Sound where
  level_eq := by
    intro level s hs
    unfold Cache.fetch at hs
    split at hs
    · next h =>
      have hold : c.storage? n.level = some (c.slots.get ⟨n.level.toNat, h⟩) :=
        Vector.getElem?_eq_getElem h
      have hset : (c.setStorage n.level ((c.slots.get ⟨n.level.toNat, h⟩).fetch G n.origin g).2.1
          h).storage? level = some s := hs
      rw [storage?_setStorage] at hset
      split at hset
      · next hl =>
        injection hset with hset
        rw [← hset, (Storage.fetch_fetched G _ n.origin g).level, hc.level_eq hold, hl]
      · exact hc.level_eq hset
    · exact hc.level_eq hs
  node_eq := by
    intro m chunk hm
    have hf := fetch_fetched hc G n g
    generalize (c.fetch G n g).1 = result at hf
    generalize (c.fetch G n g).2.1 = c' at hf hm
    generalize (c.fetch G n g).2.2 = g' at hf
    cases hf with
    | hit _ he | refused _ _ he | wrong _ _ _ he => exact hc.node_eq (he ▸ hm)
    | outside _ => exact hc.node_eq hm
    | made _ _ hw he =>
      rw [he] at hm
      split at hm
      · next hn =>
        injection hm with hm
        rw [← hm, hw, hn]
      · exact hc.node_eq hm

end Cache
end VoxelStream
