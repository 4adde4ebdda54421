import Mathlib.Data.List.Dedup
import VoxelStream.Proofs.Store.Dialogue
import VoxelStream.Proofs.Store.Record

/-!
# The history of a storage

A storage is asked to fetch, to store and to look up, in any order, and every fetch may come with
another generator. What was asked and answered is its history (`Storage.Exchange`).

The chunks of a storage change in one way only: a chunk is put in a free place that is the one of
its node, and then the request succeeded (`Storage.ask_step`). So the history tells which places are
taken (`Storage.Recounts`), a chunk once stored is there for good, and a request that fails leaves
all chunks in place (`Storage.appends_only`). The figures are told by the history, too: each fetch
is counted, and as a miss just if it called the generator (`Storage.fetches_accounted`).
-/

namespace VoxelStream

variable {γ : Type} {G : Generator γ}

namespace Storage

/-- What can be asked of a storage. Every fetch may come with a generator of its own. -/
inductive Request (γ : Type) where
  | fetch (G : Generator γ) (coord : Coord)
  | store (coord : Coord) (c : Chunk)
  | find (coord : Coord)
  | contains (coord : Coord)

/-- What was asked of a storage, and what it answered. -/
inductive Exchange where
  | fetch (coord : Coord) (result : Except FetchError Chunk)
  | store (coord : Coord) (c : Chunk) (result : Except StorageError Chunk)
  | find (coord : Coord) (result : Option Chunk)
  | contains (coord : Coord) (result : Bool)

namespace Exchange

/-- The place that has a chunk since this exchange or a former one, because the request
succeeded. -/
def stored? : Exchange → Option Coord
  | .fetch coord (.ok _) | .store coord _ (.ok _) => some coord
  | _ => none

/-- The place that was asked for and the chunk that was had for it, or that was to be stored there
and was. -/
def had? : Exchange → Option (Coord × Chunk)
  | .fetch coord (.ok c) | .store coord c (.ok _) | .find coord (some c) => some (coord, c)
  | _ => none

/-- No chunk was had or stored, be it for an error or for a fault of the generator. -/
def isFailure : Exchange → Bool
  | .fetch _ (.error _) | .store _ _ (.error _) => true
  | _ => false

def isFetch : Exchange → Bool
  | .fetch _ _ => true
  | _ => false

/-- A failure takes no place. -/
theorem stored?_of_isFailure {e : Exchange} (h : e.isFailure = true) : e.stored? = none := by
  unfold isFailure at h
  split at h
  · rfl
  · rfl
  · cases h

end Exchange

/-- Answers a request. -/
def ask (t : Storage × γ) : Request γ → Exchange × Storage × γ
  | .fetch G coord => (.fetch coord (t.1.fetch G coord t.2).1, (t.1.fetch G coord t.2).2)
  | .store coord c => (.store coord c (t.1.store coord c).1, (t.1.store coord c).2, t.2)
  | .find coord => (.find coord (t.1.find? coord), t)
  | .contains coord => (.contains coord (t.1.contains coord), t)

/-! ## Storing -/

/-- What becomes of a chunk that is to be stored: the result, and the storage after it. A chunk of
another node is refused first, whether the place is free or not. -/
inductive Stored (s : Storage) (coord : Coord) (c : Chunk) :
    Except StorageError Chunk → Storage → Prop
  | put : c.node = ⟨coord, s.level⟩ → s.find? coord = none →
      Stored s coord c (.ok c) { s with chunks := s.chunks.insert coord c }
  | wrong : c.node ≠ ⟨coord, s.level⟩ →
      Stored s coord c (.error (.nodeMismatch ⟨coord, s.level⟩ c.node)) s
  | occupied {d : Chunk} : c.node = ⟨coord, s.level⟩ → s.find? coord = some d →
      Stored s coord c (.error (.occupied coord s.level)) s

/-- Whatever is to be stored is refused for its node, refused for its place, or stored. -/
theorem store_stored (s : Storage) (coord : Coord) (c : Chunk) :
    Stored s coord c (s.store coord c).1 (s.store coord c).2 := by
  unfold store
  rw [contains_eq_isSome]
  by_cases hn : c.node = ⟨coord, s.level⟩
  · rw [if_neg (not_not_intro hn)]
    cases hf : s.find? coord with
    | none => exact .put hn hf
    | some d => exact .occupied hn hf
  · rw [if_pos hn]
    exact .wrong hn

/-- Each result tells in which of the three ways it went. -/
theorem Stored.result_iff {s s' : Storage} {coord : Coord} {c : Chunk}
    {result : Except StorageError Chunk} (h : Stored s coord c result s') :
    (result = .ok c ↔ c.node = ⟨coord, s.level⟩ ∧ s.find? coord = none) ∧
      (result = .error (.nodeMismatch ⟨coord, s.level⟩ c.node) ↔ c.node ≠ ⟨coord, s.level⟩) ∧
      (result = .error (.occupied coord s.level) ↔
        c.node = ⟨coord, s.level⟩ ∧ (s.find? coord).isSome) := by
  cases h with
  | put hnode hfree => simp [hnode, hfree]
  | wrong hnode => simp [hnode]
  | occupied hnode hd => simp [hnode, hd]

/-! ## What a request can do to the chunks -/

/-- What a request can do, as far as the chunks tell: nothing, or it puts one chunk in a free place,
which is the one of the chunk's node. Places that the exchange says have a chunk have one. -/
inductive Step (s : Storage) (e : Exchange) (s' : Storage) : Prop
  | same : s'.level = s.level → s'.chunks = s.chunks →
      (∀ coord ∈ e.stored?, (s.find? coord).isSome) → Step s e s'
  | put {coord : Coord} {c : Chunk} : s'.level = s.level → s.find? coord = none →
      c.node = ⟨coord, s.level⟩ → s'.chunks = s.chunks.insert coord c → e.stored? = some coord →
      Step s e s'

/-- Every request does nothing to the chunks, or puts one in a free place. -/
theorem ask_step (t : Storage × γ) (r : Request γ) : Step t.1 (ask t r).1 (ask t r).2.1 := by
  cases r with
  | fetch G coord =>
    have hf := fetch_fetched G t.1 coord t.2
    rw [ask]
    generalize t.1.fetch G coord t.2 = outcome at hf
    obtain ⟨result, s', g'⟩ := outcome
    cases hf with
    | hit hfind =>
      refine .same rfl rfl fun taken htaken => ?_
      cases htaken
      rw [hfind]
      rfl
    | made hfree _ hnode => exact .put rfl hfree hnode rfl rfl
    | refused _ _ | wrong _ _ _ => exact .same rfl rfl nofun
  | store coord c =>
    have hs := store_stored t.1 coord c
    rw [ask]
    generalize t.1.store coord c = outcome at hs
    obtain ⟨result, s'⟩ := outcome
    cases hs with
    | put hnode hfree => exact .put rfl hfree hnode rfl rfl
    | wrong _ | occupied _ _ => exact .same rfl rfl nofun
  | find coord | contains coord => exact .same rfl rfl nofun

section
variable {s s' : Storage} {e : Exchange} {coord : Coord} {c : Chunk}

/-- A place that is free is filled by a chunk that is put there, and no other place is touched. -/
theorem find?_of_chunks_eq_insert (h : s'.chunks = s.chunks.insert coord c) (o : Coord) :
    s'.find? o = if coord = o then some c else s.find? o := by
  unfold find?
  rw [h, Std.ExtTreeMap.getElem?_insert]
  simp

/-- Storages with the same chunks find the same. -/
theorem find?_of_chunks_eq (h : s'.chunks = s.chunks) : s'.find? = s.find? := by
  unfold find?
  rw [h]

/-- What is stored stays as it is. -/
theorem Step.keeps (h : Step s e s') (hc : s.find? coord = some c) : s'.find? coord = some c := by
  cases h with
  | same _ hchunks _ => rw [find?_of_chunks_eq hchunks, hc]
  | put _ hfree _ hchunks _ =>
    rw [find?_of_chunks_eq_insert hchunks]
    split
    · next ho =>
      rw [← ho, hfree] at hc
      cases hc
    · exact hc

/-- A chunk that was had by a fetch is in its place then. -/
theorem Fetched.find?_eq {g g' : γ} (h : Fetched G s coord g (.ok c) s' g') :
    s'.find? coord = some c := by
  cases h with
  | hit hfind => exact hfind
  | made _ _ _ => exact (find?_of_chunks_eq_insert rfl coord).trans (if_pos rfl)

/-- A chunk that was stored is in its place then. -/
theorem Stored.find?_eq {d : Chunk} (h : Stored s coord c (.ok d) s') :
    s'.find? coord = some c := by
  cases h with
  | put _ _ => exact (find?_of_chunks_eq_insert rfl coord).trans (if_pos rfl)

/-- Whichever chunk a request had or stored is in its place then. -/
theorem find?_of_had? {t : Storage × γ} {r : Request γ}
    (h : (ask t r).1.had? = some (coord, c)) : (ask t r).2.1.find? coord = some c := by
  cases r with
  | fetch G o =>
    have hf := fetch_fetched G t.1 o t.2
    rw [ask] at h ⊢
    cases hresult : (t.1.fetch G o t.2).1 with
    | error e =>
      rw [hresult] at h
      cases h
    | ok d =>
      rw [hresult] at h hf
      cases h
      exact hf.find?_eq
  | store o d =>
    have hs := store_stored t.1 o d
    rw [ask] at h ⊢
    cases hresult : (t.1.store o d).1 with
    | error e =>
      rw [hresult] at h
      cases h
    | ok d' =>
      rw [hresult] at h hs
      cases h
      exact hs.find?_eq
  | find o =>
    rw [ask] at h ⊢
    cases hfind : t.1.find? o with
    | none =>
      rw [hfind] at h
      cases h
    | some d =>
      rw [hfind] at h
      cases h
      exact hfind
  | contains o => cases h

/-- A request that fails leaves the chunks alone. -/
theorem Step.chunks_eq_of_isFailure (h : Step s e s') (he : e.isFailure = true) :
    s'.chunks = s.chunks := by
  cases h with
  | same _ hchunks _ => exact hchunks
  | put _ _ _ _ hstored =>
    rw [Exchange.stored?_of_isFailure he] at hstored
    cases hstored

end

/-! ## What the history tells of the chunks -/

/-- The places that were taken, each of them once. -/
def taken (past : List Exchange) : List Coord := (past.filterMap Exchange.stored?).dedup

/-- One exchange more takes one place more at most. -/
theorem mem_taken_snoc {past : List Exchange} {e : Exchange} {coord : Coord} :
    coord ∈ taken (past ++ [e]) ↔ coord ∈ taken past ∨ e.stored? = some coord := by
  simp only [taken, List.mem_dedup, List.mem_filterMap, List.mem_append, List.mem_singleton,
    or_and_right, exists_or, exists_eq_left]

/-- The storage is of the level and has chunks in their own places only, which are the places that
the history says were taken. -/
structure Recounts (level : UInt32) (past : List Exchange) (s : Storage) : Prop where
  level_eq : s.level = level
  node_eq : ∀ {coord c}, s.find? coord = some c → c.node = ⟨coord, level⟩
  isSome_iff : ∀ coord, (s.find? coord).isSome ↔ coord ∈ taken past

namespace Recounts

variable {level : UInt32} {past : List Exchange} {s s' : Storage} {e : Exchange}

/-- A new storage has an empty history. -/
theorem ofLevel (level : UInt32) : Recounts level [] (.ofLevel level) where
  level_eq := rfl
  node_eq h := by
    rw [find?, Storage.ofLevel, Std.ExtTreeMap.getElem?_empty] at h
    cases h
  isSome_iff coord := by simp [find?, Storage.ofLevel, taken]

/-- A storage and its history go on together. -/
theorem step (h : Recounts level past s) (hs : Step s e s') :
    Recounts level (past ++ [e]) s' := by
  cases hs with
  | same hlevel hchunks htaken =>
    have hfind : s'.find? = s.find? := find?_of_chunks_eq hchunks
    refine ⟨hlevel.trans h.level_eq, fun hc => h.node_eq (hfind ▸ hc), fun coord => ?_⟩
    rw [hfind, mem_taken_snoc, ← h.isSome_iff]
    exact (or_iff_left_of_imp (htaken coord)).symm
  | @put coord c hlevel hfree hnode hchunks hstored =>
    have hfind := find?_of_chunks_eq_insert hchunks
    refine ⟨hlevel.trans h.level_eq, fun {o d} hd => ?_, fun o => ?_⟩
    · rw [hfind] at hd
      split at hd
      · next ho =>
        cases hd
        rw [hnode, h.level_eq, ho]
      · exact h.node_eq hd
    · rw [hfind, mem_taken_snoc, ← h.isSome_iff, hstored, Option.some.injEq]
      by_cases ho : coord = o
      · simp [ho]
      · simp [ho]

/-- As many chunks are stored as places were taken. -/
theorem size_eq (h : Recounts level past s) : s.size = (taken past).length := by
  have hperm : s.chunks.keys.Perm (taken past) := by
    refine (List.perm_ext_iff_of_nodup Std.ExtTreeMap.nodup_keys (List.nodup_dedup _)).2
      fun coord => ?_
    rw [Std.ExtTreeMap.mem_keys, Std.ExtTreeMap.mem_iff_isSome_getElem?]
    exact h.isSome_iff coord
  rw [← hperm.length_eq, Std.ExtTreeMap.length_keys]
  rfl

end Recounts

/-- However a new storage is used, its level and its places are as the history tells. -/
theorem recounts_run (level : UInt32) (requests : List (Request γ)) (g : γ) :
    Recounts level (Dialogue.run ask (ofLevel level, g) requests).1
      (Dialogue.run ask (ofLevel level, g) requests).2.1 :=
  Dialogue.run_history (fun past (t : Storage × γ) => Recounts level past t.1)
    (fun r h => h.step (ask_step _ r)) (Recounts.ofLevel level) requests

/-- What is stored is there after any requests. -/
theorem find?_run {t : Storage × γ} {coord : Coord} {c : Chunk} (h : t.1.find? coord = some c)
    (requests : List (Request γ)) : (Dialogue.run ask t requests).2.1.find? coord = some c :=
  Dialogue.run_history (fun _ (t : Storage × γ) => t.1.find? coord = some c)
    (fun r h => (ask_step _ r).keeps h) h requests

/-- Whoever looks for a chunk at the place gets this one. -/
structure Offers (s : Storage) (coord : Coord) (c : Chunk) : Prop where
  find?_eq : s.find? coord = some c
  contains_eq : s.contains coord = true
  fetch_eq : ∀ {φ : Type} (F : Generator φ) (f : φ), s.fetch F coord f = (.ok c, s.countHit, f)

/-- A chunk that is found is offered by every other request as well. -/
theorem offers_of_find? {s : Storage} {coord : Coord} {c : Chunk} (h : s.find? coord = some c) :
    s.Offers coord c where
  find?_eq := h
  contains_eq := by
    rw [contains_eq_isSome, h]
    rfl
  fetch_eq F f := by
    unfold fetch
    rw [h]

/-- However a new storage was used, it has chunks in their own places only, and whatever it is used
for then, these chunks stay. It takes a chunk if the place is the chunk's own and is free, and says
that it is not the chunk's own before it says that it is taken. The chunk that a request had or
stored is the one in its place then; a request that fails leaves the chunks alone; and there are as
many of them as places were taken. -/
theorem appends_only (level : UInt32) (requests : List (Request γ)) (g : γ) :
    ∃ past s g', Dialogue.run ask (ofLevel level, g) requests = (past, s, g') ∧
      (∀ coord c, s.find? coord = some c → c.node = ⟨coord, level⟩ ∧
        ∀ {φ : Type} (more : List (Request φ)) (f : φ),
          (Dialogue.run ask (s, f) more).2.1.Offers coord c) ∧
      (∀ coord c,
        ((s.store coord c).1 = .ok c ↔ c.node = ⟨coord, level⟩ ∧ s.find? coord = none) ∧
        ((s.store coord c).1 = .error (.nodeMismatch ⟨coord, level⟩ c.node) ↔
          c.node ≠ ⟨coord, level⟩) ∧
        ((s.store coord c).1 = .error (.occupied coord level) ↔
          c.node = ⟨coord, level⟩ ∧ (s.find? coord).isSome)) ∧
      (∀ {φ : Type} (r : Request φ) (f : φ) (coord : Coord) (c : Chunk),
        (ask (s, f) r).1.had? = some (coord, c) → (ask (s, f) r).2.1.find? coord = some c) ∧
      (∀ {φ : Type} (r : Request φ) (f : φ), (ask (s, f) r).1.isFailure = true →
        (ask (s, f) r).2.1.chunks = s.chunks) ∧
      s.size = (taken past).length := by
  have h := recounts_run level requests g
  generalize Dialogue.run ask (ofLevel level, g) requests = outcome at h
  obtain ⟨past, s, g'⟩ := outcome
  refine ⟨past, s, g', rfl, fun coord c hc => ⟨h.node_eq hc, fun more f => ?_⟩, fun coord c => ?_,
    fun r f _ _ => find?_of_had?, fun r f hr => (ask_step (s, f) r).chunks_eq_of_isFailure hr,
    h.size_eq⟩
  · exact offers_of_find? (find?_run (t := (s, f)) hc more)
  · have hlevel : s.level = level := h.level_eq
    rw [← hlevel]
    exact (store_stored s coord c).result_iff

/-! ## What the history tells of the figures -/

open Generator (Call)

/-- The same request, with a generator that writes down its calls. -/
def Request.recording : Request γ → Request (γ × List Call)
  | .fetch G coord => .fetch G.recording coord
  | .store coord c => .store coord c
  | .find coord => .find coord
  | .contains coord => .contains coord

/-- A generator that writes down its calls changes no answer. -/
theorem ask_recording (t : Storage × γ × List Call) (r : Request γ) :
    (ask t r.recording).1 = (ask (t.1, t.2.1) r).1 ∧
      (ask (t.1, t.2.1) r).2 = ((ask t r.recording).2.1, (ask t r.recording).2.2.1) := by
  cases r with
  | fetch G coord =>
    have h := G.recording_refines.fetch_storage t.1 coord t.2
    rw [ask, h]
    exact ⟨rfl, rfl⟩
  | store coord c | find coord | contains coord => exact ⟨rfl, rfl⟩

/-- A storage is used alike whether the generators write down their calls or not. -/
theorem run_recording (s : Storage) (g : γ) (requests : List (Request γ)) :
    (Dialogue.run ask (s, g, []) (requests.map Request.recording)).1 =
        (Dialogue.run ask (s, g) requests).1 ∧
      (Dialogue.run ask (s, g) requests).2 =
        ((Dialogue.run ask (s, g, []) (requests.map Request.recording)).2.1,
          (Dialogue.run ask (s, g, []) (requests.map Request.recording)).2.2.1) := by
  refine Dialogue.run_alike (R := fun t (t' : Storage × γ × List Call) => t = (t'.1, t'.2.1))
    (fun {t t'} r ht => ?_) rfl requests
  subst ht
  exact ask_recording t' r

/-- Each fetch is counted, and as many of them as misses as there were calls. -/
structure Tallies (past : List Exchange) (s : Storage) (calls : List Call) : Prop where
  fetches_eq : s.stats.hits + s.stats.misses = past.countP Exchange.isFetch
  misses_eq : s.stats.misses = calls.length

/-- A hit is counted and calls nobody. -/
theorem Tallies.hit {past : List Exchange} {s : Storage} {calls : List Call} {e : Exchange}
    (h : Tallies past s calls) (he : e.isFetch = true) :
    Tallies (past ++ [e]) s.countHit calls where
  fetches_eq := by
    rw [List.countP_append, List.countP_singleton, if_pos he, ← h.fetches_eq]
    exact Nat.add_right_comm ..
  misses_eq := h.misses_eq

/-- A miss is counted and makes one call. -/
theorem Tallies.miss {past : List Exchange} {s s' : Storage} {calls : List Call} {e : Exchange}
    {call : Call} (h : Tallies past s calls) (he : e.isFetch = true)
    (hs : s'.stats = s.countMiss.stats) : Tallies (past ++ [e]) s' (calls ++ [call]) where
  fetches_eq := by
    rw [List.countP_append, List.countP_singleton, if_pos he, ← h.fetches_eq, hs]
    rfl
  misses_eq := by
    rw [hs, List.length_append, ← h.misses_eq]
    rfl

/-- What is no fetch leaves the figures alone and calls nobody. -/
theorem ask_of_not_isFetch {t : Storage × γ} {r : Request γ} (h : (ask t r).1.isFetch = false) :
    (ask t r).2.1.stats = t.1.stats ∧ (ask t r).2.2 = t.2 := by
  cases r with
  | fetch G coord => cases h
  | store coord c =>
    have hs := store_stored t.1 coord c
    rw [ask]
    generalize t.1.store coord c = outcome at hs
    obtain ⟨result, s'⟩ := outcome
    cases hs with
    | put _ _ | wrong _ | occupied _ _ => exact ⟨rfl, rfl⟩
  | find coord | contains coord => exact ⟨rfl, rfl⟩

/-- A request that is no fetch is not counted. -/
theorem Tallies.other {past : List Exchange} {s s' : Storage} {calls : List Call} {e : Exchange}
    (h : Tallies past s calls) (he : e.isFetch = false) (hs : s'.stats = s.stats) :
    Tallies (past ++ [e]) s' calls where
  fetches_eq := by
    rw [List.countP_append, List.countP_singleton, he, hs]
    exact h.fetches_eq
  misses_eq := by
    rw [hs]
    exact h.misses_eq

/-- The counts and the record go on together. -/
theorem Tallies.ask {past : List Exchange} {t : Storage × γ × List Call}
    (h : Tallies past t.1 t.2.2) (r : Request γ) :
    Tallies (past ++ [(ask t r.recording).1]) (ask t r.recording).2.1
      (ask t r.recording).2.2.2 := by
  cases hfetch : (Storage.ask t r.recording).1.isFetch with
  | false =>
    obtain ⟨hstats, hcalls⟩ := ask_of_not_isFetch hfetch
    rw [hcalls]
    exact h.other hfetch hstats
  | true =>
    cases r with
    | fetch G coord =>
      have hf := fetch_fetched G.recording t.1 coord t.2
      rw [Request.recording, Storage.ask]
      generalize t.1.fetch G.recording coord t.2 = outcome at hf
      obtain ⟨result, s', g'⟩ := outcome
      cases hf with
      | hit _ => exact h.hit rfl
      | made _ hgen _ | refused _ hgen | wrong _ hgen _ =>
        rw [Generator.record_eq hgen]
        exact h.miss rfl rfl
    | store coord c | find coord | contains coord => cases hfetch

/-- As many fetches were counted as there were, and as many misses as calls. -/
theorem tallies_run (level : UInt32) (requests : List (Request γ)) (g : γ) :
    Tallies (Dialogue.run Storage.ask (ofLevel level, g, []) (requests.map Request.recording)).1
      (Dialogue.run Storage.ask (ofLevel level, g, []) (requests.map Request.recording)).2.1
      (Dialogue.run Storage.ask (ofLevel level, g, []) (requests.map Request.recording)).2.2.2 := by
  rw [Dialogue.run_map]
  exact Dialogue.run_history (fun past (t : Storage × γ × List Call) => Tallies past t.1 t.2.2)
    (fun r h => h.ask r) ⟨rfl, rfl⟩ requests

/-- A fetch of what is not there calls the generator once. -/
theorem fetch_recording_of_find?_eq_none {s : Storage} {coord : Coord} (g : γ × List Call)
    (h : s.find? coord = none) :
    (s.fetch G.recording coord g).2.2 = (G.recording.generate ⟨coord, s.level⟩ g).2 := by
  have hf := fetch_fetched G.recording s coord g
  generalize s.fetch G.recording coord g = outcome at hf
  obtain ⟨result, s', g'⟩ := outcome
  cases hf with
  | hit hc =>
    rw [h] at hc
    cases hc
  | made _ hgen _ | refused _ hgen | wrong _ hgen _ => rw [hgen]

/-- The one error of a fetch is that the generator made a chunk of another node. -/
theorem fetch_eq_error_iff {s : Storage} {coord : Coord} {g : γ} {e : StorageError} :
    (s.fetch G coord g).1 = .error (.storage e) ↔ s.find? coord = none ∧
      ∃ c, (G.generate ⟨coord, s.level⟩ g).1 = .ok c ∧ c.node ≠ ⟨coord, s.level⟩ ∧
        e = .nodeMismatch ⟨coord, s.level⟩ c.node := by
  have hf := fetch_fetched G s coord g
  generalize s.fetch G coord g = outcome at hf
  obtain ⟨result, s', g'⟩ := outcome
  cases hf with
  | hit hc => simp [hc]
  | made hfree hgen hnode => simp [hfree, hgen, hnode]
  | refused hfree hgen => simp [hfree, hgen]
  | wrong hfree hgen hnode => simp [hfree, hgen, hnode, eq_comm]

/-- However a new storage was used, as many hits and misses are counted as there were fetches, and
as many misses as calls of a generator. What is fetched and is there is had without a call, and
where nothing is fetched the figures stay and nobody is called. A fetch of what is not there calls
the generator once, for the node of the place. It ends with an error just if it is handed the chunk
of another node, and says so; that the place is taken is never its error. -/
theorem fetches_accounted (level : UInt32) (requests : List (Request γ)) (g : γ) :
    ∃ past s g' calls, Dialogue.run ask (ofLevel level, g) requests = (past, s, g') ∧
      Dialogue.run ask (ofLevel level, g, []) (requests.map Request.recording) =
        (past, s, g', calls) ∧
      s.stats.hits + s.stats.misses = past.countP Exchange.isFetch ∧
      s.stats.misses = calls.length ∧
      (∀ {φ : Type} (F : Generator φ) (coord : Coord) (f : φ) (record : List Call),
        (∀ c, s.find? coord = some c →
          s.fetch F.recording coord (f, record) = (.ok c, s.countHit, f, record)) ∧
        (s.find? coord = none → (s.fetch F.recording coord (f, record)).2.2 =
          ((F.generate ⟨coord, level⟩ f).2,
            record ++ [⟨⟨coord, level⟩, (F.generate ⟨coord, level⟩ f).1⟩])) ∧
        (∀ e, (s.fetch F coord f).1 = .error (.storage e) ↔ s.find? coord = none ∧
          ∃ c, (F.generate ⟨coord, level⟩ f).1 = .ok c ∧ c.node ≠ ⟨coord, level⟩ ∧
            e = .nodeMismatch ⟨coord, level⟩ c.node) ∧
        ∀ other l, (s.fetch F coord f).1 ≠ .error (.storage (.occupied other l))) ∧
      ∀ {φ : Type} (r : Request φ) (f : φ), (ask (s, f) r).1.isFetch = false →
        (ask (s, f) r).2.1.stats = s.stats ∧ (ask (s, f) r).2.2 = f := by
  obtain ⟨hpast, hstate⟩ := run_recording (ofLevel level) g requests
  have hlevel : (Dialogue.run ask (ofLevel level, g) requests).2.1.level = level :=
    (recounts_run level requests g).level_eq
  have htallies := tallies_run level requests g
  generalize Dialogue.run ask (ofLevel level, g, []) (requests.map Request.recording) = outcome
    at hpast hstate htallies
  obtain ⟨past, s, g', calls⟩ := outcome
  rw [hstate] at hlevel
  refine ⟨past, s, g', calls, Prod.ext hpast.symm hstate, rfl, htallies.fetches_eq,
    htallies.misses_eq, fun F coord f record => ⟨fun c hc => ?hit, fun hfree => ?miss,
      fun e => ?error, fun other l hl => ?occupied⟩, fun r f => ask_of_not_isFetch⟩
  case hit => exact (offers_of_find? hc).fetch_eq F.recording (f, record)
  case miss =>
    rw [fetch_recording_of_find?_eq_none (f, record) hfree, hlevel]
    rfl
  case error => rw [fetch_eq_error_iff, hlevel]
  case occupied =>
    obtain ⟨-, c, -, -, hmismatch⟩ := fetch_eq_error_iff.1 hl
    cases hmismatch

end Storage
end VoxelStream
