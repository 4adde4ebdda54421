import VoxelStream.Proofs.Store.Cache

/-!
# The calls of a generator

A generator can be made to write down each of its calls (`Generator.recording`). The chunk that a
call hands out is made by it only if it is the one of the node asked for, since any other is thrown
away (`Generator.Call.made?`). Fetches go as they would without the record, as they do with any
generator behind whose state that of another one can be seen (`Generator.Refines`).

A cache that got all its chunks through such a generator has those that the record says were made,
each under its node, and no node was asked for again once its chunk was made (`Cache.Reflects`):
every fetch keeps this, because the generator is asked only where the cache has nothing
(`Cache.Reflects.fetched`).
-/

namespace VoxelStream

variable {γ : Type} {G : Generator γ}

namespace Generator

/-- A call of a generator: the node asked for, and what came of it. -/
structure Call where
  node : Node
  result : Checked Chunk

namespace Call

/-- The chunk that a call made, if it handed out the one of the node asked for. -/
def made? (call : Call) : Option Chunk :=
  match call.result with
  | .ok chunk => if chunk.node = call.node then some chunk else none
  | .error _ => none

/-- A call that handed out the chunk of its node has made it. -/
theorem made?_ok {n : Node} {chunk : Chunk} (h : chunk.node = n) :
    made? ⟨n, .ok chunk⟩ = some chunk := if_pos h

/-- A call that handed out the chunk of another node has made none. -/
theorem made?_wrong {n : Node} {chunk : Chunk} (h : chunk.node ≠ n) :
    made? ⟨n, .ok chunk⟩ = none := if_neg h

/-- What a call made is the chunk of the node asked for. -/
theorem node_of_made? {call : Call} {chunk : Chunk} (h : call.made? = some chunk) :
    chunk.node = call.node := by
  unfold made? at h
  split at h
  · split at h
    · next hnode =>
      cases h
      exact hnode
    · cases h
  · cases h

end Call

/-- The generator that writes down its calls, the latest at the end. -/
def recording (G : Generator γ) : Generator (γ × List Call) where
  generate n g :=
    ((G.generate n g.1).1, (G.generate n g.1).2, g.2 ++ [⟨n, (G.generate n g.1).1⟩])

/-- What is written down of a call is what comes of it. -/
theorem record_eq {n : Node} {a a' : γ × List Call} {result : Checked Chunk}
    (h : G.recording.generate n a = (result, a')) : a'.2 = a.2 ++ [⟨n, result⟩] := by
  obtain ⟨hresult, hstate⟩ := Prod.mk.inj h
  rw [← hresult, ← hstate]

/-- Some call of the record made the chunk. -/
def Made (calls : List Call) (chunk : Chunk) : Prop := ∃ call ∈ calls, call.made? = some chunk

/-- The record went on, with calls for nodes that are `P`. -/
def Extends (P : Node → Prop) (calls calls' : List Call) : Prop :=
  ∃ more, calls' = calls ++ more ∧ ∀ call ∈ more, P call.node

/-- Once its chunk was made, no node is asked for again. -/
def Once (calls : List Call) : Prop :=
  calls.Pairwise fun earlier later => earlier.node = later.node → earlier.made? = none

section
variable {calls calls' calls'' : List Call} {call : Call} {chunk chunk' : Chunk}
  {P Q : Node → Prop}

theorem Extends.refl (P : Node → Prop) (calls : List Call) : Extends P calls calls :=
  ⟨[], (List.append_nil calls).symm, nofun⟩

/-- A record that goes on twice goes on. -/
theorem Extends.trans (h : Extends P calls calls') (h' : Extends P calls' calls'') :
    Extends P calls calls'' := by
  obtain ⟨first, rfl, hfirst⟩ := h
  obtain ⟨rest, rfl, hrest⟩ := h'
  refine ⟨first ++ rest, List.append_assoc .., ?_⟩
  intro call hmem
  rcases List.mem_append.1 hmem with hmem | hmem
  · exact hfirst call hmem
  · exact hrest call hmem

/-- What is said of the nodes of further calls may be weakened. -/
theorem Extends.mono (h : Extends P calls calls') (hPQ : ∀ n, P n → Q n) :
    Extends Q calls calls' := by
  obtain ⟨more, hmore, hP⟩ := h
  exact ⟨more, hmore, fun call hmem => hPQ _ (hP call hmem)⟩

/-- What holds of the nodes asked for before and of those asked for since holds of all. -/
theorem Extends.forall_mem (h : Extends P calls calls') (hold : ∀ call ∈ calls, P call.node) :
    ∀ call ∈ calls', P call.node := by
  obtain ⟨more, rfl, hmore⟩ := h
  exact List.forall_mem_append.2 ⟨hold, hmore⟩

/-- What was made stays made. -/
theorem Extends.made (h : Extends P calls calls') (hmade : Made calls chunk) :
    Made calls' chunk := by
  obtain ⟨more, rfl, -⟩ := h
  obtain ⟨call, hmem, hcall⟩ := hmade
  exact ⟨call, List.mem_append_left more hmem, hcall⟩

/-- One call more makes one chunk more at most. -/
theorem made_snoc_iff : Made (calls ++ [call]) chunk ↔
    Made calls chunk ∨ call.made? = some chunk := by
  unfold Made
  constructor
  · rintro ⟨other, hmem, hmade⟩
    rcases List.mem_append.1 hmem with hmem | hmem
    · exact .inl ⟨other, hmem, hmade⟩
    · rw [List.mem_singleton.1 hmem] at hmade
      exact .inr hmade
  · rintro (⟨other, hmem, hmade⟩ | hmade)
    · exact ⟨other, List.mem_append_left _ hmem, hmade⟩
    · exact ⟨call, List.mem_append_right _ (List.mem_singleton_self call), hmade⟩

/-- Two calls that made a chunk for the same node are one, since the earlier of two made nothing. -/
theorem Once.eq_of_node_eq (h : Once calls) (hc : Made calls chunk) (hc' : Made calls chunk')
    (hnode : chunk.node = chunk'.node) : chunk = chunk' := by
  obtain ⟨a, ha, hma⟩ := hc
  obtain ⟨b, hb, hmb⟩ := hc'
  have hsame : a.node = b.node := by
    rw [← Call.node_of_made? hma, ← Call.node_of_made? hmb, hnode]
  obtain ⟨i, hi, rfl⟩ := List.getElem_of_mem ha
  obtain ⟨j, hj, rfl⟩ := List.getElem_of_mem hb
  rcases Nat.lt_trichotomy i j with hlt | rfl | hgt
  · have hnone := List.pairwise_iff_getElem.1 h i j hi hj hlt hsame
    rw [hma] at hnone
    cases hnone
  · exact Option.some.inj (hma.symm.trans hmb)
  · have hnone := List.pairwise_iff_getElem.1 h j i hj hi hgt hsame.symm
    rw [hmb] at hnone
    cases hnone

end

/-! ## Generators behind which another one can be seen -/

/-- The generator does to what `f` shows of its state what `G` does. -/
structure Refines {γ' : Type} (G' : Generator γ') (G : Generator γ) (f : γ' → γ) : Prop where
  generate_eq : ∀ n g, G.generate n (f g) = ((G'.generate n g).1, f (G'.generate n g).2)

/-- Without its record, a recording generator does what the generator does. -/
theorem recording_refines (G : Generator γ) : G.recording.Refines G Prod.fst := ⟨fun _ _ => rfl⟩

namespace Refines

variable {γ' : Type} {G' : Generator γ'} {f : γ' → γ}

/-- A fetch of a storage is the same, and what shows of the generator goes along. -/
theorem fetch_storage (h : G'.Refines G f) (s : Storage) (coord : Coord) (g : γ') :
    s.fetch G coord (f g) =
      ((s.fetch G' coord g).1, (s.fetch G' coord g).2.1, f (s.fetch G' coord g).2.2) := by
  unfold Storage.fetch
  cases s.find? coord with
  | some c => rfl
  | none =>
    dsimp only
    rw [h.generate_eq]
    rcases G'.generate ⟨coord, s.countMiss.level⟩ g with ⟨_ | c, g₁⟩
    · rfl
    · dsimp only
      rcases s.countMiss.store coord c with ⟨_ | _, s₁⟩
      · rfl
      · rfl

/-- A fetch of a cache is the same, and what shows of the generator goes along. -/
theorem fetch (h : G'.Refines G f) (c : Cache) (n : Node) (g : γ') :
    c.fetch G n (f g) = ((c.fetch G' n g).1, (c.fetch G' n g).2.1, f (c.fetch G' n g).2.2) := by
  unfold Cache.fetch
  split
  · rw [h.fetch_storage]
  · rfl

end Refines

end Generator

namespace Cache

open Generator (Call Made Once)

variable {c c' : Cache} {calls : List Call} {n : Node} {result : Except FetchError Chunk}

/-- The cache has the chunks that were made and no others, each under its node, and no node was
asked for again once its chunk was made. -/
structure Reflects (c : Cache) (calls : List Call) : Prop where
  find?_eq_some_iff : ∀ {n chunk}, c.find? n = some chunk ↔ chunk.node = n ∧ Made calls chunk
  once : Once calls

/-- Where nothing was made there is nothing. -/
theorem reflects_ofMaxLevel (max : UInt32) : (ofMaxLevel max).Reflects [] where
  find?_eq_some_iff {n chunk} := by
    rw [find?_ofMaxLevel]
    exact ⟨nofun, fun ⟨_, _, hmem, _⟩ => nomatch hmem⟩
  once := .nil

/-- A node was asked for that the cache did not have, and what the call made is there now. -/
theorem Reflects.snoc {call : Call} (h : c.Reflects calls) (hnone : c.find? call.node = none)
    (hfind : ∀ m chunk, c'.find? m = some chunk ↔
      c.find? m = some chunk ∨ chunk.node = m ∧ call.made? = some chunk) :
    c'.Reflects (calls ++ [call]) where
  find?_eq_some_iff {m chunk} := by
    rw [hfind, h.find?_eq_some_iff, Generator.made_snoc_iff, and_or_left]
  once := by
    refine List.pairwise_append.2 ⟨h.once, List.pairwise_singleton _ call, ?_⟩
    intro earlier hmem later hlater hnode
    rw [List.mem_singleton.1 hlater] at hnode
    cases hmade : earlier.made? with
    | none => rfl
    | some chunk =>
      have hfound : c.find? call.node = some chunk :=
        h.find?_eq_some_iff.2 ⟨(Call.node_of_made? hmade).trans hnode, earlier, hmem, hmade⟩
      rw [hnone] at hfound
      cases hfound

/-- A call that made nothing changes nothing. -/
theorem Reflects.snoc_of_made?_eq_none {call : Call} (h : c.Reflects calls)
    (hnone : c.find? call.node = none) (hmade : call.made? = none) (hfind : c'.find? = c.find?) :
    c'.Reflects (calls ++ [call]) :=
  h.snoc hnone fun m chunk => by simp [hfind, hmade]

section
variable {a a' : γ × List Call}

/-- A fetch asks for no node but the one fetched. -/
theorem Fetched.extends (h : Fetched G.recording c n a result c' a') :
    Generator.Extends (· = n) a.2 a'.2 := by
  cases h with
  | hit _ _ | outside _ => exact .refl _ _
  | made _ hgen _ _ | refused _ hgen _ | wrong _ hgen _ _ =>
    rw [Generator.record_eq hgen]
    exact ⟨_, rfl, fun call hmem => by rw [List.mem_singleton.1 hmem]⟩

/-- A fetch asks only for what the cache does not have, and the cache keeps what was made. -/
theorem Reflects.fetched (h : c.Reflects a.2) (hf : Fetched G.recording c n a result c' a') :
    c'.Reflects a'.2 := by
  cases hf with
  | hit _ hfind => exact ⟨by rw [hfind]; exact h.find?_eq_some_iff, h.once⟩
  | outside _ => exact h
  | @made chunk _ _ hnone hgen hnode hfind =>
    rw [Generator.record_eq hgen]
    refine h.snoc hnone ?_
    intro m d
    rw [hfind, Call.made?_ok hnode, Option.some.injEq]
    by_cases hm : n = m
    · subst hm
      rw [if_pos rfl, hnone, Option.some.injEq]
      refine ⟨fun hd => .inr ⟨hd ▸ hnode, hd⟩, ?_⟩
      rintro (hd | ⟨-, hd⟩)
      · cases hd
      · exact hd
    · rw [if_neg hm]
      refine ⟨.inl, ?_⟩
      rintro (hd | ⟨hd, rfl⟩)
      · exact hd
      · exact absurd (hnode.symm.trans hd) hm
  | refused hnone hgen hfind =>
    rw [Generator.record_eq hgen]
    exact h.snoc_of_made?_eq_none hnone rfl hfind
  | wrong hnone hgen hne hfind =>
    rw [Generator.record_eq hgen]
    exact h.snoc_of_made?_eq_none hnone (Call.made?_wrong hne) hfind

end

/-- A node fetched twice is asked for once. -/
example :
    let G : Generator Unit := ⟨fun n g => (.ok ⟨n, default⟩, g)⟩
    let first := (ofMaxLevel 0).fetch G.recording (.leaf ⟨0, 0, 0⟩) ((), [])
    let second := first.2.1.fetch G.recording (.leaf ⟨0, 0, 0⟩) first.2.2
    first.2.2.2.length = 1 ∧ second.2.2.2.length = 1 := by decide

end Cache
end VoxelStream
