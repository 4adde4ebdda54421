import VoxelStream.Geometry.Chunk

/-!
# The retained set

The chunks that can be drawn, in buckets by level of detail and within a bucket by origin. A bucket
that loses its last chunk goes away, so every bucket there is has something in it.

A sink is handed the chunks that come into view and those that leave it. Whoever streams knows no
more of it than that: it is any state machine with these inputs, and it may give up on a batch. The
retained set is a sink that never does.
-/

namespace VoxelStream

/-- The chunks of one level of detail, by origin. -/
abbrev Bucket : Type := Std.ExtTreeMap Coord Chunk

/-- The chunks retained for drawing, by level of detail and origin. -/
structure Retained where
  buckets : Std.ExtTreeMap UInt32 Bucket := ∅

namespace Retained

def empty : Retained := {}

instance : Inhabited Retained := ⟨empty⟩

/-- The chunk of a level at an origin. -/
def find? (r : Retained) (lod : UInt32) (origin : Coord) : Option Chunk :=
  match r.buckets[lod]? with
  | some bucket => bucket[origin]?
  | none => none

def contains (r : Retained) (lod : UInt32) (origin : Coord) : Bool := (r.find? lod origin).isSome

/-- Puts a chunk in the place of its node. -/
def insert (r : Retained) (c : Chunk) : Retained :=
  ⟨r.buckets.insert c.lod ((r.buckets[c.lod]?.getD ∅).insert c.origin c)⟩

/-- Empties the place of a chunk's node. -/
def erase (r : Retained) (c : Chunk) : Retained :=
  match r.buckets[c.lod]? with
  | none => r
  | some bucket =>
    let bucket := bucket.erase c.origin
    if bucket.isEmpty then ⟨r.buckets.erase c.lod⟩ else ⟨r.buckets.insert c.lod bucket⟩

/-- Puts chunks in the places of their nodes, one after the other. -/
def add (r : Retained) (chunks : List Chunk) : Retained := chunks.foldl insert r

/-- Empties the places of the nodes of chunks. -/
def remove (r : Retained) (chunks : List Chunk) : Retained := chunks.foldl erase r

/-- The levels from the finest to the coarsest, each with its chunks. -/
def levels (r : Retained) : List (UInt32 × List Chunk) :=
  r.buckets.toList.map fun (lod, bucket) => (lod, bucket.values)

/-- The number of chunks at each level that has any. -/
def lodCounts (r : Retained) : List (UInt32 × Nat) :=
  r.buckets.toList.map fun (lod, bucket) => (lod, bucket.size)

/-- The number of chunks. -/
def count (r : Retained) : Nat := r.lodCounts.foldr (fun (_, n) sum => n + sum) 0

end Retained

/-- A state machine that receives chunks in batches. -/
structure Sink (σ : Type) where
  add : List Chunk → σ → Checked Unit × σ
  remove : List Chunk → σ → Checked Unit × σ
  /-- Forgets all chunks. -/
  clear : σ → σ

/-- The retained set as a sink. -/
def Retained.sink : Sink Retained where
  add chunks r := (.ok (), r.add chunks)
  remove chunks r := (.ok (), r.remove chunks)
  clear _ := .empty

end VoxelStream
