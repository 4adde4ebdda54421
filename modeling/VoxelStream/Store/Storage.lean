import VoxelStream.Terrain

/-!
# Storage of one level

The chunks of one level of detail that have been made. A chunk is stored under its own node only,
at most once, and stays for good. `Storage.fetch` makes a chunk that is not there yet and counts
whether it was.
-/

namespace VoxelStream

/-- Why a chunk is not stored. -/
inductive StorageError where
  | occupied (coord : Coord) (level : UInt32)
  | nodeMismatch (expected actual : Node)
  | levelOutOfRange (level max : UInt32)
deriving DecidableEq, Repr

/-- A coordinate as error messages show it. -/
def Coord.description (c : Coord) : String :=
  s!"WorldCoordinate \x7b x: {c.x.toInt}, y: {c.y.toInt}, z: {c.z.toInt} \x7d"

/-- A node as error messages show it. -/
def Node.description (n : Node) : String :=
  s!"SpatialNode \x7b origin: {n.origin.description}, level: {n.level.toNat} \x7d"

/-- What the error says to a user. -/
def StorageError.message : StorageError → String
  | .occupied coord level => s!"chunk {coord.description} already stored at level {level.toNat}"
  | .nodeMismatch expected actual =>
    s!"chunk for {actual.description} stored under {expected.description}"
  | .levelOutOfRange level max =>
    s!"level {level.toNat} outside cache range 0..={max.toNat}"

/-- Why no chunk was fetched: it could not be stored, or its generator ended with a fault. -/
inductive FetchError where
  | storage (e : StorageError)
  | fault (f : Fault)
deriving DecidableEq, Repr

/-- How many fetches found their chunk, and how many did not. -/
structure StorageStats where
  hits : Nat := 0
  misses : Nat := 0
deriving DecidableEq, Repr

/-- Counts of two storages together. -/
def StorageStats.add (a b : StorageStats) : StorageStats := ⟨a.hits + b.hits, a.misses + b.misses⟩

instance : Add StorageStats := ⟨StorageStats.add⟩

/-- The chunks of one level. -/
structure Storage where
  level : UInt32
  chunks : Std.ExtTreeMap Coord Chunk := ∅
  stats : StorageStats := {}

namespace Storage

/-- Nothing is stored at this level yet. -/
def ofLevel (level : UInt32) : Storage := { level }

instance : Inhabited Storage := ⟨ofLevel 0⟩

/-- The chunk stored at a coordinate. -/
def find? (s : Storage) (coord : Coord) : Option Chunk := s.chunks[coord]?

def contains (s : Storage) (coord : Coord) : Bool := s.chunks.contains coord

/-- The number of chunks stored. -/
def size (s : Storage) : Nat := s.chunks.size

def isEmpty (s : Storage) : Bool := s.chunks.isEmpty

/-- Stores a chunk that must be the one of this place, and the first. -/
def store (s : Storage) (coord : Coord) (c : Chunk) : Except StorageError Chunk × Storage :=
  if c.node ≠ ⟨coord, s.level⟩ then (.error (.nodeMismatch ⟨coord, s.level⟩ c.node), s)
  else if s.contains coord then (.error (.occupied coord s.level), s)
  else (.ok c, { s with chunks := s.chunks.insert coord c })

def countHit (s : Storage) : Storage := { s with stats.hits := s.stats.hits + 1 }

def countMiss (s : Storage) : Storage := { s with stats.misses := s.stats.misses + 1 }

/-- The chunk at a coordinate, made and stored if it was not there. -/
def fetch {γ : Type} (G : Generator γ) (s : Storage) (coord : Coord) (g : γ) :
    Except FetchError Chunk × Storage × γ :=
  match s.find? coord with
  | some c => (.ok c, s.countHit, g)
  | none =>
    let s := s.countMiss
    match G.generate ⟨coord, s.level⟩ g with
    | (.error f, g) => (.error (.fault f), s, g)
    | (.ok c, g) =>
      match s.store coord c with
      | (.ok c, s) => (.ok c, s, g)
      | (.error e, s) => (.error (.storage e), s, g)

end Storage
end VoxelStream
