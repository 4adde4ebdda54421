import VoxelStream.Store.Storage

/-!
# The chunk cache

One storage for each level up to a greatest one, so that chunks of different levels at one origin
are kept apart.
-/

namespace VoxelStream

/-- Storages for the levels from zero to `maxLevel`, each in the slot of its number. -/
structure Cache where
  maxLevel : UInt32
  slots : Vector Storage (maxLevel.toNat + 1)

namespace Cache

/-- Nothing is stored yet. -/
def ofMaxLevel (maxLevel : UInt32) : Cache :=
  ⟨maxLevel, .ofFn fun i => .ofLevel (.ofNat i)⟩

/-- The storage of a level. -/
def storage? (c : Cache) (level : UInt32) : Option Storage := c.slots[level.toNat]?

/-- The chunk stored for a node. -/
def find? (c : Cache) (n : Node) : Option Chunk := do (← c.storage? n.level).find? n.origin

/-- The chunk of a node, made and stored if it was not there. -/
def fetch {γ : Type} (G : Generator γ) (c : Cache) (n : Node) (g : γ) :
    Except FetchError Chunk × Cache × γ :=
  if h : n.level.toNat < c.maxLevel.toNat + 1 then
    let (result, s, g) := (c.slots.get ⟨n.level.toNat, h⟩).fetch G n.origin g
    (result, { c with slots := c.slots.set n.level.toNat s h }, g)
  else (.error (.storage (.levelOutOfRange n.level c.maxLevel)), c, g)

/-- The number of chunks stored. -/
def size (c : Cache) : Nat := c.slots.toList.foldr (fun s n => s.size + n) 0

def isEmpty (c : Cache) : Bool := c.slots.toList.all Storage.isEmpty

/-- The counts of all levels together. -/
def stats (c : Cache) : StorageStats := (c.slots.toList.map Storage.stats).foldl (· + ·) {}

end Cache
end VoxelStream
