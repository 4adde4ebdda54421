import VoxelStream.Coord

/-!
# Voxel grids

The occupancy of the voxels of a chunk: sixteen to the third cells, indexed by `x + 16 y + 256 z`.
Positions are any integers. Those outside read as empty, and writing to them does nothing.
`Grid.isSolid_set` and `Grid.isSolid_empty` determine every reading after any writes.
-/

namespace VoxelStream

/-- An integer point or direction, in voxel units. -/
structure Point where
  x : Int
  y : Int
  z : Int
deriving DecidableEq, Repr, Inhabited

/-- A voxel of a chunk by its place on each axis. -/
structure Voxel where
  x : Fin 16
  y : Fin 16
  z : Fin 16
deriving DecidableEq, Repr

namespace Voxel

/-- The least corner of the voxel. -/
def toPoint (v : Voxel) : Point := ⟨v.x, v.y, v.z⟩

/-- The place of the voxel in its grid, with `x` fastest and `z` slowest. -/
def index (v : Voxel) : Fin 4096 := ⟨v.x + 16 * v.y + 256 * v.z, by omega⟩

/-- The voxel at a place of the grid. -/
def ofIndex (i : Fin 4096) : Voxel :=
  ⟨⟨i % 16, by omega⟩, ⟨i / 16 % 16, by omega⟩, ⟨i / 256, by omega⟩⟩

/-- The voxel at a position, if there is one. -/
def ofPoint? (p : Point) : Option Voxel :=
  if h : (0 ≤ p.x ∧ p.x < 16) ∧ (0 ≤ p.y ∧ p.y < 16) ∧ (0 ≤ p.z ∧ p.z < 16) then
    some ⟨⟨p.x.toNat, by omega⟩, ⟨p.y.toNat, by omega⟩, ⟨p.z.toNat, by omega⟩⟩
  else none

/-- All voxels in the order of their indices. -/
def all : List Voxel :=
  (List.finRange 16).flatMap fun z => (List.finRange 16).flatMap fun y =>
    (List.finRange 16).map fun x => ⟨x, y, z⟩

/-- The index of a voxel leads back to it. -/
theorem ofIndex_index (v : Voxel) : ofIndex v.index = v := by
  cases v
  simp only [ofIndex, index, Voxel.mk.injEq, Fin.ext_iff]
  omega

/-- No two voxels have the same index. -/
theorem index_inj {v w : Voxel} : v.index = w.index ↔ v = w := by
  cases v
  cases w
  simp only [index, Voxel.mk.injEq, Fin.ext_iff]
  omega

/-- A point is a voxel of the grid if the voxel is at it. -/
theorem ofPoint?_eq_some_iff {p : Point} {v : Voxel} : ofPoint? p = some v ↔ v.toPoint = p := by
  cases p
  cases v
  unfold ofPoint?
  split
  next h =>
    simp only at h
    simp only [Option.some.injEq, Voxel.mk.injEq, Fin.ext_iff, toPoint, Point.mk.injEq]
    omega
  next h =>
    simp only at h
    simp only [reduceCtorEq, toPoint, Point.mk.injEq, false_iff]
    omega

end Voxel

/-- Which voxels of a chunk are solid. -/
structure Grid where
  cells : Vector Bool 4096
deriving DecidableEq

namespace Grid

/-- Nothing is solid. -/
def empty : Grid := ⟨Vector.replicate 4096 false⟩

instance : Inhabited Grid := ⟨empty⟩

/-- The grid in which just the voxels with a property are solid. -/
def ofFn (solid : Voxel → Bool) : Grid := ⟨.ofFn fun i => solid (.ofIndex i)⟩

/-- Whether a voxel is solid. -/
def get (g : Grid) (v : Voxel) : Bool := g.cells[v.index]

/-- Whether there is a solid voxel at a position. -/
def isSolid (g : Grid) (p : Point) : Bool :=
  match Voxel.ofPoint? p with
  | some v => g.get v
  | none => false

/-- Makes the voxel at a position, if there is one, solid or empty. -/
def set (g : Grid) (p : Point) (solid : Bool) : Grid :=
  match Voxel.ofPoint? p with
  | some v => ⟨g.cells.set v.index solid⟩
  | none => g

/-- The number of solid voxels. -/
def solidCount (g : Grid) : Nat := g.cells.count true

/-- A grid made of a function has its values. -/
theorem get_ofFn (solid : Voxel → Bool) (v : Voxel) : (ofFn solid).get v = solid v := by
  simp [get, ofFn, Voxel.ofIndex_index]

/-- At a voxel the grid has what the voxel is. -/
theorem isSolid_toPoint (g : Grid) (v : Voxel) : g.isSolid v.toPoint = g.get v := by
  rw [isSolid, Voxel.ofPoint?_eq_some_iff.2 rfl]

/-- Nothing of the empty grid is solid. -/
theorem isSolid_empty (p : Point) : empty.isSolid p = false := by
  unfold isSolid
  split <;> simp [get, empty]

/-- A write decides on its own point, and only if that is in the grid. -/
theorem isSolid_set (g : Grid) (p q : Point) (solid : Bool) :
    (g.set p solid).isSolid q =
      if p = q ∧ (Voxel.ofPoint? p).isSome then solid else g.isSolid q := by
  unfold set
  cases hp : Voxel.ofPoint? p with
  | none => simp
  | some v =>
    unfold isSolid
    cases hq : Voxel.ofPoint? q with
    | none =>
      have : p ≠ q := fun e => by simp [e, hq] at hp
      simp [this]
    | some w =>
      have hpq : p = q ↔ v = w := by
        rw [← Voxel.ofPoint?_eq_some_iff.1 hp, ← Voxel.ofPoint?_eq_some_iff.1 hq]
        exact ⟨fun e => Option.some.inj ((Voxel.ofPoint?_eq_some_iff.2 rfl).symm.trans
          (e ▸ Voxel.ofPoint?_eq_some_iff.2 rfl)), fun e => e ▸ rfl⟩
      simp only [get, Fin.getElem_fin, Vector.getElem_set, hpq, Option.isSome_some, and_true,
        Fin.val_inj, Voxel.index_inj]

end Grid
end VoxelStream
