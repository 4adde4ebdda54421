import VoxelStream.Proofs.Number.Single
import VoxelStream.Proofs.Render.Range
import VoxelStream.Terrain

/-!
# Columns of terrain

A column of voxels is cut off at one height, and its samples go up with the voxels, so it has no
overhangs; and since cells over each other read the same heights, neither has the stack of them.
What could go wrong is the numbers. In single precision a sample is not where it should be, but it
is a number nearest to its exact place (`Scale.exists_nearest_sample`): only the last sum rounds.
Rounding keeps the order, so samples are below what a sample above them is below of, even where
several of them fall together (`Scale.below_of_place_lt`). Nothing is asked of the heights, which
may be infinite or no numbers at all.

The main statement is `Tree.columns_without_overhangs`, for any height field and any two cells of a
tree over each other.
-/

namespace VoxelStream

open Single (Is Nearest Representable is_toFloat32 is_half)

/-! ## Grids -/

/-- No voxel hangs over an empty one of its column. -/
def Grid.Piled (g : Grid) : Prop := ∀ v w : Voxel, w.x = v.x → w.z = v.z → w.y < v.y →
  g.get v = true → g.get w = true

/-- Under a column with a solid voxel everything of the other grid is solid. -/
def Grid.RestsOn (g below : Grid) : Prop := ∀ v w : Voxel, w.x = v.x → w.z = v.z →
  g.get v = true → below.get w = true

namespace Scale

/-! ## Samples -/

/-- Where sample `i` of a cell lies on an axis, exactly. -/
def place (origin : ℤ) (level : ℕ) (i : Fin 16) : ℚ := origin * 16 + (i + 1 / 2) * 2 ^ level

/-- In a cell the places go up. -/
theorem place_lt_of_lt (origin : ℤ) (level : ℕ) {i j : Fin 16} (h : i < j) :
    place origin level i < place origin level j := by
  have : (i : ℚ) < j := by exact_mod_cast h
  unfold place
  gcongr

/-- They all are below those of a cell of the same size over it. -/
theorem place_lt_of_above {low high : ℤ} {level : ℕ} (h : low + 2 ^ level ≤ high) (i j : Fin 16) :
    place low level i < place high level j := by
  have hi : (i : ℚ) ≤ 15 := by exact_mod_cast Nat.lt_succ_iff.1 i.isLt
  have hj : (0 : ℚ) ≤ j := Nat.cast_nonneg _
  have hpos : (0 : ℚ) < 2 ^ level := by positivity
  have h' : (low : ℚ) + 2 ^ level ≤ high := by exact_mod_cast h
  unfold place
  nlinarith

variable {origin edge : Int32} {level : ℕ}

/-- The corner of a cell is converted and scaled exactly. -/
theorem is_base (h : |origin.toInt| ≤ 2 ^ 23) :
    Is (Word.toFloat32 origin * Word.toFloat32 16) (origin.toInt * 16) := by
  have hsmall : |(origin.toInt : ℚ)| ≤ 2 ^ 23 := by exact_mod_cast h
  have horigin : Is (Word.toFloat32 origin) origin.toInt :=
    is_toFloat32 ⟨origin.toInt, 0, by omega, by norm_num, by simp⟩
  have hsixteen : Is (Word.toFloat32 16) (16 : ℚ) :=
    is_toFloat32 (w := 16) ⟨16, 0, by norm_num, by norm_num, by simp⟩
  refine horigin.mul_exact hsixteen ⟨origin.toInt, 4, by omega, by norm_num, by norm_num⟩ ?_
  rw [abs_mul]
  norm_num
  linarith

/-- The places of samples in a cell of edge one are represented exactly. -/
theorem is_middle (i : Fin 16) : Is (Word.toFloat32 (.ofNat i) + 0.5) (i + 1 / 2) := by
  have hword : (Int32.ofNat i).toInt = (i : ℕ) := Int32.toInt_ofNat_of_lt (by omega)
  have hsmall : |(2 * (i : ℕ) + 1 : ℤ)| < 2 ^ 24 := by
    rw [abs_of_nonneg] <;> omega
  have hindex : Is (Word.toFloat32 (.ofNat i)) (i : ℕ) := by
    have := is_toFloat32 (w := .ofNat i) (by
      rw [hword]
      exact ⟨(i : ℕ), 0, by rw [Nat.abs_cast]; omega, by norm_num, by simp⟩)
    rwa [hword] at this
  refine hindex.add_exact is_half ⟨2 * (i : ℕ) + 1, -1, hsmall, by norm_num, ?_⟩ ?_
  · push_cast
    norm_num
    ring
  · rw [abs_of_nonneg (by positivity)]
    have : ((i : ℕ) : ℚ) ≤ 15 := by exact_mod_cast Nat.lt_succ_iff.1 i.isLt
    linarith

/-- A sample is not far from the origin of its cell. -/
theorem offset_le (hlevel : level ≤ 24) (i : Fin 16) :
    |((i : ℕ) + 1 / 2 : ℚ) * 2 ^ level| ≤ 2 ^ 28 := by
  have hi : ((i : ℕ) : ℚ) ≤ 15 := by exact_mod_cast Nat.lt_succ_iff.1 i.isLt
  have hpow : (2 : ℚ) ^ level ≤ 2 ^ 24 := pow_le_pow_right₀ (by norm_num) hlevel
  rw [abs_of_nonneg (by positivity)]
  calc ((i : ℕ) + 1 / 2 : ℚ) * 2 ^ level ≤ 2 ^ 4 * 2 ^ 24 := by gcongr; linarith
    _ = 2 ^ 28 := by norm_num

/-- And so are those in larger cells. -/
theorem is_offset (hedge : edge.toInt = 2 ^ level) (hlevel : level ≤ 24) (i : Fin 16) :
    Is ((Word.toFloat32 (.ofNat i) + 0.5) * Word.toFloat32 edge) ((i + 1 / 2) * 2 ^ level) := by
  have hedge' : Is (Word.toFloat32 edge) (2 ^ level) := by
    have := is_toFloat32 (w := edge) (by
      rw [hedge]
      exact ⟨1, level, by norm_num, by omega, by simp⟩)
    rw [hedge] at this
    exact_mod_cast this
  have hsmall : |(2 * (i : ℕ) + 1 : ℤ)| < 2 ^ 24 := by
    rw [abs_of_nonneg] <;> omega
  refine (is_middle i).mul_exact hedge' ⟨2 * (i : ℕ) + 1, level - 1, hsmall, by omega, ?_⟩ ?_
  · rw [zpow_sub₀ (by norm_num)]
    push_cast
    norm_num
    ring
  · exact (offset_le hlevel i).trans (by norm_num)

/-- A sample is a number nearest to its exact place: all but the last sum is exact. -/
theorem exists_nearest_sample (horigin : |origin.toInt| ≤ 2 ^ 23) (hedge : edge.toInt = 2 ^ level)
    (hlevel : level ≤ 24) (i : Fin 16) :
    ∃ q, Nearest (place origin.toInt level i) q ∧ Is (float32.sample origin edge i) q := by
  refine (is_base horigin).add (is_offset hedge hlevel i) ?_
  have hsmall : |(origin.toInt : ℚ)| ≤ 2 ^ 23 := by exact_mod_cast horigin
  refine (abs_add_le _ _).trans ((add_le_add (b := 2 ^ 27) ?_ (offset_le hlevel i)).trans ?_)
  · rw [abs_mul]
    norm_num
    linarith
  · norm_num

/-- What is above a sample is above all samples that lie below it exactly, number or not. -/
theorem below_of_place_lt {origin' edge' : Int32} {level' : ℕ} {i j : Fin 16} {height : Float32}
    (horigin : |origin.toInt| ≤ 2 ^ 23) (hedge : edge.toInt = 2 ^ level) (hlevel : level ≤ 24)
    (horigin' : |origin'.toInt| ≤ 2 ^ 23) (hedge' : edge'.toInt = 2 ^ level')
    (hlevel' : level' ≤ 24)
    (hlt : place origin.toInt level i < place origin'.toInt level' j)
    (h : float32.below (float32.sample origin' edge' j) height = true) :
    float32.below (float32.sample origin edge i) height = true := by
  obtain ⟨q, hq, hlow⟩ := exists_nearest_sample horigin hedge hlevel i
  obtain ⟨r, hr, hhigh⟩ := exists_nearest_sample horigin' hedge' hlevel' j
  exact decide_eq_true (hlow.lt_of_le_of_lt hhigh (hq.mono hr hlt) (of_decide_eq_true h))

/-! ## Columns -/

theorem mod_lt_sixteen (column : Fin 256) : (column : ℕ) % 16 < 16 := Nat.mod_lt _ (by decide)

theorem div_lt_sixteen (column : Fin 256) : (column : ℕ) / 16 < 16 := by omega

theorem column_lt (v : Voxel) : (v.x + 16 * v.z : ℕ) < 256 := by omega

/-- The heights that the columns of a cell are cut off at, row by row. -/
def heights (height : Float32 → Float32 → Checked Float32) (n : Node) :
    Checked (Vector Float32 256) :=
  Vector.ofFnM fun column => height (float32.sample n.origin.x n.edge ⟨_, mod_lt_sixteen column⟩)
    (float32.sample n.origin.z n.edge ⟨_, div_lt_sixteen column⟩)

/-- The voxels below these heights. -/
def gridBelow (n : Node) (heights : Vector Float32 256) : Grid :=
  .ofFn fun v => float32.below (float32.sample n.origin.y n.edge v.y)
    (heights.get ⟨_, column_lt v⟩)

variable {height : Float32 → Float32 → Checked Float32} {n lower upper : Node} {g : Grid}

/-- A grid of columns is had just if all heights are, and has the voxels below them. -/
theorem columnGrid_eq_ok_iff (hn : n.level.toNat < 32) : float32.columnGrid height n = .ok g ↔
    ∃ hs, heights height n = .ok hs ∧ g = gridBelow n hs := by
  have hsize : n.size = .ok n.edge := if_pos (UInt32.lt_iff_toNat_lt.2 hn)
  rw [columnGrid, hsize]
  change (heights height n >>= fun hs => Except.ok (gridBelow n hs)) = .ok g ↔ _
  rw [Checked.bind_eq_ok_iff]
  refine exists_congr fun hs => and_congr_right fun _ => ?_
  rw [Except.ok.injEq, eq_comm]

/-- Cells over each other are cut off at the same heights. -/
theorem heights_congr (hlevel : lower.level = upper.level) (hx : lower.origin.x = upper.origin.x)
    (hz : lower.origin.z = upper.origin.z) : heights height lower = heights height upper := by
  unfold heights Node.edge
  rw [hlevel, hx, hz]

/-- Under a height field without faults a grid is there, and it is solid below the field. -/
theorem exists_columnGrid {f : Float32 → Float32 → Float32} (hf : ∀ x z, height x z = .ok (f x z))
    (hn : n.level.toNat < 32) : ∃ g, float32.columnGrid height n = .ok g ∧
      ∀ v : Voxel, g.get v = float32.below (float32.sample n.origin.y n.edge v.y)
        (f (float32.sample n.origin.x n.edge v.x) (float32.sample n.origin.z n.edge v.z)) := by
  have hpure : height = fun x z => pure (f x z) := funext₂ hf
  have hheights : heights height n = .ok (.ofFn fun column : Fin 256 =>
      f (float32.sample n.origin.x n.edge ⟨column % 16, by omega⟩)
        (float32.sample n.origin.z n.edge ⟨column / 16, by omega⟩)) := by
    rw [hpure, heights, Vector.ofFnM_pure]
    rfl
  refine ⟨_, (columnGrid_eq_ok_iff hn).2 ⟨_, hheights, rfl⟩, fun v => ?_⟩
  have hx : (v.x + 16 * v.z : ℕ) % 16 = v.x := by omega
  have hz : (v.x + 16 * v.z : ℕ) / 16 = v.z := by omega
  rw [gridBelow, Grid.get_ofFn]
  simp only [Vector.get_ofFn, hx, hz]

/-- What is under a solid voxel of its column is solid, in the same cell or in another one. -/
theorem get_gridBelow_of_place_lt {t : Tree} {hs : Vector Float32 256} {v w : Voxel}
    (hlower : lower.Within t.root) (hupper : upper.Within t.root) (hx : w.x = v.x) (hz : w.z = v.z)
    (hlt : place (lower.origin.along .y) lower.level.toNat w.y <
      place (upper.origin.along .y) upper.level.toNat v.y)
    (h : (gridBelow upper hs).get v = true) : (gridBelow lower hs).get w = true := by
  have hgood : ∀ {n : Node}, n.Within t.root → |n.origin.y.toInt| ≤ 2 ^ 23 ∧
      n.edge.toInt = 2 ^ n.level.toNat ∧ n.level.toNat ≤ 24 := by
    intro n hn
    have hbounds := hn.along_bounds .y
    have hlevel := hn.level_le
    have hpos : (0 : ℤ) < 2 ^ n.level.toNat := by positivity
    exact ⟨abs_le.2 ⟨hbounds.1, by change n.origin.along .y ≤ _; omega⟩,
      Node.toInt_edge (by omega), hlevel⟩
  obtain ⟨ho, he, hl⟩ := hgood hlower
  obtain ⟨ho', he', hl'⟩ := hgood hupper
  rw [gridBelow, Grid.get_ofFn] at h ⊢
  simp only [hx, hz]
  exact below_of_place_lt ho he hl ho' he' hl' hlt h

end Scale

/-- Where a voxel is solid, so are all under it: those of its column in the cell, and those in a
cell of the same size under it. This holds for every height field, and it is all that a terrain
takes from its settings and its noise. If the upper cell has a grid, so has the lower one; and it
has one if the height field is total. -/
theorem Tree.columns_without_overhangs (t : Tree) {upper lower : Node}
    (hupper : upper.Within t.root) (hlower : lower.Within t.root)
    (hlevel : lower.level = upper.level) (hx : lower.origin.x = upper.origin.x)
    (hz : lower.origin.z = upper.origin.z)
    (hy : lower.origin.y = upper.origin.y ∨
      lower.origin.along .y + 2 ^ lower.level.toNat ≤ upper.origin.along .y)
    (height : Float32 → Float32 → Checked Float32) :
    ((∀ x z, ∃ y, height x z = .ok y) → ∃ g, Scale.float32.columnGrid height upper = .ok g) ∧
    (∀ g, Scale.float32.columnGrid height upper = .ok g → g.Piled ∧
      ∃ below, Scale.float32.columnGrid height lower = .ok below ∧
        (lower.origin.along .y < upper.origin.along .y → g.RestsOn below)) ∧
    ∀ terrain : Terrain, terrain.voxels = Scale.float32.columnGrid terrain.heightAt := by
  have hwords : ∀ {n : Node}, n.Within t.root → n.level.toNat < 32 := by
    intro n hn
    have := hn.level_le
    omega
  refine ⟨fun htotal => ?_, fun g hg => ?_, fun _ => rfl⟩
  · choose f hf using htotal
    obtain ⟨g, hg, -⟩ := Scale.exists_columnGrid hf (hwords hupper)
    exact ⟨g, hg⟩
  · obtain ⟨hs, hhs, rfl⟩ := (Scale.columnGrid_eq_ok_iff (hwords hupper)).1 hg
    refine ⟨fun v w hwx hwz hlt h => ?_, Scale.gridBelow lower hs, ?_, fun hlt v w hwx hwz h => ?_⟩
    · exact Scale.get_gridBelow_of_place_lt hupper hupper hwx hwz (Scale.place_lt_of_lt _ _ hlt) h
    · rw [← Scale.heights_congr hlevel hx hz] at hhs
      exact (Scale.columnGrid_eq_ok_iff (hwords hlower)).2 ⟨hs, hhs, rfl⟩
    · have habove := hy.resolve_left fun he => by
        rw [Coord.along, Coord.along, he] at hlt
        exact lt_irrefl _ hlt
      refine Scale.get_gridBelow_of_place_lt hlower hupper hwx hwz ?_ h
      rw [← hlevel]
      exact Scale.place_lt_of_above habove _ _

/-- In the topmost leaf of the deepest tree samples round to multiples of eight, so the lowest four
of a column fall together. Half of the heights are no numbers. -/
theorem Tree.columns_without_overhangs_at_top :
    let t : Tree := ⟨24, by decide, by decide⟩
    let upper : Node := .leaf ⟨0, 8388607, 0⟩
    let lower : Node := .leaf ⟨0, 8388606, 0⟩
    let height : Float32 → Float32 → Checked Float32 := fun x _ =>
      .ok (if x < 8 then 134217720 else 0 / 0)
    upper.Within t.root ∧ lower.Within t.root ∧ ∃ g below,
      Scale.float32.columnGrid height upper = .ok g ∧
      Scale.float32.columnGrid height lower = .ok below ∧
      g.get ⟨0, 3, 0⟩ = true ∧ g.get ⟨0, 4, 0⟩ = false ∧ g.get ⟨8, 0, 0⟩ = false ∧
      g.Piled ∧ g.RestsOn below ∧ below.get ⟨0, 15, 0⟩ = true := by
  intro t upper lower height
  have hwithin : ∀ {y : Int32}, -8388608 ≤ y.toInt ∧ y.toInt < 8388608 →
      (Node.leaf ⟨0, y, 0⟩).Within t.root := by
    intro y hy p hp
    refine Tree.root_covers_iff.2 fun a => ?_
    have hp : (Coord.along ⟨0, y, 0⟩ a) ≤ p a ∧ p a < Coord.along ⟨0, y, 0⟩ a + 1 := hp a
    change -8388608 ≤ p a ∧ p a < 8388608
    cases a <;> simp only [Coord.along] at hp <;> simp at hp <;> omega
  have hupper : upper.Within t.root := hwithin (by decide)
  have hlower : lower.Within t.root := hwithin (by decide)
  have hunder : lower.origin.along .y + 2 ^ lower.level.toNat ≤ upper.origin.along .y := by decide
  obtain ⟨-, hall, -⟩ :=
    t.columns_without_overhangs hupper hlower rfl rfl rfl (.inr hunder) height
  have hheight : ∀ x z, height x z = .ok (if x < 8 then 134217720 else 0 / 0) := fun _ _ => rfl
  obtain ⟨g, hg, hget⟩ := Scale.exists_columnGrid hheight (n := upper) (by decide)
  obtain ⟨hpiled, below, hbelow, hrests⟩ := hall g hg
  have hsolid : g.get ⟨0, 3, 0⟩ = true := by
    rw [hget]
    decide +kernel
  refine ⟨hupper, hlower, g, below, hg, hbelow, hsolid, ?_, ?_, hpiled,
    hrests (by decide), hrests (by decide) ⟨0, 3, 0⟩ _ rfl rfl hsolid⟩
  · rw [hget]
    decide +kernel
  · rw [hget]
    decide +kernel

end VoxelStream
