import VoxelStream.Proofs.Octree.Cut
import VoxelStream.Render.Frame

/-!
# What a frame computes of a chunk

Whether a chunk is drawn and under which transform is settled by its offset from the referential,
its size and the filter, and no painter has a part in it. This module says when that computation
leaves the words (`Chunk.Overflows`, `Chunk.passes_eq_error_iff`), and what it finds when it does not
(`Chunk.eq_true_iff_of_passes`). Both are told in exact integers. The end of a chunk is only computed
if the chunk starts at or below the layer, so a chunk above it overflows less easily.

Cells of a tree are small and near the origin of the world. No frame leaves the words at them if its
referential keeps `2 ^ 23 + 1` away from the ends (`Chunk.not_overflows`), and then a layer keeps the
chunks that it goes through (`Chunk.passes_layer`).
-/

namespace VoxelStream

namespace Coord

variable {a b c : Coord}

/-- The difference on every axis, if it is a coordinate. -/
theorem sub_eq_ok_iff_along : a.sub b = .ok c ↔ ∀ d, c.along d = a.along d - b.along d := by
  rw [sub_eq_ok_iff]
  constructor
  · rintro ⟨hx, hy, hz⟩ d
    cases d with
    | x => exact hx
    | y => exact hy
    | z => exact hz
  · exact fun h => ⟨h .x, h .y, h .z⟩

/-- The difference, axis by axis in words. -/
def minus (a b : Coord) : Coord := ⟨a.x - b.x, a.y - b.y, a.z - b.z⟩

/-- A difference that is a word on all axes is computed. -/
theorem sub_eq_ok_minus (h : ∀ d, Word.InRange (a.along d - b.along d)) :
    a.sub b = .ok (a.minus b) := by
  have hword : ∀ v w : Int32, Word.InRange (v.toInt - w.toInt) →
      (v - w).toInt = v.toInt - w.toInt := by
    intro v w hvw
    rw [Int32.toInt_sub]
    exact Int.bmod_eq_of_le hvw.1 hvw.2
  exact sub_eq_ok_iff.2 ⟨hword _ _ (h .x), hword _ _ (h .y), hword _ _ (h .z)⟩

/-- A difference is only refused for leaving the words. -/
theorem eq_overflow_of_sub {e : Fault} (h : a.sub b = .error e) : e = .overflow := by
  unfold sub at h
  rcases Checked.bind_eq_error_iff.1 h with hx | ⟨x, -, h⟩
  · exact (Word.ofInt_eq_error_iff.1 hx).1
  rcases Checked.bind_eq_error_iff.1 h with hy | ⟨y, -, h⟩
  · exact (Word.ofInt_eq_error_iff.1 hy).1
  rcases Checked.bind_eq_error_iff.1 h with hz | ⟨z, -, h⟩
  · exact (Word.ofInt_eq_error_iff.1 hz).1
  cases h

/-- A difference fails if it is no word on some axis, and for no other reason. -/
theorem sub_eq_error_iff {e : Fault} :
    a.sub b = .error e ↔ e = .overflow ∧ ∃ d, ¬ Word.InRange (a.along d - b.along d) := by
  by_cases hall : ∀ d, Word.InRange (a.along d - b.along d)
  · simp [sub_eq_ok_minus hall, hall]
  · rw [← not_forall]
    cases h : a.sub b with
    | error e' =>
      rw [eq_overflow_of_sub h]
      simp [hall, eq_comm]
    | ok c =>
      refine absurd (fun d => ?_) hall
      rw [← sub_eq_ok_iff_along.1 h d]
      exact c.inRange_along d

end Coord

/-! ## Filters -/

namespace ChunkFilter

variable {filter : ChunkFilter} {relative : Coord} {size y : Int32}

/-- What starts above the layer is kept out. -/
theorem passes_of_lt (h : y.toInt < relative.y.toInt) :
    passes (.layer y) relative size = .ok false := by
  simp only [passes, if_pos (Int32.lt_iff_toInt_lt.2 h)]
  rfl

/-- For what does not, its end is computed. -/
theorem passes_of_le (h : relative.y.toInt ≤ y.toInt) :
    passes (.layer y) relative size = do return y < (← Word.add relative.y size) := by
  have hy : ¬ y < relative.y := by
    rw [Int32.lt_iff_toInt_lt]
    omega
  simp only [passes, if_neg hy]

/-- The filter leaves the words if it computes an end that is none. -/
theorem passes_eq_error_iff {e : Fault} : filter.passes relative size = .error e ↔
    e = .overflow ∧ ∃ y, filter = .layer y ∧ relative.y.toInt ≤ y.toInt ∧
      ¬ Word.InRange (relative.y.toInt + size.toInt) := by
  cases filter with
  | all => simp [passes]
  | layer y =>
    rcases lt_or_ge y.toInt relative.y.toInt with hlt | hle
    · simp [passes_of_lt hlt, hlt]
    · rw [passes_of_le hle, Checked.bind_eq_error_iff, Word.add, Word.ofInt_eq_error_iff]
      simp [pure, Except.pure, hle]

/-- What the filter finds, in exact integers. -/
theorem eq_true_iff_of_passes {b : Bool} (h : filter.passes relative size = .ok b) : b = true ↔
    ∀ y, filter = .layer y →
      relative.y.toInt ≤ y.toInt ∧ y.toInt < relative.y.toInt + size.toInt := by
  cases filter with
  | all =>
    cases h
    simp
  | layer y =>
    rcases lt_or_ge y.toInt relative.y.toInt with hlt | hle
    · rw [passes_of_lt hlt] at h
      cases h
      simp [hlt]
    · rw [passes_of_le hle] at h
      obtain ⟨w, hw, hb⟩ := Checked.bind_eq_ok_iff.1 h
      cases hb
      simp [hle, ← Word.add_eq_ok_iff.1 hw, Int32.lt_iff_toInt_lt]

end ChunkFilter

/-! ## Chunks -/

namespace Chunk

variable {filter : ChunkFilter} {referential : Coord} {c : Chunk}

/-- Whether the filter lets the chunk pass, as a frame finds out. -/
def passes (filter : ChunkFilter) (referential : Coord) (c : Chunk) : Checked Bool := do
  filter.passes (← c.origin.sub referential) (← c.size)

/-- The offset from the referential, the size or the end that the filter looks at is no word. -/
def Overflows (filter : ChunkFilter) (referential : Coord) (c : Chunk) : Prop :=
  (∃ a, ¬ Word.InRange (c.origin.along a - referential.along a)) ∨ 32 ≤ c.lod.toNat ∨
    ∃ y, filter = .layer y ∧ c.origin.along .y - referential.along .y ≤ y.toInt ∧
      ¬ Word.InRange (c.origin.along .y - referential.along .y + c.node.edge.toInt)

/-- Up to level 31 the size is a word. -/
theorem size_eq_ok (h : c.lod.toNat < 32) : c.size = .ok c.node.edge :=
  if_pos (UInt32.lt_iff_toNat_lt.2 h)

/-- From level 32 on the size is no word. -/
theorem size_eq_error (h : 32 ≤ c.lod.toNat) : c.size = .error .overflow :=
  if_neg fun hlt => Nat.not_lt.2 h (UInt32.lt_iff_toNat_lt.1 hlt)

/-- The computation ends without a value if and only if it leaves the words. -/
theorem passes_eq_error_iff {e : Fault} :
    c.passes filter referential = .error e ↔ e = .overflow ∧ c.Overflows filter referential := by
  unfold passes Overflows
  by_cases hsub : ∀ a, Word.InRange (c.origin.along a - referential.along a)
  · have hrel := Coord.sub_eq_ok_minus hsub
    have hy : (c.origin.minus referential).y.toInt = c.origin.along .y - referential.along .y :=
      Coord.sub_eq_ok_iff_along.1 hrel .y
    rw [hrel]
    rcases lt_or_ge c.lod.toNat 32 with hl | hl
    · rw [size_eq_ok hl]
      show filter.passes _ _ = _ ↔ _
      rw [ChunkFilter.passes_eq_error_iff, hy]
      simp [hsub, hl]
    · rw [size_eq_error hl]
      simp [bind, Except.bind, hl, eq_comm]
  · have hout := not_forall.1 hsub
    rw [Coord.sub_eq_error_iff.2 ⟨rfl, hout⟩]
    constructor
    · intro h
      injection h with h
      exact ⟨h.symm, .inl hout⟩
    · rintro ⟨rfl, -⟩
      rfl

/-- A chunk that does not overflow passes or is dropped. -/
theorem exists_passes_eq_ok (h : ¬ c.Overflows filter referential) :
    ∃ b, c.passes filter referential = .ok b := by
  cases hp : c.passes filter referential with
  | error e => exact absurd (passes_eq_error_iff.1 hp).2 h
  | ok b => exact ⟨b, rfl⟩

/-- What the computation of a chunk is made of, if it stays in the words. -/
theorem passes_eq_ok {b : Bool} (h : c.passes filter referential = .ok b) :
    c.origin.sub referential = .ok (c.origin.minus referential) ∧ c.size = .ok c.node.edge ∧
      filter.passes (c.origin.minus referential) c.node.edge = .ok b := by
  have hin : ¬ c.Overflows filter referential := by
    intro ho
    rw [passes_eq_error_iff.2 ⟨rfl, ho⟩] at h
    cases h
  have hsub := Coord.sub_eq_ok_minus fun a => not_not.1 fun ha => hin (.inl ⟨a, ha⟩)
  have hsize := size_eq_ok (not_le.1 fun hl => hin (.inr (.inl hl)))
  refine ⟨hsub, hsize, ?_⟩
  rwa [passes, hsub, hsize] at h

/-- A layer keeps the chunks that it goes through, in exact integers. -/
theorem eq_true_iff_of_passes {b : Bool} (h : c.passes filter referential = .ok b) : b = true ↔
    ∀ y, filter = .layer y → c.origin.along .y ≤ referential.along .y + y.toInt ∧
      referential.along .y + y.toInt < c.origin.along .y + c.node.edge.toInt := by
  obtain ⟨hsub, -, hfilter⟩ := passes_eq_ok h
  have hy : (c.origin.minus referential).y.toInt = c.origin.along .y - referential.along .y :=
    Coord.sub_eq_ok_iff_along.1 hsub .y
  rw [ChunkFilter.eq_true_iff_of_passes hfilter]
  refine forall₂_congr fun y _ => ?_
  rw [hy]
  omega

end Chunk

/-! ## Chunks of a tree -/

/-- A cell of a tree is at most `2 ^ 23` away from the origin of the world. -/
theorem Node.Within.along_bounds {t : Tree} {n : Node} (h : n.Within t.root) (a : Axis) :
    -2 ^ 23 ≤ n.origin.along a ∧ n.origin.along a + 2 ^ n.level.toNat ≤ 2 ^ 23 := by
  have hpow : (2 : Int) ^ (t.rootLevel.toNat - 1) ≤ 2 ^ 23 :=
    pow_le_pow_right₀ (by decide) (by have := t.toNat_rootLevel_le; omega)
  have hpos : (0 : Int) < 2 ^ n.level.toNat := pow_pos (by decide) _
  have hlow := Tree.root_covers_iff.1 (h _ n.covers_origin) a
  -- The last position of the cell on every axis.
  have hlast : n.Covers fun b => n.origin.along b + 2 ^ n.level.toNat - 1 := by
    intro b
    dsimp only
    omega
  have hup := Tree.root_covers_iff.1 (h _ hlast) a
  omega

/-- No node within a tree is above its root. -/
theorem Node.Within.level_le {t : Tree} {n : Node} (h : n.Within t.root) :
    n.level.toNat ≤ 24 := by
  have hbounds := h.along_bounds .x
  have hle : (2 : Int) ^ n.level.toNat ≤ 2 ^ 24 := by omega
  exact (pow_le_pow_iff_right₀ (by decide)).1 hle

/-- No frame leaves the words at a chunk of a tree if its referential is away from the ends. -/
theorem Chunk.not_overflows {t : Tree} {c : Chunk} {filter : ChunkFilter} {referential : Coord}
    (hc : c.node.Within t.root) (hr : ∀ a, |referential.along a| ≤ 2 ^ 31 - 2 ^ 23 - 1) :
    ¬ c.Overflows filter referential := by
  have hlevel := hc.level_le
  have hedge := Node.toInt_edge (n := c.node) (by omega)
  have hin : ∀ a, Word.InRange (c.origin.along a - referential.along a) ∧
      Word.InRange (c.origin.along a - referential.along a + c.node.edge.toInt) := by
    intro a
    have hbounds := hc.along_bounds a
    have hreferential := abs_le.1 (hr a)
    have hpos : (0 : Int) < 2 ^ c.node.level.toNat := pow_pos (by decide) _
    rw [hedge]
    unfold Word.InRange Chunk.origin
    omega
  rintro (⟨a, ha⟩ | hl | ⟨y, -, -, hy⟩)
  · exact ha (hin a).1
  · exact absurd hl (by unfold Chunk.lod; omega)
  · exact hy (hin .y).2

/-- A layer counted from the referential goes through the chunk. -/
def Chunk.Meets (referential : Coord) (y : Int32) (c : Chunk) : Prop :=
  c.origin.along .y ≤ referential.along .y + y.toInt ∧
    referential.along .y + y.toInt < c.origin.along .y + 2 ^ c.lod.toNat

instance (referential : Coord) (y : Int32) : DecidablePred (Chunk.Meets referential y) :=
  fun _ => inferInstanceAs (Decidable (_ ∧ _))

/-- Then a layer keeps the chunks of a tree that it goes through and no others. -/
theorem Chunk.passes_layer {t : Tree} {c : Chunk} {referential : Coord} {y : Int32}
    (hc : c.node.Within t.root) (hr : ∀ a, |referential.along a| ≤ 2 ^ 31 - 2 ^ 23 - 1) :
    c.passes (.layer y) referential = .ok (decide (c.Meets referential y)) := by
  have hedge : c.node.edge.toInt = 2 ^ c.lod.toNat :=
    Node.toInt_edge (by have := hc.level_le; omega)
  have hin : ¬ c.Overflows (.layer y) referential := Chunk.not_overflows hc hr
  obtain ⟨b, hb⟩ := Chunk.exists_passes_eq_ok hin
  have hmeets : b = decide (c.Meets referential y) := by
    rw [Bool.eq_iff_iff, decide_eq_true_iff, Chunk.eq_true_iff_of_passes hb, hedge]
    constructor
    · intro h
      exact h y rfl
    · rintro h _ ⟨⟩
      exact h
  rw [hb, hmeets]

end VoxelStream
