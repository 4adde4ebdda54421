import Mathlib.Data.Set.Card
import VoxelStream.Proofs.Voxel.Volume

/-!
# Grids as arrays

A grid that was written to is known by what was written: each voxel has the last value written to
it, and everything else is empty (`Grid.isSolid_written`). Positions are told apart because the
places of voxels are. A place is a sum of products of words, and none of its parts overflows
(`Voxel.place_eq`): it is only computed for positions inside, where it stays below the number of
cells.
-/

namespace VoxelStream

namespace Word

/-- The exact product, if it is a word. -/
def mul (a b : Int32) : Checked Int32 := ofInt (a.toInt * b.toInt)

/-- A number in range is a word. -/
theorem exists_ofInt {n : Int} (h : InRange n) : ∃ w, ofInt n = .ok w ∧ w.toInt = n :=
  ⟨.ofInt n, if_pos h, Int32.toInt_ofInt_of_le h.1 h.2⟩

end Word

/-! ## Places -/

namespace Point

/-- A voxel is at the position. -/
def Inside (p : Point) : Prop :=
  (0 ≤ p.x ∧ p.x < 16) ∧ (0 ≤ p.y ∧ p.y < 16) ∧ (0 ≤ p.z ∧ p.z < 16)

instance (p : Point) : Decidable p.Inside :=
  inferInstanceAs (Decidable (_ ∧ _ ∧ _))

/-- The position that three words give. -/
def ofWords (x y z : Int32) : Point := ⟨x.toInt, y.toInt, z.toInt⟩

/-- The points of the grid are those inside of it. -/
theorem isSome_ofPoint?_iff {p : Point} : (Voxel.ofPoint? p).isSome ↔ p.Inside := by
  unfold Voxel.ofPoint? Inside
  split <;> simp_all

end Point

namespace Voxel

/-- The place of a position in the cells of a grid as it is computed in words, if there is one. -/
def place (x y z : Int32) : Checked (Option Int32) :=
  if (Point.ofWords x y z).Inside then do
    let row ← Word.mul y 16
    let inLayer ← Word.add x row
    let layers ← Word.mul z 16
    let layer ← Word.mul layers 16
    let i ← Word.add inLayer layer
    return some i
  else .ok none

/-- The words give the place of the voxel. -/
theorem place_eq (x y z : Int32) : place x y z =
    .ok ((ofPoint? (.ofWords x y z)).map fun v => .ofInt v.index) := by
  unfold place
  split
  next h =>
    obtain ⟨v, hv⟩ := Option.isSome_iff_exists.1 (Point.isSome_ofPoint?_iff.2 h)
    have hpoint := ofPoint?_eq_some_iff.1 hv
    obtain ⟨⟨hx, hx'⟩, ⟨hy, hy'⟩, hz, hz'⟩ := h
    simp only [Point.ofWords] at hx hx' hy hy' hz hz'
    obtain ⟨row, hrow, hrow'⟩ := Word.exists_ofInt (n := y.toInt * 16) (by omega)
    obtain ⟨inLayer, hin, hin'⟩ := Word.exists_ofInt (n := x.toInt + row.toInt) (by omega)
    obtain ⟨layers, hlayers, hlayers'⟩ := Word.exists_ofInt (n := z.toInt * 16) (by omega)
    obtain ⟨layer, hlayer, hlayer'⟩ := Word.exists_ofInt (n := layers.toInt * 16) (by omega)
    obtain ⟨i, hi, hi'⟩ := Word.exists_ofInt (n := inLayer.toInt + layer.toInt) (by omega)
    have hindex : i = .ofInt v.index := by
      simp only [toPoint, Point.ofWords, Point.mk.injEq] at hpoint
      have hvalue : i.toInt = v.index := by
        simp only [index]
        omega
      rw [← hvalue, Int32.ofInt_toInt]
    have h16 : (16 : Int32).toInt = 16 := by decide
    simp only [Word.mul, Word.add, h16, hrow, hin, hlayers, hlayer, hi, hv, hindex, bind,
      Except.bind]
    rfl
  next h =>
    have hnone : ofPoint? (.ofWords x y z) = none := by
      rw [← Option.not_isSome_iff_eq_none, Point.isSome_ofPoint?_iff]
      exact h
    rw [hnone]
    rfl

end Voxel

/-! ## Writes -/

/-- A value for a position. -/
abbrev Write : Type := Point × Bool

/-- The value written to a position last. -/
def lastWritten (ws : List Write) (p : Point) : Option Bool := ws.reverse.lookup p

/-- One write more is the last one at its point. -/
theorem lastWritten_concat (ws : List Write) (p q : Point) (solid : Bool) :
    lastWritten (ws ++ [(p, solid)]) q = if p = q then some solid else lastWritten ws q := by
  unfold lastWritten
  rw [List.reverse_concat, List.lookup_cons]
  by_cases h : p = q
  · simp [h]
  · have hne : (q == p) = false := by simpa using Ne.symm h
    rw [hne, if_neg h]

namespace Grid

/-- An empty grid after some writes, in their order. -/
def written (ws : List Write) : Grid := ws.foldl (fun g w => g.set w.1 w.2) empty

/-- Writes are made one after the other. -/
theorem written_concat (ws : List Write) (p : Point) (solid : Bool) :
    written (ws ++ [(p, solid)]) = (written ws).set p solid := by
  simp [written]

/-- A voxel has the last value written to it. -/
theorem isSolid_written (ws : List Write) (p : Point) :
    (written ws).isSolid p = if p.Inside then (lastWritten ws p).getD false else false := by
  induction ws using List.reverseRecOn with
  | nil => simp [written, isSolid_empty, lastWritten]
  | append_singleton ws w ih =>
    obtain ⟨q, solid⟩ := w
    simp only [written_concat, isSolid_set, lastWritten_concat, ih, Point.isSome_ofPoint?_iff]
    by_cases hq : q = p
    · subst hq
      by_cases hin : q.Inside <;> simp [hin]
    · simp [hq]

/-- The solid voxels are counted once each. -/
theorem solidCount_eq_ncard (g : Grid) : g.solidCount = {p | g.isSolid p = true}.ncard := by
  have hsolid : {p | g.isSolid p = true} =
      Voxel.toPoint '' {v | v ∈ (Voxel.all.filter g.get).toFinset} := by
    ext p
    simp only [Set.mem_ofPred_eq, Set.mem_image, List.mem_toFinset, List.mem_filter, Voxel.mem_all,
      true_and]
    constructor
    · intro hp
      unfold isSolid at hp
      split at hp
      next v hv => exact ⟨v, hp, Voxel.ofPoint?_eq_some_iff.1 hv⟩
      · cases hp
    · rintro ⟨v, hv, rfl⟩
      rwa [isSolid_toPoint]
  rw [hsolid, Set.ncard_image_of_injective _ fun _ _ => Voxel.toPoint_inj]
  have hcount : (Voxel.all.filter g.get).toFinset.card = Voxel.all.countP g.get := by
    rw [List.toFinset_card_of_nodup (Voxel.nodup_all.filter _), List.countP_eq_length_filter]
  rw [solidCount_eq_countP, ← hcount]
  exact (Set.ncard_coe_finset _).symm

/-- A grid is an array with three bounds.

After any writes to an empty grid each position inside has the last value written to it, if there
is one, and the positions outside are empty; one more write is seen at its own position only. The
solid voxels are as many as positions inside were last written solid. Wherever a position is, its
place is computed in words without an overflow, and what is read or written there is the cell of
the grid at this place, or nothing. -/
theorem array_written (ws : List Write) :
    (∀ p, (written ws).isSolid p = if p.Inside then (lastWritten ws p).getD false else false) ∧
    (∀ p q solid, p ≠ q → ((written ws).set p solid).isSolid q = (written ws).isSolid q) ∧
    (written ws).solidCount = {p : Point | p.Inside ∧ lastWritten ws p = some true}.ncard ∧
    ∀ x y z : Int32, ∃ i : Option (Fin 4096),
      Voxel.place x y z = .ok (i.map fun j : Fin 4096 => .ofInt j.val) ∧
      ∀ g : Grid, g.isSolid (.ofWords x y z) = i.elim false (g.cells[·]) ∧
        ∀ solid, (g.set (.ofWords x y z) solid).cells = i.elim g.cells (g.cells.set · solid) := by
  refine ⟨isSolid_written ws, fun p q solid h => ?_, ?_, fun x y z => ?_⟩
  · rw [isSolid_set, if_neg fun hpq => h hpq.1]
  · rw [solidCount_eq_ncard]
    congr 1
    ext p
    rw [Set.mem_ofPred_eq, Set.mem_ofPred_eq, isSolid_written]
    by_cases hin : p.Inside
    · cases lastWritten ws p <;> simp [hin]
    · simp [hin]
  · refine ⟨(Voxel.ofPoint? (.ofWords x y z)).map Voxel.index, ?_, fun g => ⟨?_, fun solid => ?_⟩⟩
    · rw [Voxel.place_eq, Option.map_map]
      rfl
    · unfold isSolid
      cases Voxel.ofPoint? (.ofWords x y z) <;> rfl
    · unfold set
      cases Voxel.ofPoint? (.ofWords x y z) <;> rfl

/-- Writes to two corners of a grid and just outside of it. -/
def cornerWrites : List Write :=
  [(⟨0, 0, 0⟩, false), (⟨15, 15, 15⟩, true), (⟨16, 0, 0⟩, true), (⟨-1, 0, 0⟩, true),
    (⟨0, 0, 0⟩, true)]

/-- The write outside of the grid is lost, and of two writes to a corner the second counts. -/
theorem array_written_corners :
    (written cornerWrites).isSolid ⟨0, 0, 0⟩ = true ∧
    (written cornerWrites).isSolid ⟨16, 0, 0⟩ = false ∧
    ((written cornerWrites).set ⟨0, 0, 0⟩ false).isSolid ⟨15, 15, 15⟩ = true ∧
    (written cornerWrites).solidCount = 2 := by
  obtain ⟨hread, hset, hcount, -⟩ := array_written cornerWrites
  have hcorners : {p : Point | p.Inside ∧ lastWritten cornerWrites p = some true} =
      {⟨0, 0, 0⟩, ⟨15, 15, 15⟩} := by
    ext p
    constructor
    · rintro ⟨hin, hlast⟩
      obtain ⟨before, after, heq, -⟩ := List.lookup_eq_some_iff.1 hlast
      have hmem : (p, true) ∈ cornerWrites.reverse := by simp [heq]
      simp only [cornerWrites, List.mem_reverse, List.mem_cons, Prod.mk.injEq, List.not_mem_nil,
        or_false, and_true, Bool.true_eq_false, and_false, false_or] at hmem
      rcases hmem with rfl | rfl | rfl | rfl
      · exact .inr rfl
      · exact absurd hin (by decide)
      · exact absurd hin (by decide)
      · exact .inl rfl
    · rintro (rfl | rfl) <;> decide
  refine ⟨?_, ?_, ?_, ?_⟩
  · rw [hread]
    decide
  · rw [hread]
    decide
  · rw [hset _ _ _ (by decide), hread]
    decide
  · rw [hcount, hcorners, Set.ncard_pair (by decide)]

end Grid
end VoxelStream
