import Mathlib
import VoxelStream.Proofs.Octree.Cut

/-!
# Spheres around cells

The tests of a query are made of a few operations on numbers (`Arithmetic.sight`). In single
precision they are the tests of a query as it runs (`Arithmetic.sight_float32`); over the real
numbers they are what these stand for, and there the sphere around a cell has no slack: the sphere
around an octant touches it from inside. So the spheres of all cells reached from a cell lie in its
own (`Node.Reaches.dist_add_radius_le`), and so does the cell with its sides
(`Node.Reaches.dist_le_radius`).

It follows that both tests on spheres are handed up, from any cell to the cells that it was reached
from, for every plane with a unit normal, every viewer and every range (`Node.sphere_conserves`). No
search that makes the tests over the real numbers loses a leaf in view.
-/

namespace VoxelStream

instance : Fintype Axis := ⟨{.x, .y, .z}, fun a => by cases a <;> decide⟩

/-- A sum over the axes has three terms. -/
theorem Axis.sum_univ {M : Type} [AddCommMonoid M] (f : Axis → M) :
    ∑ a, f a = f .x + f .y + f .z := by
  show ∑ a ∈ {Axis.x, Axis.y, Axis.z}, f a = _
  rw [Finset.sum_insert (by decide), Finset.sum_insert (by decide), Finset.sum_singleton, add_assoc]

/-- The component of a vector along an axis. -/
def Vec3.along (v : Vec3) : Axis → Float32
  | .x => v.x
  | .y => v.y
  | .z => v.z

/-- The word of a coordinate on an axis. -/
def Coord.word (c : Coord) : Axis → Int32
  | .x => c.x
  | .y => c.y
  | .z => c.z

/-- The words of a coordinate stand for its place along each axis. -/
theorem Coord.toInt_word (c : Coord) (a : Axis) : (c.word a).toInt = c.along a := by
  cases a <;> rfl

/-! ## The tests of a query in any numbers -/

/-- The operations on numbers that the tests of a query are made of. -/
structure Arithmetic (α : Type) where
  ofWord : Int32 → α
  half : α
  three : α
  add : α → α → α
  sub : α → α → α
  mul : α → α → α
  neg : α → α
  sqrt : α → α
  le : α → α → Bool
  lt : α → α → Bool

namespace Arithmetic

variable {α : Type} (A : Arithmetic α)

def dot (p q : Axis → α) : α :=
  A.add (A.add (A.mul (p .x) (q .x)) (A.mul (p .y) (q .y))) (A.mul (p .z) (q .z))

def distance (p q : Axis → α) : α :=
  A.sqrt (A.dot (fun a => A.sub (p a) (q a)) fun a => A.sub (p a) (q a))

/-- The midpoint of a cell. -/
def center (n : Node) (a : Axis) : α :=
  A.add (A.ofWord (n.origin.word a)) (A.mul (A.ofWord n.edge) A.half)

/-- The radius of the sphere through the corners of a cell. -/
def radius (n : Node) : α := A.mul (A.mul (A.ofWord n.edge) (A.sqrt A.three)) A.half

/-- The signed distance of a point from a plane, given by its normal and its offset. -/
def height (plane : (Axis → α) × α) (p : Axis → α) : α := A.add (A.dot plane.1 p) plane.2

/-- The tests of a query by a viewer who sees what is on the inner side of some planes. -/
def sight (viewer : Axis → α) (planes : List ((Axis → α) × α)) (maxRadius : α)
    (lodFactor : Option α) : Sight where
  meets n := planes.all fun plane => A.le (A.neg (A.radius n)) (A.height plane (A.center n))
  beyond n := A.lt maxRadius (A.sub (A.distance (A.center n) viewer) (A.radius n))
  inRange n := A.le (A.distance (A.center n) viewer) maxRadius
  distant n :=
    match lodFactor with
    | none => false
    | some factor => A.le (A.mul factor (A.ofWord n.edge)) (A.distance (A.center n) viewer)

/-- Single precision. -/
def float32 : Arithmetic Float32 where
  ofWord := Word.toFloat32
  half := 0.5
  three := 3
  add := (· + ·)
  sub := (· - ·)
  mul := (· * ·)
  neg := (- ·)
  sqrt := Float32.sqrt
  le a b := a ≤ b
  lt a b := a < b

/-- The real numbers. -/
noncomputable def real : Arithmetic ℝ where
  ofWord w := w.toInt
  half := 1 / 2
  three := 3
  add := (· + ·)
  sub := (· - ·)
  mul := (· * ·)
  neg := (- ·)
  sqrt := Real.sqrt
  le a b := a ≤ b
  lt a b := a < b

/-- The tests of a query are these, made in single precision. -/
theorem sight_float32 (viewer : Vec3) (frustum : Frustum) (q : NodeQuery) :
    float32.sight viewer.along (frustum.planes.map fun plane => (plane.normal.along, plane.offset))
      q.maxRadius q.lodFactor = Sight.ofView viewer frustum q := by
  unfold sight Sight.ofView
  rw [Sight.mk.injEq]
  refine ⟨funext fun n => ?_, rfl, rfl, funext fun n => ?_⟩
  · rw [List.all_map]
    rfl
  · cases q.lodFactor with
    | none => rfl
    | some factor => rfl

end Arithmetic

/-! ## Balls in space -/

/-- The space that cells are in. -/
abbrev Space : Type := EuclideanSpace ℝ Axis

namespace Space

/-- The distance of the space is the one computed with exact numbers. -/
theorem dist_eq (p q : Space) : dist p q = Arithmetic.real.distance p q := by
  rw [EuclideanSpace.dist_eq, Axis.sum_univ]
  simp only [Real.dist_eq, sq, abs_mul_abs_self]
  rfl

/-- The inner product of the space is the one computed with exact numbers. -/
theorem inner_eq (p q : Space) : inner ℝ p q = Arithmetic.real.dot p q := by
  rw [PiLp.inner_apply, Axis.sum_univ]
  simp only [RCLike.inner_apply, conj_trivial, mul_comm]
  rfl

/-- Points that differ by at most `s` on each axis are at most the diagonal of a cube of that edge
apart. -/
theorem dist_le_sqrt_three_mul {p q : Space} {s : ℝ} (hs : 0 ≤ s) (h : ∀ a, |p a - q a| ≤ s) :
    dist p q ≤ √3 * s := by
  have hsq : ∀ a, dist (p a) (q a) ^ 2 ≤ s ^ 2 := fun a => by
    rw [Real.dist_eq, sq_abs]
    exact sq_le_sq' (neg_le_of_abs_le (h a)) (le_of_abs_le (h a))
  calc dist p q = √(∑ a, dist (p a) (q a) ^ 2) := EuclideanSpace.dist_eq p q
    _ ≤ √(3 * s ^ 2) := by
      refine Real.sqrt_le_sqrt ?_
      rw [Axis.sum_univ]
      linarith [hsq .x, hsq .y, hsq .z]
    _ = √3 * s := by rw [Real.sqrt_mul (by norm_num), Real.sqrt_sq hs]

end Space

namespace Node

variable {n c : Node}

/-- The midpoint of a cell, exactly. -/
noncomputable def exactCenter (n : Node) : Space := WithLp.toLp 2 (Arithmetic.real.center n)

/-- The radius of the sphere through the corners of a cell, exactly. -/
noncomputable def exactRadius (n : Node) : ℝ := Arithmetic.real.radius n

/-- The points of the cell and of its sides. -/
def solid (n : Node) : Set Space :=
  {p | ∀ a, (n.origin.along a : ℝ) ≤ p a ∧ p a ≤ n.origin.along a + 2 ^ n.level.toNat}

/-- `c` is an octant of `n`, whether the others have a place or not. -/
def HasOctant (n c : Node) : Prop := n.isLeaf = false ∧ ∃ o, n.child (n.edge / 2) o = .ok c

/-- `c` is `n` or an octant of an octant of it, to any depth. -/
def Reaches (n c : Node) : Prop := Relation.ReflTransGen HasOctant n c

/-- A node reaches what it holds. -/
theorem Holds.reaches (h : n.Holds c) : n.Reaches c :=
  Relation.ReflTransGen.mono (fun _ _ => HasChild.exists_octant) _ _ h

/-- The center is half an edge away from the origin, along each axis. -/
theorem exactCenter_apply (h : n.level.toNat ≤ 30) (a : Axis) :
    n.exactCenter a = n.origin.along a + 2 ^ n.level.toNat / 2 := by
  show ((n.origin.word a).toInt : ℝ) + (n.edge.toInt : ℝ) * (1 / 2) = _
  rw [Coord.toInt_word, toInt_edge h]
  push_cast
  ring

/-- The exact radius is the half diagonal of the cell. -/
theorem exactRadius_eq (h : n.level.toNat ≤ 30) :
    n.exactRadius = √3 * (2 ^ n.level.toNat / 2) := by
  show (n.edge.toInt : ℝ) * √3 * (1 / 2) = _
  rw [toInt_edge h]
  push_cast
  ring

/-- No sphere has a negative radius. -/
theorem exactRadius_nonneg (h : n.level.toNat ≤ 30) : 0 ≤ n.exactRadius := by
  rw [exactRadius_eq h]
  positivity

/-- The sphere around a cell contains the cell with its sides. -/
theorem dist_exactCenter_le (h : n.level.toNat ≤ 30) {p : Space} (hp : p ∈ n.solid) :
    dist p n.exactCenter ≤ n.exactRadius := by
  rw [exactRadius_eq h]
  refine Space.dist_le_sqrt_three_mul (by positivity) fun a => ?_
  rw [exactCenter_apply h, abs_le]
  have hpa := hp a
  constructor
  · linarith
  · linarith

/-- An octant is one level below its node. -/
theorem HasOctant.level_succ (h : n.HasOctant c) : c.level.toNat + 1 = n.level.toNat := by
  obtain ⟨hn, o, hc⟩ := h
  obtain ⟨k, hk⟩ := exists_level_succ hn
  rw [toNat_level_child hk hc, hk]

/-- The sphere around an octant touches that of its cell from inside: on every axis their centres
are a quarter of the edge apart. -/
theorem HasOctant.dist_add_radius_le (h : n.HasOctant c) (hn : n.level.toNat ≤ 30) :
    dist c.exactCenter n.exactCenter + c.exactRadius ≤ n.exactRadius := by
  have hlevel := h.level_succ
  obtain ⟨-, o, ho⟩ := h
  have horigin := (child_spec hn hlevel ho).2
  have hpow : (2 : ℝ) ^ n.level.toNat = 2 * 2 ^ c.level.toNat := by rw [← hlevel, pow_succ']
  have hdist : dist c.exactCenter n.exactCenter ≤ √3 * (2 ^ c.level.toNat / 2) := by
    refine Space.dist_le_sqrt_three_mul (by positivity) fun a => ?_
    rw [exactCenter_apply hn, exactCenter_apply (by omega), horigin a, hpow]
    have hpos : (0 : ℝ) < 2 ^ c.level.toNat := by positivity
    cases o.upper a with
    | false =>
      rw [if_neg (by decide), abs_le]
      push_cast
      constructor
      · linarith
      · linarith
    | true =>
      rw [if_pos rfl, abs_le]
      push_cast
      constructor
      · linarith
      · linarith
  rw [exactRadius_eq hn, exactRadius_eq (by omega), hpow]
  linarith

namespace Reaches

/-- What a node reaches is at its level or below. -/
theorem level_le (h : n.Reaches c) : c.level.toNat ≤ n.level.toNat := by
  induction h with
  | refl => exact le_rfl
  | tail _ hc ih =>
    have := hc.level_succ
    omega

/-- The spheres of all cells reached from a cell lie in its own. -/
theorem dist_add_radius_le (h : n.Reaches c) (hn : n.level.toNat ≤ 30) :
    dist c.exactCenter n.exactCenter + c.exactRadius ≤ n.exactRadius := by
  induction h with
  | refl => rw [dist_self, zero_add]
  | @tail b c hb hc ih =>
    have hstep := hc.dist_add_radius_le ((level_le hb).trans hn)
    have htriangle := dist_triangle c.exactCenter b.exactCenter n.exactCenter
    linarith

/-- The sphere around a cell contains all cells reached from it with their sides. -/
theorem dist_le_radius (h : n.Reaches c) (hn : n.level.toNat ≤ 30) {p : Space} (hp : p ∈ c.solid) :
    dist p n.exactCenter ≤ n.exactRadius := by
  have hcell := dist_exactCenter_le (h.level_le.trans hn) hp
  have hball := h.dist_add_radius_le hn
  have htriangle := dist_triangle p c.exactCenter n.exactCenter
  linarith

/-- A half space that meets the sphere of a cell meets those of the cells that it was reached
from. -/
theorem neg_radius_le (h : n.Reaches c) (hn : n.level.toNat ≤ 30) {v : Space} {d : ℝ} (hv : ‖v‖ = 1)
    (hc : -c.exactRadius ≤ inner ℝ v c.exactCenter + d) :
    -n.exactRadius ≤ inner ℝ v n.exactCenter + d := by
  have hball := h.dist_add_radius_le hn
  have hslope : inner ℝ v (c.exactCenter - n.exactCenter) ≤ dist c.exactCenter n.exactCenter := by
    have := real_inner_le_norm v (c.exactCenter - n.exactCenter)
    rwa [hv, one_mul, ← dist_eq_norm] at this
  rw [inner_sub_right] at hslope
  linarith

/-- A cell whose sphere reaches into the range is in cells of which this holds as well. -/
theorem dist_sub_radius_le (h : n.Reaches c) (hn : n.level.toNat ≤ 30) {viewer : Space}
    {maxRadius : ℝ} (hc : dist c.exactCenter viewer - c.exactRadius ≤ maxRadius) :
    dist n.exactCenter viewer - n.exactRadius ≤ maxRadius := by
  have hball := h.dist_add_radius_le hn
  have htriangle := dist_triangle_left n.exactCenter viewer c.exactCenter
  linarith

end Reaches
end Node

/-! ## Searches over the real numbers -/

namespace Sight

/-- The tests of a query over the real numbers. -/
noncomputable def ofSpace (viewer : Space) (planes : List (Space × ℝ)) (maxRadius : ℝ)
    (lodFactor : Option ℝ) : Sight :=
  Arithmetic.real.sight viewer (planes.map fun plane => (plane.1.ofLp, plane.2)) maxRadius lodFactor

variable {viewer : Space} {planes : List (Space × ℝ)} {maxRadius : ℝ} {lodFactor : Option ℝ}
  {n c leaf : Node}

/-- A node meets the planes just if none of them has its sphere wholly on the outer side. -/
theorem meets_ofSpace_iff : (ofSpace viewer planes maxRadius lodFactor).meets n = true ↔
    ∀ plane ∈ planes, -n.exactRadius ≤ inner ℝ plane.1 n.exactCenter + plane.2 := by
  show (planes.map _).all _ = true ↔ _
  rw [List.all_map, List.all_eq_true]
  refine forall₂_congr fun plane _ => ?_
  rw [Space.inner_eq, Function.comp_apply]
  exact decide_eq_true_iff

/-- A node is beyond the radius just if its whole sphere is. -/
theorem beyond_ofSpace_iff : (ofSpace viewer planes maxRadius lodFactor).beyond n = true ↔
    maxRadius < dist n.exactCenter viewer - n.exactRadius := by
  rw [Space.dist_eq]
  exact decide_eq_true_iff

/-- A node is in range just if its center is. -/
theorem inRange_ofSpace_iff : (ofSpace viewer planes maxRadius lodFactor).inRange n = true ↔
    dist n.exactCenter viewer ≤ maxRadius := by
  rw [Space.dist_eq]
  exact decide_eq_true_iff

/-- A cell meets the view volume if one that was reached from it does. -/
theorem meets_of_reaches (h : n.Reaches c) (hn : n.level.toNat ≤ 30)
    (hplanes : ∀ plane ∈ planes, ‖plane.1‖ = 1)
    (hc : (ofSpace viewer planes maxRadius lodFactor).meets c = true) :
    (ofSpace viewer planes maxRadius lodFactor).meets n = true :=
  meets_ofSpace_iff.2 fun plane hplane =>
    h.neg_radius_le hn (hplanes plane hplane) (meets_ofSpace_iff.1 hc plane hplane)

/-- A cell meets the view volume if there is a point in view in a cell that was reached from it. -/
theorem meets_of_mem_solid (h : n.Reaches c) (hn : n.level.toNat ≤ 30)
    (hplanes : ∀ plane ∈ planes, ‖plane.1‖ = 1) {p : Space} (hp : p ∈ c.solid)
    (hview : ∀ plane ∈ planes, 0 ≤ inner ℝ plane.1 p + plane.2) :
    (ofSpace viewer planes maxRadius lodFactor).meets n = true := by
  refine meets_ofSpace_iff.2 fun plane hplane => ?_
  have hslope := real_inner_le_norm plane.1 (p - n.exactCenter)
  rw [hplanes plane hplane, one_mul, ← dist_eq_norm, inner_sub_right] at hslope
  have hdist := h.dist_le_radius hn hp
  have := hview plane hplane
  linarith

/-- No cell that a leaf in range was reached from is beyond the range. -/
theorem beyond_eq_false_of_reaches (h : n.Reaches leaf) (hn : n.level.toNat ≤ 30)
    (hleaf : (ofSpace viewer planes maxRadius lodFactor).inRange leaf = true) :
    (ofSpace viewer planes maxRadius lodFactor).beyond n = false := by
  rw [← Bool.not_eq_true, beyond_ofSpace_iff, not_lt]
  have hradius := Node.exactRadius_nonneg (h.level_le.trans hn)
  have hrange := inRange_ofSpace_iff.1 hleaf
  exact h.dist_sub_radius_le hn (by linarith)

/-- Of the cells that hold a leaf, a search keeps no more than one: above a cell that it comes to it
has split all. -/
theorem Comes.eq_of_holds {s : Sight} {r m m' : Node} (hr : r.Fits) (hm : s.Comes r m)
    (hkeep : s.verdict m = .keep) (hm' : s.Comes r m') (hkeep' : s.verdict m' = .keep)
    (hleaf : m.Holds leaf) (hleaf' : m'.Holds leaf) : m' = m := by
  rcases hm.1.apart_or_holds hm'.1 with h | h | h
  · exact absurd (hleaf'.covers (hm'.1.fits hr) leaf.covers_origin)
      (h _ (hleaf.covers (hm.1.fits hr) leaf.covers_origin))
  · rcases h.eq_or_above with he | h
    · exact he.symm
    · rw [hm'.2 m hm.1 h] at hkeep
      cases hkeep
  · rcases h.eq_or_above with he | h
    · exact he
    · rw [hm.2 m' hm'.1 h] at hkeep'
      cases hkeep'

/-- A search over the real numbers keeps exactly one cell of those that hold a leaf in view and in
range. -/
theorem existsUnique_mem_search {t : Tree} {found : NodeSet}
    (hplanes : ∀ plane ∈ planes, ‖plane.1‖ = 1)
    (hfound : (ofSpace viewer planes maxRadius lodFactor).search t.root = .ok found)
    (hroot : t.root.Holds leaf) (hleaf : leaf.isLeaf = true)
    (hmeets : (ofSpace viewer planes maxRadius lodFactor).meets leaf = true)
    (hrange : (ofSpace viewer planes maxRadius lodFactor).inRange leaf = true) :
    ∃! m, m ∈ found ∧ m.Holds leaf := by
  obtain ⟨seen, hseen, hset⟩ := Checked.bind_eq_ok_iff.1 hfound
  cases hset
  simp only [mem_ofList_kept t.fits_root hseen]
  have hpasses : ∀ a, t.root.Holds a → a.Holds leaf →
      (ofSpace viewer planes maxRadius lodFactor).passes a = true := by
    intro a ha hal
    have hlevel := (ha.fits t.fits_root).level_le
    rw [passes, meets_of_reaches hal.reaches hlevel hplanes hmeets,
      beyond_eq_false_of_reaches hal.reaches hlevel hrange]
    rfl
  obtain ⟨m, hm, hcomes, hkeep⟩ := (comes_start _ t.root).exists_keep t.fits_root hroot hpasses
    (by rw [accepts, hleaf, hrange]; rfl)
  refine ⟨m, ⟨⟨hcomes, hkeep⟩, hm⟩, ?_⟩
  rintro m' ⟨⟨hcomes', hkeep'⟩, hm'⟩
  exact hcomes.eq_of_holds t.fits_root hkeep hcomes' hkeep' hm hm'

/-- The search with exact numbers ends on every tree. -/
theorem exists_search (s : Sight) (t : Tree) : ∃ found, s.search t.root = .ok found := by
  have hfits : ∀ n ∈ [t.root], n.Fits := fun n hn => List.mem_singleton.1 hn ▸ t.fits_root
  obtain ⟨seen, hseen⟩ := s.exists_explore [] hfits
  exact ⟨_, Checked.bind_eq_ok_iff.2 ⟨seen, hseen, rfl⟩⟩

end Sight

/-- The sphere of a cell, read in exact numbers, is that through its corners, and it is conservative
for all that was reached from the cell. It contains every cell reached with its sides, and every
sphere around one. So it meets a half space, and reaches into a range, if one of these spheres does;
it meets a view volume in which a point of one of these cells lies; and a search that makes the
tests of a query in exact numbers keeps exactly one cell of those that hold a leaf in view and in
range. These tests are those of every query but for the numbers. -/
theorem Node.sphere_conserves {n c : Node} (hn : n.level.toNat ≤ 30) (h : n.Reaches c) :
    (∀ a, n.exactCenter a = n.origin.along a + 2 ^ n.level.toNat / 2) ∧
    (0 ≤ n.exactRadius ∧ n.exactRadius ^ 2 = 3 * (2 ^ n.level.toNat) ^ 2 / 4) ∧
    (∀ p ∈ c.solid, dist p n.exactCenter ≤ n.exactRadius) ∧
    Metric.closedBall c.exactCenter c.exactRadius ⊆
      Metric.closedBall n.exactCenter n.exactRadius ∧
    (∀ (v : Space) (d : ℝ), ‖v‖ = 1 → inner ℝ v c.exactCenter + d ≥ -c.exactRadius →
      inner ℝ v n.exactCenter + d ≥ -n.exactRadius) ∧
    (∀ (viewer : Space) (maxRadius : ℝ), dist c.exactCenter viewer - c.exactRadius ≤ maxRadius →
      dist n.exactCenter viewer - n.exactRadius ≤ maxRadius) ∧
    (∀ (viewer : Space) (planes : List (Space × ℝ)) (maxRadius : ℝ) (lodFactor : Option ℝ),
      (∀ plane ∈ planes, ‖plane.1‖ = 1) →
      let s := Sight.ofSpace viewer planes maxRadius lodFactor
      (∀ p ∈ c.solid, (∀ plane ∈ planes, 0 ≤ inner ℝ plane.1 p + plane.2) → s.meets n = true) ∧
      ∀ t : Tree, ∃ found, s.search t.root = .ok found ∧
        ∀ leaf, t.root.Holds leaf → leaf.isLeaf = true → s.meets leaf = true →
          s.inRange leaf = true → ∃! m, m ∈ found ∧ m.Holds leaf) ∧
    ∀ (viewer : Vec3) (frustum : Frustum) (q : NodeQuery), Sight.ofView viewer frustum q =
      Arithmetic.float32.sight viewer.along
        (frustum.planes.map fun plane => (plane.normal.along, plane.offset)) q.maxRadius
        q.lodFactor := by
  refine ⟨exactCenter_apply hn, ⟨exactRadius_nonneg hn, ?radius⟩, fun p => h.dist_le_radius hn,
    ?ball, fun v d hv => h.neg_radius_le hn hv, fun viewer maxRadius => h.dist_sub_radius_le hn,
    fun viewer planes maxRadius lodFactor hplanes => ⟨fun p hp hview => ?view, fun t => ?search⟩,
    fun viewer frustum q => (Arithmetic.sight_float32 viewer frustum q).symm⟩
  case radius =>
    rw [exactRadius_eq hn, mul_pow, Real.sq_sqrt (by norm_num)]
    ring
  case ball =>
    refine Metric.closedBall_subset_closedBall' ?_
    rw [add_comm]
    exact h.dist_add_radius_le hn
  case view => exact Sight.meets_of_mem_solid h hn hplanes hp hview
  case search =>
    obtain ⟨found, hfound⟩ := Sight.exists_search _ t
    exact ⟨found, hfound, fun leaf hroot hleaf hmeets hrange =>
      Sight.existsUnique_mem_search hplanes hfound hroot hleaf hmeets hrange⟩

/-- A half space that a leaf at the corner of a tree only touches still meets the sphere of the
root, and the points of that leaf are within the radius of the middle of the world. -/
theorem Node.sphere_conserves_corner :
    let n : Node := ⟨.splat (-4), 3⟩
    let c : Node := .leaf (.splat (-4))
    n.level.toNat ≤ 30 ∧ n.Reaches c ∧ (∀ a, n.exactCenter a = 0) ∧ n.exactRadius ^ 2 = 48 ∧
      (∀ p ∈ c.solid, dist p n.exactCenter ≤ n.exactRadius) ∧
      ∀ viewer maxRadius, (Sight.ofSpace viewer [(EuclideanSpace.single .x (-1), -4)] maxRadius
        none).meets n = true := by
  intro n c
  have hn : n.level.toNat ≤ 30 := by decide
  have houter : n.HasOctant ⟨.splat (-4), 2⟩ := ⟨rfl, ⟨false, false, false⟩, by decide⟩
  have hinner : Node.HasOctant ⟨.splat (-4), 2⟩ ⟨.splat (-4), 1⟩ :=
    ⟨rfl, ⟨false, false, false⟩, by decide⟩
  have hleaf : Node.HasOctant ⟨.splat (-4), 1⟩ c := ⟨rfl, ⟨false, false, false⟩, by decide⟩
  have hreaches : n.Reaches c := .tail (.tail (.single houter) hinner) hleaf
  obtain ⟨hcenter, ⟨-, hradius⟩, hsolid, -, -, -, htests, -⟩ := sphere_conserves hn hreaches
  have horigin : ∀ a, n.origin.along a = -4 := fun a => by cases a <;> rfl
  have hcorner : (WithLp.toLp 2 fun _ => (-4 : ℝ) : Space) ∈ c.solid := by
    intro a
    have : c.origin.along a = -4 := horigin a
    rw [this]
    norm_num
  have hlevel : n.level.toNat = 3 := rfl
  refine ⟨hn, hreaches, fun a => ?_, ?_, hsolid, fun viewer maxRadius => ?_⟩
  · rw [hcenter, horigin, hlevel]
    norm_num
  · rw [hradius, hlevel]
    norm_num
  · refine (htests viewer _ maxRadius none ?_).1 _ hcorner ?_
    · simp
    · simp [EuclideanSpace.inner_single_left]

end VoxelStream
