import Mathlib
import VoxelStream.Octree.Tree
import VoxelStream.Voxel.Surface

/-!
# Cells as sets of positions

A cell covers the integer positions of the half-open cube that its origin and its level name
(`Node.Covers`). A cell fits if that cube lies in the words (`Node.Fits`), and a cell that fits has
all its octants (`Node.Fits.children`): they fit as well, lie in the cell (`Node.HasChild.covers`),
are apart from each other (`Node.Fits.apart_children`) and leave out no position of it
(`Node.Fits.exists_child_covers`). The root of every tree fits (`Tree.fits_root`).
-/

namespace VoxelStream

/-- The exact value of a coordinate on an axis. -/
def Coord.along (c : Coord) : Axis → Int
  | .x => c.x.toInt
  | .y => c.y.toInt
  | .z => c.z.toInt

/-- Whether an octant is in the upper half of its cube on an axis. -/
def Octant.upper (o : Octant) : Axis → Bool
  | .x => o.x
  | .y => o.y
  | .z => o.z

/-- The octant in the upper half of its cube on just the axes that `upper` names. -/
def Octant.ofUpper (upper : Axis → Bool) : Octant := ⟨upper .x, upper .y, upper .z⟩

@[simp] theorem Octant.upper_ofUpper (upper : Axis → Bool) (a : Axis) :
    (ofUpper upper).upper a = upper a := by
  cases a <;> rfl

/-- There are no other octants than those listed. -/
theorem Octant.mem_all (o : Octant) : o ∈ all := by
  have hall : ∀ x y z, (⟨x, y, z⟩ : Octant) ∈ all := by decide
  exact hall o.x o.y o.z

/-- The sum on every axis, if it is a coordinate. -/
theorem Coord.add_eq_ok_iff_along {a b c : Coord} :
    a.add b = .ok c ↔ ∀ d, c.along d = a.along d + b.along d := by
  rw [Coord.add_eq_ok_iff]
  constructor
  · rintro ⟨hx, hy, hz⟩ d
    cases d with
    | x => exact hx
    | y => exact hy
    | z => exact hz
  · exact fun h => ⟨h .x, h .y, h .z⟩

/-- Coordinates that agree on every axis are equal. -/
theorem Coord.ext_along {a b : Coord} (h : ∀ d, a.along d = b.along d) : a = b := by
  cases a
  cases b
  rw [Coord.mk.injEq]
  exact ⟨Int32.toInt_inj.1 (h .x), Int32.toInt_inj.1 (h .y), Int32.toInt_inj.1 (h .z)⟩

/-- Coordinates are added if the sum is a word on every axis. -/
theorem Coord.exists_add_eq_ok {a b : Coord} (h : ∀ d, Word.InRange (a.along d + b.along d)) :
    ∃ c, a.add b = .ok c := by
  refine ⟨⟨Int32.ofInt (a.along .x + b.along .x), Int32.ofInt (a.along .y + b.along .y),
    Int32.ofInt (a.along .z + b.along .z)⟩, Coord.add_eq_ok_iff.2 ⟨?_, ?_, ?_⟩⟩
  · exact Int32.toInt_ofInt_of_le (h .x).1 (h .x).2
  · exact Int32.toInt_ofInt_of_le (h .y).1 (h .y).2
  · exact Int32.toInt_ofInt_of_le (h .z).1 (h .z).2

/-- A coordinate is a word on every axis. -/
theorem Coord.inRange_along (c : Coord) (d : Axis) : Word.InRange (c.along d) := by
  cases d with
  | x => exact Word.inRange_toInt c.x
  | y => exact Word.inRange_toInt c.y
  | z => exact Word.inRange_toInt c.z

namespace Node

/-- A position lies in the half-open cube of `2 ^ level` positions an edge from the origin. -/
def Covers (n : Node) (p : Axis → Int) : Prop :=
  ∀ a, n.origin.along a ≤ p a ∧ p a < n.origin.along a + 2 ^ n.level.toNat

/-- No position lies in both cells. -/
def Apart (m n : Node) : Prop := ∀ p, m.Covers p → ¬ n.Covers p

/-- The edge length is a positive word, and no position of the cell is past the greatest word. -/
structure Fits (n : Node) : Prop where
  level_le : n.level.toNat ≤ 30
  upper_le : ∀ a, n.origin.along a + 2 ^ n.level.toNat ≤ 0x80000000

/-- `c` is one of the octants of `n`. -/
def HasChild (n c : Node) : Prop := ∃ cs, n.children = .ok cs ∧ c ∈ cs

/-- A cell has its origin in it. -/
theorem covers_origin (n : Node) : n.Covers n.origin.along := fun a =>
  ⟨le_rfl, lt_add_of_pos_right _ (pow_pos (by decide) _)⟩

/-- It does not matter which of two cells is apart from the other. -/
theorem Apart.symm {m n : Node} (h : m.Apart n) : n.Apart m := fun p hn hm => h p hm hn

/-- Parts of two cells that are apart are apart. -/
theorem Apart.mono {m n m' n' : Node} (h : m.Apart n) (hm : ∀ p, m'.Covers p → m.Covers p)
    (hn : ∀ p, n'.Covers p → n.Covers p) : m'.Apart n' := fun p h' h'' => h p (hm p h') (hn p h'')

/-! ## Words of a cell that fits -/

/-- The edge word of a level below 31 is the power of two. -/
theorem toInt_edge {n : Node} (h : n.level.toNat ≤ 30) : n.edge.toInt = 2 ^ n.level.toNat := by
  have hall : ∀ l : Fin 31, (1 <<< (UInt32.ofNat l).toInt32 : Int32).toInt = 2 ^ l.val := by
    decide
  have := hall ⟨n.level.toNat, by omega⟩
  rwa [UInt32.ofNat_toNat] at this

/-- Half the edge of a cell that is not a leaf. -/
theorem toInt_edge_div_two {n : Node} {k : Nat} (h : n.level.toNat ≤ 30)
    (hk : k + 1 = n.level.toNat) : (n.edge / 2).toInt = 2 ^ k := by
  rw [Int32.toInt_div_of_ne_right _ _ (by decide), toInt_edge h, ← hk, pow_succ]
  exact Int.mul_tdiv_cancel _ (by decide)

/-- Half the edge of a cell that has octants is the edge of each of them, but for the sign: the edge
word of the greatest level that has a size is the least word. -/
theorem toInt_edge_div_two_cases {n : Node} {k : Nat} (h : n.level < 32)
    (hk : k + 1 = n.level.toNat) :
    (n.edge / 2).toInt = 2 ^ k ∨ (n.edge / 2).toInt = -2 ^ k := by
  have hlt : n.level.toNat < 32 := UInt32.lt_iff_toNat_lt.1 h
  by_cases hle : n.level.toNat ≤ 30
  · exact .inl (toInt_edge_div_two hle hk)
  · have hlevel : n.level = 31 := UInt32.toNat_inj.1 (show n.level.toNat = 31 by omega)
    have hk30 : k = 30 := by omega
    rw [edge, hlevel, hk30]
    exact .inr (by decide)

/-- Where an octant starts on an axis. -/
theorem along_offset (o : Octant) (half : Int32) (a : Axis) :
    (o.offset half).along a = if o.upper a then half.toInt else 0 := by
  cases a with
  | x => cases hx : o.x <;> simp [Octant.offset, Coord.along, Octant.upper, hx]
  | y => cases hy : o.y <;> simp [Octant.offset, Coord.along, Octant.upper, hy]
  | z => cases hz : o.z <;> simp [Octant.offset, Coord.along, Octant.upper, hz]

/-- The level of a cell that is not a leaf is a successor. -/
theorem exists_level_succ {n : Node} (hn : n.isLeaf = false) : ∃ k, k + 1 = n.level.toNat := by
  have hz : n.level ≠ 0 := by simpa [isLeaf] using hn
  have hp : n.level.toNat ≠ 0 := fun e => hz (UInt32.toNat_inj.1 (by simpa using e))
  exact ⟨n.level.toNat - 1, by omega⟩

/-! ## Octants of a cell that fits -/

/-- On each axis an octant starts where its cell does, or half an edge further. -/
theorem along_child {n c : Node} {half : Int32} {o : Octant} (h : n.child half o = .ok c)
    (a : Axis) : c.origin.along a = n.origin.along a + if o.upper a then half.toInt else 0 := by
  unfold child at h
  cases ho : n.origin.add (o.offset half) with
  | error e => simp [ho, bind, Except.bind] at h
  | ok p =>
    simp only [ho, bind, Except.bind, pure, Except.pure] at h
    injection h with h
    rw [← h, Coord.add_eq_ok_iff_along.1 ho a, along_offset]

/-- An octant is one level below its node. -/
theorem toNat_level_child {n c : Node} {half : Int32} {o : Octant} {k : Nat}
    (hk : k + 1 = n.level.toNat) (h : n.child half o = .ok c) : c.level.toNat = k := by
  have h1 : (1 : UInt32) ≤ n.level := UInt32.le_iff_toNat_le.2 (by simp; omega)
  rw [level_of_child h, UInt32.toNat_sub_of_le _ _ h1, ← hk]
  rfl

/-- What an octant is: one level down, and on each axis in the lower or the upper half. -/
theorem child_spec {n c : Node} {k : Nat} {o : Octant} (h : n.level.toNat ≤ 30)
    (hk : k + 1 = n.level.toNat) (hc : n.child (n.edge / 2) o = .ok c) :
    c.level.toNat = k ∧
      ∀ a, c.origin.along a = n.origin.along a + if o.upper a then 2 ^ k else 0 := by
  refine ⟨toNat_level_child hk hc, fun a => ?_⟩
  rw [along_child hc, toInt_edge_div_two h hk]

/-- The position along each axis of a cell that fits leaves room for half an edge. -/
theorem Fits.inRange_half {n : Node} {k : Nat} (h : n.Fits) (hk : k + 1 = n.level.toNat)
    (o : Octant) (a : Axis) :
    Word.InRange (n.origin.along a + if o.upper a then 2 ^ k else 0) := by
  have hlow := n.origin.inRange_along a
  have hup := h.upper_le a
  have hpos : (0 : Int) < 2 ^ k := pow_pos (by decide) _
  rw [← hk, pow_succ] at hup
  unfold Word.InRange at hlow ⊢
  split <;> omega

/-- A cell that fits and is not a leaf has every octant. -/
theorem Fits.exists_child {n : Node} (h : n.Fits) (hn : n.isLeaf = false) (o : Octant) :
    ∃ c, n.child (n.edge / 2) o = .ok c := by
  obtain ⟨k, hk⟩ := exists_level_succ hn
  have hsum : ∀ a, Word.InRange (n.origin.along a + (o.offset (n.edge / 2)).along a) := by
    intro a
    rw [along_offset, toInt_edge_div_two h.level_le hk]
    exact h.inRange_half hk o a
  obtain ⟨p, hp⟩ := Coord.exists_add_eq_ok hsum
  exact ⟨⟨p, n.level - 1⟩, by rw [child, hp]; rfl⟩

/-- A cell that fits is below level thirty-two. -/
theorem Fits.level_lt {n : Node} (h : n.Fits) : n.level < 32 := by
  have := h.level_le
  exact UInt32.lt_iff_toNat_lt.2 (by simp; omega)

/-- A cell that fits has a size. -/
theorem Fits.size {n : Node} (h : n.Fits) : n.size = .ok n.edge := by
  rw [Node.size, if_pos h.level_lt]

/-- A cell that fits has children: none, or its eight octants. -/
theorem Fits.children {n : Node} (h : n.Fits) : ∃ cs, n.children = .ok cs := by
  cases hn : n.isLeaf with
  | true => exact ⟨[], children_leaf hn⟩
  | false =>
    have hex : ∀ l : List Octant, ∃ cs : List Node,
        l.map (n.child (n.edge / 2)) = cs.map Except.ok := by
      intro l
      induction l with
      | nil => exact ⟨[], rfl⟩
      | cons o l ih =>
        obtain ⟨cs, hcs⟩ := ih
        obtain ⟨c, hc⟩ := h.exists_child hn o
        exact ⟨c :: cs, by rw [List.map_cons, List.map_cons, hc, hcs]⟩
    obtain ⟨cs, hcs⟩ := hex Octant.all
    exact ⟨cs, (children_eq_ok_iff hn).2 ⟨h.level_lt, hcs⟩⟩

/-- A cell that is not a leaf has as many children as there are octants. -/
theorem length_children_eq {n : Node} {cs : List Node} (hn : n.isLeaf = false)
    (hcs : n.children = .ok cs) : cs.length = 8 := by
  have hlen := congrArg List.length ((children_eq_ok_iff hn).1 hcs).2
  rw [List.length_map, List.length_map] at hlen
  exact hlen.symm

/-- A child is an octant of its parent. -/
theorem HasChild.exists_octant {n c : Node} (h : n.HasChild c) :
    n.isLeaf = false ∧ ∃ o, n.child (n.edge / 2) o = .ok c := by
  obtain ⟨cs, hcs, hc⟩ := h
  cases hn : n.isLeaf with
  | true =>
    rw [children_leaf hn] at hcs
    injection hcs with hcs
    rw [← hcs] at hc
    cases hc
  | false =>
    have hmem : (Except.ok c : Checked Node) ∈ cs.map Except.ok := List.mem_map_of_mem hc
    rw [← ((children_eq_ok_iff hn).1 hcs).2] at hmem
    obtain ⟨o, -, ho⟩ := List.mem_map.1 hmem
    exact ⟨rfl, o, ho⟩

/-- What has a child has a size. -/
theorem HasChild.level_lt {n c : Node} (h : n.HasChild c) : n.level < 32 := by
  have hn := h.exists_octant.1
  obtain ⟨cs, hcs, -⟩ := h
  exact ((children_eq_ok_iff hn).1 hcs).1

/-- An octant of a cell that fits is a child of it. -/
theorem Fits.hasChild {n c : Node} {o : Octant} (h : n.Fits) (hn : n.isLeaf = false)
    (hc : n.child (n.edge / 2) o = .ok c) : n.HasChild c := by
  obtain ⟨cs, hcs⟩ := h.children
  have hmem : (Except.ok c : Checked Node) ∈ Octant.all.map (n.child (n.edge / 2)) :=
    List.mem_map.2 ⟨o, o.mem_all, hc⟩
  rw [((children_eq_ok_iff hn).1 hcs).2] at hmem
  obtain ⟨d, hd, he⟩ := List.mem_map.1 hmem
  injection he with he
  exact ⟨cs, hcs, he ▸ hd⟩

/-- Every position of a cell that fits and is not a leaf is in one of its octants: on each axis the
upper half if the position is past the middle. -/
theorem Fits.exists_child_covers {n : Node} {p : Axis → Int} (h : n.Fits) (hn : n.isLeaf = false)
    (hp : n.Covers p) : ∃ c, n.HasChild c ∧ c.Covers p := by
  obtain ⟨k, hk⟩ := exists_level_succ hn
  obtain ⟨c, hc⟩ :=
    h.exists_child hn (.ofUpper fun a => decide (n.origin.along a + 2 ^ k ≤ p a))
  obtain ⟨hl, hco⟩ := child_spec h.level_le hk hc
  refine ⟨c, h.hasChild hn hc, fun a => ?_⟩
  have hpa := hp a
  rw [← hk, pow_succ] at hpa
  rw [hl, hco a, Octant.upper_ofUpper]
  by_cases hup : n.origin.along a + 2 ^ k ≤ p a
  · rw [if_pos (decide_eq_true hup)]
    omega
  · rw [if_neg (by rwa [decide_eq_true_iff])]
    omega

/-- Octants are one level below. -/
theorem HasChild.level {n c : Node} (h : n.HasChild c) : c.level.toNat + 1 = n.level.toNat := by
  obtain ⟨cs, hcs, hc⟩ := h
  exact mem_children hcs hc

/-- The edge of a child is a positive word. -/
theorem HasChild.level_le {n c : Node} (h : n.HasChild c) : c.level.toNat ≤ 30 := by
  have hlevel := h.level
  have hlt : n.level.toNat < 32 := UInt32.lt_iff_toNat_lt.1 h.level_lt
  omega

/-- A child lies in its parent if the edge of the parent is a positive word. -/
theorem HasChild.covers_of_level_le {n c : Node} (h : n.HasChild c) (hn : n.level.toNat ≤ 30)
    {p : Axis → Int} (hp : c.Covers p) : n.Covers p := by
  obtain ⟨-, o, ho⟩ := h.exists_octant
  obtain ⟨hl, hc⟩ := child_spec hn h.level ho
  intro a
  have hpa := hp a
  have hpos : (0 : Int) < 2 ^ c.level.toNat := pow_pos (by decide) _
  rw [← h.level, pow_succ]
  rw [hc a] at hpa
  split at hpa <;> omega

/-- A child lies in its parent. -/
theorem HasChild.covers {n c : Node} (h : n.HasChild c) (hn : n.Fits) {p : Axis → Int}
    (hp : c.Covers p) : n.Covers p := h.covers_of_level_le hn.level_le hp

/-- A child of a cell that fits fits. -/
theorem HasChild.fits {n c : Node} (h : n.HasChild c) (hn : n.Fits) : c.Fits := by
  have hlevel := h.level
  have hle := hn.level_le
  refine ⟨by omega, fun a => ?_⟩
  obtain ⟨-, o, ho⟩ := h.exists_octant
  have hc := (child_spec hn.level_le h.level ho).2 a
  have hup := hn.upper_le a
  have hpos : (0 : Int) < 2 ^ c.level.toNat := pow_pos (by decide) _
  rw [← hlevel, pow_succ] at hup
  rw [hc]
  split <;> omega

/-- Two octants of a cell are apart: on some axis they are half an edge from each other, which is the
edge of both. -/
theorem apart_of_child {n c d : Node} {o q : Octant} {k : Nat} (h : n.level < 32)
    (hk : k + 1 = n.level.toNat) (hoq : o ≠ q) (hc : n.child (n.edge / 2) o = .ok c)
    (hd : n.child (n.edge / 2) q = .ok d) : c.Apart d := by
  have haxis : ∃ a, o.upper a ≠ q.upper a := by
    by_contra hall
    push Not at hall
    refine hoq ?_
    cases o
    cases q
    rw [Octant.mk.injEq]
    exact ⟨hall .x, hall .y, hall .z⟩
  obtain ⟨a, ha⟩ := haxis
  have hhalf := toInt_edge_div_two_cases h hk
  intro p hpc hpd
  have h1 := hpc a
  have h2 := hpd a
  rw [toNat_level_child hk hc, along_child hc a] at h1
  rw [toNat_level_child hk hd, along_child hd a] at h2
  generalize (n.edge / 2).toInt = half at hhalf h1 h2
  cases ho : o.upper a <;> cases hq : q.upper a <;> simp only [ho, hq] at h1 h2 ha <;> simp at h1 h2
  · exact ha rfl
  · omega
  · omega
  · exact ha rfl

/-- The children of a cell that fits are apart from each other. -/
theorem Fits.apart_children {n : Node} {cs : List Node} (h : n.Fits) (hcs : n.children = .ok cs) :
    cs.Pairwise Apart := by
  cases hn : n.isLeaf with
  | true =>
    rw [children_leaf hn] at hcs
    injection hcs with hcs
    rw [← hcs]
    exact .nil
  | false =>
    obtain ⟨k, hk⟩ := exists_level_succ hn
    have hdistinct : Octant.all.Pairwise (· ≠ ·) := by decide
    have happart : (Octant.all.map (n.child (n.edge / 2))).Pairwise
        fun r s => ∀ c d, r = .ok c → s = .ok d → c.Apart d :=
      List.pairwise_map.2 (hdistinct.imp fun hoq c d hc hd =>
        apart_of_child h.level_lt hk hoq hc hd)
    rw [((children_eq_ok_iff hn).1 hcs).2] at happart
    exact (List.pairwise_map.1 happart).imp fun hcd => hcd _ _ rfl rfl

end Node

/-! ## The root of a tree -/

namespace Tree

/-- No tree is a single leaf. -/
theorem one_le_toNat_rootLevel (t : Tree) : 1 ≤ t.rootLevel.toNat :=
  UInt32.le_iff_toNat_le.1 t.rootLevel_pos

/-- No tree is higher than twenty-four levels. -/
theorem toNat_rootLevel_le (t : Tree) : t.rootLevel.toNat ≤ 24 :=
  UInt32.le_iff_toNat_le.1 t.rootLevel_le

/-- The root starts half its edge below the origin of the world, on every axis. -/
theorem along_root (t : Tree) (a : Axis) :
    t.root.origin.along a = -2 ^ (t.rootLevel.toNat - 1) := by
  have hall : ∀ l : Fin 25, l.val ≠ 0 →
      (-(1 <<< (UInt32.ofNat l.val - 1).toInt32) : Int32).toInt = -2 ^ (l.val - 1) := by decide
  have h1 := t.one_le_toNat_rootLevel
  have h24 := t.toNat_rootLevel_le
  have := hall ⟨t.rootLevel.toNat, by omega⟩ (by simp; omega)
  rw [UInt32.ofNat_toNat] at this
  cases a with
  | x => exact this
  | y => exact this
  | z => exact this

/-- The root covers as many positions on either side of the origin of the world. -/
theorem root_covers_iff {t : Tree} {p : Axis → Int} : t.root.Covers p ↔
    ∀ a, -2 ^ (t.rootLevel.toNat - 1) ≤ p a ∧ p a < 2 ^ (t.rootLevel.toNat - 1) := by
  have hsucc : t.rootLevel.toNat = t.rootLevel.toNat - 1 + 1 := by
    have := t.one_le_toNat_rootLevel
    omega
  have hedge : (2 : Int) ^ t.root.level.toNat = 2 ^ (t.rootLevel.toNat - 1) * 2 := by
    rw [← pow_succ, ← hsucc]
    rfl
  refine forall_congr' fun a => ?_
  rw [along_root, hedge]
  constructor
  · rintro ⟨hlow, hup⟩
    exact ⟨hlow, by omega⟩
  · rintro ⟨hlow, hup⟩
    exact ⟨hlow, by omega⟩

/-- The root of a tree fits. -/
theorem fits_root (t : Tree) : t.root.Fits := by
  have h1 := t.one_le_toNat_rootLevel
  have h24 : t.root.level.toNat ≤ 24 := t.toNat_rootLevel_le
  refine ⟨by omega, fun a => ?_⟩
  have hpow : (2 : Int) ^ t.root.level.toNat ≤ 2 ^ 24 := pow_le_pow_right₀ (by decide) h24
  have hpos : (0 : Int) < 2 ^ (t.rootLevel.toNat - 1) := pow_pos (by decide) _
  rw [along_root]
  omega

end Tree
end VoxelStream
