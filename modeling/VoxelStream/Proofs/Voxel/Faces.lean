import VoxelStream.Proofs.Geometry.Mesh
import VoxelStream.Voxel.Surface

/-!
# The exposed faces of a grid

All faces of all voxels come in one order (`Face.pairwise_all`), and the faces of a grid are those
among them that are of solid voxels and not covered (`Grid.mem_faces`). The quad of a face has the
four corners of the face and its normal. As floats these are still told apart (`Point.bits_inj`), so
a face is known by the vertices that are drawn for it (`Face.Drawn.unique`). With the slots of a
mesh of quads this makes face culling exact (`Grid.geometry_culled`).
-/

namespace VoxelStream

/-! ## Points along the axes -/

/-- The component of a point along an axis. -/
def Point.along (p : Point) : Axis → Int
  | .x => p.x
  | .y => p.y
  | .z => p.z

/-- Points that agree along each axis are equal. -/
theorem Point.ext_along {p q : Point} (h : ∀ a, p.along a = q.along a) : p = q := by
  cases p
  cases q
  exact Point.mk.injEq .. ▸ ⟨h .x, h .y, h .z⟩

@[simp] theorem Point.along_step (p : Point) (a b : Axis) (d : Int) :
    (p.step a d).along b = if a = b then p.along b + d else p.along b := by
  cases a <;> cases b <;> simp [Point.step, Point.along]

@[simp] theorem Point.along_zero (a : Axis) : Point.zero.along a = 0 := by
  cases a <;> rfl

/-- What holds of every axis holds of the three. -/
theorem Axis.forall_iff {P : Axis → Prop} : (∀ a, P a) ↔ P .x ∧ P .y ∧ P .z :=
  ⟨fun h => ⟨h .x, h .y, h .z⟩, fun ⟨hx, hy, hz⟩ a => by cases a <;> assumption⟩

/-- The number of an axis. -/
def Axis.index : Axis → Nat
  | .x => 0
  | .y => 1
  | .z => 2

/-! ## All faces in order -/

namespace Voxel

/-- The place of a voxel in the order by z, then y, then x. -/
def key (v : Voxel) : List Nat := [v.z, v.y, v.x]

/-- A voxel is told by its point. -/
theorem toPoint_inj {v w : Voxel} (h : v.toPoint = w.toPoint) : v = w :=
  Option.some.inj ((ofPoint?_eq_some_iff.2 rfl).symm.trans (ofPoint?_eq_some_iff.2 h.symm))

/-- The point of a voxel lies in the chunk. -/
theorem along_toPoint (v : Voxel) (a : Axis) :
    0 ≤ v.toPoint.along a ∧ v.toPoint.along a < 16 := by
  cases a with
  | x | y | z => exact ⟨Int.natCast_nonneg _, Int.ofNat_lt.2 (Fin.isLt _)⟩

/-- The list has every voxel. -/
theorem mem_all (v : Voxel) : v ∈ all := by
  simp [all]

/-- There are sixteen cubed voxels. -/
theorem length_all : all.length = 4096 := by
  have hrow (y z : Fin 16) : ((List.finRange 16).map fun x => (⟨x, y, z⟩ : Voxel)).length = 16 := by
    simp
  have hlayer (z : Fin 16) : ((List.finRange 16).flatMap fun y =>
      (List.finRange 16).map fun x => (⟨x, y, z⟩ : Voxel)).length = 16 * 16 := by
    rw [length_flatMap_slots (hrow · z), List.length_finRange]
  rw [all, length_flatMap_slots hlayer, List.length_finRange]

/-- The list of voxels is in the order of their keys. -/
theorem pairwise_all : all.Pairwise fun v w => v.key < w.key := by
  have hrange := List.pairwise_lt_finRange 16
  unfold all
  rw [List.pairwise_flatMap]
  refine ⟨fun z _ => ?_, hrange.imp fun {z z'} hz v hv w hw => ?_⟩
  · rw [List.pairwise_flatMap]
    refine ⟨fun y _ => ?_, hrange.imp fun {y y'} hy v hv w hw => ?_⟩
    · exact hrange.map _ fun x x' hx => by simp [key, List.cons_lt_cons_iff, Fin.lt_def.1 hx]
    · obtain ⟨x, -, rfl⟩ := List.mem_map.1 hv
      obtain ⟨x', -, rfl⟩ := List.mem_map.1 hw
      simp [key, List.cons_lt_cons_iff, Fin.lt_def.1 hy]
  · obtain ⟨y, -, hv⟩ := List.mem_flatMap.1 hv
    obtain ⟨x, -, rfl⟩ := List.mem_map.1 hv
    obtain ⟨y', -, hw⟩ := List.mem_flatMap.1 hw
    obtain ⟨x', -, rfl⟩ := List.mem_map.1 hw
    simp [key, List.cons_lt_cons_iff, Fin.lt_def.1 hz]

/-- The list has no voxel twice. -/
theorem nodup_all : all.Nodup := by
  refine pairwise_all.imp fun {v w} h he => ?_
  rw [he] at h
  exact List.lt_irrefl _ h

end Voxel

namespace Face

/-- The place of a face in the order by voxel, then axis, then direction. -/
def key (f : Face) : List Nat :=
  [f.voxel.z, f.voxel.y, f.voxel.x, f.axis.index, f.positive.toNat]

/-- All faces of all voxels. -/
def all : List Face := Voxel.all.flatMap around

/-- The faces around a voxel are those of the voxel. -/
theorem mem_around {f : Face} {v : Voxel} : f ∈ around v ↔ f.voxel = v := by
  obtain ⟨w, axis, positive⟩ := f
  cases axis <;> cases positive <;> simp [around, Axis.all]

/-- A voxel has six faces. -/
theorem length_around (v : Voxel) : (around v).length = 6 := rfl

/-- The list has every face. -/
theorem mem_all (f : Face) : f ∈ all :=
  List.mem_flatMap.2 ⟨f.voxel, Voxel.mem_all _, mem_around.2 rfl⟩

/-- Faces of an earlier voxel have an earlier key. -/
theorem key_lt_of_voxel {f f' : Face} (h : f.voxel.key < f'.voxel.key) : f.key < f'.key := by
  simp only [Voxel.key, key, List.cons_lt_cons_iff] at h ⊢
  simp at h ⊢
  omega

/-- The list of faces is in the order of their keys. -/
theorem pairwise_all : all.Pairwise fun f f' => f.key < f'.key := by
  unfold all
  rw [List.pairwise_flatMap]
  refine ⟨fun v _ => ?_, Voxel.pairwise_all.imp fun {v w} h f hf f' hf' => ?_⟩
  · simp [around, Axis.all, key, Axis.index, List.cons_lt_cons_iff]
  · obtain rfl := mem_around.1 hf
    obtain rfl := mem_around.1 hf'
    exact key_lt_of_voxel h

/-- There are six faces for each voxel. -/
theorem length_all : all.length = 6 * 4096 := by
  rw [all, length_flatMap_slots length_around, Voxel.length_all]

/-- The list has no face twice. -/
theorem nodup_all : all.Nodup :=
  pairwise_all.imp fun {f f'} h he => by
    rw [he] at h
    exact absurd h (List.lt_irrefl _)

end Face

/-! ## Exposed faces -/

namespace Grid

variable {g : Grid} {f : Face}

/-- The faces of solid voxels, exposed or covered. -/
def solidFaces (g : Grid) : List Face := Face.all.filter fun f => g.get f.voxel

/-- The faces of solid voxels, voxel by voxel. -/
theorem solidFaces_eq_flatMap (g : Grid) :
    g.solidFaces = Voxel.all.flatMap fun v => if g.get v then Face.around v else [] := by
  rw [solidFaces, Face.all, List.filter_flatMap]
  congr 1
  funext v
  have hvoxel : ∀ f ∈ Face.around v, g.get f.voxel = g.get v := fun f hf => by
    rw [Face.mem_around.1 hf]
  split
  · next hv => exact List.filter_eq_self.2 fun f hf => by rw [hvoxel f hf, hv]
  · next hv => exact List.filter_eq_nil_iff.2 fun f hf => by rwa [hvoxel f hf]

/-- The faces of solid voxels are the faces whose voxel is solid. -/
theorem mem_solidFaces : f ∈ g.solidFaces ↔ g.isSolid f.voxel.toPoint := by
  rw [solidFaces, List.mem_filter, isSolid_toPoint]
  exact and_iff_right (Face.mem_all f)

/-- No face of a solid voxel is listed twice. -/
theorem nodup_solidFaces (g : Grid) : g.solidFaces.Nodup := Face.nodup_all.filter _

/-- The exposed faces are those that no solid voxel covers. -/
theorem faces_eq_filter (g : Grid) :
    g.faces = g.solidFaces.filter fun f => !g.isSolid f.neighbour := by
  rw [solidFaces_eq_flatMap, List.filter_flatMap, faces]
  congr 1
  funext v
  split <;> rfl

/-- The faces of a grid are those between a solid voxel and a neighbour that is not. -/
theorem mem_faces : f ∈ g.faces ↔ g.isSolid f.voxel.toPoint ∧ ¬ g.isSolid f.neighbour := by
  rw [faces_eq_filter, List.mem_filter, mem_solidFaces]
  simp

/-- The faces of a grid are in the order of their keys. -/
theorem pairwise_faces (g : Grid) : g.faces.Pairwise fun f f' => f.key < f'.key := by
  rw [faces_eq_filter]
  exact (Face.pairwise_all.filter _).filter _

/-- No face of a grid is listed twice. -/
theorem nodup_faces (g : Grid) : g.faces.Nodup := by
  rw [faces_eq_filter]
  exact g.nodup_solidFaces.filter _

/-- A word can count the vertices of a surface. -/
theorem length_faces_le (g : Grid) : 4 * (g.faces.map Face.quad).length ≤ UInt32.size := by
  have hsub : g.faces.Sublist Face.all := by
    rw [faces_eq_filter]
    exact List.filter_sublist.trans List.filter_sublist
  have hle := hsub.length_le
  rw [Face.length_all] at hle
  rw [List.length_map, UInt32.size]
  omega

/-- A solid voxel at which a walk along the first axis is still `n` steps from the border has an
exposed face somewhere ahead. -/
theorem exists_mem_faces_of_get {n : Nat} {v : Voxel} (hn : 16 ≤ v.x.val + n)
    (hv : g.get v = true) : ∃ f, f ∈ g.faces := by
  induction n generalizing v with
  | zero => exact absurd v.x.isLt (by omega)
  | succ n ih =>
    cases hnext : g.isSolid (Face.neighbour ⟨v, .x, true⟩) with
    | false => exact ⟨⟨v, .x, true⟩, mem_faces.2 ⟨by rw [isSolid_toPoint, hv], by simp [hnext]⟩⟩
    | true =>
      unfold isSolid at hnext
      split at hnext
      · next w hw =>
        have hpoint := Voxel.ofPoint?_eq_some_iff.1 hw
        refine ih (v := w) ?_ hnext
        simp [Voxel.toPoint, Face.neighbour, Face.outward, Point.step] at hpoint
        omega
      · cases hnext

/-- Only a grid without solid voxels has no faces. -/
theorem faces_eq_nil_iff : g.faces = [] ↔ ∀ p, ¬ g.isSolid p := by
  constructor
  · intro hnil p hp
    unfold isSolid at hp
    split at hp
    · next v _ =>
      obtain ⟨f, hf⟩ := exists_mem_faces_of_get (n := 16) (Nat.le_add_left _ _) hp
      rw [hnil] at hf
      cases hf
    · cases hp
  · intro hnone
    exact List.eq_nil_iff_forall_not_mem.2 fun f hf => hnone _ (mem_faces.1 hf).1

end Grid

/-! ## The quad of a face -/

namespace Face

/-- The point is one of the four corners of the face: along its axis it lies on the face's side of
the voxel, and along the others at either end. -/
def HasCorner (f : Face) (p : Point) : Prop := ∀ a, if a = f.axis then
    p.along a = f.voxel.toPoint.along a + f.positive.toInt
  else p.along a = f.voxel.toPoint.along a ∨ p.along a = f.voxel.toPoint.along a + 1

/-- The unit vector out of the voxel through the face. -/
def HasNormal (f : Face) (n : Point) : Prop := ∀ a, n.along a = if a = f.axis then f.outward else 0

/-- The normal that a face is drawn with is its own. -/
theorem hasNormal_normal (f : Face) : f.HasNormal f.normal := by
  intro a
  simp [normal, eq_comm]

/-- The corners that a face is drawn with are its own. -/
theorem mem_corners (f : Face) {p : Point} :
    p ∈ f.quad.toList.map Corner.position ↔ f.HasCorner p := by
  obtain ⟨v, axis, positive⟩ := f
  obtain ⟨x, y, z⟩ := p
  rw [HasCorner, Axis.forall_iff]
  cases axis <;> cases positive <;>
    simp [quad, Quad.map, Quad.toList, tangents, Axis.next, base, Point.step, Voxel.toPoint,
      Point.along] <;> omega

/-- A face is drawn with four different corners. -/
theorem nodup_corners (f : Face) : (f.quad.toList.map Corner.position).Nodup := by
  obtain ⟨v, axis, positive⟩ := f
  have hne (i : Int) : i ≠ i + 1 ∧ i + 1 ≠ i := by omega
  cases axis <;> cases positive <;>
    simp [quad, Quad.map, Quad.toList, tangents, Axis.next, base, Point.step, Voxel.toPoint, hne]

/-- Along its axis a face lies on one of the two sides of its voxel. -/
theorem along_base (f : Face) (a : Axis) : f.base.along a =
    if a = f.axis then f.voxel.toPoint.along a + f.positive.toInt
    else f.voxel.toPoint.along a := by
  obtain ⟨v, axis, positive⟩ := f
  cases positive <;> simp [base, eq_comm]

/-- The base of a face is a corner of it. -/
theorem hasCorner_base (f : Face) : f.HasCorner f.base := by
  intro a
  rw [along_base]
  split
  · rfl
  · exact .inl rfl

/-- Faces with the same normal have the same axis and the same direction. -/
theorem HasNormal.axis_eq {f f' : Face} {n : Point} (h : f.HasNormal n) (h' : f'.HasNormal n) :
    f.axis = f'.axis ∧ f.positive = f'.positive := by
  have haxis := h f.axis
  have haxis' := h' f.axis
  rw [if_pos rfl] at haxis
  rw [haxis] at haxis'
  unfold outward at haxis'
  by_cases he : f.axis = f'.axis
  · refine ⟨he, ?_⟩
    cases hp : f.positive <;> cases hp' : f'.positive <;> simp [hp, hp', he] at haxis' ⊢
  · cases hp : f.positive <;> simp [hp, he] at haxis'

/-- A face is known by its normal and its corners. -/
theorem eq_of_hasCorner_iff {f f' : Face} {n : Point} (h : f.HasNormal n) (h' : f'.HasNormal n)
    (hcorner : ∀ p, f.HasCorner p ↔ f'.HasCorner p) : f = f' := by
  obtain ⟨haxis, hpositive⟩ := h.axis_eq h'
  -- The least corner of either face is a corner of the other.
  have hbase := (hcorner _).1 f.hasCorner_base
  have hbase' := (hcorner _).2 f'.hasCorner_base
  have halong : ∀ a, f.voxel.toPoint.along a = f'.voxel.toPoint.along a := by
    intro a
    have ha := hbase a
    have ha' := hbase' a
    rw [along_base] at ha ha'
    rw [haxis, hpositive] at ha ha'
    split at ha
    · simpa using ha
    · next hne =>
      simp only [if_neg hne] at ha ha'
      omega
  have hvoxel := Voxel.toPoint_inj (Point.ext_along halong)
  cases f
  cases f'
  exact Face.mk.injEq .. ▸ ⟨hvoxel, haxis, hpositive⟩

end Face

/-! ## Points as floats -/

namespace Point

/-- The components of the point are small: a corner of a chunk or a unit vector. -/
def Small (p : Point) : Prop := ∀ a, -1 ≤ p.along a ∧ p.along a ≤ 16

/-- Small integers are different as floats. -/
theorem ofInt_toBits_inj {i j : Int} (hi : -1 ≤ i ∧ i ≤ 16) (hj : -1 ≤ j ∧ j ≤ 16)
    (h : (Float32.ofInt i).toBits = (Float32.ofInt j).toBits) : i = j := by
  have hall : ∀ m n : Fin 18, (Float32.ofInt (m - 1)).toBits = (Float32.ofInt (n - 1)).toBits →
      m = n := by
    decide +kernel
  have hfin : ∀ {i : Int}, -1 ≤ i ∧ i ≤ 16 → ∃ m : Fin 18, i = m - 1 := fun {i} hi =>
    ⟨⟨(i + 1).toNat, by omega⟩, by simp; omega⟩
  obtain ⟨m, rfl⟩ := hfin hi
  obtain ⟨n, rfl⟩ := hfin hj
  rw [hall m n h]

/-- Small points are told by the bits of their vectors. -/
theorem bits_inj {p q : Point} (hp : p.Small) (hq : q.Small) (h : p.toVec3.bits = q.toVec3.bits) :
    p = q := by
  obtain ⟨hx, hy, hz⟩ := Vec3.Bits.mk.inj h
  exact Point.ext_along (Axis.forall_iff.2 ⟨ofInt_toBits_inj (hp .x) (hq .x) hx,
    ofInt_toBits_inj (hp .y) (hq .y) hy, ofInt_toBits_inj (hp .z) (hq .z) hz⟩)

end Point

namespace Face

/-- The corners of faces lie in the chunk, its far sides included. -/
theorem HasCorner.inChunk {f : Face} {p : Point} (h : f.HasCorner p) (a : Axis) :
    0 ≤ p.along a ∧ p.along a ≤ 16 := by
  have hvoxel := f.voxel.along_toPoint a
  have ha := h a
  split at ha
  · cases hp : f.positive <;> simp [hp] at ha <;> omega
  · omega

/-- The corners of faces are small points. -/
theorem HasCorner.small {f : Face} {p : Point} (h : f.HasCorner p) : p.Small := by
  intro a
  have := h.inChunk a
  omega

/-- The normals of faces are small points. -/
theorem HasNormal.small {f : Face} {n : Point} (h : f.HasNormal n) : n.Small := by
  intro a
  rw [h a, outward]
  split
  · split <;> decide
  · decide

/-- The four vertices are the corners of the face, each with its normal. -/
structure Drawn (f : Face) (q : Quad Vertex) : Prop where
  mem_iff : ∀ b, b ∈ q.toList.map Vertex.position ↔ ∃ p, f.HasCorner p ∧ b = p.toVec3.bits
  nodup : (q.toList.map Vertex.position).Nodup
  normal_eq : ∀ v ∈ q.toList, ∃ n, f.HasNormal n ∧ v.normal = n.toVec3.bits

/-- The quad of a face draws it. -/
theorem drawn_quad (f : Face) : f.Drawn (f.quad.map Corner.toVertex) := by
  have hpositions : (f.quad.map Corner.toVertex).toList.map Vertex.position =
      (f.quad.toList.map Corner.position).map fun p => p.toVec3.bits := by
    rw [Quad.toList_map, List.map_map, List.map_map]
    rfl
  refine ⟨fun b => ?_, ?_, fun v hv => ⟨f.normal, f.hasNormal_normal, ?_⟩⟩
  · rw [hpositions, List.mem_map]
    simp only [mem_corners, eq_comm]
  · rw [hpositions]
    refine List.Nodup.map_on (fun p hp q hq => ?_) f.nodup_corners
    exact Point.bits_inj ((f.mem_corners.1 hp).small) ((f.mem_corners.1 hq).small)
  · rw [Quad.toList_map] at hv
    obtain ⟨c, hc, rfl⟩ := List.mem_map.1 hv
    have hnormal : c.normal = f.normal := by
      simp [quad, Quad.map, Quad.toList] at hc
      rcases hc with rfl | rfl | rfl | rfl <;> rfl
    rw [← hnormal]
    rfl

/-- The corners of a face are where its vertices are. -/
theorem Drawn.hasCorner_iff {f : Face} {q : Quad Vertex} (h : f.Drawn q) {p : Point}
    (hp : p.Small) : f.HasCorner p ↔ p.toVec3.bits ∈ q.toList.map Vertex.position := by
  rw [h.mem_iff]
  constructor
  · exact fun hcorner => ⟨p, hcorner, rfl⟩
  · rintro ⟨p', hcorner, hbits⟩
    exact Point.bits_inj hp hcorner.small hbits ▸ hcorner

/-- Two faces with the same four vertices are one. -/
theorem Drawn.unique {f f' : Face} {q q' : Quad Vertex} (h : f.Drawn q) (h' : f'.Drawn q')
    (hsame : ∀ v, v ∈ q.toList ↔ v ∈ q'.toList) : f = f' := by
  have hmem : q.a ∈ q.toList := List.mem_cons_self
  obtain ⟨n, hn, hbits⟩ := h.normal_eq q.a hmem
  obtain ⟨n', hn', hbits'⟩ := h'.normal_eq q.a ((hsame _).1 hmem)
  obtain rfl := Point.bits_inj hn.small hn'.small (hbits.symm.trans hbits')
  have hpositions : ∀ b, b ∈ q.toList.map Vertex.position ↔ b ∈ q'.toList.map Vertex.position := by
    intro b
    simp only [List.mem_map, hsame]
  refine eq_of_hasCorner_iff hn hn' fun p => ⟨fun hp => ?_, fun hp => ?_⟩
  · exact (h'.hasCorner_iff hp.small).2 ((hpositions _).1 ((h.hasCorner_iff hp.small).1 hp))
  · exact (h.hasCorner_iff hp.small).2 ((hpositions _).2 ((h'.hasCorner_iff hp.small).1 hp))

end Face

/-! ## The geometry of a grid -/

/-- The geometry has one quad for each of the faces, in their order, and the faces are those of
solid voxels that have no solid voxel on the other side, by z, y, x, axis and direction. -/
structure Grid.Culled (g : Grid) (faces : List Face) (m : Geometry) : Prop where
  mem_iff : ∀ f, f ∈ faces ↔ g.isSolid f.voxel.toPoint ∧ ¬ g.isSolid f.neighbour
  ordered : faces.Pairwise fun f f' => f.key < f'.key
  drawn : ∀ {k : Nat} {f : Face}, faces[k]? = some f → ∃ q, m.HasQuad k q ∧ f.Drawn q
  vertices_size : m.vertices.size = 4 * faces.length
  indices_size : m.indices.size = 6 * faces.length
  triangleCount_eq : m.triangleCount = 2 * faces.length
  index_lt : ∀ i ∈ m.indices, i.toNat < m.vertices.size
  /-- No two quads have the same vertices. -/
  unique : ∀ {k l : Nat} {q q' : Quad Vertex}, k < faces.length → l < faces.length →
    m.HasQuad k q → m.HasQuad l q' → (∀ v, v ∈ q.toList ↔ v ∈ q'.toList) → k = l
  isEmpty_iff : m.isEmpty ↔ ∀ p, ¬ g.isSolid p

namespace Grid

/-- The geometry of a grid has four vertices for each face. -/
theorem size_vertices_geometry (g : Grid) : g.geometry.vertices.size = 4 * g.faces.length := by
  simp [geometry, surface, Mesh.map, Mesh.size_vertices_ofQuads]

/-- The geometry of a grid has six indices for each face. -/
theorem size_indices_geometry (g : Grid) : g.geometry.indices.size = 6 * g.faces.length := by
  simp [geometry, surface, Mesh.map, Mesh.size_indices_ofQuads]

/-- The geometry of a grid has two triangles for each face. -/
theorem triangleCount_geometry (g : Grid) : g.geometry.triangleCount = 2 * g.faces.length := by
  rw [Mesh.triangleCount, size_indices_geometry]
  omega

/-- The quads of the geometry are those of the faces, in their order. -/
theorem hasQuad_geometry {g : Grid} {k : Nat} {f : Face} (hk : g.faces[k]? = some f) :
    g.geometry.HasQuad k (f.quad.map Corner.toVertex) := by
  have hquad : (g.faces.map Face.quad)[k]? = some f.quad := by rw [List.getElem?_map, hk]; rfl
  exact (Mesh.hasQuad_ofQuads g.length_faces_le hquad).map _

/-- Face culling is exact. -/
theorem geometry_culled (g : Grid) : g.Culled g.faces g.geometry := by
  refine ⟨fun f => mem_faces, g.pairwise_faces, fun {k f} hk => ?_, g.size_vertices_geometry,
    g.size_indices_geometry, g.triangleCount_geometry, fun i hi => ?_,
    fun {k l q q'} hk hl hq hq' hsame => ?_, ?_⟩
  · exact ⟨_, hasQuad_geometry hk, f.drawn_quad⟩
  · have hlt := Mesh.toNat_lt_of_mem_indices g.length_faces_le hi
    rwa [Mesh.size_vertices_ofQuads, List.length_map, ← size_vertices_geometry] at hlt
  · obtain rfl := hq.unique (hasQuad_geometry (List.getElem?_eq_getElem hk))
    obtain rfl := hq'.unique (hasQuad_geometry (List.getElem?_eq_getElem hl))
    have hface := (Face.drawn_quad _).unique (Face.drawn_quad _) hsame
    exact g.nodup_faces.getElem_inj_iff.1 hface
  · rw [← faces_eq_nil_iff, Mesh.isEmpty, Array.isEmpty_iff_size_eq_zero, size_indices_geometry,
      ← List.length_eq_zero_iff]
    omega

end Grid
end VoxelStream
