import Mathlib.Algebra.BigOperators.Group.List.Basic
import Mathlib.Algebra.Group.Int.Defs
import Mathlib.Data.List.FinRange
import Mathlib.Tactic.Ring
import VoxelStream.Proofs.Voxel.Border

/-!
# The volume inside a surface

With the origin the triangles of a face span a pyramid, and its signed volume tells only how far the
face is from the origin along its axis (`Face.sum_pyramid_triangles`). The six pyramids of a voxel
add up to the voxel, wherever it is (`Face.sum_pyramid_around`). A covered face and the face that
lies on it have opposite pyramids, so all covered faces of a grid together enclose nothing
(`Grid.sum_pyramid_coveredFaces`), and what the exposed faces enclose is the solid voxels
(`Grid.sum_pyramid_faces`).

A geometry has floats. Its vertices are read as corners (`Vertex.corner`), and those of the geometry
of a grid lose nothing by it, so its triangles are those of the exposed faces
(`Grid.map_corner_triangles_geometry`).
-/

namespace VoxelStream

/-! ## Products of points -/

namespace Point

def sub (p q : Point) : Point := ⟨p.x - q.x, p.y - q.y, p.z - q.z⟩

def dot (p q : Point) : Int := p.x * q.x + p.y * q.y + p.z * q.z

def cross (p q : Point) : Point :=
  ⟨p.y * q.z - p.z * q.y, p.z * q.x - p.x * q.z, p.x * q.y - p.y * q.x⟩

/-- Six times the signed volume of the pyramid from the origin over a triangle. -/
def triple (a b c : Point) : Int := a.dot (b.cross c)

end Point

/-- A triangle over integer corners. -/
abbrev Corner.Triangle : Type := Corner × Corner × Corner

namespace Corner.Triangle

/-- Six times the signed volume of the pyramid from the origin over the triangle. -/
def pyramid : Triangle → Int
  | (a, b, c) => a.position.triple b.position c.position

/-- The product of the two sides that leave the first corner is the normal at each of the corners:
the triangle winds counter-clockwise, seen from where its normals point. -/
def WindsOutward : Triangle → Prop
  | (a, b, c) => ∀ d ∈ [a, b, c],
    (b.position.sub a.position).cross (c.position.sub a.position) = d.normal

end Corner.Triangle

/-! ## Pyramids over faces -/

namespace Face

/-- Both triangles of a face wind outward. -/
theorem windsOutward_of_mem {f : Face} {t : Corner.Triangle} (h : t ∈ f.quad.triangles) :
    t.WindsOutward := by
  have hcross : ∀ t ∈ f.quad.triangles,
      (t.2.1.position.sub t.1.position).cross (t.2.2.position.sub t.1.position) = f.normal := by
    obtain ⟨v, axis, positive⟩ := f
    cases axis <;> cases positive <;>
      simp [quad, Quad.map, Quad.triangles, tangents, Axis.next, base, normal, outward, Point.step,
        Point.zero, Point.sub, Point.cross]
  have hnormal : ∀ t ∈ f.quad.triangles,
      t.1.normal = f.normal ∧ t.2.1.normal = f.normal ∧ t.2.2.normal = f.normal := by
    simp [quad, Quad.map, Quad.triangles]
  obtain ⟨hfst, hsnd, htrd⟩ := hnormal t h
  intro d hd
  rw [hcross t h]
  simp only [List.mem_cons, List.not_mem_nil, or_false] at hd
  rcases hd with rfl | rfl | rfl
  · exact hfst.symm
  · exact hsnd.symm
  · exact htrd.symm

/-- Six times the signed volume of the pyramid from the origin over the face. Its base is a unit
square, and its height is the place of the face on its axis. -/
def pyramid (f : Face) : Int := 2 * (f.outward * f.base.along f.axis)

/-- The pyramids over the two triangles of a face make up that over the face. -/
theorem sum_pyramid_triangles (f : Face) :
    (f.quad.triangles.map Corner.Triangle.pyramid).sum = f.pyramid := by
  obtain ⟨v, axis, positive⟩ := f
  cases axis <;> cases positive <;>
    simp [quad, Quad.map, Quad.triangles, tangents, Axis.next, base, pyramid, outward, Point.step,
      Point.along, Corner.Triangle.pyramid, Point.triple, Point.dot, Point.cross] <;> ring

/-- The pyramids over the six faces of a voxel add up to the voxel. -/
theorem sum_pyramid_around (v : Voxel) : ((around v).map pyramid).sum = 6 := by
  simp [around, Axis.all, pyramid, outward, base]
  ring

/-- Faces that lie on each other have opposite pyramids. -/
theorem pyramid_opposite {f : Face} {w : Voxel} (h : w.toPoint = f.neighbour) :
    f.opposite.pyramid = -f.pyramid := by
  have haxis : f.opposite.axis = f.axis := rfl
  have houtward : f.opposite.outward = -f.outward := by
    cases hp : f.positive <;> simp [opposite, outward, hp]
  rw [pyramid, pyramid, base_opposite h, haxis, houtward]
  ring

end Face

/-! ## Counting voxels -/

namespace Voxel

/-- The voxel at an index has that index. -/
theorem index_ofIndex (i : Fin 4096) : (ofIndex i).index = i := by
  simp only [ofIndex, index, Fin.ext_iff]
  omega

/-- The places of the voxels are all places of a grid. -/
theorem map_index_all_perm : (all.map index).Perm (List.finRange 4096) := by
  refine (List.perm_ext_iff_of_nodup ?_ (List.nodup_finRange 4096)).2 fun i => ?_
  · exact nodup_all.map fun v w => index_inj.1
  · simp only [List.mem_map, List.mem_finRange, iff_true]
    exact ⟨ofIndex i, mem_all _, index_ofIndex i⟩

end Voxel

namespace Grid

/-- The solid voxels are counted over the whole grid. -/
theorem solidCount_eq_countP (g : Grid) : g.solidCount = Voxel.all.countP g.get := by
  have hcells : g.cells.toList = (List.finRange 4096).map fun i : Fin 4096 => g.cells[i] := by
    refine List.ext_getElem ?_ fun i h₁ h₂ => ?_
    · rw [Vector.length_toList, List.length_map, List.length_finRange]
    · rw [Vector.getElem_toList, List.getElem_map, List.getElem_finRange]
      rfl
  calc g.solidCount
    _ = g.cells.toList.count true := by rw [solidCount, Vector.count_toList]
    _ = (List.finRange 4096).countP fun i => g.cells[i] == true := by
      rw [hcells, List.count, List.countP_map]
      rfl
    _ = (Voxel.all.map Voxel.index).countP fun i => g.cells[i] == true :=
      (Voxel.map_index_all_perm.countP_eq _).symm
    _ = Voxel.all.countP g.get := by
      rw [List.countP_map]
      refine List.countP_congr fun v _ => ?_
      simp [get]

/-! ## Pyramids over the faces of a grid -/

/-- Every solid voxel has a volume of one, as its faces go all around it. -/
theorem sum_pyramid_solidFaces (g : Grid) :
    (g.solidFaces.map Face.pyramid).sum = 6 * g.solidCount := by
  rw [solidFaces_eq_flatMap, solidCount_eq_countP]
  induction Voxel.all with
  | nil => rfl
  | cons v rest ih =>
    rw [List.flatMap_cons, List.map_append, List.sum_append, ih, List.countP_cons]
    split
    · rw [Face.sum_pyramid_around, Nat.cast_add, Nat.cast_one]
      ring
    · simp

/-- Covered faces enclose nothing: taking each for its opposite changes the sign and nothing
else. -/
theorem sum_pyramid_coveredFaces (g : Grid) : (g.coveredFaces.map Face.pyramid).sum = 0 := by
  have hopposite : ∀ f ∈ g.coveredFaces, f.opposite.pyramid = -f.pyramid := by
    intro f hf
    obtain ⟨w, hw⟩ := exists_of_mem_coveredFaces hf
    exact Face.pyramid_opposite hw
  have hself : (g.coveredFaces.map Face.pyramid).sum = -(g.coveredFaces.map Face.pyramid).sum :=
    calc (g.coveredFaces.map Face.pyramid).sum
      _ = ((g.coveredFaces.map Face.opposite).map Face.pyramid).sum :=
        (g.map_opposite_coveredFaces_perm.map _).sum_eq.symm
      _ = (g.coveredFaces.map fun f => -f.pyramid).sum := by
        rw [List.map_map]
        exact congrArg List.sum (List.map_congr_left hopposite)
      _ = -(g.coveredFaces.map Face.pyramid).sum := by
        rw [List.sum_neg, List.map_map]
        rfl
  omega

/-- The exposed faces enclose the solid voxels. -/
theorem sum_pyramid_faces (g : Grid) :
    (g.faces.map Face.pyramid).sum = 6 * g.solidCount := by
  have hsplit := (g.faces_append_coveredFaces_perm.map Face.pyramid).sum_eq
  rw [List.map_append, List.sum_append, sum_pyramid_coveredFaces, add_zero] at hsplit
  rw [hsplit, sum_pyramid_solidFaces]

end Grid

/-! ## Vertices as corners -/

/-- The integer part of the float that has these bits. -/
def Point.truncate (w : UInt32) : Int :=
  let f := Float32.ofBits w
  if f < 0 then -((-f).toUInt64.toNat : Int) else f.toUInt64.toNat

/-- The integer parts of the components. -/
def Vec3.Bits.toPoint (b : Vec3.Bits) : Point :=
  ⟨Point.truncate b.x, Point.truncate b.y, Point.truncate b.z⟩

/-- The corner that the vertex is at, if it is at one. -/
def Vertex.corner (v : Vertex) : Corner := ⟨v.position.toPoint, v.normal.toPoint⟩

/-- Small integers are read off their floats. -/
theorem Point.truncate_toBits_ofInt {i : Int} (hi : -1 ≤ i ∧ i ≤ 16) :
    truncate (Float32.ofInt i).toBits = i := by
  have hall : ∀ m : Fin 18, truncate (Float32.ofInt (m - 1)).toBits = m - 1 := by
    decide +kernel
  have hm := hall ⟨(i + 1).toNat, by omega⟩
  simp only [Int.toNat_of_nonneg (show 0 ≤ i + 1 by omega), add_sub_cancel_right] at hm
  exact hm

/-- A small integer point is read off the bits of its floats. -/
theorem Point.toPoint_bits {p : Point} (h : p.Small) : p.toVec3.bits.toPoint = p :=
  Point.ext_along (Axis.forall_iff.2
    ⟨truncate_toBits_ofInt (h .x), truncate_toBits_ofInt (h .y), truncate_toBits_ofInt (h .z)⟩)

/-- The corners of a face are read off their vertices. -/
theorem Face.corner_toVertex {f : Face} {c : Corner} (h : c ∈ f.quad.toList) :
    c.toVertex.corner = c := by
  have hposition := (f.mem_corners.1 (List.mem_map_of_mem h)).small
  have hnormal : c.normal = f.normal := by
    simp [quad, Quad.map, Quad.toList] at h
    rcases h with rfl | rfl | rfl | rfl <;> rfl
  have hsmall : c.normal.Small := hnormal ▸ f.hasNormal_normal.small
  show (⟨c.position.toVec3.bits.toPoint, c.normal.toVec3.bits.toPoint⟩ : Corner) = c
  rw [Point.toPoint_bits hposition, Point.toPoint_bits hsmall]

/-- The corners that the vertices of a triangle are at. -/
def Vertex.corners : Vertex × Vertex × Vertex → Corner.Triangle
  | (a, b, c) => (a.corner, b.corner, c.corner)

namespace Grid

variable {g : Grid}

/-- Nothing is lost when the vertices of a geometry are read as corners. -/
theorem toVertex_corner_of_mem {v : Vertex} (hv : v ∈ g.geometry.vertices) :
    v.corner.toVertex = v := by
  obtain ⟨c, hc, rfl⟩ := Array.mem_map.1 hv
  rw [← Array.mem_toList_iff, surface, Mesh.toList_vertices_ofQuads, List.flatMap_map] at hc
  obtain ⟨f, -, hc⟩ := List.mem_flatMap.1 hc
  rw [Face.corner_toVertex hc]

/-- The triangles of a geometry, over corners, are those of the exposed faces. -/
theorem map_corner_triangles_geometry (g : Grid) :
    g.geometry.triangles.map Vertex.corners = g.faces.flatMap fun f => f.quad.triangles := by
  rw [geometry, surface, Mesh.triangles_map, Mesh.triangles_ofQuads g.length_faces_le,
    List.flatMap_map, List.map_map, List.map_flatMap]
  refine List.flatMap_congr fun f _ => ?_
  have hread : ∀ c ∈ f.quad.toList, c.toVertex.corner = c := fun c => Face.corner_toVertex
  simp only [Quad.toList, List.mem_cons, List.not_mem_nil, or_false, forall_eq_or_imp,
    forall_eq] at hread
  obtain ⟨ha, hb, hc, hd⟩ := hread
  simp [Quad.triangles, Vertex.corners, ha, hb, hc, hd]

/-- Whatever the grid, its geometry has integer vertices, all of its triangles wind outward, and
what they enclose is the solid voxels. -/
theorem geometry_encloses (g : Grid) :
    (∀ v ∈ g.geometry.vertices, v.corner.toVertex = v) ∧
    g.geometry.triangles.length = g.geometry.triangleCount ∧
    (∀ t ∈ g.geometry.triangles, (Vertex.corners t).WindsOutward) ∧
    (g.geometry.triangles.map fun t => (Vertex.corners t).pyramid).sum = 6 * g.solidCount := by
  refine ⟨fun v => toVertex_corner_of_mem, ?_, fun t ht => ?_, ?_⟩
  · rw [length_triangles_geometry, triangleCount_geometry]
  · have hmem := List.mem_map_of_mem (f := Vertex.corners) ht
    rw [map_corner_triangles_geometry] at hmem
    obtain ⟨f, -, hf⟩ := List.mem_flatMap.1 hmem
    exact Face.windsOutward_of_mem hf
  · calc (g.geometry.triangles.map fun t => (Vertex.corners t).pyramid).sum
      _ = ((g.geometry.triangles.map Vertex.corners).map Corner.Triangle.pyramid).sum := by
        rw [List.map_map]
        rfl
      _ = (g.faces.map fun f => (f.quad.triangles.map Corner.Triangle.pyramid).sum).sum := by
        rw [map_corner_triangles_geometry, List.map_flatMap, List.flatMap_def, List.sum_flatten,
          List.map_map]
        rfl
      _ = 6 * g.solidCount := by
        simp only [Face.sum_pyramid_triangles, sum_pyramid_faces]

end Grid
end VoxelStream
