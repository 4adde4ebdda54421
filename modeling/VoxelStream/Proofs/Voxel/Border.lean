import VoxelStream.Proofs.Voxel.Faces

/-!
# The surface of a grid has no border

The six faces of a voxel have no border among them: what holds at the origin holds everywhere
(`Face.borderless_around`). A face that is covered lies on a face of the voxel that covers it, and
the two have the same edges in opposite directions, so all covered faces of a grid together have no
border either (`Grid.borderless_covered`). The exposed faces are what is left of the faces of solid
voxels when the covered ones are taken away, and so they have none.
-/

namespace VoxelStream

/-! ## Moving points -/

namespace Point

/-- The point moved by another one. -/
def shift (p q : Point) : Point := ⟨p.x + q.x, p.y + q.y, p.z + q.z⟩

/-- Steps may be taken before a shift or after it. -/
theorem step_shift (p q : Point) (a : Axis) (d : Int) :
    (p.shift q).step a d = (p.step a d).shift q := by
  cases a <;> simp [shift, step, Int.add_right_comm]

/-- Steps may be taken in either order. -/
theorem step_comm (p : Point) (a b : Axis) (d e : Int) :
    (p.step a d).step b e = (p.step b e).step a d := by
  cases a <;> cases b <;> simp [step, Int.add_right_comm]

/-- Steps along one axis add up. -/
theorem step_step (p : Point) (a : Axis) (d e : Int) :
    (p.step a d).step a e = p.step a (d + e) := by
  cases a <;> simp [step, Int.add_assoc]

@[simp] theorem step_zero (p : Point) (a : Axis) : p.step a 0 = p := by
  cases a <;> simp [step]

/-- The unit square that starts at a point and goes along two axes, the first one first. -/
def square (p : Point) (u v : Axis) : Quad Point :=
  ⟨p, p.step u 1, (p.step u 1).step v 1, p.step v 1⟩

/-- A shifted point has its square shifted with it. -/
theorem square_shift (p q : Point) (u v : Axis) :
    (p.shift q).square u v = (p.square u v).map (·.shift q) := by
  simp [square, Quad.map, step_shift]

/-- With the axes the other way around, a square has its edges the other way. -/
theorem swap_edges_square_perm (p : Point) (u v : Axis) :
    ((p.square u v).edges.map Prod.swap).Perm (p.square v u).edges := by
  rw [square, square, step_comm p v u]
  exact Quad.swap_edges_perm ..

end Point

namespace Face

/-- The edges of the two triangles of a face. -/
def edges (f : Face) : List (Point × Point) := (f.quad.map Corner.position).edges

/-- The edges of a face are those of the square at its base. -/
theorem edges_eq_square (f : Face) :
    f.edges = (f.base.square f.tangents.1 f.tangents.2).edges := rfl

/-! ## Around a voxel -/

/-- Each face is a face of the voxel at the origin, moved. -/
theorem edges_eq_map (v : Voxel) (axis : Axis) (positive : Bool) :
    edges ⟨v, axis, positive⟩ = (edges ⟨⟨0, 0, 0⟩, axis, positive⟩).map
      (Prod.map (·.shift v.toPoint) (·.shift v.toPoint)) := by
  have horigin : (Voxel.toPoint ⟨0, 0, 0⟩).shift v.toPoint = v.toPoint := by
    simp [Voxel.toPoint, Point.shift]
  have hbase : base ⟨v, axis, positive⟩ =
      (base ⟨⟨0, 0, 0⟩, axis, positive⟩).shift v.toPoint := by
    cases positive
    · exact horigin.symm
    · rw [base, base, if_pos rfl, if_pos rfl, ← Point.step_shift, horigin]
  rw [edges_eq_square, edges_eq_square, hbase, Point.square_shift, Quad.edges_map]
  rfl

/-- The six faces of a voxel have no border. -/
theorem borderless_around (v : Voxel) : Borderless ((around v).flatMap edges) := by
  have horigin : Borderless ((around ⟨0, 0, 0⟩).flatMap edges) := by
    unfold Borderless
    decide
  have hmove : (around v).flatMap edges = ((around ⟨0, 0, 0⟩).flatMap edges).map
      (Prod.map (·.shift v.toPoint) (·.shift v.toPoint)) := by
    rw [List.map_flatMap]
    simp only [around, Axis.all, List.flatMap_cons, List.flatMap_nil, List.cons_append,
      List.nil_append, edges_eq_map v]
  rw [hmove]
  exact horigin.map _

/-! ## Covered faces -/

/-- The face that lies on the face, if there is a voxel on the other side. -/
def opposite (f : Face) : Face :=
  ⟨(Voxel.ofPoint? f.neighbour).getD f.voxel, f.axis, !f.positive⟩

section
variable {f : Face} {w : Voxel}

/-- The opposite of a face belongs to the neighbour and looks back. -/
theorem opposite_eq (h : w.toPoint = f.neighbour) : f.opposite = ⟨w, f.axis, !f.positive⟩ := by
  rw [opposite, Voxel.ofPoint?_eq_some_iff.2 h]
  rfl

/-- On the other side of the opposite face is the voxel of the face. -/
theorem neighbour_opposite (h : w.toPoint = f.neighbour) :
    f.opposite.neighbour = f.voxel.toPoint := by
  obtain ⟨v, axis, positive⟩ := f
  rw [opposite_eq h, neighbour, h, neighbour, Point.step_step]
  cases positive <;> simp [outward]

/-- The opposite of the opposite is the face itself. -/
theorem opposite_opposite (h : w.toPoint = f.neighbour) : f.opposite.opposite = f := by
  rw [opposite_eq (neighbour_opposite h).symm, opposite_eq h]
  simp

/-- Faces that lie on each other have the same corner nearest to the origin. -/
theorem base_opposite (h : w.toPoint = f.neighbour) : f.opposite.base = f.base := by
  obtain ⟨v, axis, positive⟩ := f
  rw [opposite_eq h]
  cases positive <;> simp [base, h, neighbour, outward, Point.step_step]

/-- Faces that lie on each other have the same edges in opposite directions. -/
theorem swap_edges_perm (h : w.toPoint = f.neighbour) :
    (f.edges.map Prod.swap).Perm f.opposite.edges := by
  have htangents : f.opposite.tangents = f.tangents.swap := by
    cases hp : f.positive <;> simp [opposite, tangents, hp]
  rw [edges_eq_square, edges_eq_square, base_opposite h, htangents]
  exact Point.swap_edges_square_perm ..

end
end Face

namespace Grid

variable {g : Grid} {f : Face}

/-- The faces of solid voxels that a solid voxel covers. -/
def coveredFaces (g : Grid) : List Face := g.solidFaces.filter fun f => g.isSolid f.neighbour

/-- A face is covered just if the voxels on both of its sides are solid. -/
theorem mem_coveredFaces :
    f ∈ g.coveredFaces ↔ g.isSolid f.voxel.toPoint ∧ g.isSolid f.neighbour := by
  rw [coveredFaces, List.mem_filter, mem_solidFaces]

/-- The neighbour behind a covered face is a voxel of the grid. -/
theorem exists_of_mem_coveredFaces (h : f ∈ g.coveredFaces) :
    ∃ w : Voxel, w.toPoint = f.neighbour := by
  have hsolid := (mem_coveredFaces.1 h).2
  unfold isSolid at hsolid
  split at hsolid
  · next w hw => exact ⟨w, Voxel.ofPoint?_eq_some_iff.1 hw⟩
  · cases hsolid

/-- Covered faces come in pairs of opposites. -/
theorem opposite_mem_coveredFaces (h : f ∈ g.coveredFaces) : f.opposite ∈ g.coveredFaces := by
  obtain ⟨w, hw⟩ := exists_of_mem_coveredFaces h
  obtain ⟨hvoxel, hneighbour⟩ := mem_coveredFaces.1 h
  rw [mem_coveredFaces, Face.neighbour_opposite hw, Face.opposite_eq hw, hw]
  exact ⟨hneighbour, hvoxel⟩

/-- The opposites of the covered faces are the covered faces again. -/
theorem map_opposite_coveredFaces_perm (g : Grid) :
    (g.coveredFaces.map Face.opposite).Perm g.coveredFaces := by
  have hl : g.coveredFaces.Nodup := g.nodup_solidFaces.filter _
  have hinv : ∀ f ∈ g.coveredFaces, f.opposite.opposite = f := by
    intro f hf
    obtain ⟨w, hw⟩ := exists_of_mem_coveredFaces hf
    exact Face.opposite_opposite hw
  have hnodup : (g.coveredFaces.map Face.opposite).Nodup := by
    refine List.Nodup.map_on (fun f hf f' hf' he => ?_) hl
    rw [← hinv f hf, he, hinv f' hf']
  refine (List.perm_ext_iff_of_nodup hnodup hl).2 fun f => ⟨fun hf => ?_, fun hf => ?_⟩
  · obtain ⟨f', hf', rfl⟩ := List.mem_map.1 hf
    exact opposite_mem_coveredFaces hf'
  · exact List.mem_map.2 ⟨f.opposite, opposite_mem_coveredFaces hf, hinv f hf⟩

/-- The covered faces have no border, as opposites cancel. -/
theorem borderless_covered (g : Grid) : Borderless (g.coveredFaces.flatMap Face.edges) := by
  refine .flatMap_opposite g.map_opposite_coveredFaces_perm fun f hf => ?_
  obtain ⟨w, hw⟩ := exists_of_mem_coveredFaces hf
  exact Face.swap_edges_perm hw

/-- All faces of solid voxels together have no border, as each cube is closed. -/
theorem borderless_solid (g : Grid) : Borderless (g.solidFaces.flatMap Face.edges) := by
  rw [solidFaces_eq_flatMap, List.flatMap_assoc]
  refine .flatMap fun v _ => ?_
  split
  · exact Face.borderless_around v
  · exact .refl _

/-- Each face of a solid voxel is either exposed or covered. -/
theorem faces_append_coveredFaces_perm (g : Grid) :
    (g.faces ++ g.coveredFaces).Perm g.solidFaces := by
  have hperm := List.filter_append_perm (fun f => !g.isSolid f.neighbour) g.solidFaces
  rw [← faces_eq_filter] at hperm
  simpa only [coveredFaces, Bool.not_not] using hperm

/-- The exposed faces have no border. -/
theorem borderless_faces (g : Grid) : Borderless (g.faces.flatMap Face.edges) := by
  have hall := g.borderless_solid.perm (g.faces_append_coveredFaces_perm.symm.flatMap_right _)
  rw [List.flatMap_append] at hall
  exact hall.of_append g.borderless_covered

/-- The edges of the geometry run between the points of the exposed faces. -/
theorem edges_geometry (g : Grid) :
    g.geometry.edges.map (Prod.map Vertex.position Vertex.position) =
      (g.faces.flatMap Face.edges).map (Prod.map (·.toVec3.bits) (·.toVec3.bits)) := by
  rw [geometry, surface, Mesh.edges_map, Mesh.edges_ofQuads g.length_faces_le, List.flatMap_map,
    List.map_map, List.map_flatMap, List.map_flatMap]
  rfl

/-- Each vertex of the geometry is at a corner of a face. -/
theorem exists_hasCorner_of_mem_vertices {v : Vertex} (hv : v ∈ g.geometry.vertices) :
    ∃ (f : Face) (p : Point), f.HasCorner p ∧ v.position = p.toVec3.bits := by
  obtain ⟨c, hc, rfl⟩ := Array.mem_map.1 hv
  rw [← Array.mem_toList_iff, surface, Mesh.toList_vertices_ofQuads, List.flatMap_map] at hc
  obtain ⟨f, -, hc⟩ := List.mem_flatMap.1 hc
  exact ⟨f, c.position, f.mem_corners.1 (List.mem_map_of_mem hc), rfl⟩

/-- The geometry has two triangles for each exposed face. -/
theorem length_triangles_geometry (g : Grid) :
    g.geometry.triangles.length = 2 * g.faces.length := by
  rw [geometry, surface, Mesh.triangles_map, Mesh.triangles_ofQuads g.length_faces_le,
    List.length_map, length_flatMap_slots Quad.length_triangles, List.length_map]

end Grid

/-! ## Edges of a geometry -/

/-- How many edges of the triangles of a geometry run from one point to the other. -/
def Geometry.edgeCount (m : Geometry) (p q : Point) : Nat :=
  m.edges.countP fun (v, w) => v.position == p.toVec3.bits && w.position == q.toVec3.bits

/-- The edges between two points are counted by the bits of their coordinates. -/
theorem Geometry.edgeCount_eq_count (m : Geometry) (p q : Point) : m.edgeCount p q =
    (m.edges.map (Prod.map Vertex.position Vertex.position)).count
      (p.toVec3.bits, q.toVec3.bits) := by
  rw [edgeCount, List.count, List.countP_map]
  rfl

/-- The geometry of a grid is a closed surface: its vertices are at integer points of the chunk, all
of its triangles count, and between any two points as many of their edges run one way as the
other. -/
theorem Grid.geometry_closed (g : Grid) :
    (∀ v ∈ g.geometry.vertices, ∃! p : Point,
      (∀ a, 0 ≤ p.along a ∧ p.along a ≤ 16) ∧ v.position = p.toVec3.bits) ∧
    g.geometry.triangles.length = g.geometry.triangleCount ∧
    ∀ p q : Point, g.geometry.edgeCount p q = g.geometry.edgeCount q p := by
  refine ⟨fun v hv => ?_, ?_, fun p q => ?_⟩
  · obtain ⟨f, p, hp, hpos⟩ := exists_hasCorner_of_mem_vertices hv
    refine ⟨p, ⟨hp.inChunk, hpos⟩, fun p' ⟨hp', hpos'⟩ => ?_⟩
    have hsmall : p'.Small := fun a => ⟨by have := (hp' a).1; omega, (hp' a).2⟩
    exact Point.bits_inj hsmall hp.small (hpos'.symm.trans hpos)
  · rw [length_triangles_geometry, triangleCount_geometry]
  · rw [Geometry.edgeCount_eq_count, Geometry.edgeCount_eq_count, edges_geometry]
    exact (g.borderless_faces.map _).count_eq _ _

end VoxelStream
