import Mathlib.Data.List.Count
import Mathlib.Data.List.Induction
import Mathlib.Data.List.Nodup
import Mathlib.Data.List.Perm.Basic
import Mathlib.Data.Prod.Basic
import VoxelStream.Geometry.Mesh

/-!
# Meshes of quads

The tables of a mesh of quads have one slot a quad: four vertices, and six indices that make two
triangles of them (`Mesh.HasQuad`). So the triangles of the mesh are those of the quads
(`Mesh.triangles_ofQuads`), as long as a word can count the vertices.

A surface has no border if between any two points as many edges of its triangles run one way as the
other (`Borderless`).
-/

namespace VoxelStream

variable {α β : Type}

namespace Quad

/-- The two triangles of a quad, each by its corners in order. -/
def triangles (q : Quad α) : List (α × α × α) := [(q.a, q.b, q.c), (q.a, q.c, q.d)]

@[simp] theorem length_toList (q : Quad α) : q.toList.length = 4 := rfl

@[simp] theorem length_triangles (q : Quad α) : q.triangles.length = 2 := rfl

/-- What is done to a quad is done to each of its corners. -/
theorem toList_map (f : α → β) (q : Quad α) : (q.map f).toList = q.toList.map f := rfl

end Quad

/-! ## Slots -/

section
variable {f : α → List β} {size : Nat}

/-- A list made of slots of one size is as long as all of them together. -/
theorem length_flatMap_slots (hf : ∀ a, (f a).length = size) (l : List α) :
    (l.flatMap f).length = size * l.length := by
  induction l with
  | nil => rfl
  | cons a rest ih => rw [List.flatMap_cons, List.length_append, ih, hf, List.length_cons,
      Nat.mul_succ, Nat.add_comm]

/-- A list made of slots of one size has in each of them what was put there. -/
theorem extract_flatMap (hf : ∀ a, (f a).length = size) {l : List α} {k : Nat} {a : α}
    (h : l[k]? = some a) : (l.flatMap f).extract (size * k) (size * k + size) = f a := by
  induction l generalizing k with
  | nil => cases h
  | cons b rest ih =>
    cases k with
    | zero =>
      cases h
      simp [List.extract, ← hf a]
    | succ k =>
      have hskip : (f b ++ rest.flatMap f).drop (size * (k + 1)) =
          (rest.flatMap f).drop (size * k) := by
        rw [Nat.mul_succ, Nat.add_comm, ← hf b, List.drop_length_add_append]
      rw [← ih (k := k) h, List.flatMap_cons, List.extract, hskip]
      simp [List.extract]

end

/-- A list made of the places of another one, if what is made of a place is made of what is
there. -/
theorem flatMap_range_length {f : Nat → List β} {g : α → List β} {l : List α}
    (h : ∀ k a, l[k]? = some a → f k = g a) : (List.range l.length).flatMap f = l.flatMap g := by
  induction l generalizing f with
  | nil => rfl
  | cons a rest ih =>
    rw [List.length_cons, List.range_succ_eq_map, List.flatMap_cons, List.flatMap_map,
      List.flatMap_cons, h 0 a rfl, ih fun k b hk => h (k + 1) b hk]

namespace Mesh

/-- The indices of a quad whose first corner is at `start`. -/
def fan (start : UInt32) : List UInt32 :=
  [start, start + 1, start + 2, start, start + 2, start + 3]

@[simp] theorem length_fan (start : UInt32) : (fan start).length = 6 := rfl

/-- The quad in the slot `k` of both tables. -/
structure HasQuad (m : Mesh α) (k : Nat) (q : Quad α) : Prop where
  vertices_eq : (m.vertices.extract (4 * k) (4 * k + 4)).toList = q.toList
  indices_eq : (m.indices.extract (6 * k) (6 * k + 6)).toList.map UInt32.toNat =
    [0, 1, 2, 0, 2, 3].map (4 * k + ·)

/-- What is done to all vertices of a mesh is done to the quads in its slots. -/
theorem HasQuad.map {m : Mesh α} {k : Nat} {q : Quad α} (h : m.HasQuad k q) (f : α → β) :
    (m.map f).HasQuad k (q.map f) where
  vertices_eq := by
    rw [Quad.toList_map, ← h.vertices_eq]
    simp [Mesh.map]
  indices_eq := h.indices_eq

/-- There is one quad in a slot. -/
theorem HasQuad.unique {m : Mesh α} {k : Nat} {q q' : Quad α} (h : m.HasQuad k q)
    (h' : m.HasQuad k q') : q = q' := by
  have hlist : q.toList = q'.toList := h.vertices_eq.symm.trans h'.vertices_eq
  cases q
  cases q'
  simpa [Quad.toList] using hlist

section
variable {l : List (Quad α)} {k : Nat} {q : Quad α}

/-- Quads that are added append their corners to the vertices. -/
theorem toList_vertices_foldl (l : List (Quad α)) (m : Mesh α) :
    (l.foldl addQuad m).vertices.toList = m.vertices.toList ++ l.flatMap Quad.toList := by
  induction l generalizing m with
  | nil => simp
  | cons q rest ih => simp [ih, addQuad, Quad.toList]

/-- The vertices of a mesh of quads are the corners of the quads, in order. -/
theorem toList_vertices_ofQuads (l : List (Quad α)) :
    (ofQuads l).vertices.toList = l.flatMap Quad.toList :=
  toList_vertices_foldl l empty

/-- A mesh of quads has four vertices for each of them. -/
theorem size_vertices_ofQuads (l : List (Quad α)) : (ofQuads l).vertices.size = 4 * l.length := by
  rw [← Array.length_toList, toList_vertices_ofQuads]
  exact length_flatMap_slots Quad.length_toList l

/-- The indices of a mesh of quads are a fan for each of them, four vertices further on each
time. -/
theorem toList_indices_ofQuads (l : List (Quad α)) : (ofQuads l).indices.toList =
    (List.range l.length).flatMap fun k => fan (4 * k).toUInt32 := by
  induction l using List.reverseRecOn with
  | nil => rfl
  | append_singleton rest q ih =>
    have hlast : ofQuads (rest ++ [q]) = (ofQuads rest).addQuad q := List.foldl_concat ..
    rw [hlast, List.length_append, List.length_singleton, List.range_succ, List.flatMap_append,
      ← ih]
    simp [addQuad, fan, size_vertices_ofQuads]

/-- A mesh of quads has six indices for each of them. -/
theorem size_indices_ofQuads (l : List (Quad α)) : (ofQuads l).indices.size = 6 * l.length := by
  rw [← Array.length_toList, toList_indices_ofQuads, length_flatMap_slots fun _ => length_fan _,
    List.length_range]

/-- The indices of a quad are counted from its first corner. -/
theorem toNat_fan {n : Nat} (h : n + 4 ≤ UInt32.size) :
    (fan n.toUInt32).map UInt32.toNat = [0, 1, 2, 0, 2, 3].map (n + ·) := by
  unfold UInt32.size at h
  simp [fan]
  omega

/-- Each quad is in its slot, as long as a word can count the vertices. -/
theorem hasQuad_ofQuads (hl : 4 * l.length ≤ UInt32.size) (hk : l[k]? = some q) :
    (ofQuads l).HasQuad k q where
  vertices_eq := by
    rw [Array.toList_extract, toList_vertices_ofQuads]
    exact extract_flatMap Quad.length_toList hk
  indices_eq := by
    have hlt : k < l.length := (List.getElem?_eq_some_iff.1 hk).1
    rw [Array.toList_extract, toList_indices_ofQuads,
      extract_flatMap (fun _ => length_fan _) (List.getElem?_range hlt), toNat_fan (by omega)]

/-- Every index is in the table, as long as a word can count the vertices. -/
theorem toNat_lt_of_mem_indices (hl : 4 * l.length ≤ UInt32.size) {i : UInt32}
    (hi : i ∈ (ofQuads l).indices) : i.toNat < (ofQuads l).vertices.size := by
  rw [← Array.mem_toList_iff, toList_indices_ofQuads] at hi
  obtain ⟨k, hk, hi⟩ := List.mem_flatMap.1 hi
  have hlt := List.mem_range.1 hk
  have hmem := List.mem_map_of_mem (f := UInt32.toNat) hi
  rw [toNat_fan (by omega)] at hmem
  rw [size_vertices_ofQuads]
  simp at hmem
  omega

/-- A corner of a quad is where its index says. -/
theorem HasQuad.getElem?_vertices {m : Mesh α} (h : m.HasQuad k q) {i : Nat} (hi : i < 4) :
    m.vertices[4 * k + i]? = q.toList[i]? := by
  rw [← h.vertices_eq, Array.getElem?_toList, Array.getElem?_extract]
  simp
  omega

end
end Mesh

/-! ## Triangles -/

/-- The triples of a list, one after the other. What is left at the end makes none. -/
def triples : List α → List (α × α × α)
  | a :: b :: c :: rest => (a, b, c) :: triples rest
  | _ => []

/-- The edges of a triangle, all the way around. -/
def rim : α × α × α → List (α × α)
  | (a, b, c) => [(a, b), (b, c), (c, a)]

namespace Quad

/-- The edges of the two triangles of a quad. -/
def edges (q : Quad α) : List (α × α) := q.triangles.flatMap rim

/-- What is done to the corners of a quad is done to both ends of its edges. -/
theorem edges_map (f : α → β) (q : Quad α) : (q.map f).edges = q.edges.map (Prod.map f f) := rfl

/-- Seen from the other side, a quad has its edges the other way. -/
theorem swap_edges_perm (a b c d : α) :
    ((⟨a, b, c, d⟩ : Quad α).edges.map Prod.swap).Perm (⟨a, d, c, b⟩ : Quad α).edges :=
  (List.reverse_perm _).symm

end Quad

namespace Mesh

/-- A triangle by its vertices, if all of its indices are in the table. -/
def triangle? (m : Mesh α) : UInt32 × UInt32 × UInt32 → Option (α × α × α)
  | (i, j, k) => do
    return (← m.vertices[i.toNat]?, ← m.vertices[j.toNat]?, ← m.vertices[k.toNat]?)

/-- The triangles of a mesh, each by its vertices in order. -/
def triangles (m : Mesh α) : List (α × α × α) := (triples m.indices.toList).filterMap m.triangle?

/-- The edges of all triangles, each in the direction in which its triangle has it. -/
def edges (m : Mesh α) : List (α × α) := m.triangles.flatMap rim

/-- A triangle has the vertices that its indices find. -/
theorem triangle?_eq_some {m : Mesh α} {i j k : UInt32} {a b c : α}
    (hi : m.vertices[i.toNat]? = some a) (hj : m.vertices[j.toNat]? = some b)
    (hk : m.vertices[k.toNat]? = some c) : m.triangle? (i, j, k) = some (a, b, c) := by
  simp [triangle?, hi, hj, hk]

/-- The indices of quads are read as two triangles for each of them. -/
theorem triples_flatMap_fan {ι : Type} (f : ι → UInt32) (l : List ι) :
    triples (l.flatMap fun k => fan (f k)) =
      l.flatMap fun k => [(f k, f k + 1, f k + 2), (f k, f k + 2, f k + 3)] := by
  induction l with
  | nil => rfl
  | cons k rest ih =>
    rw [List.flatMap_cons, List.flatMap_cons, ← ih]
    rfl

/-- The triangles of a mesh of quads are those of the quads. -/
theorem triangles_ofQuads {l : List (Quad α)} (hl : 4 * l.length ≤ UInt32.size) :
    (ofQuads l).triangles = l.flatMap Quad.triangles := by
  rw [triangles, toList_indices_ofQuads, triples_flatMap_fan, List.filterMap_flatMap]
  refine flatMap_range_length fun k q hk => ?_
  have hlt : k < l.length := (List.getElem?_eq_some_iff.1 hk).1
  have hquad := hasQuad_ofQuads hl hk
  have hfan := toNat_fan (n := 4 * k) (by omega)
  have ha := hquad.getElem?_vertices (i := 0) (by decide)
  have hb := hquad.getElem?_vertices (i := 1) (by decide)
  have hc := hquad.getElem?_vertices (i := 2) (by decide)
  have hd := hquad.getElem?_vertices (i := 3) (by decide)
  generalize (4 * k).toUInt32 = start at hfan ⊢
  simp only [fan, List.map_cons, List.map_nil, List.cons.injEq] at hfan
  obtain ⟨h₀, h₁, h₂, -, -, h₃, -⟩ := hfan
  rw [← h₀] at ha
  rw [← h₁] at hb
  rw [← h₂] at hc
  rw [← h₃] at hd
  rw [List.filterMap_cons_some (triangle?_eq_some ha hb hc),
    List.filterMap_cons_some (triangle?_eq_some ha hc hd)]
  rfl

/-- The edges of a mesh of quads are those of the quads. -/
theorem edges_ofQuads {l : List (Quad α)} (hl : 4 * l.length ≤ UInt32.size) :
    (ofQuads l).edges = l.flatMap Quad.edges := by
  rw [edges, triangles_ofQuads hl, List.flatMap_assoc]
  rfl

/-- What is done to all vertices of a mesh is done to the corners of its triangles. -/
theorem triangles_map (m : Mesh α) (f : α → β) :
    (m.map f).triangles = m.triangles.map fun (a, b, c) => (f a, f b, f c) := by
  have htriangle : ∀ t, (m.map f).triangle? t =
      (m.triangle? t).map fun (a, b, c) => (f a, f b, f c) := by
    rintro ⟨i, j, k⟩
    unfold triangle? Mesh.map
    cases hi : m.vertices[i.toNat]? <;> cases hj : m.vertices[j.toNat]? <;>
      cases hk : m.vertices[k.toNat]? <;> simp [hi, hj, hk]
  rw [triangles, triangles, List.map_filterMap]
  exact List.filterMap_congr fun t _ => htriangle t

/-- What is done to all vertices of a mesh is done to both ends of its edges. -/
theorem edges_map (m : Mesh α) (f : α → β) : (m.map f).edges = m.edges.map (Prod.map f f) := by
  rw [edges, edges, triangles_map, List.flatMap_map, List.map_flatMap]
  rfl

end Mesh

/-! ## Borders -/

/-- Between any two points as many of the edges run one way as the other. -/
def Borderless (edges : List (α × α)) : Prop := (edges.map Prod.swap).Perm edges

namespace Borderless

variable {edges edges' : List (α × α)} {ι : Type} {e : ι → List (α × α)} {l : List ι}

/-- Without a border, an edge occurs as often as its opposite. -/
theorem count_eq [DecidableEq α] (h : Borderless edges) (p q : α) :
    edges.count (p, q) = edges.count (q, p) := by
  have hswap : (edges.map Prod.swap).count (q, p) = edges.count (p, q) :=
    List.count_map_of_injective edges Prod.swap Prod.swap_injective (p, q)
  rw [← hswap, List.Perm.count_eq h]

/-- Points that are brought together leave no border where there was none. -/
theorem map (h : Borderless edges) (f : α → β) : Borderless (edges.map (Prod.map f f)) := by
  have hswap : (edges.map (Prod.map f f)).map Prod.swap =
      (edges.map Prod.swap).map (Prod.map f f) := by
    rw [List.map_map, List.map_map]
    rfl
  rw [Borderless, hswap]
  exact List.Perm.map _ h

/-- The order of the edges has no part in whether there is a border. -/
theorem perm (h : Borderless edges) (hp : edges.Perm edges') : Borderless edges' :=
  ((hp.map _).symm.trans h).trans hp

/-- What is left of edges without border when edges without border are taken away has none. -/
theorem of_append (h : Borderless (edges ++ edges')) (h' : Borderless edges') :
    Borderless edges := by
  unfold Borderless at h
  rw [List.map_append] at h
  exact (List.perm_append_right_iff _).1 ((h'.append_left _).symm.trans h)

/-- Parts without border have none together. -/
theorem flatMap (h : ∀ i ∈ l, Borderless (e i)) : Borderless (l.flatMap e) := by
  rw [Borderless, List.map_flatMap]
  exact .flatMap_left l h

/-- Where the opposites of the parts are the parts again, there is no border. -/
theorem flatMap_opposite {opposite : ι → ι} (hl : (l.map opposite).Perm l)
    (he : ∀ i ∈ l, ((e i).map Prod.swap).Perm (e (opposite i))) : Borderless (l.flatMap e) := by
  rw [Borderless, List.map_flatMap]
  calc List.Perm (l.flatMap fun i => (e i).map Prod.swap) (l.flatMap fun i => e (opposite i)) :=
        .flatMap_left l he
    List.Perm _ ((l.map opposite).flatMap e) := by rw [List.flatMap_map]
    List.Perm _ (l.flatMap e) := hl.flatMap_right e

end Borderless
end VoxelStream
