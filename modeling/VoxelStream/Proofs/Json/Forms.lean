import VoxelStream.Json.Forms
import VoxelStream.Proofs.Json.Codec

/-!
# The library's values are read back

What the library writes is read back as it was (`Forms.reads_back`): coordinates, nodes and filters
always, and values with floats as far as the number format keeps these floats. For each form there
is one fact about its codec, put together from those about the codecs of its parts.
-/

namespace VoxelStream

/-! ## The floats of a value -/

def Vec3.floats (v : Vec3) : List Float32 := [v.x, v.y, v.z]

def Sphere.floats (s : Sphere) : List Float32 := s.center.floats ++ [s.radius]

def Camera.floats (c : Camera) : List Float32 :=
  c.position.floats ++ c.front.floats ++ c.up.floats ++ [c.fovY, c.ratio, c.near, c.far]

def NodeQuery.floats (q : NodeQuery) : List Float32 := q.maxRadius :: q.lodFactor.toList

def TerrainSettings.floats (s : TerrainSettings) : List Float32 :=
  [s.baseHeight, s.amplitude, s.scale]

def Config.floats (c : Config) : List Float32 := c.maxRadius :: c.lodFactor.toList

namespace Json.Forms

open Codec

/-! ## Values without floats -/

/-- Coordinates are read back, as all their words are. -/
theorem faithful_coord (c : Coord) : coord.Faithful c :=
  RecordForm.faithful_codec
    (.cons ((faithful_int32 c.x).field (by decide)) <|
      .cons ((faithful_int32 c.y).field (by decide)) <|
      .cons ((faithful_int32 c.z).field (by decide)) .nil) (by decide) rfl

/-- Nodes are read back. -/
theorem faithful_node (n : Node) : node.Faithful n :=
  RecordForm.faithful_codec
    (.cons ((faithful_coord n.origin).field (by decide)) <|
      .cons ((faithful_uint32 n.level).field (by decide)) .nil) (by decide) rfl

/-- Filters are read back, both those that let everything pass and those of a layer. -/
theorem faithful_filter (f : ChunkFilter) : filter.Faithful f := by
  cases f with
  | all =>
    have hname : PlainText "All" := by decide
    exact ⟨.singleton hname, ⟨_, _, rfl, by simp⟩, fun _ => rfl⟩
  | layer y =>
    have hname : PlainText "Layer" := by decide
    have hy := faithful_int32 y
    refine ⟨?_, ⟨_, _, rfl, by simp⟩, fun rest => ?_⟩
    · have hkind : Legible [.text "Layer"] := .singleton hname
      exact Legible.nil.append (m := .openRecord) <| hkind.append (m := .colon) <|
        hy.legible.append (m := .closeRecord) .nil
    · obtain ⟨hlt, hread⟩ := hy.takes.exists_eq (.closeRecord :: rest)
      have htokens : filter.write (.layer y) ++ rest =
          .openRecord :: .text "Layer" :: .colon :: (int32.write y ++ .closeRecord :: rest) := by
        simp [filter]
      rw [htokens]
      simp +decide only [filter, readFilter, bind, Except.bind, Reader.text, Reader.punctuation,
        filterContent, hread, if_true, if_false]
      rfl

/-! ## Values with floats -/

/-- A vector is read back if its three floats are. -/
theorem faithful_vec3 {v : Vec3} (h : ∀ x ∈ v.floats, float32.Faithful x) : vec3.Faithful v := by
  simp only [Vec3.floats, List.forall_mem_cons] at h
  obtain ⟨hx, hy, hz, -⟩ := h
  refine Faithful.via ?_ ?_
  · exact hx.triple hy hz
  · rfl

/-- A sphere is read back if its floats are. -/
theorem faithful_sphere {s : Sphere} (h : ∀ x ∈ s.floats, float32.Faithful x) :
    sphere.Faithful s := by
  simp only [Sphere.floats, List.forall_mem_append, List.forall_mem_cons] at h
  obtain ⟨hcenter, hradius, -⟩ := h
  exact RecordForm.faithful_codec
    (.cons ((faithful_vec3 hcenter).field (by decide)) <|
      .cons (hradius.field (by decide)) .nil) (by decide) rfl

/-- A camera is read back if its floats are. -/
theorem faithful_camera {c : Camera} (h : ∀ x ∈ c.floats, float32.Faithful x) :
    camera.Faithful c := by
  simp only [Camera.floats, List.forall_mem_append, List.forall_mem_cons] at h
  obtain ⟨⟨⟨hposition, hfront⟩, hup⟩, hfov, hratio, hnear, hfar, -⟩ := h
  exact RecordForm.faithful_codec
    (.cons ((faithful_vec3 hposition).field (by decide)) <|
      .cons ((faithful_vec3 hfront).field (by decide)) <|
      .cons ((faithful_vec3 hup).field (by decide)) <|
      .cons (hfov.field (by decide)) <| .cons (hratio.field (by decide)) <|
      .cons (hnear.field (by decide)) <| .cons (hfar.field (by decide)) .nil) (by decide) rfl

/-- Nothing and a float are written differently. -/
theorem faithful_factor {k : Option Float32} (h : ∀ x ∈ k.toList, float32.Faithful x) :
    float32.nullable.Faithful k := by
  cases k with
  | none => exact faithful_nullable_none
  | some x =>
    have hx : float32.Faithful x := h x (by simp)
    exact hx.nullable ⟨_, _, if_pos (isFinite_of_faithful hx), by simp⟩

/-- A query is read back if its floats are, with a factor or without one. -/
theorem faithful_nodeQuery {q : NodeQuery} (h : ∀ x ∈ q.floats, float32.Faithful x) :
    nodeQuery.Faithful q := by
  simp only [NodeQuery.floats, List.forall_mem_cons] at h
  exact RecordForm.faithful_codec
    (.cons (h.1.field (by decide)) <| .cons ((faithful_factor h.2).field (by decide)) .nil)
    (by decide) rfl

/-- The settings of a terrain are read back if their floats are. -/
theorem faithful_terrainSettings {s : TerrainSettings} (h : ∀ x ∈ s.floats, float32.Faithful x) :
    terrainSettings.Faithful s := by
  simp only [TerrainSettings.floats, List.forall_mem_cons] at h
  obtain ⟨hheight, hamplitude, hscale, -⟩ := h
  exact RecordForm.faithful_codec
    (.cons ((faithful_uint64 s.seed).field (by decide)) <| .cons (hheight.field (by decide)) <|
      .cons (hamplitude.field (by decide)) <| .cons (hscale.field (by decide)) .nil)
    (by decide) rfl

/-- A configuration is read back if its floats are. -/
theorem faithful_config {c : Config} (h : ∀ x ∈ c.floats, float32.Faithful x) :
    config.Faithful c := by
  simp only [Config.floats, List.forall_mem_cons] at h
  exact RecordForm.faithful_codec
    (.cons ((faithful_uint32 c.rootLevel).field (by decide)) <| .cons (h.1.field (by decide)) <|
      .cons ((faithful_factor h.2).field (by decide)) <|
      .cons ((faithful_uint64 c.pollMilliseconds).field (by decide)) .nil) (by decide) rfl

/-- What is written is read back as it was, to the bits of its floats, if these are finite. Of the
number format it is asked that a finite float is read back from a text of its own; that may be
known of some floats only, and then it goes for the values with these. -/
theorem reads_back {kept : Set Float32}
    (hformat : ∀ x ∈ kept, x.isFinite = true → float32.ReadsBack x) :
    (∀ c : Coord, coord.ReadsBack c) ∧
    (∀ n : Node, node.ReadsBack n) ∧
    (∀ f : ChunkFilter, filter.ReadsBack f) ∧
    (∀ s : Sphere, (∀ x ∈ s.floats, x ∈ kept ∧ x.isFinite = true) → sphere.ReadsBack s) ∧
    (∀ c : Camera, (∀ x ∈ c.floats, x ∈ kept ∧ x.isFinite = true) → camera.ReadsBack c) ∧
    (∀ q : NodeQuery, (∀ x ∈ q.floats, x ∈ kept ∧ x.isFinite = true) → nodeQuery.ReadsBack q) ∧
    (∀ s : TerrainSettings, (∀ x ∈ s.floats, x ∈ kept ∧ x.isFinite = true) →
      terrainSettings.ReadsBack s) ∧
    (∀ c : Config, (∀ x ∈ c.floats, x ∈ kept ∧ x.isFinite = true) → config.ReadsBack c) := by
  have hfloat {xs : List Float32} (hxs : ∀ x ∈ xs, x ∈ kept ∧ x.isFinite = true) (x : Float32)
      (hx : x ∈ xs) : float32.Faithful x := by
    obtain ⟨hkept, hfinite⟩ := hxs x hx
    exact faithful_float32 hfinite (hformat x hkept hfinite)
  exact ⟨fun c => (faithful_coord c).readsBack, fun n => (faithful_node n).readsBack,
    fun f => (faithful_filter f).readsBack, fun s hs => (faithful_sphere (hfloat hs)).readsBack,
    fun c hc => (faithful_camera (hfloat hc)).readsBack,
    fun q hq => (faithful_nodeQuery (hfloat hq)).readsBack,
    fun s hs => (faithful_terrainSettings (hfloat hs)).readsBack,
    fun c hc => (faithful_config (hfloat hc)).readsBack⟩

/-- Floats from the ends of their range and of the two notations. -/
def extremes : List Float32 :=
  [3.4028235e38, -3.4028235e38, 1e-45, 1.1754944e-38, -0.0, 0.1, 1e-7, 16777216, 1e13]

/-- Values with extreme words and floats are read back. -/
theorem reads_back_extremes :
    (∀ x ∈ extremes, x.isFinite = true ∧ float32.ReadsBack x) ∧
    coord.ReadsBack ⟨-0x80000000, 0x7fffffff, 0⟩ ∧
    node.ReadsBack ⟨⟨0, -1, -0x80000000⟩, 0xffffffff⟩ ∧
    filter.ReadsBack .all ∧ filter.ReadsBack (.layer (-0x80000000)) ∧
    sphere.ReadsBack ⟨⟨-0.0, 1e-45, 1e13⟩, 0.1⟩ ∧
    camera.ReadsBack ⟨⟨3.4028235e38, -3.4028235e38, -0.0⟩, ⟨0.1, 0.1, 1e-7⟩, ⟨1e-45, 1e13, 1e13⟩,
      1.1754944e-38, 16777216, 1e-45, 3.4028235e38⟩ ∧
    nodeQuery.ReadsBack ⟨3.4028235e38, none⟩ ∧ nodeQuery.ReadsBack ⟨0.1, some 1e-45⟩ ∧
    terrainSettings.ReadsBack ⟨0xffffffffffffffff, -0.0, 1e-7, 16777216⟩ ∧
    config.ReadsBack ⟨0xffffffff, 1e13, some 0.1, 0xffffffffffffffff⟩ := by
  have hextremes : ∀ x ∈ extremes, x.isFinite = true ∧ float32.ReadsBack x := by
    unfold ReadsBack
    decide +kernel
  have hkept {xs : List Float32} (h : ∀ x ∈ xs, ∃ y ∈ extremes, x = y) (x : Float32) (hx : x ∈ xs) :
      x ∈ {x | x ∈ extremes} ∧ x.isFinite = true := by
    obtain ⟨y, hy, rfl⟩ := h x hx
    exact ⟨hy, (hextremes x hy).1⟩
  obtain ⟨hcoord, hnode, hfilter, hsphere, hcamera, hquery, hsettings, hconfig⟩ :=
    @reads_back {x | x ∈ extremes} fun x hx _ => (hextremes x hx).2
  exact ⟨hextremes, hcoord _, hnode _, hfilter _, hfilter _,
    hsphere _ (hkept (by decide +kernel)), hcamera _ (hkept (by decide +kernel)),
    hquery _ (hkept (by decide +kernel)), hquery _ (hkept (by decide +kernel)),
    hsettings _ (hkept (by decide +kernel)), hconfig _ (hkept (by decide +kernel))⟩

example : config.text {} = "\x7b\"root_level\":8,\"max_radius\":12.0,\"lod_factor\":null," ++
    "\"poll_interval_ms\":250\x7d" := by
  decide +kernel

end Json.Forms
end VoxelStream
