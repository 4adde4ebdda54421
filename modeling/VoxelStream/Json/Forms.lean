import VoxelStream.Json.Codec
import VoxelStream.Render.Frame
import VoxelStream.Stream.Config
import VoxelStream.Terrain

/-!
# The written forms of the library's values

Vectors are lists of three numbers. Everything else with parts is a record; only settings and
configurations have defaults for parts that are missing, and only there may a list end early. A
filter is the name of its kind, or an object of one member with its kind and content.
-/

namespace VoxelStream.Json.Forms

def vec3 : Codec Vec3 :=
  (Codec.float32.triple).via (fun (x, y, z) => ⟨x, y, z⟩) fun v => (v.x, v.y, v.z)

def coord : Codec Coord := RecordForm.codec {
  base := .zero
  fields := [
    Codec.int32.field "x" (·.x) (fun v c => { c with x := v }) false,
    Codec.int32.field "y" (·.y) (fun v c => { c with y := v }) false,
    Codec.int32.field "z" (·.z) (fun v c => { c with z := v }) false]
  partialList := false }

def sphere : Codec Sphere := RecordForm.codec {
  base := default
  fields := [
    vec3.field "center" (·.center) (fun v s => { s with center := v }) false,
    Codec.float32.field "radius" (·.radius) (fun v s => { s with radius := v }) false]
  partialList := false }

def camera : Codec Camera := RecordForm.codec {
  base := {}
  fields := [
    vec3.field "position" (·.position) (fun v c => { c with position := v }) false,
    vec3.field "front" (·.front) (fun v c => { c with front := v }) false,
    vec3.field "up" (·.up) (fun v c => { c with up := v }) false,
    Codec.float32.field "fov_y" (·.fovY) (fun v c => { c with fovY := v }) false,
    Codec.float32.field "ratio" (·.ratio) (fun v c => { c with ratio := v }) false,
    Codec.float32.field "near" (·.near) (fun v c => { c with near := v }) false,
    Codec.float32.field "far" (·.far) (fun v c => { c with far := v }) false]
  partialList := false }

def node : Codec Node := RecordForm.codec {
  base := default
  fields := [
    coord.field "origin" (·.origin) (fun v n => { n with origin := v }) false,
    Codec.uint32.field "level" (·.level) (fun v n => { n with level := v }) false]
  partialList := false }

def nodeQuery : Codec NodeQuery := RecordForm.codec {
  base := ⟨0, none⟩
  fields := [
    Codec.float32.field "max_radius" (·.maxRadius) (fun v q => { q with maxRadius := v }) false,
    Codec.float32.nullable.field "lod_factor" (·.lodFactor)
      (fun v q => { q with lodFactor := v }) true]
  partialList := false }

def terrainSettings : Codec TerrainSettings := RecordForm.codec {
  base := {}
  fields := [
    Codec.uint64.field "seed" (·.seed) (fun v s => { s with seed := v }) true,
    Codec.float32.field "base_height" (·.baseHeight) (fun v s => { s with baseHeight := v }) true,
    Codec.float32.field "amplitude" (·.amplitude) (fun v s => { s with amplitude := v }) true,
    Codec.float32.field "scale" (·.scale) (fun v s => { s with scale := v }) true]
  partialList := true }

def config : Codec Config := RecordForm.codec {
  base := {}
  fields := [
    Codec.uint32.field "root_level" (·.rootLevel) (fun v c => { c with rootLevel := v }) true,
    Codec.float32.field "max_radius" (·.maxRadius) (fun v c => { c with maxRadius := v }) true,
    Codec.float32.nullable.field "lod_factor" (·.lodFactor)
      (fun v c => { c with lodFactor := v }) true,
    Codec.uint64.field "poll_interval_ms" (·.pollMilliseconds)
      (fun v c => { c with pollMilliseconds := v }) true]
  partialList := true }

/-- The content of a filter whose kind is named by a member. -/
def filterContent (kind : String) : Reader ChunkFilter := fun ts =>
  if kind = "All" then
    match Reader.unit ts with
    | .ok ((), rest) => .ok (.all, rest)
    | .error f => .error f
  else
    match Codec.int32.read ts with
    | .ok (y, rest) => .ok (.layer y, rest)
    | .error f => .error f

/-- A filter. Its kind is judged before its content is looked at. -/
def readFilter : Reader ChunkFilter
  | .openRecord :: ts => do
    let (kind, ⟨ts₁, _⟩) ← Reader.text ts
    if kind ≠ "All" ∧ kind ≠ "Layer" then .error .mistyped
    else
      let ((), ⟨ts₂, _⟩) ← Reader.punctuation .colon ts₁
      let (filter, ⟨ts₃, _⟩) ← filterContent kind ts₂
      let ((), ⟨ts₄, _⟩) ← Reader.punctuation .closeRecord ts₃
      return (filter, ⟨ts₄, by simp only [List.length_cons]; omega⟩)
  | ts => do
    let (kind, rest) ← Reader.text ts
    if kind = "All" then return (.all, rest) else .error .mistyped

def filter : Codec ChunkFilter where
  read := readFilter
  write
    | .all => [.text "All"]
    | .layer y => .openRecord :: .text "Layer" :: .colon :: Codec.int32.write y ++ [.closeRecord]

end VoxelStream.Json.Forms
