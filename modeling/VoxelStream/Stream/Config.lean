import VoxelStream.Decimal.Layout
import VoxelStream.Json.Token
import VoxelStream.Octree.Query

/-!
# Stream configurations

How deep the octree is, what is streamed, and how long the worker waits. `Config.validate` checks
one thing after the other and names the first that is wrong; `validate_eq_ok_iff` says when nothing
is.
-/

namespace VoxelStream

/-- Tree depth, query range and pacing of the worker. -/
structure Config where
  rootLevel : UInt32 := 8
  /-- The radius in chunks around the viewer within which nodes are streamed. -/
  maxRadius : Float32 := 12
  /-- The ratio of distance to size from which on a node is kept whole; leaves only if there is
  none. -/
  lodFactor : Option Float32 := none
  /-- The number of milliseconds that the worker sleeps when nothing changed. -/
  pollMilliseconds : UInt64 := 250
deriving DecidableEq

/-- Why there is no configuration, or why it is not usable. -/
inductive ConfigError where
  /-- The file cannot be opened. -/
  | io (reason : String)
  /-- The file holds no configuration. -/
  | json (cause : Json.Cause)
  | tree (e : TreeError)
  | invalidRadius (radius : Float32)
  | invalidLodFactor (factor : Float32)
  | zeroPollInterval
deriving DecidableEq

/-- What the error says to a user. -/
def ConfigError.message : ConfigError → String
  | .io reason => s!"IO error: {reason}"
  | .json _ => "JSON error"
  | .tree e => e.message
  | .invalidRadius r => s!"max_radius must be positive, got {Decimal.plainLayout.text r}"
  | .invalidLodFactor k => s!"lod_factor must be positive, got {Decimal.plainLayout.text k}"
  | .zeroPollInterval => "poll_interval_ms must be non-zero"

namespace Config

/-- Positive and not a NaN. -/
def isPositive (x : Float32) : Bool := !x.isNaN && !(x ≤ 0)

/-- Checks the depth, the radius, the factor and the interval, in this order, and gives the tree. -/
def validate (c : Config) : Except ConfigError Tree :=
  match Tree.ofLevel c.rootLevel with
  | .error e => .error (.tree e)
  | .ok tree =>
    if !isPositive c.maxRadius then .error (.invalidRadius c.maxRadius)
    else
      match c.lodFactor.filter (!isPositive ·) with
      | some k => .error (.invalidLodFactor k)
      | none => if c.pollMilliseconds = 0 then .error .zeroPollInterval else .ok tree

/-- What is queried for. -/
def query (c : Config) : NodeQuery := ⟨c.maxRadius, c.lodFactor⟩

/-- The whole seconds of the poll interval. -/
def pollSeconds (c : Config) : Nat := c.pollMilliseconds.toNat / 1000

/-- The nanoseconds of the poll interval past its whole seconds. -/
def pollNanoseconds (c : Config) : Nat := c.pollMilliseconds.toNat % 1000 * 1000000

/-- A configuration is valid if it names a tree and all other values are in their ranges. -/
theorem validate_eq_ok_iff {c : Config} {tree : Tree} : c.validate = .ok tree ↔
    Tree.ofLevel c.rootLevel = .ok tree ∧ isPositive c.maxRadius ∧
      (∀ k ∈ c.lodFactor, isPositive k) ∧ c.pollMilliseconds ≠ 0 := by
  unfold validate
  cases Tree.ofLevel c.rootLevel with
  | error e => simp
  | ok t =>
    cases hr : isPositive c.maxRadius with
    | false => simp
    | true =>
      cases hk : c.lodFactor with
      | none => by_cases hp : c.pollMilliseconds = 0 <;> simp [hp]
      | some k =>
        cases hpos : isPositive k <;> by_cases hp : c.pollMilliseconds = 0 <;>
          simp [Option.filter, hpos, hp]

end Config
end VoxelStream
