import VoxelStream.CommandLine.Options
import VoxelStream.Decimal.Reading
import VoxelStream.Stream.ConfigFile

/-!
# Commands

The program prints what it would stream with (`info`), makes one query (`query`) or walks through
the world while it streams (`run`). All commands take the options of a configuration: a file, and
values that override it. Arguments that are no command have no reading.
-/

namespace VoxelStream.CommandLine

open VoxelStream.Decimal (readInt readNat readFloat32)

/-! ## Values -/

/-- A path; it may not be empty. -/
def readPath (s : String) : Option String := if s.isEmpty then none else some s

/-- A word of 32 bits without sign; zero may have one. -/
def readWord32 (s : String) : Option UInt32 := do
  let n ← readInt s
  if 0 ≤ n ∧ n < 0x100000000 then some (.ofNat n.toNat) else none

/-- A word of 64 bits without sign. -/
def readWord64 (s : String) : Option UInt64 := do
  let n ← readNat s
  if n < UInt64.size then some (.ofNat n) else none

/-- A word of 32 bits with sign. -/
def readSigned32 (s : String) : Option Int32 := do
  let n ← readInt s
  if Word.InRange n then some (.ofInt n) else none

/-! ## Configurations -/

/-- Where a configuration comes from: a file or the defaults, and what overrides them. -/
structure ConfigOptions where
  file : Option String := none
  rootLevel : Option UInt32 := none
  maxRadius : Option Float32 := none
  lodFactor : Option Float32 := none
deriving DecidableEq

namespace ConfigOptions

def forms : List OptionForm :=
  [{ name := "config", letter := some 'c' }, { name := "root-level" }, { name := "radius" },
    { name := "lod-factor" }]

def ofGiven (g : Given) : Option ConfigOptions := do
  return ⟨← g.read "config" readPath, ← g.read "root-level" readWord32,
    ← g.read "radius" readFloat32, ← g.read "lod-factor" readFloat32⟩

/-- A configuration with the values given in place of its own. -/
def override (o : ConfigOptions) (c : Config) : Config :=
  { c with
    rootLevel := o.rootLevel.getD c.rootLevel
    maxRadius := o.maxRadius.getD c.maxRadius
    lodFactor := o.lodFactor <|> c.lodFactor }

/-- The usable configuration that the options describe. A file must be usable by itself. -/
def resolve (o : ConfigOptions) (files : String → FileContents) : Except ConfigError Config := do
  let base ← match o.file with
    | some path => Config.load (files path)
    | none => .ok {}
  let c := o.override base
  let _ ← c.validate
  return c

end ConfigOptions

/-! ## The commands -/

/-- The options of a query. -/
structure QueryOptions where
  config : ConfigOptions
  /-- The distance of the far plane. -/
  far : Float32
deriving DecidableEq

/-- The options of a walk. -/
structure RunOptions where
  config : ConfigOptions
  frames : UInt32
  /-- The distance of a step. -/
  speed : Float32
  /-- The time from one frame to the next. -/
  frameMilliseconds : UInt64
  seed : UInt64
  /-- The only layer drawn, if there is one. -/
  layer : Option Int32
deriving DecidableEq

/-- What the program is asked to do. -/
inductive Command where
  | info (config : ConfigOptions)
  | query (o : QueryOptions)
  | run (o : RunOptions)
deriving DecidableEq

namespace QueryOptions

def forms : List OptionForm := ConfigOptions.forms ++ [{ name := "far" }]

def ofGiven (g : Given) : Option QueryOptions := do
  return ⟨← ConfigOptions.ofGiven g, (← g.read "far" readFloat32).getD 30⟩

end QueryOptions

namespace RunOptions

def forms : List OptionForm :=
  ConfigOptions.forms ++
    [{ name := "frames", letter := some 'f' }, { name := "speed" }, { name := "frame-ms" },
      { name := "seed", letter := some 's' }, { name := "layer", takesAny := true }]

def ofGiven (g : Given) : Option RunOptions := do
  return {
    config := ← ConfigOptions.ofGiven g
    frames := (← g.read "frames" readWord32).getD 120
    speed := (← g.read "speed" readFloat32).getD 0.1
    frameMilliseconds := (← g.read "frame-ms" readWord64).getD 16
    seed := (← g.read "seed" readWord64).getD 42
    layer := ← g.read "layer" readSigned32 }

end RunOptions

namespace Command

/-- Reads a command that the first argument names. -/
def ofArguments : List String → Option Command
  | "info" :: args => do
    return .info (← ConfigOptions.ofGiven (← readOptions ConfigOptions.forms [] args))
  | "query" :: args => do
    return .query (← QueryOptions.ofGiven (← readOptions QueryOptions.forms [] args))
  | "run" :: args => do
    return .run (← RunOptions.ofGiven (← readOptions RunOptions.forms [] args))
  | _ => none

/-- Reads the arguments of the program. Before the command, and once, a flag may ask for more
messages on the way. -/
def read : List String → Option Command
  | "-v" :: args | "--verbose" :: args => ofArguments args
  | args => ofArguments args

end Command
end VoxelStream.CommandLine
