import VoxelStream.CommandLine.Walk
import VoxelStream.Version

/-!
# Reports

The lines that the commands print. A report says nothing that hangs on how fast the program ran: no
measured times, and not how often the worker passed.
-/

namespace VoxelStream.CommandLine

/-- A time as people read it: seconds from one second on, without zeros at the end. -/
def durationText (milliseconds : Nat) : String :=
  if milliseconds < 1000 then s!"{milliseconds}ms"
  else
    let rest := milliseconds % 1000
    let fraction := [rest / 100, rest / 10 % 10, rest % 10].reverse.dropWhile (· = 0)
    let fraction := if fraction.isEmpty then ""
      else "." ++ String.join (fraction.reverse.map toString)
    s!"{milliseconds / 1000}{fraction}s"

/-- A value that may be absent, in the notation of values. -/
def optionText (x : Option Float32) : String :=
  match x with
  | none => "None"
  | some x => s!"Some({Decimal.descriptiveLayout.text x})"

/-- Counts by level, in the notation of values. -/
def countsText (counts : List (UInt32 × Nat)) : String :=
  "\x7b" ++ ", ".intercalate (counts.map fun (level, n) => s!"{level.toNat}: {n}") ++ "\x7d"

/-- What the program would stream with. -/
def infoLines (c : Config) : List String :=
  let parts := ["kernel", "storage", "render", "stream"]
  Version.line "cli" :: parts.map (fun p => "  " ++ Version.line p) ++
    [s!"tree: root_level={c.rootLevel.toNat} (root spans {Nat.pow 2 c.rootLevel.toNat} chunks)",
      s!"stream: max_radius={Decimal.plainLayout.text c.maxRadius} " ++
        s!"lod_factor={optionText c.lodFactor} poll={durationText c.pollMilliseconds.toNat}"]

/-- How many nodes a query found, in all and by level. -/
def queryLines (found : NodeSet) : List String :=
  s!"Query: {found.size}" ::
    found.levelCounts.map fun (level, n) => s!"  level {level.toNat}: {n}"

/-- What a walk streamed and what it drew last. -/
def runLines (frames : UInt32) (w : Walk) : List String :=
  let stats := w.world.stats
  [s!"Session: frames={frames.toNat}, added={stats.added}, removed={stats.removed}, " ++
      s!"failures={stats.failures}",
    s!"Cache: chunks={stats.cached}, hits={stats.cache.hits}, misses={stats.cache.misses}",
    s!"Retained per LOD: {countsText w.world.sink.lodCounts}"] ++
  match w.recorder.summaryLines with
  | [] => []
  | first :: rest => s!"Last frame: {first}" :: rest

end VoxelStream.CommandLine
