/-!
# Versions

What the program and its parts say about themselves.
-/

namespace VoxelStream.Version

/-- The version that all parts share. -/
def number : String := "0.1.0"

/-- The name and version of a part. -/
def line (part : String) : String := s!"chunkworld-{part} v{number}"

/-- The parts of the library, each after those it builds on. -/
def parts : List String := ["common", "kernel", "storage", "render", "stream"]

end VoxelStream.Version
