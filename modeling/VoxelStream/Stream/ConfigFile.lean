import VoxelStream.Json.Forms

/-!
# Configuration files

A configuration file holds one JSON object. Fields that it lacks have their default values.
-/

namespace VoxelStream

/-- What there is to read of a file. -/
inductive FileContents where
  /-- It cannot be opened. -/
  | closed (reason : String)
  /-- It can be opened but not read, as a directory. -/
  | unreadable
  | bytes (data : ByteArray)

/-- Why a file that is not there cannot be opened. -/
def FileContents.notFound : FileContents := .closed "No such file or directory (os error 2)"

namespace Config

/-- The configuration that a file holds. -/
def read (file : FileContents) : Except ConfigError Config :=
  match file with
  | .closed reason => .error (.io reason)
  | .unreadable => .error (.json .unreadable)
  | .bytes data => (Json.Forms.config.parse (Json.unitsOfBytes data)).mapError .json

/-- The configuration that a file holds, if it is usable. -/
def load (file : FileContents) : Except ConfigError Config := do
  let c ← read file
  let _ ← c.validate
  return c

end Config
end VoxelStream
