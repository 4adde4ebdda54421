import VoxelStream.CommandLine.Outcome

/-!
# The program

Reads the file that the arguments name, if they do, and prints what the command says.
-/

namespace VoxelStream

open VoxelStream.CommandLine

/-- What there is to read under a path. -/
def readContents (path : String) : IO FileContents := do
  try
    return .bytes (← IO.FS.readBinFile path)
  catch
    | .noFileOrDirectory .. => return .notFound
    | .inappropriateType .. => return .unreadable
    | e => return .closed (toString e)

/-- The file that a command reads. -/
def CommandLine.Command.file? : Command → Option String
  | .info o => o.file
  | .query o => o.config.file
  | .run o => o.config.file

/-- Runs the program, prints what it says and gives its exit code. -/
def CommandLine.exec (args : List String) : IO UInt32 := do
  let contents ← match (Command.read args).bind Command.file? with
    | some path => readContents path
    | none => pure .notFound
  let outcome := program (fun _ => contents) args
  for line in outcome.lines do
    IO.println line
  if let some complaint := outcome.complaint? then
    IO.eprintln complaint
  return outcome.code

end VoxelStream

def main (args : List String) : IO UInt32 := VoxelStream.CommandLine.exec args
