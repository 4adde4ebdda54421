import VoxelStream.CommandLine.Report

/-!
# Outcomes

What the program does with its arguments: it prints lines, or it says why it cannot, or it refuses
the arguments. The exit code tells these apart.
-/

namespace VoxelStream.CommandLine

/-- How the program ends. -/
inductive Outcome where
  /-- It did what it was asked to and prints lines. -/
  | done (lines : List String)
  /-- What it was asked to do cannot be done. -/
  | failed (message : String)
  /-- The arguments are no command. -/
  | misused
  /-- A fault cut it short. -/
  | crashed (f : Fault)
deriving DecidableEq, Repr

/-- The exit code. -/
def Outcome.code : Outcome → UInt32
  | .done _ => 0
  | .failed _ => 1
  | .misused => 2
  | .crashed _ => 101

/-- The lines printed. -/
def Outcome.lines : Outcome → List String
  | .done lines => lines
  | _ => []

/-- What the program says about a failure. -/
def Outcome.complaint? : Outcome → Option String
  | .failed message => some s!"Error: {message}"
  | _ => none

/-! ## The program -/

/-- Does what a command asks for. -/
def Command.perform (files : String → FileContents) : Command → Outcome
  | .info o =>
    match o.resolve files with
    | .error e => .failed e.message
    | .ok c => .done (infoLines c)
  | .query o =>
    match o.config.resolve files with
    | .error e => .failed e.message
    | .ok c =>
      match Tree.ofLevel c.rootLevel with
      | .error e => .failed e.message
      | .ok tree =>
        let camera : Camera := { far := o.far }
        match tree.query camera.position camera.frustum c.query with
        | .error f => .crashed f
        | .ok found => .done (queryLines found)
  | .run o =>
    match o.config.resolve files with
    | .error e => .failed e.message
    | .ok c =>
      match Walk.ofOptions c o with
      | .error (.stream e) => .failed e.message
      | .error (.fault f) => .crashed f
      | .ok w => .done (runLines o.frames w)

/-- The program, with what there is to read under each path. -/
def program (files : String → FileContents) (args : List String) : Outcome :=
  match Command.read args with
  | some command => command.perform files
  | none => .misused

end VoxelStream.CommandLine
