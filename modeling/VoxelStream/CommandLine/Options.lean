/-!
# Options

After its name, a command takes options, each with a value and at most once. An option is given by
its long name or by its letter. The value is the next argument, or it stands in the same one: after
a long name behind an equals sign, after a letter at once or behind an equals sign.
-/

namespace VoxelStream.CommandLine

/-- How an option can be given. -/
structure OptionForm where
  name : String
  letter : Option Char := none
  /-- Whether the next argument is the value even if it looks like an option. -/
  takesAny : Bool := false
deriving DecidableEq, Repr

/-- Options with their values, by their long names. -/
abbrev Given : Type := List (String × String)

/-- Whether an argument cannot be the value of an option before it. -/
def looksLikeOption (arg : String) : Bool := arg.startsWith "-" && arg ≠ "-"

/-- What stands before and after the first equals sign, if there is one. -/
def splitEquals (cs : List Char) : List Char × Option (List Char) :=
  match cs.span (· ≠ '=') with
  | (before, []) => (before, none)
  | (before, _ :: after) => (before, some after)

/-- The option that an argument starts, and its value if that is in the same argument. -/
def readForm (forms : List OptionForm) (arg : String) : Option (OptionForm × Option String) :=
  match arg.toList with
  | '-' :: '-' :: cs =>
    let (name, v) := splitEquals cs
    (forms.find? (·.name = .ofList name)).map (·, v.map .ofList)
  | '-' :: c :: cs =>
    let v := match cs with
      | [] => none
      | '=' :: cs => some (.ofList cs)
      | cs => some (.ofList cs)
    (forms.find? (·.letter = some c)).map (·, v)
  | _ => none

/-- Reads the arguments after those that gave `given`. Two dashes end the options, and nothing may
come after that. -/
def readOptions (forms : List OptionForm) (given : Given) : List String → Option Given
  | [] => some given
  | ["--"] => some given
  | arg :: rest =>
    match readForm forms arg with
    | none => none
    | some (form, v) =>
      if (given.lookup form.name).isSome then none
      else
        match v, rest with
        | some v, rest => readOptions forms ((form.name, v) :: given) rest
        | none, [] => none
        | none, v :: rest =>
          if looksLikeOption v ∧ !form.takesAny then none
          else readOptions forms ((form.name, v) :: given) rest

/-- The value of an option, read, if the option is given; there is none if it cannot be read. -/
def Given.read {α : Type} (g : Given) (name : String) (reader : String → Option α) :
    Option (Option α) :=
  match g.lookup name with
  | none => some none
  | some v => (reader v).map some

end VoxelStream.CommandLine
