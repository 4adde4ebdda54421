import VoxelStream.Json.Number

/-!
# Reading values

A reader takes a value from the front of a list of tokens and returns what is left, which is always
shorter. The readers here are those of single values and of lists; `skip` passes over a value of
any form that nobody asks for. The first token that does not fit decides how reading fails.
-/

namespace VoxelStream.Json

/-- A value read from `ts`, and the tokens after it. -/
abbrev Parsed (α : Type) (ts : List Token) : Type :=
  α × { rest : List Token // rest.length < ts.length }

/-- What is read after a token is read from there on, too. -/
def Parsed.behind {α : Type} {ts : List Token} (t : Token) (p : Parsed α ts) :
    Parsed α (t :: ts) := (p.1, ⟨p.2.1, Nat.lt_succ_of_lt p.2.2⟩)

/-- Takes a value from the front of a list of tokens. -/
abbrev Reader (α : Type) : Type := (ts : List Token) → Except Cause (Parsed α ts)

/-- How reading fails at tokens that do not start a value of the wanted form. What is wrong with
the value itself comes before that it is not wanted. -/
def refusal : List Token → Cause
  | [] => .truncated
  | .number n :: _ =>
    match Number.ofNumeral n with
    | .ok _ => .mistyped
    | .error f => f
  | .brokenText f _ :: _ => f
  | .broken f _ :: _ => f
  | .null :: _ | .bool _ :: _ | .text _ :: _ | .openList :: _ | .openRecord :: _ => .mistyped
  | .closeList :: _ | .closeRecord :: _ | .comma :: _ | .colon :: _ => .malformed

/-- How reading fails where only one kind of token can stand. -/
def misplaced : List Token → Cause
  | [] => .truncated
  | _ => .malformed

namespace Reader

/-- A number that `accept` makes something of. -/
def number {α : Type} (accept : Number → Option α) : Reader α
  | .number n :: rest =>
    match Number.ofNumeral n with
    | .error f => .error f
    | .ok v =>
      match accept v with
      | some a => .ok (a, ⟨rest, by simp⟩)
      | none => .error .mistyped
  | ts => .error (refusal ts)

/-- A null, or a value. -/
def nullable {α : Type} (r : Reader α) : Reader (Option α)
  | .null :: rest => .ok (none, ⟨rest, by simp⟩)
  | ts =>
    match r ts with
    | .ok (a, rest) => .ok (some a, rest)
    | .error f => .error f

/-- A null that stands for nothing. -/
def unit : Reader Unit
  | .null :: rest => .ok ((), ⟨rest, by simp⟩)
  | ts => .error (refusal ts)

/-- A string, where nothing else can stand. -/
def text : Reader String
  | .text s :: rest => .ok (s, ⟨rest, by simp⟩)
  | .brokenText f _ :: _ => .error f
  | ts => .error (misplaced ts)

/-- One token of punctuation. -/
def punctuation (mark : Token) : Reader Unit
  | t :: rest => if t = mark then .ok ((), ⟨rest, by simp⟩) else .error .malformed
  | [] => .error .truncated

/-- The next element of a list, the first one or one after a comma; nothing at the list's end, which
stays. -/
def element {α : Type} (first : Bool) (r : Reader α) (ts : List Token) :
    Except Cause (Option (Parsed α ts)) :=
  match ts with
  | [] => .error .truncated
  | .closeList :: _ => .ok none
  | t :: rest =>
    if first then some <$> r (t :: rest)
    else if t ≠ .comma then .error .malformed
    else
      match rest with
      | [] => .error .truncated
      | .closeList :: _ => .error .malformed
      | rest =>
        match r rest with
        | .ok (a, ⟨after, h⟩) => .ok (some (a, ⟨after, by simp only [List.length_cons]; omega⟩))
        | .error f => .error f

/-- The next element of a list that must have one. -/
def required {α : Type} (first : Bool) (r : Reader α) : Reader α := fun ts =>
  match element first r ts with
  | .ok (some found) => .ok found
  | .ok none => .error .mistyped
  | .error f => .error f

/-- A list of exactly three elements. -/
def triple {α : Type} (r : Reader α) : Reader (α × α × α)
  | .openList :: ts => do
    let (a, ⟨ts₁, _⟩) ← required true r ts
    let (b, ⟨ts₂, _⟩) ← required false r ts₁
    let (c, ⟨ts₃, _⟩) ← required false r ts₂
    let (_, ⟨ts₄, _⟩) ← punctuation .closeList ts₃
    return ((a, b, c), ⟨ts₄, by simp only [List.length_cons]; omega⟩)
  | ts => .error (refusal ts)

end Reader

/-! ## Skipping -/

/-- What a skipped value stands in. -/
inductive Frame where
  | list
  | record
deriving DecidableEq, Repr

/-- What can come next while a value is skipped. -/
inductive Stage where
  /-- A value. -/
  | value
  /-- A value or the end of the list. -/
  | item
  /-- A name or the end of the record. -/
  | member
  /-- A name. -/
  | name
  /-- A colon. -/
  | colon
  /-- A comma or the end of the list or record. -/
  | after
deriving DecidableEq, Repr

/-- What a token does to a value that is being skipped. -/
inductive Progress where
  /-- Something else has to come, inside of these frames. -/
  | more (stage : Stage) (frames : List Frame)
  | done
  | failed (f : Cause)

namespace Progress

/-- A value is complete, inside of these frames. -/
def completed : List Frame → Progress
  | [] => .done
  | frames => .more .after frames

/-- Where a value has to start. -/
def atValue (frames : List Frame) : Token → Progress
  | .null | .bool _ | .number _ | .text _ | .brokenText _ none => completed frames
  | .brokenText _ (some f) | .broken _ f => .failed f
  | .openList => .more .item (.list :: frames)
  | .openRecord => .more .member (.record :: frames)
  | _ => .failed .malformed

/-- Where a name has to start. -/
def atName (frames : List Frame) : Token → Progress
  | .text _ | .brokenText _ none => .more .colon frames
  | .brokenText _ (some f) => .failed f
  | _ => .failed .malformed

/-- What a token does at a stage. -/
def step (stage : Stage) (frames : List Frame) (t : Token) : Progress :=
  match stage, frames, t with
  | .item, .list :: outer, .closeList => completed outer
  | .value, _, t | .item, _, t => atValue frames t
  | .member, .record :: outer, .closeRecord => completed outer
  | .name, _, t | .member, _, t => atName frames t
  | .colon, _, .colon => .more .value frames
  | .after, .list :: _, .comma => .more .value frames
  | .after, .record :: _, .comma => .more .name frames
  | .after, .list :: outer, .closeList => completed outer
  | .after, .record :: outer, .closeRecord => completed outer
  | _, _, _ => .failed .malformed

end Progress

/-- The tokens after the end of a value that is being skipped. -/
def skipFrom (stage : Stage) (frames : List Frame) :
    (ts : List Token) → Except Cause { rest : List Token // rest.length < ts.length }
  | [] => .error .truncated
  | t :: ts =>
    match Progress.step stage frames t with
    | .failed f => .error f
    | .done => .ok ⟨ts, by simp⟩
    | .more stage frames =>
      match skipFrom stage frames ts with
      | .ok ⟨rest, h⟩ => .ok ⟨rest, Nat.lt_succ_of_lt h⟩
      | .error f => .error f

/-- The tokens after a value. -/
def skip (ts : List Token) : Except Cause { rest : List Token // rest.length < ts.length } :=
  skipFrom .value [] ts

end VoxelStream.Json
