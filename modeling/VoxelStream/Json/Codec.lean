import VoxelStream.Decimal.Layout
import VoxelStream.Json.Reader

/-!
# Written forms

A codec is how values of a type are written and read. A record is written as an object with its
fields in order. It is read from an object with the fields in any order, among others that are
skipped, or from a list of the values of its fields in order. A field that occurs twice is refused
before its second value is looked at.
-/

namespace VoxelStream.Json

open VoxelStream.Decimal (Numeral)

/-- The characters of a token as it is written. Strings are written for names only, which hold
nothing that has to be escaped; broken tokens are never written. -/
def Token.chars : Token → List Char
  | .openList => ['[']
  | .closeList => [']']
  | .openRecord => ['\x7b']
  | .closeRecord => ['\x7d']
  | .comma => [',']
  | .colon => [':']
  | .null => ['n', 'u', 'l', 'l']
  | .bool true => ['t', 'r', 'u', 'e']
  | .bool false => ['f', 'a', 'l', 's', 'e']
  | .number n => n.chars
  | .text s => '"' :: s.toList ++ ['"']
  | .brokenText _ _ | .broken _ _ => []

/-- How values of a type are read and written. -/
structure Codec (α : Type) where
  read : Reader α
  write : α → List Token

namespace Codec

/-- The value that a whole text holds. -/
def parse {α : Type} (c : Codec α) (units : List Char) : Except Cause α :=
  match c.read (scan units) with
  | .error f => .error f
  | .ok (a, ⟨[], _⟩) => .ok a
  | .ok (_, ⟨_ :: _, _⟩) => .error .malformed

/-- The compact text of a value. -/
def chars {α : Type} (c : Codec α) (a : α) : List Char := (c.write a).flatMap Token.chars

def text {α : Type} (c : Codec α) (a : α) : String := .ofList (c.chars a)

/-! ## Single values -/

/-- The integers of a type that stands for those from `low` to `high`. -/
def integer {α : Type} (low high : Int) (ofInt : Int → α) (toInt : α → Int) : Codec α where
  read := .number fun
    | .int n => if low ≤ n ∧ n ≤ high then some (ofInt n) else none
    | .float _ => none
  write a := [.number (.ofInt (toInt a))]

def int32 : Codec Int32 := integer (-0x80000000) 0x7fffffff Int32.ofInt Int32.toInt

def uint32 : Codec UInt32 :=
  integer 0 0xffffffff (fun n => .ofNat n.toNat) fun w => Int.ofNat w.toNat

def uint64 : Codec UInt64 :=
  integer 0 0xffffffffffffffff (fun n => .ofNat n.toNat) fun w => Int.ofNat w.toNat

/-- Shortest digits, without an exponent from `10 ^ -6` to below `10 ^ 13`, and always with a
decimal there. -/
def layout : Decimal.Layout := ⟨fun e => -6 ≤ e && e < 13, true, .plus, .even⟩

/-- Floats; only finite ones can be written, the others become null. -/
def float32 : Codec Float32 where
  read := .number fun v => some v.toFloat32
  write x := if x.isFinite then [.number (layout.numeral x)] else [.null]

/-- Null for nothing. -/
def nullable {α : Type} (c : Codec α) : Codec (Option α) where
  read := .nullable c.read
  write
    | none => [.null]
    | some a => c.write a

/-- A list of exactly three values. -/
def triple {α : Type} (c : Codec α) : Codec (α × α × α) where
  read := .triple c.read
  write := fun (x, y, z) =>
    .openList :: c.write x ++ .comma :: c.write y ++ .comma :: c.write z ++ [.closeList]

/-- The same form for another type. -/
def via {α β : Type} (c : Codec α) (make : α → β) (parts : β → α) : Codec β where
  read ts :=
    match c.read ts with
    | .ok (a, rest) => .ok (make a, rest)
    | .error f => .error f
  write b := c.write (parts b)

end Codec

/-! ## Records -/

/-- A field of a record: its name, whether an object may lack it, and how it is read into a record
and written from one. -/
structure Field (ρ : Type) where
  name : String
  optional : Bool
  read : Reader (ρ → ρ)
  write : ρ → List Token

/-- A field that holds a value of its own. -/
def Codec.field {α ρ : Type} (c : Codec α) (name : String) (get : ρ → α) (set : α → ρ → ρ)
    (optional : Bool) : Field ρ where
  name
  optional
  read ts :=
    match c.read ts with
    | .ok (a, rest) => .ok (set a, rest)
    | .error f => .error f
  write r := c.write (get r)

/-- The form of a record: what it is before a field is read, its fields in order, and whether a
list may end early. -/
structure RecordForm (ρ : Type) where
  base : ρ
  fields : List (Field ρ)
  partialList : Bool

namespace RecordForm

variable {ρ : Type}

/-- The fields with these names are enough. -/
def complete (form : RecordForm ρ) (names : List String) : Bool :=
  form.fields.all fun f => f.optional || names.contains f.name

/-- The name of the next member of an object, the first one or one after a comma. -/
def memberName (first : Bool) : Reader String := fun ts =>
  if first then Reader.text ts
  else
    match Reader.punctuation .comma ts with
    | .error f => .error f
    | .ok ((), ⟨ts₁, h₁⟩) =>
      match Reader.text ts₁ with
      | .error f => .error f
      | .ok (s, ⟨rest, h⟩) => .ok (s, ⟨rest, by omega⟩)

/-- Reads members into `r` up to the end of the object; `seen` are the names of fields read. -/
def readMembers (form : RecordForm ρ) (first : Bool) (seen : List String) (r : ρ)
    (ts : List Token) : Except Cause (Parsed ρ ts) :=
  match ts with
  | .closeRecord :: rest =>
    if form.complete seen then .ok (r, ⟨rest, by simp⟩) else .error .mistyped
  | ts =>
    match memberName first ts with
    | .error f => .error f
    | .ok (name, ⟨ts₁, h₁⟩) =>
      match form.fields.find? (·.name == name) with
      | none =>
        match Reader.punctuation .colon ts₁ with
        | .error f => .error f
        | .ok ((), ⟨ts₂, h₂⟩) =>
          match skip ts₂ with
          | .error f => .error f
          | .ok ⟨ts₃, h₃⟩ =>
            match readMembers form false seen r ts₃ with
            | .error f => .error f
            | .ok (r, ⟨rest, h⟩) => .ok (r, ⟨rest, by omega⟩)
      | some field =>
        if seen.contains name then .error .mistyped
        else
          match Reader.punctuation .colon ts₁ with
          | .error f => .error f
          | .ok ((), ⟨ts₂, h₂⟩) =>
            match field.read ts₂ with
            | .error f => .error f
            | .ok (set, ⟨ts₃, h₃⟩) =>
              match readMembers form false (name :: seen) (set r) ts₃ with
              | .error f => .error f
              | .ok (r, ⟨rest, h⟩) => .ok (r, ⟨rest, by omega⟩)
termination_by ts.length

/-- Reads the values of `fields` into `r`, up to the end of the list. -/
def readValues (form : RecordForm ρ) (first : Bool) (r : ρ) :
    List (Field ρ) → (ts : List Token) → Except Cause (Parsed ρ ts)
  | [], ts =>
    match Reader.punctuation .closeList ts with
    | .ok ((), rest) => .ok (r, rest)
    | .error f => .error f
  | field :: fields, ts =>
    match Reader.element first field.read ts with
    | .error f => .error f
    | .ok none =>
      if form.partialList then
        match Reader.punctuation .closeList ts with
        | .ok ((), rest) => .ok (r, rest)
        | .error f => .error f
      else .error .mistyped
    | .ok (some (set, ⟨ts₁, h₁⟩)) =>
      match readValues form false (set r) fields ts₁ with
      | .error f => .error f
      | .ok (r, ⟨rest, h⟩) => .ok (r, ⟨rest, by omega⟩)

/-- A record from an object or from a list. -/
def read (form : RecordForm ρ) : Reader ρ
  | .openRecord :: ts =>
    match form.readMembers true [] form.base ts with
    | .ok parsed => .ok (parsed.behind .openRecord)
    | .error f => .error f
  | .openList :: ts =>
    match form.readValues true form.base form.fields ts with
    | .ok parsed => .ok (parsed.behind .openList)
    | .error f => .error f
  | ts => .error (refusal ts)

/-- The members of an object, with commas between them. -/
def members (r : ρ) : List (Field ρ) → List Token
  | [] => []
  | [f] => .text f.name :: .colon :: f.write r
  | f :: fs => .text f.name :: .colon :: f.write r ++ .comma :: members r fs

/-- The codec of a record. -/
def codec (form : RecordForm ρ) : Codec ρ where
  read := form.read
  write r := .openRecord :: members r form.fields ++ [.closeRecord]

end RecordForm
end VoxelStream.Json
