import VoxelStream.Decimal.Numeral

/-!
# Numbers as people type them

Integers may have a sign, leading zeros and any length. Floats may besides have a point with digits
on one side or both, an exponent, or be one of the words for infinity and for no number, in capital
letters or not. Nothing may stand before or after.
-/

namespace VoxelStream.Decimal

/-- The single-precision float nearest to `m * 10 ^ e`. The weight of the first digit settles the
matter for numbers far outside the range of floats. -/
def nearest32 (m : Nat) (e : Int) : Float32 :=
  let lead := (digits m).length + e
  if m = 0 || lead < -60 then 0
  else if 60 < lead then 1 / 0
  else .ofScientific m (e < 0) e.natAbs

/-- Whether the number is negative, and what follows its sign. -/
def splitSign : List Char → Bool × List Char
  | '-' :: cs => (true, cs)
  | '+' :: cs => (false, cs)
  | cs => (false, cs)

/-- All characters as digits; there may be none. -/
def readDigits (cs : List Char) : Option (List Digit) := cs.mapM Digit.ofChar?

/-- A number without sign. -/
def readMagnitude (cs : List Char) : Option Nat :=
  if cs.isEmpty then none else value <$> readDigits cs

/-- An integer, with any sign or none. -/
def readInt (s : String) : Option Int :=
  let (negative, cs) := splitSign s.toList
  (readMagnitude cs).map fun n => if negative then -n else n

/-- A natural number, with a plus sign or none. -/
def readNat (s : String) : Option Nat :=
  match splitSign s.toList with
  | (false, cs) => readMagnitude cs
  | (true, _) => none

/-- Digits around a point: the number that they spell without it, and how many are after it. -/
def readPointed (cs : List Char) : Option (Nat × Nat) := do
  let (whole, rest) := cs.span (· ≠ '.')
  let whole ← readDigits whole
  let fraction ← readDigits (rest.drop 1)
  if whole.isEmpty ∧ fraction.isEmpty then none
  else some (value (whole ++ fraction), fraction.length)

/-- The number after the letter of an exponent. -/
def readExponent (cs : List Char) : Option Int := readInt (.ofList cs)

/-- The float nearest to a number without sign. -/
def readFloatMagnitude (cs : List Char) : Option Float32 := do
  let word := String.ofList (cs.map Char.toLower)
  if word = "inf" ∨ word = "infinity" then some (1 / 0)
  else if word = "nan" then some (0 / 0)
  else
    let (mantissa, rest) := cs.span fun c => c ≠ 'e' ∧ c ≠ 'E'
    let (m, places) ← readPointed mantissa
    let e ← match rest with
      | [] => some 0
      | _ :: cs => readExponent cs
    some (nearest32 m (e - places))

/-- The float nearest to a number. -/
def readFloat32 (s : String) : Option Float32 :=
  let (negative, cs) := splitSign s.toList
  (readFloatMagnitude cs).map fun x => if negative then -x else x

end VoxelStream.Decimal
