import VoxelStream.Json.Token
import VoxelStream.Word

/-!
# The values of JSON numbers

A number without point and exponent is an integer if it fits 64 bits, with or without a sign; any
other is a double-precision float. The float is made of a 64-bit significand, which takes digits
as long as they fit, and one multiplication or division by a power of ten, so it is not always the
nearest to what is written.
-/

namespace VoxelStream.Json

open VoxelStream.Decimal (Digit Numeral)

/-- The value of a number. -/
inductive Number where
  | int (n : Int)
  | float (f : Float)

namespace Number

/-- Takes digits into a significand until one does not fit 64 bits; the digits left start with
that one. -/
def absorb (significand : Nat) : List Digit → Nat × List Digit
  | [] => (significand, [])
  | d :: ds =>
    if significand * 10 + d.val < UInt64.size then absorb (significand * 10 + d.val) ds
    else (significand, d :: ds)

/-- `10 ^ e` as a float. -/
def powerOfTen (e : Nat) : Float := .ofScientific 1 false e

/-- The float `f * 10 ^ e`, if it is finite. Very small numbers are divided in several steps. -/
def scaleBy (f : Float) (e : Int) : Except Cause Float :=
  if e.natAbs ≤ 308 then
    if 0 ≤ e then
      let product := f * powerOfTen e.natAbs
      if product.isInf then .error .malformed else .ok product
    else .ok (f / powerOfTen e.natAbs)
  else if f == 0 then .ok f
  else if 0 ≤ e then .error .malformed
  else scaleBy (f / powerOfTen 308) (e + 308)
termination_by e.natAbs
decreasing_by omega

/-- The greatest exponent, and with it the end of the exponents that are kept apart. -/
def exponentLimit : Int := 0x7fffffff

/-- The float of a sign, a significand and an exponent that is added to `base`. -/
def ofParts (negative : Bool) (significand : Nat) (base : Int)
    (exponent : Option Decimal.Exponent) : Except Cause Float := do
  let signed (f : Float) : Float := if negative then -f else f
  let float := significand.toUInt64.toFloat
  match exponent with
  | none => return signed (← scaleBy float base)
  | some e =>
    let size := Decimal.value e.digits
    if size ≤ exponentLimit then
      let sum := if e.sign = .minus then base - size else base + size
      return signed (← scaleBy float (max (-exponentLimit - 1) (min exponentLimit sum)))
    else if significand ≠ 0 ∧ e.sign ≠ .minus then .error .malformed
    else return signed 0

/-- The value of a numeral; numbers beyond the floats have none. -/
def ofNumeral (n : Numeral) : Except Cause Number :=
  let (significand, left) := absorb 0 n.whole
  if left.isEmpty ∧ n.fraction.isEmpty ∧ n.exponent.isNone then
    if n.negative then
      if significand = 0 ∨ 0x8000000000000000 < significand then
        .ok (.float (-significand.toUInt64.toFloat))
      else .ok (.int (-significand))
    else .ok (.int significand)
  else
    let (significand, beyond) := absorb significand n.fraction
    let base := (left.length : Int) - (n.fraction.length - beyond.length : Nat)
    .float <$> ofParts n.negative significand base n.exponent

/-- The value as a single-precision float, rounded once for an integer and twice for a float. -/
def toFloat32 : Number → Float32
  | .int n =>
    let magnitude := n.natAbs.toUInt64.toFloat32
    if n < 0 then -magnitude else magnitude
  | .float f => narrow f

end Number
end VoxelStream.Json
