import VoxelStream.Decimal.Numeral
import VoxelStream.Decimal.Shortest

/-!
# Layouts of decimal numbers

A layout says how the digits of a float are set out as a numeral: where positional notation ends,
whether a whole number shows a decimal, how a positive exponent is written, and which way a tie
between two shortest decimals goes. Each text format has one layout.
-/

namespace VoxelStream.Decimal

/-- The decisions of a number format. -/
structure Layout where
  /-- Whether a number whose first digit has the weight `10 ^ e` is written without an exponent. -/
  positional : Int → Bool
  /-- Whether a whole number without an exponent ends in a point and a zero. -/
  decimal : Bool
  /-- How the sign of an exponent that is not negative is written. -/
  plus : Sign
  /-- Which of two equally near shortest decimals is taken. -/
  tie : Tie

namespace Layout

/-- The digits after the point of a number that has none of its own. -/
def noFraction (l : Layout) : List Digit := if l.decimal then [0] else []

/-- Sets out the digits of `d * 10 ^ k`. -/
def arrange (l : Layout) (negative : Bool) (d : Nat) (k : Int) : Numeral :=
  let ds := digits d
  let lead := ds.length - 1 + k
  if l.positional lead then
    if 0 ≤ k then ⟨negative, ds ++ List.replicate k.toNat 0, l.noFraction, none⟩
    else if 0 ≤ lead then
      let whole := (lead + 1).toNat
      ⟨negative, ds.take whole, ds.drop whole, none⟩
    else ⟨negative, [0], List.replicate (-lead - 1).toNat 0 ++ ds, none⟩
  else
    let sign := if lead < 0 then .minus else l.plus
    ⟨negative, ds.take 1, ds.drop 1, some ⟨sign, digits lead.natAbs⟩⟩

/-- The numeral of a finite float. -/
def numeral (l : Layout) (x : Float32) : Numeral :=
  let negative := 0x80000000 ≤ x.toBits.toNat
  let v := Magnitude.ofFloat32 x
  if v.mantissa = 0 then ⟨negative, [0], l.noFraction, none⟩
  else
    let (d, k) := v.shortest l.tie
    l.arrange negative d k

/-- The text of any float. -/
def text (l : Layout) (x : Float32) : String :=
  if x.isNaN then "NaN"
  else if x.isInf then (if x < 0 then "-inf" else "inf")
  else (l.numeral x).text

end Layout

/-- Numbers in sentences: never an exponent, and no decimals on whole numbers. -/
def plainLayout : Layout := ⟨fun _ => true, false, .unsigned, .up⟩

/-- Numbers in descriptions of values: always a decimal, and exponents below `10 ^ -4` and from
`10 ^ 16` on. -/
def descriptiveLayout : Layout := ⟨fun e => -4 ≤ e && e < 16, true, .unsigned, .up⟩

end VoxelStream.Decimal
