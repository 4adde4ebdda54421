/-!
# Decimal numerals

A numeral is a number as it is written: its digits before and after the point, and its exponent as
it stands there. Writers choose a numeral for a value and readers find the value of a numeral, so
both sides of a text format meet in this type.
-/

namespace VoxelStream.Decimal

/-- A decimal digit. -/
abbrev Digit : Type := Fin 10

/-- The character of a digit. -/
def Digit.toChar (d : Digit) : Char := Char.ofNat (48 + d.val)

/-- The digit that a character stands for, if it is one. -/
def Digit.ofChar? (c : Char) : Option Digit :=
  if h : 48 ≤ c.toNat ∧ c.toNat < 58 then some ⟨c.toNat - 48, by omega⟩ else none

/-- The digits of a number, the most significant first. -/
def digits (n : Nat) : List Digit :=
  if h : n < 10 then [⟨n, h⟩] else digits (n / 10) ++ [⟨n % 10, by omega⟩]
termination_by n
decreasing_by omega

/-- The number that digits spell, the most significant first. -/
def value (ds : List Digit) : Nat := ds.foldl (fun n d => n * 10 + d.val) 0

/-- A digit at the end makes the others count ten times as much. -/
theorem value_append_singleton (ds : List Digit) (d : Digit) :
    value (ds ++ [d]) = value ds * 10 + d.val := by
  simp [value]

/-- The digits of a number spell it. -/
theorem value_digits (n : Nat) : value (digits n) = n := by
  fun_induction digits n with
  | case1 n h => simp [value]
  | case2 n h ih =>
    rw [value_append_singleton, ih]
    simp only
    omega

/-- How a sign is written. -/
inductive Sign where
  | unsigned
  | plus
  | minus
deriving DecidableEq, Repr

def Sign.chars : Sign → List Char
  | .unsigned => []
  | .plus => ['+']
  | .minus => ['-']

/-- An exponent as it is written. -/
structure Exponent where
  sign : Sign
  digits : List Digit
deriving DecidableEq, Repr

/-- A number as it is written; without digits after the point there is no point. -/
structure Numeral where
  negative : Bool := false
  whole : List Digit
  fraction : List Digit := []
  exponent : Option Exponent := none
deriving DecidableEq, Repr

namespace Numeral

/-- The characters of a numeral. -/
def chars (n : Numeral) : List Char :=
  (if n.negative then ['-'] else []) ++ n.whole.map Digit.toChar ++
    (if n.fraction.isEmpty then [] else '.' :: n.fraction.map Digit.toChar) ++
    match n.exponent with
    | none => []
    | some e => 'e' :: e.sign.chars ++ e.digits.map Digit.toChar

/-- The text of a numeral. -/
def text (n : Numeral) : String := .ofList n.chars

/-- The numeral of an integer. -/
def ofInt (n : Int) : Numeral := { negative := n < 0, whole := Decimal.digits n.natAbs }

end Numeral
end VoxelStream.Decimal
