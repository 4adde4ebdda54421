import VoxelStream.Fault

/-!
# Words with checked arithmetic

Coordinates are 32-bit words. Sums and differences are taken over the integers and refused when
the exact result is not a word, so `Word.ofInt_eq_ok_iff` is all that a proof needs to know about
them: a checked operation gives the word whose value is the exact result, if there is one.

All other numbers are single-precision floats. `Word.toFloat32` and `narrow` are how words and
double-precision floats become such.
-/

namespace VoxelStream

open Float.Model in
/-- The single-precision float nearest to one in double precision, in a tie the one with the even
last digit. Zeros and infinities keep their sign. -/
def narrow (f : Float) : Float32 :=
  .ofModel <| .pack <|
    match f.toModel.unpack with
    | .finite sign mantissa exponent _ => UnpackedFloat.round .binary32 sign mantissa exponent
    | other => other

namespace Word

/-- The integers that are values of a word. -/
abbrev InRange (n : Int) : Prop := -0x80000000 ≤ n ∧ n < 0x80000000

/-- The word of value `n`; an overflow when there is none. -/
def ofInt (n : Int) : Checked Int32 :=
  if InRange n then .ok (Int32.ofInt n) else .error .overflow

/-- The exact sum, if it is a word. -/
def add (a b : Int32) : Checked Int32 := ofInt (a.toInt + b.toInt)

/-- The exact difference, if it is a word. -/
def sub (a b : Int32) : Checked Int32 := ofInt (a.toInt - b.toInt)

/-- The value of a word as a float, rounded to the nearest one. -/
def toFloat32 (w : Int32) : Float32 :=
  let magnitude := w.toInt.natAbs.toUInt64.toFloat32
  if w.toInt < 0 then -magnitude else magnitude

/-! ## Laws of the checked operations -/

/-- Every word's value is in range. -/
theorem inRange_toInt (w : Int32) : InRange w.toInt := ⟨w.le_toInt, w.toInt_lt⟩

/-- A number is made a word if the word stands for it. -/
theorem ofInt_eq_ok_iff {n : Int} {w : Int32} : ofInt n = .ok w ↔ w.toInt = n := by
  unfold ofInt
  split
  next h =>
    constructor
    · intro he
      injection he with he
      rw [← he]
      exact Int32.toInt_ofInt_of_le h.1 h.2
    · intro he
      rw [← he, Int32.ofInt_toInt]
  next h =>
    constructor
    · intro he
      cases he
    · intro he
      exact absurd (he ▸ inRange_toInt w) h

/-- Out of range is overflow, and nothing else is. -/
theorem ofInt_eq_error_iff {n : Int} {f : Fault} :
    ofInt n = .error f ↔ f = .overflow ∧ ¬ InRange n := by
  unfold ofInt
  split
  next h =>
    constructor
    · intro he
      cases he
    · intro he
      exact absurd h he.2
  next h =>
    constructor
    · intro he
      injection he with he
      exact ⟨he.symm, h⟩
    · intro he
      rw [he.1]

/-- A checked sum is exact. -/
theorem add_eq_ok_iff {a b c : Int32} : add a b = .ok c ↔ c.toInt = a.toInt + b.toInt :=
  ofInt_eq_ok_iff

/-- A checked difference is exact. -/
theorem sub_eq_ok_iff {a b c : Int32} : sub a b = .ok c ↔ c.toInt = a.toInt - b.toInt :=
  ofInt_eq_ok_iff

end Word
end VoxelStream
