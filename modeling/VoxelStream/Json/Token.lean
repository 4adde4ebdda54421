import VoxelStream.Decimal.Numeral

/-!
# JSON tokens

A text is scanned into tokens before anything is made of it. What is wrong with a token is part of
the token, since it may not matter: a value that nobody asks for is skipped, and a skipped string
is looked at less closely than one that is read. So the first fault from left to right is the one
that a reader meets first, although the whole text is scanned.

A text is a list of units, characters below 256 that stand for its bytes. Strings are decoded from
UTF-8 only when they are read.
-/

namespace VoxelStream.Json

open VoxelStream.Decimal (Digit Numeral)

/-- Why no value could be read. -/
inductive Cause where
  /-- There is no text to read. -/
  | unreadable
  /-- The text ends too early. -/
  | truncated
  /-- The text is not JSON. -/
  | malformed
  /-- The text is JSON, but not of the wanted form. -/
  | mistyped
deriving DecidableEq, Repr

/-- A piece of JSON text. -/
inductive Token where
  | openList
  | closeList
  | openRecord
  | closeRecord
  | comma
  | colon
  | null
  | bool (b : Bool)
  | number (n : Numeral)
  | text (s : String)
  /-- A string that cannot be read, and what happens when it is skipped. -/
  | brokenText (reading : Cause) (skipping : Option Cause)
  /-- Anything else that cannot be read. -/
  | broken (reading skipping : Cause)
deriving DecidableEq, Repr

/-! ## Units -/

/-- The units of a sequence of bytes. -/
def unitsOfBytes (bytes : ByteArray) : List Char := bytes.toList.map fun b => Char.ofNat b.toNat

/-- The units of a text. -/
def unitsOfText (s : String) : List Char := unitsOfBytes s.toUTF8

def isBlank (c : Char) : Bool := c = ' ' || c = '\n' || c = '\t' || c = '\r'

/-- The value of a hexadecimal digit. -/
def hexDigit? (c : Char) : Option Nat :=
  if '0' ≤ c ∧ c ≤ '9' then some (c.toNat - '0'.toNat)
  else if 'a' ≤ c ∧ c ≤ 'f' then some (c.toNat - 'a'.toNat + 10)
  else if 'A' ≤ c ∧ c ≤ 'F' then some (c.toNat - 'A'.toNat + 10)
  else none

/-- The byte that a letter after a backslash stands for. -/
def escape? (c : Char) : Option UInt8 :=
  match c with
  | '"' => some 0x22
  | '\\' => some 0x5c
  | '/' => some 0x2f
  | 'b' => some 0x08
  | 'f' => some 0x0c
  | 'n' => some 0x0a
  | 'r' => some 0x0d
  | 't' => some 0x09
  | _ => none

/-- The number that the next four units give. If four are not left then the text is cut off,
whatever they are. -/
def hexEscape : List Char → Except Cause Nat
  | a :: b :: c :: d :: _ =>
    match [a, b, c, d].mapM hexDigit? with
    | some digits => .ok (digits.foldl (fun n digit => n * 16 + digit) 0)
    | none => .error .malformed
  | _ => .error .truncated

/-! ## Strings -/

/-- The rest of the text after a string of which only the escapes and control characters count. -/
def skipText (cs : List Char) : Except Cause (List Char) :=
  match cs with
  | [] => .error .truncated
  | c :: cs =>
    if c = '"' then .ok cs
    else if c = '\\' then
      match cs with
      | [] => .error .truncated
      | e :: cs =>
        if e = 'u' then
          match hexEscape cs with
          | .ok _ => skipText (cs.drop 4)
          | .error f => .error f
        else if (escape? e).isSome then skipText cs
        else .error .malformed
    else if c.toNat < 32 then .error .malformed
    else skipText cs
termination_by cs.length

/-- Skipping a string uses up its closing quote at least. -/
theorem length_skipText {cs rest : List Char}
    (h : skipText cs = .ok rest) : rest.length < cs.length := by
  fun_induction skipText cs <;> simp_all
  all_goals omega

/-- The first half of a pair of escapes for one character. -/
def isHighSurrogate (n : Nat) : Bool := 0xd800 ≤ n && n < 0xdc00

/-- The second half of a pair of escapes for one character. -/
def isLowSurrogate (n : Nat) : Bool := 0xdc00 ≤ n && n < 0xe000

/-- The number of a character written as `\uXXXX`, or as two of these, and how many units it takes
from the first digit on. -/
def readEscape (cs : List Char) : Except Cause (Nat × Nat) := do
  let high ← hexEscape cs
  if isLowSurrogate high then .error .malformed
  else if isHighSurrogate high then
    match cs.drop 4 with
    | '\\' :: 'u' :: cs =>
      let low ← hexEscape cs
      if isLowSurrogate low then
        return (0x10000 + (high - 0xd800) * 0x400 + (low - 0xdc00), 10)
      else .error .malformed
    | [] | ['\\'] => .error .truncated
    | _ => .error .malformed
  else return (high, 4)

/-- The bytes of a string after those in `acc`, which come last first. -/
def readText (acc : List UInt8) (cs : List Char) : Except Cause (List UInt8) :=
  match cs with
  | [] => .error .truncated
  | c :: cs =>
    if c = '"' then .ok acc.reverse
    else if c = '\\' then
      match cs with
      | [] => .error .truncated
      | e :: cs =>
        if e = 'u' then
          match readEscape cs with
          | .ok (n, taken) =>
            readText ((String.utf8EncodeChar (Char.ofNat n)).reverse ++ acc) (cs.drop taken)
          | .error f => .error f
        else
          match escape? e with
          | some b => readText (b :: acc) cs
          | none => .error .malformed
    else if c.toNat < 32 then .error .malformed
    else readText (c.toNat.toUInt8 :: acc) cs
termination_by cs.length

/-- The token of a string that starts after its opening quote, and the rest of the text. -/
def scanText (cs : List Char) : Token × Option (List Char) :=
  let read : Except Cause String := do
    match String.fromUTF8? ⟨(← readText [] cs).toArray⟩ with
    | some s => return s
    | none => .error .malformed
  match skipText cs, read with
  | .ok rest, .ok s => (.text s, some rest)
  | .ok rest, .error f => (.brokenText f none, some rest)
  | .error f, .ok _ => (.brokenText f (some f), none)
  | .error f, .error g => (.brokenText g (some f), none)

/-! ## Numbers and words -/

/-- What is wrong with a number: the text ends where a digit has to follow, or it goes on with
something else. -/
inductive NumberFlaw where
  | cut
  | bad
deriving DecidableEq, Repr

/-- A cut number is a truncated text to those who read it, and malformed to those who skip it. -/
def NumberFlaw.token : NumberFlaw → Token
  | .cut => .broken .truncated .malformed
  | .bad => .broken .malformed .malformed

/-- The digits at the start of a text, and the rest. -/
def spanDigits : List Char → List Digit × List Char
  | [] => ([], [])
  | c :: cs =>
    match Digit.ofChar? c with
    | none => ([], c :: cs)
    | some d =>
      let (ds, rest) := spanDigits cs
      (d :: ds, rest)

/-- The digits at the front and what comes after them are all there is. -/
theorem length_spanDigits (cs : List Char) :
    (spanDigits cs).1.length + (spanDigits cs).2.length = cs.length := by
  fun_induction spanDigits cs <;> simp_all
  omega

/-- The digits that have to be there, and the rest. -/
def someDigits (cs : List Char) : Except NumberFlaw (List Digit × List Char) :=
  match spanDigits cs with
  | ([], []) => .error .cut
  | ([], _ :: _) => .error .bad
  | found => .ok found

/-- Some digits are more than none. -/
theorem length_someDigits {cs rest : List Char} {ds : List Digit}
    (h : someDigits cs = .ok (ds, rest)) : rest.length < cs.length := by
  have hspan := length_spanDigits cs
  unfold someDigits at h
  split at h
  · cases h
  · cases h
  next hempty hjunk =>
    injection h with h
    rw [h] at hspan hempty hjunk
    cases ds with
    | nil => cases rest with
      | nil => exact absurd rfl hempty
      | cons c cs => exact absurd rfl (hjunk c cs)
    | cons d ds =>
      simp only [List.length_cons] at hspan
      omega

/-- The digits before the point: no zero in front of others. -/
def scanWhole (cs : List Char) : Except NumberFlaw (List Digit × List Char) :=
  match someDigits cs with
  | .ok (0 :: _ :: _, _) => .error .bad
  | found => found

/-- The digits after the point, if there is one. -/
def scanFraction (cs : List Char) : Except NumberFlaw (List Digit × List Char) :=
  match cs with
  | '.' :: rest => someDigits rest
  | _ => .ok ([], cs)

/-- The sign in front of an exponent. -/
def scanSign (cs : List Char) : Decimal.Sign × List Char :=
  match cs with
  | '+' :: rest => (.plus, rest)
  | '-' :: rest => (.minus, rest)
  | _ => (.unsigned, cs)

/-- The exponent after its mark. -/
def markedExponent (cs : List Char) : Except NumberFlaw (Option Decimal.Exponent × List Char) :=
  match someDigits (scanSign cs).2 with
  | .ok (ds, rest) => .ok (some ⟨(scanSign cs).1, ds⟩, rest)
  | .error f => .error f

/-- The exponent, if there is one. -/
def scanExponent (cs : List Char) : Except NumberFlaw (Option Decimal.Exponent × List Char) :=
  match cs with
  | 'e' :: rest => markedExponent rest
  | 'E' :: rest => markedExponent rest
  | _ => .ok (none, cs)

/-- The numeral at the start of a text, less its sign, and the rest. -/
def scanNumber (negative : Bool) (cs : List Char) : Except NumberFlaw (Numeral × List Char) :=
  match scanWhole cs with
  | .error f => .error f
  | .ok (whole, cs) =>
    match scanFraction cs with
    | .error f => .error f
    | .ok (fraction, cs) =>
      match scanExponent cs with
      | .error f => .error f
      | .ok (exponent, cs) => .ok (⟨negative, whole, fraction, exponent⟩, cs)

/-- The digits before the point are more than none. -/
theorem length_scanWhole {cs rest : List Char} {ds : List Digit}
    (h : scanWhole cs = .ok (ds, rest)) : rest.length < cs.length := by
  unfold scanWhole at h
  split at h
  · cases h
  · exact length_someDigits h

/-- A fraction adds nothing to what is left. -/
theorem length_scanFraction {cs rest : List Char} {ds : List Digit}
    (h : scanFraction cs = .ok (ds, rest)) : rest.length ≤ cs.length := by
  unfold scanFraction at h
  split at h
  · have := length_someDigits h
    simp only [List.length_cons]
    omega
  · cases h
    exact Nat.le_refl _

/-- A sign adds nothing to what is left. -/
theorem length_scanSign (cs : List Char) : (scanSign cs).2.length ≤ cs.length := by
  unfold scanSign
  split <;> simp

/-- An exponent behind its mark has a digit at least. -/
theorem length_markedExponent {cs rest : List Char} {e : Option Decimal.Exponent}
    (h : markedExponent cs = .ok (e, rest)) : rest.length < cs.length := by
  unfold markedExponent at h
  split at h
  next hd =>
    cases h
    exact Nat.lt_of_lt_of_le (length_someDigits hd) (length_scanSign cs)
  · cases h

/-- An exponent adds nothing to what is left. -/
theorem length_scanExponent {cs rest : List Char} {e : Option Decimal.Exponent}
    (h : scanExponent cs = .ok (e, rest)) : rest.length ≤ cs.length := by
  unfold scanExponent at h
  split at h
  · exact Nat.le_of_lt (Nat.lt_succ_of_lt (length_markedExponent h))
  · exact Nat.le_of_lt (Nat.lt_succ_of_lt (length_markedExponent h))
  · cases h
    exact Nat.le_refl _

/-- A number uses up a digit at least. -/
theorem length_scanNumber {negative : Bool} {cs rest : List Char} {n : Numeral}
    (h : scanNumber negative cs = .ok (n, rest)) : rest.length < cs.length := by
  unfold scanNumber at h
  split at h
  · cases h
  next hw =>
    split at h
    · cases h
    next hf =>
      split at h
      · cases h
      next he =>
        cases h
        exact Nat.lt_of_le_of_lt (length_scanExponent he)
          (Nat.lt_of_le_of_lt (length_scanFraction hf) (length_scanWhole hw))

/-- The rest of a word has to follow unit by unit. -/
def scanWord (token : Token) : List Char → List Char → Token
  | [], _ => token
  | _ :: _, [] => .broken .truncated .truncated
  | w :: ws, c :: cs => if w = c then scanWord token ws cs else .broken .malformed .malformed

/-! ## Texts -/

/-- The tokens of a text. Nobody goes on after a token that can be neither read nor skipped, so it
does not matter what follows one. -/
def scan (cs : List Char) : List Token :=
  match cs with
  | [] => []
  | c :: cs =>
    if isBlank c then scan cs
    else if c = '[' then .openList :: scan cs
    else if c = ']' then .closeList :: scan cs
    else if c = '\x7b' then .openRecord :: scan cs
    else if c = '\x7d' then .closeRecord :: scan cs
    else if c = ',' then .comma :: scan cs
    else if c = ':' then .colon :: scan cs
    else if c = 'n' then scanWord .null ['u', 'l', 'l'] cs :: scan (cs.drop 3)
    else if c = 't' then scanWord (.bool true) ['r', 'u', 'e'] cs :: scan (cs.drop 3)
    else if c = 'f' then scanWord (.bool false) ['a', 'l', 's', 'e'] cs :: scan (cs.drop 4)
    else if c = '"' then
      match _hskip : skipText cs with
      | .error _ => [(scanText cs).1]
      | .ok rest => (scanText cs).1 :: scan rest
    else if c = '-' then
      match _hnum : scanNumber true cs with
      | .error f => [f.token]
      | .ok (n, rest) => .number n :: scan rest
    else if (Digit.ofChar? c).isSome then
      match _hnum : scanNumber false (c :: cs) with
      | .error f => [f.token]
      | .ok (n, rest) => .number n :: scan rest
    else [.broken .malformed .malformed]
termination_by cs.length
decreasing_by
  all_goals simp only [List.length_cons, List.length_drop]
  all_goals first
    | omega
    | exact Nat.lt_succ_of_lt (length_skipText (by assumption))
    | exact Nat.lt_succ_of_lt (length_scanNumber (by assumption))
    | exact length_scanNumber (by assumption)

end VoxelStream.Json
