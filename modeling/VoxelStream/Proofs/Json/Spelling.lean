import VoxelStream.Proofs.Json.Scan

/-!
# Texts in all their spellings

The same tokens can be written in many ways: with blanks between them, with a small or a capital
mark in front of an exponent, and with any character of a string escaped. `Spells` says that a text
is one of these ways, and `Spells.scan_eq` that scanning does not care which one it is.

A string is a list of parts, each a unit that stands for itself or an escape (`Part`). What it holds
is put together from its parts (`Part.bytes`); if that is no text, as with half of a pair of
escapes, then the string can still be skipped.
-/

namespace VoxelStream.Json

open VoxelStream.Decimal (Digit Exponent Numeral)

/-! ## Strings -/

/-- A part of a string as it is written. -/
inductive Part where
  /-- A unit that stands for itself. -/
  | plain (c : Char)
  /-- A backslash and a letter. -/
  | letter (e : Char)
  /-- A backslash, a small `u` and four hexadecimal digits. -/
  | code (a b c d : Char)
deriving DecidableEq, Repr

namespace Part

def chars : Part → List Char
  | plain c => [c]
  | letter e => ['\\', e]
  | code a b c d => ['\\', 'u', a, b, c, d]

/-- The part can stand in a string. -/
def WellFormed : Part → Prop
  | plain c => 32 ≤ c.toNat ∧ c ≠ '"' ∧ c ≠ '\\'
  | letter e => (escape? e).isSome
  | code a b c d => ∀ x ∈ [a, b, c, d], (hexDigit? x).isSome

instance : (p : Part) → Decidable p.WellFormed
  | plain c => inferInstanceAs (Decidable (32 ≤ c.toNat ∧ c ≠ '"' ∧ c ≠ '\\'))
  | letter e => inferInstanceAs (Decidable ((escape? e).isSome = true))
  | code a b c d => List.decidableBAll (fun x => (hexDigit? x).isSome = true) [a, b, c, d]

/-- The number that hexadecimal digits spell, the most significant first. -/
def hexNumber (ds : List Char) : Nat :=
  ds.foldl (fun n c => n * 16 + (hexDigit? c).getD 0) 0

/-- The character with a number, in bytes. -/
def utf8 (n : Nat) : List UInt8 := String.utf8EncodeChar (Char.ofNat n)

/-- The character that a pair of escapes stands for. -/
def paired (high low : Nat) : Nat := 0x10000 + (high - 0xd800) * 0x400 + (low - 0xdc00)

/-- The bytes that a string holds, if each of its escapes stands for a character, alone or together
with the next one. -/
def bytes : List Part → Option (List UInt8)
  | [] => some []
  | plain c :: ps => (bytes ps).map (c.toNat.toUInt8 :: ·)
  | letter e :: ps => (escape? e).bind fun b => (bytes ps).map (b :: ·)
  | code a b c d :: ps =>
    if isLowSurrogate (hexNumber [a, b, c, d]) then none
    else if isHighSurrogate (hexNumber [a, b, c, d]) then
      match ps with
      | code a' b' c' d' :: ps =>
        if isLowSurrogate (hexNumber [a', b', c', d']) then
          (bytes ps).map (utf8 (paired (hexNumber [a, b, c, d]) (hexNumber [a', b', c', d'])) ++ ·)
        else none
      | _ => none
    else (bytes ps).map (utf8 (hexNumber [a, b, c, d]) ++ ·)

/-- The token of a string. One that holds no text can only be skipped. -/
def token (ps : List Part) : Token :=
  match (bytes ps).bind fun bs => String.fromUTF8? ⟨bs.toArray⟩ with
  | some s => .text s
  | none => .brokenText .malformed none

end Part

/-- The four units after the mark of an escape are all that is read of it. -/
theorem hexEscape_cons {a b c d : Char} (h : (Part.code a b c d).WellFormed) (rest : List Char) :
    hexEscape (a :: b :: c :: d :: rest) = .ok (Part.hexNumber [a, b, c, d]) := by
  simp only [Part.WellFormed, List.forall_mem_cons] at h
  obtain ⟨ha, hb, hc, hd, -⟩ := h
  obtain ⟨i, hi⟩ := Option.isSome_iff_exists.1 ha
  obtain ⟨j, hj⟩ := Option.isSome_iff_exists.1 hb
  obtain ⟨k, hk⟩ := Option.isSome_iff_exists.1 hc
  obtain ⟨l, hl⟩ := Option.isSome_iff_exists.1 hd
  simp [hexEscape, Part.hexNumber, hi, hj, hk, hl]

/-- A part of a string is skipped as a whole. -/
theorem skipText_part {p : Part} (h : p.WellFormed) (rest : List Char) :
    skipText (p.chars ++ rest) = skipText rest := by
  cases p with
  | plain c =>
    obtain ⟨hprintable, hquote, hescape⟩ := h
    rw [Part.chars, List.singleton_append, skipText.eq_def]
    simp only [if_neg hquote, if_neg hescape, if_neg (Nat.not_lt.2 hprintable)]
  | letter e =>
    have hmark : e ≠ 'u' := by
      rintro rfl
      cases h
    rw [Part.chars, List.cons_append, List.singleton_append, skipText.eq_def]
    simp only [Part.WellFormed] at h
    simp +decide only [if_false, if_true, if_neg hmark, h]
  | code a b c d =>
    simp only [Part.chars, List.cons_append, List.nil_append]
    rw [skipText.eq_def]
    simp +decide only [if_false, if_true, hexEscape_cons h rest]
    rfl

/-- A string is skipped up to its closing quote. -/
theorem skipText_parts {ps : List Part} (h : ∀ p ∈ ps, p.WellFormed) (rest : List Char) :
    skipText (ps.flatMap Part.chars ++ '"' :: rest) = .ok rest := by
  induction ps with
  | nil =>
    rw [List.flatMap_nil, List.nil_append, skipText.eq_def]
    exact if_pos rfl
  | cons p ps ih =>
    rw [List.flatMap_cons, List.append_assoc, skipText_part (h p (by simp))]
    exact ih fun q hq => h q (by simp [hq])

/-! What an escape gives depends on its number and, for the first half of a pair, on what follows. -/

section
variable {a b c d : Char} (h : (Part.code a b c d).WellFormed)
include h

/-- A low surrogate may not come first. -/
theorem readEscape_low (hlow : isLowSurrogate (Part.hexNumber [a, b, c, d]) = true)
    (rest : List Char) : readEscape (a :: b :: c :: d :: rest) = .error .malformed := by
  simp only [readEscape, hexEscape_cons h, bind, Except.bind, hlow, if_true]

/-- An escape that is no surrogate stands for itself. -/
theorem readEscape_alone (hlow : ¬isLowSurrogate (Part.hexNumber [a, b, c, d]) = true)
    (hhigh : ¬isHighSurrogate (Part.hexNumber [a, b, c, d]) = true) (rest : List Char) :
    readEscape (a :: b :: c :: d :: rest) = .ok (Part.hexNumber [a, b, c, d], 4) := by
  simp only [readEscape, hexEscape_cons h, bind, Except.bind, hlow, hhigh, Bool.false_eq_true,
    if_false]
  rfl

/-- A high surrogate has to be followed by a low one, and both stand for one character. -/
theorem readEscape_pair (hlow : ¬isLowSurrogate (Part.hexNumber [a, b, c, d]) = true)
    (hhigh : isHighSurrogate (Part.hexNumber [a, b, c, d]) = true) {a' b' c' d' : Char}
    (h' : (Part.code a' b' c' d').WellFormed) (rest : List Char) :
    readEscape (a :: b :: c :: d :: ((Part.code a' b' c' d').chars ++ rest)) =
      if isLowSurrogate (Part.hexNumber [a', b', c', d']) then
        .ok (Part.paired (Part.hexNumber [a, b, c, d]) (Part.hexNumber [a', b', c', d']), 10)
      else .error .malformed := by
  simp only [readEscape, hexEscape_cons h, bind, Except.bind, hlow, hhigh, Part.chars,
    List.cons_append, List.nil_append, List.drop_succ_cons, List.drop_zero, hexEscape_cons h',
    Bool.false_eq_true, if_false, if_true]
  rfl

/-- The string ends or goes on with something else than a number. -/
theorem readEscape_unpaired (hlow : ¬isLowSurrogate (Part.hexNumber [a, b, c, d]) = true)
    (hhigh : isHighSurrogate (Part.hexNumber [a, b, c, d]) = true) {ps : List Part}
    (hps : ∀ p ∈ ps, p.WellFormed) (hnext : ∀ a b c d qs, ps ≠ .code a b c d :: qs)
    (rest : List Char) :
    readEscape (a :: b :: c :: d :: (ps.flatMap Part.chars ++ '"' :: rest)) =
      .error .malformed := by
  simp only [readEscape, hexEscape_cons h, bind, Except.bind, hlow, hhigh, List.drop_succ_cons,
    List.drop_zero, Bool.false_eq_true, if_false, if_true]
  cases ps with
  | nil => rfl
  | cons p ps =>
    have hp := hps p List.mem_cons_self
    cases p with
    | plain x =>
      simp only [List.flatMap_cons, Part.chars, List.cons_append, List.nil_append]
      split
      next heq =>
        injection heq with heq
        exact absurd heq hp.2.2
      next heq => cases heq
      next heq =>
        injection heq with heq
        exact absurd heq hp.2.2
      · rfl
    | letter e =>
      simp only [List.flatMap_cons, Part.chars, List.cons_append, List.nil_append]
      split
      next heq =>
        injection heq with _ heq
        injection heq with heq
        rw [heq] at hp
        cases hp
      next heq => cases heq
      next heq => simp at heq
      · rfl
    | code a b c d => exact absurd rfl (hnext a b c d ps)

end

/-- What is read of an escape says how the string goes on. -/
theorem readText_code (acc : List UInt8) (a b c d : Char) (rest : List Char) :
    readText acc ((Part.code a b c d).chars ++ rest) =
      match readEscape (a :: b :: c :: d :: rest) with
      | .ok (n, taken) =>
        readText ((Part.utf8 n).reverse ++ acc) ((a :: b :: c :: d :: rest).drop taken)
      | .error f => .error f := by
  simp only [Part.chars, List.cons_append, List.nil_append]
  rw [readText.eq_def]
  simp +decide only [if_false, if_true]
  rfl

/-- What a string holds is read from it, and one that holds no text is refused. -/
theorem readText_parts {ps : List Part} (h : ∀ p ∈ ps, p.WellFormed) (acc : List UInt8)
    (rest : List Char) : readText acc (ps.flatMap Part.chars ++ '"' :: rest) =
      match Part.bytes ps with
      | some bs => .ok (acc.reverse ++ bs)
      | none => .error .malformed := by
  -- Behind an escape the string goes on with the part after it, or after the next one for a pair.
  fun_induction Part.bytes ps generalizing acc with
  | case1 =>
    rw [List.flatMap_nil, List.nil_append, readText.eq_def]
    simp
  | case2 c ps ih =>
    rw [List.forall_mem_cons] at h
    obtain ⟨hprintable, hquote, hescape⟩ := h.1
    simp only [List.flatMap_cons, Part.chars, List.cons_append, List.nil_append]
    rw [readText.eq_def]
    simp only [if_neg hquote, if_neg hescape, if_neg (Nat.not_lt.2 hprintable)]
    rw [ih h.2]
    cases Part.bytes ps <;> simp
  | case3 e ps ih =>
    rw [List.forall_mem_cons] at h
    have he : (escape? e).isSome := h.1
    have hmark : e ≠ 'u' := by
      rintro rfl
      cases he
    obtain ⟨b, hb⟩ := Option.isSome_iff_exists.1 he
    simp only [List.flatMap_cons, Part.chars, List.cons_append, List.nil_append]
    rw [readText.eq_def]
    simp +decide only [if_false, if_true, if_neg hmark, hb, Option.bind_some]
    rw [ih h.2]
    cases Part.bytes ps <;> simp
  | case4 a b c d ps hlow =>
    rw [List.forall_mem_cons] at h
    rw [List.flatMap_cons, List.append_assoc, readText_code, readEscape_low h.1 hlow]
  | case5 a b c d hlow hhigh a' b' c' d' ps hlow' ih =>
    rw [List.forall_mem_cons, List.forall_mem_cons] at h
    obtain ⟨hcode, hnext, hrest⟩ := h
    rw [List.flatMap_cons, List.flatMap_cons, List.append_assoc, List.append_assoc, readText_code,
      readEscape_pair hcode hlow hhigh hnext, if_pos hlow']
    simp only [Part.chars, List.cons_append, List.nil_append, List.drop_succ_cons, List.drop_zero]
    rw [ih hrest]
    cases Part.bytes ps <;> simp
  | case6 a b c d hlow hhigh a' b' c' d' ps hlow' =>
    rw [List.forall_mem_cons, List.forall_mem_cons] at h
    rw [List.flatMap_cons, List.flatMap_cons, List.append_assoc, List.append_assoc, readText_code,
      readEscape_pair h.1 hlow hhigh h.2.1, if_neg hlow']
  | case7 a b c d ps hlow hhigh hnext =>
    rw [List.forall_mem_cons] at h
    rw [List.flatMap_cons, List.append_assoc, readText_code,
      readEscape_unpaired h.1 hlow hhigh h.2 hnext]
  | case8 a b c d ps hlow hhigh ih =>
    rw [List.forall_mem_cons] at h
    rw [List.flatMap_cons, List.append_assoc, readText_code, readEscape_alone h.1 hlow hhigh]
    simp only [List.drop_succ_cons, List.drop_zero]
    rw [ih h.2]
    cases Part.bytes ps <;> simp

/-- A string is scanned up to its closing quote, and becomes one token. -/
theorem scanText_parts {ps : List Part} (h : ∀ p ∈ ps, p.WellFormed) (rest : List Char) :
    scanText (ps.flatMap Part.chars ++ '"' :: rest) = (Part.token ps, some rest) := by
  simp only [scanText, skipText_parts h, readText_parts h, Part.token]
  cases Part.bytes ps with
  | none => rfl
  | some bs =>
    simp only [bind, Except.bind, Option.bind_some, List.reverse_nil, List.nil_append]
    cases String.fromUTF8? ⟨bs.toArray⟩ <;> rfl

/-! ## Tokens -/

/-- A token as it is written, or a blank between tokens. -/
inductive Spelling where
  | blank (c : Char)
  /-- A token that is written in one way only. -/
  | fixed (t : Token)
  /-- A number, with a small or a capital mark in front of its exponent. -/
  | number (n : Numeral) (capital : Bool)
  | string (parts : List Part)
deriving DecidableEq, Repr

namespace Spelling

def chars : Spelling → List Char
  | blank c => [c]
  | fixed t => t.chars
  | number n capital => if capital then n.chars.map Char.toUpper else n.chars
  | string ps => '"' :: ps.flatMap Part.chars ++ ['"']

def token? : Spelling → Option Token
  | blank _ => none
  | fixed t => some t
  | number n _ => some (.number n)
  | string ps => some (Part.token ps)

/-- It can stand in a text. -/
def WellFormed : Spelling → Prop
  | blank c => isBlank c
  | fixed t => t.IsMark ∨ t = .null ∨ ∃ b, t = .bool b
  | number n _ => n.WellFormed
  | string ps => ∀ p ∈ ps, p.WellFormed

instance : (s : Spelling) → Decidable s.WellFormed
  | blank c => inferInstanceAs (Decidable (isBlank c = true))
  | fixed t => decidable_of_iff (t.IsMark ∨ t = .null ∨ t = .bool false ∨ t = .bool true) <|
      or_congr_right <| or_congr_right (Bool.exists_bool (p := fun b => t = .bool b)).symm
  | number n _ => inferInstanceAs (Decidable n.WellFormed)
  | string ps => List.decidableBAll Part.WellFormed ps

end Spelling

/-- The text is made of these tokens, each written in one of its ways, with any blanks between
them. -/
def Spells (text : List Char) (ts : List Token) : Prop :=
  ∃ ss : List Spelling, (∀ s ∈ ss, s.WellFormed) ∧ text = ss.flatMap Spelling.chars ∧
    ts = ss.filterMap Spelling.token?

/-- Digits have no capitals. -/
theorem toUpper_toChar (d : Digit) : d.toChar.toUpper = d.toChar := by
  revert d
  decide

/-- Digits in a row have no capitals. -/
theorem toUpper_digits (ds : List Digit) :
    (ds.map Digit.toChar).map Char.toUpper = ds.map Digit.toChar := by
  rw [List.map_map]
  exact List.map_congr_left fun d _ => toUpper_toChar d

/-- A capital mark changes nothing but itself. -/
theorem map_toUpper_chars (n : Numeral) : n.chars.map Char.toUpper =
    (if n.negative then ['-'] else []) ++ (n.whole.map Digit.toChar ++
      (fractionChars n.fraction ++ (exponentChars n.exponent).map Char.toUpper)) := by
  have hsign : (if n.negative then ['-'] else []).map Char.toUpper =
      if n.negative then ['-'] else [] := by
    split <;> decide
  have hfraction : (fractionChars n.fraction).map Char.toUpper = fractionChars n.fraction := by
    unfold fractionChars
    split
    · rfl
    · rw [List.map_cons, toUpper_digits]
      rfl
  rw [chars_eq, List.map_append, List.map_append, List.map_append, hsign, toUpper_digits, hfraction]

/-- An exponent may be marked by either letter. -/
theorem scanExponent_toUpper {e : Option Exponent} {rest : List Char} (h : Ends rest)
    (he : ∀ x ∈ e, x.digits ≠ []) :
    scanExponent ((exponentChars e).map Char.toUpper ++ rest) = .ok (e, rest) := by
  rw [← scanExponent_chars h he]
  cases e with
  | none => rfl
  | some x =>
    have hsign : x.sign.chars.map Char.toUpper = x.sign.chars := by
      cases x.sign <;> decide
    rw [exponentChars, List.map_append, List.map_cons, hsign, toUpper_digits]
    rfl

/-- The mark of an exponent, in either letter, ends the digits before it. -/
theorem breaks_toUpper {e : Option Exponent} {rest : List Char} (h : Ends rest) {c : Char}
    (hc : c ∈ ((exponentChars e).map Char.toUpper ++ rest).head?) :
    Digit.ofChar? c = none ∧ c ≠ '.' := by
  cases e with
  | none => exact ⟨(h c hc).digit, (h c hc).point⟩
  | some e =>
    cases hc
    decide

/-- A numeral is scanned as one token, with either mark of its exponent. -/
theorem scan_spelling_number {n : Numeral} {rest : List Char} (hn : n.WellFormed) (h : Ends rest)
    (capital : Bool) :
    scan ((Spelling.number n capital).chars ++ rest) = .number n :: scan rest := by
  cases capital with
  | false => exact scan_number hn h
  | true =>
    rw [Spelling.chars, if_pos rfl, map_toUpper_chars, List.append_assoc, List.append_assoc,
      List.append_assoc]
    exact scan_signed hn
      (scanNumber_tail hn (fun _ => breaks_toUpper h) (scanExponent_toUpper h hn.exponent))

/-- A string is scanned as one token, however its characters are spelled. -/
theorem scan_spelling_string {ps : List Part} (h : ∀ p ∈ ps, p.WellFormed) (rest : List Char) :
    scan ((Spelling.string ps).chars ++ rest) = Part.token ps :: scan rest := by
  have hchars : (Spelling.string ps).chars ++ rest =
      '"' :: (ps.flatMap Part.chars ++ '"' :: rest) := by
    simp [Spelling.chars]
  have hskip := skipText_parts h rest
  rw [hchars, scan]
  simp +decide only [if_false, if_true]
  split
  next heq =>
    rw [hskip] at heq
    cases heq
  next heq =>
    rw [hskip] at heq
    cases heq
    rw [scanText_parts h]

/-- Tokens with one spelling are scanned as themselves. -/
theorem scan_spelling_fixed {t : Token} (h : (Spelling.fixed t).WellFormed) (rest : List Char) :
    scan ((Spelling.fixed t).chars ++ rest) = t :: scan rest := by
  rcases h with hmark | rfl | ⟨b, rfl⟩
  · exact scan_mark hmark rest
  · exact scan_null rest
  · exact scan_bool b rest

/-- Blanks make no token. -/
theorem scan_blank {c : Char} (h : isBlank c = true) (rest : List Char) :
    scan (c :: rest) = scan rest := by
  rw [scan, if_pos h]

/-! ## Texts -/

/-- A blank ends the numeral before it. -/
theorem breaks_of_isBlank {c : Char} (h : isBlank c = true) : Breaks c := by
  simp only [isBlank, Bool.or_eq_true, decide_eq_true_eq] at h
  rcases h with ((rfl | rfl) | rfl) | rfl <;> exact ⟨by decide, by decide, by decide, by decide⟩

/-- A token that is no punctuation ends in front of what can follow it: blanks and punctuation. -/
theorem ends_spellings {t : Token} {ss : List Spelling} (hss : ∀ s ∈ ss, s.WellFormed)
    (h : (t :: ss.filterMap Spelling.token?).IsChain Parted) (ht : ¬t.IsMark) :
    Ends (ss.flatMap Spelling.chars) := by
  cases ss with
  | nil => simp [Ends]
  | cons s ss =>
    have hs := hss s List.mem_cons_self
    cases s with
    | blank c =>
      intro d hd
      cases hd
      exact breaks_of_isBlank hs
    | fixed u =>
      have hu : u.IsMark := h.rel.resolve_left ht
      obtain ⟨c, hchars, hc⟩ := hu.exists_chars
      intro d hd
      rw [List.flatMap_cons, Spelling.chars, hchars] at hd
      cases hd
      exact hc
    | number n capital =>
      have hu : (Token.number n).IsMark := h.rel.resolve_left ht
      simp [Token.IsMark] at hu
    | string ps =>
      have hu : (Part.token ps).IsMark := h.rel.resolve_left ht
      unfold Part.token at hu
      split at hu <;> simp [Token.IsMark] at hu

/-- Scanning a text gives its tokens, however they are written, if numbers do not stand side by
side. -/
theorem Spells.scan_eq {text : List Char} {ts : List Token} (h : Spells text ts)
    (hparted : ts.IsChain Parted) : scan text = ts := by
  obtain ⟨ss, hss, rfl, rfl⟩ := h
  induction ss with
  | nil => rw [List.flatMap_nil, scan, List.filterMap_nil]
  | cons s ss ih =>
    have hs := hss s List.mem_cons_self
    have hrest : ∀ s ∈ ss, s.WellFormed := fun s hs => hss s (List.mem_cons_of_mem _ hs)
    rw [List.flatMap_cons]
    cases s with
    | blank c => exact (scan_blank hs _).trans (ih hrest hparted)
    | fixed t =>
      have hchain : (t :: ss.filterMap Spelling.token?).IsChain Parted := hparted
      rw [scan_spelling_fixed hs, ih hrest hchain.of_cons]
      rfl
    | number n capital =>
      have hchain : (.number n :: ss.filterMap Spelling.token?).IsChain Parted := hparted
      have hends := ends_spellings hrest hchain (by simp [Token.IsMark])
      rw [scan_spelling_number hs hends, ih hrest hchain.of_cons]
      rfl
    | string ps =>
      have hchain : (Part.token ps :: ss.filterMap Spelling.token?).IsChain Parted := hparted
      rw [scan_spelling_string hs, ih hrest hchain.of_cons]
      rfl

/-- A text of ASCII characters is spelled by them. -/
theorem spells_text {text : String} {ts : List Token} (ss : List Spelling)
    (hss : ∀ s ∈ ss, s.WellFormed) (hascii : Ascii (ss.flatMap Spelling.chars))
    (htext : text = .ofList (ss.flatMap Spelling.chars)) (hts : ts = ss.filterMap Spelling.token?) :
    Spells (unitsOfBytes text.toUTF8) ts := by
  refine ⟨ss, hss, ?_, hts⟩
  rw [htext]
  exact unitsOfText_ofList hascii

end VoxelStream.Json
