import VoxelStream.Json.Codec
import VoxelStream.Proofs.Decimal.Layout
import Mathlib.Data.List.Chain

/-!
# Scanning what was written

The text of a list of tokens is taken apart into these tokens again (`scan_chars`). That needs two
things: every token is one that the writers make (`Token.Written`), and of two neighbours one is
punctuation (`Parted`), because a number ends only where something follows that cannot go on with
it. What is written is in ASCII, so that the bytes of a text are its characters.
-/

namespace VoxelStream.Json

open VoxelStream.Decimal (Digit Exponent Numeral Sign)

/-! ## Bytes -/

/-- Every character is a byte of its own. -/
def Ascii (cs : List Char) : Prop := ∀ c ∈ cs, c.toNat < 128

instance (cs : List Char) : Decidable (Ascii cs) :=
  List.decidableBAll (fun c : Char => c.toNat < 128) cs

/-- Two texts in ASCII make one. -/
theorem Ascii.append {l m : List Char} (hl : Ascii l) (hm : Ascii m) : Ascii (l ++ m) := by
  intro c hc
  exact (List.mem_append.1 hc).elim (hl c) (hm c)

/-- The loop that makes a list of an array of bytes has the bytes behind it in its accumulator. -/
theorem toList_loop (bytes : ByteArray) (i : Nat) (acc : List UInt8) :
    ByteArray.toList.loop bytes i acc = acc.reverse ++ bytes.data.toList.drop i := by
  fun_induction ByteArray.toList.loop bytes i acc with
  | case1 i acc hlt ih =>
    have hlen : i < bytes.data.toList.length := by simpa using hlt
    have hget : bytes.get! i = bytes.data.toList[i] := getElem!_pos bytes.data i hlt
    rw [ih, List.drop_eq_getElem_cons hlen, hget, List.reverse_cons, List.append_assoc,
      List.singleton_append]
  | case2 i acc hlt =>
    rw [List.drop_eq_nil_of_le (by simpa using Nat.le_of_not_lt hlt), List.append_nil]

/-- The list of an array of bytes has its bytes in their order. -/
theorem toList_eq (bytes : ByteArray) : bytes.toList = bytes.data.toList := by
  rw [ByteArray.toList, toList_loop, List.reverse_nil, List.nil_append, List.drop_zero]

/-- A character of ASCII goes through a byte unchanged. -/
theorem toNat_toUInt8 {c : Char} (hc : c.toNat < 128) : c.toNat.toUInt8.toNat = c.toNat := by
  rw [Nat.toUInt8_eq, UInt8.toNat_ofNat']
  omega

/-- The encoding of a character of ASCII is one byte. -/
theorem utf8EncodeChar_eq {c : Char} (hc : c.toNat < 128) :
    String.utf8EncodeChar c = [c.toNat.toUInt8] := by
  have hsize : c.utf8Size = 1 := Char.utf8Size_eq_one_iff.2 (UInt32.le_iff_toNat_le.2 (by
    have : c.val.toNat = c.toNat := rfl
    have : (127 : UInt32).toNat = 127 := rfl
    omega))
  rw [String.utf8EncodeChar_eq_singleton hsize]
  rfl

/-- The encoding of a text in ASCII has a byte for each character. -/
theorem flatMap_utf8EncodeChar {cs : List Char} (h : Ascii cs) :
    cs.flatMap String.utf8EncodeChar = cs.map fun c => c.toNat.toUInt8 := by
  induction cs with
  | nil => rfl
  | cons c cs ih =>
    rw [List.flatMap_cons, List.map_cons, utf8EncodeChar_eq (h c (by simp)),
      ih fun d hd => h d (by simp [hd])]
    rfl

/-- The units of a text are its characters. -/
theorem unitsOfText_ofList {cs : List Char} (h : Ascii cs) : unitsOfText (.ofList cs) = cs := by
  have hbytes : (String.ofList cs).toUTF8.toList = cs.map fun c => c.toNat.toUInt8 := by
    rw [toList_eq, String.toUTF8, String.toByteArray_ofList, List.utf8Encode,
      List.toList_data_toByteArray, flatMap_utf8EncodeChar h]
  rw [unitsOfText, unitsOfBytes, hbytes, List.map_map]
  refine (List.map_congr_left fun c hc => ?_).trans (List.map_id cs)
  simp only [Function.comp_apply, toNat_toUInt8 (h c hc), Char.ofNat_toNat, id]

/-- Bytes of ASCII decode to the text of their characters. -/
theorem fromUTF8?_eq {cs : List Char} (h : Ascii cs) :
    String.fromUTF8? ⟨(cs.map fun c => c.toNat.toUInt8).toArray⟩ = some (.ofList cs) := by
  have hbytes : (⟨(cs.map fun c => c.toNat.toUInt8).toArray⟩ : ByteArray) =
      (String.ofList cs).toByteArray := by
    rw [String.toByteArray_ofList, List.utf8Encode, flatMap_utf8EncodeChar h]
    refine ByteArray.ext (Array.toList_inj.1 ?_)
    rw [List.toList_data_toByteArray]
  rw [hbytes, String.fromUTF8?, dif_pos (String.ofList cs).isValidUTF8]
  rfl

/-! ## Numbers -/

/-- The character cannot go on with a number. -/
structure Breaks (c : Char) : Prop where
  digit : Digit.ofChar? c = none
  point : c ≠ '.'
  exponent : c ≠ 'e'
  capital : c ≠ 'E'

/-- A number can end in front of this text. -/
def Ends (cs : List Char) : Prop := ∀ c ∈ cs.head?, Breaks c

/-- A digit is read back from its character. -/
theorem ofChar?_toChar (d : Digit) : Digit.ofChar? d.toChar = some d := by
  revert d
  decide

/-- Digits in front of something else are all taken, and nothing more. -/
theorem spanDigits_map {rest : List Char} (h : ∀ c ∈ rest.head?, Digit.ofChar? c = none)
    (ds : List Digit) : spanDigits (ds.map Digit.toChar ++ rest) = (ds, rest) := by
  induction ds with
  | nil =>
    cases rest with
    | nil => rfl
    | cons c rest => simp only [List.map_nil, List.nil_append, spanDigits, h c rfl]
  | cons d ds ih => simp only [List.map_cons, List.cons_append, spanDigits, ofChar?_toChar, ih]

/-- Where at least one digit has to be, those that are there are taken. -/
theorem someDigits_map {rest : List Char} (h : ∀ c ∈ rest.head?, Digit.ofChar? c = none)
    {ds : List Digit} (hds : ds ≠ []) :
    someDigits (ds.map Digit.toChar ++ rest) = .ok (ds, rest) := by
  obtain ⟨d, ds, rfl⟩ := List.exists_cons_of_ne_nil hds
  rw [someDigits, spanDigits_map h]

/-- The whole part of a number is taken if it does not start with a needless zero. -/
theorem scanWhole_map {rest : List Char} (h : ∀ c ∈ rest.head?, Digit.ofChar? c = none)
    {ds : List Digit} (hds : ds ≠ []) (hlead : ∀ ds', ds = 0 :: ds' → ds' = []) :
    scanWhole (ds.map Digit.toChar ++ rest) = .ok (ds, rest) := by
  rw [scanWhole, someDigits_map h hds]
  split
  next heq =>
    cases heq
    exact absurd (hlead _ rfl) (List.cons_ne_nil _ _)
  · rfl

/-- The characters of digits after a point. -/
def fractionChars (ds : List Digit) : List Char :=
  if ds.isEmpty then [] else '.' :: ds.map Digit.toChar

/-- The characters of an exponent. -/
def exponentChars : Option Exponent → List Char
  | none => []
  | some e => 'e' :: e.sign.chars ++ e.digits.map Digit.toChar

/-- The characters of a numeral are those of its four parts. -/
theorem chars_eq (n : Numeral) : n.chars = (if n.negative then ['-'] else []) ++
    (n.whole.map Digit.toChar ++ (fractionChars n.fraction ++ exponentChars n.exponent)) := by
  simp only [Numeral.chars, fractionChars, List.append_assoc]
  cases n.exponent <;> rfl

/-! A part of a number that may be missing does not start like the part before it. -/

/-- What comes after a fraction, if anything does, starts with no digit and no point. -/
theorem breaks_exponentChars {e : Option Exponent} {rest : List Char} (h : Ends rest) {c : Char}
    (hc : c ∈ (exponentChars e ++ rest).head?) : Digit.ofChar? c = none ∧ c ≠ '.' := by
  cases e with
  | none => exact ⟨(h c hc).digit, (h c hc).point⟩
  | some e =>
    cases hc
    decide

/-- What comes after the whole part starts with no digit. -/
theorem breaks_fractionChars {ds : List Digit} {tail : List Char}
    (h : ∀ c ∈ tail.head?, Digit.ofChar? c = none) {c : Char}
    (hc : c ∈ (fractionChars ds ++ tail).head?) : Digit.ofChar? c = none := by
  cases ds with
  | nil => exact h c hc
  | cons d ds =>
    cases hc
    decide

/-- A fraction is taken, be it empty and without its point. -/
theorem scanFraction_chars {rest : List Char}
    (h : ∀ c ∈ rest.head?, Digit.ofChar? c = none ∧ c ≠ '.') (ds : List Digit) :
    scanFraction (fractionChars ds ++ rest) = .ok (ds, rest) := by
  cases ds with
  | nil =>
    cases rest with
    | nil => rfl
    | cons c rest =>
      simp only [fractionChars, List.isEmpty_nil, if_true, List.nil_append, scanFraction]
      split
      next heq =>
        cases heq
        exact absurd rfl (h _ rfl).2
      · rfl
  | cons d ds => exact someDigits_map (fun c hc => (h c hc).1) (List.cons_ne_nil _ _)

/-- No digit is written as a sign. -/
theorem toChar_ne_sign (d : Digit) : d.toChar ≠ '+' ∧ d.toChar ≠ '-' := by
  revert d
  decide

/-- The sign of an exponent is taken, be it written or not. -/
theorem scanSign_chars (s : Sign) {ds : List Digit} (hds : ds ≠ []) (rest : List Char) :
    scanSign (s.chars ++ (ds.map Digit.toChar ++ rest)) = (s, ds.map Digit.toChar ++ rest) := by
  cases s with
  | plus => rfl
  | minus => rfl
  | unsigned =>
    obtain ⟨d, ds, rfl⟩ := List.exists_cons_of_ne_nil hds
    have hd := toChar_ne_sign d
    simp only [Sign.chars, List.nil_append, List.map_cons, List.cons_append, scanSign]
    split
    next heq =>
      injection heq with heq
      exact absurd heq hd.1
    next heq =>
      injection heq with heq
      exact absurd heq hd.2
    · rfl

/-- An exponent is taken, be there one or not. -/
theorem scanExponent_chars {e : Option Exponent} {rest : List Char} (h : Ends rest)
    (he : ∀ x ∈ e, x.digits ≠ []) : scanExponent (exponentChars e ++ rest) = .ok (e, rest) := by
  cases e with
  | none =>
    cases rest with
    | nil => rfl
    | cons c rest =>
      have hc := h c rfl
      simp only [exponentChars, List.nil_append, scanExponent]
      split
      next heq =>
        injection heq with heq
        exact absurd heq hc.exponent
      next heq =>
        injection heq with heq
        exact absurd heq hc.capital
      · rfl
  | some e =>
    have hdigits := he e rfl
    simp only [exponentChars, List.cons_append, List.append_assoc, scanExponent, markedExponent,
      scanSign_chars e.sign hdigits, someDigits_map (fun c hc => (h c hc).digit) hdigits]

/-- A numeral is scanned up to its end, in whatever way its exponent is written. -/
theorem scanNumber_tail {n : Numeral} {tail rest : List Char} (hn : n.WellFormed)
    (h : ∀ c ∈ tail.head?, Digit.ofChar? c = none ∧ c ≠ '.')
    (hexponent : scanExponent tail = .ok (n.exponent, rest)) :
    scanNumber n.negative (n.whole.map Digit.toChar ++ (fractionChars n.fraction ++ tail)) =
      .ok (n, rest) := by
  have hwhole {c : Char} (hc : c ∈ (fractionChars n.fraction ++ tail).head?) :
      Digit.ofChar? c = none := breaks_fractionChars (fun c hc => (h c hc).1) hc
  simp only [scanNumber, scanWhole_map (fun _ => hwhole) hn.whole hn.lead, scanFraction_chars h,
    hexponent]

/-- A well-formed numeral is taken, up to where a number can end. -/
theorem scanNumber_chars {n : Numeral} {rest : List Char} (hn : n.WellFormed) (h : Ends rest) :
    scanNumber n.negative (n.whole.map Digit.toChar ++
      (fractionChars n.fraction ++ (exponentChars n.exponent ++ rest))) = .ok (n, rest) :=
  scanNumber_tail hn (fun _ => breaks_exponentChars h) (scanExponent_chars h hn.exponent)

/-! ## Strings -/

/-- A character that stands for itself in a string. -/
structure Plain (c : Char) : Prop where
  ascii : c.toNat < 128
  printable : 32 ≤ c.toNat
  quote : c ≠ '"'
  escape : c ≠ '\\'

instance (c : Char) : Decidable (Plain c) :=
  decidable_of_iff (c.toNat < 128 ∧ 32 ≤ c.toNat ∧ c ≠ '"' ∧ c ≠ '\\')
    ⟨fun ⟨ascii, printable, quote, escape⟩ => ⟨ascii, printable, quote, escape⟩,
      fun h => ⟨h.ascii, h.printable, h.quote, h.escape⟩⟩

/-- A text that needs no escapes. -/
def PlainText (s : String) : Prop := ∀ c ∈ s.toList, Plain c

instance (s : String) : Decidable (PlainText s) := List.decidableBAll Plain s.toList

/-- The end of a text of plain characters is found at its quotation mark. -/
theorem skipText_append {cs : List Char} (h : ∀ c ∈ cs, Plain c) (rest : List Char) :
    skipText (cs ++ '"' :: rest) = .ok rest := by
  induction cs with
  | nil =>
    rw [List.nil_append, skipText.eq_def]
    exact if_pos rfl
  | cons c cs ih =>
    have hc := h c (by simp)
    rw [List.cons_append, skipText.eq_def]
    simp only [if_neg hc.quote, if_neg hc.escape, if_neg (Nat.not_lt.2 hc.printable)]
    exact ih fun d hd => h d (by simp [hd])

/-- The bytes of a text of plain characters are those of its characters. -/
theorem readText_append {cs : List Char} (h : ∀ c ∈ cs, Plain c) (acc : List UInt8)
    (rest : List Char) : readText acc (cs ++ '"' :: rest) =
      .ok (acc.reverse ++ cs.map fun c => c.toNat.toUInt8) := by
  induction cs generalizing acc with
  | nil =>
    rw [List.nil_append, readText.eq_def, List.map_nil, List.append_nil]
    exact if_pos rfl
  | cons c cs ih =>
    have hc := h c (by simp)
    rw [List.cons_append, readText.eq_def]
    simp only [if_neg hc.quote, if_neg hc.escape, if_neg (Nat.not_lt.2 hc.printable)]
    rw [ih (fun d hd => h d (by simp [hd])), List.reverse_cons, List.append_assoc, List.map_cons,
      List.singleton_append]

/-- A plain text is read back, up to its quotation mark. -/
theorem scanText_append {s : String} (h : PlainText s) (rest : List Char) :
    scanText (s.toList ++ '"' :: rest) = (.text s, some rest) := by
  have hread : String.fromUTF8? ⟨(s.toList.map fun c => c.toNat.toUInt8).toArray⟩ = some s := by
    rw [fromUTF8?_eq fun c hc => (h c hc).ascii, String.ofList_toList]
  simp only [scanText, skipText_append h, readText_append h, List.reverse_nil, List.nil_append,
    bind, Except.bind, hread]
  rfl

/-! ## Single tokens -/

/-- Punctuation, which parts its neighbours. -/
def Token.IsMark (t : Token) : Prop :=
  t ∈ [openList, closeList, openRecord, closeRecord, comma, colon]

instance (t : Token) : Decidable t.IsMark := inferInstanceAs (Decidable (t ∈ _))

/-- A token that the writers make. -/
def Token.Written : Token → Prop
  | .number n => n.WellFormed
  | .text s => PlainText s
  | .brokenText _ _ | .broken _ _ => False
  | _ => True

namespace Token.IsMark

variable {m : Token}

/-- Punctuation is always such as the writers make. -/
theorem written (hm : m.IsMark) : m.Written := by
  simp only [IsMark, List.mem_cons, List.not_mem_nil, or_false] at hm
  rcases hm with rfl | rfl | rfl | rfl | rfl | rfl <;> trivial

/-- Punctuation is one character, and a number ends in front of it. -/
theorem exists_chars (hm : m.IsMark) : ∃ c, m.chars = [c] ∧ Breaks c := by
  simp only [IsMark, List.mem_cons, List.not_mem_nil, or_false] at hm
  rcases hm with rfl | rfl | rfl | rfl | rfl | rfl <;>
  exact ⟨_, rfl, by decide, by decide, by decide, by decide⟩

end Token.IsMark

/-- Punctuation is scanned whatever follows. -/
theorem scan_mark {t : Token} (ht : t.IsMark) (rest : List Char) :
    scan (t.chars ++ rest) = t :: scan rest := by
  simp only [Token.IsMark, List.mem_cons, List.not_mem_nil, or_false] at ht
  rcases ht with rfl | rfl | rfl | rfl | rfl | rfl <;>
  · rw [Token.chars, List.singleton_append, scan]
    simp [isBlank]

/-- A null is scanned whatever follows. -/
theorem scan_null (rest : List Char) : scan (Token.null.chars ++ rest) = .null :: scan rest := by
  rw [Token.chars, List.cons_append, scan]
  simp [isBlank, scanWord]

/-- A truth value is scanned whatever follows. -/
theorem scan_bool (b : Bool) (rest : List Char) :
    scan ((Token.bool b).chars ++ rest) = .bool b :: scan rest := by
  cases b <;>
  · rw [Token.chars, List.cons_append, scan]
    simp [isBlank, scanWord]

/-- A plain text is scanned whatever follows its quotation mark. -/
theorem scan_text {s : String} (h : PlainText s) (rest : List Char) :
    scan ((Token.text s).chars ++ rest) = .text s :: scan rest := by
  have hchars : (Token.text s).chars ++ rest = '"' :: (s.toList ++ '"' :: rest) := by
    simp [Token.chars]
  have hskip := skipText_append h rest
  rw [hchars, scan]
  simp +decide only [if_false, if_true]
  split
  next heq =>
    rw [hskip] at heq
    cases heq
  next heq =>
    rw [hskip] at heq
    cases heq
    rw [scanText_append h]

/-- What starts with a minus is a number. -/
theorem scan_minus {n : Numeral} {cs rest : List Char}
    (h : scanNumber true cs = .ok (n, rest)) : scan ('-' :: cs) = .number n :: scan rest := by
  rw [scan]
  simp +decide only [if_false, if_true]
  split
  next heq =>
    rw [h] at heq
    cases heq
  next heq =>
    rw [h] at heq
    cases heq
    rfl

/-- A digit does not start any other token. -/
theorem toChar_plain (d : Digit) : isBlank d.toChar = false ∧
    d.toChar ∉ ['[', ']', '\x7b', '\x7d', ',', ':', 'n', 't', 'f', '"', '-'] := by
  revert d
  decide

/-- What starts with a digit is a number. -/
theorem scan_digit {d : Digit} {n : Numeral} {cs rest : List Char}
    (h : scanNumber false (d.toChar :: cs) = .ok (n, rest)) :
    scan (d.toChar :: cs) = .number n :: scan rest := by
  obtain ⟨hblank, hplain⟩ := toChar_plain d
  simp only [List.mem_cons, List.not_mem_nil, or_false, not_or] at hplain
  rw [scan]
  simp only [hblank, Bool.false_eq_true, hplain, ofChar?_toChar, Option.isSome_some, if_false,
    if_true]
  split
  next heq =>
    rw [h] at heq
    cases heq
  next heq =>
    rw [h] at heq
    cases heq
    rfl

/-- With its sign in front, a number is one token. -/
theorem scan_signed {n : Numeral} {tail rest : List Char} (hn : n.WellFormed)
    (h : scanNumber n.negative (n.whole.map Digit.toChar ++ tail) = .ok (n, rest)) :
    scan ((if n.negative then ['-'] else []) ++ (n.whole.map Digit.toChar ++ tail)) =
      .number n :: scan rest := by
  cases hneg : n.negative with
  | true =>
    rw [hneg] at h
    exact scan_minus h
  | false =>
    obtain ⟨d, ds, hds⟩ := List.exists_cons_of_ne_nil hn.whole
    rw [hneg, hds] at h
    rw [hds]
    exact scan_digit h

/-- A well-formed numeral is scanned if a number can end where it does. -/
theorem scan_number {n : Numeral} {rest : List Char} (hn : n.WellFormed) (h : Ends rest) :
    scan ((Token.number n).chars ++ rest) = .number n :: scan rest := by
  rw [Token.chars, chars_eq, List.append_assoc, List.append_assoc, List.append_assoc]
  exact scan_signed hn (scanNumber_chars hn h)

/-! ## Lists of tokens -/

/-- Of two neighbours one is punctuation. -/
def Parted (t u : Token) : Prop := t.IsMark ∨ u.IsMark

/-- The tokens can be told apart in their text. -/
structure Legible (ts : List Token) : Prop where
  written : ∀ t ∈ ts, t.Written
  parted : ts.IsChain Parted

namespace Legible

variable {t : Token} {ts us : List Token}

/-- No tokens are legible. -/
theorem nil : Legible [] where
  written := by simp
  parted := .nil

/-- A token of the writers is legible by itself. -/
theorem singleton (ht : t.Written) : Legible [t] where
  written := by simpa using ht
  parted := .singleton _

/-- What follows the first of legible tokens is legible. -/
theorem of_cons (h : Legible (t :: ts)) : Legible ts where
  written u hu := h.written u (List.mem_cons_of_mem t hu)
  parted := h.parted.of_cons

/-- Punctuation goes between any two lists. -/
theorem append {m : Token} (hts : Legible ts) (hus : Legible us)
    (hm : m.IsMark := by simp [Token.IsMark]) : Legible (ts ++ m :: us) where
  written t ht := by
    rcases List.mem_append.1 ht with ht | ht
    · exact hts.written t ht
    · rcases List.mem_cons.1 ht with rfl | ht
      · exact hm.written
      · exact hus.written t ht
  parted := by
    refine List.isChain_append.2 ⟨hts.parted, hus.parted.cons fun _ _ => .inl hm, ?_⟩
    rintro t - u hu
    cases hu
    exact .inr hm

/-- Behind a token that is no punctuation a number can end. -/
theorem ends (h : Legible (t :: ts)) (ht : ¬t.IsMark) : Ends (ts.flatMap Token.chars) := by
  cases ts with
  | nil => simp [Ends]
  | cons u ts =>
    have hu : u.IsMark := h.parted.rel.resolve_left ht
    obtain ⟨c, hchars, hc⟩ := hu.exists_chars
    intro d hd
    rw [List.flatMap_cons, hchars] at hd
    cases hd
    exact hc

end Legible

/-- Legible tokens are taken apart again into themselves. -/
theorem scan_chars {ts : List Token} (h : Legible ts) : scan (ts.flatMap Token.chars) = ts := by
  induction ts with
  | nil => rw [List.flatMap_nil, scan]
  | cons t ts ih =>
    have ht := h.written t List.mem_cons_self
    rw [List.flatMap_cons]
    conv => rhs; rw [← ih h.of_cons]
    cases t with
    | openList | closeList | openRecord | closeRecord | comma | colon =>
      exact scan_mark (by simp [Token.IsMark]) _
    | null => exact scan_null _
    | bool b => exact scan_bool b _
    -- A number alone looks at what follows it.
    | number n => exact scan_number ht (h.ends (by simp [Token.IsMark]))
    | text s => exact scan_text ht _
    | brokenText | broken => exact ht.elim

/-! ## Texts -/

/-- Digits are written in ASCII. -/
theorem toNat_toChar (d : Digit) : d.toChar.toNat < 128 := by
  revert d
  decide

/-- So are lists of digits. -/
theorem ascii_digits (ds : List Digit) : Ascii (ds.map Digit.toChar) := by
  intro c hc
  obtain ⟨d, -, rfl⟩ := List.mem_map.1 hc
  exact toNat_toChar d

/-- So are numerals. -/
theorem ascii_numeral (n : Numeral) : Ascii n.chars := by
  rw [chars_eq]
  refine .append ?_ (.append (ascii_digits _) (.append ?_ ?_))
  · split <;> decide
  · unfold fractionChars
    split
    · decide
    · exact .append (l := ['.']) (by decide) (ascii_digits _)
  · cases n.exponent with
    | none => decide
    | some e =>
      refine .append ?_ (ascii_digits _)
      cases e.sign <;> decide

/-- The tokens of the writers are written in ASCII. -/
theorem ascii_token {t : Token} (ht : t.Written) : Ascii t.chars := by
  cases t with
  | number n => exact ascii_numeral n
  | text s =>
    exact .append (l := ['"']) (by decide) (.append (fun c hc => (ht c hc).ascii) (by decide))
  | bool b => cases b <;> decide
  | brokenText | broken => exact ht.elim
  | _ => decide

/-- The tokens of the text that is written for legible tokens are these. -/
theorem scan_unitsOfText {ts : List Token} (h : Legible ts) :
    scan (unitsOfText (.ofList (ts.flatMap Token.chars))) = ts := by
  have hascii : Ascii (ts.flatMap Token.chars) := by
    intro c hc
    obtain ⟨t, ht, hc⟩ := List.mem_flatMap.1 hc
    exact ascii_token (h.written t ht) c hc
  rw [unitsOfText_ofList hascii, scan_chars h]

end VoxelStream.Json
