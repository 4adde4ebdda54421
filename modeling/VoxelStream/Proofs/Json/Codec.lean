import VoxelStream.Proofs.Json.Scan

/-!
# Reading what was written

A codec is faithful to a value if its reader takes the value off the front of what its writer made,
whatever follows (`Codec.Faithful`). That carries over from the parts to the whole: to lists of
three, to values that may be null, to other types and to records. For a record the reader goes from
member to member, and the record so far is the base with the fields read until then set to those of
the value. The text of a faithful value is read back (`Codec.Faithful.readsBack`).

Integers of 64 bits are always read back. For floats it is a property of the number format, which
is asked of the text of a single float only (`Codec.faithful_float32`).
-/

namespace VoxelStream.Json

open VoxelStream.Decimal (Digit Numeral)

variable {α β ρ : Type}

/-! ## Readers -/

/-- What a reader returns, less the proof that it took something. -/
def bare {ts : List Token} (e : Except Cause (Parsed α ts)) : Except Cause (α × List Token) :=
  e.map fun p => (p.1, p.2.1)

/-- Leaving out the proof that tokens were taken loses nothing of the result. -/
theorem bare_eq_ok_iff {ts rest : List Token} {e : Except Cause (Parsed α ts)} {a : α} :
    bare e = .ok (a, rest) ↔ ∃ h, e = .ok (a, ⟨rest, h⟩) := by
  constructor
  · intro h
    cases e with
    | error f => cases h
    | ok p =>
      obtain ⟨a, rest, hlt⟩ := p
      cases h
      exact ⟨hlt, rfl⟩
  · rintro ⟨h, rfl⟩
    rfl

/-- There are tokens, and the first one is not `mark`. -/
def StartsNot (mark : Token) (ts : List Token) : Prop := ∃ t us, ts = t :: us ∧ t ≠ mark

namespace Reader

/-- The reader takes `a` off the front of these tokens, whatever follows them. -/
def Takes (r : Reader α) (ts : List Token) (a : α) : Prop :=
  ∀ rest, bare (r (ts ++ rest)) = .ok (a, rest)

variable {r : Reader α} {ts : List Token} {a : α}

/-- A reader that takes some tokens leaves those behind them. -/
theorem Takes.exists_eq (h : r.Takes ts a) (rest : List Token) :
    ∃ hlt, r (ts ++ rest) = .ok (a, ⟨rest, hlt⟩) := bare_eq_ok_iff.1 (h rest)

/-- Of tokens that are taken and do not start with a mark there is a first one, which is another. -/
theorem Takes.exists_cons {mark : Token} (h : r.Takes ts a) (hts : StartsNot mark ts)
    (rest : List Token) : ∃ t us hlt, ts = t :: us ∧ t ≠ mark ∧
      r (t :: (us ++ rest)) = .ok (a, ⟨rest, hlt⟩) := by
  obtain ⟨t, us, rfl, ht⟩ := hts
  obtain ⟨hlt, hr⟩ := h.exists_eq rest
  exact ⟨t, us, hlt, rfl, ht, hr⟩

/-- The first item of a list stands there as it is. -/
theorem Takes.first (h : r.Takes ts a) (hts : StartsNot .closeList ts) :
    (required true r).Takes ts a := by
  intro rest
  obtain ⟨t, us, hlt, rfl, ht, hr⟩ := h.exists_cons hts rest
  have helement : element true r (t :: (us ++ rest)) = some <$> r (t :: (us ++ rest)) := by
    cases t with
    | closeList => exact absurd rfl ht
    | _ => rfl
  rw [List.cons_append, required, helement, hr]
  rfl

/-- Any further item of a list has a comma in front of it. -/
theorem Takes.next (h : r.Takes ts a) (hts : StartsNot .closeList ts) :
    (required false r).Takes (.comma :: ts) a := by
  intro rest
  obtain ⟨t, us, hlt, rfl, ht, hr⟩ := h.exists_cons hts rest
  have helement : element false r (.comma :: t :: (us ++ rest)) =
      .ok (some (a, ⟨rest, Nat.lt_succ_of_lt hlt⟩)) := by
    cases t with
    | closeList => exact absurd rfl ht
    | _ =>
      simp only [element, hr]
      rfl
  rw [List.cons_append, List.cons_append, required, helement]
  rfl

/-- Three items in a list are taken as a triple. -/
theorem Takes.triple {us vs : List Token} {b c : α} (ha : r.Takes ts a) (hb : r.Takes us b)
    (hc : r.Takes vs c) (hts : StartsNot .closeList ts) (hus : StartsNot .closeList us)
    (hvs : StartsNot .closeList vs) :
    r.triple.Takes (.openList :: ts ++ .comma :: us ++ .comma :: vs ++ [.closeList]) (a, b, c) := by
  intro rest
  obtain ⟨_, h₁⟩ :=
    (ha.first hts).exists_eq (.comma :: us ++ (.comma :: vs ++ .closeList :: rest))
  obtain ⟨_, h₂⟩ := (hb.next hus).exists_eq (.comma :: vs ++ .closeList :: rest)
  obtain ⟨_, h₃⟩ := (hc.next hvs).exists_eq (.closeList :: rest)
  have hassoc : .openList :: ts ++ .comma :: us ++ .comma :: vs ++ [.closeList] ++ rest =
      .openList :: (ts ++ (.comma :: us ++ (.comma :: vs ++ .closeList :: rest))) := by simp
  rw [hassoc]
  simp only [Reader.triple, bind, Except.bind, h₁, h₂, h₃]
  rfl

/-- What is made of a value is taken with it. -/
theorem Takes.via (h : r.Takes ts a) (f : α → β) : Takes (fun ts => match r ts with
  | .ok (a, rest) => .ok (f a, rest)
  | .error f => .error f) ts (f a) := by
  intro rest
  obtain ⟨hlt, hr⟩ := h.exists_eq rest
  simp only [hr]
  rfl

/-- A value that does not look like a null is taken where one may stand. -/
theorem Takes.nullable (h : r.Takes ts a) (hnull : StartsNot .null ts) :
    r.nullable.Takes ts (some a) := by
  intro rest
  obtain ⟨t, us, hlt, rfl, ht, hr⟩ := h.exists_cons hnull rest
  have hnullable : r.nullable (t :: (us ++ rest)) = .ok (some a, ⟨rest, hlt⟩) := by
    cases t with
    | null => exact absurd rfl ht
    | _ => simp only [Reader.nullable, hr]
  rw [List.cons_append, hnullable]
  rfl

end Reader

/-! ## Integers -/

namespace Number

/-- More digits never make a number smaller. -/
theorem le_foldl (ds : List Digit) (n : Nat) : n ≤ ds.foldl (fun n d => n * 10 + d.val) n := by
  induction ds generalizing n with
  | nil => exact Nat.le_refl _
  | cons d ds ih => exact Nat.le_trans (by omega) (ih (n * 10 + d.val))

/-- All digits of a number of 64 bits are taken. -/
theorem absorb_eq {ds : List Digit} {n : Nat}
    (h : ds.foldl (fun n d => n * 10 + d.val) n < UInt64.size) :
    absorb n ds = (ds.foldl (fun n d => n * 10 + d.val) n, []) := by
  induction ds generalizing n with
  | nil => rfl
  | cons d ds ih =>
    rw [List.foldl_cons] at h ⊢
    rw [absorb, if_pos (Nat.lt_of_le_of_lt (le_foldl ds _) h), ih h]

/-- The digits of a number in the words are absorbed, all of them. -/
theorem absorb_digits {n : Nat} (h : n < UInt64.size) : absorb 0 (Decimal.digits n) = (n, []) := by
  have hvalue : (Decimal.digits n).foldl (fun n d => n * 10 + d.val) 0 = n :=
    Decimal.value_digits n
  rw [absorb_eq (by rwa [hvalue]), hvalue]

/-- An integer of 64 bits, with or without sign, keeps its value. -/
theorem ofNumeral_ofInt {n : Int} (hlow : -0x8000000000000000 ≤ n)
    (hhigh : n ≤ 0xffffffffffffffff) : ofNumeral (.ofInt n) = .ok (.int n) := by
  have hsize : UInt64.size = 0x10000000000000000 := rfl
  have habsorb := absorb_digits (show n.natAbs < UInt64.size by omega)
  simp only [ofNumeral, Numeral.ofInt, habsorb, List.isEmpty_nil, Option.isNone_none, and_self,
    if_true, decide_eq_true_eq]
  split
  next h =>
    rw [if_neg (by omega), show -(n.natAbs : Int) = n by omega]
  next h => rw [show (n.natAbs : Int) = n by omega]

end Number

namespace Codec

/-- The value can be read from what is written for it. -/
def ReadsBack (c : Codec α) (a : α) : Prop := c.parse (unitsOfText (c.text a)) = .ok a

/-- What is written for the value can be told apart, starts like a value and is taken by the
reader. -/
structure Faithful (c : Codec α) (a : α) : Prop where
  legible : Legible (c.write a)
  starts : StartsNot .closeList (c.write a)
  takes : c.read.Takes (c.write a) a

/-- Nothing may be left. -/
def whole : Except Cause (α × List Token) → Except Cause α
  | .error f => .error f
  | .ok (a, []) => .ok a
  | .ok (_, _ :: _) => .error .malformed

/-- To parse is to scan and to read all of what was scanned. -/
theorem parse_eq (c : Codec α) (units : List Char) :
    c.parse units = whole (bare (c.read (scan units))) := by
  rw [parse]
  cases c.read (scan units) with
  | error f => rfl
  | ok p =>
    obtain ⟨a, rest, hlt⟩ := p
    cases rest <;> rfl

variable {c : Codec α} {a : α}

/-- What was written legibly is read from the tokens that were written. -/
theorem parse_text (h : Legible (c.write a)) :
    c.parse (unitsOfText (c.text a)) = whole (bare (c.read (c.write a))) := by
  rw [parse_eq, text, chars, scan_unitsOfText h]

/-- A codec that is faithful to a value reads it back from its text. -/
theorem Faithful.readsBack (h : c.Faithful a) : c.ReadsBack a := by
  have htakes := h.takes []
  rw [List.append_nil] at htakes
  rw [ReadsBack, parse_text h.legible, htakes]
  rfl

/-- A codec of integers is faithful to those that its words have. -/
theorem faithful_integer {low high : Int} {ofInt : Int → α} {toInt : α → Int}
    (hlow : -0x8000000000000000 ≤ low) (hhigh : high ≤ 0xffffffffffffffff)
    (hrange : low ≤ toInt a ∧ toInt a ≤ high) (hinv : ofInt (toInt a) = a) :
    (integer low high ofInt toInt).Faithful a where
  legible := .singleton (Numeral.wellFormed_ofInt _)
  starts := ⟨_, _, rfl, by simp⟩
  takes rest := by
    have hvalue := Number.ofNumeral_ofInt (Int.le_trans hlow hrange.1) (Int.le_trans hrange.2 hhigh)
    simp only [integer, List.singleton_append, Reader.number, hvalue, if_pos hrange, hinv]
    rfl

/-- All signed words are read back. -/
theorem faithful_int32 (a : Int32) : int32.Faithful a :=
  faithful_integer (by decide) (by decide) ⟨a.le_toInt, Int.le_of_lt_add_one a.toInt_lt⟩
    a.ofInt_toInt

/-- All words are read back. -/
theorem faithful_uint32 (a : UInt32) : uint32.Faithful a :=
  faithful_integer (by decide) (by decide)
    ⟨Int.natCast_nonneg _, Int.le_of_lt_add_one (Int.ofNat_lt.2 a.toNat_lt)⟩ (by simp)

/-- All long words are read back. -/
theorem faithful_uint64 (a : UInt64) : uint64.Faithful a :=
  faithful_integer (by decide) (by decide)
    ⟨Int.natCast_nonneg _, Int.le_of_lt_add_one (Int.ofNat_lt.2 a.toNat_lt)⟩ (by simp)

/-- A float whose text alone reads back is read everywhere. -/
theorem faithful_float32 {x : Float32} (hx : x.isFinite = true) (h : float32.ReadsBack x) :
    float32.Faithful x := by
  have hwrite : float32.write x = [.number (layout.numeral x)] := if_pos hx
  have hlegible : Legible (float32.write x) := by
    rw [hwrite]
    exact .singleton (layout.wellFormed_numeral x)
  refine ⟨hlegible, ⟨_, _, hwrite, by simp⟩, fun rest => ?_⟩
  -- The text is one token, and what is read from it does not depend on what follows.
  rw [ReadsBack, parse_text hlegible, hwrite] at h
  rw [hwrite]
  simp only [float32, List.singleton_append, Reader.number] at h ⊢
  cases hv : Number.ofNumeral (layout.numeral x) with
  | error f =>
    rw [hv] at h
    cases h
  | ok v =>
    simp only [hv] at h ⊢
    injection h with h
    rw [← h]
    rfl

/-- Floats that are not finite are written as null, which no float is read from. -/
theorem isFinite_of_faithful {x : Float32} (h : float32.Faithful x) : x.isFinite = true := by
  by_contra hx
  have hwrite : float32.write x = [.null] := if_neg hx
  have hread := h.takes []
  rw [hwrite] at hread
  cases hread

/-- A value that is missing is read back as missing. -/
theorem faithful_nullable_none : (nullable c).Faithful none where
  legible := .singleton trivial
  starts := ⟨_, _, rfl, by simp⟩
  takes _ := rfl

/-- A value that may be missing is read back if it does not look like a null. -/
theorem Faithful.nullable (h : c.Faithful a) (hnull : StartsNot .null (c.write a)) :
    (nullable c).Faithful (some a) where
  legible := h.legible
  starts := h.starts
  takes := h.takes.nullable hnull

/-- A triple is read back if its parts are. -/
theorem Faithful.triple {b d : α} (ha : c.Faithful a) (hb : c.Faithful b) (hd : c.Faithful d) :
    (triple c).Faithful (a, b, d) where
  legible := by
    have hlist : Legible ([] ++ .openList :: (c.write a ++ .comma :: (c.write b ++ .comma ::
        (c.write d ++ .closeList :: [])))) :=
      .append .nil (ha.legible.append (hb.legible.append (hd.legible.append .nil)))
    simpa [Codec.triple] using hlist
  starts := ⟨_, _, rfl, by simp⟩
  takes := ha.takes.triple hb.takes hd.takes ha.starts hb.starts hd.starts

/-- What is made of parts is read back if they are and make it again. -/
theorem Faithful.via {b : β} {make : α → β} {parts : β → α} (h : c.Faithful (parts b))
    (hmake : make (parts b) = b) : (c.via make parts).Faithful b where
  legible := h.legible
  starts := h.starts
  takes := by
    have hvia := h.takes.via make
    rwa [hmake] at hvia

end Codec

/-! ## Records -/

/-- The field of `r` is written legibly, and read into a change of the record. -/
structure Field.Carries (f : Field ρ) (r : ρ) (set : ρ → ρ) : Prop where
  name : PlainText f.name
  legible : Legible (f.write r)
  takes : f.read.Takes (f.write r) set

/-- A field carries what its codec is faithful to. -/
theorem Codec.Faithful.field {c : Codec α} {name : String} {get : ρ → α} {set : α → ρ → ρ}
    {optional : Bool} {r : ρ} (h : c.Faithful (get r)) (hname : PlainText name) :
    (c.field name get set optional).Carries r (set (get r)) where
  name := hname
  legible := h.legible
  takes := h.takes.via set

namespace RecordForm

variable {form : RecordForm ρ} {f : Field ρ} {ts rest : List Token} {seen : List String} {r : ρ}

/-- What stands in front of a member: nothing or a comma. -/
def lead (first : Bool) : List Token := if first then [] else [.comma]

/-- What is read after the name of a member, less the proofs that it took something. -/
theorem bare_readMembers (first : Bool) (name : String) (ts : List Token) :
    bare (form.readMembers first seen r (lead first ++ .text name :: ts)) =
      match form.fields.find? (·.name == name) with
      | none =>
        match Reader.punctuation .colon ts with
        | .error e => .error e
        | .ok ((), ⟨ts₁, _⟩) =>
          match skip ts₁ with
          | .error e => .error e
          | .ok ⟨ts₂, _⟩ => bare (form.readMembers false seen r ts₂)
      | some f =>
        if seen.contains name then .error .mistyped
        else
          match Reader.punctuation .colon ts with
          | .error e => .error e
          | .ok ((), ⟨ts₁, _⟩) =>
            match f.read ts₁ with
            | .error e => .error e
            | .ok (set, ⟨ts₂, _⟩) => bare (form.readMembers false (name :: seen) (set r) ts₂) := by
  obtain ⟨hlt, hname⟩ : ∃ hlt, memberName first (lead first ++ .text name :: ts) =
      .ok (name, ⟨ts, hlt⟩) := by
    cases first with
    | true => exact ⟨Nat.lt_succ_self _, rfl⟩
    | false => exact ⟨Nat.lt_succ_of_lt (Nat.lt_succ_self _), rfl⟩
  generalize lead first ++ .text name :: ts = us at hlt hname
  rw [readMembers.eq_def]
  split
  · cases first <;> cases hname
  · simp only [hname]
    cases form.fields.find? (·.name == name) with
    | none =>
      rcases Reader.punctuation .colon ts with e | ⟨⟨⟩, ts₁, h₁⟩
      · rfl
      · rcases hskip : skip ts₁ with e | ⟨ts₂, h₂⟩
        · simp only [hskip]
          rfl
        · simp only [hskip]
          cases form.readMembers false seen r ts₂ <;> rfl
    | some f =>
      cases seen.contains name with
      | true => rfl
      | false =>
        rcases Reader.punctuation .colon ts with e | ⟨⟨⟩, ts₁, h₁⟩
        · rfl
        · rcases hread : f.read ts₁ with e | ⟨set, ts₂, h₂⟩
          · simp only [hread]
            rfl
          · simp only [hread]
            cases form.readMembers false (name :: seen) (set r) ts₂ <;> rfl

/-- A field that has not been read yet is read into the record. -/
theorem readMembers_known {set : ρ → ρ}
    (hfind : form.fields.find? (·.name == f.name) = some f) (hseen : f.name ∉ seen)
    (htakes : f.read.Takes ts set) (first : Bool) (rest : List Token) :
    bare (form.readMembers first seen r (lead first ++ .text f.name :: .colon :: (ts ++ rest))) =
      bare (form.readMembers false (f.name :: seen) (set r) rest) := by
  obtain ⟨hlt, hread⟩ := htakes.exists_eq rest
  have hcontains : seen.contains f.name = false := by simpa using hseen
  rw [bare_readMembers, hfind]
  simp only [hcontains, Bool.false_eq_true, if_false, Reader.punctuation, if_true, hread]

/-- A record ends when no field is missing. -/
theorem readMembers_close {first : Bool} (h : form.complete seen = true) :
    bare (form.readMembers first seen r (.closeRecord :: rest)) = .ok (r, rest) := by
  rw [readMembers.eq_def]
  simp only [if_pos h]
  rfl

/-- The members after the first one. -/
def followers (r : ρ) (fs : List (Field ρ)) : List Token :=
  fs.flatMap fun f => .comma :: .text f.name :: .colon :: f.write r

/-- The members of a record start with the name of the first field and its value. -/
theorem members_cons (r : ρ) (f : Field ρ) (fs : List (Field ρ)) :
    members r (f :: fs) = .text f.name :: .colon :: (f.write r ++ followers r fs) := by
  induction fs generalizing f with
  | nil => simp [members, followers]
  | cons g fs ih => simp [members, ih g, followers]

/-- Members behind the first one are read one after the other: each is of a field that was not seen,
and sets what it carries. -/
theorem readMembers_followers {fs : List (Field ρ)} {sets : List (ρ → ρ)} {v : ρ}
    (hcarries : List.Forall₂ (fun f set => f.Carries v set) fs sets)
    (hfind : ∀ f ∈ fs, form.fields.find? (·.name == f.name) = some f)
    (hdistinct : (fs.map (·.name)).Nodup) (hseen : ∀ f ∈ fs, f.name ∉ seen)
    (hcomplete : form.complete ((fs.map (·.name)).reverse ++ seen) = true) :
    bare (form.readMembers false seen r (followers v fs ++ .closeRecord :: rest)) =
      .ok (sets.foldl (fun r set => set r) r, rest) := by
  -- The members left are those of the fields whose names have not been seen.
  induction hcarries generalizing seen r with
  | nil => exact readMembers_close hcomplete
  | @cons f set fs sets hf hfs ih =>
    rw [List.map_cons, List.nodup_cons] at hdistinct
    have htokens : followers v (f :: fs) ++ .closeRecord :: rest = .comma :: .text f.name ::
        .colon :: (f.write v ++ (followers v fs ++ .closeRecord :: rest)) := by
      simp [followers]
    rw [htokens]
    refine (readMembers_known (hfind f List.mem_cons_self) (hseen f List.mem_cons_self) hf.takes
      false _).trans ?_
    refine ih (fun g hg => hfind g (List.mem_cons_of_mem f hg)) hdistinct.2 (fun g hg => ?_)
      (by simpa using hcomplete)
    rw [List.mem_cons, not_or]
    exact ⟨fun heq => hdistinct.1 (heq ▸ List.mem_map_of_mem hg),
      hseen g (List.mem_cons_of_mem f hg)⟩

/-- Among fields of different names each is found by its own. -/
theorem find?_name {fs : List (Field ρ)} (h : (fs.map (·.name)).Nodup) (hf : f ∈ fs) :
    fs.find? (·.name == f.name) = some f := by
  induction fs with
  | nil => cases hf
  | cons g fs ih =>
    rw [List.map_cons, List.nodup_cons] at h
    rcases List.mem_cons.1 hf with rfl | hf
    · simp
    · have hne : g.name ≠ f.name := fun heq => h.1 (heq ▸ List.mem_map_of_mem hf)
      rw [List.find?_cons_of_neg (by simpa using hne)]
      exact ih h.2 hf

/-- The members of a record are legible. -/
theorem legible_members {fs : List (Field ρ)} {sets : List (ρ → ρ)}
    (hcarries : List.Forall₂ (fun f set => f.Carries r set) fs sets) : Legible (members r fs) := by
  have hmember {f : Field ρ} {set : ρ → ρ} (hf : f.Carries r set) :
      Legible (.text f.name :: .colon :: f.write r) :=
    (Legible.singleton (t := .text f.name) hf.name).append hf.legible
  induction hcarries with
  | nil => exact .nil
  | cons hf hfs ih =>
    cases hfs with
    | nil => exact hmember hf
    | cons hg hfs => exact (hmember hf).append ih

/-- With all fields seen none is missing. -/
theorem complete_names (form : RecordForm ρ) :
    form.complete (form.fields.map (·.name)).reverse = true := by
  simp only [complete, List.all_eq_true, Bool.or_eq_true, List.contains_iff_mem, List.mem_reverse]
  exact fun f hf => .inr (List.mem_map_of_mem hf)

/-- The members of all fields are read, each setting what it carries. -/
theorem readMembers_members {sets : List (ρ → ρ)} {v : ρ}
    (hcarries : List.Forall₂ (fun f set => f.Carries v set) form.fields sets)
    (hdistinct : (form.fields.map (·.name)).Nodup) (r : ρ) (rest : List Token) :
    bare (form.readMembers true [] r (members v form.fields ++ .closeRecord :: rest)) =
      .ok (sets.foldl (fun r set => set r) r, rest) := by
  have hcomplete := form.complete_names
  have hfind (f : Field ρ) (hf : f ∈ form.fields) := find?_name hdistinct hf
  generalize hfields : form.fields = fs at hcarries hdistinct hcomplete ⊢
  replace hfind (f : Field ρ) (hf : f ∈ fs) := hfind f (hfields ▸ hf)
  cases hcarries with
  | nil => exact readMembers_close hcomplete
  | @cons f set fs sets hf hfs =>
    rw [List.map_cons, List.nodup_cons] at hdistinct
    rw [members_cons, List.cons_append, List.cons_append, List.append_assoc]
    refine (readMembers_known (hfind f List.mem_cons_self) List.not_mem_nil hf.takes
      true _).trans ?_
    refine readMembers_followers hfs (fun g hg => hfind g (List.mem_cons_of_mem f hg)) hdistinct.2
      (fun g hg => ?_) (by simpa using hcomplete)
    rw [List.mem_singleton]
    exact fun heq => hdistinct.1 (heq ▸ List.mem_map_of_mem hg)

/-- A record whose fields carry it is read back. -/
theorem faithful_codec {sets : List (ρ → ρ)}
    (hcarries : List.Forall₂ (fun f set => f.Carries r set) form.fields sets)
    (hdistinct : (form.fields.map (·.name)).Nodup)
    (hsets : sets.foldl (fun r set => set r) form.base = r) : form.codec.Faithful r where
  legible := Legible.nil.append (m := .openRecord) <|
    (legible_members hcarries).append (m := .closeRecord) .nil
  starts := ⟨_, _, rfl, by simp⟩
  takes rest := by
    have hread := readMembers_members hcarries hdistinct form.base rest
    rw [hsets, bare_eq_ok_iff] at hread
    obtain ⟨hlt, hread⟩ := hread
    have htokens : form.codec.write r ++ rest =
        .openRecord :: (members r form.fields ++ .closeRecord :: rest) := by
      simp [codec]
    rw [htokens]
    simp only [codec, read, hread]
    rfl

end RecordForm
end VoxelStream.Json
