import VoxelStream.Proofs.Json.Overlay
import VoxelStream.Proofs.Json.Spelling
import VoxelStream.Stream.ConfigFile

/-!
# What a configuration file gives

A file need not say all of a configuration. Whichever fields it has, in whatever order and among
whatever other members, reading it gives the defaults with these fields in place
(`Config.load_overlays`); a field that is there twice makes it unreadable. What was read is then
judged by the checks of `Config.validate`, and the first of its flaws is what is wrong with the
file.
-/

namespace VoxelStream

open Json Decimal

/-! ## Flaws -/

namespace Config

/-- All that is wrong with a configuration: its depth, its radius, its factor, its interval. -/
def flaws (c : Config) : List ConfigError :=
  (if 1 ≤ c.rootLevel ∧ c.rootLevel ≤ maxRootLevel then []
    else [.tree (.invalidRootLevel c.rootLevel)]) ++
  (if isPositive c.maxRadius then [] else [.invalidRadius c.maxRadius]) ++
  (c.lodFactor.toList.filter (!isPositive ·)).map .invalidLodFactor ++
  (if c.pollMilliseconds = 0 then [.zeroPollInterval] else [])

/-- The first flaw is the one that is told. -/
theorem validate_eq_error_iff {c : Config} {e : ConfigError} :
    c.validate = .error e ↔ c.flaws.head? = some e := by
  unfold validate flaws Tree.ofLevel
  by_cases hlevel : 1 ≤ c.rootLevel ∧ c.rootLevel ≤ maxRootLevel
  · cases hradius : isPositive c.maxRadius with
    | false => simp [hlevel]
    | true =>
      cases c.lodFactor with
      | none => by_cases hpoll : c.pollMilliseconds = 0 <;> simp [hlevel, hpoll]
      | some k =>
        cases hk : isPositive k <;> by_cases hpoll : c.pollMilliseconds = 0 <;>
          simp [hlevel, hk, hpoll, Option.filter]
  · simp [hlevel]

end Config

/-! ## Settings -/

/-- A field of a configuration with a value. -/
inductive Setting where
  | rootLevel (level : UInt32)
  | maxRadius (radius : Float32)
  | lodFactor (factor : Option Float32)
  | pollMilliseconds (interval : UInt64)

namespace Setting

/-- How the field is called in a file. -/
def name : Setting → String
  | rootLevel _ => "root_level"
  | maxRadius _ => "max_radius"
  | lodFactor _ => "lod_factor"
  | pollMilliseconds _ => "poll_interval_ms"

def apply : Setting → Config → Config
  | rootLevel level, c => { c with rootLevel := level }
  | maxRadius radius, c => { c with maxRadius := radius }
  | lodFactor factor, c => { c with lodFactor := factor }
  | pollMilliseconds interval, c => { c with pollMilliseconds := interval }

def rootLevel? : Setting → Option UInt32
  | rootLevel level => some level
  | _ => none

def maxRadius? : Setting → Option Float32
  | maxRadius radius => some radius
  | _ => none

def lodFactor? : Setting → Option (Option Float32)
  | lodFactor factor => some factor
  | _ => none

def pollMilliseconds? : Setting → Option UInt64
  | pollMilliseconds interval => some interval
  | _ => none

end Setting

/-- A configuration with some fields set; the others are as they were. -/
def Config.overlaid (c : Config) (ss : List Setting) : Config where
  rootLevel := (ss.findSome? Setting.rootLevel?).getD c.rootLevel
  maxRadius := (ss.findSome? Setting.maxRadius?).getD c.maxRadius
  lodFactor := (ss.findSome? Setting.lodFactor?).getD c.lodFactor
  pollMilliseconds := (ss.findSome? Setting.pollMilliseconds?).getD c.pollMilliseconds

namespace Setting

/-- What a field is after some settings, one of each field at most. -/
theorem foldl_field {α : Type} (get : Setting → Option α) (field : Config → α)
    (hget : ∀ s c, field (s.apply c) = (get s).getD (field c))
    (hname : ∀ s t, get s ≠ none → get t ≠ none → s.name = t.name) {ss : List Setting}
    (hdistinct : (ss.map name).Nodup) (c : Config) :
    field (ss.foldl (fun c s => s.apply c) c) = (ss.findSome? get).getD (field c) := by
  induction ss generalizing c with
  | nil => rfl
  | cons s ss ih =>
    rw [List.map_cons, List.nodup_cons] at hdistinct
    rw [List.foldl_cons, ih hdistinct.2, hget, List.findSome?_cons]
    cases hs : get s with
    | none => rfl
    | some a =>
      have hlater : ss.findSome? get = none := by
        rw [List.findSome?_eq_none_iff]
        intro t ht
        by_contra hsome
        exact hdistinct.1 (List.mem_map.2 ⟨t, ht, hname t s hsome (by simp [hs])⟩)
      rw [hlater]
      rfl

/-- Settings with distinct names overlay a configuration, whatever their order. -/
theorem foldl_apply {ss : List Setting} (h : (ss.map name).Nodup) (c : Config) :
    ss.foldl (fun c s => s.apply c) c = c.overlaid ss := by
  have hlevel := foldl_field rootLevel? (·.rootLevel)
    (fun s _ => by cases s <;> rfl)
    (fun s t hs ht => by cases s <;> cases t <;> first | rfl | contradiction) h c
  have hradius := foldl_field maxRadius? (·.maxRadius)
    (fun s _ => by cases s <;> rfl)
    (fun s t hs ht => by cases s <;> cases t <;> first | rfl | contradiction) h c
  have hfactor := foldl_field lodFactor? (·.lodFactor)
    (fun s _ => by cases s <;> rfl)
    (fun s t hs ht => by cases s <;> cases t <;> first | rfl | contradiction) h c
  have hpoll := foldl_field pollMilliseconds? (·.pollMilliseconds)
    (fun s _ => by cases s <;> rfl)
    (fun s t hs ht => by cases s <;> cases t <;> first | rfl | contradiction) h c
  rw [Config.overlaid, ← hlevel, ← hradius, ← hfactor, ← hpoll]

end Setting

/-! ## Numbers -/

namespace Json

/-- The numeral is that of a natural number, without a sign. -/
def IsWhole (n : Numeral) (k : Nat) : Prop :=
  n.negative = false ∧ n.fraction = [] ∧ n.exponent = none ∧ Decimal.value n.whole = k

/-- The numeral is that of a float. Every number that is not too large for a double is. -/
def IsFloat (n : Numeral) (x : Float32) : Prop :=
  (Number.ofNumeral n).map Number.toFloat32 = .ok x

instance (n : Numeral) (x : Float32) : Decidable (IsFloat n x) :=
  inferInstanceAs (Decidable ((Number.ofNumeral n).map Number.toFloat32 = .ok x))

variable {n : Numeral} {k : Nat} {x : Float32}

/-- A whole numeral within the words is read as an integer. -/
theorem IsWhole.ofNumeral_eq (h : IsWhole n k) (hk : k < UInt64.size) :
    Number.ofNumeral n = .ok (.int k) := by
  obtain ⟨hsign, hfraction, hexponent, hvalue⟩ := h
  have hfold : n.whole.foldl (fun n d => n * 10 + d.val) 0 = k := hvalue
  have habsorb : Number.absorb 0 n.whole = (k, []) := by
    rw [Number.absorb_eq (by rwa [hfold]), hfold]
  simp [Number.ofNumeral, habsorb, hsign, hfraction, hexponent]

namespace Codec

/-- An integer in its range is taken from the numeral that spells it. -/
theorem takes_integer {α : Type} {low high : Int} {ofInt : Int → α} {toInt : α → Int} {a : α}
    (h : IsWhole n k) (hk : k < UInt64.size) (hrange : low ≤ k ∧ k ≤ high) (ha : ofInt k = a) :
    (integer low high ofInt toInt).read.Takes [.number n] a := by
  intro rest
  simp only [integer, List.singleton_append, Reader.number, h.ofNumeral_eq hk, if_pos hrange, ha]
  rfl

/-- A word is taken from the numeral that spells it. -/
theorem takes_uint32 {w : UInt32} (h : IsWhole n w.toNat) : uint32.read.Takes [.number n] w := by
  have hlt := w.toNat_lt
  exact takes_integer h (Nat.lt_trans hlt (by decide)) ⟨by omega, by omega⟩ (by simp)

/-- A long word is taken from the numeral that spells it. -/
theorem takes_uint64 {w : UInt64} (h : IsWhole n w.toNat) : uint64.read.Takes [.number n] w := by
  have hlt := w.toNat_lt
  exact takes_integer h hlt ⟨by omega, by omega⟩ (by simp)

/-- A float is taken from the numeral that spells it. -/
theorem takes_float32 (h : IsFloat n x) : float32.read.Takes [.number n] x := by
  intro rest
  unfold IsFloat at h
  cases hv : Number.ofNumeral n with
  | error f =>
    rw [hv] at h
    cases h
  | ok v =>
    rw [hv] at h
    cases h
    simp only [float32, List.singleton_append, Reader.number, hv]
    rfl

end Codec
end Json

/-! ## Members -/

namespace Setting

/-- The value of the field can be written with these tokens. -/
inductive WrittenAs : Setting → List Token → Prop
  | rootLevel {level : UInt32} {n : Numeral} : IsWhole n level.toNat →
      WrittenAs (.rootLevel level) [.number n]
  | maxRadius {radius : Float32} {n : Numeral} : IsFloat n radius →
      WrittenAs (.maxRadius radius) [.number n]
  | noFactor : WrittenAs (.lodFactor none) [.null]
  | lodFactor {factor : Float32} {n : Numeral} : IsFloat n factor →
      WrittenAs (.lodFactor (some factor)) [.number n]
  | pollMilliseconds {interval : UInt64} {n : Numeral} : IsWhole n interval.toNat →
      WrittenAs (.pollMilliseconds interval) [.number n]

/-- A setting is written as a single value. -/
theorem WrittenAs.isValue {s : Setting} {ts : List Token} (h : s.WrittenAs ts) : IsValue ts := by
  cases h <;> exact .scalar trivial

end Setting

/-- A member of a file: a field, or something else. -/
inductive Entry where
  | setting (s : Setting) (value : List Token)
  | other (m : Member)

namespace Entry

def member : Entry → Member
  | setting s value => ⟨s.name, value⟩
  | other m => m

def setting? : Entry → Option Setting
  | setting s _ => some s
  | other _ => none

/-- A field has a value of its own type; anything else has a value of any form, and another name
than the fields have. -/
def WellFormed : Entry → Prop
  | setting s value => s.WrittenAs value
  | other m => (∀ s : Setting, s.name ≠ m.name) ∧ IsValue m.value

/-- The fields among some members. -/
def settings (es : List Entry) : List Setting := es.filterMap setting?

/-- An entry holds a single value, whether its name is known or not. -/
theorem WellFormed.isValue {e : Entry} (h : e.WellFormed) : IsValue e.member.value := by
  cases e with
  | setting s value => exact Setting.WrittenAs.isValue h
  | other m => exact h.2

end Entry

/-! ## Files -/

namespace Config

/-- What is known of the form of a configuration: it starts from the defaults and asks for nothing,
it has a field for each setting, and it takes from a member what this sets. -/
theorem exists_form : ∃ form : RecordForm Config, Forms.config = form.codec ∧ form.base = {} ∧
    (∀ seen, form.complete seen = true) ∧
    (∀ s : Setting, ∃ f, form.fields.find? (·.name == s.name) = some f) ∧
    ∀ e : Entry, e.WellFormed → form.Effect e.member (e.setting?.map Setting.apply) := by
  refine ⟨_, rfl, rfl, fun _ => rfl, fun s => ?_, fun e he => ?_⟩
  · cases s <;> exact ⟨_, rfl⟩
  · cases e with
    | setting s value =>
      cases he with
      | rootLevel h => exact .sets rfl ((Codec.takes_uint32 h).via _)
      | maxRadius h => exact .sets rfl ((Codec.takes_float32 h).via _)
      | noFactor => exact .sets rfl fun rest => rfl
      | lodFactor h =>
        exact .sets rfl (((Codec.takes_float32 h).nullable ⟨_, _, rfl, by simp⟩).via _)
      | pollMilliseconds h => exact .sets rfl ((Codec.takes_uint64 h).via _)
    | other m =>
      obtain ⟨hname, hvalue⟩ := he
      refine .skipped (List.find?_eq_none.2 ?_) hvalue
      simp only [List.forall_mem_cons, beq_iff_eq]
      exact ⟨hname (.rootLevel 0), hname (.maxRadius 0), hname (.lodFactor none),
        hname (.pollMilliseconds 0), nofun⟩

/-- Members and what they set. -/
def effects (es : List Entry) : List (Member × Option (Config → Config)) :=
  es.map fun e => (e.member, e.setting?.map Setting.apply)

/-- Entries and their effects have the same members. -/
theorem map_effects (es : List Entry) : (effects es).map (·.1) = es.map Entry.member :=
  List.map_map

/-- The known names among the entries are those of their settings. -/
theorem known_effects (es : List Entry) :
    RecordForm.known (effects es) = (Entry.settings es).map Setting.name := by
  induction es with
  | nil => rfl
  | cons e es ih =>
    cases e with
    | setting s value => exact congrArg (s.name :: ·) ih
    | other m => exact ih

/-- The entries have the effects of their settings, in order. -/
theorem foldl_effects (es : List Entry) (c : Config) :
    ((effects es).filterMap (·.2)).foldl (fun c set => set c) c =
      (Entry.settings es).foldl (fun c s => s.apply c) c := by
  induction es generalizing c with
  | nil => rfl
  | cons e es ih =>
    cases e with
    | setting s value => exact ih (s.apply c)
    | other m => exact ih c

section
variable {units : List Char} {es : List Entry} (hes : ∀ e ∈ es, e.WellFormed)
include hes

/-- An object with distinct fields overlays the defaults. -/
theorem parse_overlay (hunits : Spells units (object (es.map Entry.member)))
    (hdistinct : ((Entry.settings es).map Setting.name).Nodup) :
    Forms.config.parse units = .ok (overlaid {} (Entry.settings es)) := by
  obtain ⟨form, hform, hbase, hcomplete, -, heffect⟩ := exists_form
  have hvalue : IsValue (object (es.map Entry.member)) := isValue_object fun m hm => by
    obtain ⟨e, he, rfl⟩ := List.mem_map.1 hm
    exact (hes e he).isValue
  have heffects : ∀ p ∈ effects es, form.Effect p.1 p.2 := fun p hp => by
    obtain ⟨e, he, rfl⟩ := List.mem_map.1 hp
    exact heffect e (hes e he)
  have hread := RecordForm.read_object heffects hcomplete (by rwa [known_effects])
  rw [map_effects, foldl_effects, Setting.foldl_apply hdistinct, hbase] at hread
  rw [hform, Codec.parse_eq, hunits.scan_eq hvalue.isChain, hread]
  rfl

/-- An object in which a field comes again is refused. -/
theorem parse_repeated {m : Member} {ms : List Member}
    (hm : m.name ∈ (Entry.settings es).map Setting.name)
    (hms : ∀ n ∈ m :: ms, IsValue n.value)
    (hunits : Spells units (object (es.map Entry.member ++ m :: ms))) :
    Forms.config.parse units = .error .mistyped := by
  obtain ⟨form, hform, -, -, hfind, heffect⟩ := exists_form
  have hvalue : IsValue (object (es.map Entry.member ++ m :: ms)) := isValue_object fun n hn => by
    rcases List.mem_append.1 hn with hn | hn
    · obtain ⟨e, he, rfl⟩ := List.mem_map.1 hn
      exact (hes e he).isValue
    · exact hms n hn
  obtain ⟨s, -, hs⟩ := List.mem_map.1 hm
  obtain ⟨f, hf⟩ := hfind s
  rw [hs] at hf
  have heffects : ∀ p ∈ effects es, form.Effect p.1 p.2 := fun p hp => by
    obtain ⟨e, he, rfl⟩ := List.mem_map.1 hp
    exact heffect e (hes e he)
  have hread := RecordForm.read_repeated heffects hf (by rwa [known_effects]) ms
  rw [map_effects] at hread
  rw [hform, Codec.parse_eq, hunits.scan_eq hvalue.isChain, hread]
  rfl

end

/-- A field that comes again has a first time that it does. -/
theorem exists_again {es : List Entry} (h : ¬((Entry.settings es).map Setting.name).Nodup) :
    ∃ front s value back, es = front ++ .setting s value :: back ∧
      s.name ∈ (Entry.settings front).map Setting.name := by
  induction es with
  | nil => exact absurd .nil h
  | cons e es ih =>
    cases e with
    | other m =>
      obtain ⟨front, s, value, back, rfl, hs⟩ := ih h
      exact ⟨.other m :: front, s, value, back, rfl, hs⟩
    | setting s value =>
      have hcons : (Entry.settings (.setting s value :: es)).map Setting.name =
          s.name :: (Entry.settings es).map Setting.name := rfl
      rw [hcons, List.nodup_cons, not_and_or, not_not] at h
      rcases h with hmem | hrest
      · obtain ⟨t, ht, hname⟩ := List.mem_map.1 hmem
        obtain ⟨e, he, hsetting⟩ := List.mem_filterMap.1 ht
        obtain ⟨front, back, rfl⟩ := List.append_of_mem he
        cases e with
        | other m => cases hsetting
        | setting u value' =>
          cases hsetting
          exact ⟨.setting s value :: front, t, value', back, rfl, hname ▸ List.mem_cons_self⟩
      · obtain ⟨front, t, value', back, rfl, ht⟩ := ih hrest
        exact ⟨.setting s value :: front, t, value', back, rfl, List.mem_cons_of_mem _ ht⟩

/-- A file that is read is loaded if its configuration is valid. -/
theorem load_of_parse {data : ByteArray} {c : Config}
    (h : Forms.config.parse (unitsOfBytes data) = .ok c) :
    load (.bytes data) = c.validate.map fun _ => c := by
  simp only [load, read, h, Except.mapError, bind, Except.bind]
  cases c.validate <;> rfl

/-- A file that is not read fails with the cause, and nothing is checked. -/
theorem load_of_parse_error {data : ByteArray} {f : Cause}
    (h : Forms.config.parse (unitsOfBytes data) = .error f) :
    load (.bytes data) = .error (.json f) := by
  simp only [load, read, h]
  rfl

/-- A file with an object of fields and other members, in any order and any spelling.

If no field is there twice, then reading it gives the defaults with these fields in place. The file
can be loaded if this is usable, and otherwise fails with the first of its flaws. If a field comes
again then the file has not the form of a configuration, whatever the field holds the second time
and whatever stands behind it. -/
theorem load_overlays (data : ByteArray) {es : List Entry} (hes : ∀ e ∈ es, e.WellFormed) :
    (Spells (unitsOfBytes data) (object (es.map Entry.member)) →
      ((Entry.settings es).map Setting.name).Nodup →
      ∃ c, c = overlaid {} (Entry.settings es) ∧
        Forms.config.parse (unitsOfBytes data) = .ok c ∧
        (load (.bytes data) = .ok c ↔ ∃ tree, c.validate = .ok tree) ∧
        ∀ e, load (.bytes data) = .error e ↔ c.flaws.head? = some e) ∧
    (Spells (unitsOfBytes data) (object (es.map Entry.member)) →
      ¬((Entry.settings es).map Setting.name).Nodup →
      Forms.config.parse (unitsOfBytes data) = .error .mistyped ∧
        load (.bytes data) = .error (.json .mistyped)) ∧
    ∀ m ms, m.name ∈ (Entry.settings es).map Setting.name → (∀ n ∈ m :: ms, IsValue n.value) →
      Spells (unitsOfBytes data) (object (es.map Entry.member ++ m :: ms)) →
      Forms.config.parse (unitsOfBytes data) = .error .mistyped ∧
        load (.bytes data) = .error (.json .mistyped) := by
  refine ⟨fun hdata hdistinct => ?_, fun hdata hagain => ?_, fun m ms hm hms hdata => ?_⟩
  · have hparse := parse_overlay hes hdata hdistinct
    refine ⟨_, rfl, hparse, ?_, fun e => ?_⟩
    · rw [load_of_parse hparse]
      cases validate (overlaid {} (Entry.settings es)) <;> simp [Except.map]
    · rw [load_of_parse hparse, ← validate_eq_error_iff]
      cases validate (overlaid {} (Entry.settings es)) <;> simp [Except.map]
  · obtain ⟨front, s, value, back, rfl, hs⟩ := exists_again hagain
    rw [List.map_append, List.map_cons] at hdata
    rw [List.forall_mem_append] at hes
    have hparse := parse_repeated hes.1 hs (fun n hn => by
      rw [← List.map_cons] at hn
      obtain ⟨e, he, rfl⟩ := List.mem_map.1 hn
      exact (hes.2 e he).isValue) hdata
    exact ⟨hparse, load_of_parse_error hparse⟩
  · have hparse := parse_repeated hes hm hms hdata
    exact ⟨hparse, load_of_parse_error hparse⟩

/-- A depth in its usual spelling. -/
def depthEntry (level : UInt32) : Entry :=
  .setting (.rootLevel level) [.number (.ofInt level.toNat)]

/-- An entry with a depth is well-formed, whatever the depth. -/
theorem wellFormed_depthEntry (level : UInt32) : (depthEntry level).WellFormed :=
  .rootLevel ⟨rfl, rfl, rfl, value_digits _⟩

/-- A factor, a member that no field is for, and a depth. -/
def sampleEntries : List Entry := [
  .setting (.lodFactor (some 2.5)) [.number ⟨false, digits 2, digits 5, some ⟨.plus, digits 0⟩⟩],
  .other ⟨"x", .openList :: (listed [object [⟨"y", [.null]⟩], [.brokenText .malformed none]] ++
    [.closeList])⟩,
  depthEntry 5]

/-- All entries of the sample are well-formed. -/
theorem wellFormed_sampleEntries : ∀ e ∈ sampleEntries, e.WellFormed := by
  have hvalue : IsValue (.openList :: (listed [object [⟨"y", [.null]⟩],
      [.brokenText .malformed none]] ++ [.closeList])) := by
    refine .list ?_
    simp only [List.forall_mem_cons]
    refine ⟨isValue_object ?_, .scalar trivial, nofun⟩
    simp only [List.forall_mem_cons]
    exact ⟨.scalar trivial, nofun⟩
  simp only [sampleEntries, List.forall_mem_cons]
  exact ⟨.lodFactor (by decide +kernel), ⟨fun s => by cases s <;> simp [Setting.name], hvalue⟩,
    wellFormed_depthEntry 5, nofun⟩

/-- A text of these members, with blanks, an escape in a name and half of a pair of escapes. -/
def sampleText : String :=
  " \x7b\"lod\\u005ffactor\": 2.5E+0,\"x\":[\x7b\"y\":null\x7d,\"\\ud800\"],\"root_level\":5\x7d\n"

/-- The name of the depth. -/
def depthSpelling : Spelling :=
  .string (['r', 'o', 'o', 't', '_', 'l', 'e', 'v', 'e', 'l'].map .plain)

/-- The tokens and blanks of the text. -/
def sampleSpelling : List Spelling := [
  .blank ' ', .fixed .openRecord, .string (['l', 'o', 'd'].map .plain ++ .code '0' '0' '5' 'f' ::
    ['f', 'a', 'c', 't', 'o', 'r'].map .plain), .fixed .colon, .blank ' ',
  .number ⟨false, digits 2, digits 5, some ⟨.plus, digits 0⟩⟩ true, .fixed .comma,
  .string [.plain 'x'], .fixed .colon, .fixed .openList, .fixed .openRecord, .string [.plain 'y'],
  .fixed .colon, .fixed .null, .fixed .closeRecord, .fixed .comma, .string [.code 'd' '8' '0' '0'],
  .fixed .closeList, .fixed .comma, depthSpelling, .fixed .colon, .number (.ofInt 5) false,
  .fixed .closeRecord, .blank '\n']

/-- A depth, and then another value under its name. -/
def againSpelling (value : Spelling) : List Spelling := [
  .fixed .openRecord, depthSpelling, .fixed .colon, .number (.ofInt 5) false, .fixed .comma,
  depthSpelling, .fixed .colon, value, .fixed .closeRecord]

/-- The sample is loaded with the two fields that it names, and a field that is repeated is refused,
whatever value it has the second time. -/
theorem load_overlays_sample :
    load (.bytes sampleText.toUTF8) = .ok { rootLevel := 5, lodFactor := some 2.5 } ∧
    load (.bytes "\x7b\"root_level\":5,\"root_level\":6\x7d".toUTF8) = .error (.json .mistyped) ∧
    load (.bytes "\x7b\"root_level\":5,\"root_level\":null\x7d".toUTF8) =
      .error (.json .mistyped) := by
  have hfive : ∀ e ∈ [depthEntry 5], e.WellFormed :=
    List.forall_mem_singleton.2 (wellFormed_depthEntry 5)
  have htwo : ∀ e ∈ [depthEntry 5, depthEntry 6], e.WellFormed :=
    List.forall_mem_cons.2
      ⟨wellFormed_depthEntry 5, List.forall_mem_singleton.2 (wellFormed_depthEntry 6)⟩
  refine ⟨?_, ?_, ?_⟩
  · have hspells : Spells (unitsOfBytes sampleText.toUTF8)
        (object (sampleEntries.map Entry.member)) :=
      spells_text sampleSpelling (by decide +kernel) (by decide +kernel) (by decide +kernel)
        (by decide +kernel)
    obtain ⟨c, hc, -, hload, -⟩ :=
      (load_overlays _ wellFormed_sampleEntries).1 hspells (by decide +kernel)
    have hfields : overlaid {} (Entry.settings sampleEntries) =
        { rootLevel := 5, lodFactor := some 2.5 } := by decide +kernel
    rw [hfields] at hc
    subst hc
    exact hload.2 ⟨⟨5, by decide, by decide⟩, by decide +kernel⟩
  · have hspells : Spells (unitsOfBytes "\x7b\"root_level\":5,\"root_level\":6\x7d".toUTF8)
        (object ([depthEntry 5, depthEntry 6].map Entry.member)) :=
      spells_text (againSpelling (.number (.ofInt 6) false)) (by decide +kernel)
        (by decide +kernel) (by decide +kernel) (by decide +kernel)
    exact ((load_overlays _ htwo).2.1 hspells (by decide +kernel)).2
  · have hspells : Spells (unitsOfBytes "\x7b\"root_level\":5,\"root_level\":null\x7d".toUTF8)
        (object ([depthEntry 5].map Entry.member ++ [⟨"root_level", [.null]⟩])) :=
      spells_text (againSpelling (.fixed .null)) (by decide +kernel) (by decide +kernel)
        (by decide +kernel) (by decide +kernel)
    have hnull : ∀ m ∈ [Member.mk "root_level" [.null]], IsValue m.value :=
      List.forall_mem_singleton.2 (.scalar trivial)
    exact ((load_overlays _ hfive).2.2 _ _ (by decide +kernel) hnull hspells).2

end Config
end VoxelStream
