import VoxelStream.Proofs.Json.Value

/-!
# Objects that lack fields

An object with some of the fields of a form, among members that the form does not know, is read as
the base of the form with just these fields set (`RecordForm.read_object`). The members can come in
any order: what each of them does to the record is said by `RecordForm.Effect`, and reading goes
from one to the next. A field that was read before ends the reading at its name, whatever comes
after (`RecordForm.read_repeated`).
-/

namespace VoxelStream.Json

variable {ρ : Type}

/-- A member of an object: its name and the tokens of its value. -/
structure Member where
  name : String
  value : List Token
deriving DecidableEq, Repr

def Member.tokens (m : Member) : List Token := .text m.name :: .colon :: m.value

/-- The tokens of an object. -/
def object (ms : List Member) : List Token :=
  .openRecord :: (listed (ms.map Member.tokens) ++ [.closeRecord])

/-- Members with values make an object, which is a value. -/
theorem isValue_object {ms : List Member} (h : ∀ m ∈ ms, IsValue m.value) :
    IsValue (object ms) := by
  have hrecord : IsValue (.openRecord :: (listed ((ms.map fun m => (Token.text m.name, m.value)).map
      fun m => m.1 :: .colon :: m.2) ++ [.closeRecord])) := by
    refine .record ?_ ?_
    · intro p hp
      obtain ⟨m, -, rfl⟩ := List.mem_map.1 hp
      trivial
    · intro p hp
      obtain ⟨m, hm, rfl⟩ := List.mem_map.1 hp
      exact h m hm
  rwa [List.map_map] at hrecord

namespace RecordForm

/-! ## Items in a row -/

/-- Items, the first ones of a list or others behind them. -/
def further (first : Bool) (items : List (List Token)) : List Token :=
  if first then listed items else items.flatMap (.comma :: ·)

/-- An item has its comma in front unless it is the first one. -/
theorem further_cons (first : Bool) (item : List Token) (items : List (List Token)) :
    further first (item :: items) = lead first ++ (item ++ further false items) := by
  cases first with
  | true => exact listed_cons item items
  | false => rfl

/-- There is no comma without an item. -/
theorem further_nil (first : Bool) : further first [] = [] := by
  cases first <;> rfl

variable {form : RecordForm ρ} {m : Member} {o : Option (ρ → ρ)} {seen : List String} {r : ρ}

/-! ## Single members -/

/-- What a member does to a record: it sets a field, or nobody asks for it. -/
inductive Effect (form : RecordForm ρ) (m : Member) : Option (ρ → ρ) → Prop
  | sets {f : Field ρ} {set : ρ → ρ} : form.fields.find? (·.name == m.name) = some f →
      f.read.Takes m.value set → Effect form m (some set)
  | skipped : form.fields.find? (·.name == m.name) = none → IsValue m.value → Effect form m none

/-- A member that nobody asks for is passed over. -/
theorem readMembers_unknown (hfind : form.fields.find? (·.name == m.name) = none)
    (hvalue : IsValue m.value) (first : Bool) (rest : List Token) :
    bare (form.readMembers first seen r (lead first ++ (m.tokens ++ rest))) =
      bare (form.readMembers false seen r rest) := by
  obtain ⟨hlt, hskip⟩ := left_eq_ok_iff.1 (hvalue.skip_eq rest)
  rw [Member.tokens, List.cons_append, List.cons_append, bare_readMembers, hfind]
  simp only [Reader.punctuation, if_true, hskip]

/-- A field that was read before is refused at its name. -/
theorem readMembers_seen {f : Field ρ} {name : String}
    (hfind : form.fields.find? (·.name == name) = some f) (hseen : name ∈ seen) (first : Bool)
    (rest : List Token) :
    bare (form.readMembers first seen r (lead first ++ .text name :: rest)) =
      .error .mistyped := by
  have hcontains : seen.contains name = true := by simpa using hseen
  rw [bare_readMembers, hfind]
  simp only [hcontains, if_true]

/-- The names of fields that have been read after a member. -/
def seenAfter (m : Member) (o : Option (ρ → ρ)) (seen : List String) : List String :=
  if o.isSome then m.name :: seen else seen

/-- Reading goes from one member to the next. -/
theorem readMembers_effect (h : form.Effect m o) (hseen : o.isSome = true → m.name ∉ seen)
    (first : Bool) (rest : List Token) :
    bare (form.readMembers first seen r (lead first ++ (m.tokens ++ rest))) =
      bare (form.readMembers false (seenAfter m o seen) (o.elim r (· r)) rest) := by
  cases h with
  | skipped hfind hvalue => exact readMembers_unknown hfind hvalue first rest
  | @sets f set hfind htakes =>
    have hname : f.name = m.name := by simpa using List.find?_some hfind
    rw [← hname] at hfind hseen
    have hknown := readMembers_known (r := r) hfind (hseen rfl) htakes first rest
    rw [hname] at hknown
    exact hknown

/-! ## Objects -/

/-- The names of the fields that members set. -/
def known (es : List (Member × Option (ρ → ρ))) : List String :=
  es.filterMap fun (m, o) => o.map fun _ => m.name

/-- Members with distinct names have their effects, one after the other. -/
theorem readMembers_effects {es : List (Member × Option (ρ → ρ))}
    (heffect : ∀ e ∈ es, form.Effect e.1 e.2) (hcomplete : ∀ seen, form.complete seen = true)
    (hdistinct : (known es).Nodup) (hseen : ∀ name ∈ known es, name ∉ seen) (first : Bool)
    (rest : List Token) :
    bare (form.readMembers first seen r
      (further first (es.map (·.1.tokens)) ++ .closeRecord :: rest)) =
      .ok ((es.filterMap (·.2)).foldl (fun r set => set r) r, rest) := by
  -- The names left are those of fields that have not been read.
  induction es generalizing first seen r with
  | nil =>
    rw [List.map_nil, further_nil]
    exact readMembers_close (hcomplete seen)
  | cons e es ih =>
    obtain ⟨m, o⟩ := e
    have hrest : ∀ e ∈ es, form.Effect e.1 e.2 := fun e he => heffect e (List.mem_cons_of_mem _ he)
    have heff := heffect _ List.mem_cons_self
    rw [List.map_cons, further_cons, List.append_assoc, List.append_assoc]
    cases o with
    | none => exact (readMembers_effect heff nofun first _).trans (ih hrest hdistinct hseen false)
    | some set =>
      have hknown : known ((m, some set) :: es) = m.name :: known es := rfl
      rw [hknown] at hdistinct hseen
      rw [List.nodup_cons] at hdistinct
      rw [List.forall_mem_cons] at hseen
      refine (readMembers_effect heff (fun _ => hseen.1) first _).trans
        (ih hrest hdistinct.2 ?_ false)
      intro name hname hmem
      rcases List.mem_cons.1 hmem with rfl | hmem
      · exact hdistinct.1 hname
      · exact hseen.2 name hname hmem

/-- A field that was read before is refused at its name. -/
theorem readMembers_repeated {es : List (Member × Option (ρ → ρ))}
    (heffect : ∀ e ∈ es, form.Effect e.1 e.2) {f : Field ρ}
    (hfind : form.fields.find? (·.name == m.name) = some f)
    (hname : m.name ∈ known es ∨ m.name ∈ seen) (items : List (List Token)) (first : Bool)
    (rest : List Token) :
    bare (form.readMembers first seen r
      (further first (es.map (·.1.tokens) ++ m.tokens :: items) ++ rest)) = .error .mistyped := by
  induction es generalizing first seen r with
  | nil =>
    have hseen : m.name ∈ seen := hname.resolve_left nofun
    rw [List.map_nil, List.nil_append, further_cons, List.append_assoc, List.append_assoc]
    exact readMembers_seen hfind hseen first _
  | cons e es ih =>
    obtain ⟨m', o⟩ := e
    have hrest : ∀ e ∈ es, form.Effect e.1 e.2 := fun e he => heffect e (List.mem_cons_of_mem _ he)
    have heff := heffect _ List.mem_cons_self
    rw [List.map_cons, List.cons_append, further_cons, List.append_assoc, List.append_assoc]
    cases o with
    | none => exact (readMembers_effect heff nofun first _).trans (ih hrest hname false)
    | some set =>
      by_cases hseen : m'.name ∈ seen
      · cases heff with
        | sets hfind' _ => exact readMembers_seen hfind' hseen first _
      · refine (readMembers_effect heff (fun _ => hseen) first _).trans (ih hrest ?_ false)
        have hknown : known ((m', some set) :: es) = m'.name :: known es := rfl
        rw [hknown, List.mem_cons] at hname
        rcases hname with (heq | hes) | hmem
        · exact .inr (heq ▸ List.mem_cons_self)
        · exact .inl hes
        · exact .inr (List.mem_cons_of_mem _ hmem)

/-- An object with distinct fields is the base with these fields set. -/
theorem read_object {es : List (Member × Option (ρ → ρ))}
    (heffect : ∀ e ∈ es, form.Effect e.1 e.2) (hcomplete : ∀ seen, form.complete seen = true)
    (hdistinct : (known es).Nodup) :
    bare (form.codec.read (object (es.map (·.1)))) =
      .ok ((es.filterMap (·.2)).foldl (fun r set => set r) form.base, []) := by
  have hmembers := readMembers_effects (r := form.base) heffect hcomplete hdistinct
    (fun _ _ => List.not_mem_nil) true []
  rw [further, if_pos rfl, bare_eq_ok_iff] at hmembers
  obtain ⟨hlt, hmembers⟩ := hmembers
  rw [object, List.map_map]
  show bare (form.read (.openRecord :: (listed (es.map (·.1.tokens)) ++ [.closeRecord]))) = _
  rw [read, hmembers]
  rfl

/-- An object in which a field was set before is no record of the form. -/
theorem read_repeated {es : List (Member × Option (ρ → ρ))}
    (heffect : ∀ e ∈ es, form.Effect e.1 e.2) {f : Field ρ}
    (hfind : form.fields.find? (·.name == m.name) = some f) (hname : m.name ∈ known es)
    (ms : List Member) :
    bare (form.codec.read (object (es.map (·.1) ++ m :: ms))) = .error .mistyped := by
  have hmembers : bare (form.readMembers true [] form.base (further true
      (es.map (·.1.tokens) ++ m.tokens :: ms.map Member.tokens) ++ [.closeRecord])) =
        .error .mistyped := readMembers_repeated heffect hfind (.inl hname) _ true _
  rw [further, if_pos rfl] at hmembers
  rw [object, List.map_append, List.map_cons, List.map_map]
  show bare (form.read (.openRecord :: (listed (es.map (·.1.tokens) ++ m.tokens ::
    ms.map Member.tokens) ++ [.closeRecord]))) = _
  rw [read]
  cases hr : form.readMembers true [] form.base
    (listed (es.map (·.1.tokens) ++ m.tokens :: ms.map Member.tokens) ++ [.closeRecord]) with
  | ok p =>
    rw [hr] at hmembers
    cases hmembers
  | error e =>
    rw [hr] at hmembers
    cases hmembers
    rfl

end RecordForm
end VoxelStream.Json
