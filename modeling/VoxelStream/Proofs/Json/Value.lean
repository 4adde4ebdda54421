import VoxelStream.Proofs.Json.Codec

/-!
# Values of any form

`IsValue` is the grammar of values in tokens: lists and objects of any depth, with whatever names
and numbers. A value that nobody asks for is skipped to its end (`IsValue.skip_eq`), because at
every point of it the skipping has just the frames on its stack that are open there.
-/

namespace VoxelStream.Json

/-- A token that is a value. A string need not hold a text if it is not read. -/
def Token.IsScalar : Token → Prop
  | .null | .bool _ | .number _ | .text _ | .brokenText _ none => True
  | _ => False

/-- A token that is the name of a member, as far as skipping goes. -/
def Token.IsName : Token → Prop
  | .text _ | .brokenText _ none => True
  | _ => False

/-- Items with commas between them. -/
def listed (items : List (List Token)) : List Token := [Token.comma].intercalate items

/-- The tokens of a value. -/
inductive IsValue : List Token → Prop
  | scalar {t : Token} : t.IsScalar → IsValue [t]
  | list {items : List (List Token)} : (∀ v ∈ items, IsValue v) →
      IsValue (.openList :: (listed items ++ [.closeList]))
  | record {members : List (Token × List Token)} : (∀ m ∈ members, m.1.IsName) →
      (∀ m ∈ members, IsValue m.2) →
      IsValue (.openRecord :: (listed (members.map fun m => m.1 :: .colon :: m.2) ++
        [.closeRecord]))

/-! ## Items -/

/-- Behind the first item, each has its comma in front of it. -/
theorem listed_cons (item : List Token) (items : List (List Token)) :
    listed (item :: items) = item ++ items.flatMap (.comma :: ·) := by
  unfold listed
  induction items generalizing item with
  | nil => simp
  | cons next rest ih => simp [ih]

/-! ## Neighbours -/

/-- Two sequences are parted by a mark between them. -/
theorem isChain_parted_append {ts us : List Token} {m : Token} (hts : ts.IsChain Parted)
    (hus : us.IsChain Parted) (hm : m.IsMark := by simp [Token.IsMark]) :
    (ts ++ m :: us).IsChain Parted := by
  refine List.isChain_append.2 ⟨hts, hus.cons fun _ _ => .inl hm, ?_⟩
  rintro t - u hu
  cases hu
  exact .inr hm

/-- Items are parted by the commas between them. -/
theorem isChain_parted_listed {items : List (List Token)}
    (h : ∀ item ∈ items, item.IsChain Parted) : (listed items).IsChain Parted := by
  cases items with
  | nil => exact .nil
  | cons first rest =>
    rw [listed_cons]
    have hfirst := h first List.mem_cons_self
    replace h : ∀ item ∈ rest, item.IsChain Parted := fun item hi => h item (by simp [hi])
    induction rest generalizing first with
    | nil => simpa using hfirst
    | cons item rest ih =>
      rw [List.flatMap_cons, List.cons_append]
      exact isChain_parted_append hfirst
        (ih item (h item List.mem_cons_self) fun item hi => h item (List.mem_cons_of_mem _ hi))

/-- Of two neighbours in a value one is punctuation. -/
theorem IsValue.isChain {ts : List Token} (h : IsValue ts) : ts.IsChain Parted := by
  induction h with
  | scalar _ => exact .singleton _
  | list _ ih =>
    exact isChain_parted_append .nil (isChain_parted_append (isChain_parted_listed ih) .nil)
  | record _ _ ih =>
    refine isChain_parted_append .nil (isChain_parted_append (isChain_parted_listed ?_) .nil)
    rintro item hi
    obtain ⟨m, hm, rfl⟩ := List.mem_map.1 hi
    exact isChain_parted_append (.singleton m.1) (ih m hm)

/-! ## Skipping -/

/-- What is left after a value that was skipped. -/
def left {ts : List Token} (e : Except Cause { rest : List Token // rest.length < ts.length }) :
    Except Cause (List Token) := e.map (·.1)

/-- What is left after a value is a list of tokens that is shorter. -/
theorem left_eq_ok_iff {ts rest : List Token}
    {e : Except Cause { rest : List Token // rest.length < ts.length }} :
    left e = .ok rest ↔ ∃ h, e = .ok ⟨rest, h⟩ := by
  constructor
  · intro h
    cases e with
    | error f => cases h
    | ok p =>
      obtain ⟨rest, hlt⟩ := p
      cases h
      exact ⟨hlt, rfl⟩
  · rintro ⟨h, rfl⟩
    rfl

/-- How skipping goes on when a value is complete inside of these frames. -/
def afterValue (frames : List Frame) (ts : List Token) : Except Cause (List Token) :=
  match frames with
  | [] => .ok ts
  | _ :: _ => left (skipFrom .after frames ts)

section
variable {stage next : Stage} {frames inner : List Frame} {t : Token}

/-- A token that completes no value leads on to the next stage. -/
theorem skipFrom_more (h : Progress.step stage frames t = .more next inner) (ts : List Token) :
    left (skipFrom stage frames (t :: ts)) = left (skipFrom next inner ts) := by
  rw [skipFrom, h]
  dsimp only
  cases skipFrom next inner ts <;> rfl

/-- A token that completes a value leads back to the frame around it. -/
theorem skipFrom_completed (h : Progress.step stage frames t = .completed inner)
    (ts : List Token) : left (skipFrom stage frames (t :: ts)) = afterValue inner ts := by
  cases inner with
  | nil =>
    rw [skipFrom, h]
    rfl
  | cons frame outer => exact skipFrom_more h ts

end

/-- The tokens are passed over wherever a value has to start. -/
def Skips (ts : List Token) : Prop := ∀ frames rest,
  left (skipFrom .value frames (ts ++ rest)) = afterValue frames rest

/-- Where a list can end, it does so only at its end. -/
theorem skipFrom_item {ts : List Token} (h : StartsNot .closeList ts) (outer : List Frame)
    (rest : List Token) : left (skipFrom .item (.list :: outer) (ts ++ rest)) =
      left (skipFrom .value (.list :: outer) (ts ++ rest)) := by
  obtain ⟨t, us, rfl, ht⟩ := h
  have hstep : Progress.step .item (.list :: outer) t = Progress.step .value (.list :: outer) t := by
    cases t with
    | closeList => exact absurd rfl ht
    | _ => rfl
  rw [List.cons_append, skipFrom, skipFrom, hstep]

/-- The further items of a list are passed over, each behind its comma, up to the end of the
list. -/
theorem skips_items {items : List (List Token)} (h : ∀ v ∈ items, Skips v) (outer : List Frame)
    (rest : List Token) :
    left (skipFrom .after (.list :: outer) (items.flatMap (.comma :: ·) ++ .closeList :: rest)) =
      afterValue outer rest := by
  induction items with
  | nil => exact skipFrom_completed rfl rest
  | cons v items ih =>
    rw [List.flatMap_cons, List.cons_append, List.cons_append, skipFrom_more rfl,
      List.append_assoc, h v List.mem_cons_self]
    exact ih fun w hw => h w (List.mem_cons_of_mem v hw)

/-- A name and its value, where a name has to start. -/
theorem skips_member {name : Token} {v : List Token} {stage : Stage} (hname : name.IsName)
    (hv : Skips v) (hstage : stage = .name ∨ stage = .member) (outer : List Frame)
    (rest : List Token) :
    left (skipFrom stage (.record :: outer) (name :: .colon :: (v ++ rest))) =
      left (skipFrom .after (.record :: outer) rest) := by
  have hstep : Progress.step stage (.record :: outer) name = .more .colon (.record :: outer) := by
    rcases hstage with rfl | rfl <;> cases name with
    | text s => rfl
    | brokenText f skipping =>
      cases skipping with
      | none => rfl
      | some f => exact hname.elim
    | _ => exact hname.elim
  rw [skipFrom_more hstep, skipFrom_more rfl, hv]
  rfl

/-- The further members of an object are passed over, each behind its comma, up to the end of the
object. -/
theorem skips_members {members : List (Token × List Token)} (hnames : ∀ m ∈ members, m.1.IsName)
    (h : ∀ m ∈ members, Skips m.2) (outer : List Frame) (rest : List Token) :
    left (skipFrom .after (.record :: outer)
      ((members.map fun m => m.1 :: .colon :: m.2).flatMap (.comma :: ·) ++
        .closeRecord :: rest)) = afterValue outer rest := by
  induction members with
  | nil => exact skipFrom_completed rfl rest
  | cons m members ih =>
    rw [List.map_cons, List.flatMap_cons, List.cons_append, List.cons_append, List.cons_append,
      List.cons_append, List.append_assoc, List.cons_append, skipFrom_more rfl,
      skips_member (hnames m List.mem_cons_self) (h m List.mem_cons_self) (.inl rfl)]
    exact ih (fun m hm => hnames m (List.mem_cons_of_mem _ hm))
      fun m hm => h m (List.mem_cons_of_mem _ hm)

/-- No value starts with the end of a list. -/
theorem IsValue.starts {ts : List Token} (h : IsValue ts) : StartsNot .closeList ts := by
  cases h with
  | scalar ht =>
    refine ⟨_, _, rfl, ?_⟩
    rintro rfl
    exact ht
  | list _ | record _ _ => exact ⟨_, _, rfl, by simp⟩

/-- A scalar is complete at once. -/
theorem Token.IsScalar.step_eq {t : Token} (h : t.IsScalar) (frames : List Frame) :
    Progress.step .value frames t = .completed frames := by
  cases t with
  | null | bool _ | number _ | text _ => rfl
  | brokenText f skipping =>
    cases skipping with
    | none => rfl
    | some f => exact h.elim
  | _ => exact h.elim

/-- Every value is passed over as a whole. -/
theorem IsValue.skips {ts : List Token} (h : IsValue ts) : Skips ts := by
  induction h with
  | scalar ht => exact fun frames rest => skipFrom_completed (ht.step_eq frames) rest
  | @list items hitems ih =>
    intro frames rest
    rw [List.cons_append, skipFrom_more rfl, List.append_assoc, List.singleton_append]
    cases items with
    | nil => exact skipFrom_completed rfl rest
    | cons v items =>
      rw [listed_cons, List.append_assoc, skipFrom_item (hitems v List.mem_cons_self).starts,
        ih v List.mem_cons_self]
      exact skips_items (fun w hw => ih w (List.mem_cons_of_mem v hw)) frames rest
  | @record members hnames hvalues ih =>
    intro frames rest
    rw [List.cons_append, skipFrom_more rfl, List.append_assoc, List.singleton_append]
    cases members with
    | nil => exact skipFrom_completed rfl rest
    | cons m members =>
      rw [List.map_cons, listed_cons, List.cons_append, List.cons_append, List.cons_append,
        List.cons_append, List.append_assoc,
        skips_member (hnames m List.mem_cons_self) (ih m List.mem_cons_self) (.inr rfl)]
      exact skips_members (fun m hm => hnames m (List.mem_cons_of_mem _ hm))
        (fun m hm => ih m (List.mem_cons_of_mem _ hm)) frames rest

/-- A value that nobody asks for is skipped to its end. -/
theorem IsValue.skip_eq {ts : List Token} (h : IsValue ts) (rest : List Token) :
    left (skip (ts ++ rest)) = .ok rest := h.skips [] rest

end VoxelStream.Json
