/-!
# Requests one after the other

A machine has a state, and what it answers to a request may depend on that state and change it.
Requests are put to it one after the other (`Dialogue.run`). Two ways of reasoning about all of them
are reduced here to a single one: what holds of the past answers together with the state
(`run_history`), and how two machines compare that answer alike (`run_alike`).
-/

namespace VoxelStream.Dialogue

variable {ρ ρ' ε τ τ' : Type}

/-- The answers to requests that are put one after the other, and the state after them. -/
def run (ask : τ → ρ → ε × τ) (t : τ) : List ρ → List ε × τ
  | [] => ([], t)
  | r :: rest => ((ask t r).1 :: (run ask (ask t r).2 rest).1, (run ask (ask t r).2 rest).2)

/-- Requests may be translated beforehand or one by one. -/
theorem run_map (ask : τ → ρ' → ε × τ) (f : ρ → ρ') (t : τ) (l : List ρ) :
    run ask t (l.map f) = run (fun t r => ask t (f r)) t l := by
  induction l generalizing t with
  | nil => rfl
  | cons r rest ih => rw [List.map_cons, run, run, ih]

/-- Requests may be put in two parts, the second one to the state that the first one leaves. -/
theorem run_append (ask : τ → ρ → ε × τ) (t : τ) (first second : List ρ) :
    run ask t (first ++ second) =
      ((run ask t first).1 ++ (run ask (run ask t first).2 second).1,
        (run ask (run ask t first).2 second).2) := by
  induction first generalizing t with
  | nil => rfl
  | cons r rest ih => rw [List.cons_append, run, ih, run, List.cons_append]

/-- What holds of no past and the first state, and what one more answer keeps true of past and
state, holds of all answers and the state after them. -/
theorem run_history {ask : τ → ρ → ε × τ} (P : List ε → τ → Prop)
    (hask : ∀ {past t} (r : ρ), P past t → P (past ++ [(ask t r).1]) (ask t r).2) {t : τ}
    (h : P [] t) (l : List ρ) : P (run ask t l).1 (run ask t l).2 := by
  suffices ∀ past t, P past t → P (past ++ (run ask t l).1) (run ask t l).2 from this [] t h
  clear h
  induction l with
  | nil =>
    intro past t h
    rw [run, List.append_nil]
    exact h
  | cons r rest ih =>
    intro past t h
    have hrest := ih _ _ (hask r h)
    rw [List.append_assoc, List.singleton_append] at hrest
    exact hrest

/-- Machines that answer alike from related states, and whose states are related then, answer alike
all along. -/
theorem run_alike {ask : τ → ρ → ε × τ} {ask' : τ' → ρ' → ε × τ'} {f : ρ → ρ'} {R : τ → τ' → Prop}
    (hask : ∀ {t t'} (r : ρ), R t t' →
      (ask' t' (f r)).1 = (ask t r).1 ∧ R (ask t r).2 (ask' t' (f r)).2)
    {t : τ} {t' : τ'} (h : R t t') (l : List ρ) :
    (run ask' t' (l.map f)).1 = (run ask t l).1 ∧ R (run ask t l).2 (run ask' t' (l.map f)).2 := by
  induction l generalizing t t' with
  | nil => exact ⟨rfl, h⟩
  | cons r rest ih =>
    obtain ⟨hanswer, hstate⟩ := hask r h
    obtain ⟨hanswers, hlast⟩ := ih hstate
    refine ⟨?_, hlast⟩
    rw [List.map_cons, run, run, hanswer, hanswers]

end VoxelStream.Dialogue
