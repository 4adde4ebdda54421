/-!
# Faults

A fault ends an operation without a value. It is not an error of the domain, which is reported and
named by the module that detects it: a fault is arithmetic that leaves its range, or a generator or
sink that breaks its promise. Whoever runs other parties' code decides how far a fault reaches.
-/

namespace VoxelStream

/-- The ways in which an operation can end without a value. -/
inductive Fault where
  /-- An integer operation left the range of its words. -/
  | overflow
  /-- A plane number is not one of a frustum's six. -/
  | index
  /-- A noise coordinate lies in no lattice cell. -/
  | lattice
  /-- A party called from here gave up on this one call. -/
  | refused
  /-- A party called from here took its caller down with it. -/
  | fatal
deriving DecidableEq, Repr, Inhabited

/-- A fatal fault passes every guard; the others end at the nearest one. -/
def Fault.isFatal : Fault → Bool
  | .fatal => true
  | _ => false

/-- A value, or the fault met on the way to it. -/
abbrev Checked (α : Type) : Type := Except Fault α

namespace Checked

variable {α β : Type} {x : Checked α} {f : α → Checked β}

/-- A computation succeeds if both of its parts do. -/
theorem bind_eq_ok_iff {b : β} : x >>= f = .ok b ↔ ∃ a, x = .ok a ∧ f a = .ok b := by
  cases x with
  | error e => simp [bind, Except.bind]
  | ok a => simp [bind, Except.bind]

/-- The first fault met is the fault of the whole. -/
theorem bind_eq_error_iff {e : Fault} :
    x >>= f = .error e ↔ x = .error e ∨ ∃ a, x = .ok a ∧ f a = .error e := by
  cases x with
  | error e => simp [bind, Except.bind]
  | ok a => simp [bind, Except.bind]

end Checked

/-- Checked results taken along a list have values exactly if each of them has. -/
theorem Checked.mapM_eq_ok_iff {α β : Type} {f : α → Checked β} {l : List α} {r : List β} :
    l.mapM f = .ok r ↔ l.map f = r.map Except.ok := by
  induction l generalizing r with
  | nil => cases r <;> simp [pure, Except.pure]
  | cons a l ih =>
    rw [List.mapM_cons]
    cases ha : f a with
    | error e => cases r <;> simp [ha, bind, Except.bind]
    | ok b =>
      cases hl : l.mapM f with
      | error e =>
        simp only [hl, reduceCtorEq, false_iff] at ih
        cases r <;> simp [ha, bind, Except.bind, ih]
      | ok s =>
        have hs := ih.1 hl
        cases r <;> simp [ha, hs, bind, Except.bind, pure, Except.pure]
        intro _
        rw [List.map_inj_right (fun _ _ h => by injection h)]

end VoxelStream
