import VoxelStream.Decimal.Layout

/-!
# Well-formed numerals

The formats that read numbers back ask for digits before the point without zeros in front of them,
and for digits in an exponent. The numerals of integers and those in which a layout sets out floats
are of this kind. For a float this needs that its shortest decimal does not start with a zero, so
that the search for it ends on a grid that has a point, and that this point is not zero.
-/

namespace VoxelStream.Decimal

/-! ## Digits -/

/-- Every number has digits. -/
theorem digits_ne_nil (n : Nat) : digits n ≠ [] := by
  fun_induction digits n <;> simp

/-- Zero has one digit. -/
theorem digits_zero : digits 0 = [0] := by
  rw [digits]
  rfl

/-- Only the digits of zero start with a zero. -/
theorem eq_zero_of_digits {n : Nat} {ds : List Digit} (h : digits n = 0 :: ds) : n = 0 := by
  fun_induction digits n generalizing ds with
  | case1 n hn =>
    injection h with h
    exact congrArg Fin.val h
  | case2 n hn ih =>
    cases hd : digits (n / 10) with
    | nil => exact absurd hd (digits_ne_nil _)
    | cons d rest =>
      rw [hd] at h
      injection h with h
      have := ih (h ▸ hd)
      omega

/-- The digits of a number other than zero start with one other than zero. -/
theorem exists_digits {n : Nat} (hn : n ≠ 0) : ∃ d ds, digits n = d :: ds ∧ d ≠ 0 := by
  cases h : digits n with
  | nil => exact absurd h (digits_ne_nil n)
  | cons d ds =>
    refine ⟨d, ds, rfl, ?_⟩
    rintro rfl
    exact hn (eq_zero_of_digits h)

/-! ## Numerals -/

namespace Numeral

/-- A numeral that text formats take: some digits before the point, no zero in front of others, and
digits in the exponent if there is one. -/
structure WellFormed (n : Numeral) : Prop where
  whole : n.whole ≠ []
  lead : ∀ ds, n.whole = 0 :: ds → ds = []
  exponent : ∀ e ∈ n.exponent, e.digits ≠ []

/-- Whether a numeral is well-formed. -/
def isWellFormed (n : Numeral) : Bool :=
  (match n.whole with
    | [] => false
    | [_] => true
    | d :: _ :: _ => decide (0 < d.val)) &&
  n.exponent.all fun e => !e.digits.isEmpty

/-- The check finds just the well-formed numerals. -/
theorem isWellFormed_iff {n : Numeral} : n.isWellFormed = true ↔ n.WellFormed := by
  obtain ⟨negative, whole, fraction, exponent⟩ := n
  have hexponent : exponent.all (fun e => !e.digits.isEmpty) = true ↔
      ∀ e ∈ exponent, e.digits ≠ [] := by
    simp [Option.all_eq_true]
  rw [isWellFormed, Bool.and_eq_true, hexponent]
  match whole with
  | [] => exact ⟨fun h => absurd h.1 Bool.false_ne_true, fun h => absurd rfl h.whole⟩
  | [d] => exact ⟨fun h => ⟨nofun, fun _ heq => (List.cons.inj heq).2.symm, h.2⟩,
      fun h => ⟨rfl, h.exponent⟩⟩
  | d :: e :: ds =>
    rw [decide_eq_true_iff]
    refine ⟨fun h => ⟨nofun, fun ds' heq => ?_, h.2⟩, fun h => ⟨?_, h.exponent⟩⟩
    · injection heq with hd
      exact absurd h.1 (by simp [hd])
    · refine Nat.pos_of_ne_zero fun hd => ?_
      have hzero : d = 0 := Fin.ext hd
      exact nomatch h.lead (e :: ds) (by rw [hzero])

instance (n : Numeral) : Decidable n.WellFormed := decidable_of_iff _ isWellFormed_iff

variable {negative : Bool} {fraction : List Digit} {exponent : Option Exponent}

/-- A zero may stand alone before the point, whatever comes after it. -/
theorem wellFormed_zero (hexp : ∀ e ∈ exponent, e.digits ≠ []) :
    WellFormed ⟨negative, [0], fraction, exponent⟩ where
  whole := List.cons_ne_nil _ _
  lead ds h := by
    injection h with _ h
    exact h.symm
  exponent := hexp

/-- Digits that start with one other than zero may stand before the point, whatever comes after
them. -/
theorem wellFormed_cons {d : Digit} {ds : List Digit} (hd : d ≠ 0)
    (hexp : ∀ e ∈ exponent, e.digits ≠ []) :
    WellFormed ⟨negative, d :: ds, fraction, exponent⟩ where
  whole := List.cons_ne_nil _ _
  lead ds h := by
    injection h with h
    exact absurd h hd
  exponent := hexp

/-- Integers are written as well-formed numerals. -/
theorem wellFormed_ofInt (n : Int) : (ofInt n).WellFormed := by
  unfold ofInt
  by_cases hn : n.natAbs = 0
  · rw [hn, digits_zero]
    exact wellFormed_zero (by simp)
  · obtain ⟨d, ds, hds, hd⟩ := exists_digits hn
    rw [hds]
    exact wellFormed_cons hd (by simp)

end Numeral

/-! ## Shortest decimals -/

namespace Magnitude

variable {v : Magnitude} {tie : Tie}

/-- No float has an exponent below that of the least positive one. -/
theorem exponent_ofFloat32 (x : Float32) : -149 ≤ (ofFloat32 x).exponent := by
  simp only [ofFloat32]
  split <;> simp only <;> omega

/-- The numerator of a power is positive. -/
theorem power_fst_pos {base : Nat} (h : 0 < base) (e : Int) : 0 < (power base e).1 := by
  unfold power
  split
  · exact Nat.pow_pos h
  · exact Nat.one_pos

/-- The denominator of a power is positive. -/
theorem power_snd_pos {base : Nat} (h : 0 < base) (e : Int) : 0 < (power base e).2 := by
  unfold power
  split
  · exact Nat.one_pos
  · exact Nat.pow_pos h

/-- The point that stands for a magnitude is not below its interval. -/
theorem low_le_of_onGrid {k : Int} {d : Nat} (h : v.onGrid tie k = some d) :
    (4 * v.mantissa - if v.narrow then 1 else 2) *
        ((power 2 (v.exponent - 2)).1 * (power 10 k).2) ≤
      d * ((power 10 k).1 * (power 2 (v.exponent - 2)).2) := by
  simp only [onGrid] at h
  generalize (power 10 k).1 * (power 2 (v.exponent - 2)).2 = step at *
  generalize (4 * v.mantissa - if v.narrow then 1 else 2) *
    ((power 2 (v.exponent - 2)).1 * (power 10 k).2) = low at *
  generalize (4 * v.mantissa + 2) * ((power 2 (v.exponent - 2)).1 * (power 10 k).2) = high at *
  generalize 4 * v.mantissa * ((power 2 (v.exponent - 2)).1 * (power 10 k).2) = centre at *
  have hinside {d : Nat} (hd : (if v.mantissa % 2 = 0 then
      decide (low ≤ d * step) && decide (d * step ≤ high)
      else decide (low < d * step) && decide (d * step < high)) = true) : low ≤ d * step := by
    split at hd <;> simp at hd <;> omega
  split at h
  · cases h
  next hbelow _ =>
    cases h
    exact hinside hbelow
  next _ habove =>
    cases h
    exact hinside habove
  next hbelow habove =>
    split at h
    · cases h
      exact hinside hbelow
    · split at h
      · cases h
        exact hinside habove
      · split at h
        · cases h
          exact hinside habove
        · cases h
          exact Nat.le_trans (hinside hbelow) (Nat.mul_le_mul_right _ (Nat.le_add_right _ _))

/-- A magnitude other than zero is not rounded to zero. -/
theorem ne_zero_of_onGrid {k : Int} {d : Nat} (hv : v.mantissa ≠ 0)
    (h : v.onGrid tie k = some d) : d ≠ 0 := by
  rintro rfl
  have hlow : 0 < (4 * v.mantissa - if v.narrow then 1 else 2) *
      ((power 2 (v.exponent - 2)).1 * (power 10 k).2) :=
    Nat.mul_pos (by split <;> omega)
      (Nat.mul_pos (power_fst_pos (by decide) _) (power_snd_pos (by decide) _))
  have hle := low_le_of_onGrid h
  rw [Nat.zero_mul] at hle
  exact Nat.lt_irrefl _ (Nat.lt_of_lt_of_le hlow hle)

/-- A grid finer than the floats has a point: the one after the magnitude. -/
theorem isSome_onGrid {k : Int}
    (hstep : (power 10 k).1 * (power 2 (v.exponent - 2)).2 <
      2 * ((power 2 (v.exponent - 2)).1 * (power 10 k).2)) : (v.onGrid tie k).isSome := by
  have hpos : 0 < (power 10 k).1 * (power 2 (v.exponent - 2)).2 :=
    Nat.mul_pos (power_fst_pos (by decide) _) (power_snd_pos (by decide) _)
  simp only [onGrid]
  generalize (power 10 k).1 * (power 2 (v.exponent - 2)).2 = step at *
  generalize (power 2 (v.exponent - 2)).1 * (power 10 k).2 = unit at *
  have hlow : (4 * v.mantissa - if v.narrow then 1 else 2) * unit <
      (4 * v.mantissa * unit / step + 1) * step :=
    Nat.lt_of_le_of_lt (Nat.mul_le_mul_right _ (Nat.sub_le _ _))
      (Nat.lt_mul_of_div_lt (Nat.lt_succ_self _) hpos)
  have hhigh : (4 * v.mantissa * unit / step + 1) * step < (4 * v.mantissa + 2) * unit := by
    have := Nat.div_mul_le_self (4 * v.mantissa * unit) step
    rw [Nat.add_mul, Nat.add_mul, Nat.one_mul]
    omega
  simp only [hlow, hhigh, Nat.le_of_lt hlow, Nat.le_of_lt hhigh, decide_true, Bool.and_self,
    ite_self]
  split
  next h => cases h
  · rfl
  · rfl
  · split
    · rfl
    · split
      · rfl
      · split <;> rfl

/-- The last grid to be tried has a point for every float. -/
theorem isSome_onGrid_last (h : -149 ≤ v.exponent) : (v.onGrid tie (-50)).isSome := by
  refine isSome_onGrid ?_
  -- No unit of a mantissa is below `2 ^ (-149)`, and `10 ^ (-50)` is.
  have hten : power 10 (-50) = (1, 10 ^ 50) := rfl
  rw [hten]
  simp only [Nat.one_mul]
  unfold power
  split
  · have : 0 < 2 ^ (v.exponent - 2).toNat := Nat.pow_pos (by decide)
    simp only [Nat.pow_eq]
    omega
  · have : 2 ^ (-(v.exponent - 2)).toNat ≤ 2 ^ 151 := Nat.pow_le_pow_right (by decide) (by omega)
    simp only [Nat.pow_eq]
    omega

/-- The search ends on a grid that has a point if the last of those to be tried has. -/
theorem exists_search {grids : Nat} {k : Int} (h : (v.onGrid tie (k - grids)).isSome) :
    ∃ j d, v.onGrid tie j = some d ∧ v.search tie (grids + 1) k = (d, j) := by
  induction grids generalizing k with
  | zero =>
    obtain ⟨d, hd⟩ := Option.isSome_iff_exists.1 h
    have hd : v.onGrid tie k = some d := by simpa using hd
    exact ⟨k, d, hd, by simp only [search, hd]⟩
  | succ grids ih =>
    cases hk : v.onGrid tie k with
    | some d => exact ⟨k, d, hk, by rw [search, hk]⟩
    | none =>
      obtain ⟨j, d, hj, hsearch⟩ := ih (k := k - 1) (by
        rwa [show k - 1 - (grids : Int) = k - (grids + 1 : Nat) by omega])
      exact ⟨j, d, hj, by rw [search, hk, hsearch]⟩

/-- The shortest digits of a magnitude other than zero are not zero. -/
theorem shortest_ne_zero (hv : v.mantissa ≠ 0) (he : -149 ≤ v.exponent) :
    (v.shortest tie).1 ≠ 0 := by
  have hlast : (v.onGrid tie (39 - (89 : Nat))).isSome := isSome_onGrid_last he
  obtain ⟨j, d, hj, hsearch⟩ := exists_search hlast
  have hshortest : v.shortest tie = (d, j) := hsearch
  rw [hshortest]
  exact ne_zero_of_onGrid hv hj

end Magnitude

/-! ## Layouts -/

namespace Layout

open Numeral (wellFormed_zero wellFormed_cons)

/-- Digits that are not zero are set out as a well-formed numeral, wherever the point falls. -/
theorem wellFormed_arrange (l : Layout) (negative : Bool) {n : Nat} (hn : n ≠ 0) (k : Int) :
    (l.arrange negative n k).WellFormed := by
  obtain ⟨d, ds, hds, hd⟩ := exists_digits hn
  simp only [arrange, hds]
  -- The first digit is in front, except in positional notation of a number below one.
  split
  · split
    · exact wellFormed_cons hd (by simp)
    · split
      next hlead =>
        obtain ⟨w, hw⟩ : ∃ w, ((((d :: ds).length : Int) - 1 + k) + 1).toNat = w + 1 :=
          ⟨_, (Nat.succ_pred (by omega)).symm⟩
        rw [hw, List.take_succ_cons]
        exact wellFormed_cons hd (by simp)
      · exact wellFormed_zero (by simp)
  · refine wellFormed_cons hd ?_
    rintro e ⟨⟩
    exact digits_ne_nil _

/-- A float is set out as a numeral that text formats take. -/
theorem wellFormed_numeral (l : Layout) (x : Float32) : (l.numeral x).WellFormed := by
  simp only [numeral]
  split
  · exact wellFormed_zero (by simp)
  next hv =>
    exact wellFormed_arrange _ _ (Magnitude.shortest_ne_zero hv (Magnitude.exponent_ofFloat32 x)) _

end Layout
end VoxelStream.Decimal
