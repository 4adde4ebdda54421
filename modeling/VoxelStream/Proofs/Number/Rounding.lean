import Mathlib

/-!
# Rounding in single precision

The finite single-precision numbers stand for rational ones (`value`): those with at most
twenty-four binary digits, none below `2 ^ (-149)` (`Representable`). They are unpacked here, and
there is no greatest one; where they are packed, the operations that stay in range are taken from
here.

An operation rounds its exact result: what comes out stands for a number that is as near to it as
any (`Rounds`). So an exact result that is representable is hit (`Nearest.eq`), and rounding keeps
the order (`Nearest.mono`). The way there is that of the operations themselves. A mantissa is
shifted to the right bit by bit, and two bits beside it tell what was lost; these always say on
which side of a half the exact mantissa lies (`Stands.shiftRight`).
-/

namespace VoxelStream.Single

open Float.Model (Format totalExponent UnpackedFloat)
open Float.Model.UnpackedFloat

/-! ## The numbers there are -/

/-- The numbers with twenty-four binary digits, the last at `2 ^ (-149)` or above. -/
def Representable (q : ℚ) : Prop := ∃ n e : ℤ, |n| < 2 ^ 24 ∧ -149 ≤ e ∧ q = n * 2 ^ e

/-- `q` is as near to `x` as any of them. -/
structure Nearest (x q : ℚ) : Prop where
  representable : Representable q
  le : ∀ {g}, Representable g → |q - x| ≤ |g - x|

/-- A number and its negation have the same digits. -/
theorem Representable.neg {q : ℚ} (h : Representable q) : Representable (-q) := by
  obtain ⟨n, e, hn, he, rfl⟩ := h
  exact ⟨-n, e, by rwa [abs_neg], he, by push_cast; ring⟩

/-- A number that is representable is the nearest to itself. -/
theorem Nearest.self {q : ℚ} (h : Representable q) : Nearest q q :=
  ⟨h, fun _ => by simp⟩

/-- The representable numbers lie alike on both sides of zero, and so do the nearest ones. -/
theorem Nearest.neg {x q : ℚ} (h : Nearest x q) : Nearest (-x) (-q) := by
  refine ⟨h.representable.neg, fun {g} hg => ?_⟩
  have := h.le hg.neg
  rwa [← abs_neg (-q - -x), ← abs_neg (g - -x), show -(-q - -x) = q - x by ring,
    show -(g - -x) = -g - x by ring]

/-- Nothing else is nearest to a number that is representable. -/
theorem Nearest.eq {x q : ℚ} (h : Nearest x q) (hx : Representable x) : q = x := by
  have := h.le hx
  rw [sub_self, abs_zero, abs_nonpos_iff] at this
  exact sub_eq_zero.1 this

/-- Rounding to a nearest number keeps the order, however ties are broken. -/
theorem Nearest.mono {x y q r : ℚ} (hq : Nearest x q) (hr : Nearest y r) (hxy : x < y) :
    q ≤ r := by
  by_contra! hlt
  have hx := hq.le hr.representable
  have hy := hr.le hq.representable
  cases abs_cases (q - x) <;> cases abs_cases (r - x) <;> cases abs_cases (r - y) <;>
    cases abs_cases (q - y) <;> linarith

/-- On a grid of powers of two are all numbers but the small ones. -/
theorem Representable.grid {g : ℚ} (h : Representable g) {t : ℤ} (ht : -149 ≤ t) :
    (∃ n : ℤ, g = n * 2 ^ t) ∨ (-149 < t ∧ |g| ≤ 2 ^ 23 * 2 ^ t) := by
  obtain ⟨n, e, hn, he, rfl⟩ := h
  rcases le_or_gt t e with hte | het
  · left
    refine ⟨n * 2 ^ (e - t).toNat, ?_⟩
    have : (2 : ℚ) ^ e = 2 ^ (e - t).toNat * 2 ^ t := by
      rw [← zpow_natCast, ← zpow_add₀ (by norm_num)]
      congr 1
      omega
    rw [this]
    push_cast
    ring
  · right
    refine ⟨by omega, ?_⟩
    have hpow : (2 : ℚ) ^ e ≤ 2 ^ (t - 1) := zpow_le_zpow_right₀ (by norm_num) (by omega)
    have hn' : |(n : ℚ)| ≤ 2 ^ 24 := by exact_mod_cast hn.le
    calc |(n : ℚ) * 2 ^ e| = |(n : ℚ)| * 2 ^ e := by
          rw [abs_mul, abs_of_pos (zpow_pos (by norm_num : (0 : ℚ) < 2) e)]
      _ ≤ 2 ^ 24 * 2 ^ (t - 1) := by gcongr
      _ = 2 ^ 23 * 2 ^ t := by
        rw [zpow_sub₀ (by norm_num)]
        ring

/-! ## Rounding on a grid -/

/-- An integer at most a half away is as near as any. -/
theorem abs_round_le {x : ℚ} {r : ℤ} (h : |r - x| ≤ 1 / 2) (n : ℤ) : |r - x| ≤ |n - x| := by
  rcases eq_or_ne n r with rfl | hne
  · exact le_rfl
  · have hone : (1 : ℚ) ≤ |(n : ℚ) - r| := by exact_mod_cast Int.one_le_abs (sub_ne_zero.2 hne)
    have htri := abs_sub_le (n : ℚ) x r
    rw [abs_sub_comm x r] at htri
    linarith

/-- Rounded to an integer, a number below `2 ^ 24` is at most that. -/
theorem le_of_round {y : ℚ} {r : ℕ} (hr : |(r : ℚ) - y| ≤ 1 / 2) (hy : y < 2 ^ 24) :
    r ≤ 2 ^ 24 := by
  have : (r : ℚ) < (2 ^ 24 + 1 : ℕ) := by
    push_cast
    linarith [(abs_le.1 hr).2]
  exact Nat.lt_succ_iff.1 (by exact_mod_cast this)

/-- Rounding `y` to an integer rounds `y * 2 ^ t`, if `y` has no more than twenty-four digits before
the point, and no fewer unless the grid is the finest one. -/
theorem nearest_of_round {y : ℚ} {r : ℕ} {t : ℤ} (ht : -149 ≤ t) (hr : |(r : ℚ) - y| ≤ 1 / 2)
    (hle : y < 2 ^ 24) (hy : -149 < t → 2 ^ 23 ≤ y) : Nearest (y * 2 ^ t) (r * 2 ^ t) := by
  have hpos : (0 : ℚ) < 2 ^ t := zpow_pos (by norm_num) t
  have hscale : ∀ a : ℚ, |a * 2 ^ t - y * 2 ^ t| = |a - y| * 2 ^ t := by
    intro a
    rw [← sub_mul, abs_mul, abs_of_pos hpos]
  refine ⟨?_, fun {g} hg => ?_⟩
  · rcases (le_of_round hr hle).lt_or_eq with hlt | rfl
    · exact ⟨r, t, by rw [Nat.abs_cast]; exact_mod_cast hlt, ht, by norm_num⟩
    · refine ⟨1, t + 24, by norm_num, by omega, ?_⟩
      rw [zpow_add₀ (by norm_num)]
      norm_num
      ring
  · rw [hscale]
    rcases hg.grid ht with ⟨n, rfl⟩ | ⟨hlt, hsmall⟩
    · rw [hscale]
      exact mul_le_mul_of_nonneg_right (abs_round_le (r := (r : ℤ)) (by exact_mod_cast hr) n)
        hpos.le
    · -- A finer number is below the least one of the grid with all digits, and that is on the grid.
      have hy' := hy hlt
      have hedge : |(r : ℚ) - y| ≤ y - 2 ^ 23 := by
        have := abs_round_le (r := (r : ℤ)) (x := y) (by exact_mod_cast hr) (2 ^ 23)
        rw [Int.cast_pow, Int.cast_ofNat, Int.cast_natCast] at this
        rwa [abs_of_nonpos (a := (2 : ℚ) ^ 23 - y) (by linarith), neg_sub] at this
      calc |(r : ℚ) - y| * 2 ^ t ≤ (y - 2 ^ 23) * 2 ^ t := by gcongr
        _ = y * 2 ^ t - 2 ^ 23 * 2 ^ t := by ring
        _ ≤ y * 2 ^ t - g := by linarith [le_abs_self g]
        _ ≤ |g - y * 2 ^ t| := by
          rw [abs_sub_comm]
          exact le_abs_self _

/-! ## Shifted mantissas -/

/-- A mantissa and the two bits beside it, as what is known of the exact one. -/
def Stands (em : ExtendedMantissa) (x : ℚ) : Prop :=
  match em.roundBit, em.stickyBit with
  | false, false => x = em.mantissa
  | false, true => em.mantissa < x ∧ x < em.mantissa + 1 / 2
  | true, false => x = em.mantissa + 1 / 2
  | true, true => em.mantissa + 1 / 2 < x ∧ x < em.mantissa + 1

/-- The two bits suffice to round the exact mantissa to a nearest integer. -/
theorem Stands.abs_roundedMantissa_sub_le {em : ExtendedMantissa} {x : ℚ} (h : Stands em x) :
    |(em.roundedMantissa : ℚ) - x| ≤ 1 / 2 := by
  obtain ⟨m, r, s⟩ := em
  have hparity : ((m % 2 : ℕ) : ℚ) = 0 ∨ ((m % 2 : ℕ) : ℚ) = 1 := by
    rcases Nat.mod_two_eq_zero_or_one m with h | h <;> simp [h]
  cases r <;> cases s <;>
    simp only [Stands, ExtendedMantissa.roundedMantissa, ExtendedMantissa.accuracy,
      Accuracy.roundToNearestEven] at h ⊢ <;> push_cast <;> rw [abs_le] <;>
    [skip; skip; rcases hparity with hp | hp; skip] <;> constructor <;> linarith

/-- Shifted out by one place, the last digit becomes the round bit, and the round bit joins the
sticky one. -/
theorem Stands.shiftRightOne {em : ExtendedMantissa} {x : ℚ} (h : Stands em x) :
    Stands em.shiftRightOne (x / 2) := by
  obtain ⟨m, r, s⟩ := em
  have hm : (m : ℚ) = 2 * (m / 2 : ℕ) + (m % 2 : ℕ) := by exact_mod_cast (Nat.div_add_mod m 2).symm
  rcases Nat.mod_two_eq_zero_or_one m with hp | hp <;> cases r <;> cases s <;>
    simp [Stands, ExtendedMantissa.shiftRightOne, hp] at h hm ⊢ <;>
    first | linarith | constructor <;> linarith

/-- What is lost by shifting is told by the two bits. -/
theorem Stands.shiftRight {em : ExtendedMantissa} {x : ℚ} (h : Stands em x) (k : ℕ) :
    Stands (em >>> k) (x / 2 ^ k) := by
  induction k with
  | zero =>
    rw [pow_zero, div_one]
    exact h
  | succ k ih =>
    have hstep : em >>> (k + 1) = (em >>> k).shiftRightOne := rfl
    rw [hstep, pow_succ, ← div_div]
    exact ih.shiftRightOne

/-! ## Values -/

/-- The number that a finite float stands for. -/
def value : UnpackedFloat → ℚ
  | .finite s m e _ => s.apply m * 2 ^ e
  | _ => 0

/-- The finite floats in the form that they are packed from: with all twenty-four digits, unless the
last one is at the least exponent. -/
def Canonical : UnpackedFloat → Prop
  | .zero _ => True
  | .finite _ m e _ => m < 2 ^ 24 ∧ -149 ≤ e ∧ (2 ^ 23 ≤ m ∨ e = -149)
  | _ => False

/-- A sign applied to an integer is a factor. -/
theorem cast_apply (s : Sign) (n : ℤ) : ((s.apply n : ℤ) : ℚ) = s.apply 1 * n := by
  cases s <;> simp [Sign.apply]

/-- The sign of a product is the product of the signs. -/
theorem apply_mul (s s' : Sign) : (s * s').apply 1 = s.apply 1 * s'.apply 1 := by
  cases s <;> cases s' <;> rfl

/-- The opposite sign negates what the sign gives. -/
theorem apply_neg (s : Sign) (n : ℤ) : (-s).apply n = -s.apply n := by
  cases s
  · exact (neg_neg n).symm
  · rfl

/-- What a canonical float stands for is representable. -/
theorem Canonical.representable {u : UnpackedFloat} (h : Canonical u) :
    Representable (value u) := by
  cases u with
  | zero s => exact ⟨0, 0, by norm_num, by norm_num, by simp [value]⟩
  | finite s m e hm =>
    obtain ⟨hlt, he, -⟩ := h
    refine ⟨s.apply m, e, ?_, he, rfl⟩
    cases s <;> simp only [Sign.apply, abs_neg, Nat.abs_cast] <;> exact_mod_cast hlt
  | infinity s => exact h.elim
  | notANumber => exact h.elim

/-! ## Rounding a mantissa -/

/-- The exponent of the last digit that is kept of `m * 2 ^ e`. -/
abbrev lastPlace (m : ℕ) (e : ℤ) : ℤ := Format.binary32.targetExponent (totalExponent m e)

/-- The last place is twenty-three below the first digit, and no lower than the least exponent. -/
theorem lastPlace_eq (m : ℕ) (e : ℤ) : lastPlace m e = max (m.log2 + e - 23) (-149) := by
  simp only [lastPlace, Format.targetExponent, totalExponent, Format.mantissaBits,
    Format.minExponent]
  norm_num
  omega

/-- Digits below the last place are shifted out, and the two bits keep account of them. -/
theorem shiftToTargetExponent_of_le {m : ℕ} {e t : ℤ} (ht : lastPlace m e = t) (he : e ≤ t) :
    shiftToTargetExponent .binary32 m e .exact =
      (ExtendedMantissa.mk m false false >>> (t - e).toNat, t) := by
  unfold lastPlace at ht
  unfold shiftToTargetExponent shiftToExponent
  rw [ht]
  simp only [ExtendedMantissa.ofMantissaAndAccuracy, Prod.mk.injEq, true_and]
  omega

/-- Nothing is shifted out where no digit is below the last place. -/
theorem shiftToTargetExponent_of_ge {m : ℕ} {e : ℤ} (he : lastPlace m e ≤ e) :
    shiftToTargetExponent .binary32 m e .exact = (.mk m false false, e) := by
  unfold lastPlace at he
  have hshift : (Format.binary32.targetExponent (totalExponent m e) - e).toNat = 0 := by omega
  simp only [shiftToTargetExponent, shiftToExponent, hshift, Int.natCast_zero, add_zero]
  rfl

/-- Rounding up may carry into a further digit, which is shifted out again. -/
theorem shiftToTargetExponent_rounded {r : ℕ} {t : ℤ} (ht : -149 ≤ t) (hle : r ≤ 2 ^ 24) :
    ∃ r' t', shiftToTargetExponent .binary32 r t .exact = (.mk r' false false, t') ∧
      (r : ℚ) * 2 ^ t = r' * 2 ^ t' ∧ r' < 2 ^ 24 ∧ -149 ≤ t' ∧
      (2 ^ 23 ≤ r ∨ t = -149 → 2 ^ 23 ≤ r' ∨ t' = -149) := by
  rcases hle.lt_or_eq with hlt | rfl
  · have hlog : r.log2 ≤ 23 := by
      rcases eq_or_ne r 0 with rfl | h0
      · decide
      · exact Nat.lt_succ_iff.1 ((Nat.log2_lt h0).2 hlt)
    refine ⟨r, t, shiftToTargetExponent_of_ge ?_, rfl, hlt, ht, id⟩
    rw [lastPlace_eq]
    omega
  · refine ⟨2 ^ 23, t + 1, ?_, ?_, by norm_num, by omega, fun _ => .inl le_rfl⟩
    · rw [shiftToTargetExponent_of_le (t := t + 1) ?_ (by omega), add_sub_cancel_left]
      · rfl
      · rw [lastPlace_eq, Nat.log2_two_pow]
        push_cast
        omega
    · rw [zpow_add₀ (by norm_num)]
      norm_num
      ring

/-- A float that an operation with the exact result `x` may end in. -/
structure Rounds (x : ℚ) (u : UnpackedFloat) : Prop where
  canonical : Canonical u
  nearest : Nearest x (value u)

/-- An exact result that a canonical float stands for is rounded to that float. -/
theorem Canonical.rounds {u : UnpackedFloat} (h : Canonical u) : Rounds (value u) u :=
  ⟨h, .self h.representable⟩

/-- The exact mantissa on the grid of the last place. -/
theorem scaled_bounds {m : ℕ} {e t : ℤ} (hm : m ≠ 0) (ht : lastPlace m e = t) (he : e ≤ t) :
    -149 ≤ t ∧ (m : ℚ) * 2 ^ e = m / 2 ^ (t - e).toNat * 2 ^ t ∧
      (m : ℚ) / 2 ^ (t - e).toNat < 2 ^ 24 ∧
      (-149 < t → (2 : ℚ) ^ 23 ≤ m / 2 ^ (t - e).toNat) := by
  rw [lastPlace_eq] at ht
  generalize hk : (t - e).toNat = k
  refine ⟨by omega, ?_, ?_, fun hlt => ?_⟩
  · have : t = e + k := by omega
    rw [this, zpow_add₀ (by norm_num), zpow_natCast]
    field_simp
  · rw [div_lt_iff₀ (by positivity), ← pow_add]
    have : m < 2 ^ (24 + k) := (Nat.log2_lt hm).1 (by omega)
    exact_mod_cast this
  · rw [le_div_iff₀ (by positivity), ← pow_add]
    have : 2 ^ (23 + k) ≤ m := (Nat.le_log2 hm).1 (by omega)
    exact_mod_cast this

/-- The first shift and the rounding after it. -/
theorem exists_shiftToTargetExponent {m : ℕ} {e : ℤ} (hm : m ≠ 0) (he : e ≤ lastPlace m e) :
    ∃ em t, shiftToTargetExponent .binary32 m e .exact = (em, t) ∧ -149 ≤ t ∧
      em.roundedMantissa ≤ 2 ^ 24 ∧ (2 ^ 23 ≤ em.roundedMantissa ∨ t = -149) ∧
      Nearest (m * 2 ^ e) (em.roundedMantissa * 2 ^ t) := by
  obtain ⟨t, ht⟩ : ∃ t, lastPlace m e = t := ⟨_, rfl⟩
  rw [ht] at he
  obtain ⟨hleast, hexact, hupper, hlower⟩ := scaled_bounds hm ht he
  have hstands : Stands (.mk m false false) m := rfl
  have hround := (hstands.shiftRight (t - e).toNat).abs_roundedMantissa_sub_le
  refine ⟨_, t, shiftToTargetExponent_of_le ht he, hleast, ?_, ?_, ?_⟩ <;>
    generalize (ExtendedMantissa.mk m false false >>> (t - e).toNat).roundedMantissa = r at hround ⊢
  · exact le_of_round hround hupper
  · rcases hleast.eq_or_lt with h | h
    · exact .inr h.symm
    · have := (abs_le.1 hround).1
      have : ((2 ^ 23 : ℕ) : ℚ) < (r + 1 : ℕ) := by push_cast; linarith [hlower h]
      exact .inl (Nat.lt_succ_iff.1 (by exact_mod_cast this))
  · rw [hexact]
    exact nearest_of_round hleast hround hupper hlower

/-- A mantissa with digits at or below the last place is rounded to a nearest float. -/
theorem rounds_roundWithAccuracy (s : Sign) {m : ℕ} {e : ℤ} (hm : m ≠ 0)
    (he : e ≤ lastPlace m e) :
    Rounds (s.apply m * 2 ^ e) (roundWithAccuracy .binary32 s m e .exact) := by
  obtain ⟨em, t, hfirst, ht, hle, hnormal, hnear⟩ := exists_shiftToTargetExponent hm he
  obtain ⟨r, t', hsecond, hvalue, hlt, ht', hnormal'⟩ := shiftToTargetExponent_rounded ht hle
  have hresult : roundWithAccuracy .binary32 s m e .exact =
      if h : r = 0 then .zero s else .finite s r t' (Nat.pos_of_ne_zero h) := by
    unfold roundWithAccuracy
    rw [hfirst]
    simp only
    rw [hsecond]
  rw [hresult]
  constructor
  · split
    · trivial
    · exact ⟨hlt, ht', hnormal' hnormal⟩
  · have hval : value (if h : r = 0 then .zero s else .finite s r t' (Nat.pos_of_ne_zero h)) =
        s.apply 1 * (em.roundedMantissa * 2 ^ t) := by
      rw [hvalue]
      split
      next h0 => simp [h0, value]
      · rw [value, cast_apply]
        push_cast
        ring
    rw [hval, cast_apply, mul_assoc]
    cases s with
    | positive => simpa [Sign.apply] using hnear
    | negative => simpa [Sign.apply] using hnear.neg

/-- Digits appended to a mantissa raise its first digit by as many places. -/
theorem log2_mul_two_pow {m : ℕ} (hm : m ≠ 0) (k : ℕ) : (m * 2 ^ k).log2 = m.log2 + k := by
  rw [Nat.log2_eq_iff (by positivity)]
  have hlow := Nat.log2_self_le hm
  have hhigh := Nat.lt_log2_self (n := m)
  constructor
  · rw [pow_add]
    gcongr
  · rw [add_right_comm, pow_add _ _ k]
    gcongr

/-- Rounding takes a mantissa with any exponent: one with too few digits is first extended down to
the last place. -/
theorem rounds_round (s : Sign) {m : ℕ} (e : ℤ) (hm : m ≠ 0) :
    Rounds (s.apply m * 2 ^ e) (UnpackedFloat.round .binary32 s m e) := by
  unfold UnpackedFloat.round decreaseExponent
  simp only [Nat.shiftLeft_eq]
  generalize hk : (e - lastPlace m e).toNat = k
  have hsame : lastPlace (m * 2 ^ k) (e - k) = lastPlace m e := by
    rw [lastPlace_eq, lastPlace_eq, log2_mul_two_pow hm]
    push_cast
    congr 1
    ring
  have h := rounds_roundWithAccuracy s (m := m * 2 ^ k) (e := e - k) (by positivity)
    (by rw [hsame]; omega)
  have hvalue : (s.apply (m * 2 ^ k : ℕ) : ℚ) * 2 ^ (e - k) = s.apply m * 2 ^ e := by
    rw [cast_apply, cast_apply s m, zpow_sub₀ (by norm_num), zpow_natCast]
    push_cast
    field_simp
  rwa [hvalue] at h

/-- An integer times a power of two is rounded. -/
theorem rounds_normalize (n e : ℤ) (z : Sign) :
    Rounds (n * 2 ^ e) (UnpackedFloat.normalize .binary32 n e z) := by
  unfold UnpackedFloat.normalize
  rcases lt_trichotomy n 0 with h | rfl | h
  · rw [compare_lt_iff_lt.2 h]
    have := rounds_round .negative e (m := (-n).toNat) (by omega)
    rwa [show Sign.negative.apply (-n).toNat = n by simp only [Sign.apply]; omega] at this
  · simpa [value] using Canonical.rounds (u := .zero z) trivial
  · rw [compare_gt_iff_gt.2 h]
    have := rounds_round .positive e (m := n.toNat) (by omega)
    rwa [show Sign.positive.apply n.toNat = n by simp only [Sign.apply]; omega] at this

/-! ## Operations -/

variable {u v : UnpackedFloat}

/-- A lower exponent is made up for by digits at the end of the mantissa. -/
theorem decreaseExponent_value (m : ℕ) {e t : ℤ} (h : t ≤ e) :
    ((decreaseExponent m e t).1 : ℚ) * 2 ^ t = m * 2 ^ e := by
  have he : e = (e - t).toNat + t := by omega
  conv_rhs => rw [he, zpow_add₀ (by norm_num), zpow_natCast]
  simp only [decreaseExponent, Nat.shiftLeft_eq]
  push_cast
  ring

/-- Sums are rounded. -/
theorem Canonical.add (hu : Canonical u) (hv : Canonical v) :
    Rounds (value u + value v) (UnpackedFloat.add .binary32 u v) := by
  cases u <;> cases v <;> try first | exact hu.elim | exact hv.elim
  case zero.zero s s' =>
    have : Rounds 0 (if s == s' then .zero s else .zero .positive : UnpackedFloat) := by
      split <;> exact Canonical.rounds (u := .zero _) trivial
    simpa [value, UnpackedFloat.add] using this
  case zero.finite => simpa [value, UnpackedFloat.add] using hv.rounds
  case finite.zero => simpa [value, UnpackedFloat.add] using hu.rounds
  case finite.finite s m e _ s' m' e' _ =>
    have h := rounds_normalize (s.apply (decreaseExponent m e (min e e')).1 +
      s'.apply (decreaseExponent m' e' (min e e')).1) (min e e') .positive
    have hsum : ((s.apply (decreaseExponent m e (min e e')).1 +
        s'.apply (decreaseExponent m' e' (min e e')).1 : ℤ) : ℚ) * 2 ^ min e e' =
        s.apply m * 2 ^ e + s'.apply m' * 2 ^ e' := by
      rw [Int.cast_add, cast_apply, cast_apply s', cast_apply s m, cast_apply s' m', add_mul,
        mul_assoc, mul_assoc]
      push_cast
      rw [decreaseExponent_value m (min_le_left _ _), decreaseExponent_value m' (min_le_right _ _)]
      ring
    rwa [hsum] at h

/-- Products are rounded. -/
theorem Canonical.mul (hu : Canonical u) (hv : Canonical v) :
    Rounds (value u * value v) (UnpackedFloat.mul .binary32 u v) := by
  cases u <;> cases v <;> try first | exact hu.elim | exact hv.elim
  case zero.zero => simpa [value, UnpackedFloat.mul] using Canonical.rounds (u := .zero _) trivial
  case zero.finite => simpa [value, UnpackedFloat.mul] using Canonical.rounds (u := .zero _) trivial
  case finite.zero => simpa [value, UnpackedFloat.mul] using Canonical.rounds (u := .zero _) trivial
  case finite.finite s m e hm s' m' e' hm' =>
    have hlog : 2 ^ 23 ≤ m ∨ 2 ^ 23 ≤ m' → 23 ≤ (m * m').log2 := by
      intro h
      rw [Nat.le_log2 (by positivity)]
      rcases h with h | h
      · exact h.trans (Nat.le_mul_of_pos_right m hm')
      · exact h.trans (Nat.le_mul_of_pos_left m' hm)
    have h := rounds_roundWithAccuracy (s * s') (m := m * m') (e := e + e') (by positivity) (by
      obtain ⟨-, he, hn⟩ := hu
      obtain ⟨-, he', hn'⟩ := hv
      rw [lastPlace_eq]
      omega)
    have hprod : ((s * s').apply (m * m' : ℕ) : ℚ) * 2 ^ (e + e') =
        s.apply m * 2 ^ e * (s'.apply m' * 2 ^ e') := by
      rw [zpow_add₀ (by norm_num), cast_apply, cast_apply s, cast_apply s', apply_mul]
      push_cast
      ring
    rwa [hprod] at h

/-- A float of the opposite sign stands for the opposite number. -/
theorem value_neg (u : UnpackedFloat) : value u.neg = -value u := by
  cases u with
  | finite s m e hm => rw [UnpackedFloat.neg, value, value, apply_neg, Int.cast_neg, neg_mul]
  | _ => simp [value, UnpackedFloat.neg]

/-- The sign has no part in whether a float is canonical. -/
theorem Canonical.neg (h : Canonical u) : Canonical u.neg := by
  cases u with
  | zero s => trivial
  | finite s m e hm => exact h
  | infinity s => exact h.elim
  | notANumber => exact h.elim

end VoxelStream.Single
