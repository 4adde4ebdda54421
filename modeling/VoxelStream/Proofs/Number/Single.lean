import VoxelStream.Proofs.Number.Rounding
import VoxelStream.Word

/-!
# Numbers in single precision

What `Float32` computes, in rational numbers. A finite float is what it stands for (`Is`); it is
compared with others as these numbers are (`Canonical.compare_eq`), and packing loses nothing in
range (`unpack_pack`). So the results of sums, products and conversions are known as in
`Proofs/Number/Rounding`: as numbers nearest to the exact results (`Is.add`, `Is.mul`), and as these
where they are representable (`Is.mul_exact`, `is_toFloat32`). A float that is no number is below
nothing and nothing is below it, so an upper bound of a number bounds all numbers up to it
(`Is.lt_of_le_of_lt`), whatever it is itself.
-/

namespace VoxelStream.Single

open Float.Model (Format UnpackedFloat)
open Float.Model.UnpackedFloat

variable {u v : UnpackedFloat}

/-! ## Order -/

/-- Of two canonical floats the one with the greater exponent is greater. -/
theorem magnitude_lt_of_exponent_lt {m m' : ℕ} {e e' : ℤ} (hm : m < 2 ^ 24) (he : -149 ≤ e)
    (hm' : 2 ^ 23 ≤ m' ∨ e' = -149) (h : e < e') : (m : ℚ) * 2 ^ e < m' * 2 ^ e' := by
  have hm' := hm'.resolve_right (by omega)
  calc (m : ℚ) * 2 ^ e < (2 ^ 24 : ℕ) * 2 ^ e := by gcongr
    _ = 2 ^ 23 * 2 ^ (e + 1) := by
      rw [zpow_add₀ (by norm_num)]
      norm_num
      ring
    _ ≤ (2 ^ 23 : ℕ) * 2 ^ e' := by
      push_cast
      exact mul_le_mul_of_nonneg_left (zpow_le_zpow_right₀ (by norm_num) h) (by norm_num)
    _ ≤ m' * 2 ^ e' := by gcongr

/-- Canonical mantissas are compared by their exponents first, and the numbers they stand for are in
the same order. -/
theorem compare_magnitude {m m' : ℕ} {e e' : ℤ}
    (hm : m < 2 ^ 24 ∧ -149 ≤ e ∧ (2 ^ 23 ≤ m ∨ e = -149))
    (hm' : m' < 2 ^ 24 ∧ -149 ≤ e' ∧ (2 ^ 23 ≤ m' ∨ e' = -149)) :
    (compare e e').then (compare m m') = compare ((m : ℚ) * 2 ^ e) (m' * 2 ^ e') := by
  rcases lt_trichotomy e e' with h | rfl | h
  · rw [compare_lt_iff_lt.2 h,
      compare_lt_iff_lt.2 (magnitude_lt_of_exponent_lt hm.1 hm.2.1 hm'.2.2 h)]
    rfl
  · rw [compare_eq_iff_eq.2 rfl, Ordering.eq_then]
    rcases lt_trichotomy m m' with h | rfl | h
    · rw [compare_lt_iff_lt.2 h, eq_comm, compare_lt_iff_lt]
      gcongr
    · rw [compare_eq_iff_eq.2 rfl, compare_eq_iff_eq.2 rfl]
    · rw [compare_gt_iff_gt.2 h, eq_comm, compare_gt_iff_gt]
      gcongr
  · rw [compare_gt_iff_gt.2 h,
      compare_gt_iff_gt.2 (magnitude_lt_of_exponent_lt hm'.1 hm'.2.1 hm.2.2 h)]
    rfl

/-- All canonical floats compare alike with an infinity. -/
theorem Canonical.compare_infinity (hu : Canonical u) (hv : Canonical v) (s : Sign) :
    u.compare (.infinity s) = v.compare (.infinity s) := by
  cases s <;> cases u <;> cases v <;> first | rfl | exact hu.elim | exact hv.elim

/-- Negation turns the order around. -/
theorem compare_neg_neg (a b : ℚ) : compare (-a) (-b) = (compare a b).swap := by
  rcases lt_trichotomy a b with h | rfl | h
  · rw [compare_lt_iff_lt.2 h, compare_gt_iff_gt.2 (neg_lt_neg h)]
    rfl
  · rw [compare_eq_iff_eq.2 rfl, compare_eq_iff_eq.2 rfl]
    rfl
  · rw [compare_gt_iff_gt.2 h, compare_lt_iff_lt.2 (neg_lt_neg h)]
    rfl

/-- Canonical floats are compared as what they stand for. -/
theorem Canonical.compare_eq (hu : Canonical u) (hv : Canonical v) :
    u.compare v = some (compare (value u) (value v)) := by
  cases u <;> cases v <;> try first | exact hu.elim | exact hv.elim
  case zero.zero => simp [UnpackedFloat.compare, value]
  case zero.finite s s' m e hm =>
    have hpos : (0 : ℚ) < m * 2 ^ e := by positivity
    cases s' <;> simp only [UnpackedFloat.compare, value, Sign.apply, Int.cast_neg, neg_mul,
      Int.cast_natCast]
    · rw [compare_gt_iff_gt.2 (by linarith)]
    · rw [compare_lt_iff_lt.2 hpos]
  case finite.zero s m e hm s' =>
    have hpos : (0 : ℚ) < m * 2 ^ e := by positivity
    cases s <;> simp only [UnpackedFloat.compare, value, Sign.apply, Int.cast_neg, neg_mul,
      Int.cast_natCast]
    · rw [compare_lt_iff_lt.2 (by linarith)]
    · rw [compare_gt_iff_gt.2 hpos]
  case finite.finite s m e hm s' m' e' hm' =>
    have hpos : (0 : ℚ) < m * 2 ^ e := by positivity
    have hpos' : (0 : ℚ) < m' * 2 ^ e' := by positivity
    cases s <;> cases s' <;> simp only [UnpackedFloat.compare, value, Sign.apply, Int.cast_neg,
      neg_mul, Int.cast_natCast, compare_neg_neg, compare_magnitude hu hv]
    · rw [compare_lt_iff_lt.2 (by linarith)]
    · rw [compare_gt_iff_gt.2 (by linarith)]

/-! ## Packing -/

/-- A normal float in range has no exponent above the greatest one. -/
theorem exponent_le {s : Sign} {m : ℕ} {e : ℤ} {hm : 0 < m} (hnormal : 2 ^ 23 ≤ m ∨ e = -149)
    (hfit : |value (.finite s m e hm)| < 2 ^ 128) : e ≤ 104 := by
  rcases hnormal with hnormal | rfl
  · have habs : |value (.finite s m e hm)| = m * 2 ^ e := by
      have hpos : (0 : ℚ) < m * 2 ^ e := by positivity
      cases s <;> simp only [value, Sign.apply, Int.cast_neg, neg_mul, abs_neg, Int.cast_natCast,
        abs_of_pos hpos]
    have hlow : (2 : ℚ) ^ (23 + e) ≤ m * 2 ^ e := by
      rw [zpow_add₀ (by norm_num)]
      gcongr
      exact_mod_cast hnormal
    have hlt : (2 : ℚ) ^ (23 + e) < 2 ^ (128 : ℤ) := by
      rw [← habs] at hlow
      exact hlow.trans_lt hfit
    have := (zpow_lt_zpow_iff_right₀ (by norm_num)).1 hlt
    omega
  · norm_num

/-- A number that fits a word and is not the number of another word is not that word. -/
theorem ofNat_ne {w n : ℕ} {c : BitVec w} (hn : n < 2 ^ w) (h : n ≠ c.toNat) :
    BitVec.ofNat w n ≠ c := fun e =>
  h (by rw [← e, BitVec.toNat_ofNat, Nat.mod_eq_of_lt hn])

/-- The biased exponent of a float in range has a place of its own in the bits. -/
theorem pack_finite (s : Sign) {m b : ℕ} (hm : 0 < m) (hb : b ≤ 254) :
    pack .binary32 (.finite s m (b - 150) hm) =
      if m.log2 + 1 = 24 then packComponents .binary32 s (.ofNat 8 b) (.ofNat 23 m)
      else packComponents .binary32 s 0#8 (.ofNat 23 m) := by
  have hbias : ((b : ℤ) - 150 + Format.binary32.exponentBias +
      Format.binary32.mantissaBitsWithoutImplicit).toNat = b := by
    simp only [Format.exponentBias]
    omega
  simp only [UnpackedFloat.pack, hbias]
  rw [if_neg (by norm_num; omega)]
  rfl

/-- A float with all twenty-four digits is packed without its first digit, which is restored from
the biased exponent. -/
theorem unpack_pack_normal (s : Sign) {m b : ℕ} (hm : 0 < m) (hlow : 2 ^ 23 ≤ m)
    (hhigh : m < 2 ^ 24) (hpos : 1 ≤ b) (hb : b ≤ 254) :
    unpack .binary32 (pack .binary32 (.finite s m (b - 150) hm)) = .finite s m (b - 150) hm := by
  have hlog : m.log2 = 23 := (Nat.log2_eq_iff hm.ne').2 ⟨hlow, hhigh⟩
  have hdigits : (1#1 ++ BitVec.ofNat 23 m).toNat = m := by
    rw [BitVec.toNat_append, ← Nat.shiftLeft_add_eq_or_of_lt (BitVec.isLt _), BitVec.toNat_ofNat]
    simp only [BitVec.toNat_ofNat, Nat.shiftLeft_eq]
    omega
  have hfield : (BitVec.ofNat 8 b).toNat = b := by
    rw [BitVec.toNat_ofNat]
    omega
  have hfinite : BitVec.ofNat 8 b ≠ -1#8 := ofNat_ne (by omega) (by simp; omega)
  have hnonzero : BitVec.ofNat 8 b ≠ 0#8 := ofNat_ne (by omega) (by simp; omega)
  rw [pack_finite s hm hb, if_pos (by omega)]
  simp only [UnpackedFloat.unpack, unpackMantissa_packComponents, unpackExponent_packComponents,
    unpackSign_packComponents, Sign.ofBitVec_toBitVec, if_neg hfinite, if_neg hnonzero, hdigits,
    hfield]
  simp [Format.exponentBias]

/-- A float with fewer digits is packed with the biased exponent zero, which stands for the least
exponent. -/
theorem unpack_pack_subnormal (s : Sign) {m : ℕ} (hm : 0 < m) (hhigh : m < 2 ^ 23) :
    unpack .binary32 (pack .binary32 (.finite s m (-149) hm)) = .finite s m (-149) hm := by
  have hlog := (Nat.log2_lt hm.ne').2 hhigh
  have hdigits : (BitVec.ofNat 23 m).toNat = m := by
    rw [BitVec.toNat_ofNat]
    omega
  have hnonzero : BitVec.ofNat 23 m ≠ 0#23 := ofNat_ne hhigh (by simp; omega)
  have hpack := pack_finite s (b := 1) hm (by omega)
  norm_num at hpack
  rw [hpack, if_neg (by omega)]
  simp only [UnpackedFloat.unpack, unpackMantissa_packComponents, unpackExponent_packComponents,
    unpackSign_packComponents, Sign.ofBitVec_toBitVec, dif_neg hnonzero, hdigits]
  simp [Format.exponentBias]

/-- Packing loses nothing. -/
theorem unpack_pack (hu : Canonical u) (hfit : |value u| < 2 ^ 128) :
    unpack .binary32 (pack .binary32 u) = u := by
  cases u with
  | zero s => exact unpack_packedZero
  | finite s m e hm =>
    obtain ⟨hlt, he, hnormal⟩ := hu
    have hmax := exponent_le hnormal hfit
    rcases le_or_gt (2 ^ 23) m with hlow | hlow
    · obtain ⟨b, rfl⟩ : ∃ b : ℕ, e = b - 150 := ⟨(e + 150).toNat, by omega⟩
      exact unpack_pack_normal s hm hlow hlt (by omega) (by omega)
    · obtain rfl := hnormal.resolve_left (by omega)
      exact unpack_pack_subnormal s hm hlow
  | infinity s => exact hu.elim
  | notANumber => exact hu.elim

/-- What is unpacked is canonical if it is finite. -/
theorem canonical_unpack (b : BitVec Format.binary32.numBits) : unpack .binary32 b = .notANumber ∨
    (∃ s, unpack .binary32 b = .infinity s) ∨ Canonical (unpack .binary32 b) := by
  simp only [UnpackedFloat.unpack]
  split
  · split
    · exact .inr (.inl ⟨_, rfl⟩)
    · exact .inl rfl
  next h255 =>
    refine .inr (.inr ?_)
    have hexp := (unpackExponent b).isLt
    have hmant := (unpackMantissa b).isLt
    split
    next h0 =>
      split
      · trivial
      · refine ⟨?_, ?_, .inr ?_⟩
        · exact hmant.trans (by norm_num)
        · rw [h0]
          simp [Format.exponentBias]
        · rw [h0]
          simp [Format.exponentBias]
    next h0 =>
      have hpos : (unpackExponent b).toNat ≠ 0 := fun h =>
        h0 (BitVec.eq_of_toNat_eq h)
      refine ⟨?_, ?_, .inl ?_⟩
      · have := (1#1 ++ unpackMantissa b).isLt
        omega
      · simp only [Format.exponentBias]
        omega
      · rw [BitVec.toNat_append, ← Nat.shiftLeft_add_eq_or_of_lt hmant]
        simp [Nat.shiftLeft_eq]

/-! ## Numbers -/

/-- The float is finite and stands for `q`. -/
structure Is (a : Float32) (q : ℚ) : Prop where
  canonical : Canonical a.toModel.unpack
  value_eq : value a.toModel.unpack = q

/-- A number within representable bounds has its nearest ones within them. -/
theorem Nearest.abs_le_of_abs_le {x q b : ℚ} (h : Nearest x q) (hb : Representable b)
    (hx : |x| ≤ b) : |q| ≤ b := by
  rw [abs_le] at hx ⊢
  constructor
  · by_contra! hlt
    have := h.le hb.neg
    cases abs_cases (q - x) <;> cases abs_cases (-b - x) <;> linarith
  · by_contra! hlt
    have := h.le hb
    cases abs_cases (q - x) <;> cases abs_cases (b - x) <;> linarith

/-- A canonical float in range is packed into a float that stands for the same number. -/
theorem is_pack {u : UnpackedFloat} (hu : Canonical u) (hfit : |value u| < 2 ^ 128) :
    Is (.ofModel (.pack u)) (value u) := by
  have h : (Float32.ofModel (.pack u)).toModel.unpack = u := unpack_pack hu hfit
  constructor <;> rw [h]
  exact hu

/-- A result that is rounded and packed is a float that stands for a nearest number. -/
theorem Rounds.is_pack {u : UnpackedFloat} {x : ℚ} (h : Rounds x u) (hfit : |x| ≤ 2 ^ 127) :
    ∃ q, Nearest x q ∧ Is (.ofModel (.pack u)) q := by
  refine ⟨value u, h.nearest, Single.is_pack h.canonical (lt_of_le_of_lt (b := 2 ^ 127) ?_ ?_)⟩
  · exact h.nearest.abs_le_of_abs_le ⟨1, 127, by norm_num, by norm_num, by norm_num⟩ hfit
  · norm_num

variable {a b : Float32} {x y : ℚ}

/-- The sum of two floats stands for a number nearest to the exact sum. -/
theorem Is.add (ha : Is a x) (hb : Is b y) (hfit : |x + y| ≤ 2 ^ 127) :
    ∃ q, Nearest (x + y) q ∧ Is (a + b) q := by
  have h := ha.canonical.add hb.canonical
  rw [ha.value_eq, hb.value_eq] at h
  exact h.is_pack hfit

/-- The product of two floats stands for a number nearest to the exact product. -/
theorem Is.mul (ha : Is a x) (hb : Is b y) (hfit : |x * y| ≤ 2 ^ 127) :
    ∃ q, Nearest (x * y) q ∧ Is (a * b) q := by
  have h := ha.canonical.mul hb.canonical
  rw [ha.value_eq, hb.value_eq] at h
  exact h.is_pack hfit

/-- Negation is exact. -/
theorem Is.neg (ha : Is a x) (hfit : |x| ≤ 2 ^ 127) : Is (-a) (-x) := by
  have hvalue : value a.toModel.unpack.neg = -x := by rw [value_neg, ha.value_eq]
  have h := Single.is_pack ha.canonical.neg (by
    rw [hvalue, abs_neg]
    exact lt_of_le_of_lt hfit (by norm_num))
  rwa [hvalue] at h

/-- Floats are ordered as they compare once unpacked. -/
theorem lt_iff {a b : Float32} : a < b ↔ a.toModel.unpack.compare b.toModel.unpack = some .lt := by
  change decide (a.toModel.unpack.lt b.toModel.unpack = true) = true ↔ _
  rw [decide_eq_true_iff, UnpackedFloat.lt, beq_iff_eq]

/-- What is above a number is above those up to it, be it a number or not. -/
theorem Is.lt_of_le_of_lt {h : Float32} (ha : Is a x) (hb : Is b y) (hxy : x ≤ y) (hlt : b < h) :
    a < h := by
  rw [lt_iff] at hlt ⊢
  rcases canonical_unpack h.toModel.toBits.toBitVec with hnan | ⟨s, hinf⟩ | hfinite
  · change h.toModel.unpack = _ at hnan
    rw [hnan] at hlt
    cases hb' : b.toModel.unpack <;> rw [hb'] at hlt <;> cases hlt
  · change h.toModel.unpack = _ at hinf
    rw [hinf] at hlt ⊢
    rwa [ha.canonical.compare_infinity hb.canonical]
  · change Canonical h.toModel.unpack at hfinite
    rw [hb.canonical.compare_eq hfinite, Option.some.injEq, compare_lt_iff_lt, hb.value_eq] at hlt
    rw [ha.canonical.compare_eq hfinite, Option.some.injEq, compare_lt_iff_lt, ha.value_eq]
    exact hxy.trans_lt hlt

/-- A sum that is representable is exact. -/
theorem Is.add_exact (ha : Is a x) (hb : Is b y) (hxy : Representable (x + y))
    (hfit : |x + y| ≤ 2 ^ 127) : Is (a + b) (x + y) := by
  obtain ⟨q, hq, h⟩ := ha.add hb hfit
  rwa [hq.eq hxy] at h

/-- A product that is representable is exact. -/
theorem Is.mul_exact (ha : Is a x) (hb : Is b y) (hxy : Representable (x * y))
    (hfit : |x * y| ≤ 2 ^ 127) : Is (a * b) (x * y) := by
  obtain ⟨q, hq, h⟩ := ha.mul hb hfit
  rwa [hq.eq hxy] at h

/-- A word with few digits is converted exactly. -/
theorem is_toFloat32 {w : Int32} (h : Representable w.toInt) : Is (Word.toFloat32 w) w.toInt := by
  have habs : ((w.toInt.natAbs : ℤ) : ℚ) = |(w.toInt : ℚ)| := by
    rw [Int.natCast_natAbs, Int.cast_abs]
  have hrep : Representable (w.toInt.natAbs : ℤ) := by
    rw [habs]
    rcases abs_cases (w.toInt : ℚ) with ⟨ha, -⟩ | ⟨ha, -⟩ <;> rw [ha]
    · exact h
    · exact h.neg
  have hfit : |((w.toInt.natAbs : ℤ) : ℚ)| ≤ 2 ^ 127 := by
    have : w.toInt.natAbs ≤ 2 ^ 127 := by
      have := w.le_toInt
      have := w.toInt_lt
      omega
    rw [Int.cast_natCast, Nat.abs_cast]
    exact_mod_cast this
  have hmagnitude : Is w.toInt.natAbs.toUInt64.toFloat32 (w.toInt.natAbs : ℤ) := by
    have hrounds := rounds_normalize w.toInt.natAbs 0 .positive
    have hnat : w.toInt.natAbs.toUInt64.toNat = w.toInt.natAbs := by
      have := w.le_toInt
      have := w.toInt_lt
      rw [Nat.toUInt64, UInt64.toNat_ofNat']
      omega
    rw [zpow_zero, mul_one] at hrounds
    obtain ⟨q, hq, his⟩ := hrounds.is_pack hfit
    rw [hq.eq hrep] at his
    change Is (.ofModel (.pack (UnpackedFloat.normalize .binary32 _ 0 .positive))) _
    rwa [hnat]
  unfold Word.toFloat32
  split
  next hneg =>
    have := hmagnitude.neg hfit
    rwa [habs, abs_of_neg (by exact_mod_cast hneg), neg_neg] at this
  next hpos =>
    rwa [habs, abs_of_nonneg (by exact_mod_cast Int.not_lt.1 hpos)] at hmagnitude

/-- The literal for a half stands for a half. -/
theorem is_half : Is (0.5 : Float32) (1 / 2) := by
  have h : (0.5 : Float32).toModel.unpack = .finite .positive (2 ^ 23) (-24) (by decide) := rfl
  constructor <;> rw [h]
  · exact ⟨by decide, by decide, .inl le_rfl⟩
  · norm_num [value, Sign.apply]

end VoxelStream.Single
