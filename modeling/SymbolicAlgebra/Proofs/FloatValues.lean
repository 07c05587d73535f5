import SymbolicAlgebra.Proofs.FloatRange

set_option autoImplicit false

/-!
# The values of binary64 numbers

A finite binary64 number has an exact value, a dyadic rational number (`Binary64.exactValue?`). Two
numbers compare as equal where they have the same parts, apart from the sign of a zero
(`Binary64.beq_iff`), so comparison is an equivalence on everything that is a number.

Literals are taken as integers by the integral part of a number and a comparison with the number
nearest to it. The test finds exactly the numbers whose value is an integer
(`SignedFloat.integer?_eq_some_iff`): an integer that is the value of a number is packed without
loss (`Binary64.unpack_ofNat`), and a number that is no integer has fewer than 53 bits before the
point, so that its integral part is packed without loss too and compares as different.
-/

namespace SymbolicAlgebra

namespace Binary64

open Float.Model (Format UnpackedFloat totalExponent)
open Float.Model.UnpackedFloat (Accuracy ExtendedMantissa Sign decreaseExponent normalize pack
  roundWithAccuracy shiftToTargetExponent unpack unpackExponent unpackMantissa unpackSign)

/-! ## Comparison -/

/-- The parts of a number without the sign of a zero. -/
def unsignedZero : UnpackedFloat → UnpackedFloat
  | .zero _ => .zero .positive
  | u => u

/-- Parts are equal where neither is less or greater. -/
theorem unpacked_beq_iff_compare (u w : UnpackedFloat) :
    u.beq w = true ↔ u.compare w = some .eq :=
  beq_iff_eq

/-- Infinities compare as equal where they have the same sign. -/
theorem beq_infinity_iff {s t : Sign} : (UnpackedFloat.infinity s).beq (.infinity t) = true ↔
    UnpackedFloat.infinity s = .infinity t := by
  cases s <;> cases t <;> first
    | exact iff_of_true rfl rfl
    | exact iff_of_false Bool.false_ne_true (by intro h; cases h)

/-- Exponents are compared before mantissas. -/
theorem compare_parts_eq_iff {m m' : ℕ} {e e' : ℤ} :
    (compare e e').then (compare m m') = .eq ↔ e = e' ∧ m = m' := by
  rw [Ordering.then_eq_eq, compare_eq_iff_eq, compare_eq_iff_eq]

/-- Finite numbers compare as equal where they have the same parts. -/
theorem beq_finite_iff {s t : Sign} {m m' : ℕ} {e e' : ℤ} {hm : 0 < m} {hm' : 0 < m'} :
    (UnpackedFloat.finite s m e hm).beq (.finite t m' e' hm') = true ↔
      UnpackedFloat.finite s m e hm = .finite t m' e' hm' := by
  -- Below zero the order of sizes is turned round.
  have hcompare : (UnpackedFloat.finite s m e hm).compare (.finite t m' e' hm') = some .eq ↔
      s = t ∧ (compare e e').then (compare m m') = .eq := by
    cases s <;> cases t
    case negative.negative =>
      exact (Option.some_inj.trans Ordering.swap_eq_eq).trans (and_iff_right rfl).symm
    case positive.positive => exact Option.some_inj.trans (and_iff_right rfl).symm
    all_goals exact iff_of_false (by rintro ⟨⟩) (by rintro ⟨⟨⟩, -⟩)
  rw [unpacked_beq_iff_compare, hcompare, compare_parts_eq_iff]
  constructor
  · rintro ⟨rfl, rfl, rfl⟩
    rfl
  · intro h
    cases h
    exact ⟨rfl, rfl, rfl⟩

/-- Parts of different kinds are different, and they compare so. -/
theorem unpacked_beq_iff_of_ne {u w : UnpackedFloat} (hbeq : u.beq w = false)
    (hne : unsignedZero u ≠ unsignedZero w) :
    u.beq w = true ↔ u ≠ .notANumber ∧ unsignedZero u = unsignedZero w :=
  iff_of_false (ne_true_of_eq_false hbeq) (mt And.right hne)

/-- Parts compare as equal where they are the same, apart from the sign of a zero. -/
theorem unpacked_beq_iff (u w : UnpackedFloat) :
    u.beq w = true ↔ u ≠ .notANumber ∧ unsignedZero u = unsignedZero w := by
  cases u with
  | notANumber => exact iff_of_false Bool.false_ne_true (mt And.left (not_not_intro rfl))
  | zero s =>
    cases w with
    | zero t => exact iff_of_true rfl ⟨by rintro ⟨⟩, rfl⟩
    | notANumber => exact unpacked_beq_iff_of_ne rfl (by rintro ⟨⟩)
    | infinity t | finite t => cases t <;> exact unpacked_beq_iff_of_ne rfl (by rintro ⟨⟩)
  | infinity s =>
    cases w with
    | infinity t => exact beq_infinity_iff.trans (and_iff_right (by rintro ⟨⟩)).symm
    | zero t | notANumber | finite t =>
      cases s <;> exact unpacked_beq_iff_of_ne rfl (by rintro ⟨⟩)
  | finite s m e hm =>
    cases w with
    | finite t m' e' hm' => exact beq_finite_iff.trans (and_iff_right (by rintro ⟨⟩)).symm
    | notANumber => exact unpacked_beq_iff_of_ne rfl (by rintro ⟨⟩)
    | zero t => cases s <;> exact unpacked_beq_iff_of_ne rfl (by rintro ⟨⟩)
    | infinity t => cases s <;> cases t <;> exact unpacked_beq_iff_of_ne rfl (by rintro ⟨⟩)

/-- Numbers compare as equal where they have the same parts, apart from the sign of a zero. -/
theorem beq_iff (v w : Float) : (v == w) = true ↔
    v.toModel.unpack ≠ .notANumber ∧
      unsignedZero v.toModel.unpack = unsignedZero w.toModel.unpack :=
  unpacked_beq_iff _ _

/-! ## Numbers that are packed without loss -/

/-- A size that fits into 53 bits is not changed by rounding. -/
theorem roundWithAccuracy_exact {s : Sign} {M m k : ℕ} {E e : ℤ} (hm : 0 < m)
    (hlog : m.log2 = 52) (hmin : -1074 ≤ e) (hM : M = m * 2 ^ k) (hE : E = e - k) :
    roundWithAccuracy .binary64 s M E .exact = .finite s m e hm := by
  subst hM hE
  obtain ⟨hlow, hhigh⟩ := (Nat.log2_eq_iff hm.ne').1 hlog
  have hlogM : (m * 2 ^ k).log2 = 52 + k := by
    rw [Nat.log2_eq_iff (by positivity), add_right_comm, pow_add, pow_add]
    exact ⟨Nat.mul_le_mul_right _ hlow, Nat.mul_lt_mul_of_pos_right hhigh (by positivity)⟩
  have hstands : Stands (ExtendedMantissa.ofMantissaAndAccuracy (m * 2 ^ k) .exact >>> k) m := by
    have h : Stands (ExtendedMantissa.ofMantissaAndAccuracy (m * 2 ^ k) .exact)
        ((m * 2 ^ k : ℕ) : ℚ) := ⟨le_rfl, lt_add_one _, fun _ => ⟨rfl, rfl⟩⟩
    have hk := h.shiftRight k
    rwa [Nat.cast_mul, Nat.cast_pow, Nat.cast_ofNat, mul_div_cancel_right₀ _ (by positivity)] at hk
  have hround := le_antisymm (hstands.roundedMantissa_le le_rfl)
    (hstands.le_roundedMantissa le_rfl)
  have hfirst := shiftToTargetExponent_eq (e := e - k) (a := .exact) hlogM (by omega)
  have hsecond := shiftToTargetExponent_eq (k := 0) (a := .exact) hlog
    (show -1074 ≤ e - k + k + (0 : ℕ) by push_cast; omega)
  rw [roundWithAccuracy, hfirst]
  dsimp only
  refine (dif_neg ?_).trans (finite_congr ?_ ?_)
  · rw [hround, hsecond]
    exact hm.ne'
  · rw [hround, hsecond]
    rfl
  · rw [hround, hsecond]
    push_cast
    omega

/-- How finite numbers are multiplied. -/
theorem mul_finite (s s' : Sign) (m m' : ℕ) (e e' : ℤ) (hm : 0 < m) (hm' : 0 < m') :
    UnpackedFloat.mul .binary64 (.finite s m e hm) (.finite s' m' e' hm') =
      roundWithAccuracy .binary64 (s * s') (m * m') (e + e') .exact :=
  rfl

/-- A word of at most 53 bits is packed without loss. -/
theorem unpack_word {n m k : ℕ} (hn : 0 < n) (hm : 0 < m) (hlog : m.log2 = 52)
    (h : n * 2 ^ k = m) : n.toUInt64.toFloat.toModel.unpack = .finite .positive m (-k) hm := by
  subst h
  obtain ⟨hlow, hhigh⟩ := (Nat.log2_eq_iff hm.ne').1 hlog
  have hlogn : n.log2 + k = 52 := by
    rw [← hlog, eq_comm, Nat.log2_eq_iff hm.ne', add_right_comm, pow_add, pow_add]
    obtain ⟨hle, hlt⟩ := (Nat.log2_eq_iff hn.ne').1 (rfl : n.log2 = n.log2)
    exact ⟨Nat.mul_le_mul_right _ hle, Nat.mul_lt_mul_of_pos_right hlt (by positivity)⟩
  have hword : n.toUInt64.toNat = n := by
    have hle : n ≤ n * 2 ^ k := Nat.le_mul_of_pos_right n (by positivity)
    rw [Nat.toUInt64_eq, UInt64.toNat_ofNat']
    omega
  have hround : UnpackedFloat.ofUInt64 .binary64 n.toUInt64 =
      .finite .positive (n * 2 ^ k) (-k) hm := by
    have hcompare : compare (n : ℤ) 0 = .gt := compare_gt_iff_gt.2 (by omega)
    have hbits : (Format.binary64.mantissaBits : ℤ) = 53 := rfl
    have hleast : Format.binary64.minExponent = -1074 := rfl
    have htarget : (0 - Format.binary64.targetExponent (totalExponent n 0)).toNat = k := by
      rw [Format.targetExponent, totalExponent, hbits, hleast]
      omega
    rw [UnpackedFloat.ofUInt64, hword, UnpackedFloat.ofNat, UnpackedFloat.ofInt,
      UnpackedFloat.normalize, hcompare]
    dsimp only
    rw [UnpackedFloat.round, decreaseExponent, Int.toNat_natCast, htarget]
    exact roundWithAccuracy_exact (k := 0) hm hlog (by omega)
      (by rw [Nat.shiftLeft_eq, pow_zero, mul_one]) (by push_cast; omega)
  change unpack .binary64 (pack .binary64 (UnpackedFloat.ofUInt64 .binary64 n.toUInt64)) = _
  rw [hround]
  exact unpack_pack (.inr ⟨hlog, by omega, by omega⟩)

/-- A product that fits into 53 bits is packed without loss. -/
theorem unpack_product {s s' : Sign} {m₁ m₂ m k : ℕ} {e₁ e₂ e : ℤ} (h₁ : 0 < m₁) (h₂ : 0 < m₂)
    (hm : 0 < m) (hlog : m.log2 = 52) (hmin : -1074 ≤ e) (hmax : e ≤ 971)
    (h : m₁ * m₂ = m * 2 ^ k) (he : e₁ + e₂ = e - k) :
    unpack .binary64 (pack .binary64 (UnpackedFloat.mul .binary64 (.finite s m₁ e₁ h₁)
      (.finite s' m₂ e₂ h₂))) = .finite (s * s') m e hm := by
  rw [mul_finite, roundWithAccuracy_exact hm hlog hmin h he]
  exact unpack_pack (.inr ⟨hlog, hmin, hmax⟩)

/-- A natural number below `2 ^ 53` is packed without loss. -/
theorem unpack_ofNat_small {n m k : ℕ} (hn : 0 < n) (hm : 0 < m) (hlog : m.log2 = 52)
    (h : n * 2 ^ k = m) : (Float.ofNat n).toModel.unpack = .finite .positive m (-k) hm := by
  have hlt : n < 2 ^ 53 := by
    have hle : n ≤ n * 2 ^ k := Nat.le_mul_of_pos_right n (by positivity)
    exact (hle.trans_eq h).trans_lt ((Nat.log2_eq_iff hm.ne').1 hlog).2
  have hk : k ≤ 52 := by
    have hle : 2 ^ k ≤ m := h ▸ Nat.le_mul_of_pos_left _ hn
    have hlt := hle.trans_lt ((Nat.log2_eq_iff hm.ne').1 hlog).2
    have := (Nat.pow_lt_pow_iff_right (by decide : 1 < 2)).1 hlt
    omega
  have hone : (Float.ofBits 0x3FF0000000000000).toModel.unpack =
      .finite .positive (2 ^ 52) (-52) (by decide) := by rfl
  change (Float.ofScientific n false 0).toModel.unpack = _
  rw [Float.ofScientific, dif_pos ⟨hlt, by decide⟩]
  change unpack .binary64 (pack .binary64 (UnpackedFloat.mul .binary64
    n.toUInt64.toFloat.toModel.unpack (Float.ofBits 0x3FF0000000000000).toModel.unpack)) = _
  rw [hone, unpack_word hn hm hlog h]
  exact unpack_product (k := 52) hm (by decide) hm hlog (by omega) (by omega) rfl rfl

/-- A natural number of more bits is packed without loss where all bits but the first 53 are
clear. -/
theorem unpack_ofNat_large {m k : ℕ} (hm : 0 < m) (hlog : m.log2 = 52) (hpos : 0 < k)
    (hmax : k ≤ 971) :
    (Float.ofNat (m * 2 ^ k)).toModel.unpack = .finite .positive m k hm := by
  have hlarge : ¬(m * 2 ^ k < 2 ^ 53 ∧ 0 ≤ 22) := by
    have hlow := ((Nat.log2_eq_iff hm.ne').1 hlog).1
    have htwo : 2 ^ 1 ≤ 2 ^ k := Nat.pow_le_pow_right (by decide) hpos
    have := Nat.mul_le_mul hlow htwo
    omega
  have hne : m * 2 ^ k ≠ 0 := by positivity
  have hbits : (0 : ℤ) ≤ 2 ^ Format.binary64.exponentBits := by positivity
  change (Float.ofScientific (m * 2 ^ k) false 0).toModel.unpack = _
  rw [Float.ofScientific, dif_neg hlarge]
  change unpack .binary64 (pack .binary64 (UnpackedFloat.ofScientific .binary64 (m * 2 ^ k) 0)) = _
  rw [UnpackedFloat.ofScientific, dif_neg hne, if_neg (by decide), if_neg (by omega),
    if_pos le_rfl]
  refine unpack_product (k := k + 53) _ _ hm hlog (by omega) (by omega) ?_ ?_
  · change (m * 2 ^ k) <<< 53 * 10 ^ 0 = _
    rw [Nat.shiftLeft_eq, pow_zero, mul_one, pow_add, mul_assoc]
  · change -(53 : ℤ) + 0 = _
    push_cast
    omega

/-- A natural number that has 53 significant bits at most is packed without loss. -/
theorem unpack_ofNat {n m : ℕ} {e : ℤ} (hn : 0 < n) (hm : 0 < m) (hlog : m.log2 = 52)
    (hmax : e ≤ 971) (h : (n : ℚ) = m * 2 ^ e) :
    (Float.ofNat n).toModel.unpack = .finite .positive m e hm := by
  rcases le_or_gt e 0 with hle | hlt
  · obtain ⟨k, rfl⟩ := Int.exists_eq_neg_ofNat hle
    refine unpack_ofNat_small hn hm hlog ?_
    rw [zpow_neg, zpow_natCast, ← div_eq_mul_inv, eq_div_iff (by positivity)] at h
    exact_mod_cast h
  · lift e to ℕ using hlt.le
    rw [zpow_natCast] at h
    obtain rfl : n = m * 2 ^ e := by exact_mod_cast h
    exact unpack_ofNat_large hm hlog (by omega) (by omega)

/-! ## Fields -/

/-- The sign of a number. -/
def sign (v : Float) : Sign := if signBit v then .negative else .positive

/-- The sign of bits is that of their first one. -/
theorem ofBitVec_unpackSign (b : BitVec Format.binary64.numBits) :
    Sign.ofBitVec (unpackSign b) = if Nat.pow 2 63 ≤ b.toNat then .negative else .positive := by
  have hb : b.toNat < 2 ^ 64 := b.isLt
  have hsign : (unpackSign b).toNat = b.toNat / 2 ^ 63 := by
    change (b.toNat >>> 63) % 2 ^ 1 = _
    rw [Nat.shiftRight_eq_div_pow]
    omega
  simp only [Sign.ofBitVec, ← BitVec.toNat_inj, hsign, BitVec.toNat_ofNat, Nat.pow_eq]
  split <;> split <;> first | rfl | omega

/-- The exponent of bits. -/
theorem unpackExponent_eq (b : BitVec Format.binary64.numBits) :
    unpackExponent b = BitVec.ofNat 11 (b.toNat / Nat.pow 2 52 % Nat.pow 2 11) := by
  apply BitVec.eq_of_toNat_eq
  change (b.toNat >>> 52) % 2 ^ 11 = _
  rw [Nat.shiftRight_eq_div_pow, BitVec.toNat_ofNat]
  exact (Nat.mod_mod _ _).symm

/-- The mantissa of bits. -/
theorem unpackMantissa_eq (b : BitVec Format.binary64.numBits) :
    unpackMantissa b = BitVec.ofNat 52 (b.toNat % Nat.pow 2 52) := by
  apply BitVec.eq_of_toNat_eq
  change (b.toNat >>> 0) % 2 ^ 52 = _
  rw [Nat.shiftRight_zero, BitVec.toNat_ofNat]
  exact (Nat.mod_mod _ _).symm

/-- Unpacking a number puts its fields together. -/
theorem unpack_eq_assemble (v : Float) :
    v.toModel.unpack = assemble (sign v) (BitVec.ofNat 11 (exponentField v))
      (BitVec.ofNat 52 (mantissaField v)) := by
  change unpack .binary64 v.toModel.toBits.toBitVec = _
  rw [unpack_eq, ofBitVec_unpackSign, unpackExponent_eq, unpackMantissa_eq]
  simp only [sign, signBit, decide_eq_true_eq]
  rfl

/-- The exponent field has eleven bits. -/
theorem toNat_exponentField (v : Float) :
    (BitVec.ofNat 11 (exponentField v)).toNat = exponentField v :=
  Nat.mod_eq_of_lt (Nat.mod_lt _ (by decide))

/-- The mantissa field has 52 bits. -/
theorem toNat_mantissaField (v : Float) :
    (BitVec.ofNat 52 (mantissaField v)).toNat = mantissaField v :=
  Nat.mod_eq_of_lt (Nat.mod_lt _ (by decide))

/-- Finite numbers do not have the greatest exponent. -/
theorem ne_of_isFinite_assemble {s : Sign} {e : BitVec 11} {m : BitVec 52}
    (h : (assemble s e m).isFinite = true) : e ≠ -1#11 := by
  intro hall
  rw [assemble, if_pos hall] at h
  by_cases hm : m = 0#52
  · rw [if_pos hm] at h
    cases h
  · rw [if_neg hm] at h
    cases h

/-- Unpacking a finite number and decoding it give the same parts. -/
theorem unpack_eq_decode {v : Float} (h : v.isFinite = true) :
    v.toModel.unpack = if hm : (decode v).mantissa = 0 then .zero (sign v)
      else .finite (sign v) (decode v).mantissa (decode v).exponent (Nat.pos_of_ne_zero hm) := by
  have hfinite : v.toModel.unpack.isFinite = true := h
  rw [unpack_eq_assemble] at hfinite ⊢
  rw [assemble, if_neg (ne_of_isFinite_assemble hfinite)]
  by_cases hzero : BitVec.ofNat 11 (exponentField v) = 0#11
  · have hfield : exponentField v = 0 := by
      rw [← toNat_exponentField, hzero]
      rfl
    have hdecode : decode v = { mantissa := mantissaField v, exponent := -1074 } := by
      rw [decode, if_pos hfield]
    have hmantissa : BitVec.ofNat 52 (mantissaField v) = 0#52 ↔ (decode v).mantissa = 0 := by
      rw [← BitVec.toNat_inj, toNat_mantissaField, hdecode]
      rfl
    rw [if_pos hzero]
    by_cases hm : (decode v).mantissa = 0
    · rw [dif_pos (hmantissa.2 hm), dif_pos hm]
    · rw [dif_neg (mt hmantissa.1 hm), dif_neg hm]
      refine finite_congr ?_ ?_
      · rw [toNat_mantissaField, hdecode]
      · rw [toNat_exponentField, hfield, hdecode]
        rfl
  · have hfield : exponentField v ≠ 0 := fun h => hzero (by rw [h])
    have hmantissa : (decode v).mantissa = 2 ^ 52 + mantissaField v := by
      rw [decode, if_neg hfield]
      exact Nat.add_comm _ _
    rw [if_neg hzero, dif_neg (by omega)]
    refine finite_congr ?_ ?_
    · rw [toNat_leading, toNat_mantissaField, hmantissa]
    · rw [toNat_exponentField, decode, if_neg hfield]

/-! ## Values -/

/-- The exact value of a finite number. -/
def exactValue? (v : Float) : Option ℚ :=
  match v.toModel.unpack with
  | .zero _ => some 0
  | .finite s m e _ => some (s.apply m * 2 ^ e)
  | .infinity _ | .notANumber => none

/-- The size of a number without the part behind the point. -/
def integralPart (m : ℕ) (e : ℤ) : ℕ := m * 2 ^ e.toNat / 2 ^ (-e).toNat

/-- The integral part of a number by its parts. -/
theorem integerPart?_eq (v : Float) :
    integerPart? v = match v.toModel.unpack with
      | .zero _ => some 0
      | .finite s m e _ => some (s.apply (integralPart m e))
      | .infinity _ | .notANumber => none := by
  by_cases hfinite : v.isFinite = true
  · rw [unpack_eq_decode hfinite, integerPart?, if_pos hfinite]
    by_cases hm : (decode v).mantissa = 0
    · simp [hm]
    · rw [dif_neg hm]
      cases hsign : signBit v <;> simp [sign, hsign, Sign.apply, integralPart]
  · have hnone : v.toModel.unpack.isFinite ≠ true := hfinite
    rw [integerPart?, if_neg hfinite]
    cases hu : v.toModel.unpack with
    | zero | finite =>
      rw [hu] at hnone
      exact absurd rfl hnone
    | infinity | notANumber => rfl

/-- The integral part of an integral size. -/
theorem integralPart_eq {k m : ℕ} {e : ℤ} (h : (k : ℚ) = m * 2 ^ e) : integralPart m e = k := by
  rcases le_or_gt e 0 with hle | hlt
  · obtain ⟨j, rfl⟩ := Int.exists_eq_neg_ofNat hle
    rw [zpow_neg, zpow_natCast, ← div_eq_mul_inv, eq_div_iff (by positivity)] at h
    obtain rfl : k * 2 ^ j = m := by exact_mod_cast h
    simp [integralPart]
  · lift e to ℕ using hlt.le
    rw [zpow_natCast] at h
    obtain rfl : k = m * 2 ^ e := by exact_mod_cast h
    simp [integralPart]

/-- A natural number below `2 ^ 53` has its leading bit in place after a shift. -/
theorem exists_shift {k : ℕ} (hk : 0 < k) (hlt : k < 2 ^ 53) :
    ∃ (m : ℕ) (e : ℤ), m.log2 = 52 ∧ e ≤ 971 ∧ (k : ℚ) = m * 2 ^ e := by
  have hlog : k.log2 < 53 := (Nat.log2_lt hk.ne').2 hlt
  obtain ⟨hlow, hhigh⟩ := (Nat.log2_eq_iff hk.ne').1 (rfl : k.log2 = k.log2)
  obtain ⟨j, hj⟩ := Nat.exists_eq_add_of_le (Nat.le_of_lt_succ hlog)
  refine ⟨k * 2 ^ j, -j, ?_, by omega, ?_⟩
  · rw [hj, Nat.log2_eq_iff (by positivity), add_right_comm, pow_add, pow_add]
    exact ⟨Nat.mul_le_mul_right _ hlow, Nat.mul_lt_mul_of_pos_right hhigh (by positivity)⟩
  · rw [zpow_neg, zpow_natCast]
    push_cast
    rw [mul_inv_cancel_right₀ (by positivity)]

end Binary64

/-! ## Literals that are integers -/

namespace SignedFloat

open Binary64
open Float.Model (UnpackedFloat)
open Float.Model.UnpackedFloat (Sign)

/-- The opposite of a natural number is packed with the sign. -/
theorem unpack_ofInt (s : Sign) {k m : ℕ} {e : ℤ} (hk : 0 < k) (hm : 0 < m) (hlog : m.log2 = 52)
    (hmax : e ≤ 971) (h : (k : ℚ) = m * 2 ^ e) :
    (Scalar.ofInt (s.apply k) : SignedFloat).value.toModel.unpack = .finite s m e hm := by
  have hu := unpack_ofNat hk hm hlog hmax h
  cases s with
  | positive => exact hu
  | negative =>
    obtain ⟨j, rfl⟩ := Nat.exists_eq_add_one.2 hk
    change (-Float.ofNat (j + 1)).toModel.unpack = _
    rw [unpack_neg, hu]
    rfl

/-- Parts that give an integer have a leading bit, and give its size and its sign. -/
theorem parts_of_integral {v : Float} {s : Sign} {m : ℕ} {e n : ℤ} {hm : 0 < m}
    (hv : v.toModel.unpack = .finite s m e hm) (h : (s.apply m : ℚ) * 2 ^ e = n) :
    ∃ k : ℕ, n = s.apply k ∧ 0 < k ∧ (k : ℚ) = m * 2 ^ e ∧ m.log2 = 52 ∧ e ≤ 971 := by
  have hpos : (0 : ℚ) < m * 2 ^ e := by positivity
  obtain ⟨k, rfl, hk⟩ : ∃ k : ℕ, n = s.apply k ∧ (k : ℚ) = m * 2 ^ e := by
    cases s with
    | positive =>
      have hn : (0 : ℚ) < n := h ▸ hpos
      lift n to ℕ using (Int.cast_pos.1 hn).le
      exact ⟨n, rfl, by simpa [Sign.apply] using h.symm⟩
    | negative =>
      have hn : (n : ℚ) = -(m * 2 ^ e) := by simpa [Sign.apply] using h.symm
      have hneg : n < 0 := Int.cast_lt_zero.1 (hn ▸ neg_neg_of_pos hpos)
      refine ⟨n.natAbs, by simp only [Sign.apply]; omega, ?_⟩
      rw [Nat.cast_natAbs, abs_of_neg hneg, Int.cast_neg, hn, neg_neg]
  have hone : 0 < k := by exact_mod_cast hk ▸ hpos
  have hcanonical := canonical_unpack v.toModel.toBits.toBitVec
  change Canonical v.toModel.unpack at hcanonical
  rw [hv] at hcanonical
  rcases hcanonical with ⟨hlt, rfl⟩ | ⟨hlog, -, hmax⟩
  · -- Without the leading bit the number is smaller than one.
    exfalso
    have hunit : (m : ℚ) * 2 ^ (-1074 : ℤ) < 2 ^ (52 : ℤ) * 2 ^ (-1074 : ℤ) := by
      refine mul_lt_mul_of_pos_right ?_ (zpow_pos two_pos _)
      exact_mod_cast hlt
    rw [← hk, ← zpow_add₀ two_ne_zero] at hunit
    have hsmall : (k : ℚ) < 1 := hunit.trans_le (zpow_le_one_of_nonpos₀ one_le_two (by decide))
    exact absurd (Nat.cast_lt_one.1 hsmall) hone.ne'
  · exact ⟨k, rfl, hone, hk, hlog, hmax⟩

/-- A number whose integral part compares as equal has it as its size. -/
theorem integralPart_of_eqv {v : Float} {s : Sign} {m : ℕ} {e : ℤ} {hm : 0 < m}
    (hv : v.toModel.unpack = .finite s m e hm)
    (h : unsignedZero (Scalar.ofInt (s.apply (integralPart m e)) : SignedFloat).value.toModel.unpack
      = .finite s m e hm) : (integralPart m e : ℚ) = m * 2 ^ e := by
  rcases le_or_gt 0 e with hle | hlt
  · lift e to ℕ using hle
    simp [integralPart]
  · -- There are fewer than 53 bits before the point.
    have hbits : integralPart m e < 2 ^ 53 := by
      have hmantissa : m < 2 ^ 53 := by
        have hcanonical := canonical_unpack v.toModel.toBits.toBitVec
        change Canonical v.toModel.unpack at hcanonical
        rw [hv] at hcanonical
        rcases hcanonical with ⟨hlt, -⟩ | ⟨hlog, -⟩
        · omega
        · exact ((Nat.log2_eq_iff hm.ne').1 hlog).2
      rw [integralPart, Int.toNat_of_nonpos hlt.le, pow_zero, mul_one]
      exact (Nat.div_le_self _ _).trans_lt hmantissa
    rcases Nat.eq_zero_or_pos (integralPart m e) with hzero | hpos
    · rw [hzero] at h
      cases s <;> cases h
    · obtain ⟨m', e', hlog, hmax, hk⟩ := exists_shift hpos hbits
      have hm' : 0 < m' := Nat.pos_of_ne_zero (by rintro rfl; simp at hlog)
      rw [unpack_ofInt s hpos hm' hlog hmax hk] at h
      cases h
      exact hk

/-- A literal is taken as the integer that is its value. -/
theorem integer?_eq_some_iff (v : SignedFloat) (n : ℤ) :
    Scalar.integer? v = some n ↔ exactValue? v.value = some (n : ℚ) := by
  rw [Scalar.integer?, Option.filter_eq_some_iff]
  change integerPart? v.value = some n ∧
    ((Scalar.ofInt n : SignedFloat).value == v.value) = true ↔ _
  rw [integerPart?_eq, beq_iff, exactValue?]
  cases hu : v.value.toModel.unpack with
  | infinity s | notANumber => simp
  | zero s =>
    simp only [Option.some.injEq]
    constructor
    · rintro ⟨rfl, -⟩
      exact Int.cast_zero.symm
    · intro h
      obtain rfl : n = 0 := by exact_mod_cast h.symm
      exact ⟨rfl, by rintro ⟨⟩, rfl⟩
  | finite s m e hm =>
    rw [Option.some_inj, Option.some_inj]
    constructor
    · rintro ⟨rfl, -, h⟩
      have hvalue := integralPart_of_eqv hu h
      cases s <;> simp [Sign.apply, hvalue]
    · intro h
      obtain ⟨k, rfl, hk, hvalue, hlog, hmax⟩ := parts_of_integral hu h
      rw [integralPart_eq hvalue, unpack_ofInt s hk hm hlog hmax hvalue]
      exact ⟨rfl, by rintro ⟨⟩, rfl⟩

/-- The integers of machine size are those of size below `2 ^ 63`. -/
theorem machineInteger?_eq_some_iff (v : SignedFloat) (n : ℤ) :
    Scalar.machineInteger? v = some n ↔
      exactValue? v.value = some (n : ℚ) ∧ n.natAbs < 2 ^ 63 := by
  rw [Scalar.machineInteger?, Option.filter_eq_some_iff, integer?_eq_some_iff]
  simp only [decide_eq_true_eq]
  rfl

end SignedFloat

end SymbolicAlgebra
