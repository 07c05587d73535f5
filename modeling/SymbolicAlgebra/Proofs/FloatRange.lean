import Mathlib.Algebra.Order.Field.Power
import Mathlib.Tactic.FieldSimp
import Mathlib.Tactic.Linarith
import Mathlib.Tactic.Positivity
import Mathlib.Tactic.Ring
import SymbolicAlgebra.Scalar.SignedFloat

set_option autoImplicit false

/-!
# The range of binary64 numbers

A binary64 number is packed into bits, and an operation unpacks its operands, computes exactly
and rounds. Numbers of the format are packed without loss (`Binary64.unpack_pack`).

This module looks at what rounding does to the size of a result. Rounding does not go past a power
of two that the format has (`Binary64.exists_round`), so a product or a quotient of numbers between
two powers of two (`Binary64.Within`) stays in the range of the powers of two around it
(`Within.mul`, `Within.div`), as long as this range is the one of normal numbers. Outside of it a
result may be rounded to zero.
-/

namespace SymbolicAlgebra.Binary64

open Float.Model (Format UnpackedFloat totalExponent)
open Float.Model.UnpackedFloat (Accuracy ExtendedMantissa Sign accuracyOfFraction divCore pack
  packComponents roundWithAccuracy shiftToExponent shiftToTargetExponent unpack unpackExponent
  unpackExponent_packComponents unpackMantissa unpackMantissa_packComponents unpackSign)

/-! ## Numbers in their parts -/

/-- The parts are those of a number of the format: a finite number has the least exponent and a
mantissa without the leading bit, or the leading bit and an exponent in the range. -/
def Canonical : UnpackedFloat → Prop
  | .finite _ m e _ => m < 2 ^ 52 ∧ e = -1074 ∨ m.log2 = 52 ∧ -1074 ≤ e ∧ e ≤ 971
  | _ => True

/-- The mantissa of a number with the leading bit. -/
theorem toNat_leading (m : BitVec 52) : (1#1 ++ m).toNat = 2 ^ 52 + m.toNat := by
  rw [BitVec.toNat_append, ← Nat.shiftLeft_add_eq_or_of_lt m.isLt]
  rfl

/-- The number with a sign, an exponent field and a mantissa field. -/
def assemble (s : Sign) (e : BitVec 11) (m : BitVec 52) : UnpackedFloat :=
  if e = -1#11 then if m = 0#52 then .infinity s else .notANumber
  else if e = 0#11 then
    if h : m = 0#52 then .zero s
    else .finite s m.toNat (e.toNat - 1075 + 1)
      (by simpa [BitVec.toNat_pos, BitVec.pos_iff_ne_zero])
  else .finite s (1#1 ++ m).toNat (e.toNat - 1075) (by rw [toNat_leading]; omega)

/-- Unpacking takes the fields apart and puts the number together. -/
theorem unpack_eq (b : BitVec Format.binary64.numBits) :
    unpack .binary64 b =
      assemble (Sign.ofBitVec (unpackSign b)) (unpackExponent b) (unpackMantissa b) :=
  rfl

theorem unpack_packComponents (s : Sign) (e : BitVec 11) (m : BitVec 52) :
    unpack .binary64 (packComponents .binary64 s e m) = assemble s e m := by
  rw [unpack_eq, unpackSign_packComponents, ofBitVec_toBitVec, unpackExponent_packComponents,
    unpackMantissa_packComponents]

/-- A number is put together from parts of the format. -/
theorem canonical_assemble (s : Sign) (e : BitVec 11) (m : BitVec 52) :
    Canonical (assemble s e m) := by
  rw [assemble]
  by_cases hinf : e = -1#11
  · rw [if_pos hinf]
    by_cases hm : m = 0#52
    · rw [if_pos hm]
      trivial
    · rw [if_neg hm]
      trivial
  rw [if_neg hinf]
  by_cases hzero : e = 0#11
  · rw [if_pos hzero]
    by_cases hm : m = 0#52
    · rw [dif_pos hm]
      trivial
    · rw [dif_neg hm]
      exact .inl ⟨m.isLt, by rw [hzero]; rfl⟩
  · rw [if_neg hzero]
    have hm := m.isLt
    have hlog : (1#1 ++ m).toNat.log2 = 52 := by
      rw [toNat_leading]
      exact (Nat.log2_eq_iff (by omega)).2 ⟨by omega, by omega⟩
    have hlt : e.toNat < 2048 := e.isLt
    have hne : e.toNat ≠ 2047 := fun h => hinf (BitVec.eq_of_toNat_eq h)
    have hpos : e.toNat ≠ 0 := fun h => hzero (BitVec.eq_of_toNat_eq h)
    exact .inr ⟨hlog, by omega, by omega⟩

/-- A number is unpacked into parts of the format. -/
theorem canonical_unpack (b : BitVec Format.binary64.numBits) : Canonical (unpack .binary64 b) := by
  rw [unpack_eq]
  exact canonical_assemble _ _ _

/-- Finite numbers are equal where their parts are. -/
theorem finite_congr {s : Sign} {m m' : ℕ} {e e' : ℤ} {hm : 0 < m} {hm' : 0 < m'} (h : m = m')
    (h' : e = e') : UnpackedFloat.finite s m e hm = .finite s m' e' hm' := by
  subst h h'
  rfl

/-- How a finite number is packed. -/
theorem pack_finite (s : Sign) (m : ℕ) (e : ℤ) (hm : 0 < m) :
    pack .binary64 (.finite s m e hm) =
      if 2 ^ 11 ≤ (e + 1023 + 52).toNat + 1 then packComponents .binary64 s (-1#_) 0
      else if m.log2 + 1 = 53 then
        packComponents .binary64 s (BitVec.ofNat 11 (e + 1023 + 52).toNat) (BitVec.ofNat 52 m)
      else packComponents .binary64 s 0#11 (BitVec.ofNat 52 m) :=
  rfl

/-- Numbers of the format are packed without loss. -/
theorem unpack_pack {u : UnpackedFloat} (h : Canonical u) :
    unpack .binary64 (pack .binary64 u) = u := by
  cases u with
  | infinity s => exact (unpack_packComponents s _ _).trans rfl
  | notANumber => exact (unpack_packComponents .positive _ _).trans rfl
  | zero s => exact (unpack_packComponents s _ _).trans rfl
  | finite s m e hm =>
    rw [pack_finite]
    rcases h with ⟨hlt, rfl⟩ | ⟨hlog, hlow, hhigh⟩
    · have hlog : m.log2 < 52 := (Nat.log2_lt (by omega)).2 hlt
      have hnat : (BitVec.ofNat 52 m).toNat = m := Nat.mod_eq_of_lt hlt
      have hne : BitVec.ofNat 52 m ≠ 0#52 := by
        intro h0
        rw [h0] at hnat
        exact Nat.ne_of_gt hm hnat.symm
      rw [if_neg (by decide), if_neg (by omega), unpack_packComponents, assemble,
        if_neg (by decide), if_pos rfl, dif_neg hne]
      exact finite_congr hnat rfl
    · obtain ⟨hlow', hhigh'⟩ := (Nat.log2_eq_iff (by omega)).1 hlog
      have he : (BitVec.ofNat 11 (e + 1023 + 52).toNat).toNat = (e + 1075).toNat := by
        rw [BitVec.toNat_ofNat]
        omega
      have hne : ∀ b : BitVec 11, b.toNat = 0 ∨ b.toNat = 2047 →
          BitVec.ofNat 11 (e + 1023 + 52).toNat ≠ b := by
        rintro b hb rfl
        omega
      rw [if_neg (by omega), if_pos (by rw [hlog]), unpack_packComponents, assemble,
        if_neg (hne (-1#11) (.inr rfl)), if_neg (hne 0#11 (.inl rfl))]
      refine finite_congr ?_ ?_
      · rw [toNat_leading, BitVec.toNat_ofNat]
        omega
      · rw [he]
        omega

/-- The opposite of a number has its parts, apart from the sign. -/
theorem unpack_neg (v : Float) : (-v).toModel.unpack = v.toModel.unpack.neg := by
  have hcanonical : Canonical v.toModel.unpack.neg := by
    have h := canonical_unpack v.toModel.toBits.toBitVec
    change Canonical v.toModel.unpack at h
    cases hu : v.toModel.unpack with
    | finite s m e hm =>
      rw [hu] at h
      exact h
    | _ => trivial
  exact unpack_pack hcanonical

/-! ## Zero -/

/-- A number is zero where it is unpacked as one. -/
theorem beq_zero_iff (v : Float) : (v == 0) = true ↔ ∃ s, v.toModel.unpack = .zero s := by
  have hz : (0 : Float).toModel.unpack = .zero .positive := rfl
  change v.toModel.unpack.beq (0 : Float).toModel.unpack = true ↔ _
  rw [hz]
  cases v.toModel.unpack with
  | zero t => exact iff_of_true rfl ⟨t, rfl⟩
  | notANumber => exact iff_of_false nofun nofun
  | infinity t | finite t => cases t <;> exact iff_of_false nofun nofun

/-- The opposite of a number is zero only where the number is. -/
theorem neg_beq_zero (v : Float) : (-v == 0) = (v == 0) := by
  rw [Bool.eq_iff_iff, beq_zero_iff, beq_zero_iff, unpack_neg]
  cases v.toModel.unpack with
  | zero s => exact ⟨fun _ => ⟨s, rfl⟩, fun _ => ⟨-s, rfl⟩⟩
  | _ => exact ⟨nofun, nofun⟩

/-! ## Rounding -/

/-- A mantissa with its residual bits stands for the size `y`: it is the integral part of `y`, and
the bits are clear where it is the whole of `y`. -/
structure Stands (m : ExtendedMantissa) (y : ℚ) : Prop where
  le : m.mantissa ≤ y
  lt : y < m.mantissa + 1
  clear : y = m.mantissa → m.roundBit = false ∧ m.stickyBit = false

/-- Shifting by one bit halves the size. -/
theorem Stands.shiftRightOne {m : ExtendedMantissa} {y : ℚ} (h : Stands m y) :
    Stands m.shiftRightOne (y / 2) := by
  obtain ⟨hle, hlt, hclear⟩ := h
  have hdiv : (m.mantissa : ℚ) = 2 * (m.mantissa / 2 : ℕ) + (m.mantissa % 2 : ℕ) := by
    exact_mod_cast (Nat.div_add_mod m.mantissa 2).symm
  have hmod : ((m.mantissa % 2 : ℕ) : ℚ) ≤ 1 := by
    exact_mod_cast Nat.le_of_lt_succ (Nat.mod_lt m.mantissa two_pos)
  have hmod' : (0 : ℚ) ≤ (m.mantissa % 2 : ℕ) := Nat.cast_nonneg _
  refine ⟨?_, ?_, ?_⟩
  · change ((m.mantissa / 2 : ℕ) : ℚ) ≤ _
    linarith
  · change _ < ((m.mantissa / 2 : ℕ) : ℚ) + 1
    linarith
  · intro hy
    change y / 2 = ((m.mantissa / 2 : ℕ) : ℚ) at hy
    -- Half of `y` is integral only where no bit is lost.
    have hzero : ((m.mantissa % 2 : ℕ) : ℚ) = 0 := by linarith
    have heven : m.mantissa % 2 = 0 := by exact_mod_cast hzero
    obtain ⟨hround, hsticky⟩ := hclear (by linarith)
    simp [ExtendedMantissa.shiftRightOne, heven, hround, hsticky]

/-- Shifting by some bits divides the size by a power of two. -/
theorem Stands.shiftRight {m : ExtendedMantissa} {y : ℚ} (h : Stands m y) (k : ℕ) :
    Stands (m >>> k) (y / 2 ^ k) := by
  induction k with
  | zero =>
    rw [pow_zero, div_one]
    exact h
  | succ k ih =>
    rw [pow_succ, ← div_div]
    exact ih.shiftRightOne

/-- The account of what lies below the mantissa leaves the mantissa alone. -/
theorem mantissa_ofMantissaAndAccuracy (m : ℕ) (a : Accuracy) :
    (ExtendedMantissa.ofMantissaAndAccuracy m a).mantissa = m := by
  cases a with
  | exact => rfl
  | inexact o => cases o <;> rfl

/-- A mantissa whose leading bit has the place `52 + k`. -/
theorem bounds_of_log2_eq {m k : ℕ} (h : m.log2 = 52 + k) :
    2 ^ (52 + k) ≤ m ∧ m + 1 ≤ 2 ^ (53 + k) := by
  have hne : m ≠ 0 := by
    rintro rfl
    rw [Nat.log2_zero] at h
    omega
  obtain ⟨hlow, hhigh⟩ := (Nat.log2_eq_iff hne).1 h
  rw [show 52 + k + 1 = 53 + k by omega] at hhigh
  exact ⟨hlow, hhigh⟩

/-- The leading bit of the mantissa gives the power of two below the size and the one above. -/
theorem Stands.leading {m k : ℕ} {a : Accuracy} {y : ℚ} (hlog : m.log2 = 52 + k)
    (h : Stands (.ofMantissaAndAccuracy m a) y) :
    (2 : ℚ) ^ (52 + k) ≤ y ∧ y < (2 : ℚ) ^ (53 + k) := by
  obtain ⟨hlow, hhigh⟩ := bounds_of_log2_eq hlog
  have hle := h.le
  have hlt := h.lt
  rw [mantissa_ofMantissaAndAccuracy] at hle hlt
  refine ⟨le_trans ?_ hle, hlt.trans_le ?_⟩
  · exact_mod_cast hlow
  · exact_mod_cast hhigh

/-- Rounding adds one at most. -/
theorem roundedMantissa_bounds (m : ExtendedMantissa) :
    m.mantissa ≤ m.roundedMantissa ∧ m.roundedMantissa ≤ m.mantissa + 1 := by
  obtain ⟨n, r, s⟩ := m
  cases r <;> cases s <;>
    simp only [ExtendedMantissa.roundedMantissa, ExtendedMantissa.accuracy,
      Accuracy.roundToNearestEven] <;> omega

/-- Rounding does not go up past an integer. -/
theorem Stands.roundedMantissa_le {m : ExtendedMantissa} {y : ℚ} (h : Stands m y) {z : ℕ}
    (hz : y ≤ z) : m.roundedMantissa ≤ z := by
  rcases eq_or_lt_of_le h.le with hy | hy
  · obtain ⟨hround, hsticky⟩ := h.clear hy.symm
    have hm : m.roundedMantissa = m.mantissa := by
      obtain ⟨n, r, s⟩ := m
      obtain rfl : r = false := hround
      obtain rfl : s = false := hsticky
      rfl
    rw [← hy] at hz
    rw [hm]
    exact_mod_cast hz
  · have hlt : m.mantissa < z := by exact_mod_cast hy.trans_le hz
    exact (roundedMantissa_bounds m).2.trans hlt

/-- Rounding does not go down past an integer. -/
theorem Stands.le_roundedMantissa {m : ExtendedMantissa} {y : ℚ} (h : Stands m y) {z : ℕ}
    (hz : z ≤ y) : z ≤ m.roundedMantissa := by
  have hlt : z < m.mantissa + 1 := by exact_mod_cast hz.trans_lt h.lt
  exact (Nat.le_of_lt_succ hlt).trans (roundedMantissa_bounds m).1

/-- The exponent to which a mantissa with its leading bit is shifted, in the normal range. -/
theorem shiftToTargetExponent_eq {m : ℕ} {e : ℤ} {a : Accuracy} {k : ℕ} (hlog : m.log2 = 52 + k)
    (hmin : -1074 ≤ e + k) :
    shiftToTargetExponent .binary64 m e a =
      (ExtendedMantissa.ofMantissaAndAccuracy m a >>> k, e + k) := by
  have hbits : (Format.binary64.mantissaBits : ℤ) = 53 := rfl
  have hleast : Format.binary64.minExponent = -1074 := rfl
  have hk : (max (52 + k + 1 + e - 53) (-1074) - e).toNat = k := by omega
  simp only [shiftToTargetExponent, shiftToExponent, Format.targetExponent, totalExponent, hlog,
    hbits, hleast]
  push_cast
  rw [hk]

/-- Rounding does not go past a power of two. The size is `y` units of `2 ^ e`, one unit at
least. -/
theorem Stands.zpow_bounds {m : ExtendedMantissa} {y : ℚ} (h : Stands m y) (hone : 1 ≤ y)
    (e n : ℤ) : ((2 : ℚ) ^ n ≤ y * 2 ^ e → (2 : ℚ) ^ n ≤ m.roundedMantissa * 2 ^ e) ∧
      (y * 2 ^ e ≤ 2 ^ n → (m.roundedMantissa : ℚ) * 2 ^ e ≤ 2 ^ n) := by
  have hpos : (0 : ℚ) < 2 ^ e := zpow_pos two_pos e
  rcases le_or_gt e n with hle | hlt
  · -- The power is a whole number of units.
    obtain ⟨k, rfl⟩ := Int.le.dest hle
    have hpow : (2 : ℚ) ^ (e + k) = ((2 ^ k : ℕ) : ℚ) * 2 ^ e := by
      rw [zpow_add₀ two_ne_zero, zpow_natCast, mul_comm]
      push_cast
      rfl
    rw [hpow, mul_le_mul_iff_left₀ hpos, mul_le_mul_iff_left₀ hpos, mul_le_mul_iff_left₀ hpos,
      mul_le_mul_iff_left₀ hpos]
    exact ⟨fun hz => by exact_mod_cast h.le_roundedMantissa hz,
      fun hz => by exact_mod_cast h.roundedMantissa_le hz⟩
  · -- The power is less than one unit.
    have hpow : (2 : ℚ) ^ n < 2 ^ e := zpow_lt_zpow_right₀ one_lt_two hlt
    have hround : (1 : ℚ) ≤ m.roundedMantissa := by
      exact_mod_cast h.le_roundedMantissa (z := 1) (by exact_mod_cast hone)
    constructor
    · intro _
      exact hpow.le.trans (le_mul_of_one_le_left hpos.le hround)
    · intro hz
      exact absurd ((le_mul_of_one_le_left hpos.le hone).trans hz) (not_le.2 hpow)

/-- A mantissa that rounding has left with its leading bit in place, or with all bits carried
over, is the mantissa of a number, shifted once more in the second case. -/
theorem exists_canonical {r : ℕ} {e : ℤ} (hlow : 2 ^ 52 ≤ r) (hhigh : r ≤ 2 ^ 53)
    (hmin : -1074 ≤ e) (hmax : e ≤ 970) :
    ∃ m' e', (shiftToTargetExponent .binary64 r e .exact).1.mantissa = m' ∧
      (shiftToTargetExponent .binary64 r e .exact).2 = e' ∧
      m'.log2 = 52 ∧ -1074 ≤ e' ∧ e' ≤ 971 ∧ (m' : ℚ) * 2 ^ e' = r * 2 ^ e := by
  rcases Nat.lt_or_eq_of_le hhigh with hlt | rfl
  · have hlog : r.log2 = 52 + 0 := (Nat.log2_eq_iff (by omega)).2 ⟨hlow, hlt⟩
    rw [shiftToTargetExponent_eq hlog (by omega)]
    refine ⟨r, e, rfl, ?_, hlog, hmin, by omega, rfl⟩
    simp
  · have hlog : (2 ^ 53 : ℕ).log2 = 52 + 1 := Nat.log2_two_pow
    rw [shiftToTargetExponent_eq hlog (by omega)]
    refine ⟨2 ^ 52, e + 1, rfl, rfl, Nat.log2_two_pow, by omega, by omega, ?_⟩
    rw [zpow_add_one₀ two_ne_zero]
    push_cast
    ring

/-- Rounding in the normal range. The size `X` has its leading bit among those of the mantissa; it
is rounded to a number that lies on the same side of every power of two, or on it. -/
theorem exists_round {s : Sign} {m k : ℕ} {e : ℤ} {a : Accuracy} {X : ℚ}
    (hlog : m.log2 = 52 + k) (hmin : -1074 ≤ e + k) (hmax : e + k ≤ 970)
    (h : Stands (.ofMantissaAndAccuracy m a) (X / 2 ^ e)) :
    ∃ m' e' hm, roundWithAccuracy .binary64 s m e a = .finite s m' e' hm ∧
      Canonical (.finite s m' e' hm) ∧ ∀ n : ℤ, ((2 : ℚ) ^ n ≤ X → (2 : ℚ) ^ n ≤ m' * 2 ^ e') ∧
        (X ≤ 2 ^ n → (m' : ℚ) * 2 ^ e' ≤ 2 ^ n) := by
  obtain ⟨hlow, hhigh⟩ := h.leading hlog
  have hk : (0 : ℚ) < 2 ^ k := by positivity
  -- The first shift leaves 53 bits before the point, so that rounding gives the mantissa of a
  -- number, or the next power of two, which the second shift takes care of.
  have hshift := h.shiftRight k
  generalize hy : X / 2 ^ e / 2 ^ k = y at hshift
  have hylow : ((2 ^ 52 : ℕ) : ℚ) ≤ y := by
    rw [← hy, le_div_iff₀ hk, Nat.cast_pow, Nat.cast_ofNat, ← pow_add]
    exact hlow
  have hyhigh : y ≤ ((2 ^ 53 : ℕ) : ℚ) := by
    rw [← hy, div_le_iff₀ hk, Nat.cast_pow, Nat.cast_ofNat, ← pow_add]
    exact hhigh.le
  obtain ⟨m', e', hm', he', hlog', hmin', hmax', hvalue⟩ := exists_canonical
    (hshift.le_roundedMantissa hylow) (hshift.roundedMantissa_le hyhigh) hmin hmax
  have hne : m' ≠ 0 := by
    rintro rfl
    simp at hlog'
  refine ⟨m', e', Nat.pos_of_ne_zero hne, ?_, .inr ⟨hlog', hmin', hmax'⟩, fun n => ?_⟩
  · rw [roundWithAccuracy, shiftToTargetExponent_eq hlog hmin]
    dsimp only
    rw [dif_neg (by rw [hm']; exact hne)]
    exact finite_congr hm' he'
  · have hX : X = y * 2 ^ (e + k) := by
      rw [← hy, zpow_add₀ two_ne_zero, zpow_natCast]
      field_simp
    rw [hvalue, hX]
    exact hshift.zpow_bounds (le_trans (by norm_num) hylow) (e + k) n

/-! ## Products and quotients in the normal range -/

/-- The number is finite, and its size lies between `2 ^ -n` and `2 ^ n`. -/
def Within (n : ℕ) (v : Float) : Prop :=
  ∃ s m e hm, v.toModel.unpack = .finite s m e hm ∧
    (2 : ℚ) ^ (-n : ℤ) ≤ m * 2 ^ e ∧ (m : ℚ) * 2 ^ e ≤ 2 ^ (n : ℤ)

/-- A number that is not too small has its leading bit. -/
theorem log2_eq_of_unpack {n : ℕ} {v : Float} {s : Sign} {m : ℕ} {e : ℤ} {hm : 0 < m}
    (hn : n ≤ 1022) (hv : v.toModel.unpack = .finite s m e hm)
    (hlow : (2 : ℚ) ^ (-n : ℤ) ≤ m * 2 ^ e) : m.log2 = 52 := by
  have hcanonical := canonical_unpack v.toModel.toBits.toBitVec
  change Canonical v.toModel.unpack at hcanonical
  rw [hv] at hcanonical
  rcases hcanonical with ⟨hlt, rfl⟩ | ⟨hlog, -⟩
  · exfalso
    have hsmall : (m : ℚ) * 2 ^ (-1074 : ℤ) < 2 ^ (52 : ℤ) * 2 ^ (-1074 : ℤ) := by
      refine mul_lt_mul_of_pos_right ?_ (zpow_pos two_pos _)
      exact_mod_cast hlt
    rw [← zpow_add₀ two_ne_zero] at hsmall
    have := (zpow_lt_zpow_iff_right₀ one_lt_two).1 (hlow.trans_lt hsmall)
    omega
  · exact hlog

/-- A size in the normal range is rounded to a number in the same range. -/
theorem exists_within {s : Sign} {m n : ℕ} {e : ℤ} {a : Accuracy} {X : ℚ} (hn : n ≤ 1022)
    (hlog : 52 ≤ m.log2) (h : Stands (.ofMantissaAndAccuracy m a) (X / 2 ^ e))
    (hlow : (2 : ℚ) ^ (-n : ℤ) ≤ X) (hhigh : X ≤ 2 ^ (n : ℤ)) :
    ∃ s' m' e' hm, unpack .binary64 (pack .binary64 (roundWithAccuracy .binary64 s m e a)) =
        .finite s' m' e' hm ∧
      (2 : ℚ) ^ (-n : ℤ) ≤ m' * 2 ^ e' ∧ (m' : ℚ) * 2 ^ e' ≤ 2 ^ (n : ℤ) := by
  obtain ⟨k, hk⟩ := Nat.exists_eq_add_of_le hlog
  obtain ⟨hleading, hleading'⟩ := h.leading hk
  have hpos : (0 : ℚ) < 2 ^ e := zpow_pos two_pos e
  have hbelow : (2 : ℚ) ^ ((52 + k : ℕ) + e : ℤ) ≤ X := by
    rwa [zpow_add₀ two_ne_zero, zpow_natCast, ← le_div_iff₀ hpos]
  have habove : X < (2 : ℚ) ^ ((53 + k : ℕ) + e : ℤ) := by
    rwa [zpow_add₀ two_ne_zero, zpow_natCast, ← div_lt_iff₀ hpos]
  -- Both powers are in the range, so the exponent of the result is one of normal numbers.
  have hmin := (zpow_lt_zpow_iff_right₀ one_lt_two).1 (hlow.trans_lt habove)
  have hmax := (zpow_le_zpow_iff_right₀ one_lt_two).1 (hbelow.trans hhigh)
  obtain ⟨m', e', hm, hround, hcanonical, hpowers⟩ :=
    exists_round (s := s) hk (by omega) (by omega) h
  refine ⟨s, m', e', hm, ?_, (hpowers _).1 hlow, (hpowers _).2 hhigh⟩
  rw [hround, unpack_pack hcanonical]

/-- The product of two numbers is no further from one than the two together. -/
theorem Within.mul {i j : ℕ} {v w : Float} (hv : Within i v) (hw : Within j w)
    (h : i + j ≤ 1022) : Within (i + j) (v * w) := by
  obtain ⟨s, m, e, hm, hu, hlow, hhigh⟩ := hv
  obtain ⟨s', m', e', hm', hu', hlow', hhigh'⟩ := hw
  obtain ⟨hbit, -⟩ := bounds_of_log2_eq (k := 0) (log2_eq_of_unpack (by omega) hu hlow)
  have hvalue : ((m * m' : ℕ) : ℚ) * 2 ^ (e + e') = m * 2 ^ e * (m' * 2 ^ e') := by
    rw [zpow_add₀ two_ne_zero]
    push_cast
    ring
  have hstands : Stands (.ofMantissaAndAccuracy (m * m') .exact)
      (m * 2 ^ e * (m' * 2 ^ e') / 2 ^ (e + e')) := by
    rw [← hvalue, mul_div_cancel_right₀ _ (zpow_ne_zero _ two_ne_zero)]
    exact ⟨le_rfl, lt_add_one _, fun _ => ⟨rfl, rfl⟩⟩
  have hbits : 52 ≤ (m * m').log2 := by
    rw [Nat.le_log2 (by positivity)]
    exact hbit.trans (Nat.le_mul_of_pos_right m hm')
  have hmodel : (v * w).toModel.unpack = unpack .binary64 (pack .binary64
      (roundWithAccuracy .binary64 (s * s') (m * m') (e + e') .exact)) := by
    change unpack .binary64 (pack .binary64 (UnpackedFloat.mul _ v.toModel.unpack
      w.toModel.unpack)) = _
    rw [hu, hu']
    rfl
  have hrange : ((i + j : ℕ) : ℤ) = i + j := Nat.cast_add i j
  rw [Within, hmodel]
  refine exists_within h hbits hstands ?_ ?_
  · rw [hrange, neg_add, zpow_add₀ two_ne_zero]
    exact mul_le_mul hlow hlow' (by positivity) (by positivity)
  · rw [hrange, zpow_add₀ two_ne_zero]
    exact mul_le_mul hhigh hhigh' (by positivity) (by positivity)

/-- The whole quotient of two mantissas and the account of the remainder stand for their
quotient. -/
theorem stands_quotient {m d : ℕ} (hd : 0 < d) :
    Stands (.ofMantissaAndAccuracy (m / d) (accuracyOfFraction (m % d) d)) ((m : ℚ) / d) := by
  have hd' : (0 : ℚ) < d := by exact_mod_cast hd
  have hdiv : (m : ℚ) = d * (m / d : ℕ) + (m % d : ℕ) := by
    exact_mod_cast (Nat.div_add_mod m d).symm
  have hmod : ((m % d : ℕ) : ℚ) < d := by exact_mod_cast Nat.mod_lt m hd
  have hmod' : (0 : ℚ) ≤ (m % d : ℕ) := Nat.cast_nonneg _
  refine ⟨?_, ?_, ?_⟩
  · rw [mantissa_ofMantissaAndAccuracy, le_div_iff₀ hd']
    linarith
  · rw [mantissa_ofMantissaAndAccuracy, div_lt_iff₀ hd']
    linarith
  · intro h
    rw [mantissa_ofMantissaAndAccuracy, div_eq_iff hd'.ne'] at h
    have hzero : ((m % d : ℕ) : ℚ) = 0 := by linarith
    have hzero' : m % d = 0 := by exact_mod_cast hzero
    rw [hzero', accuracyOfFraction, if_pos rfl]
    exact ⟨rfl, rfl⟩

/-- The quotient of two mantissas is taken with so many bits that the leading one is among them,
where the quotient of the numbers is in the normal range. -/
theorem exists_divCore {m m' : ℕ} {e e' : ℤ} (hlog : m.log2 = 52) (hlog' : m'.log2 = 52)
    (hX : (2 : ℚ) ^ (-1022 : ℤ) ≤ m * 2 ^ e / (m' * 2 ^ e')) :
    ∃ (t : ℤ) (k : ℕ), e - e' = t + k ∧ divCore .binary64 m e m' e' =
      (m <<< k / m', t, accuracyOfFraction (m <<< k % m') m') ∧ 2 ^ 52 * m' ≤ m * 2 ^ k := by
  obtain ⟨hbit, htop⟩ := bounds_of_log2_eq (k := 0) hlog
  obtain ⟨hbit', htop'⟩ := bounds_of_log2_eq (k := 0) hlog'
  have hpos : (0 : ℚ) < m' := by exact_mod_cast (show 0 < m' by omega)
  have hX' : (2 : ℚ) ^ (-1022 : ℤ) * m' ≤ m * 2 ^ (e - e') := by
    rw [le_div_iff₀ (by positivity)] at hX
    rw [zpow_sub₀ two_ne_zero, ← mul_div_assoc, le_div_iff₀ (by positivity), mul_assoc]
    exact hX
  -- The mantissas differ by less than the factor two.
  have hmin : -1022 ≤ e - e' := by
    have hlt : (m : ℚ) * 2 ^ (e - e') < m' * 2 ^ (e - e' + 1) := by
      rw [zpow_add_one₀ two_ne_zero, mul_comm (2 ^ (e - e') : ℚ), ← mul_assoc]
      refine mul_lt_mul_of_pos_right ?_ (by positivity)
      exact_mod_cast (show m < m' * 2 by omega)
    rw [mul_comm] at hX'
    have := (zpow_lt_zpow_iff_right₀ one_lt_two).1
      (lt_of_mul_lt_mul_left (hX'.trans_lt hlt) hpos.le)
    omega
  have hbits : (Format.binary64.mantissaBits : ℤ) = 53 := rfl
  have hleast : Format.binary64.minExponent = -1074 := rfl
  have htarget : min (e - e') (Format.binary64.targetExponent
      (totalExponent m e - totalExponent m' e')) = max (e - e' - 53) (-1074) := by
    simp only [Format.targetExponent, totalExponent, hlog, hlog', hbits, hleast]
    omega
  refine ⟨max (e - e' - 53) (-1074), (e - e' - max (e - e' - 53) (-1074)).toNat, by omega, ?_, ?_⟩
  · simp only [divCore, htarget]
  · rcases eq_or_lt_of_le hmin with heq | hlt
    · rw [← heq] at hX' ⊢
      have hle : m' ≤ m := by
        rw [mul_comm, mul_le_mul_iff_left₀ (by positivity)] at hX'
        exact_mod_cast hX'
      rw [mul_comm]
      exact Nat.mul_le_mul_right _ hle
    · rw [show (e - e' - max (e - e' - 53) (-1074)).toNat = 53 by omega]
      omega

/-- How finite numbers are divided. -/
theorem div_finite (s s' : Sign) (m m' : ℕ) (e e' : ℤ) (hm : 0 < m) (hm' : 0 < m') :
    UnpackedFloat.div .binary64 (.finite s m e hm) (.finite s' m' e' hm') =
      roundWithAccuracy .binary64 (s / s') (divCore .binary64 m e m' e').1
        (divCore .binary64 m e m' e').2.1 (divCore .binary64 m e m' e').2.2 :=
  rfl

/-- The quotient of two numbers is no further from one than the two together. -/
theorem Within.div {i j : ℕ} {v w : Float} (hv : Within i v) (hw : Within j w)
    (h : i + j ≤ 1022) : Within (i + j) (v / w) := by
  obtain ⟨s, m, e, hm, hu, hlow, hhigh⟩ := hv
  obtain ⟨s', m', e', hm', hu', hlow', hhigh'⟩ := hw
  have hlog := log2_eq_of_unpack (by omega) hu hlow
  have hlog' := log2_eq_of_unpack (by omega) hu' hlow'
  have hm₀ : (0 : ℚ) < m' := by exact_mod_cast hm'
  have hrange : ((i + j : ℕ) : ℤ) = i + j := Nat.cast_add i j
  have hXlow : (2 : ℚ) ^ (-(i + j : ℕ) : ℤ) ≤ m * 2 ^ e / (m' * 2 ^ e') := by
    rw [le_div_iff₀ (by positivity)]
    refine (mul_le_mul_of_nonneg_left hhigh' (by positivity)).trans ?_
    rw [← zpow_add₀ two_ne_zero, hrange, show -((i : ℤ) + j) + j = -i by ring]
    exact hlow
  have hXhigh : (m : ℚ) * 2 ^ e / (m' * 2 ^ e') ≤ 2 ^ ((i + j : ℕ) : ℤ) := by
    rw [div_le_iff₀ (by positivity)]
    refine hhigh.trans (le_trans ?_ (mul_le_mul_of_nonneg_left hlow' (by positivity)))
    rw [← zpow_add₀ two_ne_zero, hrange, show (i : ℤ) + j + -j = i by ring]
  obtain ⟨t, k, ht, hdiv, hbits⟩ := exists_divCore hlog hlog'
    ((zpow_le_zpow_right₀ one_le_two (by omega)).trans hXlow)
  have hstands : Stands
      (.ofMantissaAndAccuracy (m <<< k / m') (accuracyOfFraction (m <<< k % m') m'))
      (m * 2 ^ e / (m' * 2 ^ e') / 2 ^ t) := by
    have hvalue : (m : ℚ) * 2 ^ e / (m' * 2 ^ e') / 2 ^ t = ((m <<< k : ℕ) : ℚ) / m' := by
      have he : (2 : ℚ) ^ e = 2 ^ e' * 2 ^ t * 2 ^ k := by
        rw [← zpow_natCast, ← zpow_add₀ two_ne_zero, ← zpow_add₀ two_ne_zero]
        congr 1
        omega
      rw [he, Nat.shiftLeft_eq]
      push_cast
      field_simp
    rw [hvalue]
    exact stands_quotient hm'
  have hmodel : (v / w).toModel.unpack = unpack .binary64 (pack .binary64
      (roundWithAccuracy .binary64 (s / s') (m <<< k / m') t
        (accuracyOfFraction (m <<< k % m') m'))) := by
    change unpack .binary64 (pack .binary64 (UnpackedFloat.div _ v.toModel.unpack
      w.toModel.unpack)) = _
    rw [hu, hu', div_finite, hdiv]
  rw [Within, hmodel]
  refine exists_within h ?_ hstands hXlow hXhigh
  rw [Nat.shiftLeft_eq, Nat.le_log2 (Nat.ne_of_gt (Nat.div_pos ?_ hm')), Nat.le_div_iff_mul_le hm']
  · exact hbits
  · exact le_trans (Nat.le_mul_of_pos_left m' (by positivity)) hbits

/-- The opposite of a number has its size. -/
theorem Within.neg {n : ℕ} {v : Float} (h : Within n v) : Within n (-v) := by
  obtain ⟨s, m, e, hm, hu, hrange⟩ := h
  refine ⟨-s, m, e, hm, ?_, hrange⟩
  rw [unpack_neg, hu]
  rfl

/-- A wider range holds the numbers of a narrower one. -/
theorem Within.mono {m n : ℕ} {v : Float} (hmn : m ≤ n) (h : Within m v) : Within n v := by
  obtain ⟨s, k, e, hk, hu, hlow, hhigh⟩ := h
  refine ⟨s, k, e, hk, hu, le_trans ?_ hlow, hhigh.trans ?_⟩
  · exact zpow_le_zpow_right₀ one_le_two (by omega)
  · exact zpow_le_zpow_right₀ one_le_two (by omega)

/-- A number of some size is not zero. -/
theorem Within.beq_zero {n : ℕ} {v : Float} (h : Within n v) : (v == 0) = false := by
  obtain ⟨s, m, e, hm, hu, -⟩ := h
  rw [← Bool.not_eq_true, beq_zero_iff, hu]
  exact nofun

/-- One has the size one. -/
theorem within_one : Within 0 1 := by
  refine ⟨.positive, 2 ^ 52, -52, by decide, by rfl, ?_⟩
  norm_num

end SymbolicAlgebra.Binary64
