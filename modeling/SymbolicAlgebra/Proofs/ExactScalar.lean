import Mathlib.Algebra.Order.Field.Basic
import Mathlib.Algebra.Order.Ring.Rat
import Mathlib.Algebra.Field.Rat
import SymbolicAlgebra.Expr.Same

set_option autoImplicit false

/-!
# Exact scalars

The elements of a field may stand for literals (`ExactScalar F`). Their arithmetic does not round,
and every element is a number, equal to itself only. This is the arithmetic in which it makes sense
to ask whether a rewriting keeps the value of a formula. Every ordered field is one, with its order
for the comparison of literals (`ExactScalar.ofOrderedField`).
-/

namespace SymbolicAlgebra

/-- A field whose elements are literals: the arithmetic of literals is the one of the field,
numerals are the natural numbers of the field, and comparison decides equality. The order
and the elementary functions are left open. -/
class ExactScalar (F : Type) extends Field F, Scalar F where
  /-- Comparison decides equality. -/
  eqv_iff : ∀ a b : F, eqv a b = true ↔ a = b
  /-- Every element is a number. -/
  isNaN_eq_false : ∀ a : F, isNaN a = false
  /-- Numerals are the natural numbers of the field. -/
  ofNat_eq_cast : ∀ n : Nat, ofNat n = (n : F)

namespace ExactScalar

/-- The elements of an ordered field as literals. What a field does not have, such as the
elementary functions, is filled in with zero or the identity. -/
@[reducible] def ofOrderedField (F : Type) [Field F] [LinearOrder F] [IsStrictOrderedRing F] :
    ExactScalar F where
  eqv a b := decide (a = b)
  lt a b := decide (a < b)
  le a b := decide (a ≤ b)
  ofNat n := n
  ofDecimal m n := m * ((10 : ℕ) : F) ^ n
  nan := 0
  infinity := 0
  isNaN _ := false
  isFinite _ := true
  signBit a := decide (a < 0)
  integerPart? _ := none
  floor a := a
  round a := a
  sqrt a := a
  exp a := a
  ln a := a
  sin a := a
  cos a := a
  pow a _ := a
  atan2 a _ := a
  hypot a _ := a
  text _ := ""
  neg_of_isNeg v h := by
    simp only [Nat.cast_zero, decide_eq_true_eq, decide_eq_false_iff_not, not_lt] at h ⊢
    exact neg_nonneg.2 h.le
  eqv_iff a b := decide_eq_true_iff
  isNaN_eq_false _ := rfl
  ofNat_eq_cast _ := rfl

/-- The rational numbers as literals. -/
instance instRat : ExactScalar ℚ := ofOrderedField ℚ

variable {F : Type} [ExactScalar F]

/-- Literals are equal exactly where the elements are. -/
theorem eqv_eq_true_iff (a b : F) : Scalar.eqv a b = true ↔ a = b := eqv_iff a b

instance instDecidableEq : DecidableEq F := fun a b => decidable_of_iff _ (eqv_iff a b)

/-! ## Tests on literals -/

/-- A numeral of the literals is the numeral of the field. -/
theorem numeral_eq_cast (n : Nat) : @OfNat.ofNat F n (Scalar.instNumeral n) = (n : F) :=
  ofNat_eq_cast n

/-- The literal zero is the zero of the field. -/
@[simp] theorem numeral_zero : @OfNat.ofNat F 0 (Scalar.instNumeral 0) = (0 : F) := by
  rw [numeral_eq_cast, Nat.cast_zero]

/-- The literal one is the one of the field. -/
@[simp] theorem numeral_one : @OfNat.ofNat F 1 (Scalar.instNumeral 1) = (1 : F) := by
  rw [numeral_eq_cast, Nat.cast_one]

/-- A scalar is tested to be zero exactly where it is. -/
theorem isZero_iff (a : F) : Scalar.isZero a = true ↔ a = 0 := by
  rw [Scalar.isZero, eqv_eq_true_iff, numeral_zero]

/-- Structural equality of literals is equality. -/
theorem same_iff (a b : F) : Scalar.same a b = true ↔ a = b := by
  have hnan : Scalar.isNaN a = false := isNaN_eq_false a
  rw [Scalar.same, hnan, Bool.false_and, Bool.or_false, eqv_eq_true_iff]

/-- An expression is tested to be a literal exactly where it is that literal. -/
theorem isNumber_iff {e : Expr F} {a : F} : e.isNumber a = true ↔ e = .number a := by
  cases e with
  | number b => rw [Expr.isNumber, eqv_eq_true_iff, Expr.number.injEq]
  | _ => simp [Expr.isNumber]

end ExactScalar

end SymbolicAlgebra
