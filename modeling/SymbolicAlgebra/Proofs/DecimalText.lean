import Mathlib.Algebra.Ring.Int.Defs
import SymbolicAlgebra.Proofs.LiteralRun

set_option autoImplicit false

/-!
# Scalars with decimal texts

The text of a scalar and the value of a numeral are left open by the operations on
literals. What a printed formula must satisfy to be read back is that both fit together
(`DecimalText R`): the text of a number without a sign is a plain decimal numeral, with the value
of the number, and a sign stands in front (`WrittenAs`). The integers are such scalars.
-/

namespace SymbolicAlgebra

/-- The scalars of finite size are written as decimal numerals that are read as equal
scalars, with the sign in front. -/
class DecimalText (R : Type) [Scalar R] : Prop where
  /-- What is of finite size is a number. -/
  isNaN_eq_false : ∀ v : R, Scalar.isFinite v = true → Scalar.isNaN v = false
  /-- The text of a scalar without a sign is a plain numeral with an equal value. -/
  text_plain : ∀ v : R, Scalar.isFinite v = true → Scalar.signBit v = false →
    ∃ whole fraction, Numeral.IsPlain whole fraction ∧
      (Scalar.text v).toList = Numeral.plain whole fraction ∧
      Scalar.eqv (Numeral.value whole fraction) v = true
  /-- The text of a scalar with a sign is a minus sign and the text of its opposite. -/
  text_minus : ∀ v : R, Scalar.isFinite v = true → Scalar.signBit v = true →
    (Scalar.text v).toList = '-' :: (Scalar.text (-v)).toList
  /-- The opposite has finite size. -/
  isFinite_neg : ∀ v : R, Scalar.isFinite v = true → Scalar.isFinite (-v) = true
  /-- The opposite of a scalar with a sign has none. -/
  signBit_neg : ∀ v : R, Scalar.isFinite v = true → Scalar.signBit v = true →
    Scalar.signBit (-v) = false
  /-- What equals the opposite of a scalar has an opposite that equals the scalar. -/
  eqv_neg : ∀ v w : R, Scalar.isFinite v = true → Scalar.eqv w (-v) = true →
    Scalar.eqv (-w) v = true

/-- The characters of a sign in front of a numeral: a minus sign or nothing. -/
def signText (minus : Bool) : List Char := if minus then ['-'] else []

/-- The number `v` is written as the text `s` of the scalar `a`, with the sign in front. -/
structure WrittenAs {R : Type} [Scalar R] (v : R) (s : List Char) (a : R) : Prop where
  /-- It is a number. -/
  isNaN_eq_false : Scalar.isNaN v = false
  /-- The sign stands before the text. -/
  text : (Scalar.text v).toList = signText (Scalar.signBit v) ++ s
  /-- The text alone is the text of the size. -/
  text_abs : (Scalar.text (Scalar.abs v)).toList = s
  /-- The scalar of the text equals the number, with the sign. -/
  same : Scalar.same (withSign (Scalar.signBit v) a) v = true
  /-- Without the sign it equals the size. -/
  same_abs : Scalar.same a (Scalar.abs v) = true

theorem DecimalText.exists_plain {R : Type} [Scalar R] [DecimalText R] {v : R}
    (hv : Scalar.isFinite v = true) :
    ∃ whole fraction, Numeral.IsPlain whole fraction ∧
      WrittenAs v (Numeral.plain whole fraction) (Numeral.value whole fraction) := by
  have hnan := DecimalText.isNaN_eq_false v hv
  cases hs : Scalar.signBit v with
  | false =>
    obtain ⟨whole, fraction, hp, ht, he⟩ := DecimalText.text_plain v hv hs
    have habs : Scalar.abs v = v := if_neg (by simp [hs])
    refine ⟨whole, fraction, hp, hnan, ?_, ?_, ?_, ?_⟩
    · rw [ht, hs]
      rfl
    · rw [habs, ht]
    · simp [Scalar.same, withSign, hs, he]
    · simp [Scalar.same, habs, he]
  | true =>
    obtain ⟨whole, fraction, hp, ht, he⟩ := DecimalText.text_plain (-v)
      (DecimalText.isFinite_neg v hv) (DecimalText.signBit_neg v hv hs)
    have habs : Scalar.abs v = -v := if_pos hs
    refine ⟨whole, fraction, hp, hnan, ?_, ?_, ?_, ?_⟩
    · rw [DecimalText.text_minus v hv hs, ht, hs]
      rfl
    · rw [habs, ht]
    · simp [Scalar.same, withSign, hs, DecimalText.eqv_neg v _ hv he]
    · simp [Scalar.same, habs, he]

/-! ## The integers -/

open Text (isDigit)

namespace Numeral

theorem digitValue?_ten {c : Char} (h : isDigit c = true) :
    digitValue? 10 c = some (c.toNat - '0'.toNat) := by
  have hc : c.isDigit = true := h
  have hlt : c.toNat - '0'.toNat < 10 := by
    simp only [Char.isDigit, Bool.and_eq_true, decide_eq_true_eq, UInt32.le_iff_toNat_le] at hc
    have hle : c.toNat ≤ 57 := hc.2
    have hzero : '0'.toNat = 48 := rfl
    omega
  simp only [digitValue?, hc, ↓reduceIte, Option.filter_some, hlt, decide_true]

/-- The value of decimal digits is the number that they are the digits of. -/
theorem ofDigitsFrom?_ten {w : List Char} (h : ∀ c ∈ w, isDigit c = true) (acc : Nat) :
    ofDigitsFrom? 10 acc w = some (Nat.ofDigitChars 10 w acc) := by
  induction w generalizing acc with
  | nil => rfl
  | cons c cs ih =>
    obtain ⟨hc, hcs⟩ := List.forall_mem_cons.1 h
    rw [ofDigitsFrom?, digitValue?_ten hc, Nat.ofDigitChars_cons]
    exact ih hcs _

/-- The decimal digits of a natural number are digits. -/
theorem isDigit_of_mem_toDigits {n : Nat} : ∀ c ∈ Nat.toDigits 10 n, isDigit c = true :=
  fun _ hc => Nat.isDigit_of_mem_toDigits (by decide) (by decide) hc

/-- The decimal digits of a natural number start with a zero only where it is zero. -/
theorem head?_toDigits {n : Nat} (h : (Nat.toDigits 10 n).head? = some '0') : n = 0 := by
  induction n using Nat.strongRecOn with
  | ind n ih =>
    rw [Nat.toDigits_eq_if (by decide)] at h
    split at h
    · rename_i hlt
      have hall : ∀ m < 10, m.digitChar = '0' → m = 0 := by decide
      exact hall n hlt (Option.some.inj h)
    · rename_i hle
      rw [List.head?_append, List.head?_eq_some_head Nat.toDigits_ne_nil] at h
      rw [Option.some_or, ← List.head?_eq_some_head] at h
      have hzero := ih (n / 10) (by omega) h
      omega

theorem isPlain_toDigits (n : Nat) : IsPlain (Nat.toDigits 10 n) [] where
  whole_ne := Nat.toDigits_ne_nil
  whole_digits := isDigit_of_mem_toDigits
  fraction_digits := nofun
  leading h := by rw [head?_toDigits h, Nat.toDigits_zero]

/-- The digits of a natural number are read as the scalar nearest to it. -/
theorem value_toDigits {R : Type} [Scalar R] (n : Nat) :
    value (R := R) (Nat.toDigits 10 n) [] = Scalar.ofDecimal n 0 := by
  have hdigits : decimalValue (Nat.toDigits 10 n) = n := by
    rw [decimalValue, ofDigitsFrom?_ten isDigit_of_mem_toDigits, Nat.ofDigitChars_ten_toDigits]
    rfl
  rw [value, decimalScalar, List.append_nil, hdigits]
  rfl

end Numeral

/-- An integer as a literal. -/
structure Whole where
  /-- The integer. -/
  value : Int
deriving DecidableEq

namespace Whole

/-- The integers as literals. What they do not have, such as the elementary functions, is
filled in with zero or the identity. -/
instance : Scalar Whole where
  add a b := ⟨a.value + b.value⟩
  sub a b := ⟨a.value - b.value⟩
  mul a b := ⟨a.value * b.value⟩
  div a b := ⟨a.value / b.value⟩
  neg a := ⟨-a.value⟩
  eqv a b := a = b
  lt a b := a.value < b.value
  le a b := a.value ≤ b.value
  ofNat n := ⟨n⟩
  ofDecimal m e := ⟨m * 10 ^ e.toNat / 10 ^ (-e).toNat⟩
  nan := ⟨0⟩
  infinity := ⟨0⟩
  isNaN _ := false
  isFinite _ := true
  signBit a := a.value < 0
  integerPart? a := some a.value
  floor a := a
  round a := a
  sqrt a := a
  exp a := a
  ln a := a
  sin a := a
  cos a := a
  pow a _ := a
  atan2 a _ := a
  hypot a _ := a
  text a := toString a.value
  neg_of_isNeg a h := by
    have ha : a.value < 0 := of_decide_eq_true h
    exact decide_eq_false (show ¬ -a.value < 0 by omega)

theorem value_toDigits (n : Nat) :
    Numeral.value (R := Whole) (Nat.toDigits 10 n) [] = ⟨n⟩ := by
  rw [Numeral.value_toDigits]
  change (⟨n * 10 ^ (0 : Nat) / 10 ^ (0 : Nat)⟩ : Whole) = ⟨n⟩
  simp

theorem text_of_nonneg {a : Int} (ha : ¬ a < 0) :
    (Scalar.text (⟨a⟩ : Whole)).toList = Nat.toDigits 10 a.toNat := by
  change (toString a).toList = _
  rw [Int.toString_eq_repr, Int.repr_eq_if, if_pos (Int.not_lt.1 ha), Nat.toList_repr]

theorem text_of_neg {a : Int} (ha : a < 0) :
    (Scalar.text (⟨a⟩ : Whole)).toList = '-' :: Nat.toDigits 10 (-a).toNat := by
  change (toString a).toList = _
  rw [Int.toString_eq_repr, Int.repr_eq_if, if_neg (Int.not_le.2 ha), String.toList_append,
    Nat.toList_repr]
  rfl

/-- The text of an integer is the numeral that is read as this integer. -/
instance : DecimalText Whole where
  isNaN_eq_false _ _ := rfl
  text_plain a _ hs := by
    have ha : ¬ a.value < 0 := of_decide_eq_false hs
    refine ⟨Nat.toDigits 10 a.value.toNat, [], Numeral.isPlain_toDigits _, ?_, ?_⟩
    · rw [text_of_nonneg ha, Numeral.plain]
      simp
    · rw [value_toDigits, Int.toNat_of_nonneg (Int.not_lt.1 ha)]
      exact decide_eq_true rfl
  text_minus a _ hs := by
    have ha : a.value < 0 := of_decide_eq_true hs
    have hneg : ¬ -a.value < 0 := by omega
    rw [text_of_neg ha]
    exact congrArg ('-' :: ·) (text_of_nonneg hneg).symm
  isFinite_neg _ _ := rfl
  signBit_neg a _ hs := by
    have ha : a.value < 0 := of_decide_eq_true hs
    exact decide_eq_false (show ¬ -a.value < 0 by omega)
  eqv_neg a b _ h := by
    obtain rfl : b = -a := of_decide_eq_true h
    exact decide_eq_true (congrArg Whole.mk (Int.neg_neg a.value))

end Whole

end SymbolicAlgebra
