import SymbolicAlgebra.Proofs.DecimalText

set_option autoImplicit false

/-!
# Scalars with texts at the edge

Scalars of infinite size, and those that are no number, are written as words. The word of an
infinite scalar has its sign in front, and the other word never has a sign. `ScalarText R` asks
this of scalars whose other texts are decimal numerals, and `ScalarText.exists_word` says how what
is not finite is written. The integers below a bound are such scalars, with zeros of both signs,
with infinite sizes from the bound on and with a scalar that is no number.
-/

namespace SymbolicAlgebra

open Lexeme (scalarWord?)

/-- The scalars that are not finite are written as words that are read as equal scalars. -/
class ScalarText (R : Type) [Scalar R] : Prop extends DecimalText R where
  /-- The word of what is no number is read as no number. -/
  isNaN_nan : Scalar.isNaN (Scalar.nan : R) = true
  /-- The opposite of what is no number is none. -/
  isNaN_neg : ∀ v : R, Scalar.isNaN v = true → Scalar.isNaN (-v) = true
  /-- A number equals itself. -/
  eqv_self : ∀ v : R, Scalar.isNaN v = false → Scalar.eqv v v = true
  /-- What is no number equals nothing. -/
  eqv_of_isNaN : ∀ v w : R, Scalar.isNaN v = true → Scalar.eqv v w = false
  /-- What is no number is written as a word without a sign. -/
  text_nan : ∀ v : R, Scalar.isNaN v = true → Scalar.text v = "NaN"
  /-- An infinite scalar without a sign is written as a word. -/
  text_infinity : ∀ v : R, Scalar.isInfinite v = true → Scalar.signBit v = false →
    Scalar.text v = "inf"
  /-- The word is read as this scalar. -/
  eqv_infinity : ∀ v : R, Scalar.isInfinite v = true → Scalar.signBit v = false →
    Scalar.eqv Scalar.infinity v = true
  /-- The text of an infinite scalar with a sign is a minus sign and the text of its
  opposite. -/
  text_minus_infinity : ∀ v : R, Scalar.isInfinite v = true → Scalar.signBit v = true →
    (Scalar.text v).toList = '-' :: (Scalar.text (-v)).toList
  /-- The opposite is infinite. -/
  isInfinite_neg : ∀ v : R, Scalar.isInfinite v = true → Scalar.isInfinite (-v) = true
  /-- The opposite of an infinite scalar with a sign has none. -/
  signBit_neg_infinity : ∀ v : R, Scalar.isInfinite v = true → Scalar.signBit v = true →
    Scalar.signBit (-v) = false
  /-- The infinite scalars with a sign are the opposite of the word. -/
  eqv_neg_infinity : ∀ v : R, Scalar.isInfinite v = true → Scalar.signBit v = true →
    Scalar.eqv (-Scalar.infinity) v = true

namespace ScalarText

variable {R : Type} [Scalar R]

/-- What is not finite is infinite or no number. -/
theorem isInfinite_or_isNaN {v : R} (hv : Scalar.isFinite v = false) :
    Scalar.isInfinite v = true ∨ Scalar.isNaN v = true := by
  cases hnan : Scalar.isNaN v with
  | true => exact .inr rfl
  | false => exact .inl (by rw [Scalar.isInfinite, hv, hnan]; rfl)

variable [ScalarText R] {v : R}

/-- Every scalar is the same as itself. -/
theorem same_self (v : R) : Scalar.same v v = true := by
  cases hv : Scalar.isNaN v with
  | true => simp [Scalar.same, hv]
  | false => simp [Scalar.same, eqv_self v hv]

/-- An infinite scalar is written as a word, with the sign in front. -/
theorem writtenAs_inf (hv : Scalar.isInfinite v = true) :
    WrittenAs v "inf".toList (Scalar.infinity : R) := by
  have hnan : Scalar.isNaN v = false := by
    have h := (Bool.and_eq_true_iff.1 hv).2
    simpa using h
  cases hs : Scalar.signBit v with
  | false =>
    have habs : Scalar.abs v = v := if_neg (by simp [hs])
    have ht := text_infinity v hv hs
    refine ⟨hnan, ?_, ?_, ?_, ?_⟩
    · rw [ht, hs]
      rfl
    · rw [habs, ht]
    · simp [Scalar.same, withSign, hs, eqv_infinity v hv hs]
    · simp [Scalar.same, habs, eqv_infinity v hv hs]
  | true =>
    -- the opposite is infinite without a sign, and its text is the word
    have habs : Scalar.abs v = -v := if_pos hs
    have hv' := isInfinite_neg v hv
    have hs' := signBit_neg_infinity v hv hs
    refine ⟨hnan, ?_, ?_, ?_, ?_⟩
    · rw [text_minus_infinity v hv hs, text_infinity _ hv' hs', hs]
      rfl
    · rw [habs, text_infinity _ hv' hs']
    · simp [Scalar.same, withSign, hs, eqv_neg_infinity v hv hs]
    · simp [Scalar.same, habs, eqv_infinity _ hv' hs']

/-- The size of what is no number is none. -/
theorem isNaN_abs (hv : Scalar.isNaN v = true) : Scalar.isNaN (Scalar.abs v) = true := by
  unfold Scalar.abs
  split
  · exact isNaN_neg v hv
  · exact hv

/-- What is not finite is written as a word that stands for a scalar, and so is its size. -/
theorem exists_word (hv : Scalar.isFinite v = false) :
    ∃ minus x, ∃ a : R, scalarWord? x = some a ∧
      (Scalar.text v).toList = signText minus ++ x.toList ∧
      Scalar.text (Scalar.abs v) = x ∧ Scalar.same (withSign minus a) v = true := by
  rcases isInfinite_or_isNaN hv with hv | hv
  · have h := writtenAs_inf hv
    exact ⟨_, "inf", Scalar.infinity, rfl, h.text, String.toList_inj.1 h.text_abs, h.same⟩
  · -- the word has no sign even where the scalar carries one
    refine ⟨false, "NaN", Scalar.nan, rfl, ?_, text_nan _ (isNaN_abs hv), ?_⟩
    · rw [text_nan v hv]
      rfl
    · rw [withSign, if_neg Bool.false_ne_true, Scalar.same, isNaN_nan, hv]
      exact Bool.or_true _

end ScalarText

/-! ## Integers below a bound -/

/-- An integer with a sign of its own, or what is no number. -/
inductive Capped where
  /-- An integer; its size counts as infinite from the bound on. -/
  | number (minus : Bool) (size : Nat)
  /-- What is no number. -/
  | nan
deriving DecidableEq

namespace Capped

/-- The least infinite size. -/
def bound : Nat := Nat.pow (Nat.pow 10 103) 3

/-- The value of a number; all infinite sizes count as the bound. -/
def value (minus : Bool) (size : Nat) : Int :=
  if minus then -(min size bound : Nat) else (min size bound : Nat)

/-- Whether the values of two numbers are related. -/
def compares (r : Int → Int → Bool) : Capped → Capped → Bool
  | number m k, number n l => r (value m k) (value n l)
  | _, _ => false

/-- The number that an operation makes of the values of two numbers. -/
def combined (f : Int → Int → Int) : Capped → Capped → Capped
  | number m k, number n l =>
    let v := f (value m k) (value n l)
    number (v < 0) v.natAbs
  | _, _ => nan

/-- The opposite: the sign changes, also the sign of a zero. -/
def opposite : Capped → Capped
  | number m k => number (!m) k
  | nan => nan

/-- The sign, the digits or a word. -/
def text : Capped → String
  | number m k => (if m then "-" else "") ++ if k < bound then toString k else "inf"
  | nan => "NaN"

theorem value_not (m : Bool) (k : Nat) : value (!m) k = -value m k := by
  cases m <;> simp [value]

/-- The integers below the bound as literals. What they do not have, such as the elementary
functions, is filled in with the identity. -/
instance : Scalar Capped where
  add := combined (· + ·)
  sub := combined (· - ·)
  mul := combined (· * ·)
  div := combined (· / ·)
  neg := opposite
  eqv := compares (· == ·)
  lt := compares (· < ·)
  le := compares (· ≤ ·)
  ofNat n := number false n
  ofDecimal m e := number false (m * Nat.pow 10 e.toNat / Nat.pow 10 (-e).toNat)
  nan := nan
  infinity := number false bound
  isNaN a := a = nan
  isFinite
    | number _ k => k < bound
    | nan => false
  signBit
    | number m _ => m
    | nan => false
  integerPart?
    | number m k => if k < bound then some (value m k) else none
    | nan => none
  floor a := a
  round a := a
  sqrt a := a
  exp a := a
  ln a := a
  sin a := a
  cos a := a
  pow a _ := a
  atan2 a _ := a
  hypot a _ := a
  text := text
  neg_of_isNeg a h := by
    cases a with
    | nan => rfl
    | number m k =>
      have hv : value m k < 0 := of_decide_eq_true h
      have hneg : ¬ value (!m) k < 0 := by
        rw [value_not]
        omega
      exact decide_eq_false hneg

variable {m : Bool} {k : Nat}

/-- A number below the bound is written with its digits. -/
theorem text_of_lt (h : k < bound) :
    (text (number m k)).toList = signText m ++ Nat.toDigits 10 k := by
  have hdigits : (toString k).toList = Nat.toDigits 10 k := Nat.toList_repr
  rw [text, if_pos h, String.toList_append, hdigits]
  cases m <;> rfl

/-- From the bound on a number is written as a word. -/
theorem text_of_not_lt (h : ¬ k < bound) :
    text (number m k) = (if m then "-" else "") ++ "inf" := by
  rw [text, if_neg h]

/-- From the bound on all sizes have one value. -/
theorem value_of_not_lt (h : ¬ k < bound) : value m k = value m bound := by
  have hmin : min k bound = bound := Nat.min_eq_right (Nat.not_lt.1 h)
  simp [value, hmin]

/-- What equals the opposite of a scalar has an opposite that equals the scalar. -/
theorem compares_opposite {a b : Capped} (h : compares (· == ·) b (opposite a) = true) :
    compares (· == ·) (opposite b) a = true := by
  cases a with
  | nan => cases b <;> cases h
  | number m k =>
    cases b with
    | nan => cases h
    | number n l =>
      have hv : value n l = value (!m) k := eq_of_beq h
      have hneg : value (!n) l = value m k := by
        rw [value_not, hv, value_not, Int.neg_neg]
      exact beq_iff_eq.2 hneg

/-- The text of a number below the bound is the numeral that is read as this number. -/
instance : DecimalText Capped where
  isNaN_eq_false a ha := by
    cases a with
    | number m k => rfl
    | nan => cases ha
  text_plain a ha hs := by
    cases a with
    | nan => cases ha
    | number m k =>
      obtain rfl : m = false := hs
      have hk : k < bound := of_decide_eq_true ha
      refine ⟨Nat.toDigits 10 k, [], Numeral.isPlain_toDigits k, ?_, ?_⟩
      · exact (text_of_lt hk).trans (List.append_nil _).symm
      · rw [Numeral.value_toDigits]
        change (value false (k * Nat.pow 10 0 / Nat.pow 10 0) == value false k) = true
        simp
  text_minus a ha hs := by
    cases a with
    | nan => cases ha
    | number m k =>
      obtain rfl : m = true := hs
      have hk : k < bound := of_decide_eq_true ha
      exact (text_of_lt hk).trans (congrArg ('-' :: ·) (text_of_lt (m := false) hk).symm)
  isFinite_neg a ha := by
    cases a with
    | number m k => exact ha
    | nan => cases ha
  signBit_neg a _ hs := by
    cases a with
    | number m k => exact congrArg (!·) hs
    | nan => rfl
  eqv_neg a b _ h := compares_opposite h

/-- The sizes from the bound on are the infinite ones. -/
theorem exists_of_isInfinite {a : Capped} (h : Scalar.isInfinite a = true) :
    ∃ m k, a = number m k ∧ ¬ k < bound := by
  cases a with
  | nan => cases h
  | number m k =>
    have hk : (!decide (k < bound)) = true := (Bool.and_eq_true_iff.1 h).1
    exact ⟨m, k, rfl, by simpa using hk⟩

/-- The texts of the other numbers are words that are read as them. -/
instance : ScalarText Capped where
  isNaN_nan := rfl
  isNaN_neg a ha := by
    cases a with
    | number m k => cases ha
    | nan => rfl
  eqv_self a ha := by
    cases a with
    | number m k => exact beq_self_eq_true (value m k)
    | nan => cases ha
  eqv_of_isNaN a b ha := by
    cases a with
    | number m k => cases ha
    | nan => rfl
  text_nan a ha := by
    cases a with
    | number m k => cases ha
    | nan => rfl
  text_infinity a ha hs := by
    obtain ⟨m, k, rfl, hk⟩ := exists_of_isInfinite ha
    obtain rfl : m = false := hs
    exact text_of_not_lt hk
  eqv_infinity a ha hs := by
    obtain ⟨m, k, rfl, hk⟩ := exists_of_isInfinite ha
    obtain rfl : m = false := hs
    exact beq_iff_eq.2 (value_of_not_lt hk).symm
  text_minus_infinity a ha hs := by
    obtain ⟨m, k, rfl, hk⟩ := exists_of_isInfinite ha
    obtain rfl : m = true := hs
    have ht : text (number true k) = "-inf" := text_of_not_lt hk
    have ht' : text (number false k) = "inf" := text_of_not_lt hk
    change (text (number true k)).toList = '-' :: (text (number false k)).toList
    rw [ht, ht']
    rfl
  isInfinite_neg a ha := by
    obtain ⟨m, k, rfl, -⟩ := exists_of_isInfinite ha
    exact ha
  signBit_neg_infinity a ha hs := by
    obtain ⟨m, k, rfl, -⟩ := exists_of_isInfinite ha
    exact congrArg (!·) hs
  eqv_neg_infinity a ha hs := by
    obtain ⟨m, k, rfl, hk⟩ := exists_of_isInfinite ha
    obtain rfl : m = true := hs
    exact beq_iff_eq.2 (value_of_not_lt hk).symm

end Capped

end SymbolicAlgebra
