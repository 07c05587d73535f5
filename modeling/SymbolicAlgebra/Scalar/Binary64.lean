import SymbolicAlgebra.Scalar
import SymbolicAlgebra.Decimal

set_option autoImplicit false

/-!
# Binary64 numbers

The running program computes with binary64 numbers. This module holds what scalars need
beyond the operations of the format itself.

- `Binary64.decode` gives a finite number as a sign and a dyadic number.
- `Binary64.text` is the shortest positional decimal that is read back as the number.
- `Binary64.ofDecimal` is the number nearest to a decimal, also where the decimal lies far
  outside the range of the format.
- `Binary64.hypot` is the length of a hypotenuse with one correction step after the root.
- `Binary64.neg_of_isNeg` is the sign law that every type of scalars obeys: packing a
  positive number never yields one below zero.
-/

namespace SymbolicAlgebra

namespace Binary64

/-! ## Decoding -/

/-- The bits of the number as a natural number. -/
def bits (v : Float) : Nat := v.toBits.toNat

/-- Whether the sign bit is set. -/
def signBit (v : Float) : Bool := Nat.pow 2 63 ≤ bits v

/-- The biased exponent. -/
def exponentField (v : Float) : Nat := bits v / Nat.pow 2 52 % Nat.pow 2 11

/-- The stored part of the mantissa. -/
def mantissaField (v : Float) : Nat := bits v % Nat.pow 2 52

/-- The size of a finite number. A power of two above the least exponent has its lower
neighbour at half the distance of the upper one. -/
def decode (v : Float) : Dyadic :=
  if exponentField v = 0 then
    { mantissa := mantissaField v, exponent := -1074 }
  else
    { mantissa := mantissaField v + Nat.pow 2 52
      exponent := exponentField v - 1075
      below := if mantissaField v = 0 ∧ 1 < exponentField v then 1 else 2 }

/-- The integer part, toward zero, of a finite number. -/
def integerPart? (v : Float) : Option Int :=
  if v.isFinite then
    let x := decode v
    let n := x.mantissa * Nat.pow 2 x.exponent.toNat / Nat.pow 2 (-x.exponent).toNat
    some (if signBit v then -n else n)
  else
    none

/-- Whether a number is an odd integer. -/
def isOddInteger (v : Float) : Bool :=
  v.floor == v && (integerPart? v).any fun n => n % 2 != 0

/-! ## Texts -/

/-- The shortest positional decimal that is read back as the number. -/
def text (v : Float) : String :=
  if v.isNaN then "NaN"
  else
    let size :=
      if v.isFinite then
        if v == 0 then "0" else (decode v).shortest.text
      else "inf"
    if signBit v then "-" ++ size else size

/-- The number nearest to a decimal. Decimals of 310 digits before the point lie beyond
the greatest number, and those with 330 zeros behind it vanish; neither is computed. -/
def ofDecimal (mantissa : Nat) (exponent : Int) : Float :=
  let top : Int := Decimal.digitCount mantissa + exponent
  if mantissa = 0 ∨ top < -330 then 0
  else if 310 < top then 1 / 0
  else Float.ofScientific mantissa (exponent < 0) exponent.natAbs

/-! ## Hypotenuse -/

/-- The hypotenuse over the legs `a` and `b`, where `b` is not greater than `a`: the root
of the sum of squares and one correction by its residue. -/
def hypotCore (a b : Float) : Float :=
  let h := (a * a + b * b).sqrt
  let residue :=
    if h ≤ 2 * b then
      let δ := h - b
      a * (2 * δ - a) + (δ - 2 * (a - b)) * δ
    else
      let δ := h - a
      2 * δ * (a - 2 * b) + ((4 * δ - b) * b + δ * δ)
  h - residue / (2 * h)

/-- The power of two with the exponent given, in the range of normal numbers. -/
def powerOfTwo (e : Int) : Float := Float.ofBits ((e + 1023).toNat * Nat.pow 2 52).toUInt64

/-- The length of the hypotenuse over two legs. Legs too great or too small to be squared
are scaled by a power of two first, and a leg too small to count is added to the other. -/
def hypot (x y : Float) : Float :=
  if !x.isFinite || !y.isFinite then
    if x.isInf || y.isInf then 1 / 0 else x + y
  else
    let x := x.abs
    let y := y.abs
    let a := if x < y then y else x
    let b := if x < y then x else y
    let ε := powerOfTwo (-54)
    let scale := powerOfTwo (-600)
    if powerOfTwo 511 < a then
      if b ≤ a * ε then a + b else hypotCore (a * scale) (b * scale) / scale
    else if b < powerOfTwo (-459) then
      if b / ε ≤ a then a + b else hypotCore (a / scale) (b / scale) * scale
    else if b ≤ a * ε then a + b
    else hypotCore a b

/-! ## The sign law -/

section SignLaw

open Float.Model (Format UnpackedFloat)
open Float.Model.UnpackedFloat (Sign unpackSign packComponents packedInfinity)

/-- The sign that is packed into a number is the sign that is unpacked from it. -/
theorem unpackSign_packComponents (spec : Format) (s : Sign) (e : BitVec spec.exponentBits)
    (m : BitVec spec.mantissaBitsWithoutImplicit) :
    unpackSign (packComponents spec s e m) = s.toBitVec := by
  unfold unpackSign packComponents
  ext i hi
  have : i = 0 := by omega
  subst this
  simp [BitVec.extractLsb, BitVec.getLsbD_append, BitVec.getElem_append]

/-- A sign is recovered from its bit. -/
theorem ofBitVec_toBitVec (s : Sign) : Sign.ofBitVec s.toBitVec = s := by
  cases s <;> rfl

/-- A number whose sign bit is clear is not below zero. -/
theorem unpack_lt_zero (spec : Format) (b : BitVec spec.numBits)
    (h : unpackSign b = Sign.positive.toBitVec) (s : Sign) :
    (UnpackedFloat.unpack spec b).lt (.zero s) = false := by
  delta UnpackedFloat.unpack
  dsimp only
  rw [h, ofBitVec_toBitVec]
  refine iteInduction (motive := (UnpackedFloat.lt · (.zero s) = false)) (fun _ => ?_)
    (fun _ => ?_)
  · exact iteInduction (motive := (UnpackedFloat.lt · (.zero s) = false)) (fun _ => rfl)
      (fun _ => rfl)
  · refine iteInduction (motive := (UnpackedFloat.lt · (.zero s) = false)) (fun _ => ?_)
      (fun _ => rfl)
    by_cases hm : UnpackedFloat.unpackMantissa b = BitVec.ofNat _ 0
    · rw [dif_pos hm]
      rfl
    · rw [dif_neg hm]
      rfl

/-- The opposite of a number below zero is packed with a clear sign bit. -/
theorem unpackSign_pack_neg (spec : Format) (u : UnpackedFloat) (t : Sign)
    (h : u.lt (.zero t) = true) :
    unpackSign (UnpackedFloat.pack spec u.neg) = Sign.positive.toBitVec := by
  cases u with
  | infinity s =>
    cases s with
    | positive => exact absurd h Bool.false_ne_true
    | negative => exact unpackSign_packComponents spec .positive _ _
  | notANumber => exact absurd h Bool.false_ne_true
  | zero s => exact absurd h Bool.false_ne_true
  | finite s m e hm =>
    cases s with
    | positive => exact absurd h Bool.false_ne_true
    | negative =>
      have pos e m := unpackSign_packComponents spec .positive e m
      exact iteInduction (motive := (unpackSign · = Sign.positive.toBitVec)) (fun _ => pos _ _)
        fun _ => iteInduction (motive := (unpackSign · = Sign.positive.toBitVec))
          (fun _ => pos _ _) (fun _ => pos _ _)

/-- The opposite of a number below zero is not below zero. -/
theorem neg_of_isNeg (v : Float) (h : Float.lt v 0 = true) : Float.lt (-v) 0 = false := by
  have hz : (0 : Float).toModel.unpack = .zero .positive := rfl
  change decide (v.toModel.unpack.lt (0 : Float).toModel.unpack = true) = true at h
  change decide ((Float.Model.pack v.toModel.unpack.neg).unpack.lt
    (0 : Float).toModel.unpack = true) = false
  rw [hz] at h ⊢
  simp only [decide_eq_true_eq] at h
  simp only [decide_eq_false_iff_not, Bool.not_eq_true]
  exact unpack_lt_zero _ _ (unpackSign_pack_neg _ _ _ h) _

end SignLaw

end Binary64

end SymbolicAlgebra
