import SymbolicAlgebra.Scalar.Binary64

set_option autoImplicit false

/-!
# Floats with the sign of no number

A binary64 number has a sign bit also where it is no number, and a complex literal shows
that sign before its imaginary part. The type `Float` has only one value that is no
number, so the sign stands beside the value (`SignedFloat`). The running program computes with
these pairs.

The sign goes through arithmetic by three rules. The opposite has the other sign. An
operation on something that is no number hands on the sign of the first such operand; only
a power with an odd exponent drops a minus sign. An operation on numbers alone that has no
answer, such as the difference of two infinities, gives a minus sign. So values that are written
down (`SignedFloat.ofFloat`) are kept apart from values that are computed (`SignedFloat.lift₁`,
`SignedFloat.lift₂`).
-/

namespace SymbolicAlgebra

/-- A float, together with the sign that it has in case it is no number. -/
structure SignedFloat where
  /-- The float. -/
  value : Float
  /-- Whether there is a minus sign in case the float is no number. A number has the sign
  of its own bits. -/
  nanSign : Bool

namespace SignedFloat

/-- A float that is written down. It has no minus sign where it is no number. -/
def ofFloat (v : Float) : SignedFloat := ⟨v, false⟩

/-- Whether the float is no number. -/
def isNaN (v : SignedFloat) : Bool := v.value.isNaN

/-- Whether there is a minus sign, on a number or on what is no number. -/
def signBit (v : SignedFloat) : Bool :=
  if v.isNaN then v.nanSign else Binary64.signBit v.value

/-- The result of an operation on one operand. Where it is no number, it has the sign of
an operand that is none, and a minus sign behind a number. -/
def lift₁ (f : Float → Float) (v : SignedFloat) : SignedFloat where
  value := f v.value
  nanSign := if v.isNaN then v.nanSign else true

/-- The result of an operation on two operands. Where it is no number, it has the sign of
the first operand that is none, and a minus sign behind two numbers. -/
def lift₂ (f : Float → Float → Float) (v w : SignedFloat) : SignedFloat where
  value := f v.value w.value
  nanSign := if v.isNaN then v.nanSign else if w.isNaN then w.nanSign else true

/-- The opposite, which has the other sign also where it is no number. -/
def neg (v : SignedFloat) : SignedFloat := ⟨-v.value, !v.nanSign⟩

/-- The power. A base that is no number loses its minus sign under an odd exponent. -/
def pow (v w : SignedFloat) : SignedFloat :=
  let p := lift₂ Float.pow v w
  if v.isNaN && Binary64.isOddInteger w.value then ofFloat p.value else p

/-- The angle of the point with the ordinate and abscissa given. The abscissa counts as
the first operand. -/
def atan2 (y x : SignedFloat) : SignedFloat := lift₂ (fun a b => Float.atan2 b a) x y

end SignedFloat

/-! ## The instance -/

/-- Floats with the sign of no number as scalars. -/
instance : Scalar SignedFloat where
  add := SignedFloat.lift₂ fun v w => v + w
  sub := SignedFloat.lift₂ fun v w => v - w
  mul := SignedFloat.lift₂ fun v w => v * w
  div := SignedFloat.lift₂ fun v w => v / w
  neg := SignedFloat.neg
  eqv v w := v.value == w.value
  lt v w := Float.lt v.value w.value
  le v w := Float.le v.value w.value
  ofNat n := .ofFloat (Float.ofNat n)
  ofDecimal m e := .ofFloat (Binary64.ofDecimal m e)
  nan := .ofFloat (0 / 0)
  infinity := .ofFloat (1 / 0)
  isNaN := SignedFloat.isNaN
  isFinite v := v.value.isFinite
  signBit := SignedFloat.signBit
  integerPart? v := Binary64.integerPart? v.value
  floor := SignedFloat.lift₁ Float.floor
  round := SignedFloat.lift₁ Float.round
  sqrt := SignedFloat.lift₁ Float.sqrt
  exp := SignedFloat.lift₁ Float.exp
  ln := SignedFloat.lift₁ Float.log
  sin := SignedFloat.lift₁ Float.sin
  cos := SignedFloat.lift₁ Float.cos
  pow := SignedFloat.pow
  atan2 := SignedFloat.atan2
  hypot := SignedFloat.lift₂ Binary64.hypot
  text v := Binary64.text v.value
  neg_of_isNeg v := Binary64.neg_of_isNeg v.value

end SymbolicAlgebra
