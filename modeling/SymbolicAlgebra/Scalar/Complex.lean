import SymbolicAlgebra.Scalar

set_option autoImplicit false

/-!
# Complex literals

A complex literal (`ComplexNumber R`) is a pair of scalars. The operations below are the textbook
formulas, each written out once in the order in which the rounded operations are carried out: with
scalars that round, another order gives another literal. A literal may also be given by magnitude
and angle (`ComplexNumber.ofPolar`). In `ComplexNumber.same` a part that is no number equals
itself.
-/

namespace SymbolicAlgebra

/-- A complex literal by its real and imaginary part. -/
structure ComplexNumber (R : Type) where
  /-- The real part. -/
  re : R
  /-- The imaginary part. -/
  im : R

namespace ComplexNumber

variable {R : Type} [Scalar R]

/-- A real scalar as a complex literal. -/
def ofReal (v : R) : ComplexNumber R := ⟨v, 0⟩

/-- The literal with the magnitude `r` and the angle `θ` in radians. -/
def ofPolar (r θ : R) : ComplexNumber R := ⟨r * Scalar.cos θ, r * Scalar.sin θ⟩

/-- Part by part addition. -/
def add (z w : ComplexNumber R) : ComplexNumber R := ⟨z.re + w.re, z.im + w.im⟩

/-- Part by part subtraction. -/
def sub (z w : ComplexNumber R) : ComplexNumber R := ⟨z.re - w.re, z.im - w.im⟩

/-- The opposite literal. -/
def neg (z : ComplexNumber R) : ComplexNumber R := ⟨-z.re, -z.im⟩

/-- The product of two literals. -/
def mul (z w : ComplexNumber R) : ComplexNumber R :=
  ⟨z.re * w.re - z.im * w.im, z.re * w.im + z.im * w.re⟩

/-- The quotient of two literals, over the squared magnitude of the divisor. -/
def div (z w : ComplexNumber R) : ComplexNumber R :=
  let d := w.re * w.re + w.im * w.im
  ⟨(z.re * w.re + z.im * w.im) / d, (z.im * w.re - z.re * w.im) / d⟩

/-- Whether both parts are zero. -/
def isZero (z : ComplexNumber R) : Bool := Scalar.isZero z.re && Scalar.isZero z.im

/-- Equality as the arithmetic decides it, part by part. -/
def eqv (z w : ComplexNumber R) : Bool := Scalar.eqv z.re w.re && Scalar.eqv z.im w.im

/-- Structural equality of literals, part by part. -/
def same (z w : ComplexNumber R) : Bool := Scalar.same z.re w.re && Scalar.same z.im w.im

/-- The principal logarithm. -/
def ln (z : ComplexNumber R) : ComplexNumber R :=
  ⟨Scalar.ln (Scalar.hypot z.re z.im), Scalar.atan2 z.im z.re⟩

/-- The exponential. At the ends of the real axis the angle may be undefined: a vanishing
exponential is then zero, and an unbounded one keeps the imaginary part as it is, an
infinite one turning into no number. -/
def exp (z : ComplexNumber R) : ComplexNumber R :=
  if Scalar.isInfinite z.re && Scalar.isNeg z.re && !Scalar.isFinite z.im then
    ⟨0, 0⟩
  else if Scalar.isInfinite z.re && !Scalar.isNeg z.re &&
      (Scalar.isZero z.im || !Scalar.isFinite z.im) then
    if Scalar.isInfinite z.im then ⟨z.re, Scalar.nan⟩ else z
  else if Scalar.isNaN z.re && Scalar.isZero z.im then
    z
  else
    ofPolar (Scalar.exp z.re) z.im

/-- The power of two complex literals; the power with exponent zero is one. -/
def pow (z w : ComplexNumber R) : ComplexNumber R :=
  if w.isZero then ofReal 1 else exp (mul w (ln z))

end ComplexNumber

end SymbolicAlgebra
