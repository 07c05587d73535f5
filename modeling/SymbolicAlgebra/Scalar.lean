set_option autoImplicit false

/-!
# Scalars: the arithmetic of literals

Every literal of a formula is a scalar. The rest of the library is written over an
arbitrary type of scalars (`Scalar R`), so that one development serves both the running program,
where scalars are binary64 numbers, and the theory, where they may be the elements of
a field in which arithmetic is exact. The operations on literals come with one law, which the
termination of simplification rests on (`Scalar.neg_of_isNeg`). Some operations are the same for
every type of scalars, among them equality of literals (`Scalar.same`), powers with integer
exponents (`Scalar.powInt`) and the tests for integers (`Scalar.integer?`,
`Scalar.machineInteger?`).

Comparison is Boolean and need not be total: a scalar may be unordered with every
scalar, itself included.
-/

namespace SymbolicAlgebra

/-- The operations on the literals of a formula. Arithmetic may round, and the
elementary functions are left uninterpreted. -/
class Scalar (R : Type) extends Add R, Sub R, Mul R, Div R, Neg R where
  /-- Equality as the arithmetic decides it. -/
  eqv : R → R → Bool
  /-- The strict order of the arithmetic. -/
  lt : R → R → Bool
  /-- The reflexive order of the arithmetic. -/
  le : R → R → Bool
  /-- The scalar nearest to a natural number. -/
  ofNat : Nat → R
  /-- The scalar nearest to `mantissa * 10 ^ exponent`. -/
  ofDecimal : (mantissa : Nat) → (exponent : Int) → R
  /-- A scalar that is no number and carries no minus sign. -/
  nan : R
  /-- A scalar above every number. -/
  infinity : R
  /-- Whether the scalar is no number. -/
  isNaN : R → Bool
  /-- Whether the scalar is a number of finite size. -/
  isFinite : R → Bool
  /-- Whether the scalar carries a minus sign; a zero may carry one, and so may a scalar
  that is no number. -/
  signBit : R → Bool
  /-- The integer part, toward zero, of a scalar of finite size. -/
  integerPart? : R → Option Int
  /-- The greatest integral scalar that is not above the argument. -/
  floor : R → R
  /-- The nearest integral scalar, a half going away from zero. -/
  round : R → R
  /-- The square root. -/
  sqrt : R → R
  /-- The exponential. -/
  exp : R → R
  /-- The natural logarithm. -/
  ln : R → R
  /-- The sine of an angle in radians. -/
  sin : R → R
  /-- The cosine of an angle in radians. -/
  cos : R → R
  /-- The power with a scalar exponent. -/
  pow : R → R → R
  /-- The angle of the point with the ordinate and abscissa given. -/
  atan2 : R → R → R
  /-- The length of the hypotenuse over two legs. -/
  hypot : R → R → R
  /-- The text of a scalar in formulas and messages. -/
  text : R → String
  /-- The opposite of a scalar below zero is not below zero. -/
  neg_of_isNeg : ∀ v : R, lt v (ofNat 0) = true → lt (-v) (ofNat 0) = false

namespace Scalar

variable {R : Type} [Scalar R]

/-- Numerals denote the nearest scalars. -/
instance (priority := low) instNumeral (n : Nat) : OfNat R n := ⟨ofNat n⟩

/-- Structural equality of literals: equal, or neither of them a number. -/
def same (v w : R) : Bool := eqv v w || (isNaN v && isNaN w)

/-- Whether a scalar lies below zero. -/
def isNeg (v : R) : Bool := lt v 0

/-- The opposite of a negative scalar is not negative. -/
theorem isNeg_neg {v : R} (h : isNeg v = true) : isNeg (-v) = false :=
  neg_of_isNeg v h

/-- Whether a scalar is zero, of either sign. -/
def isZero (v : R) : Bool := eqv v 0

/-- The scalar nearest to an integer. -/
def ofInt : Int → R
  | .ofNat n => ofNat n
  | .negSucc n => -ofNat (n + 1)

/-- The size of a scalar. -/
def abs (v : R) : R := if signBit v then -v else v

/-- Whether a scalar is of infinite size. -/
def isInfinite (v : R) : Bool := !isFinite v && !isNaN v

/-- The integer that a scalar denotes, if it denotes one. -/
def integer? (v : R) : Option Int :=
  (integerPart? v).filter fun n => eqv (ofInt n) v

/-- Bound of the sizes of the integers on which bitwise and divisor operations act. -/
def machineBound : Nat := Nat.pow 2 63

/-- The integer that a scalar denotes, if it denotes one of size below `machineBound`. -/
def machineInteger? (v : R) : Option Int :=
  (integer? v).filter fun n => n.natAbs < machineBound

/-- Whether a scalar denotes an odd integer. -/
def isOddInteger (v : R) : Bool :=
  match integer? v with
  | some n => n % 2 != 0
  | none => false

/-- Clamps an integer to the range from `lo` to `hi`. -/
def clamp (lo hi n : Int) : Int := max lo (min hi n)

/-- The number of decimal places that a scalar asks for: its integer part, clamped to
the range of 32-bit integers, and zero where the scalar is no number. -/
def places (v : R) : Int :=
  let bound := Int.pow 2 31
  match integerPart? v with
  | some n => clamp (-bound) (bound - 1) n
  | none => if isNaN v then 0 else if isNeg v then -bound else bound - 1

/-- Multiplies `acc` by `base ^ n`, squaring the base from one binary digit of the
exponent to the next. -/
def powNatFrom (acc base : R) (n : Nat) : R :=
  let acc' := if n % 2 = 1 then acc * base else acc
  if n / 2 = 0 then acc' else powNatFrom acc' (base * base) (n / 2)
termination_by n
decreasing_by omega

/-- The power with an integer exponent; a negative one takes the reciprocal of the
power with the opposite exponent. -/
def powInt (base : R) (n : Int) : R :=
  let p := powNatFrom 1 base n.natAbs
  if n < 0 then 1 / p else p

/-- The reciprocal of a scalar. -/
def recip (v : R) : R := 1 / v

/-- The smaller of two scalars; an operand that is no number is ignored, and of two equal
ones, as the zeros of both signs are, the second is taken. -/
def least (v w : R) : R := if isNaN v || le w v then w else v

/-- The greater of two scalars; an operand that is no number is ignored, and of two equal
ones, as the zeros of both signs are, the second is taken. -/
def greatest (v w : R) : R := if isNaN v || le v w then w else v

/-- The sum of a list, from left to right. The empty sum is the neutral element of
addition that keeps the sign of a zero, `-0`. -/
def total (vs : List R) : R := vs.foldl (· + ·) (-0)

/-- The product of a list, from left to right. -/
def productOf (vs : List R) : R := vs.foldl (· * ·) 1

/-- The scalar nearest to half the circumference of the unit circle. -/
def pi : R := ofDecimal 3141592653589793 (-15)

/-- The radian measure of an angle given in degrees. -/
def toRadians (v : R) : R := v * (pi / 180)

/-- The text of a scalar with a sign also where it is not negative; the text of a scalar
that is no number has no sign. -/
def signedText (v : R) : String :=
  if isNaN v || signBit v then text v else "+" ++ text v

end Scalar

end SymbolicAlgebra
