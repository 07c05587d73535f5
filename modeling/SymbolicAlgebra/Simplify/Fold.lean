import SymbolicAlgebra.Expr.Same
import SymbolicAlgebra.Expr.Shape

set_option autoImplicit false

/-!
# Folding operations on literals

An operation whose operands are literals folds to the literal of its value. There are three
families of literals (`Fold.real?`, `Fold.truth?` and `Fold.complex?`), and `Fold.literals?` picks
the family; arithmetic on a real and a complex literal is complex. Zero over zero folds to the
literal that is no number; any other division by zero is an error (`SimplifyError`). The functions
of a list fold where the members are real literals (`Fold.aggregate?`).
-/

namespace SymbolicAlgebra

/-- The cause for which an expression cannot be simplified. -/
inductive SimplifyError where
  /-- A division by zero. -/
  | divideByZero
  /-- The rows of a matrix have come to differ in length. -/
  | shape (cause : ShapeError)
deriving DecidableEq

/-- The wording of the cause. -/
def SimplifyError.message : SimplifyError → String
  | .divideByZero => "division by zero"
  | .shape cause => cause.message

namespace Fold

variable {R : Type} [Scalar R]

/-- What folding gives: an error, no literal, or a literal. -/
abbrev Outcome (R : Type) := Except SimplifyError (Option (Expr R))

/-! ## Real literals -/

/-- The quotient of two scalars. -/
def divide (a b : R) : Except SimplifyError R :=
  if !Scalar.isZero b then .ok (a / b)
  else if Scalar.isZero a then .ok Scalar.nan
  else .error .divideByZero

/-- The root of `a` with the degree `b`. A root of odd degree of a negative scalar is the
opposite of a root. -/
def root (a b : R) : Except SimplifyError R :=
  if Scalar.isZero b then .error .divideByZero
  else if Scalar.isNeg a && Scalar.isOddInteger b then .ok (-Scalar.pow (-a) (Scalar.recip b))
  else .ok (Scalar.pow a (Scalar.recip b))

/-- The remainder of `a` by `b`, which has the sign of `b`. -/
def modulo (a b : R) : Except SimplifyError R :=
  if Scalar.isZero b then .error .divideByZero
  else .ok (a - b * Scalar.floor (a / b))

/-- The scalar `a` rounded to `b` decimal places. -/
def roundTo (a b : R) : R :=
  let scale := Scalar.powInt 10 (Scalar.places b)
  Scalar.round (a * scale) / scale

/-- An operation on the binary digits of two integers, carried out on words of 64 bits. -/
def bitwise (f : Int64 → Int64 → Int64) (a b : R) : Option R :=
  match Scalar.machineInteger? a, Scalar.machineInteger? b with
  | some m, some n => some (Scalar.ofInt (f (Int64.ofInt m) (Int64.ofInt n)).toInt)
  | _, _ => none

/-- The literal of an operation on two real literals. -/
def real? (op : BinaryOp) (a b : R) : Outcome R :=
  let literal (v : R) : Outcome R := .ok (some (.number v))
  let truth (p : Bool) : Outcome R := .ok (some (.truth p))
  let word (f : Int64 → Int64 → Int64) : Outcome R := .ok ((bitwise f a b).map .number)
  match op with
  | .add => literal (a + b)
  | .sub => literal (a - b)
  | .mul => literal (a * b)
  | .div => (divide a b).map fun v => some (.number v)
  | .pow => literal (Scalar.pow a b)
  | .root => (root a b).map fun v => some (.number v)
  | .log => literal (Scalar.ln b / Scalar.ln a)
  | .mod => (modulo a b).map fun v => some (.number v)
  | .round => literal (roundTo a b)
  | .less => truth (Scalar.lt a b)
  | .lessEqual => truth (Scalar.le a b)
  | .greater => truth (Scalar.lt b a)
  | .greaterEqual => truth (Scalar.le b a)
  | .equal => truth (Scalar.eqv a b)
  | .notEqual => truth (!Scalar.eqv a b)
  | .bitAnd => word fun m n => m &&& n
  | .bitOr => word fun m n => m ||| n
  | .xor => word fun m n => m ^^^ n
  | .nand => word fun m n => ~~~(m &&& n)
  | .nor => word fun m n => ~~~(m ||| n)
  | _ => .ok none

/-! ## Truth values -/

/-- The truth value of an operation on two truth values. -/
def truthOf? (op : BinaryOp) (a b : Bool) : Option Bool :=
  match op with
  | .and | .bitAnd => some (a && b)
  | .or | .bitOr => some (a || b)
  | .xor | .notEqual => some (a != b)
  | .nand => some !(a && b)
  | .nor => some !(a || b)
  | .implication => some (!a || b)
  | .equivalence | .equal => some (a == b)
  | _ => none

/-- The literal of an operation on two truth values. -/
def truth? (op : BinaryOp) (a b : Bool) : Outcome R := .ok ((truthOf? op a b).map .truth)

/-! ## Complex literals -/

/-- The quotient of two complex literals. -/
def divideComplex (a b : ComplexNumber R) : Except SimplifyError (Expr R) :=
  if b.isZero then
    if a.isZero then .ok (.number Scalar.nan) else .error .divideByZero
  else .ok (.complex (a.div b))

/-- The literal of an operation on two complex literals. -/
def complex? (op : BinaryOp) (a b : ComplexNumber R) : Outcome R :=
  match op with
  | .add => .ok (some (.complex (a.add b)))
  | .sub => .ok (some (.complex (a.sub b)))
  | .mul => .ok (some (.complex (a.mul b)))
  | .div => (divideComplex a b).map some
  | .pow => .ok (some (.complex (a.pow b)))
  | .equal => .ok (some (.truth (a.eqv b)))
  | .notEqual => .ok (some (.truth (!a.eqv b)))
  | _ => .ok none

/-! ## All families -/

/-- The literal of an operation on two literals. -/
def literals? (op : BinaryOp) (l r : Expr R) : Outcome R :=
  match l, r with
  | .number a, .number b => real? op a b
  | .truth a, .truth b => truth? op a b
  | .complex a, .complex b => complex? op a b
  | .number a, .complex b => complex? op (ComplexNumber.ofReal a) b
  | .complex a, .number b => complex? op a (ComplexNumber.ofReal b)
  | _, _ => .ok none

/-! ## Aggregates -/

omit [Scalar R] in
/-- The values of a list of real literals. -/
def values? : List (Expr R) → Option (List R)
  | [] => some []
  | e :: es =>
    match e.asNumber?, values? es with
    | some v, some vs => some (v :: vs)
    | _, _ => none

/-- The integers of a list of scalars, each of size below the machine bound. -/
def integers? : List R → Option (List Int)
  | [] => some []
  | v :: vs =>
    match Scalar.machineInteger? v, integers? vs with
    | some n, some ns => some (n :: ns)
    | _, _ => none

/-- The greatest common divisor of the first integer and those that follow; of one integer
the integer itself. -/
def gcdFrom (n : Int) (ns : List Int) : Int := ns.foldl (fun a b => Int.gcd a b) n

/-- The least common multiple of the first integer and those that follow; of one integer
the integer itself. There is none where a running multiple reaches the machine bound. -/
def lcmFrom? : Int → List Int → Option Int
  | a, [] => some a
  | a, b :: ns =>
    let m := Int.lcm a b
    if m < Scalar.machineBound then lcmFrom? m ns else none

/-- The arithmetic mean. -/
def mean (vs : List R) : R := Scalar.total vs / Scalar.ofNat vs.length

/-- The sum of the squared distances from the mean. -/
def squares (vs : List R) : R :=
  let m := mean vs
  Scalar.total (vs.map fun v => Scalar.powInt (v - m) 2)

/-- The variance of a population. -/
def populationVariance (vs : List R) : R := squares vs / Scalar.ofNat vs.length

/-- The variance of a sample of at least two scalars. -/
def sampleVariance? (vs : List R) : Option R :=
  if vs.length < 2 then none
  else some (squares vs / (Scalar.ofNat vs.length - 1))

/-- The value of an aggregate of scalars. -/
def aggregateValue? (op : Aggregate) (vs : List R) : Option R :=
  match op with
  | .gcd =>
    match integers? vs with
    | some (n :: ns) => some (Scalar.ofInt (gcdFrom n ns))
    | _ => none
  | .lcm =>
    match integers? vs with
    | some (n :: ns) => (lcmFrom? n ns).map Scalar.ofInt
    | _ => none
  | .min => some (vs.foldl Scalar.least Scalar.infinity)
  | .max => some (vs.foldl Scalar.greatest (-Scalar.infinity))
  | .avg => some (mean vs)
  | .count => some (Scalar.ofNat vs.length)
  | .sum => some (Scalar.total vs)
  | .product => some (Scalar.productOf vs)
  | .stdev => (sampleVariance? vs).map Scalar.sqrt
  | .stdevp => some (Scalar.sqrt (populationVariance vs))
  | .var => sampleVariance? vs
  | .varp => some (populationVariance vs)

/-- The literal of an aggregate of real literals. -/
def aggregate? (op : Aggregate) (args : List (Expr R)) : Option (Expr R) :=
  match values? args with
  | some vs => (aggregateValue? op vs).map .number
  | none => none

end Fold

end SymbolicAlgebra
