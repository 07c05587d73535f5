import SymbolicAlgebra.Constant
import SymbolicAlgebra.Expr

set_option autoImplicit false

/-!
# The rules of differentiation

The derivative of a node is put together from its operands and their derivatives: by the chain
rule for a function of one operand (`chainRule?`) and by one rule for each operation on two
operands (`binaryRule`, which picks among `sumRule`, `productRule`, `quotientRule` and the
others). An operand that does not depend on the variable has no derivative here, and the rule
keeps it as a factor instead of adding a term that is zero.

Which operand is differentiated first decides which failure is reported (`operandOrder?`); nodes
of some kinds have no derivative at all (`hasDerivative`).
-/

namespace SymbolicAlgebra.Derivative

variable {R : Type} [Scalar R]

/-! ## One operand -/

/-- One less than an expression, computed where it is a literal. -/
def minusOne (e : Expr R) : Expr R :=
  match e with
  | .number v => .number (v - 1)
  | e => .sub e .one

/-- The square of an expression. -/
abbrev square (e : Expr R) : Expr R := .pow e .two

/-- The derivative of a function at the operand `u` with the derivative `du`; there is none
for functions that are not differentiable. -/
def chainRule? (op : UnaryOp) (u du : Expr R) : Option (Expr R) :=
  let f (op : UnaryOp) : Expr R := .unary op u
  let sqrt (e : Expr R) : Expr R := .unary .sqrt e
  match op with
  | .negate => some (.neg du)
  | .sin => some (.mul (f .cos) du)
  | .cos => some (.mul (.neg (f .sin)) du)
  | .tan => some (.div du (square (f .cos)))
  | .cot => some (.div (.neg du) (square (f .sin)))
  | .sec => some (.mul (.mul (f .sec) (f .tan)) du)
  | .csc => some (.mul (.neg (.mul (f .csc) (f .cot))) du)
  | .arcsin => some (.div du (sqrt (.sub .one (square u))))
  | .arccos => some (.div (.neg du) (sqrt (.sub .one (square u))))
  | .arctan => some (.div du (.add .one (square u)))
  | .arccot => some (.div (.neg du) (.add .one (square u)))
  | .arcsec => some (.div du (.mul (f .abs) (sqrt (.sub (square u) .one))))
  | .arccsc => some (.div (.neg du) (.mul (f .abs) (sqrt (.sub (square u) .one))))
  | .sinh => some (.mul (f .cosh) du)
  | .cosh => some (.mul (f .sinh) du)
  | .tanh => some (.div du (square (f .cosh)))
  | .coth => some (.div (.neg du) (square (f .sinh)))
  | .sech => some (.mul (.neg (.mul (f .sech) (f .tanh))) du)
  | .csch => some (.mul (.neg (.mul (f .csch) (f .coth))) du)
  | .arsinh => some (.div du (sqrt (.add (square u) .one)))
  | .arcosh => some (.div du (sqrt (.sub (square u) .one)))
  | .artanh | .arcoth => some (.div du (.sub .one (square u)))
  | .arsech => some (.div (.neg du) (.mul u (sqrt (.sub .one (square u)))))
  | .arcsch => some (.div (.neg du) (.mul (f .abs) (sqrt (.add .one (square u)))))
  | .exp => some (.mul (f .exp) du)
  | .ln => some (.div du u)
  | .lg => some (.div du (.mul u (.unary .ln (.number 10))))
  | .lb => some (.div du (.mul u (.unary .ln .two)))
  | .sqrt => some (.div du (.mul .two (f .sqrt)))
  | .abs => some (.mul (.div u (f .abs)) du)
  | .reciprocal => some (.div (.neg du) (square u))
  | _ => none

/-! ## Two operands -/

/-- An operand with its derivative; there is none where the operand does not depend on the
variable. -/
structure Operand (R : Type) where
  /-- The operand. -/
  expr : Expr R
  /-- Its derivative. -/
  derivative? : Option (Expr R)

/-- The derivative of a sum or difference `u ± v`: the constant operand is dropped. -/
def sumRule (op : BinaryOp) (u v : Operand R) : Expr R :=
  match u.derivative?, v.derivative? with
  | some du, some dv => .binary op du dv
  | some du, none => du
  | none, some dv => if op = .sub then .neg dv else dv
  | none, none => .zero

/-- The derivative of `u * v`: `u' * v + u * v'`, a constant factor staying in front. -/
def productRule (u v : Operand R) : Expr R :=
  match u.derivative?, v.derivative? with
  | some du, some dv => .add (.mul du v.expr) (.mul u.expr dv)
  | some du, none => .mul v.expr du
  | none, some dv => .mul u.expr dv
  | none, none => .zero

/-- The derivative of `u / v`: `(u' * v - u * v') / v ^ 2`, a constant divisor staying in
place. -/
def quotientRule (u v : Operand R) : Expr R :=
  match u.derivative?, v.derivative? with
  | some du, some dv => .div (.sub (.mul du v.expr) (.mul u.expr dv)) (square v.expr)
  | some du, none => .div du v.expr
  | none, some dv => .div (.neg (.mul u.expr dv)) (square v.expr)
  | none, none => .zero

omit [Scalar R] in
/-- Whether the expression is Euler's number. -/
def isEuler : Expr R → Bool
  | .var x => x == eulerName
  | _ => false

/-- The derivative of `u ^ v`: with a constant exponent `v * u ^ (v - 1) * u'`, with a
constant base `u ^ v * ln u * v'`, and `u ^ v * (v' * ln u + v * u' / u)` in general. -/
def powerRule (u v : Operand R) : Expr R :=
  let power : Expr R := .pow u.expr v.expr
  let ln : Expr R := .unary .ln u.expr
  match u.derivative?, v.derivative? with
  | some du, some dv => .mul power (.add (.mul dv ln) (.div (.mul v.expr du) u.expr))
  | some du, none => .mul (.mul v.expr (.pow u.expr (minusOne v.expr))) du
  | none, some dv => if isEuler u.expr then .mul power dv else .mul (.mul power ln) dv
  | none, none => .zero

/-- The operand `1 / v`. -/
def reciprocalOperand (v : Operand R) : Operand R :=
  ⟨.div .one v.expr, v.derivative?.map fun dv =>
    .div (.neg (.mul .one dv)) (square v.expr)⟩

/-- The derivative of the root of `u` with the degree `v`: with a constant degree
`u' / (v * root(u, v) ^ (v - 1))`, else that of `u ^ (1 / v)`. -/
def rootRule (u v : Operand R) : Expr R :=
  match v.derivative?, u.derivative? with
  | some _, _ => powerRule u (reciprocalOperand v)
  | none, some du =>
    .div du (.mul v.expr (.pow (.binary .root u.expr v.expr) (minusOne v.expr)))
  | none, none => .zero

/-- The operand `ln v`. -/
def lnOperand (v : Operand R) : Operand R :=
  ⟨.unary .ln v.expr, v.derivative?.map fun dv => .div dv v.expr⟩

/-- The derivative of the logarithm of `v` to the base `u`: with a constant base
`v' / (v * ln u)`, else that of `ln v / ln u`. -/
def logRule (u v : Operand R) : Expr R :=
  match u.derivative?, v.derivative? with
  | some _, _ => quotientRule (lnOperand v) (lnOperand u)
  | none, some dv => .div dv (.mul v.expr (.unary .ln u.expr))
  | none, none => .zero

/-- The derivative of a product of vectors. -/
def vectorRule (op : BinaryOp) (u v : Operand R) : Expr R :=
  match u.derivative?, v.derivative? with
  | some du, some dv => .add (.binary op du v.expr) (.binary op u.expr dv)
  | _, _ => .zero

/-- The derivative of an operation on two operands. -/
def binaryRule (op : BinaryOp) (u v : Operand R) : Expr R :=
  match op with
  | .mul => productRule u v
  | .div => quotientRule u v
  | .pow => powerRule u v
  | .root => rootRule u v
  | .log => logRule u v
  | .dotProduct | .crossProduct => vectorRule op u v
  | _ => sumRule op u v

/-- Which operands of an operation are differentiated, and in which order. -/
inductive OperandOrder where
  /-- The operands that depend on the variable, the left one first. -/
  | leftFirst
  /-- The operands that depend on the variable, the right one first. -/
  | rightFirst
  /-- Both operands, the left one first. -/
  | both
deriving DecidableEq

/-- The order of the operands; there is none for an operation without a derivative. -/
def operandOrder? : BinaryOp → Option OperandOrder
  | .add | .sub | .mul | .div => some .leftFirst
  | .pow | .root | .log => some .rightFirst
  | .dotProduct | .crossProduct => some .both
  | _ => none

/-! ## All nodes -/

omit [Scalar R] in
/-- Whether a node of this kind may have a derivative, if only zero. -/
def hasDerivative : Expr R → Bool
  | .truth _ => false
  | .unary op _ => op ≠ .not
  | .binary op _ _ => !(op.isRelational || op.isBitwise || op.isConditional)
  | .define _ _ | .undefine _ | .ifThen _ _ | .ifThenElse _ _ _ | .forLoop _ _ _ _
  | .whileLoop _ _ | .increment _ | .decrement _ | .update _ _ _ => false
  | _ => true

end SymbolicAlgebra.Derivative
