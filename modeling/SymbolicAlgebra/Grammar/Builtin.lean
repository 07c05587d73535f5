import SymbolicAlgebra.Expr.Shape
import SymbolicAlgebra.Expr.Text
import SymbolicAlgebra.Grammar.Error

set_option autoImplicit false

/-!
# Built-in functions

The name of a built-in function stands for an operation, a collection or a construct. A
name may accept several numbers of arguments (`Builtin.accepts`): the logarithm with one argument
has base ten, with two the base comes first. The names stand in one table (`Builtin.names`), and
`Builtin.build` gives the expression that a call with accepted arguments stands for; `defineTo` is
the definition of a variable or function head.
-/

namespace SymbolicAlgebra

/-- What the name of a built-in function stands for. -/
inductive Builtin where
  /-- An operation on one operand. -/
  | unary (op : UnaryOp)
  /-- An operation on two operands. -/
  | binary (op : BinaryOp)
  /-- A function of a list of operands. -/
  | aggregate (op : Aggregate)
  /-- The logarithm, to base ten or to the base given. -/
  | log
  /-- Rounding, to an integer or to the number of places given. -/
  | round
  /-- A vector. -/
  | vector
  /-- A matrix. -/
  | matrix
  /-- A definition. -/
  | define
  /-- The removal of a definition. -/
  | undefine
  /-- A condition with one branch or two. -/
  | condition
  /-- A counting loop. -/
  | forLoop
  /-- A conditional loop. -/
  | whileLoop
  /-- The simplified form of an expression. -/
  | simplify
  /-- A derivative. -/
  | derivative
deriving DecidableEq

namespace Builtin

/-- The names of the built-in functions. -/
def names : List (String × Builtin) := [
    ("abs", .unary .abs), ("ceil", .unary .ceil), ("floor", .unary .floor),
    ("trunc", .unary .trunc), ("frac", .unary .frac), ("sign", .unary .sign),
    ("fact", .unary .factorial), ("exp", .unary .exp), ("ln", .unary .ln), ("lg", .unary .lg),
    ("log10", .unary .lg), ("lb", .unary .lb), ("log2", .unary .lb), ("sqrt", .unary .sqrt),
    ("sin", .unary .sin), ("cos", .unary .cos), ("tan", .unary .tan), ("cot", .unary .cot),
    ("sec", .unary .sec), ("csc", .unary .csc), ("arcsin", .unary .arcsin),
    ("arccos", .unary .arccos), ("arctan", .unary .arctan), ("arccot", .unary .arccot),
    ("arcsec", .unary .arcsec), ("arccsc", .unary .arccsc), ("asin", .unary .arcsin),
    ("acos", .unary .arccos), ("atan", .unary .arctan), ("sinh", .unary .sinh),
    ("cosh", .unary .cosh), ("tanh", .unary .tanh), ("coth", .unary .coth),
    ("sech", .unary .sech), ("csch", .unary .csch), ("arsinh", .unary .arsinh),
    ("arcosh", .unary .arcosh), ("artanh", .unary .artanh), ("arcoth", .unary .arcoth),
    ("arsech", .unary .arsech), ("arcsch", .unary .arcsch), ("asinh", .unary .arsinh),
    ("acosh", .unary .arcosh), ("atanh", .unary .artanh), ("re", .unary .re),
    ("im", .unary .im), ("phase", .unary .phase), ("arg", .unary .phase),
    ("conjugate", .unary .conjugate), ("conj", .unary .conjugate),
    ("reciprocal", .unary .reciprocal), ("todeg", .unary .toDeg), ("torad", .unary .toRad),
    ("tograd", .unary .toGrad), ("tonumber", .unary .toNumber), ("tobin", .unary .toBin),
    ("tooct", .unary .toOct), ("tohex", .unary .toHex), ("transpose", .unary .transpose),
    ("det", .unary .det), ("inverse", .unary .inverse), ("root", .binary .root),
    ("dotproduct", .binary .dotProduct), ("crossproduct", .binary .crossProduct), ("log", .log),
    ("round", .round), ("gcd", .aggregate .gcd), ("lcm", .aggregate .lcm),
    ("min", .aggregate .min), ("max", .aggregate .max), ("avg", .aggregate .avg),
    ("count", .aggregate .count), ("sum", .aggregate .sum), ("product", .aggregate .product),
    ("stdev", .aggregate .stdev), ("stdevp", .aggregate .stdevp), ("var", .aggregate .var),
    ("varp", .aggregate .varp), ("vector", .vector), ("matrix", .matrix), ("define", .define),
    ("def", .define), ("undef", .undefine), ("if", .condition), ("for", .forLoop),
    ("while", .whileLoop), ("simplify", .simplify), ("derivative", .derivative),
    ("deriv", .derivative)]

/-- The built-in function with the name given. -/
def ofName? (name : String) : Option Builtin := names.lookup name

/-- Whether the built-in function may have this number of arguments. -/
def accepts : Builtin → Nat → Bool
  | .unary _, n | .undefine, n | .simplify, n => n == 1
  | .binary _, n | .define, n | .whileLoop, n => n == 2
  | .aggregate op, n => op.minArgs ≤ n
  | .log, n | .round, n | .derivative, n => n == 1 || n == 2
  | .condition, n => n == 2 || n == 3
  | .forLoop, n => n == 4
  | .vector, _ | .matrix, _ => true

/-- The variable of a derivative that names none. -/
def defaultVariable : String := "x"

variable {R : Type} [Scalar R]

omit [Scalar R] in
/-- Whether a definition may have the expression on its left: a variable, or a function
head whose arguments are variables. -/
def isDefinable : Expr R → Bool
  | .var _ => true
  | .call _ args => args.all Expr.isVar
  | _ => false

/-- The definition of the target by the value. -/
def defineTo (target value : Expr R) : Except ParseError (Expr R) :=
  if isDefinable target then .ok (.define target value)
  else .error (.invalidAssignmentTarget target.text)

/-- The removal of the definition of the target, a variable or a call. -/
def undefineOf (target : Expr R) : Except ParseError (Expr R) :=
  match target with
  | .var _ | .call _ _ => .ok (.undefine target)
  | _ => .error (.expectedVariable "undef" 1 target.text)

/-- The derivative of an expression by a variable. -/
def derivativeBy (e x : Expr R) : Except ParseError (Expr R) :=
  match x with
  | .var name => .ok (.derivative e name)
  | _ => .error (.expectedVariable "derivative" 2 x.text)

/-- The expression that the call of a built-in function stands for. -/
def build (name : String) (b : Builtin) (args : List (Expr R)) :
    Except ParseError (Expr R) :=
  match b, args with
  | .unary op, [e] => .ok (.unary op e)
  | .binary op, [l, r] => .ok (.binary op l r)
  | .aggregate op, args => .ok (.aggregate op args)
  | .log, [e] => .ok (.unary .lg e)
  | .log, [base, e] => .ok (.binary .log base e)
  | .round, [e] => .ok (.unary .round e)
  | .round, [e, places] => .ok (.binary .round e places)
  | .vector, es => .ok (.vector es)
  | .matrix, rows => (Expr.matrixOf rows).mapError .shape
  | .define, [target, value] => defineTo target value
  | .undefine, [target] => undefineOf target
  | .condition, [c, t] => .ok (.ifThen c t)
  | .condition, [c, t, e] => .ok (.ifThenElse c t e)
  | .forLoop, [i, c, s, body] => .ok (.forLoop i c s body)
  | .whileLoop, [c, body] => .ok (.whileLoop c body)
  | .simplify, [e] => .ok (.simplify e)
  | .derivative, [e] => .ok (.derivative e defaultVariable)
  | .derivative, [e, x] => derivativeBy e x
  | _, args => .error (.arityMismatch name args.length)

end Builtin

end SymbolicAlgebra
