set_option autoImplicit false

/-!
# Operations: what the inner nodes of an expression compute

Each family of operations is an enumeration with one table of names. The names are the
ones of formula texts and of error messages.

- `UnaryOp` has the operators and functions of one operand, and knows which of them undo one
  another.
- `BinaryOp` has the operators and functions of two operands; an operator stands between its
  operands, a function before them.
- `Aggregate` has the functions of a list of operands, with the least length of that list.
- `UpdateOp` has the assignments that combine the old value with a new one.
-/

namespace SymbolicAlgebra

/-! ## One operand -/

/-- An operator or function of one operand. -/
inductive UnaryOp where
  | negate
  | factorial
  | not
  | abs
  | ceil
  | floor
  | round
  | trunc
  | frac
  | sign
  | exp
  | ln
  | lg
  | lb
  | sqrt
  | sin
  | cos
  | tan
  | cot
  | sec
  | csc
  | arcsin
  | arccos
  | arctan
  | arccot
  | arcsec
  | arccsc
  | sinh
  | cosh
  | tanh
  | coth
  | sech
  | csch
  | arsinh
  | arcosh
  | artanh
  | arcoth
  | arsech
  | arcsch
  | re
  | im
  | phase
  | conjugate
  | reciprocal
  | toDeg
  | toRad
  | toGrad
  | toNumber
  | toBin
  | toOct
  | toHex
  | transpose
  | det
  | inverse
deriving DecidableEq

namespace UnaryOp

/-- Every operation of one operand, in the order in which they are listed. -/
def all : List UnaryOp := [
    .negate, .factorial, .not, .abs, .ceil, .floor, .round, .trunc, .frac, .sign, .exp, .ln,
    .lg, .lb, .sqrt, .sin, .cos, .tan, .cot, .sec, .csc, .arcsin, .arccos, .arctan, .arccot,
    .arcsec, .arccsc, .sinh, .cosh, .tanh, .coth, .sech, .csch, .arsinh, .arcosh, .artanh,
    .arcoth, .arsech, .arcsch, .re, .im, .phase, .conjugate, .reciprocal, .toDeg, .toRad,
    .toGrad, .toNumber, .toBin, .toOct, .toHex, .transpose, .det, .inverse]

/-- The name in formulas and messages. -/
def name : UnaryOp → String
  | .negate => "-"
  | .factorial => "!"
  | .not => "not"
  | .abs => "abs"
  | .ceil => "ceil"
  | .floor => "floor"
  | .round => "round"
  | .trunc => "trunc"
  | .frac => "frac"
  | .sign => "sign"
  | .exp => "exp"
  | .ln => "ln"
  | .lg => "lg"
  | .lb => "lb"
  | .sqrt => "sqrt"
  | .sin => "sin"
  | .cos => "cos"
  | .tan => "tan"
  | .cot => "cot"
  | .sec => "sec"
  | .csc => "csc"
  | .arcsin => "arcsin"
  | .arccos => "arccos"
  | .arctan => "arctan"
  | .arccot => "arccot"
  | .arcsec => "arcsec"
  | .arccsc => "arccsc"
  | .sinh => "sinh"
  | .cosh => "cosh"
  | .tanh => "tanh"
  | .coth => "coth"
  | .sech => "sech"
  | .csch => "csch"
  | .arsinh => "arsinh"
  | .arcosh => "arcosh"
  | .artanh => "artanh"
  | .arcoth => "arcoth"
  | .arsech => "arsech"
  | .arcsch => "arcsch"
  | .re => "re"
  | .im => "im"
  | .phase => "phase"
  | .conjugate => "conjugate"
  | .reciprocal => "reciprocal"
  | .toDeg => "todeg"
  | .toRad => "torad"
  | .toGrad => "tograd"
  | .toNumber => "tonumber"
  | .toBin => "tobin"
  | .toOct => "tooct"
  | .toHex => "tohex"
  | .transpose => "transpose"
  | .det => "det"
  | .inverse => "inverse"

/-- The operation with the name given. -/
def ofName? (s : String) : Option UnaryOp := all.find? (·.name == s)

/-- Whether the operation is written as a call, `name(x)`. -/
def isFunction : UnaryOp → Bool
  | .negate | .factorial | .not => false
  | _ => true

/-- Whether the operation is one of the six functions of an angle. -/
def isTrigonometric : UnaryOp → Bool
  | .sin | .cos | .tan | .cot | .sec | .csc => true
  | _ => false

/-- Whether the operation gives the angle at which a function of an angle takes a value. -/
def isInverseTrigonometric : UnaryOp → Bool
  | .arcsin | .arccos | .arctan | .arccot | .arcsec | .arccsc => true
  | _ => false

/-- Whether the operation is a hyperbolic function or the inverse of one. -/
def isHyperbolic : UnaryOp → Bool
  | .sinh | .cosh | .tanh | .coth | .sech | .csch => true
  | .arsinh | .arcosh | .artanh | .arcoth | .arsech | .arcsch => true
  | _ => false

/-- The function that undoes this one, in the trigonometric, hyperbolic and exponential
families. -/
def inverse? : UnaryOp → Option UnaryOp
  | .sin => some .arcsin
  | .cos => some .arccos
  | .tan => some .arctan
  | .cot => some .arccot
  | .sec => some .arcsec
  | .csc => some .arccsc
  | .arcsin => some .sin
  | .arccos => some .cos
  | .arctan => some .tan
  | .arccot => some .cot
  | .arcsec => some .sec
  | .arccsc => some .csc
  | .sinh => some .arsinh
  | .cosh => some .arcosh
  | .tanh => some .artanh
  | .coth => some .arcoth
  | .sech => some .arsech
  | .csch => some .arcsch
  | .arsinh => some .sinh
  | .arcosh => some .cosh
  | .artanh => some .tanh
  | .arcoth => some .coth
  | .arsech => some .sech
  | .arcsch => some .csch
  | .exp => some .ln
  | .ln => some .exp
  | _ => none

/-- Undoing is mutual. -/
theorem inverse?_symm {f g : UnaryOp} (h : f.inverse? = some g) : g.inverse? = some f := by
  cases f <;> simp only [inverse?, Option.some.injEq, reduceCtorEq] at h <;> subst h <;> rfl

end UnaryOp

/-! ## Two operands -/

/-- An operator or function of two operands. -/
inductive BinaryOp where
  | add
  | sub
  | mul
  | div
  | pow
  | mod
  | root
  | log
  | round
  | less
  | lessEqual
  | greater
  | greaterEqual
  | equal
  | notEqual
  | bitAnd
  | bitOr
  | xor
  | nand
  | nor
  | implication
  | equivalence
  | and
  | or
  | dotProduct
  | crossProduct
deriving DecidableEq

namespace BinaryOp

/-- Every operation of two operands, in the order in which they are listed. -/
def all : List BinaryOp := [
    .add, .sub, .mul, .div, .pow, .mod, .root, .log, .round, .less, .lessEqual, .greater,
    .greaterEqual, .equal, .notEqual, .bitAnd, .bitOr, .xor, .nand, .nor, .implication,
    .equivalence, .and, .or, .dotProduct, .crossProduct]

/-- The symbol or name in formulas and messages. -/
def symbol : BinaryOp → String
  | .add => "+"
  | .sub => "-"
  | .mul => "*"
  | .div => "/"
  | .pow => "^"
  | .mod => "%"
  | .root => "root"
  | .log => "log"
  | .round => "round"
  | .less => "<"
  | .lessEqual => "<="
  | .greater => ">"
  | .greaterEqual => ">="
  | .equal => "=="
  | .notEqual => "!="
  | .bitAnd => "&"
  | .bitOr => "|"
  | .xor => "xor"
  | .nand => "nand"
  | .nor => "nor"
  | .implication => "->"
  | .equivalence => "<->"
  | .and => "&&"
  | .or => "||"
  | .dotProduct => "dotproduct"
  | .crossProduct => "crossproduct"

/-- The operation with the symbol given. -/
def ofSymbol? (s : String) : Option BinaryOp := all.find? (·.symbol == s)

/-- Whether the operation is written between its operands. -/
def isBetween : BinaryOp → Bool
  | .root | .log | .round | .dotProduct | .crossProduct => false
  | _ => true

/-- Whether the operation compares its operands. -/
def isRelational : BinaryOp → Bool
  | .less | .lessEqual | .greater | .greaterEqual | .equal | .notEqual => true
  | _ => false

/-- Whether the operation acts on the binary digits of integers or on truth values. -/
def isBitwise : BinaryOp → Bool
  | .bitAnd | .bitOr | .xor | .nand | .nor | .implication | .equivalence => true
  | _ => false

/-- Whether the operation joins two conditions. -/
def isConditional : BinaryOp → Bool
  | .and | .or => true
  | _ => false

end BinaryOp

/-! ## A list of operands -/

/-- A function of a list of operands. -/
inductive Aggregate where
  | gcd
  | lcm
  | min
  | max
  | avg
  | count
  | sum
  | product
  | stdev
  | stdevp
  | var
  | varp
deriving DecidableEq

namespace Aggregate

/-- Every aggregate, in the order in which they are listed. -/
def all : List Aggregate := [
    .gcd, .lcm, .min, .max, .avg, .count, .sum, .product, .stdev, .stdevp, .var, .varp]

/-- The name in formulas and messages. -/
def name : Aggregate → String
  | .gcd => "gcd"
  | .lcm => "lcm"
  | .min => "min"
  | .max => "max"
  | .avg => "avg"
  | .count => "count"
  | .sum => "sum"
  | .product => "product"
  | .stdev => "stdev"
  | .stdevp => "stdevp"
  | .var => "var"
  | .varp => "varp"

/-- The aggregate with the name given. -/
def ofName? (s : String) : Option Aggregate := all.find? (·.name == s)

/-- The least number of operands. -/
def minArgs : Aggregate → Nat
  | .gcd | .lcm => 2
  | _ => 1

end Aggregate

/-! ## Updates -/

/-- The operation by which an update combines the old value with the new one. -/
inductive UpdateOp where
  | add
  | sub
  | mul
  | div
deriving DecidableEq

namespace UpdateOp

/-- Every update, in the order in which they are listed. -/
def all : List UpdateOp := [.add, .sub, .mul, .div]

/-- The symbol in formulas and messages. -/
def symbol : UpdateOp → String
  | .add => "+="
  | .sub => "-="
  | .mul => "*="
  | .div => "/="

/-- The update with the symbol given. -/
def ofSymbol? (s : String) : Option UpdateOp := all.find? (·.symbol == s)

/-- The operation that the update applies. -/
def operation : UpdateOp → BinaryOp
  | .add => .add
  | .sub => .sub
  | .mul => .mul
  | .div => .div

end UpdateOp

end SymbolicAlgebra
