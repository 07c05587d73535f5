import SymbolicAlgebra.Constant
import SymbolicAlgebra.Simplify.Fold

set_option autoImplicit false

/-!
# The rules of simplification

A rule looks at one node whose direct subexpressions are simplified already and gives the
expression that takes its place, or nothing where it does not apply. The rules of an
operation stand in a table and the first that applies is taken (`firstMatch`).

The tables hold, besides the folding of literals:

- *identities*, such as `x + 0`, `x * 1`, `x / x` and `x ^ 0`;
- *signs*: `-a + b` becomes `b - a`, `a - -b` becomes `a + b`, `-1 * x` becomes `-x`;
- *order*: a literal factor comes first;
- *regrouping*: a literal joins the literal of an inner sum or product;
- *like terms*: `c * x + d * x` becomes `(c + d) * x`;
- *inverses*: a function of the function that undoes it.

`reduce?` applies the rules to any node.
-/

namespace SymbolicAlgebra.Rule

open Fold (Outcome divide)

variable {R : Type} [Scalar R]

/-! ## One operand -/

/-- A sign before a literal becomes part of it. -/
def negateLiteral? : Expr R → Option (Expr R)
  | .number v => some (.number (-v))
  | .complex z => some (.complex z.neg)
  | .quantity q => some (.quantity q.neg)
  | _ => none

omit [Scalar R] in
/-- The operand of an opposite. -/
def negated? : Expr R → Option (Expr R)
  | .unary .negate e => some e
  | _ => none

omit [Scalar R] in
/-- The operand of the function that undoes `op`. -/
def undone? (op : UnaryOp) : Expr R → Option (Expr R)
  | .unary inner e => if op.inverse? = some inner then some e else none
  | _ => none

/-- The logarithm of the base itself. -/
def logOfBase? (op : UnaryOp) (e : Expr R) : Option (Expr R) :=
  match op, e with
  | .ln, .var x => if x = eulerName then some .one else none
  | .lg, e => if e.isNumber 10 then some .one else none
  | .lb, e => if e.isNumber 2 then some .one else none
  | _, _ => none

/-- The rules of operations on one operand. -/
def unary? (op : UnaryOp) (e : Expr R) : Option (Expr R) :=
  match op, e with
  | .negate, e => (negateLiteral? e).or (negated? e)
  | .not, .truth b => some (.truth !b)
  | op, e => (undone? op e).or (logOfBase? op e)

/-! ## Tables of rules for two operands -/

/-- A rule for the two operands of an operation. -/
abbrev Binary (R : Type) := Expr R → Expr R → Outcome R

/-- A rule that never fails. -/
def always (f : Expr R → Expr R → Option (Expr R)) : Binary R := fun l r => .ok (f l r)

omit [Scalar R] in
/-- The first rule of a table that applies, or the first that fails. -/
def firstMatch : List (Binary R) → Binary R
  | [], _, _ => .ok none
  | rule :: rules, l, r =>
    match rule l r with
    | .error x => .error x
    | .ok (some e) => .ok (some e)
    | .ok none => firstMatch rules l r

/-- The node `f e` if the condition holds. -/
def exprIf (condition : Bool) (e : Expr R) : Option (Expr R) :=
  if condition then some e else none

/-- A real literal below zero. -/
def negativeLiteral? : Expr R → Option R
  | .number v => if Scalar.isNeg v then some v else none
  | _ => none

/-- The literal factor in front of a product and what it multiplies; one in front of
anything else. -/
def coefficient : Expr R → R × Expr R
  | .binary .mul (.number c) x => (c, x)
  | e => (1, e)

/-- A literal operand of a node: the operation, the literal, the other operand, and
whether the literal comes first. -/
structure WithLiteral (R : Type) where
  /-- The operation. -/
  op : BinaryOp
  /-- The literal. -/
  literal : R
  /-- The other operand. -/
  other : Expr R
  /-- Whether the literal is the first operand. -/
  first : Bool

omit [Scalar R] in
/-- The literal operand of a node that has exactly one real literal for an operand. -/
def withLiteral? : Expr R → Option (WithLiteral R)
  | .binary op l r =>
    match l.asNumber?, r.asNumber? with
    | some c, none => some ⟨op, c, r, true⟩
    | none, some c => some ⟨op, c, l, false⟩
    | _, _ => none
  | _ => none

/-! ## Sums -/

/-- `x + 0` is `x`. -/
def plusZero (l r : Expr R) : Option (Expr R) := exprIf (r.isNumber 0) l

/-- `0 + x` is `x`. -/
def zeroPlus (l r : Expr R) : Option (Expr R) := exprIf (l.isNumber 0) r

omit [Scalar R] in
/-- `-a + b` is `b - a`. -/
def oppositePlus (l r : Expr R) : Option (Expr R) := (negated? l).map fun a => .sub r a

omit [Scalar R] in
/-- `a + -b` is `a - b`. -/
def plusOpposite (l r : Expr R) : Option (Expr R) := (negated? r).map fun b => .sub l b

/-- The sum with a negative literal behind is a difference. -/
def plusNegative (l r : Expr R) : Option (Expr R) :=
  (negativeLiteral? r).map fun v => .sub l (.number (-v))

/-- The sum with a negative literal in front is a difference. -/
def negativePlus (l r : Expr R) : Option (Expr R) :=
  (negativeLiteral? l).map fun v => .sub r (.number (-v))

/-- Terms that differ in their literal factors only, joined by an operation on these. -/
def likeTerms (f : R → R → R) (l r : Expr R) : Option (Expr R) :=
  let (c, x) := coefficient l
  let (d, y) := coefficient r
  exprIf (x.same y && !x.isScalarLiteral) (.mul (.number (f c d)) x)

/-- The sum of a literal `d` and a sum or difference with a literal. -/
def regroupSum (d : R) (inner : WithLiteral R) : Option (Expr R) :=
  match inner.op, inner.first with
  | .add, _ => some (.add inner.other (.number (inner.literal + d)))
  | .sub, false => some (.add inner.other (.number (d - inner.literal)))
  | .sub, true => some (.sub (.number (inner.literal + d)) inner.other)
  | _, _ => none

/-- A literal in a sum joins the literal of an inner sum or difference. -/
def sumOfLiteral (l r : Expr R) : Option (Expr R) :=
  match l.asNumber?, r.asNumber? with
  | none, some d => (withLiteral? l).bind (regroupSum d)
  | some d, none => (withLiteral? r).bind (regroupSum d)
  | _, _ => none

/-- The rules of sums. -/
def sumRules : List (Binary R) :=
  [always plusZero, always zeroPlus, always oppositePlus, always plusOpposite,
    always plusNegative, always negativePlus, always (likeTerms (· + ·)),
    always sumOfLiteral]

/-! ## Differences -/

/-- `x - x` is zero. -/
def minusItself (l r : Expr R) : Option (Expr R) := exprIf (l.same r) .zero

omit [Scalar R] in
/-- `a - -b` is `a + b`. -/
def minusOpposite (l r : Expr R) : Option (Expr R) := (negated? r).map fun b => .add l b

/-- `0 - x` is `-x`. -/
def zeroMinus (l r : Expr R) : Option (Expr R) := exprIf (l.isNumber 0) (.neg r)

/-- The difference with a negative literal behind is a sum. -/
def minusNegative (l r : Expr R) : Option (Expr R) :=
  (negativeLiteral? r).map fun v => .add l (.number (-v))

/-- The difference of a sum or difference with a literal and a literal `d`. -/
def regroupMinus (d : R) (inner : WithLiteral R) : Option (Expr R) :=
  match inner.op, inner.first with
  | .add, _ => some (.add inner.other (.number (inner.literal - d)))
  | .sub, false => some (.sub inner.other (.number (inner.literal + d)))
  | .sub, true => some (.sub (.number (inner.literal - d)) inner.other)
  | _, _ => none

/-- A literal behind a difference joins the literal of an inner sum or difference. -/
def minusLiteral (l r : Expr R) : Option (Expr R) :=
  match r.asNumber? with
  | some d => (withLiteral? l).bind (regroupMinus d)
  | none => none

/-- The difference of a literal `d` and a sum or difference with a literal. -/
def regroupFrom (d : R) (inner : WithLiteral R) : Option (Expr R) :=
  match inner.op, inner.first with
  | .add, _ => some (.sub (.number (d - inner.literal)) inner.other)
  | .sub, false => some (.sub (.number (d + inner.literal)) inner.other)
  | .sub, true => some (.add inner.other (.number (d - inner.literal)))
  | _, _ => none

/-- A literal in front of a difference joins the literal of an inner sum or difference. -/
def literalMinus (l r : Expr R) : Option (Expr R) :=
  match l.asNumber? with
  | some d => (withLiteral? r).bind (regroupFrom d)
  | none => none

/-- The rules of differences. -/
def differenceRules : List (Binary R) :=
  [always plusZero, always minusItself, always minusOpposite, always zeroMinus,
    always minusNegative, always (likeTerms (· - ·)), always minusLiteral,
    always literalMinus]

/-! ## Products -/

/-- A product with zero is zero. -/
def timesZero (l r : Expr R) : Option (Expr R) :=
  exprIf (l.isNumber 0 || r.isNumber 0) .zero

/-- `x * 1` is `x`; so is `x / 1`. -/
def byOne (l r : Expr R) : Option (Expr R) := exprIf (r.isNumber 1) l

/-- `1 * x` is `x`. -/
def oneTimes (l r : Expr R) : Option (Expr R) := exprIf (l.isNumber 1) r

omit [Scalar R] in
/-- Two opposites lose their signs under the operation. -/
def bothOpposite (op : BinaryOp) (l r : Expr R) : Option (Expr R) :=
  match negated? l, negated? r with
  | some a, some b => some (.binary op a b)
  | _, _ => none

/-- `-1 * x` is `-x`. -/
def minusOneTimes (l r : Expr R) : Option (Expr R) := exprIf (l.isNumber (-1)) (.neg r)

/-- A literal factor comes first. -/
def literalFirst (l r : Expr R) : Option (Expr R) :=
  exprIf (r.isScalarLiteral && !l.isScalarLiteral) (.mul r l)

/-- The product of a literal `c` and a product or quotient with a literal. -/
def regroupTimes (c : R) (inner : WithLiteral R) : Outcome R :=
  match inner.op, inner.first with
  | .mul, _ => .ok (some (.mul (.number (c * inner.literal)) inner.other))
  | .div, false => (divide c inner.literal).map fun v => some (.mul (.number v) inner.other)
  | .div, true => .ok (some (.div (.number (c * inner.literal)) inner.other))
  | _, _ => .ok none

/-- A literal in front of a product joins the literal of an inner product or quotient. -/
def literalTimes : Binary R := fun l r =>
  match l.asNumber?, withLiteral? r with
  | some c, some inner => regroupTimes c inner
  | _, _ => .ok none

/-- The rules of products. -/
def productRules : List (Binary R) :=
  [always timesZero, always byOne, always oneTimes, always (bothOpposite .mul),
    always minusOneTimes, always literalFirst, literalTimes]

/-! ## Quotients -/

/-- Whether the expression is a real or complex literal that is zero. -/
def isZeroLiteral : Expr R → Bool
  | .number v => Scalar.isZero v
  | .complex z => z.isZero
  | _ => false

/-- A quotient over zero is an error. -/
def overZero : Binary R := fun _ r =>
  if isZeroLiteral r then .error .divideByZero else .ok none

/-- `0 / x` is zero. -/
def zeroOver (l _r : Expr R) : Option (Expr R) := exprIf (l.isNumber 0) .zero

/-- `x / x` is one; so is the logarithm of `x` to the base `x`. -/
def overItself (l r : Expr R) : Option (Expr R) := exprIf (l.same r) .one

/-- The quotient of a product or quotient with a literal and a literal `d`. -/
def regroupOver (d : R) (inner : WithLiteral R) : Outcome R :=
  match inner.op, inner.first with
  | .mul, _ => (divide inner.literal d).map fun v => some (.mul (.number v) inner.other)
  | .div, false => .ok (some (.div inner.other (.number (inner.literal * d))))
  | .div, true => (divide inner.literal d).map fun v => some (.div (.number v) inner.other)
  | _, _ => .ok none

/-- A literal divisor joins the literal of an inner product or quotient. -/
def overLiteral : Binary R := fun l r =>
  match r.asNumber?, withLiteral? l with
  | some d, some inner => regroupOver d inner
  | _, _ => .ok none

/-- The quotient of a literal `c` and a product or quotient with a literal. -/
def regroupUnder (c : R) (inner : WithLiteral R) : Outcome R :=
  match inner.op, inner.first with
  | .mul, _ => (divide c inner.literal).map fun v => some (.div (.number v) inner.other)
  | .div, false => .ok (some (.div (.number (c * inner.literal)) inner.other))
  | .div, true => (divide c inner.literal).map fun v => some (.mul (.number v) inner.other)
  | _, _ => .ok none

/-- A literal dividend joins the literal of an inner product or quotient. -/
def literalOver : Binary R := fun l r =>
  match l.asNumber?, withLiteral? r with
  | some c, some inner => regroupUnder c inner
  | _, _ => .ok none

/-- The rules of quotients. -/
def quotientRules : List (Binary R) :=
  [overZero, always byOne, always zeroOver, always overItself,
    always (bothOpposite .div), overLiteral, literalOver]

/-! ## Powers, roots and logarithms -/

/-- `x ^ 0` is one. -/
def toZero (_l r : Expr R) : Option (Expr R) := exprIf (r.isNumber 0) .one

/-- `1 ^ x` is one. -/
def oneTo (l _r : Expr R) : Option (Expr R) := exprIf (l.isNumber 1) .one

/-- The rules of powers. -/
def powerRules : List (Binary R) := [always toZero, always byOne, always oneTo]

/-- The rules of an operation on two operands, apart from folding. -/
def rules : BinaryOp → List (Binary R)
  | .add => sumRules
  | .sub => differenceRules
  | .mul => productRules
  | .div => quotientRules
  | .pow => powerRules
  | .root => [always byOne]
  | .log => [always overItself]
  | _ => []

/-- Folding comes before the rules of the operation. -/
def binary? (op : BinaryOp) : Binary R := firstMatch (Fold.literals? op :: rules op)

/-! ## All nodes -/

/-- The expression that takes the place of a node whose direct subexpressions are
simplified, if a rule applies. -/
def reduce? : Expr R → Outcome R
  | .simplify e => .ok (some e)
  | .unary op e => .ok (unary? op e)
  | .binary op l r => binary? op l r
  | .aggregate op args => .ok (Fold.aggregate? op args)
  | _ => .ok none

end SymbolicAlgebra.Rule
