import SymbolicAlgebra.Expr

set_option autoImplicit false

/-!
# Structural equality

Two expressions are the same (`Expr.same`) where they have the same shape, the same names and the
same literals. A literal that is no number is the same as itself, and zeros of either sign are
the same, so this is coarser than identity. Equality splits into equality of the two nodes apart
from their direct subexpressions (`Expr.sameLabel`) and equality of these (`same_eq`).
-/

namespace SymbolicAlgebra.Expr

variable {R : Type} [Scalar R]

mutual
/-- Structural equality of expressions. -/
def same : Expr R → Expr R → Bool
  | .number v, .number w => Scalar.same v w
  | .truth b, .truth c => b == c
  | .complex z, .complex w => ComplexNumber.same z w
  | .quantity p, .quantity q => Quantity.same p q
  | .var x, .var y => x == y
  | .rational n d, .rational n' d' => same n n' && same d d'
  | .unary op e, .unary op' e' => op = op' && same e e'
  | .binary op l r, .binary op' l' r' => op = op' && (same l l' && same r r')
  | .aggregate op args, .aggregate op' args' => op = op' && sameList args args'
  | .vector es, .vector es' => sameList es es'
  | .matrix rows, .matrix rows' => sameList rows rows'
  | .call f args, .call f' args' => f == f' && sameList args args'
  | .define t v, .define t' v' => same t t' && same v v'
  | .undefine t, .undefine t' => same t t'
  | .ifThen c t, .ifThen c' t' => same c c' && same t t'
  | .ifThenElse c t e, .ifThenElse c' t' e' => same c c' && (same t t' && same e e')
  | .forLoop i c s b, .forLoop i' c' s' b' =>
    same i i' && (same c c' && (same s s' && same b b'))
  | .whileLoop c b, .whileLoop c' b' => same c c' && same b b'
  | .increment t, .increment t' => same t t'
  | .decrement t, .decrement t' => same t t'
  | .update op t v, .update op' t' v' => op = op' && (same t t' && same v v')
  | .simplify e, .simplify e' => same e e'
  | .derivative e x, .derivative e' x' => x == x' && same e e'
  | _, _ => false
/-- Structural equality of lists of expressions, member by member. -/
def sameList : List (Expr R) → List (Expr R) → Bool
  | [], [] => true
  | e :: es, e' :: es' => same e e' && sameList es es'
  | _, _ => false
end

/-- Equality of two nodes apart from their direct subexpressions. -/
def sameLabel : Expr R → Expr R → Bool
  | .number v, .number w => Scalar.same v w
  | .truth b, .truth c => b == c
  | .complex z, .complex w => ComplexNumber.same z w
  | .quantity p, .quantity q => Quantity.same p q
  | .var x, .var y => x == y
  | .unary op _, .unary op' _ => op = op'
  | .binary op _ _, .binary op' _ _ => op = op'
  | .aggregate op _, .aggregate op' _ => op = op'
  | .call f _, .call f' _ => f == f'
  | .update op _ _, .update op' _ _ => op = op'
  | .derivative _ x, .derivative _ x' => x == x'
  | .rational _ _, .rational _ _ | .vector _, .vector _ | .matrix _, .matrix _
  | .define _ _, .define _ _ | .undefine _, .undefine _ | .ifThen _ _, .ifThen _ _
  | .ifThenElse _ _ _, .ifThenElse _ _ _ | .forLoop _ _ _ _, .forLoop _ _ _ _
  | .whileLoop _ _, .whileLoop _ _ | .increment _, .increment _
  | .decrement _, .decrement _ | .simplify _, .simplify _ => true
  | _, _ => false

/-- Two expressions are the same where their labels and their direct subexpressions
are. -/
theorem same_eq (e e' : Expr R) :
    same e e' = (sameLabel e e' && sameList e.children e'.children) := by
  cases e <;> cases e' <;> first | rfl | simp [same, sameLabel, sameList, children]

end SymbolicAlgebra.Expr
