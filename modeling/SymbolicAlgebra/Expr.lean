import SymbolicAlgebra.Scalar.Complex
import SymbolicAlgebra.Quantity
import SymbolicAlgebra.Operation

set_option autoImplicit false

/-!
# Expressions

An expression is a tree over an arbitrary type of scalars. Its leaves are literals,
variables and quantities; its inner nodes are operations, collections, calls of functions
that are not built in, definitions, control constructs, updates, and the two
meta-expressions `simplify(e)` and `derivative(e, x)`.

What this module delivers:

- `Expr R` and the constructors that the rest of the library writes most often.
- The uniform view of a node: `Expr.children` lists its direct subexpressions and
  `Expr.withChildren` puts others in their place. `children_withChildren` and
  `withChildren_children` tie the two together.
- `Expr.induction`, induction on the direct subexpressions.
- `Expr.size`, `Expr.depth` and `Expr.containsVar`, each defined through a companion on
  lists so that the recursion is structural, each with an equation through `children`.
-/

namespace SymbolicAlgebra

/-- An expression over the scalars `R`. -/
inductive Expr (R : Type) where
  /-- A real literal. -/
  | number (value : R)
  /-- A truth value. -/
  | truth (value : Bool)
  /-- A complex literal. -/
  | complex (value : ComplexNumber R)
  /-- A magnitude with a unit. -/
  | quantity (value : Quantity R)
  /-- A variable or named constant. -/
  | var (name : String)
  /-- A fraction `numerator // denominator`. -/
  | rational (numerator denominator : Expr R)
  /-- An operation on one operand. -/
  | unary (op : UnaryOp) (operand : Expr R)
  /-- An operation on two operands. -/
  | binary (op : BinaryOp) (left right : Expr R)
  /-- A function of a list of operands. -/
  | aggregate (op : Aggregate) (args : List (Expr R))
  /-- A sequence of elements. -/
  | vector (elements : List (Expr R))
  /-- A sequence of rows. -/
  | matrix (rows : List (Expr R))
  /-- A call of a function that is not built in. -/
  | call (name : String) (args : List (Expr R))
  /-- The definition `target := value` of a variable or of a function head. -/
  | define (target value : Expr R)
  /-- The removal of a definition. -/
  | undefine (target : Expr R)
  /-- A condition with one branch. -/
  | ifThen (condition consequent : Expr R)
  /-- A condition with two branches. -/
  | ifThenElse (condition consequent alternative : Expr R)
  /-- A counting loop. -/
  | forLoop (start condition step body : Expr R)
  /-- A conditional loop. -/
  | whileLoop (condition body : Expr R)
  /-- The update `target++`. -/
  | increment (target : Expr R)
  /-- The update `target--`. -/
  | decrement (target : Expr R)
  /-- A compound assignment. -/
  | update (op : UpdateOp) (target value : Expr R)
  /-- The simplified form of an expression. -/
  | simplify (operand : Expr R)
  /-- The derivative of an expression by the variable named. -/
  | derivative (operand : Expr R) (name : String)

namespace Expr

variable {R : Type}

/-! ## Short constructors -/

/-- The sum of two expressions. -/
abbrev add (l r : Expr R) : Expr R := .binary .add l r

/-- The difference of two expressions. -/
abbrev sub (l r : Expr R) : Expr R := .binary .sub l r

/-- The product of two expressions. -/
abbrev mul (l r : Expr R) : Expr R := .binary .mul l r

/-- The quotient of two expressions. -/
abbrev div (l r : Expr R) : Expr R := .binary .div l r

/-- The power of two expressions. -/
abbrev pow (l r : Expr R) : Expr R := .binary .pow l r

/-- The opposite of an expression. -/
abbrev neg (e : Expr R) : Expr R := .unary .negate e

/-- The literal zero. -/
abbrev zero [Scalar R] : Expr R := .number 0

/-- The literal one. -/
abbrev one [Scalar R] : Expr R := .number 1

/-- The literal two. -/
abbrev two [Scalar R] : Expr R := .number 2

/-! ## Recognisers -/

/-- The value of a real literal. -/
def asNumber? : Expr R → Option R
  | .number v => some v
  | _ => none

/-- Whether the expression is a real literal equal to the scalar. -/
def isNumber [Scalar R] (e : Expr R) (v : R) : Bool :=
  match e with
  | .number w => Scalar.eqv w v
  | _ => false

/-- Whether the expression is a variable. -/
def isVar : Expr R → Bool
  | .var _ => true
  | _ => false

theorem isVar_iff {e : Expr R} : e.isVar = true ↔ ∃ x, e = .var x := by
  cases e <;> simp [isVar]

/-- Whether the expression is a real or complex literal. -/
def isScalarLiteral : Expr R → Bool
  | .number _ | .complex _ => true
  | _ => false

/-- The elements of a vector literal. -/
def asVector? : Expr R → Option (List (Expr R))
  | .vector es => some es
  | _ => none

/-- Whether the expression is a vector literal. -/
def isVector : Expr R → Bool
  | .vector _ => true
  | _ => false

/-! ## The uniform view of a node -/

/-- The direct subexpressions, in the order in which they are written. -/
def children : Expr R → List (Expr R)
  | .number _ | .truth _ | .complex _ | .quantity _ | .var _ => []
  | .rational n d => [n, d]
  | .unary _ e | .undefine e | .increment e | .decrement e | .simplify e
  | .derivative e _ => [e]
  | .binary _ l r => [l, r]
  | .aggregate _ args | .call _ args => args
  | .vector es => es
  | .matrix rows => rows
  | .define t v | .update _ t v => [t, v]
  | .ifThen c t => [c, t]
  | .ifThenElse c t e => [c, t, e]
  | .forLoop i c s b => [i, c, s, b]
  | .whileLoop c b => [c, b]

/-- The node with other direct subexpressions. A list of another length than
`children` leaves a node with a fixed number of them as it is. -/
def withChildren : Expr R → List (Expr R) → Expr R
  | .rational _ _, [n, d] => .rational n d
  | .unary op _, [e] => .unary op e
  | .undefine _, [e] => .undefine e
  | .increment _, [e] => .increment e
  | .decrement _, [e] => .decrement e
  | .simplify _, [e] => .simplify e
  | .derivative _ x, [e] => .derivative e x
  | .binary op _ _, [l, r] => .binary op l r
  | .aggregate op _, args => .aggregate op args
  | .call f _, args => .call f args
  | .vector _, es => .vector es
  | .matrix _, rows => .matrix rows
  | .define _ _, [t, v] => .define t v
  | .update op _ _, [t, v] => .update op t v
  | .ifThen _ _, [c, t] => .ifThen c t
  | .ifThenElse _ _ _, [c, t, e] => .ifThenElse c t e
  | .forLoop _ _ _ _, [i, c, s, b] => .forLoop i c s b
  | .whileLoop _ _, [c, b] => .whileLoop c b
  | e, _ => e

/-- Putting back the direct subexpressions changes nothing. -/
@[simp] theorem withChildren_children (e : Expr R) : e.withChildren e.children = e := by
  cases e <;> rfl

/-- The direct subexpressions of a node are the ones put in place. -/
theorem children_withChildren (e : Expr R) {cs : List (Expr R)}
    (h : cs.length = e.children.length) : (e.withChildren cs).children = cs := by
  cases e <;> simp only [children, List.length_nil, List.length_cons] at h <;>
    first
    | rfl
    | (match cs, h with | [], _ => rfl)
    | (match cs, h with | [_], _ => rfl)
    | (match cs, h with | [_, _], _ => rfl)
    | (match cs, h with | [_, _, _], _ => rfl)
    | (match cs, h with | [_, _, _, _], _ => rfl)

/-- A direct subexpression is smaller in the built-in measure of trees. -/
theorem sizeOf_lt_of_mem_children {c e : Expr R} (h : c ∈ e.children) :
    sizeOf c < sizeOf e := by
  cases e <;> simp only [children, List.mem_cons, List.not_mem_nil, or_false] at h <;>
    first
    | (rcases h with rfl | rfl | rfl | rfl <;> simp <;> omega)
    | (have hm := List.sizeOf_lt_of_mem h; simp; omega)

/-- Induction on direct subexpressions: what holds of a node whenever it holds of its
direct subexpressions holds of every expression. -/
theorem induction {motive : Expr R → Prop}
    (step : ∀ e, (∀ c ∈ e.children, motive c) → motive e) (e : Expr R) : motive e :=
  step e fun c h =>
    have := sizeOf_lt_of_mem_children h
    induction step c
termination_by sizeOf e

/-! ## Size and depth -/

mutual
/-- The number of nodes. -/
def size : Expr R → Nat
  | .number _ | .truth _ | .complex _ | .quantity _ | .var _ => 1
  | .rational n d => 1 + (size n + size d)
  | .unary _ e | .undefine e | .increment e | .decrement e | .simplify e
  | .derivative e _ => 1 + size e
  | .binary _ l r => 1 + (size l + size r)
  | .aggregate _ args | .call _ args => 1 + sizeList args
  | .vector es => 1 + sizeList es
  | .matrix rows => 1 + sizeList rows
  | .define t v | .update _ t v => 1 + (size t + size v)
  | .ifThen c t => 1 + (size c + size t)
  | .ifThenElse c t e => 1 + (size c + (size t + size e))
  | .forLoop i c s b => 1 + (size i + (size c + (size s + size b)))
  | .whileLoop c b => 1 + (size c + size b)
/-- The number of nodes of a list of expressions. -/
def sizeList : List (Expr R) → Nat
  | [] => 0
  | e :: es => size e + sizeList es
end

mutual
/-- The number of nodes on the longest path from the root. -/
def depth : Expr R → Nat
  | .number _ | .truth _ | .complex _ | .quantity _ | .var _ => 1
  | .rational n d => 1 + max (depth n) (depth d)
  | .unary _ e | .undefine e | .increment e | .decrement e | .simplify e
  | .derivative e _ => 1 + depth e
  | .binary _ l r => 1 + max (depth l) (depth r)
  | .aggregate _ args | .call _ args => 1 + depthList args
  | .vector es => 1 + depthList es
  | .matrix rows => 1 + depthList rows
  | .define t v | .update _ t v => 1 + max (depth t) (depth v)
  | .ifThen c t => 1 + max (depth c) (depth t)
  | .ifThenElse c t e => 1 + max (depth c) (max (depth t) (depth e))
  | .forLoop i c s b => 1 + max (depth i) (max (depth c) (max (depth s) (depth b)))
  | .whileLoop c b => 1 + max (depth c) (depth b)
/-- The greatest depth in a list of expressions. -/
def depthList : List (Expr R) → Nat
  | [] => 0
  | e :: es => max (depth e) (depthList es)
end

/-! ## Occurrence of variables -/

mutual
/-- Whether the name occurs as a variable. The variable by which a derivative is taken
is no occurrence. -/
def containsVar (x : String) : Expr R → Bool
  | .number _ | .truth _ | .complex _ | .quantity _ => false
  | .var y => y == x
  | .rational n d => containsVar x n || containsVar x d
  | .unary _ e | .undefine e | .increment e | .decrement e | .simplify e
  | .derivative e _ => containsVar x e
  | .binary _ l r => containsVar x l || containsVar x r
  | .aggregate _ args | .call _ args => containsVarList x args
  | .vector es => containsVarList x es
  | .matrix rows => containsVarList x rows
  | .define t v | .update _ t v => containsVar x t || containsVar x v
  | .ifThen c t => containsVar x c || containsVar x t
  | .ifThenElse c t e => containsVar x c || (containsVar x t || containsVar x e)
  | .forLoop i c s b =>
    containsVar x i || (containsVar x c || (containsVar x s || containsVar x b))
  | .whileLoop c b => containsVar x c || containsVar x b
/-- Whether the name occurs as a variable in a list of expressions. -/
def containsVarList (x : String) : List (Expr R) → Bool
  | [] => false
  | e :: es => containsVar x e || containsVarList x es
end

/-- The companion on lists asks for some member. -/
theorem containsVarList_eq_any (x : String) (es : List (Expr R)) :
    containsVarList x es = es.any (containsVar x) := by
  induction es with
  | nil => rfl
  | cons e es ih => simp [containsVarList, ih]

/-- A node that is no variable contains the variables of its direct subexpressions. -/
theorem containsVar_eq_any {e : Expr R} (h : e.isVar = false) (x : String) :
    e.containsVar x = e.children.any (containsVar x) := by
  cases e <;> simp_all [containsVar, children, containsVarList_eq_any, isVar]

end Expr

end SymbolicAlgebra
