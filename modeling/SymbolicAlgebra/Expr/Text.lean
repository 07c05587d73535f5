import SymbolicAlgebra.Expr

set_option autoImplicit false

/-!
# The text of an expression

An expression is written as formula text that reads back as an equal expression (`Expr.text`). An
operand is put in parentheses (`Expr.operandText`) unless it is atomic, that is, unless its own
text cannot fall apart next to an operator (`Expr.isAtomic`); negative, complex, fractional and
physical literals bring their own parentheses.

A vector of vector literals would be read as a matrix, so it is written with its name,
`vector{...}`; a matrix whose rows are not all vector literals is written `matrix{...}`.
-/

namespace SymbolicAlgebra

/-- The text of a complex literal, in parentheses. -/
def ComplexNumber.text {R : Type} [Scalar R] (z : ComplexNumber R) : String :=
  let sign := if Scalar.signBit z.im then "-" else "+"
  "(" ++ Scalar.text z.re ++ sign ++ Scalar.text (Scalar.abs z.im) ++ "i)"

namespace Expr

variable {R : Type} [Scalar R]

/-- Whether the text stands as an operand without parentheses. -/
def isAtomic : Expr R → Bool
  | .unary op _ => op.isFunction
  | .binary op _ _ => !op.isBetween
  | .define _ _ | .increment _ | .decrement _ | .update _ _ _ => false
  | _ => true

/-- The text of an expression as an operand, given its own text. -/
def operandText (e : Expr R) (text : String) : String :=
  if e.isAtomic then text else "(" ++ text ++ ")"

/-- The text of a real literal. A negative literal has parentheses; a negative zero has
none. -/
def numberText (v : R) : String :=
  if Scalar.isNaN v then "NaN"
  else if Scalar.signBit v && !Scalar.isZero v then "(-" ++ Scalar.text (-v) ++ ")"
  else Scalar.text v

/-- Texts with commas between them. -/
def commaText (ts : List String) : String := String.intercalate ", " ts

/-- The text of a call. -/
def callText (name : String) (ts : List String) : String := name ++ "(" ++ commaText ts ++ ")"

/-- The text of a collection in braces, with a name before them. -/
def braceText (name : String) (ts : List String) : String :=
  name ++ "\x7b" ++ commaText ts ++ "\x7d"

/-- The text of an opposite, given the text of its operand. A bare literal behind the
sign would be read back as a negative literal. -/
def negationText (e : Expr R) (text : String) : String :=
  match e with
  | .number _ | .quantity _ => "-(" ++ text ++ ")"
  | _ => "-" ++ operandText e text

/-- Whether the elements of a vector would make it a matrix when read back. -/
def looksLikeMatrix (es : List (Expr R)) : Bool := es.any isVector

/-- Whether rows in bare braces read back as a matrix. -/
def readsAsMatrix (rows : List (Expr R)) : Bool := !rows.isEmpty && rows.all isVector

mutual
/-- The formula text of an expression. -/
def text : Expr R → String
  | .number v => numberText v
  | .truth b => if b then "true" else "false"
  | .complex z => z.text
  | .quantity q => "(" ++ q.text ++ ")"
  | .var x => x
  | .rational n d => "(" ++ operandText n (text n) ++ "//" ++ operandText d (text d) ++ ")"
  | .unary op e =>
    match op with
    | .negate => negationText e (text e)
    | .not => "~" ++ operandText e (text e)
    | .factorial => operandText e (text e) ++ "!"
    | _ => callText op.name [text e]
  | .binary op l r =>
    if op.isBetween then
      operandText l (text l) ++ " " ++ op.symbol ++ " " ++ operandText r (text r)
    else
      callText op.symbol [text l, text r]
  | .aggregate op args => callText op.name (texts args)
  | .vector es => braceText (if looksLikeMatrix es then "vector" else "") (texts es)
  | .matrix rows => braceText (if readsAsMatrix rows then "" else "matrix") (texts rows)
  | .call f args => callText f (texts args)
  | .define t v => operandText t (text t) ++ " := " ++ operandText v (text v)
  | .undefine t => callText "undef" [text t]
  | .ifThen c t => callText "if" [text c, text t]
  | .ifThenElse c t e => callText "if" [text c, text t, text e]
  | .forLoop i c s b => callText "for" [text i, text c, text s, text b]
  | .whileLoop c b => callText "while" [text c, text b]
  | .increment t => operandText t (text t) ++ "++"
  | .decrement t => operandText t (text t) ++ "--"
  | .update op t v =>
    operandText t (text t) ++ " " ++ op.symbol ++ " " ++ operandText v (text v)
  | .simplify e => callText "simplify" [text e]
  | .derivative e x => callText "derivative" [text e, x]
/-- The texts of a list of expressions. -/
def texts : List (Expr R) → List String
  | [] => []
  | e :: es => text e :: texts es
end

/-- The companion on lists maps the members to their texts. -/
theorem texts_eq_map (es : List (Expr R)) : texts es = es.map text := by
  induction es with
  | nil => rfl
  | cons e es ih => simp [texts, ih]

/-! ## The texts of nodes -/

theorem text_number (v : R) : (Expr.number v).text = numberText v := rfl

theorem text_truth (b : Bool) :
    (Expr.truth b : Expr R).text = if b then "true" else "false" := rfl

theorem text_complex (z : ComplexNumber R) : (Expr.complex z).text = z.text := rfl

theorem text_quantity (q : Quantity R) :
    (Expr.quantity q).text = "(" ++ q.text ++ ")" := rfl

theorem text_var (x : String) : (Expr.var x : Expr R).text = x := rfl

theorem text_rational (n d : Expr R) :
    (Expr.rational n d).text =
      "(" ++ operandText n n.text ++ "//" ++ operandText d d.text ++ ")" := rfl

theorem text_negate (e : Expr R) :
    (Expr.unary .negate e).text = negationText e e.text := rfl

theorem text_not (e : Expr R) :
    (Expr.unary .not e).text = "~" ++ operandText e e.text := rfl

theorem text_factorial (e : Expr R) :
    (Expr.unary .factorial e).text = operandText e e.text ++ "!" := rfl

theorem text_function {op : UnaryOp} (h : op.isFunction = true) (e : Expr R) :
    (Expr.unary op e).text = callText op.name ([e].map text) := by
  cases op <;> first | rfl | cases h

theorem text_between {op : BinaryOp} (h : op.isBetween = true) (l r : Expr R) :
    (Expr.binary op l r).text =
      operandText l l.text ++ " " ++ op.symbol ++ " " ++ operandText r r.text :=
  if_pos h

theorem text_binary_function {op : BinaryOp} (h : op.isBetween = false) (l r : Expr R) :
    (Expr.binary op l r).text = callText op.symbol ([l, r].map text) :=
  if_neg (by simp [h])

theorem text_aggregate (op : Aggregate) (es : List (Expr R)) :
    (Expr.aggregate op es).text = callText op.name (es.map text) :=
  congrArg (callText op.name) (texts_eq_map es)

theorem text_call (f : String) (es : List (Expr R)) :
    (Expr.call f es).text = callText f (es.map text) :=
  congrArg (callText f) (texts_eq_map es)

theorem text_vector (es : List (Expr R)) :
    (Expr.vector es).text =
      braceText (if looksLikeMatrix es then "vector" else "") (es.map text) :=
  congrArg (braceText _) (texts_eq_map es)

theorem text_matrix (rows : List (Expr R)) :
    (Expr.matrix rows).text =
      braceText (if readsAsMatrix rows then "" else "matrix") (rows.map text) :=
  congrArg (braceText _) (texts_eq_map rows)

theorem text_define (t v : Expr R) :
    (Expr.define t v).text = operandText t t.text ++ " := " ++ operandText v v.text := rfl

theorem text_undefine (t : Expr R) :
    (Expr.undefine t).text = callText "undef" ([t].map text) := rfl

theorem text_increment (t : Expr R) :
    (Expr.increment t).text = operandText t t.text ++ "++" := rfl

theorem text_decrement (t : Expr R) :
    (Expr.decrement t).text = operandText t t.text ++ "--" := rfl

theorem text_update (op : UpdateOp) (t v : Expr R) :
    (Expr.update op t v).text =
      operandText t t.text ++ " " ++ op.symbol ++ " " ++ operandText v v.text := rfl

theorem text_derivative (e : Expr R) (x : String) :
    (Expr.derivative e x).text = callText "derivative" ([e, .var x].map text) := rfl

end Expr

end SymbolicAlgebra
