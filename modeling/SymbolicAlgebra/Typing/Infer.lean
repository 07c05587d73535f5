import SymbolicAlgebra.Constant
import SymbolicAlgebra.Expr
import SymbolicAlgebra.Typing.ResultType

set_option autoImplicit false

/-!
# The type of an expression

The type of an expression (`Expr.resultType`) is found from the types of its direct subexpressions,
from left to right. A variable has the type of its parameter value, else it is a number if it is a
named constant, else its type is undefined. An undefined operand makes an operation undefined and
is never an error; operands that do not fit are one (`TypeMismatch`).
-/

namespace SymbolicAlgebra

/-! ## Mismatches -/

/-- Operands that a node does not accept. -/
inductive TypeMismatch where
  /-- An operand of a type that the node does not accept. -/
  | operand (node : String) (found : ResultType)
  /-- Two operands of types that the node does not accept together. -/
  | operands (node : String) (left right : ResultType)
  /-- A member of a list that does not fit. Positions count from one. -/
  | member (node : String) (position : Nat) (found : ResultType)
deriving DecidableEq

/-- The wording of a mismatch. -/
def TypeMismatch.message : TypeMismatch → String
  | .operand node found =>
    "'" ++ node ++ "' does not accept an operand of type " ++ found.name
  | .operands node left right =>
    "'" ++ node ++ "' does not accept operands of types " ++ left.name ++ " and " ++ right.name
  | .member node position found =>
    "'" ++ node ++ "' argument " ++ toString position ++ " has type " ++ found.name ++
      ", which does not fit"

namespace Typing

/-- A type, or the mismatch that prevents it. -/
abbrev Outcome := Except TypeMismatch ResultType

/-! ## Nodes with a fixed number of operands -/

/-- The type of an operation on one operand. -/
def unaryOutcome (op : UnaryOp) (t : ResultType) : Outcome :=
  if t = .undefined then .ok .undefined
  else
    match op.resultType? t with
    | some r => .ok r
    | none => .error (.operand op.name t)

/-- The type of an operation on two operands. -/
def binaryOutcome (op : BinaryOp) (l r : ResultType) : Outcome :=
  if l = .undefined ∨ r = .undefined then .ok .undefined
  else
    match op.resultType? l r with
    | some t => .ok t
    | none => .error (.operands op.symbol l r)

/-- The type of a fraction. -/
def rationalOutcome (l r : ResultType) : Outcome :=
  if l = .undefined ∨ r = .undefined then .ok .undefined
  else if l = .number ∧ r = .number then .ok .rationalNumber
  else .error (.operands "//" l r)

/-- The type of a construct whose condition has the type given. -/
def conditionOutcome (node : String) (t : ResultType) : Outcome :=
  if t = .boolean ∨ t = .undefined then .ok .undefined else .error (.operand node t)

/-- The type of an update by a value of the type given. -/
def updateOutcome (node : String) (t : ResultType) : Outcome :=
  if t = .number ∨ t = .undefined then .ok .number else .error (.operand node t)

/-! ## Lists -/

/-- Checks that every member has an accepted type; the first member that has none decides.
The first position is given. -/
def checkMembers (node : String) (accepts : ResultType → Bool) :
    (position : Nat) → List Outcome → Except TypeMismatch Unit
  | _, [] => .ok ()
  | i, o :: os => do
    let t ← o
    if accepts t then checkMembers node accepts (i + 1) os else .error (.member node i t)

/-- Whether a vector may have an element of the type. -/
def isElementType (t : ResultType) : Bool :=
  t = .number || t = .complexNumber || t = .rationalNumber || t = .undefined || t.isQuantity

/-- Whether a matrix may have a row of the type. -/
def isRowType (t : ResultType) : Bool := t = .vector || t = .undefined

/-- The common type of the members that have one, apart from undefined members, and
whether there is an undefined member. The first member of another type decides. -/
def commonType (node : String) :
    (position : Nat) → (common : Option ResultType) → (undefined : Bool) → List Outcome →
      Except TypeMismatch (Option ResultType × Bool)
  | _, common, undefined, [] => .ok (common, undefined)
  | i, common, undefined, o :: os => do
    let t ← o
    if t = .undefined then commonType node (i + 1) common true os
    else
      match common with
      | none => commonType node (i + 1) (some t) undefined os
      | some t' =>
        if t' = t then commonType node (i + 1) common undefined os
        else .error (.member node i t)

/-- The type of an aggregate of a list of operands: of numbers, or of one vector. -/
def aggregateOutcome (op : Aggregate) (os : List Outcome) : Outcome := do
  let (common, undefined) ← commonType op.name 1 none false os
  let result : ResultType := if undefined then .undefined else .number
  match common with
  | none | some .number => .ok result
  | some .vector =>
    if os.length = 1 then .ok result else .error (.operand op.name .vector)
  | some t => .error (.operand op.name t)

end Typing

open Typing

namespace Expr

variable {R : Type}

/-- The type of a variable. -/
def varType (P : Parameters R) (x : String) : ResultType :=
  match P.get? x with
  | some v => v.resultType
  | none => if NamedConstant.isKnown x then .number else .undefined

mutual
/-- The type of an expression under the parameters given. -/
def resultType (P : Parameters R) : Expr R → Outcome
  | .number _ => .ok .number
  | .truth _ => .ok .boolean
  | .complex _ => .ok .complexNumber
  | .quantity q => .ok (.ofDimension q.unit.dimension)
  | .var x => .ok (varType P x)
  | .rational n d => do rationalOutcome (← resultType P n) (← resultType P d)
  | .unary op e => do unaryOutcome op (← resultType P e)
  | .binary op l r => do binaryOutcome op (← resultType P l) (← resultType P r)
  | .aggregate op args => aggregateOutcome op (resultTypes P args)
  | .vector es => do
    checkMembers "vector" isElementType 1 (resultTypes P es)
    return .vector
  | .matrix rows => do
    checkMembers "matrix" isRowType 1 (resultTypes P rows)
    return .matrix
  | .call f args => do
    checkMembers f (fun _ => true) 1 (resultTypes P args)
    return .undefined
  | .define _ v => do
    let _ ← resultType P v
    return .string
  | .undefine _ => .ok .string
  | .ifThen c t => do
    let r ← conditionOutcome "if" (← resultType P c)
    let _ ← resultType P t
    return r
  | .ifThenElse c t e => do
    let r ← conditionOutcome "if" (← resultType P c)
    let _ ← resultType P t
    let _ ← resultType P e
    return r
  | .forLoop i c s b => do
    let _ ← resultType P i
    let r ← conditionOutcome "for" (← resultType P c)
    let _ ← resultType P s
    let _ ← resultType P b
    return r
  | .whileLoop c b => do
    let r ← conditionOutcome "while" (← resultType P c)
    let _ ← resultType P b
    return r
  | .increment t => do updateOutcome "++" (← resultType P t)
  | .decrement t => do updateOutcome "--" (← resultType P t)
  | .update op _ v => do updateOutcome op.symbol (← resultType P v)
  | .simplify _ | .derivative _ _ => .ok .expression
/-- The types of the members of a list of expressions. -/
def resultTypes (P : Parameters R) : List (Expr R) → List Outcome
  | [] => []
  | e :: es => resultType P e :: resultTypes P es
end

/-- The companion on lists types every member. -/
theorem resultTypes_eq_map (P : Parameters R) (es : List (Expr R)) :
    resultTypes P es = es.map (resultType P) := by
  induction es with
  | nil => rfl
  | cons e es ih => simp [resultTypes, ih]

end Expr

end SymbolicAlgebra
