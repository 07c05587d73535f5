import SymbolicAlgebra.Simplify.Fold

set_option autoImplicit false

/-!
# Why an expression has no derivative

Differentiation fails for one of the causes of `DiffError`: the request has an empty argument, a
function is not in the table, a node has no derivative, the derivative cannot be simplified, or the
rows of a matrix have come to differ in length. The wording of a cause is `DiffError.message`.
-/

namespace SymbolicAlgebra

/-- The cause for which an expression cannot be differentiated. -/
inductive DiffError where
  /-- An argument of the request is empty. -/
  | missingArgument (name : String)
  /-- A call of a function that is not in the table. -/
  | unboundFunction (name : String) (arity : Nat)
  /-- A node that has no derivative. -/
  | notDifferentiable (node : String)
  /-- The derivative cannot be simplified. -/
  | simplify (cause : SimplifyError)
  /-- The rows of a matrix have come to differ in length. -/
  | shape (cause : ShapeError)
deriving DecidableEq

/-- The wording of the cause. -/
def DiffError.message : DiffError → String
  | .missingArgument name => "missing argument: " ++ name
  | .unboundFunction name arity =>
    "function '" ++ name ++ "' with " ++ toString arity ++
      " argument(s) has no registered body"
  | .notDifferentiable node => "'" ++ node ++ "' cannot be differentiated"
  | .simplify cause => cause.message
  | .shape cause => cause.message

end SymbolicAlgebra
