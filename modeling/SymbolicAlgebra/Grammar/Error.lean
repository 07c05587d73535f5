import SymbolicAlgebra.Expr.Shape

set_option autoImplicit false

/-!
# Why tokens form no expression

Tokens are refused for one of the causes of `ParseError`. A token that cannot stand where it stands
is named with its index, an end that comes too early with what is missing there (`Expectation`).
The other causes are faults of a call, a target or a matrix. The wording of a cause is
`ParseError.message`.
-/

namespace SymbolicAlgebra

/-- What is missing where the tokens end. -/
inductive Expectation where
  /-- An operand. -/
  | operand
  /-- The arguments of a call. -/
  | argumentList
  /-- The closing parenthesis of a group. -/
  | closeParen
  /-- A comma or the closing bracket of a list. -/
  | listEnd
deriving DecidableEq

/-- The wording of an expectation. -/
def Expectation.text : Expectation → String
  | .operand => "an operand"
  | .argumentList => "an argument list"
  | .closeParen => "')'"
  | .listEnd => "',' or a closing bracket"

/-- The cause for which tokens form no expression. -/
inductive ParseError where
  /-- There are no tokens. -/
  | emptyInput
  /-- A token that cannot stand where it stands. -/
  | unexpectedToken (found : String) (index : Nat)
  /-- The tokens end too early. -/
  | unexpectedEnd (expected : Expectation)
  /-- A function does not accept the number of arguments. -/
  | arityMismatch (name : String) (found : Nat)
  /-- The left side of a definition is neither a variable nor a function head. -/
  | invalidAssignmentTarget (found : String)
  /-- The operand of an update is no variable. -/
  | invalidUpdateTarget (operator : String) (found : String)
  /-- An argument that must be a variable is none. -/
  | expectedVariable (name : String) (position : Nat) (found : String)
  /-- The rows of a matrix differ in length. -/
  | shape (cause : ShapeError)
deriving DecidableEq

/-- The wording of the cause. -/
def ParseError.message : ParseError → String
  | .emptyInput => "empty expression"
  | .unexpectedToken found index =>
    "unexpected token '" ++ found ++ "' at index " ++ toString index
  | .unexpectedEnd expected => "unexpected end of input, expected " ++ expected.text
  | .arityMismatch name found =>
    "function '" ++ name ++ "' does not accept " ++ toString found ++ " argument(s)"
  | .invalidAssignmentTarget found =>
    "the left side of an assignment must be a variable or a function head, got '" ++
      found ++ "'"
  | .invalidUpdateTarget operator found =>
    "'" ++ operator ++ "' requires a variable operand, got '" ++ found ++ "'"
  | .expectedVariable name position found =>
    "'" ++ name ++ "' expects a variable at argument " ++ toString position ++ ", got '" ++
      found ++ "'"
  | .shape cause => cause.message

end SymbolicAlgebra
