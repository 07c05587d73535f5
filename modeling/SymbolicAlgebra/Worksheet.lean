import SymbolicAlgebra.Derivative
import SymbolicAlgebra.Grammar.Parse
import SymbolicAlgebra.Typing.Infer

set_option autoImplicit false

/-!
# Worksheets

A worksheet (`Worksheet R`) holds the text of one formula together with the parameters and
functions that it refers to, and runs every analysis of the library on it: `Worksheet.tokens`,
`Worksheet.expr`, `Worksheet.resultType`, `Worksheet.simplified` and `Worksheet.derivativeBy`. Each
run starts from the text, so the cause of a failure may come from any stage (`Failure`).
-/

namespace SymbolicAlgebra

/-- The cause for which an analysis of a formula fails. -/
inductive Failure where
  /-- The text has no tokens. -/
  | lex (cause : LexError)
  /-- The tokens form no expression. -/
  | parse (cause : ParseError)
  /-- The expression has no type. -/
  | type (cause : TypeMismatch)
  /-- The expression cannot be simplified. -/
  | simplify (cause : SimplifyError)
  /-- The expression cannot be differentiated. -/
  | derivative (cause : DiffError)
deriving DecidableEq

/-- The wording of the cause. -/
def Failure.message : Failure → String
  | .lex cause => cause.message
  | .parse cause => cause.message
  | .type cause => cause.message
  | .simplify cause => cause.message
  | .derivative cause => cause.message

/-- A failure to read a formula is a failure of its analysis. -/
def Failure.ofRead : ReadError → Failure
  | .lex cause => .lex cause
  | .parse cause => .parse cause

/-- The message of a failure to read is the message of its cause. -/
@[simp] theorem Failure.message_ofRead (e : ReadError) : (ofRead e).message = e.message := by
  cases e <;> rfl

/-- A formula with the tables it refers to. -/
structure Worksheet (R : Type) where
  /-- The text of the formula. -/
  formula : String
  /-- The values of variables, for the types. -/
  parameters : Parameters R
  /-- The functions that may be called. -/
  functions : FunctionTable R
  /-- Whether derivatives are simplified. -/
  simplifies : Bool

namespace Worksheet

variable {R : Type}

/-! ## Filling a worksheet -/

/-- The worksheet of a formula alone. -/
def ofFormula (formula : String) : Worksheet R := ⟨formula, .empty, .empty, false⟩

/-- Adds parameters; the new value of a name wins. -/
def addParameters (w : Worksheet R) (P : Parameters R) : Worksheet R :=
  { w with parameters := w.parameters.merge P }

/-- Adds functions; the new function of a name and number of arguments wins. -/
def addFunctions (w : Worksheet R) (users : FunctionTable R) : Worksheet R :=
  { w with functions := w.functions.merge users }

/-- Says whether derivatives are simplified. -/
def simplifying (w : Worksheet R) (enabled : Bool) : Worksheet R :=
  { w with simplifies := enabled }

/-! ## Running the analyses -/

variable [Scalar R]

/-- The tokens of the formula. -/
def tokens (w : Worksheet R) : Except Failure (List (Token R)) :=
  (tokenize w.formula).mapError .lex

/-- The expression that the formula stands for. -/
def expr (w : Worksheet R) : Except Failure (Expr R) :=
  (parseText w.functions w.formula).mapError .ofRead

/-- The type of the formula. -/
def resultType (w : Worksheet R) : Except Failure ResultType := do
  (← w.expr).resultType w.parameters |>.mapError .type

/-- The simplified form of the formula. -/
def simplified (w : Worksheet R) : Except Failure (Expr R) := do
  (← w.expr).simplified |>.mapError .simplify

/-- The derivative of the formula by the variable `x`. -/
def derivativeBy (w : Worksheet R) (x : String) : Except Failure (Expr R) := do
  (← w.expr).differentiate w.functions w.simplifies x |>.mapError .derivative

end Worksheet

end SymbolicAlgebra
