set_option autoImplicit false

/-!
# Why a text has no tokens

A text may be refused before its grammar is looked at. Each cause (`LexError`) carries its place in
the text, counted in bytes, and `LexError.message` is the wording.
-/

namespace SymbolicAlgebra

/-- The cause for which a text has no tokens. -/
inductive LexError where
  /-- A character or operator that starts no token. -/
  | unknownSymbol (symbol : Char) (offset : Nat)
  /-- A bracket without its partner. -/
  | unbalancedBracket (bracket : Char) (offset : Nat)
  /-- A literal that is no number. -/
  | malformedNumber (text : String) (start stop : Nat)
  /-- A negation of truth values with nothing to negate. -/
  | missingNotOperand (offset : Nat)
  /-- An angle without a magnitude. -/
  | missingAngleMagnitude (offset : Nat)
  /-- An angle in degrees that no sum or difference gives a magnitude. -/
  | ambiguousPhase (offset : Nat)
deriving DecidableEq

/-- The wording of the cause. -/
def LexError.message : LexError → String
  | .unknownSymbol c p => "unknown symbol '" ++ c.toString ++ "' at " ++ toString p
  | .unbalancedBracket c p => "unbalanced bracket '" ++ c.toString ++ "' at " ++ toString p
  | .malformedNumber t s e =>
    "malformed number '" ++ t ++ "' at " ++ toString s ++ ".." ++ toString e
  | .missingNotOperand p => "operator 'not' at " ++ toString p ++ " has no operand"
  | .missingAngleMagnitude p =>
    "degree marker at " ++ toString p ++ " has no numeric magnitude"
  | .ambiguousPhase p =>
    "ambiguous phase-only literal at " ++ toString p ++
      ": expected 'm+a°', 'm-a°' or 'm∠a°'"

end SymbolicAlgebra
