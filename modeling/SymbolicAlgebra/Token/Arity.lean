import SymbolicAlgebra.Token

set_option autoImplicit false

/-!
# The number of arguments of a call

The arguments of a call are what commas separate between its brackets; commas inside inner
brackets do not count (`Token.argumentCount`). Brackets with nothing between them hold no argument.
`Token.settleArities` writes the number into every call token.
-/

namespace SymbolicAlgebra.Token

variable {R : Type}

/-- The number of arguments of a group, from the tokens behind its opening bracket:
`depth` is the number of inner brackets still open, `commas` the number of commas passed
and `any` whether a token was passed. -/
def argumentCount : (depth commas : Nat) → (any : Bool) → List (Token R) → Nat
  | _, _, _, [] => 0
  | depth, commas, any, t :: ts =>
    match t with
    | .delimiter .comma =>
      argumentCount depth (if depth = 0 then commas + 1 else commas) true ts
    | .delimiter d =>
      if d.isOpen then argumentCount (depth + 1) commas true ts
      else if depth = 0 then (if any then commas + 1 else 0)
      else argumentCount (depth - 1) commas true ts
    | _ => argumentCount depth commas true ts

/-- The token, given the tokens behind it: a call gets its number of arguments. -/
def settleArity (ts : List (Token R)) : Token R → Token R
  | .call f _ => .call f (argumentCount 0 0 false ts.tail)
  | t => t

/-- Writes the number of arguments into every call. -/
def settleArities : List (Token R) → List (Token R)
  | [] => []
  | t :: ts => settleArity ts t :: settleArities ts

end SymbolicAlgebra.Token
