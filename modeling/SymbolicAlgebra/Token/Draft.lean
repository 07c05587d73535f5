import SymbolicAlgebra.Token
import SymbolicAlgebra.Token.Error

set_option autoImplicit false

/-!
# Drafts: the tokens read so far

While a text is read, later characters may still change the last tokens: a real literal
and the sign behind it are merged with an imaginary literal into one complex literal, and
with an angle in degrees into a literal given by magnitude and angle. This happens only at
the start of an expression, where no operator binds the real literal first.

A draft (`Draft R`) therefore keeps the tokens with their places, the last one first, and the
brackets still open, the innermost first. `Draft.mergeable?` is the pair of a real literal and a
sign at its end; `Draft.pushOperator` settles the signs, because a sign at the start of an operand
belongs to the operand; `Draft.openBracket` and `Draft.closeBracket` keep the brackets.
-/

namespace SymbolicAlgebra

/-- A token with the offset at which it starts. -/
structure Located (R : Type) where
  /-- The token. -/
  token : Token R
  /-- Its offset in bytes. -/
  offset : Nat

/-- The tokens read so far. -/
structure Draft (R : Type) where
  /-- The tokens, the last one first. -/
  tokens : List (Located R)
  /-- The brackets still open with their offsets, the innermost first. -/
  opened : List (Delimiter × Nat)

namespace Draft

variable {R : Type}

/-- No token has been read. -/
def empty : Draft R := ⟨[], []⟩

/-- The draft with one more token. -/
def push (d : Draft R) (t : Token R) (offset : Nat) : Draft R :=
  { d with tokens := ⟨t, offset⟩ :: d.tokens }

/-- Whether the next token would start an operand. -/
def atOperandStart (d : Draft R) : Bool := !d.tokens.head?.any (·.token.endsValue)

/-- Whether an expression may start behind the tokens, the last one given first. -/
def startsExpression (ts : List (Located R)) : Bool := ts.head?.all (·.token.opensExpression)

/-! ## Merging -/

/-- A real literal and a sign that the next literal can be merged with. -/
structure Merge (R : Type) where
  /-- The real literal, with its own sign. -/
  real : R
  /-- Whether the sign between the two literals is a minus sign. -/
  negative : Bool
  /-- The offset of the merged literal. -/
  offset : Nat
  /-- The draft without the literal and the sign. -/
  before : Draft R

/-- Whether an operator is a sign between two operands, and which one. -/
def isMinus? : Token R → Option Bool
  | .operator .plus => some false
  | .operator .minus => some true
  | _ => none

variable [Scalar R]

/-- The real literal and the sign at the end of the draft, if an expression starts with
the literal or with the minus sign before it. -/
def mergeable? (d : Draft R) : Option (Merge R) :=
  match d.tokens with
  | ⟨s, _⟩ :: ⟨.number v, o⟩ :: ts =>
    match isMinus? s, ts with
    | some m, ⟨.operator .negate, o'⟩ :: ts' =>
      if startsExpression ts' then some ⟨-v, m, o', { d with tokens := ts' }⟩ else none
    | some m, _ =>
      if startsExpression ts then some ⟨v, m, o, { d with tokens := ts }⟩ else none
    | none, _ => none
  | _ => none

/-- Pushes an imaginary literal, merged with a real part before it where `mayMerge` holds
and there is one. -/
def pushImaginary (d : Draft R) (v : R) (offset : Nat) (mayMerge : Bool) : Draft R :=
  match mayMerge, d.mergeable? with
  | true, some m =>
    m.before.push (.complex ⟨m.real, if m.negative then -v else v⟩) m.offset
  | _, _ => d.push (.complex ⟨0, v⟩) offset

/-! ## Signs -/

omit [Scalar R] in
/-- Pushes an operator. At the start of an operand a plus sign counts for nothing and a
minus sign negates; a doubled sign there stands for two. Behind an operand a doubled sign
updates it, unless another operand follows: then `a ++ b` is `a + b`, and `a -- b` is
`a - -b`. -/
def pushOperator (d : Draft R) (op : Operator) (offset : Nat) (operandFollows : Bool) :
    Draft R :=
  match op, d.atOperandStart, operandFollows with
  | .plus, true, _ | .increment, true, _ => d
  | .minus, true, _ => d.push (.operator .negate) offset
  | .decrement, true, _ =>
    (d.push (.operator .negate) offset).push (.operator .negate) (offset + 1)
  | .increment, false, true => d.push (.operator .plus) offset
  | .decrement, false, true =>
    (d.push (.operator .minus) offset).push (.operator .negate) (offset + 1)
  | op, _, _ => d.push (.operator op) offset

/-! ## Brackets -/

omit [Scalar R] in
/-- Pushes an opening bracket. -/
def openBracket (d : Draft R) (b : Delimiter) (offset : Nat) : Draft R :=
  { d.push (.delimiter b) offset with opened := (b, offset) :: d.opened }

omit [Scalar R] in
/-- Pushes a closing bracket, which must be the partner of the innermost open one. -/
def closeBracket (d : Draft R) (b : Delimiter) (offset : Nat) : Except LexError (Draft R) :=
  match d.opened with
  | (a, _) :: rest =>
    if a.closing? = some b then .ok { d.push (.delimiter b) offset with opened := rest }
    else .error (.unbalancedBracket b.char offset)
  | [] => .error (.unbalancedBracket b.char offset)

end Draft

end SymbolicAlgebra
