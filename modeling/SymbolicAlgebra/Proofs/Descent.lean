import SymbolicAlgebra.Proofs.SignTokens

set_option autoImplicit false

/-!
# Recursive descent over positions

The parser with its position as a state: eight routines (`Routine`), one of them with a variant for
each level of precedence, call each other and share the position among the tokens, and three of
them repeat a step as long as an operator or a comma follows. Nothing says why this should end. A
routine is given the answers of the routines that it calls (`step`), and an attempt answers if no
more than a certain number of calls are nested and no loop takes more turns than that (`attempt`).

What is done at a position is an `Action`. The routines ask for a token by its position (`peek`,
`advance`, `next`), and what they refuse they report with its position. `parseWithin` goes from all
tokens to an expression.
-/

namespace SymbolicAlgebra

variable {R : Type}

/-- The operator that the token is, if it is one. -/
def Token.operator? : Token R → Option Operator
  | .operator op => some op
  | _ => none

/-- The delimiter that the token is, if it is one. -/
def Token.delimiter? : Token R → Option Delimiter
  | .delimiter d => some d
  | _ => none

namespace Descent

/-! ## Actions -/

/-- What is done at a position. It gives a value and a position, or a refusal, or nothing at all
if more nested calls or turns would be needed than are allowed. -/
abbrev Action (α : Type) : Type := StateT Nat (ExceptT ParseError Option) α

section Actions

variable {α : Type}

/-- Gives nothing. -/
def exhausted : Action α := fun _ => none

/-- Gives what has been computed, or refuses for the same cause. -/
def ofExcept (x : Except ParseError α) : Action α := fun pos => some (x.map (·, pos))

/-- Moves to the next position. -/
def advance : Action Unit := modify (· + 1)

/-- The token at the position, if there is one. -/
def peek (ts : List (Token R)) : Action (Option (Token R)) := do return ts[← get]?

/-- The operator at the position, if there is one. -/
def peekOperator (ts : List (Token R)) : Action (Option Operator) := do
  return (← peek ts).bind Token.operator?

/-- Takes the token at the position. -/
def next (ts : List (Token R)) (expected : Expectation) : Action (Token R) := do
  match ← peek ts with
  | some t => do
    advance
    return t
  | none => throw (.unexpectedEnd expected)

/-- The connective of the level at a position, with the position behind it. Between operands side
by side there is a product without a token. -/
def connectiveAt? (ts : List (Token R)) (l : Level) (pos : Nat) : Option (Connective × Nat) :=
  match ts[pos]? with
  | none => none
  | some (.operator op) => (l.connective? op).map (·, pos + 1)
  | some t =>
    -- The token starts the next operand and is not taken yet.
    if l = .product && (before? ts pos).any (juxtaposed · t) then some (.operation .mul, pos)
    else none

variable [Scalar R]

/-- Refuses the token at the position, or the end of the tokens. -/
def refuse (ts : List (Token R)) (expected : Expectation) : Action α := do
  match ← peek ts with
  | some t => throw (.unexpectedToken t.text (← get))
  | none => throw (.unexpectedEnd expected)

/-- Refuses the token that was taken last. -/
def refuseTaken (t : Token R) : Action α := do throw (.unexpectedToken t.text ((← get) - 1))

/-- Takes a delimiter, which must be the one given. -/
def expectDelimiter (ts : List (Token R)) (b : Delimiter) (expected : Expectation) :
    Action Unit := do
  if (← peek ts).bind Token.delimiter? = some b then advance else refuse ts expected

end Actions

/-! ## Routines -/

/-- A routine of the parser. -/
inductive Routine where
  /-- An assignment. -/
  | assignment
  /-- A chain of a level. -/
  | chain (l : Level)
  /-- A signed operand. -/
  | signed
  /-- A power. -/
  | power
  /-- A primary with its trailing operators. -/
  | trailed
  /-- A primary. -/
  | primary
  /-- A list up to and with the closing bracket. -/
  | list (close : Delimiter)
  /-- The arguments of a call, behind the name. -/
  | call (name : String) (count : Nat)

namespace Routine

/-- What a routine gives. -/
abbrev Value (R : Type) : Routine → Type
  | .list _ => List (Expr R)
  | _ => Expr R

/-- The place of a routine among those at one position. A routine that has taken no token calls
only routines of a lower rank. -/
def rank : Routine → Nat
  | .primary | .call _ _ => 0
  | .trailed => 1
  | .power => 2
  | .signed => 3
  | .chain l => 4 + l.rank
  | .assignment => 11
  | .list _ => 12

/-- How deep the calls of a routine may be nested: for each token that lies ahead, once through
all the ranks. -/
def depth (ts : List (Token R)) (pos : Nat) (r : Routine) : Nat :=
  13 * (ts.length - pos) + r.rank

end Routine

/-- The answers of the routines that a routine calls. -/
abbrev Answers (R : Type) : Type := (r : Routine) → Action (r.Value R)

section Steps

variable (ts : List (Token R)) (answer : Answers R)

/-- An operand of a level. -/
def askOperand (l : Level) : Action (Expr R) :=
  match l.tighter? with
  | some l' => answer (.chain l')
  | none => answer .signed

/-- Joins operands of a level as long as connectives follow, at most `n` times. -/
def chainLoop (l : Level) : Nat → Expr R → Action (Expr R)
  | 0, _ => exhausted
  | n + 1, left => do
    match connectiveAt? ts l (← get) with
    | some (k, pos) => do
      set pos
      let right ← askOperand answer l
      chainLoop l n (k.combine left right)
    | none => return left

/-- A chain of a level. -/
def chainStep (n : Nat) (l : Level) : Action (Expr R) := do
  let left ← askOperand answer l
  chainLoop ts answer l n left

/-- The exponent of a power: a signed operand if a sign follows, and a power otherwise. -/
def askExponent : Action (Expr R) := do
  match ← peekOperator ts with
  | some .negate | some .not => answer .signed
  | _ => answer .power

/-- A power. -/
def powerStep : Action (Expr R) := do
  let base ← answer .trailed
  match ← peekOperator ts with
  | some .power => do
    advance
    let exponent ← askExponent ts answer
    return .pow base exponent
  | _ => return base

variable [Scalar R]

/-- An assignment. -/
def assignmentStep : Action (Expr R) := do
  let target ← answer (.chain .disjunction)
  match ← peekOperator ts with
  | some op =>
    if op.isAssignment then do
      advance
      let value ← answer .assignment
      ofExcept (Grammar.assignTo op target value)
    else return target
  | none => return target

/-- A signed operand. A minus sign belongs to a literal that is all of the operand. -/
def signedStep : Action (Expr R) := do
  match ← peekOperator ts with
  | some .negate => do
    advance
    let start ← get
    let e ← answer .signed
    -- How many tokens the operand takes tells a bare literal from any other operand.
    return Grammar.negated e ((← get) - start)
  | some .not => do
    advance
    let e ← answer .signed
    return .unary .not e
  | _ => answer .power

/-- Applies trailing operators as long as they follow, at most `n` times. -/
def trailedLoop : Nat → Expr R → Action (Expr R)
  | 0, _ => exhausted
  | n + 1, e => do
    match (← peekOperator ts).bind (Grammar.trailed? e) with
    | some r => do
      let e' ← ofExcept r
      advance
      trailedLoop n e'
    | none => return e

/-- A primary with its trailing operators. -/
def trailedStep (n : Nat) : Action (Expr R) := do
  let e ← answer .primary
  trailedLoop ts n e

/-- A primary. -/
def primaryStep : Action (Expr R) := do
  match ← next ts .operand with
  | .number v => do
    match ← peek ts with
    | some (.unit u) => do
      advance
      return .quantity ⟨v, u⟩
    | _ => return .number v
  | .complex z => return .complex z
  | .truth b => return .truth b
  | .name x => return .var x
  | .call f n => answer (.call f n)
  | .delimiter .openParen => do
    let e ← answer .assignment
    expectDelimiter ts .closeParen .closeParen
    return e
  | .delimiter .openBrace => do
    let items ← answer (.list .closeBrace)
    ofExcept (Grammar.collection items)
  | t => refuseTaken t

/-- Collects the members of a list as long as commas follow, at most `n` times. -/
def listLoop (close : Delimiter) : Nat → List (Expr R) → Action (List (Expr R))
  | 0, _ => exhausted
  | n + 1, items => do
    let e ← answer .assignment
    let t ← next ts .listEnd
    if t.delimiter? = some .comma then listLoop close n (items ++ [e])
    else if t.delimiter? = some close then return items ++ [e]
    else refuseTaken t

/-- A list, which may be closed at once. -/
def listStep (n : Nat) (close : Delimiter) : Action (List (Expr R)) := do
  if (← peek ts).bind Token.delimiter? = some close then do
    advance
    return []
  else listLoop ts answer close n []

/-- The arguments of a call with their brackets, and the expression of the call. -/
def callStep (U : FunctionTable R) (f : String) (count : Nat) : Action (Expr R) := do
  let t ← next ts .argumentList
  match t.delimiter?.bind Delimiter.closing? with
  | some close => do
    let args ← answer (.list close)
    if args.length = count then ofExcept (Grammar.callOf U f args)
    else throw (.arityMismatch f args.length)
  | none => refuseTaken t

/-- The answer of a routine, from the answers of the routines that it calls. -/
def step (U : FunctionTable R) (n : Nat) : Answers R
  | .assignment => assignmentStep ts answer
  | .chain l => chainStep ts answer n l
  | .signed => signedStep ts answer
  | .power => powerStep ts answer
  | .trailed => trailedStep ts answer n
  | .primary => primaryStep ts answer
  | .list close => listStep ts answer n close
  | .call f count => callStep ts answer U f count

end Steps

variable [Scalar R]

/-- The recursion, cut off where more than a number of calls are nested or a loop takes more
turns. -/
def attempt (U : FunctionTable R) (ts : List (Token R)) : Nat → Answers R
  | 0, _ => exhausted
  | n + 1, r => step ts (attempt U ts n) U n r

/-- The expression that all tokens form. -/
def parseWithin (U : FunctionTable R) (ts : List (Token R)) (n : Nat) :
    Option (Except ParseError (Expr R)) :=
  if ts.isEmpty then some (.error .emptyInput)
  else
    let whole : Action (Expr R) := do
      let e ← attempt U ts n .assignment
      if (← get) < ts.length then refuse ts .operand else return e
    (whole.run' 0).run

end Descent

end SymbolicAlgebra
