import SymbolicAlgebra.FunctionTable
import SymbolicAlgebra.Grammar.Builtin
import SymbolicAlgebra.Grammar.Level
import SymbolicAlgebra.Token.Tokenize

set_option autoImplicit false

/-!
# From tokens to expressions

The grammar, from loose to tight:

- an assignment is a chain, or a chain, an assignment operator and an assignment;
- a chain of a level is a sequence of operands of that level with connectives between
  them, grouped to the left;
- a signed operand is a minus sign or a negation before a signed operand, or a power;
- a power is a primary with its trailing operators, and possibly an exponent, which is a
  signed operand;
- a primary is a literal, a number with its unit, a name, a call, a group in parentheses
  or a list in braces.

A minus sign directly before a literal belongs to the literal.

There is one function for each line of the grammar. It returns, with the expression and the reader
behind it, the fact that tokens were taken, and this is what the recursion rests on. `parse` goes
from all tokens to one expression, `parseText` from a text to one.
-/

namespace SymbolicAlgebra

namespace Grammar

variable {R : Type}

/-! ## Results -/

/-- A value and a reader with fewer than `n` tokens ahead. -/
abbrev Shorter (R : Type) (α : Type) (n : Nat) :=
  { p : α × Reader R // p.2.rest.length < n }

/-- A value and a reader with at most `n` tokens ahead. -/
abbrev NotLonger (R : Type) (α : Type) (n : Nat) :=
  { p : α × Reader R // p.2.rest.length ≤ n }

variable [Scalar R]

/-- The error at a reader that should be at something else. -/
def unexpected (c : Reader R) (expected : Expectation) : ParseError :=
  match c.rest with
  | t :: _ => .unexpectedToken t.text c.index
  | [] => .unexpectedEnd expected

/-! ## Building expressions -/

/-- The expression of an assignment. -/
def assignTo (op : Operator) (target value : Expr R) : Except ParseError (Expr R) :=
  let update (u : UpdateOp) :=
    if target.isVar then .ok (.update u target value)
    else .error (.invalidUpdateTarget u.symbol target.text)
  match op with
  | .addAssign => update .add
  | .subAssign => update .sub
  | .mulAssign => update .mul
  | .divAssign => update .div
  | _ => Builtin.defineTo target value

/-- The expression of a minus sign before an operand of `count` tokens. A literal takes
the sign for its own. -/
def negated (operand : Expr R) (count : Nat) : Expr R :=
  match operand, count with
  | .number v, 1 => .number (-v)
  | .complex z, 1 => .complex z.neg
  | .quantity q, 2 => .quantity q.neg
  | e, _ => .neg e

omit [Scalar R] in
/-- The collection that a list in braces stands for: a matrix where every member is a
vector literal. -/
def collection (items : List (Expr R)) : Except ParseError (Expr R) :=
  if Expr.readsAsMatrix items then (Expr.matrixOf items).mapError .shape
  else .ok (.vector items)

/-- The expression of a call. A built-in function that accepts the number of arguments
comes before the functions of the table; a name that is known for other numbers of
arguments only is refused, and an unknown name is kept as it is. -/
def callOf (users : FunctionTable R) (name : String) (args : List (Expr R)) :
    Except ParseError (Expr R) :=
  let mismatch : Except ParseError (Expr R) := .error (.arityMismatch name args.length)
  match Builtin.ofName? name with
  | some b =>
    if b.accepts args.length then b.build name args
    else if (users.find? name args.length).isSome then .ok (.call name args)
    else mismatch
  | none =>
    if (users.find? name args.length).isSome then .ok (.call name args)
    else if users.containsName name then mismatch
    else .ok (.call name args)

/-- The update that a trailing operator makes of an operand, which must be a variable. -/
def updated (op : Operator) (form : Expr R → Expr R) (e : Expr R) :
    Except ParseError (Expr R) :=
  if e.isVar then .ok (form e) else .error (.invalidUpdateTarget op.symbol e.text)

/-- The expression of a trailing operator, if the operator is one. -/
def trailed? (e : Expr R) : Operator → Option (Except ParseError (Expr R))
  | .factorial => some (.ok (.unary .factorial e))
  | .increment => some (updated .increment .increment e)
  | .decrement => some (updated .decrement .decrement e)
  | _ => none

/-- Reads the trailing operators of an operand. -/
def trailing (e : Expr R) (c : Reader R) :
    Except ParseError (NotLonger R (Expr R) c.rest.length) :=
  match hc : c.rest with
  | .operator op :: ts =>
    match trailed? e op with
    | some (.ok e') =>
      have h := Reader.length_advance hc
      match trailing e' c.advance with
      | .ok ⟨p, hp⟩ => .ok ⟨p, by rw [hc] at h; exact Nat.le_of_lt (Nat.lt_of_le_of_lt hp h)⟩
      | .error x => .error x
    | some (.error x) => .error x
    | none => .ok ⟨(e, c), by simp [hc]⟩
  | _ => .ok ⟨(e, c), by simp [hc]⟩
termination_by c.rest.length

/-! ## The grammar -/

mutual

/-- Reads an assignment. -/
def assignment (users : FunctionTable R) (c : Reader R) :
    Except ParseError (Shorter R (Expr R) c.rest.length) := do
  let ⟨(target, c₁), h₁⟩ ← chain users .disjunction c
  match hc : c₁.rest with
  | .operator op :: _ =>
    if op.isAssignment then
      have h := Reader.length_advance hc
      let ⟨(value, c₂), h₂⟩ ← assignment users c₁.advance
      return ⟨(← assignTo op target value, c₂), Nat.lt_trans h₂ (Nat.lt_trans h h₁)⟩
    else return ⟨(target, c₁), h₁⟩
  | _ => return ⟨(target, c₁), h₁⟩
termination_by (c.rest.length, 18)
decreasing_by
  · exact Prod.Lex.right _ (by decide)
  · exact Prod.Lex.left _ _ (Nat.lt_trans h h₁)

/-- Reads a chain of a level. -/
def chain (users : FunctionTable R) (l : Level) (c : Reader R) :
    Except ParseError (Shorter R (Expr R) c.rest.length) := do
  let ⟨(left, c₁), h₁⟩ ← operand users l c
  let ⟨p, h₂⟩ ← chainRest users l left c₁
  return ⟨p, Nat.lt_of_le_of_lt h₂ h₁⟩
termination_by (c.rest.length, 2 * l.rank + 4)

/-- Reads the rest of a chain whose first operands form `left`. -/
def chainRest (users : FunctionTable R) (l : Level) (left : Expr R) (c : Reader R) :
    Except ParseError (NotLonger R (Expr R) c.rest.length) :=
  match hk : l.connectiveAt? c with
  | none => .ok ⟨(left, c), Nat.le_refl _⟩
  | some (k, c₁) => do
    have h₁ := Level.length_connectiveAt? hk
    let ⟨(right, c₂), h₂⟩ ← operand users l c₁
    let ⟨p, h₃⟩ ← chainRest users l (k.combine left right) c₂
    return ⟨p, Nat.le_trans h₃ (Nat.le_of_lt (Nat.lt_of_lt_of_le h₂ h₁))⟩
termination_by (c.rest.length, 2 * l.rank + 4)
decreasing_by
  · rcases Nat.lt_or_eq_of_le h₁ with h | h
    · exact Prod.Lex.left _ _ h
    · rw [h]
      exact Prod.Lex.right _ (by omega)
  · exact Prod.Lex.left _ _ (Nat.lt_of_lt_of_le h₂ h₁)

/-- Reads an operand of a level. -/
def operand (users : FunctionTable R) (l : Level) (c : Reader R) :
    Except ParseError (Shorter R (Expr R) c.rest.length) :=
  match hl : l.tighter? with
  | some l' =>
    have := Level.rank_tighter hl
    chain users l' c
  | none => signed users c
termination_by (c.rest.length, 2 * l.rank + 3)

/-- Reads a signed operand. -/
def signed (users : FunctionTable R) (c : Reader R) :
    Except ParseError (Shorter R (Expr R) c.rest.length) :=
  match hc : c.rest with
  | .operator .negate :: _ => do
    have h := Reader.length_advance hc
    let ⟨(e, c₁), h₁⟩ ← signed users c.advance
    return ⟨(negated e (c₁.index - c.advance.index), c₁), by
      rw [hc] at h; exact Nat.lt_trans h₁ h⟩
  | .operator .not :: _ => do
    have h := Reader.length_advance hc
    let ⟨(e, c₁), h₁⟩ ← signed users c.advance
    return ⟨(.unary .not e, c₁), by rw [hc] at h; exact Nat.lt_trans h₁ h⟩
  | _ => do
    let ⟨p, h⟩ ← power users c
    return ⟨p, by rw [hc] at h; exact h⟩
termination_by (c.rest.length, 2)

/-- Reads a power. -/
def power (users : FunctionTable R) (c : Reader R) :
    Except ParseError (Shorter R (Expr R) c.rest.length) := do
  let ⟨(e, c₁), h₁⟩ ← primary users c
  let ⟨(base, c₂), h₂⟩ ← trailing e c₁
  match hc : c₂.rest with
  | .operator .power :: _ =>
    have h := Reader.length_advance hc
    let ⟨(exponent, c₃), h₃⟩ ← signed users c₂.advance
    return ⟨(.pow base exponent, c₃),
      Nat.lt_trans h₃ (Nat.lt_of_lt_of_le h (Nat.le_trans h₂ (Nat.le_of_lt h₁)))⟩
  | _ => return ⟨(base, c₂), Nat.lt_of_le_of_lt h₂ h₁⟩
termination_by (c.rest.length, 1)
decreasing_by
  · exact Prod.Lex.right _ (by decide)
  · exact Prod.Lex.left _ _ (Nat.lt_of_lt_of_le h (Nat.le_trans h₂ (Nat.le_of_lt h₁)))

/-- Reads a primary. -/
def primary (users : FunctionTable R) (c : Reader R) :
    Except ParseError (Shorter R (Expr R) c.rest.length) :=
  match hc : c.rest with
  | [] => .error (.unexpectedEnd .operand)
  | .number v :: .unit u :: _ =>
    .ok ⟨(.quantity ⟨v, u⟩, c.advance.advance), by
      simp only [Reader.rest_advance, hc, List.tail_cons, List.length_cons]; omega⟩
  | .number v :: _ => .ok ⟨(.number v, c.advance), by simp [hc]⟩
  | .complex z :: _ => .ok ⟨(.complex z, c.advance), by simp [hc]⟩
  | .truth b :: _ => .ok ⟨(.truth b, c.advance), by simp [hc]⟩
  | .name x :: _ => .ok ⟨(.var x, c.advance), by simp [hc]⟩
  | .call f n :: .delimiter b :: _ =>
    match b.closing? with
    | some close => do
      let ⟨(args, c₁), h₁⟩ ← list users close c.advance.advance
      if args.length = n then
        return ⟨(← callOf users f args, c₁), by
          simp only [Reader.rest_advance, hc, List.tail_cons, List.length_cons] at h₁ ⊢
          omega⟩
      else .error (.arityMismatch f args.length)
    | none => .error (unexpected c.advance .argumentList)
  | .call _ _ :: _ => .error (unexpected c.advance .argumentList)
  | .delimiter .openParen :: _ => do
    let ⟨(e, c₁), h₁⟩ ← assignment users c.advance
    match hc₁ : c₁.rest with
    | .delimiter .closeParen :: _ =>
      return ⟨(e, c₁.advance), by
        simp only [Reader.rest_advance, hc, hc₁, List.tail_cons, List.length_cons] at h₁ ⊢
        omega⟩
    | _ => .error (unexpected c₁ .closeParen)
  | .delimiter .openBrace :: _ => do
    let ⟨(items, c₁), h₁⟩ ← list users .closeBrace c.advance
    return ⟨(← collection items, c₁), by
      simp only [Reader.rest_advance, hc, List.tail_cons, List.length_cons] at h₁ ⊢
      omega⟩
  | _ => .error (unexpected c .operand)
termination_by (c.rest.length, 0)
decreasing_by
  all_goals
    refine Prod.Lex.left _ _ ?_
    simp only [Reader.rest_advance, hc, List.tail_cons, List.length_cons]
    omega

/-- Reads a list up to and with the closing bracket, which may follow at once. -/
def list (users : FunctionTable R) (close : Delimiter) (c : Reader R) :
    Except ParseError (Shorter R (List (Expr R)) c.rest.length) :=
  match hc : c.rest with
  | .delimiter d :: _ =>
    if d = close then .ok ⟨([], c.advance), by simp [hc]⟩
    else do
      let ⟨p, h⟩ ← members users close c
      return ⟨p, by rw [hc] at h; exact h⟩
  | _ => do
    let ⟨p, h⟩ ← members users close c
    return ⟨p, by rw [hc] at h; exact h⟩
termination_by (c.rest.length, 20)

/-- Reads at least one member of a list and the closing bracket. -/
def members (users : FunctionTable R) (close : Delimiter) (c : Reader R) :
    Except ParseError (Shorter R (List (Expr R)) c.rest.length) := do
  let ⟨(e, c₁), h₁⟩ ← assignment users c
  match hc : c₁.rest with
  | .delimiter d :: _ =>
    have h := Reader.length_advance hc
    if d = .comma then
      let ⟨(es, c₂), h₂⟩ ← members users close c₁.advance
      return ⟨(e :: es, c₂), Nat.lt_trans h₂ (Nat.lt_trans h h₁)⟩
    else if d = close then return ⟨([e], c₁.advance), Nat.lt_trans h h₁⟩
    else .error (unexpected c₁ .listEnd)
  | _ => .error (unexpected c₁ .listEnd)
termination_by (c.rest.length, 19)
decreasing_by
  · exact Prod.Lex.right _ (by decide)
  · exact Prod.Lex.left _ _ (Nat.lt_trans h h₁)

end

end Grammar

variable {R : Type} [Scalar R]

/-! ## Whole formulas -/

/-- The cause for which a formula is refused before it is analysed. -/
inductive ReadError where
  /-- The text has no tokens. -/
  | lex (cause : LexError)
  /-- The tokens form no expression. -/
  | parse (cause : ParseError)
deriving DecidableEq

/-- The wording of the cause. -/
def ReadError.message : ReadError → String
  | .lex cause => cause.message
  | .parse cause => cause.message

/-- The expression that the tokens form. -/
def parse (users : FunctionTable R) (ts : List (Token R)) : Except ParseError (Expr R) :=
  if ts.isEmpty then .error .emptyInput
  else
    match Grammar.assignment users (Reader.start ts) with
    | .error x => .error x
    | .ok ⟨(e, c), _⟩ =>
      if c.rest.isEmpty then .ok e else .error (Grammar.unexpected c .operand)

/-- The expression that a text stands for. -/
def parseText (users : FunctionTable R) (text : String) : Except ReadError (Expr R) :=
  match tokenize text with
  | .error x => .error (.lex x)
  | .ok ts => (parse users ts).mapError .parse

end SymbolicAlgebra
