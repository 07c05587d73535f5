import SymbolicAlgebra.Expr
import SymbolicAlgebra.Grammar.Reader

set_option autoImplicit false

/-!
# Levels of precedence

The operators that stand between two operands and group to the left fall into seven
levels (`Level`, with the operators of a level in `Level.connective?`). The operands of a level are
the chains of the next one, and the operands of products are signed powers. `Connective.combine`
is the expression that an operator forms from its operands.

At the level of products two operands may also stand side by side (`juxtaposed`). Behind a literal
or a closing bracket a name, a call or an opening parenthesis continues the product, and behind
a closing bracket a literal does so too.
-/

namespace SymbolicAlgebra

/-- A level of operators that group to the left, from loose to tight. -/
inductive Level where
  /-- `||` -/
  | disjunction
  /-- `&&` -/
  | conjunction
  /-- The comparisons. -/
  | comparison
  /-- `|` and the operators on bits that bind like it. -/
  | bitOr
  /-- `&` and the operators on bits that bind like it. -/
  | bitAnd
  /-- Sums and differences. -/
  | sum
  /-- Products, quotients, remainders and fractions. -/
  | product
deriving DecidableEq

/-- How two operands are joined: by an operation, or into a fraction. -/
inductive Connective where
  /-- An operation on the two operands. -/
  | operation (op : BinaryOp)
  /-- A fraction of the two operands. -/
  | fraction
deriving DecidableEq

/-- The expression that the connective forms from its operands. -/
def Connective.combine {R : Type} : Connective → Expr R → Expr R → Expr R
  | .operation op, l, r => .binary op l r
  | .fraction, l, r => .rational l r

namespace Level

/-- The next tighter level, if there is one. -/
def tighter? : Level → Option Level
  | .disjunction => some .conjunction
  | .conjunction => some .comparison
  | .comparison => some .bitOr
  | .bitOr => some .bitAnd
  | .bitAnd => some .sum
  | .sum => some .product
  | .product => none

/-- How many levels are tighter. -/
def rank : Level → Nat
  | .disjunction => 6
  | .conjunction => 5
  | .comparison => 4
  | .bitOr => 3
  | .bitAnd => 2
  | .sum => 1
  | .product => 0

/-- A tighter level has fewer levels that are tighter still. -/
theorem rank_tighter {l l' : Level} (h : l.tighter? = some l') : l'.rank < l.rank := by
  cases l <;> simp only [tighter?, Option.some.injEq, reduceCtorEq] at h <;> subst h <;>
    decide

/-- The connective that an operator is at a level. -/
def connective? : Level → Operator → Option Connective
  | .disjunction, .or => some (.operation .or)
  | .conjunction, .and => some (.operation .and)
  | .comparison, .less => some (.operation .less)
  | .comparison, .lessEqual => some (.operation .lessEqual)
  | .comparison, .greater => some (.operation .greater)
  | .comparison, .greaterEqual => some (.operation .greaterEqual)
  | .comparison, .equal => some (.operation .equal)
  | .comparison, .notEqual => some (.operation .notEqual)
  | .bitOr, .bitOr => some (.operation .bitOr)
  | .bitOr, .xor => some (.operation .xor)
  | .bitOr, .nor => some (.operation .nor)
  | .bitOr, .implication => some (.operation .implication)
  | .bitOr, .equivalence => some (.operation .equivalence)
  | .bitAnd, .bitAnd => some (.operation .bitAnd)
  | .bitAnd, .nand => some (.operation .nand)
  | .sum, .plus => some (.operation .add)
  | .sum, .minus => some (.operation .sub)
  | .product, .multiply => some (.operation .mul)
  | .product, .divide => some (.operation .div)
  | .product, .modulo => some (.operation .mod)
  | .product, .rational => some .fraction
  | _, _ => none

end Level

variable {R : Type}

/-! ## Operands side by side -/

/-- Whether the token closes a group. -/
def Token.closesGroup : Token R → Bool
  | .delimiter d => d.isClose
  | _ => false

/-- Whether the token ends a numeric literal. -/
def Token.endsLiteral : Token R → Bool
  | .number _ | .complex _ | .unit _ => true
  | _ => false

/-- Whether two neighbouring tokens are multiplied. -/
def juxtaposed (before after : Token R) : Bool :=
  match after with
  | .name _ | .call _ _ | .delimiter .openParen => before.closesGroup || before.endsLiteral
  | .number _ | .complex _ => before.closesGroup
  | _ => false

/-- The connective at a reader, with the reader behind it. Operands side by side are
joined by a product without a token of its own. -/
def Level.connectiveAt? (l : Level) (c : Reader R) : Option (Connective × Reader R) :=
  match c.rest with
  | [] => none
  | .operator op :: _ => (l.connective? op).map (·, c.advance)
  | t :: _ =>
    if l = .product && c.last?.any (juxtaposed · t) then some (.operation .mul, c) else none

/-- A connective takes at most one token. -/
theorem Level.length_connectiveAt? {l : Level} {c c' : Reader R} {k : Connective}
    (h : l.connectiveAt? c = some (k, c')) : c'.rest.length ≤ c.rest.length := by
  unfold connectiveAt? at h
  split at h
  · contradiction
  · rename_i op ts hr
    simp only [Option.map_eq_some_iff, Prod.mk.injEq] at h
    obtain ⟨_, _, _, rfl⟩ := h
    exact Nat.le_of_lt (Reader.length_advance hr)
  · split at h
    · simp only [Option.some.injEq, Prod.mk.injEq] at h
      exact Nat.le_of_eq (by rw [h.2])
    · contradiction

end SymbolicAlgebra
