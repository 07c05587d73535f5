import SymbolicAlgebra.Scalar.Complex
import SymbolicAlgebra.Quantity

set_option autoImplicit false

/-!
# Tokens

A formula is read as a sequence of tokens (`Token R`): literals, names, calls, units, operators and
delimiters. A name with a bracket right behind it is a call, and its token carries the
number of arguments; a minus sign in front of an operand is the operator `negate`. An `Operator`
has symbols and word spellings. Whether an operand may end with a token is said by
`Token.endsValue`: a sign behind such a token is an operation on two operands.
-/

namespace SymbolicAlgebra

/-! ## Operators -/

/-- An operator of formula texts. -/
inductive Operator where
  | plus
  | minus
  | multiply
  | divide
  | power
  | modulo
  | rational
  | negate
  | less
  | lessEqual
  | greater
  | greaterEqual
  | equal
  | notEqual
  | bitAnd
  | bitOr
  | xor
  | nand
  | nor
  | implication
  | equivalence
  | and
  | or
  | not
  | assign
  | addAssign
  | subAssign
  | mulAssign
  | divAssign
  | increment
  | decrement
  | factorial
deriving DecidableEq

namespace Operator

/-- Every operator, in the order in which they are listed. -/
def all : List Operator := [
    .plus, .minus, .multiply, .divide, .power, .modulo, .rational, .negate, .less, .lessEqual,
    .greater, .greaterEqual, .equal, .notEqual, .bitAnd, .bitOr, .xor, .nand, .nor,
    .implication, .equivalence, .and, .or, .not, .assign, .addAssign, .subAssign, .mulAssign,
    .divAssign, .increment, .decrement, .factorial]

/-- The symbol in formulas and messages. -/
def symbol : Operator → String
  | .plus => "+"
  | .minus => "-"
  | .multiply => "*"
  | .divide => "/"
  | .power => "^"
  | .modulo => "%"
  | .rational => "//"
  | .negate => "neg"
  | .less => "<"
  | .lessEqual => "<="
  | .greater => ">"
  | .greaterEqual => ">="
  | .equal => "=="
  | .notEqual => "!="
  | .bitAnd => "&"
  | .bitOr => "|"
  | .xor => "xor"
  | .nand => "nand"
  | .nor => "nor"
  | .implication => "->"
  | .equivalence => "<->"
  | .and => "&&"
  | .or => "||"
  | .not => "~"
  | .assign => ":="
  | .addAssign => "+="
  | .subAssign => "-="
  | .mulAssign => "*="
  | .divAssign => "/="
  | .increment => "++"
  | .decrement => "--"
  | .factorial => "!"

/-- Whether the operator is written behind its operand. -/
def isTrailing : Operator → Bool
  | .increment | .decrement | .factorial => true
  | _ => false

/-- Whether the operator assigns to what stands before it. -/
def isAssignment : Operator → Bool
  | .assign | .addAssign | .subAssign | .mulAssign | .divAssign => true
  | _ => false

/-- The operator with the symbol given. A plain equality sign is a second symbol of
definitions. -/
def ofSymbol? (s : String) : Option Operator :=
  if s = "=" then some .assign else all.find? (·.symbol == s)

/-- The operators that are written as words. -/
def words : List (String × Operator) := [
    ("and", .bitAnd), ("or", .bitOr), ("xor", .xor), ("not", .not), ("mod", .modulo),
    ("impl", .implication), ("eq", .equivalence), ("nand", .nand), ("nor", .nor)]

/-- A word with its ASCII capitals made small. -/
def smallLetters (word : String) : String := word.map Char.toLower

/-- The operator that a word spells, in small or capital ASCII letters. -/
def ofWord? (word : String) : Option Operator := words.lookup (smallLetters word)

end Operator

/-! ## Delimiters -/

/-- A bracket or the separator of arguments. -/
inductive Delimiter where
  | openParen
  | closeParen
  | openBrace
  | closeBrace
  | comma
deriving DecidableEq

namespace Delimiter

/-- The character of the delimiter. -/
def char : Delimiter → Char
  | .openParen => '('
  | .closeParen => ')'
  | .openBrace => '\x7b'
  | .closeBrace => '\x7d'
  | .comma => ','

/-- Every delimiter. -/
def all : List Delimiter := [.openParen, .closeParen, .openBrace, .closeBrace, .comma]

/-- The delimiter with the character given. -/
def ofChar? (c : Char) : Option Delimiter := all.find? (·.char == c)

/-- Whether the delimiter opens a group. -/
def isOpen : Delimiter → Bool
  | .openParen | .openBrace => true
  | _ => false

/-- Whether the delimiter closes a group. -/
def isClose : Delimiter → Bool
  | .closeParen | .closeBrace => true
  | _ => false

/-- The closing bracket that belongs to an opening one. -/
def closing? : Delimiter → Option Delimiter
  | .openParen => some .closeParen
  | .openBrace => some .closeBrace
  | _ => none

end Delimiter

/-! ## Tokens -/

/-- A token of formula text over the scalars `R`. -/
inductive Token (R : Type) where
  /-- A real literal. -/
  | number (value : R)
  /-- A complex literal. -/
  | complex (value : ComplexNumber R)
  /-- A truth value. -/
  | truth (value : Bool)
  /-- The name of a variable or constant. -/
  | name (name : String)
  /-- A name with an opening bracket behind it, and the number of arguments. -/
  | call (name : String) (arity : Nat)
  /-- The unit of the number before it. -/
  | unit (value : MeasureUnit)
  /-- An operator. -/
  | operator (op : Operator)
  /-- A bracket or comma. -/
  | delimiter (d : Delimiter)

namespace Token

variable {R : Type}

/-- Whether an operand may end with the token. -/
def endsValue : Token R → Bool
  | .number _ | .complex _ | .truth _ | .name _ | .unit _ => true
  | .delimiter d => d.isClose
  | .operator op => op.isTrailing
  | .call _ _ => false

/-- Whether an expression may start right behind the token: behind an opening bracket, a
comma or an assignment. -/
def opensExpression : Token R → Bool
  | .delimiter d => !d.isClose
  | .operator op => op.isAssignment
  | _ => false

/-- The text of a token in messages. -/
def text [Scalar R] : Token R → String
  | .number v => Scalar.text v
  | .complex z => Scalar.text z.re ++ Scalar.signedText z.im ++ "i"
  | .truth b => if b then "true" else "false"
  | .name x => x
  | .call f _ => f
  | .unit u => u.symbol
  | .operator op => op.symbol
  | .delimiter d => d.char.toString

end Token

end SymbolicAlgebra
