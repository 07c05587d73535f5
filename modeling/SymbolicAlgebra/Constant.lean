import SymbolicAlgebra.Scalar

set_option autoImplicit false

/-!
# Named constants

A constant is a variable whose name is known to stand for a real number. It stays a variable in
expressions; what knows it is typing, which asks `NamedConstant.ofName?`, and the rules for
Euler's number (`eulerName`).
-/

namespace SymbolicAlgebra

/-- A constant that is known by name. -/
inductive NamedConstant where
  | pi
  | euler
  | tau
  | golden
deriving DecidableEq

namespace NamedConstant

/-- The names of the constants, in the order of their characters. -/
def names : List (String × NamedConstant) :=
  [("e", .euler), ("phi", .golden), ("pi", .pi), ("tau", .tau), ("π", .pi), ("τ", .tau),
    ("φ", .golden)]

/-- The constant that a name stands for. -/
def ofName? (name : String) : Option NamedConstant := names.lookup name

/-- Whether a name stands for a constant. -/
def isKnown (name : String) : Bool := (ofName? name).isSome

/-- The scalar nearest to the constant. -/
def value {R : Type} [Scalar R] : NamedConstant → R
  | .pi => Scalar.pi
  | .euler => Scalar.ofDecimal 2718281828459045 (-15)
  | .tau => Scalar.ofDecimal 6283185307179586 (-15)
  | .golden => Scalar.ofDecimal 1618033988749895 (-15)

end NamedConstant

/-- The name of Euler's number. -/
def eulerName : String := "e"

end SymbolicAlgebra
