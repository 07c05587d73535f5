import SymbolicAlgebra.Expr.Substitution
import SymbolicAlgebra.Parameters

set_option autoImplicit false

/-!
# Functions defined by the user

A function (`FunctionDef R`) is a name, the names of its formal arguments and a body, which is
instantiated by putting actual arguments in the place of the formal ones
(`FunctionDef.instantiate`). A table of functions holds at most one function for each name and
number of arguments, so a name may stand for several functions. What registering does is said of
the view `FunctionTable.find?`.
-/

namespace SymbolicAlgebra

/-- A function defined by the user. -/
structure FunctionDef (R : Type) where
  /-- The name. -/
  name : String
  /-- The names of the formal arguments. -/
  formals : List String
  /-- The body. -/
  body : Expr R

namespace FunctionDef

variable {R : Type}

/-- The number of arguments. -/
def arity (f : FunctionDef R) : Nat := f.formals.length

/-- The actual arguments by the names of the formal ones; the last argument of a repeated
name wins. -/
def bindings (f : FunctionDef R) (args : List (Expr R)) : Bindings R :=
  Bindings.ofPairs (f.formals.zip args)

/-- The body with the actual arguments in place of the formal ones. -/
def instantiate (f : FunctionDef R) (args : List (Expr R)) : Except ShapeError (Expr R) :=
  f.body.substitute (f.bindings args)

end FunctionDef

/-- The functions defined so far, by name and number of arguments. -/
abbrev FunctionTable (R : Type) := Table (String × Nat) (FunctionDef R)

namespace FunctionTable

variable {R : Type}

/-- The table without functions. -/
def empty : FunctionTable R := Table.empty

/-- Adds a function; one of the same name and number of arguments is replaced. -/
def register (t : FunctionTable R) (f : FunctionDef R) : FunctionTable R :=
  t.insert (f.name, f.arity) f

/-- Removes a function. -/
def unregister (t : FunctionTable R) (name : String) (arity : Nat) : FunctionTable R :=
  t.erase (name, arity)

/-- The function of a name and number of arguments. -/
def find? (t : FunctionTable R) (name : String) (arity : Nat) : Option (FunctionDef R) :=
  t.get? (name, arity)

/-- Whether a function of the name is registered, for any number of arguments. -/
def containsName (t : FunctionTable R) (name : String) : Bool :=
  t.entries.any fun e => e.1.1 == name

/-- The functions of the table. -/
def functions (t : FunctionTable R) : List (FunctionDef R) := t.entries.map (·.2)

/-- After a registration the name and number of arguments stand for the new function, and
all others for what they stood for. -/
theorem find?_register (t : FunctionTable R) (f : FunctionDef R) (name : String)
    (arity : Nat) :
    (t.register f).find? name arity =
      if name = f.name ∧ arity = f.arity then some f else t.find? name arity := by
  simp only [register, find?, Table.get?_insert, Prod.mk.injEq]

end FunctionTable

end SymbolicAlgebra
