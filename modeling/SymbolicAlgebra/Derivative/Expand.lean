import SymbolicAlgebra.Derivative.Error
import SymbolicAlgebra.Expr.Text
import SymbolicAlgebra.FunctionTable

set_option autoImplicit false

/-!
# Expanding calls

Before an expression is differentiated, every call is replaced by the body of the function
with the arguments in place (`Expr.expandCalls`). A body may hold calls in its turn, to a limited
depth, so that functions which call themselves are refused. Definitions and their removals stay as
they are: the call on their left is a head and not a call. At all other nodes expansion only maps
the direct subexpressions (`Expr.expandCalls_eq_mapChildren`).
-/

namespace SymbolicAlgebra

/-- How many bodies may be nested. -/
def maxBodies : Nat := 64

namespace Expr

variable {R : Type} [Scalar R]

/-- Replaces every call outside definitions by the body of the function, entering at most
`left` nested bodies. -/
def expandCalls (users : FunctionTable R) (left : Nat) (e : Expr R) :
    Except DiffError (Expr R) :=
  match e with
  | .define t v => .ok (.define t v)
  | .undefine t => .ok (.undefine t)
  | .call f args =>
    match left with
    | 0 => .error (.notDifferentiable (Expr.call f args).text)
    | n + 1 =>
      match users.find? f args.length with
      | none => .error (.unboundFunction f args.length)
      | some d => do
        let actuals ← args.attach.mapM fun ⟨a, ha⟩ =>
          have := sizeOf_lt_of_mem_children (e := .call f args) ha
          expandCalls users (n + 1) a
        let body ← (d.instantiate actuals).mapError .shape
        expandCalls users n body
  | e => do
    let cs ← e.children.attach.mapM fun ⟨c, hc⟩ =>
      have := sizeOf_lt_of_mem_children hc
      expandCalls users left c
    e.rebuild .shape cs
termination_by (left, sizeOf e)

/-- Whether the node is a call, a definition or the removal of one. -/
def isCallOrDefinition : Expr R → Bool
  | .call _ _ | .define _ _ | .undefine _ => true
  | _ => false

/-- In a node that is neither a call nor a definition, the direct subexpressions are
expanded. -/
theorem expandCalls_eq_mapChildren {e : Expr R} (h : e.isCallOrDefinition = false)
    (users : FunctionTable R) (left : Nat) :
    e.expandCalls users left = e.mapChildren .shape (expandCalls users left) := by
  cases e <;> simp only [isCallOrDefinition, Bool.true_eq_false] at h <;>
    rw [expandCalls] <;> simp [mapChildren]

/-- A call is expanded to the expansion of the body, with the expanded arguments in
place. -/
theorem expandCalls_call (users : FunctionTable R) (n : Nat) (f : String)
    (args : List (Expr R)) :
    (Expr.call f args).expandCalls users (n + 1) =
      (match users.find? f args.length with
      | none => .error (.unboundFunction f args.length)
      | some d => do
        let actuals ← args.mapM (expandCalls users (n + 1))
        let body ← (d.instantiate actuals).mapError .shape
        expandCalls users n body) := by
  rw [expandCalls]
  simp

end Expr

end SymbolicAlgebra
