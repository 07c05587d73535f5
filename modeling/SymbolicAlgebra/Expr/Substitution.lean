import SymbolicAlgebra.Expr.Shape

set_option autoImplicit false

/-!
# Substitution

A substitution (`Expr.substitute`) puts expressions in place of variables, all at once: what is
put in is not looked at again. The expressions are given by name (`Bindings R`), and of the pairs
in a list the last one of a name wins (`Bindings.ofPairs`). The variable by which a derivative is
taken is a name and stays as it is. Rebuilding a matrix checks its shape, so a substitution can
fail.
-/

namespace SymbolicAlgebra

/-- The expressions to be put in place of variables. -/
abbrev Bindings (R : Type) := String → Option (Expr R)

namespace Bindings

variable {R : Type}

/-- No variable is bound. -/
def empty : Bindings R := fun _ => none

/-- The bindings with one more pair, which wins over an earlier one of its name. -/
def insert (σ : Bindings R) (x : String) (e : Expr R) : Bindings R :=
  fun y => if y = x then some e else σ y

/-- The bindings of a list of pairs; the last pair of a name wins. -/
def ofPairs (ps : List (String × Expr R)) : Bindings R :=
  ps.foldl (fun σ p => σ.insert p.1 p.2) empty

end Bindings

namespace Expr

variable {R : Type}

mutual
/-- Puts the bound expressions in place of the variables. -/
def substitute (σ : Bindings R) : Expr R → Except ShapeError (Expr R)
  | .number v => .ok (.number v)
  | .truth b => .ok (.truth b)
  | .complex z => .ok (.complex z)
  | .quantity q => .ok (.quantity q)
  | .var x => .ok ((σ x).getD (.var x))
  | .rational n d => return .rational (← substitute σ n) (← substitute σ d)
  | .unary op e => return .unary op (← substitute σ e)
  | .binary op l r => return .binary op (← substitute σ l) (← substitute σ r)
  | .aggregate op args => return .aggregate op (← substituteList σ args)
  | .vector es => return .vector (← substituteList σ es)
  | .matrix rows => substituteList σ rows >>= matrixOf
  | .call f args => return .call f (← substituteList σ args)
  | .define t v => return .define (← substitute σ t) (← substitute σ v)
  | .undefine t => return .undefine (← substitute σ t)
  | .ifThen c t => return .ifThen (← substitute σ c) (← substitute σ t)
  | .ifThenElse c t e =>
    return .ifThenElse (← substitute σ c) (← substitute σ t) (← substitute σ e)
  | .forLoop i c s b =>
    return .forLoop (← substitute σ i) (← substitute σ c) (← substitute σ s)
      (← substitute σ b)
  | .whileLoop c b => return .whileLoop (← substitute σ c) (← substitute σ b)
  | .increment t => return .increment (← substitute σ t)
  | .decrement t => return .decrement (← substitute σ t)
  | .update op t v => return .update op (← substitute σ t) (← substitute σ v)
  | .simplify e => return .simplify (← substitute σ e)
  | .derivative e x => return .derivative (← substitute σ e) x
/-- Puts the bound expressions in place of the variables of a list of expressions. -/
def substituteList (σ : Bindings R) : List (Expr R) → Except ShapeError (List (Expr R))
  | [] => .ok []
  | e :: es => return (← substitute σ e) :: (← substituteList σ es)
end

/-- The companion on lists substitutes in every member, from left to right. -/
theorem substituteList_eq_mapM (σ : Bindings R) (es : List (Expr R)) :
    substituteList σ es = es.mapM (substitute σ) := by
  induction es with
  | nil => rfl
  | cons e es ih => simp [substituteList, ih]

/-- In a node that is no variable, substitution acts on the direct subexpressions. -/
theorem substitute_eq_mapChildren {e : Expr R} (h : e.isVar = false) (σ : Bindings R) :
    e.substitute σ = e.mapChildren id (substitute σ) := by
  have ok {α : Type} (a : α) : (.ok a : Except ShapeError α) = pure a := rfl
  cases e <;> simp only [isVar, Bool.true_eq_false] at h <;>
    simp only [substitute, mapChildren, rebuild, children, isMatrix, withChildren,
      substituteList_eq_mapM, List.mapM_nil, List.mapM_cons, bind_assoc, pure_bind, ok,
      Bool.false_eq_true, ↓reduceIte]
  case matrix rows =>
    refine bind_congr fun cs => ?_
    change matrixOf cs = (matrixOf cs).mapError id
    cases matrixOf cs <;> rfl
  all_goals rfl

end Expr

end SymbolicAlgebra
