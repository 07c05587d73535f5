import SymbolicAlgebra.Expr.Substitution
import SymbolicAlgebra.Proofs.Position

set_option autoImplicit false

/-!
# What a substitution goes through

A substitution goes down to the variables, and on the way back it rebuilds every node from
the new direct subexpressions (`substitute_eq_ok_iff`). This module turns the way into an induction
principle (`substitute_rec`), so that what a substitution does to an expression is said of a
variable and of one node.
-/

namespace SymbolicAlgebra.Expr

variable {R : Type} {σ : Bindings R}

/-- Other direct subexpressions do not make a node a variable or stop it from being one. -/
@[simp] theorem isVar_withChildren (e : Expr R) (cs : List (Expr R)) :
    (e.withChildren cs).isVar = e.isVar := by
  unfold withChildren
  split <;> rfl

/-- What is put in the place of a variable. -/
theorem substitute_var (σ : Bindings R) (x : String) :
    (Expr.var x).substitute σ = .ok ((σ x).getD (.var x)) := by
  rw [substitute]

/-- In a node that is no variable, a substitution succeeds exactly where it does so in every
direct subexpression and the node can be rebuilt. -/
theorem substitute_eq_ok_iff {e s : Expr R} (h : e.isVar = false) :
    e.substitute σ = .ok s ↔
      ∃ cs, List.Forall₂ (fun c c' => c.substitute σ = .ok c') e.children cs ∧
        (e.isMatrix = true → RowsFit cs) ∧ s = e.withChildren cs := by
  rw [substitute_eq_mapChildren h, mapChildren_eq_ok_iff]
  simp only [rebuild_eq_ok_iff]

/-- A relation between an expression and what a substitution makes of it holds where it holds
at the variables, free and bound, and is handed on from the direct subexpressions to the
node. -/
theorem substitute_rec {motive : Expr R → Expr R → Prop}
    (free : ∀ x, σ x = none → motive (.var x) (.var x))
    (bound : ∀ x a, σ x = some a → motive (.var x) a)
    (node : ∀ e cs, e.isVar = false → (e.isMatrix = true → RowsFit cs) →
      List.Forall₂ (fun c c' => c.substitute σ = .ok c' ∧ motive c c') e.children cs →
      motive e (e.withChildren cs))
    {e s : Expr R} (h : e.substitute σ = .ok s) : motive e s := by
  induction e using Expr.induction generalizing s with
  | step e ih =>
    cases hvar : e.isVar with
    | true =>
      obtain ⟨x, rfl⟩ := isVar_iff.1 hvar
      rw [substitute_var] at h
      rw [← Except.ok.inj h]
      cases hx : σ x with
      | none => exact free x hx
      | some a => exact bound x a hx
    | false =>
      obtain ⟨cs, hcs, hfit, rfl⟩ := (substitute_eq_ok_iff hvar).1 h
      exact node e cs hvar hfit (forall₂_imp_of_mem hcs fun c hc c' hc' => ⟨hc', ih c hc hc'⟩)

end SymbolicAlgebra.Expr
