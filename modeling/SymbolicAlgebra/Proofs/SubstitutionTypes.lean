import SymbolicAlgebra.Proofs.ElementaryTypes
import SymbolicAlgebra.Proofs.SubstitutionRun
import SymbolicAlgebra.Scalar.SignedFloat

set_option autoImplicit false

/-!
# Types of substituted expressions

A parameter is a value that stands for a variable, and a substitution puts an expression in its
place. To type inference the two are the same (`Bindings.TypedBy`): an expression in which
variables have been replaced has the type, or the mismatch, that it had while the variables were
parameters of the types of what replaced them (`Expr.resultType_of_typedBy`).

So a function body can be checked once, against parameters of the types of the arguments; the
body with the arguments put in gives the same answer. `Expr.resultType_substitute` says so for
every list of expressions with values of their types (`TypedBinding P`).
-/

namespace SymbolicAlgebra

variable {R : Type}

/-! ## Expressions and values of the same type -/

/-- An expression to be put in the place of a variable, with a value of its type. -/
structure TypedBinding (P : Parameters R) where
  /-- The variable. -/
  name : String
  /-- What is put in its place. -/
  expr : Expr R
  /-- A value of the same type. -/
  value : Value R
  /-- The expression has the type of the value. -/
  typed : expr.resultType P = .ok value.resultType

/-- The substitution agrees with the second table: it puts an expression exactly in the place of
the names at which the tables may differ, and the second table has a value of its type there. -/
def Bindings.TypedBy (P P' : Parameters R) (σ : Bindings R) : Prop :=
  ∀ x, (σ x = none → P'.get? x = P.get? x) ∧
    ∀ a, σ x = some a → ∃ v : Value R, P'.get? x = some v ∧ a.resultType P = .ok v.resultType

namespace TypedBinding

variable {P : Parameters R}

/-- The substitution of the expressions for their variables. -/
def bindings (bs : List (TypedBinding P)) : Bindings R :=
  Bindings.ofPairs (bs.map fun b => (b.name, b.expr))

/-- The parameters in which the variables have the values. -/
def parameters (bs : List (TypedBinding P)) : Parameters R :=
  bs.foldl (fun P' b => P'.insert b.name b.value) P

/-- One more expression and its value keep the substitution and the table in agreement. -/
theorem typedBy_insert {P' : Parameters R} {σ : Bindings R} (h : σ.TypedBy P P')
    (b : TypedBinding P) : (σ.insert b.name b.expr).TypedBy P (P'.insert b.name b.value) := by
  intro x
  rw [Bindings.insert, Table.get?_insert]
  by_cases hx : x = b.name
  · rw [if_pos hx, if_pos hx]
    refine ⟨nofun, fun a ha => ⟨b.value, rfl, ?_⟩⟩
    rw [← Option.some.inj ha]
    exact b.typed
  · rw [if_neg hx, if_neg hx]
    exact h x

/-- Going on through a list keeps the substitution and the table in agreement. -/
theorem typedBy_foldl (bs : List (TypedBinding P)) {P' : Parameters R} {σ : Bindings R}
    (h : σ.TypedBy P P') :
    ((bs.map fun b => (b.name, b.expr)).foldl (fun σ p => σ.insert p.1 p.2) σ).TypedBy P
      (bs.foldl (fun P' b => P'.insert b.name b.value) P') := by
  induction bs generalizing P' σ with
  | nil => exact h
  | cons b bs ih => exact ih (typedBy_insert h b)

/-- The substitution and the table that a list makes agree. -/
theorem typedBy_bindings (bs : List (TypedBinding P)) :
    (bindings bs).TypedBy P (parameters bs) :=
  typedBy_foldl bs fun _ => ⟨fun _ => rfl, nofun⟩

end TypedBinding

/-! ## Typing after a substitution -/

namespace Expr

variable {P P' : Parameters R} {σ : Bindings R}

/-- A variable that the substitution leaves free has the same type under both tables. -/
theorem varType_of_free (h : σ.TypedBy P P') {x : String} (hx : σ x = none) :
    varType P' x = varType P x := by
  unfold varType
  rw [(h x).1 hx]

/-- What is put in the place of a variable has the type that the variable has under the second
table. -/
theorem varType_of_bound (h : σ.TypedBy P P') {x : String} {a : Expr R} (hx : σ x = some a) :
    a.resultType P = .ok (varType P' x) := by
  obtain ⟨v, hv, ha⟩ := (h x).2 a hx
  unfold varType
  rw [hv, ha]

/-- A substitution that agrees with the second table takes an expression to one that is typed
under the first table as it was under the second one. -/
theorem resultType_of_typedBy (h : σ.TypedBy P P') {t u : Expr R} (hu : t.substitute σ = .ok u) :
    u.resultType P = t.resultType P' := by
  refine substitute_rec (motive := fun t u => u.resultType P = t.resultType P')
    ?free ?bound ?node hu
  case free =>
    intro x hx
    exact congrArg Except.ok (varType_of_free h hx).symm
  case bound =>
    intro x a hx
    exact varType_of_bound h hx
  case node =>
    intro e cs hvar _ hcs
    refine resultType_withChildren ?_ (hcs.imp fun _ _ hc => hc.2)
    rintro x rfl
    cases hvar

/-- Typing commutes with substitution. Where expressions with types are put in the place of
variables, the outcome is typed as the expression was with values of these types for the
variables: the type is the same, or the mismatch is. -/
theorem resultType_substitute {P : Parameters R} (bs : List (TypedBinding P)) {t u : Expr R}
    (h : t.substitute (TypedBinding.bindings bs) = .ok u) :
    u.resultType P = t.resultType (TypedBinding.parameters bs) :=
  resultType_of_typedBy (TypedBinding.typedBy_bindings bs) h

/-- In the vector `{y, x}` a sum is put in the place of `y` and the vector `{a, a}` in the place
of `x`. A vector may not stand in a vector, and the mismatch is the one that a vector as the
value of the parameter `x` gives: at the second element. -/
theorem resultType_substitute_vector :
    let P : Parameters SignedFloat := Table.empty.insert "a" (.number 1)
    let sum : TypedBinding P := ⟨"y", .binary .add (.var "a") .one, .number 2, rfl⟩
    let pair : TypedBinding P := ⟨"x", .vector [.var "a", .var "a"], .vector [1, 1], rfl⟩
    let t : Expr SignedFloat := .vector [.var "y", .var "x"]
    let u : Expr SignedFloat := .vector [sum.expr, pair.expr]
    t.substitute (TypedBinding.bindings [sum, pair]) = .ok u ∧
      u.resultType P = t.resultType (TypedBinding.parameters [sum, pair]) ∧
      u.resultType P = .error (.member "vector" 2 .vector) := by
  intro P sum pair t u
  have hu : t.substitute (TypedBinding.bindings [sum, pair]) = .ok u := rfl
  exact ⟨hu, resultType_substitute [sum, pair] hu, rfl⟩

end Expr

end SymbolicAlgebra
