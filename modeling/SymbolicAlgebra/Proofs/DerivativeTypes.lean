import SymbolicAlgebra.Proofs.DerivativeNodes
import SymbolicAlgebra.Scalar.SignedFloat
import SymbolicAlgebra.Typing.Infer

set_option autoImplicit false

/-!
# Derivatives of numbers are numbers

The rules of differentiation write functions, powers, quotients and roots that the
expression did not have, and the typing tables know nothing of these rules. But whatever the
rules write around numbers is a number, so `Expr.HasNumberType` is inherited: where everything in
an expression is a number, everything in its derivatives is (`differentiate_resultType`).
-/

namespace SymbolicAlgebra

variable {R : Type} {P : Parameters R}

/-! ## Types of what the rules write -/

namespace Typing

/-- Numbers have no other common type. -/
theorem commonType_number (node : String) {os : List Outcome}
    (h : ∀ o ∈ os, o = .ok .number) (i : Nat) {c : Option ResultType}
    (hc : c = none ∨ c = some .number) :
    ∃ c', commonType node i c false os = .ok (c', false) ∧
      (c' = none ∨ c' = some .number) := by
  induction os generalizing i c with
  | nil => exact ⟨c, rfl, hc⟩
  | cons o os ih =>
    obtain ⟨ho, hos⟩ := List.forall_mem_cons.1 h
    obtain ⟨c', hc', hn⟩ := ih hos (i + 1) (.inr rfl)
    refine ⟨c', ?_, hn⟩
    rw [ho]
    rcases hc with rfl | rfl <;> exact hc'

/-- An aggregate of numbers is a number. -/
theorem aggregateOutcome_number {op : Aggregate} {os : List Outcome}
    (h : ∀ o ∈ os, o = .ok .number) : aggregateOutcome op os = .ok .number := by
  obtain ⟨c, hc, hn⟩ := commonType_number op.name h 1 (.inl rfl)
  rw [aggregateOutcome, hc]
  rcases hn with rfl | rfl <;> rfl

end Typing

namespace Expr

/-- The expression is a number. -/
def HasNumberType (P : Parameters R) (e : Expr R) : Prop := e.resultType P = .ok .number

/-- A vector is no number, whatever its elements are. -/
theorem not_hasNumberType_vector {es : List (Expr R)} : ¬ (vector es).HasNumberType P := by
  intro h
  obtain ⟨_, -, h⟩ := bind_eq_ok_iff.1 h
  cases h

theorem not_hasNumberType_matrix {rows : List (Expr R)} :
    ¬ (matrix rows).HasNumberType P := by
  intro h
  obtain ⟨_, -, h⟩ := bind_eq_ok_iff.1 h
  cases h

theorem not_hasNumberType_call {f : String} {args : List (Expr R)} :
    ¬ (call f args).HasNumberType P := by
  intro h
  obtain ⟨_, -, h⟩ := bind_eq_ok_iff.1 h
  cases h

theorem resultType_unary {op : UnaryOp} {u : Expr R} (hu : u.HasNumberType P) :
    (unary op u).resultType P = Typing.unaryOutcome op .number := by
  rw [resultType, hu]
  rfl

theorem resultType_binary {op : BinaryOp} {l r : Expr R} (hl : l.HasNumberType P)
    (hr : r.HasNumberType P) :
    (binary op l r).resultType P = Typing.binaryOutcome op .number .number := by
  rw [resultType, hl, hr]
  rfl

/-- What the rules of differentiation write around numbers is a number. Numbers have no
products of vectors, and vectors and matrices are no numbers. -/
instance [Scalar R] : Derivative.RuleNode (HasNumberType P) where
  literal _ := rfl
  function {op u} hop hu := by
    rw [HasNumberType, resultType_unary hu]
    cases op <;> first | rfl | cases hop
  operation {op l r} hop hl hr := by
    rw [HasNumberType, resultType_binary hl hr]
    cases op <;> first | rfl | cases hop
  product {op l r l' r'} hop hl hr h hl' hr' := by
    -- No product of vectors is a number where its operands are numbers.
    rw [HasNumberType, resultType_binary hl hr] at h
    cases op <;> cases hop <;> cases h
  sum {es ds} _ _ hds := by
    rw [HasNumberType, resultType, resultTypes_eq_map]
    refine Typing.aggregateOutcome_number fun o ho => ?_
    obtain ⟨d, hd, rfl⟩ := List.mem_map.1 ho
    exact hds d hd
  vector h _ := absurd h not_hasNumberType_vector
  matrix _ h _ := absurd h not_hasNumberType_matrix

end Expr

open SymbolicAlgebra.Expr (HasNumberType Unregistered)

variable [Scalar R]

/-! ## Differentiation -/

/-- Differentiation leads from numbers to numbers. Whatever values the parameters have and
whatever functions are known: where every subexpression of an expression is a number, so is
every subexpression of each of its derivatives. -/
theorem differentiate_resultType {users : FunctionTable R} {t d : Expr R} {v : String}
    (ht : t.Everywhere (HasNumberType P)) (hd : t.differentiate users false v = .ok d) :
    d.Everywhere (HasNumberType P) := by
  -- The call of a function is no number, so there is nothing to expand.
  have hcalls : t.Everywhere (Unregistered users) := by
    refine ht.imp fun e he => ?_
    cases e with
    | call f args => exact absurd he Expr.not_hasNumberType_call
    | _ => trivial
  obtain ⟨d', hd', rfl⟩ := Expr.exists_derivativeBy_of_differentiate hcalls hd
  exact Expr.everywhere_derivativeBy ht v d' hd'

/-- The derivative of `sin x` by the number `x` is `cos x * 1`. -/
theorem differentiate_resultType_sin :
    let P : Parameters SignedFloat := Table.empty.insert "x" (.number 2)
    let t : Expr SignedFloat := .unary .sin (.var "x")
    let d : Expr SignedFloat := .mul (.unary .cos (.var "x")) .one
    t.Everywhere (HasNumberType P) ∧ t.differentiate FunctionTable.empty false "x" = .ok d ∧
      d.Everywhere (HasNumberType P) := by
  intro P t d
  have hx : (Expr.var "x" : Expr SignedFloat).Everywhere (HasNumberType P) :=
    Expr.everywhere_iff.2 ⟨rfl, nofun⟩
  have ht : t.Everywhere (HasNumberType P) := by
    refine Expr.everywhere_iff.2 ⟨rfl, fun c hc => ?_⟩
    rw [List.mem_singleton.1 hc]
    exact hx
  have hexpanded : t.expandCalls FunctionTable.empty maxBodies = .ok t := by
    refine Expr.expandCalls_eq_self rfl rfl fun c hc => ?_
    rw [List.mem_singleton.1 hc]
    exact Expr.expandCalls_eq_self rfl rfl nofun
  have hderivative : t.derivativeBy "x" = .ok d := by
    rw [Expr.derivativeBy_eq]
    change (Expr.var "x").derivativeBy "x" >>= _ = _
    rw [Expr.derivativeBy_var]
    rfl
  have hdiff := Expr.differentiate_eq_ok (by decide) hexpanded hderivative
  exact ⟨ht, hdiff, differentiate_resultType ht hdiff⟩

end SymbolicAlgebra
