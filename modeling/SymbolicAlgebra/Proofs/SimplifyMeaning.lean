import Mathlib.Tactic.NormNum
import SymbolicAlgebra.Proofs.RuleMeaning
import SymbolicAlgebra.Proofs.SimplifyRun

set_option autoImplicit false

/-!
# Simplification keeps the value

In exact arithmetic the simplified form of an expression has the value of the expression,
under every assignment of the variables under which the expression is defined
(`exists_simplified_of_value?`). Where it is defined at all, simplification does not fail, so a
division by zero that simplification reports is one that no assignment avoids
(`simplified_meaning`).
-/

namespace SymbolicAlgebra.Expr

open Rule

variable {F : Type} [ExactScalar F] {ρ : String → F}

/-- The expression has a simplified form with the value given. -/
def SimplifiesTo (ρ : String → F) (e : Expr F) (x : F) : Prop :=
  ∃ s, e.simplified = .ok s ∧ s.value? ρ = some x

/-- Where the direct subexpressions have simplified forms with their values, the node over
these has the value of the node. -/
theorem exists_mapChildren_of_value? {e : Expr F} {x : F} (hx : e.value? ρ = some x)
    (ih : ∀ c ∈ e.children, ∀ y, c.value? ρ = some y → SimplifiesTo ρ c y) :
    ∃ node, e.mapChildren .shape simplified = .ok node ∧ node.value? ρ = some x := by
  cases e
  case number v => exact ⟨.number v, rfl, hx⟩
  case var y => exact ⟨.var y, rfl, hx⟩
  case unary op a =>
    by_cases hop : op = .negate
    · subst hop
      obtain ⟨y, hy, rfl⟩ := value?_neg_eq_some_iff.1 hx
      obtain ⟨s, hs, hsy⟩ := ih a List.mem_cons_self y hy
      refine ⟨.neg s, mapChildren_eq_ok_iff.2 ⟨[s], .cons hs .nil, rfl⟩, ?_⟩
      exact value?_neg_eq_some_iff.2 ⟨y, hsy, rfl⟩
    · rw [value?_unary_of_ne hop] at hx
      cases hx
  case binary op l r =>
    obtain ⟨a, b, ha, hb, hab⟩ := value?_binary_eq_some_iff.1 hx
    obtain ⟨s, hs, hsa⟩ := ih l List.mem_cons_self a ha
    obtain ⟨u, hu, hub⟩ := ih r (List.mem_cons_of_mem _ List.mem_cons_self) b hb
    refine ⟨.binary op s u, mapChildren_eq_ok_iff.2 ⟨[s, u], .cons hs (.cons hu .nil), rfl⟩, ?_⟩
    exact value?_binary_eq_some_iff.2 ⟨a, b, hsa, hub, hab⟩
  case simplify a =>
    rw [value?_simplify] at hx
    obtain ⟨s, hs, hsx⟩ := ih a List.mem_cons_self x hx
    refine ⟨.simplify s, mapChildren_eq_ok_iff.2 ⟨[s], .cons hs .nil, rfl⟩, ?_⟩
    rw [value?_simplify]
    exact hsx
  all_goals cases hx

/-- An expression with a value has a simplified form with the same value. -/
theorem exists_simplified_of_value? {e : Expr F} {x : F} (hx : e.value? ρ = some x) :
    SimplifiesTo ρ e x := by
  induction e using simplified_induct generalizing x with
  | step e ihc ihn =>
    obtain ⟨node, hnode, hnx⟩ := exists_mapChildren_of_value? hx fun c hc y hy => ihc c hc hy
    obtain ⟨next, hr, hk⟩ := keeps_reduce? hnx
    cases next with
    | none =>
      exact ⟨node, simplified_eq_ok_iff.2 ⟨node, hnode, .inl ⟨hr, rfl⟩⟩, hnx⟩
    | some next =>
      obtain ⟨s, hs, hsx⟩ := ihn node next hnode hr (hk next rfl)
      exact ⟨s, simplified_eq_ok_iff.2 ⟨node, hnode, .inr ⟨next, hr, hs⟩⟩, hsx⟩

/-- Simplification keeps the meaning of arithmetic expressions: a simplified form has the
value of the expression wherever the expression is defined, and where simplification
reports a division by zero the expression is defined nowhere. In particular, nothing that
is defined somewhere fails to be simplified. -/
theorem simplified_meaning (t : Expr F) :
    (∀ s, t.simplified = .ok s →
      ∀ (ρ : String → F) (x : F), t.value? ρ = some x → s.value? ρ = some x) ∧
    (t.simplified = .error .divideByZero → ∀ ρ : String → F, t.value? ρ = none) ∧
    (∀ (ρ : String → F) (x : F), t.value? ρ = some x → ∃ s, t.simplified = .ok s) := by
  refine ⟨?_, ?_, ?_⟩
  · intro s hs ρ x hx
    obtain ⟨s', hs', hsx⟩ := exists_simplified_of_value? hx
    rw [hs] at hs'
    rw [Except.ok.inj hs']
    exact hsx
  · intro herr ρ
    cases hx : t.value? ρ with
    | none => rfl
    | some x =>
      obtain ⟨s, hs, _⟩ := exists_simplified_of_value? hx
      rw [herr] at hs
      cases hs
  · intro ρ x hx
    obtain ⟨s, hs, _⟩ := exists_simplified_of_value? hx
    exact ⟨s, hs⟩

/-- Over the rational numbers, one is the value of `x / x` where `x` is four, and `x / 0` is
defined nowhere. -/
theorem simplified_meaning_rat :
    (Expr.one : Expr ℚ).value? (fun _ => 4) = some 1 ∧
      ∀ ρ : String → ℚ, (Expr.div (.var "x") .zero : Expr ℚ).value? ρ = none := by
  constructor
  · have hself : (Expr.div (.var "x") (.var "x") : Expr ℚ).simplified = .ok .one := by
      rw [simplified_binary_eq (simplified_var "x") (simplified_var "x")]
      exact simplified_number 1
    have hvalue : (Expr.div (.var "x") (.var "x") : Expr ℚ).value? (fun _ => 4) = some 1 :=
      value?_div_eq_some_iff.2 ⟨4, 4, rfl, rfl, by norm_num, by norm_num⟩
    exact (simplified_meaning _).1 _ hself (fun _ => 4) 1 hvalue
  · have hzero : (Expr.div (.var "x") .zero : Expr ℚ).simplified = .error .divideByZero := by
      rw [simplified_binary_eq (simplified_var "x") (simplified_number 0)]
      rfl
    exact (simplified_meaning _).2.1 hzero

end SymbolicAlgebra.Expr
