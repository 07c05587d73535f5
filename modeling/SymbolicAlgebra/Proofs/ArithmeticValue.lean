import SymbolicAlgebra.Proofs.ExactScalar

set_option autoImplicit false

/-!
# The value of an arithmetic expression

An expression built from real literals and variables with signs and the four operations has
a value once its variables have (`Expr.value?`), unless some divisor is zero. A request for
simplification has the value of its operand. Expressions that are the same have the same value
(`value?_eq_of_same`), so a rule that compares its operands may replace one by the other.
-/

namespace SymbolicAlgebra

variable {F : Type} [ExactScalar F]

/-- The value of an arithmetic operation; a quotient over zero has none. -/
def arithmetic? (op : BinaryOp) (a b : F) : Option F :=
  match op with
  | .add => some (a + b)
  | .sub => some (a - b)
  | .mul => some (a * b)
  | .div => if b = 0 then none else some (a / b)
  | _ => none

/-- A quotient is defined exactly where the divisor is not zero. -/
theorem arithmetic?_div_eq_some_iff {a b x : F} :
    arithmetic? .div a b = some x ↔ b ≠ 0 ∧ a / b = x := by
  rw [arithmetic?]
  by_cases hb : b = 0
  · simp [hb]
  · simp [hb]

namespace Expr

/-- The value under an assignment of the variables. There is none where a divisor is zero or
where a node is no arithmetic. -/
def value? (ρ : String → F) : Expr F → Option F
  | .number v => some v
  | .var x => some (ρ x)
  | .unary .negate e => (value? ρ e).map fun a => -a
  | .binary op l r =>
    match value? ρ l, value? ρ r with
    | some a, some b => arithmetic? op a b
    | _, _ => none
  | .simplify e => value? ρ e
  | _ => none

variable {ρ : String → F}

/-! ## Values of the operations -/

@[simp] theorem value?_number (v : F) : (Expr.number v).value? ρ = some v := by
  rw [value?]

@[simp] theorem value?_simplify (e : Expr F) : (Expr.simplify e).value? ρ = e.value? ρ := by
  rw [value?]

/-- An opposite has a value exactly where its operand has the opposite one. -/
theorem value?_neg_eq_some_iff {e : Expr F} {x : F} :
    (Expr.neg e).value? ρ = some x ↔ ∃ a, e.value? ρ = some a ∧ -a = x := by
  rw [value?, Option.map_eq_some_iff]

/-- Only the opposite is arithmetic on one operand. -/
theorem value?_unary_of_ne {op : UnaryOp} (h : op ≠ .negate) (e : Expr F) :
    (Expr.unary op e).value? ρ = none := by
  cases op
  case negate => exact absurd rfl h
  all_goals rfl

/-- An operation on two operands has a value exactly where the operands have values on which
it is defined. -/
theorem value?_binary_eq_some_iff {op : BinaryOp} {l r : Expr F} {x : F} :
    (Expr.binary op l r).value? ρ = some x ↔
      ∃ a b, l.value? ρ = some a ∧ r.value? ρ = some b ∧ arithmetic? op a b = some x := by
  rw [value?]
  cases l.value? ρ <;> cases r.value? ρ <;> simp

/-- The value of a sum. -/
theorem value?_add_eq_some_iff {l r : Expr F} {x : F} :
    (Expr.add l r).value? ρ = some x ↔
      ∃ a b, l.value? ρ = some a ∧ r.value? ρ = some b ∧ a + b = x := by
  rw [value?_binary_eq_some_iff]
  simp only [arithmetic?, Option.some.injEq]

/-- The value of a difference. -/
theorem value?_sub_eq_some_iff {l r : Expr F} {x : F} :
    (Expr.sub l r).value? ρ = some x ↔
      ∃ a b, l.value? ρ = some a ∧ r.value? ρ = some b ∧ a - b = x := by
  rw [value?_binary_eq_some_iff]
  simp only [arithmetic?, Option.some.injEq]

/-- The value of a product. -/
theorem value?_mul_eq_some_iff {l r : Expr F} {x : F} :
    (Expr.mul l r).value? ρ = some x ↔
      ∃ a b, l.value? ρ = some a ∧ r.value? ρ = some b ∧ a * b = x := by
  rw [value?_binary_eq_some_iff]
  simp only [arithmetic?, Option.some.injEq]

/-- The value of a quotient, whose divisor is not zero. -/
theorem value?_div_eq_some_iff {l r : Expr F} {x : F} :
    (Expr.div l r).value? ρ = some x ↔
      ∃ a b, l.value? ρ = some a ∧ r.value? ρ = some b ∧ b ≠ 0 ∧ a / b = x := by
  rw [value?_binary_eq_some_iff]
  simp only [arithmetic?_div_eq_some_iff]

/-! ## Expressions that are the same -/

/-- Expressions that are the same have the same value. -/
theorem value?_eq_of_same {e e' : Expr F} (h : e.same e' = true) :
    e.value? ρ = e'.value? ρ := by
  induction e using Expr.induction generalizing e' with
  | step e ih =>
    cases e
    case number v =>
      cases e' <;> simp only [same, Bool.false_eq_true] at h
      rw [(ExactScalar.same_iff _ _).1 h]
    case var x =>
      cases e' <;> simp only [same, Bool.false_eq_true, beq_iff_eq] at h
      rw [h]
    case unary op a =>
      cases e' <;> simp only [same, Bool.false_eq_true, Bool.and_eq_true, decide_eq_true_eq] at h
      obtain ⟨rfl, ha⟩ := h
      by_cases hop : op = .negate
      · subst hop
        rw [value?, value?, ih a List.mem_cons_self ha]
      · rw [value?_unary_of_ne hop, value?_unary_of_ne hop]
    case binary op l r =>
      cases e' <;> simp only [same, Bool.false_eq_true, Bool.and_eq_true, decide_eq_true_eq] at h
      obtain ⟨rfl, hl, hr⟩ := h
      have hvl := ih l List.mem_cons_self hl
      have hvr := ih r (List.mem_cons_of_mem _ List.mem_cons_self) hr
      rw [value?, value?, hvl, hvr]
    case simplify a =>
      cases e' <;> simp only [same, Bool.false_eq_true] at h
      rw [value?_simplify, value?_simplify]
      exact ih a List.mem_cons_self h
    all_goals
      cases e' <;> simp only [same, Bool.false_eq_true] at h
      simp only [value?]

end Expr

end SymbolicAlgebra
