import SymbolicAlgebra.Expr.Substitution
import SymbolicAlgebra.Proofs.DerivativeMeaning

set_option autoImplicit false

/-!
# Polynomials: substitution and the chain rule

A polynomial expression (`Expr.IsPolynomial`) has a value under every assignment of its variables,
in every field over the literals (`Expr.valueAt`). A substitution of polynomials changes the value
as the assignment that it stands for does (`Expr.exists_substitute`), and the derivative that
differentiation finds obeys the chain rule for every derivation of the field
(`Expr.exists_derivativeBy_along`).
-/

namespace SymbolicAlgebra

open SymbolicAlgebra.Derivative

variable {C K : Type} [ExactScalar C] [Field K] [Algebra C K]

namespace Expr

/-! ## Polynomial expressions and their values -/

/-- An expression built from literals and variables by signs, sums, differences, products
and powers whose exponent is a literal for an integer. The exponent may be negative, because
the derivative of a power with the exponent zero has the exponent `-1`. -/
inductive IsPolynomial : Expr C → Prop where
  | number (c : C) : IsPolynomial (.number c)
  | var (x : String) : IsPolynomial (.var x)
  | neg {u : Expr C} (hu : IsPolynomial u) : IsPolynomial (.neg u)
  | add {u v : Expr C} (hu : IsPolynomial u) (hv : IsPolynomial v) : IsPolynomial (.add u v)
  | sub {u v : Expr C} (hu : IsPolynomial u) (hv : IsPolynomial v) : IsPolynomial (.sub u v)
  | mul {u v : Expr C} (hu : IsPolynomial u) (hv : IsPolynomial v) : IsPolynomial (.mul u v)
  | pow {u : Expr C} (hu : IsPolynomial u) (n : ℤ) : IsPolynomial (.pow u (.number n))

/-- The value of a polynomial expression under an assignment of the variables, and zero for
every other expression. A division by zero is read as zero. -/
noncomputable def valueAt (ρ : String → K) : Expr C → K
  | .number c => algebraMap C K c
  | .var x => ρ x
  | .unary .negate u => -valueAt ρ u
  | .binary .add u v => valueAt ρ u + valueAt ρ v
  | .binary .sub u v => valueAt ρ u - valueAt ρ v
  | .binary .mul u v => valueAt ρ u * valueAt ρ v
  | .binary .pow u v => (v.exponent?.map fun n => valueAt ρ u ^ n).getD 0
  | _ => 0

variable {ρ : String → K}

/-- The value of a power whose exponent is a literal for an integer. -/
theorem valueAt_pow [CharZero C] (u : Expr C) (n : ℤ) :
    (Expr.pow u (.number n)).valueAt ρ = u.valueAt ρ ^ n := by
  have hexp : (Expr.number (n : C)).exponent? = some n := integerLiteral?_cast n
  rw [valueAt, hexp]
  rfl

@[simp] theorem valueAt_neg (u : Expr C) : (Expr.neg u).valueAt ρ = -u.valueAt ρ := rfl

@[simp] theorem valueAt_add (u v : Expr C) :
    (Expr.add u v).valueAt ρ = u.valueAt ρ + v.valueAt ρ := rfl

@[simp] theorem valueAt_sub (u v : Expr C) :
    (Expr.sub u v).valueAt ρ = u.valueAt ρ - v.valueAt ρ := rfl

@[simp] theorem valueAt_mul (u v : Expr C) :
    (Expr.mul u v).valueAt ρ = u.valueAt ρ * v.valueAt ρ := rfl

@[simp] theorem valueAt_zero : (Expr.zero : Expr C).valueAt ρ = 0 := by
  rw [valueAt, ExactScalar.numeral_zero, map_zero]

@[simp] theorem valueAt_one : (Expr.one : Expr C).valueAt ρ = 1 := by
  rw [valueAt, ExactScalar.numeral_one, map_one]

end Expr

/-- In an interpretation a polynomial expression has its value under the assignment that the
interpretation gives. -/
theorem Interpretation.value?_eq_valueAt [CharZero C] (I : Interpretation C K) {e : Expr C}
    (he : e.IsPolynomial) : I.value? .zero e = some (e.valueAt I.var) := by
  induction he with
  | number c => rfl
  | var x => rfl
  | neg _ ih => exact Interpretation.value?_opposite ih
  | add _ _ ihu ihv => exact Interpretation.value?_add ihu ihv
  | sub _ _ ihu ihv => exact Interpretation.value?_sub ihu ihv
  | mul _ _ ihu ihv => exact Interpretation.value?_mul ihu ihv
  | pow _ n ih => rw [Expr.valueAt_pow, Interpretation.value?_pow ih n rfl]

namespace Expr

/-! ## Substitution -/

/-- A substitution of polynomials in a polynomial gives a polynomial. Its value is the one
of the original under the assignment that gives each variable the value of what is put in
its place. -/
theorem exists_substitute [CharZero C] {σ : Bindings C}
    (hσ : ∀ x a, σ x = some a → a.IsPolynomial) {e : Expr C} (he : e.IsPolynomial) :
    ∃ s, e.substitute σ = .ok s ∧ s.IsPolynomial ∧
      ∀ ρ : String → K, s.valueAt ρ = e.valueAt fun x => ((σ x).getD (.var x)).valueAt ρ := by
  induction he with
  | number c => exact ⟨_, rfl, .number c, fun _ => rfl⟩
  | var x =>
    refine ⟨_, rfl, ?_, fun _ => rfl⟩
    cases hx : σ x with
    | none => exact .var x
    | some a => exact hσ x a hx
  | neg _ ih =>
    obtain ⟨s, hs, hp, hv⟩ := ih
    refine ⟨.neg s, by rw [substitute, hs]; rfl, .neg hp, fun ρ => ?_⟩
    rw [valueAt, valueAt, hv]
  | add _ _ ihu ihv | sub _ _ ihu ihv | mul _ _ ihu ihv =>
    obtain ⟨s, hs, hp, hv⟩ := ihu
    obtain ⟨t, ht, hq, hw⟩ := ihv
    refine ⟨.binary _ s t, by rw [substitute, hs, ht]; rfl, ?_, fun ρ => ?_⟩
    · constructor <;> assumption
    · rw [valueAt, valueAt, hv, hw]
  | pow _ n ih =>
    obtain ⟨s, hs, hp, hv⟩ := ih
    refine ⟨.pow s (.number n), by rw [substitute, hs]; rfl, .pow hp n, fun ρ => ?_⟩
    rw [valueAt_pow, valueAt_pow, hv]

/-! ## The chain rule -/

/-- A derivation under which every variable of the expression is constant takes the value of
the expression to zero. -/
theorem map_valueAt_eq_zero [CharZero C] {ρ : String → K} {δ : Derivation C K K} {e : Expr C}
    (he : e.IsPolynomial) (h : ∀ y, e.containsVar y = true → δ (ρ y) = 0) :
    δ (e.valueAt ρ) = 0 := by
  induction he with
  | number c => exact δ.map_algebraMap c
  | var x => exact h x (beq_self_eq_true x)
  | neg _ ih => rw [valueAt, map_neg, ih h, neg_zero]
  | add _ _ ihu ihv | sub _ _ ihu ihv | mul _ _ ihu ihv =>
    have hu := ihu fun y hy => h y (Bool.or_eq_true_iff.2 (.inl hy))
    have hv := ihv fun y hy => h y (Bool.or_eq_true_iff.2 (.inr hy))
    rw [valueAt]
    simp only [map_add, map_sub, Derivation.leibniz, hu, hv, smul_zero, add_zero, sub_zero]
  | pow _ n ih =>
    have hu := ih fun y hy => h y (Bool.or_eq_true_iff.2 (.inl hy))
    rw [valueAt_pow, Derivation.leibniz_zpow, hu, smul_zero, smul_zero]

/-- A derivative of the expression by `p` obeys the chain rule: under every assignment, each
derivation for which all other variables are constant takes the value of the expression to
the value of the derivative times the derivation of `p`. -/
structure DerivesAlong (K : Type) [Field K] [Algebra C K] (p : String) (d e : Expr C) : Prop where
  polynomial : d.IsPolynomial
  chain : ∀ (ρ : String → K) (δ : Derivation C K K), (∀ y, y ≠ p → δ (ρ y) = 0) →
    δ (e.valueAt ρ) = d.valueAt ρ * δ (ρ p)

/-- Zero is the derivative of what does not contain the variable. -/
theorem derivesAlong_zero [CharZero C] {p : String} {e : Expr C} (he : e.IsPolynomial)
    (hp : e.containsVar p = false) : DerivesAlong K p .zero e where
  polynomial := .number _
  chain ρ δ h := by
    rw [valueAt_zero, zero_mul]
    refine map_valueAt_eq_zero he fun y hy => h y ?_
    rintro rfl
    rw [hp] at hy
    cases hy

section Rules

/-- The derivative of an operand, zero where it is left out. -/
def slope (o : Operand C) : Expr C := o.derivative?.getD .zero

variable {ρ : String → K} {p : String} {u v : Operand C}

theorem isPolynomial_sumRule {op : BinaryOp} (hop : op = .add ∨ op = .sub)
    (hu : (slope u).IsPolynomial) (hv : (slope v).IsPolynomial) :
    (sumRule op u v).IsPolynomial := by
  rcases u with ⟨u, _ | du⟩ <;> rcases v with ⟨v, _ | dv⟩
  · exact .number _
  · rcases hop with rfl | rfl
    · exact hv
    · exact .neg hv
  · exact hu
  · rcases hop with rfl | rfl
    · exact .add hu hv
    · exact .sub hu hv

theorem isPolynomial_productRule (hpu : u.expr.IsPolynomial) (hpv : v.expr.IsPolynomial)
    (hu : (slope u).IsPolynomial) (hv : (slope v).IsPolynomial) :
    (productRule u v).IsPolynomial := by
  rcases u with ⟨u, _ | du⟩ <;> rcases v with ⟨v, _ | dv⟩
  · exact .number _
  · exact .mul hpu hv
  · exact .mul hpv hu
  · exact .add (.mul hu hpv) (.mul hpu hv)

theorem valueAt_sumRule_add :
    (sumRule .add u v).valueAt ρ = (slope u).valueAt ρ + (slope v).valueAt ρ := by
  rcases u with ⟨u, _ | du⟩ <;> rcases v with ⟨v, _ | dv⟩ <;> simp [sumRule, slope]

theorem valueAt_sumRule_sub :
    (sumRule .sub u v).valueAt ρ = (slope u).valueAt ρ - (slope v).valueAt ρ := by
  rcases u with ⟨u, _ | du⟩ <;> rcases v with ⟨v, _ | dv⟩ <;> simp [sumRule, slope]

theorem valueAt_productRule : (productRule u v).valueAt ρ =
    (slope u).valueAt ρ * v.expr.valueAt ρ + u.expr.valueAt ρ * (slope v).valueAt ρ := by
  rcases u with ⟨u, _ | du⟩ <;> rcases v with ⟨v, _ | dv⟩ <;> simp [productRule, slope, mul_comm]

/-- The literal for the exponent of a derived power. -/
theorem minusOne_intCast (n : ℤ) :
    minusOne (.number (n : C)) = .number ((n - 1 : ℤ) : C) := by
  rw [minusOne, ExactScalar.numeral_one, Int.cast_sub, Int.cast_one]

theorem isPolynomial_powerRule (hpu : u.expr.IsPolynomial) (hu : (slope u).IsPolynomial)
    (n : ℤ) : (powerRule u ⟨.number n, none⟩).IsPolynomial := by
  rcases u with ⟨u, _ | du⟩
  · exact .number _
  · rw [powerRule, minusOne_intCast]
    exact .mul (.mul (.number _) (.pow hpu (n - 1))) hu

theorem valueAt_powerRule [CharZero C] (n : ℤ) : (powerRule u ⟨.number n, none⟩).valueAt ρ =
    n * u.expr.valueAt ρ ^ (n - 1) * (slope u).valueAt ρ := by
  rcases u with ⟨u, _ | du⟩
  · simp [powerRule, slope]
  · rw [powerRule, minusOne_intCast]
    dsimp only
    rw [valueAt_mul, valueAt_mul, valueAt_pow, valueAt, map_intCast]
    rfl

/-! ### The rules obey the chain rule -/

theorem derivesAlong_neg {e d : Expr C} (h : DerivesAlong K p d e) :
    DerivesAlong K p (.neg d) (.neg e) where
  polynomial := .neg h.polynomial
  chain ρ δ hρ := by
    rw [valueAt_neg, valueAt_neg, map_neg, h.chain ρ δ hρ, neg_mul]

theorem derivesAlong_add (hu : DerivesAlong K p (slope u) u.expr)
    (hv : DerivesAlong K p (slope v) v.expr) :
    DerivesAlong K p (sumRule .add u v) (.add u.expr v.expr) where
  polynomial := isPolynomial_sumRule (.inl rfl) hu.polynomial hv.polynomial
  chain ρ δ hρ := by
    rw [valueAt_sumRule_add, valueAt_add, map_add, hu.chain ρ δ hρ, hv.chain ρ δ hρ, add_mul]

theorem derivesAlong_sub (hu : DerivesAlong K p (slope u) u.expr)
    (hv : DerivesAlong K p (slope v) v.expr) :
    DerivesAlong K p (sumRule .sub u v) (.sub u.expr v.expr) where
  polynomial := isPolynomial_sumRule (.inr rfl) hu.polynomial hv.polynomial
  chain ρ δ hρ := by
    rw [valueAt_sumRule_sub, valueAt_sub, map_sub, hu.chain ρ δ hρ, hv.chain ρ δ hρ, sub_mul]

theorem derivesAlong_mul (hpu : u.expr.IsPolynomial) (hpv : v.expr.IsPolynomial)
    (hu : DerivesAlong K p (slope u) u.expr) (hv : DerivesAlong K p (slope v) v.expr) :
    DerivesAlong K p (productRule u v) (.mul u.expr v.expr) where
  polynomial := isPolynomial_productRule hpu hpv hu.polynomial hv.polynomial
  chain ρ δ hρ := by
    rw [valueAt_productRule, valueAt_mul, Derivation.leibniz, hu.chain ρ δ hρ,
      hv.chain ρ δ hρ, smul_eq_mul, smul_eq_mul]
    ring

theorem derivesAlong_pow [CharZero C] (hpu : u.expr.IsPolynomial)
    (hu : DerivesAlong K p (slope u) u.expr) (n : ℤ) :
    DerivesAlong K p (powerRule u ⟨.number n, none⟩) (.pow u.expr (.number n)) where
  polynomial := isPolynomial_powerRule hpu hu.polynomial n
  chain ρ δ hρ := by
    rw [valueAt_powerRule, valueAt_pow, Derivation.leibniz_zpow, hu.chain ρ δ hρ, smul_eq_mul,
      zsmul_eq_mul]
    ring

end Rules

section Nodes

variable [CharZero C] {p : String} {u v : Expr C}

/-- A node of a polynomial that may depend on the variable, from the derivative that its
rule gives. -/
theorem exists_derivativeBy_node {e : Expr C} (he : e.IsPolynomial)
    (hd : hasDerivative e = true)
    (h : e.containsVar p = true → ∃ d, e.derivativeBy p = .ok d ∧ DerivesAlong K p d e) :
    ∃ d, e.derivativeBy p = .ok d ∧ DerivesAlong K p d e := by
  cases hp : e.containsVar p with
  | false =>
    exact ⟨.zero, derivativeBy_of_containsVar_eq_false hd hp, derivesAlong_zero he hp⟩
  | true => exact h hp

/-- An operand is taken with a derivative that obeys the chain rule. -/
theorem exists_operandBy_along (hu : u.IsPolynomial)
    (ih : ∃ d, u.derivativeBy p = .ok d ∧ DerivesAlong K p d u) :
    ∃ o, u.operandBy p false = .ok o ∧ o.expr = u ∧ DerivesAlong K p (slope o) o.expr := by
  rw [operandBy, Bool.false_or]
  cases hp : u.containsVar p with
  | true =>
    obtain ⟨d, hd, hchain⟩ := ih
    rw [hd]
    exact ⟨⟨u, some d⟩, rfl, rfl, hchain⟩
  | false => exact ⟨⟨u, none⟩, rfl, rfl, derivesAlong_zero hu hp⟩

/-- A node over two operands, from what its rule makes of operands that are taken with their
derivatives. -/
theorem exists_derivativeBy_operation {op : BinaryOp} {order : OperandOrder}
    (hd : hasDerivative (.binary op u v) = true) (horder : operandOrder? op = some order)
    (hboth : order ≠ .both) (he : (Expr.binary op u v).IsPolynomial)
    (hu : u.IsPolynomial) (hv : v.IsPolynomial)
    (ihu : ∃ d, u.derivativeBy p = .ok d ∧ DerivesAlong K p d u)
    (ihv : ∃ d, v.derivativeBy p = .ok d ∧ DerivesAlong K p d v)
    (hrule : ∀ a b : Operand C, a.expr = u → b.expr = v → DerivesAlong K p (slope a) a.expr →
      DerivesAlong K p (slope b) b.expr →
      DerivesAlong K p (binaryRule op a b) (.binary op a.expr b.expr)) :
    ∃ d, (Expr.binary op u v).derivativeBy p = .ok d ∧
      DerivesAlong K p d (.binary op u v) := by
  refine exists_derivativeBy_node he hd fun hp => ?_
  obtain ⟨a, ha, rfl, ha'⟩ := exists_operandBy_along hu ihu
  obtain ⟨b, hb, rfl, hb'⟩ := exists_operandBy_along hv ihv
  refine ⟨binaryRule op a b, ?_, hrule a b rfl rfl ha' hb'⟩
  rw [derivativeBy_binary hd hp]
  exact binaryBy_eq_ok horder hboth ha hb

end Nodes

/-- Every polynomial has a derivative by every variable, and it obeys the chain rule. -/
theorem exists_derivativeBy_along [CharZero C] {e : Expr C} (he : e.IsPolynomial)
    (p : String) : ∃ d, e.derivativeBy p = .ok d ∧ DerivesAlong K p d e := by
  induction he with
  | number c =>
    exact ⟨.zero, derivativeBy_of_containsVar_eq_false rfl rfl, derivesAlong_zero (.number c) rfl⟩
  | var x =>
    refine exists_derivativeBy_node (.var x) rfl fun hp => ?_
    obtain rfl : x = p := beq_iff_eq.1 hp
    refine ⟨.one, derivativeBy_var x, .number _, fun ρ δ _ => ?_⟩
    rw [valueAt_one, one_mul, valueAt]
  | @neg u hu ih =>
    refine exists_derivativeBy_node (.neg hu) rfl fun hp => ?_
    obtain ⟨du, hdu, hchain⟩ := ih
    exact ⟨.neg du, (derivativeBy_unary_eq_ok_iff rfl hp).2 ⟨du, hdu, rfl⟩, derivesAlong_neg hchain⟩
  | add hu hv ihu ihv =>
    exact exists_derivativeBy_operation rfl rfl (by decide) (.add hu hv) hu hv ihu ihv
      fun a b _ _ ha hb => derivesAlong_add ha hb
  | sub hu hv ihu ihv =>
    exact exists_derivativeBy_operation rfl rfl (by decide) (.sub hu hv) hu hv ihu ihv
      fun a b _ _ ha hb => derivesAlong_sub ha hb
  | mul hu hv ihu ihv =>
    refine exists_derivativeBy_operation rfl rfl (by decide) (.mul hu hv) hu hv ihu ihv ?_
    rintro a b rfl rfl ha hb
    exact derivesAlong_mul hu hv ha hb
  | @pow u hu n ih =>
    -- The rule looks at whether the exponent has a derivative; a literal has none.
    refine exists_derivativeBy_node (.pow hu n) rfl fun hp => ?_
    obtain ⟨a, ha, rfl, hchain⟩ := exists_operandBy_along hu ih
    have hn : (Expr.number (n : C)).operandBy p false = .ok ⟨.number n, none⟩ := rfl
    refine ⟨powerRule a ⟨.number n, none⟩, ?_, derivesAlong_pow hu hchain n⟩
    rw [derivativeBy_binary rfl hp]
    exact binaryBy_eq_ok rfl (by decide) ha hn

end Expr

end SymbolicAlgebra
