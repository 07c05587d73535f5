import Mathlib.Tactic.FieldSimp
import Mathlib.Tactic.Ring
import SymbolicAlgebra.Proofs.DerivativeRun
import SymbolicAlgebra.Proofs.RationalFunctions

set_option autoImplicit false

/-!
# Differentiation computes the derivative

In a field with derivations the derivative of an expression by a variable has the value that
the derivation by this variable gives to the value of the expression (`differentiate_meaning`).

The proof reads every division by zero as zero. In this reading all the rules of
differentiation are identities of the field (`value?_chainRule?`, `value?_binaryRule`), so that
also an expression which comes up on the way, as the inner one of nested derivatives does, has the
right value (`exists_derivativeBy_of_value?`). Where the expression and its derivative are defined
without division by zero, the reading does not matter.
-/

namespace SymbolicAlgebra

namespace Interpretation

open SymbolicAlgebra.Derivative

variable {C K : Type} [ExactScalar C] [CharZero C] [Field K] [Algebra C K]
variable {I : Interpretation C K}

/-! ## Values of what the rules write -/

omit [CharZero C] in
theorem value?_zero_literal {z : ZeroDivision} : I.value? z .zero = some 0 := by
  rw [value?_numeral, Nat.cast_zero]

omit [CharZero C] in
theorem value?_one_literal {z : ZeroDivision} : I.value? z .one = some 1 := by
  rw [value?_numeral, Nat.cast_one]

omit [CharZero C] in
theorem value?_two_literal {z : ZeroDivision} : I.value? z .two = some 2 := by
  rw [value?_numeral]
  exact congrArg some Nat.cast_ofNat

section Nodes

variable {u v : Expr C} {a b : K}

omit [CharZero C] in
theorem value?_add (hu : I.value? .zero u = some a) (hv : I.value? .zero v = some b) :
    I.value? .zero (.add u v) = some (a + b) := by
  rw [value?_binary .add hu hv, operation?]

omit [CharZero C] in
theorem value?_sub (hu : I.value? .zero u = some a) (hv : I.value? .zero v = some b) :
    I.value? .zero (.sub u v) = some (a - b) := by
  rw [value?_binary .sub hu hv, operation?]

omit [CharZero C] in
theorem value?_mul (hu : I.value? .zero u = some a) (hv : I.value? .zero v = some b) :
    I.value? .zero (.mul u v) = some (a * b) := by
  rw [value?_binary .mul hu hv, operation?]

omit [CharZero C] in
theorem value?_div (hu : I.value? .zero u = some a) (hv : I.value? .zero v = some b) :
    I.value? .zero (.div u v) = some (a / b) := by
  rw [value?_binary .div hu hv, operation?, quotient?_zero]

omit [CharZero C] in
/-- A quotient with a value that the field knows under another form. -/
theorem value?_div_of_eq {c : K} (hu : I.value? .zero u = some a)
    (hv : I.value? .zero v = some b) (hc : a / b = c) :
    I.value? .zero (.div u v) = some c := by
  rw [value?_div hu hv, hc]

omit [CharZero C] in
theorem value?_opposite (hu : I.value? .zero u = some a) :
    I.value? .zero (.neg u) = some (-a) := by
  rw [value?_neg, hu, Option.map_some]

omit [CharZero C] in
theorem value?_function {op : UnaryOp} (hop : op ≠ .negate) (hu : I.value? .zero u = some a)
    (hb : I.apply op a = some b) : I.value? .zero (.unary op u) = some b := by
  rw [value?_unary hop, hu, Option.bind_some, hb]

/-- A power whose exponent is a literal for an integer. -/
theorem value?_pow (hu : I.value? .zero u = some a) (n : ℤ) {c : C} (hc : c = n) :
    I.value? .zero (.pow u (.number c)) = some (a ^ n) := by
  have hexp : (Expr.number c).exponent? = some n := by
    rw [hc]
    exact integerLiteral?_cast n
  rw [value?_binary .pow hu (value?_number c), operation?, hexp, Option.bind_some, power?_zero]

theorem value?_square (hu : I.value? .zero u = some a) :
    I.value? .zero (square u) = some (a ^ 2) := by
  have htwo : @OfNat.ofNat C 2 (Scalar.instNumeral 2) = ((2 : ℤ) : C) := by
    rw [ExactScalar.numeral_eq_cast]
    norm_num
  rw [value?_pow hu 2 htwo]
  norm_cast

end Nodes

/-! ## One operand -/

/-- The chain rule: the derivative of a function is its slope times the derivative of the
operand. -/
theorem value?_chainRule? {op : UnaryOp} {u du : Expr C} {a a' s : K}
    (hu : I.value? .zero u = some a) (hdu : I.value? .zero du = some a')
    (hs : slope? I.apply op a = some s) :
    ∃ d, chainRule? op u du = some d ∧ I.value? .zero d = some (s * a') := by
  have happ : ∀ {op : UnaryOp} {b : K}, op ≠ .negate → I.apply op a = some b →
      I.value? .zero (.unary op u) = some b := fun hop hb => value?_function hop hu hb
  have hsqrt : ∀ {e : Expr C} {x b : K}, I.value? .zero e = some x → I.apply .sqrt x = some b →
      I.value? .zero (.unary .sqrt e) = some b := fun hx hb => value?_function (by decide) hx hb
  have hone := value?_one_literal (I := I) (z := .zero)
  have htwo := value?_two_literal (I := I) (z := .zero)
  have hsq := value?_square (I := I) hu
  have hopp := value?_opposite (I := I) hdu
  cases op
  case sin | cosh | sinh | exp =>
    exact ⟨_, rfl, value?_mul (happ (by decide) hs) hdu⟩
  case cos =>
    obtain ⟨t, ht, rfl⟩ := Option.map_eq_some_iff.1 hs
    exact ⟨_, rfl, value?_mul (value?_opposite (happ (by decide) ht)) hdu⟩
  case tan | tanh =>
    obtain ⟨t, ht, rfl⟩ := Option.map_eq_some_iff.1 hs
    exact ⟨_, rfl, value?_div_of_eq hdu (value?_square (happ (by decide) ht)) (by ring)⟩
  case cot | coth =>
    obtain ⟨t, ht, rfl⟩ := Option.map_eq_some_iff.1 hs
    exact ⟨_, rfl, value?_div_of_eq hopp (value?_square (happ (by decide) ht)) (by ring)⟩
  case sec =>
    obtain ⟨p, hp, hs⟩ := Option.bind_eq_some_iff.1 hs
    obtain ⟨q, hq, hs⟩ := Option.bind_eq_some_iff.1 hs
    obtain rfl := Option.some.inj hs
    exact ⟨_, rfl, value?_mul (value?_mul (happ (by decide) hp) (happ (by decide) hq)) hdu⟩
  case csc | sech | csch =>
    obtain ⟨p, hp, hs⟩ := Option.bind_eq_some_iff.1 hs
    obtain ⟨q, hq, hs⟩ := Option.bind_eq_some_iff.1 hs
    obtain rfl := Option.some.inj hs
    have hpq := value?_mul (happ (by decide) hp) (happ (by decide) hq)
    exact ⟨_, rfl, value?_mul (value?_opposite hpq) hdu⟩
  case arcsin =>
    obtain ⟨t, ht, rfl⟩ := Option.map_eq_some_iff.1 hs
    exact ⟨_, rfl, value?_div_of_eq hdu (hsqrt (value?_sub hone hsq) ht) (by ring)⟩
  case arccos =>
    obtain ⟨t, ht, rfl⟩ := Option.map_eq_some_iff.1 hs
    exact ⟨_, rfl, value?_div_of_eq hopp (hsqrt (value?_sub hone hsq) ht) (by ring)⟩
  case arctan =>
    obtain rfl := Option.some.inj hs
    exact ⟨_, rfl, value?_div_of_eq hdu (value?_add hone hsq) (by ring)⟩
  case arccot =>
    obtain rfl := Option.some.inj hs
    exact ⟨_, rfl, value?_div_of_eq hopp (value?_add hone hsq) (by ring)⟩
  case arcsec =>
    obtain ⟨m, hm, hs⟩ := Option.bind_eq_some_iff.1 hs
    obtain ⟨t, ht, hs⟩ := Option.bind_eq_some_iff.1 hs
    obtain rfl := Option.some.inj hs
    have hroot := value?_mul (happ (by decide) hm) (hsqrt (value?_sub hsq hone) ht)
    exact ⟨_, rfl, value?_div_of_eq hdu hroot (by ring)⟩
  case arccsc =>
    obtain ⟨m, hm, hs⟩ := Option.bind_eq_some_iff.1 hs
    obtain ⟨t, ht, hs⟩ := Option.bind_eq_some_iff.1 hs
    obtain rfl := Option.some.inj hs
    have hroot := value?_mul (happ (by decide) hm) (hsqrt (value?_sub hsq hone) ht)
    exact ⟨_, rfl, value?_div_of_eq hopp hroot (by ring)⟩
  case arsinh =>
    obtain ⟨t, ht, rfl⟩ := Option.map_eq_some_iff.1 hs
    exact ⟨_, rfl, value?_div_of_eq hdu (hsqrt (value?_add hsq hone) ht) (by ring)⟩
  case arcosh =>
    obtain ⟨t, ht, rfl⟩ := Option.map_eq_some_iff.1 hs
    exact ⟨_, rfl, value?_div_of_eq hdu (hsqrt (value?_sub hsq hone) ht) (by ring)⟩
  case artanh | arcoth =>
    obtain rfl := Option.some.inj hs
    exact ⟨_, rfl, value?_div_of_eq hdu (value?_sub hone hsq) (by ring)⟩
  case arsech =>
    obtain ⟨t, ht, rfl⟩ := Option.map_eq_some_iff.1 hs
    have hroot := value?_mul hu (hsqrt (value?_sub hone hsq) ht)
    exact ⟨_, rfl, value?_div_of_eq hopp hroot (by ring)⟩
  case arcsch =>
    obtain ⟨m, hm, hs⟩ := Option.bind_eq_some_iff.1 hs
    obtain ⟨t, ht, hs⟩ := Option.bind_eq_some_iff.1 hs
    obtain rfl := Option.some.inj hs
    have hroot := value?_mul (happ (by decide) hm) (hsqrt (value?_add hone hsq) ht)
    exact ⟨_, rfl, value?_div_of_eq hopp hroot (by ring)⟩
  case ln =>
    obtain rfl := Option.some.inj hs
    exact ⟨_, rfl, value?_div_of_eq hdu hu (by ring)⟩
  case lg =>
    obtain ⟨t, ht, rfl⟩ := Option.map_eq_some_iff.1 hs
    have hten : I.value? .zero (.number 10) = some 10 := by
      rw [value?_numeral]
      exact congrArg some Nat.cast_ofNat
    have hln := value?_mul hu (value?_function (by decide) hten ht)
    exact ⟨_, rfl, value?_div_of_eq hdu hln (by ring)⟩
  case lb =>
    obtain ⟨t, ht, rfl⟩ := Option.map_eq_some_iff.1 hs
    have hln := value?_mul hu (value?_function (by decide) htwo ht)
    exact ⟨_, rfl, value?_div_of_eq hdu hln (by ring)⟩
  case sqrt =>
    obtain ⟨t, ht, rfl⟩ := Option.map_eq_some_iff.1 hs
    exact ⟨_, rfl, value?_div_of_eq hdu (value?_mul htwo (happ (by decide) ht)) (by ring)⟩
  case abs =>
    obtain ⟨m, hm, rfl⟩ := Option.map_eq_some_iff.1 hs
    exact ⟨_, rfl, value?_mul (value?_div hu (happ (by decide) hm)) hdu⟩
  case reciprocal =>
    obtain rfl := Option.some.inj hs
    exact ⟨_, rfl, value?_div_of_eq hopp hsq (by ring)⟩
  all_goals cases hs

/-! ## Two operands -/

/-- The operand has the value `a`; its derivative, if there is one, has the value that the
derivation gives to `a`, and without a derivative the derivation gives zero. -/
structure ReadsOperand (I : Interpretation C K) (x : String) (o : Operand C) (a : K) :
    Prop where
  /-- The value of the operand. -/
  expr : I.value? .zero o.expr = some a
  /-- The value of the derivative. -/
  derivative : ∀ d, o.derivative? = some d → I.value? .zero d = some (I.D x a)
  /-- An operand without a derivative is constant. -/
  constant : o.derivative? = none → I.D x a = 0

section Binary

variable {x : String} {u v : Operand C} {a b : K}

omit [CharZero C] in
/-- The rule for sums. -/
theorem value?_sumRule_add (hu : I.ReadsOperand x u a) (hv : I.ReadsOperand x v b) :
    I.value? .zero (sumRule .add u v) = some (I.D x (a + b)) := by
  rw [map_add]
  unfold sumRule
  split
  · rename_i du dv hdu hdv
    exact value?_add (hu.derivative du hdu) (hv.derivative dv hdv)
  · rename_i du hdu hdv
    rw [hv.constant hdv, add_zero]
    exact hu.derivative du hdu
  · rename_i dv hdu hdv
    rw [hu.constant hdu, zero_add]
    exact hv.derivative dv hdv
  · rename_i hdu hdv
    rw [hu.constant hdu, hv.constant hdv, add_zero]
    exact value?_zero_literal

omit [CharZero C] in
/-- The rule for differences. -/
theorem value?_sumRule_sub (hu : I.ReadsOperand x u a) (hv : I.ReadsOperand x v b) :
    I.value? .zero (sumRule .sub u v) = some (I.D x (a - b)) := by
  rw [map_sub]
  unfold sumRule
  split
  · rename_i du dv hdu hdv
    exact value?_sub (hu.derivative du hdu) (hv.derivative dv hdv)
  · rename_i du hdu hdv
    rw [hv.constant hdv, sub_zero]
    exact hu.derivative du hdu
  · rename_i dv hdu hdv
    rw [hu.constant hdu, zero_sub]
    exact value?_opposite (hv.derivative dv hdv)
  · rename_i hdu hdv
    rw [hu.constant hdu, hv.constant hdv, sub_zero]
    exact value?_zero_literal

omit [CharZero C] in
/-- The rule for products. -/
theorem value?_productRule (hu : I.ReadsOperand x u a) (hv : I.ReadsOperand x v b) :
    I.value? .zero (productRule u v) = some (I.D x (a * b)) := by
  have hD : I.D x (a * b) = I.D x a * b + a * I.D x b := by
    rw [Derivation.leibniz, smul_eq_mul, smul_eq_mul]
    ring
  rw [hD]
  unfold productRule
  split
  · rename_i du dv hdu hdv
    exact value?_add (value?_mul (hu.derivative du hdu) hv.expr)
      (value?_mul hu.expr (hv.derivative dv hdv))
  · rename_i du hdu hdv
    rw [hv.constant hdv, mul_zero, add_zero, mul_comm]
    exact value?_mul hv.expr (hu.derivative du hdu)
  · rename_i dv hdu hdv
    rw [hu.constant hdu, zero_mul, zero_add]
    exact value?_mul hu.expr (hv.derivative dv hdv)
  · rename_i hdu hdv
    rw [hu.constant hdu, hv.constant hdv, zero_mul, mul_zero, add_zero]
    exact value?_zero_literal

/-- The rule for quotients. -/
theorem value?_quotientRule (hu : I.ReadsOperand x u a) (hv : I.ReadsOperand x v b) :
    I.value? .zero (quotientRule u v) = some (I.D x (a / b)) := by
  have hD : I.D x (a / b) = (I.D x a * b - a * I.D x b) / b ^ 2 := by
    rw [Derivation.leibniz_div, smul_eq_mul, smul_eq_mul, smul_eq_mul]
    ring
  unfold quotientRule
  split
  · rename_i du dv hdu hdv
    rw [hD]
    exact value?_div (value?_sub (value?_mul (hu.derivative du hdu) hv.expr)
      (value?_mul hu.expr (hv.derivative dv hdv))) (value?_square hv.expr)
  · rename_i du hdu hdv
    rw [Derivation.leibniz_div_const _ _ _ (hv.constant hdv), smul_eq_mul, inv_mul_eq_div]
    exact value?_div (hu.derivative du hdu) hv.expr
  · rename_i dv hdu hdv
    rw [hD, hu.constant hdu, zero_mul, zero_sub]
    exact value?_div (value?_opposite (value?_mul hu.expr (hv.derivative dv hdv)))
      (value?_square hv.expr)
  · rename_i hdu hdv
    rw [hD, hu.constant hdu, hv.constant hdv, zero_mul, mul_zero, sub_zero, zero_div]
    exact value?_zero_literal

/-- The rule for powers whose exponent is a literal for an integer. -/
theorem value?_powerRule {c : C} (hu : I.ReadsOperand x u a) (hv : v = ⟨.number c, none⟩)
    (n : ℤ) (hc : c = n) : I.value? .zero (powerRule u v) = some (I.D x (a ^ n)) := by
  subst hv
  rw [Derivation.leibniz_zpow]
  unfold powerRule
  cases hdu : u.derivative? with
  | none =>
    rw [hu.constant hdu, smul_zero, smul_zero]
    exact value?_zero_literal
  | some du =>
    have hpred : c - @OfNat.ofNat C 1 (Scalar.instNumeral 1) = ((n - 1 : ℤ) : C) := by
      rw [ExactScalar.numeral_one, hc, Int.cast_sub, Int.cast_one]
    have hpower : I.value? .zero (.pow u.expr (minusOne (.number c))) = some (a ^ (n - 1)) :=
      value?_pow hu.expr (n - 1) hpred
    have hn : algebraMap C K c = (n : K) := by
      rw [hc, map_intCast]
    rw [zsmul_eq_mul, smul_eq_mul, ← mul_assoc, ← hn]
    exact value?_mul (value?_mul (value?_number c) hpower) (hu.derivative du hdu)

/-- The rules of differentiation for two operands are right. Where the second operand is a
literal, it is taken without a derivative. -/
theorem value?_binaryRule {op : BinaryOp} {c : K} (hu : I.ReadsOperand x u a)
    (hv : I.ReadsOperand x v b) (hliteral : ∀ e, v.expr = .number e → v.derivative? = none)
    (hc : operation? .zero op v.expr.exponent? a b = some c) :
    I.value? .zero (binaryRule op u v) = some (I.D x c) := by
  cases op
  case add =>
    rw [← Option.some.inj hc]
    exact value?_sumRule_add hu hv
  case sub =>
    rw [← Option.some.inj hc]
    exact value?_sumRule_sub hu hv
  case mul =>
    rw [← Option.some.inj hc]
    exact value?_productRule hu hv
  case div =>
    rw [operation?, quotient?_zero] at hc
    rw [← Option.some.inj hc]
    exact value?_quotientRule hu hv
  case pow =>
    obtain ⟨n, hn, hc⟩ := Option.bind_eq_some_iff.1 hc
    obtain ⟨e, he, hen⟩ := Option.bind_eq_some_iff.1 hn
    have hexpr := Rule.eq_number_of_asNumber? he
    rw [power?_zero] at hc
    rw [← Option.some.inj hc]
    obtain ⟨v, dv⟩ := v
    obtain rfl : dv = none := hliteral e hexpr
    obtain rfl : v = .number e := hexpr
    exact value?_powerRule hu rfl n (cast_of_integerLiteral? hen).symm
  all_goals cases hc

end Binary

/-! ## All nodes -/

/-- The derivative of an expression with the value `a` exists, by every variable, and its
value is the one that the derivation gives to `a`. -/
def Differentiates (I : Interpretation C K) (e : Expr C) (a : K) : Prop :=
  ∀ x, ∃ d, e.derivativeBy x = .ok d ∧ I.value? .zero d = some (I.D x a)

omit [CharZero C] in
/-- A node with a value is of a kind that may have a derivative. -/
theorem hasDerivative_of_value? {z : ZeroDivision} {e : Expr C} {a : K}
    (h : I.value? z e = some a) : hasDerivative e = true := by
  refine value?_rec (motive := fun e _ => hasDerivative e = true)
    ?number ?var ?negate ?function ?binary ?rational ?sum ?simplify ?derivative h
  case function =>
    intro op e a b _ _ _ hb
    obtain ⟨s, hs, _⟩ := I.D_apply op a b hb
    cases op <;> first | rfl | cases hs
  case binary =>
    intro op l r a b c _ _ _ _ hc
    cases op <;> first | rfl | cases hc
  all_goals
    intros
    rfl

omit [CharZero C] in
/-- An operand is taken with the right derivative. -/
theorem exists_operandBy {x : String} {u : Expr C} {a : K} (hu : I.value? .zero u = some a)
    (ih : I.Differentiates u a) :
    ∃ o : Operand C, u.operandBy x false = .ok o ∧ o.expr = u ∧ I.ReadsOperand x o a ∧
      (u.containsVar x = false → o.derivative? = none) := by
  rw [Expr.operandBy, Bool.false_or]
  cases hx : u.containsVar x with
  | true =>
    obtain ⟨d, hd, hval⟩ := ih x
    rw [hd]
    refine ⟨⟨u, some d⟩, rfl, rfl, ⟨hu, ?_, ?_⟩, ?_⟩
    · intro d' hd'
      rw [← Option.some.inj hd']
      exact hval
    · intro h
      cases h
    · intro h
      cases h
  | false =>
    refine ⟨⟨u, none⟩, rfl, rfl, ⟨hu, ?_, ?_⟩, ?_⟩
    · intro d' hd'
      cases hd'
    · intro _
      exact D_eq_zero_of_containsVar_eq_false hu hx
    · intro _
      rfl

/-- An operation on operands with the right derivatives has the right derivative. -/
theorem exists_binaryBy {x : String} {op : BinaryOp} {l r : Expr C} {a b c : K}
    (hl : I.value? .zero l = some a) (ihl : I.Differentiates l a)
    (hr : I.value? .zero r = some b) (ihr : I.Differentiates r b)
    (hc : operation? .zero op r.exponent? a b = some c) :
    ∃ d, Expr.binaryBy x op l r = .ok d ∧ I.value? .zero d = some (I.D x c) := by
  obtain ⟨u, hu, hul, hua, _⟩ := exists_operandBy (x := x) hl ihl
  obtain ⟨v, hv, hvr, hvb, hconst⟩ := exists_operandBy (x := x) hr ihr
  have hliteral : ∀ e, v.expr = .number e → v.derivative? = none := by
    intro e he
    apply hconst
    rw [← hvr, he]
    rfl
  rw [← hvr] at hc
  refine ⟨binaryRule op u v, ?_, value?_binaryRule hua hvb hliteral hc⟩
  cases op
  case add | sub | mul | div | pow => exact Expr.binaryBy_eq_ok rfl (by decide) hu hv
  all_goals cases hc

omit [CharZero C] in
/-- The derivatives of the members of a list add up to the derivative of the sum. -/
theorem exists_mapM_derivativeBy {x : String} {es : List (Expr C)} {bs : List K}
    (h : List.Forall₂ (fun e b => I.value? .zero e = some b ∧ I.Differentiates e b) es bs) :
    ∃ ds, es.mapM (Expr.derivativeBy x) = .ok ds ∧ I.total? .zero ds = some (I.D x bs.sum) := by
  induction h with
  | nil =>
    refine ⟨[], rfl, ?_⟩
    rw [List.sum_nil, map_zero]
    exact total?_nil
  | cons he _ ih =>
    obtain ⟨d, hd, hval⟩ := he.2 x
    obtain ⟨ds, hds, htotal⟩ := ih
    obtain ⟨cs, hcs, hsum⟩ := total?_eq_some_iff.1 htotal
    refine ⟨d :: ds, ?_, ?_⟩
    · rw [List.mapM_cons, hd, hds]
      rfl
    · refine total?_eq_some_iff.2 ⟨_ :: cs, .cons hval hcs, ?_⟩
      rw [List.sum_cons, hsum, List.sum_cons, map_add]

/-- A function of an operand with the right derivatives has the right derivative. -/
theorem exists_derivativeBy_unary {x : String} {op : UnaryOp} {u : Expr C} {a : K}
    (hd : hasDerivative (.unary op u) = true) (hx : (Expr.unary op u).containsVar x = true)
    (h : I.value? .zero (.unary op u) = some a)
    (ih : ∀ b, I.value? .zero u = some b → I.Differentiates u b) :
    ∃ d, (Expr.unary op u).derivativeBy x = .ok d ∧ I.value? .zero d = some (I.D x a) := by
  by_cases hop : op = .negate
  · subst hop
    rw [value?_neg] at h
    obtain ⟨b, hb, rfl⟩ := Option.map_eq_some_iff.1 h
    obtain ⟨du, hdu, hval⟩ := ih b hb x
    refine ⟨.neg du, (Expr.derivativeBy_unary_eq_ok_iff hd hx).2 ⟨du, hdu, rfl⟩, ?_⟩
    rw [Derivation.map_neg]
    exact value?_opposite hval
  · rw [value?_unary hop] at h
    obtain ⟨b, hb, hab⟩ := Option.bind_eq_some_iff.1 h
    obtain ⟨du, hdu, hval⟩ := ih b hb x
    obtain ⟨s, hs, hslope⟩ := I.D_apply op b a hab
    obtain ⟨d, hchain, hd'⟩ := value?_chainRule? hb hval hs
    refine ⟨d, (Expr.derivativeBy_unary_eq_ok_iff hd hx).2 ⟨du, hdu, hchain⟩, ?_⟩
    rw [hslope]
    exact hd'

omit [CharZero C] in
/-- A sum of members with the right derivatives has the right derivative. -/
theorem exists_derivativeBy_sum {x : String} {es : List (Expr C)} {a : K}
    (hx : (Expr.aggregate .sum es).containsVar x = true)
    (h : I.value? .zero (.aggregate .sum es) = some a)
    (ih : ∀ e ∈ es, ∀ b, I.value? .zero e = some b → I.Differentiates e b) :
    ∃ d, (Expr.aggregate .sum es).derivativeBy x = .ok d ∧
      I.value? .zero d = some (I.D x a) := by
  rw [value?_sum] at h
  obtain ⟨bs, hbs, rfl⟩ := total?_eq_some_iff.1 h
  have hall : List.Forall₂ (fun e b => I.value? .zero e = some b ∧ I.Differentiates e b) es bs :=
    Expr.forall₂_imp_of_mem hbs fun e he b hb => ⟨hb, ih e he b hb⟩
  obtain ⟨ds, hds, htotal⟩ := exists_mapM_derivativeBy (x := x) hall
  refine ⟨.aggregate .sum ds, ?_, ?_⟩
  · rw [Expr.derivativeBy_sum hx, hds]
    rfl
  · rw [value?_sum]
    exact htotal

/-- Every expression with a value has derivatives, and they have the right values. -/
theorem exists_derivativeBy_of_value? {e : Expr C} {a : K} (h : I.value? .zero e = some a) :
    I.Differentiates e a := by
  induction e using Expr.derivativeBy_induct generalizing a with
  | step e ihc ihn =>
  intro x
  have hd := hasDerivative_of_value? h
  cases hx : e.containsVar x with
  | false =>
    refine ⟨.zero, Expr.derivativeBy_of_containsVar_eq_false hd hx, ?_⟩
    rw [D_eq_zero_of_containsVar_eq_false h hx]
    exact value?_zero_literal
  | true =>
    cases e with
    | number => cases hx
    | var y =>
      obtain rfl : y = x := beq_iff_eq.1 hx
      rw [value?_var] at h
      refine ⟨.one, Expr.derivativeBy_var y, ?_⟩
      rw [← Option.some.inj h, I.D_var, if_pos rfl]
      exact value?_one_literal
    | unary op u => exact exists_derivativeBy_unary hd hx h fun _ => ihc u List.mem_cons_self
    | binary op l r =>
      obtain ⟨b, c, hb, hc, hbc⟩ := value?_binary_eq_some_iff.1 h
      have hr : r ∈ [l, r] := List.mem_cons_of_mem l List.mem_cons_self
      rw [Expr.derivativeBy_binary hd hx]
      exact exists_binaryBy hb (ihc l List.mem_cons_self hb) hc (ihc r hr hc) hbc
    | rational n d =>
      obtain ⟨b, c, hb, hc, hbc⟩ := value?_rational_eq_some_iff.1 h
      have hd : d ∈ [n, d] := List.mem_cons_of_mem n List.mem_cons_self
      have hquotient : operation? .zero .div d.exponent? b c = some a := hbc
      rw [Expr.derivativeBy_rational hx]
      exact exists_binaryBy hb (ihc n List.mem_cons_self hb) hc (ihc d hd hc) hquotient
    | aggregate op es =>
      cases op with
      | sum => exact exists_derivativeBy_sum hx h fun e he _ => ihc e he
      | _ => simp only [value?, reduceCtorEq] at h
    | simplify u =>
      rw [value?_simplify] at h
      rw [Expr.derivativeBy_simplify hx]
      exact ihc u List.mem_cons_self h x
    | derivative u y =>
      -- The inner derivative has a value as well, and so the derivative of that is right.
      rw [value?_derivative] at h
      obtain ⟨b, hb, rfl⟩ := Option.map_eq_some_iff.1 h
      obtain ⟨du, hdu, hval⟩ := ihc u List.mem_cons_self hb y
      obtain ⟨d, hd, hdval⟩ := ihn u y du rfl hdu hval x
      refine ⟨d, ?_, hdval⟩
      rw [Expr.derivativeBy_derivative hx, hdu]
      exact hd
    | _ => simp only [value?, reduceCtorEq] at h

/-! ## Differentiation -/

omit [CharZero C] in
/-- Expressions with a value hold no calls, so there is nothing to expand. -/
theorem expandCalls_of_value? {z : ZeroDivision} {e : Expr C} {a : K}
    (h : I.value? z e = some a) (users : FunctionTable C) (left : Nat) :
    e.expandCalls users left = .ok e := by
  have hone : ∀ e : Expr C, e.expandCalls users left = .ok e →
      ∀ c ∈ [e], c.expandCalls users left = .ok c := by
    intro e he c hc
    rw [List.mem_singleton.1 hc]
    exact he
  have htwo : ∀ l r : Expr C, l.expandCalls users left = .ok l →
      r.expandCalls users left = .ok r → ∀ c ∈ [l, r], c.expandCalls users left = .ok c := by
    intro l r hl hr c hc
    rcases List.mem_cons.1 hc with rfl | hc
    · exact hl
    · exact hone r hr c hc
  refine value?_rec (motive := fun e _ => e.expandCalls users left = .ok e)
    ?number ?var ?negate ?function ?binary ?rational ?sum ?simplify ?derivative h
  case number =>
    intro c
    exact Expr.expandCalls_eq_self rfl rfl fun _ hc => nomatch hc
  case var =>
    intro x
    exact Expr.expandCalls_eq_self rfl rfl fun _ hc => nomatch hc
  case negate =>
    intro e a _ ih
    exact Expr.expandCalls_eq_self rfl rfl (hone e ih)
  case function =>
    intro op e a b _ _ ih _
    exact Expr.expandCalls_eq_self rfl rfl (hone e ih)
  case binary =>
    intro op l r a b c _ ihl _ ihr _
    exact Expr.expandCalls_eq_self rfl rfl (htwo l r ihl ihr)
  case rational =>
    intro n d a b c _ ihn _ ihd _
    exact Expr.expandCalls_eq_self rfl rfl (htwo n d ihn ihd)
  case sum =>
    intro es bs hbs
    have hall := (List.forall₂_and_left (R := fun _ _ => True)
      (p := fun e => e.expandCalls users left = .ok e) es bs).1
        (hbs.imp fun _ _ h => ⟨h.2, trivial⟩)
    exact Expr.expandCalls_eq_self rfl rfl hall.1
  case simplify =>
    intro e a _ ih
    exact Expr.expandCalls_eq_self rfl rfl (hone e ih)
  case derivative =>
    intro e x a _ ih
    exact Expr.expandCalls_eq_self rfl rfl (hone e ih)

/-- Differentiation computes the derivative. Every expression that has a value has a
derivative by every variable; and wherever the derivative is defined as well, it has the
value that the derivation by this variable gives to the value of the expression. -/
theorem differentiate_meaning (I : Interpretation C K) (users : FunctionTable C)
    {t : Expr C} {a : K} (ht : I.value? .undefined t = some a) {v : String} (hv : v ≠ "") :
    (∃ d, t.differentiate users false v = .ok d) ∧
      ∀ d b, t.differentiate users false v = .ok d → I.value? .undefined d = some b →
        b = I.D v a := by
  have hzero := value?_zero_of_undefined ht
  obtain ⟨d, hd, hval⟩ := exists_derivativeBy_of_value? hzero v
  have hdiff : t.differentiate users false v = .ok d := by
    rw [Expr.differentiate, if_neg hv, expandCalls_of_value? ht]
    change t.derivativeBy v >>= pure = _
    rw [hd]
    rfl
  refine ⟨⟨d, hdiff⟩, ?_⟩
  intro d' b hd' hb
  rw [hdiff] at hd'
  rw [← Except.ok.inj hd'] at hb
  have hb' := value?_zero_of_undefined hb
  rw [hval] at hb'
  exact (Option.some.inj hb').symm

section Quotient

/-- The nested derivative of `y / x` by `y`. -/
def nestedQuotient : Expr ℚ :=
  .derivative (.mul (.unary .reciprocal (.var "x")) (.var "y")) "y"

/-- What differentiation writes for it: `1 * (-1 / x ^ 2)`. -/
def nestedQuotientDerivative : Expr ℚ := .mul .one (.div (.neg .one) (square (.var "x")))

theorem derivativeBy_nestedQuotient :
    nestedQuotient.derivativeBy "x" = .ok nestedQuotientDerivative := by
  have hconstant : (Expr.unary .reciprocal (.var "x") : Expr ℚ).operandBy "y" false =
      .ok ⟨.unary .reciprocal (.var "x"), none⟩ :=
    Expr.operandBy_constant (by decide)
  have hinner : (Expr.mul (.unary .reciprocal (.var "x")) (.var "y") : Expr ℚ).derivativeBy "y" =
      .ok (.mul (.unary .reciprocal (.var "x")) .one) := by
    rw [Expr.derivativeBy_binary (by decide) (by decide)]
    exact Expr.binaryBy_eq_ok rfl (by decide) hconstant (Expr.operandBy_var "y" false)
  have hreciprocal : (Expr.unary .reciprocal (.var "x") : Expr ℚ).derivativeBy "x" =
      .ok (.div (.neg .one) (square (.var "x"))) := by
    rw [Expr.derivativeBy_unary (by decide) (by decide), Expr.derivativeBy_var]
    rfl
  have hdependent := Expr.operandBy_of_containsVar (by decide) hreciprocal
  have hone : (Expr.one : Expr ℚ).operandBy "x" false = .ok ⟨.one, none⟩ :=
    Expr.operandBy_constant (by decide)
  rw [nestedQuotient, Expr.derivativeBy_derivative (by decide), hinner]
  change (Expr.mul (.unary .reciprocal (.var "x")) .one : Expr ℚ).derivativeBy "x" = _
  rw [Expr.derivativeBy_binary (by decide) (by decide)]
  exact Expr.binaryBy_eq_ok rfl (by decide) hdependent hone

/-- The derivative has a value where the variable does not stand for zero. -/
theorem exists_value?_nestedQuotientDerivative {K : Type} [Field K] [Algebra ℚ K]
    (I : Interpretation ℚ K) (hx : I.var "x" ≠ 0) :
    ∃ b, I.value? .undefined nestedQuotientDerivative = some b := by
  have hone : I.value? .undefined .one = some 1 := value?_one_literal
  have hexp : (Expr.two : Expr ℚ).exponent? = some 2 := integerLiteral?_cast 2
  have hsquare : I.value? .undefined (square (.var "x")) = some (I.var "x" ^ (2 : ℤ)) := by
    rw [value?_binary .pow (value?_var "x") value?_two_literal, operation?, hexp, Option.bind_some,
      power?, if_neg (by simp)]
  have hopposite : I.value? .undefined (.neg .one) = some (-1) := by
    rw [value?_neg, hone, Option.map_some]
  have hquotient : I.value? .undefined (.div (.neg .one) (square (.var "x"))) =
      some (-1 / I.var "x" ^ (2 : ℤ)) := by
    rw [value?_binary .div hopposite hsquare, operation?, quotient?,
      if_neg fun h => zpow_ne_zero 2 hx h.1]
  exact ⟨_, value?_binary .mul hone hquotient⟩

/-- The derivative of the nested derivative by `x` exists, has a value as a rational function, and
this is the right one. -/
theorem differentiate_meaning_quotient :
    let t : Expr ℚ :=
      .derivative (.mul (.unary .reciprocal (.var "x")) (.var "y")) "y"
    let I := RationalFunction.interpretation ℚ
    (∃ d b, t.differentiate FunctionTable.empty false "x" = .ok d ∧
        I.value? .undefined d = some b) ∧
      ∀ d b, t.differentiate FunctionTable.empty false "x" = .ok d →
        I.value? .undefined d = some b →
        b = I.D "x" (I.D "y" ((I.var "x")⁻¹ * I.var "y")) := by
  intro t I
  have hreciprocal : I.value? .undefined (.unary .reciprocal (.var "x")) =
      some (I.var "x")⁻¹ := by
    rw [value?_unary (by decide), value?_var]
    rfl
  have hproduct : I.value? .undefined (.mul (.unary .reciprocal (.var "x")) (.var "y")) =
      some ((I.var "x")⁻¹ * I.var "y") := by
    rw [value?_binary .mul hreciprocal (value?_var "y")]
    rfl
  have ht : I.value? .undefined t = some (I.D "y" ((I.var "x")⁻¹ * I.var "y")) := by
    rw [value?_derivative, hproduct]
    rfl
  obtain ⟨b, hb⟩ := exists_value?_nestedQuotientDerivative I (RationalFunction.var_ne_zero "x")
  have hd' : t.differentiate FunctionTable.empty false "x" = .ok nestedQuotientDerivative :=
    Expr.differentiate_eq_ok (by decide) (expandCalls_of_value? ht FunctionTable.empty maxBodies)
      derivativeBy_nestedQuotient
  exact ⟨⟨_, b, hd', hb⟩, (differentiate_meaning I FunctionTable.empty ht (by decide)).2⟩

end Quotient

end Interpretation

end SymbolicAlgebra
