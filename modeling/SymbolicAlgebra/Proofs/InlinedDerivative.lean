import SymbolicAlgebra.Proofs.ArithmeticValue
import SymbolicAlgebra.Proofs.PolynomialValue

set_option autoImplicit false

/-!
# A function whose body is a derivative

The body of a function is expanded by putting the argument in place of the formal argument
(`Expr.expandCalls_call_one`). A derivative names its variable, and this name is not replaced, not
even where it is the formal argument: the derivative is then taken by a variable that the body no
longer speaks of, instead of being taken before the argument is put in place.

By the chain rule the two differ by the derivative of the argument by the formal argument.
They agree where this factor is one, or where what it changes does not depend on the variable
of differentiation (`differentiate_inlined_derivative`). For the square of the formal argument they
do not (`not_differentiate_inlined_derivative`).
-/

namespace SymbolicAlgebra

namespace Expr

variable {R : Type} [Scalar R]

/-- A call with one argument is expanded to the expansion of the body with the argument in
place. -/
theorem expandCalls_call_one {users : FunctionTable R} {n : Nat} {f g p : String}
    {body a a' s s' : Expr R} (hf : users.find? f 1 = some ⟨g, [p], body⟩)
    (ha : a.expandCalls users (n + 1) = .ok a')
    (hs : body.substitute (Bindings.ofPairs [(p, a')]) = .ok s)
    (hs' : s.expandCalls users n = .ok s') :
    (Expr.call f [a]).expandCalls users (n + 1) = .ok s' := by
  have hargs : [a].mapM (expandCalls users (n + 1)) = .ok [a'] := by
    rw [List.mapM_cons, ha]
    rfl
  have hbody : FunctionDef.instantiate ⟨g, [p], body⟩ [a'] = .ok s := hs
  rw [expandCalls_call, List.length_singleton, hf]
  dsimp only
  rw [hargs]
  change (FunctionDef.instantiate ⟨g, [p], body⟩ [a']).mapError DiffError.shape >>= _ = _
  rw [hbody]
  exact hs'

end Expr

variable {C K : Type} [ExactScalar C] [CharZero C] [Field K] [Algebra C K]

/-- What becomes of a function whose body is the derivative of a polynomial by the formal
argument `p`. The derivative of the call by `x` has the value that the derivation by `x`
gives to `w * b'`, where `w` is the value of the derivative of the polynomial with the
argument in place, and `b'` is the derivation by `p` of the value of the argument. The
derivative of what the call stands for has the value that the derivation by `x` gives to `w`.
They agree exactly where the derivation by `x` takes `w * (b' - 1)` to zero. -/
theorem differentiate_inlined_derivative (I : Interpretation C K) {users : FunctionTable C}
    {f g p x : String} {e a : Expr C} (he : e.IsPolynomial) (ha : a.IsPolynomial)
    (hf : users.find? f 1 = some ⟨g, [p], .derivative e p⟩) (hx : x ≠ "") :
    ∃ inner outer d d' : Expr C, ∃ b w : K,
      e.derivativeBy p = .ok inner ∧
      inner.substitute (Bindings.ofPairs [(p, a)]) = .ok outer ∧
      (Expr.call f [a]).differentiate users false x = .ok d ∧
      outer.differentiate users false x = .ok d' ∧
      I.value? .zero a = some b ∧ I.value? .zero outer = some w ∧
      I.value? .zero d = some (I.D x (w * I.D p b)) ∧ I.value? .zero d' = some (I.D x w) ∧
      (I.value? .zero d = I.value? .zero d' ↔ I.D x (w * (I.D p b - 1)) = 0) := by
  have hσ : ∀ y c, Bindings.ofPairs [(p, a)] y = some c → c.IsPolynomial := by
    intro y c hc
    obtain ⟨-, rfl⟩ : y = p ∧ a = c := by
      simpa [Bindings.ofPairs, Bindings.insert, Bindings.empty] using hc
    exact ha
  -- The derivative of the polynomial, and both of them with the argument in place.
  obtain ⟨inner, hinner, hpinner, hchain⟩ := Expr.exists_derivativeBy_along (K := K) he p
  obtain ⟨s, hs, hps, hvs⟩ := Expr.exists_substitute (K := K) hσ he
  obtain ⟨outer, houter, hpouter, hvouter⟩ := Expr.exists_substitute (K := K) hσ hpinner
  have hb := I.value?_eq_valueAt ha
  have hw := I.value?_eq_valueAt hpouter
  -- The assignment that the substitution stands for moves the formal argument only.
  let ρ : String → K := fun y => ((Bindings.ofPairs [(p, a)] y).getD (.var y)).valueAt I.var
  have hρ : ρ p = a.valueAt I.var := by
    simp [ρ, Bindings.ofPairs, Bindings.insert]
  have hconstant : ∀ y, y ≠ p → I.D p (ρ y) = 0 := by
    intro y hy
    have hy' : ρ y = I.var y := by
      simp [ρ, Bindings.ofPairs, Bindings.insert, Bindings.empty, hy, Expr.valueAt]
    rw [hy', I.D_var, if_neg hy]
  have hvalue : I.value? .zero (.derivative s p) =
      some (outer.valueAt I.var * I.D p (a.valueAt I.var)) := by
    rw [Interpretation.value?_derivative, I.value?_eq_valueAt hps, Option.map_some, hvs, hvouter,
      ← hρ]
    exact congrArg some (hchain ρ (I.D p) hconstant)
  -- Both derivatives by `x` exist, and differentiation gives them their values.
  obtain ⟨d, hd, hdval⟩ := Interpretation.exists_derivativeBy_of_value? hvalue x
  obtain ⟨d', hd', hdval'⟩ := Interpretation.exists_derivativeBy_of_value? hw x
  have hbody : (Expr.derivative e p).substitute (Bindings.ofPairs [(p, a)]) =
      .ok (.derivative s p) := by
    rw [Expr.substitute, hs]
    rfl
  have hexpanded : (Expr.call f [a]).expandCalls users maxBodies = .ok (.derivative s p) :=
    Expr.expandCalls_call_one hf (Interpretation.expandCalls_of_value? hb users _) hbody
      (Interpretation.expandCalls_of_value? hvalue users _)
  refine ⟨inner, outer, d, d', _, _, hinner, houter, Expr.differentiate_eq_ok hx hexpanded hd,
    Expr.differentiate_eq_ok hx (Interpretation.expandCalls_of_value? hw users _) hd', hb, hw,
    hdval, hdval', ?_⟩
  rw [hdval, hdval', Option.some.injEq, mul_sub, mul_one, map_sub, sub_eq_zero]

/-- For the function `f(t)` whose body is the derivative of `t * t` by `t`, the derivatives of
`f(t + 1)` by `t` agree: the argument has the derivative one. -/
theorem differentiate_inlined_derivative_shift :
    let I := RationalFunction.interpretation ℚ
    let e : Expr ℚ := .mul (.var "t") (.var "t")
    let a : Expr ℚ := .add (.var "t") .one
    let users := FunctionTable.empty.register ⟨"f", ["t"], .derivative e "t"⟩
    users.find? "f" 1 = some ⟨"f", ["t"], .derivative e "t"⟩ ∧
      ∃ inner outer d d' : Expr ℚ,
        e.derivativeBy "t" = .ok inner ∧
        inner.substitute (Bindings.ofPairs [("t", a)]) = .ok outer ∧
        (Expr.call "f" [a]).differentiate users false "t" = .ok d ∧
        outer.differentiate users false "t" = .ok d' ∧
        I.value? .zero d = I.value? .zero d' := by
  intro I e a users
  have he : e.IsPolynomial := .mul (.var "t") (.var "t")
  have ha : a.IsPolynomial := .add (.var "t") (.number _)
  have hf : users.find? "f" 1 = some ⟨"f", ["t"], .derivative e "t"⟩ := rfl
  obtain ⟨inner, outer, d, d', b, w, hinner, houter, hd, hd', hb, -, -, -, hiff⟩ :=
    differentiate_inlined_derivative I he ha hf (x := "t") (by decide)
  refine ⟨hf, inner, outer, d, d', hinner, houter, hd, hd', hiff.2 ?_⟩
  have hsum : I.value? .zero a = some (I.var "t" + 1) :=
    Interpretation.value?_add (Interpretation.value?_var "t") Interpretation.value?_one_literal
  rw [hsum] at hb
  rw [← Option.some.inj hb, map_add, I.D_var, if_pos rfl, Derivation.map_one_eq_zero, add_zero,
    sub_self, mul_zero, map_zero]

/-- For the same function, the derivatives of `f(x)` by `x` do not agree: the body becomes the
derivative of `x * x` by `t`, which is zero, while the derivative of `t * t` by `t` is
`1 * x + x * 1` at `x` and has the derivative `1 * 1 + 1 * 1`. -/
theorem not_differentiate_inlined_derivative :
    let e : Expr ℚ := .mul (.var "t") (.var "t")
    let users := FunctionTable.empty.register ⟨"f", ["t"], .derivative e "t"⟩
    ∃ inner outer d' : Expr ℚ,
      e.derivativeBy "t" = .ok inner ∧
      inner.substitute (Bindings.ofPairs [("t", .var "x")]) = .ok outer ∧
      (Expr.call "f" [.var "x"]).differentiate users false "x" = .ok .zero ∧
      outer.differentiate users false "x" = .ok d' ∧
      ∀ ρ, (Expr.zero : Expr ℚ).value? ρ = some 0 ∧ d'.value? ρ = some 2 := by
  intro e users
  have hone : ∀ y, (Expr.one : Expr ℚ).operandBy y false = .ok ⟨.one, none⟩ := fun _ => rfl
  -- Expressions without calls are values among the rational functions, so expansion keeps them.
  let I := RationalFunction.interpretation ℚ
  have hvar := I.value?_eq_valueAt (.var "x")
  have hsquare : I.value? .zero (.derivative (.mul (.var "x") (.var "x")) "t") =
      some (I.D "t" (I.var "x" * I.var "x")) := by
    rw [Interpretation.value?_derivative, I.value?_eq_valueAt (.mul (.var "x") (.var "x"))]
    rfl
  have hsum := I.value?_eq_valueAt
    (.add (.mul (.number 1) (.var "x")) (.mul (.var "x") (.number 1)))
  -- Taken first, the derivative by `t` is `1 * t + t * 1`.
  have hinner : e.derivativeBy "t" = .ok (.add (.mul .one (.var "t")) (.mul (.var "t") .one)) := by
    rw [Expr.derivativeBy_binary rfl rfl]
    exact Expr.binaryBy_eq_ok rfl (by decide) (Expr.operandBy_var "t" _) (Expr.operandBy_var "t" _)
  -- Its derivative at `x`.
  let l : Expr ℚ := .mul .one (.var "x")
  let r : Expr ℚ := .mul (.var "x") .one
  have hl : l.operandBy "x" false = .ok ⟨l, some (.mul .one .one)⟩ := by
    refine Expr.operandBy_of_containsVar rfl ?_
    rw [Expr.derivativeBy_binary rfl rfl]
    exact Expr.binaryBy_eq_ok rfl (by decide) (hone _) (Expr.operandBy_var "x" _)
  have hr : r.operandBy "x" false = .ok ⟨r, some (.mul .one .one)⟩ := by
    refine Expr.operandBy_of_containsVar rfl ?_
    rw [Expr.derivativeBy_binary rfl rfl]
    exact Expr.binaryBy_eq_ok rfl (by decide) (Expr.operandBy_var "x" _) (hone _)
  have houter : (Expr.add l r).derivativeBy "x" = .ok (.add (.mul .one .one) (.mul .one .one)) := by
    rw [Expr.derivativeBy_binary rfl rfl]
    exact Expr.binaryBy_eq_ok rfl (by decide) hl hr
  have houterExpanded : (Expr.add l r).expandCalls users maxBodies = .ok (.add l r) :=
    Interpretation.expandCalls_of_value? hsum users _
  -- Expanded first, the body is the derivative of `x * x` by `t`.
  have hexpanded : (Expr.call "f" [.var "x"]).expandCalls users maxBodies =
      .ok (.derivative (.mul (.var "x") (.var "x")) "t") :=
    Expr.expandCalls_call_one rfl (Interpretation.expandCalls_of_value? hvar users _) rfl
      (Interpretation.expandCalls_of_value? hsquare users _)
  have hderivative : (Expr.derivative (.mul (.var "x") (.var "x")) "t" : Expr ℚ).derivativeBy "x" =
      .ok .zero := by
    rw [Expr.derivativeBy_eq]
    change (Expr.mul (.var "x") (.var "x")).derivativeBy "t" >>= _ = _
    rw [Expr.derivativeBy_of_containsVar_eq_false rfl rfl]
    exact Expr.derivativeBy_of_containsVar_eq_false rfl rfl
  refine ⟨_, .add l r, _, hinner, rfl, Expr.differentiate_eq_ok (by decide) hexpanded hderivative,
    Expr.differentiate_eq_ok (by decide) houterExpanded houter, fun ρ => ⟨?_, ?_⟩⟩
  · rw [Expr.value?_number, ExactScalar.numeral_zero]
  · simp [Expr.value?, arithmetic?]
    norm_num

end SymbolicAlgebra
