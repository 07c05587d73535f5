import Mathlib.Algebra.MvPolynomial.PDeriv
import Mathlib.RingTheory.Derivation.Lie
import Mathlib.RingTheory.Etale.Kaehler
import SymbolicAlgebra.Proofs.Interpretation

set_option autoImplicit false

/-!
# The field of rational functions

The rational functions over a field of literals (`RationalFunction C`), with a variable for every
name and the partial derivatives, are an interpretation in which the reciprocal is the only
function of one operand (`RationalFunction.interpretation`).

The partial derivatives are derivations of the polynomials, extended to the field of fractions
(`extendD`). Extensions of commuting derivations commute (`extendD_comm`), because the commutator
vanishes on every quotient if it vanishes on the ring.
-/

namespace SymbolicAlgebra

/-! ## Derivations of a field of fractions -/

section Extension

variable {C A K : Type} [CommRing C] [CommRing A] [Field K] [Algebra C A]
  [Algebra A K] [Algebra C K] [IsScalarTower C A K] [IsFractionRing A K]

variable (K) in
/-- The extension of a derivation to the field of fractions. The differentials of fractions
are the ones of the ring with fractions for coefficients, so that a derivation of the ring
extends in one way. -/
noncomputable def extendD (d : Derivation C A A) : Derivation C K K :=
  haveI : Algebra.FormallyEtale A K := .of_isLocalization (nonZeroDivisors A)
  let d' : Derivation C A K := (Algebra.linearMap A K).compDer d
  (d'.liftKaehlerDifferential.liftBaseChange K ∘ₗ
    (KaehlerDifferential.tensorKaehlerEquivOfFormallyEtale C A K).symm.toLinearMap).compDer
      (KaehlerDifferential.D C K)

/-- The extension of a derivation agrees with it on the ring. -/
theorem extendD_algebraMap (d : Derivation C A A) (f : A) :
    extendD K d (algebraMap A K f) = algebraMap A K (d f) := by
  have : Algebra.FormallyEtale A K := .of_isLocalization (nonZeroDivisors A)
  have h := KaehlerDifferential.tensorKaehlerEquivOfFormallyEtale_symm_D_algebraMap C A K f
  let d' : Derivation C A K := (Algebra.linearMap A K).compDer d
  change d'.liftKaehlerDifferential.liftBaseChange K
    ((KaehlerDifferential.tensorKaehlerEquivOfFormallyEtale C A K).symm
      (KaehlerDifferential.D C K (algebraMap A K f))) = _
  rw [h, LinearMap.liftBaseChange_tmul, one_smul, Derivation.liftKaehlerDifferential_comp_D]
  rfl

/-- The extensions of commuting derivations commute. -/
theorem extendD_comm {d₁ d₂ : Derivation C A A} (h : ∀ f, d₁ (d₂ f) = d₂ (d₁ f)) (a : K) :
    extendD K d₁ (extendD K d₂ a) = extendD K d₂ (extendD K d₁ a) := by
  have hring : ∀ f : A, ⁅extendD K d₁, extendD K d₂⁆ (algebraMap A K f) = 0 := by
    intro f
    rw [Derivation.commutator_apply, extendD_algebraMap, extendD_algebraMap,
      extendD_algebraMap, extendD_algebraMap, h, sub_self]
  obtain ⟨f, g, _, rfl⟩ := IsFractionRing.div_surjective A a
  have hquotient : ⁅extendD K d₁, extendD K d₂⁆ (algebraMap A K f / algebraMap A K g) = 0 := by
    rw [Derivation.leibniz_div, hring, hring, smul_zero, smul_zero, sub_zero, smul_zero]
  rw [Derivation.commutator_apply] at hquotient
  exact sub_eq_zero.1 hquotient

end Extension

/-! ## Rational functions -/

/-- A rational function over the literals `C` with a variable for every name. -/
def RationalFunction (C : Type) [Field C] : Type := FractionRing (MvPolynomial String C)

namespace RationalFunction

open MvPolynomial

section Derivatives

variable {C : Type} [Field C]

noncomputable instance : Field (RationalFunction C) :=
  inferInstanceAs (Field (FractionRing (MvPolynomial String C)))

noncomputable instance : Algebra (MvPolynomial String C) (RationalFunction C) :=
  inferInstanceAs (Algebra (MvPolynomial String C) (FractionRing (MvPolynomial String C)))

noncomputable instance : Algebra C (RationalFunction C) :=
  inferInstanceAs (Algebra C (FractionRing (MvPolynomial String C)))

instance : IsScalarTower C (MvPolynomial String C) (RationalFunction C) :=
  inferInstanceAs (IsScalarTower C (MvPolynomial String C)
    (FractionRing (MvPolynomial String C)))

instance : IsFractionRing (MvPolynomial String C) (RationalFunction C) :=
  inferInstanceAs (IsFractionRing (MvPolynomial String C)
    (FractionRing (MvPolynomial String C)))

/-- A variable as a rational function. -/
noncomputable def var (x : String) : RationalFunction C :=
  algebraMap (MvPolynomial String C) (RationalFunction C) (X x)

/-- A variable is not the rational function zero. -/
theorem var_ne_zero (x : String) : (var x : RationalFunction C) ≠ 0 := by
  intro h
  have hinjective := IsFractionRing.injective (MvPolynomial String C) (RationalFunction C)
  exact X_ne_zero x (hinjective (h.trans (map_zero _).symm))

/-- The partial derivative of a rational function. -/
noncomputable def D (x : String) : Derivation C (RationalFunction C) (RationalFunction C) :=
  extendD (RationalFunction C) (pderiv x)

/-- Partial derivatives of polynomials commute. -/
theorem pderiv_comm (x y : String) (f : MvPolynomial String C) :
    pderiv x (pderiv y f) = pderiv y (pderiv x f) := by
  let dx : Derivation C (MvPolynomial String C) (MvPolynomial String C) := pderiv x
  let dy : Derivation C (MvPolynomial String C) (MvPolynomial String C) := pderiv y
  -- The derivative of a variable is zero or one, hence constant.
  have hconstant : ∀ u w z : String,
      pderiv u (pderiv w (X z : MvPolynomial String C)) = 0 := by
    intro u w z
    rw [pderiv_X, Pi.single_apply]
    split
    · exact pderiv_one
    · exact map_zero _
  have hvar : ∀ z : String, ⁅dx, dy⁆ (X z) = 0 := by
    intro z
    rw [Derivation.commutator_apply, hconstant, hconstant, sub_self]
  have h : ⁅dx, dy⁆ = 0 := derivation_ext hvar
  have hf : ⁅dx, dy⁆ f = 0 := by
    rw [h, Derivation.zero_apply]
  rw [Derivation.commutator_apply] at hf
  exact sub_eq_zero.1 hf

/-- Partial derivatives of rational functions commute. -/
theorem D_comm (x y : String) (a : RationalFunction C) : D x (D y a) = D y (D x a) :=
  extendD_comm (pderiv_comm x y) a

/-- The partial derivative of a variable is one by itself and zero by the others. -/
theorem D_var (x y : String) : D x (var y : RationalFunction C) = if y = x then 1 else 0 := by
  rw [D, var, extendD_algebraMap, pderiv_X, Pi.single_apply]
  by_cases h : y = x
  · rw [if_pos h, if_pos h, map_one]
  · rw [if_neg h, if_neg h, map_zero]

/-- The only function of one operand is the reciprocal. -/
noncomputable def apply (op : UnaryOp) (a : RationalFunction C) : Option (RationalFunction C) :=
  if op = .reciprocal then some a⁻¹ else none

end Derivatives

/-- The rational functions as an interpretation. -/
noncomputable def interpretation (C : Type) [ExactScalar C] :
    Interpretation C (RationalFunction C) where
  var := var
  apply := apply
  D := D
  D_var := D_var
  D_comm := D_comm
  D_apply op a b h := by
    rw [apply, Option.ite_none_right_eq_some] at h
    obtain ⟨rfl, h⟩ := h
    refine ⟨-1 / a ^ 2, rfl, ?_⟩
    intro x
    rw [← Option.some.inj h, Derivation.leibniz_inv, smul_eq_mul]
    ring

end RationalFunction

end SymbolicAlgebra
