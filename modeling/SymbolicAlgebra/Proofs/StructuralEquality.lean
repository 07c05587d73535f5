import SymbolicAlgebra.Proofs.ElementaryTypes
import SymbolicAlgebra.Proofs.ExactScalar
import SymbolicAlgebra.Proofs.FloatValues
import SymbolicAlgebra.Proofs.PrintedSyntax
import SymbolicAlgebra.Proofs.SubstitutionLaws

set_option autoImplicit false

/-!
# Structural equality is an equivalence

Rewriting merges what is structurally equal, so structural equality has to be an equivalence, and
equal expressions have to be alike in everything that is decided about them
(`Expr.same_equivalence_respected`: they have the same type, or the same type error, and contain
the same variables). Both are proved node by node: equal nodes are equal literals, or they differ
in their direct subexpressions only (`Expr.same_induction`).

Comparison of scalars is no equivalence, because what is no number is not equal to itself. Equality
of literals makes up for this, and all that it needs of comparison is that it is symmetric,
transitive and reflexive on numbers (`LawfulEquality`); floats and exact literals have such a
comparison. Over exact literals only identical expressions are equal (`Expr.same_iff_eq`).
-/

namespace SymbolicAlgebra

/-! ## Literals -/

/-- Comparison of scalars is symmetric and transitive, and only what is no number is not equal to
itself. -/
class LawfulEquality (R : Type) [Scalar R] : Prop where
  /-- Comparison does not depend on the order. -/
  eqv_symm : ∀ {v w : R}, Scalar.eqv v w = true → Scalar.eqv w v = true
  /-- Scalars that are equal to one scalar are equal to each other. -/
  eqv_trans : ∀ {u v w : R}, Scalar.eqv u v = true → Scalar.eqv v w = true →
    Scalar.eqv u w = true
  /-- Numbers, and nothing else, are equal to themselves. -/
  eqv_self_iff : ∀ v : R, Scalar.eqv v v = true ↔ Scalar.isNaN v = false

/-- What is no number is what has no parts. -/
theorem SignedFloat.isNaN_eq_false_iff (v : SignedFloat) :
    v.isNaN = false ↔ v.value.toModel.unpack ≠ .notANumber := by
  have hdef : v.isNaN = v.value.toModel.unpack.isNaN := rfl
  rw [hdef]
  cases v.value.toModel.unpack with
  | notANumber => exact iff_of_false (by decide) (not_not_intro rfl)
  | zero | infinity | finite => exact iff_of_true rfl (by rintro ⟨⟩)

/-- Floats are compared by their parts. -/
instance : LawfulEquality SignedFloat where
  eqv_symm := by
    intro v w h
    obtain ⟨hv, hparts⟩ := (Binary64.beq_iff v.value w.value).1 h
    refine (Binary64.beq_iff w.value v.value).2 ⟨?_, hparts.symm⟩
    intro hw
    rw [hw] at hparts
    cases hu : v.value.toModel.unpack with
    | notANumber => exact hv hu
    | zero | infinity | finite =>
      rw [hu] at hparts
      cases hparts
  eqv_trans := by
    intro u v w huv hvw
    obtain ⟨hu, huv⟩ := (Binary64.beq_iff u.value v.value).1 huv
    obtain ⟨-, hvw⟩ := (Binary64.beq_iff v.value w.value).1 hvw
    exact (Binary64.beq_iff u.value w.value).2 ⟨hu, huv.trans hvw⟩
  eqv_self_iff := by
    intro v
    refine (Binary64.beq_iff v.value v.value).trans ?_
    rw [and_iff_left rfl]
    exact v.isNaN_eq_false_iff.symm

/-- Exact literals are compared as elements of the field. -/
instance {F : Type} [ExactScalar F] : LawfulEquality F where
  eqv_symm := by
    intro v w h
    rw [ExactScalar.eqv_eq_true_iff] at h ⊢
    exact h.symm
  eqv_trans := by
    intro u v w huv hvw
    rw [ExactScalar.eqv_eq_true_iff] at huv hvw ⊢
    exact huv.trans hvw
  eqv_self_iff := fun v =>
    iff_of_true ((ExactScalar.eqv_eq_true_iff v v).2 rfl) (ExactScalar.isNaN_eq_false v)

variable {R : Type} [Scalar R]

/-- Scalars are equal as literals where they compare as equal or neither is a number. -/
theorem Scalar.same_eq_true_iff {v w : R} : Scalar.same v w = true ↔
    Scalar.eqv v w = true ∨ Scalar.isNaN v = true ∧ Scalar.isNaN w = true := by
  rw [Scalar.same, Bool.or_eq_true, Bool.and_eq_true]

/-- What compares as equal to something is a number. -/
theorem LawfulEquality.isNaN_of_eqv [LawfulEquality R] {v w : R} (h : Scalar.eqv v w = true) :
    Scalar.isNaN v = false :=
  (eqv_self_iff v).1 (eqv_trans h (eqv_symm h))

open LawfulEquality in
/-- Equality of literals is an equivalence, also on what is no number. -/
theorem Scalar.same_equivalence [LawfulEquality R] :
    Equivalence fun v w : R => Scalar.same v w = true where
  refl v := by
    rw [same_eq_true_iff, eqv_self_iff, and_self]
    exact (Bool.eq_false_or_eq_true _).symm
  symm := by
    intro v w h
    rw [same_eq_true_iff] at h ⊢
    exact h.imp eqv_symm And.symm
  trans := by
    intro u v w huv hvw
    rw [same_eq_true_iff] at huv hvw ⊢
    rcases huv with huv | ⟨hu, hv⟩ <;> rcases hvw with hvw | ⟨hv', hw⟩
    · exact .inl (eqv_trans huv hvw)
    · -- Something in the middle cannot be a number on one side only.
      rw [isNaN_of_eqv (eqv_symm huv)] at hv'
      cases hv'
    · rw [isNaN_of_eqv hvw] at hv
      cases hv
    · exact .inr ⟨hu, hw⟩

theorem ComplexNumber.same_eq_true_iff {z w : ComplexNumber R} : ComplexNumber.same z w = true ↔
    Scalar.same z.re w.re = true ∧ Scalar.same z.im w.im = true := by
  rw [ComplexNumber.same, Bool.and_eq_true]

theorem Quantity.same_eq_true_iff {p q : Quantity R} : Quantity.same p q = true ↔
    p.unit = q.unit ∧ Scalar.same p.magnitude q.magnitude = true := by
  rw [Quantity.same, Bool.and_eq_true, decide_eq_true_eq]

section
variable [LawfulEquality R]

/-- Equality of complex literals is an equivalence, being equality of the parts. -/
theorem ComplexNumber.same_equivalence :
    Equivalence fun z w : ComplexNumber R => ComplexNumber.same z w = true where
  refl _ := same_eq_true_iff.2 ⟨Scalar.same_equivalence.refl _, Scalar.same_equivalence.refl _⟩
  symm h :=
    have ⟨hre, him⟩ := same_eq_true_iff.1 h
    same_eq_true_iff.2 ⟨Scalar.same_equivalence.symm hre, Scalar.same_equivalence.symm him⟩
  trans h h' :=
    have ⟨hre, him⟩ := same_eq_true_iff.1 h
    have ⟨hre', him'⟩ := same_eq_true_iff.1 h'
    same_eq_true_iff.2
      ⟨Scalar.same_equivalence.trans hre hre', Scalar.same_equivalence.trans him him'⟩

/-- Equality of quantities is an equivalence. -/
theorem Quantity.same_equivalence :
    Equivalence fun p q : Quantity R => Quantity.same p q = true where
  refl _ := same_eq_true_iff.2 ⟨rfl, Scalar.same_equivalence.refl _⟩
  symm h :=
    have ⟨hunit, hmagnitude⟩ := same_eq_true_iff.1 h
    same_eq_true_iff.2 ⟨hunit.symm, Scalar.same_equivalence.symm hmagnitude⟩
  trans h h' :=
    have ⟨hunit, hmagnitude⟩ := same_eq_true_iff.1 h
    have ⟨hunit', hmagnitude'⟩ := same_eq_true_iff.1 h'
    same_eq_true_iff.2 ⟨hunit.trans hunit', Scalar.same_equivalence.trans hmagnitude hmagnitude'⟩

end

namespace Expr

variable {e e' e'' : Expr R}

/-! ## Labels -/

/-- Nodes with the same label are equal literals, or they differ in their direct subexpressions
only. -/
inductive SameNode : Expr R → Expr R → Prop
  | number {v w : R} (h : Scalar.same v w = true) : SameNode (.number v) (.number w)
  | complex {z w : ComplexNumber R} (h : ComplexNumber.same z w = true) :
    SameNode (.complex z) (.complex w)
  | quantity {p q : Quantity R} (h : Quantity.same p q = true) :
    SameNode (.quantity p) (.quantity q)
  | node {e e' : Expr R} (h : e' = e.withChildren e'.children) : SameNode e e'

theorem sameNode_of_sameLabel (h : sameLabel e e' = true) : SameNode e e' := by
  revert h
  -- The cases of scalars, complex numbers and quantities, and of nodes of different kinds, are
  -- named by their places in the definition.
  fun_cases sameLabel e e' <;> intro h
  case case1 => exact .number h
  case case3 => exact .complex h
  case case4 => exact .quantity h
  case case24 => cases h
  all_goals
    refine .node ?_
    simp_all [withChildren, children]

section
variable [LawfulEquality R]

theorem sameLabel_self (e : Expr R) : sameLabel e e = true := by
  cases e with
  | number v => exact Scalar.same_equivalence.refl v
  | complex z => exact ComplexNumber.same_equivalence.refl z
  | quantity q => exact Quantity.same_equivalence.refl q
  | _ => simp [sameLabel]

theorem sameLabel_symm (h : sameLabel e e' = true) : sameLabel e' e = true := by
  revert h
  fun_cases sameLabel e e' <;> intro h
  case case1 => exact Scalar.same_equivalence.symm h
  case case3 => exact ComplexNumber.same_equivalence.symm h
  case case4 => exact Quantity.same_equivalence.symm h
  all_goals simp_all [sameLabel]

theorem sameLabel_trans (h : sameLabel e e' = true) (h' : sameLabel e' e'' = true) :
    sameLabel e e'' = true := by
  revert h h'
  fun_cases sameLabel e e' <;> intro h h'
  case case24 => cases h
  -- A node of another kind than the one in the middle has another label.
  all_goals
    cases e'' <;> first | rfl | cases h' | skip
  case case1.number => exact Scalar.same_equivalence.trans h h'
  case case3.complex => exact ComplexNumber.same_equivalence.trans h h'
  case case4.quantity => exact Quantity.same_equivalence.trans h h'
  all_goals simp_all [sameLabel]

end

/-! ## Equality of expressions -/

theorem same_eq_true_iff : e.same e' = true ↔
    sameLabel e e' = true ∧ SameMembers e.children e'.children := by
  rw [same_eq, Bool.and_eq_true, sameList_iff]

/-- Induction on two equal expressions: what holds of two nodes with the same label whenever it
holds of their direct subexpressions, pair by pair, holds of all equal expressions. -/
theorem same_induction {motive : Expr R → Expr R → Prop}
    (step : ∀ e e', sameLabel e e' = true → List.Forall₂ motive e.children e'.children →
      motive e e') (h : e.same e' = true) : motive e e' := by
  induction e using Expr.induction generalizing e' with
  | step e ih =>
    obtain ⟨hlabel, hchildren⟩ := same_eq_true_iff.1 h
    exact step e e' hlabel (forall₂_imp_of_mem hchildren fun c hc _ h => ih c hc h)

section
variable [LawfulEquality R]

theorem same_self (e : Expr R) : e.same e = true := by
  induction e using Expr.induction with
  | step e ih => exact same_eq_true_iff.2 ⟨sameLabel_self e, List.forall₂_same.2 ih⟩

theorem same_symm (h : e.same e' = true) : e'.same e = true := by
  refine same_induction (motive := fun e e' => e'.same e = true) ?_ h
  intro e e' hlabel ih
  exact same_eq_true_iff.2 ⟨sameLabel_symm hlabel, ih.flip⟩

theorem same_trans (h : e.same e' = true) (h' : e'.same e'' = true) : e.same e'' = true := by
  refine same_induction (motive := fun e e' => ∀ e'', e'.same e'' = true → e.same e'' = true)
    ?_ h e'' h'
  intro e e' hlabel ih e'' h'
  obtain ⟨hlabel', hchildren⟩ := same_eq_true_iff.1 h'
  refine same_eq_true_iff.2 ⟨sameLabel_trans hlabel hlabel', ?_⟩
  refine (exists_forall₂_iff.1 ⟨_, ih, hchildren⟩).imp ?_
  rintro c c'' ⟨c', hc, hc'⟩
  exact hc c'' hc'

end

/-- Over exact literals the labels of nodes are equal only where nothing but their direct
subexpressions differs. -/
theorem eq_withChildren_of_sameLabel {F : Type} [ExactScalar F] {e e' : Expr F}
    (h : sameLabel e e' = true) : e' = e.withChildren e'.children := by
  cases sameNode_of_sameLabel h with
  | number h => rw [(ExactScalar.same_iff _ _).1 h]; rfl
  | @complex z w h =>
    obtain ⟨hre, him⟩ := ComplexNumber.same_eq_true_iff.1 h
    rw [ExactScalar.same_iff] at hre him
    cases z
    cases w
    subst hre him
    rfl
  | @quantity p q h =>
    obtain ⟨hunit, hmagnitude⟩ := Quantity.same_eq_true_iff.1 h
    rw [ExactScalar.same_iff] at hmagnitude
    cases p
    cases q
    subst hunit hmagnitude
    rfl
  | node h => exact h

/-- Over exact literals structural equality is identity. -/
theorem same_iff_eq {F : Type} [ExactScalar F] {e e' : Expr F} : e.same e' = true ↔ e = e' := by
  constructor
  · intro h
    refine same_induction (motive := Eq) ?_ h
    intro e e' hlabel ih
    rw [List.forall₂_eq_eq_eq] at ih
    rw [eq_withChildren_of_sameLabel hlabel, ← ih, withChildren_children]
  · rintro rfl
    exact same_self e

/-! ## What equal expressions share -/

/-- Equal expressions have the same type, or the same error, because literals that are equal are
of one kind and dimension. -/
theorem resultType_eq_of_same (h : e.same e' = true) (P : Parameters R) :
    e'.resultType P = e.resultType P := by
  refine same_induction (motive := fun e e' => e'.resultType P = e.resultType P) ?_ h
  intro e e' hlabel ih
  cases sameNode_of_sameLabel hlabel with
  | number | complex => rfl
  | quantity h => simp only [resultType, (Quantity.same_eq_true_iff.1 h).1]
  | node h =>
    rw [h]
    exact resultType_withChildren (fun _ _ => rfl) ih

/-- Equal expressions contain the same variables. -/
theorem containsVar_eq_of_same (h : e.same e' = true) (x : String) :
    e'.containsVar x = e.containsVar x := by
  refine same_induction (motive := fun e e' => e'.containsVar x = e.containsVar x) ?_ h
  intro e e' hlabel ih
  cases sameNode_of_sameLabel hlabel with
  | number | complex | quantity => rfl
  | node h =>
    cases hvar : e.isVar with
    | true =>
      obtain ⟨y, rfl⟩ := isVar_iff.1 hvar
      rw [h]
      rfl
    | false =>
      have hvar' : e'.isVar = false := by rw [h, isVar_withChildren, hvar]
      rw [Bool.eq_iff_iff, containsVar_iff hvar', containsVar_iff hvar]
      exact exists_mem_iff_of_forall₂ (ih.imp fun _ _ hc => Bool.eq_iff_iff.1 hc)

/-- Structural equality is an equivalence that the analyses respect: equal expressions have the
same type, or fail to have one with the same error, under every table of parameters, and they
contain the same variables. -/
theorem same_equivalence_respected [LawfulEquality R] :
    Equivalence (fun e e' : Expr R => e.same e' = true) ∧
      ∀ e e' : Expr R, e.same e' = true →
        (∀ P : Parameters R, e.resultType P = e'.resultType P) ∧
          ∀ x, e.containsVar x = e'.containsVar x := by
  refine ⟨⟨same_self, same_symm, same_trans⟩, fun e e' h => ⟨fun P => ?_, fun x => ?_⟩⟩
  · exact (resultType_eq_of_same h P).symm
  · exact (containsVar_eq_of_same h x).symm

/-- Over floats an expression with what is no number equals itself, and one with the other zero
and the other sign of no number: they are typed alike and contain the same variables. -/
theorem same_equivalence_respected_signs :
    let nan : SignedFloat := Scalar.nan
    let e : Expr SignedFloat := .vector [.number nan, .binary .add (.number 0) (.var "x")]
    let e' : Expr SignedFloat := .vector [.number (-nan), .binary .add (.number (-0)) (.var "x")]
    Scalar.eqv nan nan = false ∧ e.same e = true ∧ e.same e' = true ∧
      (∀ P, e.resultType P = e'.resultType P) ∧ ∀ x, e.containsVar x = e'.containsVar x := by
  intro nan e e'
  obtain ⟨hequiv, hrespects⟩ := same_equivalence_respected (R := SignedFloat)
  have hsame : e.same e' = true := by decide
  exact ⟨by decide, hequiv.refl e, hsame, hrespects e e' hsame⟩

end Expr

end SymbolicAlgebra
