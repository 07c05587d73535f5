import SymbolicAlgebra.Proofs.ConstantFolding
import SymbolicAlgebra.Proofs.NormalForm

set_option autoImplicit false

/-!
# What cannot occur in a simplified form

A redex is a node that one of the laws of arithmetic makes simpler: a sum with zero, a sign
before a literal, a quotient of equal operands, terms that differ in their literal factors
only, and so on. Here a redex is described by what it looks like (`Expr.Redex`), without the tables
of rules and their order. A rule that stands further down in a table is looked at only where
those before it give nothing; so the question is whether some redex is overlooked because a
rule before it gives up, or because two literals cannot be joined.

None is. A table gives nothing only where all its rules do (`Rule.eq_none_of_mem`), and over
operands in normal form the rules apply to every redex or find a division by zero in it
(`Redex.not_irreducible`). A normal form therefore has no redex at any position, and simplification
gives normal forms (`not_redex_of_simplified`).
-/

namespace SymbolicAlgebra

namespace Rule

variable {R : Type}

/-- A table gives nothing only where every rule in it gives nothing. -/
theorem eq_none_of_mem {rules : List (Binary R)} {l r : Expr R}
    (h : firstMatch rules l r = .ok none) : ∀ rule ∈ rules, rule l r = .ok none := by
  induction rules with
  | nil => nofun
  | cons rule rules ih =>
    rw [firstMatch] at h
    cases hrule : rule l r with
    | error x =>
      rw [hrule] at h
      cases h
    | ok found =>
      rw [hrule] at h
      cases found with
      | some e => cases h
      | none =>
        intro rule' hmem
        rcases List.mem_cons.1 hmem with rfl | hmem
        · exact hrule
        · exact ih h rule' hmem

/-- A condition that holds lets the expression through. -/
theorem exprIf_of_true [Scalar R] {condition : Bool} {e : Expr R} (h : condition = true) :
    exprIf condition e = some e := by
  rw [exprIf, if_pos h]

end Rule

namespace Expr

variable {R : Type} [Scalar R]

open Rule (rules)

/-! ## Redexes -/

omit [Scalar R] in
/-- A node of one of the operations with a real literal for one operand at least. -/
inductive HasNumber (ops : List BinaryOp) : Expr R → Prop where
  /-- The literal comes first. -/
  | left {op : BinaryOp} (hop : op ∈ ops) (c : R) (x : Expr R) :
    HasNumber ops (.binary op (.number c) x)
  /-- The literal comes last. -/
  | right {op : BinaryOp} (hop : op ∈ ops) (x : Expr R) (c : R) :
    HasNumber ops (.binary op x (.number c))

omit [Scalar R] in
/-- What a literal factor in front of a product multiplies, and any other expression. -/
def withoutCoefficient : Expr R → Expr R
  | .binary .mul (.number _) x => x
  | e => e

/-- Two terms that are equal but for their literal factors, and that are no literals. -/
def LikeTerms (l r : Expr R) : Prop :=
  l.withoutCoefficient.same r.withoutCoefficient = true ∧
    l.withoutCoefficient.isScalarLiteral = false

/-- The sums that can be made simpler. -/
inductive SumRedex : Expr R → Expr R → Prop where
  /-- A zero in front. -/
  | zeroFirst {l r : Expr R} (h : l.isNumber 0 = true) : SumRedex l r
  /-- A zero behind. -/
  | zeroLast {l r : Expr R} (h : r.isNumber 0 = true) : SumRedex l r
  /-- A negative literal in front. -/
  | negativeFirst {v : R} {r : Expr R} (h : Scalar.isNeg v = true) : SumRedex (.number v) r
  /-- A negative literal behind. -/
  | negativeLast {l : Expr R} {v : R} (h : Scalar.isNeg v = true) : SumRedex l (.number v)
  /-- An opposite in front. -/
  | oppositeFirst (a r : Expr R) : SumRedex (.neg a) r
  /-- An opposite behind. -/
  | oppositeLast (l b : Expr R) : SumRedex l (.neg b)
  /-- A literal behind a sum or difference with a literal. -/
  | literalLast {l : Expr R} (d : R) (h : HasNumber [.add, .sub] l) : SumRedex l (.number d)
  /-- A literal in front of a sum or difference with a literal. -/
  | literalFirst {r : Expr R} (d : R) (h : HasNumber [.add, .sub] r) : SumRedex (.number d) r
  /-- Like terms. -/
  | likeTerms {l r : Expr R} (h : LikeTerms l r) : SumRedex l r

/-- The differences that can be made simpler. -/
inductive DifferenceRedex : Expr R → Expr R → Prop where
  /-- A zero in front. -/
  | zeroFirst {l r : Expr R} (h : l.isNumber 0 = true) : DifferenceRedex l r
  /-- A zero behind. -/
  | zeroLast {l r : Expr R} (h : r.isNumber 0 = true) : DifferenceRedex l r
  /-- A negative literal behind. -/
  | negativeLast {l : Expr R} {v : R} (h : Scalar.isNeg v = true) :
    DifferenceRedex l (.number v)
  /-- An opposite behind. -/
  | oppositeLast (l b : Expr R) : DifferenceRedex l (.neg b)
  /-- Equal operands. -/
  | same {l r : Expr R} (h : l.same r = true) : DifferenceRedex l r
  /-- A literal behind a sum or difference with a literal. -/
  | literalLast {l : Expr R} (d : R) (h : HasNumber [.add, .sub] l) :
    DifferenceRedex l (.number d)
  /-- A literal in front of a sum or difference with a literal. -/
  | literalFirst {r : Expr R} (d : R) (h : HasNumber [.add, .sub] r) :
    DifferenceRedex (.number d) r
  /-- Like terms. -/
  | likeTerms {l r : Expr R} (h : LikeTerms l r) : DifferenceRedex l r

/-- The products that can be made simpler. -/
inductive ProductRedex : Expr R → Expr R → Prop where
  /-- A zero. -/
  | zero {l r : Expr R} (h : l.isNumber 0 = true ∨ r.isNumber 0 = true) : ProductRedex l r
  /-- A one. -/
  | one {l r : Expr R} (h : l.isNumber 1 = true ∨ r.isNumber 1 = true) : ProductRedex l r
  /-- The opposite of one in front. -/
  | minusOne {l r : Expr R} (h : l.isNumber (-1) = true) : ProductRedex l r
  /-- A literal behind. -/
  | literalLast {l r : Expr R} (h : r.isScalarLiteral = true) : ProductRedex l r
  /-- Two opposites. -/
  | opposites (a b : Expr R) : ProductRedex (.neg a) (.neg b)
  /-- A literal in front of a product or quotient with a literal. -/
  | literalFirst {r : Expr R} (c : R) (h : HasNumber [.mul, .div] r) :
    ProductRedex (.number c) r

/-- The quotients that can be made simpler. -/
inductive QuotientRedex : Expr R → Expr R → Prop where
  /-- A real or complex literal zero for divisor. -/
  | overZero {l r : Expr R} (h : Rule.isZeroLiteral r = true) : QuotientRedex l r
  /-- A one for divisor. -/
  | overOne {l r : Expr R} (h : r.isNumber 1 = true) : QuotientRedex l r
  /-- A zero for dividend. -/
  | zeroOver {l r : Expr R} (h : l.isNumber 0 = true) : QuotientRedex l r
  /-- Equal operands. -/
  | same {l r : Expr R} (h : l.same r = true) : QuotientRedex l r
  /-- Two opposites. -/
  | opposites (a b : Expr R) : QuotientRedex (.neg a) (.neg b)
  /-- A literal under a product or quotient with a literal. -/
  | literalLast {l : Expr R} (d : R) (h : HasNumber [.mul, .div] l) :
    QuotientRedex l (.number d)
  /-- A literal over a product or quotient with a literal. -/
  | literalFirst {r : Expr R} (c : R) (h : HasNumber [.mul, .div] r) :
    QuotientRedex (.number c) r

/-- The nodes that can be made simpler. -/
inductive Redex : Expr R → Prop where
  /-- A node that asks for simplification. -/
  | simplify (e : Expr R) : Redex (.simplify e)
  /-- A sign before a real literal. -/
  | negateNumber (v : R) : Redex (.neg (.number v))
  /-- A sign before a complex literal. -/
  | negateComplex (z : ComplexNumber R) : Redex (.neg (.complex z))
  /-- A sign before a quantity. -/
  | negateQuantity (q : Quantity R) : Redex (.neg (.quantity q))
  /-- Two signs. -/
  | negateNegate (e : Expr R) : Redex (.neg (.neg e))
  /-- The negation of a truth value. -/
  | notTruth (b : Bool) : Redex (.unary .not (.truth b))
  /-- A function of the function that it undoes. -/
  | undone {op inner : UnaryOp} (h : op.inverse? = some inner) (e : Expr R) :
    Redex (.unary op (.unary inner e))
  /-- Arithmetic on two literals. -/
  | literals {op : BinaryOp} {l r : Expr R} (hop : op ∈ complexOps)
    (hl : l.isScalarLiteral = true) (hr : r.isScalarLiteral = true) : Redex (.binary op l r)
  /-- A sum. -/
  | sum {l r : Expr R} (h : SumRedex l r) : Redex (.add l r)
  /-- A difference. -/
  | difference {l r : Expr R} (h : DifferenceRedex l r) : Redex (.sub l r)
  /-- A product. -/
  | product {l r : Expr R} (h : ProductRedex l r) : Redex (.mul l r)
  /-- A quotient. -/
  | quotient {l r : Expr R} (h : QuotientRedex l r) : Redex (.div l r)
  /-- A power with the exponent zero or one, or of one. -/
  | power {l r : Expr R}
    (h : r.isNumber 0 = true ∨ r.isNumber 1 = true ∨ l.isNumber 1 = true) :
    Redex (.pow l r)
  /-- A root of degree one. -/
  | root {l r : Expr R} (h : r.isNumber 1 = true) : Redex (.binary .root l r)
  /-- The logarithm of the base. -/
  | log {l r : Expr R} (h : l.same r = true) : Redex (.binary .log l r)

/-! ## Tables of rules -/

/-- Where some rule of the table of an operation gives something or fails, the node is not
left as it is. -/
theorem not_irreducible_of_rule {op : BinaryOp} {l r : Expr R} (rule : Rule.Binary R)
    (hmem : rule ∈ rules op) (h : rule l r ≠ .ok none) :
    Rule.reduce? (.binary op l r) ≠ .ok none := by
  intro hr
  rw [Rule.reduce?, Rule.binary?] at hr
  exact h (Rule.eq_none_of_mem hr rule (List.mem_cons_of_mem _ hmem))

/-- Where some rule that never fails gives something, the node is not left as it is. -/
theorem not_irreducible_of_always {op : BinaryOp} {l r e : Expr R}
    (f : Expr R → Expr R → Option (Expr R)) (hmem : Rule.always f ∈ rules op)
    (h : f l r = some e) : Rule.reduce? (.binary op l r) ≠ .ok none := by
  apply not_irreducible_of_rule (Rule.always f) hmem
  rw [Rule.always, h]
  nofun

omit [Scalar R] in
/-- The literals are recognised. -/
theorem scalarLiteral_of_isScalarLiteral {e : Expr R} (h : e.isScalarLiteral = true) :
    ScalarLiteral e := by
  cases e with
  | number v => exact .number v
  | complex z => exact .complex z
  | _ => cases h

/-- Arithmetic on two real or complex literals is folded or divides by zero. -/
theorem not_irreducible_of_literals {op : BinaryOp} {l r : Expr R} (hop : op ∈ complexOps)
    (hl : l.isScalarLiteral = true) (hr : r.isScalarLiteral = true) :
    Rule.reduce? (.binary op l r) ≠ .ok none := by
  intro h
  have hfold : Fold.literals? op l r = .ok none :=
    Rule.eq_none_of_mem h _ List.mem_cons_self
  rcases folds_scalarLiteral.binary op hop l r (scalarLiteral_of_isScalarLiteral hl)
    (scalarLiteral_of_isScalarLiteral hr) with ⟨e, _, he⟩ | he
  · rw [hfold] at he
    cases he
  · rw [hfold] at he
    cases he

/-! ## Literals in two places -/

omit [Scalar R] in
/-- A node with a literal operand is no literal. -/
theorem HasNumber.asNumber?_eq {ops : List BinaryOp} {e : Expr R} (h : HasNumber ops e) :
    e.asNumber? = none := by
  cases h with
  | left => rfl
  | right => rfl

/-- In a normal form, a node with a literal operand has exactly one, which the rules for
literals in two places find. -/
theorem HasNumber.exists_withLiteral? {ops : List BinaryOp} {e : Expr R}
    (h : HasNumber ops e) (hops : ∀ op ∈ ops, op ∈ complexOps) (he : e.Normal) :
    ∃ i, Rule.withLiteral? e = some i ∧ i.op ∈ ops := by
  have hnone {op : BinaryOp} {l r : Expr R} (hop : op ∈ ops) (hn : (Expr.binary op l r).Normal)
      (hl : l.isScalarLiteral = true) : r.asNumber? = none := by
    cases hr : r.asNumber? with
    | none => rfl
    | some d =>
      obtain rfl := Rule.eq_number_of_asNumber? hr
      exact absurd hn.reduce?_eq (not_irreducible_of_literals (hops _ hop) hl rfl)
  cases h with
  | left hop c x =>
    refine ⟨⟨_, c, x, true⟩, ?_, hop⟩
    rw [Rule.withLiteral?, hnone hop he rfl]
    rfl
  | right hop x c =>
    cases hx : x.asNumber? with
    | none =>
      refine ⟨⟨_, c, x, false⟩, ?_, hop⟩
      rw [Rule.withLiteral?, hx]
      rfl
    | some d =>
      obtain rfl := Rule.eq_number_of_asNumber? hx
      exact absurd (hnone hop he rfl) nofun

/-- A literal can be joined with the one of a sum or difference, in whichever order and with
whichever sign they stand. -/
theorem regroupTerm_eq_some (d : R) {f : Rule.WithLiteral R → Option (Expr R)}
    (hf : f ∈ [Rule.regroupSum d, Rule.regroupMinus d, Rule.regroupFrom d])
    {i : Rule.WithLiteral R} (hop : i.op ∈ [BinaryOp.add, .sub]) : ∃ e, f i = some e := by
  obtain ⟨op, c, x, first⟩ := i
  simp only [List.mem_cons, List.not_mem_nil, or_false] at hf hop
  rcases hf with rfl | rfl | rfl <;> rcases hop with rfl | rfl <;> cases first <;>
    exact ⟨_, rfl⟩

/-- A literal is joined with the one of a product or quotient, or one of them is divided by
zero. -/
theorem regroupFactor_ne_none (d : R) {f : Rule.WithLiteral R → Fold.Outcome R}
    (hf : f ∈ [Rule.regroupTimes d, Rule.regroupOver d, Rule.regroupUnder d])
    {i : Rule.WithLiteral R} (hop : i.op ∈ [BinaryOp.mul, .div]) : f i ≠ .ok none := by
  have hmap {x : Except SimplifyError R} {g : R → Expr R} :
      (x.map fun v => some (g v)) ≠ .ok none := by
    cases x with
    | error y => nofun
    | ok v => nofun
  obtain ⟨op, c, x, first⟩ := i
  simp only [List.mem_cons, List.not_mem_nil, or_false] at hf hop
  rcases hf with rfl | rfl | rfl <;> rcases hop with rfl | rfl <;> cases first <;>
    first
    | exact hmap
    | nofun

/-! ## No redex is overlooked -/

/-- Sums and differences are operations on literals. -/
theorem mem_complexOps_of_term : ∀ op ∈ [BinaryOp.add, .sub], op ∈ complexOps := by decide

/-- Products and quotients are operations on literals. -/
theorem mem_complexOps_of_factor : ∀ op ∈ [BinaryOp.mul, .div], op ∈ complexOps := by decide

/-- Like terms are joined, whatever operation joins their factors. -/
theorem LikeTerms.likeTerms_eq {l r : Expr R} (h : LikeTerms l r) (f : R → R → R) :
    ∃ e, Rule.likeTerms f l r = some e := by
  have hcoefficient (e : Expr R) : ∃ c, Rule.coefficient e = (c, e.withoutCoefficient) := by
    cases e with
    | binary op l r =>
      cases op with
      | mul => cases l <;> exact ⟨_, rfl⟩
      | _ => exact ⟨_, rfl⟩
    | _ => exact ⟨_, rfl⟩
  obtain ⟨c, hc⟩ := hcoefficient l
  obtain ⟨d, hd⟩ := hcoefficient r
  obtain ⟨hsame, hliteral⟩ := h
  refine ⟨.mul (.number (f c d)) l.withoutCoefficient, ?_⟩
  rw [Rule.likeTerms, hc, hd]
  apply Rule.exprIf_of_true
  rw [hsame, hliteral]
  rfl

/-- A negative literal is recognised. -/
theorem negativeLiteral?_eq {v : R} (h : Scalar.isNeg v = true) :
    Rule.negativeLiteral? (.number v) = some v := by
  rw [Rule.negativeLiteral?, if_pos h]

/-- A function of the function that it undoes leaves the operand. -/
theorem unary?_of_inverse? {op inner : UnaryOp} (h : op.inverse? = some inner) (e : Expr R) :
    Rule.unary? op (.unary inner e) = some e := by
  have hundone : Rule.undone? op (.unary inner e) = some e := by
    rw [Rule.undone?, if_pos h]
  unfold Rule.unary?
  split
  · cases h
  · contradiction
  · rw [hundone]
    rfl

/-- Every sum that can be made simpler is. -/
theorem SumRedex.not_irreducible {l r : Expr R} (h : SumRedex l r) (hl : l.Normal)
    (hr : r.Normal) : Rule.reduce? (.add l r) ≠ .ok none := by
  cases h with
  | zeroFirst h =>
    apply not_irreducible_of_always Rule.zeroPlus (by simp [rules, Rule.sumRules])
    exact Rule.exprIf_of_true h
  | zeroLast h =>
    apply not_irreducible_of_always Rule.plusZero (by simp [rules, Rule.sumRules])
    exact Rule.exprIf_of_true h
  | negativeFirst h =>
    apply not_irreducible_of_always Rule.negativePlus (by simp [rules, Rule.sumRules])
    rw [Rule.negativePlus, negativeLiteral?_eq h]
    rfl
  | negativeLast h =>
    apply not_irreducible_of_always Rule.plusNegative (by simp [rules, Rule.sumRules])
    rw [Rule.plusNegative, negativeLiteral?_eq h]
    rfl
  | oppositeFirst a =>
    exact not_irreducible_of_always Rule.oppositePlus (by simp [rules, Rule.sumRules]) rfl
  | oppositeLast _ b =>
    exact not_irreducible_of_always Rule.plusOpposite (by simp [rules, Rule.sumRules]) rfl
  | literalLast d h =>
    obtain ⟨i, hi, hop⟩ := h.exists_withLiteral? mem_complexOps_of_term hl
    obtain ⟨e, he⟩ := regroupTerm_eq_some d (f := Rule.regroupSum d) (by simp) hop
    apply not_irreducible_of_always Rule.sumOfLiteral (by simp [rules, Rule.sumRules])
    rw [Rule.sumOfLiteral, h.asNumber?_eq, hi]
    exact he
  | literalFirst d h =>
    obtain ⟨i, hi, hop⟩ := h.exists_withLiteral? mem_complexOps_of_term hr
    obtain ⟨e, he⟩ := regroupTerm_eq_some d (f := Rule.regroupSum d) (by simp) hop
    apply not_irreducible_of_always Rule.sumOfLiteral (by simp [rules, Rule.sumRules])
    rw [Rule.sumOfLiteral, h.asNumber?_eq, hi]
    exact he
  | likeTerms h =>
    obtain ⟨e, he⟩ := h.likeTerms_eq (· + ·)
    exact not_irreducible_of_always _ (by simp [rules, Rule.sumRules]) he

/-- Every difference that can be made simpler is. -/
theorem DifferenceRedex.not_irreducible {l r : Expr R} (h : DifferenceRedex l r)
    (hl : l.Normal) (hr : r.Normal) : Rule.reduce? (.sub l r) ≠ .ok none := by
  cases h with
  | zeroFirst h =>
    apply not_irreducible_of_always Rule.zeroMinus (by simp [rules, Rule.differenceRules])
    exact Rule.exprIf_of_true h
  | zeroLast h =>
    apply not_irreducible_of_always Rule.plusZero (by simp [rules, Rule.differenceRules])
    exact Rule.exprIf_of_true h
  | negativeLast h =>
    apply not_irreducible_of_always Rule.minusNegative (by simp [rules, Rule.differenceRules])
    rw [Rule.minusNegative, negativeLiteral?_eq h]
    rfl
  | oppositeLast _ b =>
    exact not_irreducible_of_always Rule.minusOpposite
      (by simp [rules, Rule.differenceRules]) rfl
  | same h =>
    apply not_irreducible_of_always Rule.minusItself (by simp [rules, Rule.differenceRules])
    exact Rule.exprIf_of_true h
  | literalLast d h =>
    obtain ⟨i, hi, hop⟩ := h.exists_withLiteral? mem_complexOps_of_term hl
    obtain ⟨e, he⟩ := regroupTerm_eq_some d (f := Rule.regroupMinus d) (by simp) hop
    apply not_irreducible_of_always Rule.minusLiteral (by simp [rules, Rule.differenceRules])
    rw [Rule.minusLiteral, hi]
    exact he
  | literalFirst d h =>
    obtain ⟨i, hi, hop⟩ := h.exists_withLiteral? mem_complexOps_of_term hr
    obtain ⟨e, he⟩ := regroupTerm_eq_some d (f := Rule.regroupFrom d) (by simp) hop
    apply not_irreducible_of_always Rule.literalMinus (by simp [rules, Rule.differenceRules])
    rw [Rule.literalMinus, hi]
    exact he
  | likeTerms h =>
    obtain ⟨e, he⟩ := h.likeTerms_eq (· - ·)
    exact not_irreducible_of_always _ (by simp [rules, Rule.differenceRules]) he

/-- Every product that can be made simpler is, or has a division by zero in it. -/
theorem ProductRedex.not_irreducible {l r : Expr R} (h : ProductRedex l r) (hr : r.Normal) :
    Rule.reduce? (.mul l r) ≠ .ok none := by
  cases h with
  | zero h =>
    apply not_irreducible_of_always Rule.timesZero (by simp [rules, Rule.productRules])
    exact Rule.exprIf_of_true (Bool.or_eq_true_iff.2 h)
  | one h =>
    rcases h with h | h
    · apply not_irreducible_of_always Rule.oneTimes (by simp [rules, Rule.productRules])
      exact Rule.exprIf_of_true h
    · apply not_irreducible_of_always Rule.byOne (by simp [rules, Rule.productRules])
      exact Rule.exprIf_of_true h
  | minusOne h =>
    apply not_irreducible_of_always Rule.minusOneTimes (by simp [rules, Rule.productRules])
    exact Rule.exprIf_of_true h
  | literalLast h =>
    -- a literal behind goes to the front, except behind a literal, which it is folded with
    cases hl : l.isScalarLiteral with
    | true => exact not_irreducible_of_literals (by decide) hl h
    | false =>
      apply not_irreducible_of_always Rule.literalFirst (by simp [rules, Rule.productRules])
      apply Rule.exprIf_of_true
      rw [h, hl]
      rfl
  | opposites a b =>
    exact not_irreducible_of_always (Rule.bothOpposite .mul)
      (by simp [rules, Rule.productRules]) rfl
  | literalFirst c h =>
    obtain ⟨i, hi, hop⟩ := h.exists_withLiteral? mem_complexOps_of_factor hr
    apply not_irreducible_of_rule Rule.literalTimes (by simp [rules, Rule.productRules])
    rw [Rule.literalTimes, hi]
    exact regroupFactor_ne_none c (f := Rule.regroupTimes c) (by simp) hop

/-- Every quotient that can be made simpler is, or is a division by zero. -/
theorem QuotientRedex.not_irreducible {l r : Expr R} (h : QuotientRedex l r) (hl : l.Normal)
    (hr : r.Normal) : Rule.reduce? (.div l r) ≠ .ok none := by
  cases h with
  | overZero h =>
    apply not_irreducible_of_rule Rule.overZero (by simp [rules, Rule.quotientRules])
    rw [Rule.overZero, if_pos h]
    intro hnone
    cases hnone
  | overOne h =>
    apply not_irreducible_of_always Rule.byOne (by simp [rules, Rule.quotientRules])
    exact Rule.exprIf_of_true h
  | zeroOver h =>
    apply not_irreducible_of_always Rule.zeroOver (by simp [rules, Rule.quotientRules])
    exact Rule.exprIf_of_true h
  | same h =>
    apply not_irreducible_of_always Rule.overItself (by simp [rules, Rule.quotientRules])
    exact Rule.exprIf_of_true h
  | opposites a b =>
    exact not_irreducible_of_always (Rule.bothOpposite .div)
      (by simp [rules, Rule.quotientRules]) rfl
  | literalLast d h =>
    obtain ⟨i, hi, hop⟩ := h.exists_withLiteral? mem_complexOps_of_factor hl
    apply not_irreducible_of_rule Rule.overLiteral (by simp [rules, Rule.quotientRules])
    rw [Rule.overLiteral, hi]
    exact regroupFactor_ne_none d (f := Rule.regroupOver d) (by simp) hop
  | literalFirst c h =>
    obtain ⟨i, hi, hop⟩ := h.exists_withLiteral? mem_complexOps_of_factor hr
    apply not_irreducible_of_rule Rule.literalOver (by simp [rules, Rule.quotientRules])
    rw [Rule.literalOver, hi]
    exact regroupFactor_ne_none c (f := Rule.regroupUnder c) (by simp) hop

omit [Scalar R] in
/-- What holds of all direct subexpressions holds of the two operands. -/
theorem forall_operands {p : Expr R → Prop} {op : BinaryOp} {l r : Expr R}
    (h : ∀ c ∈ (Expr.binary op l r).children, p c) : p l ∧ p r := by
  constructor
  · exact h l List.mem_cons_self
  · exact h r (List.mem_cons_of_mem _ List.mem_cons_self)

/-- Over operands in normal form, the rules apply to every redex or find a division by zero
in it. -/
theorem Redex.not_irreducible {e : Expr R} (h : Redex e) (below : ∀ c ∈ e.children, c.Normal) :
    Rule.reduce? e ≠ .ok none := by
  have hsome (next : Expr R) : (.ok (some next) : Fold.Outcome R) ≠ .ok none := by
    intro hnone
    cases hnone
  cases h with
  | simplify e => exact hsome e
  | negateNumber v => exact hsome (.number (-v))
  | negateComplex z => exact hsome (.complex z.neg)
  | negateQuantity q => exact hsome (.quantity q.neg)
  | negateNegate e => exact hsome e
  | notTruth b => exact hsome (.truth !b)
  | undone h e =>
    rw [Rule.reduce?, unary?_of_inverse? h]
    exact hsome e
  | literals hop hl hr => exact not_irreducible_of_literals hop hl hr
  | sum h =>
    obtain ⟨hl, hr⟩ := forall_operands below
    exact h.not_irreducible hl hr
  | difference h =>
    obtain ⟨hl, hr⟩ := forall_operands below
    exact h.not_irreducible hl hr
  | product h =>
    obtain ⟨_, hr⟩ := forall_operands below
    exact h.not_irreducible hr
  | quotient h =>
    obtain ⟨hl, hr⟩ := forall_operands below
    exact h.not_irreducible hl hr
  | power h =>
    rcases h with h | h | h
    · apply not_irreducible_of_always Rule.toZero (by simp [rules, Rule.powerRules])
      exact Rule.exprIf_of_true h
    · apply not_irreducible_of_always Rule.byOne (by simp [rules, Rule.powerRules])
      exact Rule.exprIf_of_true h
    · apply not_irreducible_of_always Rule.oneTo (by simp [rules, Rule.powerRules])
      exact Rule.exprIf_of_true h
  | root h =>
    apply not_irreducible_of_always Rule.byOne (by simp [rules])
    exact Rule.exprIf_of_true h
  | log h =>
    apply not_irreducible_of_always Rule.overItself (by simp [rules])
    exact Rule.exprIf_of_true h

/-! ## The result -/

/-- A normal form is no redex. -/
theorem Normal.not_redex {e : Expr R} (h : Normal e) : ¬ Redex e := by
  intro hredex
  obtain ⟨_, below, _, irreducible⟩ := h
  exact hredex.not_irreducible below irreducible

/-- A simplified form has no redex at any position. -/
theorem not_redex_of_simplified {t s : Expr R} (h : t.simplified = .ok s) {p : List Nat}
    {e : Expr R} (hp : s.subexprAt? p = some e) : ¬ Redex e := by
  apply Normal.not_redex
  exact (normal_of_simplified h).subexprAt? hp

/-- The two literals of `(x + 1) + 2` are joined, and the sum that is left is no redex. -/
theorem not_redex_of_simplified_sum :
    (Expr.add (.add (.var "x") (.number ⟨1⟩)) (.number ⟨2⟩) : Expr Whole).simplified =
      .ok (.add (.var "x") (.number ⟨3⟩)) ∧
    ¬ Redex (Expr.add (.var "x") (.number ⟨3⟩) : Expr Whole) := by
  have hsum (v : Whole) (h : Rule.reduce? (.add (.var "x") (.number v)) = .ok none) :
      (Expr.add (.var "x") (.number v)).simplified = .ok (.add (.var "x") (.number v)) := by
    rw [simplified_binary_eq (simplified_var "x") (simplified_number v), simplifyNext, h]
  have h : (Expr.add (.add (.var "x") (.number ⟨1⟩)) (.number ⟨2⟩) : Expr Whole).simplified =
      .ok (.add (.var "x") (.number ⟨3⟩)) := by
    rw [simplified_binary_eq (hsum ⟨1⟩ rfl) (simplified_number _)]
    exact hsum ⟨3⟩ rfl
  exact ⟨h, not_redex_of_simplified h (subexprAt?_nil _)⟩

end Expr

end SymbolicAlgebra
