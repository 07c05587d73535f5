import SymbolicAlgebra.Proofs.FloatRange
import SymbolicAlgebra.Proofs.ProductRuns

set_option autoImplicit false

/-!
# Divisions by literals that vanish

Simplification refuses a division by zero. A product or quotient of variables and of literals
that are not zero (`Expr.Monomial`) has no zero in it, but binary64 arithmetic may round the
product or the quotient of two such literals to zero. A quotient `l / r` somewhere in the
expression is then one by the literal zero (`Expr.DividesByZero`).

There are two ways to it. In the divisor two literals may fold to zero (`Expr.FoldsToZero`), as in
`x / (c * c)`: the divisor as it is written has been computed, and it is zero. Or a rule joins
literals that do not stand beside each other (`Expr.RegroupsToZero`), as in `x / c / c`, and the
zero is one that the expression as it is written does not compute (`regroupsDivisor_div_div`). A
zero that does not come into a divisor does no harm: the product with it is the literal zero again.

`simplified_monomial` says that a literal folded to zero in a divisor is a division by zero, and
that there is a simplified form where neither a folded nor a regrouped literal vanishes in a
divisor. It says nothing of an expression in which only a regrouped literal does. Where the sizes
of the literals stay in the range of normal numbers, none vanishes.
-/

namespace SymbolicAlgebra

variable {R : Type}

namespace Expr

variable [Scalar R]

/-! ## Products and quotients without a literal zero -/

/-- Every part of an expression with a simplified form has a simplified form. -/
theorem exists_simplified_of_contains {e c s : Expr R} (hs : e.simplified = .ok s)
    (h : e.Contains c) : ∃ s', c.simplified = .ok s' := by
  obtain ⟨p, hp⟩ := h
  induction p generalizing e s with
  | nil =>
    rw [← Option.some.inj hp]
    exact ⟨s, hs⟩
  | cons i p ih =>
    obtain ⟨d, hd, hp⟩ := subexprAt?_cons_eq_some_iff.1 hp
    obtain ⟨node, hnode, -⟩ := simplified_eq_ok_iff.1 hs
    obtain ⟨cs, hcs, -⟩ := mapChildren_eq_ok_iff.1 hnode
    obtain ⟨s', -, hs'⟩ := exists_mem_of_forall₂ hcs (List.mem_of_getElem? hd)
    exact ih hs' hp

/-- The products and quotients of variables and finite literals that are not zero. -/
inductive Monomial : Expr R → Prop where
  | var (x : String) : Monomial (.var x)
  | literal {v : R} (hfinite : Scalar.isFinite v = true) (hzero : Scalar.isZero v = false) :
      Monomial (.number v)
  | mul {l r : Expr R} (hl : Monomial l) (hr : Monomial r) : Monomial (.mul l r)
  | div {l r : Expr R} (hl : Monomial l) (hr : Monomial r) : Monomial (.div l r)

theorem Monomial.of_contains {e c : Expr R} (h : e.Monomial) (hc : e.Contains c) :
    c.Monomial := by
  induction h with
  | var x =>
    rw [hc.eq_of_leaf rfl]
    exact .var x
  | literal hfinite hzero =>
    rw [hc.eq_of_leaf rfl]
    exact .literal hfinite hzero
  | mul hl hr ihl ihr =>
    rcases contains_binary_iff.1 hc with rfl | hc | hc
    · exact .mul hl hr
    · exact ihl hc
    · exact ihr hc
  | div hl hr ihl ihr =>
    rcases contains_binary_iff.1 hc with rfl | hc | hc
    · exact .div hl hr
    · exact ihl hc
    · exact ihr hc

/-! ## How a literal vanishes -/

/-- The simplified form of the divisor is the literal zero, and that of the dividend is not. -/
def DividesByZero (l r : Expr R) : Prop :=
  ∃ l' z, l.simplified = .ok l' ∧ l'.isNumber 0 = false ∧ r.simplified = .ok (.number z) ∧
    Scalar.isZero z = true

/-- Both operands are simplified to literals, neither of them zero, and these fold to zero. -/
def FoldsToZero (e : Expr R) : Prop :=
  ∃ op l r a b z, e = .binary op l r ∧ l.simplified = .ok (.number a) ∧
    r.simplified = .ok (.number b) ∧ Scalar.isZero a = false ∧ Scalar.isZero b = false ∧
    Fold.real? op a b = .ok (some (.number z)) ∧ Scalar.isZero z = true

/-- Zero, as the product or quotient of two literals that are not zero. -/
def Vanished (v : R) : Prop :=
  Scalar.isZero v = true ∧
    ∃ a b, Scalar.isZero a = false ∧ Scalar.isZero b = false ∧ (v = a * b ∨ v = a / b)

/-- The rules come to a node with a vanished literal beside an operand that is no literal. -/
def RegroupsToZero (e : Expr R) : Prop :=
  ∃ last w, e.StepsTo last ∧ Rule.withLiteral? last = some w ∧ Vanished w.literal

/-- Somewhere in the expression is a division by zero, with literals in the divisor that fold to
zero. -/
def FoldsDivisor (t : Expr R) : Prop :=
  ∃ l r, t.Contains (.div l r) ∧ DividesByZero l r ∧ ∃ c, r.Contains c ∧ c.FoldsToZero

/-- Somewhere in the expression is a division by zero, with literals in the divisor that a rule
joins to zero, or the rules come to a quotient of what is no literal by a vanished literal. -/
def RegroupsDivisor (t : Expr R) : Prop :=
  (∃ l r, t.Contains (.div l r) ∧ DividesByZero l r ∧ ∃ c, r.Contains c ∧ c.RegroupsToZero) ∨
    ∃ c x v, t.Contains c ∧ c.StepsTo (.div x (.number v)) ∧ x.isScalarLiteral = false ∧
      Vanished v

/-- Some literals in the expression vanish. -/
def Vanishes (t : Expr R) : Prop := ∃ c, t.Contains c ∧ (c.FoldsToZero ∨ c.RegroupsToZero)

section Operands

variable {op : BinaryOp} {l r : Expr R}

theorem Vanishes.left (h : l.Vanishes) : (Expr.binary op l r).Vanishes := by
  obtain ⟨c, hc, h⟩ := h
  exact ⟨c, hc.left, h⟩

theorem Vanishes.right (h : r.Vanishes) : (Expr.binary op l r).Vanishes := by
  obtain ⟨c, hc, h⟩ := h
  exact ⟨c, hc.right, h⟩

/-- A divisor in which literals vanish stands somewhere in the expression. -/
def VanishesInDivisor (t : Expr R) : Prop := t.FoldsDivisor ∨ t.RegroupsDivisor

theorem VanishesInDivisor.left (h : l.VanishesInDivisor) :
    (Expr.binary op l r).VanishesInDivisor := by
  rcases h with ⟨a, b, hc, h⟩ | ⟨a, b, hc, h⟩ | ⟨c, x, v, hc, h⟩
  · exact .inl ⟨a, b, hc.left, h⟩
  · exact .inr (.inl ⟨a, b, hc.left, h⟩)
  · exact .inr (.inr ⟨c, x, v, hc.left, h⟩)

theorem VanishesInDivisor.right (h : r.VanishesInDivisor) :
    (Expr.binary op l r).VanishesInDivisor := by
  rcases h with ⟨a, b, hc, h⟩ | ⟨a, b, hc, h⟩ | ⟨c, x, v, hc, h⟩
  · exact .inl ⟨a, b, hc.right, h⟩
  · exact .inr (.inl ⟨a, b, hc.right, h⟩)
  · exact .inr (.inr ⟨c, x, v, hc.right, h⟩)

/-- A division by a zero that comes of literals that vanish in the divisor. -/
theorem DividesByZero.vanishesInDivisor (h : DividesByZero l r) (hr : r.Vanishes) :
    (Expr.div l r).VanishesInDivisor := by
  obtain ⟨c, hc, hfolds | hregroups⟩ := hr
  · exact .inl ⟨l, r, .refl _, h, c, hc, hfolds⟩
  · exact .inr (.inl ⟨l, r, .refl _, h, c, hc, hregroups⟩)

end Operands

/-! ## The outcome of a run -/

/-- The literal is not zero. -/
def NonZero (_ : Nat) (v : R) : Prop := Scalar.isZero v = false

/-- What may come of a product or quotient of variables and literals that are not zero: an
expression without a literal zero, the literal zero, which has come of literals that vanish, or a
failure, for which literals that vanish in a divisor are the cause. -/
inductive MonomialOutcome (t : Expr R) : Prop where
  | simplified {s : Expr R} (hs : t.simplified = .ok s) (h : Scaled NonZero 0 s)
  | vanished {z : R} (hs : t.simplified = .ok (.number z)) (hz : Scalar.isZero z = true)
      (h : t.Vanishes)
  | failed (hs : t.simplified = .error .divideByZero) (h : t.VanishesInDivisor)

variable {t l r e : Expr R} {op : BinaryOp}

theorem Scaled.anyLiteral {n : Nat} (h : Scaled NonZero n e) : Scaled AnyLiteral n e :=
  h.imp fun _ _ _ => trivial

/-- A literal that comes of an expression in which literals vanish may be zero or not. -/
theorem MonomialOutcome.of_number {v : R} (hs : t.simplified = .ok (.number v))
    (h : t.Vanishes) : MonomialOutcome t := by
  cases hv : Scalar.isZero v with
  | true => exact .vanished hs hv h
  | false => exact .simplified hs (.number hv)

/-- The rules join a literal operand and the literal of the other operand to one that is zero. In
a product, and as a dividend, this zero is the result; as a divisor it is refused. -/
theorem MonomialOutcome.of_leavesScale {last : Expr R} (hsteps : t.StepsTo last)
    (h : LeavesScale NonZero 0 last) : MonomialOutcome t := by
  obtain ⟨v, x, ⟨_, _, a, b, -, ha, hb, hab, hv⟩, hx, hne, hjoined⟩ := h
  have hv : Scalar.isZero v = true := Bool.eq_true_of_not_eq_false hv
  have hvanished : Vanished v := ⟨hv, a, b, ha, hb, hab⟩
  have hvanishes : t.Vanishes := by
    obtain ⟨w, hw, hliteral⟩ := hjoined.exists_withLiteral? hne
    exact ⟨t, .refl t, .inr ⟨last, w, hsteps, hw, hliteral ▸ hvanished⟩⟩
  have hs := hsteps.simplified_eq
  have hany := hx.scaled.anyLiteral
  cases hjoined with
  | times =>
    obtain ⟨w, hw⟩ := simplifyNext_mul_zero (.number trivial) hany (.inl hv)
    exact .of_number (hs.trans hw) hvanishes
  | dividend =>
    obtain ⟨w, hw⟩ := simplifyNext_zero_div hv hany
    exact .of_number (hs.trans hw) hvanishes
  | divisor =>
    have hfails := reduce?_div_zero (isNumber_eq_false hne 0) hany.ne_complex hv
    refine .failed (hs.trans (simplifyNext_eq_error hfails)) ?_
    exact .inr (.inr ⟨t, x, v, .refl t, hsteps, hany.isScalarLiteral_eq_false hne, hvanished⟩)

/-- Two simplified operands without a literal zero. -/
theorem MonomialOutcome.of_operands {l' r' : Expr R} (hK : LiteralScale (NonZero (R := R)))
    (hop : op = .mul ∨ op = .div) (hl : l.simplified = .ok l') (hr : r.simplified = .ok r')
    (hl' : Scaled NonZero 0 l') (hr' : Scaled NonZero 0 r') :
    MonomialOutcome (.binary op l r) := by
  by_cases hne : l'.asNumber? = none ∨ r'.asNumber? = none
  · have hnormal := normal_of_simplified hl
    have hnormal' := normal_of_simplified hr
    have hready : Ready NonZero 0 (.binary op l' r') :=
      .operation hop (Nat.le_refl 0) ⟨hl', hnormal⟩ ⟨hr', hnormal'⟩ hne
    rcases hready.run hK with ⟨s, hs, hscaled⟩ | ⟨last, hsteps, hleaves⟩
    · refine .simplified ?_ hscaled
      rw [simplified_binary_eq hl hr, ← hs]
      exact (simplified_binary_eq hnormal.simplified_eq_self hnormal'.simplified_eq_self).symm
    · refine .of_leavesScale (.of_node ?_ hready.mapChildren_eq hsteps) hleaves
      exact mapChildren_eq_ok_iff.2 ⟨[l', r'], .cons hl (.cons hr .nil), rfl⟩
  · obtain ⟨a, b, rfl, rfl⟩ := exists_literals hne
    have ha : Scalar.isZero a = false := hl'.isNumber_zero hK
    have hb : Scalar.isZero b = false := hr'.isNumber_zero hK
    obtain ⟨v, -, hfold⟩ := exists_fold hop a hb
    have hs := (simplified_binary_eq hl hr).trans (simplifyNext_literals hfold)
    cases hv : Scalar.isZero v with
    | false => exact .simplified hs (.number hv)
    | true =>
      exact .vanished hs hv
        ⟨_, .refl _, .inl ⟨op, l, r, a, b, v, rfl, hl, hr, ha, hb, hfold, hv⟩⟩

/-- A product of which one factor is simplified to the literal zero. -/
theorem MonomialOutcome.of_mul_zero {l' r' : Expr R} (hl : l.simplified = .ok l')
    (hr : r.simplified = .ok r') (hl' : Scaled AnyLiteral 0 l') (hr' : Scaled AnyLiteral 0 r')
    (hz : l'.isNumber 0 = true ∨ r'.isNumber 0 = true) (hv : (Expr.mul l r).Vanishes) :
    MonomialOutcome (.mul l r) := by
  obtain ⟨v, hs⟩ := simplifyNext_mul_zero hl' hr' hz
  exact .of_number ((simplified_binary_eq hl hr).trans hs) hv

/-- The left operand has a simplified form, and the right one fails. -/
theorem MonomialOutcome.of_failed_right {l' : Expr R} (hl : l.simplified = .ok l')
    (hs : r.simplified = .error .divideByZero) (h : r.VanishesInDivisor) :
    MonomialOutcome (.binary op l r) := by
  refine .failed ?_ h.right
  rw [simplified_binary, hl, hs]
  rfl

/-- A product or quotient has one of the outcomes where its operands have. -/
theorem MonomialOutcome.binary (hK : LiteralScale (NonZero (R := R)))
    (hop : op = .mul ∨ op = .div) (hl : MonomialOutcome l) (hr : MonomialOutcome r) :
    MonomialOutcome (.binary op l r) := by
  cases hl with
  | failed hs h =>
    refine .failed ?_ h.left
    rw [simplified_binary, hs]
    rfl
  | @simplified l' hl hl' =>
    cases hr with
    | failed hs h => exact .of_failed_right hl hs h
    | simplified hr hr' => exact .of_operands hK hop hl hr hl' hr'
    | vanished hr hz h =>
      rcases hop with rfl | rfl
      · exact .of_mul_zero hl hr hl'.anyLiteral (.number trivial) (.inr hz) h.right
      · -- The zero has come into a divisor.
        have hne := hl'.isNumber_zero hK
        refine .failed ?_ (DividesByZero.vanishesInDivisor ⟨l', _, hl, hne, hr, hz⟩ h)
        rw [simplified_binary_eq hl hr]
        exact simplifyNext_eq_error (reduce?_div_zero hne hl'.ne_complex hz)
  | @vanished z hl hz h =>
    have hany : ∀ {r'}, r.simplified = .ok r' → Scaled AnyLiteral 0 r' →
        MonomialOutcome (.binary op l r) := by
      intro r' hr hr'
      rcases hop with rfl | rfl
      · exact .of_mul_zero hl hr (.number trivial) hr' (.inl hz) h.left
      · obtain ⟨v, hs⟩ := simplifyNext_zero_div hz hr'
        exact .of_number ((simplified_binary_eq hl hr).trans hs) h.left
    cases hr with
    | failed hs h => exact .of_failed_right hl hs h
    | simplified hr hr' => exact hany hr hr'.anyLiteral
    | vanished hr _ _ => exact hany hr (.number trivial)

/-- Every product or quotient of variables and literals that are not zero has one of the
outcomes. -/
theorem Monomial.outcome (hK : LiteralScale (NonZero (R := R))) (h : t.Monomial) :
    MonomialOutcome t := by
  induction h with
  | var x => exact .simplified (simplified_var x) (.var 0 x)
  | literal _ hzero => exact .simplified (simplified_number _) (.number hzero)
  | mul _ _ ihl ihr => exact ihl.binary hK (.inl rfl) ihr
  | div _ _ ihl ihr => exact ihl.binary hK (.inr rfl) ihr

/-- A simplified form is a product or quotient of variables and real literals. -/
theorem MonomialOutcome.scaled {s : Expr R} (h : MonomialOutcome t) (hs : t.simplified = .ok s) :
    Scaled AnyLiteral 0 s := by
  cases h with
  | simplified hs' h =>
    rw [hs] at hs'
    rw [Except.ok.inj hs']
    exact h.anyLiteral
  | vanished hs' _ _ =>
    rw [hs] at hs'
    rw [Except.ok.inj hs']
    exact .number trivial
  | failed hs' _ =>
    rw [hs] at hs'
    cases hs'

/-- There is a simplified form, or literals that vanish in a divisor make a failure. -/
theorem Monomial.exists_simplified_or_error (hK : LiteralScale (NonZero (R := R)))
    (h : t.Monomial) :
    (∃ s, t.simplified = .ok s) ∨
      t.simplified = .error .divideByZero ∧ t.VanishesInDivisor := by
  cases h.outcome hK with
  | simplified hs _ => exact .inl ⟨_, hs⟩
  | vanished hs _ _ => exact .inl ⟨_, hs⟩
  | failed hs hv => exact .inr ⟨hs, hv⟩

/-- A part that fails makes the whole fail. -/
theorem Monomial.simplified_eq_error (hK : LiteralScale (NonZero (R := R))) (h : t.Monomial)
    (hc : t.Contains e) (he : e.simplified = .error .divideByZero) :
    t.simplified = .error .divideByZero := by
  rcases h.exists_simplified_or_error hK with ⟨s, hs⟩ | ⟨hs, -⟩
  · -- A result for the whole would be one for the part.
    obtain ⟨s', hs'⟩ := exists_simplified_of_contains hs hc
    rw [he] at hs'
    cases hs'
  · exact hs

/-- A division by zero anywhere in the expression is a failure. -/
theorem Monomial.simplified_of_dividesByZero (hK : LiteralScale (NonZero (R := R)))
    (h : t.Monomial) (hc : t.Contains (.div l r)) (hz : DividesByZero l r) :
    t.simplified = .error .divideByZero := by
  obtain ⟨l', z, hl, hne, hr, hz⟩ := hz
  have hl' : Scaled AnyLiteral 0 l' := by
    cases h.of_contains hc with
    | div hdividend _ => exact (hdividend.outcome hK).scaled hl
  apply h.simplified_eq_error hK hc
  rw [simplified_binary_eq hl hr]
  exact simplifyNext_eq_error (reduce?_div_zero hne hl'.ne_complex hz)

/-- A product or quotient of variables and literals that are not zero fails exactly where literals
vanish in a divisor. -/
theorem Monomial.simplified_eq_error_iff (hK : LiteralScale (NonZero (R := R)))
    (h : t.Monomial) :
    t.simplified = .error .divideByZero ↔ t.FoldsDivisor ∨ t.RegroupsDivisor := by
  constructor
  · intro hs
    rcases h.exists_simplified_or_error hK with ⟨s, hs'⟩ | ⟨-, hv⟩
    · rw [hs] at hs'
      cases hs'
    · exact hv
  · rintro (⟨l, r, hc, hz, -⟩ | ⟨l, r, hc, hz, -⟩ | ⟨c, x, v, hc, hsteps, hx, hv, -⟩)
    · exact h.simplified_of_dividesByZero hK hc hz
    · exact h.simplified_of_dividesByZero hK hc hz
    · apply h.simplified_eq_error hK hc
      rw [hsteps.simplified_eq]
      have hzero : x.isNumber 0 = false := by
        cases x with
        | number a => cases hx
        | _ => rfl
      have hcomplex : ∀ w, x ≠ .complex w := by
        rintro w rfl
        cases hx
      exact simplifyNext_eq_error (reduce?_div_zero hzero hcomplex hv)

/-- A quotient by two literals one after the other comes to a quotient by their product. Where the
product vanishes, this is a division by zero, and neither of the divisors is zero. -/
theorem regroupsDivisor_div_div {v w : R} (hv : Scalar.isZero v = false)
    (hw : Scalar.isZero w = false) (hv1 : (Expr.number v).isNumber 1 = false)
    (hw1 : (Expr.number w).isNumber 1 = false) (hvw : Scalar.isZero (v * w) = true)
    (x : String) :
    let t : Expr R := .div (.div (.var x) (.number v)) (.number w)
    t.RegroupsDivisor ∧ ¬ t.FoldsDivisor := by
  intro t
  have hover : ∀ {u : R} (l : Expr R), Scalar.isZero u = false →
      Rule.overZero l (.number u) = .ok none := by
    intro u l hu
    rw [Rule.overZero, Rule.isZeroLiteral, hu]
    rfl
  have hvar : (Expr.var x : Expr R).Normal := normal_of_simplified (simplified_var x)
  have hnumber {u : R} : (Expr.number u).Normal := normal_of_simplified (simplified_number u)
  have hinner : (Expr.div (.var x) (.number v)).Normal := by
    apply normal_of_simplified (e := .div (.var x) (.number v))
    rw [simplified_binary_eq (simplified_var x) (simplified_number v)]
    refine simplifyNext_eq_ok_iff.2 (.inl ⟨?_, rfl⟩)
    rw [Rule.reduce?_binary rfl]
    simp only [Rule.rules, Rule.quotientRules, Rule.firstMatch, hover _ hv, Rule.always,
      Rule.byOne, hv1, Rule.exprIf]
    rfl
  have hstep : Rule.Step t (.div (.var x) (.number (v * w))) := by
    rw [Rule.Step, Rule.reduce?_binary rfl]
    simp only [Rule.rules, Rule.quotientRules, Rule.firstMatch, hover _ hw, Rule.always,
      Rule.byOne, hw1, Rule.exprIf]
    rfl
  constructor
  · have hvanished : Vanished (v * w) := ⟨hvw, v, w, hv, hw, .inl rfl⟩
    refine .inr ⟨t, .var x, v * w, .refl t, ?_, rfl, hvanished⟩
    exact .once (mapChildren_binary_eq hinner hnumber) hstep (mapChildren_binary_eq hvar hnumber)
  · -- Each divisor is one of the literals as it is written.
    rintro ⟨l, r, hc, ⟨l', z, -, -, hr, hz⟩, -⟩
    have hdivisor : ∃ u, r = .number u ∧ Scalar.isZero u = false := by
      rcases contains_binary_iff.1 hc with h | hc | hc
      · cases h
        exact ⟨w, rfl, hw⟩
      · rcases contains_binary_iff.1 hc with h | hc | hc
        · cases h
          exact ⟨v, rfl, hv⟩
        · cases hc.eq_of_leaf rfl
        · cases hc.eq_of_leaf rfl
      · cases hc.eq_of_leaf rfl
    obtain ⟨u, rfl, hu⟩ := hdivisor
    rw [simplified_number] at hr
    rw [← Expr.number.inj (Except.ok.inj hr), hu] at hz
    cases hz

end Expr

/-! ## Binary64 literals -/

namespace SignedFloat

open SymbolicAlgebra.Expr

/-- The size of the literal lies between `2 ^ -n` and `2 ^ n`. -/
def Within (n : Nat) (v : SignedFloat) : Prop := Binary64.Within n v.value

theorem literalScale_nonZero : LiteralScale (NonZero (R := SignedFloat)) where
  ne_zero h := h
  one := Binary64.within_one.beq_zero
  neg {n v} h := by
    change (-v.value == 0) = false
    rw [Binary64.neg_beq_zero]
    exact h
  mono _ h := h

/-- A literal so small that its square is rounded to zero. -/
def tiny : SignedFloat := Scalar.ofDecimal 1 (-200)

theorem isZero_tiny : Scalar.isZero tiny = false := by decide +kernel

theorem isZero_tiny_mul : Scalar.isZero (tiny * tiny) = true := by decide +kernel

theorem isFinite_tiny : Scalar.isFinite tiny = true := by decide +kernel

end SignedFloat

namespace Expr

open SignedFloat

/-- A quotient by the literal and by it once more is a division by zero that the expression as it
is written does not have. -/
theorem regroupsDivisor_overTinyTwice (x : String) :
    let t : Expr SignedFloat := .div (.div (.var x) (.number tiny)) (.number tiny)
    t.RegroupsDivisor ∧ ¬ t.FoldsDivisor ∧ t.simplified = .error .divideByZero := by
  intro t
  have hone : (Expr.number tiny).isNumber 1 = false := by decide +kernel
  obtain ⟨hregroups, hfolds⟩ :=
    regroupsDivisor_div_div isZero_tiny isZero_tiny hone hone isZero_tiny_mul x
  have ht : t.Monomial := by
    have htiny : Monomial (.number tiny) := .literal isFinite_tiny isZero_tiny
    exact .div (.div (.var x) htiny) htiny
  refine ⟨hregroups, hfolds, ?_⟩
  exact (ht.simplified_eq_error_iff literalScale_nonZero).2 (.inr hregroups)

end Expr

end SymbolicAlgebra
