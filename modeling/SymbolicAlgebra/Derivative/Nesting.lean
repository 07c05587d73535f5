import SymbolicAlgebra.Derivative.Rules
import SymbolicAlgebra.Expr.Shape

set_option autoImplicit false

/-!
# Nesting of derivatives

A derivative node asks for the derivative of what its operand has as derivative, so the
recursion of differentiation cannot rest on the size of expressions alone. It rests on how
deeply derivative nodes are nested (`Expr.nesting`), and only then on the size (`Expr.Descends`).

No rule of differentiation writes a derivative node. An operation on two operands is nested no
deeper than these (`nesting_binary_le`), and the rules are such operations on the operands and
their derivatives; so what they write is nested no deeper than these (`nesting_chainRule?_le` and
`nesting_binaryRule_le`).
-/

namespace SymbolicAlgebra

namespace Expr

variable {R : Type}

/-! ## The measure -/

mutual
/-- How many derivative nodes lie above each other at most. -/
@[simp] def nesting : Expr R → Nat
  | .number _ | .truth _ | .complex _ | .quantity _ | .var _ => 0
  | .rational n d => max (nesting n) (nesting d)
  | .unary _ e | .undefine e | .increment e | .decrement e | .simplify e => nesting e
  | .derivative e _ => nesting e + 1
  | .binary _ l r => max (nesting l) (nesting r)
  | .aggregate _ args | .call _ args => nestingList args
  | .vector es => nestingList es
  | .matrix rows => nestingList rows
  | .define t v | .update _ t v => max (nesting t) (nesting v)
  | .ifThen c t => max (nesting c) (nesting t)
  | .ifThenElse c t e => max (nesting c) (max (nesting t) (nesting e))
  | .forLoop i c s b => max (nesting i) (max (nesting c) (max (nesting s) (nesting b)))
  | .whileLoop c b => max (nesting c) (nesting b)
/-- The greatest nesting in a list of expressions. -/
@[simp] def nestingList : List (Expr R) → Nat
  | [] => 0
  | e :: es => max (nesting e) (nestingList es)
end

/-- The order in which differentiation descends: by nesting first, then by size, then by
the step within a node. -/
abbrev Descends : Nat × Nat × Nat → Nat × Nat × Nat → Prop :=
  Prod.Lex (· < ·) (Prod.Lex (· < ·) (· < ·))

/-- A triple descends where no part grows and the second or the third shrinks. -/
theorem descends_of_le {n m s t i j : Nat} (hn : n ≤ m) (hs : s ≤ t) (h : s < t ∨ i < j) :
    Descends (n, s, i) (m, t, j) := by
  rcases Nat.lt_or_eq_of_le hn with hn | rfl
  · exact .left _ _ hn
  · rcases Nat.lt_or_eq_of_le hs with hs | rfl
    · exact .right _ (.left _ _ hs)
    · exact .right _ (.right _ (h.resolve_left (Nat.lt_irrefl s)))

/-- The empty list is nested no deeper than itself. -/
theorem nestingList_nil_le :
    nestingList ([] : List (Expr R)) ≤ nestingList ([] : List (Expr R)) :=
  Nat.le_refl _

/-- A list whose members are nested no deeper is nested no deeper. -/
theorem nestingList_cons_le {d e : Expr R} {ds es : List (Expr R)} (h : d.nesting ≤ e.nesting)
    (hs : nestingList ds ≤ nestingList es) : nestingList (d :: ds) ≤ nestingList (e :: es) := by
  simp only [nestingList]; omega

/-- A matrix is nested as deeply as its rows. -/
theorem nesting_matrixOf {rows : List (Expr R)} {e : Expr R} (h : matrixOf rows = .ok e) :
    e.nesting = nestingList rows := by
  rw [(matrixOf_eq_ok_iff.1 h).2, nesting]

end Expr

namespace Derivative

variable {R : Type} [Scalar R]

/-! ## The rules -/

/-- The operand and its derivative, if there is one, are nested at most `n` deep. -/
def Operand.NestedAtMost (o : Operand R) (n : Nat) : Prop :=
  o.expr.nesting ≤ n ∧ ∀ d ∈ o.derivative?, d.nesting ≤ n

omit [Scalar R] in
/-- An operation on two operands is nested no deeper than these. -/
theorem nesting_binary_le (op : BinaryOp) {l r : Expr R} {n : Nat} (hl : l.nesting ≤ n)
    (hr : r.nesting ≤ n) : (Expr.binary op l r).nesting ≤ n :=
  Nat.max_le.2 ⟨hl, hr⟩

/-- The square of an expression is nested no deeper than the expression. -/
theorem nesting_square_le {e : Expr R} {n : Nat} (h : e.nesting ≤ n) : (square e).nesting ≤ n :=
  nesting_binary_le _ h (Nat.zero_le n)

/-- Computing one less does not nest deeper. -/
theorem nesting_minusOne_le {e : Expr R} {n : Nat} (h : e.nesting ≤ n) :
    (minusOne e).nesting ≤ n := by
  unfold minusOne
  split
  · exact Nat.zero_le n
  · exact nesting_binary_le _ h (Nat.zero_le n)

/-- The derivative of a function is nested no deeper than the operand and its
derivative. -/
theorem nesting_chainRule?_le {op : UnaryOp} {u du d : Expr R} {n : Nat}
    (hu : u.nesting ≤ n) (hdu : du.nesting ≤ n) (h : chainRule? op u du = some d) :
    d.nesting ≤ n := by
  cases op <;> simp only [chainRule?, Option.some.injEq, reduceCtorEq] at h <;> subst h <;>
    simp only [Expr.nesting, Nat.max_le, Nat.zero_le, and_self, hu, hdu]

/-- The operand `1 / v` is nested no deeper than `v`. -/
theorem nestedAtMost_reciprocalOperand {v : Operand R} {n : Nat} (hv : v.NestedAtMost n) :
    (reciprocalOperand v).NestedAtMost n := by
  refine ⟨nesting_binary_le _ (Nat.zero_le n) hv.1, ?_⟩
  intro d hd
  obtain ⟨dv, hdv, rfl⟩ := Option.map_eq_some_iff.1 hd
  have hopposite : (Expr.neg (.mul .one dv)).nesting ≤ n :=
    nesting_binary_le .mul (Nat.zero_le n) (hv.2 dv hdv)
  exact nesting_binary_le _ hopposite (nesting_square_le hv.1)

omit [Scalar R] in
/-- The operand `ln v` is nested no deeper than `v`. -/
theorem nestedAtMost_lnOperand {v : Operand R} {n : Nat} (hv : v.NestedAtMost n) :
    (lnOperand v).NestedAtMost n := by
  refine ⟨hv.1, ?_⟩
  intro d hd
  obtain ⟨dv, hdv, rfl⟩ := Option.map_eq_some_iff.1 hd
  exact nesting_binary_le _ (hv.2 dv hdv) hv.1

omit [Scalar R] in
/-- What is nested at most `n` deep is nested at most `m` deep for every larger `m`. -/
theorem Operand.NestedAtMost.mono {o : Operand R} {n m : Nat} (h : o.NestedAtMost n)
    (hnm : n ≤ m) : o.NestedAtMost m :=
  ⟨Nat.le_trans h.1 hnm, fun d hd => Nat.le_trans (h.2 d hd) hnm⟩

section Binary

variable {u v : Operand R} {n : Nat}

/-- The sum rule does not nest deeper than the operands. -/
theorem nesting_sumRule_le (op : BinaryOp) (hu : u.NestedAtMost n)
    (hv : v.NestedAtMost n) : (sumRule op u v).nesting ≤ n := by
  unfold sumRule
  split
  · rename_i du dv hdu hdv
    exact nesting_binary_le _ (hu.2 du hdu) (hv.2 dv hdv)
  · rename_i du hdu _
    exact hu.2 du hdu
  · rename_i dv _ hdv
    split
    · exact hv.2 dv hdv
    · exact hv.2 dv hdv
  · exact Nat.zero_le n

/-- The product rule does not nest deeper than the operands. -/
theorem nesting_productRule_le (hu : u.NestedAtMost n) (hv : v.NestedAtMost n) :
    (productRule u v).nesting ≤ n := by
  unfold productRule
  split
  · rename_i du dv hdu hdv
    exact nesting_binary_le _ (nesting_binary_le _ (hu.2 du hdu) hv.1)
      (nesting_binary_le _ hu.1 (hv.2 dv hdv))
  · rename_i du hdu _
    exact nesting_binary_le _ hv.1 (hu.2 du hdu)
  · rename_i dv _ hdv
    exact nesting_binary_le _ hu.1 (hv.2 dv hdv)
  · exact Nat.zero_le n

/-- The quotient rule does not nest deeper than the operands. -/
theorem nesting_quotientRule_le (hu : u.NestedAtMost n) (hv : v.NestedAtMost n) :
    (quotientRule u v).nesting ≤ n := by
  have hsquare := nesting_square_le hv.1
  unfold quotientRule
  split
  · rename_i du dv hdu hdv
    have hdifference := nesting_binary_le .sub
      (nesting_binary_le .mul (hu.2 du hdu) hv.1)
      (nesting_binary_le .mul hu.1 (hv.2 dv hdv))
    exact nesting_binary_le _ hdifference hsquare
  · rename_i du hdu _
    exact nesting_binary_le _ (hu.2 du hdu) hv.1
  · rename_i dv _ hdv
    have hopposite : (Expr.neg (.mul u.expr dv)).nesting ≤ n :=
      nesting_binary_le .mul hu.1 (hv.2 dv hdv)
    exact nesting_binary_le _ hopposite hsquare
  · exact Nat.zero_le n

/-- The power rule does not nest deeper than the operands. -/
theorem nesting_powerRule_le (hu : u.NestedAtMost n) (hv : v.NestedAtMost n) :
    (powerRule u v).nesting ≤ n := by
  have hpower : (Expr.pow u.expr v.expr).nesting ≤ n := nesting_binary_le _ hu.1 hv.1
  have hln : (Expr.unary .ln u.expr).nesting ≤ n := hu.1
  unfold powerRule
  split
  · rename_i du dv hdu hdv
    have hslope := nesting_binary_le .div
      (nesting_binary_le .mul hv.1 (hu.2 du hdu)) hu.1
    have hsum := nesting_binary_le .add
      (nesting_binary_le .mul (hv.2 dv hdv) hln) hslope
    exact nesting_binary_le _ hpower hsum
  · rename_i du hdu _
    have hlower := nesting_binary_le .pow hu.1 (nesting_minusOne_le hv.1)
    exact nesting_binary_le _ (nesting_binary_le _ hv.1 hlower) (hu.2 du hdu)
  · rename_i dv _ hdv
    split
    · exact nesting_binary_le _ hpower (hv.2 dv hdv)
    · exact nesting_binary_le _ (nesting_binary_le _ hpower hln) (hv.2 dv hdv)
  · exact Nat.zero_le n

/-- The rule for roots does not nest deeper than the operands. -/
theorem nesting_rootRule_le (hu : u.NestedAtMost n) (hv : v.NestedAtMost n) :
    (rootRule u v).nesting ≤ n := by
  unfold rootRule
  split
  · exact nesting_powerRule_le hu (nestedAtMost_reciprocalOperand hv)
  · rename_i du _ hdu
    have hroot := nesting_binary_le .root hu.1 hv.1
    have hpower := nesting_binary_le .pow hroot (nesting_minusOne_le hv.1)
    exact nesting_binary_le _ (hu.2 du hdu) (nesting_binary_le _ hv.1 hpower)
  · exact Nat.zero_le n

/-- The rule for logarithms does not nest deeper than the operands. -/
theorem nesting_logRule_le (hu : u.NestedAtMost n) (hv : v.NestedAtMost n) :
    (logRule u v).nesting ≤ n := by
  have hln : (Expr.unary .ln u.expr).nesting ≤ n := hu.1
  unfold logRule
  split
  · exact nesting_quotientRule_le (nestedAtMost_lnOperand hv) (nestedAtMost_lnOperand hu)
  · rename_i dv _ hdv
    exact nesting_binary_le _ (hv.2 dv hdv) (nesting_binary_le _ hv.1 hln)
  · exact Nat.zero_le n

/-- The rule for products of vectors does not nest deeper than the operands. -/
theorem nesting_vectorRule_le (op : BinaryOp) (hu : u.NestedAtMost n)
    (hv : v.NestedAtMost n) : (vectorRule op u v).nesting ≤ n := by
  unfold vectorRule
  split
  · rename_i du dv hdu hdv
    exact nesting_binary_le _ (nesting_binary_le _ (hu.2 du hdu) hv.1)
      (nesting_binary_le _ hu.1 (hv.2 dv hdv))
  · exact Nat.zero_le n

/-- No rule for two operands nests deeper than the operands. -/
theorem nesting_binaryRule_le (op : BinaryOp) (hu : u.NestedAtMost n)
    (hv : v.NestedAtMost n) : (binaryRule op u v).nesting ≤ n := by
  unfold binaryRule
  split
  · exact nesting_productRule_le hu hv
  · exact nesting_quotientRule_le hu hv
  · exact nesting_powerRule_le hu hv
  · exact nesting_rootRule_le hu hv
  · exact nesting_logRule_le hu hv
  · exact nesting_vectorRule_le _ hu hv
  · exact nesting_vectorRule_le _ hu hv
  · exact nesting_sumRule_le op hu hv

end Binary

end Derivative

end SymbolicAlgebra
