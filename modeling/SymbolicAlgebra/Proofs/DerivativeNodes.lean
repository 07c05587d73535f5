import SymbolicAlgebra.Proofs.DerivativeRun
import SymbolicAlgebra.Proofs.SimplifyNodes

set_option autoImplicit false

/-!
# What derivatives inherit

The rules of differentiation write literals, a few functions and the arithmetic operations,
around copies of the operands and of their derivatives. So a property of expressions that these
allow, that a list keeps when its members are replaced, and that goes down to the operands
(`Derivative.Inherited`), holds of every derivative if it holds of the expression
(`Expr.inherited_derivativeBy`). A property of nodes that the rules pass on
(`Derivative.RuleNode`), as they do with stable properties, is inherited in this way by all nodes
(`Expr.everywhere_differentiate`).
-/

namespace SymbolicAlgebra

variable {R : Type}

/-! ## The rules of differentiation -/

namespace Derivative

open SymbolicAlgebra.Expr

/-- Whether the function occurs in the rules of differentiation beside the copy of an
operand. -/
@[simp, reducible] def writesFunction : UnaryOp → Bool
  | .negate | .abs | .exp | .ln | .sqrt | .sin | .cos | .tan | .cot | .sec | .csc
  | .sinh | .cosh | .tanh | .coth | .sech | .csch => true
  | _ => false

/-- Whether the operation occurs in the rules of differentiation beside the copy of an
operand. -/
@[simp, reducible] def writesOperation : BinaryOp → Bool
  | .add | .sub | .mul | .div | .pow | .root => true
  | _ => false

/-- A property of expressions that the derivative of an expression inherits: it goes from a node
that may have a derivative to the direct subexpressions, and from the operands and their
derivatives to what the rules write. -/
class Inherited [Scalar R] (P : Expr R → Prop) : Prop where
  literal (v : R) : P (.number v)
  function {op : UnaryOp} {u : Expr R} : writesFunction op = true → (P (.unary op u) ↔ P u)
  operation {op : BinaryOp} {l r : Expr R} :
    writesOperation op = true → (P (.binary op l r) ↔ P l ∧ P r)
  product {op : BinaryOp} {l r l' r' : Expr R} : operandOrder? op = some .both →
    P (.binary op l r) → P l' → P r' → P (.binary op l' r')
  sum {es ds : List (Expr R)} : es.length = ds.length → P (.aggregate .sum es) →
    (∀ d ∈ ds, P d) → P (.aggregate .sum ds)
  vector {es ds : List (Expr R)} : P (.vector es) → (∀ d ∈ ds, P d) → P (.vector ds)
  matrix {rows ds : List (Expr R)} : RowsFit ds → P (.matrix rows) → (∀ d ∈ ds, P d) →
    P (.matrix ds)
  child {e c : Expr R} : hasDerivative e = true → P e → c ∈ e.children → P c

variable [Scalar R]

/-- An operand has the property, and so has its derivative where there is one. -/
def Operand.Has (P : Expr R → Prop) (o : Operand R) : Prop :=
  P o.expr ∧ ∀ d, o.derivative? = some d → P d

section Rules

variable {P : Expr R → Prop} [Inherited P]

theorem inherited_minusOne {e : Expr R} (he : P e) : P (minusOne e) := by
  unfold minusOne
  split
  · exact Inherited.literal _
  · exact (Inherited.operation rfl).2 ⟨he, Inherited.literal _⟩

theorem inherited_chainRule? {op : UnaryOp} {u du d : Expr R} (hu : P u) (hdu : P du)
    (h : chainRule? op u du = some d) : P d := by
  unfold chainRule? at h
  dsimp only at h
  split at h <;> first
    | (rw [← Option.some.inj h]
       simp [hu, hdu, Inherited.literal (P := P), Inherited.function (P := P),
         Inherited.operation (P := P)])
    | cases h

variable {u v : Operand R}

theorem inherited_sumRule {op : BinaryOp} (hop : writesOperation op = true) (hu : u.Has P)
    (hv : v.Has P) : P (sumRule op u v) := by
  unfold sumRule
  split
  · rename_i du dv hdu hdv
    exact (Inherited.operation hop).2 ⟨hu.2 du hdu, hv.2 dv hdv⟩
  · rename_i du hdu _
    exact hu.2 du hdu
  · rename_i dv _ hdv
    split
    · exact (Inherited.function rfl).2 (hv.2 dv hdv)
    · exact hv.2 dv hdv
  · exact Inherited.literal _

theorem inherited_productRule (hu : u.Has P) (hv : v.Has P) : P (productRule u v) := by
  unfold productRule
  split
  · rename_i du dv hdu hdv
    simp [hu.1, hv.1, hu.2 du hdu, hv.2 dv hdv, Inherited.operation (P := P)]
  · rename_i du hdu _
    simp [hv.1, hu.2 du hdu, Inherited.operation (P := P)]
  · rename_i dv _ hdv
    simp [hu.1, hv.2 dv hdv, Inherited.operation (P := P)]
  · exact Inherited.literal _

theorem inherited_quotientRule (hu : u.Has P) (hv : v.Has P) : P (quotientRule u v) := by
  unfold quotientRule
  split
  · rename_i du dv hdu hdv
    simp [hu.1, hv.1, hu.2 du hdu, hv.2 dv hdv, Inherited.literal (P := P),
      Inherited.operation (P := P)]
  · rename_i du hdu _
    simp [hv.1, hu.2 du hdu, Inherited.operation (P := P)]
  · rename_i dv _ hdv
    simp [hu.1, hv.1, hv.2 dv hdv, Inherited.literal (P := P), Inherited.function (P := P),
      Inherited.operation (P := P)]
  · exact Inherited.literal _

theorem inherited_powerRule (hu : u.Has P) (hv : v.Has P) : P (powerRule u v) := by
  unfold powerRule
  dsimp only
  split
  · rename_i du dv hdu hdv
    simp [hu.1, hv.1, hu.2 du hdu, hv.2 dv hdv, Inherited.function (P := P),
      Inherited.operation (P := P)]
  · rename_i du hdu _
    simp [hu.1, hv.1, hu.2 du hdu, inherited_minusOne (P := P), Inherited.operation (P := P)]
  · rename_i dv _ hdv
    split <;> simp [hu.1, hv.1, hv.2 dv hdv, Inherited.function (P := P),
      Inherited.operation (P := P)]
  · exact Inherited.literal _

theorem inherited_reciprocalOperand (hv : v.Has P) : (reciprocalOperand v).Has P := by
  refine ⟨(Inherited.operation rfl).2 ⟨Inherited.literal _, hv.1⟩, fun d hd => ?_⟩
  obtain ⟨dv, hdv, rfl⟩ := Option.map_eq_some_iff.1 hd
  simp [hv.1, hv.2 dv hdv, Inherited.literal (P := P), Inherited.function (P := P),
    Inherited.operation (P := P)]

theorem inherited_lnOperand (hv : v.Has P) : (lnOperand v).Has P := by
  refine ⟨(Inherited.function rfl).2 hv.1, fun d hd => ?_⟩
  obtain ⟨dv, hdv, rfl⟩ := Option.map_eq_some_iff.1 hd
  exact (Inherited.operation rfl).2 ⟨hv.2 dv hdv, hv.1⟩

theorem inherited_rootRule (hu : u.Has P) (hv : v.Has P) : P (rootRule u v) := by
  unfold rootRule
  split
  · exact inherited_powerRule hu (inherited_reciprocalOperand hv)
  · rename_i du _ hdu
    simp [hu.1, hv.1, hu.2 du hdu, inherited_minusOne (P := P), Inherited.operation (P := P)]
  · exact Inherited.literal _

theorem inherited_logRule (hu : u.Has P) (hv : v.Has P) : P (logRule u v) := by
  unfold logRule
  split
  · exact inherited_quotientRule (inherited_lnOperand hv) (inherited_lnOperand hu)
  · rename_i dv _ hdv
    simp [hu.1, hv.1, hv.2 dv hdv, Inherited.function (P := P), Inherited.operation (P := P)]
  · exact Inherited.literal _

/-- A product of vectors is copied with other operands, so the property must hold of the
product itself. -/
theorem inherited_vectorRule {op : BinaryOp} (hop : operandOrder? op = some .both)
    (huv : P (.binary op u.expr v.expr)) (hu : u.Has P) (hv : v.Has P) :
    P (vectorRule op u v) := by
  unfold vectorRule
  split
  · rename_i du dv hdu hdv
    exact (Inherited.operation rfl).2 ⟨Inherited.product hop huv (hu.2 du hdu) hv.1,
      Inherited.product hop huv hu.1 (hv.2 dv hdv)⟩
  · exact Inherited.literal _

/-- The rules of operations on two operands. -/
theorem inherited_binaryRule {op : BinaryOp} {order : OperandOrder}
    (hop : operandOrder? op = some order)
    (huv : order = .both → P (.binary op u.expr v.expr)) (hu : u.Has P) (hv : v.Has P) :
    P (binaryRule op u v) := by
  unfold binaryRule
  split
  · exact inherited_productRule hu hv
  · exact inherited_quotientRule hu hv
  · exact inherited_powerRule hu hv
  · exact inherited_rootRule hu hv
  · exact inherited_logRule hu hv
  · obtain rfl := Option.some.inj hop
    exact inherited_vectorRule rfl (huv rfl) hu hv
  · obtain rfl := Option.some.inj hop
    exact inherited_vectorRule rfl (huv rfl) hu hv
  · have hsum : writesOperation op = true := by
      cases op <;> first | rfl | cases hop
      all_goals contradiction
    exact inherited_sumRule hsum hu hv

end Rules

end Derivative

/-! ## Derivatives -/

namespace Expr

open SymbolicAlgebra.Derivative (Inherited)

variable [Scalar R]

section Inherited

variable {P : Expr R → Prop}

/-- Every derivative of the expression has the property. -/
def DerivativesHave (P : Expr R → Prop) (e : Expr R) : Prop :=
  ∀ x d, e.derivativeBy x = .ok d → P d

theorem inherited_operandBy {x : String} {always : Bool} {u : Expr R}
    {o : Derivative.Operand R} (hu : P u) (hd : u.DerivativesHave P)
    (h : u.operandBy x always = .ok o) : o.expr = u ∧ o.Has P := by
  unfold operandBy at h
  split at h
  · obtain ⟨d, hd', rfl⟩ := map_eq_ok_iff.1 h
    refine ⟨rfl, hu, fun d' he => ?_⟩
    rw [← Option.some.inj he]
    exact hd x d hd'
  · rw [← Except.ok.inj h]
    exact ⟨rfl, hu, nofun⟩

/-- The derivatives of the members of a list have the property. -/
theorem inherited_mapM_derivativeBy {x : String} {es ds : List (Expr R)}
    (hes : ∀ c ∈ es, c.DerivativesHave P) (h : es.mapM (derivativeBy x) = .ok ds) :
    ∀ d ∈ ds, P d := by
  intro d hd
  obtain ⟨c, hc, hcd⟩ := exists_mem_of_mapM_eq_ok h hd
  exact hes c hc x d hcd

variable [Inherited P]

theorem inherited_binaryBy {x : String} {op : BinaryOp} {u v d : Expr R}
    (huv : Derivative.operandOrder? op = some .both → P (.binary op u v)) (hu : P u) (hv : P v)
    (hu' : u.DerivativesHave P) (hv' : v.DerivativesHave P) (h : binaryBy x op u v = .ok d) :
    P d := by
  cases horder : Derivative.operandOrder? op with
  | none =>
    rw [binaryBy, horder] at h
    cases h
  | some order =>
    obtain ⟨a, b, ha, hb, rfl⟩ := (binaryBy_eq_ok_iff horder).1 h
    obtain ⟨hau, ha⟩ := inherited_operandBy hu hu' ha
    obtain ⟨hbv, hb⟩ := inherited_operandBy hv hv' hb
    refine Derivative.inherited_binaryRule horder (fun hboth => ?_) ha hb
    rw [hau, hbv]
    exact huv (hboth ▸ horder)

/-- The derivatives of an expression have the property if the expression has. -/
theorem inherited_derivativeBy {e : Expr R} (he : P e) : e.DerivativesHave P := by
  induction e using derivativeBy_induct with
  | step e ihc ihn =>
  intro x d h
  cases hkind : Derivative.hasDerivative e with
  | false =>
    rw [derivativeBy_of_hasDerivative_eq_false hkind] at h
    cases h
  | true =>
  cases hx : e.containsVar x with
  | false =>
    rw [derivativeBy_of_containsVar_eq_false hkind hx] at h
    rw [← Except.ok.inj h]
    exact Inherited.literal _
  | true =>
  have hchild : ∀ c ∈ e.children, P c := fun c hc => Inherited.child hkind he hc
  have hc : ∀ c ∈ e.children, c.DerivativesHave P := fun c hc => ihc c hc (hchild c hc)
  cases e with
  | var y =>
    obtain rfl : y = x := beq_iff_eq.1 hx
    rw [derivativeBy_var] at h
    rw [← Except.ok.inj h]
    exact Inherited.literal _
  | unary op u =>
    have hu : u ∈ [u] := List.mem_cons_self
    obtain ⟨du, hdu, hd⟩ := (derivativeBy_unary_eq_ok_iff hkind hx).1 h
    exact Derivative.inherited_chainRule? (hchild u hu) (hc u hu x du hdu) hd
  | binary op u v =>
    have hu : u ∈ [u, v] := List.mem_cons_self
    have hv : v ∈ [u, v] := List.mem_cons_of_mem u List.mem_cons_self
    rw [derivativeBy_binary hkind hx] at h
    exact inherited_binaryBy (fun _ => he) (hchild u hu) (hchild v hv) (hc u hu) (hc v hv) h
  | rational u v =>
    -- A fraction is differentiated as a quotient, and a quotient is no product of vectors.
    have hu : u ∈ [u, v] := List.mem_cons_self
    have hv : v ∈ [u, v] := List.mem_cons_of_mem u List.mem_cons_self
    rw [derivativeBy_rational hx] at h
    exact inherited_binaryBy (fun h => absurd h (by decide)) (hchild u hu) (hchild v hv)
      (hc u hu) (hc v hv) h
  | aggregate op args =>
    by_cases hop : op = .sum
    · subst hop
      rw [derivativeBy_sum hx] at h
      obtain ⟨ds, hds, rfl⟩ := map_eq_ok_iff.1 h
      exact Inherited.sum (mapM_eq_ok_iff.1 hds).length_eq he (inherited_mapM_derivativeBy hc hds)
    · rw [derivativeBy_aggregate hop hx] at h
      cases h
  | vector es =>
    rw [derivativeBy_vector hx] at h
    obtain ⟨ds, hds, rfl⟩ := map_eq_ok_iff.1 h
    exact Inherited.vector he (inherited_mapM_derivativeBy hc hds)
  | matrix rows =>
    rw [derivativeBy_matrix hx] at h
    obtain ⟨ds, hds, h⟩ := bind_eq_ok_iff.1 h
    obtain ⟨hfit, rfl⟩ := matrixOf_eq_ok_iff.1 (mapError_eq_ok_iff.1 h)
    exact Inherited.matrix hfit he (inherited_mapM_derivativeBy hc hds)
  | derivative u y =>
    -- The inner derivative is no part of the expression, but differentiation goes on with
    -- it, and so does the induction.
    rw [derivativeBy_derivative hx] at h
    obtain ⟨du, hdu, h⟩ := bind_eq_ok_iff.1 h
    exact ihn u y du rfl hdu (hc u List.mem_cons_self y du hdu) x d h
  | simplify u =>
    rw [derivativeBy_simplify hx] at h
    exact hc u List.mem_cons_self x d h
  | call f args =>
    rw [derivativeBy_call hx] at h
    cases h
  | number | truth | complex | quantity => cases hx
  | _ => cases hkind

end Inherited

end Expr

/-! ## Properties of all nodes -/

variable {p : Expr R → Prop}

namespace Derivative

open SymbolicAlgebra.Expr

/-- A property of nodes that the rules of differentiation pass on to what they write. -/
class RuleNode [Scalar R] (p : Expr R → Prop) : Prop where
  literal (v : R) : p (.number v)
  function {op : UnaryOp} {u : Expr R} : writesFunction op = true → p u → p (.unary op u)
  operation {op : BinaryOp} {l r : Expr R} :
    writesOperation op = true → p l → p r → p (.binary op l r)
  product {op : BinaryOp} {l r l' r' : Expr R} : operandOrder? op = some .both → p l → p r →
    p (.binary op l r) → p l' → p r' → p (.binary op l' r')
  sum {es ds : List (Expr R)} : es.length = ds.length → p (.aggregate .sum es) →
    (∀ d ∈ ds, p d) → p (.aggregate .sum ds)
  vector {es ds : List (Expr R)} : p (.vector es) → (∀ d ∈ ds, p d) → p (.vector ds)
  matrix {rows ds : List (Expr R)} : RowsFit ds → p (.matrix rows) → (∀ d ∈ ds, p d) →
    p (.matrix ds)

variable [Scalar R]

/-- Stable properties are passed on by the rules of differentiation. -/
instance [StableNode p] : RuleNode p where
  literal _ := StableNode.plain _ rfl
  function _ _ := StableNode.plain _ rfl
  operation _ _ _ := StableNode.plain _ rfl
  product _ _ _ _ _ _ := StableNode.plain _ rfl
  sum hlen h _ := StableNode.aggregate hlen h
  vector _ _ := StableNode.plain _ rfl
  matrix hfit _ _ := StableNode.matrix hfit

/-- What the rules pass on from node to node is inherited by all nodes. -/
instance [RuleNode p] : Inherited (Everywhere p) where
  literal v := everywhere_iff.2 ⟨RuleNode.literal v, nofun⟩
  function {op u} hop := by
    have hchildren : (∀ c ∈ (unary op u).children, c.Everywhere p) ↔ u.Everywhere p := by
      simp [children]
    rw [everywhere_iff, hchildren, and_iff_right_iff_imp]
    exact fun hu => RuleNode.function hop hu.here
  operation {op l r} hop := by
    have hchildren : (∀ c ∈ (binary op l r).children, c.Everywhere p) ↔
        l.Everywhere p ∧ r.Everywhere p := by
      simp [children]
    rw [everywhere_iff, hchildren, and_iff_right_iff_imp]
    exact fun h => RuleNode.operation hop h.1.here h.2.here
  product {op l r l' r'} hop h hl' hr' := by
    have hl : l.Everywhere p := h.child List.mem_cons_self
    have hr : r.Everywhere p := h.child (List.mem_cons_of_mem l List.mem_cons_self)
    refine everywhere_iff.2
      ⟨RuleNode.product hop hl.here hr.here h.here hl'.here hr'.here, ?_⟩
    simp [children, hl', hr']
  sum hlen h hds :=
    everywhere_iff.2 ⟨RuleNode.sum hlen h.here fun d hd => (hds d hd).here, hds⟩
  vector h hds := everywhere_iff.2 ⟨RuleNode.vector h.here fun d hd => (hds d hd).here, hds⟩
  matrix hfit h hds :=
    everywhere_iff.2 ⟨RuleNode.matrix hfit h.here fun d hd => (hds d hd).here, hds⟩
  child _ h hc := h.child hc

end Derivative

namespace Expr

open SymbolicAlgebra.Derivative (RuleNode)

variable [Scalar R]

/-- The derivatives of an expression have the property at every node if the expression
has. -/
theorem everywhere_derivativeBy [RuleNode p] {e : Expr R} (he : e.Everywhere p) :
    ∀ x d, e.derivativeBy x = .ok d → d.Everywhere p :=
  inherited_derivativeBy he

/-! ## Differentiation -/

/-- Differentiation keeps stable properties where there is nothing to expand. -/
theorem everywhere_differentiate {q : Expr R → Prop} [StableNode q] {users : FunctionTable R}
    {simplify : Bool} {e d : Expr R} {x : String} (he : e.Everywhere q)
    (hcalls : e.Everywhere (Unregistered users))
    (h : e.differentiate users simplify x = .ok d) : d.Everywhere q := by
  obtain ⟨d', hd', hd⟩ := exists_derivativeBy_of_differentiate hcalls h
  have heverywhere := everywhere_derivativeBy he x d' hd'
  split at hd
  · exact everywhere_simplified heverywhere hd
  · rw [← hd]
    exact heverywhere

end Expr

end SymbolicAlgebra
