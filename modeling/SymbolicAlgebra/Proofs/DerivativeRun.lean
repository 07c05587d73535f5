import SymbolicAlgebra.Derivative
import SymbolicAlgebra.Proofs.NodeProperty

set_option autoImplicit false

/-!
# What a run of differentiation goes through

Before differentiation calls are expanded, and where the table has no function for a call
nothing is. Differentiation then calls itself on the direct subexpressions of a node and, for
a nested derivative, on the inner derivative. A property of all derivatives is proved by
following these calls.

What this module delivers:

- `derivativeBy_induct`, induction along the calls of differentiation.
- `derivativeBy_unary` and its companions for the other nodes that contain the variable, and
  `binaryBy_eq_ok_iff`, the derivative of a node over two operands.
- `expandCalls_eq_self` and `eq_of_expandCalls`: expressions that have nothing to expand.
- `differentiate_eq_ok` and `exists_derivativeBy_of_differentiate`: what differentiation comes
  to.
-/

namespace SymbolicAlgebra

/-! ## The calls of differentiation -/

namespace Expr

variable {R : Type} [Scalar R]

omit [Scalar R] in
/-- A member of a list is nested no deeper than the list. -/
theorem nesting_le_nestingList {c : Expr R} {es : List (Expr R)} (h : c ∈ es) :
    c.nesting ≤ nestingList es := by
  induction es with
  | nil => cases h
  | cons e es ih =>
    rw [nestingList]
    rcases List.mem_cons.1 h with rfl | h
    · exact Nat.le_max_left _ _
    · exact Nat.le_trans (ih h) (Nat.le_max_right _ _)

omit [Scalar R] in
/-- A direct subexpression is nested no deeper than the node. -/
theorem nesting_le_of_mem_children {c e : Expr R} (h : c ∈ e.children) :
    c.nesting ≤ e.nesting := by
  refine Nat.le_trans (nesting_le_nestingList h) ?_
  cases e <;> simp only [children, nestingList, nesting] <;> omega

/-- Induction along the calls of differentiation: what holds of an expression whenever it
holds of the direct subexpressions and, for a nested derivative, of the inner derivative
holds of every expression. -/
theorem derivativeBy_induct {motive : Expr R → Prop}
    (step : ∀ e : Expr R, (∀ c ∈ e.children, motive c) →
      (∀ u y du, e = .derivative u y → u.derivativeBy y = .ok du → motive du) → motive e)
    (e : Expr R) : motive e := by
  -- By nesting, then by size: the inner derivative may be large, but it is nested less.
  have hnesting : ∀ n, ∀ e : Expr R, e.nesting < n → motive e := by
    intro n
    induction n with
    | zero =>
      intro e he
      exact absurd he (Nat.not_lt_zero _)
    | succ n ihn =>
      intro e he
      induction e using Expr.induction with
      | step e ihe =>
        apply step e
        · intro c hc
          exact ihe c hc (Nat.lt_of_le_of_lt (nesting_le_of_mem_children hc) he)
        · intro u y du heq hdu
          apply ihn
          have hle := nesting_derivativeBy_le hdu
          rw [heq, nesting] at he
          omega
  exact hnesting (e.nesting + 1) e (Nat.lt_succ_self _)

/-- The variable itself is taken with the derivative one. -/
theorem operandBy_var (x : String) (always : Bool) :
    (Expr.var x : Expr R).operandBy x always = .ok ⟨.var x, some .one⟩ := by
  rw [operandBy, if_pos (by simp [containsVar]), derivativeBy_var]
  rfl

/-- An operand that depends on the variable is taken with its derivative. -/
theorem operandBy_dependent {x : String} {u : Expr R} (hu : u.containsVar x = true) :
    u.operandBy x false = (u.derivativeBy x).map fun d => ⟨u, some d⟩ := by
  rw [operandBy, hu]
  rfl

/-- An operand that does not depend on the variable is taken without a derivative. -/
theorem operandBy_constant {x : String} {u : Expr R} (hu : u.containsVar x = false) :
    u.operandBy x false = .ok ⟨u, none⟩ := by
  rw [operandBy, hu]
  rfl

/-- An operand that contains the variable is taken with its derivative. -/
theorem operandBy_of_containsVar {x : String} {u d : Expr R} (hx : u.containsVar x = true)
    (hd : u.derivativeBy x = .ok d) : u.operandBy x false = .ok ⟨u, some d⟩ := by
  rw [operandBy_dependent hx, hd]
  rfl

/-! ## Nodes that contain the variable -/

section Nodes

variable {x : String} {op : UnaryOp} {u v : Expr R} {es : List (Expr R)}

/-- A function is differentiated by the chain rule. -/
theorem derivativeBy_unary (hd : Derivative.hasDerivative (.unary op u) = true)
    (hx : (Expr.unary op u).containsVar x = true) :
    (Expr.unary op u).derivativeBy x = u.derivativeBy x >>= fun du =>
      match Derivative.chainRule? op u du with
      | none => .error (.notDifferentiable (Expr.unary op u).text)
      | some d => .ok d := by
  rw [derivativeBy_eq]
  exact (if_neg (by simp [hd])).trans (if_neg (by simp [hx]))

/-- A function has a derivative where its operand has one and there is a rule for it. -/
theorem derivativeBy_unary_eq_ok_iff {d : Expr R}
    (hd : Derivative.hasDerivative (.unary op u) = true)
    (hx : (Expr.unary op u).containsVar x = true) : (Expr.unary op u).derivativeBy x = .ok d ↔
      ∃ du, u.derivativeBy x = .ok du ∧ Derivative.chainRule? op u du = some d := by
  rw [derivativeBy_unary hd hx, bind_eq_ok_iff]
  refine exists_congr fun du => and_congr_right fun _ => ?_
  cases Derivative.chainRule? op u du with
  | none => exact iff_of_false nofun nofun
  | some d' =>
    exact ⟨fun h => congrArg some (Except.ok.inj h), fun h => congrArg _ (Option.some.inj h)⟩

/-- An operation of a kind that may have a derivative is differentiated by its rule. -/
theorem derivativeBy_binary {op : BinaryOp}
    (hd : Derivative.hasDerivative (.binary op u v) = true)
    (hx : (Expr.binary op u v).containsVar x = true) :
    (Expr.binary op u v).derivativeBy x = binaryBy x op u v := by
  rw [derivativeBy_eq, derivativeOfNode, if_neg (by simp [hd]), if_neg (by simp [hx])]

/-- A fraction is differentiated as a quotient. -/
theorem derivativeBy_rational (hx : (Expr.rational u v).containsVar x = true) :
    (Expr.rational u v).derivativeBy x = binaryBy x .div u v := by
  rw [derivativeBy_eq, derivativeOfNode, if_neg (by simp [Derivative.hasDerivative]),
    if_neg (by simp [hx])]

/-- A sum of a list is differentiated member by member. -/
theorem derivativeBy_sum (hx : (Expr.aggregate .sum es).containsVar x = true) :
    (Expr.aggregate .sum es).derivativeBy x =
      (es.mapM (derivativeBy x)).map (Expr.aggregate .sum) := by
  rw [derivativeBy_eq, derivativeOfNode, if_neg (by simp [Derivative.hasDerivative]),
    if_neg (by simp [hx])]

/-- No aggregate but the sum has a rule. -/
theorem derivativeBy_aggregate {op : Aggregate} (hop : op ≠ .sum)
    (hx : (Expr.aggregate op es).containsVar x = true) :
    (Expr.aggregate op es).derivativeBy x =
      .error (.notDifferentiable (Expr.aggregate op es).text) := by
  rw [derivativeBy_eq]
  unfold derivativeOfNode
  rw [if_neg (by simp [Derivative.hasDerivative]), if_neg (by simp [hx])]
  cases op with
  | sum => exact absurd rfl hop
  | _ => rfl

/-- A call that has not been expanded has no rule. -/
theorem derivativeBy_call {f : String} (hx : (Expr.call f es).containsVar x = true) :
    (Expr.call f es).derivativeBy x = .error (.notDifferentiable (Expr.call f es).text) := by
  rw [derivativeBy_eq]
  unfold derivativeOfNode
  rw [if_neg (by simp [Derivative.hasDerivative]), if_neg (by simp [hx])]

/-- A vector is differentiated element by element. -/
theorem derivativeBy_vector (hx : (Expr.vector es).containsVar x = true) :
    (Expr.vector es).derivativeBy x = (es.mapM (derivativeBy x)).map Expr.vector := by
  rw [derivativeBy_eq, derivativeOfNode, if_neg (by simp [Derivative.hasDerivative]),
    if_neg (by simp [hx])]

/-- A matrix is differentiated row by row, and its shape is checked again. -/
theorem derivativeBy_matrix (hx : (Expr.matrix es).containsVar x = true) :
    (Expr.matrix es).derivativeBy x =
      es.mapM (derivativeBy x) >>= fun ds => (matrixOf ds).mapError .shape := by
  rw [derivativeBy_eq, derivativeOfNode, if_neg (by simp [Derivative.hasDerivative]),
    if_neg (by simp [hx])]

/-- Of a derivative, the inner derivative is taken first, by its own variable. -/
theorem derivativeBy_derivative {y : String}
    (hx : (Expr.derivative u y).containsVar x = true) :
    (Expr.derivative u y).derivativeBy x = u.derivativeBy y >>= derivativeBy x := by
  rw [derivativeBy_eq, derivativeOfNode, if_neg (by simp [Derivative.hasDerivative]),
    if_neg (by simp [hx])]

/-- A request to simplify has no part in the derivative. -/
theorem derivativeBy_simplify (hx : (Expr.simplify u).containsVar x = true) :
    (Expr.simplify u).derivativeBy x = u.derivativeBy x := by
  rw [derivativeBy_eq, derivativeOfNode, if_neg (by simp [Derivative.hasDerivative]),
    if_neg (by simp [hx])]

end Nodes

/-! ## Operations on two operands -/

/-- Both operands are taken, in the order of the operation, and its rule is applied to
them. -/
theorem binaryBy_eq_ok_iff {x : String} {op : BinaryOp} {order : Derivative.OperandOrder}
    {u v d : Expr R} (hop : Derivative.operandOrder? op = some order) :
    binaryBy x op u v = .ok d ↔ ∃ a b, u.operandBy x (order = .both) = .ok a ∧
      v.operandBy x (order = .both) = .ok b ∧ Derivative.binaryRule op a b = d := by
  unfold binaryBy
  rw [hop]
  constructor
  · intro h
    cases order with
    | rightFirst =>
      obtain ⟨b, hb, h⟩ := bind_eq_ok_iff.1 h
      obtain ⟨a, ha, h⟩ := bind_eq_ok_iff.1 h
      exact ⟨a, b, ha, hb, Except.ok.inj h⟩
    | _ =>
      obtain ⟨a, ha, h⟩ := bind_eq_ok_iff.1 h
      obtain ⟨b, hb, h⟩ := bind_eq_ok_iff.1 h
      exact ⟨a, b, ha, hb, Except.ok.inj h⟩
  · rintro ⟨a, b, ha, hb, rfl⟩
    cases order with
    | rightFirst => exact bind_eq_ok_iff.2 ⟨b, hb, bind_eq_ok_iff.2 ⟨a, ha, rfl⟩⟩
    | _ => exact bind_eq_ok_iff.2 ⟨a, ha, bind_eq_ok_iff.2 ⟨b, hb, rfl⟩⟩

/-- The rule of an operation that is no product of vectors leaves out the derivatives of
operands without the variable. -/
theorem binaryBy_eq_ok {x : String} {op : BinaryOp} {order : Derivative.OperandOrder}
    {u v : Expr R} {a b : Derivative.Operand R} (hop : Derivative.operandOrder? op = some order)
    (horder : order ≠ .both) (ha : u.operandBy x false = .ok a)
    (hb : v.operandBy x false = .ok b) :
    binaryBy x op u v = .ok (Derivative.binaryRule op a b) := by
  rw [← decide_eq_false horder] at ha hb
  exact (binaryBy_eq_ok_iff hop).2 ⟨a, b, ha, hb, rfl⟩

/-! ## Expansion and differentiation -/

/-- A node whose direct subexpressions are left alone by expansion is left alone. -/
theorem expandCalls_eq_self {users : FunctionTable R} {left : Nat} {e : Expr R}
    (hkind : e.isCallOrDefinition = false) (hmatrix : e.isMatrix = false)
    (ih : ∀ c ∈ e.children, c.expandCalls users left = .ok c) :
    e.expandCalls users left = .ok e := by
  rw [expandCalls_eq_mapChildren hkind]
  refine mapChildren_eq_ok_iff.2 ⟨e.children, List.forall₂_same.2 ih, ?_⟩
  rw [rebuild, hmatrix, withChildren_children]
  rfl

omit [Scalar R] in
/-- No function of the table has the name and the number of arguments of a call. -/
def Unregistered (users : FunctionTable R) : Expr R → Prop
  | .call f args => users.find? f args.length = none
  | _ => True

/-- Where the table has no function for any call, expansion changes nothing. -/
theorem eq_of_expandCalls {users : FunctionTable R} {left : Nat} {e s : Expr R}
    (he : e.Everywhere (Unregistered users)) (h : e.expandCalls users left = .ok s) :
    s = e := by
  induction e using Expr.induction generalizing s with
  | step e ih =>
    cases hkind : e.isCallOrDefinition with
    | false =>
      rw [expandCalls_eq_mapChildren hkind] at h
      obtain ⟨cs, hcs, hn⟩ := mapChildren_eq_ok_iff.1 h
      have hsame : List.Forall₂ (· = ·) e.children cs :=
        forall₂_imp_of_mem hcs fun c hc c' hc' => (ih c hc (he.child hc) hc').symm
      rw [List.forall₂_eq_eq_eq] at hsame
      rw [eq_withChildren_of_rebuild hn, ← hsame, withChildren_children]
    | true =>
      cases e <;> simp only [isCallOrDefinition, Bool.false_eq_true] at hkind
      case call f args =>
        have hnone : users.find? f args.length = none := he.here
        cases left with
        | zero =>
          rw [expandCalls] at h
          cases h
        | succ n =>
          rw [expandCalls_call, hnone] at h
          cases h
      all_goals
        rw [expandCalls] at h
        exact (Except.ok.inj h).symm

/-- Differentiation, from the expansion of the calls and from the derivative of what they
expand to. -/
theorem differentiate_eq_ok {users : FunctionTable R} {e e' d : Expr R} {x : String}
    (hx : x ≠ "") (he : e.expandCalls users maxBodies = .ok e')
    (hd : e'.derivativeBy x = .ok d) : e.differentiate users false x = .ok d := by
  rw [differentiate, if_neg hx, he]
  change e'.derivativeBy x >>= pure = _
  rw [hd]
  rfl

/-- What differentiation does where there is nothing to expand. -/
theorem exists_derivativeBy_of_differentiate {users : FunctionTable R} {simplify : Bool}
    {e d : Expr R} {x : String} (he : e.Everywhere (Unregistered users))
    (h : e.differentiate users simplify x = .ok d) :
    ∃ d', e.derivativeBy x = .ok d' ∧
      if simplify then d'.simplified = .ok d else d' = d := by
  unfold differentiate at h
  split at h
  · cases h
  · obtain ⟨expanded, hexpanded, h⟩ := bind_eq_ok_iff.1 h
    obtain ⟨d', hd', h⟩ := bind_eq_ok_iff.1 h
    rw [eq_of_expandCalls he hexpanded] at hd'
    refine ⟨d', hd', ?_⟩
    split at h
    · rw [if_pos ‹_›]
      exact mapError_eq_ok_iff.1 h
    · rw [if_neg ‹_›]
      exact Except.ok.inj h

end Expr

end SymbolicAlgebra
