import SymbolicAlgebra.Proofs.Position
import SymbolicAlgebra.Proofs.WellFormed

set_option autoImplicit false

/-!
# The nodes that a derivative depends on

Nodes of some kinds have no derivative, not even where they are constant: truth values,
relations, definitions, loops. Differentiation meets such a node only if it comes to differentiate
it. It does not look at the operands of a node without the variable, and of a sum, a product, a
quotient, a power, a root or a logarithm it does not look at an operand without the variable, so
that a refused node there goes unnoticed. It does look at every element of a vector, every row of
a matrix, every member of a sum of a list and both factors of a product of vectors.

`Expr.Demands` relates an expression to the nodes whose derivatives its derivative demands. A
derivative exists exactly if none of the nodes that it demands stands in its way
(`Expr.exists_derivativeBy_iff_demands`). No node that contains the variable goes unnoticed, unless
it stands in a derivative by another variable (`Expr.hasDerivative_of_containsVar`); one without
the variable may (`not_differentiate_refused`).
-/

namespace SymbolicAlgebra

variable {R : Type} [Scalar R]

namespace Expr

variable {x : String}

/-! ## Nodes that are demanded -/

/-- The direct subexpressions of a node with the variable whose derivatives by this variable are
put together to the derivative of the node. The inner expression of a derivative is not among
them: it is differentiated by another variable. -/
def differentiatedOperands (x : String) : Expr R → List (Expr R)
  | .unary _ u | .simplify u => [u]
  | .binary op u v =>
    match Derivative.operandOrder? op with
    | none => []
    | some order => [u, v].filter fun c => order = .both || c.containsVar x
  | .rational u v => [u, v].filter (containsVar x)
  | .aggregate .sum es | .vector es | .matrix es => es
  | _ => []

/-- The derivative of an expression by a variable demands the derivative of a node by a variable:
of the expression itself, of what the derivatives of its operands demand, and for a derivative
of what the inner derivative and its derivative demand. -/
inductive Demands : String → Expr R → String → Expr R → Prop where
  | self (x : String) (e : Expr R) : Demands x e x e
  | operand {x y : String} {e c n : Expr R} (he : Derivative.hasDerivative e = true)
      (hx : e.containsVar x = true) (hc : c ∈ e.differentiatedOperands x)
      (h : Demands x c y n) : Demands x e y n
  | inner {x y z : String} {u n : Expr R} (hx : u.containsVar x = true)
      (h : Demands z u y n) : Demands x (.derivative u z) y n
  | outer {x y z : String} {u du n : Expr R} (hx : u.containsVar x = true)
      (hu : u.derivativeBy z = .ok du) (h : Demands x du y n) :
      Demands x (.derivative u z) y n

/-- Whether there is a rule for nodes of this kind that contain the variable. -/
def hasRule : Expr R → Bool
  | .unary op _ => (Derivative.chainRule? op (.zero : Expr R) .zero).isSome
  | .binary op _ _ => (Derivative.operandOrder? op).isSome
  | .aggregate op _ => op = .sum
  | .call _ _ => false
  | _ => true

/-- A node stands in the way of its derivative: it is of a kind that has none, or it contains
the variable and there is no rule for it, or the derivatives of its rows form no matrix. -/
inductive Obstructed (x : String) (e : Expr R) : Prop where
  | refused (h : Derivative.hasDerivative e = false)
  | noRule (hx : e.containsVar x = true) (h : e.hasRule = false)
  | misfit {rows ds : List (Expr R)} (hx : e.containsVar x = true) (he : e = .matrix rows)
      (hds : rows.mapM (derivativeBy x) = .ok ds) (h : ¬ RowsFit ds)

/-! ## One node -/

/-- Whether a function has a derivative does not depend on its operand. -/
theorem isSome_chainRule? (op : UnaryOp) (u du : Expr R) :
    (Derivative.chainRule? op u du).isSome = (Expr.unary op u).hasRule := by
  cases op <;> rfl

/-- An operand can be taken exactly if its derivative exists where it is needed. -/
theorem exists_operandBy_iff {always : Bool} {u : Expr R} :
    (∃ o, u.operandBy x always = .ok o) ↔
      ((always || u.containsVar x) = true → ∃ d, u.derivativeBy x = .ok d) := by
  unfold operandBy
  split
  · rename_i hx
    simp only [map_eq_ok_iff]
    constructor
    · rintro ⟨o, d, hd, -⟩ _
      exact ⟨d, hd⟩
    · intro h
      obtain ⟨d, hd⟩ := h hx
      exact ⟨_, d, hd, rfl⟩
  · rename_i hx
    exact iff_of_true ⟨_, rfl⟩ fun h => absurd h hx

/-- The derivative of an operation exists exactly if there is a rule for it and the derivatives
of the operands that the rule needs exist. -/
theorem exists_binaryBy_iff {op : BinaryOp} {u v : Expr R} :
    (∃ d, binaryBy x op u v = .ok d) ↔ (Derivative.operandOrder? op).isSome = true ∧
      ∀ c ∈ (Expr.binary op u v).differentiatedOperands x, ∃ d, c.derivativeBy x = .ok d := by
  cases hop : Derivative.operandOrder? op with
  | none =>
    have hnone : binaryBy x op u v =
        .error (.notDifferentiable (Expr.binary op u v).text) := by
      rw [binaryBy, hop]
    rw [hnone]
    simp
  | some order =>
    have hoperands : (∀ c ∈ (Expr.binary op u v).differentiatedOperands x,
        ∃ d, c.derivativeBy x = .ok d) ↔ (∃ a, u.operandBy x (order = .both) = .ok a) ∧
          ∃ b, v.operandBy x (order = .both) = .ok b := by
      rw [exists_operandBy_iff, exists_operandBy_iff, differentiatedOperands, hop]
      simp only [List.mem_filter, List.mem_cons, List.not_mem_nil, or_false, and_imp,
        forall_eq_or_imp, forall_eq]
    simp only [binaryBy_eq_ok_iff hop, hoperands, Option.isSome_some, true_and]
    constructor
    · rintro ⟨d, a, b, ha, hb, -⟩
      exact ⟨⟨a, ha⟩, ⟨b, hb⟩⟩
    · rintro ⟨⟨a, ha⟩, ⟨b, hb⟩⟩
      exact ⟨_, a, b, ha, hb, rfl⟩

/-- The list of the derivatives exists exactly if every member has a derivative. -/
theorem exists_mapM_derivativeBy_iff {es : List (Expr R)} :
    (∃ ds, es.mapM (derivativeBy x) = .ok ds) ↔ ∀ c ∈ es, ∃ d, c.derivativeBy x = .ok d := by
  constructor
  · rintro ⟨ds, hds⟩ c hc
    exact exists_eq_ok_of_mapM_eq_ok hds hc
  · intro h
    cases hm : es.mapM (derivativeBy x) with
    | ok ds => exact ⟨ds, rfl⟩
    | error m =>
      obtain ⟨c, hc, hcm⟩ := exists_mem_of_mapM_eq_error hm
      obtain ⟨d, hd⟩ := h c hc
      rw [hcm] at hd
      cases hd

/-- A node that contains the variable, and is no matrix, stands in the way of its derivative
exactly if its kind is refused or without a rule. -/
theorem not_obstructed_iff {e : Expr R} (hx : e.containsVar x = true)
    (hm : e.isMatrix = false) :
    ¬ Obstructed x e ↔ Derivative.hasDerivative e = true ∧ e.hasRule = true := by
  constructor
  · intro h
    refine ⟨?_, ?_⟩ <;> rw [← Bool.not_eq_false]
    · exact fun hd => h (.refused hd)
    · exact fun hr => h (.noRule hx hr)
  · rintro ⟨hd, hr⟩ h
    cases h with
    | refused hd' => rw [hd] at hd'; cases hd'
    | noRule _ hr' => rw [hr] at hr'; cases hr'
    | misfit _ he _ _ => rw [he] at hm; cases hm

/-- The rows of a matrix that contains the variable stand in the way of its derivative exactly
if they have derivatives that form no matrix. -/
theorem obstructed_matrix_iff {rows : List (Expr R)} (hx : (matrix rows).containsVar x = true) :
    Obstructed x (matrix rows) ↔
      ∃ ds, rows.mapM (derivativeBy x) = .ok ds ∧ ¬ RowsFit ds := by
  constructor
  · intro h
    cases h with
    | refused hd => cases hd
    | noRule _ hr => cases hr
    | misfit _ he hds hfit =>
      obtain rfl := matrix.inj he
      exact ⟨_, hds, hfit⟩
  · rintro ⟨ds, hds, hfit⟩
    exact .misfit hx rfl hds hfit

/-- Of a node that contains the variable, and is no derivative, the derivative exists exactly if
the derivatives of the operands do and the node does not stand in its way. -/
theorem exists_derivativeBy_iff {e : Expr R} (hx : e.containsVar x = true)
    (hn : ∀ u y, e ≠ .derivative u y) :
    (∃ d, e.derivativeBy x = .ok d) ↔
      ¬ Obstructed x e ∧ ∀ c ∈ e.differentiatedOperands x, ∃ d, c.derivativeBy x = .ok d := by
  by_cases hd : Derivative.hasDerivative e = true
  swap
  · -- A node of a refused kind fails at once.
    rw [Bool.not_eq_true] at hd
    rw [derivativeBy_of_hasDerivative_eq_false hd]
    refine iff_of_false (by simp) fun h => h.1 (.refused hd)
  cases e with
  | matrix rows =>
    rw [derivativeBy_matrix hx, obstructed_matrix_iff hx, differentiatedOperands,
      ← exists_mapM_derivativeBy_iff]
    simp only [bind_eq_ok_iff, mapError_eq_ok_iff, matrixOf_eq_ok_iff, not_exists, not_and,
      not_not]
    constructor
    · rintro ⟨d, ds, hds, hfit, -⟩
      refine ⟨fun ds' hds' => ?_, ds, hds⟩
      rw [← Except.ok.inj (hds.symm.trans hds')]
      exact hfit
    · rintro ⟨hfit, ds, hds⟩
      exact ⟨_, ds, hds, hfit ds hds, rfl⟩
  | derivative u y => exact absurd rfl (hn u y)
  | var y =>
    obtain rfl : y = x := beq_iff_eq.1 hx
    rw [derivativeBy_var, not_obstructed_iff hx rfl]
    simp [Derivative.hasDerivative, hasRule, differentiatedOperands]
  | unary op u =>
    rw [not_obstructed_iff hx rfl, and_iff_right hd, differentiatedOperands]
    simp only [derivativeBy_unary_eq_ok_iff hd hx, List.mem_singleton, forall_eq]
    constructor
    · rintro ⟨d, du, hdu, hc⟩
      refine ⟨?_, du, hdu⟩
      rw [← isSome_chainRule? op u du, hc]
      rfl
    · rintro ⟨hr, du, hdu⟩
      rw [← isSome_chainRule? op u du] at hr
      obtain ⟨d, hc⟩ := Option.isSome_iff_exists.1 hr
      exact ⟨d, du, hdu, hc⟩
  | binary op u v =>
    rw [derivativeBy_binary hd hx, exists_binaryBy_iff, not_obstructed_iff hx rfl,
      and_iff_right hd, hasRule]
  | rational u v =>
    rw [derivativeBy_rational hx, exists_binaryBy_iff, not_obstructed_iff hx rfl,
      and_iff_right hd]
    exact Iff.rfl
  | aggregate op es =>
    rw [not_obstructed_iff hx rfl, and_iff_right hd]
    by_cases hop : op = .sum
    · subst hop
      rw [derivativeBy_sum hx, differentiatedOperands, ← exists_mapM_derivativeBy_iff]
      simp [map_eq_ok_iff, hasRule]
    · rw [derivativeBy_aggregate hop hx]
      simp [hasRule, hop]
  | vector es =>
    rw [derivativeBy_vector hx, not_obstructed_iff hx rfl, and_iff_right hd,
      differentiatedOperands, ← exists_mapM_derivativeBy_iff]
    simp [map_eq_ok_iff, hasRule]
  | simplify u =>
    rw [derivativeBy_simplify hx, not_obstructed_iff hx rfl, and_iff_right hd,
      differentiatedOperands]
    simp [hasRule]
  | call f args =>
    rw [derivativeBy_call hx, not_obstructed_iff hx rfl]
    simp [hasRule]
  | number | truth | complex | quantity => cases hx
  | _ => cases hd

/-- Of a derivative that contains the variable, the derivative exists exactly if the inner
derivative has one. -/
theorem exists_derivativeBy_derivative_iff {u : Expr R} {z : String}
    (hx : u.containsVar x = true) :
    (∃ d, (Expr.derivative u z).derivativeBy x = .ok d) ↔
      ∃ du, u.derivativeBy z = .ok du ∧ ∃ d, du.derivativeBy x = .ok d := by
  rw [derivativeBy_derivative hx]
  simp only [bind_eq_ok_iff]
  constructor
  · rintro ⟨d, du, hdu, hd⟩
    exact ⟨du, hdu, d, hd⟩
  · rintro ⟨du, hdu, d, hd⟩
    exact ⟨d, du, hdu, hd⟩

/-- A derivative that contains the variable never stands in the way itself. -/
theorem not_obstructed_derivative {u : Expr R} {z : String} :
    ¬ Obstructed x (Expr.derivative u z) := by
  intro h
  cases h with
  | refused hd => cases hd
  | noRule _ hr => cases hr
  | misfit _ he _ _ => cases he

/-! ## Whole expressions -/

omit [Scalar R] in
/-- The operands whose derivatives are put together are direct subexpressions. -/
theorem mem_children_of_differentiatedOperands {c e : Expr R}
    (h : c ∈ e.differentiatedOperands x) : c ∈ e.children := by
  unfold differentiatedOperands at h
  split at h
  case h_3 op u v =>
    split at h
    · cases h
    · exact List.mem_of_mem_filter h
  case h_4 u v => exact List.mem_of_mem_filter h
  case h_8 => cases h
  all_goals exact h

/-- A node without the variable demands only itself, and stands in its own way only if it is of
a refused kind. -/
theorem not_obstructed_of_demands_constant {e n : Expr R} {y : String}
    (hd : Derivative.hasDerivative e = true) (hx : e.containsVar x = false)
    (h : Demands x e y n) : ¬ Obstructed y n := by
  have hne : ¬ e.containsVar x = true := by simp [hx]
  cases h with
  | self =>
    intro h
    cases h with
    | refused hd' => rw [hd] at hd'; cases hd'
    | noRule hx' _ => exact hne hx'
    | misfit hx' _ _ _ => exact hne hx'
  | operand _ hx' _ _ => exact absurd hx' hne
  | inner hx' _ => exact absurd hx' hne
  | outer hx' _ _ => exact absurd hx' hne

/-- A derivative exists exactly if no node that it demands stands in its way. The proof follows
the calls of differentiation: a node demands itself and what the differentiated operands
demand. -/
theorem exists_derivativeBy_iff_demands {e : Expr R} {x : String} :
    (∃ d, e.derivativeBy x = .ok d) ↔ ∀ y n, Demands x e y n → ¬ Obstructed y n := by
  induction e using derivativeBy_induct generalizing x with
  | step e ihchild ihinner =>
  by_cases hd : Derivative.hasDerivative e = true
  swap
  · rw [Bool.not_eq_true] at hd
    rw [derivativeBy_of_hasDerivative_eq_false hd]
    exact iff_of_false (by simp) fun h => h x e (.self x e) (.refused hd)
  by_cases hx : e.containsVar x = true
  swap
  · rw [Bool.not_eq_true] at hx
    exact iff_of_true ⟨_, derivativeBy_of_containsVar_eq_false hd hx⟩ fun y n h =>
      not_obstructed_of_demands_constant hd hx h
  by_cases hn : ∃ u z, e = .derivative u z
  · -- A derivative: first the inner one, by its own variable, then the derivative of that.
    obtain ⟨u, z, rfl⟩ := hn
    have hu : u.containsVar x = true := hx
    have hmem : u ∈ (Expr.derivative u z).children := List.mem_singleton_self u
    rw [exists_derivativeBy_derivative_iff hu]
    constructor
    · rintro ⟨du, hdu, hddu⟩ y n h
      cases h with
      | self => exact not_obstructed_derivative
      | operand _ _ hc _ => cases hc
      | inner _ h => exact (ihchild u hmem).1 ⟨du, hdu⟩ y n h
      | outer _ hdu' h =>
        rw [← Except.ok.inj (hdu.symm.trans hdu')] at h
        exact (ihinner u z du rfl hdu).1 hddu y n h
    · intro H
      obtain ⟨du, hdu⟩ := (ihchild u hmem).2 fun y n h => H y n (.inner hu h)
      exact ⟨du, hdu, (ihinner u z du rfl hdu).2 fun y n h => H y n (.outer hu hdu h)⟩
  · have hn' : ∀ u z, e ≠ .derivative u z := fun u z he => hn ⟨u, z, he⟩
    rw [exists_derivativeBy_iff hx hn']
    constructor
    · rintro ⟨hself, hoperands⟩ y n h
      cases h with
      | self => exact hself
      | operand _ _ hc h =>
        exact (ihchild _ (mem_children_of_differentiatedOperands hc)).1 (hoperands _ hc) y n h
      | inner _ _ => exact absurd rfl (hn' _ _)
      | outer _ _ _ => exact absurd rfl (hn' _ _)
    · intro H
      refine ⟨H x e (.self x e), fun c hc => ?_⟩
      exact (ihchild c (mem_children_of_differentiatedOperands hc)).2 fun y n h =>
        H y n (.operand hd hx hc h)

/-! ## Nodes that contain the variable -/

/-- A direct subexpression that contains the variable is differentiated, if there is a rule for
the node and the node is no derivative. -/
theorem mem_differentiatedOperands {c e : Expr R} (hd : Derivative.hasDerivative e = true)
    (hrule : e.hasRule = true) (hn : ∀ u z, e ≠ .derivative u z) (hc : c ∈ e.children)
    (hx : c.containsVar x = true) : c ∈ e.differentiatedOperands x := by
  cases e with
  | binary op u v =>
    rw [hasRule] at hrule
    obtain ⟨order, hop⟩ := Option.isSome_iff_exists.1 hrule
    rw [differentiatedOperands, hop]
    exact List.mem_filter.2 ⟨hc, by simp [hx]⟩
  | rational u v => exact List.mem_filter.2 ⟨hc, hx⟩
  | aggregate op es =>
    obtain rfl : op = .sum := by simpa [hasRule] using hrule
    exact hc
  | unary | vector | matrix | simplify => exact hc
  | derivative u z => exact absurd rfl (hn u z)
  | call => cases hrule
  | number | complex | quantity | var => cases hc
  | _ => cases hd

omit [Scalar R] in
/-- A node contains the variables of its direct subexpressions. -/
theorem containsVar_of_child {c e : Expr R} (hc : c ∈ e.children)
    (hx : c.containsVar x = true) : e.containsVar x = true := by
  have hvar : e.isVar = false := by
    cases e with
    | var y => cases hc
    | _ => rfl
  rw [containsVar_eq_any hvar]
  exact List.any_eq_true.2 ⟨c, hc, hx⟩

omit [Scalar R] in
/-- An expression contains the variables of its subexpressions. -/
theorem containsVar_of_subexprAt? {e n : Expr R} {p : List Nat} (hp : e.subexprAt? p = some n)
    (hx : n.containsVar x = true) : e.containsVar x = true := by
  induction p generalizing e with
  | nil =>
    rw [Option.some.inj hp]
    exact hx
  | cons i p ih =>
    obtain ⟨c, hc, hp⟩ := subexprAt?_cons_eq_some_iff.1 hp
    exact containsVar_of_child (List.mem_of_getElem? hc) (ih hp)

/-- Every derivative that stands in the expression is taken by the variable. -/
def DerivativesBy (x : String) (e : Expr R) : Prop :=
  e.Everywhere fun c => ∀ u z, c = .derivative u z → z = x

/-- A direct subexpression that contains the variable has a derivative if the node has one. -/
theorem exists_derivativeBy_child {c e : Expr R} (he : e.DerivativesBy x)
    (hd : ∃ d, e.derivativeBy x = .ok d) (hc : c ∈ e.children) (hx : c.containsVar x = true) :
    ∃ d, c.derivativeBy x = .ok d := by
  by_cases hn : ∃ u z, e = .derivative u z
  · obtain ⟨u, z, rfl⟩ := hn
    obtain rfl := he.here u z rfl
    obtain rfl := List.mem_singleton.1 hc
    obtain ⟨du, hdu, -⟩ := (exists_derivativeBy_derivative_iff hx).1 hd
    exact ⟨du, hdu⟩
  · have hn' : ∀ u z, e ≠ .derivative u z := fun u z he => hn ⟨u, z, he⟩
    obtain ⟨hself, hoperands⟩ := (exists_derivativeBy_iff (containsVar_of_child hc hx) hn').1 hd
    refine hoperands c (mem_differentiatedOperands ?_ ?_ hn' hc hx) <;> rw [← Bool.not_eq_false]
    · exact fun h => hself (.refused h)
    · exact fun h => hself (.noRule (containsVar_of_child hc hx) h)

/-- Where only derivatives by the variable stand in an expression that has a derivative, no node
that contains the variable is of a refused kind. -/
theorem hasDerivative_of_containsVar {e n : Expr R} {p : List Nat} (he : e.DerivativesBy x)
    (hd : ∃ d, e.derivativeBy x = .ok d) (hp : e.subexprAt? p = some n)
    (hx : n.containsVar x = true) : Derivative.hasDerivative n = true := by
  induction p generalizing e with
  | nil =>
    obtain rfl := Option.some.inj hp
    rw [← Bool.not_eq_false]
    intro hn
    obtain ⟨d, hd⟩ := hd
    rw [derivativeBy_of_hasDerivative_eq_false hn] at hd
    cases hd
  | cons i p ih =>
    obtain ⟨c, hc, hp⟩ := subexprAt?_cons_eq_some_iff.1 hp
    have hmem : c ∈ e.children := List.mem_of_getElem? hc
    exact ih (he.child hmem)
      (exists_derivativeBy_child he hd hmem (containsVar_of_subexprAt? hp hx)) hp

/-! ## Differentiation -/

/-- The rows of every matrix in the expression fit, as building the matrix has checked. -/
def MatricesFit (e : Expr R) : Prop :=
  e.Everywhere fun c => ∀ rows, c = .matrix rows → RowsFit rows

/-- In an expression without calls there is nothing to expand. -/
theorem expandCalls_of_callFree {users : FunctionTable R} {left : Nat} {e : Expr R}
    (hcalls : e.CallFree) (hrows : e.MatricesFit) : e.expandCalls users left = .ok e := by
  induction e using Expr.induction with
  | step e ih =>
    cases hkind : e.isCallOrDefinition with
    | false =>
      rw [expandCalls_eq_mapChildren hkind]
      refine mapChildren_eq_ok_iff.2 ⟨e.children, List.forall₂_same.2 fun c hc =>
        ih c hc (hcalls.child hc) (hrows.child hc), ?_⟩
      refine rebuild_eq_ok_iff.2 ⟨fun hm => ?_, (withChildren_children e).symm⟩
      cases e with
      | matrix rows => exact hrows.here rows rfl
      | _ => cases hm
    | true =>
      cases e with
      | call f args => exact absurd rfl (hcalls.here f args)
      | define | undefine => rw [expandCalls]
      | _ => cases hkind

/-- Differentiation of an expression without calls is the derivative, simplified on request. -/
theorem differentiate_of_callFree {users : FunctionTable R} {simplify : Bool} {e : Expr R}
    (hcalls : e.CallFree) (hrows : e.MatricesFit) (hx : x ≠ "") :
    e.differentiate users simplify x = e.derivativeBy x >>= fun d =>
      if simplify then d.simplified.mapError .simplify else pure d := by
  rw [differentiate, if_neg hx, expandCalls_of_callFree hcalls hrows]
  rfl

/-- Without a derivative differentiation fails, whether it simplifies or not. -/
theorem exists_differentiate_error {users : FunctionTable R} {e : Expr R} (hcalls : e.CallFree)
    (hrows : e.MatricesFit) (hx : x ≠ "") (hd : ¬ ∃ d, e.derivativeBy x = .ok d)
    (simplify : Bool) : ∃ m, e.differentiate users simplify x = .error m := by
  rw [differentiate_of_callFree hcalls hrows hx]
  cases h : e.derivativeBy x with
  | ok d => exact absurd ⟨d, h⟩ hd
  | error m => exact ⟨m, rfl⟩

end Expr

open SymbolicAlgebra.Expr (CallFree MatricesFit Demands Obstructed DerivativesBy)

/-- Nodes that have no derivative, in an expression without calls. The derivative exists exactly
if no node that it demands stands in its way. So differentiation fails, simplifying or not, where
it demands a node of a refused kind; and it does so for every such node that contains the
variable, if only derivatives by this variable stand in the expression. A refused node that is
not demanded has no effect. -/
theorem differentiate_refused {users : FunctionTable R} {t : Expr R} {v : String}
    (hcalls : t.CallFree) (hrows : t.MatricesFit) (hv : v ≠ "") :
    ((∃ d, t.differentiate users false v = .ok d) ↔
      ∀ y n, Demands v t y n → ¬ Obstructed y n) ∧
    (∀ simplify y n, Demands v t y n → Derivative.hasDerivative n = false →
      ∃ m, t.differentiate users simplify v = .error m) ∧
    (t.DerivativesBy v → ∀ simplify p n, t.subexprAt? p = some n →
      Derivative.hasDerivative n = false → n.containsVar v = true →
      ∃ m, t.differentiate users simplify v = .error m) := by
  refine ⟨?_, fun simplify y n hdemands hn => ?_, fun hby simplify p n hp hn hx => ?_⟩
  · rw [← Expr.exists_derivativeBy_iff_demands, Expr.differentiate_of_callFree hcalls hrows hv]
    constructor
    · rintro ⟨d, hd⟩
      obtain ⟨d', hd', -⟩ := Expr.bind_eq_ok_iff.1 hd
      exact ⟨d', hd'⟩
    · rintro ⟨d, hd⟩
      exact ⟨d, Expr.bind_eq_ok_iff.2 ⟨d, hd, rfl⟩⟩
  · apply Expr.exists_differentiate_error hcalls hrows hv
    rw [Expr.exists_derivativeBy_iff_demands]
    exact fun h => h y n hdemands (.refused hn)
  · apply Expr.exists_differentiate_error hcalls hrows hv
    intro hd
    rw [Expr.hasDerivative_of_containsVar hby hd hp hx] at hn
    cases hn

/-- The derivative of `x + (x > 1)` by `x` demands the comparison, because `x` stands in it. -/
theorem differentiate_refused_comparison :
    let n : Expr SignedFloat := .binary .greater (.var "x") .one
    let t : Expr SignedFloat := .add (.var "x") n
    t.CallFree ∧ t.MatricesFit ∧ t.DerivativesBy "x" ∧ t.subexprAt? [1] = some n ∧
      Derivative.hasDerivative n = false ∧ n.containsVar "x" = true ∧
      ∃ m, t.differentiate FunctionTable.empty true "x" = .error m := by
  intro n t
  -- What holds of the four kinds of nodes of `t` holds everywhere in it.
  have hnodes : ∀ p : Expr SignedFloat → Prop, p t → p n → p (.var "x") → p .one →
      t.Everywhere p := by
    intro p ht hn hx hone
    have hvar : (Expr.var "x").Everywhere p := .node hx nofun
    refine .node ht fun c hc => ?_
    rcases List.mem_pair.1 hc with rfl | rfl
    · exact hvar
    · refine .node hn fun c hc => ?_
      rcases List.mem_pair.1 hc with rfl | rfl
      · exact hvar
      · exact .node hone nofun
  have hcalls : t.CallFree := hnodes _ nofun nofun nofun nofun
  have hrows : t.MatricesFit := hnodes _ nofun nofun nofun nofun
  have hby : t.DerivativesBy "x" := hnodes _ nofun nofun nofun nofun
  exact ⟨hcalls, hrows, hby, rfl, rfl, rfl,
    (differentiate_refused hcalls hrows (by decide)).2.2 hby true [1] n rfl rfl rfl⟩

/-- The truth value in `x + true` is a node without a derivative. But it does not contain the
variable, the sum drops it, and the derivative is one. -/
theorem not_differentiate_refused :
    let t : Expr SignedFloat := .add (.var "x") (.truth true)
    t.CallFree ∧ t.MatricesFit ∧ t.subexprAt? [1] = some (.truth true) ∧
      Derivative.hasDerivative (.truth true : Expr SignedFloat) = false ∧
      t.differentiate FunctionTable.empty false "x" = .ok .one := by
  intro t
  have hcalls : t.CallFree := by
    refine .node nofun fun c hc => ?_
    rcases List.mem_pair.1 hc with rfl | rfl <;> exact .node nofun nofun
  have hrows : t.MatricesFit := by
    refine .node nofun fun c hc => ?_
    rcases List.mem_pair.1 hc with rfl | rfl <;> exact .node nofun nofun
  have hderivative : t.derivativeBy "x" = .ok .one := by
    rw [Expr.derivativeBy_binary rfl rfl]
    exact Expr.binaryBy_eq_ok rfl (by decide) (Expr.operandBy_var "x" _)
      (Expr.operandBy_constant rfl)
  refine ⟨hcalls, hrows, rfl, rfl, ?_⟩
  rw [Expr.differentiate_of_callFree hcalls hrows (by decide), hderivative]
  rfl

end SymbolicAlgebra
