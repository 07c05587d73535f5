import SymbolicAlgebra.Derivative.Expand
import SymbolicAlgebra.Derivative.Nesting
import SymbolicAlgebra.Simplify

set_option autoImplicit false

/-!
# Differentiation

The derivative of an expression by a variable is taken node by node (`Expr.derivativeBy`). A node
that does not contain the variable has the derivative zero, provided that its kind may have a
derivative at all. At the other nodes the operands are differentiated first and the rule of the
node puts their derivatives together, which is no recursion any more (`Expr.derivativeOfNode`,
with the equation `Expr.derivativeBy_eq`). A derivative node is differentiated by its own variable
first, and what comes out by the variable asked for.

The recursion rests on the nesting of derivative nodes, because a derivative is nested no deeper
than the expression (`Expr.nesting_derivativeBy_le`), and, where that stays the same, on the
number of nodes. `Expr.differentiate` expands calls first and simplifies the derivative on
request.
-/

namespace SymbolicAlgebra

namespace Expr

variable {R : Type} [Scalar R]

/-! ## The recursion -/

/-- A derivative that is nested no deeper than what it is the derivative of. -/
abbrev DerivativeOf (n : Nat) (R : Type) : Type := { d : Expr R // d.nesting ≤ n }

mutual
/-- The derivative by the variable `x`, nested no deeper than the expression. -/
def deriveTree (x : String) (e : Expr R) : Except DiffError (DerivativeOf e.nesting R) :=
  if Derivative.hasDerivative e = false then .error (.notDifferentiable e.text)
  else if e.containsVar x = false then .ok ⟨.zero, Nat.zero_le _⟩
  else
    match e with
    | .var _ => .ok ⟨.one, Nat.zero_le _⟩
    | .unary op u =>
      match deriveTree x u with
      | .error c => .error c
      | .ok ⟨du, hdu⟩ =>
        match h : Derivative.chainRule? op u du with
        | none => .error (.notDifferentiable (Expr.unary op u).text)
        | some d => .ok ⟨d, Derivative.nesting_chainRule?_le (Nat.le_refl u.nesting) hdu h⟩
    | .binary op u v => deriveBinary x op u v
    | .rational u v => deriveBinary x .div u v
    | .aggregate .sum args =>
      match deriveTrees x args with
      | .error c => .error c
      | .ok ⟨ds, hds⟩ => .ok ⟨.aggregate .sum ds, hds⟩
    | .vector es =>
      match deriveTrees x es with
      | .error c => .error c
      | .ok ⟨ds, hds⟩ => .ok ⟨.vector ds, hds⟩
    | .matrix rows =>
      match deriveTrees x rows with
      | .error c => .error c
      | .ok ⟨ds, hds⟩ =>
        match h : matrixOf ds with
        | .error c => .error (.shape c)
        | .ok m => .ok ⟨m, nesting_matrixOf h ▸ hds⟩
    | .derivative u y =>
      match deriveTree y u with
      | .error c => .error c
      | .ok ⟨du, hdu⟩ =>
        have : du.nesting < (Expr.derivative u y).nesting := Nat.lt_succ_of_le hdu
        match deriveTree x du with
        | .error c => .error c
        | .ok ⟨d, hd⟩ => .ok ⟨d, Nat.le_of_lt (Nat.lt_of_le_of_lt hd this)⟩
    | .simplify u =>
      match deriveTree x u with
      | .error c => .error c
      | .ok ⟨d, hd⟩ => .ok ⟨d, hd⟩
    | e => .error (.notDifferentiable e.text)
termination_by (e.nesting, e.size, 0)
decreasing_by
  all_goals
    first
    | exact Prod.Lex.left _ _ this
    | exact descends_of_le (by simp [nesting]) (by simp only [size]; omega)
        (by simp only [size]; omega)
/-- The derivative of an operation on two operands, which are differentiated in the order
of the operation. -/
def deriveBinary (x : String) (op : BinaryOp) (u v : Expr R) :
    Except DiffError (DerivativeOf (max u.nesting v.nesting) R) :=
  match Derivative.operandOrder? op with
  | none => .error (.notDifferentiable (Expr.binary op u v).text)
  | some .rightFirst =>
    match deriveOperand x false v with
    | .error c => .error c
    | .ok ⟨b, hb⟩ =>
      match deriveOperand x false u with
      | .error c => .error c
      | .ok ⟨a, ha⟩ => .ok ⟨Derivative.binaryRule op a b,
        Derivative.nesting_binaryRule_le op (ha.mono (Nat.le_max_left _ _))
          (hb.mono (Nat.le_max_right _ _))⟩
  | some order =>
    match deriveOperand x (order = .both) u with
    | .error c => .error c
    | .ok ⟨a, ha⟩ =>
      match deriveOperand x (order = .both) v with
      | .error c => .error c
      | .ok ⟨b, hb⟩ => .ok ⟨Derivative.binaryRule op a b,
        Derivative.nesting_binaryRule_le op (ha.mono (Nat.le_max_left _ _))
          (hb.mono (Nat.le_max_right _ _))⟩
termination_by (max u.nesting v.nesting, max u.size v.size, 2)
decreasing_by all_goals exact descends_of_le (by omega) (by omega) (.inr (by decide))
/-- An operand with its derivative, which is left out where the operand does not depend on
the variable, unless it is asked for always. -/
def deriveOperand (x : String) (always : Bool) (u : Expr R) :
    Except DiffError { o : Derivative.Operand R // o.NestedAtMost u.nesting } :=
  if always || u.containsVar x then
    match deriveTree x u with
    | .error c => .error c
    | .ok ⟨d, hd⟩ => .ok ⟨⟨u, some d⟩, by simp [Derivative.Operand.NestedAtMost, hd]⟩
  else .ok ⟨⟨u, none⟩, by simp [Derivative.Operand.NestedAtMost]⟩
termination_by (u.nesting, u.size, 1)
decreasing_by exact descends_of_le (Nat.le_refl _) (Nat.le_refl _) (.inr Nat.zero_lt_one)
/-- The derivatives of a list of expressions, from left to right. -/
def deriveTrees (x : String) (es : List (Expr R)) :
    Except DiffError { ds : List (Expr R) // nestingList ds ≤ nestingList es } :=
  match es with
  | [] => .ok ⟨[], nestingList_nil_le⟩
  | e :: es =>
    match deriveTree x e with
    | .error c => .error c
    | .ok ⟨d, hd⟩ =>
      match deriveTrees x es with
      | .error c => .error c
      | .ok ⟨ds, hds⟩ => .ok ⟨d :: ds, nestingList_cons_le hd hds⟩
termination_by (nestingList es, sizeList es, es.length + 1)
decreasing_by
  · exact descends_of_le (by simp only [nestingList]; omega) (by simp only [sizeList]; omega)
      (.inr (Nat.zero_lt_succ _))
  · exact descends_of_le (by simp only [nestingList]; omega) (by simp only [sizeList]; omega)
      (.inr (by simp))
end

/-! ## The derivative and its equations -/

/-- The derivative of an expression without calls by the variable `x`. -/
def derivativeBy (x : String) (e : Expr R) : Except DiffError (Expr R) :=
  (deriveTree x e).map (·.1)

/-- An operand with its derivative, which is left out where the operand does not depend on
the variable, unless it is asked for always. -/
def operandBy (x : String) (always : Bool) (u : Expr R) :
    Except DiffError (Derivative.Operand R) :=
  if always || u.containsVar x then (u.derivativeBy x).map fun d => ⟨u, some d⟩
  else .ok ⟨u, none⟩

/-- The derivative of an operation on two operands. -/
def binaryBy (x : String) (op : BinaryOp) (u v : Expr R) : Except DiffError (Expr R) :=
  match Derivative.operandOrder? op with
  | none => .error (.notDifferentiable (Expr.binary op u v).text)
  | some .rightFirst => do
    let b ← v.operandBy x false
    let a ← u.operandBy x false
    pure (Derivative.binaryRule op a b)
  | some order => do
    let a ← u.operandBy x (order = .both)
    let b ← v.operandBy x (order = .both)
    pure (Derivative.binaryRule op a b)

/-- A derivative is nested no deeper than the expression. -/
theorem nesting_derivativeBy_le {x : String} {e d : Expr R}
    (h : e.derivativeBy x = .ok d) : d.nesting ≤ e.nesting := by
  unfold derivativeBy at h
  cases ht : deriveTree x e with
  | error c => simp [ht, Except.map] at h
  | ok t =>
    simp only [ht, Except.map, Except.ok.injEq] at h
    rw [← h]
    exact t.2

/-- A list is differentiated member by member, from left to right. -/
theorem deriveTrees_eq_mapM (x : String) (es : List (Expr R)) :
    (deriveTrees x es).map (·.1) = es.mapM (derivativeBy x) := by
  induction es with
  | nil => simp [deriveTrees, Except.map, pure, Except.pure]
  | cons e es ih =>
    simp only [List.mapM_cons, ← ih, derivativeBy]
    rw [deriveTrees]
    cases deriveTree x e with
    | error c => rfl
    | ok d =>
      cases deriveTrees x es with
      | error c => rfl
      | ok ds => rfl

/-- The operand of the recursion is the one with the derivative in place. -/
theorem deriveOperand_eq (x : String) (always : Bool) (u : Expr R) :
    (deriveOperand x always u).map (·.1) = u.operandBy x always := by
  rw [deriveOperand]
  simp only [operandBy, derivativeBy]
  split
  · cases deriveTree x u <;> rfl
  · rfl

/-- The recursion for two operands is the derivative of the operation. -/
theorem deriveBinary_eq (x : String) (op : BinaryOp) (u v : Expr R) :
    (deriveBinary x op u v).map (·.1) = binaryBy x op u v := by
  rw [deriveBinary]
  simp only [binaryBy, ← deriveOperand_eq]
  split
  · rfl
  · cases deriveOperand x false v with
    | error c => rfl
    | ok b => cases deriveOperand x false u <;> rfl
  · rename_i order _ _
    cases deriveOperand x (order = .both) u with
    | error c => rfl
    | ok a => cases deriveOperand x (order = .both) v <;> rfl

/-- The derivative of a node by the variable `x`, from the derivatives of its operands. -/
def derivativeOfNode (x : String) (e : Expr R) : Except DiffError (Expr R) :=
  if Derivative.hasDerivative e = false then .error (.notDifferentiable e.text)
  else if e.containsVar x = false then .ok .zero
  else
    match e with
    | .var _ => .ok .one
    | .unary op u => do
      let du ← u.derivativeBy x
      match Derivative.chainRule? op u du with
      | none => .error (.notDifferentiable (Expr.unary op u).text)
      | some d => .ok d
    | .binary op u v => binaryBy x op u v
    | .rational u v => binaryBy x .div u v
    | .aggregate .sum args => (args.mapM (derivativeBy x)).map (Expr.aggregate .sum)
    | .vector es => (es.mapM (derivativeBy x)).map Expr.vector
    | .matrix rows => do
      let ds ← rows.mapM (derivativeBy x)
      (matrixOf ds).mapError .shape
    | .derivative u y => u.derivativeBy y >>= derivativeBy x
    | .simplify u => u.derivativeBy x
    | e => .error (.notDifferentiable e.text)

/-- The derivative of an expression comes from the derivatives of the operands. -/
theorem derivativeBy_eq (x : String) (e : Expr R) :
    e.derivativeBy x = derivativeOfNode x e := by
  rw [derivativeBy, deriveTree.eq_def]
  unfold derivativeOfNode
  split
  · rfl
  split
  · rfl
  cases e with
  | unary op u =>
    dsimp only
    rw [derivativeBy]
    cases deriveTree x u with
    | error c => rfl
    | ok du =>
      obtain ⟨du, hdu⟩ := du
      change Except.map _ _ = (match Derivative.chainRule? op u du with
        | none => .error (DiffError.notDifferentiable (Expr.unary op u).text)
        | some d => .ok d)
      dsimp only
      split <;> rename_i h <;> simp only [h] <;> rfl
  | binary op u v => exact deriveBinary_eq x op u v
  | rational u v => exact deriveBinary_eq x .div u v
  | aggregate op args =>
    cases op <;> try rfl
    dsimp only
    rw [← deriveTrees_eq_mapM]
    cases deriveTrees x args <;> rfl
  | vector es =>
    dsimp only
    rw [← deriveTrees_eq_mapM]
    cases deriveTrees x es <;> rfl
  | matrix rows =>
    dsimp only
    rw [← deriveTrees_eq_mapM]
    cases deriveTrees x rows with
    | error c => rfl
    | ok ds =>
      obtain ⟨ds, hds⟩ := ds
      change Except.map _ _ = (matrixOf ds).mapError DiffError.shape
      dsimp only
      split <;> rename_i h <;> simp only [h] <;> rfl
  | derivative u y =>
    simp only [derivativeBy]
    cases deriveTree y u with
    | error c => rfl
    | ok du =>
      change Except.map _ _ = Except.map _ (deriveTree x du.1)
      dsimp only
      cases deriveTree x du.1 <;> rfl
  | simplify u =>
    dsimp only
    rw [derivativeBy]
    cases deriveTree x u <;> rfl
  | _ => rfl

/-- A node that may not have a derivative has none. -/
theorem derivativeBy_of_hasDerivative_eq_false {x : String} {e : Expr R}
    (h : Derivative.hasDerivative e = false) :
    e.derivativeBy x = .error (.notDifferentiable e.text) := by
  rw [derivativeBy_eq]
  unfold derivativeOfNode
  rw [if_pos h]

/-- The derivative of what does not depend on the variable is zero. -/
theorem derivativeBy_of_containsVar_eq_false {x : String} {e : Expr R}
    (h : Derivative.hasDerivative e = true) (hx : e.containsVar x = false) :
    e.derivativeBy x = .ok .zero := by
  rw [derivativeBy_eq]
  unfold derivativeOfNode
  rw [if_neg (by simp [h]), if_pos hx]

/-- The derivative of the variable itself is one. -/
theorem derivativeBy_var (x : String) : (Expr.var x : Expr R).derivativeBy x = .ok .one := by
  rw [derivativeBy_eq]
  unfold derivativeOfNode
  rw [if_neg (by simp [Derivative.hasDerivative]),
    if_neg (by simp [containsVar])]

/-! ## Differentiation -/

/-- The derivative of an expression by the variable `x`. Calls are expanded first, and the
derivative is simplified on request. -/
def differentiate (users : FunctionTable R) (simplify : Bool) (e : Expr R) (x : String) :
    Except DiffError (Expr R) :=
  if x = "" then .error (.missingArgument "variable")
  else do
    let expanded ← e.expandCalls users maxBodies
    let d ← expanded.derivativeBy x
    if simplify then d.simplified.mapError .simplify else pure d

end Expr

end SymbolicAlgebra
