import SymbolicAlgebra.Simplify.Weight

set_option autoImplicit false

/-!
# Simplification

An expression is simplified (`Expr.simplified`) from the leaves to the root: first the direct
subexpressions, then the rules at the node itself. When a rule applies, what it gives is simplified
in its turn, so that no rule applies anywhere in the result. `Expr.simplified_eq` is the equation
of this recursion.

The recursion rests on the weight: a simplified subexpression is not heavier than the
subexpression (`Expr.weight_simplified_le`), and what a rule gives is lighter than the node.
-/

namespace SymbolicAlgebra

namespace Expr

variable {R : Type} [Scalar R]

/-- Rebuilding a node from subexpressions that are not heavier gives no heavier node. -/
theorem weight_rebuild_le {ε : Type} {ofShape : ShapeError → ε} {e e' : Expr R}
    {cs : List (Expr R)} (hc : NotHeavier cs e.children)
    (h : e.rebuild ofShape cs = .ok e') : e'.weight ≤ e.weight := by
  rw [eq_withChildren_of_rebuild h]
  exact weight_withChildren_le hc

mutual
/-- The simplified form of an expression, which is not heavier. -/
def simplifyTree (e : Expr R) : Except SimplifyError { s : Expr R // s.weight ≤ e.weight } :=
  have := weightList_children_lt e
  match simplifyTrees e.children with
  | .error x => .error x
  | .ok ⟨cs, hcs⟩ =>
    match hn : e.rebuild .shape cs with
    | .error x => .error x
    | .ok node =>
      have hnode := weight_rebuild_le hcs hn
      match hr : Rule.reduce? node with
      | .error x => .error x
      | .ok none => .ok ⟨node, hnode⟩
      | .ok (some next) =>
        have hnext := Nat.lt_of_lt_of_le (Rule.weight_reduce?_lt hr) hnode
        match simplifyTree next with
        | .error x => .error x
        | .ok ⟨s, hs⟩ => .ok ⟨s, Nat.le_trans hs (Nat.le_of_lt hnext)⟩
termination_by (e.weight, 0)
/-- The simplified forms of a list of expressions, from left to right. -/
def simplifyTrees (es : List (Expr R)) :
    Except SimplifyError { ss : List (Expr R) // NotHeavier ss es } :=
  match es with
  | [] => .ok ⟨[], trivial⟩
  | e :: es =>
    have := weight_pos e
    match simplifyTree e with
    | .error x => .error x
    | .ok ⟨s, hs⟩ =>
      match simplifyTrees es with
      | .error x => .error x
      | .ok ⟨ss, hss⟩ => .ok ⟨s :: ss, hs, hss⟩
termination_by (weightList es, es.length + 1)
decreasing_by
  · rcases Nat.lt_or_eq_of_le (Nat.le_add_right e.weight (weightList es)) with h | h
    · exact Prod.Lex.left _ _ (by simpa only [weightList] using h)
    · simp only [weightList, ← h]
      exact Prod.Lex.right _ (by simp)
  · exact Prod.Lex.left _ _ (by simp only [weightList]; omega)
end

/-- The simplified form of an expression. -/
def simplified (e : Expr R) : Except SimplifyError (Expr R) :=
  (simplifyTree e).map (·.1)

/-- A list is simplified member by member, from left to right. -/
theorem simplifyTrees_eq_mapM (es : List (Expr R)) :
    (simplifyTrees es).map (·.1) = es.mapM simplified := by
  induction es with
  | nil => simp [simplifyTrees, Except.map, pure, Except.pure]
  | cons e es ih =>
    simp only [List.mapM_cons, ← ih, simplified]
    rw [simplifyTrees]
    cases simplifyTree e with
    | error x => rfl
    | ok s =>
      cases simplifyTrees es with
      | error x => rfl
      | ok ss => rfl

/-- Simplifies what a rule gives, if it gives anything, and keeps the node otherwise. -/
def simplifyNext (node : Expr R) : Except SimplifyError (Expr R) :=
  match Rule.reduce? node with
  | .error x => .error x
  | .ok none => .ok node
  | .ok (some next) => simplified next

/-- The equation of simplification. -/
theorem simplified_eq (e : Expr R) :
    e.simplified = e.mapChildren .shape simplified >>= simplifyNext := by
  simp only [mapChildren, ← simplifyTrees_eq_mapM]
  simp only [simplified]
  rw [simplifyTree]
  cases simplifyTrees e.children with
  | error x => rfl
  | ok cs =>
    obtain ⟨cs, hcs⟩ := cs
    change Except.map _ _ = e.rebuild .shape cs >>= simplifyNext
    dsimp only
    split
    · rename_i x hn
      rw [hn]
      rfl
    · rename_i node hn
      have hnext : (e.rebuild .shape cs >>= simplifyNext) = simplifyNext node := by
        rw [hn]
        rfl
      rw [hnext]
      split
      · rename_i x hr
        simp only [simplifyNext, hr]
        rfl
      · rename_i hr
        simp only [simplifyNext, hr]
        rfl
      · rename_i next hr
        simp only [simplifyNext, hr, simplified]
        cases simplifyTree next <;> rfl

/-- Simplification never makes an expression heavier. -/
theorem weight_simplified_le {e s : Expr R} (h : e.simplified = .ok s) :
    s.weight ≤ e.weight := by
  unfold simplified at h
  cases ht : simplifyTree e with
  | error x => simp [ht, Except.map] at h
  | ok t =>
    simp only [ht, Except.map, Except.ok.injEq] at h
    rw [← h]
    exact t.2

end Expr

end SymbolicAlgebra
