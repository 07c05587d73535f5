import SymbolicAlgebra.Expr.Same
import SymbolicAlgebra.Proofs.ConcreteSyntax
import SymbolicAlgebra.Proofs.NodeProperty

set_option autoImplicit false

/-!
# What the text of an expression is read back as

Most literals have a text that stands for them alone. At the edge of the scalars there are
exceptions, all of them without parentheses or blanks where the reader would need them:

- a negative zero is written as `-0`, and the sign takes in what binds tighter behind it, a
  power or a factorial;
- the word of an infinite or undefined imaginary part and the letter `i` are one name;
- the word of such a magnitude and the symbol of its unit are a product of a number and a name,
  unless the symbol starts with a degree sign.

`Expr.reread` is the expression that the text is read back as. It is the expression itself where
there is no exception (`Expr.Restorable`, `reread_eq_self`), and no other expression is the same as
what it is read back as (`restorable_of_same`).
-/

namespace SymbolicAlgebra.Expr

variable {R : Type} [Scalar R]

/-! ## Reading back -/

/-- Whether the expression is a literal zero with a minus sign. -/
def isNegativeZero : Expr R → Bool
  | .number v => Scalar.signBit v && Scalar.isZero v
  | _ => false

/-- The literal of the opposite number. -/
def oppositeLiteral : Expr R → Expr R
  | .number v => .number (-v)
  | e => e

/-- Whether a minus sign before the text of the expression would be read as its own. -/
def takesSign : Expr R → Bool
  | .number _ | .quantity _ => true
  | _ => false

/-- What a node is read back as, over its subexpressions. -/
def rereadNode : Expr R → Expr R
  | .complex z =>
    if Scalar.isFinite z.im then .complex z
    else
      .binary (if Scalar.signBit z.im then .sub else .add) (.number z.re)
        (.var (Scalar.text (Scalar.abs z.im) ++ "i"))
  | .quantity q =>
    if Scalar.isFinite q.magnitude || q.unit.hasDegreeSign then .quantity q
    else .mul (.number q.magnitude) q.unit.factor
  | .binary .pow l r =>
    if l.isNegativeZero then .neg (.pow l.oppositeLiteral r) else .pow l r
  | .unary .factorial e =>
    if e.isNegativeZero then .neg (.unary .factorial e.oppositeLiteral)
    else .unary .factorial e
  | e => e

/-- What the text of an expression is read back as. -/
def reread (e : Expr R) : Expr R :=
  rereadNode (e.withChildren (e.children.attach.map fun ⟨c, _⟩ => reread c))
termination_by sizeOf e
decreasing_by exact sizeOf_lt_of_mem_children ‹_›

theorem reread_eq (e : Expr R) :
    e.reread = rereadNode (e.withChildren (e.children.map reread)) := by
  rw [reread]
  congr 2
  exact List.attach_map_val (f := reread)

/-! ## Nodes that are read back as themselves -/

/-- Whether the node is read back as itself. -/
def RestorableNode : Expr R → Prop
  | .complex z => Scalar.isFinite z.im = true
  | .quantity q => (Scalar.isFinite q.magnitude || q.unit.hasDegreeSign) = true
  | .binary .pow l _ => l.isNegativeZero = false
  | .unary .factorial e => e.isNegativeZero = false
  | _ => True

/-- Every node of the expression is read back as itself. -/
def Restorable (e : Expr R) : Prop := e.Everywhere RestorableNode

theorem rereadNode_eq_self {e : Expr R} (h : e.RestorableNode) : e.rereadNode = e := by
  cases e with
  | complex z => exact if_pos h
  | quantity q => exact if_pos h
  | unary op u =>
    cases op with
    | factorial => exact if_neg (Bool.eq_false_iff.1 h)
    | _ => rfl
  | binary op l r =>
    cases op with
    | pow => exact if_neg (Bool.eq_false_iff.1 h)
    | _ => rfl
  | _ => rfl

/-- The nodes that are not read back as themselves, and what becomes of them. -/
inductive Rewritten : Expr R → Expr R → Prop where
  | complex {z : ComplexNumber R} {op : BinaryOp} {l r : Expr R} :
      Rewritten (.complex z) (.binary op l r)
  | quantity {q : Quantity R} {op : BinaryOp} {l r : Expr R} :
      Rewritten (.quantity q) (.binary op l r)
  | power {l r e : Expr R} : Rewritten (.pow l r) (.neg e)
  | factorial {e e' : Expr R} : Rewritten (.unary .factorial e) (.neg e')

theorem rewritten_rereadNode {e : Expr R} (h : ¬ e.RestorableNode) :
    Rewritten e e.rereadNode := by
  cases e with
  | complex z =>
    have hz : ¬ Scalar.isFinite z.im = true := h
    rw [rereadNode, if_neg hz]
    exact .complex
  | quantity q =>
    have hq : ¬ (Scalar.isFinite q.magnitude || q.unit.hasDegreeSign) = true := h
    rw [rereadNode, if_neg hq]
    exact .quantity
  | unary op e =>
    cases op with
    | factorial =>
      rw [rereadNode, if_pos (Bool.not_eq_false _ ▸ h)]
      exact .factorial
    | _ => exact absurd trivial h
  | binary op l r =>
    cases op with
    | pow =>
      rw [rereadNode, if_pos (Bool.not_eq_false _ ▸ h)]
      exact .power
    | _ => exact absurd trivial h
  | _ => exact absurd trivial h

omit [Scalar R] in
/-- What becomes of a node does not depend on its subexpressions. -/
theorem Rewritten.of_withChildren {e e' : Expr R} {cs : List (Expr R)}
    (h : Rewritten (e.withChildren cs) e') : Rewritten e e' := by
  unfold withChildren at h
  split at h <;> first
    | exact h
    | (cases h; done)
    | (cases h; exact .factorial)
    | (cases h; exact .power)

/-- What distinguishes no nodes that are not read back as themselves, and does not look at the
subexpressions, is the same of what an expression is read back as. -/
theorem shape_reread {f : Expr R → Bool} (hf : ∀ e cs, f (e.withChildren cs) = f e)
    (hr : ∀ e e', Rewritten e e' → f e' = f e) (e : Expr R) : f e.reread = f e := by
  -- the node over the subexpressions as they are read back looks the same
  rw [reread_eq, ← hf e (e.children.map reread)]
  by_cases h : (e.withChildren (e.children.map reread)).RestorableNode
  · rw [rereadNode_eq_self h]
  · exact hr _ _ (rewritten_rereadNode h)

/-- A negative zero is the only thing that is read back as one. -/
theorem isNegativeZero_reread (e : Expr R) : e.reread.isNegativeZero = e.isNegativeZero := by
  refine shape_reread (fun e cs => ?_) (fun e e' h => by cases h <;> rfl) e
  unfold withChildren
  split <;> rfl

/-- A vector is the only thing that is read back as one. -/
theorem isVector_reread (e : Expr R) : e.reread.isVector = e.isVector := by
  refine shape_reread (fun e cs => ?_) (fun e e' h => by cases h <;> rfl) e
  unfold withChildren
  split <;> rfl

/-- Whether a node is read back as itself does not depend on what becomes of the
subexpressions. -/
theorem restorableNode_withChildren {e : Expr R} :
    (e.withChildren (e.children.map reread)).RestorableNode ↔ e.RestorableNode := by
  cases e with
  | unary op e =>
    cases op with
    | factorial =>
      change e.reread.isNegativeZero = false ↔ e.isNegativeZero = false
      rw [isNegativeZero_reread]
    | _ => exact Iff.rfl
  | binary op l r =>
    cases op with
    | pow =>
      change l.reread.isNegativeZero = false ↔ l.isNegativeZero = false
      rw [isNegativeZero_reread]
    | _ => exact Iff.rfl
  | _ => exact Iff.rfl

/-- A node that is read back as itself is put together again over what its subexpressions are
read back as. -/
theorem reread_eq_withChildren {e : Expr R} (h : e.RestorableNode) :
    e.reread = e.withChildren (e.children.map reread) := by
  rw [reread_eq, rereadNode_eq_self (restorableNode_withChildren.2 h)]

/-- The sign of a negative zero takes in the power behind it. -/
theorem reread_pow_negativeZero {l r : Expr R} (h : l.isNegativeZero = true) :
    (pow l r).reread = .neg (.pow l.reread.oppositeLiteral r.reread) := by
  rw [reread_eq]
  exact if_pos (by rw [isNegativeZero_reread, h])

/-- The sign of a negative zero takes in the factorial behind it. -/
theorem reread_factorial_negativeZero {e : Expr R} (h : e.isNegativeZero = true) :
    (unary .factorial e).reread = .neg (.unary .factorial e.reread.oppositeLiteral) := by
  rw [reread_eq]
  exact if_pos (by rw [isNegativeZero_reread, h])

/-- What becomes of a node that is not read back as itself. -/
theorem rewritten_reread {e : Expr R} (h : ¬ e.RestorableNode) : Rewritten e e.reread := by
  have hrewritten := rewritten_rereadNode (mt restorableNode_withChildren.1 h)
  rw [← reread_eq] at hrewritten
  exact hrewritten.of_withChildren

omit [Scalar R] in
/-- Targets are read back as themselves. -/
theorem Rewritten.isVarOrCall {e e' : Expr R} (h : Rewritten e e') : e.isVarOrCall = false := by
  cases h <;> rfl

omit [Scalar R] in
/-- What becomes of a node is an operation. -/
theorem Rewritten.takesSign {e e' : Expr R} (h : Rewritten e e') : e'.takesSign = false := by
  cases h <;> rfl

/-- An expression without an exception is read back as itself. -/
theorem reread_eq_self {e : Expr R} (h : e.Restorable) : e.reread = e := by
  induction e using induction with
  | step e ih =>
    obtain ⟨hnode, hchildren⟩ := everywhere_iff.1 h
    have hmap : e.children.map reread = e.children := by
      rw [List.map_congr_left fun c hc => ih c hc (hchildren c hc), List.map_id']
    rw [reread_eq_withChildren hnode, hmap, withChildren_children]

/-- What is read back is the same target. -/
theorem keepsTarget_reread (e : Expr R) : KeepsTarget e e.reread := by
  induction e using induction with
  | step e ih =>
    by_cases h : e.RestorableNode
    · rw [reread_eq_withChildren h]
      exact keepsTarget_withChildren
        (List.forall₂_map_right_iff.2 (List.forall₂_same.2 ih))
    · exact keepsTarget_of_not (rewritten_reread h).isVarOrCall _

/-- Only numbers and quantities are read back as such. -/
theorem takesSign_of_reread {e : Expr R} (h : e.reread.takesSign = true) :
    e.takesSign = true := by
  by_cases hnode : e.RestorableNode
  · rw [reread_eq_withChildren hnode] at h
    unfold withChildren at h
    split at h <;> exact h
  · rw [(rewritten_reread hnode).takesSign] at h
    cases h

/-- Members in braces are read back as a matrix where they are written as one. -/
theorem readsAsMatrix_reread (es : List (Expr R)) :
    readsAsMatrix (es.map reread) = readsAsMatrix es := by
  have hvector : isVector ∘ reread (R := R) = isVector := funext isVector_reread
  rw [readsAsMatrix, readsAsMatrix, List.all_map, List.isEmpty_map, hvector]

/-- The rows of a matrix that fit are read back as such. -/
theorem rowsFit_reread {rows : List (Expr R)} (h : RowsFit rows) :
    RowsFit (rows.map reread) := by
  obtain ⟨n, hn⟩ := h
  refine ⟨n, fun es' hes' => ?_⟩
  obtain ⟨row, hrow, heq⟩ := List.mem_map.1 hes'
  -- what is read back as a vector was one, over members that are read back each by itself
  have hvector : row.isVector = true := by
    rw [← isVector_reread, heq]
    rfl
  cases row with
  | vector es =>
    have hes : (Expr.vector es).reread = .vector (es.map reread) := reread_eq_withChildren trivial
    rw [hes] at heq
    cases heq
    rw [List.length_map]
    exact hn es hrow
  | _ => cases hvector

/-! ## Literals with a text of their own -/

/-- Whether a literal at this node has a text from which it can be read back: its parts are
of finite size, and a real literal is no negative zero. -/
def WritableNode : Expr R → Prop
  | .number v => Scalar.isFinite v = true ∧ (Scalar.signBit v && Scalar.isZero v) = false
  | .complex z => Scalar.isFinite z.re = true ∧ Scalar.isFinite z.im = true
  | .quantity q => Scalar.isFinite q.magnitude = true
  | _ => True

/-- Every literal of the expression can be written. -/
def Writable (e : Expr R) : Prop := e.Everywhere WritableNode

/-- An expression whose literals can be written is no negative zero. -/
theorem isNegativeZero_of_writable {e : Expr R} (h : e.Writable) :
    e.isNegativeZero = false := by
  cases e with
  | number v => exact (everywhere_iff.1 h).1.2
  | _ => rfl

/-- Where every literal can be written, everything is read back as itself. -/
theorem restorable_of_writable {e : Expr R} (h : e.Writable) : e.Restorable := by
  induction e using induction with
  | step e ih =>
    obtain ⟨hnode, hchildren⟩ := everywhere_iff.1 h
    refine everywhere_iff.2 ⟨?_, fun c hc => ih c hc (hchildren c hc)⟩
    cases e with
    | complex z => exact hnode.2
    | quantity q =>
      rw [RestorableNode, show Scalar.isFinite q.magnitude = true from hnode]
      rfl
    | unary op u =>
      cases op with
      | factorial => exact isNegativeZero_of_writable (hchildren u (List.mem_singleton_self u))
      | _ => trivial
    | binary op l r =>
      cases op with
      | pow => exact isNegativeZero_of_writable (hchildren l (List.mem_cons_self ..))
      | _ => trivial
    | _ => trivial

/-! ## The other nodes -/

/-- No expression is the same as a node and as what becomes of it. -/
theorem Rewritten.not_same {e e' t : Expr R} (h : Rewritten e e') (ht : t.same e = true)
    (ht' : t.same e' = true) : False := by
  cases h with
  | complex | quantity | power =>
    cases t <;> simp only [same, Bool.false_eq_true] at ht ht'
  | factorial =>
    -- both are unary, but the factorial is no opposite
    cases t <;> simp only [same, Bool.false_eq_true, Bool.and_eq_true] at ht ht'
    have ho := (of_decide_eq_true ht.1).symm.trans (of_decide_eq_true ht'.1)
    cases ho

/-- Members that are the same in pairs have the same members in their places. -/
theorem exists_same_of_mem {es es' : List (Expr R)} (h : sameList es' es = true)
    (h' : sameList es' (es.map reread) = true) {c : Expr R} (hc : c ∈ es) :
    ∃ c' : Expr R, c'.same c = true ∧ c'.same c.reread = true := by
  induction es generalizing es' with
  | nil => cases hc
  | cons d es ih =>
    cases es' with
    | nil => cases h
    | cons d' es' =>
      obtain ⟨hd, hes⟩ := Bool.and_eq_true_iff.1 h
      obtain ⟨hd', hes'⟩ := Bool.and_eq_true_iff.1 h'
      rcases List.mem_cons.1 hc with rfl | hc
      · exact ⟨d', hd, hd'⟩
      · exact ih hes hes' hc

/-- An expression that is the same as what it is read back as has no exception. -/
theorem restorable_of_same {e t : Expr R} (h : t.same e = true)
    (h' : t.same e.reread = true) : e.Restorable := by
  induction e using induction generalizing t with
  | step e ih =>
    have hnode : e.RestorableNode := by
      by_contra hn
      -- an exception becomes a node of another kind, and `t` cannot be the same as both
      exact (rewritten_reread hn).not_same h h'
    -- so the node stays, and its subexpressions are the same as theirs, one by one
    refine everywhere_iff.2 ⟨hnode, fun c hc => ?_⟩
    rw [reread_eq_withChildren hnode, same_eq,
      children_withChildren e (List.length_map _)] at h'
    rw [same_eq] at h
    obtain ⟨c', hs, hs'⟩ := exists_same_of_mem (Bool.and_eq_true_iff.1 h).2
      (Bool.and_eq_true_iff.1 h').2 hc
    exact ih c hc hs hs'

end SymbolicAlgebra.Expr
