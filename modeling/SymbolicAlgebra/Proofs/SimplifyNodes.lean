import SymbolicAlgebra.Proofs.NodeProperty

set_option autoImplicit false

/-!
# Simplification keeps stable properties of nodes

The rules of simplification put together literals, operations on one and on two operands,
and parts of the node that they replace. So a stable property of nodes goes from a node to each
kind of expression that takes its place (`Rule.everywhere_contractum`,
`Rule.everywhere_unaryContractum`), and one that holds at every node of an expression holds at
every node of its simplified form (`Expr.everywhere_simplified`).
-/

namespace SymbolicAlgebra

variable {R : Type} {p : Expr R → Prop}

/-! ## The rules of simplification -/

namespace Rule

open SymbolicAlgebra.Expr Fold

variable [StableNode p] {e : Expr R}

/-- The operand beside a literal. -/
theorem everywhere_other {i : WithLiteral R} (he : e.Everywhere p)
    (h : withLiteral? e = some i) : i.other.Everywhere p := by
  rw [eq_node_of_withLiteral? h, WithLiteral.node] at he
  split at he
  · exact (everywhere_binary.1 he).2
  · exact (everywhere_binary.1 he).1

theorem everywhere_folded (h : Folded e) : e.Everywhere p := by
  cases h with
  | number v => exact everywhere_number v
  | complex z => exact everywhere_complex z
  | truth b => exact everywhere_truth b

theorem everywhere_joinsLiteral {x : Expr R} (hx : x.Everywhere p) (h : JoinsLiteral x e) :
    e.Everywhere p := by
  cases h with
  | first _ v => exact everywhere_binary.2 ⟨everywhere_number v, hx⟩
  | last _ v => exact everywhere_binary.2 ⟨hx, everywhere_number v⟩

variable [Scalar R]

/-- What a literal factor multiplies. -/
theorem everywhere_coefficient (he : e.Everywhere p) : (coefficient e).2.Everywhere p := by
  rcases coefficient_eq_or e with ⟨c, x, rfl, hc⟩ | hc
  · rw [hc]
    exact (everywhere_binary.1 he).2
  · rw [hc]
    exact he

/-- What the tables give has the property everywhere where the operands have it. -/
theorem everywhere_contractum {op : BinaryOp} {l r : Expr R} (hl : l.Everywhere p)
    (hr : r.Everywhere p) (h : Contractum op l r e) : e.Everywhere p := by
  cases h with
  | constant => exact everywhere_number _
  | first => exact hl
  | second => exact hr
  | opposite => exact everywhere_unary.2 hr
  | oppositePlus => exact everywhere_binary.2 ⟨hr, everywhere_unary.1 hl⟩
  | plusOpposite | minusOpposite => exact everywhere_binary.2 ⟨hl, everywhere_unary.1 hr⟩
  | negativePlus => exact everywhere_binary.2 ⟨hr, everywhere_number _⟩
  | plusNegative | minusNegative => exact everywhere_binary.2 ⟨hl, everywhere_number _⟩
  | likeTerms => exact everywhere_binary.2 ⟨everywhere_number _, everywhere_coefficient hl⟩
  | bothOpposite => exact everywhere_binary.2 ⟨everywhere_unary.1 hl, everywhere_unary.1 hr⟩
  | literalFirst => exact everywhere_binary.2 ⟨hr, hl⟩
  | innerFirst _ _ hi he => exact everywhere_joinsLiteral (everywhere_other hl hi) he
  | innerLast _ _ hi he => exact everywhere_joinsLiteral (everywhere_other hr hi) he

/-- What the rules give for one operand has the property everywhere where the operand has
it. -/
theorem everywhere_unaryContractum {op : UnaryOp} {u : Expr R} (hu : u.Everywhere p)
    (h : UnaryContractum op u e) : e.Everywhere p := by
  cases h with
  | negateNumber | logOfBase => exact everywhere_number _
  | negateComplex => exact everywhere_complex _
  | negateQuantity => exact everywhere_quantity _
  | notTruth => exact everywhere_truth _
  | negateNegate | undone => exact everywhere_unary.1 hu

/-- What a rule puts in the place of a node has the property everywhere. -/
theorem everywhere_reduce? {node : Expr R} (hn : node.Everywhere p)
    (h : reduce? node = .ok (some e)) : e.Everywhere p := by
  unfold reduce? at h
  split at h
  · rw [← Option.some.inj (Except.ok.inj h)]
    exact everywhere_simplify.1 hn
  · exact everywhere_unaryContractum (everywhere_unary.1 hn)
      (contractum_of_unary? (Except.ok.inj h))
  · obtain ⟨hl, hr⟩ := everywhere_binary.1 hn
    rcases binary?_eq_some h with h | ⟨rule, hrule, h⟩
    · exact everywhere_folded (folded_of_literals? h)
    · exact everywhere_contractum hl hr (contractum_of_mem_rules hrule h)
  · obtain ⟨v, rfl⟩ := aggregate?_eq_some (Except.ok.inj h)
    exact everywhere_number v
  · cases h

end Rule

variable [Scalar R] [Expr.StableNode p]

/-! ## Simplification -/

namespace Expr

/-- No rule applies to a variable or a call. -/
theorem reduce?_of_isVarOrCall {e : Expr R} (h : e.isVarOrCall = true) :
    Rule.reduce? e = .ok none := by
  cases e <;> first | rfl | cases h

/-- Simplification keeps the property at every node, and leaves targets alone. -/
theorem keepsEverywhere_simplified {e s : Expr R} (h : e.simplified = .ok s) :
    KeepsEverywhere p e s := by
  refine simplified_rec (motive := KeepsEverywhere p) ?keep ?rule h
  case keep =>
    intro e cs node hcs hn _
    exact keepsEverywhere_rebuild hcs hn
  case rule =>
    intro e cs node next s hcs hn hr ih he
    obtain ⟨hnode, ht⟩ := keepsEverywhere_rebuild hcs hn he
    -- A rule may put anything in the place of a node, but none applies to a target.
    refine ⟨(ih (Rule.everywhere_reduce? hnode hr)).1, keepsTarget_of_not ?_ s⟩
    cases hv : e.isVarOrCall with
    | false => rfl
    | true =>
      rw [reduce?_of_isVarOrCall (ht.isVarOrCall hv)] at hr
      cases hr

theorem everywhere_simplified {e s : Expr R} (he : e.Everywhere p) (h : e.simplified = .ok s) :
    s.Everywhere p :=
  (keepsEverywhere_simplified h he).1

end Expr

end SymbolicAlgebra
