import SymbolicAlgebra.Proofs.ElementaryTypes
import SymbolicAlgebra.Proofs.SimplifyRun
import SymbolicAlgebra.Scalar.SignedFloat

set_option autoImplicit false

/-!
# Simplification keeps the types of numbers and truth values

Folding and the tables of types say independently of each other what an operation is. On
expressions of numbers and truth values they agree: what a rule puts in the place of a node
consists of numbers and truth values again and has the type of the node (`Rule.ofType_reduce?`).
Hence simplification keeps elementary types (`Expr.simplified_resultType`).

The tables of rules belong to operations that take two numbers to a number. A rule of these
tables is looked at for two numbers, whatever its operation, and what it gives is a number
(`Rule.isReal_contractum`).
-/

namespace SymbolicAlgebra.Rule

open SymbolicAlgebra.Expr Fold

variable {R : Type} [Scalar R] {P : Parameters R}

/-! ## Rules for two numbers -/

section Numbers

variable {e x : Expr R}

omit [Scalar R] in
/-- The operand beside a literal is a number if the node is one. -/
theorem isReal_other {i : WithLiteral R} (he : e.IsReal P) (h : withLiteral? e = some i) :
    i.other.IsReal P := by
  rw [eq_node_of_withLiteral? h, WithLiteral.node] at he
  split at he
  · exact he.operands.2
  · exact he.operands.1

omit [Scalar R] in
/-- Arithmetic on a literal and a number is a number. -/
theorem isReal_joinsLiteral (hx : x.IsReal P) (h : JoinsLiteral x e) : e.IsReal P := by
  cases h with
  | first hop v =>
    rcases hop with rfl | rfl | rfl <;> exact (isReal_number v).arithmetic rfl hx
  | last hop v =>
    rcases hop with rfl | rfl | rfl <;> exact hx.arithmetic rfl (isReal_number v)

/-- What a literal factor multiplies is a number if the product is one. -/
theorem isReal_coefficient (he : e.IsReal P) : (coefficient e).2.IsReal P := by
  rcases coefficient_eq_or e with ⟨c, x, rfl, hc⟩ | hc
  · rw [hc]
    exact he.operands.2
  · rw [hc]
    exact he

/-- What the tables give for two numbers is a number. -/
theorem isReal_contractum {op : BinaryOp} {l r : Expr R} (hl : l.IsReal P) (hr : r.IsReal P)
    (h : Contractum op l r e) : e.IsReal P := by
  have hnegated : ∀ {a : Expr R}, (Expr.neg a).IsReal P → a.IsReal P := fun h =>
    (ofType_neg_iff.1 h).2
  cases h with
  | constant => exact isReal_number _
  | first => exact hl
  | second => exact hr
  | opposite => exact ofType_neg_iff.2 ⟨rfl, hr⟩
  | oppositePlus => exact hr.arithmetic rfl (hnegated hl)
  | plusOpposite | minusOpposite => exact hl.arithmetic rfl (hnegated hr)
  | negativePlus => exact hr.arithmetic rfl (isReal_number _)
  | plusNegative | minusNegative => exact hl.arithmetic rfl (isReal_number _)
  | likeTerms => exact (isReal_number _).arithmetic rfl (isReal_coefficient hl)
  | bothOpposite hop =>
    rcases hop with rfl | rfl <;> exact (hnegated hl).arithmetic rfl (hnegated hr)
  | literalFirst => exact hr.arithmetic rfl hl
  | innerFirst _ _ hi he => exact isReal_joinsLiteral (isReal_other hl hi) he
  | innerLast _ _ hi he => exact isReal_joinsLiteral (isReal_other hr hi) he

end Numbers

/-- An operation that has a table of rules takes two numbers to a number and takes nothing
else that is elementary. -/
theorem isArithmetic_of_mem_rules {op : BinaryOp} {rule : Binary R} (h : rule ∈ rules op) :
    op.isArithmetic = true := by
  cases op <;> first | rfl | cases h

/-! ## Folding -/

section Folding

variable {op : BinaryOp} {t : ResultType} {e : Expr R}

/-- Folding two real literals gives a literal of the type of the operation. -/
theorem ofType_real? {a b : R} (ht : op.resultType? .number .number = some t)
    (h : real? op a b = .ok (some e)) : e.OfType P t := by
  cases op with
  | add | sub | mul | pow | log | round =>
    cases ht
    cases h
    exact isReal_number _
  | less | lessEqual | greater | greaterEqual | equal | notEqual =>
    cases ht
    cases h
    exact ofType_truth _
  | div | root | mod =>
    cases ht
    obtain ⟨v, -, hv⟩ := map_eq_ok_iff.1 h
    rw [← Option.some.inj hv]
    exact isReal_number v
  | bitAnd | bitOr | xor | nand | nor =>
    cases ht
    obtain ⟨v, -, rfl⟩ := Option.map_eq_some_iff.1 (Except.ok.inj h)
    exact isReal_number v
  | _ => cases h

omit [Scalar R] in
/-- Folding two truth values gives a literal of the type of the operation. -/
theorem ofType_truth? {a b : Bool} (ht : op.resultType? .boolean .boolean = some t)
    (h : truth? op a b = .ok (some e)) : e.OfType P t := by
  obtain ⟨c, hc, rfl⟩ := Option.map_eq_some_iff.1 (Except.ok.inj h)
  have hb : t = .boolean := by
    cases op <;> cases hc <;> cases ht <;> rfl
  rw [hb]
  exact ofType_truth c

/-- Folding keeps elementary types. -/
theorem ofType_literals? {l r : Expr R} (he : (Expr.binary op l r).OfType P t)
    (h : literals? op l r = .ok (some e)) : e.OfType P t := by
  obtain ⟨-, a, b, ha, hb, hop⟩ := ofType_binary_iff.1 he
  unfold literals? at h
  split at h
  · obtain rfl := Except.ok.inj ha.type
    obtain rfl := Except.ok.inj hb.type
    exact ofType_real? hop h
  · obtain rfl := Except.ok.inj ha.type
    obtain rfl := Except.ok.inj hb.type
    exact ofType_truth? hop h
  · exact absurd ha (not_ofType_complex _)
  · exact absurd hb (not_ofType_complex _)
  · exact absurd ha (not_ofType_complex _)
  · cases h

end Folding

/-! ## All nodes -/

section Nodes

variable {t : ResultType} {e e' : Expr R}

/-- The rules of operations on two operands keep elementary types. -/
theorem ofType_binary? {op : BinaryOp} {l r : Expr R} (he : (Expr.binary op l r).OfType P t)
    (h : binary? op l r = .ok (some e')) : e'.OfType P t := by
  rcases binary?_eq_some h with h | ⟨rule, hrule, h⟩
  · exact ofType_literals? he h
  · -- An operation with a rule of its own is arithmetic, so its operands are numbers.
    obtain ⟨-, a, b, ha, hb, hop⟩ := ofType_binary_iff.1 he
    obtain ⟨rfl, rfl, rfl⟩ :=
      BinaryOp.eq_number_of_isArithmetic (isArithmetic_of_mem_rules hrule) ha.isElementary
        hb.isElementary hop
    exact isReal_contractum ha hb (contractum_of_mem_rules hrule h)

omit [Scalar R] in
/-- The operand of the function that a function undoes has the type of the whole. -/
theorem ofType_of_inverse? {op inner : UnaryOp} {u : Expr R} (hinv : op.inverse? = some inner)
    (he : (Expr.unary op (.unary inner u)).OfType P t) : u.OfType P t := by
  obtain ⟨ht, a, ha, hop⟩ := ofType_unary_iff.1 he
  obtain ⟨ha', b, hb, hin⟩ := ofType_unary_iff.1 ha
  have hb' := hb.isElementary
  -- Angles are not elementary, which leaves the hyperbolic functions and exponentials.
  have htb : t = b := by
    cases op <;> cases hinv <;> cases b <;> cases hb' <;> cases hin <;> cases ha' <;>
      cases hop <;> first | rfl | cases ht
  rw [htb]
  exact hb

omit [Scalar R] in
/-- A logarithm that is elementary is a number. -/
theorem eq_number_of_ofType_log {op : UnaryOp} (hlog : op = .ln ∨ op = .lg ∨ op = .lb)
    (he : (Expr.unary op e).OfType P t) : t = .number := by
  obtain ⟨-, a, ha, hop⟩ := ofType_unary_iff.1 he
  have hel := ha.isElementary
  rcases hlog with rfl | rfl | rfl <;> cases a <;> cases hel <;> cases hop <;> rfl

/-- The rules of operations on one operand keep elementary types. -/
theorem ofType_unary? {op : UnaryOp} (he : (Expr.unary op e).OfType P t)
    (h : unary? op e = some e') : e'.OfType P t := by
  cases contractum_of_unary? h with
  | negateNumber =>
    obtain ⟨rfl, -⟩ := ofType_neg_iff.1 he
    exact isReal_number _
  | negateComplex => exact absurd (ofType_neg_iff.1 he).2 (not_ofType_complex _)
  | negateQuantity => exact absurd (ofType_neg_iff.1 he).2 (not_ofType_quantity _)
  | negateNegate =>
    obtain ⟨rfl, ha⟩ := ofType_neg_iff.1 he
    exact (ofType_neg_iff.1 ha).2
  | notTruth =>
    obtain ⟨-, a, ha, hop⟩ := ofType_unary_iff.1 he
    obtain rfl := Except.ok.inj ha.type
    obtain rfl := Option.some.inj hop
    exact ofType_truth _
  | undone hinv => exact ofType_of_inverse? hinv he
  | logOfBase hlog =>
    obtain rfl := eq_number_of_ofType_log hlog he
    exact isReal_number 1

/-- An aggregate is a number or undefined. -/
theorem eq_number_or_undefined_of_aggregateOutcome {op : Aggregate}
    {os : List Typing.Outcome} (h : Typing.aggregateOutcome op os = .ok t) :
    t = .number ∨ t = .undefined := by
  obtain ⟨⟨common, undefined⟩, -, ht⟩ := bind_eq_ok_iff.1 h
  have hresult : ∀ {s : ResultType}, (if undefined then .undefined else .number) = s →
      s = .number ∨ s = .undefined := by
    rintro s rfl
    cases undefined
    · exact .inl rfl
    · exact .inr rfl
  dsimp only at ht
  split at ht
  · exact hresult (Except.ok.inj ht)
  · exact hresult (Except.ok.inj ht)
  · split at ht
    · exact hresult (Except.ok.inj ht)
    · cases ht
  · cases ht

omit [Scalar R] in
/-- An aggregate that is elementary is a number. -/
theorem eq_number_of_ofType_aggregate {op : Aggregate} {args : List (Expr R)}
    (he : (Expr.aggregate op args).OfType P t) : t = .number := by
  rcases eq_number_or_undefined_of_aggregateOutcome he.type with ht | rfl
  · exact ht
  · cases he.isElementary

/-- What takes the place of an elementary node is elementary and has the type of the
node. -/
theorem ofType_reduce? (he : e.OfType P t) (h : reduce? e = .ok (some e')) :
    e'.OfType P t := by
  unfold reduce? at h
  split at h
  · have hel := he.isElementary
    obtain rfl := Except.ok.inj he.type
    cases hel
  · exact ofType_unary? he (Except.ok.inj h)
  · exact ofType_binary? he h
  · obtain rfl := eq_number_of_ofType_aggregate he
    obtain ⟨v, rfl⟩ := aggregate?_eq_some (Except.ok.inj h)
    exact isReal_number v
  · cases h

end Nodes

end SymbolicAlgebra.Rule

namespace SymbolicAlgebra.Expr

variable {R : Type} [Scalar R] {P : Parameters R}

/-! ## Simplification -/

omit [Scalar R] in
/-- A node over direct subexpressions that have kept their types is elementary and has the
type of the node. -/
theorem ofType_withChildren {e : Expr R} {t : ResultType} {cs : List (Expr R)}
    (he : e.OfType P t)
    (h : List.Forall₂ (fun c c' => ∀ t, c.OfType P t → c'.OfType P t) e.children cs) :
    (e.withChildren cs).OfType P t := by
  have hboth : List.Forall₂ (fun c c' => c'.Elementary P ∧ c'.resultType P = c.resultType P)
      e.children cs := by
    refine forall₂_imp_of_mem h fun c hc c' hk => ?_
    obtain ⟨t', ht'⟩ := he.child hc
    have hc' := hk t' ht'
    exact ⟨hc'.elementary, hc'.type.trans ht'.type.symm⟩
  have htype : (e.withChildren cs).resultType P = e.resultType P :=
    resultType_withChildren (fun _ _ => rfl) (hboth.imp fun _ _ hc => hc.2)
  refine .node he.isElementary (htype.trans he.type) ?_
  rw [children_withChildren e hboth.length_eq.symm]
  exact (List.forall₂_and_left _ _ |>.1 hboth.flip).1

/-- Simplification keeps elementary types. -/
theorem ofType_simplified {e s : Expr R} (hs : e.simplified = .ok s) :
    ∀ t, e.OfType P t → s.OfType P t := by
  refine simplified_rec (motive := fun e s => ∀ t, e.OfType P t → s.OfType P t) ?_ ?_ hs
  · intro e cs node hcs hb _ t he
    rw [eq_withChildren_of_rebuild hb]
    exact ofType_withChildren he hcs
  · intro e cs node next s hcs hb hr ih t he
    have hnode : node.OfType P t := by
      rw [eq_withChildren_of_rebuild hb]
      exact ofType_withChildren he hcs
    exact ih t (Rule.ofType_reduce? hnode hr)

/-- The simplified form of an expression of numbers and truth values consists of numbers and
truth values and has the type of the expression. -/
theorem simplified_resultType {t s : Expr R} (h : t.Elementary P) (hs : t.simplified = .ok s) :
    s.Elementary P ∧ s.resultType P = t.resultType P := by
  obtain ⟨T, hT⟩ := h.exists_ofType
  have hsT := ofType_simplified hs T hT
  exact ⟨hsT.elementary, hsT.type.trans hT.type.symm⟩

/-- A comparison of numbers, one behind a double sign, in a conjunction: both operands of the
conjunction get simpler and it stays a truth value. -/
theorem simplified_resultType_conjunction :
    let P : Parameters SignedFloat := Table.empty.insert "x" (.number 0)
    let s : Expr SignedFloat := .binary .and (.binary .less (.var "x") (.var "x")) (.truth false)
    s.Elementary P ∧ s.resultType P = .ok .boolean := by
  intro P s
  let less : Expr SignedFloat := .binary .less (.neg (.neg (.var "x"))) (.var "x")
  let t : Expr SignedFloat := .binary .and less (.unary .not (.truth true))
  have hx : (Expr.var "x").IsReal P := .node rfl rfl nofun
  have hless : less.OfType P .boolean :=
    ofType_binary_iff.2 ⟨rfl, .number, .number,
      ofType_neg_iff.2 ⟨rfl, ofType_neg_iff.2 ⟨rfl, hx⟩⟩, hx, rfl⟩
  have hnot : (Expr.unary .not (.truth true) : Expr SignedFloat).OfType P .boolean :=
    ofType_unary_iff.2 ⟨rfl, .boolean, ofType_truth true, rfl⟩
  have ht : t.OfType P .boolean :=
    ofType_binary_iff.2 ⟨rfl, .boolean, .boolean, hless, hnot, rfl⟩
  have htruth : ∀ b, (Expr.truth b : Expr SignedFloat).simplified = .ok (.truth b) :=
    fun b => simplified_eq_ok_iff.2 ⟨.truth b, rfl, .inl ⟨rfl, rfl⟩⟩
  have hneg : (Expr.neg (.var "x") : Expr SignedFloat).simplified = .ok (.neg (.var "x")) := by
    rw [Expr.neg, simplified_unary_eq (simplified_var "x")]
    rfl
  have hdouble : (Expr.neg (.neg (.var "x")) : Expr SignedFloat).simplified = .ok (.var "x") := by
    rw [Expr.neg, simplified_unary_eq hneg]
    exact simplified_var "x"
  have hless' : less.simplified = .ok (.binary .less (.var "x") (.var "x")) := by
    rw [simplified_binary_eq hdouble (simplified_var "x")]
    rfl
  have hnot' : (Expr.unary .not (.truth true) : Expr SignedFloat).simplified =
      .ok (.truth false) := by
    rw [simplified_unary_eq (htruth true)]
    exact htruth false
  have hs : t.simplified = .ok s := by
    rw [simplified_binary_eq hless' hnot']
    rfl
  have hkept := simplified_resultType ht.elementary hs
  exact ⟨hkept.1, hkept.2.trans ht.type⟩

end SymbolicAlgebra.Expr
