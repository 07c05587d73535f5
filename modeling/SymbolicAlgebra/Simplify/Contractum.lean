import SymbolicAlgebra.Simplify.Rules

set_option autoImplicit false

/-!
# What takes the place of a node

The tables hold many rules, but what these give is of few kinds: a literal, one of the
operands, an operand with its sign changed, or a literal and an operand joined by an operation
of arithmetic. The relations below list these kinds, with the shape of the operands where the
kind depends on it. Which rule has given an expression, and how it has come to the literal in
it, they leave open.

So what holds of every kind of expression that takes the place of a node is proved by cases on
these relations, without the tables.

What this module delivers:

- `Folded`, the literals that folding gives, and `folded_of_literals?`.
- `Contractum`, what the tables give for two operands, and `contractum_of_mem_rules`.
- `UnaryContractum`, what the rules give for one operand, and `contractum_of_unary?`.
- `binary?_eq_some` and `aggregate?_eq_some`, the other nodes.
- `reduce?_literals` and `reduce?_binary`, folding before the table of the operation.
- The tests of the rules read as equations: `eq_neg_of_negated?`, `eq_node_of_withLiteral?`,
  `coefficient_eq_or` and others.
-/

namespace SymbolicAlgebra.Rule

open SymbolicAlgebra.Expr Fold

variable {R : Type}

/-! ## The tests of the rules -/

/-- The operand of an opposite. -/
theorem eq_neg_of_negated? {e a : Expr R} (h : negated? e = some a) : e = .neg a := by
  unfold negated? at h
  split at h
  · rw [Option.some.inj h]
  · cases h

theorem eq_number_of_asNumber? {e : Expr R} {v : R} (h : e.asNumber? = some v) :
    e = .number v := by
  unfold asNumber? at h
  split at h
  · rw [Option.some.inj h]
  · cases h

/-- The node of the operation, the literal and the other operand. -/
def WithLiteral.node (i : WithLiteral R) : Expr R :=
  if i.first then .binary i.op (.number i.literal) i.other
  else .binary i.op i.other (.number i.literal)

/-- The operation, the literal and the other operand of a node are those of the node. -/
theorem eq_node_of_withLiteral? {e : Expr R} {i : WithLiteral R} (h : withLiteral? e = some i) :
    e = i.node := by
  unfold withLiteral? at h
  split at h
  · split at h
    · rename_i hl _
      rw [← Option.some.inj h, eq_number_of_asNumber? hl]
      rfl
    · rename_i _ hr
      rw [← Option.some.inj h, eq_number_of_asNumber? hr]
      rfl
    · cases h
  · cases h

/-- A condition that lets an expression through holds. -/
theorem eq_of_exprIf {p : Bool} {a e : Expr R} (h : exprIf p a = some e) : p = true ∧ a = e := by
  unfold exprIf at h
  split at h
  · exact ⟨‹_›, Option.some.inj h⟩
  · cases h

/-- What the first matching rule of a table gives, some rule of the table gives. -/
theorem exists_of_firstMatch {rules : List (Binary R)} {l r e : Expr R}
    (h : firstMatch rules l r = .ok (some e)) : ∃ rule ∈ rules, rule l r = .ok (some e) := by
  induction rules with
  | nil => cases h
  | cons rule rules ih =>
    rw [firstMatch] at h
    split at h
    · cases h
    · rename_i e' he
      exact ⟨rule, List.mem_cons_self, he.trans h⟩
    · obtain ⟨rule', hm, he⟩ := ih h
      exact ⟨rule', List.mem_cons_of_mem _ hm, he⟩

variable [Scalar R]

/-- A negative literal is a literal below zero. -/
theorem eq_number_of_negativeLiteral? {e : Expr R} {v : R} (h : negativeLiteral? e = some v) :
    e = .number v ∧ Scalar.isNeg v = true := by
  unfold negativeLiteral? at h
  split at h
  · obtain ⟨hv, hw⟩ := Option.ite_none_right_eq_some.1 h
    obtain rfl := Option.some.inj hw
    exact ⟨rfl, hv⟩
  · cases h

/-- The literal factor and what it multiplies, of a product with one and of anything else. -/
theorem coefficient_eq_or (e : Expr R) :
    (∃ c x, e = .mul (.number c) x ∧ coefficient e = (c, x)) ∨ coefficient e = (1, e) := by
  unfold coefficient
  split
  · exact .inl ⟨_, _, rfl, rfl⟩
  · exact .inr rfl

/-- A quotient of literals stands in the expression that is built around it. -/
theorem exists_of_divide {a b : R} {f : R → Expr R} {e : Expr R}
    (h : (divide a b).map (fun v => some (f v)) = .ok (some e)) : ∃ v, e = f v := by
  obtain ⟨v, -, hv⟩ := map_eq_ok_iff.1 h
  exact ⟨v, (Option.some.inj hv).symm⟩

/-! ## Folding -/

omit [Scalar R] in
/-- The literals that folding gives. -/
inductive Folded : Expr R → Prop where
  /-- A real literal. -/
  | number (v : R) : Folded (.number v)
  /-- A complex literal. -/
  | complex (z : ComplexNumber R) : Folded (.complex z)
  /-- A truth value. -/
  | truth (b : Bool) : Folded (.truth b)

/-- Folding real literals gives a literal. -/
theorem folded_of_real? {op : BinaryOp} {a b : R} {e : Expr R}
    (h : real? op a b = .ok (some e)) : Folded e := by
  have hnumber : ∀ x : Except SimplifyError R, x.map (fun v => some (Expr.number v)) =
      .ok (some e) → Folded e := by
    intro x hx
    obtain ⟨v, -, hv⟩ := map_eq_ok_iff.1 hx
    rw [← Option.some.inj hv]
    exact .number v
  cases op with
  | div | root | mod => exact hnumber _ h
  | bitAnd | bitOr | xor | nand | nor =>
    obtain ⟨v, -, rfl⟩ := Option.map_eq_some_iff.1 (Except.ok.inj h)
    exact .number v
  | less | lessEqual | greater | greaterEqual | equal | notEqual =>
    rw [← Option.some.inj (Except.ok.inj h)]
    exact .truth _
  | add | sub | mul | pow | log | round =>
    rw [← Option.some.inj (Except.ok.inj h)]
    exact .number _
  | _ => cases h

/-- Folding complex literals gives a literal. -/
theorem folded_of_complex? {op : BinaryOp} {a b : ComplexNumber R} {e : Expr R}
    (h : complex? op a b = .ok (some e)) : Folded e := by
  cases op with
  | div =>
    obtain ⟨d, hd, he⟩ := map_eq_ok_iff.1 h
    rw [← Option.some.inj he]
    unfold divideComplex at hd
    split at hd
    · split at hd
      · rw [← Except.ok.inj hd]
        exact .number _
      · cases hd
    · rw [← Except.ok.inj hd]
      exact .complex _
  | equal | notEqual =>
    rw [← Option.some.inj (Except.ok.inj h)]
    exact .truth _
  | add | sub | mul | pow =>
    rw [← Option.some.inj (Except.ok.inj h)]
    exact .complex _
  | _ => cases h

/-- Folding gives a literal. -/
theorem folded_of_literals? {op : BinaryOp} {l r e : Expr R}
    (h : literals? op l r = .ok (some e)) : Folded e := by
  unfold literals? at h
  split at h
  · exact folded_of_real? h
  · obtain ⟨b, -, rfl⟩ := Option.map_eq_some_iff.1 (Except.ok.inj h)
    exact .truth b
  · exact folded_of_complex? h
  · exact folded_of_complex? h
  · exact folded_of_complex? h
  · cases h

/-! ## Two operands -/

omit [Scalar R] in
/-- A literal and the expression, joined by an operation of arithmetic. A product has the
literal in front, a sum has it behind. -/
inductive JoinsLiteral (x : Expr R) : Expr R → Prop where
  /-- The literal comes first. -/
  | first {op : BinaryOp} (hop : op = .sub ∨ op = .mul ∨ op = .div) (v : R) :
    JoinsLiteral x (.binary op (.number v) x)
  /-- The literal comes last. -/
  | last {op : BinaryOp} (hop : op = .add ∨ op = .sub ∨ op = .div) (v : R) :
    JoinsLiteral x (.binary op x (.number v))

/-- What the tables give in the place of an operation on two operands. -/
inductive Contractum : BinaryOp → Expr R → Expr R → Expr R → Prop where
  /-- A literal, zero or one, as of `x - x`, `x * 0`, `x / x` and `1 ^ x`. -/
  | constant (op : BinaryOp) (l r : Expr R) {v : R} (hv : v = 0 ∨ v = 1) :
    Contractum op l r (.number v)
  /-- The first operand, as of `x + 0`, `x / 1` and `x ^ 1`. -/
  | first (op : BinaryOp) {l r : Expr R} (h : r.isNumber 0 = true ∨ r.isNumber 1 = true) :
    Contractum op l r l
  /-- The second operand, as of `0 + x` and `1 * x`. -/
  | second (op : BinaryOp) {l r : Expr R} (h : l.isNumber 0 = true ∨ l.isNumber 1 = true) :
    Contractum op l r r
  /-- The opposite of the second operand, of `0 - x` and `-1 * x`. -/
  | opposite (op : BinaryOp) {l r : Expr R}
    (h : l.isNumber 0 = true ∨ l.isNumber (-1) = true) : Contractum op l r (.neg r)
  /-- Of `-a + r`. -/
  | oppositePlus (a r : Expr R) : Contractum .add (.neg a) r (.sub r a)
  /-- Of `l + -b`. -/
  | plusOpposite (l b : Expr R) : Contractum .add l (.neg b) (.sub l b)
  /-- Of `l - -b`. -/
  | minusOpposite (l b : Expr R) : Contractum .sub l (.neg b) (.add l b)
  /-- Of a sum with a negative literal in front. -/
  | negativePlus {v : R} (hv : Scalar.isNeg v = true) (r : Expr R) :
    Contractum .add (.number v) r (.sub r (.number (-v)))
  /-- Of a sum with a negative literal behind. -/
  | plusNegative (l : Expr R) {v : R} (hv : Scalar.isNeg v = true) :
    Contractum .add l (.number v) (.sub l (.number (-v)))
  /-- Of a difference with a negative literal behind. -/
  | minusNegative (l : Expr R) {v : R} (hv : Scalar.isNeg v = true) :
    Contractum .sub l (.number v) (.add l (.number (-v)))
  /-- Of terms that differ in their literal factors only. -/
  | likeTerms {op : BinaryOp} (hop : op = .add ∨ op = .sub) {l r : Expr R}
    (hsame : (coefficient l).2.same (coefficient r).2 = true)
    (hliteral : (coefficient l).2.isScalarLiteral = false) (v : R) :
    Contractum op l r (.mul (.number v) (coefficient l).2)
  /-- Of a product or quotient of two opposites. -/
  | bothOpposite {op : BinaryOp} (hop : op = .mul ∨ op = .div) (a b : Expr R) :
    Contractum op (.neg a) (.neg b) (.binary op a b)
  /-- Of a product with a literal behind. -/
  | literalFirst {l r : Expr R} (hr : r.isScalarLiteral = true)
    (hl : l.isScalarLiteral = false) : Contractum .mul l r (.mul r l)
  /-- Of an operation on a node with a literal operand and a literal. -/
  | innerFirst (op : BinaryOp) {l e : Expr R} {i : WithLiteral R} (d : R)
    (hl : withLiteral? l = some i) (he : JoinsLiteral i.other e) :
    Contractum op l (.number d) e
  /-- Of an operation on a literal and a node with a literal operand. -/
  | innerLast (op : BinaryOp) {r e : Expr R} {i : WithLiteral R} (d : R)
    (hr : withLiteral? r = some i) (he : JoinsLiteral i.other e) :
    Contractum op (.number d) r e

section Tables

variable {rule : Binary R} {l r e : Expr R}

/-- Joining a literal and the literal of a sum or difference. -/
theorem joinsLiteral_of_regroup (d : R) {f : WithLiteral R → Option (Expr R)}
    (hf : f ∈ [regroupSum d, regroupMinus d, regroupFrom d]) {i : WithLiteral R}
    (h : f i = some e) : JoinsLiteral i.other e := by
  simp only [List.mem_cons, List.not_mem_nil, or_false] at hf
  rcases hf with rfl | rfl | rfl
  · unfold regroupSum at h
    split at h <;> cases h
    · exact .last (.inl rfl) _
    · exact .last (.inl rfl) _
    · exact .first (.inl rfl) _
  · unfold regroupMinus at h
    split at h <;> cases h
    · exact .last (.inl rfl) _
    · exact .last (.inr (.inl rfl)) _
    · exact .first (.inl rfl) _
  · unfold regroupFrom at h
    split at h <;> cases h
    · exact .first (.inl rfl) _
    · exact .first (.inl rfl) _
    · exact .last (.inl rfl) _

/-- Joining a literal and the literal of a product or quotient. -/
theorem joinsLiteral_of_regroupFactor (d : R) {f : WithLiteral R → Outcome R}
    (hf : f ∈ [regroupTimes d, regroupOver d, regroupUnder d]) {i : WithLiteral R}
    (h : f i = .ok (some e)) : JoinsLiteral i.other e := by
  have hmul : ∀ v, JoinsLiteral i.other (.mul (.number v) i.other) := .first (.inr (.inl rfl))
  have hdiv : ∀ v, JoinsLiteral i.other (.div (.number v) i.other) := .first (.inr (.inr rfl))
  simp only [List.mem_cons, List.not_mem_nil, or_false] at hf
  rcases hf with rfl | rfl | rfl
  · unfold regroupTimes at h
    split at h
    · cases h
      exact hmul _
    · obtain ⟨v, rfl⟩ := exists_of_divide h
      exact hmul v
    · cases h
      exact hdiv _
    · cases h
  · unfold regroupOver at h
    split at h
    · obtain ⟨v, rfl⟩ := exists_of_divide h
      exact hmul v
    · cases h
      exact .last (.inr (.inr rfl)) _
    · obtain ⟨v, rfl⟩ := exists_of_divide h
      exact hdiv v
    · cases h
  · unfold regroupUnder at h
    split at h
    · obtain ⟨v, rfl⟩ := exists_of_divide h
      exact hdiv v
    · cases h
      exact hdiv _
    · obtain ⟨v, rfl⟩ := exists_of_divide h
      exact hmul v
    · cases h

/-- Like terms, joined in a sum or a difference. -/
theorem contractum_of_likeTerms {op : BinaryOp} (hop : op = .add ∨ op = .sub)
    {f : R → R → R} (h : likeTerms f l r = some e) : Contractum op l r e := by
  simp only [likeTerms] at h
  obtain ⟨hc, rfl⟩ := eq_of_exprIf h
  obtain ⟨hsame, hliteral⟩ := Bool.and_eq_true_iff.1 hc
  exact .likeTerms hop hsame (Bool.not_eq_true' _ ▸ hliteral) _

/-- Two opposites that lose their signs. -/
theorem contractum_of_bothOpposite {op : BinaryOp} (hop : op = .mul ∨ op = .div)
    (h : bothOpposite op l r = some e) : Contractum op l r e := by
  unfold bothOpposite at h
  split at h
  · rename_i a b ha hb
    rw [← Option.some.inj h, eq_neg_of_negated? ha, eq_neg_of_negated? hb]
    exact .bothOpposite hop a b
  · cases h

theorem contractum_of_sumOfLiteral (h : sumOfLiteral l r = some e) : Contractum .add l r e := by
  unfold sumOfLiteral at h
  split at h
  · rename_i d _ hr
    obtain ⟨i, hi, hg⟩ := Option.bind_eq_some_iff.1 h
    rw [eq_number_of_asNumber? hr]
    exact .innerFirst .add d hi (joinsLiteral_of_regroup d (by simp) hg)
  · rename_i d hl _
    obtain ⟨i, hi, hg⟩ := Option.bind_eq_some_iff.1 h
    rw [eq_number_of_asNumber? hl]
    exact .innerLast .add d hi (joinsLiteral_of_regroup d (by simp) hg)
  · cases h

theorem contractum_of_minusLiteral (h : minusLiteral l r = some e) : Contractum .sub l r e := by
  unfold minusLiteral at h
  split at h
  · rename_i d hr
    obtain ⟨i, hi, hg⟩ := Option.bind_eq_some_iff.1 h
    rw [eq_number_of_asNumber? hr]
    exact .innerFirst .sub d hi (joinsLiteral_of_regroup d (by simp) hg)
  · cases h

theorem contractum_of_literalMinus (h : literalMinus l r = some e) : Contractum .sub l r e := by
  unfold literalMinus at h
  split at h
  · rename_i d hl
    obtain ⟨i, hi, hg⟩ := Option.bind_eq_some_iff.1 h
    rw [eq_number_of_asNumber? hl]
    exact .innerLast .sub d hi (joinsLiteral_of_regroup d (by simp) hg)
  · cases h

theorem contractum_of_literalTimes (h : literalTimes l r = .ok (some e)) :
    Contractum .mul l r e := by
  unfold literalTimes at h
  split at h
  · rename_i c i hl hr
    rw [eq_number_of_asNumber? hl]
    exact .innerLast .mul c hr (joinsLiteral_of_regroupFactor c (by simp) h)
  · cases h

theorem contractum_of_overLiteral (h : overLiteral l r = .ok (some e)) :
    Contractum .div l r e := by
  unfold overLiteral at h
  split at h
  · rename_i d i hr hl
    rw [eq_number_of_asNumber? hr]
    exact .innerFirst .div d hl (joinsLiteral_of_regroupFactor d (by simp) h)
  · cases h

theorem contractum_of_literalOver (h : literalOver l r = .ok (some e)) :
    Contractum .div l r e := by
  unfold literalOver at h
  split at h
  · rename_i c i hl hr
    rw [eq_number_of_asNumber? hl]
    exact .innerLast .div c hr (joinsLiteral_of_regroupFactor c (by simp) h)
  · cases h

theorem contractum_of_mem_sumRules (hrule : rule ∈ sumRules)
    (h : rule l r = .ok (some e)) : Contractum .add l r e := by
  simp only [sumRules, List.mem_cons, List.not_mem_nil, or_false] at hrule
  rcases hrule with rfl | rfl | rfl | rfl | rfl | rfl | rfl | rfl <;> replace h := Except.ok.inj h
  · obtain ⟨hz, rfl⟩ := eq_of_exprIf h
    exact .first .add (.inl hz)
  · obtain ⟨hz, rfl⟩ := eq_of_exprIf h
    exact .second .add (.inl hz)
  · obtain ⟨a, ha, rfl⟩ := Option.map_eq_some_iff.1 h
    rw [eq_neg_of_negated? ha]
    exact .oppositePlus a r
  · obtain ⟨b, hb, rfl⟩ := Option.map_eq_some_iff.1 h
    rw [eq_neg_of_negated? hb]
    exact .plusOpposite l b
  · obtain ⟨v, hv, rfl⟩ := Option.map_eq_some_iff.1 h
    obtain ⟨rfl, hneg⟩ := eq_number_of_negativeLiteral? hv
    exact .plusNegative l hneg
  · obtain ⟨v, hv, rfl⟩ := Option.map_eq_some_iff.1 h
    obtain ⟨rfl, hneg⟩ := eq_number_of_negativeLiteral? hv
    exact .negativePlus hneg r
  · exact contractum_of_likeTerms (.inl rfl) h
  · exact contractum_of_sumOfLiteral h

theorem contractum_of_mem_differenceRules (hrule : rule ∈ differenceRules)
    (h : rule l r = .ok (some e)) : Contractum .sub l r e := by
  simp only [differenceRules, List.mem_cons, List.not_mem_nil, or_false] at hrule
  rcases hrule with rfl | rfl | rfl | rfl | rfl | rfl | rfl | rfl <;> replace h := Except.ok.inj h
  · obtain ⟨hz, rfl⟩ := eq_of_exprIf h
    exact .first .sub (.inl hz)
  · obtain ⟨-, rfl⟩ := eq_of_exprIf h
    exact .constant .sub l r (.inl rfl)
  · obtain ⟨b, hb, rfl⟩ := Option.map_eq_some_iff.1 h
    rw [eq_neg_of_negated? hb]
    exact .minusOpposite l b
  · obtain ⟨hz, rfl⟩ := eq_of_exprIf h
    exact .opposite .sub (.inl hz)
  · obtain ⟨v, hv, rfl⟩ := Option.map_eq_some_iff.1 h
    obtain ⟨rfl, hneg⟩ := eq_number_of_negativeLiteral? hv
    exact .minusNegative l hneg
  · exact contractum_of_likeTerms (.inr rfl) h
  · exact contractum_of_minusLiteral h
  · exact contractum_of_literalMinus h

theorem contractum_of_mem_productRules (hrule : rule ∈ productRules)
    (h : rule l r = .ok (some e)) : Contractum .mul l r e := by
  simp only [productRules, List.mem_cons, List.not_mem_nil, or_false] at hrule
  rcases hrule with rfl | rfl | rfl | rfl | rfl | rfl | rfl
  · obtain ⟨-, rfl⟩ := eq_of_exprIf (Except.ok.inj h)
    exact .constant .mul l r (.inl rfl)
  · obtain ⟨hz, rfl⟩ := eq_of_exprIf (Except.ok.inj h)
    exact .first .mul (.inr hz)
  · obtain ⟨hz, rfl⟩ := eq_of_exprIf (Except.ok.inj h)
    exact .second .mul (.inr hz)
  · exact contractum_of_bothOpposite (.inl rfl) (Except.ok.inj h)
  · obtain ⟨hz, rfl⟩ := eq_of_exprIf (Except.ok.inj h)
    exact .opposite .mul (.inr hz)
  · obtain ⟨hc, rfl⟩ := eq_of_exprIf (Except.ok.inj h)
    obtain ⟨hr, hl⟩ := Bool.and_eq_true_iff.1 hc
    exact .literalFirst hr (Bool.not_eq_true' _ ▸ hl)
  · exact contractum_of_literalTimes h

theorem contractum_of_mem_quotientRules (hrule : rule ∈ quotientRules)
    (h : rule l r = .ok (some e)) : Contractum .div l r e := by
  simp only [quotientRules, List.mem_cons, List.not_mem_nil, or_false] at hrule
  rcases hrule with rfl | rfl | rfl | rfl | rfl | rfl | rfl
  · unfold overZero at h
    split at h <;> cases h
  · obtain ⟨hz, rfl⟩ := eq_of_exprIf (Except.ok.inj h)
    exact .first .div (.inr hz)
  · obtain ⟨-, rfl⟩ := eq_of_exprIf (Except.ok.inj h)
    exact .constant .div l r (.inl rfl)
  · obtain ⟨-, rfl⟩ := eq_of_exprIf (Except.ok.inj h)
    exact .constant .div l r (.inr rfl)
  · exact contractum_of_bothOpposite (.inr rfl) (Except.ok.inj h)
  · exact contractum_of_overLiteral h
  · exact contractum_of_literalOver h

theorem contractum_of_mem_powerRules (hrule : rule ∈ powerRules)
    (h : rule l r = .ok (some e)) : Contractum .pow l r e := by
  simp only [powerRules, List.mem_cons, List.not_mem_nil, or_false] at hrule
  rcases hrule with rfl | rfl | rfl
  · obtain ⟨-, rfl⟩ := eq_of_exprIf (Except.ok.inj h)
    exact .constant .pow l r (.inr rfl)
  · obtain ⟨hz, rfl⟩ := eq_of_exprIf (Except.ok.inj h)
    exact .first .pow (.inr hz)
  · obtain ⟨-, rfl⟩ := eq_of_exprIf (Except.ok.inj h)
    exact .constant .pow l r (.inr rfl)

/-- Whatever the table of an operation gives is of one of the kinds. -/
theorem contractum_of_mem_rules {op : BinaryOp} (hrule : rule ∈ rules op)
    (h : rule l r = .ok (some e)) : Contractum op l r e := by
  cases op with
  | add => exact contractum_of_mem_sumRules hrule h
  | sub => exact contractum_of_mem_differenceRules hrule h
  | mul => exact contractum_of_mem_productRules hrule h
  | div => exact contractum_of_mem_quotientRules hrule h
  | pow => exact contractum_of_mem_powerRules hrule h
  | root =>
    obtain rfl := List.mem_singleton.1 hrule
    obtain ⟨hz, rfl⟩ := eq_of_exprIf (Except.ok.inj h)
    exact .first .root (.inr hz)
  | log =>
    obtain rfl := List.mem_singleton.1 hrule
    obtain ⟨-, rfl⟩ := eq_of_exprIf (Except.ok.inj h)
    exact .constant .log l r (.inr rfl)
  | _ => cases hrule

/-- In the place of an operation on two operands comes a folded literal or what the table of
the operation gives. -/
theorem binary?_eq_some {op : BinaryOp} (h : binary? op l r = .ok (some e)) :
    literals? op l r = .ok (some e) ∨ ∃ rule ∈ rules op, rule l r = .ok (some e) := by
  obtain ⟨rule, hm, hr⟩ := exists_of_firstMatch h
  rcases List.mem_cons.1 hm with rfl | hm
  · exact .inl hr
  · exact .inr ⟨rule, hm, hr⟩

/-- Where two operands fold, or where folding fails, no other rule is looked at. -/
theorem reduce?_literals {op : BinaryOp} (h : literals? op l r ≠ .ok none) :
    reduce? (.binary op l r) = literals? op l r := by
  rw [reduce?, binary?, firstMatch]
  cases hfold : literals? op l r with
  | error x => rfl
  | ok folded =>
    cases folded with
    | none => exact absurd hfold h
    | some e => rfl

/-- Where two operands are not folded, the table of the operation is looked up. -/
theorem reduce?_binary {op : BinaryOp} (h : literals? op l r = .ok none) :
    reduce? (.binary op l r) = firstMatch (rules op) l r := by
  rw [reduce?, binary?, firstMatch, h]

end Tables

/-! ## Other nodes -/

/-- What the rules give in the place of an operation on one operand. -/
inductive UnaryContractum : UnaryOp → Expr R → Expr R → Prop where
  /-- A real literal with the other sign. -/
  | negateNumber (v : R) : UnaryContractum .negate (.number v) (.number (-v))
  /-- A complex literal with the other sign. -/
  | negateComplex (z : ComplexNumber R) : UnaryContractum .negate (.complex z) (.complex z.neg)
  /-- A quantity with the other sign. -/
  | negateQuantity (q : Quantity R) : UnaryContractum .negate (.quantity q) (.quantity q.neg)
  /-- The operand of an opposite. -/
  | negateNegate (e : Expr R) : UnaryContractum .negate (.neg e) e
  /-- The other truth value. -/
  | notTruth (b : Bool) : UnaryContractum .not (.truth b) (.truth !b)
  /-- The operand of the function that is undone. -/
  | undone {op inner : UnaryOp} (h : op.inverse? = some inner) (e : Expr R) :
    UnaryContractum op (.unary inner e) e
  /-- One, of the logarithm of the base. -/
  | logOfBase {op : UnaryOp} (h : op = .ln ∨ op = .lg ∨ op = .lb) (e : Expr R) :
    UnaryContractum op e .one

section Nodes

variable {op : UnaryOp} {u e : Expr R}

theorem contractum_of_negateLiteral? (h : negateLiteral? u = some e) :
    UnaryContractum .negate u e := by
  unfold negateLiteral? at h
  split at h <;> cases h
  · exact .negateNumber _
  · exact .negateComplex _
  · exact .negateQuantity _

theorem contractum_of_undone? (h : undone? op u = some e) : UnaryContractum op u e := by
  unfold undone? at h
  split at h
  · obtain ⟨hinv, he⟩ := Option.ite_none_right_eq_some.1 h
    obtain rfl := Option.some.inj he
    exact .undone hinv _
  · cases h

theorem contractum_of_logOfBase? (h : logOfBase? op u = some e) : UnaryContractum op u e := by
  unfold logOfBase? at h
  split at h
  · rw [← Option.some.inj (Option.ite_none_right_eq_some.1 h).2]
    exact .logOfBase (.inl rfl) _
  · rw [← Option.some.inj (Option.ite_none_right_eq_some.1 h).2]
    exact .logOfBase (.inr (.inl rfl)) _
  · rw [← Option.some.inj (Option.ite_none_right_eq_some.1 h).2]
    exact .logOfBase (.inr (.inr rfl)) _
  · cases h

/-- Whatever the rules give for one operand is of one of the kinds. -/
theorem contractum_of_unary? (h : unary? op u = some e) : UnaryContractum op u e := by
  unfold unary? at h
  split at h
  · rcases Option.or_eq_some_iff.1 h with h | ⟨-, h⟩
    · exact contractum_of_negateLiteral? h
    · rw [eq_neg_of_negated? h]
      exact .negateNegate e
  · rw [← Option.some.inj h]
    exact .notTruth _
  · rcases Option.or_eq_some_iff.1 h with h | ⟨-, h⟩
    · exact contractum_of_undone? h
    · exact contractum_of_logOfBase? h

/-- In the place of an aggregate comes a real literal. -/
theorem aggregate?_eq_some {op : Aggregate} {args : List (Expr R)}
    (h : aggregate? op args = some e) : ∃ v, e = .number v := by
  unfold aggregate? at h
  split at h
  · obtain ⟨v, -, hv⟩ := Option.map_eq_some_iff.1 h
    exact ⟨v, hv.symm⟩
  · cases h

end Nodes

end SymbolicAlgebra.Rule
