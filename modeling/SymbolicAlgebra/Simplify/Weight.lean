import SymbolicAlgebra.Simplify.Contractum

set_option autoImplicit false

/-!
# The weight of an expression, which every rule decreases

Simplification applies rules to its own output, so it ends only if no chain of rules is
endless. The weight below (`Expr.weight`) is a number that every rule makes smaller: what takes the
place of a node is lighter than the node (`Rule.weight_reduce?_lt`), and lighter subexpressions
never make a node heavier (`weight_withChildren_le`).

Size alone does not do, for some rules keep it. A negative literal weighs more than another
one, so that moving a sign out of a literal counts; a sum weighs more than a product, so
that joining like terms counts; and the left operand of a product weighs twice, so that
moving a literal to the left counts, a literal being lighter than anything else.
-/

namespace SymbolicAlgebra

namespace Expr

variable {R : Type} [Scalar R]

/-! ## The weight -/

/-- The weight of a real literal. -/
def literalWeight (v : R) : Nat := if Scalar.isNeg v then 2 else 1

mutual
/-- The weight of an expression. -/
@[simp] def weight : Expr R → Nat
  | .number v => literalWeight v
  | .complex _ => 1
  | .truth _ | .quantity _ | .var _ => 3
  | .unary _ e => 2 + weight e
  | .binary op l r =>
    match op with
    | .mul => 3 + (2 * weight l + weight r)
    | .add | .sub => 5 + (weight l + weight r)
    | _ => 3 + (weight l + weight r)
  | .rational n d => 3 + (weight n + weight d)
  | .undefine e | .increment e | .decrement e | .simplify e | .derivative e _ => 3 + weight e
  | .aggregate _ args | .call _ args => 3 + weightList args
  | .vector es => 3 + weightList es
  | .matrix rows => 3 + weightList rows
  | .define t v | .update _ t v => 3 + (weight t + weight v)
  | .ifThen c t => 3 + (weight c + weight t)
  | .ifThenElse c t e => 3 + (weight c + (weight t + weight e))
  | .forLoop i c s b => 3 + (weight i + (weight c + (weight s + weight b)))
  | .whileLoop c b => 3 + (weight c + weight b)
/-- The weight of a list of expressions. -/
@[simp] def weightList : List (Expr R) → Nat
  | [] => 0
  | e :: es => weight e + weightList es
end

theorem literalWeight_pos (v : R) : 0 < literalWeight v := by
  unfold literalWeight; split <;> decide

theorem literalWeight_le (v : R) : literalWeight v ≤ 2 := by
  unfold literalWeight; split <;> decide

/-- A negative literal is heavier than its opposite. -/
theorem literalWeight_neg_lt {v : R} (h : Scalar.isNeg v = true) :
    literalWeight (-v) < literalWeight v := by
  simp [literalWeight, h, Scalar.isNeg_neg h]

/-- Nothing is without weight. -/
theorem weight_pos (e : Expr R) : 0 < e.weight := by
  cases e <;> simp only [weight] <;>
    first
    | exact literalWeight_pos _
    | (split <;> omega)
    | omega

/-- What is no real or complex literal is heavier than one. -/
theorem three_le_weight {e : Expr R} (h : e.isScalarLiteral = false) : 3 ≤ e.weight := by
  cases e <;> simp only [isScalarLiteral, Bool.true_eq_false] at h <;> simp only [weight] <;>
    first
    | (split <;> omega)
    | (have hp := weight_pos ‹Expr R›; omega)
    | omega

/-- A real or complex literal is light. -/
theorem weight_le_two {e : Expr R} (h : e.isScalarLiteral = true) : e.weight ≤ 2 := by
  cases e <;> simp only [isScalarLiteral, Bool.false_eq_true] at h <;> simp only [weight]
  · exact literalWeight_le _
  · decide

/-! ## Subexpressions -/

/-- The direct subexpressions together are lighter than the node. -/
theorem weightList_children_lt (e : Expr R) : weightList e.children < e.weight := by
  cases e <;> simp only [weight, children, weightList] <;>
    first
    | exact literalWeight_pos _
    | (split <;> omega)
    | omega

/-- Members of the first list are not heavier than their partners in the second one. -/
def NotHeavier : List (Expr R) → List (Expr R) → Prop
  | [], [] => True
  | s :: ss, e :: es => s.weight ≤ e.weight ∧ NotHeavier ss es
  | _, _ => False

theorem NotHeavier.weightList_le {ss es : List (Expr R)} (h : NotHeavier ss es) :
    weightList ss ≤ weightList es := by
  induction ss generalizing es with
  | nil => cases es <;> simp_all [NotHeavier]
  | cons s ss ih =>
    cases es with
    | nil => simp [NotHeavier] at h
    | cons e es =>
      have := ih h.2
      have := h.1
      simp only [weightList]
      omega

theorem notHeavier_nil {ss : List (Expr R)} (h : NotHeavier ss []) : ss = [] := by
  match ss, h with
  | [], _ => rfl

theorem notHeavier_one {ss : List (Expr R)} {a : Expr R} (h : NotHeavier ss [a]) :
    ∃ s, ss = [s] ∧ s.weight ≤ a.weight := by
  match ss, h with
  | [s], h => exact ⟨s, rfl, h.1⟩
  | _ :: _ :: _, h => exact h.2.elim

theorem notHeavier_cons {ss es : List (Expr R)} {a : Expr R} (h : NotHeavier ss (a :: es)) :
    ∃ s ss', ss = s :: ss' ∧ s.weight ≤ a.weight ∧ NotHeavier ss' es := by
  match ss, h with
  | s :: ss', h => exact ⟨s, ss', rfl, h.1, h.2⟩

/-- What lighter subexpressions lose in weight, the node loses at least. -/
theorem weight_withChildren_add_le {e : Expr R} {cs : List (Expr R)}
    (h : NotHeavier cs e.children) :
    (e.withChildren cs).weight + weightList e.children ≤ e.weight + weightList cs := by
  cases e <;> simp only [children] at h
  case aggregate | call | vector | matrix =>
    simp only [withChildren, weight, children]
    omega
  case unary | undefine | increment | decrement | simplify | derivative =>
    obtain ⟨s, rfl, hs⟩ := notHeavier_one h
    simp only [withChildren, weight, children, weightList]
    omega
  case binary op l r =>
    obtain ⟨s, _, rfl, hs, h⟩ := notHeavier_cons h
    obtain ⟨t, rfl, ht⟩ := notHeavier_one h
    simp only [withChildren, weight, children, weightList]
    split <;> omega
  case rational | define | update | ifThen | whileLoop =>
    obtain ⟨s, _, rfl, hs, h⟩ := notHeavier_cons h
    obtain ⟨t, rfl, ht⟩ := notHeavier_one h
    simp only [withChildren, weight, children, weightList]
    omega
  case ifThenElse =>
    obtain ⟨s, _, rfl, hs, h⟩ := notHeavier_cons h
    obtain ⟨t, _, rfl, ht, h⟩ := notHeavier_cons h
    obtain ⟨u, rfl, hu⟩ := notHeavier_one h
    simp only [withChildren, weight, children, weightList]
    omega
  case forLoop =>
    obtain ⟨s, _, rfl, hs, h⟩ := notHeavier_cons h
    obtain ⟨t, _, rfl, ht, h⟩ := notHeavier_cons h
    obtain ⟨u, _, rfl, hu, h⟩ := notHeavier_cons h
    obtain ⟨v, rfl, hv⟩ := notHeavier_one h
    simp only [withChildren, weight, children, weightList]
    omega
  all_goals
    obtain rfl := notHeavier_nil h
    exact Nat.le_refl _

/-- A node with lighter subexpressions is not heavier. -/
theorem weight_withChildren_le {e : Expr R} {cs : List (Expr R)}
    (h : NotHeavier cs e.children) : (e.withChildren cs).weight ≤ e.weight := by
  have hadd := weight_withChildren_add_le h
  have hle := h.weightList_le
  omega

end Expr

/-! ## The rules decrease the weight -/

namespace Rule

open SymbolicAlgebra.Expr Fold

variable {R : Type} [Scalar R]

/-! ### Operands and their weights -/

/-- A binary node weighs at least three more than its operands. -/
theorem add_le_weight_binary (op : BinaryOp) (l r : Expr R) :
    3 + (l.weight + r.weight) ≤ (Expr.binary op l r).weight := by
  simp only [weight]
  split <;> omega

theorem weight_add (l r : Expr R) : (Expr.add l r).weight = 5 + (l.weight + r.weight) := rfl

theorem weight_sub (l r : Expr R) : (Expr.sub l r).weight = 5 + (l.weight + r.weight) := rfl

theorem weight_mul (l r : Expr R) :
    (Expr.mul l r).weight = 3 + (2 * l.weight + r.weight) := rfl

theorem weight_neg (e : Expr R) : (Expr.neg e).weight = 2 + e.weight := rfl

theorem weight_number_le (v : R) : (Expr.number v).weight ≤ 2 := literalWeight_le v

theorem weight_neg_number_lt {v : R} (h : Scalar.isNeg v = true) :
    (Expr.number (-v)).weight < (Expr.number v).weight := literalWeight_neg_lt h

theorem weight_coefficient_le (e : Expr R) : (coefficient e).2.weight ≤ e.weight := by
  rcases coefficient_eq_or e with ⟨c, x, rfl, hc⟩ | hc
  · rw [hc, weight_mul]
    dsimp only
    omega
  · exact Nat.le_of_eq (congrArg (·.2.weight) hc)

/-- A node with a literal weighs four more than the other operand. -/
theorem weight_other_le {e : Expr R} {i : WithLiteral R} (h : withLiteral? e = some i) :
    4 + i.other.weight ≤ e.weight := by
  have hliteral := weight_pos (.number i.literal)
  rw [eq_node_of_withLiteral? h, WithLiteral.node]
  split
  · have := add_le_weight_binary i.op (.number i.literal) i.other
    omega
  · have := add_le_weight_binary i.op i.other (.number i.literal)
    omega

theorem isScalarLiteral_same {x y : Expr R} (h : x.same y = true)
    (hx : x.isScalarLiteral = false) : y.isScalarLiteral = false := by
  rw [same_eq, Bool.and_eq_true] at h
  have := h.1
  cases x <;> cases y <;> simp_all [sameLabel, isScalarLiteral]

/-! ### What takes the place of a node -/

/-- A folded literal is as light as a truth value. -/
theorem weight_folded_le {e : Expr R} (h : Folded e) : e.weight ≤ 3 := by
  cases h with
  | number v => exact Nat.le_trans (weight_number_le v) (by decide)
  | complex | truth => simp [weight]

/-- Arithmetic on a literal and an expression weighs at most seven more than the
expression. -/
theorem weight_joinsLiteral_le {x e : Expr R} (h : JoinsLiteral x e) :
    e.weight ≤ 7 + x.weight := by
  cases h with
  | first hop v =>
    have := weight_number_le v
    rcases hop with rfl | rfl | rfl <;> simp only [weight] at this ⊢ <;> omega
  | last hop v =>
    have := weight_number_le v
    rcases hop with rfl | rfl | rfl <;> simp only [weight] at this ⊢ <;> omega

/-- What the tables give is lighter than the node. -/
theorem weight_contractum_lt {op : BinaryOp} {l r e : Expr R} (h : Contractum op l r e) :
    e.weight < (Expr.binary op l r).weight := by
  have hnode := add_le_weight_binary op l r
  have hl := weight_pos l
  have hr := weight_pos r
  cases h with
  | @constant _ _ _ v =>
    have := weight_number_le v
    omega
  | first | second => omega
  | opposite =>
    rw [weight_neg]
    omega
  | oppositePlus a r =>
    rw [weight_sub, weight_add, weight_neg]
    omega
  | plusOpposite l b | minusOpposite l b =>
    rw [weight_sub, weight_add, weight_neg]
    omega
  | negativePlus hv r =>
    have := weight_neg_number_lt hv
    rw [weight_sub, weight_add]
    omega
  | plusNegative l hv | minusNegative l hv =>
    have := weight_neg_number_lt hv
    rw [weight_sub, weight_add]
    omega
  | likeTerms hop hsame hliteral v =>
    -- The second term brings more than the new literal factor takes.
    have hother := three_le_weight (isScalarLiteral_same hsame hliteral)
    have hx := weight_coefficient_le l
    have hy := weight_coefficient_le r
    have hv := weight_number_le v
    rw [weight_mul]
    rcases hop with rfl | rfl
    · rw [weight_add]
      omega
    · rw [weight_sub]
      omega
  | bothOpposite hop a b =>
    rcases hop with rfl | rfl <;> simp only [weight] <;> omega
  | literalFirst hr hl =>
    have := weight_le_two hr
    have := three_le_weight hl
    rw [weight_mul, weight_mul]
    omega
  | innerFirst _ d hi he =>
    have := weight_other_le hi
    have := weight_joinsLiteral_le he
    omega
  | innerLast _ d hi he =>
    have := weight_other_le hi
    have := weight_joinsLiteral_le he
    omega

/-- What takes the place of an operation on two operands is lighter than the node. -/
theorem weight_binary?_lt {op : BinaryOp} {l r e : Expr R} (h : binary? op l r = .ok (some e)) :
    e.weight < (Expr.binary op l r).weight := by
  rcases binary?_eq_some h with h | ⟨rule, hrule, h⟩
  · have hnode := add_le_weight_binary op l r
    have hl := weight_pos l
    have he := weight_folded_le (folded_of_literals? h)
    omega
  · exact weight_contractum_lt (contractum_of_mem_rules hrule h)

/-- What takes the place of an operation on one operand is lighter than the node. -/
theorem weight_unary?_lt {op : UnaryOp} {x e : Expr R} (h : unary? op x = some e) :
    e.weight < (Expr.unary op x).weight := by
  have hone : (Expr.one : Expr R).weight ≤ 2 := weight_number_le 1
  have hx := weight_pos x
  have hnode : (Expr.unary op x).weight = 2 + x.weight := by rw [weight]
  rw [hnode]
  cases contractum_of_unary? h with
  | negateNumber v =>
    have := weight_number_le (-v)
    omega
  | logOfBase _ _ => omega
  | _ =>
    simp only [weight]
    omega

/-- What takes the place of a node is lighter than the node. -/
theorem weight_reduce?_lt {e e' : Expr R} (h : reduce? e = .ok (some e')) :
    e'.weight < e.weight := by
  unfold reduce? at h
  split at h
  · obtain rfl := Option.some.inj (Except.ok.inj h)
    simp only [weight]
    omega
  · exact weight_unary?_lt (Except.ok.inj h)
  · exact weight_binary?_lt h
  · rename_i op args
    obtain ⟨v, rfl⟩ := aggregate?_eq_some (Except.ok.inj h)
    have := weight_number_le v
    have hnode : (Expr.aggregate op args).weight = 3 + weightList args := by rw [weight]
    omega
  · cases h

end Rule

end SymbolicAlgebra
