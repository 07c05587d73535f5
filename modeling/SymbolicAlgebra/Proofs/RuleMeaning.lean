import Mathlib.Tactic.FieldSimp
import Mathlib.Tactic.Ring
import SymbolicAlgebra.Proofs.ArithmeticValue
import SymbolicAlgebra.Simplify.Weight

set_option autoImplicit false

/-!
# The rules of simplification keep the value

Where a node has a value, no rule fails on it, and what a rule puts in its place has the
same value (`Rule.Sound`). The rules are gone through one by one; each table inherits the property
from its rules (`Rule.sound_rules`), and so do all nodes (`Rule.keeps_reduce?`).
-/

namespace SymbolicAlgebra.Rule

open SymbolicAlgebra.Expr Fold ExactScalar

variable {F : Type} [ExactScalar F] {ρ : String → F}

/-! ## Outcomes that keep a value -/

/-- The outcome is no failure, and if it is an expression, that has the value given. -/
def Keeps (ρ : String → F) (x : F) (o : Outcome F) : Prop :=
  ∃ next, o = .ok next ∧ ∀ e, next = some e → e.value? ρ = some x

/-- Without an expression there is nothing to keep. -/
theorem keeps_none (x : F) : Keeps ρ x (.ok none) :=
  ⟨none, rfl, fun _ h => nomatch h⟩

/-- An expression with the value keeps it. -/
theorem keeps_some {x : F} {e : Expr F} (h : e.value? ρ = some x) :
    Keeps ρ x (.ok (some e)) :=
  ⟨some e, rfl, fun _ h' => by rw [← Option.some.inj h']; exact h⟩

/-- Division by what is not zero succeeds with the quotient. -/
theorem divide_eq_ok {a b : F} (hb : b ≠ 0) : divide a b = .ok (a / b) := by
  have hz : Scalar.isZero b = false := by
    rw [← Bool.not_eq_true, isZero_iff]
    exact hb
  rw [divide, hz]
  rfl

/-- An expression around a quotient of literals keeps the value if it does so with the
quotient of the field. -/
theorem keeps_divide {a b x : F} {f : F → Expr F} (hb : b ≠ 0)
    (h : (f (a / b)).value? ρ = some x) :
    Keeps ρ x ((divide a b).map fun v => some (f v)) := by
  rw [divide_eq_ok hb]
  exact keeps_some h

/-- The outcomes of a rule for `op` keep the value of the operation. -/
def Sound (ρ : String → F) (op : BinaryOp) (rule : Binary F) : Prop :=
  ∀ l r a b x, l.value? ρ = some a → r.value? ρ = some b → arithmetic? op a b = some x →
    Keeps ρ x (rule l r)

/-- A rule that never fails is sound where what it gives has the value of the operation. -/
theorem sound_always {op : BinaryOp} {f : Expr F → Expr F → Option (Expr F)}
    (h : ∀ l r a b x e, l.value? ρ = some a → r.value? ρ = some b →
      arithmetic? op a b = some x → f l r = some e → e.value? ρ = some x) :
    Sound ρ op (always f) := by
  intro l r a b x hl hr hx
  refine ⟨f l r, rfl, ?_⟩
  intro e he
  exact h l r a b x e hl hr hx he

/-- The first match among sound rules is sound. -/
theorem sound_firstMatch {op : BinaryOp} {table : List (Binary F)}
    (h : ∀ rule ∈ table, Sound ρ op rule) : Sound ρ op (firstMatch table) := by
  intro l r a b x hl hr hx
  induction table with
  | nil => exact keeps_none x
  | cons rule table ih =>
    obtain ⟨next, hn, hk⟩ := h rule List.mem_cons_self l r a b x hl hr hx
    rw [firstMatch, hn]
    cases next with
    | none => exact ih fun rule' h' => h rule' (List.mem_cons_of_mem _ h')
    | some e => exact keeps_some (hk e rfl)

/-! ## What the tests of the rules say of values -/

theorem eq_of_asNumber? {e : Expr F} {v x : F} (h : e.asNumber? = some v)
    (hx : e.value? ρ = some x) : x = v := by
  rw [eq_number_of_asNumber? h, value?_number] at hx
  exact (Option.some.inj hx).symm

theorem eq_of_isNumber {e : Expr F} {v x : F} (h : e.isNumber v = true)
    (hx : e.value? ρ = some x) : x = v := by
  rw [isNumber_iff.1 h, value?_number] at hx
  exact (Option.some.inj hx).symm

theorem eq_of_negativeLiteral? {e : Expr F} {v x : F} (h : negativeLiteral? e = some v)
    (hx : e.value? ρ = some x) : x = v := by
  rw [(eq_number_of_negativeLiteral? h).1, value?_number] at hx
  exact (Option.some.inj hx).symm

/-- The operand of an opposite has the opposite value. -/
theorem value?_of_negated? {e a : Expr F} {x : F} (h : negated? e = some a)
    (hx : e.value? ρ = some x) : a.value? ρ = some (-x) := by
  rw [eq_neg_of_negated? h] at hx
  obtain ⟨y, hy, rfl⟩ := value?_neg_eq_some_iff.1 hx
  rw [neg_neg]
  exact hy

/-- An expression is its literal factor times the rest. -/
theorem value?_coefficient {e : Expr F} {x : F} (hx : e.value? ρ = some x) :
    ∃ y, (coefficient e).2.value? ρ = some y ∧ (coefficient e).1 * y = x := by
  rcases coefficient_eq_or e with ⟨c, e', rfl, hc⟩ | hc
  · rw [hc]
    obtain ⟨d, y, hd, hy, rfl⟩ := value?_mul_eq_some_iff.1 hx
    rw [value?_number] at hd
    rw [← Option.some.inj hd]
    exact ⟨y, hy, rfl⟩
  · rw [hc]
    refine ⟨x, hx, ?_⟩
    rw [numeral_one, one_mul]

/-- The value of a node with a literal operand, from the value of the other operand. -/
def WithLiteral.combine? (i : WithLiteral F) (y : F) : Option F :=
  if i.first then arithmetic? i.op i.literal y else arithmetic? i.op y i.literal

section Combine

variable {i : WithLiteral F} {x y : F}

theorem combine?_add (hop : i.op = .add) (h : i.combine? y = some x) : i.literal + y = x := by
  rw [WithLiteral.combine?, hop] at h
  split at h
  · exact Option.some.inj h
  · rw [add_comm]
    exact Option.some.inj h

theorem combine?_sub_last (hop : i.op = .sub) (hfirst : i.first = false)
    (h : i.combine? y = some x) : y - i.literal = x := by
  rw [WithLiteral.combine?, hop, hfirst] at h
  exact Option.some.inj h

theorem combine?_sub_first (hop : i.op = .sub) (hfirst : i.first = true)
    (h : i.combine? y = some x) : i.literal - y = x := by
  rw [WithLiteral.combine?, hop, hfirst] at h
  exact Option.some.inj h

theorem combine?_mul (hop : i.op = .mul) (h : i.combine? y = some x) : i.literal * y = x := by
  rw [WithLiteral.combine?, hop] at h
  split at h
  · exact Option.some.inj h
  · rw [mul_comm]
    exact Option.some.inj h

theorem combine?_div_last (hop : i.op = .div) (hfirst : i.first = false)
    (h : i.combine? y = some x) : i.literal ≠ 0 ∧ y / i.literal = x := by
  rw [WithLiteral.combine?, hop, hfirst] at h
  exact arithmetic?_div_eq_some_iff.1 h

theorem combine?_div_first (hop : i.op = .div) (hfirst : i.first = true)
    (h : i.combine? y = some x) : y ≠ 0 ∧ i.literal / y = x := by
  rw [WithLiteral.combine?, hop, hfirst] at h
  exact arithmetic?_div_eq_some_iff.1 h

end Combine

/-- A node with a literal operand has the value that its literal and the other operand
give. -/
theorem value?_of_withLiteral? {e : Expr F} {i : WithLiteral F} {x : F}
    (h : withLiteral? e = some i) (hx : e.value? ρ = some x) :
    ∃ y, i.other.value? ρ = some y ∧ i.combine? y = some x := by
  rw [eq_node_of_withLiteral? h, WithLiteral.node] at hx
  unfold WithLiteral.combine?
  split at hx
  · rename_i hfirst
    obtain ⟨c, y, hc, hy, hcy⟩ := value?_binary_eq_some_iff.1 hx
    rw [value?_number] at hc
    refine ⟨y, hy, ?_⟩
    rw [if_pos hfirst, Option.some.inj hc]
    exact hcy
  · rename_i hlast
    obtain ⟨y, c, hy, hc, hyc⟩ := value?_binary_eq_some_iff.1 hx
    rw [value?_number] at hc
    refine ⟨y, hy, ?_⟩
    rw [if_neg hlast, Option.some.inj hc]
    exact hyc

/-! ## Folding -/

/-- Folding keeps the value. -/
theorem sound_literals? (op : BinaryOp) : Sound ρ op (literals? op) := by
  intro l r a b x hl hr hx
  unfold literals?
  split
  · rw [value?_number] at hl hr
    obtain rfl := Option.some.inj hl
    obtain rfl := Option.some.inj hr
    cases op <;> simp only [arithmetic?, reduceCtorEq] at hx
    case add => exact keeps_some hx
    case sub => exact keeps_some hx
    case mul => exact keeps_some hx
    case div =>
      obtain ⟨hb, rfl⟩ := arithmetic?_div_eq_some_iff.1 hx
      exact keeps_divide hb (value?_number _)
  · cases hl
  · cases hl
  · cases hr
  · cases hl
  · exact keeps_none x

/-! ## Sums -/

theorem sound_plusZero : Sound ρ .add (always plusZero) :=
  sound_always fun l r a b x e hl hr hx h => by
    obtain ⟨hz, rfl⟩ := eq_of_exprIf h
    obtain rfl := Option.some.inj hx
    rw [hl, eq_of_isNumber hz hr, numeral_zero, add_zero]

theorem sound_zeroPlus : Sound ρ .add (always zeroPlus) :=
  sound_always fun l r a b x e hl hr hx h => by
    obtain ⟨hz, rfl⟩ := eq_of_exprIf h
    obtain rfl := Option.some.inj hx
    rw [hr, eq_of_isNumber hz hl, numeral_zero, zero_add]

theorem sound_oppositePlus : Sound ρ .add (always oppositePlus) :=
  sound_always fun l r a b x e hl hr hx h => by
    obtain ⟨l', hn, rfl⟩ := Option.map_eq_some_iff.1 h
    obtain rfl := Option.some.inj hx
    refine value?_sub_eq_some_iff.2 ⟨b, -a, hr, value?_of_negated? hn hl, ?_⟩
    ring

theorem sound_plusOpposite : Sound ρ .add (always plusOpposite) :=
  sound_always fun l r a b x e hl hr hx h => by
    obtain ⟨r', hn, rfl⟩ := Option.map_eq_some_iff.1 h
    obtain rfl := Option.some.inj hx
    refine value?_sub_eq_some_iff.2 ⟨a, -b, hl, value?_of_negated? hn hr, ?_⟩
    ring

theorem sound_plusNegative : Sound ρ .add (always plusNegative) :=
  sound_always fun l r a b x e hl hr hx h => by
    obtain ⟨v, hv, rfl⟩ := Option.map_eq_some_iff.1 h
    obtain rfl := Option.some.inj hx
    obtain rfl := eq_of_negativeLiteral? hv hr
    refine value?_sub_eq_some_iff.2 ⟨a, -b, hl, value?_number _, ?_⟩
    ring

theorem sound_negativePlus : Sound ρ .add (always negativePlus) :=
  sound_always fun l r a b x e hl hr hx h => by
    obtain ⟨v, hv, rfl⟩ := Option.map_eq_some_iff.1 h
    obtain rfl := Option.some.inj hx
    obtain rfl := eq_of_negativeLiteral? hv hl
    refine value?_sub_eq_some_iff.2 ⟨b, -a, hr, value?_number _, ?_⟩
    ring

/-- Joining like terms keeps the value of an operation over which multiplication
distributes. -/
theorem value?_likeTerms {f : F → F → F} (hf : ∀ c d y, f c d * y = f (c * y) (d * y))
    {l r e : Expr F} {a b : F} (hl : l.value? ρ = some a) (hr : r.value? ρ = some b)
    (h : likeTerms f l r = some e) : e.value? ρ = some (f a b) := by
  simp only [likeTerms] at h
  obtain ⟨hc, rfl⟩ := eq_of_exprIf h
  rw [Bool.and_eq_true] at hc
  obtain ⟨y, hy, rfl⟩ := value?_coefficient hl
  obtain ⟨z, hz, rfl⟩ := value?_coefficient hr
  have hyz : y = z := by
    rw [value?_eq_of_same hc.1, hz] at hy
    exact (Option.some.inj hy).symm
  subst hyz
  exact value?_mul_eq_some_iff.2 ⟨_, y, value?_number _, hy, hf _ _ _⟩

theorem sound_likeSum : Sound ρ .add (always (likeTerms (· + ·))) :=
  sound_always fun l r a b x e hl hr hx h => by
    obtain rfl := Option.some.inj hx
    exact value?_likeTerms (fun c d y => add_mul c d y) hl hr h

/-- Regrouping a sum adds the literal. -/
theorem value?_regroupSum {d x y : F} {i : WithLiteral F} {e : Expr F}
    (hy : i.other.value? ρ = some y) (hx : i.combine? y = some x)
    (h : regroupSum d i = some e) : e.value? ρ = some (x + d) := by
  unfold regroupSum at h
  split at h
  · rename_i hop
    rw [← Option.some.inj h]
    refine value?_add_eq_some_iff.2 ⟨y, _, hy, value?_number _, ?_⟩
    rw [← combine?_add hop hx]
    ring
  · rename_i hop hfirst
    rw [← Option.some.inj h]
    refine value?_add_eq_some_iff.2 ⟨y, _, hy, value?_number _, ?_⟩
    rw [← combine?_sub_last hop hfirst hx]
    ring
  · rename_i hop hfirst
    rw [← Option.some.inj h]
    refine value?_sub_eq_some_iff.2 ⟨_, y, value?_number _, hy, ?_⟩
    rw [← combine?_sub_first hop hfirst hx]
    ring
  · cases h

theorem sound_sumOfLiteral : Sound ρ .add (always sumOfLiteral) :=
  sound_always fun l r a b x e hl hr hx h => by
    obtain rfl := Option.some.inj hx
    unfold sumOfLiteral at h
    split at h
    · rename_i d _ hd
      obtain ⟨i, hi, hg⟩ := Option.bind_eq_some_iff.1 h
      obtain ⟨y, hy, hc⟩ := value?_of_withLiteral? hi hl
      rw [eq_of_asNumber? hd hr]
      exact value?_regroupSum hy hc hg
    · rename_i d hd _
      obtain ⟨i, hi, hg⟩ := Option.bind_eq_some_iff.1 h
      obtain ⟨y, hy, hc⟩ := value?_of_withLiteral? hi hr
      rw [eq_of_asNumber? hd hl, add_comm]
      exact value?_regroupSum hy hc hg
    · cases h

/-! ## Differences -/

theorem sound_minusZero : Sound ρ .sub (always plusZero) :=
  sound_always fun l r a b x e hl hr hx h => by
    obtain ⟨hz, rfl⟩ := eq_of_exprIf h
    obtain rfl := Option.some.inj hx
    rw [hl, eq_of_isNumber hz hr, numeral_zero, sub_zero]

theorem sound_minusItself : Sound ρ .sub (always minusItself) :=
  sound_always fun l r a b x e hl hr hx h => by
    obtain ⟨hs, rfl⟩ := eq_of_exprIf h
    obtain rfl := Option.some.inj hx
    rw [value?_eq_of_same hs, hr] at hl
    rw [← Option.some.inj hl, sub_self, value?_number, numeral_zero]

theorem sound_minusOpposite : Sound ρ .sub (always minusOpposite) :=
  sound_always fun l r a b x e hl hr hx h => by
    obtain ⟨r', hn, rfl⟩ := Option.map_eq_some_iff.1 h
    obtain rfl := Option.some.inj hx
    refine value?_add_eq_some_iff.2 ⟨a, -b, hl, value?_of_negated? hn hr, ?_⟩
    ring

theorem sound_zeroMinus : Sound ρ .sub (always zeroMinus) :=
  sound_always fun l r a b x e hl hr hx h => by
    obtain ⟨hz, rfl⟩ := eq_of_exprIf h
    obtain rfl := Option.some.inj hx
    refine value?_neg_eq_some_iff.2 ⟨b, hr, ?_⟩
    rw [eq_of_isNumber hz hl, numeral_zero, zero_sub]

theorem sound_minusNegative : Sound ρ .sub (always minusNegative) :=
  sound_always fun l r a b x e hl hr hx h => by
    obtain ⟨v, hv, rfl⟩ := Option.map_eq_some_iff.1 h
    obtain rfl := Option.some.inj hx
    obtain rfl := eq_of_negativeLiteral? hv hr
    refine value?_add_eq_some_iff.2 ⟨a, -b, hl, value?_number _, ?_⟩
    ring

theorem sound_likeDifference : Sound ρ .sub (always (likeTerms (· - ·))) :=
  sound_always fun l r a b x e hl hr hx h => by
    obtain rfl := Option.some.inj hx
    exact value?_likeTerms (fun c d y => sub_mul c d y) hl hr h

/-- Regrouping a difference with a literal behind subtracts the literal. -/
theorem value?_regroupMinus {d x y : F} {i : WithLiteral F} {e : Expr F}
    (hy : i.other.value? ρ = some y) (hx : i.combine? y = some x)
    (h : regroupMinus d i = some e) : e.value? ρ = some (x - d) := by
  unfold regroupMinus at h
  split at h
  · rename_i hop
    rw [← Option.some.inj h]
    refine value?_add_eq_some_iff.2 ⟨y, _, hy, value?_number _, ?_⟩
    rw [← combine?_add hop hx]
    ring
  · rename_i hop hfirst
    rw [← Option.some.inj h]
    refine value?_sub_eq_some_iff.2 ⟨y, _, hy, value?_number _, ?_⟩
    rw [← combine?_sub_last hop hfirst hx]
    ring
  · rename_i hop hfirst
    rw [← Option.some.inj h]
    refine value?_sub_eq_some_iff.2 ⟨_, y, value?_number _, hy, ?_⟩
    rw [← combine?_sub_first hop hfirst hx]
    ring
  · cases h

theorem sound_minusLiteral : Sound ρ .sub (always minusLiteral) :=
  sound_always fun l r a b x e hl hr hx h => by
    obtain rfl := Option.some.inj hx
    unfold minusLiteral at h
    split at h
    · rename_i d hd
      obtain ⟨i, hi, hg⟩ := Option.bind_eq_some_iff.1 h
      obtain ⟨y, hy, hc⟩ := value?_of_withLiteral? hi hl
      rw [eq_of_asNumber? hd hr]
      exact value?_regroupMinus hy hc hg
    · cases h

/-- Regrouping a difference with a literal in front subtracts from the literal. -/
theorem value?_regroupFrom {d x y : F} {i : WithLiteral F} {e : Expr F}
    (hy : i.other.value? ρ = some y) (hx : i.combine? y = some x)
    (h : regroupFrom d i = some e) : e.value? ρ = some (d - x) := by
  unfold regroupFrom at h
  split at h
  · rename_i hop
    rw [← Option.some.inj h]
    refine value?_sub_eq_some_iff.2 ⟨_, y, value?_number _, hy, ?_⟩
    rw [← combine?_add hop hx]
    ring
  · rename_i hop hfirst
    rw [← Option.some.inj h]
    refine value?_sub_eq_some_iff.2 ⟨_, y, value?_number _, hy, ?_⟩
    rw [← combine?_sub_last hop hfirst hx]
    ring
  · rename_i hop hfirst
    rw [← Option.some.inj h]
    refine value?_add_eq_some_iff.2 ⟨y, _, hy, value?_number _, ?_⟩
    rw [← combine?_sub_first hop hfirst hx]
    ring
  · cases h

theorem sound_literalMinus : Sound ρ .sub (always literalMinus) :=
  sound_always fun l r a b x e hl hr hx h => by
    obtain rfl := Option.some.inj hx
    unfold literalMinus at h
    split at h
    · rename_i d hd
      obtain ⟨i, hi, hg⟩ := Option.bind_eq_some_iff.1 h
      obtain ⟨y, hy, hc⟩ := value?_of_withLiteral? hi hr
      rw [eq_of_asNumber? hd hl]
      exact value?_regroupFrom hy hc hg
    · cases h

/-! ## Products -/

theorem sound_timesZero : Sound ρ .mul (always timesZero) :=
  sound_always fun l r a b x e hl hr hx h => by
    obtain ⟨hz, rfl⟩ := eq_of_exprIf h
    obtain rfl := Option.some.inj hx
    rw [value?_number, numeral_zero]
    rcases Bool.or_eq_true_iff.1 hz with hz | hz
    · rw [eq_of_isNumber hz hl, numeral_zero, zero_mul]
    · rw [eq_of_isNumber hz hr, numeral_zero, mul_zero]

theorem sound_timesOne : Sound ρ .mul (always byOne) :=
  sound_always fun l r a b x e hl hr hx h => by
    obtain ⟨hz, rfl⟩ := eq_of_exprIf h
    obtain rfl := Option.some.inj hx
    rw [hl, eq_of_isNumber hz hr, numeral_one, mul_one]

theorem sound_oneTimes : Sound ρ .mul (always oneTimes) :=
  sound_always fun l r a b x e hl hr hx h => by
    obtain ⟨hz, rfl⟩ := eq_of_exprIf h
    obtain rfl := Option.some.inj hx
    rw [hr, eq_of_isNumber hz hl, numeral_one, one_mul]

/-- Two opposites may lose their signs where the operation does not see them. -/
theorem sound_bothOpposite {op : BinaryOp}
    (hop : ∀ a b : F, arithmetic? op (-a) (-b) = arithmetic? op a b) :
    Sound ρ op (always (bothOpposite op)) :=
  sound_always fun l r a b x e hl hr hx h => by
    unfold bothOpposite at h
    split at h
    · rename_i l' r' hl' hr'
      rw [← Option.some.inj h]
      refine value?_binary_eq_some_iff.2
        ⟨-a, -b, value?_of_negated? hl' hl, value?_of_negated? hr' hr, ?_⟩
      rw [hop]
      exact hx
    · cases h

theorem sound_minusOneTimes : Sound ρ .mul (always minusOneTimes) :=
  sound_always fun l r a b x e hl hr hx h => by
    obtain ⟨hz, rfl⟩ := eq_of_exprIf h
    obtain rfl := Option.some.inj hx
    refine value?_neg_eq_some_iff.2 ⟨b, hr, ?_⟩
    rw [eq_of_isNumber hz hl, numeral_one]
    ring

theorem sound_literalFirst : Sound ρ .mul (always literalFirst) :=
  sound_always fun l r a b x e hl hr hx h => by
    obtain ⟨_, rfl⟩ := eq_of_exprIf h
    obtain rfl := Option.some.inj hx
    exact value?_mul_eq_some_iff.2 ⟨b, a, hr, hl, mul_comm b a⟩

/-- Regrouping a product multiplies by the literal. -/
theorem keeps_regroupTimes {c x y : F} {i : WithLiteral F}
    (hy : i.other.value? ρ = some y) (hx : i.combine? y = some x) :
    Keeps ρ (c * x) (regroupTimes c i) := by
  unfold regroupTimes
  split
  · rename_i hop
    apply keeps_some
    refine value?_mul_eq_some_iff.2 ⟨_, y, value?_number _, hy, ?_⟩
    rw [← combine?_mul hop hx]
    ring
  · rename_i hop hfirst
    obtain ⟨hne, rfl⟩ := combine?_div_last hop hfirst hx
    refine keeps_divide hne (value?_mul_eq_some_iff.2 ⟨_, y, value?_number _, hy, ?_⟩)
    field_simp
  · rename_i hop hfirst
    obtain ⟨hne, rfl⟩ := combine?_div_first hop hfirst hx
    apply keeps_some
    refine value?_div_eq_some_iff.2 ⟨_, y, value?_number _, hy, hne, ?_⟩
    field_simp
  · exact keeps_none _

theorem sound_literalTimes : Sound ρ .mul literalTimes := by
  intro l r a b x hl hr hx
  obtain rfl := Option.some.inj hx
  unfold literalTimes
  split
  · rename_i c i hc hi
    obtain ⟨y, hy, hb⟩ := value?_of_withLiteral? hi hr
    rw [eq_of_asNumber? hc hl]
    exact keeps_regroupTimes hy hb
  · exact keeps_none _

/-! ## Quotients -/

/-- No divisor with a value other than zero is the literal zero. -/
theorem sound_overZero : Sound ρ .div overZero := by
  intro l r a b x hl hr hx
  obtain ⟨hb, _⟩ := arithmetic?_div_eq_some_iff.1 hx
  have hz : isZeroLiteral r = false := by
    unfold isZeroLiteral
    split
    · rw [value?_number] at hr
      rw [Option.some.inj hr, ← Bool.not_eq_true, isZero_iff]
      exact hb
    · cases hr
    · rfl
  rw [overZero, hz]
  exact keeps_none x

theorem sound_overOne : Sound ρ .div (always byOne) :=
  sound_always fun l r a b x e hl hr hx h => by
    obtain ⟨hz, rfl⟩ := eq_of_exprIf h
    obtain ⟨_, rfl⟩ := arithmetic?_div_eq_some_iff.1 hx
    rw [hl, eq_of_isNumber hz hr, numeral_one, div_one]

theorem sound_zeroOver : Sound ρ .div (always zeroOver) :=
  sound_always fun l r a b x e hl hr hx h => by
    obtain ⟨hz, rfl⟩ := eq_of_exprIf h
    obtain ⟨_, rfl⟩ := arithmetic?_div_eq_some_iff.1 hx
    rw [value?_number, eq_of_isNumber hz hl, numeral_zero, zero_div]

theorem sound_overItself : Sound ρ .div (always overItself) :=
  sound_always fun l r a b x e hl hr hx h => by
    obtain ⟨hs, rfl⟩ := eq_of_exprIf h
    obtain ⟨hb, rfl⟩ := arithmetic?_div_eq_some_iff.1 hx
    rw [value?_eq_of_same hs, hr] at hl
    rw [← Option.some.inj hl, div_self hb, value?_number, numeral_one]

/-- Regrouping a quotient with a literal divisor divides by the literal. -/
theorem keeps_regroupOver {d x y : F} {i : WithLiteral F} (hd : d ≠ 0)
    (hy : i.other.value? ρ = some y) (hx : i.combine? y = some x) :
    Keeps ρ (x / d) (regroupOver d i) := by
  unfold regroupOver
  split
  · rename_i hop
    refine keeps_divide hd (value?_mul_eq_some_iff.2 ⟨_, y, value?_number _, hy, ?_⟩)
    rw [← combine?_mul hop hx]
    ring
  · rename_i hop hfirst
    obtain ⟨hne, rfl⟩ := combine?_div_last hop hfirst hx
    apply keeps_some
    refine value?_div_eq_some_iff.2 ⟨y, _, hy, value?_number _, mul_ne_zero hne hd, ?_⟩
    rw [div_div]
  · rename_i hop hfirst
    obtain ⟨hne, rfl⟩ := combine?_div_first hop hfirst hx
    refine keeps_divide hd (value?_div_eq_some_iff.2 ⟨_, y, value?_number _, hy, hne, ?_⟩)
    rw [div_right_comm]
  · exact keeps_none _

theorem sound_overLiteral : Sound ρ .div overLiteral := by
  intro l r a b x hl hr hx
  obtain ⟨hb, rfl⟩ := arithmetic?_div_eq_some_iff.1 hx
  unfold overLiteral
  split
  · rename_i d i hd hi
    obtain ⟨y, hy, hc⟩ := value?_of_withLiteral? hi hl
    obtain rfl := eq_of_asNumber? hd hr
    exact keeps_regroupOver hb hy hc
  · exact keeps_none _

/-- Regrouping a quotient with a literal dividend divides the literal. -/
theorem keeps_regroupUnder {c x y : F} {i : WithLiteral F} (hne : x ≠ 0)
    (hy : i.other.value? ρ = some y) (hx : i.combine? y = some x) :
    Keeps ρ (c / x) (regroupUnder c i) := by
  unfold regroupUnder
  split
  · rename_i hop
    obtain rfl := combine?_mul hop hx
    have hlit := left_ne_zero_of_mul hne
    have hother := right_ne_zero_of_mul hne
    refine keeps_divide hlit
      (value?_div_eq_some_iff.2 ⟨_, y, value?_number _, hy, hother, ?_⟩)
    rw [div_div]
  · rename_i hop hfirst
    obtain ⟨hlit, rfl⟩ := combine?_div_last hop hfirst hx
    have hother : y ≠ 0 := (div_ne_zero_iff.1 hne).1
    apply keeps_some
    refine value?_div_eq_some_iff.2 ⟨_, y, value?_number _, hy, hother, ?_⟩
    field_simp
  · rename_i hop hfirst
    obtain ⟨hother, rfl⟩ := combine?_div_first hop hfirst hx
    have hlit : i.literal ≠ 0 := (div_ne_zero_iff.1 hne).1
    refine keeps_divide hlit (value?_mul_eq_some_iff.2 ⟨_, y, value?_number _, hy, ?_⟩)
    field_simp
  · exact keeps_none _

theorem sound_literalOver : Sound ρ .div literalOver := by
  intro l r a b x hl hr hx
  obtain ⟨hb, rfl⟩ := arithmetic?_div_eq_some_iff.1 hx
  unfold literalOver
  split
  · rename_i c i hc hi
    obtain ⟨y, hy, hv⟩ := value?_of_withLiteral? hi hr
    rw [eq_of_asNumber? hc hl]
    exact keeps_regroupUnder hb hy hv
  · exact keeps_none _

/-! ## Tables -/

/-- The rules in the tables of the four operations are sound; the other operations have no
values to keep. -/
theorem sound_rules {op : BinaryOp} {rule : Binary F} (h : rule ∈ rules op) :
    Sound ρ op rule := by
  cases op
  case add =>
    simp only [rules, sumRules, List.mem_cons, List.not_mem_nil, or_false] at h
    rcases h with rfl | rfl | rfl | rfl | rfl | rfl | rfl | rfl
    · exact sound_plusZero
    · exact sound_zeroPlus
    · exact sound_oppositePlus
    · exact sound_plusOpposite
    · exact sound_plusNegative
    · exact sound_negativePlus
    · exact sound_likeSum
    · exact sound_sumOfLiteral
  case sub =>
    simp only [rules, differenceRules, List.mem_cons, List.not_mem_nil, or_false] at h
    rcases h with rfl | rfl | rfl | rfl | rfl | rfl | rfl | rfl
    · exact sound_minusZero
    · exact sound_minusItself
    · exact sound_minusOpposite
    · exact sound_zeroMinus
    · exact sound_minusNegative
    · exact sound_likeDifference
    · exact sound_minusLiteral
    · exact sound_literalMinus
  case mul =>
    simp only [rules, productRules, List.mem_cons, List.not_mem_nil, or_false] at h
    rcases h with rfl | rfl | rfl | rfl | rfl | rfl | rfl
    · exact sound_timesZero
    · exact sound_timesOne
    · exact sound_oneTimes
    · apply sound_bothOpposite
      intro a b
      rw [arithmetic?, arithmetic?, neg_mul_neg]
    · exact sound_minusOneTimes
    · exact sound_literalFirst
    · exact sound_literalTimes
  case div =>
    simp only [rules, quotientRules, List.mem_cons, List.not_mem_nil, or_false] at h
    rcases h with rfl | rfl | rfl | rfl | rfl | rfl | rfl
    · exact sound_overZero
    · exact sound_overOne
    · exact sound_zeroOver
    · exact sound_overItself
    · apply sound_bothOpposite
      intro a b
      simp only [arithmetic?, neg_eq_zero, neg_div_neg_eq]
    · exact sound_overLiteral
    · exact sound_literalOver
  all_goals
    intro l r a b x hl hr hx
    cases hx

/-- The rules of an opposite keep its value. -/
theorem value?_unary? {e e' : Expr F} {x : F} (hx : (Expr.neg e).value? ρ = some x)
    (h : unary? .negate e = some e') : e'.value? ρ = some x := by
  obtain ⟨a, ha, rfl⟩ := value?_neg_eq_some_iff.1 hx
  cases contractum_of_unary? h with
  | negateNumber v =>
    rw [value?_number] at ha ⊢
    rw [Option.some.inj ha]
  | negateComplex | negateQuantity => cases ha
  | negateNegate =>
    obtain ⟨y, hy, rfl⟩ := value?_neg_eq_some_iff.1 ha
    rw [neg_neg]
    exact hy
  | undone hinv => cases hinv
  | logOfBase hop => rcases hop with h | h | h <;> cases h

/-- The rules for all nodes keep the value, and none fails on a node that has one. -/
theorem keeps_reduce? {e : Expr F} {x : F} (hx : e.value? ρ = some x) :
    Keeps ρ x (reduce? e) := by
  unfold reduce?
  split
  · rw [value?_simplify] at hx
    exact keeps_some hx
  · rename_i op e
    by_cases hop : op = .negate
    · subst hop
      exact ⟨_, rfl, fun e' h => value?_unary? hx h⟩
    · rw [value?_unary_of_ne hop] at hx
      cases hx
  · rename_i op l r
    obtain ⟨a, b, ha, hb, hab⟩ := value?_binary_eq_some_iff.1 hx
    refine sound_firstMatch ?_ l r a b x ha hb hab
    intro rule hrule
    rcases List.mem_cons.1 hrule with rfl | hrule
    · exact sound_literals? op
    · exact sound_rules hrule
  · cases hx
  · exact keeps_none x

end SymbolicAlgebra.Rule
