import SymbolicAlgebra.Proofs.NormalForm
import SymbolicAlgebra.Simplify.Contractum

set_option autoImplicit false

/-!
# Runs on products and quotients

How the rules move the literals of a product or quotient. Let `K` bound literals, none of them
zero, and let the bound of an expression be the sum of the bounds of its literals
(`Expr.Scaled`). A rule for a node over simplified operands with bounds gives another such node
(`Expr.Ready`), or it joins a literal operand and the literal of the other operand to a product
or quotient that has not the bounds of the two together (`Expr.LeavesScale`); no rule fails
(`Rule.stays_reduce?`). By induction along the calls the same holds of a run: it has a result
within the bound, or it comes to a node with a literal that has left the scale (`Ready.run`).

Where products and quotients of literals keep the bounds, no literal leaves the scale, and every
product or quotient of such literals and variables has a simplified form (`Scaled.simplified`).
A literal zero is harmless in a product and as a dividend (`simplifyNext_mul_zero`,
`simplifyNext_zero_div`); as a divisor it is refused (`reduce?_div_zero`).
-/

namespace SymbolicAlgebra

variable {R : Type}

/-! ## Literals and their bounds -/

namespace Expr

/-- Products and quotients, and opposites of these, of variables and of literals that `K` bounds.
The bound of an operation is no less than those of its operands together. -/
inductive Scaled (K : Nat → R → Prop) : Nat → Expr R → Prop where
  | var (n : Nat) (x : String) : Scaled K n (.var x)
  | number {n : Nat} {v : R} (h : K n v) : Scaled K n (.number v)
  | neg {n : Nat} {e : Expr R} (h : Scaled K n e) : Scaled K n (.neg e)
  | operation {op : BinaryOp} {i j n : Nat} {l r : Expr R} (hop : op = .mul ∨ op = .div)
      (hn : i + j ≤ n) (hl : Scaled K i l) (hr : Scaled K j r) : Scaled K n (.binary op l r)

/-- An expression has a bound in every scale that bounds no less literals. -/
theorem Scaled.imp {K K' : Nat → R → Prop} {n : Nat} {e : Expr R} (h : Scaled K n e)
    (hK : ∀ n v, K n v → K' n v) : Scaled K' n e := by
  induction h with
  | var n x => exact .var n x
  | number h => exact .number (hK _ _ h)
  | neg _ ih => exact .neg ih
  | operation hop hn _ _ ihl ihr => exact .operation hop hn ihl ihr

/-- No complex literal stands among real literals. -/
theorem Scaled.ne_complex {K : Nat → R → Prop} {n : Nat} {e : Expr R} (h : Scaled K n e)
    (w : ComplexNumber R) : e ≠ .complex w := by
  rintro rfl
  cases h

/-- What is no real literal is no complex one either. -/
theorem Scaled.isScalarLiteral_eq_false {K : Nat → R → Prop} {n : Nat} {e : Expr R}
    (h : Scaled K n e) (he : e.asNumber? = none) : e.isScalarLiteral = false := by
  cases h with
  | number h => cases he
  | _ => rfl

/-- What is not a literal is none of the literals. -/
theorem isNumber_eq_false [Scalar R] {e : Expr R} (he : e.asNumber? = none) (c : R) :
    e.isNumber c = false := by
  cases e with
  | number v => cases he
  | _ => rfl

/-- Where it is not so that one of the operands is no literal, both are. -/
theorem exists_literals {l r : Expr R} (h : ¬ (l.asNumber? = none ∨ r.asNumber? = none)) :
    ∃ a b, l = .number a ∧ r = .number b := by
  obtain ⟨hl, hr⟩ := not_or.1 h
  obtain ⟨a, ha⟩ := Option.ne_none_iff_exists'.1 hl
  obtain ⟨b, hb⟩ := Option.ne_none_iff_exists'.1 hr
  exact ⟨a, b, Rule.eq_number_of_asNumber? ha, Rule.eq_number_of_asNumber? hb⟩

/-- Folding leaves a node alone where one of the operands is no literal. -/
theorem Scaled.literals?_eq_none [Scalar R] {K : Nat → R → Prop} {op : BinaryOp} {i j : Nat}
    {l r : Expr R} (hl : Scaled K i l) (hr : Scaled K j r)
    (hne : l.asNumber? = none ∨ r.asNumber? = none) : Fold.literals? op l r = .ok none := by
  cases hl with
  | number ha =>
    cases hr with
    | number hb => rcases hne with h | h <;> cases h
    | _ => rfl
  | _ => rfl

end Expr

variable [Scalar R]

/-- What is asked of bounds of literals: no literal with a bound is zero, one has the bound zero,
an opposite has the bound of the literal, and a bound may be raised. -/
structure LiteralScale (K : Nat → R → Prop) : Prop where
  ne_zero {n : Nat} {v : R} (h : K n v) : Scalar.isZero v = false
  one : K 0 1
  neg {n : Nat} {v : R} (h : K n v) : K n (-v)
  mono {m n : Nat} {v : R} (hmn : m ≤ n) (h : K m v) : K n v

/-- Two literals with bounds have `v` for their product or quotient, and `v` has not the bounds
of the two together. -/
def Lost (K : Nat → R → Prop) (n : Nat) (v : R) : Prop :=
  ∃ i j a b, i + j ≤ n ∧ K i a ∧ K j b ∧ (v = a * b ∨ v = a / b) ∧ ¬ K (i + j) v

theorem Lost.mono {K : Nat → R → Prop} {m n : Nat} {v : R} (h : Lost K m v) (hmn : m ≤ n) :
    Lost K n v := by
  obtain ⟨i, j, a, b, hm, h⟩ := h
  exact ⟨i, j, a, b, Nat.le_trans hm hmn, h⟩

namespace Expr

variable {K : Nat → R → Prop} {n : Nat} {e : Expr R}

/-- A bound may be raised. -/
theorem Scaled.mono {m : Nat} (hK : LiteralScale K) (h : Scaled K m e) (hmn : m ≤ n) :
    Scaled K n e := by
  induction h generalizing n with
  | var m x => exact .var n x
  | number h => exact .number (hK.mono hmn h)
  | neg _ ih => exact .neg (ih hmn)
  | operation hop hm hl hr => exact .operation hop (Nat.le_trans hm hmn) hl hr

/-- The literal zero has no bound. -/
theorem Scaled.isNumber_zero (hK : LiteralScale K) (h : Scaled K n e) : e.isNumber 0 = false := by
  cases h with
  | number h => exact hK.ne_zero h
  | _ => rfl

/-! ## Simplified operands -/

/-- A simplified expression with a bound, as it stands below a node that a rule is applied to. -/
structure Operand (K : Nat → R → Prop) (n : Nat) (e : Expr R) : Prop where
  scaled : Scaled K n e
  normal : e.Normal

namespace Operand

theorem mono {m : Nat} (hK : LiteralScale K) (h : Operand K m e) (hmn : m ≤ n) :
    Operand K n e :=
  ⟨h.scaled.mono hK hmn, h.normal⟩

theorem number {v : R} (h : K n v) : Operand K n (.number v) :=
  ⟨.number h, normal_of_simplified (simplified_number v)⟩

/-- The bound of an operand that is a literal is one of the literal. -/
theorem of_asNumber? {c : R} (h : Operand K n e) (hc : e.asNumber? = some c) : K n c := by
  rw [Rule.eq_number_of_asNumber? hc] at h
  cases h.scaled with
  | number h => exact h

/-- What an opposite is of is an operand with its bound, and no literal. -/
theorem of_negated? {a : Expr R} (h : Operand K n e) (ha : Rule.negated? e = some a) :
    Operand K n a ∧ a.asNumber? = none := by
  rw [Rule.eq_neg_of_negated? ha] at h
  have hscaled : Scaled K n a := by
    cases h.scaled with
    | neg h => exact h
  refine ⟨⟨hscaled, h.normal.subexprAt? (p := [0]) rfl⟩, ?_⟩
  -- A sign before a literal becomes part of it, so this would be no normal form.
  cases a with
  | number v => exact nomatch h.normal.reduce?_eq
  | _ => rfl

omit [Scalar R] in
/-- Beside the literal operand of a node stands no other literal. -/
theorem asNumber?_other {w : Rule.WithLiteral R} (hw : Rule.withLiteral? e = some w) :
    w.other.asNumber? = none := by
  unfold Rule.withLiteral? at hw
  split at hw
  · split at hw
    · rw [← Option.some.inj hw]
      assumption
    · rw [← Option.some.inj hw]
      assumption
    · cases hw
  · cases hw

/-- The bounds of a literal operand and of the other operand. -/
theorem of_withLiteral? {w : Rule.WithLiteral R} (h : Operand K n e)
    (hw : Rule.withLiteral? e = some w) :
    ∃ i j, i + j ≤ n ∧ K i w.literal ∧ Operand K j w.other := by
  rw [Rule.eq_node_of_withLiteral? hw, Rule.WithLiteral.node] at h
  split at h
  · have hother : w.other.Normal := h.normal.subexprAt? (p := [1]) rfl
    obtain _ | _ | _ | @⟨op, i, j, _, l, r, -, hn, hl, hr⟩ := h.scaled
    cases hl with
    | number hk => exact ⟨i, j, hn, hk, hr, hother⟩
  · have hother : w.other.Normal := h.normal.subexprAt? (p := [0]) rfl
    obtain _ | _ | _ | @⟨op, i, j, _, l, r, -, hn, hl, hr⟩ := h.scaled
    cases hr with
    | number hk => exact ⟨j, i, by omega, hk, hl, hother⟩

end Operand

/-! ## Nodes over simplified operands -/

/-- Simplified expressions, their opposites, and products and quotients of two of them that are
not both literals. -/
inductive Ready (K : Nat → R → Prop) (n : Nat) : Expr R → Prop where
  | operand {e : Expr R} (h : Operand K n e) : Ready K n e
  | neg {e : Expr R} (h : Operand K n e) : Ready K n (.neg e)
  | operation {op : BinaryOp} {i j : Nat} {l r : Expr R} (hop : op = .mul ∨ op = .div)
      (hn : i + j ≤ n) (hl : Operand K i l) (hr : Operand K j r)
      (hne : l.asNumber? = none ∨ r.asNumber? = none) : Ready K n (.binary op l r)

theorem Ready.scaled (h : Ready K n e) : Scaled K n e := by
  cases h with
  | operand h => exact h.scaled
  | neg h => exact .neg h.scaled
  | operation hop hn hl hr _ => exact .operation hop hn hl.scaled hr.scaled

/-- Simplifying the operands of a node over normal forms leaves it alone. -/
theorem mapChildren_binary_eq {op : BinaryOp} {l r : Expr R} (hl : l.Normal) (hr : r.Normal) :
    (Expr.binary op l r).mapChildren SimplifyError.shape Expr.simplified =
      .ok (.binary op l r) := by
  refine mapChildren_eq_ok_iff.2 ⟨[l, r], .cons ?_ (.cons ?_ .nil), rfl⟩
  · exact hl.simplified_eq_self
  · exact hr.simplified_eq_self

/-- Simplifying the operands of such a node leaves it alone. -/
theorem Ready.mapChildren_eq (h : Ready K n e) :
    e.mapChildren .shape Expr.simplified = .ok e := by
  cases h with
  | operand h =>
    obtain ⟨_, below, shape, -⟩ := h.normal
    refine mapChildren_eq_ok_iff.2 ⟨e.children, List.forall₂_same.2 ?_, shape⟩
    intro c hc
    exact (below c hc).simplified_eq_self
  | @neg a h =>
    exact mapChildren_eq_ok_iff.2 ⟨[a], .cons h.normal.simplified_eq_self .nil, rfl⟩
  | operation _ _ hl hr _ => exact mapChildren_binary_eq hl.normal hr.normal

/-- The product or quotient of the literal `v` and `x`, in the forms that the rules give. -/
inductive Joined (v : R) (x : Expr R) : Expr R → Prop where
  | times : Joined v x (.mul (.number v) x)
  | dividend : Joined v x (.div (.number v) x)
  | divisor : Joined v x (.div x (.number v))

omit [Scalar R] in
/-- The literal is the literal operand of the node. -/
theorem Joined.exists_withLiteral? {v : R} {x : Expr R} (h : Joined v x e)
    (hx : x.asNumber? = none) : ∃ w, Rule.withLiteral? e = some w ∧ w.literal = v := by
  cases h with
  | times => exact ⟨⟨.mul, v, x, true⟩, by rw [Rule.withLiteral?, hx]; rfl, rfl⟩
  | dividend => exact ⟨⟨.div, v, x, true⟩, by rw [Rule.withLiteral?, hx]; rfl, rfl⟩
  | divisor => exact ⟨⟨.div, v, x, false⟩, by rw [Rule.withLiteral?, hx]; rfl, rfl⟩

/-- A product or quotient of an operand that is no literal and a literal that has left the
scale. -/
def LeavesScale (K : Nat → R → Prop) (n : Nat) (e : Expr R) : Prop :=
  ∃ v x, Lost K n v ∧ Operand K n x ∧ x.asNumber? = none ∧ Joined v x e

theorem LeavesScale.mapChildren_eq (h : LeavesScale K n e) :
    e.mapChildren .shape Expr.simplified = .ok e := by
  obtain ⟨v, x, -, hx, -, hjoined⟩ := h
  have hv : (Expr.number v).Normal := normal_of_simplified (simplified_number v)
  cases hjoined with
  | times => exact mapChildren_binary_eq hv hx.normal
  | dividend => exact mapChildren_binary_eq hv hx.normal
  | divisor => exact mapChildren_binary_eq hx.normal hv

end Expr

/-! ## The rules of products and quotients -/

namespace Rule

open SymbolicAlgebra.Expr Fold

variable {K : Nat → R → Prop} {i j k n : Nat} {e : Expr R}

/-- The outcome is no failure, and if it is an expression, its operands are simplified and it has
the bound, or a literal in it has left the scale. -/
def Stays (K : Nat → R → Prop) (n : Nat) (o : Outcome R) : Prop :=
  ∃ next, o = .ok next ∧ ∀ e, next = some e → Ready K n e ∨ LeavesScale K n e

theorem stays_none : Stays K n (.ok (none : Option (Expr R))) := ⟨none, rfl, nofun⟩

theorem stays_some (h : Ready K n e ∨ LeavesScale K n e) : Stays K n (.ok (some e)) := by
  refine ⟨some e, rfl, ?_⟩
  intro e' he
  rw [← Option.some.inj he]
  exact h

/-- No quotient by a literal with a bound fails. -/
theorem stays_divide {a b : R} {f : R → Expr R} (hb : Scalar.isZero b = false)
    (h : Stays K n (.ok (some (f (a / b))))) :
    Stays K n ((divide a b).map fun v => some (f v)) := by
  rw [divide, hb]
  exact h

/-- The outcomes of a rule for simplified operands, not both of them literals, stay within the
bound of the operation. -/
def Bounded (K : Nat → R → Prop) (rule : Binary R) : Prop :=
  ∀ ⦃i j n : Nat⦄ ⦃l r : Expr R⦄, i + j ≤ n → Operand K i l → Operand K j r →
    (l.asNumber? = none ∨ r.asNumber? = none) → Stays K n (rule l r)

theorem bounded_firstMatch {table : List (Binary R)} (h : ∀ rule ∈ table, Bounded K rule) :
    Bounded K (firstMatch table) := by
  intro i j n l r hn hl hr hne
  induction table with
  | nil => exact stays_none
  | cons rule table ih =>
    obtain ⟨next, hrule, hnext⟩ := h rule List.mem_cons_self hn hl hr hne
    rw [firstMatch, hrule]
    cases next with
    | some e => exact ⟨some e, rfl, hnext⟩
    | none =>
      apply ih
      intro rule' hrule'
      exact h rule' (List.mem_cons_of_mem _ hrule')

/-- A rule with a condition, from what it gives where the condition holds. -/
theorem bounded_exprIf {c : Expr R → Expr R → Bool} {f : Expr R → Expr R → Expr R}
    (h : ∀ ⦃i j n l r⦄, i + j ≤ n → Operand K i l → Operand K j r →
      (l.asNumber? = none ∨ r.asNumber? = none) → c l r = true → Ready K n (f l r)) :
    Bounded K (always fun l r => exprIf (c l r) (f l r)) := by
  intro i j n l r hn hl hr hne
  change Stays K n (.ok (if c l r then some (f l r) else none))
  split
  · exact stays_some (.inl (h hn hl hr hne ‹_›))
  · exact stays_none

/-- A rule for a literal zero does not apply. -/
theorem bounded_of_isNumber_zero {c : Expr R → Expr R → Bool} {f : Expr R → Expr R → Expr R}
    (h : ∀ l r, l.isNumber 0 = false → r.isNumber 0 = false → c l r = false)
    (hK : LiteralScale K) : Bounded K (always fun l r => exprIf (c l r) (f l r)) := by
  apply bounded_exprIf
  intro i j n l r _ hl hr _ hc
  rw [h l r (hl.scaled.isNumber_zero hK) (hr.scaled.isNumber_zero hK)] at hc
  cases hc

theorem bounded_bothOpposite {op : BinaryOp} (hop : op = .mul ∨ op = .div) :
    Bounded K (always (bothOpposite op)) := by
  intro i j n l r hn hl hr _
  unfold always bothOpposite
  split
  · rename_i a b ha hb
    obtain ⟨hl, hne⟩ := hl.of_negated? ha
    obtain ⟨hr, -⟩ := hr.of_negated? hb
    exact stays_some (.inl (.operation hop hn hl hr (.inl hne)))
  · exact stays_none

theorem bounded_byOne (hK : LiteralScale K) : Bounded K (always byOne) := by
  apply bounded_exprIf
  intro i j n l r hn hl _ _ _
  exact .operand (hl.mono hK (by omega))

/-! ### Joining literals -/

/-- A literal operand of the node and a literal operand of the other operand, with their
bounds. -/
structure Regroups (K : Nat → R → Prop) (i j k n : Nat) (c : R) (w : WithLiteral R) : Prop where
  bound : i + j + k ≤ n
  outer : K i c
  inner : K j w.literal
  other : Operand K k w.other
  other_ne : w.other.asNumber? = none

variable {c v : R} {w : WithLiteral R}

/-- Two literals of which the product or quotient has the bounds of the two together are joined
within the bound. -/
theorem Regroups.ready (h : Regroups K i j k n c w) (hv : K (i + j) v)
    (he : Joined v w.other e) : Ready K n e := by
  have hn := h.bound
  cases he with
  | times => exact .operation (.inl rfl) hn (.number hv) h.other (.inr h.other_ne)
  | dividend => exact .operation (.inr rfl) hn (.number hv) h.other (.inr h.other_ne)
  | divisor => exact .operation (.inr rfl) (by omega) h.other (.number hv) (.inl h.other_ne)

/-- The two literals joined to one, in a product or quotient with the other operand. -/
theorem Regroups.stays (hK : LiteralScale K) (h : Regroups K i j k n c w)
    (hv : v = c * w.literal ∨ v = c / w.literal ∨ v = w.literal * c ∨ v = w.literal / c)
    (he : Joined v w.other e) : Stays K n (.ok (some e)) := by
  apply stays_some
  by_cases hk : K (i + j) v
  · exact .inl (h.ready hk he)
  have hn := h.bound
  have hlost : Lost K n v := by
    rcases hv with hv | hv | hv | hv
    · exact ⟨i, j, _, _, by omega, h.outer, h.inner, .inl hv, hk⟩
    · exact ⟨i, j, _, _, by omega, h.outer, h.inner, .inr hv, hk⟩
    · exact ⟨j, i, _, _, by omega, h.inner, h.outer, .inl hv, by rwa [Nat.add_comm]⟩
    · exact ⟨j, i, _, _, by omega, h.inner, h.outer, .inr hv, by rwa [Nat.add_comm]⟩
  exact .inr ⟨v, w.other, hlost, h.other.mono hK (by omega), h.other_ne, he⟩

/-- A literal and the literal operand of an operand. -/
theorem exists_regroups {l r : Expr R} (hn : i + j ≤ n) (hl : Operand K i l) (hr : Operand K j r)
    (hc : l.asNumber? = some c) (hw : withLiteral? r = some w) :
    ∃ j' k, Regroups K i j' k n c w := by
  obtain ⟨j', k, hj, hinner, hother⟩ := hr.of_withLiteral? hw
  exact ⟨j', k, by omega, hl.of_asNumber? hc, hinner, hother, Operand.asNumber?_other hw⟩

theorem bounded_literalTimes (hK : LiteralScale K) : Bounded K literalTimes := by
  intro i j n l r hn hl hr _
  unfold literalTimes
  split
  · rename_i c w hc hw
    obtain ⟨j', k, h⟩ := exists_regroups hn hl hr hc hw
    unfold regroupTimes
    split
    · exact h.stays hK (.inl rfl) .times
    · exact stays_divide (hK.ne_zero h.inner) (h.stays hK (.inr (.inl rfl)) .times)
    · exact h.stays hK (.inl rfl) .dividend
    · exact stays_none
  · exact stays_none

theorem bounded_overLiteral (hK : LiteralScale K) : Bounded K overLiteral := by
  intro i j n l r hn hl hr _
  unfold overLiteral
  split
  · rename_i d w hd hw
    have hn : j + i ≤ n := by omega
    obtain ⟨j', k, h⟩ := exists_regroups hn hr hl hd hw
    have hd := hK.ne_zero h.outer
    unfold regroupOver
    split
    · exact stays_divide hd (h.stays hK (.inr (.inr (.inr rfl))) .times)
    · exact h.stays hK (.inr (.inr (.inl rfl))) .divisor
    · exact stays_divide hd (h.stays hK (.inr (.inr (.inr rfl))) .dividend)
    · exact stays_none
  · exact stays_none

theorem bounded_literalOver (hK : LiteralScale K) : Bounded K literalOver := by
  intro i j n l r hn hl hr _
  unfold literalOver
  split
  · rename_i c w hc hw
    obtain ⟨j', k, h⟩ := exists_regroups hn hl hr hc hw
    have hw := hK.ne_zero h.inner
    unfold regroupUnder
    split
    · exact stays_divide hw (h.stays hK (.inr (.inl rfl)) .dividend)
    · exact h.stays hK (.inl rfl) .dividend
    · exact stays_divide hw (h.stays hK (.inr (.inl rfl)) .times)
    · exact stays_none
  · exact stays_none

/-- No divisor with a bound is the literal zero. -/
theorem bounded_overZero (hK : LiteralScale K) : Bounded K overZero := by
  intro i j n l r _ _ hr _
  have hz : isZeroLiteral r = false := by
    cases hr.scaled with
    | number h => exact hK.ne_zero h
    | _ => rfl
  rw [overZero, hz]
  exact stays_none

/-! ### Tables -/

/-- The rules of products and quotients stay within the bound. -/
theorem bounded_rules {op : BinaryOp} (hop : op = .mul ∨ op = .div) (hK : LiteralScale K)
    {rule : Binary R} (h : rule ∈ rules op) : Bounded K rule := by
  rcases hop with rfl | rfl
  · simp only [rules, productRules, List.mem_cons, List.not_mem_nil, or_false] at h
    rcases h with rfl | rfl | rfl | rfl | rfl | rfl | rfl
    · exact bounded_of_isNumber_zero (fun l r hl hr => by rw [hl, hr]; rfl) hK
    · exact bounded_byOne hK
    · apply bounded_exprIf
      intro i j n l r hn _ hr _ _
      exact .operand (hr.mono hK (by omega))
    · exact bounded_bothOpposite (.inl rfl)
    · apply bounded_exprIf
      intro i j n l r hn _ hr _ _
      exact .neg (hr.mono hK (by omega))
    · apply bounded_exprIf
      intro i j n l r hn hl hr hne _
      exact .operation (.inl rfl) (by omega) hr hl hne.symm
    · exact bounded_literalTimes hK
  · simp only [rules, quotientRules, List.mem_cons, List.not_mem_nil, or_false] at h
    rcases h with rfl | rfl | rfl | rfl | rfl | rfl | rfl
    · exact bounded_overZero hK
    · exact bounded_byOne hK
    · exact bounded_of_isNumber_zero (fun l r hl _ => hl) hK
    · apply bounded_exprIf
      intro i j n l r _ _ _ _ _
      exact .operand (.number (hK.mono (Nat.zero_le n) hK.one))
    · exact bounded_bothOpposite (.inr rfl)
    · exact bounded_overLiteral hK
    · exact bounded_literalOver hK

/-- The rules of opposites give a simplified expression. -/
theorem operand_of_unary? (hK : LiteralScale K) {a : Expr R} (ha : Operand K n a)
    (h : unary? .negate a = some e) : Operand K n e := by
  cases contractum_of_unary? h with
  | negateNumber => exact .number (hK.neg (ha.of_asNumber? rfl))
  | negateComplex | negateQuantity => cases ha.scaled
  | negateNegate => exact (ha.of_negated? rfl).1
  | undone hinv => cases hinv
  | logOfBase hop => rcases hop with h | h | h <;> cases h

/-- No rule fails on a node over simplified operands with a bound, and what a rule puts in its
place is such a node or has a literal that has left the scale. -/
theorem stays_reduce? (hK : LiteralScale K) (h : Ready K n e) : Stays K n (reduce? e) := by
  cases h with
  | operand h =>
    rw [h.normal.reduce?_eq]
    exact stays_none
  | neg h =>
    refine ⟨_, rfl, ?_⟩
    intro e he
    exact .inl (.operand (operand_of_unary? hK h he))
  | operation hop hn hl hr hne =>
    rw [reduce?_binary (hl.scaled.literals?_eq_none hr.scaled hne)]
    refine bounded_firstMatch ?_ hn hl hr hne
    intro rule hrule
    exact bounded_rules hop hK hrule

/-- A rule makes `next` of the node. -/
def Step (node next : Expr R) : Prop := reduce? node = .ok (some next)

end Rule

/-! ## Runs -/

namespace Expr

variable {K : Nat → R → Prop} {n : Nat} {e node next last : Expr R}

/-- In a run on the expression, rules lead from the node over its simplified operands to `last`,
a node over simplified operands, in one step or more. -/
inductive StepsTo : Expr R → Expr R → Prop where
  | once {e node next last : Expr R} (h : e.mapChildren .shape Expr.simplified = .ok node)
      (hstep : Rule.Step node next) (hlast : next.mapChildren .shape Expr.simplified = .ok last) :
      StepsTo e last
  | more {e node next last : Expr R} (h : e.mapChildren .shape Expr.simplified = .ok node)
      (hstep : Rule.Step node next) (hnext : StepsTo next last) : StepsTo e last

/-- An expression is simplified as what a rule makes of the node over its simplified operands. -/
theorem simplified_eq_of_step (h : e.mapChildren .shape Expr.simplified = .ok node)
    (hstep : Rule.Step node next) : e.simplified = next.simplified := by
  rw [simplified_eq, h]
  change simplifyNext node = next.simplified
  rw [simplifyNext, hstep]

/-- An expression is simplified as every node that its run comes to. -/
theorem StepsTo.simplified_eq (h : StepsTo e last) : e.simplified = simplifyNext last := by
  induction h with
  | once h hstep hlast =>
    rw [simplified_eq_of_step h hstep, Expr.simplified_eq, hlast]
    rfl
  | more h hstep _ ih =>
    rw [simplified_eq_of_step h hstep]
    exact ih

/-- The steps from the node over the simplified operands are steps from the expression. -/
theorem StepsTo.of_node (h : e.mapChildren .shape Expr.simplified = .ok node)
    (hnode : node.mapChildren .shape Expr.simplified = .ok node) (hsteps : StepsTo node last) :
    StepsTo e last := by
  cases hsteps with
  | once h' hstep hlast =>
    rw [hnode] at h'
    rw [← Except.ok.inj h'] at hstep
    exact .once h hstep hlast
  | more h' hstep hnext =>
    rw [hnode] at h'
    rw [← Except.ok.inj h'] at hstep
    exact .more h hstep hnext

/-- A run on a node over simplified operands has a result with the bound, or it comes to a node
with a literal that has left the scale. -/
theorem Ready.run (hK : LiteralScale K) (h : Ready K n e) :
    (∃ s, e.simplified = .ok s ∧ Scaled K n s) ∨
      ∃ last, StepsTo e last ∧ LeavesScale K n last := by
  induction e using simplified_induct with
  | step e _ ih =>
    have hnode := h.mapChildren_eq
    obtain ⟨next?, hr, hnext⟩ := Rule.stays_reduce? hK h
    cases next? with
    | none => exact .inl ⟨e, simplified_eq_ok_iff.2 ⟨e, hnode, .inl ⟨hr, rfl⟩⟩, h.scaled⟩
    | some next =>
      rcases hnext next rfl with hready | hleaves
      · rw [simplified_eq_of_step hnode hr]
        rcases ih e next hnode hr hready with hdone | ⟨last, hsteps, hleaves⟩
        · exact .inl hdone
        · exact .inr ⟨last, .more hnode hr hsteps, hleaves⟩
      · exact .inr ⟨next, .once hnode hr hleaves.mapChildren_eq, hleaves⟩

/-- Folding two literals of a product or quotient, the divisor not zero, gives their product or
quotient. -/
theorem exists_fold {op : BinaryOp} (hop : op = .mul ∨ op = .div) (a : R) {b : R}
    (hb : Scalar.isZero b = false) :
    ∃ v, (v = a * b ∨ v = a / b) ∧ Fold.real? op a b = .ok (some (.number v)) := by
  rcases hop with rfl | rfl
  · exact ⟨a * b, .inl rfl, rfl⟩
  · refine ⟨a / b, .inr rfl, ?_⟩
    rw [Fold.real?, Fold.divide, hb]
    rfl

/-- A node over two literals is simplified to what they fold to. -/
theorem simplifyNext_literals {op : BinaryOp} {a b v : R}
    (h : Fold.real? op a b = .ok (some (.number v))) :
    simplifyNext (.binary op (.number a) (.number b)) = .ok (.number v) := by
  have hfold : Fold.literals? op (.number a) (.number b) = .ok (some (.number v)) := h
  refine simplifyNext_eq_ok_iff.2 (.inr ⟨.number v, ?_, simplified_number v⟩)
  rw [Rule.reduce?_literals (by rw [hfold]; nofun), hfold]

/-- Where no literal leaves the scale, every product or quotient with a bound has a simplified
form with the bound. -/
theorem Scaled.simplified (hK : LiteralScale K) (h : Scaled K n e) (hlost : ∀ v, ¬ Lost K n v) :
    ∃ s, e.simplified = .ok s ∧ Scaled K n s := by
  -- No node with a lost literal is come to, so the run on a node ends with a result.
  have hrun : ∀ {m node}, Ready K m node → (∀ v, ¬ Lost K m v) →
      ∃ s, node.simplified = .ok s ∧ Scaled K m s := by
    intro m node hready hlost
    rcases hready.run hK with hdone | ⟨last, -, v, x, hv, -⟩
    · exact hdone
    · exact absurd hv (hlost v)
  induction h with
  | var n x => exact ⟨_, simplified_var x, .var n x⟩
  | number hv => exact ⟨_, simplified_number _, .number hv⟩
  | @neg n a _ ih =>
    obtain ⟨s, hs, hscaled⟩ := ih hlost
    have hs' := simplified_of_simplified hs
    rw [simplified_unary_eq hs, ← simplified_unary_eq hs']
    exact hrun (.neg ⟨hscaled, normal_of_simplified hs⟩) hlost
  | @operation op i j n l r hop hn _ _ ihl ihr =>
    obtain ⟨l', hl', hl⟩ := ihl fun v hv => hlost v (hv.mono (by omega))
    obtain ⟨r', hr', hr⟩ := ihr fun v hv => hlost v (hv.mono (by omega))
    rw [simplified_binary_eq hl' hr']
    by_cases hne : l'.asNumber? = none ∨ r'.asNumber? = none
    · rw [← simplified_binary_eq (simplified_of_simplified hl') (simplified_of_simplified hr')]
      have hl : Operand K i l' := ⟨hl, normal_of_simplified hl'⟩
      have hr : Operand K j r' := ⟨hr, normal_of_simplified hr'⟩
      exact hrun (.operation hop hn hl hr hne) hlost
    · obtain ⟨a, b, rfl, rfl⟩ := exists_literals hne
      cases hl with
      | number ha =>
        cases hr with
        | number hb =>
          obtain ⟨v, hv, hfold⟩ := exists_fold hop a (hK.ne_zero hb)
          refine ⟨.number v, simplifyNext_literals hfold, .number ?_⟩
          by_contra hk
          exact hlost v ⟨i, j, a, b, hn, ha, hb, hv, fun h => hk (hK.mono hn h)⟩

/-! ## Nodes with a literal zero -/

/-- Any literal, in the place of a bound. -/
def AnyLiteral (_ : Nat) (_ : R) : Prop := True

variable {l r : Expr R}

/-- A product with the literal zero is simplified to a literal. -/
theorem simplifyNext_mul_zero (hl : Scaled AnyLiteral n l) (hr : Scaled AnyLiteral n r)
    (hz : l.isNumber 0 = true ∨ r.isNumber 0 = true) :
    ∃ v, simplifyNext (.mul l r) = .ok (.number v) := by
  by_cases hne : l.asNumber? = none ∨ r.asNumber? = none
  · have hzero : (l.isNumber 0 || r.isNumber 0) = true := by
      rw [Bool.or_eq_true]
      exact hz
    refine ⟨0, simplifyNext_eq_ok_iff.2 (.inr ⟨.zero, ?_, simplified_number 0⟩)⟩
    rw [Rule.reduce?_binary (hl.literals?_eq_none hr hne)]
    simp only [Rule.rules, Rule.productRules, Rule.firstMatch, Rule.always, Rule.timesZero,
      Rule.exprIf, hzero, if_true]
  · obtain ⟨a, b, rfl, rfl⟩ := exists_literals hne
    exact ⟨a * b, simplifyNext_literals rfl⟩

/-- The literal zero over anything is simplified to a literal. -/
theorem simplifyNext_zero_div {z : R} (hz : Scalar.isZero z = true) (hr : Scaled AnyLiteral n r) :
    ∃ v, simplifyNext (.div (.number z) r) = .ok (.number v) := by
  have hl : Scaled AnyLiteral n (.number z) := .number trivial
  cases hr' : r.asNumber? with
  | some b =>
    rw [Rule.eq_number_of_asNumber? hr']
    -- Zero over zero is no number, and no failure.
    cases hb : Scalar.isZero b with
    | true =>
      refine ⟨Scalar.nan, simplifyNext_literals ?_⟩
      rw [Fold.real?, Fold.divide, hb, hz]
      rfl
    | false =>
      obtain ⟨v, -, hfold⟩ := exists_fold (.inr rfl) z hb
      exact ⟨v, simplifyNext_literals hfold⟩
  | none =>
    have hover : Rule.overZero (.number z) r = .ok none := by
      cases hr with
      | number => cases hr'
      | _ => rfl
    have hzero : (Expr.number z).isNumber 0 = true := hz
    refine ⟨0, simplifyNext_eq_ok_iff.2 (.inr ⟨.zero, ?_, simplified_number 0⟩)⟩
    rw [Rule.reduce?_binary (hl.literals?_eq_none hr (.inr hr'))]
    simp only [Rule.rules, Rule.quotientRules, Rule.firstMatch, hover, Rule.always, Rule.byOne,
      Rule.zeroOver, Rule.exprIf, isNumber_eq_false hr', hzero, Bool.false_eq_true, if_false,
      if_true]

/-- The rules refuse a quotient by the literal zero unless the dividend is zero. -/
theorem reduce?_div_zero {z : R} (hne : l.isNumber 0 = false) (hl : ∀ w, l ≠ .complex w)
    (hz : Scalar.isZero z = true) :
    Rule.reduce? (.div l (.number z)) = .error .divideByZero := by
  have hover : Rule.overZero l (.number z) = .error .divideByZero := by
    rw [Rule.overZero, Rule.isZeroLiteral, hz]
    rfl
  cases l with
  | number a =>
    have ha : Scalar.isZero a = false := hne
    have hfold : Fold.literals? .div (.number a) (.number z) = .error .divideByZero := by
      rw [Fold.literals?, Fold.real?, Fold.divide, hz, ha]
      rfl
    rw [Rule.reduce?_literals (by rw [hfold]; nofun), hfold]
  | complex w => exact absurd rfl (hl w)
  | _ =>
    rw [Rule.reduce?_binary rfl]
    simp only [Rule.rules, Rule.quotientRules, Rule.firstMatch, hover]

/-- A node that the rules refuse has no simplified form. -/
theorem simplifyNext_eq_error {x : SimplifyError} (h : Rule.reduce? node = .error x) :
    simplifyNext node = .error x := by
  rw [simplifyNext, h]

end Expr

end SymbolicAlgebra
