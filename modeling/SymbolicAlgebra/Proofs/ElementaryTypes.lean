import SymbolicAlgebra.Proofs.Position
import SymbolicAlgebra.Typing.Infer

set_option autoImplicit false

/-!
# Expressions of numbers and truth values

The elementary expressions (`Expr.Elementary`) are those in which everything, at every position, is
a number or a truth value. On this fragment the typing tables can be read backwards: the type of a
node (`Expr.OfType`) says what the types of its operands are. Arithmetic on elementary numbers is
an elementary number, and an operation that is one has such operands (`Expr.IsReal`).

What these rules rest on is that the type of a node depends on its direct subexpressions only
through their types (`Expr.resultType_withChildren`).
-/

namespace SymbolicAlgebra

/-! ## Elementary types and the operations on them -/

/-- Whether the type is that of numbers or that of truth values. -/
def ResultType.isElementary : ResultType → Bool
  | .number | .boolean => true
  | _ => false

/-- Whether the operation takes two numbers to a number and takes nothing else that is
elementary. -/
def BinaryOp.isArithmetic : BinaryOp → Bool
  | .add | .sub | .mul | .div | .pow | .mod | .root | .log | .round => true
  | _ => false

/-- On elementary types an arithmetic operation takes two numbers to a number. -/
theorem BinaryOp.eq_number_of_isArithmetic {op : BinaryOp} (hop : op.isArithmetic = true)
    {a b t : ResultType} (ha : a.isElementary = true) (hb : b.isElementary = true)
    (h : op.resultType? a b = some t) : a = .number ∧ b = .number ∧ t = .number := by
  cases a <;> cases ha <;> cases b <;> cases hb <;> cases op <;> cases hop <;> cases h <;>
    exact ⟨rfl, rfl, rfl⟩

theorem BinaryOp.resultType?_number {op : BinaryOp} (hop : op.isArithmetic = true) :
    op.resultType? .number .number = some .number := by
  cases op <;> first | rfl | cases hop

/-- On elementary types only two numbers are taken to a number. -/
theorem BinaryOp.eq_number_of_resultType? {op : BinaryOp} {a b : ResultType}
    (ha : a.isElementary = true) (hb : b.isElementary = true)
    (h : op.resultType? a b = some .number) : a = .number ∧ b = .number := by
  cases a <;> cases ha <;> cases b <;> cases hb <;> first
    | exact ⟨rfl, rfl⟩
    | (cases op <;> cases h)

namespace Expr

variable {R : Type} {P : Parameters R} {e l r : Expr R} {t : ResultType}

/-! ## The fragment -/

/-- Everything in the expression, at every position, is a number or a truth value. -/
def Elementary (P : Parameters R) (e : Expr R) : Prop :=
  ∀ p d, e.subexprAt? p = some d → d.resultType P = .ok .number ∨ d.resultType P = .ok .boolean

/-- An elementary expression is one with an elementary type over elementary
subexpressions. -/
theorem elementary_iff :
    e.Elementary P ↔ (∃ t : ResultType, t.isElementary = true ∧ e.resultType P = .ok t) ∧
      ∀ c ∈ e.children, c.Elementary P := by
  constructor
  · intro h
    constructor
    · rcases h [] e rfl with he | he
      · exact ⟨.number, rfl, he⟩
      · exact ⟨.boolean, rfl, he⟩
    · intro c hc p d hd
      obtain ⟨i, hi⟩ := List.mem_iff_getElem?.1 hc
      exact h (i :: p) d (subexprAt?_cons_eq_some_iff.2 ⟨c, hi, hd⟩)
  · rintro ⟨⟨t, ht, he⟩, hc⟩ p d hd
    cases p with
    | nil =>
      rw [← Option.some.inj hd, he]
      cases t <;> first | exact .inl rfl | exact .inr rfl | cases ht
    | cons i p =>
      obtain ⟨c, hi, hd⟩ := subexprAt?_cons_eq_some_iff.1 hd
      exact hc c (List.mem_of_getElem? hi) p d hd

/-- The expression is elementary and has the type. -/
structure OfType (P : Parameters R) (e : Expr R) (t : ResultType) : Prop where
  /-- Everything in it is a number or a truth value. -/
  elementary : e.Elementary P
  /-- It has the type. -/
  type : e.resultType P = .ok t

/-- The expression is elementary and a number. -/
abbrev IsReal (P : Parameters R) (e : Expr R) : Prop := e.OfType P .number

theorem OfType.isElementary (h : e.OfType P t) : t.isElementary = true := by
  obtain ⟨t', ht', he⟩ := (elementary_iff.1 h.elementary).1
  rw [h.type] at he
  rw [Except.ok.inj he]
  exact ht'

theorem Elementary.exists_ofType (h : e.Elementary P) : ∃ t, e.OfType P t := by
  obtain ⟨t, -, ht⟩ := (elementary_iff.1 h).1
  exact ⟨t, h, ht⟩

/-- A direct subexpression is elementary as well. -/
theorem OfType.child (h : e.OfType P t) {c : Expr R} (hc : c ∈ e.children) :
    ∃ t', c.OfType P t' :=
  ((elementary_iff.1 h.elementary).2 c hc).exists_ofType

/-- A node with an elementary type over elementary subexpressions. -/
theorem OfType.node (ht : t.isElementary = true) (he : e.resultType P = .ok t)
    (hc : ∀ c ∈ e.children, c.Elementary P) : e.OfType P t :=
  ⟨elementary_iff.2 ⟨⟨t, ht, he⟩, hc⟩, he⟩

/-! ## Nodes -/

theorem isReal_number (v : R) : (Expr.number v).IsReal P := .node rfl rfl nofun

theorem ofType_truth (b : Bool) : (Expr.truth b : Expr R).OfType P .boolean :=
  .node rfl rfl nofun

theorem not_ofType_complex (z : ComplexNumber R) : ¬ (Expr.complex z).OfType P t := by
  intro h
  have ht := h.isElementary
  cases h.type
  cases ht

theorem not_ofType_quantity (q : Quantity R) : ¬ (Expr.quantity q).OfType P t := by
  intro h
  -- The type is one of those of quantities, whatever the dimension.
  have ht := h.isElementary
  have hq := ResultType.isQuantity_ofDimension q.unit.dimension
  obtain rfl := Except.ok.inj h.type
  generalize ResultType.ofDimension q.unit.dimension = t at ht hq
  cases t with
  | number | boolean => cases hq
  | _ => cases ht

/-- An elementary operation on one operand, by the table of types. -/
theorem ofType_unary_iff {op : UnaryOp} :
    (Expr.unary op e).OfType P t ↔
      t.isElementary = true ∧ ∃ a, e.OfType P a ∧ op.resultType? a = some t := by
  constructor
  · intro h
    obtain ⟨a, ha⟩ := h.child List.mem_cons_self
    refine ⟨h.isElementary, a, ha, ?_⟩
    obtain ⟨a', ha', hu⟩ := bind_eq_ok_iff.1 h.type
    rw [ha.type] at ha'
    obtain rfl := Except.ok.inj ha'
    have hne : a ≠ .undefined := by
      rintro rfl
      cases ha.isElementary
    unfold Typing.unaryOutcome at hu
    rw [if_neg hne] at hu
    split at hu
    · rename_i t' ht'
      rw [ht', Except.ok.inj hu]
    · cases hu
  · rintro ⟨ht, a, ha, hop⟩
    refine .node ht (bind_eq_ok_iff.2 ⟨a, ha.type, ?_⟩) ?_
    · have hne : a ≠ .undefined := by
        rintro rfl
        cases ha.isElementary
      unfold Typing.unaryOutcome
      rw [if_neg hne, hop]
    · intro c hc
      rw [List.mem_singleton.1 hc]
      exact ha.elementary

/-- An elementary operation on two operands, by the table of types. -/
theorem ofType_binary_iff {op : BinaryOp} :
    (Expr.binary op l r).OfType P t ↔
      t.isElementary = true ∧
        ∃ a b, l.OfType P a ∧ r.OfType P b ∧ op.resultType? a b = some t := by
  constructor
  · intro h
    obtain ⟨a, ha⟩ := h.child (c := l) List.mem_cons_self
    obtain ⟨b, hb⟩ := h.child (c := r) (List.mem_cons_of_mem _ List.mem_cons_self)
    refine ⟨h.isElementary, a, b, ha, hb, ?_⟩
    obtain ⟨a', ha', hr⟩ := bind_eq_ok_iff.1 h.type
    obtain ⟨b', hb', hu⟩ := bind_eq_ok_iff.1 hr
    rw [ha.type] at ha'
    rw [hb.type] at hb'
    obtain rfl := Except.ok.inj ha'
    obtain rfl := Except.ok.inj hb'
    have hne : ¬ (a = .undefined ∨ b = .undefined) := by
      rintro (rfl | rfl)
      · cases ha.isElementary
      · cases hb.isElementary
    unfold Typing.binaryOutcome at hu
    rw [if_neg hne] at hu
    split at hu
    · rename_i t' ht'
      rw [ht', Except.ok.inj hu]
    · cases hu
  · rintro ⟨ht, a, b, ha, hb, hop⟩
    refine .node ht (bind_eq_ok_iff.2 ⟨a, ha.type, bind_eq_ok_iff.2 ⟨b, hb.type, ?_⟩⟩) ?_
    · have hne : ¬ (a = .undefined ∨ b = .undefined) := by
        rintro (rfl | rfl)
        · cases ha.isElementary
        · cases hb.isElementary
      unfold Typing.binaryOutcome
      rw [if_neg hne, hop]
    · intro c hc
      rcases List.mem_pair.1 hc with rfl | rfl
      · exact ha.elementary
      · exact hb.elementary

/-- Arithmetic on numbers is a number. -/
theorem IsReal.arithmetic {op : BinaryOp} (hop : op.isArithmetic = true) (hl : l.IsReal P)
    (hr : r.IsReal P) : (Expr.binary op l r).IsReal P :=
  ofType_binary_iff.2 ⟨rfl, .number, .number, hl, hr, BinaryOp.resultType?_number hop⟩

/-- An operation on two operands that is a number has numbers for operands. -/
theorem IsReal.operands {op : BinaryOp} (h : (Expr.binary op l r).IsReal P) :
    l.IsReal P ∧ r.IsReal P := by
  obtain ⟨-, a, b, ha, hb, hop⟩ := ofType_binary_iff.1 h
  obtain ⟨rfl, rfl⟩ :=
    BinaryOp.eq_number_of_resultType? ha.isElementary hb.isElementary hop
  exact ⟨ha, hb⟩

/-- The opposite of a number is a number, and nothing else elementary has an opposite. -/
theorem ofType_neg_iff : (Expr.neg e).OfType P t ↔ t = .number ∧ e.IsReal P := by
  constructor
  · intro h
    obtain ⟨ht, a, ha, hop⟩ := ofType_unary_iff.1 h
    have hel := ha.isElementary
    cases a <;> cases hel <;> cases hop
    exact ⟨rfl, ha⟩
  · rintro ⟨rfl, he⟩
    exact ofType_unary_iff.2 ⟨rfl, .number, he, rfl⟩

/-! ## Nodes over other subexpressions -/

/-- The type of a node depends on its direct subexpressions only through their types. It depends
on the parameters only where the node is a variable. -/
theorem resultType_withChildren {P' : Parameters R} {cs : List (Expr R)}
    (hvar : ∀ x, e = .var x → varType P' x = varType P x)
    (h : List.Forall₂ (fun c c' => c'.resultType P' = c.resultType P) e.children cs) :
    (e.withChildren cs).resultType P' = e.resultType P := by
  have hall : ∀ {es cs : List (Expr R)},
      List.Forall₂ (fun c c' => c'.resultType P' = c.resultType P) es cs →
        resultTypes P' cs = resultTypes P es := by
    intro es cs h
    induction h with
    | nil => rfl
    | cons hc _ ih => rw [resultTypes, resultTypes, hc, ih]
  cases e with
  | number | truth | complex | quantity => cases h; rfl
  | var x => exact congrArg Except.ok (hvar x rfl)
  | unary | undefine | increment | decrement | simplify | derivative =>
    obtain _ | ⟨h₁, _ | _⟩ := h
    simp only [withChildren, resultType, h₁]
  | rational | binary | define | update | ifThen | whileLoop =>
    obtain _ | ⟨h₁, _ | ⟨h₂, _ | _⟩⟩ := h
    simp only [withChildren, resultType, h₁, h₂]
  | ifThenElse =>
    obtain _ | ⟨h₁, _ | ⟨h₂, _ | ⟨h₃, _ | _⟩⟩⟩ := h
    simp only [withChildren, resultType, h₁, h₂, h₃]
  | forLoop =>
    obtain _ | ⟨h₁, _ | ⟨h₂, _ | ⟨h₃, _ | ⟨h₄, _ | _⟩⟩⟩⟩ := h
    simp only [withChildren, resultType, h₁, h₂, h₃, h₄]
  | aggregate _ es | vector es | matrix es | call _ es =>
    have hes : resultTypes P' cs = resultTypes P es := hall h
    simp only [withChildren, resultType, hes]

end Expr

end SymbolicAlgebra
