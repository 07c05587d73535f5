import SymbolicAlgebra.Proofs.PrintedSyntax
import SymbolicAlgebra.Proofs.ScalarText

set_option autoImplicit false

/-!
# Printed literals

A literal is written as a real literal, two of them with a sign between them, or one of them
with the symbol of a unit. Where the scalars are finite the text stands for the literal
(`printed_number`, `printed_complex`, `printed_quantity`). The words of the other scalars stand for
themselves alone, so behind them the imaginary unit and the symbols of most units are read as
names. Hence the text of a literal stands for what the literal is read back as
(`printedLiteral`).

With the literals every readable expression is printed: its text stands for what it is read
back as (`printed_reread`), and where the literals can be written, this is the expression itself
(`printed_of_readable`).
-/

namespace SymbolicAlgebra

open SymbolicAlgebra.Expr (numberText operandText reread)

variable {R : Type} [Scalar R] {U : FunctionTable R} {e : Expr R}

/-! ## Real literals -/

/-- The text of the scalar is a real literal, possibly behind a minus sign, and the scalar that
this is read as is the same. -/
def ReadsBack (v : R) : Prop :=
  ∃ minus s, ∃ a : R, RealText s a ∧ (Scalar.text v).toList = signText minus ++ s ∧
    Scalar.same (withSign minus a) v = true

theorem WrittenAs.readsBack {s : List Char} {v a : R} (ha : RealText s a)
    (h : WrittenAs v s a) : ReadsBack v :=
  ⟨_, s, a, ha, h.text, h.same⟩

theorem readsBack_of_isFinite [DecimalText R] {v : R} (hv : Scalar.isFinite v = true) :
    ReadsBack v := by
  obtain ⟨whole, fraction, hp, h⟩ := DecimalText.exists_plain hv
  exact h.readsBack (.numeral hp)

theorem readsBack [ScalarText R] (v : R) : ReadsBack v := by
  cases hv : Scalar.isFinite v with
  | true => exact readsBack_of_isFinite hv
  | false =>
    obtain ⟨minus, x, a, hx, ht, -, hs⟩ := ScalarText.exists_word hv
    exact ⟨minus, _, a, .word hx, ht, hs⟩

/-- The text of a scalar that reads back is an operand. -/
theorem ReadsBack.spellsOperand {v : R} (h : ReadsBack v) :
    SpellsOperand U (Scalar.text v).toList (.number v) := by
  obtain ⟨minus, s, a, ha, ht, hs⟩ := h
  rw [ht]
  cases minus with
  | true => exact ⟨_, _, .opposite (.real ha), hs⟩
  | false => exact ⟨_, _, .atom (.real ha), hs⟩

/-- A negative number other than zero is written in parentheses. -/
theorem Expr.numberText_negative {v : R} (hn : Scalar.isNaN v = false)
    (hv : (Scalar.signBit v && !Scalar.isZero v) = true) :
    numberText v = "(-" ++ Scalar.text (-v) ++ ")" := by
  rw [numberText, hn, if_neg Bool.false_ne_true, if_pos hv]

/-- Every other number is written with its text. -/
theorem Expr.numberText_eq_text {v : R} (hn : Scalar.isNaN v = false)
    (hv : (Scalar.signBit v && !Scalar.isZero v) = false) :
    numberText v = Scalar.text v := by
  rw [numberText, hn, if_neg Bool.false_ne_true, hv, if_neg Bool.false_ne_true]

/-- The literal of a number is printed, with a sign in parentheses unless it is zero. -/
theorem printed_number {s : List Char} {v a : R} (ha : RealText s a) (h : WrittenAs v s a) :
    Printed U (.number v) (.number v) := by
  have hn := h.isNaN_eq_false
  have hoperand : SpellsOperand U (Scalar.text v).toList (.number v) :=
    (h.readsBack ha).spellsOperand
  have ht := h.text
  have hs := h.same
  cases hsign : Scalar.signBit v with
  | false =>
    refine printed_of_atomic rfl (by simp [Expr.isNegativeZero, hsign]) ?_
    rw [hsign] at ht hs
    rw [Expr.text_number, Expr.numberText_eq_text hn (by simp [hsign]), ht]
    exact ⟨_, _, .real ha, hs⟩
  | true =>
    have habs : Scalar.abs v = -v := if_pos hsign
    rw [hsign] at ht
    cases hzero : Scalar.isZero v with
    | false =>
      -- the parentheses make the sign and what is behind it an operand
      refine printed_of_atomic rfl (by simp [Expr.isNegativeZero, hzero]) ?_
      have hgroup := hoperand.spells.group
      rw [ht, ← h.text_abs, habs] at hgroup
      rw [Expr.text_number, Expr.numberText_negative hn (by simp [hsign, hzero])]
      simpa [signText] using hgroup
    | true =>
      -- a zero has its sign in the open, and without the sign it is the opposite zero
      have htext : (Expr.number v).text = Scalar.text v :=
        Expr.numberText_eq_text hn (by simp [hzero])
      have htext' : operandText (.number v) (Expr.number v).text = Scalar.text v := htext
      have hz : (Expr.number v).isNegativeZero = true := by
        simp [Expr.isNegativeZero, hsign, hzero]
      refine ⟨?_, ?_, fun hz' => ?_, fun _ => ⟨s, ?_, _, _, .real ha, ?_⟩⟩
      · rw [htext]
        exact hoperand.spells
      · rw [htext']
        exact hoperand
      · rw [hz] at hz'
        cases hz'
      · rw [htext', ht]
        rfl
      · change Scalar.same a (-v) = true
        rw [← habs]
        exact h.same_abs

/-- What is no number is printed as its word. -/
theorem printed_nan [ScalarText R] {v : R} (hv : Scalar.isNaN v = true) :
    Printed U (.number v) (.number v) := by
  have hzero : Scalar.isZero v = false := ScalarText.eqv_of_isNaN v 0 hv
  refine printed_of_atomic rfl (by simp [Expr.isNegativeZero, hzero]) ?_
  have htext : (Expr.number v).text = "NaN" := if_pos hv
  rw [htext]
  refine ⟨_, _, .real (.word (x := "NaN") rfl), ?_⟩
  change Scalar.same Scalar.nan v = true
  rw [Scalar.same, ScalarText.isNaN_nan, hv]
  exact Bool.or_true _

/-! ## Complex literals -/

/-- The sign between the parts of a complex literal. -/
theorem toList_sign (minus : Bool) :
    (if minus then "-" else "+").toList = [signChar minus] := by
  cases minus <;> rfl

/-- A complex literal is printed where its imaginary part is finite. -/
theorem printed_complex [DecimalText R] {z : ComplexNumber R} (hre : ReadsBack z.re)
    (him : Scalar.isFinite z.im = true) : Printed U (.complex z) (.complex z) := by
  obtain ⟨minus, s, a, ha, ht, hs⟩ := hre
  obtain ⟨whole, fraction, hp, him⟩ := DecimalText.exists_plain him
  refine printed_of_atomic rfl rfl ?_
  have h : Spells U _ (.complex z) :=
    ⟨_, _, .rectangular minus (Scalar.signBit z.im) ha hp,
      Bool.and_eq_true_iff.2 ⟨hs, him.same⟩⟩
  have hgroup := h.group
  rw [Expr.text_complex, ComplexNumber.text]
  simpa [ht, him.text_abs, toList_sign, signText] using hgroup

/-- The word of what is not finite and the imaginary unit are a name. -/
theorem isVariableName_text_abs [ScalarText R] {v : R} (hv : Scalar.isFinite v = false) :
    isVariableName (Scalar.text (Scalar.abs v) ++ "i") = true := by
  obtain ⟨-, x, a, hx, -, rfl, -⟩ := ScalarText.exists_word hv
  rcases Lexeme.eq_of_scalarWord? hx with hx | hx <;> rw [hx] <;> decide +kernel

/-- Otherwise it is printed as a sum of its real part and a name. -/
theorem printed_complex_word [ScalarText R] {z : ComplexNumber R}
    (him : Scalar.isFinite z.im = false) :
    Printed U (.complex z)
      (.binary (if Scalar.signBit z.im then .sub else .add) (.number z.re)
        (.var (Scalar.text (Scalar.abs z.im) ++ "i"))) := by
  refine printed_of_atomic rfl rfl ?_
  obtain ⟨w, e', h, hs⟩ := (readsBack z.re).spellsOperand (U := U)
  have hsum : Spells U _ (.binary (if Scalar.signBit z.im then .sub else .add) (.number z.re)
      (.var (Scalar.text (Scalar.abs z.im) ++ "i"))) :=
    ⟨_, _, .sum (Scalar.signBit z.im) h (.name (isVariableName_text_abs him)),
      by simp [Expr.same, hs]⟩
  have hgroup := hsum.group
  rw [Expr.text_complex, ComplexNumber.text]
  simpa [toList_sign] using hgroup

/-! ## Quantities -/

/-- A quantity is printed where the text of its magnitude and the symbol of its unit are read as
a quantity. -/
theorem printed_quantity_of_atom {minus : Bool} {s : List Char} {a : R} {q : Quantity R}
    (h : Atom U (s ++ ' ' :: q.unit.symbol.toList) [.number a, .unit q.unit]
      (.quantity ⟨a, q.unit⟩))
    (ht : (Scalar.text q.magnitude).toList = signText minus ++ s)
    (hs : Scalar.same (withSign minus a) q.magnitude = true) :
    Printed U (.quantity q) (.quantity q) := by
  refine printed_of_atomic rfl rfl ?_
  have hunit : decide (q.unit = q.unit) = true := decide_eq_true rfl
  have hspells : Spells U (signText minus ++ (s ++ ' ' :: q.unit.symbol.toList))
      (.quantity q) := by
    cases minus with
    | false => exact ⟨_, _, .atom h, Bool.and_eq_true_iff.2 ⟨hunit, hs⟩⟩
    | true => exact ⟨_, _, .negate h, Bool.and_eq_true_iff.2 ⟨hunit, hs⟩⟩
  rw [Expr.text_quantity, Quantity.text]
  simpa [ht] using hspells.group

/-- A quantity of finite magnitude is printed. -/
theorem printed_quantity [DecimalText R] {q : Quantity R}
    (hq : Scalar.isFinite q.magnitude = true) : Printed U (.quantity q) (.quantity q) := by
  obtain ⟨whole, fraction, hp, h⟩ := DecimalText.exists_plain hq
  exact printed_quantity_of_atom (.quantity hp q.unit) h.text h.same

/-- So is any other, where the symbol of its unit starts with a degree sign. -/
theorem printed_temperature [ScalarText R] {q : Quantity R}
    (hq : Scalar.isFinite q.magnitude = false) (hu : q.unit.hasDegreeSign = true) :
    Printed U (.quantity q) (.quantity q) := by
  obtain ⟨minus, x, a, hx, ht, -, hs⟩ := ScalarText.exists_word hq
  exact printed_quantity_of_atom (.temperature hx hu) ht hs

/-- What the symbol of a unit stands for behind a word equals itself. -/
theorem same_factor [ScalarText R] (u : MeasureUnit) :
    (u.factor : Expr R).same u.factor = true := by
  unfold MeasureUnit.factor
  split
  · exact beq_self_eq_true u.stemName
  · simp [Expr.same, ScalarText.same_self]

/-- Otherwise it is printed as a product. -/
theorem printed_quantity_word [ScalarText R] {q : Quantity R}
    (hq : Scalar.isFinite q.magnitude = false) (hu : q.unit.hasDegreeSign = false) :
    Printed U (.quantity q) (.mul (.number q.magnitude) q.unit.factor) := by
  refine printed_of_atomic rfl rfl ?_
  obtain ⟨minus, x, a, hx, ht, -, hs⟩ := ScalarText.exists_word hq
  have hproduct : Spells U _ (.mul (.number q.magnitude) q.unit.factor) :=
    ⟨_, _, .product minus hx hu, by simp [Expr.same, hs, same_factor]⟩
  rw [Expr.text_quantity, Quantity.text]
  simpa [ht, signText] using hproduct.group

/-! ## All literals -/

/-- A literal of scalars is printed: its text stands for what it is read back as. -/
def PrintedLiteral (U : FunctionTable R) (e : Expr R) : Prop :=
  match e with
  | .number _ | .complex _ | .quantity _ => Printed U e e.reread
  | _ => True

/-- A literal that is read back as itself. -/
theorem printedLiteral_of_restorableNode (h : e.RestorableNode) (hp : Printed U e e)
    (hc : e.children = []) : PrintedLiteral U e := by
  have hself : e.reread = e := by
    rw [Expr.reread_eq_withChildren h, hc, List.map_nil, ← hc, Expr.withChildren_children]
  cases e <;> first | trivial | (rw [PrintedLiteral, hself]; exact hp)

/-- The literals that can be written are printed. -/
theorem printedLiteral_of_writableNode [DecimalText R] (h : e.WritableNode) :
    PrintedLiteral U e := by
  cases e with
  | number v =>
    obtain ⟨whole, fraction, hp, hv⟩ := DecimalText.exists_plain h.1
    exact printedLiteral_of_restorableNode trivial (printed_number (.numeral hp) hv) rfl
  | complex z =>
    have hprinted := printed_complex (U := U) (readsBack_of_isFinite h.1) h.2
    exact printedLiteral_of_restorableNode h.2 hprinted rfl
  | quantity q =>
    have hfinite : Scalar.isFinite q.magnitude = true := h
    refine printedLiteral_of_restorableNode ?_ (printed_quantity hfinite) rfl
    rw [Expr.RestorableNode, hfinite, Bool.true_or]
  | _ => trivial

/-- The text of any number stands for its literal. -/
theorem printed_number_any [ScalarText R] (v : R) : Printed U (.number v) (.number v) := by
  cases hfinite : Scalar.isFinite v with
  | true =>
    obtain ⟨whole, fraction, hp, hv⟩ := DecimalText.exists_plain hfinite
    exact printed_number (.numeral hp) hv
  | false =>
    rcases ScalarText.isInfinite_or_isNaN hfinite with hv | hv
    · exact printed_number (.word (x := "inf") rfl) (ScalarText.writtenAs_inf hv)
    · exact printed_nan hv

/-- With the words of the other scalars every literal is printed. -/
theorem printedLiteral [ScalarText R] (U : FunctionTable R) (e : Expr R) :
    PrintedLiteral U e := by
  cases e with
  | number v => exact printedLiteral_of_restorableNode trivial (printed_number_any v) rfl
  | complex z =>
    cases him : Scalar.isFinite z.im with
    | true =>
      exact printedLiteral_of_restorableNode him (printed_complex (readsBack z.re) him) rfl
    | false =>
      have hreread : (Expr.complex z).reread = _ :=
        (Expr.reread_eq _).trans (if_neg (by simp [him]))
      rw [PrintedLiteral, hreread]
      exact printed_complex_word him
  | quantity q =>
    cases hfinite : Scalar.isFinite q.magnitude with
    | true =>
      refine printedLiteral_of_restorableNode ?_ (printed_quantity hfinite) rfl
      rw [Expr.RestorableNode, hfinite, Bool.true_or]
    | false =>
      cases hu : q.unit.hasDegreeSign with
      | true =>
        refine printedLiteral_of_restorableNode ?_ (printed_temperature hfinite hu) rfl
        rw [Expr.RestorableNode, hu, Bool.or_true]
      | false =>
        have hreread : (Expr.quantity q).reread = _ :=
          (Expr.reread_eq _).trans (if_neg (by simp [hfinite, hu]))
        rw [PrintedLiteral, hreread]
        exact printed_quantity_word hfinite hu
  | _ => trivial

/-! ## All expressions -/

omit [Scalar R] in
theorem Expr.and_of_forall_mem_pair {p : Expr R → Prop} {l r : Expr R}
    (h : ∀ c ∈ [l, r], p c) : p l ∧ p r :=
  ⟨h l (List.mem_cons_self ..), h r (List.mem_pair.2 (.inr rfl))⟩

/-- A readable node that is read back as itself is printed where its subexpressions are. -/
theorem printed_restorableNode (hr : e.ReadableNode U) (hn : e.RestorableNode)
    (hlit : PrintedLiteral U e) (hes : ∀ c ∈ e.children, Printed U c c.reread) :
    Printed U e e.reread := by
  have hmembers : List.Forall₂ (Printed U) e.children (e.children.map reread) :=
    List.forall₂_map_right_iff.2 (List.forall₂_same.2 hes)
  have hself := Expr.reread_eq_withChildren hn
  rw [hself]
  cases e with
  | number v | complex z | quantity q =>
    rw [PrintedLiteral, hself] at hlit
    exact hlit
  | truth b => exact printed_truth b
  | var x => exact printed_var hr
  | rational n d =>
    obtain ⟨hn, hd⟩ := Expr.and_of_forall_mem_pair hes
    exact printed_rational hn hd
  | unary op u =>
    have hu := List.forall_mem_singleton.1 hes
    cases hop : op.isFunction with
    | true => exact printed_function hop hu
    | false =>
      cases op with
      | negate => exact printed_negate hu Expr.takesSign_of_reread
      | not => exact printed_not hu
      | factorial => exact printed_factorial hu hn
      | _ => cases hop
  | binary op l r =>
    obtain ⟨hl, hr'⟩ := Expr.and_of_forall_mem_pair hes
    by_cases hp : op = .pow
    · subst hp
      exact printed_pow hn hl hr'
    · cases hop : op.isBetween with
      | true => exact printed_between hop hp hl hr'
      | false => exact printed_binary_function hop hl hr'
  | aggregate op es => exact printed_aggregate hr hmembers
  | vector es => exact printed_vector (Expr.readsAsMatrix_reread es) hmembers
  | matrix rows =>
    exact printed_matrix (Expr.rowsFit_reread hr) (Expr.readsAsMatrix_reread rows) hmembers
  | call f es => exact printed_call hr.1 hr.2 hmembers
  | define t v =>
    obtain ⟨ht, hv⟩ := Expr.and_of_forall_mem_pair hes
    exact printed_define hr (Expr.keepsTarget_reread t) ht hv
  | undefine t =>
    have ht := List.forall_mem_singleton.1 hes
    exact printed_undefine hr (Expr.keepsTarget_reread t) ht
  | increment t =>
    have ht := List.forall_mem_singleton.1 hes
    exact printed_increment hr (Expr.keepsTarget_reread t) ht
  | decrement t =>
    have ht := List.forall_mem_singleton.1 hes
    exact printed_decrement hr (Expr.keepsTarget_reread t) ht
  | update op t v =>
    obtain ⟨ht, hv⟩ := Expr.and_of_forall_mem_pair hes
    exact printed_update hr (Expr.keepsTarget_reread t) ht hv
  | derivative u x =>
    have hu := List.forall_mem_singleton.1 hes
    exact printed_derivative hr hu
  | ifThen c t | ifThenElse c t u | forLoop i c s u | whileLoop c u | simplify u =>
    exact printed_construct rfl hmembers

/-- So is every exception. -/
theorem printed_exception (hn : ¬ e.RestorableNode) (hlit : PrintedLiteral U e)
    (hes : ∀ c ∈ e.children, Printed U c c.reread) : Printed U e e.reread := by
  cases e with
  | complex z => exact hlit
  | quantity q => exact hlit
  | unary op u =>
    cases op with
    | factorial =>
      have hz : u.isNegativeZero = true := Bool.not_eq_false _ ▸ hn
      have hu := List.forall_mem_singleton.1 hes
      rw [Expr.reread_factorial_negativeZero hz]
      exact printed_factorial_negativeZero hu hz
    | _ => exact absurd trivial hn
  | binary op l r =>
    cases op with
    | pow =>
      obtain ⟨hl, hr'⟩ := Expr.and_of_forall_mem_pair hes
      have hz : l.isNegativeZero = true := Bool.not_eq_false _ ▸ hn
      rw [Expr.reread_pow_negativeZero hz]
      exact printed_pow_negativeZero hz hl hr'
    | _ => exact absurd trivial hn
  | _ => exact absurd trivial hn

/-- The text of a readable expression stands for what it is read back as, given that the
texts of its literals do. -/
theorem printed_reread_of_literals (hr : e.Readable U)
    (hl : e.Everywhere (PrintedLiteral U)) : Printed U e e.reread := by
  induction e using Expr.induction with
  | step e ih =>
    obtain ⟨hnode, hchildren⟩ := Expr.readable_iff.1 hr
    have hes : ∀ c ∈ e.children, Printed U c c.reread := fun c hc =>
      ih c hc (hchildren c hc) (hl.child hc)
    -- what the subexpressions are read back as is known; only the node itself matters
    by_cases hn : e.RestorableNode
    · exact printed_restorableNode hnode hn hl.here hes
    · exact printed_exception hn hl.here hes

/-- The text of a readable expression stands for what it is read back as. -/
theorem printed_reread [ScalarText R] (hr : e.Readable U) : Printed U e e.reread :=
  printed_reread_of_literals hr (hr.imp fun c _ => printedLiteral U c)

/-- The text of a readable expression whose literals can be written stands for an equal
expression. -/
theorem printed_of_readable [DecimalText R] (hr : e.Readable U) (hw : e.Writable) :
    Printed U e e := by
  have h := printed_reread_of_literals hr
    (hw.imp fun c hc => printedLiteral_of_writableNode hc)
  rwa [Expr.reread_eq_self (Expr.restorable_of_writable hw)] at h

end SymbolicAlgebra
