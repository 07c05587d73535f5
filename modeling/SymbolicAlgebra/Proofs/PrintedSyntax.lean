import SymbolicAlgebra.Proofs.BuiltinNames
import SymbolicAlgebra.Proofs.PhraseDerivation
import SymbolicAlgebra.Proofs.Readable
import SymbolicAlgebra.Proofs.Reread

set_option autoImplicit false

/-!
# The printer writes the concrete syntax

The text of a readable expression is one of the texts of the concrete syntax. The proof goes
through the nodes: the texts of the subexpressions are operands (`SpellsOperand`), in parentheses
where they are not atomic, or members of a list, and each node has one form into which it puts
them.

What stands for a subexpression need not equal it, because some literals are read back as
something else. So each lemma on a kind of node says what the text of the node stands for, given
what the texts of its subexpressions stand for (`Printed`, `Spells`). The literals of scalars are
left to another module.
-/

namespace SymbolicAlgebra

variable {R : Type}

namespace Expr

variable [Scalar R]

/-! ## What equal expressions share -/

/-- The members of two lists are equal. -/
abbrev SameMembers (es es' : List (Expr R)) : Prop :=
  List.Forall₂ (fun e e' => e.same e' = true) es es'

/-- Lists are equal where their members are. -/
theorem sameList_iff {es es' : List (Expr R)} :
    sameList es es' = true ↔ SameMembers es es' := by
  induction es generalizing es' with
  | nil => cases es' <;> simp [sameList]
  | cons e es ih =>
    cases es' with
    | nil => simp [sameList]
    | cons e' es' => simp [sameList, ih]

variable {e e' : Expr R} {es es' : List (Expr R)}

theorem eq_var_of_same {x : String} (h : e.same (.var x) = true) : e = .var x := by
  cases e <;> simp only [same, Bool.false_eq_true] at h
  rw [eq_of_beq h]

theorem isVar_of_same (h : e'.same e = true) (hv : e.isVar = true) : e'.isVar = true := by
  cases e with
  | var x =>
    rw [eq_var_of_same h]
    rfl
  | _ => cases hv

theorem exists_call_of_same {f : String} (h : e.same (.call f es) = true) :
    ∃ es', e = .call f es' ∧ SameMembers es' es := by
  cases e <;> simp only [same, Bool.false_eq_true] at h
  rename_i f' es'
  simp only [Bool.and_eq_true] at h
  exact ⟨es', by rw [eq_of_beq h.1], sameList_iff.1 h.2⟩

theorem isVarOrCall_of_same (h : e'.same e = true) (hv : e.isVarOrCall = true) :
    e'.isVarOrCall = true := by
  cases e with
  | var x =>
    rw [eq_var_of_same h]
    rfl
  | call f es =>
    obtain ⟨es', rfl, -⟩ := exists_call_of_same h
    rfl
  | _ => cases hv

theorem all_isVar_of_same
    (h : SameMembers es' es) (hv : es.all isVar = true) :
    es'.all isVar = true := by
  induction h with
  | nil => rfl
  | cons he _ ih =>
    simp only [List.all_cons, Bool.and_eq_true] at hv ⊢
    exact ⟨isVar_of_same he hv.1, ih hv.2⟩

theorem isDefinable_of_same (h : e'.same e = true) (hd : Builtin.isDefinable e = true) :
    Builtin.isDefinable e' = true := by
  cases e with
  | var x =>
    rw [eq_var_of_same h]
    rfl
  | call f es =>
    obtain ⟨es', rfl, hes⟩ := exists_call_of_same h
    exact all_isVar_of_same hes hd
  | _ => cases hd

theorem exists_vector_of_same (h : (vector es).same e = true) :
    ∃ es', e = .vector es' ∧ es.length = es'.length := by
  cases e <;> simp only [same, Bool.false_eq_true] at h
  exact ⟨_, rfl, (sameList_iff.1 h).length_eq⟩

theorem isVector_of_same (h : e'.same e = true) : e'.isVector = e.isVector := by
  cases e' with
  | vector es' =>
    obtain ⟨es, rfl, -⟩ := exists_vector_of_same h
    rfl
  | _ => cases e <;> first | rfl | cases h

theorem all_isVector_of_same (h : SameMembers es' es) :
    es'.all isVector = es.all isVector := by
  induction h with
  | nil => rfl
  | cons he _ ih => rw [List.all_cons, List.all_cons, isVector_of_same he, ih]

theorem readsAsMatrix_of_same (h : SameMembers es' es) :
    readsAsMatrix es' = readsAsMatrix es := by
  unfold readsAsMatrix
  rw [all_isVector_of_same h]
  cases h <;> rfl

theorem rowsFit_of_same (h : SameMembers es' es)
    (hr : RowsFit es) : RowsFit es' := by
  obtain ⟨n, hn⟩ := hr
  refine ⟨n, ?_⟩
  induction h with
  | nil => nofun
  | cons he _ ih =>
    intro row hrow
    rcases List.mem_cons.1 hrow with rfl | hrow
    · obtain ⟨row', rfl, hlen⟩ := exists_vector_of_same he
      rw [hlen]
      exact hn row' (List.mem_cons_self ..)
    · exact ih (fun row' hrow' => hn row' (List.mem_cons_of_mem _ hrow')) row hrow

end Expr

open SymbolicAlgebra.Expr (text operandText commaText callText braceText SameMembers)

variable [Scalar R] {U : FunctionTable R} {e e₀ : Expr R} {es es₀ : List (Expr R)}

/-! ## Texts of expressions -/

/-- The text stands for an expression that equals `e`. -/
def Spells (U : FunctionTable R) (s : List Char) (e : Expr R) : Prop :=
  ∃ w e', Phrase U s w e' ∧ e'.same e = true

/-- The text is an operand that stands for an expression that equals `e`. -/
def SpellsOperand (U : FunctionTable R) (s : List Char) (e : Expr R) : Prop :=
  ∃ w e', Operand U s w e' ∧ e'.same e = true

/-- The text is an operand without a sign that stands for an expression that equals `e`. -/
def SpellsAtom (U : FunctionTable R) (s : List Char) (e : Expr R) : Prop :=
  ∃ w e', Atom U s w e' ∧ e'.same e = true

theorem SpellsOperand.spells {s : List Char} (h : SpellsOperand U s e) : Spells U s e := by
  obtain ⟨w, e', h, he⟩ := h
  exact ⟨w, e', .operand h, he⟩

theorem SpellsAtom.operand {s : List Char} (h : SpellsAtom U s e) : SpellsOperand U s e := by
  obtain ⟨w, e', h, he⟩ := h
  exact ⟨w, e', .atom h, he⟩

theorem Spells.group {s : List Char} (h : Spells U s e) :
    SpellsAtom U ('(' :: (s ++ [')'])) e := by
  obtain ⟨w, e', h, he⟩ := h
  exact ⟨_, e', .group h, he⟩

/-- The text of `e`, by itself and as an operand, stands for `e₀`. Only a negative zero has a
sign as an operand; what is behind its sign then stands for its opposite. -/
structure Printed (U : FunctionTable R) (e e₀ : Expr R) : Prop where
  /-- The text stands for the expression. -/
  spells : Spells U e.text.toList e₀
  /-- So does the text as an operand. -/
  operand : SpellsOperand U (operandText e e.text).toList e₀
  /-- Mostly the operand has no sign. -/
  atom : e.isNegativeZero = false → SpellsAtom U (operandText e e.text).toList e₀
  /-- A negative zero is a sign and its opposite. -/
  opposite : e.isNegativeZero = true →
    ∃ s, (operandText e e.text).toList = '-' :: s ∧ SpellsAtom U s e₀.oppositeLiteral

theorem printed_of_atomic (ha : e.isAtomic = true) (hz : e.isNegativeZero = false)
    (h : SpellsAtom U e.text.toList e₀) : Printed U e e₀ := by
  have htext : operandText e e.text = e.text := if_pos ha
  refine ⟨h.operand.spells, ?_, fun _ => ?_, fun hz' => ?_⟩
  · rw [htext]
    exact h.operand
  · rw [htext]
    exact h
  · rw [hz] at hz'
    cases hz'

theorem printed_of_not_atomic (ha : e.isAtomic = false) (h : Spells U e.text.toList e₀) :
    Printed U e e₀ := by
  have hgroup : SpellsAtom U (operandText e e.text).toList e₀ := by
    rw [operandText, if_neg (by simp [ha])]
    simpa using h.group
  refine ⟨h, hgroup.operand, fun _ => hgroup, fun hz => ?_⟩
  cases e <;> first | cases hz | cases ha

/-! ## Lists -/

/-- The texts of expressions with commas between them. -/
theorem exists_items (hes : List.Forall₂ (Printed U) es es₀) (hne : es ≠ []) :
    ∃ w es', Items U (commaText (es.map text)).toList w es' ∧
      SameMembers es' es₀ := by
  induction hes with
  | nil => exact absurd rfl hne
  | @cons e e₀ es es₀ he hes ih =>
    obtain ⟨w, e', h, hs⟩ := he.spells
    cases hes with
    | nil => exact ⟨w, [e'], by simpa [commaText] using .one h, .cons hs .nil⟩
    | @cons c c₀ cs cs₀ hc hcs =>
      obtain ⟨w', es', h', hs'⟩ := ih (List.cons_ne_nil c cs)
      refine ⟨w ++ .delimiter .comma :: w', e' :: es', ?_, .cons hs hs'⟩
      have htext : (commaText ((e :: c :: cs).map text)).toList =
          e.text.toList ++ ',' :: ' ' :: (commaText ((c :: cs).map text)).toList := by
        simp [commaText, String.intercalate_cons_cons]
      rw [htext]
      exact .cons h h'

/-- The text between two brackets. -/
theorem exists_body (hes : List.Forall₂ (Printed U) es es₀) :
    ∃ w es', Body U (commaText (es.map text)).toList w es' ∧
      SameMembers es' es₀ := by
  cases es with
  | nil =>
    cases hes
    exact ⟨[], [], by simpa [commaText] using .empty, .nil⟩
  | cons c cs =>
    obtain ⟨w, es', h, hs⟩ := exists_items hes (List.cons_ne_nil c cs)
    exact ⟨w, es', .items h, hs⟩

/-! ## Calls and collections -/

open Grammar (callOf collection)

/-- A name with arguments in brackets is an operand where the call stands for an equal
expression. -/
theorem spellsAtom_call {f : String} {b b' : Delimiter} (hf : isFunctionName f = true)
    (hb : b.closing? = some b') (hes : List.Forall₂ (Printed U) es es₀)
    (he : ∀ es', SameMembers es' es₀ → ∃ e', callOf U f es' = .ok e' ∧ e'.same e₀ = true) :
    SpellsAtom U
      (f.toList ++ b.char :: ((commaText (es.map text)).toList ++ [b'.char])) e₀ := by
  obtain ⟨w, es', h, hs⟩ := exists_body hes
  obtain ⟨e', he', hs'⟩ := he es' hs
  exact ⟨_, e', .call hf hb h he', hs'⟩

theorem spellsAtom_callText {f : String} (hf : isFunctionName f = true)
    (hes : List.Forall₂ (Printed U) es es₀)
    (he : ∀ es', SameMembers es' es₀ → ∃ e', callOf U f es' = .ok e' ∧ e'.same e₀ = true) :
    SpellsAtom U (callText f (es.map text)).toList e₀ := by
  have h := spellsAtom_call (b := .openParen) hf rfl hes he
  simpa [callText, Delimiter.char] using h

/-- The call of a built-in function with an equal expression. -/
theorem spellsAtom_builtin {f : String} {b : Builtin} (hb : Builtin.ofName? f = some b)
    (ha : b.accepts es.length = true) (hes : List.Forall₂ (Printed U) es es₀)
    (he : ∀ es', SameMembers es' es₀ → ∃ e', b.build f es' = .ok e' ∧ e'.same e₀ = true) :
    SpellsAtom U (callText f (es.map text)).toList e₀ := by
  refine spellsAtom_callText (Builtin.isFunctionName_of_ofName? hb) hes fun es' hs => ?_
  rw [Grammar.callOf_builtin hb (by rw [hs.length_eq, ← hes.length_eq]; exact ha)]
  exact he es' hs

/-- A collection whose name stands before its braces. -/
theorem spellsAtom_braceText {f : String} {b : Builtin} (hb : Builtin.ofName? f = some b)
    (ha : b.accepts es.length = true) (hes : List.Forall₂ (Printed U) es es₀)
    (he : ∀ es', SameMembers es' es₀ → ∃ e', b.build f es' = .ok e' ∧ e'.same e₀ = true) :
    SpellsAtom U (braceText f (es.map text)).toList e₀ := by
  have h := spellsAtom_call (U := U) (b := .openBrace)
    (Builtin.isFunctionName_of_ofName? hb) rfl hes fun es' hs => by
      rw [Grammar.callOf_builtin hb (by rw [hs.length_eq, ← hes.length_eq]; exact ha)]
      exact he es' hs
  simpa [braceText, Delimiter.char] using h

/-- A collection in bare braces. -/
theorem spellsAtom_list (hes : List.Forall₂ (Printed U) es es₀)
    (he : ∀ es', SameMembers es' es₀ → ∃ e', collection es' = .ok e' ∧ e'.same e₀ = true) :
    SpellsAtom U (braceText "" (es.map text)).toList e₀ := by
  obtain ⟨w, es', h, hs⟩ := exists_body hes
  obtain ⟨e', he', hs'⟩ := he es' hs
  have h' : SpellsAtom U _ e₀ := ⟨_, e', .list h he', hs'⟩
  simpa [braceText] using h'

/-! ## Truth values and names -/

theorem printed_truth (b : Bool) : Printed U (.truth b) (.truth b) := by
  refine printed_of_atomic rfl rfl ?_
  rw [Expr.text_truth]
  exact ⟨_, _, .truth b, beq_self_eq_true b⟩

theorem printed_var {x : String} (hx : isVariableName x = true) :
    Printed U (.var x) (.var x) := by
  refine printed_of_atomic rfl rfl ?_
  rw [Expr.text_var]
  exact ⟨_, _, .name hx, beq_self_eq_true x⟩

/-! ## Operations on one operand -/

/-- A minus sign before an operand of several tokens, or before what is no literal, is an
operation. -/
theorem Grammar.negated_eq_neg {n : Nat} (hn : n ≠ 1) (hq : n = 2 → ∀ q, e ≠ .quantity q) :
    Grammar.negated e n = .neg e := by
  unfold Grammar.negated
  split
  · exact absurd rfl hn
  · exact absurd rfl hn
  · exact absurd rfl (hq rfl _)
  · rfl

/-- A minus sign before an operand that is neither a number nor a quantity is an
operation. -/
theorem Atom.negated {s : List Char} {w : List (Token R)} (h : Atom U s w e)
    (hv : e.takesSign = false) : Grammar.negated e w.length = .neg e := by
  have hlong : w.length ≠ 1 → Grammar.negated e w.length = .neg e := by
    refine fun hn => Grammar.negated_eq_neg hn fun _ q => ?_
    rintro rfl
    cases hv
  cases h with
  | real h => cases hv
  | quantity h u => cases hv
  | temperature h hu => cases hv
  | truth b => rfl
  | name h => rfl
  | group h => exact hlong (by simp)
  | call hf hb h he => exact hlong (by simp)
  | list h he => exact hlong (by simp)

/-- A minus sign before an operand in parentheses is an operation. -/
theorem Phrase.negated {s : List Char} {w : List (Token R)} (h : Phrase U s w e) :
    Grammar.negated e (w.length + 2) = .neg e := by
  have hlen := List.length_pos_iff.2 h.isAssignment.ne_nil
  exact Grammar.negated_eq_neg (by omega) (by omega)

/-- Equal expressions are both literals that take a sign or both none. -/
theorem Expr.takesSign_of_same (h : e.same e₀ = true) : e.takesSign = e₀.takesSign := by
  cases e <;> cases e₀ <;> first | rfl | cases h

theorem printed_negate (h : Printed U e e₀) (ht : e₀.takesSign = true → e.takesSign = true) :
    Printed U (.unary .negate e) (.unary .negate e₀) := by
  refine printed_of_not_atomic rfl ?_
  rw [Expr.text_negate]
  cases hsign : e.takesSign with
  | true =>
    -- in parentheses the literal is more than one token and takes no sign for its own
    have htext : Expr.negationText e e.text = "-(" ++ e.text ++ ")" := by
      cases e <;> first | rfl | cases hsign
    obtain ⟨w, e', h, hs⟩ := h.spells
    have hn := Phrase.negate (.group h)
    rw [List.length_cons, List.length_append, List.length_singleton, h.negated] at hn
    exact ⟨_, _, by simpa [htext] using hn, by simpa [Expr.same] using hs⟩
  | false =>
    have hz : e.isNegativeZero = false := by
      cases e <;> first | rfl | cases hsign
    have htext : Expr.negationText e e.text = "-" ++ operandText e e.text := by
      cases e <;> first | rfl | cases hsign
    obtain ⟨w, e', h, hs⟩ := h.atom hz
    -- what is read back for the operand takes no sign either
    have hsign' : e'.takesSign = false := by
      rw [Expr.takesSign_of_same hs, Bool.eq_false_iff]
      intro h₀
      rw [ht h₀] at hsign
      cases hsign
    have hn := Phrase.negate h
    rw [h.negated hsign'] at hn
    exact ⟨_, _, by simpa [htext] using hn, by simpa [Expr.same] using hs⟩

theorem printed_not (h : Printed U e e₀) : Printed U (.unary .not e) (.unary .not e₀) := by
  refine printed_of_not_atomic rfl ?_
  obtain ⟨w, e', h, hs⟩ := h.operand
  rw [Expr.text_not]
  exact ⟨_, _, by simpa using Phrase.not h, by simpa [Expr.same] using hs⟩

/-- An operand with a trailing operator. -/
theorem spells_trailing {op : Operator} {t t₀ : Expr R} (h : Printed U t t₀)
    (hz : t.isNegativeZero = false)
    (he : ∀ t', t'.same t₀ = true →
      ∃ e', Grammar.trailed? t' op = some (.ok e') ∧ e'.same e₀ = true) :
    Spells U (operandText t t.text ++ op.symbol).toList e₀ := by
  obtain ⟨w, t', h, hs⟩ := h.atom hz
  obtain ⟨e', he', hs'⟩ := he t' hs
  exact ⟨_, e', by simpa using Phrase.power (.trailing h he'), hs'⟩

theorem printed_factorial (h : Printed U e e₀) (hz : e.isNegativeZero = false) :
    Printed U (.unary .factorial e) (.unary .factorial e₀) := by
  refine printed_of_not_atomic rfl ?_
  have htext : Spells U (operandText e e.text ++ Operator.factorial.symbol).toList
      (.unary .factorial e₀) :=
    spells_trailing h hz fun e' hs => ⟨_, rfl, by simpa [Expr.same] using hs⟩
  rw [Expr.text_factorial]
  exact htext

/-- The sign of a negative zero takes in the factorial behind it. -/
theorem printed_factorial_negativeZero (h : Printed U e e₀) (hz : e.isNegativeZero = true) :
    Printed U (.unary .factorial e) (.neg (.unary .factorial e₀.oppositeLiteral)) := by
  refine printed_of_not_atomic rfl ?_
  -- the factorial stands behind the zero without its sign, and the sign before both
  obtain ⟨s, hs, w, e', h, hsame⟩ := h.opposite hz
  have htrailing : Power U (s ++ Operator.factorial.symbol.toList) _ _ := .trailing h rfl
  rw [Expr.text_factorial, String.toList_append, hs]
  exact ⟨_, _, .opposite htrailing, by simpa [Grammar.negated, Expr.same] using hsame⟩

theorem printed_function {op : UnaryOp} (hop : op.isFunction = true) (h : Printed U e e₀) :
    Printed U (.unary op e) (.unary op e₀) := by
  refine printed_of_atomic hop rfl ?_
  rw [Expr.text_function hop]
  obtain ⟨b, hb, ha, hbuild⟩ := Builtin.exists_unary (R := R) hop
  refine spellsAtom_builtin hb ha (.cons h .nil) fun es' hs => ?_
  cases hs with
  | cons he hn =>
    cases hn
    exact ⟨_, hbuild _, by simpa [Expr.same] using he⟩

/-! ## Operations on two operands -/

/-- Every operation between its operands but the power is a connective of some level. -/
theorem exists_connective {op : BinaryOp} (h : op.isBetween = true) (hp : op ≠ .pow) :
    ∃ l o, Level.connective? l o = some (.operation op) ∧
      o.between = ' ' :: (op.symbol.toList ++ [' ']) := by
  cases op with
  | add => exact ⟨.sum, .plus, rfl, rfl⟩
  | sub => exact ⟨.sum, .minus, rfl, rfl⟩
  | mul => exact ⟨.product, .multiply, rfl, rfl⟩
  | div => exact ⟨.product, .divide, rfl, rfl⟩
  | pow => exact absurd rfl hp
  | mod => exact ⟨.product, .modulo, rfl, rfl⟩
  | less => exact ⟨.comparison, .less, rfl, rfl⟩
  | lessEqual => exact ⟨.comparison, .lessEqual, rfl, rfl⟩
  | greater => exact ⟨.comparison, .greater, rfl, rfl⟩
  | greaterEqual => exact ⟨.comparison, .greaterEqual, rfl, rfl⟩
  | equal => exact ⟨.comparison, .equal, rfl, rfl⟩
  | notEqual => exact ⟨.comparison, .notEqual, rfl, rfl⟩
  | bitAnd => exact ⟨.bitAnd, .bitAnd, rfl, rfl⟩
  | bitOr => exact ⟨.bitOr, .bitOr, rfl, rfl⟩
  | xor => exact ⟨.bitOr, .xor, rfl, rfl⟩
  | nand => exact ⟨.bitAnd, .nand, rfl, rfl⟩
  | nor => exact ⟨.bitOr, .nor, rfl, rfl⟩
  | implication => exact ⟨.bitOr, .implication, rfl, rfl⟩
  | equivalence => exact ⟨.bitOr, .equivalence, rfl, rfl⟩
  | and => exact ⟨.conjunction, .and, rfl, rfl⟩
  | or => exact ⟨.disjunction, .or, rfl, rfl⟩
  | _ => cases h

section Binary

variable {l l₀ r r₀ : Expr R}

/-- The characters of an operation between its operands. -/
theorem toList_text_between {op : BinaryOp} (hop : op.isBetween = true) :
    (Expr.binary op l r).text.toList = (operandText l l.text).toList ++
      (' ' :: (op.symbol.toList ++ [' ']) ++ (operandText r r.text).toList) := by
  simp [Expr.text_between hop]

theorem printed_between {op : BinaryOp} (hop : op.isBetween = true) (hp : op ≠ .pow)
    (hl : Printed U l l₀) (hr : Printed U r r₀) :
    Printed U (.binary op l r) (.binary op l₀ r₀) := by
  refine printed_of_not_atomic (by simp [Expr.isAtomic, hop]) ?_
  obtain ⟨w, l', hw, hl'⟩ := hl.operand
  obtain ⟨w', r', hw', hr'⟩ := hr.operand
  obtain ⟨lv, o, hk, ho⟩ := exists_connective hop hp
  rw [toList_text_between hop, ← ho]
  exact ⟨_, _, .joined hk hw hw', by simp [Connective.combine, Expr.same, hl', hr']⟩

theorem printed_pow (hz : l.isNegativeZero = false) (hl : Printed U l l₀)
    (hr : Printed U r r₀) : Printed U (.pow l r) (.pow l₀ r₀) := by
  refine printed_of_not_atomic rfl ?_
  obtain ⟨w, l', hw, hl'⟩ := hl.atom hz
  obtain ⟨w', r', hw', hr'⟩ := hr.operand
  rw [toList_text_between rfl]
  exact ⟨_, _, .power (.exponent hw hw'), by simp [Expr.same, hl', hr']⟩

/-- The sign of a negative zero takes in the power behind it. -/
theorem printed_pow_negativeZero (hz : l.isNegativeZero = true) (hl : Printed U l l₀)
    (hr : Printed U r r₀) :
    Printed U (.pow l r) (.neg (.pow l₀.oppositeLiteral r₀)) := by
  refine printed_of_not_atomic rfl ?_
  obtain ⟨s, hs, w, l', hw, hl'⟩ := hl.opposite hz
  obtain ⟨w', r', hw', hr'⟩ := hr.operand
  rw [toList_text_between rfl, hs]
  exact ⟨_, _, .opposite (.exponent hw hw'), by simp [Grammar.negated, Expr.same, hl', hr']⟩

theorem printed_binary_function {op : BinaryOp} (hop : op.isBetween = false)
    (hl : Printed U l l₀) (hr : Printed U r r₀) :
    Printed U (.binary op l r) (.binary op l₀ r₀) := by
  refine printed_of_atomic (by simp [Expr.isAtomic, hop]) rfl ?_
  rw [Expr.text_binary_function hop]
  obtain ⟨b, hb, ha, hbuild⟩ := Builtin.exists_binary (R := R) hop
  refine spellsAtom_builtin hb ha (.cons hl (.cons hr .nil)) fun es' hs => ?_
  cases hs with
  | cons hl' hs =>
    cases hs with
    | cons hr' hn =>
      cases hn
      exact ⟨_, hbuild _ _, by simp [Expr.same, hl', hr']⟩

theorem printed_rational (hn : Printed U l l₀) (hd : Printed U r r₀) :
    Printed U (.rational l r) (.rational l₀ r₀) := by
  refine printed_of_atomic rfl rfl ?_
  obtain ⟨w, n', hw, hn'⟩ := hn.operand
  obtain ⟨w', d', hw', hd'⟩ := hd.operand
  have hk : Level.product.connective? .rational = some .fraction := rfl
  have h : Spells U _ (.rational l₀ r₀) :=
    ⟨_, _, .joined hk hw hw', by simp [Connective.combine, Expr.same, hn', hd']⟩
  rw [Expr.text_rational]
  simpa [Operator.between, Operator.symbol] using h.group

end Binary

/-! ## Functions of lists and collections -/

theorem printed_aggregate {op : Aggregate} (hn : op.minArgs ≤ es.length)
    (hes : List.Forall₂ (Printed U) es es₀) :
    Printed U (.aggregate op es) (.aggregate op es₀) := by
  refine printed_of_atomic rfl rfl ?_
  rw [Expr.text_aggregate]
  refine spellsAtom_builtin (Builtin.ofName?_aggregate op) (decide_eq_true hn) hes
    fun es' hs => ⟨.aggregate op es', rfl, ?_⟩
  simp [Expr.same, Expr.sameList_iff.2 hs]

theorem printed_call {f : String} (hf : isFunctionName f = true)
    (hk : Grammar.keepsCall U f es.length = true) (hes : List.Forall₂ (Printed U) es es₀) :
    Printed U (.call f es) (.call f es₀) := by
  refine printed_of_atomic rfl rfl ?_
  rw [Expr.text_call]
  refine spellsAtom_callText hf hes fun es' hs => ⟨.call f es', ?_, ?_⟩
  · exact Grammar.callOf_of_keepsCall (by rw [hs.length_eq, ← hes.length_eq]; exact hk)
  · simp [Expr.same, Expr.sameList_iff.2 hs]

theorem printed_vector (hv : Expr.readsAsMatrix es₀ = Expr.readsAsMatrix es)
    (hes : List.Forall₂ (Printed U) es es₀) : Printed U (.vector es) (.vector es₀) := by
  refine printed_of_atomic rfl rfl ?_
  have hsame : ∀ es', SameMembers es' es₀ → (Expr.vector es').same (.vector es₀) = true :=
    fun es' hs => Expr.sameList_iff.2 hs
  rw [Expr.text_vector]
  split
  · exact spellsAtom_braceText Builtin.ofName?_vector rfl hes
      fun es' hs => ⟨_, rfl, hsame es' hs⟩
  · rename_i hany
    refine spellsAtom_list hes fun es' hs => ⟨.vector es', ?_, hsame es' hs⟩
    -- without a vector among its members the list is no matrix
    have hmatrix : Expr.readsAsMatrix es = false := by
      cases es with
      | nil => rfl
      | cons c cs =>
        simp only [Expr.looksLikeMatrix, List.any_cons, Bool.or_eq_true, not_or] at hany
        simp [Expr.readsAsMatrix, hany.1]
    rw [collection, if_neg (by simp [Expr.readsAsMatrix_of_same hs, hv, hmatrix])]

theorem printed_matrix (hr : Expr.RowsFit es₀)
    (hm : Expr.readsAsMatrix es₀ = Expr.readsAsMatrix es)
    (hes : List.Forall₂ (Printed U) es es₀) : Printed U (.matrix es) (.matrix es₀) := by
  refine printed_of_atomic rfl rfl ?_
  have hsame : ∀ es', SameMembers es' es₀ → (Expr.matrix es').same (.matrix es₀) = true :=
    fun es' hs => Expr.sameList_iff.2 hs
  have hmatrix : ∀ es', SameMembers es' es₀ →
      (Expr.matrixOf es').mapError ParseError.shape = .ok (.matrix es') :=
    fun es' hs => Expr.mapError_eq_ok_iff.2
      (Expr.matrixOf_eq_ok_iff.2 ⟨Expr.rowsFit_of_same hs hr, rfl⟩)
  rw [Expr.text_matrix]
  split
  · rename_i hreads
    refine spellsAtom_list hes fun es' hs => ⟨.matrix es', ?_, hsame es' hs⟩
    rw [collection, if_pos (by rw [Expr.readsAsMatrix_of_same hs, hm, hreads]), hmatrix es' hs]
  · exact spellsAtom_braceText Builtin.ofName?_matrix rfl hes fun es' hs =>
      ⟨.matrix es', hmatrix es' hs, hsame es' hs⟩

/-! ## Definitions and updates -/

section Targets

variable {t t₀ v v₀ : Expr R}

/-- What can be assigned to is no negative zero. -/
theorem Expr.isNegativeZero_of_isVarOrCall (h : t.isVarOrCall = true) :
    t.isNegativeZero = false := by
  cases t <;> first | rfl | cases h

omit [Scalar R] in
theorem Expr.isVarOrCall_of_isVar (h : t.isVar = true) : t.isVarOrCall = true := by
  cases t <;> first | rfl | cases h

omit [Scalar R] in
theorem Expr.isVarOrCall_of_isDefinable (h : Builtin.isDefinable t = true) :
    t.isVarOrCall = true := by
  cases t <;> first | rfl | cases h

/-- An assignment of an operand to a target. -/
theorem spells_assign {op : Operator} (ho : op.isAssignment = true)
    (hb : op.between = ' ' :: (op.symbol.toList ++ [' '])) (hx : t.isVarOrCall = true)
    (ht : Printed U t t₀) (hv : Printed U v v₀)
    (he : ∀ t' v', t'.same t₀ = true → v'.same v₀ = true →
      ∃ e', Grammar.assignTo op t' v' = .ok e' ∧ e'.same e₀ = true) :
    Spells U (operandText t t.text ++ (" " ++ op.symbol ++ " ") ++
      operandText v v.text).toList e₀ := by
  obtain ⟨w, t', hw, ht'⟩ := ht.atom (Expr.isNegativeZero_of_isVarOrCall hx)
  obtain ⟨w', v', hw', hv'⟩ := hv.operand
  obtain ⟨e', he', hs⟩ := he t' v' ht' hv'
  have h : Spells U _ e₀ := ⟨_, _, .assign ho hw hw' he', hs⟩
  rw [hb] at h
  simpa using h

theorem printed_define (hd : Builtin.isDefinable t = true) (hk : Expr.KeepsTarget t t₀)
    (ht : Printed U t t₀) (hv : Printed U v v₀) :
    Printed U (.define t v) (.define t₀ v₀) := by
  refine printed_of_not_atomic rfl ?_
  have ho : Operator.assign.isAssignment = true := rfl
  have h : Spells U _ (.define t₀ v₀) :=
    spells_assign ho rfl (Expr.isVarOrCall_of_isDefinable hd) ht hv fun t' v' ht' hv' => by
      refine ⟨.define t' v', ?_, by simp [Expr.same, ht', hv']⟩
      exact if_pos (Expr.isDefinable_of_same ht' (hk.isDefinable hd))
  rw [Expr.text_define]
  simpa [Operator.symbol] using h

/-- The operator of an update. -/
theorem exists_operator_update (op : UpdateOp) :
    ∃ o : Operator, o.isAssignment = true ∧ o.symbol = op.symbol ∧
      o.between = ' ' :: (o.symbol.toList ++ [' ']) ∧
      ∀ t v : Expr R, t.isVar = true → Grammar.assignTo o t v = .ok (.update op t v) := by
  cases op with
  | add => exact ⟨.addAssign, rfl, rfl, rfl, fun _ _ ht => if_pos ht⟩
  | sub => exact ⟨.subAssign, rfl, rfl, rfl, fun _ _ ht => if_pos ht⟩
  | mul => exact ⟨.mulAssign, rfl, rfl, rfl, fun _ _ ht => if_pos ht⟩
  | div => exact ⟨.divAssign, rfl, rfl, rfl, fun _ _ ht => if_pos ht⟩

theorem printed_update {op : UpdateOp} (hx : t.isVar = true) (hk : Expr.KeepsTarget t t₀)
    (ht : Printed U t t₀) (hv : Printed U v v₀) :
    Printed U (.update op t v) (.update op t₀ v₀) := by
  refine printed_of_not_atomic rfl ?_
  obtain ⟨o, ho, hsymbol, hb, hassign⟩ := exists_operator_update (R := R) op
  have h : Spells U _ (.update op t₀ v₀) :=
    spells_assign ho hb (Expr.isVarOrCall_of_isVar hx) ht hv fun t' v' ht' hv' =>
      ⟨_, hassign t' v' (Expr.isVar_of_same ht' (hk.isVar hx)),
        by simp [Expr.same, ht', hv']⟩
  rw [Expr.text_update]
  simpa [hsymbol] using h

theorem printed_increment (hx : t.isVar = true) (hk : Expr.KeepsTarget t t₀)
    (ht : Printed U t t₀) : Printed U (.increment t) (.increment t₀) := by
  refine printed_of_not_atomic rfl ?_
  have hz := Expr.isNegativeZero_of_isVarOrCall (Expr.isVarOrCall_of_isVar hx)
  have htext : Spells U (operandText t t.text ++ Operator.increment.symbol).toList
      (.increment t₀) :=
    spells_trailing ht hz fun t' hs =>
      ⟨.increment t', congrArg some (if_pos (Expr.isVar_of_same hs (hk.isVar hx))), hs⟩
  rw [Expr.text_increment]
  exact htext

theorem printed_decrement (hx : t.isVar = true) (hk : Expr.KeepsTarget t t₀)
    (ht : Printed U t t₀) : Printed U (.decrement t) (.decrement t₀) := by
  refine printed_of_not_atomic rfl ?_
  have hz := Expr.isNegativeZero_of_isVarOrCall (Expr.isVarOrCall_of_isVar hx)
  have htext : Spells U (operandText t t.text ++ Operator.decrement.symbol).toList
      (.decrement t₀) :=
    spells_trailing ht hz fun t' hs =>
      ⟨.decrement t', congrArg some (if_pos (Expr.isVar_of_same hs (hk.isVar hx))), hs⟩
  rw [Expr.text_decrement]
  exact htext

theorem printed_undefine (hx : t.isVarOrCall = true) (hk : Expr.KeepsTarget t t₀)
    (ht : Printed U t t₀) : Printed U (.undefine t) (.undefine t₀) := by
  refine printed_of_atomic rfl rfl ?_
  rw [Expr.text_undefine]
  refine spellsAtom_builtin Builtin.ofName?_undef rfl (.cons ht .nil) fun es' hs => ?_
  cases hs with
  | cons ht' hn =>
    cases hn
    rename_i t'
    refine ⟨.undefine t', ?_, ht'⟩
    have hx' := Expr.isVarOrCall_of_same ht' (hk.isVarOrCall hx)
    cases t' <;> first | rfl | cases hx'

end Targets

/-! ## Constructs -/

omit [Scalar R] in
/-- The name of a construct that is written as the call of a built-in function with its
subexpressions, and what the name stands for. -/
def construct? : Expr R → Option (String × Builtin)
  | .ifThen _ _ | .ifThenElse _ _ _ => some ("if", .condition)
  | .forLoop _ _ _ _ => some ("for", .forLoop)
  | .whileLoop _ _ => some ("while", .whileLoop)
  | .simplify _ => some ("simplify", .simplify)
  | _ => none

section Construct

variable {f : String} {b : Builtin}

theorem text_construct (h : construct? e = some (f, b)) :
    e.text = callText f (e.children.map text) := by
  cases e <;> cases h <;> rfl

omit [Scalar R] in
theorem ofName?_construct (h : construct? e = some (f, b)) :
    Builtin.ofName? f = some b := by
  cases e <;> cases h
  · exact Builtin.ofName?_if
  · exact Builtin.ofName?_if
  · exact Builtin.ofName?_for
  · exact Builtin.ofName?_while
  · exact Builtin.ofName?_simplify

/-- The call stands for the construct over its arguments. -/
theorem build_construct (h : construct? e = some (f, b)) (hlen : es.length = e.children.length) :
    b.accepts es.length = true ∧ b.build f es = .ok (e.withChildren es) := by
  cases e <;> cases h
  · match es, hlen with
    | [_, _], _ => exact ⟨rfl, rfl⟩
  · match es, hlen with
    | [_, _, _], _ => exact ⟨rfl, rfl⟩
  · match es, hlen with
    | [_, _, _, _], _ => exact ⟨rfl, rfl⟩
  · match es, hlen with
    | [_, _], _ => exact ⟨rfl, rfl⟩
  · match es, hlen with
    | [_], _ => exact ⟨rfl, rfl⟩

/-- A construct has no data but its subexpressions. -/
theorem sameLabel_construct (h : construct? e = some (f, b))
    (hlen : es.length = e.children.length) (hlen₀ : es₀.length = e.children.length) :
    Expr.sameLabel (e.withChildren es) (e.withChildren es₀) = true := by
  cases e <;> cases h
  · match es, es₀, hlen, hlen₀ with
    | [_, _], [_, _], _, _ => rfl
  · match es, es₀, hlen, hlen₀ with
    | [_, _, _], [_, _, _], _, _ => rfl
  · match es, es₀, hlen, hlen₀ with
    | [_, _, _, _], [_, _, _, _], _, _ => rfl
  · match es, es₀, hlen, hlen₀ with
    | [_, _], [_, _], _, _ => rfl
  · match es, es₀, hlen, hlen₀ with
    | [_], [_], _, _ => rfl

theorem printed_construct (h : construct? e = some (f, b))
    (hes : List.Forall₂ (Printed U) e.children es₀) : Printed U e (e.withChildren es₀) := by
  have hlen : es₀.length = e.children.length := hes.length_eq.symm
  refine printed_of_atomic (by cases e <;> first | rfl | cases h)
    (by cases e <;> first | rfl | cases h) ?_
  rw [text_construct h]
  refine spellsAtom_builtin (ofName?_construct h) (build_construct h rfl).1 hes
    fun es' hs => ?_
  have hlen' : es'.length = e.children.length := hs.length_eq.trans hlen
  refine ⟨_, (build_construct h hlen').2, ?_⟩
  rw [Expr.same_eq, sameLabel_construct h hlen' hlen, Expr.children_withChildren e hlen',
    Expr.children_withChildren e hlen, Expr.sameList_iff.2 hs]
  rfl

end Construct

theorem printed_derivative {x : String} (hx : isVariableName x = true) (h : Printed U e e₀) :
    Printed U (.derivative e x) (.derivative e₀ x) := by
  refine printed_of_atomic rfl rfl ?_
  rw [Expr.text_derivative]
  refine spellsAtom_builtin Builtin.ofName?_derivative rfl
    (.cons h (.cons (printed_var hx) .nil)) fun es' hs => ?_
  cases hs with
  | cons he hs =>
    cases hs with
    | cons hx' hn =>
      cases hn
      rw [Expr.eq_var_of_same hx']
      exact ⟨_, rfl, by simp [Expr.same, he]⟩

end SymbolicAlgebra
