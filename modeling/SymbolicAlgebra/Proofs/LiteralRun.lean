import SymbolicAlgebra.Proofs.NumeralRun

set_option autoImplicit false

/-!
# Reading literals

A real literal is a numeral, or one of the two words that stand for scalars (`RealText`,
`Reads.real`). A word takes nothing of what stands behind it for its own: behind a word the
imaginary unit is the end of a longer name, and the symbol of a unit is a name again, unless it
starts with a degree sign (`Reads.factor`, `Reads.scale`). A real literal, a sign and an imaginary
literal are read as one literal (`Reads.complex`).
-/

namespace SymbolicAlgebra

open Text (Cursor isBlank isNameStart byteLength)

variable {R : Type} [Scalar R]

/-! ## Real literals -/

/-- The text of a real literal without a sign, and the scalar that it is read as. -/
inductive RealText : List Char → R → Prop where
  /-- A plain numeral. -/
  | numeral {whole fraction : List Char} (h : Numeral.IsPlain whole fraction) :
      RealText (Numeral.plain whole fraction) (Numeral.value whole fraction)
  /-- A word that stands for a scalar. -/
  | word {x : String} {a : R} (h : Lexeme.scalarWord? x = some a) : RealText x.toList a

/-- The words of scalars are words. -/
theorem isWord_of_scalarWord? {x : String} {a : R} (h : Lexeme.scalarWord? x = some a) :
    isWord x.toList = true := by
  rcases Lexeme.eq_of_scalarWord? h with rfl | rfl <;> decide

/-- A real literal does not start like a symbol. -/
theorem RealText.endsSymbol {s : List Char} {a : R} (h : RealText s a) (rest : List Char) :
    Lexeme.endsSymbol (s ++ rest) = true := by
  cases h with
  | numeral h => exact endsSymbol_plain h rest
  | word h => exact Lexeme.endsSymbol_of_isWord (isWord_of_scalarWord? h) rest

/-- A real literal is read as a number where an operand ends behind it. -/
theorem Reads.real (v : View R) {s rest : List Char} {a : R} (h : RealText s a)
    (hr : EndsOperand rest) : Reads v s rest (v.push (.number a)) := by
  cases h with
  | numeral h => exact .number v h hr
  | word h => exact .scalar v h hr.word

/-! ## Units behind words -/

namespace MeasureUnit

/-- Whether the symbol of the unit starts with a degree sign. -/
def hasDegreeSign (u : MeasureUnit) : Bool :=
  u.symbol.toList.head? == some UnitSuffix.degreeSign

/-- The power in the symbol of the unit, if there is one. -/
def exponent? (u : MeasureUnit) : Option Char :=
  match u.symbol.toList.drop u.stem.length with
  | ['^', n] => some n
  | _ => none

/-- The name that a symbol without a degree sign starts with. -/
def stemName (u : MeasureUnit) : String := String.ofList u.stem

theorem isVariableName_stemName {u : MeasureUnit} (h : u.hasDegreeSign = false) :
    isVariableName u.stemName = true := by
  have hall : (all.all fun u => u.hasDegreeSign || isVariableName u.stemName) = true := by
    decide +kernel
  have hu := List.all_eq_true.1 hall u u.mem_all
  rwa [h, Bool.false_or] at hu

/-- A symbol with a degree sign is this sign with the letter of a scale. -/
theorem exists_scale {u : MeasureUnit} (h : u.hasDegreeSign = true) :
    ∃ x, u.symbol.toList = [UnitSuffix.degreeSign, x] ∧ UnitSuffix.isScale x = true := by
  cases u <;> first
    | exact ⟨'C', rfl, rfl⟩
    | exact ⟨'F', rfl, rfl⟩
    | exact absurd h (by decide)

/-- The tokens of the symbol of a unit where it stands behind a word and not behind a
numeral: a name, possibly with a power. -/
def factorTokens (u : MeasureUnit) : List (Token R) :=
  match u.exponent? with
  | none => [.name u.stemName]
  | some n => [.name u.stemName, .operator .power, .number (Numeral.value [n] [])]

end MeasureUnit

/-- Behind a word the symbol of a unit is read as a name, possibly with a power. -/
theorem Reads.factor (v : View R) {u : MeasureUnit} (hu : u.hasDegreeSign = false)
    {rest : List Char} (hr : EndsOperand rest) :
    Reads v u.symbol.toList rest (v.append u.factorTokens) := by
  have hx := MeasureUnit.isVariableName_stemName hu
  have hstem : u.stemName.toList = u.stem := String.toList_ofList
  unfold MeasureUnit.factorTokens MeasureUnit.exponent?
  cases unitShape u with
  | word hs _ _ _ =>
    have hname : Reads v u.stemName.toList rest (v.push (.name u.stemName)) :=
      .name v hx hr.word (UnitSuffix.any_isCallBracket_eq_false hr)
    rw [hs, List.drop_length]
    rwa [hstem] at hname
  | power n hs hn _ _ _ =>
    have hplain : Numeral.IsPlain [n] [] := by
      rcases hn with rfl | rfl <;>
        exact ⟨List.cons_ne_nil _ _, List.forall_mem_singleton.2 rfl, nofun, nofun⟩
    -- the name ends before the sign of the power, and the power is a numeral
    have hname : Reads v u.stemName.toList ('^' :: n :: rest) (v.push (.name u.stemName)) :=
      .name v hx rfl rfl
    rw [hstem] at hname
    have ho : Operator.power.symbol.toList.all Lexeme.isOperatorChar = true := rfl
    have hends : Lexeme.SymbolEnds .power (n :: rest) :=
      Lexeme.symbolEnds_of_endsSymbol ho (endsSymbol_plain hplain rest)
    have hpower : Reads (v.push (.name u.stemName)) ['^'] (n :: rest) _ :=
      .infixSymbol rfl ho hends fun _ => ⟨nofun, nofun⟩
    rw [hs, List.drop_left]
    exact .trans hname (.trans (s := ['^']) hpower (.number _ hplain hr))
  | temperature x hs _ =>
    -- this symbol is no name
    rw [MeasureUnit.hasDegreeSign, hs] at hu
    cases hu

/-- A degree sign starts a unit. -/
theorem Lexeme.step_degreeSign (d : Draft R) (c : Cursor) :
    step d c UnitSuffix.degreeSign = temperature d c := by
  have hb : isBlank UnitSuffix.degreeSign = false := by decide +kernel
  have hs : isNameStart UnitSuffix.degreeSign = false := by decide +kernel
  have hn : Numeral.isStart UnitSuffix.degreeSign = false := by decide +kernel
  have hd : Delimiter.ofChar? UnitSuffix.degreeSign = none := by decide +kernel
  simp only [step, hb, hs, hn, hd, Bool.false_eq_true, ↓reduceIte]

/-- The symbol of a temperature scale is read as a unit, whatever stands before it. -/
theorem Reads.scale (v : View R) {u : MeasureUnit} (hu : u.hasDegreeSign = true)
    {rest : List Char} (hr : EndsOperand rest) :
    Reads v u.symbol.toList rest (v.push (.unit u)) := by
  obtain ⟨x, hs, hx⟩ := MeasureUnit.exists_scale hu
  have ht := UnitSuffix.temperature?_symbol hs hx hr
  have hcons : [UnitSuffix.degreeSign, x] ++ rest = UnitSuffix.degreeSign :: x :: rest := rfl
  rw [hs]
  refine .of_step hcons fun d o hd => ?_
  refine ⟨d.push (.unit u) o, o + byteLength [UnitSuffix.degreeSign, x], ?_, by
    rw [Draft.view_push, hd]⟩
  have hscan : UnitSuffix.scan? ⟨o, UnitSuffix.degreeSign :: x :: rest⟩ = some
      (u, ⟨o + byteLength [UnitSuffix.degreeSign, x], rest⟩) := ht o
  rw [Lexeme.step_degreeSign, Lexeme.temperature, hscan]

/-! ## Complex literals -/

namespace Draft

/-- Where an expression starts with a real literal, the literal and the sign behind it can
be merged with what follows. -/
theorem mergeable?_of_view {d : Draft R} {v : View R} (hv : v.startsExpression = true) {a : R}
    {negative minus : Bool}
    (hd : d.view =
      ((if negative then v.push (.operator .negate) else v).push (.number a)).push
        (.operator (if minus then .minus else .plus))) :
    ∃ m, d.mergeable? = some m ∧ m.real = (if negative then -a else a) ∧
      m.negative = minus ∧ m.before.view = v := by
  obtain ⟨ts, bs⟩ := d
  obtain ⟨ws, os⟩ := v
  obtain ⟨hw, ho⟩ := View.mk.inj hd
  have hsign : isMinus? (.operator (if minus then .minus else .plus) : Token R) =
      some minus := by cases minus <;> rfl
  cases negative with
  | true =>
    simp only [↓reduceIte, View.words_push, List.map_eq_cons_iff] at hw ho
    obtain ⟨⟨s, o₁⟩, _, rfl, rfl, ⟨n, o₂⟩, _, rfl, rfl, ⟨g, o₃⟩, ts, rfl, rfl, rfl⟩ := hw
    rw [← Draft.startsExpression_eq] at hv
    refine ⟨⟨-a, minus, o₃, ⟨ts, bs⟩⟩, ?_, rfl, rfl, ?_⟩
    · simp only [mergeable?, hsign, hv, ↓reduceIte]
    · simp only [view, View.mk.injEq, true_and]
      exact ho
  | false =>
    simp only [Bool.false_eq_true, ↓reduceIte, View.words_push, List.map_eq_cons_iff] at hw ho
    obtain ⟨⟨s, o₁⟩, _, rfl, rfl, ⟨n, o₂⟩, ts, rfl, rfl, rfl⟩ := hw
    rw [← Draft.startsExpression_eq] at hv
    refine ⟨⟨a, minus, o₂, ⟨ts, bs⟩⟩, ?_, rfl, rfl, ?_⟩
    · cases ts with
      | nil => simp only [mergeable?, hsign, hv, ↓reduceIte]
      | cons t ts =>
        obtain ⟨t, o₃⟩ := t
        -- a minus sign before the literal would not let an expression start there
        have hne : t ≠ .operator .negate := by
          rintro rfl
          cases hv
        unfold mergeable?
        simp only [hsign]
        split
        · rename_i heq
          exact absurd (congrArg Located.token (List.cons.inj heq).1) hne
        · rename_i hm _
          rw [← Option.some.inj hm]
          simp only [hv, ↓reduceIte]
        · rename_i hm
          cases hm
    · simp only [view, View.mk.injEq, true_and]
      exact ho

end Draft

/-- A scalar, with a minus sign before it or without. -/
def withSign (minus : Bool) (v : R) : R := if minus then -v else v

/-- The character of a sign. -/
def signChar (minus : Bool) : Char := if minus then '-' else '+'

/-- Behind an operand a sign without blanks is read as an operation. -/
theorem Reads.sign {v : View R} (hv : v.atOperandStart = false) (minus : Bool)
    {rest : List Char} (hr : Lexeme.endsSymbol rest = true) :
    Reads v [signChar minus] rest
      (v.push (.operator (if minus then .minus else .plus))) := by
  cases minus with
  | true =>
    have hs : Operator.minus.symbol.toList.all Lexeme.isOperatorChar = true := rfl
    exact .infixSymbol hv hs (Lexeme.symbolEnds_of_endsSymbol hs hr) fun _ => ⟨nofun, nofun⟩
  | false =>
    have hs : Operator.plus.symbol.toList.all Lexeme.isOperatorChar = true := rfl
    exact .infixSymbol hv hs (Lexeme.symbolEnds_of_endsSymbol hs hr) fun _ => ⟨nofun, nofun⟩

/-- A real literal, a sign and an imaginary literal are read as one complex literal where
an expression starts with them. -/
theorem Reads.complex {v : View R} (hv : v.startsExpression = true) (negative minus : Bool)
    {s whole fraction rest : List Char} {a : R} (h : RealText s a)
    (hp : Numeral.IsPlain whole fraction) (hr : endsPhrase rest = true) :
    Reads v
      ((if negative then ['-'] else []) ++ (s ++
        ([signChar minus] ++ (Numeral.plain whole fraction ++ ['i'])))) rest
      (v.push (.complex ⟨withSign negative a,
        withSign minus (Numeral.value whole fraction)⟩)) := by
  let v₁ : View R := if negative then v.push (.operator .negate) else v
  let v₂ : View R := v₁.push (.number a)
  let v₃ : View R := v₂.push (.operator (if minus then .minus else .plus))
  have hsign : ∀ tl, EndsOperand (signChar minus :: tl) := by
    intro tl
    cases minus <;> exact .of_head (by decide) tl
  refine .trans (?_ : Reads v _ _ v₁) (.trans (?_ : Reads v₁ _ _ v₂)
    (.trans (?_ : Reads v₂ _ _ v₃) ?_))
  · cases negative with
    | true =>
      refine .minusSign (View.atOperandStart_of_startsExpression hv) ?_
      rw [List.append_assoc]
      exact h.endsSymbol _
    | false => exact .nil v _
  · exact .real v₁ h (hsign _)
  · refine .sign rfl minus ?_
    rw [List.append_assoc]
    exact endsSymbol_plain hp _
  · -- only now is there anything to merge: so far the tokens are a number and a sign
    refine .imaginary hp hr fun d o hd => ?_
    obtain ⟨m, hm, hre, hneg, hbefore⟩ := Draft.mergeable?_of_view hv hd
    simp only [Draft.pushImaginary, hm, Draft.view_push, hbefore, hre, hneg]
    rfl

end SymbolicAlgebra
