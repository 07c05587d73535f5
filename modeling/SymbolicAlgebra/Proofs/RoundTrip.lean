import SymbolicAlgebra.Proofs.PrintedLiterals
import SymbolicAlgebra.Proofs.SyntaxTokens

set_option autoImplicit false

/-!
# Printing and reading back

The formula text of an expression reads back as an equal expression, for every expression
that a session comes upon (`Reachable`): those that texts are read as, and those that
simplification and differentiation make of them, in any order and number of steps.

The printer writes the concrete syntax, the concrete syntax is taken apart into the right
tokens, and these form the right expression. What remains is that every expression of a
session is readable (`Reachable.readable`); then `parseText_text` puts the parts together.
-/

namespace SymbolicAlgebra

variable {R : Type} [Scalar R]

/-- The expressions that come from texts by simplification and by differentiation without
functions, repeated in any order. -/
inductive Reachable (U : FunctionTable R) : Expr R → Prop where
  /-- What a text is read as. -/
  | read {text : String} {e : Expr R} (h : parseText U text = .ok e) : Reachable U e
  /-- The simplified form of what was reached. -/
  | simplified {e s : Expr R} (he : Reachable U e) (h : e.simplified = .ok s) :
      Reachable U s
  /-- A derivative, simplified or not, of what was reached. -/
  | derivative {e d : Expr R} {simplify : Bool} {x : String} (he : Reachable U e)
      (h : e.differentiate FunctionTable.empty simplify x = .ok d) : Reachable U d

variable {U : FunctionTable R} {e : Expr R}

/-- Whatever a session comes upon is readable. -/
theorem Reachable.readable (h : Reachable U e) : e.Readable U := by
  induction h with
  | read h => exact readable_of_parseText h
  | simplified _ h ih => exact Expr.readable_simplified ih h
  | derivative _ h ih => exact Expr.readable_differentiate ih h

/-- A text of the concrete syntax is read as the expression that it stands for. -/
theorem Phrase.parseText {s : List Char} {w : List (Token R)} (h : Phrase U s w e) :
    parseText U (String.ofList s) = .ok e := by
  unfold SymbolicAlgebra.parseText
  rw [h.tokenize]
  dsimp only
  rw [h.parse]
  rfl

/-- Displaying and reading is the identity up to equality. Whatever functions are known, an
expression that a text is read as, or that simplification and differentiation without
functions make of such an expression in any number of steps, has a text that is read, and
read as an equal expression, provided that its literals are finite and none is a negative
zero. -/
theorem parseText_text [DecimalText R] (he : Reachable U e) (hw : e.Writable) :
    ∃ e', parseText U e.text = .ok e' ∧ e'.same e = true := by
  obtain ⟨w, e', h, hs⟩ := (printed_of_readable he.readable hw).spells
  refine ⟨e', ?_, hs⟩
  rw [← String.ofList_toList (s := e.text)]
  exact h.parseText

/-- The sum `x + (-5)` is read and simplified to the difference `x - 5`, whose text is read
as this difference. -/
theorem parseText_text_difference :
    let U : FunctionTable Whole := FunctionTable.empty
    let e : Expr Whole := .sub (.var "x") (.number ⟨5⟩)
    Reachable U e ∧ ∃ e', parseText U e.text = .ok e' ∧ e'.same e = true := by
  intro U e
  have hfive : Numeral.IsPlain ['5'] [] := Numeral.isPlain_toDigits 5
  have hplus : Level.sum.connective? .plus = some (.operation .add) := rfl
  have hread : Phrase U _ _ (.add (.var "x") (.number ⟨-5⟩)) :=
    .chain hplus (.name (x := "x") (by decide +kernel)) (.group (.negate (.number hfive)))
  have hkept : e.simplified = .ok e := by
    refine (Expr.simplified_binary_eq (Expr.simplified_var _)
      (Expr.simplified_number _)).trans ?_
    exact Expr.simplifyNext_eq_ok_iff.2 (.inl ⟨rfl, rfl⟩)
  have hsimplified : (Expr.add (.var "x") (.number ⟨-5⟩) : Expr Whole).simplified =
      .ok e := by
    refine (Expr.simplified_binary_eq (Expr.simplified_var _)
      (Expr.simplified_number _)).trans ?_
    exact Expr.simplifyNext_eq_ok_iff.2 (.inr ⟨e, rfl, hkept⟩)
  have he : Reachable U e := .simplified (.read hread.parseText) hsimplified
  have hx : (Expr.var "x" : Expr Whole).Writable := Expr.everywhere_iff.2 ⟨trivial, nofun⟩
  have hfinite : (Expr.number ⟨5⟩ : Expr Whole).Writable :=
    Expr.everywhere_iff.2 ⟨⟨rfl, rfl⟩, nofun⟩
  have hw : e.Writable := by
    refine Expr.everywhere_iff.2 ⟨trivial, ?_⟩
    intro c hc
    rcases List.mem_pair.1 hc with rfl | rfl
    · exact hx
    · exact hfinite
  exact ⟨he, parseText_text he hw⟩

end SymbolicAlgebra
