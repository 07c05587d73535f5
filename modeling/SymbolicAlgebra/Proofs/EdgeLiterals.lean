import SymbolicAlgebra.Proofs.RoundTrip

set_option autoImplicit false

/-!
# Reading back literals at the edge

Displaying and reading is the identity up to equality where every literal is finite and none is
a negative zero. Beyond that the text is still read, and it is known as what
(`exists_parseText_reread`): the negative zeros, the infinite literals and those that are no number
come back as they are, but for the exceptions of `Expr.reread`. So the text stands for the
expression exactly where it has no exception (`parseText_text_edge`), and there are exceptions
among the expressions that texts are read as (`not_parseText_text_edge`).
-/

namespace SymbolicAlgebra

variable {R : Type} [Scalar R] {U : FunctionTable R} {e : Expr R}

/-- The text of an expression that a session comes upon is read as what it is read back as. -/
theorem exists_parseText_reread [ScalarText R] (he : Reachable U e) :
    ∃ e', parseText U e.text = .ok e' ∧ e'.same e.reread = true := by
  obtain ⟨w, e', h, hs⟩ := (printed_reread he.readable).spells
  refine ⟨e', ?_, hs⟩
  rw [← String.ofList_toList (s := e.text)]
  exact h.parseText

/-- Displaying and reading at the edge of the scalars. Whatever its literals are, an expression
that a text is read as, or that simplification and differentiation without functions make of
such an expression in any number of steps, has a text that is read. It is read as an expression
that equals `e.reread`, and this equals the expression itself exactly where no negative zero is
the base of a power or the operand of a factorial, no imaginary part is infinite or no number,
and no such magnitude has a unit whose symbol is a name. -/
theorem parseText_text_edge [ScalarText R] (he : Reachable U e) :
    ∃ e', parseText U e.text = .ok e' ∧ e'.same e.reread = true ∧
      (e'.same e = true ↔ e.Restorable) := by
  obtain ⟨e', h, hs⟩ := exists_parseText_reread he
  refine ⟨e', h, hs, ?_, ?_⟩
  · intro hsame
    exact Expr.restorable_of_same hsame hs
  · intro hr
    rwa [Expr.reread_eq_self hr] at hs

/-! ## The square of a negative zero -/

namespace Capped

/-- The square of a negative zero. -/
def zeroSquare : Expr Capped := .pow (.number (number true 0)) (.number (number false 2))

/-- The formula `(-0) ^ 2` is read as the square of a negative zero. -/
theorem parseText_zeroSquare (U : FunctionTable Capped) :
    parseText U "(-0) ^ 2" = .ok zeroSquare := by
  have hzero : Numeral.IsPlain ['0'] [] := Numeral.isPlain_toDigits 0
  have htwo : Numeral.IsPlain ['2'] [] := Numeral.isPlain_toDigits 2
  have h : Phrase U _ _ zeroSquare :=
    .power (.exponent (.group (.negate (.number hzero))) (.atom (.number htwo)))
  exact h.parseText

/-- Behind its sign the zero is squared first. -/
theorem not_restorable_zeroSquare : ¬ zeroSquare.Restorable := by
  intro h
  have hzero : (Expr.number (number true 0)).isNegativeZero = false := h.here
  cases hzero

end Capped

/-- The formula `(-0) ^ 2` is read, written without its parentheses and read again. -/
theorem parseText_text_edge_zeroSquare :
    let U : FunctionTable Capped := FunctionTable.empty
    let e := Capped.zeroSquare
    Reachable U e ∧ e.text = "-0 ^ 2" ∧
      ∃ e', parseText U e.text = .ok e' ∧ e'.same e.reread = true ∧
        (e'.same e = true ↔ e.Restorable) := by
  intro U e
  have he : Reachable U e := .read (Capped.parseText_zeroSquare U)
  exact ⟨he, rfl, parseText_text_edge he⟩

/-- Displaying and reading is not the identity up to equality on the expressions that texts are
read as and that have a literal at the edge: the square of a negative zero is written
`-0 ^ 2`. -/
theorem not_parseText_text_edge :
    ¬ ∀ (U : FunctionTable Capped) (text : String) (e : Expr Capped),
      parseText U text = .ok e → ¬ e.Writable →
        ∃ e', parseText U e.text = .ok e' ∧ e'.same e = true := by
  intro h
  have hread := Capped.parseText_zeroSquare FunctionTable.empty
  have hedge : ¬ Capped.zeroSquare.Writable := fun hw =>
    Capped.not_restorable_zeroSquare (Expr.restorable_of_writable hw)
  -- the equal expression would be the one that the text is read as
  obtain ⟨e', hparse, hsame⟩ := h _ _ _ hread hedge
  obtain ⟨e'', hparse', hreread⟩ := exists_parseText_reread (.read hread)
  obtain rfl : e' = e'' := Except.ok.inj (hparse.symm.trans hparse')
  exact Capped.not_restorable_zeroSquare (Expr.restorable_of_same hsame hreread)

end SymbolicAlgebra
