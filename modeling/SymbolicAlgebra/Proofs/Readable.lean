import SymbolicAlgebra.Proofs.DerivativeNodes
import SymbolicAlgebra.Proofs.FormulaNodes
import SymbolicAlgebra.Proofs.NameTokens

set_option autoImplicit false

/-!
# Readable expressions

Not every tree is the expression of some formula: a variable may have a name that is read
as something else, an update may act on what is no variable, a call may stand for another
function. An expression is readable where none of this happens at any of its nodes
(`Expr.Readable`).

What a text is read as is readable (`readable_of_parseText`), because tokens carry proper names and
the grammar checks the rest. Simplification and differentiation write no names and leave targets
alone, so they lead from readable expressions to readable ones (`Expr.readable_simplified`,
`Expr.readable_differentiate`).
-/

namespace SymbolicAlgebra

variable {R : Type}

namespace Expr

/-- What a node must satisfy, given its direct subexpressions, to be the node of a
formula. -/
def ReadableNode (U : FunctionTable R) : Expr R → Prop
  | .var x => isVariableName x = true
  | .aggregate op args => op.minArgs ≤ args.length
  | .matrix rows => RowsFit rows
  | .call f args => isFunctionName f = true ∧ Grammar.keepsCall U f args.length = true
  | .define t _ => Builtin.isDefinable t = true
  | .undefine t => t.isVarOrCall = true
  | .increment t | .decrement t | .update _ t _ => t.isVar = true
  | .derivative _ x => isVariableName x = true
  | _ => True

/-- Every node of the expression may be the node of a formula. -/
def Readable (U : FunctionTable R) (e : Expr R) : Prop := e.Everywhere (ReadableNode U)

variable {U : FunctionTable R}

theorem readable_iff {e : Expr R} :
    e.Readable U ↔ e.ReadableNode U ∧ ∀ c ∈ e.children, c.Readable U :=
  everywhere_iff

/-- A readable node over changed subexpressions is readable: it looks at targets, at the
number of arguments and at the rows of a matrix. -/
instance : StableNode (ReadableNode U) where
  plain e he := by
    cases e <;> first | exact trivial | cases he
  aggregate hlen h := by
    rw [ReadableNode, ← hlen]
    exact h
  matrix hfit := hfit
  call hlen h := by
    rw [ReadableNode, ← hlen]
    exact h
  define ht h := ht.isDefinable h
  undefine ht h := ht.isVarOrCall h
  increment ht h := ht.isVar h
  decrement ht h := ht.isVar h
  update ht h := ht.isVar h
  derivative h := h

end Expr

open SymbolicAlgebra.Expr (Readable ReadableNode)

variable [Scalar R] {U : FunctionTable R} {e : Expr R}

/-! ## Formulas -/

omit [Scalar R] in
/-- Over tokens with proper names the grammar makes readable nodes. -/
theorem formulaNode_readableNode (U : FunctionTable R) :
    Grammar.FormulaNode U Token.Named (ReadableNode U) where
  stable := inferInstance
  name h := h
  call hf hk := ⟨hf, hk⟩
  aggregate h := h
  define h := h
  undefine h := h
  increment h := h
  decrement h := h
  update h := h
  derivative h := h
  defaultDerivative := by
    intro u
    change isVariableName Builtin.defaultVariable = true
    decide +kernel

/-- Tokens that carry proper names form a readable expression. -/
theorem readable_of_parse {ts : List (Token R)} (ht : ∀ t ∈ ts, t.Named)
    (h : parse U ts = .ok e) : e.Readable U :=
  everywhere_of_parse (formulaNode_readableNode U) ht h

/-- What a text is read as is readable. -/
theorem readable_of_parseText {text : String} (h : parseText U text = .ok e) :
    e.Readable U := by
  unfold parseText at h
  split at h
  · cases h
  · rename_i ts hts
    exact readable_of_parse (named_of_tokenize hts) (Expr.mapError_eq_ok_iff.1 h)

/-! ## Simplification and differentiation -/

namespace Expr

/-- Simplification leads from readable expressions to readable ones. -/
theorem readable_simplified {s : Expr R} (he : e.Readable U) (h : e.simplified = .ok s) :
    s.Readable U :=
  everywhere_simplified he h

/-- Differentiation without functions leads from readable expressions to readable ones. -/
theorem readable_differentiate {simplify : Bool} {d : Expr R} {x : String}
    (he : e.Readable U) (h : e.differentiate FunctionTable.empty simplify x = .ok d) :
    d.Readable U := by
  refine everywhere_differentiate he ?_ h
  refine he.imp fun c _ => ?_
  cases c <;> trivial

end Expr

end SymbolicAlgebra
